import Mathlib.Data.List.Basic
import OpcConfig.Library.Strtod
import OpcConfig.Nlohmann

/-! # How `serializer` writes an integer

The digits go two at a time into `number_buffer`, from the end that
`count_digits` has foreseen. `none` is a write outside the buffer or a failed
assertion.
-/

namespace OpcConfig.Serializer

set_option autoImplicit false

open CString Printf Strtod

/-! ## The code -/

def countDigits (x nDigits : Nat) : Nat :=
  if x < 10 then nDigits
  else if x < 100 then nDigits + 1
  else if x < 1000 then nDigits + 2
  else if x < 10000 then nDigits + 3
  else countDigits (x / 10000) (nDigits + 4)
termination_by x

def digitsTo99 (index : Nat) : UInt8 × UInt8 :=
  (UInt8.ofNat (48 + index / 10), UInt8.ofNat (48 + index % 10))

/-- `*(--buffer_ptr) = byte`. -/
def putBefore (byte : UInt8) : Bytes × Nat → Option (Bytes × Nat)
  | (_, 0) => none
  | (buffer, p + 1) => if p < buffer.length then some (buffer.set p byte, p) else none

def putPair (index : Nat) (target : Bytes × Nat) : Option (Bytes × Nat) := do
  putBefore (digitsTo99 index).1 (← putBefore (digitsTo99 index).2 target)

def writeDigits (absValue : Nat) (target : Bytes × Nat) : Option (Bytes × Nat) :=
  if 100 ≤ absValue then do
    writeDigits (absValue / 100) (← putPair (absValue % 100) target)
  else if 10 ≤ absValue then putPair absValue target
  else putBefore (UInt8.ofNat (48 + absValue)) target
termination_by absValue

def removeSign (x : Int) : Nat := (-(x + 1)).toNat + 1

/-- The characters that `dump_integer` puts out, and the buffer afterwards. -/
def dumpInteger (x : JsonInteger) (numberBuffer : Bytes) : Option (Bytes × Bytes) :=
  if x.val = 0 then some (ascii "0", numberBuffer)
  else do
    let negative := decide (x.val < 0)
    let absValue := if negative then removeSign x.val else x.val.toNat
    let nChars := if negative then 1 + countDigits absValue 1 else countDigits absValue 1
    let buffer := if negative then numberBuffer.set 0 45 else numberBuffer
    if nChars < numberBuffer.length - 1 then
      let (buffer, _) ← writeDigits absValue (buffer, nChars)
      return (buffer.take nChars, buffer)
    else none

/-! ## What it writes -/

theorem countDigits_eq (x nDigits : Nat) :
    countDigits x nDigits + 1 = nDigits + (numeral x).length := by
  induction x using Nat.strongRecOn generalizing nDigits with
  | ind x ih =>
    have hSmall : ∀ {y : Nat}, y < 10 → (numeral y).length = 1 := length_numeral_of_lt
    have hStep : ∀ {y : Nat}, 10 ≤ y → (numeral y).length = (numeral (y / 10)).length + 1 :=
      length_numeral_of_le
    rw [countDigits]
    split
    · rename_i h
      rw [hSmall h]
    · split
      · rw [hStep (by omega), hSmall (by omega)]
      · split
        · rw [hStep (by omega), hStep (by omega), hSmall (by omega)]
        · split
          · rw [hStep (by omega), hStep (by omega), hStep (by omega), hSmall (by omega)]
          · have hFour : (numeral x).length = (numeral (x / 10000)).length + 4 := by
              rw [hStep (by omega), hStep (by omega), hStep (by omega), hStep (by omega),
                Nat.div_div_eq_div_mul, Nat.div_div_eq_div_mul, Nat.div_div_eq_div_mul]
            rw [ih _ (by omega), hFour]
            omega

theorem countDigits_one (x : Nat) : countDigits x 1 = (numeral x).length := by
  have h := countDigits_eq x 1
  omega

theorem putBefore_append (byte old : UInt8) (left right : Bytes) :
    putBefore byte (left ++ old :: right, left.length + 1) =
      some (left ++ byte :: right, left.length) := by
  have hLess : left.length < (left ++ old :: right).length := by simp
  rw [putBefore, if_pos hLess, List.set_append_right _ _ (Nat.le_refl _), Nat.sub_self, List.set_cons_zero]

theorem putPair_append (index : Nat) (old old' : UInt8) (left right : Bytes) :
    putPair index (left ++ old :: old' :: right, left.length + 2) =
      some (left ++ (digitsTo99 index).1 :: (digitsTo99 index).2 :: right, left.length) := by
  have hLast := putBefore_append (digitsTo99 index).2 old' (left ++ [old]) right
  rw [List.append_assoc, List.append_assoc, List.length_append] at hLast
  have hFirst := putBefore_append (digitsTo99 index).1 old left ((digitsTo99 index).2 :: right)
  change putBefore _ (left ++ old :: old' :: right, left.length + 2) = _ at hLast
  rw [putPair, hLast]
  exact hFirst

theorem numeral_pair {n : Nat} (h : 10 ≤ n) (h' : n < 100) :
    numeral n = [(digitsTo99 n).1, (digitsTo99 n).2] := by
  rw [numeral_of_le h, numeral_of_lt (by omega)]
  rfl

theorem numeral_pairs {n : Nat} (h : 100 ≤ n) :
    numeral n = numeral (n / 100) ++ [(digitsTo99 (n % 100)).1, (digitsTo99 (n % 100)).2] := by
  rw [numeral_of_le (by omega), numeral_of_le (n := n / 10) (by omega), List.append_assoc,
    Nat.div_div_eq_div_mul, digitsTo99]
  have hTens : n / 10 % 10 = n % 100 / 10 := by omega
  have hOnes : n % 10 = n % 100 % 10 := by omega
  rw [hTens, hOnes]
  rfl

/-- The digits fill the room that is left for them, whatever stood there. -/
theorem writeDigits_eq (n : Nat) {room : Bytes} (hRoom : room.length = (numeral n).length)
    (left right : Bytes) : writeDigits n (left ++ (room ++ right), left.length + room.length) =
      some (left ++ (numeral n ++ right), left.length) := by
  induction n using Nat.strongRecOn generalizing room right with
  | ind n ih =>
    rw [writeDigits]
    split
    · rename_i h
      rw [numeral_pairs h, List.length_append] at hRoom
      obtain ⟨front, back, rfl, hFront, hBack⟩ : ∃ front back, room = front ++ back ∧
          front.length = (numeral (n / 100)).length ∧ back.length = 2 :=
        ⟨room.take (numeral (n / 100)).length, room.drop (numeral (n / 100)).length,
          (List.take_append_drop _ _).symm, by simp [hRoom], by simp [hRoom]⟩
      obtain ⟨old, old', rfl⟩ := List.length_eq_two.mp hBack
      have hPair := putPair_append (n % 100) old old' (left ++ front) right
      rw [List.append_assoc, List.length_append] at hPair
      rw [List.append_assoc, List.length_append, hBack]
      change (putPair _ (left ++ (front ++ old :: old' :: right), _)).bind _ = _
      rw [← Nat.add_assoc, hPair]
      change writeDigits _ _ = _
      rw [List.append_assoc, ih _ (by omega) hFront, numeral_pairs h, List.append_assoc]
      rfl
    · split
      · rename_i h' h
        rw [numeral_pair h (by omega)] at hRoom
        obtain ⟨old, old', rfl⟩ := List.length_eq_two.mp hRoom
        rw [numeral_pair h (by omega)]
        exact putPair_append n old old' left right
      · rename_i h' h
        rw [numeral_of_lt (by omega)] at hRoom
        obtain ⟨old, rfl⟩ := List.length_eq_one_iff.mp hRoom
        rw [numeral_of_lt (by omega)]
        exact putBefore_append _ old left right

theorem removeSign_eq {x : Int} (h : x < 0) : removeSign x = x.natAbs := by
  rw [removeSign]
  omega

theorem length_numeral_lt (x : JsonInteger) : (numeral x.val.natAbs).length ≤ 20 := by
  have hLow := x.lower
  have hHigh := x.upper
  exact length_numeral_le (by decide) (by omega)

/-- The digits behind what the buffer already begins with. -/
theorem writeDigits_take {n : Nat} (front : Bytes) {buffer : Bytes} (hFront : front <+: buffer)
    (hLength : front.length + (numeral n).length ≤ buffer.length) :
    ∃ buffer', writeDigits n (buffer, front.length + (numeral n).length) =
        some (buffer', front.length) ∧ buffer'.length = buffer.length ∧
      buffer'.take (front.length + (numeral n).length) = front ++ numeral n := by
  obtain ⟨l, rfl⟩ := hFront
  rw [List.length_append] at hLength
  have hRoom : (l.take (numeral n).length).length = (numeral n).length := by
    rw [List.length_take]
    omega
  have hWrite := writeDigits_eq n hRoom front (l.drop (numeral n).length)
  rw [hRoom, List.take_append_drop] at hWrite
  refine ⟨_, hWrite, ?_, ?_⟩
  · simp only [List.length_append, List.length_drop]
    omega
  · rw [← List.append_assoc, ← List.length_append, List.take_left]

/-- `dump_integer` puts out the decimal numeral, whatever the buffer has from
before, and writes nowhere else. -/
theorem dumpInteger_eq (x : JsonInteger) {numberBuffer : Bytes} (hBuffer : numberBuffer.length = 64) :
    ∃ buffer, dumpInteger x numberBuffer = some (decimal x.val, buffer) ∧ buffer.length = 64 := by
  have hDigits := length_numeral_lt x
  rw [dumpInteger]
  split
  · rename_i hZero
    rw [hZero]
    exact ⟨numberBuffer, rfl, hBuffer⟩
  · rename_i hNonzero
    cases hSign : decide (x.val < 0) with
    | true =>
      have hNegative := of_decide_eq_true hSign
      have hFront : [45] <+: numberBuffer.set 0 45 := by
        obtain ⟨b, l, rfl⟩ := List.exists_cons_of_length_pos (by omega : 0 < numberBuffer.length)
        exact ⟨l, rfl⟩
      obtain ⟨buffer, hWrite, hKept, hTake⟩ := writeDigits_take (n := x.val.natAbs) [45] hFront
        (by rw [List.length_set, List.length_singleton]; omega)
      rw [List.length_set] at hKept
      rw [List.length_singleton] at hWrite hTake
      refine ⟨buffer, ?_, hKept.trans hBuffer⟩
      simp only [if_true, removeSign_eq hNegative, countDigits_one]
      rw [if_pos (by omega)]
      change (writeDigits _ _).bind _ = _
      rw [hWrite, decimal, if_pos hNegative]
      exact congrArg (fun text => some (text, buffer)) hTake
    | false =>
      have hPositive := of_decide_eq_false hSign
      have hAbs : x.val.toNat = x.val.natAbs := by omega
      obtain ⟨buffer, hWrite, hKept, hTake⟩ := writeDigits_take (n := x.val.natAbs) []
        (List.nil_prefix : [] <+: numberBuffer) (by rw [List.length_nil]; omega)
      rw [List.length_nil, Nat.zero_add] at hWrite hTake
      refine ⟨buffer, ?_, hKept.trans hBuffer⟩
      simp only [Bool.false_eq_true, if_false, hAbs, countDigits_one]
      rw [if_pos (by omega)]
      change (writeDigits _ _).bind _ = _
      rw [hWrite, decimal, if_neg hPositive]
      exact congrArg (fun text => some (text, buffer)) hTake

end OpcConfig.Serializer
