import Mathlib.Algebra.Order.Field.Rat
import Mathlib.Data.List.ModifyLast
import Mathlib.Tactic.Positivity
import OpcConfig.Grisu

/-! # The digits that Grisu2 generates

At the head of both loops the digits so far and what is left make up the upper
boundary, and what is left is more than the distance of the boundaries. So the
last digit is never zero, and the loops end after seventeen digits.
-/

namespace OpcConfig.Dtoa

set_option autoImplicit false

open Strtod

/-! ## Digits -/

theorem toNat_digit {d : Nat} (h : d < 10) : (digit d).toNat = 48 + d := toNat_ofNat_digit h

theorem isDigit_digit {d : Nat} (h : d < 10) : isDigit (digit d) = true := by
  rw [isDigit_iff, toNat_digit h]
  omega

theorem ofDigits_snoc (buffer : Bytes) {d : Nat} (h : d < 10) :
    ofDigits (buffer ++ [digit d]) = 10 * ofDigits buffer + d := by
  rw [ofDigits_append, ofDigits_singleton, toNat_digit h, List.length_singleton]
  omega

/-- Digits of which the first is not zero. -/
structure Leading (buffer : Bytes) : Prop where
  digits : Digits buffer
  head : buffer.head? ≠ some 48

theorem leading_nil : Leading [] := ⟨fun _ h => absurd h List.not_mem_nil, fun h => by cases h⟩

theorem Leading.snoc {buffer : Bytes} (h : Leading buffer) {d : Nat} (hd : d < 10)
    (hFirst : buffer = [] → 0 < d) : Leading (buffer ++ [digit d]) where
  digits b hb := by
    rcases List.mem_append.mp hb with hb | hb
    · exact h.digits b hb
    · rw [List.mem_singleton.mp hb]
      exact isDigit_digit hd
  head := by
    cases buffer with
    | nil =>
      intro hHead
      have hByte : (digit d).toNat = 48 := congrArg UInt8.toNat (Option.some.inj hHead)
      have hPos := hFirst rfl
      rw [toNat_digit hd] at hByte
      omega
    | cons b l => exact h.head

theorem wrap_eq {n : Nat} (h : n < 2 ^ 64) : wrap n = n := Nat.mod_eq_of_lt h

/-! ## Rounding the last digit -/

theorem digit_pred {d : Nat} (h : d + 1 < 10) : digit (d + 1) - 1 = digit d := by
  have hAll : ∀ d < 9, digit (d + 1) - 1 = digit d := by decide
  exact hAll d (by omega)

theorem grisu2Round_spec (front : Bytes) (dist : Nat) {d delta rest tenK : Nat} (hd : d < 10)
    (hRest : rest ≤ delta) (hMore : delta < rest + d * tenK) :
    ∃ d' rest', grisu2Round (front ++ [digit d]) dist delta rest tenK = front ++ [digit d'] ∧
      0 < d' ∧ d' < 10 ∧ rest' ≤ delta ∧ rest' + d' * tenK = rest + d * tenK := by
  induction d generalizing rest with
  | zero => omega
  | succ d ih =>
    rw [grisu2Round]
    split
    · rename_i hStep
      obtain ⟨_, _, hRoom, _⟩ := hStep
      have hSame : rest + tenK + d * tenK = rest + (d + 1) * tenK := by
        rw [Nat.succ_mul]
        omega
      rw [List.modifyLast_concat, digit_pred hd]
      obtain ⟨d', rest', hRound, hPos, hLess, hBelow, hSum⟩ :=
        @ih (rest + tenK) (by omega) (by omega) (by omega)
      exact ⟨d', rest', hRound, hPos, hLess, hBelow, hSum.trans hSame⟩
    · exact ⟨d + 1, rest, rfl, Nat.succ_pos d, hd, hRest, rfl⟩

/-! ## The integral part -/

section

variable {dist delta p2 shift plus : Nat}

/-- The head of the first loop, where `n` digits of the integral part are to come. -/
structure IntegralHead (delta p2 shift plus n p1 : Nat) (buffer : Bytes) : Prop where
  leading : Leading buffer
  first : buffer = [] → 10 ^ (n - 1) ≤ p1
  below : p1 < 10 ^ n
  sum : ofDigits buffer * 10 ^ n * 2 ^ shift + (p1 * 2 ^ shift + p2) = plus
  more : delta < p1 * 2 ^ shift + p2

theorem IntegralHead.digit {n p1 : Nat} {buffer : Bytes}
    (h : IntegralHead delta p2 shift plus (n + 1) p1 buffer) :
    p1 / 10 ^ n < 10 ∧ (buffer = [] → 0 < p1 / 10 ^ n) ∧
      p1 = p1 / 10 ^ n * 10 ^ n + p1 % 10 ^ n := by
  have hPos : 0 < 10 ^ n := Nat.pow_pos (by decide)
  refine ⟨?_, ?_, ?_⟩
  · have hBelow := h.below
    rw [pow_succ, Nat.mul_comm] at hBelow
    exact Nat.div_lt_of_lt_mul (by rwa [Nat.mul_comm])
  · intro hEmpty
    exact Nat.div_pos (h.first hEmpty) hPos
  · rw [Nat.mul_comm]
    exact (Nat.div_add_mod p1 (10 ^ n)).symm

/-- The sum at the next head. -/
theorem IntegralHead.next_sum {n p1 : Nat} {buffer : Bytes}
    (h : IntegralHead delta p2 shift plus (n + 1) p1 buffer) :
    ofDigits (buffer ++ [Dtoa.digit (p1 / 10 ^ n)]) * 10 ^ n * 2 ^ shift +
      (p1 % 10 ^ n * 2 ^ shift + p2) = plus := by
  obtain ⟨hDigit, _, hSplit⟩ := h.digit
  rw [← h.sum, ofDigits_snoc _ hDigit, pow_succ]
  conv_rhs => rw [hSplit]
  ring

theorem integralDigits_spec (dist : Nat) (hPlus : plus < 2 ^ 64) (hp2 : p2 < 2 ^ shift)
    (n p1 pow10 : Nat) (buffer : Bytes) (hPow : n ≠ 0 → pow10 = 10 ^ (n - 1))
    (h : IntegralHead delta p2 shift plus n p1 buffer) :
    (∃ buf left, integralDigits dist delta p2 shift n p1 pow10 buffer = (buf, some left) ∧
      Leading buf ∧ buf ≠ [] ∧ buf.length + left = buffer.length + n ∧
      delta < 10 ^ (left + 1) * 2 ^ shift ∧ ofDigits buf * 10 ^ left * 2 ^ shift ≤ plus ∧
      plus ≤ ofDigits buf * 10 ^ left * 2 ^ shift + delta) ∨
    ∃ buf, integralDigits dist delta p2 shift n p1 pow10 buffer = (buf, none) ∧ Leading buf ∧
      buf.length = buffer.length + n ∧ ofDigits buf * 2 ^ shift + p2 = plus ∧ delta < p2 := by
  induction n generalizing p1 pow10 buffer with
  | zero =>
    have hZero : p1 = 0 := Nat.lt_one_iff.mp h.below
    have hSum := h.sum
    have hMore := h.more
    rw [hZero, Nat.zero_mul, Nat.zero_add] at hSum hMore
    rw [pow_zero, Nat.mul_one] at hSum
    exact Or.inr ⟨buffer, rfl, h.leading, rfl, hSum, hMore⟩
  | succ n ih =>
    obtain ⟨hDigit, hFirst, hSplit⟩ := h.digit
    have hPow' : pow10 = 10 ^ n := hPow (Nat.succ_ne_zero n)
    have hSum := h.next_sum
    have hWrap : wrap (p1 % 10 ^ n * 2 ^ shift + p2) = p1 % 10 ^ n * 2 ^ shift + p2 :=
      wrap_eq (by omega)
    have hLeading := h.leading.snoc hDigit hFirst
    have hHead : p1 * 2 ^ shift + p2 =
        p1 % 10 ^ n * 2 ^ shift + p2 + p1 / 10 ^ n * (10 ^ n * 2 ^ shift) := by
      conv_lhs => rw [hSplit]
      ring
    rw [integralDigits]
    simp only [hPow', hWrap]
    split
    · rename_i hStop
      have hMore := h.more
      rw [hHead] at hMore
      have hUnit : 10 ^ n * 2 ^ shift < 2 ^ 64 := by
        have hPos : 1 ≤ p1 / 10 ^ n := by
          rcases Nat.eq_zero_or_pos (p1 / 10 ^ n) with hZero | hPos
          · rw [hZero] at hMore
            omega
          · exact hPos
        have hOnce := Nat.mul_le_mul_right (10 ^ n * 2 ^ shift) hPos
        have hTotal := h.sum
        omega
      rw [wrap_eq hUnit]
      obtain ⟨d', rest', hRound, hPos, hLess, hBelow, hSame⟩ :=
        grisu2Round_spec buffer dist hDigit hStop hMore
      refine Or.inl ⟨_, n, by rw [hRound], h.leading.snoc hLess fun _ => hPos, ?_, ?_, ?_, ?_, ?_⟩
      · simp
      · simp only [List.length_append, List.length_singleton]
        omega
      · have hp1 := Nat.mul_lt_mul_of_pos_right h.below (Nat.two_pow_pos shift)
        have hFull := Nat.mul_le_mul_right (2 ^ shift) (Nat.succ_le_of_lt h.below)
        rw [Nat.succ_eq_add_one, Nat.succ_mul] at hFull
        have hMore' := h.more
        omega
      · rw [← h.sum, ofDigits_snoc _ hLess, hHead, ← hSame, pow_succ]
        have hExpand : (10 * ofDigits buffer + d') * 10 ^ n * 2 ^ shift =
            ofDigits buffer * (10 ^ n * 10) * 2 ^ shift + d' * (10 ^ n * 2 ^ shift) := by ring
        omega
      · rw [← h.sum, ofDigits_snoc _ hLess, hHead, ← hSame, pow_succ]
        have hExpand : (10 * ofDigits buffer + d') * 10 ^ n * 2 ^ shift =
            ofDigits buffer * (10 ^ n * 10) * 2 ^ shift + d' * (10 ^ n * 2 ^ shift) := by ring
        omega
    · rename_i hGo
      have hNext : IntegralHead delta p2 shift plus n (p1 % 10 ^ n)
          (buffer ++ [digit (p1 / 10 ^ n)]) :=
        ⟨hLeading, fun hEmpty => by simp at hEmpty, Nat.mod_lt _ (Nat.pow_pos (by decide)), hSum,
          Nat.lt_of_not_le hGo⟩
      have hPowNext : n ≠ 0 → 10 ^ n / 10 = 10 ^ (n - 1) := by
        intro hn
        obtain ⟨m, rfl⟩ := Nat.exists_eq_succ_of_ne_zero hn
        rw [Nat.succ_eq_add_one, pow_succ, Nat.mul_div_cancel _ (by decide), Nat.add_sub_cancel]
      have hLength : (buffer ++ [digit (p1 / 10 ^ n)]).length + n = buffer.length + (n + 1) := by
        simp only [List.length_append, List.length_singleton]
        omega
      rcases ih _ _ _ hPowNext hNext with ⟨buf, left, hRun, hBuf, hNe, hLen, hRest⟩ |
        ⟨buf, hRun, hBuf, hLen, hRest⟩
      · exact Or.inl ⟨buf, left, hRun, hBuf, hNe, hLen.trans hLength, hRest⟩
      · exact Or.inr ⟨buf, hRun, hBuf, hLen.trans hLength, hRest⟩

/-! ## The fractional part -/

/-- The head of the second loop after `m` of its turns. -/
structure FractionalHead (delta shift plus m p2 : Nat) (buffer : Bytes) : Prop where
  leading : Leading buffer
  ne_nil : buffer ≠ []
  sum : ofDigits buffer * 2 ^ shift + p2 = plus * 10 ^ m
  below : p2 < 2 ^ shift
  more : delta * 10 ^ m < p2

/-- Sixteen digits at most are there when the loop goes on. -/
theorem length_le_of_more {k m : Nat} (hk : 10 ^ (k - 1) * 2 ^ shift ≤ plus)
    (hClose : plus < 10 ^ 16 * delta) (hMore : delta * 10 ^ m < 2 ^ shift) : k - 1 + m < 16 := by
  have hChain : delta * 10 ^ (k - 1 + m) < delta * 10 ^ 16 := by
    calc delta * 10 ^ (k - 1 + m) = 10 ^ (k - 1) * (delta * 10 ^ m) := by ring
      _ ≤ 10 ^ (k - 1) * 2 ^ shift := Nat.mul_le_mul_left _ (Nat.le_of_lt hMore)
      _ ≤ plus := hk
      _ < 10 ^ 16 * delta := hClose
      _ = delta * 10 ^ 16 := Nat.mul_comm _ _
  exact (Nat.pow_lt_pow_iff_right (by decide)).mp (Nat.lt_of_mul_lt_mul_left hChain)

theorem fractionalDigits_spec {k : Nat} (hShift : shift ≤ 60) (hk : 0 < k)
    (hInt : 10 ^ (k - 1) * 2 ^ shift ≤ plus) (hClose : plus < 10 ^ 16 * delta) (fuel dist m p2 : Nat)
    (buffer : Bytes) (hLength : buffer.length = k + m) (hFuel : 17 ≤ buffer.length + fuel)
    (h : FractionalHead delta shift plus m p2 buffer) :
    ∃ buf m', fractionalDigits shift fuel dist (delta * 10 ^ m) p2 m buffer = some (buf, m') ∧
      Leading buf ∧ buf ≠ [] ∧ buf.length ≤ 17 ∧ ofDigits buf * 2 ^ shift ≤ plus * 10 ^ m' ∧
      plus * 10 ^ m' ≤ ofDigits buf * 2 ^ shift + delta * 10 ^ m' := by
  have hPower : 2 ^ shift ≤ 2 ^ 60 := Nat.pow_le_pow_right (by decide) hShift
  induction fuel generalizing dist m p2 buffer with
  | zero =>
    have hShort := length_le_of_more hInt hClose (h.more.trans h.below)
    omega
  | succ fuel ih =>
    have hBelow := h.below
    have hMore := h.more
    have hShort := length_le_of_more hInt hClose (hMore.trans hBelow)
    have hTen : wrap (p2 * 10) = p2 * 10 := wrap_eq (by omega)
    have hDelta : wrap (delta * 10 ^ m * 10) = delta * 10 ^ (m + 1) := by
      rw [wrap_eq (by omega), pow_succ, Nat.mul_assoc]
    have hDigit : p2 * 10 / 2 ^ shift < 10 :=
      Nat.div_lt_of_lt_mul (Nat.mul_lt_mul_of_pos_right hBelow (by decide))
    have hSplit : p2 * 10 = p2 * 10 / 2 ^ shift * 2 ^ shift + p2 * 10 % 2 ^ shift := by
      rw [Nat.mul_comm (p2 * 10 / 2 ^ shift)]
      exact (Nat.div_add_mod _ _).symm
    have hSum : ofDigits (buffer ++ [digit (p2 * 10 / 2 ^ shift)]) * 2 ^ shift +
        p2 * 10 % 2 ^ shift = plus * 10 ^ (m + 1) := by
      rw [ofDigits_snoc _ hDigit, pow_succ, ← Nat.mul_assoc, ← h.sum]
      have hExpand : (10 * ofDigits buffer + p2 * 10 / 2 ^ shift) * 2 ^ shift =
          ofDigits buffer * 2 ^ shift * 10 + p2 * 10 / 2 ^ shift * 2 ^ shift := by ring
      omega
    rw [fractionalDigits]
    simp only [hTen, hDelta]
    split
    · rename_i hStop
      have hAbove : delta * 10 ^ (m + 1) <
          p2 * 10 % 2 ^ shift + p2 * 10 / 2 ^ shift * 2 ^ shift := by
        rw [pow_succ, ← Nat.mul_assoc]
        omega
      obtain ⟨d', rest', hRound, hPos, hLess, hRest, hSame⟩ :=
        grisu2Round_spec buffer (wrap (dist * 10)) hDigit hStop hAbove
      rw [ofDigits_snoc _ hDigit] at hSum
      have hExpand : ∀ d, (10 * ofDigits buffer + d) * 2 ^ shift =
          10 * ofDigits buffer * 2 ^ shift + d * 2 ^ shift := fun d => Nat.add_mul _ _ _
      rw [hExpand] at hSum
      refine ⟨_, m + 1, by rw [hRound], h.leading.snoc hLess fun _ => hPos, by simp, ?_, ?_, ?_⟩
      · rw [List.length_append, List.length_singleton]
        omega
      · rw [ofDigits_snoc _ hLess, hExpand]
        omega
      · rw [ofDigits_snoc _ hLess, hExpand]
        omega
    · rename_i hGo
      have hNext : FractionalHead delta shift plus (m + 1) (p2 * 10 % 2 ^ shift)
          (buffer ++ [digit (p2 * 10 / 2 ^ shift)]) :=
        ⟨h.leading.snoc hDigit fun hEmpty => absurd hEmpty h.ne_nil, by simp, hSum,
          Nat.mod_lt _ (Nat.two_pow_pos shift), Nat.lt_of_not_le hGo⟩
      exact ih _ _ _ _ (by simp only [List.length_append, List.length_singleton]; omega)
        (by simp only [List.length_append, List.length_singleton]; omega) hNext

end

/-! ## Both parts -/

theorem findLargestPow10_spec {n : Nat} (h : 0 < n) (h' : n < 10 ^ 10) :
    (findLargestPow10 n).2 = 10 ^ ((findLargestPow10 n).1 - 1) ∧ 0 < (findLargestPow10 n).1 ∧
      (findLargestPow10 n).2 ≤ n ∧ n < 10 ^ (findLargestPow10 n).1 := by
  rw [findLargestPow10]
  split_ifs <;> simp only [] <;> omega

/-- The digits are those of a number between the boundaries. -/
theorem grisu2DigitGen_spec (decimalExponent : Int) (minus w plus : Diyfp) (shift : Nat)
    (hShift : plus.e = -(shift : Int)) (hLow : 32 ≤ shift) (hHigh : shift ≤ 60)
    (hWord : plus.f < 2 ^ 64) (hOne : 2 ^ shift ≤ plus.f) (hMinus : 0 < minus.f)
    (hOrder : minus.f ≤ plus.f) (hClose : plus.f < 10 ^ 16 * (plus.f - minus.f)) :
    ∃ buf n, grisu2DigitGen decimalExponent minus w plus = some (buf, decimalExponent + n) ∧
      Leading buf ∧ buf ≠ [] ∧ buf.length ≤ 17 ∧
      (minus.f : Rat) ≤ ofDigits buf * 10 ^ n * 2 ^ shift ∧
      (ofDigits buf * 10 ^ n * 2 ^ shift : Rat) ≤ plus.f := by
  have hToNat : (-plus.e).toNat = shift := by omega
  have hPos : 0 < 2 ^ shift := Nat.two_pow_pos shift
  have hp1 : 0 < plus.f / 2 ^ shift := Nat.div_pos hOne hPos
  have hp1' : plus.f / 2 ^ shift < 10 ^ 10 := by
    have hWide : 2 ^ 32 ≤ 2 ^ shift := Nat.pow_le_pow_right (by decide) hLow
    have hNarrow : plus.f / 2 ^ shift < 2 ^ 32 :=
      Nat.div_lt_of_lt_mul (Nat.lt_of_lt_of_le hWord (Nat.mul_le_mul_right (2 ^ 32) hWide))
    omega
  obtain ⟨hPow, hk, hLowest, hBelow⟩ := findLargestPow10_spec hp1 hp1'
  rw [hPow] at hLowest
  have hSplit : plus.f / 2 ^ shift * 2 ^ shift + plus.f % 2 ^ shift = plus.f := by
    rw [Nat.mul_comm]
    exact Nat.div_add_mod _ _
  have hHead : IntegralHead (plus.f - minus.f) (plus.f % 2 ^ shift) shift plus.f
      (findLargestPow10 (plus.f / 2 ^ shift)).1 (plus.f / 2 ^ shift) [] := by
    refine ⟨leading_nil, fun _ => hLowest, hBelow, ?_, ?_⟩
    · rw [hSplit, ofDigits, List.foldl_nil]
      omega
    · omega
  have hInt : 10 ^ ((findLargestPow10 (plus.f / 2 ^ shift)).1 - 1) * 2 ^ shift ≤ plus.f := by
    have hScaled := Nat.mul_le_mul_right (2 ^ shift) hLowest
    omega
  have hRun := integralDigits_spec (plus.f - w.f) hWord (Nat.mod_lt _ hPos) _ _ _ [] (fun _ => hPow) hHead
  rw [grisu2DigitGen, hToNat]
  dsimp only [Diyfp.sub]
  generalize findLargestPow10 (plus.f / 2 ^ shift) = largest at hk hInt hRun
  rcases hRun with ⟨buf, left, hRun, hBuf, hNe, hLength, hLeft, hUpper, hLower⟩ |
    ⟨buf, hRun, hBuf, hLength, hSum, hMore⟩
  · rw [hRun]
    refine ⟨buf, left, rfl, hBuf, hNe, ?_, ?_, ?_⟩
    · have hShort : 10 ^ (largest.1 - 1) * 2 ^ shift < 10 ^ (16 + (left + 1)) * 2 ^ shift := by
        calc 10 ^ (largest.1 - 1) * 2 ^ shift ≤ plus.f := hInt
          _ < 10 ^ 16 * (plus.f - minus.f) := hClose
          _ ≤ 10 ^ 16 * (10 ^ (left + 1) * 2 ^ shift) := Nat.mul_le_mul_left _ (Nat.le_of_lt hLeft)
          _ = 10 ^ (16 + (left + 1)) * 2 ^ shift := by ring
      have hLess := (Nat.pow_lt_pow_iff_right (by decide : 1 < 10)).mp
        (Nat.lt_of_mul_lt_mul_right hShort)
      rw [List.length_nil] at hLength
      omega
    · rw [zpow_natCast]
      have hNat : minus.f ≤ ofDigits buf * 10 ^ left * 2 ^ shift := by omega
      exact_mod_cast hNat
    · rw [zpow_natCast]
      exact_mod_cast hUpper
  · rw [hRun]
    rw [List.length_nil, Nat.zero_add] at hLength
    have hNe : buf ≠ [] := by
      rintro rfl
      rw [List.length_nil] at hLength
      omega
    have hStart : FractionalHead (plus.f - minus.f) shift plus.f 0 (plus.f % 2 ^ shift) buf := by
      refine ⟨hBuf, hNe, ?_, Nat.mod_lt _ hPos, ?_⟩
      · rw [hSum, pow_zero, Nat.mul_one]
      · rwa [pow_zero, Nat.mul_one]
    obtain ⟨buf', m, hRun', hBuf', hNe', hLength', hUpper, hLower⟩ :=
      fractionalDigits_spec hHigh hk hInt hClose 17 (plus.f - w.f) 0 _ buf hLength (by omega) hStart
    rw [pow_zero, Nat.mul_one] at hRun'
    refine ⟨buf', -(m : Int), by simp [hRun', Int.sub_eq_add_neg], hBuf', hNe', hLength', ?_, ?_⟩
    · have hNat : minus.f * 10 ^ m ≤ ofDigits buf' * 2 ^ shift := by
        have hExpand := Nat.sub_mul plus.f minus.f (10 ^ m)
        have hScaled := Nat.mul_le_mul_right (10 ^ m) hOrder
        omega
      have hRat : (minus.f * 10 ^ m : Rat) ≤ ofDigits buf' * 2 ^ shift := by exact_mod_cast hNat
      rw [zpow_neg, zpow_natCast, mul_right_comm, ← div_eq_mul_inv, le_div_iff₀ (by positivity)]
      exact hRat
    · have hRat : (ofDigits buf' * 2 ^ shift : Rat) ≤ plus.f * 10 ^ m := by exact_mod_cast hUpper
      rw [zpow_neg, zpow_natCast, mul_right_comm, ← div_eq_mul_inv, div_le_iff₀ (by positivity)]
      exact hRat

end OpcConfig.Dtoa
