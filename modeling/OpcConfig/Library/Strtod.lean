import Mathlib.Algebra.Order.Field.Rat
import Mathlib.Data.List.TakeWhile
import Mathlib.Data.Nat.Digits.Defs
import OpcConfig.Library.Nearest
import OpcConfig.Library.Printf

/-! # Numbers in text, read by `strtoull`, `strtoll` and `strtod`

The texts are decimal and the locale is "C". A result out of range, for which
`errno` is set, is `none`.
-/

namespace Strtod

set_option autoImplicit false

open CString Binary64

def isDigit (b : UInt8) : Bool := decide (48 ≤ b.toNat ∧ b.toNat ≤ 57)

def ofDigits (digits : List UInt8) : Nat := digits.foldl (fun n b => 10 * n + (b.toNat - 48)) 0

def strtoull (text : List UInt8) : Option Nat :=
  let n := ofDigits (text.takeWhile isDigit)
  if n < 2 ^ 64 then some n else none

def sign : List UInt8 → Bool × List UInt8
  | [] => (false, [])
  | b :: l => if b = 45 then (true, l) else (false, b :: l)

def strtoll (text : List UInt8) : Option Int :=
  let magnitude := ofDigits ((sign text).2.takeWhile isDigit)
  let z : Int := if (sign text).1 then -magnitude else magnitude
  if -2 ^ 63 ≤ z ∧ z < 2 ^ 63 then some z else none

/-- The digits after the point, and what follows them. -/
def fraction : List UInt8 → List UInt8 × List UInt8
  | [] => ([], [])
  | b :: l => if b = 46 then (l.takeWhile isDigit, l.dropWhile isDigit) else ([], b :: l)

def signedDigits : List UInt8 → Int
  | [] => 0
  | b :: l =>
    if b = 45 then -ofDigits (l.takeWhile isDigit)
    else if b = 43 then ofDigits (l.takeWhile isDigit)
    else ofDigits ((b :: l).takeWhile isDigit)

def exponent : List UInt8 → Int
  | [] => 0
  | b :: l => if b = 101 ∨ b = 69 then signedDigits l else 0

def unsignedValue (text : List UInt8) : Rat :=
  let decimals := fraction (text.dropWhile isDigit)
  ofDigits (text.takeWhile isDigit ++ decimals.1) *
    10 ^ (exponent decimals.2 - (decimals.1.length : Int))

def strtod (text : List UInt8) : Binary64 :=
  signed (sign text).1 (nearest (unsignedValue (sign text).2))

example : strtod (ascii "-31.4e-1") = ⟨0xC0091EB851EB851F⟩ := by decide +kernel

/-! ## Digits -/

def Digits (l : List UInt8) : Prop := ∀ b ∈ l, isDigit b = true

theorem isDigit_iff {b : UInt8} : isDigit b = true ↔ 48 ≤ b.toNat ∧ b.toNat ≤ 57 := decide_eq_true_iff

theorem Digits.append {l l' : List UInt8} (h : Digits l) (h' : Digits l') : Digits (l ++ l') :=
  fun b hb => (List.mem_append.mp hb).elim (h b) (h' b)

theorem ofDigits_append (l l' : List UInt8) :
    ofDigits (l ++ l') = ofDigits l * 10 ^ l'.length + ofDigits l' := by
  have hFrom : ∀ (l : List UInt8) (n : Nat),
      l.foldl (fun n b => 10 * n + (b.toNat - 48)) n = n * 10 ^ l.length + ofDigits l := by
    intro l
    induction l with
    | nil => simp [ofDigits]
    | cons b l ih =>
      intro n
      rw [ofDigits, List.foldl_cons, List.foldl_cons, ih, ih (10 * 0 + _), List.length_cons, pow_succ]
      ring
  rw [ofDigits, List.foldl_append, hFrom]
  rfl

theorem ofDigits_singleton (b : UInt8) : ofDigits [b] = b.toNat - 48 := by simp [ofDigits]

theorem ofDigits_cons (b : UInt8) (l : List UInt8) :
    ofDigits (b :: l) = (b.toNat - 48) * 10 ^ l.length + ofDigits l := by
  have hSplit := ofDigits_append [b] l
  rwa [ofDigits_singleton] at hSplit

theorem ofDigits_replicate_zero (n : Nat) : ofDigits (List.replicate n 48) = 0 := by
  induction n with
  | zero => rfl
  | succ n ih =>
    rw [List.replicate_succ, ofDigits_cons, ih]
    simp

theorem ofDigits_lt {l : List UInt8} (h : Digits l) : ofDigits l < 10 ^ l.length := by
  induction l with
  | nil => exact Nat.one_pos
  | cons b l ih =>
    have hDigit := isDigit_iff.mp (h b List.mem_cons_self)
    have hRest := ih fun c hc => h c (List.mem_cons_of_mem b hc)
    have hFirst := Nat.mul_le_mul_right (10 ^ l.length) (by omega : b.toNat - 48 ≤ 9)
    rw [ofDigits_cons, List.length_cons, pow_succ]
    omega

theorem le_ofDigits {l : List UInt8} (h : Digits l) (hNe : l ≠ []) (hHead : l.head? ≠ some 48) :
    10 ^ (l.length - 1) ≤ ofDigits l := by
  obtain ⟨b, l, rfl⟩ := List.exists_cons_of_ne_nil hNe
  have hDigit := isDigit_iff.mp (h b List.mem_cons_self)
  have hNonzero : b.toNat ≠ 48 := by
    intro hEq
    have hb : b = 48 := UInt8.toNat_inj.mp hEq
    exact hHead (hb ▸ rfl)
  have hFirst := Nat.mul_le_mul_right (10 ^ l.length) (by omega : 1 ≤ b.toNat - 48)
  rw [ofDigits_cons, List.length_cons, Nat.add_sub_cancel]
  omega

/-- What follows a number is none of its digits. -/
def NoDigit (l : List UInt8) : Prop := ∀ b, l.head? = some b → isDigit b = false

theorem takeWhile_digits {l rest : List UInt8} (h : Digits l) (hRest : NoDigit rest) :
    (l ++ rest).takeWhile isDigit = l := by
  rw [List.takeWhile_append_of_pos h]
  cases rest with
  | nil => simp
  | cons b rest => simp [hRest b rfl]

theorem dropWhile_digits {l rest : List UInt8} (h : Digits l) (hRest : NoDigit rest) :
    (l ++ rest).dropWhile isDigit = rest := by
  rw [List.dropWhile_append_of_pos h]
  cases rest with
  | nil => rfl
  | cons b rest => simp [hRest b rfl]

theorem noDigit_nil : NoDigit [] := by
  intro b h
  cases h

theorem noDigit_cons {b : UInt8} {l : List UInt8} (h : isDigit b = false) : NoDigit (b :: l) := by
  intro b' h'
  cases h'
  exact h

theorem takeWhile_of_digits {l : List UInt8} (h : Digits l) : l.takeWhile isDigit = l := by
  have hWhole := takeWhile_digits h noDigit_nil
  rwa [List.append_nil] at hWhole

theorem digits_numeral (n : Nat) : Digits (Printf.numeral n) := fun _ hb =>
  isDigit_iff.mpr (Printf.digit_of_mem_numeral hb)

/-! ## The digits of a number -/

theorem numeral_of_lt {n : Nat} (h : n < 10) : Printf.numeral n = [UInt8.ofNat (48 + n)] := by
  have hAll : ∀ n < 10, Printf.numeral n = [UInt8.ofNat (48 + n)] := by decide
  exact hAll n h

theorem numeral_of_le {n : Nat} (h : 10 ≤ n) :
    Printf.numeral n = Printf.numeral (n / 10) ++ [UInt8.ofNat (48 + n % 10)] := by
  have hLast := numeral_of_lt (Nat.mod_lt n (by decide : 10 > 0))
  rw [Printf.numeral, Nat.toDigits_of_lt_base (Nat.mod_lt n (by decide))] at hLast
  rw [Printf.numeral, Nat.toDigits_of_base_le (by decide) h, List.map_append, ← hLast, Printf.numeral]

theorem toNat_ofNat_digit {d : Nat} (h : d < 10) : (UInt8.ofNat (48 + d)).toNat = 48 + d := by
  rw [UInt8.toNat_ofNat']
  omega

theorem ofDigits_numeral (n : Nat) : ofDigits (Printf.numeral n) = n := by
  induction n using Nat.strongRecOn with
  | ind n ih =>
    rcases Nat.lt_or_ge n 10 with h | h
    · rw [numeral_of_lt h, ofDigits_singleton, toNat_ofNat_digit h]
      omega
    · rw [numeral_of_le h, ofDigits_append, ih _ (by omega), ofDigits_singleton,
        toNat_ofNat_digit (Nat.mod_lt n (by decide)), List.length_singleton]
      omega

theorem length_numeral_of_lt {n : Nat} (h : n < 10) : (Printf.numeral n).length = 1 := by
  rw [numeral_of_lt h, List.length_singleton]

theorem length_numeral_of_le {n : Nat} (h : 10 ≤ n) :
    (Printf.numeral n).length = (Printf.numeral (n / 10)).length + 1 := by
  rw [numeral_of_le h, List.length_append, List.length_singleton]

theorem length_numeral_le {n k : Nat} (hk : 0 < k) (h : n < 10 ^ k) :
    (Printf.numeral n).length ≤ k := by
  rw [Printf.numeral, List.length_map]
  exact Nat.toDigits_length 10 n k hk h

/-- Only the numeral of zero begins with a zero. -/
theorem head_numeral {n : Nat} (h : 0 < n) : (Printf.numeral n).head? ≠ some 48 := by
  induction n using Nat.strongRecOn with
  | ind n ih =>
    rcases Nat.lt_or_ge n 10 with hSmall | hLarge
    · rw [numeral_of_lt hSmall]
      intro hHead
      have hByte : (UInt8.ofNat (48 + n)).toNat = 48 := congrArg UInt8.toNat (Option.some.inj hHead)
      rw [toNat_ofNat_digit hSmall] at hByte
      omega
    · obtain ⟨b, l, hNumeral⟩ := List.exists_cons_of_ne_nil (Printf.numeral_ne_nil (n / 10))
      have hHead := ih (n / 10) (by omega) (by omega)
      rw [hNumeral] at hHead
      rwa [numeral_of_le hLarge, hNumeral]

/-! ## Numerals -/

/-- A number as a text gives it; an exponent has its sign before its digits. -/
structure Numeral where
  negative : Bool
  int : List UInt8
  frac : List UInt8
  exp : Option (Bool × List UInt8)

namespace Numeral

def minus (negative : Bool) : List UInt8 := if negative then [45] else []

def fracText (frac : List UInt8) : List UInt8 := if frac = [] then [] else 46 :: frac

def expText : Option (Bool × List UInt8) → List UInt8
  | none => []
  | some (negative, digits) => 101 :: (if negative then 45 else 43) :: digits

def text (x : Numeral) : List UInt8 :=
  minus x.negative ++ (x.int ++ (fracText x.frac ++ expText x.exp))

def exponent (x : Numeral) : Int :=
  match x.exp with
  | none => 0
  | some (negative, digits) => if negative then -ofDigits digits else ofDigits digits

def value (x : Numeral) : Rat :=
  ofDigits (x.int ++ x.frac) * 10 ^ (x.exponent - (x.frac.length : Int))

structure Decimal (x : Numeral) : Prop where
  int : Digits x.int
  int_ne_nil : x.int ≠ []
  frac : Digits x.frac
  exp : ∀ e, x.exp = some e → Digits e.2

variable {x : Numeral}

theorem noDigit_expText (x : Numeral) : NoDigit (expText x.exp) := by
  cases x.exp with
  | none => exact noDigit_nil
  | some e => exact noDigit_cons rfl

theorem noDigit_fracText (x : Numeral) : NoDigit (fracText x.frac ++ expText x.exp) := by
  rw [fracText]
  split
  · exact noDigit_expText x
  · exact noDigit_cons rfl

theorem fraction_text (h : x.Decimal) :
    fraction (fracText x.frac ++ expText x.exp) = (x.frac, expText x.exp) := by
  rw [fracText]
  split
  · rename_i hEmpty
    rw [hEmpty]
    cases x.exp with
    | none => rfl
    | some e => rfl
  · rw [List.cons_append, fraction, if_pos rfl, takeWhile_digits h.frac (noDigit_expText x),
      dropWhile_digits h.frac (noDigit_expText x)]

theorem exponent_text (h : x.Decimal) : Strtod.exponent (expText x.exp) = x.exponent := by
  rw [exponent]
  cases hExp : x.exp with
  | none => rfl
  | some e =>
    obtain ⟨negative, digits⟩ := e
    have hDigits := takeWhile_of_digits (h.exp _ hExp)
    cases negative <;> simp [expText, Strtod.exponent, signedDigits, hDigits]

theorem sign_text (h : x.Decimal) :
    sign x.text = (x.negative, x.int ++ (fracText x.frac ++ expText x.exp)) := by
  rw [text, minus]
  split
  · rename_i hNegative
    rw [hNegative]
    rfl
  · rename_i hPositive
    obtain ⟨b, l, hInt⟩ := List.exists_cons_of_ne_nil h.int_ne_nil
    have hDigit := isDigit_iff.mp (h.int b (hInt ▸ List.mem_cons_self))
    have hNotMinus : b ≠ 45 := by
      rintro rfl
      exact absurd hDigit.1 (by decide)
    rw [List.nil_append, hInt, List.cons_append, sign, if_neg hNotMinus,
      Bool.eq_false_iff.mpr hPositive]

/-- `strtod` reads the number that the text gives. -/
theorem strtod_text (h : x.Decimal) : strtod x.text = signed x.negative (nearest x.value) := by
  rw [strtod, sign_text h, unsignedValue]
  dsimp only
  rw [dropWhile_digits h.int (noDigit_fracText x), takeWhile_digits h.int (noDigit_fracText x),
    fraction_text h, exponent_text h, value]

end Numeral

end Strtod
