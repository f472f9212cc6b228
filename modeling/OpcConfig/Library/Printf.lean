import OpcConfig.Library.CString
import OpcConfig.Library.Binary64

/-! # Conversions of `printf`

Text is the list of its bytes. Integer conversions read a machine word of the
conversion's width, whatever type the argument had before promotion.
-/

namespace Printf

set_option autoImplicit false

open CString

def numeral (n : Nat) : List UInt8 := (Nat.toDigits 10 n).map (fun c => c.toNat.toUInt8)

def decimal (z : Int) : List UInt8 :=
  if z < 0 then ascii "-" ++ numeral z.natAbs else numeral z.natAbs

/-- `%d`: 32 bits read as two's complement. -/
def d (word : BitVec 32) : List UInt8 := decimal word.toInt

def ld (word : BitVec 64) : List UInt8 := decimal word.toInt

def lu (word : BitVec 64) : List UInt8 := decimal word.toNat

/-- `%.*s` with the length of `bytes` as precision. -/
def s (bytes : List UInt8) : List UInt8 := cstr bytes

def left (width : Nat) (text : List UInt8) : List UInt8 :=
  text ++ List.replicate (width - text.length) 32

def roundDiv (n m : Nat) : Nat :=
  let q := n / m
  let r := n % m
  if 2 * r < m then q
  else if m < 2 * r then q + 1
  else if q % 2 = 0 then q else q + 1

def sixDigits (n : Nat) : List UInt8 :=
  List.replicate (6 - (numeral n).length) 48 ++ numeral n

def f (x : Binary64) : List UInt8 :=
  let sign := if x.negative then ascii "-" else []
  if x.finite then
    let micros := roundDiv (x.significand * 2 ^ (x.scale - 1075) * 10 ^ 6) (2 ^ (1075 - x.scale))
    sign ++ numeral (micros / 10 ^ 6) ++ ascii "." ++ sixDigits (micros % 10 ^ 6)
  else if x.fraction = 0 then sign ++ ascii "inf"
  else sign ++ ascii "nan"

theorem s_eq_nil_iff (bytes : List UInt8) :
    s bytes = [] ↔ bytes.head? = none ∨ bytes.head? = some 0 := cstr_eq_nil_iff bytes

theorem numeral_ne_nil (n : Nat) : numeral n ≠ [] := by simp [numeral]

theorem decimal_ne_nil (z : Int) : decimal z ≠ [] := by
  rw [decimal]
  split <;> simp [numeral_ne_nil]

theorem f_ne_nil (x : Binary64) : f x ≠ [] := by
  rw [f]
  split
  · simp [numeral_ne_nil]
  · split <;> simp [ascii]

/-! ## Reading numbers back -/

theorem digit_of_mem_toDigits {n : Nat} {c : Char} (h : c ∈ Nat.toDigits 10 n) :
    48 ≤ c.toNat ∧ c.toNat ≤ 57 :=
  Char.isDigit_iff_toNat.mp (Nat.isDigit_of_mem_toDigits (by decide) (by decide) h)

theorem toNat_digit {n : Nat} {c : Char} (h : c ∈ Nat.toDigits 10 n) :
    c.toNat.toUInt8.toNat = c.toNat := by
  have hDigit := digit_of_mem_toDigits h
  rw [Nat.toUInt8_eq, UInt8.toNat_ofNat']
  omega

theorem digit_of_mem_numeral {n : Nat} {byte : UInt8} (h : byte ∈ numeral n) :
    48 ≤ byte.toNat ∧ byte.toNat ≤ 57 := by
  obtain ⟨c, hc, rfl⟩ := List.mem_map.mp h
  rw [toNat_digit hc]
  exact digit_of_mem_toDigits hc

theorem numeral_inj {n m : Nat} (h : numeral n = numeral m) : n = m := by
  have hBack : ∀ k, (numeral k).map (fun byte => Char.ofNat byte.toNat) = Nat.toDigits 10 k := by
    intro k
    rw [numeral, List.map_map, List.map_congr_left (g := id), List.map_id]
    intro c hc
    simp [toNat_digit hc]
  have hDigits : Nat.toDigits 10 n = Nat.toDigits 10 m := by rw [← hBack, ← hBack, h]
  rw [← Nat.ofDigitChars_ten_toDigits (n := n), hDigits, Nat.ofDigitChars_ten_toDigits]

theorem decimal_inj {a b : Int} (h : decimal a = decimal b) : a = b := by
  have hSign : ∀ {n : Nat} {rest : List UInt8}, ascii "-" ++ rest ≠ numeral n := by
    intro n rest hEq
    have hMem : (45 : UInt8) ∈ ascii "-" ++ rest := List.mem_cons_self
    rw [hEq] at hMem
    exact absurd (digit_of_mem_numeral hMem).1 (by decide)
  rw [decimal, decimal] at h
  split at h
  · split at h
    · have hAbs := numeral_inj (List.append_cancel_left h)
      omega
    · exact absurd h hSign
  · split at h
    · exact absurd h.symm hSign
    · have hAbs := numeral_inj h
      omega

theorem promoted_toInt {w : Nat} (hw : w < 32) (x : BitVec w) : (x.setWidth 32).toInt = x.toNat := by
  have hLt : 2 * x.toNat < 2 ^ 32 := by
    have hPow : 2 ^ w ≤ 2 ^ 31 := Nat.pow_le_pow_right (by decide) (by omega)
    have hx := x.isLt
    omega
  have hSame : (x.setWidth 32).toNat = x.toNat := BitVec.toNat_setWidth_of_le (by omega)
  rw [BitVec.toInt_eq_toNat_of_lt (by rw [hSame]; exact hLt), hSame]

/-- An unsigned word that was promoted to `int` is shown without a sign. -/
theorem d_promoted {w : Nat} (hw : w < 32) (x : BitVec w) : d (x.setWidth 32) = numeral x.toNat := by
  rw [d, promoted_toInt hw, decimal, if_neg (Int.not_lt.mpr (Int.natCast_nonneg _)), Int.natAbs_natCast]

theorem blank_not_mem_decimal (z : Int) : (32 : UInt8) ∉ decimal z := by
  have hNumeral : (32 : UInt8) ∉ numeral z.natAbs := fun h =>
    absurd (digit_of_mem_numeral h).1 (by decide)
  rw [decimal]
  split
  · intro h
    rcases List.mem_append.mp h with h | h
    · exact absurd h (by decide)
    · exact hNumeral h
  · exact hNumeral

/-- Padding does not hide a text without blanks. -/
theorem left_inj {width : Nat} {text text' : List UInt8} (h : (32 : UInt8) ∉ text)
    (h' : (32 : UInt8) ∉ text') (hLeft : left width text = left width text') : text = text' := by
  have hText : ∀ {text : List UInt8}, (32 : UInt8) ∉ text →
      (left width text).takeWhile (· != 32) = text := by
    intro text h
    rw [left, List.takeWhile_append_of_pos]
    · simp
    · intro byte hByte
      have hNe : byte ≠ 32 := fun h32 => h (h32 ▸ hByte)
      simpa using hNe
  rw [← hText h, hLeft, hText h']

end Printf
