import Mathlib.Data.Rat.Cast.Order
import Mathlib.Order.Monotone.Basic
import Mathlib.Tactic.Linarith
import Mathlib.Tactic.Ring
import OpcConfig.Library.Binary64

/-! # Reading a number as the nearest binary64

The non-negative doubles lie in the order of their bits, and each is a multiple
of the least one, 2 ^ -1074. A number is read as the double whose neighbours are
further away, and as the one with even bits half-way between two.
-/

namespace Binary64

set_option autoImplicit false

/-! ## Neighbours -/

/-- The double with these bits as a multiple of 2 ^ -1074. The bits of infinity
continue the finite ones. -/
def units (n : Nat) : Nat :=
  if n / 2 ^ 52 = 0 then n % 2 ^ 52 else (2 ^ 52 + n % 2 ^ 52) * 2 ^ (n / 2 ^ 52 - 1)

/-- The distance to the next double. -/
def ulp (n : Nat) : Nat := 2 ^ (n / 2 ^ 52 - 1)

theorem units_succ (n : Nat) : units (n + 1) = units n + ulp n := by
  rw [units, units, ulp]
  rcases Nat.lt_or_ge (n % 2 ^ 52 + 1) (2 ^ 52) with h | h
  · have hDiv : (n + 1) / 2 ^ 52 = n / 2 ^ 52 := by omega
    have hMod : (n + 1) % 2 ^ 52 = n % 2 ^ 52 + 1 := by omega
    rw [hDiv, hMod]
    split
    · rename_i hZero
      rw [hZero]
      norm_num
    · ring
  · have hDiv : (n + 1) / 2 ^ 52 = n / 2 ^ 52 + 1 := by omega
    have hMod : (n + 1) % 2 ^ 52 = 0 := by omega
    have hFull : n % 2 ^ 52 = 2 ^ 52 - 1 := by omega
    rw [hDiv, hMod, hFull, if_neg (Nat.succ_ne_zero _)]
    split
    · rename_i hZero
      rw [hZero]
      norm_num
    · rename_i hNonzero
      obtain ⟨e, he⟩ := Nat.exists_eq_succ_of_ne_zero hNonzero
      rw [he]
      simp only [Nat.succ_eq_add_one, Nat.add_sub_cancel, pow_succ]
      ring

theorem ulp_pos (n : Nat) : 0 < ulp n := Nat.two_pow_pos _

theorem units_strictMono : StrictMono units := by
  apply strictMono_nat_of_lt_succ
  intro n
  rw [units_succ]
  exact Nat.lt_add_of_pos_right (ulp_pos n)

/-- Twice the point half-way to the next double. -/
def twiceMid (n : Nat) : Nat := units n + units (n + 1)

theorem twiceMid_strictMono : StrictMono twiceMid := fun _ _ h =>
  Nat.add_lt_add (units_strictMono h) (units_strictMono (Nat.succ_lt_succ h))

theorem twiceMid_pos (n : Nat) : 0 < twiceMid n := by
  have hUlp := ulp_pos n
  rw [twiceMid, units_succ]
  omega

/-! ## Rounding -/

/-- What is read of `q` is `n` or further up. -/
def Reaches (q : Rat) : Nat → Prop
  | 0 => True
  | n + 1 => (twiceMid n : Rat) < q * 2 ^ 1075 ∨
      (twiceMid n : Rat) = q * 2 ^ 1075 ∧ (n + 1) % 2 = 0

instance (q : Rat) : DecidablePred (Reaches q)
  | 0 => inferInstanceAs (Decidable True)
  | _ + 1 => inferInstanceAs (Decidable (_ ∨ _ ∧ _))

theorem Reaches.pred {q : Rat} {n : Nat} (h : Reaches q (n + 1)) : Reaches q n := by
  match n with
  | 0 => trivial
  | n + 1 =>
    have hLess : (twiceMid n : Rat) < twiceMid (n + 1) :=
      Nat.cast_lt.mpr (twiceMid_strictMono (Nat.lt_succ_self n))
    rcases h with hAbove | ⟨hEqual, _⟩
    · exact Or.inl (lt_trans hLess hAbove)
    · exact Or.inl (hEqual ▸ hLess)

theorem Reaches.of_le {q : Rat} {n m : Nat} (h : Reaches q n) (hm : m ≤ n) : Reaches q m := by
  induction hm with
  | refl => exact h
  | step _ ih => exact ih h.pred

/-- The greatest number that passes, bit by bit from the highest on. -/
def search (passes : Nat → Bool) : Nat → Nat → Nat
  | 0, n => n
  | bit + 1, n => search passes bit (if passes (n + 2 ^ bit) then n + 2 ^ bit else n)

theorem search_eq {passes : Nat → Bool}
    (hDown : ∀ n m, passes n = true → m ≤ n → passes m = true) {greatest : Nat}
    (hPasses : passes greatest = true) (hGreatest : passes (greatest + 1) = false) (bit n : Nat)
    (hLow : n ≤ greatest) (hHigh : greatest < n + 2 ^ bit) : search passes bit n = greatest := by
  induction bit generalizing n with
  | zero =>
    rw [search]
    omega
  | succ bit ih =>
    rw [pow_succ] at hHigh
    rw [search]
    split
    · rename_i hStep
      have hNot : ¬ greatest < n + 2 ^ bit := by
        intro hLess
        rw [hDown _ _ hStep hLess] at hGreatest
        cases hGreatest
      exact ih _ (by omega) (by omega)
    · rename_i hStep
      have hNot : ¬ n + 2 ^ bit ≤ greatest := fun hLess => hStep (hDown _ _ hPasses hLess)
      exact ih _ hLow (by omega)

def infinityBits : Nat := 2047 * 2 ^ 52

/-- The bits of the double nearest to `q`. -/
def nearest (q : Rat) : Nat :=
  search (fun n => decide (n ≤ infinityBits) && decide (Reaches q n)) 63 0

theorem nearest_eq {q : Rat} {n : Nat} (hFinite : n < infinityBits) (hReaches : Reaches q n)
    (hNext : ¬ Reaches q (n + 1)) : nearest q = n := by
  apply search_eq
  · intro n m hPasses hm
    simp only [Bool.and_eq_true, decide_eq_true_eq] at hPasses ⊢
    exact ⟨Nat.le_trans hm hPasses.1, hPasses.2.of_le hm⟩
  · simp only [Bool.and_eq_true, decide_eq_true_eq]
    exact ⟨Nat.le_of_lt hFinite, hReaches⟩
  · simp [hNext]
  · exact Nat.zero_le n
  · rw [infinityBits] at hFinite
    omega

/-- A number closer to a double than half-way to its neighbours is read as it. -/
theorem nearest_of_between {q : Rat} {n : Nat} (hFinite : n + 1 < infinityBits)
    (hLow : (twiceMid n : Rat) < q * 2 ^ 1075) (hHigh : q * 2 ^ 1075 < (twiceMid (n + 1) : Rat)) :
    nearest q = n + 1 := by
  apply nearest_eq hFinite (Or.inl hLow)
  rintro (hAbove | ⟨hEqual, _⟩)
  · exact absurd hAbove (not_lt_of_gt hHigh)
  · exact absurd hEqual (ne_of_gt hHigh)

theorem nearest_zero : nearest 0 = 0 := by
  have hStart : Reaches 0 0 := trivial
  apply nearest_eq (by decide) hStart
  have hPos : (0 : Rat) < twiceMid 0 := Nat.cast_pos.mpr (twiceMid_pos 0)
  rintro (hAbove | ⟨hEqual, _⟩)
  · rw [zero_mul] at hAbove
    exact absurd hAbove (not_lt_of_gt hPos)
  · rw [zero_mul] at hEqual
    exact absurd hEqual (ne_of_gt hPos)

def signed (negative : Bool) (n : Nat) : Binary64 :=
  ⟨UInt64.ofNat (if negative then 2 ^ 63 + n else n)⟩

/-- The bits without the sign. -/
def magnitude (d : Binary64) : Nat := d.bits.toNat % 2 ^ 63

theorem signed_magnitude (d : Binary64) : signed d.negative d.magnitude = d := by
  have hLess := d.bits.toNat_lt
  have hBits : (if d.negative then 2 ^ 63 + d.magnitude else d.magnitude) = d.bits.toNat := by
    rw [negative, magnitude]
    split
    · rename_i hNegative
      have hLow := of_decide_eq_true hNegative
      omega
    · rename_i hPositive
      have hHigh := of_decide_eq_false (Bool.eq_false_iff.mpr hPositive)
      omega
  rw [signed, hBits, UInt64.ofNat_toNat]

theorem magnitude_lt_of_finite {d : Binary64} (h : d.finite = true) : d.magnitude < infinityBits := by
  rw [finite, bne_iff_ne, exponent] at h
  rw [magnitude, infinityBits]
  omega

example : nearest (1 / 2) = 0x3FE0000000000000 := by decide +kernel

end Binary64
