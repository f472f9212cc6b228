import Mathlib.Algebra.Order.Field.Rat
import Mathlib.Data.List.GetD
import Mathlib.Tactic.FieldSimp
import Mathlib.Tactic.Linarith
import OpcConfig.GrisuDigits

/-! # Grisu2 is exact

The boundaries are half-way to the neighbours of the number, and one unit is
more than what the table of powers and the rounded product are off. So the
digits give a number that is read as the one they were made of.
-/

namespace OpcConfig.Dtoa

set_option autoImplicit false

open Binary64 Strtod

/-! ## Products -/

theorem mul_f {x y : Diyfp} (hx : x.f < 2 ^ 64) (hy : y.f < 2 ^ 64) :
    (x.mul y).f = (x.f * y.f + 2 ^ 63) / 2 ^ 64 := by
  have hProduct : x.f * y.f = x.f % 2 ^ 32 * (y.f % 2 ^ 32) +
      2 ^ 32 * (x.f % 2 ^ 32 * (y.f / 2 ^ 32) + x.f / 2 ^ 32 * (y.f % 2 ^ 32)) +
      2 ^ 64 * (x.f / 2 ^ 32 * (y.f / 2 ^ 32)) := by
    conv_lhs => rw [← Nat.mod_add_div x.f (2 ^ 32), ← Nat.mod_add_div y.f (2 ^ 32)]
    ring
  have hBound : x.f * y.f ≤ (2 ^ 64 - 1) * (2 ^ 64 - 1) :=
    Nat.mul_le_mul (by omega) (by omega)
  rw [Diyfp.mul, wrap]
  dsimp only
  generalize x.f % 2 ^ 32 * (y.f % 2 ^ 32) = p0 at hProduct ⊢
  generalize x.f % 2 ^ 32 * (y.f / 2 ^ 32) = p1 at hProduct ⊢
  generalize x.f / 2 ^ 32 * (y.f % 2 ^ 32) = p2 at hProduct ⊢
  generalize x.f / 2 ^ 32 * (y.f / 2 ^ 32) = p3 at hProduct ⊢
  omega

/-! ## Normalizing -/

theorem shiftOnce_iterate (x : Diyfp) (n : Nat) (h : x.f < 2 ^ 64) :
    ∃ t : Nat, t ≤ n ∧ Diyfp.shiftOnce^[n] x = ⟨x.f * 2 ^ t, x.e - t⟩ ∧ x.f * 2 ^ t < 2 ^ 64 ∧
      (2 ^ 63 ≤ x.f * 2 ^ t ∨ t = n) := by
  induction n with
  | zero => exact ⟨0, Nat.le_refl 0, by simp, by simpa using h, Or.inr rfl⟩
  | succ n ih =>
    obtain ⟨t, ht, hIterate, hWord, hEnd⟩ := ih
    rw [Function.iterate_succ_apply', hIterate, Diyfp.shiftOnce]
    dsimp only
    split
    · rename_i hLow
      have hLess : x.f * 2 ^ t < 2 ^ 63 := by omega
      have htn : t = n := hEnd.resolve_left (by omega)
      have hTwice : x.f * 2 ^ t * 2 = x.f * 2 ^ (t + 1) := by rw [pow_succ, Nat.mul_assoc]
      refine ⟨t + 1, by omega, ?_, by omega, Or.inr (by omega)⟩
      rw [wrap_eq (by omega), hTwice, Nat.cast_succ, sub_sub]
    · exact ⟨t, by omega, rfl, hWord, Or.inl (by omega)⟩

theorem normalize_spec {x : Diyfp} (hPos : 0 < x.f) (h : x.f < 2 ^ 64) :
    ∃ t : Nat, t ≤ 63 ∧ x.normalize = ⟨x.f * 2 ^ t, x.e - t⟩ ∧ x.f * 2 ^ t < 2 ^ 64 ∧
      2 ^ 63 ≤ x.f * 2 ^ t := by
  obtain ⟨t, ht, hIterate, hWord, hEnd⟩ := shiftOnce_iterate x 63 h
  refine ⟨t, ht, hIterate, hWord, ?_⟩
  rcases hEnd with hEnd | rfl
  · exact hEnd
  · exact Nat.le_mul_of_pos_left _ hPos

/-! ## Boundaries -/

theorem significand_spec (n : Nat) :
    units n = (significand n).f * ulp n ∧ (significand n).e = ((n / 2 ^ 52 - 1 : Nat) : Int) - 1074 ∧
      (significand n).f < 2 ^ 53 ∧ (0 < n → 0 < (significand n).f) := by
  rw [significand, units, ulp]
  split
  · rename_i hZero
    rw [hZero]
    simp only []
    omega
  · rename_i hNonzero
    simp only []
    refine ⟨by rw [Nat.add_comm], ?_, ?_, ?_⟩ <;> omega

theorem mPlus_spec (n : Nat) : twiceMid n = (mPlus n).f * ulp n := by
  obtain ⟨hUnits, _⟩ := significand_spec n
  rw [twiceMid, units_succ, hUnits, mPlus]
  ring

/-- Below a power of two the neighbour is only half as far away. -/
theorem mMinus_spec {n : Nat} (h : 0 < n) :
    (mMinus n).e = (mPlus n).e ∧ twiceMid (n - 1) = (mMinus n).f * ulp n ∧
        (mMinus n).f + 2 = (mPlus n).f ∨
      (mMinus n).e = (mPlus n).e - 1 ∧ twiceMid (n - 1) * 2 = (mMinus n).f * ulp n ∧
        (mMinus n).f + 3 = 2 * (mPlus n).f ∧ (mPlus n).f = 2 ^ 53 + 1 := by
  obtain ⟨hUnits, _, _, hPos⟩ := significand_spec n
  have hBelow : units n = units (n - 1) + ulp (n - 1) := by
    rw [← units_succ, Nat.sub_add_cancel h]
  have hMid : twiceMid (n - 1) + ulp (n - 1) = 2 * units n := by
    rw [twiceMid, Nat.sub_add_cancel h]
    omega
  have hf := hPos h
  rw [mMinus]
  split
  · rename_i hCloser
    obtain ⟨hZero, hLarge⟩ := hCloser
    have hSignificand : (significand n).f = 2 ^ 52 := by
      rw [significand, if_neg (by omega)]
      simp only []
      omega
    have hHalf : ulp (n - 1) * 2 = ulp n := by
      rw [ulp, ulp, ← pow_succ]
      congr 1
      omega
    refine Or.inr ⟨?_, ?_, ?_, ?_⟩
    · simp only [mPlus]
      omega
    · have hFour : (4 * (significand n).f - 1) * ulp n + ulp n = 4 * ((significand n).f * ulp n) := by
        rw [hSignificand]
        omega
      simp only []
      omega
    · simp only [mPlus]
      omega
    · simp only [mPlus]
      omega
  · rename_i hRegular
    have hSame : ulp (n - 1) = ulp n := by
      rw [ulp, ulp]
      congr 1
      omega
    refine Or.inl ⟨rfl, ?_, ?_⟩
    · have hTwo : (2 * (significand n).f - 1) * ulp n + ulp n = 2 * ((significand n).f * ulp n) := by
        obtain ⟨f, hf'⟩ := Nat.exists_eq_add_of_le' hf
        have hOdd : 2 * (f + 1) - 1 = 2 * f + 1 := by omega
        rw [hf', hOdd]
        ring
      simp only []
      omega
    · simp only [mPlus]
      omega

/-- What is used of the boundaries of a positive finite number. -/
structure Exact (n : Nat) (b : Boundaries) : Prop where
  word : b.plus.f < 2 ^ 64
  normalized : 2 ^ 63 ≤ b.plus.f
  order : b.minus.f ≤ b.plus.f
  apart : b.plus.f + 6 * 10 ^ 16 ≤ 10 ^ 16 * (b.plus.f - b.minus.f)
  exponent : b.minus.e = b.plus.e
  lowest : -1137 ≤ b.plus.e
  highest : b.plus.e ≤ 960
  plus : (b.plus.f : Rat) * 2 ^ (b.plus.e + 1075) = twiceMid n
  minus : (b.minus.f : Rat) * 2 ^ (b.plus.e + 1075) = twiceMid (n - 1)

theorem Exact.minus_pos {n : Nat} {b : Boundaries} (h : Exact n b) : 0 < b.minus.f := by
  rcases Nat.eq_zero_or_pos b.minus.f with hZero | hPos
  · have hBelow : (0 : Rat) < twiceMid (n - 1) := Nat.cast_pos.mpr (twiceMid_pos _)
    rw [← h.minus, hZero, Nat.cast_zero, zero_mul] at hBelow
    exact absurd hBelow (lt_irrefl _)
  · exact hPos

theorem shifted_eq {f t j : Nat} {e : Int} (he : e = j - 1075) :
    ((f * 2 ^ t : Nat) : Rat) * 2 ^ (e - t + 1075) = (f * 2 ^ j : Nat) := by
  have hExponent : (t : Int) + (e - t + 1075) = j := by omega
  push_cast
  rw [mul_assoc, ← zpow_natCast, ← zpow_add₀ (by norm_num), hExponent, zpow_natCast]

theorem computeBoundaries_spec {n : Nat} (hPos : 0 < n) (hFinite : n < infinityBits) :
    Exact n (computeBoundaries n) := by
  obtain ⟨_, hExponent, hBound, hPositive⟩ := significand_spec n
  have hf := hPositive hPos
  have hPlus := mPlus_spec n
  have hPlusF : (mPlus n).f = 2 * (significand n).f + 1 := rfl
  have hPlusE : (mPlus n).e = ((n / 2 ^ 52 - 1 : Nat) : Int) - 1075 := by
    change (significand n).e - 1 = _
    omega
  obtain ⟨t, ht, hNormalize, hWord, hHigh⟩ := normalize_spec (x := mPlus n) (by omega) (by omega)
  have hTen : 10 ≤ t := by
    rcases Nat.lt_or_ge t 10 with hSmall | hLarge
    · have hPower : 2 ^ t ≤ 2 ^ 9 := Nat.pow_le_pow_right (by decide) (by omega)
      have hProduct := Nat.mul_le_mul (by omega : (mPlus n).f ≤ 2 ^ 54 - 1) hPower
      omega
    · exact hLarge
  have hNotAll : t ≠ 63 := by
    rintro rfl
    omega
  have hUlp : ulp n = 2 ^ (n / 2 ^ 52 - 1) := rfl
  have hTop : n / 2 ^ 52 - 1 ≤ 2045 := by
    rw [infinityBits] at hFinite
    omega
  have hPlusValue := shifted_eq (f := (mPlus n).f) (t := t) hPlusE
  rw [← hUlp, ← hPlus] at hPlusValue
  have hLarge : 2 ^ 10 ≤ 2 ^ t := Nat.pow_le_pow_right (by decide) hTen
  rcases mMinus_spec hPos with ⟨hMinusE, hMinus, hGap⟩ | ⟨hMinusE, hMinus, hGap, hTwo⟩
  · have hGapT : (mMinus n).f * 2 ^ t + 2 * 2 ^ t = (mPlus n).f * 2 ^ t := by
      rw [← hGap, Nat.add_mul]
    have hShift : ((mMinus n).e - ((mPlus n).e - t)).toNat = t := by omega
    have hNormalizeTo : (mMinus n).normalizeTo ((mPlus n).e - t) =
        ⟨(mMinus n).f * 2 ^ t, (mPlus n).e - t⟩ := by
      rw [Diyfp.normalizeTo, hShift, wrap_eq (by omega)]
    have hCap := Nat.mul_le_mul_right (2 ^ t) (by omega : (mPlus n).f ≤ 2 ^ 54)
    have hMinusValue := shifted_eq (f := (mMinus n).f) (t := t) hPlusE
    rw [← hUlp, ← hMinus] at hMinusValue
    rw [computeBoundaries, hNormalize, hNormalizeTo]
    refine ⟨hWord, hHigh, ?_, ?_, rfl, ?_, ?_, hPlusValue, hMinusValue⟩
    · simp only []
      omega
    · simp only []
      omega
    · simp only []
      omega
    · simp only []
      omega
  · obtain ⟨u, rfl⟩ : ∃ u, t = u + 1 := ⟨t - 1, by omega⟩
    have hTwice : 2 ^ (u + 1) = 2 * 2 ^ u := by rw [pow_succ, Nat.mul_comm]
    have hGapT : (mMinus n).f * 2 ^ u + 3 * 2 ^ u = (mPlus n).f * 2 ^ (u + 1) := by
      rw [hTwice, ← Nat.add_mul, hGap]
      ring
    have hShift : ((mMinus n).e - ((mPlus n).e - (u + 1 : Nat))).toNat = u := by omega
    have hNormalizeTo : (mMinus n).normalizeTo ((mPlus n).e - (u + 1 : Nat)) =
        ⟨(mMinus n).f * 2 ^ u, (mPlus n).e - (u + 1 : Nat)⟩ := by
      rw [Diyfp.normalizeTo, hShift, wrap_eq (by omega)]
    have hMinusValue := shifted_eq (f := (mMinus n).f) (t := u + 1) hPlusE
    rw [← hUlp, ← hMinus, hTwice] at hMinusValue
    rw [computeBoundaries, hNormalize, hNormalizeTo]
    refine ⟨hWord, hHigh, ?_, ?_, rfl, ?_, ?_, hPlusValue, ?_⟩
    · simp only []
      omega
    · simp only []
      rw [hTwo] at hGapT ⊢
      omega
    · simp only []
      omega
    · simp only []
      omega
    · push_cast at hMinusValue ⊢
      linarith

/-! ## Powers of ten -/

/-- Each power of the table is off by half a unit of its last place at most. -/
theorem kCachedPowers_close : ∀ row ∈ kCachedPowers, 2 ^ 63 ≤ row.1 ∧ row.1 < 2 ^ 64 ∧
    (row.1 : Rat) - 1 / 2 ≤ 10 ^ row.2.2 * 2 ^ (-row.2.1) ∧
    (10 : Rat) ^ row.2.2 * 2 ^ (-row.2.1) ≤ row.1 + 1 / 2 := by decide +kernel

theorem cachedIndex_antitone {e e' : Int} (h : e ≤ e') : cachedIndex e' ≤ cachedIndex e := by
  have hScaled : ((-60 - e' - 1) * 78913).tdiv (2 ^ 18) ≤ ((-60 - e - 1) * 78913).tdiv (2 ^ 18) :=
    Int.tdiv_le_tdiv (by decide) (by omega)
  rw [cachedIndex, cachedIndex]
  apply Int.tdiv_le_tdiv (by decide)
  split_ifs <;> omega

/-- An exponent that a row does not fit goes to another row. -/
theorem cachedIndex_fits : ∀ i : Nat, i < 79 →
    (i : Int) < cachedIndex (-125 - (kCachedPowers.getD i (0, 0, 0)).2.1) ∧
    (cachedIndex (-95 - (kCachedPowers.getD i (0, 0, 0)).2.1) < i ∨
      960 ≤ -96 - (kCachedPowers.getD i (0, 0, 0)).2.1) := by decide +kernel

theorem cachedIndex_spec {e : Int} (hLow : -1137 ≤ e) (hHigh : e ≤ 960) :
    (cachedIndex e).toNat < 79 ∧
      -60 ≤ (kCachedPowers.getD (cachedIndex e).toNat (0, 0, 0)).2.1 + e + 64 ∧
      (kCachedPowers.getD (cachedIndex e).toNat (0, 0, 0)).2.1 + e + 64 ≤ -32 := by
  have hTop : cachedIndex e ≤ cachedIndex (-1137) := cachedIndex_antitone hLow
  have hBottom : cachedIndex 960 ≤ cachedIndex e := cachedIndex_antitone hHigh
  have hTopValue : cachedIndex (-1137) = 78 := by decide
  have hBottomValue : cachedIndex 960 = 0 := by decide
  have hLess : (cachedIndex e).toNat < 79 := by omega
  obtain ⟨hAbove, hBelow⟩ := cachedIndex_fits _ hLess
  generalize hRow : (kCachedPowers.getD (cachedIndex e).toNat (0, 0, 0)).2.1 = row at hAbove hBelow ⊢
  refine ⟨hLess, ?_, ?_⟩
  · rcases le_or_gt (-124 - row) e with hFits | hLess
    · omega
    · have hIndex := cachedIndex_antitone (by omega : e ≤ -125 - row)
      omega
  · rcases le_or_gt e (-96 - row) with hFits | hLess
    · omega
    · have hIndex := cachedIndex_antitone (by omega : -95 - row ≤ e)
      omega

structure Close (c : CachedPower) : Prop where
  normalized : 2 ^ 63 ≤ c.f
  word : c.f < 2 ^ 64
  below : (c.f : Rat) - 1 / 2 ≤ 10 ^ c.k * 2 ^ (-c.e)
  above : (10 : Rat) ^ c.k * 2 ^ (-c.e) ≤ c.f + 1 / 2

theorem getCachedPower_spec {e : Int} (hLow : -1137 ≤ e) (hHigh : e ≤ 960) :
    Close (getCachedPowerForBinaryExponent e) ∧
      -60 ≤ (getCachedPowerForBinaryExponent e).e + e + 64 ∧
      (getCachedPowerForBinaryExponent e).e + e + 64 ≤ -32 := by
  obtain ⟨hLess, hBounds⟩ := cachedIndex_spec hLow hHigh
  refine ⟨?_, hBounds⟩
  have hLength : kCachedPowers.length = 79 := by decide
  have hMem : kCachedPowers.getD (cachedIndex e).toNat (0, 0, 0) ∈ kCachedPowers := by
    rw [List.getD_eq_getElem _ _ (by omega)]
    exact List.getElem_mem _
  obtain ⟨hNormalized, hWord, hBelow, hAbove⟩ := kCachedPowers_close _ hMem
  exact ⟨hNormalized, hWord, hBelow, hAbove⟩

/-! ## The digits -/

/-- A rounded product with a unit taken off is below the exact one, and with a
unit put on it is above. -/
theorem product_between {c : CachedPower} (hc : Close c) {x : Nat} (hPos : 0 < x) (hx : x < 2 ^ 64) :
    (((x * c.f + 2 ^ 63) / 2 ^ 64 : Nat) - 1 : Rat) * 2 ^ 64 < x * (10 ^ c.k * 2 ^ (-c.e)) ∧
      (x * (10 ^ c.k * 2 ^ (-c.e)) : Rat) < (((x * c.f + 2 ^ 63) / 2 ^ 64 : Nat) + 1) * 2 ^ 64 := by
  have hLow : (x * c.f + 2 ^ 63) / 2 ^ 64 * 2 ^ 64 ≤ x * c.f + 2 ^ 63 := Nat.div_mul_le_self _ _
  have hHigh : x * c.f + 2 ^ 63 < ((x * c.f + 2 ^ 63) / 2 ^ 64 + 1) * 2 ^ 64 := by omega
  generalize (x * c.f + 2 ^ 63) / 2 ^ 64 = w at hLow hHigh
  have hLow' : (w : Rat) * 2 ^ 64 ≤ x * c.f + 2 ^ 63 := by exact_mod_cast hLow
  have hHigh' : (x : Rat) * c.f + 2 ^ 63 < (w + 1) * 2 ^ 64 := by exact_mod_cast hHigh
  have hx' : (x : Rat) < 2 ^ 64 := by exact_mod_cast hx
  have hPos' : (0 : Rat) < x := by exact_mod_cast hPos
  have hBelow := mul_le_mul_of_nonneg_left hc.below (le_of_lt hPos')
  have hAbove := mul_le_mul_of_nonneg_left hc.above (le_of_lt hPos')
  constructor <;> linarith

/-- What the scaling of a boundary by the power of ten comes to. -/
theorem unscale_eq (x y : Rat) {c : CachedPower} {e n : Int} {shift : Nat}
    (hShift : c.e + e + 64 = -(shift : Int)) :
    x * 10 ^ n * 2 ^ shift * 2 ^ 64 * (10 ^ (-c.k) * 2 ^ (c.e + e + 1075)) =
        x * 10 ^ (-c.k + n) * 2 ^ 1075 ∧
      y * (10 ^ c.k * 2 ^ (-c.e)) * (10 ^ (-c.k) * 2 ^ (c.e + e + 1075)) = y * 2 ^ (e + 1075) := by
  have hTwo : (2 : Rat) ^ shift * 2 ^ 64 * 2 ^ (c.e + e + 1075) = 2 ^ 1075 := by
    rw [← zpow_natCast, ← zpow_natCast, ← zpow_natCast, ← zpow_add₀ (by norm_num),
      ← zpow_add₀ (by norm_num)]
    congr 1
    push_cast
    omega
  have hTwo' : (2 : Rat) ^ (-c.e) * 2 ^ (c.e + e + 1075) = 2 ^ (e + 1075) := by
    rw [← zpow_add₀ (by norm_num)]
    congr 1
    omega
  have hTen : (10 : Rat) ^ c.k * 10 ^ (-c.k) = 1 := by
    rw [← zpow_add₀ (by norm_num), Int.add_right_neg, zpow_zero]
  constructor
  · have hPower : (10 : Rat) ^ (-c.k + n) = 10 ^ (-c.k) * 10 ^ n := zpow_add₀ (by norm_num) _ _
    rw [hPower, ← hTwo]
    ring
  · rw [← hTwo']
    calc y * (10 ^ c.k * 2 ^ (-c.e)) * (10 ^ (-c.k) * 2 ^ (c.e + e + 1075))
        = y * (10 ^ c.k * 10 ^ (-c.k)) * (2 ^ (-c.e) * 2 ^ (c.e + e + 1075)) := by ring
      _ = y * (2 ^ (-c.e) * 2 ^ (c.e + e + 1075)) := by rw [hTen, mul_one]

/-- The rounded boundaries, with the unit taken off and put on, leave room for
digits that are few enough. -/
theorem room_between {x y c : Nat} (hc : 2 ^ 63 ≤ c) (hApart : x + 6 * 10 ^ 16 ≤ 10 ^ 16 * (x - y))
    (hOrder : y ≤ x) :
    (x * c + 2 ^ 63) / 2 ^ 64 - 1 <
      10 ^ 16 * ((x * c + 2 ^ 63) / 2 ^ 64 - 1 - ((y * c + 2 ^ 63) / 2 ^ 64 + 1)) := by
  have hScaled := Nat.mul_le_mul_right c hApart
  have hLeft : (x + 6 * 10 ^ 16) * c = x * c + 6 * 10 ^ 16 * c := Nat.add_mul _ _ _
  have hRight : 10 ^ 16 * (x - y) * c = 10 ^ 16 * (x * c - y * c) := by
    rw [Nat.mul_assoc, Nat.sub_mul]
  have hProducts := Nat.mul_le_mul_right c hOrder
  omega

theorem grisu2_spec {n : Nat} (hPos : 0 < n) (hFinite : n < infinityBits) :
    ∃ buf exponent, grisu2 n = some (buf, exponent) ∧ Leading buf ∧ buf ≠ [] ∧ buf.length ≤ 17 ∧
      (twiceMid (n - 1) : Rat) < ofDigits buf * 10 ^ exponent * 2 ^ 1075 ∧
      (ofDigits buf * 10 ^ exponent * 2 ^ 1075 : Rat) < twiceMid n := by
  have hExact := computeBoundaries_spec hPos hFinite
  rw [grisu2]
  generalize computeBoundaries n = b at hExact ⊢
  obtain ⟨hClose, hLow, hHigh⟩ := getCachedPower_spec hExact.lowest hExact.highest
  generalize getCachedPowerForBinaryExponent b.plus.e = c at hClose hLow hHigh ⊢
  have hWord := hExact.word
  have hOrder := hExact.order
  have hMinusPos := hExact.minus_pos
  have hPlusF := mul_f (x := b.plus) (y := ⟨c.f, c.e⟩) hWord hClose.word
  have hMinusF := mul_f (x := b.minus) (y := ⟨c.f, c.e⟩) (by omega) hClose.word
  have hPlusE : (b.plus.mul ⟨c.f, c.e⟩).e = b.plus.e + c.e + 64 := rfl
  have hRoom := room_between hClose.normalized hExact.apart hOrder
  have hProduct := Nat.mul_le_mul hExact.normalized hClose.normalized
  have hProduct' : b.plus.f * c.f ≤ (2 ^ 64 - 1) * (2 ^ 64 - 1) :=
    Nat.mul_le_mul (by omega) (by have := hClose.word; omega)
  obtain ⟨shift, hShift⟩ : ∃ shift : Nat, c.e + b.plus.e + 64 = -(shift : Int) :=
    ⟨(-(c.e + b.plus.e + 64)).toNat, by omega⟩
  have hPower : 2 ^ shift ≤ 2 ^ 60 := Nat.pow_le_pow_right (by decide) (by omega)
  have hProductMinus := Nat.mul_le_mul_right c.f hOrder
  have hWrap : wrap ((b.minus.mul ⟨c.f, c.e⟩).f + 1) = (b.minus.f * c.f + 2 ^ 63) / 2 ^ 64 + 1 := by
    rw [hMinusF]
    exact wrap_eq (by dsimp only; omega)
  obtain ⟨buf, m, hGen, hBuf, hNe, hLength, hAbove, hBelow⟩ := grisu2DigitGen_spec (-c.k)
    ⟨wrap ((b.minus.mul ⟨c.f, c.e⟩).f + 1), (b.minus.mul ⟨c.f, c.e⟩).e⟩
    (b.w.mul ⟨c.f, c.e⟩) ⟨(b.plus.mul ⟨c.f, c.e⟩).f - 1, (b.plus.mul ⟨c.f, c.e⟩).e⟩ shift
    (by rw [hPlusE]; omega) (by omega) (by omega) (by rw [hPlusF]; dsimp only; omega)
    (by rw [hPlusF]; dsimp only; omega) (by rw [hWrap]; dsimp only; omega)
    (by rw [hWrap, hPlusF]; dsimp only; omega) (by rw [hWrap, hPlusF]; exact hRoom)
  have hScale : (0 : Rat) < 10 ^ (-c.k) * 2 ^ (c.e + b.plus.e + 1075) :=
    mul_pos (zpow_pos (by norm_num) _) (zpow_pos (by norm_num) _)
  refine ⟨buf, -c.k + m, hGen, hBuf, hNe, hLength, ?_, ?_⟩
  · obtain ⟨hDigits, hBoundary⟩ := unscale_eq (n := m) (ofDigits buf) b.minus.f hShift
    rw [← hDigits, ← hExact.minus, ← hBoundary]
    apply mul_lt_mul_of_pos_right _ hScale
    have hUnit := (product_between hClose hMinusPos (by omega)).2
    rw [hWrap] at hAbove
    push_cast at hAbove
    linarith
  · obtain ⟨hDigits, hBoundary⟩ := unscale_eq (n := m) (ofDigits buf) b.plus.f hShift
    rw [← hDigits, ← hExact.plus, ← hBoundary]
    apply mul_lt_mul_of_pos_right _ hScale
    have hUnit := (product_between hClose (by omega) hWord).1
    have hOne : 1 ≤ (b.plus.f * c.f + 2 ^ 63) / 2 ^ 64 := by omega
    rw [hPlusF, Nat.cast_sub hOne, Nat.cast_one] at hBelow
    linarith

end OpcConfig.Dtoa
