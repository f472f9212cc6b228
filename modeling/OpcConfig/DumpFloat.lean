import OpcConfig.GrisuExact

/-! # How a double is printed

The digits of Grisu2 are laid out with a point or an exponent, and `strtod`
reads the text as the double that it was made of.
-/

namespace OpcConfig.Dtoa

set_option autoImplicit false

open CString Binary64 Strtod

/-! ## Numbers of a JSON text -/

/-- Digits without a leading zero, and exponents with a digit. -/
structure Shape (x : Numeral) : Prop extends x.Decimal where
  leading : x.int = [48] ∨ x.int.head? ≠ some 48
  exp_ne_nil : ∀ e, x.exp = some e → e.2 ≠ []

/-- The number has a point or an exponent. -/
def IsFloat (x : Numeral) : Prop := x.frac ≠ [] ∨ x.exp ≠ none

/-! ## Exponents -/

theorem exponentDigits_spec : ∀ k < 1000, (exponentDigits k).all isDigit = true ∧
    exponentDigits k ≠ [] ∧ ofDigits (exponentDigits k) = k ∧ (exponentDigits k).length ≤ 3 := by
  decide +kernel

theorem digits_exponentDigits {k : Nat} (h : k < 1000) : Digits (exponentDigits k) := fun b hb =>
  List.all_eq_true.mp (exponentDigits_spec k h).1 b hb

/-- The layout with an exponent. -/
def scientific (buf : Bytes) (e : Int) : Numeral :=
  ⟨false, buf.take 1, buf.drop 1, some (decide (e < 0), exponentDigits e.natAbs)⟩

theorem scientific_exponent {buf : Bytes} {e : Int} (h : e.natAbs < 1000) :
    (scientific buf e).exponent = e := by
  obtain ⟨_, _, hDigits, _⟩ := exponentDigits_spec _ h
  rw [Numeral.exponent, scientific]
  simp only [hDigits, decide_eq_true_eq]
  split <;> omega

/-! ## Layouts -/

/-- What the layout of digits is to be. -/
structure Laid (buf : Bytes) (e : Int) (x : Numeral) : Prop extends Shape x where
  positive : x.negative = false
  isFloat : IsFloat x
  value : x.value = ofDigits buf * 10 ^ e
  short : x.text.length ≤ 24

section

variable {buf : Bytes} {e : Int} (hBuf : Leading buf) (hNe : buf ≠ []) (hLength : buf.length ≤ 17)

theorem digits_zeros (n : Nat) : Digits (List.replicate n 48) := fun b hb => by
  rw [List.eq_of_mem_replicate hb]
  rfl

include hBuf in
theorem digits_take (n : Nat) : Digits (buf.take n) := fun b hb => hBuf.digits b (List.mem_of_mem_take hb)

include hBuf in
theorem digits_drop (n : Nat) : Digits (buf.drop n) := fun b hb => hBuf.digits b (List.mem_of_mem_drop hb)

include hBuf in
theorem head_take {n : Nat} (hn : 0 < n) : (buf.take n).head? ≠ some 48 := by
  rw [List.head?_take, if_neg (by omega)]
  exact hBuf.head

theorem zeros_value (zeros : Nat) (l : Bytes) :
    ofDigits (List.replicate zeros 48 ++ l) = ofDigits l := by
  rw [ofDigits_append, ofDigits_replicate_zero, Nat.zero_mul, Nat.zero_add]

include hBuf hNe in
theorem laid_integral (zeros : Nat) (he : e = zeros) (hShort : buf.length + zeros ≤ 15) :
    Laid buf e ⟨false, buf ++ List.replicate zeros 48, [48], none⟩ := by
  obtain ⟨b, l, rfl⟩ := List.exists_cons_of_ne_nil hNe
  refine ⟨⟨⟨hBuf.digits.append (digits_zeros zeros), by simp, digits_zeros 1, fun _ h => by cases h⟩,
    Or.inr hBuf.head, fun _ h => by cases h⟩, rfl, Or.inl (List.cons_ne_nil _ _), ?_, ?_⟩
  · have hDigits : ofDigits ((b :: l) ++ List.replicate zeros 48 ++ [48]) =
        ofDigits (b :: l) * 10 ^ zeros * 10 := by
      rw [ofDigits_append, ofDigits_append, ofDigits_replicate_zero]
      simp [ofDigits_singleton]
    simp only [Numeral.value, Numeral.exponent, hDigits, he]
    push_cast
    simp
  · simp only [Numeral.text, Numeral.minus, Numeral.fracText, Numeral.expText, List.length_append,
      List.length_replicate]
    simp
    simp at hShort
    omega

include hBuf hLength in
theorem laid_point {n : Nat} (hn : 0 < n) (hLess : n < buf.length) (he : e = n - (buf.length : Int)) :
    Laid buf e ⟨false, buf.take n, buf.drop n, none⟩ := by
  have hInt : buf.take n ≠ [] := List.ne_nil_of_length_pos (by rw [List.length_take]; omega)
  have hFrac : buf.drop n ≠ [] := List.ne_nil_of_length_pos (by rw [List.length_drop]; omega)
  refine ⟨⟨⟨digits_take hBuf n, hInt, digits_drop hBuf n, fun _ h => by cases h⟩,
    Or.inr (head_take hBuf hn), fun _ h => by cases h⟩, rfl, Or.inl hFrac, ?_, ?_⟩
  · have hExponent : (0 : Int) - ((buf.length - n : Nat) : Int) = e := by omega
    simp only [Numeral.value, Numeral.exponent, List.take_append_drop, List.length_drop, hExponent]
  · simp only [Numeral.text, Numeral.minus, Numeral.fracText, if_neg hFrac, Numeral.expText,
      List.length_append, List.length_take, List.length_cons, List.length_drop]
    simp
    omega

include hBuf hNe hLength in
theorem laid_small (zeros : Nat) (hZeros : zeros ≤ 3) (he : e = -(zeros : Int) - buf.length) :
    Laid buf e ⟨false, [48], List.replicate zeros 48 ++ buf, none⟩ := by
  have hFrac : List.replicate zeros 48 ++ buf ≠ [] := List.append_ne_nil_of_right_ne_nil _ hNe
  refine ⟨⟨⟨digits_zeros 1, List.cons_ne_nil _ _, (digits_zeros zeros).append hBuf.digits,
    fun _ h => by cases h⟩, Or.inl rfl, fun _ h => by cases h⟩, rfl, Or.inl hFrac, ?_, ?_⟩
  · have hExponent : (0 : Int) - ((zeros + buf.length : Nat) : Int) = e := by omega
    have hDigits : ofDigits ([48] ++ (List.replicate zeros 48 ++ buf)) = ofDigits buf := by
      rw [← List.append_assoc]
      exact zeros_value (zeros + 1) buf
    simp only [Numeral.value, Numeral.exponent, hDigits, List.length_append, List.length_replicate,
      hExponent]
  · simp only [Numeral.text, Numeral.minus, Numeral.fracText, if_neg hFrac, Numeral.expText,
      List.length_append, List.length_replicate, List.length_cons]
    simp
    omega

include hBuf hNe hLength in
theorem laid_scientific (h : (buf.length + e - 1).natAbs < 1000) :
    Laid buf e (scientific buf (buf.length + e - 1)) := by
  obtain ⟨_, hExpNe, _, hExpLength⟩ := exponentDigits_spec _ h
  have hPos := List.length_pos_iff.mpr hNe
  have hInt : buf.take 1 ≠ [] := List.ne_nil_of_length_pos (by rw [List.length_take]; omega)
  refine ⟨⟨⟨digits_take hBuf 1, hInt, digits_drop hBuf 1, ?_⟩, Or.inr (head_take hBuf Nat.one_pos), ?_⟩,
    rfl, Or.inr (by simp [scientific]), ?_, ?_⟩
  · intro exp hExp
    cases hExp
    exact digits_exponentDigits h
  · intro exp hExp
    cases hExp
    exact hExpNe
  · have hExponent : buf.length + e - 1 - ((buf.length - 1 : Nat) : Int) = e := by omega
    rw [Numeral.value, scientific_exponent h]
    simp only [scientific, List.take_append_drop, List.length_drop, hExponent]
  · have hFrac : (Numeral.fracText (buf.drop 1)).length ≤ buf.length := by
      rw [Numeral.fracText]
      split
      · exact Nat.zero_le _
      · rw [List.length_cons, List.length_drop]
        omega
    simp only [Numeral.text, scientific, Numeral.minus, Numeral.expText, List.length_append,
      List.length_take, List.length_cons, Bool.false_eq_true, if_false, List.length_nil]
    omega

include hBuf hNe hLength in
theorem formatBuffer_spec (h : (buf.length + e - 1).natAbs < 1000) :
    ∃ x, formatBuffer buf e (-4) 15 = x.text ∧ Laid buf e x := by
  have hPos := List.length_pos_iff.mpr hNe
  rw [formatBuffer]
  split
  · rename_i hIntegral
    refine ⟨_, ?_, laid_integral hBuf hNe e.toNat (by omega) (by omega)⟩
    have hZeros : ((buf.length : Int) + e - buf.length).toNat = e.toNat := by omega
    rw [hZeros]
    simp [Numeral.text, Numeral.minus, Numeral.fracText, Numeral.expText, ascii]
  · split
    · rename_i hPoint
      refine ⟨_, ?_, laid_point hBuf hLength (n := ((buf.length : Int) + e).toNat) (by omega) (by omega)
        (by omega)⟩
      have hFrac : buf.drop ((buf.length : Int) + e).toNat ≠ [] :=
        List.ne_nil_of_length_pos (by rw [List.length_drop]; omega)
      simp only [Numeral.text, Numeral.minus, Numeral.fracText, if_neg hFrac, Numeral.expText,
        List.append_nil, List.append_assoc]
      rfl
    · split
      · rename_i hSmall
        refine ⟨_, ?_, laid_small hBuf hNe hLength (-((buf.length : Int) + e)).toNat
          (by omega) (by omega)⟩
        have hFrac : List.replicate (-((buf.length : Int) + e)).toNat 48 ++ buf ≠ [] :=
          List.append_ne_nil_of_right_ne_nil _ hNe
        simp only [Numeral.text, Numeral.minus, Numeral.fracText, if_neg hFrac, Numeral.expText,
          List.append_nil, List.append_assoc]
        rfl
      · refine ⟨_, ?_, laid_scientific hBuf hNe hLength h⟩
        split
        · rename_i hOne
          obtain ⟨b, rfl⟩ := List.length_eq_one_iff.mp (by omega : buf.length = 1)
          simp [Numeral.text, scientific, Numeral.minus, Numeral.fracText, Numeral.expText,
            appendExponent, ascii]
        · rename_i hMany
          have hFrac : buf.drop 1 ≠ [] := List.ne_nil_of_length_pos (by rw [List.length_drop]; omega)
          simp only [Numeral.text, scientific, Numeral.minus, Numeral.fracText, hFrac, if_false,
            Numeral.expText, appendExponent, List.append_assoc, decide_eq_true_eq]
          rfl

end

/-! ## The text of a double -/

theorem twiceMid_infinity : twiceMid infinityBits < 10 ^ 1000 * 2 ^ 1075 := by decide +kernel

theorem exponent_bounds {buf : Bytes} {e : Int} {n : Nat} (hBuf : Leading buf) (hNe : buf ≠ [])
    (hFinite : n < infinityBits)
    (hAbove : (twiceMid (n - 1) : Rat) < ofDigits buf * 10 ^ e * 2 ^ 1075)
    (hBelow : (ofDigits buf * 10 ^ e * 2 ^ 1075 : Rat) < twiceMid n) :
    (buf.length + e - 1).natAbs < 1000 := by
  have hPos := List.length_pos_iff.mpr hNe
  have hTen : (0 : Rat) < 10 ^ e := zpow_pos (by norm_num) _
  have hLow : (10 : Rat) ^ ((buf.length - 1 : Nat) : Int) ≤ ofDigits buf := by
    rw [zpow_natCast]
    exact_mod_cast le_ofDigits hBuf.digits hNe hBuf.head
  have hHigh : (ofDigits buf : Rat) < 10 ^ (buf.length : Int) := by
    rw [zpow_natCast]
    exact_mod_cast ofDigits_lt hBuf.digits
  have hUpper : buf.length + e - 1 < 1000 := by
    have hLast : (twiceMid n : Rat) < 10 ^ (1000 : Int) * 2 ^ 1075 := by
      rw [zpow_ofNat]
      exact_mod_cast (twiceMid_strictMono hFinite).trans twiceMid_infinity
    have hProduct := mul_le_mul_of_nonneg_right hLow (le_of_lt hTen)
    rw [← zpow_add₀ (by norm_num)] at hProduct
    have hLess := lt_of_mul_lt_mul_right
      ((mul_le_mul_of_nonneg_right hProduct (by norm_num)).trans_lt (hBelow.trans hLast)) (by norm_num)
    have hExponent := (zpow_lt_zpow_iff_right₀ (by norm_num : (1 : Rat) < 10)).mp hLess
    omega
  have hLower : -999 < buf.length + e := by
    have hFirst : (10 : Rat) ^ (-999 : Int) * 2 ^ 1075 ≤ twiceMid (n - 1) := by
      have hOne : (1 : Rat) ≤ twiceMid (n - 1) := by exact_mod_cast twiceMid_pos (n - 1)
      exact le_trans (by decide +kernel) hOne
    have hProduct := mul_lt_mul_of_pos_right hHigh hTen
    rw [← zpow_add₀ (by norm_num)] at hProduct
    have hLess := lt_of_mul_lt_mul_right
      ((hFirst.trans_lt hAbove).trans (mul_lt_mul_of_pos_right hProduct (by norm_num))) (by norm_num)
    exact (zpow_lt_zpow_iff_right₀ (by norm_num : (1 : Rat) < 10)).mp hLess
  omega

theorem Shape.sign {x : Numeral} (h : Shape x) (negative : Bool) :
    Shape ⟨negative, x.int, x.frac, x.exp⟩ :=
  ⟨⟨h.int, h.int_ne_nil, h.frac, h.exp⟩, h.leading, h.exp_ne_nil⟩

theorem text_sign {x : Numeral} (h : x.negative = false) (negative : Bool) :
    (⟨negative, x.int, x.frac, x.exp⟩ : Numeral).text = Numeral.minus negative ++ x.text := by
  simp [Numeral.text, Numeral.minus, h]

theorem ascii_minus (negative : Bool) :
    (if negative then ascii "-" else []) = Numeral.minus negative := by
  cases negative <;> rfl

theorem length_minus (negative : Bool) : (Numeral.minus negative).length ≤ 1 := by
  cases negative <;> decide

/-- The text of a finite double is a number with a point or an exponent, and is
read as the same double. -/
theorem toChars_spec {d : Binary64} (h : d.finite = true) :
    ∃ x, toChars d = some x.text ∧ Shape x ∧ IsFloat x ∧ x.text.length ≤ 25 ∧ strtod x.text = d := by
  have hFinite := magnitude_lt_of_finite h
  have hLength := length_minus d.negative
  rw [toChars]
  split
  · rename_i hZero
    have hShape : Shape ⟨d.negative, [48], [48], none⟩ :=
      ⟨⟨digits_zeros 1, List.cons_ne_nil _ _, digits_zeros 1, fun _ h => by cases h⟩, Or.inl rfl,
        fun _ h => by cases h⟩
    refine ⟨_, ?_, hShape, Or.inl (List.cons_ne_nil _ _), ?_, ?_⟩
    · rw [ascii_minus]
      rfl
    · simp only [Numeral.text, List.length_append]
      simp [Numeral.fracText, Numeral.expText]
      omega
    · have hValue : (⟨d.negative, [48], [48], none⟩ : Numeral).value = 0 := by
        simp [Numeral.value, ofDigits]
      rw [Numeral.strtod_text hShape.toDecimal, hValue, nearest_zero, ← hZero]
      exact signed_magnitude d
  · rename_i hNonzero
    obtain ⟨buf, e, hGrisu, hBuf, hNe, hShort, hAbove, hBelow⟩ :=
      grisu2_spec (Nat.pos_of_ne_zero hNonzero) hFinite
    have hExponent := exponent_bounds hBuf hNe hFinite hAbove hBelow
    obtain ⟨x, hText, hLaid⟩ := formatBuffer_spec hBuf hNe hShort hExponent
    have hShape := hLaid.toShape.sign d.negative
    refine ⟨⟨d.negative, x.int, x.frac, x.exp⟩, ?_, hShape, hLaid.isFloat, ?_, ?_⟩
    · rw [hGrisu, Option.map_some, hText, ascii_minus]
      exact congrArg some (text_sign hLaid.positive d.negative).symm
    · have hLaidShort := hLaid.short
      rw [text_sign hLaid.positive, List.length_append]
      omega
    · have hValue : (⟨d.negative, x.int, x.frac, x.exp⟩ : Numeral).value = ofDigits buf * 10 ^ e :=
        hLaid.value
      obtain ⟨m, hm⟩ := Nat.exists_eq_succ_of_ne_zero hNonzero
      rw [hm] at hAbove hBelow hFinite
      rw [Numeral.strtod_text hShape.toDecimal, hValue, nearest_of_between hFinite hAbove hBelow,
        ← Nat.succ_eq_add_one, ← hm]
      exact signed_magnitude d

/-- The digits of a finite double are read as that double, and they fit. -/
theorem toChars_strtod (d : Binary64) (h : d.finite = true) :
    ∃ t, toChars d = some t ∧ t.length ≤ 25 ∧ strtod t = d := by
  obtain ⟨x, hText, _, _, hLength, hValue⟩ := toChars_spec h
  exact ⟨x.text, hText, hLength, hValue⟩

/-- The double next to 0.1. -/
theorem toChars_strtod_tenth : ∃ t, toChars ⟨0x3FB999999999999A⟩ = some t ∧ t.length ≤ 25 ∧
    strtod t = ⟨0x3FB999999999999A⟩ :=
  toChars_strtod ⟨0x3FB999999999999A⟩ (by decide)

end OpcConfig.Dtoa
