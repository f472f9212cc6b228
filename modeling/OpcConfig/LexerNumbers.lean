import OpcConfig.Lexer

/-! # The numbers that the lexer reads

The states of `scan_number` are the parts of a number's text that are still to
come. The number ends where no further part begins.
-/

namespace OpcConfig.Lexer

set_option autoImplicit false

open Grammar Strtod

/-! ## What a state expects -/

/-- A number is of the same type without a fraction and an exponent. -/
def typeWith (numberType : NumberType) (t : Bytes) : NumberType := if t = [] then numberType else .float

/-- Digits, and then a text of which `P` holds. -/
def DigitsThen (P : Bytes → Prop) (t : Bytes) : Prop := ∃ digits u, t = digits ++ u ∧ Digits digits ∧ P u

def ExponentOf (type : NumberType) (type' : NumberType) (t : Bytes) : Prop :=
  Exponent t ∧ type' = typeWith type t

def FractionOf (type : NumberType) (type' : NumberType) (t : Bytes) : Prop :=
  ∃ frac exp, t = frac ++ exp ∧ Fraction frac ∧ Exponent exp ∧ type' = typeWith type (frac ++ exp)

/-- The text that may follow in a state, and the types of the number before and
after it. -/
def Expects (type type' : NumberType) : NumberState → Bytes → Prop
  | .minus, t => ∃ int u, t = int ++ u ∧ Integral int ∧ FractionOf type type' u
  | .zero, t => FractionOf type type' t
  | .any1, t => DigitsThen (FractionOf type type') t
  | .decimal1, t => ∃ b u, t = b :: u ∧ isDigit b = true ∧ DigitsThen (ExponentOf type type') u
  | .decimal2, t => DigitsThen (ExponentOf type type') t
  | .exponent, t => Signed t ∧ type' = type
  | .sign, t => Digits t ∧ t ≠ [] ∧ type' = type
  | .any2, t => Digits t ∧ type' = type

theorem digits_cons {b : UInt8} {t : Bytes} : Digits (b :: t) ↔ isDigit b = true ∧ Digits t := by
  simp [Digits]

theorem digits_nil : Digits [] := by simp [Digits]

theorem digitsThen_cons {P : Bytes → Prop} {b : UInt8} {t : Bytes} :
    DigitsThen P (b :: t) ↔ P (b :: t) ∨ (isDigit b = true ∧ DigitsThen P t) := by
  constructor
  · rintro ⟨digits, u, hSplit, hDigits, hu⟩
    cases digits with
    | nil =>
      rw [List.nil_append] at hSplit
      exact Or.inl (hSplit ▸ hu)
    | cons d digits =>
      rw [List.cons_append] at hSplit
      obtain ⟨rfl, rfl⟩ := List.cons.inj hSplit
      obtain ⟨hd, hDigits⟩ := digits_cons.mp hDigits
      exact Or.inr ⟨hd, digits, u, rfl, hDigits, hu⟩
  · rintro (h | ⟨hb, digits, u, rfl, hDigits, hu⟩)
    · exact ⟨[], b :: t, rfl, digits_nil, h⟩
    · exact ⟨b :: digits, u, rfl, digits_cons.mpr ⟨hb, hDigits⟩, hu⟩

theorem digitsThen_nil {P : Bytes → Prop} : DigitsThen P [] ↔ P [] := by
  constructor
  · rintro ⟨digits, u, hSplit, _, hu⟩
    rwa [(List.nil_eq_append_iff.mp hSplit).2] at hu
  · intro h
    exact ⟨[], [], rfl, digits_nil, h⟩

theorem exponent_nil : Exponent [] := Or.inl rfl

theorem exponent_cons {b : UInt8} {t : Bytes} : Exponent (b :: t) ↔ (b = 101 ∨ b = 69) ∧ Signed t := by
  simp [Exponent]

theorem signed_cons {b : UInt8} {t : Bytes} : Signed (b :: t) ↔
    (b = 43 ∨ b = 45) ∧ Digits t ∧ t ≠ [] ∨ isDigit b = true ∧ Digits t := by
  constructor
  · rintro ⟨sign, digits, hSplit, hSign, hDigits, hNe⟩
    simp only [List.mem_cons, List.not_mem_nil, or_false] at hSign
    rcases hSign with rfl | rfl | rfl
    · rw [List.nil_append] at hSplit
      subst hSplit
      exact Or.inr (digits_cons.mp hDigits)
    · obtain ⟨rfl, rfl⟩ := List.cons.inj hSplit
      exact Or.inl ⟨Or.inl rfl, hDigits, hNe⟩
    · obtain ⟨rfl, rfl⟩ := List.cons.inj hSplit
      exact Or.inl ⟨Or.inr rfl, hDigits, hNe⟩
  · rintro (⟨hSign, hDigits, hNe⟩ | hDigits)
    · refine ⟨[b], t, rfl, ?_, hDigits, hNe⟩
      rcases hSign with rfl | rfl <;> simp
    · exact ⟨[], b :: t, rfl, by simp, digits_cons.mpr hDigits, List.cons_ne_nil _ _⟩

section

variable {type type' : NumberType} {b : UInt8} {t : Bytes}

theorem exponentOf_cons : ExponentOf type type' (b :: t) ↔
    (b = 101 ∨ b = 69) ∧ Signed t ∧ type' = .float := by
  rw [ExponentOf, exponent_cons, typeWith, if_neg (List.cons_ne_nil _ _), and_assoc]

theorem fractionOf_cons : FractionOf type type' (b :: t) ↔
    (b = 46 ∧ Expects .float type' .decimal1 t) ∨ ((b = 101 ∨ b = 69) ∧ Signed t ∧ type' = .float) := by
  have hType : ∀ u, typeWith .float u = .float := fun u => ite_self _
  constructor
  · rintro ⟨frac, exp, hSplit, hFrac, hExp, hType'⟩
    rw [← hSplit, typeWith, if_neg (List.cons_ne_nil _ _)] at hType'
    rcases hFrac with rfl | ⟨digits, rfl, hDigits, hNe⟩
    · rw [List.nil_append] at hSplit
      subst hSplit
      obtain ⟨hb, hSigned⟩ := exponent_cons.mp hExp
      exact Or.inr ⟨hb, hSigned, hType'⟩
    · rw [List.cons_append] at hSplit
      obtain ⟨rfl, rfl⟩ := List.cons.inj hSplit
      obtain ⟨d, digits, rfl⟩ := List.exists_cons_of_ne_nil hNe
      obtain ⟨hd, hDigits⟩ := digits_cons.mp hDigits
      exact Or.inl ⟨rfl, d, digits ++ exp, rfl, hd, digits, exp, rfl, hDigits, hExp,
        hType'.trans (hType exp).symm⟩
  · rintro (⟨rfl, d, u, rfl, hd, digits, exp, rfl, hDigits, hExp, hType'⟩ | ⟨hb, hSigned, hType'⟩)
    · refine ⟨46 :: d :: digits, exp, rfl, Or.inr ⟨d :: digits, rfl, digits_cons.mpr ⟨hd, hDigits⟩,
        List.cons_ne_nil _ _⟩, hExp, ?_⟩
      rw [hType', hType, typeWith, if_neg (by simp)]
    · refine ⟨[], b :: t, rfl, Or.inl rfl, exponent_cons.mpr ⟨hb, hSigned⟩, ?_⟩
      rw [hType', typeWith, if_neg (by simp)]

theorem fractionOf_nil : FractionOf type type' [] ↔ type' = type := by
  constructor
  · rintro ⟨frac, exp, hSplit, _, _, hType⟩
    rwa [← hSplit] at hType
  · rintro rfl
    exact ⟨[], [], rfl, Or.inl rfl, exponent_nil, rfl⟩

theorem exponentOf_nil : ExponentOf type type' [] ↔ type' = type := by
  rw [ExponentOf, typeWith, if_pos rfl, and_iff_right exponent_nil]

end

theorem ne_of_digit {b : UInt8} (h : isDigit b = true) :
    b ≠ 46 ∧ b ≠ 101 ∧ b ≠ 69 ∧ b ≠ 43 ∧ b ≠ 45 := by
  refine ⟨?_, ?_, ?_, ?_, ?_⟩ <;> rintro rfl <;> exact absurd h (by decide)

theorem expects_minus {type type' : NumberType} {b : UInt8} {t : Bytes} :
    Expects type type' .minus (b :: t) ↔ b = 48 ∧ FractionOf type type' t ∨
      b ≠ 48 ∧ isDigit b = true ∧ DigitsThen (FractionOf type type') t := by
  constructor
  · rintro ⟨int, u, hSplit, rfl | ⟨hDigits, hNe, hHead⟩, hu⟩
    · obtain ⟨rfl, rfl⟩ := List.cons.inj hSplit
      exact Or.inl ⟨rfl, hu⟩
    · obtain ⟨d, int, rfl⟩ := List.exists_cons_of_ne_nil hNe
      obtain ⟨rfl, rfl⟩ := List.cons.inj hSplit
      obtain ⟨hd, hDigits⟩ := digits_cons.mp hDigits
      exact Or.inr ⟨fun h => hHead (congrArg some h), hd, int, u, rfl, hDigits, hu⟩
  · rintro (⟨rfl, hu⟩ | ⟨hb, hd, digits, u, rfl, hDigits, hu⟩)
    · exact ⟨[48], t, rfl, Or.inl rfl, hu⟩
    · refine ⟨b :: digits, u, rfl, Or.inr ⟨digits_cons.mpr ⟨hd, hDigits⟩, List.cons_ne_nil _ _, ?_⟩, hu⟩
      exact fun h => hb (Option.some.inj h)

/-- A byte leads to another state exactly if the text goes on with it. -/
theorem expects_cons {type type' : NumberType} {state : NumberState} {b : UInt8} {t : Bytes} :
    Expects type type' state (b :: t) ↔ ∃ state', state.next b = some state' ∧
      Expects (state'.type type) type' state' t := by
  cases state with
  | minus =>
    rw [expects_minus, NumberState.next]
    by_cases hZero : b = 48
    · simp [hZero, Expects, NumberState.type]
    · by_cases hDigit : isDigit b = true <;> simp [hZero, hDigit, Expects, NumberState.type]
  | zero =>
    rw [Expects, fractionOf_cons, NumberState.next]
    by_cases hPoint : b = 46
    · simp [hPoint, NumberState.type]
    · by_cases hE : b = 101 ∨ b = 69 <;> simp [hPoint, hE, Expects, NumberState.type]
  | any1 =>
    rw [Expects, digitsThen_cons, fractionOf_cons, NumberState.next]
    by_cases hDigit : isDigit b = true
    · obtain ⟨hPoint, he, hE, _⟩ := ne_of_digit hDigit
      simp [hDigit, hPoint, he, hE, Expects, NumberState.type]
    · by_cases hPoint : b = 46
      · have hPointDigit : isDigit 46 = false := rfl
        simp [hPoint, hPointDigit, NumberState.type]
      · by_cases hE : b = 101 ∨ b = 69 <;> simp [hDigit, hPoint, hE, Expects, NumberState.type]
  | decimal1 =>
    rw [Expects, NumberState.next]
    by_cases hDigit : isDigit b = true <;> simp [hDigit, Expects, NumberState.type]
  | decimal2 =>
    rw [Expects, digitsThen_cons, exponentOf_cons, NumberState.next]
    by_cases hDigit : isDigit b = true
    · obtain ⟨_, he, hE, _⟩ := ne_of_digit hDigit
      simp [hDigit, he, hE, Expects, NumberState.type]
    · by_cases hE : b = 101 ∨ b = 69 <;> simp [hDigit, hE, Expects, NumberState.type]
  | exponent =>
    rw [Expects, signed_cons, NumberState.next]
    by_cases hDigit : isDigit b = true
    · obtain ⟨_, _, _, hPlus, hMinus⟩ := ne_of_digit hDigit
      simp [hDigit, hPlus, hMinus, Expects, NumberState.type]
    · by_cases hSign : b = 43 ∨ b = 45 <;> simp [hDigit, hSign, Expects, NumberState.type, and_assoc]
  | sign =>
    rw [Expects, digits_cons, NumberState.next]
    by_cases hDigit : isDigit b = true <;> simp [hDigit, Expects, NumberState.type]
  | any2 =>
    rw [Expects, digits_cons, NumberState.next]
    by_cases hDigit : isDigit b = true <;> simp [hDigit, Expects, NumberState.type]

theorem expects_nil {type type' : NumberType} {state : NumberState} :
    Expects type type' state [] ↔ state.message = none ∧ type' = type := by
  cases state with
  | minus =>
    simp only [Expects, NumberState.message, reduceCtorEq, false_and, iff_false]
    rintro ⟨int, u, hSplit, hInt, _⟩
    rw [(List.nil_eq_append_iff.mp hSplit).1] at hInt
    rcases hInt with hInt | ⟨_, hNe, _⟩
    · cases hInt
    · exact hNe rfl
  | zero => simp [Expects, NumberState.message, fractionOf_nil]
  | any1 => simp [Expects, NumberState.message, digitsThen_nil, fractionOf_nil]
  | decimal1 => simp [Expects, NumberState.message]
  | decimal2 => simp [Expects, NumberState.message, digitsThen_nil, exponentOf_nil]
  | exponent =>
    simp only [Expects, NumberState.message, reduceCtorEq, false_and, iff_false]
    rintro ⟨⟨sign, digits, hSplit, _, _, hNe⟩, _⟩
    exact hNe (List.nil_eq_append_iff.mp hSplit).2
  | sign => simp [Expects, NumberState.message]
  | any2 => simp [Expects, NumberState.message, digits_nil]

/-! ## The run through the states -/

/-- No part of a number begins here. -/
def Stops (rest : Bytes) : Prop :=
  ∀ b, rest.head? = some b → isDigit b = false ∧ b ≠ 46 ∧ b ≠ 101 ∧ b ≠ 69

theorem next_of_stops {state : NumberState} {b : UInt8} (hState : state.message = none)
    (hb : isDigit b = false ∧ b ≠ 46 ∧ b ≠ 101 ∧ b ≠ 69) : state.next b = none := by
  obtain ⟨hDigit, hPoint, he, hE⟩ := hb
  cases state <;> simp_all [NumberState.next, NumberState.message]

theorem scanDigits_complete {type type' : NumberType} {state : NumberState} {t rest : Bytes}
    (h : Expects type type' state t) (hRest : Stops rest) (tokenBuffer : Bytes) :
    scanDigits state type tokenBuffer (t ++ rest) = .ok (type', tokenBuffer ++ t, rest) := by
  induction t generalizing state type tokenBuffer with
  | nil =>
    obtain ⟨hMessage, rfl⟩ := expects_nil.mp h
    rw [List.nil_append, List.append_nil]
    cases rest with
    | nil => rw [scanDigits, numberDone, hMessage]
    | cons b rest => rw [scanDigits, next_of_stops hMessage (hRest b rfl), numberDone, hMessage]
  | cons b t ih =>
    obtain ⟨state', hNext, hExpects⟩ := expects_cons.mp h
    rw [List.cons_append, scanDigits, hNext]
    change scanDigits state' _ _ (t ++ rest) = _
    rw [ih hExpects, List.append_assoc, List.singleton_append]

theorem numberDone_sound {type type' : NumberType} {state : NumberState}
    {tokenBuffer rest tokenBuffer' rest' : Bytes}
    (h : numberDone state type tokenBuffer rest = .ok (type', tokenBuffer', rest')) :
    ∃ t, Expects type type' state t ∧ rest = t ++ rest' ∧ tokenBuffer' = tokenBuffer ++ t := by
  rw [numberDone] at h
  split at h
  · cases h
  · rename_i hMessage
    cases h
    exact ⟨[], expects_nil.mpr ⟨hMessage, rfl⟩, rfl, (List.append_nil _).symm⟩

theorem scanDigits_sound {type type' : NumberType} {state : NumberState}
    {tokenBuffer rest tokenBuffer' rest' : Bytes}
    (h : scanDigits state type tokenBuffer rest = .ok (type', tokenBuffer', rest')) :
    ∃ t, Expects type type' state t ∧ rest = t ++ rest' ∧ tokenBuffer' = tokenBuffer ++ t := by
  induction rest generalizing state type tokenBuffer with
  | nil => exact numberDone_sound h
  | cons b rest ih =>
    rw [scanDigits] at h
    split at h
    · exact numberDone_sound h
    · rename_i state' hNext
      obtain ⟨t, hExpects, rfl, rfl⟩ := ih h
      exact ⟨b :: t, expects_cons.mpr ⟨state', hNext, hExpects⟩, rfl, List.append_assoc _ _ _⟩

/-! ## Values of numbers -/

theorem integer?_eq_some_iff {z : Int} {n : JsonInteger} : integer? z = some n ↔ n.val = z := by
  rw [integer?]
  constructor
  · intro h
    split at h
    · cases h
      rfl
    · cases h
  · rintro rfl
    rw [dif_pos ⟨n.lower, n.upper⟩]

/-- The value that a token for a number stands for; infinite ones are thrown out. -/
def Token.number : Token → Option Json
  | .valueUnsigned n => some (.integer n)
  | .valueInteger n => some (.integer n)
  | .valueFloat d => if d.finite then some (.double d) else none
  | _ => none

def integerType (minus : Bytes) : NumberType := if minus = [] then .unsigned else .integer

theorem digits_of_integral {int : Bytes} (h : Integral int) : Digits int ∧ int ≠ [] := by
  rcases h with rfl | ⟨hDigits, hNe, _⟩
  · exact ⟨digits_cons.mpr ⟨rfl, digits_nil⟩, List.cons_ne_nil _ _⟩
  · exact ⟨hDigits, hNe⟩

theorem expects_start {current : UInt8} {u : Bytes} {type' : NumberType}
    (hCurrent : current = 45 ∨ isDigit current = true) :
    Expects ((startState current).type .unsigned) type' (startState current) u ↔
      ∃ minus int frac exp, current :: u = minus ++ (int ++ (frac ++ exp)) ∧
        NumberText minus int frac exp ∧ type' = typeWith (integerType minus) (frac ++ exp) := by
  rw [startState]
  constructor
  · intro h
    split_ifs at h with hMinus hZero
    · obtain ⟨int, _, rfl, hInt, frac, exp, rfl, hFrac, hExp, hType⟩ := h
      exact ⟨[45], int, frac, exp, by rw [hMinus]; rfl, ⟨Or.inr rfl, hInt, hFrac, hExp⟩, hType⟩
    · obtain ⟨frac, exp, rfl, hFrac, hExp, hType⟩ := h
      exact ⟨[], [48], frac, exp, by rw [hZero]; rfl, ⟨Or.inl rfl, Or.inl rfl, hFrac, hExp⟩, hType⟩
    · obtain ⟨digits, _, rfl, hDigits, frac, exp, rfl, hFrac, hExp, hType⟩ := h
      have hDigit := hCurrent.resolve_left hMinus
      refine ⟨[], current :: digits, frac, exp, rfl, ⟨Or.inl rfl, Or.inr ?_, hFrac, hExp⟩, hType⟩
      exact ⟨digits_cons.mpr ⟨hDigit, hDigits⟩, List.cons_ne_nil _ _, fun h => hZero (Option.some.inj h)⟩
  · rintro ⟨minus, int, frac, exp, hSplit, ⟨rfl | rfl, hInt, hFrac, hExp⟩, hType⟩
    · rw [List.nil_append] at hSplit
      rcases hInt with rfl | ⟨hDigits, hNe, hHead⟩
      · obtain ⟨rfl, rfl⟩ := List.cons.inj hSplit
        exact ⟨frac, exp, rfl, hFrac, hExp, hType⟩
      · obtain ⟨d, int, rfl⟩ := List.exists_cons_of_ne_nil hNe
        obtain ⟨rfl, rfl⟩ := List.cons.inj hSplit
        obtain ⟨hd, hDigits⟩ := digits_cons.mp hDigits
        rw [if_neg (ne_of_digit hd).2.2.2.2, if_neg fun h => hHead (congrArg some h)]
        exact ⟨int, frac ++ exp, rfl, hDigits, frac, exp, rfl, hFrac, hExp, hType⟩
    · obtain ⟨rfl, rfl⟩ := List.cons.inj hSplit
      exact ⟨int, frac ++ exp, rfl, hInt, frac, exp, rfl, hFrac, hExp, hType⟩

section

variable {minus int frac exp : Bytes} (h : NumberText minus int frac exp)

include h

theorem convert_integer (hNone : frac ++ exp = []) {n : JsonInteger}
    (hn : n.val = integerValue minus int) :
    (convert (typeWith (integerType minus) (frac ++ exp)) (minus ++ (int ++ (frac ++ exp)))).number =
      some (.integer n) := by
  have hDigits := takeWhile_of_digits (digits_of_integral h.int).1
  have hLower := n.lower
  have hUpper := n.upper
  rw [integerValue] at hn
  rw [hNone, typeWith, if_pos rfl, integerType, List.append_nil]
  rcases h.minus with rfl | rfl
  · rw [if_pos rfl] at hn ⊢
    have hValue : integer? (ofDigits int : Int) = some n := integer?_eq_some_iff.mpr hn
    rw [List.nil_append, convert, strtoull, hDigits, if_pos (by omega), Option.bind_some, hValue]
    rfl
  · rw [if_neg (List.cons_ne_nil _ _)] at hn ⊢
    have hValue : integer? (-ofDigits int : Int) = some n := integer?_eq_some_iff.mpr hn
    have hSign : sign ([45] ++ int) = (true, int) := rfl
    rw [convert, strtoll, hSign]
    dsimp only
    rw [if_pos rfl, hDigits, if_pos (by omega), Option.bind_some, hValue]
    rfl

theorem convert_double (hDouble : frac ++ exp ≠ [] ∨ integerValue minus int < -2 ^ 63 ∨
      2 ^ 64 ≤ integerValue minus int) :
    convert (typeWith (integerType minus) (frac ++ exp)) (minus ++ (int ++ (frac ++ exp))) =
      .valueFloat (strtod (minus ++ (int ++ (frac ++ exp)))) := by
  by_cases hNone : frac ++ exp = []
  · have hRange := hDouble.resolve_left (absurd hNone)
    have hDigits := takeWhile_of_digits (digits_of_integral h.int).1
    rw [integerValue] at hRange
    rw [hNone, typeWith, if_pos rfl, integerType, List.append_nil]
    rcases h.minus with rfl | rfl
    · rw [if_pos rfl] at hRange ⊢
      rw [List.nil_append, convert, strtoull, hDigits, if_neg (by omega), Option.bind_none]
    · rw [if_neg (List.cons_ne_nil _ _)] at hRange ⊢
      have hSign : sign ([45] ++ int) = (true, int) := rfl
      rw [convert, strtoll, hSign]
      dsimp only
      rw [if_pos rfl, hDigits, if_neg (by omega), Option.bind_none]
  · rw [typeWith, if_neg hNone, convert]

end

theorem cons_number {minus int frac exp : Bytes} (h : NumberText minus int frac exp) :
    ∃ current u, minus ++ (int ++ (frac ++ exp)) = current :: u ∧
      (current = 45 ∨ isDigit current = true) := by
  rcases h.minus with rfl | rfl
  · obtain ⟨hDigits, hNe⟩ := digits_of_integral h.int
    obtain ⟨d, int, rfl⟩ := List.exists_cons_of_ne_nil hNe
    exact ⟨d, int ++ (frac ++ exp), rfl, Or.inr (digits_cons.mp hDigits).1⟩
  · exact ⟨45, int ++ (frac ++ exp), rfl, Or.inl rfl⟩

theorem scanNumber_text {minus int frac exp : Bytes} (h : NumberText minus int frac exp)
    {current : UInt8} {u : Bytes} (hText : current :: u = minus ++ (int ++ (frac ++ exp)))
    (hCurrent : current = 45 ∨ isDigit current = true) {rest : Bytes} (hRest : Stops rest) :
    scanNumber current (u ++ rest) =
      (convert (typeWith (integerType minus) (frac ++ exp)) (minus ++ (int ++ (frac ++ exp))), rest) := by
  have hExpects := (expects_start hCurrent).mpr ⟨minus, int, frac, exp, hText, h, rfl⟩
  rw [scanNumber, scanDigits_complete hExpects hRest, ← hText]
  rfl

/-- A number of the grammar is read. -/
theorem scanNumber_complete {t : Bytes} {j : Json} (h : Number t j) {rest : Bytes}
    (hRest : Stops rest) : ∃ current u, t = current :: u ∧ (current = 45 ∨ isDigit current = true) ∧
      ∃ token, scanNumber current (u ++ rest) = (token, rest) ∧ token.number = some j := by
  cases h with
  | @integer minus int n hText hn =>
    obtain ⟨current, u, hCons, hCurrent⟩ := cons_number hText
    have hScan := scanNumber_text hText hCons.symm hCurrent hRest
    rw [List.append_nil, List.append_nil] at hCons
    exact ⟨current, u, hCons, hCurrent, _, hScan, convert_integer hText rfl hn⟩
  | @double minus int frac exp hText hDouble hFinite =>
    obtain ⟨current, u, hCons, hCurrent⟩ := cons_number hText
    have hScan := scanNumber_text hText hCons.symm hCurrent hRest
    refine ⟨current, u, hCons, hCurrent, _, hScan, ?_⟩
    rw [convert_double hText hDouble, Token.number, if_pos hFinite]

theorem scanNumber_sound {current : UInt8} {rest rest' : Bytes} {token : Token} {j : Json}
    (hCurrent : current = 45 ∨ isDigit current = true) (h : scanNumber current rest = (token, rest'))
    (hNumber : token.number = some j) : ∃ t, Number t j ∧ current :: rest = t ++ rest' := by
  rw [scanNumber] at h
  split at h
  · cases h
    cases hNumber
  · rename_i type' tokenBuffer rest₁ hScan
    cases h
    obtain ⟨u, hExpects, rfl, rfl⟩ := scanDigits_sound hScan
    obtain ⟨minus, int, frac, exp, hSplit, hText, rfl⟩ := (expects_start hCurrent).mp hExpects
    rw [List.singleton_append, hSplit] at hNumber
    rw [← List.cons_append, hSplit]
    by_cases hDouble : frac ++ exp ≠ [] ∨ integerValue minus int < -2 ^ 63 ∨
        2 ^ 64 ≤ integerValue minus int
    · rw [convert_double hText hDouble, Token.number] at hNumber
      split at hNumber
      · rename_i hFinite
        cases hNumber
        exact ⟨_, .double hText hDouble hFinite, rfl⟩
      · cases hNumber
    · obtain ⟨hNone, hLower, hUpper⟩ : frac ++ exp = [] ∧ -2 ^ 63 ≤ integerValue minus int ∧
          integerValue minus int < 2 ^ 64 := by
        rw [not_or, not_not, not_or] at hDouble
        exact ⟨hDouble.1, by omega, by omega⟩
      have hInteger := convert_integer hText hNone (n := ⟨_, hLower, hUpper⟩) rfl
      rw [hInteger] at hNumber
      cases hNumber
      obtain ⟨rfl, rfl⟩ := List.append_eq_nil_iff.mp hNone
      rw [List.append_nil, List.append_nil]
      exact ⟨_, .integer hText rfl, rfl⟩

end OpcConfig.Lexer
