import OpcConfig.CounterClient

/-! # What a turn of the counting loop does, for any server

The array is built by position: before a turn it has as many elements as
`count` says, so the turn appends one and completes it, or leaves it alone.
-/

namespace OpcConfig.CounterClient

set_option autoImplicit false

open CString Loop Nlohmann

/-! ## The array -/

/-- What null becomes when the elements are set one after the other. -/
def gathered : List Json → Json
  | [] => .null
  | element :: rest => .array (element :: rest)

def valueField (value : Variant) : List (Bytes × Json) :=
  match value.first with
  | some (.int32 n) => [(ascii "value", .ofInt32 n)]
  | some (.double d) => [(ascii "value", .double d)]
  | _ => []

def element (name : Bytes) (value : Variant) : Json :=
  .object ((ascii "name", .string name) :: valueField value)

@[simp] theorem elements_gathered (l : List Json) : elements (gathered l) = some l := by
  cases l <;> rfl

theorem gathered_append (l : List Json) (last : Json) :
    gathered (l ++ [last]) = .array (l ++ [last]) := by
  cases l <;> rfl

theorem setAt_next (l : List Json) (key : Bytes) (e : Json) :
    setAt (gathered l) l.length key e = .ok (gathered (l ++ [.object [(key, e)]])) := by
  have hFilled : l ++ List.replicate (l.length + 1 - l.length) .null = l ++ [.null] := by
    rw [Nat.add_sub_cancel_left]
    rfl
  rw [setAt, elements_gathered, gathered_append]
  dsimp only
  rw [hFilled]
  simp [Json.assign]

theorem setAt_last (l : List Json) (fields : List (Bytes × Json)) (key : Bytes) (e : Json) :
    setAt (gathered (l ++ [.object fields])) l.length key e =
      .ok (gathered (l ++ [.object (Json.insertField key e fields)])) := by
  rw [setAt, elements_gathered, gathered_append]
  simp [Json.assign]

/-! ## One reference -/

theorem first_of_type {value : Variant} {type : UaType} (h : value.type = some type) :
    value.first = none ∨ ∃ v, value.first = some v ∧ v.type = type := by
  cases hFirst : value.first with
  | none => exact Or.inl rfl
  | some v =>
    rw [Variant.first_type hFirst] at h
    exact Or.inr ⟨v, rfl, Option.some.inj h⟩

theorem first_of_int32 {value : Variant} (h : value.type = some .int32) :
    value.first = none ∨ ∃ n, value.first = some (.int32 n) := by
  apply (first_of_type h).imp_right
  rintro ⟨v, hFirst, hType⟩
  cases v with
  | int32 n => exact ⟨n, hFirst⟩
  | _ => cases hType

theorem first_of_double {value : Variant} (h : value.type = some .double) :
    value.first = none ∨ ∃ d, value.first = some (.double d) := by
  apply (first_of_type h).imp_right
  rintro ⟨v, hFirst, hType⟩
  cases v with
  | double d => exact ⟨d, hFirst⟩
  | _ => cases hType

theorem valueField_of_other {value : Variant} (hInt : value.type ≠ some .int32)
    (hDouble : value.type ≠ some .double) : valueField value = [] := by
  rw [valueField]
  cases hFirst : value.first with
  | none => rfl
  | some v =>
    have hType := Variant.first_type hFirst
    cases v with
    | int32 n => exact absurd hType hInt
    | double d => exact absurd hType hDouble
    | _ => rfl

section

variable {σ : Type} (srv : Server σ) (mem : CounterSite → Bytes) (site : CounterSite)
  (ref : ReferenceDescription) (l : List Json) (x : Gathering σ)

def nameRead : Bytes := cstr (uastrToCharArr (mem site) ref.displayName)

def laid (fields : List (Bytes × Json)) (x : Gathering σ) : Gathering σ :=
  { x with dataValue := gathered (l ++ [.object fields]) }

theorem setField_next {x : Gathering σ} (hData : x.dataValue = gathered l) (hCount : x.count = l.length)
    (key : String) (e : Json) : setField key e x = .ok (laid l [(ascii key, e)] x) := by
  have hNext : setAt x.dataValue x.count (ascii key) e =
      .ok (gathered (l ++ [.object [(ascii key, e)]])) := by
    rw [hData, hCount, setAt_next]
  rw [setField, hNext]
  rfl

theorem setField_laid {x : Gathering σ} (hCount : x.count = l.length) (fields : List (Bytes × Json))
    (key : String) (e : Json) :
    setField key e (laid l fields x) = .ok (laid l (Json.insertField (ascii key) e fields) x) := by
  have hLast : setAt (laid l fields x).dataValue (laid l fields x).count (ascii key) e =
      .ok (gathered (l ++ [.object (Json.insertField (ascii key) e fields)])) := by
    rw [laid, hCount, setAt_last]
  rw [setField, hLast]
  rfl

theorem insertField_value (name : Bytes) (e : Json) :
    Json.insertField (ascii "value") e [(ascii "name", .string name)] =
      [(ascii "name", .string name), (ascii "value", e)] := by
  have hKeys : ascii "name" ≠ ascii "value" := by decide
  rw [Json.insertField, if_neg hKeys]
  rfl

/-- The state with one more element in the array. -/
def gather (value : Variant) : Gathering σ :=
  let x := laid l ((ascii "name", .string (nameRead mem site ref)) :: valueField value)
    (readStep srv ref x).2
  { x with count := x.count + 1 }

def increment (n : Int32) (x : Gathering σ) : Gathering σ :=
  let status := srv.write ref.nodeId (.scalar (.int32 (n + 1))) x.server
  { x with server := status.2, retval := status.1 }

/-- The outcomes of a turn that finds the elements `l` in the array. -/
inductive Turn : Except (CounterFault × Gathering σ) (Gathering σ) → Prop
  | skipped (hClass : ref.nodeClass ≠ .variable) : Turn (.ok x)
  | unread (hClass : ref.nodeClass = .variable) (hValue : (readStep srv ref x).1.value = none) :
      Turn (.ok (readStep srv ref x).2)
  | counted (hClass : ref.nodeClass = .variable) {value : Variant} {n : Int32}
      (hValue : (readStep srv ref x).1.value = some value)
      (hFirst : value.first = some (.int32 n)) (hRoom : n ≠ Int32.maxValue) :
      Turn (.ok (increment srv ref n (gather srv mem site ref l x value)))
  | copied (hClass : ref.nodeClass = .variable) {value : Variant}
      (hValue : (readStep srv ref x).1.value = some value) (hType : value.type ≠ some .int32)
      (hDouble : value.type = some .double → value.first ≠ none) :
      Turn (.ok (gather srv mem site ref l x value))
  | overflow (hClass : ref.nodeClass = .variable) {value : Variant} {x' : Gathering σ}
      (hValue : (readStep srv ref x).1.value = some value)
      (hFirst : value.first = some (.int32 Int32.maxValue)) : Turn (.error (.overflow, x'))
  | missing (hClass : ref.nodeClass = .variable) {value : Variant} {x' : Gathering σ}
      (hValue : (readStep srv ref x).1.value = some value)
      (hType : value.type = some .int32 ∨ value.type = some .double) (hFirst : value.first = none) :
      Turn (.error (.noElement, x'))

theorem int32Step_of_ne {value : Variant} (h : value.type ≠ some .int32) :
    int32Step srv ref.nodeId value x = .ok x := if_neg h

theorem int32Step_laid {x : Gathering σ} (hCount : x.count = l.length) {value : Variant} {n : Int32}
    (hFirst : value.first = some (.int32 n)) (name : Bytes) :
    int32Step srv ref.nodeId value (laid l [(ascii "name", .string name)] x) =
      let x' := laid l ((ascii "name", .string name) :: valueField value) x
      if n = Int32.maxValue then .error (.overflow, x') else .ok (increment srv ref n x') := by
  have hType : value.type = some .int32 := Variant.first_type hFirst
  rw [int32Step, if_pos hType, valueField, hFirst]
  dsimp only
  rw [setField_laid l hCount, insertField_value]
  rfl

theorem doubleStep_of_ne {value : Variant} (h : value.type ≠ some .double) :
    doubleStep value x = .ok x := if_neg h

theorem doubleStep_laid {x : Gathering σ} (hCount : x.count = l.length) {value : Variant} {d : Binary64}
    (hFirst : value.first = some (.double d)) (name : Bytes) :
    doubleStep value (laid l [(ascii "name", .string name)] x) =
      .ok (laid l ((ascii "name", .string name) :: valueField value) x) := by
  have hType : value.type = some .double := Variant.first_type hFirst
  rw [doubleStep, if_pos hType, valueField, hFirst]
  dsimp only
  rw [setField_laid l hCount, insertField_value]

/-- What the two tests on the type of a value find. -/
theorem value_cases (value : Variant) : (∃ n, value.first = some (.int32 n)) ∨
    (∃ d, value.first = some (.double d)) ∨
    (value.first = none ∧ (value.type = some .int32 ∨ value.type = some .double)) ∨
    (value.type ≠ some .int32 ∧ value.type ≠ some .double) := by
  rcases Classical.em (value.type = some .int32) with hInt | hInt
  · rcases first_of_int32 hInt with hNone | hFirst
    · exact Or.inr (Or.inr (Or.inl ⟨hNone, Or.inl hInt⟩))
    · exact Or.inl hFirst
  · rcases Classical.em (value.type = some .double) with hDouble | hDouble
    · rcases first_of_double hDouble with hNone | hFirst
      · exact Or.inr (Or.inr (Or.inl ⟨hNone, Or.inr hDouble⟩))
      · exact Or.inr (Or.inl hFirst)
    · exact Or.inr (Or.inr (Or.inr ⟨hInt, hDouble⟩))

/-- The element is named first; its value, if it gets one, comes with the
branch of the value's type. -/
theorem referenceStep_turn (hData : x.dataValue = gathered l) (hCount : x.count = l.length) :
    Turn srv mem site ref l x (referenceStep srv mem site ref x) := by
  rw [referenceStep]
  rcases Classical.em (ref.nodeClass = .variable) with hClass | hClass
  · rw [if_neg (not_not.mpr hClass)]
    dsimp only
    cases hValue : (readStep srv ref x).1.value with
    | none => exact .unread hClass hValue
    | some value =>
      have hCount' : (readStep srv ref x).2.count = l.length := hCount
      dsimp only
      rw [← nameRead, setField_next l (x := (readStep srv ref x).2) hData hCount']
      dsimp only [bind, Except.bind]
      rcases value_cases value with ⟨n, hFirst⟩ | ⟨d, hFirst⟩ | ⟨hNone, hType⟩ | ⟨hInt, hDouble⟩
      · have hDouble : value.type ≠ some .double := by
          rw [Variant.first_type hFirst]
          exact fun h => by cases h
        rw [int32Step_laid srv ref l hCount' hFirst]
        dsimp only
        rcases Classical.em (n = Int32.maxValue) with hMax | hMax
        · rw [if_pos hMax]
          exact .overflow hClass hValue (hMax ▸ hFirst)
        · rw [if_neg hMax]
          dsimp only
          rw [doubleStep_of_ne _ hDouble]
          exact .counted hClass hValue hFirst hMax
      · have hInt : value.type ≠ some .int32 := by
          rw [Variant.first_type hFirst]
          exact fun h => by cases h
        rw [int32Step_of_ne srv ref _ hInt]
        dsimp only
        rw [doubleStep_laid l hCount' hFirst]
        exact .copied hClass hValue hInt (fun _ => hFirst ▸ Option.some_ne_none _)
      · rcases hType with hInt | hDouble
        · rw [int32Step, if_pos hInt, hNone]
          exact .missing hClass hValue (Or.inl hInt) hNone
        · have hInt : value.type ≠ some .int32 := by
            rw [hDouble]
            exact fun h => by cases h
          rw [int32Step_of_ne srv ref _ hInt]
          dsimp only
          rw [doubleStep, if_pos hDouble, hNone]
          exact .missing hClass hValue (Or.inr hDouble) hNone
      · rw [int32Step_of_ne srv ref _ hInt]
        dsimp only
        rw [doubleStep_of_ne _ hDouble]
        have hTurn : Turn srv mem site ref l x (.ok (gather srv mem site ref l x value)) :=
          .copied hClass hValue hInt (fun h => absurd h hDouble)
        rw [gather, valueField_of_other hInt hDouble] at hTurn
        exact hTurn
  · rw [if_pos hClass]
    exact .skipped hClass

end

end OpcConfig.CounterClient
