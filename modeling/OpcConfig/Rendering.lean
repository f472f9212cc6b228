import OpcConfig.BrowseWalks

/-! # What is shown of a variant and of an identifier

`PrintVariant` and `VariantToJson` look at the element type alone, which a
scalar shares with its arrays. Numbers are shown by the conversion of each
branch, of which one rereads an unsigned word as a signed one.
-/

namespace OpcConfig

set_option autoImplicit false

open CString

/-! ## Shapes -/

def Variant.isScalarOf (types : UaType → Bool) : Variant → Bool
  | .scalar v => types v.type
  | _ => false

/-- No element is read that is not there, and only a scalar of a type that the
function has a branch for leaves a trace. -/
structure Variant.ShownAsIs (variant : Variant) : Prop where
  printReads : printVariant variant ≠ none
  jsonReads : ∀ block target, variantToJson block target variant ≠ .error .noElement
  printed : variant.isScalarOf UaType.printed = false → printVariant variant = some []
  reported : variant.isScalarOf UaType.reported = false →
    ∀ block target, variantToJson block target variant = .ok target

theorem UaType.printed_of_reported {type : UaType} (h : type.reported = true) :
    type.printed = true := by
  cases type with
  | boolean | int32 | double | string => rfl
  | sbyte | byte | int16 | uint16 | uint32 | int64 | uint64 | other => cases h

theorem printVariant_of_not_printed {variant : Variant}
    (h : ∀ type, variant.type = some type → type.printed = false) :
    printVariant variant = some [] := (printVariant_eq_nil_iff variant).mpr (Or.inl h)

theorem shownAsIs_scalar (v : Scalar) : (Variant.scalar v).ShownAsIs where
  printReads := by
    rw [printVariant]
    change (if v.type.printed = true then some v.print else some []) ≠ none
    split <;> exact Option.some_ne_none _
  jsonReads block target := by
    cases hType : v.type.reported with
    | false =>
      have hNot : ∀ type, (Variant.scalar v).type = some type → type.reported = false :=
        fun type h => Option.some.inj h ▸ hType
      rw [variantToJson_of_not_reported hNot]
      exact fun hError => by cases hError
    | true =>
      obtain ⟨element, hElement⟩ := Scalar.toJson_reported hType block
      have hFirst : (Variant.scalar v).first = some v := rfl
      rw [variantToJson_of_first hFirst hType hElement]
      cases target.assign (ascii "value") element <;> simp [Except.mapError]
  printed hNot := printVariant_of_not_printed fun type hType => Option.some.inj hType ▸ hNot
  reported hNot := variantToJson_of_not_reported fun type hType => Option.some.inj hType ▸ hNot

theorem shownAsIs_of_not_printed {variant : Variant}
    (h : ∀ type, variant.type = some type → type.printed = false) : variant.ShownAsIs := by
  have hReported : ∀ type, variant.type = some type → type.reported = false := by
    intro type hType
    rw [Bool.eq_false_iff]
    intro hTrue
    exact absurd (UaType.printed_of_reported hTrue) (by simp [h type hType])
  refine ⟨?_, ?_, fun _ => printVariant_of_not_printed h,
    fun _ => variantToJson_of_not_reported hReported⟩
  · rw [printVariant_of_not_printed h]
    exact Option.some_ne_none _
  · intro block target
    rw [variantToJson_of_not_reported hReported]
    exact fun hError => by cases hError

theorem not_shownAsIs_array {a : TypedArray} (hType : a.type.printed = true) :
    ¬ (Variant.array a).ShownAsIs := by
  intro h
  have hPrint : a.elements.head?.map Scalar.print = some [] := by
    have hPrinted := h.printed rfl
    rw [printVariant] at hPrinted
    change (if a.type.printed = true then a.elements.head?.map Scalar.print else some []) = _ at hPrinted
    rwa [if_pos hType] at hPrinted
  obtain ⟨v, hFirst, hNil⟩ := Option.map_eq_some_iff.mp hPrint
  rcases v.print_eq_nil_iff.mp hNil with ⟨typeId, content, rfl⟩ | ⟨s, rfl, _⟩
  · rw [← a.typed _ (List.mem_of_mem_head? hFirst)] at hType
    cases hType
  · -- a string of which nothing is seen still gets into the JSON value
    have hReported := h.reported rfl [] .null
    have hSame : (Variant.array a).first = some (.string s) := hFirst
    rw [variantToJson_of_first hSame rfl rfl] at hReported
    cases hReported

/-- A variant is shown as what it is unless it is an array of a printed type. -/
theorem shown_iff (variant : Variant) :
    variant.ShownAsIs ↔ ∀ a, variant = .array a → a.type.printed = false := by
  cases variant with
  | empty =>
    refine iff_of_true (shownAsIs_of_not_printed fun type hType => ?_) (fun a ha => ?_)
    · cases hType
    · cases ha
  | scalar v =>
    refine iff_of_true (shownAsIs_scalar v) (fun a ha => ?_)
    cases ha
  | array a =>
    constructor
    · intro h b hb
      cases hb
      rw [Bool.eq_false_iff]
      exact fun hType => not_shownAsIs_array hType h
    · intro h
      exact shownAsIs_of_not_printed fun type hType => Option.some.inj hType ▸ h a rfl

/-- An array of two integers is printed as its first, and one without elements
makes the function read what is not there. -/
theorem shown_fails :
    ¬ (Variant.array ⟨.int32, [.int32 5, .int32 6], by decide⟩).ShownAsIs ∧
    ¬ (Variant.array ⟨.int32, [], by decide⟩).ShownAsIs := by
  constructor
  · intro h
    exact absurd (h.printed rfl) (by decide)
  · intro h
    exact h.printReads rfl

/-! ## Numbers -/

def Scalar.integer : Scalar → Option Int
  | .sbyte v => some v.toInt
  | .byte v => some v.toNat
  | .int16 v => some v.toInt
  | .uint16 v => some v.toNat
  | .int32 v => some v.toInt
  | .uint32 v => some v.toNat
  | .int64 v => some v.toInt
  | .uint64 v => some v.toNat
  | _ => none

theorem d_unsigned_iff (n : UInt32) :
    Printf.d n.toBitVec = Printf.decimal n.toNat ↔ n.toNat < 2 ^ 31 := by
  have hInt : n.toBitVec.toInt = (n.toNat : Int) ↔ n.toNat < 2 ^ 31 := by
    rw [BitVec.toInt_eq_toNat_cond]
    have hLt := n.toNat_lt
    change (if 2 * n.toNat < 2 ^ 32 then (n.toNat : Int) else (n.toNat : Int) - (2 ^ 32 : Nat)) = _ ↔ _
    split <;> omega
  rw [Printf.d, ← hInt]
  constructor
  · exact Printf.decimal_inj
  · intro h
    rw [h]

theorem referenceColumns_numeric (width : Nat) {ref : ReferenceDescription} {n : UInt32}
    (h : ref.nodeId.identifier = .numeric n) :
    referenceColumns width ref = some (columnsWith width (Printf.d n.toBitVec) ref) := by
  rw [referenceColumns, h]
  rfl

theorem columnsWith_iff (width : Nat) (ref : ReferenceDescription) (n : UInt32) :
    columnsWith width (Printf.d n.toBitVec) ref = columnsWith width (Printf.decimal n.toNat) ref ↔
      n.toNat < 2 ^ 31 := by
  rw [← d_unsigned_iff]
  constructor
  · intro h
    simp only [columnsWith, List.append_cancel_left_eq, List.append_cancel_right_eq] at h
    exact Printf.left_inj (Printf.blank_not_mem_decimal _) (Printf.blank_not_mem_decimal _) h
  · intro h
    rw [h]

theorem print_of_ne_uint32 {v : Scalar} {z : Int} (h : v.integer = some z)
    (hNe : ∀ n, v ≠ .uint32 n) : v.print = Printf.decimal z := by
  cases v with
  | uint32 n => exact absurd rfl (hNe n)
  | sbyte n | int16 n =>
    cases h
    rw [Scalar.print, Printf.d, BitVec.toInt_signExtend_of_le (by decide)]
    rfl
  | byte n | uint16 n =>
    cases h
    rw [Scalar.print, Printf.d, Printf.promoted_toInt (by decide)]
    rfl
  | int32 n | int64 n | uint64 n =>
    cases h
    rfl
  | boolean | double | string | other => cases h

theorem print_integer_iff {v : Scalar} {z : Int} (h : v.integer = some z) :
    v.print = Printf.decimal z ↔ ∀ n, v = .uint32 n → n.toNat < 2 ^ 31 := by
  cases v with
  | uint32 n =>
    cases h
    rw [Scalar.print, d_unsigned_iff]
    simp
  | _ =>
    refine iff_of_true (print_of_ne_uint32 h fun n hEq => ?_) (fun n hEq => ?_)
    · cases hEq
    · cases hEq

/-- The text of an integer is its numeral unless it is an unsigned 32-bit one
from 2 ^ 31 on, and so for the numeric identifiers in both listings. -/
theorem numerals_iff (v : Scalar) (z : Int) (hInteger : v.integer = some z) (row : Row) (n : UInt32)
    (hIdentifier : row.ref.nodeId.identifier = .numeric n) (value : Bytes)
    (hValue : printVariant row.value = some value) :
    (printVariant (.scalar v) = some (Printf.decimal z) ↔
      ∀ m, v = .uint32 m → m.toNat < 2 ^ 31) ∧
    ((Line.object row.ref).text = some (columnsWith 16 (Printf.decimal n.toNat) row.ref ++ [10]) ↔
      n.toNat < 2 ^ 31) ∧
    (row.text = some (List.replicate row.dashes 45 ++ columnsWith 25 (Printf.decimal n.toNat) row.ref ++
        value ++ [10]) ↔
      n.toNat < 2 ^ 31) := by
  refine ⟨?_, ?_, ?_⟩
  · have hPrinted : v.type.printed = true := by
      cases v with
      | boolean | double | string | other => cases hInteger
      | _ => rfl
    have hText : printVariant (.scalar v) = some v.print := by
      rw [printVariant]
      exact if_pos hPrinted
    rw [hText, Option.some.injEq, print_integer_iff hInteger]
  · have hText : (Line.object row.ref).text =
        some (columnsWith 16 (Printf.d n.toBitVec) row.ref ++ [10]) := by
      rw [Line.text, referenceColumns_numeric 16 hIdentifier]
      rfl
    rw [hText, Option.some.injEq, List.append_cancel_right_eq, columnsWith_iff]
  · have hText : row.text = some (List.replicate row.dashes 45 ++
        columnsWith 25 (Printf.d n.toBitVec) row.ref ++ value ++ [10]) := by
      rw [Row.text, referenceColumns_numeric 25 hIdentifier, hValue]
      rfl
    rw [hText, Option.some.injEq, List.append_cancel_right_eq, List.append_cancel_right_eq,
      List.append_cancel_left_eq, columnsWith_iff]

def rowFive : Row :=
  ⟨1, ⟨⟨1, .numeric 5⟩, .variable, ⟨1, ascii "a"⟩, ascii "a"⟩, .scalar (.uint32 5)⟩

theorem numerals_iff_five :
    (printVariant (.scalar (.uint32 5)) = some (Printf.decimal 5) ↔
      ∀ m, Scalar.uint32 5 = .uint32 m → m.toNat < 2 ^ 31) ∧
    ((Line.object rowFive.ref).text =
        some (columnsWith 16 (Printf.decimal (5 : UInt32).toNat) rowFive.ref ++ [10]) ↔
      (5 : UInt32).toNat < 2 ^ 31) ∧
    (rowFive.text = some (List.replicate rowFive.dashes 45 ++
        columnsWith 25 (Printf.decimal (5 : UInt32).toNat) rowFive.ref ++ ascii "5" ++ [10]) ↔
      (5 : UInt32).toNat < 2 ^ 31) :=
  numerals_iff (.uint32 5) 5 rfl rowFive 5 rfl (ascii "5") (by decide)

/-- The greatest unsigned word is printed as -1, as a value and as an identifier. -/
theorem numerals_fails :
    (Scalar.uint32 4294967295).integer = some 4294967295 ∧
    printVariant (.scalar (.uint32 4294967295)) ≠ some (Printf.decimal 4294967295) ∧
    identifierColumn 16 (.numeric 4294967295) ≠
      some (Printf.left 16 (Printf.decimal 4294967295)) := by
  decide

end OpcConfig
