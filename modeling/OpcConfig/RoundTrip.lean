import OpcConfig.Holds

/-! # Between JSON values and variants

`WriteVariant` and `VariantToJson` of `new_client.hpp` are written apart from
each other. From JSON and back a value is kept if the conversion cuts nothing
off it; from a variant and back, also the copy has to end where the string does,
and the local variable of `WriteVariant` to keep what was put into it.
-/

namespace OpcConfig

set_option autoImplicit false

open CString

/-- The values on which `operator[]` with a key does not throw. -/
def Json.TakesFields : Json → Prop
  | .null | .object _ => True
  | _ => False

theorem Json.assign_index {value : Json} (h : value.TakesFields) (key : Bytes) (element : Json) :
    ∃ out, value.assign key element = .ok out ∧ out.index key = .ok element := by
  cases value with
  | null => exact ⟨_, rfl, by simp [Json.index, Json.field]⟩
  | object fields =>
    refine ⟨_, rfl, ?_⟩
    rw [Json.index, Json.field_insertField, if_pos rfl]
    rfl
  | boolean | integer | double | string | array => cases h

theorem variantToJson_scalar {target : Json} (hTarget : target.TakesFields) {block : Bytes}
    {v : Scalar} (hType : v.type.reported = true) {element : Json}
    (hElement : v.toJson block = some element) :
    ∃ out, variantToJson block target (.scalar v) = .ok out ∧
      out.index (ascii "value") = .ok element := by
  obtain ⟨out, hAssign, hIndex⟩ := Json.assign_index hTarget (ascii "value") element
  refine ⟨out, ?_, hIndex⟩
  rw [variantToJson_of_first rfl hType hElement, hAssign]
  rfl

/-! ## From JSON and back -/

/-- Strings without NUL are copied into the block with a NUL behind them. -/
def FaithfulBlock (block : Bytes) : Prop :=
  ∀ s : Bytes, (0 : UInt8) ∉ s → cstr (uastrToCharArr block s) = s

theorem faithfulBlock_zeros : FaithfulBlock [] := by
  intro s hs
  rw [uastrToCharArr, cstr_memccpy_zeros, cstr_eq_self hs]

theorem written_toJson {slot : Slot} (hKeeps : slot.Keeps) {value : Json} (h : value.Supported)
    {block : Bytes} (hBlock : FaithfulBlock block) : ∃ v element,
      written slot value .empty = .scalar v ∧ v.type.reported = true ∧ v.toJson block = some element ∧
        (element = value ↔ value.Exact) := by
  have hWritten (v : Scalar) : Variant.scalar (slot.content v) = .scalar v :=
    congrArg Variant.scalar (hKeeps v)
  cases value with
  | integer n =>
    refine ⟨_, _, hWritten _, rfl, rfl, ?_⟩
    rw [Json.integer.injEq, JsonInteger.mk.injEq, Json.Exact, ← ofInt_toInt_eq_iff]
  | double d => exact ⟨_, _, hWritten _, rfl, rfl, iff_of_true rfl trivial⟩
  | boolean b => exact ⟨_, _, hWritten _, rfl, rfl, iff_of_true rfl trivial⟩
  | string s =>
    refine ⟨_, _, hWritten _, rfl, rfl, ?_⟩
    rw [hBlock _ (zero_not_mem_cstr s), Json.string.injEq, Json.Exact, cstr_eq_self_iff]
  | null | array | object => cases h

/-- A value written into an empty variant leaves it empty or is the value that
`VariantToJson` sets. -/
def Json.KeptBy (value : Json) (fields : List (Bytes × Json)) (slot : Slot) (block : Bytes)
    (target : Json) : Prop :=
  ∃ variant, createVariant slot (.object fields) .empty = .ok variant ∧ (variant = .empty ∨
    ∃ out, variantToJson block target variant = .ok out ∧ out.index (ascii "value") = .ok value)

/-- Through a variant that keeps its scalar an integer, double, boolean or string is
kept exactly when it is within Int32 and has no NUL. -/
theorem kept_iff (fields : List (Bytes × Json)) (value : Json)
    (hValue : Json.field fields (ascii "value") = some value) (hSupported : value.Supported)
    (slot : Slot) (hKeeps : slot.Keeps) (block : Bytes) (hBlock : FaithfulBlock block) (target : Json)
    (hTarget : target.TakesFields) : value.KeptBy fields slot block target ↔ value.Exact := by
  have hIndex : (Json.object fields).index (ascii "value") = .ok value := by
    rw [Json.index, hValue]
    rfl
  obtain ⟨v, element, hWritten, hType, hElement, hExact⟩ := written_toJson hKeeps hSupported hBlock
  obtain ⟨out, hOut, hOutIndex⟩ := variantToJson_scalar hTarget hType hElement
  rw [Json.KeptBy, createVariant_eq hIndex, hWritten, ← hExact]
  constructor
  · rintro ⟨variant, hVariant, hKept⟩
    rw [← Except.ok.inj hVariant, hOut] at hKept
    rcases hKept with hEmpty | ⟨out', hOut', hIndex'⟩
    · cases hEmpty
    · rw [← Except.ok.inj hOut', hOutIndex] at hIndex'
      exact Except.ok.inj hIndex'
  · intro hEq
    exact ⟨_, rfl, Or.inr ⟨out, hOut, hEq ▸ hOutIndex⟩⟩

theorem kept_iff_five :
    (Json.integer (.ofByte 5)).KeptBy [(ascii "value", .integer (.ofByte 5))] .kept [] .null ↔
      (Json.integer (.ofByte 5)).Exact :=
  kept_iff _ (.integer (.ofByte 5)) rfl rfl .kept Slot.kept_keeps [] faithfulBlock_zeros .null trivial

/-- The first integer beyond Int32 comes back as the least one within it. -/
theorem kept_fails : Slot.kept.Keeps ∧ FaithfulBlock [] ∧ Json.null.TakesFields ∧
    ¬ (Json.integer ⟨2147483648, by decide, by decide⟩).KeptBy
      [(ascii "value", .integer ⟨2147483648, by decide, by decide⟩)] .kept [] .null := by
  refine ⟨Slot.kept_keeps, faithfulBlock_zeros, trivial, ?_⟩
  rintro ⟨variant, hVariant, hKept⟩
  cases hVariant
  rcases hKept with hEmpty | ⟨out, hOut, hIndex⟩
  · cases hEmpty
  · cases hOut
    have hInteger := Json.integer.inj (Except.ok.inj hIndex)
    exact absurd (congrArg JsonInteger.val hInteger) (by decide)

/-! ## From a variant and back -/

/-- A string has no NUL inside, and the block has one behind the copy of it. -/
def Scalar.CopiedBy (block : Bytes) : Scalar → Prop
  | .string s => (0 : UInt8) ∉ s ∧ block.getD s.length 0 = 0
  | _ => True

theorem copied_string_iff (block s : Bytes) :
    cstr (cstr (uastrToCharArr block s)) = s ↔ (Scalar.string s).CopiedBy block := by
  have hBehind : cstr (block.drop s.length) = [] ↔ block.getD s.length 0 = 0 := by
    rw [cstr_eq_nil_iff, List.head?_drop, List.getD_eq_getElem?_getD]
    cases block[s.length]? with
    | none => simp
    | some byte => simp
  rw [cstr_eq_self (zero_not_mem_cstr _), uastrToCharArr, cstr_memccpy, Scalar.CopiedBy, ← hBehind]
  split
  · rename_i hMem
    rw [cstr_eq_self_iff]
    exact ⟨fun hNot => absurd hMem hNot, fun hBoth => hBoth.1⟩
  · rename_i hMem
    rw [List.append_right_eq_self]
    exact ⟨fun hNil => ⟨hMem, hNil⟩, fun hBoth => hBoth.2⟩

/-- What `WriteVariant` puts into its local variable after `VariantToJson`. -/
def Scalar.reread (block : Bytes) : Scalar → Scalar
  | .string s => .string (cstr (cstr (uastrToCharArr block s)))
  | v => v

theorem Scalar.reread_eq_self_iff (block : Bytes) (v : Scalar) :
    v.reread block = v ↔ v.CopiedBy block := by
  cases v with
  | string s => rw [← copied_string_iff, reread, Scalar.string.injEq]
  | double | int32 | boolean | sbyte | byte | int16 | uint16 | uint32 | int64 | uint64 | other =>
    exact iff_of_true rfl trivial

theorem written_reread {v : Scalar} {block : Bytes} {element : Json}
    (hElement : v.toJson block = some element) (slot : Slot) (old : Variant) :
    written slot element old = .scalar (slot.content (v.reread block)) := by
  cases v with
  | double | boolean | string =>
    cases hElement
    rfl
  | int32 n =>
    cases hElement
    simp [written, Json.scalar, Scalar.reread]
  | sbyte | byte | int16 | uint16 | uint32 | int64 | uint64 | other => cases hElement

/-- A scalar of a reported type comes back as it was exactly when the place of the
local variable that it is read into holds it afterwards. One that is kept does
exactly when the copy of a string ends where the string does. -/
theorem returned_iff (slot : Slot) (block : Bytes) (target : Json) (hTarget : target.TakesFields)
    (v : Scalar) (hType : v.type.reported = true) (old : Variant) :
    ((∃ out, variantToJson block target (.scalar v) = .ok out ∧
        createVariant slot out old = .ok (.scalar v)) ↔ slot.content (v.reread block) = v) ∧
    (slot.Keeps → (slot.content (v.reread block) = v ↔ v.CopiedBy block)) := by
  refine ⟨?_, fun hKeeps => by rw [hKeeps, Scalar.reread_eq_self_iff]⟩
  obtain ⟨element, hElement⟩ := Scalar.toJson_reported hType block
  obtain ⟨out, hOut, hIndex⟩ := variantToJson_scalar hTarget hType hElement
  constructor
  · rintro ⟨out', hOut', hCreate⟩
    rw [hOut] at hOut'
    cases hOut'
    rw [createVariant_eq hIndex, written_reread hElement] at hCreate
    exact Variant.scalar.inj (Except.ok.inj hCreate)
  · intro hContent
    exact ⟨out, hOut, by rw [createVariant_eq hIndex, written_reread hElement, hContent]⟩

theorem returned_iff_five :
    ((∃ out, variantToJson [] .null (.scalar (.int32 5)) = .ok out ∧
        createVariant .kept out .empty = .ok (.scalar (.int32 5))) ↔
      Slot.kept.content ((Scalar.int32 5).reread []) = .int32 5) ∧
    (Slot.kept.Keeps →
      (Slot.kept.content ((Scalar.int32 5).reread []) = .int32 5 ↔ (Scalar.int32 5).CopiedBy [])) :=
  returned_iff .kept [] .null trivial (.int32 5) rfl .empty

/-- The string `v` copied over what is left of `xar` comes back as `var`, and the
number 5 as what the place of the local variable is used for next. -/
theorem returned_fails :
    (¬ ∃ out, variantToJson (ascii "xar") .null (.scalar (.string (ascii "v"))) = .ok out ∧
      createVariant .kept out .empty = .ok (.scalar (.string (ascii "v")))) ∧
    ¬ ∃ out, variantToJson [] .null (.scalar (.int32 5)) = .ok out ∧
      createVariant .overwritten out .empty = .ok (.scalar (.int32 5)) := by
  constructor
  · rintro ⟨out, hOut, hCreate⟩
    cases hOut
    have hVariant := Variant.scalar.inj (Except.ok.inj hCreate)
    exact absurd hVariant (by decide)
  · rintro ⟨out, hOut, hCreate⟩
    cases hOut
    have hVariant := Variant.scalar.inj (Except.ok.inj hCreate)
    exact absurd hVariant (by decide)

end OpcConfig
