import OpcConfig.Library.Printf
import OpcConfig.OpenUa

/-! # The helpers on variants and strings

`GetJsonType`, `UastrToCharArr` and the conversion of a JSON entry into a
variant have the same text in `old/client.hpp` and in `new_client.hpp`, where
the last one is called `WriteVariant`. A block fresh from `UA_malloc` is passed
in with whatever bytes it and its neighbours have. The variant that
`CreateVariant` leaves points at a local variable of one of its branches, so
what it is found to hold later is passed in, too.
-/

namespace OpcConfig

set_option autoImplicit false

open CString

inductive DataType
  | int32 | bool | double | string | nonetype
  deriving DecidableEq

def getJsonType (value : Json) : Except JsonException DataType := do
  let element ← value.index (ascii "value")
  if element.isDouble then return .double
  else if element.isBoolean then return .bool
  else if element.isInteger then return .int32
  else if element.isString then return .string
  else return .nonetype

/-- What the place of a local variable holds when a variant that points at it is
read, for the scalar that the variable had. The variant reads it as that type. -/
structure Slot where
  content : Scalar → Scalar
  type_content : ∀ v, (content v).type = v.type

namespace Slot

def kept : Slot := ⟨fun v => v, fun _ => rfl⟩

def Keeps (slot : Slot) : Prop := ∀ v, slot.content v = v

theorem kept_keeps : kept.Keeps := fun _ => rfl

/-- The place of an Int32 is used for another number after the call. -/
def overwritten : Slot where
  content v := match v with
    | .int32 _ => .int32 0
    | v => v
  type_content v := by cases v <;> rfl

end Slot

/-- The variant as it is found after the call: `UA_Variant_setScalar` takes the
address of the local variable, which ends with its branch. -/
def createVariant (slot : Slot) (value : Json) (variant : Variant) :
    Except JsonException Variant := do
  match ← getJsonType value with
  | .int32 =>
    let intval ← (← value.index (ascii "value")).asInteger
    return .scalar (slot.content (.int32 intval))
  | .double =>
    let doubleval ← (← value.index (ascii "value")).asDouble
    return .scalar (slot.content (.double doubleval))
  | .string =>
    let strval ← (← value.index (ascii "value")).asString
    return .scalar (slot.content (.string (cstr strval)))
  | .bool =>
    let boolval ← (← value.index (ascii "value")).asBool
    return .scalar (slot.content (.boolean boolval))
  | .nonetype => return variant

def uastrToCharArr (block uastr : Bytes) : Bytes := memccpy block uastr 0 uastr.length

inductive Fault
  | json (e : JsonException)
  | noElement
  deriving DecidableEq

def Scalar.toJson (block : Bytes) : Scalar → Option Json
  | .double d => some (.double d)
  | .int32 v => some (.integer ⟨v.toInt, by have := v.le_toInt; omega, by have := v.toInt_lt; omega⟩)
  | .boolean b => some (.boolean b)
  | .string s => some (.string (cstr (uastrToCharArr block s)))
  | _ => none

def UaType.reported : UaType → Bool
  | .double | .int32 | .boolean | .string => true
  | _ => false

/-- `VariantToJson` of `new_client.hpp`, by reference, with `block` for the
string branch. -/
def variantToJson (block : Bytes) (value : Json) (variant : Variant) : Except Fault Json :=
  match variant.type with
  | none => .ok value
  | some type =>
    if type.reported then
      match variant.first with
      | none => .error .noElement
      | some element =>
        match element.toJson block with
        | none => .ok value
        | some number => (value.assign (ascii "value") number).mapError .json
    else .ok value

/-- What each branch of `PrintVariant` prints. Narrow integers are promoted to
`int`, and `%d` rereads an unsigned 32-bit value as a signed one. -/
def Scalar.print : Scalar → Bytes
  | .double d => Printf.f d
  | .int16 v => Printf.d (v.toBitVec.signExtend 32)
  | .uint16 v => Printf.d (v.toBitVec.setWidth 32)
  | .int32 v => Printf.d v.toBitVec
  | .uint32 v => Printf.d v.toBitVec
  | .int64 v => Printf.ld v.toBitVec
  | .uint64 v => Printf.lu v.toBitVec
  | .byte v => Printf.d (v.toBitVec.setWidth 32)
  | .sbyte v => Printf.d (v.toBitVec.signExtend 32)
  | .boolean b => Printf.d (if b then 1 else 0)
  | .string s => Printf.s s
  | .other _ _ => []

def UaType.printed : UaType → Bool
  | .other _ => false
  | _ => true

/-- `none` is a read of an element that the variant does not have. -/
def printVariant (variant : Variant) : Option Bytes :=
  match variant.type with
  | none => some []
  | some type => if type.printed then variant.first.map Scalar.print else some []

/-- An element is read, for a type that is used, where there is none. -/
def Variant.lacks (used : UaType → Bool) (variant : Variant) : Bool :=
  variant.type.any used && variant.first.isNone

/-- Only an array without elements lacks one. -/
theorem Variant.lacks_iff (used : UaType → Bool) (variant : Variant) :
    variant.lacks used = true ↔ ∃ a, variant = .array a ∧ used a.type = true ∧ a.elements = [] := by
  cases variant with
  | empty => simp [lacks, type]
  | scalar v => simp [lacks, first]
  | array a => simp [lacks, type, first, List.head?_eq_none_iff]

@[simp] theorem Variant.lacks_scalar (used : UaType → Bool) (v : Scalar) :
    (Variant.scalar v).lacks used = false := by
  simp [lacks, first]

theorem Scalar.toJson_reported {v : Scalar} (h : v.type.reported = true) (block : Bytes) :
    ∃ element, v.toJson block = some element := by
  cases v with
  | double | int32 | boolean | string => exact ⟨_, rfl⟩
  | sbyte | byte | int16 | uint16 | uint32 | int64 | uint64 | other => cases h

theorem variantToJson_of_first {variant : Variant} {v : Scalar} (hFirst : variant.first = some v)
    (hType : v.type.reported = true) {block : Bytes} {element : Json}
    (hElement : v.toJson block = some element) (value : Json) :
    variantToJson block value variant =
      (value.assign (ascii "value") element).mapError Fault.json := by
  rw [variantToJson, Variant.first_type hFirst]
  dsimp only
  rw [if_pos hType, hFirst]
  dsimp only
  rw [hElement]

theorem variantToJson_of_not_reported {variant : Variant}
    (h : ∀ type, variant.type = some type → type.reported = false) (block : Bytes) (value : Json) :
    variantToJson block value variant = .ok value := by
  rw [variantToJson]
  cases hType : variant.type with
  | none => rfl
  | some type =>
    dsimp only
    rw [h type hType]
    rfl

theorem variantToJson_null (block : Bytes) (variant : Variant) :
    (variant.lacks UaType.reported = true →
      variantToJson block .null variant = .error .noElement) ∧
    (variant.lacks UaType.reported = false → ∃ out, variantToJson block .null variant = .ok out) := by
  rw [variantToJson, Variant.lacks]
  cases variant.type with
  | none => simp
  | some type =>
    cases hReported : type.reported with
    | false => simp [hReported]
    | true =>
      cases variant.first with
      | none => simp [hReported]
      | some v =>
        cases hElement : v.toJson block <;> simp [hReported, hElement, Json.assign, Except.mapError]

/-- The scalar that the local variable gets. -/
def Json.scalar : Json → Option Scalar
  | .integer n => some (.int32 (Int32.ofInt n.val))
  | .double d => some (.double d)
  | .boolean b => some (.boolean b)
  | .string s => some (.string (cstr s))
  | _ => none

def written (slot : Slot) (value : Json) (old : Variant) : Variant :=
  match value.scalar with
  | some v => .scalar (slot.content v)
  | none => old

theorem createVariant_eq {entry value : Json} (h : entry.index (ascii "value") = .ok value)
    (slot : Slot) (variant : Variant) :
    createVariant slot entry variant = .ok (written slot value variant) := by
  cases value <;> simp [createVariant, getJsonType, h, written, Json.scalar, Json.isDouble,
    Json.isBoolean, Json.isInteger, Json.isString, Json.asInteger, Json.asDouble, Json.asString,
    Json.asBool, bind, Except.bind, pure, Except.pure]

theorem Scalar.print_eq_nil_iff (v : Scalar) :
    v.print = [] ↔ (∃ typeId content, v = .other typeId content) ∨
      ∃ s, v = .string s ∧ (s.head? = none ∨ s.head? = some 0) := by
  cases v <;> simp [Scalar.print, Printf.d, Printf.ld, Printf.lu, Printf.decimal_ne_nil,
    Printf.f_ne_nil, Printf.s_eq_nil_iff]

theorem printVariant_eq_none_iff (variant : Variant) :
    printVariant variant = none ↔ variant.lacks UaType.printed = true := by
  rw [printVariant, Variant.lacks]
  cases variant.type with
  | none => simp
  | some type => cases hPrinted : type.printed <;> simp [hPrinted]

def Variant.Blank (variant : Variant) : Prop :=
  (∀ type, variant.type = some type → type.printed = false) ∨
    ∃ s, variant.first = some (.string s) ∧ (s.head? = none ∨ s.head? = some 0)

theorem printVariant_eq_nil_iff (variant : Variant) :
    printVariant variant = some [] ↔ variant.Blank := by
  rw [printVariant]
  cases hType : variant.type with
  | none => simp [Variant.Blank, hType]
  | some type =>
    cases hPrinted : type.printed with
    | false => simp [Variant.Blank, hType, hPrinted]
    | true =>
      cases hFirst : variant.first with
      | none => simp [Variant.Blank, hType, hPrinted, hFirst]
      | some v =>
        have hNe : ∀ typeId content, v ≠ .other typeId content := by
          intro typeId content hv
          rw [Variant.first_type hFirst, hv] at hType
          cases hType
          cases hPrinted
        simp [Variant.Blank, hType, hPrinted, hFirst, Scalar.print_eq_nil_iff, hNe]

end OpcConfig
