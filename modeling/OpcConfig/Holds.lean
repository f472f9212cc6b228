import OpcConfig.Variant

/-! # When a variant holds a JSON value

The client's purpose is stated against this relation: numbers are compared as
numbers, whatever types carry them, strings as byte strings.
-/

namespace OpcConfig

set_option autoImplicit false

open CString

def Scalar.number : Scalar → Option Rat
  | .sbyte v => some v.toInt
  | .byte v => some v.toNat
  | .int16 v => some v.toInt
  | .uint16 v => some v.toNat
  | .int32 v => some v.toInt
  | .uint32 v => some v.toNat
  | .int64 v => some v.toInt
  | .uint64 v => some v.toNat
  | .double d => d.toRat
  | _ => none

def Json.number : Json → Option Rat
  | .integer n => some n.val
  | .double d => d.toRat
  | _ => none

def Scalar.agrees (v : Scalar) (value : Json) : Bool :=
  match v, value with
  | .boolean b, .boolean b' => b == b'
  | .string s, .string s' => s == s'
  | .double d, .double d' => d == d' || (d.toRat.isSome && d.toRat == d'.toRat)
  | v, value => v.number.isSome && v.number == value.number

def Variant.holds (variant : Variant) (value : Json) : Bool :=
  match variant with
  | .scalar v => v.agrees value
  | _ => false

def Json.Supported (value : Json) : Prop :=
  (value.isDouble || value.isBoolean || value.isInteger || value.isString) = true

instance (value : Json) : Decidable value.Supported := inferInstanceAs (Decidable (_ = true))

/-- The values that survive the conversion: integers within Int32, strings
without NUL. -/
def Json.Exact : Json → Prop
  | .integer n => -2 ^ 31 ≤ n.val ∧ n.val < 2 ^ 31
  | .string s => (0 : UInt8) ∉ s
  | _ => True

instance : (value : Json) → Decidable value.Exact
  | .integer n => inferInstanceAs (Decidable (-2 ^ 31 ≤ n.val ∧ n.val < 2 ^ 31))
  | .string s => inferInstanceAs (Decidable ((0 : UInt8) ∉ s))
  | .null | .boolean _ | .double _ | .array _ | .object _ => inferInstanceAs (Decidable True)

def Json.writtenType : Json → Option UaType
  | .integer _ => some .int32
  | .double _ => some .double
  | .boolean _ => some .boolean
  | .string _ => some .string
  | _ => none

/-- What is found in the place of the local variable is the value. -/
def Slot.agrees (slot : Slot) (value : Json) : Bool :=
  value.scalar.any fun v => (slot.content v).agrees value

theorem written_type {value : Json} (h : value.Supported) (slot : Slot) (old : Variant) :
    (written slot value old).type = value.writtenType := by
  cases value with
  | null | array | object => cases h
  | boolean | integer | double | string => exact congrArg some (slot.type_content _)

theorem written_supported {value : Json} (h : value.Supported) (slot : Slot) (old : Variant) :
    ∃ v, written slot value old = .scalar v := by
  cases value with
  | null | array | object => cases h
  | boolean | integer | double | string => exact ⟨_, rfl⟩

theorem written_unsupported {value : Json} (h : ¬ value.Supported) (slot : Slot) (old : Variant) :
    written slot value old = old := by
  cases value with
  | null | array | object => rfl
  | boolean | integer | double | string => exact absurd rfl h

theorem not_empty_holds (value : Json) : Variant.empty.holds value = false := rfl

theorem ofInt_toInt_eq_iff (n : Int) :
    (Int32.ofInt n).toInt = n ↔ -2 ^ 31 ≤ n ∧ n < 2 ^ 31 := by
  rw [Int32.toInt_ofInt, Int.bmod_eq_iff (by decide)]
  simp only [Int32.size]
  omega

theorem cstr_eq_self_iff (s : Bytes) : cstr s = s ↔ (0 : UInt8) ∉ s :=
  ⟨fun h => h ▸ zero_not_mem_cstr s, cstr_eq_self⟩

theorem Slot.agrees_iff {slot : Slot} (hKeeps : slot.Keeps) (value : Json) :
    slot.agrees value = true ↔ value.Supported ∧ value.Exact := by
  rw [Slot.agrees, show slot.content = fun v => v from funext hKeeps]
  cases value with
  | integer n =>
    rw [Json.Exact, ← ofInt_toInt_eq_iff]
    simp [Json.scalar, Scalar.agrees, Scalar.number, Json.number, Json.Supported, Json.isInteger]
  | double d => simp [Json.scalar, Scalar.agrees, Json.Supported, Json.isDouble, Json.Exact]
  | boolean b => simp [Json.scalar, Scalar.agrees, Json.Supported, Json.isBoolean, Json.Exact]
  | string s =>
    simp [Json.scalar, Scalar.agrees, Json.Supported, Json.isString, Json.Exact, cstr_eq_self_iff]
  | null => simp [Json.scalar, Json.Supported, Json.isDouble, Json.isBoolean, Json.isInteger,
      Json.isString]
  | array elements => simp [Json.scalar, Json.Supported, Json.isDouble, Json.isBoolean,
      Json.isInteger, Json.isString]
  | object fields => simp [Json.scalar, Json.Supported, Json.isDouble, Json.isBoolean,
      Json.isInteger, Json.isString]

theorem written_holds (slot : Slot) (value : Json) (old : Variant) :
    (written slot value old).holds value = slot.agrees value := by
  cases value with
  | boolean | integer | double | string => rfl
  | null | array | object => cases old with
    | scalar v => cases v <;> simp [written, Json.scalar, Slot.agrees, Variant.holds,
        Scalar.agrees, Json.number, Scalar.number]
    | empty => rfl
    | array a => rfl

end OpcConfig
