import OpcConfig.Library.CString
import OpcConfig.Library.Binary64

/-! # JSON values as cpprest keeps them

A number the parser keeps as an integer is any signed or unsigned 64-bit one.
`operator[]` on a key turns null into an object and inserts null for a missing
key; on any other kind of value it throws, as the `as_*` accessors do.
-/

namespace OpcConfig

set_option autoImplicit false

open CString

abbrev Bytes := List UInt8

structure JsonInteger where
  val : Int
  lower : -2 ^ 63 ≤ val
  upper : val < 2 ^ 64
  deriving DecidableEq

def JsonInteger.ofByte (n : UInt8) : JsonInteger :=
  ⟨n.toNat, by omega, by have := n.toNat_lt; omega⟩

inductive JsonException
  | notAnObject
  | notAString
  | notANumber
  | notABoolean
  deriving DecidableEq, Repr

inductive Json
  | null
  | boolean (b : Bool)
  | integer (n : JsonInteger)
  | double (d : Binary64)
  | string (s : Bytes)
  | array (elements : List Json)
  | object (fields : List (Bytes × Json))

namespace Json

def isDouble : Json → Bool
  | double _ => true
  | _ => false

def isBoolean : Json → Bool
  | boolean _ => true
  | _ => false

def isInteger : Json → Bool
  | integer _ => true
  | _ => false

def isString : Json → Bool
  | string _ => true
  | _ => false

/-- `as_integer`, an int32 by truncation modulo 2 ^ 32. The client asks only
integers for it, and only doubles for `as_double`. -/
def asInteger : Json → Except JsonException Int32
  | integer n => .ok (Int32.ofInt n.val)
  | _ => .error .notANumber

def asDouble : Json → Except JsonException Binary64
  | double d => .ok d
  | _ => .error .notANumber

def asBool : Json → Except JsonException Bool
  | boolean b => .ok b
  | _ => .error .notABoolean

def asString : Json → Except JsonException Bytes
  | string s => .ok s
  | _ => .error .notAString

def field (fields : List (Bytes × Json)) (key : Bytes) : Option Json := fields.lookup key

def insertField (key : Bytes) (value : Json) : List (Bytes × Json) → List (Bytes × Json)
  | [] => [(key, value)]
  | entry :: rest =>
    if entry.1 = key then (key, value) :: rest else entry :: insertField key value rest

/-- `value[key]` read off a copy. -/
def index (value : Json) (key : Bytes) : Except JsonException Json :=
  match value with
  | null => .ok null
  | object fields => .ok ((field fields key).getD null)
  | _ => .error .notAnObject

def assign (value : Json) (key : Bytes) (element : Json) : Except JsonException Json :=
  match value with
  | null => .ok (object [(key, element)])
  | object fields => .ok (object (insertField key element fields))
  | _ => .error .notAnObject

/-- `value[key]` on a value that stays: the key is there afterwards. -/
def touch (value : Json) (key : Bytes) : Except JsonException Json :=
  match value with
  | null => .ok (object [(key, null)])
  | object fields =>
    .ok (if (field fields key).isSome then object fields else object (insertField key null fields))
  | _ => .error .notAnObject

theorem field_insertField (fields : List (Bytes × Json)) (key other : Bytes) (value : Json) :
    field (insertField key value fields) other =
      if other = key then some value else field fields other := by
  induction fields with
  | nil =>
    rw [insertField, field, List.lookup_cons]
    by_cases h : other = key
    · simp [h]
    · simp [h, field, beq_eq_false_iff_ne.mpr h]
  | cons entry rest ih =>
    obtain ⟨name, old⟩ := entry
    rw [insertField]
    dsimp only
    by_cases hName : name = key
    · rw [if_pos hName, field, field, List.lookup_cons, List.lookup_cons, hName]
      by_cases h : other = key
      · simp [h]
      · simp [h, beq_eq_false_iff_ne.mpr h]
    · rw [if_neg hName, field, field, List.lookup_cons, List.lookup_cons]
      rw [field, field] at ih
      rw [ih]
      by_cases h : other = name
      · have hOther : other ≠ key := h ▸ hName
        simp [hOther, beq_iff_eq.mpr h]
      · simp [beq_eq_false_iff_ne.mpr h]

end Json

/-- An entry of the `variables` array: the JSON value in the array with what
the program's two accessors read off it. -/
structure Entry where
  json : Json
  name : Bytes
  value : Json
  index_name : json.index (ascii "name") = .ok (.string name)
  index_value : json.index (ascii "value") = .ok value

end OpcConfig
