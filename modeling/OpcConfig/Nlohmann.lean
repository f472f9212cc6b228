import OpcConfig.Json

/-! # JSON values as `include/json.hpp` changes and prints them

`operator[]` on an index turns null into an array and extends an array with
nulls. What `dump` prints is given by the value its text denotes: finite
numbers come back as they were, so their digits are left out.
-/

namespace OpcConfig

set_option autoImplicit false

open CString

/-- A wrong kind of value for `operator[]` or a conversion, and bytes that
`dump` takes for no UTF-8. -/
inductive NlohmannError
  | typeError
  | invalidUtf8
  deriving DecidableEq

namespace Nlohmann

/-! ## Changing a value -/

/-- The elements of a value on which `operator[]` with an index does not throw. -/
def elements : Json → Option (List Json)
  | .null => some []
  | .array elements => some elements
  | _ => none

/-- `value[index][key] = element`. -/
def setAt (value : Json) (index : Nat) (key : Bytes) (element : Json) : Except NlohmannError Json :=
  match elements value with
  | none => .error .typeError
  | some old =>
    let filled := old ++ List.replicate (index + 1 - old.length) .null
    match (filled.getD index .null).assign key element with
    | .error _ => .error .typeError
    | .ok changed => .ok (.array (filled.set index changed))

/-- `value[index][key]`, converted to a string. -/
def stringAt (value : Json) (index : Nat) (key : Bytes) : Except NlohmannError Bytes :=
  match elements value with
  | none => .error .typeError
  | some old =>
    match (old.getD index .null).index key with
    | .ok (.string s) => .ok s
    | _ => .error .typeError

/-! ## Printing a value -/

def utf8Accept : Nat := 0

def utf8Reject : Nat := 1

/-- The class of each byte, and from 256 on the next state for each state and class. -/
def utf8d : List Nat :=
  List.replicate 128 0 ++                                           -- 00..7F
  List.replicate 16 1 ++ List.replicate 16 9 ++                     -- 80..9F
  List.replicate 32 7 ++                                            -- A0..BF
  List.replicate 2 8 ++ List.replicate 30 2 ++                      -- C0..DF
  [0xA, 0x3, 0x3, 0x3, 0x3, 0x3, 0x3, 0x3, 0x3, 0x3, 0x3, 0x3, 0x3, 0x4, 0x3, 0x3] ++ -- E0..EF
  [0xB, 0x6, 0x6, 0x6, 0x5, 0x8, 0x8, 0x8, 0x8, 0x8, 0x8, 0x8, 0x8, 0x8, 0x8, 0x8] ++ -- F0..FF
  [0x0, 0x1, 0x2, 0x3, 0x5, 0x8, 0x7, 0x1, 0x1, 0x1, 0x4, 0x6, 0x1, 0x1, 0x1, 0x1] ++ -- s0
  [1, 1, 1, 1, 1, 1, 1, 1, 1, 1, 1, 1, 1, 1, 1, 1] ++ -- s1
  [1, 0, 1, 1, 1, 1, 1, 0, 1, 0, 1, 1, 1, 1, 1, 1] ++ -- s2
  [1, 2, 1, 1, 1, 1, 1, 2, 1, 2, 1, 1, 1, 1, 1, 1] ++ -- s3
  [1, 1, 1, 1, 1, 1, 1, 2, 1, 1, 1, 1, 1, 1, 1, 1] ++ -- s4
  [1, 2, 1, 1, 1, 1, 1, 1, 1, 2, 1, 1, 1, 1, 1, 1] ++ -- s5
  [1, 1, 1, 1, 1, 1, 1, 3, 1, 3, 1, 1, 1, 1, 1, 1] ++ -- s6
  [1, 3, 1, 1, 1, 1, 1, 3, 1, 3, 1, 1, 1, 1, 1, 1] ++ -- s7
  [1, 3, 1, 1, 1, 1, 1, 1, 1, 1, 1, 1, 1, 1, 1, 1]    -- s8

/-- The state after one more byte. -/
def decode (state : Nat) (byte : UInt8) : Nat :=
  utf8d.getD (256 + state * 16 + utf8d.getD byte.toNat 0) utf8Reject

def dumpEscaped (state : Nat) : Bytes → Bool
  | [] => state == utf8Accept
  | byte :: rest =>
    let state := decode state byte
    if state = utf8Reject then false else dumpEscaped state rest

/-- The strings that `dump` prints without throwing. -/
def ValidUtf8 (s : Bytes) : Prop := dumpEscaped utf8Accept s = true

instance (s : Bytes) : Decidable (ValidUtf8 s) := inferInstanceAs (Decidable (_ = _))

/-- A double as it is printed: infinities and NaNs have no numeral. -/
def dumpFloat (d : Binary64) : Json := if d.finite then .double d else .null

mutual

def dump : Json → Except NlohmannError Json
  | .null => .ok .null
  | .boolean b => .ok (.boolean b)
  | .integer n => .ok (.integer n)
  | .double d => .ok (dumpFloat d)
  | .string s => if ValidUtf8 s then .ok (.string s) else .error .invalidUtf8
  | .array elements => do return .array (← dumpElements elements)
  | .object fields => do return .object (← dumpFields fields)

def dumpElements : List Json → Except NlohmannError (List Json)
  | [] => .ok []
  | element :: elements => do return (← dump element) :: (← dumpElements elements)

def dumpFields : List (Bytes × Json) → Except NlohmannError (List (Bytes × Json))
  | [] => .ok []
  | (key, value) :: fields => do
    if ValidUtf8 key then return (key, ← dump value) :: (← dumpFields fields)
    else throw .invalidUtf8

end

theorem dump_string {s : Bytes} (h : ValidUtf8 s) : dump (.string s) = .ok (.string s) := by
  rw [dump, if_pos h]

theorem dump_array {l l' : List Json} (h : dumpElements l = .ok l') :
    dump (.array l) = .ok (.array l') := by
  rw [dump, h]
  rfl

theorem dump_object {fields fields' : List (Bytes × Json)} (h : dumpFields fields = .ok fields') :
    dump (.object fields) = .ok (.object fields') := by
  rw [dump, h]
  rfl

theorem dumpElements_cons {e e' : Json} {l l' : List Json} (he : dump e = .ok e')
    (hl : dumpElements l = .ok l') : dumpElements (e :: l) = .ok (e' :: l') := by
  rw [dumpElements, he, hl]
  rfl

theorem dumpFields_cons {key : Bytes} (hKey : ValidUtf8 key) {e e' : Json} (he : dump e = .ok e')
    {fields fields' : List (Bytes × Json)} (hf : dumpFields fields = .ok fields') :
    dumpFields ((key, e) :: fields) = .ok ((key, e') :: fields') := by
  rw [dumpFields, if_pos hKey, he, hf]
  rfl

end Nlohmann

end OpcConfig
