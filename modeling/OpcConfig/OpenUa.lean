import OpcConfig.Library.Binary64
import OpcConfig.Json

/-! # The open62541 data the clients handle

Strings are length-prefixed byte strings, and text in a locale is its text.
A variant is empty, one scalar, or an array whose elements have its type.
-/

namespace OpcConfig

set_option autoImplicit false

inductive Identifier
  | numeric (n : UInt32)
  | string (s : Bytes)
  | guid (g : BitVec 128)
  | byteString (b : Bytes)
  deriving DecidableEq

structure NodeId where
  namespaceIndex : UInt16
  identifier : Identifier
  deriving DecidableEq

namespace NodeId

def objectsFolder : NodeId := ⟨0, .numeric 85⟩

def organizes : NodeId := ⟨0, .numeric 35⟩

def baseDataType : NodeId := ⟨0, .numeric 24⟩

def null : NodeId := ⟨0, .numeric 0⟩

end NodeId

/-- An element of `UA_TYPES`; `other` stands for the types that no client
looks at, by their type id. -/
inductive UaType
  | boolean | sbyte | byte | int16 | uint16 | int32 | uint32 | int64 | uint64 | double | string
  | other (typeId : NodeId)
  deriving DecidableEq

def UaType.typeId : UaType → NodeId
  | boolean => ⟨0, .numeric 1⟩
  | sbyte => ⟨0, .numeric 2⟩
  | byte => ⟨0, .numeric 3⟩
  | int16 => ⟨0, .numeric 4⟩
  | uint16 => ⟨0, .numeric 5⟩
  | int32 => ⟨0, .numeric 6⟩
  | uint32 => ⟨0, .numeric 7⟩
  | int64 => ⟨0, .numeric 8⟩
  | uint64 => ⟨0, .numeric 9⟩
  | double => ⟨0, .numeric 11⟩
  | string => ⟨0, .numeric 12⟩
  | other typeId => typeId

inductive Scalar
  | boolean (b : Bool)
  | sbyte (v : Int8)
  | byte (v : UInt8)
  | int16 (v : Int16)
  | uint16 (v : UInt16)
  | int32 (v : Int32)
  | uint32 (v : UInt32)
  | int64 (v : Int64)
  | uint64 (v : UInt64)
  | double (d : Binary64)
  | string (s : Bytes)
  | other (typeId : NodeId) (content : Bytes)
  deriving DecidableEq

def Scalar.type : Scalar → UaType
  | boolean _ => .boolean
  | sbyte _ => .sbyte
  | byte _ => .byte
  | int16 _ => .int16
  | uint16 _ => .uint16
  | int32 _ => .int32
  | uint32 _ => .uint32
  | int64 _ => .int64
  | uint64 _ => .uint64
  | double _ => .double
  | string _ => .string
  | other typeId _ => .other typeId

structure TypedArray where
  type : UaType
  elements : List Scalar
  typed : ∀ element ∈ elements, element.type = type
  deriving DecidableEq

inductive Variant
  | empty
  | scalar (v : Scalar)
  | array (a : TypedArray)
  deriving DecidableEq

namespace Variant

def type : Variant → Option UaType
  | empty => none
  | scalar v => some v.type
  | array a => some a.type

/-- What `*(T *)variant.data` reads: the scalar or the first element. The
array without elements has a sentinel there and nothing to read. -/
def first : Variant → Option Scalar
  | empty => none
  | scalar v => some v
  | array a => a.elements.head?

theorem first_type {variant : Variant} {v : Scalar} (h : variant.first = some v) :
    variant.type = some v.type := by
  cases variant with
  | empty => cases h
  | scalar w => cases h; rfl
  | array a => exact congrArg some (a.typed v (List.mem_of_mem_head? h)).symm

end Variant

abbrev StatusCode := UInt32

namespace StatusCode

def good : StatusCode := 0x00000000

def badNodeIdExists : StatusCode := 0x805E0000

def badTypeMismatch : StatusCode := 0x80740000

def badConnectionClosed : StatusCode := 0x80AE0000

end StatusCode

inductive NodeClass
  | unspecified | object | variable | method | objectType | variableType | referenceType
  | dataType | view
  deriving DecidableEq

structure QualifiedName where
  namespaceIndex : UInt16
  name : Bytes
  deriving DecidableEq

structure ReferenceDescription where
  nodeId : NodeId
  nodeClass : NodeClass
  browseName : QualifiedName
  displayName : Bytes
  deriving DecidableEq

structure BrowseResult where
  references : List ReferenceDescription
  continuationPoint : Bytes
  deriving DecidableEq

structure BrowseResponse where
  results : List BrowseResult
  deriving DecidableEq

/-- All references of a response, in the order of the loop over its results
with the loop over a result's references inside. -/
def BrowseResponse.references (response : BrowseResponse) : List ReferenceDescription :=
  response.results.flatMap BrowseResult.references

structure DataValue where
  hasValue : Bool
  value : Variant
  deriving DecidableEq

structure ReadResponse where
  serviceResult : StatusCode
  results : List DataValue
  deriving DecidableEq

def ReadResponse.value (response : ReadResponse) : Option Variant :=
  if response.serviceResult = StatusCode.good then
    match response.results with
    | [] => none
    | result :: _ => if result.hasValue then some result.value else none
  else none

structure VariableAttributes where
  displayName : Bytes
  value : Variant
  dataType : NodeId
  valueRank : Int32
  accessLevel : UInt8
  deriving DecidableEq

def VariableAttributes.default : VariableAttributes :=
  { displayName := [], value := .empty, dataType := NodeId.baseDataType, valueRank := -2,
    accessLevel := 1 }

structure AddNodesRequest where
  requestedNewNodeId : NodeId
  parentNodeId : NodeId
  referenceTypeId : NodeId
  browseName : QualifiedName
  typeDefinition : NodeId
  attr : VariableAttributes
  deriving DecidableEq

end OpcConfig
