import OpcConfig.Library.LastWrite
import OpcConfig.SyncClient
import OpcConfig.Holds

/-! # A server with an address space

Nodes with their attributes, the values of the Value attributes, and the
targets of the references of the Objects folder. A policy says which variants a
declared data type accepts, what a node created without a value looks like, and
in which order a browse lists the references. Every request is answered.
-/

namespace OpcConfig

set_option autoImplicit false

open CString

structure Node where
  nodeClass : NodeClass
  browseName : QualifiedName
  displayName : Bytes
  dataType : NodeId
  readable : Bool
  deriving DecidableEq

structure AddressSpace where
  nodes : NodeId → Option Node
  value : NodeId → Variant
  objects : List NodeId

structure Policy where
  accepts : NodeId → Option UaType → Bool
  freshDisplayName : AddNodesRequest → Bytes
  freshReadable : AddNodesRequest → Bool
  arrange : Nat → List ReferenceDescription → List ReferenceDescription
  arrange_perm : ∀ t refs, (arrange t refs).Perm refs

/-- A write is accepted when the variant has the declared type or the node is
declared with the base type of all. -/
def acceptsDeclared (dataType : NodeId) (type : Option UaType) : Bool :=
  dataType == NodeId.baseDataType || type.map UaType.typeId == some dataType

namespace AddressSpace

def describe (s : AddressSpace) (id : NodeId) : Option ReferenceDescription :=
  (s.nodes id).map fun node => ⟨id, node.nodeClass, node.browseName, node.displayName⟩

def references (s : AddressSpace) : List ReferenceDescription := s.objects.filterMap s.describe

def isVariable (s : AddressSpace) (id : NodeId) : Bool :=
  match s.nodes id with
  | none => false
  | some node => node.nodeClass == .variable

def isReadable (s : AddressSpace) (id : NodeId) : Bool :=
  match s.nodes id with
  | none => false
  | some node => node.readable

def read (s : AddressSpace) (id : NodeId) : ReadResponse :=
  if s.isReadable id then ⟨StatusCode.good, [⟨true, s.value id⟩]⟩
  else ⟨StatusCode.good, [⟨false, .empty⟩]⟩

end AddressSpace

namespace Policy

def accepted (P : Policy) (nodes : NodeId → Option Node) (id : NodeId) (v : Variant) : Bool :=
  match nodes id with
  | none => false
  | some node => node.nodeClass == .variable && P.accepts node.dataType v.type

def fresh (P : Policy) (request : AddNodesRequest) : Node :=
  { nodeClass := .variable
    browseName := request.browseName
    displayName := P.freshDisplayName request
    dataType := request.attr.dataType
    readable := P.freshReadable request }

/-- The space after a granted request for a new variable in the Objects folder. -/
def add (P : Policy) (request : AddNodesRequest) (s : AddressSpace) : AddressSpace :=
  { nodes := Function.update s.nodes request.requestedNewNodeId (some (P.fresh request))
    value := Function.update s.value request.requestedNewNodeId request.attr.value
    objects := s.objects ++ [request.requestedNewNodeId] }

def server (P : Policy) (t : Nat) : Server AddressSpace where
  connect s := (StatusCode.good, s)
  browse id s :=
    (⟨if id = NodeId.objectsFolder then [⟨P.arrange t s.references, []⟩] else []⟩, s)
  read id s := (s.read id, s)
  write id v s :=
    if P.accepted s.nodes id v then
      (StatusCode.good, { s with value := Function.update s.value id v })
    else (StatusCode.badTypeMismatch, s)
  addVariableNode request s :=
    if (s.nodes request.requestedNewNodeId).isNone then (StatusCode.good, P.add request s)
    else (StatusCode.badNodeIdExists, s)

end Policy

def AddressSpace.readableVariable (s : AddressSpace) (id : NodeId) : Bool :=
  s.isVariable id && s.isReadable id

theorem AddressSpace.mem_references {s : AddressSpace} {ref : ReferenceDescription} :
    ref ∈ s.references ↔ ∃ id ∈ s.objects, ∃ node, s.nodes id = some node ∧
      ref = ⟨id, node.nodeClass, node.browseName, node.displayName⟩ := by
  simp only [references, List.mem_filterMap, describe, Option.map_eq_some_iff]
  constructor
  · rintro ⟨id, hId, node, hNode, rfl⟩
    exact ⟨id, hId, node, hNode, rfl⟩
  · rintro ⟨id, hId, node, hNode, rfl⟩
    exact ⟨id, hId, node, hNode, rfl⟩

theorem AddressSpace.node_of_mem {s : AddressSpace} {ref : ReferenceDescription}
    (h : ref ∈ s.references) : ∃ node, s.nodes ref.nodeId = some node ∧
      ref.nodeClass = node.nodeClass ∧ ref.displayName = node.displayName := by
  obtain ⟨id, _, node, hNode, rfl⟩ := AddressSpace.mem_references.mp h
  exact ⟨node, hNode, rfl, rfl⟩

theorem AddressSpace.readableVariable_iff {s : AddressSpace} {id : NodeId} {node : Node}
    (h : s.nodes id = some node) : s.readableVariable id = true ↔
      node.nodeClass = .variable ∧ node.readable = true := by
  simp [AddressSpace.readableVariable, AddressSpace.isVariable, AddressSpace.isReadable, h]

theorem AddressSpace.read_value {s : AddressSpace} {id : NodeId} {node : Node}
    (h : s.nodes id = some node) :
    (s.read id).value = if node.readable then some (s.value id) else none := by
  rw [AddressSpace.read, AddressSpace.isReadable, h]
  dsimp only
  split <;> rfl

end OpcConfig
