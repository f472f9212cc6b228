import OpcConfig.SyncUpdate

/-! # The creation of variables in `new_client.hpp`

`CreateVariable` sends two requests: the second goes to the node id that the
first one stores, which is not initialised, and its status takes the place of
the first one's. An exception leaves the call between them.
-/

namespace OpcConfig

set_option autoImplicit false

open CString Loop

structure Call (σ : Type) where
  server : σ
  retval : StatusCode

namespace NewClient

variable {σ : Type}

def variableId (name : Bytes) : NodeId := ⟨1, .string (cstr name)⟩

def creation (name : Bytes) : AddNodesRequest :=
  { requestedNewNodeId := variableId name
    parentNodeId := NodeId.objectsFolder
    referenceTypeId := NodeId.organizes
    browseName := ⟨1, cstr name⟩
    typeDefinition := NodeId.null
    attr := { VariableAttributes.default with accessLevel := 1 ||| 2, valueRank := -1 } }

/-- `UA_Client_addVariableNode` stores the id, which is the requested one, only
when the request is granted. -/
def addVariableNode (srv : Server σ) (request : AddNodesRequest) (newNode : NodeId) (s : σ) :
    NodeId × Call σ :=
  let answer := srv.addVariableNode request s
  (if answer.1 = StatusCode.good then request.requestedNewNodeId else newNode, ⟨answer.2, answer.1⟩)

def createVariable (srv : Server σ) (slot : Slot) (name : Bytes) (value : Json) (variant : Variant)
    (newNode : NodeId) (s : σ) : Except (Call σ) (Call σ) :=
  let added := addVariableNode srv (creation name) newNode s
  match createVariant slot value variant with
  | .error _ => .error added.2
  | .ok variant =>
    let status := srv.write added.1 variant added.2.server
    .ok ⟨status.2, status.1⟩

end NewClient

/-! ## Servers that do what they say -/

def AddressSpace.insert (s : AddressSpace) (request : AddNodesRequest) (node : Node) : AddressSpace :=
  { nodes := Function.update s.nodes request.requestedNewNodeId (some node)
    value := Function.update s.value request.requestedNewNodeId request.attr.value
    objects := s.objects ++ [request.requestedNewNodeId] }

def AddressSpace.store (s : AddressSpace) (id : NodeId) (v : Variant) : AddressSpace :=
  { s with value := Function.update s.value id v }

/-- A server that may answer in any way, but what it grants is done in the
space that `view` shows, and what it refuses is not. -/
structure Server.Honest {σ : Type} (srv : Server σ) (view : σ → AddressSpace) : Prop where
  added : ∀ request s, request.parentNodeId = NodeId.objectsFolder →
    (srv.addVariableNode request s).1 = StatusCode.good →
      (view s).nodes request.requestedNewNodeId = none ∧
        ∃ node, view (srv.addVariableNode request s).2 = (view s).insert request node
  refused : ∀ request s, (srv.addVariableNode request s).1 ≠ StatusCode.good →
    view (srv.addVariableNode request s).2 = view s
  stored : ∀ id v s, (srv.write id v s).1 = StatusCode.good →
    view (srv.write id v s).2 = (view s).store id v
  rejected : ∀ id v s, (srv.write id v s).1 ≠ StatusCode.good →
    view (srv.write id v s).2 = view s

theorem Policy.server_honest (P : Policy) (t : Nat) : (P.server t).Honest id where
  added request s _ := by
    intro hGood
    by_cases hFree : (s.nodes request.requestedNewNodeId).isNone = true
    · exact ⟨Option.isNone_iff_eq_none.mp hFree, P.fresh request, congrArg Prod.snd (if_pos hFree)⟩
    · have hStatus : ((P.server t).addVariableNode request s).1 = StatusCode.badNodeIdExists :=
        congrArg Prod.fst (if_neg hFree)
      rw [hStatus] at hGood
      cases hGood
  refused request s := by
    intro hBad
    by_cases hFree : (s.nodes request.requestedNewNodeId).isNone = true
    · exact absurd (congrArg Prod.fst (if_pos hFree)) hBad
    · exact congrArg Prod.snd (if_neg hFree)
  stored id v s := by
    intro hGood
    by_cases hAccepted : P.accepted s.nodes id v = true
    · exact congrArg Prod.snd (if_pos hAccepted)
    · have hStatus : ((P.server t).write id v s).1 = StatusCode.badTypeMismatch :=
        congrArg Prod.fst (if_neg hAccepted)
      rw [hStatus] at hGood
      cases hGood
  rejected id v s := by
    intro hBad
    by_cases hAccepted : P.accepted s.nodes id v = true
    · exact absurd (congrArg Prod.fst (if_pos hAccepted)) hBad
    · exact congrArg Prod.snd (if_neg hAccepted)

namespace NewClient

variable {σ : Type}

/-- The node was added between the two spaces and holds the value of the entry. -/
structure Created (before after : AddressSpace) (id : NodeId) (entry : Json) : Prop where
  absent : before.nodes id = none
  present : after.nodes id ≠ none
  listed : id ∈ after.objects
  holds : ∃ value, entry.index (ascii "value") = .ok value ∧ (after.value id).holds value = true

def called (srv : Server σ) (slot : Slot) (name : Bytes) (entry : Json) (variant : Variant)
    (newNode : NodeId) (s : σ) : Call σ :=
  outcome (createVariable srv slot name entry variant newNode s)

/-- The status says whether the variable was created with its value, and a
refused request for the node leaves all values alone. -/
structure Truthful (srv : Server σ) (view : σ → AddressSpace) (slot : Slot) (name : Bytes)
    (entry : Json) (variant : Variant) (newNode : NodeId) (s : σ) : Prop where
  status : (called srv slot name entry variant newNode s).retval = StatusCode.good ↔
    Created (view s) (view (called srv slot name entry variant newNode s).server) (variableId name) entry
  frame : (srv.addVariableNode (creation name) s).1 ≠ StatusCode.good →
    (view (called srv slot name entry variant newNode s).server).value = (view s).value

section

variable {srv : Server σ} {view : σ → AddressSpace} {slot : Slot} {name : Bytes} {entry : Json}
  {variant : Variant} {newNode : NodeId} {s : σ}

theorem called_thrown (h : ∀ value, entry.index (ascii "value") ≠ .ok value) :
    called srv slot name entry variant newNode s =
      ⟨(srv.addVariableNode (creation name) s).2, (srv.addVariableNode (creation name) s).1⟩ := by
  have hThrown : ∃ e, createVariant slot entry variant = .error e := by
    cases entry with
    | null => exact absurd rfl (h .null)
    | object fields => exact absurd rfl (h _)
    | boolean | integer | double | string | array => exact ⟨_, rfl⟩
  obtain ⟨e, hError⟩ := hThrown
  rw [called, createVariable, hError]
  rfl

theorem called_written {value : Json} (hValue : entry.index (ascii "value") = .ok value) :
    called srv slot name entry variant newNode s =
      let added := addVariableNode srv (creation name) newNode s
      let status := srv.write added.1 (written slot value variant) added.2.server
      ⟨status.2, status.1⟩ := by
  rw [called, createVariable, createVariant_eq hValue]
  rfl

theorem called_granted {value : Json} (hValue : entry.index (ascii "value") = .ok value)
    (hAdded : (srv.addVariableNode (creation name) s).1 = StatusCode.good) :
    called srv slot name entry variant newNode s =
      ⟨(srv.write (variableId name) (written slot value variant) (srv.addVariableNode (creation name) s).2).2,
        (srv.write (variableId name) (written slot value variant)
          (srv.addVariableNode (creation name) s).2).1⟩ := by
  rw [called_written hValue, addVariableNode, if_pos hAdded]
  rfl

theorem called_refused {value : Json} (hValue : entry.index (ascii "value") = .ok value)
    (hRefused : (srv.addVariableNode (creation name) s).1 ≠ StatusCode.good) :
    called srv slot name entry variant newNode s =
      ⟨(srv.write newNode (written slot value variant) (srv.addVariableNode (creation name) s).2).2,
        (srv.write newNode (written slot value variant)
          (srv.addVariableNode (creation name) s).2).1⟩ := by
  rw [called_written hValue, addVariableNode, if_neg hRefused]

theorem truthful_thrown_iff (hHonest : srv.Honest view)
    (h : ∀ value, entry.index (ascii "value") ≠ .ok value) :
    Truthful srv view slot name entry variant newNode s ↔
      (srv.addVariableNode (creation name) s).1 ≠ StatusCode.good := by
  have hNot : ∀ after, ¬ Created (view s) after (variableId name) entry := by
    rintro after ⟨_, _, _, value, hValue, _⟩
    exact h value hValue
  constructor
  · intro hTruthful hGood
    have hStatus := hTruthful.status
    rw [called_thrown h] at hStatus
    exact hNot _ (hStatus.mp hGood)
  · intro hRefused
    refine ⟨?_, fun _ => ?_⟩
    · rw [called_thrown h]
      exact iff_of_false hRefused (hNot _)
    · rw [called_thrown h]
      exact congrArg AddressSpace.value (hHonest.refused _ _ hRefused)

theorem created_insert_iff (before after : AddressSpace) (node : Node)
    (hAbsent : before.nodes (variableId name) = none)
    (hNodes : after.nodes = (before.insert (creation name) node).nodes)
    (hObjects : after.objects = (before.insert (creation name) node).objects) {value : Json}
    (hValue : entry.index (ascii "value") = .ok value) :
    Created before after (variableId name) entry ↔
      (after.value (variableId name)).holds value = true := by
  constructor
  · rintro ⟨_, _, _, value', hValue', hHolds⟩
    rw [hValue] at hValue'
    cases hValue'
    exact hHolds
  · intro hHolds
    refine ⟨hAbsent, ?_, ?_, value, hValue, hHolds⟩
    · have hNode : after.nodes (variableId name) = some node := by
        rw [hNodes]
        exact Function.update_self (variableId name) (some node) before.nodes
      rw [hNode]
      exact Option.some_ne_none node
    · rw [hObjects]
      exact List.mem_append_right _ (List.mem_singleton.mpr rfl)

theorem truthful_granted_iff (hHonest : srv.Honest view) {value : Json}
    (hValue : entry.index (ascii "value") = .ok value)
    (hAdded : (srv.addVariableNode (creation name) s).1 = StatusCode.good) :
    Truthful srv view slot name entry variant newNode s ↔
      ((srv.write (variableId name) (written slot value variant)
          (srv.addVariableNode (creation name) s).2).1 = StatusCode.good →
        slot.agrees value = true) := by
  obtain ⟨hAbsent, node, hView⟩ := hHonest.added (creation name) s rfl hAdded
  have hStatus : Truthful srv view slot name entry variant newNode s ↔
      ((called srv slot name entry variant newNode s).retval = StatusCode.good ↔ Created (view s)
        (view (called srv slot name entry variant newNode s).server) (variableId name) entry) :=
    ⟨fun h => h.status, fun h => ⟨h, fun hRefused => absurd hAdded hRefused⟩⟩
  rw [hStatus, called_granted hValue hAdded]
  dsimp only
  by_cases hWritten : (srv.write (variableId name) (written slot value variant)
      (srv.addVariableNode (creation name) s).2).1 = StatusCode.good
  · rw [hHonest.stored _ _ _ hWritten, hView, created_insert_iff _
      (((view s).insert (creation name) node).store _ _) node hAbsent rfl rfl hValue]
    have hHolds : (((view s).insert (creation name) node).store (variableId name)
        (written slot value variant)).value (variableId name) = written slot value variant :=
      Function.update_self (variableId name) _ _
    rw [hHolds, written_holds]
    simp [hWritten]
  · rw [hHonest.rejected _ _ _ hWritten, hView,
      created_insert_iff _ ((view s).insert _ node) node hAbsent rfl rfl hValue]
    have hEmpty : ((view s).insert (creation name) node).value (variableId name) = .empty :=
      Function.update_self (variableId name) _ _
    rw [hEmpty, not_empty_holds]
    simp [hWritten]

theorem truthful_refused_iff (hHonest : srv.Honest view) {value : Json}
    (hValue : entry.index (ascii "value") = .ok value)
    (hRefused : (srv.addVariableNode (creation name) s).1 ≠ StatusCode.good) :
    Truthful srv view slot name entry variant newNode s ↔
      (srv.write newNode (written slot value variant)
        (srv.addVariableNode (creation name) s).2).1 ≠ StatusCode.good := by
  have hView := hHonest.refused _ _ hRefused
  -- whatever is written, the nodes are those from before the call
  have hNot : ∀ after : AddressSpace, after.nodes = (view s).nodes →
      ¬ Created (view s) after (variableId name) entry := by
    intro after hNodes h
    exact h.present (hNodes ▸ h.absent)
  constructor
  · intro hTruthful hWritten
    have hStatus := hTruthful.status
    rw [called_refused hValue hRefused] at hStatus
    dsimp only at hStatus
    rw [hHonest.stored _ _ _ hWritten, hView] at hStatus
    exact hNot ((view s).store newNode _) rfl (hStatus.mp hWritten)
  · intro hWritten
    have hAfter := hHonest.rejected _ _ _ hWritten
    rw [hView] at hAfter
    refine ⟨?_, fun _ => ?_⟩
    · rw [called_refused hValue hRefused]
      dsimp only
      rw [hAfter]
      exact iff_of_false hWritten (hNot _ rfl)
    · rw [called_refused hValue hRefused]
      exact congrArg AddressSpace.value hAfter

end

/-- Granted the node, the entry can be read and, if the write is granted, its value
is found in the place of the local variable; refused the node, no write to the id
left in `newNode` is granted. -/
def Favourable (srv : Server σ) (slot : Slot) (name : Bytes) (entry : Json) (variant : Variant)
    (newNode : NodeId) (s : σ) : Prop :=
  if (srv.addVariableNode (creation name) s).1 = StatusCode.good then
    ∃ value, entry.index (ascii "value") = .ok value ∧
      ((srv.write (variableId name) (written slot value variant)
          (srv.addVariableNode (creation name) s).2).1 = StatusCode.good →
        slot.agrees value = true)
  else ∀ value, entry.index (ascii "value") = .ok value →
    (srv.write newNode (written slot value variant)
      (srv.addVariableNode (creation name) s).2).1 ≠ StatusCode.good

/-- The call is truthful exactly when the answers of the server are favourable. -/
theorem truthful_iff (srv : Server σ) (view : σ → AddressSpace) (hHonest : srv.Honest view)
    (slot : Slot) (name : Bytes) (entry : Json) (variant : Variant) (newNode : NodeId) (s : σ) :
    Truthful srv view slot name entry variant newNode s ↔
      Favourable srv slot name entry variant newNode s := by
  rw [Favourable]
  cases hIndex : entry.index (ascii "value") with
  | error e =>
    have hNone : ∀ value, entry.index (ascii "value") ≠ .ok value := by
      intro value hValue
      rw [hIndex] at hValue
      cases hValue
    rw [truthful_thrown_iff hHonest hNone]
    split
    · rename_i hAdded
      simp [hAdded]
    · rename_i hRefused
      simp [hRefused]
  | ok value =>
    split
    · rename_i hAdded
      rw [truthful_granted_iff hHonest hIndex hAdded]
      simp
    · rename_i hRefused
      rw [truthful_refused_iff hHonest hIndex hRefused]
      simp

/-- A space in which the id for the name `a` is in use. -/
def takenNode : AddressSpace where
  nodes id :=
    if id = variableId (ascii "a") then
      some ⟨.variable, ⟨1, ascii "a"⟩, ascii "a", UaType.int32.typeId, true⟩
    else none
  value _ := .scalar (.int32 0)
  objects := [variableId (ascii "a")]

theorem truthful_iff_taken :
    Truthful ((SyncClient.plainPolicy false).server 0) id .kept (ascii "b") (SyncClient.entryOf "b" 1)
        .empty NodeId.null takenNode ↔
      Favourable ((SyncClient.plainPolicy false).server 0) .kept (ascii "b")
        (SyncClient.entryOf "b" 1) .empty NodeId.null takenNode :=
  truthful_iff _ id (Policy.server_honest _ 0) _ _ _ _ _ _

/-- The node is refused as its id is in use, the id left in `newNode` is of a
node that takes the value, and the status is good. It is also good where the node
is new and its value is what the place of the local variable is used for next. -/
theorem truthful_fails :
    ((SyncClient.plainPolicy false).server 0).Honest id ∧
    (((SyncClient.plainPolicy false).server 0).addVariableNode (creation (ascii "a"))
      takenNode).1 ≠ StatusCode.good ∧
    ¬ Truthful ((SyncClient.plainPolicy false).server 0) id .kept (ascii "a")
      (SyncClient.entryOf "a" 1) .empty (variableId (ascii "a")) takenNode ∧
    ¬ Truthful ((SyncClient.plainPolicy false).server 0) id .overwritten (ascii "b")
      (SyncClient.entryOf "b" 1) .empty NodeId.null takenNode := by
  refine ⟨Policy.server_honest _ 0, by decide, fun hTruthful => ?_, fun hTruthful => ?_⟩
  · have hValue := congrFun (hTruthful.frame (by decide)) (variableId (ascii "a"))
    exact absurd hValue (by decide)
  · obtain ⟨_, _, _, value, hIndex, hHolds⟩ := hTruthful.status.mp (by decide)
    rw [← Except.ok.inj hIndex] at hHolds
    exact absurd hHolds (by decide)

end NewClient

end OpcConfig
