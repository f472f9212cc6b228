import OpcConfig.SyncRequests
import OpcConfig.SyncTargets

/-! # Entries that find their variables

With pairwise different names a pass that is not left gives every variable it
finds the value of its entry, if the server accepts the variant.
-/

namespace OpcConfig.SyncClient

set_option autoImplicit false

open CString LastWrite

theorem Faithful.readsAs {mem : Memory} (h : Faithful mem) : ReadsAs mem cstr := h

/-! ## The value of a variable that is found -/

section

variable {P : Policy} {mem : Memory} {conv : Bytes → Bytes} {s : AddressSpace} {t : Nat}
  {entries : List Entry}

theorem passed_value (hMem : ReadsAs mem conv) (hKeeps : mem.Keeps)
    (hValues : ∀ e ∈ entries, e.value.Supported)
    (hNames : (entries.map fun e => cstr e.name).Nodup) {e : Entry} (he : e ∈ entries) {id : NodeId}
    (hShows : s.Shows conv id (cstr e.name)) {node : Node} (hNode : s.nodes id = some node) :
    (passed P mem entries t s).value id =
      if P.accepts node.dataType e.value.writtenType = true then written .kept e.value .empty
      else s.value id := by
  obtain ⟨node', hNode', hClass⟩ := hShows.node
  rw [hNode] at hNode'
  cases hNode'
  have hMember : (id, written .kept e.value .empty) ∈ passAssignments mem s t (listed P t s) entries :=
    (mem_pass_kept hMem hKeeps hValues).mpr ⟨e, he, hShows, rfl⟩
  rw [passed, after_value hNode, puts_apply,
    ← accepted_written hNode hClass (hValues e he) .kept .empty]
  split
  · rename_i hAccepted
    have hAgree := agreeing_pass_kept (P := P) (s := s) (t := t) hMem hKeeps hValues hNames
      (P.accepted s.nodes) id
    rw [last_eq_some_of_agreeing _ hAgree hMember hAccepted]
    rfl
  · rename_i hRejected
    have hLast : last (P.accepted s.nodes) id
        (passAssignments mem s t (listed P t s) entries) = none := by
      rw [last_eq_none_iff]
      intro v hv
      obtain ⟨e', he', hShows', rfl⟩ := (mem_pass_kept hMem hKeeps hValues).mp hv
      have hEq : e' = e := List.inj_on_of_nodup_map hNames he' he (hShows'.name_eq hShows)
      rw [hEq]
      exact Bool.eq_false_iff.mpr hRejected
    rw [hLast]
    rfl

theorem cstr_names (hNul : ∀ e ∈ entries, (0 : UInt8) ∉ e.name)
    (hNames : (entries.map Entry.name).Nodup) : (entries.map fun e => cstr e.name).Nodup := by
  have hMap : (entries.map fun e => cstr e.name) = entries.map Entry.name := by
    apply List.map_congr_left
    intro e he
    exact cstr_eq_self (hNul e he)
  rw [hMap]
  exact hNames

end

/-! ## The update path -/

def Carries (s : AddressSpace) (id : NodeId) (name : Bytes) : Prop :=
  s.Shows (fun displayName => displayName) id name

/-- A variable of the data type can have a value that is the JSON value. -/
def Represents (dataType : NodeId) (value : Json) : Prop :=
  ∃ v : Scalar, (dataType = NodeId.baseDataType ∨ dataType = v.type.typeId) ∧ v.agrees value = true

def Updated (entries : List Entry) (s : AddressSpace) : Prop :=
  ∀ e ∈ entries, ∀ id, Carries s id e.name → (s.value id).holds e.value = true

/-- The type written for the entry is accepted and nothing of the value is cut
off, or it is rejected and the variable has the value already. -/
def Settles (s : AddressSpace) (e : Entry) (id : NodeId) (node : Node) : Prop :=
  (acceptsDeclared node.dataType e.value.writtenType = true ∧ e.value.Exact) ∨
    (acceptsDeclared node.dataType e.value.writtenType = false ∧ (s.value id).holds e.value = true)

theorem Carries.shows {s : AddressSpace} {id : NodeId} {name : Bytes} (h : Carries s id name) :
    s.Shows cstr id (cstr name) := by
  obtain ⟨hId, node, hNode, hClass, hReadable, hName⟩ := h
  refine ⟨hId, node, hNode, hClass, hReadable, ?_⟩
  rw [← hName]

theorem passed_updated_iff {P : Policy} (hAccepts : P.accepts = acceptsDeclared) {mem : Memory}
    (hMem : Faithful mem) (hKeeps : mem.Keeps) {entries : List Entry}
    (hNames : (entries.map Entry.name).Nodup) (hNul : ∀ e ∈ entries, (0 : UInt8) ∉ e.name)
    (hValues : ∀ e ∈ entries, e.value.Supported) {s : AddressSpace} {t : Nat} {e : Entry}
    (he : e ∈ entries) {id : NodeId} {node : Node} (hCarries : Carries s id e.name)
    (hNode : s.nodes id = some node) :
    ((passed P mem entries t s).value id).holds e.value = true ↔ Settles s e id node := by
  rw [passed_value hMem.readsAs hKeeps hValues (cstr_names hNul hNames) he
    hCarries.shows hNode, hAccepts, Settles]
  cases hAccepted : acceptsDeclared node.dataType e.value.writtenType with
  | true => simp [written_holds, Slot.agrees_iff Slot.kept_keeps, hValues e he]
  | false => simp

/-- A pass over names that are all carried comes to its end and updates all their
variables exactly when it meets no value that lacks its element and each of the
variables accepts what is written or has the value already. -/
theorem updated_iff (P : Policy) (hAccepts : P.accepts = acceptsDeclared) (mem : Memory)
    (hMem : Faithful mem) (hKeeps : mem.Keeps) (entries : List Entry)
    (hNames : (entries.map Entry.name).Nodup) (hNul : ∀ e ∈ entries, (0 : UInt8) ∉ e.name)
    (hValues : ∀ e ∈ entries, e.value.Supported) (s : AddressSpace)
    (hCarried : ∀ e ∈ entries, ∃ id, Carries s id e.name) :
    (∃ s', Reaches P mem entries 1 s s' ∧ Updated entries s') ↔
      ¬ Exposed P cstr s entries ∧
        ∀ e ∈ entries, ∀ id node, Carries s id e.name → s.nodes id = some node →
          Settles s e id node := by
  have hMissing : missing mem s 0 (listed P 0 s) entries = false := by
    rw [← Bool.not_eq_true, missing_listed hMem.readsAs]
    rintro ⟨e, he, hNone⟩
    obtain ⟨id, hCarries⟩ := hCarried e he
    exact hNone id hCarries.shows
  have hNodes : ∀ id name, Carries (passed P mem entries 0 s) id name ↔ Carries s id name := by
    intro id name
    rw [passed, hMissing]
    exact Iff.rfl
  have hEach : ∀ e ∈ entries, ∀ id node, Carries s id e.name → s.nodes id = some node →
      (((passed P mem entries 0 s).value id).holds e.value = true ↔ Settles s e id node) := by
    intro e he id node hCarries hNode
    exact passed_updated_iff hAccepts hMem hKeeps hNames hNul hValues he hCarries hNode
  constructor
  · rintro ⟨s', hReaches, hUpdated⟩
    obtain ⟨rfl, hWhole⟩ := reaches_one_iff.mp hReaches
    refine ⟨(broken_iff_exposed hMem.readsAs hValues).not.mp hWhole, ?_⟩
    intro e he id node hCarries hNode
    exact (hEach e he id node hCarries hNode).mp (hUpdated e he id ((hNodes _ _).mpr hCarries))
  · rintro ⟨hExposed, hSettles⟩
    refine ⟨_, reaches_one_iff.mpr ⟨rfl, (broken_iff_exposed hMem.readsAs hValues).not.mpr hExposed⟩, ?_⟩
    intro e he id hCarries
    have hBefore := (hNodes _ _).mp hCarries
    obtain ⟨node, hNode, _⟩ := hBefore.node
    exact (hEach e he id node hBefore hNode).mpr (hSettles e he id node hBefore hNode)

def plainPolicy (readable : Bool) : Policy where
  accepts := acceptsDeclared
  freshDisplayName request := request.browseName.name
  freshReadable _ := readable
  arrange _ refs := refs
  arrange_perm _ refs := List.Perm.refl refs

def node7 : NodeId := ⟨1, .numeric 7⟩

def oneNode (name : String) (dataType : NodeId) (value : Variant) : AddressSpace where
  nodes id :=
    if id = node7 then some ⟨.variable, ⟨1, ascii name⟩, ascii name, dataType, true⟩ else none
  value _ := value
  objects := [node7]

def intNode : AddressSpace := oneNode "a" UaType.int32.typeId (.scalar (.int32 0))

def integerEntry (name : String) (n : UInt8) : Entry :=
  ⟨entryOf name n, ascii name, .integer (.ofByte n), rfl, rfl⟩

theorem zeroMemory_keeps : zeroMemory.Keeps := fun _ => Slot.kept_keeps

theorem updated_iff_one :
    (∃ s', Reaches (plainPolicy false) zeroMemory [integerEntry "a" 1] 1 intNode s' ∧
      Updated [integerEntry "a" 1] s') ↔
    ¬ Exposed (plainPolicy false) cstr intNode [integerEntry "a" 1] ∧
      ∀ e ∈ [integerEntry "a" 1], ∀ id node, Carries intNode id e.name →
        intNode.nodes id = some node → Settles intNode e id node := by
  apply updated_iff (plainPolicy false) rfl zeroMemory zeroMemory_faithful zeroMemory_keeps
  · exact List.nodup_singleton _
  · intro e he
    rw [List.mem_singleton.mp he]
    decide
  · intro e he
    rw [List.mem_singleton.mp he]
    rfl
  · intro e he
    rw [List.mem_singleton.mp he]
    exact ⟨node7, List.mem_cons_self, _, rfl, rfl, rfl, rfl⟩

def doubleNode : AddressSpace :=
  oneNode "a" UaType.double.typeId (.scalar (.double ⟨0x3FF0000000000000⟩))

/-- The integer 5 is not written to a variable of type Double, which could hold it. -/
theorem updated_fails :
    (∃ id node, Carries doubleNode id (ascii "a") ∧ doubleNode.nodes id = some node ∧
      Represents node.dataType (.integer (.ofByte 5))) ∧ Faithful zeroMemory ∧ zeroMemory.Keeps ∧
    ¬ ∃ s', Reaches (plainPolicy false) zeroMemory [integerEntry "a" 5] 1 doubleNode s' ∧
      Updated [integerEntry "a" 5] s' := by
  refine ⟨⟨node7, _, ⟨List.mem_cons_self, _, rfl, rfl, rfl, rfl⟩, rfl, ?_⟩, zeroMemory_faithful,
    zeroMemory_keeps, ?_⟩
  · exact ⟨.double ⟨0x4014000000000000⟩, Or.inr rfl, by decide⟩
  · rintro ⟨s', hReaches, hUpdated⟩
    rw [(reaches_one_iff.mp hReaches).1] at hUpdated
    have hHolds := hUpdated _ List.mem_cons_self node7 ⟨List.mem_cons_self, _, rfl, rfl, rfl, rfl⟩
    exact absurd hHolds (by decide)

end OpcConfig.SyncClient
