import Mathlib.Data.List.Nodup
import OpcConfig.SyncPass

/-! # The assignments of a pass when display names are read in one fixed way

With values of the four kinds, which nodes a pass assigns to then depends on the
address space and the entries alone: neither on the rest of the memory, nor on
the order in which the browse lists the references. The same is true of what it
assigns if the places of the local variables keep it, and of whether it is left.
-/

namespace OpcConfig

set_option autoImplicit false

open CString

/-- The Objects folder has a readable variable whose display name is read as `name`. -/
def AddressSpace.Shows (s : AddressSpace) (conv : Bytes → Bytes) (id : NodeId) (name : Bytes) : Prop :=
  id ∈ s.objects ∧ ∃ node, s.nodes id = some node ∧ node.nodeClass = .variable ∧
    node.readable = true ∧ conv node.displayName = name

theorem AddressSpace.Shows.node {s : AddressSpace} {conv : Bytes → Bytes} {id : NodeId} {name : Bytes}
    (h : s.Shows conv id name) : ∃ node, s.nodes id = some node ∧ node.nodeClass = .variable := by
  obtain ⟨_, node, hNode, hClass, _⟩ := h
  exact ⟨node, hNode, hClass⟩

theorem AddressSpace.Shows.name_eq {s : AddressSpace} {conv : Bytes → Bytes} {id : NodeId}
    {name name' : Bytes} (h : s.Shows conv id name) (h' : s.Shows conv id name') : name = name' := by
  obtain ⟨_, node, hNode, _, _, hName⟩ := h
  obtain ⟨_, node', hNode', _, _, hName'⟩ := h'
  rw [hNode] at hNode'
  cases hNode'
  rw [← hName, hName']

/-- The places of the local variables are not used for anything else before the
variants are written. -/
def Memory.Keeps (mem : Memory) : Prop := ∀ site, (mem.slot site).Keeps

namespace SyncClient

open LastWrite

def ReadsAs (mem : Memory) (conv : Bytes → Bytes) : Prop :=
  ∀ site displayName, cstr (uastrToCharArr (mem.nameBlock site) displayName) = conv displayName

section

variable {P : Policy} {mem : Memory} {conv : Bytes → Bytes} {s : AddressSpace} {t : Nat}

theorem ReadsAs.hits_iff (h : ReadsAs mem conv) (site : Site) (ref : ReferenceDescription)
    (wanted : Bytes) : Hits mem site ref wanted ↔ conv ref.displayName = cstr wanted := by
  rw [Hits, h site]

theorem mem_listed {ref : ReferenceDescription} : ref ∈ listed P t s ↔ ∃ id ∈ s.objects, ∃ node,
    s.nodes id = some node ∧ ref = ⟨id, node.nodeClass, node.browseName, node.displayName⟩ := by
  rw [listed, (P.arrange_perm t s.references).mem_iff, AddressSpace.mem_references]

theorem turn_key_iff (hMem : ReadsAs mem conv) (e : Entry) (k : Nat) (id : NodeId) :
    (∃ v, (id, v) ∈ turnAssignments mem s e t k (listed P t s)) ↔ s.Shows conv id (cstr e.name) := by
  constructor
  · rintro ⟨v, hv⟩
    obtain ⟨ref, j, hRef, hReadable, hHits, hEq⟩ := mem_turnAssignments.mp hv
    cases hEq
    obtain ⟨id, hId, node, hNode, rfl⟩ := mem_listed.mp (List.mem_of_getElem? hRef)
    obtain ⟨hClass, hRead⟩ := (AddressSpace.readableVariable_iff hNode).mp hReadable
    exact ⟨hId, node, hNode, hClass, hRead, (hMem.hits_iff _ _ _).mp hHits⟩
  · rintro ⟨hId, node, hNode, hClass, hRead, hName⟩
    obtain ⟨j, hj⟩ := List.mem_iff_getElem?.mp
      ((mem_listed (P := P) (t := t)).mpr ⟨id, hId, node, hNode, rfl⟩)
    exact ⟨_, mem_turnAssignments.mpr ⟨_, j, hj,
      (AddressSpace.readableVariable_iff hNode).mpr ⟨hClass, hRead⟩, (hMem.hits_iff _ _ _).mpr hName, rfl⟩⟩

theorem pass_key_iff (hMem : ReadsAs mem conv) (entries : List Entry) (id : NodeId) :
    (∃ v, (id, v) ∈ passAssignments mem s t (listed P t s) entries) ↔
      ∃ e ∈ entries, s.Shows conv id (cstr e.name) := by
  constructor
  · rintro ⟨v, hv⟩
    obtain ⟨e, k, hEntry, hTurn⟩ := mem_passAssignments.mp hv
    exact ⟨e, List.mem_of_getElem? hEntry, (turn_key_iff hMem e k id).mp ⟨v, hTurn⟩⟩
  · rintro ⟨e, he, hShows⟩
    obtain ⟨k, hk⟩ := List.mem_iff_getElem?.mp he
    obtain ⟨v, hv⟩ := (turn_key_iff hMem e k id).mpr hShows
    exact ⟨v, mem_passAssignments.mpr ⟨e, k, hk, hv⟩⟩

/-- What is assigned is written for an entry of the name that the node shows. -/
theorem pass_value (hMem : ReadsAs mem conv) {entries : List Entry} {id : NodeId} {v : Variant}
    (h : (id, v) ∈ passAssignments mem s t (listed P t s) entries) :
    ∃ e ∈ entries, s.Shows conv id (cstr e.name) ∧
      ∃ site, v = written (mem.slot site) e.value (mem.newValue site) := by
  obtain ⟨e, k, hEntry, hTurn⟩ := mem_passAssignments.mp h
  refine ⟨e, List.mem_of_getElem? hEntry, (turn_key_iff hMem e k id).mp ⟨v, hTurn⟩, ?_⟩
  obtain ⟨ref, j, _, _, _, hEq⟩ := mem_turnAssignments.mp hTurn
  cases hEq
  exact ⟨_, rfl⟩

theorem missing_listed (hMem : ReadsAs mem conv) (entries : List Entry) :
    missing mem s t (listed P t s) entries = true ↔
      ∃ e ∈ entries, ∀ id, ¬ s.Shows conv id (cstr e.name) := by
  have hNone (e : Entry) (k : Nat) : turnAssignments mem s e t k (listed P t s) = [] ↔
      ∀ id, ¬ s.Shows conv id (cstr e.name) := by
    rw [List.eq_nil_iff_forall_not_mem]
    constructor
    · intro h id hShows
      obtain ⟨v, hv⟩ := (turn_key_iff (P := P) (t := t) hMem e k id).mpr hShows
      exact h (id, v) hv
    · intro h a ha
      exact h a.1 ((turn_key_iff (P := P) (t := t) hMem e k a.1).mp ⟨a.2, ha⟩)
  rw [missing_eq_true_iff]
  constructor
  · rintro ⟨e, k, hEntry, h⟩
    exact ⟨e, List.mem_of_getElem? hEntry, (hNone e k).mp h⟩
  · rintro ⟨e, he, h⟩
    obtain ⟨k, hk⟩ := List.mem_iff_getElem?.mp he
    exact ⟨e, k, hk, (hNone e k).mpr h⟩

/-! ## Acceptance -/

theorem accepted_written {id : NodeId} {node : Node} (hNode : s.nodes id = some node)
    (hClass : node.nodeClass = .variable) {value : Json} (hValue : value.Supported) (slot : Slot)
    (old : Variant) : P.accepted s.nodes id (written slot value old) =
      P.accepts node.dataType value.writtenType := by
  simp [Policy.accepted, hNode, hClass, written_type hValue]

/-- The server takes what is written for an entry of the name. -/
def Takes (P : Policy) (dataType : NodeId) (entries : List Entry) (name : Bytes) : Prop :=
  ∃ e ∈ entries, cstr e.name = name ∧ P.accepts dataType e.value.writtenType = true

/-- No assignment to the node is accepted exactly when its type accepts none of
the entries of the name that it shows. -/
theorem last_pass_eq_none_iff (hMem : ReadsAs mem conv) {entries : List Entry}
    (hValues : ∀ e ∈ entries, e.value.Supported) {id : NodeId} {name : Bytes}
    (hShows : s.Shows conv id name) {node : Node} (hNode : s.nodes id = some node) :
    last (P.accepted s.nodes) id (passAssignments mem s t (listed P t s) entries) = none ↔
      ¬ Takes P node.dataType entries name := by
  obtain ⟨node', hNode', hClass⟩ := hShows.node
  rw [hNode] at hNode'
  cases hNode'
  rw [last_eq_none_iff]
  constructor
  · rintro hNone ⟨e, he, rfl, hAccepts⟩
    obtain ⟨k, hk⟩ := List.mem_iff_getElem?.mp he
    obtain ⟨v, hv⟩ := (turn_key_iff (P := P) (t := t) hMem e k id).mpr hShows
    have hRejected := hNone v (mem_passAssignments.mpr ⟨e, k, hk, hv⟩)
    obtain ⟨ref, j, _, _, _, hEq⟩ := mem_turnAssignments.mp hv
    cases hEq
    rw [accepted_written hNode hClass (hValues e he), hAccepts] at hRejected
    cases hRejected
  · intro hNot v hv
    obtain ⟨e, he, hShows', site, rfl⟩ := pass_value hMem hv
    rw [accepted_written hNode hClass (hValues e he), ← Bool.not_eq_true]
    exact fun hAccepts => hNot ⟨e, he, hShows'.name_eq hShows, hAccepts⟩

/-! ## Passes that are left -/

theorem puts_lacks_iff {accepted : NodeId → Variant → Bool} {l : List (NodeId × Variant)}
    (hScalars : ∀ a ∈ l, ∃ v, a.2 = .scalar v) (f : NodeId → Variant) (id : NodeId)
    (used : UaType → Bool) : (puts accepted l f id).lacks used = true ↔
      (f id).lacks used = true ∧ last accepted id l = none := by
  rw [puts_apply]
  cases hLast : last accepted id l with
  | none => simp
  | some w =>
    obtain ⟨v, hv⟩ := hScalars _ (last_some accepted hLast).1
    have hScalar : w = .scalar v := hv
    simp [hScalar]

theorem pass_scalars {refs : List ReferenceDescription} {entries : List Entry}
    (hValues : ∀ e ∈ entries, e.value.Supported) :
    ∀ a ∈ passAssignments mem s t refs entries, ∃ v, a.2 = .scalar v := by
  intro a ha
  obtain ⟨e, k, hEntry, hTurn⟩ := mem_passAssignments.mp ha
  obtain ⟨ref, j, _, _, _, rfl⟩ := mem_turnAssignments.mp hTurn
  exact written_supported (hValues e (List.mem_of_getElem? hEntry)) _ _

/-- A pass is left where a value that lacks its element since the beginning is
reported before anything else is accepted for it. -/
theorem broken_iff {entries : List Entry} (hValues : ∀ e ∈ entries, e.value.Supported) :
    Broken P mem entries t s ↔ ∃ k e j ref, entries[k]? = some e ∧ (listed P t s)[j]? = some ref ∧
      s.readableVariable ref.nodeId = true ∧ ¬ Hits mem ⟨t, 0, k, j⟩ ref e.name ∧
      (s.value ref.nodeId).lacks UaType.reported = true ∧
      last (P.accepted s.nodes) ref.nodeId
        (passAssignments mem s t (listed P t s) (entries.take k) ++
          turnAssignments mem s e t k ((listed P t s).take j)) = none := by
  have hScalars : ∀ k e j, entries[k]? = some e →
      ∀ a ∈ passAssignments mem s t (listed P t s) (entries.take k) ++
        turnAssignments mem s e t k ((listed P t s).take j), ∃ v, a.2 = .scalar v := by
    intro k e j hEntry a ha
    rcases List.mem_append.mp ha with ha | ha
    · exact pass_scalars (fun e' he' => hValues e' (List.mem_of_mem_take he')) a ha
    · obtain ⟨ref, i, _, _, _, rfl⟩ := mem_turnAssignments.mp ha
      exact written_supported (hValues e (List.mem_of_getElem? hEntry)) _ _
  constructor
  · rintro ⟨k, e, hEntry, j, ref, hRef, hReadable, hMiss, hLacks⟩
    exact ⟨k, e, j, ref, hEntry, hRef, hReadable, hMiss,
      (puts_lacks_iff (hScalars k e j hEntry) _ _ _).mp hLacks⟩
  · rintro ⟨k, e, j, ref, hEntry, hRef, hReadable, hMiss, hLacks⟩
    exact ⟨k, e, hEntry, j, ref, hRef, hReadable, hMiss,
      (puts_lacks_iff (hScalars k e j hEntry) _ _ _).mpr hLacks⟩

/-- A readable variable lacks the element to report, and an entry of another name
comes before any of its own name that its type takes. -/
def Exposed (P : Policy) (conv : Bytes → Bytes) (s : AddressSpace) (entries : List Entry) : Prop :=
  ∃ id ∈ s.objects, ∃ node, s.nodes id = some node ∧ node.nodeClass = .variable ∧
    node.readable = true ∧ (s.value id).lacks UaType.reported = true ∧
    ∃ k e, entries[k]? = some e ∧ cstr e.name ≠ conv node.displayName ∧
      ¬ Takes P node.dataType (entries.take k) (conv node.displayName)

theorem broken_iff_exposed (hMem : ReadsAs mem conv) {entries : List Entry}
    (hValues : ∀ e ∈ entries, e.value.Supported) :
    Broken P mem entries t s ↔ Exposed P conv s entries := by
  have hTake : ∀ k, ∀ e ∈ entries.take k, e.value.Supported :=
    fun k e he => hValues e (List.mem_of_mem_take he)
  rw [broken_iff hValues]
  constructor
  · rintro ⟨k, e, j, ref, hEntry, hRef, hReadable, hMiss, hLacks, hNone⟩
    obtain ⟨id, hId, node, hNode, rfl⟩ := mem_listed.mp (List.mem_of_getElem? hRef)
    obtain ⟨hClass, hRead⟩ := (AddressSpace.readableVariable_iff hNode).mp hReadable
    refine ⟨id, hId, node, hNode, hClass, hRead, hLacks, k, e, hEntry,
      fun hSame => hMiss ((hMem.hits_iff _ _ _).mpr hSame.symm), ?_⟩
    rw [last_append, Option.or_eq_none_iff] at hNone
    exact (last_pass_eq_none_iff hMem (hTake k) ⟨hId, node, hNode, hClass, hRead, rfl⟩ hNode).mp hNone.2
  · rintro ⟨id, hId, node, hNode, hClass, hRead, hLacks, k, e, hEntry, hOther, hNot⟩
    obtain ⟨j, hj⟩ := List.mem_iff_getElem?.mp
      ((mem_listed (P := P) (t := t)).mpr ⟨id, hId, node, hNode, rfl⟩)
    refine ⟨k, e, j, _, hEntry, hj, (AddressSpace.readableVariable_iff hNode).mpr ⟨hClass, hRead⟩,
      fun hHits => hOther ((hMem.hits_iff _ _ _).mp hHits).symm, hLacks, ?_⟩
    rw [last_append, Option.or_eq_none_iff]
    constructor
    · rw [last_eq_none_iff]
      intro v hv
      obtain ⟨ref, i, hRef, _, hHits, hEq⟩ := mem_turnAssignments.mp hv
      have hListed := List.mem_of_mem_take (List.mem_of_getElem? hRef)
      obtain ⟨id', _, node', hNode', rfl⟩ := mem_listed.mp hListed
      cases hEq
      rw [hNode] at hNode'
      cases hNode'
      exact absurd ((hMem.hits_iff _ _ _).mp hHits).symm hOther
    · exact (last_pass_eq_none_iff hMem (hTake k) ⟨hId, node, hNode, hClass, hRead, rfl⟩ hNode).mpr hNot

/-! ## Places that keep their scalars -/

theorem written_kept {slot : Slot} (hKeeps : slot.Keeps) {value : Json} (hValue : value.Supported)
    (old : Variant) : written slot value old = written .kept value .empty := by
  cases value with
  | null | array | object => cases hValue
  | boolean | integer | double | string => exact congrArg Variant.scalar (hKeeps _)

theorem mem_turn_kept (hMem : ReadsAs mem conv) (hKeeps : mem.Keeps) {e : Entry}
    (hValue : e.value.Supported) {k : Nat} {a : NodeId × Variant} :
    a ∈ turnAssignments mem s e t k (listed P t s) ↔
      s.Shows conv a.1 (cstr e.name) ∧ a.2 = written .kept e.value .empty := by
  obtain ⟨id, w⟩ := a
  have hWritten {v : Variant} (hv : (id, v) ∈ turnAssignments mem s e t k (listed P t s)) :
      v = written .kept e.value .empty := by
    obtain ⟨ref, j, _, _, _, hEq⟩ := mem_turnAssignments.mp hv
    cases hEq
    exact written_kept (hKeeps _) hValue _
  constructor
  · intro ha
    exact ⟨(turn_key_iff hMem e k id).mp ⟨w, ha⟩, hWritten ha⟩
  · rintro ⟨hShows, rfl⟩
    obtain ⟨v, hv⟩ := (turn_key_iff (P := P) (t := t) hMem e k id).mpr hShows
    rwa [hWritten hv] at hv

theorem mem_pass_kept (hMem : ReadsAs mem conv) (hKeeps : mem.Keeps) {entries : List Entry}
    (hValues : ∀ e ∈ entries, e.value.Supported) {a : NodeId × Variant} :
    a ∈ passAssignments mem s t (listed P t s) entries ↔
      ∃ e ∈ entries, s.Shows conv a.1 (cstr e.name) ∧ a.2 = written .kept e.value .empty := by
  rw [mem_passAssignments]
  constructor
  · rintro ⟨e, k, hEntry, ha⟩
    have he := List.mem_of_getElem? hEntry
    exact ⟨e, he, (mem_turn_kept hMem hKeeps (hValues e he)).mp ha⟩
  · rintro ⟨e, he, ha⟩
    obtain ⟨k, hk⟩ := List.mem_iff_getElem?.mp he
    exact ⟨e, k, hk, (mem_turn_kept hMem hKeeps (hValues e he)).mpr ha⟩

/-- Entries of pairwise different names never disagree about a node. -/
theorem agreeing_pass_kept (hMem : ReadsAs mem conv) (hKeeps : mem.Keeps) {entries : List Entry}
    (hValues : ∀ e ∈ entries, e.value.Supported)
    (hNames : (entries.map fun e => cstr e.name).Nodup)
    (accepted : NodeId → Variant → Bool) (id : NodeId) :
    AgreeingAt accepted id (passAssignments mem s t (listed P t s) entries) := by
  intro v w hv hw _ _
  obtain ⟨e, he, hShows, rfl⟩ := (mem_pass_kept hMem hKeeps hValues).mp hv
  obtain ⟨e', he', hShows', rfl⟩ := (mem_pass_kept hMem hKeeps hValues).mp hw
  have hEq : e = e' := List.inj_on_of_nodup_map hNames he he' (hShows.name_eq hShows')
  rw [hEq]

end

end SyncClient

end OpcConfig
