import Mathlib.Data.Fintype.Card
import OpcConfig.SharedServer

/-! # What holds in every run of any number of clients

Nodes stay as they are, values keep to the declared types, only what a client
has reason to write is written, and few nodes are ever created.
-/

namespace OpcConfig

set_option autoImplicit false

open CString Parties

variable {ι : Type} [DecidableEq ι] {P : Policy} {programs : ι → Program} {s s' : AddressSpace}
  {history : History ι}

/-! ## Nodes -/

/-- What the clients have been told about nodes is still so. -/
structure Known (s : AddressSpace) (history : History ι) (s' : AddressSpace) : Prop where
  nodes : ∀ id node, s.nodes id = some node → s'.nodes id = some node
  seen : ∀ i response, Browsed (view i history) response → ∀ ref ∈ response.references,
    ref.nodeId ∈ s'.objects ∧ ∃ node, s'.nodes ref.nodeId = some node ∧
      ref.nodeClass = node.nodeClass ∧ ref.displayName = node.displayName
  objects : ∃ created, s'.objects = s.objects ++ created ∧ ∀ id ∈ created, s.nodes id = none

theorem Policy.browse_references {P : Policy} {t : Nat} {s : AddressSpace}
    {ref : ReferenceDescription}
    (h : ref ∈ ((P.server t).browse NodeId.objectsFolder s).1.references) :
    ref.nodeId ∈ s.objects ∧ ∃ node, s.nodes ref.nodeId = some node ∧
      ref.nodeClass = node.nodeClass ∧ ref.displayName = node.displayName := by
  obtain ⟨result, hResult, hRef⟩ := List.mem_flatMap.mp h
  have hArrange : result = ⟨P.arrange t s.references, []⟩ := by
    simpa [Policy.server] using hResult
  subst hArrange
  have hListed : ref ∈ s.references := (P.arrange_perm t s.references).mem_iff.mp hRef
  obtain ⟨id, hId, node, hNode, rfl⟩ := AddressSpace.mem_references.mp hListed
  exact ⟨hId, node, hNode, rfl, rfl⟩

/-- Only a browse tells a client something new about nodes. -/
theorem browsed_snoc {i j : ι} {q : Request} {a : Reply} {response : BrowseResponse}
    (h : Browsed (view i (history ++ [(j, q, a)])) response) :
    Browsed (view i history) response ∨
      q = .browse NodeId.objectsFolder ∧ a = .browsed response := by
  rcases List.mem_append.mp (mem_view.mp h) with hOld | hNew
  · exact Or.inl (mem_view.mpr hOld)
  · cases List.mem_singleton.mp hNew
    exact Or.inr ⟨rfl, rfl⟩

theorem Known.update {s₁ s₂ : AddressSpace} (h : Known s history s₁) {i : ι} {q : Request} {a : Reply}
    (hNodes : ∀ id node, s₁.nodes id = some node → s₂.nodes id = some node)
    (hObjects : ∃ created, s₂.objects = s₁.objects ++ created ∧ ∀ id ∈ created, s₁.nodes id = none)
    (hSeen : ∀ response, q = .browse NodeId.objectsFolder → a = .browsed response →
      ∀ ref ∈ response.references, ref.nodeId ∈ s₁.objects ∧ ∃ node,
        s₁.nodes ref.nodeId = some node ∧ ref.nodeClass = node.nodeClass ∧
        ref.displayName = node.displayName) : Known s (history ++ [(i, q, a)]) s₂ where
  nodes id node hNode := hNodes id node (h.nodes id node hNode)
  seen j response hBrowsed ref hRef := by
    obtain ⟨created, hCreated, _⟩ := hObjects
    have hBefore : ref.nodeId ∈ s₁.objects ∧ ∃ node, s₁.nodes ref.nodeId = some node ∧
        ref.nodeClass = node.nodeClass ∧ ref.displayName = node.displayName := by
      rcases browsed_snoc hBrowsed with hOld | ⟨hq, ha⟩
      · exact h.seen j response hOld ref hRef
      · exact hSeen response hq ha ref hRef
    obtain ⟨hMem, node, hNode, hRest⟩ := hBefore
    exact ⟨hCreated ▸ List.mem_append_left _ hMem, node, hNodes _ _ hNode, hRest⟩
  objects := by
    obtain ⟨created, hCreated, hFresh⟩ := h.objects
    obtain ⟨new, hNew, hNewFresh⟩ := hObjects
    refine ⟨created ++ new, by rw [hNew, hCreated, List.append_assoc], ?_⟩
    apply List.forall_mem_append.mpr ⟨hFresh, fun id hId => ?_⟩
    by_contra hSome
    obtain ⟨node, hNode⟩ := Option.ne_none_iff_exists'.mp hSome
    have hStill := h.nodes id node hNode
    rw [hNewFresh id hId] at hStill
    cases hStill

theorem SharedRuns.known (h : SharedRuns P programs s history s') : Known s history s' := by
  apply h.invariant
  · exact ⟨fun _ _ hNode => hNode, fun _ _ hBrowsed => absurd hBrowsed List.not_mem_nil,
      [], (List.append_nil _).symm, fun _ hMem => absurd hMem List.not_mem_nil⟩
  · intro history s₁ i q a s₂ _ hKnown hGrants _
    have hSame : ∃ created, s₁.objects = s₁.objects ++ created ∧
        ∀ id ∈ created, s₁.nodes id = none :=
      ⟨[], (List.append_nil _).symm, fun _ hMem => absurd hMem List.not_mem_nil⟩
    cases hGrants with
    | connect code => exact hKnown.update (fun _ _ hNode => hNode) hSame (fun _ hq => by cases hq)
    | browse t nodeId =>
      apply hKnown.update (fun _ _ hNode => hNode) hSame
      intro response hq ha ref hRef
      cases hq
      cases ha
      exact P.browse_references hRef
    | read nodeId => exact hKnown.update (fun _ _ hNode => hNode) hSame (fun _ hq => by cases hq)
    | written hAccepted =>
      exact hKnown.update (fun _ _ hNode => hNode) hSame (fun _ hq => by cases hq)
    | refused hRefused =>
      exact hKnown.update (fun _ _ hNode => hNode) hSame (fun _ hq => by cases hq)
    | @added request nodeId s₁ hId hFresh =>
      apply hKnown.update _ ⟨[nodeId], rfl, List.forall_mem_singleton.mpr hFresh⟩ (fun _ hq => by cases hq)
      intro id node hNode
      have hNe : id ≠ nodeId := by
        rintro rfl
        rw [hFresh] at hNode
        cases hNode
      rwa [P.add_nodes_of_ne hNe]
    | taken hTaken => exact hKnown.update (fun _ _ hNode => hNode) hSame (fun _ hq => by cases hq)

/-! ## Types -/

/-- Every value is empty or of the type its node is declared with; the base type
stands for all. -/
def AddressSpace.WellTyped (s : AddressSpace) : Prop :=
  ∀ id node, s.nodes id = some node → node.dataType = NodeId.baseDataType ∨ s.value id = .empty ∨
    (s.value id).type.map UaType.typeId = some node.dataType

theorem AddressSpace.WellTyped.written {s : AddressSpace} (h : s.WellTyped) {P : Policy}
    (hAccepts : P.accepts = acceptsDeclared) {nodeId : NodeId} {v : Variant}
    (hAccepted : P.accepted s.nodes nodeId v = true) :
    { s with value := Function.update s.value nodeId v }.WellTyped := by
  intro id node hNode
  dsimp only at hNode ⊢
  by_cases hId : id = nodeId
  · subst hId
    rw [Policy.accepted, hNode] at hAccepted
    dsimp only at hAccepted
    rw [Bool.and_eq_true, hAccepts, acceptsDeclared, Bool.or_eq_true] at hAccepted
    rw [Function.update_self]
    exact hAccepted.2.imp (fun hBase => beq_iff_eq.mp hBase) (fun hType => Or.inr (beq_iff_eq.mp hType))
  · rw [Function.update_of_ne hId]
    exact h id node hNode

theorem AddressSpace.WellTyped.added {s : AddressSpace} (h : s.WellTyped) (P : Policy)
    {request : AddNodesRequest} (hEmpty : request.attr.value = .empty) :
    (P.add request s).WellTyped := by
  intro id node hNode
  rw [Policy.add] at hNode ⊢
  dsimp only at hNode ⊢
  by_cases hId : id = request.requestedNewNodeId
  · rw [hId, Function.update_self]
    exact Or.inr (Or.inl hEmpty)
  · rw [Function.update_of_ne hId] at hNode ⊢
    exact h id node hNode

/-- A server that checks declared types has them right after any calls, and no
call takes a node away or changes one. -/
theorem well_typed (hAccepts : P.accepts = acceptsDeclared) (hStart : s.WellTyped)
    (h : SharedRuns P programs s history s') :
    s'.WellTyped ∧ ∀ id node, s.nodes id = some node → s'.nodes id = some node := by
  refine ⟨?_, h.known.nodes⟩
  apply h.invariant (I := fun _ s' => s'.WellTyped) hStart
  intro history s₁ i q a s₂ _ hTyped hGrants hAllowed
  rcases hGrants.cases_on_space with rfl | ⟨nodeId, v, rfl, rfl, hAccepted, rfl⟩ |
    ⟨request, nodeId, rfl, rfl, _, _, rfl⟩
  · exact hTyped
  · exact hTyped.written hAccepts hAccepted
  · exact hTyped.added P hAllowed.creation.1

theorem well_typed_overtaken : (SharedRuns (SyncClient.plainPolicy true) twoCounters
    (CounterClient.counterSpace 5) overtaken (six (six named))) ∧ (six (six named)).WellTyped := by
  refine ⟨overtaken_runs, (well_typed rfl ?_ overtaken_runs).1⟩
  intro id node hNode
  by_cases hId : id = SyncClient.node7
  · subst hId
    cases hNode
    exact Or.inr (Or.inr rfl)
  · rw [CounterClient.counterSpace, SyncClient.oneNode] at hNode
    simp [hId] at hNode

/-! ## Values that nobody writes -/

/-- No entry of a synchronisation client names the node, whatever the client
takes its display name for. -/
def Unnamed (programs : ι → Program) (node : Node) : Prop :=
  ∀ i mem vars, programs i = .sync mem vars → ∀ entry ∈ vars, ∀ wanted,
    SyncClient.entryName entry = .ok wanted → ∀ site ref, ref.displayName = node.displayName →
      ¬ SyncClient.Hits mem site ref wanted

/-- Nothing leads a client to write this node: it is not listed, no variable, or
neither a number to count nor named by an entry. -/
def Idle (programs : ι → Program) (s : AddressSpace) (id : NodeId) (node : Node) : Prop :=
  id ∉ s.objects ∨ node.nodeClass ≠ .variable ∨
    (∀ n, (s.value id).first ≠ some (.int32 n)) ∧ Unnamed programs node

theorem Known.listed (hKnown : Known s history s') {i : ι} {id : NodeId} {node : Node}
    (hNode : s.nodes id = some node) {ref : ReferenceDescription}
    (hRef : Referenced (view i history) ref) (hId : ref.nodeId = id) :
    id ∈ s.objects ∧ node.nodeClass = .variable ∧ ref.displayName = node.displayName := by
  obtain ⟨hClass, response, hBrowsed, hMem⟩ := hRef
  obtain ⟨hObjects, node', hNode', hSameClass, hSameName⟩ := hKnown.seen i response hBrowsed ref hMem
  obtain ⟨created, hCreated, hFresh⟩ := hKnown.objects
  rw [hId] at hObjects hNode'
  rw [hKnown.nodes id node hNode] at hNode'
  cases hNode'
  refine ⟨?_, hSameClass ▸ hClass, hSameName⟩
  rw [hCreated] at hObjects
  apply (List.mem_append.mp hObjects).resolve_right
  intro hNew
  rw [hFresh id hNew] at hNode
  cases hNode

theorem justRead_snoc {before : List Exchange} {q : Request} {a : Reply} {id : NodeId} {v : Variant} :
    JustRead (before ++ [(q, a)]) id v ↔
      q = .read id ∧ ∃ response, a = .read response ∧ response.value = some v := by
  constructor
  · rintro ⟨earlier, response, hSplit, hValue⟩
    cases List.singleton_inj.mp (List.append_inj' hSplit rfl).2
    exact ⟨rfl, response, rfl, hValue⟩
  · rintro ⟨rfl, response, rfl, hValue⟩
    exact ⟨before, response, rfl, hValue⟩

theorem AddressSpace.value_of_read {s : AddressSpace} {id : NodeId} {v : Variant}
    (h : (s.read id).value = some v) : v = s.value id := by
  rw [AddressSpace.read] at h
  split at h
  · exact (Option.some.inj h).symm
  · cases h

/-- The clients that have just read an idle node have read what it had at the
beginning. -/
theorem SharedRuns.idle {id : NodeId} {node : Node} (hNode : s.nodes id = some node)
    (hIdle : Idle programs s id node) (h : SharedRuns P programs s history s') :
    s'.value id = s.value id ∧ ∀ i v, JustRead (view i history) id v → v = s.value id := by
  apply h.invariant (I := fun history s' => s'.value id = s.value id ∧
    ∀ i v, JustRead (view i history) id v → v = s.value id)
  · refine ⟨rfl, fun i v hJust => ?_⟩
    obtain ⟨earlier, response, hSplit, _⟩ := hJust
    exact absurd hSplit.symm (List.append_ne_nil_of_right_ne_nil earlier (List.cons_ne_nil _ _))
  · rintro history s₁ i q a s₂ hRuns ⟨hValue, hReads⟩ hGrants hAllowed
    constructor
    · rcases hGrants.cases_on_space with rfl | ⟨nodeId, v, rfl, rfl, _, rfl⟩ |
        ⟨request, nodeId, rfl, rfl, _, hFresh, rfl⟩
      · exact hValue
      · by_cases hId : id = nodeId
        · subst hId
          obtain ⟨ref, hRef, hRefId, hReason⟩ := hRuns.of_write hAllowed
          obtain ⟨hListed, hClass, hName⟩ := hRuns.known.listed hNode hRef hRefId
          rcases hIdle with hOut | hOther | ⟨hNumber, hUnnamed⟩
          · exact absurd hListed hOut
          · exact absurd hClass hOther
          · rcases hReason with ⟨value, n, hJust, hFirst⟩ |
              ⟨mem, vars, hProgram, entry, hEntry, site, wanted, hWanted, hHits⟩
            · exact absurd (hReads i value hJust ▸ hFirst) (hNumber n)
            · exact absurd hHits
                (hUnnamed i mem vars hProgram entry hEntry wanted hWanted site ref hName)
        · rw [← hValue]
          exact Function.update_of_ne hId _ _
      · have hNe : id ≠ nodeId := by
          rintro rfl
          rw [hRuns.known.nodes id node hNode] at hFresh
          cases hFresh
        rw [P.add_value_of_ne hNe]
        exact hValue
    · intro j v hJust
      by_cases hj : i = j
      · subst hj
        rw [view_snoc_self, justRead_snoc] at hJust
        obtain ⟨rfl, response, rfl, hResponse⟩ := hJust
        cases hGrants
        rw [AddressSpace.value_of_read hResponse, hValue]
      · rw [view_snoc_of_ne hj] at hJust
        exact hReads j v hJust

/-- Through all calls of all clients an idle node keeps its value. -/
theorem idle_kept {id : NodeId} {node : Node} (hNode : s.nodes id = some node)
    (hIdle : Idle programs s id node) (h : SharedRuns P programs s history s') :
    s'.value id = s.value id := (h.idle hNode hIdle).1

/-- The Boolean flag of a space stays while two clients count. -/
theorem idle_kept_flag : ∃ history s', SharedRuns (SyncClient.plainPolicy true) twoCounters
    (SyncClient.oneNode "a" UaType.boolean.typeId (.scalar (.boolean true))) history s' ∧
      history ≠ [] ∧ s'.value SyncClient.node7 = .scalar (.boolean true) := by
  have hConnected : SharedRuns (SyncClient.plainPolicy true) twoCounters
      (SyncClient.oneNode "a" UaType.boolean.typeId (.scalar (.boolean true)))
      [(false, .connect, .status StatusCode.good)] _ :=
    .step .start (.connect StatusCode.good _)
      ⟨AddressSpace, (SyncClient.plainPolicy true).server, 1, 0, CounterClient.counterSpace 5,
        by decide +kernel⟩
  refine ⟨_, _, hConnected, List.cons_ne_nil _ _, ?_⟩
  have hNode : (SyncClient.oneNode "a" UaType.boolean.typeId (.scalar (.boolean true))).nodes
      SyncClient.node7 = some ⟨.variable, ⟨1, ascii "a"⟩, ascii "a", UaType.boolean.typeId, true⟩ := rfl
  have hUnnamed : Unnamed twoCounters
      ⟨.variable, ⟨1, ascii "a"⟩, ascii "a", UaType.boolean.typeId, true⟩ := by
    intro i mem vars hProgram
    cases hProgram
  have hNumber : ∀ n, (Variant.scalar (.boolean true)).first ≠ some (.int32 n) := by
    intro n hFirst
    cases hFirst
  exact idle_kept hNode (Or.inr (Or.inr ⟨hNumber, hUnnamed⟩)) hConnected

/-! ## Nodes that are created -/

/-- The parties whose creations went through, one for each of these. -/
def creators (history : History ι) : List ι :=
  history.filterMap fun e => match e with
    | (i, .addVariableNode _, .status code) => if code = StatusCode.good then some i else none
    | _ => none

omit [DecidableEq ι] in
theorem creators_snoc_added (history : History ι) (i : ι) (request : AddNodesRequest) :
    creators (history ++ [(i, .addVariableNode request, .status StatusCode.good)]) =
      creators history ++ [i] := by
  simp [creators]

structure Created (programs : ι → Program) (s : AddressSpace) (history : History ι)
    (s' : AddressSpace) : Prop where
  length : s'.objects.length = s.objects.length + (creators history).length
  spoken : ∀ i ∈ creators history, ∃ e ∈ view i history, e.1 ≠ .connect
  once : ((creators history).filter fun i => (programs i).isCounter).Nodup
  taken : (∃ i ∈ creators history, (programs i).isCounter = false) →
    s'.nodes SyncClient.name123 ≠ none
  single : ((creators history).filter fun i => !(programs i).isCounter).length ≤ 1
  asked : ∀ i ∈ creators history, (programs i).isCounter = false → (programs i).isSync = true

theorem Created.keep {s₁ s₂ : AddressSpace} (h : Created programs s history s₁)
    {e : ι × Request × Reply} (hCreators : creators (history ++ [e]) = creators history)
    (hObjects : s₂.objects = s₁.objects) (hNodes : s₂.nodes = s₁.nodes) :
    Created programs s (history ++ [e]) s₂ where
  length := by rw [hCreators, hObjects, h.length]
  spoken i hi := by
    rw [hCreators] at hi
    obtain ⟨e', he', hSpoken⟩ := h.spoken i hi
    exact ⟨e', mem_view.mpr (List.mem_append_left _ (mem_view.mp he')), hSpoken⟩
  once := hCreators ▸ h.once
  taken hi := by
    rw [hCreators] at hi
    exact hNodes ▸ h.taken hi
  single := hCreators ▸ h.single
  asked := hCreators ▸ h.asked

theorem Created.added {s₁ : AddressSpace} (h : Created programs s history s₁) {i : ι}
    {request : AddNodesRequest} {nodeId : NodeId}
    (hAllowed : (programs i).Allowed (view i history) (.addVariableNode request))
    (hId : request.requestedNewNodeId = nodeId ∨ request.requestedNewNodeId = NodeId.null)
    (hFresh : s₁.nodes nodeId = none) :
    Created programs s (history ++ [(i, .addVariableNode request, .status StatusCode.good)])
      (P.add { request with requestedNewNodeId := nodeId } s₁) := by
  have hCreators := creators_snoc_added history i request
  have hReason := hAllowed.creation.2
  have hName (hSync : (programs i).isCounter = false) : nodeId = SyncClient.name123 := by
    rcases hReason with ⟨hCounter, _⟩ | ⟨_, hRequested⟩
    · rw [hSync] at hCounter
      cases hCounter
    · rcases hId with rfl | hNull
      · exact hRequested
      · rw [hRequested] at hNull
        exact absurd hNull (by decide)
  have hNone (hSync : (programs i).isCounter = false) :
      ∀ j ∈ creators history, (programs j).isCounter = true := by
    intro j hj
    by_contra hNot
    rw [hName hSync] at hFresh
    exact h.taken ⟨j, hj, Bool.eq_false_iff.mpr hNot⟩ hFresh
  constructor
  · rw [hCreators]
    simp [Policy.add, h.length, Nat.add_assoc]
  · intro j hj
    rw [hCreators] at hj
    rcases List.mem_append.mp hj with hOld | hNew
    · obtain ⟨e, he, hSpoken⟩ := h.spoken j hOld
      exact ⟨e, mem_view.mpr (List.mem_append_left _ (mem_view.mp he)), hSpoken⟩
    · rw [List.mem_singleton.mp hNew]
      exact ⟨_, mem_view.mpr List.mem_concat_self, fun hq => by cases hq⟩
  · rw [hCreators, List.filter_append]
    cases hCounter : (programs i).isCounter with
    | false => simpa [hCounter] using h.once
    | true =>
      have hNew : i ∉ creators history := by
        intro hMem
        obtain ⟨e, he, hSpoken⟩ := h.spoken i hMem
        rcases hReason with ⟨_, hFirst⟩ | ⟨hSync, _⟩
        · exact hSpoken (hFirst e he)
        · rw [Program.isCounter_of_isSync hSync] at hCounter
          cases hCounter
      have hSingle : [i].filter (fun j => (programs j).isCounter) = [i] := by simp [hCounter]
      rw [hSingle]
      apply List.nodup_append.mpr ⟨h.once, List.nodup_singleton i, fun a ha b hb hab => ?_⟩
      rw [List.mem_singleton.mp hb] at hab
      exact hNew (hab ▸ List.mem_of_mem_filter ha)
  · rintro ⟨j, hj, hSync⟩
    by_cases hId123 : SyncClient.name123 = nodeId
    · rw [Policy.add, hId123]
      simp
    · rw [P.add_nodes_of_ne hId123]
      rw [hCreators] at hj
      rcases List.mem_append.mp hj with hOld | hNew
      · exact h.taken ⟨j, hOld, hSync⟩
      · rw [List.mem_singleton.mp hNew] at hSync
        exact absurd (hName hSync).symm hId123
  · rw [hCreators, List.filter_append, List.length_append]
    cases hCounter : (programs i).isCounter with
    | true => simpa [hCounter] using h.single
    | false =>
      have hOld : (creators history).filter (fun j => !(programs j).isCounter) = [] := by
        apply List.filter_eq_nil_iff.mpr
        intro j hj
        simp [hNone hCounter j hj]
      rw [hOld]
      simp [hCounter]
  · intro j hj hSync
    rw [hCreators] at hj
    rcases List.mem_append.mp hj with hOld | hNew
    · exact h.asked j hOld hSync
    · rw [List.mem_singleton.mp hNew] at hSync ⊢
      rcases hReason with ⟨hCounter, _⟩ | ⟨hIs, _⟩
      · rw [hSync] at hCounter
        cases hCounter
      · exact hIs

theorem SharedRuns.created (h : SharedRuns P programs s history s') :
    Created programs s history s' := by
  apply h.invariant
  · exact ⟨rfl, fun _ hi => absurd hi List.not_mem_nil, List.nodup_nil,
      fun ⟨_, hi, _⟩ => absurd hi List.not_mem_nil, Nat.zero_le 1,
      fun _ hi => absurd hi List.not_mem_nil⟩
  · intro history s₁ i q a s₂ _ hCreated hGrants hAllowed
    cases hGrants with
    | connect code => exact hCreated.keep (by simp [creators]) rfl rfl
    | browse t nodeId => exact hCreated.keep (by simp [creators]) rfl rfl
    | read nodeId => exact hCreated.keep (by simp [creators]) rfl rfl
    | written hAccepted => exact hCreated.keep (by simp [creators]) rfl rfl
    | refused hRefused => exact hCreated.keep (by simp [creators]) rfl rfl
    | added hId hFresh => exact hCreated.added hAllowed hId hFresh
    | taken hTaken =>
      have hCode : StatusCode.badNodeIdExists ≠ StatusCode.good := by decide
      exact hCreated.keep (by simp [creators, hCode]) rfl rfl

/-- However long the clients run, the Objects folder gets one node at most for
each counting client and, if there are any, one for all the synchronisation
clients together. -/
theorem objects_bounded [Fintype ι] (h : SharedRuns P programs s history s') :
    s'.objects.length ≤
      s.objects.length + (Finset.univ.filter fun i => (programs i).isCounter = true).card +
        min 1 (Finset.univ.filter fun i => (programs i).isSync = true).card := by
  have hCreated := h.created
  have hSplit := List.length_eq_length_filter_add (l := creators history)
    (fun i => (programs i).isCounter)
  have hCounters : ((creators history).filter fun i => (programs i).isCounter).length ≤
      (Finset.univ.filter fun i => (programs i).isCounter = true).card := by
    rw [← List.toFinset_card_of_nodup hCreated.once]
    apply Finset.card_le_card
    intro i hi
    have hMem := List.mem_toFinset.mp hi
    exact Finset.mem_filter.mpr ⟨Finset.mem_univ i, (List.mem_filter.mp hMem).2⟩
  have hOthers : ((creators history).filter fun i => !(programs i).isCounter).length ≤
      min 1 (Finset.univ.filter fun i => (programs i).isSync = true).card := by
    apply le_min hCreated.single
    rcases List.eq_nil_or_concat ((creators history).filter fun i => !(programs i).isCounter) with
      hNone | ⟨_, i, hSome⟩
    · rw [hNone]
      exact Nat.zero_le _
    · have hMem : i ∈ (creators history).filter fun i => !(programs i).isCounter := by
        rw [hSome, List.concat_eq_append]
        exact List.mem_concat_self
      obtain ⟨hMem, hNot⟩ := List.mem_filter.mp hMem
      have hSync := hCreated.asked i hMem (by simpa using hNot)
      apply hCreated.single.trans
      exact Finset.card_pos.mpr ⟨i, Finset.mem_filter.mpr ⟨Finset.mem_univ i, hSync⟩⟩
  rw [hCreated.length]
  omega

theorem objects_bounded_overtaken : (six (six named)).objects.length ≤
    (CounterClient.counterSpace 5).objects.length +
      (Finset.univ.filter fun i => (twoCounters i).isCounter = true).card +
        min 1 (Finset.univ.filter fun i => (twoCounters i).isSync = true).card :=
  objects_bounded overtaken_runs

/-! ## Clients that only read -/

/-- What the browsing programs do can be left out: the other clients ask and are
answered the same, and the space becomes the same. -/
theorem browsers_invisible (h : SharedRuns P programs s history s') :
    SharedRuns P programs s (history.filter fun e => !(programs e.1).isBrowser) s' ∧
      ∀ i, (programs i).isBrowser = false →
        view i (history.filter fun e => !(programs e.1).isBrowser) = view i history := by
  constructor
  · apply h.erase fun i => (programs i).isBrowser
    intro i hBrowser l hMem e he s₁ s₂ hGrants
    have hQuery : e.1.isQuery = true := by
      cases hProgram : programs i with
      | counter mem vars =>
        rw [hProgram] at hBrowser
        cases hBrowser
      | sync mem vars =>
        rw [hProgram] at hBrowser
        cases hBrowser
      | browser =>
        rw [hProgram] at hMem
        exact hMem e he
    rcases hGrants.cases_on_space with hSame | ⟨_, _, hq, _⟩ | ⟨_, _, hq, _⟩
    · exact hSame
    · rw [hq] at hQuery
      cases hQuery
    · rw [hq] at hQuery
      cases hQuery
  · intro i hi
    rw [view, view, List.filter_filter]
    congr 1
    apply List.filter_congr
    intro e _
    by_cases hSame : e.1 = i
    · simp [hSame, hi]
    · simp [hSame]

/-- A read of the browsing program after the connection of a counting client. -/
theorem browsers_invisible_read : SharedRuns (SyncClient.plainPolicy true)
    (fun i : Bool => if i then .browser else twoCounters i) (CounterClient.counterSpace 5)
    [(false, .connect, .status StatusCode.good)] (CounterClient.counterSpace 5) := by
  have hConnected : SharedRuns (SyncClient.plainPolicy true)
      (fun i : Bool => if i then .browser else twoCounters i) (CounterClient.counterSpace 5)
      [(false, .connect, .status StatusCode.good)] (CounterClient.counterSpace 5) :=
    .step .start (.connect StatusCode.good _)
      ⟨AddressSpace, (SyncClient.plainPolicy true).server, 1, 0, CounterClient.counterSpace 5,
        by decide +kernel⟩
  have hRead := hConnected.step (i := true) (.read SyncClient.node7 _)
    (List.forall_mem_singleton.mpr rfl)
  exact (browsers_invisible hRead).1

end OpcConfig
