import OpcConfig.BrowseTalk
import OpcConfig.SharedCounts

/-! # The server of `server_main.cpp`

It starts with three variables beside the nodes of the standard, which are a
parameter, and then any number of clients talk to it. The monitored item only
makes it log.
-/

namespace OpcConfig

set_option autoImplicit false

open CString Parties

namespace OwnServer

def var1NodeId : NodeId := ⟨1, .string (ascii "variable 1")⟩

def var2NodeId : NodeId := ⟨1, .string (ascii "variable 2")⟩

def var3NodeId : NodeId := ⟨1, .string (ascii "variable 3")⟩

/-- The request for one of the three, which differ in name, type and value. -/
def variableRequest (name : Bytes) (value : Scalar) : AddNodesRequest :=
  { requestedNewNodeId := ⟨1, .string name⟩
    parentNodeId := NodeId.objectsFolder
    referenceTypeId := NodeId.organizes
    browseName := ⟨1, name⟩
    typeDefinition := NodeId.null
    attr :=
      { VariableAttributes.default with
        dataType := value.type.typeId, accessLevel := 1 ||| 2, value := .scalar value } }

/-- The double next to 3.14. -/
def variable1 : Scalar := .double ⟨0x40091EB851EB851F⟩

def variable2 : Scalar := .string (ascii "this is string")

def variable3 : Scalar := .int32 42

def addVariable (P : Policy) (request : AddNodesRequest) (s : AddressSpace) : AddressSpace :=
  ((P.server 0).addVariableNode request s).2

/-- The space when the server begins to run, from the standard's. -/
def serverSpace (P : Policy) (standard : AddressSpace) : AddressSpace :=
  let s := addVariable P (variableRequest (ascii "variable 1") variable1) standard
  let s := addVariable P (variableRequest (ascii "variable 2") variable2) s
  addVariable P (variableRequest (ascii "variable 3") variable3) s

section

variable {P : Policy} {standard : AddressSpace}

/-- Nothing of the standard is outside namespace 0. -/
structure Standard (standard : AddressSpace) : Prop where
  nodes : ∀ id, id.namespaceIndex ≠ 0 → standard.nodes id = none
  objects : ∀ id ∈ standard.objects, id.namespaceIndex = 0

/-- A variable that was made from this value. -/
structure Declared (P : Policy) (name : Bytes) (value : Scalar) (s : AddressSpace) : Prop where
  node : s.nodes ⟨1, .string name⟩ = some (P.fresh (variableRequest name value))
  value : s.value ⟨1, .string name⟩ = .scalar value

theorem addVariable_fresh {request : AddNodesRequest} {s : AddressSpace}
    (h : s.nodes request.requestedNewNodeId = none) : addVariable P request s = P.add request s := by
  have hNone : (s.nodes request.requestedNewNodeId).isNone = true := by rw [h]; rfl
  exact congrArg Prod.snd (if_pos hNone)

theorem addVariable_of_ne {request : AddNodesRequest} {s : AddressSpace} {id : NodeId}
    (hNe : id ≠ request.requestedNewNodeId) : (addVariable P request s).nodes id = s.nodes id ∧
      (addVariable P request s).value id = s.value id := by
  rw [addVariable]
  dsimp only [Policy.server]
  split
  · exact ⟨P.add_nodes_of_ne hNe s, P.add_value_of_ne hNe s⟩
  · exact ⟨rfl, rfl⟩

/-- A name for which there is no variable yet. -/
structure Unused (name : Bytes) (s : AddressSpace) : Prop where
  fresh : s.nodes ⟨1, .string name⟩ = none
  unlisted : ⟨1, .string name⟩ ∉ s.objects

theorem Unused.addVariable_eq {name : Bytes} {s : AddressSpace} (h : Unused name s) (P : Policy)
    (value : Scalar) : addVariable P (variableRequest name value) s =
      P.add (variableRequest name value) s := by
  have hFresh : s.nodes (variableRequest name value).requestedNewNodeId = none := h.fresh
  exact addVariable_fresh hFresh

theorem Unused.declared {name : Bytes} {s : AddressSpace} (h : Unused name s) (P : Policy)
    (value : Scalar) : Declared P name value (addVariable P (variableRequest name value) s) := by
  rw [h.addVariable_eq]
  exact ⟨Function.update_self _ _ _, Function.update_self _ _ _⟩

theorem id_ne {name other : Bytes} (hNe : name ≠ other) (value : Scalar) :
    (⟨1, .string name⟩ : NodeId) ≠ (variableRequest other value).requestedNewNodeId :=
  fun h => hNe (Identifier.string.inj (NodeId.mk.inj h).2)

theorem Declared.add {name other : Bytes} {value : Scalar} {s : AddressSpace}
    (h : Declared P name value s) (hNe : name ≠ other) (value' : Scalar) :
    Declared P name value (addVariable P (variableRequest other value') s) :=
  ⟨(addVariable_of_ne (id_ne hNe value')).1.trans h.node,
    (addVariable_of_ne (id_ne hNe value')).2.trans h.value⟩

theorem Unused.add {name other : Bytes} {s : AddressSpace} (h : Unused name s)
    (hOther : Unused other s) (hNe : name ≠ other) (P : Policy) (value : Scalar) :
    Unused name (addVariable P (variableRequest other value) s) where
  fresh := (addVariable_of_ne (id_ne hNe value)).1.trans h.fresh
  unlisted := by
    rw [hOther.addVariable_eq]
    intro hMem
    rcases List.mem_append.mp hMem with hOld | hNew
    · exact h.unlisted hOld
    · exact id_ne hNe value (List.mem_singleton.mp hNew)

/-- What a browse says of one of the three variables. -/
def listed (P : Policy) (name : Bytes) (value : Scalar) : ReferenceDescription :=
  ⟨⟨1, .string name⟩, .variable, ⟨1, name⟩, P.freshDisplayName (variableRequest name value)⟩

theorem Unused.references {name : Bytes} {s : AddressSpace} (h : Unused name s) (P : Policy)
    (value : Scalar) : (addVariable P (variableRequest name value) s).references =
      s.references ++ [listed P name value] := by
  have hOld : s.objects.filterMap (P.add (variableRequest name value) s).describe = s.references := by
    apply List.filterMap_congr
    intro id hId
    have hNe : id ≠ (variableRequest name value).requestedNewNodeId := by
      rintro rfl
      exact h.unlisted hId
    rw [AddressSpace.describe, P.add_nodes_of_ne hNe]
    rfl
  have hLast : (P.add (variableRequest name value) s).describe ⟨1, .string name⟩ =
      some (listed P name value) := by
    have hNode : (P.add (variableRequest name value) s).nodes ⟨1, .string name⟩ =
        some (P.fresh (variableRequest name value)) := Function.update_self _ _ _
    rw [AddressSpace.describe, hNode]
    rfl
  have hObjects : (P.add (variableRequest name value) s).objects =
      s.objects ++ [⟨1, .string name⟩] := rfl
  rw [h.addVariable_eq, AddressSpace.references, hObjects, List.filterMap_append, hOld]
  simp [hLast]

/-- Three variables, one after the other. -/
structure Three (P : Policy) (name1 name2 name3 : Bytes) (value1 value2 value3 : Scalar)
    (s s' : AddressSpace) : Prop where
  first : Declared P name1 value1 s'
  second : Declared P name2 value2 s'
  third : Declared P name3 value3 s'
  references : s'.references = s.references ++
    [listed P name1 value1, listed P name2 value2, listed P name3 value3]

theorem addVariable_three (P : Policy) {name1 name2 name3 : Bytes} {s : AddressSpace}
    (hUnused : ∀ name, Unused name s) (h₁₂ : name1 ≠ name2) (h₁₃ : name1 ≠ name3)
    (h₂₃ : name2 ≠ name3) (value1 value2 value3 : Scalar) :
    Three P name1 name2 name3 value1 value2 value3 s
      (addVariable P (variableRequest name3 value3) (addVariable P (variableRequest name2 value2)
        (addVariable P (variableRequest name1 value1) s))) := by
  have hSecond := (hUnused name2).add (hUnused name1) h₁₂.symm P value1
  have hThird := ((hUnused name3).add (hUnused name1) h₁₃.symm P value1).add hSecond
    h₂₃.symm P value2
  constructor
  · exact (((hUnused name1).declared P value1).add h₁₂ value2).add h₁₃ value3
  · exact (hSecond.declared P value2).add h₂₃ value3
  · exact hThird.declared P value3
  · rw [hThird.references, hSecond.references, (hUnused name1).references]
    simp

theorem serverSpace_three (P : Policy) (h : Standard standard) :
    Three P (ascii "variable 1") (ascii "variable 2") (ascii "variable 3") variable1 variable2 variable3
      standard (serverSpace P standard) := by
  have hOne : (1 : UInt16) ≠ 0 := by decide
  have hUnused : ∀ name, Unused name standard :=
    fun name => ⟨h.nodes _ hOne, fun hMem => hOne (h.objects _ hMem)⟩
  exact addVariable_three P hUnused (by decide) (by decide) (by decide) variable1 variable2 variable3

end

end OwnServer

/-! ## Types of single nodes -/

variable {ι : Type} [DecidableEq ι] {P : Policy} {programs : ι → Program} {s s' : AddressSpace}
  {history : History ι}

/-- A node with a value of its declared type has one in every run. -/
theorem SharedRuns.typed (hAccepts : P.accepts = acceptsDeclared) {id : NodeId} {node : Node}
    (hNode : s.nodes id = some node) (hBase : node.dataType ≠ NodeId.baseDataType)
    (hType : (s.value id).type.map UaType.typeId = some node.dataType)
    (h : SharedRuns P programs s history s') :
    (s'.value id).type.map UaType.typeId = some node.dataType := by
  apply h.invariant (I := fun _ s' => (s'.value id).type.map UaType.typeId = some node.dataType) hType
  intro history s₁ i q a s₂ hRuns hTyped hGrants _
  rcases hGrants.cases_on_space with rfl | ⟨nodeId, v, rfl, rfl, hAccepted, rfl⟩ |
    ⟨request, nodeId, rfl, rfl, _, hFresh, rfl⟩
  · exact hTyped
  · dsimp only
    by_cases hId : id = nodeId
    · subst hId
      rw [Function.update_self]
      rw [Policy.accepted, hRuns.known.nodes id node hNode] at hAccepted
      simp only [hAccepts, acceptsDeclared, Bool.and_eq_true, Bool.or_eq_true, beq_iff_eq] at hAccepted
      exact hAccepted.2.resolve_left hBase
    · rw [Function.update_of_ne hId]
      exact hTyped
  · have hNe : id ≠ nodeId := by
      rintro rfl
      rw [hRuns.known.nodes id node hNode] at hFresh
      cases hFresh
    rw [P.add_value_of_ne hNe]
    exact hTyped

theorem SharedRuns.no_writes (hPrograms : ∀ i mem vars, programs i ≠ .sync mem vars)
    (h : SharedRuns P programs s history s') {i : ι} (hCounter : (programs i).isCounter = false)
    (id : NodeId) (v : Variant) : (i, .write id v, .status StatusCode.good) ∉ history := by
  intro hWrite
  obtain ⟨j, mem, vars, hProgram, _⟩ := h.sent hCounter hWrite
  exact hPrograms j mem vars hProgram

namespace OwnServer

theorem Declared.typed (hAccepts : P.accepts = acceptsDeclared) {name : Bytes} {value : Scalar}
    (hDeclared : Declared P name value s) (hBase : value.type.typeId ≠ NodeId.baseDataType)
    (h : SharedRuns P programs s history s') :
    (s'.value ⟨1, .string name⟩).type.map UaType.typeId = some value.type.typeId := by
  have hType : (s.value ⟨1, .string name⟩).type.map UaType.typeId = some value.type.typeId := by
    rw [hDeclared.value]
    rfl
  exact h.typed hAccepts hDeclared.node hBase hType

/-- Where no synchronisation client is among the clients, a value that cannot be
counted up stays. -/
theorem Declared.kept {name : Bytes} {value : Scalar} (hDeclared : Declared P name value s)
    (hValue : ∀ n, value ≠ .int32 n) (hPrograms : ∀ i mem vars, programs i ≠ .sync mem vars)
    (h : SharedRuns P programs s history s') : s'.value ⟨1, .string name⟩ = .scalar value := by
  have hNumber : ∀ n, (s.value ⟨1, .string name⟩).first ≠ some (.int32 n) := by
    intro n hFirst
    rw [hDeclared.value] at hFirst
    exact hValue n (Option.some.inj hFirst)
  have hUnnamed : Unnamed programs (P.fresh (variableRequest name value)) :=
    fun i mem vars hProgram => absurd hProgram (hPrograms i mem vars)
  rw [(h.idle hDeclared.node (Or.inr (Or.inr ⟨hNumber, hUnnamed⟩))).1, hDeclared.value]

/-- Whatever clients come, the three variables keep their types. As long as none
of them synchronises, the first two keep their values, and the third has been
counted up from 42. -/
theorem own_server {standard : AddressSpace} (hAccepts : P.accepts = acceptsDeclared)
    (hStandard : Standard standard)
    (h : SharedRuns P programs (serverSpace P standard) history s') :
    (s'.value var1NodeId).type.map UaType.typeId = some UaType.double.typeId ∧
      (s'.value var2NodeId).type.map UaType.typeId = some UaType.string.typeId ∧
      (s'.value var3NodeId).type.map UaType.typeId = some UaType.int32.typeId ∧
      ((∀ i mem vars, programs i ≠ .sync mem vars) →
        s'.value var1NodeId = .scalar variable1 ∧ s'.value var2NodeId = .scalar variable2 ∧
          ∃ w, (s'.value var3NodeId).number = some w ∧ 42 ≤ w ∧
            w ≤ 42 + Increments.stores (moves programs var3NodeId history) ∧
            (w = 42 + Increments.stores (moves programs var3NodeId history) ↔
              Increments.Isolated (moves programs var3NodeId history))) := by
  obtain ⟨h₁, h₂, h₃, _⟩ := serverSpace_three P hStandard
  refine ⟨h₁.typed hAccepts (by decide) h, h₂.typed hAccepts (by decide) h,
    h₃.typed hAccepts (by decide) h, fun hPrograms => ⟨?_, ?_, ?_⟩⟩
  · exact h₁.kept (fun n hn => by cases hn) hPrograms h
  · exact h₂.kept (fun n hn => by cases hn) hPrograms h
  · have hNode : (serverSpace P standard).nodes var3NodeId ≠ none :=
      fun hNone => by cases h₃.node.symm.trans hNone
    have hStart : ((serverSpace P standard).value var3NodeId).number = some 42 := by
      rw [show (serverSpace P standard).value var3NodeId = _ from h₃.value]
      rfl
    obtain ⟨w, held, hNumber, hKept⟩ := h.counts hNode hStart
      fun i v hCounter => h.no_writes hPrograms hCounter var3NodeId v
    exact ⟨w, hNumber, hKept.above.1, hKept.below, hKept.exactly⟩

/-- A standard without any nodes. -/
def bare : AddressSpace := { nodes := fun _ => none, value := fun _ => .empty, objects := [] }

theorem bare_standard : Standard bare := ⟨fun _ _ => rfl, fun _ hMem => absurd hMem List.not_mem_nil⟩

theorem own_server_connected : ∃ history s', SharedRuns (SyncClient.plainPolicy true) twoCounters
    (serverSpace (SyncClient.plainPolicy true) bare) history s' ∧ history ≠ [] ∧
      s'.value var2NodeId = .scalar variable2 := by
  have hConnected : SharedRuns (SyncClient.plainPolicy true) twoCounters
      (serverSpace (SyncClient.plainPolicy true) bare)
      [(false, .connect, .status StatusCode.good)] _ :=
    .step .start (.connect StatusCode.good _)
      ⟨AddressSpace, (SyncClient.plainPolicy true).server, 1, 0, CounterClient.counterSpace 5,
        by decide +kernel⟩
  have hCounters : ∀ i mem vars, twoCounters i ≠ .sync mem vars := fun i mem vars h => by cases h
  exact ⟨_, _, hConnected, List.cons_ne_nil _ _,
    ((own_server rfl bare_standard hConnected).2.2.2 hCounters).2.1⟩

end OwnServer

/-! ## The browsing program on it -/

namespace BrowseSession

variable (outValue : ReadResponse → Except StatusCode Variant) (uninit : List Nat → Variant)

theorem grants_of_serves {P : Policy} {t : Nat} {q : Request} {s s' : AddressSpace} {a : Reply}
    (h : Server.Serves (fun _ => P.server t) q s a s') : P.Grants q s a s' :=
  Policy.server_grants ⟨t, h.choose_spec⟩

theorem query_keeps {P : Policy} {q : Request} {s s' : AddressSpace} {a : Reply}
    (h : P.Grants q s a s') (hQuery : q.isQuery = true) : s' = s := by
  rcases h.cases_on_space with hSame | ⟨_, _, rfl, _⟩ | ⟨_, _, rfl, _⟩
  · exact hSame
  · cases hQuery
  · cases hQuery

theorem queries_keep {P : Policy} {l : List Exchange} {s s' : AddressSpace}
    (h : Answered P.Grants s l s') (hQueries : ∀ e ∈ l, e.1.isQuery = true) : s' = s := by
  induction h with
  | nil => rfl
  | snoc _ hServe ih =>
    obtain ⟨hRest, hLast⟩ := List.forall_mem_append.mp hQueries
    rw [query_keeps hServe (hLast _ List.mem_cons_self), ih hRest]

/-- The session by itself is a run of the shared server, which stays as it is. -/
theorem session_alone (P : Policy) (programs : ι → Program) (i : ι) (hProgram : programs i = .browser)
    (t : Nat) (running : Bool) (s : AddressSpace) :
    SharedRuns P programs s
      ((record outValue uninit (P.server t) running s).map fun e => (i, e)) s := by
  have hTalks := main_talks outValue uninit (P.server t) running s
  have hQueries := record_queries outValue uninit (P.server t) running s
  have hAnswered : Answered P.Grants s (record outValue uninit (P.server t) running s) _ :=
    hTalks.answered.mono fun _ _ _ _ => grants_of_serves
  have hStart : SharedRuns P programs s [] s := .start
  have hRuns := hAnswered.runs (i := i) hStart fun l hPrefix => by
    change l ∈ (programs i).behaviour
    rw [hProgram]
    exact fun e he => hQueries e (hPrefix.subset he)
  rwa [queries_keep hAnswered hQueries] at hRuns

theorem session_alone_plain : SharedRuns (SyncClient.plainPolicy true) (fun _ : Unit => .browser)
    (CounterClient.counterSpace 5)
    ((record (fun _ => .error StatusCode.badTypeMismatch) (fun _ => .empty)
      ((SyncClient.plainPolicy true).server 0) true (CounterClient.counterSpace 5)).map
        fun e => ((), e)) (CounterClient.counterSpace 5) :=
  session_alone (fun _ => .error StatusCode.badTypeMismatch) (fun _ => .empty)
    (SyncClient.plainPolicy true) (fun _ => .browser) () rfl 0 true (CounterClient.counterSpace 5)

end BrowseSession

namespace OwnServer

open BrowseSession

theorem objectLines_objects (client : BrowseClient) {refs : List ReferenceDescription}
    (h : ∀ ref ∈ refs, ref.nodeId.namespaceIndex ≠ 3 ∧ ref.nodeId.namespaceIndex ≠ 2) (j : Nat) :
    ((refs.zipIdx j).flatMap fun step => client.objectLines step.1 step.2) =
      ((refs.filter fun ref => ref.nodeId.identifier.isPrinted).map objectText).map some := by
  induction refs generalizing j with
  | nil => rfl
  | cons ref refs ih =>
    obtain ⟨⟨hThree, hTwo⟩, hRest⟩ := List.forall_mem_cons.mp h
    have hBelow : ¬ ref.listedBelow := fun hBelow => hBelow.elim hThree hTwo
    rw [List.zipIdx_cons, List.flatMap_cons, ih hRest, BrowseClient.objectLines, if_neg hBelow,
      List.filter_cons]
    split
    · rename_i hPrinted
      rw [object_text_eq hPrinted]
      rfl
    · rfl

theorem serverSpace_namespaces (P : Policy) {standard : AddressSpace} (h : Standard standard) :
    ∀ ref ∈ (serverSpace P standard).references,
      ref.nodeId.namespaceIndex ≠ 3 ∧ ref.nodeId.namespaceIndex ≠ 2 := by
  rw [(serverSpace_three P h).references]
  intro ref hRef
  rcases List.mem_append.mp hRef with hOld | hNew
  · obtain ⟨id, hId, node, _, rfl⟩ := AddressSpace.mem_references.mp hOld
    dsimp only
    rw [h.objects id hId]
    decide
  · have hOne : ref.nodeId.namespaceIndex = 1 := by
      simp only [List.mem_cons, List.not_mem_nil, or_false] at hNew
      rcases hNew with rfl | rfl | rfl <;> rfl
    rw [hOne]
    decide

/-- After a good connection to this server the browsing program lists the objects
in the server's order, and never a value: its recursion is for other namespaces. -/
theorem own_listing (P : Policy) (t : Nat) (outValue : ReadResponse → Except StatusCode Variant)
    (uninit : List Nat → Variant) (standard : AddressSpace) (hStandard : Standard standard)
    (connect : AddressSpace → StatusCode × AddressSpace)
    (hGood : connect (serverSpace P standard) = (StatusCode.good, serverSpace P standard)) :
    (serverSpace P standard).references = standard.references ++
        [listed P (ascii "variable 1") variable1, listed P (ascii "variable 2") variable2,
          listed P (ascii "variable 3") variable3] ∧
      BrowseSession.main { P.server t with connect } outValue uninit true (serverSpace P standard) =
        (.success, ⟨serverSpace P standard, Line.title.text.toList ++ Line.header.text.toList ++
          ((P.arrange t (serverSpace P standard).references).filter
            fun ref => ref.nodeId.identifier.isPrinted).map objectText⟩) := by
  refine ⟨(serverSpace_three P hStandard).references, ?_⟩
  let srv : Server AddressSpace := { P.server t with connect }
  let refs := P.arrange t (serverSpace P standard).references
  have hNamespaces : ∀ ref ∈ refs, ref.nodeId.namespaceIndex ≠ 3 ∧ ref.nodeId.namespaceIndex ≠ 2 :=
    fun ref hRef => serverSpace_namespaces P hStandard ref
      ((P.arrange_perm t (serverSpace P standard).references).mem_iff.mp hRef)
  have hEdges : (seen srv outValue uninit (serverSpace P standard)).edges NodeId.objectsFolder =
      refs := by
    simp [BrowseClient.edges, seen, srv, Policy.server, refs]
  have hOutput : (seen srv outValue uninit (srv.connect (serverSpace P standard)).2).browsingVars
      (1 + 0) = some ⟨Line.title.text.toList ++ Line.header.text.toList ++
        (refs.filter fun ref => ref.nodeId.identifier.isPrinted).map objectText, true⟩ := by
    rw [show srv.connect _ = _ from hGood, BrowseClient.browsingVars_eq, hEdges,
      objectLines_objects _ hNamespaces, Option.some.injEq, Printout.printAll_eq_whole_iff,
      List.map_append]
    rfl
  have hConnect : (srv.connect (serverSpace P standard)).1 = StatusCode.good :=
    congrArg Prod.fst hGood
  have hMain := main_seen hConnect ⟨fun _ => rfl, fun _ => rfl⟩ hOutput
  rw [show srv.connect _ = _ from hGood] at hMain
  exact hMain

theorem own_listing_bare :
    (serverSpace (SyncClient.plainPolicy true) bare).references = bare.references ++
        [listed (SyncClient.plainPolicy true) (ascii "variable 1") variable1,
          listed (SyncClient.plainPolicy true) (ascii "variable 2") variable2,
          listed (SyncClient.plainPolicy true) (ascii "variable 3") variable3] ∧
      BrowseSession.main { (SyncClient.plainPolicy true).server 0 with
          connect := fun s => (StatusCode.good, s) }
          (fun _ => .error StatusCode.badTypeMismatch) (fun _ => .empty) true
          (serverSpace (SyncClient.plainPolicy true) bare) =
        (.success, ⟨serverSpace (SyncClient.plainPolicy true) bare,
          Line.title.text.toList ++ Line.header.text.toList ++
            (((SyncClient.plainPolicy true).arrange 0
              (serverSpace (SyncClient.plainPolicy true) bare).references).filter
                fun ref => ref.nodeId.identifier.isPrinted).map objectText⟩) :=
  own_listing (SyncClient.plainPolicy true) 0 (fun _ => .error StatusCode.badTypeMismatch)
    (fun _ => .empty) bare bare_standard (fun s => (StatusCode.good, s)) rfl

end OwnServer

end OpcConfig
