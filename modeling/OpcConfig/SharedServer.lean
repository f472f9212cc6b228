import OpcConfig.AddressSpace
import OpcConfig.CounterRuns
import OpcConfig.CounterTalk
import OpcConfig.ServerMap
import OpcConfig.SyncTalk

/-! # Any number of clients on one server

The clients run at the same time and their calls reach the server in any order.
The server may refuse a connection, lists references in an order of its own, and
picks the identifier of a new node whose request leaves it open.
-/

namespace OpcConfig

set_option autoImplicit false

open CString Parties

/-! ## The server -/

/-- The answers of the server in a space, and the space afterwards. -/
inductive Policy.Grants (P : Policy) : Request → AddressSpace → Reply → AddressSpace → Prop
  | connect (code : StatusCode) (s : AddressSpace) : P.Grants .connect s (.status code) s
  | browse (t : Nat) (nodeId : NodeId) (s : AddressSpace) :
      P.Grants (.browse nodeId) s (.browsed ((P.server t).browse nodeId s).1) s
  | read (nodeId : NodeId) (s : AddressSpace) : P.Grants (.read nodeId) s (.read (s.read nodeId)) s
  | written {nodeId : NodeId} {v : Variant} {s : AddressSpace}
      (hAccepted : P.accepted s.nodes nodeId v = true) :
      P.Grants (.write nodeId v) s (.status StatusCode.good)
        { s with value := Function.update s.value nodeId v }
  | refused {nodeId : NodeId} {v : Variant} {s : AddressSpace}
      (hRefused : P.accepted s.nodes nodeId v = false) :
      P.Grants (.write nodeId v) s (.status StatusCode.badTypeMismatch) s
  | added {request : AddNodesRequest} {nodeId : NodeId} {s : AddressSpace}
      (hId : request.requestedNewNodeId = nodeId ∨ request.requestedNewNodeId = NodeId.null)
      (hFresh : s.nodes nodeId = none) :
      P.Grants (.addVariableNode request) s (.status StatusCode.good)
        (P.add { request with requestedNewNodeId := nodeId } s)
  | taken {request : AddNodesRequest} {s : AddressSpace}
      (hTaken : s.nodes request.requestedNewNodeId ≠ none) :
      P.Grants (.addVariableNode request) s (.status StatusCode.badNodeIdExists) s

/-- The server of the single clients gives no other answers. -/
theorem Policy.server_grants {P : Policy} {q : Request} {s s' : AddressSpace} {a : Reply}
    (h : Server.Serves P.server q s a s') : P.Grants q s a s' := by
  obtain ⟨t, h⟩ := h
  cases q with
  | connect =>
    cases h
    exact .connect StatusCode.good s
  | browse nodeId =>
    cases h
    exact .browse t nodeId s
  | read nodeId =>
    cases h
    exact .read nodeId s
  | write nodeId v =>
    cases hAccepted : P.accepted s.nodes nodeId v with
    | true =>
      have hWritten : P.Grants (.write nodeId v) s (.status StatusCode.good)
          { s with value := Function.update s.value nodeId v } := .written hAccepted
      simp only [Server.serve, Policy.server, hAccepted] at h
      cases h
      exact hWritten
    | false =>
      have hRefused : P.Grants (.write nodeId v) s (.status StatusCode.badTypeMismatch) s :=
        .refused hAccepted
      simp only [Server.serve, Policy.server, hAccepted] at h
      cases h
      exact hRefused
  | addVariableNode request =>
    cases hNode : s.nodes request.requestedNewNodeId with
    | none =>
      have hAdded : P.Grants (.addVariableNode request) s (.status StatusCode.good)
          (P.add request s) := .added (Or.inl rfl) hNode
      simp only [Server.serve, Policy.server, hNode] at h
      cases h
      exact hAdded
    | some node =>
      have hTaken : P.Grants (.addVariableNode request) s (.status StatusCode.badNodeIdExists) s :=
        .taken (hNode ▸ Option.some_ne_none node)
      simp only [Server.serve, Policy.server, hNode] at h
      cases h
      exact hTaken

theorem Policy.add_nodes_of_ne (P : Policy) {request : AddNodesRequest} {id : NodeId}
    (h : id ≠ request.requestedNewNodeId) (s : AddressSpace) :
    (P.add request s).nodes id = s.nodes id := Function.update_of_ne h _ _

theorem Policy.add_value_of_ne (P : Policy) {request : AddNodesRequest} {id : NodeId}
    (h : id ≠ request.requestedNewNodeId) (s : AddressSpace) :
    (P.add request s).value id = s.value id := Function.update_of_ne h _ _

/-- What a request leaves of a space: all but the value of a written node and
one new node. -/
theorem Policy.Grants.cases_on_space {P : Policy} {q : Request} {s s' : AddressSpace} {a : Reply}
    (h : P.Grants q s a s') : s' = s ∨
      (∃ nodeId v, q = .write nodeId v ∧ a = .status StatusCode.good ∧
        P.accepted s.nodes nodeId v = true ∧
        s' = { s with value := Function.update s.value nodeId v }) ∨
      ∃ request nodeId, q = .addVariableNode request ∧ a = .status StatusCode.good ∧
        (request.requestedNewNodeId = nodeId ∨ request.requestedNewNodeId = NodeId.null) ∧
        s.nodes nodeId = none ∧ s' = P.add { request with requestedNewNodeId := nodeId } s := by
  cases h with
  | connect | browse | read | refused | taken => exact Or.inl rfl
  | @written nodeId v s hAccepted =>
    exact Or.inr (Or.inl ⟨nodeId, v, rfl, rfl, hAccepted, rfl⟩)
  | @added request nodeId s hId hFresh =>
    exact Or.inr (Or.inr ⟨request, nodeId, rfl, rfl, hId, hFresh, rfl⟩)

/-! ## The clients -/

/-- A program that is a party, with its settings and the memory it finds. The
browsing program is known by asking for nothing but reads. -/
inductive Program
  | counter (mem : CounterSite → Bytes) (vars : Json)
  | sync (mem : Memory) (vars : List Json)
  | browser

namespace Program

def isCounter : Program → Bool
  | counter _ _ => true
  | _ => false

def isSync : Program → Bool
  | sync _ _ => true
  | _ => false

def isBrowser : Program → Bool
  | browser => true
  | _ => false

def behaviour : Program → Set (List Exchange)
  | counter mem vars => CounterClient.behaviour mem vars
  | sync mem vars => SyncClient.behaviour mem vars
  | browser => { l | ∀ e ∈ l, e.1.isQuery = true }

def Allowed : Program → List Exchange → Request → Prop
  | counter _ _ => CounterClient.Allowed
  | sync mem vars => SyncClient.Allowed mem vars
  | browser => fun _ q => q.isQuery = true

theorem behaviour_lawful (program : Program) {l : List Exchange} (h : l ∈ program.behaviour) :
    Lawful program.Allowed l := by
  cases program with
  | counter mem vars => exact CounterClient.behaviour_lawful h
  | sync mem vars => exact SyncClient.behaviour_lawful h
  | browser =>
    intro before q a after hl
    exact h (q, a) (hl ▸ List.mem_append_right _ List.mem_cons_self)

theorem isCounter_of_isSync {program : Program} (h : program.isSync = true) :
    program.isCounter = false := by
  cases program with
  | counter mem vars => cases h
  | sync mem vars => rfl
  | browser => cases h

/-- The creations ask for an empty variable, at the identifier of the program or
at one of the server's choice. -/
theorem Allowed.creation {program : Program} {before : List Exchange} {request : AddNodesRequest}
    (h : program.Allowed before (.addVariableNode request)) : request.attr.value = .empty ∧
      (program.isCounter = true ∧ (∀ e ∈ before, e.1 = .connect) ∨
        program.isSync = true ∧ request.requestedNewNodeId = SyncClient.name123) := by
  cases program with
  | counter mem vars =>
    obtain ⟨_, rfl, hFirst⟩ := h
    exact ⟨rfl, Or.inl ⟨rfl, hFirst⟩⟩
  | sync mem vars =>
    obtain ⟨_, rfl⟩ := h
    exact ⟨rfl, Or.inr ⟨rfl, rfl⟩⟩
  | browser => cases h

end Program

variable {ι : Type} [DecidableEq ι]

abbrev History (ι : Type) := List (ι × Request × Reply)

/-- The runs of the programs on one server with the space `s` at the beginning. -/
abbrev SharedRuns (P : Policy) (programs : ι → Program) (s : AddressSpace) :
    History ι → AddressSpace → Prop :=
  Runs P.Grants (fun i => (programs i).behaviour) s

variable {P : Policy} {programs : ι → Program} {s s' : AddressSpace} {history : History ι}

theorem SharedRuns.lawful (h : SharedRuns P programs s history s') (i : ι) :
    Lawful (programs i).Allowed (view i history) :=
  Runs.lawful (fun i => (programs i).Allowed) (fun i _ hMem => (programs i).behaviour_lawful hMem) h i

/-- The invariant rule with what the parties' programs are known to ask. -/
theorem SharedRuns.invariant {I : History ι → AddressSpace → Prop} (hStart : I [] s)
    (hStep : ∀ history s₁ i q a s₂, SharedRuns P programs s history s₁ → I history s₁ →
      P.Grants q s₁ a s₂ → (programs i).Allowed (view i history) q → I (history ++ [(i, q, a)]) s₂)
    (h : SharedRuns P programs s history s') : I history s' := by
  apply Runs.invariant hStart _ h
  intro history s₁ i q a s₂ hRuns hI hGrants hBehaviour
  apply hStep history s₁ i q a s₂ hRuns hI hGrants
  exact (lawful_snoc.mp ((programs i).behaviour_lawful hBehaviour)).2

/-- A client writes what a browse has listed as a variable: the counting client
where it has just read an Int32, the synchronisation client where an entry hits. -/
theorem SharedRuns.of_write (h : SharedRuns P programs s history s') {i : ι} {nodeId : NodeId}
    {v : Variant} (hAllowed : (programs i).Allowed (view i history) (.write nodeId v)) :
    ∃ ref, Referenced (view i history) ref ∧ ref.nodeId = nodeId ∧
      ((∃ value n, JustRead (view i history) nodeId value ∧ value.first = some (.int32 n)) ∨
        ∃ mem vars, programs i = .sync mem vars ∧ ∃ entry ∈ vars, ∃ site wanted,
          SyncClient.entryName entry = .ok wanted ∧ SyncClient.Hits mem site ref wanted) := by
  have hLawful := h.lawful i
  cases hProgram : programs i with
  | counter mem vars =>
    rw [hProgram] at hAllowed hLawful
    obtain ⟨_, value, n, hJust, hFirst, _⟩ := hAllowed
    obtain ⟨earlier, response, hView, _⟩ := id hJust
    obtain ⟨_, ref, hRef, hId⟩ := hLawful earlier (.read nodeId) (.read response) [] hView
    refine ⟨ref, ?_, hId, Or.inl ⟨value, n, hJust, hFirst⟩⟩
    rw [hView]
    exact hRef.append _
  | sync mem vars =>
    rw [hProgram] at hAllowed
    obtain ⟨_, _, _, site, ref, _, hRef, hId, entry, wanted, hEntry, hName, hHits, _⟩ := hAllowed
    exact ⟨ref, hRef, hId, Or.inr
      ⟨mem, vars, rfl, entry, List.mem_of_getElem? hEntry, site, wanted, hName, hHits⟩⟩
  | browser =>
    rw [hProgram] at hAllowed
    cases hAllowed

/-! ## Two counting clients that fetch the same number -/

section

open SyncClient CounterClient

/-- The first entry is all that a counting client reads of the settings. -/
def firstEntry : Json := .array [SyncClient.entryOf "variable1" 5]

def twoCounters (_ : Bool) : Program := .counter (fun _ => []) firstEntry

/-- The space once the first of them has created its variable. -/
def named : AddressSpace :=
  (plainPolicy true).add (CounterClient.creation (ascii "name") UaType.int32.typeId) (counterSpace 5)

def six (s : AddressSpace) : AddressSpace :=
  { s with value := Function.update s.value node7 (.scalar (.int32 6)) }

def bumped7 : Exchange := (.write node7 (.scalar (.int32 6)), .status StatusCode.good)

def listedIn (s : AddressSpace) : List Exchange :=
  [(.browse NodeId.objectsFolder,
      .browsed (((plainPolicy true).server 0).browse NodeId.objectsFolder s).1),
    (.read node7, .read (s.read node7))]

def early : List Exchange :=
  [(.connect, .status StatusCode.good),
    (.addVariableNode (CounterClient.creation (ascii "name") UaType.int32.typeId),
      .status StatusCode.good)] ++ listedIn named

def late : List Exchange :=
  [(.connect, .status StatusCode.good),
    (.addVariableNode (CounterClient.creation (ascii "name") UaType.int32.typeId),
      .status StatusCode.badNodeIdExists)] ++ listedIn named ++ [bumped7]

theorem early_answered :
    Answered (plainPolicy true).Grants (counterSpace 5) early named :=
  .snoc (.snoc (.snoc (.snoc .nil (.connect _ _)) (.added (Or.inl rfl) rfl)) (.browse 0 _ _)) (.read _ _)

theorem late_answered : Answered (plainPolicy true).Grants named late (six named) :=
  .snoc (.snoc (.snoc (.snoc (.snoc .nil (.connect _ _)) (.taken (by decide))) (.browse 0 _ _))
    (.read _ _)) (.written (by decide))

def overtaken : History Bool :=
  (early.map fun e => (false, e)) ++ (late.map fun e => (true, e)) ++ [(false, bumped7)]

theorem overtaken_runs :
    SharedRuns (plainPolicy true) twoCounters (counterSpace 5) overtaken (six (six named)) := by
  have hEarly : SharedRuns (plainPolicy true) twoCounters (counterSpace 5)
      (early.map fun e => (false, e)) named := by
    have hStart : SharedRuns (plainPolicy true) twoCounters (counterSpace 5) [] (counterSpace 5) :=
      .start
    apply early_answered.runs hStart
    intro l hPrefix
    refine ⟨AddressSpace, (plainPolicy true).server, 1, 0, counterSpace 5, hPrefix.trans ?_⟩
    decide +kernel
  have hLate : SharedRuns (plainPolicy true) twoCounters (counterSpace 5)
      ((early.map fun e => (false, e)) ++ late.map fun e => (true, e)) (six named) := by
    apply late_answered.runs hEarly
    intro l hPrefix
    refine ⟨AddressSpace, (plainPolicy true).server, 1, 0, named, ?_⟩
    have hView : view true (early.map fun e => (false, e)) = [] := by decide +kernel
    rw [hView]
    apply hPrefix.trans
    decide +kernel
  apply hLate.step (.written (by decide))
  refine ⟨AddressSpace, (plainPolicy true).server, 1, 0, counterSpace 5, ?_⟩
  decide +kernel

end

/-! ## A client alone -/

/-- The record is no part of what a client does. -/
theorem Server.recorded_maps {σ : Type} (srv : Server σ) : Server.Maps Prod.fst srv.recorded srv where
  connect _ := rfl
  browse _ _ := rfl
  read _ _ := rfl
  write _ _ _ := rfl
  addVariableNode _ _ := rfl

namespace CounterClient

/-- The space when a run ends, in a fault or not. -/
def spaceAfter (result : Except (CounterFault × Counter AddressSpace) (Counter AddressSpace)) :
    AddressSpace :=
  match result with
  | .ok c => c.server
  | .error (_, c) => c.server

/-- A run of the client by itself, with all its faults, is a run of the shared
server in which the others have not started. -/
theorem counter_alone (P : Policy) (programs : ι → Program) (i : ι) (mem : CounterSite → Bytes)
    (vars : Json) (hProgram : programs i = .counter mem vars) (n : Nat) (retval : StatusCode)
    (s : AddressSpace) :
    SharedRuns P programs s ((record P.server mem vars n retval s).map fun e => (i, e))
      (spaceAfter (mainLoop P.server mem vars n (start retval s))) := by
  have hMap := mainLoop_map (fun t => (P.server t).recorded_maps) mem vars n (start retval (s, []))
  have hTalks := mainLoop_talks P.server mem vars n retval s
  have hAnswered : Answered (Server.Serves P.server) s (record P.server mem vars n retval s)
      (spaceAfter (mainLoop P.server mem vars n (start retval s))) := by
    change mainLoop P.server mem vars n (start retval s) = _ at hMap
    rw [hMap, record]
    generalize mainLoop (fun t => (P.server t).recorded) mem vars n (start retval (s, [])) = outcome
      at hTalks
    cases outcome with
    | ok c => exact hTalks.answered
    | error e => exact hTalks.answered
  have hStart : SharedRuns P programs s [] s := .start
  apply (hAnswered.mono fun _ _ _ _ => Policy.server_grants).runs hStart
  intro l hPrefix
  change l ∈ (programs i).behaviour
  rw [hProgram]
  exact ⟨AddressSpace, P.server, n, retval, s, hPrefix⟩

theorem counter_alone_two : SharedRuns (SyncClient.plainPolicy true) twoCounters (counterSpace 5)
    ((record (SyncClient.plainPolicy true).server (fun _ => []) firstEntry 2 0 (counterSpace 5)).map
      fun e => (false, e))
    (spaceAfter (mainLoop (SyncClient.plainPolicy true).server (fun _ => []) firstEntry 2
      (start 0 (counterSpace 5)))) :=
  counter_alone (SyncClient.plainPolicy true) twoCounters false (fun _ => []) firstEntry rfl 2 0
    (counterSpace 5)

end CounterClient

namespace SyncClient

theorem sync_alone (P : Policy) (programs : ι → Program) (i : ι) (mem : Memory) (vars : List Json)
    (hProgram : programs i = .sync mem vars) (n : Nat) (s : AddressSpace) :
    SharedRuns P programs s ((record P.server mem vars n s).map fun e => (i, e))
      (Loop.outcome (mainLoop P.server mem vars n (start s))).server := by
  have hMap := mainLoop_map (fun t => (P.server t).recorded_maps) mem vars n (start (s, []))
  have hTalks := mainLoop_talks P.server mem vars n s
  have hAnswered : Answered (Server.Serves P.server) s (record P.server mem vars n s)
      (Loop.outcome (mainLoop P.server mem vars n (start s))).server := by
    change mainLoop P.server mem vars n (start s) = _ at hMap
    rw [hMap, record]
    generalize mainLoop (fun t => (P.server t).recorded) mem vars n (start (s, [])) = outcome
      at hTalks
    cases outcome with
    | ok c => exact hTalks.talks.answered
    | error c => exact hTalks.answered
  have hStart : SharedRuns P programs s [] s := .start
  apply (hAnswered.mono fun _ _ _ _ => Policy.server_grants).runs hStart
  intro l hPrefix
  change l ∈ (programs i).behaviour
  rw [hProgram]
  exact ⟨AddressSpace, P.server, n, s, hPrefix⟩

/-- The client for the entry and a counting client. -/
def syncBeside (i : Bool) : Program :=
  if i then .sync zeroMemory [entryOf "variable1" 5] else twoCounters i

theorem sync_alone_two : SharedRuns (plainPolicy true) syncBeside (CounterClient.counterSpace 5)
    ((record (plainPolicy true).server zeroMemory [entryOf "variable1" 5] 2
      (CounterClient.counterSpace 5)).map fun e => (true, e))
    (Loop.outcome (mainLoop (plainPolicy true).server zeroMemory [entryOf "variable1" 5] 2
      (start (CounterClient.counterSpace 5)))).server :=
  sync_alone (plainPolicy true) syncBeside true zeroMemory [entryOf "variable1" 5] rfl 2
    (CounterClient.counterSpace 5)

end SyncClient

end OpcConfig
