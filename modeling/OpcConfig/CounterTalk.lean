import OpcConfig.Exchange
import OpcConfig.CounterClient

/-! # What the counting client says to its servers

For any servers, whatever they answer, and also in a run that ends in a fault.
-/

namespace OpcConfig.CounterClient

set_option autoImplicit false

open CString Loop Parties

/-- After a connection, a write is one more than the value that the call before it
read of the same node, and a variable is created once and before any other call. -/
def Allowed (before : List Exchange) : Request → Prop
  | .connect => True
  | .browse nodeId => Connected before ∧ nodeId = NodeId.objectsFolder
  | .read nodeId => Connected before ∧ ∃ ref, Referenced before ref ∧ ref.nodeId = nodeId
  | .write nodeId v => Connected before ∧ ∃ value n, JustRead before nodeId value ∧
      value.first = some (.int32 n) ∧ n ≠ Int32.maxValue ∧ v = .scalar (.int32 (n + 1))
  | .addVariableNode request => Connected before ∧
      request = creation (ascii "name") UaType.int32.typeId ∧ ∀ e ∈ before, e.1 = .connect

variable {σ : Type} {srv : Nat → Server σ} {s : σ} {response : BrowseResponse}

theorem setField_server (key : String) (element : Json) (x : Gathering (σ × List Exchange)) :
    Ends (fun x' => x'.server = x.server) (fun e => e.2.server = x.server)
      (setField key element x) := by
  rw [setField]
  cases Nlohmann.setAt x.dataValue x.count (ascii key) element with
  | error e => rfl
  | ok dataValue => rfl

theorem int32Step_talks (t : Nat) {nodeId : NodeId} {value : Variant}
    {x : Gathering (σ × List Exchange)} (h : Passing srv Allowed s response x.server)
    (hRead : JustRead x.server.2 nodeId value) :
    Ends (fun x' => Passing srv Allowed s response x'.server) (fun e => Passing srv Allowed s response e.2.server)
      (int32Step (srv t).recorded nodeId value x) := by
  rw [int32Step]
  split
  · cases hFirst : value.first with
    | none => exact h
    | some v =>
      cases v with
      | int32 rawDate =>
        apply (setField_server "value" (.ofInt32 rawDate) x).imp _ (fun e hServer => hServer ▸ h) |>.bind
        · exact fun x' hServer => hServer
        intro x' hServer
        dsimp only
        split
        · exact (congrArg _ hServer).mpr h
        · rename_i hRoom
          rw [← hServer] at h hRead
          have hAllowed : Allowed x'.server.2 (.write nodeId (.scalar (.int32 (rawDate + 1)))) :=
            ⟨h.connected, value, rawDate, hRead, hFirst, hRoom, rfl⟩
          exact h.write t hAllowed
      | _ => exact h
  · exact h

theorem doubleStep_server (value : Variant) (x : Gathering (σ × List Exchange)) :
    Ends (fun x' => x'.server = x.server) (fun e => e.2.server = x.server) (doubleStep value x) := by
  rw [doubleStep]
  split
  · cases value.first with
    | none => rfl
    | some v =>
      cases v with
      | double d => exact setField_server "value" (.double d) x
      | _ => rfl
  · rfl

theorem referenceStep_talks (t : Nat) (mem : CounterSite → Bytes) (site : CounterSite)
    {ref : ReferenceDescription} (hRef : ref ∈ response.references)
    {x : Gathering (σ × List Exchange)} (h : Passing srv Allowed s response x.server) :
    Ends (fun x' => Passing srv Allowed s response x'.server) (fun e => Passing srv Allowed s response e.2.server)
      (referenceStep (srv t).recorded mem site ref x) := by
  rw [referenceStep]
  split
  · exact h
  · rename_i hClass
    have hReferenced := h.referenced (not_not.mp hClass) hRef
    have hRead : Passing srv Allowed s response (readStep (srv t).recorded ref x).2.server :=
      h.read t ⟨h.connected, ref, hReferenced, rfl⟩
    dsimp only
    cases hValue : (readStep (srv t).recorded ref x).1.value with
    | none => exact hRead
    | some value =>
      have hJust : JustRead (readStep (srv t).recorded ref x).2.server.2 ref.nodeId value :=
        ⟨x.server.2, _, rfl, hValue⟩
      apply ((setField_server "name" _ _).imp (fun _ hx => hx) (fun e he => he ▸ hRead)).bind
      intro x₁ h₁
      rw [← h₁] at hRead hJust
      apply (int32Step_talks t hRead hJust).bind
      intro x₂ h₂
      apply ((doubleStep_server value x₂).imp (fun _ hx => hx) (fun e he => he ▸ h₂)).bind
      intro x₃ h₃
      exact (congrArg _ h₃).mpr h₂

theorem resultStep_talks (t i : Nat) (mem : CounterSite → Bytes) {result : BrowseResult}
    (hResult : result ∈ response.results) {c : Counter (σ × List Exchange)}
    (h : Passing srv Allowed s response c.server) :
    Ends (fun c' => Passing srv Allowed s response c'.server ∧ c'.one = c.one)
      (fun e => Passing srv Allowed s response e.2.server) (resultStep (srv t).recorded mem t i result c) := by
  have hLoop : Ends (fun x => Passing srv Allowed s response x.server)
      (fun e => Passing srv Allowed s response e.2.server)
      (referenceLoop (srv t).recorded mem t i result.references (startResult c)) := by
    rw [referenceLoop]
    apply forEach_preserves (I := fun x : Gathering (σ × List Exchange) => Passing srv Allowed s response x.server)
    · intro j ref x hRef hx
      have hMem : ref ∈ response.references :=
        List.mem_flatMap.mpr ⟨result, hResult, List.mem_of_getElem? hRef⟩
      exact referenceStep_talks t mem _ hMem hx
    · exact h
  rw [resultStep]
  generalize referenceLoop (srv t).recorded mem t i result.references (startResult c) = outcome at hLoop
  cases outcome with
  | error e => exact hLoop
  | ok x =>
    dsimp only
    cases Nlohmann.dump x.dataValue with
    | error e => exact hLoop
    | ok printed => exact ⟨hLoop, rfl⟩

/-- As long as the creation is to come the client has only tried to connect. -/
structure Talking (srv : Nat → Server σ) (s : σ) (c : Counter (σ × List Exchange)) : Prop where
  talks : Talks srv Allowed s c.server
  waiting : c.one = true → ∀ e ∈ c.server.2, e.1 = .connect

theorem pass_talks (t : Nat) (mem : CounterSite → Bytes) {c : Counter (σ × List Exchange)}
    (h : Talks srv Allowed s c.server) (hConnected : Connected c.server.2) (hOne : c.one = false) :
    Ends (Talking srv s) (fun e => Talks srv Allowed s e.2.server)
      (pass (srv t).recorded mem t c) := by
  have hBrowsed : Passing srv Allowed s ((srv t).browse NodeId.objectsFolder c.server.1).1
      (getResponse (srv t).recorded c.server).2 := .start h t hConnected ⟨hConnected, rfl⟩
  let response := ((srv t).browse NodeId.objectsFolder c.server.1).1
  have hLoop : Ends (fun c' => Passing srv Allowed s response c'.server ∧ c'.one = c.one)
      (fun e => Passing srv Allowed s response e.2.server)
      (forEach (resultStep (srv t).recorded mem t) response.results 0
        { c with server := (getResponse (srv t).recorded c.server).2 }) := by
    apply forEach_preserves (I := fun c' : Counter (σ × List Exchange) =>
      Passing srv Allowed s response c'.server ∧ c'.one = c.one)
    · intro i result c' hResult hc
      exact (resultStep_talks t i mem (List.mem_of_getElem? hResult) hc.1).imp
        (fun _ h' => ⟨h'.1, h'.2.trans hc.2⟩) (fun _ h' => h')
    · exact ⟨hBrowsed, rfl⟩
  apply hLoop.imp _ (fun _ h' => h'.talks)
  rintro c' ⟨hPassing, hSame⟩
  refine ⟨hPassing.talks, fun hTrue => ?_⟩
  rw [hSame, hOne] at hTrue
  cases hTrue

theorem createFirst_talks (t : Nat) (vars : Json) {c : Counter (σ × List Exchange)}
    (h : Talking srv s c) (hConnected : Connected c.server.2) (hOne : c.one = true) :
    Ends (fun c' => Talks srv Allowed s c'.server ∧ Connected c'.server.2 ∧ c'.one = false)
      (fun e => Talks srv Allowed s e.2.server) (createFirst (srv t).recorded vars c) := by
  rw [createFirst]
  cases Nlohmann.stringAt vars 0 (ascii "name") with
  | error e => exact h.talks
  | ok varName =>
    refine ⟨h.talks.addVariableNode t ⟨hConnected, rfl, h.waiting hOne⟩, ?_, rfl⟩
    exact hConnected.snoc (fun hq => by cases hq) _

theorem iteration_talks (t : Nat) (mem : CounterSite → Bytes) (vars : Json)
    {c : Counter (σ × List Exchange)} (h : Talking srv s c) :
    Ends (Talking srv s) (fun e => Talks srv Allowed s e.2.server)
      (iteration (srv t).recorded mem vars t c) := by
  have hTalking : Talking srv s { c with
      server := ((srv t).recorded.connect c.server).2
      retval := ((srv t).recorded.connect c.server).1 } := by
    refine ⟨h.talks.connect t trivial, fun hOne e he => ?_⟩
    rcases List.mem_append.mp he with he | he
    · exact h.waiting hOne e he
    · rw [List.mem_singleton.mp he]
  rw [iteration]
  dsimp only
  split
  · exact hTalking
  · split
    · exact hTalking
    · rename_i hGood
      have hConnected := connected_of_good (not_not.mp hGood)
      split
      · rename_i hOne
        exact (createFirst_talks t vars hTalking hConnected hOne).bind
          fun c' h' => pass_talks t mem h'.1 h'.2.1 h'.2.2
      · rename_i hOne
        exact pass_talks t mem hTalking.talks hConnected (Bool.eq_false_iff.mpr hOne)

/-- The client at its beginning, with whatever `retval` has there. -/
def start (retval : StatusCode) (s : σ) : Counter σ :=
  { server := s, retval := retval, one := true, printed := [] }

theorem mainLoop_talks (srv : Nat → Server σ) (mem : CounterSite → Bytes) (vars : Json) (n : Nat)
    (retval : StatusCode) (s : σ) :
    Ends (fun c => Talks srv Allowed s c.server) (fun e => Talks srv Allowed s e.2.server)
      (mainLoop (fun t => (srv t).recorded) mem vars n (start retval (s, []))) := by
  have hStart : Talking srv s (start retval (s, [])) :=
    ⟨.start srv Allowed s, fun _ e he => absurd he List.not_mem_nil⟩
  exact (repeated_ends (I := fun _ => Talking srv s)
    (fun t c h => iteration_talks t mem vars h) hStart n).imp (fun _ h => h.talks) (fun _ h => h)

/-- What the client has said when its run ends, in a fault or not. -/
def record (srv : Nat → Server σ) (mem : CounterSite → Bytes) (vars : Json) (n : Nat)
    (retval : StatusCode) (s : σ) : List Exchange :=
  match mainLoop (fun t => (srv t).recorded) mem vars n (start retval (s, [])) with
  | .ok c => c.server.2
  | .error (_, c) => c.server.2

theorem record_lawful (srv : Nat → Server σ) (mem : CounterSite → Bytes) (vars : Json) (n : Nat)
    (retval : StatusCode) (s : σ) : Lawful Allowed (record srv mem vars n retval s) := by
  have h := mainLoop_talks srv mem vars n retval s
  rw [record]
  generalize mainLoop (fun t => (srv t).recorded) mem vars n (start retval (s, [])) = outcome at h
  cases outcome with
  | ok c => exact h.lawful
  | error e => exact h.lawful

theorem record_answered (srv : Nat → Server σ) (mem : CounterSite → Bytes) (vars : Json) (n : Nat)
    (retval : StatusCode) (s : σ) :
    ∃ s', Answered (Server.Serves srv) s (record srv mem vars n retval s) s' := by
  have h := mainLoop_talks srv mem vars n retval s
  rw [record]
  generalize mainLoop (fun t => (srv t).recorded) mem vars n (start retval (s, [])) = outcome at h
  cases outcome with
  | ok c => exact ⟨_, h.answered⟩
  | error e => exact ⟨_, h.answered⟩

/-- Whatever its servers answer, each call of the client is allowed by what it
has been told before. -/
theorem counter_talks (srv : Nat → Server σ) (mem : CounterSite → Bytes) (vars : Json) (n : Nat)
    (retval : StatusCode) (s : σ) :
    Lawful Allowed (record srv mem vars n retval s) ∧
      ∃ s', Answered (Server.Serves srv) s (record srv mem vars n retval s) s' :=
  ⟨record_lawful srv mem vars n retval s, record_answered srv mem vars n retval s⟩

/-- All that a client may have said at some point of a run, to any servers. -/
def behaviour (mem : CounterSite → Bytes) (vars : Json) : Set (List Exchange) :=
  { l | ∃ (σ : Type) (srv : Nat → Server σ) (n : Nat) (retval : StatusCode) (s : σ),
      l <+: record srv mem vars n retval s }

theorem behaviour_lawful {mem : CounterSite → Bytes} {vars : Json} {l : List Exchange}
    (h : l ∈ behaviour mem vars) : Lawful Allowed l := by
  obtain ⟨σ, srv, n, retval, s, hPrefix⟩ := h
  exact (record_lawful srv mem vars n retval s).initial hPrefix

end OpcConfig.CounterClient
