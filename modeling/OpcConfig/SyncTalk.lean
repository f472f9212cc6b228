import OpcConfig.Exchange
import OpcConfig.SyncTurn

/-! # What the synchronisation client says to its servers

For any servers, whatever they answer, and also in a run that is left before its
end. The reads of a pass go through the turns of its loops in their order, so the
number of reads since the browse says in which turn the client is.
-/

namespace OpcConfig.SyncClient

set_option autoImplicit false

open CString Loop Parties

/-! ## The turns of a pass that read -/

def reading (site : Site) (ref : ReferenceDescription) : List (Site × ReferenceDescription) :=
  if ref.nodeClass = .variable then [(site, ref)] else []

def turnReadings (t i k : Nat) (refs : List ReferenceDescription) : List (Site × ReferenceDescription) :=
  refs.zipIdx.flatMap fun (ref, j) => reading ⟨t, i, k, j⟩ ref

def resultReadings (n t i : Nat) (refs : List ReferenceDescription) :
    List (Site × ReferenceDescription) :=
  (List.range n).flatMap fun k => turnReadings t i k refs

/-- The turns of the pass `t` over `n` entries that read, and what they read. -/
def readings (n t : Nat) (results : List BrowseResult) : List (Site × ReferenceDescription) :=
  results.zipIdx.flatMap fun (result, i) => resultReadings n t i result.references

/-! ## The calls of a pass -/

/-- How often the client has tried to connect: once in each pass. -/
def passCount (calls : List Exchange) : Nat := calls.countP fun e => e.1 = .connect

def readId : Request → Option NodeId
  | .read nodeId => some nodeId
  | _ => none

/-- The pass `t` was opened with this response, and has read what these turns read. -/
def ReadSoFar (t : Nat) (response : BrowseResponse) (visited : List (Site × ReferenceDescription))
    (calls : List Exchange) : Prop :=
  ∃ earlier later, calls = earlier ++ (.connect, .status StatusCode.good) ::
      (.browse NodeId.objectsFolder, .browsed response) :: later ∧
    passCount earlier = t ∧ (∀ e ∈ later, e.1 ≠ .connect ∧ ∀ nodeId, e.1 ≠ .browse nodeId) ∧
    later.filterMap (fun e => readId e.1) = visited.map fun turn => turn.2.nodeId

/-- The last read of the client was in this turn of a pass over `n` entries. -/
def ReadAt (n : Nat) (calls : List Exchange) (site : Site) (ref : ReferenceDescription) : Prop :=
  ∃ response visited, visited ++ [(site, ref)] <+: readings n site.pass response.results ∧
    ReadSoFar site.pass response (visited ++ [(site, ref)]) calls

/-- After a connection, a write follows right after a read of the node, in whose
turn the client takes the display name for the name of the entry, and sends what
`CreateVariant` makes of the entry there. Every creation is the same. -/
def Allowed (mem : Memory) (vars : List Json) (before : List Exchange) : Request → Prop
  | .connect => True
  | .browse nodeId => Connected before ∧ nodeId = NodeId.objectsFolder
  | .read nodeId => Connected before ∧ ∃ ref, Referenced before ref ∧ ref.nodeId = nodeId
  | .write nodeId v => Connected before ∧ ∃ value, JustRead before nodeId value ∧
      ∃ site ref, ReadAt vars.length before site ref ∧ Referenced before ref ∧ ref.nodeId = nodeId ∧
        ∃ entry wanted, vars[site.entry]? = some entry ∧ entryName entry = .ok wanted ∧
          Hits mem site ref wanted ∧ createVariant (mem.slot site) entry (mem.newValue site) = .ok v
  | .addVariableNode request => Connected before ∧ request = creation

theorem turnReadings_snoc (t i k : Nat) (refs : List ReferenceDescription) (ref : ReferenceDescription) :
    turnReadings t i k (refs ++ [ref]) =
      turnReadings t i k refs ++ reading ⟨t, i, k, refs.length⟩ ref := by
  simp [turnReadings, List.zipIdx_append, List.flatMap_append]

theorem turnReadings_initial (t i k : Nat) (refs rest : List ReferenceDescription) :
    turnReadings t i k refs <+: turnReadings t i k (refs ++ rest) := by
  rw [turnReadings, turnReadings, List.zipIdx_append, List.flatMap_append]
  exact List.prefix_append _ _

theorem resultReadings_succ (n t i : Nat) (refs : List ReferenceDescription) :
    resultReadings (n + 1) t i refs = resultReadings n t i refs ++ turnReadings t i n refs := by
  simp [resultReadings, List.range_succ, List.flatMap_append]

theorem resultReadings_initial {k n : Nat} (h : k ≤ n) (t i : Nat) (refs : List ReferenceDescription) :
    resultReadings k t i refs <+: resultReadings n t i refs := by
  induction n, h using Nat.le_induction with
  | base => exact List.prefix_refl _
  | succ n _ ih =>
    rw [resultReadings_succ]
    exact ih.trans (List.prefix_append _ _)

theorem readings_snoc (n t : Nat) (results : List BrowseResult) (result : BrowseResult) :
    readings n t (results ++ [result]) =
      readings n t results ++ resultReadings n t results.length result.references := by
  simp [readings, List.zipIdx_append, List.flatMap_append]

theorem readings_initial (n t : Nat) (results rest : List BrowseResult) :
    readings n t results <+: readings n t (results ++ rest) := by
  rw [readings, readings, List.zipIdx_append, List.flatMap_append]
  exact List.prefix_append _ _

section

variable {t : Nat} {response : BrowseResponse} {visited : List (Site × ReferenceDescription)}
  {calls : List Exchange}

theorem passCount_snoc (calls : List Exchange) (e : Exchange) :
    passCount (calls ++ [e]) = passCount calls + if e.1 = .connect then 1 else 0 := by
  simp [passCount, List.countP_append, List.countP_cons]

theorem ReadSoFar.passCount (h : ReadSoFar t response visited calls) :
    passCount calls = t + 1 := by
  obtain ⟨earlier, later, rfl, rfl, hLater, _⟩ := h
  have hNone : later.countP (fun e => decide (e.1 = .connect)) = 0 := by
    rw [List.countP_eq_zero]
    intro e he
    rw [decide_eq_true_iff]
    exact (hLater e he).1
  simp [SyncClient.passCount, List.countP_append, hNone]

theorem ReadSoFar.read (h : ReadSoFar t response visited calls) (site : Site)
    (ref : ReferenceDescription) (a : Reply) :
    ReadSoFar t response (visited ++ [(site, ref)]) (calls ++ [(.read ref.nodeId, a)]) := by
  obtain ⟨earlier, later, rfl, hCount, hLater, hReads⟩ := h
  refine ⟨earlier, later ++ [(.read ref.nodeId, a)], by simp, hCount, ?_, ?_⟩
  · apply List.forall_mem_append.mpr ⟨hLater, fun e he => ?_⟩
    rw [List.mem_singleton.mp he]
    exact ⟨(fun hq => by cases hq), fun _ hq => by cases hq⟩
  · rw [List.filterMap_append, hReads, List.map_append]
    rfl

theorem ReadSoFar.snoc (h : ReadSoFar t response visited calls) {q : Request}
    (hConnect : q ≠ .connect) (hBrowse : ∀ nodeId, q ≠ .browse nodeId) (hRead : readId q = none)
    (a : Reply) : ReadSoFar t response visited (calls ++ [(q, a)]) := by
  obtain ⟨earlier, later, rfl, hCount, hLater, hReads⟩ := h
  refine ⟨earlier, later ++ [(q, a)], by simp, hCount, ?_, ?_⟩
  · apply List.forall_mem_append.mpr ⟨hLater, fun e he => ?_⟩
    rw [List.mem_singleton.mp he]
    exact ⟨hConnect, hBrowse⟩
  · simp [List.filterMap_append, hReads, hRead]

end

/-! ## The loops -/

variable {σ : Type} {srv : Nat → Server σ} {mem : Memory} {vars : List Json} {s : σ}
  {response : BrowseResponse}

/-- The state in a pass: the talk so far, and the turns that have read. -/
structure Visiting (srv : Nat → Server σ) (mem : Memory) (vars : List Json) (s : σ) (t : Nat)
    (response : BrowseResponse) (visited : List (Site × ReferenceDescription))
    (x : σ × List Exchange) : Prop where
  passing : Passing srv (Allowed mem vars) s response x
  soFar : ReadSoFar t response visited x.2

theorem referenceStep_talks {t i k j : Nat} {entry : Json} (hEntry : vars[k]? = some entry)
    {ref : ReferenceDescription} (hRef : ref ∈ response.references)
    {visited : List (Site × ReferenceDescription)}
    (hNext : visited ++ reading ⟨t, i, k, j⟩ ref <+: readings vars.length t response.results)
    {x : Progress (σ × List Exchange)} (h : Visiting srv mem vars s t response visited x.server) :
    Ends (fun x' => Visiting srv mem vars s t response (visited ++ reading ⟨t, i, k, j⟩ ref) x'.server)
      (fun x' => Talks srv (Allowed mem vars) s x'.server)
      (referenceStep (srv t).recorded mem entry ⟨t, i, k, j⟩ ref x) := by
  have hRead (hClass : ref.nodeClass = .variable) :
      Visiting srv mem vars s t response (visited ++ [(⟨t, i, k, j⟩, ref)])
        (readStep (srv t).recorded ⟨t, i, k, j⟩ ref x).2.server :=
    ⟨h.passing.read t ⟨h.passing.connected, ref, h.passing.referenced hClass hRef, rfl⟩,
      h.soFar.read _ _ _⟩
  have hOne (hClass : ref.nodeClass = .variable) :
      reading ⟨t, i, k, j⟩ ref = [(⟨t, i, k, j⟩, ref)] := if_pos hClass
  have hTurn := referenceStep_turn (srv t).recorded mem entry ⟨t, i, k, j⟩ ref x
  generalize referenceStep (srv t).recorded mem entry ⟨t, i, k, j⟩ ref x = outcome at hTurn
  cases hTurn with
  | skipped hClass =>
    rw [reading, if_neg hClass, List.append_nil]
    exact h
  | unread hClass hValue =>
    rw [hOne hClass]
    exact hRead hClass
  | thrown hClass hValue hReason => exact (hRead hClass).passing.talks
  | missed hClass hValue hName hHits hReport =>
    rw [hOne hClass]
    exact hRead hClass
  | broken hClass hValue hName hHits hReport => exact (hRead hClass).passing.talks
  | @hit hClass value newValue wanted hValue hName hHits hVariant =>
    rw [hOne hClass] at hNext ⊢
    have hJust : JustRead (readStep (srv t).recorded ⟨t, i, k, j⟩ ref x).2.server.2 ref.nodeId value :=
      ⟨x.server.2, _, rfl, hValue⟩
    have hAt : ReadAt vars.length (readStep (srv t).recorded ⟨t, i, k, j⟩ ref x).2.server.2
        ⟨t, i, k, j⟩ ref := ⟨response, visited, hNext, (hRead hClass).soFar⟩
    have hAllowed : Allowed mem vars (readStep (srv t).recorded ⟨t, i, k, j⟩ ref x).2.server.2
        (.write ref.nodeId newValue) :=
      ⟨(hRead hClass).passing.connected, value, hJust, _, ref, hAt,
        (hRead hClass).passing.referenced hClass hRef, rfl, entry, wanted, hEntry, hName, hHits, hVariant⟩
    exact ⟨(hRead hClass).passing.write t hAllowed,
      (hRead hClass).soFar.snoc (fun hq => by cases hq) (fun _ hq => by cases hq) rfl _⟩

theorem referenceLoop_talks {t i k : Nat} {entry : Json} (hEntry : vars[k]? = some entry)
    {refs : List ReferenceDescription} (hRefs : ∀ ref ∈ refs, ref ∈ response.references)
    {visited : List (Site × ReferenceDescription)}
    (hNext : visited ++ turnReadings t i k refs <+: readings vars.length t response.results)
    {x : Progress (σ × List Exchange)} (h : Visiting srv mem vars s t response visited x.server) :
    Ends (fun x' => Visiting srv mem vars s t response (visited ++ turnReadings t i k refs) x'.server)
      (fun x' => Talks srv (Allowed mem vars) s x'.server)
      (referenceLoop (srv t).recorded mem entry t i k refs x) := by
  apply forEach_ends (I := fun done (x : Progress (σ × List Exchange)) =>
    Visiting srv mem vars s t response (visited ++ turnReadings t i k done) x.server)
  · intro done ref rest x' hSplit hx
    have hSoFar : visited ++ turnReadings t i k (done ++ [ref]) <+:
        readings vars.length t response.results := by
      apply List.IsPrefix.trans _ hNext
      have hRest : refs = (done ++ [ref]) ++ rest := by simp [hSplit]
      rw [List.prefix_append_right_inj, hRest]
      exact turnReadings_initial _ _ _ _ _
    rw [turnReadings_snoc, ← List.append_assoc] at hSoFar
    have hStep := referenceStep_talks (j := done.length) hEntry
      (hRefs ref (hSplit ▸ List.mem_append_right _ List.mem_cons_self)) hSoFar hx
    rwa [Nat.zero_add, turnReadings_snoc, ← List.append_assoc]
  · rwa [turnReadings, List.zipIdx_nil, List.flatMap_nil, List.append_nil]

theorem entryStep_talks {t i k : Nat} {entry : Json} (hEntry : vars[k]? = some entry)
    {refs : List ReferenceDescription} (hRefs : ∀ ref ∈ refs, ref ∈ response.references)
    {visited : List (Site × ReferenceDescription)}
    (hNext : visited ++ turnReadings t i k refs <+: readings vars.length t response.results)
    {c : Client (σ × List Exchange)} (h : Visiting srv mem vars s t response visited c.server) :
    Ends (fun c' => Visiting srv mem vars s t response (visited ++ turnReadings t i k refs) c'.server)
      (fun c' => Talks srv (Allowed mem vars) s c'.server)
      (entryStep (srv t).recorded mem t response i refs k entry c) := by
  have hLoop := referenceLoop_talks hEntry hRefs hNext (x := startTurn c) h
  rw [entryStep]
  generalize referenceLoop (srv t).recorded mem entry t i k refs (startTurn c) = outcome at hLoop
  cases outcome with
  | error x => exact hLoop
  | ok x =>
    dsimp only
    split
    · cases entryName entry with
      | error e => exact hLoop.passing.talks
      | ok name =>
        exact ⟨hLoop.passing.addVariableNode t ⟨hLoop.passing.connected, rfl⟩,
          hLoop.soFar.snoc (fun hq => by cases hq) (fun _ hq => by cases hq) rfl _⟩
    · exact hLoop

theorem entryLoop_talks {t i : Nat} {refs : List ReferenceDescription}
    (hRefs : ∀ ref ∈ refs, ref ∈ response.references)
    {visited : List (Site × ReferenceDescription)}
    (hNext : visited ++ resultReadings vars.length t i refs <+:
      readings vars.length t response.results)
    {c : Client (σ × List Exchange)} (h : Visiting srv mem vars s t response visited c.server) :
    Ends (fun c' => Visiting srv mem vars s t response
        (visited ++ resultReadings vars.length t i refs) c'.server)
      (fun c' => Talks srv (Allowed mem vars) s c'.server)
      (entryLoop (srv t).recorded mem vars t response i refs c) := by
  apply forEach_ends (I := fun (done : List Json) (c : Client (σ × List Exchange)) =>
    Visiting srv mem vars s t response (visited ++ resultReadings done.length t i refs) c.server)
  · intro done entry rest c' hSplit hc
    have hSoFar : visited ++ resultReadings (done.length + 1) t i refs <+:
        readings vars.length t response.results := by
      apply List.IsPrefix.trans _ hNext
      rw [List.prefix_append_right_inj]
      exact resultReadings_initial (by simp [hSplit]) t i refs
    rw [resultReadings_succ, ← List.append_assoc] at hSoFar
    have hEntry : vars[done.length]? = some entry := by simp [hSplit]
    have hStep := entryStep_talks hEntry hRefs hSoFar hc
    rwa [Nat.zero_add, List.length_append, List.length_singleton, resultReadings_succ,
      ← List.append_assoc]
  · rwa [List.length_nil, resultReadings, List.range_zero, List.flatMap_nil, List.append_nil]

/-- The state between two passes. -/
structure Passed (srv : Nat → Server σ) (mem : Memory) (vars : List Json) (s : σ) (t : Nat)
    (x : σ × List Exchange) : Prop where
  talks : Talks srv (Allowed mem vars) s x
  count : passCount x.2 = t

theorem pass_talks {t : Nat} {c : Client (σ × List Exchange)} {before : List Exchange}
    (h : Talks srv (Allowed mem vars) s c.server) (hCount : passCount before = t)
    (hConnected : c.server.2 = before ++ [(.connect, .status StatusCode.good)]) :
    Ends (fun c' => Passed srv mem vars s (t + 1) c'.server)
      (fun c' => Talks srv (Allowed mem vars) s c'.server) (pass (srv t).recorded mem vars t c) := by
  have hStands : Connected c.server.2 := hConnected ▸ connected_snoc_good before
  let response := ((srv t).browse NodeId.objectsFolder c.server.1).1
  have hBrowsed : Visiting srv mem vars s t response [] (getResponse (srv t).recorded c.server).2 := by
    refine ⟨.start h t hStands ⟨hStands, rfl⟩, before, [], ?_, hCount, (fun _ h => by cases h), rfl⟩
    change c.server.2 ++ _ = _
    rw [hConnected, List.append_assoc]
    rfl
  have hLoop : Ends
      (fun c' => Visiting srv mem vars s t response (readings vars.length t response.results) c'.server)
      (fun c' => Talks srv (Allowed mem vars) s c'.server)
      (forEach (fun i result c' => entryLoop (srv t).recorded mem vars t response i result.references c')
        response.results 0 { c with server := (getResponse (srv t).recorded c.server).2 }) := by
    apply forEach_ends (I := fun done (c' : Client (σ × List Exchange)) =>
      Visiting srv mem vars s t response (readings vars.length t done) c'.server)
    · intro done result rest c' hSplit hc
      have hSoFar : readings vars.length t (done ++ [result]) <+:
          readings vars.length t response.results := by
        have hRest : response.results = (done ++ [result]) ++ rest := by simp [hSplit]
        rw [hRest]
        exact readings_initial _ _ _ _
      rw [readings_snoc] at hSoFar ⊢
      rw [Nat.zero_add]
      apply entryLoop_talks (fun ref hRef => ?_) hSoFar hc
      exact List.mem_flatMap.mpr
        ⟨result, hSplit ▸ List.mem_append_right _ List.mem_cons_self, hRef⟩
    · exact hBrowsed
  rw [pass]
  apply hLoop.bind
  intro c' hc
  exact ⟨hc.passing.talks, hc.soFar.passCount⟩

theorem iteration_talks (t : Nat) {c : Client (σ × List Exchange)}
    (h : Passed srv mem vars s t c.server) :
    Ends (fun c' => Passed srv mem vars s (t + 1) c'.server)
      (fun c' => Talks srv (Allowed mem vars) s c'.server)
      (iteration (srv t).recorded mem vars t c) := by
  have hTalks := h.talks.connect t trivial
  have hCount : passCount ((srv t).recorded.connect c.server).2.2 = t + 1 := by
    change passCount (c.server.2 ++ [(.connect, .status ((srv t).connect c.server.1).1)]) = _
    rw [passCount_snoc, h.count]
    rfl
  rw [iteration]
  split
  · exact ⟨hTalks, hCount⟩
  · split
    · exact ⟨hTalks, hCount⟩
    · rename_i hGood
      have hGood : ((srv t).connect c.server.1).1 = StatusCode.good := not_not.mp hGood
      apply pass_talks (c := { c with
        server := ((srv t).recorded.connect c.server).2
        retval := ((srv t).recorded.connect c.server).1 }) hTalks h.count
      rw [← hGood]
      rfl

theorem mainLoop_talks (srv : Nat → Server σ) (mem : Memory) (vars : List Json) (n : Nat) (s : σ) :
    Ends (fun c => Passed srv mem vars s n c.server)
      (fun c => Talks srv (Allowed mem vars) s c.server)
      (mainLoop (fun t => (srv t).recorded) mem vars n (start (s, []))) :=
  repeated_ends (I := fun t (c : Client (σ × List Exchange)) => Passed srv mem vars s t c.server)
    (fun t _ h => iteration_talks t h) ⟨Talks.start srv (Allowed mem vars) s, rfl⟩ n

theorem outcome_talks (srv : Nat → Server σ) (mem : Memory) (vars : List Json) (n : Nat) (s : σ) :
    Talks srv (Allowed mem vars) s
      (outcome (mainLoop (fun t => (srv t).recorded) mem vars n (start (s, [])))).server :=
  Ends.outcome (p := fun c : Client (σ × List Exchange) => Talks srv (Allowed mem vars) s c.server)
    ((mainLoop_talks srv mem vars n s).imp (fun _ h => h.talks) fun _ h => h)

/-- What the client has said when its run ends, in an exception or not. -/
def record (srv : Nat → Server σ) (mem : Memory) (vars : List Json) (n : Nat) (s : σ) :
    List Exchange :=
  (outcome (mainLoop (fun t => (srv t).recorded) mem vars n (start (s, [])))).server.2

theorem record_lawful (srv : Nat → Server σ) (mem : Memory) (vars : List Json) (n : Nat) (s : σ) :
    Lawful (Allowed mem vars) (record srv mem vars n s) :=
  (outcome_talks srv mem vars n s).lawful

/-- Whatever its servers answer, each call of the client is allowed by what it
has been told before. -/
theorem sync_talks (srv : Nat → Server σ) (mem : Memory) (vars : List Json) (n : Nat) (s : σ) :
    Lawful (Allowed mem vars) (record srv mem vars n s) ∧
      ∃ s', Answered (Server.Serves srv) s (record srv mem vars n s) s' :=
  ⟨record_lawful srv mem vars n s, _, (outcome_talks srv mem vars n s).answered⟩

/-- All that a client may have said at some point of a run, to any servers. -/
def behaviour (mem : Memory) (vars : List Json) : Set (List Exchange) :=
  { l | ∃ (σ : Type) (srv : Nat → Server σ) (n : Nat) (s : σ), l <+: record srv mem vars n s }

theorem behaviour_lawful {l : List Exchange} (h : l ∈ behaviour mem vars) :
    Lawful (Allowed mem vars) l := by
  obtain ⟨σ, srv, n, s, hPrefix⟩ := h
  exact (record_lawful srv mem vars n s).initial hPrefix

end OpcConfig.SyncClient
