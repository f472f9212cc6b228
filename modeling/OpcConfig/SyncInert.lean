import OpcConfig.SyncUpdate

/-! # Elements of an unsupported kind

For a value that is null, missing, an array or an object `CreateVariant` leaves
`newValue` as it was. The turn of such an element still sends what it finds there,
or asks for a node, unless it ends the program first; then the elements after it
get no turn. A pass is compared with the one over the other elements, in which
every other turn finds the same memory.
-/

namespace OpcConfig.SyncClient

set_option autoImplicit false

open CString Loop LastWrite

/-- The value is null, missing, an array or an object. -/
def Unsupported (json : Json) : Prop :=
  ∀ value, json.index (ascii "value") = .ok value → ¬ value.Supported

/-- The client when a pass ends or is left. -/
def passEnd (P : Policy) (mem : Memory) (vars : List Json) (t : Nat) (c : Client AddressSpace) :
    Client AddressSpace :=
  outcome (iteration (P.server t) mem vars t c)

/-! ## The turns of a pass without an element -/

/-- Where the turn of a pass without the element `k` is in the pass with it. -/
def skipSite (k : Nat) (site : Site) : Site :=
  { site with entry := if site.entry < k then site.entry else site.entry + 1 }

def skipMemory (k : Nat) (mem : Memory) : Memory :=
  { nameBlock := fun site => mem.nameBlock (skipSite k site)
    keyBlock := fun site => mem.keyBlock (skipSite k site)
    textBlock := fun site => mem.textBlock (skipSite k site)
    newValue := fun site => mem.newValue (skipSite k site)
    slot := fun site => mem.slot (skipSite k site) }

section

variable {P : Policy} {mem : Memory} {s : AddressSpace} {t : Nat} {refs : List ReferenceDescription}

theorem elementRun_skip (k i : Nat) (json : Json) (x : Effects) :
    elementRun P (skipMemory k mem) s t refs i json x =
      elementRun P mem s t refs (if i < k then i else i + 1) json x := rfl

theorem passRun_skip_before (P : Policy) (mem : Memory) (s : AddressSpace) (t : Nat)
    (refs : List ReferenceDescription) (vars : List Json) {k i : Nat} (hk : i + vars.length ≤ k)
    (x : Effects) :
    passRun P (skipMemory k mem) s t refs vars i x = passRun P mem s t refs vars i x := by
  induction vars generalizing i x with
  | nil => rfl
  | cons json vars ih =>
    rw [List.length_cons] at hk
    have hLt : i < k := by omega
    rw [passRun, passRun, forEach_cons, forEach_cons, elementRun_skip, if_pos hLt]
    congr 1
    funext y
    exact ih (by omega) y

theorem passRun_skip_later (vars : List Json) {k i : Nat} (hi : k ≤ i) (x : Effects) :
    passRun P (skipMemory k mem) s t refs vars i x = passRun P mem s t refs vars (i + 1) x := by
  induction vars generalizing i x with
  | nil => rfl
  | cons json vars ih =>
    rw [passRun, passRun, forEach_cons, forEach_cons, elementRun_skip, if_neg (Nat.not_lt.mpr hi)]
    congr 1
    funext y
    exact ih (Nat.le_succ_of_le hi) y

theorem passRun_with (before later : List Json) (json : Json) :
    passRun P mem s t refs (before ++ json :: later) 0 ⟨[], false⟩ = (do
      let x ← passRun P mem s t refs before 0 ⟨[], false⟩
      let x ← elementRun P mem s t refs before.length json x
      passRun P mem s t refs later (before.length + 1) x) := by
  rw [passRun, forEach_append, Nat.zero_add]
  rfl

theorem passRun_without (before later : List Json) :
    passRun P (skipMemory before.length mem) s t refs (before ++ later) 0 ⟨[], false⟩ = (do
      let x ← passRun P mem s t refs before 0 ⟨[], false⟩
      passRun P mem s t refs later (before.length + 1) x) := by
  have hBefore := passRun_skip_before P mem s t refs before
    (Nat.le_of_eq (Nat.zero_add before.length)) ⟨[], false⟩
  rw [passRun] at hBefore ⊢
  rw [forEach_append, hBefore, Nat.zero_add]
  congr 1
  funext x
  exact passRun_skip_later later (Nat.le_refl _) x

/-- A pass that gets past some elements has found a name in each. -/
theorem entries_of_passRun {vars : List Json} {k : Nat} {x y : Effects}
    (h : passRun P mem s t refs vars k x = .ok y) :
    ∃ entries : List Entry, vars = entries.map Entry.json := by
  induction vars generalizing k x with
  | nil => exact ⟨[], rfl⟩
  | cons json vars ih =>
    obtain ⟨x', hFirst, hRest⟩ := bind_eq_ok h
    obtain ⟨entries, rfl⟩ := ih hRest
    rw [elementRun] at hFirst
    cases hEntry : readEntry json with
    | none =>
      rw [hEntry] at hFirst
      cases hFirst
    | some e => exact ⟨e :: entries, by rw [List.map_cons, readEntry_eq_some hEntry]⟩

/-! ## Turns that are left -/

/-- The turn of the element ends the program before it has assigned anything: the
element has no name, or a value is reported first that lacks its element. -/
def EndsFirst (P : Policy) (mem : Memory) (s : AddressSpace) (t : Nat)
    (refs : List ReferenceDescription) (k : Nat) (json : Json) (l : List (NodeId × Variant)) : Prop :=
  readEntry json = none ∨ ∃ e j ref, readEntry json = some e ∧ refs[j]? = some ref ∧
    turnAssignments mem s e t k (refs.take j) = [] ∧ BreaksAt P mem s l e ⟨t, 0, k, j⟩ ref

theorem turnAssignments_take_nil {e : Entry} {k i j : Nat} (hLe : i ≤ j)
    (hNone : turnAssignments mem s e t k (refs.take j) = []) :
    turnAssignments mem s e t k (refs.take i) = [] := by
  rw [List.eq_nil_iff_forall_not_mem] at hNone ⊢
  intro a ha
  obtain ⟨ref, n, hRef, hRest⟩ := mem_turnAssignments.mp ha
  rw [List.getElem?_take] at hRef
  split at hRef
  · rename_i hLess
    refine hNone a (mem_turnAssignments.mpr ⟨ref, n, ?_, hRest⟩)
    rw [List.getElem?_take, if_pos (Nat.lt_of_lt_of_le hLess hLe), hRef]
  · cases hRef

theorem turnRun_error_iff (P : Policy) (mem : Memory) (s : AddressSpace) (t : Nat)
    (refs : List ReferenceDescription) (e : Entry) (k : Nat) (l : List (NodeId × Variant)) :
    turnRun P mem s t refs e k l = .error l ↔ ∃ j ref, refs[j]? = some ref ∧
      turnAssignments mem s e t k (refs.take j) = [] ∧ BreaksAt P mem s l e ⟨t, 0, k, j⟩ ref := by
  have hTurn := turnRun_ends P mem s t refs e k l
  constructor
  · intro hRun
    rw [hRun] at hTurn
    obtain ⟨j, hLeaves⟩ := hTurn
    obtain ⟨ref, hRef, hBreaks⟩ := hLeaves.breaks
    exact ⟨j, ref, hRef, List.self_eq_append_right.mp hLeaves.assignments, hBreaks⟩
  · rintro ⟨j, ref, hRef, hNone, hBreaks⟩
    have hAt : BreaksAt P mem s (l ++ turnAssignments mem s e t k (refs.take j)) e ⟨t, 0, k, j⟩ ref := by
      rwa [hNone, List.append_nil]
    cases hRun : turnRun P mem s t refs e k l with
    | ok l' =>
      rw [hRun] at hTurn
      exact absurd ⟨j, ref, hRef, hAt⟩ hTurn.2
    | error l' =>
      rw [hRun] at hTurn
      obtain ⟨i, hLeaves⟩ := hTurn
      have hLe : i ≤ j := by
        by_contra hLess
        exact hLeaves.first j (Nat.lt_of_not_le hLess) ref hRef hAt
      have hSame := hLeaves.assignments
      rw [turnAssignments_take_nil hLe hNone, List.append_nil] at hSame
      rw [hSame]

theorem elementRun_error_iff {k : Nat} {json : Json} {x : Effects} :
    elementRun P mem s t refs k json x = .error x ↔
      EndsFirst P mem s t refs k json x.assignments := by
  rw [elementRun, EndsFirst]
  cases hEntry : readEntry json with
  | none => exact iff_of_true rfl (Or.inl rfl)
  | some e =>
    have hTurn := turnRun_error_iff P mem s t refs e k x.assignments
    dsimp only
    constructor
    · intro hError
      cases hRun : turnRun P mem s t refs e k x.assignments with
      | ok l =>
        rw [hRun] at hError
        cases hError
      | error l =>
        rw [hRun] at hError
        have hSame : l = x.assignments := congrArg Effects.assignments (Except.error.inj hError)
        rw [hSame] at hRun
        obtain ⟨j, ref, hBreaks⟩ := hTurn.mp hRun
        exact Or.inr ⟨e, j, ref, rfl, hBreaks⟩
    · rintro (hNone | ⟨e', j, ref, hSame, hBreaks⟩)
      · cases hNone
      · cases hSame
        rw [hTurn.mpr ⟨j, ref, hBreaks⟩]

/-! ## What a turn sends -/

theorem entryStep_visit (mem : Memory) (t : Nat)
    (hRefs : ∀ ref ∈ refs, ∃ node, s.nodes ref.nodeId = some node ∧
      ref.nodeClass = node.nodeClass) {c : Client AddressSpace} {x : Effects} (h : PassSpace P s c x)
    (response : BrowseResponse) (k : Nat) (json : Json) :
    ∃ v : Visit, (outcome (entryStep (P.server t) mem t response 0 refs k json c)).log = c.log ++ [v] ∧
      v.pass = t ∧ v.entry = k ∧ (v.writes = [] ∧ v.created = [] ↔
        elementRun P mem s t refs k json x = .error x) := by
  rw [entryStep, elementRun]
  cases hEntry : readEntry json with
  | none =>
    have hLoop := referenceLoop_unnamed P mem t k hEntry refs h.blank
    cases hRun : referenceLoop (P.server t) mem json t 0 k refs (startTurn c) with
    | error y =>
      rw [hRun] at hLoop
      exact ⟨_, rfl, rfl, rfl, iff_of_true ⟨hLoop.2.2, rfl⟩ rfl⟩
    | ok y =>
      rw [hRun] at hLoop
      obtain ⟨_, _, hWrites, hFound⟩ := hLoop
      dsimp only
      rw [hFound, if_pos (by decide)]
      cases hName : entryName json with
      | error e => exact ⟨_, rfl, rfl, rfl, iff_of_true ⟨hWrites, rfl⟩ rfl⟩
      | ok wanted => exact absurd hName (entryName_of_readEntry hEntry wanted)
  | some e =>
    rw [← readEntry_eq_some hEntry]
    dsimp only
    have hLoop := referenceLoop_alike mem t k h.blank h.space e hRefs
    cases hRun : referenceLoop (P.server t) mem e.json t 0 k refs (startTurn c) with
    | error y =>
      cases hAbstract : turnRun P mem s t refs e k x.assignments with
      | error l =>
        rw [hRun, hAbstract] at hLoop
        refine ⟨_, rfl, rfl, rfl, ?_⟩
        have hSent := hLoop.sent
        constructor
        · rintro ⟨hWrites, _⟩
          have hWrites : y.writes = [] := hWrites
          rw [hWrites, asked, List.map_nil, List.append_nil] at hSent
          rw [hSent]
        · intro hError
          have hSame : l = x.assignments := congrArg Effects.assignments (Except.error.inj hError)
          rw [hSame, List.self_eq_append_right] at hSent
          exact ⟨List.map_eq_nil_iff.mp hSent, rfl⟩
      | ok l =>
        rw [hRun, hAbstract] at hLoop
        exact False.elim hLoop
    | ok y =>
      cases hAbstract : turnRun P mem s t refs e k x.assignments with
      | error l =>
        rw [hRun, hAbstract] at hLoop
        exact False.elim hLoop
      | ok l =>
        rw [hRun, hAbstract] at hLoop
        obtain ⟨_, hFound⟩ := hLoop
        dsimp only
        split
        · rw [entryName_entry]
          refine ⟨_, rfl, rfl, rfl, iff_of_false ?_ fun hError => by cases hError⟩
          rintro ⟨_, hCreated⟩
          cases hCreated
        · rename_i hPos
          refine ⟨_, rfl, rfl, rfl, iff_of_false ?_ fun hError => by cases hError⟩
          rintro ⟨hWrites, _⟩
          have hWrites : y.writes = [] := hWrites
          exact hPos (hFound.mpr (List.map_eq_nil_iff.mpr hWrites))

theorem entryStep_log (P : Policy) (mem : Memory) (t : Nat) (refs : List ReferenceDescription)
    (response : BrowseResponse) (k : Nat) (json : Json) (c : Client AddressSpace) :
    ∃ v : Visit, v.pass = t ∧ v.entry = k ∧
      (outcome (entryStep (P.server t) mem t response 0 refs k json c)).log = c.log ++ [v] := by
  rw [entryStep]
  cases referenceLoop (P.server t) mem json t 0 k refs (startTurn c) with
  | error x => exact ⟨_, rfl, rfl, rfl⟩
  | ok x =>
    dsimp only
    split
    · split
      · exact ⟨_, rfl, rfl, rfl⟩
      · exact ⟨_, rfl, rfl, rfl⟩
    · exact ⟨_, rfl, rfl, rfl⟩

/-- The visits that the elements from `i` on add to the log. -/
def Adds (t i k : Nat) (log log' : List Visit) : Prop :=
  ∃ new, log' = log ++ new ∧ ∀ v ∈ new, v.pass = t ∧ i ≤ v.entry ∧ v.entry < k

/-- None of them is one of the element `k`. -/
theorem Adds.elsewhere {t i k : Nat} {log log' : List Visit} (h : Adds t i k log log')
    (hOld : ∀ v ∈ log, v.pass < t) : ∀ v ∈ log', v.pass = t → v.entry ≠ k := by
  obtain ⟨new, hLog, hNew⟩ := h
  intro v hv hPass
  rw [hLog] at hv
  rcases List.mem_append.mp hv with hv | hv
  · exact absurd hPass (Nat.ne_of_lt (hOld v hv))
  · exact Nat.ne_of_lt (hNew v hv).2.2

theorem entryLoop_adds (P : Policy) (mem : Memory) (t : Nat) (refs : List ReferenceDescription)
    (response : BrowseResponse) (vars : List Json) (i : Nat) (c : Client AddressSpace) :
    Ends (fun c' => Adds t i (i + vars.length) c.log c'.log)
      (fun c' => Adds t i (i + vars.length) c.log c'.log)
      (forEach (entryStep (P.server t) mem t response 0 refs) vars i c) := by
  apply forEach_ends (I := fun (done : List Json) (c' : Client AddressSpace) =>
    Adds t i (i + done.length) c.log c'.log)
  · rintro done json rest c' hVars ⟨new, hLog, hNew⟩
    obtain ⟨v, hPass, hEntry, hStep⟩ := entryStep_log P mem t refs response (i + done.length) json c'
    rw [hLog, List.append_assoc] at hStep
    have hAdds (k : Nat) (hk : i + done.length < k) :
        ∀ w ∈ new ++ [v], w.pass = t ∧ i ≤ w.entry ∧ w.entry < k := by
      intro w hw
      rcases List.mem_append.mp hw with hw | hw
      · obtain ⟨hw, hFrom, hTo⟩ := hNew w hw
        exact ⟨hw, hFrom, Nat.lt_trans hTo hk⟩
      · rw [List.mem_singleton.mp hw]
        exact ⟨hPass, by omega, by omega⟩
    cases hRun : entryStep (P.server t) mem t response 0 refs (i + done.length) json c' with
    | ok c'' =>
      rw [hRun] at hStep
      exact ⟨_, hStep, hAdds _ (by simp)⟩
    | error c'' =>
      rw [hRun] at hStep
      refine ⟨_, hStep, hAdds _ ?_⟩
      rw [hVars, List.length_append, List.length_cons]
      omega
  · refine ⟨[], (List.append_nil _).symm, fun v hv => ?_⟩
    cases hv

end

section

variable {P : Policy} {mem : Memory} {t : Nat} {c : Client AddressSpace}

theorem passEnd_log (vars : List Json) : (passEnd P mem vars t c).log =
    (outcome (entryLoop (P.server t) mem vars t (getResponse (P.server t) c.server).1 0
      (listed P t c.server) { c with retval := StatusCode.good })).log := by
  rw [passEnd, iteration_eq]
  cases entryLoop (P.server t) mem vars t (getResponse (P.server t) c.server).1 0
    (listed P t c.server) { c with retval := StatusCode.good } <;> rfl

theorem passEnd_server (vars : List Json) (hBlank : Blank c.varOut) :
    (passEnd P mem vars t c).server =
      after P c.server
        (outcome (passRun P mem c.server t (listed P t c.server) vars 0 ⟨[], false⟩)).assignments
        (outcome (passRun P mem c.server t (listed P t c.server) vars 0 ⟨[], false⟩)).missing :=
  (iteration_alike P mem vars t hBlank).outcome.space

theorem mainLoop_passes (P : Policy) (mem : Memory) (vars : List Json) (s : AddressSpace) (n : Nat) :
    Ends (fun c => ∀ v ∈ c.log, v.pass < n) (fun _ => True) (mainLoop P.server mem vars n (start s)) := by
  apply repeated_ends (I := fun t (c : Client AddressSpace) => ∀ v ∈ c.log, v.pass < t)
  · intro t c hOld
    have hAdds := entryLoop_adds P mem t (listed P t c.server) (getResponse (P.server t) c.server).1
      vars 0 { c with retval := StatusCode.good }
    rw [iteration_eq, entryLoop]
    apply (hAdds.imp (fun _ h => h) fun _ _ => trivial).bind
    rintro c' ⟨new, hLog, hNew⟩ v hv
    have hv : v ∈ c'.log := hv
    rw [hLog] at hv
    rcases List.mem_append.mp hv with hv | hv
    · exact Nat.lt_succ_of_lt (hOld v hv)
    · rw [(hNew v hv).1]
      exact Nat.lt_succ_self t
  · intro v hv
    cases hv

/-- What a pass adds to the log after the visit of an element. -/
theorem visit_and_rest {σ : Type} {r : Except (Client σ) (Client σ)}
    {f : Client σ → Except (Client σ) (Client σ)} {k n : Nat} {log : List Visit} {v : Visit}
    (hVisit : (outcome r).log = log ++ [v])
    (hRest : ∀ c, Ends (fun c' => Adds t (k + 1) n c.log c'.log) (fun c' => Adds t (k + 1) n c.log c'.log)
      (f c)) :
    ∃ rest, (outcome (r >>= f)).log = log ++ v :: rest ∧ ∀ w ∈ rest, w.entry ≠ k := by
  cases r with
  | error c => exact ⟨[], hVisit, fun w hw => by cases hw⟩
  | ok c =>
    obtain ⟨rest, hLog, hNew⟩ := (hRest c).outcome (p := fun c' : Client σ => Adds t (k + 1) n c.log c'.log)
    refine ⟨rest, ?_, fun w hw hEntry => ?_⟩
    · have hVisit : c.log = log ++ [v] := hVisit
      rw [hVisit, List.append_assoc] at hLog
      exact hLog
    · have hFrom := (hNew w hw).2.1
      omega

/-- The turn of the element sends nothing, if the pass gets to it, exactly when it
ends the program first. -/
theorem silent_iff (P : Policy) (mem : Memory) (before later : List Json) (json : Json)
    (hBlank : Blank c.varOut) (hOld : ∀ v ∈ c.log, v.pass < t) :
    (∀ v ∈ (passEnd P mem (before ++ json :: later) t c).log, v.pass = t → v.entry = before.length →
        v.writes = [] ∧ v.created = []) ↔
      ∀ x, passRun P mem c.server t (listed P t c.server) before 0 ⟨[], false⟩ = .ok x →
        elementRun P mem c.server t (listed P t c.server) before.length json x = .error x := by
  have hAlike := entryLoop_alike P mem before t hBlank (getResponse (P.server t) c.server).1
  have hAdds := entryLoop_adds P mem t (listed P t c.server) (getResponse (P.server t) c.server).1
    before 0 { c with retval := StatusCode.good }
  rw [Nat.zero_add] at hAdds
  rw [passEnd_log, entryLoop, forEach_append, Nat.zero_add]
  rw [entryLoop] at hAlike
  cases hRun : forEach (entryStep (P.server t) mem t (getResponse (P.server t) c.server).1 0
      (listed P t c.server)) before 0 { c with retval := StatusCode.good } with
  | error c' =>
    cases hAbstract : passRun P mem c.server t (listed P t c.server) before 0 ⟨[], false⟩ with
    | ok x =>
      rw [hRun, hAbstract] at hAlike
      exact False.elim hAlike
    | error x =>
      rw [hRun] at hAdds
      refine iff_of_true (fun v hv hPass hEntry => absurd hEntry (Adds.elsewhere hAdds hOld v hv hPass)) ?_
      intro y hy
      cases hy
  | ok c' =>
    cases hAbstract : passRun P mem c.server t (listed P t c.server) before 0 ⟨[], false⟩ with
    | error x =>
      rw [hRun, hAbstract] at hAlike
      exact False.elim hAlike
    | ok x =>
      rw [hRun, hAbstract] at hAlike
      rw [hRun] at hAdds
      obtain ⟨v, hVisit, hPass, hEntry, hSilent⟩ := entryStep_visit mem t (fun ref hRef => by
          obtain ⟨node, hNode, hClass, _⟩ := node_of_listed hRef
          exact ⟨node, hNode, hClass⟩) hAlike (getResponse (P.server t) c.server).1 before.length json
      obtain ⟨rest, hLog, hRest⟩ := visit_and_rest hVisit (entryLoop_adds P mem t
        (listed P t c.server) (getResponse (P.server t) c.server).1 later (before.length + 1))
      change (outcome (Except.ok c' >>= forEach _ (json :: later) before.length)).log = _ at hLog
      rw [hLog]
      constructor
      · intro h y hy
        cases hy
        exact hSilent.mp (h v (List.mem_append_right _ List.mem_cons_self) hPass hEntry)
      · intro h w hw hThis hAt
        rcases List.mem_append.mp hw with hw | hw
        · exact absurd hAt (Adds.elsewhere hAdds hOld w hw hThis)
        · rcases List.mem_cons.mp hw with rfl | hw
          · exact hSilent.mpr (h x rfl)
          · exact absurd hAt (hRest w hw)

/-! ## What the elements after it do -/

theorem passRun_extends (P : Policy) (mem : Memory) (s : AddressSpace) (t : Nat)
    (refs : List ReferenceDescription) (vars : List Json) (k : Nat) (x : Effects) :
    ∃ own, (outcome (passRun P mem s t refs vars k x)).assignments = x.assignments ++ own ∧
      (x.missing = true → (outcome (passRun P mem s t refs vars k x)).missing = true) := by
  have hLoop : Ends (fun y : Effects => ∃ own, y.assignments = x.assignments ++ own ∧
        (x.missing = true → y.missing = true))
      (fun y : Effects => ∃ own, y.assignments = x.assignments ++ own ∧
        (x.missing = true → y.missing = true))
      (passRun P mem s t refs vars k x) := by
    apply forEach_ends (I := fun (_ : List Json) (y : Effects) =>
      ∃ own, y.assignments = x.assignments ++ own ∧ (x.missing = true → y.missing = true))
    · rintro done json rest y _ ⟨own, hOwn, hMissing⟩
      rw [elementRun]
      cases readEntry json with
      | none => exact ⟨own, hOwn, hMissing⟩
      | some e =>
        have hTurn := turnRun_ends P mem s t refs e (k + done.length) y.assignments
        dsimp only
        cases hRun : turnRun P mem s t refs e (k + done.length) y.assignments with
        | error l =>
          rw [hRun] at hTurn
          obtain ⟨j, hLeaves⟩ := hTurn
          exact ⟨_, by rw [hLeaves.assignments, hOwn, List.append_assoc], hMissing⟩
        | ok l =>
          rw [hRun] at hTurn
          refine ⟨_, by rw [hTurn.1, hOwn, List.append_assoc], fun hx => ?_⟩
          rw [hMissing hx, Bool.true_or]
    · exact ⟨[], (List.append_nil _).symm, id⟩
  exact hLoop.outcome

theorem puts_append_iff (accepted : NodeId → Variant → Bool) (l own : List (NodeId × Variant))
    (f : NodeId → Variant) : puts accepted (l ++ own) f = puts accepted l f ↔
      ∀ id v, last accepted id own = some v → puts accepted l f id = v := by
  constructor
  · intro hSame id v hLast
    have hAt := congrFun hSame id
    rw [puts_append, puts_apply, hLast, Option.getD_some] at hAt
    exact hAt.symm
  · intro h
    funext id
    rw [puts_append, puts_apply]
    cases hLast : last accepted id own with
    | none => rfl
    | some v => exact (h id v hLast).symm

def passEffects (mem : Memory) (s : AddressSpace) (t : Nat) (refs : List ReferenceDescription)
    (entries : List Entry) : Effects :=
  ⟨passAssignments mem s t refs entries, missing mem s t refs entries⟩

theorem passRun_eq_ok {s : AddressSpace} {refs : List ReferenceDescription} {entries : List Entry}
    (hNot : ¬ PassBreaks P mem s t refs entries) :
    passRun P mem s t refs (entries.map Entry.json) 0 ⟨[], false⟩ =
      .ok (passEffects mem s t refs entries) := by
  have hEnds := passRun_ends P mem s t refs entries
  cases hRun : passRun P mem s t refs (entries.map Entry.json) 0 ⟨[], false⟩ with
  | error x =>
    rw [hRun] at hEnds
    exact absurd hEnds hNot
  | ok x =>
    rw [hRun] at hEnds
    rw [hEnds.1]
    rfl

/-- What the elements `later` do after the turns of the entries, with the one
between them left out. -/
def laterEffects (P : Policy) (mem : Memory) (s : AddressSpace) (t : Nat) (entries : List Entry)
    (later : List Json) : Effects :=
  outcome (passRun P mem s t (listed P t s) later (entries.length + 1)
    (passEffects mem s t (listed P t s) entries))

/-- The element after the entries ends the program before its turn sends anything.
The elements after it would write only what is there already, and create nothing
that is not created already. -/
structure Unnoticed (P : Policy) (mem : Memory) (s : AddressSpace) (t : Nat) (entries : List Entry)
    (json : Json) (later : List Json) : Prop where
  ends : EndsFirst P mem s t (listed P t s) entries.length json
    (passAssignments mem s t (listed P t s) entries)
  values : ∀ id v, last (P.accepted s.nodes) id ((laterEffects P mem s t entries later).assignments.drop
      (passAssignments mem s t (listed P t s) entries).length) = some v →
    puts (P.accepted s.nodes) (passAssignments mem s t (listed P t s) entries) s.value id = v
  found : s.nodes name123 = none → (laterEffects P mem s t entries later).missing = true →
    missing mem s t (listed P t s) entries = true

/-- What the claim asks of an element in a pass: its turn sends nothing, and the
pass leaves the server as the one without the element does. -/
structure Inert (P : Policy) (mem : Memory) (before : List Json) (json : Json) (later : List Json)
    (t : Nat) (c : Client AddressSpace) : Prop where
  silent : ∀ v ∈ (passEnd P mem (before ++ json :: later) t c).log, v.pass = t →
    v.entry = before.length → v.writes = [] ∧ v.created = []
  same : (passEnd P mem (before ++ json :: later) t c).server =
    (passEnd P (skipMemory before.length mem) (before ++ later) t c).server

theorem after_eq_iff {s : AddressSpace} (l l' : List (NodeId × Variant)) (b b' : Bool) :
    after P s l b = after P s l' b' ↔ puts (P.accepted s.nodes) l s.value =
        puts (P.accepted s.nodes) l' s.value ∧ (Creates s b ↔ Creates s b') := by
  have hNodes : ∀ (l : List (NodeId × Variant)) (b : Bool), s.nodes name123 = none →
      ((after P s l b).nodes name123 ≠ none ↔ Creates s b) := by
    intro l b hFree
    rcases Classical.em (Creates s b) with hCreates | hNot
    · rw [after_of_creates hCreates, nodes_add_self]
      exact iff_of_true (Option.some_ne_none _) hCreates
    · rw [after_of_not_creates hNot]
      exact iff_of_false (not_not.mpr hFree) hNot
  have hUnknown {id : NodeId} (hNode : s.nodes id = none) (l : List (NodeId × Variant)) :
      puts (P.accepted s.nodes) l s.value id = s.value id := by
    have hNone : last (P.accepted s.nodes) id l = none := by
      rw [last_eq_none_iff]
      intro v _
      rw [Policy.accepted, hNode]
    rw [puts_apply, hNone]
    rfl
  constructor
  · intro hSame
    refine ⟨funext fun id => ?_, ?_⟩
    · cases hNode : s.nodes id with
      | none => rw [hUnknown hNode, hUnknown hNode]
      | some node => rw [← after_value hNode l b, hSame, after_value hNode]
    · cases hFree : s.nodes name123 with
      | none => rw [← hNodes l b hFree, hSame, hNodes l' b' hFree]
      | some node => simp [Creates, hFree]
  · rintro ⟨hValues, hCreates⟩
    have hAssigned : assigned P s l = assigned P s l' := by
      rw [assigned, assigned, hValues]
    rcases Classical.em (Creates s b) with hYes | hNo
    · rw [after_of_creates hYes, after_of_creates (hCreates.mp hYes), hAssigned]
    · rw [after_of_not_creates hNo, after_of_not_creates (fun h => hNo (hCreates.mpr h)), hAssigned]

theorem same_iff {entries : List Entry} {json : Json} {later : List Json} (hBlank : Blank c.varOut)
    (hNot : ¬ PassBreaks P mem c.server t (listed P t c.server) entries)
    (hEnds : EndsFirst P mem c.server t (listed P t c.server) entries.length json
      (passAssignments mem c.server t (listed P t c.server) entries)) :
    (passEnd P mem (entries.map Entry.json ++ json :: later) t c).server =
        (passEnd P (skipMemory (entries.map Entry.json).length mem)
          (entries.map Entry.json ++ later) t c).server ↔
      Unnoticed P mem c.server t entries json later := by
  have hElement := (elementRun_error_iff (x := passEffects mem c.server t (listed P t c.server)
    entries)).mpr hEnds
  obtain ⟨own, hOwn, hMissing⟩ := passRun_extends P mem c.server t (listed P t c.server) later
    (entries.length + 1) (passEffects mem c.server t (listed P t c.server) entries)
  have hWith : (passEnd P mem (entries.map Entry.json ++ json :: later) t c).server =
      after P c.server (passAssignments mem c.server t (listed P t c.server) entries)
        (missing mem c.server t (listed P t c.server) entries) := by
    rw [passEnd_server _ hBlank, passRun_with, passRun_eq_ok hNot, List.length_map]
    change after P c.server (outcome (elementRun P mem c.server t (listed P t c.server)
      entries.length json _ >>= _)).assignments (outcome (elementRun P mem c.server t
        (listed P t c.server) entries.length json _ >>= _)).missing = _
    rw [hElement]
    rfl
  have hWithout : (passEnd P (skipMemory (entries.map Entry.json).length mem)
      (entries.map Entry.json ++ later) t c).server = after P c.server
        (laterEffects P mem c.server t entries later).assignments
        (laterEffects P mem c.server t entries later).missing := by
    rw [passEnd_server _ hBlank, passRun_without, passRun_eq_ok hNot, List.length_map]
    rfl
  have hOwn : (laterEffects P mem c.server t entries later).assignments =
      passAssignments mem c.server t (listed P t c.server) entries ++ own := hOwn
  have hMissing : missing mem c.server t (listed P t c.server) entries = true →
      (laterEffects P mem c.server t entries later).missing = true := hMissing
  have hDrop : (laterEffects P mem c.server t entries later).assignments.drop
      (passAssignments mem c.server t (listed P t c.server) entries).length = own := by
    rw [hOwn, List.drop_left]
  rw [hWith, hWithout, eq_comm, after_eq_iff, hOwn, puts_append_iff, ← hDrop]
  constructor
  · rintro ⟨hValues, hCreates⟩
    exact ⟨hEnds, hValues, fun hFree hLater => (hCreates.mp ⟨hLater, hFree⟩).1⟩
  · rintro ⟨_, hValues, hFound⟩
    refine ⟨hValues, fun hCreates => ⟨hFound hCreates.2 hCreates.1, hCreates.2⟩,
      fun hCreates => ⟨hMissing hCreates.1, hCreates.2⟩⟩

theorem Explained.writes_newValue {json : Json} {refs : List ReferenceDescription} {v : Visit}
    (h : Explained mem json refs v) (hKind : Unsupported json) :
    ∀ w ∈ v.writes, ∃ r ∈ v.reads, r.ref = w.ref ∧ w.value = mem.newValue r.site := by
  intro w hw
  obtain ⟨r, hr, hRef, _, wanted, hName, _, hVariant⟩ := h.writes w hw
  obtain ⟨value, hIndex⟩ := index_of_entryName hName
  rw [createVariant_eq hIndex, written_unsupported (hKind value hIndex)] at hVariant
  exact ⟨r, hr, hRef, (Except.ok.inj hVariant).symm⟩

/-- What a turn of an element of an unsupported kind writes is what `newValue`
held. The element is inert in a pass exactly when its turn, if the pass gets to it,
ends the program before it sends anything, and those after it would change nothing. -/
theorem inert_iff (P : Policy) (mem : Memory) (before later : List Json) (json : Json)
    (hKind : Unsupported json) (s : AddressSpace) (t : Nat) (c : Client AddressSpace)
    (hRun : mainLoop P.server mem (before ++ json :: later) t (start s) = .ok c) :
    (∀ v ∈ (passEnd P mem (before ++ json :: later) t c).log, v.entry = before.length →
      ∀ w ∈ v.writes, ∃ r ∈ v.reads, r.ref = w.ref ∧ w.value = mem.newValue r.site) ∧
    (Inert P mem before json later t c ↔ ∀ entries : List Entry, before = entries.map Entry.json →
      ¬ PassBreaks P mem c.server t (listed P t c.server) entries →
        Unnoticed P mem c.server t entries json later) := by
  have hLog := mainLoop_ends P.server mem (before ++ json :: later) t s
  have hOld := mainLoop_passes P mem (before ++ json :: later) s t
  rw [hRun] at hLog hOld
  constructor
  · intro v hv hEntry
    have hAfter := (iteration_ends hLog t).outcome
    obtain ⟨result, element, _, hElement, hExplained⟩ := hAfter.log v hv
    have hAt : (before ++ json :: later)[before.length]? = some json := by simp
    rw [hEntry, hAt] at hElement
    cases hElement
    exact hExplained.writes_newValue hKind
  · have hSilent := silent_iff P mem before later json hLog.blank hOld
    cases hBefore : passRun P mem c.server t (listed P t c.server) before 0 ⟨[], false⟩ with
    | error x =>
      refine iff_of_true ⟨hSilent.mpr fun y hy => ?_, ?_⟩ ?_
      · rw [hBefore] at hy
        cases hy
      · rw [passEnd_server _ hLog.blank, passEnd_server _ hLog.blank, passRun_with, passRun_without,
          hBefore]
        rfl
      · rintro entries rfl hNot
        rw [passRun_eq_ok hNot] at hBefore
        cases hBefore
    | ok x =>
      obtain ⟨entries, rfl⟩ := entries_of_passRun hBefore
      have hNot : ¬ PassBreaks P mem c.server t (listed P t c.server) entries := by
        have hEnds := passRun_ends P mem c.server t (listed P t c.server) entries
        rw [hBefore] at hEnds
        exact hEnds.2
      have hFirst : (∀ v ∈ (passEnd P mem (entries.map Entry.json ++ json :: later) t c).log,
          v.pass = t → v.entry = (entries.map Entry.json).length → v.writes = [] ∧ v.created = []) ↔
          EndsFirst P mem c.server t (listed P t c.server) entries.length json
            (passAssignments mem c.server t (listed P t c.server) entries) := by
        rw [hSilent, passRun_eq_ok hNot, List.length_map]
        constructor
        · intro h
          exact elementRun_error_iff.mp (h _ rfl)
        · intro h y hy
          cases hy
          exact elementRun_error_iff.mpr h
      constructor
      · rintro ⟨hSends, hSame⟩ others hOthers _
        have hEq : entries = others :=
          List.map_injective_iff.mpr (fun _ _ => Entry.eq_of_json) hOthers
        rw [← hEq]
        exact (same_iff hLog.blank hNot (hFirst.mp hSends)).mp hSame
      · intro h
        have hUnnoticed := h entries rfl hNot
        exact ⟨hFirst.mpr hUnnoticed.ends, (same_iff hLog.blank hNot hUnnoticed.ends).mpr hUnnoticed⟩

end

def nullElement (name : String) : Json :=
  .object [(ascii "name", .string (ascii name)), (ascii "value", .null)]

theorem nullElement_unsupported (name : String) : Unsupported (nullElement name) := by
  rintro value ⟨⟩
  change ¬ Json.null.Supported
  decide

theorem inert_iff_null :
    (∀ v ∈ (passEnd (plainPolicy false) zeroMemory [nullElement "a"] 0 (start intNode)).log,
      v.entry = 0 → ∀ w ∈ v.writes, ∃ r ∈ v.reads, r.ref = w.ref ∧
        w.value = zeroMemory.newValue r.site) ∧
    (Inert (plainPolicy false) zeroMemory [] (nullElement "a") [] 0 (start intNode) ↔
      ∀ entries : List Entry, [] = entries.map Entry.json →
        ¬ PassBreaks (plainPolicy false) zeroMemory intNode 0 (listed (plainPolicy false) 0 intNode)
            entries →
          Unnoticed (plainPolicy false) zeroMemory intNode 0 entries (nullElement "a") []) :=
  inert_iff (plainPolicy false) zeroMemory [] [] (nullElement "a") (nullElement_unsupported "a") intNode 0
    (start intNode) rfl

def garbageMemory : Memory := { zeroMemory with newValue := fun _ => .scalar (.int32 7) }

/-- The element `b` without a variable creates one, and the element `a` overwrites
the variable `a` with what `newValue` holds. -/
theorem inert_fails : Unsupported (nullElement "a") ∧ Unsupported (nullElement "b") ∧
    ¬ Inert (plainPolicy false) zeroMemory [] (nullElement "b") [] 0 (start intNode) ∧
    ¬ Inert (plainPolicy false) garbageMemory [] (nullElement "a") [] 0 (start intNode) := by
  refine ⟨nullElement_unsupported "a", nullElement_unsupported "b", ?_, ?_⟩
  · rintro ⟨_, hSame⟩
    have hNode := congrArg (fun s => (s.nodes name123).isSome) hSame
    exact absurd hNode (by decide)
  · rintro ⟨_, hSame⟩
    have hValue := congrArg (fun s => s.value node7) hSame
    exact absurd hValue (by decide)

end OpcConfig.SyncClient
