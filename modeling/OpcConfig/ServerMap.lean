import OpcConfig.CounterClient

/-! # Servers that look alike to the clients

The clients see of a server only its answers. A server whose states are images
of another one's, with the same answers, leads them through the same run.
-/

namespace OpcConfig

set_option autoImplicit false

open CString Loop

variable {σ τ : Type}

structure Server.Maps (f : σ → τ) (srv : Server σ) (srv' : Server τ) : Prop where
  connect : ∀ s, srv'.connect (f s) = ((srv.connect s).1, f (srv.connect s).2)
  browse : ∀ nodeId s, srv'.browse nodeId (f s) =
    ((srv.browse nodeId s).1, f (srv.browse nodeId s).2)
  read : ∀ nodeId s, srv'.read nodeId (f s) = ((srv.read nodeId s).1, f (srv.read nodeId s).2)
  write : ∀ nodeId value s, srv'.write nodeId value (f s) =
    ((srv.write nodeId value s).1, f (srv.write nodeId value s).2)
  addVariableNode : ∀ request s, srv'.addVariableNode request (f s) =
    ((srv.addVariableNode request s).1, f (srv.addVariableNode request s).2)

variable {f : σ → τ} {srv : Server σ} {srv' : Server τ}

/-! ## The counting client -/

def Counter.map (f : σ → τ) (c : Counter σ) : Counter τ :=
  { server := f c.server, retval := c.retval, one := c.one, printed := c.printed }

def Gathering.map (f : σ → τ) (x : Gathering σ) : Gathering τ :=
  { server := f x.server, retval := x.retval, dataValue := x.dataValue, count := x.count }

namespace CounterClient

theorem setField_map (key : String) (element : Json) (x : Gathering σ) :
    setField key element (x.map f) = both (Prod.map id (Gathering.map f)) (Gathering.map f)
      (setField key element x) := by
  simp only [setField, Gathering.map]
  cases Nlohmann.setAt x.dataValue x.count (ascii key) element <;> rfl

theorem int32Step_map (h : Server.Maps f srv srv') (nodeId : NodeId) (value : Variant)
    (x : Gathering σ) : int32Step srv' nodeId value (x.map f) =
      both (Prod.map id (Gathering.map f)) (Gathering.map f) (int32Step srv nodeId value x) := by
  rw [int32Step, int32Step]
  split
  · cases value.first with
    | none => rfl
    | some v =>
      cases v with
      | int32 rawDate =>
        dsimp only
        rw [setField_map]
        apply both_bind
        intro x'
        split
        · rfl
        · have hWrite := h.write nodeId (.scalar (.int32 (rawDate + 1))) x'.server
          simp only [Gathering.map, hWrite, both]
      | _ => rfl
  · rfl

theorem doubleStep_map (value : Variant) (x : Gathering σ) : doubleStep value (x.map f) =
    both (Prod.map id (Gathering.map f)) (Gathering.map f) (doubleStep value x) := by
  rw [doubleStep, doubleStep]
  split
  · cases value.first with
    | none => rfl
    | some v =>
      cases v with
      | double d => exact setField_map "value" (.double d) x
      | _ => rfl
  · rfl

theorem readStep_map (h : Server.Maps f srv srv') (ref : ReferenceDescription) (x : Gathering σ) :
    readStep srv' ref (x.map f) = ((readStep srv ref x).1, (readStep srv ref x).2.map f) := by
  simp [readStep, readResponse, Gathering.map, h.read]

theorem referenceStep_map (h : Server.Maps f srv srv') (mem : CounterSite → Bytes)
    (site : CounterSite) (ref : ReferenceDescription) (x : Gathering σ) :
    referenceStep srv' mem site ref (x.map f) =
      both (Prod.map id (Gathering.map f)) (Gathering.map f) (referenceStep srv mem site ref x) := by
  rw [referenceStep, referenceStep]
  split
  · rfl
  · rw [readStep_map h]
    dsimp only
    cases (readStep srv ref x).1.value with
    | none => rfl
    | some value =>
      dsimp only
      rw [setField_map]
      apply both_bind
      intro x₁
      rw [int32Step_map h]
      apply both_bind
      intro x₂
      rw [doubleStep_map]
      apply both_bind
      intro x₃
      rfl

theorem resultStep_map (h : Server.Maps f srv srv') (mem : CounterSite → Bytes) (t i : Nat)
    (result : BrowseResult) (c : Counter σ) : resultStep srv' mem t i result (c.map f) =
      both (Prod.map id (Counter.map f)) (Counter.map f) (resultStep srv mem t i result c) := by
  have hLoop : referenceLoop srv' mem t i result.references (startResult (c.map f)) =
      both (Prod.map id (Gathering.map f)) (Gathering.map f)
        (referenceLoop srv mem t i result.references (startResult c)) := by
    rw [referenceLoop, referenceLoop]
    exact forEach_both (fun j ref x => referenceStep_map h mem _ ref x) _ _ (startResult c)
  rw [resultStep, resultStep, hLoop]
  cases referenceLoop srv mem t i result.references (startResult c) with
  | error e => rfl
  | ok x =>
    dsimp only [both]
    rw [show (x.map f).dataValue = x.dataValue from rfl]
    cases Nlohmann.dump x.dataValue <;> rfl

theorem pass_map (h : Server.Maps f srv srv') (mem : CounterSite → Bytes) (t : Nat)
    (c : Counter σ) : pass srv' mem t (c.map f) =
      both (Prod.map id (Counter.map f)) (Counter.map f) (pass srv mem t c) := by
  rw [pass, pass]
  have hBrowse : getResponse srv' (c.map f).server =
      ((getResponse srv c.server).1, f (getResponse srv c.server).2) := h.browse _ _
  rw [hBrowse]
  exact forEach_both (fun i result c' => resultStep_map h mem t i result c') _ _
    { c with server := (getResponse srv c.server).2 }

theorem createFirst_map (h : Server.Maps f srv srv') (vars : Json) (c : Counter σ) :
    createFirst srv' vars (c.map f) =
      both (Prod.map id (Counter.map f)) (Counter.map f) (createFirst srv vars c) := by
  rw [createFirst, createFirst]
  cases Nlohmann.stringAt vars 0 (ascii "name") with
  | error e => rfl
  | ok varName => simp [createVariable, Counter.map, h.addVariableNode, both]

theorem iteration_map (h : Server.Maps f srv srv') (mem : CounterSite → Bytes) (vars : Json)
    (t : Nat) (c : Counter σ) : iteration srv' mem vars t (c.map f) =
      both (Prod.map id (Counter.map f)) (Counter.map f) (iteration srv mem vars t c) := by
  have hConnect : srv'.connect (c.map f).server =
      ((srv.connect c.server).1, f (srv.connect c.server).2) := h.connect _
  let c₁ : Counter σ := { c with
    server := (srv.connect c.server).2, retval := (srv.connect c.server).1 }
  rw [iteration, iteration, hConnect]
  dsimp only
  split
  · rfl
  · split
    · rfl
    · change (if c.one = true then createFirst srv' vars (c₁.map f) >>= _ else
        (Except.ok (c₁.map f) >>= _)) = _
      split
      · rw [createFirst_map h]
        exact both_bind fun c' => pass_map h mem t c'
      · exact pass_map h mem t c₁

theorem mainLoop_map {srv : Nat → Server σ} {srv' : Nat → Server τ}
    (h : ∀ t, Server.Maps f (srv t) (srv' t)) (mem : CounterSite → Bytes) (vars : Json) (n : Nat)
    (c : Counter σ) : mainLoop srv' mem vars n (c.map f) =
      both (Prod.map id (Counter.map f)) (Counter.map f) (mainLoop srv mem vars n c) :=
  repeated_both (fun t c' => iteration_map (h t) mem vars t c') n c

end CounterClient

/-! ## The synchronisation client -/

def Client.map (f : σ → τ) (c : Client σ) : Client τ :=
  { server := f c.server, retval := c.retval, varOut := c.varOut, printed := c.printed, log := c.log }

def Progress.map (f : σ → τ) (x : Progress σ) : Progress τ :=
  { server := f x.server, retval := x.retval, varOut := x.varOut, findIndex := x.findIndex
    reads := x.reads, writes := x.writes }

namespace SyncClient

theorem readStep_map (h : Server.Maps f srv srv') (site : Site) (ref : ReferenceDescription)
    (x : Progress σ) : readStep srv' site ref (x.map f) =
      ((readStep srv site ref x).1, (readStep srv site ref x).2.map f) := by
  simp [readStep, readResponse, Progress.map, h.read]

theorem writeStep_map (h : Server.Maps f srv srv') (site : Site) (ref : ReferenceDescription)
    (newValue : Variant) (x : Progress σ) :
    writeStep srv' site ref newValue (x.map f) = (writeStep srv site ref newValue x).map f := by
  simp [writeStep, Progress.map, h.write]

theorem referenceStep_map (h : Server.Maps f srv srv') (mem : Memory) (entry : Json) (site : Site)
    (ref : ReferenceDescription) (x : Progress σ) :
    referenceStep srv' mem entry site ref (x.map f) =
      both (Progress.map f) (Progress.map f) (referenceStep srv mem entry site ref x) := by
  rw [referenceStep, referenceStep]
  split
  · rfl
  · rw [readStep_map h]
    dsimp only
    cases (readStep srv site ref x).1.value with
    | none => rfl
    | some value =>
      dsimp only
      cases entryName entry with
      | error e => rfl
      | ok wanted =>
        dsimp only
        split
        · cases createVariant (mem.slot site) entry (mem.newValue site) with
          | error e => rfl
          | ok newValue =>
            dsimp only
            rw [writeStep_map h]
            rfl
        · rw [show ((readStep srv site ref x).2.map f).varOut = (readStep srv site ref x).2.varOut
            from rfl]
          cases report (cstr (uastrToCharArr (mem.keyBlock site) ref.displayName))
            (mem.textBlock site) value (readStep srv site ref x).2.varOut <;> rfl

theorem entryStep_map (h : Server.Maps f srv srv') (mem : Memory) (t : Nat)
    (response : BrowseResponse) (i : Nat) (refs : List ReferenceDescription) (k : Nat)
    (entry : Json) (c : Client σ) : entryStep srv' mem t response i refs k entry (c.map f) =
      both (Client.map f) (Client.map f) (entryStep srv mem t response i refs k entry c) := by
  have hLoop : referenceLoop srv' mem entry t i k refs (startTurn (c.map f)) =
      both (Progress.map f) (Progress.map f)
        (referenceLoop srv mem entry t i k refs (startTurn c)) := by
    rw [referenceLoop, referenceLoop]
    exact forEach_both (fun j ref x => referenceStep_map h mem entry _ ref x) _ _ (startTurn c)
  rw [entryStep, entryStep, hLoop]
  cases referenceLoop srv mem entry t i k refs (startTurn c) with
  | error x => rfl
  | ok x =>
    dsimp only [both]
    change (if x.findIndex < 0 then _ else _) = _
    split
    · cases entryName entry with
      | error e => rfl
      | ok name =>
        dsimp only
        have hCreate : createVariable srv' (cstr name) entry .empty (x.map f).server =
            ((createVariable srv (cstr name) entry .empty x.server).1,
              f (createVariable srv (cstr name) entry .empty x.server).2) := h.addVariableNode _ _
        rw [hCreate]
        rfl
    · rfl

theorem pass_map (h : Server.Maps f srv srv') (mem : Memory) (vars : List Json) (t : Nat)
    (c : Client σ) : pass srv' mem vars t (c.map f) =
      both (Client.map f) (Client.map f) (pass srv mem vars t c) := by
  have hBrowse : getResponse srv' (c.map f).server =
      ((getResponse srv c.server).1, f (getResponse srv c.server).2) := h.browse _ _
  rw [pass, pass, hBrowse]
  let response := (getResponse srv c.server).1
  let c₁ : Client σ := { c with server := (getResponse srv c.server).2 }
  have hLoop : forEach (fun i (result : BrowseResult) c' =>
        entryLoop srv' mem vars t response i result.references c') response.results 0 (c₁.map f) =
      both (Client.map f) (Client.map f) (forEach (fun i (result : BrowseResult) c' =>
        entryLoop srv mem vars t response i result.references c') response.results 0 c₁) :=
    forEach_both (fun i result c' =>
      forEach_both (fun k entry c'' => entryStep_map h mem t _ i _ k entry c'') _ _ _) _ _ _
  exact (congrArg (fun r => r >>= _) hLoop).trans (both_bind fun c' => rfl)

theorem iteration_map (h : Server.Maps f srv srv') (mem : Memory) (vars : List Json) (t : Nat)
    (c : Client σ) : iteration srv' mem vars t (c.map f) =
      both (Client.map f) (Client.map f) (iteration srv mem vars t c) := by
  have hConnect : srv'.connect (c.map f).server =
      ((srv.connect c.server).1, f (srv.connect c.server).2) := h.connect _
  rw [iteration, iteration, hConnect]
  dsimp only
  split
  · rfl
  · split
    · rfl
    · exact pass_map h mem vars t { c with
        server := (srv.connect c.server).2, retval := (srv.connect c.server).1 }

theorem mainLoop_map {srv : Nat → Server σ} {srv' : Nat → Server τ}
    (h : ∀ t, Server.Maps f (srv t) (srv' t)) (mem : Memory) (vars : List Json) (n : Nat)
    (c : Client σ) : mainLoop srv' mem vars n (c.map f) =
      both (Client.map f) (Client.map f) (mainLoop srv mem vars n c) :=
  repeated_both (fun t c' => iteration_map (h t) mem vars t c') n c

end SyncClient

end OpcConfig
