import OpcConfig.SyncClient

/-! # What a turn of the loop over the entries does, for any server

One inversion lemma for the innermost loop body, the invariant of the loop over
the references that follows from it, and the description of every visit in the
log of a run.
-/

namespace OpcConfig.SyncClient

set_option autoImplicit false

open CString Loop

variable {σ : Type}

/-! ## The report -/

/-- Null, or an object with null in every field. -/
def Blank (varOut : Json) : Prop :=
  varOut = .null ∨
    ∃ fields, varOut = .object fields ∧ ∀ key v, Json.field fields key = some v → v = .null

theorem blank_insertField {fields : List (Bytes × Json)} (key : Bytes)
    (h : ∀ key v, Json.field fields key = some v → v = .null) :
    ∀ other v, Json.field (Json.insertField key .null fields) other = some v → v = .null := by
  intro other v hv
  rw [Json.field_insertField] at hv
  split at hv
  · exact (Option.some.inj hv).symm
  · exact h other v hv

theorem touch_blank {varOut : Json} (h : Blank varOut) (key : Bytes) :
    ∃ fields, varOut.touch key = .ok (.object fields) ∧ Json.field fields key = some .null ∧
      ∀ other v, Json.field fields other = some v → v = .null := by
  rcases h with rfl | ⟨fields, rfl, hFields⟩
  · refine ⟨[(key, .null)], rfl, by simp [Json.field], ?_⟩
    have hNone : ∀ other v, Json.field [] other = some v → v = .null := by simp [Json.field]
    exact blank_insertField key hNone
  · cases hKey : Json.field fields key with
    | none =>
      refine ⟨Json.insertField key .null fields, by simp [Json.touch, hKey], ?_,
        blank_insertField key hFields⟩
      rw [Json.field_insertField, if_pos rfl]
    | some v =>
      have hv := hFields key v hKey
      exact ⟨fields, by simp [Json.touch, hKey], by rw [hKey, hv], hFields⟩

/-- The report of a value that is there stays blank, and that of one that lacks
its element is not finished. -/
theorem report_blank {varOut : Json} (h : Blank varOut) (key block : Bytes) (variant : Variant) :
    (variant.lacks UaType.reported = true →
      report key block variant varOut = .error .noElement) ∧
    (variant.lacks UaType.reported = false →
      ∃ varOut', report key block variant varOut = .ok varOut' ∧ Blank varOut') := by
  obtain ⟨fields, hTouch, hKey, hFields⟩ := touch_blank h key
  obtain ⟨hLacks, hThere⟩ := variantToJson_null block variant
  have hReport : report key block variant varOut = (do
      let _ ← variantToJson block .null variant
      .ok (.object (Json.insertField key .null fields))) := by
    have hIndex : (Json.object fields).index key = .ok .null := by
      rw [Json.index, hKey]
      rfl
    simp only [report, hTouch, bind, Except.bind, Except.mapError, hIndex, variantToJsonByValue]
    cases variantToJson block .null variant <;> rfl
  rw [hReport]
  constructor
  · intro hLack
    rw [hLacks hLack]
    rfl
  · intro hHas
    obtain ⟨out, hOut⟩ := hThere hHas
    rw [hOut]
    exact ⟨_, rfl, Or.inr ⟨_, rfl, blank_insertField key hFields⟩⟩

theorem Blank.report {varOut varOut' : Json} (h : Blank varOut) {key block : Bytes} {variant : Variant}
    (hReport : SyncClient.report key block variant varOut = .ok varOut') :
    variant.lacks UaType.reported = false ∧ Blank varOut' := by
  obtain ⟨hLacks, hThere⟩ := report_blank h key block variant
  cases hLack : variant.lacks UaType.reported with
  | true =>
    rw [hLacks hLack] at hReport
    cases hReport
  | false =>
    obtain ⟨_, hOut, hBlank⟩ := hThere hLack
    rw [hReport] at hOut
    cases hOut
    exact ⟨rfl, hBlank⟩

theorem Blank.report_error {varOut : Json} (h : Blank varOut) {key block : Bytes} {variant : Variant}
    {e : Fault} (hReport : SyncClient.report key block variant varOut = .error e) :
    variant.lacks UaType.reported = true := by
  by_contra hNot
  obtain ⟨_, hOut, _⟩ := (report_blank h key block variant).2 (Bool.eq_false_iff.mpr hNot)
  rw [hReport] at hOut
  cases hOut

/-! ## One reference -/

def Hits (mem : Memory) (site : Site) (ref : ReferenceDescription) (wanted : Bytes) : Prop :=
  cstr (uastrToCharArr (mem.nameBlock site) ref.displayName) = cstr wanted

instance (mem : Memory) (site : Site) (ref : ReferenceDescription) (wanted : Bytes) :
    Decidable (Hits mem site ref wanted) := inferInstanceAs (Decidable (_ = _))

inductive Turn (srv : Server σ) (mem : Memory) (entry : Json) (site : Site)
    (ref : ReferenceDescription) (x : Progress σ) : Except (Progress σ) (Progress σ) → Prop
  | skipped (hClass : ref.nodeClass ≠ .variable) : Turn srv mem entry site ref x (.ok x)
  | unread (hClass : ref.nodeClass = .variable) (hValue : (readStep srv site ref x).1.value = none) :
      Turn srv mem entry site ref x (.ok (readStep srv site ref x).2)
  | thrown (hClass : ref.nodeClass = .variable) {value : Variant}
      (hValue : (readStep srv site ref x).1.value = some value)
      (hReason : (∃ e, entryName entry = .error e) ∨
        ∃ e, createVariant (mem.slot site) entry (mem.newValue site) = .error e) :
      Turn srv mem entry site ref x (.error (readStep srv site ref x).2)
  | hit (hClass : ref.nodeClass = .variable) {value newValue : Variant} {wanted : Bytes}
      (hValue : (readStep srv site ref x).1.value = some value)
      (hName : entryName entry = .ok wanted) (hHits : Hits mem site ref wanted)
      (hVariant : createVariant (mem.slot site) entry (mem.newValue site) = .ok newValue) :
      Turn srv mem entry site ref x
        (.ok (writeStep srv site ref newValue (readStep srv site ref x).2))
  | missed (hClass : ref.nodeClass = .variable) {value : Variant} {wanted : Bytes} {varOut : Json}
      (hValue : (readStep srv site ref x).1.value = some value)
      (hName : entryName entry = .ok wanted) (hHits : ¬ Hits mem site ref wanted)
      (hReport : report (cstr (uastrToCharArr (mem.keyBlock site) ref.displayName))
        (mem.textBlock site) value x.varOut = .ok varOut) :
      Turn srv mem entry site ref x (.ok { (readStep srv site ref x).2 with varOut := varOut })
  | broken (hClass : ref.nodeClass = .variable) {value : Variant} {wanted : Bytes} {e : Fault}
      (hValue : (readStep srv site ref x).1.value = some value)
      (hName : entryName entry = .ok wanted) (hHits : ¬ Hits mem site ref wanted)
      (hReport : report (cstr (uastrToCharArr (mem.keyBlock site) ref.displayName))
        (mem.textBlock site) value x.varOut = .error e) :
      Turn srv mem entry site ref x (.error (readStep srv site ref x).2)

theorem readStep_varOut (srv : Server σ) (site : Site) (ref : ReferenceDescription) (x : Progress σ) :
    (readStep srv site ref x).2.varOut = x.varOut := rfl

theorem referenceStep_turn (srv : Server σ) (mem : Memory) (entry : Json) (site : Site)
    (ref : ReferenceDescription) (x : Progress σ) :
    Turn srv mem entry site ref x (referenceStep srv mem entry site ref x) := by
  rw [referenceStep]
  by_cases hClass : ref.nodeClass ≠ .variable
  · rw [if_pos hClass]
    exact .skipped hClass
  rw [if_neg hClass]
  have hClass := not_not.mp hClass
  dsimp only
  cases hValue : (readStep srv site ref x).1.value with
  | none => exact .unread hClass hValue
  | some value =>
    dsimp only
    cases hName : entryName entry with
    | error e => exact .thrown hClass hValue (Or.inl ⟨e, hName⟩)
    | ok wanted =>
      dsimp only
      split
      · rename_i hHits
        cases hVariant : createVariant (mem.slot site) entry (mem.newValue site) with
        | error e => exact .thrown hClass hValue (Or.inr ⟨e, hVariant⟩)
        | ok newValue => exact .hit hClass hValue hName hHits hVariant
      · rename_i hHits
        rw [readStep_varOut]
        cases hReport : report (cstr (uastrToCharArr (mem.keyBlock site) ref.displayName))
            (mem.textBlock site) value x.varOut with
        | error e => exact .broken hClass hValue hName hHits hReport
        | ok varOut => exact .missed hClass hValue hName hHits hReport

/-! ## All references of a turn -/

theorem index_of_entryName {entry : Json} {wanted : Bytes} (h : entryName entry = .ok wanted) :
    ∃ value, entry.index (ascii "value") = .ok value := by
  cases entry with
  | null => exact ⟨.null, rfl⟩
  | object fields => exact ⟨_, rfl⟩
  | boolean b => cases h
  | integer n => cases h
  | double d => cases h
  | string s => cases h
  | array elements => cases h

theorem entryName_entry (e : Entry) : entryName e.json = .ok e.name := by
  rw [entryName, e.index_name]
  rfl

theorem Turn.thrown_name {entry : Json} {mem : Memory} {site : Site}
    (hReason : (∃ e, entryName entry = .error e) ∨
      ∃ e, createVariant (mem.slot site) entry (mem.newValue site) = .error e) :
    ∀ wanted, entryName entry ≠ .ok wanted := by
  intro wanted hName
  rcases hReason with ⟨e, hError⟩ | ⟨e, hError⟩
  · rw [hName] at hError
    cases hError
  · obtain ⟨element, hIndex⟩ := index_of_entryName hName
    rw [createVariant_eq hIndex] at hError
    cases hError

/-- The reading is not of the entry's variable, and its value cannot be reported. -/
def Breaks (mem : Memory) (wanted : Bytes) (r : Reading) : Prop :=
  ¬ Hits mem r.site r.ref wanted ∧
    ∃ value, r.response.value = some value ∧ value.lacks UaType.reported = true

/-- What holds of a turn whose loop has gone through `done`, also when it is left. -/
structure TurnInv (mem : Memory) (entry : Json) (pass result k : Nat)
    (done : List ReferenceDescription) (x : Progress σ) : Prop where
  blank : Blank x.varOut
  reads : ∀ r ∈ x.reads, r.ref ∈ done ∧ r.ref.nodeClass = .variable ∧
    ∃ j, r.site = ⟨pass, result, k, j⟩
  writes : ∀ w ∈ x.writes, ∃ r ∈ x.reads, r.ref = w.ref ∧ r.response.value ≠ none ∧
    ∃ wanted, entryName entry = .ok wanted ∧ Hits mem r.site r.ref wanted ∧
      createVariant (mem.slot r.site) entry (mem.newValue r.site) = .ok w.value
  sent : ∀ r ∈ x.reads, r.response.value ≠ none → ∀ wanted, entryName entry = .ok wanted →
    Hits mem r.site r.ref wanted → ∃ w ∈ x.writes, w.ref = r.ref ∧
      createVariant (mem.slot r.site) entry (mem.newValue r.site) = .ok w.value

/-- What holds besides when it is not left. -/
structure TurnDone (mem : Memory) (entry : Json) (x : Progress σ) : Prop where
  found : x.findIndex < 0 ↔ ∀ r ∈ x.reads, r.response.value ≠ none →
    ∀ wanted, entryName entry = .ok wanted → ¬ Hits mem r.site r.ref wanted
  whole : ∀ wanted, entryName entry = .ok wanted → ∀ r ∈ x.reads, ¬ Breaks mem wanted r

/-- Why it is left: the entry has no name, or a reading breaks it. -/
def Left (mem : Memory) (entry : Json) (x : Progress σ) : Prop :=
  ∀ wanted, entryName entry = .ok wanted → ∃ r ∈ x.reads, Breaks mem wanted r

section

variable {srv : Server σ} {mem : Memory} {entry : Json} {pass result k : Nat}
  {done : List ReferenceDescription} {x : Progress σ}

theorem TurnInv.weaken (h : TurnInv mem entry pass result k done x) (rest : List ReferenceDescription) :
    TurnInv mem entry pass result k (done ++ rest) x where
  blank := h.blank
  reads r hr := by
    obtain ⟨hMem, hRest⟩ := h.reads r hr
    exact ⟨List.mem_append_left _ hMem, hRest⟩
  writes := h.writes
  sent := h.sent

/-- One more reading that is not of the entry's variable. -/
theorem TurnInv.readStep (h : TurnInv mem entry pass result k done x) (srv : Server σ)
    (ref : ReferenceDescription) (hClass : ref.nodeClass = .variable) (j : Nat)
    (hMiss : (SyncClient.readStep srv ⟨pass, result, k, j⟩ ref x).1.value ≠ none →
      ∀ wanted, entryName entry = .ok wanted → ¬ Hits mem ⟨pass, result, k, j⟩ ref wanted) :
    TurnInv mem entry pass result k (done ++ [ref])
      (SyncClient.readStep srv ⟨pass, result, k, j⟩ ref x).2 where
  blank := h.blank
  reads r hr := by
    rcases List.mem_append.mp hr with hr | hr
    · exact (h.weaken [ref]).reads r hr
    · rw [List.mem_singleton.mp hr]
      exact ⟨List.mem_append_right _ (List.mem_singleton.mpr rfl), hClass, j, rfl⟩
  writes w hw := by
    obtain ⟨r, hr, hRest⟩ := h.writes w hw
    exact ⟨r, List.mem_append_left _ hr, hRest⟩
  sent r hr hValue wanted hWanted hHits := by
    rcases List.mem_append.mp hr with hr | hr
    · exact h.sent r hr hValue wanted hWanted hHits
    · rw [List.mem_singleton.mp hr] at hValue hHits
      exact absurd hHits (hMiss hValue wanted hWanted)

/-- One more reading, of the entry's variable, and the write that follows. -/
theorem TurnInv.writeStep (h : TurnInv mem entry pass result k done x) (srv : Server σ)
    (ref : ReferenceDescription) (hClass : ref.nodeClass = .variable) (j : Nat) {wanted : Bytes}
    {newValue : Variant}
    (hSome : (SyncClient.readStep srv ⟨pass, result, k, j⟩ ref x).1.value ≠ none)
    (hName : entryName entry = .ok wanted) (hHits : Hits mem ⟨pass, result, k, j⟩ ref wanted)
    (hVariant : createVariant (mem.slot ⟨pass, result, k, j⟩) entry
      (mem.newValue ⟨pass, result, k, j⟩) = .ok newValue) :
    TurnInv mem entry pass result k (done ++ [ref])
      (SyncClient.writeStep srv ⟨pass, result, k, j⟩ ref newValue
        (SyncClient.readStep srv ⟨pass, result, k, j⟩ ref x).2) where
  blank := h.blank
  reads r hr := by
    rcases List.mem_append.mp hr with hr | hr
    · exact (h.weaken [ref]).reads r hr
    · rw [List.mem_singleton.mp hr]
      exact ⟨List.mem_append_right _ (List.mem_singleton.mpr rfl), hClass, j, rfl⟩
  writes w hw := by
    rcases List.mem_append.mp hw with hw | hw
    · obtain ⟨r, hr, hRest⟩ := h.writes w hw
      exact ⟨r, List.mem_append_left _ hr, hRest⟩
    · rw [List.mem_singleton.mp hw]
      exact ⟨_, List.mem_append_right _ (List.mem_singleton.mpr rfl), rfl, hSome, _, hName, hHits,
        hVariant⟩
  sent r hr hValue other hOther hHits' := by
    rcases List.mem_append.mp hr with hr | hr
    · obtain ⟨w, hw, hRest⟩ := h.sent r hr hValue other hOther hHits'
      exact ⟨w, List.mem_append_left _ hw, hRest⟩
    · rw [List.mem_singleton.mp hr]
      exact ⟨_, List.mem_append_right _ (List.mem_singleton.mpr rfl), rfl, hVariant⟩

theorem TurnDone.readStep (h : TurnDone mem entry x) (srv : Server σ) (site : Site)
    (ref : ReferenceDescription)
    (hMiss : ∀ value, (SyncClient.readStep srv site ref x).1.value = some value →
      ∀ wanted, entryName entry = .ok wanted → ¬ Hits mem site ref wanted ∧
        value.lacks UaType.reported = false) :
    TurnDone mem entry (SyncClient.readStep srv site ref x).2 where
  found := by
    refine h.found.trans ⟨fun hOld r hr => ?_, fun hNew r hr => hNew r (List.mem_append_left _ hr)⟩
    rcases List.mem_append.mp hr with hr | hr
    · exact hOld r hr
    · rw [List.mem_singleton.mp hr]
      intro hSome wanted hWanted
      obtain ⟨value, hValue⟩ := Option.ne_none_iff_exists'.mp hSome
      exact (hMiss value hValue wanted hWanted).1
  whole wanted hWanted r hr := by
    rcases List.mem_append.mp hr with hr | hr
    · exact h.whole wanted hWanted r hr
    · rw [List.mem_singleton.mp hr]
      rintro ⟨_, value, hValue, hLacks⟩
      rw [(hMiss value hValue wanted hWanted).2] at hLacks
      cases hLacks

theorem referenceStep_ends (hInv : TurnInv mem entry pass result k done x)
    (hDone : TurnDone mem entry x) (ref : ReferenceDescription) (j : Nat) :
    Ends (fun x => TurnInv mem entry pass result k (done ++ [ref]) x ∧ TurnDone mem entry x)
      (fun x => TurnInv mem entry pass result k (done ++ [ref]) x ∧ Left mem entry x)
      (referenceStep srv mem entry ⟨pass, result, k, j⟩ ref x) := by
  have hTurn := referenceStep_turn srv mem entry ⟨pass, result, k, j⟩ ref x
  generalize referenceStep srv mem entry ⟨pass, result, k, j⟩ ref x = outcome at hTurn
  cases hTurn with
  | skipped hClass => exact ⟨hInv.weaken [ref], hDone⟩
  | unread hClass hValue =>
    refine ⟨hInv.readStep srv ref hClass j fun hSome => absurd hValue hSome,
      hDone.readStep srv _ ref fun value hSome => ?_⟩
    rw [hValue] at hSome
    cases hSome
  | thrown hClass hValue hReason =>
    have hName := Turn.thrown_name hReason
    exact ⟨hInv.readStep srv ref hClass j fun _ wanted hWanted => absurd hWanted (hName wanted),
      fun wanted hWanted => absurd hWanted (hName wanted)⟩
  | @hit hClass value newValue wanted hValue hName hHits hVariant =>
    have hSome : (readStep srv ⟨pass, result, k, j⟩ ref x).1.value ≠ none := by
      rw [hValue]
      exact Option.some_ne_none _
    refine ⟨hInv.writeStep srv ref hClass j hSome hName hHits hVariant, ?_, ?_⟩
    · constructor
      · intro hNeg
        have hNeg : (k : Int) < 0 := hNeg
        omega
      · intro hNone
        exact absurd hHits (hNone _ (List.mem_append_right _ (List.mem_singleton.mpr rfl)) hSome _ hName)
    · intro other hOther r hr
      rcases List.mem_append.mp hr with hr | hr
      · exact hDone.whole other hOther r hr
      · rw [List.mem_singleton.mp hr]
        rintro ⟨hMiss, _⟩
        rw [hName] at hOther
        cases hOther
        exact hMiss hHits
  | @missed hClass value wanted varOut hValue hName hHits hReport =>
    obtain ⟨hThere, hBlank⟩ := hInv.blank.report hReport
    have hMiss (other : Bytes) (hOther : entryName entry = .ok other) :
        ¬ Hits mem ⟨pass, result, k, j⟩ ref other := by
      rw [hName] at hOther
      cases hOther
      exact hHits
    have hRead := hInv.readStep srv ref hClass j fun _ => hMiss
    have hWhole := hDone.readStep srv ⟨pass, result, k, j⟩ ref fun value' hValue' other hOther => by
      rw [hValue] at hValue'
      cases hValue'
      exact ⟨hMiss other hOther, hThere⟩
    exact ⟨⟨hBlank, hRead.reads, hRead.writes, hRead.sent⟩, hWhole.found, hWhole.whole⟩
  | @broken hClass value wanted e hValue hName hHits hReport =>
    have hMiss (other : Bytes) (hOther : entryName entry = .ok other) :
        ¬ Hits mem ⟨pass, result, k, j⟩ ref other := by
      rw [hName] at hOther
      cases hOther
      exact hHits
    refine ⟨hInv.readStep srv ref hClass j fun _ => hMiss, fun other hOther => ?_⟩
    exact ⟨_, List.mem_append_right _ (List.mem_singleton.mpr rfl), hMiss other hOther, value, hValue,
      hInv.blank.report_error hReport⟩

theorem turnInv_start {c : Client σ} (h : Blank c.varOut) :
    TurnInv mem entry pass result k [] (startTurn c) where
  blank := h
  reads r hr := by cases hr
  writes w hw := by cases hw
  sent r hr := by cases hr

theorem turnDone_start (c : Client σ) : TurnDone mem entry (startTurn c) where
  found := by
    constructor
    · intro _ r hr
      cases hr
    · intro _
      exact Int.negSucc_lt_zero 0
  whole wanted _ r hr := by cases hr

theorem referenceLoop_ends (srv : Server σ) (mem : Memory) (entry : Json) (pass result k : Nat)
    (refs : List ReferenceDescription) {c : Client σ} (h : Blank c.varOut) :
    Ends (fun x => TurnInv mem entry pass result k refs x ∧ TurnDone mem entry x)
      (fun x => TurnInv mem entry pass result k refs x ∧ Left mem entry x)
      (referenceLoop srv mem entry pass result k refs (startTurn c)) := by
  apply forEach_ends (I := fun done x => TurnInv mem entry pass result k done x ∧
    TurnDone mem entry x)
  · rintro done ref rest x hRefs ⟨hInv, hDone⟩
    apply (referenceStep_ends hInv hDone ref _).imp (fun _ hx => hx)
    rintro x ⟨hInv, hLeft⟩
    have hWeak := hInv.weaken rest
    rw [List.append_assoc, List.singleton_append, ← hRefs] at hWeak
    exact ⟨hWeak, hLeft⟩
  · exact ⟨turnInv_start h, turnDone_start c⟩

end

/-! ## The log of a run -/

structure Explained (mem : Memory) (entry : Json) (refs : List ReferenceDescription) (v : Visit) :
    Prop where
  reads : ∀ r ∈ v.reads, r.ref ∈ refs ∧ r.ref.nodeClass = .variable ∧
    ∃ j, r.site = ⟨v.pass, v.result, v.entry, j⟩
  writes : ∀ w ∈ v.writes, ∃ r ∈ v.reads, r.ref = w.ref ∧ r.response.value ≠ none ∧
    ∃ wanted, entryName entry = .ok wanted ∧ Hits mem r.site r.ref wanted ∧
      createVariant (mem.slot r.site) entry (mem.newValue r.site) = .ok w.value
  sent : ∀ r ∈ v.reads, r.response.value ≠ none → ∀ wanted, entryName entry = .ok wanted →
    Hits mem r.site r.ref wanted → ∃ w ∈ v.writes, w.ref = r.ref ∧
      createVariant (mem.slot r.site) entry (mem.newValue r.site) = .ok w.value
  created : ∀ wanted, entryName entry = .ok wanted →
    (v.created ≠ [] ↔ (∀ r ∈ v.reads, r.response.value ≠ none → ¬ Hits mem r.site r.ref wanted) ∧
      ∀ r ∈ v.reads, ¬ Breaks mem wanted r)

structure LogInv (srv : Nat → Server σ) (mem : Memory) (vars : List Json) (c : Client σ) : Prop where
  blank : Blank c.varOut
  answered : ∀ v ∈ c.log, ∃ s, v.response = (getResponse (srv v.pass) s).1
  log : ∀ v ∈ c.log, ∃ result entry, v.response.results[v.result]? = some result ∧
    vars[v.entry]? = some entry ∧ Explained mem entry result.references v

section

variable {srv : Nat → Server σ} {mem : Memory} {vars : List Json} {entry : Json} {c : Client σ}

theorem LogInv.finishTurn (h : LogInv srv mem vars c) {x : Progress σ} {pass i k : Nat}
    {response : BrowseResponse} {result : BrowseResult} {created : List AddNodesRequest}
    (hResponse : ∃ s, response = (getResponse (srv pass) s).1)
    (hResult : response.results[i]? = some result) (hEntry : vars[k]? = some entry)
    (hBlank : Blank x.varOut)
    (hVisit : Explained mem entry result.references
      ⟨pass, response, i, k, x.reads, x.writes, created⟩) :
    LogInv srv mem vars (finishTurn x c pass response i k created) where
  blank := hBlank
  answered v hv := by
    rcases List.mem_append.mp hv with hv | hv
    · exact h.answered v hv
    · rw [List.mem_singleton.mp hv]
      exact hResponse
  log v hv := by
    rcases List.mem_append.mp hv with hv | hv
    · exact h.log v hv
    · rw [List.mem_singleton.mp hv]
      exact ⟨result, entry, hResult, hEntry, hVisit⟩

theorem TurnInv.explained {refs : List ReferenceDescription} {pass i k : Nat} {x : Progress σ}
    (h : TurnInv mem entry pass i k refs x) (hLeft : Left mem entry x) (response : BrowseResponse) :
    Explained mem entry refs ⟨pass, response, i, k, x.reads, x.writes, []⟩ where
  reads := h.reads
  writes := h.writes
  sent := h.sent
  created wanted hWanted := by
    obtain ⟨r, hr, hBreaks⟩ := hLeft wanted hWanted
    exact iff_of_false (fun hCreated => hCreated rfl) fun hBoth => hBoth.2 r hr hBreaks

theorem entryStep_ends (h : LogInv srv mem vars c) {pass i k : Nat} {response : BrowseResponse}
    {result : BrowseResult} (hResponse : ∃ s, response = (getResponse (srv pass) s).1)
    (hResult : response.results[i]? = some result)
    (hEntry : vars[k]? = some entry) :
    Ends (LogInv srv mem vars) (LogInv srv mem vars)
      (entryStep (srv pass) mem pass response i result.references k entry c) := by
  have hLoop := referenceLoop_ends (srv pass) mem entry pass i k result.references h.blank
  rw [entryStep]
  cases hRun : referenceLoop (srv pass) mem entry pass i k result.references (startTurn c) with
  | error x =>
    rw [hRun] at hLoop
    obtain ⟨hInv, hLeft⟩ := hLoop
    exact h.finishTurn hResponse hResult hEntry hInv.blank (hInv.explained hLeft response)
  | ok x =>
    rw [hRun] at hLoop
    obtain ⟨hInv, hDone⟩ := hLoop
    dsimp only
    split
    · rename_i hNeg
      split
      · rename_i e hError
        apply h.finishTurn hResponse hResult hEntry hInv.blank (hInv.explained ?_ response)
        intro wanted hWanted
        rw [hError] at hWanted
        cases hWanted
      · rename_i name hName
        have hNone := hDone.found.mp hNeg
        have hVisit : Explained mem entry result.references
            ⟨pass, response, i, k, x.reads, x.writes, [creation]⟩ :=
          ⟨hInv.reads, hInv.writes, hInv.sent, fun wanted hWanted =>
            iff_of_true (List.cons_ne_nil _ _)
              ⟨fun r hr hValue => hNone r hr hValue wanted hWanted, hDone.whole wanted hWanted⟩⟩
        exact h.finishTurn (x := { x with server := _, retval := _ }) hResponse hResult hEntry
          hInv.blank hVisit
    · rename_i hPos
      apply h.finishTurn hResponse hResult hEntry hInv.blank
      refine ⟨hInv.reads, hInv.writes, hInv.sent, fun wanted hWanted => ?_⟩
      apply iff_of_false (fun hCreated => hCreated rfl)
      rintro ⟨hNone, _⟩
      apply hPos (hDone.found.mpr ?_)
      intro r hr hValue other hOther
      rw [hWanted] at hOther
      cases hOther
      exact hNone r hr hValue

theorem pass_ends (h : LogInv srv mem vars c) (t : Nat) :
    Ends (LogInv srv mem vars) (LogInv srv mem vars) (pass (srv t) mem vars t c) := by
  rw [pass]
  apply Ends.bind (p := LogInv srv mem vars)
  · apply forEach_preserves
    · intro i result c' hResult hc
      apply forEach_preserves
      · intro k entry c'' hEntry hc
        exact entryStep_ends hc ⟨c.server, rfl⟩ hResult hEntry
      · exact hc
    · exact ⟨h.blank, h.answered, h.log⟩
  · intro c hc
    exact ⟨hc.blank, hc.answered, hc.log⟩

theorem iteration_ends (h : LogInv srv mem vars c) (t : Nat) :
    Ends (LogInv srv mem vars) (LogInv srv mem vars) (iteration (srv t) mem vars t c) := by
  have hConnected : LogInv srv mem vars { c with
      server := ((srv t).connect c.server).2, retval := ((srv t).connect c.server).1 } :=
    ⟨h.blank, h.answered, h.log⟩
  rw [iteration]
  split
  · exact hConnected
  · split
    · exact hConnected
    · exact pass_ends hConnected t

theorem logInv_start (s : σ) : LogInv srv mem vars (start s) where
  blank := Or.inl rfl
  answered v hv := by cases hv
  log v hv := by cases hv

end

/-- In every run the report is blank and every visit of the log is explained. -/
theorem mainLoop_ends (srv : Nat → Server σ) (mem : Memory) (vars : List Json) (n : Nat) (s : σ) :
    Ends (LogInv srv mem vars) (LogInv srv mem vars) (mainLoop srv mem vars n (start s)) :=
  repeated_ends (I := fun _ => LogInv srv mem vars) (fun t _ h => iteration_ends h t)
    (logInv_start s) n

end OpcConfig.SyncClient
