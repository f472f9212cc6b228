import OpcConfig.SyncTurn
import OpcConfig.Holds

/-! # Which requests a run of the synchronisation client sends

Both results are about every run against every server: when a write goes to a
variable of a configured name, and when a creation follows from absence.
-/

namespace OpcConfig.SyncClient

set_option autoImplicit false

open CString Loop

variable {σ : Type}

def runLog (srv : Nat → Server σ) (mem : Memory) (vars : List Json) (n : Nat) (s : σ) : List Visit :=
  (outcome (mainLoop srv mem vars n (start s))).log

theorem runLog_explained {srv : Nat → Server σ} {mem : Memory} {vars : List Json} {n : Nat} {s : σ}
    {v : Visit} (hv : v ∈ runLog srv mem vars n s) :
    (∃ s', v.response = (getResponse (srv v.pass) s').1) ∧
    ∃ result entry, v.response.results[v.result]? = some result ∧ vars[v.entry]? = some entry ∧
      Explained mem entry result.references v := by
  have h := (mainLoop_ends srv mem vars n s).outcome
  exact ⟨h.answered v hv, h.log v hv⟩

/-! ## Writes -/

/-- The bytes the comparison sees of a display name copied into `block`. -/
def readBack (block displayName : Bytes) : Bytes :=
  if (0 : UInt8) ∈ displayName then cstr displayName
  else displayName ++ cstr (block.drop displayName.length)

theorem hits_iff (mem : Memory) (site : Site) (ref : ReferenceDescription) (wanted : Bytes) :
    Hits mem site ref wanted ↔ readBack (mem.nameBlock site) ref.displayName = cstr wanted := by
  rw [Hits, uastrToCharArr, cstr_memccpy, readBack]

def Asked (vars : List Json) (w : Writing) : Prop :=
  ∃ entry ∈ vars, ∃ value, entryName entry = .ok w.ref.displayName ∧
    entry.index (ascii "value") = .ok value ∧ w.value.holds value = true

def AskedHere (vars : List Json) (v : Visit) (w : Writing) : Prop :=
  ∃ entry, vars[v.entry]? = some entry ∧ ∃ value, entryName entry = .ok w.ref.displayName ∧
    entry.index (ascii "value") = .ok value ∧ w.value.holds value = true

theorem AskedHere.asked {vars : List Json} {v : Visit} {w : Writing} (h : AskedHere vars v w) :
    Asked vars w := by
  obtain ⟨entry, hEntry, hRest⟩ := h
  exact ⟨entry, List.mem_of_getElem? hEntry, hRest⟩

/-- At every readable variable of the visit: what is read back equals the name
of the entry up to its first NUL only if the display name is that name, and then
the value of the entry is what the write finds in the place of the local variable. -/
def SoundVisit (mem : Memory) (vars : List Json) (v : Visit) : Prop :=
  ∀ entry name value, vars[v.entry]? = some entry → entryName entry = .ok name →
    entry.index (ascii "value") = .ok value → ∀ r ∈ v.reads, r.response.value ≠ none →
      readBack (mem.nameBlock r.site) r.ref.displayName = cstr name →
        r.ref.displayName = name ∧ (mem.slot r.site).agrees value = true

theorem Explained.askedHere_iff {mem : Memory} {vars : List Json} {entry : Json}
    {refs : List ReferenceDescription} {v : Visit} (h : Explained mem entry refs v)
    (hEntry : vars[v.entry]? = some entry) :
    (∀ w ∈ v.writes, AskedHere vars v w) ↔ SoundVisit mem vars v := by
  constructor
  · intro hAsked entry' name value hEntry' hName hValue r hr hSome hBack
    rw [hEntry] at hEntry'
    cases hEntry'
    obtain ⟨w, hw, hRef, hVariant⟩ := h.sent r hr hSome name hName ((hits_iff mem _ _ _).mpr hBack)
    obtain ⟨entry', hEntry', value', hName', hValue', hHolds⟩ := hAsked w hw
    rw [hEntry] at hEntry'
    cases hEntry'
    rw [hName] at hName'
    cases hName'
    rw [hValue] at hValue'
    cases hValue'
    rw [createVariant_eq hValue] at hVariant
    rw [← Except.ok.inj hVariant, written_holds] at hHolds
    exact ⟨congrArg ReferenceDescription.displayName hRef.symm, hHolds⟩
  · intro hSound w hw
    obtain ⟨r, hr, hRef, hSome, name, hName, hHits, hVariant⟩ := h.writes w hw
    obtain ⟨value, hValue⟩ := index_of_entryName hName
    obtain ⟨hDisplay, hKept⟩ := hSound entry name value hEntry hName hValue r hr hSome
      ((hits_iff mem _ _ _).mp hHits)
    rw [createVariant_eq hValue] at hVariant
    refine ⟨entry, hEntry, value, ?_, hValue, ?_⟩
    · rw [hName, ← hRef, hDisplay]
    · rw [← Except.ok.inj hVariant, written_holds]
      exact hKept

/-- A visit sends only the writes its entry asks for exactly when it is sound,
and a run of sound visits sends no write that no entry asks for. -/
theorem writes_asked (srv : Nat → Server σ) (mem : Memory) (vars : List Json) (n : Nat) (s : σ) :
    (∀ v ∈ runLog srv mem vars n s,
      (∀ w ∈ v.writes, AskedHere vars v w) ↔ SoundVisit mem vars v) ∧
    ((∀ v ∈ runLog srv mem vars n s, SoundVisit mem vars v) →
      ∀ v ∈ runLog srv mem vars n s, ∀ w ∈ v.writes, Asked vars w) := by
  have hEach : ∀ v ∈ runLog srv mem vars n s,
      (∀ w ∈ v.writes, AskedHere vars v w) ↔ SoundVisit mem vars v := by
    intro v hv
    obtain ⟨_, result, entry, _, hEntry, hExplained⟩ := runLog_explained hv
    exact hExplained.askedHere_iff hEntry
  refine ⟨hEach, fun hSound v hv w hw => ?_⟩
  exact ((hEach v hv).mpr (hSound v hv) w hw).asked

def oneVariable (displayName : Bytes) (answer : ReadResponse) : Server Unit where
  connect s := (StatusCode.good, s)
  browse _ s :=
    (⟨[⟨[⟨⟨1, .numeric 7⟩, .variable, ⟨1, displayName⟩, displayName⟩], []⟩]⟩, s)
  read _ s := (answer, s)
  write _ _ s := (StatusCode.good, s)
  addVariableNode _ s := (StatusCode.good, s)

def entryOf (name : String) (n : UInt8) : Json :=
  .object [(ascii "name", .string (ascii name)), (ascii "value", .integer (.ofByte n))]

def zeroMemory : Memory :=
  { nameBlock := fun _ => [], keyBlock := fun _ => [], textBlock := fun _ => []
    newValue := fun _ => .empty, slot := fun _ => .kept }

/-- Blocks in which a copied byte is followed by what an earlier string left. -/
def staleMemory : Memory := { zeroMemory with nameBlock := fun _ => ascii "xar" }

def reusedMemory : Memory := { zeroMemory with slot := fun _ => .overwritten }

/-- The variable `v` is overwritten with the value of the entry `var`, and `a`
with a number that is in no entry. -/
theorem writes_asked_fails :
    (∃ v ∈ runLog (fun _ => oneVariable (ascii "v") ⟨StatusCode.good, [⟨true, .scalar (.int32 5)⟩]⟩)
        staleMemory [entryOf "var" 1] 1 (),
      ∃ w ∈ v.writes, ¬ Asked [entryOf "var" 1] w) ∧
    ∃ v ∈ runLog (fun _ => oneVariable (ascii "a") ⟨StatusCode.good, [⟨true, .scalar (.int32 5)⟩]⟩)
        reusedMemory [entryOf "a" 1] 1 (),
      ∃ w ∈ v.writes, ¬ Asked [entryOf "a" 1] w := by
  constructor
  · refine ⟨_, List.mem_cons_self, _, List.mem_cons_self, ?_⟩
    rintro ⟨entry, hEntry, value, hName, -, -⟩
    rw [List.mem_singleton.mp hEntry] at hName
    exact absurd (Except.ok.inj hName) (by decide)
  · refine ⟨_, List.mem_cons_self, _, List.mem_cons_self, ?_⟩
    rintro ⟨entry, hEntry, value, -, hValue, hHolds⟩
    rw [List.mem_singleton.mp hEntry] at hValue
    rw [← Except.ok.inj hValue] at hHolds
    exact absurd hHolds (by decide)

/-! ## Creations -/

/-- Display names are copied into blocks that read as zero behind the copy. -/
def Faithful (mem : Memory) : Prop :=
  ∀ site displayName, cstr (uastrToCharArr (mem.nameBlock site) displayName) = cstr displayName

def CreatesAbsent (vars : List Json) (v : Visit) : Prop :=
  v.created ≠ [] → ∀ entry name, vars[v.entry]? = some entry → entryName entry = .ok name →
    ∀ ref ∈ v.response.references, ref.nodeClass = .variable → ref.displayName ≠ name

/-- Of the variables in the response with the name of the entry one is read, or
the turn is left at a value that lacks the element to report. -/
def ReadsPresent (vars : List Json) (v : Visit) : Prop :=
  ∀ entry name, vars[v.entry]? = some entry → entryName entry = .ok name →
    (∃ ref ∈ v.response.references, ref.nodeClass = .variable ∧ ref.displayName = name) →
      ∃ r ∈ v.reads, ∃ value, r.response.value = some value ∧
        (r.ref.displayName = name ∨ value.lacks UaType.reported = true)

theorem hits_iff_of_faithful {mem : Memory} (hMem : Faithful mem) {ref : ReferenceDescription}
    {wanted : Bytes} (hRef : (0 : UInt8) ∉ ref.displayName) (hWanted : (0 : UInt8) ∉ wanted)
    (site : Site) : Hits mem site ref wanted ↔ ref.displayName = wanted := by
  rw [Hits, hMem, cstr_eq_self hRef, cstr_eq_self hWanted]

theorem mem_references_of_result {response : BrowseResponse} {i : Nat} {result : BrowseResult}
    (h : response.results[i]? = some result) {ref : ReferenceDescription}
    (hRef : ref ∈ result.references) : ref ∈ response.references :=
  List.mem_flatMap.mpr ⟨result, List.mem_of_getElem? h, hRef⟩

theorem Explained.createsAbsent_iff {mem : Memory} {vars : List Json} {entry : Json} {v : Visit}
    {result : BrowseResult} (h : Explained mem entry result.references v)
    (hResult : v.response.results[v.result]? = some result) (hEntry : vars[v.entry]? = some entry)
    (hMem : Faithful mem)
    (hNames : ∀ entry ∈ vars, ∀ name, entryName entry = .ok name → (0 : UInt8) ∉ name)
    (hDisplay : ∀ ref ∈ v.response.references, (0 : UInt8) ∉ ref.displayName) :
    CreatesAbsent vars v ↔ ReadsPresent vars v := by
  have hHits : ∀ r ∈ v.reads, ∀ name, entryName entry = .ok name →
      (Hits mem r.site r.ref name ↔ r.ref.displayName = name) := by
    intro r hr name hName
    have hRef := mem_references_of_result hResult (h.reads r hr).1
    exact hits_iff_of_faithful hMem (hDisplay _ hRef)
      (hNames entry (List.mem_of_getElem? hEntry) name hName) _
  constructor
  · intro hAbsent entry' name hEntry' hName hPresent
    rw [hEntry] at hEntry'
    cases hEntry'
    obtain ⟨ref, hRef, hClass, hDisplayName⟩ := hPresent
    by_contra hNone
    push Not at hNone
    have hCreated : v.created ≠ [] := by
      apply (h.created name hName).mpr
      constructor
      · intro r hr hSome hHit
        obtain ⟨value, hValue⟩ := Option.ne_none_iff_exists'.mp hSome
        exact (hNone r hr value hValue).1 ((hHits r hr name hName).mp hHit)
      · rintro r hr ⟨_, value, hValue, hLacks⟩
        exact (hNone r hr value hValue).2 hLacks
    exact hAbsent hCreated entry name hEntry hName ref hRef hClass hDisplayName
  · intro hReads hCreated entry' name hEntry' hName ref hRef hClass hDisplayName
    rw [hEntry] at hEntry'
    cases hEntry'
    obtain ⟨r, hr, value, hValue, hReason⟩ :=
      hReads entry name hEntry hName ⟨ref, hRef, hClass, hDisplayName⟩
    obtain ⟨hMiss, hWhole⟩ := (h.created name hName).mp hCreated
    have hNot := hMiss r hr (by rw [hValue]; exact Option.some_ne_none value)
    rcases hReason with hSame | hLacks
    · exact hNot ((hHits r hr name hName).mpr hSame)
    · exact hWhole r hr ⟨hNot, value, hValue, hLacks⟩

/-- In a run without NUL in the names, creations follow from absence alone
exactly when every visit reads one of the variables of its entry's name or is
left before. -/
theorem creates_absent_iff (srv : Nat → Server σ) (mem : Memory) (vars : List Json) (n : Nat) (s : σ)
    (hMem : Faithful mem)
    (hNames : ∀ entry ∈ vars, ∀ name, entryName entry = .ok name → (0 : UInt8) ∉ name)
    (hDisplay : ∀ t s, ∀ ref ∈ (getResponse (srv t) s).1.references, (0 : UInt8) ∉ ref.displayName) :
    (∀ v ∈ runLog srv mem vars n s, CreatesAbsent vars v) ↔
      ∀ v ∈ runLog srv mem vars n s, ReadsPresent vars v := by
  apply forall_congr'
  intro v
  apply forall_congr'
  intro hv
  obtain ⟨⟨s', hResponse⟩, result, entry, hResult, hEntry, hExplained⟩ := runLog_explained hv
  apply hExplained.createsAbsent_iff hResult hEntry hMem hNames
  rw [hResponse]
  exact hDisplay v.pass s'

theorem zeroMemory_faithful : Faithful zeroMemory := fun _ displayName =>
  cstr_memccpy_zeros displayName

theorem creates_absent_iff_one :
    (∀ v ∈ runLog (fun _ => oneVariable (ascii "a") ⟨StatusCode.good, [⟨true, .scalar (.int32 5)⟩]⟩)
        zeroMemory [entryOf "a" 1] 1 (),
      CreatesAbsent [entryOf "a" 1] v) ↔
    ∀ v ∈ runLog (fun _ => oneVariable (ascii "a") ⟨StatusCode.good, [⟨true, .scalar (.int32 5)⟩]⟩)
        zeroMemory [entryOf "a" 1] 1 (),
      ReadsPresent [entryOf "a" 1] v := by
  apply creates_absent_iff _ _ _ _ _ zeroMemory_faithful
  · intro entry hEntry name hName
    rw [List.mem_singleton.mp hEntry] at hName
    rw [← Except.ok.inj hName]
    decide
  · intro _ _ ref hRef
    rw [List.mem_singleton.mp hRef]
    decide

theorem creates_absent_fails :
    Faithful zeroMemory ∧
    ∃ v ∈ runLog (fun _ => oneVariable (ascii "a") ⟨0x80050000, []⟩) zeroMemory
        [entryOf "a" 1] 1 (),
      ¬ CreatesAbsent [entryOf "a" 1] v := by
  refine ⟨zeroMemory_faithful, _, List.mem_cons_self, fun hAbsent => ?_⟩
  exact hAbsent (List.cons_ne_nil _ _) _ (ascii "a") rfl rfl _ List.mem_cons_self rfl rfl

end OpcConfig.SyncClient
