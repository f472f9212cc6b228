import OpcConfig.CounterTurn
import OpcConfig.SyncRequests

/-! # What a pass of the counting client prints

The server alone gives the session of a pass: the reads it asks for, their
answers, and the writes in between. For each result of the browse one JSON value
is printed: null, or an array with an element for each answer with a value, in
the order of the references.
-/

namespace OpcConfig.CounterClient

set_option autoImplicit false

open CString Loop Nlohmann

/-! ## The session -/

structure Answer where
  ref : ReferenceDescription
  response : ReadResponse

section

variable {σ : Type} (srv : Server σ)

/-- The server once the variable of an answer has been counted. -/
def counted (ref : ReferenceDescription) (answer : ReadResponse × σ) : σ :=
  match answer.1.value.bind Variant.first with
  | some (.int32 n) => (srv.write ref.nodeId (.scalar (.int32 (n + 1))) answer.2).2
  | _ => answer.2

def answerStep (ref : ReferenceDescription) (s : σ) : List Answer × σ :=
  if ref.nodeClass = .variable then
    let answer := readResponse srv ref.nodeId s
    ([⟨ref, answer.1⟩], counted srv ref answer)
  else ([], s)

/-- The answers for the references of a result, each from before its increment. -/
def answersOf : List ReferenceDescription → σ → List Answer × σ := transcript (answerStep srv)

def resultSession (result : BrowseResult) (s : σ) : List (List Answer) × σ :=
  let answers := answersOf srv result.references s
  ([answers.1], answers.2)

def session : List BrowseResult → σ → List (List Answer) × σ := transcript (resultSession srv)

def passSession (s : σ) : List (List Answer) × σ :=
  let answer := getResponse srv s
  session srv answer.1.results answer.2

theorem answersOf_variable {ref : ReferenceDescription} (h : ref.nodeClass = .variable)
    (done : List ReferenceDescription) (s : σ) : answersOf srv (done ++ [ref]) s =
      ((answersOf srv done s).1 ++ [⟨ref, (readResponse srv ref.nodeId (answersOf srv done s).2).1⟩],
        counted srv ref (readResponse srv ref.nodeId (answersOf srv done s).2)) := by
  rw [answersOf, transcript_snoc, answerStep, if_pos h]

theorem answersOf_other {ref : ReferenceDescription} (h : ref.nodeClass ≠ .variable)
    (done : List ReferenceDescription) (s : σ) :
    answersOf srv (done ++ [ref]) s = answersOf srv done s := by
  rw [answersOf, transcript_snoc, answerStep, if_neg h, List.append_nil]

theorem answersOf_refs (refs : List ReferenceDescription) (s : σ) :
    (answersOf srv refs s).1.map Answer.ref = refs.filter fun ref => ref.nodeClass == .variable := by
  induction refs generalizing s with
  | nil => rfl
  | cons ref refs ih =>
    rw [answersOf, transcript_cons, answerStep, List.map_append]
    rw [answersOf] at ih
    split
    · rename_i hClass
      rw [ih]
      simp [hClass]
    · rename_i hClass
      rw [ih]
      simp [hClass]

/-- Each variable that a result references is read once, in their order. -/
theorem session_refs (results : List BrowseResult) (s : σ) :
    (session srv results s).1.map (List.map Answer.ref) =
      results.map fun result => result.references.filter fun ref => ref.nodeClass == .variable := by
  induction results generalizing s with
  | nil => rfl
  | cons result results ih =>
    rw [session, transcript_cons, resultSession, List.map_append, List.map_cons]
    rw [session] at ih
    rw [ih, List.map_cons, answersOf_refs]
    rfl

variable {srv}

theorem counted_of_first (ref : ReferenceDescription) (answer : ReadResponse × σ) {value : Variant}
    (hValue : answer.1.value = some value) {n : Int32} (hFirst : value.first = some (.int32 n)) :
    counted srv ref answer = (srv.write ref.nodeId (.scalar (.int32 (n + 1))) answer.2).2 := by
  rw [counted, hValue, Option.bind_some, hFirst]

theorem counted_of_none (ref : ReferenceDescription) (answer : ReadResponse × σ)
    (hValue : answer.1.value = none) : counted srv ref answer = answer.2 := by
  rw [counted, hValue, Option.bind_none]

theorem counted_of_type (ref : ReferenceDescription) (answer : ReadResponse × σ) {value : Variant}
    (hValue : answer.1.value = some value) (hType : value.type ≠ some .int32) :
    counted srv ref answer = answer.2 := by
  rw [counted, hValue, Option.bind_some]
  split
  · rename_i n hFirst
    exact absurd (Variant.first_type hFirst) hType
  · rfl

end

/-! ## Elements -/

def shownField : Variant → List (Bytes × Json)
  | .scalar (.int32 n) => [(ascii "value", .ofInt32 n)]
  | .scalar (.double d) => [(ascii "value", dumpFloat d)]
  | _ => []

/-- The printed element for an answer, if it has a value. -/
def shown (a : Answer) : Option Json :=
  a.response.value.map fun value =>
    .object ((ascii "name", .string a.ref.displayName) :: shownField value)

/-- What is printed for the answers of a result. -/
def reportOf (answers : List Answer) : Json := gathered (answers.filterMap shown)

/-- The element for an answer before it is printed. -/
def collected (a : Answer) : Option Json := a.response.value.map (element a.ref.displayName)

/-- A name that `dump` prints and a value that is no array of the reported types
and whose increment stays within Int32. -/
structure PresentableValue (name : Bytes) (value : Variant) : Prop where
  utf8 : ValidUtf8 name
  room : value ≠ .scalar (.int32 Int32.maxValue)
  scalar : ∀ a, value = .array a → a.type ≠ .int32 ∧ a.type ≠ .double

def Presentable (a : Answer) : Prop :=
  ∀ value, a.response.value = some value → PresentableValue a.ref.displayName value

theorem dumpFields_valueField {value : Variant}
    (hScalar : ∀ a, value = .array a → a.type ≠ .int32 ∧ a.type ≠ .double) :
    dumpFields (valueField value) = .ok (shownField value) := by
  have hKey : ValidUtf8 (ascii "value") := by decide +kernel
  cases value with
  | empty => rfl
  | scalar v =>
    cases v with
    | int32 n => exact dumpFields_cons hKey rfl rfl
    | double d => exact dumpFields_cons hKey rfl rfl
    | _ => rfl
  | array a =>
    obtain ⟨hInt, hDouble⟩ := hScalar a rfl
    have hInt' : (Variant.array a).type ≠ some .int32 := fun h => hInt (Option.some.inj h)
    have hDouble' : (Variant.array a).type ≠ some .double := fun h => hDouble (Option.some.inj h)
    rw [valueField_of_other hInt' hDouble']
    rfl

theorem dump_element {name : Bytes} {value : Variant} (h : PresentableValue name value) :
    dump (element name value) = .ok (.object ((ascii "name", .string name) :: shownField value)) := by
  have hKey : ValidUtf8 (ascii "name") := by decide +kernel
  apply dump_object
  exact dumpFields_cons hKey (dump_string h.utf8) (dumpFields_valueField h.scalar)

theorem dumpElements_collected {answers : List Answer} (h : ∀ a ∈ answers, Presentable a) :
    dumpElements (answers.filterMap collected) = .ok (answers.filterMap shown) := by
  induction answers with
  | nil => rfl
  | cons a answers ih =>
    have hRest := ih (fun a ha => h a (List.mem_cons_of_mem _ ha))
    cases hValue : a.response.value with
    | none =>
      have hNone : collected a = none := by rw [collected, hValue, Option.map_none]
      have hShown : shown a = none := by rw [shown, hValue, Option.map_none]
      rw [List.filterMap_cons_none hNone, List.filterMap_cons_none hShown]
      exact hRest
    | some value =>
      have hSome : collected a = some (element a.ref.displayName value) := by
        rw [collected, hValue, Option.map_some]
      have hShown : shown a =
          some (.object ((ascii "name", .string a.ref.displayName) :: shownField value)) := by
        rw [shown, hValue, Option.map_some]
      rw [List.filterMap_cons_some hSome, List.filterMap_cons_some hShown]
      exact dumpElements_cons (dump_element (h a List.mem_cons_self value hValue)) hRest

theorem dump_gathered {l l' : List Json} (h : dumpElements l = .ok l') :
    dump (gathered l) = .ok (gathered l') := by
  cases l with
  | nil =>
    cases Except.ok.inj h
    rfl
  | cons e l =>
    obtain ⟨e', he, hRest⟩ := bind_eq_ok (dumpElements.eq_2 e l ▸ h)
    obtain ⟨l'', hl, hEnd⟩ := bind_eq_ok hRest
    cases Except.ok.inj hEnd
    exact dump_array (dumpElements_cons he hl)

theorem PresentableValue.first_ne_max {name : Bytes} {value : Variant}
    (h : PresentableValue name value) : value.first ≠ some (.int32 Int32.maxValue) := by
  intro hFirst
  cases value with
  | empty => cases hFirst
  | scalar v =>
    cases hFirst
    exact h.room rfl
  | array a =>
    have hType := Variant.first_type hFirst
    exact (h.scalar a rfl).1 (Option.some.inj hType)

theorem PresentableValue.first_ne_none {name : Bytes} {value : Variant}
    (h : PresentableValue name value) (hType : value.type = some .int32 ∨ value.type = some .double) :
    value.first ≠ none := by
  cases value with
  | empty => rcases hType with hType | hType <;> cases hType
  | scalar v => exact Option.some_ne_none v
  | array a =>
    obtain ⟨hInt, hDouble⟩ := h.scalar a rfl
    rcases hType with hType | hType
    · exact absurd (Option.some.inj hType) hInt
    · exact absurd (Option.some.inj hType) hDouble

/-! ## A result -/

section

variable {σ : Type} {srv : Server σ} {mem : CounterSite → Bytes} {t i : Nat} {s : σ}

/-- The state of the inner loop that has gone through `done`, with the server
in state `s` at its beginning. -/
structure ReportInv (srv : Server σ) (s : σ) (done : List ReferenceDescription) (x : Gathering σ) :
    Prop where
  server : x.server = (answersOf srv done s).2
  array : x.dataValue = gathered ((answersOf srv done s).1.filterMap collected)
  count : x.count = ((answersOf srv done s).1.filterMap collected).length

theorem ReportInv.gathers {done : List ReferenceDescription} {x x' : Gathering σ}
    (h : ReportInv srv s done x) {ref : ReferenceDescription} (hClass : ref.nodeClass = .variable)
    {value : Variant} (hValue : (readStep srv ref x).1.value = some value)
    (hServer : x'.server = counted srv ref (readResponse srv ref.nodeId x.server))
    (hCount : x'.count = x.count + 1)
    (hData : x'.dataValue = gathered ((answersOf srv done s).1.filterMap collected ++
      [element ref.displayName value])) : ReportInv srv s (done ++ [ref]) x' := by
  have hLast : collected ⟨ref, (readResponse srv ref.nodeId (answersOf srv done s).2).1⟩ =
      some (element ref.displayName value) := by
    rw [← h.server, collected]
    exact congrArg (Option.map (element ref.displayName)) hValue
  have hMore : (answersOf srv (done ++ [ref]) s).1.filterMap collected =
      (answersOf srv done s).1.filterMap collected ++ [element ref.displayName value] := by
    rw [answersOf_variable srv hClass, List.filterMap_append, List.filterMap_cons_some hLast]
    rfl
  refine ⟨?_, hData.trans (congrArg gathered hMore.symm), ?_⟩
  · rw [hServer, answersOf_variable srv hClass, h.server]
  · rw [hCount, hMore, h.count, List.length_append]
    rfl

theorem ReportInv.unread {done : List ReferenceDescription} {x : Gathering σ}
    (h : ReportInv srv s done x) {ref : ReferenceDescription} (hClass : ref.nodeClass = .variable)
    (hValue : (readStep srv ref x).1.value = none) :
    ReportInv srv s (done ++ [ref]) (readStep srv ref x).2 := by
  have hLast : collected ⟨ref, (readResponse srv ref.nodeId (answersOf srv done s).2).1⟩ = none := by
    rw [← h.server, collected]
    exact congrArg (Option.map (element ref.displayName)) hValue
  have hSame : (answersOf srv (done ++ [ref]) s).1.filterMap collected =
      (answersOf srv done s).1.filterMap collected := by
    rw [answersOf_variable srv hClass, List.filterMap_append, List.filterMap_cons_none hLast]
    exact List.append_nil _
  refine ⟨?_, hSame ▸ h.array, hSame ▸ h.count⟩
  rw [answersOf_variable srv hClass, ← h.server]
  exact (counted_of_none ref (readResponse srv ref.nodeId x.server) hValue).symm

/-- With answers that can be presented no turn comes to a fault. -/
theorem ReportInv.turn {done : List ReferenceDescription} {x : Gathering σ}
    (h : ReportInv srv s done x) {ref : ReferenceDescription} {site : CounterSite}
    (hName : nameRead mem site ref = ref.displayName)
    (hAnswers : ∀ a ∈ (answersOf srv (done ++ [ref]) s).1, Presentable a) :
    Ends (ReportInv srv s (done ++ [ref])) (fun _ => False) (referenceStep srv mem site ref x) := by
  have hLast : ref.nodeClass = .variable → ∀ value, (readStep srv ref x).1.value = some value →
      PresentableValue ref.displayName value := by
    intro hClass value hValue
    rw [answersOf_variable srv hClass] at hAnswers
    apply hAnswers _ (List.mem_append_right _ List.mem_cons_self)
    rw [← h.server]
    exact hValue
  have hTurn := referenceStep_turn srv mem site ref _ x h.array h.count
  generalize referenceStep srv mem site ref x = outcome at hTurn
  cases hTurn with
  | skipped hClass =>
    have hSame := answersOf_other srv hClass done s
    exact ⟨hSame ▸ h.server, hSame ▸ h.array, hSame ▸ h.count⟩
  | unread hClass hValue => exact h.unread hClass hValue
  | counted hClass hValue hFirst hRoom =>
    apply h.gathers hClass hValue _ rfl
    · rw [← hName]
      rfl
    · exact (counted_of_first ref (readResponse srv ref.nodeId x.server) hValue hFirst).symm
  | copied hClass hValue hType hDouble =>
    apply h.gathers hClass hValue _ rfl
    · rw [← hName]
      rfl
    · exact (counted_of_type ref (readResponse srv ref.nodeId x.server) hValue hType).symm
  | overflow hClass hValue hFirst => exact (hLast hClass _ hValue).first_ne_max hFirst
  | missing hClass hValue hType hFirst => exact (hLast hClass _ hValue).first_ne_none hType hFirst

/-- The name of each reading is copied into a block that reads as zero behind it. -/
def Faithful (mem : CounterSite → Bytes) : Prop :=
  ∀ site displayName, cstr (uastrToCharArr (mem site) displayName) = cstr displayName

theorem referenceLoop_reports (srv : Server σ) (hMem : Faithful mem) (t i : Nat)
    {refs : List ReferenceDescription} (hNames : ∀ ref ∈ refs, (0 : UInt8) ∉ ref.displayName)
    (c : Counter σ) (hAnswers : ∀ a ∈ (answersOf srv refs c.server).1, Presentable a) :
    Ends (ReportInv srv c.server refs) (fun _ => False)
      (referenceLoop srv mem t i refs (startResult c)) := by
  apply forEach_ends (I := ReportInv srv c.server)
  · intro done ref rest x hRefs h
    apply h.turn
    · have hMember : ref ∈ refs := hRefs ▸ List.mem_append_right _ List.mem_cons_self
      rw [nameRead, hMem, cstr_eq_self (hNames ref hMember)]
    · intro a ha
      apply hAnswers
      rw [hRefs, ← List.singleton_append, ← List.append_assoc]
      exact mem_transcript_of_prefix _ ha
  · exact ⟨rfl, rfl, rfl⟩

theorem resultStep_reports (srv : Server σ) (hMem : Faithful mem) (t i : Nat) {result : BrowseResult}
    (hNames : ∀ ref ∈ result.references, (0 : UInt8) ∉ ref.displayName) (c : Counter σ)
    (hAnswers : ∀ a ∈ (answersOf srv result.references c.server).1, Presentable a) :
    Ends
      (fun c' => c'.server = (answersOf srv result.references c.server).2 ∧
        c'.printed = c.printed ++ [reportOf (answersOf srv result.references c.server).1])
      (fun _ => False) (resultStep srv mem t i result c) := by
  obtain ⟨x, hEnd, hLoop⟩ := (referenceLoop_reports srv hMem t i hNames c hAnswers).eq_ok
  have hDump : dump x.dataValue = .ok (reportOf (answersOf srv result.references c.server).1) := by
    rw [hLoop.array]
    exact dump_gathered (dumpElements_collected hAnswers)
  rw [resultStep, hEnd]
  dsimp only
  rw [hDump]
  exact ⟨hLoop.server, rfl⟩

/-! ## A pass -/

/-- The state of the loop over the results that has gone through `done`, with the
server in state `s` and the output `old` at its beginning. -/
structure PassInv (srv : Server σ) (s : σ) (old : List Json) (done : List BrowseResult)
    (c : Counter σ) : Prop where
  server : c.server = (session srv done s).2
  printed : c.printed = old ++ (session srv done s).1.map reportOf

theorem session_snoc (srv : Server σ) (done : List BrowseResult) (result : BrowseResult) (s : σ) :
    session srv (done ++ [result]) s =
      ((session srv done s).1 ++ [(answersOf srv result.references (session srv done s).2).1],
        (answersOf srv result.references (session srv done s).2).2) := by
  rw [session, transcript_snoc]
  rfl

theorem PassInv.result {old : List Json} {done : List BrowseResult} {c : Counter σ}
    (h : PassInv srv s old done c) (hMem : Faithful mem) {result : BrowseResult}
    (hNames : ∀ ref ∈ result.references, (0 : UInt8) ∉ ref.displayName)
    (hAnswers : ∀ answers ∈ (session srv (done ++ [result]) s).1, ∀ a ∈ answers, Presentable a) :
    Ends (PassInv srv s old (done ++ [result])) (fun _ => False) (resultStep srv mem t i result c) := by
  rw [session_snoc, ← h.server] at hAnswers
  have hNow := hAnswers _ (List.mem_append_right _ List.mem_cons_self)
  apply (resultStep_reports srv hMem t i hNames c hNow).imp
  · rintro c' ⟨hServer, hPrinted⟩
    constructor
    · rw [session_snoc, ← h.server]
      exact hServer
    · rw [session_snoc, ← h.server, hPrinted, h.printed, List.map_append, List.append_assoc]
      rfl
  · exact fun _ hFalse => hFalse

/-- When the answers of a pass can all be presented, it comes to its end, has sent
its session to the server and has printed the report of each result. -/
theorem pass_reported (srv : Server σ) (mem : CounterSite → Bytes) (hMem : Faithful mem) (t : Nat)
    (c : Counter σ)
    (hNames : ∀ ref ∈ (getResponse srv c.server).1.references, (0 : UInt8) ∉ ref.displayName)
    (hAnswers : ∀ answers ∈ (passSession srv c.server).1, ∀ a ∈ answers, Presentable a) :
    (passSession srv c.server).1.map (List.map Answer.ref) =
        (getResponse srv c.server).1.results.map
          (fun result => result.references.filter fun ref => ref.nodeClass == .variable) ∧
      ∃ c', pass srv mem t c = .ok c' ∧ c'.server = (passSession srv c.server).2 ∧
        c'.printed = c.printed ++ (passSession srv c.server).1.map reportOf := by
  have hPass : Ends (PassInv srv (getResponse srv c.server).2 c.printed
      (getResponse srv c.server).1.results) (fun _ => False) (pass srv mem t c) := by
    apply forEach_ends (I := PassInv srv (getResponse srv c.server).2 c.printed)
    · intro done result rest c' hResults h
      have hMember : result ∈ (getResponse srv c.server).1.results :=
        hResults ▸ List.mem_append_right _ List.mem_cons_self
      apply h.result hMem
      · exact fun ref hRef => hNames ref (List.mem_flatMap.mpr ⟨result, hMember, hRef⟩)
      · intro answers hAnswer
        apply hAnswers
        rw [passSession, hResults, ← List.singleton_append, ← List.append_assoc]
        exact mem_transcript_of_prefix _ hAnswer
    · exact ⟨rfl, (List.append_nil _).symm⟩
  obtain ⟨c', hEnd, h⟩ := hPass.eq_ok
  exact ⟨session_refs srv _ _, c', hEnd, h.server, h.printed⟩

end

def oneAnswer (displayName : Bytes) (value : Variant) : Server Unit :=
  SyncClient.oneVariable displayName ⟨StatusCode.good, [⟨true, value⟩]⟩

theorem pass_reported_five :
    (passSession (oneAnswer (ascii "v") (.scalar (.int32 5))) ()).1.map (List.map Answer.ref) =
        (getResponse (oneAnswer (ascii "v") (.scalar (.int32 5))) ()).1.results.map
          (fun result => result.references.filter fun ref => ref.nodeClass == .variable) ∧
      ∃ c', pass (oneAnswer (ascii "v") (.scalar (.int32 5))) (fun _ => []) 0 (counter ()) = .ok c' ∧
        c'.server = (passSession (oneAnswer (ascii "v") (.scalar (.int32 5))) ()).2 ∧
        c'.printed = [] ++
          (passSession (oneAnswer (ascii "v") (.scalar (.int32 5))) ()).1.map reportOf := by
  apply pass_reported _ _ _ 0 (counter ())
  · intro ref hRef
    rw [List.mem_singleton.mp hRef]
    decide
  · intro answers hAnswers a ha
    rw [List.mem_singleton.mp hAnswers] at ha
    rw [List.mem_singleton.mp ha]
    intro value hValue
    cases hValue
    refine ⟨?_, ?_, ?_⟩
    · decide +kernel
    · decide
    · intro a ha
      cases ha
  · exact fun _ displayName => cstr_memccpy_zeros displayName

/-- Infinity is printed as null, and a name that is not UTF-8 ends the program. -/
theorem pass_reported_fails :
    (¬ ∃ c', pass (oneAnswer (ascii "v") (.scalar (.double ⟨0x7FF0000000000000⟩))) (fun _ => []) 0
        (counter ()) = .ok c' ∧
      c'.printed =
        (passSession (oneAnswer (ascii "v") (.scalar (.double ⟨0x7FF0000000000000⟩))) ()).1.map
          fun answers => gathered (answers.filterMap collected)) ∧
    ¬ ∃ c', pass (oneAnswer [0xFF] (.scalar (.int32 5))) (fun _ => []) 0 (counter ()) = .ok c' := by
  constructor
  · rintro ⟨c', hPass, hPrinted⟩
    have hNull : pass (oneAnswer (ascii "v") (.scalar (.double ⟨0x7FF0000000000000⟩))) (fun _ => []) 0
        (counter ()) = .ok { counter () with
      printed := [.array [.object [(ascii "name", .string (ascii "v")), (ascii "value", .null)]]] } := rfl
    rw [hNull] at hPass
    cases hPass
    cases hPrinted
  · rintro ⟨c', hPass⟩
    have hThrown : pass (oneAnswer [0xFF] (.scalar (.int32 5))) (fun _ => []) 0 (counter ()) =
        .error (.json .invalidUtf8, _) := rfl
    rw [hThrown] at hPass
    cases hPass

end OpcConfig.CounterClient
