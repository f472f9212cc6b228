import OpcConfig.BrowseRows
import OpcConfig.Exchange
import OpcConfig.Library.Loop

/-! # A session of the browsing program, `new_client.cpp`

The browsing functions again, on a server whose state may change with every
call. What `UA_Client_readValueAttribute` makes of an answer is a parameter, and
so is what an uninitialised `value` holds. The settings are behind the
connection. A read of an element that is not there is thrown with what has been
printed before its row. The log lines of the library are left out.
-/

namespace OpcConfig

set_option autoImplicit false

open CString Parties

structure Browsing (σ : Type) where
  server : σ
  printed : List Bytes

/-- How `main` ends; `noElement` is the fault in `PrintVariant`. -/
inductive Ending
  | stopped
  | badConnection (retval : StatusCode)
  | success
  | noElement
  deriving DecidableEq

namespace Ending

def code : Ending → Option Int
  | stopped => some (-1)
  | badConnection _ => some 1
  | success => some 0
  | noElement => none

def text : Ending → Bytes
  | badConnection retval => ascii "Bad conection: " ++ Printf.decimal retval.toNat ++ ascii "\n"
  | _ => []

end Ending

namespace BrowseSession

variable {σ : Type}

section

variable (srv : Server σ) (outValue : ReadResponse → Except StatusCode Variant)
  (uninit : List Nat → Variant)

def print (line : Line) (x : Browsing σ) : Except (Browsing σ) (Browsing σ) :=
  match line.text with
  | some text => .ok { x with printed := x.printed ++ [text] }
  | none => .error x

def browse (nodeid : NodeId) (x : Browsing σ) : BrowseResponse × Browsing σ :=
  let answer := srv.browse nodeid x.server
  (answer.1, { x with server := answer.2 })

def readValueAttribute (nodeId : NodeId) (value : Variant) (x : Browsing σ) : Variant × Browsing σ :=
  let answer := srv.read nodeId x.server
  let x := { x with server := answer.2 }
  match outValue answer.1 with
  | .ok read => (read, x)
  | .error _ => (value, x)

def recursionLoop
    (recursion : NodeId → List Nat → Browsing σ → Except (Browsing σ) (Browsing σ)) (n : Int)
    (path : List Nat) :
    List ReferenceDescription → Nat → Variant → Browsing σ → Except (Browsing σ) (Browsing σ)
  | [], _, _, x => .ok x
  | ref :: refs, j, value, x =>
    if ref.nodeId.namespaceIndex = 0 then recursionLoop recursion n path refs (j + 1) value x
    else
      let answer := readValueAttribute srv outValue ref.nodeId value x
      match ref.nodeId.identifier with
      | .numeric _ => do
        let x ← print (.row ⟨n.toNat, ref, answer.1⟩) answer.2
        let x ← recursion ref.nodeId (path ++ [j]) x
        recursionLoop recursion n path refs (j + 1) answer.1 x
      | .string _ => do
        let x ← print (.row ⟨n.toNat, ref, answer.1⟩) answer.2
        let x ← recursion ref.nodeId (path ++ [j]) x
        recursionLoop recursion n path refs (j + 1) answer.1 x
      | .guid _ => recursionLoop recursion n path refs (j + 1) answer.1 answer.2
      | .byteString _ => recursionLoop recursion n path refs (j + 1) answer.1 answer.2

def browsingVarsRecursion (nodeid : NodeId) (n : Int) (path : List Nat) (x : Browsing σ) :
    Except (Browsing σ) (Browsing σ) :=
  if n > 1 then .ok x
  else
    let bResp := browse srv nodeid x
    recursionLoop srv outValue
      (fun nodeid path x => browsingVarsRecursion nodeid (n + 1) path x)
      n path bResp.1.references 0 (uninit path) bResp.2
termination_by (2 - n).toNat

def objectListing (ref : ReferenceDescription) (j : Nat) (x : Browsing σ) :
    Except (Browsing σ) (Browsing σ) :=
  if ref.nodeId.namespaceIndex = 3 ∨ ref.nodeId.namespaceIndex = 2 then
    browsingVarsRecursion srv outValue uninit ref.nodeId 1 [j] x
  else .ok x

def objectsLoop : List ReferenceDescription → Nat → Browsing σ → Except (Browsing σ) (Browsing σ)
  | [], _, x => .ok x
  | ref :: refs, j, x =>
    match ref.nodeId.identifier with
    | .numeric _ => do
      let x ← print (.object ref) x
      let x ← objectListing srv outValue uninit ref j x
      objectsLoop refs (j + 1) x
    | .string _ => do
      let x ← print (.object ref) x
      let x ← objectListing srv outValue uninit ref j x
      objectsLoop refs (j + 1) x
    | .guid _ => objectsLoop refs (j + 1) x
    | .byteString _ => objectsLoop refs (j + 1) x

def browsingVars (x : Browsing σ) : Except (Browsing σ) (Browsing σ) := do
  let x ← print .title x
  let bResp := browse srv NodeId.objectsFolder x
  let x ← print .header bResp.2
  objectsLoop srv outValue uninit bResp.1.references 0 x

/-- `main` from the connection on; `running` is what the signal handler has left. -/
def main (running : Bool) (s : σ) : Ending × Browsing σ :=
  if running = false then (.stopped, ⟨s, []⟩)
  else
    let status := srv.connect s
    if status.1 ≠ StatusCode.good then (.badConnection status.1, ⟨status.2, []⟩)
    else
      match browsingVars srv outValue uninit ⟨status.2, []⟩ with
      | .ok x => (.success, x)
      | .error x => (.noElement, x)

end

/-! ## What it says -/

def Opened (before : List Exchange) (response : BrowseResponse) : Prop :=
  ∃ later, before = (.connect, .status StatusCode.good) ::
    (.browse NodeId.objectsFolder, .browsed response) :: later

/-- Since the browse with this response there were only reads. -/
def Reading (before : List Exchange) (response : BrowseResponse) : Prop :=
  ∃ earlier nodeid later, before = earlier ++ (.browse nodeid, .browsed response) :: later ∧
    (nodeid.namespaceIndex = 3 ∨ nodeid.namespaceIndex = 2) ∧ ∀ e ∈ later, ∃ id, e.1 = .read id

/-- The program connects once and browses the Objects folder first. It browses
nodes that this has listed in the namespaces 2 and 3, and after each browse it
reads nodes that this has listed outside namespace 0. -/
def Allowed (before : List Exchange) : Request → Prop
  | .connect => before = []
  | .browse nodeid =>
    (before = [(.connect, .status StatusCode.good)] ∧ nodeid = NodeId.objectsFolder) ∨
      ∃ response ref, Opened before response ∧ ref ∈ response.references ∧ ref.nodeId = nodeid ∧
        ref.nodeId.identifier.isPrinted = true ∧
        (nodeid.namespaceIndex = 3 ∨ nodeid.namespaceIndex = 2)
  | .read nodeId => ∃ response ref, Reading before response ∧ ref ∈ response.references ∧
      ref.nodeId = nodeId ∧ nodeId.namespaceIndex ≠ 0
  | .write _ _ => False
  | .addVariableNode _ => False

theorem Opened.snoc {before : List Exchange} {response : BrowseResponse}
    (h : Opened before response) (e : Exchange) : Opened (before ++ [e]) response := by
  obtain ⟨later, rfl⟩ := h
  exact ⟨later ++ [e], rfl⟩

theorem Reading.snoc {before : List Exchange} {response : BrowseResponse}
    (h : Reading before response) (nodeId : NodeId) (a : Reply) :
    Reading (before ++ [(.read nodeId, a)]) response := by
  obtain ⟨earlier, nodeid, later, rfl, hNamespace, hReads⟩ := h
  refine ⟨earlier, nodeid, later ++ [(.read nodeId, a)], by simp, hNamespace, ?_⟩
  exact List.forall_mem_append.mpr ⟨hReads, List.forall_mem_singleton.mpr ⟨nodeId, rfl⟩⟩

section

variable {srv : Server σ} {outValue : ReadResponse → Except StatusCode Variant}
  {uninit : List Nat → Variant} {I : σ → Prop}

theorem readValueAttribute_server (nodeId : NodeId) (value : Variant) (x : Browsing σ) :
    (readValueAttribute srv outValue nodeId value x).2.server = (srv.read nodeId x.server).2 := by
  rw [readValueAttribute]
  split <;> rfl

/-- Whether it returns or not, the server is left in a state with `I`. -/
def Keeps (I : σ → Prop) (r : Except (Browsing σ) (Browsing σ)) : Prop :=
  Loop.Ends (fun x => I x.server) (fun x => I x.server) r

theorem print_keeps (line : Line) {x : Browsing σ} (h : I x.server) : Keeps I (print line x) := by
  rw [print]
  cases line.text with
  | some text => exact h
  | none => exact h

theorem recursionLoop_keeps
    {recursion : NodeId → List Nat → Browsing σ → Except (Browsing σ) (Browsing σ)} {n : Int}
    {path : List Nat} (refs : List ReferenceDescription)
    (hRead : ∀ ref ∈ refs, ref.nodeId.namespaceIndex ≠ 0 → ∀ s, I s → I (srv.read ref.nodeId s).2)
    (hRecursion : ∀ id path (x : Browsing σ), I x.server → Keeps I (recursion id path x)) :
    ∀ j value (x : Browsing σ), I x.server →
      Keeps I (recursionLoop srv outValue recursion n path refs j value x) := by
  induction refs with
  | nil => exact fun j value x h => h
  | cons ref refs ih =>
    intro j value x h
    obtain ⟨hFirst, hRest⟩ := List.forall_mem_cons.mp hRead
    rw [recursionLoop]
    split
    · exact ih hRest _ _ _ h
    · rename_i hNamespace
      have hAnswer : I (readValueAttribute srv outValue ref.nodeId value x).2.server := by
        rw [readValueAttribute_server]
        exact hFirst hNamespace _ h
      have hPrinted : Keeps I (do
          let answer := readValueAttribute srv outValue ref.nodeId value x
          let x ← print (.row ⟨n.toNat, ref, answer.1⟩) answer.2
          let x ← recursion ref.nodeId (path ++ [j]) x
          recursionLoop srv outValue recursion n path refs (j + 1) answer.1 x) :=
        (print_keeps _ hAnswer).bind fun x hx => (hRecursion _ _ x hx).bind fun x hx =>
          ih hRest _ _ x hx
      cases ref.nodeId.identifier with
      | numeric number => exact hPrinted
      | string s => exact hPrinted
      | guid g => exact ih hRest _ _ _ hAnswer
      | byteString b => exact ih hRest _ _ _ hAnswer

/-- Below a listed object the recursion ends at once. -/
theorem browsingVarsRecursion_one (nodeid : NodeId) (path : List Nat) (x : Browsing σ) :
    browsingVarsRecursion srv outValue uninit nodeid 1 path x =
      recursionLoop srv outValue (fun _ _ x => .ok x) 1 path (browse srv nodeid x).1.references 0
        (uninit path) (browse srv nodeid x).2 := by
  have hBelow : (fun nodeid path x =>
      browsingVarsRecursion srv outValue uninit nodeid (1 + 1) path x) = fun _ _ x => .ok x := by
    funext nodeid path x
    rw [browsingVarsRecursion, if_pos (by decide)]
  rw [browsingVarsRecursion, if_neg (by decide), hBelow]

theorem objectsLoop_keeps (refs : List ReferenceDescription)
    (hListing : ∀ ref ∈ refs, ref.nodeId.identifier.isPrinted = true →
      (ref.nodeId.namespaceIndex = 3 ∨ ref.nodeId.namespaceIndex = 2) →
      ∀ path (x : Browsing σ), I x.server →
        Keeps I (browsingVarsRecursion srv outValue uninit ref.nodeId 1 path x)) :
    ∀ j (x : Browsing σ), I x.server → Keeps I (objectsLoop srv outValue uninit refs j x) := by
  induction refs with
  | nil => exact fun j x h => h
  | cons ref refs ih =>
    intro j x h
    obtain ⟨hFirst, hRest⟩ := List.forall_mem_cons.mp hListing
    have hObject (hPrinted : ref.nodeId.identifier.isPrinted = true) : Keeps I (do
        let x ← print (.object ref) x
        let x ← objectListing srv outValue uninit ref j x
        objectsLoop srv outValue uninit refs (j + 1) x) := by
      refine (print_keeps _ h).bind fun x hx => Loop.Ends.bind ?_ fun x hx => ih hRest _ x hx
      rw [objectListing]
      split
      · rename_i hNamespace
        exact hFirst hPrinted hNamespace _ x hx
      · exact hx
    rw [objectsLoop]
    cases hIdentifier : ref.nodeId.identifier with
    | numeric number => exact hObject (by rw [hIdentifier]; rfl)
    | string s => exact hObject (by rw [hIdentifier]; rfl)
    | guid g => exact ih hRest _ _ h
    | byteString b => exact ih hRest _ _ h

end

section

variable {srv : Server σ} {s : σ} {response : BrowseResponse}

/-- A listing in progress. -/
structure Listing (srv : Server σ) (s : σ) (response : BrowseResponse) (x : σ × List Exchange) :
    Prop where
  talks : Talks (fun _ => srv) Allowed s x
  opened : Opened x.2 response

variable (outValue : ReadResponse → Except StatusCode Variant) (uninit : List Nat → Variant)

theorem browsingVarsRecursion_talks {ref : ReferenceDescription} (hRef : ref ∈ response.references)
    (hPrinted : ref.nodeId.identifier.isPrinted = true)
    (hNamespace : ref.nodeId.namespaceIndex = 3 ∨ ref.nodeId.namespaceIndex = 2) (path : List Nat)
    (x : Browsing (σ × List Exchange)) (h : Listing srv s response x.server) :
    Keeps (Listing srv s response)
      (browsingVarsRecursion srv.recorded outValue uninit ref.nodeId 1 path x) := by
  let below := (srv.browse ref.nodeId x.server.1).1
  have hAllowed : Allowed x.server.2 (.browse ref.nodeId) :=
    Or.inr ⟨response, ref, h.opened, hRef, rfl, hPrinted, hNamespace⟩
  have hBrowsed : Listing srv s response (browse srv.recorded ref.nodeId x).2.server ∧
      Reading (browse srv.recorded ref.nodeId x).2.server.2 below :=
    ⟨⟨h.talks.browse 0 hAllowed, h.opened.snoc _⟩, x.server.2, ref.nodeId, [], rfl, hNamespace,
      fun e he => absurd he List.not_mem_nil⟩
  have hLoop : Keeps (fun x => Listing srv s response x ∧ Reading x.2 below)
      (recursionLoop srv.recorded outValue (fun _ _ x => .ok x) 1 path below.references 0 (uninit path)
        (browse srv.recorded ref.nodeId x).2) := by
    refine recursionLoop_keeps below.references ?_ (fun _ _ _ hx => hx) _ _ _ hBrowsed
    rintro ref' hRef' hZero x' ⟨hListing, hReading⟩
    have hRead : Allowed x'.2 (.read ref'.nodeId) := ⟨below, ref', hReading, hRef', rfl, hZero⟩
    exact ⟨⟨hListing.talks.read 0 hRead, hListing.opened.snoc _⟩, hReading.snoc _ _⟩
  rw [browsingVarsRecursion_one]
  exact hLoop.imp (fun _ h => h.1) fun _ h => h.1

theorem browsingVars_talks {x : σ × List Exchange} (hTalks : Talks (fun _ => srv) Allowed s x)
    (hRecord : x.2 = [(.connect, .status StatusCode.good)]) :
    Keeps (Talks (fun _ => srv) Allowed s) (browsingVars srv.recorded outValue uninit ⟨x, []⟩) := by
  let response := (srv.browse NodeId.objectsFolder x.1).1
  have hBrowse : Allowed x.2 (.browse NodeId.objectsFolder) := Or.inl ⟨hRecord, rfl⟩
  have hOpened : Opened (x.2 ++ [(.browse NodeId.objectsFolder, .browsed response)]) response :=
    ⟨[], by rw [hRecord]; rfl⟩
  have hListing : Listing srv s response (srv.recorded.browse NodeId.objectsFolder x).2 :=
    ⟨hTalks.browse 0 hBrowse, hOpened⟩
  have hTitle : Keeps (fun y => y = x) (print .title ⟨x, []⟩) := print_keeps _ rfl
  refine (hTitle.imp (fun _ h => h) fun y (hy : y.server = x) => hy ▸ hTalks).bind ?_
  rintro ⟨server, printed⟩ (hServer : server = x)
  rw [hServer]
  have hHeader : Keeps (Listing srv s response) (print .header
      (browse srv.recorded NodeId.objectsFolder ⟨x, printed⟩).2) := print_keeps _ hListing
  refine (hHeader.imp (fun _ h => h) fun _ h => h.talks).bind fun y hy => ?_
  have hLoop : Keeps (Listing srv s response)
      (objectsLoop srv.recorded outValue uninit response.references 0 y) :=
    objectsLoop_keeps _ (fun ref hRef hPrinted hNamespace path x' h =>
      browsingVarsRecursion_talks outValue uninit hRef hPrinted hNamespace path x' h) 0 y hy
  exact hLoop.imp (fun _ h => h.talks) fun _ h => h.talks

theorem main_talks (srv : Server σ) (running : Bool) (s : σ) :
    Talks (fun _ => srv) Allowed s (main srv.recorded outValue uninit running (s, [])).2.server := by
  have hStart : Talks (fun _ => srv) Allowed s (s, []) := .start _ _ s
  have hConnect := hStart.connect 0 (show Allowed [] .connect from rfl)
  rw [main]
  split
  · exact hStart
  · dsimp only
    split
    · exact hConnect
    · rename_i hGood
      have hRecord : (srv.recorded.connect (s, [])).2.2 = [(.connect, .status StatusCode.good)] := by
        rw [← not_not.mp hGood]
        rfl
      have hVars := browsingVars_talks outValue uninit hConnect hRecord
      cases hRun : browsingVars srv.recorded outValue uninit ⟨(srv.recorded.connect (s, [])).2, []⟩ with
      | ok x =>
        rw [hRun] at hVars
        exact hVars
      | error x =>
        rw [hRun] at hVars
        exact hVars

def record (srv : Server σ) (running : Bool) (s : σ) : List Exchange :=
  (main srv.recorded outValue uninit running (s, [])).2.server.2

/-- Whatever its server answers, each call of the session is allowed by what it
has been told before, and none can change anything. -/
theorem session_talks (srv : Server σ) (running : Bool) (s : σ) :
    Lawful Allowed (record outValue uninit srv running s) ∧
      ∃ s', Answered (Server.Serves fun _ => srv) s (record outValue uninit srv running s) s' :=
  ⟨(main_talks outValue uninit srv running s).lawful, _,
    (main_talks outValue uninit srv running s).answered⟩

theorem Allowed.isQuery {before : List Exchange} {q : Request} (h : Allowed before q) :
    q.isQuery = true := by
  cases q with
  | write nodeId v => exact absurd h id
  | addVariableNode request => exact absurd h id
  | _ => rfl

theorem record_queries (srv : Server σ) (running : Bool) (s : σ) :
    ∀ e ∈ record outValue uninit srv running s, e.1.isQuery = true := by
  intro e he
  obtain ⟨before, after, hSplit⟩ := List.append_of_mem he
  exact ((main_talks outValue uninit srv running s).lawful before e.1 e.2 after hSplit).isQuery

end

/-! ## What it prints where nothing changes -/

structure Stationary (srv : Server σ) (s : σ) : Prop where
  browse : ∀ nodeid, (srv.browse nodeid s).2 = s
  read : ∀ nodeId, (srv.read nodeId s).2 = s

def seen (srv : Server σ) (outValue : ReadResponse → Except StatusCode Variant)
    (uninit : List Nat → Variant) (s : σ) : BrowseClient :=
  { browse := fun nodeid => (srv.browse nodeid s).1
    readValue := fun nodeId => outValue (srv.read nodeId s).1
    uninit }

def printAll (output : Printout Bytes) (x : Browsing σ) : Except (Browsing σ) (Browsing σ) :=
  let x := { x with printed := x.printed ++ output.items }
  if output.whole then .ok x else .error x

section

variable {srv : Server σ} {outValue : ReadResponse → Except StatusCode Variant}
  {uninit : List Nat → Variant} {s : σ}

@[simp] theorem printAll_done (x : Browsing σ) : printAll .done x = .ok x := by
  simp [printAll, Printout.done]

theorem print_eq (line : Line) (x : Browsing σ) :
    print line x = printAll (Printout.print line.text) x := by
  rw [print, printAll]
  cases line.text with
  | some text => rfl
  | none => simp [Printout.print]

/-- One output after the other, where the second does not depend on the first. -/
theorem printAll_bind {output output' : Printout Bytes} {x : Browsing σ} (hx : x.server = s)
    {f : Browsing σ → Except (Browsing σ) (Browsing σ)}
    (h : ∀ x : Browsing σ, x.server = s → f x = printAll output' x) :
    printAll output x >>= f = printAll (output.next output') x := by
  rw [printAll]
  cases hWhole : output.whole with
  | false =>
    rw [Printout.next_of_cut hWhole, printAll, hWhole]
    rfl
  | true =>
    rw [Printout.next_of_whole hWhole]
    change f ⟨x.server, x.printed ++ output.items⟩ = _
    rw [h ⟨x.server, x.printed ++ output.items⟩ hx]
    simp [printAll]

theorem browse_seen (h : Stationary srv s) (nodeid : NodeId) {x : Browsing σ} (hx : x.server = s) :
    browse srv nodeid x = ((seen srv outValue uninit s).browse nodeid, x) := by
  subst hx
  rw [browse, h.browse]
  rfl

theorem readValueAttribute_seen (h : Stationary srv s) (nodeId : NodeId) (value : Variant)
    {x : Browsing σ} (hx : x.server = s) : readValueAttribute srv outValue nodeId value x =
      ((seen srv outValue uninit s).readValueAttribute nodeId value, x) := by
  subst hx
  rw [readValueAttribute, h.read, BrowseClient.readValueAttribute, seen]
  dsimp only
  cases outValue (srv.read nodeId x.server).1 <;> rfl

theorem recursionLoop_seen (h : Stationary srv s)
    {recursion : NodeId → List Nat → Option (Printout Bytes)}
    {recursion' : NodeId → List Nat → Browsing σ → Except (Browsing σ) (Browsing σ)} {n : Int}
    {path : List Nat}
    (hRecursion : ∀ id path output, recursion id path = some output →
      ∀ x : Browsing σ, x.server = s → recursion' id path x = printAll output x)
    (refs : List ReferenceDescription) :
    ∀ j value output,
      (seen srv outValue uninit s).recursionLoop recursion n path refs j value = some output →
      ∀ x : Browsing σ, x.server = s →
        recursionLoop srv outValue recursion' n path refs j value x = printAll output x := by
  induction refs with
  | nil =>
    intro j value output hOutput x hx
    cases hOutput
    exact (printAll_done x).symm
  | cons ref refs ih =>
    intro j value output hOutput x hx
    rw [BrowseClient.recursionLoop] at hOutput
    have hRead : readValueAttribute srv outValue ref.nodeId value x =
        ((seen srv outValue uninit s).readValueAttribute ref.nodeId value, x) :=
      readValueAttribute_seen h ref.nodeId value hx
    rw [recursionLoop, hRead]
    split at hOutput
    · rename_i hZero
      rw [if_pos hZero]
      exact ih _ _ _ hOutput x hx
    · rename_i hZero
      rw [if_neg hZero]
      have hPrinted (value : Variant) (hOutput : (do
            let below ← recursion ref.nodeId (path ++ [j])
            let rest ← (seen srv outValue uninit s).recursionLoop recursion n path refs (j + 1) value
            return (Printout.print (Row.text ⟨n.toNat, ref, value⟩)).next (below.next rest)) =
              some output) : (do
            let x ← print (.row ⟨n.toNat, ref, value⟩) x
            let x ← recursion' ref.nodeId (path ++ [j]) x
            recursionLoop srv outValue recursion' n path refs (j + 1) value x) = printAll output x := by
        obtain ⟨below, hBelow, hOutput⟩ := Option.bind_eq_some_iff.mp hOutput
        obtain ⟨rest, hRest, hOutput⟩ := Option.bind_eq_some_iff.mp hOutput
        cases hOutput
        rw [print_eq]
        refine printAll_bind hx fun x hx => ?_
        rw [hRecursion _ _ _ hBelow x hx]
        exact printAll_bind hx fun x hx => ih _ _ _ hRest x hx
      cases hIdentifier : ref.nodeId.identifier with
      | numeric number =>
        rw [hIdentifier] at hOutput
        exact hPrinted _ hOutput
      | string s =>
        rw [hIdentifier] at hOutput
        exact hPrinted _ hOutput
      | guid g =>
        rw [hIdentifier] at hOutput
        exact ih _ _ _ hOutput x hx
      | byteString b =>
        rw [hIdentifier] at hOutput
        exact ih _ _ _ hOutput x hx

theorem browsingVarsRecursion_seen (h : Stationary srv s) (fuel : Nat) :
    ∀ (nodeid : NodeId) (n : Int) (path : List Nat) (output : Printout Bytes),
      (seen srv outValue uninit s).browsingVarsRecursion fuel nodeid n path = some output →
      ∀ x : Browsing σ, x.server = s →
        browsingVarsRecursion srv outValue uninit nodeid n path x = printAll output x := by
  induction fuel with
  | zero =>
    intro nodeid n path output hOutput x _
    rw [BrowseClient.browsingVarsRecursion] at hOutput
    split at hOutput
    · rename_i hn
      cases hOutput
      rw [browsingVarsRecursion, if_pos hn]
      exact (printAll_done x).symm
    · cases hOutput
  | succ fuel ih =>
    intro nodeid n path output hOutput x hx
    rw [BrowseClient.browsingVarsRecursion] at hOutput
    rw [browsingVarsRecursion]
    split at hOutput
    · rename_i hn
      cases hOutput
      rw [if_pos hn]
      exact (printAll_done x).symm
    · rename_i hn
      have hBrowse : browse srv nodeid x = ((seen srv outValue uninit s).browse nodeid, x) :=
        browse_seen h nodeid hx
      rw [if_neg hn, hBrowse]
      exact recursionLoop_seen h (fun id path output hOutput x hx => ih id (n + 1) path output hOutput x hx)
        _ _ _ _ hOutput x hx

theorem objectListing_seen (h : Stationary srv s) {fuel : Nat} {ref : ReferenceDescription} {j : Nat}
    {output : Printout Bytes}
    (hOutput : (seen srv outValue uninit s).objectListing fuel ref j = some output) {x : Browsing σ}
    (hx : x.server = s) : objectListing srv outValue uninit ref j x = printAll output x := by
  rw [BrowseClient.objectListing] at hOutput
  rw [objectListing]
  split at hOutput
  · rename_i hNamespace
    rw [if_pos hNamespace]
    exact browsingVarsRecursion_seen h fuel _ _ _ _ hOutput x hx
  · rename_i hNamespace
    cases hOutput
    rw [if_neg hNamespace]
    exact (printAll_done x).symm

theorem objectsLoop_seen (h : Stationary srv s) (fuel : Nat) (refs : List ReferenceDescription) :
    ∀ j output, (seen srv outValue uninit s).objectsLoop fuel refs j = some output →
      ∀ x : Browsing σ, x.server = s →
        objectsLoop srv outValue uninit refs j x = printAll output x := by
  induction refs with
  | nil =>
    intro j output hOutput x _
    cases hOutput
    exact (printAll_done x).symm
  | cons ref refs ih =>
    intro j output hOutput x hx
    have hPrinted (hOutput : (do
          let below ← (seen srv outValue uninit s).objectListing fuel ref j
          let rest ← (seen srv outValue uninit s).objectsLoop fuel refs (j + 1)
          return (Printout.print (Line.object ref).text).next (below.next rest)) = some output) : (do
          let x ← print (.object ref) x
          let x ← objectListing srv outValue uninit ref j x
          objectsLoop srv outValue uninit refs (j + 1) x) = printAll output x := by
      obtain ⟨below, hBelow, hOutput⟩ := Option.bind_eq_some_iff.mp hOutput
      obtain ⟨rest, hRest, hOutput⟩ := Option.bind_eq_some_iff.mp hOutput
      cases hOutput
      rw [print_eq]
      refine printAll_bind hx fun x hx => ?_
      rw [objectListing_seen h hBelow hx]
      exact printAll_bind hx fun x hx => ih _ _ hRest x hx
    rw [BrowseClient.objectsLoop] at hOutput
    rw [objectsLoop]
    cases hIdentifier : ref.nodeId.identifier with
    | numeric number =>
      rw [hIdentifier] at hOutput
      exact hPrinted hOutput
    | string s =>
      rw [hIdentifier] at hOutput
      exact hPrinted hOutput
    | guid g =>
      rw [hIdentifier] at hOutput
      exact ih _ _ hOutput x hx
    | byteString b =>
      rw [hIdentifier] at hOutput
      exact ih _ _ hOutput x hx

theorem browsingVars_seen (h : Stationary srv s) {fuel : Nat} {output : Printout Bytes}
    (hOutput : (seen srv outValue uninit s).browsingVars fuel = some output) :
    browsingVars srv outValue uninit ⟨s, []⟩ = printAll output ⟨s, []⟩ := by
  rw [BrowseClient.browsingVars] at hOutput
  obtain ⟨rest, hRest, hOutput⟩ := Option.bind_eq_some_iff.mp hOutput
  cases hOutput
  rw [browsingVars, print_eq]
  refine printAll_bind rfl fun x hx => ?_
  have hBrowse : browse srv NodeId.objectsFolder x =
      ((seen srv outValue uninit s).browse NodeId.objectsFolder, x) := browse_seen h _ hx
  rw [hBrowse]
  dsimp only
  rw [print_eq]
  exact printAll_bind hx fun x hx => objectsLoop_seen h fuel _ 0 rest hRest x hx

theorem main_seen (hGood : (srv.connect s).1 = StatusCode.good)
    (h : Stationary srv (srv.connect s).2) {fuel : Nat} {output : Printout Bytes}
    (hOutput : (seen srv outValue uninit (srv.connect s).2).browsingVars fuel = some output) :
    main srv outValue uninit true s =
      (if output.whole then .success else .noElement, ⟨(srv.connect s).2, output.items⟩) := by
  rw [main, if_neg (by decide)]
  dsimp only
  rw [if_neg (not_not.mpr hGood), browsingVars_seen h hOutput, printAll]
  cases output.whole <;> rfl

end

/-- After a good connection to a server that queries do not change, the session
prints the listing of the server as it is, ends where that does, and leaves the
server so. -/
theorem session_lists (srv : Server σ) (outValue : ReadResponse → Except StatusCode Variant)
    (uninit : List Nat → Variant) (s : σ) (hGood : (srv.connect s).1 = StatusCode.good)
    (hStationary : Stationary srv (srv.connect s).2) (extra : Nat) :
    ∃ output, (seen srv outValue uninit (srv.connect s).2).browsingVars (1 + extra) = some output ∧
      main srv outValue uninit true s =
        (if output.whole then .success else .noElement, ⟨(srv.connect s).2, output.items⟩) :=
  ⟨_, BrowseClient.browsingVars_eq _ extra,
    main_seen hGood hStationary (BrowseClient.browsingVars_eq _ extra)⟩

/-- A server with one object, in namespace 2, and nothing below it. -/
def plant : Server Unit where
  connect s := (StatusCode.good, s)
  browse nodeid s :=
    (⟨if nodeid = NodeId.objectsFolder then
      [⟨[⟨⟨2, .numeric 7⟩, .object, ⟨2, ascii "plant"⟩, ascii "plant"⟩], []⟩] else []⟩, s)
  read _ s := (⟨StatusCode.good, []⟩, s)
  write _ _ s := (StatusCode.badTypeMismatch, s)
  addVariableNode _ s := (StatusCode.badNodeIdExists, s)

theorem session_lists_plant : ∃ output,
    (seen plant (fun _ => .error StatusCode.badTypeMismatch) (fun _ => .empty) ()).browsingVars
      (1 + 0) = some output ∧
    main plant (fun _ => .error StatusCode.badTypeMismatch) (fun _ => .empty) true () =
      (if output.whole then .success else .noElement, ⟨(), output.items⟩) :=
  session_lists plant (fun _ => .error StatusCode.badTypeMismatch) (fun _ => .empty) () rfl
    ⟨fun _ => rfl, fun _ => rfl⟩ 0

end BrowseSession

end OpcConfig
