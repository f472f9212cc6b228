import OpcConfig.Nlohmann
import OpcConfig.SyncClient

/-! # The counting client, `old/client_main.cpp`

A second main loop against the servers of the synchronisation client: it adds
one to every variable of type Int32 that it reads, and prints one array for each
result of the browse. An increment that leaves Int32 and a read of an element
that is not there have no behaviour; they are faults, as exceptions are.
-/

namespace OpcConfig

set_option autoImplicit false

open CString

inductive CounterFault
  | json (e : NlohmannError)
  | overflow
  | noElement
  deriving DecidableEq

/-- A turn of the inner loop: the pass and the indices `i` and `j`. -/
structure CounterSite where
  pass : Nat
  result : Nat
  reference : Nat
  deriving DecidableEq

structure Counter (σ : Type) where
  server : σ
  retval : StatusCode
  one : Bool
  printed : List Json

structure Gathering (σ : Type) where
  server : σ
  retval : StatusCode
  dataValue : Json
  count : Nat

theorem int32_lower (n : Int32) : -2 ^ 63 ≤ n.toInt := by
  have := n.le_toInt
  omega

theorem int32_upper (n : Int32) : n.toInt < 2 ^ 64 := by
  have := n.toInt_lt
  omega

def Json.ofInt32 (n : Int32) : Json := .integer ⟨n.toInt, int32_lower n, int32_upper n⟩

namespace CounterClient

variable {σ : Type}

def getResponse (srv : Server σ) (s : σ) : BrowseResponse × σ := srv.browse NodeId.objectsFolder s

def readResponse (srv : Server σ) (nodeId : NodeId) (s : σ) : ReadResponse × σ := srv.read nodeId s

def creation (name : Bytes) (type : NodeId) : AddNodesRequest :=
  { requestedNewNodeId := NodeId.null
    parentNodeId := NodeId.objectsFolder
    referenceTypeId := NodeId.organizes
    browseName := ⟨1, name⟩
    typeDefinition := ⟨0, .numeric 63⟩
    attr :=
      { VariableAttributes.default with
        accessLevel := 1 ||| 2, displayName := name, dataType := type, valueRank := -1 } }

def createVariable (srv : Server σ) (name : Bytes) (type : NodeId) (s : σ) : StatusCode × σ :=
  srv.addVariableNode (creation name type) s

/-- The creation before the first browse. `varName` is read and not used. -/
def createFirst (srv : Server σ) (vars : Json) (c : Counter σ) :
    Except (CounterFault × Counter σ) (Counter σ) :=
  match Nlohmann.stringAt vars 0 (ascii "name") with
  | .error e => .error (.json e, c)
  | .ok _ =>
    let status := createVariable srv (ascii "name") UaType.int32.typeId c.server
    .ok { c with server := status.2, retval := status.1, one := false }

def readStep (srv : Server σ) (ref : ReferenceDescription) (x : Gathering σ) :
    ReadResponse × Gathering σ :=
  let answer := readResponse srv ref.nodeId x.server
  (answer.1, { x with server := answer.2 })

def setField (key : String) (element : Json) (x : Gathering σ) :
    Except (CounterFault × Gathering σ) (Gathering σ) :=
  match Nlohmann.setAt x.dataValue x.count (ascii key) element with
  | .error e => .error (.json e, x)
  | .ok dataValue => .ok { x with dataValue }

def int32Step (srv : Server σ) (nodeId : NodeId) (value : Variant) (x : Gathering σ) :
    Except (CounterFault × Gathering σ) (Gathering σ) :=
  if value.type = some .int32 then
    match value.first with
    | some (.int32 rawDate) => do
      let x ← setField "value" (.ofInt32 rawDate) x
      if rawDate = Int32.maxValue then .error (.overflow, x)
      else
        let status := srv.write nodeId (.scalar (.int32 (rawDate + 1))) x.server
        .ok { x with server := status.2, retval := status.1 }
    | _ => .error (.noElement, x)
  else .ok x

def doubleStep (value : Variant) (x : Gathering σ) :
    Except (CounterFault × Gathering σ) (Gathering σ) :=
  if value.type = some .double then
    match value.first with
    | some (.double rawDate) => setField "value" (.double rawDate) x
    | _ => .error (.noElement, x)
  else .ok x

/-- The body of the inner loop; `mem` is what `UA_malloc` gives for each name. -/
def referenceStep (srv : Server σ) (mem : CounterSite → Bytes) (site : CounterSite)
    (ref : ReferenceDescription) (x : Gathering σ) :
    Except (CounterFault × Gathering σ) (Gathering σ) :=
  if ref.nodeClass ≠ .variable then .ok x
  else
    let answer := readStep srv ref x
    match answer.1.value with
    | none => .ok answer.2
    | some value => do
      let name := cstr (uastrToCharArr (mem site) ref.displayName)
      let x ← setField "name" (.string name) answer.2
      let x ← int32Step srv ref.nodeId value x
      let x ← doubleStep value x
      return { x with count := x.count + 1 }

def startResult (c : Counter σ) : Gathering σ :=
  { server := c.server, retval := c.retval, dataValue := .null, count := 0 }

def finishResult (x : Gathering σ) (c : Counter σ) : Counter σ :=
  { c with server := x.server, retval := x.retval }

def referenceLoop (srv : Server σ) (mem : CounterSite → Bytes) (t i : Nat)
    (refs : List ReferenceDescription) (x : Gathering σ) :
    Except (CounterFault × Gathering σ) (Gathering σ) :=
  Loop.forEach (fun j ref x => referenceStep srv mem ⟨t, i, j⟩ ref x) refs 0 x

def resultStep (srv : Server σ) (mem : CounterSite → Bytes) (t i : Nat) (result : BrowseResult)
    (c : Counter σ) : Except (CounterFault × Counter σ) (Counter σ) :=
  match referenceLoop srv mem t i result.references (startResult c) with
  | .error (fault, x) => .error (fault, finishResult x c)
  | .ok x =>
    match Nlohmann.dump x.dataValue with
    | .error e => .error (.json e, finishResult x c)
    | .ok s =>
      let c := finishResult x c
      .ok { c with printed := c.printed ++ [s] }

def pass (srv : Server σ) (mem : CounterSite → Bytes) (t : Nat) (c : Counter σ) :
    Except (CounterFault × Counter σ) (Counter σ) :=
  let answer := getResponse srv c.server
  Loop.forEach (resultStep srv mem t) answer.1.results 0 { c with server := answer.2 }

def iteration (srv : Server σ) (mem : CounterSite → Bytes) (vars : Json) (t : Nat)
    (c : Counter σ) : Except (CounterFault × Counter σ) (Counter σ) :=
  let status := srv.connect c.server
  let c := { c with server := status.2, retval := status.1 }
  if status.1 = StatusCode.badConnectionClosed then .ok c
  else if status.1 ≠ StatusCode.good then .ok c
  else do
    let c ← if c.one then createFirst srv vars c else .ok c
    pass srv mem t c

def mainLoop (srv : Nat → Server σ) (mem : CounterSite → Bytes) (vars : Json) (n : Nat)
    (c : Counter σ) : Except (CounterFault × Counter σ) (Counter σ) :=
  Loop.repeated (fun t c => iteration (srv t) mem vars t c) n c

/-- The client once the creation is behind it. -/
def counter (s : σ) : Counter σ :=
  { server := s, retval := StatusCode.good, one := false, printed := [] }

end CounterClient

end OpcConfig
