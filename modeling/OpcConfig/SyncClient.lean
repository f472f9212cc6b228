import OpcConfig.Library.Loop
import OpcConfig.Variant

/-! # The synchronisation client, `old/client.cpp`

The main loop runs against any server: a state with one operation for each
service the client calls, which may differ from pass to pass. Memory that the
program reads before writing it, or after its variable is gone, is a parameter,
indexed by where in the run it is read. `log` keeps, for each turn of the loop
over the entries, what was sent and answered. An exception leaves `main`, and so
does the read of an element that is not there: both are an `error` with the
client as it was then.
-/

namespace OpcConfig

set_option autoImplicit false

open CString

structure Server (σ : Type) where
  connect : σ → StatusCode × σ
  browse : NodeId → σ → BrowseResponse × σ
  read : NodeId → σ → ReadResponse × σ
  write : NodeId → Variant → σ → StatusCode × σ
  addVariableNode : AddNodesRequest → σ → StatusCode × σ

/-- A turn of the innermost loop: the pass and the indices `i`, `k`, `j`. -/
structure Site where
  pass : Nat
  result : Nat
  entry : Nat
  reference : Nat
  deriving DecidableEq

/-- The blocks that the calls of `UastrToCharArr` get from `UA_malloc`, the
variable `newValue` before it is set, and the local variable of `CreateVariant`
when the variant is written. -/
structure Memory where
  nameBlock : Site → Bytes
  keyBlock : Site → Bytes
  textBlock : Site → Bytes
  newValue : Site → Variant
  slot : Site → Slot

structure Reading where
  site : Site
  ref : ReferenceDescription
  response : ReadResponse

structure Writing where
  ref : ReferenceDescription
  value : Variant

structure Visit where
  pass : Nat
  response : BrowseResponse
  result : Nat
  entry : Nat
  reads : List Reading
  writes : List Writing
  created : List AddNodesRequest

structure Client (σ : Type) where
  server : σ
  retval : StatusCode
  varOut : Json
  printed : List Json
  log : List Visit

structure Progress (σ : Type) where
  server : σ
  retval : StatusCode
  varOut : Json
  findIndex : Int
  reads : List Reading
  writes : List Writing

namespace SyncClient

variable {σ : Type}

def getResponse (srv : Server σ) (s : σ) : BrowseResponse × σ := srv.browse NodeId.objectsFolder s

def readResponse (srv : Server σ) (nodeId : NodeId) (s : σ) : ReadResponse × σ := srv.read nodeId s

/-- `variables[k]["name"].as_string()`. -/
def entryName (entry : Json) : Except JsonException Bytes := do
  (← entry.index (ascii "name")).asString

/-- `VariantToJson` of `old/client.hpp` gets its `json::value` by value: what it
sets is lost with the copy, and the caller's element stays as it is. -/
def variantToJsonByValue (block : Bytes) (value : Json) (variant : Variant) : Except Fault Json := do
  let _ ← variantToJson block value variant
  return value

def report (key block : Bytes) (variant : Variant) (varOut : Json) : Except Fault Json := do
  let varOut ← (varOut.touch key).mapError .json
  let element ← (varOut.index key).mapError .json
  let element ← variantToJsonByValue block element variant
  (varOut.assign key element).mapError .json

def name123 : NodeId := ⟨1, .string (ascii "name123")⟩

/-- The request of `CreateVariable`, which depends on none of its arguments. -/
def creation : AddNodesRequest :=
  { requestedNewNodeId := name123
    parentNodeId := NodeId.objectsFolder
    referenceTypeId := NodeId.organizes
    browseName := ⟨1, ascii "name123"⟩
    typeDefinition := NodeId.null
    attr := { VariableAttributes.default with accessLevel := 1 ||| 2, valueRank := -1 } }

def createVariable (srv : Server σ) (_name : Bytes) (_value : Json) (_variant : Variant) (s : σ) :
    StatusCode × σ :=
  srv.addVariableNode creation s

def readStep (srv : Server σ) (site : Site) (ref : ReferenceDescription) (x : Progress σ) :
    ReadResponse × Progress σ :=
  let answer := readResponse srv ref.nodeId x.server
  (answer.1, { x with server := answer.2, reads := x.reads ++ [⟨site, ref, answer.1⟩] })

def writeStep (srv : Server σ) (site : Site) (ref : ReferenceDescription) (newValue : Variant)
    (x : Progress σ) : Progress σ :=
  let status := srv.write ref.nodeId newValue x.server
  { x with
    server := status.2, retval := status.1, findIndex := site.entry
    writes := x.writes ++ [⟨ref, newValue⟩] }

def referenceStep (srv : Server σ) (mem : Memory) (entry : Json) (site : Site)
    (ref : ReferenceDescription) (x : Progress σ) : Except (Progress σ) (Progress σ) :=
  if ref.nodeClass ≠ .variable then .ok x
  else
    let answer := readStep srv site ref x
    let x := answer.2
    match answer.1.value with
    | none => .ok x
    | some value =>
      let name := cstr (uastrToCharArr (mem.nameBlock site) ref.displayName)
      match entryName entry with
      | .error _ => .error x
      | .ok wanted =>
        if name = cstr wanted then
          match createVariant (mem.slot site) entry (mem.newValue site) with
          | .error _ => .error x
          | .ok newValue => .ok (writeStep srv site ref newValue x)
        else
          let key := cstr (uastrToCharArr (mem.keyBlock site) ref.displayName)
          match report key (mem.textBlock site) value x.varOut with
          | .error _ => .error x
          | .ok varOut => .ok { x with varOut := varOut }

def startTurn (c : Client σ) : Progress σ :=
  { server := c.server, retval := c.retval, varOut := c.varOut, findIndex := -1, reads := [],
    writes := [] }

def finishTurn (x : Progress σ) (c : Client σ) (pass : Nat) (response : BrowseResponse)
    (result k : Nat) (created : List AddNodesRequest) : Client σ :=
  { c with
    server := x.server, retval := x.retval, varOut := x.varOut
    log := c.log ++ [⟨pass, response, result, k, x.reads, x.writes, created⟩] }

def referenceLoop (srv : Server σ) (mem : Memory) (entry : Json) (pass result k : Nat)
    (refs : List ReferenceDescription) (x : Progress σ) : Except (Progress σ) (Progress σ) :=
  Loop.forEach (fun j ref x => referenceStep srv mem entry ⟨pass, result, k, j⟩ ref x) refs 0 x

/-- The body of the loop over the entries. `findIndex` is -1 at its beginning
and is set back to it at its end. -/
def entryStep (srv : Server σ) (mem : Memory) (pass : Nat) (response : BrowseResponse) (result : Nat)
    (refs : List ReferenceDescription) (k : Nat) (entry : Json) (c : Client σ) :
    Except (Client σ) (Client σ) :=
  match referenceLoop srv mem entry pass result k refs (startTurn c) with
  | .error x => .error (finishTurn x c pass response result k [])
  | .ok x =>
    if x.findIndex < 0 then
      match entryName entry with
      | .error _ => .error (finishTurn x c pass response result k [])
      | .ok name =>
        let status := createVariable srv (cstr name) entry .empty x.server
        let x := { x with server := status.2, retval := status.1 }
        .ok (finishTurn x c pass response result k [creation])
    else .ok (finishTurn x c pass response result k [])

def entryLoop (srv : Server σ) (mem : Memory) (vars : List Json) (pass : Nat)
    (response : BrowseResponse) (result : Nat) (refs : List ReferenceDescription) (c : Client σ) :
    Except (Client σ) (Client σ) :=
  Loop.forEach (entryStep srv mem pass response result refs) vars 0 c

def pass (srv : Server σ) (mem : Memory) (vars : List Json) (t : Nat) (c : Client σ) :
    Except (Client σ) (Client σ) := do
  let answer := getResponse srv c.server
  let c ← Loop.forEach (fun i result c => entryLoop srv mem vars t answer.1 i result.references c)
    answer.1.results 0 { c with server := answer.2 }
  return { c with printed := c.printed ++ [c.varOut] }

def iteration (srv : Server σ) (mem : Memory) (vars : List Json) (t : Nat) (c : Client σ) :
    Except (Client σ) (Client σ) :=
  let status := srv.connect c.server
  let c := { c with server := status.2, retval := status.1 }
  if status.1 = StatusCode.badConnectionClosed then .ok c
  else if status.1 ≠ StatusCode.good then .ok c
  else pass srv mem vars t c

def mainLoop (srv : Nat → Server σ) (mem : Memory) (vars : List Json) (n : Nat) (c : Client σ) :
    Except (Client σ) (Client σ) :=
  Loop.repeated (fun t c => iteration (srv t) mem vars t c) n c

def start (s : σ) : Client σ :=
  { server := s, retval := StatusCode.good, varOut := .null, printed := [], log := [] }

end SyncClient

end OpcConfig
