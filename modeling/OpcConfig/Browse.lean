import OpcConfig.Library.Printout
import OpcConfig.Variant

/-! # The browsing of `new_client.hpp`

What is printed are the texts of lines. A row whose value has not the element
that `PrintVariant` reads ends the program. The variable `value` of
`BrowsingVarsRecursion` is not initialised: `uninit` gives what it holds at the
beginning of a call, by the positions of the references on the way there.
`none` means that the fuel does not suffice.
-/

namespace OpcConfig

set_option autoImplicit false

open CString

structure BrowseClient where
  browse : NodeId → BrowseResponse
  readValue : NodeId → Except StatusCode Variant
  uninit : List Nat → Variant

structure Row where
  dashes : Nat
  ref : ReferenceDescription
  value : Variant

inductive Line
  | title
  | header
  | object (ref : ReferenceDescription)
  | row (row : Row)

def identifierColumn (width : Nat) : Identifier → Option Bytes
  | .numeric n => some (Printf.left width (Printf.d n.toBitVec))
  | .string s => some (Printf.left width (Printf.s s))
  | .guid _ => none
  | .byteString _ => none

def referenceColumns (width : Nat) (ref : ReferenceDescription) : Option Bytes := do
  let identifier ← identifierColumn width ref.nodeId.identifier
  return Printf.left 9 (Printf.d (ref.nodeId.namespaceIndex.toBitVec.setWidth 32)) ++ ascii " " ++
    identifier ++ ascii " " ++ Printf.left width (Printf.s ref.browseName.name) ++ ascii " " ++
    Printf.left width (Printf.s ref.displayName)

/-- `none` is a read of an element that the value does not have. -/
def Row.text (row : Row) : Option Bytes := do
  let columns ← referenceColumns 25 row.ref
  let value ← printVariant row.value
  return List.replicate row.dashes 45 ++ columns ++ value ++ [10]

def Line.text : Line → Option Bytes
  | title => some (ascii "Browsing nodes in objects folder:" ++ [10])
  | header => some (Printf.left 9 (ascii "NAMESPACE") ++ ascii " " ++
      Printf.left 16 (ascii "NODEID") ++ ascii " " ++ Printf.left 16 (ascii "BROWSE NAME") ++
      ascii " " ++ Printf.left 16 (ascii "DISPLAY NAME") ++ ascii " " ++
      Printf.left 16 (ascii "VALUE") ++ [10])
  | object ref => (referenceColumns 16 ref).map (· ++ [10])
  | row printed => printed.text

namespace BrowseClient

def references (client : BrowseClient) (nodeid : NodeId) : List ReferenceDescription :=
  (client.browse nodeid).references

/-- `UA_Client_readValueAttribute` with its status thrown away. -/
def readValueAttribute (client : BrowseClient) (nodeId : NodeId) (value : Variant) : Variant :=
  match client.readValue nodeId with
  | .ok read => read
  | .error _ => value

def recursionLoop (client : BrowseClient)
    (recursion : NodeId → List Nat → Option (Printout Bytes)) (n : Int) (path : List Nat) :
    List ReferenceDescription → Nat → Variant → Option (Printout Bytes)
  | [], _, _ => some .done
  | ref :: refs, j, value =>
    if ref.nodeId.namespaceIndex = 0 then recursionLoop client recursion n path refs (j + 1) value
    else
      let value := client.readValueAttribute ref.nodeId value
      let row := Printout.print (Row.text ⟨n.toNat, ref, value⟩)
      match ref.nodeId.identifier with
      | .numeric _ => do
        let below ← recursion ref.nodeId (path ++ [j])
        let rest ← recursionLoop client recursion n path refs (j + 1) value
        return row.next (below.next rest)
      | .string _ => do
        let below ← recursion ref.nodeId (path ++ [j])
        let rest ← recursionLoop client recursion n path refs (j + 1) value
        return row.next (below.next rest)
      | .guid _ => recursionLoop client recursion n path refs (j + 1) value
      | .byteString _ => recursionLoop client recursion n path refs (j + 1) value

def browsingVarsRecursion (client : BrowseClient) :
    Nat → NodeId → Int → List Nat → Option (Printout Bytes)
  | 0, _, n, _ => if n > 1 then some .done else none
  | fuel + 1, nodeid, n, path =>
    if n > 1 then some .done
    else
      recursionLoop client (fun nodeid path => browsingVarsRecursion client fuel nodeid (n + 1) path)
        n path (client.references nodeid) 0 (client.uninit path)

def objectListing (client : BrowseClient) (fuel : Nat) (ref : ReferenceDescription) (j : Nat) :
    Option (Printout Bytes) :=
  if ref.nodeId.namespaceIndex = 3 ∨ ref.nodeId.namespaceIndex = 2 then
    client.browsingVarsRecursion fuel ref.nodeId 1 [j]
  else some .done

def objectsLoop (client : BrowseClient) (fuel : Nat) :
    List ReferenceDescription → Nat → Option (Printout Bytes)
  | [], _ => some .done
  | ref :: refs, j =>
    let line := Printout.print (Line.object ref).text
    match ref.nodeId.identifier with
    | .numeric _ => do
      let below ← client.objectListing fuel ref j
      let rest ← objectsLoop client fuel refs (j + 1)
      return line.next (below.next rest)
    | .string _ => do
      let below ← client.objectListing fuel ref j
      let rest ← objectsLoop client fuel refs (j + 1)
      return line.next (below.next rest)
    | .guid _ => objectsLoop client fuel refs (j + 1)
    | .byteString _ => objectsLoop client fuel refs (j + 1)

def browsingVars (client : BrowseClient) (fuel : Nat) : Option (Printout Bytes) := do
  let lines ← client.objectsLoop fuel (client.references NodeId.objectsFolder) 0
  return (Printout.print Line.title.text).next ((Printout.print Line.header.text).next lines)

end BrowseClient

end OpcConfig
