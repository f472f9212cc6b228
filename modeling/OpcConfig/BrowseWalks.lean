import OpcConfig.Library.Walks
import OpcConfig.Browse

/-! # What the recursion prints, as walks

The rows of a call are the walks of bounded length along printed references,
in pre-order, up to one that has nothing to read where its value should be. A
row's value is the one of its own node if that can be read, and otherwise what
the earlier references of the same list have left behind.
-/

namespace OpcConfig

set_option autoImplicit false

open CString Walks

abbrev RefWalk := Walk ReferenceDescription

def Identifier.isPrinted : Identifier → Bool
  | numeric _ => true
  | string _ => true
  | guid _ => false
  | byteString _ => false

/-- Where the recursion goes on from a reference, if it prints the reference. -/
def ReferenceDescription.follow (ref : ReferenceDescription) : Option NodeId :=
  if ref.nodeId.namespaceIndex ≠ 0 ∧ ref.nodeId.identifier.isPrinted = true then some ref.nodeId
  else none

theorem ReferenceDescription.follow_eq_some_iff (ref : ReferenceDescription) :
    ref.follow = some ref.nodeId ↔
      ref.nodeId.namespaceIndex ≠ 0 ∧ ref.nodeId.identifier.isPrinted = true := by
  rw [ReferenceDescription.follow, ite_eq_left_iff]
  constructor
  · intro h
    by_contra hNot
    cases h hNot
  · intro h hNot
    exact absurd h hNot

theorem ReferenceDescription.follow_cases (ref : ReferenceDescription) :
    ref.follow = none ∨ ref.follow = some ref.nodeId := by
  rw [ReferenceDescription.follow]
  split
  · exact Or.inr rfl
  · exact Or.inl rfl

/-! ## Texts -/

/-- The text of a reference with `identifier` in its second column. -/
def columnsWith (width : Nat) (identifier : Bytes) (ref : ReferenceDescription) : Bytes :=
  Printf.left 9 (Printf.d (ref.nodeId.namespaceIndex.toBitVec.setWidth 32)) ++ ascii " " ++
    Printf.left width identifier ++ ascii " " ++ Printf.left width (Printf.s ref.browseName.name) ++
    ascii " " ++ Printf.left width (Printf.s ref.displayName)

/-- The identifier of a printed reference, before it is padded. -/
def Identifier.text : Identifier → Bytes
  | numeric n => Printf.d n.toBitVec
  | string s => Printf.s s
  | guid _ => []
  | byteString _ => []

def rowText (dashes : Nat) (ref : ReferenceDescription) (value : Bytes) : Bytes :=
  List.replicate dashes 45 ++ columnsWith 25 ref.nodeId.identifier.text ref ++ value ++ [10]

def objectText (ref : ReferenceDescription) : Bytes :=
  columnsWith 16 ref.nodeId.identifier.text ref ++ [10]

theorem referenceColumns_eq (width : Nat) {ref : ReferenceDescription}
    (h : ref.nodeId.identifier.isPrinted = true) :
    referenceColumns width ref = some (columnsWith width ref.nodeId.identifier.text ref) := by
  rw [referenceColumns]
  cases hIdentifier : ref.nodeId.identifier with
  | numeric n => rfl
  | string s => rfl
  | guid g =>
    rw [hIdentifier] at h
    cases h
  | byteString b =>
    rw [hIdentifier] at h
    cases h

theorem Row.text_eq {row : Row} (h : row.ref.nodeId.identifier.isPrinted = true) :
    row.text = (printVariant row.value).map (rowText row.dashes row.ref) := by
  rw [Row.text, referenceColumns_eq 25 h]
  cases printVariant row.value <;> rfl

theorem object_text_eq {ref : ReferenceDescription} (h : ref.nodeId.identifier.isPrinted = true) :
    (Line.object ref).text = some (objectText ref) := by
  rw [Line.text, referenceColumns_eq 16 h]
  rfl

theorem rowText_inj {dashes : Nat} {ref : ReferenceDescription} {value value' : Bytes}
    (h : rowText dashes ref value = rowText dashes ref value') : value = value' := by
  simpa [rowText] using h

/-! ## Rows -/

def endpoint (nodeid : NodeId) (steps : List (Nat × ReferenceDescription)) : NodeId :=
  steps.foldl (fun _ step => step.2.nodeId) nodeid

namespace BrowseClient

variable (client : BrowseClient)

/-- The references of a node, as the two loops find them in the response. -/
def edges (nodeid : NodeId) : List ReferenceDescription :=
  (client.browse nodeid).results.flatMap BrowseResult.references

theorem references_eq_edges (nodeid : NodeId) : client.references nodeid = client.edges nodeid := rfl

def stored (ref : ReferenceDescription) : Option Variant :=
  if ref.nodeId.namespaceIndex = 0 then none else (client.readValue ref.nodeId).toOption

/-- What the variable holds after the references: what the last successful read
stored, or what it held before. -/
def leftOver (refs : List ReferenceDescription) (value : Variant) : Variant :=
  (refs.filterMap client.stored).getLast?.getD value

def stale (path : List Nat) (nodeid : NodeId) (walk : RefWalk) : Variant :=
  client.leftOver ((client.edges (endpoint nodeid walk.before)).take walk.last.1)
    (client.uninit (path ++ walk.before.map Prod.fst))

/-- The value of the walk's last node or, if that cannot be read, the stale one. -/
def shown (path : List Nat) (nodeid : NodeId) (walk : RefWalk) : Variant :=
  (client.readValue walk.last.2.nodeId).toOption.getD (client.stale path nodeid walk)

def rowAt (n : Int) (path : List Nat) (nodeid : NodeId) (walk : RefWalk) : Row :=
  { dashes := (n + walk.length - 1).toNat
    ref := walk.last.2
    value := client.shown path nodeid walk }

/-- The texts of the rows, `none` for one that cannot be printed. -/
def rowTexts (n : Int) (path : List Nat) (nodeid : NodeId) (walks : List RefWalk) :
    List (Option Bytes) :=
  walks.map fun walk => (client.rowAt n path nodeid walk).text

theorem readValueAttribute_eq (nodeId : NodeId) (value : Variant) :
    client.readValueAttribute nodeId value = (client.readValue nodeId).toOption.getD value := by
  rw [readValueAttribute]
  cases client.readValue nodeId <;> rfl

theorem leftOver_snoc (refs : List ReferenceDescription) (ref : ReferenceDescription) (value : Variant) :
    client.leftOver (refs ++ [ref]) value =
      (client.stored ref).getD (client.leftOver refs value) := by
  rw [leftOver, List.filterMap_append]
  cases hStored : client.stored ref with
  | none => simp [hStored, leftOver]
  | some v => simp [hStored]

theorem rowAt_single (n : Int) (path : List Nat) (nodeid : NodeId) (j : Nat)
    (ref : ReferenceDescription) : client.rowAt n path nodeid ⟨[], (j, ref)⟩ =
      ⟨n.toNat, ref, client.readValueAttribute ref.nodeId
        (client.leftOver ((client.edges nodeid).take j) (client.uninit path))⟩ := by
  simp [rowAt, shown, stale, endpoint, readValueAttribute_eq]

theorem rowAt_cons (n : Int) (path : List Nat) (nodeid : NodeId) (j : Nat) (ref : ReferenceDescription)
    (walk : RefWalk) : client.rowAt n path nodeid (Walk.cons (j, ref) walk) =
      client.rowAt (n + 1) (path ++ [j]) ref.nodeId walk := by
  have hDashes : n + ((walk.length + 1 : Nat) : Int) - 1 = n + 1 + walk.length - 1 := by omega
  have hPath : path ++ (j :: walk.before.map Prod.fst) = path ++ [j] ++ walk.before.map Prod.fst := by
    simp
  rw [rowAt, rowAt, Walk.length_cons, hDashes, shown, shown, stale, stale, ← hPath]
  rfl

theorem rowTexts_append (n : Int) (path : List Nat) (nodeid : NodeId) (walks walks' : List RefWalk) :
    client.rowTexts n path nodeid (walks ++ walks') =
      client.rowTexts n path nodeid walks ++ client.rowTexts n path nodeid walks' := List.map_append

theorem rowTexts_block {ref : ReferenceDescription} (hFollow : ref.follow = some ref.nodeId) (n : Int)
    (path : List Nat) (nodeid : NodeId) (j : Nat) (walks : NodeId → List RefWalk) :
    client.rowTexts n path nodeid (block ReferenceDescription.follow walks (ref, j)) =
      (client.rowAt n path nodeid ⟨[], (j, ref)⟩).text ::
        client.rowTexts (n + 1) (path ++ [j]) ref.nodeId (walks ref.nodeId) := by
  rw [block_some _ hFollow, rowTexts, rowTexts, List.map_cons, List.map_map]
  congr 1
  apply List.map_congr_left
  intro walk _
  exact congrArg Row.text (client.rowAt_cons n path nodeid j ref walk)

variable {client}

theorem recursionLoop_skipped {recursion : NodeId → List Nat → Option (Printout Bytes)} {n : Int}
    {path : List Nat} {ref : ReferenceDescription} (hFollow : ref.follow = none)
    (refs : List ReferenceDescription) (j : Nat) (value : Variant) :
    client.recursionLoop recursion n path (ref :: refs) j value =
      client.recursionLoop recursion n path refs (j + 1) ((client.stored ref).getD value) := by
  rw [recursionLoop, stored]
  split
  · rfl
  · rename_i hNonzero
    have hNot : ref.nodeId.identifier.isPrinted ≠ true := by
      intro hPrinted
      rw [ref.follow_eq_some_iff.mpr ⟨hNonzero, hPrinted⟩] at hFollow
      cases hFollow
    rw [client.readValueAttribute_eq]
    cases hIdentifier : ref.nodeId.identifier with
    | numeric number => exact absurd (by rw [hIdentifier]; rfl) hNot
    | string s => exact absurd (by rw [hIdentifier]; rfl) hNot
    | guid g => rfl
    | byteString b => rfl

theorem recursionLoop_followed {recursion : NodeId → List Nat → Option (Printout Bytes)} {n : Int}
    {path : List Nat} {ref : ReferenceDescription} (hFollow : ref.follow = some ref.nodeId)
    {refs : List ReferenceDescription} {j : Nat} {value : Variant} {below rest : Printout Bytes}
    (hBelow : recursion ref.nodeId (path ++ [j]) = some below)
    (hRest : client.recursionLoop recursion n path refs (j + 1) ((client.stored ref).getD value) =
      some rest) : client.recursionLoop recursion n path (ref :: refs) j value =
        some ((Printout.print (Row.text ⟨n.toNat, ref, client.readValueAttribute ref.nodeId value⟩)).next
          (below.next rest)) := by
  obtain ⟨hNonzero, hPrinted⟩ := ref.follow_eq_some_iff.mp hFollow
  rw [stored, if_neg hNonzero, ← client.readValueAttribute_eq] at hRest
  rw [recursionLoop, if_neg hNonzero]
  cases hIdentifier : ref.nodeId.identifier with
  | numeric number =>
    simp only [hBelow, hRest]
    rfl
  | string s =>
    simp only [hBelow, hRest]
    rfl
  | guid g =>
    rw [hIdentifier] at hPrinted
    cases hPrinted
  | byteString b =>
    rw [hIdentifier] at hPrinted
    cases hPrinted

/-- The run lemma of the loop. The induction goes over the references to come;
`done` are those already seen, and the variable holds what they left. -/
theorem recursionLoop_eq {recursion : NodeId → List Nat → Option (Printout Bytes)} {n : Int}
    {path : List Nat} {nodeid : NodeId} {walks : NodeId → List RefWalk}
    (hRecursion : ∀ id path, recursion id path =
      some (Printout.printAll (client.rowTexts (n + 1) path id (walks id))))
    (refs : List ReferenceDescription) (done : List ReferenceDescription)
    (hSplit : client.edges nodeid = done ++ refs) :
    client.recursionLoop recursion n path refs done.length
        (client.leftOver done (client.uninit path)) =
      some (Printout.printAll (client.rowTexts n path nodeid
        ((refs.zipIdx done.length).flatMap (block ReferenceDescription.follow walks)))) := by
  induction refs generalizing done with
  | nil => rfl
  | cons ref refs ih =>
    have hRest := ih (done ++ [ref]) (by rw [hSplit, List.append_assoc]; rfl)
    rw [List.length_append, List.length_singleton, leftOver_snoc] at hRest
    rw [List.zipIdx_cons, List.flatMap_cons]
    rcases ref.follow_cases with hFollow | hFollow
    · rw [recursionLoop_skipped hFollow, hRest, block_none _ hFollow]
      rfl
    · have hTake : (client.edges nodeid).take done.length = done := by
        rw [hSplit, List.take_left]
      rw [recursionLoop_followed hFollow (hRecursion _ _) hRest, rowTexts_append,
        rowTexts_block client hFollow, rowAt_single, hTake, List.cons_append, Printout.printAll,
        Printout.printAll_append]

/-- The run lemma of the recursion, by induction on the remaining depth: fuel
for that depth suffices, whatever the graph. -/
theorem browsingVarsRecursion_eq (client : BrowseClient) (extra : Nat) {depth : Nat} {n : Int}
    (hDepth : (2 - n).toNat = depth) (nodeid : NodeId) (path : List Nat) :
    client.browsingVarsRecursion (depth + extra) nodeid n path =
      some (Printout.printAll (client.rowTexts n path nodeid
        (preorder client.edges ReferenceDescription.follow depth nodeid))) := by
  induction depth generalizing n nodeid path with
  | zero =>
    have hDeep : n > 1 := by omega
    cases extra with
    | zero => rw [browsingVarsRecursion, if_pos hDeep]; rfl
    | succ extra => rw [Nat.zero_add, browsingVarsRecursion, if_pos hDeep]; rfl
  | succ depth ih =>
    have hShallow : ¬ n > 1 := by omega
    have hNext : (2 - (n + 1)).toNat = depth := by omega
    rw [Nat.succ_add, browsingVarsRecursion, if_neg hShallow]
    exact recursionLoop_eq (fun id path => ih hNext id path) (client.edges nodeid) [] rfl

end BrowseClient

end OpcConfig
