import OpcConfig.BrowseWalks

/-! # Which rows a browse prints, and which values they show -/

namespace OpcConfig

set_option autoImplicit false

open CString Walks

/-- A reference of the Objects folder whose own references are listed, too. -/
def ReferenceDescription.listedBelow (ref : ReferenceDescription) : Prop :=
  ref.nodeId.namespaceIndex = 3 ∨ ref.nodeId.namespaceIndex = 2

instance (ref : ReferenceDescription) : Decidable ref.listedBelow :=
  inferInstanceAs (Decidable (ref.nodeId.namespaceIndex = 3 ∨ ref.nodeId.namespaceIndex = 2))

namespace BrowseClient

variable (client : BrowseClient)

/-! ## Runs -/

/-- The walks whose rows belong to a call with `n`. -/
def Within (nodeid : NodeId) (n : Int) (walk : RefWalk) : Prop :=
  IsWalk client.edges ReferenceDescription.follow nodeid walk.steps ∧ (walk.length : Int) ≤ 2 - n

/-- Wherever the call reads an element of a value, there is one. -/
def Sound (nodeid : NodeId) (n : Int) (path : List Nat) : Prop :=
  ∀ walk, client.Within nodeid n walk →
    (client.shown path nodeid walk).lacks UaType.printed = false

/-- The call prints one row for each of its walks, in pre-order, and comes to its
end. What a row ends with is the value as `shows` has it for the walk. -/
def Lists (fuel : Nat) (nodeid : NodeId) (n : Int) (path : List Nat)
    (shows : RefWalk → Bytes → Prop) : Prop :=
  ∃ (walks : List RefWalk) (texts : List Bytes),
    client.browsingVarsRecursion fuel nodeid n path = some ⟨texts, true⟩ ∧
      walks.Pairwise (fun a b => a.positions < b.positions) ∧
      (∀ walk, walk ∈ walks ↔ client.Within nodeid n walk) ∧
      List.Forall₂ (fun walk text => ∃ value, shows walk value ∧
        text = rowText (n + walk.length - 1).toNat walk.last.2 value) walks texts

/-- The listing of a reference of the Objects folder. -/
def listing (ref : ReferenceDescription) (j : Nat) : List (Option Bytes) :=
  client.rowTexts 1 [j] ref.nodeId
    (preorder client.edges ReferenceDescription.follow 1 ref.nodeId)

def objectLines (ref : ReferenceDescription) (j : Nat) : List (Option Bytes) :=
  if ref.nodeId.identifier.isPrinted then
    (Line.object ref).text :: (if ref.listedBelow then client.listing ref j else [])
  else []

theorem mem_walks (n : Int) (nodeid : NodeId) (walk : RefWalk) :
    walk ∈ preorder client.edges ReferenceDescription.follow (2 - n).toNat nodeid ↔
      client.Within nodeid n walk := by
  have hPos : 1 ≤ walk.length := Nat.le_add_left 1 _
  have hBound : walk.length ≤ (2 - n).toNat ↔ (walk.length : Int) ≤ 2 - n := by omega
  rw [mem_preorder, hBound]
  rfl

variable {client}

theorem Within.isPrinted {nodeid : NodeId} {n : Int} {walk : RefWalk}
    (h : client.Within nodeid n walk) : walk.last.2.nodeId.identifier.isPrinted = true := by
  have hLast {steps : List (Nat × ReferenceDescription)} {id : NodeId}
      (hWalk : IsWalk client.edges ReferenceDescription.follow id (steps ++ [walk.last])) :
      ∃ w, walk.last.2.follow = some w := by
    induction steps generalizing id with
    | nil =>
      obtain ⟨_, w, hFollow, _⟩ := hWalk
      exact ⟨w, hFollow⟩
    | cons step steps ih =>
      obtain ⟨_, w, _, hWalk⟩ := hWalk
      exact ih hWalk
  obtain ⟨w, hFollow⟩ := hLast h.1
  rcases walk.last.2.follow_cases with hNone | hSome
  · rw [hNone] at hFollow
    cases hFollow
  · exact (walk.last.2.follow_eq_some_iff.mp hSome).2

theorem rowAt_text {nodeid : NodeId} {n : Int} {walk : RefWalk} (h : client.Within nodeid n walk)
    (path : List Nat) : (client.rowAt n path nodeid walk).text =
      (printVariant (client.shown path nodeid walk)).map
        (rowText (n + walk.length - 1).toNat walk.last.2) :=
  Row.text_eq h.isPrinted

/-- A call lists its walks exactly when every row can be printed as `shows` says. -/
theorem lists_iff (client : BrowseClient) (nodeid : NodeId) (n : Int) (path : List Nat) (extra : Nat)
    (shows : RefWalk → Bytes → Prop) :
    client.Lists ((2 - n).toNat + extra) nodeid n path shows ↔
      ∀ walk, client.Within nodeid n walk →
        ∃ value, printVariant (client.shown path nodeid walk) = some value ∧ shows walk value := by
  let walks := preorder client.edges ReferenceDescription.follow (2 - n).toNat nodeid
  have hRun : client.browsingVarsRecursion ((2 - n).toNat + extra) nodeid n path =
      some (Printout.printAll (client.rowTexts n path nodeid walks)) :=
    browsingVarsRecursion_eq client extra rfl nodeid path
  have hLists : client.Lists ((2 - n).toNat + extra) nodeid n path shows ↔
      ∃ texts, Printout.printAll (client.rowTexts n path nodeid walks) = ⟨texts, true⟩ ∧
        List.Forall₂ (fun walk text => ∃ value, shows walk value ∧
          text = rowText (n + walk.length - 1).toNat walk.last.2 value) walks texts := by
    constructor
    · rintro ⟨walks', texts, hPrinted, hSorted, hMem, hRows⟩
      have hSame : walks' = walks := by
        apply eq_preorder _ _ hSorted
        intro walk
        rw [hMem, ← client.mem_walks, mem_preorder]
      rw [hRun] at hPrinted
      exact ⟨texts, Option.some.inj hPrinted, hSame ▸ hRows⟩
    · rintro ⟨texts, hPrinted, hRows⟩
      exact ⟨walks, texts, by rw [hRun, hPrinted], preorder_sorted _ _ _ _,
        client.mem_walks n nodeid, hRows⟩
  rw [hLists, rowTexts, Printout.exists_printAll_map_iff]
  constructor
  · intro h walk hWalk
    obtain ⟨text, hText, value, hShows, rfl⟩ := h walk ((client.mem_walks n nodeid walk).mpr hWalk)
    rw [rowAt_text hWalk] at hText
    obtain ⟨value', hValue, hSame⟩ := Option.map_eq_some_iff.mp hText
    exact ⟨value', hValue, rowText_inj hSame ▸ hShows⟩
  · intro h walk hMem
    have hWalk := (client.mem_walks n nodeid walk).mp hMem
    obtain ⟨value, hValue, hShows⟩ := h walk hWalk
    exact ⟨_, by rw [rowAt_text hWalk, hValue]; rfl, value, hShows, rfl⟩

theorem objectListing_eq (client : BrowseClient) (extra : Nat) (ref : ReferenceDescription) (j : Nat) :
    client.objectListing (1 + extra) ref j =
      some (Printout.printAll (if ref.listedBelow then client.listing ref j else [])) := by
  rw [objectListing]
  split
  · rename_i hNamespace
    rw [if_pos (show ref.listedBelow from hNamespace)]
    exact browsingVarsRecursion_eq client extra (n := 1) rfl ref.nodeId [j]
  · rename_i hNamespace
    rw [if_neg (show ¬ ref.listedBelow from hNamespace)]
    rfl

theorem objectsLoop_eq (client : BrowseClient) (extra : Nat) (refs : List ReferenceDescription)
    (j : Nat) : client.objectsLoop (1 + extra) refs j =
      some (Printout.printAll ((refs.zipIdx j).flatMap fun step =>
        client.objectLines step.1 step.2)) := by
  induction refs generalizing j with
  | nil => rfl
  | cons ref refs ih =>
    rw [objectsLoop, objectListing_eq, ih, List.zipIdx_cons, List.flatMap_cons]
    dsimp only
    have hLines (hPrinted : ref.nodeId.identifier.isPrinted = true) :
        (Printout.print (Line.object ref).text).next
          ((Printout.printAll (if ref.listedBelow then client.listing ref j else [])).next
            (Printout.printAll ((refs.zipIdx (j + 1)).flatMap fun step =>
              client.objectLines step.1 step.2))) =
        Printout.printAll (client.objectLines ref j ++ (refs.zipIdx (j + 1)).flatMap fun step =>
          client.objectLines step.1 step.2) := by
      rw [objectLines, if_pos hPrinted, List.cons_append, Printout.printAll, Printout.printAll_append]
    cases hIdentifier : ref.nodeId.identifier with
    | numeric number => exact congrArg some (hLines (by rw [hIdentifier]; rfl))
    | string s => exact congrArg some (hLines (by rw [hIdentifier]; rfl))
    | guid g => simp [objectLines, hIdentifier, Identifier.isPrinted]
    | byteString b => simp [objectLines, hIdentifier, Identifier.isPrinted]

theorem browsingVars_eq (client : BrowseClient) (extra : Nat) : client.browsingVars (1 + extra) =
    some (Printout.printAll (Line.title.text :: Line.header.text ::
      (client.edges NodeId.objectsFolder).zipIdx.flatMap fun step =>
        client.objectLines step.1 step.2)) := by
  rw [browsingVars, references_eq_edges, objectsLoop_eq]
  rfl

theorem listing_eq (client : BrowseClient) (ref : ReferenceDescription) (j : Nat) :
    client.listing ref j =
      ((client.edges ref.nodeId).zipIdx.filter fun step => step.1.follow.isSome).map
        fun step => (client.rowAt 1 [j] ref.nodeId ⟨[], (step.2, step.1)⟩).text := by
  rw [listing, rowTexts, preorder_one, List.map_map]
  rfl

theorem sound_iff (client : BrowseClient) (nodeid : NodeId) (n : Int) (path : List Nat) :
    client.Sound nodeid n path ↔ none ∉ client.rowTexts n path nodeid
      (preorder client.edges ReferenceDescription.follow (2 - n).toNat nodeid) := by
  have hRow {walk : RefWalk} (hWalk : client.Within nodeid n walk) :
      (client.rowAt n path nodeid walk).text = none ↔
        (client.shown path nodeid walk).lacks UaType.printed = true := by
    rw [rowAt_text hWalk, Option.map_eq_none_iff, printVariant_eq_none_iff]
  rw [rowTexts, List.mem_map]
  constructor
  · rintro h ⟨walk, hMem, hNone⟩
    have hWalk := (client.mem_walks n nodeid walk).mp hMem
    exact Bool.false_ne_true ((h walk hWalk).symm.trans ((hRow hWalk).mp hNone))
  · intro h walk hWalk
    rw [← Bool.not_eq_true]
    intro hLacks
    exact h ⟨walk, (client.mem_walks n nodeid walk).mpr hWalk, (hRow hWalk).mpr hLacks⟩

/-! ## The listing of the Objects folder -/

/-- The texts for a reference of the Objects folder, with `below` for its listing. -/
def objectTexts (below : Nat → List Bytes) (ref : ReferenceDescription) (j : Nat) : List Bytes :=
  if ref.nodeId.identifier.isPrinted then
    objectText ref :: (if ref.listedBelow then below j else [])
  else []

/-- After the title and the header come the printed references of the Objects
folder, each in namespace 2 or 3 with the printed references of its node. -/
def ListsObjects (client : BrowseClient) (fuel : Nat) : Prop :=
  ∃ below : Nat → List Bytes,
    client.browsingVars fuel = some ⟨Line.title.text.toList ++ Line.header.text.toList ++
      (client.edges NodeId.objectsFolder).zipIdx.flatMap
        (fun step => objectTexts below step.1 step.2), true⟩ ∧
    ∀ j ref, (client.edges NodeId.objectsFolder)[j]? = some ref →
      ref.nodeId.identifier.isPrinted = true → ref.listedBelow →
        List.Forall₂ (fun ref text => ∃ value, text = rowText 1 ref value)
          ((client.edges ref.nodeId).filter fun ref => ref.follow.isSome) (below j)

theorem Sound.listing {ref : ReferenceDescription} {j : Nat} (h : client.Sound ref.nodeId 1 [j]) :
    ∃ texts : List Bytes, client.listing ref j = texts.map some ∧
      List.Forall₂ (fun ref text => ∃ value, text = rowText 1 ref value)
        ((client.edges ref.nodeId).filter fun ref => ref.follow.isSome) texts := by
  let steps := (client.edges ref.nodeId).zipIdx.filter fun step => step.1.follow.isSome
  have hRows : ∀ step ∈ steps, ∃ text,
      (client.rowAt 1 [j] ref.nodeId ⟨[], (step.2, step.1)⟩).text = some text ∧
        ∃ value, text = rowText 1 step.1 value := by
    rintro ⟨below, k⟩ hStep
    obtain ⟨hMem, hFollow⟩ := List.mem_filter.mp hStep
    obtain ⟨w, hw⟩ := Option.isSome_iff_exists.mp hFollow
    have hWalk : client.Within ref.nodeId 1 ⟨[], (k, below)⟩ :=
      ⟨⟨List.mem_zipIdx_iff_getElem?.mp hMem, w, hw, trivial⟩, by simp⟩
    have hSome : printVariant (client.shown [j] ref.nodeId ⟨[], (k, below)⟩) ≠ none := by
      rw [Ne, printVariant_eq_none_iff, h _ hWalk]
      exact Bool.false_ne_true
    obtain ⟨value, hValue⟩ := Option.ne_none_iff_exists'.mp hSome
    exact ⟨_, by rw [rowAt_text hWalk, hValue]; rfl, value, rfl⟩
  obtain ⟨texts, hTexts, hAll⟩ := (Printout.exists_printAll_map_iff steps).mpr hRows
  have hEdges : (client.edges ref.nodeId).filter (fun ref => ref.follow.isSome) =
      steps.map Prod.fst := by
    have hFst : (client.edges ref.nodeId).zipIdx.map Prod.fst = client.edges ref.nodeId :=
      List.zipIdx_map_fst 0 _
    rw [← hFst, List.filter_map]
    rfl
  rw [listing_eq, hEdges]
  exact ⟨texts, (Printout.printAll_eq_whole_iff _ _).mp hTexts, List.forall₂_map_left_iff.mpr hAll⟩

theorem listsObjects_iff (client : BrowseClient) (extra : Nat) :
    client.ListsObjects (1 + extra) ↔
      ∀ j ref, (client.edges NodeId.objectsFolder)[j]? = some ref →
        ref.nodeId.identifier.isPrinted = true → ref.listedBelow →
          client.Sound ref.nodeId 1 [j] := by
  rw [ListsObjects, browsingVars_eq]
  constructor
  · rintro ⟨below, hRun, _⟩ j ref hRef hPrinted hBelow
    have hAll := (Printout.printAll_eq_whole_iff _ _).mp (Option.some.inj hRun)
    refine (client.sound_iff ref.nodeId 1 [j]).mpr fun hNone => ?_
    have hMem : none ∈ (client.edges NodeId.objectsFolder).zipIdx.flatMap fun step =>
        client.objectLines step.1 step.2 := by
      refine List.mem_flatMap.mpr ⟨(ref, j), List.mem_zipIdx_iff_getElem?.mpr hRef, ?_⟩
      rw [objectLines, if_pos hPrinted, if_pos hBelow]
      exact List.mem_cons_of_mem _ hNone
    have hNone' := List.mem_cons_of_mem Line.title.text (List.mem_cons_of_mem Line.header.text hMem)
    rw [hAll] at hNone'
    simp at hNone'
  · intro h
    let below (j : Nat) : List Bytes := ((client.edges NodeId.objectsFolder)[j]?.elim []
      fun ref => client.listing ref j).filterMap id
    have hListing {j : Nat} {ref : ReferenceDescription} {texts : List Bytes}
        (hRef : (client.edges NodeId.objectsFolder)[j]? = some ref)
        (hTexts : client.listing ref j = texts.map some) : below j = texts := by
      simp [below, hRef, hTexts]
    have hLines : ∀ step ∈ (client.edges NodeId.objectsFolder).zipIdx,
        client.objectLines step.1 step.2 = (objectTexts below step.1 step.2).map some := by
      rintro ⟨ref, j⟩ hStep
      have hRef := List.mem_zipIdx_iff_getElem?.mp hStep
      rw [objectLines, objectTexts]
      split
      · rename_i hPrinted
        rw [List.map_cons, object_text_eq hPrinted]
        congr 1
        split
        · rename_i hBelow
          obtain ⟨texts, hTexts, _⟩ := (h j ref hRef hPrinted hBelow).listing
          rw [hTexts, hListing hRef hTexts]
        · rfl
      · rfl
    refine ⟨below, ?_, ?_⟩
    · rw [Option.some.injEq, Printout.printAll_eq_whole_iff, List.map_append, List.map_flatMap,
        List.flatMap_congr hLines]
      rfl
    · intro j ref hRef hPrinted hBelow
      obtain ⟨texts, hTexts, hRows⟩ := (h j ref hRef hPrinted hBelow).listing
      rwa [hListing hRef hTexts]

/-- The recursion prints its walks, and the browse of the Objects folder the
printed references with theirs, exactly when there is an element wherever one is
read. -/
theorem browsing_walks (client : BrowseClient) (nodeid : NodeId) (n : Int) (path : List Nat)
    (extra : Nat) :
    (client.Lists ((2 - n).toNat + extra) nodeid n path (fun _ _ => True) ↔
      client.Sound nodeid n path) ∧
    (client.ListsObjects (1 + extra) ↔
      ∀ j ref, (client.edges NodeId.objectsFolder)[j]? = some ref →
        ref.nodeId.identifier.isPrinted = true → ref.listedBelow →
          client.Sound ref.nodeId 1 [j]) := by
  refine ⟨?_, client.listsObjects_iff extra⟩
  rw [lists_iff]
  have hValue (variant : Variant) : (∃ value, printVariant variant = some value ∧ True) ↔
      variant.lacks UaType.printed = false := by
    rw [← Bool.not_eq_true, ← printVariant_eq_none_iff, ← Ne, Option.ne_none_iff_exists']
    simp
  simp only [hValue]
  rfl

def plainRef (n : UInt32) : ReferenceDescription :=
  ⟨⟨1, .numeric n⟩, .variable, ⟨1, ascii "a"⟩, ascii "a"⟩

def tank : ReferenceDescription := ⟨⟨2, .numeric 9⟩, .object, ⟨2, ascii "tank"⟩, ascii "tank"⟩

/-- One object with one variable, an array of integers without elements. -/
def sentinel : BrowseClient where
  browse id := ⟨[⟨if id = NodeId.objectsFolder then [tank]
    else if id = tank.nodeId then [plainRef 7] else [], []⟩]⟩
  readValue _ := .ok (.array ⟨.int32, [], by decide⟩)
  uninit _ := .empty

/-- The variable is not printed, and the program does not come to its end. -/
theorem browsing_walks_fails :
    sentinel.browsingVarsRecursion 1 tank.nodeId 1 [] = some ⟨[], false⟩ ∧
      ¬ sentinel.Lists 1 tank.nodeId 1 [] (fun _ _ => True) ∧ ¬ sentinel.ListsObjects 1 := by
  refine ⟨rfl, ?_, ?_⟩
  · rintro ⟨walks, texts, hRun, _⟩
    cases hRun
  · rintro ⟨below, hRun, _⟩
    have hWhole : (sentinel.browsingVars 1).map Printout.whole = some false := rfl
    rw [hRun] at hWhole
    cases hWhole

/-! ## Values -/

/-- What a row about the node should end with. -/
def rendering (client : BrowseClient) (nodeId : NodeId) : Option Bytes :=
  match client.readValue nodeId with
  | .ok value => printVariant value
  | .error _ => some []

theorem own_value_iff (client : BrowseClient) (path : List Nat) (nodeid : NodeId) (walk : RefWalk) :
    (∃ value, printVariant (client.shown path nodeid walk) = some value ∧
        client.rendering walk.last.2.nodeId = some value) ↔
      (∀ v, client.readValue walk.last.2.nodeId = .ok v → v.lacks UaType.printed = false) ∧
        ∀ status, client.readValue walk.last.2.nodeId = .error status →
          (client.stale path nodeid walk).Blank := by
  rw [shown, rendering]
  cases client.readValue walk.last.2.nodeId with
  | ok v =>
    simp [Except.toOption, ← Bool.not_eq_true, ← printVariant_eq_none_iff,
      ← Option.ne_none_iff_exists']
  | error status => simp [Except.toOption, printVariant_eq_nil_iff]

/-- All rows of a call are printed with the values of their own nodes exactly when
no node that can be read has an array without elements for its value and, at every
walk to a node that cannot be read, the variable holds nothing that is printed. -/
theorem values_own_iff (client : BrowseClient) (nodeid : NodeId) (n : Int) (path : List Nat)
    (extra : Nat) :
    client.Lists ((2 - n).toNat + extra) nodeid n path
        (fun walk value => client.rendering walk.last.2.nodeId = some value) ↔
      ∀ walk, client.Within nodeid n walk →
        (∀ v, client.readValue walk.last.2.nodeId = .ok v → v.lacks UaType.printed = false) ∧
          ∀ status, client.readValue walk.last.2.nodeId = .error status →
            (client.stale path nodeid walk).Blank := by
  rw [lists_iff]
  simp only [own_value_iff]

def siblings : BrowseClient where
  browse id := ⟨[⟨if id = NodeId.objectsFolder then [plainRef 7, plainRef 8] else [], []⟩]⟩
  readValue id := if id = (plainRef 7).nodeId then .ok (.scalar (.int32 5)) else .error 0x80350000
  uninit _ := .empty

/-- The object is shown with the value of the variable before it. -/
theorem values_own_fails :
    siblings.browsingVarsRecursion 1 NodeId.objectsFolder 1 [] =
        some ⟨[rowText 1 (plainRef 7) (ascii "5"), rowText 1 (plainRef 8) (ascii "5")], true⟩ ∧
      siblings.readValue (plainRef 8).nodeId = .error 0x80350000 ∧
      ¬ siblings.Lists 1 NodeId.objectsFolder 1 []
        (fun walk value => siblings.rendering walk.last.2.nodeId = some value) := by
  refine ⟨rfl, rfl, ?_⟩
  intro hLists
  have hWalk : siblings.Within NodeId.objectsFolder 1 ⟨[], (1, plainRef 8)⟩ :=
    ⟨⟨rfl, _, rfl, trivial⟩, by simp⟩
  obtain ⟨value, hShown, hOwn⟩ := (lists_iff siblings _ 1 [] 0 _).mp hLists _ hWalk
  have hEmpty : some [] = some value := hOwn
  have hFive : some (ascii "5") = some value := hShown
  exact absurd (hEmpty.trans hFive.symm) (by decide)

end BrowseClient

end OpcConfig
