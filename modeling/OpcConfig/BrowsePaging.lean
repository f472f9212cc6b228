import OpcConfig.BrowseRows

/-! # Browsing a server that cuts its answers

No continuation point is ever used, so of every node the first references are
all that is seen. What is printed for them is the same as without the cut.
-/

namespace OpcConfig

set_option autoImplicit false

open CString Walks

/-- The same server, with at most `p` references in a result, and a continuation
point where it holds some back. -/
structure Pages (p : Nat) (full paged : BrowseClient) : Prop where
  readValue : paged.readValue = full.readValue
  uninit : paged.uninit = full.uninit
  browse : ∀ id, ∃ shown hidden point, full.browse id = ⟨[⟨shown ++ hidden, []⟩]⟩ ∧
    paged.browse id = ⟨[⟨shown, point⟩]⟩ ∧ shown.length ≤ p ∧ (hidden ≠ [] → point ≠ [])

namespace BrowseClient

def hidden (full paged : BrowseClient) (id : NodeId) : List ReferenceDescription :=
  (full.edges id).drop (paged.edges id).length

/-- The first `k` references of the Objects folder are dealt with and the program
goes on. -/
def GetsPast (client : BrowseClient) (k : Nat) : Prop :=
  ∀ j < k, ∀ ref, (client.edges NodeId.objectsFolder)[j]? = some ref →
    ref.nodeId.identifier.isPrinted = true → ref.listedBelow → client.Sound ref.nodeId 1 [j]

/-- Where the program gets to, nothing is held back that would be printed. -/
def Complete (full paged : BrowseClient) : Prop :=
  (∀ j ref, (paged.edges NodeId.objectsFolder)[j]? = some ref →
    ref.nodeId.identifier.isPrinted = true → ref.listedBelow → paged.GetsPast (j + 1) →
      ∀ below ∈ hidden full paged ref.nodeId, below.follow = none) ∧
  (paged.GetsPast (paged.edges NodeId.objectsFolder).length →
    ∀ ref ∈ hidden full paged NodeId.objectsFolder, ref.nodeId.identifier.isPrinted = false)

/-- The rows of the references of a node that are held back. -/
def hiddenLines (full paged : BrowseClient) (ref : ReferenceDescription) (j : Nat) :
    List (Option Bytes) :=
  if ref.nodeId.identifier.isPrinted = true ∧ ref.listedBelow then
    (((hidden full paged ref.nodeId).zipIdx (paged.edges ref.nodeId).length).filter
      fun step => step.1.follow.isSome).map
        fun step => (full.rowAt 1 [j] ref.nodeId ⟨[], (step.2, step.1)⟩).text
  else []

theorem objectText_head (ref : ReferenceDescription) : (objectText ref).head? ≠ some 45 := by
  intro hHead
  obtain ⟨digit, digits, hNumeral⟩ := List.exists_cons_of_ne_nil
    (Printf.numeral_ne_nil ref.nodeId.namespaceIndex.toBitVec.toNat)
  have hDigit : digit ∈ Printf.numeral ref.nodeId.namespaceIndex.toBitVec.toNat := by
    rw [hNumeral]
    exact List.mem_cons_self
  rw [objectText, columnsWith, Printf.d_promoted (by decide), hNumeral, Printf.left] at hHead
  rw [Option.some.inj hHead] at hDigit
  exact absurd (Printf.digit_of_mem_numeral hDigit).1 (by decide)

theorem row_text_head {row : Row} (hDashes : row.dashes = 1) {text : Bytes}
    (h : row.text = some text) : text.head? = some 45 := by
  rw [Row.text, hDashes] at h
  obtain ⟨columns, _, h⟩ := Option.bind_eq_some_iff.mp h
  obtain ⟨value, _, h⟩ := Option.bind_eq_some_iff.mp h
  exact Option.some.inj h ▸ rfl

theorem hiddenLines_eq_nil_iff (full paged : BrowseClient) (ref : ReferenceDescription) (j : Nat) :
    hiddenLines full paged ref j = [] ↔
      (ref.nodeId.identifier.isPrinted = true → ref.listedBelow →
        ∀ below ∈ hidden full paged ref.nodeId, below.follow = none) := by
  rw [hiddenLines]
  split
  · rename_i hBoth
    rw [List.map_eq_nil_iff, List.filter_eq_nil_iff]
    constructor
    · intro hNone _ _ below hBelow
      obtain ⟨k, hk⟩ := List.mem_iff_getElem?.mp hBelow
      have hStep := hNone (below, (paged.edges ref.nodeId).length + k)
        (List.mem_zipIdx_iff_le_and_getElem?_sub.mpr ⟨Nat.le_add_right _ _, by simpa using hk⟩)
      simpa using hStep
    · rintro hNone ⟨below, k⟩ hStep
      simp [hNone hBoth.1 hBoth.2 below (List.fst_mem_of_mem_zipIdx hStep)]
  · rename_i hNot
    exact iff_of_true rfl fun hPrinted hBelow => absurd ⟨hPrinted, hBelow⟩ hNot

theorem getsPast_iff (client : BrowseClient) (k : Nat) :
    client.GetsPast k ↔ ∀ j < k, ∀ step, (client.edges NodeId.objectsFolder).zipIdx[j]? = some step →
      none ∉ client.objectLines step.1 step.2 := by
  have hLines (ref : ReferenceDescription) (j : Nat) : none ∉ client.objectLines ref j ↔
      (ref.nodeId.identifier.isPrinted = true → ref.listedBelow → client.Sound ref.nodeId 1 [j]) := by
    rw [objectLines, sound_iff]
    split
    · rename_i hPrinted
      rw [object_text_eq hPrinted]
      split
      · rename_i hBelow
        simp [hPrinted, hBelow, listing]
      · rename_i hBelow
        simp [hBelow]
    · rename_i hPrinted
      simp [hPrinted]
  simp only [GetsPast, List.getElem?_zipIdx, Nat.zero_add, Option.map_eq_some_iff, hLines]
  constructor
  · rintro h j hj _ ⟨ref, hRef, rfl⟩
    exact h j hj ref hRef
  · intro h j hj ref hRef
    exact h j hj (ref, j) ⟨ref, hRef, rfl⟩

theorem getsPast_length_iff (client : BrowseClient) :
    client.GetsPast (client.edges NodeId.objectsFolder).length ↔
      ∀ step ∈ (client.edges NodeId.objectsFolder).zipIdx,
        none ∉ client.objectLines step.1 step.2 := by
  rw [getsPast_iff]
  constructor
  · intro hPast step hStep
    obtain ⟨k, hk⟩ := List.mem_iff_getElem?.mp hStep
    obtain ⟨hLess, _⟩ := List.getElem?_eq_some_iff.mp hk
    exact hPast k (by simpa using hLess) step hk
  · intro hSteps k _ step hStep
    exact hSteps step (List.mem_iff_getElem?.mpr ⟨k, hStep⟩)

/-- Both browses print the title and the header first. -/
theorem headed_eq_iff (l l' : List (Option Bytes)) :
    Printout.printAll (Line.title.text :: Line.header.text :: l) =
        Printout.printAll (Line.title.text :: Line.header.text :: l') ↔
      Printout.printAll l = Printout.printAll l' := by
  have hSplit := Printout.printAll_append [Line.title.text, Line.header.text]
  exact (congrArg₂ Eq (hSplit l) (hSplit l')).to_iff.trans (Printout.next_left_cancel_iff rfl)

section

variable {p : Nat} {full paged : BrowseClient}

theorem edges_paged (h : Pages p full paged) (id : NodeId) :
    full.edges id = paged.edges id ++ hidden full paged id := by
  obtain ⟨shown, rest, point, hFull, hPaged, _, _⟩ := h.browse id
  simp [hidden, edges, hFull, hPaged]

theorem rowAt_paged (h : Pages p full paged) (n : Int) (path : List Nat) (id : NodeId) {j : Nat}
    (hj : j ≤ (paged.edges id).length) (ref : ReferenceDescription) :
    full.rowAt n path id ⟨[], (j, ref)⟩ = paged.rowAt n path id ⟨[], (j, ref)⟩ := by
  have hTake : (full.edges id).take j = (paged.edges id).take j := by
    rw [edges_paged h, List.take_append_of_le_length hj]
  have hStored : full.stored = paged.stored := by
    funext ref
    rw [stored, stored, h.readValue]
  rw [rowAt_single, rowAt_single, hTake, leftOver, leftOver, hStored, readValueAttribute,
    readValueAttribute, h.readValue, h.uninit]

theorem objectLines_paged (h : Pages p full paged) (ref : ReferenceDescription) (j : Nat) :
    full.objectLines ref j = paged.objectLines ref j ++ hiddenLines full paged ref j := by
  have hListing : full.listing ref j = paged.listing ref j ++
      (((hidden full paged ref.nodeId).zipIdx (paged.edges ref.nodeId).length).filter
        fun step => step.1.follow.isSome).map
          fun step => (full.rowAt 1 [j] ref.nodeId ⟨[], (step.2, step.1)⟩).text := by
    rw [listing_eq, listing_eq, edges_paged h, List.zipIdx_append, List.filter_append,
      List.map_append, Nat.zero_add]
    congr 1
    apply List.map_congr_left
    rintro ⟨below, k⟩ hStep
    have hMem := List.mem_zipIdx_iff_getElem?.mp (List.mem_filter.mp hStep).1
    obtain ⟨hk, _⟩ := List.getElem?_eq_some_iff.mp hMem
    exact congrArg Row.text (rowAt_paged h 1 [j] ref.nodeId (Nat.le_of_lt hk) below)
  rw [objectLines, objectLines, hiddenLines]
  split
  · rename_i hPrinted
    split
    · rename_i hBelow
      rw [if_pos ⟨hPrinted, hBelow⟩, hListing]
      rfl
    · rename_i hBelow
      rw [if_neg fun hBoth => hBelow hBoth.2]
      rfl
  · rename_i hPrinted
    rw [if_neg fun hBoth => hPrinted hBoth.1]
    rfl

theorem objectLines_headed (full paged : BrowseClient) (l : List (ReferenceDescription × Nat)) :
    Printout.Headed (fun step => paged.objectLines step.1 step.2)
      (fun step => hiddenLines full paged step.1 step.2) (fun text => text.head? ≠ some 45) l where
  shown := by
    rintro ⟨ref, j⟩ _
    dsimp only
    rw [objectLines]
    split
    · rename_i hPrinted
      exact Or.inr ⟨_, _, by rw [object_text_eq hPrinted], objectText_head ref⟩
    · exact Or.inl rfl
  hidden := by
    rintro ⟨ref, j⟩ _ text hMem
    dsimp only at hMem
    rw [hiddenLines] at hMem
    split at hMem
    · obtain ⟨step, _, hText⟩ := List.mem_map.mp hMem
      exact fun hNot => hNot (row_text_head rfl hText)
    · cases hMem

/-- The lines of the references of the Objects folder that are held back. -/
def hiddenObjects (full paged : BrowseClient) : List (Option Bytes) :=
  ((hidden full paged NodeId.objectsFolder).zipIdx (paged.edges NodeId.objectsFolder).length).flatMap
    fun step => full.objectLines step.1 step.2

theorem hiddenObjects_eq_nil_iff (full paged : BrowseClient) : hiddenObjects full paged = [] ↔
    ∀ ref ∈ hidden full paged NodeId.objectsFolder, ref.nodeId.identifier.isPrinted = false := by
  rw [hiddenObjects, List.flatMap_eq_nil_iff]
  constructor
  · intro hNone ref hRef
    obtain ⟨k, hk⟩ := List.mem_iff_getElem?.mp hRef
    have hLines := hNone (ref, (paged.edges NodeId.objectsFolder).length + k)
      (List.mem_zipIdx_iff_le_and_getElem?_sub.mpr ⟨Nat.le_add_right _ _, by simpa using hk⟩)
    rw [objectLines, ite_eq_right_iff] at hLines
    rw [← Bool.not_eq_true]
    intro hPrinted
    cases hLines hPrinted
  · rintro hNone ⟨ref, k⟩ hStep
    simp [objectLines, hNone ref (List.fst_mem_of_mem_zipIdx hStep)]

theorem objects_paged (h : Pages p full paged) :
    ((full.edges NodeId.objectsFolder).zipIdx.flatMap fun step =>
      full.objectLines step.1 step.2) =
    ((paged.edges NodeId.objectsFolder).zipIdx.flatMap fun step =>
      paged.objectLines step.1 step.2 ++ hiddenLines full paged step.1 step.2) ++
        hiddenObjects full paged := by
  rw [edges_paged h, List.zipIdx_append, List.flatMap_append, Nat.zero_add]
  congr 1
  exact List.flatMap_congr fun step _ => objectLines_paged h step.1 step.2

end

/-- A browse of the paged server prints the same as one of the server without a
limit exactly when nothing that would be printed is held back where it gets to. -/
theorem paging_iff (p : Nat) (full paged : BrowseClient) (h : Pages p full paged) (extra : Nat) :
    ∃ output pagedOutput, full.browsingVars (1 + extra) = some output ∧
      paged.browsingVars (1 + extra) = some pagedOutput ∧
        (pagedOutput = output ↔ Complete full paged) := by
  refine ⟨_, _, browsingVars_eq full extra, browsingVars_eq paged extra, ?_⟩
  rw [headed_eq_iff, objects_paged h, (objectLines_headed full paged _).printAll_eq_iff,
    hiddenObjects_eq_nil_iff, ← getsPast_length_iff, Complete]
  refine and_congr ?_ Iff.rfl
  constructor
  · intro hSteps j ref hRef hPrinted hBelow hPast
    have hStep : (paged.edges NodeId.objectsFolder).zipIdx[j]? = some (ref, j) := by simp [hRef]
    refine (hiddenLines_eq_nil_iff full paged ref j).mp (hSteps j (ref, j) hStep ?_) hPrinted hBelow
    exact fun k hk => (getsPast_iff paged (j + 1)).mp hPast k (Nat.lt_succ_of_le hk)
  · rintro hNone j ⟨ref, k⟩ hStep hBefore
    rw [List.getElem?_zipIdx, Nat.zero_add] at hStep
    obtain ⟨_, hRef, hPair⟩ := Option.map_eq_some_iff.mp hStep
    cases hPair
    refine (hiddenLines_eq_nil_iff full paged ref j).mpr fun hPrinted hBelow => ?_
    refine hNone j ref hRef hPrinted hBelow ((getsPast_iff paged (j + 1)).mpr ?_)
    exact fun i hi => hBefore i (Nat.le_of_lt_succ hi)

def twoVariables (paged : Bool) : BrowseClient where
  browse id :=
    if id = NodeId.objectsFolder then
      if paged then ⟨[⟨[plainRef 7], [1]⟩]⟩ else ⟨[⟨[plainRef 7, plainRef 8], []⟩]⟩
    else ⟨[⟨[], []⟩]⟩
  readValue _ := .error 0x80350000
  uninit _ := .empty

theorem twoVariables_pages : Pages 1 (twoVariables false) (twoVariables true) where
  readValue := rfl
  uninit := rfl
  browse id := by
    rcases Classical.em (id = NodeId.objectsFolder) with rfl | hOther
    · exact ⟨[plainRef 7], [plainRef 8], [1], rfl, rfl, by decide, by simp⟩
    · exact ⟨[], [], [], if_neg hOther, if_neg hOther, by decide, by simp⟩

theorem paging_iff_one : ∃ output pagedOutput,
    (twoVariables false).browsingVars (1 + 0) = some output ∧
      (twoVariables true).browsingVars (1 + 0) = some pagedOutput ∧
        (pagedOutput = output ↔ Complete (twoVariables false) (twoVariables true)) :=
  paging_iff 1 _ _ twoVariables_pages 0

theorem paging_fails : Pages 1 (twoVariables false) (twoVariables true) ∧
    ∃ output pagedOutput, (twoVariables false).browsingVars 1 = some output ∧
      (twoVariables true).browsingVars 1 = some pagedOutput ∧ pagedOutput.items ≠ output.items := by
  refine ⟨twoVariables_pages, _, _, rfl, rfl, ?_⟩
  intro hText
  have hLength := congrArg List.length hText
  exact absurd hLength (by decide)

end BrowseClient

end OpcConfig
