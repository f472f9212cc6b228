import OpcConfig.SyncTurn
import OpcConfig.AddressSpace

/-! # What a pass does to an address space

A pass is a sequence of assignments to the nodes that the browse listed, and at
most one creation, up to an element that ends the program: one without a name, or
one at whose turn a value is reported that lacks its element. Assignments and
creation touch different nodes, so the space after the pass is given by the list
of assignments and by whether some entry found no variable.
-/

namespace OpcConfig.SyncClient

set_option autoImplicit false

open CString Loop LastWrite

/-! ## The elements of the settings -/

def readEntry : Json → Option Entry
  | .object fields =>
    match hName : Json.field fields (ascii "name") with
    | some (.string name) =>
      some ⟨.object fields, name, (Json.field fields (ascii "value")).getD .null,
        by rw [Json.index, hName]; rfl, rfl⟩
    | _ => none
  | _ => none

theorem entryName_of_readEntry {json : Json} (h : readEntry json = none) (wanted : Bytes) :
    entryName json ≠ .ok wanted := by
  intro hName
  cases json with
  | null | boolean | integer | double | string | array => cases hName
  | object fields =>
    rw [readEntry] at h
    split at h
    · cases h
    · rename_i hField
      rw [entryName, Json.index] at hName
      cases hAt : Json.field fields (ascii "name") with
      | none =>
        rw [hAt] at hName
        cases hName
      | some element =>
        cases element with
        | string name => exact hField name hAt
        | null | boolean | integer | double | array | object =>
          rw [hAt] at hName
          cases hName

theorem readEntry_eq_some {json : Json} {e : Entry} (h : readEntry json = some e) : e.json = json := by
  cases json with
  | null | boolean | integer | double | string | array => cases h
  | object fields =>
    rw [readEntry] at h
    split at h
    · cases h
      rfl
    · cases h

theorem Entry.eq_of_json {e e' : Entry} (h : e.json = e'.json) : e = e' := by
  obtain ⟨json, name, value, hName, hValue⟩ := e
  obtain ⟨json', name', value', hName', hValue'⟩ := e'
  cases h
  rw [hName] at hName'
  rw [hValue] at hValue'
  cases hName'
  cases hValue'
  rfl

theorem readEntry_json (e : Entry) : readEntry e.json = some e := by
  cases h : readEntry e.json with
  | none => exact absurd (entryName_entry e) (entryName_of_readEntry h e.name)
  | some e' => rw [Entry.eq_of_json (readEntry_eq_some h)]

/-! ## What a turn and a pass assign -/

def assignment (mem : Memory) (s : AddressSpace) (e : Entry) (site : Site)
    (ref : ReferenceDescription) : List (NodeId × Variant) :=
  if s.readableVariable ref.nodeId = true ∧ Hits mem site ref e.name then
    [(ref.nodeId, written (mem.slot site) e.value (mem.newValue site))]
  else []

def turnAssignments (mem : Memory) (s : AddressSpace) (e : Entry) (t k : Nat)
    (refs : List ReferenceDescription) : List (NodeId × Variant) :=
  refs.zipIdx.flatMap fun (ref, j) => assignment mem s e ⟨t, 0, k, j⟩ ref

def passAssignments (mem : Memory) (s : AddressSpace) (t : Nat) (refs : List ReferenceDescription)
    (entries : List Entry) : List (NodeId × Variant) :=
  entries.zipIdx.flatMap fun (e, k) => turnAssignments mem s e t k refs

def missing (mem : Memory) (s : AddressSpace) (t : Nat) (refs : List ReferenceDescription)
    (entries : List Entry) : Bool :=
  entries.zipIdx.any fun (e, k) => (turnAssignments mem s e t k refs).isEmpty

/-- The value of the node is reported, and after the assignments `l` it lacks the
element that is read. -/
def BreaksAt (P : Policy) (mem : Memory) (s : AddressSpace) (l : List (NodeId × Variant)) (e : Entry)
    (site : Site) (ref : ReferenceDescription) : Prop :=
  s.readableVariable ref.nodeId = true ∧ ¬ Hits mem site ref e.name ∧
    (puts (P.accepted s.nodes) l s.value ref.nodeId).lacks UaType.reported = true

instance (P : Policy) (mem : Memory) (s : AddressSpace) (l : List (NodeId × Variant)) (e : Entry)
    (site : Site) (ref : ReferenceDescription) : Decidable (BreaksAt P mem s l e site ref) :=
  inferInstanceAs (Decidable (_ ∧ _ ∧ _))

/-- The assignments of a pass so far, and whether an entry found no variable. -/
structure Effects where
  assignments : List (NodeId × Variant)
  missing : Bool

section

variable (P : Policy) (mem : Memory) (s : AddressSpace) (t : Nat) (refs : List ReferenceDescription)

def turnRun (e : Entry) (k : Nat) (l : List (NodeId × Variant)) :
    Except (List (NodeId × Variant)) (List (NodeId × Variant)) :=
  forEach (fun j ref l =>
    if BreaksAt P mem s l e ⟨t, 0, k, j⟩ ref then .error l
    else .ok (l ++ assignment mem s e ⟨t, 0, k, j⟩ ref)) refs 0 l

def elementRun (k : Nat) (json : Json) (x : Effects) : Except Effects Effects :=
  match readEntry json with
  | none => .error x
  | some e =>
    match turnRun P mem s t refs e k x.assignments with
    | .error l => .error { x with assignments := l }
    | .ok l => .ok ⟨l, x.missing || (turnAssignments mem s e t k refs).isEmpty⟩

def passRun (vars : List Json) (k : Nat) (x : Effects) : Except Effects Effects :=
  forEach (elementRun P mem s t refs) vars k x

/-- The turn of the entry is left, after the assignments `l`. -/
def TurnBreaks (e : Entry) (k : Nat) (l : List (NodeId × Variant)) : Prop :=
  ∃ j ref, refs[j]? = some ref ∧
    BreaksAt P mem s (l ++ turnAssignments mem s e t k (refs.take j)) e ⟨t, 0, k, j⟩ ref

/-- The first reference at which it is left is `j`, and the assignments are `l'` then. -/
structure LeavesAt (e : Entry) (k : Nat) (l : List (NodeId × Variant)) (j : Nat)
    (l' : List (NodeId × Variant)) : Prop where
  assignments : l' = l ++ turnAssignments mem s e t k (refs.take j)
  breaks : ∃ ref, refs[j]? = some ref ∧ BreaksAt P mem s l' e ⟨t, 0, k, j⟩ ref
  first : ∀ i < j, ∀ ref, refs[i]? = some ref →
    ¬ BreaksAt P mem s (l ++ turnAssignments mem s e t k (refs.take i)) e ⟨t, 0, k, i⟩ ref

def PassBreaks (entries : List Entry) : Prop :=
  ∃ k e, entries[k]? = some e ∧
    TurnBreaks P mem s t refs e k (passAssignments mem s t refs (entries.take k))

end

theorem turnAssignments_snoc (mem : Memory) (s : AddressSpace) (e : Entry) (t k : Nat)
    (refs : List ReferenceDescription) (ref : ReferenceDescription) :
    turnAssignments mem s e t k (refs ++ [ref]) =
      turnAssignments mem s e t k refs ++ assignment mem s e ⟨t, 0, k, refs.length⟩ ref := by
  simp [turnAssignments, List.zipIdx_append, List.flatMap_append]

theorem passAssignments_snoc (mem : Memory) (s : AddressSpace) (t : Nat)
    (refs : List ReferenceDescription) (entries : List Entry) (e : Entry) :
    passAssignments mem s t refs (entries ++ [e]) =
      passAssignments mem s t refs entries ++ turnAssignments mem s e t entries.length refs := by
  simp [passAssignments, List.zipIdx_append, List.flatMap_append]

theorem missing_snoc (mem : Memory) (s : AddressSpace) (t : Nat) (refs : List ReferenceDescription)
    (entries : List Entry) (e : Entry) : missing mem s t refs (entries ++ [e]) =
      (missing mem s t refs entries || (turnAssignments mem s e t entries.length refs).isEmpty) := by
  simp [missing, List.zipIdx_append]

theorem mem_assignment {mem : Memory} {s : AddressSpace} {e : Entry} {site : Site}
    {ref : ReferenceDescription} {a : NodeId × Variant} : a ∈ assignment mem s e site ref ↔
      s.readableVariable ref.nodeId = true ∧ Hits mem site ref e.name ∧
        a = (ref.nodeId, written (mem.slot site) e.value (mem.newValue site)) := by
  rw [assignment]
  split
  · rename_i h
    simp [h]
  · rename_i h
    simp only [List.not_mem_nil, false_iff]
    rintro ⟨hReadable, hHits, _⟩
    exact h ⟨hReadable, hHits⟩

theorem mem_turnAssignments {mem : Memory} {s : AddressSpace} {e : Entry} {t k : Nat}
    {refs : List ReferenceDescription} {a : NodeId × Variant} :
    a ∈ turnAssignments mem s e t k refs ↔ ∃ ref j, refs[j]? = some ref ∧
      s.readableVariable ref.nodeId = true ∧ Hits mem ⟨t, 0, k, j⟩ ref e.name ∧
        a = (ref.nodeId, written (mem.slot ⟨t, 0, k, j⟩) e.value (mem.newValue ⟨t, 0, k, j⟩)) := by
  simp only [turnAssignments, List.mem_flatMap, Prod.exists, List.mem_zipIdx_iff_getElem?,
    mem_assignment]

theorem mem_passAssignments {mem : Memory} {s : AddressSpace} {t : Nat}
    {refs : List ReferenceDescription} {entries : List Entry} {a : NodeId × Variant} :
    a ∈ passAssignments mem s t refs entries ↔
      ∃ e k, entries[k]? = some e ∧ a ∈ turnAssignments mem s e t k refs := by
  simp only [passAssignments, List.mem_flatMap, Prod.exists, List.mem_zipIdx_iff_getElem?]

theorem missing_eq_true_iff {mem : Memory} {s : AddressSpace} {t : Nat}
    {refs : List ReferenceDescription} {entries : List Entry} :
    missing mem s t refs entries = true ↔
      ∃ e k, entries[k]? = some e ∧ turnAssignments mem s e t k refs = [] := by
  simp only [missing, List.any_eq_true, Prod.exists, List.mem_zipIdx_iff_getElem?,
    List.isEmpty_iff]

/-! ## The abstract pass -/

section

variable {P : Policy} {mem : Memory} {s : AddressSpace} {t : Nat} {refs : List ReferenceDescription}

theorem LeavesAt.turnBreaks {e : Entry} {k j : Nat} {l l' : List (NodeId × Variant)}
    (h : LeavesAt P mem s t refs e k l j l') : TurnBreaks P mem s t refs e k l := by
  obtain ⟨ref, hRef, hBreaks⟩ := h.breaks
  exact ⟨j, ref, hRef, h.assignments ▸ hBreaks⟩

theorem turnRun_ends (P : Policy) (mem : Memory) (s : AddressSpace) (t : Nat)
    (refs : List ReferenceDescription) (e : Entry) (k : Nat) (l : List (NodeId × Variant)) :
    Ends (fun l' => l' = l ++ turnAssignments mem s e t k refs ∧ ¬ TurnBreaks P mem s t refs e k l)
      (fun l' => ∃ j, LeavesAt P mem s t refs e k l j l') (turnRun P mem s t refs e k l) := by
  have hLoop : Ends (fun l' => l' = l ++ turnAssignments mem s e t k refs ∧
        ∀ j < refs.length, ∀ ref, refs[j]? = some ref →
          ¬ BreaksAt P mem s (l ++ turnAssignments mem s e t k (refs.take j)) e ⟨t, 0, k, j⟩ ref)
      (fun l' => ∃ j, LeavesAt P mem s t refs e k l j l') (turnRun P mem s t refs e k l) := by
    apply forEach_ends (I := fun done l' => l' = l ++ turnAssignments mem s e t k done ∧
      ∀ j < done.length, ∀ ref, refs[j]? = some ref →
        ¬ BreaksAt P mem s (l ++ turnAssignments mem s e t k (refs.take j)) e ⟨t, 0, k, j⟩ ref)
    · rintro done ref rest l' hRefs ⟨rfl, hWhole⟩
      have hAt : refs[done.length]? = some ref := by simp [hRefs]
      have hTake : refs.take done.length = done := by simp [hRefs]
      rw [Nat.zero_add]
      split
      · rename_i hBreaks
        exact ⟨done.length, by rw [hTake], ⟨ref, hAt, hBreaks⟩, hWhole⟩
      · rename_i hNot
        refine ⟨by rw [turnAssignments_snoc, List.append_assoc], fun j hj ref' hRef => ?_⟩
        rw [List.length_append, List.length_singleton] at hj
        rcases Nat.lt_or_eq_of_le (Nat.le_of_lt_succ hj) with hLess | rfl
        · exact hWhole j hLess ref' hRef
        · rw [hAt] at hRef
          cases hRef
          rwa [hTake]
    · exact ⟨(List.append_nil l).symm, fun j hj => absurd hj (Nat.not_lt_zero j)⟩
  apply hLoop.imp _ fun _ h => h
  rintro l' ⟨hl', hWhole⟩
  refine ⟨hl', ?_⟩
  rintro ⟨j, ref, hRef, hBreaks⟩
  exact hWhole j (List.getElem?_eq_some_iff.mp hRef).1 ref hRef hBreaks

theorem passRun_ends (P : Policy) (mem : Memory) (s : AddressSpace) (t : Nat)
    (refs : List ReferenceDescription) (entries : List Entry) :
    Ends (fun x => x = ⟨passAssignments mem s t refs entries, missing mem s t refs entries⟩ ∧
        ¬ PassBreaks P mem s t refs entries)
      (fun _ => PassBreaks P mem s t refs entries)
      (passRun P mem s t refs (entries.map Entry.json) 0 ⟨[], false⟩) := by
  have hLoop : Ends (fun x => x = ⟨passAssignments mem s t refs entries,
        missing mem s t refs entries⟩ ∧ ∀ k e, entries[k]? = some e → k < entries.length →
          ¬ TurnBreaks P mem s t refs e k (passAssignments mem s t refs (entries.take k)))
      (fun _ => PassBreaks P mem s t refs entries)
      (passRun P mem s t refs (entries.map Entry.json) 0 ⟨[], false⟩) := by
    rw [passRun, forEach_map]
    apply forEach_ends (I := fun (done : List Entry) (x : Effects) => x = ⟨passAssignments mem s t
      refs done, missing mem s t refs done⟩ ∧ ∀ k e, entries[k]? = some e → k < done.length →
        ¬ TurnBreaks P mem s t refs e k (passAssignments mem s t refs (entries.take k)))
    · rintro done e rest x hEntries ⟨rfl, hWhole⟩
      have hAt : entries[done.length]? = some e := by simp [hEntries]
      have hTake : entries.take done.length = done := by simp [hEntries]
      have hTurn := turnRun_ends P mem s t refs e done.length
        (passAssignments mem s t refs done)
      rw [elementRun, readEntry_json, Nat.zero_add]
      dsimp only
      cases hRun : turnRun P mem s t refs e done.length (passAssignments mem s t refs done) with
      | error l =>
        rw [hRun] at hTurn
        obtain ⟨j, hLeaves⟩ := hTurn
        exact ⟨done.length, e, hAt, by rw [hTake]; exact hLeaves.turnBreaks⟩
      | ok l =>
        rw [hRun] at hTurn
        obtain ⟨rfl, hNot⟩ := hTurn
        refine ⟨by rw [passAssignments_snoc, missing_snoc], fun k e' hEntry hk => ?_⟩
        rw [List.length_append, List.length_singleton] at hk
        rcases Nat.lt_or_eq_of_le (Nat.le_of_lt_succ hk) with hLess | rfl
        · exact hWhole k e' hEntry hLess
        · rw [hAt] at hEntry
          cases hEntry
          rwa [hTake]
    · exact ⟨rfl, fun k e _ hk => absurd hk (Nat.not_lt_zero k)⟩
  apply hLoop.imp _ fun _ h => h
  rintro x ⟨hx, hWhole⟩
  refine ⟨hx, ?_⟩
  rintro ⟨k, e, hEntry, hBreaks⟩
  exact hWhole k e hEntry (List.getElem?_eq_some_iff.mp hEntry).1 hBreaks

end

/-! ## The space -/

section

variable {P : Policy} {mem : Memory} {s : AddressSpace} {t k : Nat}

def assigned (P : Policy) (s : AddressSpace) (l : List (NodeId × Variant)) : AddressSpace :=
  { s with value := puts (P.accepted s.nodes) l s.value }

theorem write_assigned (P : Policy) (t : Nat) (s : AddressSpace) (l : List (NodeId × Variant))
    (id : NodeId) (v : Variant) :
    ((P.server t).write id v (assigned P s l)).2 = assigned P s (l ++ [(id, v)]) := by
  have hPuts : puts (P.accepted s.nodes) (l ++ [(id, v)]) s.value =
      put (P.accepted s.nodes) (puts (P.accepted s.nodes) l s.value) (id, v) := puts_append _ _ _ _
  change (if P.accepted s.nodes id v = true then _ else _ : StatusCode × AddressSpace).2 = _
  rw [assigned, assigned, hPuts, put]
  split <;> rfl

def create (P : Policy) (s : AddressSpace) : AddressSpace :=
  if (s.nodes name123).isNone then P.add creation s else s

/-- The space after the assignments `l`, and after a creation if `b`. -/
def after (P : Policy) (s : AddressSpace) (l : List (NodeId × Variant)) (b : Bool) : AddressSpace :=
  if b then create P (assigned P s l) else assigned P s l

def Creates (s : AddressSpace) (b : Bool) : Prop := b = true ∧ s.nodes name123 = none

theorem after_of_not_creates {b : Bool} (h : ¬ Creates s b) (l : List (NodeId × Variant)) :
    after P s l b = assigned P s l := by
  rw [after]
  split
  · rename_i hb
    rw [create, if_neg]
    intro hFree
    exact h ⟨hb, Option.isNone_iff_eq_none.mp hFree⟩
  · rfl

theorem after_of_creates {b : Bool} (h : Creates s b) (l : List (NodeId × Variant)) :
    after P s l b = P.add creation (assigned P s l) := by
  rw [after, if_pos h.1, create, if_pos]
  exact Option.isNone_iff_eq_none.mpr h.2

@[simp] theorem nodes_add_self : (P.add creation s).nodes name123 = some (P.fresh creation) := by
  simp [Policy.add, creation]

@[simp] theorem value_add_self : (P.add creation s).value name123 = .empty := by
  simp [Policy.add, creation, VariableAttributes.default]

theorem nodes_add_of_ne {id : NodeId} (h : id ≠ name123) :
    (P.add creation s).nodes id = s.nodes id := Function.update_of_ne h _ _

theorem value_add_of_ne {id : NodeId} (h : id ≠ name123) :
    (P.add creation s).value id = s.value id := Function.update_of_ne h _ _

theorem createVariable_server (P : Policy) (t : Nat) (name : Bytes) (value : Json) (variant : Variant)
    (s : AddressSpace) : (createVariable (P.server t) name value variant s).2 = create P s := by
  change (if (s.nodes name123).isNone = true then _ else _ : StatusCode × AddressSpace).2 = _
  rw [create]
  split <;> rfl

theorem create_create (P : Policy) (s : AddressSpace) : create P (create P s) = create P s := by
  cases hFree : s.nodes name123 with
  | none => simp [create, hFree]
  | some node => simp [create, hFree]

theorem after_create (P : Policy) (s : AddressSpace) (l : List (NodeId × Variant)) (b : Bool) :
    create P (after P s l b) = after P s l true := by
  cases b with
  | false => rfl
  | true => exact create_create P _

theorem Creates.ne {b : Bool} (h : Creates s b) {id : NodeId} {node : Node}
    (hNode : s.nodes id = some node) : id ≠ name123 := by
  rintro rfl
  rw [h.2] at hNode
  cases hNode

theorem after_nodes {id : NodeId} {node : Node} (h : s.nodes id = some node)
    (l : List (NodeId × Variant)) (b : Bool) : (after P s l b).nodes id = some node := by
  rcases Classical.em (Creates s b) with hCreates | hNot
  · rw [after_of_creates hCreates, nodes_add_of_ne (hCreates.ne h)]
    exact h
  · rw [after_of_not_creates hNot]
    exact h

theorem after_value {id : NodeId} {node : Node} (h : s.nodes id = some node)
    (l : List (NodeId × Variant)) (b : Bool) :
    (after P s l b).value id = puts (P.accepted s.nodes) l s.value id := by
  rcases Classical.em (Creates s b) with hCreates | hNot
  · rw [after_of_creates hCreates, value_add_of_ne (hCreates.ne h)]
    rfl
  · rw [after_of_not_creates hNot]
    rfl

theorem assigned_assigned (P : Policy) (s : AddressSpace) (l l' : List (NodeId × Variant)) :
    assigned P (assigned P s l) l' = assigned P s (l ++ l') := by
  simp only [assigned, puts_append]

theorem assigned_after {l' : List (NodeId × Variant)}
    (hKnown : ∀ a ∈ l', ∃ node, s.nodes a.1 = some node) (l : List (NodeId × Variant)) (b : Bool) :
    assigned P (after P s l b) l' = after P s (l ++ l') b := by
  rcases Classical.em (Creates s b) with hCreates | hNot
  · have hNe : ∀ a ∈ l', a.1 ≠ name123 := by
      intro a ha
      obtain ⟨node, hNode⟩ := hKnown a ha
      exact hCreates.ne hNode
    have hAccepted : ∀ a ∈ l', P.accepted (P.add creation (assigned P s l)).nodes a.1 a.2 =
        P.accepted s.nodes a.1 a.2 := by
      intro a ha
      rw [Policy.accepted, Policy.accepted, nodes_add_of_ne (hNe a ha)]
      rfl
    rw [after_of_creates hCreates, after_of_creates hCreates, ← assigned_assigned, assigned,
      puts_congr_accepted _ hAccepted]
    simp only [Policy.add, creation]
    rw [puts_update _ hNe]
    rfl
  · rw [after_of_not_creates hNot, after_of_not_creates hNot, assigned_assigned]

theorem write_after {id : NodeId} {node : Node} (hNode : s.nodes id = some node) (t : Nat)
    (l : List (NodeId × Variant)) (b : Bool) (v : Variant) :
    ((P.server t).write id v (after P s l b)).2 = after P s (l ++ [(id, v)]) b := by
  have hKnown : ∀ a ∈ [(id, v)], ∃ node, s.nodes a.1 = some node := by
    intro a ha
    rw [List.mem_singleton.mp ha]
    exact ⟨node, hNode⟩
  rw [← assigned_after hKnown]
  exact write_assigned P t (after P s l b) [] id v

/-! ## One turn -/

/-- The assignments that the writes of a turn ask for. -/
def asked (writes : List Writing) : List (NodeId × Variant) := writes.map fun w => (w.ref.nodeId, w.value)

/-- The state of a turn that was entered after the assignments `before`, when it
has come to `l`. -/
structure TurnSpace (P : Policy) (s : AddressSpace) (b : Bool) (before : List (NodeId × Variant))
    (x : Progress AddressSpace) (l : List (NodeId × Variant)) : Prop where
  blank : Blank x.varOut
  space : x.server = after P s l b
  sent : l = before ++ asked x.writes

def FindIndexTells (x : Progress AddressSpace) : Prop := x.findIndex < 0 ↔ asked x.writes = []

/-- What the read of a node gives in a pass that has come to the assignments `l`. -/
theorem readStep_value {b : Bool} {l : List (NodeId × Variant)} {x : Progress AddressSpace}
    (hSpace : x.server = after P s l b) (site : Site) {ref : ReferenceDescription} {node : Node}
    (hNode : s.nodes ref.nodeId = some node) :
    (readStep (P.server t) site ref x).1.value =
      if node.readable then some (puts (P.accepted s.nodes) l s.value ref.nodeId) else none := by
  have hNow : x.server.nodes ref.nodeId = some node := by rw [hSpace, after_nodes hNode]
  have hValue : x.server.value ref.nodeId = puts (P.accepted s.nodes) l s.value ref.nodeId := by
    rw [hSpace, after_value hNode]
  rw [← hValue]
  exact AddressSpace.read_value hNow

theorem referenceStep_alike {b : Bool} {before l : List (NodeId × Variant)}
    {x : Progress AddressSpace} (h : TurnSpace P s b before x l) (hFound : FindIndexTells x) (e : Entry)
    (j : Nat) {ref : ReferenceDescription}
    (hRef : ∃ node, s.nodes ref.nodeId = some node ∧ ref.nodeClass = node.nodeClass) :
    Alike (fun x l => TurnSpace P s b before x l ∧ FindIndexTells x) (TurnSpace P s b before)
      (referenceStep (P.server t) mem e.json ⟨t, 0, k, j⟩ ref x)
      (if BreaksAt P mem s l e ⟨t, 0, k, j⟩ ref then .error l
        else .ok (l ++ assignment mem s e ⟨t, 0, k, j⟩ ref)) := by
  obtain ⟨node, hNode, hNodeClass⟩ := hRef
  have hRead := readStep_value (t := t) h.space ⟨t, 0, k, j⟩ hNode
  have hReadable := AddressSpace.readableVariable_iff hNode
  rw [← hNodeClass] at hReadable
  -- a turn that reads nothing of the node neither assigns nor breaks
  have hSkip (hNot : ¬ s.readableVariable ref.nodeId = true) {x' : Progress AddressSpace}
      (h' : TurnSpace P s b before x' l ∧ FindIndexTells x') :
      Alike (fun x l => TurnSpace P s b before x l ∧ FindIndexTells x) (TurnSpace P s b before) (.ok x')
        (if BreaksAt P mem s l e ⟨t, 0, k, j⟩ ref then .error l
          else .ok (l ++ assignment mem s e ⟨t, 0, k, j⟩ ref)) := by
    rw [if_neg fun hBreaks => hNot hBreaks.1, assignment, if_neg fun hBoth => hNot hBoth.1,
      List.append_nil]
    exact h'
  have hKnown {value : Variant}
      (hClass : ref.nodeClass = .variable)
      (hValue : (readStep (P.server t) ⟨t, 0, k, j⟩ ref x).1.value = some value) :
      s.readableVariable ref.nodeId = true ∧
        value = puts (P.accepted s.nodes) l s.value ref.nodeId := by
    rw [hRead] at hValue
    split at hValue
    · rename_i hNodeReadable
      exact ⟨hReadable.mpr ⟨hClass, hNodeReadable⟩, (Option.some.inj hValue).symm⟩
    · cases hValue
  have hTurn := referenceStep_turn (P.server t) mem e.json ⟨t, 0, k, j⟩ ref x
  generalize referenceStep (P.server t) mem e.json ⟨t, 0, k, j⟩ ref x = outcome at hTurn
  cases hTurn with
  | skipped hClass => exact hSkip (fun hBoth => hClass (hReadable.mp hBoth).1) ⟨h, hFound⟩
  | unread hClass hValue =>
    refine hSkip (fun hBoth => ?_) ⟨⟨h.blank, h.space, h.sent⟩, hFound⟩
    rw [hRead, if_pos (hReadable.mp hBoth).2] at hValue
    cases hValue
  | thrown hClass hValue hReason =>
    exact absurd (entryName_entry e) (Turn.thrown_name hReason e.name)
  | hit hClass hValue hName hHits hVariant =>
    obtain ⟨hBoth, _⟩ := hKnown hClass hValue
    rw [entryName_entry] at hName
    cases hName
    rw [createVariant_eq e.index_value] at hVariant
    rw [if_neg fun hBreaks => hBreaks.2.1 hHits, assignment, if_pos ⟨hBoth, hHits⟩,
      ← Except.ok.inj hVariant]
    refine ⟨⟨h.blank, ?_, ?_⟩, ?_⟩
    · change ((P.server t).write ref.nodeId _ x.server).2 = _
      rw [h.space, write_after hNode]
    · change l ++ _ = before ++ asked (x.writes ++ [_])
      rw [h.sent, asked, asked, List.map_append, List.append_assoc]
      rfl
    · refine iff_of_false (fun hNeg => ?_) (by simp [asked, writeStep])
      have hNeg : (k : Int) < 0 := hNeg
      omega
  | missed hClass hValue hName hHits hReport =>
    obtain ⟨_, rfl⟩ := hKnown hClass hValue
    rw [entryName_entry] at hName
    cases hName
    obtain ⟨hThere, hBlank⟩ := h.blank.report hReport
    have hWhole : ¬ BreaksAt P mem s l e ⟨t, 0, k, j⟩ ref := by
      rintro ⟨_, _, hLacks⟩
      rw [hThere] at hLacks
      cases hLacks
    rw [if_neg hWhole, assignment, if_neg fun hBoth => hHits hBoth.2, List.append_nil]
    exact ⟨⟨hBlank, h.space, h.sent⟩, hFound⟩
  | broken hClass hValue hName hHits hReport =>
    obtain ⟨hBoth, rfl⟩ := hKnown hClass hValue
    rw [entryName_entry] at hName
    cases hName
    rw [if_pos ⟨hBoth, hHits, h.blank.report_error hReport⟩]
    exact ⟨h.blank, h.space, h.sent⟩

theorem referenceLoop_alike (mem : Memory) (t k : Nat) {c : Client AddressSpace} (hBlank : Blank c.varOut)
    {l : List (NodeId × Variant)} {b : Bool} (hSpace : c.server = after P s l b) (e : Entry)
    {refs : List ReferenceDescription} (hRefs : ∀ ref ∈ refs, ∃ node,
      s.nodes ref.nodeId = some node ∧ ref.nodeClass = node.nodeClass) :
    Alike (fun x l' => TurnSpace P s b l x l' ∧ FindIndexTells x) (TurnSpace P s b l)
      (referenceLoop (P.server t) mem e.json t 0 k refs (startTurn c))
      (turnRun P mem s t refs e k l) := by
  apply forEach_alike
  · rintro j ref x l' hRef ⟨h, hFound⟩
    exact referenceStep_alike h hFound e _ (hRefs ref (List.mem_of_getElem? hRef))
  · exact ⟨⟨hBlank, hSpace, (List.append_nil l).symm⟩, iff_of_true (Int.negSucc_lt_zero 0) rfl⟩

theorem referenceLoop_unnamed (P : Policy) (mem : Memory) (t k : Nat) {entry : Json}
    (hEntry : readEntry entry = none) (refs : List ReferenceDescription) {c : Client AddressSpace}
    (hBlank : Blank c.varOut) :
    Ends (fun x => Blank x.varOut ∧ x.server = c.server ∧ x.writes = [] ∧ x.findIndex = -1)
      (fun x => Blank x.varOut ∧ x.server = c.server ∧ x.writes = [])
      (referenceLoop (P.server t) mem entry t 0 k refs (startTurn c)) := by
  apply forEach_preserves (I := fun x : Progress AddressSpace =>
    Blank x.varOut ∧ x.server = c.server ∧ x.writes = [] ∧ x.findIndex = -1)
  · rintro j ref x _ ⟨hBlank, hServer, hWrites, hFound⟩
    have hTurn := referenceStep_turn (P.server t) mem entry ⟨t, 0, k, j⟩ ref x
    generalize referenceStep (P.server t) mem entry ⟨t, 0, k, j⟩ ref x = outcome at hTurn
    cases hTurn with
    | skipped hClass => exact ⟨hBlank, hServer, hWrites, hFound⟩
    | unread hClass hValue => exact ⟨hBlank, hServer, hWrites, hFound⟩
    | thrown hClass hValue hReason => exact ⟨hBlank, hServer, hWrites⟩
    | hit _ _ hName => exact absurd hName (entryName_of_readEntry hEntry _)
    | missed _ _ hName => exact absurd hName (entryName_of_readEntry hEntry _)
    | broken _ _ hName => exact absurd hName (entryName_of_readEntry hEntry _)
  · exact ⟨hBlank, rfl, rfl, rfl⟩

/-! ## All turns -/

structure PassSpace (P : Policy) (s : AddressSpace) (c : Client AddressSpace) (x : Effects) : Prop where
  blank : Blank c.varOut
  space : c.server = after P s x.assignments x.missing

theorem entryStep_alike {refs : List ReferenceDescription} (hRefs : ∀ ref ∈ refs, ∃ node,
      s.nodes ref.nodeId = some node ∧ ref.nodeClass = node.nodeClass)
    {c : Client AddressSpace} {x : Effects} (h : PassSpace P s c x) (response : BrowseResponse)
    (json : Json) :
    Alike (PassSpace P s) (PassSpace P s)
      (entryStep (P.server t) mem t response 0 refs k json c) (elementRun P mem s t refs k json x) := by
  rw [elementRun, entryStep]
  cases hEntry : readEntry json with
  | none =>
    have hLoop := referenceLoop_unnamed P mem t k hEntry refs h.blank
    cases hRun : referenceLoop (P.server t) mem json t 0 k refs (startTurn c) with
    | error y =>
      rw [hRun] at hLoop
      exact ⟨hLoop.1, hLoop.2.1.trans h.space⟩
    | ok y =>
      rw [hRun] at hLoop
      obtain ⟨hBlank, hServer, _, hFound⟩ := hLoop
      dsimp only
      rw [hFound, if_pos (by decide)]
      cases hName : entryName json with
      | error e => exact ⟨hBlank, hServer.trans h.space⟩
      | ok wanted => exact absurd hName (entryName_of_readEntry hEntry wanted)
  | some e =>
    rw [← readEntry_eq_some hEntry]
    dsimp only
    have hLoop := referenceLoop_alike mem t k h.blank h.space e hRefs
    have hTurn := turnRun_ends P mem s t refs e k x.assignments
    cases hRun : referenceLoop (P.server t) mem e.json t 0 k refs (startTurn c) with
    | error y =>
      cases hAbstract : turnRun P mem s t refs e k x.assignments with
      | error l =>
        rw [hRun, hAbstract] at hLoop
        exact ⟨hLoop.blank, hLoop.space⟩
      | ok l =>
        rw [hRun, hAbstract] at hLoop
        exact False.elim hLoop
    | ok y =>
      cases hAbstract : turnRun P mem s t refs e k x.assignments with
      | error l =>
        rw [hRun, hAbstract] at hLoop
        exact False.elim hLoop
      | ok l =>
        rw [hRun, hAbstract] at hLoop
        rw [hAbstract] at hTurn
        obtain ⟨rfl, _⟩ := hTurn
        obtain ⟨hLoop, hFound⟩ := hLoop
        rw [FindIndexTells, ← List.append_cancel_left hLoop.sent] at hFound
        dsimp only
        split
        · rename_i hNeg
          rw [entryName_entry, hFound.mp hNeg]
          refine ⟨hLoop.blank, ?_⟩
          change (createVariable (P.server t) _ _ _ y.server).2 = _
          rw [createVariable_server, hLoop.space, after_create, hFound.mp hNeg]
          simp
        · rename_i hPos
          have hSome : turnAssignments mem s e t k refs ≠ [] := fun hNone => hPos (hFound.mpr hNone)
          rw [List.isEmpty_eq_false_iff.mpr hSome, Bool.or_false]
          exact ⟨hLoop.blank, hLoop.space⟩

def listed (P : Policy) (t : Nat) (s : AddressSpace) : List ReferenceDescription :=
  P.arrange t s.references

theorem node_of_listed {ref : ReferenceDescription} (h : ref ∈ listed P t s) : ∃ node,
    s.nodes ref.nodeId = some node ∧ ref.nodeClass = node.nodeClass ∧
      ref.displayName = node.displayName :=
  AddressSpace.node_of_mem ((P.arrange_perm t s.references).mem_iff.mp h)

theorem iteration_eq (P : Policy) (mem : Memory) (vars : List Json) (t : Nat) (c : Client AddressSpace) :
    iteration (P.server t) mem vars t c = (do
      let c ← entryLoop (P.server t) mem vars t (getResponse (P.server t) c.server).1 0
        (listed P t c.server) { c with retval := StatusCode.good }
      return { c with printed := c.printed ++ [c.varOut] }) := by
  change ((entryLoop (P.server t) mem vars t (getResponse (P.server t) c.server).1 0
    (listed P t c.server) { c with retval := StatusCode.good } >>= forEach _ [] 1) >>= _) = _
  cases entryLoop (P.server t) mem vars t (getResponse (P.server t) c.server).1 0
    (listed P t c.server) { c with retval := StatusCode.good } <;> rfl

theorem entryLoop_alike (P : Policy) (mem : Memory) (vars : List Json) (t : Nat)
    {c : Client AddressSpace} (hBlank : Blank c.varOut) (response : BrowseResponse) :
    Alike (PassSpace P c.server) (PassSpace P c.server)
      (entryLoop (P.server t) mem vars t response 0 (listed P t c.server)
        { c with retval := StatusCode.good })
      (passRun P mem c.server t (listed P t c.server) vars 0 ⟨[], false⟩) := by
  apply forEach_alike
  · intro k json c' x _ h
    apply entryStep_alike _ h
    intro ref hRef
    obtain ⟨node, hNode, hClass, _⟩ := node_of_listed hRef
    exact ⟨node, hNode, hClass⟩
  · exact ⟨hBlank, rfl⟩

/-- A pass leaves the space that the abstract pass says, and ends where it ends. -/
theorem iteration_alike (P : Policy) (mem : Memory) (vars : List Json) (t : Nat)
    {c : Client AddressSpace} (hBlank : Blank c.varOut) :
    Alike (PassSpace P c.server) (PassSpace P c.server) (iteration (P.server t) mem vars t c)
      (passRun P mem c.server t (listed P t c.server) vars 0 ⟨[], false⟩) := by
  have hLoop := entryLoop_alike P mem vars t hBlank (getResponse (P.server t) c.server).1
  rw [iteration_eq, ← bind_pure (passRun P mem c.server t (listed P t c.server) vars 0 ⟨[], false⟩)]
  exact hLoop.bind fun c' x h => ⟨h.blank, h.space⟩

def passed (P : Policy) (mem : Memory) (entries : List Entry) (t : Nat) (s : AddressSpace) :
    AddressSpace :=
  after P s (passAssignments mem s t (listed P t s) entries) (missing mem s t (listed P t s) entries)

/-- The pass is left before its end. -/
def Broken (P : Policy) (mem : Memory) (entries : List Entry) (t : Nat) (s : AddressSpace) : Prop :=
  PassBreaks P mem s t (listed P t s) entries

theorem iteration_ends_space (P : Policy) (mem : Memory) (entries : List Entry) (t : Nat)
    {c : Client AddressSpace} (hBlank : Blank c.varOut) :
    Ends (fun c' => Blank c'.varOut ∧ c'.server = passed P mem entries t c.server ∧
        ¬ Broken P mem entries t c.server)
      (fun _ => Broken P mem entries t c.server)
      (iteration (P.server t) mem (entries.map Entry.json) t c) := by
  have hAlike := iteration_alike P mem (entries.map Entry.json) t hBlank
  have hRun := passRun_ends P mem c.server t (listed P t c.server) entries
  generalize iteration (P.server t) mem (entries.map Entry.json) t c = outcome at hAlike
  generalize passRun P mem c.server t (listed P t c.server) (entries.map Entry.json) 0 ⟨[], false⟩ =
    effects at hAlike hRun
  cases outcome with
  | ok c' =>
    cases effects with
    | ok x =>
      obtain ⟨rfl, hWhole⟩ := hRun
      exact ⟨hAlike.blank, hAlike.space, hWhole⟩
    | error x => exact False.elim hAlike
  | error c' =>
    cases effects with
    | ok x => exact False.elim hAlike
    | error x => exact hRun

def passes (P : Policy) (mem : Memory) (entries : List Entry) (s : AddressSpace) : Nat → AddressSpace
  | 0 => s
  | n + 1 => passed P mem entries n (passes P mem entries s n)

theorem mainLoop_ends_space (P : Policy) (mem : Memory) (entries : List Entry) (s : AddressSpace)
    (n : Nat) : Ends (fun c => Blank c.varOut ∧ c.server = passes P mem entries s n ∧
        ∀ t < n, ¬ Broken P mem entries t (passes P mem entries s t))
      (fun _ => ∃ t < n, Broken P mem entries t (passes P mem entries s t))
      (mainLoop P.server mem (entries.map Entry.json) n (start s)) := by
  rw [mainLoop]
  induction n with
  | zero => exact ⟨Or.inl rfl, rfl, fun t ht => absurd ht (Nat.not_lt_zero t)⟩
  | succ n ih =>
    rw [repeated_succ]
    apply Ends.bind (ih.imp (fun _ h => h) ?_)
    · rintro c ⟨hBlank, hServer, hWhole⟩
      apply (iteration_ends_space P mem entries n hBlank).imp
      · rintro c' ⟨hBlank', hServer', hNot⟩
        rw [hServer] at hServer' hNot
        refine ⟨hBlank', hServer', fun t ht => ?_⟩
        rcases Nat.lt_or_eq_of_le (Nat.le_of_lt_succ ht) with hLess | rfl
        · exact hWhole t hLess
        · exact hNot
      · intro c' hBroken
        rw [hServer] at hBroken
        exact ⟨n, Nat.lt_succ_self n, hBroken⟩
    · rintro c ⟨t, ht, hBroken⟩
      exact ⟨t, Nat.lt_succ_of_lt ht, hBroken⟩

/-- `n` passes from the space `s` end well, in the space `s'`. -/
def Reaches (P : Policy) (mem : Memory) (entries : List Entry) (n : Nat) (s s' : AddressSpace) : Prop :=
  ∃ c, mainLoop P.server mem (entries.map Entry.json) n (start s) = .ok c ∧ c.server = s'

theorem reaches_iff {entries : List Entry} {n : Nat} {s' : AddressSpace} :
    Reaches P mem entries n s s' ↔ s' = passes P mem entries s n ∧
      ∀ t < n, ¬ Broken P mem entries t (passes P mem entries s t) := by
  have hEnds := mainLoop_ends_space P mem entries s n
  rw [Reaches]
  cases hRun : mainLoop P.server mem (entries.map Entry.json) n (start s) with
  | ok c =>
    rw [hRun] at hEnds
    obtain ⟨_, hServer, hWhole⟩ := hEnds
    constructor
    · rintro ⟨c', hRun', rfl⟩
      cases hRun'
      exact ⟨hServer, hWhole⟩
    · rintro ⟨rfl, _⟩
      exact ⟨c, rfl, hServer⟩
  | error c =>
    rw [hRun] at hEnds
    obtain ⟨t, ht, hBroken⟩ := hEnds
    constructor
    · rintro ⟨c', hRun', _⟩
      cases hRun'
    · rintro ⟨_, hWhole⟩
      exact absurd hBroken (hWhole t ht)

theorem reaches_one_iff {entries : List Entry} {s' : AddressSpace} :
    Reaches P mem entries 1 s s' ↔ s' = passed P mem entries 0 s ∧ ¬ Broken P mem entries 0 s := by
  rw [reaches_iff]
  simp [passes]

end

end OpcConfig.SyncClient
