import OpcConfig.SyncTargets

/-! # The passes after the first

The first pass may create a variable; the nodes stay the same from then on. If
display names are read in one fixed way, a variable has after each pass what the
last write of the pass that its type takes has sent, and no later pass is left if
the first one is not.
-/

namespace OpcConfig.SyncClient

set_option autoImplicit false

open CString LastWrite

/-- The nodes that the pass `t` finds, with the values from the beginning. -/
def foundBy (P : Policy) (mem : Memory) (entries : List Entry) (s : AddressSpace) (t : Nat) :
    AddressSpace :=
  after P s [] (decide (0 < t) && missing mem s 0 (listed P 0 s) entries)

/-- What the last write of the pass `t` to the node sends that its type takes. -/
def lastWrite (P : Policy) (mem : Memory) (entries : List Entry) (s : AddressSpace) (t : Nat)
    (id : NodeId) : Option Variant :=
  let found := foundBy P mem entries s t
  last (P.accepted found.nodes) id (passAssignments mem found t (listed P t found) entries)

def withValues (s : AddressSpace) (f : NodeId → Variant) : AddressSpace := { s with value := f }

section

variable {P : Policy} {mem : Memory} {conv : Bytes → Bytes} {s : AddressSpace}
  {entries : List Entry}

theorem foundBy_zero : foundBy P mem entries s 0 = s := rfl

theorem foundBy_succ (t : Nat) : foundBy P mem entries s (t + 1) =
    after P s [] (missing mem s 0 (listed P 0 s) entries) := by
  rw [foundBy, decide_eq_true (Nat.succ_pos t), Bool.true_and]

theorem after_withValues (l : List (NodeId × Variant)) (b : Bool) :
    after P s l b = withValues (after P s [] b) (after P s l b).value := by
  rcases Classical.em (Creates s b) with hYes | hNo
  · rw [after_of_creates hYes, after_of_creates hYes]
    rfl
  · rw [after_of_not_creates hNo, after_of_not_creates hNo]
    rfl

theorem creates_withValues (f : NodeId → Variant) (b : Bool) :
    Creates (withValues s f) b ↔ Creates s b := Iff.rfl

theorem passed_withValues (f : NodeId → Variant) (t : Nat) : passed P mem entries t (withValues s f) =
    after P (withValues s f) (passAssignments mem s t (listed P t s) entries)
      (missing mem s t (listed P t s) entries) := rfl

theorem node_of_foundBy {id : NodeId} {node : Node} (h : s.nodes id = some node) (t : Nat) :
    (foundBy P mem entries s t).nodes id = some node := after_nodes h _ _

/-- The nodes that are found later are those from the beginning and the one that
the first pass creates. -/
theorem foundBy_cases (P : Policy) (mem : Memory) (entries : List Entry) (s : AddressSpace) (t : Nat) :
    foundBy P mem entries s t = s ∨
    s.nodes name123 = none ∧ foundBy P mem entries s t = P.add creation s := by
  rw [foundBy]
  generalize (decide (0 < t) && missing mem s 0 (listed P 0 s) entries) = b
  rcases Classical.em (Creates s b) with hYes | hNo
  · exact Or.inr ⟨hYes.2, after_of_creates hYes []⟩
  · exact Or.inl (after_of_not_creates hNo [])

theorem shows_add_of_ne {id : NodeId} (h : id ≠ name123) (name : Bytes) :
    (P.add creation s).Shows conv id name ↔ s.Shows conv id name := by
  have hObjects : id ∈ (P.add creation s).objects ↔ id ∈ s.objects := by
    simp [Policy.add, creation, h]
  rw [AddressSpace.Shows, AddressSpace.Shows, nodes_add_of_ne h, hObjects]

theorem shows_foundBy {id : NodeId} {name : Bytes} (h : s.Shows conv id name) (t : Nat) :
    (foundBy P mem entries s t).Shows conv id name := by
  rcases foundBy_cases P mem entries s t with hSame | ⟨hFree, hNew⟩
  · rwa [hSame]
  · obtain ⟨node, hNode, _⟩ := h.node
    have hNe : id ≠ name123 := by
      rintro rfl
      rw [hFree] at hNode
      cases hNode
    rw [hNew]
    exact (shows_add_of_ne hNe name).mpr h

/-- From the second pass on nothing is created. -/
theorem foundBy_settled (P : Policy) (entries : List Entry) (s : AddressSpace)
    (hMem : ReadsAs mem conv) (t : Nat) :
    ¬ Creates (foundBy P mem entries s (t + 1)) (missing mem (foundBy P mem entries s (t + 1)) (t + 1)
      (listed P (t + 1) (foundBy P mem entries s (t + 1))) entries) := by
  rw [foundBy_succ]
  rcases Classical.em (Creates s (missing mem s 0 (listed P 0 s) entries)) with hYes | hNo
  · rw [after_of_creates hYes]
    rintro ⟨_, hFree⟩
    rw [nodes_add_self] at hFree
    cases hFree
  · rw [after_of_not_creates hNo]
    have hMissing : missing mem s (t + 1) (listed P (t + 1) s) entries =
        missing mem s 0 (listed P 0 s) entries := by
      rw [Bool.eq_iff_iff, missing_listed hMem, missing_listed hMem]
    change ¬ Creates s (missing mem s (t + 1) (listed P (t + 1) s) entries)
    rwa [hMissing]

theorem lastWrite_eq_none_iff (hMem : ReadsAs mem conv) (hValues : ∀ e ∈ entries, e.value.Supported)
    (t : Nat) (id : NodeId) : lastWrite P mem entries s t id = none ↔
      ∀ name node, (foundBy P mem entries s t).Shows conv id name →
        (foundBy P mem entries s t).nodes id = some node → ¬ Takes P node.dataType entries name := by
  constructor
  · intro hNone name node hShows hNode
    exact (last_pass_eq_none_iff hMem hValues hShows hNode).mp hNone
  · intro hNot
    rcases Classical.em (∃ name, (foundBy P mem entries s t).Shows conv id name) with
      ⟨name, hShows⟩ | hHidden
    · obtain ⟨node, hNode, _⟩ := hShows.node
      exact (last_pass_eq_none_iff hMem hValues hShows hNode).mpr (hNot name node hShows hNode)
    · rw [lastWrite, last_eq_none_iff]
      intro v hv
      obtain ⟨e, _, hShows⟩ := (pass_key_iff hMem entries id).mp ⟨v, hv⟩
      exact absurd ⟨_, hShows⟩ hHidden

theorem lastWrite_none_of_succ (hMem : ReadsAs mem conv)
    (hValues : ∀ e ∈ entries, e.value.Supported) {t : Nat} {id : NodeId}
    (h : lastWrite P mem entries s (t + 1) id = none) : lastWrite P mem entries s t id = none := by
  rw [lastWrite_eq_none_iff hMem hValues] at h ⊢
  cases t with
  | zero =>
    intro name node hShows hNode
    exact h name node (shows_foundBy hShows 1) (node_of_foundBy hNode 1)
  | succ t =>
    rw [foundBy_succ] at h ⊢
    exact h

theorem lastWrite_unknown {id : NodeId} (h : s.nodes id = none) :
    lastWrite P mem entries s 0 id = none := by
  rw [lastWrite, last_eq_none_iff]
  intro v _
  rw [Policy.accepted, foundBy_zero, h]

/-- After the first pass each of the nodes found has what the pass has written to
it, or what it had at the beginning. -/
theorem passed_first : passed P mem entries 0 s = withValues (foundBy P mem entries s 1) fun id =>
    (lastWrite P mem entries s 0 id).getD ((foundBy P mem entries s 1).value id) := by
  rw [foundBy_succ, passed, after_withValues]
  congr 1
  funext id
  change _ = (last (P.accepted s.nodes) id (passAssignments mem s 0 (listed P 0 s) entries)).getD _
  rcases Classical.em (Creates s (missing mem s 0 (listed P 0 s) entries)) with hYes | hNo
  · rw [after_of_creates hYes, after_of_creates hYes]
    rcases Classical.em (id = name123) with rfl | hNe
    · change _ = (lastWrite P mem entries s 0 name123).getD _
      rw [lastWrite_unknown hYes.2, value_add_self, value_add_self]
      rfl
    · rw [value_add_of_ne hNe, value_add_of_ne hNe]
      exact puts_apply _ _ _ _
  · rw [after_of_not_creates hNo, after_of_not_creates hNo]
    exact puts_apply _ _ _ _

/-- The run lemma: the nodes are the ones found, and each has what the last pass
has written to it, or what it had at the beginning. -/
theorem passes_succ (hMem : ReadsAs mem conv) (hValues : ∀ e ∈ entries, e.value.Supported) (n : Nat) :
    passes P mem entries s (n + 1) = withValues (foundBy P mem entries s (n + 1)) fun id =>
      (lastWrite P mem entries s n id).getD ((foundBy P mem entries s (n + 1)).value id) := by
  induction n with
  | zero => exact passed_first
  | succ n ih =>
    have hSettled := foundBy_settled P entries s hMem n
    have hSame : foundBy P mem entries s (n + 2) = foundBy P mem entries s (n + 1) := by
      rw [foundBy_succ, foundBy_succ]
    rw [passes, ih, passed_withValues,
      after_of_not_creates ((creates_withValues _ _).not.mpr hSettled), hSame, assigned]
    congr 1
    funext id
    rw [puts_apply]
    change (lastWrite P mem entries s (n + 1) id).getD _ = _
    cases hLast : lastWrite P mem entries s (n + 1) id with
    | some v => rfl
    | none =>
      dsimp only [withValues]
      rw [lastWrite_none_of_succ hMem hValues hLast]
      rfl

theorem lastWrite_scalar (hValues : ∀ e ∈ entries, e.value.Supported) {t : Nat} {id : NodeId}
    {v : Variant} (h : lastWrite P mem entries s t id = some v) : ∃ w, v = .scalar w :=
  pass_scalars hValues _ (last_some _ h).1

/-- A variable that is exposed after some passes was so at the beginning. -/
theorem exposed_of_passes (hMem : ReadsAs mem conv) (hValues : ∀ e ∈ entries, e.value.Supported)
    {n : Nat} (h : Exposed P conv (passes P mem entries s n) entries) : Exposed P conv s entries := by
  cases n with
  | zero => exact h
  | succ n =>
    rw [passes_succ hMem hValues] at h
    obtain ⟨id, hId, node, hNode, hClass, hReadable, hLacks, hEntry⟩ := h
    have hLacks : ((lastWrite P mem entries s n id).getD
        ((foundBy P mem entries s (n + 1)).value id)).lacks UaType.reported = true := hLacks
    cases hLast : lastWrite P mem entries s n id with
    | some v =>
      obtain ⟨w, rfl⟩ := lastWrite_scalar hValues hLast
      rw [hLast] at hLacks
      simp at hLacks
    | none =>
      rw [hLast, Option.getD_none] at hLacks
      have hId : id ∈ (foundBy P mem entries s (n + 1)).objects := hId
      have hNode : (foundBy P mem entries s (n + 1)).nodes id = some node := hNode
      rcases foundBy_cases P mem entries s (n + 1) with
        hSame | ⟨hFree, hNew⟩
      · rw [hSame] at hLacks hId hNode
        exact ⟨id, hId, node, hNode, hClass, hReadable, hLacks, hEntry⟩
      · rw [hNew] at hLacks hId hNode
        rcases Classical.em (id = name123) with rfl | hNe
        · rw [value_add_self] at hLacks
          cases hLacks
        · rw [value_add_of_ne hNe] at hLacks
          rw [nodes_add_of_ne hNe] at hNode
          have hOld : id ∈ s.objects := (List.mem_append.mp hId).resolve_right fun hLast =>
            hNe (List.mem_singleton.mp hLast)
          exact ⟨id, hOld, node, hNode, hClass, hReadable, hLacks, hEntry⟩

theorem reaches_succ_iff (hMem : ReadsAs mem conv) (hValues : ∀ e ∈ entries, e.value.Supported)
    {n : Nat} {s' : AddressSpace} : Reaches P mem entries (n + 1) s s' ↔
      s' = passes P mem entries s (n + 1) ∧ ¬ Exposed P conv s entries := by
  rw [reaches_iff]
  apply and_congr_right
  intro _
  constructor
  · intro hWhole
    exact (broken_iff_exposed hMem hValues).not.mp (hWhole 0 (Nat.succ_pos n))
  · intro hNot t _
    rw [broken_iff_exposed hMem hValues]
    exact fun hExposed => hNot (exposed_of_passes hMem hValues hExposed)

end

end OpcConfig.SyncClient
