import Mathlib.Data.List.Basic

/-! # Walks in a graph of listed edges, and their depth-first pre-order

The edges out of a vertex are a list, and only some of them can be followed.
A walk is known by the positions of its edges in their lists, so that parallel
edges, loops and cycles give different walks. Pre-order is the lexicographic
order of the positions.
-/

namespace Walks

set_option autoImplicit false

/-- A nonempty walk: the steps before the last one, and the last one. -/
structure Walk (E : Type) where
  before : List (Nat × E)
  last : Nat × E

namespace Walk

variable {E : Type}

def steps (w : Walk E) : List (Nat × E) := w.before ++ [w.last]

def length (w : Walk E) : Nat := w.before.length + 1

def positions (w : Walk E) : List Nat := w.steps.map Prod.fst

def cons (step : Nat × E) (w : Walk E) : Walk E := ⟨step :: w.before, w.last⟩

@[simp] theorem length_single (step : Nat × E) : (⟨[], step⟩ : Walk E).length = 1 := rfl

@[simp] theorem length_cons (step : Nat × E) (w : Walk E) : (cons step w).length = w.length + 1 := rfl

theorem positions_cons (step : Nat × E) (w : Walk E) :
    (cons step w).positions = step.1 :: w.positions := rfl

theorem single_or_cons (w : Walk E) : (∃ step, w = ⟨[], step⟩) ∨ ∃ step w', w = cons step w' := by
  obtain ⟨before, last⟩ := w
  cases before with
  | nil => exact Or.inl ⟨last, rfl⟩
  | cons step before => exact Or.inr ⟨step, ⟨before, last⟩, rfl⟩

end Walk

variable {V E : Type} (edges : V → List E) (follow : E → Option V)

def IsWalk : V → List (Nat × E) → Prop
  | _, [] => True
  | v, (i, e) :: steps => (edges v)[i]? = some e ∧ ∃ w, follow e = some w ∧ IsWalk w steps

def block (walks : V → List (Walk E)) (step : E × Nat) : List (Walk E) :=
  match follow step.1 with
  | none => []
  | some w => ⟨[], (step.2, step.1)⟩ :: (walks w).map (Walk.cons (step.2, step.1))

def preorder : Nat → V → List (Walk E)
  | 0, _ => []
  | depth + 1, v => (edges v).zipIdx.flatMap (block follow (preorder depth))

theorem block_none {walks : V → List (Walk E)} {e : E} {i : Nat} (h : follow e = none) :
    block follow walks (e, i) = [] := by
  rw [block, h]

theorem block_some {walks : V → List (Walk E)} {e : E} {i : Nat} {w : V} (h : follow e = some w) :
    block follow walks (e, i) = ⟨[], (i, e)⟩ :: (walks w).map (Walk.cons (i, e)) := by
  rw [block, h]

theorem mem_block {walks : V → List (Walk E)} {e : E} {i : Nat} {walk : Walk E} :
    walk ∈ block follow walks (e, i) ↔ ∃ w, follow e = some w ∧
      (walk = ⟨[], (i, e)⟩ ∨ ∃ rest ∈ walks w, walk = Walk.cons (i, e) rest) := by
  cases hFollow : follow e with
  | none => simp [block_none follow hFollow]
  | some w => simp [block_some follow hFollow, eq_comm]

theorem mem_preorder_succ {depth : Nat} {v : V} {walk : Walk E} :
    walk ∈ preorder edges follow (depth + 1) v ↔ ∃ i e w, (edges v)[i]? = some e ∧
      follow e = some w ∧ (walk = ⟨[], (i, e)⟩ ∨
        ∃ rest ∈ preorder edges follow depth w, walk = Walk.cons (i, e) rest) := by
  rw [preorder, List.mem_flatMap]
  constructor
  · rintro ⟨⟨e, i⟩, hEdge, hWalk⟩
    obtain ⟨w, hFollow, hWalk⟩ := (mem_block follow).mp hWalk
    exact ⟨i, e, w, List.mem_zipIdx_iff_getElem?.mp hEdge, hFollow, hWalk⟩
  · rintro ⟨i, e, w, hEdge, hFollow, hWalk⟩
    exact ⟨(e, i), List.mem_zipIdx_iff_getElem?.mpr hEdge, (mem_block follow).mpr ⟨w, hFollow, hWalk⟩⟩

/-- All walks of bounded length are listed, whatever cycles there are. -/
theorem mem_preorder {depth : Nat} {v : V} {walk : Walk E} :
    walk ∈ preorder edges follow depth v ↔
      IsWalk edges follow v walk.steps ∧ walk.length ≤ depth := by
  induction depth generalizing v walk with
  | zero => simp [preorder, Walk.length]
  | succ depth ih =>
    rw [mem_preorder_succ]
    rcases walk.single_or_cons with ⟨⟨i, e⟩, rfl⟩ | ⟨⟨i, e⟩, rest, rfl⟩
    · constructor
      · rintro ⟨j, f, w, hEdge, hFollow, hWalk | ⟨rest, _, hWalk⟩⟩
        · cases hWalk
          exact ⟨⟨hEdge, w, hFollow, trivial⟩, by simp⟩
        · cases hWalk
      · rintro ⟨⟨hEdge, w, hFollow, _⟩, _⟩
        exact ⟨i, e, w, hEdge, hFollow, Or.inl rfl⟩
    · constructor
      · rintro ⟨j, f, w, hEdge, hFollow, hWalk | ⟨rest', hRest, hWalk⟩⟩
        · cases hWalk
        · cases rest
          cases rest'
          cases hWalk
          obtain ⟨hSteps, hLength⟩ := ih.mp hRest
          exact ⟨⟨hEdge, w, hFollow, hSteps⟩, Nat.succ_le_succ hLength⟩
      · rintro ⟨⟨hEdge, w, hFollow, hSteps⟩, hLength⟩
        exact ⟨i, e, w, hEdge, hFollow,
          Or.inr ⟨rest, ih.mpr ⟨hSteps, Nat.le_of_succ_le_succ hLength⟩, rfl⟩⟩

theorem positions_of_mem_block {walks : V → List (Walk E)} {e : E} {i : Nat} {walk : Walk E}
    (h : walk ∈ block follow walks (e, i)) : ∃ l, walk.positions = i :: l := by
  obtain ⟨_, _, rfl | ⟨rest, _, rfl⟩⟩ := (mem_block follow).mp h
  · exact ⟨[], rfl⟩
  · exact ⟨rest.positions, rfl⟩

theorem preorder_one (v : V) : preorder edges follow 1 v =
    ((edges v).zipIdx.filter fun step => (follow step.1).isSome).map
      fun step => ⟨[], (step.2, step.1)⟩ := by
  rw [preorder]
  induction (edges v).zipIdx with
  | nil => rfl
  | cons step steps ih =>
    obtain ⟨e, i⟩ := step
    rw [List.flatMap_cons, ih]
    cases hFollow : follow e with
    | none => simp [block_none follow hFollow, hFollow]
    | some w => simp [block_some follow hFollow, hFollow, preorder]

theorem zipIdx_sorted (l : List E) : l.zipIdx.Pairwise fun a b => a.2 < b.2 := by
  have hIndices : (l.zipIdx.map Prod.snd).Pairwise (· < ·) := by
    rw [List.zipIdx_map_snd]
    exact List.pairwise_lt_range'
  exact List.pairwise_map.mp hIndices

theorem preorder_sorted (depth : Nat) (v : V) :
    (preorder edges follow depth v).Pairwise fun a b => a.positions < b.positions := by
  induction depth generalizing v with
  | zero => exact List.Pairwise.nil
  | succ depth ih =>
    rw [preorder, List.pairwise_flatMap]
    constructor
    · rintro ⟨e, i⟩ _
      cases hFollow : follow e with
      | none =>
        rw [block_none follow hFollow]
        exact List.Pairwise.nil
      | some w =>
        rw [block_some follow hFollow, List.pairwise_cons, List.pairwise_map]
        constructor
        · intro walk hWalk
          obtain ⟨rest, _, rfl⟩ := List.mem_map.mp hWalk
          have hRest : rest.positions ≠ [] := by simp [Walk.positions, Walk.steps]
          obtain ⟨j, l, hRest⟩ := List.exists_cons_of_ne_nil hRest
          rw [Walk.positions_cons, hRest]
          exact List.Lex.cons List.Lex.nil
        · exact (ih w).imp fun h => List.Lex.cons h
    · apply (zipIdx_sorted (edges v)).imp
      rintro ⟨e, i⟩ ⟨f, j⟩ hLess a ha b hb
      obtain ⟨l, ha⟩ := positions_of_mem_block follow ha
      obtain ⟨l', hb⟩ := positions_of_mem_block follow hb
      rw [ha, hb]
      exact List.Lex.rel hLess

/-- The order of the positions leaves one list of the walks only. -/
theorem eq_preorder {depth : Nat} {v : V} {walks : List (Walk E)}
    (hSorted : walks.Pairwise fun a b => a.positions < b.positions)
    (hMem : ∀ walk, walk ∈ walks ↔ IsWalk edges follow v walk.steps ∧ walk.length ≤ depth) :
    walks = preorder edges follow depth v := by
  have hNodup {l : List (Walk E)} (h : l.Pairwise fun a b => a.positions < b.positions) :
      l.Nodup := by
    apply List.Pairwise.imp _ h
    rintro a b hLess rfl
    exact List.lt_irrefl _ hLess
  have hPreorder := preorder_sorted edges follow depth v
  have hPerm : walks.Perm (preorder edges follow depth v) := by
    rw [List.perm_ext_iff_of_nodup (hNodup hSorted) (hNodup hPreorder)]
    intro walk
    rw [hMem, mem_preorder]
  exact hPerm.eq_of_pairwise (fun a b _ _ hab hba => absurd hba (List.lt_asymm hab)) hSorted hPreorder

end Walks
