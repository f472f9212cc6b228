import Mathlib.Logic.Function.Basic
import Mathlib.Data.List.Induction

/-! # A number that several parties count up

A party fetches the number and later stores one more than it fetched; in between
other parties may have stored theirs. A store that others came before takes
their increments back.
-/

namespace Increments

set_option autoImplicit false

variable {ι : Type}

inductive Move (ι : Type)
  | fetch (i : ι)
  | store (i : ι)
  | put (v : Option Int)
  deriving DecidableEq

/-- The number, and what each party fetched last. There need not be a number. -/
structure Cell (ι : Type) where
  value : Option Int
  held : ι → Option Int

/-- As if every party had just fetched. -/
def initial (v : Option Int) : Cell ι := { value := v, held := fun _ => v }

def stores (moves : List (Move ι)) : Nat :=
  moves.countP fun move => match move with
    | .store _ => true
    | _ => false

def Origin (v₀ : Option Int) (moves : List (Move ι)) (v : Int) : Prop :=
  v₀ = some v ∨ .put (some v) ∈ moves

section

variable [DecidableEq ι]

def step (c : Cell ι) : Move ι → Cell ι
  | .fetch i => { c with held := Function.update c.held i c.value }
  | .store i => { c with value := (c.held i).map (· + 1) }
  | .put v => { c with value := v }

def run (v : Option Int) (moves : List (Move ι)) : Cell ι := moves.foldl step (initial v)

/-- How many stores there have been since party `i` fetched. -/
def missed (i : ι) (moves : List (Move ι)) : Nat :=
  moves.foldl (fun n move => match move with
    | .fetch j => if j = i then 0 else n
    | .store _ => n + 1
    | .put _ => n) 0

def Isolated (moves : List (Move ι)) : Prop :=
  ∀ before i after, moves = before ++ .store i :: after → missed i before = 0

end

/-! ## One more move -/

@[simp] theorem stores_snoc_fetch (moves : List (Move ι)) (i : ι) :
    stores (moves ++ [.fetch i]) = stores moves := by
  simp [stores]

@[simp] theorem stores_snoc_store (moves : List (Move ι)) (i : ι) :
    stores (moves ++ [.store i]) = stores moves + 1 := by
  simp [stores]

@[simp] theorem stores_snoc_put (moves : List (Move ι)) (v : Option Int) :
    stores (moves ++ [.put v]) = stores moves := by
  simp [stores]

theorem Origin.snoc {v₀ : Option Int} {moves : List (Move ι)} {v : Int} (h : Origin v₀ moves v)
    (move : Move ι) : Origin v₀ (moves ++ [move]) v :=
  h.imp_right (List.mem_append_left _)

/-- The number has been put there and counted up since, at most once for each store. -/
def Explained (v₀ : Option Int) (moves : List (Move ι)) (v : Int) : Prop :=
  ∃ origin k, Origin v₀ moves origin ∧ k ≤ stores moves ∧ v = origin + (k : Int)

theorem Explained.snoc {v₀ : Option Int} {moves : List (Move ι)} {v : Int}
    (h : Explained v₀ moves v) (move : Move ι) : Explained v₀ (moves ++ [move]) v := by
  obtain ⟨origin, k, hOrigin, hk, hv⟩ := h
  refine ⟨origin, k, hOrigin.snoc move, Nat.le_trans hk ?_, hv⟩
  cases move <;> simp

variable [DecidableEq ι]

@[simp] theorem run_snoc (v : Option Int) (moves : List (Move ι)) (move : Move ι) :
    run v (moves ++ [move]) = step (run v moves) move := by
  simp [run, List.foldl_append]

@[simp] theorem missed_snoc_fetch (i j : ι) (moves : List (Move ι)) :
    missed i (moves ++ [.fetch j]) = if j = i then 0 else missed i moves := by
  simp [missed, List.foldl_append]

@[simp] theorem missed_snoc_store (i j : ι) (moves : List (Move ι)) :
    missed i (moves ++ [.store j]) = missed i moves + 1 := by
  simp [missed, List.foldl_append]

theorem isolated_nil : Isolated ([] : List (Move ι)) :=
  fun before _ _ h => absurd h.symm (List.append_ne_nil_of_right_ne_nil before (List.cons_ne_nil _ _))

theorem isolated_snoc (moves : List (Move ι)) (move : Move ι) : Isolated (moves ++ [move]) ↔
    Isolated moves ∧ ∀ i, move = .store i → missed i moves = 0 := by
  constructor
  · intro h
    refine ⟨fun before i after hl => h before i (after ++ [move]) ?_, fun i hi => ?_⟩
    · rw [hl, List.append_assoc, List.cons_append]
    · exact h moves i [] (by rw [hi])
  · rintro ⟨hIsolated, hLast⟩ before i after hl
    rcases List.eq_nil_or_concat after with rfl | ⟨after, last, rfl⟩
    · obtain ⟨rfl, hMove⟩ := List.append_inj' hl rfl
      exact hLast i (List.singleton_inj.mp hMove)
    · rw [List.concat_eq_append, ← List.cons_append, ← List.append_assoc] at hl
      exact hIsolated before i after (List.append_inj' hl rfl).1

/-! ## Where a number comes from -/

/-- What the parties hold is explained as well: a store puts back what its party
fetched some time ago. -/
theorem run_explained (v₀ : Option Int) (moves : List (Move ι)) :
    (∀ v, (run v₀ moves).value = some v → Explained v₀ moves v) ∧
      ∀ i v, (run v₀ moves).held i = some v → Explained v₀ moves v := by
  induction moves using List.reverseRecOn with
  | nil =>
    have hStart : ∀ v, v₀ = some v → Explained v₀ ([] : List (Move ι)) v :=
      fun v hv => ⟨v, 0, Or.inl hv, Nat.le_refl 0, by simp⟩
    exact ⟨hStart, fun _ => hStart⟩
  | append_singleton moves move ih =>
    obtain ⟨hValue, hHeld⟩ := ih
    rw [run_snoc]
    cases move with
    | fetch i =>
      refine ⟨fun v hv => (hValue v hv).snoc _, fun j v hv => ?_⟩
      by_cases hj : j = i
      · subst hj
        simp only [step, Function.update_self] at hv
        exact (hValue v hv).snoc _
      · simp only [step, Function.update_of_ne hj] at hv
        exact (hHeld j v hv).snoc _
    | store i =>
      refine ⟨fun v hv => ?_, fun j v hv => (hHeld j v hv).snoc _⟩
      obtain ⟨w, hw, rfl⟩ := Option.map_eq_some_iff.mp hv
      obtain ⟨origin, k, hOrigin, hk, rfl⟩ := hHeld i w hw
      refine ⟨origin, k + 1, hOrigin.snoc _, ?_, ?_⟩
      · rw [stores_snoc_store]
        omega
      · push_cast
        omega
    | put w =>
      refine ⟨fun v hv => ⟨v, 0, Or.inr ?_, Nat.zero_le _, by simp⟩, fun j v hv => (hHeld j v hv).snoc _⟩
      have hPut : w = some v := hv
      rw [hPut]
      exact List.mem_concat_self

/-! ## What is lost -/

/-- The cell after moves none of which puts a number there. A party that has
missed nothing holds the number; what it holds is behind otherwise. -/
structure Kept (v₀ : Int) (moves : List (Move ι)) (v : Int) (held : ι → Int) : Prop where
  above : v₀ ≤ v ∧ (0 < stores moves → v₀ < v)
  below : v ≤ v₀ + stores moves
  exactly : v = v₀ + stores moves ↔ Isolated moves
  heldAbove : ∀ i, v₀ ≤ held i
  heldBelow : ∀ i, held i + missed i moves ≤ v₀ + stores moves
  heldFresh : ∀ i, missed i moves = 0 → held i = v

theorem Kept.fetch {v₀ : Int} {moves : List (Move ι)} {v : Int} {held : ι → Int}
    (h : Kept v₀ moves v held) (i : ι) :
    Kept v₀ (moves ++ [.fetch i]) v (Function.update held i v) where
  above := by simpa using h.above
  below := by simpa using h.below
  exactly := by simp [isolated_snoc, h.exactly]
  heldAbove j := by
    by_cases hj : j = i
    · rw [hj, Function.update_self]
      exact h.above.1
    · rw [Function.update_of_ne hj]
      exact h.heldAbove j
  heldBelow j := by
    by_cases hj : j = i
    · simpa [hj] using h.below
    · simpa [Function.update_of_ne hj, Ne.symm hj] using h.heldBelow j
  heldFresh j := by
    by_cases hj : j = i
    · simp [hj]
    · simpa [Function.update_of_ne hj, Ne.symm hj] using h.heldFresh j

theorem Kept.store {v₀ : Int} {moves : List (Move ι)} {v : Int} {held : ι → Int}
    (h : Kept v₀ moves v held) (i : ι) : Kept v₀ (moves ++ [.store i]) (held i + 1) held where
  above := by
    have := h.heldAbove i
    constructor
    · omega
    · intro _
      omega
  below := by
    have := h.heldBelow i
    rw [stores_snoc_store]
    omega
  exactly := by
    have hBelow := h.heldBelow i
    have hFresh := h.heldFresh i
    rw [isolated_snoc, ← h.exactly, stores_snoc_store]
    constructor
    · intro hv
      have hMissed : missed i moves = 0 := by omega
      refine ⟨by have := hFresh hMissed; omega, fun j hj => ?_⟩
      cases hj
      exact hMissed
    · rintro ⟨hv, hMissed⟩
      have := hFresh (hMissed i rfl)
      omega
  heldAbove := h.heldAbove
  heldBelow j := by
    have := h.heldBelow j
    rw [stores_snoc_store, missed_snoc_store]
    omega
  heldFresh j hMissed := by
    rw [missed_snoc_store] at hMissed
    exact absurd hMissed (Nat.succ_ne_zero _)

theorem run_kept (v₀ : Int) {moves : List (Move ι)} (h : ∀ v, .put v ∉ moves) :
    ∃ v held, run (some v₀) moves = ⟨some v, fun i => some (held i)⟩ ∧ Kept v₀ moves v held := by
  induction moves using List.reverseRecOn with
  | nil =>
    refine ⟨v₀, fun _ => v₀, rfl, ⟨⟨Int.le_refl _, fun hPos => absurd hPos (Nat.lt_irrefl 0)⟩,
      ?_, ?_, fun _ => Int.le_refl _, fun _ => ?_, fun _ _ => rfl⟩⟩
    · simp [stores]
    · simp [stores, isolated_nil]
    · simp [stores, missed]
  | append_singleton moves move ih =>
    obtain ⟨v, held, hRun, hKept⟩ := ih fun w hw => h w (List.mem_append_left _ hw)
    rw [run_snoc, hRun]
    cases move with
    | fetch i =>
      refine ⟨v, Function.update held i v, ?_, hKept.fetch i⟩
      rw [step]
      congr 1
      funext j
      by_cases hj : j = i
      · rw [hj, Function.update_self, Function.update_self]
      · rw [Function.update_of_ne hj, Function.update_of_ne hj]
    | store i => exact ⟨held i + 1, held, rfl, hKept.store i⟩
    | put w => exact absurd List.mem_concat_self (h w)

end Increments
