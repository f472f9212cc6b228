import Mathlib.Data.List.Forall2

/-! # What a program has printed when it ends or is cut short

The items that were printed in full, and whether the program got to its end.
An item that cannot be printed ends it, and nothing is printed after that.
-/

set_option autoImplicit false

structure Printout (α : Type) where
  items : List α
  whole : Bool

namespace Printout

variable {α : Type}

def done : Printout α := ⟨[], true⟩

def print : Option α → Printout α
  | some item => ⟨[item], true⟩
  | none => ⟨[], false⟩

/-- One after the other, unless the first is cut short. -/
def next (x y : Printout α) : Printout α := if x.whole then ⟨x.items ++ y.items, y.whole⟩ else x

def printAll : List (Option α) → Printout α
  | [] => done
  | item :: items => (print item).next (printAll items)

@[simp] theorem next_done (x : Printout α) : x.next done = x := by
  obtain ⟨items, whole⟩ := x
  cases whole <;> simp [next, done]

theorem next_of_whole {x : Printout α} (h : x.whole = true) (y : Printout α) :
    x.next y = ⟨x.items ++ y.items, y.whole⟩ := if_pos h

theorem next_of_cut {x : Printout α} (h : x.whole = false) (y : Printout α) : x.next y = x := by
  simp [next, h]

theorem next_assoc (x y z : Printout α) : (x.next y).next z = x.next (y.next z) := by
  cases hx : x.whole with
  | false => simp [next_of_cut hx]
  | true =>
    cases hy : y.whole with
    | false =>
      rw [next_of_cut hy]
      exact next_of_cut (by simpa [next_of_whole hx] using hy) z
    | true => simp [next, hx, hy]

theorem next_left_cancel_iff {x : Printout α} (h : x.whole = true) {y z : Printout α} :
    x.next y = x.next z ↔ y = z := by
  obtain ⟨items, whole⟩ := y
  obtain ⟨items', whole'⟩ := z
  simp [next_of_whole h]

@[simp] theorem printAll_nil : printAll ([] : List (Option α)) = done := rfl

theorem printAll_append (l l' : List (Option α)) :
    printAll (l ++ l') = (printAll l).next (printAll l') := by
  induction l with
  | nil => rfl
  | cons item l ih => rw [List.cons_append, printAll, printAll, ih, next_assoc]

theorem whole_printAll_iff (l : List (Option α)) : (printAll l).whole = true ↔ none ∉ l := by
  induction l with
  | nil => simp [done]
  | cons item l ih =>
    rw [printAll]
    cases item with
    | none => simp [print, next]
    | some item => simpa [print, next] using ih

/-- A run that is not cut short has printed every item. -/
theorem printAll_eq_whole_iff (l : List (Option α)) (items : List α) :
    printAll l = ⟨items, true⟩ ↔ l = items.map some := by
  induction l generalizing items with
  | nil => cases items <;> simp [done]
  | cons item l ih =>
    rw [printAll]
    cases item with
    | none => cases items <;> simp [print, next]
    | some item =>
      cases items with
      | nil => simp [print, next]
      | cons item' items =>
        have hRest := ih items
        simp only [print, next, if_true, List.singleton_append, Printout.mk.injEq, List.cons.injEq,
          List.map_cons, Option.some.injEq] at hRest ⊢
        rw [← hRest, and_assoc]
        constructor
        · rintro ⟨hItem, hItems, hWhole⟩
          exact ⟨hItem, by rw [← hItems, ← hWhole]⟩
        · rintro ⟨hItem, hAll⟩
          exact ⟨hItem, congrArg Printout.items hAll, congrArg Printout.whole hAll⟩

/-- All items of a list can be printed, each as `R` says, exactly when a run over
the list comes to its end with such items. -/
theorem exists_printAll_map_iff {β : Type} {f : β → Option α} {R : β → α → Prop} (l : List β) :
    (∃ items, printAll (l.map f) = ⟨items, true⟩ ∧ List.Forall₂ R l items) ↔
      ∀ b ∈ l, ∃ item, f b = some item ∧ R b item := by
  simp only [printAll_eq_whole_iff]
  induction l with
  | nil => simp
  | cons b l ih =>
    rw [List.forall_mem_cons, ← ih]
    constructor
    · rintro ⟨items, hItems, hR⟩
      cases hR with
      | cons hHead hTail =>
        obtain ⟨hFirst, hRest⟩ := List.cons.inj hItems
        exact ⟨⟨_, hFirst, hHead⟩, _, hRest, hTail⟩
    · rintro ⟨⟨item, hFirst, hHead⟩, items, hRest, hTail⟩
      exact ⟨item :: items, by simp [hFirst, hRest], .cons hHead hTail⟩

/-! ## Runs that leave something out -/

section

variable {σ : Type} (shown hidden : σ → List (Option α))

/-- What is printed under each heading, and what is left out at its end, where
only a heading can follow. -/
structure Headed (heading : α → Prop) (l : List σ) : Prop where
  shown : ∀ s ∈ l, shown s = [] ∨ ∃ item items, shown s = some item :: items ∧ heading item
  hidden : ∀ s ∈ l, ∀ item, some item ∈ hidden s → ¬ heading item

variable {shown hidden} {heading : α → Prop}

theorem Headed.tail {s : σ} {l : List σ} (h : Headed shown hidden heading (s :: l)) :
    Headed shown hidden heading l :=
  ⟨fun s' hs => h.shown s' (List.mem_cons_of_mem s hs),
    fun s' hs => h.hidden s' (List.mem_cons_of_mem s hs)⟩

theorem Headed.shown_flatMap {l : List σ} (h : Headed shown hidden heading l) :
    l.flatMap shown = [] ∨ ∃ item items, l.flatMap shown = some item :: items ∧ heading item := by
  induction l with
  | nil => exact Or.inl rfl
  | cons s l ih =>
    rw [List.flatMap_cons]
    rcases h.shown s List.mem_cons_self with hNil | ⟨item, items, hShown, hItem⟩
    · rw [hNil]
      exact ih h.tail
    · rw [hShown]
      exact Or.inr ⟨item, _, rfl, hItem⟩

/-- Something left out is missed: where it would stand, there is the end or a
heading. -/
theorem Headed.missed {s : σ} {l : List σ} (h : Headed shown hidden heading (s :: l))
    (hHidden : hidden s ≠ []) (rest : List (Option α)) :
    printAll (l.flatMap shown) ≠ printAll (hidden s ++ rest) := by
  obtain ⟨item, items, hItems⟩ := List.exists_cons_of_ne_nil hHidden
  rw [hItems, List.cons_append, printAll]
  cases item with
  | none =>
    rcases h.tail.shown_flatMap with hNil | ⟨top, below, hShown, _⟩
    · simp [hNil, print, next, done]
    · simp [hShown, printAll, print, next]
  | some item =>
    have hNot := h.hidden s List.mem_cons_self item (by rw [hItems]; exact List.mem_cons_self)
    rcases h.tail.shown_flatMap with hNil | ⟨top, below, hShown, hTop⟩
    · simp [hNil, print, next, done]
    · rw [hShown, printAll]
      intro hSame
      have hFirst := congrArg (fun x => x.items.head?) hSame
      simp only [print, next, if_true, List.singleton_append, List.head?_cons] at hFirst
      exact hNot (Option.some.inj hFirst ▸ hTop)

/-- The run is the same exactly when nothing is left out at the places that it
gets to. -/
theorem Headed.printAll_eq_iff {l : List σ} (h : Headed shown hidden heading l)
    (rest : List (Option α)) :
    printAll (l.flatMap shown) = printAll (l.flatMap (fun s => shown s ++ hidden s) ++ rest) ↔
      (∀ (i : Nat) s, l[i]? = some s →
        (∀ j ≤ i, ∀ s', l[j]? = some s' → none ∉ shown s') → hidden s = []) ∧
      ((∀ s ∈ l, none ∉ shown s) → rest = []) := by
  induction l with
  | nil =>
    have hRest : printAll rest = ⟨[], true⟩ ↔ rest = [] := by
      rw [printAll_eq_whole_iff, List.map_nil]
    rw [List.flatMap_nil, List.flatMap_nil, List.nil_append, printAll_nil, eq_comm]
    simpa [done] using hRest
  | cons s l ih =>
    rw [List.flatMap_cons, List.flatMap_cons, List.append_assoc, List.append_assoc, printAll_append,
      printAll_append]
    cases hWhole : (printAll (shown s)).whole with
    | false =>
      have hCut : ¬ none ∉ shown s := by simp [← whole_printAll_iff, hWhole]
      refine iff_of_true ?_ ⟨?_, fun hAll => absurd (hAll s List.mem_cons_self) hCut⟩
      · rw [next_of_cut hWhole, next_of_cut hWhole]
      · intro i s' _ hBefore
        exact absurd (hBefore 0 (Nat.zero_le i) s rfl) hCut
    | true =>
      have hShown := (whole_printAll_iff _).mp hWhole
      rw [next_left_cancel_iff hWhole]
      constructor
      · intro hSame
        have hHidden : hidden s = [] := by
          by_contra hHidden
          exact h.missed hHidden _ hSame
        rw [hHidden, List.nil_append] at hSame
        obtain ⟨hNone, hRest⟩ := (ih h.tail).mp hSame
        constructor
        · intro i s' hi hBefore
          cases i with
          | zero => rwa [← Option.some.inj hi]
          | succ i => exact hNone i s' hi fun j hj => hBefore (j + 1) (Nat.succ_le_succ hj)
        · exact fun hAll => hRest fun t ht => hAll t (List.mem_cons_of_mem s ht)
      · rintro ⟨hNone, hRest⟩
        have hHidden : hidden s = [] := by
          refine hNone 0 s rfl fun j hj s' hs => ?_
          rw [Nat.le_zero.mp hj] at hs
          exact Option.some.inj hs ▸ hShown
        rw [hHidden, List.nil_append]
        refine (ih h.tail).mpr ⟨?_, fun hAll => hRest (List.forall_mem_cons.mpr ⟨hShown, hAll⟩)⟩
        intro i s' hi hBefore
        refine hNone (i + 1) s' hi fun j hj t ht => ?_
        cases j with
        | zero => exact Option.some.inj ht ▸ hShown
        | succ j => exact hBefore j (Nat.le_of_succ_le_succ hj) t ht

end

end Printout
