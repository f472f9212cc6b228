import Mathlib.Data.Set.Basic
import Mathlib.Data.List.Basic

/-! # Parties that share an object

Each party may hold certain conversations, lists of requests with their answers.
The object answers one request after the other, whichever party it comes from,
so that the conversations run into each other in any order.
-/

namespace Parties

set_option autoImplicit false

variable {ι ω β σ : Type}

/-! ## Conversations -/

/-- Each request is allowed by what was said before it. -/
def Lawful (allowed : List (ω × β) → ω → Prop) (l : List (ω × β)) : Prop :=
  ∀ before q a after, l = before ++ (q, a) :: after → allowed before q

theorem lawful_nil (allowed : List (ω × β) → ω → Prop) : Lawful allowed [] :=
  fun before _ _ _ h => absurd h.symm (List.append_ne_nil_of_right_ne_nil before (List.cons_ne_nil _ _))

theorem lawful_snoc {allowed : List (ω × β) → ω → Prop} {l : List (ω × β)} {q : ω} {a : β} :
    Lawful allowed (l ++ [(q, a)]) ↔ Lawful allowed l ∧ allowed l q := by
  constructor
  · intro h
    refine ⟨fun before q' a' after hl => h before q' a' (after ++ [(q, a)]) ?_, h l q a [] rfl⟩
    rw [hl, List.append_assoc, List.cons_append]
  · rintro ⟨hLawful, hLast⟩ before q' a' after hl
    rcases List.eq_nil_or_concat after with rfl | ⟨after, e, rfl⟩
    · obtain ⟨rfl, hEvent⟩ := List.append_inj' hl rfl
      cases hEvent
      exact hLast
    · rw [List.concat_eq_append, ← List.cons_append, ← List.append_assoc] at hl
      exact hLawful before q' a' after (List.append_inj' hl rfl).1

theorem Lawful.initial {allowed : List (ω × β) → ω → Prop} {l l' : List (ω × β)}
    (h : Lawful allowed l') (hPrefix : l <+: l') : Lawful allowed l := by
  obtain ⟨rest, rfl⟩ := hPrefix
  intro before q a after hl
  apply h before q a (after ++ rest)
  rw [hl, List.append_assoc, List.cons_append]

/-! ## Runs -/

variable [DecidableEq ι]

/-- What party `i` has asked, with the answers. -/
def view (i : ι) (history : List (ι × ω × β)) : List (ω × β) :=
  (history.filter fun e => e.1 = i).map Prod.snd

theorem view_append (i : ι) (h h' : List (ι × ω × β)) :
    view i (h ++ h') = view i h ++ view i h' := by
  simp [view]

theorem view_snoc_self (i : ι) (history : List (ι × ω × β)) (e : ω × β) :
    view i (history ++ [(i, e)]) = view i history ++ [e] := by
  simp [view]

theorem view_snoc_of_ne {i j : ι} (h : j ≠ i) (history : List (ι × ω × β)) (e : ω × β) :
    view i (history ++ [(j, e)]) = view i history := by
  simp [view, h]

theorem mem_view {i : ι} {history : List (ι × ω × β)} {e : ω × β} :
    e ∈ view i history ↔ (i, e) ∈ history := by
  simp [view]

/-- The history and the state of the object after any number of requests. -/
inductive Runs (serve : ω → σ → β → σ → Prop) (behaviour : ι → Set (List (ω × β))) (s : σ) :
    List (ι × ω × β) → σ → Prop
  | start : Runs serve behaviour s [] s
  | step {history : List (ι × ω × β)} {s₁ s₂ : σ} {i : ι} {q : ω} {a : β}
      (hRuns : Runs serve behaviour s history s₁) (hServe : serve q s₁ a s₂)
      (hBehaviour : view i history ++ [(q, a)] ∈ behaviour i) :
      Runs serve behaviour s (history ++ [(i, q, a)]) s₂

variable {serve serve' : ω → σ → β → σ → Prop} {behaviour : ι → Set (List (ω × β))}
  {s s₁ : σ} {history : List (ι × ω × β)}

/-- The invariant rule: what the start has and every request keeps. The request
may be assumed to come from a party that behaves. -/
theorem Runs.invariant {I : List (ι × ω × β) → σ → Prop} (hStart : I [] s)
    (hStep : ∀ history s₁ i q a s₂, Runs serve behaviour s history s₁ → I history s₁ →
      serve q s₁ a s₂ → view i history ++ [(q, a)] ∈ behaviour i → I (history ++ [(i, q, a)]) s₂)
    (h : Runs serve behaviour s history s₁) : I history s₁ := by
  induction h with
  | start => exact hStart
  | step hRuns hServe hBehaviour ih => exact hStep _ _ _ _ _ _ hRuns ih hServe hBehaviour

/-- A party that has asked something has held one of its conversations. -/
theorem Runs.view_mem (h : Runs serve behaviour s history s₁) (i : ι) :
    view i history = [] ∨ view i history ∈ behaviour i := by
  induction h with
  | start => exact Or.inl rfl
  | @step history s₁ s₂ j q a hRuns hServe hMem ih =>
    by_cases hSame : j = i
    · subst hSame
      rw [view_snoc_self]
      exact Or.inr hMem
    · rw [view_snoc_of_ne hSame]
      exact ih

theorem Runs.lawful (allowed : ι → List (ω × β) → ω → Prop)
    (hAllowed : ∀ i, ∀ l ∈ behaviour i, Lawful (allowed i) l)
    (h : Runs serve behaviour s history s₁) (i : ι) : Lawful (allowed i) (view i history) := by
  rcases h.view_mem i with hNil | hMem
  · rw [hNil]
    exact lawful_nil _
  · exact hAllowed i _ hMem

/-- Requests that leave the object alone can be taken out of a run, for all
parties at once that ask nothing else. -/
theorem Runs.erase (quiet : ι → Bool)
    (hQuiet : ∀ i, quiet i = true → ∀ l ∈ behaviour i, ∀ e ∈ l,
      ∀ s₁ s₂, serve e.1 s₁ e.2 s₂ → s₂ = s₁)
    (h : Runs serve behaviour s history s₁) :
    Runs serve behaviour s (history.filter fun e => !quiet e.1) s₁ := by
  induction h with
  | start => exact .start
  | @step history s₁ s₂ i q a hRuns hServe hMem ih =>
    rw [List.filter_append]
    by_cases hi : quiet i = true
    · have hSame := hQuiet i hi _ hMem (q, a) List.mem_concat_self _ _ hServe
      simpa [hi, hSame] using ih
    · have hView : view i (history.filter fun e => !quiet e.1) = view i history := by
        rw [view, view, List.filter_filter]
        congr 1
        apply List.filter_congr
        intro e he
        by_cases hSame : e.1 = i <;> simp [hSame, hi]
      have hStep : Runs serve behaviour s
          ((history.filter fun e => !quiet e.1) ++ [(i, q, a)]) s₂ :=
        .step ih hServe (by rwa [hView])
      simpa [hi] using hStep

/-! ## One party alone -/

/-- A conversation that the object answers throughout. -/
inductive Answered (serve : ω → σ → β → σ → Prop) (s : σ) : List (ω × β) → σ → Prop
  | nil : Answered serve s [] s
  | snoc {l : List (ω × β)} {s₁ s₂ : σ} {q : ω} {a : β} (h : Answered serve s l s₁)
      (hServe : serve q s₁ a s₂) : Answered serve s (l ++ [(q, a)]) s₂

theorem Answered.mono {l : List (ω × β)} (hServe : ∀ q s₁ a s₂, serve q s₁ a s₂ → serve' q s₁ a s₂)
    (h : Answered serve s l s₁) : Answered serve' s l s₁ := by
  induction h with
  | nil => exact .nil
  | snoc _ hAnswer ih => exact .snoc ih (hServe _ _ _ _ hAnswer)

/-- A party that the others leave alone for a while. -/
theorem Answered.runs {i : ι} {l : List (ω × β)} {s₂ : σ} (h : Answered serve s₁ l s₂)
    (hRuns : Runs serve behaviour s history s₁)
    (hMem : ∀ l', l' <+: l → view i history ++ l' ∈ behaviour i) :
    Runs serve behaviour s (history ++ l.map fun e => (i, e)) s₂ := by
  induction h with
  | nil => simpa using hRuns
  | @snoc l s₂ s₃ q a h hServe ih =>
    rw [List.map_append, ← List.append_assoc]
    have hView : view i (l.map fun e => (i, e)) = l := by
      simp [view, List.filter_map, Function.comp_def]
    apply Runs.step (ih fun l' hPrefix => hMem l' (hPrefix.trans (List.prefix_append _ _))) hServe
    rw [view_append, hView, List.append_assoc]
    exact hMem _ (List.prefix_refl _)

end Parties
