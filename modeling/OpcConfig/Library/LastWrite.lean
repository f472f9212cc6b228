import Mathlib.Logic.Function.Basic
import Mathlib.Data.List.Basic

/-! # Stores whose assignments are accepted or rejected one by one

Whether an assignment is accepted depends on its key and its value only, so a
sequence of assignments leaves at each key the last accepted one.
-/

namespace LastWrite

set_option autoImplicit false

variable {K V : Type} [DecidableEq K] (accepted : K → V → Bool)

def put (f : K → V) (a : K × V) : K → V :=
  if accepted a.1 a.2 then Function.update f a.1 a.2 else f

def puts (l : List (K × V)) (f : K → V) : K → V := l.foldl (put accepted) f

def last (k : K) : List (K × V) → Option V
  | [] => none
  | a :: l => (last k l).or (if a.1 = k ∧ accepted a.1 a.2 = true then some a.2 else none)

theorem puts_append (l l' : List (K × V)) (f : K → V) :
    puts accepted (l ++ l') f = puts accepted l' (puts accepted l f) := List.foldl_append

theorem puts_apply (l : List (K × V)) (f : K → V) (k : K) :
    puts accepted l f k = (last accepted k l).getD (f k) := by
  induction l generalizing f with
  | nil => rfl
  | cons a l ih =>
    change puts accepted l (put accepted f a) k = _
    rw [ih, last, put]
    cases hLast : last accepted k l with
    | some v => rfl
    | none =>
      by_cases hAccepted : accepted a.1 a.2 = true
      · by_cases hKey : a.1 = k
        · subst hKey
          simp [hAccepted]
        · simp [hAccepted, hKey, Function.update_of_ne (Ne.symm hKey)]
      · simp [hAccepted]

theorem last_some {l : List (K × V)} {k : K} {v : V} (h : last accepted k l = some v) :
    (k, v) ∈ l ∧ accepted k v = true := by
  induction l with
  | nil => cases h
  | cons a l ih =>
    rw [last] at h
    rcases Option.or_eq_some_iff.mp h with h | ⟨_, h⟩
    · obtain ⟨hMem, hAccepted⟩ := ih h
      exact ⟨List.mem_cons_of_mem _ hMem, hAccepted⟩
    · split at h
      · rename_i hKey
        obtain ⟨hKey, hAccepted⟩ := hKey
        cases h
        subst hKey
        exact ⟨List.mem_cons_self, hAccepted⟩
      · cases h

theorem last_eq_none_iff (l : List (K × V)) (k : K) :
    last accepted k l = none ↔ ∀ v, (k, v) ∈ l → accepted k v = false := by
  induction l with
  | nil => simp [last]
  | cons a l ih =>
    rw [last, Option.or_eq_none_iff, ih]
    constructor
    · rintro ⟨hRest, hHead⟩ v hMem
      rcases List.mem_cons.mp hMem with hEq | hMem
      · rw [ite_eq_right_iff] at hHead
        rw [← hEq] at hHead
        by_contra hAccepted
        exact absurd (hHead ⟨rfl, by simpa using hAccepted⟩) (by simp)
      · exact hRest v hMem
    · intro h
      refine ⟨fun v hMem => h v (List.mem_cons_of_mem _ hMem), ?_⟩
      rw [ite_eq_right_iff]
      rintro ⟨hKey, hAccepted⟩
      rw [← hKey] at h
      rw [h a.2 List.mem_cons_self] at hAccepted
      cases hAccepted

theorem last_congr_accepted {accepted' : K → V → Bool} {k : K}
    (h : ∀ v, accepted k v = accepted' k v) (l : List (K × V)) :
    last accepted k l = last accepted' k l := by
  induction l with
  | nil => rfl
  | cons a l ih =>
    rw [last, last, ih]
    congr 1
    apply if_congr _ rfl rfl
    constructor
    · rintro ⟨rfl, hAccepted⟩
      exact ⟨rfl, (h _).symm.trans hAccepted⟩
    · rintro ⟨rfl, hAccepted⟩
      exact ⟨rfl, (h _).trans hAccepted⟩

theorem last_append (l l' : List (K × V)) (k : K) :
    last accepted k (l ++ l') = (last accepted k l').or (last accepted k l) := by
  induction l with
  | nil => simp [last]
  | cons a l ih => rw [List.cons_append, last, last, ih, Option.or_assoc]

def AgreeingAt (k : K) (l : List (K × V)) : Prop :=
  ∀ v w, (k, v) ∈ l → (k, w) ∈ l → accepted k v = true → accepted k w = true → v = w

theorem last_eq_some_of_agreeing {l : List (K × V)} {k : K} (h : AgreeingAt accepted k l) {v : V}
    (hMem : (k, v) ∈ l) (hAccepted : accepted k v = true) : last accepted k l = some v := by
  cases hLast : last accepted k l with
  | none =>
    have hRejected := (last_eq_none_iff accepted l k).mp hLast v hMem
    rw [hRejected] at hAccepted
    cases hAccepted
  | some w =>
    obtain ⟨hMem', hAccepted'⟩ := last_some accepted hLast
    rw [h w v hMem' hMem hAccepted' hAccepted]

/-- Where accepted assignments agree, their order and number do not matter. -/
theorem last_congr {l l' : List (K × V)} {k : K} (h : AgreeingAt accepted k l)
    (hMem : ∀ v, (k, v) ∈ l ↔ (k, v) ∈ l') : last accepted k l = last accepted k l' := by
  have h' : AgreeingAt accepted k l' := by
    intro v w hv hw
    exact h v w ((hMem v).mpr hv) ((hMem w).mpr hw)
  cases hLast : last accepted k l with
  | some v =>
    obtain ⟨hv, hAccepted⟩ := last_some accepted hLast
    exact (last_eq_some_of_agreeing accepted h' ((hMem v).mp hv) hAccepted).symm
  | none =>
    symm
    rw [last_eq_none_iff] at hLast ⊢
    intro v hv
    exact hLast v ((hMem v).mpr hv)

theorem puts_update {l : List (K × V)} {k : K} (h : ∀ a ∈ l, a.1 ≠ k) (f : K → V) (v : V) :
    puts accepted l (Function.update f k v) = Function.update (puts accepted l f) k v := by
  funext x
  rw [puts_apply]
  by_cases hx : x = k
  · subst hx
    have hNone : last accepted x l = none :=
      (last_eq_none_iff accepted l x).mpr (fun w hw => absurd rfl (h _ hw))
    rw [hNone, Function.update_self, Function.update_self]
    rfl
  · rw [Function.update_of_ne hx, Function.update_of_ne hx, puts_apply]

theorem puts_congr_accepted {accepted' : K → V → Bool} {l : List (K × V)}
    (h : ∀ a ∈ l, accepted a.1 a.2 = accepted' a.1 a.2) (f : K → V) :
    puts accepted l f = puts accepted' l f := by
  induction l generalizing f with
  | nil => rfl
  | cons a l ih =>
    change puts accepted l (put accepted f a) = puts accepted' l (put accepted' f a)
    rw [ih (fun b hb => h b (List.mem_cons_of_mem _ hb)), put, put, h a List.mem_cons_self]

end LastWrite
