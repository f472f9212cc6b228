import Mathlib.Logic.Function.Iterate
import Mathlib.Data.List.Basic

/-! # Stores in which every listed key takes one step a round

A round goes through the keys one after the other. When no key is listed twice,
each of them steps from the value it had before the round.
-/

namespace Sweep

set_option autoImplicit false

variable {K V : Type} [DecidableEq K] (step : V → V)

def sweep (keys : List K) (f : K → V) : K → V := fun k => if k ∈ keys then step (f k) else f k

theorem sweep_of_mem {keys : List K} {k : K} (h : k ∈ keys) (f : K → V) :
    sweep step keys f k = step (f k) := if_pos h

theorem sweep_of_not_mem {keys : List K} {k : K} (h : k ∉ keys) (f : K → V) :
    sweep step keys f k = f k := if_neg h

@[simp] theorem sweep_nil (f : K → V) : sweep step [] f = f := by
  funext k
  exact sweep_of_not_mem step List.not_mem_nil f

theorem sweep_snoc {keys : List K} {k : K} (h : k ∉ keys) (f : K → V) :
    sweep step (keys ++ [k]) f = Function.update (sweep step keys f) k (step (f k)) := by
  funext j
  by_cases hKey : j = k
  · subst hKey
    rw [Function.update_self, sweep_of_mem step (List.mem_append_right _ List.mem_cons_self)]
  · rw [Function.update_of_ne hKey]
    simp [sweep, hKey]

theorem sweep_snoc_of_fixed {keys : List K} {k : K} {f : K → V} (h : step (f k) = f k) :
    sweep step (keys ++ [k]) f = sweep step keys f := by
  funext j
  by_cases hKey : j = k
  · subst hKey
    by_cases hMem : j ∈ keys <;> simp [sweep, h]
  · simp [sweep, hKey]

theorem sweep_congr {keys keys' : List K} (h : ∀ k, k ∈ keys ↔ k ∈ keys') (f : K → V) :
    sweep step keys f = sweep step keys' f := by
  funext k
  simp only [sweep, h]

theorem iterate_sweep (keys : List K) (f : K → V) (n : Nat) (k : K) :
    (sweep step keys)^[n] f k = if k ∈ keys then step^[n] (f k) else f k := by
  induction n with
  | zero => simp
  | succ n ih =>
    rw [Function.iterate_succ_apply', Function.iterate_succ_apply', sweep, ih]
    split <;> rfl

end Sweep
