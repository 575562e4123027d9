import Mathlib.Logic.Function.Basic
import Mathlib.Tactic.Common

/-!
# Time and meters

Actors spend their time in one mode or another, and from time to time a meter is charged with
all that an actor has spent since it was charged last.

* `Fair`: each charge is for time in the mode of its meter only.
* `mem_after`: what an actor has still to be charged for.
-/

namespace Metering

variable {α μ : Type*}

inductive Act (α μ : Type*)
  /-- `s` spends some time in mode `m`; there is no meter for the mode `none`. -/
  | spend (s : α) (m : Option μ)
  | charge (s : α) (w : μ)

/-- What the actors have spent since they were charged last, latest first. -/
abbrev Unpaid (α μ : Type*) := α → List (Option μ)

variable [DecidableEq α]

def Act.apply (R : Unpaid α μ) : Act α μ → Unpaid α μ
  | .spend s m => Function.update R s (m :: R s)
  | .charge s _ => Function.update R s []

def after (R : Unpaid α μ) (xs : List (Act α μ)) : Unpaid α μ := xs.foldl Act.apply R

/-- The charges are for time in their own mode. -/
def Fair (R : Unpaid α μ) : List (Act α μ) → Prop
  | [] => True
  | .spend s m :: xs => Fair (Act.apply R (.spend s m)) xs
  | .charge s w :: xs => (∀ m ∈ R s, m = some w) ∧ Fair (Act.apply R (.charge s w)) xs

/-- The charges among `xs`. -/
def charges (xs : List (Act α μ)) : List (α × μ) :=
  xs.filterMap fun
    | .spend _ _ => none
    | .charge s w => some (s, w)

variable {R : Unpaid α μ} {xs : List (Act α μ)} {s t : α} {m : Option μ} {w : μ}

@[simp] theorem after_nil : after R [] = R := rfl

@[simp] theorem after_cons (x : Act α μ) : after R (x :: xs) = after (x.apply R) xs := rfl

@[simp] theorem apply_spend_self : Act.apply R (.spend s m) s = m :: R s := Function.update_self _ _ _

@[simp] theorem apply_charge_self : Act.apply R (.charge s w) s = [] := Function.update_self _ _ _

theorem mem_apply {x : Act α μ} (h : m ∈ x.apply R s) : m ∈ R s ∨ x = .spend s m := by
  cases x with
  | spend t n =>
    by_cases hs : s = t
    · subst hs
      rw [apply_spend_self, List.mem_cons] at h
      rcases h with rfl | h
      · exact .inr rfl
      · exact .inl h
    · rw [Act.apply, Function.update_of_ne hs] at h
      exact .inl h
  | charge t w =>
    by_cases hs : s = t
    · subst hs
      rw [apply_charge_self] at h
      cases h
    · rw [Act.apply, Function.update_of_ne hs] at h
      exact .inl h

/-- Unpaid time is old, or was spent just now. -/
theorem mem_after (h : m ∈ after R xs s) : m ∈ R s ∨ .spend s m ∈ xs := by
  induction xs generalizing R with
  | nil => exact .inl h
  | cons x xs ih =>
    rcases ih h with h | h
    · rcases mem_apply h with h | rfl
      · exact .inl h
      · exact .inr List.mem_cons_self
    · exact .inr (List.mem_cons_of_mem _ h)

end Metering
