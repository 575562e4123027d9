import Mathlib.Data.Nat.Notation
import Mathlib.Tactic.Common

/-!
# Loops that end on their own condition

A round is a partial function: it has no value where the loop ends.

* `Halts.of_measure`: **an invariant and a measure that each round makes smaller** give the end of the loop.
* `Reach.exists_stage`: how far a loop gets for certain.
-/

namespace WhileLoop

variable {σ : Type*}

/-- The loop comes from `s` to its end in `t`. -/
inductive Halts (round : σ → Option σ) : σ → σ → Prop
  | done {s} : round s = none → Halts round s s
  | next {s s' t} : round s = some s' → Halts round s' t → Halts round s t

/-- The loop comes by `t`. -/
inductive Reach (round : σ → Option σ) (s : σ) : σ → Prop
  | start : Reach round s s
  | next {t t'} : Reach round s t → round t = some t' → Reach round s t'

variable {round : σ → Option σ} {s s' t t' : σ}

/-- **The rule for a loop that ends.** -/
theorem Halts.of_measure (I : σ → Prop) (μ : σ → ℕ)
    (hround : ∀ s s', I s → round s = some s' → I s' ∧ μ s' < μ s) (h : I s) :
    ∃ t, Halts round s t ∧ I t ∧ round t = none := by
  induction hn : μ s using Nat.strongRecOn generalizing s with
  | ind n ih =>
    cases hs : round s with
    | none => exact ⟨s, .done hs, h, hs⟩
    | some s' =>
      obtain ⟨hI, hμ⟩ := hround s s' h hs
      obtain ⟨t, ht, hIt, hend⟩ := ih (μ s') (hn ▸ hμ) hI rfl
      exact ⟨t, .next hs ht, hIt, hend⟩

theorem Halts.unique (h : Halts round s t) (h' : Halts round s t') : t' = t := by
  induction h with
  | done hs =>
    cases h' with
    | done => rfl
    | next hs' _ => cases hs.symm.trans hs'
  | next hs _ ih =>
    cases h' with
    | done hs' => cases hs'.symm.trans hs
    | next hs' ht => exact ih (Option.some.inj (hs'.symm.trans hs) ▸ ht)

theorem Reach.inv {I : σ → Prop} (h : Reach round s t) (hs : I s)
    (hround : ∀ s s', I s → round s = some s' → I s') : I t := by
  induction h with
  | start => exact hs
  | next _ ht ih => exact hround _ _ ih ht

/-- **A loop with a stage to pass comes to it**: while `stage` has not reached `n`, a round is made and the stage
grows. -/
theorem Reach.exists_stage {I : σ → Prop} (stage : σ → ℕ) (n : ℕ) (hs : I s)
    (hround : ∀ s, I s → stage s < n → ∃ s', round s = some s' ∧ I s' ∧ stage s < stage s') :
    ∃ t, Reach round s t ∧ I t ∧ n ≤ stage t := by
  have hle : ∀ d t, n - stage t ≤ d → Reach round s t → I t → ∃ t, Reach round s t ∧ I t ∧ n ≤ stage t := by
    intro d
    induction d with
    | zero => exact fun t hd ht hI => ⟨t, ht, hI, by omega⟩
    | succ d ih =>
      intro t hd ht hI
      by_cases hn : stage t < n
      · obtain ⟨t', ht', hI', hlt⟩ := hround t hI hn
        exact ih t' (by omega) (.next ht ht') hI'
      · exact ⟨t, ht, hI, by omega⟩
  exact hle _ s (Nat.le_refl _) .start hs

end WhileLoop
