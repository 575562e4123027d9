import Mathlib.Data.List.Infix
import Mathlib.Data.Nat.Notation
import Mathlib.Tactic.Common

/-!
# Runs of a transition system, with their history

A system has its initial states and a step relation labelled with an event and an
output. A run is recorded as the list of its transitions, latest first (`Run`).

* `Run.invariant`: what holds initially and is kept by a step holds at the end of
  every run.
* `Run.invariant_of`, `Run.always_of`: the same for runs whose transitions all meet a
  condition.
* `Run.exact`: if a step from a good state leads to a good state exactly when it
  meets a condition, the states of a run are all good exactly when its steps all
  meet the condition.
* `Run.exact_of`: the same for conditions on a step and all that went before it.
* `Path`, `Path.induct`: the same from any state on.
-/

namespace Execution

variable {σ ε ο : Type*}

structure System (σ ε ο : Type*) where
  init : σ → Prop
  step : σ → ε → ο → σ → Prop

/-- One step taken: the state before, the event, the output and the state after. -/
structure Transition (σ ε ο : Type*) where
  before : σ
  event : ε
  out : ο
  after : σ

abbrev Trace (σ ε ο : Type*) := List (Transition σ ε ο)

/-- `Run S tr k`: the transitions `tr`, latest first, lead from an initial state to `k`. -/
inductive Run (S : System σ ε ο) : Trace σ ε ο → σ → Prop
  | init {k} : S.init k → Run S [] k
  | step {tr k e o k'} : Run S tr k → S.step k e o k' → Run S (⟨k, e, o, k'⟩ :: tr) k'

variable {S : System σ ε ο} {tr tr' : Trace σ ε ο} {k : σ}

/-- A transition of a run, and the run up to it. -/
theorem Run.mem (hr : Run S tr k) {t : Transition σ ε ο} (ht : t ∈ tr) :
    ∃ tr', t :: tr' <:+ tr ∧ Run S tr' t.before ∧ S.step t.before t.event t.out t.after := by
  induction hr with
  | init _ => simp at ht
  | step hr hs ih =>
    rcases List.mem_cons.1 ht with rfl | ht
    · exact ⟨_, List.suffix_rfl, hr, hs⟩
    · obtain ⟨tr', h1, h2, h3⟩ := ih ht
      exact ⟨tr', h1.trans (List.suffix_cons _ _), h2, h3⟩

/-- An earlier part of a run is a run. -/
theorem Run.suffix (hr : Run S tr k) (hs : tr' <:+ tr) : ∃ k', Run S tr' k' := by
  induction hr with
  | init h => rw [List.suffix_nil.1 hs]; exact ⟨_, .init h⟩
  | step hr hst ih =>
    rcases List.suffix_cons_iff.1 hs with rfl | hs
    · exact ⟨_, hr.step hst⟩
    · exact ih hs

/-- The invariant rule, with the history in the invariant. -/
theorem Run.induct {P : Trace σ ε ο → σ → Prop} (h0 : ∀ k, S.init k → P [] k)
    (hs : ∀ {tr k e o k'}, Run S tr k → P tr k → S.step k e o k' → P (⟨k, e, o, k'⟩ :: tr) k')
    (hr : Run S tr k) : P tr k := by
  induction hr with
  | init h => exact h0 _ h
  | step hr hst ih => exact hs hr ih hst

/-- **The invariant rule.** -/
theorem Run.invariant {P : σ → Prop} (h0 : ∀ k, S.init k → P k)
    (hs : ∀ {k e o k'}, P k → S.step k e o k' → P k') (hr : Run S tr k) : P k :=
  hr.induct (P := fun _ k => P k) h0 fun _ hP hst => hs hP hst

/-- **The invariant rule for runs whose steps all meet a condition.** -/
theorem Run.invariant_of {P : σ → Prop} {C : σ → ε → Prop} (h0 : ∀ k, S.init k → P k)
    (hs : ∀ {tr k e o k'}, Run S tr k → P k → C k e → S.step k e o k' → P k') (hr : Run S tr k)
    (hC : ∀ t ∈ tr, C t.before t.event) : P k := by
  refine hr.induct (P := fun tr k => (∀ t ∈ tr, C t.before t.event) → P k)
    (fun k h _ => h0 k h) ?_ hC
  intro tr k e o k' hr ih hst hC
  exact hs hr (ih fun t ht => hC t (List.mem_cons_of_mem _ ht)) (hC _ List.mem_cons_self) hst

/-- Runs whose steps all meet a condition go through good states only. -/
theorem Run.always_of {P : σ → Prop} {C : σ → ε → Prop} (h0 : ∀ k, S.init k → P k)
    (hs : ∀ {tr k e o k'}, Run S tr k → P k → C k e → S.step k e o k' → P k') (hr : Run S tr k)
    (hC : ∀ t ∈ tr, C t.before t.event) : ∀ t ∈ tr, P t.after := by
  intro t ht
  obtain ⟨tr', hsuf, hr', hst⟩ := hr.mem ht
  have hC' : ∀ t' ∈ tr', C t'.before t'.event := fun t' h =>
    hC t' (hsuf.subset (List.mem_cons_of_mem _ h))
  exact hs hr' (hr'.invariant_of h0 hs hC') (hC t ht) hst

/-- **Exactness, with the history.** The invariant `I` is kept by steps that meet the condition `C`; a
step from such a state is good exactly if it meets the condition. -/
theorem Run.exact_of {P C : Transition σ ε ο → Trace σ ε ο → Prop} {I : Trace σ ε ο → σ → Prop}
    (h0 : ∀ k, S.init k → I [] k)
    (hs : ∀ {tr k e o k'}, Run S tr k → I tr k → S.step k e o k' →
      (P ⟨k, e, o, k'⟩ tr ↔ C ⟨k, e, o, k'⟩ tr) ∧ (C ⟨k, e, o, k'⟩ tr → I (⟨k, e, o, k'⟩ :: tr) k'))
    (hr : Run S tr k) :
    (∀ t tr', t :: tr' <:+ tr → P t tr') ↔ ∀ t tr', t :: tr' <:+ tr → C t tr' := by
  have key : ((∀ t tr', t :: tr' <:+ tr → P t tr') ↔ ∀ t tr', t :: tr' <:+ tr → C t tr') ∧
      ((∀ t tr', t :: tr' <:+ tr → C t tr') → I tr k) := by
    refine hr.induct (P := fun tr k => ((∀ t tr', t :: tr' <:+ tr → P t tr') ↔ ∀ t tr', t :: tr' <:+ tr → C t tr') ∧
      ((∀ t tr', t :: tr' <:+ tr → C t tr') → I tr k)) (fun k h => ⟨by simp, fun _ => h0 k h⟩) ?_
    intro tr k e o k' hr ih hst
    have hcons : ∀ Q : Transition σ ε ο → Trace σ ε ο → Prop,
        (∀ t tr', t :: tr' <:+ ⟨k, e, o, k'⟩ :: tr → Q t tr') ↔
          Q ⟨k, e, o, k'⟩ tr ∧ ∀ t tr', t :: tr' <:+ tr → Q t tr' := by
      intro Q
      constructor
      · exact fun h => ⟨h _ _ List.suffix_rfl, fun t tr' ht => h t tr' (ht.trans (List.suffix_cons _ _))⟩
      · rintro ⟨h1, h2⟩ t tr' ht
        rcases List.suffix_cons_iff.1 ht with ht | ht
        · cases ht
          exact h1
        · exact h2 t tr' ht
    rw [hcons P, hcons C, ih.1]
    refine ⟨and_congr_left fun h => (hs hr (ih.2 h) hst).1, fun h => (hs hr (ih.2 h.2) hst).2 h.1⟩
  exact key.1

/-- What holds of each transition is what holds of the last one of each part of the run. -/
theorem forall_mem_suffix {Q : Transition σ ε ο → Prop} :
    (∀ t tr', t :: tr' <:+ tr → Q t) ↔ ∀ t ∈ tr, Q t := by
  constructor
  · intro h t ht
    obtain ⟨xs, ys, rfl⟩ := List.append_of_mem ht
    exact h t ys (List.suffix_append _ _)
  · exact fun h t tr' ht => h t (ht.subset List.mem_cons_self)

/-- **Exactness.** When a step from a good state leads to a good state exactly if it
meets the condition, so do runs. -/
theorem Run.exact {P : σ → Prop} {C : σ → ε → Prop} (h0 : ∀ k, S.init k → P k)
    (hs : ∀ {tr k e o k'}, Run S tr k → P k → S.step k e o k' → (P k' ↔ C k e)) (hr : Run S tr k) :
    (∀ t ∈ tr, P t.after) ↔ ∀ t ∈ tr, C t.before t.event := by
  rw [← forall_mem_suffix, ← forall_mem_suffix]
  refine hr.exact_of (P := fun t _ => P t.after) (C := fun t _ => C t.before t.event) (I := fun _ k => P k) h0 ?_
  intro tr k e o k' hr hP hst
  exact ⟨hs hr hP hst, (hs hr hP hst).2⟩

/-- `Path S k tr k'`: the transitions `tr`, latest first, lead from `k` to `k'`. -/
inductive Path (S : System σ ε ο) (k : σ) : Trace σ ε ο → σ → Prop
  | refl : Path S k [] k
  | step {tr k₁ e o k'} : Path S k tr k₁ → S.step k₁ e o k' → Path S k (⟨k₁, e, o, k'⟩ :: tr) k'

/-- A run goes on. -/
theorem Run.path {k' : σ} (hr : Run S tr k) (hp : Path S k tr' k') : Run S (tr' ++ tr) k' := by
  induction hp with
  | refl => exact hr
  | step _ hst ih => exact ih.step hst

theorem Path.trans {k₁ k' : σ} (hp : Path S k tr k₁) (hp' : Path S k₁ tr' k') : Path S k (tr' ++ tr) k' := by
  induction hp' with
  | refl => exact hp
  | step _ hst ih => exact ih.step hst

/-- The invariant rule from a state on, with what has happened since in the invariant. -/
theorem Path.induct {k' : σ} {P : Trace σ ε ο → σ → Prop} (h0 : P [] k)
    (hs : ∀ {tr k₁ e o k'}, Path S k tr k₁ → P tr k₁ → S.step k₁ e o k' → P (⟨k₁, e, o, k'⟩ :: tr) k')
    (hp : Path S k tr k') : P tr k' := by
  induction hp with
  | refl => exact h0
  | step hp hst ih => exact hs hp ih hst

end Execution
