import Mathlib.Data.Nat.Notation
import Mathlib.Tactic.Common

/-!
# Counting loops

`forRange lo n s f` is `for (i = lo; i < lo + n; i++) s = f(s, i)`, and
`forRangeM` the same loop when the body can fail.

* `forRange_inv`, `forRangeM_inv`: the invariant rule; `I i` holds before the round of index `i`.
* `forRangeM_ok`: a body that never fails under the invariant.
* `forRangeM_error`: what a loop fails with.
* `foldl_hits`: a loop that acts on the first hits only, and counts them.
* `bind_ok`: a sequence that returned, taken apart.
-/

namespace ForLoop

universe u

variable {σ ε : Type*} {α β : Type u}

theorem bind_ok {x : Except ε α} {f : α → Except ε β} {b : β} :
    x >>= f = .ok b ↔ ∃ a, x = .ok a ∧ f a = .ok b := by
  cases x with
  | error e => exact ⟨fun h => (by cases h), fun ⟨_, h, _⟩ => (by cases h)⟩
  | ok a =>
    constructor
    · intro h; exact ⟨a, rfl, h⟩
    · rintro ⟨_, h, hf⟩; cases h; exact hf

def forRange (lo n : ℕ) (s : σ) (f : σ → ℕ → σ) : σ := (List.range' lo n).foldl f s

def forRangeM (lo n : ℕ) (s : σ) (f : σ → ℕ → Except ε σ) : Except ε σ :=
  (List.range' lo n).foldlM f s

variable {lo n : ℕ} {s s' : σ}

@[simp] theorem forRange_zero (f : σ → ℕ → σ) : forRange lo 0 s f = s := rfl

theorem forRange_succ (f : σ → ℕ → σ) :
    forRange lo (n + 1) s f = f (forRange lo n s f) (lo + n) := by
  simp [forRange, List.range'_1_concat]

/-- **The invariant rule.** -/
theorem forRange_inv {f : σ → ℕ → σ} {I : ℕ → σ → Prop} (h0 : I lo s)
    (hs : ∀ i s, lo ≤ i → i < lo + n → I i s → I (i + 1) (f s i)) : I (lo + n) (forRange lo n s f) := by
  induction n with
  | zero => exact h0
  | succ n ih =>
    rw [forRange_succ]
    exact hs (lo + n) _ (by omega) (by omega) (ih fun i s h1 h2 => hs i s h1 (by omega))

theorem forRangeM_succ (f : σ → ℕ → Except ε σ) :
    forRangeM lo (n + 1) s f = (forRangeM lo n s f).bind fun s => f s (lo + n) := by
  simp only [forRangeM, List.range'_1_concat, List.foldlM_append]
  cases (List.range' lo n).foldlM f s with
  | error e => rfl
  | ok s =>
    show (List.foldlM f s [lo + n]) = f s (lo + n)
    rw [List.foldlM_cons]
    show ((f s (lo + n)).bind fun s => List.foldlM f s []) = f s (lo + n)
    cases f s (lo + n) <;> rfl

/-- **The invariant rule for a loop that returned.** -/
theorem forRangeM_inv {f : σ → ℕ → Except ε σ} {I : ℕ → σ → Prop} (h0 : I lo s)
    (hs : ∀ i s s', lo ≤ i → i < lo + n → I i s → f s i = .ok s' → I (i + 1) s')
    (hr : forRangeM lo n s f = .ok s') : I (lo + n) s' := by
  induction n generalizing s' with
  | zero => cases hr; exact h0
  | succ n ih =>
    rw [forRangeM_succ] at hr
    cases hm : forRangeM lo n s f with
    | error e => rw [hm] at hr; cases hr
    | ok s₁ =>
      rw [hm] at hr
      exact hs (lo + n) _ _ (by omega) (by omega) (ih (fun i s s' h1 h2 => hs i s s' h1 (by omega)) hm) hr

/-- **A loop whose body never fails under the invariant returns.** -/
theorem forRangeM_ok {f : σ → ℕ → Except ε σ} {I : ℕ → σ → Prop} (h0 : I lo s)
    (hs : ∀ i s, lo ≤ i → i < lo + n → I i s → ∃ s', f s i = .ok s' ∧ I (i + 1) s') :
    ∃ s', forRangeM lo n s f = .ok s' ∧ I (lo + n) s' := by
  induction n with
  | zero => exact ⟨s, rfl, h0⟩
  | succ n ih =>
    obtain ⟨s₁, h1, h2⟩ := ih fun i s h1 h2 => hs i s h1 (by omega)
    obtain ⟨s₂, h3, h4⟩ := hs _ s₁ (by omega) (by omega) h2
    exact ⟨s₂, by rw [forRangeM_succ, h1]; exact h3, h4⟩

/-- **What a loop fails with** is what one of its rounds fails with. -/
theorem forRangeM_error {f : σ → ℕ → Except ε σ} {Q : ε → Prop} {e : ε} (hf : ∀ s i e, f s i = .error e → Q e)
    (h : forRangeM lo n s f = .error e) : Q e := by
  induction n with
  | zero => cases h
  | succ n ih =>
    rw [forRangeM_succ] at h
    cases hm : forRangeM lo n s f with
    | error e' =>
      rw [hm] at h
      cases h
      exact ih hm
    | ok s₁ =>
      rw [hm] at h
      exact hf s₁ (lo + n) e h

/-- **A loop that acts on its first hits**, `m` of them at most, is a loop over these. -/
theorem foldl_hits {γ : Type*} {P : γ → Prop} [DecidablePred P] (f : σ → γ → σ) (m n : ℕ) (s : σ) (l : List γ) :
    l.foldl (fun s k => if s.2 < m ∧ P k then (f s.1 k, s.2 + 1) else s) (s, n) =
      (((l.filter P).take (m - n)).foldl f s, n + ((l.filter P).take (m - n)).length) := by
  induction l generalizing s n with
  | nil => simp
  | cons k l ih =>
    rw [List.foldl_cons]
    by_cases hk : P k
    · rw [List.filter_cons_of_pos (by simpa using hk)]
      by_cases hn : n < m
      · obtain ⟨d, rfl⟩ := Nat.exists_eq_add_of_lt hn
        rw [if_pos ⟨hn, hk⟩, ih, show n + d + 1 - n = d + 1 by omega, show n + d + 1 - (n + 1) = d by omega,
          List.take_succ_cons, List.foldl_cons, List.length_cons, Nat.add_right_comm, Nat.add_assoc]
      · rw [if_neg fun h => hn h.1, ih, show m - n = 0 by omega]
        rfl
    · rw [List.filter_cons_of_neg (by simpa using hk), if_neg fun h => hk h.2, ih]

end ForLoop
