import Mathlib.Data.List.Range
import Mathlib.Data.Nat.Notation
import Mathlib.Logic.Function.Basic
import Mathlib.Tactic.Common

/-!
# Bounded queues in a ring

A ring buffer of `N` cells with a head, a tail and a flag that tells a full ring from
an empty one, both of which have head and tail equal.

* `Circular.push_toList`, `Circular.push_full`, `Circular.pop_toList`, `Circular.pop_empty`: **push and
  pop are those of a queue of at most `N` elements.**
* `Circular.count`: the number of elements, from head, tail and flag.
* `run_fifo`: **what was taken in is what was given out and what is still there**, in
  order, over any sequence of operations.
-/

namespace RingBuffer

variable {α : Type*} {N : ℕ} {x : α} {xs : List α}

structure Circular (α : Type*) where
  buff : ℕ → α
  head : ℕ
  tail : ℕ
  full : Bool

namespace Circular

/-- The indices are in the ring, and head and tail meet when it is full. -/
structure Valid (N : ℕ) (r : Circular α) : Prop where
  head_lt : r.head < N
  tail_lt : r.tail < N
  full_eq : r.full = true → r.head = r.tail

def push (N : ℕ) (r : Circular α) (x : α) : Circular α :=
  if r.full = true then r
  else
    { r with
      buff := Function.update r.buff r.head x
      head := (r.head + 1) % N
      full := decide ((r.head + 1) % N = r.tail) }

def pop (N : ℕ) (r : Circular α) : Option α × Circular α :=
  if r.head = r.tail ∧ r.full = false then (none, r)
  else (some (r.buff r.tail), { r with tail := (r.tail + 1) % N, full := false })

/-- The number of elements. -/
def count (N : ℕ) (r : Circular α) : ℕ :=
  if r.head < r.tail then r.head + N - r.tail
  else if r.tail < r.head then r.head - r.tail
  else if r.full = true then N else 0

/-- The elements, the oldest first. -/
def toList (N : ℕ) (r : Circular α) : List α := (List.range (r.count N)).map fun i => r.buff ((r.tail + i) % N)

variable {r : Circular α}

/-! ### Indices -/

theorem next_eq {i : ℕ} (h : i < N) : (i + 1) % N = if i + 1 = N then 0 else i + 1 := by
  split
  · rename_i he
    rw [he, Nat.mod_self]
  · exact Nat.mod_eq_of_lt (by omega)

theorem index_eq {t i : ℕ} (ht : t < N) (hi : i ≤ N) : (t + i) % N = if t + i < N then t + i else t + i - N := by
  split
  · exact Nat.mod_eq_of_lt (by assumption)
  · rw [Nat.mod_eq_sub_mod (by omega)]
    rcases Nat.lt_or_ge (t + i - N) N with h | h
    · exact Nat.mod_eq_of_lt h
    · omega

theorem push_room (N : ℕ) (x : α) (hf : r.full = false) : r.push N x =
    { r with
      buff := Function.update r.buff r.head x
      head := (r.head + 1) % N
      full := decide ((r.head + 1) % N = r.tail) } := by
  rw [Circular.push, if_neg (by simp [hf])]

@[simp] theorem length_toList : (r.toList N).length = r.count N := by simp [toList]

namespace Valid

variable (h : r.Valid N)

include h

/-- The three positions of head and tail. -/
theorem count_cases : (r.full = true ∧ r.head = r.tail ∧ r.count N = N) ∨
    (r.full = false ∧ r.tail ≤ r.head ∧ r.count N = r.head - r.tail) ∨
    (r.full = false ∧ r.head < r.tail ∧ r.count N = r.head + N - r.tail) := by
  cases hf : r.full with
  | true =>
    have he := h.full_eq hf
    exact .inl ⟨rfl, he, by simp [count, he, hf]⟩
  | false =>
    right
    rcases Nat.lt_or_ge r.head r.tail with hlt | hge
    · exact .inr ⟨rfl, hlt, by simp [count, hlt]⟩
    · refine .inl ⟨rfl, hge, ?_⟩
      simp only [count, hf, if_neg (Nat.not_lt.2 hge)]
      split
      · rfl
      · simp
        omega

theorem count_le : r.count N ≤ N := by
  have h1 := h.head_lt
  have h2 := h.tail_lt
  rcases h.count_cases with ⟨-, -, hc⟩ | ⟨-, hle, hc⟩ | ⟨-, hlt, hc⟩ <;> omega

theorem full_iff : r.full = true ↔ r.count N = N := by
  have h1 := h.head_lt
  have h2 := h.tail_lt
  rcases h.count_cases with ⟨hf, -, hc⟩ | ⟨hf, hle, hc⟩ | ⟨hf, hlt, hc⟩
  · exact iff_of_true hf hc
  · exact iff_of_false (by simp [hf]) (by omega)
  · exact iff_of_false (by simp [hf]) (by omega)

theorem empty_iff : r.head = r.tail ∧ r.full = false ↔ r.count N = 0 := by
  have h1 := h.head_lt
  have h2 := h.tail_lt
  rcases h.count_cases with ⟨hf, -, hc⟩ | ⟨hf, hle, hc⟩ | ⟨hf, hlt, hc⟩
  · exact iff_of_false (by simp [hf]) (by omega)
  · rw [hc, and_iff_left hf]
    omega
  · exact iff_of_false (by omega) (by omega)

/-- Behind the last element is the head. -/
theorem index_count : (r.tail + r.count N) % N = r.head := by
  have h1 := h.head_lt
  have h2 := h.tail_lt
  rw [index_eq h2 h.count_le]
  rcases h.count_cases with ⟨-, he, hc⟩ | ⟨-, hle, hc⟩ | ⟨-, hlt, hc⟩ <;> rw [hc] <;> split <;> omega

/-- No element is in the cell of the head, unless the ring is full. -/
theorem index_ne {i : ℕ} (hi : i < r.count N) (hf : r.full = false) : (r.tail + i) % N ≠ r.head := by
  have h1 := h.head_lt
  have h2 := h.tail_lt
  rw [index_eq h2 (le_of_lt (lt_of_lt_of_le hi h.count_le))]
  rcases h.count_cases with ⟨hf', -⟩ | ⟨-, hle, hc⟩ | ⟨-, hlt, hc⟩
  · rw [hf] at hf'
    cases hf'
  · split <;> omega
  · split <;> omega

theorem push (x : α) : (r.push N x).Valid N := by
  unfold Circular.push
  split
  · exact h
  · exact ⟨Nat.mod_lt _ (lt_of_le_of_lt (Nat.zero_le _) h.head_lt), h.tail_lt, by simp⟩

theorem pop : (r.pop N).2.Valid N := by
  unfold Circular.pop
  split
  · exact h
  · exact ⟨h.head_lt, Nat.mod_lt _ (lt_of_le_of_lt (Nat.zero_le _) h.head_lt), by simp⟩

theorem pop_some (hn : r.count N ≠ 0) :
    r.pop N = (some (r.buff r.tail), { r with tail := (r.tail + 1) % N, full := false }) := by
  rw [Circular.pop, if_neg (mt h.empty_iff.1 hn)]

theorem push_count (hf : r.full = false) : (r.push N x).count N = r.count N + 1 := by
  have h1 := h.head_lt
  have h2 := h.tail_lt
  have hr := push_room N x hf
  have hn := next_eq h1
  have hfull : (r.push N x).full = true ↔ (r.head + 1) % N = r.tail := by rw [hr]; simp
  have hhead : (r.push N x).head = (r.head + 1) % N := by rw [hr]
  have htail : (r.push N x).tail = r.tail := by rw [hr]
  have hc := h.count_cases
  have hc' := (h.push x).count_cases
  rw [hhead, htail, hfull, hn, ← Bool.not_eq_true, hfull, hn] at hc'
  rw [hf] at hc
  simp only [Bool.false_eq_true, false_and, false_or, true_and] at hc
  split at hc' <;> omega

theorem pop_count (hn : r.count N ≠ 0) : (r.pop N).2.count N + 1 = r.count N := by
  have h1 := h.head_lt
  have h2 := h.tail_lt
  have hr : (r.pop N).2 = { r with tail := (r.tail + 1) % N, full := false } := congrArg Prod.snd (h.pop_some hn)
  have hnext := next_eq h2
  have hc := h.count_cases
  have hc' := h.pop.count_cases
  rw [hr] at hc' ⊢
  by_cases hw : r.tail + 1 = N
  · rw [if_pos hw] at hnext
    simp only [Bool.false_eq_true, false_and, false_or, true_and, hnext] at hc' ⊢
    omega
  · rw [if_neg hw] at hnext
    simp only [Bool.false_eq_true, false_and, false_or, true_and, hnext] at hc' ⊢
    omega

/-- **A push onto a ring that is not full appends.** -/
theorem push_toList (x : α) (hf : r.full = false) : (r.push N x).toList N = r.toList N ++ [x] := by
  have hr := push_room N x hf
  have hbuff : ∀ i, (r.push N x).buff i = if i = r.head then x else r.buff i := fun i => by
    rw [hr]
    exact Function.update_apply r.buff r.head x i
  have htail : (r.push N x).tail = r.tail := by rw [hr]
  rw [toList, h.push_count hf, List.range_succ, List.map_append, toList, htail]
  congr 1
  · refine List.map_congr_left fun i hi => ?_
    rw [hbuff, if_neg (h.index_ne (List.mem_range.1 hi) hf)]
  · simp [hbuff, h.index_count]

/-- **A pop of a ring that is not empty takes the oldest element.** -/
theorem pop_toList (hn : r.count N ≠ 0) :
    ∃ y, (r.pop N).1 = some y ∧ r.toList N = y :: (r.pop N).2.toList N := by
  have hr := h.pop_some hn
  refine ⟨r.buff r.tail, by rw [hr], ?_⟩
  rw [toList, ← h.pop_count hn, List.range_succ_eq_map, List.map_cons, List.map_map, toList]
  congr 1
  · rw [Nat.add_zero, Nat.mod_eq_of_lt h.tail_lt]
  · refine List.map_congr_left fun i _ => ?_
    have hi : (r.tail + (i + 1)) % N = ((r.tail + 1) % N + i) % N := by
      rw [Nat.mod_add_mod, Nat.add_assoc, Nat.add_comm 1]
    simp only [Function.comp, Nat.succ_eq_add_one, hi, hr]

theorem pop_empty (hn : r.count N = 0) : r.pop N = (none, r) := if_pos (h.empty_iff.2 hn)

theorem push_full (x : α) (hn : r.count N = N) : r.push N x = r := if_pos (h.full_iff.2 hn)

theorem full_false (hn : r.count N < N) : r.full = false := by
  rw [← Bool.not_eq_true, h.full_iff]
  omega

end Valid

end Circular

/-! ### Runs -/

inductive Op (α : Type*)
  | push (x : α)
  | pop

variable {ops : List (Op α)} {r : Circular α}

/-- One operation, with what it gives out. -/
def Circular.step (N : ℕ) (r : Circular α) : Op α → Option α × Circular α
  | .push x => (none, r.push N x)
  | .pop => r.pop N

/-- The ring after the operations `ops`, latest first. -/
def run (N : ℕ) (r : Circular α) : List (Op α) → Circular α
  | [] => r
  | op :: ops => ((run N r ops).step N op).2

/-- What the pushes of `ops` took in, the first first. -/
def accepted (N : ℕ) (r : Circular α) : List (Op α) → List α
  | [] => []
  | .push x :: ops => accepted N r ops ++ if (run N r ops).count N < N then [x] else []
  | .pop :: ops => accepted N r ops

/-- What the pops of `ops` gave out, the first first. -/
def popped (N : ℕ) (r : Circular α) : List (Op α) → List α
  | [] => []
  | .push _ :: ops => popped N r ops
  | .pop :: ops => popped N r ops ++ ((run N r ops).pop N).1.toList

theorem run_valid (h : r.Valid N) : ∀ ops, (run N r ops).Valid N
  | [] => h
  | .push x :: ops => (run_valid h ops).push x
  | .pop :: ops => (run_valid h ops).pop

/-- **First in, first out.** -/
theorem run_fifo (h : r.Valid N) (h0 : r.count N = 0) (ops : List (Op α)) :
    accepted N r ops = popped N r ops ++ (run N r ops).toList N := by
  induction ops with
  | nil => simp [accepted, popped, run, Circular.toList, h0]
  | cons op ops ih =>
    have hv := run_valid h ops
    cases op with
    | push x =>
      show accepted N r ops ++ (if (run N r ops).count N < N then [x] else []) =
        popped N r ops ++ ((run N r ops).push N x).toList N
      rw [ih]
      split
      · rename_i hlt
        rw [hv.push_toList x (hv.full_false hlt), List.append_assoc]
      · rename_i hge
        rw [hv.push_full x (by have := hv.count_le; omega), List.append_nil]
    | pop =>
      show accepted N r ops = popped N r ops ++ ((run N r ops).pop N).1.toList ++ ((run N r ops).pop N).2.toList N
      rw [ih]
      by_cases hn : (run N r ops).count N = 0
      · rw [hv.pop_empty hn]
        simp
      · obtain ⟨y, hy, hl⟩ := hv.pop_toList hn
        rw [hl, hy]
        simp

end RingBuffer
