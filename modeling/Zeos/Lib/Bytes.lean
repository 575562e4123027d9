import Mathlib.Data.Int.Basic
import Mathlib.Data.List.Basic
import Mathlib.Data.List.GetD
import Mathlib.Data.Nat.Notation
import Mathlib.Logic.Function.Basic
import Mathlib.Tactic.Common
import Zeos.Lib.Loop

/-!
# Bytes in memory

A memory has a byte at each address. Addresses do not wrap around: what a C program has at its pointers,
a variable or an array, never goes past the last one.

* `setLong_long`: **a long loaded and stored elsewhere** moves four bytes, whatever the two overlap in.
* `put`: a string stored; `put_append`: one stored behind another.
* `Moved`: a stretch of memory copied; `Moved.byte`, `Moved.long`: one byte or four more, as long as the
  destination does not run into what is still to be read (`Ahead`).
* `swaps_reverse`: **swapping the ends of a string, round after round inwards**, reverses it.
-/

namespace ByteMem

open ForLoop

abbrev Bytes := ℕ → BitVec 8

/-! ### Longs -/

/-- The long at `a`, the lowest byte first. -/
def long (m : Bytes) (a : ℕ) : BitVec 32 := m (a + 3) ++ m (a + 2) ++ m (a + 1) ++ m a

def setLong (m : Bytes) (a : ℕ) (w : BitVec 32) : Bytes := fun x =>
  if a ≤ x ∧ x < a + 4 then w.extractLsb' (8 * (x - a)) 8 else m x

variable {m m' : Bytes} {a b x p q n c i j : ℕ} {s t : List (BitVec 8)}

theorem long_byte (m : Bytes) (a : ℕ) (hi : i < 4) : (long m a).extractLsb' (8 * i) 8 = m (a + i) := by
  unfold long
  rcases (show i = 0 ∨ i = 1 ∨ i = 2 ∨ i = 3 by omega) with rfl | rfl | rfl | rfl
  all_goals
    simp only [BitVec.extractLsb'_append_eq_ite]
    simp

/-- A long is its bytes. -/
theorem append_bytes (w : BitVec 32) :
    w.extractLsb' 24 8 ++ w.extractLsb' 16 8 ++ w.extractLsb' 8 8 ++ w.extractLsb' 0 8 = w := by
  have h16 : w.extractLsb' 24 8 ++ w.extractLsb' 16 8 = w.extractLsb' 16 16 :=
    BitVec.extractLsb'_append_extractLsb'_eq_extractLsb' rfl
  have h8 : w.extractLsb' 16 16 ++ w.extractLsb' 8 8 = w.extractLsb' 8 24 :=
    BitVec.extractLsb'_append_extractLsb'_eq_extractLsb' rfl
  have h0 : w.extractLsb' 8 24 ++ w.extractLsb' 0 8 = w.extractLsb' 0 32 :=
    BitVec.extractLsb'_append_extractLsb'_eq_extractLsb' rfl
  rw [h16, h8, h0]
  exact BitVec.extractLsb'_eq_self

theorem long_ext {w : BitVec 32} (h : ∀ i < 4, w.extractLsb' (8 * i) 8 = m (a + i)) : w = long m a := by
  rw [← append_bytes w, long]
  exact congr (congrArg HAppend.hAppend (congr (congrArg HAppend.hAppend
    (congr (congrArg HAppend.hAppend (h 3 (by decide))) (h 2 (by decide)))) (h 1 (by decide)))) (h 0 (by decide))

theorem setLong_long : setLong m q (long m p) x = if q ≤ x ∧ x < q + 4 then m (p + (x - q)) else m x := by
  unfold setLong
  split
  · exact long_byte m p (by omega)
  · rfl

/-! ### Strings -/

/-- `s` stored at `a`. -/
def put (m : Bytes) (a : ℕ) (s : List (BitVec 8)) : Bytes := fun x =>
  if a ≤ x then s.getD (x - a) (m x) else m x

/-- `s` is in memory at `a`. -/
def Holds (m : Bytes) (a : ℕ) (s : List (BitVec 8)) : Prop := ∀ i (h : i < s.length), m (a + i) = s[i]

@[simp] theorem put_nil : put m a [] = m := by
  funext x
  simp [put]

theorem put_at (m : Bytes) (a : ℕ) (h : i < s.length) : put m a s (a + i) = s[i] := by
  rw [put, if_pos (Nat.le_add_right a i), Nat.add_sub_cancel_left, List.getD_eq_getElem _ _ h]

theorem put_off (h : ¬ (a ≤ x ∧ x < a + s.length)) : put m a s x = m x := by
  unfold put
  split
  · rw [List.getD_eq_default _ _ (by omega)]
  · rfl

theorem put_holds (m : Bytes) (a : ℕ) (s : List (BitVec 8)) : Holds (put m a s) a s := fun _ h => put_at m a h

/-- A string stored behind another one. -/
theorem put_append : put (put m a s) (a + s.length) t = put m a (s ++ t) := by
  funext x
  by_cases hx : a ≤ x
  · obtain ⟨i, rfl⟩ := Nat.exists_eq_add_of_le hx
    rcases Nat.lt_or_ge i s.length with hi | hi
    · rw [put_off (by omega), put_at _ _ hi, put_at _ _ (by rw [List.length_append]; omega),
        List.getElem_append_left hi]
    · obtain ⟨j, rfl⟩ := Nat.exists_eq_add_of_le hi
      by_cases hj : j < t.length
      · rw [← Nat.add_assoc, put_at _ _ hj, Nat.add_assoc, put_at _ _ (by rw [List.length_append]; omega),
          List.getElem_append_right hi]
        simp
      · rw [put_off (by omega), put_off (by omega), put_off (by rw [List.length_append]; omega)]
  · rw [put_off (by omega), put_off (by omega), put_off (by omega)]

/-- A byte stored is a string of one. -/
theorem update_eq_put (m : Bytes) (a : ℕ) (b : BitVec 8) : Function.update m a b = put m a [b] := by
  funext x
  by_cases hx : x = a
  · subst hx
    rw [Function.update_self]
    exact (put_at m x (i := 0) (s := [b]) (by simp)).symm
  · rw [Function.update_of_ne hx, put_off]
    simp
    omega

/-! ### Copies -/

/-- `m'` is `m` with the first `c` bytes at `start` copied to `dest`. -/
structure Moved (m : Bytes) (start dest c : ℕ) (m' : Bytes) : Prop where
  moved : ∀ i < c, m' (dest + i) = m (start + i)
  rest : ∀ x, ¬ (dest ≤ x ∧ x < dest + c) → m' x = m x

/-- Of `n` bytes copied in order none is overwritten before it is read. -/
def Ahead (start dest n : ℕ) : Prop := ∀ i j, i < j → j < n → dest + i ≠ start + j

variable {start dest : ℕ}

theorem Moved.zero (m : Bytes) (start dest : ℕ) : Moved m start dest 0 m :=
  ⟨fun i hi => absurd hi (Nat.not_lt_zero i), fun _ _ => rfl⟩

theorem Moved.unique {m₁ m₂ : Bytes} (h₁ : Moved m start dest c m₁) (h₂ : Moved m start dest c m₂) : m₁ = m₂ := by
  funext x
  by_cases hx : dest ≤ x ∧ x < dest + c
  · obtain ⟨i, rfl⟩ := Nat.exists_eq_add_of_le hx.1
    rw [h₁.moved i (by omega), h₂.moved i (by omega)]
  · rw [h₁.rest x hx, h₂.rest x hx]

/-- What has not been read yet is as it was. -/
theorem Moved.source (h : Moved m start dest c m') (hA : Ahead start dest n) (hc : c ≤ j) (hj : j < n) :
    m' (start + j) = m (start + j) := by
  refine h.rest _ fun hx => ?_
  obtain ⟨i, hi⟩ := Nat.exists_eq_add_of_le hx.1
  exact hA i j (by omega) hj hi.symm

theorem Moved.byte (h : Moved m start dest c m') (hA : Ahead start dest n) (hc : c < n) :
    Moved m start dest (c + 1) (Function.update m' (dest + c) (m' (start + c))) where
  moved i hi := by
    by_cases hic : i = c
    · rw [hic, Function.update_self]
      exact h.source hA le_rfl hc
    · rw [Function.update_of_ne (by omega)]
      exact h.moved i (by omega)
  rest x hx := by
    rw [Function.update_of_ne (by omega)]
    exact h.rest x (by omega)

/-- The four bytes are all read before the first of them is written. -/
theorem Moved.long (h : Moved m start dest c m') (hA : Ahead start dest n) (hc : c + 4 ≤ n) :
    Moved m start dest (c + 4) (setLong m' (dest + c) (long m' (start + c))) where
  moved i hi := by
    rw [setLong_long]
    split
    · rw [show start + c + (dest + i - (dest + c)) = start + i by omega]
      exact h.source hA (by omega) (by omega)
    · exact h.moved i (by omega)
  rest x hx := by
    rw [setLong_long, if_neg (by omega)]
    exact h.rest x (by omega)

/-! ### Reversing in place -/

/-- The bytes at `p` and `q` swapped. -/
def swap (m : Bytes) (p q : ℕ) : Bytes := Function.update (Function.update m p (m q)) q (m p)

theorem swap_apply (m : Bytes) (p q x : ℕ) : swap m p q x = if x = q then m p else if x = p then m q else m x := by
  unfold swap
  split
  · rename_i h
    rw [h, Function.update_self]
  · rename_i h
    rw [Function.update_of_ne h]
    split
    · rename_i h'
      rw [h', Function.update_self]
    · rename_i h'
      rw [Function.update_of_ne h']

/-- `m'` is `m` with the `n` bytes at `b` turned round, as far as `k` from either end. -/
structure Turned (m : Bytes) (b n k : ℕ) (m' : Bytes) : Prop where
  ends : ∀ j < n, j < k ∨ n ≤ j + k → m' (b + j) = m (b + (n - 1 - j))
  rest : ∀ x, ¬ (b ≤ x ∧ x < b + k ∨ b + (n - k) ≤ x ∧ x < b + n) → m' x = m x

theorem Turned.swap {k : ℕ} (h : Turned m b n k m') (hk : k < n / 2) :
    Turned m b n (k + 1) (swap m' (b + k) (b + (n - k - 1))) where
  ends j hj hjk := by
    rw [swap_apply]
    split
    · rw [h.rest _ (by omega)]
      congr 1
      omega
    split
    · rw [h.rest _ (by omega)]
      congr 1
      omega
    · exact h.ends j hj (by omega)
  rest x hx := by
    rw [swap_apply, if_neg (by omega), if_neg (by omega)]
    exact h.rest x (by omega)

/-- **Swapping the ends of a string**, round after round inwards, reverses it. -/
theorem swaps_reverse (m : Bytes) (b : ℕ) (s : List (BitVec 8)) :
    forRange 0 (s.length / 2) (put m b s) (fun m i => swap m (b + i) (b + (s.length - i - 1))) = put m b s.reverse := by
  have hT : Turned (put m b s) b s.length (0 + s.length / 2)
      (forRange 0 (s.length / 2) (put m b s) fun m i => swap m (b + i) (b + (s.length - i - 1))) := by
    refine forRange_inv (I := fun i m' => Turned (put m b s) b s.length i m') ⟨?_, fun _ _ => rfl⟩ ?_
    · intro j hj h
      omega
    · intro i m' _ hi h
      exact h.swap (by omega)
  generalize forRange 0 (s.length / 2) _ _ = m' at hT
  rw [Nat.zero_add] at hT
  funext x
  by_cases hx : b ≤ x ∧ x < b + s.length
  · obtain ⟨j, rfl⟩ := Nat.exists_eq_add_of_le hx.1
    rw [put_at _ _ (by rw [List.length_reverse]; omega), List.getElem_reverse]
    by_cases hj : j < s.length / 2 ∨ s.length ≤ j + s.length / 2
    · rw [hT.ends j (by omega) hj, put_at]
    · -- the middle byte of a string of odd length
      rw [hT.rest _ (by omega), put_at _ _ (by omega)]
      congr 1
      omega
  · rw [put_off (by rwa [List.length_reverse]), hT.rest _ (by omega), put_off hx]

end ByteMem
