import Mathlib.Data.Nat.Notation
import Mathlib.Logic.Function.Basic
import Mathlib.Tactic.Common

/-!
# A terminal as a ring of cells

The cells of a screen of `rows` rows and `cols` columns, read row by row, are a ring with a place on it. A
character goes into the cell at the place and moves the place on by one; a line feed moves it to the start of
the next row and leaves the cells alone.

* `put_place`, `feed_place`: the new place by row and column.
-/

namespace Terminal

/-- What is sent to a terminal. -/
inductive Sign (α : Type*)
  | put (c : α)
  | feed

structure Tape (α : Type*) where
  place : ℕ
  cell : ℕ → α

variable {α : Type*} {rows cols x y : ℕ}

/-- One sign, on a screen of `rows` rows and `cols` columns. -/
def Tape.emit (rows cols : ℕ) (t : Tape α) : Sign α → Tape α
  | .put c => ⟨(t.place + 1) % (rows * cols), Function.update t.cell t.place c⟩
  | .feed => ⟨(t.place / cols + 1) * cols % (rows * cols), t.cell⟩

/-- The sign is sent to another place, and the place stays. -/
def Tape.emitAt (rows cols : ℕ) (t : Tape α) (p : ℕ) (c : Sign α) : Tape α :=
  { t with cell := (Tape.emit rows cols ⟨p, t.cell⟩ c).cell }

theorem row_of_place (hx : x < cols) : (y * cols + x) / cols = y := by
  rw [Nat.add_comm, Nat.add_mul_div_right _ _ (by omega), Nat.div_eq_of_lt hx, Nat.zero_add]

theorem place_lt (hx : x < cols) (hy : y < rows) : y * cols + x < rows * cols := by
  calc y * cols + x < (y + 1) * cols := by rw [Nat.succ_mul]; omega
    _ ≤ rows * cols := Nat.mul_le_mul_right _ hy

/-- A line feed comes to the start of the next row, the first row after the last. -/
theorem feed_place (hx : x < cols) : ((y * cols + x) / cols + 1) * cols % (rows * cols) = (y + 1) % rows * cols := by
  rw [row_of_place hx, Nat.mul_mod_mul_right]

/-- A character comes to the next column, at the end of a row to the start of the next one. -/
theorem put_place (hx : x < cols) (hy : y < rows) :
    (y * cols + x + 1) % (rows * cols) = if x + 1 < cols then y * cols + (x + 1) else (y + 1) % rows * cols := by
  split
  · rename_i h
    exact Nat.mod_eq_of_lt (place_lt h hy)
  · have hend : y * cols + x + 1 = (y + 1) * cols := by rw [Nat.succ_mul]; omega
    rw [hend, Nat.mul_mod_mul_right]

end Terminal
