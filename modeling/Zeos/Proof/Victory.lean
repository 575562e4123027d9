import Zeos.Proof.Shots

/-!
# How the game is won

The three sweeps of the aliens count those that they move, and a count of 0 sets `WIN`.

* `aliensDown_count`: the count of `aliens_down` is positive where there is an alien; for the other two this
  is `aliensSide_count`.
* `moveAliens_win`: `move_aliens` sets `WIN` where there is none.
* `victory_exact`: **so it does in every call, in every run**.
-/

namespace Zeos

open Execution GridSweep

variable {g : Game}

/-- The count of `aliens_down`, where there is an alien. -/
theorem aliensDownCell_raises : Raises (fun s p => Game.aliensDownCell s p.1 p.2) (fun s => 0 < s.2)
    (fun s p => s.1.aliens p = true) (fun p => (p.1 + 1, p.2)) where
  raises := by
    rintro ⟨b, n⟩ ⟨i, j⟩
    have ha : b.aliens (i, j) = (b i j).alien := rfl
    simp only [Game.aliensDownCell, ha]
    split
    · rename_i ha
      -- it counts, shot or not
      split
      · exact iff_of_true (Nat.succ_pos n) (.inr ha)
      · exact iff_of_true (Nat.succ_pos n) (.inr ha)
    · rename_i ha
      exact (or_iff_left ha).symm
  frame := by
    intro s p q h1 h2
    rw [(aliensDownCell_moves s.1).moves s p q rfl]
    exact ⟨fun h => h.elim (fun h => absurd h.2.2 h2) (·.1), fun h => .inr ⟨h, Ne.symm h1⟩⟩

theorem aliensDown_count {b : Board} (h : InField b) :
    0 < (forCells (downTo 22 3) Game.columns (b, 0) Game.aliensDownCell).2 ↔ ∃ i j, (b i j).alien = true := by
  rw [forCells_eq, foldl_raises (s := (b, 0)) aliensDownCell_raises down_pairwise, or_iff_right (Nat.lt_irrefl 0)]
  constructor
  · rintro ⟨p, -, ha⟩
    exact ⟨p.1, p.2, ha⟩
  · rintro ⟨i, j, ha⟩
    obtain ⟨h1, h2, h3, h4⟩ := h i j ha
    exact ⟨(i, j), by simp; omega, ha⟩

/-- The end of a sweep, if its count is positive where there is an alien. -/
theorem swept_win {s : Board × ℕ} (h : 0 < s.2 ↔ ∃ i j, (g.board i j).alien = true) (hw : g.win = false) :
    (g.swept s).win = true ↔ ∀ i j, (g.board i j).alien = false := by
  have hset : (g.swept s).win = if s.2 = 0 then true else g.win := rfl
  rw [hset, hw]
  split
  · rename_i h0
    refine iff_of_true rfl fun i j => Bool.eq_false_iff.2 fun ha => ?_
    have := h.2 ⟨i, j, ha⟩
    omega
  · rename_i h0
    obtain ⟨i, j, ha⟩ := h.1 (by omega)
    refine iff_of_false Bool.false_ne_true fun hnone => ?_
    rw [hnone i j] at ha
    cases ha

/-- **`move_aliens`** sets `WIN` if and only if there is no alien, as one of the flags is always set. -/
theorem moveAliens_win (hF : Formation g) (hx : g.xAliens ≤ 17) (hw : g.win = false) :
    g.moveAliens.win = true ↔ ∀ i j, (g.board i j).alien = false := by
  have hI := hF.inField hx
  have hdown : g.aliensDown.win = true ↔ ∀ i j, (g.board i j).alien = false := by
    rw [Game.aliensDown]
    exact swept_win (aliensDown_count hI) hw
  have hright : g.aliensRight.win = true ↔ ∀ i j, (g.board i j).alien = false := by
    rw [Game.aliensRight]
    exact swept_win (aliensSide_count hI (fun j => by simp) right_pairwise) hw
  have hleft : g.aliensLeft.win = true ↔ ∀ i j, (g.board i j).alien = false := by
    rw [Game.aliensLeft]
    exact swept_win (aliensSide_count hI (fun j => by simp) left_pairwise) hw
  -- one branch for each flag; the `LOSE` and the flags that are set afterwards do not touch `WIN`
  rcases hF.flag with ⟨hr, hl, hd⟩ | ⟨hr, hl, hd⟩ | ⟨hr, hl, hd⟩
  · rw [← hright, Game.moveAliens, if_neg (by simp [hd]), if_pos hr]
    generalize g.aliensRight = g'
    dsimp only
    split <;> rfl
  · rw [← hleft, Game.moveAliens, if_neg (by simp [hd]), if_neg (by simp [hr]), if_pos hl]
    generalize g.aliensLeft = g'
    dsimp only
    split <;> rfl
  · rw [← hdown, Game.moveAliens, if_pos hd]
    generalize g.aliensDown = g'
    dsimp only
    split_ifs <;> rfl

/-! ### What leaves `WIN` alone -/

theorem moveShoots_win (g : Game) : g.moveShoots.win = g.win := by
  obtain ⟨b, l, h⟩ := moveShootsAliens_rest g.cancelShoots
  rw [Game.moveShoots, Game.moveShootsShip, h]
  dsimp only
  rw [Game.cancelShoots]

theorem iaShootAlien_win (g : Game) (clock : Word) : (g.iaShootAlien clock).win = g.win := by
  simp only [Game.iaShootAlien, Game.iaShootAlienShots]
  split
  · refine foldl_const (g := fun s : (Game × List Shot) × ℕ => s.1.1.win) (fun s k => ?_) _ ((g, []), 0)
    split <;> rfl
  · rfl

theorem shipRight_win (g : Game) : g.shipRight.win = g.win := by
  unfold Game.shipRight
  dsimp only
  split_ifs <;> rfl

theorem shipLeft_win (g : Game) : g.shipLeft.win = g.win := by
  unfold Game.shipLeft
  dsimp only
  split_ifs <;> rfl

theorem makeShipShoot_win (g : Game) : g.makeShipShoot.win = g.win := by
  unfold Game.makeShipShoot
  dsimp only
  split_ifs <;> rfl

theorem pressed_win (g : Game) (key : Option Byte) : (g.pressed key).win = g.win := by
  unfold Game.pressed
  split
  · rfl
  split
  · exact shipLeft_win g
  split
  · exact shipRight_win g
  split
  · exact makeShipShoot_win g
  · rfl

/-! ### Runs -/

/-- The formation as `move_aliens` finds it. -/
theorem moveShoots_formation (hF : Formation g) (hx : g.xAliens ≤ 17) :
    Formation g.moveShoots ∧ g.moveShoots.xAliens ≤ 17 := by
  have h := (moveShootsAliens_formation g.cancelShoots).trans (cancelShoots_formation g)
  obtain ⟨-, hx', -⟩ := formation_fields h
  obtain ⟨hF', -⟩ := moveShootsShip_formation (hF.congr h) (hx'.trans_le hx)
  exact ⟨hF', (moveShootsShip_rest _).1.trans_le (hx'.trans_le hx)⟩

/-- **Victory is detected exactly.** In every state that the main loop reaches with `LOSE` and `WIN` at 0,
whatever key it reads next, `ia_move` sets `WIN` if and only if no alien is left on the board as its
`move_aliens` starts. -/
theorem victory_exact {tr : Trace Game Game.Input Unit} (hr : Run gameSystem tr g) (hl : g.lose = false)
    (hw : g.win = false) (key : Option Byte) (clock : Word) :
    ((g.pressed key).iaMove clock).win = true ↔
      ∀ i j, OnBoard i j → ((g.pressed key).moveShoots.board i j).alien = false := by
  obtain ⟨hF, hx⟩ := run_formation hr
  have hf := pressed_formation g key
  obtain ⟨-, hx', -⟩ := formation_fields hf
  obtain ⟨hF₁, hx₁⟩ := moveShoots_formation (hF.congr hf) (hx'.trans_le (hx.resolve_right (by simp [hl])))
  have hw₁ : (g.pressed key).moveShoots.win = false := (moveShoots_win _).trans ((pressed_win g key).trans hw)
  rw [Game.iaMove, iaShootAlien_win, moveAliens_win hF₁ hx₁ hw₁]
  refine ⟨fun h i j _ => h i j, fun h i j => Bool.eq_false_iff.2 fun ha => ?_⟩
  -- an alien is never off the board
  have hin := hF₁.inField hx₁ i j ha
  have hb : OnBoard i j := by
    simp only [OnBoard, numRows, numColumns]
    omega
  rw [h i j hb] at ha
  cases ha

/-- The first move of the game, with all aliens on the board. -/
theorem victory_exact_first : Run gameSystem [] (Game.initBoard {}) ∧
    ¬ (((Game.initBoard {}).pressed none).iaMove 2).win = true := by
  obtain ⟨hl, hw⟩ := initBoard_rest {}
  have hr : Run gameSystem [] (Game.initBoard {}) := .init rfl
  refine ⟨hr, fun h => ?_⟩
  have hnone := (victory_exact hr hl hw none 2).1 h 3 2 ⟨by decide, by decide, by decide, by decide⟩
  set g₀ := Game.initBoard {} with hg₀
  have hmoves := (moveShoots_unshot (g := g₀) fun i j => (initBoard_shots i j).1).1
  obtain ⟨ha, -⟩ := formation_fields (moveShootsAliens_formation g₀)
  have halien : (g₀.board 3 2).alien = true := initBoard_alien.2 (by unfold IsOffset; decide)
  rw [aliens_eq] at halien
  have hkey : g₀.pressed none = g₀ := rfl
  rw [hkey, aliens_eq, hmoves, ha, halien] at hnone
  cases hnone

end Zeos
