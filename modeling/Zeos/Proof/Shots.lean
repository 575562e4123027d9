import Zeos.Proof.AtOnce

/-!
# Where the shots go

What `move_shoots` leaves of the shots of both sides, cell by cell.

* `cancelShoots_shipShot`, `moveShootsAliens_shield`, `moveShootsShip_shot`: what the three sweeps do to the
  shots of the ship and to the shields.
* `moveShoots_alienShot`, `moveShoots_shipShot`: **the three together**. Their tests for two shots in one cell
  never make a difference.
-/

namespace Zeos

open Execution GridSweep

variable {b : Board} {g : Game} {i j : ℤ} {p q : ℤ × ℤ}

/-! ### The three sweeps -/

theorem cancelShootsCell_shipShots : Removes (fun b p => Game.cancelShootsCell b p.1 p.2)
    (fun b p => b.layer Cell.shipShoot (p.1 + 1, p.2) = true) (fun b p => b.layer Cell.alienShoot p = true) id where
  removes := by
    rintro b ⟨i, j⟩ q
    have hs : b.layer Cell.alienShoot (i, j) = (b i j).alienShoot := rfl
    have hq : ((q.1 + 1, q.2) = (i + 1, j)) ↔ q = (i, j) := by
      rw [Prod.ext_iff, Prod.ext_iff]
      dsimp only
      omega
    simp only [Game.cancelShootsCell, hs]
    split
    · rename_i h
      rw [layer_clear (f := (·.setShipShoot false)) fun _ => rfl, layer_set (f := (·.setAlienShoot false)) fun _ => rfl,
        and_iff_left h.1, ne_eq, hq]
    · rename_i h
      refine ⟨fun h1 => ⟨h1, ?_⟩, (·.1)⟩
      rintro ⟨rfl, h2⟩
      exact h ⟨h2, h1⟩
  shots := by
    rintro b ⟨i, j⟩ q hq -
    simp only [Game.cancelShootsCell]
    split
    · rw [layer_set (f := (·.setShipShoot false)) fun _ => rfl, layer_clear (f := (·.setAlienShoot false)) fun _ => rfl]
      exact and_iff_left (Ne.symm hq)
    · exact Iff.rfl

/-- **`cancel_shoots`** takes away the shots of the ship that are below one of the aliens. -/
theorem cancelShoots_shipShot (h : ShotsIn g.board) : (g.cancelShoots.board i j).shipShoot = true ↔
    (g.board i j).shipShoot = true ∧ (g.board (i - 1) j).alienShoot = false := by
  have hπ : (cells (upTo 2 23) Game.columns).Pairwise fun p q => p ≠ q ∧ id p ≠ q :=
    up_pairwise.imp fun h => ⟨h.1, h.1⟩
  have hs := foldl_removes (s := g.board) (q := (i - 1, j)) cancelShootsCell_shipShots hπ
  rw [show ((i - 1, j).1 + 1, (i - 1, j).2) = (i, j) from Prod.ext (by simp) rfl] at hs
  rw [layer_eq Cell.shipShoot, Game.cancelShoots, forCells_eq, hs]
  refine and_congr_right fun _ => ?_
  -- every shot of the aliens is in the rows of the sweep
  have hmem : (g.board (i - 1) j).alienShoot = true → (i - 1, j) ∈ cells (upTo 2 23) Game.columns := by
    intro ha
    have hij := h.alien _ _ ha
    simp
    omega
  rw [← Bool.not_eq_true]
  exact not_congr ⟨fun h => h.2, fun h => ⟨hmem h, h⟩⟩

theorem moveShootsAliensCell_shields : Removes (fun g p => Game.moveShootsAliensCell g p.1 p.2)
    (fun g p => g.board.layer Cell.shield p = true) (fun g p => g.board.layer Cell.alienShoot p = true)
    (fun p => (p.1 + 1, p.2)) where
  removes := by
    rintro g ⟨i, j⟩ q
    have hs : g.board.layer Cell.alienShoot (i, j) = (g.board i j).alienShoot := rfl
    -- a shot on no shield leaves all shields
    have hnone : g.board.layer Cell.shield (i, j) ≠ true → (g.board.layer Cell.shield q = true ↔
        g.board.layer Cell.shield q = true ∧ q ≠ (i, j)) := by
      intro hd
      refine ⟨fun h => ⟨h, ?_⟩, (·.1)⟩
      rintro rfl
      exact hd h
    simp only [Game.moveShootsAliensCell, hs]
    split
    · rename_i hshot
      dsimp only
      rw [layer_set (f := (·.setAlienShoot false)) fun _ => rfl, hshot, eq_self_iff_true, and_true]
      split
      · rw [layer_clear (f := (·.setShield false)) fun _ => rfl]
      split
      · rename_i hd _
        rw [layer_set (f := (·.setAlienShoot true)) fun _ => rfl]
        exact hnone hd
      · rename_i hd _
        exact hnone hd
    · rename_i hshot
      exact ⟨fun h => ⟨h, fun h' => hshot h'.2⟩, (·.1)⟩
  shots := by
    intro g p q h1 h2
    rw [moveShootsAliensCell_carries.carries g p q]
    exact ⟨fun h => h.elim (fun h => absurd h.2.2 h2) (·.1), fun h => .inr ⟨h, Ne.symm h1⟩⟩

/-- **`move_shoots_aliens`** takes away the shields on a shot of the aliens. -/
theorem moveShootsAliens_shield (h : ShotsIn g.board) : (g.moveShootsAliens.board i j).shield = true ↔
    (g.board i j).shield = true ∧ (g.board i j).alienShoot = false := by
  have hs := foldl_removes (s := g) (q := (i, j)) moveShootsAliensCell_shields shots_pairwise
  rw [layer_eq Cell.shield, Game.moveShootsAliens, forCells_eq, hs]
  refine and_congr_right fun _ => ?_
  have hmem : (g.board i j).alienShoot = true → (i, j) ∈ cells (downTo 23 2) Game.columns := by
    intro ha
    have hij := h.alien _ _ ha
    simp
    omega
  rw [← Bool.not_eq_true]
  exact not_congr ⟨fun h => h.2, fun h => ⟨hmem h, h⟩⟩

/-- The shot of the ship at `p` goes on up. -/
def Climbs (b : Board) (p : ℤ × ℤ) : Prop :=
  (b p.1 p.2).alien = false ∧ (b (p.1 - 1) p.2).shield = false ∧ 3 ≤ p.1 ∧
    ((b p.1 p.2).alienShoot = false ∨ (b (p.1 - 1) p.2).alienShoot = false)

theorem climbs_iff : Climbs b (i, j) ↔ (b i j).alien = false ∧ (b (i - 1) j).shield = false ∧ 3 ≤ i ∧
    ((b i j).alienShoot = false ∨ (b (i - 1) j).alienShoot = false) := Iff.rfl

theorem mem_moveShootsShip_puts {z : Spot} : z ∈ (moveShootsShipRule b p).puts ↔
    z = ((p.1 - 1, p.2), .shipShoot) ∧ b.on (p, .shipShoot) = true ∧ Climbs b p := by
  have ha : b.on (p, .alien) = (b p.1 p.2).alien := rfl
  have hd : b.on ((p.1 - 1, p.2), .shield) = (b (p.1 - 1) p.2).shield := rfl
  have h1 : b.on (p, .alienShoot) = (b p.1 p.2).alienShoot := rfl
  have h2 : b.on ((p.1 - 1, p.2), .alienShoot) = (b (p.1 - 1) p.2).alienShoot := rfl
  unfold moveShootsShipRule Climbs
  rw [ha, hd, h1, h2]
  split_ifs with hs hal hgo
  · simp [hal]
  · simp [hs, hal, hgo]
  · simp [hgo]
  · simp [hs]

theorem mem_moveShootsShip_clears : ((q, .shipShoot) : Spot) ∈ (moveShootsShipRule b p).clears ↔
    q = p ∧ b.on (p, .shipShoot) = true := by
  unfold moveShootsShipRule
  split_ifs with hs hal hgo
  · simp [hs]
  · simp [hs]
  · simp [hs]
  · simp [hs]

/-- **`move_shoots_ship`** moves every shot of the ship a row up, less those that are stopped. -/
theorem moveShootsShip_shot (h : ShotsIn g.board) : (g.moveShootsShip.board i j).shipShoot = true ↔
    (g.board (i + 1) j).shipShoot = true ∧ Climbs g.board (i + 1, j) := by
  have hon : ∀ b : Board, (b i j).shipShoot = b.on ((i, j), .shipShoot) := fun _ => rfl
  rw [hon, (moveShootsShip_atOnce g).board, atOnce_on]
  simp only [mem_moveShootsShip_puts, mem_moveShootsShip_clears]
  constructor
  · rintro (⟨p, -, hp, hs, hc⟩ | ⟨hs, hclear⟩)
    · injection hp with hp
      injection hp with h1 h2
      obtain rfl : p = (i + 1, j) := Prod.ext (by simp only; omega) h2.symm
      exact ⟨hs, hc⟩
    · -- a shot on its way leaves its cell
      have hij := h.ship i j hs
      exact absurd ⟨rfl, hs⟩ (hclear (i, j) (by simp; omega))
  · rintro ⟨hs, hc⟩
    have hij := h.ship _ _ hs
    exact .inl ⟨(i + 1, j), by simp; omega, by simp, hs, hc⟩

/-! ### The shots of both sides together -/

theorem moveShoots_alienShot (h : ShotsIn g.board) : (g.moveShoots.board i j).alienShoot = true ↔
    (g.board (i - 1) j).alienShoot = true ∧ (g.board i j).shipShoot = false ∧ (g.board (i - 1) j).shield = false ∧
      i ≤ 23 := by
  have h₁ := cancelShoots_shots h
  have hship : (g.moveShoots.board i j).alienShoot = (g.cancelShoots.moveShootsAliens.board i j).alienShoot := by
    rw [Game.moveShoots, layer_eq Cell.alienShoot, moveShootsShip_layer (fun _ _ => rfl) fun _ _ => rfl,
      ← layer_eq Cell.alienShoot]
  have hshield : (g.cancelShoots.board (i - 1) j).shield = (g.board (i - 1) j).shield := by
    rw [layer_eq Cell.shield, cancelShoots_layer (fun _ _ => rfl) fun _ _ => rfl, ← layer_eq Cell.shield]
  rw [hship, moveShootsAliens_shot h₁, cancelShoots_shot h, advances_iff, hshield, show i - 1 + 1 = i by omega, and_assoc]
  refine and_congr_right fun _ => and_congr_right fun hs => and_congr_right fun _ => ?_
  -- the test for a shot of the ship in the same cell never fails here
  have hclear : (g.cancelShoots.board i j).shipShoot = false := by
    refine Bool.eq_false_iff.2 fun h' => ?_
    rw [((cancelShoots_shipShot h).1 h').1] at hs
    cases hs
  rw [and_iff_left (Or.inr hclear)]
  simp only [numRows]
  omega

theorem moveShoots_shipShot (h : ShotsIn g.board) : (g.moveShoots.board i j).shipShoot = true ↔
    (g.board (i + 1) j).shipShoot = true ∧ (g.board i j).alienShoot = false ∧ (g.board (i + 1) j).alien = false ∧
      (g.board i j).shield = false ∧ 2 ≤ i := by
  have h₁ := cancelShoots_shots h
  have h₂ := moveShootsAliens_shots h₁
  have hshot : (g.cancelShoots.moveShootsAliens.board (i + 1) j).shipShoot = (g.cancelShoots.board (i + 1) j).shipShoot := by
    rw [layer_eq Cell.shipShoot, moveShootsAliens_layer (fun _ _ => rfl) fun _ _ => rfl, ← layer_eq Cell.shipShoot]
  have halien : (g.cancelShoots.moveShootsAliens.board (i + 1) j).alien = (g.board (i + 1) j).alien := by
    rw [layer_eq Cell.alien, moveShootsAliens_layer (fun _ _ => rfl) fun _ _ => rfl,
      cancelShoots_layer (fun _ _ => rfl) fun _ _ => rfl, ← layer_eq Cell.alien]
  rw [Game.moveShoots, moveShootsShip_shot h₂, climbs_iff, hshot, cancelShoots_shipShot h, halien,
    show i + 1 - 1 = i by omega, and_assoc]
  refine and_congr_right fun _ => and_congr_right fun ha => and_congr_right fun _ => ?_
  have hnone : (g.cancelShoots.board i j).alienShoot = false := by
    refine Bool.eq_false_iff.2 fun h' => ?_
    rw [((cancelShoots_shot h).1 h').1] at ha
    cases ha
  -- neither does the one for a shot of the aliens
  have hbelow : (g.cancelShoots.moveShootsAliens.board (i + 1) j).alienShoot = false := by
    refine Bool.eq_false_iff.2 fun h' => ?_
    have := ((moveShootsAliens_shot h₁).1 h').1
    rw [show i + 1 - 1 = i by omega, hnone] at this
    cases this
  have hshield : (g.cancelShoots.moveShootsAliens.board i j).shield = false ↔ (g.board i j).shield = false := by
    rw [← Bool.not_eq_true, moveShootsAliens_shield h₁, and_iff_left hnone, layer_eq Cell.shield,
      cancelShoots_layer (fun _ _ => rfl) fun _ _ => rfl, ← layer_eq Cell.shield, Bool.not_eq_true]
  rw [hshield, and_iff_left (Or.inl hbelow)]
  refine and_congr_right fun _ => ?_
  omega

end Zeos
