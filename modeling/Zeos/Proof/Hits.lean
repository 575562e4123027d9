import Zeos.Proof.Confined

/-!
# Shots of the aliens on the ship

`move_shoots_aliens` looks for the ship on the cell that a shot leaves, `shoot_colision` on the cells that
the ship has come to.

* `moveShootsAliens_shot`, `moveShootsAliens_lose`: the sweep of the aliens' shots moves each shot by a row, and
  the shots it finds on the ship lose the game.
* `iaMove_struck`: the shots on the ship after the moves of a round.
* `hits_punished_iff`: **a shot on the ship loses the game** in exactly the runs in which none comes
  from the cell above.
-/

namespace Zeos

open Execution GridSweep

variable {b : Board} {g g' : Game} {i j r c d x y : ℤ} {p q : ℤ × ℤ} {v : Bool} {f : Cell → Cell}
  {R : ℤ → ℤ → Prop} {A : Cell → Bool}

/-! ### Marks of a layer -/

theorem layer_clear (h : ∀ c, A (f c) = false) : (b.set i j f).layer A q = true ↔ b.layer A q = true ∧ q ≠ (i, j) :=
  clear_mark h q

theorem layer_put (h : ∀ c, A (f c) = true) : (b.set i j f).layer A q = true ↔ q = (i, j) ∨ b.layer A q = true :=
  put_mark h q

/-- A store into another cell. -/
theorem set_other (h : q ≠ (i, j)) : (b.set i j f) q.1 q.2 = b q.1 q.2 := by rw [set_cell, if_neg h]

/-! ### The shields -/

/-- The shields are in rows 18 and 19, right of column 9. -/
def ShieldsIn (b : Board) : Prop := Within Cell.shield (fun i j => 18 ≤ i ∧ i ≤ 19 ∧ 9 < j) b

theorem ShieldsIn.clear (h : ShieldsIn b) : ShieldsIn (b.set i j (·.setShield false)) :=
  Within.set h fun _ h => absurd h Bool.false_ne_true

theorem ShieldsIn.setAlien (h : ShieldsIn b) : ShieldsIn (b.set i j (·.setAlien v)) := Within.set h fun _ => id

theorem ShieldsIn.setShip (h : ShieldsIn b) : ShieldsIn (b.set i j (·.setShip v)) := Within.set h fun _ => id

theorem ShieldsIn.setShipShoot (h : ShieldsIn b) : ShieldsIn (b.set i j (·.setShipShoot v)) :=
  Within.set h fun _ => id

theorem ShieldsIn.setAlienShoot (h : ShieldsIn b) : ShieldsIn (b.set i j (·.setAlienShoot v)) :=
  Within.set h fun _ => id

theorem ShieldsIn.congr {b' : Board} (h : ShieldsIn b) (hb : b'.layer Cell.shield = b.layer Cell.shield) :
    ShieldsIn b' := by
  intro i j hs
  rw [layer_eq Cell.shield, hb] at hs
  exact h i j hs

theorem moveShootsAliens_shields (h : ShieldsIn g.board) : ShieldsIn g.moveShootsAliens.board := by
  unfold Game.moveShootsAliens
  rw [forCells_eq]
  refine List.foldlRecOn (motive := fun g : Game => ShieldsIn g.board) _ _ h fun g h p _ => ?_
  simp only [Game.moveShootsAliensCell]
  split
  · refine ShieldsIn.setAlienShoot ?_
    split
    · exact h.clear
    split
    · exact h.setAlienShoot
    · exact h
  · exact h

theorem aliensDown_shields (h : ShieldsIn g.board) : ShieldsIn g.aliensDown.board := by
  unfold Game.aliensDown
  rw [swept_board, forCells_eq]
  refine List.foldlRecOn (motive := fun s : Board × ℕ => ShieldsIn s.1) _ _ h fun s h p _ => ?_
  simp only [Game.aliensDownCell]
  split
  · split
    · split
      · exact h.setAlien.setAlien.clear
      · exact h.setAlien.setAlien
    · exact h.setAlien
  · exact h

theorem aliensSide_shields {rows cols : List ℤ} (h : ShieldsIn b) :
    ShieldsIn (forCells rows cols (b, 0) (Game.aliensSideCell d)).1 := by
  rw [forCells_eq]
  refine List.foldlRecOn (motive := fun s : Board × ℕ => ShieldsIn s.1) _ _ h fun s h p _ => ?_
  simp only [Game.aliensSideCell]
  split
  · split
    · exact h.clear.setAlien.setAlien
    · exact h.setAlien.setAlien
  · exact h

theorem moveAliens_shields (h : ShieldsIn g.board) : ShieldsIn g.moveAliens.board := by
  rcases moveAliens_board g with hb | hb | hb | hb
  · rw [hb]
    exact aliensDown_shields h
  · rw [hb, Game.aliensRight, swept_board]
    exact aliensSide_shields h
  · rw [hb, Game.aliensLeft, swept_board]
    exact aliensSide_shields h
  · rw [hb]
    exact h

/-! ### The sweep of the aliens' shots -/

/-- The shot at `p` goes on down. -/
def Advances (b : Board) (p : ℤ × ℤ) : Prop :=
  (b p.1 p.2).shield = false ∧ p.1 < numRows - 2 ∧
    ((b p.1 p.2).shipShoot = false ∨ (b (p.1 + 1) p.2).shipShoot = false)

theorem advances_iff : Advances b (i, j) ↔ (b i j).shield = false ∧ i < numRows - 2 ∧
    ((b i j).shipShoot = false ∨ (b (i + 1) j).shipShoot = false) := Iff.rfl

theorem moveShootsAliensCell_carries : Carries (fun g p => Game.moveShootsAliensCell g p.1 p.2)
    (fun g p => g.board.layer Cell.alienShoot p = true) (fun g p => Advances g.board p) (fun p => (p.1 + 1, p.2)) where
  carries := by
    rintro g ⟨i, j⟩ q
    have hs : g.board.layer Cell.alienShoot (i, j) = (g.board i j).alienShoot := rfl
    simp only [Game.moveShootsAliensCell, Advances, hs]
    split
    · rename_i hs
      dsimp only
      rw [layer_clear (f := (·.setAlienShoot false)) fun _ => rfl, hs, eq_self_iff_true, true_and]
      split
      -- a shield takes the shot
      · rename_i hd
        rw [layer_set (f := (·.setShield false)) fun _ => rfl, hd]
        exact ⟨.inr, fun h => h.resolve_left fun h => absurd h.1.1 Bool.true_eq_false.mp⟩
      split
      -- the shot goes a row down
      · rename_i hd hi
        have hne : ((i + 1, j) : ℤ × ℤ) ≠ (i, j) := fun h => by
          injection h
          omega
        rw [layer_put (f := (·.setAlienShoot true)) fun _ => rfl]
        constructor
        · rintro ⟨h | h, hq⟩
          · exact .inl ⟨⟨Bool.not_eq_true _ ▸ hd, hi⟩, h.symm⟩
          · exact .inr ⟨h, hq⟩
        · rintro (⟨-, rfl⟩ | ⟨h, hq⟩)
          · exact ⟨.inl rfl, hne⟩
          · exact ⟨.inr h, hq⟩
      -- it does neither, and is gone
      · rename_i hi
        exact ⟨.inr, fun h => h.resolve_left fun h => hi h.1.2⟩
    · rename_i hs'
      refine ⟨fun h => .inr ⟨h, ?_⟩, fun h => h.elim (fun h => absurd h.1 hs') (·.1)⟩
      rintro rfl
      exact hs' h
  frame := by
    rintro g ⟨i, j⟩ q hq -
    have hshot := moveShootsAliensCell_layer (A := Cell.shipShoot) (fun _ _ => rfl) (fun _ _ => rfl) g i j
    -- a cell takes a shield from itself only
    have hshield : (g.moveShootsAliensCell i j).board.layer Cell.shield q = g.board.layer Cell.shield q := by
      simp only [Game.moveShootsAliensCell]
      split
      · dsimp only
        rw [layer_set (f := (·.setAlienShoot false)) fun _ => rfl]
        split
        · unfold Board.layer
          rw [set_other (Ne.symm hq)]
        split
        · rw [layer_set (f := (·.setAlienShoot true)) fun _ => rfl]
        · rfl
      · rfl
    unfold Advances
    rw [layer_eq Cell.shield, layer_eq Cell.shipShoot, layer_eq Cell.shipShoot, hshot, hshield]
    rfl

theorem shots_pairwise : (cells (downTo 23 2) Game.columns).Pairwise fun p q => p ≠ q ∧ (p.1 + 1, p.2) ≠ q :=
  cells_ahead (downTo_pairwise 23 2) (upTo_pairwise _ _) fun i j i' j' h => by omega

/-- **`move_shoots_aliens`** moves every shot of the aliens a row down, less those that are stopped. -/
theorem moveShootsAliens_shot (h : ShotsIn g.board) : (g.moveShootsAliens.board i j).alienShoot = true ↔
    (g.board (i - 1) j).alienShoot = true ∧ Advances g.board (i - 1, j) := by
  have hs := foldl_carries (s := g) (q := (i, j)) moveShootsAliensCell_carries shots_pairwise
  rw [layer_eq Cell.alienShoot, Game.moveShootsAliens, forCells_eq, hs]
  constructor
  · rintro (⟨p, -, hm, hk, hp⟩ | ⟨hm, hout⟩)
    · injection hp with h1 h2
      rw [show (i - 1, j) = p from Prod.ext (by omega) h2.symm, show i - 1 = p.1 by omega, ← h2]
      exact ⟨hm, hk⟩
    · have hij := h.alien i j hm
      exact absurd (by simp; omega) hout
  · rintro ⟨hm, hk⟩
    have hij := h.alien _ _ hm
    exact .inl ⟨(i - 1, j), by simp; omega, hm, hk, by simp⟩

/-- A shot of the aliens on a cell of the ship. -/
def Struck (g : Game) (i j : ℤ) : Prop := (g.board i j).ship = true ∧ (g.board i j).alienShoot = true

/-- `LOSE` is set on the way where the sweep finds a shot on the ship. -/
theorem moveShootsAliensCell_raises : Raises (fun g p => Game.moveShootsAliensCell g p.1 p.2)
    (fun g => g.lose = true) (fun g p => Struck g p.1 p.2) (fun p => (p.1 + 1, p.2)) where
  raises := by
    rintro g ⟨i, j⟩
    have hship : ∀ b : Board, b.layer Cell.ship = g.board.layer Cell.ship → (b i j).ship = (g.board i j).ship :=
      fun b h => congrFun h (i, j)
    simp only [Game.moveShootsAliensCell, Struck]
    split
    · rename_i hs
      dsimp only
      rw [hship _ (by
        split
        · rw [layer_set (f := (·.setShield false)) fun _ => rfl]
        split
        · rw [layer_set (f := (·.setAlienShoot true)) fun _ => rfl]
        · rfl)]
      split
      · rename_i h
        exact iff_of_true rfl (.inr ⟨h, hs⟩)
      · rename_i h
        exact ⟨.inl, fun h' => h'.resolve_right fun h' => h h'.1⟩
    · rename_i hs
      exact ⟨.inl, fun h => h.resolve_right fun h => hs h.2⟩
  frame := by
    intro g p q h1 h2
    have hship := moveShootsAliensCell_layer (A := Cell.ship) (fun _ _ => rfl) (fun _ _ => rfl) g p.1 p.2
    have hs := moveShootsAliensCell_carries.carries g p q
    unfold Struck
    rw [layer_eq Cell.ship, layer_eq Cell.alienShoot, hship, hs]
    refine and_congr_right fun _ => ?_
    exact ⟨fun h => h.elim (fun h => absurd h.2.2 h2) (·.1), fun h => .inr ⟨h, Ne.symm h1⟩⟩

theorem moveShootsAliens_lose (h : ShotsIn g.board) : g.moveShootsAliens.lose = true ↔
    g.lose = true ∨ ∃ i j, Struck g i j := by
  have hs := foldl_raises (s := g) moveShootsAliensCell_raises shots_pairwise
  rw [Game.moveShootsAliens, forCells_eq, hs]
  refine or_congr_right ⟨?_, ?_⟩
  · rintro ⟨p, -, hp⟩
    exact ⟨p.1, p.2, hp⟩
  · rintro ⟨i, j, hij⟩
    have h' := h.alien i j hij.2
    exact ⟨(i, j), by simp; omega, hij⟩

/-! ### The other moves of a round -/

theorem cancelShootsCell_removes : Removes (fun b p => Game.cancelShootsCell b p.1 p.2)
    (fun b p => b.layer Cell.alienShoot p = true) (fun b p => b.layer Cell.shipShoot (p.1 + 1, p.2) = true) id where
  removes := by
    rintro b ⟨i, j⟩ q
    have hs : b.layer Cell.alienShoot (i, j) = (b i j).alienShoot := rfl
    have hs' : b.layer Cell.shipShoot (i + 1, j) = (b (i + 1) j).shipShoot := rfl
    simp only [Game.cancelShootsCell, hs']
    split
    · rename_i h
      rw [layer_set (f := (·.setShipShoot false)) fun _ => rfl, layer_clear (f := (·.setAlienShoot false)) fun _ => rfl,
        and_iff_left h.2]
    · rename_i h
      refine ⟨fun hq => ⟨hq, ?_⟩, (·.1)⟩
      rintro ⟨rfl, h2⟩
      exact h ⟨hq, h2⟩
  shots := by
    rintro b ⟨i, j⟩ q hq -
    simp only [Game.cancelShootsCell]
    split
    · have hne : (q.1 + 1, q.2) ≠ (i + 1, j) := by
        intro h
        injection h with h1 h2
        exact hq (Prod.ext (by simp only; omega) h2.symm)
      rw [layer_clear (f := (·.setShipShoot false)) fun _ => rfl, layer_set (f := (·.setAlienShoot false)) fun _ => rfl]
      exact and_iff_left hne
    · exact Iff.rfl

/-- **`cancel_shoots`** takes away the shots of the aliens that are above one of the ship. -/
theorem cancelShoots_shot (h : ShotsIn g.board) : (g.cancelShoots.board i j).alienShoot = true ↔
    (g.board i j).alienShoot = true ∧ (g.board (i + 1) j).shipShoot = false := by
  have hπ : (cells (upTo 2 23) Game.columns).Pairwise fun p q => p ≠ q ∧ id p ≠ q :=
    up_pairwise.imp fun h => ⟨h.1, h.1⟩
  have hs := foldl_removes (s := g.board) (q := (i, j)) cancelShootsCell_removes hπ
  rw [layer_eq Cell.alienShoot, Game.cancelShoots, forCells_eq, hs]
  refine and_congr_right fun hm => ?_
  have hij := h.alien i j hm
  have hmem : (i, j) ∈ cells (upTo 2 23) Game.columns := by
    simp
    omega
  rw [and_iff_right hmem, Bool.not_eq_true]
  rfl

/-- Where there is no alien, `ia_shoot_alien` makes no shot. -/
theorem iaShootAlien_shot (h0 : 0 ≤ g.lastShoot) (ha : (g.board i j).alien = false) (clock : Word) :
    ((g.iaShootAlien clock).board i j).alienShoot = (g.board i j).alienShoot := by
  simp only [Game.iaShootAlien, Game.iaShootAlienShots]
  split
  · refine List.foldlRecOn (motive := fun s : (Game × List Shot) × ℕ => (s.1.1.board i j).alienShoot =
      (g.board i j).alienShoot) _ _ rfl fun s hs k hk => ?_
    split
    · rename_i hc
      have hcell := isAlien_alien g k.toNat hc.2
      have hk0 : 0 ≤ k := Int.le_trans h0 (mem_upTo.1 hk).1
      rw [Int.toNat_of_nonneg hk0] at hcell
      have hne : (i, j) ≠ (g.isAlien.getD k.toNat 0, k) := by
        intro h
        injection h with h1 h2
        rw [← h1, ← h2, ha] at hcell
        cases hcell
      have hset := set_other (b := s.1.1.board) (f := (·.setAlienShoot true)) hne
      exact (congrArg Cell.alienShoot hset).trans hs
    · exact hs
  · rfl

theorem swept_lose (g : Game) (s : Board × ℕ) : (g.swept s).lose = g.lose := rfl

theorem moveAliens_lose (g : Game) : g.moveAliens.lose = true ↔
    g.lose = true ∨ g.moveDown = true ∧ 17 ≤ g.xAliens := by
  have d1 : g.aliensDown.lose = g.lose := swept_lose g _
  have d2 : g.aliensDown.xAliens = g.xAliens := (swept_rest g _).1
  have r1 : g.aliensRight.lose = g.lose := swept_lose g _
  have l1 : g.aliensLeft.lose = g.lose := swept_lose g _
  unfold Game.moveAliens
  split
  · rename_i hd
    simp only [d2]
    by_cases hx : 18 ≤ g.xAliens + 1
    · have hx' : g.moveDown = true ∧ 17 ≤ g.xAliens := ⟨hd, by omega⟩
      simp only [if_pos hx]
      split_ifs <;> exact iff_of_true rfl (.inr hx')
    · have hx' : ¬ (g.moveDown = true ∧ 17 ≤ g.xAliens) := fun h => hx (by omega)
      simp only [if_neg hx]
      split_ifs <;> simp only [d1, hx', or_false]
  · rename_i hd
    have hd' : ¬ (g.moveDown = true ∧ 17 ≤ g.xAliens) := fun h => hd h.1
    simp only [hd', or_false]
    split_ifs <;> simp only [r1, l1]

/-! ### Rounds -/

/-- A shot on the ship has lost the game. -/
def Punished (g : Game) : Prop := ∀ i j, Struck g i j → g.lose = true

theorem Struck.shipCell (hC : Confined g) (h : Struck g i j) : ShipCell g.yShip i j := (hC.ship i j).1 h.1

/-- The shots on the ship after the sweep come from the cell above. -/
theorem moveShootsAliens_struck (hC : Confined g) (hS : ShieldsIn g.board) :
    Struck g.cancelShoots.moveShootsAliens i j ↔
      (g.board i j).ship = true ∧ (g.board (i - 1) j).alienShoot = true := by
  have hC₁ := hC.keep (cancelShoots_scene g) (cancelShoots_shots hC.shotsIn)
  have hship : (g.cancelShoots.moveShootsAliens.board i j).ship = (g.board i j).ship := by
    rw [layer_eq Cell.ship, moveShootsAliens_layer (fun _ _ => rfl) fun _ _ => rfl,
      cancelShoots_layer (fun _ _ => rfl) fun _ _ => rfl]
    rfl
  unfold Struck
  rw [hship, moveShootsAliens_shot hC₁.shotsIn, cancelShoots_shot hC.shotsIn]
  refine and_congr_right fun hs => ?_
  have hcell := (hC.ship i j).1 hs
  have hx : xShip = 23 := rfl
  have hrow : 22 ≤ i ∧ i ≤ 23 := by
    unfold ShipCell at hcell
    omega
  -- no shot of the ship and no shield is so far down
  have hnone : ∀ g : Game, Confined g → (g.board i j).shipShoot = false := fun g hg =>
    Bool.eq_false_iff.2 fun h => by
      have := hg.shots i j h
      omega
  have hshield : (g.cancelShoots.board (i - 1) j).shield = false := by
    rw [layer_eq Cell.shield, cancelShoots_layer (fun _ _ => rfl) fun _ _ => rfl]
    refine Bool.eq_false_iff.2 fun h => ?_
    have := hS (i - 1) j h
    omega
  have hadv : Advances g.cancelShoots.board (i - 1, j) := by
    refine advances_iff.2 ⟨hshield, ?_, .inr ?_⟩
    · simp only [numRows]
      omega
    · rw [show i - 1 + 1 = i by omega]
      exact hnone _ hC₁
  rw [and_iff_left hadv, show i - 1 + 1 = i by omega, and_iff_left (hnone g hC)]

theorem moveShootsShip_lose (g : Game) : g.moveShootsShip.lose = g.lose := by rw [Game.moveShootsShip]

/-- What loses the game in the moves of a round, if no shot is on the ship before. -/
theorem iaMove_lose (hC : Confined g) (hp : Punished g) (clock : Word) : (g.iaMove clock).lose = true ↔
    g.lose = true ∨ g.moveDown = true ∧ 17 ≤ g.xAliens := by
  have hC₁ := hC.keep (cancelShoots_scene g) (cancelShoots_shots hC.shotsIn)
  obtain ⟨-, hx, -, -, -, hd⟩ := formation_fields
    ((moveShootsAliens_formation g.cancelShoots).trans (cancelShoots_formation g))
  obtain ⟨hx', -, -, -, hd'⟩ := moveShootsShip_rest g.cancelShoots.moveShootsAliens
  have hl₁ : g.cancelShoots.lose = g.lose := by rw [Game.cancelShoots]
  -- shots are only taken away before the sweep
  have hstruck : (∃ i j, Struck g.cancelShoots i j) → g.lose = true := by
    rintro ⟨i, j, h1, h2⟩
    rw [layer_eq Cell.ship, cancelShoots_layer (fun _ _ => rfl) fun _ _ => rfl] at h1
    exact hp i j ⟨h1, ((cancelShoots_shot hC.shotsIn).1 h2).1⟩
  rw [Game.iaMove, (iaShootAlien_formation _ clock).2, moveAliens_lose, Game.moveShoots, moveShootsShip_lose, hx', hx,
    hd', hd, moveShootsAliens_lose hC₁.shotsIn, hl₁]
  exact or_congr_left (or_iff_left_of_imp hstruck)

/-- From the shots of the ship on, while the game goes on. -/
theorem moved_struck (h : Placed g) (hx : g.xAliens ≤ 17) {clock : Word}
    (hl : (g.moveShootsShip.moveAliens.iaShootAlien clock).lose = false) :
    Struck (g.moveShootsShip.moveAliens.iaShootAlien clock) i j ↔ Struck g i j := by
  have h₂ := moveShootsShip_placed h hx
  have hx₂ := (moveShootsShip_rest g).1.trans_le hx
  have h₃ := moveAliens_placed h₂ hx₂
  rw [(iaShootAlien_formation _ clock).2] at hl
  have hx₃ := (moveAliens_formation h₂.formation hx₂).2.1.resolve_right (by simp [hl])
  have hlayer : g.moveShootsShip.moveAliens.board.layer (fun c => (c.ship, c.alienShoot)) =
      g.board.layer fun c => (c.ship, c.alienShoot) :=
    (moveAliens_layer (fun _ _ => rfl) (fun _ _ => rfl) _).trans
      (moveShootsShip_layer (fun _ _ => rfl) (fun _ _ => rfl) g)
  obtain ⟨hship, hshot⟩ := Prod.mk.inj (congrFun hlayer (i, j))
  have hship₄ := iaShootAlien_layer (A := Cell.ship) (fun _ _ => rfl) g.moveShootsShip.moveAliens clock
  unfold Struck
  rw [layer_eq Cell.ship, hship₄, ← layer_eq Cell.ship, hship]
  refine and_congr_right fun hs => ?_
  -- the aliens are above the ship
  have hcell := (h.confined.ship i j).1 hs
  have hxs : xShip = 23 := rfl
  have ha : (g.moveShootsShip.moveAliens.board i j).alien = false := by
    refine Bool.eq_false_iff.2 fun ha => ?_
    have hrow := (h₃.formation.inField hx₃ i j ha).2.1
    unfold ShipCell at hcell
    omega
  have h0 := h₃.target.column.1
  rw [iaShootAlien_shot (by omega) ha, hshot]

/-- **The shots on the ship after the moves of a round**, if the game goes on. -/
theorem iaMove_struck (h : Placed g) (hx : g.xAliens ≤ 17) (hS : ShieldsIn g.board) {clock : Word}
    (hl : (g.iaMove clock).lose = false) :
    Struck (g.iaMove clock) i j ↔ (g.board i j).ship = true ∧ (g.board (i - 1) j).alienShoot = true := by
  have h₁ := moveShootsAliens_placed (cancelShoots_placed h)
  obtain ⟨-, hx₁, -⟩ := formation_fields
    ((moveShootsAliens_formation g.cancelShoots).trans (cancelShoots_formation g))
  have hs := moved_struck (i := i) (j := j) h₁ (hx₁.trans_le hx) hl
  exact hs.trans (moveShootsAliens_struck h.confined hS)

/-- An alien shot one cell above a cell of the ship. -/
def Over (g : Game) (i j : ℤ) : Prop := (g.board i j).alienShoot = true ∧ (g.board (i + 1) j).ship = true

/-- **The moves of a round** leave no shot on the ship unpunished if and only if none comes from the cell
above, or the game is lost otherwise. -/
theorem iaMove_punished (h : Placed g) (hx : g.xAliens ≤ 17) (hS : ShieldsIn g.board) (hp : Punished g)
    (clock : Word) : Punished (g.iaMove clock) ↔
      g.lose = true ∨ (g.moveDown = true ∧ 17 ≤ g.xAliens) ∨ ∀ i j, ¬ Over g i j := by
  have hlose := iaMove_lose h.confined hp clock
  by_cases hl : (g.iaMove clock).lose = true
  · refine iff_of_true (fun _ _ _ => hl) ?_
    exact (hlose.1 hl).imp_right .inl
  · have hn := mt hlose.2 hl
    rw [not_or] at hn
    rw [or_iff_right hn.1, or_iff_right hn.2]
    have hl' : (g.iaMove clock).lose = false := Bool.eq_false_iff.2 hl
    constructor
    · rintro hpun i j ⟨h1, h2⟩
      refine hl (hpun (i + 1) j ((iaMove_struck h hx hS hl').2 ⟨h2, ?_⟩))
      rwa [show i + 1 - 1 = i by omega]
    · intro hover i j hs
      obtain ⟨h1, h2⟩ := (iaMove_struck h hx hS hl').1 hs
      refine absurd ⟨h2, ?_⟩ (hover (i - 1) j)
      rwa [show i - 1 + 1 = i by omega]

/-! ### Keys -/

/-- `shoot_colision` looks at every cell of the ship. -/
theorem shootColision_struck (hC : Confined g) (hs : Struck g i j) : g.shootColision = true := by
  have hcell := hs.shipCell hC
  have hshot := hs.2
  have hcases : i = xShip ∧ j = g.yShip ∨ i = xShip - 1 ∧ j = g.yShip ∨ i = xShip ∧ j = g.yShip - 1 ∨
      i = xShip ∧ j = g.yShip - 2 ∨ i = xShip ∧ j = g.yShip + 1 ∨ i = xShip ∧ j = g.yShip + 2 := by
    unfold ShipCell at hcell
    omega
  unfold Game.shootColision
  rcases hcases with ⟨rfl, rfl⟩ | ⟨rfl, rfl⟩ | ⟨rfl, rfl⟩ | ⟨rfl, rfl⟩ | ⟨rfl, rfl⟩ | ⟨rfl, rfl⟩ <;> simp [hshot]

/-- The check at the end of a move of the ship. -/
theorem checked_punished (hC : Confined (if g.shootColision = true then { g with lose := true } else g)) :
    Punished (if g.shootColision = true then { g with lose := true } else g) := by
  split at hC
  · rename_i hcol
    rw [if_pos hcol]
    exact fun _ _ _ => rfl
  · rename_i hcol
    rw [if_neg hcol]
    exact fun i j hs => absurd (shootColision_struck hC hs) hcol

theorem shipRight_punished (hC : Confined g) (hp : Punished g) : Punished g.shipRight := by
  have hC' := shipRight_confined hC
  unfold Game.shipRight at hC' ⊢
  split
  · rename_i hy
    rw [if_pos hy] at hC'
    exact checked_punished hC'
  · exact hp

theorem shipLeft_punished (hC : Confined g) (hp : Punished g) : Punished g.shipLeft := by
  have hC' := shipLeft_confined hC
  unfold Game.shipLeft at hC' ⊢
  split
  · rename_i hy
    rw [if_pos hy] at hC'
    exact checked_punished hC'
  · exact hp

theorem makeShipShoot_punished (hp : Punished g) : Punished g.makeShipShoot := by
  have hshoot : Punished { g with board := g.board.set (xShip - 2) g.yShip (·.setShipShoot true) } := by
    rintro i j ⟨h1, h2⟩
    rw [layer_eq Cell.ship, layer_set (f := (·.setShipShoot true)) fun _ => rfl] at h1
    rw [layer_eq Cell.alienShoot, layer_set (f := (·.setShipShoot true)) fun _ => rfl] at h2
    exact hp i j ⟨h1, h2⟩
  unfold Game.makeShipShoot
  simp only []
  split_ifs
  · exact hshoot
  · exact hshoot
  · exact hp

/-- **A key** leaves no shot on the ship unpunished. -/
theorem pressed_punished (hC : Confined g) (hp : Punished g) (key : Option Byte) : Punished (g.pressed key) := by
  unfold Game.pressed
  split
  · exact hp
  split
  · exact shipLeft_punished hC hp
  split
  · exact shipRight_punished hC hp
  split
  · exact makeShipShoot_punished hp
  · exact hp

/-! ### Shields in a run -/

theorem shipRight_shields (h : ShieldsIn g.board) : ShieldsIn g.shipRight.board := by
  unfold Game.shipRight
  split
  · simp only []
    split_ifs
    · exact h.setShip.setShip.setShip.setShip
    · exact h.setShip.setShip.setShip.setShip
  · exact h

theorem shipLeft_shields (h : ShieldsIn g.board) : ShieldsIn g.shipLeft.board := by
  unfold Game.shipLeft
  split
  · simp only []
    split_ifs
    · exact h.setShip.setShip.setShip.setShip
    · exact h.setShip.setShip.setShip.setShip
  · exact h

theorem makeShipShoot_shields (h : ShieldsIn g.board) : ShieldsIn g.makeShipShoot.board := by
  unfold Game.makeShipShoot
  simp only []
  split_ifs
  · exact h.setShipShoot
  · exact h.setShipShoot
  · exact h

theorem pressed_shields (h : ShieldsIn g.board) (key : Option Byte) : ShieldsIn (g.pressed key).board := by
  unfold Game.pressed
  split
  · exact h
  split
  · exact shipLeft_shields h
  split
  · exact shipRight_shields h
  split
  · exact makeShipShoot_shields h
  · exact h

theorem iaMove_shields (h : ShieldsIn g.board) (clock : Word) : ShieldsIn (g.iaMove clock).board := by
  have h₁ := h.congr (cancelShoots_layer (fun _ _ => rfl) (fun _ _ => rfl) g)
  have h₂ := moveShootsAliens_shields h₁
  have h₃ := h₂.congr (moveShootsShip_layer (fun _ _ => rfl) (fun _ _ => rfl) _)
  have h₄ := moveAliens_shields h₃
  exact h₄.congr (iaShootAlien_layer (fun _ _ => rfl) _ clock)

theorem round_shields (h : ShieldsIn g.board) (inp : Game.Input) : ShieldsIn (g.round inp).board := by
  have h' := pressed_shields h inp.key
  unfold Game.round
  dsimp only
  split
  · exact iaMove_shields h' inp.clock
  · exact h'

theorem initCell_shields (h : ShieldsIn b) : ShieldsIn (g.initCell b i j) := by
  unfold Game.initCell
  extract_lets b₁ s₁ s₂ s₃ s₄ s₅ b₂ b₃ b₄
  have h₁ : ShieldsIn b₁ := by
    simp only [b₁]
    split
    · exact Within.set h fun _ => id
    · exact h
  have h₂ : ShieldsIn b₂ := by
    simp only [b₂]
    split
    · exact h₁.setShip.setShip.setShip.setShip.setShip.setShip
    · exact h₁
  have h₃ : ShieldsIn b₃ := by
    simp only [b₃]
    split
    · exact h₂.setAlien
    · exact h₂
  have h₄ : ShieldsIn b₄ := by
    simp only [b₄]
    split
    · exact h₃.setAlien
    · exact h₃
  split
  · rename_i hd
    have hz : deadZone = 19 := rfl
    exact Within.put h₄ (by omega)
  · exact h₄

theorem initBoard_shields : ShieldsIn (Game.initBoard {}).board := by
  unfold Game.initBoard
  dsimp only
  rw [forCells_eq]
  refine List.foldlRecOn (motive := ShieldsIn) _ _ (fun i j h => ?_) fun b h p _ => initCell_shields h
  exact absurd h Bool.false_ne_true

/-! ### Runs -/

theorem initBoard_punished : Punished (Game.initBoard {}) := by
  rintro i j ⟨-, h⟩
  rw [(initBoard_shots i j).2] at h
  cases h

variable {tr : Trace Game Game.Input Unit}

theorem run_shields (hr : Run gameSystem tr g) : ShieldsIn g.board := by
  refine hr.invariant (P := fun g : Game => ShieldsIn g.board) (fun g h => ?_) ?_
  · cases h
    exact initBoard_shields
  · rintro g inp - _ h ⟨-, -, rfl⟩
    exact round_shields h inp

/-- In the round that reads `inp`, no shot of the aliens is one cell above the ship when the moves
begin, if they do and do not lose the game anyhow. -/
def Spared (g : Game) (inp : Game.Input) : Prop :=
  let g := g.pressed inp.key
  g.Due inp.now → g.lose = true ∨ (g.moveDown = true ∧ 17 ≤ g.xAliens) ∨ ∀ i j, ¬ Over g i j

theorem round_punished (h : Placed g) (hx : g.xAliens ≤ 17) (hS : ShieldsIn g.board) (hp : Punished g)
    (inp : Game.Input) : Punished (g.round inp) ↔ Spared g inp := by
  have h₁ := pressed_placed h inp.key
  have hp₁ := pressed_punished h.confined hp inp.key
  obtain ⟨-, hx₁, -⟩ := formation_fields (pressed_formation g inp.key)
  have hm := iaMove_punished h₁ (hx₁.trans_le hx) (pressed_shields hS inp.key) hp₁ inp.clock
  unfold Game.round Spared
  dsimp only
  split
  · rename_i hdue
    rw [forall_prop_of_true hdue, ← hm]
    exact Iff.rfl
  · rename_i hdue
    exact iff_of_true hp₁ fun h => absurd h hdue

/-- **A shot on the ship loses the game**, after every key and after the moves of every round, in exactly
the runs in which the moves of a round find no shot one cell above the ship. -/
theorem hits_punished_iff (hr : Run gameSystem tr g) :
    (∀ t ∈ tr, Punished (t.before.pressed t.event.key) ∧ Punished t.after) ↔
      ∀ t ∈ tr, Spared t.before t.event := by
  have h0 : ∀ g, gameSystem.init g → Punished g := by
    rintro g rfl
    exact initBoard_punished
  have hs : ∀ {tr g inp o g'}, Run gameSystem tr g → Punished g → gameSystem.step g inp o g' →
      (Punished g' ↔ Spared g inp) := by
    rintro tr g inp o _ hr hp ⟨hl, -, rfl⟩
    have hx := (run_formation hr).2.resolve_right (by simp [hl])
    exact round_punished (run_placed hr) hx (run_shields hr) hp inp
  have hall := Run.exact h0 hs hr
  constructor
  · intro h
    exact hall.1 fun t ht => (h t ht).2
  · intro h t ht
    refine ⟨?_, hall.2 h t ht⟩
    -- the state before the key is a good one too
    obtain ⟨tr', hsuf, hr', -⟩ := hr.mem ht
    have hC : ∀ t ∈ tr', Spared t.before t.event := fun t' ht' =>
      h t' (hsuf.subset (List.mem_cons_of_mem _ ht'))
    have hp := hr'.invariant_of h0 (fun hr hp hC hst => (hs hr hp hst).2 hC) hC
    exact pressed_punished (run_placed hr').confined hp t.event.key

/-! ### A shot that is dodged -/

/-- The ship at column `y`, the first row of the aliens on its way to the right at column `c`, and of
shots those of the aliens in `S` only, which are in column 3. -/
structure Lull (g : Game) (c y : ℤ) (t : Word) (S : ℤ → ℤ → Prop) : Prop where
  running : g.lose = false ∧ g.win = false
  ship : g.yShip = y
  corner : g.xAliens = 3 ∧ g.yAliens = c ∧ g.moveRight = true
  alive : Alive g 4 0
  clock : g.t0 = t
  unshot : ∀ i j, (g.board i j).shipShoot = false
  shots : ∀ i j, (g.board i j).alienShoot = true ↔ S i j
  column : ∀ i j, S i j → 7 ≤ i ∧ i ≤ 23 ∧ j = 3

theorem Formation.moveDown_false (hF : Formation g) (hr : g.moveRight = true) : g.moveDown = false := by
  rcases hF.flag with ⟨-, -, h⟩ | ⟨h, -, -⟩ | ⟨h, -, -⟩
  · exact h
  · rw [hr] at h
    cases h
  · rw [hr] at h
    cases h

variable {t : Word} {S : ℤ → ℤ → Prop}

theorem cancelShoots_idle (h : ∀ i j, (g.board i j).shipShoot = false) : g.cancelShoots = g := by
  have hf : ∀ p : ℤ × ℤ, Game.cancelShootsCell g.board p.1 p.2 = g.board := by
    intro p
    unfold Game.cancelShootsCell
    rw [if_neg fun hp => absurd hp.2 (by simp [h])]
  unfold Game.cancelShoots
  rw [forCells_eq, List.foldl_fixed' hf]

theorem moveShootsShip_idle (h : ∀ i j, (g.board i j).shipShoot = false) : g.moveShootsShip = g := by
  have hf : ∀ p : ℤ × ℤ, Game.moveShootsShipCell g.board p.1 p.2 = g.board := by
    intro p
    unfold Game.moveShootsShipCell
    rw [if_neg (by simp [h])]
  unfold Game.moveShootsShip
  rw [forCells_eq, List.foldl_fixed' hf]

/-- Without shots of the ship those of the aliens move alone. -/
theorem moveShoots_unshot (h : ∀ i j, (g.board i j).shipShoot = false) : g.moveShoots = g.moveShootsAliens ∧
    ∀ i j, (g.moveShootsAliens.board i j).shipShoot = false := by
  have hunshot : ∀ i j, (g.moveShootsAliens.board i j).shipShoot = false := by
    intro i j
    rw [layer_eq Cell.shipShoot, moveShootsAliens_layer (fun _ _ => rfl) fun _ _ => rfl]
    exact h i j
  exact ⟨by rw [Game.moveShoots, cancelShoots_idle h, moveShootsShip_idle hunshot], hunshot⟩

/-- The moves of the shots. -/
theorem Lull.moveShoots (h : Lull g c y t S) (hP : Placed g) (hS : ShieldsIn g.board) (hp : ∀ i j, ¬ Struck g i j) :
    Lull g.moveShoots c y t (fun i j => S (i - 1) j ∧ i ≤ 23) := by
  obtain ⟨hmoves, hunshot⟩ := moveShoots_unshot h.unshot
  rw [hmoves]
  have hlose : g.moveShootsAliens.lose = false := by
    refine Bool.eq_false_iff.2 fun hl => ?_
    rcases (moveShootsAliens_lose hP.shotsIn).1 hl with hl | ⟨i, j, hs⟩
    · rw [h.running.1] at hl
      cases hl
    · exact hp i j hs
  have hshots : ∀ i j, (g.moveShootsAliens.board i j).alienShoot = true ↔ S (i - 1) j ∧ i ≤ 23 := by
    intro i j
    rw [moveShootsAliens_shot hP.shotsIn, h.shots]
    refine and_congr_right fun hs => ?_
    obtain ⟨h1, h2, rfl⟩ := h.column _ _ hs
    have hshield : (g.board (i - 1) 3).shield = false := by
      refine Bool.eq_false_iff.2 fun hd => ?_
      have := hS (i - 1) 3 hd
      omega
    rw [advances_iff, and_iff_right hshield, and_iff_left (.inl (h.unshot _ _))]
    simp only [numRows]
    omega
  have hform := moveShootsAliens_formation g
  obtain ⟨-, hx, hy, hr, -⟩ := formation_fields hform
  obtain ⟨b, l, hrest⟩ := moveShootsAliens_rest g
  have hwin : g.moveShootsAliens.win = g.win := by rw [hrest]
  have hship : g.moveShootsAliens.yShip = g.yShip := by rw [hrest]
  have ht : g.moveShootsAliens.t0 = g.t0 := by rw [hrest]
  refine ⟨⟨hlose, hwin.trans h.running.2⟩, hship.trans h.ship, ?_, (alive_congr hform).2 h.alive,
    ht.trans h.clock, hunshot, hshots, fun i j hs => ?_⟩
  · rw [hx, hy, hr]
    exact h.corner
  · have := h.column _ _ hs.1
    omega

theorem swept_t0 (g : Game) (s : Board × ℕ) : (g.swept s).t0 = g.t0 := rfl

theorem moveAliens_t0 (g : Game) : g.moveAliens.t0 = g.t0 := by
  have hdown : g.aliensDown.t0 = g.t0 := swept_t0 g _
  have hright : g.aliensRight.t0 = g.t0 := swept_t0 g _
  have hleft : g.aliensLeft.t0 = g.t0 := swept_t0 g _
  unfold Game.moveAliens
  simp only []
  split_ifs <;> simp only [hdown, hright, hleft]

/-- The move of the aliens. -/
theorem Lull.moveAliens (h : Lull g c y t S) (hP : Placed g) (hc : c ≤ 27) : Lull g.moveAliens (c + 1) y t S := by
  obtain ⟨hx, hy, hr⟩ := h.corner
  have hd := hP.formation.moveDown_false hr
  have hI := hP.formation.inField (by omega)
  obtain ⟨hb, hx', hy', -, -, hr'⟩ := moveAliens_right hd hr
  have hlose : g.moveAliens.lose = false := by
    refine Bool.eq_false_iff.2 fun hl => ?_
    rcases (moveAliens_lose g).1 hl with hl | hl
    · rw [h.running.1] at hl
      cases hl
    · rw [hd] at hl
      cases hl.1
  have hwin : g.moveAliens.win = false := by
    have hcount : (forCells (upTo 3 21) (downTo (numColumns - 3) 2) (g.board, 0) (Game.aliensSideCell 1)).2 ≠ 0 :=
      ((aliensSide_count hI (fun j => by simp) right_pairwise).2 ⟨_, _, h.alive⟩).ne'
    have hright : g.aliensRight.win = g.win := by
      unfold Game.aliensRight Game.swept
      dsimp only
      rw [if_neg hcount]
    unfold Game.moveAliens
    rw [if_neg (by simp [hd]), if_pos hr]
    simp only []
    split_ifs <;> simp only [hright, h.running.2]
  have hlayer : ∀ A : Cell → Bool, (∀ c v, A (Cell.setAlien c v) = A c) → (∀ c v, A (Cell.setShield c v) = A c) →
      ∀ i j, A (g.moveAliens.board i j) = A (g.board i j) := by
    intro A ha hd i j
    rw [layer_eq A, moveAliens_layer ha hd]
    rfl
  have hscene := congrArg Prod.snd (moveAliens_scene g).1
  have hcorner : g.moveAliens.xAliens = 3 ∧ g.moveAliens.yAliens = c + 1 ∧ g.moveAliens.moveRight = true :=
    ⟨hx'.trans hx, by omega, (hr' (by omega)).1⟩
  have halive := ((moveAliens_formation hP.formation (by omega)).2.2 4 0).2 ⟨h.alive, fun h => by simp [hd] at h⟩
  refine ⟨⟨hlose, hwin⟩, hscene.trans h.ship, hcorner, halive, (moveAliens_t0 g).trans h.clock, fun i j => ?_,
    fun i j => ?_, h.column⟩
  · rw [hlayer Cell.shipShoot (fun _ _ => rfl) fun _ _ => rfl]
    exact h.unshot i j
  · rw [hlayer Cell.alienShoot (fun _ _ => rfl) fun _ _ => rfl]
    exact h.shots i j

theorem iaShootAlien_odd {clock : Word} (h : clock.toInt.tmod 2 ≠ 0) : g.iaShootAlien clock = g := by
  unfold Game.iaShootAlien Game.iaShootAlienShots
  dsimp only
  rw [if_neg h]

/-- The first column in reach has an alien to shoot. -/
theorem iaShootAlien_first {clock : Word} (h : clock.toInt.tmod 2 = 0) (hk : g.lastShoot ≤ 79)
    (hi : 0 < g.isAlien.getD g.lastShoot.toNat 0) : ∃ l n, g.iaShootAlien clock = { g with
      board := g.board.set (g.isAlien.getD g.lastShoot.toNat 0) g.lastShoot (·.setAlienShoot true)
      lastShoot := l
      shootPointer := n } := by
  unfold Game.iaShootAlien Game.iaShootAlienShots
  dsimp only
  rw [if_pos h, upTo_cons hk, List.foldl_cons, if_pos ⟨Nat.one_pos, hi⟩, List.foldl_fixed']
  · exact ⟨_, _, rfl⟩
  · intro k
    exact if_neg fun h => Nat.lt_irrefl 1 h.1

/-- Where the lowest alien of column `c` is, and the shot that it makes. -/
theorem Lull.shoot (h : Lull g 3 y t fun _ _ => False) (hF : Formation g) (hk : g.lastShoot = 3) (clock : Word)
    (heven : clock.toInt.tmod 2 = 0) : Lull (g.iaShootAlien clock) 3 y t fun i j => i = 7 ∧ j = 3 := by
  obtain ⟨hx, hy, -⟩ := h.corner
  have halien : (g.board 7 3).alien = true := by
    have ha := h.alive
    unfold Alive at ha
    rwa [hx, hy] at ha
  have hlow := isAlien_lowest g (by omega) (by omega) halien
  have hseven : g.isAlien.getD g.lastShoot.toNat 0 = 7 := by
    have hfound := isAlien_alien g 3 (by
      have : (3 : ℤ).toNat = 3 := rfl
      rw [this] at hlow
      omega)
    have hoff := hF.offset _ _ hfound
    rw [hk]
    unfold IsOffset at hoff
    have : (3 : ℤ).toNat = 3 := rfl
    rw [this] at hlow ⊢
    omega
  obtain ⟨l, n, he⟩ := iaShootAlien_first (g := g) heven (by omega) (by omega)
  rw [he, hseven, hk]
  have hlayer : ∀ A : Cell → Bool, (∀ c v, A (Cell.setAlienShoot c v) = A c) → ∀ i j,
      A ((g.board.set 7 3 (·.setAlienShoot true)) i j) = A (g.board i j) := by
    intro A hA i j
    rw [layer_eq A, layer_set (hA · _)]
    rfl
  refine ⟨h.running, h.ship, h.corner, ?_, h.clock, fun i j => ?_, fun i j => ?_, by omega⟩
  · have ha := h.alive
    unfold Alive at ha ⊢
    rwa [hlayer Cell.alien fun _ _ => rfl]
  · rw [hlayer Cell.shipShoot fun _ _ => rfl]
    exact h.unshot i j
  · rw [layer_eq Cell.alienShoot, layer_put (f := (·.setAlienShoot true)) fun _ => rfl, Prod.mk.injEq]
    exact or_iff_left ((h.shots i j).1 ·)

/-- The check finds no shot on the ship. -/
theorem Lull.checked (h : Lull g c y t S) (hS : ∀ i j, S i j → ¬ ShipCell y i j) :
    Lull (if g.shootColision = true then { g with lose := true } else g) c y t S := by
  have hclear : ∀ i j, ShipCell g.yShip i j → (g.board i j).alienShoot = false := by
    intro i j hc
    rw [h.ship] at hc
    exact Bool.eq_false_iff.2 fun hs => hS i j ((h.shots i j).1 hs) hc
  have hcol : g.shootColision = false := by
    unfold Game.shootColision
    rw [hclear _ _ (.inl ⟨rfl, by omega⟩), hclear _ _ (.inr ⟨rfl, rfl⟩), hclear _ _ (.inl ⟨rfl, by omega⟩),
      hclear _ _ (.inl ⟨rfl, by omega⟩), hclear _ _ (.inl ⟨rfl, by omega⟩), hclear _ _ (.inl ⟨rfl, by omega⟩)]
    rfl
  rw [if_neg (by simp [hcol])]
  exact h

theorem Lull.moved (h : Lull g c x t S) {b : Board}
    (hb : b.layer (fun c => (c.alien, c.shipShoot, c.alienShoot)) = g.board.layer fun c =>
      (c.alien, c.shipShoot, c.alienShoot)) : Lull { g with board := b, yShip := y } c y t S := by
  have hcell : ∀ i j, (b i j).alien = (g.board i j).alien ∧ (b i j).shipShoot = (g.board i j).shipShoot ∧
      (b i j).alienShoot = (g.board i j).alienShoot := by
    intro i j
    obtain ⟨h1, h2⟩ := Prod.mk.inj (congrFun hb (i, j))
    exact ⟨h1, Prod.mk.inj h2⟩
  refine ⟨h.running, rfl, h.corner, ?_, h.clock, fun i j => ?_, fun i j => ?_, h.column⟩
  · have ha := h.alive
    unfold Alive at ha ⊢
    rwa [(hcell _ _).1]
  · rw [(hcell i j).2.1]
    exact h.unshot i j
  · rw [(hcell i j).2.2]
    exact h.shots i j

theorem Lull.shipLeft (h : Lull g c y t S) (hy : 4 < y) (hS : ∀ i j, S i j → ¬ ShipCell (y - 1) i j) :
    Lull g.shipLeft c (y - 1) t S := by
  obtain rfl := h.ship
  unfold Game.shipLeft
  rw [if_pos hy]
  refine Lull.checked (h.moved ?_) hS
  rw [layer_set (f := (·.setShip false)) fun _ => rfl, layer_set (f := (·.setShip false)) fun _ => rfl,
    layer_set (f := (·.setShip true)) fun _ => rfl, layer_set (f := (·.setShip true)) fun _ => rfl]

theorem Lull.shipRight (h : Lull g c y t S) (hy : y < 75) (hS : ∀ i j, S i j → ¬ ShipCell (y + 1) i j) :
    Lull g.shipRight c (y + 1) t S := by
  obtain rfl := h.ship
  have hy' : g.yShip < numColumns - 5 := hy
  unfold Game.shipRight
  rw [if_pos hy']
  refine Lull.checked (h.moved ?_) hS
  rw [layer_set (f := (·.setShip false)) fun _ => rfl, layer_set (f := (·.setShip false)) fun _ => rfl,
    layer_set (f := (·.setShip true)) fun _ => rfl, layer_set (f := (·.setShip true)) fun _ => rfl]

/-- The moves of a round, but for the new shot. -/
theorem Lull.due (h : Lull g c y t S) (hP : Placed g) (hD : ShieldsIn g.board) (hc : c ≤ 27)
    (hS : ∀ i j, S i j → ¬ ShipCell y i j) :
    Lull g.moveShoots.moveAliens (c + 1) y t (fun i j => S (i - 1) j ∧ i ≤ 23) ∧ Placed g.moveShoots.moveAliens := by
  have hx := h.corner.1
  have hclear : ∀ i j, ¬ Struck g i j := by
    rintro i j hs
    have hcell := hs.shipCell hP.confined
    rw [h.ship] at hcell
    exact hS i j ((h.shots i j).1 hs.2) hcell
  have h₁ := moveShootsAliens_placed (cancelShoots_placed hP)
  obtain ⟨-, hx₁, -⟩ := formation_fields
    ((moveShootsAliens_formation g.cancelShoots).trans (cancelShoots_formation g))
  have h₂ : Placed g.moveShoots := moveShootsShip_placed h₁ (by omega)
  have hL := h.moveShoots hP hD hclear
  have hx₂ := hL.corner.1
  exact ⟨hL.moveAliens h₂ hc, moveAliens_placed h₂ (by omega)⟩

/-- The end of a round. -/
theorem Lull.later (h : Lull g c y t S) (l : Word) : Lull { g with t0 := l } c y l S :=
  ⟨h.running, h.ship, h.corner, h.alive, rfl, h.unshot, h.shots, h.column⟩

theorem Lull.congr (h : Lull g c y t S) {S' : ℤ → ℤ → Prop} (hS : ∀ i j, S i j ↔ S' i j) : Lull g c y t S' :=
  ⟨h.running, h.ship, h.corner, h.alive, h.clock, h.unshot, fun i j => (h.shots i j).trans (hS i j),
    fun i j hs => h.column i j ((hS i j).2 hs)⟩

theorem Lull.step (h : Lull g c y t S) (inp : Game.Input) : gameSystem.step g inp () (g.round inp) :=
  ⟨h.running.1, h.running.2, rfl⟩

theorem round_due (inp : Game.Input) (hk : inp.key = none) (hd : g.Due inp.now) :
    g.round inp = { g.iaMove inp.clock with t0 := inp.later } := by
  have hp : g.pressed inp.key = g := by rw [hk, Game.pressed]
  unfold Game.round
  dsimp only
  rw [hp, if_pos hd]

theorem round_idle {inp : Game.Input} (hd : ¬ (g.pressed inp.key).Due inp.now) : g.round inp = g.pressed inp.key := by
  unfold Game.round
  dsimp only
  rw [if_neg hd]

/-! The run: to the left, a shot of the aliens, its way down, and to the right. -/

def left : Game.Input := ⟨some 0x61, 0, 0, 0⟩

def fire : Game.Input := ⟨none, 20, 20, 21⟩

def tick (n : ℕ) : Word := BitVec.ofNat 32 (21 + 20 * n)

def fall (n : ℕ) : Game.Input := ⟨none, tick (n + 1), tick (n + 1), tick (n + 1)⟩

/-- The first `n` rounds of the way down, latest first. -/
def falls : ℕ → List Game.Input
  | 0 => []
  | n + 1 => fall n :: falls n

def right : Game.Input := ⟨some 0x64, tick 16, tick 16, tick 16⟩

theorem lefts_run (n : ℕ) (hn : n ≤ 36) : ∃ tr g, Run gameSystem tr g ∧
    tr.map Transition.event = List.replicate n left ∧ g.lastShoot = 3 ∧
    Lull g 2 (40 - n) 0 (fun _ _ => False) ∧ ∀ t ∈ tr, Spared t.before t.event := by
  induction n with
  | zero =>
    obtain ⟨hl, hw⟩ := initBoard_rest {}
    refine ⟨[], _, .init rfl, rfl, rfl, ⟨⟨hl, hw⟩, rfl, ⟨rfl, rfl, rfl⟩, ?_, rfl, fun i j => (initBoard_shots i j).1,
      fun i j => ?_, by simp⟩, by simp⟩
    · exact initBoard_alien.2 (by unfold IsOffset; decide)
    · rw [(initBoard_shots i j).2]
      simp
  | succ n ih =>
    obtain ⟨tr, g, hr, htr, hk, h, hS⟩ := ih (by omega)
    have h' := h.shipLeft (by omega) fun _ _ h => h.elim
    have hpressed : g.pressed left.key = g.shipLeft := rfl
    have hidle : ¬ (g.pressed left.key).Due left.now := by
      rw [hpressed, Game.Due, h'.clock]
      decide
    have hround : g.round left = g.shipLeft := round_idle hidle
    refine ⟨_, _, hr.step (h.step left), ?_, ?_, ?_, List.forall_mem_cons.2 ⟨fun hd => absurd hd hidle, hS⟩⟩
    · rw [List.map_cons, htr, List.replicate_succ]
    · rw [hround]
      exact (lastShoot_congr (shipLeft_aim g)).trans hk
    · rw [hround, show (40 : ℤ) - ((n + 1 : ℕ) : ℤ) = 40 - n - 1 by omega]
      exact h'

/-- In column 3, no shot above row 23 is on a ship to the right. -/
theorem shipCell_above {y : ℤ} (hy : 5 ≤ y) (hi : r ≤ 22) : ∀ i j, i = r ∧ j = 3 → ¬ ShipCell y i j := by
  rintro i j ⟨rfl, rfl⟩ hc
  have hx : xShip = 23 := rfl
  unfold ShipCell at hc
  omega

theorem falls_due : ∀ n < 60, seg < (tick (n + 1) - tick n).toInt ∧ (tick (n + 1)).toInt.tmod 2 ≠ 0 := by decide

theorem falls_run (m n : ℕ) (hm : m ≤ 35) (hn : n ≤ 16) : ∃ tr g, Run gameSystem tr g ∧
    tr.map Transition.event = falls n ++ fire :: List.replicate m left ∧
    Lull g (3 + n) (40 - m) (tick n) (fun i j => i = 7 + n ∧ j = 3) ∧
    (m ≤ 34 → ∀ t ∈ tr, Spared t.before t.event) := by
  induction n with
  | zero =>
    obtain ⟨tr, g, hr, htr, hk, h, hS⟩ := lefts_run m (by omega)
    obtain ⟨hL, hP⟩ := h.due (run_placed hr) (run_shields hr) (by omega) fun _ _ h => h.elim
    have haim := lastShoot_congr ((moveAliens_aim g.moveShoots).trans (moveShoots_aim g))
    have hnone : Lull g.moveShoots.moveAliens 3 (40 - m) 0 fun _ _ => False :=
      hL.congr fun _ _ => iff_of_eq (false_and _)
    have hL := (hnone.shoot hP.formation (haim.trans hk) fire.clock (by decide)).later fire.later
    have hround := round_due (g := g) fire rfl (by rw [Game.Due, h.clock]; decide)
    have hspared : Spared g fire := fun _ => .inr (.inr fun i j ho => (h.shots i j).1 ho.1)
    refine ⟨_, _, hr.step (h.step fire), by rw [List.map_cons, htr]; rfl, ?_,
      fun _ => List.forall_mem_cons.2 ⟨hspared, hS⟩⟩
    rw [hround]
    exact hL
  | succ n ih =>
    obtain ⟨tr, g, hr, htr, h, hS⟩ := ih (by omega)
    obtain ⟨hdue, hodd⟩ := falls_due n (by omega)
    obtain ⟨hL, -⟩ := h.due (run_placed hr) (run_shields hr) (by omega) (shipCell_above (by omega) (by omega))
    have hround := round_due (g := g) (fall n) rfl (by rw [Game.Due, h.clock]; exact hdue)
    have hmove : g.iaMove (fall n).clock = g.moveShoots.moveAliens := iaShootAlien_odd hodd
    -- the cell below the shot is the ship's only from column 5 on
    have hspared : m ≤ 34 → Spared g (fall n) := by
      refine fun hm _ => .inr (.inr fun i j ho => ?_)
      obtain ⟨rfl, rfl⟩ := (h.shots i j).1 ho.1
      have hcell := ((run_placed hr).confined.ship _ _).1 ho.2
      have hx : xShip = 23 := rfl
      rw [h.ship] at hcell
      unfold ShipCell at hcell
      omega
    refine ⟨_, _, hr.step (h.step (fall n)), by rw [List.map_cons, htr]; rfl, ?_,
      fun hm => List.forall_mem_cons.2 ⟨hspared hm, hS hm⟩⟩
    rw [hround, hmove, show (3 : ℤ) + ((n + 1 : ℕ) : ℤ) = 3 + n + 1 by omega]
    refine (hL.later _).congr fun i j => ?_
    omega

def onto : Game.Input := ⟨some 0x61, tick 16, tick 16, tick 16⟩

/-- A move to the left, whether the game is lost by it or not. -/
theorem shipLeft_moved (hy : 4 < g.yShip) : g.shipLeft.yShip = g.yShip - 1 ∧ g.shipLeft.t0 = g.t0 ∧
    g.shipLeft.board.layer Cell.alienShoot = g.board.layer Cell.alienShoot := by
  unfold Game.shipLeft
  rw [if_pos hy]
  dsimp only
  split <;> exact ⟨rfl, rfl, by
    rw [layer_set (f := (·.setShip false)) fun _ => rfl, layer_set (f := (·.setShip false)) fun _ => rfl,
      layer_set (f := (·.setShip true)) fun _ => rfl, layer_set (f := (·.setShip true)) fun _ => rfl]⟩

/-- The first shot of the aliens goes down column 3, beside a ship at column 6. The ship moves onto it, and
the game is lost. -/
theorem hits_punished_iff_hit : ∃ t tr g, Run gameSystem (t :: tr) g ∧
    (t :: tr).map Transition.event = onto :: (falls 16 ++ fire :: List.replicate 34 left) ∧ t.before.lose = false ∧
    Struck (t.before.pressed t.event.key) 23 3 ∧ (t.before.pressed t.event.key).lose = true := by
  obtain ⟨tr, g, hr, htr, h, hS⟩ := falls_run 34 16 (by omega) le_rfl
  obtain ⟨hy, ht, hshots⟩ := shipLeft_moved (g := g) (by rw [h.ship]; decide)
  have hpressed : g.pressed onto.key = g.shipLeft := rfl
  have hidle : ¬ (g.pressed onto.key).Due onto.now := by
    rw [hpressed, Game.Due, ht, h.clock]
    decide
  have hr' := hr.step (h.step onto)
  have hx : xShip = 23 := rfl
  have hstruck : Struck (g.pressed onto.key) 23 3 := by
    rw [hpressed]
    refine ⟨((shipLeft_confined (run_placed hr).confined).ship 23 3).2 ?_, ?_⟩
    · rw [hy, h.ship]
      unfold ShipCell
      omega
    · exact (congrFun hshots (23, 3)).trans ((h.shots 23 3).2 (by decide))
  have hpunished := (hits_punished_iff hr').2
    (List.forall_mem_cons.2 ⟨fun hd => absurd hd hidle, hS le_rfl⟩) _ List.mem_cons_self
  exact ⟨_, tr, _, hr', congrArg _ htr, h.running.1, hstruck, hpunished.1 23 3 hstruck⟩

/-- **A shot that is dodged.** The first shot of the aliens goes down column 3 to a ship at column 5. Behind
the last of its moves it is on the ship, and the game goes on; the ship moves to the right, and the
shot is beside it. -/
theorem hit_dodged : ∃ tr g, Run gameSystem tr g ∧
    tr.map Transition.event = falls 16 ++ fire :: List.replicate 35 left ∧ g.lose = false ∧ Struck g 23 3 ∧
    ∃ g', gameSystem.step g right () g' ∧ g'.lose = false ∧ ∀ i j, ¬ Struck g' i j := by
  obtain ⟨tr, g, hr, htr, h, -⟩ := falls_run 35 16 le_rfl le_rfl
  rw [show (40 : ℤ) - (35 : ℕ) = 5 from rfl] at h
  have hship := (run_placed hr).confined.ship
  have hx : xShip = 23 := rfl
  have hS : ∀ i j : ℤ, i = 7 + (16 : ℕ) ∧ j = 3 → ¬ ShipCell (5 + 1) i j := by
    rintro i j ⟨hi, hj⟩ hc
    unfold ShipCell at hc
    omega
  have h' := h.shipRight (by omega) hS
  have hpressed : g.pressed right.key = g.shipRight := rfl
  have hround : g.round right = g.shipRight := by
    refine round_idle ?_
    rw [hpressed, Game.Due, h'.clock]
    decide
  refine ⟨tr, g, hr, htr, h.running.1, ⟨?_, (h.shots 23 3).2 (by decide)⟩, _, h.step right, ?_⟩
  · rw [hship, h.ship]
    unfold ShipCell
    omega
  · rw [hround]
    refine ⟨h'.running.1, fun i j hs => ?_⟩
    have hcell := hs.shipCell (shipRight_confined (run_placed hr).confined)
    rw [h'.ship] at hcell
    exact hS i j ((h'.shots i j).1 hs.2) hcell

end Zeos
