import Zeos.Proof.FireControl

/-!
# Shots of the two sides against each other

`cancel_shoots` takes away a shot of the aliens and one of the ship in the cell below it. Two shots in one
cell are left to the sweeps, whose tests for this let both of them go on.

* `noCrossing_iff`: two shots pass through each other where they are in one cell, with nothing else in
  their way.
* `shots_cross_iff`: **so they do in every round of every run**.
* `shots_cross`: a run in which it happens.
-/

namespace Zeos

open Execution GridSweep

variable {g : Game} {i j c : ℤ}

/-- A shot of the aliens at `i`, `j`, and one of the ship in its cell or in the cell below, do not both go
on. -/
def NoCrossing (g : Game) (i j : ℤ) : Prop :=
  (g.board i j).alienShoot = true →
    ((g.board i j).shipShoot = true →
      ¬ ((g.moveShoots.board (i + 1) j).alienShoot = true ∧ (g.moveShoots.board (i - 1) j).shipShoot = true)) ∧
    ((g.board (i + 1) j).shipShoot = true →
      ¬ ((g.moveShoots.board (i + 1) j).alienShoot = true ∧ (g.moveShoots.board i j).shipShoot = true))

/-- Two shots in one cell, with no other shot, no shield and no alien to stop either of them. -/
structure FreeCrossing (b : Board) (i j : ℤ) : Prop where
  alienShot : (b i j).alienShoot = true
  shipShot : (b i j).shipShoot = true
  below : (b (i + 1) j).shipShoot = false
  above : (b (i - 1) j).alienShoot = false
  shield : (b i j).shield = false
  shieldAbove : (b (i - 1) j).shield = false
  alien : (b i j).alien = false

theorem noCrossing_iff (h : ShotsIn g.board) : NoCrossing g i j ↔ ¬ FreeCrossing g.board i j := by
  have ha := moveShoots_alienShot (i := i + 1) (j := j) h
  have hs := moveShoots_shipShot (i := i - 1) (j := j) h
  rw [show i + 1 - 1 = i by omega] at ha
  rw [show i - 1 + 1 = i by omega] at hs
  constructor
  · intro hn hf
    have hrow := h.ship i j hf.shipShot
    have hrow' := h.alien i j hf.alienShot
    -- both cells a row further are within the field
    refine (hn hf.alienShot).1 hf.shipShot ⟨ha.2 ?_, hs.2 ?_⟩
    · exact ⟨hf.alienShot, hf.below, hf.shield, by omega⟩
    · exact ⟨hf.shipShot, hf.above, hf.alien, hf.shieldAbove, by omega⟩
  · intro hf hshot
    constructor
    · rintro hship ⟨h1, h2⟩
      obtain ⟨-, hb, hd, -⟩ := ha.1 h1
      obtain ⟨-, habove, hal, hd', -⟩ := hs.1 h2
      exact hf ⟨hshot, hship, hb, habove, hd, hd', hal⟩
    · -- shots in neighbouring cells cancel out
      rintro hship ⟨h1, -⟩
      rw [(ha.1 h1).2.1] at hship
      cases hship

/-- **Two shots pass through each other** exactly where they are in one cell with nothing else in their
way, in every call of `move_shoots` in every run. -/
theorem shots_cross_iff {tr : Trace Game Game.Input Unit} (hr : Run gameSystem tr g) :
    ∀ t ∈ tr, (t.before.pressed t.event.key).Due t.event.now → ∀ i j,
      (NoCrossing (t.before.pressed t.event.key) i j ↔ ¬ FreeCrossing (t.before.pressed t.event.key).board i j) := by
  intro t ht _ i j
  obtain ⟨tr', -, hr', -⟩ := hr.mem ht
  exact noCrossing_iff (pressed_placed (run_placed hr') t.event.key).shotsIn

/-! ### A run in which they do -/

theorem Battle.congr {y : ℤ} {t : Word} {A T A' T' : ℤ → ℤ → Prop} (h : Battle g y t A T) (hA : ∀ i j, A i j ↔ A' i j)
    (hT : ∀ i j, T i j ↔ T' i j) : Battle g y t A' T' :=
  ⟨h.running, h.ship, h.alive, h.clock, fun i j => (h.alienShots i j).trans (hA i j),
    fun i j => (h.shipShots i j).trans (hT i j)⟩

theorem Course.congr {g' : Game} {x c : ℤ} {v l d : Bool} (h : Course g x c v l d) (hf : g'.formation = g.formation) :
    Course g' x c v l d := by
  obtain ⟨-, h1, h2, h3, h4, h5⟩ := formation_fields hf
  exact ⟨h1.trans h.1, h2.trans h.2.1, h3.trans h.2.2.1, h4.trans h.2.2.2.1, h5.trans h.2.2.2.2⟩

/-- A shot of the ship, with no other on its way. -/
theorem Battle.shipShoots {y : ℤ} {t : Word} {A : ℤ → ℤ → Prop} (h : Battle g y t A fun _ _ => False) :
    Battle g.makeShipShoot y t A fun i j => i = 21 ∧ j = y := by
  have hx : xShip - 2 = 21 := rfl
  -- the cell in front of the ship is empty, so `make_ship_shoot` fires
  have hclear : (g.board 21 y).shipShoot = false := Bool.eq_false_iff.2 fun hs => (h.shipShots 21 y).1 hs
  have hshoot : g.makeShipShoot = { g with board := g.board.set 21 y (·.setShipShoot true) } := by
    unfold Game.makeShipShoot
    dsimp only
    rw [hx, h.ship, if_pos hclear]
  have hlayer : ∀ L : Cell → Bool, (∀ c v, L (Cell.setShipShoot c v) = L c) → ∀ i j,
      L ((g.board.set 21 y (·.setShipShoot true)) i j) = L (g.board i j) := by
    intro L hL i j
    rw [layer_eq L, layer_set (hL · _), ← layer_eq L]
  rw [hshoot]
  refine ⟨h.running, h.ship, ?_, h.clock, fun i j => ?_, fun i j => ?_⟩
  · exact (hlayer Cell.alien (fun _ _ => rfl) _ _).trans h.alive
  · rw [← h.alienShots]
    exact iff_of_eq (congrArg (· = true) (hlayer Cell.alienShoot (fun _ _ => rfl) i j))
  · have hput := put_mark (b := g.board) (i := 21) (j := y) (L := Cell.shipShoot) (f := (·.setShipShoot true))
      (fun _ => rfl) (i, j)
    rw [h.shipShots, or_iff_left id, Prod.mk.injEq] at hput
    exact hput

/-- The ship shoots, between two moves. -/
def trigger : Game.Input := ⟨some 0x77, tick 1, tick 1, tick 1⟩

/-- To the left edge, and a round of waiting there. -/
theorem edge_run : ∃ tr g, Run gameSystem tr g ∧ tr.map Transition.event = opening :: List.replicate 36 left ∧
    Battle g 4 (tick 0) (fun _ _ => False) (fun _ _ => False) ∧ Course g 3 3 true false false ∧ g.lastShoot = 3 := by
  obtain ⟨tr, g, hr, htr, hk, hL, -⟩ := lefts_run 36 le_rfl
  have hB : Battle g 4 0 (fun _ _ => False) fun _ _ => False :=
    ⟨hL.running, hL.ship, hL.alive, hL.clock, hL.shots, fun i j => by simp [hL.unshot i j]⟩
  -- of the three flags the one for the right is set
  have hC : Course g 3 2 true false false := by
    obtain ⟨hx, hy, hright⟩ := hL.corner
    rcases (run_placed hr).formation.flag with ⟨-, hl, hd⟩ | h | h
    · exact ⟨hx, hy, hright, hl, hd⟩
    · exact absurd (h.1.symm.trans hright) Bool.false_ne_true
    · exact absurd (h.1.symm.trans hright) Bool.false_ne_true
  obtain ⟨-, hB'⟩ := hB.moves (run_placed hr) (hC.1.trans_le (by decide)) (fun _ _ h => h.elim) fun _ _ h => h.elim
  -- at an odd reading the aliens do not shoot
  have hround := round_quiet (g := g) opening rfl (by rw [Game.Due, hB.clock]; decide) (by decide)
  refine ⟨_, _, hr.step (hB.step opening), by rw [List.map_cons, htr], ?_, hC.quiet hround fun g h => h.right (by decide),
    (lastShoot_congr (aim_quiet hround)).trans hk⟩
  rw [hround]
  exact (hB'.later _).congr (fun _ _ => by simp) fun _ _ => by simp

/-- A shot from the corner of the formation, above the ship. -/
theorem corner_run : ∃ tr g, Run gameSystem tr g ∧
    tr.map Transition.event = volley 0 :: opening :: List.replicate 36 left ∧
    Battle g 4 (tick 1) (fun i j => i = 7 ∧ j = 4) (fun _ _ => False) ∧ Course g 3 4 true false false := by
  obtain ⟨tr, g, hr, htr, hB, hC, hk⟩ := edge_run
  obtain ⟨hP', hB'⟩ := hB.moves (run_placed hr) (hC.1.trans_le (by decide)) (fun _ _ h => h.elim) fun _ _ h => h.elim
  have hC' : Course g.moveShoots.moveAliens 3 4 true false false := hC.moveShoots.right (by decide)
  -- `last_shoot` is 3, and the corner alien in column 4 is the first from there on
  have hround := round_fires (g := g) (volley 0) rfl (by rw [Game.Due, hB.clock]; decide) (by decide) hB' hP' hC'
    (by rw [hk]; decide)
  refine ⟨_, _, hr.step (hB.step (volley 0)), by rw [List.map_cons, htr], ?_, ?_⟩
  · rw [hround]
    exact ((hB'.shootFrom 7 4).later (tick 1)).congr (fun _ _ => by simp) fun _ _ => by simp
  · rw [hround]
    exact (hC'.shootFrom 7 4).later (tick 1)

/-- The ship shoots back. -/
theorem duel_run : ∃ tr g, Run gameSystem tr g ∧
    tr.map Transition.event = trigger :: volley 0 :: opening :: List.replicate 36 left ∧
    Battle g 4 (tick 1) (fun i j => i = 7 ∧ j = 4) (fun i j => i = 21 ∧ j = 4) ∧ Course g 3 4 true false false := by
  obtain ⟨tr, g, hr, htr, hB, hC⟩ := corner_run
  have hpressed : g.pressed trigger.key = g.makeShipShoot := rfl
  have hround : g.round trigger = g.makeShipShoot := by
    refine round_idle ?_
    rw [hpressed, Game.Due, hB.shipShoots.clock]
    decide
  refine ⟨_, _, hr.step (hB.step trigger), by rw [List.map_cons, htr], ?_, ?_⟩
  · rw [hround]
    exact hB.shipShoots
  · rw [hround]
    exact hC.congr (makeShipShoot_formation g)

/-- The two shots on their way to each other. -/
theorem meet_run (n : ℕ) (hn : n ≤ 7) : ∃ tr g, Run gameSystem tr g ∧
    tr.map Transition.event = fallsFrom 1 n ++ trigger :: volley 0 :: opening :: List.replicate 36 left ∧
    Battle g 4 (tick (1 + n)) (fun i j => i = 7 + n ∧ j = 4) (fun i j => i = 21 - n ∧ j = 4) ∧
    Course g 3 (4 + n) true false false := by
  induction n with
  | zero =>
    obtain ⟨tr, g, hr, htr, hB, hC⟩ := duel_run
    exact ⟨tr, g, hr, htr, hB, hC⟩
  | succ n ih =>
    obtain ⟨tr, g, hr, htr, hB, hC⟩ := ih (by omega)
    obtain ⟨hdue, hodd⟩ := falls_due (1 + n) (by omega)
    have hx := hC.1
    have haway : ∀ i j, i = 7 + (n : ℤ) ∧ j = 4 → ¬ ShipCell 4 i j := by
      rintro i j ⟨rfl, -⟩ hc
      have hs : xShip = 23 := rfl
      unfold ShipCell at hc
      omega
    obtain ⟨-, hB'⟩ := hB.moves (run_placed hr) (by omega) haway fun i j h => by omega
    have hround := round_quiet (g := g) (fall (1 + n)) rfl (by rw [Game.Due, hB.clock]; exact hdue) hodd
    -- there are no shields in column 4
    have hshield : ∀ i, (g.board i 4).shield = false := fun i => Bool.eq_false_iff.2 fun hs => by
      have := run_shields hr i 4 hs
      omega
    refine ⟨_, _, hr.step (hB.step (fall (1 + n))), by rw [List.map_cons, htr]; rfl, ?_,
      hC.quiet hround fun g h => ?_⟩
    · rw [hround]
      -- one shot a row down, the other a row up; they do not meet before row 14
      refine (hB'.later _).congr (fun i j => ?_) fun i j => ?_
      · constructor
        · rintro ⟨⟨h1, h2⟩, -⟩
          omega
        · rintro ⟨rfl, rfl⟩
          exact ⟨by omega, by omega, hshield _, by omega⟩
      · constructor
        · rintro ⟨⟨h1, h2⟩, -⟩
          omega
        · rintro ⟨rfl, rfl⟩
          exact ⟨by omega, by omega, hshield _, by omega⟩
    · have := h.right (by omega)
      rwa [show (4 : ℤ) + ((n + 1 : ℕ) : ℤ) = 4 + n + 1 by omega]

/-- After six moves the two shots are two rows apart, and with the next one in the same cell. -/
theorem shots_cross_iff_meet : ∃ t tr g, Run gameSystem (t :: tr) g ∧
    (t :: tr).map Transition.event = fallsFrom 1 7 ++ trigger :: volley 0 :: opening :: List.replicate 36 left ∧
    ((t.before.pressed t.event.key).board 13 4).alienShoot = true ∧
    ((t.before.pressed t.event.key).board 15 4).shipShoot = true ∧
    NoCrossing (t.before.pressed t.event.key) 13 4 := by
  obtain ⟨tr, g, hr, htr, hB, -⟩ := meet_run 6 (by decide)
  have hr' := hr.step (hB.step (fall 7))
  have hdue : (g.pressed (fall 7).key).Due (fall 7).now := by
    rw [show g.pressed (fall 7).key = g from rfl, Game.Due, hB.clock]
    decide
  refine ⟨_, tr, _, hr', by rw [List.map_cons, htr]; rfl, (hB.alienShots 13 4).2 (by decide),
    (hB.shipShots 15 4).2 (by decide), (shots_cross_iff hr' _ List.mem_cons_self hdue 13 4).2 fun hf => ?_⟩
  exact absurd ((hB.shipShots 13 4).1 hf.shipShot) (by decide)

/-- **Shots that pass through each other.** After seven moves both are at row 14, and with the next one the
shot of the ship is above that of the aliens. -/
theorem shots_cross : ∃ t tr g, Run gameSystem (t :: tr) g ∧
    (t :: tr).map Transition.event = fallsFrom 1 8 ++ trigger :: volley 0 :: opening :: List.replicate 36 left ∧
    (t.before.pressed t.event.key).Due t.event.now ∧ ¬ NoCrossing (t.before.pressed t.event.key) 14 4 := by
  obtain ⟨tr, g, hr, htr, hB, hC⟩ := meet_run 7 le_rfl
  have hP := run_placed hr
  have hpressed : g.pressed (fall 8).key = g := rfl
  have hshield : ∀ i, (g.board i 4).shield = false := fun i => Bool.eq_false_iff.2 fun hs => by
    have := run_shields hr i 4 hs
    omega
  have hcross : FreeCrossing g.board 14 4 := by
    refine ⟨(hB.alienShots _ _).2 (by decide), (hB.shipShots _ _).2 (by decide), ?_, ?_, hshield _, hshield _, ?_⟩
    · exact Bool.eq_false_iff.2 fun hs => absurd ((hB.shipShots _ _).1 hs) (by decide)
    · exact Bool.eq_false_iff.2 fun hs => absurd ((hB.alienShots _ _).1 hs) (by decide)
    · refine Bool.eq_false_iff.2 fun ha => ?_
      have hoff := hP.formation.offset _ _ ha
      have hx := hC.1
      unfold IsOffset at hoff
      omega
  refine ⟨_, tr, _, hr.step (hB.step (fall 8)), by rw [List.map_cons, htr]; rfl, ?_, fun hn => ?_⟩
  · dsimp only
    rw [hpressed, Game.Due, hB.clock]
    decide
  · dsimp only at hn
    rw [hpressed] at hn
    exact (noCrossing_iff hP.shotsIn).1 hn hcross

end Zeos
