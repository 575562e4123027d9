import Zeos.Lib.Loop
import Zeos.Proof.Victory

/-!
# How the aliens shoot

`ia_shoot_alien` goes through the columns from `last_shoot` on, and shoots from the lowest alien of the first
column that has one. A shot moves `last_shoot`; nothing else does.

* `iaShootAlien_cases`: what a call does.
* `fire_safe`: **every shot is aimed well**, and no division is by 0, in every call of every run.
* `silent_iff`: **a call leaves a shot on a lowest alien** exactly where there is an alien in column
  `last_shoot` or further right, or there was such a shot before.
* `silence`: a run to a call that makes no shot.
-/

namespace Zeos

open Execution GridSweep ForLoop

variable {g g' : Game} {i j r c d x y k : ℤ} {clock : Word}

/-! ### A call -/

/-- The body of the loop, from an alien at `i`, `k`. -/
def Game.shootFrom (g : Game) (i k : ℤ) : Game :=
  { g with
    board := g.board.set i k (·.setAlienShoot true)
    lastShoot := g.yAliens + (49 - Int.tdiv 50 (g.shootPointer + 1))
    shootPointer := (g.shootPointer + 1).tmod 5 }

/-- The columns that the loop may shoot from. -/
def Game.targets (g : Game) : List ℤ := (upTo g.lastShoot 79).filter fun k => 0 < g.isAlien.getD k.toNat 0

theorem iaShootAlienShots_targets (h : clock.toInt.tmod 2 = 0) :
    g.iaShootAlienShots clock = (g.targets.take 1).foldl (fun s k =>
      (s.1.shootFrom (g.isAlien.getD k.toNat 0) k, ⟨g.isAlien.getD k.toNat 0, k, s.1.shootPointer + 1⟩ :: s.2)) (g, []) := by
  have hits := foldl_hits (P := fun k => 0 < g.isAlien.getD k.toNat 0)
    (fun (s : Game × List Shot) k => (s.1.shootFrom (g.isAlien.getD k.toNat 0) k,
      (⟨g.isAlien.getD k.toNat 0, k, s.1.shootPointer + 1⟩ : Shot) :: s.2)) 1 0 (g, []) (upTo g.lastShoot 79)
  unfold Game.iaShootAlienShots
  dsimp only
  rw [if_pos h]
  exact congrArg Prod.fst hits

theorem iaShootAlien_targets (h : clock.toInt.tmod 2 = 0) :
    g.iaShootAlien clock = (g.targets.take 1).foldl (fun g' k => g'.shootFrom (g.isAlien.getD k.toNat 0) k) g := by
  rw [Game.iaShootAlien, iaShootAlienShots_targets h]
  exact (List.foldl_hom Prod.fst fun _ _ => rfl).symm

theorem mem_targets : k ∈ g.targets ↔ g.lastShoot ≤ k ∧ k ≤ 79 ∧ 0 < g.isAlien.getD k.toNat 0 := by
  unfold Game.targets
  rw [List.mem_filter, mem_upTo, decide_eq_true_eq, and_assoc]

/-- The first target is the leftmost. -/
theorem targets_take (g : Game) : g.targets = [] ∨
    ∃ k, g.targets.take 1 = [k] ∧ k ∈ g.targets ∧ ∀ k' ∈ g.targets, k ≤ k' := by
  have hsorted : g.targets.Pairwise (· < ·) := (upTo_pairwise g.lastShoot 79).filter _
  cases htargets : g.targets with
  | nil => exact .inl rfl
  | cons k rest =>
    rw [htargets] at hsorted
    refine .inr ⟨k, rfl, List.mem_cons_self, fun k' hk' => ?_⟩
    rcases List.mem_cons.1 hk' with rfl | hk'
    · exact Int.le_refl _
    · exact Int.le_of_lt ((List.pairwise_cons.1 hsorted).1 k' hk')

/-- **What a call does** at an even reading: no column has an alien, and nothing happens, or the first
one that has is shot from. -/
theorem iaShootAlien_cases (h : clock.toInt.tmod 2 = 0) :
    (g.targets = [] ∧ g.iaShootAlien clock = g ∧ (g.iaShootAlienShots clock).2 = []) ∨
    ∃ k, k ∈ g.targets ∧ (∀ k' ∈ g.targets, k ≤ k') ∧
      g.iaShootAlien clock = g.shootFrom (g.isAlien.getD k.toNat 0) k ∧
      (g.iaShootAlienShots clock).2 = [⟨g.isAlien.getD k.toNat 0, k, g.shootPointer + 1⟩] := by
  rw [iaShootAlien_targets h, iaShootAlienShots_targets h]
  rcases targets_take g with hnone | ⟨k, hk, hmem, hfirst⟩
  · rw [hnone]
    exact .inl ⟨rfl, rfl, rfl⟩
  · rw [hk]
    exact .inr ⟨k, hmem, hfirst, rfl, rfl⟩

theorem iaShootAlienShots_odd (h : clock.toInt.tmod 2 ≠ 0) : g.iaShootAlienShots clock = (g, []) := by
  unfold Game.iaShootAlienShots
  dsimp only
  rw [if_neg h]

/-- A live alien without another one below it in its column. -/
def Lowest (b : Board) (i j : ℤ) : Prop := (b i j).alien = true ∧ ∀ i', i < i' → (b i' j).alien = false

/-- Every target is a lowest alien. -/
theorem target_lowest (ha : AliensIn g.board) (h0 : 0 ≤ k) (hk : 0 < g.isAlien.getD k.toNat 0) :
    Lowest g.board (g.isAlien.getD k.toNat 0) k := by
  have halien := isAlien_alien g k.toNat hk
  rw [Int.toNat_of_nonneg h0] at halien
  refine ⟨halien, fun i' hi => Bool.eq_false_iff.2 fun ha' => ?_⟩
  have hin := ha i' k ha'
  have := isAlien_lowest g (by omega) hin.2.2 ha'
  omega

/-- Every column with an alien has an entry. -/
theorem alien_target (ha : AliensIn g.board) (h : (g.board i j).alien = true) (hj : g.lastShoot ≤ j) :
    j ∈ g.targets := by
  have hin := ha i j h
  have := isAlien_lowest g (by omega) hin.2.2 h
  exact mem_targets.2 ⟨hj, by omega, by omega⟩

theorem isAlien_size (g : Game) : g.isAlien.size = 80 := by
  unfold Game.isAlien
  rw [forCells_eq]
  refine (foldl_const (g := Array.size) (fun xs p => ?_) _ _).trans Array.size_replicate
  exact lowest_size (b := g.board)

/-! ### Every call -/

/-- A call at `clock` divides by no 0, looks into no column outside `is_alien`, and makes one shot at most
(`max_aliens_shoots`, as `EASY` is set), from a lowest alien. -/
structure FireSafe (g : Game) (clock : Word) : Prop where
  column : 1 ≤ g.lastShoot ∧ g.lastShoot ≤ 79
  index : ∀ k ∈ upTo g.lastShoot 79, 0 ≤ k ∧ k < g.isAlien.size
  next : 1 ≤ (g.iaShootAlien clock).lastShoot ∧ (g.iaShootAlien clock).lastShoot ≤ 79
  count : (g.iaShootAlienShots clock).2.length ≤ 1
  divisor : ∀ s ∈ (g.iaShootAlienShots clock).2, s.divisor ≠ 0
  aimed : ∀ s ∈ (g.iaShootAlienShots clock).2, Lowest g.board s.row s.column ∧
    ((g.iaShootAlien clock).board s.row s.column).alienShoot = true
  /-- There is no new shot but these. -/
  only : ∀ i j, ((g.iaShootAlien clock).board i j).alienShoot = true →
    (g.board i j).alienShoot = true ∨ ∃ s ∈ (g.iaShootAlienShots clock).2, s.row = i ∧ s.column = j

theorem Placed.fireSafe (h : Placed g) (clock : Word) : FireSafe g clock := by
  have hcol := h.target.column
  have hnext := (iaShootAlien_placed h clock).target.column
  have hindex : ∀ k ∈ upTo g.lastShoot 79, 0 ≤ k ∧ k < g.isAlien.size := by
    intro k hk
    have hk := mem_upTo.1 hk
    rw [isAlien_size]
    omega
  have hsafe : ∀ shots, (g.iaShootAlienShots clock).2 = shots → shots.length ≤ 1 →
      (∀ s ∈ shots, s.divisor ≠ 0 ∧ Lowest g.board s.row s.column) →
      (∀ i j, ((g.iaShootAlien clock).board i j).alienShoot = true ↔
        (g.board i j).alienShoot = true ∨ ∃ s ∈ shots, s.row = i ∧ s.column = j) → FireSafe g clock := by
    rintro _ rfl hlen hs hshots
    exact ⟨by omega, hindex, by omega, hlen, fun s hs' => (hs s hs').1,
      fun s hs' => ⟨(hs s hs').2, (hshots _ _).2 (.inr ⟨s, hs', rfl, rfl⟩)⟩, fun i j => (hshots i j).1⟩
  by_cases heven : clock.toInt.tmod 2 = 0
  · rcases iaShootAlien_cases (g := g) heven with ⟨-, hg, hs⟩ | ⟨k, hk, -, hg, hs⟩
    · exact hsafe [] hs (by simp) (by simp) (by simp [hg])
    · obtain ⟨hk1, -, hk0⟩ := mem_targets.1 hk
      have hlow := target_lowest (h.formation.aliensIn h.row) (by omega) hk0
      have hp := h.target.pointer
      refine hsafe _ hs (by simp) (List.forall_mem_singleton.2 ⟨?_, hlow⟩) fun i j => ?_
      · dsimp only
        omega
      · have hput := put_mark (b := g.board) (i := g.isAlien.getD k.toNat 0) (j := k) (L := Cell.alienShoot)
          (f := (·.setAlienShoot true)) (fun _ => rfl) (i, j)
        simp only [hg, List.mem_singleton, exists_eq_left]
        rw [or_comm]
        refine hput.trans (or_congr_left ?_)
        rw [Prod.mk.injEq, eq_comm, eq_comm (a := j)]
  · have hs := iaShootAlienShots_odd (g := g) heven
    exact hsafe [] (congrArg Prod.snd hs) (by simp) (by simp) (by simp [iaShootAlien_odd heven])

theorem initBoard_due : ((Game.initBoard {}).pressed none).Due 100 := by
  rw [show (Game.initBoard {}).pressed none = Game.initBoard {} from rfl, Game.Due,
    show (Game.initBoard {}).t0 = 0 from rfl]
  decide

/-- The game as `ia_shoot_alien` finds it in the round that reads `inp`. -/
def Game.beforeShot (g : Game) (inp : Game.Input) : Game := (g.pressed inp.key).moveShoots.moveAliens

variable {tr : Trace Game Game.Input Unit}

theorem run_beforeShot (hr : Run gameSystem tr g) {t : Transition Game Game.Input Unit} (ht : t ∈ tr)
    (hd : (t.before.pressed t.event.key).Due t.event.now) : Placed (t.before.beforeShot t.event) := by
  obtain ⟨tr', -, hr', hl, -, -⟩ := hr.mem ht
  have hx := (run_formation hr').2.resolve_right (by simp [hl])
  refine round_placed (run_placed hr') hx t.event _ ?_
  unfold Game.stages Game.beforeShot
  dsimp only
  rw [if_pos hd]
  simp

/-- **The aliens' fire is safe and well aimed** in every call of every run. -/
theorem fire_safe (hr : Run gameSystem tr g) : ∀ t ∈ tr, (t.before.pressed t.event.key).Due t.event.now →
    FireSafe (t.before.beforeShot t.event) t.event.clock :=
  fun _ ht hd => (run_beforeShot hr ht hd).fireSafe _

/-- The first call of the game. -/
theorem fire_safe_first : ∃ t g, Run gameSystem [t] g ∧ t.event = ⟨none, 100, 2, 100⟩ ∧
    ∀ s ∈ ((t.before.beforeShot t.event).iaShootAlienShots 2).2, s.divisor ≠ 0 := by
  obtain ⟨g, hr⟩ := first_run ⟨none, 100, 2, 100⟩
  exact ⟨_, g, hr, rfl, (fire_safe hr _ List.mem_cons_self initBoard_due).divisor⟩

/-! ### Silence -/

/-- There is a shot of the aliens on a lowest alien. -/
def Answers (g : Game) : Prop := ∃ i j, Lowest g.board i j ∧ (g.board i j).alienShoot = true

theorem iaShootAlien_lowest (g : Game) (clock : Word) :
    Lowest (g.iaShootAlien clock).board i j ↔ Lowest g.board i j := by
  have hlayer := iaShootAlien_layer (A := Cell.alien) (fun _ _ => rfl) g clock
  unfold Lowest
  simp only [layer_eq Cell.alien, hlayer]

/-- **A call at an even reading leaves a shot on a lowest alien** exactly if there is an alien to find
from `last_shoot` on, or the shot was there before. -/
theorem iaShootAlien_answers (ha : AliensIn g.board) (ht : Target g) (heven : clock.toInt.tmod 2 = 0) :
    Answers (g.iaShootAlien clock) ↔ (∃ i j, (g.board i j).alien = true ∧ g.lastShoot ≤ j) ∨ Answers g := by
  have hcol := ht.column
  rcases iaShootAlien_cases (g := g) heven with ⟨hnone, hg, -⟩ | ⟨k, hk, -, hg, -⟩
  · rw [hg]
    refine ⟨.inr, fun h => h.resolve_left ?_⟩
    rintro ⟨i, j, hij, hj⟩
    have hmem := alien_target ha hij hj
    rw [hnone] at hmem
    exact absurd hmem List.not_mem_nil
  · obtain ⟨hk1, -, hk0⟩ := mem_targets.1 hk
    have hlow := target_lowest ha (by omega) hk0
    refine iff_of_true ⟨_, k, (iaShootAlien_lowest g clock).2 hlow, ?_⟩ (.inl ⟨_, k, hlow.1, hk1⟩)
    rw [hg]
    exact (put_mark (L := Cell.alienShoot) (f := (·.setAlienShoot true)) (fun _ => rfl) (_, k)).2 (.inl rfl)

/-- **When the aliens fall silent**: in every call of every run at an even reading. -/
theorem silent_iff (hr : Run gameSystem tr g) : ∀ t ∈ tr, (t.before.pressed t.event.key).Due t.event.now →
    t.event.clock.toInt.tmod 2 = 0 →
    (Answers ((t.before.beforeShot t.event).iaShootAlien t.event.clock) ↔
      (∃ i j, ((t.before.beforeShot t.event).board i j).alien = true ∧ (t.before.beforeShot t.event).lastShoot ≤ j) ∨
        Answers (t.before.beforeShot t.event)) := by
  intro t ht hd heven
  have hP := run_beforeShot hr ht hd
  exact iaShootAlien_answers (hP.formation.aliensIn hP.row) hP.target heven

/-- The first call of the game, which is answered from column 3. -/
theorem silent_iff_first : ∃ t g, Run gameSystem [t] g ∧ t.event = fire ∧
    Answers ((t.before.beforeShot t.event).iaShootAlien t.event.clock) := by
  obtain ⟨tr, g, hr, htr, hk, h, -⟩ := lefts_run 0 (by omega)
  obtain rfl : tr = [] := by simpa using htr
  obtain ⟨hL, -⟩ := h.due (run_placed hr) (run_shields hr) (by omega) fun _ _ h => h.elim
  have haim := lastShoot_congr ((moveAliens_aim g.moveShoots).trans (moveShoots_aim g))
  obtain ⟨hx, hy, -⟩ := hL.corner
  have halien := hL.alive
  have hlast := haim.trans hk
  unfold Alive at halien
  have hkey : g.pressed fire.key = g := rfl
  have hdue : (g.pressed fire.key).Due fire.now := by
    rw [hkey, Game.Due, h.clock]
    decide
  have hr' := hr.step (h.step fire)
  have hiff := silent_iff hr' _ List.mem_cons_self hdue (show fire.clock.toInt.tmod 2 = 0 by decide)
  have hbefore : g.beforeShot fire = g.moveShoots.moveAliens := by rw [Game.beforeShot, hkey]
  refine ⟨_, _, hr', rfl, hiff.2 (.inl ?_)⟩
  dsimp only
  rw [hbefore, hlast]
  exact ⟨_, _, halien, by omega⟩

/-! ### A battle -/

/-- The ship at column `y`, the game on its way, with shots of the aliens in `A` and of the ship in `T`. -/
structure Battle (g : Game) (y : ℤ) (t : Word) (A T : ℤ → ℤ → Prop) : Prop where
  running : g.lose = false ∧ g.win = false
  ship : g.yShip = y
  alive : Alive g 4 0
  clock : g.t0 = t
  alienShots : ∀ i j, (g.board i j).alienShoot = true ↔ A i j
  shipShots : ∀ i j, (g.board i j).shipShoot = true ↔ T i j

/-- The corner of the formation, and the flags. -/
def Course (g : Game) (x c : ℤ) (r l d : Bool) : Prop :=
  g.xAliens = x ∧ g.yAliens = c ∧ g.moveRight = r ∧ g.moveLeft = l ∧ g.moveDown = d

theorem Course.right (h : Course g x c true false false) (hc : c ≠ 28) :
    Course g.moveAliens x (c + 1) true false false := by
  obtain ⟨h1, h2, h3, h4, h5⟩ := h
  obtain ⟨-, hx, hy, hl, -, hr⟩ := moveAliens_right h5 h3
  obtain ⟨hr, hd⟩ := hr (by omega)
  exact ⟨hx.trans h1, by omega, hr, hl.trans h4, hd⟩

theorem Course.turn (h : Course g x 28 true false false) : Course g.moveAliens x 29 false false true := by
  obtain ⟨h1, h2, h3, h4, h5⟩ := h
  obtain ⟨-, hx, hy, hl, hr, -⟩ := moveAliens_right h5 h3
  obtain ⟨hr, hd⟩ := hr (by omega)
  exact ⟨hx.trans h1, by omega, hr, hl.trans h4, hd⟩

theorem Course.down (h : Course g x 29 false false true) : Course g.moveAliens (x + 1) 29 false true false := by
  obtain ⟨h1, h2, h3, h4, h5⟩ := h
  obtain ⟨-, hx, hy, -, hr, hl, hd⟩ := moveAliens_down h5 (.inr h2)
  rw [if_neg (by omega)] at hr hl
  exact ⟨by omega, hy.trans h2, hr.trans h3, hl, hd⟩

theorem Course.left (h : Course g x c false true false) (hc : c ≠ 3) :
    Course g.moveAliens x (c - 1) false true false := by
  obtain ⟨h1, h2, h3, h4, h5⟩ := h
  obtain ⟨-, hx, hy, hr, -, hl⟩ := moveAliens_left h5 h3 h4
  obtain ⟨hl, hd⟩ := hl (by omega)
  exact ⟨hx.trans h1, by omega, hr.trans h3, hl, hd⟩

theorem moveShoots_rest (g : Game) : g.moveShoots.xAliens = g.xAliens ∧ g.moveShoots.yAliens = g.yAliens ∧
    g.moveShoots.moveRight = g.moveRight ∧ g.moveShoots.moveLeft = g.moveLeft ∧
    g.moveShoots.moveDown = g.moveDown := by
  obtain ⟨-, h1, h2, h3, h4, h5⟩ :=
    formation_fields ((moveShootsAliens_formation g.cancelShoots).trans (cancelShoots_formation g))
  obtain ⟨h1', h2', h3', h4', h5'⟩ := moveShootsShip_rest g.cancelShoots.moveShootsAliens
  exact ⟨h1'.trans h1, h2'.trans h2, h3'.trans h3, h4'.trans h4, h5'.trans h5⟩

/-- The shots do not move the formation. -/
theorem Course.moveShoots {v l d : Bool} (h : Course g x c v l d) : Course g.moveShoots x c v l d := by
  obtain ⟨h1, h2, h3, h4, h5⟩ := moveShoots_rest g
  exact ⟨h1.trans h.1, h2.trans h.2.1, h3.trans h.2.2.1, h4.trans h.2.2.2.1, h5.trans h.2.2.2.2⟩

theorem Course.later {v l d : Bool} (h : Course g x c v l d) (t : Word) : Course { g with t0 := t } x c v l d := h

theorem aim_later (g : Game) (t : Word) : ({ g with t0 := t } : Game).aim = g.aim := rfl

theorem Course.shootFrom {v l d : Bool} (h : Course g x c v l d) (i k : ℤ) : Course (g.shootFrom i k) x c v l d := h

theorem shootFrom_aim (g : Game) (i k : ℤ) : (g.shootFrom i k).aim =
    (g.yAliens + (49 - Int.tdiv 50 (g.shootPointer + 1)), (g.shootPointer + 1).tmod 5) := rfl

theorem moveShoots_t0 (g : Game) : g.moveShoots.t0 = g.t0 := by
  obtain ⟨b, l, h⟩ := moveShootsAliens_rest g.cancelShoots
  rw [Game.moveShoots, Game.moveShootsShip, h]
  dsimp only
  rw [Game.cancelShoots]

theorem moveShoots_scene (g : Game) : g.moveShoots.scene = g.scene := by
  rw [Game.moveShoots, moveShootsShip_scene, moveShootsAliens_scene, cancelShoots_scene]

theorem scene_yShip (h : g'.scene = g.scene) : g'.yShip = g.yShip := congrArg Prod.snd h

/-- With no shot on the ship before, the shots lose no game. -/
theorem moveShoots_lose (h : ShotsIn g.board) (hs : ∀ i j, ¬ Struck g i j) : g.moveShoots.lose = g.lose := by
  have hl : g.cancelShoots.lose = g.lose := by rw [Game.cancelShoots]
  rw [Game.moveShoots, moveShootsShip_lose, Bool.eq_iff_iff, moveShootsAliens_lose (cancelShoots_shots h), hl]
  refine or_iff_left ?_
  rintro ⟨i, j, h1, h2⟩
  rw [layer_eq Cell.ship, cancelShoots_layer (fun _ _ => rfl) fun _ _ => rfl] at h1
  exact hs i j ⟨h1, ((cancelShoots_shot h).1 h2).1⟩

variable {t : Word} {A T : ℤ → ℤ → Prop}

/-- The ship is not struck when none of the aliens' shots is in one of its cells. -/
theorem Battle.spared (h : Battle g y t A T) (hP : Placed g) (hA : ∀ i j, A i j → ¬ ShipCell y i j) (i j : ℤ) :
    ¬ Struck g i j := by
  intro hs
  have hcell := hs.shipCell hP.confined
  rw [h.ship] at hcell
  exact hA i j ((h.alienShots i j).1 hs.2) hcell

theorem Battle.shipShots_moved (h : Battle g y t A T) (hP : Placed g) (hT : ∀ i j, T i j → g.xAliens + 6 ≤ i) (i j : ℤ) :
    (g.moveShoots.board i j).shipShoot = true ↔ T (i + 1) j ∧ ¬ A i j ∧ (g.board i j).shield = false ∧ 2 ≤ i := by
  rw [moveShoots_shipShot hP.shotsIn, h.shipShots, ← Bool.not_eq_true, h.alienShots]
  refine and_congr_right fun ht => and_congr_right fun _ => and_iff_right (Bool.eq_false_iff.2 fun ha => ?_)
  -- the formation is above the ship's shots
  have hoff := hP.formation.offset _ _ ha
  have := hT _ _ ht
  unfold IsOffset at hoff
  omega

/-- No shot is near the corner of the formation, so its alien stays. -/
theorem Battle.alive_moved (h : Battle g y t A T) (hP : Placed g) (hx : g.xAliens ≤ 16)
    (hT : ∀ i j, T i j → g.xAliens + 6 ≤ i) : Alive g.moveShoots 4 0 := by
  have hP₁ := moveShootsAliens_placed (cancelShoots_placed hP)
  have hfirst := (moveShootsAliens_formation g.cancelShoots).trans (cancelShoots_formation g)
  obtain ⟨-, hx₁, hy₁, -⟩ := formation_fields hfirst
  refine ((moveShootsShip_formation hP₁.formation (by omega)).2 4 0).2 ⟨(alive_congr hfirst).2 h.alive, fun hs => ?_⟩
  unfold ShotAt at hs
  rw [layer_eq Cell.shipShoot, moveShootsAliens_layer (fun _ _ => rfl) fun _ _ => rfl, ← layer_eq Cell.shipShoot,
    cancelShoots_shipShot hP.shotsIn, h.shipShots] at hs
  have := hT _ _ hs.1
  omega

/-- **The moves of a round**: the shots go on, where neither a shot of the other side nor a shield stops
them. -/
theorem Battle.moves (h : Battle g y t A T) (hP : Placed g) (hx : g.xAliens ≤ 16) (hA : ∀ i j, A i j → ¬ ShipCell y i j)
    (hT : ∀ i j, T i j → g.xAliens + 6 ≤ i) : Placed g.moveShoots.moveAliens ∧
    Battle g.moveShoots.moveAliens y t
      (fun i j => A (i - 1) j ∧ ¬ T i j ∧ (g.board (i - 1) j).shield = false ∧ i ≤ 23)
      (fun i j => T (i + 1) j ∧ ¬ A i j ∧ (g.board i j).shield = false ∧ 2 ≤ i) := by
  have hS := hP.shotsIn
  have hrest := moveShoots_rest g
  have hP₁ := moveShootsAliens_placed (cancelShoots_placed hP)
  obtain ⟨-, hx₁, hy₁, -⟩ := formation_fields
    ((moveShootsAliens_formation g.cancelShoots).trans (cancelShoots_formation g))
  have hP₂ : Placed g.moveShoots := moveShootsShip_placed hP₁ (by omega)
  have hP₃ := moveAliens_placed hP₂ (by omega)
  have hship := h.shipShots_moved hP hT
  have halien₂ := h.alive_moved hP hx hT
  obtain ⟨-, -, halive₃⟩ := moveAliens_formation hP₂.formation (by omega)
  have halien₃ : Alive g.moveShoots.moveAliens 4 0 := by
    refine (halive₃ 4 0).2 ⟨halien₂, fun hs => ?_⟩
    have hs := (hship _ _).1 hs.2
    have := hT _ _ hs.1
    omega
  -- the aliens move without touching the shots
  have hlayer : ∀ L : Cell → Bool, (∀ c v, L (Cell.setAlien c v) = L c) → (∀ c v, L (Cell.setShield c v) = L c) →
      ∀ i j, L (g.moveShoots.moveAliens.board i j) = L (g.moveShoots.board i j) := by
    intro L ha hd i j
    rw [layer_eq L, moveAliens_layer ha hd, ← layer_eq L]
  refine ⟨hP₃, ⟨Bool.eq_false_iff.2 fun hl => ?_, Bool.eq_false_iff.2 fun hw => ?_⟩, ?_, halien₃, ?_, fun i j => ?_,
    fun i j => ?_⟩
  -- not lost: no strike, and the formation is not at the bottom
  · rcases (moveAliens_lose g.moveShoots).1 hl with hl | ⟨-, hl⟩
    · rw [moveShoots_lose hS (h.spared hP hA), h.running.1] at hl
      cases hl
    · omega
  -- not won: the corner alien lives
  · have hnone := (moveAliens_win hP₂.formation (by omega) ((moveShoots_win g).trans h.running.2)).1 hw
    unfold Alive at halien₂
    rw [hnone] at halien₂
    cases halien₂
  · have hs := (moveAliens_scene g.moveShoots).1
    rw [scene_yShip hs, scene_yShip (moveShoots_scene g)]
    exact h.ship
  · exact (moveAliens_t0 _).trans ((moveShoots_t0 g).trans h.clock)
  · rw [hlayer Cell.alienShoot (fun _ _ => rfl) fun _ _ => rfl, moveShoots_alienShot hS, h.alienShots,
      ← Bool.not_eq_true, h.shipShots]
  · rw [hlayer Cell.shipShoot (fun _ _ => rfl) fun _ _ => rfl, hship]

/-- From column `last_shoot` on, the first alien is the lowest one at the corner of the formation. -/
theorem Battle.fires (h : Battle g y t A T) (hP : Placed g) (hk : g.lastShoot ≤ g.yAliens)
    (heven : clock.toInt.tmod 2 = 0) : g.iaShootAlien clock = g.shootFrom (g.xAliens + 4) g.yAliens := by
  have hF := hP.formation
  have ha := hF.aliensIn hP.row
  have hcorner : (g.board (g.xAliens + 4) g.yAliens).alien = true := by
    have halien := h.alive
    unfold Alive at halien
    rwa [show g.yAliens + 0 = g.yAliens by omega] at halien
  have hcol := hP.target.column
  have hmem := alien_target ha hcorner hk
  rcases iaShootAlien_cases (g := g) heven with ⟨hnone, -, -⟩ | ⟨k, hk', hfirst, hg, -⟩
  · rw [hnone] at hmem
    exact absurd hmem List.not_mem_nil
  · obtain ⟨hk1, -, hk0⟩ := mem_targets.1 hk'
    have hle := hfirst _ hmem
    have hlow := target_lowest ha (by omega) hk0
    have hoff := hF.offset _ _ hlow.1
    obtain rfl : k = g.yAliens := by
      unfold IsOffset at hoff
      omega
    have hin := ha _ _ hcorner
    have hrow := isAlien_lowest g (by omega) hin.2.2 hcorner
    rw [hg, show g.isAlien.getD g.yAliens.toNat 0 = g.xAliens + 4 by
      unfold IsOffset at hoff
      omega]

theorem Battle.shootFrom (h : Battle g y t A T) (i k : ℤ) :
    Battle (g.shootFrom i k) y t (fun i' j' => (i' = i ∧ j' = k) ∨ A i' j') T := by
  have hlayer : ∀ L : Cell → Bool, (∀ c v, L (Cell.setAlienShoot c v) = L c) → ∀ i' j',
      L ((g.board.set i k (·.setAlienShoot true)) i' j') = L (g.board i' j') := by
    intro L hL i' j'
    rw [layer_eq L, layer_set (hL · _), ← layer_eq L]
  refine ⟨h.running, h.ship, ?_, h.clock, fun i' j' => ?_, fun i' j' => ?_⟩
  · exact (hlayer Cell.alien (fun _ _ => rfl) _ _).trans h.alive
  · rw [← h.alienShots, ← Prod.mk.injEq]
    exact put_mark (L := Cell.alienShoot) (f := (·.setAlienShoot true)) (fun _ => rfl) (i', j')
  · rw [← h.shipShots]
    exact iff_of_eq (congrArg (· = true) (hlayer Cell.shipShoot (fun _ _ => rfl) i' j'))

theorem Battle.later (h : Battle g y t A T) (l : Word) : Battle { g with t0 := l } y l A T :=
  ⟨h.running, h.ship, h.alive, rfl, h.alienShots, h.shipShots⟩

theorem Battle.step (h : Battle g y t A T) (inp : Game.Input) : gameSystem.step g inp () (g.round inp) :=
  ⟨h.running.1, h.running.2, rfl⟩

theorem round_beforeShot {inp : Game.Input} (hd : (g.pressed inp.key).Due inp.now) :
    g.round inp = { (g.beforeShot inp).iaShootAlien inp.clock with t0 := inp.later } := by
  unfold Game.round
  dsimp only
  rw [if_pos hd, Game.iaMove, Game.beforeShot]

/-- A round without a key, at an odd reading. -/
theorem round_quiet (inp : Game.Input) (hkey : inp.key = none) (hd : g.Due inp.now) (hodd : inp.clock.toInt.tmod 2 ≠ 0) :
    g.round inp = { g.moveShoots.moveAliens with t0 := inp.later } := by
  have hpressed : g.pressed inp.key = g := by rw [hkey, Game.pressed]
  rw [round_beforeShot (by rwa [hpressed]), iaShootAlien_odd hodd, Game.beforeShot, hpressed]

theorem Course.quiet {x' c' : ℤ} {v l d v' l' d' : Bool} {inp : Game.Input} (h : Course g x c v l d)
    (hround : g.round inp = { g.moveShoots.moveAliens with t0 := inp.later })
    (hcourse : ∀ g : Game, Course g x c v l d → Course g.moveAliens x' c' v' l' d') :
    Course (g.round inp) x' c' v' l' d' := by
  rw [hround]
  exact (hcourse _ h.moveShoots).later inp.later

theorem aim_quiet {inp : Game.Input} (hround : g.round inp = { g.moveShoots.moveAliens with t0 := inp.later }) :
    (g.round inp).aim = g.aim := by
  rw [hround, aim_later, moveAliens_aim, moveShoots_aim]

/-- A round without a key, at an even reading, with the formation in reach. -/
theorem round_fires {v l d : Bool} (inp : Game.Input) (hkey : inp.key = none) (hd : g.Due inp.now)
    (heven : inp.clock.toInt.tmod 2 = 0) (h : Battle g.moveShoots.moveAliens y t A T)
    (hP : Placed g.moveShoots.moveAliens) (hcourse : Course g.moveShoots.moveAliens x c v l d) (hk : g.lastShoot ≤ c) :
    g.round inp = { g.moveShoots.moveAliens.shootFrom (x + 4) c with t0 := inp.later } := by
  have hpressed : g.pressed inp.key = g := by rw [hkey, Game.pressed]
  have hlast := lastShoot_congr ((moveAliens_aim g.moveShoots).trans (moveShoots_aim g))
  have hfires := h.fires hP (by rw [hlast, hcourse.2.1]; exact hk) heven
  rw [round_beforeShot (by rwa [hpressed]), Game.beforeShot, hpressed, hfires, hcourse.1, hcourse.2.1]

/-! ### A run to silence -/

/-- The ship at column 40, with no shots of its own, and those of the aliens in column 29, from row `n` on. -/
def March (g : Game) (t : Word) (n : ℤ) : Prop :=
  ∃ A, Battle g 40 t A (fun _ _ => False) ∧ ∀ i j, A i j → n ≤ i ∧ j = 29

theorem March.moves {n : ℤ} (h : March g t n) (hP : Placed g) (hx : g.xAliens ≤ 16) :
    Placed g.moveShoots.moveAliens ∧ March g.moveShoots.moveAliens t (n + 1) := by
  obtain ⟨A, hB, hA⟩ := h
  have haway : ∀ i j, A i j → ¬ ShipCell 40 i j := by
    intro i j hij hc
    have := hA i j hij
    unfold ShipCell at hc
    omega
  obtain ⟨hP', hB'⟩ := hB.moves hP hx haway fun _ _ h => h.elim
  refine ⟨hP', _, ⟨hB'.running, hB'.ship, hB'.alive, hB'.clock, hB'.alienShots, fun i j => ?_⟩, fun i j hij => ?_⟩
  · rw [hB'.shipShots, false_and]
  · have := hA _ _ hij.1
    omega

/-- The game on its course, with the next shot as it was aimed. -/
structure Bound (g : Game) (t : Word) (n x c : ℤ) (v l d : Bool) (aim : ℤ × ℤ) : Prop where
  march : March g t n
  course : Course g x c v l d
  aimed : g.aim = aim

def opening : Game.Input := ⟨none, tick 0, tick 0, tick 0⟩

/-- The `n` rounds from the one of `fall k` on, latest first. -/
def fallsFrom (k : ℕ) : ℕ → List Game.Input
  | 0 => []
  | n + 1 => fall (k + n) :: fallsFrom k n

/-- A round at an even reading. -/
def volley (n : ℕ) : Game.Input := ⟨none, tick (n + 1) - 1, tick (n + 1) - 1, tick (n + 1)⟩

theorem volley_due : ∀ n < 60, seg < (tick (n + 1) - 1 - tick n).toInt ∧ (tick (n + 1) - 1).toInt.tmod 2 = 0 := by
  decide

/-- A quiet round takes the game a step on its course. -/
theorem Bound.quiet {n x' c' : ℤ} {v l d v' l' d' : Bool} {aim : ℤ × ℤ} {t : Word}
    (h : Bound g t n x c v l d aim) (inp : Game.Input) (hr : Run gameSystem tr g) (hx : x ≤ 16) (hkey : inp.key = none)
    (hd : seg < (inp.now - t).toInt) (hodd : inp.clock.toInt.tmod 2 ≠ 0)
    (hcourse : ∀ g : Game, Course g x c v l d → Course g.moveAliens x' c' v' l' d') :
    Run gameSystem (⟨g, inp, (), g.round inp⟩ :: tr) (g.round inp) ∧
      Bound (g.round inp) inp.later (n + 1) x' c' v' l' d' aim := by
  obtain ⟨A, hB, -⟩ := h.march
  have hround := round_quiet inp hkey (by rwa [Game.Due, hB.clock]) hodd
  obtain ⟨-, A', hB', hA'⟩ := h.march.moves (run_placed hr) (h.course.1.trans_le hx)
  refine ⟨hr.step (hB.step inp), ⟨A', ?_, hA'⟩, h.course.quiet hround hcourse, (aim_quiet hround).trans h.aimed⟩
  rw [hround]
  exact hB'.later inp.later

theorem March.mono {n m : ℤ} {t : Word} (h : March g t n) (hm : m ≤ n) : March g t m := by
  obtain ⟨A, hB, hA⟩ := h
  exact ⟨A, hB, fun i j hij => ⟨Int.le_trans hm (hA i j hij).1, (hA i j hij).2⟩⟩

theorem initBoard_bound : Bound (Game.initBoard {}) 0 24 3 2 true false false (3, 1) := by
  obtain ⟨hl, hw⟩ := initBoard_rest {}
  refine ⟨⟨fun _ _ => False, ⟨⟨hl, hw⟩, rfl, ?_, rfl, fun i j => ?_, fun i j => ?_⟩, fun _ _ h => h.elim⟩,
    ⟨rfl, rfl, rfl, rfl, rfl⟩, rfl⟩
  · exact initBoard_alien.2 (by unfold IsOffset; decide)
  · exact ⟨fun h => Bool.false_ne_true ((initBoard_shots i j).2.symm.trans h), False.elim⟩
  · exact ⟨fun h => Bool.false_ne_true ((initBoard_shots i j).1.symm.trans h), False.elim⟩

/-- To the right, without a shot. -/
theorem rights_run (n : ℕ) (hn : n ≤ 25) : ∃ tr g, Run gameSystem tr g ∧
    tr.map Transition.event = falls n ++ [opening] ∧ Bound g (tick n) 24 3 (3 + n) true false false (3, 1) := by
  induction n with
  | zero =>
    obtain ⟨hr, h⟩ := initBoard_bound.quiet opening (.init rfl) (by decide) rfl (by decide) (by decide)
      fun g h => h.right (by decide)
    exact ⟨_, _, hr, rfl, h.march.mono (by decide), h.course, h.aimed⟩
  | succ n ih =>
    obtain ⟨tr, g, hr, htr, h⟩ := ih (by omega)
    obtain ⟨hdue, hodd⟩ := falls_due n (by omega)
    obtain ⟨hr', h'⟩ := h.quiet (fall n) hr (by decide) rfl hdue hodd fun g h => h.right (by omega)
    refine ⟨_, _, hr', by rw [List.map_cons, htr]; rfl, h'.march.mono (by decide), ?_, h'.aimed⟩
    rw [show (3 : ℤ) + ((n + 1 : ℕ) : ℤ) = 3 + n + 1 by omega]
    exact h'.course

/-- The shot from column 29 sets `last_shoot` to 53. -/
theorem volley_run : ∃ tr g, Run gameSystem tr g ∧
    tr.map Transition.event = volley 25 :: (falls 25 ++ [opening]) ∧
    Bound g (tick 26) 7 3 29 false false true (53, 2) := by
  obtain ⟨tr, g, hr, htr, h⟩ := rights_run 25 le_rfl
  obtain ⟨hdue, heven⟩ := volley_due 25 (by decide)
  have hxy : g.xAliens ≤ 16 := h.course.1.trans_le (by decide)
  obtain ⟨hP, A, hB, hA⟩ := h.march.moves (run_placed hr) hxy
  have hcourse : Course g.moveShoots.moveAliens 3 29 false false true :=
    (show Course g 3 28 true false false from h.course).moveShoots.turn
  obtain ⟨hlast, hpointer⟩ := Prod.mk.inj h.aimed
  obtain ⟨A₀, hB₀, -⟩ := h.march
  have hround := round_fires (volley 25) rfl (by rw [Game.Due, hB₀.clock]; exact hdue) heven hB hP hcourse
    (by rw [hlast]; decide)
  refine ⟨_, _, hr.step (hB₀.step (volley 25)), by rw [List.map_cons, htr], ?_⟩
  rw [hround]
  refine ⟨⟨_, (hB.shootFrom 7 29).later (tick 26), fun i j hij => ?_⟩, ?_, ?_⟩
  · rcases hij with ⟨rfl, rfl⟩ | hij
    · decide
    · have := hA i j hij
      omega
  · exact (hcourse.shootFrom 7 29).later (tick 26)
  · have hpointer' := (Prod.mk.inj ((moveAliens_aim g.moveShoots).trans (moveShoots_aim g))).2
    rw [aim_later, shootFrom_aim, hpointer', hpointer, hcourse.2.1]
    decide

/-- Down, and to the left, without a shot. -/
theorem back_run (n : ℕ) (hn : n ≤ 24) : ∃ tr g, Run gameSystem tr g ∧
    tr.map Transition.event = fallsFrom 26 (n + 1) ++ volley 25 :: (falls 25 ++ [opening]) ∧
    Bound g (tick (27 + n)) (8 + n) 4 (29 - n) false true false (53, 2) := by
  induction n with
  | zero =>
    obtain ⟨tr, g, hr, htr, h⟩ := volley_run
    obtain ⟨hdue, hodd⟩ := falls_due 26 (by decide)
    obtain ⟨hr', h'⟩ := h.quiet (fall 26) hr (by decide) rfl hdue hodd fun g h => h.down
    exact ⟨_, _, hr', by rw [List.map_cons, htr]; rfl, h'⟩
  | succ n ih =>
    obtain ⟨tr, g, hr, htr, h⟩ := ih (by omega)
    obtain ⟨hdue, hodd⟩ := falls_due (27 + n) (by omega)
    obtain ⟨hr', h'⟩ := h.quiet (fall (27 + n)) hr (by decide) rfl hdue hodd fun g h => h.left (by omega)
    refine ⟨_, _, hr', ?_, ?_⟩
    · rw [List.map_cons, htr, show 27 + n = 26 + (n + 1) by omega]
      rfl
    · rw [show (8 : ℤ) + ((n + 1 : ℕ) : ℤ) = 8 + n + 1 by omega, show (29 : ℤ) - ((n + 1 : ℕ) : ℤ) = 29 - n - 1 by omega]
      exact h'

/-- **A call that is not answered.** The only shot so far was fired from column 29 at the right edge, and
left `last_shoot` at 53. Back at column 4 all aliens are left of it, and the call does nothing. -/
theorem silence : ∃ t tr g, Run gameSystem (t :: tr) g ∧
    (t :: tr).map Transition.event = volley 51 :: (fallsFrom 26 25 ++ volley 25 :: (falls 25 ++ [opening])) ∧
    (t.before.pressed t.event.key).Due t.event.now ∧ t.event.clock.toInt.tmod 2 = 0 ∧
    (t.before.beforeShot t.event).lose = false ∧ (∃ i j, ((t.before.beforeShot t.event).board i j).alien = true) ∧
    ¬ Answers ((t.before.beforeShot t.event).iaShootAlien t.event.clock) := by
  obtain ⟨tr, g, hr, htr, h⟩ := back_run 24 le_rfl
  obtain ⟨hdue, heven⟩ := volley_due 51 (by decide)
  obtain ⟨A₀, hB₀, -⟩ := h.march
  have hpressed : g.pressed (volley 51).key = g := rfl
  have hbefore : g.beforeShot (volley 51) = g.moveShoots.moveAliens := by rw [Game.beforeShot, hpressed]
  have hdue' : (g.pressed (volley 51).key).Due (volley 51).now := by
    rw [hpressed, Game.Due, hB₀.clock]
    exact hdue
  have hcourse : Course g.moveShoots.moveAliens 4 4 false true false :=
    (show Course g 4 5 false true false from h.course).moveShoots.left (by decide)
  have haim : g.moveShoots.moveAliens.aim = (53, 2) := by
    rw [moveAliens_aim, moveShoots_aim]
    exact h.aimed
  obtain ⟨hP, A, hB, hA⟩ := h.march.moves (run_placed hr) (h.course.1.trans_le (by decide))
  have heven' : (volley 51).clock.toInt.tmod 2 = 0 := heven
  have hlast : g.moveShoots.moveAliens.lastShoot = 53 := (Prod.mk.inj haim).1
  have hsilent : ¬ Answers (g.moveShoots.moveAliens.iaShootAlien (volley 51).clock) := by
    rw [iaShootAlien_answers (hP.formation.aliensIn hP.row) hP.target heven', hlast]
    rintro (⟨i, j, ha, hj⟩ | ⟨i, j, -, hs⟩)
    · have hoff := hP.formation.offset i j ha
      rw [hcourse.2.1] at hoff
      unfold IsOffset at hoff
      omega
    · -- the shot has long gone
      have hrow := hA i j ((hB.alienShots i j).1 hs)
      have hin := hP.shotsIn.alien i j hs
      omega
  refine ⟨_, tr, _, hr.step (hB₀.step (volley 51)), by rw [List.map_cons, htr], hdue', heven, ?_, ?_, ?_⟩
  · dsimp only
    rw [hbefore]
    exact hB.running.1
  · dsimp only
    rw [hbefore]
    exact ⟨_, _, hB.alive⟩
  · dsimp only
    rw [hbefore]
    exact hsilent

end Zeos
