import Zeos.Game

/-!
# The formation of the aliens

The position of the formation is kept in `x_aliens` and `y_aliens` and moved by three flags, the aliens
themselves by sweeps over the board.

* `aliensDown_alien`, `aliensRight_alien`, `aliensLeft_alien`: each sweep moves every alien by one cell.
* `moveShootsShip_alien`: the sweep of the ship's shots takes away the aliens that are hit.
* `moveAliens_formation`: formation and position move together.
* `formation_kept`: **the formation stays in one piece**: every alien keeps its offset, and is lost
  only to a shot of the ship.
-/

namespace Zeos

open Execution GridSweep

variable {b : Board} {g g' : Game} {i j r c d x y : ℤ} {p q : ℤ × ℤ} {v : Bool}

/-! ### Layers of the board -/

def Board.aliens (b : Board) (p : ℤ × ℤ) : Bool := (b p.1 p.2).alien

def Board.shots (b : Board) (p : ℤ × ℤ) : Bool := (b p.1 p.2).shipShoot

theorem set_cell {f : Cell → Cell} (p : ℤ × ℤ) :
    (b.set i j f) p.1 p.2 = if p = (i, j) then f (b i j) else b p.1 p.2 := by
  show (if p.1 = i ∧ p.2 = j then f (b i j) else b p.1 p.2) = _
  simp only [Prod.ext_iff]

theorem aliens_eq (b : Board) (i j : ℤ) : (b i j).alien = b.aliens (i, j) := rfl

theorem swept_board (g : Game) (s : Board × ℕ) : (g.swept s).board = s.1 := rfl

/-- The end of a sweep sets `WIN` only. -/
theorem swept_rest (g : Game) (s : Board × ℕ) : (g.swept s).xAliens = g.xAliens ∧ (g.swept s).yAliens = g.yAliens ∧
    (g.swept s).moveRight = g.moveRight ∧ (g.swept s).moveLeft = g.moveLeft ∧
    (g.swept s).moveDown = g.moveDown := ⟨rfl, rfl, rfl, rfl, rfl⟩

/-- A store that leaves a layer alone. -/
theorem set_layer {α : Type*} {L : Cell → α} {f : Cell → Cell} (h : ∀ c, L (f c) = L c) (p : ℤ × ℤ) :
    L ((b.set i j f) p.1 p.2) = L (b p.1 p.2) := by
  rw [set_cell]
  split
  · rename_i hp
    rw [h, hp]
  · rfl

theorem set_mark {L : Cell → Bool} {f : Cell → Cell} (h : ∀ c, L (f c) = v) (p : ℤ × ℤ) :
    L ((b.set i j f) p.1 p.2) = if p = (i, j) then v else L (b p.1 p.2) := by
  rw [set_cell]
  split
  · exact h _
  · rfl

section Marks

variable {L : Cell → Bool} {f : Cell → Cell}

/-- A store that takes the mark off its cell. -/
theorem clear_mark (h : ∀ c, L (f c) = false) (q : ℤ × ℤ) :
    L ((b.set i j f) q.1 q.2) = true ↔ L (b q.1 q.2) = true ∧ q ≠ (i, j) := by
  rw [set_mark h]
  split
  · rename_i hq
    exact iff_of_false Bool.false_ne_true fun h => h.2 hq
  · rename_i hq
    exact ⟨fun h => ⟨h, hq⟩, (·.1)⟩

/-- A store that marks its cell. -/
theorem put_mark (h : ∀ c, L (f c) = true) (q : ℤ × ℤ) :
    L ((b.set i j f) q.1 q.2) = true ↔ q = (i, j) ∨ L (b q.1 q.2) = true := by
  rw [set_mark h]
  split
  · rename_i hq
    exact iff_of_true rfl (.inl hq)
  · rename_i hq
    exact ⟨.inr, fun h => h.resolve_left hq⟩

/-- A store under a condition that marks its cell. -/
theorem put_mark_if {C : Prop} [Decidable C] (h : ∀ c, L (f c) = true) (q : ℤ × ℤ) :
    L ((if C then b.set i j f else b) q.1 q.2) = true ↔ L (b q.1 q.2) = true ∨ q = (i, j) ∧ C := by
  split
  · rename_i hC
    rw [put_mark h, or_comm, and_iff_left hC]
  · rename_i hC
    exact ⟨.inl, fun h => h.resolve_right fun h => hC h.2⟩

end Marks

@[simp] theorem aliens_setShield : (b.set i j (·.setShield v)).aliens = b.aliens := funext (set_layer fun _ => rfl)

@[simp] theorem aliens_setShip : (b.set i j (·.setShip v)).aliens = b.aliens := funext (set_layer fun _ => rfl)

@[simp] theorem aliens_setWall : (b.set i j (·.setWall v)).aliens = b.aliens := funext (set_layer fun _ => rfl)

@[simp] theorem aliens_setShipShoot : (b.set i j (·.setShipShoot v)).aliens = b.aliens :=
  funext (set_layer fun _ => rfl)

@[simp] theorem aliens_setAlienShoot : (b.set i j (·.setAlienShoot v)).aliens = b.aliens :=
  funext (set_layer fun _ => rfl)

@[simp] theorem shots_setAlien : (b.set i j (·.setAlien v)).shots = b.shots := funext (set_layer fun _ => rfl)

@[simp] theorem shots_setShield : (b.set i j (·.setShield v)).shots = b.shots := funext (set_layer fun _ => rfl)

theorem shots_setShipShoot : (b.set i j (·.setShipShoot v)).shots p = if p = (i, j) then v else b.shots p :=
  set_mark (fun _ => rfl) p

/-- An alien taken off its cell. -/
theorem cleared_aliens : (b.set i j (·.setAlien false)).aliens q = true ↔ b.aliens q = true ∧ q ≠ (i, j) :=
  clear_mark (fun _ => rfl) q

/-- An alien carried from its cell to another. -/
theorem carried_aliens : ((b.set i j (·.setAlien false)).set p.1 p.2 (·.setAlien true)).aliens q = true ↔
    p = q ∨ b.aliens q = true ∧ q ≠ (i, j) := by
  have h : ((b.set i j (·.setAlien false)).set p.1 p.2 (·.setAlien true)).aliens q = true ↔
      q = p ∨ (b.set i j (·.setAlien false)).aliens q = true := put_mark (fun _ => rfl) q
  rw [h, cleared_aliens, eq_comm]

/-- A round on a cell without an alien. -/
theorem no_alien {A : Prop} (h : b.aliens (i, j) = false) :
    b.aliens q = true ↔ b.aliens (i, j) = true ∧ A ∨ b.aliens q = true ∧ q ≠ (i, j) := by
  rw [h]
  refine ⟨fun hq => .inr ⟨hq, ?_⟩, fun hq => hq.elim (fun h => absurd h.1 Bool.false_ne_true) (·.1)⟩
  rintro rfl
  rw [h] at hq
  cases hq

/-! ### The sweeps of the aliens -/

theorem aliensDownCell_moves (b : Board) : Moves (fun s p => Game.aliensDownCell s p.1 p.2)
    (fun s p => s.1.aliens p = true) (fun p => b.shots p = false) (fun p => (p.1 + 1, p.2))
    (fun s => s.1.shots = b.shots) where
  keeps := by
    rintro ⟨b', n⟩ ⟨i, j⟩ h
    simp only [Game.aliensDownCell]
    split
    · split
      · split <;> simpa using h
      · simpa using h
    · exact h
  moves := by
    rintro ⟨b', n⟩ ⟨i, j⟩ q h
    have hshot : ((b'.set i j (·.setAlien false)) i j).shipShoot = b.shots (i, j) := by
      rw [← h]
      exact congrFun shots_setAlien (i, j)
    simp only [Game.aliensDownCell, hshot]
    split
    · rename_i ha
      have ha' : b'.aliens (i, j) = true := ha
      split
      · rename_i hs
        have hput : ∀ b₁ : Board, b₁.aliens = ((b'.set i j (·.setAlien false)).set (i + 1) j (·.setAlien true)).aliens →
            (b₁.aliens q = true ↔ b'.aliens (i, j) = true ∧ b.shots (i, j) = false ∧ (i + 1, j) = q ∨
              b'.aliens q = true ∧ q ≠ (i, j)) := by
          intro b₁ h₁
          rw [h₁, carried_aliens (p := (i + 1, j))]
          simp only [ha', hs, true_and]
        exact hput _ (by split <;> simp)
      · rename_i hs
        rw [cleared_aliens]
        exact ⟨.inr, fun h => h.resolve_left fun h => hs h.2.1⟩
    · rename_i ha
      exact no_alien (Bool.not_eq_true _ ▸ ha)

theorem aliensSideCell_moves : Moves (fun s p => Game.aliensSideCell d s p.1 p.2)
    (fun s p => s.1.aliens p = true) (fun _ => True) (fun p => (p.1, p.2 + d)) (fun _ => True) where
  keeps _ _ _ := trivial
  moves := by
    rintro ⟨b', n⟩ ⟨i, j⟩ q -
    simp only [Game.aliensSideCell]
    split
    · rename_i ha
      have ha' : b'.aliens (i, j) = true := ha
      have hput : ∀ b₁ : Board, b₁.aliens = b'.aliens →
          (((b₁.set i j (·.setAlien false)).set i (j + d) (·.setAlien true)).aliens q = true ↔
            b'.aliens (i, j) = true ∧ True ∧ (i, j + d) = q ∨ b'.aliens q = true ∧ q ≠ (i, j)) := by
        intro b₁ h₁
        rw [carried_aliens (p := (i, j + d)), h₁]
        simp only [ha', true_and]
      exact hput _ (by split <;> simp)
    · rename_i ha
      exact no_alien (Bool.not_eq_true _ ▸ ha)

/-- Aliens where the sweeps find them. -/
def InField (b : Board) : Prop := ∀ i j, (b i j).alien = true → 3 ≤ i ∧ i ≤ 21 ∧ 2 ≤ j ∧ j ≤ 77

/-- From the bottom row up: the row below has been visited. -/
theorem down_pairwise : (cells (downTo 22 3) Game.columns).Pairwise fun p q => p ≠ q ∧ (p.1 + 1, p.2) ≠ q :=
  cells_ahead (downTo_pairwise 22 3) (upTo_pairwise _ _) fun i j i' j' h => by omega

/-- From the right column to the left one. -/
theorem right_pairwise : (cells (upTo 3 21) (downTo (numColumns - 3) 2)).Pairwise fun p q =>
    p ≠ q ∧ (p.1, p.2 + 1) ≠ q :=
  cells_ahead (upTo_pairwise _ _) (downTo_pairwise _ _) fun i j i' j' h => by omega

theorem left_pairwise : (cells (upTo 3 21) Game.columns).Pairwise fun p q => p ≠ q ∧ (p.1, p.2 + -1) ≠ q :=
  cells_ahead (upTo_pairwise _ _) (upTo_pairwise _ _) fun i j i' j' h => by omega

/-- **`aliens_down`** moves every alien a row down, less those on a shot of the ship. -/
theorem aliensDown_alien (h : InField g.board) : (g.aliensDown.board i j).alien = true ↔
    (g.board (i - 1) j).alien = true ∧ (g.board (i - 1) j).shipShoot = false := by
  have hs := foldl_moves (s := (g.board, 0)) (q := (i, j)) (aliensDownCell_moves g.board) rfl down_pairwise
  rw [aliens_eq, Game.aliensDown, swept_board, forCells_eq, hs]
  constructor
  · rintro (⟨p, -, ha, hk, hp⟩ | ⟨ha, hout⟩)
    · injection hp with h1 h2
      rw [show i - 1 = p.1 by omega, ← h2]
      exact ⟨ha, hk⟩
    · obtain ⟨h1, h2, h3, h4⟩ := h i j ha
      exact absurd (by simp; omega) hout
  · rintro ⟨ha, hk⟩
    obtain ⟨h1, h2, h3, h4⟩ := h _ _ ha
    exact .inl ⟨(i - 1, j), by simp; omega, ha, hk, by simp⟩

theorem aliensSide_alien (h : InField b) {cols : List ℤ} (hc : ∀ j, j ∈ cols ↔ 2 ≤ j ∧ j ≤ 77)
    (hπ : (cells (upTo 3 21) cols).Pairwise fun p q => p ≠ q ∧ (p.1, p.2 + d) ≠ q) :
    ((forCells (upTo 3 21) cols (b, 0) (Game.aliensSideCell d)).1 i j).alien = true ↔
      (b i (j - d)).alien = true := by
  have hs := foldl_moves (s := (b, 0)) (q := (i, j)) aliensSideCell_moves trivial hπ
  rw [aliens_eq, forCells_eq, hs]
  constructor
  · rintro (⟨p, -, ha, -, hp⟩ | ⟨ha, hout⟩)
    · injection hp with h1 h2
      rw [show j - d = p.2 by omega, ← h1]
      exact ha
    · obtain ⟨h1, h2, h3, h4⟩ := h i j ha
      exact absurd (by simp [hc]; omega) hout
  · intro ha
    obtain ⟨h1, h2, h3, h4⟩ := h _ _ ha
    exact .inl ⟨(i, j - d), by simp [hc]; omega, ha, trivial, by simp⟩

/-- The count of a sweep, where there is an alien. -/
theorem aliensSideCell_raises : Raises (fun s p => Game.aliensSideCell d s p.1 p.2) (fun s => 0 < s.2)
    (fun s p => s.1.aliens p = true) (fun p => (p.1, p.2 + d)) where
  raises := by
    rintro ⟨b', n⟩ ⟨i, j⟩
    have ha : b'.aliens (i, j) = (b' i j).alien := rfl
    simp only [Game.aliensSideCell, ha]
    split
    · rename_i ha
      exact iff_of_true (Nat.succ_pos n) (.inr ha)
    · rename_i ha
      exact (or_iff_left ha).symm
  frame := by
    intro s p q h1 h2
    rw [aliensSideCell_moves.moves s p q trivial]
    exact ⟨fun h => h.elim (fun h => absurd h.2.2 h2) (·.1), fun h => .inr ⟨h, Ne.symm h1⟩⟩

theorem aliensSide_count (h : InField b) {cols : List ℤ} (hc : ∀ j, j ∈ cols ↔ 2 ≤ j ∧ j ≤ 77)
    (hπ : (cells (upTo 3 21) cols).Pairwise fun p q => p ≠ q ∧ (p.1, p.2 + d) ≠ q) :
    0 < (forCells (upTo 3 21) cols (b, 0) (Game.aliensSideCell d)).2 ↔ ∃ i j, (b i j).alien = true := by
  rw [forCells_eq, foldl_raises (s := (b, 0)) aliensSideCell_raises hπ, or_iff_right (Nat.lt_irrefl 0)]
  constructor
  · rintro ⟨p, -, ha⟩
    exact ⟨p.1, p.2, ha⟩
  · rintro ⟨i, j, ha⟩
    obtain ⟨h1, h2, h3, h4⟩ := h i j ha
    exact ⟨(i, j), by simp [hc]; omega, ha⟩

/-- **`aliens_right`** moves every alien a column to the right, -/
theorem aliensRight_alien (h : InField g.board) :
    (g.aliensRight.board i j).alien = true ↔ (g.board i (j - 1)).alien = true := by
  rw [Game.aliensRight, swept_board]
  exact aliensSide_alien h (fun j => by simp) right_pairwise

/-- and **`aliens_left`** to the left. -/
theorem aliensLeft_alien (h : InField g.board) :
    (g.aliensLeft.board i j).alien = true ↔ (g.board i (j + 1)).alien = true := by
  rw [Game.aliensLeft, swept_board, show j + 1 = j - -1 by omega]
  exact aliensSide_alien h (fun j => by simp) left_pairwise

/-! ### The shots -/

theorem moveShootsShipCell_removes : Removes (fun b p => Game.moveShootsShipCell b p.1 p.2)
    (fun b p => b.aliens p = true) (fun b p => b.shots p = true) (fun p => (p.1 - 1, p.2)) where
  removes := by
    rintro b ⟨i, j⟩ q
    simp only [Game.moveShootsShipCell]
    have hs : b.shots (i, j) = (b i j).shipShoot := rfl
    rw [hs]
    split
    · rename_i hshot
      simp only [hshot, and_true]
      split
      · rw [aliens_setShipShoot, cleared_aliens]
      · rename_i ha
        have hq : b.aliens q = true ↔ b.aliens q = true ∧ ¬ q = (i, j) := by
          refine ⟨fun h => ⟨h, ?_⟩, (·.1)⟩
          rintro rfl
          exact ha h
        rw [← hq]
        split <;> simp
    · rename_i hshot
      exact ⟨fun h => ⟨h, fun h => hshot h.2⟩, (·.1)⟩
  shots := by
    rintro b ⟨i, j⟩ q h1 h2
    simp only [Game.moveShootsShipCell]
    have hput : ∀ b₁ : Board, b₁.shots q = b.shots q → ((b₁.set i j (·.setShipShoot false)).shots q = true ↔
        b.shots q = true) := by
      intro b₁ h
      rw [shots_setShipShoot, if_neg (Ne.symm h1), h]
    split
    · split
      · exact hput _ (by rw [shots_setAlien])
      · split
        · exact hput _ (by rw [shots_setShipShoot, if_neg (Ne.symm h2)])
        · exact hput _ rfl
    · exact Iff.rfl

theorem up_pairwise : (cells (upTo 2 23) Game.columns).Pairwise fun p q => p ≠ q ∧ (p.1 - 1, p.2) ≠ q :=
  cells_ahead (upTo_pairwise _ _) (upTo_pairwise _ _) fun i j i' j' h => by omega

/-- **`move_shoots_ship`** takes away the aliens on a shot of the ship. -/
theorem moveShootsShip_alien (h : InField g.board) : (g.moveShootsShip.board i j).alien = true ↔
    (g.board i j).alien = true ∧ (g.board i j).shipShoot = false := by
  have hs := foldl_removes (s := g.board) (q := (i, j)) moveShootsShipCell_removes up_pairwise
  rw [aliens_eq, Game.moveShootsShip, forCells_eq, hs]
  constructor
  · rintro ⟨ha, hn⟩
    obtain ⟨h1, h2, h3, h4⟩ := h i j ha
    refine ⟨ha, Bool.not_eq_true _ ▸ fun hs => hn ⟨by simp; omega, hs⟩⟩
  · rintro ⟨ha, hs⟩
    refine ⟨ha, fun hn => ?_⟩
    have h1 : (g.board i j).shipShoot = true := hn.2
    rw [hs] at h1
    cases h1

/-! ### What leaves the formation alone -/

/-- The aliens and where they are going. -/
def Game.formation (g : Game) : (ℤ × ℤ → Bool) × ℤ × ℤ × Bool × Bool × Bool :=
  (g.board.aliens, g.xAliens, g.yAliens, g.moveRight, g.moveLeft, g.moveDown)

theorem formation_fields (h : g'.formation = g.formation) : g'.board.aliens = g.board.aliens ∧
    g'.xAliens = g.xAliens ∧ g'.yAliens = g.yAliens ∧ g'.moveRight = g.moveRight ∧ g'.moveLeft = g.moveLeft ∧
    g'.moveDown = g.moveDown := by
  simpa only [Game.formation, Prod.mk.injEq] using h

theorem formation_setBoard {b : Board} (h : b.aliens = g.board.aliens) (h' : g' = { g with board := b }) :
    g'.formation = g.formation := by
  rw [h', Game.formation, h]
  rfl

theorem cancelShoots_formation (g : Game) : g.cancelShoots.formation = g.formation := by
  refine formation_setBoard ?_ rfl
  rw [forCells_eq]
  refine foldl_const (g := Board.aliens) (fun b p => ?_) _ _
  unfold Game.cancelShootsCell
  split <;> simp

theorem moveShootsAliens_formation (g : Game) : g.moveShootsAliens.formation = g.formation := by
  unfold Game.moveShootsAliens
  rw [forCells_eq]
  refine foldl_const (g := Game.formation) (fun g p => ?_) _ _
  simp only [Game.moveShootsAliensCell]
  split
  · simp only [Game.formation, aliens_setAlienShoot]
    split
    · simp
    · split <;> simp
  · rfl

theorem shipRight_formation (g : Game) : g.shipRight.formation = g.formation := by
  simp only [Game.shipRight]
  split
  · split <;> simp [Game.formation]
  · rfl

theorem shipLeft_formation (g : Game) : g.shipLeft.formation = g.formation := by
  simp only [Game.shipLeft]
  split
  · split <;> simp [Game.formation]
  · rfl

theorem makeShipShoot_formation (g : Game) : g.makeShipShoot.formation = g.formation := by
  simp only [Game.makeShipShoot]
  split
  · simp [Game.formation]
  split
  · simp [Game.formation]
  · rfl

theorem pressed_formation (g : Game) (key : Option Byte) : (g.pressed key).formation = g.formation := by
  unfold Game.pressed
  split
  · rfl
  split
  · exact shipLeft_formation g
  split
  · exact shipRight_formation g
  split
  · exact makeShipShoot_formation g
  · rfl

theorem iaShootAlien_formation (g : Game) (clock : Word) : (g.iaShootAlien clock).formation = g.formation ∧
    (g.iaShootAlien clock).lose = g.lose := by
  simp only [Game.iaShootAlien, Game.iaShootAlienShots]
  split
  · refine Prod.mk.inj (foldl_const (g := fun s : (Game × List Shot) × ℕ => (s.1.1.formation, s.1.1.lose))
      (fun s k => ?_) _ ((g, []), 0))
    split
    · simp [Game.formation]
    · rfl
  · exact ⟨rfl, rfl⟩

/-! ### The formation -/

/-- The places of the formation, from its corner at `x_aliens`, `y_aliens`. -/
def IsOffset (r c : ℤ) : Prop :=
  (r = 0 ∨ r = 4) ∧ c % 2 = 0 ∧ 0 ≤ c ∧ c ≤ 48 ∨ r = 2 ∧ c % 2 = 1 ∧ 1 ≤ c ∧ c ≤ 47

/-- There is an alien at place `r`, `c` of the formation. -/
def Alive (g : Game) (r c : ℤ) : Prop := (g.board (g.xAliens + r) (g.yAliens + c)).alien = true

/-- A shot of the ship is at place `r`, `c` of the formation. -/
def ShotAt (g : Game) (r c : ℤ) : Prop := (g.board (g.xAliens + r) (g.yAliens + c)).shipShoot = true

/-- Exactly one of the flags is set. -/
def OneFlag (g : Game) : Prop :=
  g.moveRight = true ∧ g.moveLeft = false ∧ g.moveDown = false ∨
  g.moveRight = false ∧ g.moveLeft = true ∧ g.moveDown = false ∨
  g.moveRight = false ∧ g.moveLeft = false ∧ g.moveDown = true

/-- Where the formation can be, going which way. -/
structure Formation (g : Game) : Prop where
  flag : OneFlag g
  row : 3 ≤ g.xAliens
  col : 2 ≤ g.yAliens ∧ g.yAliens ≤ 29
  right : g.moveRight = true → g.yAliens ≤ 28
  left : g.moveLeft = true → 3 ≤ g.yAliens
  down : g.moveDown = true → g.yAliens = 2 ∨ g.yAliens = 29
  offset : ∀ i j, (g.board i j).alien = true → IsOffset (i - g.xAliens) (j - g.yAliens)

theorem Formation.inField (hF : Formation g) (hx : g.xAliens ≤ 17) : InField g.board := by
  intro i j ha
  have h1 := hF.row
  have h2 := hF.col
  have h3 := hF.offset i j ha
  unfold IsOffset at h3
  omega

theorem alive_congr (h : g'.formation = g.formation) : Alive g' r c ↔ Alive g r c := by
  obtain ⟨h1, h2, h3, -⟩ := formation_fields h
  unfold Alive
  rw [aliens_eq, aliens_eq, h1, h2, h3]

/-- A formation that stays where it is, less some of the aliens. -/
theorem Formation.keep (hF : Formation g) (hrest : g'.xAliens = g.xAliens ∧ g'.yAliens = g.yAliens ∧
    g'.moveRight = g.moveRight ∧ g'.moveLeft = g.moveLeft ∧ g'.moveDown = g.moveDown)
    (ha : ∀ i j, (g'.board i j).alien = true → (g.board i j).alien = true) : Formation g' := by
  obtain ⟨h1, h2, h3, h4, h5⟩ := hrest
  have hoff : ∀ i j, (g'.board i j).alien = true → IsOffset (i - g'.xAliens) (j - g'.yAliens) := by
    intro i j h
    rw [h1, h2]
    exact hF.offset i j (ha i j h)
  obtain ⟨f1, f2, f3, f4, f5, f6, -⟩ := hF
  refine ⟨?_, ?_, ?_, ?_, ?_, ?_, hoff⟩
  · unfold OneFlag at f1 ⊢
    rwa [h3, h4, h5]
  · rwa [h1]
  · rwa [h2]
  · rwa [h2, h3]
  · rwa [h2, h4]
  · rwa [h2, h5]

theorem Formation.congr (hF : Formation g) (h : g'.formation = g.formation) : Formation g' := by
  obtain ⟨h1, hrest⟩ := formation_fields h
  refine hF.keep hrest fun i j ha => ?_
  rwa [aliens_eq, h1] at ha

theorem Formation.alive (hF : Formation g) (h : Alive g r c) : IsOffset r c := by
  have h1 := hF.offset _ _ h
  rwa [show g.xAliens + r - g.xAliens = r by omega, show g.yAliens + c - g.yAliens = c by omega] at h1

/-! ### The moves of the formation -/

theorem moveAliens_down (hd : g.moveDown = true) (hy : g.yAliens = 2 ∨ g.yAliens = 29) :
    g.moveAliens.board = g.aliensDown.board ∧ g.moveAliens.xAliens = g.xAliens + 1 ∧
    g.moveAliens.yAliens = g.yAliens ∧ (18 ≤ g.xAliens + 1 → g.moveAliens.lose = true) ∧
    g.moveAliens.moveRight = (if g.yAliens = 2 then true else g.moveRight) ∧
    g.moveAliens.moveLeft = (if g.yAliens = 2 then g.moveLeft else true) ∧ g.moveAliens.moveDown = false := by
  obtain ⟨h1, h2, h3, h4, h5⟩ : g.aliensDown.xAliens = g.xAliens ∧ g.aliensDown.yAliens = g.yAliens ∧
      g.aliensDown.moveRight = g.moveRight ∧ g.aliensDown.moveLeft = g.moveLeft ∧ g.aliensDown.moveDown = g.moveDown :=
    swept_rest g _
  unfold Game.moveAliens
  rw [if_pos hd]
  simp only [h1, h2]
  rcases hy with hy | hy <;> by_cases hx : 18 ≤ g.xAliens + 1 <;> simp [hx, hy, h3, h4]

theorem moveAliens_right (hd : g.moveDown = false) (hr : g.moveRight = true) :
    g.moveAliens.board = g.aliensRight.board ∧ g.moveAliens.xAliens = g.xAliens ∧
    g.moveAliens.yAliens = g.yAliens + 1 ∧ g.moveAliens.moveLeft = g.moveLeft ∧
    (g.yAliens + 1 = 29 → g.moveAliens.moveRight = false ∧ g.moveAliens.moveDown = true) ∧
    (g.yAliens + 1 ≠ 29 → g.moveAliens.moveRight = true ∧ g.moveAliens.moveDown = false) := by
  obtain ⟨h1, h2, h3, h4, h5⟩ : g.aliensRight.xAliens = g.xAliens ∧ g.aliensRight.yAliens = g.yAliens ∧
      g.aliensRight.moveRight = g.moveRight ∧ g.aliensRight.moveLeft = g.moveLeft ∧ g.aliensRight.moveDown = g.moveDown :=
    swept_rest g _
  unfold Game.moveAliens
  rw [if_neg (by simp [hd]), if_pos hr]
  simp only [h2]
  by_cases hy : g.yAliens + 1 = 29 <;> simp [hy, h1, h3, h4, h5, hd, hr]

theorem moveAliens_left (hd : g.moveDown = false) (hr : g.moveRight = false) (hl : g.moveLeft = true) :
    g.moveAliens.board = g.aliensLeft.board ∧ g.moveAliens.xAliens = g.xAliens ∧
    g.moveAliens.yAliens = g.yAliens - 1 ∧ g.moveAliens.moveRight = g.moveRight ∧
    (g.yAliens - 1 = 2 → g.moveAliens.moveLeft = false ∧ g.moveAliens.moveDown = true) ∧
    (g.yAliens - 1 ≠ 2 → g.moveAliens.moveLeft = true ∧ g.moveAliens.moveDown = false) := by
  obtain ⟨h1, h2, h3, h4, h5⟩ : g.aliensLeft.xAliens = g.xAliens ∧ g.aliensLeft.yAliens = g.yAliens ∧
      g.aliensLeft.moveRight = g.moveRight ∧ g.aliensLeft.moveLeft = g.moveLeft ∧ g.aliensLeft.moveDown = g.moveDown :=
    swept_rest g _
  unfold Game.moveAliens
  rw [if_neg (by simp [hd]), if_neg (by simp [hr]), if_pos hl]
  simp only [h2]
  by_cases hy : g.yAliens - 1 = 2 <;> simp [hy, h1, h3, h4, h5, hd, hl]

/-- Aliens that were offsets before the move are offsets after it. -/
theorem offset_of_sub (hF : Formation g) (h : ∀ r c, Alive g' r c → Alive g r c) (i j : ℤ) :
    (g'.board i j).alien = true → IsOffset (i - g'.xAliens) (j - g'.yAliens) := by
  intro ha
  refine hF.alive (h _ _ ?_)
  unfold Alive
  rwa [show g'.xAliens + (i - g'.xAliens) = i by omega, show g'.yAliens + (j - g'.yAliens) = j by omega]

theorem movedRight_formation (hF : Formation g) (hI : InField g.board) (hr : g.moveRight = true)
    (hl : g.moveLeft = false) (hd : g.moveDown = false) : Formation g.moveAliens ∧
    g.moveAliens.xAliens = g.xAliens ∧ ∀ r c, Alive g.moveAliens r c ↔ Alive g r c := by
  have hrow := hF.row
  have hcol := hF.col
  have hy := hF.right hr
  obtain ⟨h1, h2, h3, h4, h5, h6⟩ := moveAliens_right hd hr
  have halive : ∀ r c, Alive g.moveAliens r c ↔ Alive g r c := by
    intro r c
    unfold Alive
    rw [h1, h2, h3, aliensRight_alien hI, show g.yAliens + 1 + c - 1 = g.yAliens + c by omega]
  have hoff := offset_of_sub hF fun r c => (halive r c).1
  refine ⟨?_, h2, halive⟩
  -- at column 29 the formation goes down next
  by_cases he : g.yAliens + 1 = 29
  · obtain ⟨f1, f2⟩ := h5 he
    exact ⟨.inr (.inr ⟨f1, h4.trans hl, f2⟩), by omega, by omega, by simp [f1], by simp [h4, hl],
      fun _ => by omega, hoff⟩
  · obtain ⟨f1, f2⟩ := h6 he
    exact ⟨.inl ⟨f1, h4.trans hl, f2⟩, by omega, by omega, fun _ => by omega, by simp [h4, hl], by simp [f2], hoff⟩

theorem movedLeft_formation (hF : Formation g) (hI : InField g.board) (hr : g.moveRight = false)
    (hl : g.moveLeft = true) (hd : g.moveDown = false) : Formation g.moveAliens ∧
    g.moveAliens.xAliens = g.xAliens ∧ ∀ r c, Alive g.moveAliens r c ↔ Alive g r c := by
  have hrow := hF.row
  have hcol := hF.col
  have hy := hF.left hl
  obtain ⟨h1, h2, h3, h4, h5, h6⟩ := moveAliens_left hd hr hl
  have halive : ∀ r c, Alive g.moveAliens r c ↔ Alive g r c := by
    intro r c
    unfold Alive
    rw [h1, h2, h3, aliensLeft_alien hI, show g.yAliens - 1 + c + 1 = g.yAliens + c by omega]
  have hoff := offset_of_sub hF fun r c => (halive r c).1
  refine ⟨?_, h2, halive⟩
  -- at column 2 it goes down next
  by_cases he : g.yAliens - 1 = 2
  · obtain ⟨f1, f2⟩ := h5 he
    exact ⟨.inr (.inr ⟨h4.trans hr, f1, f2⟩), by omega, by omega, by simp [h4, hr], by simp [f1],
      fun _ => by omega, hoff⟩
  · obtain ⟨f1, f2⟩ := h6 he
    exact ⟨.inr (.inl ⟨h4.trans hr, f1, f2⟩), by omega, by omega, by simp [h4, hr], fun _ => by omega, by simp [f2],
      hoff⟩

theorem movedDown_formation (hF : Formation g) (hI : InField g.board) (hr : g.moveRight = false)
    (hl : g.moveLeft = false) (hd : g.moveDown = true) : Formation g.moveAliens ∧
    (g.xAliens ≤ 16 ∧ g.moveAliens.xAliens = g.xAliens + 1 ∨ g.moveAliens.lose = true) ∧
    ∀ r c, Alive g.moveAliens r c ↔ Alive g r c ∧ ¬ ShotAt g r c := by
  have hrow := hF.row
  have hcol := hF.col
  have hy := hF.down hd
  obtain ⟨h1, h2, h3, h4, h5, h6, h7⟩ := moveAliens_down hd hy
  have halive : ∀ r c, Alive g.moveAliens r c ↔ Alive g r c ∧ ¬ ShotAt g r c := by
    intro r c
    unfold Alive ShotAt
    rw [h1, h2, h3, aliensDown_alien hI, show g.xAliens + 1 + r - 1 = g.xAliens + r by omega, Bool.not_eq_true]
  have hoff := offset_of_sub hF fun r c h => ((halive r c).1 h).1
  refine ⟨?_, ?_, halive⟩
  -- from the left side it goes to the right next, from the right side to the left
  · rcases hy with hy | hy
    · rw [if_pos hy] at h5 h6
      exact ⟨.inl ⟨h5, h6.trans hl, h7⟩, by omega, by omega, fun _ => by omega, by simp [h6, hl], by simp [h7], hoff⟩
    · rw [if_neg (by omega)] at h5 h6
      exact ⟨.inr (.inl ⟨h5.trans hr, h6, h7⟩), by omega, by omega, by simp [h5, hr], fun _ => by omega,
        by simp [h7], hoff⟩
  · rcases Int.lt_or_le g.xAliens 17 with h | h
    · exact .inl ⟨by omega, h2⟩
    · exact .inr (h4 (by omega))

/-- **Formation and position move together.** An alien is lost only on the way down, to a shot of the
ship. -/
theorem moveAliens_formation (hF : Formation g) (hx : g.xAliens ≤ 17) : Formation g.moveAliens ∧
    (g.moveAliens.xAliens ≤ 17 ∨ g.moveAliens.lose = true) ∧
    ∀ r c, Alive g.moveAliens r c ↔ Alive g r c ∧ ¬ (g.moveDown = true ∧ ShotAt g r c) := by
  have hI := hF.inField hx
  rcases hF.flag with ⟨hr, hl, hd⟩ | ⟨hr, hl, hd⟩ | ⟨hr, hl, hd⟩
  · obtain ⟨h1, h2, h3⟩ := movedRight_formation hF hI hr hl hd
    refine ⟨h1, .inl (h2.trans_le hx), fun r c => ?_⟩
    rw [h3, hd]
    simp
  · obtain ⟨h1, h2, h3⟩ := movedLeft_formation hF hI hr hl hd
    refine ⟨h1, .inl (h2.trans_le hx), fun r c => ?_⟩
    rw [h3, hd]
    simp
  · obtain ⟨h1, h2, h3⟩ := movedDown_formation hF hI hr hl hd
    refine ⟨h1, h2.imp_left fun h => by omega, fun r c => ?_⟩
    rw [h3, and_iff_right hd]

/-! ### Rounds -/

/-- In the moves that `g` goes into, the cell of place `r`, `c` holds a shot of the ship as
`move_shoots_ship` comes to it, or on the way down `aliens_down`. -/
def Hit (g : Game) (r c : ℤ) : Prop :=
  ShotAt g.cancelShoots.moveShootsAliens r c ∨ g.moveDown = true ∧ ShotAt g.moveShoots r c

theorem moveShootsShip_rest (g : Game) : g.moveShootsShip.xAliens = g.xAliens ∧ g.moveShootsShip.yAliens = g.yAliens ∧
    g.moveShootsShip.moveRight = g.moveRight ∧ g.moveShootsShip.moveLeft = g.moveLeft ∧
    g.moveShootsShip.moveDown = g.moveDown := by
  unfold Game.moveShootsShip
  exact ⟨rfl, rfl, rfl, rfl, rfl⟩

/-- The ship's shots leave the formation where it is, less the aliens they hit. -/
theorem moveShootsShip_formation (hF : Formation g) (hx : g.xAliens ≤ 17) : Formation g.moveShootsShip ∧
    ∀ r c, Alive g.moveShootsShip r c ↔ Alive g r c ∧ ¬ ShotAt g r c := by
  have hI := hF.inField hx
  constructor
  · exact hF.keep (moveShootsShip_rest g) fun i j h => ((moveShootsShip_alien hI).1 h).1
  · intro r c
    obtain ⟨h1, h2, -⟩ := moveShootsShip_rest g
    unfold Alive ShotAt
    rw [h1, h2, moveShootsShip_alien hI, Bool.not_eq_true]

/-- From the shots of the ship on. -/
theorem moved_formation (hF : Formation g) (hx : g.xAliens ≤ 17) (clock : Word) :
    Formation (g.moveShootsShip.moveAliens.iaShootAlien clock) ∧
    ((g.moveShootsShip.moveAliens.iaShootAlien clock).xAliens ≤ 17 ∨
      (g.moveShootsShip.moveAliens.iaShootAlien clock).lose = true) ∧
    ∀ r c, Alive (g.moveShootsShip.moveAliens.iaShootAlien clock) r c ↔
      Alive g r c ∧ ¬ (ShotAt g r c ∨ g.moveDown = true ∧ ShotAt g.moveShootsShip r c) := by
  obtain ⟨hF₁, ha₁⟩ := moveShootsShip_formation hF hx
  obtain ⟨hx₁, -, -, -, hd₁⟩ := moveShootsShip_rest g
  obtain ⟨hF₂, hx₂, ha₂⟩ := moveAliens_formation hF₁ (hx₁.trans_le hx)
  obtain ⟨h₃, hl₃⟩ := iaShootAlien_formation g.moveShootsShip.moveAliens clock
  obtain ⟨-, hx₃, -⟩ := formation_fields h₃
  refine ⟨hF₂.congr h₃, ?_, fun r c => ?_⟩
  · rw [hl₃]
    exact hx₂.imp_left hx₃.trans_le
  · rw [alive_congr h₃, ha₂, ha₁, hd₁, not_or, and_assoc]

/-- **The moves of a round.** -/
theorem iaMove_formation (hF : Formation g) (hx : g.xAliens ≤ 17) (clock : Word) : Formation (g.iaMove clock) ∧
    ((g.iaMove clock).xAliens ≤ 17 ∨ (g.iaMove clock).lose = true) ∧
    ∀ r c, Alive (g.iaMove clock) r c ↔ Alive g r c ∧ ¬ Hit g r c := by
  have h := (moveShootsAliens_formation g.cancelShoots).trans (cancelShoots_formation g)
  obtain ⟨-, hx', -, -, -, hd⟩ := formation_fields h
  obtain ⟨h1, h2, h3⟩ := moved_formation (hF.congr h) (hx'.trans_le hx) clock
  refine ⟨h1, h2, fun r c => (h3 r c).trans ?_⟩
  rw [alive_congr h, hd, Hit, Game.moveShoots]

/-- **A round of the main loop.** -/
theorem round_formation (hF : Formation g) (hx : g.xAliens ≤ 17) (inp : Game.Input) : Formation (g.round inp) ∧
    ((g.round inp).xAliens ≤ 17 ∨ (g.round inp).lose = true) ∧
    ∀ r c, Alive (g.round inp) r c ↔
      Alive g r c ∧ ¬ ((g.pressed inp.key).Due inp.now ∧ Hit (g.pressed inp.key) r c) := by
  set g₁ := g.pressed inp.key with hg₁
  have h₁ : g₁.formation = g.formation := pressed_formation g inp.key
  have hF₁ : Formation g₁ := hF.congr h₁
  obtain ⟨-, hx₁, -⟩ := formation_fields h₁
  replace hx₁ : g₁.xAliens ≤ 17 := hx₁.trans_le hx
  simp only [Game.round, ← hg₁]
  split
  · rename_i hdue
    obtain ⟨hF₂, hx₂, ha₂⟩ := iaMove_formation hF₁ hx₁ inp.clock
    refine ⟨hF₂.congr rfl, hx₂, fun r c => ?_⟩
    have h1 : Alive { g₁.iaMove inp.clock with t0 := inp.later } r c ↔ Alive (g₁.iaMove inp.clock) r c := Iff.rfl
    rw [h1, ha₂, alive_congr h₁, and_iff_right hdue]
  · rename_i hdue
    refine ⟨hF₁, .inl hx₁, fun r c => ?_⟩
    rw [alive_congr h₁]
    exact ⟨fun h => ⟨h, fun h' => hdue h'.1⟩, (·.1)⟩

/-! ### Runs -/

theorem put_aliens {A : Prop} [Decidable A] : (if A then b.set i j (·.setAlien true) else b).aliens q = true ↔
    b.aliens q = true ∨ q = (i, j) ∧ A :=
  put_mark_if (fun _ => rfl) q

/-- Where `init_board` puts an alien. -/
def AlienCell (g : Game) (p : ℤ × ℤ) : Prop :=
  (p.1 = g.xAliens ∨ p.1 = g.xAliens + 4) ∧ g.yAliens ≤ p.2 ∧ p.2.tmod 2 = 0 ∧ p.2 < 52 ∨
  p.1 = g.xAliens + 2 ∧ g.yAliens ≤ p.2 ∧ p.2.tmod 2 = 1 ∧ p.2 < 51

theorem initCell_adds (g : Game) : Adds (fun b p => g.initCell b p.1 p.2) (fun b p => b.aliens p = true)
    (AlienCell g) where
  adds := by
    intro b p q
    unfold Game.initCell
    extract_lets b₁ s₁ s₂ s₃ s₄ s₅ b₂ b₃ b₄
    have h₁ : b₁.aliens = b.aliens := by
      simp only [b₁]
      split <;> simp
    have h₂ : b₂.aliens = b₁.aliens := by
      simp only [b₂, s₅, s₄, s₃, s₂, s₁]
      split <;> simp
    have h₅ : ∀ {A : Prop} [Decidable A], (if A then b₄.set p.1 p.2 (·.setShield true) else b₄).aliens = b₄.aliens := by
      intro A _
      split <;> simp
    rw [h₅, put_aliens, put_aliens, h₂, h₁, or_assoc, ← and_or_left]
    rfl

/-- **The aliens of `init_board`.** -/
theorem initBoard_alien : ((Game.initBoard {}).board i j).alien = true ↔ IsOffset (i - 3) (j - 2) := by
  have hs := foldl_adds (s := (⟨fun _ _ => {}⟩ : Board)) (q := (i, j))
    (π := cells (upTo 0 (numRows - 1)) (upTo 0 (numColumns - 1))) (initCell_adds {})
  have h0 : ¬ (⟨fun _ _ => {}⟩ : Board).aliens (i, j) = true := Bool.false_ne_true
  rw [aliens_eq, Game.initBoard, forCells_eq, hs, or_iff_right h0, mem_cells, mem_upTo, mem_upTo]
  have hmod : 0 ≤ j → j.tmod 2 = j % 2 := Int.tmod_eq_emod_of_nonneg
  have hx : ({} : Game).xAliens = 3 := rfl
  have hy : ({} : Game).yAliens = 2 := rfl
  unfold AlienCell IsOffset
  simp only [numRows, numColumns]
  by_cases hj : 0 ≤ j
  · rw [hmod hj]
    omega
  · omega

theorem initBoard_rest (g : Game) : g.initBoard.lose = g.lose ∧ g.initBoard.win = g.win := ⟨rfl, rfl⟩

theorem initBoard_formation : Formation (Game.initBoard {}) := by
  have hoff : ∀ i j, ((Game.initBoard {}).board i j).alien = true → IsOffset (i - 3) (j - 2) :=
    fun i j => initBoard_alien.1
  exact ⟨.inl ⟨rfl, rfl, rfl⟩, by decide, by decide, by decide, by decide, by decide, hoff⟩

/-- In every round so far the formation has been on its way, and it still is unless the game is lost. -/
theorem run_formation {tr : Trace Game Game.Input Unit} (hr : Run gameSystem tr g) :
    Formation g ∧ (g.xAliens ≤ 17 ∨ g.lose = true) := by
  refine hr.invariant (P := fun g => Formation g ∧ (g.xAliens ≤ 17 ∨ g.lose = true)) (fun g h => ?_) ?_
  · cases h
    exact ⟨initBoard_formation, .inl (by decide)⟩
  · rintro g inp - _ ⟨hF, hx⟩ ⟨hl, -, rfl⟩
    obtain ⟨h1, h2, -⟩ := round_formation hF (hx.resolve_right (by simp [hl])) inp
    exact ⟨h1, h2⟩

/-- **The formation of the aliens.** In every state the main loop reaches from `init_board`, whatever keys
and clock it reads, and unless the game is lost: exactly one flag is set, `x_aliens` is from 3 to 17
and `y_aliens` from 2 to 29, and every alien is at an offset of the first formation, in columns 2 to
77. And in every round, whoever is alive after it was so before it, and who is not any more was on a shot of the
ship in one of its sweeps. -/
theorem formation_kept {tr : Trace Game Game.Input Unit} (hr : Run gameSystem tr g) :
    (g.lose = false → OneFlag g ∧ 3 ≤ g.xAliens ∧ g.xAliens ≤ 17 ∧ 2 ≤ g.yAliens ∧ g.yAliens ≤ 29 ∧
      ∀ i j, (g.board i j).alien = true → IsOffset (i - g.xAliens) (j - g.yAliens) ∧ 2 ≤ j ∧ j ≤ 77) ∧
    ∀ t ∈ tr, (∀ r c, Alive t.after r c → Alive t.before r c) ∧
      ∀ r c, Alive t.before r c → ¬ Alive t.after r c →
        (t.before.pressed t.event.key).Due t.event.now ∧ Hit (t.before.pressed t.event.key) r c := by
  constructor
  · intro hl
    obtain ⟨hF, hx⟩ := run_formation hr
    have hx' := hx.resolve_right (by simp [hl])
    refine ⟨hF.flag, hF.row, hx', hF.col.1, hF.col.2, fun i j ha => ⟨hF.offset i j ha, ?_⟩⟩
    exact (hF.inField hx' i j ha).2.2
  · intro t ht
    obtain ⟨tr', -, hr', hs⟩ := hr.mem ht
    obtain ⟨hl, -, ha⟩ := hs
    obtain ⟨hF, hx⟩ := run_formation hr'
    obtain ⟨-, -, halive⟩ := round_formation hF (hx.resolve_right (by simp [hl])) t.event
    rw [ha]
    refine ⟨fun r c h => ((halive r c).1 h).1, fun r c h hn => ?_⟩
    by_contra hh
    exact hn ((halive r c).2 ⟨h, hh⟩)

/-- One round from the start, kept opaque. -/
theorem first_run (e : Game.Input) : ∃ g, Run gameSystem [⟨Game.initBoard {}, e, (), g⟩] g := by
  obtain ⟨hl, hw⟩ := initBoard_rest {}
  obtain ⟨g, hg⟩ : ∃ g, g = (Game.initBoard {}).round e := ⟨_, rfl⟩
  have hs : gameSystem.step (Game.initBoard {}) e () g := ⟨hl, hw, hg⟩
  exact ⟨g, (Run.init (S := gameSystem) (k := Game.initBoard {}) rfl).step hs⟩

/-- The first move of the game. -/
theorem formation_kept_first : ∃ t g, Run gameSystem [t] g ∧ t.event = ⟨some 0x77, 100, 2, 100⟩ ∧
    ∀ r c, Alive g r c → IsOffset r c := by
  obtain ⟨g, hr⟩ := first_run ⟨some 0x77, 100, 2, 100⟩
  refine ⟨_, g, hr, rfl, fun r c h => ?_⟩
  obtain ⟨hkept, -⟩ := (formation_kept hr).2 _ List.mem_cons_self
  exact initBoard_formation.alive (hkept r c h)

end Zeos
