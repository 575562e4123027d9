import Zeos.Proof.Formation

/-!
# The ship, its shots and those of the aliens

The ship moves by four stores into the board, and shots move by sweeps. Nothing checks an index.

* `Within`: where the marks of a layer are, and what keeps them there.
* `pressed_confined`, `round_placed`: keys and moves keep ship and shots where they belong.
* `ship_and_shots`: **ship and shots stay in their rows and columns**, so that every index of the
  board is in range.
-/

namespace Zeos

open Execution GridSweep

variable {b : Board} {g g' : Game} {i j r c d x y : ℤ} {p q : ℤ × ℤ} {v : Bool} {L : Cell → Bool}
  {R : ℤ → ℤ → Prop} {f : Cell → Cell}

/-! ### Where the marks of a layer are -/

/-- The cells with mark `L` are in the region `R`. -/
def Within (L : Cell → Bool) (R : ℤ → ℤ → Prop) (b : Board) : Prop := ∀ i j, L (b i j) = true → R i j

/-- A store that sets no mark. -/
theorem Within.set (h : Within L R b) (hf : ∀ c, L (f c) = true → L c = true) : Within L R (b.set i j f) := by
  intro i' j' h'
  rw [set_cell (i', j')] at h'
  split at h'
  · rename_i hp
    cases hp
    exact h _ _ (hf _ h')
  · exact h _ _ h'

/-- A store in the region. -/
theorem Within.put (h : Within L R b) (hR : R i j) : Within L R (b.set i j f) := by
  intro i' j' h'
  rw [set_cell (i', j')] at h'
  split at h'
  · rename_i hp
    cases hp
    exact hR
  · exact h _ _ h'

/-! ### What the sweeps leave alone -/

section Layers

variable {α : Type*} {A : Cell → α}

/-- The layer `A` of the board. -/
def Board.layer (A : Cell → α) (b : Board) (p : ℤ × ℤ) : α := A (b p.1 p.2)

theorem layer_eq (A : Cell → α) (b : Board) (i j : ℤ) : A (b i j) = b.layer A (i, j) := rfl

theorem layer_set (h : ∀ c, A (f c) = A c) : (b.set i j f).layer A = b.layer A := funext (set_layer h)

theorem cancelShoots_layer (hs : ∀ c v, A (Cell.setShipShoot c v) = A c) (hx : ∀ c v, A (Cell.setAlienShoot c v) = A c)
    (g : Game) : g.cancelShoots.board.layer A = g.board.layer A := by
  unfold Game.cancelShoots
  dsimp only
  rw [forCells_eq]
  refine foldl_const (g := Board.layer A) (fun b p => ?_) _ _
  unfold Game.cancelShootsCell
  split
  · rw [layer_set (hs · _), layer_set (hx · _)]
  · rfl

theorem moveShootsAliensCell_layer (hd : ∀ c v, A (Cell.setShield c v) = A c)
    (hx : ∀ c v, A (Cell.setAlienShoot c v) = A c) (g : Game) (i j : ℤ) :
    (g.moveShootsAliensCell i j).board.layer A = g.board.layer A := by
  simp only [Game.moveShootsAliensCell]
  split
  · rw [layer_set (hx · _)]
    split
    · rw [layer_set (hd · _)]
    split
    · rw [layer_set (hx · _)]
    · rfl
  · rfl

theorem moveShootsAliens_layer (hd : ∀ c v, A (Cell.setShield c v) = A c) (hx : ∀ c v, A (Cell.setAlienShoot c v) = A c)
    (g : Game) : g.moveShootsAliens.board.layer A = g.board.layer A := by
  unfold Game.moveShootsAliens
  rw [forCells_eq]
  refine foldl_const (g := fun g : Game => g.board.layer A) (fun g p => ?_) _ _
  exact moveShootsAliensCell_layer hd hx g p.1 p.2

theorem moveShootsShip_layer (ha : ∀ c v, A (Cell.setAlien c v) = A c) (hs : ∀ c v, A (Cell.setShipShoot c v) = A c)
    (g : Game) : g.moveShootsShip.board.layer A = g.board.layer A := by
  unfold Game.moveShootsShip
  dsimp only
  rw [forCells_eq]
  refine foldl_const (g := Board.layer A) (fun b p => ?_) _ _
  simp only [Game.moveShootsShipCell]
  split
  · rw [layer_set (hs · _)]
    split
    · rw [layer_set (ha · _)]
    split
    · rw [layer_set (hs · _)]
    · rfl
  · rfl

theorem aliensDown_layer (ha : ∀ c v, A (Cell.setAlien c v) = A c) (hd : ∀ c v, A (Cell.setShield c v) = A c)
    (g : Game) : g.aliensDown.board.layer A = g.board.layer A := by
  unfold Game.aliensDown
  rw [swept_board, forCells_eq]
  refine foldl_const (g := fun s : Board × ℕ => s.1.layer A) (fun s p => ?_) _ (g.board, 0)
  simp only [Game.aliensDownCell]
  split
  · split
    · split
      · rw [layer_set (hd · _), layer_set (ha · _), layer_set (ha · _)]
      · rw [layer_set (ha · _), layer_set (ha · _)]
    · rw [layer_set (ha · _)]
  · rfl

theorem aliensSide_layer {rows cols : List ℤ} (ha : ∀ c v, A (Cell.setAlien c v) = A c)
    (hd : ∀ c v, A (Cell.setShield c v) = A c) :
    (forCells rows cols (b, 0) (Game.aliensSideCell d)).1.layer A = b.layer A := by
  rw [forCells_eq]
  refine foldl_const (g := fun s : Board × ℕ => s.1.layer A) (fun s p => ?_) _ (b, 0)
  simp only [Game.aliensSideCell]
  split
  · split
    · rw [layer_set (ha · _), layer_set (ha · _), layer_set (hd · _)]
    · rw [layer_set (ha · _), layer_set (ha · _)]
  · rfl

/-- The move of the aliens is one of the three sweeps. -/
theorem moveAliens_board (g : Game) : g.moveAliens.board = g.aliensDown.board ∨
    g.moveAliens.board = g.aliensRight.board ∨ g.moveAliens.board = g.aliensLeft.board ∨
    g.moveAliens.board = g.board := by
  unfold Game.moveAliens
  split
  · refine .inl ?_
    simp only []
    split_ifs <;> simp only
  split
  · refine .inr (.inl ?_)
    simp only []
    split_ifs <;> simp only
  split
  · refine .inr (.inr (.inl ?_))
    simp only []
    split_ifs <;> simp only
  · exact .inr (.inr (.inr rfl))

theorem moveAliens_layer (ha : ∀ c v, A (Cell.setAlien c v) = A c) (hd : ∀ c v, A (Cell.setShield c v) = A c)
    (g : Game) : g.moveAliens.board.layer A = g.board.layer A := by
  rcases moveAliens_board g with hb | hb | hb | hb
  · rw [hb, aliensDown_layer ha hd]
  · rw [hb, Game.aliensRight, swept_board, aliensSide_layer ha hd]
  · rw [hb, Game.aliensLeft, swept_board, aliensSide_layer ha hd]
  · rw [hb]

theorem iaShootAlien_layer (hx : ∀ c v, A (Cell.setAlienShoot c v) = A c) (g : Game) (clock : Word) :
    (g.iaShootAlien clock).board.layer A = g.board.layer A := by
  simp only [Game.iaShootAlien, Game.iaShootAlienShots]
  split
  · refine foldl_const (g := fun s : (Game × List Shot) × ℕ => s.1.1.board.layer A) (fun s k => ?_) _ ((g, []), 0)
    split
    · exact layer_set (hx · _)
    · rfl
  · rfl

end Layers

/-! ### The ship and the walls -/

/-- The layers that no shot and no alien changes. -/
def Board.still (b : Board) : ℤ × ℤ → Bool × Bool := b.layer fun c => (c.ship, c.wall)

/-- The ship, where the board and where `y_ship` has it, and the walls. -/
def Game.scene (g : Game) : (ℤ × ℤ → Bool × Bool) × ℤ := (g.board.still, g.yShip)

theorem scene_eq (h : g'.board.still = g.board.still) (hy : g'.yShip = g.yShip) : g'.scene = g.scene :=
  Prod.ext h hy

theorem cancelShoots_scene (g : Game) : g.cancelShoots.scene = g.scene := by
  have hb := cancelShoots_layer (A := fun c => (c.ship, c.wall)) (fun _ _ => rfl) (fun _ _ => rfl) g
  have hy : g.cancelShoots.yShip = g.yShip := by rw [Game.cancelShoots]
  exact scene_eq hb hy

/-- The sweep of the aliens' shots changes the board, and sets `LOSE`. -/
theorem moveShootsAliens_rest (g : Game) : ∃ b l, g.moveShootsAliens = { g with board := b, lose := l } := by
  unfold Game.moveShootsAliens
  rw [forCells_eq]
  refine List.foldlRecOn (motive := fun g' : Game => ∃ b l, g' = { g with board := b, lose := l }) _ _
    ⟨g.board, g.lose, rfl⟩ fun g' h p _ => ?_
  obtain ⟨b, l, rfl⟩ := h
  unfold Game.moveShootsAliensCell
  split
  · exact ⟨_, _, rfl⟩
  · exact ⟨b, l, rfl⟩

theorem moveShootsAliens_scene (g : Game) : g.moveShootsAliens.scene = g.scene := by
  have hy : g.moveShootsAliens.yShip = g.yShip := by
    obtain ⟨b, l, h⟩ := moveShootsAliens_rest g
    rw [h]
  exact scene_eq (moveShootsAliens_layer (fun _ _ => rfl) (fun _ _ => rfl) g) hy

theorem moveShootsShip_scene (g : Game) : g.moveShootsShip.scene = g.scene := by
  have hb := moveShootsShip_layer (A := fun c => (c.ship, c.wall)) (fun _ _ => rfl) (fun _ _ => rfl) g
  have hy : g.moveShootsShip.yShip = g.yShip := by rw [Game.moveShootsShip]
  exact scene_eq hb hy

theorem swept_yShip (g : Game) (s : Board × ℕ) : (g.swept s).yShip = g.yShip := rfl

theorem moveAliens_scene (g : Game) : g.moveAliens.scene = g.scene ∧ g.moveAliens.xAliens ≤ g.xAliens + 1 := by
  have d1 : g.aliensDown.yShip = g.yShip := swept_yShip g _
  have d2 : g.aliensDown.xAliens = g.xAliens := (swept_rest g _).1
  have r1 : g.aliensRight.yShip = g.yShip := swept_yShip g _
  have r2 : g.aliensRight.xAliens = g.xAliens := (swept_rest g _).1
  have l1 : g.aliensLeft.yShip = g.yShip := swept_yShip g _
  have l2 : g.aliensLeft.xAliens = g.xAliens := (swept_rest g _).1
  have hb : g.moveAliens.board.still = g.board.still := moveAliens_layer (fun _ _ => rfl) (fun _ _ => rfl) g
  have hrest : g.moveAliens.yShip = g.yShip ∧ g.moveAliens.xAliens ≤ g.xAliens + 1 := by
    unfold Game.moveAliens
    split
    · simp only []
      split_ifs <;> simp only [d1, d2, true_and] <;> exact Int.le_refl _
    split
    · simp only []
      split_ifs <;> simp only [r1, r2, true_and] <;> omega
    split
    · simp only []
      split_ifs <;> simp only [l1, l2, true_and] <;> omega
    · exact ⟨rfl, by omega⟩
  exact ⟨scene_eq hb hrest.1, hrest.2⟩

theorem iaShootAlien_scene (g : Game) (clock : Word) : (g.iaShootAlien clock).scene = g.scene := by
  have hy : (g.iaShootAlien clock).yShip = g.yShip := by
    simp only [Game.iaShootAlien, Game.iaShootAlienShots]
    split
    · refine foldl_const (g := fun s : (Game × List Shot) × ℕ => s.1.1.yShip) (fun s k => ?_) _ ((g, []), 0)
      split <;> rfl
    · rfl
  exact scene_eq (iaShootAlien_layer (fun _ _ => rfl) g clock) hy

/-! ### The shots -/

/-- Rows 2 to 21 for the shots of the ship, 3 to 23 for those of the aliens, columns 2 to 77. -/
structure ShotsIn (b : Board) : Prop where
  ship : Within Cell.shipShoot (fun i j => 2 ≤ i ∧ i ≤ 21 ∧ 2 ≤ j ∧ j ≤ 77) b
  alien : Within Cell.alienShoot (fun i j => 3 ≤ i ∧ i ≤ 23 ∧ 2 ≤ j ∧ j ≤ 77) b

/-- A store that makes no shot. -/
theorem ShotsIn.set (h : ShotsIn b) (hf : ∀ c, ((f c).shipShoot = true → c.shipShoot = true) ∧
    ((f c).alienShoot = true → c.alienShoot = true)) : ShotsIn (b.set i j f) :=
  ⟨h.ship.set fun c => (hf c).1, h.alien.set fun c => (hf c).2⟩

theorem ShotsIn.setShip (h : ShotsIn b) : ShotsIn (b.set i j (·.setShip v)) := h.set fun _ => ⟨id, id⟩

theorem ShotsIn.setAlien (h : ShotsIn b) : ShotsIn (b.set i j (·.setAlien v)) := h.set fun _ => ⟨id, id⟩

theorem ShotsIn.setShield (h : ShotsIn b) : ShotsIn (b.set i j (·.setShield v)) := h.set fun _ => ⟨id, id⟩

theorem ShotsIn.clearShot (h : ShotsIn b) : ShotsIn (b.set i j (·.setShipShoot false)) :=
  h.set fun _ => ⟨fun h => absurd h Bool.false_ne_true, id⟩

theorem ShotsIn.clearAlienShot (h : ShotsIn b) : ShotsIn (b.set i j (·.setAlienShoot false)) :=
  h.set fun _ => ⟨id, fun h => absurd h Bool.false_ne_true⟩

theorem ShotsIn.putShot (h : ShotsIn b) (hi : 2 ≤ i ∧ i ≤ 21 ∧ 2 ≤ j ∧ j ≤ 77) :
    ShotsIn (b.set i j (·.setShipShoot true)) := ⟨h.ship.put hi, h.alien.set fun _ => id⟩

theorem ShotsIn.putAlienShot (h : ShotsIn b) (hi : 3 ≤ i ∧ i ≤ 23 ∧ 2 ≤ j ∧ j ≤ 77) :
    ShotsIn (b.set i j (·.setAlienShoot true)) := ⟨h.ship.set fun _ => id, h.alien.put hi⟩

theorem cancelShoots_shots (h : ShotsIn g.board) : ShotsIn g.cancelShoots.board := by
  unfold Game.cancelShoots
  dsimp only
  rw [forCells_eq]
  refine List.foldlRecOn (motive := ShotsIn) _ _ h fun b h p _ => ?_
  simp only [Game.cancelShootsCell]
  split
  · exact h.clearAlienShot.clearShot
  · exact h

theorem moveShootsAliens_shots (h : ShotsIn g.board) : ShotsIn g.moveShootsAliens.board := by
  unfold Game.moveShootsAliens
  rw [forCells_eq]
  refine List.foldlRecOn (motive := fun g : Game => ShotsIn g.board) _ _ h fun g h p _ => ?_
  simp only [Game.moveShootsAliensCell]
  split
  · rename_i hs
    have hij := h.alien p.1 p.2 hs
    refine ShotsIn.clearAlienShot ?_
    split
    · exact h.setShield
    split
    · rename_i hi
      have hrows : p.1 < 25 - 2 := hi.1
      exact h.putAlienShot ⟨by omega, by omega, hij.2.2⟩
    · exact h
  · exact h

theorem moveShootsShip_shots (h : ShotsIn g.board) : ShotsIn g.moveShootsShip.board := by
  unfold Game.moveShootsShip
  dsimp only
  rw [forCells_eq]
  refine List.foldlRecOn (motive := ShotsIn) _ _ h fun b h p _ => ?_
  simp only [Game.moveShootsShipCell]
  split
  · rename_i hs
    have hij := h.ship p.1 p.2 hs
    refine ShotsIn.clearShot ?_
    split
    · exact h.setAlien
    split
    · rename_i hi
      exact h.putShot ⟨by omega, by omega, hij.2.2⟩
    · exact h
  · exact h

theorem aliensDown_shots (h : ShotsIn g.board) : ShotsIn g.aliensDown.board := by
  unfold Game.aliensDown
  rw [swept_board, forCells_eq]
  refine List.foldlRecOn (motive := fun s : Board × ℕ => ShotsIn s.1) _ _ h fun s h p _ => ?_
  simp only [Game.aliensDownCell]
  split
  · split
    · split
      · exact h.setAlien.setAlien.setShield
      · exact h.setAlien.setAlien
    · exact h.setAlien
  · exact h

theorem aliensSide_shots {rows cols : List ℤ} (h : ShotsIn b) :
    ShotsIn (forCells rows cols (b, 0) (Game.aliensSideCell d)).1 := by
  rw [forCells_eq]
  refine List.foldlRecOn (motive := fun s : Board × ℕ => ShotsIn s.1) _ _ h fun s h p _ => ?_
  simp only [Game.aliensSideCell]
  split
  · split
    · exact h.setShield.setAlien.setAlien
    · exact h.setAlien.setAlien
  · exact h

theorem moveAliens_shots (h : ShotsIn g.board) : ShotsIn g.moveAliens.board := by
  rcases moveAliens_board g with hb | hb | hb | hb
  · rw [hb]
    exact aliensDown_shots h
  · rw [hb, Game.aliensRight, swept_board]
    exact aliensSide_shots h
  · rw [hb, Game.aliensLeft, swept_board]
    exact aliensSide_shots h
  · rw [hb]
    exact h

/-- What `is_alien` finds in a column is an alien. -/
theorem isAlien_alien (g : Game) (k : ℕ) (hk : 0 < g.isAlien.getD k 0) :
    (g.board (g.isAlien.getD k 0) k).alien = true := by
  have key : ∀ k : ℕ, 0 < g.isAlien.getD k 0 → (g.board (g.isAlien.getD k 0) k).alien = true := by
    unfold Game.isAlien
    rw [forCells_eq]
    refine List.foldlRecOn (motive := fun xs : Array ℤ => ∀ k : ℕ, 0 < xs.getD k 0 →
      (g.board (xs.getD k 0) k).alien = true) _ _ (fun k hk => ?_) fun xs h p hp => ?_
    · rw [Array.getD_eq_getD_getElem?, Array.getElem?_replicate] at hk
      split at hk <;> cases hk
    · split
      · rename_i ha
        intro k hk
        have hj : 2 ≤ p.2 := (mem_upTo.1 (mem_cells.1 hp).2).1
        rw [Array.getD_eq_getD_getElem?, Array.getElem?_setIfInBounds] at hk ⊢
        by_cases hkj : p.2.toNat = k
        · rw [if_pos hkj] at hk ⊢
          split at hk
          · rename_i hlt
            rw [if_pos hlt, Option.getD_some, ← hkj, Int.toNat_of_nonneg (by omega)]
            exact ha.1
          · cases hk
        · rw [if_neg hkj, ← Array.getD_eq_getD_getElem?] at hk ⊢
          exact h k hk
      · exact h
  exact key k hk

theorem getD_set {xs : Array ℤ} {k k' : ℕ} (hk : k < xs.size) (z : ℤ) :
    (xs.setIfInBounds k z).getD k' 0 = if k = k' then z else xs.getD k' 0 := by
  rw [Array.getD_eq_getD_getElem?, Array.getD_eq_getD_getElem?, Array.getElem?_setIfInBounds, if_pos hk]
  by_cases hkk : k = k'
  · rw [if_pos hkk, if_pos hkk, Option.getD_some]
  · rw [if_neg hkk, if_neg hkk]

/-- The round of `is_alien` on a cell. -/
def lowest (b : Board) (xs : Array ℤ) (p : ℤ × ℤ) : Array ℤ :=
  if (b p.1 p.2).alien = true ∧ xs.getD p.2.toNat 0 = 0 then xs.setIfInBounds p.2.toNat p.1 else xs

section Lowest

variable {xs : Array ℤ} {k : ℕ}

theorem lowest_size : (lowest b xs p).size = xs.size := by
  unfold lowest
  split <;> simp

theorem lowest_of (h : (b p.1 p.2).alien = true ∧ xs.getD p.2.toNat 0 = 0) (hp : p.2.toNat < xs.size) :
    (lowest b xs p).getD k 0 = if p.2.toNat = k then p.1 else xs.getD k 0 := by
  rw [lowest, if_pos h, getD_set hp]

theorem lowest_of_not (h : ¬ ((b p.1 p.2).alien = true ∧ xs.getD p.2.toNat 0 = 0)) : lowest b xs p = xs := by
  rw [lowest, if_neg h]

/-- An entry is filled in once, -/
theorem lowest_kept (hp : p.2.toNat < xs.size) (hk : xs.getD k 0 ≠ 0) :
    (lowest b xs p).getD k 0 = xs.getD k 0 := by
  by_cases h : (b p.1 p.2).alien = true ∧ xs.getD p.2.toNat 0 = 0
  · rw [lowest_of h hp, if_neg]
    rintro rfl
    exact hk h.2
  · rw [lowest_of_not h]

/-- with the row of the cell, -/
theorem lowest_new (hp : p.2.toNat < xs.size) (hk : (lowest b xs p).getD k 0 ≠ 0) :
    xs.getD k 0 ≠ 0 ∨ (lowest b xs p).getD k 0 = p.1 := by
  by_cases h : (b p.1 p.2).alien = true ∧ xs.getD p.2.toNat 0 = 0
  · rw [lowest_of h hp] at hk ⊢
    by_cases hpk : p.2.toNat = k
    · exact .inr (if_pos hpk)
    · rw [if_neg hpk] at hk
      exact .inl hk
  · rw [lowest_of_not h] at hk
    exact .inl hk

/-- if there is an alien in it. -/
theorem lowest_alien (hp : p.2.toNat < xs.size) (ha : (b p.1 p.2).alien = true) (h0 : p.1 ≠ 0) :
    (lowest b xs p).getD p.2.toNat 0 ≠ 0 := by
  by_cases h : (b p.1 p.2).alien = true ∧ xs.getD p.2.toNat 0 = 0
  · rw [lowest_of h hp, if_pos rfl]
    exact h0
  · rw [lowest_of_not h]
    exact fun h' => h ⟨ha, h'⟩

theorem foldl_lowest {π : List (ℤ × ℤ)} (hπ : π.Pairwise fun p q => q.1 ≤ p.1)
    (hin : ∀ p ∈ π, 0 < p.1 ∧ p.2.toNat < xs.size) (hlow : ∀ k, xs.getD k 0 ≠ 0 → ∀ p ∈ π, p.1 ≤ xs.getD k 0) :
    (∀ k, xs.getD k 0 ≠ 0 → (π.foldl (lowest b) xs).getD k 0 = xs.getD k 0) ∧
    ∀ p ∈ π, (b p.1 p.2).alien = true → p.1 ≤ (π.foldl (lowest b) xs).getD p.2.toNat 0 := by
  induction π generalizing xs with
  | nil => exact ⟨fun _ _ => rfl, by simp⟩
  | cons p π ih =>
    obtain ⟨hp, hπ⟩ := List.pairwise_cons.1 hπ
    obtain ⟨⟨hp0, hpk⟩, hin⟩ := List.forall_mem_cons.1 hin
    -- what is filled in so far is no higher than the cells to come
    have hlow' : ∀ k, (lowest b xs p).getD k 0 ≠ 0 → ∀ q ∈ p :: π, q.1 ≤ (lowest b xs p).getD k 0 := by
      intro k hk q hq
      rcases lowest_new hpk hk with hk' | hk'
      · rw [lowest_kept hpk hk']
        exact hlow k hk' q hq
      · rw [hk']
        rcases List.mem_cons.1 hq with rfl | hq
        · exact Int.le_refl _
        · exact hp q hq
    obtain ⟨h1, h2⟩ := ih hπ (fun q hq => (lowest_size (b := b) (p := p)).symm ▸ hin q hq)
      fun k hk q hq => hlow' k hk q (List.mem_cons_of_mem _ hq)
    rw [List.foldl_cons]
    refine ⟨fun k hk => ?_, fun q hq ha => ?_⟩
    · have hkept := lowest_kept (b := b) hpk hk
      rw [h1 k (by rwa [hkept]), hkept]
    · rcases List.mem_cons.1 hq with rfl | hq
      · have hne := lowest_alien hpk ha (by omega)
        rw [h1 _ hne]
        exact hlow' _ hne q List.mem_cons_self
      · exact h2 q hq ha

end Lowest

/-- `is_alien` has the lowest alien of a column. -/
theorem isAlien_lowest (g : Game) (hi : 2 ≤ i ∧ i ≤ 23) (hj : 2 ≤ j ∧ j ≤ 77) (ha : (g.board i j).alien = true) :
    i ≤ g.isAlien.getD j.toNat 0 := by
  have hπ : (cells (downTo 23 2) Game.columns).Pairwise fun p q => q.1 ≤ p.1 :=
    (cells_pairwise (downTo_pairwise 23 2) (upTo_pairwise _ _)).imp fun h => by omega
  have hin : ∀ p ∈ cells (downTo 23 2) Game.columns, 0 < p.1 ∧ p.2.toNat < (Array.replicate 80 (0 : ℤ)).size := by
    intro p hp
    simp at hp ⊢
    omega
  have hzero : ∀ k, (Array.replicate 80 (0 : ℤ)).getD k 0 = 0 := by
    intro k
    rw [Array.getD_eq_getD_getElem?, Array.getElem?_replicate]
    split <;> rfl
  have hfold := foldl_lowest (b := g.board) hπ hin fun k hk => absurd (hzero k) hk
  unfold Game.isAlien
  rw [forCells_eq]
  exact hfold.2 (i, j) (by simp; omega) ha

/-- The aliens are on the board, with a cell free on each side. -/
def AliensIn (b : Board) : Prop := Within Cell.alien (fun i j => 3 ≤ i ∧ i ≤ 22 ∧ 2 ≤ j ∧ j ≤ 77) b

/-- Where the aliens shoot from next. -/
structure Target (g : Game) : Prop where
  column : 1 ≤ g.lastShoot ∧ g.lastShoot ≤ 68
  pointer : 0 ≤ g.shootPointer ∧ g.shootPointer ≤ 4

theorem target_next (hy : 2 ≤ y ∧ y ≤ 29) (hp : 0 ≤ x ∧ x ≤ 4) :
    (1 ≤ y + (49 - Int.tdiv 50 (x + 1)) ∧ y + (49 - Int.tdiv 50 (x + 1)) ≤ 68) ∧
    0 ≤ (x + 1).tmod 5 ∧ (x + 1).tmod 5 ≤ 4 := by
  obtain ⟨h1, h2⟩ := hp
  have hx : x = 0 ∨ x = 1 ∨ x = 2 ∨ x = 3 ∨ x = 4 := by omega
  rcases hx with rfl | rfl | rfl | rfl | rfl <;> simp <;> omega

theorem iaShootAlien_shots (h : ShotsIn g.board) (ha : AliensIn g.board) (hy : 2 ≤ g.yAliens ∧ g.yAliens ≤ 29)
    (ht : Target g) (clock : Word) : ShotsIn (g.iaShootAlien clock).board ∧ Target (g.iaShootAlien clock) := by
  simp only [Game.iaShootAlien, Game.iaShootAlienShots]
  split
  · have hfold : ∀ s : (Game × List Shot) × ℕ, ShotsIn s.1.1.board ∧ Target s.1.1 ∧ s.1.1.yAliens = g.yAliens →
        ShotsIn s.1.1.board ∧ Target s.1.1 :=
      fun s h => ⟨h.1, h.2.1⟩
    refine hfold _ (List.foldlRecOn (motive := fun s : (Game × List Shot) × ℕ => ShotsIn s.1.1.board ∧
      Target s.1.1 ∧ s.1.1.yAliens = g.yAliens) _ _ ⟨h, ht, rfl⟩ fun s hs k hk => ?_)
    obtain ⟨h1, h2, h3⟩ := hs
    split
    · rename_i hc
      have hk0 : 1 ≤ k := Int.le_trans ht.column.1 (mem_upTo.1 hk).1
      have hcell := ha _ _ (isAlien_alien g k.toNat hc.2)
      rw [Int.toNat_of_nonneg (by omega)] at hcell
      obtain ⟨t1, t2⟩ := target_next (h3 ▸ hy) h2.pointer
      exact ⟨h1.putAlienShot ⟨hcell.1, by omega, hcell.2.2⟩, ⟨t1, t2⟩, h3⟩
    · exact ⟨h1, h2, h3⟩
  · exact ⟨h, ht⟩

/-! ### Moves and keys -/

/-- The cells of a ship at column `y`. -/
def ShipCell (y i j : ℤ) : Prop := i = xShip ∧ y - 2 ≤ j ∧ j ≤ y + 2 ∨ i = xShip - 1 ∧ j = y

def OnBoard (i j : ℤ) : Prop := 0 ≤ i ∧ i < numRows ∧ 0 ≤ j ∧ j < numColumns

/-- Ship, shots and walls are where they belong. -/
structure Confined (g : Game) : Prop where
  column : 4 ≤ g.yShip ∧ g.yShip ≤ 75
  ship : ∀ i j, (g.board i j).ship = true ↔ ShipCell g.yShip i j
  shots : ∀ i j, (g.board i j).shipShoot = true → 2 ≤ i ∧ i ≤ 21 ∧ 2 ≤ j ∧ j ≤ 77
  alienShots : ∀ i j, (g.board i j).alienShoot = true → 3 ≤ i ∧ i ≤ 23 ∧ 2 ≤ j ∧ j ≤ 77
  walls : ∀ i j, (g.board i j).wall = true ↔ OnBoard i j ∧ isWall i j = true

theorem Confined.shotsIn (h : Confined g) : ShotsIn g.board := ⟨h.shots, h.alienShots⟩

/-- A step that leaves ship and walls alone and keeps the shots where they belong. -/
theorem Confined.keep (h : Confined g) (hs : g'.scene = g.scene) (hb : ShotsIn g'.board) : Confined g' := by
  have hy : g'.yShip = g.yShip := congrArg Prod.snd hs
  have hstill : ∀ i j, (g'.board i j).ship = (g.board i j).ship ∧ (g'.board i j).wall = (g.board i j).wall :=
    fun i j => Prod.mk.inj (congrFun (congrArg Prod.fst hs) (i, j))
  refine ⟨hy ▸ h.column, fun i j => ?_, hb.ship, hb.alien, fun i j => ?_⟩
  · rw [(hstill i j).1, hy]
    exact h.ship i j
  · rw [(hstill i j).2]
    exact h.walls i j

/-- Where the next shot of the aliens comes from. -/
def Game.aim (g : Game) : ℤ × ℤ := (g.lastShoot, g.shootPointer)

theorem lastShoot_congr (h : g'.aim = g.aim) : g'.lastShoot = g.lastShoot := (Prod.mk.inj h).1

theorem Target.congr (h : Target g) (ha : g'.aim = g.aim) : Target g' := by
  obtain ⟨h1, h2⟩ := Prod.mk.inj ha
  exact ⟨h1 ▸ h.column, h2 ▸ h.pointer⟩

theorem swept_aim (g : Game) (s : Board × ℕ) : (g.swept s).lastShoot = g.lastShoot ∧
    (g.swept s).shootPointer = g.shootPointer := ⟨rfl, rfl⟩

theorem aim_setBoard {b : Board} (h : g' = { g with board := b }) : g'.aim = g.aim := by
  rw [h]
  rfl

theorem moveShootsAliens_aim (g : Game) : g.moveShootsAliens.aim = g.aim := by
  obtain ⟨b, l, h⟩ := moveShootsAliens_rest g
  rw [h]
  rfl

theorem moveShoots_aim (g : Game) : g.moveShoots.aim = g.aim := by
  have h1 : g.cancelShoots.aim = g.aim := aim_setBoard rfl
  have h3 : g.moveShoots.aim = g.cancelShoots.moveShootsAliens.aim := aim_setBoard rfl
  rw [h3, moveShootsAliens_aim, h1]

theorem moveAliens_aim (g : Game) : g.moveAliens.aim = g.aim := by
  obtain ⟨d1, d2⟩ : g.aliensDown.lastShoot = g.lastShoot ∧ g.aliensDown.shootPointer = g.shootPointer := swept_aim g _
  obtain ⟨r1, r2⟩ : g.aliensRight.lastShoot = g.lastShoot ∧ g.aliensRight.shootPointer = g.shootPointer := swept_aim g _
  obtain ⟨l1, l2⟩ : g.aliensLeft.lastShoot = g.lastShoot ∧ g.aliensLeft.shootPointer = g.shootPointer := swept_aim g _
  unfold Game.moveAliens
  split
  · simp only []
    split_ifs <;> simp only [Game.aim, d1, d2]
  split
  · simp only []
    split_ifs <;> simp only [Game.aim, r1, r2]
  split
  · simp only []
    split_ifs <;> simp only [Game.aim, l1, l2]
  · rfl

/-- The aliens of a formation are on the board, in a lost game too. -/
theorem Formation.aliensIn (hF : Formation g) (hx : g.xAliens ≤ 18) : AliensIn g.board := by
  intro i j ha
  have h1 := hF.row
  have h2 := hF.col
  have h3 := hF.offset i j ha
  unfold IsOffset at h3
  omega

/-- Everything on the board is where it belongs. -/
structure Placed (g : Game) : Prop where
  confined : Confined g
  formation : Formation g
  row : g.xAliens ≤ 18
  target : Target g

/-- A step that moves neither the ship nor the formation. -/
theorem Placed.keep (h : Placed g) (hs : g'.scene = g.scene) (hb : ShotsIn g'.board)
    (hf : g'.formation = g.formation) (ha : g'.aim = g.aim) : Placed g' := by
  obtain ⟨-, hx, -⟩ := formation_fields hf
  exact ⟨h.confined.keep hs hb, h.formation.congr hf, hx.trans_le h.row, h.target.congr ha⟩

theorem Placed.shotsIn (h : Placed g) : ShotsIn g.board := h.confined.shotsIn

theorem cancelShoots_placed (h : Placed g) : Placed g.cancelShoots :=
  h.keep (cancelShoots_scene g) (cancelShoots_shots h.shotsIn) (cancelShoots_formation g) (aim_setBoard rfl)

theorem moveShootsAliens_placed (h : Placed g) : Placed g.moveShootsAliens :=
  h.keep (moveShootsAliens_scene g) (moveShootsAliens_shots h.shotsIn) (moveShootsAliens_formation g)
    (moveShootsAliens_aim g)

theorem moveShootsShip_placed (h : Placed g) (hx : g.xAliens ≤ 17) : Placed g.moveShootsShip := by
  obtain ⟨hF, -⟩ := moveShootsShip_formation h.formation hx
  obtain ⟨hx', -⟩ := moveShootsShip_rest g
  have hC := h.confined.keep (moveShootsShip_scene g) (moveShootsShip_shots h.shotsIn)
  exact ⟨hC, hF, hx'.trans_le h.row, h.target.congr (aim_setBoard rfl)⟩

theorem moveAliens_placed (h : Placed g) (hx : g.xAliens ≤ 17) : Placed g.moveAliens := by
  obtain ⟨hF, -⟩ := moveAliens_formation h.formation hx
  obtain ⟨hs, hx'⟩ := moveAliens_scene g
  have hC := h.confined.keep hs (moveAliens_shots h.shotsIn)
  exact ⟨hC, hF, by omega, h.target.congr (moveAliens_aim g)⟩

theorem iaShootAlien_placed (h : Placed g) (clock : Word) : Placed (g.iaShootAlien clock) := by
  obtain ⟨hb, ht⟩ := iaShootAlien_shots h.shotsIn (h.formation.aliensIn h.row) h.formation.col h.target clock
  obtain ⟨hf, -⟩ := iaShootAlien_formation g clock
  obtain ⟨-, hx, -⟩ := formation_fields hf
  exact ⟨h.confined.keep (iaShootAlien_scene g clock) hb, h.formation.congr hf, hx.trans_le h.row, ht⟩

/-- A board with four stores for a move of the ship. -/
theorem move_ship {y₁ y₂ y₃ y₄ : ℤ} (h : ∀ i j, (b i j).ship = true ↔ ShipCell y i j)
    (hmove : ∀ i j, ShipCell x i j ↔ ¬ (i = xShip - 1 ∧ j = y₄) ∧ ¬ (i = xShip ∧ j = y₃) ∧
      ((i = xShip - 1 ∧ j = y₂) ∨ (i = xShip ∧ j = y₁) ∨ ShipCell y i j)) (i j : ℤ) :
    (((((b.set xShip y₁ (·.setShip true)).set (xShip - 1) y₂ (·.setShip true)).set xShip y₃ (·.setShip false)).set
      (xShip - 1) y₄ (·.setShip false)) i j).ship = true ↔ ShipCell x i j := by
  have hset : ∀ (b : Board) (i' j' : ℤ) (v : Bool), ((b.set i' j' (·.setShip v)) i j).ship =
      if (i, j) = (i', j') then v else (b i j).ship :=
    fun b i' j' v => set_mark (L := Cell.ship) (f := (·.setShip v)) (fun _ => rfl) (i, j)
  rw [hset, hset, hset, hset, hmove, ← h]
  simp only [Prod.mk.injEq]
  split_ifs with h1 h2 h3 h4
  · exact iff_of_false not_false fun h => h.1 h1
  · exact iff_of_false not_false fun h => h.2.1 h2
  · exact iff_of_true rfl ⟨h1, h2, .inl h3⟩
  · exact iff_of_true rfl ⟨h1, h2, .inr (.inl h4)⟩
  · exact ⟨fun h => ⟨h1, h2, .inr (.inr h)⟩, fun h => (h.2.2.resolve_left h3).resolve_left h4⟩

theorem walls_setShip (i' j' : ℤ) : ((b.set i j (·.setShip v)) i' j').wall = (b i' j').wall :=
  set_layer (L := Cell.wall) (f := (·.setShip v)) (fun _ => rfl) (i', j')

/-- A ship moved by one column, the game lost or not. -/
theorem Confined.move {y₁ y₂ y₃ y₄ : ℤ} (h : Confined g) (hx : 4 ≤ x ∧ x ≤ 75)
    (hmove : ∀ i j, ShipCell x i j ↔ ¬ (i = xShip - 1 ∧ j = y₄) ∧ ¬ (i = xShip ∧ j = y₃) ∧
      ((i = xShip - 1 ∧ j = y₂) ∨ (i = xShip ∧ j = y₁) ∨ ShipCell g.yShip i j))
    (hb : g'.board = (((g.board.set xShip y₁ (·.setShip true)).set (xShip - 1) y₂ (·.setShip true)).set xShip y₃
      (·.setShip false)).set (xShip - 1) y₄ (·.setShip false)) (hy : g'.yShip = x) : Confined g' := by
  have hshots : ShotsIn g'.board := hb ▸ h.shotsIn.setShip.setShip.setShip.setShip
  refine ⟨hy ▸ hx, fun i j => ?_, hshots.ship, hshots.alien, fun i j => ?_⟩
  · rw [hb, hy]
    exact move_ship h.ship hmove i j
  · rw [hb, walls_setShip, walls_setShip, walls_setShip, walls_setShip]
    exact h.walls i j

theorem shipRight_confined (h : Confined g) : Confined g.shipRight := by
  have hcol := h.column
  unfold Game.shipRight
  split
  · rename_i hy
    have hy : g.yShip < 80 - 5 := hy
    have hmove : ∀ i j, ShipCell (g.yShip + 1) i j ↔ ¬ (i = xShip - 1 ∧ j = g.yShip) ∧ ¬ (i = xShip ∧ j = g.yShip - 2) ∧
        ((i = xShip - 1 ∧ j = g.yShip + 1) ∨ (i = xShip ∧ j = g.yShip + 3) ∨ ShipCell g.yShip i j) := by
      intro i j
      unfold ShipCell
      omega
    simp only []
    split_ifs
    · exact h.move ⟨by omega, by omega⟩ hmove rfl rfl
    · exact h.move ⟨by omega, by omega⟩ hmove rfl rfl
  · exact h

theorem shipLeft_confined (h : Confined g) : Confined g.shipLeft := by
  have hcol := h.column
  unfold Game.shipLeft
  split
  · rename_i hy
    have hmove : ∀ i j, ShipCell (g.yShip - 1) i j ↔ ¬ (i = xShip - 1 ∧ j = g.yShip) ∧ ¬ (i = xShip ∧ j = g.yShip + 2) ∧
        ((i = xShip - 1 ∧ j = g.yShip - 1) ∨ (i = xShip ∧ j = g.yShip - 3) ∨ ShipCell g.yShip i j) := by
      intro i j
      unfold ShipCell
      omega
    simp only []
    split_ifs
    · exact h.move ⟨by omega, by omega⟩ hmove rfl rfl
    · exact h.move ⟨by omega, by omega⟩ hmove rfl rfl
  · exact h

theorem makeShipShoot_confined (h : Confined g) : Confined g.makeShipShoot := by
  have hcol := h.column
  have hx : xShip = 23 := rfl
  have hput : Confined { g with board := g.board.set (xShip - 2) g.yShip (·.setShipShoot true) } := by
    refine h.keep (scene_eq (layer_set (f := (·.setShipShoot true)) fun _ => rfl) rfl) (h.shotsIn.putShot ?_)
    omega
  unfold Game.makeShipShoot
  simp only []
  split_ifs
  · exact hput
  · exact hput
  · exact h

/-- **A key** keeps ship and shots where they belong. -/
theorem pressed_confined (h : Confined g) (key : Option Byte) : Confined (g.pressed key) := by
  unfold Game.pressed
  split
  · exact h
  split
  · exact shipLeft_confined h
  split
  · exact shipRight_confined h
  split
  · exact makeShipShoot_confined h
  · exact h

theorem shipRight_aim (g : Game) : g.shipRight.aim = g.aim := by
  unfold Game.shipRight
  split
  · simp only []
    split_ifs <;> rfl
  · rfl

theorem shipLeft_aim (g : Game) : g.shipLeft.aim = g.aim := by
  unfold Game.shipLeft
  split
  · simp only []
    split_ifs <;> rfl
  · rfl

theorem makeShipShoot_aim (g : Game) : g.makeShipShoot.aim = g.aim := by
  unfold Game.makeShipShoot
  simp only []
  split_ifs <;> rfl

theorem pressed_aim (g : Game) (key : Option Byte) : (g.pressed key).aim = g.aim := by
  unfold Game.pressed
  split
  · rfl
  split
  · exact shipLeft_aim g
  split
  · exact shipRight_aim g
  split
  · exact makeShipShoot_aim g
  · rfl

theorem pressed_placed (h : Placed g) (key : Option Byte) : Placed (g.pressed key) := by
  have hf := pressed_formation g key
  obtain ⟨-, hx, -⟩ := formation_fields hf
  exact ⟨pressed_confined h.confined key, h.formation.congr hf, hx.trans_le h.row, h.target.congr (pressed_aim g key)⟩

/-! ### The first board -/

def Board.ships (b : Board) (p : ℤ × ℤ) : Bool := (b p.1 p.2).ship

def Board.walls (b : Board) (p : ℤ × ℤ) : Bool := (b p.1 p.2).wall

theorem ships_eq (b : Board) (i j : ℤ) : (b i j).ship = b.ships (i, j) := rfl

theorem walls_eq (b : Board) (i j : ℤ) : (b i j).wall = b.walls (i, j) := rfl

@[simp] theorem ships_setWall : (b.set i j (·.setWall v)).ships = b.ships := funext (set_layer fun _ => rfl)

@[simp] theorem ships_setAlien : (b.set i j (·.setAlien v)).ships = b.ships := funext (set_layer fun _ => rfl)

@[simp] theorem ships_setShield : (b.set i j (·.setShield v)).ships = b.ships := funext (set_layer fun _ => rfl)

@[simp] theorem walls_putShip : (b.set i j (·.setShip v)).walls = b.walls := funext (set_layer fun _ => rfl)

@[simp] theorem walls_setAlien : (b.set i j (·.setAlien v)).walls = b.walls := funext (set_layer fun _ => rfl)

@[simp] theorem walls_setShield : (b.set i j (·.setShield v)).walls = b.walls := funext (set_layer fun _ => rfl)

theorem put_ships : (b.set i j (·.setShip true)).ships q = true ↔ q = (i, j) ∨ b.ships q = true :=
  put_mark (fun _ => rfl) q

theorem put_walls {A : Prop} [Decidable A] : (if A then b.set i j (·.setWall true) else b).walls q = true ↔
    b.walls q = true ∨ q = (i, j) ∧ A :=
  put_mark_if (fun _ => rfl) q

theorem initCell_walls (g : Game) : Adds (fun b p => g.initCell b p.1 p.2) (fun b p => b.walls p = true)
    fun p => isWall p.1 p.2 = true where
  adds := by
    intro b p q
    unfold Game.initCell
    extract_lets b₁ s₁ s₂ s₃ s₄ s₅ b₂ b₃ b₄
    have h₂ : b₂.walls = b₁.walls := by
      simp only [b₂, s₅, s₄, s₃, s₂, s₁]
      split <;> simp
    have h₄ : b₄.walls = b₂.walls := by
      simp only [b₄, b₃]
      split <;> split <;> simp
    have h₅ : ∀ {A : Prop} [Decidable A], (if A then b₄.set p.1 p.2 (·.setShield true) else b₄).walls = b₄.walls := by
      intro A _
      split <;> simp
    rw [h₅, h₄, h₂, put_walls]

/-- The ship is put on the board when its cell in the middle is visited. -/
theorem initCell_ships (g : Game) (b : Board) (p q : ℤ × ℤ) : (g.initCell b p.1 p.2).ships q = true ↔
    b.ships q = true ∨ (p = (xShip, g.yShip) ∧ ShipCell g.yShip q.1 q.2) := by
  unfold Game.initCell
  extract_lets b₁ s₁ s₂ s₃ s₄ s₅ b₂ b₃ b₄
  have h₁ : b₁.ships = b.ships := by
    simp only [b₁]
    split <;> simp
  have h₄ : b₄.ships = b₂.ships := by
    simp only [b₄, b₃]
    split <;> split <;> simp
  have h₅ : ∀ {A : Prop} [Decidable A], (if A then b₄.set p.1 p.2 (·.setShield true) else b₄).ships = b₄.ships := by
    intro A _
    split <;> simp
  rw [h₅, h₄]
  simp only [b₂]
  by_cases hp : p = (xShip, g.yShip)
  · rw [if_pos (Prod.ext_iff.1 hp), and_iff_right hp]
    simp only [s₅, s₄, s₃, s₂, s₁, put_ships, h₁, hp, ShipCell, Prod.ext_iff]
    constructor
    · rintro (h | h | h | h | h | h | h)
      · exact .inr (.inl ⟨h.1, by omega⟩)
      · exact .inr (.inl ⟨h.1, by omega⟩)
      · exact .inr (.inl ⟨h.1, by omega⟩)
      · exact .inr (.inl ⟨h.1, by omega⟩)
      · exact .inr (.inr h)
      · exact .inr (.inl ⟨h.1, by omega⟩)
      · exact .inl h
    · rintro (h | h | h)
      · simp [h]
      · have hq : q.2 = g.yShip + 2 ∨ q.2 = g.yShip - 2 ∨ q.2 = g.yShip + 1 ∨ q.2 = g.yShip - 1 ∨ q.2 = g.yShip := by
          omega
        rcases hq with hq | hq | hq | hq | hq <;> simp [h.1, hq]
      · simp [h]
  · rw [if_neg fun h => hp (Prod.ext h.1 h.2), h₁]
    exact ⟨.inl, fun h => h.resolve_right fun h => hp h.1⟩

theorem initCell_layer {α : Type*} {A : Cell → α} (hw : ∀ c v, A (Cell.setWall c v) = A c)
    (hs : ∀ c v, A (Cell.setShip c v) = A c) (ha : ∀ c v, A (Cell.setAlien c v) = A c)
    (hd : ∀ c v, A (Cell.setShield c v) = A c) : (g.initCell b i j).layer A = b.layer A := by
  unfold Game.initCell
  extract_lets b₁ s₁ s₂ s₃ s₄ s₅ b₂ b₃ b₄
  have h₁ : b₁.layer A = b.layer A := by
    simp only [b₁]
    split
    · exact layer_set (hw · _)
    · rfl
  have h₂ : b₂.layer A = b₁.layer A := by
    simp only [b₂, s₅, s₄, s₃, s₂, s₁]
    split
    · simp only [layer_set (A := A) (f := (·.setShip true)) (hs · _)]
    · rfl
  have h₄ : b₄.layer A = b₂.layer A := by
    have hput : ∀ b : Board, (b.set i j (·.setAlien true)).layer A = b.layer A := fun b => layer_set (ha · _)
    simp only [b₄, b₃]
    split <;> split <;> simp only [hput]
  split
  · rw [layer_set (hd · _), h₄, h₂, h₁]
  · rw [h₄, h₂, h₁]

theorem initBoard_layer {α : Type*} {A : Cell → α} (hw : ∀ c v, A (Cell.setWall c v) = A c)
    (hs : ∀ c v, A (Cell.setShip c v) = A c) (ha : ∀ c v, A (Cell.setAlien c v) = A c)
    (hd : ∀ c v, A (Cell.setShield c v) = A c) (g : Game) : g.initBoard.board.layer A = g.board.layer A := by
  unfold Game.initBoard
  dsimp only
  rw [forCells_eq]
  refine foldl_const (g := Board.layer A) (fun b p => ?_) _ _
  exact initCell_layer hw hs ha hd

/-- No shot is on the way yet. -/
theorem initBoard_shots (i j : ℤ) : ((Game.initBoard {}).board i j).shipShoot = false ∧
    ((Game.initBoard {}).board i j).alienShoot = false := by
  rw [layer_eq Cell.shipShoot, layer_eq Cell.alienShoot]
  rw [initBoard_layer (fun _ _ => rfl) (fun _ _ => rfl) (fun _ _ => rfl) fun _ _ => rfl,
    initBoard_layer (fun _ _ => rfl) (fun _ _ => rfl) (fun _ _ => rfl) fun _ _ => rfl]
  exact ⟨rfl, rfl⟩

theorem initBoard_confined : Confined (Game.initBoard {}) := by
  set π := cells (upTo 0 (numRows - 1)) (upTo 0 (numColumns - 1)) with hπ
  have hmem : ∀ p : ℤ × ℤ, p ∈ π ↔ OnBoard p.1 p.2 := by
    intro p
    rw [hπ, mem_cells, mem_upTo, mem_upTo, OnBoard]
    simp only [numRows, numColumns]
    omega
  have hboard : (Game.initBoard {}).board = π.foldl (fun b p => ({} : Game).initCell b p.1 p.2) ⟨fun _ _ => {}⟩ :=
    forCells_eq _ _
  have hshots : ShotsIn (Game.initBoard {}).board :=
    ⟨fun i j h => absurd ((initBoard_shots i j).1.symm.trans h) Bool.false_ne_true,
      fun i j h => absurd ((initBoard_shots i j).2.symm.trans h) Bool.false_ne_true⟩
  refine ⟨by decide, fun i j => ?_, hshots.ship, hshots.alien, fun i j => ?_⟩
  · have hs := @foldl_puts Board (ℤ × ℤ) (fun b p => ({} : Game).initCell b p.1 p.2) (fun b p => b.ships p = true) π
      ⟨fun _ _ => {}⟩ (i, j) (fun p q => p = (xShip, ({} : Game).yShip) ∧ ShipCell ({} : Game).yShip q.1 q.2)
      (initCell_ships {})
    have h0 : ¬ (⟨fun _ _ => {}⟩ : Board).ships (i, j) = true := Bool.false_ne_true
    rw [ships_eq, hboard, hs, or_iff_right h0]
    refine ⟨?_, fun h => ⟨(xShip, ({} : Game).yShip), (hmem _).2 ⟨by decide, by decide, by decide, by decide⟩, rfl, h⟩⟩
    rintro ⟨p, -, -, h⟩
    exact h
  · have hs := foldl_adds (s := (⟨fun _ _ => {}⟩ : Board)) (q := (i, j)) (π := π) (initCell_walls {})
    have h0 : ¬ (⟨fun _ _ => {}⟩ : Board).walls (i, j) = true := Bool.false_ne_true
    rw [walls_eq, hboard, hs, or_iff_right h0, hmem]

theorem initBoard_placed : Placed (Game.initBoard {}) := by
  have hx : (Game.initBoard {}).xAliens = 3 := rfl
  exact ⟨initBoard_confined, initBoard_formation, by omega, ⟨by decide, by decide⟩, by decide, by decide⟩

/-! ### Runs -/

/-- The states of a round, from function to function of the main loop. -/
def Game.stages (g : Game) (inp : Game.Input) : List Game :=
  let g := g.pressed inp.key
  if g.Due inp.now then
    [g, g.cancelShoots, g.cancelShoots.moveShootsAliens, g.moveShoots, g.moveShoots.moveAliens,
      { g.iaMove inp.clock with t0 := inp.later }]
  else [g]

theorem round_mem_stages (g : Game) (inp : Game.Input) : g.round inp ∈ g.stages inp := by
  unfold Game.round Game.stages
  dsimp only
  split
  · simp
  · simp

/-- **A round of the main loop**, from function to function. -/
theorem round_placed (h : Placed g) (hx : g.xAliens ≤ 17) (inp : Game.Input) :
    ∀ g' ∈ g.stages inp, Placed g' := by
  have h₁ := pressed_placed h inp.key
  obtain ⟨-, hx₁, -⟩ := formation_fields (pressed_formation g inp.key)
  have h₂ := cancelShoots_placed h₁
  have h₃ := moveShootsAliens_placed h₂
  obtain ⟨-, hx₃, -⟩ := formation_fields
    ((moveShootsAliens_formation _).trans (cancelShoots_formation (g.pressed inp.key)))
  have hx₃ := hx₃.trans_le (hx₁.trans_le hx)
  have h₄ := moveShootsShip_placed h₃ hx₃
  have hx₄ := (moveShootsShip_rest (g.pressed inp.key).cancelShoots.moveShootsAliens).1.trans_le hx₃
  have h₅ := moveAliens_placed h₄ hx₄
  have h₆ := iaShootAlien_placed h₅ inp.clock
  unfold Game.stages
  dsimp only
  split
  · simp only [List.forall_mem_cons]
    exact ⟨h₁, h₂, h₃, h₄, h₅, h₆.keep rfl h₆.shotsIn rfl rfl, by simp⟩
  · simpa using h₁

theorem run_placed {tr : Trace Game Game.Input Unit} (hr : Run gameSystem tr g) : Placed g := by
  refine hr.induct (P := fun _ g => Placed g) (fun g h => ?_) ?_
  · cases h
    exact initBoard_placed
  · rintro tr g inp - _ hr h ⟨hl, -, rfl⟩
    have hx := (run_formation hr).2.resolve_right (by simp [hl])
    exact round_placed h hx inp _ (round_mem_stages g inp)

/-- The indices computed from the column of the ship, from the row next to that of a shot, and from the
place of an alien. -/
structure InRange (g : Game) : Prop where
  ship : ∀ r c, 0 ≤ r → r ≤ 3 → -3 ≤ c → c ≤ 3 → OnBoard (xShip - r) (g.yShip + c)
  shot : ∀ i j, (g.board i j).shipShoot = true → OnBoard (i - 1) j
  alienShot : ∀ i j, (g.board i j).alienShoot = true → OnBoard (i + 1) j
  alien : ∀ i j, (g.board i j).alien = true → OnBoard (i + 1) j ∧ OnBoard i (j - 1) ∧ OnBoard i (j + 1)
  target : ∀ k, g.lastShoot ≤ k → k ≤ 79 → 0 < g.isAlien.getD k.toNat 0 → OnBoard (g.isAlien.getD k.toNat 0) k

theorem Placed.inRange (h : Placed g) : InRange g where
  ship r c := by
    have hy := h.confined.column
    simp only [OnBoard, xShip, numRows, numColumns]
    omega
  shot i j hs := by
    have hij := h.confined.shots i j hs
    simp only [OnBoard, numRows, numColumns]
    omega
  alienShot i j hs := by
    have hij := h.confined.alienShots i j hs
    simp only [OnBoard, numRows, numColumns]
    omega
  alien i j ha := by
    have hij := h.formation.aliensIn h.row i j ha
    simp only [OnBoard, numRows, numColumns]
    omega
  target k h1 h2 hk := by
    have hk0 : 0 ≤ k := by
      have := h.target.column
      omega
    have hij := h.formation.aliensIn h.row _ _ (isAlien_alien g k.toNat hk)
    rw [Int.toNat_of_nonneg hk0] at hij
    simp only [OnBoard, numRows, numColumns]
    omega

/-- **Ship and shots stay where they belong.** Whatever keys and clock the main loop reads from
`init_board` on, in every state it reaches, and in those between the functions of a round: the ship is
whole, at a column from 4 to 75, its shots are in rows 2 to 21 and those of the aliens in rows 3
to 23, all in columns 2 to 77, and the walls are where `is_wall` says. So no index leaves the board. -/
theorem ship_and_shots {tr : Trace Game Game.Input Unit} (hr : Run gameSystem tr g) :
    (Confined g ∧ InRange g) ∧ ∀ t ∈ tr, ∀ g' ∈ t.before.stages t.event, Confined g' ∧ InRange g' := by
  have h := run_placed hr
  refine ⟨⟨h.confined, h.inRange⟩, fun t ht g' hg' => ?_⟩
  obtain ⟨tr', -, hr', hl, -, -⟩ := hr.mem ht
  have hx := (run_formation hr').2.resolve_right (by simp [hl])
  have h' := round_placed (run_placed hr') hx t.event g' hg'
  exact ⟨h'.confined, h'.inRange⟩

/-- The first shot of the game. -/
theorem ship_and_shots_first : ∃ t g, Run gameSystem [t] g ∧ t.event = ⟨some 0x77, 100, 2, 100⟩ ∧
    4 ≤ g.yShip ∧ g.yShip ≤ 75 := by
  obtain ⟨g, hr⟩ := first_run ⟨some 0x77, 100, 2, 100⟩
  exact ⟨_, g, hr, rfl, (ship_and_shots hr).1.1.column⟩

end Zeos
