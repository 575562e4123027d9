import Zeos.Proof.Hits

/-!
# Sweeps in place and updates of all cells at once

Each of the six sweeps changes the board under its feet. Its rule for a cell says what it would do to the
board as it stands: which marks it clears and which it puts where.

* `Board.atOnce`: the board on which all cells have followed the rule at the same time.
* `aliensDown_atOnce`, … : each sweep leaves this board, since no cell reads what an earlier one has written.
* `sweeps_atOnce`: **the six of them, on every board**.
-/

namespace Zeos

open Execution GridSweep

variable {b b' : Board} {g : Game} {i j d : ℤ} {p q : ℤ × ℤ} {v : Bool} {f : Cell → Cell} {π : List (ℤ × ℤ)}

/-! ### Spots -/

/-- The flags of a cell. -/
inductive Mark
  | alien | alienShoot | shield | ship | shipShoot | wall
  deriving DecidableEq

def Cell.get (c : Cell) : Mark → Bool
  | .alien => c.alien
  | .alienShoot => c.alienShoot
  | .shield => c.shield
  | .ship => c.ship
  | .shipShoot => c.shipShoot
  | .wall => c.wall

/-- A flag of a cell of the board. -/
abbrev Spot := (ℤ × ℤ) × Mark

def Board.on (b : Board) (z : Spot) : Bool := (b z.1.1 z.1.2).get z.2

theorem Cell.ext_get {c c' : Cell} (h : ∀ m, c.get m = c'.get m) : c = c' := by
  cases c
  cases c'
  have h1 := h .alien
  have h2 := h .alienShoot
  have h3 := h .shield
  have h4 := h .ship
  have h5 := h .shipShoot
  have h6 := h .wall
  simp only [Cell.get] at h1 h2 h3 h4 h5 h6
  rw [h1, h2, h3, h4, h5, h6]

theorem Board.ext_on (h : ∀ z, b.on z = true ↔ b'.on z = true) : b = b' := by
  obtain ⟨c⟩ := b
  obtain ⟨c'⟩ := b'
  congr 1
  funext i j
  exact Cell.ext_get fun m => Bool.eq_iff_iff.2 (h ((i, j), m))

theorem on_set {m : Mark} (hf : ∀ c m', (f c).get m' = if m' = m then v else c.get m') (z : Spot) :
    (b.set i j f).on z = if z = ((i, j), m) then v else b.on z := by
  obtain ⟨p, m'⟩ := z
  have hcell := set_cell (b := b) (i := i) (j := j) (f := f) p
  unfold Board.on
  dsimp only
  rw [hcell]
  by_cases hp : p = (i, j)
  · subst hp
    rw [if_pos rfl, hf]
    by_cases hm : m' = m
    · rw [if_pos hm, hm, if_pos rfl]
    · rw [if_neg hm, if_neg fun h => hm (Prod.mk.inj h).2]
  · rw [if_neg hp, if_neg fun h => hp (Prod.mk.inj h).1]

/-- A store that clears a mark, -/
theorem on_clear {m : Mark} (hf : ∀ c m', (f c).get m' = if m' = m then false else c.get m') {z : Spot} :
    (b.set i j f).on z = true ↔ b.on z = true ∧ z ≠ ((i, j), m) := by
  rw [on_set hf]
  split
  · rename_i h
    exact iff_of_false Bool.false_ne_true fun h' => h'.2 h
  · rename_i h
    exact (and_iff_left h).symm

/-- and one that puts it. -/
theorem on_put {m : Mark} (hf : ∀ c m', (f c).get m' = if m' = m then true else c.get m') {z : Spot} :
    (b.set i j f).on z = true ↔ z = ((i, j), m) ∨ b.on z = true := by
  rw [on_set hf]
  split
  · rename_i h
    exact iff_of_true rfl (.inl h)
  · rename_i h
    exact (or_iff_right h).symm

section Stores

variable {z : Spot}

theorem on_clearAlien : (b.set i j (·.setAlien false)).on z = true ↔ b.on z = true ∧ z ≠ ((i, j), .alien) :=
  on_clear fun c m => by cases m <;> rfl

theorem on_putAlien : (b.set i j (·.setAlien true)).on z = true ↔ z = ((i, j), .alien) ∨ b.on z = true :=
  on_put fun c m => by cases m <;> rfl

theorem on_clearAlienShoot :
    (b.set i j (·.setAlienShoot false)).on z = true ↔ b.on z = true ∧ z ≠ ((i, j), .alienShoot) :=
  on_clear fun c m => by cases m <;> rfl

theorem on_putAlienShoot :
    (b.set i j (·.setAlienShoot true)).on z = true ↔ z = ((i, j), .alienShoot) ∨ b.on z = true :=
  on_put fun c m => by cases m <;> rfl

theorem on_clearShipShoot :
    (b.set i j (·.setShipShoot false)).on z = true ↔ b.on z = true ∧ z ≠ ((i, j), .shipShoot) :=
  on_clear fun c m => by cases m <;> rfl

theorem on_putShipShoot :
    (b.set i j (·.setShipShoot true)).on z = true ↔ z = ((i, j), .shipShoot) ∨ b.on z = true :=
  on_put fun c m => by cases m <;> rfl

theorem on_clearShield : (b.set i j (·.setShield false)).on z = true ↔ b.on z = true ∧ z ≠ ((i, j), .shield) :=
  on_clear fun c m => by cases m <;> rfl

/-- A shield is taken away if it is there. -/
theorem on_unshield : (if (b i j).shield = true then b.set i j (·.setShield false) else b).on z = true ↔
    b.on z = true ∧ z ≠ ((i, j), .shield) := by
  split
  · exact on_clearShield
  · rename_i hs
    refine ⟨fun hz => ⟨hz, ?_⟩, (·.1)⟩
    rintro rfl
    exact hs hz

end Stores

/-! ### Rules -/

/-- The marks that a cell takes away, and those that it puts. -/
structure Edit where
  clears : List Spot := []
  puts : List Spot := []

/-- The board on which the cells of `π` follow the rule at the same time, each as the board stood before. -/
def Board.atOnce (b : Board) (rule : Board → ℤ × ℤ → Edit) (π : List (ℤ × ℤ)) : Board where
  cell i j :=
    let mark (m : Mark) : Bool :=
      (π.any fun p => decide (((i, j), m) ∈ (rule b p).puts)) ||
        b.on ((i, j), m) && π.all fun p => decide (((i, j), m) ∉ (rule b p).clears)
    { alien := mark .alien
      alienShoot := mark .alienShoot
      shield := mark .shield
      ship := mark .ship
      shipShoot := mark .shipShoot
      wall := mark .wall }

theorem atOnce_on (rule : Board → ℤ × ℤ → Edit) (z : Spot) : (b.atOnce rule π).on z = true ↔
    (∃ p ∈ π, z ∈ (rule b p).puts) ∨ b.on z = true ∧ ∀ p ∈ π, z ∉ (rule b p).clears := by
  obtain ⟨⟨i, j⟩, m⟩ := z
  have h : (b.atOnce rule π).on ((i, j), m) = ((π.any fun p => decide (((i, j), m) ∈ (rule b p).puts)) ||
      b.on ((i, j), m) && π.all fun p => decide (((i, j), m) ∉ (rule b p).clears)) := by
    cases m <;> rfl
  rw [h, Bool.or_eq_true, Bool.and_eq_true, List.any_eq_true, List.all_eq_true]
  simp only [decide_eq_true_eq]

/-- An alien goes a row down, and through a shield there; one on a shot of the ship is lost. -/
def aliensDownRule (b : Board) (p : ℤ × ℤ) : Edit :=
  if b.on (p, .alien) = true then
    if b.on (p, .shipShoot) = false then
      { clears := [(p, .alien), (p, .shield)], puts := [((p.1 + 1, p.2), .alien)] }
    else { clears := [(p, .alien)] }
  else {}

/-- An alien goes a column on. -/
def aliensSideRule (d : ℤ) (b : Board) (p : ℤ × ℤ) : Edit :=
  if b.on (p, .alien) = true then
    { clears := [(p, .alien), (p, .shield)], puts := [((p.1, p.2 + d), .alien)] }
  else {}

/-- A shot of the aliens and one of the ship below it go. -/
def cancelShootsRule (b : Board) (p : ℤ × ℤ) : Edit :=
  if b.on (p, .alienShoot) = true ∧ b.on ((p.1 + 1, p.2), .shipShoot) = true then
    { clears := [(p, .alienShoot), ((p.1 + 1, p.2), .shipShoot)] }
  else {}

/-- A shot of the aliens goes a row down, or takes a shield with it, or ends. -/
def moveShootsAliensRule (b : Board) (p : ℤ × ℤ) : Edit :=
  if b.on (p, .alienShoot) = true then
    if b.on (p, .shield) = true then { clears := [(p, .alienShoot), (p, .shield)] }
    else if p.1 < numRows - 2 ∧ (b.on (p, .shipShoot) = false ∨ b.on ((p.1 + 1, p.2), .shipShoot) = false) then
      { clears := [(p, .alienShoot)], puts := [((p.1 + 1, p.2), .alienShoot)] }
    else { clears := [(p, .alienShoot)] }
  else {}

/-- A shot of the ship goes a row up, or takes an alien with it, or ends. -/
def moveShootsShipRule (b : Board) (p : ℤ × ℤ) : Edit :=
  if b.on (p, .shipShoot) = true then
    if b.on (p, .alien) = true then { clears := [(p, .shipShoot), (p, .alien)] }
    else if b.on ((p.1 - 1, p.2), .shield) = false ∧ 3 ≤ p.1 ∧
        (b.on (p, .alienShoot) = false ∨ b.on ((p.1 - 1, p.2), .alienShoot) = false) then
      { clears := [(p, .shipShoot)], puts := [((p.1 - 1, p.2), .shipShoot)] }
    else { clears := [(p, .shipShoot)] }
  else {}

/-! ### Each sweep -/

section Sweep

variable {σ : Type*} {brd : σ → Board} {rule : Board → ℤ × ℤ → Edit} {reads writes : ℤ × ℤ → List Spot}
  {fn : σ → ℤ × ℤ → σ} {s : σ}

/-- A round of the code follows the rule, which reads and writes these spots. -/
structure Follows (fn : σ → ℤ × ℤ → σ) (brd : σ → Board) (rule : Board → ℤ × ℤ → Edit)
    (reads writes : ℤ × ℤ → List Spot) : Prop where
  follows : ∀ s p z, (brd (fn s p)).on z = true ↔
    z ∈ (rule (brd s) p).puts ∨ (brd s).on z = true ∧ z ∉ (rule (brd s) p).clears
  decided : ∀ b b' p, (∀ z ∈ reads p, b.on z = b'.on z) → rule b p = rule b' p
  clears_reads : ∀ b p, (rule b p).clears ⊆ reads p
  clears_writes : ∀ b p, (rule b p).clears ⊆ writes p
  puts_writes : ∀ b p, (rule b p).puts ⊆ writes p

theorem Follows.edits (h : Follows fn brd rule reads writes) :
    Edits fn (fun s z => (brd s).on z = true) (fun s p z => z ∈ (rule (brd s) p).clears)
      (fun s p z => z ∈ (rule (brd s) p).puts) (fun p z => z ∈ reads p) fun p z => z ∈ writes p where
  edits := h.follows
  decided s s' p hr := by
    rw [h.decided (brd s) (brd s') p fun z hz => Bool.eq_iff_iff.2 (hr z hz)]
    exact ⟨rfl, rfl⟩
  clears_reads s p _ hz := h.clears_reads (brd s) p hz
  clears_writes s p _ hz := h.clears_writes (brd s) p hz
  puts_writes s p _ hz := h.puts_writes (brd s) p hz

/-- **A sweep that follows a rule** leaves the board of the rule, if no cell reads what an earlier one
writes. -/
theorem Follows.atOnce (h : Follows fn brd rule reads writes)
    (hπ : π.Pairwise fun p p' => ∀ z ∈ writes p, z ∉ reads p') : brd (π.foldl fn s) = (brd s).atOnce rule π := by
  refine Board.ext_on fun z => ?_
  rw [foldl_edits h.edits hπ, atOnce_on]

end Sweep

/-- A cell whose rule does nothing. -/
theorem idle_on (z : Spot) : b.on z = true ↔ z ∈ ({} : Edit).puts ∨ b.on z = true ∧ z ∉ ({} : Edit).clears := by simp

theorem aliensDown_follows : Follows (fun s p => Game.aliensDownCell s p.1 p.2) Prod.fst aliensDownRule
    (fun p => [(p, .alien), (p, .shipShoot), (p, .shield)])
    fun p => [(p, .alien), (p, .shield), ((p.1 + 1, p.2), .alien)] where
  follows := by
    rintro ⟨b, n⟩ ⟨i, j⟩ z
    have halien : (b i j).alien = b.on ((i, j), .alien) := rfl
    have hshot : ((b.set i j (·.setAlien false)) i j).shipShoot = b.on ((i, j), .shipShoot) :=
      set_layer (f := (·.setAlien false)) (L := Cell.shipShoot) (fun _ => rfl) (i, j)
    simp only [Game.aliensDownCell, aliensDownRule, hshot, halien]
    split
    · split
      · dsimp only
        rw [on_unshield, on_putAlien, on_clearAlien]
        simp only [List.mem_cons, List.not_mem_nil, or_false]
        grind
      · dsimp only
        rw [on_clearAlien]
        simp only [List.mem_cons, List.not_mem_nil, or_false, false_or, ne_eq]
    · exact idle_on z
  decided b b' p h := by
    simp only [List.forall_mem_cons] at h
    unfold aliensDownRule
    rw [h.1, h.2.1]
  clears_reads b p := by
    unfold aliensDownRule
    split_ifs <;> simp
  clears_writes b p := by
    unfold aliensDownRule
    split_ifs <;> simp
  puts_writes b p := by
    unfold aliensDownRule
    split_ifs <;> simp

theorem aliensSide_follows (d : ℤ) : Follows (fun s p => Game.aliensSideCell d s p.1 p.2) Prod.fst (aliensSideRule d)
    (fun p => [(p, .alien), (p, .shield)]) fun p => [(p, .alien), (p, .shield), ((p.1, p.2 + d), .alien)] where
  follows := by
    rintro ⟨b, n⟩ ⟨i, j⟩ z
    have halien : (b i j).alien = b.on ((i, j), .alien) := rfl
    simp only [Game.aliensSideCell, aliensSideRule, halien]
    split
    · dsimp only
      rw [on_putAlien, on_clearAlien, on_unshield]
      simp only [List.mem_cons, List.not_mem_nil, or_false]
      grind
    · exact idle_on z
  decided b b' p h := by
    simp only [List.forall_mem_cons] at h
    unfold aliensSideRule
    rw [h.1]
  clears_reads b p := by
    unfold aliensSideRule
    split_ifs <;> simp
  clears_writes b p := by
    unfold aliensSideRule
    split_ifs <;> simp
  puts_writes b p := by
    unfold aliensSideRule
    split_ifs <;> simp

theorem cancelShoots_follows : Follows (fun b p => Game.cancelShootsCell b p.1 p.2) (fun b => b) cancelShootsRule
    (fun p => [(p, .alienShoot), ((p.1 + 1, p.2), .shipShoot)])
    fun p => [(p, .alienShoot), ((p.1 + 1, p.2), .shipShoot)] where
  follows := by
    rintro b ⟨i, j⟩ z
    have hs : (b i j).alienShoot = b.on ((i, j), .alienShoot) := rfl
    have hs' : (b (i + 1) j).shipShoot = b.on ((i + 1, j), .shipShoot) := rfl
    simp only [Game.cancelShootsCell, cancelShootsRule, hs, hs']
    split
    · rw [on_clearShipShoot, on_clearAlienShoot]
      simp only [List.mem_cons, List.not_mem_nil, or_false, false_or, not_or, ne_eq, and_assoc]
    · exact idle_on z
  decided b b' p h := by
    simp only [List.forall_mem_cons] at h
    unfold cancelShootsRule
    rw [h.1, h.2.1]
  clears_reads b p := by
    unfold cancelShootsRule
    split_ifs <;> simp
  clears_writes b p := by
    unfold cancelShootsRule
    split_ifs <;> simp
  puts_writes b p := by
    unfold cancelShootsRule
    split_ifs <;> simp

theorem moveShootsAliens_follows : Follows (fun g p => Game.moveShootsAliensCell g p.1 p.2) Game.board
    moveShootsAliensRule
    (fun p => [(p, .alienShoot), (p, .shield), (p, .shipShoot), ((p.1 + 1, p.2), .shipShoot)])
    fun p => [(p, .alienShoot), (p, .shield), ((p.1 + 1, p.2), .alienShoot)] where
  follows := by
    rintro g ⟨i, j⟩ z
    -- the cells as pieces on the board
    have hs : (g.board i j).alienShoot = g.board.on ((i, j), .alienShoot) := rfl
    have hd : (g.board i j).shield = g.board.on ((i, j), .shield) := rfl
    have h1 : (g.board i j).shipShoot = g.board.on ((i, j), .shipShoot) := rfl
    have h2 : (g.board (i + 1) j).shipShoot = g.board.on ((i + 1, j), .shipShoot) := rfl
    simp only [Game.moveShootsAliensCell, moveShootsAliensRule, hs, hd, h1, h2]
    split
    · dsimp only
      rw [on_clearAlienShoot]
      split
      · rw [on_clearShield]
        simp only [List.mem_cons, List.not_mem_nil, or_false]
        grind
      split
      · rw [on_putAlienShoot]
        simp only [List.mem_cons, List.not_mem_nil, or_false]
        grind
      · simp only [List.mem_cons, List.not_mem_nil, or_false, false_or, ne_eq]
    · exact idle_on z
  decided b b' p h := by
    simp only [List.forall_mem_cons] at h
    unfold moveShootsAliensRule
    rw [h.1, h.2.1, h.2.2.1, h.2.2.2.1]
  clears_reads b p := by
    unfold moveShootsAliensRule
    split_ifs <;> simp
  clears_writes b p := by
    unfold moveShootsAliensRule
    split_ifs <;> simp
  puts_writes b p := by
    unfold moveShootsAliensRule
    split_ifs <;> simp

theorem moveShootsShip_follows : Follows (fun b p => Game.moveShootsShipCell b p.1 p.2) (fun b => b) moveShootsShipRule
    (fun p => [(p, .shipShoot), (p, .alien), ((p.1 - 1, p.2), .shield), (p, .alienShoot),
      ((p.1 - 1, p.2), .alienShoot)])
    fun p => [(p, .shipShoot), (p, .alien), ((p.1 - 1, p.2), .shipShoot)] where
  follows := by
    rintro b ⟨i, j⟩ z
    have hs : (b i j).shipShoot = b.on ((i, j), .shipShoot) := rfl
    have ha : (b i j).alien = b.on ((i, j), .alien) := rfl
    have hd : (b (i - 1) j).shield = b.on ((i - 1, j), .shield) := rfl
    have h1 : (b i j).alienShoot = b.on ((i, j), .alienShoot) := rfl
    have h2 : (b (i - 1) j).alienShoot = b.on ((i - 1, j), .alienShoot) := rfl
    simp only [Game.moveShootsShipCell, moveShootsShipRule, hs, ha, hd, h1, h2]
    split
    · rw [on_clearShipShoot]
      split
      · rw [on_clearAlien]
        simp only [List.mem_cons, List.not_mem_nil, or_false]
        grind
      split
      · rw [on_putShipShoot]
        simp only [List.mem_cons, List.not_mem_nil, or_false]
        grind
      · simp only [List.mem_cons, List.not_mem_nil, or_false, false_or, ne_eq]
    · exact idle_on z
  decided b b' p h := by
    simp only [List.forall_mem_cons] at h
    unfold moveShootsShipRule
    rw [h.1, h.2.1, h.2.2.1, h.2.2.2.1, h.2.2.2.2.1]
  clears_reads b p := by
    unfold moveShootsShipRule
    split_ifs <;> simp
  clears_writes b p := by
    unfold moveShootsShipRule
    split_ifs <;> simp
  puts_writes b p := by
    unfold moveShootsShipRule
    split_ifs <;> simp

/-! ### On every board -/

/-- `b'` is the board of the rule, on which each piece that is put has been taken from its cell, by one
cell only, and on a cell that a piece of its kind leaves, unless no sweep comes there. -/
structure AtOnce (b : Board) (rule : Board → ℤ × ℤ → Edit) (π : List (ℤ × ℤ)) (b' : Board) : Prop where
  board : b' = b.atOnce rule π
  moves : ∀ p, ∀ z ∈ (rule b p).puts, b.on (p, z.2) = true ∧ (p, z.2) ∈ (rule b p).clears ∧ z.1 ≠ p
  once : ∀ p p' z, z ∈ (rule b p).puts → z ∈ (rule b p').puts → p = p'
  room : ∀ p, ∀ z ∈ (rule b p).puts, b.on z = true → z.1 ∈ π → z ∈ (rule b z.1).clears

/-- A rule that takes each piece of a kind off its cell, and puts it `r` rows and `c` columns on at most. -/
theorem AtOnce.of_carry {rule : Board → ℤ × ℤ → Edit} {m : Mark} {r c : ℤ} (hb : b' = b.atOnce rule π)
    (hrc : r ≠ 0 ∨ c ≠ 0) (hputs : ∀ p, ∀ z ∈ (rule b p).puts, z = ((p.1 + r, p.2 + c), m) ∧ b.on (p, m) = true)
    (hclears : ∀ p, b.on (p, m) = true → (p, m) ∈ (rule b p).clears) : AtOnce b rule π b' where
  board := hb
  moves p z hz := by
    obtain ⟨rfl, hon⟩ := hputs p z hz
    refine ⟨hon, hclears p hon, fun h => ?_⟩
    have h1 : p.1 + r = p.1 := congrArg Prod.fst h
    have h2 : p.2 + c = p.2 := congrArg Prod.snd h
    omega
  once p p' z hz hz' := by
    obtain ⟨rfl, -⟩ := hputs p z hz
    obtain ⟨h, -⟩ := hputs p' _ hz'
    injection h with h
    injection h with h1 h2
    exact Prod.ext (by omega) (by omega)
  room p z hz hon _ := by
    obtain ⟨rfl, -⟩ := hputs p z hz
    exact hclears _ hon

theorem aliensDown_atOnce (g : Game) :
    AtOnce g.board aliensDownRule (cells (downTo 22 3) Game.columns) g.aliensDown.board := by
  refine .of_carry (m := .alien) (r := 1) (c := 0) ?_ (by decide) (fun p z hz => ?_) fun p hp => ?_
  · rw [Game.aliensDown, swept_board, forCells_eq]
    refine aliensDown_follows.atOnce (s := (g.board, 0)) (down_pairwise.imp fun h z hz hz' => ?_)
    simp only [List.mem_cons, List.not_mem_nil, or_false] at hz hz'
    grind
  · unfold aliensDownRule at hz
    split_ifs at hz with ha hs <;> simp_all
  · unfold aliensDownRule
    rw [if_pos hp]
    split <;> simp

theorem aliensSide_atOnce {rows cols : List ℤ} (hd : d ≠ 0)
    (hπ : (cells rows cols).Pairwise fun p q => p ≠ q ∧ (p.1, p.2 + d) ≠ q) :
    AtOnce b (aliensSideRule d) (cells rows cols) (forCells rows cols (b, 0) (Game.aliensSideCell d)).1 := by
  refine .of_carry (m := .alien) (r := 0) (c := d) ?_ (.inr hd) (fun p z hz => ?_) fun p hp => ?_
  · rw [forCells_eq]
    refine (aliensSide_follows d).atOnce (s := (b, 0)) (hπ.imp fun h z hz hz' => ?_)
    simp only [List.mem_cons, List.not_mem_nil, or_false] at hz hz'
    grind
  · unfold aliensSideRule at hz
    split_ifs at hz with ha <;> simp_all
  · unfold aliensSideRule
    rw [if_pos hp]
    simp

theorem cancelShoots_atOnce (g : Game) :
    AtOnce g.board cancelShootsRule (cells (upTo 2 23) Game.columns) g.cancelShoots.board := by
  refine ⟨?_, fun p z hz => ?_, fun p p' z hz _ => ?_, fun p z hz _ _ => ?_⟩
  · have hboard : g.cancelShoots.board =
        (cells (upTo 2 23) Game.columns).foldl (fun b p => Game.cancelShootsCell b p.1 p.2) g.board := by
      rw [Game.cancelShoots, forCells_eq]
    rw [hboard]
    refine cancelShoots_follows.atOnce (s := g.board) (up_pairwise.imp fun h z hz hz' => ?_)
    simp only [List.mem_cons, List.not_mem_nil, or_false] at hz hz'
    grind
  all_goals
    unfold cancelShootsRule at hz
    split at hz <;> cases hz

theorem moveShootsAliens_atOnce (g : Game) :
    AtOnce g.board moveShootsAliensRule (cells (downTo 23 2) Game.columns) g.moveShootsAliens.board := by
  refine .of_carry (m := .alienShoot) (r := 1) (c := 0) ?_ (by decide) (fun p z hz => ?_) fun p hp => ?_
  · rw [Game.moveShootsAliens, forCells_eq]
    refine moveShootsAliens_follows.atOnce (shots_pairwise.imp fun h z hz hz' => ?_)
    simp only [List.mem_cons, List.not_mem_nil, or_false] at hz hz'
    grind
  · unfold moveShootsAliensRule at hz
    split_ifs at hz with hs hd hn <;> simp_all
  · unfold moveShootsAliensRule
    rw [if_pos hp]
    split_ifs <;> simp

theorem moveShootsShip_atOnce (g : Game) :
    AtOnce g.board moveShootsShipRule (cells (upTo 2 23) Game.columns) g.moveShootsShip.board := by
  refine .of_carry (m := .shipShoot) (r := -1) (c := 0) ?_ (by decide) (fun p z hz => ?_) fun p hp => ?_
  · have hboard : g.moveShootsShip.board =
        (cells (upTo 2 23) Game.columns).foldl (fun b p => Game.moveShootsShipCell b p.1 p.2) g.board := by
      rw [Game.moveShootsShip, forCells_eq]
    rw [hboard]
    refine moveShootsShip_follows.atOnce (s := g.board) (up_pairwise.imp fun h z hz hz' => ?_)
    simp only [List.mem_cons, List.not_mem_nil, or_false] at hz hz'
    grind
  · unfold moveShootsShipRule at hz
    split_ifs at hz with hs ha hn
    · simp at hz
    · simp only [List.mem_singleton] at hz
      rw [hz, Int.add_zero]
      exact ⟨rfl, hs⟩
    · simp at hz
    · simp at hz
  · unfold moveShootsShipRule
    rw [if_pos hp]
    split_ifs <;> simp

/-- **Each sweep in place is an update of all its cells at once.** -/
theorem sweeps_atOnce (g : Game) :
    AtOnce g.board aliensDownRule (cells (downTo 22 3) Game.columns) g.aliensDown.board ∧
    AtOnce g.board (aliensSideRule 1) (cells (upTo 3 21) (downTo (numColumns - 3) 2)) g.aliensRight.board ∧
    AtOnce g.board (aliensSideRule (-1)) (cells (upTo 3 21) Game.columns) g.aliensLeft.board ∧
    AtOnce g.board cancelShootsRule (cells (upTo 2 23) Game.columns) g.cancelShoots.board ∧
    AtOnce g.board moveShootsAliensRule (cells (downTo 23 2) Game.columns) g.moveShootsAliens.board ∧
    AtOnce g.board moveShootsShipRule (cells (upTo 2 23) Game.columns) g.moveShootsShip.board := by
  refine ⟨aliensDown_atOnce g, ?_, ?_, cancelShoots_atOnce g, moveShootsAliens_atOnce g, moveShootsShip_atOnce g⟩
  · rw [Game.aliensRight, swept_board]
    exact aliensSide_atOnce (by decide) right_pairwise
  · rw [Game.aliensLeft, swept_board]
    exact aliensSide_atOnce (by decide) left_pairwise

end Zeos
