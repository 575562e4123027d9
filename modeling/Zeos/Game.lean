import Zeos.Lib.Run
import Zeos.Lib.Sweep
import Zeos.Defs

/-!
# The game (`user.c`)

The board, the formation of aliens and the main loop. A round of the loop is a step: it reads a key,
if there is one, and when the clock has gone on far enough it moves shots and aliens. What a round only
draws (`mat`, `fps`, `pfd`) is left out; the frames themselves are in `Zeos.User`.

An `int` of the game stays far from its bounds and is an integer, and so is an index of the board;
the readings of the clock are words.
-/

namespace Zeos

open Execution GridSweep

/-! ### The board -/

structure Cell where
  alien : Bool := false
  alienShoot : Bool := false
  shield : Bool := false
  ship : Bool := false
  shipShoot : Bool := false
  wall : Bool := false
  deriving DecidableEq, Repr

/-- `board`, by row and column. -/
structure Board where
  cell : ℤ → ℤ → Cell

instance : CoeFun Board fun _ => ℤ → ℤ → Cell := ⟨Board.cell⟩

/-- A store into the cell at `i`, `j`. -/
def Board.set (b : Board) (i j : ℤ) (f : Cell → Cell) : Board where
  cell i' j' := if i' = i ∧ j' = j then f (b i j) else b i' j'

namespace Cell

variable (c : Cell) (v : Bool)

def setAlien : Cell := { c with alien := v }

def setAlienShoot : Cell := { c with alienShoot := v }

def setShield : Cell := { c with shield := v }

def setShip : Cell := { c with ship := v }

def setShipShoot : Cell := { c with shipShoot := v }

def setWall : Cell := { c with wall := v }

end Cell

/-- `SEG`. -/
def seg : ℤ := 18

/-- `x_ship`, which nothing changes. -/
def xShip : ℤ := numRows - 2

def deadZone : ℤ := 19

/-- The variables of the game. -/
structure Game where
  board : Board := ⟨fun _ _ => {}⟩
  lose : Bool := false
  win : Bool := false
  xAliens : ℤ := 3
  yAliens : ℤ := 2
  yShip : ℤ := numColumns / 2
  moveRight : Bool := true
  moveLeft : Bool := false
  moveDown : Bool := false
  lastShoot : ℤ := 3
  shootPointer : ℤ := 1
  t0 : Word := 0

/-- A shot of the aliens: the alien it comes from, and what 50 is divided by for it. -/
structure Shot where
  row : ℤ
  column : ℤ
  divisor : ℤ

def isWall (i j : ℤ) : Bool :=
  i = 1 ∨ i = numRows - 1 ∨ ((j = 0 ∨ j = 1) ∧ i ≠ 0) ∨ ((j = numColumns - 1 ∨ j = numColumns - 2) ∧ i ≠ 0)

namespace Game

variable (g : Game)

/-- What `init_board` puts at `i`, `j`. -/
def initCell (b : Board) (i j : ℤ) : Board :=
  let b := if isWall i j = true then b.set i j (·.setWall true) else b
  let b := if i = xShip ∧ j = g.yShip then
      let b := b.set i j (·.setShip true)
      let b := b.set (i - 1) j (·.setShip true)
      let b := b.set i (j - 1) (·.setShip true)
      let b := b.set i (j + 1) (·.setShip true)
      let b := b.set i (j - 2) (·.setShip true)
      b.set i (j + 2) (·.setShip true)
    else b
  let b := if (i = g.xAliens ∨ i = g.xAliens + 4) ∧ g.yAliens ≤ j ∧ j.tmod 2 = 0 ∧ j < 52 then
      b.set i j (·.setAlien true)
    else b
  let b := if i = g.xAliens + 2 ∧ g.yAliens ≤ j ∧ j.tmod 2 = 1 ∧ j < 51 then b.set i j (·.setAlien true) else b
  if ((9 < j ∧ j < 9 * 2) ∨ (9 * 3 < j ∧ j < 9 * 4) ∨ (9 * 5 < j ∧ j < 9 * 6) ∨ (9 * 7 < j ∧ j < 9 * 8)) ∧
      (i = deadZone ∨ i = deadZone - 1) then
    b.set i j (·.setShield true)
  else b

def initBoard : Game :=
  { g with board := forCells (upTo 0 (numRows - 1)) (upTo 0 (numColumns - 1)) g.board g.initCell }

/-! ### The aliens -/

/-- The columns that the sweeps visit. -/
abbrev columns : List ℤ := upTo 2 (numColumns - 3)

/-- A cell of `aliens_down`, with the number of aliens so far. -/
def aliensDownCell (s : Board × ℕ) (i j : ℤ) : Board × ℕ :=
  let (b, totalAliens) := s
  if (b i j).alien = true then
    let b := b.set i j (·.setAlien false)
    -- an alien whose cell has a shot of the ship is gone
    if (b i j).shipShoot = false then
      let b := b.set (i + 1) j (·.setAlien true)
      (if (b i j).shield = true then b.set i j (·.setShield false) else b, totalAliens + 1)
    else (b, totalAliens + 1)
  else s

/-- A cell of `aliens_right` (`d = 1`) and of `aliens_left` (`d = -1`). -/
def aliensSideCell (d : ℤ) (s : Board × ℕ) (i j : ℤ) : Board × ℕ :=
  let (b, totalAliens) := s
  if (b i j).alien = true then
    let b := if (b i j).shield = true then b.set i j (·.setShield false) else b
    let b := b.set i j (·.setAlien false)
    -- sideways a shot of the ship in its cell does not matter
    (b.set i (j + d) (·.setAlien true), totalAliens + 1)
  else s

/-- The end of the three: `if (total_aliens == 0) WIN = 1`. -/
def swept (s : Board × ℕ) : Game := { g with board := s.1, win := if s.2 = 0 then true else g.win }

def aliensDown : Game := g.swept (forCells (downTo 22 3) columns (g.board, 0) aliensDownCell)

def aliensRight : Game :=
  g.swept (forCells (upTo 3 21) (downTo (numColumns - 3) 2) (g.board, 0) (aliensSideCell 1))

def aliensLeft : Game := g.swept (forCells (upTo 3 21) columns (g.board, 0) (aliensSideCell (-1)))

def moveAliens : Game :=
  if g.moveDown = true then
    let g := g.aliensDown
    let g := { g with xAliens := g.xAliens + 1 }
    let g := if 18 ≤ g.xAliens then { g with lose := true } else g
    -- where to go on: at the right end left, at the left end right
    let g := { g with moveDown := false }
    if 29 ≤ g.yAliens then { g with moveLeft := true }
    else if g.yAliens ≤ 2 then { g with moveRight := true }
    else { g with moveDown := true }
  else if g.moveRight = true then
    let g := g.aliensRight
    let g := { g with yAliens := g.yAliens + 1 }
    if g.yAliens = 29 then { g with moveRight := false, moveDown := true } else g
  else if g.moveLeft = true then
    let g := g.aliensLeft
    let g := { g with yAliens := g.yAliens - 1 }
    if g.yAliens = 2 then { g with moveLeft := false, moveDown := true } else g
  else g

/-! ### The ship -/

def shootColision : Bool :=
  (g.board xShip g.yShip).alienShoot || (g.board (xShip - 1) g.yShip).alienShoot ||
    (g.board xShip (g.yShip - 1)).alienShoot || (g.board xShip (g.yShip - 2)).alienShoot ||
    (g.board xShip (g.yShip + 1)).alienShoot || (g.board xShip (g.yShip + 2)).alienShoot

def shipRight : Game :=
  if g.yShip < numColumns - 5 then
    let b := g.board.set xShip (g.yShip + 3) (·.setShip true)
    let b := b.set (xShip - 1) (g.yShip + 1) (·.setShip true)
    let b := b.set xShip (g.yShip - 2) (·.setShip false)
    let b := b.set (xShip - 1) g.yShip (·.setShip false)
    let g : Game := { g with board := b, yShip := g.yShip + 1 }
    if g.shootColision = true then { g with lose := true } else g
  else g

def shipLeft : Game :=
  if 4 < g.yShip then
    let b := g.board.set xShip (g.yShip - 3) (·.setShip true)
    let b := b.set (xShip - 1) (g.yShip - 1) (·.setShip true)
    let b := b.set xShip (g.yShip + 2) (·.setShip false)
    let b := b.set (xShip - 1) g.yShip (·.setShip false)
    let g : Game := { g with board := b, yShip := g.yShip - 1 }
    if g.shootColision = true then { g with lose := true } else g
  else g

/-! ### The shots -/

/-- A cell of `move_shoots_aliens`. -/
def moveShootsAliensCell (g : Game) (i j : ℤ) : Game :=
  if (g.board i j).alienShoot = true then
    let b := g.board
    let b := if (b i j).shield = true then b.set i j (·.setShield false)
      else if i < numRows - 2 ∧ ((b i j).shipShoot = false ∨ (b (i + 1) j).shipShoot = false) then
        b.set (i + 1) j (·.setAlienShoot true)
      else b
    -- the ship is hit in the cell that the shot leaves
    let lose := if (b i j).ship = true then true else g.lose
    { g with board := b.set i j (·.setAlienShoot false), lose := lose }
  else g

def moveShootsAliens : Game := forCells (downTo 23 2) columns g moveShootsAliensCell

/-- A cell of `move_shoots_ship`. -/
def moveShootsShipCell (b : Board) (i j : ℤ) : Board :=
  if (b i j).shipShoot = true then
    -- an alien here or a shield in the cell above takes the shot
    let b := if (b i j).alien = true then b.set i j (·.setAlien false)
      else if (b (i - 1) j).shield = false ∧ 3 ≤ i ∧
          ((b i j).alienShoot = false ∨ (b (i - 1) j).alienShoot = false) then
        b.set (i - 1) j (·.setShipShoot true)
      else b
    b.set i j (·.setShipShoot false)
  else b

def moveShootsShip : Game := { g with board := forCells (upTo 2 23) columns g.board moveShootsShipCell }

/-- A cell of `cancel_shoots`. -/
def cancelShootsCell (b : Board) (i j : ℤ) : Board :=
  if (b i j).alienShoot = true ∧ (b (i + 1) j).shipShoot = true then
    (b.set i j (·.setAlienShoot false)).set (i + 1) j (·.setShipShoot false)
  else b

def cancelShoots : Game := { g with board := forCells (upTo 2 23) columns g.board cancelShootsCell }

def moveShoots : Game := g.cancelShoots.moveShootsAliens.moveShootsShip

/-- `make_ship_shoot`, with `EASY` set. -/
def makeShipShoot : Game :=
  let shoot : Game := { g with board := g.board.set (xShip - 2) g.yShip (·.setShipShoot true) }
  -- `EASY` asks about this cell only
  if (g.board (xShip - 2) g.yShip).shipShoot = false then shoot
  else if (g.board (xShip - 3) g.yShip).shipShoot = false ∧
      (g.board (xShip - 2) (g.yShip + 1)).shipShoot = false ∧
      (g.board (xShip - 2) (g.yShip - 1)).shipShoot = false then
    shoot
  else g

/-- `is_alien`: the lowest row with an alien, for each column, or 0. -/
def isAlien : Array ℤ :=
  forCells (downTo 23 2) columns (Array.replicate 80 0) fun isAlien i j =>
    if (g.board i j).alien = true ∧ isAlien.getD j.toNat 0 = 0 then isAlien.setIfInBounds j.toNat i else isAlien

/-- `ia_shoot_alien` at the reading `clock`, with `EASY` set, and a record of its shots, latest first. -/
def iaShootAlienShots (clock : Word) : Game × List Shot :=
  let hard : ℤ := 2
  let maxAliensShoots := 1
  if clock.toInt.tmod hard = 0 then
    let isAlien := g.isAlien
    -- the loop of the source stops at `max_aliens_shoots`; here its other rounds do nothing
    ((upTo g.lastShoot 79).foldl (fun (s : (Game × List Shot) × ℕ) k =>
      let ((g, shots), count) := s
      let i := isAlien.getD k.toNat 0
      if count < maxAliensShoots ∧ 0 < i then
        let shootPointer := g.shootPointer + 1
        (({ g with
            board := g.board.set i k (·.setAlienShoot true)
            lastShoot := g.yAliens + (49 - Int.tdiv 50 shootPointer)
            shootPointer := shootPointer.tmod 5 }, ⟨i, k, shootPointer⟩ :: shots), count + 1)
      else s) ((g, []), 0)).1
  else (g, [])

def iaShootAlien (clock : Word) : Game := (g.iaShootAlienShots clock).1

/-! ### The main loop -/

def iaMove (clock : Word) : Game := (g.moveShoots.moveAliens).iaShootAlien clock

/-- What a round of the main loop reads: the key, if `get_key` gives one, and the clock for the test,
in `ia_shoot_alien` and for the new `t0`. -/
structure Input where
  key : Option Byte
  now : Word
  clock : Word
  later : Word
  deriving DecidableEq, Repr

/-- `'a'`, `'d'` and `'w'`. -/
def pressed (key : Option Byte) : Game :=
  match key with
  | none => g
  | some c =>
    if c = 0x61 then g.shipLeft
    else if c = 0x64 then g.shipRight
    else if c = 0x77 then g.makeShipShoot
    else g

/-- The clock has gone on by more than `SEG`. -/
def Due (now : Word) : Prop := seg < (now - g.t0).toInt

instance (now : Word) : Decidable (g.Due now) := inferInstanceAs (Decidable (_ < _))

/-- A round of the main loop. -/
def round (inp : Input) : Game :=
  let g := g.pressed inp.key
  if g.Due inp.now then { g.iaMove inp.clock with t0 := inp.later } else g

end Game

/-- **The main loop of the game**, from `init_board` to `LOSE` or `WIN`. -/
def gameSystem : System Game Game.Input Unit where
  init g := g = Game.initBoard {}
  step g inp _ g' := g.lose = false ∧ g.win = false ∧ g' = g.round inp

end Zeos
