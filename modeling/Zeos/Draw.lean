import Zeos.Game
import Zeos.Libc
import Zeos.User

/-!
# Drawing the board (`user.c`)

`board_to_screen` writes a frame, a header and the board, into the page that `alloc` has given for it.
-/

namespace Zeos

open GridSweep

/-- The shorts around `matrix`, each by its distance from there. -/
abbrev Mat := ℤ → BitVec 16

/-- `*(matrix+i) = v`. -/
def Mat.set (matrix : Mat) (i : ℤ) (v : BitVec 16) : Mat := Function.update matrix i v

/-- Stores one after the other. -/
def Mat.puts (matrix : Mat) (ws : List (ℤ × BitVec 16)) : Mat := ws.foldl (fun matrix w => matrix.set w.1 w.2) matrix

namespace Cell

def alienShort : BitVec 16 := 0x0A00 ||| (ascii 'w').setWidth 16
def shipShort : BitVec 16 := 0x0900 ||| (ascii 'x').setWidth 16
def shieldShort : BitVec 16 := 0x0800 ||| (ascii 'o').setWidth 16
def alienShootShort : BitVec 16 := 0x0E00 ||| (ascii 't').setWidth 16
def shipShootShort : BitVec 16 := 0x0C00 ||| (ascii 'i').setWidth 16
def wallShort : BitVec 16 := 0x1000 ||| 0

/-- What a cell of the board is drawn as. -/
def short (c : Cell) : BitVec 16 :=
  if c.alien = true then alienShort
  else if c.wall = true then wallShort
  else if c.ship = true then shipShort
  else if c.shield = true then shieldShort
  else if c.alienShoot = true then alienShootShort
  else if c.shipShoot = true then shipShootShort
  else 0x0000

end Cell

/-- `SEG_ZEOS`. -/
def segZeos : ℤ := 18

/-- The game with the variables that only the drawing reads. -/
structure Display where
  game : Game := {}
  ring : FrameBuff := {}
  fps : ℤ := 0
  pfd : ℤ := 0
  ticksPrveis : Word := 0
  totalFrames : ℤ := 0

/-- The character in `c` behind `itoa(a, &c)`. What `itoa` stores beyond `c` is on the stack and left out. -/
def itoaChar (a : ℤ) : Byte := itoa (fun _ => 0) a 0 0

namespace Display

variable (d : Display)

/-- `compute_fps` at the reading `ticks` of the clock. -/
def computeFps (ticks : Word) : Display :=
  if segZeos ≤ (ticks - d.ticksPrveis).toInt then
    { d with ticksPrveis := ticks, fps := d.totalFrames, totalFrames := 0 }
  else d

/-! The header of `board_to_screen`, by its comments; `a`, `b`, `auxxx` and `auxxx2` are its offsets. -/

/-- `Position x y`. -/
def position : List (ℤ × BitVec 16) :=
  [(0, stos (ascii 'x') 0x6), (1, stos (ascii ':') 0x7),
    (2, stos (itoaChar (d.game.yShip.tdiv 10)) 0x6),
    (3, stos (itoaChar (d.game.yShip.tmod 10)) 0x6),
    (5, stos (ascii 'y') 0x6), (6, stos (ascii ':') 0x7),
    (7, stos (ascii '2') 0x6), (8, stos (ascii '2') 0x6)]

/-- `FPS`. -/
def fpsHeader (a : ℤ) : List (ℤ × BitVec 16) :=
  [(10 + a, stos (ascii 'f') 0x4), (11 + a, stos (ascii 'p') 0x4),
    (12 + a, stos (ascii 's') 0x4), (13 + a, stos (ascii ':') 0x7),
    (14 + a, stos (itoaChar (d.fps.tdiv 10)) 0x4),
    (15 + a, stos (itoaChar (d.fps.tmod 10)) 0x4)]

/-- `PFD`. -/
def pfdHeader (a b : ℤ) : List (ℤ × BitVec 16) :=
  [(10 + a + b, stos (ascii 'p') 0xC), (11 + a + b, stos (ascii 'f') 0xC),
    (12 + a + b, stos (ascii 'd') 0xC), (13 + a + b, stos (ascii ':') 0x7),
    (14 + a + b, stos (itoaChar (d.pfd.tdiv 10)) 0xC),
    (15 + a + b, stos (itoaChar (d.pfd.tmod 10)) 0xC)]

/-- `HEAD I TAIL`, the first half. -/
def headHeader (a b auxxx : ℤ) : List (ℤ × BitVec 16) :=
  [(10 + a + b + auxxx, stos (ascii 'h') 0xC), (11 + a + b + auxxx, stos (ascii 'e') 0xC),
    (12 + a + b + auxxx, stos (ascii 'a') 0xC),
    (13 + a + b + auxxx, stos (ascii 'd') 0xC), (14 + a + b + auxxx, stos (ascii ':') 0x7),
    (15 + a + b + auxxx, stos (itoaChar (Int.tdiv d.ring.head 10)) 0xC),
    (16 + a + b + auxxx, stos (itoaChar (Int.tmod d.ring.head 10)) 0xC)]

/-- The second half. -/
def tailHeader (a b auxxx2 : ℤ) : List (ℤ × BitVec 16) :=
  [(10 + a + b + auxxx2, stos (ascii 't') 0xC), (11 + a + b + auxxx2, stos (ascii 'a') 0xC),
    (12 + a + b + auxxx2, stos (ascii 'i') 0xC), (13 + a + b + auxxx2, stos (ascii 'l') 0xC),
    (14 + a + b + auxxx2, stos (ascii ':') 0x7),
    (15 + a + b + auxxx2, stos (itoaChar (Int.tdiv d.ring.tail 10)) 0xC),
    (16 + a + b + auxxx2, stos (itoaChar (Int.tmod d.ring.tail 10)) 0xC)]

/-- `board_to_screen` at the reading `ticks` of the clock. -/
def boardToScreen (ticks : Word) (matrix : Mat) : Display × Mat :=
  let a := 0
  let b := 7
  let matrix := matrix.puts d.position
  let d := d.computeFps ticks
  let matrix := matrix.puts (d.fpsHeader a)
  let d := { d with pfd := d.ring.pendingFrames }
  let matrix := matrix.puts (d.pfdHeader a b)
  let auxxx := 7
  let matrix := matrix.puts (d.headHeader a b auxxx)
  let auxxx2 := 15
  let matrix := matrix.puts (d.tailHeader a b auxxx2)
  (d, forCells (upTo 1 (numRows - 1)) (upTo 0 (numColumns - 1)) matrix fun matrix i j =>
    matrix.set (numColumns * i + j) (d.game.board i j).short)

end Display

end Zeos
