import Zeos.Defs

/-!
# The console and the keyboard (`io.c`, `devices.c`, `interrupt.c`)
-/

namespace Zeos

open ForLoop

def newline : Byte := 10

namespace Console

variable (s : Console)

/-- `x = 0; y = (y + 1) % NUM_ROWS`. -/
def nextRow : Console := { s with x := 0, y := BitVec.ofNat 8 ((s.y.toNat + 1) % numRows) }

/-- The store of one cell at the cursor and the move of the cursor, which `printc` and
`printcc` share. -/
def putCell (c : BitVec 16) : Console :=
  let s := { s with screen := Function.update s.screen (s.y.toNat * numColumns + s.x.toNat) c }
  let s := { s with x := s.x + 1 }
  if numColumns ≤ s.x.toNat then s.nextRow else s

def printc (c : Byte) : Console :=
  if c = newline then s.nextRow else s.putCell (c.setWidth 16 ||| 0x0200)

def printcc (cc : BitVec 16) : Console :=
  if cc.setWidth 8 = newline then s.nextRow else s.putCell cc

def printcXy (mx my c : Byte) : Console :=
  { printc { s with x := mx, y := my } c with x := s.x, y := s.y }

def printccXy (mx my : Byte) (cc : BitVec 16) : Console :=
  { printcc { s with x := mx, y := my } cc with x := s.x, y := s.y }

def printk (string : List Byte) : Console := string.foldl printc s

end Console

def sysWriteConsole (s : Console) (buffer : List Byte) : Console := buffer.foldl Console.printc s

namespace CircularBuff

variable (b : CircularBuff)

def writeToBuffer (c : Byte) : CircularBuff :=
  if b.isFullFlag = false then
    let b := { b with buff := Function.update b.buff b.head c }
    let b := { b with head := (b.head + 1) % buffSize }
    if b.head = b.tail then { b with isFullFlag := true } else b
  else b

/-- `read_from_buffer`; `none` is its `-1`. -/
def readFromBuffer : Option Byte × CircularBuff :=
  if b.head = b.tail ∧ b.isFullFlag = false then (none, b)
  else
    (some (b.buff b.tail), { b with tail := (b.tail + 1) % buffSize, isFullFlag := false })

end CircularBuff

/-- The characters of `char_map`, by scan code. -/
def charMapTable : List Char :=
  ['\x00', '\x00', '1', '2', '3', '4', '5', '6',
   '7', '8', '9', '0', '\x27', '\x00', '\x00', '\x00',
   'q', 'w', 'e', 'r', 't', 'y', 'u', 'i',
   'o', 'p', '\x60', '+', '\x00', '\x00', 'a', 's',
   'd', 'f', 'g', 'h', 'j', 'k', 'l', '\x00',
   '\x00', '\x00', '\x00', '\x00', 'z', 'x', 'c', 'v',
   'b', 'n', 'm', ',', '.', '-', '\x00', '*',
   '\x00', '\x00', '\x00', '\x00', '\x00', '\x00', '\x00', '\x00',
   '\x00', '\x00', '\x00', '\x00', '\x00', '\x00', '\x00', '7',
   '8', '9', '-', '4', '5', '6', '+', '1',
   '2', '3', '0', '\x00', '\x00', '\x00', '<', '\x00',
   '\x00', '\x00', '\x00', '\x00', '\x00', '\x00', '\x00', '\x00',
   '\x00', '\x00']

/-- `char_map[i]`; what lies behind the table is read as zero. -/
def charMap (i : ℕ) : Byte := BitVec.ofNat 8 (charMapTable.getD i '\x00').toNat

/-- `keyboard_routine` on the byte `c` read from port `0x60`: a released key is queued. -/
def keyboardRoutine (b : CircularBuff) (c : Byte) : CircularBuff :=
  if c &&& 0x80 ≠ 0 then b.writeToBuffer (charMap (c &&& 0x7F).toNat) else b

end Zeos
