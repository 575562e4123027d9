import Zeos.Defs
import Zeos.Lib.Disk

/-!
# The boot sector (`bootsect.S`)

The boot sector moves itself away and reads the image from the floppy disk, as 16-bit code over a memory of bytes. The
BIOS is a parameter, and of its reads only what it promises is used (`Reads`). The variables of `read_it` are words of
the sector that has been moved, at the place that the assembler gives them. What follows the load, up to protected mode,
is not modelled.
-/

namespace Zeos

namespace Bootsect

open Disk ByteMem ForLoop

abbrev Short := BitVec 16

def secPista : ℕ := 18

/-- The disk that the code is for. -/
def floppy : Geometry := ⟨2, secPista, by decide, by decide⟩

def setupsecs : Byte := 0
def bootseg : Short := 0x07C0
def initseg : Short := 0x9000
def sysseg : Short := 0x1000

/-- The address `seg:off`. -/
def linear (seg off : Short) : ℕ := seg.toNat * 16 + off.toNat

def short (m : Bytes) (a : ℕ) : Short := m (a + 1) ++ m a

def setShort (m : Bytes) (a : ℕ) (w : Short) : Bytes :=
  Function.update (Function.update m a (w.extractLsb' 0 8)) (a + 1) (w.extractLsb' 8 8)

/-- The registers of a call of `int 0x13` with `ah` 2: read sectors. -/
structure Request where
  al : Byte
  ch : Byte
  cl : Byte
  dh : Byte
  dl : Byte
  es : Short
  bx : Short
  deriving DecidableEq, Repr

namespace Request

/-- The place that is asked for, the sector counted from one, with two bits of the cylinder in `cl`. -/
def cylinder (r : Request) : ℕ := r.ch.toNat + 256 * (r.cl.toNat / 64)

def sector (r : Request) : ℕ := r.cl.toNat % 64

def place (r : Request) : Chs := ⟨r.cylinder, r.dh.toNat, r.sector - 1⟩

def dest (r : Request) : ℕ := linear r.es r.bx

/-- Sectors of one track of the first drive, into one segment. -/
structure Valid (r : Request) : Prop where
  drive : r.dl = 0
  count : 0 < r.al.toNat
  cylinder : r.cylinder < 80
  head : r.dh.toNat < floppy.heads
  sector : 0 < r.sector
  track : r.sector - 1 + r.al.toNat ≤ floppy.sectors
  segment : r.bx.toNat + 512 * r.al.toNat ≤ 2 ^ 16

end Request

/-- Where the words `sread`, `head` and `track` are in the sector: in front of the `gdt`, which is at 435. -/
structure Vars where
  offset : ℕ
  before_gdt : offset + 6 ≤ 435

namespace Vars

variable (V : Vars)

/-- In the sector that has been moved, which `ds` points at. -/
def sread : ℕ := linear initseg 0 + V.offset

def head : ℕ := V.sread + 2

def track : ℕ := V.sread + 4

/-- Byte `i` of the sector is in none of them. -/
def Off (i : ℕ) : Prop := i < V.offset ∨ V.offset + 6 ≤ i

end Vars

/-- What `read_it` works on, and the reads that it has made. -/
structure Loader where
  es : Short
  bx : Short
  mem : Bytes
  asked : List Request

namespace Loader

variable (V : Vars) (c : Loader)

def sread : Short := short c.mem V.sread

def head : Short := short c.mem V.head

def track : Short := short c.mem V.track

def store (a : ℕ) (w : Short) : Loader := { c with mem := setShort c.mem a w }

end Loader

/-- `rep movsw`: the sector moved to `INITSEG`. -/
def moved (m : Bytes) : Bytes :=
  forRange 0 256 m fun m i => setShort m (linear initseg 0 + 2 * i) (short m (linear bootseg 0 + 2 * i))

def sectors : Short := BitVec.ofNat 16 secPista

/-- The longs and bytes of the boot sector that are read where it has been moved to. -/
def setupSects (m : Bytes) : Byte := m (linear initseg 497)

def syssize (m : Bytes) : Short := short m (linear initseg 500)

variable (bios : Request → Bytes → Bytes) (V : Vars)

/-- The registers of `read_track` at its `int 0x13`. -/
def request (c : Loader) (ax : Short) : Request where
  al := ax.setWidth 8
  ch := (c.track V).setWidth 8
  cl := (c.sread V + 1).setWidth 8
  dh := (c.head V).setWidth 8 &&& 1
  dl := 0
  es := c.es
  bx := c.bx

/-- `read_track`: `ax` sectors. -/
def readTrack (c : Loader) (ax : Short) : Loader :=
  let r := request V c ax
  { c with mem := bios r c.mem, asked := c.asked ++ [r] }

/-- How many sectors `rp_read` asks for: the rest of the track, or the rest of the segment. -/
def chunk (c : Loader) : Short :=
  let ax := sectors - c.sread V
  let cx := ax <<< 9
  let carry := 2 ^ 16 ≤ cx.toNat + c.bx.toNat
  if ¬ carry ∨ cx + c.bx = 0 then ax else (0 - c.bx) >>> 9

/-- From `ok2_read` to `ok3_read`, behind the call: `sread`, `head` and `track`. -/
def nextTrack (c : Loader) (ax : Short) : Loader :=
  if ax + c.sread V = sectors then
    let ax := 1 - c.head V
    let c := if ax = 0 then c.store V.track (c.track V + 1) else c
    (c.store V.head ax).store V.sread 0
  else c.store V.sread (ax + c.sread V)

/-- From `ok3_read` on: `es:bx`. -/
def ok3Read (c : Loader) (cx : Short) : Loader :=
  let cx := cx <<< 9
  if cx.toNat + c.bx.toNat < 2 ^ 16 then { c with bx := c.bx + cx } else { c with es := c.es + 0x1000, bx := 0 }

/-- From `ok2_read` on. -/
def ok2Read (c : Loader) (ax : Short) : Loader := ok3Read (nextTrack V (readTrack bios V c ax) ax) ax

/-- A round of `rp_read`. -/
def rpRead (c : Loader) : Option Loader :=
  if c.es - sysseg ≤ syssize c.mem then some (ok2Read bios V c (chunk V c)) else none

/-- `read_it` in front of `rp_read`, where `es` is at a 64 kB boundary: of `sread` it stores the low byte only. -/
def readIt (m : Bytes) : Loader where
  es := sysseg
  bx := 0
  mem := Function.update m V.sread (setupSects m + 1)
  asked := []

/-- What the BIOS promises of a read, up to the end of the boot sector that has been moved. -/
def Reads (disk : Bytes) : Prop :=
  ∀ (r : Request) (m : Bytes), r.Valid →
    Blit (linear sysseg 0) (linear initseg 512) disk (512 * floppy.lba r.place) r.dest (512 * r.al.toNat) m (bios r m)

end Bootsect

end Zeos
