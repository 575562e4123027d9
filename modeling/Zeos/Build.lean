import Zeos.Defs
import Zeos.Lib.Disk

/-!
# The disk image (`build.c`)

`build bootsect system user` writes the image on its output: the boot sector, the system and the user program, with
the lengths of both patched into the first two sectors. Only its files can fail here: the errors of the host on an
open file are not modelled.
-/

namespace Zeos

namespace Build

open Disk

/-- What `die` is called for. -/
inductive Death
  | usage
  | unableToOpen (name : String)
  | unableToReadHeader (name : String)
  | nonMinixHeader (name : String)
  | illegalDataSegment (name : String)
  | illegalBssSegment (name : String)
  | illegalSymbolTable (name : String)
  | bootBlockSize
  | bootFlag
  | unexpectedEof (name : String)
  deriving DecidableEq, Repr

def minixHeaderLen : ℕ := 32
def sizeofBuf : ℕ := 1024
def defaultMajorRoot : Byte := 0
def defaultMinorRoot : Byte := 0

def hdr : File := [0x01, 0x03, 0x10, 0x04, 0x20, 0x00, 0x00, 0x00]

/-- `lb[i]`, the buffer as an array of longs. -/
def lb (buf : File) (i : ℕ) : Word := ByteMem.long (bytes buf) (4 * i)

/-- Byte `i` of a length, as it is written. -/
def low (w : Word) (i : ℕ) : Byte := ((w >>> (8 * i)) &&& 0xff).setWidth 8

variable (fs : String → Option File)

def openFile (name : String) : Except Death File :=
  match fs name with
  | none => .error (.unableToOpen name)
  | some f => .ok f

/-- `minix_open`, with what is left of the file behind its header. -/
def minixOpen (name : String) : Except Death File := do
  let f ← openFile fs name
  let buf := f.take minixHeaderLen
  if buf.length ≠ minixHeaderLen then .error (.unableToReadHeader name)
  else if buf.take hdr.length ≠ hdr ∨ lb buf 5 ≠ 0 then .error (.nonMinixHeader name)
  else if lb buf 3 ≠ 0 then .error (.illegalDataSegment name)
  else if lb buf 4 ≠ 0 then .error (.illegalBssSegment name)
  else if lb buf 7 ≠ 0 then .error (.illegalSymbolTable name)
  else .ok (f.drop minixHeaderLen)

/-- The loop that copies a file behind what is written already. -/
def copyLoop (name : String) (f out : File) (sz : ℕ) : Except Death File :=
  if 0 < sz then
    let l := if sizeofBuf < sz then sizeofBuf else sz
    let buf := f.take l
    if buf.length ≠ l then .error (.unexpectedEof name)
    else copyLoop name (f.drop l) (out ++ buf) (sz - l)
  else .ok out
termination_by sz
decreasing_by
  unfold sizeofBuf
  split <;> omega

/-- A file copied, with its length in a `u32`. -/
def copyFile (name : String) (out : File) : Except Death (Word × File) := do
  let f ← openFile fs name
  let size : Word := BitVec.ofNat 32 f.length
  let out ← copyLoop name f out size.toNat
  pure (size, out)

/-- The writes at 500, 512, 516 and 520. -/
def patch (out : File) (sysSize usrSize : Word) : File :=
  let imSize := (sysSize + usrSize + 15) / 16
  let out := overwrite out 500 [low imSize 0, low imSize 1]
  let out := overwrite out 512 [low sysSize 0, low sysSize 1, low sysSize 2, 0]
  let out := overwrite out 516 [low usrSize 0, low usrSize 1, low usrSize 2, 0]
  overwrite out 520 [low 0x7E1A 0, low 0x7E1A 1, low 0x7E1A 2, 0]

def main (argv : List String) : Except Death File :=
  match argv with
  | [_, bootsect, system, user] => do
    let rest ← minixOpen fs bootsect
    let buf := rest.take sizeofBuf
    if buf.length ≠ 512 then .error .bootBlockSize
    else if bytes buf 510 ≠ 0x55 ∨ bytes buf 511 ≠ 0xaa then .error .bootFlag
    else do
      let out := (buf.set 508 defaultMinorRoot).set 509 defaultMajorRoot
      let (sysSize, out) ← copyFile fs system out
      let (usrSize, out) ← copyFile fs user out
      pure (patch out sysSize usrSize)
  | _ => .error .usage

end Build

end Zeos
