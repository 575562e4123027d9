import Zeos.Lib.Bytes
import Zeos.Mm

/-!
# User pointers (`utils.c`)

The copies are here twice: as the kernel uses them, through the page tables, and with their loops over one
flat memory (`Flat`).
-/

namespace Zeos

def verifyRead : Word := 0
def verifyWrite : Word := 1

/-- `access_ok`. The `VERIFY_WRITE` case of its `switch` has no `break`: a block that
fails its test goes on to the test of the default case. -/
def accessOk (type addr size : Word) : Bool :=
  let addrIni := addr.toNat / pageSize
  let addrFin := (addr + size).toNat / pageSize
  if addrFin < addrIni then false
  else if type = verifyWrite ∧ userFirstPage + numPagCode ≤ addrIni ∧
      addrFin ≤ userFirstPage + numPagCode + numPagData then true
  else if userFirstPage ≤ addrIni ∧ addrFin ≤ userFirstPage + numPagCode + numPagData then true
  else false

/-- `copy_to_user` of `bs` to `dest`, under the page directory `dir`. -/
def copyToUser (m : Mm) (dir : Slot) (bs : List Byte) (dest : Word) : Except Fault Mm :=
  Mm.storeBytes dir m dest bs

/-- `copy_from_user` of `size` bytes at `start`, under the page directory `dir`. -/
def copyFromUser (m : Mm) (dir : Slot) (start : Word) (size : ℕ) : Except Fault (List Byte) :=
  m.loadBytes dir start size

/-- The two loops of `copy_from_user`: words while more than four bytes are left, and the rest byte by byte. -/
def copyFromUserLoops (m : Mm) (dir : Slot) (start : Word) (size : ℕ) : Except Fault (List Byte) :=
  if 4 < size then do
    let w ← m.loadWord dir start
    let bs ← copyFromUserLoops m dir (start + 4) (size - 4)
    pure ((List.range 4).map (Mm.byteOf w) ++ bs)
  else m.loadBytes dir start size
termination_by size

/-! ### The loops over a flat memory -/

namespace Flat

open ByteMem

/-- `while(size > 4) { *q++ = *p++; size -= 4; }`, with what it leaves in its variables. -/
def copyLongs (m : Bytes) (p q : ℕ) (size : ℤ) : Bytes × ℕ × ℕ × ℤ :=
  if 4 < size then copyLongs (setLong m q (long m p)) (p + 4) (q + 4) (size - 4) else (m, p, q, size)
termination_by size.toNat

/-- `while(size > 0) { *q1++ = *p1++; size --; }`. -/
def copyRest (m : Bytes) (p1 q1 : ℕ) (size : ℤ) : Bytes :=
  if 0 < size then copyRest (Function.update m q1 (m p1)) (p1 + 1) (q1 + 1) (size - 1) else m
termination_by size.toNat

/-- The body that the three copies share. -/
def copyLoops (m : Bytes) (start dest : ℕ) (size : ℤ) : Bytes :=
  let (m, p, q, size) := copyLongs m start dest size
  copyRest m p q size

def copyData (m : Bytes) (start dest : ℕ) (size : ℤ) : Bytes := copyLoops m start dest size

def copyFromUser (m : Bytes) (start dest : ℕ) (size : ℤ) : Word × Bytes := (0, copyLoops m start dest size)

def copyToUser (m : Bytes) (start dest : ℕ) (size : ℤ) : Word × Bytes := (0, copyLoops m start dest size)

end Flat

end Zeos
