import Zeos.Entry

/-!
# `main` (`system.c`)

`boot` is `main` up to the tables and the first two tasks. What is left is the user program, which comes with the
image behind the system: its copy goes through the page tables of task 1.
-/

namespace Zeos

def kernelStart : Word := 0x10000
def phUserStart : Word := 0x100000

namespace Mm

/-! ### `copy_data` through the page tables -/

/-- `while(size > 4) { *q++ = *p++; size -= 4; }`, with what it leaves in its variables. -/
def copyLongs (dir : Slot) (m : Mm) (p q : Word) (size : ℤ) : Except Fault (Mm × Word × Word × ℤ) :=
  if 4 < size then do
    let w ← m.loadWord dir p
    let m ← m.storeWord dir q w
    copyLongs dir m (p + 4) (q + 4) (size - 4)
  else pure (m, p, q, size)
termination_by size.toNat

/-- `while(size > 0) { *q1++ = *p1++; size --; }`. -/
def copyRest (dir : Slot) (m : Mm) (p1 q1 : Word) (size : ℤ) : Except Fault Mm :=
  if 0 < size then do
    let b ← m.loadByte dir p1
    let m ← m.storeByte dir q1 b
    copyRest dir m (p1 + 1) (q1 + 1) (size - 1)
  else pure m
termination_by size.toNat

def copyData (dir : Slot) (m : Mm) (start dest : Word) (size : ℤ) : Except Fault Mm := do
  let (m, p, q, size) ← copyLongs dir m start dest size
  copyRest dir m p q size

end Mm

/-- The lengths that `build` has left in the image, `*p_sys_size` and `*p_usr_size`, and the copy. -/
def moveUser (k : Kernel) : Except Fault Kernel := do
  let sysSize ← k.mm.loadWord k.cr3 kernelStart
  let usrSize ← k.mm.loadWord k.cr3 (kernelStart + 4)
  let mm ← Mm.copyData k.cr3 k.mm (kernelStart + sysSize) phUserStart usrSize.toInt
  pure (k.setMm mm)

/-- `main` up to the `return_gate` into user mode. -/
def main (M : Machine) : Except Fault Kernel := do
  let k ← boot M
  moveUser k

end Zeos
