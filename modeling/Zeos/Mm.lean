import Zeos.ListHead

/-!
# Paging (`mm.c`)

The frame map and the page tables, and the memory accesses the kernel makes
through the page tables. A frame that `alloc_frame` does not find (its `-1`) is
`none`. The caches of the translation hardware are not modelled: an access reads
the tables.
-/

namespace Zeos

open ForLoop

/-- Where the linker puts the task array: the page of `protected_tasks[0]`, behind the
kernel's code and inside the kernel's pages. -/
structure Layout where
  protectedTasks : ℕ
  after_start : 16 < protectedTasks
  in_kernel : protectedTasks + 11 < numPagKernel

namespace Mm

variable (m : Mm)

def setPte (PT : Slot) (page : ℕ) (e : Pte) : Mm :=
  { m with pagusrTable := fun s p => if s = PT ∧ p = page then e else m.pagusrTable s p }

def setPhys (frame : ℕ) (b : Byte) : Mm := { m with physMem := Function.update m.physMem frame b }

def setSsPag (PT : Slot) (page frame : ℕ) : Mm :=
  m.setPte PT page { present := true, rwBit := true, user := true, pbaseAddr := frame % 2 ^ 20 }

def delSsPag (PT : Slot) (logicalPage : ℕ) : Mm := m.setPte PT logicalPage {}

def getFrame (PT : Slot) (logicalPage : ℕ) : ℕ := (m.pagusrTable PT logicalPage).pbaseAddr

/-- The loop of `alloc_frame` from index `i`, with `n` rounds to go. -/
def allocFrameFrom : ℕ → ℕ → Option ℕ × Mm
  | 0, _ => (none, m)
  | n + 1, i =>
    if m.physMem i = frameFree then (some i, m.setPhys i frameUsed) else allocFrameFrom n (i + 2)

/-- `alloc_frame` visits every second frame: `NUM_PAG_KERNEL`, `NUM_PAG_KERNEL + 2`, … -/
def allocFrame : Option ℕ × Mm := m.allocFrameFrom ((totalPages - numPagKernel) / 2) numPagKernel

def freeFrame (frame : ℕ) : Mm :=
  if numPagKernel < frame ∧ frame < totalPages then m.setPhys frame frameFree else m

/-! ### Initialisation -/

/-- One page table of `init_table_pages`. -/
def initTablePagesOf (L : Layout) (m : Mm) (j : Slot) : Mm :=
  let m := forRange 0 totalPages m fun m i => m.setPte j i {}
  -- page 0 stays inaccessible, so that a null pointer faults
  let m := forRange 1 (numPagKernel - 1) m fun m i =>
    m.setPte j i { m.pagusrTable j i with pbaseAddr := i % 2 ^ 20, rwBit := true, present := true }
  let first := L.protectedTasks
  let last := L.protectedTasks + 11
  let m := m.setPte j first { m.pagusrTable j first with present := false }
  m.setPte j last { m.pagusrTable j last with present := false }

def initTablePages (L : Layout) (m : Mm) : Mm :=
  forRange 0 nrTasks m fun m j => initTablePagesOf L m (Fin.ofNat nrTasks j)

def initFrames : Mm :=
  let m := forRange 0 totalPages m fun m i => m.setPhys i frameFree
  forRange 0 numPagKernel m fun m i => m.setPhys i frameUsed

def initDirPages : Mm :=
  forRange 0 nrTasks m fun m i =>
    { m with dirPages := Function.update m.dirPages (Fin.ofNat nrTasks i) (Fin.ofNat nrTasks i) }

/-- The frame number as it is stored: the `-1` of `alloc_frame` keeps its low 20 bits. -/
def storedFrame : Option ℕ → ℕ
  | some f => f % 2 ^ 20
  | none => 2 ^ 20 - 1

def setUserPages (PT : Slot) : Mm :=
  let m := forRange 0 numPagCode m fun m pag =>
    let (newPhPag, m) := m.allocFrame
    m.setPte PT (pagLogInitCode + pag)
      { pbaseAddr := storedFrame newPhPag, user := true, present := true }
  forRange 0 numPagData m fun m pag =>
    let (newPhPag, m) := m.allocFrame
    m.setPte PT (pagLogInitData + pag)
      { pbaseAddr := storedFrame newPhPag, user := true, rwBit := true, present := true }

/-! ### Memory accesses -/

/-- Where a kernel access to `addr` goes under the page directory `dir`: the frame and
the offset in it. Each directory maps the first 4 MB only. -/
def translate (dir : Slot) (addr : Word) : Except Fault (ℕ × ℕ) :=
  let page := addr.toNat / pageSize
  let e := m.pagusrTable (m.dirPages dir) page
  if page < totalPages ∧ e.present = true then .ok (e.pbaseAddr, addr.toNat % pageSize)
  else .error (.page addr)

def loadByte (dir : Slot) (addr : Word) : Except Fault Byte := do
  let (f, o) ← m.translate dir addr
  pure (m.ram f o)

def setRam (f o : ℕ) (b : Byte) : Mm :=
  { m with ram := fun g i => if g = f ∧ i = o then b else m.ram g i }

def storeByte (dir : Slot) (addr : Word) (b : Byte) : Except Fault Mm := do
  let (f, o) ← m.translate dir addr
  pure (m.setRam f o b)

/-- Byte `i` of a word, the lowest first. -/
def byteOf (w : Word) (i : ℕ) : Byte := (w >>> (8 * i)).setWidth 8

def storeWord (dir : Slot) (addr w : Word) : Except Fault Mm :=
  forRangeM 0 4 m fun m i => m.storeByte dir (addr + BitVec.ofNat 32 i) (byteOf w i)

/-- The word at `addr`, the lowest byte first. -/
def loadWord (dir : Slot) (addr : Word) : Except Fault Word :=
  forRangeM 0 4 0 fun w i => do
    let b ← m.loadByte dir (addr + BitVec.ofNat 32 i)
    pure (w ||| b.setWidth 32 <<< (8 * i))

/-- The `n` bytes at `addr`. -/
def loadBytes (dir : Slot) (addr : Word) : ℕ → Except Fault (List Byte)
  | 0 => .ok []
  | n + 1 => do
    let b ← m.loadByte dir addr
    let bs ← loadBytes dir (addr + 1) n
    pure (b :: bs)

def storeBytes (dir : Slot) (m : Mm) (addr : Word) : List Byte → Except Fault Mm
  | [] => .ok m
  | b :: bs => do
    let m ← m.storeByte dir addr b
    storeBytes dir m (addr + 1) bs

/-- `copy_data` of one page onto another, both given by their page numbers. -/
def copyPage (dir : Slot) (start dest : ℕ) : Except Fault Mm := do
  let (f, _) ← m.translate dir (BitVec.ofNat 32 (start * pageSize))
  let (g, _) ← m.translate dir (BitVec.ofNat 32 (dest * pageSize))
  pure { m with ram := Function.update m.ram g (m.ram f) }

/-- A user-mode store, which the page has to allow. A store into the kernel's own
frames is not followed any further. -/
def userStore (dir : Slot) (addr : Word) (b : Byte) : Except Fault Mm :=
  let e := m.pagusrTable (m.dirPages dir) (addr.toNat / pageSize)
  if e.user = true ∧ e.rwBit = true then
    if numPagKernel ≤ e.pbaseAddr then m.storeByte dir addr b else .error .wild
  else .error (.page addr)

end Mm

end Zeos
