import Mathlib.Algebra.Group.Int.Defs
import Mathlib.Algebra.GroupWithZero.Nat
import Zeos.Lib.Links
import Zeos.Lib.Loop

/-!
# The kernel's data

The constants of `mm_address.h`, `sched.h` and `sys.c`, the task structs, the
page tables, the semaphores, and the kernel state they make up (`Kernel`).

A pointer into one of the kernel's arrays is the index it points at: a
`task_struct *` is a `Slot`, a page directory or page table is the slot of
`dir_pages` or `pagusr_table` it starts at, and a `list_head *` is a `Node` or
null.
-/

namespace Zeos

open LinkHeap

/-! ### Constants -/

@[simp] abbrev nrTasks : ℕ := 10
@[simp] abbrev maxSem : ℕ := 8
@[simp] abbrev totalPages : ℕ := 1024
@[simp] abbrev numPagKernel : ℕ := 256
@[simp] abbrev numPagCode : ℕ := 8
@[simp] abbrev numPagData : ℕ := 20
@[simp] abbrev lUserStart : ℕ := 0x100000
@[simp] abbrev pagLogInitCode : ℕ := lUserStart / 4096
@[simp] abbrev pagLogInitData : ℕ := pagLogInitCode + numPagCode
@[simp] abbrev userFirstPage : ℕ := lUserStart / 4096
@[simp] abbrev pageSize : ℕ := 0x1000
/-- The words of a kernel stack. -/
@[simp] abbrev kernelStackSize : ℕ := 1024
def defaultQuantum : BitVec 32 := 10

abbrev Byte := BitVec 8
abbrev Word := BitVec 32

def frameFree : Byte := 0
def frameUsed : Byte := 1

/-! ### Error numbers -/

def esrch : Word := 3
def ebadf : Word := 9
def eagain : Word := 11
def enomem : Word := 12
def eacces : Word := 13
def efault : Word := 14
def einval : Word := 22
def enosys : Word := 38

/-! ### Tasks and queues -/

abbrev Slot := Fin nrTasks
abbrev Sem := Fin maxSem

instance : NeZero nrTasks := ⟨Nat.succ_ne_zero 9⟩

/-- The `list_head`s of the kernel: the two queues, the `blocked` list of each
semaphore, and the `list` field of each task struct. -/
inductive Node
  | freequeue
  | readyqueue
  | blocked (n : Sem)
  | task (s : Slot)
  deriving DecidableEq, Repr

inductive StateT
  | ST_RUN
  | ST_READY
  | ST_BLOCKED
  deriving DecidableEq, Repr

structure Stats where
  userTicks : Word := 0
  systemTicks : Word := 0
  blockedTicks : Word := 0
  readyTicks : Word := 0
  elapsedTotalTicks : Word := 0
  totalTrans : Word := 0
  remainingTicks : Word := 0
  deriving DecidableEq, Repr

/-- A pointer to word `i` of the kernel stack of `s`; `none` is the zero that task
structs start with. -/
abbrev StackPtr := Option (Slot × ℕ)

/-- Where in the kernel a task that does not have the CPU goes on when it gets it
back: what the frames above its saved stack pointer return to. -/
inductive Resume
  /-- A fresh idle task returns into `cpu_idle`. -/
  | cpuIdle
  /-- A forked child returns 0 through `ret_from_fork`. -/
  | retFromFork
  /-- A fresh thread leaves the kernel at the user context on its stack. -/
  | thread
  | sysYield
  | sysSemWait
  | sysExit
  | sysTerminatethread
  | clockRoutine
  deriving DecidableEq, Repr

/-- `union task_union`: the task struct (its `list` field is in `Kernel.links`), and
of its kernel stack the user `eip` and `esp` at the top and where it resumes. -/
structure TaskUnion where
  PID : Word := 0
  TID : Word := 0
  destroyed : Bool := false
  dirPagesBaseAddr : Slot := 0
  registerEsp : StackPtr := none
  state : StateT := .ST_RUN
  totalQuantum : Word := 0
  pStats : Stats := {}
  /-- `stack[KERNEL_STACK_SIZE-5]`. -/
  userEip : Word := 0
  /-- `stack[KERNEL_STACK_SIZE-2]`. -/
  userEsp : Word := 0
  resume : Resume := .cpuIdle
  deriving DecidableEq, Repr

structure Semaphore where
  isInit : Bool := false
  counter : Word := 0
  deriving DecidableEq, Repr

/-! ### Memory -/

/-- A page table entry, less the bits that no kernel function reads. -/
structure Pte where
  present : Bool := false
  rwBit : Bool := false
  user : Bool := false
  pbaseAddr : ℕ := 0
  deriving DecidableEq, Repr

/-- `mm.c`: the frame map, the page directories (entry `ENTRY_DIR_PAGES` of each, the
only one in use), the page tables, and the bytes of each physical frame. -/
@[ext] structure Mm where
  physMem : ℕ → Byte
  dirPages : Slot → Slot
  pagusrTable : Slot → ℕ → Pte
  ram : ℕ → ℕ → Byte

/-! ### Devices -/

@[simp] abbrev buffSize : ℕ := 32
@[simp] abbrev numColumns : ℕ := 80
@[simp] abbrev numRows : ℕ := 25

/-- The keyboard's circular buffer of `io.c`. -/
structure CircularBuff where
  buff : ℕ → Byte := fun _ => 0
  head : ℕ := 0
  tail : ℕ := 0
  isFullFlag : Bool := false

/-- The console of `io.c`: the cursor, a `Byte` each, and the cells of video memory. -/
structure Console where
  x : Byte := 0
  y : Byte := 19
  screen : ℕ → BitVec 16 := fun _ => 0

/-! ### The kernel state -/

/-- The state of the kernel. `current` is the task whose kernel stack the CPU is on
(or will be on at the next entry), and `tsc` gives the tick count that each reading
of the time stamp counter will see. -/
structure Kernel where
  task : Slot → TaskUnion
  links : Heap Node
  current : Slot
  idleTask : Slot
  remainingQuantum : Word
  listSem : Sem → Semaphore
  globalPID : Word
  globalTID : Word
  mm : Mm
  /-- The page directory in `cr3`. -/
  cr3 : Slot
  zeosTicks : Word
  tsc : ℕ → Word
  tscReads : ℕ
  kbd : CircularBuff
  console : Console

/-- A switch of kernel stacks: who left the CPU, who got it, the stack pointer saved
for the one and the stack pointer loaded for the other. -/
structure Switch where
  outgoing : Slot
  incoming : Slot
  saved : StackPtr
  loaded : StackPtr
  deriving DecidableEq, Repr

/-- A task has switched to itself, and not to the frame that this switch has saved. -/
def Switch.Stale (sw : Switch) : Prop := sw.incoming = sw.outgoing ∧ sw.loaded ≠ sw.saved

instance (sw : Switch) : Decidable sw.Stale := inferInstanceAs (Decidable (_ ∧ _))

/-- Why the kernel does not come back from a call. -/
inductive Fault
  /-- A page fault in the kernel: its handler does not return. -/
  | page (addr : Word)
  /-- A null `list_head` pointer is dereferenced. -/
  | null
  /-- A `list_head` outside the task array is taken for one inside a task struct. -/
  | wild
  /-- A loop does not end. -/
  | hang
  /-- `switch_stack` loads a null stack pointer, or one to a frame that is there no more. -/
  | stack (sw : Switch)
  deriving DecidableEq, Repr

/-- What a call gives back: the value in `eax` for the task that leaves the kernel
(none on the way out of an interrupt), and the switch it made on the way. -/
structure Out where
  ret : Option Word := none
  switch : Option Switch := none
  deriving DecidableEq, Repr

namespace Kernel

variable (k : Kernel)

def setTask (s : Slot) (t : TaskUnion) : Kernel := { k with task := Function.update k.task s t }

def setSem (n : Sem) (s : Semaphore) : Kernel :=
  { k with listSem := Function.update k.listSem n s }

def setLinks (h : Heap Node) : Kernel := { k with links := h }

def setMm (m : Mm) : Kernel := { k with mm := m }

end Kernel

/-- How many `list_head`s there are. -/
@[simp] abbrev numNodes : ℕ := nrTasks + maxSem + 2

/-- The tasks and other nodes on the list of `hd`, read along `next`. -/
def members (k : Kernel) (hd : Node) : List Node := walk k.links hd numNodes (k.links hd).next

/-- A task is live when its struct is not in `freequeue`. -/
def Live (k : Kernel) (s : Slot) : Prop := Node.task s ∉ members k .freequeue

instance (k : Kernel) (s : Slot) : Decidable (Live k s) := inferInstanceAs (Decidable (_ ∉ _))

end Zeos
