import Zeos.Lib.Run
import Zeos.Sys

/-!
# The kernel as a transition system (`entry.S`, `interrupt.c`, `system.c`)

The kernel runs with interrupts off, so that what it does between two instants of
user mode (or of the idle loop) is one step: a system call, a clock or keyboard
interrupt. Between the steps the current task may store into its own pages.
`kernelSystem` has these steps, from the state `boot` leaves.
-/

namespace Zeos

open LinkHeap ForLoop Execution

/-! ### System calls -/

inductive Call
  | exit
  | fork
  | write (fd buffer nbytes : Word)
  | gettime
  | yield
  | getpid
  | alloc
  | dealloc (address : Word)
  | createthread (twrap function param : Word)
  | terminatethread
  | dumpScreen (address : Word)
  | getKey (c : Word)
  | semInit (nSem value : Word)
  | semWait (nSem : Word)
  | semSignal (nSem : Word)
  | semDestroy (nSem : Word)
  | getStats (pid st : Word)
  /-- Any other number in `eax`. -/
  | niSyscall
  deriving DecidableEq, Repr

/-- A call that always comes back to its caller. -/
def returning (r : Word × Kernel) : Out × Kernel := ({ ret := some r.1 }, r.2)

def systemCall (k : Kernel) (ebp : ℕ) : Call → Except Fault (Out × Kernel)
  | .exit => sysExit k ebp
  | .fork => (sysFork k ebp).map returning
  | .write fd buffer nbytes => (sysWrite k fd buffer nbytes).map returning
  | .gettime => .ok (returning (sysGettime k, k))
  | .yield => sysYield k ebp
  | .getpid => .ok (returning (sysGetpid k, k))
  | .alloc => .ok (returning (sysAlloc k))
  | .dealloc address => .ok (returning (sysDealloc k address))
  | .createthread twrap function param =>
    (sysCreatethread k twrap function param).map returning
  | .terminatethread => sysTerminatethread k ebp
  | .dumpScreen address => (sysDumpScreen k address).map returning
  | .getKey c => (sysGetKey k c).map returning
  | .semInit nSem value => .ok (returning (sysSemInit k nSem value))
  | .semWait nSem => sysSemWait k nSem ebp
  | .semSignal nSem => (sysSemSignal k nSem).map returning
  | .semDestroy nSem => (sysSemDestroy k nSem).map returning
  | .getStats pid st => (sysGetStats k pid st).map returning
  | .niSyscall => .ok (returning (-enosys, k))

/-- `system_call_handler` up to the call: the user context goes on top of the kernel
stack, its `eip` read at `4(%ebp)` of the user stack `uesp`. -/
def enterCall (k : Kernel) (uesp : Word) : Except Fault Kernel := do
  let eip ← k.mm.loadWord k.cr3 (uesp + 4)
  pure (k.setTask k.current { k.task k.current with userEsp := uesp, userEip := eip })

def systemCallHandler (k : Kernel) (uesp : Word) (ebp : ℕ) (c : Call) : Except Fault (Out × Kernel) := do
  let k ← enterCall k uesp
  systemCall k ebp c

/-! ### Interrupts -/

/-- `clock_routine`; `zeos_show_clock` changes the screen only and is left out. -/
def clockRoutine (k : Kernel) (ebp : ℕ) : Except Fault (Out × Kernel) :=
  schedule { k with zeosTicks := k.zeosTicks + 1 } ebp

def clockHandler (k : Kernel) (ebp : ℕ) : Except Fault (Out × Kernel) := clockRoutine (userToSystem k) ebp

def keyboardHandler (k : Kernel) (c : Byte) : Kernel :=
  let k := userToSystem k
  systemToUser { k with kbd := keyboardRoutine k.kbd c }

/-! ### Steps -/

inductive Event
  /-- A system call of the current task, with its user stack at `uesp`. -/
  | sysenter (c : Call) (uesp : Word) (ebp : ℕ)
  | clock (ebp : ℕ)
  | keyboard (c : Byte)
  /-- A store of the current task into its own memory. -/
  | store (addr : Word) (b : Byte)
  deriving DecidableEq, Repr

/-- What the code of a user program does; `cpu_idle` does nothing of it. -/
def Event.ofUser : Event → Bool
  | .sysenter _ _ _ => true
  | .store _ _ => true
  | _ => false

/-- The calls on memory and on the life of tasks. -/
def Event.isMemory : Event → Bool
  | .sysenter .fork _ _ | .sysenter .exit _ _ | .sysenter .alloc _ _ | .sysenter (.dealloc _) _ _
  | .sysenter (.createthread _ _ _) _ _ | .sysenter .terminatethread _ _ => true
  | _ => false

def step (k : Kernel) : Event → Except Fault (Out × Kernel)
  | .sysenter c uesp ebp => systemCallHandler k uesp ebp c
  | .clock ebp => clockHandler k ebp
  | .keyboard c => .ok ({}, keyboardHandler k c)
  | .store addr b => (k.mm.userStore k.cr3 addr b).map fun m => ({}, k.setMm m)

/-! ### Boot -/

/-- What the kernel finds: where it was linked to, the readings of the time stamp
counter, and the memory, the user program already in its frames. -/
structure Machine where
  layout : Layout
  tsc : ℕ → Word
  ram : ℕ → ℕ → Byte

/-- The kernel's variables when `main` starts. -/
def reset (M : Machine) : Kernel where
  task := fun _ => {}
  links := fun _ => ⟨none, none⟩
  current := 0
  idleTask := 0
  remainingQuantum := 0
  listSem := fun _ => {}
  globalPID := 1000
  globalTID := 0
  mm := { physMem := fun _ => 0, dirPages := fun _ => 0, pagusrTable := fun _ _ => {}, ram := M.ram }
  cr3 := 0
  zeosTicks := 0
  tsc := M.tsc
  tscReads := 0
  kbd := {}
  console := {}

def initMm (L : Layout) (k : Kernel) : Kernel :=
  let k := k.setMm (k.mm.initTablePages L).initFrames.initDirPages
  let k := allocateDIR k 0
  { k with cr3 := getDIR k 0 }

/-- `main`, up to the jump into user mode. -/
def boot (M : Machine) : Except Fault Kernel := do
  let k ← initSched (initMm M.layout (reset M))
  let k ← initIdle k
  initTask1 k

/-- A step of the running system. Idle makes no call and no store. -/
def Step (k : Kernel) (e : Event) (o : Out) (k' : Kernel) : Prop :=
  (e.ofUser = true → k.current ≠ k.idleTask) ∧ step k e = .ok (o, k')

/-- **The running kernel.** -/
def kernelSystem (M : Machine) : System Kernel Event Out where
  init k := boot M = .ok k
  step := Step

abbrev KRun (M : Machine) := Run (kernelSystem M)

abbrev KTrace := Trace Kernel Event Out

end Zeos
