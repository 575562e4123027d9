import Zeos.Handler
import Zeos.Lib.Code

/-!
# The other assembler files (`kernel-utils.S`, `entry.S`, `user-utils.S`)

The task switch and the interrupt handlers of the kernel, and the wrappers of the system calls in the C
library, instruction by instruction. The compiled functions they call have no instructions here.
-/

namespace Zeos

open X86

/-- What the linker decides about the kernel. -/
structure KernelSymbols where
  /-- `&protected_tasks[1]` -/
  task : Long
  /-- `&tss.esp0` -/
  tssEsp0 : Long
  innerTaskSwitch : Long
  /-- Behind the call of `setMSR` in `inner_task_switch`. -/
  msrSet : Long
  setMSR : Long
  switchStack : Long
  userToSystem : Long
  systemToUser : Long
  clockRoutine : Long
  keyboardRoutine : Long

/-- What the linker decides about the user program. -/
structure UserSymbols where
  syscallSysenter : Long
  sysenterReturn : Long
  nok : Long
  errno : Long
  twrap : Long

namespace Asm

/-! ### `kernel-utils.S` -/

/-- `switch_stack(save_sp, new_sp)`. -/
def switchStack : List Inst :=
  [.op (.load 4 .esp .eax),
    .op (.store .ebp 0 .eax),
    .op (.load 8 .esp .esp),
    .op (.pop (.reg .ebp)),
    .ret]

/-- Behind the call in `task_switch`. -/
def taskSwitchEnd : List Inst :=
  [.add 4 .esp,
    .op (.pop (.reg .ebx)),
    .op (.pop (.reg .edi)),
    .op (.pop (.reg .esi)),
    .op (.pop (.reg .ebp)),
    .ret]

/-- `task_switch(new)`. -/
def taskSwitch (K : KernelSymbols) : List Inst :=
  [.op (.push (.reg .ebp)),
    .op (.mov (.reg .esp) (.reg .ebp)),
    .op (.push (.reg .esi)),
    .op (.push (.reg .edi)),
    .op (.push (.reg .ebx)),
    .op (.pushm 8 .ebp),
    .call K.innerTaskSwitch] ++ taskSwitchEnd

def getEbp : List Inst := [.op (.mov (.reg .ebp) (.reg .eax)), .ret]

/-- `setMSR(msr_number, high, low)`; the number is read over `%esp`. -/
def setMSR : List Inst :=
  [.op (.push (.reg .ebp)),
    .op (.mov (.reg .esp) (.reg .ebp)),
    .op (.load 0x10 .ebp .eax),
    .op (.load 0xc .ebp .edx),
    .op (.load 0x8 .esp .ecx),
    .wrmsr,
    .op (.pop (.reg .ebp)),
    .ret]

/-! ### The interrupt handlers of `entry.S` -/

/-- `EOI` -/
def eoi : List Inst := [.movb 0x20, .outb 0x20]

/-- A handler that calls `routine` between `user_to_system` and `system_to_user`. -/
def interruptHandler (K : KernelSymbols) (routine : Long) : List Inst :=
  saveAll.map .op ++ [.op (.push (.reg .eax)), .call K.userToSystem, .op (.pop (.reg .eax))] ++ eoi ++
    [.call routine, .op (.push (.reg .eax)), .call K.systemToUser, .op (.pop (.reg .eax))] ++
    restoreAll.map .op ++ [.iret]

def clockHandler (K : KernelSymbols) : List Inst := interruptHandler K K.clockRoutine

def keyboardHandler (K : KernelSymbols) : List Inst := interruptHandler K K.keyboardRoutine

/-! ### `user-utils.S` -/

def syscallSysenter (U : UserSymbols) : List Inst :=
  [.op (.push (.reg .ecx)),
    .op (.push (.reg .edx)),
    .op (.push (.imm U.sysenterReturn)),
    .op (.push (.reg .ebp)),
    .op (.mov (.reg .esp) (.reg .ebp)),
    .sysenter]

/-- From the label on. -/
def sysenterReturn : List Inst :=
  [.op (.pop (.reg .ebp)),
    .op (.pop (.reg .edx)),
    .op (.pop (.reg .edx)),
    .op (.pop (.reg .ecx)),
    .ret]

/-- Common code for negative return. -/
def nok (U : UserSymbols) : List Inst :=
  [.neg .eax,
    .put .eax U.errno,
    .op (.mov (.imm (-1)) (.reg .eax)),
    .op (.pop (.reg .ebp)),
    .ret]

/-- Where a wrapper takes the value of a register from. -/
inductive Arg
  | imm (w : Long)
  /-- `d(%ebp)` -/
  | param (d : Long)
  deriving DecidableEq

/-- What a wrapper has of its own: the registers it saves, those it fills, in this order, and whether it looks
at the result. -/
structure Wrapper where
  saved : List Reg := []
  moves : List (Reg × Arg)
  checked : Bool

def Arg.op (r : Reg) : Arg → Op
  | .imm w => .mov (.imm w) (.reg r)
  | .param d => .load d .ebp r

/-- Up to the call. -/
def Wrapper.enter (w : Wrapper) : List Op :=
  [.push (.reg .ebp), .mov (.reg .esp) (.reg .ebp)] ++ w.saved.map (fun r => .push (.reg r)) ++
    w.moves.map fun p => p.2.op p.1

/-- Behind the call. -/
def Wrapper.leave (U : UserSymbols) (w : Wrapper) : List Inst :=
  (w.saved.reverse.map fun r => Op.pop (.reg r)).map .op ++
    (if w.checked then [.test .eax, .js U.nok] else []) ++ [.op (.pop (.reg .ebp)), .ret]

def Wrapper.code (U : UserSymbols) (w : Wrapper) : List Inst :=
  w.enter.map .op ++ .call U.syscallSysenter :: w.leave U

/-- `int write(int fd, char *buffer, int size)` -/
def write : Wrapper where
  saved := [.ebx]
  moves := [(.eax, .imm 4), (.ebx, .param 0x8), (.ecx, .param 0xC), (.edx, .param 0x10)]
  checked := true

def gettime : Wrapper where
  moves := [(.eax, .imm 10)]
  checked := false

def getpid : Wrapper where
  moves := [(.eax, .imm 20)]
  checked := false

def fork : Wrapper where
  moves := [(.eax, .imm 2)]
  checked := true

def exit : Wrapper where
  moves := [(.eax, .imm 1)]
  checked := false

def yield : Wrapper where
  moves := [(.eax, .imm 13)]
  checked := false

/-- `int get_stats(int pid, struct stats *st)` -/
def getStats : Wrapper where
  saved := [.ebx]
  moves := [(.eax, .imm 35), (.ebx, .param 0x8), (.ecx, .param 0xC)]
  checked := true

def alloc : Wrapper where
  moves := [(.eax, .imm 21)]
  checked := true

/-- `int dealloc(void *address)` -/
def dealloc : Wrapper where
  saved := [.ebx]
  moves := [(.ebx, .param 0x8), (.eax, .imm 22)]
  checked := true

/-- `int createthread(int (*function)(void *param), void *param)` -/
def createthread (U : UserSymbols) : Wrapper where
  saved := [.ebx, .ecx, .edx]
  moves := [(.eax, .imm 23), (.ebx, .imm U.twrap), (.ecx, .param 0x8), (.edx, .param 0xC)]
  checked := true

def terminatethread : Wrapper where
  moves := [(.eax, .imm 24)]
  checked := true

/-- `int dump_screen(void *address)` -/
def dumpScreen : Wrapper where
  saved := [.ebx]
  moves := [(.ebx, .param 0x8), (.eax, .imm 25)]
  checked := true

/-- `int get_key(char* c)` -/
def getKey : Wrapper where
  saved := [.ebx]
  moves := [(.ebx, .param 0x8), (.eax, .imm 26)]
  checked := true

/-- `int sem_init (int n_sem, unsigned int value)` -/
def semInit : Wrapper where
  saved := [.ebx, .ecx]
  moves := [(.eax, .imm 27), (.ebx, .param 0x8), (.ecx, .param 0xC)]
  checked := true

/-- `int sem_wait (int n_sem)` -/
def semWait : Wrapper where
  saved := [.ebx]
  moves := [(.ebx, .param 0x8), (.eax, .imm 28)]
  checked := true

/-- `int sem_signal (int n_sem)` -/
def semSignal : Wrapper where
  saved := [.ebx]
  moves := [(.ebx, .param 0x8), (.eax, .imm 29)]
  checked := true

/-- `int sem_destroy (int n_sem)` -/
def semDestroy : Wrapper where
  saved := [.ebx]
  moves := [(.ebx, .param 0x8), (.eax, .imm 30)]
  checked := true

/-- The wrapper of a call; no wrapper has another number. -/
def wrapper (U : UserSymbols) : Routine → Option Wrapper
  | .sysNiSyscall => none
  | .sysExit => some exit
  | .sysFork => some fork
  | .sysWrite => some write
  | .sysGettime => some gettime
  | .sysYield => some yield
  | .sysGetpid => some getpid
  | .sysAlloc => some alloc
  | .sysDealloc => some dealloc
  | .sysCreatethread => some (createthread U)
  | .sysTerminatethread => some terminatethread
  | .sysDumpScreen => some dumpScreen
  | .sysGetKey => some getKey
  | .sysSemInit => some semInit
  | .sysSemWait => some semWait
  | .sysSemSignal => some semSignal
  | .sysSemDestroy => some semDestroy
  | .sysGetStats => some getStats

end Asm

end Zeos
