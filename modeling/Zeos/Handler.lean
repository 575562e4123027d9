import Zeos.Entry
import Zeos.Lib.X86

/-!
# `system_call_handler` by its instructions (`entry.S`, `sys_call_table.S`)

`Entry` takes a system call as one step of the kernel. Here is the code in between `sysenter` and `sysexit`:
the stack it fills, the table it calls through and the way back. The service routines are what the table
points to, at the addresses the linker gave them.
-/

namespace Zeos

open X86

/-! ### `segment.h` -/

def kernelCs : BitVec 16 := 0x10
def kernelDs : BitVec 16 := 0x18
def userCs : BitVec 16 := 0x23
def userDs : BitVec 16 := 0x2B

/-! ### `sys_call_table.S` -/

/-- The symbols of the service routines. -/
inductive Routine
  | sysNiSyscall | sysExit | sysFork | sysWrite | sysGettime | sysYield | sysGetpid | sysAlloc | sysDealloc
  | sysCreatethread | sysTerminatethread | sysDumpScreen | sysGetKey | sysSemInit | sysSemWait | sysSemSignal
  | sysSemDestroy | sysGetStats
  deriving DecidableEq, Repr

def sysCallTable : List Routine :=
  [.sysNiSyscall,           -- 0
    .sysExit,               -- 1
    .sysFork,               -- 2
    .sysNiSyscall,          -- 3
    .sysWrite,              -- 4
    .sysNiSyscall,          -- 5
    .sysNiSyscall,          -- 6
    .sysNiSyscall,          -- 7
    .sysNiSyscall,          -- 8
    .sysNiSyscall,          -- 9
    .sysGettime,            -- 10
    .sysNiSyscall,          -- 11
    .sysNiSyscall,          -- 12
    .sysYield,              -- 13
    .sysNiSyscall,          -- 14
    .sysNiSyscall,          -- 15
    .sysNiSyscall,          -- 16
    .sysNiSyscall,          -- 17
    .sysNiSyscall,          -- 18
    .sysNiSyscall,          -- 19
    .sysGetpid,             -- 20
    .sysAlloc,              -- 21
    .sysDealloc,            -- 22
    .sysCreatethread,       -- 23
    .sysTerminatethread,    -- 24
    .sysDumpScreen,         -- 25
    .sysGetKey,             -- 26
    .sysSemInit,            -- 27
    .sysSemWait,            -- 28
    .sysSemSignal,          -- 29
    .sysSemDestroy,         -- 30
    .sysNiSyscall,          -- 31
    .sysNiSyscall,          -- 32
    .sysNiSyscall,          -- 33
    .sysNiSyscall,          -- 34
    .sysGetStats]           -- 35

/-- `(. - sys_call_table) / 4` -/
def maxSyscall : ℕ := sysCallTable.length

/-! ### `user-utils.S` -/

/-- What the wrapper of a call puts into `eax`. -/
def Call.number : Call → Option ℕ
  | .exit => some 1
  | .fork => some 2
  | .write _ _ _ => some 4
  | .gettime => some 10
  | .yield => some 13
  | .getpid => some 20
  | .alloc => some 21
  | .dealloc _ => some 22
  | .createthread _ _ _ => some 23
  | .terminatethread => some 24
  | .dumpScreen _ => some 25
  | .getKey _ => some 26
  | .semInit _ _ => some 27
  | .semWait _ => some 28
  | .semSignal _ => some 29
  | .semDestroy _ => some 30
  | .getStats _ _ => some 35
  | .niSyscall => none

/-- The routine `systemCall` runs. -/
def Call.routine : Call → Routine
  | .exit => .sysExit
  | .fork => .sysFork
  | .write _ _ _ => .sysWrite
  | .gettime => .sysGettime
  | .yield => .sysYield
  | .getpid => .sysGetpid
  | .alloc => .sysAlloc
  | .dealloc _ => .sysDealloc
  | .createthread _ _ _ => .sysCreatethread
  | .terminatethread => .sysTerminatethread
  | .dumpScreen _ => .sysDumpScreen
  | .getKey _ => .sysGetKey
  | .semInit _ _ => .sysSemInit
  | .semWait _ => .sysSemWait
  | .semSignal _ => .sysSemSignal
  | .semDestroy _ => .sysSemDestroy
  | .getStats _ _ => .sysGetStats
  | .niSyscall => .sysNiSyscall

/-! ### `entry.S` -/

/-- What the linker decides: where the table is, and the routines. -/
structure Symbols where
  sysCallTable : Long
  routine : Routine → Long

inductive Label
  | sysenterErr
  | sysenterFin
  deriving DecidableEq, Repr

namespace Asm

def saveAll : List Op :=
  [.push (.seg .gs), .push (.seg .fs), .push (.seg .es), .push (.seg .ds), .push (.reg .eax), .push (.reg .ebp),
    .push (.reg .edi), .push (.reg .esi), .push (.reg .edx), .push (.reg .ecx), .push (.reg .ebx),
    .mov (.imm (kernelDs.setWidth 32)) (.reg .edx), .mov (.reg .edx) (.seg .ds), .mov (.reg .edx) (.seg .es)]

def restoreAll : List Op :=
  [.pop (.reg .ebx), .pop (.reg .ecx), .pop (.reg .edx), .pop (.reg .esi), .pop (.reg .edi), .pop (.reg .ebp),
    .pop (.reg .eax), .pop (.seg .ds), .pop (.seg .es), .pop (.seg .fs), .pop (.seg .gs)]

/-- From the label on. -/
def sysenterFin : List (Instr Label) :=
  ([Op.store .eax 0x18 .esp] ++ restoreAll ++
    [Op.load 0 .esp .edx,   -- Return address
      .load 12 .esp .ecx,   -- User stack address
      .sti]).map .op ++ [.sysexit]

/-- From the label on. -/
def sysenterErr : List (Instr Label) := .op (.mov (.imm (-enosys)) (.reg .eax)) :: sysenterFin

def systemCallHandler (S : Symbols) : List (Instr Label) :=
  -- what the processor saves at an interrupt, by hand
  ([Op.push (.imm (userDs.setWidth 32)), .push (.reg .ebp), .push .flags, .push (.imm (userCs.setWidth 32)),
    .pushm 4 .ebp] ++ saveAll).map .op ++
  .op (.cmp 0 .eax) :: .jl .sysenterErr ::
  -- `jg` goes by the sign, and lets `MAX_SYSCALL` itself pass
  .op (.cmp (BitVec.ofNat 32 maxSyscall) .eax) :: .jg .sysenterErr ::
  .call S.sysCallTable .eax :: .jmp .sysenterFin ::
  sysenterErr

/-- The handler's surroundings: `setSysenter` and `task_switch` have set the registers of `sysenter` to the
kernel's segment and the top of the current task's kernel stack. -/
def env (top ret : Long) (callee : Long → Cpu → Cpu) : Env Label where
  msr := ⟨kernelCs, top⟩
  code
    | .sysenterErr => sysenterErr
    | .sysenterFin => sysenterFin
  ret := ret
  callee := callee

end Asm

end Zeos
