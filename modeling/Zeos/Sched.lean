import Zeos.Mm

/-!
# The scheduler (`sched.c`, `p_stats.c`, `kernel-utils.S`)

The round-robin scheduler and the task switch. What the outgoing task does when it
gets the CPU back is in its `resume` field, which stands for the frames that its
saved stack pointer points at.
-/

namespace Zeos

open LinkHeap ForLoop

/-! ### Statistics -/

/-- One reading of the time stamp counter. -/
def getTicks (k : Kernel) : Word × Kernel := (k.tsc k.tscReads, { k with tscReads := k.tscReads + 1 })

/-- The counters `update_stats` is called on. -/
inductive Counter
  | userTicks
  | systemTicks
  | blockedTicks
  | readyTicks
  deriving DecidableEq, Repr

def Stats.add (st : Stats) (v : Counter) (d : Word) : Stats :=
  match v with
  | .userTicks => { st with userTicks := st.userTicks + d }
  | .systemTicks => { st with systemTicks := st.systemTicks + d }
  | .blockedTicks => { st with blockedTicks := st.blockedTicks + d }
  | .readyTicks => { st with readyTicks := st.readyTicks + d }

def setStats (k : Kernel) (t : Slot) (st : Stats) : Kernel :=
  k.setTask t { k.task t with pStats := st }

/-- `update_stats` on counter `v` and `elapsed_total_ticks` of task `t`. -/
def updateStats (k : Kernel) (t : Slot) (v : Counter) : Kernel :=
  let (currentTicks, k) := getTicks k
  let st := (k.task t).pStats
  setStats k t { st.add v (currentTicks - st.elapsedTotalTicks) with elapsedTotalTicks := currentTicks }

def initStats (k : Kernel) (t : Slot) : Kernel :=
  let (elapsed, k) := getTicks k
  let (remaining, k) := getTicks k
  setStats k t { elapsedTotalTicks := elapsed, remainingTicks := remaining }

/-! ### Page directories -/

def getDIR (k : Kernel) (t : Slot) : Slot := (k.task t).dirPagesBaseAddr

def getPT (k : Kernel) (t : Slot) : Slot := k.mm.dirPages (k.task t).dirPagesBaseAddr

/-- A task struct gets the page directory of its own position. -/
def allocateDIR (k : Kernel) (t : Slot) : Kernel :=
  k.setTask t { k.task t with dirPagesBaseAddr := t }

/-! ### Task switch -/

def listHeadToTaskStruct (l : Node) : Except Fault Slot :=
  match l with
  | .task s => .ok s
  | _ => .error .wild

/-- `switch_stack(&current()->register_esp, newSp)` with `ebp` word of the current
kernel stack as frame pointer. From here on `current()`, which masks the stack
pointer, is the task whose stack was loaded. -/
def switchStack (k : Kernel) (ebp : ℕ) (newSp : StackPtr) : Option Kernel :=
  let cur := k.current
  let k := k.setTask cur { k.task cur with registerEsp := some (cur, ebp) }
  newSp.map fun sp => { k with current := sp.1 }

/-- `task_switch` and `inner_task_switch`. The stack pointer of `new` is an argument of
`switch_stack`: it is read before `switch_stack` saves the frame pointer. -/
def innerTaskSwitch (k : Kernel) (ebp : ℕ) (new : Slot) : Except Fault (Switch × Kernel) :=
  let k := { k with cr3 := getDIR k new }
  let newSp := (k.task new).registerEsp
  let sw : Switch := ⟨k.current, new, some (k.current, ebp), newSp⟩
  match switchStack k ebp newSp with
  | some k => .ok (sw, k)
  | none => .error (.stack sw)

/-! ### Scheduling policy -/

def getQuantum (k : Kernel) (t : Slot) : Word := (k.task t).totalQuantum

def updateSchedDataRr (k : Kernel) : Kernel := { k with remainingQuantum := k.remainingQuantum - 1 }

def needsSchedRr (k : Kernel) : Bool × Kernel :=
  if k.remainingQuantum = 0 ∧ listEmpty k.links .readyqueue = false then (true, k)
  else if k.remainingQuantum = 0 then (false, { k with remainingQuantum := getQuantum k k.current })
  else (false, k)

def setState (k : Kernel) (t : Slot) (st : StateT) : Kernel :=
  k.setTask t { k.task t with state := st }

def updateProcessStateRr (k : Kernel) (t : Slot) (dstQueue : Option Node) : Except Fault Kernel := do
  let k ← if (k.task t).state ≠ .ST_RUN then do
      let h ← listDel k.links (.task t)
      pure (k.setLinks h)
    else pure k
  match dstQueue with
  | some q => do
    let h ← listAddTail k.links (.task t) q
    let k := k.setLinks h
    if q ≠ .readyqueue then pure (setState k t .ST_BLOCKED)
    else
      let k := updateStats k t .systemTicks
      pure (setState k t .ST_READY)
  | none => pure (setState k t .ST_RUN)

/-- The choice of `sched_next_rr`: the first task of `readyqueue`, taken off it, or idle. -/
def nextTask (k : Kernel) : Except Fault (Slot × Kernel) :=
  if listEmpty k.links .readyqueue = false then do
    let e ← listFirst k.links .readyqueue
    let h ← listDel k.links e
    let t ← listHeadToTaskStruct e
    pure (t, k.setLinks h)
  else pure (k.idleTask, k)

/-- What `sched_next_rr` does to the task it has chosen, up to the switch. -/
def prepareTask (k : Kernel) (t : Slot) : Kernel :=
  let k := setState k t .ST_RUN
  let k := { k with remainingQuantum := getQuantum k t }
  let k := updateStats k k.current .systemTicks
  let k := updateStats k t .readyTicks
  let st := (k.task t).pStats
  setStats k t { st with totalTrans := st.totalTrans + 1 }

/-- `user_to_system` and `system_to_user` (`sys.c`). -/
def userToSystem (k : Kernel) : Kernel := updateStats k k.current .userTicks

def systemToUser (k : Kernel) : Kernel := updateStats k k.current .systemTicks

/-- The end of `sys_sem_wait`: `if (current()->destroyed == 1) …`. -/
def semWaitEnd (k : Kernel) : Word × Kernel :=
  let t := k.task k.current
  if t.destroyed = true then (-1, k.setTask k.current { t with destroyed := false }) else (0, k)

/-- The way of the current task out of the kernel, from where it had left the CPU. -/
def resumeTask (k : Kernel) : Option Word × Kernel :=
  match (k.task k.current).resume with
  | .cpuIdle => (none, k)
  | .thread => (none, k)
  | .retFromFork => (some 0, k)
  | .sysYield => (some 0, k)
  | .sysSemWait => let (v, k) := semWaitEnd k; (some v, k)
  | .sysExit => (none, k)
  | .sysTerminatethread => (some 0, k)
  | .clockRoutine => (none, systemToUser k)

/-- The way of the incoming task out of the kernel. The frame at which a task has left the
CPU is still on its stack, except that a task which has run since has overwritten it: one
that switches to itself goes on only at the frame that it has just saved. -/
def comeBack (sw : Switch) (k : Kernel) : Except Fault (Out × Kernel) :=
  if sw.Stale then .error (.stack sw)
  else
    let (v, k) := resumeTask k
    .ok ({ ret := v, switch := some sw }, k)

/-- `sched_next_rr`, called where the outgoing task will go on at `r`, and the way of
the incoming task out of the kernel. -/
def schedNextRr (k : Kernel) (ebp : ℕ) (r : Resume) : Except Fault (Out × Kernel) := do
  let (t, k) ← nextTask k
  let k := prepareTask k t
  let k := k.setTask k.current { k.task k.current with resume := r }
  let (sw, k) ← innerTaskSwitch k ebp t
  comeBack sw k

/-- `force_task_switch`. -/
def forceTaskSwitch (k : Kernel) (ebp : ℕ) (r : Resume) : Except Fault (Out × Kernel) := do
  let k ← updateProcessStateRr k k.current (some .readyqueue)
  schedNextRr k ebp r

/-- `schedule`, and the way out of the clock interrupt. -/
def schedule (k : Kernel) (ebp : ℕ) : Except Fault (Out × Kernel) := do
  let k := updateSchedDataRr k
  let (need, k) := needsSchedRr k
  if need then do
    let k ← updateProcessStateRr k k.current (some .readyqueue)
    schedNextRr k ebp .clockRoutine
  else pure ({}, systemToUser k)

/-! ### Initialisation -/

def initFreequeue (k : Kernel) : Except Fault Kernel :=
  let k := k.setLinks (initListHead k.links .freequeue)
  forRangeM 0 nrTasks k fun k i => do
    let s : Slot := Fin.ofNat nrTasks i
    let k := k.setTask s { k.task s with PID := -1 }
    let h ← listAddTail k.links (.task s) .freequeue
    pure (k.setLinks h)

def initSched (k : Kernel) : Except Fault Kernel := do
  let k ← initFreequeue k
  pure (k.setLinks (initListHead k.links .readyqueue))

/-- The first free task struct, taken off `freequeue`. -/
def takeFree (k : Kernel) : Except Fault (Slot × Kernel) := do
  let l ← listFirst k.links .freequeue
  let h ← listDel k.links l
  let c ← listHeadToTaskStruct l
  pure (c, k.setLinks h)

def initIdle (k : Kernel) : Except Fault Kernel := do
  let (c, k) ← takeFree k
  let k := k.setTask c { k.task c with PID := 0, totalQuantum := defaultQuantum }
  let k := initStats k c
  let k := allocateDIR k c
  let k := k.setTask c
    { k.task c with registerEsp := some (c, kernelStackSize - 2), resume := .cpuIdle }
  pure { k with idleTask := c }

def initTask1 (k : Kernel) : Except Fault Kernel := do
  let (c, k) ← takeFree k
  let k := k.setTask c { k.task c with PID := 1, totalQuantum := defaultQuantum, state := .ST_RUN }
  let k := { k with remainingQuantum := (k.task c).totalQuantum }
  let k := initStats k c
  let k := allocateDIR k c
  let k := k.setMm (k.mm.setUserPages (getPT k c))
  -- the way into user mode: the next entry is on the stack of `c`
  pure { k with cr3 := getDIR k c, current := c }

end Zeos
