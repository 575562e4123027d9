import Zeos.Devices
import Zeos.Sched
import Zeos.Utils

/-!
# The system calls (`sys.c`)

Each call is a function of the kernel state. A call that gives the CPU away ends in
`schedNextRr`, so that its result is what the incoming task leaves the kernel with.
`ebp` is the frame pointer the call finds, as a word of the current kernel stack:
the compiler fixes it, so it may be any.
-/

namespace Zeos

open LinkHeap ForLoop

/-- Copies the whole of `union task_union`, its list node included. -/
def copyTaskUnion (k : Kernel) (src dst : Slot) : Kernel :=
  { k with
    task := Function.update k.task dst (k.task src)
    links := Function.update k.links (.task dst) (k.links (.task src)) }

/-! ### fork -/

/-- Releases the first `n` data pages of `PT` and their frames. -/
def releaseData (m : Mm) (PT : Slot) (n : ℕ) : Mm :=
  forRange 0 n m fun m i =>
    (m.freeFrame (m.getFrame PT (pagLogInitData + i))).delSsPag PT (pagLogInitData + i)

/-- The loop of `sys_fork` that allocates the data and stack pages of the child, at page
`pag` with `n` to go; `false` when the frames have run out and all is released. -/
def forkData (PT : Slot) : ℕ → ℕ → Mm → Bool × Mm
  | 0, _, m => (true, m)
  | n + 1, pag, m =>
    match m.allocFrame with
    | (some newPhPag, m) => forkData PT n (pag + 1) (m.setSsPag PT (pagLogInitData + pag) newPhPag)
    | (none, m) => (false, releaseData m PT pag)

/-- The child's kernel and code pages, taken over from the parent. -/
def forkSystem (m : Mm) (processPT parentPT : Slot) : Mm :=
  let m := forRange 0 numPagKernel m fun m pag => m.setSsPag processPT pag (m.getFrame parentPT pag)
  forRange 0 numPagCode m fun m pag =>
    m.setSsPag processPT (pagLogInitCode + pag) (m.getFrame parentPT (pagLogInitCode + pag))

/-- The copy of the parent's data pages, each through a page of the parent
`NUM_PAG_DATA` further up that holds the child's frame meanwhile. -/
def forkCopy (m : Mm) (dir processPT parentPT : Slot) : Except Fault Mm :=
  forRangeM (numPagKernel + numPagCode) numPagData m fun m pag => do
    -- the window of the parent onto the child's page `pag`
    let m := m.setSsPag parentPT (pag + numPagData) (m.getFrame processPT pag)
    let m ← m.copyPage dir pag (pag + numPagData)
    pure (m.delSsPag parentPT (pag + numPagData))

/-- The child's task struct and kernel stack once its address space stands. -/
def forkChild (k : Kernel) (uchild : Slot) (ebp : ℕ) : Kernel :=
  let k := { k with globalPID := k.globalPID + 1 }
  let k := k.setTask uchild { k.task uchild with PID := k.globalPID, state := .ST_READY }
  -- below the frame at `ebp`: the address of `ret_from_fork`, and under it the saved `ebp`
  let k := k.setTask uchild
    { k.task uchild with registerEsp := some (uchild, ebp - 1), resume := .retFromFork }
  let k := initStats k uchild
  setState k uchild .ST_READY

/-- The child's pages, its data pages there already, become a copy of the parent's. -/
def forkImage (k : Kernel) (processPT : Slot) : Except Fault Kernel := do
  let parentPT := getPT k k.current
  let m ← forkCopy (forkSystem k.mm processPT parentPT) k.cr3 processPT parentPT
  let k := k.setMm m
  pure { k with cr3 := getDIR k k.current }

/-- `sys_fork` from the allocation of the data pages on, `uchild` taken and copied. -/
def forkPages (k : Kernel) (uchild : Slot) (ebp : ℕ) : Except Fault (Word × Kernel) :=
  let processPT := getPT k uchild
  match forkData processPT numPagData 0 k.mm with
  | (false, m) => do
    let k := k.setMm m
    -- the struct goes back with the directory and the PID it has by now
    let h ← listAddTail k.links (.task uchild) .freequeue
    pure (-eagain, k.setLinks h)
  | (true, m) => do
    let k ← forkImage (k.setMm m) processPT
    let k := forkChild k uchild ebp
    let h ← listAddTail k.links (.task uchild) .readyqueue
    pure ((k.task uchild).PID, k.setLinks h)

def sysFork (k : Kernel) (ebp : ℕ) : Except Fault (Word × Kernel) :=
  if listEmpty k.links .freequeue then .ok (-enomem, k)
  else do
    let (uchild, k) ← takeFree k
    let k := copyTaskUnion k k.current uchild
    let k := allocateDIR k uchild
    forkPages k uchild ebp

/-! ### exit and yield -/

def sysExit (k : Kernel) (ebp : ℕ) : Except Fault (Out × Kernel) := do
  let processPT := getPT k k.current
  let k := k.setMm (releaseData k.mm processPT numPagData)
  -- pages of the heap are not released
  let h ← listAddTail k.links (.task k.current) .freequeue
  let k := k.setLinks h
  let k := k.setTask k.current { k.task k.current with PID := -1 }
  schedNextRr k ebp .sysExit

def sysYield (k : Kernel) (ebp : ℕ) : Except Fault (Out × Kernel) := forceTaskSwitch k ebp .sysYield

/-! ### Heap pages -/

/-- The search of `alloc_k` for a page without a frame, at page `i` with `n` to go. -/
def findLpage (m : Mm) (PT : Slot) : ℕ → ℕ → Option ℕ
  | 0, _ => none
  | n + 1, i => if m.getFrame PT i = 0 then some i else findLpage m PT n (i + 1)

/-- The first page behind the data pages, `NUM_PAG_KERNEL+NUM_PAG_CODE+NUM_PAG_DATA`. -/
@[simp] abbrev heapStart : ℕ := numPagKernel + numPagCode + numPagData

def allocK (k : Kernel) : Word × Kernel :=
  match findLpage k.mm (getPT k k.current) (totalPages - heapStart) heapStart with
  | none => (-enomem, k)
  | some lpage =>
    match k.mm.allocFrame with
    | (none, m) => (-enomem, k.setMm m)
    | (some frame, m) =>
      (BitVec.ofNat 32 (lpage * pageSize), k.setMm (m.setSsPag (getPT k k.current) lpage frame))

def sysAlloc (k : Kernel) : Word × Kernel := allocK k

def deallocK (k : Kernel) (lpage : ℕ) : Word × Kernel :=
  if lpage < heapStart ∨ totalPages ≤ lpage then (-eacces, k)
  else
    let PT := getPT k k.current
    let frame := k.mm.getFrame PT lpage
    if frame = 0 then (-efault, k)
    else
      let k := k.setMm ((k.mm.freeFrame frame).delSsPag PT lpage)
      (0, { k with cr3 := getDIR k k.current })

def sysDealloc (k : Kernel) (address : Word) : Word × Kernel := deallocK k (address.toNat / pageSize)

/-! ### Threads -/

/-- `&user_stack[i]`. -/
def wordAddr (userStack : Word) (i : ℕ) : Word := userStack + BitVec.ofNat 32 (4 * i)

/-- The three words on top of the new thread's user stack. -/
def pushArgs (m : Mm) (dir : Slot) (userStack function param : Word) : Except Fault Mm := do
  let m ← m.storeWord dir (wordAddr userStack 1021) 0
  let m ← m.storeWord dir (wordAddr userStack 1022) function
  m.storeWord dir (wordAddr userStack 1023) param

def sysCreatethread (k : Kernel) (twrap function param : Word) : Except Fault (Word × Kernel) :=
  if listEmpty k.links .freequeue then .ok (-enomem, k)
  else do
    let (uchild, k) ← takeFree k
    let k := copyTaskUnion k k.current uchild
    -- nothing checks what `alloc_k` returns: an error number is used as an address
    let (userStack, k) := allocK k
    let m ← pushArgs k.mm k.cr3 userStack function param
    let k := k.setMm m
    let k := { k with globalTID := k.globalTID + 1 }
    let k := k.setTask uchild
      { k.task uchild with
        userEsp := wordAddr userStack 1021
        userEip := twrap
        registerEsp := some (uchild, kernelStackSize - 18)
        resume := .thread
        TID := k.globalTID
        state := .ST_READY }
    let h ← listAddTail k.links (.task uchild) .readyqueue
    pure (0, k.setLinks h)

def sysTerminatethread (k : Kernel) (ebp : ℕ) : Except Fault (Out × Kernel) := do
  let userStack := (k.task k.current).userEsp
  let (isError, k) := deallocK k (userStack.toNat / pageSize)
  if isError.toInt < 0 then pure ({ ret := some isError }, k)
  else do
    -- unlike at an exit the PID stays
    let h ← listAddTail k.links (.task k.current) .freequeue
    schedNextRr (k.setLinks h) ebp .sysTerminatethread

/-! ### Semaphores -/

/-- `valid_sem`: the semaphore `n_sem` names, when the test returns 0. -/
def validSem (listSem : Sem → Semaphore) (nSem : Word) (isNew : Bool) : Option Sem :=
  if h : 0 ≤ nSem.toInt ∧ nSem.toNat < maxSem then
    let n : Sem := ⟨nSem.toNat, h.2⟩
    if (listSem n).isInit = isNew then none else some n
  else none

def sysSemInit (k : Kernel) (nSem value : Word) : Word × Kernel :=
  match validSem k.listSem nSem true with
  | none => (-1, k)
  | some n =>
    let k := k.setSem n { k.listSem n with counter := value }
    let k := k.setLinks (initListHead k.links (.blocked n))
    (0, k.setSem n { k.listSem n with isInit := true })

def sysSemWait (k : Kernel) (nSem : Word) (ebp : ℕ) : Except Fault (Out × Kernel) :=
  match validSem k.listSem nSem false with
  | none => .ok ({ ret := some (-1) }, k)
  | some n => do
    let k := k.setSem n { k.listSem n with counter := (k.listSem n).counter - 1 }
    if (k.listSem n).counter.toInt < 0 then do
      -- the caller's state is not set
      let h ← listAddTail k.links (.task k.current) (.blocked n)
      schedNextRr (k.setLinks h) ebp .sysSemWait
    else
      let (v, k) := semWaitEnd k
      pure ({ ret := some v }, k)

def sysSemSignal (k : Kernel) (nSem : Word) : Except Fault (Word × Kernel) :=
  match validSem k.listSem nSem false with
  | none => .ok (-1, k)
  | some n => do
    let k := k.setSem n { k.listSem n with counter := (k.listSem n).counter + 1 }
    if (k.listSem n).counter.toInt ≤ 0 then do
      let lib ← listFirst k.links (.blocked n)
      -- the waiter's state is not set
      let h ← listDel k.links lib
      let h ← listAddTail h lib .readyqueue
      pure (0, k.setLinks h)
    else pure (0, k)

/-- One round of the loop of `sys_sem_destroy`. -/
def destroyOne (k : Kernel) (n : Sem) : Except Fault Kernel := do
  let lib ← listFirst k.links (.blocked n)
  let h ← listDel k.links lib
  let l ← listHeadToTaskStruct lib
  let k := k.setTask l { k.task l with destroyed := true }
  let h ← listAddTail h lib .readyqueue
  pure (k.setLinks h)

/-- The loop of `sys_sem_destroy`, for `f` rounds: a round moves one `list_head` off the
list, so with more rounds than there are `list_head`s it does not end. -/
def destroyLoop (n : Sem) : ℕ → Kernel → Except Fault Kernel
  | 0, k => if listEmpty k.links (.blocked n) then .ok k else .error .hang
  | f + 1, k =>
    if listEmpty k.links (.blocked n) then .ok k
    else do
      let k ← destroyOne k n
      destroyLoop n f k

def sysSemDestroy (k : Kernel) (nSem : Word) : Except Fault (Word × Kernel) :=
  match validSem k.listSem nSem false with
  | none => .ok (-1, k)
  | some n => do
    let k ← destroyLoop n numNodes k
    pure (0, k.setSem n { k.listSem n with isInit := false })

/-! ### The other calls -/

def sysGetpid (k : Kernel) : Word := (k.task k.current).PID

def sysGettime (k : Kernel) : Word := k.zeosTicks

/-- The bytes of `struct stats`. -/
def statsBytes (st : Stats) : List Byte :=
  [st.userTicks, st.systemTicks, st.blockedTicks, st.readyTicks, st.elapsedTotalTicks,
    st.totalTrans, st.remainingTicks].flatMap fun w => (List.range 4).map (Mm.byteOf w)

def sysGetStats (k : Kernel) (pid st : Word) : Except Fault (Word × Kernel) :=
  if accessOk verifyWrite st 28 = false then .ok (-efault, k)
  else if pid.toInt < 0 then .ok (-einval, k)
  else
    match (List.finRange nrTasks).find? fun i => (k.task i).PID = pid with
    | none => .ok (-esrch, k)
    | some i => do
      -- what is left of the quantum of the caller, whichever task is asked about
      let k := setStats k i { (k.task i).pStats with remainingTicks := k.remainingQuantum }
      let m ← copyToUser k.mm k.cr3 (statsBytes (k.task i).pStats) st
      pure (0, k.setMm m)

def sysGetKey (k : Kernel) (c : Word) : Except Fault (Word × Kernel) :=
  if accessOk verifyWrite c 4 = false then .ok (-efault, k)
  else
    match k.kbd.readFromBuffer with
    | (none, b) => .ok (-1, { k with kbd := b })
    | (some ch, b) => do
      let m ← k.mm.storeByte k.cr3 c ch
      pure (0, { k.setMm m with kbd := b })

@[simp] abbrev tamBuffer : ℕ := 512

abbrev escriptura : Word := 1

def checkFd (fd permissions : Word) : Word :=
  if fd ≠ 1 then -ebadf else if permissions ≠ escriptura then -eacces else 0

/-- Behind the loop of `sys_write`. -/
structure Written where
  console : Console
  /-- The contents of `localbuffer` at each call of `sys_write_console`. -/
  chunks : List (List Byte)
  bytesLeft : ℕ

/-- The loop of `sys_write` and the copy behind it, with `bytesLeft` to go at `buffer`. Both are moved by what
`sys_write_console` returns, which is the size it is given. -/
def writeLoop (m : Mm) (dir : Slot) (s : Console) (buffer : Word) (bytesLeft : ℕ) : Except Fault Written :=
  if tamBuffer < bytesLeft then do
    let localbuffer ← copyFromUserLoops m dir buffer tamBuffer
    let ret := tamBuffer
    let w ← writeLoop m dir (sysWriteConsole s localbuffer) (buffer + BitVec.ofNat 32 ret) (bytesLeft - ret)
    pure { w with chunks := localbuffer :: w.chunks }
  else if 0 < bytesLeft then do
    let localbuffer ← copyFromUserLoops m dir buffer bytesLeft
    let ret := bytesLeft
    pure ⟨sysWriteConsole s localbuffer, [localbuffer], bytesLeft - ret⟩
  else pure ⟨s, [], bytesLeft⟩
termination_by bytesLeft
decreasing_by simp only [tamBuffer] at *; omega

def sysWrite (k : Kernel) (fd buffer nbytes : Word) : Except Fault (Word × Kernel) :=
  if checkFd fd escriptura ≠ 0 then .ok (checkFd fd escriptura, k)
  else if nbytes.toInt < 0 then .ok (-einval, k)
  else if accessOk verifyRead buffer nbytes = false then .ok (-efault, k)
  else do
    let w ← writeLoop k.mm k.cr3 k.console buffer nbytes.toNat
    pure (nbytes - BitVec.ofNat 32 w.bytesLeft, { k with console := w.console })

/-- `*((short*)address + i)`. -/
def loadShort (m : Mm) (dir : Slot) (address : Word) (i : ℕ) : Except Fault (BitVec 16) := do
  let lo ← m.loadByte dir (address + BitVec.ofNat 32 (2 * i))
  let hi ← m.loadByte dir (address + BitVec.ofNat 32 (2 * i + 1))
  pure (hi ++ lo)

/-- The loops of `sys_dump_screen`; the cell counter runs along with the console. -/
def dumpLoop (m : Mm) (dir : Slot) (address : Word) (s : Console) : Except Fault (Console × ℕ) :=
  forRangeM 0 numRows (s, 0) fun sk i =>
    forRangeM 0 numColumns sk fun (s, c) j => do
      let cc ← loadShort m dir address c
      pure (s.printccXy (BitVec.ofNat 8 j) (BitVec.ofNat 8 i) cc, c + 1)

def sysDumpScreen (k : Kernel) (address : Word) : Except Fault (Word × Kernel) :=
  let lid := address.toNat / pageSize
  if lid < heapStart ∨ totalPages ≤ lid then .ok (-eacces, k)
  else if k.mm.getFrame (getPT k k.current) lid = 0 then .ok (-eacces, k)
  else do
    -- only the page of `address` itself has been looked at
    let (s, _) ← dumpLoop k.mm k.cr3 address k.console
    pure (0, { k with console := s })

end Zeos
