import Zeos.Entry
import Zeos.Proof.Tables

/-!
# What the kernel does, without its pointers

`AState` is a kernel state as its users mean it: each queue is the sequence of its
nodes, and of the memory there are the frame map and the page tables. `AStep` are the
steps on it. Where a step of the code goes wrong on corrupted lists, `AStep` says no
more than the other parts of the state need.
-/

namespace Zeos

structure AState where
  pid : Slot → Word
  dir : Slot → Slot
  esp : Slot → StackPtr
  sem : Sem → Semaphore
  queue : Node → List Node
  current : Slot
  idle : Slot
  lastPid : Word
  phys : ℕ → Byte
  table : Slot → ℕ → Pte

/-- The entries of pages `lo`, …, `hi - 1` of `PT` emptied. -/
def clearPages (t : Slot → ℕ → Pte) (PT : Slot) (lo hi : ℕ) : Slot → ℕ → Pte :=
  fun s p => if s = PT ∧ lo ≤ p ∧ p < hi then {} else t s p

/-- The page tables after a fork from table `T` into table `c`, with the new frames `fs`. -/
def forkTable (t : Slot → ℕ → Pte) (T c : Slot) (fs : List ℕ) : Slot → ℕ → Pte := fun s p =>
  if s = T ∧ heapStart ≤ p ∧ p < heapStart + numPagData then {}
  else if s = c ∧ p < pagLogInitData then userPte (t T p).pbaseAddr
  else if s = c ∧ p < heapStart then userPte (fs.getD (p - pagLogInitData) 0)
  else t s p

/-- The frames that `free_frame` takes back. -/
def Freeable (f : ℕ) : Prop := numPagKernel < f ∧ f < totalPages

open Classical in
/-- The frame map after `free_frame` on each frame of `F`. -/
noncomputable def freeAll (phys : ℕ → Byte) (F : ℕ → Prop) : ℕ → Byte :=
  fun g => if F g ∧ Freeable g then frameFree else phys g

/-- The frame map after `alloc_frame` gave each frame of `fs`. -/
def useAll (phys : ℕ → Byte) (fs : List ℕ) : ℕ → Byte :=
  fun g => if g ∈ fs then frameUsed else phys g

namespace AState

variable (a : AState)

/-- The page table of the current task. -/
def tab : Slot := a.dir a.current

def Live (s : Slot) : Prop := Node.task s ∉ a.queue .freequeue

/-- The head of semaphore `n` is itself on `readyqueue`. -/
def Wild (n : Sem) : Prop := Node.blocked n ∈ a.queue .readyqueue

def put (hd : Node) (xs : List Node) : AState := { a with queue := Function.update a.queue hd xs }

def push (hd : Node) (s : Slot) : AState := a.put hd (a.queue hd ++ [.task s])

/-- The task that is next to run: the first of `readyqueue`, or idle. -/
def next : Slot :=
  match a.queue .readyqueue with
  | .task t :: _ => t
  | _ => a.idle

/-- The current task leaves the CPU, with its stack pointer saved, to the next one. -/
def dispatch (ebp : ℕ) : AState :=
  { a.put .readyqueue (a.queue .readyqueue).tail with
    current := a.next
    esp := Function.update a.esp a.current (some (a.current, ebp)) }

def switch (ebp : ℕ) : Switch := ⟨a.current, a.next, some (a.current, ebp), a.esp a.next⟩

/-- The first free struct `c` becomes a ready task. -/
def spawn (c : Slot) (rest : List Node) (pid : Word) (dir : Slot) (esp : StackPtr) : AState :=
  { (a.put .freequeue rest).push .readyqueue c with
    pid := Function.update a.pid c pid
    dir := Function.update a.dir c dir
    esp := Function.update a.esp c esp }

/-! ### Memory -/

/-- The data pages of the current task are given back. -/
noncomputable def release : AState :=
  { a with
    phys := freeAll a.phys fun g => ∃ i < numPagData, (a.table a.tab (pagLogInitData + i)).pbaseAddr = g
    table := clearPages a.table a.tab pagLogInitData heapStart }

/-- A page that `dealloc_k` accepts. -/
def Mapped (page : ℕ) : Prop :=
  heapStart ≤ page ∧ page < totalPages ∧ (a.table a.tab page).pbaseAddr ≠ 0

noncomputable def unmap (page : ℕ) : AState :=
  { a with
    phys := freeAll a.phys fun g => (a.table a.tab page).pbaseAddr = g
    table := clearPages a.table a.tab page (page + 1) }

/-- `alloc_k`: a free frame at the first heap page without one, or nothing. -/
inductive Alloc : AState → Prop
  | noPage : (∀ p, heapStart ≤ p → p < totalPages → (a.table a.tab p).pbaseAddr ≠ 0) → Alloc a
  | noFrame : (∀ f, IsEven f → a.phys f ≠ frameFree) → Alloc a
  | page (p f : ℕ) : heapStart ≤ p → p < totalPages → (a.table a.tab p).pbaseAddr = 0 →
    (∀ q, heapStart ≤ q → q < p → (a.table a.tab q).pbaseAddr ≠ 0) → IsEven f →
    a.phys f = frameFree → Alloc
      { a with
        phys := useAll a.phys [f]
        table := fun s q => if s = a.tab ∧ q = p then userPte f else a.table s q }

/-- A fork that ran out of frames. -/
def forkFail (c : Slot) (rest : List Node) : AState :=
  { a.put .freequeue (rest ++ [.task c]) with
    pid := Function.update a.pid c (a.pid a.current)
    dir := Function.update a.dir c c
    esp := Function.update a.esp c (a.esp a.current)
    table := clearPages a.table c pagLogInitData (pagLogInitData + freeFrames a.phys) }

def forkOk (c : Slot) (rest : List Node) (ebp : ℕ) (fs : List ℕ) : AState :=
  { a.spawn c rest (a.lastPid + 1) c (some (c, ebp - 1)) with
    lastPid := a.lastPid + 1
    phys := useAll a.phys fs
    table := forkTable a.table a.tab c fs }

/-- The current task has ended: its struct goes to `freequeue`. -/
def leave (ebp : ℕ) : AState := (a.push .freequeue a.current).dispatch ebp

noncomputable def exit (ebp : ℕ) : AState :=
  { a.release with pid := Function.update a.pid a.current (-1) }.leave ebp

/-! ### Semaphores -/

def setSem (n : Sem) (s : Semaphore) : AState := { a with sem := Function.update a.sem n s }

/-- The counter of `n` moved by `d`. -/
def count (n : Sem) (d : Word) : AState :=
  a.setSem n { a.sem n with counter := (a.sem n).counter + d }

def semInit (n : Sem) (v : Word) : AState := (a.setSem n ⟨true, v⟩).put (.blocked n) []

/-- The waiters of `n` become ready. -/
def semDestroy (n : Sem) : AState :=
  ((a.put .readyqueue (a.queue .readyqueue ++ a.queue (.blocked n))).put (.blocked n) []).setSem n
    { a.sem n with isInit := false }

end AState

/-- The events that touch nothing of an `AState`. -/
def Event.isLocal : Event → Bool
  | .sysenter (.write _ _ _) _ _ | .sysenter .gettime _ _ | .sysenter .getpid _ _
  | .sysenter (.dumpScreen _) _ _ | .sysenter (.getKey _) _ _ | .sysenter (.getStats _ _) _ _
  | .sysenter .niSyscall _ _ | .keyboard _ | .store _ _ => true
  | _ => false

open AState in
/-- **The steps of the kernel on abstract states**, with the switch of stacks they make. -/
inductive AStep (a : AState) : Event → Option Switch → AState → Prop
  | noop {e} : e.isLocal = true → AStep a e none a
  | clock {b} : AStep a (.clock b) none a
  | clockSwitch {b} : a.current ≠ a.idle → a.queue .readyqueue ≠ [] →
    AStep a (.clock b) (some ((a.push .readyqueue a.current).switch b))
      ((a.push .readyqueue a.current).dispatch b)
  | yield {u b} :
    AStep a (.sysenter .yield u b) (some ((a.push .readyqueue a.current).switch b))
      ((a.push .readyqueue a.current).dispatch b)
  | forkNone {u b} : a.queue .freequeue = [] → AStep a (.sysenter .fork u b) none a
  | forkFail {u b c rest} : a.queue .freequeue = .task c :: rest → freeFrames a.phys < numPagData →
    AStep a (.sysenter .fork u b) none (a.forkFail c rest)
  | forkOk {u b c rest fs} : a.queue .freequeue = .task c :: rest → numPagData ≤ freeFrames a.phys →
    fs.length = numPagData → fs.Nodup → (∀ f ∈ fs, IsEven f ∧ a.phys f = frameFree) →
    AStep a (.sysenter .fork u b) none (a.forkOk c rest b fs)
  | exit {u b} : AStep a (.sysenter .exit u b)
      (some ((a.push .freequeue a.current).switch b)) (a.exit b)
  | alloc {u b a'} : a.Alloc a' → AStep a (.sysenter .alloc u b) none a'
  | deallocBad {u b addr} : ¬ a.Mapped (addr.toNat / pageSize) →
    AStep a (.sysenter (.dealloc addr) u b) none a
  | dealloc {u b addr} : a.Mapped (addr.toNat / pageSize) →
    AStep a (.sysenter (.dealloc addr) u b) none (a.unmap (addr.toNat / pageSize))
  | threadNone {u b w f p} : a.queue .freequeue = [] →
    AStep a (.sysenter (.createthread w f p) u b) none a
  | thread {u b w f p c rest a'} : a.queue .freequeue = .task c :: rest → a.Alloc a' →
    AStep a (.sysenter (.createthread w f p) u b) none
      (a'.spawn c rest (a.pid a.current) a.tab (some (c, kernelStackSize - 18)))
  | terminateBad {u b} : ¬ a.Mapped (u.toNat / pageSize) →
    AStep a (.sysenter .terminatethread u b) none a
  | terminate {u b} : a.Mapped (u.toNat / pageSize) →
    AStep a (.sysenter .terminatethread u b)
      (some ((a.push .freequeue a.current).switch b)) ((a.unmap (u.toNat / pageSize)).leave b)
  | semInitBad {u b i v} : validSem a.sem i true = none → AStep a (.sysenter (.semInit i v) u b) none a
  | semInit {u b i v n} : validSem a.sem i true = some n →
    AStep a (.sysenter (.semInit i v) u b) none (a.semInit n v)
  | waitBad {u b i} : validSem a.sem i false = none → AStep a (.sysenter (.semWait i) u b) none a
  | waitPass {u b i n} : validSem a.sem i false = some n → 0 ≤ ((a.sem n).counter - 1).toInt →
    AStep a (.sysenter (.semWait i) u b) none (a.count n (-1))
  | waitBlock {u b i n} : validSem a.sem i false = some n → ((a.sem n).counter - 1).toInt < 0 →
    ¬ a.Wild n → AStep a (.sysenter (.semWait i) u b)
      (some (((a.count n (-1)).push (.blocked n) a.current).switch b))
      (((a.count n (-1)).push (.blocked n) a.current).dispatch b)
  | waitWild {u b i n ys zs} : validSem a.sem i false = some n → ((a.sem n).counter - 1).toInt < 0 →
    a.queue .readyqueue = ys ++ .blocked n :: zs →
    AStep a (.sysenter (.semWait i) u b)
      (some (((a.count n (-1)).put .readyqueue (ys ++ .task a.current :: .blocked n :: zs)).switch b))
      (((a.count n (-1)).put .readyqueue (ys ++ .task a.current :: .blocked n :: zs)).dispatch b)
  | signalBad {u b i} : validSem a.sem i false = none → AStep a (.sysenter (.semSignal i) u b) none a
  | signalPass {u b i n} : validSem a.sem i false = some n → 0 < ((a.sem n).counter + 1).toInt →
    AStep a (.sysenter (.semSignal i) u b) none (a.count n 1)
  | signalWake {u b i n t xs} : validSem a.sem i false = some n →
    ((a.sem n).counter + 1).toInt ≤ 0 → ¬ a.Wild n → a.queue (.blocked n) = .task t :: xs →
    AStep a (.sysenter (.semSignal i) u b) none
      (((a.count n 1).put (.blocked n) xs).push .readyqueue t)
  | signalSplice {u b i n} : validSem a.sem i false = some n →
    ((a.sem n).counter + 1).toInt ≤ 0 → ¬ a.Wild n → a.queue (.blocked n) = [] →
    AStep a (.sysenter (.semSignal i) u b) none
      ((a.count n 1).put .readyqueue (a.queue .readyqueue ++ [.blocked n]))
  | signalWild {u b i n xs} : validSem a.sem i false = some n →
    ((a.sem n).counter + 1).toInt ≤ 0 → a.Wild n → xs.Perm (a.queue .readyqueue) →
    AStep a (.sysenter (.semSignal i) u b) none ((a.count n 1).put .readyqueue xs)
  | destroyBad {u b i} : validSem a.sem i false = none →
    AStep a (.sysenter (.semDestroy i) u b) none a
  | destroy {u b i n} : validSem a.sem i false = some n → ¬ a.Wild n →
    AStep a (.sysenter (.semDestroy i) u b) none (a.semDestroy n)

end Zeos
