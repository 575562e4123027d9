import Zeos.Proof.Marks
import Zeos.Proof.Switches

/-!
# The statistics of the tasks

`update_stats` charges a counter of a task with the time since `elapsed_total_ticks`, and takes the
time for the next charge.

* `Step.booked`: **what a step does to the statistics**, as a list of charges (`AState.charges`).
* `total_charge`: no charge changes what the counters and `elapsed_total_ticks` have in common.
* `run_times`: the rule for what the statistics keep along a run.
* `ticks_conserved`: **no tick is lost or counted twice**, and every dispatch is counted.
* `blocked_never`: `blocked_ticks` is never charged.
-/

namespace Zeos

open LinkHeap ForLoop Execution

/-- What `update_stats` and `sched_next_rr` change of the statistics of a task. -/
@[ext] structure Times where
  spent : Counter → Word
  /-- `elapsed_total_ticks`. -/
  elapsed : Word
  trans : Word

def Stats.spent (st : Stats) : Counter → Word
  | .userTicks => st.userTicks
  | .systemTicks => st.systemTicks
  | .blockedTicks => st.blockedTicks
  | .readyTicks => st.readyTicks

def Stats.times (st : Stats) : Times := ⟨st.spent, st.elapsedTotalTicks, st.totalTrans⟩

/-- The statistics, and the readings of the time stamp counter to come. -/
@[ext] structure Book where
  times : Slot → Times
  tsc : ℕ → Word
  reads : ℕ

def book (k : Kernel) : Book := ⟨fun s => (k.task s).pStats.times, k.tsc, k.tscReads⟩

/-- The time up to `now` goes to counter `v`. -/
def Times.charge (T : Times) (v : Counter) (now : Word) : Times where
  spent := Function.update T.spent v (T.spent v + (now - T.elapsed))
  elapsed := now
  trans := T.trans

namespace Book

variable (B : Book)

/-- `update_stats`. -/
def charge (x : Slot × Counter) : Book where
  times := Function.update B.times x.1 ((B.times x.1).charge x.2 (B.tsc B.reads))
  tsc := B.tsc
  reads := B.reads + 1

def pay (xs : List (Slot × Counter)) : Book := xs.foldl charge B

/-- `total_trans++`. -/
def dispatched (t : Slot) : Book :=
  { B with times := Function.update B.times t { B.times t with trans := (B.times t).trans + 1 } }

/-- `init_stats`. -/
def fresh (c : Slot) : Book where
  times := Function.update B.times c ⟨fun _ => 0, B.tsc B.reads, 0⟩
  tsc := B.tsc
  reads := B.reads + 2

/-- The struct of `s` copied over the one of `c`. -/
def copy (s c : Slot) : Book := { B with times := Function.update B.times c (B.times s) }

@[simp] theorem charge_times (x : Slot × Counter) :
    (B.charge x).times = Function.update B.times x.1 ((B.times x.1).charge x.2 (B.tsc B.reads)) := rfl

@[simp] theorem dispatched_times (t : Slot) : (B.dispatched t).times =
    Function.update B.times t { B.times t with trans := (B.times t).trans + 1 } := rfl

@[simp] theorem fresh_times (c : Slot) :
    (B.fresh c).times = Function.update B.times c ⟨fun _ => 0, B.tsc B.reads, 0⟩ := rfl

@[simp] theorem copy_times (s c : Slot) : (B.copy s c).times = Function.update B.times c (B.times s) := rfl

theorem pay_append (xs ys : List (Slot × Counter)) : B.pay (xs ++ ys) = (B.pay xs).pay ys := List.foldl_append

theorem dispatched_charge (t : Slot) (x : Slot × Counter) :
    (B.dispatched t).charge x = (B.charge x).dispatched t := by
  refine Book.ext (funext fun s => ?_) rfl rfl
  by_cases h1 : s = x.1 <;> by_cases h2 : s = t <;> by_cases h3 : x.1 = t <;>
    simp_all [dispatched, charge, Times.charge]

end Book

variable {k k' k₁ k₂ : Kernel} {a a' : AState} {e : Event} {o : Out} {s t c : Slot} {n : Sem} {u i v : Word} {b : ℕ}
  {r : Resume} {x : TaskUnion} {rest xs : List Node} {sw : Switch} {m : Marks} {B : Book} {w : Counter}

/-! ### Stores into task structs -/

theorem book_setTask (h : x.pStats.times = (k.task s).pStats.times) : book (k.setTask s x) = book k := by
  refine Book.ext (funext fun t => ?_) rfl rfl
  by_cases ht : t = s
  · subst ht
    simp [book, Kernel.setTask, h]
  · simp [book, Kernel.setTask, ht]

theorem times_add (st : Stats) (w : Counter) (now : Word) :
    Stats.times { st.add w (now - st.elapsedTotalTicks) with elapsedTotalTicks := now } = st.times.charge w now := by
  refine Times.ext (funext fun w' => ?_) rfl ?_
  · cases w <;> cases w' <;> simp [Stats.times, Stats.spent, Stats.add, Times.charge]
  · cases w <;> rfl

theorem book_updateStats : book (updateStats k t w) = (book k).charge (t, w) := by
  refine Book.ext (funext fun u => ?_) rfl rfl
  by_cases hu : u = t
  · subst hu
    simp only [book, updateStats, getTicks, setStats, Kernel.setTask, Book.charge, Function.update_self]
    exact times_add _ w _
  · simp [book, updateStats, getTicks, setStats, Kernel.setTask, Book.charge, hu]

theorem book_initStats : book (initStats k t) = (book k).fresh t := by
  refine Book.ext (funext fun u => ?_) rfl rfl
  by_cases hu : u = t
  · subst hu
    simp only [book, initStats, getTicks, setStats, Kernel.setTask, Book.fresh, Function.update_self]
    refine Times.ext (funext fun w => ?_) rfl rfl
    cases w <;> rfl
  · simp [book, initStats, getTicks, setStats, Kernel.setTask, Book.fresh, hu]

theorem Untouched.book_eq (h : Untouched k k') : book k' = book k := by
  unfold book
  rw [h.task, h.tsc, h.reads]

/-! ### The scheduler -/

theorem prepareTask_book : book (prepareTask k t) =
    ((book k).pay [(k.current, .systemTicks), (t, .readyTicks)]).dispatched t := by
  have hstate : book { setState k t .ST_RUN with remainingQuantum := getQuantum (setState k t .ST_RUN) t } = book k :=
    (Book.ext rfl rfl rfl : _ = book (setState k t .ST_RUN)).trans (book_setTask rfl)
  have htrans : ∀ k : Kernel, book (setStats k t { (k.task t).pStats with
      totalTrans := (k.task t).pStats.totalTrans + 1 }) = (book k).dispatched t := by
    intro k
    refine Book.ext (funext fun u => ?_) rfl rfl
    by_cases hu : u = t
    · subst hu
      simp only [book, setStats, Kernel.setTask, Book.dispatched, Function.update_self]
      refine Times.ext (funext fun w => ?_) rfl rfl
      cases w <;> rfl
    · simp [book, setStats, Kernel.setTask, Book.dispatched, hu]
  simp only [prepareTask]
  rw [htrans, book_updateStats, book_updateStats, hstate]
  rfl

theorem handOver_book : book (handOver k s t b r) =
    ((book k).pay [(k.current, .systemTicks), (t, .readyTicks)]).dispatched t := by
  unfold handOver
  dsimp only
  rw [← prepareTask_book]
  have hesp : ∀ k : Kernel, book (k.setTask s { k.task s with registerEsp := some (s, b) }) = book k :=
    fun k => book_setTask rfl
  exact (hesp _).trans (book_setTask rfl)

/-- What is charged to a task that leaves the kernel at `r`. -/
def exitCharges (t : Slot) (r : Resume) : List (Slot × Counter) :=
  if r = .clockRoutine then [(t, .systemTicks)] else []

theorem semWaitEnd_book : book (semWaitEnd k).2 = book k := by
  unfold semWaitEnd
  dsimp only
  split
  · exact book_setTask rfl
  · rfl

theorem resumeTask_book : book (resumeTask k).2 = (book k).pay (exitCharges k.current ((marks k).resume k.current)) := by
  have hr : (marks k).resume k.current = (k.task k.current).resume := rfl
  rw [hr]
  unfold resumeTask exitCharges
  cases (k.task k.current).resume with
  | sysSemWait => exact semWaitEnd_book
  | clockRoutine => exact book_updateStats
  | _ => rfl

/-- What `sched_next_rr` charges as the CPU goes from `s`, which will go on at `r`, to `t`. -/
def switchCharges (m : Marks) (s t : Slot) (r : Resume) : List (Slot × Counter) :=
  [(s, .systemTicks), (t, .readyTicks)] ++ exitCharges t ((m.suspend s r).resume t)

/-- **`sched_next_rr` on the statistics.** -/
theorem schedNextRr_book (hS : Shape k a fun s => s = a.idle) (h : schedNextRr k b r = .ok (o, k')) :
    o.switch = some (a.switch b) ∧
      book k' = ((book k).pay (switchCharges (marks k) a.current a.next r)).dispatched a.next := by
  obtain ⟨hsw, l, hk'⟩ := schedNextRr_handOver hS h
  have h1 := resumeTask_book (k := handOver (k.setLinks l) a.current a.next b r)
  rw [← hk', handOver_book, handOver_marks] at h1
  refine ⟨hsw, h1.trans ?_⟩
  have hc : (k.setLinks l).current = a.current := hS.current
  rw [hc, switchCharges, Book.pay_append]
  -- charging and counting the dispatch do not get in each other's way
  have hpay : ∀ (B : Book) (xs : List (Slot × Counter)), (B.dispatched a.next).pay xs = (B.pay xs).dispatched a.next := by
    intro B xs
    induction xs generalizing B with
    | nil => rfl
    | cons x xs ih => exact (congrArg (Book.pay · xs) (B.dispatched_charge a.next x)).trans (ih (B.charge x))
  rw [hpay]
  rfl

theorem requeue_book (h : updateProcessStateRr k t (some .readyqueue) = .ok k') :
    book k' = (book k).charge (t, .systemTicks) := by
  have hput : ∀ k₁, book k₁ = book k → (do
      let h ← listAddTail k₁.links (.task t) .readyqueue
      pure (setState (updateStats (k₁.setLinks h) t .systemTicks) t .ST_READY) : Except Fault Kernel) = .ok k' →
      book k' = (book k).charge (t, .systemTicks) := by
    intro k₁ hk₁ h
    obtain ⟨l, -, h⟩ := bind_ok.1 h
    cases h
    have hstate : ∀ k : Kernel, book (setState k t .ST_READY) = book k := fun k => book_setTask rfl
    rw [hstate, book_updateStats, ← hk₁]
    rfl
  simp only [updateProcessStateRr] at h
  split at h
  · obtain ⟨l, -, h⟩ := bind_ok.1 h
    exact hput (k.setLinks l) rfl h
  · exact hput k rfl h

theorem forceTaskSwitch_book (hW : WF k a) (hc : a.current ≠ a.idle) (h : forceTaskSwitch k b r = .ok (o, k')) :
    ∃ sw, o.switch = some sw ∧ book k' =
      ((book k).pay ((a.current, .systemTicks) :: switchCharges (marks k) a.current sw.incoming r)).dispatched
        sw.incoming := by
  obtain ⟨k₁, h1, hS⟩ := requeue_ok hW hc
  rw [forceTaskSwitch, h1] at h
  obtain ⟨h2, h3⟩ := schedNextRr_book hS h
  have hb : book k₁ = (book k).charge (a.current, .systemTicks) := by
    rw [← hW.current]
    exact requeue_book h1
  have hm : (marks k₁).resume = (marks k).resume := by
    rw [requeue_marks h1]
    rfl
  refine ⟨_, h2, ?_⟩
  rw [h3, hb]
  simp only [switchCharges, Marks.suspend, hm]
  rfl

/-! ### Steps -/

def Event.isInterrupt : Event → Bool
  | .clock _ | .keyboard _ => true
  | _ => false

/-- What is charged on the way into the kernel. -/
def Event.entryCharges (e : Event) (s : Slot) : List (Slot × Counter) :=
  if e.isInterrupt = true then [(s, .userTicks)] else []

/-- **The charges of a step**, in their order. -/
def AState.charges (a : AState) (m : Marks) (e : Event) : Option Switch → List (Slot × Counter)
  | none => e.entryCharges a.current ++ if e.isInterrupt = true then [(a.current, .systemTicks)] else []
  | some sw => e.entryCharges a.current ++ (if e.requeues = true then [(a.current, .systemTicks)] else []) ++
    switchCharges m a.current sw.incoming e.resume

/-- The new task of a step. -/
def AState.bookBorn (a : AState) (B : Book) : Event → Book
  | .sysenter .fork _ _ =>
    match a.queue .freequeue with
    | .task c :: _ => if numPagData ≤ freeFrames a.phys then (B.copy a.current c).fresh c else B.copy a.current c
    | _ => B
  | .sysenter (.createthread _ _ _) _ _ =>
    match a.queue .freequeue with
    | .task c :: _ => B.copy a.current c
    | _ => B
  | _ => B

/-- The statistics after a step. -/
def AState.bookAfter (a : AState) (m : Marks) (B : Book) (e : Event) : Option Switch → Book
  | none => a.bookBorn (B.pay (a.charges m e none)) e
  | some sw => (B.pay (a.charges m e (some sw))).dispatched sw.incoming

theorem copyTaskUnion_book : book (copyTaskUnion k s c) = (book k).copy s c := by
  refine Book.ext (funext fun t => ?_) rfl rfl
  by_cases h : t = c <;> simp [book, copyTaskUnion, Book.copy, h]

theorem forkTaken_book {l : Heap Node} : book (forkTaken k c l) = (book k).copy k.current c := by
  have hdir : ∀ k : Kernel, book (allocateDIR k c) = book k := fun k => book_setTask rfl
  exact (hdir _).trans copyTaskUnion_book

theorem forkChild_book : book (forkChild k c b) = (book k).fresh c := by
  have hstate : ∀ k : Kernel, book (setState k c .ST_READY) = book k := fun k => book_setTask rfl
  have hpid : ∀ (k : Kernel) (p : Word), book (k.setTask c { k.task c with PID := p, state := .ST_READY }) = book k :=
    fun k p => book_setTask rfl
  have hesp : ∀ k : Kernel, book (k.setTask c { k.task c with
      registerEsp := some (c, b - 1), resume := .retFromFork }) = book k := fun k => book_setTask rfl
  simp only [forkChild]
  rw [hstate, book_initStats, hesp, hpid]
  rfl

theorem sysFork_book (hW : WF k a) (h : sysFork k b = .ok (v, k')) :
    book k' = a.bookBorn (book k) (.sysenter .fork u b) := by
  simp only [AState.bookBorn, ← hW.current]
  cases sysFork_forks hW h with
  | none hq hk' => rw [hq, hk']
  | @fail c rest l l' m hq hfree hk' =>
    rw [hq, hk']
    simp only [if_neg (Nat.not_le.2 hfree)]
    exact forkTaken_book
  | @ok c rest l l' m d hq hfree hk' =>
    rw [hq, hk']
    simp only [if_pos hfree]
    show book (forkChild { (forkTaken k c l).setMm m with cr3 := d } c b) = _
    rw [forkChild_book, ← forkTaken_book (l := l)]
    rfl

theorem sysCreatethread_book (hW : WF k a) {f g p : Word} (h : sysCreatethread k f g p = .ok (v, k')) :
    book k' = a.bookBorn (book k) (.sysenter (.createthread f g p) u b) := by
  simp only [AState.bookBorn, ← hW.current]
  cases sysCreatethread_threads hW h with
  | none hq hk' => rw [hq, hk']
  | @ok c rest l l' m w sp hq hk' =>
    simp only [hq]
    rw [hk', ← copyTaskUnion_book]
    exact book_setTask rfl

theorem sysGetStats_book {pid st : Word} (h : sysGetStats k pid st = .ok (v, k')) : book k' = book k := by
  rcases sysGetStats_stores h with rfl | ⟨s, m, rfl⟩
  · rfl
  · have hstats : Stats.times { (k.task s).pStats with remainingTicks := k.remainingQuantum } =
        (k.task s).pStats.times := Times.ext (funext fun w => by cases w <;> rfl) rfl rfl
    exact book_setTask hstats

theorem destroyLoop_book (f : ℕ) {k : Kernel} (h : destroyLoop n f k = .ok k') : book k' = book k :=
  destroyLoop_keeps (fun k t _ => (book_setTask rfl : book (k.setTask t { k.task t with destroyed := true }) = book k))
    f h

theorem sysSemDestroy_book (h : sysSemDestroy k i = .ok (v, k')) : book k' = book k := by
  unfold sysSemDestroy at h
  split at h
  · cases h
    rfl
  · obtain ⟨k₁, h1, h⟩ := bind_ok.1 h
    cases h
    have hb : ∀ m x, book (k₁.setSem m x) = book k₁ := fun m x => rfl
    exact (hb _ _).trans (destroyLoop_book numNodes h1)

/-- A call that comes back at once. -/
theorem bookAfter_none (he : e.isInterrupt = false) : a.bookAfter m B e none = a.bookBorn B e := by
  simp [AState.bookAfter, AState.charges, Event.entryCharges, he, Book.pay]

/-- A call that ends in `sched_next_rr`. -/
theorem bookAfter_sched (he : e.isInterrupt = false) (hr : e.requeues = false) : a.bookAfter m B e (some sw) =
    (B.pay (switchCharges m a.current sw.incoming e.resume)).dispatched sw.incoming := by
  simp [AState.bookAfter, AState.charges, Event.entryCharges, he, hr]

/-- What a step that starts with the marks `m` and the statistics `B` does to these. -/
structure BookedBy (a : AState) (m : Marks) (B : Book) (e : Event) (o : Out) (k' : Kernel) : Prop where
  after : book k' = a.bookAfter m B e o.switch

theorem BookedBy.keep (he : e.isInterrupt = false) (h : book k' = a.bookBorn B e) :
    BookedBy a m B e { ret := some v } k' := ⟨h.trans (bookAfter_none he).symm⟩

theorem BookedBy.map {x : Except Fault (Word × Kernel)} (he : e.isInterrupt = false)
    (h : x.map returning = .ok (o, k')) (hx : ∀ v, x = .ok (v, k') → book k' = a.bookBorn B e) :
    BookedBy a m B e o k' := by
  obtain ⟨v, hv, rfl⟩ := returning_ok.1 h
  exact .keep he (hx v hv)

theorem BookedBy.force (hW : WF k a) (hc : a.current ≠ a.idle) (he : e.isInterrupt = false) (hr : e.requeues = true)
    (h : forceTaskSwitch k b e.resume = .ok (o, k')) : BookedBy a (marks k) (book k) e o k' := by
  obtain ⟨sw, h1, h2⟩ := forceTaskSwitch_book hW hc h
  constructor
  rw [h1, h2]
  simp [AState.bookAfter, AState.charges, Event.entryCharges, he, hr]

/-- A call that leaves marks and statistics alone and ends in `sched_next_rr`. -/
theorem BookedBy.sched (hS : Shape k₁ a' fun s => s = a'.idle) (hm : marks k₁ = marks k) (hb : book k₁ = book k)
    (hc : a'.current = a.current) (he : e.isInterrupt = false) (hr : e.requeues = false)
    (h : schedNextRr k₁ b e.resume = .ok (o, k')) : BookedBy a (marks k) (book k) e o k' := by
  obtain ⟨h1, h2⟩ := schedNextRr_book hS h
  rw [hm, hb, hc] at h2
  constructor
  rw [h1, bookAfter_sched he hr]
  exact h2

theorem sysTerminatethread_booked (hW : WF k a) (hc : a.current ≠ a.idle) (h : sysTerminatethread k b = .ok (o, k')) :
    BookedBy a (marks k) (book k) (.sysenter .terminatethread u b) o k' := by
  unfold sysTerminatethread at h
  rcases deallocK_cases hW ((k.task k.current).userEsp.toNat / pageSize) with
    ⟨-, v, hv, hd⟩ | ⟨-, k₁, hd, hW₁, -⟩
  · simp only [hd, if_pos hv] at h
    cases h
    exact .keep rfl rfl
  · obtain ⟨h', h1, h2⟩ := hW₁.toShape.pushCurrent hc Heads.free
    simp only [hd, bind, Except.bind] at h
    rw [if_neg (by decide), h1] at h
    have hu := deallocK_untouched hd
    exact .sched (k := k) h2 hu.marks_eq hu.book_eq rfl rfl rfl h

theorem sysSemWait_booked (hW : WF k a) (hc : a.current ≠ a.idle) (h : sysSemWait k i b = .ok (o, k')) :
    BookedBy a (marks k) (book k) (.sysenter (.semWait i) u b) o k' := by
  cases hv : validSem a.sem i false with
  | none =>
    simp only [sysSemWait, hW.sem, hv] at h
    cases h
    exact .keep rfl rfl
  | some n =>
    by_cases hneg : ((a.sem n).counter - 1).toInt < 0
    · obtain ⟨h₁, a', hcall, hS, hcur, -⟩ := semWait_block (b := b) (u := u) hW hc hv hneg
      rw [hcall] at h
      exact .sched hS rfl rfl hcur rfl rfl h
    · rw [sysSemWait_eq (hW.sem ▸ hv), hW.sem, if_neg hneg] at h
      cases h
      exact .keep rfl semWaitEnd_book

theorem systemCall_booked (hW : WF k a) (hc : a.current ≠ a.idle) {x : Call} (h : systemCall k b x = .ok (o, k')) :
    BookedBy a (marks k) (book k) (.sysenter x u b) o k' := by
  cases x with
  | exit =>
    obtain ⟨h₁, hcall, hS⟩ := sysExit_eq hW hc b
    rw [systemCall, hcall] at h
    exact .sched hS (marks_setTask rfl rfl rfl rfl) (book_setTask rfl) rfl rfl rfl h
  | fork => exact .map rfl h fun v hv => sysFork_book hW hv
  | write fd buffer nbytes => exact .map rfl h fun v hv => (sysWrite_untouched hv).book_eq
  | gettime => cases h; exact .keep rfl rfl
  | yield => exact .force hW hc rfl rfl h
  | getpid => cases h; exact .keep rfl rfl
  | alloc => cases h; exact .keep rfl (sysAlloc_untouched k).book_eq
  | dealloc address => cases h; exact .keep rfl (deallocK_untouched rfl).book_eq
  | createthread w f p => exact .map rfl h fun v hv => sysCreatethread_book hW hv
  | terminatethread => exact sysTerminatethread_booked hW hc h
  | dumpScreen address => exact .map rfl h fun v hv => (sysDumpScreen_untouched hv).book_eq
  | getKey c => exact .map rfl h fun v hv => (sysGetKey_untouched hv).book_eq
  | semInit i v => cases h; exact .keep rfl (sysSemInit_untouched k i v).book_eq
  | semWait i => exact sysSemWait_booked hW hc h
  | semSignal i => exact .map rfl h fun v hv => (sysSemSignal_untouched hv).book_eq
  | semDestroy i => exact .map rfl h fun v hv => sysSemDestroy_book hv
  | getStats pid st => exact .map rfl h fun v hv => sysGetStats_book hv
  | niSyscall => cases h; exact .keep rfl rfl

theorem clockEntry_book (hW : WF k a) : book (clockEntry k) = (book k).charge (a.current, .userTicks) := by
  rw [← hW.current]
  exact book_updateStats

/-- The clock charges the way in to `user_ticks`, and the way out to `system_ticks`, maybe after
others have had the CPU. -/
theorem clock_booked (hW : WF k a) (h : clockHandler k b = .ok (o, k')) :
    BookedBy a (marks k) (book k) (.clock b) o k' := by
  constructor
  by_cases hd : k.remainingQuantum - 1 = 0 ∧ a.queue .readyqueue ≠ []
  · rw [clockHandler_switch hW hd] at h
    have hc : a.current ≠ a.idle := fun h => hd.2 (hW.alone h)
    have hr : (marks (clockEntry k)).resume = (marks k).resume := by rw [clockEntry_marks]
    obtain ⟨sw, h1, h2⟩ := forceTaskSwitch_book hW.clockEntry hc h
    rw [h1, h2, clockEntry_book hW]
    simp only [switchCharges, Marks.suspend, hr]
    rfl
  · rw [clockHandler_keep hW hd] at h
    cases h
    have hq : ∀ q, book { clockEntry k with remainingQuantum := q } = book (clockEntry k) := fun q => rfl
    rw [systemToUser, book_updateStats, hq, clockEntry_book hW, hW.clockEntry.current]
    rfl

/-- **What a step does to the statistics.** -/
theorem Step.booked (hW : WF k a) (h : Step k e o k') : book k' = a.bookAfter (marks k) (book k) e o.switch := by
  cases e with
  | sysenter c u b =>
    obtain ⟨k₁, w, hk₁, hW₁, hs⟩ := h.called hW
    have hm : marks k₁ = marks k := by
      rw [hk₁]
      exact marks_setTask rfl rfl rfl rfl
    have hb : book k₁ = book k := by
      rw [hk₁]
      exact book_setTask rfl
    rw [← hm, ← hb]
    exact (systemCall_booked hW₁ (h.user hW rfl) hs).after
  | clock b => exact (clock_booked hW h.2).after
  | keyboard c =>
    cases h.2
    have hin : book (userToSystem k) = (book k).charge (k.current, .userTicks) := book_updateStats
    have hb : book (keyboardHandler k c) = (book (userToSystem k)).charge (k.current, .systemTicks) :=
      book_updateStats (k := { userToSystem k with kbd := keyboardRoutine (userToSystem k).kbd c })
    rw [hb, hin, hW.current]
    rfl
  | store addr x =>
    have hs := h.2
    simp only [step] at hs
    cases hu : k.mm.userStore k.cr3 addr x with
    | error e => rw [hu] at hs; cases hs
    | ok m =>
      rw [hu] at hs
      cases hs
      rfl

/-! ### Boot -/

/-- `init_idle` and `init_task1` start the statistics of the two tasks there are. -/
theorem boot_times {M : Machine} (h : boot M = .ok k) (hs : (bootState M).Live s) :
    (k.task s).pStats.times = ⟨fun _ => 0, M.tsc (if s = 0 then 0 else 2), 0⟩ := by
  have h01 : ∀ s : Slot, Node.task s ∉ bootFree → s = 0 ∨ s = 1 := by decide
  obtain ⟨l, l', rfl⟩ := boot_eq h
  rcases h01 s hs with rfl | rfl
  · refine Times.ext (funext fun w => ?_) rfl rfl
    cases w <;> rfl
  · refine Times.ext (funext fun w => ?_) rfl rfl
    cases w <;> rfl

/-! ### Conservation -/

/-- What the counters of a task hold together. -/
def Times.total (T : Times) : Word :=
  T.spent .userTicks + T.spent .systemTicks + T.spent .blockedTicks + T.spent .readyTicks

/-- **A charge moves the same interval out of the time and into a counter.** -/
theorem total_charge (T : Times) (w : Counter) (now : Word) :
    (T.charge w now).total - (T.charge w now).elapsed = T.total - T.elapsed := by
  cases w <;> simp only [Times.total, Times.charge, Function.update_self, ne_eq, reduceCtorEq, not_false_eq_true,
    Function.update_of_ne] <;> grind

/-- What the statistics of a task count from: the reading `init_stats` took for it, and the times
it has got the CPU since. -/
structure Account where
  base : Word
  dispatches : ℕ

/-- The account of the task that a step creates: a thread goes on with that of its creator. -/
def newAccount (t : Transition Kernel Event Out) (A : Slot → Account) : Account :=
  match t.event with
  | .sysenter (.createthread _ _ _) _ _ => A t.before.current
  | _ => ⟨t.before.tsc t.before.tscReads, 0⟩

def accounts (M : Machine) : KTrace → Slot → Account
  | [], s => ⟨M.tsc (if s = 0 then 0 else 2), 0⟩
  | t :: tr, s =>
    let A := if ¬ Live t.before s ∧ Live t.after s then newAccount t (accounts M tr) else accounts M tr s
    match t.out.switch with
    | some sw => if s = sw.incoming then { A with dispatches := A.dispatches + 1 } else A
    | none => A

variable {T : Times} {A : Account} {P : Account → Times → Prop} {M : Machine} {tr : KTrace}

/-- No code charges `blocked_ticks`. -/
theorem charges_blocked {sw : Option Switch} {x : Slot × Counter} (hx : x ∈ a.charges m e sw) :
    x.2 ≠ .blockedTicks := by
  have hentry : x ∈ e.entryCharges a.current → x.2 ≠ .blockedTicks := by
    intro h
    unfold Event.entryCharges at h
    split at h <;> simp_all
  have hexit : ∀ t r, x ∈ exitCharges t r → x.2 ≠ .blockedTicks := by
    intro t r h
    unfold exitCharges at h
    split at h <;> simp_all
  cases sw with
  | none =>
    rcases List.mem_append.1 hx with h | h
    · exact hentry h
    · split at h <;> simp_all
  | some sw =>
    simp only [AState.charges, switchCharges, List.mem_append] at hx
    rcases hx with (h | h) | h | h
    · exact hentry h
    · split at h <;> simp_all
    · simp only [List.mem_cons, List.not_mem_nil, or_false] at h
      rcases h with rfl | rfl <;> simp
    · exact hexit _ _ h

theorem pay_kept (hc : ∀ {A T} w now, w ≠ .blockedTicks → P A T → P A (T.charge w now))
    {xs : List (Slot × Counter)} (hxs : ∀ x ∈ xs, x.2 ≠ .blockedTicks) (h : P A (B.times s)) :
    P A ((B.pay xs).times s) := by
  induction xs generalizing B with
  | nil => exact h
  | cons x xs ih =>
    apply ih fun y hy => hxs y (List.mem_cons_of_mem _ hy)
    by_cases hs : s = x.1
    · subst hs
      rw [Book.charge_times, Function.update_self]
      exact hc _ _ (hxs x List.mem_cons_self) h
    · rw [Book.charge_times, Function.update_of_ne hs]
      exact h

theorem dispatched_kept (hd : ∀ {A T}, P A T →
      P { A with dispatches := A.dispatches + 1 } { T with trans := T.trans + 1 }) (h : P A (B.times s)) (t : Slot) :
    P (if s = t then { A with dispatches := A.dispatches + 1 } else A) ((B.dispatched t).times s) := by
  by_cases hs : s = t
  · subst hs
    rw [if_pos rfl, Book.dispatched_times, Function.update_self]
    exact hd h
  · rw [if_neg hs, Book.dispatched_times, Function.update_of_ne hs]
    exact h

/-- The task that a step creates. -/
inductive Born (a : AState) (c : Slot) : Event → Prop
  | fork {rest : List Node} {u : Word} {b : ℕ} : a.queue .freequeue = .task c :: rest → numPagData ≤ freeFrames a.phys →
    Born a c (.sysenter .fork u b)
  | thread {rest : List Node} {u w f p : Word} {b : ℕ} : a.queue .freequeue = .task c :: rest →
    Born a c (.sysenter (.createthread w f p) u b)

theorem AStep.born {sw : Option Switch} (hW : WF k a) (h : AStep a e sw a') (hl : ¬ a.Live s) (hl' : a'.Live s) :
    Born a s e := by
  rcases h.memory with ⟨-, h⟩ | h
  · exact absurd (h.live.1 hl') hl
  cases h with
  | forkOk hq hf =>
    have hc := ((forkOk_live hW.free_nodup hq).1 hl').resolve_left hl
    exact .fork (hc ▸ hq) hf
  | @thread u b w f p c rest a₁ hq hA =>
    have hqu := hA.queue.1
    rw [spawn_live (by rw [hqu]; exact hW.free_nodup) (hqu ▸ hq), hA.live] at hl'
    exact .thread (hl'.resolve_left hl ▸ hq)
  | forkFail hq => exact absurd ((forkFail_live hq).1 hl') hl
  | alloc hA => exact absurd (hA.live.1 hl') hl
  | exit => exact absurd (exit_live.1 hl').1 hl
  | terminate => exact absurd (leave_live.1 hl').1 hl
  | _ => exact absurd hl' hl

/-- No task there was has its struct overwritten. -/
theorem bookBorn_live (hl : a.Live s) : (a.bookBorn B e).times s = B.times s := by
  have hne : ∀ {c rest}, a.queue .freequeue = .task c :: rest → s ≠ c := by
    rintro c rest hq rfl
    exact not_live hq hl
  unfold AState.bookBorn
  split
  · split
    · rename_i hq
      split <;> simp [hne hq]
    · rfl
  · split
    · rename_i hq
      simp [hne hq]
    · rfl
  · rfl

/-- **The rule for the statistics along a run**, of the live tasks and their accounts: it is enough to look
at their beginning, at a charge and at a dispatch. -/
theorem run_times (h0 : ∀ b, P ⟨b, 0⟩ ⟨fun _ => 0, b, 0⟩)
    (hc : ∀ {A T} w now, w ≠ .blockedTicks → P A T → P A (T.charge w now))
    (hd : ∀ {A T}, P A T → P { A with dispatches := A.dispatches + 1 } { T with trans := T.trans + 1 })
    (hr : KRun M tr k) : ∃ a, WF k a ∧ ∀ s, a.Live s → P (accounts M tr s) (k.task s).pStats.times := by
  refine hr.induct (P := fun tr k => ∃ a, WF k a ∧
    ∀ s, a.Live s → P (accounts M tr s) (k.task s).pStats.times) (fun k hk => ?_) ?_
  · obtain ⟨k', h, hW⟩ := boot_ok M
    cases h.symm.trans hk
    refine ⟨_, hW, fun s hs => ?_⟩
    rw [boot_times hk hs]
    exact h0 _
  · intro tr k e o k' _ ih hst
    obtain ⟨a, hW, hA⟩ := ih
    obtain ⟨a', h, hW'⟩ := hst.refines hW
    have hb := hst.booked hW
    have htimes : ∀ s, (k'.task s).pStats.times = (a.bookAfter (marks k) (book k) e o.switch).times s := fun s => by
      rw [← hb]
      rfl
    refine ⟨a', hW', fun s hs => ?_⟩
    rw [htimes]
    cases hsw : o.switch with
    | some sw =>
      rw [hsw] at h
      have hl := (h.switched hW).kept s hs
      -- who was live before is no new account
      have hold : ¬ (¬ Live k s ∧ Live k' s) := fun hh => hh.1 (hW.live_iff.2 hl)
      simp only [accounts, hsw, if_neg hold]
      exact dispatched_kept hd (pay_kept hc (fun x => charges_blocked) (hA s hl)) _
    | none =>
      rw [hsw] at h
      simp only [accounts, hsw]
      by_cases hl : a.Live s
      · rw [if_neg fun hh => hh.1 (hW.live_iff.2 hl), AState.bookAfter, bookBorn_live hl]
        exact pay_kept hc (fun x => charges_blocked) (hA s hl)
      · rw [if_pos ⟨mt hW.live_iff.1 hl, hW'.live_iff.2 hs⟩]
        -- a new one starts with a fork, from zero, or with a thread, from its creator's
        cases h.born hW hl hs with
        | fork hq hf =>
          rw [bookAfter_none rfl]
          simp only [AState.bookBorn, hq, if_pos hf, Book.fresh_times, Function.update_self]
          exact h0 _
        | thread hq =>
          rw [bookAfter_none rfl]
          simp only [AState.bookBorn, hq, newAccount, Book.copy_times, Function.update_self]
          rw [hW.current]
          exact hA _ hW.current_live

/-- The statistics `T` agree with the account `A`. -/
structure Times.Settles (T : Times) (A : Account) : Prop where
  total : T.total = T.elapsed - A.base
  trans : T.trans = BitVec.ofNat 32 A.dispatches

theorem Times.Settles.charge (h : T.Settles A) (w : Counter) (now : Word) : (T.charge w now).Settles A where
  total := by
    have := total_charge T w now
    have := h.total
    grind
  trans := h.trans

theorem Times.Settles.dispatch (h : T.Settles A) :
    Times.Settles { T with trans := T.trans + 1 } { A with dispatches := A.dispatches + 1 } where
  total := h.total
  trans := by
    dsimp only
    rw [h.trans, BitVec.ofNat_add]
    rfl

/-- **Conservation of the ticks.** Whatever the time stamp counter reads, the four counters of a live
task add up to the time since its statistics began, and `total_trans` is the number of its dispatches. -/
theorem ticks_conserved (hr : KRun M tr k) (hs : Live k s) :
    (k.task s).pStats.userTicks + (k.task s).pStats.systemTicks + (k.task s).pStats.blockedTicks +
        (k.task s).pStats.readyTicks = (k.task s).pStats.elapsedTotalTicks - (accounts M tr s).base ∧
      (k.task s).pStats.totalTrans = BitVec.ofNat 32 (accounts M tr s).dispatches := by
  obtain ⟨a, hW, hA⟩ := run_times (P := fun A T => T.Settles A) (fun b => ⟨by simp [Times.total], rfl⟩)
    (fun w now _ h => h.charge w now) (fun h => h.dispatch) hr
  obtain ⟨h1, h2⟩ := hA s (hW.live_iff.1 hs)
  exact ⟨h1, h2⟩

/-- `blocked_ticks` is never charged. -/
theorem blocked_never (hr : KRun M tr k) (hs : Live k s) : (k.task s).pStats.blockedTicks = 0 := by
  obtain ⟨a, hW, hA⟩ := run_times (P := fun _ T => T.spent .blockedTicks = 0) (fun _ => rfl)
    (fun w now hw h => (Function.update_of_ne hw.symm _ _).trans h) (fun h => h) hr
  exact hA s (hW.live_iff.1 hs)

/-- The first task ends, and idle gets the CPU. -/
theorem ticks_conserved_exit : ∃ t k, KRun aMachine [t] k ∧ t.event = .sysenter .exit someStack 1000 ∧ Live k 0 ∧
    (k.task 0).pStats.userTicks + (k.task 0).pStats.systemTicks + (k.task 0).pStats.blockedTicks +
        (k.task 0).pStats.readyTicks = (k.task 0).pStats.elapsedTotalTicks - (accounts aMachine [t] 0).base ∧
      (k.task 0).pStats.totalTrans = BitVec.ofNat 32 (accounts aMachine [t] 0).dispatches := by
  obtain ⟨k₀, o, k, hr₀, -, hs, hW⟩ := boot_exit_step aMachine 1000
  have hl : Live k 0 := hW.live_iff.2 hW.idle_live
  have hr := hr₀.step hs
  exact ⟨_, k, hr, rfl, hl, ticks_conserved hr hl⟩

end Zeos
