import Zeos.Proof.Progress

/-!
# What the task structs say of a task's way

`marks k`: of each task struct the fields that no queue shows (`state`, `destroyed`,
`total_quantum`, and where the task goes on), and `remaining_quantum`.

* `schedNextRr_marks`: `sched_next_rr` on them.
* `Step.marked`: **what a step does to them** (`AState.mark`), and what a task that gets
  the CPU back comes out of the kernel with.
* `clock_marked`: a tick takes the CPU away when the quantum is up and somebody waits for it.
-/

namespace Zeos

open LinkHeap ForLoop

@[ext] structure Marks where
  state : Slot → StateT
  destroyed : Slot → Bool
  resume : Slot → Resume
  quantum : Slot → Word
  /-- `remaining_quantum`. -/
  left : Word

def marks (k : Kernel) : Marks where
  state s := (k.task s).state
  destroyed s := (k.task s).destroyed
  resume s := (k.task s).resume
  quantum s := (k.task s).totalQuantum
  left := k.remainingQuantum

namespace Marks

variable (m : Marks)

def setState (s : Slot) (st : StateT) : Marks := { m with state := Function.update m.state s st }

/-- `s` has read its `destroyed` flag. -/
def clear (s : Slot) : Marks := { m with destroyed := Function.update m.destroyed s false }

/-- The tasks on `xs` get the flag. -/
def destroy (xs : List Node) : Marks :=
  { m with destroyed := fun s => decide (.task s ∈ xs) || m.destroyed s }

/-- The struct of `s` copied over the one of `c`. -/
def copy (s c : Slot) : Marks :=
  { m with
    state := Function.update m.state c (m.state s)
    destroyed := Function.update m.destroyed c (m.destroyed s)
    resume := Function.update m.resume c (m.resume s)
    quantum := Function.update m.quantum c (m.quantum s) }

/-- One tick that does not take the CPU away from `s`. -/
def tick (s : Slot) : Marks := { m with left := if m.left - 1 = 0 then m.quantum s else m.left - 1 }

/-- `s` will go on at `r`. -/
def suspend (s : Slot) (r : Resume) : Marks := { m with resume := Function.update m.resume s r }

/-- The new task `c`, a copy of `s`, will start at `r`. -/
def child (s c : Slot) (r : Resume) : Marks := ((m.copy s c).setState c .ST_READY).suspend c r

/-- `t` leaves the kernel. -/
def leave (t : Slot) : Marks :=
  { m with
    destroyed := if m.resume t = .sysSemWait then Function.update m.destroyed t false else m.destroyed }

/-- What `t` leaves the kernel with. -/
def result (t : Slot) : Option Word :=
  match m.resume t with
  | .cpuIdle | .thread | .sysExit | .clockRoutine => none
  | .retFromFork | .sysYield | .sysTerminatethread => some 0
  | .sysSemWait => some (if m.destroyed t = true then -1 else 0)

/-- The CPU goes from `s`, which will go on at `r`, to `t`, with a fresh quantum. -/
def dispatch (s t : Slot) (r : Resume) : Marks :=
  ({ m.setState t .ST_RUN with left := m.quantum t }.suspend s r).leave t

@[simp] theorem setState_state (s : Slot) (st : StateT) :
    (m.setState s st).state = Function.update m.state s st := rfl

@[simp] theorem dispatch_state (s t : Slot) (r : Resume) :
    (m.dispatch s t r).state = Function.update m.state t .ST_RUN := rfl

@[simp] theorem dispatch_left (s t : Slot) (r : Resume) : (m.dispatch s t r).left = m.quantum t := rfl

@[simp] theorem dispatch_quantum (s t : Slot) (r : Resume) : (m.dispatch s t r).quantum = m.quantum := rfl

@[simp] theorem dispatch_resume (s t : Slot) (r : Resume) :
    (m.dispatch s t r).resume = Function.update m.resume s r := rfl

end Marks

/-- Where the task that an event takes the CPU from will go on. -/
def Event.resume : Event → Resume
  | .clock _ => .clockRoutine
  | .sysenter .yield _ _ => .sysYield
  | .sysenter .exit _ _ => .sysExit
  | .sysenter .terminatethread _ _ => .sysTerminatethread
  | _ => .sysSemWait

/-- The event puts the current task back on `readyqueue`, through `update_process_state_rr`. -/
def Event.requeues : Event → Bool
  | .clock _ | .sysenter .yield _ _ => true
  | _ => false

/-- What a step that keeps the CPU does to the marks. -/
def AState.markKeep (a : AState) (m : Marks) : Event → Marks
  | .clock _ => m.tick a.current
  | .sysenter .fork _ _ =>
    match a.queue .freequeue with
    | .task c :: _ =>
      if numPagData ≤ freeFrames a.phys then m.child a.current c .retFromFork else m.copy a.current c
    | _ => m
  | .sysenter (.createthread _ _ _) _ _ =>
    match a.queue .freequeue with
    | .task c :: _ => m.child a.current c .thread
    | _ => m
  | .sysenter (.semWait i) _ _ => if validSem a.sem i false = none then m else m.clear a.current
  | .sysenter (.semDestroy i) _ _ =>
    match validSem a.sem i false with
    | some n => m.destroy (a.queue (.blocked n))
    | none => m
  | _ => m

/-- What a step does to the marks. -/
def AState.mark (a : AState) (m : Marks) (e : Event) : Option Switch → Marks
  | none => a.markKeep m e
  | some sw =>
    (if e.requeues = true then m.setState a.current .ST_READY else m).dispatch a.current sw.incoming e.resume

variable {k k' k₁ k₂ : Kernel} {a a' : AState} {e : Event} {o : Out} {s t c : Slot} {n : Sem} {u i v : Word} {b : ℕ}
  {r : Resume} {x : TaskUnion} {rest xs : List Node} {sw : Switch}

/-! ### Stores into task structs -/

/-- A store that changes none of the fields in question. -/
theorem marks_setTask (h1 : x.state = (k.task s).state) (h2 : x.destroyed = (k.task s).destroyed)
    (h3 : x.resume = (k.task s).resume) (h4 : x.totalQuantum = (k.task s).totalQuantum) :
    marks (k.setTask s x) = marks k := by
  apply Marks.ext <;> first | rfl | funext t
  all_goals by_cases h : t = s <;> simp [marks, Kernel.setTask, h, h1, h2, h3, h4]

theorem marks_setStats (st : Stats) : marks (setStats k t st) = marks k := marks_setTask rfl rfl rfl rfl

theorem marks_updateStats (v : Counter) : marks (updateStats k t v) = marks k := by
  unfold updateStats
  exact (marks_setStats _).trans rfl

theorem marks_setState (st : StateT) : marks (setState k t st) = (marks k).setState t st := by
  apply Marks.ext <;> first | rfl | funext u
  all_goals by_cases h : u = t <;> simp [marks, setState, Marks.setState, Kernel.setTask, h]

theorem marks_suspend : marks (k.setTask s { k.task s with resume := r }) = (marks k).suspend s r := by
  apply Marks.ext <;> first | rfl | funext u
  all_goals by_cases h : u = s <;> simp [marks, Marks.suspend, Kernel.setTask, h]

/-! ### The scheduler -/

theorem prepareTask_marks : marks (prepareTask k t) = { (marks k).setState t .ST_RUN with left := (marks k).quantum t } := by
  have h : marks { setState k t .ST_RUN with remainingQuantum := getQuantum (setState k t .ST_RUN) t } =
      { (marks k).setState t .ST_RUN with left := (marks k).quantum t } := by
    have hq : getQuantum (setState k t .ST_RUN) t = (marks k).quantum t := by
      simp [getQuantum, setState, Kernel.setTask, marks]
    rw [← marks_setState, ← hq]
    rfl
  simp only [prepareTask, marks_setStats, marks_updateStats]
  exact h

theorem semWaitEnd_marks : marks (semWaitEnd k).2 = (marks k).clear k.current ∧
    (semWaitEnd k).1 = if (marks k).destroyed k.current = true then -1 else 0 := by
  unfold semWaitEnd
  by_cases hd : (k.task k.current).destroyed = true
  · simp only [hd, if_true]
    refine ⟨?_, by rw [if_pos (show (marks k).destroyed k.current = true from hd)]⟩
    apply Marks.ext <;> first | rfl | funext u
    all_goals by_cases h : u = k.current <;> simp [marks, Marks.clear, Kernel.setTask, h]
  · simp only [hd]
    refine ⟨?_, by rw [if_neg (show ¬ (marks k).destroyed k.current = true from hd)]; rfl⟩
    apply Marks.ext <;> first | rfl | funext u
    by_cases h : u = k.current
    · simpa [marks, Marks.clear, h] using hd
    · simp [marks, Marks.clear, h]

theorem resumeTask_marks : marks (resumeTask k).2 = (marks k).leave k.current ∧
    (resumeTask k).1 = (marks k).result k.current := by
  have hr : (marks k).resume k.current = (k.task k.current).resume := rfl
  unfold resumeTask Marks.leave Marks.result
  rw [hr]
  cases (k.task k.current).resume with
  | sysSemWait => exact ⟨semWaitEnd_marks.1, congrArg some semWaitEnd_marks.2⟩
  | clockRoutine => exact ⟨marks_updateStats _, rfl⟩
  | _ => exact ⟨rfl, rfl⟩

/-- `s` leaves the CPU to `t`, which has still to leave the kernel. -/
def handOver (k : Kernel) (s t : Slot) (b : ℕ) (r : Resume) : Kernel :=
  let k := prepareTask k t
  let k := k.setTask s { k.task s with resume := r }
  { k.setTask s { k.task s with registerEsp := some (s, b) } with cr3 := getDIR k t, current := t }

/-- **`sched_next_rr`.** -/
theorem schedNextRr_handOver (hS : Shape k a fun s => s = a.idle) (h : schedNextRr k b r = .ok (o, k')) :
    o.switch = some (a.switch b) ∧ ∃ l, (o.ret, k') = resumeTask (handOver (k.setLinks l) a.current a.next b r) := by
  rcases nextTask_cases hS with ⟨n, xs, -, hw⟩ | ⟨l, hn, -, -, hlive⟩
  · rw [schedNextRr, hw] at h
    cases h
  set k₂ := prepareTask (k.setLinks l) a.next with hk₂
  have hc : k₂.current = a.current := (prepareTask_same _ _).current.trans hS.current
  set k₃ := k₂.setTask a.current { k₂.task a.current with resume := r } with hk₃
  have hcall : schedNextRr k b r = (innerTaskSwitch k₃ b a.next).bind fun x => comeBack x.1 x.2 := by
    rw [hk₃, ← hc]
    simp only [schedNextRr, hn, bind, Except.bind, ← hk₂]
  have hsees : Sees k₃ a := (hS.toSees.setLinks l).same ((prepareTask_same _ _).trans (.setTask rfl rfl rfl))
  rw [hcall] at h
  rcases innerTaskSwitch_cases hsees a.next b with ⟨-, hi⟩ | ⟨sp, he, hi⟩
  · rw [hi] at h
    cases h
  have hsp : sp.1 = a.next := hS.own _ _ hlive he
  rw [hi] at h
  change comeBack (a.switch b) _ = _ at h
  by_cases hst : (a.switch b).Stale
  · rw [comeBack, if_pos hst] at h
    cases h
  rw [comeBack_ok hst] at h
  cases h
  refine ⟨rfl, l, ?_⟩
  unfold handOver
  rw [hsp]

theorem handOver_marks : marks (handOver k s t b r) =
    { (marks k).setState t .ST_RUN with left := (marks k).quantum t }.suspend s r := by
  unfold handOver
  dsimp only
  rw [← prepareTask_marks, ← marks_suspend]
  exact marks_setTask rfl rfl rfl rfl

/-- **`sched_next_rr` on the marks.** -/
theorem schedNextRr_marks (hS : Shape k a fun s => s = a.idle) (h : schedNextRr k b r = .ok (o, k')) :
    o.switch = some (a.switch b) ∧ marks k' = (marks k).dispatch a.current a.next r ∧
      o.ret = ((marks k).suspend a.current r).result a.next := by
  obtain ⟨hsw, l, hk'⟩ := schedNextRr_handOver hS h
  obtain ⟨h1, h2⟩ := resumeTask_marks (k := handOver (k.setLinks l) a.current a.next b r)
  rw [← hk', handOver_marks] at h1 h2
  exact ⟨hsw, h1, h2⟩

theorem requeue_marks (h : updateProcessStateRr k t (some .readyqueue) = .ok k') :
    marks k' = (marks k).setState t .ST_READY := by
  have hput : ∀ k₁, marks k₁ = marks k → (do
      let h ← listAddTail k₁.links (.task t) .readyqueue
      pure (setState (updateStats (k₁.setLinks h) t .systemTicks) t .ST_READY) : Except Fault Kernel) = .ok k' →
      marks k' = (marks k).setState t .ST_READY := by
    intro k₁ hk₁ h
    obtain ⟨h₂, -, h⟩ := bind_ok.1 h
    cases h
    rw [marks_setState, marks_updateStats, ← hk₁]
    rfl
  simp only [updateProcessStateRr] at h
  split at h
  · obtain ⟨h₁, -, h⟩ := bind_ok.1 h
    exact hput (k.setLinks h₁) rfl h
  · exact hput k rfl h

theorem forceTaskSwitch_marks (hW : WF k a) (hc : a.current ≠ a.idle) (h : forceTaskSwitch k b r = .ok (o, k')) :
    ∃ sw, o.switch = some sw ∧
      marks k' = ((marks k).setState a.current .ST_READY).dispatch a.current sw.incoming r ∧
      o.ret = (((marks k).setState a.current .ST_READY).suspend a.current r).result sw.incoming := by
  obtain ⟨k₁, h1, hS⟩ := requeue_ok hW hc
  rw [forceTaskSwitch, h1] at h
  obtain ⟨h2, h3, h4⟩ := schedNextRr_marks hS h
  have hm : marks k₁ = (marks k).setState a.current .ST_READY := by
    rw [← hW.current]
    exact requeue_marks h1
  rw [hm] at h3 h4
  exact ⟨_, h2, h3, h4⟩

/-! ### Calls -/

/-- The step stores into no task struct, and does not read the time. -/
structure Untouched (k k' : Kernel) : Prop where
  task : k'.task = k.task
  left : k'.remainingQuantum = k.remainingQuantum
  tsc : k'.tsc = k.tsc
  reads : k'.tscReads = k.tscReads

theorem Untouched.refl (k : Kernel) : Untouched k k := ⟨rfl, rfl, rfl, rfl⟩

theorem Untouched.marks_eq (h : Untouched k k') : marks k' = marks k := by
  unfold marks
  rw [h.task, h.left]

theorem deallocK_untouched {page : ℕ} (h : deallocK k page = (v, k')) : Untouched k k' := by
  simp only [deallocK] at h
  split at h
  · cases h
    exact .refl k
  split at h
  · cases h
    exact .refl k
  · cases h
    exact ⟨rfl, rfl, rfl, rfl⟩

theorem copyTaskUnion_marks : marks (copyTaskUnion k s c) = (marks k).copy s c := by
  apply Marks.ext <;> first | rfl | funext u
  all_goals by_cases h : u = c <;> simp [marks, copyTaskUnion, Marks.copy, h]

theorem allocateDIR_marks : marks (allocateDIR k c) = marks k := marks_setTask rfl rfl rfl rfl

theorem forkChild_marks : marks (forkChild k c b) = ((marks k).setState c .ST_READY).suspend c .retFromFork := by
  apply Marks.ext <;> first | rfl | funext u
  all_goals
    by_cases h : u = c <;>
      simp [marks, forkChild, setState, initStats, getTicks, setStats, Marks.setState, Marks.suspend,
        Kernel.setTask, h]

/-- The struct of the current task copied over the first free one, `c`, in a fork. -/
def forkTaken (k : Kernel) (c : Slot) (l : Heap Node) : Kernel :=
  allocateDIR (copyTaskUnion (k.setLinks l) k.current c) c

/-- What a fork does to the task structs. -/
inductive Forks (k k' : Kernel) (a : AState) (b : ℕ) : Prop
  | none : a.queue .freequeue = [] → k' = k → Forks k k' a b
  | fail {c rest l l' m} : a.queue .freequeue = .task c :: rest → freeFrames a.phys < numPagData →
    k' = ((forkTaken k c l).setMm m).setLinks l' → Forks k k' a b
  | ok {c rest l l' m d} : a.queue .freequeue = .task c :: rest → numPagData ≤ freeFrames a.phys →
    k' = (forkChild { (forkTaken k c l).setMm m with cr3 := d } c b).setLinks l' → Forks k k' a b

theorem sysFork_forks (hW : WF k a) (h : sysFork k b = .ok (v, k')) : Forks k k' a b := by
  rcases free_cases hW with ⟨hq, hE⟩ | ⟨c, rest, hq, hE⟩
  · rw [sysFork, if_pos hE] at h
    cases h
    exact .none hq rfl
  obtain ⟨l, hT, hQ⟩ := takeFree_ok hW.queues hq
  have hC := (copyTaskUnion_copied hW hQ).allocateDIR
  have hcall : sysFork k b = forkPages (forkTaken k c l) c b := by
    rw [sysFork, hE, hT]
    rfl
  have hPT : getPT (forkTaken k c l) c = c := (hC.tables hW (free_ne hW hq)).1
  rw [hcall] at h
  rcases forkData_cases k.mm c with ⟨fs, m, -, hfree, -, hD⟩ | ⟨fs, m, -, hfree, -, hD⟩
  · rw [forkPages_ok (by rw [hPT]; exact hD)] at h
    obtain ⟨k₃, h3, h⟩ := bind_ok.1 h
    obtain ⟨l', -, h⟩ := bind_ok.1 h
    cases h
    rw [forkImage_eq] at h3
    obtain ⟨m', -, h3⟩ := bind_ok.1 h3
    cases h3
    exact .ok hq (hW.phys ▸ hfree) rfl
  · rw [forkPages_fail (by rw [hPT]; exact hD)] at h
    obtain ⟨l', -, h⟩ := bind_ok.1 h
    cases h
    exact .fail hq (by rw [← hW.phys]; omega) rfl

theorem forkTaken_marks {l : Heap Node} : marks (forkTaken k c l) = (marks k).copy k.current c :=
  allocateDIR_marks.trans copyTaskUnion_marks

theorem sysFork_marks (hW : WF k a) (h : sysFork k b = .ok (v, k')) :
    marks k' = a.markKeep (marks k) (.sysenter .fork u b) := by
  simp only [AState.markKeep, ← hW.current]
  cases sysFork_forks hW h with
  | none hq hk' => rw [hq, hk']
  | @fail c rest l l' m hq hfree hk' =>
    rw [hq, hk']
    simp only [if_neg (Nat.not_le.2 hfree)]
    exact forkTaken_marks
  | @ok c rest l l' m d hq hfree hk' =>
    rw [hq, hk']
    simp only [if_pos hfree]
    show marks (forkChild { (forkTaken k c l).setMm m with cr3 := d } c b) = _
    rw [forkChild_marks, Marks.child, ← forkTaken_marks (l := l)]
    rfl

/-- What `createthread` does to the task structs. -/
inductive Threads (k k' : Kernel) (a : AState) : Prop
  | none : a.queue .freequeue = [] → k' = k → Threads k k' a
  | ok {c rest l l' m w sp} : a.queue .freequeue = .task c :: rest →
    k' = (threadTask ((copyTaskUnion (k.setLinks l) k.current c).setMm m) c w sp).setLinks l' → Threads k k' a

theorem sysCreatethread_threads (hW : WF k a) {w f p : Word} (h : sysCreatethread k w f p = .ok (v, k')) :
    Threads k k' a := by
  rcases free_cases hW with ⟨hq, hE⟩ | ⟨c, rest, hq, hE⟩
  · rw [sysCreatethread, if_pos hE] at h
    cases h
    exact .none hq rfl
  obtain ⟨l, hT, -⟩ := takeFree_ok hW.queues hq
  set k₂ := copyTaskUnion (k.setLinks l) k.current c
  obtain ⟨stack, m, hA, -⟩ := allocK_cases k₂
  have hcall : sysCreatethread k w f p = (pushArgs (allocK k₂).2.mm (allocK k₂).2.cr3 (allocK k₂).1 f p).bind fun m =>
      let k₄ := threadTask ((allocK k₂).2.setMm m) c w (wordAddr (allocK k₂).1 1021)
      (listAddTail k₄.links (.task c) .readyqueue).bind fun h => .ok (0, k₄.setLinks h) := by
    rw [sysCreatethread, hE, hT]
    rfl
  rw [hcall, hA] at h
  obtain ⟨m', -, h⟩ := bind_ok.1 h
  obtain ⟨l', -, h⟩ := bind_ok.1 h
  cases h
  exact .ok hq rfl

theorem threadTask_marks {w sp : Word} :
    marks (threadTask k c w sp) = ((marks k).setState c .ST_READY).suspend c .thread := by
  apply Marks.ext <;> first | rfl | funext u
  all_goals
    by_cases h : u = c <;> simp [marks, threadTask, Kernel.setTask, Marks.setState, Marks.suspend, h]

theorem sysCreatethread_marks (hW : WF k a) {w f p : Word} (h : sysCreatethread k w f p = .ok (v, k')) :
    marks k' = a.markKeep (marks k) (.sysenter (.createthread w f p) u b) := by
  simp only [AState.markKeep, ← hW.current]
  cases sysCreatethread_threads hW h with
  | none hq hk' => rw [hq, hk']
  | @ok c rest l l' m w sp hq hk' =>
    simp only [hq]
    rw [hk']
    show marks (threadTask ((copyTaskUnion (k.setLinks l) k.current c).setMm m) c w sp) = _
    rw [threadTask_marks, Marks.child]
    have hm : marks ((copyTaskUnion (k.setLinks l) k.current c).setMm m) = (marks k).copy k.current c :=
      copyTaskUnion_marks
    rw [hm]

/-- A round of the loop of `sys_sem_destroy` marks the task it moves. -/
theorem destroyOne_marks (hF : listFirst k.links (.blocked n) = .ok (.task t)) (h : destroyOne k n = .ok k') :
    marks k' = (marks k).destroy [.task t] := by
  have hone : destroyOne k n = (listDel k.links (.task t)).bind fun h =>
      (listAddTail h (.task t) .readyqueue).bind fun h' =>
        .ok ((k.setTask t { k.task t with destroyed := true }).setLinks h') := by
    simp only [destroyOne, hF]
    rfl
  rw [hone] at h
  obtain ⟨h₁, -, h⟩ := bind_ok.1 h
  obtain ⟨h₂, -, h⟩ := bind_ok.1 h
  cases h
  apply Marks.ext <;> first | rfl | funext u
  all_goals by_cases h : u = t <;> simp [marks, Marks.destroy, Kernel.setTask, Kernel.setLinks, h]

theorem destroyLoop_marks (f : ℕ) {k : Kernel} {a : AState} (hW : WF k a) (hc : a.current ≠ a.idle)
    (hh : Heads a.IsInit a.queue (.blocked n)) (h : destroyLoop n f k = .ok k') :
    marks k' = (marks k).destroy (a.queue (.blocked n)) := by
  refine destroyLoop_induct (Q := fun k xs k' => marks k' = (marks k).destroy xs) (fun k => rfl) ?_ f hW hc hh h
  intro k a t xs k₁ k' hW hc hh hq hone ih
  rw [ih, destroyOne_marks (moveFirst hW hc hh hq).1 hone]
  apply Marks.ext <;> first | rfl | funext u
  by_cases h1 : u = t <;> by_cases h2 : Node.task u ∈ xs <;> simp [Marks.destroy, h1, h2]

/-! ### Steps -/

/-- What a step that starts with the marks `m` does to them, and what the task that gets the
CPU in it comes back with. -/
structure MarkedBy (a : AState) (m : Marks) (e : Event) (o : Out) (k' : Kernel) : Prop where
  after : marks k' = a.mark m e o.switch
  ret : ∀ sw, o.switch = some sw → o.ret = (m.suspend a.current e.resume).result sw.incoming

theorem MarkedBy.keep (h : marks k' = a.markKeep (marks k) e) : MarkedBy a (marks k) e { ret := some v } k' where
  after := h
  ret _ h := by cases h

theorem MarkedBy.map {x : Except Fault (Word × Kernel)} (h : x.map returning = .ok (o, k'))
    (hx : ∀ v, x = .ok (v, k') → marks k' = a.markKeep (marks k) e) : MarkedBy a (marks k) e o k' := by
  obtain ⟨v, hv, rfl⟩ := returning_ok.1 h
  exact .keep (hx v hv)

theorem MarkedBy.force (hW : WF k a) (hc : a.current ≠ a.idle) (he : e.requeues = true)
    (h : forceTaskSwitch k b e.resume = .ok (o, k')) : MarkedBy a (marks k) e o k' := by
  obtain ⟨sw, h1, h2, h3⟩ := forceTaskSwitch_marks hW hc h
  refine ⟨?_, fun sw' h' => ?_⟩
  · rw [h1, h2]
    simp only [AState.mark, he, if_true]
  · rw [h1] at h'
    cases h'
    exact h3

/-- A call that leaves the marks alone and ends in `sched_next_rr`. -/
theorem MarkedBy.sched (hS : Shape k₁ a' fun s => s = a'.idle) (hm : marks k₁ = marks k)
    (hc : a'.current = a.current) (he : e.requeues = false) (h : schedNextRr k₁ b e.resume = .ok (o, k')) :
    MarkedBy a (marks k) e o k' := by
  obtain ⟨h1, h2, h3⟩ := schedNextRr_marks hS h
  rw [hm, hc] at h2 h3
  refine ⟨?_, fun sw' h' => ?_⟩
  · rw [h1, h2]
    simp only [AState.mark, he]
    rfl
  · rw [h1] at h'
    cases h'
    exact h3

theorem sysTerminatethread_marked (hW : WF k a) (hc : a.current ≠ a.idle)
    (h : sysTerminatethread k b = .ok (o, k')) : MarkedBy a (marks k) (.sysenter .terminatethread u b) o k' := by
  unfold sysTerminatethread at h
  rcases deallocK_cases hW ((k.task k.current).userEsp.toNat / pageSize) with
    ⟨-, v, hv, hd⟩ | ⟨-, k₁, hd, hW₁, -⟩
  -- its stack is not a page of the heap: the call only returns
  · simp only [hd, if_pos hv] at h
    cases h
    exact .keep rfl
  · obtain ⟨h', h1, h2⟩ := hW₁.toShape.pushCurrent hc Heads.free
    simp only [hd, bind, Except.bind] at h
    rw [if_neg (by decide), h1] at h
    exact .sched (k := k) h2 (deallocK_untouched hd).marks_eq rfl rfl h

theorem sysSemWait_marked (hW : WF k a) (hc : a.current ≠ a.idle) (h : sysSemWait k i b = .ok (o, k')) :
    MarkedBy a (marks k) (.sysenter (.semWait i) u b) o k' := by
  cases hv : validSem a.sem i false with
  | none =>
    simp only [sysSemWait, hW.sem, hv] at h
    cases h
    refine .keep ?_
    simp only [AState.markKeep, hv, if_true]
  | some n =>
    -- below zero the caller gives the CPU away
    by_cases hneg : ((a.sem n).counter - 1).toInt < 0
    · obtain ⟨h₁, a', hcall, hS, hcur, -⟩ := semWait_block (b := b) (u := u) hW hc hv hneg
      rw [hcall] at h
      exact .sched hS rfl hcur rfl h
    · rw [sysSemWait_eq (hW.sem ▸ hv), hW.sem, if_neg hneg] at h
      cases h
      refine .keep ?_
      rw [semWaitEnd_marks.1, show (countDown k n).current = a.current from hW.current]
      simp only [AState.markKeep, hv]
      rfl

theorem sysSemSignal_untouched (h : sysSemSignal k i = .ok (v, k')) : Untouched k k' := by
  simp only [sysSemSignal] at h
  split at h
  · cases h
    exact .refl k
  split at h
  · obtain ⟨lib, -, h⟩ := bind_ok.1 h
    obtain ⟨h₁, -, h⟩ := bind_ok.1 h
    obtain ⟨h₂, -, h⟩ := bind_ok.1 h
    cases h
    exact ⟨rfl, rfl, rfl, rfl⟩
  · cases h
    exact ⟨rfl, rfl, rfl, rfl⟩

theorem sysSemDestroy_marks (hW : WF k a) (hc : a.current ≠ a.idle) (h : sysSemDestroy k i = .ok (v, k')) :
    marks k' = a.markKeep (marks k) (.sysenter (.semDestroy i) u b) := by
  simp only [AState.markKeep]
  cases hv : validSem a.sem i false with
  | none =>
    simp only [sysSemDestroy, hW.sem, hv] at h
    cases h
    rfl
  | some n =>
    simp only [sysSemDestroy, hW.sem, hv] at h
    obtain ⟨k₁, h1, h⟩ := bind_ok.1 h
    cases h
    by_cases hw : a.Wild n
    · rcases destroyLoop_wild numNodes hW hc hw with h | h | h <;> rw [h1] at h <;> cases h
    · have hm := destroyLoop_marks numNodes hW hc ⟨validSem_init hv, hw⟩ h1
      exact hm

theorem sysSemInit_untouched (k : Kernel) (i v : Word) : Untouched k (sysSemInit k i v).2 := by
  unfold sysSemInit
  split <;> exact ⟨rfl, rfl, rfl, rfl⟩

theorem sysWrite_untouched {fd buffer nbytes : Word} (h : sysWrite k fd buffer nbytes = .ok (v, k')) :
    Untouched k k' := by
  unfold sysWrite at h
  split at h
  · cases h
    exact .refl k
  split at h
  · cases h
    exact .refl k
  split at h
  · cases h
    exact .refl k
  obtain ⟨s, -, h⟩ := bind_ok.1 h
  cases h
  exact ⟨rfl, rfl, rfl, rfl⟩

theorem sysGetKey_untouched (h : sysGetKey k u = .ok (v, k')) : Untouched k k' := by
  unfold sysGetKey at h
  split at h
  · cases h
    exact .refl k
  split at h
  · cases h
    exact ⟨rfl, rfl, rfl, rfl⟩
  · obtain ⟨m, -, h⟩ := bind_ok.1 h
    cases h
    exact ⟨rfl, rfl, rfl, rfl⟩

/-- `get_stats` fills in `remaining_ticks`, of the statistics of one task. -/
theorem sysGetStats_stores {pid st : Word} (h : sysGetStats k pid st = .ok (v, k')) : k' = k ∨
    ∃ s m, k' = (setStats k s { (k.task s).pStats with remainingTicks := k.remainingQuantum }).setMm m := by
  unfold sysGetStats at h
  split at h
  · cases h
    exact .inl rfl
  split at h
  · cases h
    exact .inl rfl
  split at h
  · cases h
    exact .inl rfl
  · obtain ⟨m, -, h⟩ := bind_ok.1 h
    cases h
    exact .inr ⟨_, _, rfl⟩

theorem sysGetStats_marks {pid st : Word} (h : sysGetStats k pid st = .ok (v, k')) : marks k' = marks k := by
  rcases sysGetStats_stores h with rfl | ⟨s, m, rfl⟩
  · rfl
  · exact marks_setStats _

theorem sysDumpScreen_untouched (h : sysDumpScreen k u = .ok (v, k')) : Untouched k k' := by
  simp only [sysDumpScreen] at h
  split at h
  · cases h
    exact .refl k
  split at h
  · cases h
    exact .refl k
  · obtain ⟨s, -, h⟩ := bind_ok.1 h
    cases h
    exact ⟨rfl, rfl, rfl, rfl⟩

theorem sysAlloc_untouched (k : Kernel) : Untouched k (sysAlloc k).2 := by
  obtain ⟨v, m, h, -⟩ := allocK_cases k
  rw [sysAlloc, h]
  exact ⟨rfl, rfl, rfl, rfl⟩

theorem systemCall_marked (hW : WF k a) (hc : a.current ≠ a.idle) {x : Call} (h : systemCall k b x = .ok (o, k')) :
    MarkedBy a (marks k) (.sysenter x u b) o k' := by
  cases x with
  | exit =>
    obtain ⟨h₁, hcall, hS⟩ := sysExit_eq hW hc b
    rw [systemCall, hcall] at h
    exact .sched hS (marks_setTask rfl rfl rfl rfl) rfl rfl h
  | fork => exact .map h fun v hv => sysFork_marks hW hv
  | write fd buffer nbytes => exact .map h fun v hv => (sysWrite_untouched hv).marks_eq
  | gettime => cases h; exact .keep rfl
  | yield => exact .force hW hc rfl h
  | getpid => cases h; exact .keep rfl
  | alloc => cases h; exact .keep (sysAlloc_untouched k).marks_eq
  | dealloc address => cases h; exact .keep (deallocK_untouched rfl).marks_eq
  | createthread w f p => exact .map h fun v hv => sysCreatethread_marks hW hv
  | terminatethread => exact sysTerminatethread_marked hW hc h
  | dumpScreen address => exact .map h fun v hv => (sysDumpScreen_untouched hv).marks_eq
  | getKey c => exact .map h fun v hv => (sysGetKey_untouched hv).marks_eq
  | semInit i v => cases h; exact .keep (sysSemInit_untouched k i v).marks_eq
  | semWait i => exact sysSemWait_marked hW hc h
  | semSignal i => exact .map h fun v hv => (sysSemSignal_untouched hv).marks_eq
  | semDestroy i => exact .map h fun v hv => sysSemDestroy_marks hW hc hv
  | getStats pid st => exact .map h fun v hv => sysGetStats_marks hv
  | niSyscall => cases h; exact .keep rfl

theorem clockEntry_marks : marks (clockEntry k) = { marks k with left := (marks k).left - 1 } := by
  have hu : marks (userToSystem k) = marks k := marks_updateStats _
  rw [← hu]
  rfl

theorem clockKeep_marks (hW : WF k a) : marks { clockEntry k with
    remainingQuantum := if k.remainingQuantum - 1 = 0 then getQuantum (clockEntry k) (clockEntry k).current
      else k.remainingQuantum - 1 } = (marks k).tick a.current := by
  have hm : ∀ q, marks { clockEntry k with remainingQuantum := q } = { marks (clockEntry k) with left := q } :=
    fun q => rfl
  have hq : getQuantum (clockEntry k) (clockEntry k).current = (marks (clockEntry k)).quantum a.current := by
    rw [hW.clockEntry.current]
    rfl
  rw [hm, hq, clockEntry_marks]
  rfl

/-- The clock: the CPU is taken away if the quantum is up and `readyqueue` is not empty. -/
theorem clock_marked (hW : WF k a) (h : clockHandler k b = .ok (o, k')) :
    MarkedBy a (marks k) (.clock b) o k' ∧
      (o.switch ≠ none ↔ (marks k).left - 1 = 0 ∧ a.queue .readyqueue ≠ []) := by
  by_cases hd : k.remainingQuantum - 1 = 0 ∧ a.queue .readyqueue ≠ []
  · rw [clockHandler_switch hW hd] at h
    have hc : a.current ≠ a.idle := fun h => hd.2 (hW.alone h)
    obtain ⟨sw, h1, h2, h3⟩ := forceTaskSwitch_marks hW.clockEntry hc h
    rw [clockEntry_marks] at h2 h3
    refine ⟨⟨by rw [h1, h2]; rfl, fun sw' h' => ?_⟩, ?_⟩
    · rw [h1] at h'
      cases h'
      exact h3
    · rw [h1]
      exact iff_of_true (by simp) hd
  · rw [clockHandler_keep hW hd] at h
    cases h
    exact ⟨⟨(marks_updateStats _).trans (clockKeep_marks hW), fun sw h => by cases h⟩, iff_of_false (by simp) hd⟩

/-- A call, from where the user context is saved, on the marks. -/
theorem Step.entered {x : Call} (hW : WF k a) (h : Step k (.sysenter x u b) o k') :
    ∃ k₁, WF k₁ a ∧ marks k₁ = marks k ∧ systemCall k₁ b x = .ok (o, k') := by
  obtain ⟨k₁, w, rfl, hW₁, hs⟩ := h.called hW
  exact ⟨_, hW₁, marks_setTask rfl rfl rfl rfl, hs⟩

/-- **What a step does to the marks.** -/
theorem Step.marked (hW : WF k a) (h : Step k e o k') : MarkedBy a (marks k) e o k' := by
  cases e with
  | sysenter c u b =>
    obtain ⟨k₁, hW₁, hm, hs⟩ := h.entered hW
    rw [← hm]
    exact systemCall_marked hW₁ (h.user hW rfl) hs
  | clock b => exact (clock_marked hW h.2).1
  | keyboard c =>
    cases h.2
    exact ⟨(marks_updateStats _).trans (marks_updateStats (k := k) _), fun sw h => by cases h⟩
  | store addr x =>
    have hs := h.2
    simp only [step] at hs
    cases hu : k.mm.userStore k.cr3 addr x with
    | error e => rw [hu] at hs; cases hs
    | ok m =>
      rw [hu] at hs
      cases hs
      exact ⟨rfl, fun sw h => by cases h⟩

/-- A wait that does not take the CPU away. -/
theorem Step.wait_ret (hW : WF k a) (hv : validSem a.sem i false = some n) (h : Step k (.sysenter (.semWait i) u b) o k')
    (hsw : o.switch = none) : o.ret = some (if (marks k).destroyed a.current = true then -1 else 0) := by
  obtain ⟨k₁, hW₁, hm, hs⟩ := h.entered hW
  rw [← hm]
  rw [systemCall] at hs
  by_cases hneg : ((a.sem n).counter - 1).toInt < 0
  · obtain ⟨h₁, a', hcall, hS, -⟩ := semWait_block (b := b) (u := u) hW₁ (h.user hW rfl) hv hneg
    rw [hcall] at hs
    rw [(schedNextRr_marks hS hs).1] at hsw
    -- a wait that blocks switches
    cases hsw
  · rw [sysSemWait_eq (hW₁.sem ▸ hv), hW₁.sem, if_neg hneg] at hs
    cases hs
    have h := semWaitEnd_marks (k := countDown k₁ n)
    rw [show (countDown k₁ n).current = a.current from hW₁.current] at h
    exact congrArg some h.2

/-- A tick before the quantum is up. -/
theorem tick_step (hW : WF k a) (hl : (marks k).left - 1 ≠ 0) (b : ℕ) :
    ∃ o k', Step k (.clock b) o k' ∧ o.switch = none ∧ WF k' a ∧ marks k' = (marks k).tick a.current := by
  have hcall := clockHandler_keep hW (fun h => hl h.1) b
  set k' := systemToUser { clockEntry k with remainingQuantum :=
    if k.remainingQuantum - 1 = 0 then getQuantum (clockEntry k) (clockEntry k).current else k.remainingQuantum - 1 }
  have hs : Step k (.clock b) {} k' := ⟨fun h => (by cases h), hcall⟩
  obtain ⟨a', h, hW'⟩ := hs.refines hW
  have ha : a' = a := by
    cases h with
    | noop => rfl
    | clock => rfl
  exact ⟨_, _, hs, rfl, ha ▸ hW', (hs.marked hW).after⟩

/-- The tick that ends a quantum, with a task to go on. -/
theorem due_step (hW : WF k a) (hl : (marks k).left - 1 = 0) (hr : a.queue .readyqueue = .task t :: xs) (b : ℕ) :
    ∃ o k', Step k (.clock b) o k' := by
  have hne : a.queue .readyqueue ≠ [] := by simp [hr]
  obtain ⟨⟨o, k'⟩, hx⟩ := forceTaskSwitch_ok hW.clockEntry (fun h => hne (hW.alone h)) hr b .clockRoutine
  exact ⟨o, k', fun h => (by cases h), (clockHandler_switch hW ⟨hl, hne⟩ b).trans hx⟩

/-! ### Boot -/

def bootMarks : Marks where
  state _ := .ST_RUN
  destroyed _ := false
  resume _ := .cpuIdle
  quantum s := if s = 0 ∨ s = 1 then defaultQuantum else 0
  left := defaultQuantum

theorem takeFree_links (h : takeFree k = .ok (c, k')) : ∃ h', k' = k.setLinks h' := by
  unfold takeFree at h
  obtain ⟨l, -, h⟩ := bind_ok.1 h
  obtain ⟨h', -, h⟩ := bind_ok.1 h
  obtain ⟨c', -, h⟩ := bind_ok.1 h
  cases h
  exact ⟨h', rfl⟩

/-- `init_idle` from where it has taken struct `c` off `freequeue`. -/
def idleTaken (k : Kernel) (c : Slot) : Kernel :=
  let k := k.setTask c { k.task c with PID := 0, totalQuantum := defaultQuantum }
  let k := allocateDIR (initStats k c) c
  { k.setTask c { k.task c with registerEsp := some (c, kernelStackSize - 2), resume := .cpuIdle } with idleTask := c }

/-- `init_task1`, in the same way. -/
def task1Taken (k : Kernel) (c : Slot) : Kernel :=
  let k := k.setTask c { k.task c with PID := 1, totalQuantum := defaultQuantum, state := .ST_RUN }
  let k := { k with remainingQuantum := (k.task c).totalQuantum }
  let k := allocateDIR (initStats k c) c
  let k := k.setMm (k.mm.setUserPages (getPT k c))
  { k with cr3 := getDIR k c, current := c }

/-- **What `boot` leaves**, but for the links of the lists. -/
theorem boot_eq {M : Machine} (h : boot M = .ok k) : ∃ l l', k = task1Taken ((idleTaken
    { initMm M.layout (reset M) with task := fun _ => { PID := -1 }, links := l } 0).setLinks l') 1 := by
  obtain ⟨k', hk', hW⟩ := boot_ok M
  cases h.symm.trans hk'
  have hidle : k.idleTask = 0 := hW.idle
  have hcur : k.current = 1 := hW.current
  unfold boot at h
  obtain ⟨k₁, h1, h⟩ := bind_ok.1 h
  obtain ⟨k₂, h2, h⟩ := bind_ok.1 h
  obtain ⟨l₀, hf, -⟩ := initSched_ok (initMm M.layout (reset M))
  cases hf.symm.trans h1
  unfold initIdle at h2
  obtain ⟨⟨c, k₃⟩, h3, h2⟩ := bind_ok.1 h2
  obtain ⟨l, rfl⟩ := takeFree_links h3
  cases h2
  unfold initTask1 at h
  obtain ⟨⟨c', k₄⟩, h4, h⟩ := bind_ok.1 h
  obtain ⟨l', rfl⟩ := takeFree_links h4
  cases h
  have hc : c = 0 := hidle
  have hc' : c' = 1 := hcur
  subst hc hc'
  have htask : ∀ s, { (initMm M.layout (reset M)).task s with PID := -1 } = ({ PID := -1 } : TaskUnion) := by
    intro s
    by_cases hs : s = 0 <;> simp [initMm, allocateDIR, Kernel.setTask, Kernel.setMm, reset, hs]
  refine ⟨l, l', ?_⟩
  simp only [htask]
  rfl

/-- `init_idle` and `init_task1` give the two tasks there are a quantum each. -/
theorem boot_marks {M : Machine} (h : boot M = .ok k) : marks k = bootMarks := by
  obtain ⟨l, l', rfl⟩ := boot_eq h
  apply Marks.ext <;> first | rfl | funext u
  all_goals
    by_cases h0 : u = 0 <;> by_cases h1 : u = 1 <;>
      simp [marks, bootMarks, task1Taken, idleTaken, initStats, getTicks, setStats, allocateDIR, Kernel.setTask,
        Kernel.setLinks, Kernel.setMm, h0, h1]

/-- **The marks along a run.** -/
theorem run_marks {M : Machine} {tr : KTrace} (hr : KRun M tr k) {P : AState → Marks → Prop}
    (h0 : P (bootState M) bootMarks)
    (hs : ∀ {k k' a a' e o}, WF k a → WF k' a' → Step k e o k' → AStep a e o.switch a' →
      marks k' = a.mark (marks k) e o.switch → P a (marks k) → P a' (marks k')) :
    ∃ a, WF k a ∧ P a (marks k) := by
  refine hr.invariant (P := fun k => ∃ a, WF k a ∧ P a (marks k)) (fun k hk => ?_) ?_
  · obtain ⟨k', h, hW⟩ := boot_ok M
    cases h.symm.trans hk
    exact ⟨_, hW, by rw [boot_marks hk]; exact h0⟩
  · intro k e o k' ih hst
    obtain ⟨a, hW, hP⟩ := ih
    obtain ⟨a', h, hW'⟩ := hst.refines hW
    exact ⟨a', hW', hs hW hW' hst h (hst.marked hW).after hP⟩

end Zeos
