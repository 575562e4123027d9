import Zeos.Abstract
import Zeos.Proof.Queues

/-!
# The kernel state and its abstract state

`WF k a`: the kernel state `k`, between two steps, is what the abstract state `a` says,
with well-formed queues. `Shape` is what of it holds inside a step too, with the tasks
that are on no queue as a parameter.

* `Same`: updates of `k` that `a` does not see.
* `Shape.push`: a task goes on a queue.
* `schedNextRr_cases`: **`sched_next_rr` is `AState.dispatch`**, or its stack pointer
  is null, or the first of `readyqueue` is no task.
-/

namespace Zeos

open LinkHeap ForLoop

/-- `a` is what `k` holds. -/
structure Sees (k : Kernel) (a : AState) : Prop where
  pid : ∀ s, (k.task s).PID = a.pid s
  dir : ∀ s, (k.task s).dirPagesBaseAddr = a.dir s
  esp : ∀ s, (k.task s).registerEsp = a.esp s
  sem : k.listSem = a.sem
  current : k.current = a.current
  idle : k.idleTask = a.idle
  lastPid : k.globalPID = a.lastPid
  phys : k.mm.physMem = a.phys
  table : k.mm.pagusrTable = a.table

/-- The initialised semaphores. -/
def AState.IsInit (a : AState) (n : Sem) : Prop := (a.sem n).isInit = true

structure Shape (k : Kernel) (a : AState) (off : Slot → Prop) : Prop extends Sees k a where
  queues : Queues k.links a.IsInit a.queue off
  dirs : k.mm.dirPages = id
  own : ∀ s sp, a.Live s → a.esp s = some sp → sp.1 = s
  ran : ∀ s, a.Live s → s ≠ a.current → a.esp s ≠ none
  first : a.phys numPagKernel ≠ frameFree

/-- **What holds between two steps.** -/
structure WF (k : Kernel) (a : AState) : Prop
    extends Shape k a fun s => s = a.current ∨ s = a.idle where
  cr3 : k.cr3 = a.tab
  run : (k.task a.current).state = .ST_RUN
  /-- Idle runs only while there is no other task to run, and nothing wakes one then. -/
  alone : a.current = a.idle → a.queue .readyqueue = []

/-- The two states differ in what an abstract state and the lists do not see. -/
structure Same (k k' : Kernel) : Prop where
  pid : ∀ s, (k'.task s).PID = (k.task s).PID
  dir : ∀ s, (k'.task s).dirPagesBaseAddr = (k.task s).dirPagesBaseAddr
  esp : ∀ s, (k'.task s).registerEsp = (k.task s).registerEsp
  links : k'.links = k.links
  sem : k'.listSem = k.listSem
  current : k'.current = k.current
  idle : k'.idleTask = k.idleTask
  lastPid : k'.globalPID = k.globalPID
  cr3 : k'.cr3 = k.cr3
  mm : k.mm.SameTables k'.mm

variable {k k' : Kernel} {a a' : AState} {off off' : Slot → Prop} {s t : Slot} {hd : Node}

namespace Same

theorem refl (k : Kernel) : Same k k :=
  ⟨fun _ => rfl, fun _ => rfl, fun _ => rfl, rfl, rfl, rfl, rfl, rfl, rfl, .refl _⟩

theorem trans {k₁ k₂ k₃ : Kernel} (h : Same k₁ k₂) (h' : Same k₂ k₃) : Same k₁ k₃ where
  pid s := (h'.pid s).trans (h.pid s)
  dir s := (h'.dir s).trans (h.dir s)
  esp s := (h'.esp s).trans (h.esp s)
  links := h'.links.trans h.links
  sem := h'.sem.trans h.sem
  current := h'.current.trans h.current
  idle := h'.idle.trans h.idle
  lastPid := h'.lastPid.trans h.lastPid
  cr3 := h'.cr3.trans h.cr3
  mm := h.mm.trans h'.mm

/-- A store into a task struct that leaves PID, page directory and stack pointer alone. -/
theorem setTask {x : TaskUnion} (hp : x.PID = (k.task s).PID)
    (hd : x.dirPagesBaseAddr = (k.task s).dirPagesBaseAddr) (he : x.registerEsp = (k.task s).registerEsp) :
    Same k (k.setTask s x) := by
  refine ⟨fun t => ?_, fun t => ?_, fun t => ?_, rfl, rfl, rfl, rfl, rfl, rfl, .refl _⟩ <;>
    by_cases h : t = s <;> simp [Kernel.setTask, h, hp, hd, he]

theorem setStats (st : Stats) : Same k (setStats k t st) := setTask rfl rfl rfl

theorem setState (st : StateT) : Same k (setState k t st) := setTask rfl rfl rfl

theorem getTicks (k : Kernel) : Same k (getTicks k).2 :=
  ⟨fun _ => rfl, fun _ => rfl, fun _ => rfl, rfl, rfl, rfl, rfl, rfl, rfl, .refl _⟩

theorem updateStats (v : Counter) : Same k (updateStats k t v) := (getTicks k).trans (setStats _)

theorem initStats : Same k (initStats k t) :=
  ((getTicks k).trans (getTicks _)).trans (setStats _)

theorem setMm {m : Mm} (hm : k.mm.SameTables m) : Same k (k.setMm m) :=
  ⟨fun _ => rfl, fun _ => rfl, fun _ => rfl, rfl, rfl, rfl, rfl, rfl, rfl, hm⟩

end Same

theorem Sees.same (hS : Sees k a) (h : Same k k') : Sees k' a where
  pid s := (h.pid s).trans (hS.pid s)
  dir s := (h.dir s).trans (hS.dir s)
  esp s := (h.esp s).trans (hS.esp s)
  sem := h.sem.trans hS.sem
  current := h.current.trans hS.current
  idle := h.idle.trans hS.idle
  lastPid := h.lastPid.trans hS.lastPid
  phys := h.mm.phys.trans hS.phys
  table := h.mm.table.trans hS.table

theorem Sees.setLinks (hS : Sees k a) (h : Heap Node) : Sees (k.setLinks h) a := { hS with }

@[simp] theorem updateStats_state (v : Counter) : ((updateStats k t v).task s).state = (k.task s).state := by
  by_cases h : s = t <;> simp [updateStats, getTicks, setStats, Kernel.setTask, h]

@[simp] theorem setStats_state (st : Stats) : ((setStats k t st).task s).state = (k.task s).state := by
  by_cases h : s = t <;> simp [setStats, Kernel.setTask, h]

namespace Shape

variable (hS : Shape k a off)

include hS

theorem congr_off (ho : ∀ s, off s ↔ off' s) : Shape k a off' :=
  { hS with queues := hS.queues.congr_off ho }

theorem same (h : Same k k') : Shape k' a off :=
  { hS.toSees.same h with
    queues := h.links ▸ hS.queues
    dirs := h.mm.dirs.trans hS.dirs
    own := hS.own
    ran := hS.ran
    first := hS.first }

theorem off_live (hs : off s) : a.Live s := (hS.queues.place s).2 hs _ Heads.free

theorem mem_live (hh : Heads a.IsInit a.queue hd) (hf : hd ≠ .freequeue) (hs : .task s ∈ a.queue hd) :
    a.Live s := fun hm => hf (hS.queues.unique hh Heads.free hs hm)

theorem getPT_eq : getPT k s = a.dir s := by rw [getPT, hS.dirs, hS.dir]; rfl

/-- **A task goes on a queue.** -/
theorem push (hh : Heads a.IsInit a.queue hd) (hs : off s) :
    ∃ h', listAddTail k.links (.task s) hd = .ok h' ∧
      Shape (k.setLinks h') (a.push hd s) fun t => off t ∧ t ≠ s := by
  obtain ⟨h', h1, h2⟩ := hS.queues.push hh hs
  have hl : ∀ t, (a.push hd s).Live t → a.Live t := by
    intro t ht hm
    refine ht ?_
    by_cases h : hd = .freequeue
    · subst h; simp [AState.push, AState.put, hm]
    · simp [AState.push, AState.put, Function.update_of_ne (Ne.symm h), hm]
  exact ⟨h', h1, { hS with
    queues := h2
    own := fun t sp ht => hS.own t sp (hl t ht)
    ran := fun t ht => hS.ran t (hl t ht) }⟩

end Shape

/-! ### `sched_next_rr` -/

theorem nextTask_cases (hS : Shape k a fun s => s = a.idle) :
    (∃ n xs, a.queue .readyqueue = .blocked n :: xs ∧ nextTask k = .error .wild) ∨
    ∃ h', nextTask k = .ok (a.next, k.setLinks h') ∧
      Queues h' a.IsInit (Function.update a.queue .readyqueue (a.queue .readyqueue).tail)
        (fun s => s = a.next ∨ s = a.idle) ∧
      (a.next = a.idle → (a.queue .readyqueue).tail = []) ∧ a.Live a.next := by
  have hE := listEmpty_rings hS.queues.rings Heads.ready
  have hF := listFirst_rings hS.queues.rings Heads.ready
  cases hr : a.queue .readyqueue with
  | nil =>
    have hn : a.next = a.idle := by simp [AState.next, hr]
    have hu : Function.update a.queue .readyqueue [] = a.queue := by rw [← hr, Function.update_eq_self]
    refine .inr ⟨k.links, ?_, ?_, fun _ => rfl, hn ▸ hS.off_live rfl⟩
    · rw [hn, ← hS.idle]; simp only [nextTask, hE.2 hr]; rfl
    · rw [List.tail_nil, hu, hn]; simpa using hS.queues
  | cons x xs =>
    have hne : listEmpty k.links .readyqueue = false := by
      cases h : listEmpty k.links .readyqueue with
      | false => rfl
      | true => rw [hE.1 h] at hr; cases hr
    rw [hr, firstOf] at hF
    have hx : x ∈ a.queue .readyqueue := by rw [hr]; simp
    rcases hS.queues.ready_node x hx with ⟨t, rfl⟩ | ⟨n, -, rfl⟩
    · obtain ⟨h', h1, h2⟩ := hS.queues.pop Heads.ready hr
      have hn : a.next = t := by simp [AState.next, hr]
      refine .inr ⟨h', ?_, ?_, ?_, ?_⟩
      · rw [hn]; simp [nextTask, hne, hF, h1, listHeadToTaskStruct, bind, Except.bind, pure, Except.pure]
      · exact h2.congr_off fun s => by rw [hn]; exact or_comm
      · rw [hn]; intro e; exact absurd e (hS.queues.not_off Heads.ready hx)
      · rw [hn]; exact hS.mem_live Heads.ready (by simp) hx
    · obtain ⟨h₁, -, h1, -⟩ := hS.queues.rotate (show _ = [] ++ .blocked n :: xs from hr)
      refine .inl ⟨n, xs, rfl, ?_⟩
      simp [nextTask, hne, hF, h1, listHeadToTaskStruct, bind, Except.bind]

theorem prepareTask_same (k : Kernel) (t : Slot) : Same k (prepareTask k t) := by
  refine .trans (.trans (.trans (.trans (.setState (t := t) .ST_RUN) ?_) (.updateStats _)) (.updateStats _))
    (.setStats _)
  exact ⟨fun _ => rfl, fun _ => rfl, fun _ => rfl, rfl, rfl, rfl, rfl, rfl, rfl, .refl _⟩

theorem prepareTask_state (k : Kernel) (t : Slot) : ((prepareTask k t).task t).state = .ST_RUN := by
  simp [prepareTask, setState, Kernel.setTask]

theorem semWaitEnd_same (k : Kernel) : Same k (semWaitEnd k).2 := by
  simp only [semWaitEnd]
  split
  · exact .setTask rfl rfl rfl
  · exact .refl k

theorem semWaitEnd_state (k : Kernel) : ((semWaitEnd k).2.task s).state = (k.task s).state := by
  simp only [semWaitEnd]
  split
  · by_cases h : s = k.current <;> simp [Kernel.setTask, h]
  · rfl

theorem resumeTask_same (k : Kernel) : Same k (resumeTask k).2 := by
  unfold resumeTask
  split
  · exact .refl k
  · exact .refl k
  · exact .refl k
  · exact .refl k
  · exact semWaitEnd_same k
  · exact .refl k
  · exact .refl k
  · exact .updateStats _

theorem resumeTask_state (k : Kernel) : ((resumeTask k).2.task s).state = (k.task s).state := by
  unfold resumeTask
  split <;> first | rfl | exact semWaitEnd_state k | exact updateStats_state _

/-- `inner_task_switch` and the way out, once the next task is chosen. -/
theorem innerTaskSwitch_cases (hS : Sees k a) (t : Slot) (ebp : ℕ) :
    (a.esp t = none ∧
      innerTaskSwitch k ebp t = .error (.stack ⟨a.current, t, some (a.current, ebp), a.esp t⟩)) ∨
    ∃ sp, a.esp t = some sp ∧
      innerTaskSwitch k ebp t = .ok (⟨a.current, t, some (a.current, ebp), a.esp t⟩,
        { k.setTask a.current { k.task a.current with registerEsp := some (a.current, ebp) } with
          cr3 := getDIR k t, current := sp.1 }) := by
  cases he : a.esp t with
  | none => left; simp [innerTaskSwitch, switchStack, hS.esp, he, hS.current]
  | some sp =>
    right
    refine ⟨sp, rfl, ?_⟩
    simp [innerTaskSwitch, switchStack, hS.esp, he, hS.current, Kernel.setTask]

theorem dispatch_live {ebp : ℕ} : (a.dispatch ebp).Live s ↔ a.Live s := by
  simp [AState.Live, AState.dispatch, AState.put]

theorem comeBack_ok {sw : Switch} (h : ¬ sw.Stale) :
    comeBack sw k = .ok ({ ret := (resumeTask k).1, switch := some sw }, (resumeTask k).2) := by
  rw [comeBack, if_neg h]

/-- **`sched_next_rr` is a dispatch**, unless the first of `readyqueue` is the head of a
semaphore's list, or the next task has no stack pointer or only a stale one to itself. -/
theorem schedNextRr_cases (hS : Shape k a fun s => s = a.idle) (ebp : ℕ) (r : Resume) :
    (∃ n xs, a.queue .readyqueue = .blocked n :: xs ∧ schedNextRr k ebp r = .error .wild) ∨
    ((a.esp a.next = none ∨ (a.switch ebp).Stale) ∧ schedNextRr k ebp r = .error (.stack (a.switch ebp))) ∨
    a.esp a.next ≠ none ∧ ¬ (a.switch ebp).Stale ∧
      ∃ v k', schedNextRr k ebp r = .ok (⟨v, some (a.switch ebp)⟩, k') ∧ WF k' (a.dispatch ebp) := by
  -- a semaphore's head at the front of `readyqueue` is taken for a task
  rcases nextTask_cases hS with ⟨n, xs, hr, hw⟩ | ⟨h', hn, hQ, htail, hlive⟩
  · exact .inl ⟨n, xs, hr, by simp [schedNextRr, hw, bind, Except.bind]⟩
  right
  -- the state in which `inner_task_switch` is called
  set k₂ := prepareTask (k.setLinks h') a.next
  set k₃ := k₂.setTask k₂.current { k₂.task k₂.current with resume := r }
  have hsame : Same (k.setLinks h') k₃ := (prepareTask_same _ _).trans (.setTask rfl rfl rfl)
  have hsees : Sees k₃ a := (hS.toSees.setLinks h').same hsame
  have hrun : (k₃.task a.next).state = .ST_RUN := by
    have hk : (k₂.task a.next).state = .ST_RUN := prepareTask_state _ _
    by_cases h : a.next = k₂.current
    · rw [h] at hk ⊢
      simpa [k₃, Kernel.setTask] using hk
    · simpa [k₃, Kernel.setTask, h] using hk
  have hcall : schedNextRr k ebp r = (innerTaskSwitch k₃ ebp a.next).bind fun x => comeBack x.1 x.2 := by
    simp only [schedNextRr, hn, bind, Except.bind]
    rfl
  -- a task that never ran has no stack pointer to go to
  rcases innerTaskSwitch_cases hsees a.next ebp with ⟨he, hi⟩ | ⟨sp, he, hi⟩
  · exact .inl ⟨.inl he, by rw [hcall, hi]; rfl⟩
  rw [hcall, hi]
  change _ ∧ comeBack (a.switch ebp) _ = _ ∨ _
  by_cases hst : (a.switch ebp).Stale
  · exact .inl ⟨.inr hst, if_pos hst⟩
  refine .inr ⟨by rw [he]; simp, hst, _, _, comeBack_ok hst, ?_⟩
  have hsp : sp.1 = a.next := hS.own _ _ hlive he
  set k₄ : Kernel := { k₃.setTask a.current { k₃.task a.current with registerEsp := some (a.current, ebp) } with
    cr3 := getDIR k₃ a.next, current := sp.1 }
  -- field by field: only the task left behind has been written to
  have hW : WF k₄ (a.dispatch ebp) := {
    pid := fun s => by
      by_cases h : s = a.current <;> simp [k₄, Kernel.setTask, h, hsees.pid, AState.dispatch, AState.put]
    dir := fun s => by
      by_cases h : s = a.current <;> simp [k₄, Kernel.setTask, h, hsees.dir, AState.dispatch, AState.put]
    esp := fun s => by
      by_cases h : s = a.current <;> simp [k₄, Kernel.setTask, h, hsees.esp, AState.dispatch, AState.put]
    sem := hsees.sem
    current := hsp
    idle := hsees.idle
    lastPid := hsees.lastPid
    phys := hsees.phys
    table := hsees.table
    queues := by
      have hl : k₄.links = h' := hsame.links
      rw [hl]; exact hQ
    dirs := hsame.mm.dirs.trans hS.dirs
    own := fun s sp hl he' => by
      by_cases h : s = a.current
      · subst h
        simp only [AState.dispatch, Function.update_self, Option.some.injEq] at he'
        rw [← he']
      · exact hS.own s sp (dispatch_live.1 hl) (by simpa [AState.dispatch, h] using he')
    ran := fun s hl hne => by
      by_cases h : s = a.current
      · simp [AState.dispatch, h]
      · simpa [AState.dispatch, h] using hS.ran s (dispatch_live.1 hl) h
    first := hS.first
    cr3 := hsees.dir _
    run := by
      have hc : (a.dispatch ebp).current = a.next := rfl
      rw [hc]
      by_cases h : a.next = a.current
      · rw [h] at hrun ⊢
        simpa [k₄, Kernel.setTask] using hrun
      · simpa [k₄, Kernel.setTask, h] using hrun
    alone := fun h => by
      have : (a.dispatch ebp).queue .readyqueue = (a.queue .readyqueue).tail := by
        simp [AState.dispatch, AState.put]
      rw [this]; exact htail h }
  have hs := resumeTask_same k₄
  exact { hW.toShape.same hs with
    cr3 := hs.cr3.trans hW.cr3
    run := (resumeTask_state k₄).trans hW.run
    alone := hW.alone }

end Zeos
