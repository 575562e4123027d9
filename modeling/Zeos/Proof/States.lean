import Zeos.Proof.Semaphores
import Zeos.Proof.Marks
import Zeos.Proof.Switches

/-!
# The `state` field and the queues

`fork`, `createthread`, `update_process_state_rr` and `sched_next_rr` keep the field, the
semaphore calls do not: a task that waits leaves the CPU with `ST_RUN`, and is made ready
with it.

* `run_wakes`: no list head comes on `readyqueue` while every signal that wakes finds a task.
* `state_exact`: **the field agrees with the queues** in such a run, **exactly as long as no
  wait takes the CPU from its caller.**
* `wait_runs`: the first task waits on a semaphore, and is `ST_RUN` on its list.
-/

namespace Zeos

open Execution

def OnReady (k : Kernel) (s : Slot) : Prop := .task s ∈ members k .readyqueue

/-- `s` is on the list of a semaphore. -/
def OnBlocked (k : Kernel) (s : Slot) : Prop := ∃ n, (k.listSem n).isInit = true ∧ .task s ∈ members k (.blocked n)

/-- The field `state` of the live tasks other than idle is what the queues say. -/
def StateAgrees (k : Kernel) : Prop := ∀ s, Live k s → s ≠ k.idleTask →
  ((k.task s).state = .ST_READY ↔ OnReady k s) ∧ ((k.task s).state = .ST_BLOCKED ↔ OnBlocked k s) ∧
    ((k.task s).state = .ST_RUN ↔ s = k.current)

/-- The event is no wait that takes the CPU from its caller. -/
def NoWait (k : Kernel) (e : Event) : Prop :=
  match e with
  | .sysenter (.semWait i) _ _ => ∀ n, validSem k.listSem i false = some n → 0 ≤ ((k.listSem n).counter - 1).toInt
  | _ => True

/-- The event is no signal that is to wake a task when nobody waits. -/
def WakesWaiter (k : Kernel) (e : Event) : Prop :=
  match e with
  | .sysenter (.semSignal i) _ _ => ∀ n, validSem k.listSem i false = some n →
    ((k.listSem n).counter + 1).toInt ≤ 0 → members k (.blocked n) ≠ []
  | _ => True

variable {k k' : Kernel} {a a' a₁ : AState} {m : Marks} {e : Event} {M : Machine} {tr : KTrace} {o : Out} {n : Sem}
  {s t c : Slot} {b : ℕ} {sw : Option Switch}

/-! ### The fields a step writes -/

theorem markKeep_local (h : e.isLocal = true) : a.markKeep m e = m := by
  unfold Event.isLocal at h
  split at h
  all_goals first | rfl | cases h

theorem noWait_local (h : e.isLocal = true) : NoWait k e := by
  unfold Event.isLocal at h
  split at h
  all_goals trivial

theorem child_state {r : Resume} : (m.child t c r).state s = if s = c then .ST_READY else m.state s := by
  by_cases h : s = c <;> simp [Marks.child, Marks.suspend, Marks.setState, Marks.copy, h]

theorem copy_state : (m.copy t c).state s = if s = c then m.state t else m.state s := by
  by_cases h : s = c <;> simp [Marks.copy, h]

/-- The states that there are come from `ST_RUN` and `ST_READY`. -/
theorem mark_state : (a.mark m e sw).state s = .ST_RUN ∨ (a.mark m e sw).state s = .ST_READY ∨
    ∃ t, (a.mark m e sw).state s = m.state t := by
  cases sw with
  | some sw =>
    simp only [AState.mark, Marks.dispatch_state]
    by_cases h : s = sw.incoming
    · left
      rw [h, Function.update_self]
    · right
      rw [Function.update_of_ne h]
      split
      · by_cases hc : s = a.current
        · left
          simp [Marks.setState, hc]
        · right
          exact ⟨s, by simp [Marks.setState, hc]⟩
      · exact .inr ⟨s, rfl⟩
  | none =>
    simp only [AState.mark]
    unfold AState.markKeep
    right
    split
    · exact .inr ⟨s, rfl⟩
    · split
      · split
        · rw [child_state]
          split
          · exact .inl rfl
          · exact .inr ⟨s, rfl⟩
        · rw [copy_state]
          split <;> exact .inr ⟨_, rfl⟩
      · exact .inr ⟨s, rfl⟩
    · split
      · rw [child_state]
        split
        · exact .inl rfl
        · exact .inr ⟨s, rfl⟩
      · exact .inr ⟨s, rfl⟩
    · split <;> exact .inr ⟨s, rfl⟩
    · split <;> exact .inr ⟨s, rfl⟩
    · exact .inr ⟨s, rfl⟩

/-- **Nobody is ever `ST_BLOCKED`.** -/
theorem run_not_blocked (hr : KRun M tr k) : ∀ s, (k.task s).state ≠ .ST_BLOCKED := by
  obtain ⟨a, -, h⟩ := run_marks hr (P := fun _ m => ∀ s, m.state s ≠ .ST_BLOCKED)
    (fun s h => by cases h) (fun {k k' a a' e o} _ _ _ _ hm ih s h => by
      rw [hm] at h
      have hst : (a.mark (marks k) e o.switch).state s = .ST_RUN ∨ _ ∨ _ := mark_state
      rcases hst with h' | h' | ⟨t, h'⟩
      · rw [h'] at h; cases h
      · rw [h'] at h; cases h
      · exact ih t (h'.symm.trans h))
  exact h

/-! ### No spliced lists -/

/-- A list head comes on `readyqueue` by a signal that finds nobody to wake. -/
theorem AStep.not_wild (hW : WF k a) (h : AStep a e sw a') (hS : WakesWaiter k e) (hw : ∀ n, ¬ a.Wild n) (n : Sem) :
    ¬ a'.Wild n := by
  by_cases hon : e.On a.sem n
  swap
  · exact (h.frame hW hon).wild (hw n)
  cases h.called hon with
  | init hv => simpa [AState.Wild, AState.semInit, AState.put, AState.setSem] using hw n
  | waitPass hv => exact hw n
  | waitBlock hv _ _ => exact dispatch_wild (mt push_wild.1 (hw n))
  | waitWild hv _ hq =>
    refine absurd ?_ (hw n)
    rw [AState.Wild, hq]
    simp
  | signalPass hv => exact hw n
  | signalWake hv _ _ =>
    rw [push_wild]
    simpa [AState.Wild, AState.put, AState.count, AState.setSem] using hw n
  | signalSplice hv hle _ hq =>
    -- the condition excludes it
    refine absurd ?_ (hS n (hW.sem ▸ hv) (hW.sem ▸ hle))
    rw [hW.members_blocked (validSem_init hv) (hw n), hq]
  | signalWild hv _ hw' => exact absurd hw' (hw n)
  | destroy hv =>
    -- the list holds tasks only
    intro hw'
    have hmem : Node.blocked n ∈ a.queue .readyqueue ++ a.queue (.blocked n) := by
      simpa [AState.Wild, AState.semDestroy, AState.put, AState.setSem] using hw'
    rcases List.mem_append.1 hmem with hx | hx
    · exact hw n hx
    · obtain ⟨s, hs⟩ := hW.queues.blocked_task n (heads_blocked (validSem_init hv) (hw n)) _ hx
      cases hs

/-- **No list head comes on `readyqueue`** while every signal that wakes finds a task. -/
theorem run_wakes (hr : KRun M tr k) (hS : ∀ t ∈ tr, WakesWaiter t.before t.event) :
    ∃ a, WF k a ∧ ∀ n, ¬ a.Wild n := by
  refine hr.induct (P := fun tr k => (∀ t ∈ tr, WakesWaiter t.before t.event) → ∃ a, WF k a ∧ ∀ n, ¬ a.Wild n)
    (fun k hk _ => ?_) ?_ hS
  · obtain ⟨k', h, hW⟩ := boot_ok M
    cases h.symm.trans hk
    exact ⟨_, hW, fun n hn => by simp [AState.Wild, bootState] at hn⟩
  · intro tr k e o k' _ ih hst hS
    obtain ⟨a, hW, hw⟩ := ih fun t ht => hS t (List.mem_cons_of_mem _ ht)
    obtain ⟨a', h, hW'⟩ := hst.refines hW
    exact ⟨a', hW', h.not_wild hW (hS _ List.mem_cons_self) hw⟩

/-! ### Agreement of the abstract states -/

/-- What agreement comes to, with nobody `ST_BLOCKED`. -/
structure Agree (a : AState) (m : Marks) : Prop where
  ready : ∀ s, .task s ∈ a.queue .readyqueue → m.state s = .ST_READY
  blocked : ∀ n, a.IsInit n → a.queue (.blocked n) = []

theorem WF.onReady_iff (hW : WF k a) : OnReady k s ↔ .task s ∈ a.queue .readyqueue := by rw [OnReady, hW.members_ready]

theorem WF.onBlocked_iff (hW : WF k a) (hw : ∀ n, ¬ a.Wild n) :
    OnBlocked k s ↔ ∃ n, a.IsInit n ∧ .task s ∈ a.queue (.blocked n) := by
  unfold OnBlocked
  simp only [hW.sem]
  refine exists_congr fun n => and_congr_right fun hi => ?_
  rw [hW.members_blocked hi (hw n)]

theorem agrees_iff (hW : WF k a) (hw : ∀ n, ¬ a.Wild n) (hB : ∀ s, (k.task s).state ≠ .ST_BLOCKED) :
    StateAgrees k ↔ Agree a (marks k) := by
  have hready : ∀ s, OnReady k s ↔ .task s ∈ a.queue .readyqueue := fun s => hW.onReady_iff
  have hblocked : ∀ s, OnBlocked k s ↔ ∃ n, a.IsInit n ∧ .task s ∈ a.queue (.blocked n) := fun s =>
    hW.onBlocked_iff hw
  constructor
  · intro hA
    refine ⟨fun s hs => ?_, fun n hi => ?_⟩
    · have hl := hW.toShape.mem_live Heads.ready (by simp) hs
      have hne : s ≠ k.idleTask := by
        rw [hW.idle]
        exact fun h => hW.queues.not_off Heads.ready hs (.inr h)
      exact (hA s (hW.live_iff.2 hl) hne).1.2 ((hready s).2 hs)
    · apply List.eq_nil_iff_forall_not_mem.2
      intro x hx
      have hh := heads_blocked hi (hw n)
      obtain ⟨s, rfl⟩ := hW.queues.blocked_task n hh x hx
      have hl := hW.toShape.mem_live hh (by simp) hx
      have hne : s ≠ k.idleTask := by
        rw [hW.idle]
        exact fun h => hW.queues.not_off hh hx (.inr h)
      exact hB s ((hA s (hW.live_iff.2 hl) hne).2.1.2 ((hblocked s).2 ⟨n, hi, hx⟩))
  · intro hA s hl hne
    rw [hW.live_iff] at hl
    rw [hW.idle] at hne
    have hnb : ¬ OnBlocked k s := by
      rw [hblocked]
      rintro ⟨n, hi, hs⟩
      rw [hA.blocked n hi] at hs
      cases hs
    have hrun : s = a.current → (k.task s).state = .ST_RUN := by
      rintro rfl
      exact hW.run
    -- a live task is current or ready
    have hplace : s = a.current ∨ .task s ∈ a.queue .readyqueue := by
      by_contra h
      rw [not_or] at h
      refine (not_or.2 ⟨h.1, hne⟩) ((hW.queues.place s).1 fun hd hh hs => ?_)
      cases hd with
      | freequeue => exact hl hs
      | readyqueue => exact h.2 hs
      | blocked n =>
        rw [hA.blocked n hh.1] at hs
        cases hs
      | task t => exact hh
    rw [hready, hW.current]
    have hready' : .task s ∈ a.queue .readyqueue → (k.task s).state = .ST_READY := hA.ready s
    have hcur : .task s ∈ a.queue .readyqueue → s ≠ a.current := by
      rintro hs rfl
      exact hW.not_ready hs
    rcases hplace with h | h
    · rw [hrun h]
      exact ⟨iff_of_false (by simp) fun hs => hcur hs h, iff_of_false (by simp) hnb, iff_of_true rfl h⟩
    · rw [hready' h]
      exact ⟨iff_of_true rfl h, iff_of_false (by simp) hnb, iff_of_false (by simp) (hcur h)⟩

/-- Idle is not in `readyqueue`. -/
theorem ready_ne_idle {s : Slot} (hW : WF k a) (hs : .task s ∈ a.queue .readyqueue) : s ≠ a.idle := by
  intro h
  exact hW.queues.not_off Heads.ready hs (.inr h)

/-- A slot of `freequeue` is not in `readyqueue`. -/
theorem ready_ne_free {c s : Slot} {rest : List Node} (hW : WF k a) (hq : a.queue .freequeue = .task c :: rest)
    (hs : .task s ∈ a.queue .readyqueue) : s ≠ c := by
  rintro rfl
  exact not_live hq (hW.toShape.mem_live Heads.ready (by simp) hs)

namespace Agree

variable (h : Agree a m)

include h

/-- A step that keeps the CPU, does nothing to `readyqueue` and to the states of the tasks on
it, and puts nobody on the list of a semaphore. -/
theorem keep {m' : Marks} (hr : ∀ s, .task s ∈ a'.queue .readyqueue → .task s ∈ a.queue .readyqueue)
    (hs : ∀ s, .task s ∈ a.queue .readyqueue → m'.state s = m.state s)
    (hb : ∀ n, a'.IsInit n → a'.queue (.blocked n) = [] ∨ a.IsInit n ∧ a'.queue (.blocked n) = a.queue (.blocked n)) :
    Agree a' m' where
  ready s hm := (hs s (hr s hm)).trans (h.ready s (hr s hm))
  blocked n hi := by
    rcases hb n hi with hq | ⟨hi', hq⟩
    · exact hq
    · exact hq.trans (h.blocked n hi')

theorem dispatch (hn : (a.queue .readyqueue).Nodup) (hi : ∀ s, .task s ∈ a.queue .readyqueue → s ≠ a.idle)
    (r : Resume) : Agree (a.dispatch b) (m.dispatch t a.next r) where
  ready s hs := by
    have hs : .task s ∈ (a.queue .readyqueue).tail := by simpa [AState.dispatch, AState.put] using hs
    have hne : s ≠ a.next := by
      rintro rfl
      unfold AState.next at hs
      split at hs
      · rename_i x xs hq
        rw [hq, List.nodup_cons] at hn
        rw [hq] at hs
        exact hn.1 hs
      · rename_i hq
        refine hi a.idle (List.mem_of_mem_tail hs) rfl
    rw [Marks.dispatch_state, Function.update_of_ne hne]
    exact h.ready s (List.mem_of_mem_tail hs)
  blocked n hI := by
    have hq : (a.dispatch b).queue (.blocked n) = a.queue (.blocked n) := by simp [AState.dispatch, AState.put]
    rw [hq]
    exact h.blocked n hI

/-- A new task, ready. -/
theorem spawn {rest : List Node} {pid : Word} {d : Slot} {esp : StackPtr} {r : Resume}
    (hq : a₁.queue = a.queue) (hI : a₁.IsInit = a.IsInit) :
    Agree (a₁.spawn c rest pid d esp) (m.child t c r) where
  ready s hs := by
    have hs : .task s ∈ a.queue .readyqueue ∨ s = c := by
      simpa [AState.spawn, AState.push, AState.put, hq] using hs
    rw [child_state]
    split
    · rfl
    · rename_i hne
      exact h.ready s (hs.resolve_right hne)
  blocked n hi := by
    have hq' : (a₁.spawn c rest pid d esp).queue (.blocked n) = a.queue (.blocked n) := by
      simp [AState.spawn, AState.push, AState.put, hq]
    have hi' : a.IsInit n := hI ▸ hi
    rw [hq']
    exact h.blocked n hi'

/-- A new semaphore's list is empty. -/
theorem inited {v : Word} : Agree (a.semInit n v) m := by
  refine h.keep (fun s hs => ?_) (fun _ _ => rfl) fun x hx => ?_
  · simpa [AState.semInit, AState.put, AState.setSem] using hs
  by_cases hxn : x = n
  · left
    simp [AState.semInit, AState.put, hxn]
  · right
    simp only [AState.IsInit, AState.semInit, AState.put, AState.setSem] at hx ⊢
    rw [Function.update_of_ne hxn] at hx
    exact ⟨hx, Function.update_of_ne (by simpa using hxn) _ _⟩

/-- As nobody waits, `sem_destroy` makes nobody ready. -/
theorem retired (hn : a.IsInit n) : Agree (a.semDestroy n) m := by
  have hq := h.blocked n hn
  refine h.keep (fun s hs => ?_) (fun _ _ => rfl) fun x hx => ?_
  · simpa [AState.semDestroy, AState.put, AState.setSem, hq] using hs
  by_cases hxn : x = n
  · left
    simp [AState.semDestroy, AState.put, AState.setSem, hxn]
  · right
    simp only [AState.IsInit, AState.semDestroy, AState.put, AState.setSem] at hx ⊢
    rw [Function.update_of_ne hxn] at hx
    refine ⟨hx, ?_⟩
    rw [Function.update_of_ne (by simpa using hxn), Function.update_of_ne (by simp)]

/-- A signal that leaves `readyqueue` with the tasks it had. -/
theorem signalled {xs : List Node} (hxs : ∀ s, .task s ∈ xs → .task s ∈ a.queue .readyqueue) :
    Agree ((a.count n 1).put .readyqueue xs) m := by
  refine h.keep (fun s hs => hxs s ?_) (fun _ _ => rfl) fun x hx => .inr ⟨?_, ?_⟩
  · simpa [AState.put, AState.count, AState.setSem] using hs
  · exact (congrFun (count_isInit (a := a) (n := n) 1) x) ▸ hx
  · simp [AState.put, AState.count, AState.setSem]

end Agree

/-- The caller of a wait is on the semaphore's list while its state is not `ST_BLOCKED`. -/
theorem not_agree_blocked {m' : Marks} (hn : a.IsInit n) :
    ¬ Agree (((a.count n (-1)).push (.blocked n) a.current).dispatch b) m' := by
  intro hA
  have hi : ((a.count n (-1)).push (.blocked n) a.current).IsInit n := by
    show (a.count n (-1)).IsInit n
    rw [count_isInit]
    exact hn
  have hq := hA.blocked n hi
  simp [AState.dispatch, AState.push, AState.put] at hq

/-- The current task goes to the tail of `readyqueue` as `ST_READY`. -/
theorem Agree.pushed {b : ℕ} {r : Resume} (hW : WF k a) (hA : Agree a (marks k)) (hc : a.current ≠ a.idle) :
    Agree ((a.push .readyqueue a.current).dispatch b)
      (((marks k).setState a.current .ST_READY).dispatch a.current (a.push .readyqueue a.current).next r) := by
  have hnd : (a.queue .readyqueue).Nodup := (List.nodup_cons.1 (hW.queues.nodup Heads.ready)).2
  have hmem : ∀ s, .task s ∈ (a.push .readyqueue a.current).queue .readyqueue ↔
      .task s ∈ a.queue .readyqueue ∨ s = a.current := fun s => by simp [AState.push, AState.put]
  refine Agree.dispatch ⟨fun s hs => ?_, fun n hi => ?_⟩ ?_ (fun s hs => ?_) r
  · by_cases h : s = a.current
    · simp [Marks.setState, h]
    · rw [Marks.setState_state, Function.update_of_ne h]
      exact hA.ready s (((hmem s).1 hs).resolve_right h)
  · simpa [AState.push, AState.put] using hA.blocked n hi
  -- its node was not in the queue, as it was running
  · simp only [AState.push, AState.put, Function.update_self]
    exact List.nodup_append.2 ⟨hnd, by simp, fun x hx y hy => by
      rw [List.mem_singleton.1 hy]
      rintro rfl
      exact hW.not_ready hx⟩
  · rcases (hmem s).1 hs with hs | rfl
    · exact (ready_ne_idle hW hs : s ≠ a.idle)
    · exact hc

/-- The current task ends, after what the call did to other fields. -/
theorem Agree.left {b : ℕ} {r : Resume} (hW : WF k a) (hA : Agree a (marks k)) (hq : a₁.queue = a.queue)
    (hi : a₁.idle = a.idle) (hI : a₁.IsInit = a.IsInit) :
    Agree (a₁.leave b) ((marks k).dispatch a.current (a.push .freequeue a.current).next r) := by
  have hnd : (a.queue .readyqueue).Nodup := (List.nodup_cons.1 (hW.queues.nodup Heads.ready)).2
  have hq' : (a₁.push .freequeue a₁.current).queue .readyqueue = a.queue .readyqueue := by
    simp [AState.push, AState.put, hq]
  have hn : (a.push .freequeue a.current).next = (a₁.push .freequeue a₁.current).next := by
    simp only [AState.next, AState.push, AState.put, hq, hi]
    simp
  rw [hn]
  refine Agree.dispatch (hA.keep (fun s hs => hq' ▸ hs) (fun _ _ => rfl) fun n hn => .inr ⟨hI ▸ hn, ?_⟩)
    (hq' ▸ hnd) (fun s hs => ?_) r
  · simp [AState.push, AState.put, hq]
  · rw [hq'] at hs
    rw [show (a₁.push .freequeue a₁.current).idle = a.idle from hi]
    exact ready_ne_idle hW hs

theorem Agree.untouched {m' : Marks} (hA : Agree a (marks k)) (hq : a'.queue = a.queue) (hI : a'.IsInit = a.IsInit)
    (hm : ∀ s, .task s ∈ a.queue .readyqueue → m'.state s = (marks k).state s) : Agree a' m' :=
  hA.keep (fun s hs => hq ▸ hs) hm fun n hn => .inr ⟨hI ▸ hn, by rw [hq]⟩

/-- **One step from a state that agrees.** -/
theorem AStep.agree (hW : WF k a) (hw : ∀ n, ¬ a.Wild n) (hc : e.ofUser = true → a.current ≠ a.idle)
    (h : AStep a e sw a') (hA : Agree a (marks k)) : Agree a' (a.mark (marks k) e sw) ↔ NoWait k e := by
  cases h with
  -- what changes neither queues nor states
  | noop he =>
    simp only [AState.mark, markKeep_local he]
    exact iff_of_true hA (noWait_local he)
  | clock => exact iff_of_true (hA.untouched rfl rfl fun _ _ => rfl) trivial
  | clockSwitch hne _ => exact iff_of_true (hA.pushed hW hne) trivial
  | yield => exact iff_of_true (hA.pushed hW (hc rfl)) trivial
  | forkNone hq =>
    simp only [AState.mark, AState.markKeep, hq]
    exact iff_of_true hA trivial
  | forkFail hq hlt =>
    simp only [AState.mark, AState.markKeep, hq, if_neg (Nat.not_le.2 hlt)]
    refine iff_of_true (hA.keep (fun s hs => ?_) (fun s hs => ?_) fun n hn => .inr ⟨hn, ?_⟩) trivial
    · simpa [AState.forkFail, AState.put] using hs
    · rw [copy_state, if_neg (ready_ne_free hW hq hs)]
    · simp [AState.forkFail, AState.put]
  | @forkOk u b c rest fs hq hle =>
    simp only [AState.mark, AState.markKeep, hq, if_pos hle]
    have hS : Agree (a.spawn c rest (a.lastPid + 1) c (some (c, b - 1)))
        ((marks k).child a.current c .retFromFork) := hA.spawn rfl rfl
    exact iff_of_true ⟨hS.ready, hS.blocked⟩ trivial
  -- the CPU given away without a place in `readyqueue`
  | exit => exact iff_of_true (hA.left hW rfl rfl rfl) trivial
  | alloc hal => exact iff_of_true (hA.untouched hal.queue.1 (by cases hal <;> rfl) fun _ _ => rfl) trivial
  | deallocBad => exact iff_of_true hA trivial
  | dealloc => exact iff_of_true (hA.untouched rfl rfl fun _ _ => rfl) trivial
  | threadNone hq =>
    simp only [AState.mark, AState.markKeep, hq]
    exact iff_of_true hA trivial
  | thread hq hal =>
    simp only [AState.mark, AState.markKeep, hq]
    exact iff_of_true (hA.spawn hal.queue.1 (by cases hal <;> rfl)) trivial
  | terminateBad => exact iff_of_true hA trivial
  | terminate => exact iff_of_true (hA.left hW rfl rfl rfl) trivial
  | semInitBad => exact iff_of_true hA trivial
  | semInit => exact iff_of_true hA.inited trivial
  | waitBad hv =>
    simp only [AState.mark, AState.markKeep, hv, if_true]
    refine iff_of_true hA fun n hn => ?_
    rw [hW.sem, hv] at hn
    cases hn
  | waitPass hv hp =>
    refine iff_of_true (hA.untouched rfl (count_isInit _) fun s _ => ?_) fun n hn => ?_
    · simp only [AState.mark, AState.markKeep, hv]
      rfl
    · rw [hW.sem] at hn ⊢
      cases hv.symm.trans hn
      exact hp
  | @waitBlock u b i x hv hneg _ =>
    refine iff_of_false (not_agree_blocked (validSem_init hv)) fun hN => ?_
    have hpass := hN x (hW.sem ▸ hv)
    rw [hW.sem] at hpass
    omega
  | @waitWild u b i x ys zs hv _ hq =>
    refine absurd ?_ (hw x)
    rw [AState.Wild, hq]
    simp
  | signalBad => exact iff_of_true hA trivial
  | signalPass => exact iff_of_true (hA.untouched rfl (count_isInit _) fun _ _ => rfl) trivial
  -- nobody waits, so there is nobody to wake
  | signalWake hv _ _ hq =>
    rw [hA.blocked _ (validSem_init hv)] at hq
    cases hq
  | signalSplice => exact iff_of_true (hA.signalled fun s hs => by simpa using hs) trivial
  | signalWild _ _ _ hp => exact iff_of_true (hA.signalled fun s hs => hp.mem_iff.1 hs) trivial
  | destroyBad hv =>
    simp only [AState.mark, AState.markKeep, hv]
    exact iff_of_true hA trivial
  | destroy hv =>
    simp only [AState.mark, AState.markKeep, hv]
    exact iff_of_true ((hA.retired (validSem_init hv)).keep (fun _ hs => hs) (fun _ _ => rfl) fun _ hn =>
      .inr ⟨hn, rfl⟩) trivial

/-! ### Runs -/

theorem boot_agrees (hk : boot M = .ok k) : StateAgrees k := by
  obtain ⟨k', h, hW⟩ := boot_ok M
  cases h.symm.trans hk
  have hw : ∀ n, ¬ (bootState M).Wild n := fun n hn => by simp [AState.Wild, bootState] at hn
  refine (agrees_iff hW hw (run_not_blocked (.init hk))).2 ⟨fun s hs => ?_, fun n hn => ?_⟩
  · simp [bootState] at hs
  · simp [AState.IsInit, bootState] at hn

/-- One step more of a run whose signals find a waiting task. -/
theorem Step.agrees_iff (hr : KRun M tr k) (hS : ∀ t ∈ tr, WakesWaiter t.before t.event) (hP : StateAgrees k)
    (hst : Step k e o k') (he : WakesWaiter k e) : StateAgrees k' ↔ NoWait k e := by
  obtain ⟨a, hW, hw⟩ := run_wakes hr hS
  obtain ⟨a', h, hW'⟩ := hst.refines hW
  have hA := (Zeos.agrees_iff hW hw (run_not_blocked hr)).1 hP
  rw [Zeos.agrees_iff hW' (h.not_wild hW he hw) (run_not_blocked (hr.step hst)), (hst.marked hW).after]
  refine h.agree hW hw (fun hu => ?_) hA
  rw [← hW.current, ← hW.idle]
  exact hst.1 hu

/-- **The `state` field agrees with the queues**, in a run whose signals find a waiting task when they are to wake
one, exactly as long as no wait takes the CPU from its caller. -/
theorem state_exact (hr : KRun M tr k) (hS : ∀ t ∈ tr, WakesWaiter t.before t.event) :
    (∀ t ∈ tr, StateAgrees t.after) ↔ ∀ t ∈ tr, NoWait t.before t.event := by
  -- on the run, with the agreement of its last state
  have key : ((∀ t ∈ tr, StateAgrees t.after) ↔ ∀ t ∈ tr, NoWait t.before t.event) ∧
      ((∀ t ∈ tr, NoWait t.before t.event) → StateAgrees k) := by
    refine hr.induct (P := fun tr k => (∀ t ∈ tr, WakesWaiter t.before t.event) →
      ((∀ t ∈ tr, StateAgrees t.after) ↔ ∀ t ∈ tr, NoWait t.before t.event) ∧
      ((∀ t ∈ tr, NoWait t.before t.event) → StateAgrees k)) (fun k hk _ => ?_) ?_ hS
    · exact ⟨by simp, fun _ => boot_agrees hk⟩
    · intro tr k e o k' hr ih hst hS
      have hS' := fun t ht => hS t (List.mem_cons_of_mem _ ht)
      obtain ⟨hiff, hlast⟩ := ih hS'
      have hstep := fun hP => hst.agrees_iff hr hS' hP (hS _ List.mem_cons_self)
      rw [List.forall_mem_cons, List.forall_mem_cons, hiff]
      refine ⟨and_congr_left fun hN => hstep (hlast hN), fun h => ?_⟩
      exact (hstep (hlast h.2)).2 h.1
  exact key.1

/-- The first task initialises a semaphore with 0 and waits on it: it has left the CPU for the list
of the semaphore, and is `ST_RUN`. -/
theorem wait_runs : ∃ t₁ t₂ k, KRun aMachine [t₂, t₁] k ∧
    t₁.event = .sysenter (.semInit 0 0) someStack 1000 ∧ t₂.event = .sysenter (.semWait 0) someStack 1000 ∧
    Live k 1 ∧ k.current = 0 ∧ OnBlocked k 1 ∧ (k.task 1).state = .ST_RUN ∧ ¬ StateAgrees k := by
  obtain ⟨k₀, o₁, k₁, hr₀, hs₁, hW₁, hR₁, -⟩ := semInit_run aMachine 0 1000
  set a := (bootState aMachine).semInit 0 0
  have hv : validSem a.sem 0 false = some 0 := rfl
  have hw : ¬ a.Wild 0 := by simp [AState.Wild, a, AState.semInit, AState.put, AState.setSem, bootState]
  have hq : a.queue .readyqueue = [] := by simp [a, AState.semInit, AState.put, AState.setSem, bootState]
  obtain ⟨o₂, k₂, hs₂, hsw, hW₂⟩ := waitBlock_step hW₁ hR₁.user hR₁.data hv (by decide) hw
    (show _ ∨ a.queue .readyqueue = [.task 0] from .inl hq) 1000
  set a₂ := ((a.count 0 (-1)).push (.blocked 0) a.current).dispatch 1000
  have hr₂ := (hr₀.step hs₁).step hs₂
  have hq₂ : a₂.queue .readyqueue = [] := by
    simp [a₂, AState.dispatch, AState.push, AState.put, AState.count, AState.setSem, hq]
  have hw₂ : ¬ a₂.Wild 0 := by simp [AState.Wild, hq₂]
  have hi₂ : a₂.IsInit 0 := rfl
  have hlive : Live k₂ 1 := hW₂.live_iff.2 (by
    simp [AState.Live, a₂, AState.dispatch, AState.push, AState.put, AState.count, AState.setSem, a,
      AState.semInit, bootState, bootFree])
  have hcur : k₂.current = 0 := hW₂.current
  have hon : OnBlocked k₂ 1 := by
    refine ⟨0, by rw [hW₂.sem]; exact hi₂, ?_⟩
    rw [hW₂.members_blocked hi₂ hw₂]
    simp [a₂, AState.dispatch, AState.push, AState.put, AState.count, AState.setSem, a, AState.semInit, bootState]
  have hst : (k₂.task 1).state = .ST_RUN := by
    have hm : (marks k₂).state 1 = Function.update (marks k₁).state
        (((a.count 0 (-1)).push (.blocked 0) a.current).switch 1000).incoming .ST_RUN 1 := by
      rw [(hs₂.marked hW₁).after, hsw]
      rfl
    have hin : (((a.count 0 (-1)).push (.blocked 0) a.current).switch 1000).incoming ≠ 1 := by
      rw [show (((a.count 0 (-1)).push (.blocked 0) a.current).switch 1000).incoming = 0 from rfl]
      decide
    rw [Function.update_of_ne (Ne.symm hin)] at hm
    exact hm.trans hW₁.run
  refine ⟨_, _, k₂, hr₂, rfl, rfl, hlive, hcur, hon, hst, fun hA => ?_⟩
  have hne : (1 : Slot) ≠ k₂.idleTask := by
    rw [hW₂.idle]
    decide
  have hB := (hA 1 hlive hne).2.1.2 hon
  rw [hst] at hB
  cases hB

/-- A child is made, and its parent enters and leaves a semaphore that lets one in: the field agrees. -/
theorem state_exact_fork : ∃ tr k, KRun aMachine tr k ∧
    tr.map (·.event) = [.sysenter (.semSignal 0) someStack 1000, .sysenter (.semWait 0) someStack 1000,
      .sysenter (.semInit 0 1) someStack 1000, .sysenter .fork someStack 1000] ∧
    OnReady k 2 ∧ (k.task 2).state = .ST_READY ∧ StateAgrees k := by
  obtain ⟨tr, k₁, a₁, hr₁, he, -, hW₁, hP₁⟩ := pair_run aMachine 1
  obtain ⟨o₂, k₂, hs₂, -, hW₂⟩ := semWait_step hW₁ hP₁.user hP₁.data_current hP₁.valid
    (by rw [hP₁.sem]; decide) 1000
  have hP₂ := hP₁.counted (-1)
  obtain ⟨o₃, k₃, hs₃, -, hW₃⟩ := signalPass_step hW₂ hP₂.user hP₂.data_current hP₂.valid
    (hP₂.not_wild (by simp)) (by rw [hP₂.sem]; decide) 1000
  have hP₃ := hP₂.counted 1
  have hr₃ := (hr₁.step hs₂).step hs₃
  have hlast : ∀ t ∈ tr, t.event = .sysenter (.semInit 0 1) someStack 1000 ∨ t.event = .sysenter .fork someStack 1000 :=
    fun t ht => by
      have hmem := List.mem_map_of_mem (f := (·.event)) ht
      rw [he] at hmem
      simpa using hmem
  have hS : ∀ t ∈ (⟨k₂, .sysenter (.semSignal 0) someStack 1000, o₃, k₃⟩ ::
      ⟨k₁, .sysenter (.semWait 0) someStack 1000, o₂, k₂⟩ :: tr : KTrace), WakesWaiter t.before t.event := by
    refine List.forall_mem_cons.2 ⟨fun n hn hle => ?_, List.forall_mem_cons.2 ⟨trivial, fun t ht => ?_⟩⟩
    · rw [hW₂.sem] at hn hle
      cases hP₂.valid.symm.trans hn
      rw [hP₂.sem] at hle
      exact absurd hle (by decide)
    · rcases hlast t ht with h | h <;> rw [h] <;> trivial
  have hN : ∀ t ∈ (⟨k₂, .sysenter (.semSignal 0) someStack 1000, o₃, k₃⟩ ::
      ⟨k₁, .sysenter (.semWait 0) someStack 1000, o₂, k₂⟩ :: tr : KTrace), NoWait t.before t.event := by
    refine List.forall_mem_cons.2 ⟨trivial, List.forall_mem_cons.2 ⟨fun n hn => ?_, fun t ht => ?_⟩⟩
    · rw [hW₁.sem] at hn ⊢
      cases hP₁.valid.symm.trans hn
      rw [hP₁.sem]
      decide
    · rcases hlast t ht with h | h <;> rw [h] <;> trivial
  have hA : StateAgrees k₃ := (state_exact hr₃ hS).2 hN _ List.mem_cons_self
  have hready : OnReady k₃ 2 := hW₃.onReady_iff.2 (by rw [hP₃.ready]; exact List.mem_cons_self)
  have hmem : .task 2 ∈ (((a₁.count 0 (-1)).count 0 1)).queue .readyqueue := hW₃.onReady_iff.1 hready
  have hlive : Live k₃ 2 := hW₃.live_iff.2 (hW₃.toShape.mem_live Heads.ready (by simp) hmem)
  have hidle : (2 : Slot) ≠ k₃.idleTask := by
    rw [hW₃.idle, hP₃.idle]
    decide
  refine ⟨_, k₃, hr₃, ?_, hready, (hA 2 hlive hidle).1.2 hready, hA⟩
  simp only [List.map_cons, he]

/-- The test of `update_process_state_rr` is right in a state that agrees: a task that is not
`ST_RUN` is on a queue, from which it has to be unlinked. -/
theorem StateAgrees.unlink (h : StateAgrees k) (hl : Live k s) (hi : s ≠ k.idleTask) :
    (k.task s).state ≠ .ST_RUN ↔ OnReady k s ∨ OnBlocked k s := by
  obtain ⟨h1, h2, -⟩ := h s hl hi
  rw [← h1, ← h2]
  cases (k.task s).state <;> simp

end Zeos
