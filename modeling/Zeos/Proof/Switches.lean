import Zeos.Proof.Progress

/-!
# Task switches

A switch saves the frame pointer of the task that leaves the CPU and loads the one
that was saved last for the task that gets it. `inner_task_switch` reads the one to be
loaded before the other is saved, so that a task that gives the CPU to itself is sent
back to where it had left it the time before.

* `switch_consistent_iff`: **the pointer loaded is the one saved last, except when the
  task switches to itself** from another place than the time before.
* `yield_alone`: the first task yields with nobody else ready, and is lost.
-/

namespace Zeos

open Execution

/-- The switch of kernel stacks that a step makes, whether it comes back or not. -/
def switchOf : Except Fault (Out × Kernel) → Option Switch
  | .ok (o, _) => o.switch
  | .error (.stack sw) => some sw
  | .error _ => none

/-- The stack pointer saved last for a task in the run `tr`: by its last switch-out or by its
creation. `init_idle` saves one for idle, nothing does for task 1. -/
def lastSaved : KTrace → Slot → StackPtr
  | [], s => if s = 0 then some (0, kernelStackSize - 2) else none
  | t :: tr, s =>
    match t.out.switch with
    | some sw => if s = sw.outgoing then sw.saved else lastSaved tr s
    | none => if ¬ Live t.before s ∧ Live t.after s then (t.after.task s).registerEsp else lastSaved tr s

/-- The pointer that switch `sw` loads after the run `tr` is the one saved last, by `sw` itself
when a task switches to itself. -/
def Consistent (tr : KTrace) (sw : Switch) : Prop :=
  sw.loaded = if sw.incoming = sw.outgoing then sw.saved else lastSaved tr sw.incoming

/-- The frame pointer that the event finds. -/
def Event.ebp : Event → ℕ
  | .sysenter _ _ b => b
  | .clock b => b
  | _ => 0

/-- If the event gives the CPU away then the current task gets it back: it yields with nobody
ready, or waits on a semaphore whose head is the first of `readyqueue`. -/
def ToItself (k : Kernel) : Event → Prop
  | .sysenter .yield _ _ => members k .readyqueue = []
  | .sysenter (.semWait i) _ _ =>
    ∃ n, validSem k.listSem i false = some n ∧ (members k .readyqueue).head? = some (.blocked n)
  | _ => False

variable {k k' : Kernel} {a a' a₁ : AState} {e : Event} {M : Machine} {tr : KTrace} {o : Out}
  {s : Slot} {b : ℕ} {sw : Option Switch}

/-! ### The next task -/

/-- Whoever is next was live. -/
theorem WF.next_live (hW : WF k a) (hi : a₁.idle = a.idle)
    (hq : ∀ t, .task t ∈ a₁.queue .readyqueue → .task t ∈ a.queue .readyqueue ∨ t = a.current) :
    a.Live a₁.next := by
  unfold AState.next
  split
  · rename_i t xs hx
    rcases hq t (by rw [hx]; exact List.mem_cons_self) with h | rfl
    · exact hW.toShape.mem_live Heads.ready (by simp) h
    · exact hW.current_live
  · rw [hi]
    exact hW.idle_live

/-! ### Steps and saved pointers -/

/-- A switch of the abstract kernel: what it saves and loads, and that it leaves the other
saved pointers alone. -/
structure Switched (a : AState) (e : Event) (sw : Switch) (a' : AState) : Prop where
  outgoing : sw.outgoing = a.current
  saved : sw.saved = some (a.current, e.ebp)
  loaded : sw.loaded = a.esp sw.incoming
  live : a.Live sw.incoming
  esp : a'.esp = Function.update a.esp a.current sw.saved
  kept : ∀ t, a'.Live t → a.Live t

theorem Switched.dispatch (hW : WF k a) (hc : a₁.current = a.current) (he : a₁.esp = a.esp)
    (hi : a₁.idle = a.idle) (hb : b = e.ebp)
    (hq : ∀ t, .task t ∈ a₁.queue .readyqueue → .task t ∈ a.queue .readyqueue ∨ t = a.current)
    (hl : ∀ t, a₁.Live t → a.Live t) : Switched a e (a₁.switch b) (a₁.dispatch b) where
  outgoing := hc
  saved := by rw [AState.switch, hc, hb]
  loaded := by rw [AState.switch, he]
  live := hW.next_live hi hq
  esp := by
    simp only [AState.dispatch, AState.switch, AState.put, he, hc]
  kept t ht := hl t (dispatch_live.1 ht)

theorem push_ready_mem {hd : Node} {t : Slot} (h : .task t ∈ (a.push hd s).queue .readyqueue) :
    .task t ∈ a.queue .readyqueue ∨ t = s := by
  by_cases hd' : hd = .readyqueue
  · subst hd'
    simpa [AState.push, AState.put] using h
  · exact .inl (by simpa [AState.push, AState.put, Ne.symm hd'] using h)

theorem push_live {hd : Node} {t : Slot} (h : (a.push hd s).Live t) : a.Live t := by
  intro hm
  apply h
  by_cases hd' : hd = .freequeue
  · subst hd'
    simp [AState.push, AState.put, hm]
  · simpa [AState.push, AState.put, Ne.symm hd'] using hm

/-- The switch of a task that ends. -/
theorem Switched.leave (hW : WF k a) (hc : a₁.current = a.current) (he : a₁.esp = a.esp)
    (hi : a₁.idle = a.idle) (hq : a₁.queue = a.queue) (hb : b = e.ebp) :
    Switched a e ((a.push .freequeue a.current).switch b) (a₁.leave b) := by
  have hsw : (a.push .freequeue a.current).switch b = (a₁.push .freequeue a₁.current).switch b := by
    simp only [AState.switch, AState.next, AState.push, AState.put, hc, he, hi, hq]
  rw [hsw]
  refine .dispatch hW hc he hi hb (fun t ht => ?_) fun t ht => ?_
  · rw [← hq, ← hc]
    exact push_ready_mem ht
  · rw [AState.Live, ← hq]
    exact push_live ht

/-- **What a step with a switch does to the saved pointers.** -/
theorem AStep.switched {sw : Switch} (hW : WF k a) (h : AStep a e (some sw) a') : Switched a e sw a' := by
  generalize hsw : some sw = x at h
  cases h with
  | clockSwitch _ _ =>
    cases hsw
    exact .dispatch hW rfl rfl rfl rfl (fun _ => push_ready_mem) fun _ => push_live
  | yield =>
    cases hsw
    exact .dispatch hW rfl rfl rfl rfl (fun _ => push_ready_mem) fun _ => push_live
  | @exit u b =>
    cases hsw
    exact .leave hW rfl rfl rfl rfl rfl
  | @terminate u b hm =>
    cases hsw
    exact .leave hW rfl rfl rfl rfl rfl
  | waitBlock hv =>
    cases hsw
    exact .dispatch hW rfl rfl rfl rfl (fun _ h => push_ready_mem h) fun _ h => push_live h
  | @waitWild u b i n ys zs hv _ hq =>
    cases hsw
    refine .dispatch hW rfl rfl rfl rfl (fun t ht => ?_) fun t ht => ?_
    · rw [hq]
      simp only [AState.put, Function.update_self, List.mem_append, List.mem_cons, Node.task.injEq,
        reduceCtorEq, false_or] at ht ⊢
      tauto
    · simpa [AState.Live, AState.put, AState.count, AState.setSem] using ht
  | _ => cases hsw

/-- A step without a switch leaves the saved pointers of the live tasks alone. -/
theorem AStep.esp_kept (h : AStep a e none a') (hs : a.Live s) : a'.esp s = a.esp s := by
  generalize hsw : none = x at h
  cases h with
  | alloc hA => cases hA <;> rfl
  | forkFail hq => exact Function.update_of_ne (by rintro rfl; exact not_live hq hs) _ _
  | forkOk hq => exact Function.update_of_ne (by rintro rfl; exact not_live hq hs) _ _
  | @thread _ _ _ _ _ c _ a₁ hq hA =>
    have hsc : s ≠ c := fun h => not_live hq (h ▸ hs)
    have he : a₁.esp = a.esp := by cases hA <;> rfl
    exact (Function.update_of_ne hsc _ _).trans (congrFun he s)
  | clockSwitch => cases hsw
  | yield => cases hsw
  | exit => cases hsw
  | terminate => cases hsw
  | waitBlock => cases hsw
  | waitWild => cases hsw
  | _ => rfl

/-- **Saved pointers along a run.** -/
theorem run_saved (hr : KRun M tr k) : ∃ a, WF k a ∧ ∀ s, a.Live s → a.esp s = lastSaved tr s := by
  refine hr.induct (P := fun tr k => ∃ a, WF k a ∧ ∀ s, a.Live s → a.esp s = lastSaved tr s)
    (fun k hk => ?_) ?_
  · obtain ⟨k', h, hW⟩ := boot_ok M
    cases h.symm.trans hk
    exact ⟨_, hW, fun s _ => rfl⟩
  · intro tr k e o k' _ ih hst
    obtain ⟨a, hW, hA⟩ := ih
    obtain ⟨a', h, hW'⟩ := hst.refines hW
    refine ⟨a', hW', fun s hs => ?_⟩
    cases hsw : o.switch with
    | some sw =>
      rw [hsw] at h
      have hS := h.switched hW
      simp only [lastSaved, hsw]
      rw [hS.esp, hS.outgoing]
      by_cases hc : s = a.current
      · rw [if_pos hc, hc, Function.update_self]
      · rw [if_neg hc, Function.update_of_ne hc]
        exact hA s (hS.kept s hs)
    | none =>
      rw [hsw] at h
      simp only [lastSaved, hsw]
      by_cases hl : a.Live s
      · rw [if_neg (fun hh => hh.1 (hW.live_iff.2 hl)), h.esp_kept hl]
        exact hA s hl
      · rw [if_pos ⟨mt hW.live_iff.1 hl, hW'.live_iff.2 hs⟩]
        exact (hW'.esp s).symm

/-! ### Who gets the CPU -/

/-- The current task gets the CPU back from its own switch in the cases of `ToItself` only. -/
theorem AStep.self_iff {sw : Switch} (hW : WF k a) (hc : a.current ≠ a.idle)
    (h : AStep a e (some sw) a') : sw.incoming = a.current ↔ ToItself k e := by
  have hready := hW.members_ready
  have hhead : ∀ {xs : List Node}, xs.head? = some (.task a.current) → .task a.current ∈ xs := fun h =>
    List.mem_of_mem_head? (by rw [h]; rfl)
  generalize hsw : some sw = x at h
  cases h with
  -- the current task is on no queue, so it is not the head of one it was appended to
  | clockSwitch _ hne =>
    cases hsw
    refine iff_of_false (next_ne (a.push .readyqueue a.current) hc rfl fun h => ?_) id
    obtain ⟨x, xs, hq⟩ := List.exists_cons_of_ne_nil hne
    have hx : x = .task a.current := by simpa [AState.push, AState.put, hq] using h
    exact hW.not_ready (by rw [hq, hx]; exact List.mem_cons_self)
  -- with an empty `readyqueue` the caller is its own successor
  | yield =>
    cases hsw
    have hnext := next_iff (a := a.push .readyqueue a.current) hc
    refine hnext.trans ?_
    show _ ↔ members k .readyqueue = []
    rw [hready]
    cases hq : a.queue .readyqueue with
    | nil => simp [AState.push, AState.put, hq]
    | cons x xs =>
      refine iff_of_false (fun h => ?_) (by simp)
      have hx : x = .task a.current := by simpa [AState.push, AState.put, hq] using h
      exact hW.not_ready (by rw [hq, hx]; exact List.mem_cons_self)
  -- its slot went to `freequeue`
  | exit =>
    cases hsw
    refine iff_of_false (next_ne (a.push .freequeue a.current) hc rfl fun h => ?_) id
    exact hW.not_ready (hhead (by simpa [AState.push, AState.put] using h))
  | terminate hm =>
    cases hsw
    refine iff_of_false (next_ne (a.push .freequeue a.current) hc rfl fun h => ?_) id
    exact hW.not_ready (hhead (by simpa [AState.push, AState.put] using h))
  | @waitBlock u b i n hv _ hw =>
    cases hsw
    refine iff_of_false (next_ne ((a.count n (-1)).push (.blocked n) a.current) hc rfl fun h => ?_) ?_
    · exact hW.not_ready (hhead (by simpa [AState.push, AState.put, AState.count, AState.setSem] using h))
    · rintro ⟨m, hm, hh⟩
      rw [hready] at hh
      rw [hW.sem, hv] at hm
      cases hm
      exact hw (List.mem_of_mem_head? (by rw [hh]; rfl))
  -- the caller was put in front of the head that is on `readyqueue`
  | @waitWild u b i n ys zs hv _ hq =>
    cases hsw
    have hnext := next_iff (a := (a.count n (-1)).put .readyqueue (ys ++ .task a.current :: .blocked n :: zs)) hc
    refine hnext.trans ?_
    show _ ↔ ∃ m, validSem k.listSem i false = some m ∧ (members k .readyqueue).head? = some (.blocked m)
    rw [hready, hW.sem, hv]
    cases ys with
    | nil => simp [AState.put, hq]
    | cons y ys =>
      -- the head of the semaphore is on `readyqueue` once, behind the first
      have hnd := (List.nodup_cons.1 (hW.queues.nodup Heads.ready)).2
      have hn := hW.not_ready
      rw [hq] at hnd hn
      have hy : y ≠ .blocked n := by
        rintro rfl
        simp at hnd
      have hy' : y ≠ .task a.current := by
        rintro rfl
        simp at hn
      simp [AState.put, hq, hy, hy']
  | _ => cases hsw

/-- Where a step that makes a switch is a step of the abstract kernel. -/
theorem switchOf_step (hW : WF k a) (hu : e.ofUser = true → k.current ≠ k.idleTask) {sw : Switch}
    (hsw : switchOf (step k e) = some sw) : a.current ≠ a.idle ∧ ∃ a', AStep a e (some sw) a' := by
  have h := step_outcome (e := e) hW fun he => by rw [← hW.current, ← hW.idle]; exact hu he
  have hA : ∃ a', AStep a e (some sw) a' := by
    revert h hsw
    cases step k e with
    | ok r =>
      rintro hsw ⟨a', h, -⟩
      exact ⟨a', (show r.1.switch = some sw from hsw) ▸ h⟩
    | error f =>
      cases f with
      | stack sw' =>
        intro hsw h
        cases hsw
        exact h
      | _ => intro hsw; cases hsw
  obtain ⟨a', hA⟩ := hA
  refine ⟨?_, a', hA⟩
  rw [← hW.current, ← hW.idle]
  by_cases he : e.ofUser = true
  · exact hu he
  · rw [hW.current, hW.idle]
    generalize hx : some sw = x at hA
    cases hA with
    | clockSwitch hc _ => exact hc
    | noop => cases hx
    | clock => cases hx
    | _ => exact absurd rfl he

/-- **A switch loads the pointer saved last**, except that of a task to itself. -/
theorem switch_consistent_iff (hr : KRun M tr k) (hu : e.ofUser = true → k.current ≠ k.idleTask)
    {sw : Switch} (hsw : switchOf (step k e) = some sw) :
    Consistent tr sw ↔ ¬ ToItself k e ∨ (k.task k.current).registerEsp = some (k.current, e.ebp) := by
  obtain ⟨a, hW, hA⟩ := run_saved hr
  obtain ⟨hc, a', h⟩ := switchOf_step hW hu hsw
  have hS := h.switched hW
  have hself := h.self_iff hW hc
  unfold Consistent
  rw [hS.loaded, hS.outgoing, hS.saved, hW.esp, hW.current]
  by_cases hi : sw.incoming = a.current
  · rw [if_pos hi, hi]
    exact ⟨.inr, fun h => h.resolve_left fun hn => hn (hself.1 hi)⟩
  · rw [if_neg hi]
    exact iff_of_true (hA _ hS.live) (.inl fun hn => hi (hself.2 hn))

/-- The first task ends: idle gets the CPU where `init_idle` had put it. -/
theorem switch_consistent_iff_exit : ∃ k sw, KRun aMachine [] k ∧
    switchOf (step k (.sysenter .exit someStack 1000)) = some sw ∧ sw.outgoing = 1 ∧ sw.incoming = 0 ∧
    Consistent [] sw := by
  obtain ⟨k, o, k', hr, hW, hs, -⟩ := boot_exit_step aMachine 1000
  obtain ⟨a', h, -⟩ := hs.refines hW
  have hsw : ∃ sw, o.switch = some sw ∧ sw.outgoing = 1 ∧ sw.incoming = 0 := by
    generalize ho : o.switch = x at h
    cases h with
    | noop he => cases he
    | exit => exact ⟨_, rfl, rfl, rfl⟩
  obtain ⟨sw, ho, h1, h0⟩ := hsw
  have hof : switchOf (step k (.sysenter .exit someStack 1000)) = some sw := by
    rw [hs.2]
    exact ho
  exact ⟨k, sw, hr, hof, h1, h0, (switch_consistent_iff hr hs.1 hof).2 (.inl id)⟩

/-- The first task yields with nobody else ready: its own stack pointer, never saved before, is
null. -/
theorem yield_alone : ∃ k sw, KRun aMachine [] k ∧ k.current ≠ k.idleTask ∧
    switchOf (step k (.sysenter .yield someStack 1000)) = some sw ∧ sw.incoming = sw.outgoing ∧
    sw.saved = some (1, 1000) ∧ sw.loaded = none ∧ ¬ Consistent [] sw := by
  obtain ⟨k, hr, hW⟩ := boot_run aMachine
  have hR := boot_ready aMachine
  obtain ⟨k₁, h1, hW₁⟩ := enterCall_ok hW hR.data
  obtain ⟨k₂, h2, hS⟩ := forceTaskSwitch_eq hW₁ hR.user 1000 .sysYield
  set a := (bootState aMachine).push .readyqueue (bootState aMachine).current
  have hnext : a.next = 1 := rfl
  have hesp : a.esp a.next = none := rfl
  have hstep : step k (.sysenter .yield someStack 1000) = schedNextRr k₂ 1000 .sysYield := by
    rw [← h2]
    simp only [step, systemCallHandler, h1]
    rfl
  have hall : schedNextRr k₂ 1000 .sysYield = .error (.stack (a.switch 1000)) := by
    rcases schedNextRr_cases hS 1000 .sysYield with ⟨n, xs, hq, -⟩ | ⟨-, h⟩ | ⟨h, -, -⟩
    · cases hq
    · exact h
    · exact absurd hesp h
  refine ⟨k, a.switch 1000, hr, ?_, by rw [hstep, hall]; rfl, hnext, rfl, hesp, ?_⟩
  · rw [hW.current, hW.idle]
    exact hR.user
  · intro h
    unfold Consistent at h
    rw [if_pos (show (a.switch 1000).incoming = (a.switch 1000).outgoing from hnext)] at h
    cases hesp.symm.trans h

end Zeos
