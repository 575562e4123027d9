import Zeos.Proof.RoundRobin

/-!
# What a destroyed semaphore tells its waiters

`sys_sem_destroy` makes the tasks on the list ready and sets their `destroyed` flag, which
each reads and clears when it gets the CPU back.

* `AStep.flag`: who has the flag after a step.
* `run_noticed`: **only tasks on their way out of `sys_sem_wait` have it.**
* `destroy_notified`: **a wait returns -1 exactly if its semaphore was destroyed while its
  task was on the list**, in every run that keeps the counters in range.
-/

namespace Zeos

open Execution

variable {k k' : Kernel} {a a' : AState} {m : Marks} {e : Event} {M : Machine} {tr tr₁ tr₂ : KTrace} {o : Out} {n : Sem}
  {s t c : Slot} {b : ℕ} {sw : Option Switch} {D : Prop} {w r : Transition Kernel Event Out}

/-! ### Waits and what becomes of them -/

/-- The transition is a call of `sys_sem_wait` by `s`, on the initialised semaphore `n`. -/
def Waits (x : Transition Kernel Event Out) (s : Slot) (n : Sem) : Prop :=
  match x.event with
  | .sysenter (.semWait i) _ _ => x.before.current = s ∧ validSem x.before.listSem i false = some n
  | _ => False

/-- The transition destroys semaphore `n` with `s` on its list. -/
def DestroysOver (x : Transition Kernel Event Out) (s : Slot) (n : Sem) : Prop :=
  match x.event with
  | .sysenter (.semDestroy i) _ _ =>
    validSem x.before.listSem i false = some n ∧ .task s ∈ members x.before (.blocked n)
  | _ => False

/-- `s` gets the CPU from another task. -/
def Regains (x : Transition Kernel Event Out) (s : Slot) : Prop := ∃ sw, x.out.switch = some sw ∧ sw.incoming = s

theorem Waits.call {x : Transition Kernel Event Out} (h : Waits x s n) : ∃ i u b, x.event = .sysenter (.semWait i) u b ∧
    x.before.current = s ∧ validSem x.before.listSem i false = some n := by
  unfold Waits at h
  split at h
  · rename_i i u b he
    exact ⟨i, u, b, he, h⟩
  · exact h.elim

/-- `s` left the CPU in `w`, waiting on `n`, and has not had it in what followed, `tr`. -/
structure Asleep (w : Transition Kernel Event Out) (tr : KTrace) (s : Slot) (n : Sem) : Prop where
  waits : Waits w s n
  left : w.out.switch ≠ none
  away : ∀ x ∈ tr, ¬ Regains x s

/-! ### The flag -/

/-- The event destroys `n` with `s` on its list. -/
def AState.Over (a : AState) (n : Sem) (s : Slot) : Event → Prop
  | .sysenter (.semDestroy i) _ _ => validSem a.sem i false = some n ∧ .task s ∈ a.queue (.blocked n)
  | _ => False

/-- Those with the flag, and those on a list of waiters, will go on in `sys_sem_wait`. -/
structure Noticed (a : AState) (m : Marks) : Prop where
  flag : ∀ s, m.destroyed s = true → .task s ∈ a.queue .readyqueue ∧ m.resume s = .sysSemWait
  wait : ∀ n s, a.IsInit n → .task s ∈ a.queue (.blocked n) → m.resume s = .sysSemWait

theorem WF.queued (hW : WF k a) {hd : Node} (hh : Heads a.IsInit a.queue hd) (hf : hd ≠ .freequeue)
    (hs : .task s ∈ a.queue hd) : a.Live s ∧ s ≠ a.current := by
  refine ⟨hW.toShape.mem_live hh hf hs, ?_⟩
  rintro rfl
  exact hW.queues.not_off hh hs (.inl rfl)

theorem Noticed.current (hN : Noticed a m) (hW : WF k a) : m.destroyed a.current = false := by
  rw [← Bool.not_eq_true]
  exact fun h => hW.not_ready (hN.flag _ h).1

theorem Noticed.free (hN : Noticed a m) (hW : WF k a) (hs : ¬ a.Live s) : m.destroyed s = false := by
  rw [← Bool.not_eq_true]
  exact fun h => hs (hW.queued Heads.ready (by simp) (hN.flag _ h).1).1

theorem child_destroyed {r : Resume} :
    (m.child t c r).destroyed s = if s = c then m.destroyed t else m.destroyed s := by
  by_cases h : s = c <;> simp [Marks.child, Marks.suspend, Marks.setState, Marks.copy, h]

theorem copy_destroyed : (m.copy t c).destroyed s = if s = c then m.destroyed t else m.destroyed s := by
  by_cases h : s = c <;> simp [Marks.copy, h]

theorem markKeep_destroyed (hW : WF k a) (hN : Noticed a m) :
    (a.markKeep m e).destroyed s = true ↔ m.destroyed s = true ∨ ∃ n, a.Over n s e := by
  -- a new task has the flag of the current one, which is not set
  have hnew : ∀ {c rest}, a.queue .freequeue = .task c :: rest →
      (if s = c then m.destroyed a.current else m.destroyed s) = m.destroyed s := by
    intro c rest hq
    split
    · rename_i h
      rw [hN.current hW, h, hN.free hW (not_live hq)]
    · rfl
  unfold AState.markKeep
  split
  · simp [AState.Over, Marks.tick]
  · split
    · rename_i c rest hq
      split
      · rw [child_destroyed, hnew hq]
        simp [AState.Over]
      · rw [copy_destroyed, hnew hq]
        simp [AState.Over]
    · simp [AState.Over]
  · split
    · rename_i c rest hq
      rw [child_destroyed, hnew hq]
      simp [AState.Over]
    · simp [AState.Over]
  · have hclear : (m.clear a.current).destroyed s = m.destroyed s := by
      by_cases h : s = a.current
      · rw [h, hN.current hW]
        simp [Marks.clear]
      · simp [Marks.clear, h]
    split
    · simp [AState.Over]
    · rw [hclear]
      simp [AState.Over]
  · split
    · rename_i n hv
      simp [AState.Over, Marks.destroy, hv, or_comm]
    · rename_i hv
      simp [AState.Over, hv]
  · rename_i h
    have hO : ∀ n, ¬ a.Over n s e := by
      intro n hO
      unfold AState.Over at hO
      split at hO
      · exact h _ _ _ rfl
      · exact hO
    simp [hO]

theorem AStep.over_keep (h : AStep a e sw a') (hO : a.Over n s e) : sw = none := by
  cases h <;> first | rfl | exact hO.elim

/-- **Who has the flag after a step**: who had it or was on the list of a semaphore that the
step destroys, and does not get the CPU. -/
theorem AStep.flag (hW : WF k a) (h : AStep a e sw a') (hN : Noticed a m) :
    (a.mark m e sw).destroyed s = true ↔
      (m.destroyed s = true ∨ ∃ n, a.Over n s e) ∧ ∀ x, sw = some x → x.incoming ≠ s := by
  cases sw with
  | none =>
    rw [and_iff_left fun x hx => by cases hx]
    exact markKeep_destroyed hW hN
  | some x =>
    have hO : ¬ ∃ n, a.Over n s e := fun ⟨n, hO⟩ => by cases h.over_keep hO
    rw [or_iff_left hO]
    set m₁ := if e.requeues = true then m.setState a.current .ST_READY else m
    have hd₁ : m₁.destroyed = m.destroyed := by
      show (if e.requeues = true then m.setState a.current .ST_READY else m).destroyed = _
      split <;> rfl
    have hr₁ : m₁.resume = m.resume := by
      show (if e.requeues = true then m.setState a.current .ST_READY else m).resume = _
      split <;> rfl
    have hmark : (a.mark m e (some x)).destroyed =
        if (Function.update m.resume a.current e.resume) x.incoming = .sysSemWait then
          Function.update m.destroyed x.incoming false else m.destroyed := by
      rw [← hd₁, ← hr₁]
      rfl
    rw [hmark]
    by_cases hs : x.incoming = s
    · refine iff_of_false (fun hd => ?_) fun hh => hh.2 x rfl hs
      split at hd
      · simp [hs] at hd
      · rename_i hne
        obtain ⟨hq, hr⟩ := hN.flag s hd
        have hc := (hW.queued Heads.ready (by simp) hq).2
        rw [hs, Function.update_of_ne hc] at hne
        exact hne hr
    · rw [and_iff_left fun y hy => by cases hy; exact hs]
      split
      · rw [Function.update_of_ne (Ne.symm hs)]
      · rfl

theorem child_resume {r : Resume} : (m.child t c r).resume s = if s = c then r else m.resume s := by
  by_cases h : s = c <;> simp [Marks.child, Marks.suspend, Marks.setState, Marks.copy, h]

theorem copy_resume : (m.copy t c).resume s = if s = c then m.resume t else m.resume s := by
  by_cases h : s = c <;> simp [Marks.copy, h]

/-- Where a live task goes on stays, except for the one that leaves the CPU. -/
theorem mark_resume (hl : a.Live s) (hc : s ≠ a.current) : (a.mark m e sw).resume s = m.resume s := by
  cases sw with
  | some x =>
    simp only [AState.mark, Marks.dispatch_resume, Function.update_of_ne hc]
    split <;> rfl
  | none =>
    show (a.markKeep m e).resume s = m.resume s
    have hne : ∀ {c rest}, a.queue .freequeue = .task c :: rest → s ≠ c := by
      rintro c rest hq rfl
      exact not_live hq hl
    unfold AState.markKeep
    split
    · rfl
    · split
      · rename_i c rest hq
        split
        · rw [child_resume, if_neg (hne hq)]
        · rw [copy_resume, if_neg (hne hq)]
      · rfl
    · split
      · rename_i c rest hq
        rw [child_resume, if_neg (hne hq)]
      · rfl
    · split <;> rfl
    · split <;> rfl
    · rfl

/-! ### The queues -/

theorem AStep.ready_stays (hW : WF k a) (hw : ∀ n, ¬ a.Wild n) (h : AStep a e sw a')
    (hs : .task s ∈ a.queue .readyqueue) (hi : ∀ x, sw = some x → x.incoming ≠ s) : .task s ∈ a'.queue .readyqueue := by
  cases sw with
  | none =>
    obtain ⟨xs, hxs⟩ := h.ready_keep hw
    rw [hxs]
    exact List.mem_append_left _ hs
  | some x =>
    obtain ⟨a₁, b, xs, rfl, hqa, -, hq₁, hnd⟩ := h.ready_switch hW hw
    obtain ⟨ys, zs, hq⟩ := List.append_of_mem (hq₁ ▸ List.mem_append_left xs hs)
    rcases dispatch_wait (b := b) hnd hq with ⟨hnext, -⟩ | ⟨y, ys', -, hd⟩
    · exact absurd hnext (hi _ rfl)
    · rw [hqa, hd]
      simp

/-- What a step can do to the list of semaphore `n`. -/
inductive ListStep (a : AState) (n : Sem) (e : Event) (sw : Option Switch) (a' : AState) : Prop
  | same : (a'.IsInit n ↔ a.IsInit n) → a'.queue (.blocked n) = a.queue (.blocked n) → (∀ s, ¬ a.Over n s e) →
    ListStep a n e sw a'
  | init : ¬ a.IsInit n → a'.queue (.blocked n) = [] → ListStep a n e sw a'
  | wait {i u b} : e = .sysenter (.semWait i) u b → validSem a.sem i false = some n → sw ≠ none → a'.IsInit n →
    a'.queue (.blocked n) = a.queue (.blocked n) ++ [.task a.current] → ListStep a n e sw a'
  | wake {t xs} : a.IsInit n → a'.IsInit n → a.queue (.blocked n) = .task t :: xs → a'.queue (.blocked n) = xs →
    .task t ∈ a'.queue .readyqueue → (∀ s, ¬ a.Over n s e) → ListStep a n e sw a'
  | destroy : a.IsInit n → ¬ a'.IsInit n → (∀ s, .task s ∈ a.queue (.blocked n) → .task s ∈ a'.queue .readyqueue) →
    ListStep a n e sw a'

theorem over_on (hO : a.Over n s e) : e.On a.sem n ∧ a.IsInit n ∧ .task s ∈ a.queue (.blocked n) := by
  unfold AState.Over at hO
  split at hO
  · exact ⟨hO.1, validSem_init hO.1, hO.2⟩
  · exact hO.elim

theorem AStep.list (hW : WF k a) (hw : ∀ n, ¬ a.Wild n) (h : AStep a e sw a') (n : Sem) : ListStep a n e sw a' := by
  by_cases hon : e.On a.sem n
  swap
  · have hF := h.frame hW hon
    refine .same ?_ hF.queue fun s hO => hon (over_on hO).1
    rw [AState.IsInit, hF.sem]
    rfl
  cases h.called hon with
  | init hv =>
    refine .init ?_ (by simp [AState.semInit, AState.put])
    simpa [AState.IsInit] using validSem_some hv
  | waitPass hv =>
    exact .same (by rw [count_isInit]) rfl fun s => id
  | @waitBlock u b i hv _ _ =>
    refine .wait rfl hv (by simp) ?_ (by simp [AState.dispatch, AState.push, AState.put, AState.count, AState.setSem])
    have hI : (a.count n (-1)).IsInit n := by
      rw [count_isInit]
      exact validSem_init hv
    exact hI
  | @waitWild u b i ys zs _ _ hq =>
    refine absurd ?_ (hw n)
    rw [AState.Wild, hq]
    simp
  | signalPass hv =>
    exact .same (by rw [count_isInit]) rfl fun s => id
  | @signalWake u b i t xs hv _ _ hq =>
    have hI : (a.count n 1).IsInit n := by
      rw [count_isInit]
      exact validSem_init hv
    exact .wake (validSem_init hv) hI hq (by simp [AState.push, AState.put]) (by simp [AState.push, AState.put])
      fun s => id
  | @signalSplice u b i hv _ _ hq =>
    have hI : (a.count n 1).IsInit n ↔ a.IsInit n := by rw [count_isInit]
    exact .same hI (by simp [AState.put, AState.count, AState.setSem]) fun s => id
  | signalWild _ _ hw' => exact absurd hw' (hw _)
  | destroy hv =>
    refine .destroy (validSem_init hv) (by simp [AState.IsInit, AState.semDestroy, AState.setSem]) fun s hs => ?_
    simp [AState.semDestroy, AState.put, AState.setSem, hs]

/-- A waiter stays on its list, or is made ready, by a signal or as the semaphore is destroyed. -/
theorem AStep.blocked_next (hW : WF k a) (hw : ∀ n, ¬ a.Wild n) (h : AStep a e sw a') (hi : a.IsInit n)
    (hs : .task s ∈ a.queue (.blocked n)) :
    a'.IsInit n ∧ .task s ∈ a'.queue (.blocked n) ∧ ¬ a.Over n s e ∨ .task s ∈ a'.queue .readyqueue := by
  cases h.list hW hw n with
  | same hI hq hO => exact .inl ⟨hI.2 hi, hq ▸ hs, hO s⟩
  | init hI => exact absurd hi hI
  | wait he _ _ hI hq =>
    refine .inl ⟨hI, hq ▸ List.mem_append_left _ hs, fun hO => ?_⟩
    rw [he] at hO
    exact hO
  | wake _ hI hq hq' ht hO =>
    rw [hq, List.mem_cons] at hs
    rcases hs with hs | hs
    · exact .inr (hs ▸ ht)
    · exact .inl ⟨hI, hq' ▸ hs, hO s⟩
  | destroy _ _ hr => exact .inr (hr s hs)

/-- A wait that takes the CPU from its caller puts it on the list. -/
theorem AStep.wait_blocks {i u : Word} (hw : ∀ n, ¬ a.Wild n) (h : AStep a (.sysenter (.semWait i) u b) sw a')
    (hv : validSem a.sem i false = some n) (hsw : sw ≠ none) :
    a'.IsInit n ∧ .task a.current ∈ a'.queue (.blocked n) := by
  cases h with
  | noop he => cases he
  | waitBad => exact absurd rfl hsw
  | waitPass => exact absurd rfl hsw
  | @waitBlock _ _ _ x hv' =>
    cases hv.symm.trans hv'
    have hI : (a.count n (-1)).IsInit n := by
      rw [count_isInit]
      exact validSem_init hv
    exact ⟨hI, by simp [AState.dispatch, AState.push, AState.put]⟩
  | @waitWild _ _ _ x ys zs _ _ hq =>
    refine absurd ?_ (hw x)
    rw [AState.Wild, hq]
    simp

/-- Only a wait puts a task on a list of waiters. -/
theorem AStep.blocked_from (hW : WF k a) (hw : ∀ n, ¬ a.Wild n) (h : AStep a e sw a') (hi : a'.IsInit n)
    (hs : .task s ∈ a'.queue (.blocked n)) : a.IsInit n ∧ .task s ∈ a.queue (.blocked n) ∨
      s = a.current ∧ sw ≠ none ∧ ∃ i u b, e = .sysenter (.semWait i) u b ∧ validSem a.sem i false = some n := by
  cases h.list hW hw n with
  | same hI hq => exact .inl ⟨hI.1 hi, hq ▸ hs⟩
  | init _ hq =>
    rw [hq] at hs
    cases hs
  | @wait i u b he hv hsw _ hq =>
    rw [hq] at hs
    rcases List.mem_append.1 hs with hs | hs
    · exact .inl ⟨validSem_init hv, hs⟩
    · cases List.mem_singleton.1 hs
      exact .inr ⟨rfl, hsw, i, u, b, he, hv⟩
  | wake hI _ hq hq' =>
    refine .inl ⟨hI, ?_⟩
    rw [hq]
    exact List.mem_cons_of_mem _ (hq' ▸ hs)
  | destroy _ hI => exact absurd hi hI

theorem AStep.noticed (hW : WF k a) (hw : ∀ n, ¬ a.Wild n) (h : AStep a e sw a') (hN : Noticed a m) :
    Noticed a' (a.mark m e sw) where
  flag s hs := by
    obtain ⟨hd | ⟨n, hO⟩, hi⟩ := (h.flag hW hN).1 hs
    · obtain ⟨hq, hr⟩ := hN.flag s hd
      obtain ⟨hl, hc⟩ := hW.queued Heads.ready (by simp) hq
      exact ⟨h.ready_stays hW hw hq hi, (mark_resume hl hc).trans hr⟩
    · obtain ⟨-, hn, hq⟩ := over_on hO
      obtain ⟨hl, hc⟩ := hW.queued (heads_blocked hn (hw n)) (by simp) hq
      refine ⟨?_, (mark_resume hl hc).trans (hN.wait n s hn hq)⟩
      exact (h.blocked_next hW hw hn hq).resolve_left fun hh => hh.2.2 hO
  wait n s hi hs := by
    rcases h.blocked_from hW hw hi hs with ⟨hn, hq⟩ | ⟨rfl, hsw, i, u, b, rfl, -⟩
    · obtain ⟨hl, hc⟩ := hW.queued (heads_blocked hn (hw n)) (by simp) hq
      exact (mark_resume hl hc).trans (hN.wait n s hn hq)
    · obtain ⟨x, rfl⟩ := Option.ne_none_iff_exists'.1 hsw
      simp [AState.mark, Event.resume]

/-! ### Runs -/

theorem WF.no_wild (hW : WF k a) (hr : KRun M tr k) (hC : ∀ x ∈ tr, CountInRange x.before x.event) (n : Sem) :
    ¬ a.Wild n := by
  obtain ⟨a₁, hW₁, hw, -⟩ := run_inRange hr hC
  rw [AState.Wild, ← hW.members_ready, hW₁.members_ready]
  exact hw n

theorem run_noticed (hr : KRun M tr k) (hC : ∀ x ∈ tr, CountInRange x.before x.event) :
    ∃ a, WF k a ∧ (∀ n, ¬ a.Wild n) ∧ Noticed a (marks k) := by
  refine hr.induct (P := fun tr k => (∀ x ∈ tr, CountInRange x.before x.event) → ∃ a, WF k a ∧
    (∀ n, ¬ a.Wild n) ∧ Noticed a (marks k)) (fun k h hC => ?_) (fun {tr k e o k'} hr ih hs hC => ?_) hC
  · obtain ⟨k', hk', hW⟩ := boot_ok M
    cases h.symm.trans hk'
    refine ⟨_, hW, hW.no_wild (.init h) hC, fun s hd => ?_, fun n s hi => ?_⟩
    · rw [boot_marks h] at hd
      cases hd
    · cases hi
  · obtain ⟨a, hW, hw, hN⟩ := ih fun x hx => hC x (List.mem_cons_of_mem _ hx)
    obtain ⟨a', h, hW'⟩ := hs.refines hW
    exact ⟨a', hW', hW'.no_wild (hr.step hs) hC, (hs.marked hW).after ▸ h.noticed hW hw hN⟩

theorem over_iff (hW : WF k a) (hw : ∀ n, ¬ a.Wild n) : DestroysOver ⟨k, e, o, k'⟩ s n ↔ a.Over n s e := by
  unfold DestroysOver
  split
  · rename_i i u b he
    cases he
    show validSem k.listSem i false = some n ∧ _ ↔ validSem a.sem i false = some n ∧ _
    rw [hW.sem]
    refine and_congr_right fun hv => ?_
    rw [hW.members_blocked (validSem_init hv) (hw n)]
  · rename_i he
    refine iff_of_false id fun hO => ?_
    unfold AState.Over at hO
    split at hO
    · exact he _ _ _ rfl
    · exact hO

/-- A task that waits on `n`: on the list, and `n` not destroyed since, or ready, with the flag
if it has been (`D`). -/
structure Pending (a : AState) (m : Marks) (n : Sem) (s : Slot) (D : Prop) : Prop where
  resume : m.resume s = .sysSemWait
  place : a.IsInit n ∧ .task s ∈ a.queue (.blocked n) ∧ ¬ D ∨ .task s ∈ a.queue .readyqueue ∧ (m.destroyed s = true ↔ D)

theorem Pending.queued (hP : Pending a m n s D) (hW : WF k a) (hw : ∀ n, ¬ a.Wild n) : a.Live s ∧ s ≠ a.current := by
  rcases hP.place with ⟨hi, hs, -⟩ | ⟨hs, -⟩
  · exact hW.queued (heads_blocked hi (hw n)) (by simp) hs
  · exact hW.queued Heads.ready (by simp) hs

theorem Noticed.blocked (hN : Noticed a m) (hW : WF k a) (hw : ∀ n, ¬ a.Wild n) (hi : a.IsInit n)
    (hs : .task s ∈ a.queue (.blocked n)) : m.destroyed s = false := by
  rw [← Bool.not_eq_true]
  intro hd
  have := hW.queues.unique (heads_blocked hi (hw n)) Heads.ready hs (hN.flag s hd).1
  cases this

theorem Pending.flag (hP : Pending a m n s D) (hW : WF k a) (hw : ∀ n, ¬ a.Wild n) (hN : Noticed a m) :
    m.destroyed s = true ↔ D := by
  rcases hP.place with ⟨hi, hs, hD⟩ | ⟨-, h⟩
  · rw [hN.blocked hW hw hi hs]
    exact iff_of_false (by simp) hD
  · exact h

theorem AStep.pending (hW : WF k a) (hw : ∀ n, ¬ a.Wild n) (h : AStep a e sw a') (hN : Noticed a m)
    (hi : ∀ x, sw = some x → x.incoming ≠ s) (hP : Pending a m n s D) :
    Pending a' (a.mark m e sw) n s (a.Over n s e ∨ D) := by
  obtain ⟨hl, hc⟩ := hP.queued hW hw
  refine ⟨(mark_resume hl hc).trans hP.resume, ?_⟩
  have hunique : ∀ {hd x}, Heads a.IsInit a.queue hd → .task s ∈ a.queue hd → a.Over x s e → hd = .blocked x := by
    intro hd x hh hs hO
    obtain ⟨-, hx, hq⟩ := over_on hO
    exact hW.queues.unique hh (heads_blocked hx (hw x)) hs hq
  rcases hP.place with ⟨hn, hs, hD⟩ | ⟨hs, hD⟩
  · rcases h.blocked_next hW hw hn hs with ⟨hn', hs', hO⟩ | hr
    · exact .inl ⟨hn', hs', not_or.2 ⟨hO, hD⟩⟩
    · refine .inr ⟨hr, ?_⟩
      rw [h.flag hW hN, and_iff_left hi, hN.blocked hW hw hn hs, or_iff_left hD]
      constructor
      · rintro (h | ⟨x, hO⟩)
        · cases h
        · cases hunique (heads_blocked hn (hw n)) hs hO
          exact hO
      · exact fun hO => .inr ⟨n, hO⟩
  · have hO : ∀ x, ¬ a.Over x s e := fun x hO => by cases hunique Heads.ready hs hO
    refine .inr ⟨h.ready_stays hW hw hs hi, ?_⟩
    rw [h.flag hW hN, and_iff_left hi, or_iff_left fun ⟨x, hx⟩ => hO x hx, hD, or_iff_right (hO n)]

/-- **A task that waits is on the list of its semaphore, or ready**, with the flag if the
semaphore was destroyed over it. -/
theorem run_pending (hr : KRun M (tr₂ ++ w :: tr₁) k) (hC : ∀ x ∈ tr₂ ++ w :: tr₁, CountInRange x.before x.event)
    (hA : Asleep w tr₂ s n) :
    ∃ a, WF k a ∧ (∀ n, ¬ a.Wild n) ∧ Noticed a (marks k) ∧ Pending a (marks k) n s (∃ d ∈ tr₂, DestroysOver d s n) := by
  induction tr₂ generalizing k with
  | nil =>
    cases hr with
    | @step _ k₀ e o _ hr₀ hs =>
      obtain ⟨a, hW, hw, hN⟩ := run_noticed hr₀ fun x hx => hC x (List.mem_cons_of_mem _ hx)
      obtain ⟨a', h, hW'⟩ := hs.refines hW
      have hw' := hW'.no_wild (hr₀.step hs) hC
      have hN' : Noticed a' (marks k) := (hs.marked hW).after ▸ h.noticed hW hw hN
      obtain ⟨i, u, b, rfl, hcur, hv⟩ := hA.waits.call
      obtain ⟨hi, hq⟩ := h.wait_blocks hw (hW.sem ▸ hv) hA.left
      have hs' : .task s ∈ a'.queue (.blocked n) := by
        rw [← hcur, show k₀.current = a.current from hW.current]
        exact hq
      exact ⟨a', hW', hw', hN', hN'.wait n s hi hs', .inl ⟨hi, hs', by simp⟩⟩
  | cons x tr₂ ih =>
    cases hr with
    | @step _ k₁ e o _ hr hs =>
      obtain ⟨a, hW, hw, hN, hP⟩ := ih hr (fun x hx => hC x (List.mem_cons_of_mem _ hx))
        ⟨hA.waits, hA.left, fun x hx => hA.away x (List.mem_cons_of_mem _ hx)⟩
      obtain ⟨a', h, hW'⟩ := hs.refines hW
      have hw' := hW'.no_wild (hr.step hs) hC
      have hi : ∀ x, o.switch = some x → x.incoming ≠ s := fun x hx he =>
        hA.away _ List.mem_cons_self ⟨x, hx, he⟩
      have hm := (hs.marked hW).after
      have hP' := h.pending hW hw hN hi hP
      refine ⟨a', hW', hw', hm ▸ h.noticed hW hw hN, hm ▸ ⟨hP'.resume, ?_⟩⟩
      rw [List.exists_mem_cons_iff, over_iff hW hw]
      exact hP'.place

theorem AStep.over_gone (hW : WF k a) (hw : ∀ n, ¬ a.Wild n) (h : AStep a e sw a') (hO : a.Over n s e) :
    ¬ a'.IsInit n := by
  cases h.list hW hw n with
  | same _ _ hn => exact absurd hO (hn s)
  | init hi => exact absurd (over_on hO).2.1 hi
  | wait he =>
    rw [he] at hO
    exact hO.elim
  | wake _ _ _ _ _ hn => exact absurd hO (hn s)
  | destroy _ hi => exact hi

theorem AStep.incoming (hW : WF k a) (hw : ∀ n, ¬ a.Wild n) (h : AStep a e sw a') :
    ∀ x, sw = some x → x.incoming = a'.current := by
  rintro x rfl
  obtain ⟨a₁, b, xs, rfl, -, hc, -⟩ := h.ready_switch hW hw
  exact hc.symm

/-- A task on the list of `n` got there by a wait, and `n` has not been destroyed over it since. -/
theorem run_asleep (hr : KRun M tr k) (hC : ∀ x ∈ tr, CountInRange x.before x.event) :
    ∀ s n, (k.listSem n).isInit = true → .task s ∈ members k (.blocked n) → ∃ tr₂ w tr₁, tr = tr₂ ++ w :: tr₁ ∧
      Asleep w tr₂ s n ∧ ∀ x ∈ tr₂, ¬ DestroysOver x s n := by
  refine hr.induct (P := fun tr k => (∀ x ∈ tr, CountInRange x.before x.event) → ∀ s n,
    (k.listSem n).isInit = true → .task s ∈ members k (.blocked n) → ∃ tr₂ w tr₁, tr = tr₂ ++ w :: tr₁ ∧
      Asleep w tr₂ s n ∧ ∀ x ∈ tr₂, ¬ DestroysOver x s n) (fun k h _ s n hi => ?_)
    (fun {tr k e o k'} hr ih hs hC s n hi hq => ?_) hC
  · obtain ⟨k', hk', hW⟩ := boot_ok M
    cases h.symm.trans hk'
    rw [hW.sem] at hi
    cases hi
  obtain ⟨a, hW, hw, -⟩ := run_noticed hr fun x hx => hC x (List.mem_cons_of_mem _ hx)
  obtain ⟨a', h, hW'⟩ := hs.refines hW
  have hw' := hW'.no_wild (hr.step hs) hC
  have hi' : a'.IsInit n := by
    rw [AState.IsInit, ← hW'.sem]
    exact hi
  rw [hW'.members_blocked hi' (hw' n)] at hq
  rcases h.blocked_from hW hw hi' hq with ⟨hn, hb⟩ | ⟨rfl, hsw, i, u, b, rfl, hv⟩
  · obtain ⟨tr₂, w, tr₁, rfl, hA, hD⟩ := ih (fun x hx => hC x (List.mem_cons_of_mem _ hx)) s n
      (by rw [hW.sem]; exact hn) (by rw [hW.members_blocked hn (hw n)]; exact hb)
    have hback : ¬ Regains ⟨k, e, o, k'⟩ s := by
      rintro ⟨x, hx, hxs⟩
      have hc := (hW'.queued (heads_blocked hi' (hw' n)) (by simp) hq).2
      exact hc (hxs.symm.trans (h.incoming hW hw x hx))
    refine ⟨⟨k, e, o, k'⟩ :: tr₂, w, tr₁, rfl, ⟨hA.waits, hA.left, ?_⟩, ?_⟩
    · exact List.forall_mem_cons.2 ⟨hback, hA.away⟩
    · refine List.forall_mem_cons.2 ⟨fun hO => ?_, hD⟩
      exact h.over_gone hW hw ((over_iff hW hw).1 hO) hi'
  · refine ⟨[], _, tr, rfl, ⟨⟨hW.current, hW.sem ▸ hv⟩, hsw, by simp⟩, by simp⟩

/-- What a task that waits comes back with. -/
theorem Pending.returns (hP : Pending a (marks k) n s D) (hW : WF k a) (hw : ∀ n, ¬ a.Wild n) (hN : Noticed a (marks k))
    (hs : Step k e o k') (hr : Regains ⟨k, e, o, k'⟩ s) : (o.ret = some (-1) ↔ D) ∧ (o.ret = some 0 ↔ ¬ D) := by
  obtain ⟨x, hx, rfl⟩ := hr
  have hret := (hs.marked hW).ret x hx
  have hres : ((marks k).suspend a.current e.resume).resume x.incoming = .sysSemWait := by
    rw [← hP.resume]
    exact Function.update_of_ne (hP.queued hW hw).2 _ _
  have hret' : o.ret = some (if (marks k).destroyed x.incoming = true then -1 else 0) := by
    rw [hret, Marks.result, hres]
    rfl
  rw [hret', ← hP.flag hW hw hN]
  by_cases hd : (marks k).destroyed x.incoming = true
  · simp [hd]
  · simp [hd]

/-- **Destroy notification.** A wait that keeps the CPU returns 0. A task that left the CPU in a
wait comes back from it with -1 if and only if the semaphore was destroyed while it was on its
list, and with 0 otherwise. Whoever is on a list that is destroyed is there for one wait, which
it has not come back from, and for the first time. A running task never has the flag. -/
theorem destroy_notified (hr : KRun M tr k) (hC : ∀ x ∈ tr, CountInRange x.before x.event) :
    (∀ w ∈ tr, ∀ s n, Waits w s n → w.out.switch = none → w.out.ret = some 0) ∧
    (∀ tr₃ r tr₂ w tr₁ s n, tr = tr₃ ++ r :: (tr₂ ++ w :: tr₁) → Asleep w tr₂ s n → Regains r s →
      (r.out.ret = some (-1) ↔ ∃ d ∈ tr₂, DestroysOver d s n) ∧ (r.out.ret = some 0 ↔ ¬ ∃ d ∈ tr₂, DestroysOver d s n)) ∧
    (∀ tr₃ d tr₀ s n, tr = tr₃ ++ d :: tr₀ → DestroysOver d s n →
      ∃ tr₂ w tr₁, tr₀ = tr₂ ++ w :: tr₁ ∧ Asleep w tr₂ s n ∧ ∀ x ∈ tr₂, ¬ DestroysOver x s n) ∧
    (k.task k.current).destroyed = false := by
  refine ⟨fun w hw s n hwt hsw => ?_, fun tr₃ r tr₂ w tr₁ s n htr hA hreg => ?_, fun tr₃ d tr₀ s n htr hd => ?_, ?_⟩
  · obtain ⟨tr', hsuf, hr', hs⟩ := hr.mem hw
    obtain ⟨a, hW, -, hN⟩ := run_noticed hr' fun x hx => hC x (hsuf.subset (List.mem_cons_of_mem _ hx))
    obtain ⟨i, u, b, he, -, hv⟩ := hwt.call
    rw [he] at hs
    have h := Step.wait_ret hW (hW.sem ▸ hv) hs hsw
    rw [hN.current hW] at h
    exact h
  · obtain ⟨k₁, hr₁⟩ : ∃ k₁, KRun M (r :: (tr₂ ++ w :: tr₁)) k₁ := hr.suffix ⟨tr₃, htr.symm⟩
    have hC₁ : ∀ x ∈ r :: (tr₂ ++ w :: tr₁), CountInRange x.before x.event := fun x hx =>
      hC x (htr ▸ List.mem_append_right _ hx)
    cases hr₁ with
    | step hr₁ hs =>
      obtain ⟨a, hW, hw, hN, hP⟩ := run_pending hr₁ (fun x hx => hC₁ x (List.mem_cons_of_mem _ hx)) hA
      exact hP.returns hW hw hN hs hreg
  · obtain ⟨k₁, hr₁⟩ : ∃ k₁, KRun M (d :: tr₀) k₁ := hr.suffix ⟨tr₃, htr.symm⟩
    have hC₁ : ∀ x ∈ d :: tr₀, CountInRange x.before x.event := fun x hx => hC x (htr ▸ List.mem_append_right _ hx)
    cases hr₁ with
    | step hr₁ hs =>
      have hC₀ := fun x hx => hC₁ x (List.mem_cons_of_mem _ hx)
      obtain ⟨a, hW, hw, -⟩ := run_noticed hr₁ hC₀
      obtain ⟨-, hi, hq⟩ := over_on ((over_iff hW hw).1 hd)
      refine run_asleep hr₁ hC₀ s n ?_ ?_
      · rw [hW.sem]
        exact hi
      · rw [hW.members_blocked hi (hw n)]
        exact hq
  · obtain ⟨a, hW, -, hN⟩ := run_noticed hr hC
    have h := hN.current hW
    rw [← hW.current] at h
    exact h

theorem semDestroy_step {i : Word} (hW : WF k a) (hc : a.current ≠ a.idle) (hd : HasData a.table a.tab)
    (hv : validSem a.sem i false = some n) (hw : ¬ a.Wild n) (b : ℕ) :
    ∃ o k', Step k (.sysenter (.semDestroy i) someStack b) o k' ∧ o.switch = none ∧ WF k' (a.semDestroy n) := by
  have hok : ∀ k₁, WF k₁ a → ∃ r, systemCall k₁ b (.semDestroy i) = .ok r := by
    intro k₁ hW₁
    have hh : Heads a.IsInit a.queue (.blocked n) := heads_blocked (validSem_init hv) hw
    have hlen := (List.nodup_cons.1 (hW₁.queues.nodup hh)).2.length_le_card
    obtain ⟨k₂, h2, -⟩ := destroyLoop_ok numNodes hW₁ hc hh hlen
    have hv₁ : validSem k₁.listSem i false = some n := hW₁.sem ▸ hv
    have hcall : sysSemDestroy k₁ i = .ok (0, k₂.setSem n { k₂.listSem n with isInit := false }) := by
      simp only [sysSemDestroy, hv₁, h2]
      rfl
    exact ⟨_, by rw [systemCall, hcall]; rfl⟩
  obtain ⟨o, k', a', hs, h, hW'⟩ := call_step hW hc hd hok
  generalize hsw : o.switch = sw at h
  cases h.called hv with
  | destroy _ => exact ⟨o, k', hs, hsw, hW'⟩

/-- Task 2 destroys the semaphore that task 1 waits on, and yields. -/
theorem destroy_notified_one : ∃ y d w i f k, KRun aMachine [y, d, w, i, f] k ∧
    y.event = .sysenter .yield someStack 1000 ∧ d.event = .sysenter (.semDestroy 0) someStack 1000 ∧
    w.event = .sysenter (.semWait 0) someStack 1000 ∧ i.event = .sysenter (.semInit 0 0) someStack 1000 ∧
    f.event = .sysenter .fork someStack 1000 ∧ Waits w 1 0 ∧ Regains y 1 ∧ y.out.ret = some (-1) := by
  -- task 1 forks, makes a semaphore of value 0 and waits on it
  obtain ⟨k₀, o₁, k₁, fs, hr₀, hW₀, hs₁, hW₁, hl, hR₁⟩ := fork_run aMachine 1000
  have hR₀ := boot_ready aMachine
  set a₁ := (bootState aMachine).forkOk 2 bootFree.tail 1000 fs
  have hv₁ : validSem a₁.sem 0 true = some 0 := rfl
  obtain ⟨o₂, k₂, hs₂, hW₂⟩ := semInit_step hW₁ hR₁.user hR₁.data hv₁ 0 1000
  set a₂ := a₁.semInit 0 0
  have hready₂ : a₂.queue .readyqueue = .task 2 :: [] := by
    simp [a₂, AState.semInit, AState.setSem, AState.put, a₁, forkOk_queue, bootState]
  have hsem₂ : a₂.sem 0 = ⟨true, 0⟩ := by simp [a₂, AState.semInit, AState.setSem, AState.put]
  have hv₂ : validSem a₂.sem 0 false = some 0 := by simp [validSem, hsem₂]
  obtain ⟨o₃, k₃, hs₃, hsw₃, hW₃⟩ := waitBlock_step hW₂ hR₁.user hR₁.data hv₂ (by rw [hsem₂]; decide)
    (by simp [AState.Wild, hready₂]) (.inr hready₂) 1000
  set a₃ := ((a₂.count 0 (-1)).push (.blocked 0) a₂.current).dispatch 1000
  have hcur₃ : a₃.current = 2 := by
    show ((a₂.count 0 (-1)).push (.blocked 0) a₂.current).next = 2
    simp [AState.next, AState.push, AState.put, AState.count, AState.setSem, hready₂]
  have hq₃ : a₃.queue .readyqueue = [] := by
    simp [a₃, AState.dispatch, AState.push, AState.put, AState.count, AState.setSem, hready₂]
  have hb₃ : a₃.queue (.blocked 0) = [.task 1] := by
    simp [a₃, AState.dispatch, AState.push, AState.put, AState.count, AState.setSem, a₂, AState.semInit]
    rfl
  have hv₃ : validSem a₃.sem 0 false = some 0 := by
    simp [validSem, a₃, AState.dispatch, AState.push, AState.put, AState.count, AState.setSem, hsem₂]
  have hc₃ : a₃.current ≠ a₃.idle := by
    rw [hcur₃]
    show (2 : Slot) ≠ 0
    decide
  have hd₃ : HasData a₃.table a₃.tab := by
    have h : a₃.tab = 2 := by
      show a₁.dir a₃.current = 2
      rw [hcur₃]
      exact forkOk_dir.trans (if_pos rfl)
    rw [h]
    exact forkTable_data hR₀.data (.inl rfl)
  -- its child destroys the semaphore and yields
  obtain ⟨o₄, k₄, hs₄, hsw₄, hW₄⟩ := semDestroy_step hW₃ hc₃ hd₃ hv₃ (by simp [AState.Wild, hq₃]) 1000
  have hready₄ : (a₃.semDestroy 0).queue .readyqueue = .task 1 :: [] := by
    simp [AState.semDestroy, AState.put, AState.setSem, hq₃, hb₃]
  obtain ⟨o₅, k₅, hs₅, hsw₅, hW₅⟩ := yield_step hW₄ hc₃ hd₃ hready₄ 1000
  have hr₅ := ((((hr₀.step hs₁).step hs₂).step hs₃).step hs₄).step hs₅
  have hreg : Regains ⟨k₄, .sysenter .yield someStack 1000, o₅, k₅⟩ 1 := by
    refine ⟨_, hsw₅, ?_⟩
    show ((a₃.semDestroy 0).push .readyqueue (a₃.semDestroy 0).current).next = 1
    simp [AState.next, AState.push, AState.put, hready₄]
  -- what the general theorem asks of this trace
  have hwt : Waits ⟨k₂, .sysenter (.semWait 0) someStack 1000, o₃, k₃⟩ 1 0 := ⟨hW₂.current, hW₂.sem ▸ hv₂⟩
  have hA : Asleep ⟨k₂, .sysenter (.semWait 0) someStack 1000, o₃, k₃⟩
      [⟨k₃, .sysenter (.semDestroy 0) someStack 1000, o₄, k₄⟩] 1 0 := by
    refine ⟨hwt, by simp [hsw₃], fun x hx => ?_⟩
    rw [List.mem_singleton.1 hx]
    rintro ⟨y, hy, -⟩
    cases hsw₄.symm.trans hy
  have hO : DestroysOver ⟨k₃, .sysenter (.semDestroy 0) someStack 1000, o₄, k₄⟩ 1 0 := by
    refine ⟨hW₃.sem ▸ hv₃, ?_⟩
    rw [hW₃.members_blocked (validSem_init hv₃) (by simp [AState.Wild, hq₃]), hb₃]
    simp
  have hC : ∀ x ∈ [⟨k₄, .sysenter .yield someStack 1000, o₅, k₅⟩, ⟨k₃, .sysenter (.semDestroy 0) someStack 1000, o₄, k₄⟩,
      ⟨k₂, .sysenter (.semWait 0) someStack 1000, o₃, k₃⟩, ⟨k₁, .sysenter (.semInit 0 0) someStack 1000, o₂, k₂⟩,
      (⟨k₀, .sysenter .fork someStack 1000, o₁, k₁⟩ : Transition Kernel Event Out)], CountInRange x.before x.event := by
    simp [CountInRange]
  refine ⟨_, _, _, _, _, k₅, hr₅, rfl, rfl, rfl, rfl, rfl, hwt, hreg, ?_⟩
  exact ((destroy_notified hr₅ hC).2.1 [] _ _ _ _ 1 0 rfl hA hreg).1.2 ⟨_, List.mem_singleton.2 rfl, hO⟩

end Zeos
