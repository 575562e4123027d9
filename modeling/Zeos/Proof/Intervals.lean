import Zeos.Lib.Meter
import Zeos.Proof.Charges
import Zeos.Proof.Heap
import Zeos.Proof.States

/-!
# What the ticks are charged for

`user_to_system` and `system_to_user` are called on the way in and out of the interrupts only, and
`sched_next_rr` knows two kinds of time: a system call leaves no mark, and a task that has waited on
a semaphore is charged as if it had been ready.

* `charged_right_iff`: **each charge is for time of its own kind exactly as long as no call gives the
  CPU up, and no interrupt comes after a call.**
* `call_charged_user`: the first task calls `getpid`; the next tick charges the call to `user_ticks`.
-/

namespace Zeos

open Execution Metering

instance (k : Kernel) (s : Slot) : Decidable (OnReady k s) := inferInstanceAs (Decidable (_ ∈ _))

/-- `s` waits on the list of a semaphore, one whose head is not on `readyqueue` itself. -/
def WaitsFor (k : Kernel) (s : Slot) : Prop := ∃ n, (k.listSem n).isInit = true ∧
  Node.blocked n ∉ members k .readyqueue ∧ .task s ∈ members k (.blocked n)

instance (k : Kernel) (s : Slot) : Decidable (WaitsFor k s) := inferInstanceAs (Decidable (∃ _, _ ∧ _ ∧ _))

/-- What a task spends its time on between two steps. Idle runs in the kernel, and waits on no queue. -/
def doing (k : Kernel) (s : Slot) : Option Counter :=
  if s = k.current then some (if s = k.idleTask then .systemTicks else .userTicks)
  else if OnReady k s then some .readyTicks
  else if WaitsFor k s then some .blockedTicks
  else none

/-- An interrupt or a call, of which the code runs in the kernel. -/
def Event.entersKernel : Event → Bool
  | .store _ _ => false
  | _ => true

def Event.isCall : Event → Bool
  | .sysenter _ _ _ => true
  | _ => false

/-- The time in the kernel and the charges of a step, in their order: `s` runs, and may leave the CPU. -/
def acts (s : Slot) (m : Marks) (e : Event) : Option Switch → List (Act Slot Counter)
  | none =>
    (e.entryCharges s).map (fun x => .charge x.1 x.2) ++
    (if e.entersKernel = true then [.spend s (some .systemTicks)] else []) ++
    (if e.isInterrupt = true then [.charge s .systemTicks] else [])
  | some sw =>
    (e.entryCharges s).map (fun x => .charge x.1 x.2) ++ [.spend s (some .systemTicks)] ++
    (if e.requeues = true then [.charge s .systemTicks] else []) ++
    [.charge s .systemTicks, .charge sw.incoming .readyTicks, .spend sw.incoming (some .systemTicks)] ++
    (exitCharges sw.incoming ((m.suspend s e.resume).resume sw.incoming)).map (fun x => .charge x.1 x.2)

def actsOf (t : Transition Kernel Event Out) : List (Act Slot Counter) :=
  acts t.before.current (marks t.before) t.event t.out.switch

/-- What the tasks have spent since they were charged last, up to the time of a step. -/
def elapse (k : Kernel) (R : Unpaid Slot Counter) : Unpaid Slot Counter := fun s => doing k s :: R s

/-- What the tasks have spent since they were charged last. A thread has the time of its creator,
with the struct. -/
def unpaid : KTrace → Unpaid Slot Counter
  | [] => fun _ => []
  | t :: tr => fun s =>
    let R := after (elapse t.before (unpaid tr)) (actsOf t)
    if ¬ Live t.before s ∧ Live t.after s then
      match t.event with
      | .sysenter (.createthread _ _ _) _ _ => R t.before.current
      | _ => []
    else R s

/-- A step whose charges are all for time of their own kind, and that leaves no task off the lists of
the semaphores with time there to be charged for. -/
def ChargesRight (t : Transition Kernel Event Out) (tr : KTrace) : Prop :=
  Fair (elapse t.before (unpaid tr)) (actsOf t) ∧
    ∀ s, Live t.after s → ¬ WaitsFor t.after s → some .blockedTicks ∉ unpaid (t :: tr) s

/-- The call does not come back before another task, or the same, has been chosen to run. -/
def GivesUp (k : Kernel) : Event → Prop
  | .sysenter .yield _ _ | .sysenter .exit _ _ => True
  | .sysenter .terminatethread u _ => HeapMapped k (u.toNat / pageSize)
  | .sysenter (.semWait i) _ _ =>
    ∃ n, validSem k.listSem i false = some n ∧ ((k.listSem n).counter - 1).toInt < 0
  | _ => False

/-- No call that gives the CPU up, and no interrupt when a call has been made. -/
def Undisturbed (t : Transition Kernel Event Out) (tr : KTrace) : Prop :=
  ¬ GivesUp t.before t.event ∧ (t.event.isInterrupt = true → ∀ t' ∈ tr, t'.event.isCall = false)

variable {k k' : Kernel} {a a' : AState} {e : Event} {M : Machine} {tr : KTrace} {o : Out} {s : Slot} {n : Sem}
  {c : Call} {u i : Word} {b : ℕ} {sw : Option Switch} {m : Marks}

theorem entersKernel_eq (e : Event) : e.entersKernel = (e.isInterrupt || e.isCall) := by cases e <;> rfl

theorem isCall_interrupt (h : e.isCall = true) : e.isInterrupt = false := by
  cases e with
  | sysenter => rfl
  | _ => cases h

theorem givesUp_call (h : GivesUp k e) : e.isCall = true := by
  cases e with
  | sysenter => rfl
  | _ => exact h.elim

/-! ### The charges -/

/-- The charges of a step are those of the code. -/
theorem charges_acts : charges (acts a.current m e sw) = a.charges m e sw := by
  have hmap : ∀ xs : List (Slot × Counter), charges (xs.map fun x => Act.charge x.1 x.2) = xs := by
    intro xs
    induction xs with
    | nil => rfl
    | cons x xs ih => exact congrArg (x :: ·) ih
  have happ : ∀ xs ys : List (Act Slot Counter), charges (xs ++ ys) = charges xs ++ charges ys := fun xs ys =>
    List.filterMap_append
  cases sw with
  | none =>
    simp only [acts, AState.charges, happ, hmap]
    split <;> split <;> simp [charges]
  | some sw =>
    simp only [acts, AState.charges, happ, hmap, switchCharges]
    split <;> simp [charges]

/-- The counters of the tasks there are change by the charges of a step. -/
theorem Step.charged (hW : WF k a) (h : Step k e o k') (hs : a.Live s) (w : Counter) :
    (k'.task s).pStats.spent w = (((book k).pay (charges (actsOf ⟨k, e, o, k'⟩))).times s).spent w := by
  have hb : (k'.task s).pStats.times = (a.bookAfter (marks k) (book k) e o.switch).times s := by
    rw [← h.booked hW]
    rfl
  have hspent : (k'.task s).pStats.spent w = ((a.bookAfter (marks k) (book k) e o.switch).times s).spent w := by
    rw [← hb]
    rfl
  rw [hspent, actsOf, hW.current, charges_acts]
  cases o.switch with
  | none => rw [AState.bookAfter, bookBorn_live hs]
  | some sw =>
    by_cases ht : s = sw.incoming
    · subst ht
      simp [AState.bookAfter]
    · simp [AState.bookAfter, ht]

/-! ### Steps that keep the CPU -/

theorem WF.heapMapped_iff {p : ℕ} (hW : WF k a) : HeapMapped k p ↔ a.Mapped p := by
  rw [HeapMapped, hW.getPT_current, Mm.getFrame, hW.table]
  rfl

theorem givesUp_local (h : e.isLocal = true) : ¬ GivesUp k e := by
  unfold Event.isLocal at h
  split at h
  all_goals first | exact id | cases h

/-- A call switches exactly if it gives the CPU up. -/
theorem AStep.switch_iff (hW : WF k a) (h : AStep a (.sysenter c u b) sw a') :
    sw ≠ none ↔ GivesUp k (.sysenter c u b) := by
  cases h with
  | noop he => exact iff_of_false (by simp) (givesUp_local he)
  | yield => exact iff_of_true (by simp) trivial
  | exit => exact iff_of_true (by simp) trivial
  | terminateBad hm => exact iff_of_false (by simp) fun hg => hm (hW.heapMapped_iff.1 hg)
  | terminate hm => exact iff_of_true (by simp) (hW.heapMapped_iff.2 hm)
  | waitBad hv =>
    refine iff_of_false (by simp) ?_
    rintro ⟨n, hn, -⟩
    rw [hW.sem, hv] at hn
    cases hn
  | waitPass hv hp =>
    refine iff_of_false (by simp) ?_
    rintro ⟨n, hn, hneg⟩
    rw [hW.sem] at hn hneg
    cases hv.symm.trans hn
    omega
  | waitBlock hv hneg _ => exact iff_of_true (by simp) ⟨_, by rw [hW.sem]; exact hv, by rw [hW.sem]; exact hneg⟩
  | waitWild hv hneg _ => exact iff_of_true (by simp) ⟨_, by rw [hW.sem]; exact hv, by rw [hW.sem]; exact hneg⟩
  | _ => exact iff_of_false (by simp) id

/-- What a step that keeps the CPU leaves alone while no task waits on a semaphore. -/
structure Keeps (a a' : AState) : Prop where
  current : a'.current = a.current
  idle : a'.idle = a.idle
  blocked : ∀ n, a'.queue (.blocked n) = []

theorem AStep.keeps (hB : ∀ n, a.queue (.blocked n) = []) (h : AStep a e none a') : Keeps a a' := by
  have hself : Keeps a a := ⟨rfl, rfl, hB⟩
  have halloc : ∀ {a₁}, a.Alloc a₁ → Keeps a a₁ := fun h => ⟨h.queue.2.2.2.1, h.queue.2.2.2.2.1, fun n => by
    rw [h.queue.1]
    exact hB n⟩
  -- a step that switches is none of these
  generalize hsw : none = x at h
  cases h with
  | clockSwitch => cases hsw
  | yield => cases hsw
  | exit => cases hsw
  | terminate => cases hsw
  | waitBlock => cases hsw
  | waitWild => cases hsw
  | alloc h => exact halloc h
  | thread hq h =>
    obtain ⟨h1, h2, h3⟩ := halloc h
    exact ⟨h1, h2, fun n => by simp [AState.spawn, AState.push, AState.put, h3 n]⟩
  | forkFail => exact ⟨rfl, rfl, fun n => by simp [AState.forkFail, AState.put, hB n]⟩
  | forkOk => exact ⟨rfl, rfl, fun n => by simp [AState.forkOk, AState.spawn, AState.push, AState.put, hB n]⟩
  | @semInit u b i v m _ =>
    refine ⟨rfl, rfl, fun n => ?_⟩
    by_cases hn : n = m <;> simp [AState.semInit, AState.put, AState.setSem, hB, hn]
  | waitPass => exact ⟨rfl, rfl, hB⟩
  | signalPass => exact ⟨rfl, rfl, hB⟩
  | dealloc => exact ⟨rfl, rfl, hB⟩
  -- nobody waits
  | @signalWake u b i m t xs _ _ _ hq =>
    rw [hB m] at hq
    cases hq
  | signalSplice => exact ⟨rfl, rfl, fun n => by simp [AState.count, AState.put, AState.setSem, hB n]⟩
  | signalWild => exact ⟨rfl, rfl, fun n => by simp [AState.count, AState.put, AState.setSem, hB n]⟩
  | @destroy u b i m _ _ =>
    refine ⟨rfl, rfl, fun n => ?_⟩
    by_cases hn : n = m <;> simp [AState.semDestroy, AState.put, AState.setSem, hB, hn]
  | _ => exact hself

/-- With nobody ready, what is no call changes nothing. -/
theorem AStep.ready_nil (hr : a.queue .readyqueue = []) (he : e.isCall = false) (h : AStep a e sw a') :
    sw = none ∧ a' = a := by
  cases h with
  | noop => exact ⟨rfl, rfl⟩
  | clock => exact ⟨rfl, rfl⟩
  | clockSwitch _ hne => exact absurd hr hne
  | _ => cases he

/-! ### The first task alone -/

/-- While no step disturbs it the first task runs, charged for nothing but its own time until it
makes a call; from then on time in the kernel is waiting to be charged. -/
structure Alone (tr : KTrace) (a : AState) : Prop where
  runs : a.current ≠ a.idle
  blocked : ∀ n, a.queue (.blocked n) = []
  unblocked : ∀ s, some .blockedTicks ∉ unpaid tr s
  user : (∀ t ∈ tr, t.event.isCall = false) →
    a.queue .readyqueue = [] ∧ ∀ m ∈ unpaid tr a.current, m = some .userTicks
  system : (∃ t ∈ tr, t.event.isCall = true) → some .systemTicks ∈ unpaid tr a.current

theorem doing_current (hW : WF k a) (hc : a.current ≠ a.idle) : doing k a.current = some .userTicks := by
  rw [doing, hW.current, hW.idle, if_pos rfl, if_neg hc]

theorem doing_unblocked (hW : WF k a) (hB : ∀ n, a.queue (.blocked n) = []) (s : Slot) :
    doing k s ≠ some .blockedTicks := by
  have hs : ¬ WaitsFor k s := by
    rintro ⟨n, hi, hw, h⟩
    rw [hW.members_ready] at hw
    rw [hW.sem] at hi
    rw [hW.members_blocked hi hw, hB n] at h
    cases h
  unfold doing
  rw [if_neg hs]
  split
  · split <;> simp
  · split <;> simp

/-- The time of a live task goes on. -/
theorem unpaid_live {t : Transition Kernel Event Out} (hl : Live t.before s) :
    unpaid (t :: tr) s = after (elapse t.before (unpaid tr)) (actsOf t) s := if_neg fun h => h.1 hl

theorem unpaid_unblocked {t : Transition Kernel Event Out} (ht : t.out.switch = none)
    (hd : ∀ s, doing t.before s ≠ some .blockedTicks) (hu : ∀ s, some .blockedTicks ∉ unpaid tr s) (s : Slot) :
    some .blockedTicks ∉ unpaid (t :: tr) s := by
  have hafter : ∀ s, some .blockedTicks ∉ after (elapse t.before (unpaid tr)) (actsOf t) s := by
    intro s h
    rcases mem_after h with h | h
    · rcases List.mem_cons.1 h with h | h
      · exact hd s h.symm
      · exact hu s h
    · rw [actsOf, ht] at h
      unfold acts Event.entryCharges at h
      split at h <;> split at h <;> simp at h
  simp only [unpaid]
  split
  · split
    · exact hafter _
    · simp
  · exact hafter s

section Step

variable {t : Transition Kernel Event Out}

/-- A call of the first task that gives the CPU up charges it for its time in user mode. -/
theorem switch_unfair (hd : doing t.before t.before.current = some .userTicks) (hc : t.event.isCall = true)
    (hs : t.out.switch ≠ none) : ¬ Fair (elapse t.before (unpaid tr)) (actsOf t) := by
  obtain ⟨sw, hsw⟩ := Option.ne_none_iff_exists'.1 hs
  have hentry : t.event.entryCharges t.before.current = [] := by
    rw [Event.entryCharges, isCall_interrupt hc]
    rfl
  have hmem : some Counter.userTicks ∈
      Act.apply (elapse t.before (unpaid tr)) (.spend t.before.current (some .systemTicks)) t.before.current := by
    rw [apply_spend_self]
    exact List.mem_cons_of_mem _ (hd ▸ List.mem_cons_self)
  intro hF
  rw [actsOf, hsw] at hF
  simp only [acts, hentry] at hF
  split at hF
  all_goals
    have h := hF.1 _ hmem
    cases h

theorem interrupt_acts (hi : t.event.isInterrupt = true) :
    ∃ xs, actsOf t = .charge t.before.current .userTicks :: xs := by
  unfold actsOf acts Event.entryCharges
  rw [if_pos hi]
  split <;> exact ⟨_, rfl⟩

/-- An interrupt charges the time in the kernel since the last call to `user_ticks`. -/
theorem interrupt_unfair (hk : some .systemTicks ∈ unpaid tr t.before.current) (hi : t.event.isInterrupt = true) :
    ¬ Fair (elapse t.before (unpaid tr)) (actsOf t) := by
  intro hF
  have hmem : some Counter.systemTicks ∈ elapse t.before (unpaid tr) t.before.current := List.mem_cons_of_mem _ hk
  obtain ⟨xs, hxs⟩ := interrupt_acts hi
  rw [hxs] at hF
  have h := hF.1 _ hmem
  cases h

/-- An interrupt that finds nothing but time in user mode. -/
theorem interrupt_fair (hd : doing t.before t.before.current = some .userTicks)
    (hu : ∀ m ∈ unpaid tr t.before.current, m = some .userTicks) (hi : t.event.isInterrupt = true)
    (hs : t.out.switch = none) : Fair (elapse t.before (unpaid tr)) (actsOf t) ∧
      after (elapse t.before (unpaid tr)) (actsOf t) t.before.current = [] := by
  have he : t.event.entersKernel = true := by rw [entersKernel_eq, hi, Bool.true_or]
  have hacts : actsOf t = [.charge t.before.current .userTicks, .spend t.before.current (some .systemTicks),
      .charge t.before.current .systemTicks] := by
    simp [actsOf, hs, acts, Event.entryCharges, hi, he]
  rw [hacts]
  refine ⟨⟨?_, ?_, trivial⟩, ?_⟩
  · intro m hm
    rcases List.mem_cons.1 hm with rfl | hm
    · exact hd
    · exact hu m hm
  · simp
  · simp

/-- A call that comes back, and a store, charge nothing. -/
theorem actsOf_quiet (hi : t.event.isInterrupt = false) (hs : t.out.switch = none) :
    actsOf t = if t.event.isCall = true then [.spend t.before.current (some .systemTicks)] else [] := by
  simp [actsOf, hs, acts, Event.entryCharges, hi, entersKernel_eq]

end Step

namespace Alone

theorem doing (hA : Alone tr a) (hW : WF k a) : doing k k.current = some .userTicks := by
  have h := doing_current hW hA.runs
  rwa [← hW.current] at h

/-- An undisturbed step keeps the CPU. -/
theorem keeps_cpu (hA : Alone tr a) (hW : WF k a) (hst : Step k e o k') (h : AStep a e o.switch a')
    (hU : Undisturbed ⟨k, e, o, k'⟩ tr) : o.switch = none := by
  by_contra hsw
  cases e with
  | sysenter c u b => exact hU.1 ((h.switch_iff hW).1 hsw)
  | clock b => exact hsw (h.ready_nil (hA.user (hU.2 rfl)).1 rfl).1
  | keyboard c =>
    cases hst.2
    exact hsw rfl
  | store addr x =>
    generalize o.switch = y at h hsw
    cases h
    exact hsw rfl

/-- **The first task is still alone after a step that is not disturbed.** -/
theorem step (hA : Alone tr a) (hW : WF k a) (hst : Step k e o k') (h : AStep a e o.switch a')
    (hU : Undisturbed ⟨k, e, o, k'⟩ tr) : Alone (⟨k, e, o, k'⟩ :: tr) a' := by
  have hsw := hA.keeps_cpu hW hst h hU
  have hd := hA.doing hW
  set t : Transition Kernel Event Out := ⟨k, e, o, k'⟩
  rw [hsw] at h
  have hK := h.keeps hA.blocked
  have hlive : Live k k.current := by
    rw [hW.live_iff, hW.current]
    exact hW.current_live
  have hnow : unpaid (t :: tr) a'.current = after (elapse k (unpaid tr)) (actsOf t) k.current := by
    rw [hK.current, ← hW.current]
    exact unpaid_live hlive
  refine ⟨by rw [hK.current, hK.idle]; exact hA.runs, hK.blocked,
    unpaid_unblocked hsw (doing_unblocked hW hA.blocked) hA.unblocked, fun hno => ?_, fun hcall => ?_⟩
  · obtain ⟨he, hno⟩ := List.forall_mem_cons.1 hno
    obtain ⟨hr, hu⟩ := hA.user hno
    rw [← hW.current] at hu
    rw [hnow, (h.ready_nil hr he).2]
    refine ⟨hr, ?_⟩
    by_cases hi : e.isInterrupt = true
    · rw [(interrupt_fair (t := t) hd hu hi hsw).2]
      simp
    · rw [actsOf_quiet (t := t) (Bool.not_eq_true _ ▸ hi) hsw, if_neg (by rw [he]; simp)]
      intro m hm
      rcases List.mem_cons.1 hm with rfl | hm
      · exact hd
      · exact hu m hm
  · obtain ⟨t', ht', hc⟩ := hcall
    rw [hnow]
    by_cases he : e.isCall = true
    · rw [actsOf_quiet (t := t) (isCall_interrupt he) hsw, if_pos he, after_cons, after_nil, apply_spend_self]
      exact List.mem_cons_self
    · have hold : t' ∈ tr := by
        rcases List.mem_cons.1 ht' with rfl | hold
        · exact absurd hc he
        · exact hold
      -- the step is a store: an interrupt would come after the call
      have hi : e.isInterrupt = false := by
        rw [← Bool.not_eq_true]
        intro hi
        rw [hU.2 hi t' hold] at hc
        cases hc
      rw [actsOf_quiet (t := t) hi hsw, if_neg he, after_nil]
      refine List.mem_cons_of_mem _ ?_
      rw [hW.current]
      exact hA.system ⟨t', hold, hc⟩

/-- **A step of the first task alone charges right exactly if it is not disturbed.** -/
theorem right_iff (hA : Alone tr a) (hW : WF k a) (hst : Step k e o k') (h : AStep a e o.switch a') :
    ChargesRight ⟨k, e, o, k'⟩ tr ↔ Undisturbed ⟨k, e, o, k'⟩ tr := by
  have hd := hA.doing hW
  set t : Transition Kernel Event Out := ⟨k, e, o, k'⟩ with ht
  constructor
  · refine fun hR => ⟨fun hg => ?_, fun hi => ?_⟩
    · have hsw : o.switch ≠ none := by
        cases e with
        | sysenter c u b => exact (h.switch_iff hW).2 hg
        | _ => exact hg.elim
      exact switch_unfair (t := t) hd (givesUp_call hg) hsw hR.1
    · by_contra hno
      push Not at hno
      obtain ⟨t', ht', hc⟩ := hno
      refine interrupt_unfair (t := t) ?_ hi hR.1
      rw [show t.before.current = a.current from hW.current]
      exact hA.system ⟨t', ht', by simpa using hc⟩
  · intro hU
    have hsw := hA.keeps_cpu hW hst h hU
    refine ⟨?_, fun s _ _ => (hA.step hW hst h hU).unblocked s⟩
    by_cases hi : e.isInterrupt = true
    · have hu := (hA.user (hU.2 hi)).2
      rw [← hW.current] at hu
      exact (interrupt_fair (t := t) hd hu hi hsw).1
    · rw [actsOf_quiet (t := t) (Bool.not_eq_true _ ▸ hi) hsw]
      split <;> trivial

end Alone

/-! ### Runs -/

theorem boot_alone (M : Machine) : Alone [] (bootState M) := by
  have hne : (bootState M).current ≠ (bootState M).idle := (boot_ready M).user
  refine ⟨hne, fun n => rfl, fun s => List.not_mem_nil, fun _ => ⟨rfl, fun m h => (by cases h)⟩, ?_⟩
  rintro ⟨t, ht, -⟩
  cases ht

/-- **The ticks are charged to the right counters, exactly.** The counters of the tasks change by the
charges of the steps. All charges are for time of their own kind, and no task leaves the list of a
semaphore with time to be charged for, if and only if no call of the run gives the CPU up and no
interrupt comes after a call. -/
theorem charged_right_iff (hr : KRun M tr k) :
    (∀ t ∈ tr, ∀ s, Live t.before s → ∀ w, (t.after.task s).pStats.spent w =
      (((book t.before).pay (charges (actsOf t))).times s).spent w) ∧
    ((∀ t tr', t :: tr' <:+ tr → ChargesRight t tr') ↔ ∀ t tr', t :: tr' <:+ tr → Undisturbed t tr') := by
  constructor
  · intro t ht s hs w
    obtain ⟨tr', -, hr', hst⟩ := hr.mem ht
    obtain ⟨a, hW⟩ := run_wf hr'
    exact hst.charged hW (hW.live_iff.1 hs) w
  · refine hr.exact_of (I := fun tr k => ∃ a, WF k a ∧ Alone tr a) (fun k hk => ?_) ?_
    · obtain ⟨k', h, hW⟩ := boot_ok M
      cases h.symm.trans hk
      exact ⟨_, hW, boot_alone M⟩
    intro tr k e o k' _ hI hst
    obtain ⟨a, hW, hA⟩ := hI
    obtain ⟨a', h, hW'⟩ := hst.refines hW
    exact ⟨hA.right_iff hW hst h, fun hU => ⟨a', hW', hA.step hW hst h hU⟩⟩

/-- The first quantum is long enough for a tick. -/
theorem boot_quantum (M : Machine) : ∃ k, KRun M [] k ∧ WF k (bootState M) ∧ (marks k).left - 1 ≠ 0 := by
  obtain ⟨k, h, hW⟩ := boot_ok M
  refine ⟨k, .init h, hW, ?_⟩
  rw [boot_marks h]
  decide

/-- The first task calls `getpid`, and the next tick charges it the time it spent in the kernel for
that to `user_ticks`. -/
theorem call_charged_user : ∃ t₂ t₁ k, KRun aMachine [t₂, t₁] k ∧ t₁.event = .sysenter .getpid someStack 1000 ∧
    t₂.event = .clock 1000 ∧ some .systemTicks ∈ unpaid [t₁] 1 ∧
    (∃ xs, actsOf t₂ = .charge 1 .userTicks :: xs) ∧ ¬ ChargesRight t₂ [t₁] := by
  obtain ⟨k₀, hr₀, hW₀, hleft⟩ := boot_quantum aMachine
  have hR := boot_ready aMachine
  obtain ⟨o₁, k₁, a₁, hs₁, h₁, hW₁⟩ := call_step (b := 1000) hW₀ hR.user hR.data (x := .getpid) fun k _ => ⟨_, rfl⟩
  have hA₁ := (boot_alone aMachine).step hW₀ hs₁ h₁ ⟨id, fun h => (by cases h)⟩
  obtain ⟨ha₁, hsw₁⟩ : a₁ = bootState aMachine ∧ o₁.switch = none := by
    generalize o₁.switch = sw at h₁
    cases h₁
    exact ⟨rfl, rfl⟩
  have hm₁ : marks k₁ = marks k₀ := by
    rw [(hs₁.marked hW₀).after, hsw₁]
    rfl
  obtain ⟨o₂, k₂, hs₂, -⟩ := tick_step hW₁ (hm₁ ▸ hleft) 1000
  obtain ⟨a₂, h₂, -⟩ := hs₂.refines hW₁
  have hcur : k₁.current = 1 := by
    rw [hW₁.current, ha₁]
    rfl
  have hsys := hA₁.system ⟨_, List.mem_singleton_self _, rfl⟩
  rw [← hW₁.current, hcur] at hsys
  have hacts := interrupt_acts (t := ⟨k₁, .clock 1000, o₂, k₂⟩) rfl
  rw [show (⟨k₁, .clock 1000, o₂, k₂⟩ : Transition Kernel Event Out).before.current = 1 from hcur] at hacts
  refine ⟨_, _, k₂, (hr₀.step hs₁).step hs₂, rfl, rfl, hsys, hacts, fun hR => ?_⟩
  have hno := ((hA₁.right_iff hW₁ hs₂ h₂).1 hR).2 rfl _ (List.mem_singleton_self _)
  cases hno

/-- One tick from boot on is charged right. -/
theorem charged_right_iff_tick : ∃ t k, KRun aMachine [t] k ∧ t.event = .clock 1000 ∧ ChargesRight t [] := by
  obtain ⟨k₀, hr₀, hW₀, hleft⟩ := boot_quantum aMachine
  obtain ⟨o, k, hs, -⟩ := tick_step hW₀ hleft 1000
  have hr := hr₀.step hs
  refine ⟨_, k, hr, rfl, (charged_right_iff hr).2.2 (fun t tr' ht => ?_) _ _ List.suffix_rfl⟩
  rcases List.suffix_cons_iff.1 ht with h | h
  · cases h
    exact ⟨id, fun _ t' h => (by cases h)⟩
  · cases List.suffix_nil.1 h

end Zeos
