import Zeos.Proof.Semaphores
import Zeos.Proof.Unlink

/-!
# Each task in one place

* `task_partition`: **while the semaphores stay in range, the queues of the kernel are
  disjoint rings, each task is on exactly one of them, or runs, or is idle**, and no call
  of `list_del` is on a node that is on no list (`step_relinks`: which calls these are).
-/

namespace Zeos

open LinkHeap ForLoop Execution

/-! ### The partition -/

/-- Node `x` is on a list. -/
def Listed (h : Heap Node) (x : Node) : Prop := ∃ hd q, IsRing h hd q ∧ x ∈ q

/-- The queues of the kernel. -/
def IsQueue (k : Kernel) : Node → Prop
  | .freequeue | .readyqueue => True
  | .blocked n => (k.listSem n).isInit = true
  | .task _ => False

/-- The queues are disjoint rings of tasks; a task is on exactly one of them, unless it runs or
is idle, and then on none. -/
structure Partition (k : Kernel) : Prop where
  ring : ∀ hd, IsQueue k hd → IsRing k.links hd (members k hd)
  disjoint : ∀ hd hd', IsQueue k hd → IsQueue k hd' → hd ≠ hd' →
    List.Disjoint (hd :: members k hd) (hd' :: members k hd')
  task : ∀ hd, IsQueue k hd → ∀ x ∈ members k hd, ∃ s, x = .task s
  off : ∀ s, s = k.current ∨ s = k.idleTask → ∀ hd, IsQueue k hd → .task s ∉ members k hd
  place : ∀ s, s ≠ k.current → s ≠ k.idleTask → ∃! hd, IsQueue k hd ∧ .task s ∈ members k hd

/-- The event is no signal that takes a semaphore out of range. -/
def SignalFits (tr : KTrace) (k : Kernel) : Event → Prop
  | .sysenter (.semSignal i) _ _ =>
    ∀ n, validSem k.listSem i false = some n → ∀ L, ledger n tr = some L → L.total + 1 ≤ maxCount
  | _ => True

variable {k k' : Kernel} {a a' : AState} {e : Event} {M : Machine} {tr : KTrace} {o : Out} {n m : Sem}
  {s : Slot} {hd : Node} {L : Ledger} {off : Slot → Prop}

/-- No head is on `readyqueue`: the queues are those that the kernel state names. -/
theorem WF.heads_iff (hW : WF k a) (hw : ∀ n, ¬ a.Wild n) : Heads a.IsInit a.queue hd ↔ IsQueue k hd := by
  cases hd with
  | blocked n =>
    rw [IsQueue, hW.sem]
    exact ⟨fun h => h.1, fun h => ⟨h, hw n⟩⟩
  | _ => exact Iff.rfl

theorem WF.partition (hW : WF k a) (hw : ∀ n, ¬ a.Wild n) : Partition k := by
  have hq : ∀ {hd}, IsQueue k hd → members k hd = a.queue hd := fun h =>
    hW.queues.members_eq ((hW.heads_iff hw).2 h)
  have hh : ∀ {hd}, IsQueue k hd → Heads a.IsInit a.queue hd := (hW.heads_iff hw).2
  refine ⟨fun hd h => ?_, fun hd hd' h h' hne => ?_, fun hd h x hx => ?_, fun s hs hd h hm => ?_,
    fun s hc hi => ?_⟩
  · rw [hq h]
    exact hW.queues.rings.ring hd (hh h)
  · rw [hq h, hq h']
    exact hW.queues.rings.disj hd hd' (hh h) (hh h') hne
  · rw [hq h] at hx
    cases hd with
    | freequeue => exact hW.queues.free_task x hx
    | readyqueue =>
      rcases hW.queues.ready_node x hx with hx | ⟨n, -, rfl⟩
      · exact hx
      · exact absurd hx (hw n)
    | blocked n => exact hW.queues.blocked_task n (hh h) x hx
    | task s => exact h.elim
  · rw [hq h] at hm
    rw [hW.current, hW.idle] at hs
    exact hW.queues.not_off (hh h) hm hs
  · rw [hW.current] at hc
    rw [hW.idle] at hi
    have hp := mt (hW.queues.place s).1 (not_or.2 ⟨hc, hi⟩)
    push Not at hp
    obtain ⟨hd, h1, h2⟩ := hp
    have h1' := (hW.heads_iff hw).1 h1
    refine ⟨hd, ⟨h1', by rw [hq h1']; exact h2⟩, ?_⟩
    rintro hd' ⟨h3, h4⟩
    rw [hq h3] at h4
    exact hW.queues.unique (hh h3) h1 h4 h2

/-! ### Each call finds its node listed -/

/-- The first node of a queue is on a list. -/
theorem Shape.first_listed (hS : Shape k a off) (hh : Heads a.IsInit a.queue hd)
    (hne : a.queue hd ≠ []) {x : Node} (hx : listFirst k.links hd = .ok x) : Listed k.links x := by
  obtain ⟨y, ys, hq⟩ := List.exists_cons_of_ne_nil hne
  have hF := listFirst_rings hS.queues.rings hh
  rw [hq, firstOf, hx] at hF
  cases hF
  exact ⟨hd, a.queue hd, hS.queues.rings.ring hd hh, by rw [hq]; exact List.mem_cons_self⟩

theorem nextDel_listed (hS : Shape k a off) {d : Heap Node × Node} (hd : d ∈ nextDel k.links) : Listed d.1 d.2 := by
  unfold nextDel at hd
  split at hd
  · rename_i hne
    split at hd
    · rename_i x hx
      rw [List.mem_singleton] at hd
      subst hd
      refine hS.first_listed Heads.ready (fun hq => ?_) hx
      rw [(listEmpty_rings hS.queues.rings Heads.ready).2 hq] at hne
      cases hne
    · cases hd
  · cases hd

theorem leaveDels_listed (hW : WF k a) (hc : a.current ≠ a.idle) (hh : Heads a.IsInit a.queue hd)
    {d : Heap Node × Node} (hd : d ∈ leaveDels k hd) : Listed d.1 d.2 := by
  obtain ⟨h', h1, hS⟩ := hW.toShape.pushCurrent hc hh
  unfold leaveDels at hd
  rw [h1] at hd
  exact nextDel_listed hS hd

theorem switchDels_listed (hW : WF k a) (hc : a.current ≠ a.idle) {d : Heap Node × Node}
    (hd : d ∈ switchDels k) : Listed d.1 d.2 := by
  have hrun : (k.task k.current).state = .ST_RUN := hW.current ▸ hW.run
  obtain ⟨h', h1, hS⟩ := hW.toShape.pushCurrent hc Heads.ready
  have hupd : ∃ k', updateProcessStateRr k k.current (some .readyqueue) = .ok k' ∧ k'.links = h' := by
    refine ⟨_, by simp [updateProcessStateRr, hrun, h1, bind, Except.bind, pure, Except.pure]; rfl, rfl⟩
  obtain ⟨k', h2, h3⟩ := hupd
  -- the current task is in state `ST_RUN`, so that it is not unlinked
  unfold switchDels at hd
  rw [if_neg (by simp [hrun]), h2, List.nil_append] at hd
  simp only [h3] at hd
  exact nextDel_listed hS hd

theorem takeDels_listed (hW : WF k a) {d : Heap Node × Node} (hd : d ∈ takeDels k) : Listed d.1 d.2 := by
  unfold takeDels at hd
  split at hd
  · cases hd
  · rename_i hne
    split at hd
    · rename_i x hx
      rw [List.mem_singleton] at hd
      subst hd
      exact hW.toShape.first_listed Heads.free (fun hq => hne ((listEmpty_rings hW.queues.rings Heads.free).2 hq)) hx
    · cases hd

theorem destroyDels_listed (f : ℕ) : ∀ {k : Kernel} {a : AState}, WF k a → a.current ≠ a.idle →
    Heads a.IsInit a.queue (.blocked n) → ∀ d ∈ destroyDels n f k, Listed d.1 d.2 := by
  induction f with
  | zero =>
    intro k a _ _ _ d hd
    cases hd
  | succ f ih =>
    intro k a hW hc hh d hd
    unfold destroyDels at hd
    split at hd
    · cases hd
    rename_i hne
    have hne : a.queue (.blocked n) ≠ [] := fun hq => hne ((listEmpty_rings hW.queues.rings hh).2 hq)
    split at hd
    swap
    · cases hd
    rename_i x hx
    rcases List.mem_cons.1 hd with rfl | hd
    · exact hW.toShape.first_listed hh hne hx
    · obtain ⟨y, xs, hq⟩ := List.exists_cons_of_ne_nil hne
      obtain ⟨t, rfl⟩ := hW.queues.blocked_task n hh y (by rw [hq]; simp)
      obtain ⟨k', hone, hW'⟩ := destroyOne_ok hW hc hh hq
      rw [hone] at hd
      exact ih hW' hc (heads_moved hh) d hd

/-- **In every call `list_del` finds its node on a list**, while no head is on `readyqueue` and a
signal that wakes finds a waiter. -/
theorem callDels_listed (hW : WF k a) (hc : a.current ≠ a.idle) (hw : ∀ n, ¬ a.Wild n) {c : Call}
    (hs : ∀ i, c = .semSignal i → ∀ n, validSem a.sem i false = some n →
      ((a.sem n).counter + 1).toInt ≤ 0 → a.queue (.blocked n) ≠ [])
    {d : Heap Node × Node} (hd : d ∈ callDels k c) : Listed d.1 d.2 := by
  have hh : ∀ {i : Word} {n : Sem}, validSem a.sem i false = some n → Heads a.IsInit a.queue (.blocked n) := by
    intro i n h
    exact heads_blocked (validSem_init h) (hw n)
  -- the node a call takes off a list is the current task's, or the first of a list
  cases c with
  | exit => exact leaveDels_listed hW hc Heads.free hd
  | fork => exact takeDels_listed hW hd
  | createthread _ _ _ => exact takeDels_listed hW hd
  | yield => exact switchDels_listed hW hc hd
  | terminatethread =>
    have hd : d ∈ endDels k := hd
    unfold endDels at hd
    split at hd
    · cases hd
    · exact leaveDels_listed hW hc Heads.free hd
  | semWait i =>
    have hd : d ∈ waitDels k i := hd
    unfold waitDels at hd
    rw [hW.sem] at hd
    split at hd
    · cases hd
    rename_i n hv
    split at hd
    · exact leaveDels_listed hW hc (hh hv) hd
    · cases hd
  | semSignal i =>
    have hd : d ∈ signalDels k i := hd
    unfold signalDels at hd
    rw [hW.sem] at hd
    split at hd
    · cases hd
    rename_i n hv
    split at hd
    swap
    · cases hd
    rename_i hle
    split at hd
    · rename_i x hx
      rw [List.mem_singleton] at hd
      subst hd
      -- this one is only on a list if somebody waits
      exact hW.toShape.first_listed (hh hv) (hs i rfl n hv hle) hx
    · cases hd
  | semDestroy i =>
    have hd : d ∈ waitersDels k i := hd
    unfold waitersDels at hd
    rw [hW.sem] at hd
    split at hd
    · cases hd
    rename_i n hv
    exact destroyDels_listed _ hW hc (hh hv) d hd
  | _ => cases hd

/-! ### Along a run -/

/-- **Each task is in one place.** After any run in which the semaphores stay in range, the queues
are disjoint rings of tasks and each task is on exactly one of them, or runs, or is idle; and in
what comes next no `list_del` is on a node that is on no list. -/
theorem task_partition (hr : KRun M tr k) (hf : ∀ n L, ledger n tr = some L → L.Fits) :
    Partition k ∧ ∀ e, (e.ofUser = true → k.current ≠ k.idleTask) → SignalFits tr k e →
      ∀ d ∈ listDels k e, Listed d.1 d.2 := by
  obtain ⟨a, hW, hA⟩ := run_tally hr
  have htally : ∀ {n}, a.IsInit n → ∃ L, ledger n tr = some L ∧ a.Tally n L := fun hi => by
    obtain ⟨L, hL⟩ := Option.ne_none_iff_exists'.1 ((hA _).init.1 hi)
    exact ⟨L, hL, (hA _).tally L hL ((hA _).fits L hL (hf _ L hL))⟩
  have hw : ∀ n, ¬ a.Wild n := by
    intro n
    by_cases hi : a.IsInit n
    · obtain ⟨L, -, hT⟩ := htally hi
      exact hT.head
    · exact hW.not_wild hi
  refine ⟨hW.partition hw, fun e hu hsig d hd => ?_⟩
  rw [hW.current, hW.idle] at hu
  unfold listDels at hd
  split at hd
  · rename_i c u b
    split at hd
    swap
    · cases hd
    rename_i k₁ hk₁
    rcases enterCall_cases hW u with ⟨_, h, -⟩ | ⟨k₂, h, hW₂, -⟩
    · rw [hk₁] at h; cases h
    rw [hk₁] at h
    cases h
    refine callDels_listed hW₂ (hu rfl) hw (fun i hc n hv hle => ?_) hd
    subst hc
    obtain ⟨L, hL, hT⟩ := htally (validSem_init hv)
    have hlt := hsig n (hW.sem ▸ hv) L hL
    have hc := hT.counter
    exact hT.wake_ne_nil (by omega) hle
  · have hW₁ : WF (clockEntry k) a := hW.clockEntry
    obtain ⟨h₂, ht₂⟩ := needsSchedRr_same (clockEntry k)
    have hW₂ : WF (needsSchedRr (clockEntry k)).2 a := hW₁.same h₂ (by rw [ht₂])
    change d ∈ if (needsSchedRr (clockEntry k)).1 then switchDels (needsSchedRr (clockEntry k)).2 else [] at hd
    split at hd
    · rename_i hn
      have hc : a.current ≠ a.idle := fun h => needsSchedRr_ready hW₁.toShape hn (hW.alone h)
      exact switchDels_listed hW₂ hc hd
    · cases hd
  · cases hd

/-- Task 1 makes a child and waits, and a signal of the child takes it off the list. -/
theorem task_partition_signal : ∃ tr k, KRun aMachine tr k ∧
    tr.map (·.event) = [.sysenter (.semWait 0) someStack 1000, .sysenter (.semInit 0 0) someStack 1000,
      .sysenter .fork someStack 1000] ∧ Partition k ∧
    ∃ h, listDels k (.sysenter (.semSignal 0) someStack 1000) = [(h, .task 1)] ∧ Listed h (.task 1) := by
  obtain ⟨tr, k, a, hr, he, hL, hW, hP⟩ := waiting_run aMachine
  have hf : ∀ n L, ledger n tr = some L → L.Fits := by
    intro n L hn
    rw [hL] at hn
    split at hn
    · cases hn
      decide
    · cases hn
  have hfits : SignalFits tr k (.sysenter (.semSignal 0) someStack 1000) := by
    intro n _ L hn
    rw [hL] at hn
    split at hn
    · cases hn
      decide
    · cases hn
  -- the signal finds a counter of -1 and task 1 on the list
  have hdels : ∃ h, listDels k (.sysenter (.semSignal 0) someStack 1000) = [(h, .task 1)] := by
    obtain ⟨k₁, hk₁, hW₁⟩ := enterCall_ok hW hP.data_current
    have hvalid : validSem k₁.listSem 0 false = some 0 := hW₁.sem ▸ hP.valid
    have hle : ((k₁.listSem 0).counter + 1).toInt ≤ 0 := by
      rw [hW₁.sem, hP.sem]
      decide
    have hheads : Heads a.IsInit a.queue (.blocked 0) :=
      heads_blocked (congrArg Semaphore.isInit hP.sem) (hP.not_wild (by simp))
    have hfirst : listFirst k₁.links (.blocked 0) = .ok (.task 1) := by
      rw [listFirst_rings hW₁.queues.rings hheads, hP.blocked]
      rfl
    refine ⟨k₁.links, ?_⟩
    rw [listDels, hk₁]
    show signalDels k₁ 0 = _
    rw [signalDels, hvalid]
    show (if _ then _ else _) = _
    rw [if_pos hle, hfirst]
  obtain ⟨h, hd⟩ := hdels
  obtain ⟨h1, h2⟩ := task_partition hr hf
  have huser : k.current ≠ k.idleTask := by
    rw [hW.current, hW.idle]
    exact hP.user
  have hlisted := h2 _ (fun _ => huser) hfits (h, .task 1)
  rw [hd] at hlisted
  exact ⟨tr, k, hr, he, h1, h, hd, hlisted (List.mem_singleton_self _)⟩

end Zeos
