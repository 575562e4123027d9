import Zeos.Proof.Ledger

/-!
# Semaphores

* `semaphore_accounting`: **counter, waiting tasks and order of the grants** of a semaphore
  that stays in range.
* `wake_finds_waiter`: **a signal that wakes finds a waiting task** in every run that keeps
  to `CountInRange`.
* `signal_empty_list`: `sys_sem_init` takes its value for unsigned and the counter is
  signed: a run that starts with a negative one and wakes nobody.
-/

namespace Zeos

open LinkHeap ForLoop Execution

variable {k k' : Kernel} {a a' : AState} {e : Event} {M : Machine} {tr : KTrace} {o : Out} {n m : Sem}
  {s t : Slot} {i u v : Word} {b : ℕ} {L : Ledger}

/-! ### Calls that come back -/

theorem semInit_step (hW : WF k a) (hc : a.current ≠ a.idle) (hd : HasData a.table a.tab)
    (hv : validSem a.sem i true = some n) (v : Word) (b : ℕ) :
    ∃ o k', Step k (.sysenter (.semInit i v) someStack b) o k' ∧ WF k' (a.semInit n v) := by
  obtain ⟨o, k', a', hs, h, hW'⟩ := call_step (b := b) hW hc hd (x := .semInit i v) fun k₁ _ => ⟨_, rfl⟩
  generalize o.switch = sw at h
  cases h.called hv with
  | init _ => exact ⟨o, k', hs, hW'⟩

theorem semWait_step (hW : WF k a) (hc : a.current ≠ a.idle) (hd : HasData a.table a.tab)
    (hv : validSem a.sem i false = some n) (hp : 0 ≤ ((a.sem n).counter - 1).toInt) (b : ℕ) :
    ∃ o k', Step k (.sysenter (.semWait i) someStack b) o k' ∧ o.switch = none ∧ WF k' (a.count n (-1)) := by
  have hok : ∀ k₁, WF k₁ a → ∃ r, systemCall k₁ b (.semWait i) = .ok r := by
    intro k₁ hW₁
    have hcnt : ¬ ((k₁.setSem n { k₁.listSem n with counter := (k₁.listSem n).counter - 1 }).listSem n).counter.toInt
        < 0 := by
      simpa [Kernel.setSem, hW₁.sem] using hp
    simp only [systemCall, sysSemWait, hW₁.sem ▸ hv, if_neg hcnt]
    exact ⟨_, rfl⟩
  obtain ⟨o, k', a', hs, h, hW'⟩ := call_step hW hc hd hok
  generalize hsw : o.switch = sw at h
  cases h.called hv with
  | waitPass _ _ => exact ⟨o, k', hs, hsw, hW'⟩
  | waitBlock _ hneg => omega
  | waitWild _ hneg => omega

theorem semSignal_step (hW : WF k a) (hc : a.current ≠ a.idle) (hd : HasData a.table a.tab)
    (hv : validSem a.sem i false = some n) (hw : ¬ a.Wild n) (b : ℕ) :
    ∃ o k' a', Step k (.sysenter (.semSignal i) someStack b) o k' ∧ WF k' a' ∧
      AStep a (.sysenter (.semSignal i) someStack b) o.switch a' := by
  have hok : ∀ k₁, WF k₁ a → ∃ r, systemCall k₁ b (.semSignal i) = .ok r := by
    intro k₁ hW₁
    obtain ⟨k₂, -, h, -⟩ := sysSemSignal_sound hW₁ hc hv hw someStack b
    exact ⟨returning (0, k₂), by rw [systemCall, h]; rfl⟩
  obtain ⟨o, k', a', hs, h, hW'⟩ := call_step hW hc hd hok
  exact ⟨o, k', a', hs, hW', h⟩

/-- A signal that should wake a task, when nobody waits: the list head goes to `readyqueue`. -/
theorem splice_step (hW : WF k a) (hc : a.current ≠ a.idle) (hd : HasData a.table a.tab)
    (hv : validSem a.sem i false = some n) (hw : ¬ a.Wild n) (hle : ((a.sem n).counter + 1).toInt ≤ 0)
    (hq : a.queue (.blocked n) = []) (b : ℕ) :
    ∃ o k', Step k (.sysenter (.semSignal i) someStack b) o k' ∧ o.switch = none ∧
      WF k' ((a.count n 1).put .readyqueue (a.queue .readyqueue ++ [.blocked n])) := by
  obtain ⟨o, k', a', hs, hW', h⟩ := semSignal_step hW hc hd hv hw b
  generalize hsw : o.switch = sw at h
  cases h.called hv with
  | signalPass _ hp => exact absurd hp (by omega)
  | signalWake _ _ _ hne => cases hq.symm.trans hne
  | signalSplice _ => exact ⟨o, k', hs, hsw, hW'⟩
  | signalWild _ _ hw' => exact absurd hw' hw

/-- A signal that has nobody to wake. -/
theorem signalPass_step (hW : WF k a) (hc : a.current ≠ a.idle) (hd : HasData a.table a.tab)
    (hv : validSem a.sem i false = some n) (hw : ¬ a.Wild n) (hp : 0 < ((a.sem n).counter + 1).toInt) (b : ℕ) :
    ∃ o k', Step k (.sysenter (.semSignal i) someStack b) o k' ∧ o.switch = none ∧ WF k' (a.count n 1) := by
  obtain ⟨o, k', a', hs, hW', h⟩ := semSignal_step hW hc hd hv hw b
  generalize hsw : o.switch = sw at h
  cases h.called hv with
  | signalPass _ _ => exact ⟨o, k', hs, hsw, hW'⟩
  | signalWake _ hle => omega
  | signalSplice _ hle => omega
  | signalWild _ hle => omega

/-- A signal that wakes the first task on the list. -/
theorem wake_step (hW : WF k a) (hc : a.current ≠ a.idle) (hd : HasData a.table a.tab)
    (hv : validSem a.sem i false = some n) (hw : ¬ a.Wild n) (hle : ((a.sem n).counter + 1).toInt ≤ 0) {xs : List Node}
    (hq : a.queue (.blocked n) = .task s :: xs) (b : ℕ) :
    ∃ o k', Step k (.sysenter (.semSignal i) someStack b) o k' ∧ o.switch = none ∧
      WF k' (((a.count n 1).put (.blocked n) xs).push .readyqueue s) := by
  obtain ⟨o, k', a', hs, hW', h⟩ := semSignal_step hW hc hd hv hw b
  generalize hsw : o.switch = sw at h
  cases h.called hv with
  | signalPass _ hp => exact absurd hp (by omega)
  | signalWake _ _ _ hne =>
    cases hq.symm.trans hne
    exact ⟨o, k', hs, hsw, hW'⟩
  | signalSplice _ _ _ hne => cases hq.symm.trans hne
  | signalWild _ _ hw' => exact absurd hw' hw

/-- Task 1 initialises semaphore 0. -/
theorem semInit_run (M : Machine) (v : Word) (b : ℕ) : ∃ k₀ o k, KRun M [] k₀ ∧
    Step k₀ (.sysenter (.semInit 0 v) someStack b) o k ∧ WF k ((bootState M).semInit 0 v) ∧
    Ready ((bootState M).semInit 0 v) 356 ∧ WF k₀ (bootState M) := by
  obtain ⟨k₀, hr₀, hW₀⟩ := boot_run M
  have hR₀ := boot_ready M
  have hv : validSem (bootState M).sem 0 true = some 0 := rfl
  obtain ⟨o, k, hs, hW⟩ := semInit_step hW₀ hR₀.user hR₀.data hv v b
  exact ⟨k₀, o, k, hr₀, hs, hW, ⟨hR₀.user, hR₀.data, hR₀.frames⟩, hW₀⟩

/-! ### Two tasks and a semaphore -/

/-- Tasks 1 and 2, with pages of their own, semaphore 0 with counter `v`, and the stack pointer that task 2 has saved. -/
structure Pair (a : AState) (cur : Slot) (v : Word) (esp : StackPtr) (ready blocked : List Node) : Prop where
  running : cur = 1 ∨ cur = 2
  current : a.current = cur
  idle : a.idle = 0
  sem : a.sem 0 = ⟨true, v⟩
  esp : a.esp 2 = esp
  ready : a.queue .readyqueue = ready
  blocked : a.queue (.blocked 0) = blocked
  data : ∀ s, s = 1 ∨ s = 2 → HasData a.table (a.dir s)

namespace Pair

variable {cur : Slot} {p : StackPtr} {xs ys : List Node}

theorem user (h : Pair a cur v p xs ys) : a.current ≠ a.idle := by
  rw [h.current, h.idle]
  rcases h.running with rfl | rfl <;> decide

theorem data_current (h : Pair a cur v p xs ys) : HasData a.table a.tab := h.data _ (h.current ▸ h.running)

theorem valid (h : Pair a cur v p xs ys) : validSem a.sem 0 false = some 0 := by simp [validSem, h.sem]

theorem not_wild (h : Pair a cur v p xs ys) (hx : .blocked 0 ∉ xs) : ¬ a.Wild 0 := by
  rw [AState.Wild, h.ready]
  exact hx

/-- A call that moves the counter only. -/
theorem counted (h : Pair a cur v p xs ys) (d : Word) : Pair (a.count 0 d) cur (v + d) p xs ys where
  running := h.running
  current := h.current
  idle := h.idle
  sem := by simp [AState.count, AState.setSem, h.sem]
  esp := h.esp
  ready := h.ready
  blocked := h.blocked
  data := h.data

/-- The current task gives the CPU to the other one. -/
theorem yield (h : Pair a cur v p (.task t :: xs) ys) (hW : WF k a) (ht : t = 1 ∨ t = 2) :
    ∃ o k' a', Step k (.sysenter .yield someStack 1000) o k' ∧ WF k' a' ∧
      Pair a' t v (if cur = 2 then some (2, 1000) else p) (xs ++ [.task cur]) ys ∧
      ∃ x, o.switch = some x ∧ x.incoming = t := by
  obtain ⟨o, k', hs, hsw, hW'⟩ := yield_step hW h.user h.data_current h.ready 1000
  have hq : (a.push .readyqueue a.current).queue .readyqueue = .task t :: (xs ++ [.task cur]) := by
    simp [AState.push, AState.put, h.ready, h.current]
  have hnext : (a.push .readyqueue a.current).next = t := by simp [AState.next, hq]
  refine ⟨o, k', _, hs, hW', ⟨ht, hnext, h.idle, h.sem, ?_, ?_, ?_, h.data⟩, _, hsw, hnext⟩
  · by_cases hc : cur = 2
    · simp [AState.dispatch, AState.push, AState.put, h.current, hc]
    · simp [AState.dispatch, AState.push, AState.put, h.current, hc, Function.update_of_ne (Ne.symm hc), h.esp]
  · simp [AState.dispatch, AState.put, hq]
  · simpa [AState.dispatch, AState.push, AState.put] using h.blocked

/-- The current task waits, and leaves the CPU to the other one. -/
theorem wait (h : Pair a cur v p (.task t :: xs) ys) (hW : WF k a) (ht : t = 1 ∨ t = 2) (hx : .blocked 0 ∉ xs)
    (hneg : (v - 1).toInt < 0) :
    ∃ o k' a', Step k (.sysenter (.semWait 0) someStack 1000) o k' ∧ WF k' a' ∧
      Pair a' t (v - 1) (if cur = 2 then some (2, 1000) else p) xs (ys ++ [.task cur]) ∧
      ∃ x, o.switch = some x ∧ x.incoming = t := by
  obtain ⟨o, k', hs, hsw, hW'⟩ := waitBlock_step hW h.user h.data_current h.valid (by rw [h.sem]; exact hneg)
    (h.not_wild (by simpa using hx)) (.inr h.ready) 1000
  have hq : ((a.count 0 (-1)).push (.blocked 0) a.current).queue .readyqueue = .task t :: xs := by
    simp [AState.push, AState.put, AState.count, AState.setSem, h.ready]
  have hnext : ((a.count 0 (-1)).push (.blocked 0) a.current).next = t := by simp only [AState.next, hq]
  refine ⟨o, k', _, hs, hW', ⟨ht, hnext, h.idle, ?_, ?_, ?_, ?_, h.data⟩, _, hsw, hnext⟩
  · have hsem : (((a.count 0 (-1)).push (.blocked 0) a.current).dispatch 1000).sem 0 =
        { a.sem 0 with counter := (a.sem 0).counter + -1 } := by
      simp [AState.dispatch, AState.push, AState.put, AState.count, AState.setSem]
    rw [hsem, h.sem, BitVec.sub_eq_add_neg]
  · by_cases hc : cur = 2
    · simp [AState.dispatch, AState.push, AState.put, AState.count, AState.setSem, h.current, hc]
    · simp [AState.dispatch, AState.push, AState.put, AState.count, AState.setSem, h.current, hc,
        Function.update_of_ne (Ne.symm hc), h.esp]
  · simp only [AState.dispatch, AState.put, Function.update_self, hq, List.tail_cons]
  · simp [AState.dispatch, AState.push, AState.put, AState.count, AState.setSem, h.blocked, h.current]

/-- A signal that wakes the first task on the list. -/
theorem wake (h : Pair a cur v p xs (.task t :: ys)) (hW : WF k a) (hx : .blocked 0 ∉ xs) (hle : (v + 1).toInt ≤ 0) :
    ∃ o k' a', Step k (.sysenter (.semSignal 0) someStack 1000) o k' ∧ WF k' a' ∧
      Pair a' cur (v + 1) p (xs ++ [.task t]) ys ∧ o.switch = none := by
  obtain ⟨o, k', hs, hsw, hW'⟩ := wake_step hW h.user h.data_current h.valid (h.not_wild hx)
    (by rw [h.sem]; exact hle) h.blocked 1000
  refine ⟨o, k', _, hs, hW', ⟨h.running, h.current, h.idle, ?_, h.esp, ?_, ?_, h.data⟩, hsw⟩
  · simp [AState.push, AState.put, AState.count, AState.setSem, h.sem]
  · simp [AState.push, AState.put, AState.count, AState.setSem, h.ready]
  · simp [AState.push, AState.put]

/-- A signal that finds nobody to wake. -/
theorem splice (h : Pair a cur v p xs []) (hW : WF k a) (hx : .blocked 0 ∉ xs) (hle : (v + 1).toInt ≤ 0) :
    ∃ o k' a', Step k (.sysenter (.semSignal 0) someStack 1000) o k' ∧ WF k' a' ∧
      Pair a' cur (v + 1) p (xs ++ [.blocked 0]) [] ∧ o.switch = none := by
  obtain ⟨o, k', hs, hsw, hW'⟩ := splice_step hW h.user h.data_current h.valid (h.not_wild hx)
    (by rw [h.sem]; exact hle) h.blocked 1000
  refine ⟨o, k', _, hs, hW', ⟨h.running, h.current, h.idle, ?_, h.esp, ?_, ?_, h.data⟩, hsw⟩
  · simp [AState.put, AState.count, AState.setSem, h.sem]
  · simp [AState.put, AState.count, AState.setSem, h.ready]
  · simpa [AState.put, AState.count, AState.setSem] using h.blocked

theorem members_eq (h : Pair a cur v p xs ys) (hW : WF k a) (hx : .blocked 0 ∉ xs) :
    members k (.blocked 0) = ys :=
  (hW.members_blocked (congrArg Semaphore.isInit h.sem) (h.not_wild hx)).trans h.blocked

end Pair

/-- Task 1 makes a child, and initialises semaphore 0 with `v`. -/
theorem pair_run (M : Machine) (v : Word) : ∃ tr k a, KRun M tr k ∧
    tr.map (·.event) = [.sysenter (.semInit 0 v) someStack 1000, .sysenter .fork someStack 1000] ∧
    (∀ n, ledger n tr = if n = 0 then some { value := v.toNat, inRange := v.toNat ≤ maxCount } else none) ∧ WF k a ∧
    Pair a 1 v (some (2, 999)) [.task 2] [] := by
  obtain ⟨k₀, o₁, k₁, fs, hr₀, -, hs₁, hW₁, -, hR₁⟩ := fork_run M 1000
  have hv : validSem ((bootState M).forkOk 2 bootFree.tail 1000 fs).sem 0 true = some 0 := rfl
  obtain ⟨o₂, k₂, hs₂, hW₂⟩ := semInit_step hW₁ hR₁.user hR₁.data hv v 1000
  refine ⟨_, k₂, _, (hr₀.step hs₁).step hs₂, rfl, fun n => ?_, hW₂,
    ⟨.inl rfl, rfl, rfl, ?_, ?_, ?_, ?_, fun s hs => ?_⟩⟩
  · have hvalid : validSem k₁.listSem 0 true = some 0 := hW₁.sem ▸ hv
    simp only [ledger_cons, ledgerStep, hvalid, Option.some.injEq]
    exact if_congr eq_comm rfl rfl
  · simp [AState.semInit, AState.setSem, AState.put]
  · simp [AState.semInit, AState.setSem, AState.put, AState.forkOk, AState.spawn, bootState]
  · simp [AState.semInit, AState.setSem, AState.put, forkOk_queue, bootState]
  · simp [AState.semInit, AState.put]
  · have hdir : ((bootState M).forkOk 2 bootFree.tail 1000 fs).dir s = s := by
      rcases hs with rfl | rfl
      · exact forkOk_dir.trans (if_neg (by decide))
      · exact forkOk_dir.trans (if_pos rfl)
    show HasData (forkTable _ _ _ fs) (((bootState M).forkOk 2 bootFree.tail 1000 fs).dir s)
    rw [hdir]
    exact forkTable_data (boot_ready M).data (hs.symm.imp id fun h => h)

theorem ledger_wait (hv : validSem k.listSem i false = some m) :
    ledger n (⟨k, .sysenter (.semWait i) u b, o, k'⟩ :: tr) =
      if m = n then (ledger n tr).map fun L => L.wait k.current (o.switch = none) else ledger n tr := by
  rw [ledger_cons, ledgerStep]
  simp only [hv, Option.some.injEq]

/-- Task 1 makes a child and waits on semaphore 0, which starts with 0. The child goes on. -/
theorem waiting_run (M : Machine) : ∃ tr k a, KRun M tr k ∧
    tr.map (·.event) = [.sysenter (.semWait 0) someStack 1000, .sysenter (.semInit 0 0) someStack 1000,
      .sysenter .fork someStack 1000] ∧
    (∀ n, ledger n tr = if n = 0 then some (Ledger.wait { value := 0, inRange := true } 1 false) else none) ∧ WF k a ∧
    Pair a 2 (0 - 1) (some (2, 999)) [] [.task 1] := by
  obtain ⟨tr, k₁, a₁, hr₁, he, hL, hW₁, hP₁⟩ := pair_run M 0
  obtain ⟨o, k, a, hs, hW, hP, x, hsw, -⟩ := hP₁.wait hW₁ (.inr rfl) (by simp) (by decide)
  refine ⟨_, k, a, hr₁.step hs, congrArg _ he, fun n => ?_, hW, hP⟩
  rw [ledger_wait (hW₁.sem ▸ hP₁.valid), hL, hW₁.current, hP₁.current, hsw]
  by_cases hn : n = 0
  · subst hn
    rfl
  · rw [if_neg (Ne.symm hn), if_neg hn, if_neg hn]

/-! ### Accounting -/

/-- **Semaphore accounting.** With initial value and signals together in range, after any run:
the counter is the initial value plus the signals less the waits; the waits beyond that sum are
those on the list, in the order of the calls, and the others are those granted, in the same
order; and when signals come from tasks that were let through only, no more tasks are inside
than the initial value. -/
theorem semaphore_accounting (hr : KRun M tr k) (hL : ledger n tr = some L) (hf : L.Fits) :
    (k.listSem n).counter.toInt = L.value + L.signals - L.waits.length ∧
    ((members k (.blocked n)).length : ℤ) = max 0 (-(k.listSem n).counter.toInt) ∧
    members k (.blocked n) = (L.waits.drop (L.value + L.signals)).map Node.task ∧
    L.granted = L.waits.take (L.value + L.signals) ∧
    L.granted.length ≤ L.value + L.signals ∧
    (L.paired = true → L.inside.length ≤ L.value) := by
  obtain ⟨a, hW, hA⟩ := run_tally hr
  have hT := (hA n).tally L hL ((hA n).fits L hL hf)
  have hi : a.IsInit n := (hA n).init.2 (by rw [hL]; simp)
  have hlen := hT.length_blocked
  have hc := hT.counter
  have hg := hT.granted
  rw [hW.members_blocked hi hT.head, hW.sem]
  simp only [Ledger.total] at hlen hc hg
  have hgl : L.granted.length ≤ L.value + L.signals := by
    rw [hg, List.length_take]
    omega
  refine ⟨?_, ?_, hT.blocked, hg, hgl, fun hp => ?_⟩
  · rw [hc]
    push_cast
    rfl
  · omega
  · have := hT.inside hp
    omega

/-- Both wait on a semaphore that starts with 0, with a signal in between: the first is let through, the
second is on the list. -/
theorem semaphore_accounting_fork : ∃ tr k L, KRun aMachine tr k ∧
    tr.map (·.event) = [.sysenter (.semWait 0) someStack 1000, .sysenter (.semSignal 0) someStack 1000,
      .sysenter (.semWait 0) someStack 1000, .sysenter (.semInit 0 0) someStack 1000, .sysenter .fork someStack 1000] ∧
    ledger 0 tr = some L ∧ L.waits = [1, 2] ∧ L.granted = [1] ∧ members k (.blocked 0) = [.task 2] ∧
    (k.listSem 0).counter.toInt = -1 := by
  obtain ⟨tr, k₂, a₂, hr₂, he, hL₂, hW₂, hP₂⟩ := waiting_run aMachine
  obtain ⟨o₃, k₃, a₃, hs₃, hW₃, hP₃, -⟩ := hP₂.wake hW₂ (by simp) (by decide)
  obtain ⟨o₄, k₄, a₄, hs₄, hW₄, hP₄, x, hsw, -⟩ := hP₃.wait hW₃ (.inl rfl) (by simp) (by decide)
  have hr := (hr₂.step hs₃).step hs₄
  have hwoken : woken 0 ⟨k₂, .sysenter (.semSignal 0) someStack 1000, o₃, k₃⟩ = [1] := by
    rw [woken, hP₂.members_eq hW₂ (by simp), hP₃.members_eq hW₃ (by simp)]
    rfl
  have hcount : (k₂.listSem 0).counter = 0 - 1 := by rw [hW₂.sem, hP₂.sem]
  have hL₃ : ledger 0 (⟨k₂, .sysenter (.semSignal 0) someStack 1000, o₃, k₃⟩ :: tr) =
      some ((Ledger.wait { value := 0, inRange := true } 1 false).signal 2 [1] true) := by
    have hvalid : validSem k₂.listSem 0 false = some 0 := hW₂.sem ▸ hP₂.valid
    rw [ledger_cons, ledgerStep]
    simp only [hvalid, hL₂, hwoken, hcount, hW₂.current, hP₂.current]
    rfl
  have hL : ledger 0 (⟨k₃, .sysenter (.semWait 0) someStack 1000, o₄, k₄⟩ ::
      ⟨k₂, .sysenter (.semSignal 0) someStack 1000, o₃, k₃⟩ :: tr) =
      some (((Ledger.wait { value := 0, inRange := true } 1 false).signal 2 [1] true).wait 2 false) := by
    rw [ledger_wait (hW₃.sem ▸ hP₃.valid), if_pos rfl, hL₃, hW₃.current, hP₃.current, hsw]
    rfl
  obtain ⟨h1, -, h3, h4, -⟩ := semaphore_accounting hr hL (by decide)
  exact ⟨_, k₄, _, hr, congrArg (_ :: _ :: ·) he, hL, rfl, h4, h3, h1⟩

/-! ### Signals that wake -/

/-- The counter of the semaphore is not taken out of range: no initial value of 2^31 or more,
and no signal on the largest counter. -/
def CountInRange (k : Kernel) : Event → Prop
  | .sysenter (.semInit i v) _ _ => validSem k.listSem i true ≠ none → v.toNat ≤ maxCount
  | .sysenter (.semSignal i) _ _ =>
    ∀ n, validSem k.listSem i false = some n → (k.listSem n).counter.toInt < maxCount
  | _ => True

theorem ledger_inRange (hC : ∀ t ∈ tr, CountInRange t.before t.event) :
    ∀ L, ledger n tr = some L → L.inRange = true := by
  -- on the trace, which grows at its head
  induction tr with
  | nil =>
    intro L hL
    cases hL
  | cons t tr ih =>
    have ih := ih fun t' h => hC t' (List.mem_cons_of_mem _ h)
    have ht := hC t List.mem_cons_self
    intro L hL
    rw [ledger_cons] at hL
    unfold ledgerStep at hL
    unfold CountInRange at ht
    split at hL
    · split at hL
      · rename_i he hv
        simp only [he, hv] at ht
        cases hL
        exact decide_eq_true (ht (by simp))
      · exact ih L hL
    · split at hL
      · obtain ⟨L₀, h₀, rfl⟩ := Option.map_eq_some_iff.1 hL
        exact ih L₀ h₀
      · exact ih L hL
    · split at hL
      · rename_i he hv
        obtain ⟨L₀, h₀, rfl⟩ := Option.map_eq_some_iff.1 hL
        simp only [he] at ht
        simp only [Ledger.signal, Ledger.grant, ih L₀ h₀, Bool.true_and]
        exact decide_eq_true (ht n hv)
      · exact ih L hL
    · split at hL
      · cases hL
      · exact ih L hL
    · exact ih L hL

/-- While the counters stay in range no list head is on `readyqueue`. -/
theorem run_inRange (hr : KRun M tr k) (hC : ∀ t ∈ tr, CountInRange t.before t.event) :
    ∃ a, WF k a ∧ (∀ m, ¬ a.Wild m) ∧ ∀ m, a.IsInit m → ∃ L, a.Tally m L := by
  obtain ⟨a, hW, hA⟩ := run_tally hr
  have htally : ∀ m, a.IsInit m → ∃ L, a.Tally m L := by
    intro m hm
    obtain ⟨L, hL⟩ := Option.ne_none_iff_exists'.1 ((hA m).init.1 hm)
    exact ⟨L, (hA m).tally L hL (ledger_inRange hC L hL)⟩
  refine ⟨a, hW, fun m hw => ?_, htally⟩
  by_cases hi : a.IsInit m
  · obtain ⟨L, hT⟩ := htally m hi
    exact hT.head hw
  · exact hW.not_wild hi hw

/-- **A signal that wakes finds a waiting task**, and no list head ever is on `readyqueue`, in
every run that keeps the counters in range. -/
theorem wake_finds_waiter (hr : KRun M tr k) (hC : ∀ t ∈ tr, CountInRange t.before t.event) :
    (∀ m, Node.blocked m ∉ members k .readyqueue) ∧
    ∀ i n u b, CountInRange k (.sysenter (.semSignal i) u b) → validSem k.listSem i false = some n →
      ((k.listSem n).counter + 1).toInt ≤ 0 →
      members k (.blocked n) ≠ [] ∧ ∃ s, listFirst k.links (.blocked n) = .ok (.task s) := by
  obtain ⟨a, hW, hw, htally⟩ := run_inRange hr hC
  refine ⟨fun m hm => hw m ?_, fun i n u b hr hv hle => ?_⟩
  · rwa [hW.members_ready] at hm
  · rw [hW.sem] at hv hle
    obtain ⟨L, hT⟩ := htally n (validSem_init hv)
    have hi := validSem_init hv
    have hlt := hr n (hW.sem ▸ hv)
    rw [hW.sem] at hlt
    have hne := hT.wake_ne_nil hlt hle
    refine ⟨by rw [hW.members_blocked hi hT.head]; exact hne, ?_⟩
    obtain ⟨x, xs, hq⟩ := List.exists_cons_of_ne_nil hne
    obtain ⟨t, rfl⟩ := hW.queues.blocked_task n (heads_blocked hi hT.head) x (by rw [hq]; simp)
    have hF := listFirst_rings hW.queues.rings (heads_blocked hi hT.head)
    rw [hq, firstOf] at hF
    exact ⟨t, hF⟩

/-- A semaphore that starts with 2^32 - 1: the first signal wakes nobody, and moves the head of
the list to `readyqueue`. -/
theorem signal_empty_list : ∃ t₁ t₂ k, KRun aMachine [t₂, t₁] k ∧
    t₁.event = .sysenter (.semInit 0 0xFFFFFFFF) someStack 1000 ∧
    t₂.event = .sysenter (.semSignal 0) someStack 1000 ∧
    validSem t₂.before.listSem 0 false = some 0 ∧ ((t₂.before.listSem 0).counter + 1).toInt ≤ 0 ∧
    members t₂.before (.blocked 0) = [] ∧ Node.blocked 0 ∈ members k .readyqueue := by
  obtain ⟨k₀, o₁, k₁, hr₀, hs₁, hW₁, hR₁, -⟩ := semInit_run aMachine 0xFFFFFFFF 1000
  set a := (bootState aMachine).semInit 0 0xFFFFFFFF
  have hv : validSem a.sem 0 false = some 0 := rfl
  have hw : ¬ a.Wild 0 := by simp [AState.Wild, a, AState.semInit, AState.put, AState.setSem, bootState]
  have hle : ((a.sem 0).counter + 1).toInt ≤ 0 := by decide
  have hq : a.queue (.blocked 0) = [] := by simp [a, AState.semInit, AState.put]
  obtain ⟨o₂, k₂, hs₂, -, hW₂⟩ := splice_step hW₁ hR₁.user hR₁.data hv hw hle hq 1000
  refine ⟨⟨k₀, _, o₁, k₁⟩, ⟨k₁, _, o₂, k₂⟩, k₂, (hr₀.step hs₁).step hs₂, rfl, rfl, ?_, ?_, ?_, ?_⟩
  · exact hW₁.sem ▸ hv
  · exact hW₁.sem ▸ hle
  · exact (hW₁.members_blocked (validSem_init hv) hw).trans hq
  · rw [hW₂.members_ready]
    simp [AState.put]

/-- Task 1 makes a child and waits on a semaphore that starts with 0: a signal of the child finds it. -/
theorem wake_finds_waiter_fork : ∃ tr k, KRun aMachine tr k ∧
    tr.map (·.event) = [.sysenter (.semWait 0) someStack 1000, .sysenter (.semInit 0 0) someStack 1000,
      .sysenter .fork someStack 1000] ∧
    k.current = 2 ∧ ((k.listSem 0).counter + 1).toInt ≤ 0 ∧ members k (.blocked 0) ≠ [] ∧
    ∃ s, listFirst k.links (.blocked 0) = .ok (.task s) := by
  obtain ⟨tr, k, a, hr, he, -, hW, hP⟩ := waiting_run aMachine
  have hC : ∀ t ∈ tr, CountInRange t.before t.event := by
    intro t ht
    have hmem := List.mem_map_of_mem (f := (·.event)) ht
    rw [he] at hmem
    rcases List.mem_cons.1 hmem with h | hmem
    · rw [h]
      trivial
    rcases List.mem_cons.1 hmem with h | hmem
    · rw [h]
      exact fun _ => by decide
    · rw [List.mem_singleton.1 hmem]
      trivial
  have hsem : k.listSem 0 = ⟨true, 0 - 1⟩ := (congrFun hW.sem 0).trans hP.sem
  have hcount : ((k.listSem 0).counter + 1).toInt ≤ 0 := by
    rw [hsem]
    decide
  have hvalid : validSem k.listSem 0 false = some 0 := hW.sem ▸ hP.valid
  have hrange : CountInRange k (.sysenter (.semSignal 0) someStack 1000) := fun n hn => by
    cases hvalid.symm.trans hn
    rw [hsem]
    decide
  obtain ⟨hne, hfirst⟩ := (wake_finds_waiter hr hC).2 0 0 someStack 1000 hrange hvalid hcount
  exact ⟨tr, k, hr, he, hW.current.trans hP.current, hcount, hne, hfirst⟩

end Zeos
