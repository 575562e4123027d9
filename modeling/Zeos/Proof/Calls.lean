import Zeos.Proof.Faults
import Zeos.Proof.Sched

/-!
# The calls that give the CPU away, the heap and the semaphores

Each call of the kernel, from a well-formed state, is a step of the abstract kernel
(`Outcome`). A switch that loads a null or a stale stack pointer never comes back, but it
is still the switch of an abstract step.

* `sysYield_outcome`, `sysExit_outcome`, `sysTerminatethread_outcome`, `clock_outcome`
* `sysAlloc_outcome`, `sysDealloc_outcome`
* `sysSemInit_outcome`, `sysSemWait_outcome`, `sysSemSignal_outcome`, `sysSemDestroy_outcome`
-/

namespace Zeos

open LinkHeap ForLoop

/-- The outcome `r` of a step from `a` is one of the abstract kernel. -/
def Outcome (a : AState) (e : Event) : Except Fault (Out × Kernel) → Prop
  | .ok (o, k') => ∃ a', AStep a e o.switch a' ∧ WF k' a'
  | .error (.stack sw) => ∃ a', AStep a e (some sw) a'
  | .error _ => True

variable {k k' : Kernel} {a a' : AState} {off : Slot → Prop} {s t c : Slot} {hd : Node} {n : Sem}
  {e : Event} {u : Word} {b : ℕ} {r : Resume}

theorem Outcome.ret {v : Word} {k' : Kernel} (hs : AStep a e none a') (hW : WF k' a') :
    Outcome a e (.ok (returning (v, k'))) := ⟨a', hs, hW⟩

/-- A call that keeps the CPU: it is enough to look at the runs that come back. -/
theorem Outcome.map {x : Except Fault (Word × Kernel)} (hx : NoStack x)
    (h : ∀ v k', x = .ok (v, k') → ∃ a', AStep a e none a' ∧ WF k' a') :
    Outcome a e (x.map returning) := by
  cases x with
  | ok r => exact h r.1 r.2 rfl
  | error e =>
    cases e with
    | stack sw => exact absurd rfl (hx sw)
    | _ => trivial

/-- What `sched_next_rr` comes to is the outcome of the call it ends. -/
theorem Outcome.sched (hS : Shape k a' fun s => s = a'.idle)
    (hs : AStep a e (some (a'.switch b)) (a'.dispatch b)) : Outcome a e (schedNextRr k b r) := by
  rcases schedNextRr_cases hS b r with ⟨n, xs, -, h⟩ | ⟨-, h⟩ | ⟨-, -, v, k', h, hW⟩
  · rw [h]; trivial
  · rw [h]; exact ⟨_, hs⟩
  · rw [h]; exact ⟨_, hs, hW⟩

theorem WF.same (hW : WF k a) (h : Same k k')
    (hst : (k'.task a.current).state = (k.task a.current).state) : WF k' a :=
  { hW.toShape.same h with
    cr3 := h.cr3.trans hW.cr3
    run := hst.trans hW.run
    alone := hW.alone }

/-- A step that changes the frame map and the page tables. -/
theorem Shape.setMem (hS : Shape k a off) {m : Mm} {p : ℕ → Byte} {tb : Slot → ℕ → Pte}
    (hp : m.physMem = p) (ht : m.pagusrTable = tb) (hd : m.dirPages = k.mm.dirPages)
    (hf : p numPagKernel ≠ frameFree) : Shape (k.setMm m) { a with phys := p, table := tb } off :=
  { hS with phys := hp, table := ht, dirs := hd.trans hS.dirs, first := hf }

theorem WF.setMem (hW : WF k a) {m : Mm} {p : ℕ → Byte} {tb : Slot → ℕ → Pte}
    (hp : m.physMem = p) (ht : m.pagusrTable = tb) (hd : m.dirPages = k.mm.dirPages)
    (hf : p numPagKernel ≠ frameFree) : WF (k.setMm m) { a with phys := p, table := tb } :=
  { hW.toShape.setMem hp ht hd hf with cr3 := hW.cr3, run := hW.run, alone := hW.alone }

theorem Shape.setPid (hS : Shape k a off) (p : Word) :
    Shape (k.setTask s { k.task s with PID := p }) { a with pid := Function.update a.pid s p } off :=
  { hS with
    pid := fun t => by
      by_cases h : t = s
      · simp [Kernel.setTask, h]
      · simpa [Kernel.setTask, h] using hS.pid t
    dir := fun t => by
      by_cases h : t = s
      · simpa [Kernel.setTask, h] using hS.dir s
      · simpa [Kernel.setTask, h] using hS.dir t
    esp := fun t => by
      by_cases h : t = s
      · simpa [Kernel.setTask, h] using hS.esp s
      · simpa [Kernel.setTask, h] using hS.esp t }

/-- The current task of a user goes on a queue: the lists are as `sched_next_rr` needs them. -/
theorem Shape.pushCurrent (hS : Shape k a fun s => s = a.current ∨ s = a.idle)
    (hc : a.current ≠ a.idle) (hh : Heads a.IsInit a.queue hd) :
    ∃ h', listAddTail k.links (.task k.current) hd = .ok h' ∧
      Shape (k.setLinks h') (a.push hd a.current) fun s => s = a.idle := by
  obtain ⟨h', h1, h2⟩ := hS.push hh (s := a.current) (.inl rfl)
  refine ⟨h', by rw [hS.current]; exact h1, h2.congr_off fun s => ?_⟩
  constructor
  · rintro ⟨h | h, hne⟩
    · exact absurd h hne
    · exact h
  · rintro rfl; exact ⟨.inr rfl, Ne.symm hc⟩

theorem freeAll_first {phys : ℕ → Byte} {F : ℕ → Prop} (h : phys numPagKernel ≠ frameFree) :
    freeAll phys F numPagKernel ≠ frameFree := by
  simpa [freeAll, Freeable] using h

/-! ### The scheduler's callers -/

/-- The current task of a user goes back on `readyqueue`. -/
theorem requeue_ok (hW : WF k a) (hc : a.current ≠ a.idle) :
    ∃ k', updateProcessStateRr k k.current (some .readyqueue) = .ok k' ∧
      Shape k' (a.push .readyqueue a.current) fun s => s = a.idle := by
  obtain ⟨h', h1, h2⟩ := hW.toShape.pushCurrent hc Heads.ready
  refine ⟨_, ?_, h2.same ((Same.updateStats (t := k.current) .systemTicks).trans
    (.setState (t := k.current) .ST_READY))⟩
  have hrun : (k.task k.current).state = .ST_RUN := hW.current ▸ hW.run
  simp [updateProcessStateRr, hrun, h1, bind, Except.bind, pure, Except.pure]

theorem forceTaskSwitch_eq (hW : WF k a) (hc : a.current ≠ a.idle) (b : ℕ) (r : Resume) :
    ∃ k', forceTaskSwitch k b r = schedNextRr k' b r ∧
      Shape k' (a.push .readyqueue a.current) fun s => s = a.idle := by
  obtain ⟨k', h, hS⟩ := requeue_ok hW hc
  exact ⟨k', by rw [forceTaskSwitch, h]; rfl, hS⟩

theorem sysYield_outcome (hW : WF k a) (hc : a.current ≠ a.idle) :
    Outcome a (.sysenter .yield u b) (sysYield k b) := by
  obtain ⟨k', h, hS⟩ := forceTaskSwitch_eq hW hc b .sysYield
  rw [sysYield, h]
  exact .sched hS .yield

theorem needsSchedRr_same (k : Kernel) : Same k (needsSchedRr k).2 ∧
    (needsSchedRr k).2.task = k.task := by
  unfold needsSchedRr
  split
  · exact ⟨.refl k, rfl⟩
  · split <;> exact ⟨⟨fun _ => rfl, fun _ => rfl, fun _ => rfl, rfl, rfl, rfl, rfl, rfl, rfl, .refl _⟩, rfl⟩

theorem needsSchedRr_ready (hS : Shape k a off) (h : (needsSchedRr k).1 = true) :
    a.queue .readyqueue ≠ [] := by
  intro hr
  rw [needsSchedRr, if_neg] at h
  · split at h <;> cases h
  · simp [(listEmpty_rings hS.queues.rings Heads.ready).2 hr]

/-- The clock interrupt up to `needs_sched_rr`. -/
def clockEntry (k : Kernel) : Kernel :=
  updateSchedDataRr { userToSystem k with zeosTicks := (userToSystem k).zeosTicks + 1 }

theorem WF.clockEntry (hW : WF k a) : WF (clockEntry k) a := by
  have h : Same k (Zeos.clockEntry k) := (Same.updateStats (t := k.current) .userTicks).trans
    ⟨fun _ => rfl, fun _ => rfl, fun _ => rfl, rfl, rfl, rfl, rfl, rfl, rfl, .refl _⟩
  exact hW.same h (updateStats_state _)

/-- What `needs_sched_rr` tests. -/
theorem due_iff (hW : WF k a) : (clockEntry k).remainingQuantum = 0 ∧ listEmpty (clockEntry k).links .readyqueue = false ↔
    k.remainingQuantum - 1 = 0 ∧ a.queue .readyqueue ≠ [] := by
  refine and_congr Iff.rfl ?_
  rw [← Bool.not_eq_true]
  exact not_congr (listEmpty_rings hW.clockEntry.queues.rings Heads.ready)

/-- The quantum is up, and there is a task to go on. -/
theorem clockHandler_switch (hW : WF k a) (hd : k.remainingQuantum - 1 = 0 ∧ a.queue .readyqueue ≠ []) (b : ℕ) :
    clockHandler k b = forceTaskSwitch (clockEntry k) b .clockRoutine := by
  have hcall : clockHandler k b = if (needsSchedRr (clockEntry k)).1 then
      forceTaskSwitch (needsSchedRr (clockEntry k)).2 b .clockRoutine
      else .ok ({}, systemToUser (needsSchedRr (clockEntry k)).2) := rfl
  have hn : needsSchedRr (clockEntry k) = (true, clockEntry k) := by rw [needsSchedRr, if_pos ((due_iff hW).2 hd)]
  rw [hcall, hn, if_pos rfl]

/-- The current task goes on, maybe with another quantum. -/
theorem clockHandler_keep (hW : WF k a) (hd : ¬ (k.remainingQuantum - 1 = 0 ∧ a.queue .readyqueue ≠ [])) (b : ℕ) :
    clockHandler k b = .ok ({}, systemToUser { clockEntry k with
      remainingQuantum := if k.remainingQuantum - 1 = 0 then getQuantum (clockEntry k) (clockEntry k).current
        else k.remainingQuantum - 1 }) := by
  have hcall : clockHandler k b = if (needsSchedRr (clockEntry k)).1 then
      forceTaskSwitch (needsSchedRr (clockEntry k)).2 b .clockRoutine
      else .ok ({}, systemToUser (needsSchedRr (clockEntry k)).2) := rfl
  have hleft : (clockEntry k).remainingQuantum = k.remainingQuantum - 1 := rfl
  rw [hcall, needsSchedRr, if_neg (mt (due_iff hW).1 hd), hleft]
  by_cases h0 : k.remainingQuantum - 1 = 0
  · rw [if_pos h0, if_pos h0]
    rfl
  · rw [if_neg h0, if_neg h0]
    rfl

theorem clock_outcome (hW : WF k a) : Outcome a (.clock b) (clockHandler k b) := by
  by_cases hd : k.remainingQuantum - 1 = 0 ∧ a.queue .readyqueue ≠ []
  · have hc : a.current ≠ a.idle := fun h => hd.2 (hW.alone h)
    obtain ⟨k', h, hS⟩ := forceTaskSwitch_eq hW.clockEntry hc b .clockRoutine
    rw [clockHandler_switch hW hd, h]
    exact .sched hS (.clockSwitch hc hd.2)
  · rw [clockHandler_keep hW hd]
    have hW₂ : ∀ q, WF { clockEntry k with remainingQuantum := q } a := fun q =>
      hW.clockEntry.same ⟨fun _ => rfl, fun _ => rfl, fun _ => rfl, rfl, rfl, rfl, rfl, rfl, rfl, .refl _⟩ rfl
    exact ⟨a, .clock, (hW₂ _).same (.updateStats _) (updateStats_state _)⟩

/-! ### exit -/

theorem Shape.release (hS : Shape k a off) :
    Shape (k.setMm (releaseData k.mm a.tab numPagData)) a.release off := by
  refine hS.setMem (funext fun g => ?_) (funext fun s => funext fun p => ?_) (releaseData_dirs _)
    (freeAll_first hS.first)
  · rw [releaseData_phys, freeAll, hS.phys]
    simp only [Mm.getFrame, hS.table, Freeable]
    congr
  · rw [releaseData_table, clearPages, hS.table]
    exact if_congr Iff.rfl rfl rfl

/-- The state of the exiting task's last moment, all its data pages released. -/
def exitState (k : Kernel) (h : Heap Node) : Kernel :=
  let k := (k.setMm (releaseData k.mm (getPT k k.current) numPagData)).setLinks h
  k.setTask k.current { k.task k.current with PID := -1 }

theorem sysExit_eq (hW : WF k a) (hc : a.current ≠ a.idle) (b : ℕ) :
    ∃ h, sysExit k b = schedNextRr (exitState k h) b .sysExit ∧
      Shape (exitState k h)
        ({ a.release with pid := Function.update a.pid a.current (-1) }.push .freequeue a.current)
        fun s => s = a.idle := by
  have hPT : getPT k k.current = a.tab := by rw [hW.current]; exact hW.toShape.getPT_eq
  obtain ⟨h', h1, h2⟩ := hW.toShape.release.pushCurrent hc Heads.free
  rw [← hPT] at h1 h2
  refine ⟨h', ?_, ?_⟩
  · simp only [sysExit, h1, bind, Except.bind, exitState]
  · have hc' : ((k.setMm (releaseData k.mm (getPT k k.current) numPagData)).setLinks h').current = a.current :=
      h2.current
    simp only [exitState, hc']
    exact h2.setPid (-1)

theorem sysExit_outcome (hW : WF k a) (hc : a.current ≠ a.idle) :
    Outcome a (.sysenter .exit u b) (sysExit k b) := by
  obtain ⟨k', h, hS⟩ := sysExit_eq hW hc b
  rw [h]
  exact .sched hS .exit

/-! ### The heap -/

/-- What `alloc_k` returns and does to the memory, for the page table `PT`. -/
inductive AllocMm (m : Mm) (PT : Slot) : Word → Mm → Prop
  | noPage : (∀ p, heapStart ≤ p → p < totalPages → m.getFrame PT p ≠ 0) → AllocMm m PT (-enomem) m
  | noFrame : (∀ f, IsEven f → m.physMem f ≠ frameFree) → AllocMm m PT (-enomem) m
  | page (p f : ℕ) : heapStart ≤ p → p < totalPages → m.getFrame PT p = 0 →
    (∀ q, heapStart ≤ q → q < p → m.getFrame PT q ≠ 0) → IsEven f → m.physMem f = frameFree →
    AllocMm m PT (BitVec.ofNat 32 (p * pageSize)) ((m.setPhys f frameUsed).setSsPag PT p f)

theorem allocK_cases (k : Kernel) : ∃ v m, allocK k = (v, k.setMm m) ∧
    AllocMm k.mm (getPT k k.current) v m := by
  cases hp : findLpage k.mm (getPT k k.current) (totalPages - heapStart) heapStart with
  | none => exact ⟨-enomem, k.mm, by simp only [allocK, hp]; rfl, .noPage (findLpage_none hp)⟩
  | some p =>
    obtain ⟨h1, h2, h3, h4⟩ := findLpage_some hp
    rcases allocFrame_cases k.mm with ⟨f, ha, he, hf⟩ | ⟨ha, hn⟩
    · exact ⟨BitVec.ofNat 32 (p * pageSize), _, by simp only [allocK, hp, ha], .page p f h1 h2 h3 h4 he hf⟩
    · exact ⟨-enomem, k.mm, by simp only [allocK, hp, ha], .noFrame hn⟩

theorem Shape.alloc (hS : Shape k a off) {v : Word} {m : Mm} (hm : AllocMm k.mm a.tab v m) :
    ∃ p tb, a.Alloc { a with phys := p, table := tb } ∧ m.physMem = p ∧ m.pagusrTable = tb ∧
      m.dirPages = k.mm.dirPages ∧ p numPagKernel ≠ frameFree := by
  have hget : ∀ p, k.mm.getFrame a.tab p = (a.table a.tab p).pbaseAddr := fun p => by
    rw [Mm.getFrame, hS.table]
  cases hm with
  | noPage h =>
    exact ⟨a.phys, a.table, .noPage fun p h1 h2 => hget p ▸ h p h1 h2, hS.phys, hS.table, rfl, hS.first⟩
  | noFrame h =>
    exact ⟨a.phys, a.table, .noFrame fun f he => hS.phys ▸ h f he, hS.phys, hS.table, rfl, hS.first⟩
  | page p f h1 h2 h3 h4 he hf =>
    refine ⟨_, _, .page p f h1 h2 (hget p ▸ h3) (fun q hq hqp => hget q ▸ h4 q hq hqp) he (hS.phys ▸ hf),
      funext fun g => ?_, funext fun s => funext fun q => ?_, rfl, ?_⟩
    · simp [setSsPag_eq, useAll, hS.phys]
    · simp [setSsPag_eq, hS.table]
    · have := hS.first
      simp only [useAll]
      split
      · exact frameUsed_ne_free
      · exact this

theorem sysAlloc_outcome (hW : WF k a) :
    Outcome a (.sysenter .alloc u b) (.ok (returning (sysAlloc k))) := by
  obtain ⟨v, m, h, hm⟩ := allocK_cases k
  rw [hW.current, hW.toShape.getPT_eq] at hm
  obtain ⟨p, tb, ha, hp, ht, hd, hf⟩ := hW.toShape.alloc hm
  rw [sysAlloc, h]
  exact .ret (.alloc ha) (hW.setMem hp ht hd hf)

/-- `dealloc_k` refuses a page, or unmaps it. -/
theorem deallocK_cases (hW : WF k a) (page : ℕ) :
    (¬ a.Mapped page ∧ ∃ v, v.toInt < 0 ∧ deallocK k page = (v, k)) ∨
    (a.Mapped page ∧ ∃ k', deallocK k page = (0, k') ∧ WF k' (a.unmap page) ∧ k'.task = k.task) := by
  have hPT : getPT k k.current = a.tab := by rw [hW.current]; exact hW.toShape.getPT_eq
  have hfr : k.mm.getFrame a.tab page = (a.table a.tab page).pbaseAddr := by rw [Mm.getFrame, hW.table]
  by_cases hr : page < heapStart ∨ totalPages ≤ page
  · refine .inl ⟨fun h => by have := h.1; have := h.2.1; omega, -eacces, by decide, ?_⟩
    rw [deallocK, if_pos hr]
  by_cases h0 : (a.table a.tab page).pbaseAddr = 0
  · refine .inl ⟨fun h => h.2.2 h0, -efault, by decide, ?_⟩
    simp only [deallocK, if_neg hr, hPT, hfr, h0, if_pos]
  have hM : WF (k.setMm ((k.mm.freeFrame (a.table a.tab page).pbaseAddr).delSsPag a.tab page))
      (a.unmap page) := by
    refine hW.setMem (funext fun g => ?_) (funext fun s => funext fun q => ?_) ?_ (freeAll_first hW.first)
    · simp only [delSsPag_eq, setPte_phys, freeFrame_phys, hW.phys, freeAll, Freeable, eq_comm (a := g)]
      congr
    · simp only [delSsPag_eq, setPte_table, freeFrame_table, hW.table, clearPages]
      exact if_congr (and_congr_right fun _ => by omega) rfl rfl
    · rw [delSsPag_eq, setPte_dirs, freeFrame_dirs]
  set k₁ := k.setMm ((k.mm.freeFrame (a.table a.tab page).pbaseAddr).delSsPag a.tab page)
  have hcr : getDIR k₁ k₁.current = a.tab := by rw [hM.current]; exact hM.dir _
  refine .inr ⟨⟨by omega, by omega, h0⟩, { k₁ with cr3 := getDIR k₁ k₁.current }, ?_,
    { hM with cr3 := hcr }, rfl⟩
  simp only [deallocK, if_neg hr, hPT, hfr, if_neg h0]
  rfl

theorem sysDealloc_outcome (hW : WF k a) (address : Word) :
    Outcome a (.sysenter (.dealloc address) u b) (.ok (returning (sysDealloc k address))) := by
  rcases deallocK_cases hW (address.toNat / pageSize) with ⟨hm, v, -, h⟩ | ⟨hm, k', h, hW', -⟩
  · rw [sysDealloc, h]; exact .ret (.deallocBad hm) hW
  · rw [sysDealloc, h]; exact .ret (.dealloc hm) hW'

theorem sysTerminatethread_outcome (hW : WF k a) (hc : a.current ≠ a.idle)
    (hu : (k.task k.current).userEsp = u) :
    Outcome a (.sysenter .terminatethread u b) (sysTerminatethread k b) := by
  rcases deallocK_cases hW (u.toNat / pageSize) with ⟨hm, v, hv, h⟩ | ⟨hm, k', h, hW', -⟩
  · simp only [sysTerminatethread, hu, h, if_pos hv]
    exact ⟨a, .terminateBad hm, hW⟩
  · obtain ⟨h', h1, h2⟩ := hW'.toShape.pushCurrent hc Heads.free
    have hcall : sysTerminatethread k b = schedNextRr (k'.setLinks h') b .sysTerminatethread := by
      simp only [sysTerminatethread, hu, h, bind, Except.bind]
      rw [if_neg (by decide), h1]
    rw [hcall]
    exact .sched h2 (.terminate hm)

end Zeos
