import Zeos.Proof.Progress

/-!
# Processes and page directories

`allocate_DIR` binds a page directory to the struct of a task, but threads go on using
the directory of their creator when that struct is free again.

* `isolation_exact`: **no directory gets two processes along a run exactly if each fork
  finds the directory of its struct unused**; which is so as long as no task ends before
  the threads on its directory.
* `fork_shares_directory`: a run that ends with two processes on one directory.
-/

namespace Zeos

open Execution

/-- Live tasks with the same page directory belong to one process. -/
def Isolated (k : Kernel) : Prop :=
  ∀ s t, Live k s → Live k t → (k.task s).dirPagesBaseAddr = (k.task t).dirPagesBaseAddr →
    (k.task s).PID = (k.task t).PID

def Event.isFork : Event → Bool
  | .sysenter .fork _ _ => true
  | _ => false

/-- A fork gave its child a page directory that no task had. -/
def GivesUnused (t : Transition Kernel Event Out) : Prop :=
  t.event.isFork = true → ∀ c, ¬ Live t.before c → Live t.after c → ∀ s, Live t.before s →
    (t.after.task s).dirPagesBaseAddr ≠ (t.after.task c).dirPagesBaseAddr

/-- A fork with frames enough finds the directory of the struct that it takes unused. -/
def SlotUnused (k : Kernel) : Event → Prop
  | .sysenter .fork _ _ => ∀ c, (members k .freequeue).head? = some (.task c) →
    numPagData ≤ freeFrames k.mm.physMem → ∀ s, Live k s → (k.task s).dirPagesBaseAddr ≠ c
  | _ => True

/-- A task that ends is the last on the directory of its struct. -/
def OwnerStays (k : Kernel) : Event → Prop
  | .sysenter .exit _ _ => ∀ s, Live k s → s ≠ k.current → (k.task s).dirPagesBaseAddr ≠ k.current
  | .sysenter .terminatethread u _ =>
    u.toNat / pageSize < heapStart ∨ totalPages ≤ u.toNat / pageSize ∨
      k.mm.getFrame (getPT k k.current) (u.toNat / pageSize) = 0 ∨
      ∀ s, Live k s → s ≠ k.current → (k.task s).dirPagesBaseAddr ≠ k.current
  | _ => True

namespace AState

def Isolated (a : AState) : Prop :=
  ∀ s t, a.Live s → a.Live t → a.dir s = a.dir t → a.pid s = a.pid t

/-- The directory of every live task is that of a live task's struct. -/
def Owners (a : AState) : Prop := ∀ s, a.Live s → a.Live (a.dir s)

end AState

variable {k k' : Kernel} {a a' : AState} {e : Event} {M : Machine} {tr : KTrace} {o : Out} {s c : Slot}
  {b : ℕ} {rest : List Node} {fs : List ℕ}

theorem WF.isolated_iff (hW : WF k a) : Isolated k ↔ a.Isolated := by
  refine forall_congr' fun s => forall_congr' fun t => ?_
  rw [hW.live_iff, hW.live_iff, hW.dir, hW.dir, hW.pid, hW.pid]

theorem WF.slotUnused_iff (hW : WF k a) {u : Word} : SlotUnused k (.sysenter .fork u b) ↔
    ∀ c, (a.queue .freequeue).head? = some (.task c) → numPagData ≤ freeFrames a.phys →
      ∀ s, a.Live s → a.dir s ≠ c := by
  simp only [SlotUnused, hW.members_free, hW.phys, hW.live_iff, hW.dir]

/-! ### Steps -/

/-- Fewer live tasks, with the directories and PIDs they had. -/
theorem AState.Isolated.sub (h : a.Isolated) (hs : ∀ s, a'.Live s → a.Live s ∧ a'.dir s = a.dir s ∧
    a'.pid s = a.pid s) : a'.Isolated := by
  intro s t hl hl' hd
  obtain ⟨h1, h2, h3⟩ := hs s hl
  obtain ⟨h4, h5, h6⟩ := hs t hl'
  rw [h3, h6]
  exact h s t h1 h4 (by rw [← h2, ← h5, hd])

/-- One more live task, whose directory is that of tasks with its PID. -/
theorem AState.Isolated.add (h : a.Isolated) (hs : ∀ s, a'.Live s → s ≠ c → a.Live s ∧ a'.dir s = a.dir s ∧
    a'.pid s = a.pid s) (hc : ∀ s, a.Live s → a.dir s = a'.dir c → a.pid s = a'.pid c) : a'.Isolated := by
  have key : ∀ s, a'.Live s → a'.dir s = a'.dir c → a'.pid s = a'.pid c := by
    intro s hl hd
    by_cases hsc : s = c
    · rw [hsc]
    · obtain ⟨h1, h2, h3⟩ := hs s hl hsc
      rw [h3]; exact hc s h1 (h2 ▸ hd)
  intro s t hl hl' hd
  by_cases hsc : s = c
  · subst hsc; exact (key t hl' hd.symm).symm
  by_cases htc : t = c
  · subst htc; exact key s hl hd
  obtain ⟨h1, h2, h3⟩ := hs s hl hsc
  obtain ⟨h4, h5, h6⟩ := hs t hl' htc
  rw [h3, h6]
  exact h s t h1 h4 (by rw [← h2, ← h5, hd])

theorem exit_pid (hs : s ≠ a.current) : (a.exit b).pid s = a.pid s := by
  simp [AState.exit, AState.leave, AState.dispatch, AState.push, AState.put, hs]

theorem spawn_other (rest : List Node) (pid : Word) (d : Slot) (esp : StackPtr) (hs : s ≠ c) :
    (a.spawn c rest pid d esp).dir s = a.dir s ∧ (a.spawn c rest pid d esp).pid s = a.pid s := by
  simp [AState.spawn, AState.push, AState.put, hs]

theorem spawn_new (rest : List Node) (pid : Word) (d : Slot) (esp : StackPtr) :
    (a.spawn c rest pid d esp).dir c = d ∧ (a.spawn c rest pid d esp).pid c = pid := by
  simp [AState.spawn, AState.push, AState.put]

theorem forkFail_other (hq : a.queue .freequeue = .task c :: rest) (hs : a.Live s) :
    (a.forkFail c rest).dir s = a.dir s ∧ (a.forkFail c rest).pid s = a.pid s := by
  have hsc : s ≠ c := by rintro rfl; exact not_live hq hs
  simp [AState.forkFail, hsc]

theorem forkOk_other (hs : s ≠ c) :
    (a.forkOk c rest b fs).dir s = a.dir s ∧ (a.forkOk c rest b fs).pid s = a.pid s :=
  spawn_other rest (a.lastPid + 1) c (some (c, b - 1)) hs

/-- A live task keeps its page directory. -/
theorem AStep.dir_live {sw : Option Switch} (h : AStep a e sw a') (hs : a.Live s) : a'.dir s = a.dir s := by
  have hne : ∀ {c : Slot} {rest : List Node}, a.queue .freequeue = .task c :: rest → s ≠ c := by
    rintro c rest hq rfl
    exact not_live hq hs
  rcases h.memory with ⟨-, h⟩ | h
  · rw [h.dir]
  cases h with
  | forkFail hq => exact (forkFail_other hq hs).1
  | forkOk hq => exact (forkOk_other (hne hq)).1
  | alloc hA => rw [hA.queue.2.1]
  | thread hq hA => exact (spawn_other _ _ _ _ (hne hq)).1.trans (by rw [hA.queue.2.1])
  | _ => rfl

theorem MemStep.isolated (hW : WF k a) (hI : a.Isolated) (h : MemStep a e a')
    (hC : SlotUnused k e) : a'.Isolated := by
  cases h with
  | forkFail hq hf =>
    exact hI.sub fun s hs => ⟨(forkFail_live hq).1 hs, forkFail_other hq ((forkFail_live hq).1 hs)⟩
  | @forkOk u b c rest fs hq hf =>
    have hC := hW.slotUnused_iff.1 hC c (by rw [hq]; rfl) hf
    refine hI.add (c := c) (fun s hs hsc => ⟨((forkOk_live hW.free_nodup hq).1 hs).resolve_right hsc,
      forkOk_other hsc⟩) fun s hs hd => ?_
    rw [forkOk_dir, if_pos rfl] at hd
    exact absurd hd (hC s hs)
  | exit =>
    exact hI.sub fun s hs => ⟨(exit_live.1 hs).1, rfl, exit_pid (exit_live.1 hs).2⟩
  | alloc hA =>
    obtain ⟨-, hd, hp, -⟩ := hA.queue
    exact hI.sub fun s hs => ⟨hA.live.1 hs, by rw [hd], by rw [hp]⟩
  | dealloc => exact hI.sub fun s hs => ⟨hs, rfl, rfl⟩
  | @thread u b w f p c rest a₁ hq hA =>
    obtain ⟨hqu, hd, hp, -⟩ := hA.queue
    have hlive := fun s => spawn_live (a := a₁) (s := s) (hqu ▸ hW.free_nodup) (hqu ▸ hq) (a.pid a.current)
      a.tab (some (c, kernelStackSize - 18))
    refine hI.add (c := c) (fun s hs hsc => ?_) fun s hs hd' => ?_
    · obtain ⟨h1, h2⟩ := spawn_other (a := a₁) rest (a.pid a.current) a.tab
        (some (c, kernelStackSize - 18)) hsc
      rw [h1, h2, hd, hp]
      exact ⟨hA.live.1 (((hlive s).1 hs).resolve_right hsc), rfl, rfl⟩
    · obtain ⟨h1, h2⟩ := spawn_new (a := a₁) (c := c) rest (a.pid a.current) a.tab
        (some (c, kernelStackSize - 18))
      rw [h1] at hd'
      rw [h2]
      exact hI s a.current hs hW.current_live hd'
  | terminate => exact hI.sub fun s hs => ⟨(leave_live.1 hs).1, rfl, rfl⟩
  | _ => exact hI

theorem isolated_step (hr : KRun M tr k) (hI : Isolated k) (hC : SlotUnused k e) (hs : Step k e o k') :
    Isolated k' := by
  obtain ⟨a, hW⟩ := run_wf hr
  obtain ⟨a', h, hW'⟩ := hs.refines hW
  rw [hW.isolated_iff] at hI
  rw [hW'.isolated_iff]
  rcases h.memory with ⟨-, h⟩ | h
  · exact hI.sub fun s hs => ⟨h.live.1 hs, by rw [h.dir], by rw [h.pid]⟩
  · exact h.isolated hW hI hC

/-- A fork gives the directory of the struct it takes. -/
theorem givesUnused_iff (hr : KRun M tr k) (hs : Step k e o k') :
    GivesUnused ⟨k, e, o, k'⟩ ↔ SlotUnused k e := by
  obtain ⟨a, hW⟩ := run_wf hr
  obtain ⟨a', h, hW'⟩ := hs.refines hW
  -- no other event gives a directory
  by_cases he : e.isFork = true
  swap
  · refine iff_of_true (fun h => absurd h he) ?_
    unfold SlotUnused; split
    · exact absurd rfl he
    · trivial
  obtain ⟨u, b, rfl⟩ : ∃ u b, e = .sysenter .fork u b := by
    unfold Event.isFork at he; split at he
    · exact ⟨_, _, rfl⟩
    · cases he
  rw [hW.slotUnused_iff]
  simp only [GivesUnused, Event.isFork, true_imp_iff, hW.live_iff, hW'.live_iff, hW'.dir]
  generalize o.switch = sw at h
  cases h with
  | noop he => cases he
  | forkNone hq =>
    refine iff_of_true (fun c h1 h2 => absurd h2 h1) fun c hc => ?_
    rw [hq] at hc; cases hc
  | forkFail hq hf =>
    exact iff_of_true (fun c h1 h2 => absurd ((forkFail_live hq).1 h2) h1) fun c _ h =>
      absurd h (Nat.not_le.2 hf)
  | @forkOk _ _ c rest fs hq hf =>
    have hlive : ∀ s, (a.forkOk c rest b fs).Live s ↔ a.Live s ∨ s = c := fun s => forkOk_live hW.free_nodup hq
    have hne : ∀ s, a.Live s → s ≠ c := by rintro s hs rfl; exact not_live hq hs
    constructor
    · intro h c' hc' _ s hs
      rw [hq, List.head?_cons, Option.some.injEq, Node.task.injEq] at hc'
      have := h c (not_live hq) ((hlive c).2 (.inr rfl)) s hs
      rwa [forkOk_dir, forkOk_dir, if_neg (hne s hs), if_pos rfl, hc'] at this
    · intro h c' h1 h2 s hs
      obtain rfl := ((hlive c').1 h2).resolve_left h1
      rw [forkOk_dir, forkOk_dir, if_neg (hne s hs), if_pos rfl]
      exact h _ (by rw [hq]; rfl) hf s hs

/-! ### Runs -/

theorem init_isolated (h : boot M = .ok k) : Isolated k := by
  obtain ⟨k', h', hW⟩ := boot_ok M
  cases h'.symm.trans h
  refine hW.isolated_iff.2 fun s t hs ht => ?_
  have hfree : ∀ s : Slot, Node.task s ∉ bootFree → s = 0 ∨ s = 1 := by decide
  rcases hfree s (by simpa [AState.Live, bootState] using hs) with rfl | rfl <;>
    rcases hfree t (by simpa [AState.Live, bootState] using ht) with rfl | rfl <;> simp [bootState]

/-- While no task ends before the threads on its directory, a free struct's directory is unused. -/
theorem run_owners (hr : KRun M tr k) (hC : ∀ t ∈ tr, OwnerStays t.before t.event) :
    ∃ a, WF k a ∧ a.Owners := by
  refine hr.invariant_of (P := fun k => ∃ a, WF k a ∧ a.Owners) (C := OwnerStays) (fun k hk => ?_) ?_ hC
  · obtain ⟨k', h, hW⟩ := boot_ok M
    cases h.symm.trans hk
    refine ⟨_, hW, fun s hs => ?_⟩
    have hd : (bootState M).dir s = 0 ∨ (bootState M).dir s = 1 := by
      simp only [bootState]; split <;> simp
    rcases hd with h | h <;> rw [h] <;> simp [AState.Live, bootState, bootFree]
  rintro tr k e o k' - ⟨a, hW, hO⟩ hC hs
  obtain ⟨a', h, hW'⟩ := hs.refines hW
  refine ⟨a', hW', fun s hs' => ?_⟩
  rcases h.memory with ⟨-, h⟩ | h
  · rw [h.live, h.dir]; exact hO s (h.live.1 hs')
  cases h with
  | forkFail hq hf =>
    have hs₀ := (forkFail_live hq).1 hs'
    rw [forkFail_live hq, (forkFail_other hq hs₀).1]; exact hO s hs₀
  | @forkOk u b c rest fs hq hf =>
    rw [forkOk_live hW.free_nodup hq, forkOk_dir]
    by_cases hsc : s = c
    · rw [if_pos hsc]; exact .inr rfl
    · rw [if_neg hsc]
      exact .inl (hO s (((forkOk_live hW.free_nodup hq).1 hs').resolve_right hsc))
  -- an end of a task leaves the directories of the others with an owner, by the condition
  | exit =>
    obtain ⟨h1, h2⟩ := exit_live.1 hs'
    simp only [OwnerStays, hW.live_iff, hW.dir, hW.current] at hC
    exact exit_live.2 ⟨hO s h1, hC s h1 h2⟩
  | alloc hA =>
    obtain ⟨-, hd, -⟩ := hA.queue
    rw [hA.live, hd]; exact hO s (hA.live.1 hs')
  | @thread u b w f p c rest a₁ hq hA =>
    obtain ⟨hqu, hd, -⟩ := hA.queue
    have hlive := fun s => spawn_live (a := a₁) (s := s) (hqu ▸ hW.free_nodup) (hqu ▸ hq) (a.pid a.current)
      a.tab (some (c, kernelStackSize - 18))
    rw [hlive, hA.live]
    by_cases hsc : s = c
    -- a thread has its creator's directory
    · rw [hsc, (spawn_new _ _ _ _).1]; exact .inl (hO a.current hW.current_live)
    · rw [(spawn_other _ _ _ _ hsc).1, hd]
      exact .inl (hO s (hA.live.1 (((hlive s).1 hs').resolve_right hsc)))
  | @terminate u b hm =>
    obtain ⟨h1, h2⟩ := leave_live.1 hs'
    have hT : getPT k a.current = a.tab := hW.getPT
    simp only [OwnerStays, hW.live_iff, hW.dir, hW.current, hT, Mm.getFrame, hW.table, Nat.not_lt.2 hm.1,
      Nat.not_le.2 hm.2.1, hm.2.2, false_or] at hC
    exact leave_live.2 ⟨hO s h1, hC s h1 h2⟩
  | _ => exact hO s hs'

/-- **Isolation of processes, exactly.** Along a run live tasks on one page directory have one
PID, and no fork gives away a directory in use, if and only if each fork finds the directory of
the struct it takes unused. It does as long as no task ends before the threads on its directory. -/
theorem isolation_exact (hr : KRun M tr k) :
    ((∀ t ∈ tr, Isolated t.after ∧ GivesUnused t) ↔ ∀ t ∈ tr, SlotUnused t.before t.event) ∧
    ((∀ t ∈ tr, OwnerStays t.before t.event) → ∀ t ∈ tr, SlotUnused t.before t.event) := by
  refine ⟨⟨fun h t ht => ?_, fun h t ht => ⟨?_, ?_⟩⟩, fun h t ht => ?_⟩
  · obtain ⟨tr', -, hr', hs⟩ := hr.mem ht
    exact (givesUnused_iff hr' hs).1 (h t ht).2
  · exact hr.always_of (P := Isolated) (C := SlotUnused) (fun _ => init_isolated) isolated_step h t ht
  · obtain ⟨tr', -, hr', hs⟩ := hr.mem ht
    exact (givesUnused_iff hr' hs).2 (h t ht)
  · obtain ⟨tr', hsuf, hr', hs⟩ := hr.mem ht
    obtain ⟨a, hW, hO⟩ := run_owners hr' fun t' h' => h t' (hsuf.subset (List.mem_cons_of_mem _ h'))
    unfold SlotUnused; split
    · intro c hc _ s hs hd
      rw [hW.members_free] at hc
      rw [hW.live_iff] at hs
      rw [hW.dir] at hd
      exact hO s hs (by rw [hd]; exact List.mem_of_mem_head? hc)
    · trivial

/-! ### A run -/

theorem freeFrames_freeAll (phys : ℕ → Byte) (F : ℕ → Prop) : freeFrames phys ≤ freeFrames (freeAll phys F) := by
  refine Finset.card_le_card fun f hf => ?_
  obtain ⟨hr, he, hf⟩ := Finset.mem_filter.1 hf
  refine Finset.mem_filter.2 ⟨hr, he, ?_⟩
  unfold freeAll
  split
  · rfl
  · exact hf

theorem exit_free : (a.exit b).queue .freequeue = a.queue .freequeue ++ [.task a.current] := by
  simp [AState.exit, AState.leave, AState.dispatch, AState.push, AState.put, AState.release]

theorem exit_current {t : Slot} {xs : List Node} (h : a.queue .readyqueue = .task t :: xs) :
    (a.exit b).current = t := by
  simp [AState.exit, AState.leave, AState.dispatch, AState.push, AState.put, AState.release, AState.next, h]

/-- Allocation and exit touch the current table only. -/
theorem other_table {p f : ℕ} (hs : s ≠ a.tab) (q : ℕ) :
    (a.mapped p f).table s q = a.table s q ∧ (a.exit b).table s q = a.table s q :=
  ⟨if_neg fun h => hs h.1, if_neg fun h => hs h.1⟩

/-- Task 1 forks task 2 and makes thread 3, and ends. -/
theorem orphan_run (M : Machine) (b : ℕ) : ∃ tr k a, KRun M tr k ∧
    tr.map (·.event) = [.sysenter .exit someStack b, .sysenter (.createthread 0 0 0) someStack b,
      .sysenter .fork someStack b] ∧ WF k a ∧ Ready a 335 ∧ a.current = 2 ∧
    a.queue .freequeue = [.task 4, .task 5, .task 6, .task 7, .task 8, .task 9, .task 1] ∧
    a.dir 3 = 1 ∧ a.pid 3 = 1 ∧ a.lastPid = 1001 := by
  obtain ⟨k₀, o₁, k₁, fs, hr₀, hW₀, hs₁, hW₁, hl, hR₁⟩ := fork_run M b
  have hR₀ := boot_ready M
  set a₁ := (bootState M).forkOk 2 bootFree.tail b fs
  -- task 1 makes a thread, in slot 3, and ends
  have hq₁ : a₁.queue .freequeue = .task 3 :: [.task 4, .task 5, .task 6, .task 7, .task 8, .task 9] := by
    simp [a₁, forkOk_queue, bootFree]
  have hT₁ : a₁.tab = 1 := rfl
  have hA₁ : CanAlloc a₁ := Ready.canAlloc (n := 335) hR₁ ⟨heapStart, le_rfl, by decide, by
    rw [hT₁]; exact congrArg Pte.pbaseAddr (if_pos ⟨rfl, le_rfl, by decide⟩)⟩
  obtain ⟨o₂, k₂, p, f, hs₂, hW₂, hF⟩ := thread_step hW₁ hR₁.user hR₁.data hq₁ hA₁ 0 0 0 b
  set a₂ := (a₁.mapped p f).spawn 3 [.task 4, .task 5, .task 6, .task 7, .task 8, .task 9] (a₁.pid a₁.current)
    a₁.tab (some (3, kernelStackSize - 18))
  have hR₂ : Ready a₂ 335 := (hR₁.mapped hF).spawn (show (3 : Slot) ≠ 1 by decide) _ _ _
  have hready₂ : a₂.queue .readyqueue = .task 2 :: [.task 3] := by
    simp [a₂, AState.spawn, AState.push, AState.put, AState.mapped, a₁, forkOk_queue, bootState]
  obtain ⟨o₃, k₃, hs₃, hW₃⟩ := exit_step hW₂ hR₂.user hR₂.data (.inr hready₂) b
  have hnext : (a₂.exit b).current = 2 := exit_current hready₂
  -- only the two new tasks have had their directories set
  have hdir : ∀ s : Slot, s ≠ 3 → s ≠ 2 → a₂.dir s = (bootState M).dir s := by
    intro s h3 h2
    simp [a₂, AState.spawn, AState.push, AState.put, AState.mapped, a₁, forkOk_dir, h2, h3]
  have hT₂ : a₂.tab = 1 := hdir 1 (by decide) (by decide)
  have hd₂ : a₂.dir 2 = 2 := by
    simp [a₂, AState.spawn, AState.push, AState.put, AState.mapped, a₁, forkOk_dir]
  refine ⟨_, k₃, _, ((hr₀.step hs₁).step hs₂).step hs₃, rfl, hW₃, ⟨?_, ?_, ?_⟩, hnext, ?_, ?_, ?_, ?_⟩
  · rw [hnext]; show (2 : Slot) ≠ 0; decide
  · -- the exit empties table 1; the pages of table 2 are those of the fork
    rw [AState.tab, hnext, show (a₂.exit b).dir 2 = 2 from hd₂]
    intro p' h1 h2
    have hdata : HasData a₁.table 2 := forkTable_data hR₀.data (.inl rfl)
    have hclear : (a₂.exit b).table 2 p' = a₂.table 2 p' :=
      (other_table (p := 0) (f := 0) (by rw [hT₂]; decide) p').2
    have hmap : a₂.table 2 p' = a₁.table 2 p' :=
      (other_table (a := a₁) (s := 2) (b := 0) (p := p) (f := f) (by rw [hT₁]; decide) p').1
    rw [hclear, hmap]
    exact hdata p' h1 h2
  · exact le_trans hR₂.frames (freeFrames_freeAll _ _)
  · rw [exit_free]
    simp [a₂, AState.spawn, AState.push, AState.put]
    rfl
  · show a₂.dir 3 = 1
    simp [a₂, AState.spawn, hT₁]
  · rw [exit_pid (show (3 : Slot) ≠ 1 by decide)]
    simp only [a₂, (spawn_new _ _ _ _).2]
    rfl
  · rfl

/-- The orphaned thread 3 shares its page directory with the process that the struct of task 1
is given to next. -/
theorem fork_shares_directory : ∃ tr k, KRun aMachine tr k ∧
    tr.map (·.event) = List.replicate 7 (.sysenter .fork someStack 1000) ++
      [.sysenter .exit someStack 1000, .sysenter (.createthread 0 0 0) someStack 1000,
        .sysenter .fork someStack 1000] ∧
    Live k 1 ∧ Live k 3 ∧ (k.task 1).dirPagesBaseAddr = (k.task 3).dirPagesBaseAddr ∧
    (k.task 1).PID = 1008 ∧ (k.task 3).PID = 1 := by
  obtain ⟨tr, k, a, hr, he, hW, hR, hc, hq, hd, hp, hlast⟩ := orphan_run aMachine 1000
  obtain ⟨tr', k', a', hr', he', hW', hR', hF, hq'⟩ := forks_run 1000 215 [4, 5, 6, 7, 8, 9] hr hW hR
    (show a.queue .freequeue = [4, 5, 6, 7, 8, 9].map Node.task ++ [.task 1] by rw [hq]; rfl)
  have hc' : (1 : Slot) ≠ a'.current := by rw [hF.current, hc]; decide
  obtain ⟨o, k₁, fs, hs, hW₁, -⟩ := fork_step hW' hR'.user hR'.data hq' (le_trans (by decide) hR'.frames) 1000
  have hlive : ∀ s, (a'.forkOk 1 [] 1000 fs).Live s := fun s => by simp [AState.Live, forkOk_queue]
  refine ⟨_, k₁, hr'.step hs, ?_, hW₁.live_iff.2 (hlive 1), hW₁.live_iff.2 (hlive 3), ?_, ?_, ?_⟩
  · rw [List.map_cons, he', he]; rfl
  · rw [hW₁.dir, hW₁.dir, forkOk_dir, forkOk_dir, if_pos rfl, if_neg (by decide), hF.dir 3 (by decide), hd]
  · rw [hW₁.pid, show (a'.forkOk 1 [] 1000 fs).pid 1 = a'.lastPid + 1 by
      simp [AState.forkOk, AState.spawn], hF.lastPid, hlast]
    rfl
  · rw [hW₁.pid, (forkOk_other (by decide)).2, hF.pid 3 (by decide), hp]

/-- Task 1 makes a child and exits, the last task on its directory. -/
theorem isolation_exact_fork : ∃ tr k, KRun aMachine tr k ∧
    tr.map (·.event) = [.sysenter .exit someStack 1000, .sysenter .fork someStack 1000] ∧
    (∀ t ∈ tr, OwnerStays t.before t.event) ∧ (∀ t ∈ tr, SlotUnused t.before t.event) ∧
    ∀ t ∈ tr, Isolated t.after ∧ GivesUnused t := by
  obtain ⟨k₀, o₁, k₁, fs, hr, hW₀, hs₁, hW₁, -, hR⟩ := fork_run aMachine 1000
  set a := (bootState aMachine).forkOk 2 bootFree.tail 1000 fs
  have hready : a.queue .readyqueue = .task 2 :: [] := by
    simp [a, forkOk_queue, bootState]
  obtain ⟨o₂, k₂, hs₂, -⟩ := exit_step hW₁ hR.user hR.data (.inr hready) 1000
  have hr₂ := (hr.step hs₁).step hs₂
  -- at the exit the live tasks are idle, task 1 and its child
  have hdir : ∀ s, a.Live s → s ≠ 1 → a.dir s ≠ 1 := by
    intro s hs hne
    have hq : (bootState aMachine).queue .freequeue = .task 2 :: bootFree.tail := rfl
    have hboot : ∀ s, (bootState aMachine).Live s → s = 0 ∨ s = 1 := by
      simp only [AState.Live, bootState, bootFree]
      decide
    rcases (forkOk_live hW₀.free_nodup hq).1 hs with hs | rfl
    · obtain rfl := (hboot s hs).resolve_right hne
      show (0 : Slot) ≠ 1
      decide
    · simp [a, forkOk_dir]
  have howner : OwnerStays k₁ (.sysenter .exit someStack 1000) := by
    intro s hs hne
    rw [hW₁.current] at hne ⊢
    rw [hW₁.dir]
    exact hdir s (hW₁.live_iff.1 hs) hne
  refine ⟨_, k₂, hr₂, rfl, ?_⟩
  obtain ⟨h1, h2⟩ := isolation_exact hr₂
  refine ⟨?_, h2 ?_, h1.2 (h2 ?_)⟩
  all_goals
    simp only [List.forall_mem_cons]
    exact ⟨howner, trivial, fun _ h => (List.not_mem_nil h).elim⟩

end Zeos
