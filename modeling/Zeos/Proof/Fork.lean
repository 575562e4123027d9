import Zeos.Proof.Calls

/-!
# fork and createthread

Both take the first struct of `freequeue`, copy the caller's over it, list node
included, and queue it, so that between the two the struct is on no queue.

* `sysFork_outcome`, `sysCreatethread_outcome`: they are steps of the abstract kernel.
* `takeFree_ok`: the struct comes off `freequeue`, and the other queues are as they were.
-/

namespace Zeos

open LinkHeap ForLoop

variable {k k' : Kernel} {a a' : AState} {off : Slot → Prop} {s t c : Slot} {u : Word} {b : ℕ}
  {rest : List Node}

theorem takeFree_ok {I : Sem → Prop} {q : Node → List Node} (hQ : Queues k.links I q off)
    (hq : q .freequeue = .task c :: rest) :
    ∃ h₁, takeFree k = .ok (c, k.setLinks h₁) ∧
      Queues h₁ I (Function.update q .freequeue rest) fun s => off s ∨ s = c := by
  have hF := listFirst_rings hQ.rings Heads.free
  rw [hq, firstOf] at hF
  obtain ⟨h₁, h1, hQ⟩ := hQ.pop Heads.free hq
  refine ⟨h₁, ?_, hQ⟩
  simp [takeFree, hF, h1, listHeadToTaskStruct, bind, Except.bind, pure, Except.pure]

/-- The struct taken is neither the current task's nor idle's. -/
theorem free_ne (hW : WF k a) (hq : a.queue .freequeue = .task c :: rest) :
    c ≠ a.current ∧ c ≠ a.idle := by
  have := hW.queues.not_off Heads.free (s := c) (by rw [hq]; simp)
  exact ⟨fun h => this (.inl h), fun h => this (.inr h)⟩

theorem free_cases (hW : WF k a) :
    (a.queue .freequeue = [] ∧ listEmpty k.links .freequeue = true) ∨
    ∃ c rest, a.queue .freequeue = .task c :: rest ∧ listEmpty k.links .freequeue = false := by
  have hE := listEmpty_rings hW.queues.rings Heads.free
  cases hq : a.queue .freequeue with
  | nil => exact .inl ⟨rfl, hE.2 hq⟩
  | cons x rest =>
    obtain ⟨c, rfl⟩ := hW.queues.free_task x (by rw [hq]; simp)
    refine .inr ⟨c, rest, rfl, ?_⟩
    rw [← Bool.not_eq_true, hE, hq]; simp

/-- The struct of the caller copied over the struct taken, which gets page directory `d`. -/
structure Copied (k k' : Kernel) (a : AState) (c d : Slot) (rest : List Node) : Prop where
  other : ∀ s, s ≠ c → k'.task s = k.task s
  pid : (k'.task c).PID = a.pid a.current
  dir : (k'.task c).dirPagesBaseAddr = d
  esp : (k'.task c).registerEsp = a.esp a.current
  queues : Queues k'.links a.IsInit (Function.update a.queue .freequeue rest)
    fun s => (s = a.current ∨ s = a.idle) ∨ s = c
  sem : k'.listSem = k.listSem
  current : k'.current = k.current
  idle : k'.idleTask = k.idleTask
  lastPid : k'.globalPID = k.globalPID
  cr3 : k'.cr3 = k.cr3
  mm : k'.mm = k.mm

theorem copyTaskUnion_copied (hW : WF k a) {h₁ : Heap Node}
    (hQ : Queues h₁ a.IsInit (Function.update a.queue .freequeue rest)
      fun s => (s = a.current ∨ s = a.idle) ∨ s = c) :
    Copied k (copyTaskUnion (k.setLinks h₁) k.current c) a c a.tab rest where
  other s hs := by simp [copyTaskUnion, Kernel.setLinks, hs]
  pid := by simp [copyTaskUnion, Kernel.setLinks, hW.pid, hW.current]
  dir := by simp [copyTaskUnion, Kernel.setLinks, hW.dir, hW.current, AState.tab]
  esp := by simp [copyTaskUnion, Kernel.setLinks, hW.esp, hW.current]
  queues := hQ.frame fun x hx => by
    by_cases h : x = .task c
    · exact ⟨c, h, .inr rfl⟩
    · simp [copyTaskUnion, Kernel.setLinks, h] at hx
  sem := rfl
  current := rfl
  idle := rfl
  lastPid := rfl
  cr3 := rfl
  mm := rfl

theorem Copied.allocateDIR {d : Slot} (h : Copied k k' a c d rest) :
    Copied k (allocateDIR k' c) a c c rest :=
  { h with
    other := fun s hs => by simp [Zeos.allocateDIR, Kernel.setTask, hs, h.other s hs]
    pid := by simp [Zeos.allocateDIR, Kernel.setTask, h.pid]
    dir := by simp [Zeos.allocateDIR, Kernel.setTask]
    esp := by simp [Zeos.allocateDIR, Kernel.setTask, h.esp] }

/-- The struct queued as ready: the new state is well formed. -/
theorem WF.spawned (hW : WF k a) (hc : a.current ≠ a.idle) (hq : a.queue .freequeue = .task c :: rest)
    {pid : Word} {dir : Slot} {i : ℕ} {a₁ : AState} (hs : Sees k' (a₁.spawn c rest pid dir (some (c, i))))
    (hQ : Queues k'.links a.IsInit (Function.update (Function.update a.queue .freequeue rest) .readyqueue
      (a.queue .readyqueue ++ [.task c])) fun s => s = a.current ∨ s = a.idle)
    (h₁ : a₁ = { a with phys := a₁.phys, table := a₁.table, lastPid := a₁.lastPid })
    (hd : k'.mm.dirPages = id) (hf : a₁.phys numPagKernel ≠ frameFree)
    (hcr : k'.cr3 = a.tab) (hrun : (k'.task a.current).state = .ST_RUN) :
    WF k' (a₁.spawn c rest pid dir (some (c, i))) := by
  have hne := free_ne hW hq
  have hlive : ∀ s, (a₁.spawn c rest pid dir (some (c, i))).Live s → s ≠ c → a.Live s := by
    intro s hs hsc hm
    rw [hq, List.mem_cons] at hm
    rcases hm with hm | hm
    · exact hsc (by simpa using hm)
    · apply hs
      rw [h₁]
      simpa [AState.spawn, AState.push, AState.put] using hm
  have hqueue : (a₁.spawn c rest pid dir (some (c, i))).queue = Function.update
      (Function.update a.queue .freequeue rest) .readyqueue (a.queue .readyqueue ++ [.task c]) := by
    rw [h₁]; simp [AState.spawn, AState.push, AState.put]
  have hesp : (a₁.spawn c rest pid dir (some (c, i))).esp = Function.update a.esp c (some (c, i)) := by
    rw [h₁]; rfl
  have hI : (a₁.spawn c rest pid dir (some (c, i))).IsInit = a.IsInit := by rw [h₁]; rfl
  have hcur : (a₁.spawn c rest pid dir (some (c, i))).current = a.current := by rw [h₁]; rfl
  have hidle : (a₁.spawn c rest pid dir (some (c, i))).idle = a.idle := by rw [h₁]; rfl
  have htab : (a₁.spawn c rest pid dir (some (c, i))).tab = a.tab := by
    rw [h₁]; simp [AState.tab, AState.spawn, AState.push, AState.put, Ne.symm hne.1]
  exact { hs with
    queues := by rw [hI, hqueue, hcur, hidle]; exact hQ
    dirs := hd
    own := fun s sp hl he => by
      rw [hesp] at he
      by_cases h : s = c
      · subst h; rw [Function.update_self, Option.some.injEq] at he; rw [← he]
      · exact hW.own s sp (hlive s hl h) (by rwa [Function.update_of_ne h] at he)
    ran := fun s hl hsc => by
      rw [hesp]
      by_cases h : s = c
      · subst h; simp
      · rw [Function.update_of_ne h]
        exact hW.ran s (hlive s hl h) (hcur ▸ hsc)
    first := hf
    cr3 := hcr.trans htab.symm
    run := hcur ▸ hrun
    alone := fun h => absurd (hcur ▸ hidle ▸ h) hc }

theorem Copied.queue {d : Slot} (h : Copied k k' a c d rest) (hne : c ≠ a.current ∧ c ≠ a.idle)
    {hd : Node} (hh : Heads a.IsInit (Function.update a.queue .freequeue rest) hd) :
    ∃ h₂, listAddTail k'.links (.task c) hd = .ok h₂ ∧
      Queues h₂ a.IsInit (Function.update (Function.update a.queue .freequeue rest) hd
        (Function.update a.queue .freequeue rest hd ++ [.task c])) fun s => s = a.current ∨ s = a.idle := by
  obtain ⟨h₂, h1, h2⟩ := h.queues.push hh (s := c) (.inr rfl)
  refine ⟨h₂, h1, h2.congr_off fun s => ?_⟩
  constructor
  · rintro ⟨h | h, hsc⟩
    · exact h
    · exact absurd h hsc
  · rintro (rfl | rfl)
    · exact ⟨.inl (.inl rfl), Ne.symm hne.1⟩
    · exact ⟨.inl (.inr rfl), Ne.symm hne.2⟩

/-! ### fork -/

/-- `sys_fork` with its struct taken and copied. -/
theorem sysFork_eq (hW : WF k a) (hq : a.queue .freequeue = .task c :: rest)
    (hE : listEmpty k.links .freequeue = false) :
    ∃ k₂, Copied k k₂ a c c rest ∧ sysFork k b = forkPages k₂ c b := by
  obtain ⟨h₁, hT, hQ⟩ := takeFree_ok hW.queues hq
  refine ⟨_, (copyTaskUnion_copied hW hQ).allocateDIR, ?_⟩
  rw [sysFork, hE, hT]; rfl

/-- The page table of the current task, in a call that has copied its struct. -/
theorem Copied.getPT_current {k₂ : Kernel} {d : Slot} (h : Copied k k₂ a c d rest) (hW : WF k a)
    (hne : c ≠ a.current ∧ c ≠ a.idle) : getPT k₂ k₂.current = a.tab := by
  rw [getPT, h.mm, hW.dirs, h.current, h.other _ (by rw [hW.current]; exact Ne.symm hne.1), hW.dir, hW.current]
  rfl

theorem Copied.tables {k₂ : Kernel} (h : Copied k k₂ a c c rest) (hW : WF k a)
    (hne : c ≠ a.current ∧ c ≠ a.idle) : getPT k₂ c = c ∧ getDIR k₂ k₂.current = a.tab := by
  refine ⟨by rw [getPT, h.dir, h.mm, hW.dirs]; rfl, ?_⟩
  rw [getDIR, h.current, h.other _ (by rw [hW.current]; exact Ne.symm hne.1), hW.dir, hW.current]; rfl

/-- `forkPages` without enough frames. -/
theorem forkPages_fail {k₂ : Kernel} {m : Mm} (hD : forkData (getPT k₂ c) numPagData 0 k₂.mm = (false, m)) :
    forkPages k₂ c b = (listAddTail k₂.links (.task c) .freequeue).bind fun h =>
      .ok (-eagain, (k₂.setMm m).setLinks h) := by
  simp only [forkPages, hD]; rfl

/-- `forkPages` with enough frames. -/
theorem forkPages_ok {k₂ : Kernel} {m : Mm}
    (hD : forkData (getPT k₂ c) numPagData 0 k₂.mm = (true, m)) :
    forkPages k₂ c b = (forkImage (k₂.setMm m) (getPT k₂ c)).bind fun k₃ =>
      (listAddTail (forkChild k₃ c b).links (.task c) .readyqueue).bind fun h =>
        .ok (((forkChild k₃ c b).task c).PID, (forkChild k₃ c b).setLinks h) := by
  simp only [forkPages, hD]; rfl

theorem forkImage_eq {k₂ : Kernel} {P : Slot} :
    forkImage k₂ P = (forkCopy (forkSystem k₂.mm P (getPT k₂ k₂.current)) k₂.cr3 P
      (getPT k₂ k₂.current)).map fun m => { k₂.setMm m with cr3 := getDIR k₂ k₂.current } := by
  simp only [forkImage]
  cases forkCopy (forkSystem k₂.mm P (getPT k₂ k₂.current)) k₂.cr3 P (getPT k₂ k₂.current) <;> rfl

theorem fork_tables {m m₁ m₂ : Mm} {T : Slot} {fs : List ℕ} (hg : Grabbed m m₁ c fs)
    (hl : fs.length = numPagData)
    (hw : WindowCleared (forkSystem m₁ c T) m₂ T (heapStart + numPagData)) :
    m₂.physMem = useAll m.physMem fs ∧ m₂.pagusrTable = forkTable m.pagusrTable T c fs ∧
      m₂.dirPages = m.dirPages := by
  refine ⟨?_, ?_, by rw [hw.dirs, (forkSystem_rest _ _).2, hg.dirs]⟩
  · rw [hw.phys, (forkSystem_rest _ _).1]; exact funext hg.phys
  · funext s p
    have hget : p < pagLogInitData → m₁.getFrame T p = (m.pagusrTable T p).pbaseAddr := by
      intro hp; rw [Mm.getFrame, hg.table, if_neg]; rintro ⟨-, h, -⟩; omega
    rw [hw.table, forkSystem_table, hg.table, hl, forkTable]
    refine if_congr Iff.rfl rfl ?_
    by_cases hp : p < pagLogInitData
    · by_cases hs : s = c
      · rw [if_pos ⟨hs, hp⟩, if_pos ⟨hs, hp⟩, hget hp]
      · rw [if_neg fun h => hs h.1, if_neg fun h => hs h.1, if_neg fun h => hs h.1, if_neg fun h => hs h.1]
    · have hp' : ¬ (s = c ∧ p < pagLogInitData) := fun h => hp h.2
      rw [if_neg hp', if_neg hp']
      refine if_congr ⟨fun h => ⟨h.1, h.2.2⟩, fun h => ⟨h.1, by omega, h.2⟩⟩ rfl rfl

theorem release_tables {m m₁ : Mm} {fs : List ℕ} (hg : Grabbed m m₁ c fs)
    (hl : fs.length = freeFrames m.physMem) (h256 : m.physMem numPagKernel ≠ frameFree) :
    (releaseData m₁ c fs.length).physMem = m.physMem ∧ (releaseData m₁ c fs.length).pagusrTable =
        clearPages m.pagusrTable c pagLogInitData (pagLogInitData + freeFrames m.physMem) ∧
      (releaseData m₁ c fs.length).dirPages = m.dirPages := by
  refine ⟨funext fun g => hg.release h256 g, funext fun s => funext fun p => ?_,
    by rw [releaseData_dirs, hg.dirs]⟩
  rw [releaseData_table, hg.table, clearPages, hl]
  split <;> rfl

/-- The child of a fork, its image in place. -/
theorem forkChild_sees {k₃ : Kernel} (hs : Sees k₃ a) (b : ℕ) :
    Sees (forkChild k₃ c b) { a with
      pid := Function.update a.pid c (a.lastPid + 1)
      esp := Function.update a.esp c (some (c, b - 1))
      lastPid := a.lastPid + 1 } := by
  set k₄ : Kernel := { k₃ with globalPID := k₃.globalPID + 1 }
  set k₅ := k₄.setTask c { k₄.task c with PID := k₄.globalPID, state := .ST_READY }
  set k₆ := k₅.setTask c { k₅.task c with registerEsp := some (c, b - 1), resume := .retFromFork }
  have h : Same k₆ (forkChild k₃ c b) := (Same.initStats (t := c)).trans (.setState (t := c) .ST_READY)
  have hp : k₃.globalPID = a.lastPid := hs.lastPid
  refine ⟨fun s => (h.pid s).trans ?_, fun s => (h.dir s).trans ?_, fun s => (h.esp s).trans ?_,
    h.sem.trans hs.sem, h.current.trans hs.current, h.idle.trans hs.idle, h.lastPid.trans ?_,
    h.mm.phys.trans hs.phys, h.mm.table.trans hs.table⟩
  · by_cases hsc : s = c <;> simp [k₆, k₅, k₄, Kernel.setTask, hsc, hp, hs.pid]
  · by_cases hsc : s = c <;> simp [k₆, k₅, k₄, Kernel.setTask, hsc, hs.dir]
  · by_cases hsc : s = c <;> simp [k₆, k₅, k₄, Kernel.setTask, hsc, hs.esp]
  · exact congrArg (· + 1) hp

theorem forkChild_state {k₃ : Kernel} (hs : s ≠ c) :
    ((forkChild k₃ c b).task s).state = (k₃.task s).state := by
  simp [forkChild, setState, initStats, getTicks, setStats, Kernel.setTask, hs]

/-- The struct and the memory after the copy. -/
theorem Copied.sees {k₂ k₃ : Kernel} {d : Slot} (h : Copied k k₂ a c d rest) (hW : WF k a)
    {p : ℕ → Byte} {tb : Slot → ℕ → Pte} (ht : k₃.task = k₂.task) (hsem : k₃.listSem = k₂.listSem)
    (hcur : k₃.current = k₂.current) (hid : k₃.idleTask = k₂.idleTask) (hl : k₃.globalPID = k₂.globalPID)
    (hp : k₃.mm.physMem = p) (htb : k₃.mm.pagusrTable = tb) :
    Sees k₃ { a with
      pid := Function.update a.pid c (a.pid a.current)
      dir := Function.update a.dir c d
      esp := Function.update a.esp c (a.esp a.current)
      phys := p
      table := tb } := by
  refine ⟨fun s => ?_, fun s => ?_, fun s => ?_, hsem.trans (h.sem.trans hW.sem),
    hcur.trans (h.current.trans hW.current), hid.trans (h.idle.trans hW.idle),
    hl.trans (h.lastPid.trans hW.lastPid), hp, htb⟩ <;> rw [ht] <;> by_cases hs : s = c
  · subst hs; simp [h.pid]
  · simp [h.other s hs, hs, hW.pid]
  · subst hs; simp [h.dir]
  · simp [h.other s hs, hs, hW.dir]
  · subst hs; simp [h.esp]
  · simp [h.other s hs, hs, hW.esp]

theorem sysFork_outcome (hW : WF k a) (hc : a.current ≠ a.idle) :
    Outcome a (.sysenter .fork u b) ((sysFork k b).map returning) := by
  refine .map (sysFork_noStack k b) fun v k' hk => ?_
  -- without a free slot the call fails before it writes anything
  rcases free_cases hW with ⟨hq, hE⟩ | ⟨c, rest, hq, hE⟩
  · rw [sysFork, if_pos hE] at hk
    cases hk; exact ⟨a, .forkNone hq, hW⟩
  obtain ⟨k₂, hC, hcall⟩ := sysFork_eq (b := b) hW hq hE
  have hne := free_ne hW hq
  obtain ⟨hPT, hDIR⟩ := hC.tables hW hne
  have hrun₂ : (k₂.task a.current).state = .ST_RUN := by rw [hC.other _ (Ne.symm hne.1)]; exact hW.run
  have h256 : k.mm.physMem numPagKernel ≠ frameFree := by rw [hW.phys]; exact hW.first
  rw [hcall] at hk
  -- the two ends of the loop over the data pages: all frames found, or one missing
  rcases forkData_cases k.mm c with ⟨fs, m, hl, hfree, hg, hD⟩ | ⟨fs, m, hl, hfree, hg, hD⟩
  · rw [forkPages_ok (by rw [hPT, hC.mm]; exact hD), hPT, forkImage_eq] at hk
    have hT : getPT (k₂.setMm m) (k₂.setMm m).current = a.tab := by
      rw [← hDIR, getPT, Kernel.setMm, hg.dirs, hW.dirs]; rfl
    rw [hT] at hk
    obtain ⟨k₃, h1, hk⟩ := bind_ok.1 hk
    -- the copy cannot fault here: the call has come back
    cases hcpy : forkCopy (forkSystem (k₂.setMm m).mm c a.tab) (k₂.setMm m).cr3 c a.tab with
    | error e => rw [hcpy] at h1; cases h1
    | ok m₂ =>
      rw [hcpy] at h1
      cases h1
      obtain ⟨hp, ht, hd⟩ := fork_tables hg hl (forkCopy_window hcpy)
      obtain ⟨h₂, h2, hQ⟩ := hC.queue hne Heads.ready
      obtain ⟨h₂', h2', hk⟩ := bind_ok.1 hk
      cases h2.symm.trans h2'
      cases hk
      refine ⟨_, .forkOk hq (hW.phys ▸ hfree) hl hg.nodup fun f hf => ⟨hg.even f hf, hW.phys ▸ hg.free f hf⟩, ?_⟩
      -- the state of the child is written over that of the copied task struct
      set k₃ : Kernel := { (k₂.setMm m).setMm m₂ with cr3 := getDIR (k₂.setMm m) (k₂.setMm m).current }
      have hs₃ : Sees k₃ _ := hC.sees hW rfl rfl rfl rfl rfl hp ht
      have hs := forkChild_sees (c := c) hs₃ b
      have hrun : ((forkChild k₃ c b).task a.current).state = .ST_RUN :=
        (forkChild_state (Ne.symm hne.1)).trans hrun₂
      have hs' : Sees ((forkChild k₃ c b).setLinks h₂) ({ a with
          phys := useAll a.phys fs
          table := forkTable a.table a.tab c fs
          lastPid := a.lastPid + 1 }.spawn c rest (a.lastPid + 1) c (some (c, b - 1))) := by
        refine ⟨fun s => (hs.pid s).trans ?_, fun s => hs.dir s, fun s => (hs.esp s).trans ?_, hs.sem,
          hs.current, hs.idle, hs.lastPid, hs.phys.trans ?_, hs.table.trans ?_⟩
        · simp [AState.spawn, AState.push, AState.put]
        · simp [AState.spawn, AState.push, AState.put]
        · simp [AState.spawn, AState.push, AState.put, hW.phys]
        · simp [AState.spawn, AState.push, AState.put, hW.table]
      refine hW.spawned hc hq hs' ?_ rfl (hd.trans hW.dirs) ?_ hDIR hrun
      · have hQ' : Queues h₂ a.IsInit (Function.update (Function.update a.queue .freequeue rest) .readyqueue
            (a.queue .readyqueue ++ [.task c])) fun s => s = a.current ∨ s = a.idle := by simpa using hQ
        exact hQ'
      · simp only [useAll]
        split
        · exact frameUsed_ne_free
        · exact hW.first
  · rw [forkPages_fail (by rw [hPT, hC.mm]; exact hD)] at hk
    obtain ⟨hp, ht, hd⟩ := release_tables hg hl h256
    obtain ⟨h₂, h2, hQ⟩ := hC.queue hne Heads.free
    obtain ⟨h₂', h2', hk⟩ := bind_ok.1 hk
    cases h2.symm.trans h2'
    cases hk
    refine ⟨_, .forkFail hq (hW.phys ▸ hfree), ?_⟩
    set m' := releaseData m c fs.length
    have hs : Sees ((k₂.setMm m').setLinks h₂) _ := hC.sees hW rfl rfl rfl rfl rfl hp ht
    -- the slot goes to the tail of `freequeue`, where a slot taken came from its head
    have hlive : ∀ s, (a.forkFail c rest).Live s → a.Live s ∧ s ≠ c := by
      intro s hs
      have : (a.forkFail c rest).queue .freequeue = rest ++ [.task c] := by
        simp [AState.forkFail, AState.put]
      rw [AState.Live, this] at hs
      refine ⟨fun hm => hs ?_, fun h => hs (by rw [h]; simp)⟩
      rw [hq] at hm
      exact (List.perm_append_singleton _ _).mem_iff.2 hm
    exact { hs with
      table := hs.table.trans (by rw [hW.phys, hW.table, AState.forkFail])
      phys := hs.phys.trans hW.phys
      queues := by
        have hq' : (a.forkFail c rest).queue = Function.update a.queue .freequeue (rest ++ [.task c]) := rfl
        rw [Function.update_self, Function.update_idem] at hQ
        rw [hq']; exact hQ
      dirs := hd.trans hW.dirs
      own := fun s sp hl he => by
        obtain ⟨hl, hsc⟩ := hlive s hl
        exact hW.own s sp hl (by simpa [AState.forkFail, hsc] using he)
      ran := fun s hl hne' => by
        obtain ⟨hl, hsc⟩ := hlive s hl
        simpa [AState.forkFail, hsc] using hW.ran s hl hne'
      first := hW.first
      cr3 := by
        have : (a.forkFail c rest).tab = a.tab := by
          simp [AState.forkFail, AState.tab, AState.put, Ne.symm hne.1]
        rw [this]; exact hC.cr3.trans hW.cr3
      run := hrun₂
      alone := fun h => absurd h hc }

/-! ### createthread -/

/-- The struct of a new thread on top of the copy. -/
def threadTask (k : Kernel) (c : Slot) (twrap esp : Word) : Kernel :=
  let k := { k with globalTID := k.globalTID + 1 }
  k.setTask c
    { k.task c with
      userEsp := esp
      userEip := twrap
      registerEsp := some (c, kernelStackSize - 18)
      resume := .thread
      TID := k.globalTID
      state := .ST_READY }

theorem sysCreatethread_eq (hW : WF k a) (hq : a.queue .freequeue = .task c :: rest)
    (hE : listEmpty k.links .freequeue = false) (w f p : Word) :
    ∃ k₂, Copied k k₂ a c a.tab rest ∧ sysCreatethread k w f p =
      (pushArgs (allocK k₂).2.mm (allocK k₂).2.cr3 (allocK k₂).1 f p).bind fun m =>
        let k₄ := threadTask ((allocK k₂).2.setMm m) c w (wordAddr (allocK k₂).1 1021)
        (listAddTail k₄.links (.task c) .readyqueue).bind fun h => .ok (0, k₄.setLinks h) := by
  obtain ⟨h₁, hT, hQ⟩ := takeFree_ok hW.queues hq
  refine ⟨_, copyTaskUnion_copied hW hQ, ?_⟩
  rw [sysCreatethread, hE, hT]; rfl

theorem sysCreatethread_outcome (hW : WF k a) (hc : a.current ≠ a.idle) (w f p : Word) :
    Outcome a (.sysenter (.createthread w f p) u b) ((sysCreatethread k w f p).map returning) := by
  refine .map (sysCreatethread_noStack k w f p) fun v k' hk => ?_
  rcases free_cases hW with ⟨hq, hE⟩ | ⟨c, rest, hq, hE⟩
  · rw [sysCreatethread, if_pos hE] at hk
    cases hk; exact ⟨a, .threadNone hq, hW⟩
  obtain ⟨k₂, hC, hcall⟩ := sysCreatethread_eq hW hq hE w f p
  have hne := free_ne hW hq
  have hPT : getPT k₂ k₂.current = a.tab := hC.getPT_current hW hne
  obtain ⟨stack, m, hA, hm⟩ := allocK_cases k₂
  rw [hPT, hC.mm] at hm
  obtain ⟨p', tb, ha, hp, ht, hd, hf⟩ := hW.toShape.alloc hm
  rw [hcall, hA] at hk
  obtain ⟨m', h1, hk⟩ := bind_ok.1 hk
  have hsame := pushArgs_same h1
  set k₄ := threadTask ((k₂.setMm m).setMm m') c w (wordAddr stack 1021)
  obtain ⟨h₂, h2, hQ⟩ := hC.queue hne Heads.ready
  obtain ⟨h₂', h2', hk⟩ := bind_ok.1 hk
  cases h2.symm.trans h2'
  cases hk
  have hs : Sees ((k₂.setMm m).setMm m') _ :=
    hC.sees hW rfl rfl rfl rfl rfl (hsame.phys.trans hp) (hsame.table.trans ht)
  have hs' : Sees (k₄.setLinks h₂) ({ a with phys := p', table := tb }.spawn c rest (a.pid a.current) a.tab
      (some (c, kernelStackSize - 18))) := by
    refine ⟨fun s => ?_, fun s => ?_, fun s => ?_, hs.sem, hs.current, hs.idle, hs.lastPid, hs.phys, hs.table⟩
    · refine Eq.trans ?_ (hs.pid s)
      by_cases h : s = c <;> simp [k₄, threadTask, Kernel.setTask, Kernel.setLinks, h]
    · refine Eq.trans ?_ (hs.dir s)
      by_cases h : s = c <;> simp [k₄, threadTask, Kernel.setTask, Kernel.setLinks, h]
    · by_cases h : s = c
      · simp [k₄, threadTask, Kernel.setTask, Kernel.setLinks, h, AState.spawn]
      · simpa [k₄, threadTask, Kernel.setTask, Kernel.setLinks, h, AState.spawn] using hs.esp s
  refine ⟨_, .thread hq ha, hW.spawned hc hq hs' ?_ rfl (hsame.dirs.trans (hd.trans hW.dirs)) hf
    (hC.cr3.trans hW.cr3) ?_⟩
  · have hQ' : Queues h₂ a.IsInit (Function.update (Function.update a.queue .freequeue rest) .readyqueue
        (a.queue .readyqueue ++ [.task c])) fun s => s = a.current ∨ s = a.idle := by simpa using hQ
    exact hQ'
  · have h : (k₄.task a.current).state = (k₂.task a.current).state := by
      simp [k₄, threadTask, Kernel.setTask, Kernel.setMm, Ne.symm hne.1]
    exact h.trans (by rw [hC.other _ (Ne.symm hne.1)]; exact hW.run)

end Zeos
