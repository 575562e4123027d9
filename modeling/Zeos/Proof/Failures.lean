import Zeos.Proof.Isolation
import Zeos.Proof.Parent

/-!
# Calls that run out of memory

A fork that finds too few frames gives back what it has taken. `sys_createthread` does not look at
what `alloc_k` returns.

* `thread_fails_cleanly_iff`: **when `sys_createthread` fails cleanly without a stack page**: only if it
  does not get as far as to ask for one.
* `fork_fails_cleanly_iff`: **when a failed fork leaves everything as it was**: unless the struct it
  takes belongs to the page table of its caller.
-/

namespace Zeos

open LinkHeap ForLoop Execution

variable {M : Machine} {tr : KTrace} {k k' : Kernel} {a : AState} {c : Slot} {rest : List Node} {b : ℕ} {m : Mm}
  {v w fn arg : Word}

/-! ### createthread -/

/-- There is no page left for a user stack: no heap page without a frame in the caller's page table,
or no frame that `alloc_frame` would find. -/
def NoStackPage (k : Kernel) : Prop :=
  (∀ p, heapStart ≤ p → p < totalPages → k.mm.getFrame (getPT k k.current) p ≠ 0) ∨
  ∀ f, IsEven f → k.mm.physMem f ≠ frameFree

/-- The call came back with an error, and changed nothing. -/
structure CleanFailure (k : Kernel) (v : Word) (k' : Kernel) : Prop where
  error : v.toInt < 0
  ready : members k' .readyqueue = members k .readyqueue
  free : ∀ x, x ∈ members k' .freequeue ↔ x ∈ members k .freequeue
  phys : k'.mm.physMem = k.mm.physMem
  table : k'.mm.pagusrTable (getPT k k.current) = k.mm.pagusrTable (getPT k k.current)
  ram : k'.mm.ram = k.mm.ram

def FailsCleanly (k : Kernel) (r : Except Fault (Word × Kernel)) : Prop :=
  ∃ v k', r = .ok (v, k') ∧ CleanFailure k v k'

/-- The user stack of task `c` is on a heap page that was not mapped before, on a frame that is
mapped nowhere else. -/
def OwnStack (k k' : Kernel) (c : Slot) : Prop :=
  ∃ p f, heapStart ≤ p ∧ p < totalPages ∧ (k'.task c).userEsp.toNat / pageSize = p ∧
    (k.mm.pagusrTable (getPT k' c) p).present = false ∧ k'.mm.pagusrTable (getPT k' c) p = userPte f ∧
    f < totalPages ∧ ∀ s q, (s, q) ≠ (getPT k' c, p) → (k'.mm.pagusrTable s q).present = true →
      (k'.mm.pagusrTable s q).pbaseAddr ≠ f

/-- Every thread that the call made ready has its own stack. -/
def StacksOwned (k : Kernel) (r : Except Fault (Word × Kernel)) : Prop :=
  ∀ v k', r = .ok (v, k') → ∀ c, ¬ Live k c → Live k' c → OwnStack k k' c

theorem WF.noStackPage_iff (hW : WF k a) : NoStackPage k ↔
    (∀ p, heapStart ≤ p → p < totalPages → (a.table a.tab p).pbaseAddr ≠ 0) ∨
      ∀ f, IsEven f → a.phys f ≠ frameFree := by
  have hT : Zeos.getPT k k.current = a.tab := hW.getPT_current
  simp only [NoStackPage, hT, Mm.getFrame, hW.table, hW.phys]

/-- The stack page of a new thread. -/
structure StackPage (k' : Kernel) (a : AState) (c : Slot) (rest : List Node) (p f : ℕ) : Prop extends Fresh a p f where
  queue : members k' .freequeue = rest
  esp : (k'.task c).userEsp = wordAddr (BitVec.ofNat 32 (p * pageSize)) 1021
  dir : (k'.task c).dirPagesBaseAddr = a.tab
  dirs : k'.mm.dirPages = id
  table : ∀ s q, k'.mm.pagusrTable s q = if s = a.tab ∧ q = p then userPte f else a.table s q

/-- **What `sys_createthread` comes back with.** -/
theorem sysCreatethread_cases (hW : WF k a) (h : sysCreatethread k w fn arg = .ok (v, k')) :
    (a.queue .freequeue = [] ∧ v = -enomem ∧ k' = k) ∨
    ∃ c rest, a.queue .freequeue = .task c :: rest ∧ v = 0 ∧ (NoStackPage k ∨ ∃ p f, StackPage k' a c rest p f) := by
  rcases free_cases hW with ⟨hq, hE⟩ | ⟨c, rest, hq, hE⟩
  · rw [sysCreatethread, if_pos hE] at h
    cases h
    exact .inl ⟨hq, rfl, rfl⟩
  obtain ⟨k₂, hC, hcall⟩ := sysCreatethread_eq hW hq hE w fn arg
  have hne := free_ne hW hq
  have hPT : getPT k₂ k₂.current = a.tab := hC.getPT_current hW hne
  obtain ⟨stack, m, hA, hm⟩ := allocK_cases k₂
  rw [hPT, hC.mm] at hm
  rw [hcall, hA] at h
  obtain ⟨m', hpush, h⟩ := bind_ok.1 h
  obtain ⟨h₂, h2, hQ⟩ := hC.queue hne Heads.ready
  obtain ⟨h₂', h2', h⟩ := bind_ok.1 h
  cases h2.symm.trans h2'
  cases h
  -- the words on the new stack are in frames, not in page tables
  have hsame := pushArgs_same hpush
  refine .inr ⟨c, rest, hq, rfl, ?_⟩
  rw [hW.noStackPage_iff]
  have hget : ∀ p, k.mm.getFrame a.tab p = (a.table a.tab p).pbaseAddr := fun p => by rw [Mm.getFrame, hW.table]
  cases hm with
  -- no page, no frame, or both found
  | noPage hn => exact .inl (.inl fun p h1 h2 => hget p ▸ hn p h1 h2)
  | noFrame hn => exact .inl (.inr fun f hf => hW.phys ▸ hn f hf)
  | page p f h1 h2 h3 h4 he hf =>
    refine .inr ⟨p, f, ⟨h1, h2, hget p ▸ h3, fun q hq hqp => hget q ▸ h4 q hq hqp, he, hW.phys ▸ hf⟩, ?_, ?_, ?_, ?_, ?_⟩
    · exact (hQ.members_eq Heads.free).trans (by simp)
    · simp [threadTask, Kernel.setTask, Kernel.setLinks]
    · simp [threadTask, Kernel.setTask, Kernel.setLinks, Kernel.setMm, hC.dir]
    · exact hsame.dirs.trans hW.dirs
    · intro s q
      have ht : ((threadTask ((k₂.setMm ((k.mm.setPhys f frameUsed).setSsPag a.tab p f)).setMm m') c w
          (wordAddr (BitVec.ofNat 32 (p * pageSize)) 1021)).setLinks h₂).mm.pagusrTable =
          ((k.mm.setPhys f frameUsed).setSsPag a.tab p f).pagusrTable := hsame.table
      rw [ht, setSsPag_eq, setPte_table, setPhys_table, hW.table]

theorem StackPage.getPT {p f : ℕ} (hS : StackPage k' a c rest p f) : Zeos.getPT k' c = a.tab := by
  rw [Zeos.getPT, hS.dirs, hS.dir]
  rfl

theorem StackPage.own {p f : ℕ} (hS : StackPage k' a c rest p f) (hW : WF k a) (hO : Owned a.phys a.table) :
    OwnStack k k' c := by
  have hp : pagLogInitData ≤ p := le_trans (by decide) hS.heap
  have hT := hS.getPT
  refine ⟨p, f, hS.heap, hS.bound, ?_, ?_, ?_, hS.even.2.1, fun s q hne hpres => ?_⟩
  · rw [hS.esp]
    exact wordAddr_page hS.bound (by decide)
  · rw [hT, hW.table, ← Bool.not_eq_true, hO.present_iff hp]
    exact fun h => h hS.absent
  · rw [hT, hS.table, if_pos ⟨rfl, rfl⟩]
  · rw [hT] at hne
    have hsq : ¬ (s = a.tab ∧ q = p) := fun h => hne (Prod.ext h.1 h.2)
    rw [hS.table, if_neg hsq] at hpres ⊢
    exact hO.not_present_free hS.even hS.free hpres

/-- No free struct: the call does nothing. -/
theorem sysCreatethread_none (hW : WF k a) (hq : a.queue .freequeue = []) :
    sysCreatethread k w fn arg = .ok (-enomem, k) := by
  rcases free_cases hW with ⟨-, hE⟩ | ⟨c, rest, hq', -⟩
  · rw [sysCreatethread, if_pos hE]
  · rw [hq] at hq'
    cases hq'

/-- **createthread without a stack page, exactly.** A `sys_createthread` from any reachable state fails
cleanly when it finds no stack page, and makes no thread ready that has not its own, if and only if
then there is no free struct either. -/
theorem thread_fails_cleanly_iff {k₁ : Kernel} {u : Word} (hr : KRun M tr k) (he : enterCall k u = .ok k₁) :
    ((NoStackPage k₁ → FailsCleanly k₁ (sysCreatethread k₁ w fn arg)) ∧
      StacksOwned k₁ (sysCreatethread k₁ w fn arg)) ↔ (NoStackPage k₁ → members k₁ .freequeue = []) := by
  obtain ⟨a, hW₀, hO, -⟩ := run_owned hr
  have hW : WF k₁ a := by
    rcases enterCall_cases hW₀ u with ⟨e, he', -⟩ | ⟨k₂, he', hW, -⟩
    · cases he.symm.trans he'
    · cases he.symm.trans he'
      exact hW
  rw [hW.members_free]
  constructor
  · rintro ⟨hclean, -⟩ hno
    obtain ⟨v, k', h, hF⟩ := hclean hno
    rcases sysCreatethread_cases hW h with ⟨hq, -⟩ | ⟨c, rest, -, rfl, -⟩
    · exact hq
    · exact absurd hF.error (by decide)
  · intro hq
    refine ⟨fun hno => ?_, fun v k' h c hc hc' => ?_⟩
    · exact ⟨-enomem, k₁, sysCreatethread_none hW (hq hno), by decide, rfl, fun _ => Iff.rfl, rfl, rfl, rfl⟩
    · rcases sysCreatethread_cases hW h with ⟨-, -, rfl⟩ | ⟨c', rest, hq', -, hno | ⟨p, f, hS⟩⟩
      · exact absurd hc' hc
      · rw [hq hno] at hq'
        cases hq'
      · have hcc : c = c' := by
          simp only [Live, hW.members_free, hq', hS.queue, not_not, List.mem_cons] at hc hc'
          simpa using hc.resolve_right hc'
        rw [hcc]
        exact hS.own hW hO

/-! ### fork -/

/-- The call left memory, queues and PIDs as they were; `freequeue` may have turned. -/
structure ForkUndone (k k' : Kernel) : Prop where
  phys : k'.mm.physMem = k.mm.physMem
  ready : members k' .readyqueue = members k .readyqueue
  lastPid : k'.globalPID = k.globalPID
  table : ∀ p, k'.mm.pagusrTable (getPT k k.current) p = k.mm.pagusrTable (getPT k k.current) p
  free : ∀ x, x ∈ members k' .freequeue ↔ x ∈ members k .freequeue

/-- If the free struct to be taken is the one that the caller's page table belongs to, the data pages
that a fork takes before the frames run out are not present there. -/
def RollbackFree (k : Kernel) : Prop :=
  (members k .freequeue).head? = some (.task (getPT k k.current)) →
    Unmapped k.mm.pagusrTable (getPT k k.current) pagLogInitData (pagLogInitData + freeFrames k.mm.physMem)

/-- A fork that comes back with `-EAGAIN` has had a free struct. -/
theorem fork_eagain_free {o : Out} {u : Word} (hW : WF k a) (hs : Step k (.sysenter .fork u b) o k')
    (ho : o.ret = some (-eagain)) : a.queue .freequeue ≠ [] := by
  intro hq
  obtain ⟨k₁, -, -, hW₁, h2⟩ := hs.called hW
  rcases free_cases hW₁ with ⟨-, hE⟩ | ⟨c, rest, hq', -⟩
  · rw [systemCall, sysFork, if_pos hE] at h2
    cases h2
    have hret : (some (-enomem) : Option Word) = some (-eagain) := ho
    exact absurd hret (by decide)
  · rw [hq] at hq'
    cases hq'

/-- **A fork that ran out of frames, exactly.** It leaves the frame map, `readyqueue`, the last PID, its
caller's page table and the set of free structs as they were if and only if the page table that
it gives back is not its caller's own, with the data pages there still in use. -/
theorem fork_fails_cleanly_iff {o : Out} {u : Word} (hr : KRun M tr k) (hs : Step k (.sysenter .fork u b) o k')
    (ho : o.ret = some (-eagain)) (hf : freeFrames k.mm.physMem < numPagData) :
    ForkUndone k k' ↔ RollbackFree k := by
  obtain ⟨a, hW, hO, -⟩ := run_owned hr
  obtain ⟨a', h, hW'⟩ := hs.refines hW
  have hT : getPT k k.current = a.tab := hW.getPT_current
  have hne := fork_eagain_free hW hs ho
  rw [RollbackFree, hT, hW.members_free, hW.table, hW.phys]
  rw [hW.phys] at hf
  generalize o.switch = sw at h
  cases h with
  | noop he => cases he
  | forkNone hq => exact absurd hq hne
  | forkOk _ hf' => omega
  | @forkFail _ _ c rest hq =>
    have hready : members k' .readyqueue = members k .readyqueue := by
      rw [hW'.members_ready, hW.members_ready]
      simp [AState.forkFail, AState.put]
    have hfree : ∀ x, x ∈ members k' .freequeue ↔ x ∈ members k .freequeue := by
      intro x
      rw [hW'.members_free, hW.members_free, hq]
      exact (List.perm_append_singleton _ _).mem_iff
    have htable : (∀ p, k'.mm.pagusrTable a.tab p = k.mm.pagusrTable a.tab p) ↔
        ∀ p, clearPages a.table c pagLogInitData (pagLogInitData + freeFrames a.phys) a.tab p = a.table a.tab p := by
      rw [hW'.table, hW.table]
      rfl
    -- all but the page table is as it was anyway
    have hundone : ForkUndone k k' ↔ ∀ p, k'.mm.pagusrTable a.tab p = k.mm.pagusrTable a.tab p := by
      rw [← hT]
      exact ⟨fun h => h.table, fun h => ⟨hW'.phys.trans hW.phys.symm, hready,
        hW'.lastPid.trans hW.lastPid.symm, h, hfree⟩⟩
    rw [hundone, htable, hq, List.head?_cons, Option.some.injEq, Node.task.injEq]
    by_cases hc : c = a.tab
    -- the rollback clears the caller's own pages, those from the first data page on
    · subst hc
      rw [hO.clearPages_iff le_rfl]
      exact ⟨fun h _ => h, fun h => h rfl⟩
    · exact iff_of_true (fun p => if_neg fun h => hc h.1.symm) fun h => absurd h hc

/-- A fork with a free struct and too few frames. -/
theorem sysFork_fail (hW : WF k a) (hq : a.queue .freequeue = .task c :: rest)
    (hf : freeFrames a.phys < numPagData) : ∃ k', sysFork k b = .ok (-eagain, k') := by
  rcases free_cases hW with ⟨hq', -⟩ | ⟨c', rest', hq', hE⟩
  · rw [hq] at hq'
    cases hq'
  obtain ⟨k₂, hC, hcall⟩ := sysFork_eq (b := b) hW hq' hE
  have hne := free_ne hW hq'
  obtain ⟨hPT, -⟩ := hC.tables hW hne
  rcases forkData_cases k.mm c' with ⟨fs, m, hl, hfree, -, -⟩ | ⟨fs, m, -, -, -, hD⟩
  · rw [hW.phys] at hfree
    omega
  · obtain ⟨h₂, h2, -⟩ := hC.queue hne Heads.free
    refine ⟨(k₂.setMm (releaseData m c' fs.length)).setLinks h₂, ?_⟩
    rw [hcall, forkPages_fail (by rw [hPT, hC.mm]; exact hD), h2]
    rfl

theorem forkFail_step (hW : WF k a) (hc : a.current ≠ a.idle) (hd : HasData a.table a.tab)
    (hq : a.queue .freequeue = .task c :: rest) (hf : freeFrames a.phys < numPagData) (b : ℕ) :
    ∃ o k', Step k (.sysenter .fork someStack b) o k' ∧ o.ret = some (-eagain) ∧ WF k' (a.forkFail c rest) := by
  obtain ⟨k₁, h1, hW₁⟩ := enterCall_ok hW hd
  obtain ⟨k', h2⟩ := sysFork_fail (b := b) hW₁ hq hf
  have hs : Step k (.sysenter .fork someStack b) { ret := some (-eagain) } k' := by
    refine ⟨fun _ => by rw [hW.current, hW.idle]; exact hc, ?_⟩
    simp only [step, systemCallHandler]
    exact bind_ok.2 ⟨k₁, h1, by rw [systemCall, h2]; rfl⟩
  obtain ⟨a', h, hW'⟩ := hs.refines hW
  cases h with
  | noop he => cases he
  | forkNone hq' => rw [hq] at hq'; cases hq'
  | forkOk _ hf' => omega
  | forkFail hq' =>
    rw [hq] at hq'
    cases hq'
    exact ⟨_, k', hs, rfl, hW'⟩

/-! ### Runs out of memory -/

theorem boot_heapTo (M : Machine) : HeapTo (bootState M) 0 := by
  intro p h1 h2
  rw [boot_tab]
  exact iff_of_true (congrArg Pte.pbaseAddr (bootTable_heap h1 M.layout)) h1

theorem Forked.tab {cs : List Slot} (h : Forked a a' cs) (hc : a.current ∉ cs) : a'.tab = a.tab := by
  rw [AState.tab, h.current, h.dir _ hc]
  rfl

/-- Forks leave the caller's heap as it is. -/
theorem Forked.heapTo {cs : List Slot} (h : Forked a a' cs) (hc : a.current ∉ cs) (hH : HeapTo a 0) :
    HeapTo a' 0 := by
  intro p h1 h2
  refine iff_of_true ?_ h1
  rw [h.tab hc]
  rcases h.heap a.tab p h1 with he | he
  · rw [he]
  · rw [he]
    exact (hH p h1 h2).2 h1

/-- **Allocations from boot on**, until `n` frames are left. -/
theorem drained_run (M : Machine) {n : ℕ} (hn : n ≤ 356) (b : ℕ) : ∃ tr k a, KRun M tr k ∧
    (∀ e ∈ tr.map (·.event), e = .sysenter .alloc someStack b) ∧ WF k a ∧ Ready a 0 ∧ freeFrames a.phys = n ∧
    Drained (bootState M) a := by
  obtain ⟨k, hr, hW⟩ := boot_run M
  have hle := freeFrames_le (bootState M).phys
  have hge := (boot_ready M).frames
  have hR : Ready (bootState M) 0 := ⟨(boot_ready M).user, (boot_ready M).data, Nat.zero_le _⟩
  obtain ⟨tr, k', a, h1, h2, h3, h4, h5, h6⟩ := drain_run b n (freeFrames (bootState M).phys - n) 0 hr hW hR
    (by omega) (boot_heapTo M) (by simp; omega)
  refine ⟨tr, k', a, h1, fun e he => ?_, h3, h4, h5, h6⟩
  rw [h2, List.map_nil, List.append_nil] at he
  exact List.eq_of_mem_replicate he

/-- Task 1 makes thread 2 and ends as a thread does: its struct is free, and thread 2 goes on with the
page table of task 1. -/
theorem handover_run (M : Machine) (b : ℕ) : ∃ tr k a, KRun M tr k ∧
    tr.map (·.event) = [.sysenter .terminatethread (wordAddr (BitVec.ofNat 32 (heapStart * pageSize)) 1021) b,
      .sysenter (.createthread 0 0 0) someStack b] ∧ WF k a ∧ Ready a 355 ∧ a.current = 2 ∧ a.idle = 0 ∧
    a.tab = 1 ∧ a.queue .freequeue = [3, 4, 5, 6, 7, 8, 9].map Node.task ++ [.task 1] ∧ HeapTo a 0 := by
  obtain ⟨t, k₁, a₁, f, hr₁, he, hW₁, hT⟩ := thread_run M b
  obtain ⟨hm, hpres⟩ := stack_mapped hT.tab hT.even hT.heap
  obtain ⟨o₂, k₂, hs₂, hW₂⟩ := terminate_step hW₁ hT.ready.user hm hpres (show 1021 < 1023 by decide) (.inr hT.queue) b
  set a₂ := (a₁.unmap heapStart).leave b
  have hcur : a₂.current = 2 := by
    simp [a₂, AState.leave, AState.dispatch, AState.push, AState.put, AState.unmap, AState.next, hT.queue]
  have htab : a₂.tab = 1 := by
    show a₁.dir a₂.current = 1
    rw [hcur, hT.dir]
  -- the thread's stack page was the only page of the heap
  have htable : ∀ q, a₂.table 1 q = if q = heapStart then {} else a₁.table 1 q := by
    intro q
    show clearPages a₁.table a₁.tab heapStart (heapStart + 1) 1 q = _
    rw [clearPages, hT.tab]
    by_cases hq : q = heapStart
    · rw [if_pos ⟨rfl, by omega, by omega⟩, if_pos hq]
    · rw [if_neg (by omega), if_neg hq]
  refine ⟨_, k₂, a₂, hr₁.step hs₂, by simp [he], hW₂, ⟨?_, ?_, ?_⟩, hcur, hT.idle, htab, ?_, ?_⟩
  · show a₂.current ≠ a₁.idle
    rw [hcur, hT.idle]
    decide
  · intro q h1 h2
    rw [htab, htable, if_neg (by omega)]
    exact hT.tab ▸ hT.ready.data q h1 h2
  · exact le_trans hT.ready.frames (freeFrames_freeAll _ _)
  · simp [a₂, AState.leave, AState.dispatch, AState.push, AState.put, AState.unmap, hT.free, hT.current, bootFree]
  · intro q h1 h2
    rw [htab, htable]
    refine iff_of_true ?_ h1
    split
    · rfl
    · rename_i hq
      rw [hT.heap q h1, if_neg hq]

theorem no_free (h : freeFrames a.phys = 0) (f : ℕ) (hf : IsEven f) : a.phys f ≠ frameFree := by
  intro hfree
  have hle := length_le_freeFrames (List.nodup_singleton f) (by simpa using ⟨hf, hfree⟩)
  rw [h] at hle
  cases hle

/-- A word is not stored when its first byte is not mapped. -/
theorem storeWord_absent {dir : Slot} {addr : Word} {e : Fault} (h : m.translate dir addr = .error e) :
    m.storeWord dir addr w = .error e := by
  have h0 : m.storeByte dir (addr + BitVec.ofNat 32 0) (Mm.byteOf w 0) = .error e := by
    rw [Mm.storeByte, show addr + BitVec.ofNat 32 0 = addr from BitVec.add_zero addr, h]
    rfl
  rw [Mm.storeWord, forRangeM, List.range'_succ, List.foldlM_cons, h0]
  rfl

/-- Without a frame, and with page 0 not mapped, the first word of the new stack is a page fault. -/
theorem sysCreatethread_faults (hW : WF k a) (hq : a.queue .freequeue = .task c :: rest)
    (hf : freeFrames a.phys = 0) (h0 : (a.table a.tab 0).present = false) :
    sysCreatethread k w fn arg = .error (.page 0xFE8) := by
  rcases free_cases hW with ⟨hq', -⟩ | ⟨c', rest', hq', hE⟩
  · rw [hq] at hq'
    cases hq'
  obtain ⟨k₂, hC, hcall⟩ := sysCreatethread_eq hW hq' hE w fn arg
  obtain ⟨stack, m, hA, hm⟩ := allocK_cases k₂
  rw [hC.mm] at hm
  have hcr : k₂.cr3 = a.tab := hC.cr3.trans hW.cr3
  have hstack : stack = -enomem ∧ m = k.mm := by
    cases hm with
    | noPage _ => exact ⟨rfl, rfl⟩
    | noFrame _ => exact ⟨rfl, rfl⟩
    | page p f h1 h2 h3 h4 he hfree => exact absurd (hW.phys ▸ hfree) (no_free hf f he)
  obtain ⟨rfl, rfl⟩ := hstack
  have htr : k.mm.translate a.tab (wordAddr (-enomem) 1021) = .error (.page 0xFE8) := by
    have haddr : wordAddr (-enomem) 1021 = 0xFE8 := by decide
    rw [haddr, Mm.translate, hW.dirs, hW.table]
    exact if_neg fun h => by simpa [h0] using h.2
  have hpush : pushArgs k.mm a.tab (-enomem) fn arg = .error (.page 0xFE8) := by
    rw [pushArgs, storeWord_absent htr]
    rfl
  rw [hcall, hA]
  show (pushArgs k.mm k₂.cr3 (-enomem) fn arg).bind _ = _
  rw [hcr, hpush]
  rfl

/-- All frames are on the heap: `sys_createthread` writes on what `alloc_k` returned, and the kernel
faults. -/
theorem thread_without_stack : ∃ tr k k₁, KRun aMachine tr k ∧
    (∀ e ∈ tr.map (·.event), e = .sysenter .alloc someStack 1000) ∧ k.current ≠ k.idleTask ∧
    enterCall k someStack = .ok k₁ ∧ NoStackPage k₁ ∧ sysCreatethread k₁ 0 0 0 = .error (.page 0xFE8) ∧
    ¬ FailsCleanly k₁ (sysCreatethread k₁ 0 0 0) := by
  obtain ⟨tr, k, a, hr, he, hW, hR, hf, hD⟩ := drained_run aMachine (n := 0) (by decide) 1000
  obtain ⟨k₁, hk₁, hW₁⟩ := enterCall_ok hW hR.data
  have hq : a.queue .freequeue = .task 2 :: bootFree.tail := by
    rw [hD.queue]
    rfl
  have htab : a.tab = 1 := by
    rw [AState.tab, hD.dir, hD.current]
    exact boot_tab aMachine
  have h0 : (a.table a.tab 0).present = false := by
    rw [htab, hD.low 1 0 (by decide)]
    rfl
  have hfault : sysCreatethread k₁ 0 0 0 = .error (.page 0xFE8) := sysCreatethread_faults hW₁ hq hf h0
  refine ⟨tr, k, k₁, hr, he, ?_, hk₁, hW₁.noStackPage_iff.2 (.inr (no_free hf)), hfault, ?_⟩
  · rw [hW.current, hW.idle]
    exact hR.user
  · rintro ⟨v, k', h, -⟩
    rw [hfault] at h
    cases h

/-- The struct whose page table the caller has is the first free one: the failing fork gives back the
caller's own data pages. -/
theorem failed_fork_takes_data : ∃ tr k o k', KRun aMachine tr k ∧
    (∃ n, tr.map (·.event) = List.replicate n (.sysenter .alloc someStack 1000) ++
      (List.replicate 7 (.sysenter .fork someStack 1000) ++
        [.sysenter .terminatethread (wordAddr (BitVec.ofNat 32 (heapStart * pageSize)) 1021) 1000,
          .sysenter (.createthread 0 0 0) someStack 1000])) ∧
    Step k (.sysenter .fork someStack 1000) o k' ∧ o.ret = some (-eagain) ∧
    freeFrames k.mm.physMem = 1 ∧
    (k.mm.pagusrTable (getPT k k.current) pagLogInitData).present = true ∧
    (k'.mm.pagusrTable (getPT k k.current) pagLogInitData).present = false ∧ ¬ ForkUndone k k' := by
  obtain ⟨tr, k, a, hr, he, hW, hR, hc, hi, htab, hq, hH⟩ := handover_run aMachine 1000
  -- seven forks take all structs but that of task 1
  obtain ⟨tr₁, k₁, a₁, hr₁, he₁, hW₁, hR₁, hF, hq₁⟩ := forks_run 1000 215 [3, 4, 5, 6, 7, 8, 9] hr hW hR hq
  have hcur : a.current ∉ ([3, 4, 5, 6, 7, 8, 9] : List Slot) := by
    rw [hc]
    decide
  have htab₁ : a₁.tab = 1 := (hF.tab hcur).trans htab
  have hge := hR₁.frames
  have hle := freeFrames_le a₁.phys
  -- and `alloc` all frames but one
  obtain ⟨tr₂, k₂, a₂, hr₂, he₂, hW₂, hR₂, hf₂, hD⟩ := drain_run 1000 1 (freeFrames a₁.phys - 1) 0 hr₁ hW₁
    ⟨hR₁.user, hR₁.data, Nat.zero_le _⟩ (by omega) (hF.heapTo hcur hH) (by simp; omega)
  have hq₂ : a₂.queue .freequeue = .task 1 :: [] := by rw [hD.queue, hq₁]
  obtain ⟨o, k', hs, ho, hW'⟩ := forkFail_step hW₂ hR₂.user hR₂.data hq₂ (by rw [hf₂]; decide) 1000
  have htab₂ : a₂.tab = 1 := by
    rw [AState.tab, hD.dir, hD.current]
    exact htab₁
  have hT : getPT k₂ k₂.current = 1 := by
    rw [hW₂.current, hW₂.getPT]
    exact htab₂
  have hbefore : (k₂.mm.pagusrTable (getPT k₂ k₂.current) pagLogInitData).present = true := by
    rw [hT, hW₂.table, ← htab₂]
    exact hR₂.data _ le_rfl (by decide)
  have hafter : (k'.mm.pagusrTable (getPT k₂ k₂.current) pagLogInitData).present = false := by
    have hcleared : clearPages a₂.table 1 pagLogInitData (pagLogInitData + 1) 1 pagLogInitData = {} :=
      if_pos ⟨rfl, le_rfl, by decide⟩
    rw [hT, hW'.table, AState.forkFail, hf₂]
    exact congrArg Pte.present hcleared
  refine ⟨tr₂, k₂, o, k', hr₂, ⟨freeFrames a₁.phys - 1, ?_⟩, hs, ho, hW₂.phys ▸ hf₂, hbefore, hafter, fun h => ?_⟩
  · rw [he₂, he₁, he]
    rfl
  · rw [h.table, hbefore] at hafter
    cases hafter

/-- Eight forks take all structs and `alloc` all frames: there is neither a stack page nor a struct, and
`sys_createthread` fails as it should. -/
theorem thread_fails_cleanly_iff_drained : ∃ tr k k₁, KRun aMachine tr k ∧
    (∃ n, tr.map (·.event) = List.replicate n (.sysenter .alloc someStack 1000) ++
      List.replicate 8 (.sysenter .fork someStack 1000)) ∧
    enterCall k someStack = .ok k₁ ∧ NoStackPage k₁ ∧ FailsCleanly k₁ (sysCreatethread k₁ 0 0 0) := by
  obtain ⟨k, hr, hW⟩ := boot_run aMachine
  obtain ⟨tr₁, k₁, a₁, hr₁, he₁, hW₁, hR₁, hF, hq₁⟩ := forks_run 1000 196 [2, 3, 4, 5, 6, 7, 8, 9] hr hW
    (boot_ready aMachine) (show (bootState aMachine).queue .freequeue = bootFree ++ [] from rfl)
  have hcur : (bootState aMachine).current ∉ ([2, 3, 4, 5, 6, 7, 8, 9] : List Slot) := by decide
  have hle := freeFrames_le a₁.phys
  obtain ⟨tr₂, k₂, a₂, hr₂, he₂, hW₂, hR₂, hf₂, hD⟩ := drain_run 1000 0 (freeFrames a₁.phys) 0 hr₁ hW₁
    ⟨hR₁.user, hR₁.data, Nat.zero_le _⟩ (by omega) (hF.heapTo hcur (boot_heapTo aMachine)) (by simp; omega)
  obtain ⟨k₃, hk₃, hW₃⟩ := enterCall_ok hW₂ hR₂.data
  have hnone : NoStackPage k₃ := hW₃.noStackPage_iff.2 (.inr (no_free hf₂))
  have hfree : members k₃ .freequeue = [] := by rw [hW₃.members_free, hD.queue, hq₁]
  have hclean : (NoStackPage k₃ → FailsCleanly k₃ (sysCreatethread k₃ 0 0 0)) ∧
      StacksOwned k₃ (sysCreatethread k₃ 0 0 0) := (thread_fails_cleanly_iff hr₂ hk₃).2 fun _ => hfree
  refine ⟨tr₂, k₂, k₃, hr₂, ⟨freeFrames a₁.phys, ?_⟩, hk₃, hnone, hclean.1 hnone⟩
  rw [he₂, he₁, List.map_nil, List.append_nil]
  rfl

/-- One frame is left: the fork fails, and by the rollback for the caller or not. -/
theorem fork_fails_cleanly_iff_drained : ∃ tr k o k', KRun aMachine tr k ∧
    Step k (.sysenter .fork someStack 1000) o k' ∧ o.ret = some (-eagain) ∧
    freeFrames k.mm.physMem < numPagData ∧ (ForkUndone k k' ↔ RollbackFree k) := by
  obtain ⟨tr, k, a, hr, -, hW, hR, hf, hD⟩ := drained_run aMachine (n := 1) (by decide) 1000
  have hq : a.queue .freequeue = .task 2 :: bootFree.tail := by
    rw [hD.queue]
    rfl
  have hlt : freeFrames a.phys < numPagData := by rw [hf]; decide
  obtain ⟨o, k', hs, ho, -⟩ := forkFail_step hW hR.user hR.data hq hlt 1000
  rw [← hW.phys] at hlt
  exact ⟨tr, k, o, k', hr, hs, ho, hlt, fork_fails_cleanly_iff hr hs ho hlt⟩

end Zeos
