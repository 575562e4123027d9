import Zeos.Proof.Parent

/-!
# Where frames go

Every frame that the kernel has handed out is mapped once (`frame_ownership`), but not
by a live task: a fork overwrites pages that are in use, and the last task of a process
leaves pages behind.

* `frame_ownership`: **each frame has one owner**, in every reachable state.
* `leak_exact`: **no frame is lost along a run exactly if each step meets `NoLeak`**.
* `exit_leaks`: a run of one allocation and one exit that loses a frame.
-/

namespace Zeos

open Execution

variable {k k' : Kernel} {a a' : AState} {e : Event} {M : Machine} {tr : KTrace} {o : Out}
  {s c : Slot} {p f lo hi : ℕ} {b : ℕ} {rest : List Node} {fs : List ℕ}

/-- **Frame ownership.** In every reachable state a frame at a data or heap page of any page
table is one of the user frames, marked as used, no code page has it, and no other data or heap
page has it. So what `alloc_frame` hands out is mapped nowhere. -/
theorem frame_ownership (hr : KRun M tr k) :
    (∀ s p f, Maps k.mm.pagusrTable s p f →
      numPagKernel ≤ f ∧ f < totalPages ∧ k.mm.physMem f = frameUsed ∧
      (∀ s' q, pagLogInitCode ≤ q → q < pagLogInitData → (k.mm.pagusrTable s' q).present = true →
        (k.mm.pagusrTable s' q).pbaseAddr ≠ f) ∧
      ∀ s' p', Maps k.mm.pagusrTable s' p' f → s' = s ∧ p' = p) ∧
    ∀ f m, k.mm.allocFrame = (some f, m) →
      ∀ s p, (k.mm.pagusrTable s p).present = true → (k.mm.pagusrTable s p).pbaseAddr ≠ f := by
  obtain ⟨a, hW, hO, -⟩ := run_owned hr
  rw [← hW.phys, ← hW.table] at hO
  refine ⟨fun s p f hm => ?_, fun f m ha s p hp => ?_⟩
  · obtain ⟨hF, hu, hcode⟩ := hO.frame s p f hm
    refine ⟨Nat.le_of_lt hF.1, hF.2, hu, fun s' q h1 h2 h3 => ?_, fun s' p' hm' => hO.inj s' p' s p f hm' hm⟩
    rw [hO.code s' q h1 h2 h3]
    exact Ne.symm (hcode _ (by simp at h1 h2 ⊢; omega))
  · rcases allocFrame_cases k.mm with ⟨g, hg, he, hfree⟩ | ⟨hg, -⟩
    · rw [hg] at ha
      obtain ⟨rfl, -⟩ : g = f ∧ _ := by simpa using ha
      exact hO.not_present_free he hfree hp
    · rw [hg] at ha; cases ha

/-- The page that the first `alloc` gives. -/
theorem frame_ownership_alloc : ∃ t k f, KRun aMachine [t] k ∧ t.event = .sysenter .alloc someStack 1000 ∧
    Maps k.mm.pagusrTable 1 heapStart f ∧ k.mm.physMem f = frameUsed := by
  obtain ⟨t, k, f, hr, he, hW, hF, -⟩ := alloc_run aMachine 1000
  have hm : Maps k.mm.pagusrTable 1 heapStart f := by
    rw [hW.table]
    exact (setPage_maps hF.even.2.1 (by decide)).2 (.inl ⟨(boot_tab aMachine).symm, rfl, rfl⟩)
  exact ⟨t, k, f, hr, he, hm, ((frame_ownership hr).1 1 heapStart f hm).2.2.1⟩

/-! ### Leaks -/

/-- Frame `f` is mapped by the page table of a live task. -/
def Held (k : Kernel) (f : ℕ) : Prop :=
  ∃ s p, Live k s ∧ (k.mm.pagusrTable (getPT k s) p).present = true ∧
    (k.mm.pagusrTable (getPT k s) p).pbaseAddr = f

/-- Every user frame in use, other than those of the code pages, is mapped by a live task. -/
def LeakFree (k : Kernel) : Prop :=
  ∀ f, numPagKernel ≤ f → (∀ c < numPagCode, f ≠ codeFrame c) → k.mm.physMem f = frameUsed → Held k f

/-- A live task other than the current one has its page table. -/
def SharesTable (k : Kernel) : Prop :=
  ∃ s, Live k s ∧ s ≠ k.current ∧ getPT k s = getPT k k.current

/-- The conditions under which a step loses no frame.

An exit releases the data pages only: another task has to hold the table, or there must be
no heap page in it. The end of a thread releases the page of its stack only. A fork must
find the data pages that it fills, and the window that it empties, not present. -/
def NoLeak (k : Kernel) : Event → Prop
  | .sysenter .exit _ _ =>
    SharesTable k ∨ ∀ p, heapStart ≤ p → (k.mm.pagusrTable (getPT k k.current) p).present = false
  | .sysenter .terminatethread u _ =>
    u.toNat / pageSize < heapStart ∨ totalPages ≤ u.toNat / pageSize ∨
      k.mm.getFrame (getPT k k.current) (u.toNat / pageSize) = 0 ∨ SharesTable k ∨
      ∀ p, pagLogInitData ≤ p → p ≠ u.toNat / pageSize →
        (k.mm.pagusrTable (getPT k k.current) p).present = false
  | .sysenter .fork _ _ => ∀ c, (members k .freequeue).head? = some (.task c) →
    Unmapped k.mm.pagusrTable c pagLogInitData
      (pagLogInitData + min numPagData (freeFrames k.mm.physMem)) ∧
    (numPagData ≤ freeFrames k.mm.physMem →
      Unmapped k.mm.pagusrTable (getPT k k.current) heapStart (heapStart + numPagData))
  | _ => True

namespace AState

/-- Frame `f` is mapped at a data or heap page of a live task. -/
def Held (a : AState) (f : ℕ) : Prop := ∃ s p, a.Live s ∧ Maps a.table (a.dir s) p f

def LeakFree (a : AState) : Prop :=
  ∀ f, numPagKernel ≤ f → (∀ c < numPagCode, f ≠ codeFrame c) → a.phys f = frameUsed → a.Held f

end AState

theorem WF.leakFree_iff (hW : WF k a) (hO : Owned a.phys a.table) : LeakFree k ↔ a.LeakFree := by
  refine forall_congr' fun f => imp_congr_right fun hf => imp_congr_right fun hcode => ?_
  rw [hW.phys]
  refine imp_congr_right fun _ => exists_congr fun s => exists_congr fun p => ?_
  rw [hW.live_iff, hW.getPT, hW.table]
  refine and_congr_right fun _ => ⟨fun ⟨h1, h2⟩ => ⟨?_, h1, h2⟩, fun h => h.2⟩
  by_contra hp
  by_cases hk : p < numPagKernel
  · have := hO.kernel (a.dir s) p hk; omega
  · have hlo : pagLogInitCode ≤ p := by simp at hk ⊢; omega
    refine hcode _ ?_ (h2 ▸ hO.code (a.dir s) p hlo (by omega) h1)
    simp at hlo hp ⊢; omega

/-- The frame of a page that is mapped no more, and not given back, is lost. -/
theorem AState.LeakFree.held (h : a'.LeakFree) (hO : Owned a.phys a.table) (hm : Maps a.table s p f)
    (hu : a'.phys f = frameUsed) : a'.Held f := by
  obtain ⟨h1, -, h2⟩ := hO.frame s p f hm
  exact h f (Nat.le_of_lt h1.1) h2 hu

/-- More live tasks and the same memory. -/
theorem AState.LeakFree.mono (h : a.LeakFree) (hphys : a'.phys = a.phys) (htab : a'.table = a.table)
    (hlive : ∀ s, a.Live s → a'.Live s ∧ a'.dir s = a.dir s) : a'.LeakFree := by
  intro f h1 h2 h3
  obtain ⟨s, p, hs, hm⟩ := h f h1 h2 (hphys ▸ h3)
  exact ⟨s, p, (hlive s hs).1, by rw [htab, (hlive s hs).2]; exact hm⟩

/-- **Pages of the current table given back**, while tasks of that table may end. -/
theorem AState.LeakFree.clear_iff (h : a.LeakFree) (hO : Owned a.phys a.table) (hlo : pagLogInitData ≤ lo)
    (hphys : a'.phys = freeAll a.phys fun g => ∃ q, lo ≤ q ∧ q < hi ∧ (a.table a.tab q).pbaseAddr = g)
    (htab : a'.table = clearPages a.table a.tab lo hi) (hdir : a'.dir = a.dir)
    (hlive : ∀ s, a.Live s → a.dir s ≠ a.tab → a'.Live s) :
    a'.LeakFree ↔ (∃ s, a'.Live s ∧ a.dir s = a.tab) ∨
      ∀ p, pagLogInitData ≤ p → ¬ (lo ≤ p ∧ p < hi) → (a.table a.tab p).present = false := by
  constructor
  · intro h'
    by_contra hn
    push Not at hn
    obtain ⟨hno, p, hp, hout, hpres⟩ := hn
    have hm : Maps a.table a.tab p (a.table a.tab p).pbaseAddr := ⟨hp, by simpa using hpres, rfl⟩
    -- its frame is not given back: the pages given back have other frames
    have hu : a'.phys (a.table a.tab p).pbaseAddr = frameUsed := by
      rw [hphys, freeAll, if_neg]
      · exact (hO.frame _ _ _ hm).2.1
      · rintro ⟨⟨q, h1, h2, h3⟩, hF⟩
        have hq := hO.maps_of_ne (s := a.tab) (p := q) (by omega) (by rw [h3]; have := hF.1; omega)
        rw [h3] at hq
        obtain ⟨-, rfl⟩ := hO.inj _ _ _ _ _ hq hm
        exact absurd (hout h1) (by omega)
    obtain ⟨s, q, hs, hq⟩ := h'.held hO hm hu
    rw [htab, hdir] at hq
    exact hno s hs (hO.inj _ _ _ _ _ (clearPages_maps.1 hq).1 hm).1
  · intro hC f h1 h2 hu
    rw [hphys, freeAll] at hu
    split at hu
    · exact absurd hu.symm frameUsed_ne_free
    rename_i hkeep
    obtain ⟨s, p, hs, hm⟩ := h f h1 h2 hu
    have hcl : ¬ (a.dir s = a.tab ∧ lo ≤ p ∧ p < hi) := by
      rintro ⟨he, hp1, hp2⟩
      rw [he] at hm
      exact hkeep ⟨⟨p, hp1, hp2, hm.2.2⟩, (hO.frame _ _ _ hm).1⟩
    have hm' : Maps a'.table (a.dir s) p f := by rw [htab]; exact clearPages_maps.2 ⟨hm, hcl⟩
    by_cases he : a.dir s = a.tab
    · rcases hC with ⟨s', hs', hd'⟩ | hC
      · exact ⟨s', p, hs', by rw [hdir, hd', ← he]; exact hm'⟩
      · have := hC p hm.1 fun h => hcl ⟨he, h⟩
        rw [← he, hm.2.1] at this; cases this
    · exact ⟨s, p, hlive s hs he, by rw [hdir]; exact hm'⟩

theorem AState.LeakFree.forkFail_iff (h : a.LeakFree) (hO : Owned a.phys a.table)
    (hq : a.queue .freequeue = .task c :: rest) :
    (a.forkFail c rest).LeakFree ↔
      Unmapped a.table c pagLogInitData (pagLogInitData + freeFrames a.phys) := by
  have hdir : ∀ s, a.Live s → (a.forkFail c rest).dir s = a.dir s := by
    intro s hs
    have : s ≠ c := by rintro rfl; exact not_live hq hs
    simp [AState.forkFail, this]
  constructor
  · intro h' p h1 h2
    by_contra hp
    have hm : Maps a.table c p (a.table c p).pbaseAddr := ⟨h1, by simpa using hp, rfl⟩
    obtain ⟨s, q, hs, hq'⟩ := h'.held hO hm (hO.frame _ _ _ hm).2.1
    rw [hdir s ((forkFail_live hq).1 hs)] at hq'
    obtain ⟨hq', hn⟩ := clearPages_maps.1 hq'
    obtain ⟨h3, rfl⟩ := hO.inj _ _ _ _ _ hq' hm
    exact hn ⟨h3, h1, h2⟩
  · intro hC
    refine h.mono rfl ?_ fun s hs => ⟨(forkFail_live hq).2 hs, hdir s hs⟩
    funext s p
    by_cases hs : s = c
    · exact hs ▸ (hO.clearPages_iff le_rfl).2 hC p
    · exact if_neg fun h => hs h.1

theorem AState.LeakFree.forkOk_iff (h : a.LeakFree) (hO : Owned a.phys a.table)
    (hnd : (a.queue .freequeue).Nodup) (hq : a.queue .freequeue = .task c :: rest)
    (hl : fs.length = numPagData) (hfs : ∀ f ∈ fs, IsEven f ∧ a.phys f = frameFree) :
    (a.forkOk c rest b fs).LeakFree ↔ Unmapped a.table c pagLogInitData heapStart ∧
      Unmapped a.table a.tab heapStart (heapStart + numPagData) := by
  have hmaps : ∀ s p f, Maps (a.forkOk c rest b fs).table s p f ↔ _ := fun s p f =>
    forkTable_maps hl fun g hg => (hfs g hg).1
  have huse : ∀ f, (a.forkOk c rest b fs).phys f = if f ∈ fs then frameUsed else a.phys f := fun f => rfl
  have hget : ∀ p, pagLogInitData ≤ p → p < heapStart → fs.getD (p - pagLogInitData) 0 ∈ fs := by
    intro p h1 h2
    rw [List.getD_eq_getElem _ _ (by rw [hl]; simp at h1 h2 ⊢; omega)]
    exact List.getElem_mem _
  constructor
  · intro h'
    -- a frame whose page is overwritten or emptied is mapped nowhere else, and is not free
    have hlost : ∀ s p, pagLogInitData ≤ p → (s = c ∧ p < heapStart) ∨
        (s = a.tab ∧ heapStart ≤ p ∧ p < heapStart + numPagData) → (a.table s p).present = false := by
      intro s p h1 h2
      by_contra hp
      have hm : Maps a.table s p (a.table s p).pbaseAddr := ⟨h1, by simpa using hp, rfl⟩
      have hused := (hO.frame _ _ _ hm).2.1
      have hnew : (a.table s p).pbaseAddr ∉ fs := fun hin => by
        rw [(hfs _ hin).2] at hused; exact frameUsed_ne_free hused.symm
      obtain ⟨s', q, -, hq'⟩ := h'.held hO hm (by rw [huse, if_neg hnew]; exact hused)
      rcases (hmaps _ _ _).1 hq' with ⟨-, h3, h4, h5⟩ | ⟨h3, h4, h5⟩
      · exact hnew (h5 ▸ hget q h3 h4)
      · obtain ⟨h6, rfl⟩ := hO.inj _ _ _ _ _ h3 hm
        rw [h6] at h4 h5
        exact h2.elim h5 h4
    exact ⟨fun p h1 h2 => hlost c p h1 (.inl ⟨rfl, h2⟩),
      fun p h1 h2 => hlost a.tab p (by simp at h1 ⊢; omega) (.inr ⟨rfl, h1, h2⟩)⟩
  · rintro ⟨hC, hT⟩ f h1 h2 hu
    rw [huse] at hu
    by_cases hin : f ∈ fs
    · obtain ⟨i, hi, rfl⟩ := List.getElem_of_mem hin
      refine ⟨c, pagLogInitData + i, (forkOk_live hnd hq).2 (.inr rfl), ?_⟩
      rw [forkOk_dir, if_pos rfl, hmaps]
      refine .inl ⟨rfl, by omega, by rw [hl] at hi; simp at hi ⊢; omega, ?_⟩
      rw [Nat.add_sub_cancel_left, List.getD_eq_getElem _ _ hi]
    · rw [if_neg hin] at hu
      obtain ⟨s, p, hs, hm⟩ := h f h1 h2 hu
      have hsc : s ≠ c := by rintro rfl; exact not_live hq hs
      refine ⟨s, p, (forkOk_live hnd hq).2 (.inl hs), ?_⟩
      rw [forkOk_dir, if_neg hsc, hmaps]
      refine .inr ⟨hm, ?_, ?_⟩
      · rintro ⟨h3, h4, h5⟩
        have := hT p h4 h5
        rw [← h3, hm.2.1] at this; cases this
      · rintro ⟨h3, h4⟩
        have := hC p hm.1 h4
        rw [← h3, hm.2.1] at this; cases this

theorem AState.LeakFree.alloc (h : a.LeakFree) (hcur : a.Live a.current)
    (hA : a.Alloc a') : a'.LeakFree := by
  cases hA with
  | noPage _ => exact h
  | noFrame _ => exact h
  | page p g hp _ hz _ he hf =>
    have hp' : pagLogInitData ≤ p := by simp at hp ⊢; omega
    intro f h1 h2 hu
    by_cases hg : f = g
    · exact ⟨a.current, p, hcur, (setPage_maps he.2.1 hp').2 (.inl ⟨rfl, rfl, hg⟩)⟩
    · have hu : a.phys f = frameUsed := by simpa [useAll, hg] using hu
      obtain ⟨s, q, hs, hm⟩ := h f h1 h2 hu
      refine ⟨s, q, hs, (setPage_maps he.2.1 hp').2 (.inr ⟨hm, ?_⟩)⟩
      rintro ⟨h3, rfl⟩
      have := hm.2.2
      rw [h3, hz] at this
      simp at h1; omega

theorem unmap_phys (p : ℕ) : (a.unmap p).phys =
    freeAll a.phys fun g => ∃ q, p ≤ q ∧ q < p + 1 ∧ (a.table a.tab q).pbaseAddr = g := by
  refine congrArg (freeAll a.phys) (funext fun g => propext ⟨fun h => ⟨p, le_rfl, Nat.lt_succ_self p, h⟩, ?_⟩)
  rintro ⟨q, h1, h2, h3⟩
  rw [show p = q by omega]; exact h3

theorem WF.sharesTable_iff (hW : WF k a) :
    SharesTable k ↔ ∃ s, (a.Live s ∧ s ≠ a.current) ∧ a.dir s = a.tab := by
  refine exists_congr fun s => ?_
  rw [hW.live_iff, hW.getPT, hW.getPT, hW.current, and_assoc]; rfl

/-- **A step from a state without leaks leads to one exactly if it meets `NoLeak`.** -/
theorem leak_step (hr : KRun M tr k) (hL : LeakFree k) (hs : Step k e o k') :
    LeakFree k' ↔ NoLeak k e := by
  obtain ⟨a, hW, hO, hC⟩ := run_owned hr
  obtain ⟨a', h, hW'⟩ := hs.refines hW
  rw [hW.leakFree_iff hO] at hL
  have hT : getPT k k.current = a.tab := hW.getPT_current
  have hfr : ∀ T p, k.mm.getFrame T p = (a.table T p).pbaseAddr := fun T p => by rw [Mm.getFrame, hW.table]
  -- a call without a part in memory changes neither side
  rcases h.memory with ⟨he, h⟩ | h
  · have hO' : Owned a'.phys a'.table := by rw [h.phys, h.table]; exact hO
    rw [hW'.leakFree_iff hO']
    refine iff_of_true (hL.mono h.phys h.table fun s hs => ⟨h.live.2 hs, by rw [h.dir]⟩) ?_
    unfold NoLeak
    split <;> trivial
  have hc : a.current ≠ a.idle := Step.user hW hs (by cases h <;> rfl)
  have hO' := h.owned hW hc hC hO
  rw [hW'.leakFree_iff hO']
  cases h with
  | forkNone hq => simp [NoLeak, hW.members_free, hq, hL]
  -- a failed fork may lose what the free slot's table still names
  | @forkFail u b c rest hq hf =>
    rw [hL.forkFail_iff hO hq]
    simp only [NoLeak, hW.members_free, hq, List.head?_cons, Option.some.injEq, Node.task.injEq,
      forall_eq', hW.phys, hW.table, Nat.min_eq_right (Nat.le_of_lt hf), Nat.not_le.2 hf, false_imp_iff,
      and_true]
  | @forkOk u b c rest fs hq hf hl hn hfs =>
    rw [hL.forkOk_iff hO hW.free_nodup hq hl hfs]
    simp only [NoLeak, hW.members_free, hq, List.head?_cons, Option.some.injEq, Node.task.injEq,
      forall_eq', hW.phys, hW.table, Nat.min_eq_left hf, hT, hf, true_imp_iff]
    exact Iff.rfl
  | @exit u b =>
    -- the loop of `exit` over the data pages, as the set of frames it frees
    have hphys : (a.exit b).phys = freeAll a.phys fun g =>
        ∃ q, pagLogInitData ≤ q ∧ q < heapStart ∧ (a.table a.tab q).pbaseAddr = g := by
      refine congrArg (freeAll a.phys) (funext fun g => propext ⟨?_, ?_⟩)
      · rintro ⟨i, h1, h2⟩
        exact ⟨pagLogInitData + i, by omega, by simp at h1 ⊢; omega, h2⟩
      · rintro ⟨q, h1, h2, h3⟩
        refine ⟨q - pagLogInitData, by simp at h1 h2 ⊢; omega, ?_⟩
        rw [Nat.add_sub_cancel' h1]; exact h3
    rw [hL.clear_iff hO le_rfl hphys rfl rfl fun s hs hne => exit_live.2 ⟨hs, fun h => hne (h ▸ rfl)⟩]
    simp only [exit_live, NoLeak, hW.sharesTable_iff, hW.table, hT]
    refine or_congr_right (forall_congr' fun p => ⟨fun h hp => h ?_ ?_, fun h h1 h2 => h ?_⟩)
    · simp at hp ⊢; omega
    · omega
    · omega
  | alloc h => exact iff_of_true (hL.alloc hW.current_live h) trivial
  | deallocBad _ => exact iff_of_true hL trivial
  | @dealloc u b addr hm =>
    refine iff_of_true ?_ trivial
    have hlo : pagLogInitData ≤ addr.toNat / pageSize := by have := hm.1; simp at this ⊢; omega
    exact (hL.clear_iff hO hlo (unmap_phys _) rfl rfl fun s hs _ => hs).2
      (.inl ⟨a.current, hW.current_live, rfl⟩)
  | threadNone _ => exact iff_of_true hL trivial
  | @thread u b w f p c rest a₁ hq hA =>
    refine iff_of_true ((hL.alloc hW.current_live hA).mono rfl rfl fun s hs => ?_) trivial
    have hs' := hA.live.1 hs
    have hsc : s ≠ c := by rintro rfl; exact not_live hq hs'
    exact ⟨(spawn_live (hA.queue.1 ▸ hW.free_nodup) (hA.queue.1 ▸ hq) _ _ _).2 (.inl hs),
      by simp [AState.spawn, hsc]⟩
  | @terminateBad u b hm =>
    refine iff_of_true hL ?_
    simp only [NoLeak, hT, hfr]
    by_contra hn
    push Not at hn
    exact hm ⟨hn.1, hn.2.1, hn.2.2.1⟩
  | @terminate u b hm =>
    have hlo : pagLogInitData ≤ u.toNat / pageSize := by have := hm.1; simp at this ⊢; omega
    have hphys : ((a.unmap (u.toNat / pageSize)).leave b).phys = _ := unmap_phys (u.toNat / pageSize)
    rw [hL.clear_iff hO hlo hphys rfl rfl fun s hs hne => leave_live.2 ⟨hs, fun h => hne (h ▸ rfl)⟩]
    -- the page the call frees is the caller's own, the others of its table are lost with it
    have h1 : ¬ u.toNat / pageSize < heapStart := Nat.not_lt.2 hm.1
    have h2 : ¬ totalPages ≤ u.toNat / pageSize := Nat.not_le.2 hm.2.1
    simp only [NoLeak, hW.sharesTable_iff, hW.table, hT, hfr, hm.2.2, h1, h2, false_or, leave_live]
    refine or_congr_right (forall_congr' fun p => imp_congr_right fun _ => imp_congr_left ?_)
    omega

theorem boot_leakFree (M : Machine) : (bootState M).LeakFree := by
  intro f h1 hcode hu
  have hf : f < codeFrame 28 ∧ f % 2 = 0 := by
    have hu : bootPhys f = frameUsed := hu
    rw [bootPhys, physAfter] at hu
    split at hu
    · rename_i h; exact h.resolve_left (Nat.not_lt.2 h1)
    · exact absurd hu.symm frameUsed_ne_free
  have hc := hcode ((f - numPagKernel) / 2)
  refine ⟨1, pagLogInitData + ((f - numPagKernel) / 2 - numPagCode), by simp [AState.Live, bootState, bootFree], ?_⟩
  rw [show (bootState M).dir 1 = 1 from rfl, show (bootState M).table = bootTable M.layout from rfl,
    bootTable_maps]
  simp only [codeFrame, dataFrame, numPagKernel, numPagCode, numPagData, heapStart, pagLogInitData,
    pagLogInitCode, lUserStart] at *
  refine ⟨trivial, ?_, ?_, ?_⟩ <;> omega

theorem init_leakFree (h : boot M = .ok k) : LeakFree k := by
  obtain ⟨k', h', hW⟩ := boot_ok M
  cases h'.symm.trans h
  exact (hW.leakFree_iff (boot_owned M.layout)).2 (boot_leakFree M)

/-- **Frame leaks, exactly.** In every state of a run every frame in use is mapped by a live
task if and only if each step of the run meets `NoLeak`. -/
theorem leak_exact (hr : KRun M tr k) :
    (∀ t ∈ tr, LeakFree t.after) ↔ ∀ t ∈ tr, NoLeak t.before t.event :=
  hr.exact (P := LeakFree) (C := NoLeak) (fun _ => init_leakFree) leak_step

/-- Each frame is marked as free or as used. -/
def Marked (phys : ℕ → Byte) : Prop := ∀ f, phys f = frameFree ∨ phys f = frameUsed

theorem Marked.useAll {phys : ℕ → Byte} (h : Marked phys) (fs : List ℕ) : Marked (useAll phys fs) := by
  intro f
  unfold Zeos.useAll
  split
  · exact .inr rfl
  · exact h f

theorem Marked.freeAll {phys : ℕ → Byte} (h : Marked phys) (F : ℕ → Prop) : Marked (freeAll phys F) := by
  intro f
  unfold Zeos.freeAll
  split
  · exact .inl rfl
  · exact h f

theorem boot_marked : Marked bootPhys := by
  intro f
  unfold bootPhys physAfter
  split
  · exact .inr rfl
  · exact .inl rfl

theorem AState.Alloc.marked (hA : a.Alloc a') (h : Marked a.phys) : Marked a'.phys := by
  cases hA with
  | page p f => exact h.useAll _
  | _ => exact h

theorem run_marked (hr : KRun M tr k) : Marked k.mm.physMem := by
  have hstep : ∀ {k a e a'}, WF k a → a.current ≠ a.idle → Marked a.phys → MemStep a e a' → Marked a'.phys := by
    intro k a e a' _ _ h hm
    cases hm with
    | forkOk => exact h.useAll _
    | exit => exact h.freeAll _
    | alloc hA => exact hA.marked h
    | dealloc => exact h.freeAll _
    | thread _ hA => exact hA.marked h
    | terminate => exact h.freeAll _
    | _ => exact h
  obtain ⟨a, hW, h⟩ := run_memory (P := fun a => Marked a.phys) boot_marked (fun hs h => hs.phys ▸ h) hstep hr
  rw [hW.phys]; exact h

/-- Without leaks, the frames of the tasks that have all ended are free again. -/
theorem LeakFree.free (hr : KRun M tr k) (hL : LeakFree k) (hf : numPagKernel ≤ f)
    (hcode : ∀ c < numPagCode, f ≠ codeFrame c) (hn : ¬ Held k f) : k.mm.physMem f = frameFree :=
  (run_marked hr f).resolve_right fun h => hn (hL f hf hcode h)

/-- An allocation and an exit: idle is the only live task, and a frame is lost. -/
theorem exit_leaks : ∃ t₁ t₂ k, KRun aMachine [t₂, t₁] k ∧ t₁.event = .sysenter .alloc someStack 1000 ∧
    t₂.event = .sysenter .exit someStack 1000 ∧ (∀ s, Live k s → s = k.idleTask) ∧ ¬ LeakFree k := by
  obtain ⟨t, k, f, hr, he, hW, hF, hR⟩ := alloc_run aMachine 1000
  set a := (bootState aMachine).mapped heapStart f
  obtain ⟨o, k', hs, hW'⟩ := exit_step hW hR.user hR.data
    (show a.queue .readyqueue = [] ∨ a.queue .readyqueue = [.task 0] from .inl rfl) 1000
  have hfree : ∀ s, a.Live s → s = 0 ∨ s = 1 := by
    simp only [AState.Live, a, AState.mapped, bootState, bootFree]; decide
  have hL : LeakFree k := by
    cases hr with
    | step hr₀ hs₀ =>
      cases hr₀ with
      | init h₀ => exact (leak_step (.init h₀) (init_leakFree h₀) hs₀).2 (by subst he; trivial)
  refine ⟨t, _, k', hr.step hs, he, rfl, fun s hl => ?_, fun h => ?_⟩
  · obtain ⟨h1, h2⟩ := exit_live.1 (hW'.live_iff.1 hl)
    rw [hW'.idle]
    exact (hfree s h1).resolve_right h2
  · rcases (leak_step hr hL hs).1 h with h | h
    · obtain ⟨s, ⟨h1, h2⟩, h3⟩ := hW.sharesTable_iff.1 h
      obtain rfl := (hfree s h1).resolve_right h2
      cases (show (0 : Slot) = 1 from h3)
    · have hT : getPT k k.current = a.tab := hW.getPT_current
      have h284 := h heapStart le_rfl
      rw [hT, hW.table, (bootState aMachine).mapped_page heapStart f] at h284
      cases h284

/-- An `alloc` from boot on: the frame in use is in the table of task 1. -/
theorem leak_exact_alloc : ∃ t k, KRun aMachine [t] k ∧ t.event = .sysenter .alloc someStack 1000 ∧
    (∀ t' ∈ [t], NoLeak t'.before t'.event) ∧ ∀ t' ∈ [t], LeakFree t'.after := by
  obtain ⟨t, k, -, hr, he, -⟩ := alloc_run aMachine 1000
  have hno : ∀ t' ∈ [t], NoLeak t'.before t'.event := by
    rw [List.forall_mem_singleton, he]
    trivial
  exact ⟨t, k, hr, he, hno, (leak_exact hr).2 hno⟩

end Zeos
