import Zeos.Proof.Progress

/-!
# fork and the page table of the parent

The copy loop of `sys_fork` takes the pages `NUM_PAG_DATA` above the data pages of the
parent as its window, and empties them behind itself. `alloc_k` hands out these pages.

* `fork_keeps_parent_iff`: **when a fork leaves the caller's page table alone**.
* `fork_clears_heap`: a page of the heap that a fork takes from its caller.
-/

namespace Zeos

open Execution

/-- The pages `lo`, …, `hi - 1` of table `T` are not present. -/
def Unmapped (t : Slot → ℕ → Pte) (T : Slot) (lo hi : ℕ) : Prop :=
  ∀ p, lo ≤ p → p < hi → (t T p).present = false

/-- The pages that a fork in state `k` overwrites or empties in its caller's table are not
present: the window; or, if the free struct to be taken is the one that the table belongs to
and the frames run out, the data pages allocated before they do. -/
def WindowFree (k : Kernel) : Prop :=
  ∀ c, (members k .freequeue).head? = some (.task c) →
    if freeFrames k.mm.physMem < numPagData then
      c = getPT k k.current → Unmapped k.mm.pagusrTable (getPT k k.current) pagLogInitData
        (pagLogInitData + freeFrames k.mm.physMem)
    else
      c ≠ getPT k k.current ∧
        Unmapped k.mm.pagusrTable (getPT k k.current) heapStart (heapStart + numPagData)

variable {k k' : Kernel} {a : AState} {M : Machine} {tr : KTrace} {o : Out} {u : Word} {b : ℕ}
  {t : Slot → ℕ → Pte} {phys : ℕ → Byte} {T c : Slot} {lo hi : ℕ} {fs : List ℕ}

/-- Emptying pages changes nothing exactly if they are not present. -/
theorem Owned.clearPages_iff (hO : Owned phys t) (hlo : pagLogInitData ≤ lo) :
    (∀ p, clearPages t T lo hi T p = t T p) ↔ Unmapped t T lo hi := by
  constructor
  · intro h p h1 h2
    rw [← h p, clearPages, if_pos ⟨rfl, h1, h2⟩]
  · intro h p
    by_cases hp : lo ≤ p ∧ p < hi
    · rw [clearPages, if_pos ⟨rfl, hp⟩, hO.empty T p (by omega) (h p hp.1 hp.2)]
    · exact if_neg fun h' => hp h'.2

/-- In the caller's own table a fork into another one empties the window. -/
theorem forkTable_parent (h : c ≠ T) (p : ℕ) :
    forkTable t T c fs T p = clearPages t T heapStart (heapStart + numPagData) T p := by
  rw [forkTable, clearPages]
  split
  · rfl
  · rw [if_neg fun h' => h h'.1.symm, if_neg fun h' => h h'.1.symm]

/-- A fork into the caller's own table replaces its first data page. -/
theorem Owned.forkTable_own (hO : Owned phys t) (hl : fs.length = numPagData)
    (hfs : ∀ f ∈ fs, IsEven f ∧ phys f = frameFree) :
    forkTable t T T fs T pagLogInitData ≠ t T pagLogInitData := by
  intro h
  have hm : fs.getD 0 0 ∈ fs := by
    rw [List.getD_eq_getElem _ _ (by rw [hl]; decide)]; exact List.getElem_mem _
  have hf : forkTable t T T fs T pagLogInitData = userPte (fs.getD 0 0) := by
    rw [forkTable, if_neg (by simp), if_neg (by simp), if_pos (by simp), Nat.sub_self]
  have hp : (t T pagLogInitData).present = true := by rw [← h, hf]; rfl
  refine hO.not_present_free (hfs _ hm).1 (hfs _ hm).2 hp ?_
  rw [← h, hf, userPte_pbase (hfs _ hm).1.2.1]

/-- **fork and its caller's pages, exactly.** A fork, from any reachable state and whatever it
returns, leaves each entry of its caller's page table as it was if and only if it finds the
pages that it uses there not present. -/
theorem fork_keeps_parent_iff (hr : KRun M tr k) (hs : Step k (.sysenter .fork u b) o k') :
    (∀ p, k'.mm.pagusrTable (getPT k k.current) p = k.mm.pagusrTable (getPT k k.current) p) ↔
      WindowFree k := by
  obtain ⟨a, hW, hO, -⟩ := run_owned hr
  obtain ⟨a', h, hW'⟩ := hs.refines hW
  have hT : getPT k k.current = a.tab := hW.getPT_current
  simp only [WindowFree, hT, hW'.table, hW.table, hW.phys, hW.members_free]
  generalize o.switch = sw at h
  cases h with
  | noop he => cases he
  | forkNone hq => simp [hq]
  | @forkFail _ _ c rest hq hf =>
    have htab : (a.forkFail c rest).table =
        clearPages a.table c pagLogInitData (pagLogInitData + freeFrames a.phys) := rfl
    simp only [hq, List.head?_cons, Option.some.injEq, Node.task.injEq, forall_eq', if_pos hf, htab]
    by_cases hc : c = a.tab
    · subst hc
      simpa using hO.clearPages_iff le_rfl
    · exact iff_of_true (fun p => if_neg fun h => hc h.1.symm) fun h => absurd h hc
  | @forkOk _ _ c rest fs hq hf hl hn hfs =>
    simp only [hq, List.head?_cons, Option.some.injEq, Node.task.injEq, forall_eq',
      if_neg (Nat.not_lt.2 hf), forkOk_table]
    by_cases hc : c = a.tab
    · subst hc
      exact iff_of_false (fun h => hO.forkTable_own hl hfs (h _)) fun h => h.1 rfl
    · simp only [forkTable_parent hc, hO.clearPages_iff (show pagLogInitData ≤ heapStart by decide)]
      exact ⟨fun h => ⟨hc, h⟩, fun h => h.2⟩

/-- An allocation and a fork: the page allocated is gone. -/
theorem fork_clears_heap : ∃ t₁ t₂ k, KRun aMachine [t₂, t₁] k ∧
    t₁.event = .sysenter .alloc someStack 1000 ∧ t₂.event = .sysenter .fork someStack 1000 ∧
    (t₂.before.mm.pagusrTable (getPT t₂.before t₂.before.current) heapStart).present = true ∧
    (k.mm.pagusrTable (getPT t₂.before t₂.before.current) heapStart).present = false := by
  obtain ⟨t, k, f, hr, he, hW, hF, hR⟩ := alloc_run aMachine 1000
  set a := (bootState aMachine).mapped heapStart f
  have hq : a.queue .freequeue = .task 2 :: bootFree.tail := rfl
  obtain ⟨o, k', fs, hs, hW', -⟩ := fork_step hW hR.user hR.data hq (le_trans (by decide) hR.frames) 1000
  have hT : getPT k k.current = a.tab := hW.getPT_current
  refine ⟨t, ⟨k, _, o, k'⟩, k', hr.step hs, he, rfl, ?_, ?_⟩
  · simp only [hT, hW.table]
    exact congrArg Pte.present ((bootState aMachine).mapped_page heapStart f)
  · simp only [hT, hW'.table]
    exact congrArg Pte.present (if_pos ⟨rfl, le_rfl, by decide⟩)

/-- The first fork from boot on finds its window empty, and leaves the table of task 1 as it was. -/
theorem fork_keeps_parent_iff_first : ∃ k o k', KRun aMachine [] k ∧
    Step k (.sysenter .fork someStack 1000) o k' ∧ WindowFree k ∧
    ∀ p, k'.mm.pagusrTable (getPT k k.current) p = k.mm.pagusrTable (getPT k k.current) p := by
  obtain ⟨k, hr, hW⟩ := boot_run aMachine
  have hR := boot_ready aMachine
  have hq : (bootState aMachine).queue .freequeue = .task 2 :: bootFree.tail := rfl
  obtain ⟨o, k', fs, hs, -⟩ := fork_step hW hR.user hR.data hq (le_trans (by decide) hR.frames) 1000
  have hwindow : WindowFree k := by
    intro c hc
    rw [hW.members_free, hq] at hc
    cases hc
    have hT : getPT k k.current = 1 := hW.getPT_current.trans (boot_tab aMachine)
    rw [if_neg (by rw [hW.phys]; exact Nat.not_lt.2 (le_trans (by decide) hR.frames)), hT, hW.table]
    refine ⟨by decide, fun p h1 _ => ?_⟩
    exact congrArg Pte.present (bootTable_heap h1 aMachine.layout)
  -- not by name: to elaborate a term of this type Lean would count the free frames
  refine ⟨k, o, k', hr, hs, ?_, ?_⟩
  · assumption
  · rw [fork_keeps_parent_iff hr hs]
    assumption

end Zeos
