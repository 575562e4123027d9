import Zeos.Proof.Progress

/-!
# The kernel's pages

`init_table_pages` and `set_user_pages` keep user mode out of the kernel's pages, page 0
and the guard pages of the task array inaccessible, and code pages read-only
(`Protected`). A fork builds the child's table with `set_ss_pag`, which opens all of
them.

* `protection_exact`: **the tables of live tasks stay protected along a run exactly if
  none of its forks succeeds.**
* `fork_opens_kernel`: a run of one fork after which a live task's table is open.
-/

namespace Zeos

open Execution

/-- The bits of a page table as `init_table_pages` and `set_user_pages` set them up. -/
structure Protected (L : Layout) (t : ℕ → Pte) : Prop where
  kernel : ∀ p < numPagKernel, (t p).user = false
  null : (t 0).present = false
  guardLow : (t L.protectedTasks).present = false
  guardHigh : (t (L.protectedTasks + 11)).present = false
  code : ∀ p, pagLogInitCode ≤ p → p < pagLogInitData → (t p).rwBit = false

/-- The page tables of all live tasks are protected. -/
def KernelProtected (L : Layout) (k : Kernel) : Prop :=
  ∀ s, Live k s → Protected L (k.mm.pagusrTable (getPT k s))

/-- The event is no fork, or a fork that finds no free struct or too few frames. -/
def ForkFails (k : Kernel) : Event → Prop
  | .sysenter .fork _ _ => members k .freequeue = [] ∨ freeFrames k.mm.physMem < numPagData
  | _ => True

variable {k k' : Kernel} {a a' : AState} {e : Event} {L : Layout} {M : Machine} {tr : KTrace}

theorem WF.protected_iff (hW : WF k a) :
    KernelProtected L k ↔ ∀ s, a.Live s → Protected L (a.table (a.dir s)) := by
  refine forall_congr' fun s => ?_
  rw [hW.live_iff, hW.getPT, hW.table]

/-- Only the entries below the data pages matter. -/
theorem Protected.congr {t t' : ℕ → Pte} (h : ∀ p < pagLogInitData, t' p = t p) (hp : Protected L t) :
    Protected L t' := by
  have h1 := L.in_kernel
  have hk : ∀ p, p < numPagKernel → p < pagLogInitData := fun p h => by simp at h ⊢; omega
  refine ⟨fun p h' => ?_, ?_, ?_, ?_, fun p h1 h2 => ?_⟩
  · rw [h p (hk p h')]; exact hp.kernel p h'
  · rw [h 0 (by decide)]; exact hp.null
  · rw [h _ (hk _ (by omega))]; exact hp.guardLow
  · rw [h _ (hk _ h1)]; exact hp.guardHigh
  · rw [h p h2]; exact hp.code p h1 h2

theorem boot_protected (L : Layout) (s : Slot) : Protected L (bootTable L s) := by
  have h1 := L.after_start
  have h2 := L.in_kernel
  have hk : ∀ p, p < numPagKernel → bootTable L s p = kernelPte L p := fun p hp => by
    rw [bootTable, if_neg (by simp at hp ⊢; omega), if_neg (by simp at hp ⊢; omega)]
  refine ⟨fun p hp => ?_, ?_, ?_, ?_, fun p h3 h4 => ?_⟩
  · rw [hk p hp, kernelPte]; split <;> rfl
  · rw [hk 0 (by decide)]; rfl
  · rw [hk _ (by omega), kernelPte, if_neg (by omega)]; simp
  · rw [hk _ h2, kernelPte, if_neg (by omega)]; simp
  · by_cases hs : s = 1
    · rw [bootTable, if_pos ⟨hs, h3, h4⟩]
    · rw [bootTable, if_neg fun h => hs h.1, if_neg fun h => hs h.1, kernelPte_above h3]

/-- The child of a fork has page 0 present. -/
theorem fork_opens {c : Slot} {rest : List Node} {b : ℕ} {fs : List ℕ} :
    ¬ Protected L ((a.forkOk c rest b fs).table ((a.forkOk c rest b fs).dir c)) := fun h => by
  have h0 := h.null
  rw [forkOk_dir, if_pos rfl, forkOk_table,
    forkTable_low (by decide), if_pos rfl] at h0
  cases h0

/-- **A step from a protected state keeps the protection exactly if it is no successful fork.** -/
theorem protection_step (hr : KRun M tr k) (hP : KernelProtected L k) {o : Out} (hs : Step k e o k') :
    KernelProtected L k' ↔ ForkFails k e := by
  obtain ⟨a, hW, -⟩ := run_owned hr
  obtain ⟨a', h, hW'⟩ := hs.refines hW
  rw [hW.protected_iff] at hP
  rw [hW'.protected_iff]
  rcases h.memory with ⟨he, h⟩ | h
  · refine iff_of_true (fun s hl => ?_) ?_
    · rw [h.table, h.dir]; exact hP s (h.live.1 hl)
    · unfold ForkFails; split
      · cases he
      · trivial
  have hc : a.current ≠ a.idle := Step.user hW hs (by cases h <;> rfl)
  rcases h.inherits hW hc with ⟨u, b, c, rest, fs, rfl, rfl, hq, hf, -⟩ | ⟨hI, hF⟩
  · refine iff_of_false (fun h => fork_opens (h c ?_)) ?_
    · exact (forkOk_live hW.free_nodup hq).2 (.inr rfl)
    · rintro (h | h)
      · rw [hW.members_free, hq] at h; cases h
      · rw [hW.phys] at h; omega
  · refine iff_of_true (fun s hl => ?_) ?_
    · obtain ⟨s₀, hl₀, hd, -⟩ := hI.dir s hl
      rw [hd]
      exact (hP s₀ hl₀).congr fun p hp => hI.low _ p hp
    · unfold ForkFails; split
      · rw [hW.members_free, hW.phys]; exact hF _ _ rfl
      · trivial

/-- **Kernel protection, exactly.** The page tables of all live tasks are protected in every
state of a run if and only if none of its forks succeeds. -/
theorem protection_exact (hr : KRun M tr k) :
    (∀ t ∈ tr, KernelProtected M.layout t.after) ↔ ∀ t ∈ tr, ForkFails t.before t.event := by
  refine hr.exact (P := KernelProtected M.layout) (C := ForkFails) (fun k hk => ?_) fun hr hP hs =>
    protection_step hr hP hs
  obtain ⟨k', h, hW⟩ := boot_ok M
  cases h.symm.trans hk
  exact hW.protected_iff.2 fun s _ => boot_protected M.layout _

/-- Forked once, the kernel has a live task whose table is open. -/
theorem fork_opens_kernel : ∃ t k, KRun aMachine [t] k ∧ t.event = .sysenter .fork someStack 1000 ∧
    Live k 2 ∧ (k.mm.pagusrTable (getPT k 2) 0).present = true ∧
    (k.mm.pagusrTable (getPT k 2) 17).user = true ∧
    (k.mm.pagusrTable (getPT k 2) pagLogInitCode).rwBit = true ∧ ¬ KernelProtected aMachine.layout k := by
  obtain ⟨k₀, o, k, fs, hr, hW₀, hs, hW, -⟩ := fork_run aMachine 1000
  have hq : (bootState aMachine).queue .freequeue = .task 2 :: bootFree.tail := rfl
  have hl : ((bootState aMachine).forkOk 2 bootFree.tail 1000 fs).Live 2 :=
    (forkOk_live hW₀.free_nodup hq).2 (.inr rfl)
  have hpage : ∀ p < pagLogInitData, k.mm.pagusrTable (getPT k 2) p =
      userPte ((bootState aMachine).table (bootState aMachine).tab p).pbaseAddr := fun p hp => by
    rw [hW.getPT, hW.table, forkOk_dir, if_pos rfl, forkOk_table, forkTable_low hp, if_pos rfl]
  refine ⟨_, k, hr.step hs, rfl, hW.live_iff.2 hl, ?_, ?_, ?_, fun h => fork_opens (hW.protected_iff.1 h 2 hl)⟩
  · rw [hpage 0 (by decide)]; rfl
  · rw [hpage 17 (by decide)]; rfl
  · rw [hpage _ (by decide)]; rfl

/-- The first fork from boot on succeeds, and the kernel is open behind it. -/
theorem protection_exact_fork : ∃ t k, KRun aMachine [t] k ∧ t.event = .sysenter .fork someStack 1000 ∧
    (¬ ∀ t' ∈ [t], ForkFails t'.before t'.event) ∧ ¬ ∀ t' ∈ [t], KernelProtected aMachine.layout t'.after := by
  obtain ⟨k₀, o, k, fs, hr, hW₀, hs, -⟩ := fork_run aMachine 1000
  have hq : (bootState aMachine).queue .freequeue = .task 2 :: bootFree.tail := rfl
  have hframes : numPagData ≤ freeFrames k₀.mm.physMem := by
    rw [hW₀.phys]
    exact le_trans (by decide) (boot_ready aMachine).frames
  have hsucceeds : ¬ ForkFails k₀ (.sysenter .fork someStack 1000) := by
    rintro (h | h)
    · rw [hW₀.members_free, hq] at h
      cases h
    · exact absurd hframes (Nat.not_le.2 h)
  refine ⟨_, k, hr.step hs, rfl, fun h => hsucceeds (h _ (List.mem_singleton_self _)), fun h => ?_⟩
  exact hsucceeds ((protection_exact (hr.step hs)).1 h _ (List.mem_singleton_self _))

end Zeos
