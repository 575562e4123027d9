import Zeos.Proof.Failures
import Zeos.Proof.Lookup

/-!
# The stack of a thread that ends

`sys_createthread` keeps no record of the page it takes for the thread's stack. `sys_terminatethread`
takes the page that the user stack pointer is on at the time.

* `terminate_releases_iff`: **when a thread that ends gives back its own stack**: when it calls with
  its stack pointer on the stack page, which still has its frame.
* `terminate_takes_buffer`: a thread that ends with its stack pointer elsewhere.
-/

namespace Zeos

open ForLoop LinkHeap Execution

variable {M : Machine} {tr tr' : KTrace} {k k' k₀ k₁ : Kernel} {a : AState} {c : Slot} {rest : List Node} {b b₀ : ℕ}
  {p f : ℕ} {w fn arg u u₀ : Word} {o o₀ : Out} {T : Slot}

/-- The step made task `c`, with its user stack on page `p`, which got frame `f`. -/
structure GotStack (k k' : Kernel) (c : Slot) (p f : ℕ) : Prop where
  free : ¬ Live k c
  live : Live k' c
  esp : (k'.task c).userEsp.toNat / pageSize = p
  absent : (k.mm.pagusrTable (getPT k' c) p).present = false
  present : (k'.mm.pagusrTable (getPT k' c) p).present = true
  frame : (k'.mm.pagusrTable (getPT k' c) p).pbaseAddr = f

/-- Of all pages the step took page `p` of table `T`, of all frames it freed `f`, and it changed no other. -/
structure ReleasesOnly (k k' : Kernel) (T : Slot) (p f : ℕ) : Prop where
  unmapped : ∀ s q, (k.mm.pagusrTable s q).present = true ∧ (k'.mm.pagusrTable s q).present = false ↔ s = T ∧ q = p
  freed : ∀ g, k.mm.physMem g ≠ frameFree ∧ k'.mm.physMem g = frameFree ↔ g = f
  pages : ∀ s q, ¬ (s = T ∧ q = p) → k'.mm.pagusrTable s q = k.mm.pagusrTable s q
  frames : ∀ g, g ≠ f → k'.mm.physMem g = k.mm.physMem g

/-- What a step of `dealloc_k` on page `q` of table `T` releases. -/
theorem unmap_releases_iff {q : ℕ} (hO : Owned a.phys a.table) (hm : a.Mapped q) (hW : WF k a)
    (hp : k'.mm.physMem = (a.unmap q).phys) (ht : k'.mm.pagusrTable = (a.unmap q).table) :
    ReleasesOnly k k' a.tab p f ↔ q = p ∧ (a.table a.tab p).pbaseAddr = f := by
  have hq : pagLogInitData ≤ q := le_trans (by decide) hm.1
  have hmap := hO.maps_of_ne hq hm.2.2
  have hused := hO.frame _ _ _ hmap
  have htable : ∀ s r, k'.mm.pagusrTable s r = if s = a.tab ∧ r = q then {} else k.mm.pagusrTable s r := by
    intro s r
    rw [ht, hW.table]
    exact if_congr (and_congr_right fun _ => by omega) rfl rfl
  have hphys : ∀ g, k'.mm.physMem g = if g = (a.table a.tab q).pbaseAddr then frameFree else k.mm.physMem g := by
    intro g
    rw [hp, hW.phys]
    by_cases hg : g = (a.table a.tab q).pbaseAddr
    · rw [if_pos hg, hg]
      exact if_pos ⟨rfl, hused.1⟩
    · rw [if_neg hg]
      exact if_neg fun h => hg h.1.symm
  have hpres : (k.mm.pagusrTable a.tab q).present = true := by
    rw [hW.table]
    exact hmap.2.1
  have hphys_used : k.mm.physMem (a.table a.tab q).pbaseAddr ≠ frameFree := by
    rw [hW.phys, hused.2.1]
    exact frameUsed_ne_free
  constructor
  · intro h
    have hqp : a.tab = a.tab ∧ q = p := (h.unmapped a.tab q).1 ⟨hpres, by rw [htable, if_pos ⟨rfl, rfl⟩]⟩
    have hf : (a.table a.tab q).pbaseAddr = f := (h.freed _).1 ⟨hphys_used, by rw [hphys, if_pos rfl]⟩
    obtain ⟨-, rfl⟩ := hqp
    exact ⟨rfl, hf⟩
  · rintro ⟨rfl, rfl⟩
    refine ⟨fun s r => ⟨fun h => ?_, ?_⟩, fun g => ⟨fun h => ?_, ?_⟩, fun s r h => ?_, fun g h => ?_⟩
    · by_contra hne
      rw [htable, if_neg hne] at h
      rw [h.1] at h
      cases h.2
    · rintro ⟨rfl, rfl⟩
      exact ⟨hpres, by rw [htable, if_pos ⟨rfl, rfl⟩]⟩
    · by_contra hne
      rw [hphys, if_neg hne] at h
      exact h.1 h.2
    · rintro rfl
      exact ⟨hphys_used, by rw [hphys, if_pos rfl]⟩
    · rw [htable, if_neg h]
    · rw [hphys, if_neg h]

/-- A task that stays live keeps its page table. -/
theorem path_dir (hp : Path (kernelSystem M) k tr k') (hr : KRun M tr' k) (hc : Live k c)
    (hl : ∀ x ∈ tr, Live x.after c) : getPT k' c = getPT k c ∧ Live k' c := by
  refine hp.induct (P := fun tr k' => (∀ x ∈ tr, Live x.after c) → getPT k' c = getPT k c ∧ Live k' c)
    (fun _ => ⟨rfl, hc⟩) ?_ hl
  intro tr k₁ e o k₂ hp ih hs hl
  obtain ⟨hdir, hlive⟩ := ih fun x hx => hl x (List.mem_cons_of_mem _ hx)
  obtain ⟨a, hW, -⟩ := run_owned (hr.path hp)
  obtain ⟨a', h, hW'⟩ := hs.refines hW
  refine ⟨?_, hl _ List.mem_cons_self⟩
  rw [← hdir, hW'.getPT, hW.getPT]
  exact h.dir_live (hW.live_iff.1 hlive)

/-- **A thread that ends and its stack, exactly.** After any run, a thread that `sys_createthread` made
in it, with stack page `p` on frame `f`, and that ends with its user stack pointer at `u`, takes
page `p` and frame `f` and nothing else if and only if `u` is on page `p` and the page still has
that frame. -/
theorem terminate_releases_iff (hr : KRun M tr k₀) (hs₀ : Step k₀ (.sysenter (.createthread w fn arg) u₀ b₀) o₀ k₁)
    (hg : GotStack k₀ k₁ c p f) (hp : Path (kernelSystem M) k₁ tr' k) (hl : ∀ x ∈ tr', Live x.after c)
    (hc : k.current = c) (hs : Step k (.sysenter .terminatethread u b) o k') (hend : ¬ Live k' c) :
    ReleasesOnly k k' (getPT k₁ c) p f ↔
      u.toNat / pageSize = p ∧ (k.mm.pagusrTable (getPT k₁ c) p).pbaseAddr = f := by
  have hr₁ := hr.step hs₀
  obtain ⟨hdir, hlive⟩ := path_dir hp hr₁ hg.live hl
  obtain ⟨a, hW, hO, -⟩ := run_owned (hr₁.path hp)
  obtain ⟨a', h, hW'⟩ := hs.refines hW
  have hT : getPT k₁ c = a.tab := by
    rw [← hdir, hW.getPT, ← hc, hW.current]
    rfl
  rw [hT, hW.table]
  generalize o.switch = sw at h
  cases h with
  | noop he => cases he
  | terminateBad => exact absurd (hW'.live_iff.2 (hW.live_iff.1 hlive)) hend
  | terminate hm => exact unmap_releases_iff hO hm hW hW'.phys hW'.table

/-! ### Runs -/

/-- A `sys_createthread` that finds a struct, a page and a frame. -/
theorem createthread_page (hW : WF k a) (hs : Step k (.sysenter (.createthread w fn arg) u b) o k')
    (hq : a.queue .freequeue = .task c :: rest) (hA : CanAlloc a) : ∃ p f, StackPage k' a c rest p f := by
  obtain ⟨k₁, -, -, hW₁, h2⟩ := hs.called hW
  obtain ⟨v, hcall, -⟩ := returning_ok.1 h2
  rcases sysCreatethread_cases hW₁ hcall with ⟨hq', -⟩ | ⟨c', rest', hq', -, hno | hS⟩
  · rw [hq] at hq'
    cases hq'
  · obtain ⟨⟨p, h1, h2, h3⟩, f, he, hf⟩ := hA
    rcases hW₁.noStackPage_iff.1 hno with h | h
    · exact absurd h3 (h p h1 h2)
    · exact absurd hf (h f he)
  · rw [hq] at hq'
    cases hq'
    exact hS

theorem StackPage.gotStack (hS : StackPage k' a c rest p f) (hW : WF k a) (hO : Owned a.phys a.table)
    (hq : a.queue .freequeue = .task c :: rest) : GotStack k k' c p f := by
  have hT := hS.getPT
  have hentry : k'.mm.pagusrTable (Zeos.getPT k' c) p = userPte f := by rw [hT, hS.table, if_pos ⟨rfl, rfl⟩]
  have hnd := hW.free_nodup
  rw [hq] at hnd
  refine ⟨fun h => not_live hq (hW.live_iff.1 h), ?_, ?_, ?_, ?_, ?_⟩
  · rw [Live, hS.queue]
    exact (List.nodup_cons.1 hnd).1
  · rw [hS.esp]
    exact wordAddr_page hS.bound (by decide)
  · rw [hT, hW.table, ← Bool.not_eq_true, hO.present_iff (le_trans (by decide) hS.heap)]
    exact fun h => h hS.absent
  · rw [hentry]
    rfl
  · rw [hentry, userPte_pbase hS.even.2.1]

/-- A yield leaves the page tables alone. -/
theorem yield_tables (hr : KRun M tr k) (hs : Step k (.sysenter .yield u b) o k') :
    k'.mm.pagusrTable = k.mm.pagusrTable := by
  obtain ⟨a, hW⟩ := run_wf hr
  obtain ⟨a', h, hW'⟩ := hs.refines hW
  rw [hW'.table, hW.table]
  rcases h.memory with ⟨-, h⟩ | h
  · exact h.table
  · cases h

/-- Thread 2 has its stack on the first heap page, and runs. -/
theorem stack_run (b : ℕ) : ∃ k₀ o₀ k₁ tr k a f, KRun aMachine [] k₀ ∧
    Step k₀ (.sysenter (.createthread 0 0 0) someStack b) o₀ k₁ ∧ GotStack k₀ k₁ 2 heapStart f ∧ getPT k₁ 2 = 1 ∧
    Path (kernelSystem aMachine) k₁ tr k ∧ tr.map (·.event) = [.sysenter .yield someStack b] ∧
    (∀ x ∈ tr, Live x.after 2) ∧ WF k a ∧ Ready a 355 ∧ a.current = 2 ∧ a.tab = 1 ∧
    a.queue .readyqueue = .task 1 :: [] ∧ a.Mapped heapStart ∧ (a.table a.tab heapStart).present = true ∧
    (∀ q, heapStart < q → a.table 1 q = {}) ∧ k.mm.pagusrTable = k₁.mm.pagusrTable := by
  obtain ⟨y, x, k, a, f, hr, hx, hy, hW, hR, hcur, -, htab, -, hready, -, he, hheap⟩ := thread_on_cpu aMachine b
  obtain ⟨hm, hp⟩ := stack_mapped htab he hheap
  cases hr with
  | step hr hs =>
    cases hr with
    | step hr hs₀ =>
      simp only at hx hy
      subst hx hy
      have hr₀ := hr
      cases hr with
      | init hb =>
        obtain ⟨k', hk', hW₀⟩ := boot_ok aMachine
        cases hk'.symm.trans hb
        have hO₀ : Owned (bootState aMachine).phys (bootState aMachine).table := boot_owned aMachine.layout
        have hq₀ : (bootState aMachine).queue .freequeue = .task 2 :: bootFree.tail := rfl
        obtain ⟨p, g, hS⟩ := createthread_page hW₀ hs₀ hq₀ (boot_canAlloc aMachine)
        obtain rfl : p = heapStart := hS.toFresh.page_eq (by
          rw [boot_tab]
          exact congrArg Pte.pbaseAddr (bootTable_heap le_rfl aMachine.layout))
        have hdir : getPT _ 2 = 1 := hS.getPT.trans (boot_tab aMachine)
        refine ⟨_, _, _, _, k, a, g, hr₀, hs₀, hS.gotStack hW₀ hO₀ hq₀, hdir, .step .refl hs, rfl, fun x hx => ?_,
          hW, hR, hcur, htab, hready, hm, hp, fun q hq => ?_, yield_tables (hr₀.step hs₀) hs⟩
        · rw [List.mem_singleton.1 hx]
          exact hW.live_iff.2 (hcur ▸ hW.current_live)
        · rw [hheap q hq.le, if_neg hq.ne']

/-- The thread allocates a page for a buffer and ends with its stack pointer there: the buffer is
gone, the stack page stays. -/
theorem terminate_takes_buffer : ∃ k₀ o₀ k₁ tr k o k' f, KRun aMachine [] k₀ ∧
    Step k₀ (.sysenter (.createthread 0 0 0) someStack 1000) o₀ k₁ ∧ GotStack k₀ k₁ 2 heapStart f ∧
    Path (kernelSystem aMachine) k₁ tr k ∧ (∀ x ∈ tr, Live x.after 2) ∧
    tr.map (·.event) = [.sysenter .alloc someStack 1000, .sysenter .yield someStack 1000] ∧ k.current = 2 ∧
    Step k (.sysenter .terminatethread (wordAddr (BitVec.ofNat 32 ((heapStart + 1) * pageSize)) 1021) 1000) o k' ∧
    ¬ Live k' 2 ∧ (k.mm.pagusrTable (getPT k₁ 2) (heapStart + 1)).present = true ∧
    (k'.mm.pagusrTable (getPT k₁ 2) (heapStart + 1)).present = false ∧
    (k'.mm.pagusrTable (getPT k₁ 2) heapStart).present = true ∧ ¬ ReleasesOnly k k' (getPT k₁ 2) heapStart f := by
  obtain ⟨k₀, o₀, k₁, tr, k₂, a, g, hr₀, hs₀, hg, hT, hp, he, hl, hW, hR, hcur, htab, hready, hm, hpres, hempty, -⟩ :=
    stack_run 1000
  have hA : CanAlloc a := Ready.canAlloc (n := 354) hR ⟨heapStart + 1, Nat.le_succ _, by decide, by
    rw [htab, hempty _ (Nat.lt_succ_self _)]⟩
  -- the thread allocates the page behind its stack
  obtain ⟨o₃, k₃, p, f, hs₃, hW₃, hF⟩ := alloc_step hW hR.user hR.data hA 1000
  obtain rfl : p = heapStart + 1 := by
    have h0 : p ≠ heapStart := fun h => hm.2.2 (h ▸ hF.absent)
    have h1 := hF.heap
    by_contra hne
    refine hF.first (heapStart + 1) (Nat.le_succ _) (by omega) ?_
    rw [htab, hempty _ (Nat.lt_succ_self _)]
  set a₃ := a.mapped (heapStart + 1) f
  have hpage : a₃.table a₃.tab (heapStart + 1) = userPte f := a.mapped_page _ f
  have hm₃ : a₃.Mapped (heapStart + 1) := by
    refine ⟨Nat.le_succ _, by decide, ?_⟩
    rw [hpage, userPte_pbase hF.even.2.1]
    exact Nat.ne_of_gt (lt_of_lt_of_le (by decide) hF.even.1)
  have hR₃ : Ready a₃ 354 := hR.mapped hF
  -- and ends with its user stack pointer in it
  obtain ⟨o₄, k₄, hs₄, hW₄⟩ := terminate_step hW₃ hR₃.user hm₃ (by rw [hpage]; rfl) (show 1021 < 1023 by decide)
    (.inr hready) 1000
  have htab₃ : a₃.tab = 1 := htab
  have hcur₃ : a₃.current = 2 := hcur
  -- the entry of the buffer goes, that of the stack stays
  have hbefore : (k₃.mm.pagusrTable (getPT k₁ 2) (heapStart + 1)).present = true := by
    rw [hT, hW₃.table, ← htab₃, hpage]
    rfl
  have hafter : (k₄.mm.pagusrTable (getPT k₁ 2) (heapStart + 1)).present = false := by
    rw [hT, hW₄.table]
    exact congrArg Pte.present (if_pos ⟨htab₃.symm, le_rfl, Nat.lt_succ_self _⟩)
  have hstack : (k₄.mm.pagusrTable (getPT k₁ 2) heapStart).present = true := by
    rw [hT, hW₄.table]
    have h1 : ((a₃.unmap (heapStart + 1)).leave 1000).table 1 heapStart = a₃.table 1 heapStart :=
      if_neg fun h => absurd h.2.1 (by decide)
    have h2 : a₃.table 1 heapStart = a.table 1 heapStart := if_neg fun h => absurd h.2 (by decide)
    rw [h1, h2, ← htab]
    exact hpres
  refine ⟨k₀, o₀, k₁, _, k₃, o₄, k₄, g, hr₀, hs₀, hg, hp.step hs₃, ?_, ?_, hW₃.current.trans hcur₃, hs₄, ?_, hbefore,
    hafter, hstack, fun h => ?_⟩
  · intro x hx
    rcases List.mem_cons.1 hx with rfl | hx
    · exact hW₃.live_iff.2 (hcur₃ ▸ hW₃.current_live)
    · exact hl x hx
  · rw [List.map_cons, he]
  · rw [hW₄.live_iff, leave_live]
    exact fun h => h.2 hcur₃.symm
  · exact absurd ((h.unmapped _ _).1 ⟨hbefore, hafter⟩).2 (by decide)

/-- Thread 2 ends with its user stack pointer on the page that it was given, and takes this page only. -/
theorem terminate_releases_iff_stack : ∃ k₀ o₀ k₁ tr k o k' f, KRun aMachine [] k₀ ∧
    Step k₀ (.sysenter (.createthread 0 0 0) someStack 1000) o₀ k₁ ∧ GotStack k₀ k₁ 2 heapStart f ∧
    Path (kernelSystem aMachine) k₁ tr k ∧
    Step k (.sysenter .terminatethread (wordAddr (BitVec.ofNat 32 (heapStart * pageSize)) 1021) 1000) o k' ∧
    (wordAddr (BitVec.ofNat 32 (heapStart * pageSize)) 1021).toNat / pageSize = heapStart ∧
    (k.mm.pagusrTable (getPT k₁ 2) heapStart).pbaseAddr = f ∧ ReleasesOnly k k' (getPT k₁ 2) heapStart f := by
  obtain ⟨k₀, o₀, k₁, tr, k, a, f, hr₀, hs₀, hg, -, hp, -, hl, hW, hR, hcur, -, hready, hm, hpres, -, hsame⟩ :=
    stack_run 1000
  obtain ⟨o, k', hs, hW'⟩ := terminate_step hW hR.user hm hpres (show 1021 < 1023 by decide) (.inr hready) 1000
  have hend : ¬ Live k' 2 := by
    rw [hW'.live_iff, leave_live]
    exact fun h => h.2 hcur.symm
  have hpage : (wordAddr (BitVec.ofNat 32 (heapStart * pageSize)) 1021).toNat / pageSize = heapStart := by decide
  have hf : (k.mm.pagusrTable (getPT k₁ 2) heapStart).pbaseAddr = f := by
    rw [hsame, hg.frame]
  exact ⟨k₀, o₀, k₁, tr, k, o, k', f, hr₀, hs₀, hg, hp, hs, hpage, hf,
    (terminate_releases_iff hr₀ hs₀ hg hp hl (hW.current.trans hcur) hs hend).2 ⟨hpage, hf⟩⟩

end Zeos
