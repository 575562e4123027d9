import Zeos.Proof.Marks

/-!
# Heap pages

`sys_alloc` searches for a page without a frame and then for a frame, `sys_dealloc` takes a
page back with the frame it finds there.

* `sysAlloc_cases`, `Available.room`: when `sys_alloc` succeeds, and what it changes.
* `sysDealloc_mapped`, `sysDealloc_bad`: when `sys_dealloc` succeeds, and what it changes.
* `path_keeps_page`: other calls leave an allocated page as it is.
* `heap_calls`: **both calls are exact, and a page given back leaves no trace**, in every
  reachable state and whatever was allocated and given back in between.
-/

namespace Zeos

open Execution

variable {k k' k₁ k₂ k₃ : Kernel} {a a' a₁ a₂ : AState} {e : Event} {M : Machine} {tr tr' : KTrace} {o : Out} {T : Slot}
  {addr u : Word} {b p f : ℕ}

/-! ### What the calls do -/

/-- Frame `f` is at heap page `p` of table `T`, in use, and all else as in `m`. -/
def Mm.withPage (m : Mm) (T : Slot) (p f : ℕ) : Mm :=
  (m.setPhys f frameUsed).setPte T p { present := true, rwBit := true, user := true, pbaseAddr := f }

/-- Page `p` of table `T` is empty and its frame free, and all else as in `m`. -/
def Mm.withoutPage (m : Mm) (T : Slot) (p : ℕ) : Mm := (m.setPhys (m.getFrame T p) frameFree).setPte T p {}

/-- The first heap page of the current task without a frame, and a free frame that `alloc_frame` visits. -/
structure Available (k : Kernel) (p f : ℕ) : Prop where
  heap : heapStart ≤ p
  bound : p < totalPages
  absent : k.mm.getFrame (getPT k k.current) p = 0
  first : ∀ q, heapStart ≤ q → q < p → k.mm.getFrame (getPT k k.current) q ≠ 0
  even : IsEven f
  free : k.mm.physMem f = frameFree

/-- `sys_alloc` can succeed. -/
def HasRoom (k : Kernel) : Prop :=
  (∃ p, heapStart ≤ p ∧ p < totalPages ∧ k.mm.getFrame (getPT k k.current) p = 0) ∧
    ∃ f, IsEven f ∧ k.mm.physMem f = frameFree

/-- `sys_dealloc` can succeed on page `p`. -/
def HeapMapped (k : Kernel) (p : ℕ) : Prop :=
  heapStart ≤ p ∧ p < totalPages ∧ k.mm.getFrame (getPT k k.current) p ≠ 0

theorem page_toInt (h : p < totalPages) : 0 ≤ (BitVec.ofNat 32 (p * pageSize)).toInt ∧
    (BitVec.ofNat 32 (p * pageSize)).toNat / pageSize = p := by
  have hn : (BitVec.ofNat 32 (p * pageSize)).toNat = p * pageSize := by
    rw [BitVec.toNat_ofNat]
    simp only [totalPages, pageSize] at *
    omega
  constructor
  · rw [BitVec.toInt_eq_toNat_cond, hn]
    simp only [totalPages, pageSize] at *
    split <;> omega
  · rw [hn]
    simp only [pageSize]
    omega

/-- What `sys_alloc` comes to. -/
theorem sysAlloc_cases (k : Kernel) :
    (∃ p f, Available k p f ∧ sysAlloc k =
      (BitVec.ofNat 32 (p * pageSize), k.setMm (k.mm.withPage (getPT k k.current) p f))) ∨
    (¬ HasRoom k ∧ sysAlloc k = (-enomem, k)) := by
  obtain ⟨v, m, h, hm⟩ := allocK_cases k
  cases hm with
  | noPage hn =>
    refine .inr ⟨?_, h⟩
    rintro ⟨⟨p, h1, h2, h3⟩, -⟩
    exact hn p h1 h2 h3
  | noFrame hn =>
    refine .inr ⟨?_, h⟩
    rintro ⟨-, f, h1, h2⟩
    exact hn f h1 h2
  | page p f h1 h2 h3 h4 h5 h6 =>
    refine .inl ⟨p, f, ⟨h1, h2, h3, h4, h5, h6⟩, ?_⟩
    have hf : f % 2 ^ 20 = f := userPte_pbase h5.2.1
    rw [sysAlloc, h, Mm.withPage, Mm.setSsPag, hf]

theorem Available.room (h : Available k p f) : HasRoom k := ⟨⟨p, h.heap, h.bound, h.absent⟩, f, h.even, h.free⟩

/-- `sys_dealloc` on a page it does not take back. -/
theorem sysDealloc_bad (h : ¬ HeapMapped k (addr.toNat / pageSize)) :
    ∃ v, BitVec.toInt v < 0 ∧ sysDealloc k addr = (v, k) := by
  unfold HeapMapped at h
  by_cases hr : addr.toNat / pageSize < heapStart ∨ totalPages ≤ addr.toNat / pageSize
  · exact ⟨-eacces, by decide, by rw [sysDealloc, deallocK, if_pos hr]⟩
  · have h0 : k.mm.getFrame (getPT k k.current) (addr.toNat / pageSize) = 0 := by
      by_contra hne
      exact h ⟨by omega, by omega, hne⟩
    exact ⟨-efault, by decide, by simp only [sysDealloc, deallocK, if_neg hr, if_pos h0]⟩

/-- `sys_dealloc` on a mapped heap page, whose frame `free_frame` takes in every reachable state. -/
theorem sysDealloc_mapped (hr : KRun M tr k) (h : HeapMapped k (addr.toNat / pageSize)) :
    sysDealloc k addr = (0, k.setMm (k.mm.withoutPage (getPT k k.current) (addr.toNat / pageSize))) := by
  obtain ⟨a, hW, hO, -⟩ := run_owned hr
  obtain ⟨h1, h2, h3⟩ := h
  set p := addr.toNat / pageSize
  set T := getPT k k.current
  have hT : T = a.tab := by
    show getPT k k.current = _
    rw [hW.current]
    exact hW.getPT
  have hfree : Freeable (k.mm.getFrame T p) := by
    have h3' : (a.table T p).pbaseAddr ≠ 0 := by
      rw [← hW.table]
      exact h3
    have hm := hO.maps_of_ne (by simp at h1 ⊢; omega) h3'
    rw [Mm.getFrame, hW.table]
    exact (hO.frame _ _ _ hm).1
  have hff : k.mm.freeFrame (k.mm.getFrame T p) = k.mm.setPhys (k.mm.getFrame T p) frameFree := if_pos hfree
  have hcr : getDIR (k.setMm (k.mm.withoutPage T p)) k.current = k.cr3 := by
    rw [hW.cr3, hW.current]
    exact hW.dir _
  have hr : ¬ (p < heapStart ∨ totalPages ≤ p) := by omega
  have hcall : sysDealloc k addr = (0, { k.setMm (k.mm.withoutPage T p) with
      cr3 := getDIR (k.setMm (k.mm.withoutPage T p)) k.current }) := by
    simp only [sysDealloc, deallocK]
    rw [if_neg hr, if_neg h3, hff]
    rfl
  rw [hcall, hcr]
  rfl

/-! ### Pages given back -/

/-- The transition is no call on memory, or a heap call that leaves page `p` of table `T` alone. -/
def LeavesPage (T : Slot) (p : ℕ) (x : Transition Kernel Event Out) : Prop :=
  match x.event with
  | .sysenter .alloc _ _ => True
  | .sysenter (.dealloc addr) _ _ => getPT x.before x.before.current = T → addr.toNat / pageSize ≠ p
  | e => e.isMemory = false

/-- What the step from `k` to `k₁` did to the frame map and to the page tables is not there any more
in `k'`, which has all else as `k₂`. -/
structure Undone (k k₁ k₂ k' : Kernel) : Prop where
  phys : ∀ f, k'.mm.physMem f = if k₁.mm.physMem f = k.mm.physMem f then k₂.mm.physMem f else k.mm.physMem f
  table : ∀ s p, k'.mm.pagusrTable s p =
    if k₁.mm.pagusrTable s p = k.mm.pagusrTable s p then k₂.mm.pagusrTable s p else k.mm.pagusrTable s p

theorem Undone.at_once (h : Undone k k₁ k₁ k') : k'.mm.physMem = k.mm.physMem ∧ k'.mm.pagusrTable = k.mm.pagusrTable := by
  constructor
  · funext f
    rw [h.phys]
    split
    · assumption
    · rfl
  · funext s p
    rw [h.table]
    split
    · assumption
    · rfl

/-- A step of `sys_alloc`, with what it returns. -/
theorem alloc_step_ret (hW : WF k a) (hs : Step k (.sysenter .alloc u b) o k') :
    (∃ p f, o.ret = some (BitVec.ofNat 32 (p * pageSize)) ∧ Fresh a p f ∧ WF k' (a.mapped p f)) ∨
    (o.ret = some (-enomem) ∧ ¬ CanAlloc a) := by
  obtain ⟨k₁, hW₁, -, hcall⟩ := hs.entered hW
  have hT : getPT k₁ k₁.current = a.tab := hW₁.getPT_current
  have hget : ∀ q, k₁.mm.getFrame (getPT k₁ k₁.current) q = (a.table a.tab q).pbaseAddr := fun q => by
    rw [hT, Mm.getFrame, hW₁.table]
  rcases sysAlloc_cases k₁ with ⟨p, f, hA, h⟩ | ⟨hn, h⟩
  · rw [systemCall, h] at hcall
    cases hcall
    have hF : Fresh a p f := ⟨hA.heap, hA.bound, hget p ▸ hA.absent, fun q h1 h2 => hget q ▸ hA.first q h1 h2, hA.even,
      hW₁.phys ▸ hA.free⟩
    refine .inl ⟨p, f, rfl, hF, ?_⟩
    refine hW₁.setMem (funext fun g => ?_) (funext fun s => funext fun q => ?_) rfl ?_
    · simp [Mm.withPage, useAll, hW₁.phys]
    · have hf : f % 2 ^ 20 = f := userPte_pbase hA.even.2.1
      rw [Mm.withPage, setPte_table, setPhys_table, hW₁.table, hT, userPte, hf]
    · have h := hW.first
      simp only [useAll]
      split
      · exact frameUsed_ne_free
      · exact h
  · rw [systemCall, h] at hcall
    cases hcall
    refine .inr ⟨rfl, fun hc => hn ?_⟩
    unfold HasRoom
    simp only [hget, hW₁.phys]
    exact hc

/-- A step of `sys_dealloc` on a mapped heap page. -/
theorem dealloc_step_ret (hW : WF k a) (hs : Step k (.sysenter (.dealloc addr) u b) o k')
    (hm : a.Mapped (addr.toNat / pageSize)) : o.ret = some 0 ∧ WF k' (a.unmap (addr.toNat / pageSize)) := by
  obtain ⟨k₁, hW₁, -, hcall⟩ := hs.entered hW
  rcases deallocK_cases hW₁ (addr.toNat / pageSize) with ⟨hn, -⟩ | ⟨-, k₂, h, hW₂, -⟩
  · exact absurd hm hn
  · rw [systemCall, sysDealloc, h] at hcall
    cases hcall
    exact ⟨rfl, hW₂⟩

/-- **Other calls leave an allocated page as it is.** -/
theorem path_keeps_page (hp : Path (kernelSystem M) k tr k') (hW : WF k a) (hT : a.table T p = userPte f)
    (hf : f < totalPages) (h0 : f ≠ 0) (hL : ∀ x ∈ tr, LeavesPage T p x) :
    ∃ a', WF k' a' ∧ a'.table T p = userPte f := by
  refine hp.induct (P := fun tr k' => (∀ x ∈ tr, LeavesPage T p x) → ∃ a', WF k' a' ∧ a'.table T p = userPte f)
    (fun _ => ⟨a, hW, hT⟩) ?_ hL
  intro tr k₁ e o k₂ _ ih hs hL
  obtain ⟨a₁, hW₁, hT₁⟩ := ih fun x hx => hL x (List.mem_cons_of_mem _ hx)
  have hx := hL _ List.mem_cons_self
  obtain ⟨a₂, h, hW₂⟩ := hs.refines hW₁
  refine ⟨a₂, hW₂, ?_⟩
  rw [← hT₁]
  rcases h.memory with ⟨-, hS⟩ | h
  · rw [hS.table]
  cases h with
  | alloc hA =>
    cases hA with
    | noPage => rfl
    | noFrame => rfl
    | page q g _ _ hq =>
      refine if_neg ?_
      rintro ⟨rfl, rfl⟩
      rw [hT₁, userPte_pbase hf] at hq
      exact h0 hq
  | deallocBad => rfl
  | @dealloc _ _ addr hm =>
    refine if_neg ?_
    rintro ⟨rfl, h1, h2⟩
    have hne : getPT k₁ k₁.current = a₁.tab → addr.toNat / pageSize ≠ p := hx
    exact hne hW₁.getPT_current (by omega)
  | _ => exact absurd hx (by simp [LeavesPage, Event.isMemory])

/-- **Heap page calls.** In every reachable state: `sys_alloc` succeeds exactly when there are a
heap page without a frame and a free frame, and then puts such a frame at the first such page;
`sys_dealloc` succeeds exactly on the mapped heap pages, and then takes page and frame back; neither
changes anything else. And an address that `sys_alloc` returned, given back at once or after other
heap calls that leave its page alone, by whichever tasks, leaves no trace of the allocation. -/
theorem heap_calls (hr : KRun M tr k) :
    (HasRoom k → ∃ p f, Available k p f ∧ 0 ≤ (BitVec.ofNat 32 (p * pageSize)).toInt ∧
      sysAlloc k = (BitVec.ofNat 32 (p * pageSize), k.setMm (k.mm.withPage (getPT k k.current) p f))) ∧
    (¬ HasRoom k → sysAlloc k = (-enomem, k)) ∧
    (∀ addr : Word, HeapMapped k (addr.toNat / pageSize) →
      sysDealloc k addr = (0, k.setMm (k.mm.withoutPage (getPT k k.current) (addr.toNat / pageSize)))) ∧
    (∀ addr : Word, ¬ HeapMapped k (addr.toNat / pageSize) → ∃ v, BitVec.toInt v < 0 ∧ sysDealloc k addr = (v, k)) ∧
    ∀ u b o k₁ addr tr' k₂ u' b' o' k₃, Step k (.sysenter .alloc u b) o k₁ → o.ret = some addr → 0 ≤ addr.toInt →
      Path (kernelSystem M) k₁ tr' k₂ → (∀ x ∈ tr', LeavesPage (getPT k k.current) (addr.toNat / pageSize) x) →
      getPT k₂ k₂.current = getPT k k.current → Step k₂ (.sysenter (.dealloc addr) u' b') o' k₃ →
      o'.ret = some 0 ∧ Undone k k₁ k₂ k₃ := by
  refine ⟨fun h => ?_, fun h => ?_, fun addr h => sysDealloc_mapped hr h, fun addr h => sysDealloc_bad h, ?_⟩
  · rcases sysAlloc_cases k with ⟨p, f, hA, hcall⟩ | ⟨hn, -⟩
    · exact ⟨p, f, hA, (page_toInt hA.bound).1, hcall⟩
    · exact absurd h hn
  · rcases sysAlloc_cases k with ⟨p, f, hA, -⟩ | ⟨-, hcall⟩
    · exact absurd hA.room h
    · exact hcall
  intro u b o k₁ addr tr' k₂ u' b' o' k₃ hs hret hok hp hL hsame hs'
  obtain ⟨a, hW, hO, -⟩ := run_owned hr
  -- the address is that of the page `alloc` has mapped
  obtain ⟨p, f, rfl, hF, hW₁⟩ : ∃ p f, addr = BitVec.ofNat 32 (p * pageSize) ∧ Fresh a p f ∧ WF k₁ (a.mapped p f) := by
    rcases alloc_step_ret hW hs with ⟨p, f, h, hF, hW₁⟩ | ⟨h, -⟩
    · exact ⟨p, f, Option.some.inj (hret.symm.trans h), hF, hW₁⟩
    · have hneg : BitVec.toInt (-enomem) < 0 := by decide
      rw [← Option.some.inj (h.symm.trans hret)] at hok
      exact absurd hok (not_le.2 hneg)
  have hpage := (page_toInt hF.bound).2
  have hT : getPT k k.current = a.tab := hW.getPT_current
  rw [hT, hpage] at hL
  have h256 : f ≠ numPagKernel := by
    rintro rfl
    exact hW.first hF.free
  have hfree : Freeable f := ⟨lt_of_le_of_ne hF.even.1 (Ne.symm h256), hF.even.2.1⟩
  have h0 : f ≠ 0 := by
    have := hfree.1
    omega
  -- in between the entry of the page stays as `alloc` left it
  obtain ⟨a₂, hW₂, hT₂⟩ := path_keeps_page hp hW₁ (a.mapped_page p f) hF.even.2.1 h0 hL
  have htab : a₂.tab = a.tab := by
    rw [← hT, ← hsame, hW₂.current]
    exact hW₂.getPT.symm
  have hpb : (a₂.table a₂.tab p).pbaseAddr = f := by
    rw [htab]
    exact (congrArg Pte.pbaseAddr hT₂).trans (userPte_pbase hF.even.2.1)
  have hm : a₂.Mapped p := ⟨hF.heap, hF.bound, hpb ▸ h0⟩
  obtain ⟨hret', hW₃⟩ := dealloc_step_ret hW₂ hs' (by rw [hpage]; exact hm)
  rw [hpage] at hW₃
  -- the entry was empty
  have hempty : a.table a.tab p = {} := by
    have hd : pagLogInitData ≤ p := by
      have := hF.heap
      simp at this ⊢
      omega
    refine hO.empty _ _ hd ?_
    rw [← Bool.not_eq_true, hO.present_iff hd]
    exact fun h => h hF.absent
  -- frames and entries, each at the place of the call and off it
  refine ⟨hret', fun g => ?_, fun s q => ?_⟩
  · rw [hW₃.phys, hW₁.phys, hW₂.phys, hW.phys]
    show freeAll a₂.phys _ g = if useAll a.phys [f] g = a.phys g then _ else _
    by_cases hg : g = f
    · subst hg
      have h1 : useAll a.phys [g] g = frameUsed := if_pos (List.mem_singleton.2 rfl)
      rw [h1, hF.free, if_neg frameUsed_ne_free]
      exact if_pos ⟨hpb, hfree⟩
    · have h1 : useAll a.phys [f] g = a.phys g := if_neg (mt List.mem_singleton.1 hg)
      rw [if_pos h1]
      exact if_neg fun h => hg (h.1.symm.trans hpb)
  · rw [hW₃.table, hW₁.table, hW₂.table, hW.table]
    by_cases hq : s = a.tab ∧ q = p
    · obtain ⟨rfl, rfl⟩ := hq
      have h1 : (a.mapped q f).table a.tab q = userPte f := a.mapped_page q f
      rw [h1, hempty, if_neg (by simp [userPte])]
      exact if_pos ⟨htab.symm, le_rfl, Nat.lt_succ_self _⟩
    · have h1 : (a.mapped p f).table s q = a.table s q := if_neg hq
      rw [if_pos h1]
      refine if_neg fun h => hq ⟨h.1.trans htab, ?_⟩
      have h2 := h.2
      omega

/-- Task 1 allocates a page and gives it back. -/
theorem heap_calls_once : ∃ d t k, KRun aMachine [d, t] k ∧ t.event = .sysenter .alloc someStack 1000 ∧
    d.event = .sysenter (.dealloc (BitVec.ofNat 32 (heapStart * pageSize))) someStack 1000 ∧
    k.mm.physMem = t.before.mm.physMem ∧ k.mm.pagusrTable = t.before.mm.pagusrTable := by
  obtain ⟨k₀, hr₀, hW₀⟩ := boot_run aMachine
  have hR₀ := boot_ready aMachine
  have hroom := boot_canAlloc aMachine
  obtain ⟨o₁, k₁, -, -, hs₁, -⟩ := alloc_step hW₀ hR₀.user hR₀.data hroom 1000
  obtain ⟨p, f, hret, hF, hW₁⟩ := (alloc_step_ret hW₀ hs₁).resolve_right fun h => h.2 hroom
  obtain rfl : p = heapStart := hF.page_eq (by
    rw [boot_tab]
    exact congrArg Pte.pbaseAddr (bootTable_heap le_rfl aMachine.layout))
  have hR₁ := hR₀.mapped hF
  obtain ⟨o₂, k₂, a₂, hs₂, -⟩ := call_step (b := 1000) hW₁ hR₁.user hR₁.data
    (x := .dealloc (BitVec.ofNat 32 (heapStart * pageSize))) fun k' _ => ⟨_, rfl⟩
  have hsame : getPT k₁ k₁.current = getPT k₀ k₀.current := by
    rw [hW₁.current, hW₀.current, hW₁.getPT, hW₀.getPT]
    rfl
  obtain ⟨-, hU⟩ := (heap_calls hr₀).2.2.2.2 _ _ _ _ _ [] _ _ _ _ _ hs₁ hret (page_toInt hF.bound).1 .refl (by simp)
    hsame hs₂
  exact ⟨_, _, k₂, (hr₀.step hs₁).step hs₂, rfl, rfl, hU.at_once⟩

end Zeos
