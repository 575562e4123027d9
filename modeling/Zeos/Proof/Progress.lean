import Zeos.Proof.Frames

/-!
# Calls that come back

When a call succeeds: its user stack is mapped, and what it needs is there.

* `fork_step`, `thread_step`, `exit_step`, `alloc_step`: forks, threads, exits and
  allocations that the kernel completes.
* `boot_run`, `forks_run`: runs from boot on, and runs of forks.
-/

namespace Zeos

open ForLoop LinkHeap Execution

variable {k k' : Kernel} {a a' : AState} {e : Event} {b : ℕ} {c : Slot} {rest : List Node} {m : Mm}
  {dir : Slot} {addr w : Word} {M : Machine}

/-! ### Accesses to memory -/

/-- The four bytes at `addr` lie in present pages. -/
def WordMapped (m : Mm) (dir : Slot) (addr : Word) : Prop :=
  ∀ i < 4, (addr + BitVec.ofNat 32 i).toNat / pageSize < totalPages ∧
    (m.pagusrTable (m.dirPages dir) ((addr + BitVec.ofNat 32 i).toNat / pageSize)).present = true

theorem translate_ok (h1 : addr.toNat / pageSize < totalPages)
    (h2 : (m.pagusrTable (m.dirPages dir) (addr.toNat / pageSize)).present = true) :
    ∃ x, m.translate dir addr = .ok x := ⟨_, if_pos ⟨h1, h2⟩⟩

theorem loadWord_ok (h : WordMapped m dir addr) : ∃ w, m.loadWord dir addr = .ok w := by
  obtain ⟨w, hw, -⟩ := forRangeM_ok (n := 4) (s := (0 : Word)) (I := fun _ _ => True) trivial
    (f := fun w i => do
      let b ← m.loadByte dir (addr + BitVec.ofNat 32 i)
      pure (w ||| b.setWidth 32 <<< (8 * i)))
    fun i w _ hi _ => by
      obtain ⟨x, hx⟩ := translate_ok (h i (by omega)).1 (h i (by omega)).2
      exact ⟨_, bind_ok.2 ⟨_, bind_ok.2 ⟨x, hx, rfl⟩, rfl⟩, trivial⟩
  exact ⟨w, hw⟩

theorem WordMapped.same {m' : Mm} (h : WordMapped m dir addr) (hs : m.SameTables m') :
    WordMapped m' dir addr := by
  intro i hi; rw [hs.table, hs.dirs]; exact h i hi

theorem storeWord_ok (h : WordMapped m dir addr) : ∃ m', m.storeWord dir addr w = .ok m' := by
  obtain ⟨m', hm, -⟩ := forRangeM_ok (n := 4) (s := m) (I := fun _ m' => m.SameTables m') (.refl m)
    (f := fun m i => m.storeByte dir (addr + BitVec.ofNat 32 i) (Mm.byteOf w i))
    fun i m' _ hi hI => by
      have h' := h.same hI i (by omega)
      obtain ⟨x, hx⟩ := translate_ok h'.1 h'.2
      have hst : m'.storeByte dir (addr + BitVec.ofNat 32 i) (Mm.byteOf w i) =
        .ok (m'.setRam x.1 x.2 (Mm.byteOf w i)) := bind_ok.2 ⟨x, hx, rfl⟩
      exact ⟨_, hst, hI.trans (storeByte_same hst)⟩
  exact ⟨m', hm⟩

theorem pushArgs_ok {u f p : Word} (h1 : WordMapped m dir (wordAddr u 1021))
    (h2 : WordMapped m dir (wordAddr u 1022)) (h3 : WordMapped m dir (wordAddr u 1023)) :
    ∃ m', pushArgs m dir u f p = .ok m' := by
  obtain ⟨m₁, hm₁⟩ := storeWord_ok (w := 0) h1
  have hs₁ := storeWord_same hm₁
  obtain ⟨m₂, hm₂⟩ := storeWord_ok (w := f) (h2.same hs₁)
  obtain ⟨m₃, hm₃⟩ := storeWord_ok (w := p) (h3.same (hs₁.trans (storeWord_same hm₂)))
  exact ⟨m₃, bind_ok.2 ⟨m₁, hm₁, bind_ok.2 ⟨m₂, hm₂, hm₃⟩⟩⟩

/-- The words on top of a page are mapped when the page is. -/
theorem wordMapped_page {p i : ℕ} (hp : p < totalPages) (hi : i < 1024)
    (h : (m.pagusrTable (m.dirPages dir) p).present = true) :
    WordMapped m dir (wordAddr (BitVec.ofNat 32 (p * pageSize)) i) := by
  intro j hj
  have hpage : (wordAddr (BitVec.ofNat 32 (p * pageSize)) i + BitVec.ofNat 32 j).toNat / pageSize = p := by
    simp only [wordAddr, BitVec.toNat_add, BitVec.toNat_ofNat, totalPages, pageSize] at *
    omega
  rw [hpage]; exact ⟨hp, h⟩

/-! ### Calls -/

/-- A user stack in the data pages. -/
def someStack : Word := 0x110000

/-- The data and stack pages of table `T` are all present. -/
def HasData (t : Slot → ℕ → Pte) (T : Slot) : Prop :=
  ∀ p, pagLogInitData ≤ p → p < heapStart → (t T p).present = true

/-- The entry of a call whose user stack is mapped. -/
theorem enterCallAt_ok (hW : WF k a) {u : Word} (h : WordMapped k.mm k.cr3 (u + 4)) :
    ∃ k₁, enterCall k u = .ok k₁ ∧ WF k₁ a ∧ (k₁.task k₁.current).userEsp = u := by
  rcases enterCall_cases hW u with ⟨e, he, -⟩ | ⟨k₁, h1, hW₁, hu, -⟩
  · obtain ⟨w, hw⟩ := loadWord_ok h
    rw [enterCall, hw] at he
    cases he
  · exact ⟨k₁, h1, hW₁, hu⟩

theorem someStack_mapped (hW : WF k a) (hd : HasData a.table a.tab) : WordMapped k.mm k.cr3 (someStack + 4) := by
  intro i hi
  have hpage : ∀ i < 4, (someStack + 4 + BitVec.ofNat 32 i).toNat / pageSize = 272 := by decide
  rw [hpage i hi, hW.dirs, hW.table, hW.cr3]
  exact ⟨by decide, hd _ (by decide) (by decide)⟩

theorem enterCall_ok (hW : WF k a) (hd : HasData a.table a.tab) :
    ∃ k₁, enterCall k someStack = .ok k₁ ∧ WF k₁ a := by
  obtain ⟨k₁, h, hW₁, -⟩ := enterCallAt_ok hW (someStack_mapped hW hd)
  exact ⟨k₁, h, hW₁⟩

/-- A call that comes back is a step. -/
theorem callAt_step (hW : WF k a) (hc : a.current ≠ a.idle) {u : Word} (hu : WordMapped k.mm k.cr3 (u + 4))
    {x : Call} (h : ∀ k₁, WF k₁ a → (k₁.task k₁.current).userEsp = u → ∃ r, systemCall k₁ b x = .ok r) :
    ∃ o k' a', Step k (.sysenter x u b) o k' ∧ AStep a (.sysenter x u b) o.switch a' ∧ WF k' a' := by
  obtain ⟨k₁, h1, hW₁, hu₁⟩ := enterCallAt_ok hW hu
  obtain ⟨⟨o, k'⟩, h2⟩ := h k₁ hW₁ hu₁
  have hs : Step k (.sysenter x u b) o k' := by
    refine ⟨fun _ => by rw [hW.current, hW.idle]; exact hc, ?_⟩
    simp only [step, systemCallHandler]
    exact bind_ok.2 ⟨k₁, h1, h2⟩
  obtain ⟨a', h3, hW'⟩ := Step.refines hW hs
  exact ⟨o, k', a', hs, h3, hW'⟩

theorem call_step (hW : WF k a) (hc : a.current ≠ a.idle) (hd : HasData a.table a.tab) {x : Call}
    (h : ∀ k₁, WF k₁ a → ∃ r, systemCall k₁ b x = .ok r) :
    ∃ o k' a', Step k (.sysenter x someStack b) o k' ∧ AStep a (.sysenter x someStack b) o.switch a' ∧
      WF k' a' :=
  callAt_step hW hc (someStack_mapped hW hd) fun k₁ hW₁ _ => h k₁ hW₁

theorem fork_step (hW : WF k a) (hc : a.current ≠ a.idle) (hd : HasData a.table a.tab)
    (hq : a.queue .freequeue = .task c :: rest) (hf : numPagData ≤ freeFrames a.phys) (b : ℕ) :
    ∃ o k' fs, Step k (.sysenter .fork someStack b) o k' ∧ WF k' (a.forkOk c rest b fs) ∧
      fs.length = numPagData ∧ fs.Nodup ∧ ∀ f ∈ fs, IsEven f ∧ a.phys f = frameFree := by
  have hok : ∀ k₁, WF k₁ a → ∃ r, systemCall k₁ b .fork = .ok r := by
    intro k₁ hW₁
    rcases free_cases hW₁ with ⟨hq', -⟩ | ⟨c', rest', hq', hE⟩
    · rw [hq] at hq'; cases hq'
    rw [hq] at hq'; cases hq'
    obtain ⟨k₂, hC, hcall⟩ := sysFork_eq (b := b) hW₁ hq hE
    have hne := free_ne hW₁ hq
    obtain ⟨hPT, hDIR⟩ := hC.tables hW₁ hne
    rcases forkData_cases k₁.mm c with ⟨fs, m, hl, -, hg, hD⟩ | ⟨fs, m, -, hfree, -, -⟩
    · have hT : getPT (k₂.setMm m) (k₂.setMm m).current = a.tab := by
        rw [← hDIR, getPT, Kernel.setMm, hg.dirs, hW₁.dirs]; rfl
      -- the parent's data pages are present, be it the table that `forkData` filled or not
      have hpres : ∀ p, pagLogInitData ≤ p → p < heapStart →
          ((forkSystem m c a.tab).pagusrTable a.tab p).present = true := by
        intro p h1 h2
        rw [forkSystem_table, if_neg (by omega), hg.table]
        split
        · rfl
        · rw [hW₁.table]; exact hd p h1 h2
      obtain ⟨m₂, hm₂⟩ : ∃ m₂, forkCopy (forkSystem m c a.tab) a.tab c a.tab = .ok m₂ := forkCopy_ok
        (by rw [(forkSystem_rest _ _).2, hg.dirs, hW₁.dirs]; rfl) hpres
      obtain ⟨h₂, h2, -⟩ := hC.queue hne Heads.ready
      have hcr : (k₂.setMm m).cr3 = a.tab := hC.cr3.trans hW₁.cr3
      have hres : ∃ r, sysFork k₁ b = .ok r := by
        rw [hcall, forkPages_ok (by rw [hPT, hC.mm]; exact hD), hPT, forkImage_eq, hT, hcr,
          show (k₂.setMm m).mm = m from rfl, hm₂]
        exact ⟨_, bind_ok.2 ⟨_, rfl, bind_ok.2 ⟨h₂, h2, rfl⟩⟩⟩
      obtain ⟨r, hr⟩ := hres
      exact ⟨returning r, by rw [systemCall, hr]; rfl⟩
    · rw [hW₁.phys] at hfree; omega
  obtain ⟨o, k', a', hs, h, hW'⟩ := call_step hW hc hd hok
  generalize o.switch = sw at h
  cases h with
  | noop he => cases he
  | forkNone h => rw [hq] at h; cases h
  | forkFail _ h => omega
  | forkOk hq' _ hl hn hfs =>
    rw [hq] at hq'; cases hq'
    exact ⟨o, k', _, hs, hW', hl, hn, hfs⟩

/-- There is a heap page without a frame in the current task's table, and a free frame. -/
def CanAlloc (a : AState) : Prop :=
  (∃ p, heapStart ≤ p ∧ p < totalPages ∧ (a.table a.tab p).pbaseAddr = 0) ∧
    ∃ f, IsEven f ∧ a.phys f = frameFree

/-- The abstract state with frame `f` at page `p` of the current task's table. -/
def AState.mapped (a : AState) (p f : ℕ) : AState :=
  { a with
    phys := useAll a.phys [f]
    table := fun s q => if s = a.tab ∧ q = p then userPte f else a.table s q }

theorem AState.mapped_page (a : AState) (p f : ℕ) : (a.mapped p f).table (a.mapped p f).tab p = userPte f :=
  if_pos ⟨rfl, rfl⟩

/-- The page and the frame of a successful allocation. -/
structure Fresh (a : AState) (p f : ℕ) : Prop where
  heap : heapStart ≤ p
  bound : p < totalPages
  absent : (a.table a.tab p).pbaseAddr = 0
  first : ∀ q, heapStart ≤ q → q < p → (a.table a.tab q).pbaseAddr ≠ 0
  even : IsEven f
  free : a.phys f = frameFree

theorem CanAlloc.alloc (h : CanAlloc a) (ha : a.Alloc a') : ∃ p f, a' = a.mapped p f ∧ Fresh a p f := by
  obtain ⟨⟨q, h1, h2, h3⟩, g, he, hg⟩ := h
  cases ha with
  | noPage hn => exact absurd h3 (hn q h1 h2)
  | noFrame hn => exact absurd hg (hn g he)
  | page p f h1 h2 h3 h4 h5 h6 => exact ⟨p, f, rfl, h1, h2, h3, h4, h5, h6⟩

theorem alloc_step (hW : WF k a) (hc : a.current ≠ a.idle) (hd : HasData a.table a.tab)
    (hA : CanAlloc a) (b : ℕ) :
    ∃ o k' p f, Step k (.sysenter .alloc someStack b) o k' ∧ WF k' (a.mapped p f) ∧ Fresh a p f := by
  obtain ⟨o, k', a', hs, h, hW'⟩ := call_step (b := b) hW hc hd (x := .alloc) fun k₁ _ => ⟨_, rfl⟩
  generalize o.switch = sw at h
  cases h with
  | noop he => cases he
  | alloc h =>
    obtain ⟨p, f, rfl, hF⟩ := hA.alloc h
    exact ⟨o, k', p, f, hs, hW', hF⟩

theorem thread_step (hW : WF k a) (hc : a.current ≠ a.idle) (hd : HasData a.table a.tab)
    (hq : a.queue .freequeue = .task c :: rest) (hA : CanAlloc a) (w fn arg : Word) (b : ℕ) :
    ∃ o k' p f, Step k (.sysenter (.createthread w fn arg) someStack b) o k' ∧
      WF k' ((a.mapped p f).spawn c rest (a.pid a.current) a.tab (some (c, kernelStackSize - 18))) ∧
      Fresh a p f := by
  have hok : ∀ k₁, WF k₁ a → ∃ r, systemCall k₁ b (.createthread w fn arg) = .ok r := by
    intro k₁ hW₁
    rcases free_cases hW₁ with ⟨hq', -⟩ | ⟨c', rest', hq', hE⟩
    · rw [hq] at hq'; cases hq'
    rw [hq] at hq'; cases hq'
    obtain ⟨k₂, hC, hcall⟩ := sysCreatethread_eq hW₁ hq hE w fn arg
    have hne := free_ne hW₁ hq
    have hPT : getPT k₂ k₂.current = a.tab := hC.getPT_current hW₁ hne
    obtain ⟨stack, m, hAl, hm⟩ := allocK_cases k₂
    rw [hPT, hC.mm] at hm
    obtain ⟨⟨q, h1, h2, h3⟩, g, he, hg⟩ := hA
    have hpush : ∃ m', pushArgs m k₂.cr3 stack fn arg = .ok m' := by
      cases hm with
      | noPage hn => exact absurd (by rw [Mm.getFrame, hW₁.table]; exact h3) (hn q h1 h2)
      | noFrame hn => exact absurd (by rw [hW₁.phys]; exact hg) (hn g he)
      | page p f h1 h2 h3 h4 h5 h6 =>
        have hp : (((k₁.mm.setPhys f frameUsed).setSsPag a.tab p f).pagusrTable
            (((k₁.mm.setPhys f frameUsed).setSsPag a.tab p f).dirPages k₂.cr3) p).present = true := by
          have hcr : k₂.cr3 = a.tab := hC.cr3.trans hW₁.cr3
          rw [setSsPag_eq, setPte_dirs, setPhys_dirs, hW₁.dirs, hcr, setPte_table, if_pos ⟨rfl, rfl⟩]
          rfl
        exact pushArgs_ok (wordMapped_page h2 (by decide) hp) (wordMapped_page h2 (by decide) hp)
          (wordMapped_page h2 (by decide) hp)
    obtain ⟨m', hm'⟩ := hpush
    obtain ⟨h₂, h2, -⟩ := hC.queue hne Heads.ready
    have hres : ∃ r, sysCreatethread k₁ w fn arg = .ok r := by
      rw [hcall, hAl]
      exact ⟨_, bind_ok.2 ⟨m', hm', bind_ok.2 ⟨h₂, h2, rfl⟩⟩⟩
    obtain ⟨r, hr⟩ := hres
    exact ⟨returning r, by rw [systemCall, hr]; rfl⟩
  obtain ⟨o, k', a', hs, h, hW'⟩ := call_step hW hc hd hok
  generalize o.switch = sw at h
  cases h with
  | noop he => cases he
  | threadNone h => rw [hq] at h; cases h
  | thread hq' h =>
    rw [hq] at hq'; cases hq'
    obtain ⟨p, f, rfl, hF⟩ := hA.alloc h
    exact ⟨o, k', p, f, hs, hW', hF⟩

/-! ### Who is next -/

theorem next_iff (h : s ≠ a.idle) : a.next = s ↔ (a.queue .readyqueue).head? = some (.task s) := by
  unfold AState.next
  split
  · rename_i t xs hq
    rw [hq]
    simp
  · rename_i hq
    refine iff_of_false (Ne.symm h) fun hh => ?_
    obtain ⟨xs, hx⟩ := List.head?_eq_some_iff.1 hh
    exact hq s xs hx

theorem WF.not_ready (hW : WF k a) : .task a.current ∉ a.queue .readyqueue := fun h =>
  hW.queues.not_off Heads.ready h (.inl rfl)

theorem next_ne (a₁ : AState) (hc : a.current ≠ a.idle) (hi : a₁.idle = a.idle)
    (hq : (a₁.queue .readyqueue).head? ≠ some (.task a.current)) : a₁.next ≠ a.current := by
  intro h
  exact hq ((next_iff (by rw [hi]; exact hc)).1 h)

theorem WF.next_other (hW : WF k a) (hc : a.current ≠ a.idle) : a.next ≠ a.current :=
  next_ne a hc rfl fun h => hW.not_ready (List.mem_of_mem_head? (by rw [h]; rfl))

theorem not_stale (h : a.next ≠ a.current) (b : ℕ) : ¬ (a.switch b).Stale := fun hs => h hs.1

/-- `sched_next_rr` comes back when the next is a task that has left the CPU before, or the same at the same frame. -/
theorem schedNextRr_ok (hS : Shape k a fun s => s = a.idle)
    (hf : ∀ n xs, a.queue .readyqueue ≠ .blocked n :: xs) (he : a.esp a.next ≠ none) {b : ℕ}
    (hs : ¬ (a.switch b).Stale) (r : Resume) : ∃ x, schedNextRr k b r = .ok x := by
  rcases schedNextRr_cases hS b r with ⟨n, xs, hq, -⟩ | ⟨hn, -⟩ | ⟨-, -, v, k', h, -⟩
  · exact absurd hq (hf n xs)
  · exact absurd hn (not_or.2 ⟨he, hs⟩)
  · exact ⟨_, h⟩

/-- The first of `readyqueue`, or idle, has left the CPU before. -/
theorem WF.next_ran (hW : WF k a) (hc : a.current ≠ a.idle) {t : Slot} {xs : List Node}
    (hr : a.queue .readyqueue = [] ∨ a.queue .readyqueue = .task t :: xs) : a.esp a.next ≠ none := by
  rcases hr with hr | hr
  · rw [show a.next = a.idle by simp [AState.next, hr]]
    exact hW.ran _ hW.idle_live (Ne.symm hc)
  · have ht : .task t ∈ a.queue .readyqueue := by rw [hr]; exact List.mem_cons_self
    rw [show a.next = t by simp [AState.next, hr]]
    exact hW.ran _ (hW.toShape.mem_live Heads.ready (by simp) ht) fun h => hW.queues.not_off Heads.ready ht (.inl h)

theorem exit_step (hW : WF k a) (hc : a.current ≠ a.idle) (hd : HasData a.table a.tab)
    {t : Slot} {xs : List Node} (hr : a.queue .readyqueue = [] ∨ a.queue .readyqueue = .task t :: xs) (b : ℕ) :
    ∃ o k', Step k (.sysenter .exit someStack b) o k' ∧ WF k' (a.exit b) := by
  have hok : ∀ k₁, WF k₁ a → ∃ r, systemCall k₁ b .exit = .ok r := by
    intro k₁ hW₁
    obtain ⟨h, hcall, hS⟩ := sysExit_eq hW₁ hc b
    have hq : ∀ (p : Slot → Word), ({ a.release with pid := p }.push .freequeue a.current).queue
        .readyqueue = a.queue .readyqueue := fun p => by simp [AState.push, AState.put, AState.release]
    have hnext : ∀ (p : Slot → Word), ({ a.release with pid := p }.push .freequeue a.current).next = a.next :=
      fun p => by simp only [AState.next, hq]; rfl
    rw [systemCall, hcall]
    refine schedNextRr_ok hS (fun n ys hn => ?_) ?_ (not_stale ?_ b) _
    · rw [hq] at hn
      rcases hr with hr | hr <;> rw [hr] at hn <;> cases hn
    · rw [hnext]
      exact hW.next_ran hc hr
    · rw [hnext]
      exact hW.next_other hc
  obtain ⟨o, k', a', hs, h, hW'⟩ := call_step hW hc hd hok
  generalize o.switch = sw at h
  cases h with
  | noop he => cases he
  | exit => exact ⟨o, k', hs, hW'⟩

/-- The words of a page are on it. -/
theorem wordAddr_page {p i : ℕ} (hp : p < totalPages) (hi : i < 1024) :
    (wordAddr (BitVec.ofNat 32 (p * pageSize)) i).toNat / pageSize = p := by
  simp only [wordAddr, BitVec.toNat_add, BitVec.toNat_ofNat, totalPages, pageSize] at *
  omega

theorem wordAddr_succ (u : Word) (i : ℕ) : wordAddr u i + 4 = wordAddr u (i + 1) := by
  rw [wordAddr, wordAddr, BitVec.add_assoc, Nat.mul_succ, BitVec.ofNat_add]
  rfl

/-- A thread ends whose user stack is at word `i` of the mapped heap page `p`. -/
theorem terminate_step (hW : WF k a) (hc : a.current ≠ a.idle) {p i : ℕ} (hm : a.Mapped p)
    (hp : (a.table a.tab p).present = true) (hi : i < 1023) {t : Slot} {xs : List Node}
    (hr : a.queue .readyqueue = [] ∨ a.queue .readyqueue = .task t :: xs) (b : ℕ) :
    ∃ o k', Step k (.sysenter .terminatethread (wordAddr (BitVec.ofNat 32 (p * pageSize)) i) b) o k' ∧
      WF k' ((a.unmap p).leave b) := by
  have hpage := wordAddr_page (i := i) hm.2.1 (by omega)
  have hu : WordMapped k.mm k.cr3 (wordAddr (BitVec.ofNat 32 (p * pageSize)) i + 4) := by
    rw [wordAddr_succ]
    refine wordMapped_page hm.2.1 (by omega) ?_
    rw [hW.dirs, hW.table, hW.cr3]
    exact hp
  have hok : ∀ k₁, WF k₁ a → (k₁.task k₁.current).userEsp = wordAddr (BitVec.ofNat 32 (p * pageSize)) i →
      ∃ r, systemCall k₁ b .terminatethread = .ok r := by
    intro k₁ hW₁ hu₁
    rcases deallocK_cases hW₁ p with ⟨hm', -⟩ | ⟨-, k₂, h, hW₂, -⟩
    · exact absurd hm hm'
    obtain ⟨h', h1, hS⟩ := hW₂.toShape.pushCurrent hc Heads.free
    have hq : ((a.unmap p).push .freequeue (a.unmap p).current).queue .readyqueue = a.queue .readyqueue := by
      simp [AState.push, AState.put, AState.unmap]
    have hnext : ((a.unmap p).push .freequeue (a.unmap p).current).next = a.next := by
      simp only [AState.next, hq]
      rfl
    have hcall : sysTerminatethread k₁ b = schedNextRr (k₂.setLinks h') b .sysTerminatethread := by
      simp only [sysTerminatethread, hu₁, hpage, h, bind, Except.bind]
      rw [if_neg (by decide), h1]
    rw [systemCall, hcall]
    refine schedNextRr_ok hS (fun n ys hn => ?_) ?_ (not_stale ?_ b) _
    · have hn : a.queue .readyqueue = .blocked n :: ys := hq.symm.trans hn
      rcases hr with hr | hr <;> rw [hr] at hn <;> cases hn
    · have h : a.esp ((a.unmap p).push .freequeue (a.unmap p).current).next ≠ none := by
        rw [hnext]
        exact hW.next_ran hc hr
      exact h
    · rw [hnext]
      exact hW.next_other hc
  obtain ⟨o, k', a', hs, h, hW'⟩ := callAt_step hW hc hu hok
  generalize o.switch = sw at h
  cases h with
  | noop he => cases he
  | terminateBad hm' =>
    rw [hpage] at hm'
    exact absurd hm hm'
  | terminate =>
    rw [hpage] at hW'
    exact ⟨o, k', hs, hW'⟩

/-- `force_task_switch` comes back to another task. -/
theorem forceTaskSwitch_ok (hW : WF k a) (hc : a.current ≠ a.idle) {t : Slot} {xs : List Node}
    (hr : a.queue .readyqueue = .task t :: xs) (b : ℕ) (r : Resume) : ∃ x, forceTaskSwitch k b r = .ok x := by
  set a₁ := a.push .readyqueue a.current
  have hq : a₁.queue .readyqueue = .task t :: (xs ++ [.task a.current]) := by simp [a₁, AState.push, AState.put, hr]
  have hnext : a₁.next = a.next := by simp only [AState.next, hq, hr]
  obtain ⟨k₂, h1, h2⟩ := forceTaskSwitch_eq hW hc b r
  rw [h1]
  refine schedNextRr_ok h2 (fun m ys hn => ?_) ?_ (not_stale ?_ b) _
  · cases hq.symm.trans hn
  · show a₁.esp a₁.next ≠ none
    rw [hnext]
    exact hW.next_ran hc (.inr hr)
  · rw [hnext]
    exact hW.next_other hc

/-- A yield comes back to another task. -/
theorem yield_step (hW : WF k a) (hc : a.current ≠ a.idle) (hd : HasData a.table a.tab)
    {t : Slot} {xs : List Node} (hr : a.queue .readyqueue = .task t :: xs) (b : ℕ) :
    ∃ o k', Step k (.sysenter .yield someStack b) o k' ∧ o.switch = some ((a.push .readyqueue a.current).switch b) ∧
      WF k' ((a.push .readyqueue a.current).dispatch b) := by
  have hok : ∀ k₁, WF k₁ a → ∃ r, systemCall k₁ b .yield = .ok r := fun k₁ hW₁ =>
    forceTaskSwitch_ok hW₁ hc hr b .sysYield
  obtain ⟨o, k', a', hs, h, hW'⟩ := call_step hW hc hd hok
  generalize hsw : o.switch = sw at h
  cases h with
  | noop he => cases he
  | yield => exact ⟨o, k', hs, hsw, hW'⟩

/-- A wait in front of its semaphore's head comes back to its own task, if that has left the CPU at the same place. -/
theorem waitWild_step (hW : WF k a) (hc : a.current ≠ a.idle) (hd : HasData a.table a.tab) {i : Word} {n : Sem}
    (hv : validSem a.sem i false = some n) (hneg : ((a.sem n).counter - 1).toInt < 0) {zs : List Node}
    (hq : a.queue .readyqueue = .blocked n :: zs) {b : ℕ} (he : a.esp a.current = some (a.current, b)) :
    ∃ o k', Step k (.sysenter (.semWait i) someStack b) o k' ∧
      o.switch = some (((a.count n (-1)).put .readyqueue (.task a.current :: .blocked n :: zs)).switch b) ∧
      WF k' (((a.count n (-1)).put .readyqueue (.task a.current :: .blocked n :: zs)).dispatch b) := by
  have hok : ∀ k₁, WF k₁ a → ∃ r, systemCall k₁ b (.semWait i) = .ok r := by
    intro k₁ hW₁
    obtain ⟨h', h1, h2⟩ := semWait_wild (b := b) hW₁ hc hv hneg (show _ = [] ++ _ from hq)
    rw [systemCall, h1]
    refine schedNextRr_ok h2 (fun m ys hn => ?_) ?_ (fun hst => hst.2 he) _
    · simp [AState.put] at hn
    · show a.esp a.current ≠ none
      rw [he]
      exact Option.some_ne_none _
  obtain ⟨o, k', a', hs, h, hW'⟩ := call_step hW hc hd hok
  have hnd := (List.nodup_cons.1 (hW.queues.nodup Heads.ready)).2
  generalize hsw : o.switch = sw at h
  cases h.called hv with
  | waitPass _ hp => omega
  | waitBlock _ _ hw =>
    refine absurd ?_ hw
    rw [AState.Wild, hq]
    exact List.mem_cons_self
  | @waitWild _ _ _ ys zs' _ _ hq' =>
    -- the head is on `readyqueue` once
    have hys : ys = [] ∧ zs' = zs := by
      rw [hq] at hq' hnd
      cases ys with
      | nil => exact ⟨rfl, (List.cons.inj hq').2.symm⟩
      | cons y ys =>
        obtain ⟨-, h2⟩ := List.cons.inj hq'
        rw [h2] at hnd
        simp at hnd
    obtain ⟨rfl, rfl⟩ := hys
    exact ⟨o, k', hs, hsw, hW'⟩

/-- A wait that blocks comes back to another task. -/
theorem waitBlock_step (hW : WF k a) (hc : a.current ≠ a.idle) (hd : HasData a.table a.tab) {i : Word} {n : Sem}
    (hv : validSem a.sem i false = some n) (hneg : ((a.sem n).counter - 1).toInt < 0) (hw : ¬ a.Wild n)
    {t : Slot} {xs : List Node} (hr : a.queue .readyqueue = [] ∨ a.queue .readyqueue = .task t :: xs) (b : ℕ) :
    ∃ o k', Step k (.sysenter (.semWait i) someStack b) o k' ∧
      o.switch = some (((a.count n (-1)).push (.blocked n) a.current).switch b) ∧
      WF k' (((a.count n (-1)).push (.blocked n) a.current).dispatch b) := by
  set a₁ := (a.count n (-1)).push (.blocked n) a.current
  have hq : a₁.queue .readyqueue = a.queue .readyqueue := by
    simp [a₁, AState.push, AState.put, AState.count, AState.setSem]
  have hnext : a₁.next = a.next := by simp only [AState.next, hq]; rfl
  have hok : ∀ k₁, WF k₁ a → ∃ r, systemCall k₁ b (.semWait i) = .ok r := by
    intro k₁ hW₁
    obtain ⟨h', h1, h2⟩ := semWait_blocks (b := b) hW₁ hc hv hneg hw
    rw [systemCall, h1]
    refine schedNextRr_ok h2 (fun m ys hn => ?_) ?_ (not_stale ?_ b) _
    · have hn : a₁.queue .readyqueue = .blocked m :: ys := hn
      rw [hq] at hn
      rcases hr with hr | hr <;> rw [hr] at hn <;> cases hn
    · show a₁.esp a₁.next ≠ none
      rw [hnext]
      exact hW.next_ran hc hr
    · rw [hnext]
      exact hW.next_other hc
  obtain ⟨o, k', a', hs, h, hW'⟩ := call_step hW hc hd hok
  generalize hsw : o.switch = sw at h
  cases h.called hv with
  | waitPass _ hp => omega
  | waitBlock _ => exact ⟨o, k', hs, hsw, hW'⟩
  | waitWild _ _ hq' =>
    refine absurd ?_ hw
    rw [AState.Wild, hq']
    simp

/-! ### Frames to take -/

variable {fs : List ℕ} {p f : ℕ} {tr : KTrace}

theorem freeFrames_useAll (phys : ℕ → Byte) (fs : List ℕ) :
    freeFrames phys ≤ freeFrames (useAll phys fs) + fs.length := by
  have h : ((Finset.range totalPages).filter fun f => IsEven f ∧ phys f = frameFree) ⊆
      ((Finset.range totalPages).filter fun f => IsEven f ∧ useAll phys fs f = frameFree) ∪
        fs.toFinset := by
    intro f hf
    obtain ⟨hr, he, hf⟩ := Finset.mem_filter.1 hf
    by_cases hm : f ∈ fs
    · exact Finset.mem_union_right _ (List.mem_toFinset.2 hm)
    · exact Finset.mem_union_left _ (Finset.mem_filter.2 ⟨hr, he, (if_neg hm).trans hf⟩)
  calc freeFrames phys ≤ _ := Finset.card_le_card h
    _ ≤ freeFrames (useAll phys fs) + fs.toFinset.card := Finset.card_union_le _ _
    _ ≤ freeFrames (useAll phys fs) + fs.length := Nat.add_le_add_left (List.toFinset_card_le fs) _

/-- One frame taken is one free frame less. -/
theorem freeFrames_useOne {phys : ℕ → Byte} (he : IsEven f) (hf : phys f = frameFree) :
    freeFrames (useAll phys [f]) + 1 = freeFrames phys := by
  have hmem : f ∈ (Finset.range totalPages).filter fun f => IsEven f ∧ phys f = frameFree :=
    Finset.mem_filter.2 ⟨Finset.mem_range.2 he.2.1, he, hf⟩
  have herase : ((Finset.range totalPages).filter fun g => IsEven g ∧ useAll phys [f] g = frameFree) =
      ((Finset.range totalPages).filter fun f => IsEven f ∧ phys f = frameFree).erase f := by
    ext g
    rw [Finset.mem_erase, Finset.mem_filter, Finset.mem_filter]
    by_cases hg : g = f
    · subst hg
      simp [useAll, frameUsed_ne_free]
    · simp [useAll, hg]
  rw [freeFrames, herase, Finset.card_erase_add_one hmem, freeFrames]

/-- There are 384 frames for `alloc_frame` to visit. -/
theorem freeFrames_le (phys : ℕ → Byte) : freeFrames phys ≤ 384 := by
  have h : ((Finset.range totalPages).filter fun f => IsEven f ∧ phys f = frameFree) ⊆
      (Finset.range 384).image fun i => numPagKernel + 2 * i := by
    intro f hf
    obtain ⟨-, ⟨h1, h2, h3⟩, -⟩ := Finset.mem_filter.1 hf
    refine Finset.mem_image.2 ⟨(f - numPagKernel) / 2, Finset.mem_range.2 ?_, ?_⟩
    · simp at h1 h2 ⊢
      omega
    · simp at h1 h2 ⊢
      omega
  calc freeFrames phys ≤ _ := Finset.card_le_card h
    _ ≤ (Finset.range 384).card := Finset.card_image_le
    _ = 384 := Finset.card_range 384

theorem exists_free {phys : ℕ → Byte} (h : 0 < freeFrames phys) : ∃ f, IsEven f ∧ phys f = frameFree := by
  obtain ⟨f, hf⟩ := Finset.card_pos.1 h
  exact ⟨f, (Finset.mem_filter.1 hf).2⟩

/-- `main` leaves 356 frames to `alloc_frame`. -/
theorem boot_freeFrames : 356 ≤ freeFrames bootPhys := by
  have h : ((List.range 356).map fun i => codeFrame (28 + i)).length ≤ freeFrames bootPhys := length_le_freeFrames
    (List.Nodup.map (fun i j h => by simp only [codeFrame] at h; omega) List.nodup_range) (fun f hf => by
      obtain ⟨i, hi, rfl⟩ := List.mem_map.1 hf
      have hi := List.mem_range.1 hi
      refine ⟨⟨?_, ?_, ?_⟩, ?_⟩
      · simp only [codeFrame]; omega
      · simp only [codeFrame, totalPages, numPagKernel]; omega
      · simp only [codeFrame, numPagKernel]; omega
      · rw [bootPhys, physAfter, if_neg]; simp [codeFrame]; omega)
  simpa using h

/-! ### Runs -/

/-- A machine to run the kernel on. -/
def aMachine : Machine := ⟨⟨100, by decide, by decide⟩, fun _ => 0, fun _ _ => 0⟩

theorem boot_run (M : Machine) : ∃ k, KRun M [] k ∧ WF k (bootState M) := by
  obtain ⟨k, h, hW⟩ := boot_ok M
  exact ⟨k, .init h, hW⟩

theorem bootTable_data {p : ℕ} (h1 : pagLogInitData ≤ p) (h2 : p < heapStart) (L : Layout) :
    bootTable L 1 p = { pbaseAddr := dataFrame (p - pagLogInitData), user := true, rwBit := true, present := true } := by
  rw [bootTable, if_neg (by omega), if_pos ⟨rfl, h1, h2⟩]

theorem bootTable_heap {s : Slot} {p : ℕ} (h : heapStart ≤ p) (L : Layout) : bootTable L s p = {} := by
  rw [bootTable, if_neg (by simp at h ⊢; omega), if_neg (by omega)]
  exact kernelPte_above (by simp at h ⊢; omega)

/-- A state in which the current task can make any call. -/
structure Ready (a : AState) (frames : ℕ) : Prop where
  user : a.current ≠ a.idle
  data : HasData a.table a.tab
  frames : frames ≤ freeFrames a.phys

theorem boot_ready (M : Machine) : Ready (bootState M) 356 where
  user := by simp [bootState]
  data p h1 h2 := by
    have : (bootState M).tab = 1 := by simp [AState.tab, bootState]
    rw [this]
    exact congrArg Pte.present (bootTable_data h1 h2 M.layout)
  frames := boot_freeFrames

theorem boot_tab (M : Machine) : (bootState M).tab = 1 := by simp [AState.tab, bootState]

theorem Ready.canAlloc {n : ℕ} (h : Ready a (n + 1)) (he : ∃ p, heapStart ≤ p ∧ p < totalPages ∧
    (a.table a.tab p).pbaseAddr = 0) : CanAlloc a := ⟨he, exists_free (by have := h.frames; omega)⟩

theorem boot_canAlloc (M : Machine) : CanAlloc (bootState M) :=
  (boot_ready M).canAlloc (n := 355) ⟨heapStart, le_rfl, by decide, by
    rw [boot_tab]; exact congrArg Pte.pbaseAddr (bootTable_heap le_rfl M.layout)⟩

theorem Ready.mapped {n : ℕ} (h : Ready a (n + 1)) (hF : Fresh a p f) : Ready (a.mapped p f) n where
  user := h.user
  data q h1 h2 := by
    have hne : ¬ q = p := by have := hF.heap; omega
    have : (a.mapped p f).table a.tab q = a.table a.tab q := if_neg fun h => hne h.2
    exact (congrArg Pte.present this).trans (h.data q h1 h2)
  frames := by
    have h1 := h.frames
    have h2 := freeFrames_useAll a.phys [f]
    have h3 : (a.mapped p f).phys = useAll a.phys [f] := rfl
    rw [h3]
    simp only [List.length_singleton] at h2
    omega

theorem Fresh.page_eq (hF : Fresh a p f) (h : (a.table a.tab heapStart).pbaseAddr = 0) : p = heapStart := by
  by_contra hne
  exact hF.first heapStart le_rfl (lt_of_le_of_ne hF.heap (Ne.symm hne)) h

/-- Task 1 is the only one, and exits. -/
theorem boot_exit_step (M : Machine) (b : ℕ) : ∃ k o k', KRun M [] k ∧ WF k (bootState M) ∧
    Step k (.sysenter .exit someStack b) o k' ∧ WF k' ((bootState M).exit b) := by
  obtain ⟨k, hr, hW⟩ := boot_run M
  have hR := boot_ready M
  have hnext : (bootState M).queue .readyqueue = [] ∨ (bootState M).queue .readyqueue = [.task 0] := .inl rfl
  obtain ⟨o, k', hs, hW'⟩ := exit_step hW hR.user hR.data hnext b
  exact ⟨k, o, k', hr, hW, hs, hW'⟩

/-- One allocation of task 1: its first heap page. -/
theorem alloc_run (M : Machine) (b : ℕ) : ∃ t k f, KRun M [t] k ∧ t.event = .sysenter .alloc someStack b ∧
    WF k ((bootState M).mapped heapStart f) ∧ Fresh (bootState M) heapStart f ∧
    Ready ((bootState M).mapped heapStart f) 355 := by
  obtain ⟨k, hr, hW⟩ := boot_run M
  have hR := boot_ready M
  obtain ⟨o, k', p, f, hs, hW', hF⟩ := alloc_step hW hR.user hR.data (boot_canAlloc M) b
  obtain rfl := hF.page_eq (by rw [boot_tab]; exact congrArg Pte.pbaseAddr (bootTable_heap le_rfl M.layout))
  exact ⟨_, k', f, hr.step hs, rfl, hW', hF, hR.mapped hF⟩

/-- A new task leaves the current one as ready as it was. -/
theorem Ready.spawn {n : ℕ} (h : Ready a n) (hc : c ≠ a.current) (pid : Word) (d : Slot) (esp : StackPtr) :
    Ready (a.spawn c rest pid d esp) n where
  user := h.user
  data := by
    have ht : (a.spawn c rest pid d esp).tab = a.tab := by
      simp [AState.tab, AState.spawn, AState.push, AState.put, Ne.symm hc]
    rw [ht]; exact h.data
  frames := h.frames

/-- Task 1 has made thread 2, with a stack on the first heap page, in frame `f`. -/
structure FirstThread (a : AState) (f : ℕ) : Prop where
  ready : Ready a 355
  current : a.current = 1
  idle : a.idle = 0
  queue : a.queue .readyqueue = [.task 2]
  free : a.queue .freequeue = bootFree.tail
  creator : a.dir 1 = 1
  dir : a.dir 2 = 1
  pid : a.pid 2 = 1
  even : IsEven f
  heap : ∀ q, heapStart ≤ q → a.table 1 q = if q = heapStart then userPte f else {}

theorem FirstThread.tab (h : FirstThread a f) : a.tab = 1 := by rw [AState.tab, h.current, h.creator]

/-- One thread made by task 1. -/
theorem thread_run (M : Machine) (b : ℕ) : ∃ t k a f, KRun M [t] k ∧
    t.event = .sysenter (.createthread 0 0 0) someStack b ∧ WF k a ∧ FirstThread a f := by
  obtain ⟨k, hr, hW⟩ := boot_run M
  have hR := boot_ready M
  have hempty : ∀ p, heapStart ≤ p → (bootState M).table 1 p = {} := fun p hp => bootTable_heap hp M.layout
  have hq : (bootState M).queue .freequeue = .task 2 :: bootFree.tail := rfl
  obtain ⟨o, k', p, f, hs, hW', hF⟩ := thread_step hW hR.user hR.data hq (boot_canAlloc M) 0 0 0 b
  obtain rfl : p = heapStart := hF.page_eq (by rw [boot_tab, hempty _ le_rfl])
  have hready : Ready (AState.spawn _ 2 bootFree.tail ((bootState M).pid (bootState M).current) (bootState M).tab
      (some (2, kernelStackSize - 18))) _ := (hR.mapped hF).spawn (show (2 : Slot) ≠ 1 by decide) _ _ _
  refine ⟨_, k', _, f, hr.step hs, rfl, hW', ⟨hready, rfl, rfl, ?_, ?_, rfl, ?_, ?_, hF.even, fun q hq => ?_⟩⟩
  · simp [AState.spawn, AState.push, AState.put, AState.mapped, bootState]
  · simp [AState.spawn, AState.push, AState.put]
  · simp [AState.spawn, boot_tab]
  · simp [AState.spawn, bootState]
  · show (if (1 : Slot) = (bootState M).tab ∧ q = heapStart then userPte f else (bootState M).table 1 q) = _
    rw [boot_tab, hempty q hq]
    exact if_congr (and_iff_right rfl) rfl rfl

/-- The stack page of the thread is mapped. -/
theorem stack_mapped {f : ℕ} (htab : a.tab = 1) (he : IsEven f)
    (h : ∀ q, heapStart ≤ q → a.table 1 q = if q = heapStart then userPte f else {}) :
    a.Mapped heapStart ∧ (a.table a.tab heapStart).present = true := by
  rw [AState.Mapped, htab, h _ le_rfl, if_pos rfl, userPte_pbase he.2.1]
  exact ⟨⟨le_rfl, by decide, Nat.ne_of_gt (lt_of_lt_of_le (by decide) he.1)⟩, rfl⟩

theorem forkTable_data {t : Slot → ℕ → Pte} {T s : Slot} (hd : HasData t T) (hs : s = c ∨ s = T) :
    HasData (forkTable t T c fs) s := by
  intro p h1 h2
  rw [forkTable, if_neg (by omega)]
  by_cases hsc : s = c
  · by_cases h : p < pagLogInitData
    · rw [if_pos ⟨hsc, h⟩]; rfl
    · rw [if_neg fun h' => h h'.2, if_pos ⟨hsc, h2⟩]; rfl
  · rw [if_neg fun h => hsc h.1, if_neg fun h => hsc h.1, hs.resolve_left hsc]
    exact hd p h1 h2

theorem Ready.forkOk {n : ℕ} (h : Ready a (n + numPagData)) (hc : c ≠ a.current) (hl : fs.length = numPagData)
    (b : ℕ) : Ready (a.forkOk c rest b fs) n where
  user := h.user
  data := by
    have ht : (a.forkOk c rest b fs).tab = a.tab := by
      rw [AState.tab, forkOk_dir]; exact if_neg (Ne.symm hc)
    rw [ht]
    exact forkTable_data h.data (.inr rfl)
  frames := by
    have h1 := h.frames
    have h2 := freeFrames_useAll a.phys fs
    have h3 : (a.forkOk c rest b fs).phys = useAll a.phys fs := rfl
    rw [h3]
    omega

/-- **A run that starts with a fork**: the child is in slot 2. -/
theorem fork_run (M : Machine) (b : ℕ) : ∃ k o k' fs, KRun M [] k ∧ WF k (bootState M) ∧
    Step k (.sysenter .fork someStack b) o k' ∧ WF k' ((bootState M).forkOk 2 bootFree.tail b fs) ∧
    fs.length = numPagData ∧ Ready ((bootState M).forkOk 2 bootFree.tail b fs) 336 := by
  obtain ⟨k, hr, hW⟩ := boot_run M
  have hR := boot_ready M
  have hq : (bootState M).queue .freequeue = .task 2 :: bootFree.tail := rfl
  obtain ⟨o, k', fs, hs, hW', hl, -⟩ := fork_step hW hR.user hR.data hq (le_trans (by decide) hR.frames) b
  exact ⟨k, o, k', fs, hr, hW, hs, hW', hl, Ready.forkOk (n := 336) hR (show (2 : Slot) ≠ 1 by decide) hl b⟩

/-- What `n` forks of the current task into the structs `cs` leave as it was. -/
structure Forked (a a' : AState) (cs : List Slot) : Prop where
  current : a'.current = a.current
  idle : a'.idle = a.idle
  dir : ∀ s, s ∉ cs → a'.dir s = a.dir s
  pid : ∀ s, s ∉ cs → a'.pid s = a.pid s
  lastPid : a'.lastPid = a.lastPid + BitVec.ofNat 32 cs.length
  heap : ∀ s p, heapStart ≤ p → a'.table s p = {} ∨ a'.table s p = a.table s p

theorem forkTable_heap {t : Slot → ℕ → Pte} {T s : Slot} {p : ℕ} (hp : heapStart ≤ p) :
    forkTable t T c fs s p = {} ∨ forkTable t T c fs s p = t s p := by
  have h1 : ¬ p < pagLogInitData := by simp at hp ⊢; omega
  rw [forkTable]
  split
  · exact .inl rfl
  · rw [if_neg fun h => h1 h.2, if_neg fun h => by omega]
    exact .inr rfl

theorem forkOk_queue : (a.forkOk c rest b fs).queue = Function.update (Function.update a.queue .freequeue rest)
    .readyqueue (a.queue .readyqueue ++ [.task c]) := by
  simp [AState.forkOk, AState.spawn, AState.push, AState.put]

/-- **A run of forks.** -/
theorem forks_run (b n : ℕ) : ∀ (cs : List Slot) {tr : KTrace} {k : Kernel} {a : AState}, KRun M tr k → WF k a →
    Ready a (n + numPagData * cs.length) → a.queue .freequeue = cs.map Node.task ++ rest →
    ∃ tr' k' a', KRun M tr' k' ∧
      tr'.map (·.event) = List.replicate cs.length (.sysenter .fork someStack b) ++ tr.map (·.event) ∧
      WF k' a' ∧ Ready a' n ∧ Forked a a' cs ∧ a'.queue .freequeue = rest := by
  intro cs
  induction cs with
  | nil =>
    intro tr k a hr hW hR hq
    exact ⟨tr, k, a, hr, rfl, hW, by simpa using hR, ⟨rfl, rfl, fun _ _ => rfl, fun _ _ => rfl, by simp, fun _ _ _ => .inr rfl⟩,
      by simpa using hq⟩
  | cons c cs ih =>
    intro tr k a hr hW hR hq
    rw [List.map_cons, List.cons_append] at hq
    have hR' : Ready a (n + numPagData * cs.length + numPagData) := by
      have h : n + numPagData * (cs.length + 1) = n + numPagData * cs.length + numPagData := by
        rw [Nat.mul_succ, Nat.add_assoc]
      rw [← h]; exact hR
    have hne := (free_ne hW hq).1
    obtain ⟨o, k₁, fs, hs, hW₁, hl, hn, hfs⟩ :=
      fork_step hW hR.user hR.data hq (le_trans (Nat.le_add_left _ _) hR'.frames) b
    obtain ⟨tr', k', a', h1, h2, h3, h4, h5, h6⟩ := ih (hr.step hs) hW₁ (hR'.forkOk hne hl b)
      (by rw [forkOk_queue]; simp)
    refine ⟨tr', k', a', h1, ?_, h3, h4, ⟨h5.current, h5.idle, fun s hs => ?_, fun s hs => ?_, ?_,
      fun s p hp => ?_⟩, h6⟩
    · rw [h2, List.map_cons, List.length_cons, List.replicate_succ', List.append_assoc]; rfl
    · rw [List.mem_cons, not_or] at hs
      rw [h5.dir s hs.2, forkOk_dir, if_neg hs.1]
    · rw [List.mem_cons, not_or] at hs
      rw [h5.pid s hs.2]
      simp [AState.forkOk, AState.spawn, hs.1]
    · rw [h5.lastPid, List.length_cons, Nat.add_comm cs.length, BitVec.ofNat_add, ← BitVec.add_assoc]
      rfl
    · rcases h5.heap s p hp with h | h
      · exact .inl h
      · rw [h, forkOk_table]
        exact forkTable_heap hp

/-- The first `j` pages of the heap of the current task are mapped, and no others. -/
def HeapTo (a : AState) (j : ℕ) : Prop :=
  ∀ p, heapStart ≤ p → p < totalPages → ((a.table a.tab p).pbaseAddr = 0 ↔ heapStart + j ≤ p)

theorem HeapTo.mapped {j : ℕ} (hH : HeapTo a j) (hF : Fresh a p f) :
    p = heapStart + j ∧ HeapTo (a.mapped p f) (j + 1) := by
  have hp : p = heapStart + j := by
    have h1 := (hH p hF.heap hF.bound).1 hF.absent
    by_contra hne
    have hlt : heapStart + j < p := by omega
    exact hF.first _ (by omega) hlt ((hH _ (by omega) (lt_trans hlt hF.bound)).2 le_rfl)
  refine ⟨hp, fun q h1 h2 => ?_⟩
  have htab : (a.mapped p f).table a.tab q = if q = p then userPte f else a.table a.tab q := by
    simp [AState.mapped]
  rw [show (a.mapped p f).tab = a.tab from rfl, htab]
  by_cases hq : q = p
  · rw [if_pos hq, userPte_pbase hF.even.2.1]
    have := hF.even.1
    exact iff_of_false (by simp at this; omega) (by omega)
  · rw [if_neg hq, hH q h1 h2]
    omega

/-- What allocations leave as it was. -/
structure Drained (a a' : AState) : Prop where
  current : a'.current = a.current
  idle : a'.idle = a.idle
  dir : a'.dir = a.dir
  queue : a'.queue = a.queue
  low : ∀ s p, p < heapStart → a'.table s p = a.table s p

/-- **A run of allocations**, until `n` frames are left. -/
theorem drain_run (b n : ℕ) : ∀ (d j : ℕ) {tr : KTrace} {k : Kernel} {a : AState}, KRun M tr k → WF k a →
    Ready a 0 → freeFrames a.phys = n + d → HeapTo a j → j + d ≤ totalPages - heapStart →
    ∃ tr' k' a', KRun M tr' k' ∧
      tr'.map (·.event) = List.replicate d (.sysenter .alloc someStack b) ++ tr.map (·.event) ∧
      WF k' a' ∧ Ready a' 0 ∧ freeFrames a'.phys = n ∧ Drained a a' := by
  intro d
  induction d with
  | zero =>
    intro j tr k a hr hW hR hf hH hj
    exact ⟨tr, k, a, hr, rfl, hW, hR, hf, rfl, rfl, rfl, rfl, fun _ _ _ => rfl⟩
  | succ d ih =>
    intro j tr k a hr hW hR hf hH hj
    have hp : heapStart + j < totalPages := by simp at hj ⊢; omega
    have hA : CanAlloc a :=
      ⟨⟨heapStart + j, by omega, hp, (hH _ (by omega) hp).2 le_rfl⟩, exists_free (by omega)⟩
    obtain ⟨o, k₁, p, f, hs, hW₁, hF⟩ := alloc_step hW hR.user hR.data hA b
    obtain ⟨-, hH₁⟩ := hH.mapped hF
    have hR₁ : Ready (a.mapped p f) 0 := by
      refine Ready.mapped (n := 0) ⟨hR.user, hR.data, ?_⟩ hF
      omega
    have hf₁ : freeFrames (a.mapped p f).phys = n + d := by
      have := freeFrames_useOne hF.even hF.free
      have hphys : (a.mapped p f).phys = useAll a.phys [f] := rfl
      rw [hphys]
      omega
    obtain ⟨tr', k', a', h1, h2, h3, h4, h5, h6⟩ := ih (j + 1) (hr.step hs) hW₁ hR₁ hf₁ hH₁ (by omega)
    refine ⟨tr', k', a', h1, ?_, h3, h4, h5, h6.current, h6.idle, h6.dir, h6.queue, fun s q hq => ?_⟩
    · rw [h2, List.map_cons, List.replicate_succ', List.append_assoc]
      rfl
    · rw [h6.low s q hq]
      have := hF.heap
      exact if_neg fun h => by omega

end Zeos
