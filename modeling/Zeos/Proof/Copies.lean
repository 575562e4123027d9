import Zeos.Proof.Isolation
import Zeos.Proof.Parent

/-!
# The address space of a child

A fork gives its child the code pages of the parent and a copy of the parent's data pages. It leaves
the other pages of the child's page table as the last owner of the struct had them, and does not
look at the parent's heap.

* `forkCopy_copies`: what the copy loop leaves in the frames.
* `fork_copies_iff`: **when the child of a fork has a copy of its parent's address space**: when
  neither the parent nor the page table of the struct taken has a heap page, and no other task uses
  that page table.
-/

namespace Zeos

open ForLoop LinkHeap Execution

variable {M : Machine} {tr : KTrace} {k k' : Kernel} {a a' : AState} {c P T dir : Slot} {rest : List Node} {b : ℕ}
  {m m' : Mm} {fs : List ℕ} {u : Word} {o : Out} {v : Word}

/-! ### What the frames hold -/

theorem allocFrameFrom_ram : ∀ (n i : ℕ), (m.allocFrameFrom n i).2.ram = m.ram := by
  intro n
  induction n with
  | zero => intro i; rfl
  | succ n ih =>
    intro i
    rw [Mm.allocFrameFrom]
    split
    · rfl
    · exact ih _

theorem forkData_ram : ∀ {n pag : ℕ} {m : Mm}, forkData P n pag m = (true, m') → m'.ram = m.ram := by
  intro n
  induction n with
  | zero =>
    intro pag m h
    cases h
    rfl
  | succ n ih =>
    intro pag m h
    have hram := allocFrameFrom_ram (m := m) ((totalPages - numPagKernel) / 2) numPagKernel
    rw [forkData] at h
    split at h
    · rename_i f m₁ hA
      have hA : m.allocFrameFrom ((totalPages - numPagKernel) / 2) numPagKernel = (some f, m₁) := hA
      rw [hA] at hram
      exact (ih h).trans hram
    · cases h

theorem takeOver_ram (lo n : ℕ) : (forRange 0 n m fun m i =>
    m.setSsPag P (lo + i) (m.getFrame T (lo + i))).ram = m.ram := by
  induction n with
  | zero => rfl
  | succ n ih =>
    rw [forRange_succ]
    exact ih

theorem forkSystem_ram : (forkSystem m P T).ram = m.ram := by
  rw [forkSystem_eq]
  exact (takeOver_ram _ _).trans (takeOver_ram _ _)

/-- A page copied onto another: both are present, and the frame of the one holds what the frame of
the other does. -/
theorem copyPage_copies {start dest : ℕ} (hs : start < totalPages) (hd : dest < totalPages)
    (h : m.copyPage dir start dest = .ok m') : (m.pagusrTable (m.dirPages dir) start).present = true ∧
      m'.ram = Function.update m.ram (m.getFrame (m.dirPages dir) dest) (m.ram (m.getFrame (m.dirPages dir) start)) := by
  obtain ⟨⟨f, i⟩, h1, h⟩ := bind_ok.1 h
  obtain ⟨⟨g, j⟩, h2, h⟩ := bind_ok.1 h
  cases h
  rw [translate_page hs] at h1
  rw [translate_page hd] at h2
  by_cases hp : (m.pagusrTable (m.dirPages dir) start).present = true
  · by_cases hp' : (m.pagusrTable (m.dirPages dir) dest).present = true
    · rw [if_pos hp] at h1
      rw [if_pos hp'] at h2
      cases h1
      cases h2
      exact ⟨hp, rfl⟩
    · rw [if_neg hp'] at h2
      cases h2
  · rw [if_neg hp] at h1
    cases h1

/-- The data pages of the parent before page `i` have been copied, and nothing else. -/
structure CopiedTo (m m' : Mm) (P T : Slot) (i : ℕ) : Prop where
  window : WindowCleared m m' T (i + numPagData)
  copied : ∀ p, pagLogInitData ≤ p → p < i → m'.ram (m.getFrame P p) = m.ram (m.getFrame T p)
  kept : ∀ g, (∀ p, pagLogInitData ≤ p → p < i → g ≠ m.getFrame P p) → m'.ram g = m.ram g
  present : ∀ p, pagLogInitData ≤ p → p < i → (m.pagusrTable T p).present = true

/-- The data pages of the child `P` have frames of their own, apart from those of the parent `T`. -/
structure Apart (m : Mm) (P T : Slot) : Prop where
  ne : P ≠ T
  bound : ∀ p, pagLogInitData ≤ p → p < heapStart → m.getFrame P p < totalPages
  inj : ∀ p q, pagLogInitData ≤ p → p < heapStart → pagLogInitData ≤ q → q < heapStart →
    m.getFrame P p = m.getFrame P q → p = q
  disjoint : ∀ p q, pagLogInitData ≤ p → p < heapStart → pagLogInitData ≤ q → q < heapStart →
    m.getFrame P p ≠ m.getFrame T q

/-- One round of the copy loop. -/
theorem CopiedTo.round {m₁ m₂ : Mm} {i : ℕ} (hA : Apart m P T) (hdir : m.dirPages dir = T)
    (hlo : pagLogInitData ≤ i) (hi : i < heapStart) (h : CopiedTo m m₁ P T i)
    (hc : Mm.copyPage (m₁.setSsPag T (i + numPagData) (m₁.getFrame P i)) dir i (i + numPagData) = .ok m₂) :
    CopiedTo m (m₂.delSsPag T (i + numPagData)) P T (i + 1) := by
  have hP : m₁.getFrame P i = m.getFrame P i := by
    rw [Mm.getFrame, h.window.table, if_neg fun h => hA.ne h.1]
    rfl
  have hdir₁ : (m₁.setSsPag T (i + numPagData) (m₁.getFrame P i)).dirPages dir = T := by
    rw [setSsPag_eq, setPte_dirs, h.window.dirs, hdir]
  obtain ⟨hpres, hram⟩ := copyPage_copies (by simp at hi ⊢; omega) (by simp at hi ⊢; omega) hc
  -- the window is above the data pages, so page `i` is still the parent's
  have hsrc : (m₁.setSsPag T (i + numPagData) (m₁.getFrame P i)).pagusrTable T i = m.pagusrTable T i := by
    rw [setSsPag_eq, setPte_table, if_neg (by simp), h.window.table, if_neg (by omega)]
  have hdst : Mm.getFrame (m₁.setSsPag T (i + numPagData) (m₁.getFrame P i)) T (i + numPagData) = m.getFrame P i := by
    rw [Mm.getFrame, setSsPag_eq, setPte_table, if_pos ⟨rfl, rfl⟩, hP, userPte_pbase (hA.bound i hlo hi)]
  rw [hdir₁, hsrc] at hpres
  have hsrcF : Mm.getFrame (m₁.setSsPag T (i + numPagData) (m₁.getFrame P i)) T i = m.getFrame T i :=
    congrArg Pte.pbaseAddr hsrc
  rw [hdir₁, hdst, hsrcF] at hram
  have hram' : m₂.ram = Function.update m₁.ram (m.getFrame P i) (m₁.ram (m.getFrame T i)) := hram
  -- no earlier round wrote into the parent's frame
  have hfrom : m₁.ram (m.getFrame T i) = m.ram (m.getFrame T i) :=
    h.kept _ fun p h1 h2 => Ne.symm (hA.disjoint p i h1 (by omega) hlo hi)
  refine ⟨h.window.round hlo hc, fun p h1 h2 => ?_, fun g hg => ?_, fun p h1 h2 => ?_⟩
  · show m₂.ram _ = _
    rw [hram']
    by_cases hpi : p = i
    · rw [hpi, Function.update_self, hfrom]
    · rw [Function.update_of_ne fun hf => hpi (hA.inj p i h1 (by omega) hlo hi hf)]
      exact h.copied p h1 (by omega)
  · show m₂.ram _ = _
    rw [hram', Function.update_of_ne (hg i hlo (Nat.lt_succ_self i))]
    exact h.kept g fun p h1 h2 => hg p h1 (by omega)
  · by_cases hpi : p = i
    · rw [hpi]
      exact hpres
    · exact h.present p h1 (by omega)

/-- **The copy loop of a fork** leaves in each data page of the child what the parent's page holds. -/
theorem forkCopy_copies (hA : Apart m P T) (hdir : m.dirPages dir = T) (h : forkCopy m dir P T = .ok m') :
    CopiedTo m m' P T heapStart := by
  refine forRangeM_inv (I := fun i m' => CopiedTo m m' P T i) ?_ ?_ h
  · refine ⟨⟨rfl, rfl, fun s q => ?_⟩, fun p h1 h2 => ?_, fun _ _ => rfl, fun p h1 h2 => ?_⟩
    · rw [if_neg]
      rintro ⟨-, h1, h2⟩
      simp at h1 h2
      omega
    · exact absurd h1 (Nat.not_le.2 h2)
    · exact absurd h1 (Nat.not_le.2 h2)
  · intro i m₁ m₂ hlo hi hI hb
    obtain ⟨m₃, hc, hb⟩ := bind_ok.1 hb
    cases hb
    exact hI.round hA hdir hlo hi hc

/-! ### The child -/

/-- The memory that a successful fork leaves. -/
theorem sysFork_image (hW : WF k a) (hq : a.queue .freequeue = .task c :: rest)
    (hf : numPagData ≤ freeFrames a.phys) (h : sysFork k b = .ok (v, k')) :
    ∃ fs m, fs.length = numPagData ∧ Grabbed k.mm m c fs ∧ m.ram = k.mm.ram ∧
      forkCopy (forkSystem m c a.tab) a.tab c a.tab = .ok k'.mm := by
  rcases free_cases hW with ⟨hq', -⟩ | ⟨c', rest', hq', hE⟩
  · rw [hq] at hq'
    cases hq'
  rw [hq] at hq'
  cases hq'
  obtain ⟨k₂, hC, hcall⟩ := sysFork_eq (b := b) hW hq hE
  have hne := free_ne hW hq
  obtain ⟨hPT, hDIR⟩ := hC.tables hW hne
  rw [hcall] at h
  rcases forkData_cases k.mm c with ⟨fs, m, hl, -, hg, hD⟩ | ⟨fs, m, -, hfree, -, -⟩
  · rw [forkPages_ok (by rw [hPT, hC.mm]; exact hD), hPT, forkImage_eq] at h
    have hT : getPT (k₂.setMm m) (k₂.setMm m).current = a.tab := by
      rw [← hDIR, getPT, Kernel.setMm, hg.dirs, hW.dirs]
      rfl
    have hcr : (k₂.setMm m).cr3 = a.tab := hC.cr3.trans hW.cr3
    rw [hT, hcr] at h
    obtain ⟨k₃, h1, h⟩ := bind_ok.1 h
    obtain ⟨h₂, -, h⟩ := bind_ok.1 h
    cases h
    cases hcpy : forkCopy (forkSystem (k₂.setMm m).mm c a.tab) a.tab c a.tab with
    | error e =>
      rw [hcpy] at h1
      cases h1
    | ok m₂ =>
      rw [hcpy] at h1
      cases h1
      exact ⟨fs, m, hl, hg, forkData_ram hD, hcpy⟩
  · rw [hW.phys] at hfree
    omega

theorem fork_image (hW : WF k a) (hq : a.queue .freequeue = .task c :: rest) (hf : numPagData ≤ freeFrames a.phys)
    (hs : Step k (.sysenter .fork u b) o k') :
    ∃ fs m, fs.length = numPagData ∧ Grabbed k.mm m c fs ∧ m.ram = k.mm.ram ∧
      forkCopy (forkSystem m c a.tab) a.tab c a.tab = .ok k'.mm := by
  obtain ⟨k₁, w, hk₁, hW₁, h2⟩ := hs.called hW
  obtain ⟨v, hcall, -⟩ := returning_ok.1 h2
  have hmm : k₁.mm = k.mm := by rw [hk₁]; rfl
  rw [← hmm]
  exact sysFork_image hW₁ hq hf hcall

/-- The frame of data page `p` of the child. -/
theorem grabbed_frame {p : ℕ} (hg : Grabbed m m' c fs) (hl : fs.length = numPagData) (h1 : pagLogInitData ≤ p)
    (h2 : p < heapStart) : fs.getD (p - pagLogInitData) 0 ∈ fs ∧
      (forkSystem m' c T).getFrame c p = fs.getD (p - pagLogInitData) 0 := by
  have hlt : p - pagLogInitData < fs.length := by
    rw [hl]
    simp at h1 h2 ⊢
    omega
  have hm : fs.getD (p - pagLogInitData) 0 ∈ fs := by
    rw [List.getD_eq_getElem _ _ hlt]
    exact List.getElem_mem _
  refine ⟨hm, ?_⟩
  rw [Mm.getFrame, forkSystem_table, if_neg (by omega), hg.table, if_pos ⟨rfl, h1, by rw [hl]; exact h2⟩,
    userPte_pbase (hg.even _ hm).2.1]

theorem grabbed_apart (hg : Grabbed m m' c fs) (hl : fs.length = numPagData) (hne : c ≠ T)
    (hO : Owned m.physMem m.pagusrTable) : Apart (forkSystem m' c T) c T where
  ne := hne
  bound p h1 h2 := by
    obtain ⟨hm, hp⟩ := grabbed_frame (T := T) hg hl h1 h2
    rw [hp]
    exact (hg.even _ hm).2.1
  inj p q h1 h2 h3 h4 h := by
    rw [(grabbed_frame hg hl h1 h2).2, (grabbed_frame hg hl h3 h4).2,
      List.getD_eq_getElem _ _ (by rw [hl]; simp at h1 h2 ⊢; omega),
      List.getD_eq_getElem _ _ (by rw [hl]; simp at h3 h4 ⊢; omega), hg.nodup.getElem_inj_iff] at h
    omega
  disjoint p q h1 h2 h3 h4 h := by
    obtain ⟨hm, hp⟩ := grabbed_frame (T := T) hg hl h1 h2
    have hq : (forkSystem m' c T).getFrame T q = (m.pagusrTable T q).pbaseAddr := by
      rw [Mm.getFrame, forkSystem_table, if_neg fun h => hne h.1.symm, hg.table, if_neg fun h => hne h.1.symm]
    rw [hp, hq] at h
    have h0 : (m.pagusrTable T q).pbaseAddr ≠ 0 := by
      rw [← h]
      exact Nat.ne_of_gt (lt_of_lt_of_le (by decide) (hg.even _ hm).1)
    exact hO.not_maps_free (h ▸ hg.free _ hm) (hO.maps_of_ne h3 h0)

/-- The child `c` has the address space that its parent had before the step, and has it alone. -/
structure ForkCopies (k k' : Kernel) (c : Slot) : Prop where
  pages : ∀ p, pagLogInitCode ≤ p → p < totalPages → ((k'.mm.pagusrTable (getPT k' c) p).present = true ↔
    (k.mm.pagusrTable (getPT k k.current) p).present = true)
  contents : ∀ p, pagLogInitCode ≤ p → p < totalPages → (k'.mm.pagusrTable (getPT k' c) p).present = true →
    ∀ i < pageSize, k'.mm.ram (k'.mm.getFrame (getPT k' c) p) i = k.mm.ram (k.mm.getFrame (getPT k k.current) p) i
  code : ∀ p, pagLogInitCode ≤ p → p < pagLogInitData →
    k'.mm.getFrame (getPT k' c) p = k.mm.getFrame (getPT k k.current) p
  own : ∀ p, pagLogInitData ≤ p → p < totalPages → (k'.mm.pagusrTable (getPT k' c) p).present = true →
    ∀ s q, (k'.mm.pagusrTable s q).present = true → k'.mm.getFrame s q = k'.mm.getFrame (getPT k' c) p →
      s = getPT k' c ∧ q = p
  alone : ∀ s, Live k' s → getPT k' s = getPT k' c → s = c
  fresh : ∀ p, pagLogInitData ≤ p → p < totalPages → (k.mm.pagusrTable (getPT k' c) p).present = true →
    (k'.mm.pagusrTable (getPT k' c) p).present = true →
      k'.mm.getFrame (getPT k' c) p ≠ k.mm.getFrame (getPT k' c) p

/-- Nobody uses the page table of struct `c`, and neither it nor the caller's has a heap page. -/
structure CleanFork (k : Kernel) (c : Slot) : Prop where
  unused : ∀ s, Live k s → getPT k s ≠ c
  heap : ∀ p, heapStart ≤ p → p < totalPages → (k.mm.pagusrTable (getPT k k.current) p).present = false
  slot : ∀ p, heapStart ≤ p → p < totalPages → (k.mm.pagusrTable c p).present = false

/-- The page tables of a child whose struct's page table is not the caller's. -/
theorem forkTable_child {t : Slot → ℕ → Pte} (hne : c ≠ T) (p : ℕ) : forkTable t T c fs c p =
    if p < pagLogInitData then userPte (t T p).pbaseAddr
    else if p < heapStart then userPte (fs.getD (p - pagLogInitData) 0) else t c p := by
  rw [forkTable, if_neg fun h => hne h.1]
  exact if_congr (and_iff_right rfl) rfl (if_congr (and_iff_right rfl) rfl rfl)

/-- A frame of a data or heap page is at no other page of any table. -/
theorem Owned.only {phys : ℕ → Byte} {t : Slot → ℕ → Pte} (hO : Owned phys t) {s s' : Slot} {p q f : ℕ}
    (hm : Maps t s p f) (hp : (t s' q).present = true) (hq : (t s' q).pbaseAddr = f) : s' = s ∧ q = p := by
  have hf := hO.frame s p f hm
  by_cases h1 : pagLogInitData ≤ q
  · exact hO.inj s' q s p f ⟨h1, hp, hq⟩ hm
  by_cases h2 : pagLogInitCode ≤ q
  · have h := hO.code s' q h2 (by omega) hp
    exact absurd (hq.symm.trans h) (hf.2.2 _ (by simp at h1 h2 ⊢; omega))
  · have h := hO.kernel s' q (by simp at h2 ⊢; omega)
    rw [hq] at h
    exact absurd hf.1.1 (by omega)

theorem ForkCopies.clean (h : ForkCopies k k' c) (hW : WF k a) (hW' : WF k' (a.forkOk c rest b fs))
    (hq : a.queue .freequeue = .task c :: rest) : CleanFork k c := by
  have hc : getPT k' c = c := by rw [hW'.getPT, forkOk_dir, if_pos rfl]
  have hunused : ∀ s, Live k s → getPT k s ≠ c := by
    intro s hs hsc
    rw [hW.live_iff] at hs
    have hne : s ≠ c := by
      rintro rfl
      exact not_live hq hs
    refine hne (h.alone s (hW'.live_iff.2 ((forkOk_live hW.free_nodup hq).2 (.inl hs))) ?_)
    rw [hc, hW'.getPT, forkOk_dir, if_neg hne, ← hW.getPT]
    exact hsc
  have hT : getPT k k.current ≠ c := hunused _ (hW.live_iff.2 (hW.current ▸ hW.current_live))
  have hTa : getPT k k.current = a.tab := hW.getPT_current
  have hsame : ∀ p, heapStart ≤ p → k'.mm.pagusrTable c p = k.mm.pagusrTable c p := by
    intro p hp
    have h1 : ¬ p < pagLogInitData := by simp at hp ⊢; omega
    rw [hW'.table, forkOk_table, forkTable_child (hTa ▸ Ne.symm hT), if_neg h1, if_neg (Nat.not_lt.2 hp), hW.table]
  have hslot : ∀ p, heapStart ≤ p → p < totalPages → (k.mm.pagusrTable c p).present = false := by
    intro p hp hlt
    by_contra hpres
    have hpres : (k.mm.pagusrTable c p).present = true := by simpa using hpres
    have hd : pagLogInitData ≤ p := le_trans (by decide) hp
    refine h.fresh p hd hlt (by rw [hc]; exact hpres) (by rw [hc, hsame p hp]; exact hpres) ?_
    rw [Mm.getFrame, Mm.getFrame, hc, hsame p hp]
  refine ⟨hunused, fun p hp hlt => ?_, hslot⟩
  have hpages := h.pages p (le_trans (by decide) hp) hlt
  rw [hc, hsame p hp, hslot p hp hlt] at hpages
  simpa using hpages

/-- What a fork into a clean struct `c` leaves, in the frames `fs`: the table of the child, and the copies in
its data pages. -/
structure Childhood (k k' : Kernel) (a : AState) (c : Slot) (fs : List ℕ) : Prop where
  owned : Owned k.mm.physMem k.mm.pagusrTable
  ne : c ≠ a.tab
  code : ∀ p, pagLogInitCode ≤ p → p < pagLogInitData → (k.mm.pagusrTable a.tab p).present = true
  data : ∀ p, pagLogInitData ≤ p → p < heapStart → (k.mm.pagusrTable a.tab p).present = true
  table : ∀ p, k'.mm.pagusrTable c p = if p < pagLogInitData then userPte (k.mm.pagusrTable a.tab p).pbaseAddr
    else if p < heapStart then userPte (fs.getD (p - pagLogInitData) 0) else k.mm.pagusrTable c p
  even : ∀ f ∈ fs, IsEven f
  free : ∀ f ∈ fs, k.mm.physMem f = frameFree
  length : fs.length = numPagData
  copied : ∀ p, pagLogInitData ≤ p → p < heapStart →
    k'.mm.ram (fs.getD (p - pagLogInitData) 0) = k.mm.ram (k.mm.getFrame a.tab p)
  kept : ∀ g, g ∉ fs → k'.mm.ram g = k.mm.ram g

theorem CleanFork.childhood (h : CleanFork k c) (hs : Step k (.sysenter .fork u b) o k') (hW : WF k a)
    (hO : Owned a.phys a.table) (hC : HasCode a) (hq : a.queue .freequeue = .task c :: rest)
    (hf : numPagData ≤ freeFrames a.phys) : ∃ fs, Childhood k k' a c fs := by
  have hne : c ≠ a.tab := by
    have := h.unused _ (hW.live_iff.2 (hW.current ▸ hW.current_live))
    rw [hW.getPT_current] at this
    exact Ne.symm this
  have huser : a.current ≠ a.idle := hs.user hW rfl
  obtain ⟨fs, m, hl, hg, hram, hcpy⟩ := fork_image hW hq hf hs
  have hO₀ : Owned k.mm.physMem k.mm.pagusrTable := by
    rw [hW.phys, hW.table]
    exact hO
  have hcopied := forkCopy_copies (grabbed_apart hg hl hne hO₀)
    (by rw [(forkSystem_rest _ _).2, hg.dirs, hW.dirs]; rfl) hcpy
  obtain ⟨-, htable, -⟩ := fork_tables hg hl (forkCopy_window hcpy)
  have hparent : ∀ p, (forkSystem m c a.tab).pagusrTable a.tab p = k.mm.pagusrTable a.tab p := by
    intro p
    rw [forkSystem_table, if_neg fun h => hne h.1.symm, hg.table, if_neg fun h => hne h.1.symm]
  refine ⟨fs, hO₀, hne, fun p h1 h2 => ?_, fun p h1 h2 => ?_, fun p => ?_, fun f hf => hg.even _ hf, fun f hf => hg.free _ hf, hl,
    fun p h1 h2 => ?_, fun g hg' => ?_⟩
  · rw [hW.table]
    exact hC _ hW.current_live huser p h1 h2
  · rw [← hparent]
    exact hcopied.present p h1 h2
  · rw [htable, forkTable_child hne]
  · have hcopy := hcopied.copied p h1 h2
    rw [(grabbed_frame hg hl h1 h2).2, Mm.getFrame, hparent, forkSystem_ram, hram] at hcopy
    exact hcopy
  · rw [hcopied.kept g fun q h1 h2 hq => hg' ?_, forkSystem_ram, hram]
    obtain ⟨hm, hfr⟩ := grabbed_frame (T := a.tab) hg hl h1 h2
    rw [hq, hfr]
    exact hm

namespace Childhood

variable (hK : Childhood k k' a c fs)
include hK

theorem mem {p : ℕ} (h1 : pagLogInitData ≤ p) (h2 : p < heapStart) : fs.getD (p - pagLogInitData) 0 ∈ fs := by
  have hlt : p - pagLogInitData < fs.length := by
    rw [hK.length]
    simp at h1 h2 ⊢
    omega
  rw [List.getD_eq_getElem _ _ hlt]
  exact List.getElem_mem _

/-- The code pages are those of the parent. -/
theorem code_frame {p : ℕ} (h1 : pagLogInitCode ≤ p) (h2 : p < pagLogInitData) :
    k'.mm.getFrame c p = k.mm.getFrame a.tab p ∧ k.mm.getFrame a.tab p = codeFrame (p - pagLogInitCode) := by
  have hfr : (k.mm.pagusrTable a.tab p).pbaseAddr = codeFrame (p - pagLogInitCode) :=
    hK.owned.code _ p h1 h2 (hK.code p h1 h2)
  rw [Mm.getFrame, hK.table, if_pos h2, hfr, userPte_pbase (by simp [codeFrame] at h1 h2 ⊢; omega)]
  exact ⟨hfr.symm, hfr⟩

/-- The data pages are on the new frames. -/
theorem data_frame {p : ℕ} (h1 : pagLogInitData ≤ p) (h2 : p < heapStart) :
    k'.mm.getFrame c p = fs.getD (p - pagLogInitData) 0 := by
  rw [Mm.getFrame, hK.table, if_neg (Nat.not_lt.2 h1), if_pos h2, userPte_pbase (hK.even _ (hK.mem h1 h2)).2.1]

theorem heap_page {p : ℕ} (h1 : heapStart ≤ p) : k'.mm.pagusrTable c p = k.mm.pagusrTable c p := by
  have hd : ¬ p < pagLogInitData := by simp at h1 ⊢; omega
  rw [hK.table, if_neg hd, if_neg (Nat.not_lt.2 h1)]

/-- What the parent's code and data pages hold, the child's do. -/
theorem same_bytes {p : ℕ} (h1 : pagLogInitCode ≤ p) (h2 : p < heapStart) :
    k'.mm.ram (k'.mm.getFrame c p) = k.mm.ram (k.mm.getFrame a.tab p) := by
  by_cases hd : p < pagLogInitData
  · -- the code frames are not among the frames taken
    obtain ⟨hf1, hf2⟩ := hK.code_frame h1 hd
    have hused : k.mm.physMem (codeFrame (p - pagLogInitCode)) = frameUsed :=
      hK.owned.code_used _ (by simp at h1 hd ⊢; omega)
    have hnot : k.mm.getFrame a.tab p ∉ fs := by
      intro hm
      have hfree := hK.free _ hm
      rw [hf2, hused] at hfree
      exact frameUsed_ne_free hfree
    rw [hf1, hK.kept _ hnot]
  · rw [hK.data_frame (Nat.le_of_not_lt hd) h2]
    exact hK.copied p (Nat.le_of_not_lt hd) h2

end Childhood

theorem CleanFork.copies (h : CleanFork k c) (hr : KRun M tr k) (hs : Step k (.sysenter .fork u b) o k') (hW : WF k a)
    (hO : Owned a.phys a.table) (hC : HasCode a) (hW' : WF k' (a.forkOk c rest b fs))
    (hq : a.queue .freequeue = .task c :: rest) (hf : numPagData ≤ freeFrames a.phys) : ForkCopies k k' c := by
  have hc : getPT k' c = c := by rw [hW'.getPT, forkOk_dir, if_pos rfl]
  have hT := hW.getPT_current
  obtain ⟨fs', hK⟩ := h.childhood hs hW hO hC hq hf
  -- the child has no page on the heap
  have hhigh : ∀ p, heapStart ≤ p → p < totalPages → (k'.mm.pagusrTable c p).present = false := by
    intro p h1 h2
    rw [hK.heap_page h1]
    exact h.slot p h1 h2
  -- the same pages, the same bytes, code frames shared, the others its own, no table shared, fresh frames
  refine ⟨fun p h1 h2 => ?_, fun p h1 h2 hp i _ => ?_, fun p h1 h2 => ?_, fun p h1 h2 hp s q hq hf => ?_,
    fun s hs' hd => ?_, fun p h1 h2 hp hp' => ?_⟩
  · rw [hc, hT]
    by_cases hd : p < pagLogInitData
    · rw [hK.table, if_pos hd]
      exact iff_of_true rfl (hK.code p h1 hd)
    by_cases hh : p < heapStart
    · rw [hK.table, if_neg hd, if_pos hh]
      exact iff_of_true rfl (hK.data p (Nat.le_of_not_lt hd) hh)
    · rw [hhigh p (Nat.le_of_not_lt hh) h2, ← hT, h.heap p (Nat.le_of_not_lt hh) h2]
  · rw [hc] at hp ⊢
    rw [hT]
    by_cases hh : p < heapStart
    · rw [hK.same_bytes h1 hh]
    · rw [hhigh p (Nat.le_of_not_lt hh) h2] at hp
      cases hp
  · rw [hc, hT]
    exact (hK.code_frame h1 h2).1
  · rw [hc] at hp hf ⊢
    obtain ⟨a₁, hW₁, hO₁, -⟩ := run_owned (hr.step hs)
    rw [hW₁.table] at hp hq
    rw [Mm.getFrame, Mm.getFrame, hW₁.table] at hf
    exact hO₁.only ⟨h1, hp, rfl⟩ hq hf
  · rw [hc, hW'.getPT, forkOk_dir] at hd
    by_contra hsc
    rw [if_neg hsc, ← hW.getPT] at hd
    rw [hW'.live_iff, forkOk_live hW.free_nodup hq] at hs'
    exact h.unused s (hW.live_iff.2 (hs'.resolve_right hsc)) hd
  · rw [hc] at hp hp' ⊢
    by_cases hh : p < heapStart
    · have hm := hK.mem h1 hh
      rw [hK.data_frame h1 hh]
      exact Ne.symm (hK.owned.not_present_free (hK.even _ hm) (hK.free _ hm) hp)
    · rw [hhigh p (Nat.le_of_not_lt hh) h2] at hp'
      cases hp'

/-- **The address space of a child, exactly.** The child of a successful fork, from any reachable
state, has the address space of its parent, in frames of its own and nothing of an earlier owner,
if and only if its struct's page table is in no use, and neither that table nor the caller's has
a heap page. -/
theorem fork_copies_iff (hr : KRun M tr k) (hs : Step k (.sysenter .fork u b) o k') (hc : ¬ Live k c)
    (hc' : Live k' c) : ForkCopies k k' c ↔ CleanFork k c := by
  obtain ⟨a, hW, hO, hC⟩ := run_owned hr
  obtain ⟨a', h, hW'⟩ := hs.refines hW
  rw [hW.live_iff] at hc
  rw [hW'.live_iff] at hc'
  generalize o.switch = sw at h
  cases h with
  | noop he => cases he
  | forkNone => exact absurd hc' hc
  | forkFail hq => exact absurd ((forkFail_live hq).1 hc') hc
  | @forkOk _ _ d rest fs hq hf hl hn hfs =>
    obtain rfl : c = d := ((forkOk_live hW.free_nodup hq).1 hc').resolve_left hc
    exact ⟨fun h => h.clean hW hW' hq, fun h => h.copies hr hs hW hO hC hW' hq hf⟩

/-! ### Runs -/

/-- The struct that the first fork takes. -/
theorem first_child (hW : WF k a) (hW' : WF k' (a.forkOk 2 bootFree.tail b fs))
    (hq : a.queue .freequeue = .task 2 :: bootFree.tail) : ¬ Live k 2 ∧ Live k' 2 := by
  rw [hW.live_iff, hW'.live_iff]
  exact ⟨not_live hq, (forkOk_live hW.free_nodup hq).2 (.inr rfl)⟩

/-- An allocation and a fork: the child does not have the page. -/
theorem fork_misses_heap : ∃ t k o k', KRun aMachine [t] k ∧ t.event = .sysenter .alloc someStack 1000 ∧
    Step k (.sysenter .fork someStack 1000) o k' ∧ ¬ Live k 2 ∧ Live k' 2 ∧
    (k.mm.pagusrTable (getPT k k.current) heapStart).present = true ∧
    (k'.mm.pagusrTable (getPT k' 2) heapStart).present = false ∧ ¬ ForkCopies k k' 2 := by
  obtain ⟨t, k, f, hr, he, hW, hF, hR⟩ := alloc_run aMachine 1000
  set a := (bootState aMachine).mapped heapStart f
  have hq : a.queue .freequeue = .task 2 :: bootFree.tail := rfl
  obtain ⟨o, k', fs, hs, hW', -⟩ := fork_step hW hR.user hR.data hq (le_trans (by decide) hR.frames) 1000
  obtain ⟨hnew, hlive⟩ := first_child hW hW' hq
  have hpar : (k.mm.pagusrTable (getPT k k.current) heapStart).present = true := by
    have hT : getPT k k.current = a.tab := hW.getPT_current
    rw [hT, hW.table]
    exact congrArg Pte.present ((bootState aMachine).mapped_page heapStart f)
  have hchild : (k'.mm.pagusrTable (getPT k' 2) heapStart).present = false := by
    have hT : a.tab = 1 := boot_tab aMachine
    have h2 : a.table 2 heapStart = {} := by
      show (if (2 : Slot) = (bootState aMachine).tab ∧ heapStart = heapStart then userPte f
        else (bootState aMachine).table 2 heapStart) = {}
      rw [boot_tab, if_neg fun h => absurd h.1 (by decide)]
      show bootTable aMachine.layout 2 heapStart = {}
      exact bootTable_heap le_rfl aMachine.layout
    rw [hW'.getPT, forkOk_dir, if_pos rfl, hW'.table, forkOk_table, hT, forkTable_child (by decide),
      if_neg (by decide), if_neg (by decide), h2]
  refine ⟨t, k, o, k', hr, he, hs, hnew, hlive, hpar, hchild, fun h => ?_⟩
  rw [(h.pages heapStart (by decide) (by decide)).2 hpar] at hchild
  cases hchild

/-- The first fork from boot is clean, and the child is a copy. -/
theorem fork_copies_iff_first : ∃ k o k', KRun aMachine [] k ∧ Step k (.sysenter .fork someStack 1000) o k' ∧
    ¬ Live k 2 ∧ Live k' 2 ∧ CleanFork k 2 ∧ ForkCopies k k' 2 := by
  obtain ⟨k, hr, hW⟩ := boot_run aMachine
  have hR := boot_ready aMachine
  have hq : (bootState aMachine).queue .freequeue = .task 2 :: bootFree.tail := rfl
  obtain ⟨o, k', fs, hs, hW', -⟩ := fork_step hW hR.user hR.data hq (le_trans (by decide) hR.frames) 1000
  obtain ⟨hnew, hlive⟩ := first_child hW hW' hq
  have hempty : ∀ s p, heapStart ≤ p → (k.mm.pagusrTable s p).present = false := by
    intro s p hp
    rw [hW.table]
    exact congrArg Pte.present (bootTable_heap hp aMachine.layout)
  have hclean : CleanFork k 2 := by
    refine ⟨fun s _ h => ?_, fun p hp _ => hempty _ p hp, fun p hp _ => hempty _ p hp⟩
    rw [hW.getPT] at h
    revert h
    simp only [bootState]
    split <;> decide
  exact ⟨k, o, k', hr, hs, hnew, hlive, hclean, (fork_copies_iff hr hs hnew hlive).2 hclean⟩

end Zeos
