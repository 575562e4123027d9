import Zeos.Proof.MemSteps

/-!
# Who holds which frame

`Owned`: every frame at a data or heap page of a page table is in use, belongs to no
code page, and is held by that entry alone. It holds in every reachable state, after
any calls by any tasks and whatever becomes of the semaphores.

* `Owned.clear`, `Owned.map`, `Owned.fork`: what a call does to the tables keeps it.
* `run_owned`: **it holds along every run**.
* `Owned.not_present_free`: a frame that is free is mapped nowhere.
-/

namespace Zeos

open Execution

/-- Page `p` of table `s`, a data or heap page, is present with frame `f`. -/
def Maps (t : Slot → ℕ → Pte) (s : Slot) (p f : ℕ) : Prop :=
  pagLogInitData ≤ p ∧ (t s p).present = true ∧ (t s p).pbaseAddr = f

structure Owned (phys : ℕ → Byte) (t : Slot → ℕ → Pte) : Prop where
  code_used : ∀ c < numPagCode, phys (codeFrame c) = frameUsed
  kernel : ∀ s p, p < numPagKernel → (t s p).pbaseAddr < numPagKernel
  code : ∀ s p, pagLogInitCode ≤ p → p < pagLogInitData → (t s p).present = true →
    (t s p).pbaseAddr = codeFrame (p - pagLogInitCode)
  empty : ∀ s p, pagLogInitData ≤ p → (t s p).present = false → t s p = {}
  frame : ∀ s p f, Maps t s p f → Freeable f ∧ phys f = frameUsed ∧ ∀ c < numPagCode, f ≠ codeFrame c
  inj : ∀ s p s' p' f, Maps t s p f → Maps t s' p' f → s = s' ∧ p = p'

/-- The tables of the tasks other than idle have their code pages. -/
def HasCode (a : AState) : Prop :=
  ∀ s, a.Live s → s ≠ a.idle → ∀ p, pagLogInitCode ≤ p → p < pagLogInitData →
    (a.table (a.dir s) p).present = true

variable {phys phys' : ℕ → Byte} {t t' : Slot → ℕ → Pte} {T c s : Slot} {lo hi p f g : ℕ} {fs : List ℕ}

theorem userPte_pbase (hf : f < totalPages) : (userPte f).pbaseAddr = f :=
  Nat.mod_eq_of_lt (by simp at hf ⊢; omega)

theorem maps_empty (h : t s p = {}) : ¬ Maps t s p f := by simp [Maps, h]

theorem maps_user (h : t s p = userPte g) (hg : g < totalPages) :
    Maps t s p f ↔ pagLogInitData ≤ p ∧ f = g := by
  rw [Maps, h, userPte_pbase hg]
  exact ⟨fun h => ⟨h.1, h.2.2.symm⟩, fun h => ⟨h.1, rfl, h.2.symm⟩⟩

theorem maps_same (h : t s p = t' s p) : Maps t s p f ↔ Maps t' s p f := by rw [Maps, Maps, h]

theorem clearPages_maps : Maps (clearPages t T lo hi) s p f ↔
    Maps t s p f ∧ ¬ (s = T ∧ lo ≤ p ∧ p < hi) := by
  by_cases h : s = T ∧ lo ≤ p ∧ p < hi
  · exact iff_of_false (maps_empty (if_pos h)) fun hm => hm.2 h
  · rw [maps_same (show clearPages t T lo hi s p = t s p from if_neg h), and_iff_left h]

/-- The tables with page `p₀` of `T` mapped to frame `g`. -/
theorem setPage_maps {p₀ : ℕ} (hg : g < totalPages) (h₀ : pagLogInitData ≤ p₀) :
    Maps (fun s q => if s = T ∧ q = p₀ then userPte g else t s q) s p f ↔
      (s = T ∧ p = p₀ ∧ f = g) ∨ (Maps t s p f ∧ ¬ (s = T ∧ p = p₀)) := by
  by_cases h : s = T ∧ p = p₀
  · rw [maps_user (if_pos h) hg]
    constructor
    · rintro ⟨-, hf⟩
      exact .inl ⟨h.1, h.2, hf⟩
    · rintro (⟨-, -, hf⟩ | ⟨-, hn⟩)
      · exact ⟨h.2 ▸ h₀, hf⟩
      · exact absurd h hn
  · rw [maps_same (show _ = t s p from if_neg h)]
    constructor
    · exact fun hm => .inr ⟨hm, h⟩
    · rintro (⟨h1, h2, -⟩ | ⟨hm, -⟩)
      · exact absurd ⟨h1, h2⟩ h
      · exact hm

/-- The data pages of a fork's child. -/
theorem forkTable_maps (hl : fs.length = numPagData) (he : ∀ g ∈ fs, IsEven g) :
    Maps (forkTable t T c fs) s p f ↔
      (s = c ∧ pagLogInitData ≤ p ∧ p < heapStart ∧ f = fs.getD (p - pagLogInitData) 0) ∨
      (Maps t s p f ∧ ¬ (s = T ∧ heapStart ≤ p ∧ p < heapStart + numPagData) ∧ ¬ (s = c ∧ p < heapStart)) := by
  by_cases hw : s = T ∧ heapStart ≤ p ∧ p < heapStart + numPagData
  · refine iff_of_false (maps_empty (if_pos hw)) ?_
    rintro (⟨-, -, h, -⟩ | ⟨-, h, -⟩)
    · omega
    · exact h hw
  by_cases hlow : s = c ∧ p < pagLogInitData
  · have hlt : ¬ pagLogInitData ≤ p := by omega
    refine iff_of_false (fun h => hlt h.1) ?_
    rintro (⟨-, h, -⟩ | ⟨h, -⟩)
    · exact hlt h
    · exact hlt h.1
  by_cases hc : s = c ∧ p < heapStart
  · have hd : pagLogInitData ≤ p := by
      by_contra h; exact hlow ⟨hc.1, by omega⟩
    have hlt : p - pagLogInitData < fs.length := by rw [hl]; simp at hd hc ⊢; omega
    have hg : fs.getD (p - pagLogInitData) 0 < totalPages := by
      rw [List.getD_eq_getElem _ _ hlt]
      exact (he _ (List.getElem_mem hlt)).2.1
    rw [maps_user (show forkTable t T c fs s p = _ by rw [forkTable, if_neg hw, if_neg hlow, if_pos hc]) hg]
    constructor
    · rintro ⟨h1, h2⟩; exact .inl ⟨hc.1, h1, hc.2, h2⟩
    · rintro (⟨-, h1, -, h2⟩ | ⟨-, -, h⟩)
      · exact ⟨h1, h2⟩
      · exact absurd hc h
  · rw [maps_same (show forkTable t T c fs s p = t s p by
      rw [forkTable, if_neg hw, if_neg hlow, if_neg hc])]
    constructor
    · exact fun h => .inr ⟨h, hw, hc⟩
    · rintro (⟨h1, -, h2, -⟩ | ⟨h, -⟩)
      · exact absurd ⟨h1, h2⟩ hc
      · exact h

namespace Owned

variable (hO : Owned phys t)

include hO

/-- A frame number other than 0 at a data or heap page is mapped there. -/
theorem maps_of_ne (hp : pagLogInitData ≤ p) (h : (t s p).pbaseAddr ≠ 0) : Maps t s p (t s p).pbaseAddr := by
  refine ⟨hp, ?_, rfl⟩
  by_contra hn
  exact h (by rw [hO.empty s p hp (by simpa using hn)])

theorem present_iff (hp : pagLogInitData ≤ p) : (t s p).present = true ↔ (t s p).pbaseAddr ≠ 0 := by
  constructor
  · intro h h0
    have := (hO.frame s p _ ⟨hp, h, rfl⟩).1.1
    rw [h0] at this; exact absurd this (Nat.not_lt_zero _)
  · intro h; exact (hO.maps_of_ne hp h).2.1

/-- A free frame is mapped nowhere. -/
theorem not_maps_free (hf : phys f = frameFree) : ¬ Maps t s p f := fun hm => by
  have := (hO.frame s p f hm).2.1
  rw [hf] at this; exact absurd this.symm frameUsed_ne_free

/-- **Unmapping pages** of one table, with their frames given back. -/
theorem clear (hlo : pagLogInitData ≤ lo) (hp : ∀ g, phys' g ≠ phys g →
    Freeable g ∧ ∃ q, lo ≤ q ∧ q < hi ∧ (t T q).pbaseAddr = g) :
    Owned phys' (clearPages t T lo hi) := by
  have hkeep : ∀ s p f, Maps t s p f → ¬ (s = T ∧ lo ≤ p ∧ p < hi) → phys' f = phys f := by
    intro s p f hm hn
    by_contra hne
    obtain ⟨hF, q, h1, h2, h3⟩ := hp f hne
    have hq := hO.maps_of_ne (s := T) (p := q) (by omega) (by rw [h3]; have := hF.1; omega)
    rw [h3] at hq
    obtain ⟨rfl, rfl⟩ := hO.inj s p T q f hm hq
    exact hn ⟨rfl, h1, h2⟩
  have hbelow : ∀ s p, p < pagLogInitData → clearPages t T lo hi s p = t s p := fun s p h =>
    if_neg (by omega)
  refine ⟨fun c hc => ?_, fun s p h => ?_, fun s p h1 h2 h3 => ?_, fun s p h1 h2 => ?_, fun s p f hm => ?_,
    fun s p s' p' f hm hm' => ?_⟩
  · by_contra hne
    have h' : phys' (codeFrame c) ≠ phys (codeFrame c) := by rw [hO.code_used c hc]; exact hne
    obtain ⟨hF, q, h1, h2, h3⟩ := hp _ h'
    have hq := hO.maps_of_ne (s := T) (p := q) (by omega) (by rw [h3]; have := hF.1; omega)
    exact (hO.frame _ _ _ hq).2.2 c hc h3
  · rw [hbelow s p (by simp at h ⊢; omega)]; exact hO.kernel s p h
  · rw [hbelow s p h2] at h3 ⊢; exact hO.code s p h1 h2 h3
  · unfold clearPages at h2 ⊢
    split at h2
    · rename_i h; rw [if_pos h]
    · rename_i h; rw [if_neg h]; exact hO.empty s p h1 h2
  · obtain ⟨hm, hn⟩ := clearPages_maps.1 hm
    have := hO.frame s p f hm
    exact ⟨this.1, (hkeep s p f hm hn).trans this.2.1, this.2.2⟩
  · exact hO.inj s p s' p' f (clearPages_maps.1 hm).1 (clearPages_maps.1 hm').1

/-- **Mapping a free frame** at a heap page that had none. -/
theorem map {p₀ : ℕ} (hp : heapStart ≤ p₀) (he : IsEven f) (hf : phys f = frameFree) :
    Owned (useAll phys [f]) (fun s q => if s = T ∧ q = p₀ then userPte f else t s q) := by
  have hp' : pagLogInitData ≤ p₀ := by simp at hp ⊢; omega
  have huse : ∀ g, phys g = frameUsed → useAll phys [f] g = frameUsed := by
    intro g hg; simp only [useAll]; split <;> first | rfl | exact hg
  have hcode : ∀ c < numPagCode, f ≠ codeFrame c := by
    rintro c hc rfl
    rw [hO.code_used c hc] at hf; exact frameUsed_ne_free hf
  have hfree : Freeable f := by
    refine ⟨lt_of_le_of_ne he.1 fun h => hcode 0 (by simp) ?_, he.2.1⟩
    rw [← h]; rfl
  have hbelow : ∀ s p, p < pagLogInitData → (if s = T ∧ p = p₀ then userPte f else t s p) = t s p :=
    fun s p h => if_neg (by omega)
  refine ⟨fun c hc => huse _ (hO.code_used c hc), fun s p h => ?_, fun s p h1 h2 h3 => ?_,
    fun s p h1 h2 => ?_, fun s p g hm => ?_, fun s p s' p' g hm hm' => ?_⟩
  · rw [hbelow s p (by simp at h ⊢; omega)]; exact hO.kernel s p h
  · rw [hbelow s p h2] at h3 ⊢; exact hO.code s p h1 h2 h3
  · split at h2
    · cases h2
    · rename_i h; rw [if_neg h]; exact hO.empty s p h1 h2
  · rcases (setPage_maps he.2.1 hp').1 hm with ⟨-, -, rfl⟩ | ⟨hm, -⟩
    · exact ⟨hfree, by simp [useAll], hcode⟩
    · have := hO.frame s p g hm
      exact ⟨this.1, huse g this.2.1, this.2.2⟩
  · rcases (setPage_maps he.2.1 hp').1 hm with ⟨rfl, rfl, rfl⟩ | ⟨h1, -⟩ <;>
      rcases (setPage_maps he.2.1 hp').1 hm' with ⟨rfl, rfl, h⟩ | ⟨h2, -⟩
    · exact ⟨rfl, rfl⟩
    · exact absurd h2 (hO.not_maps_free hf)
    · exact absurd (h ▸ h1) (hO.not_maps_free hf)
    · exact hO.inj s p s' p' g h1 h2

/-- **The tables after a fork.** -/
theorem fork (hT : ∀ p, pagLogInitCode ≤ p → p < pagLogInitData → (t T p).present = true)
    (hl : fs.length = numPagData) (hn : fs.Nodup) (hfs : ∀ f ∈ fs, IsEven f ∧ phys f = frameFree) :
    Owned (useAll phys fs) (forkTable t T c fs) := by
  have huse : ∀ g, phys g = frameUsed → useAll phys fs g = frameUsed := by
    intro g hg; simp only [useAll]; split <;> first | rfl | exact hg
  have hmem : ∀ {p}, pagLogInitData ≤ p → p < heapStart → ∃ h : p - pagLogInitData < fs.length,
      fs.getD (p - pagLogInitData) 0 = fs[p - pagLogInitData] := by
    intro p h1 h2
    have hlt : p - pagLogInitData < fs.length := by rw [hl]; simp at h1 h2 ⊢; omega
    exact ⟨hlt, List.getD_eq_getElem _ _ hlt⟩
  -- the new frames were free, those of the code are not
  have hcode : ∀ f ∈ fs, ∀ c < numPagCode, f ≠ codeFrame c := by
    rintro f hf c hc rfl
    have := (hfs _ hf).2
    rw [hO.code_used c hc] at this; exact frameUsed_ne_free this
  have hfree : ∀ f ∈ fs, Freeable f := by
    intro f hf
    refine ⟨lt_of_le_of_ne (hfs f hf).1.1 fun h => hcode f hf 0 (by simp) ?_, (hfs f hf).1.2.1⟩
    rw [← h]; rfl
  have hmaps := fun s p f => forkTable_maps (t := t) (T := T) (c := c) (s := s) (p := p) (f := f) hl
    fun g hg => (hfs g hg).1
  refine ⟨fun c hc => huse _ (hO.code_used c hc), fun s p h => ?_, fun s p h1 h2 h3 => ?_,
    fun s p h1 h2 => ?_, fun s p g hm => ?_, fun s p s' p' g hm hm' => ?_⟩
  · rw [forkTable_low (by simp at h ⊢; omega)]
    split
    · have := hO.kernel T p h
      rw [userPte_pbase (by simp at this ⊢; omega)]; exact this
    · exact hO.kernel s p h
  · rw [forkTable_low h2] at h3 ⊢
    split at h3
    · rename_i h
      have := hO.code T p h1 h2 (hT p h1 h2)
      rw [if_pos h, userPte_pbase (by rw [this]; simp [codeFrame] at h1 h2 ⊢; omega)]; exact this
    · rename_i h; rw [if_neg h]; exact hO.code s p h1 h2 h3
  · unfold forkTable at h2 ⊢
    split at h2
    · rename_i h; rw [if_pos h]
    · rename_i hw; rw [if_neg hw]
      split at h2
      · cases h2
      · rename_i hb; rw [if_neg hb]
        split at h2
        · cases h2
        · rename_i hc; rw [if_neg hc]; exact hO.empty s p h1 h2
  · rcases (hmaps s p g).1 hm with ⟨-, h1, h2, rfl⟩ | ⟨hm, -⟩
    · obtain ⟨hlt, hg⟩ := hmem h1 h2
      rw [hg]
      have hin := List.getElem_mem hlt
      exact ⟨hfree _ hin, if_pos hin, hcode _ hin⟩
    · have := hO.frame s p g hm
      exact ⟨this.1, huse g this.2.1, this.2.2⟩
  · rcases (hmaps s p g).1 hm with ⟨rfl, h1, h2, rfl⟩ | ⟨h3, -⟩ <;>
      rcases (hmaps s' p' _).1 hm' with ⟨rfl, h1', h2', h⟩ | ⟨h3', -⟩
    · obtain ⟨hlt, hg⟩ := hmem h1 h2
      obtain ⟨hlt', hg'⟩ := hmem h1' h2'
      rw [hg, hg', hn.getElem_inj_iff] at h
      exact ⟨rfl, by omega⟩
    · obtain ⟨hlt, hg⟩ := hmem h1 h2
      exact absurd (hg ▸ h3') (hO.not_maps_free (hfs _ (List.getElem_mem hlt)).2)
    · obtain ⟨hlt, hg⟩ := hmem h1' h2'
      exact absurd (hg ▸ h ▸ h3) (hO.not_maps_free (hfs _ (List.getElem_mem hlt)).2)
    · exact hO.inj s p s' p' g h3 h3'

end Owned

variable {a a' : AState} {e : Event} {M : Machine} {k k' : Kernel} {tr : KTrace}

theorem freeAll_changed {F : ℕ → Prop} (h : freeAll phys F g ≠ phys g) : Freeable g ∧ F g := by
  unfold freeAll at h
  split at h
  · rename_i h'; exact h'.symm
  · exact absurd rfl h

theorem Owned.alloc (hO : Owned a.phys a.table) (h : a.Alloc a') : Owned a'.phys a'.table := by
  cases h with
  | noPage _ => exact hO
  | noFrame _ => exact hO
  | page p f h1 _ _ _ he hf => exact hO.map h1 he hf

theorem Owned.unmap (hO : Owned a.phys a.table) {p : ℕ} (hp : heapStart ≤ p) :
    Owned (a.unmap p).phys (a.unmap p).table := by
  refine hO.clear (by simp at hp ⊢; omega) fun g hg => ?_
  obtain ⟨h1, h2⟩ := freeAll_changed hg
  exact ⟨h1, p, le_rfl, Nat.lt_succ_self p, h2⟩

theorem release_phys : a.release.phys =
    freeAll a.phys fun g => ∃ i < numPagData, (a.table a.tab (pagLogInitData + i)).pbaseAddr = g := rfl

theorem Owned.release (hO : Owned a.phys a.table) : Owned a.release.phys a.release.table := by
  refine hO.clear le_rfl fun g hg => ?_
  rw [release_phys] at hg
  obtain ⟨h1, i, hi, h2⟩ := freeAll_changed hg
  exact ⟨h1, pagLogInitData + i, by omega, by simp at hi ⊢; omega, h2⟩

/-- **The calls on memory keep the ownership of frames.** -/
theorem MemStep.owned (hW : WF k a) (hc : a.current ≠ a.idle) (hC : HasCode a) (hO : Owned a.phys a.table)
    (h : MemStep a e a') : Owned a'.phys a'.table := by
  cases h with
  | forkNone _ => exact hO
  | forkFail _ _ => exact hO.clear le_rfl fun g hg => absurd rfl hg
  | forkOk _ _ hl hn hfs => exact hO.fork (hC _ hW.current_live hc) hl hn hfs
  | exit => exact hO.release
  | alloc h => exact hO.alloc h
  | deallocBad _ => exact hO
  | dealloc h => exact hO.unmap h.1
  | threadNone _ => exact hO
  | thread _ h =>
    have := hO.alloc h
    exact this
  | terminateBad _ => exact hO
  | terminate h => exact hO.unmap h.1

/-- The calls on memory leave the code pages in place. -/
theorem MemStep.hasCode (hW : WF k a) (hc : a.current ≠ a.idle) (hC : HasCode a) (h : MemStep a e a') :
    HasCode a' := by
  intro s hs hsi p h1 h2
  rcases h.inherits hW hc with ⟨u, b, c, rest, fs, -, rfl, hq, -⟩ | ⟨hI, -⟩
  · rw [forkOk_table, forkTable_low h2, forkOk_dir]
    by_cases hsc : s = c
    · rw [if_pos hsc, if_pos rfl]; rfl
    · have hl := ((forkOk_live hW.free_nodup hq).1 hs).resolve_right hsc
      rw [if_neg hsc]
      split
      · rfl
      · exact hC s hl hsi p h1 h2
  · obtain ⟨s₀, hl, hd, hi⟩ := hI.dir s hs
    rw [hI.low _ _ h2, hd]
    exact hC s₀ hl (fun h => hsi ((hi h).trans hI.idle.symm)) p h1 h2

/-! ### Along a run -/

variable {L : Layout}

theorem kernelPte_above (hp : numPagKernel ≤ p) : kernelPte L p = {} := if_pos (.inr hp)

theorem bootTable_maps : Maps (bootTable L) s p f ↔
    s = 1 ∧ pagLogInitData ≤ p ∧ p < heapStart ∧ f = dataFrame (p - pagLogInitData) := by
  by_cases hd : s = 1 ∧ pagLogInitData ≤ p ∧ p < heapStart
  · have hcode : ¬ (s = 1 ∧ pagLogInitCode ≤ p ∧ p < pagLogInitData) := by omega
    rw [Maps, show bootTable L s p = _ by rw [bootTable, if_neg hcode, if_pos hd]]
    constructor
    · rintro ⟨h1, -, h2⟩; exact ⟨hd.1, h1, hd.2.2, h2.symm⟩
    · rintro ⟨-, h1, -, h2⟩; exact ⟨h1, rfl, h2.symm⟩
  · constructor
    · rintro ⟨h1, h2, -⟩
      have hcode : ¬ (s = 1 ∧ pagLogInitCode ≤ p ∧ p < pagLogInitData) := by omega
      rw [bootTable, if_neg hcode, if_neg hd, kernelPte_above (by simp at h1 ⊢; omega)] at h2
      cases h2
    · rintro ⟨h1, h2, h3, -⟩; exact absurd ⟨h1, h2, h3⟩ hd

theorem boot_owned (L : Layout) : Owned bootPhys (bootTable L) := by
  have hphys : ∀ j < numPagCode + numPagData, bootPhys (codeFrame j) = frameUsed := fun j hj => by
    rw [bootPhys, physAfter, if_pos]; right; simp [codeFrame] at hj ⊢; omega
  refine ⟨fun c hc => hphys c (by simp at hc ⊢; omega), fun s p h => ?_, fun s p h1 h2 h3 => ?_,
    fun s p h1 h2 => ?_, fun s p f hm => ?_, fun s p s' p' f hm hm' => ?_⟩
  · have h1 : ¬ (s = 1 ∧ pagLogInitCode ≤ p ∧ p < pagLogInitData) := by simp at h ⊢; omega
    have h2 : ¬ (s = 1 ∧ pagLogInitData ≤ p ∧ p < heapStart) := by simp at h ⊢; omega
    rw [bootTable, if_neg h1, if_neg h2, kernelPte]
    split
    · simp
    · exact h
  · by_cases hs : s = 1
    · rw [bootTable, if_pos ⟨hs, h1, h2⟩]
    · rw [bootTable, if_neg fun h => hs h.1, if_neg fun h => hs h.1, kernelPte_above h1] at h3
      cases h3
  · have hcode : ¬ (s = 1 ∧ pagLogInitCode ≤ p ∧ p < pagLogInitData) := by omega
    rw [bootTable, if_neg hcode] at h2 ⊢
    split at h2
    · cases h2
    · rename_i hd; rw [if_neg hd, kernelPte_above (by simp at h1 ⊢; omega)]
  · obtain ⟨-, h1, h2, h3⟩ := bootTable_maps.1 hm
    rw [h3]
    refine ⟨?_, hphys _ (by simp at h1 h2 ⊢; omega), fun c hc => ?_⟩
    · simp [Freeable, dataFrame, codeFrame] at h1 h2 ⊢; omega
    · simp [dataFrame, codeFrame] at hc h1 ⊢; omega
  · obtain ⟨hs, h1, h2, h3⟩ := bootTable_maps.1 hm
    obtain ⟨hs', h1', h2', h3'⟩ := bootTable_maps.1 hm'
    refine ⟨hs.trans hs'.symm, ?_⟩
    rw [h3] at h3'
    simp only [dataFrame, codeFrame] at h3'
    omega

theorem boot_hasCode (M : Machine) : HasCode (bootState M) := by
  intro s hs hsi p h1 h2
  have hfree : ∀ s : Slot, Node.task s ∉ bootFree → s = 0 ∨ s = 1 := by decide
  rcases hfree s (by simpa [AState.Live, bootState] using hs) with rfl | rfl
  · exact absurd rfl hsi
  · exact congrArg Pte.present (if_pos ⟨rfl, h1, h2⟩)

/-- **Along every run each mapped frame has one owner**, and the tables of live tasks have
their code pages. -/
theorem run_owned (hr : KRun M tr k) : ∃ a, WF k a ∧ Owned a.phys a.table ∧ HasCode a := by
  refine run_memory (P := fun a => Owned a.phys a.table ∧ HasCode a)
    ⟨boot_owned M.layout, boot_hasCode M⟩ ?_ ?_ hr
  · rintro a a' hs ⟨hO, hC⟩
    refine ⟨by rw [hs.phys, hs.table]; exact hO, fun s hl hsi p h1 h2 => ?_⟩
    rw [hs.table, hs.dir]
    exact hC s (hs.live.1 hl) (hs.idle ▸ hsi) p h1 h2
  · rintro k a e a' hW hc ⟨hO, hC⟩ h
    exact ⟨h.owned hW hc hC hO, h.hasCode hW hc hC⟩

theorem Owned.not_present_free (hO : Owned phys t) (hf : IsEven f) (hfree : phys f = frameFree)
    (hp : (t s p).present = true) : (t s p).pbaseAddr ≠ f := by
  rintro rfl
  by_cases h1 : pagLogInitData ≤ p
  · exact hO.not_maps_free hfree ⟨h1, hp, rfl⟩
  by_cases h2 : pagLogInitCode ≤ p
  · rw [hO.code s p h2 (by omega) hp,
      hO.code_used _ (by simp at h1 h2 ⊢; omega)] at hfree
    exact frameUsed_ne_free hfree
  · have := hO.kernel s p (by simp at h2 ⊢; omega)
    exact absurd hf.1 (by omega)

end Zeos
