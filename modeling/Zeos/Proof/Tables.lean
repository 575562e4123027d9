import Mathlib.Data.Finset.Card
import Mathlib.Data.List.GetD
import Mathlib.Order.Nat
import Zeos.Sys

/-!
# What the paging functions do to the frame map and the page tables

Closed forms of the loops over pages: for each function, the frame map and the
page tables after it as functions of those before it.

* `allocFrame_lowest`: the lowest free frame is now used, or no frame is left.
* `releaseData_table`, `releaseData_phys`: the release of data pages.
* `forkData_cases`: the data pages of a child, all of them or none.
* `forkSystem_table`, `forkCopy_window`, `forkCopy_ok`: the rest of a fork.
-/

namespace Zeos

open ForLoop

/-- The two memories differ in the bytes of the frames at most. -/
structure Mm.SameTables (m m' : Mm) : Prop where
  phys : m'.physMem = m.physMem
  table : m'.pagusrTable = m.pagusrTable
  dirs : m'.dirPages = m.dirPages

theorem Mm.SameTables.refl (m : Mm) : m.SameTables m := ⟨rfl, rfl, rfl⟩

theorem Mm.SameTables.trans {m m' m'' : Mm} (h : m.SameTables m') (h' : m'.SameTables m'') :
    m.SameTables m'' :=
  ⟨h'.phys.trans h.phys, h'.table.trans h.table, h'.dirs.trans h.dirs⟩

/-- The entry `set_ss_pag` writes. -/
def userPte (frame : ℕ) : Pte :=
  { present := true, rwBit := true, user := true, pbaseAddr := frame % 2 ^ 20 }

variable {m m' : Mm} {PT : Slot}

section Fields

variable (s : Slot) (p g page frame : ℕ) (e : Pte) (b : Byte)

@[simp] theorem setPte_table :
    (m.setPte PT page e).pagusrTable s p = if s = PT ∧ p = page then e else m.pagusrTable s p := rfl

@[simp] theorem setPte_phys : (m.setPte PT page e).physMem = m.physMem := rfl

@[simp] theorem setPte_dirs : (m.setPte PT page e).dirPages = m.dirPages := rfl

@[simp] theorem setPhys_phys :
    (m.setPhys frame b).physMem g = if g = frame then b else m.physMem g := by
  simp [Mm.setPhys, Function.update_apply]

@[simp] theorem setPhys_table : (m.setPhys frame b).pagusrTable = m.pagusrTable := rfl

@[simp] theorem setPhys_dirs : (m.setPhys frame b).dirPages = m.dirPages := rfl

theorem setSsPag_eq : m.setSsPag PT page frame = m.setPte PT page (userPte frame) := rfl

theorem delSsPag_eq : m.delSsPag PT page = m.setPte PT page {} := rfl

@[simp] theorem freeFrame_table : (m.freeFrame frame).pagusrTable = m.pagusrTable := by
  unfold Mm.freeFrame; split <;> rfl

@[simp] theorem freeFrame_dirs : (m.freeFrame frame).dirPages = m.dirPages := by
  unfold Mm.freeFrame; split <;> rfl

theorem freeFrame_phys :
    (m.freeFrame frame).physMem g =
      if g = frame ∧ numPagKernel < g ∧ g < totalPages then frameFree else m.physMem g := by
  unfold Mm.freeFrame
  by_cases h : numPagKernel < frame ∧ frame < totalPages
  · rw [if_pos h]
    by_cases hg : g = frame
    · subst hg; rw [setPhys_phys, if_pos rfl, if_pos ⟨rfl, h⟩]
    · rw [setPhys_phys, if_neg hg, if_neg fun h => hg h.1]
  · rw [if_neg h, if_neg]
    rintro ⟨rfl, h'⟩; exact h h'

end Fields

/-! ### Frames -/

/-- The frames that `alloc_frame` visits. -/
def IsEven (f : ℕ) : Prop := numPagKernel ≤ f ∧ f < totalPages ∧ f % 2 = 0

instance (f : ℕ) : Decidable (IsEven f) := inferInstanceAs (Decidable (_ ∧ _))

theorem allocFrameFrom_cases : ∀ n i, i + 2 * n = totalPages → i % 2 = 0 →
    ((∃ f, m.allocFrameFrom n i = (some f, m.setPhys f frameUsed) ∧ m.physMem f = frameFree ∧
      (∀ g, i ≤ g → g < f → g % 2 = 0 → m.physMem g ≠ frameFree) ∧ i ≤ f ∧ f < totalPages ∧ f % 2 = 0) ∨
    (m.allocFrameFrom n i = (none, m) ∧
      ∀ f, i ≤ f → f < totalPages → f % 2 = 0 → m.physMem f ≠ frameFree)) := by
  intro n
  induction n with
  | zero => intro i hi _; right; exact ⟨rfl, fun f h1 h2 => by simp at hi h2; omega⟩
  | succ n ih =>
    intro i hi h2
    unfold Mm.allocFrameFrom
    split
    · rename_i hf
      left; exact ⟨i, rfl, hf, fun g h1 h3 => by omega, le_rfl, by simp at hi ⊢; omega, h2⟩
    · rename_i hf
      rcases ih (i + 2) (by simp at hi ⊢; omega) (by omega) with ⟨f, h, h', hlow, h''⟩ | ⟨h, hn⟩
      · left
        refine ⟨f, h, h', fun g h1 h3 h4 => ?_, by omega, h''.2⟩
        rcases Nat.eq_or_lt_of_le h1 with rfl | h5
        · exact hf
        · exact hlow g (by omega) h3 h4
      · right; refine ⟨h, fun f h1 h3 h4 => ?_⟩
        rcases Nat.eq_or_lt_of_le h1 with rfl | h5
        · exact hf
        · exact hn f (by omega) h3 h4

/-- **`alloc_frame`** marks the lowest free frame of the visited ones, or finds none of them free. -/
theorem allocFrame_lowest (m : Mm) :
    (∃ f, m.allocFrame = (some f, m.setPhys f frameUsed) ∧ IsEven f ∧ m.physMem f = frameFree ∧
      ∀ g, IsEven g → g < f → m.physMem g ≠ frameFree) ∨
    (m.allocFrame = (none, m) ∧ ∀ f, IsEven f → m.physMem f ≠ frameFree) := by
  rcases allocFrameFrom_cases (m := m) ((totalPages - numPagKernel) / 2) numPagKernel rfl rfl with
    ⟨f, h1, h2, hlow, h3, h4, h5⟩ | ⟨h1, h2⟩
  · exact .inl ⟨f, h1, ⟨h3, h4, h5⟩, h2, fun g hg hgf => hlow g hg.1 hgf hg.2.2⟩
  · exact .inr ⟨h1, fun f hf => h2 f hf.1 hf.2.1 hf.2.2⟩

/-- `alloc_frame` marks a free frame of the visited ones, or finds none of them free. -/
theorem allocFrame_cases (m : Mm) :
    (∃ f, m.allocFrame = (some f, m.setPhys f frameUsed) ∧ IsEven f ∧ m.physMem f = frameFree) ∨
    (m.allocFrame = (none, m) ∧ ∀ f, IsEven f → m.physMem f ≠ frameFree) := by
  rcases allocFrame_lowest m with ⟨f, h1, h2, h3, -⟩ | h
  · exact .inl ⟨f, h1, h2, h3⟩
  · exact .inr h

theorem frameUsed_ne_free : frameUsed ≠ frameFree := by decide

/-- How many of the frames `alloc_frame` visits are free. -/
def freeFrames (phys : ℕ → Byte) : ℕ :=
  ((Finset.range totalPages).filter fun f => IsEven f ∧ phys f = frameFree).card

/-- Distinct free frames, all of them: they are as many as there are. -/
theorem length_eq_freeFrames {phys : ℕ → Byte} {fs : List ℕ} (hn : fs.Nodup)
    (hf : ∀ f, f ∈ fs ↔ IsEven f ∧ phys f = frameFree) : fs.length = freeFrames phys := by
  rw [← List.toFinset_card_of_nodup hn, freeFrames]
  refine congrArg Finset.card (Finset.ext fun f => ?_)
  rw [List.mem_toFinset, hf, Finset.mem_filter, Finset.mem_range]
  exact ⟨fun h => ⟨h.1.2.1, h⟩, fun h => h.2⟩

theorem length_le_freeFrames {phys : ℕ → Byte} {fs : List ℕ} (hn : fs.Nodup)
    (hf : ∀ f ∈ fs, IsEven f ∧ phys f = frameFree) : fs.length ≤ freeFrames phys := by
  rw [← List.toFinset_card_of_nodup hn]
  refine Finset.card_le_card fun f h => ?_
  have h' := hf f (List.mem_toFinset.1 h)
  exact Finset.mem_filter.2 ⟨Finset.mem_range.2 h'.1.2.1, h'⟩

/-! ### Release of data pages -/

theorem releaseData_step (i : ℕ) :
    releaseData m PT (i + 1) =
      let m := releaseData m PT i
      (m.freeFrame (m.getFrame PT (pagLogInitData + i))).delSsPag PT (pagLogInitData + i) := by
  simp only [releaseData, forRange_succ, Nat.zero_add]

theorem releaseData_dirs (n : ℕ) : (releaseData m PT n).dirPages = m.dirPages := by
  induction n with
  | zero => rfl
  | succ n ih => rw [releaseData_step]; simp [delSsPag_eq, ih]

theorem releaseData_table (n : ℕ) (s : Slot) (p : ℕ) :
    (releaseData m PT n).pagusrTable s p =
      if s = PT ∧ pagLogInitData ≤ p ∧ p < pagLogInitData + n then {} else m.pagusrTable s p := by
  induction n with
  | zero => rw [if_neg (by omega)]; rfl
  | succ n ih =>
    rw [releaseData_step]
    simp only [delSsPag_eq, setPte_table, freeFrame_table, ih]
    by_cases hs : s = PT
    · subst hs
      by_cases hp : p = pagLogInitData + n
      · subst hp; simp
      · simp only [true_and, hp, if_false]
        congr 1; apply propext; omega
    · simp [hs]

theorem releaseData_phys (n g : ℕ) :
    (releaseData m PT n).physMem g =
      if (∃ i < n, m.getFrame PT (pagLogInitData + i) = g) ∧ numPagKernel < g ∧ g < totalPages
      then frameFree else m.physMem g := by
  induction n with
  | zero => simp [releaseData]
  | succ n ih =>
    rw [releaseData_step]
    have hget : (releaseData m PT n).getFrame PT (pagLogInitData + n) =
        m.getFrame PT (pagLogInitData + n) := by
      simp [Mm.getFrame, releaseData_table]
    simp only [delSsPag_eq, setPte_phys, freeFrame_phys, hget, ih]
    have hex : (∃ i < n + 1, m.getFrame PT (pagLogInitData + i) = g) ↔
        g = m.getFrame PT (pagLogInitData + n) ∨ ∃ i < n, m.getFrame PT (pagLogInitData + i) = g := by
      constructor
      · rintro ⟨i, hi, h⟩
        rcases Nat.lt_succ_iff_lt_or_eq.1 hi with h' | rfl
        · exact .inr ⟨i, h', h⟩
        · exact .inl h.symm
      · rintro (h | ⟨i, hi, h⟩)
        · exact ⟨n, Nat.lt_succ_self n, h.symm⟩
        · exact ⟨i, by omega, h⟩
    by_cases hr : numPagKernel < g ∧ g < totalPages
    · by_cases h1 : g = m.getFrame PT (pagLogInitData + n)
      · rw [if_pos ⟨h1, hr⟩, if_pos ⟨hex.2 (.inl h1), hr⟩]
      · rw [if_neg fun h => h1 h.1]
        refine if_congr ⟨fun h => ⟨hex.2 (.inr h.1), hr⟩, fun h => ?_⟩ rfl rfl
        exact ⟨(hex.1 h.1).resolve_left h1, hr⟩
    · rw [if_neg fun h => hr h.2, if_neg fun h => hr h.2, if_neg fun h => hr h.2]

/-! ### The data pages of a child -/

/-- The frames `fs`, free in `m`, are used in `m'` and mapped from page `PAG_LOG_INIT_DATA`
of `PT` on; all else is as in `m`. -/
structure Grabbed (m m' : Mm) (PT : Slot) (fs : List ℕ) : Prop where
  nodup : fs.Nodup
  even : ∀ f ∈ fs, IsEven f
  free : ∀ f ∈ fs, m.physMem f = frameFree
  phys : ∀ g, m'.physMem g = if g ∈ fs then frameUsed else m.physMem g
  table : ∀ s p, m'.pagusrTable s p =
    if s = PT ∧ pagLogInitData ≤ p ∧ p < pagLogInitData + fs.length
    then userPte (fs.getD (p - pagLogInitData) 0) else m.pagusrTable s p
  dirs : m'.dirPages = m.dirPages

theorem Grabbed.nil (m : Mm) (PT : Slot) : Grabbed m m PT [] := by
  refine ⟨by simp, by simp, by simp, by simp, fun s p => ?_, rfl⟩
  rw [if_neg]; rintro ⟨-, h1, h2⟩; rw [List.length_nil] at h2; omega

/-- One round of the allocation loop. -/
theorem Grabbed.snoc {fs : List ℕ} (h : Grabbed m m' PT fs) {f : ℕ} (he : IsEven f)
    (hf : m'.physMem f = frameFree) :
    Grabbed m ((m'.setPhys f frameUsed).setSsPag PT (pagLogInitData + fs.length) f) PT (fs ++ [f]) := by
  have hnew : f ∉ fs := fun hm => by
    rw [h.phys, if_pos hm] at hf; exact frameUsed_ne_free hf
  rw [h.phys, if_neg hnew] at hf
  refine ⟨?_, ?_, ?_, fun g => ?_, fun s p => ?_, ?_⟩
  · exact List.nodup_append.2 ⟨h.nodup, by simp, by
      intro a ha b hb; simp at hb; subst hb; rintro rfl; exact hnew ha⟩
  · intro g hg; rcases List.mem_append.1 hg with hg | hg
    · exact h.even g hg
    · simp at hg; subst hg; exact he
  · intro g hg; rcases List.mem_append.1 hg with hg | hg
    · exact h.free g hg
    · simp at hg; subst hg; exact hf
  · rw [setSsPag_eq, setPte_phys, setPhys_phys, h.phys]
    by_cases h1 : g = f <;> by_cases h2 : g ∈ fs <;> simp [h1, h2]
  · rw [setSsPag_eq, setPte_table, setPhys_table, h.table]
    by_cases hs : s = PT
    · subst hs
      by_cases hp : p = pagLogInitData + fs.length
      · subst hp; simp
      · rw [if_neg fun h => hp h.2]
        by_cases hr : pagLogInitData ≤ p ∧ p < pagLogInitData + fs.length
        · rw [if_pos ⟨rfl, hr⟩, if_pos ⟨rfl, hr.1, by simp at hr ⊢; omega⟩,
            List.getD_append _ _ _ _ (by omega)]
        · rw [if_neg fun h => hr h.2, if_neg]
          rintro ⟨-, h1, h2⟩; apply hr; simp at h1 h2 hp ⊢; omega
    · rw [if_neg fun h => hs h.1, if_neg fun h => hs h.1, if_neg fun h => hs h.1]
  · simp [setSsPag_eq, h.dirs]

/-- The release of the pages taken so far puts the frame map back, if frame
`NUM_PAG_KERNEL`, which `free_frame` refuses, was not among them. -/
theorem Grabbed.release {fs : List ℕ} (h : Grabbed m m' PT fs)
    (h256 : m.physMem numPagKernel ≠ frameFree) (g : ℕ) :
    (releaseData m' PT fs.length).physMem g = m.physMem g := by
  have hget : ∀ i < fs.length, m'.getFrame PT (pagLogInitData + i) = fs.getD i 0 := by
    intro i hi
    have hm : fs.getD i 0 ∈ fs := by rw [List.getD_eq_getElem _ _ hi]; exact List.getElem_mem hi
    have hlt := (h.even _ hm).2.1
    rw [Mm.getFrame, h.table, if_pos ⟨rfl, by omega, by omega⟩]
    simp only [userPte, Nat.add_sub_cancel_left]
    exact Nat.mod_eq_of_lt (by simp at hlt ⊢; omega)
  rw [releaseData_phys, h.phys]
  by_cases hg : g ∈ fs
  · obtain ⟨i, hi, rfl⟩ := List.mem_iff_getElem.1 hg
    have hne : fs[i] ≠ numPagKernel := fun e => h256 (e ▸ h.free _ hg)
    have he := h.even _ hg
    rw [if_pos, h.free _ hg]
    refine ⟨⟨i, hi, ?_⟩, lt_of_le_of_ne he.1 (Ne.symm hne), he.2.1⟩
    rw [hget i hi, List.getD_eq_getElem _ _ hi]
  · rw [if_neg hg, if_neg]
    rintro ⟨⟨i, hi, e⟩, -⟩
    rw [hget i hi, List.getD_eq_getElem _ _ hi] at e
    exact hg (e ▸ List.getElem_mem hi)

theorem forkData_loop : ∀ n fs (m' : Mm), Grabbed m m' PT fs → fs.length + n = numPagData →
    (∃ gs m'', gs.length = numPagData ∧ Grabbed m m'' PT gs ∧
      forkData PT n fs.length m' = (true, m'')) ∨
    (∃ gs m'', gs.length < numPagData ∧ Grabbed m m'' PT gs ∧
      (∀ f, IsEven f → m''.physMem f ≠ frameFree) ∧
      forkData PT n fs.length m' = (false, releaseData m'' PT gs.length)) := by
  intro n
  induction n with
  | zero => intro fs m' h hl; exact .inl ⟨fs, m', hl, h, rfl⟩
  | succ n ih =>
    intro fs m' h hl
    rcases allocFrame_cases m' with ⟨f, ha, he, hf⟩ | ⟨ha, hn⟩
    · have h' := h.snoc he hf
      have hstep : forkData PT (n + 1) fs.length m' = forkData PT n (fs ++ [f]).length
          ((m'.setPhys f frameUsed).setSsPag PT (pagLogInitData + fs.length) f) := by
        simp [forkData, ha]
      rw [hstep]
      exact ih _ _ h' (by simp at hl ⊢; omega)
    · refine .inr ⟨fs, m', by omega, h, hn, ?_⟩
      simp [forkData, ha]

/-- **The data pages of a child**: all of them with fresh frames, or the frames have run
out and those taken are released. -/
theorem forkData_cases (m : Mm) (PT : Slot) :
    (∃ fs m', fs.length = numPagData ∧ numPagData ≤ freeFrames m.physMem ∧ Grabbed m m' PT fs ∧
      forkData PT numPagData 0 m = (true, m')) ∨
    (∃ fs m', fs.length = freeFrames m.physMem ∧ freeFrames m.physMem < numPagData ∧
      Grabbed m m' PT fs ∧ forkData PT numPagData 0 m = (false, releaseData m' PT fs.length)) := by
  rcases forkData_loop numPagData [] m (Grabbed.nil m PT) (by simp) with
    ⟨fs, m', hl, hg, h⟩ | ⟨fs, m', hl, hg, hn, h⟩
  · refine .inl ⟨fs, m', hl, ?_, hg, h⟩
    rw [← hl]; exact length_le_freeFrames hg.nodup fun f hf => ⟨hg.even f hf, hg.free f hf⟩
  · have hc : fs.length = freeFrames m.physMem := by
      refine length_eq_freeFrames hg.nodup fun f => ⟨fun hf => ⟨hg.even f hf, hg.free f hf⟩, ?_⟩
      rintro ⟨he, hf⟩
      by_contra hm
      exact hn f he (by rw [hg.phys, if_neg hm, hf])
    exact .inr ⟨fs, m', hc, by omega, hg, h⟩

/-! ### The rest of a fork -/

/-- The loop that takes the entries of `parentPT` from page `lo` on over to `processPT`. -/
theorem takeOver_table {processPT parentPT : Slot} (lo n : ℕ) (s : Slot) (q : ℕ) :
    (forRange 0 n m fun m pag =>
      m.setSsPag processPT (lo + pag) (m.getFrame parentPT (lo + pag))).pagusrTable s q =
      if s = processPT ∧ lo ≤ q ∧ q < lo + n then userPte (m.getFrame parentPT q)
      else m.pagusrTable s q := by
  induction n generalizing s q with
  | zero => rw [if_neg (by omega)]; rfl
  | succ n ih =>
    rw [forRange_succ, Nat.zero_add, setSsPag_eq, setPte_table]
    have hget : Mm.getFrame (forRange 0 n m fun m pag =>
        m.setSsPag processPT (lo + pag) (m.getFrame parentPT (lo + pag))) parentPT (lo + n) =
        m.getFrame parentPT (lo + n) := by
      rw [Mm.getFrame, ih, if_neg (by omega)]; rfl
    rw [hget, ih]
    grind

theorem takeOver_rest {processPT parentPT : Slot} (lo n : ℕ) :
    (forRange 0 n m fun m pag =>
      m.setSsPag processPT (lo + pag) (m.getFrame parentPT (lo + pag))).physMem = m.physMem ∧
    (forRange 0 n m fun m pag =>
      m.setSsPag processPT (lo + pag) (m.getFrame parentPT (lo + pag))).dirPages = m.dirPages := by
  induction n with
  | zero => exact ⟨rfl, rfl⟩
  | succ n ih => rw [forRange_succ]; exact ih

theorem forkSystem_eq (processPT parentPT : Slot) :
    forkSystem m processPT parentPT =
      forRange 0 numPagCode (forRange 0 numPagKernel m fun m pag =>
        m.setSsPag processPT (0 + pag) (m.getFrame parentPT (0 + pag))) fun m pag =>
        m.setSsPag processPT (pagLogInitCode + pag) (m.getFrame parentPT (pagLogInitCode + pag)) := by
  simp only [forkSystem, Nat.zero_add]

/-- **The kernel and code pages of a child** have the parent's frames, all with the bits
of a user page. -/
theorem forkSystem_table (processPT parentPT s : Slot) (q : ℕ) :
    (forkSystem m processPT parentPT).pagusrTable s q =
      if s = processPT ∧ q < pagLogInitData then userPte (m.getFrame parentPT q)
      else m.pagusrTable s q := by
  have hadj : pagLogInitCode = numPagKernel := rfl
  have hget : ∀ q, numPagKernel ≤ q → Mm.getFrame (forRange 0 numPagKernel m fun m pag =>
      m.setSsPag processPT (0 + pag) (m.getFrame parentPT (0 + pag))) parentPT q =
      m.getFrame parentPT q := by
    intro q hq; rw [Mm.getFrame, takeOver_table, if_neg (by omega)]; rfl
  rw [forkSystem_eq, takeOver_table, takeOver_table]
  by_cases h1 : numPagKernel ≤ q
  · rw [hget q h1]; grind
  · grind

theorem forkSystem_rest (processPT parentPT : Slot) :
    (forkSystem m processPT parentPT).physMem = m.physMem ∧
      (forkSystem m processPT parentPT).dirPages = m.dirPages := by
  rw [forkSystem_eq]
  exact ⟨(takeOver_rest _ _).1.trans (takeOver_rest _ _).1,
    (takeOver_rest _ _).2.trans (takeOver_rest _ _).2⟩

theorem translate_page {dir : Slot} {page : ℕ} (hp : page < totalPages) :
    m.translate dir (BitVec.ofNat 32 (page * pageSize)) =
      if (m.pagusrTable (m.dirPages dir) page).present = true
      then .ok ((m.pagusrTable (m.dirPages dir) page).pbaseAddr, 0)
      else .error (.page (BitVec.ofNat 32 (page * pageSize))) := by
  have h1 : (BitVec.ofNat 32 (page * pageSize)).toNat = page * pageSize := by
    rw [BitVec.toNat_ofNat]; apply Nat.mod_eq_of_lt; simp at hp ⊢; omega
  unfold Mm.translate
  rw [h1]
  simp only [pageSize, Nat.mul_div_cancel _ (show 0 < 0x1000 by decide), Nat.mul_mod_left, hp, true_and]

theorem copyPage_same {dir : Slot} {start dest : ℕ} (h : m.copyPage dir start dest = .ok m') :
    m.SameTables m' := by
  unfold Mm.copyPage at h
  cases h1 : m.translate dir (BitVec.ofNat 32 (start * pageSize)) with
  | error e => rw [h1] at h; cases h
  | ok a =>
    rw [h1] at h
    cases h2 : m.translate dir (BitVec.ofNat 32 (dest * pageSize)) with
    | error e => simp only [Bind.bind, Except.bind, h2] at h; cases h
    | ok b => simp only [Bind.bind, Except.bind, h2] at h; cases h; exact ⟨rfl, rfl, rfl⟩

/-- `m'` is `m` with the entries of `PT` from the window up to page `hi` cleared. -/
structure WindowCleared (m m' : Mm) (PT : Slot) (hi : ℕ) : Prop where
  phys : m'.physMem = m.physMem
  dirs : m'.dirPages = m.dirPages
  table : ∀ s q, m'.pagusrTable s q =
    if s = PT ∧ heapStart ≤ q ∧ q < hi then {} else m.pagusrTable s q

theorem WindowCleared.round {m₂ : Mm} {processPT parentPT dir : Slot} {pag : ℕ}
    (h : WindowCleared m m' parentPT (pag + numPagData))
    (hlo : numPagKernel + numPagCode ≤ pag)
    (hc : Mm.copyPage (m'.setSsPag parentPT (pag + numPagData) (m'.getFrame processPT pag)) dir pag
      (pag + numPagData) = .ok m₂) :
    WindowCleared m (m₂.delSsPag parentPT (pag + numPagData)) parentPT (pag + 1 + numPagData) := by
  have hs := copyPage_same hc
  refine ⟨?_, ?_, fun s q => ?_⟩
  · rw [delSsPag_eq, setPte_phys, hs.phys, setSsPag_eq, setPte_phys, h.phys]
  · rw [delSsPag_eq, setPte_dirs, hs.dirs, setSsPag_eq, setPte_dirs, h.dirs]
  · rw [delSsPag_eq, setPte_table, hs.table, setSsPag_eq, setPte_table, h.table]
    grind

/-- **The copy loop of a fork** leaves the pages of its window unmapped. -/
theorem forkCopy_window {dir processPT parentPT : Slot}
    (h : forkCopy m dir processPT parentPT = .ok m') :
    WindowCleared m m' parentPT (heapStart + numPagData) := by
  refine forRangeM_inv (I := fun i m' => WindowCleared m m' parentPT (i + numPagData))
    ⟨rfl, rfl, fun s q => ?_⟩ ?_ h
  · rw [if_neg]; rintro ⟨-, h1, h2⟩; simp at h1 h2; omega
  · intro i m₁ m₂ hlo _ hI hb
    cases hc : Mm.copyPage (m₁.setSsPag parentPT (i + numPagData) (m₁.getFrame processPT i)) dir i
      (i + numPagData) with
    | error e => simp only [Bind.bind, Except.bind, hc] at hb; cases hb
    | ok m₃ =>
      simp only [Bind.bind, Except.bind, hc] at hb
      cases hb
      exact hI.round hlo hc

theorem copyPage_ok {dir : Slot} {start dest : ℕ} (hs : start < totalPages) (hd : dest < totalPages)
    (hps : (m.pagusrTable (m.dirPages dir) start).present = true)
    (hpd : (m.pagusrTable (m.dirPages dir) dest).present = true) :
    ∃ m', m.copyPage dir start dest = .ok m' := by
  unfold Mm.copyPage
  simp only [translate_page hs, translate_page hd, if_pos hps, if_pos hpd]
  exact ⟨_, rfl⟩

/-- The copy loop goes through when the data pages of the table in use are present. -/
theorem forkCopy_ok {dir processPT parentPT : Slot} (hd : m.dirPages dir = parentPT)
    (hp : ∀ p, pagLogInitData ≤ p → p < heapStart → (m.pagusrTable parentPT p).present = true) :
    ∃ m', forkCopy m dir processPT parentPT = .ok m' := by
  have hround : ∀ i m₁, numPagKernel + numPagCode ≤ i → i < numPagKernel + numPagCode + numPagData →
      WindowCleared m m₁ parentPT (i + numPagData) → ∃ m₂,
        Mm.copyPage (m₁.setSsPag parentPT (i + numPagData) (m₁.getFrame processPT i)) dir i
          (i + numPagData) = .ok m₂ := by
    intro i m₁ hlo hi hI
    have hdir : (m₁.setSsPag parentPT (i + numPagData) (m₁.getFrame processPT i)).dirPages dir =
        parentPT := by rw [setSsPag_eq, setPte_dirs, hI.dirs, hd]
    refine copyPage_ok (by simp at hi ⊢; omega) (by simp at hi ⊢; omega) ?_ ?_
    · rw [hdir, setSsPag_eq, setPte_table, if_neg (by simp), hI.table,
        if_neg (by rintro ⟨-, h1, -⟩; exact absurd h1 (Nat.not_le.2 hi))]
      exact hp i hlo hi
    · rw [hdir, setSsPag_eq, setPte_table, if_pos ⟨rfl, rfl⟩]; rfl
  have h0 : WindowCleared m m parentPT (numPagKernel + numPagCode + numPagData) :=
    ⟨rfl, rfl, fun s q => (if_neg (by rintro ⟨-, h1, h2⟩; simp at h1 h2; omega)).symm⟩
  obtain ⟨m', h, -⟩ := forRangeM_ok h0 fun i m₁ hlo hi hI =>
    let ⟨m₂, hc⟩ := hround i m₁ hlo hi hI
    ⟨_, bind_ok.2 ⟨m₂, hc, rfl⟩, hI.round hlo hc⟩
  exact ⟨m', h⟩

/-! ### The heap -/

theorem findLpage_some : ∀ {n i l : ℕ}, findLpage m PT n i = some l →
    i ≤ l ∧ l < i + n ∧ m.getFrame PT l = 0 ∧ ∀ q, i ≤ q → q < l → m.getFrame PT q ≠ 0 := by
  intro n
  induction n with
  | zero => intro i l h; cases h
  | succ n ih =>
    intro i l h
    unfold findLpage at h
    split at h
    · rename_i h0; cases h; exact ⟨le_rfl, by omega, h0, fun q h1 h2 => by omega⟩
    · rename_i h0
      obtain ⟨h1, h2, h3, h4⟩ := ih h
      refine ⟨by omega, by omega, h3, fun q hq hql => ?_⟩
      rcases Nat.eq_or_lt_of_le hq with rfl | hlt
      · exact h0
      · exact h4 q hlt hql

theorem findLpage_none : ∀ {n i : ℕ}, findLpage m PT n i = none →
    ∀ q, i ≤ q → q < i + n → m.getFrame PT q ≠ 0 := by
  intro n
  induction n with
  | zero => intro i _ q h1 h2; omega
  | succ n ih =>
    intro i h q h1 h2
    unfold findLpage at h
    split at h
    · cases h
    · rename_i h0
      rcases Nat.eq_or_lt_of_le h1 with rfl | hlt
      · exact h0
      · exact ih h q hlt (by omega)

/-! ### Stores -/

theorem storeByte_same {dir : Slot} {addr : Word} {b : Byte} (h : m.storeByte dir addr b = .ok m') :
    m.SameTables m' := by
  unfold Mm.storeByte at h
  cases ht : m.translate dir addr with
  | error e => rw [ht] at h; cases h
  | ok a => rw [ht] at h; cases h; exact ⟨rfl, rfl, rfl⟩

theorem storeWord_same {dir : Slot} {addr w : Word} (h : m.storeWord dir addr w = .ok m') :
    m.SameTables m' :=
  forRangeM_inv (I := fun _ m' => m.SameTables m') (Mm.SameTables.refl m)
    (fun _ _ _ _ _ hI hs => hI.trans (storeByte_same hs)) h

theorem storeBytes_same {dir : Slot} {bs : List Byte} {addr : Word}
    (h : Mm.storeBytes dir m addr bs = .ok m') : m.SameTables m' := by
  induction bs generalizing m addr with
  | nil => cases h; exact .refl _
  | cons b bs ih =>
    obtain ⟨m₁, h1, h2⟩ := bind_ok.1 h
    exact (storeByte_same h1).trans (ih h2)

theorem userStore_same {dir : Slot} {addr : Word} {b : Byte} (h : m.userStore dir addr b = .ok m') :
    m.SameTables m' := by
  simp only [Mm.userStore] at h
  split at h
  · split at h
    · exact storeByte_same h
    · cases h
  · cases h

theorem pushArgs_same {dir : Slot} {userStack function param : Word}
    (h : pushArgs m dir userStack function param = .ok m') : m.SameTables m' := by
  obtain ⟨m₁, h1, h⟩ := bind_ok.1 h
  obtain ⟨m₂, h2, h3⟩ := bind_ok.1 h
  exact ((storeWord_same h1).trans (storeWord_same h2)).trans (storeWord_same h3)

end Zeos
