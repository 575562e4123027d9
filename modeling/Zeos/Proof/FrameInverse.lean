import Zeos.Proof.Frames

/-!
# `free_frame` against `alloc_frame`

`alloc_frame` starts at frame `NUM_PAG_KERNEL`, but `free_frame` passes over it: its bound is strict.

* `allocFrames_cases`: what a sequence of allocations returns and leaves; `freeFrames_phys`: what
  frees leave, in any order.
* `frameInverse_iff`: **the two are inverse exactly where frame `NUM_PAG_KERNEL` is not free**.
* `run_frameInverse`: the boot gives this frame away for good, to a code page.
-/

namespace Zeos

open Execution

/-- `n` calls of `alloc_frame`, with the frames they return. -/
def Mm.allocFrames : ℕ → Mm → List ℕ × Mm
  | 0, m => ([], m)
  | n + 1, m => (m.allocFrame.1.toList ++ (allocFrames n m.allocFrame.2).1, (allocFrames n m.allocFrame.2).2)

/-- `alloc_frame` and `free_frame` at the frame map of `m`, as their comments describe them. -/
structure FrameInverse (m : Mm) : Prop where
  none : (∀ f, IsEven f → m.physMem f ≠ frameFree) → m.allocFrame = (none, m)
  lowest : ∀ f, IsEven f → m.physMem f = frameFree → (∀ g, IsEven g → g < f → m.physMem g ≠ frameFree) →
    m.allocFrame = (some f, m.setPhys f frameUsed)
  /-- A frame that an allocation returns can be freed again, whatever has happened in between. -/
  frees : ∀ n, ∀ f ∈ (m.allocFrames n).1, ∀ m' : Mm, (m'.freeFrame f).physMem f = frameFree
  /-- The frames of any allocations, freed in any order. -/
  restores : ∀ n (fs : List ℕ), fs.Perm (m.allocFrames n).1 → (fs.foldl Mm.freeFrame (m.allocFrames n).2).physMem = m.physMem

variable {m : Mm} {f : ℕ}

/-- A frame that `alloc_frame` visits is freed by `free_frame` unless it is the first. -/
theorem freeFrame_marks (h : IsEven f) : (∀ m : Mm, (m.freeFrame f).physMem f = frameFree) ↔ f ≠ numPagKernel := by
  constructor
  · rintro hm rfl
    have := hm { physMem := fun _ => frameUsed, dirPages := fun _ => 0, pagusrTable := fun _ _ => {}, ram := fun _ _ => 0 }
    rw [freeFrame_phys, if_neg fun h => absurd h.2.1 (lt_irrefl _)] at this
    exact frameUsed_ne_free this
  · intro hne m
    have hlt : numPagKernel < f := lt_of_le_of_ne h.1 (Ne.symm hne)
    rw [freeFrame_phys, if_pos ⟨rfl, hlt, h.2.1⟩]

/-- **A sequence of allocations** returns frames that were free, and marks these. -/
theorem allocFrames_cases (n : ℕ) (m : Mm) :
    (∀ f ∈ (m.allocFrames n).1, IsEven f ∧ m.physMem f = frameFree) ∧
    ∀ g, (m.allocFrames n).2.physMem g = if g ∈ (m.allocFrames n).1 then frameUsed else m.physMem g := by
  induction n generalizing m with
  | zero => exact ⟨fun f hf => absurd hf List.not_mem_nil, fun g => rfl⟩
  | succ n ih =>
    rcases allocFrame_cases m with ⟨f, h, hf, hfree⟩ | ⟨h, -⟩
    · obtain ⟨h1, h2⟩ := ih (m.setPhys f frameUsed)
      simp only [Mm.allocFrames, h, Option.toList_some, List.singleton_append, List.mem_cons]
      constructor
      · rintro g (rfl | hg)
        · exact ⟨hf, hfree⟩
        · have hg' := (h1 g hg).2
          rw [setPhys_phys] at hg'
          -- the frame marked first is not free any more
          have hne : g ≠ f := by
            rintro rfl
            rw [if_pos rfl] at hg'
            exact frameUsed_ne_free hg'
          rw [if_neg hne] at hg'
          exact ⟨(h1 g hg).1, hg'⟩
      · intro g
        rw [h2, setPhys_phys]
        by_cases hg : g = f
        · rw [if_pos hg, if_pos (Or.inl hg), ite_self]
        · simp only [hg, if_false, false_or]
    · simp only [Mm.allocFrames, h, Option.toList_none, List.nil_append]
      exact ih m

theorem freeFrames_phys (fs : List ℕ) (m : Mm) (g : ℕ) :
    (fs.foldl Mm.freeFrame m).physMem g =
      if g ∈ fs ∧ numPagKernel < g ∧ g < totalPages then frameFree else m.physMem g := by
  induction fs generalizing m with
  | nil => simp
  | cons f fs ih =>
    rw [List.foldl_cons, ih, freeFrame_phys]
    by_cases hg : g ∈ fs ∧ numPagKernel < g ∧ g < totalPages
    · rw [if_pos hg, if_pos ⟨List.mem_cons_of_mem _ hg.1, hg.2⟩]
    · rw [if_neg hg]
      refine if_congr ⟨fun h => ⟨h.1 ▸ List.mem_cons_self, h.2⟩, fun h => ⟨?_, h.2⟩⟩ rfl rfl
      exact (List.mem_cons.1 h.1).resolve_right fun h' => hg ⟨h', h.2⟩

/-- What `alloc_frame` does, read as the two cases of its comment. -/
theorem allocFrame_spec (m : Mm) : ((∀ f, IsEven f → m.physMem f ≠ frameFree) → m.allocFrame = (none, m)) ∧
    ∀ f, IsEven f → m.physMem f = frameFree → (∀ g, IsEven g → g < f → m.physMem g ≠ frameFree) →
      m.allocFrame = (some f, m.setPhys f frameUsed) := by
  rcases allocFrame_lowest m with ⟨f, h, hf, hfree, hlow⟩ | ⟨h, hnone⟩
  · refine ⟨fun hnone => absurd hfree (hnone f hf), fun g hg hgfree hglow => ?_⟩
    rcases lt_trichotomy f g with hlt | rfl | hlt
    · exact absurd hfree (hglow f hf hlt)
    · exact h
    · exact absurd hgfree (hlow g hg hlt)
  · exact ⟨fun _ => h, fun f hf hfree => absurd hfree (hnone f hf)⟩

theorem frameInverse_of (h : m.physMem numPagKernel ≠ frameFree) : FrameInverse m := by
  have hne : ∀ n, ∀ f ∈ (m.allocFrames n).1, f ≠ numPagKernel := by
    rintro n f hf rfl
    exact h ((allocFrames_cases n m).1 _ hf).2
  refine ⟨(allocFrame_spec m).1, (allocFrame_spec m).2, fun n f hf => ?_, fun n fs hfs => funext fun g => ?_⟩
  · exact (freeFrame_marks ((allocFrames_cases n m).1 f hf).1).2 (hne n f hf)
  · obtain ⟨h1, h2⟩ := allocFrames_cases n m
    rw [freeFrames_phys, h2]
    by_cases hg : g ∈ (m.allocFrames n).1
    · have heven := (h1 g hg).1
      have hlt : numPagKernel < g := lt_of_le_of_ne heven.1 (Ne.symm (hne n g hg))
      rw [if_pos ⟨hfs.mem_iff.2 hg, hlt, heven.2.1⟩, (h1 g hg).2]
    · rw [if_neg fun h => hg (hfs.mem_iff.1 h.1), if_neg hg]

theorem frameInverse_first (h : FrameInverse m) : m.physMem numPagKernel ≠ frameFree := by
  intro hfree
  have hfirst : IsEven numPagKernel := by decide
  have halloc := h.lowest numPagKernel hfirst hfree fun g hg hlt => absurd hg.1 (not_le.2 hlt)
  have hmem : numPagKernel ∈ (m.allocFrames 1).1 := by
    rw [Mm.allocFrames, halloc]
    exact List.mem_cons_self
  exact (freeFrame_marks hfirst).1 (h.frees 1 _ hmem) rfl

/-- **`free_frame` undoes `alloc_frame`**, in every sequence and order, exactly where the first frame
of the search is not free. -/
theorem frameInverse_iff (m : Mm) : FrameInverse m ↔ m.physMem numPagKernel ≠ frameFree :=
  ⟨frameInverse_first, frameInverse_of⟩

/-- Behind `init_frames` the first allocation takes a frame that is never free again. -/
theorem first_frame_lost : ∃ m₀ : Mm, m₀.initFrames.allocFrame.1 = some numPagKernel ∧
    (m₀.initFrames.allocFrame.2.freeFrame numPagKernel).physMem numPagKernel = frameUsed ∧
    ¬ FrameInverse m₀.initFrames := by
  let m₀ : Mm := { physMem := fun _ => frameFree, dirPages := fun _ => 0, pagusrTable := fun _ _ => {}, ram := fun _ _ => 0 }
  have hinit := initFrames_eq (m := m₀) fun _ => rfl
  have hfree : m₀.initFrames.physMem numPagKernel = frameFree := by
    simp only [hinit, lt_self_iff_false, if_false]
  have halloc := (allocFrame_spec m₀.initFrames).2 numPagKernel (by decide) hfree
    fun g hg hlt => absurd hg.1 (not_le.2 hlt)
  refine ⟨m₀, by rw [halloc], ?_, fun h => frameInverse_first h hfree⟩
  rw [halloc, freeFrame_phys, if_neg fun h => absurd h.2.1 (lt_irrefl _), setPhys_phys, if_pos rfl]

/-- In every state that the kernel reaches the first frame is in use, by the first code page. -/
theorem run_frameInverse {M : Machine} {tr : KTrace} {k : Kernel} (hr : KRun M tr k) : FrameInverse k.mm := by
  obtain ⟨a, hW, hO, -⟩ := run_owned hr
  refine frameInverse_of ?_
  rw [hW.phys]
  have : a.phys (codeFrame 0) = frameUsed := hO.code_used 0 (by decide)
  exact fun h => frameUsed_ne_free (this.symm.trans h)

end Zeos
