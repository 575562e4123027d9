import Zeos.Proof.Progress

/-!
# The image of a task

Threads share the page table of the task that made them, and `sys_exit` releases the data
pages of the table it finds, whoever else runs on it.

* `image_exact`: **the tasks keep their code, data and stack pages along a run exactly if
  each step meets `KeepsImage`**.
* `exit_takes_image`: a run in which a thread outlives its creator without its pages.
-/

namespace Zeos

open Execution

/-- Every live task other than idle has its code, data and stack pages. -/
def HasImage (k : Kernel) : Prop :=
  ∀ s, Live k s → s ≠ k.idleTask → ∀ p, pagLogInitCode ≤ p → p < pagLogInitData + numPagData →
    (k.mm.pagusrTable (getPT k s) p).present = true

/-- The conditions under which a step takes no page of an image. An exiting task must be the
last user of its page table; a fork that runs out of frames after it took some must not have
filled the table of a task that is still there. -/
def KeepsImage (k : Kernel) : Event → Prop
  | .sysenter .exit _ _ =>
    ∀ s, Live k s → s ≠ k.idleTask → s ≠ k.current → getPT k s ≠ getPT k k.current
  | .sysenter .fork _ _ => ∀ c, (members k .freequeue).head? = some (.task c) →
    freeFrames k.mm.physMem = 0 ∨ numPagData ≤ freeFrames k.mm.physMem ∨
      ∀ s, Live k s → s ≠ k.idleTask → getPT k s ≠ c
  | _ => True

def AState.HasImage (a : AState) : Prop :=
  ∀ s, a.Live s → s ≠ a.idle → ∀ p, pagLogInitCode ≤ p → p < pagLogInitData + numPagData →
    (a.table (a.dir s) p).present = true

variable {k k' : Kernel} {a a' : AState} {e : Event} {M : Machine} {tr : KTrace} {o : Out} {c : Slot}
  {b : ℕ} {rest : List Node} {fs : List ℕ}

theorem WF.hasImage_iff (hW : WF k a) : HasImage k ↔ a.HasImage := by
  refine forall_congr' fun s => ?_
  rw [hW.live_iff, hW.idle, hW.getPT, hW.table]

/-- The same pages for tasks with the page directories of tasks that were there. -/
theorem Inherits.hasImage (hI : Inherits a a') (h : a.HasImage)
    (hd : ∀ s p, pagLogInitData ≤ p → p < pagLogInitData + numPagData → a'.table s p = a.table s p) :
    a'.HasImage := by
  intro s hs hsi p h1 h2
  obtain ⟨s₀, hl₀, hd₀, hi₀⟩ := hI.dir s hs
  have hp : a'.table (a.dir s₀) p = a.table (a.dir s₀) p := by
    by_cases hp : p < pagLogInitData
    · exact hI.low _ _ hp
    · exact hd _ _ (Nat.le_of_not_lt hp) h2
  rw [hd₀, hp]
  exact h s₀ hl₀ (fun h => hsi ((hi₀ h).trans hI.idle.symm)) p h1 h2

theorem AState.HasImage.forkOk (h : a.HasImage) (hnd : (a.queue .freequeue).Nodup)
    (hq : a.queue .freequeue = .task c :: rest) : (a.forkOk c rest b fs).HasImage := by
  intro s hs hsi p h1 h2
  have hw : ∀ T, ¬ (T = a.tab ∧ heapStart ≤ p ∧ p < heapStart + numPagData) := by
    rintro T ⟨-, h3, -⟩; simp at h2 h3; omega
  rw [forkOk_table, forkOk_dir, forkTable, if_neg (hw _)]
  by_cases hsc : s = c
  · rw [if_pos hsc]
    by_cases hp : p < pagLogInitData
    · rw [if_pos ⟨rfl, hp⟩]; rfl
    · rw [if_neg fun h => hp h.2, if_pos ⟨rfl, h2⟩]; rfl
  · rw [if_neg hsc]
    split
    · rfl
    · split
      · rfl
      · exact h s (((forkOk_live hnd hq).1 hs).resolve_right hsc) hsi p h1 h2

theorem AState.HasImage.exit_iff (h : a.HasImage) :
    (a.exit b).HasImage ↔ ∀ s, a.Live s → s ≠ a.idle → s ≠ a.current → a.dir s ≠ a.tab := by
  constructor
  · intro h' s hs hsi hsc hd
    have := h' s (exit_live.2 ⟨hs, hsc⟩) hsi pagLogInitData (by decide) (by decide)
    rw [show (a.exit b).dir s = a.tab from hd, show (a.exit b).table a.tab pagLogInitData = {} from
      if_pos ⟨rfl, le_rfl, by decide⟩] at this
    cases this
  · intro hC s hs hsi p h1 h2
    obtain ⟨hs, hsc⟩ := exit_live.1 hs
    rw [show (a.exit b).table ((a.exit b).dir s) p = a.table (a.dir s) p from
      if_neg fun h => hC s hs hsi hsc h.1]
    exact h s hs hsi p h1 h2

theorem AState.HasImage.forkFail_iff (h : a.HasImage) (hq : a.queue .freequeue = .task c :: rest) :
    (a.forkFail c rest).HasImage ↔
      freeFrames a.phys = 0 ∨ ∀ s, a.Live s → s ≠ a.idle → a.dir s ≠ c := by
  have hdir : ∀ s, a.Live s → (a.forkFail c rest).dir s = a.dir s := by
    intro s hs
    have : s ≠ c := by rintro rfl; exact not_live hq hs
    simp [AState.forkFail, this]
  have htab : ∀ s p, (a.forkFail c rest).table s p =
      if s = c ∧ pagLogInitData ≤ p ∧ p < pagLogInitData + freeFrames a.phys then {} else a.table s p :=
    fun s p => rfl
  constructor
  · intro h'
    by_contra hn
    push Not at hn
    obtain ⟨hF, s, hs, hsi, hd⟩ := hn
    have := h' s ((forkFail_live hq).2 hs) hsi pagLogInitData (by decide) (by decide)
    rw [hdir s hs, hd, htab, if_pos ⟨rfl, le_rfl, by omega⟩] at this
    cases this
  · intro hC s hs hsi p h1 h2
    have hs := (forkFail_live hq).1 hs
    rw [hdir s hs, htab, if_neg]
    · exact h s hs hsi p h1 h2
    · rintro ⟨hd, h3, h4⟩
      rcases hC with hF | hC
      · omega
      · exact hC s hs hsi hd

/-- **A step from a state with whole images keeps them exactly if it meets `KeepsImage`.** -/
theorem image_step (hr : KRun M tr k) (hI : HasImage k) (hs : Step k e o k') :
    HasImage k' ↔ KeepsImage k e := by
  obtain ⟨a, hW⟩ := run_wf hr
  obtain ⟨a', h, hW'⟩ := hs.refines hW
  rw [hW.hasImage_iff] at hI
  rw [hW'.hasImage_iff]
  rcases h.memory with ⟨he, h⟩ | h
  · refine iff_of_true (fun s hs hsi => ?_) ?_
    · rw [h.table, h.dir]; exact hI s (h.live.1 hs) (h.idle ▸ hsi)
    · unfold KeepsImage; split <;> trivial
  have hc : a.current ≠ a.idle := Step.user hW hs (by cases h <;> rfl)
  rcases h.inherits hW hc with ⟨u, b, c, rest, fs, rfl, rfl, hq, hf, -⟩ | ⟨hin, hF⟩
  · refine iff_of_true (hI.forkOk hW.free_nodup hq) fun c' _ => ?_
    rw [hW.phys]; exact .inr (.inl hf)
  -- the pages that the other calls change lie behind the data pages
  have hheap : ∀ {q lo : ℕ} {t : Slot → ℕ → Pte} {T s : Slot}, heapStart ≤ lo →
      q < pagLogInitData + numPagData → clearPages t T lo (lo + 1) s q = t s q := fun h1 h2 =>
    if_neg fun h => by simp at h1 h2; omega
  have hal : ∀ {a₁ : AState}, a.Alloc a₁ → ∀ s p, p < pagLogInitData + numPagData → a₁.table s p = a.table s p := by
    intro a₁ hA s p hp
    cases hA with
    | page q f h1 => exact if_neg fun h => by simp at h1 hp; omega
    | _ => rfl
  cases h with
  | forkNone hq => exact iff_of_true hI fun c hc => by rw [hW.members_free, hq] at hc; cases hc
  | forkFail hq hf =>
    rw [hI.forkFail_iff hq]
    simp only [KeepsImage, hW.members_free, hq, List.head?_cons, Option.some.injEq, Node.task.injEq,
      forall_eq', hW.phys, Nat.not_le.2 hf, false_or, hW.live_iff, hW.idle, hW.getPT]
  | forkOk hq hf =>
    rcases hF _ _ rfl with h | h
    · rw [hq] at h; cases h
    · exact absurd hf (Nat.not_le.2 h)
  | exit =>
    rw [hI.exit_iff]
    simp only [KeepsImage, hW.live_iff, hW.idle, hW.current, hW.getPT]
    exact Iff.rfl
  | alloc hA => exact iff_of_true (hin.hasImage hI fun s p _ hp => hal hA s p hp) trivial
  | deallocBad _ => exact iff_of_true hI trivial
  | dealloc hm => exact iff_of_true (hin.hasImage hI fun s p _ hp => hheap hm.1 hp) trivial
  | threadNone _ => exact iff_of_true hI trivial
  | thread _ hA => exact iff_of_true (hin.hasImage hI fun s p _ hp => hal hA s p hp) trivial
  | terminateBad _ => exact iff_of_true hI trivial
  | terminate hm => exact iff_of_true (hin.hasImage hI fun s p _ hp => hheap hm.1 hp) trivial

/-- **The image of tasks, exactly.** In every state of a run every live task other than idle has
its code, data and stack pages if and only if each step of the run meets `KeepsImage`. -/
theorem image_exact (hr : KRun M tr k) :
    (∀ t ∈ tr, HasImage t.after) ↔ ∀ t ∈ tr, KeepsImage t.before t.event := by
  refine hr.exact (P := HasImage) (C := KeepsImage) (fun k hk => ?_) image_step
  obtain ⟨k', h, hW⟩ := boot_ok M
  cases h.symm.trans hk
  refine hW.hasImage_iff.2 fun s hs hsi p h1 h2 => ?_
  by_cases hp : p < pagLogInitData
  · exact boot_hasCode M s hs hsi p h1 hp
  · have hfree : ∀ s : Slot, Node.task s ∉ bootFree → s = 0 ∨ s = 1 := by decide
    obtain rfl := (hfree s (by simpa [AState.Live, bootState] using hs)).resolve_left hsi
    exact congrArg Pte.present (bootTable_data (Nat.le_of_not_lt hp) h2 M.layout)

/-- A thread whose creator exits has lost its data pages. -/
theorem exit_takes_image : ∃ t₁ t₂ k, KRun aMachine [t₂, t₁] k ∧
    t₁.event = .sysenter (.createthread 0 0 0) someStack 1000 ∧ t₂.event = .sysenter .exit someStack 1000 ∧
    Live k 2 ∧ 2 ≠ k.idleTask ∧ (k.mm.pagusrTable (getPT k 2) pagLogInitData).present = false := by
  obtain ⟨t, k, a, f, hr, he, hW, hT⟩ := thread_run aMachine 1000
  obtain ⟨o, k', hs, hW'⟩ := exit_step hW hT.ready.user hT.ready.data (.inr hT.queue) 1000
  refine ⟨t, _, k', hr.step hs, he, rfl, hW'.live_iff.2 (exit_live.2 ⟨?_, ?_⟩), ?_, ?_⟩
  · rw [AState.Live, hT.free]; decide
  · rw [hT.current]; decide
  · rw [hW'.idle, show (a.exit 1000).idle = a.idle from rfl, hT.idle]; decide
  · rw [hW'.getPT, hW'.table, show (a.exit 1000).dir 2 = a.tab by rw [hT.tab]; exact hT.dir]
    exact congrArg Pte.present (if_pos ⟨rfl, le_rfl, by decide⟩)

/-- Task 1 makes a thread: nobody loses a page. -/
theorem image_exact_thread : ∃ t k, KRun aMachine [t] k ∧
    t.event = .sysenter (.createthread 0 0 0) someStack 1000 ∧
    (∀ t' ∈ [t], KeepsImage t'.before t'.event) ∧ ∀ t' ∈ [t], HasImage t'.after := by
  obtain ⟨t, k, -, -, hr, he, -⟩ := thread_run aMachine 1000
  have hkeeps : ∀ t' ∈ [t], KeepsImage t'.before t'.event := by
    rw [List.forall_mem_singleton, he]
    trivial
  exact ⟨t, k, hr, he, hkeeps, (image_exact hr).2 hkeeps⟩

end Zeos
