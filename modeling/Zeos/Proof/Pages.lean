import Zeos.Proof.Access
import Zeos.Proof.Heap
import Zeos.Proof.Pending

/-!
# The pages of the frames

The game allocates a page, draws into it and pushes it; the drawing thread reads it, shows it and gives
it back. What `push_frame` finds no room for is not given back by anyone.

* `alloc_page`, `dealloc_page`: what the two calls do to the pages the threads hold.
* `ScreenStep.sound`: what one section does, and when it keeps the pages held and the frames pending the
  same (`Screen.Exact`).
* `pages_exact`: **the pages held are the frames pending** in every state of a run exactly when no
  frame is pushed onto a full buffer.
* `page_lost`: 65 frames in a row, with no page given back.
-/

namespace Zeos

open Execution RingBuffer

variable {k k' : Kernel} {a : AState} {M : Machine} {T : Slot} {mat mat' u : Word} {o : Out} {b p f : ℕ}
  {s s' : Screen} {e : ScreenEvent} {tr : KTrace}

/-! ### Pages -/

/-- A heap page of table `T`, with a frame, is at `mat`. -/
def HeapPage (k : Kernel) (T : Slot) (mat : Word) : Prop :=
  ∃ p f, mat = BitVec.ofNat 32 (p * pageSize) ∧ heapStart ≤ p ∧ p < totalPages ∧ f < totalPages ∧ f ≠ 0 ∧
    k.mm.pagusrTable T p = userPte f

theorem HeapPage.ne_null (h : HeapPage k T mat) : mat ≠ null := by
  obtain ⟨p, f, rfl, h1, h2, -⟩ := h
  intro h0
  have hp := (page_toInt h2).2
  rw [h0] at hp
  have hz : null.toNat / pageSize = 0 := by decide
  simp only [heapStart, numPagKernel, numPagCode, numPagData] at h1
  omega

/-- The page of an address. -/
theorem page_inj {q : ℕ} (hp : p < totalPages) (hq : q < totalPages)
    (h : BitVec.ofNat 32 (p * pageSize) = BitVec.ofNat 32 (q * pageSize)) : p = q := by
  rw [← (page_toInt hp).2, ← (page_toInt hq).2, h]

theorem quiet_page (hp : Path (kernelSystem M) k tr k') (hW : WF k a) (hq : Quiet tr) (h : HeapPage k T mat) :
    HeapPage k' T mat := by
  obtain ⟨p, f, hm, h1, h2, hf, h0, hT⟩ := h
  rw [hW.table] at hT
  have hL : ∀ x ∈ tr, LeavesPage T p x := by
    intro x hx
    have he := hq x hx
    unfold LeavesPage
    split
    · trivial
    · rename_i hx'
      rw [hx'] at he
      cases he
    · exact he
  obtain ⟨a', hW', hT'⟩ := path_keeps_page hp hW hT hf h0 hL
  exact ⟨p, f, hm, h1, h2, hf, h0, hW'.table ▸ hT'⟩

theorem tab_eq (hW : WF k a) (hT : getPT k k.current = T) : a.tab = T := by
  rw [← hT, hW.current]
  exact hW.getPT.symm

/-- **`alloc` returns a page that is not held.** -/
theorem alloc_page (hW : WF k a) (hT : getPT k k.current = T) (hs : Step k (.sysenter .alloc u b) o k')
    (hret : o.ret = some mat) (hok : 0 ≤ mat.toInt) : HeapPage k' T mat ∧
    ∀ mat', HeapPage k T mat' → mat' ≠ mat ∧ HeapPage k' T mat' := by
  have htab := tab_eq hW hT
  rcases alloc_step_ret hW hs with ⟨p, f, h, hF, hW'⟩ | ⟨h, -⟩
  · cases hret.symm.trans h
    have h256 := hF.even.1
    have h0 : f ≠ 0 := by
      simp only [numPagKernel] at h256
      omega
    constructor
    · refine ⟨p, f, rfl, hF.heap, hF.bound, hF.even.2.1, h0, ?_⟩
      rw [hW'.table, ← htab]
      exact a.mapped_page p f
    · rintro _ ⟨q, g, rfl, h1, h2, hg, hg0, hq⟩
      rw [hW.table] at hq
      have hne : q ≠ p := by
        rintro rfl
        have habs := hF.absent
        rw [htab, hq, userPte_pbase hg] at habs
        exact hg0 habs
      refine ⟨fun h => hne (page_inj h2 hF.bound h), q, g, rfl, h1, h2, hg, hg0, ?_⟩
      rw [hW'.table, ← hq]
      exact if_neg fun h => hne h.2
  · cases hret.symm.trans h
    exact absurd hok (by decide)

/-- **`dealloc` takes back a page that is held, and no other.** -/
theorem dealloc_page (hW : WF k a) (hT : getPT k k.current = T) (hp : HeapPage k T mat)
    (hs : Step k (.sysenter (.dealloc mat) u b) o k') : o.ret = some 0 ∧
    ∀ mat', mat' ≠ mat → HeapPage k T mat' → HeapPage k' T mat' := by
  have htab := tab_eq hW hT
  obtain ⟨p, f, rfl, h1, h2, hf, h0, hpte⟩ := hp
  have hpage := (page_toInt h2).2
  rw [hW.table] at hpte
  have hm : a.Mapped ((BitVec.ofNat 32 (p * pageSize)).toNat / pageSize) := by
    rw [hpage]
    refine ⟨h1, h2, ?_⟩
    rw [htab, hpte, userPte_pbase hf]
    exact h0
  obtain ⟨hret, hW'⟩ := dealloc_step_ret hW hs hm
  refine ⟨hret, ?_⟩
  rintro _ hne ⟨q, g, rfl, h3, h4, hg, hg0, hq⟩
  refine ⟨q, g, rfl, h3, h4, hg, hg0, ?_⟩
  rw [hW.table] at hq
  rw [hW'.table, ← hq, hpage]
  refine if_neg ?_
  rintro ⟨-, h5, h6⟩
  exact hne (by rw [show q = p by omega])

/-! ### Sections -/

/-- **The pages held are the frames pending**, each once. -/
def Screen.Exact (s : Screen) : Prop := s.ring.frames.Nodup ∧ ∀ mat, mat ∈ s.held ↔ mat ∈ s.ring.frames

/-- A frame that is pushed finds room. -/
def FindsRoom (s : Screen) : ScreenEvent → Prop
  | .produce => s.ring.pendingFrames < frameBuffSize
  | _ => True

/-- What is so after every section, whether or not frames were lost. -/
structure Sound (M : Machine) (T : Slot) (s : Screen) : Prop where
  reachable : ∃ tr, KRun M tr s.kernel
  valid : s.ring.ring.Valid frameBuffSize
  pages : ∀ mat ∈ s.held, HeapPage s.kernel T mat
  held : s.held.Nodup
  frames : s.ring.frames.Nodup
  pending : ∀ mat ∈ s.ring.frames, mat ∈ s.held

theorem screen_init (h : (screenSystem M T).init s) : Sound M T s ∧ s.Exact := by
  obtain ⟨hr, hring, hheld⟩ := h
  have hv : s.ring.ring.Valid frameBuffSize := hring ▸ framesAfter_valid []
  have hfr : s.ring.frames = [] := by rw [hring]; rfl
  refine ⟨⟨hr, hv, ?_, ?_, ?_, ?_⟩, ?_, ?_⟩ <;> simp [hheld, hfr]

/-- A step that leaves buffer and pages alone. -/
theorem Sound.same (hS : Sound M T s) (hs : ScreenStep M T s .other s') : Sound M T s' ∧ (s.Exact → s'.Exact) := by
  cases hs with
  | @other e o k hs he =>
    obtain ⟨tr, hr⟩ := hS.reachable
    obtain ⟨a, hW, -⟩ := run_owned hr
    have hp : Path (kernelSystem M) s.kernel [⟨s.kernel, e, o, k⟩] k := .step .refl hs
    have hq : Quiet [⟨s.kernel, e, o, k⟩] := by
      intro t ht
      rw [List.mem_singleton.1 ht]
      exact he
    exact ⟨⟨⟨_, hr.step hs⟩, hS.valid, fun mat hm => quiet_page hp hW hq (hS.pages mat hm), hS.held, hS.frames,
      hS.pending⟩, id⟩

/-- **A section of the game.** -/
theorem Sound.produce (hS : Sound M T s) (hs : ScreenStep M T s .produce s') :
    Sound M T s' ∧ (s.Exact → (s'.Exact ↔ s.ring.pendingFrames < frameBuffSize)) := by
  cases hs with
  | @produce u b o k mat tr k' hT hs hret hok hp hq =>
    obtain ⟨tr₀, hr⟩ := hS.reachable
    obtain ⟨a, hW, -⟩ := run_owned hr
    obtain ⟨a₁, hW₁, -⟩ := run_owned (hr.step hs)
    obtain ⟨hpage, hrest⟩ := alloc_page hW hT hs hret hok
    have hnew : mat ∉ s.held := fun hm => (hrest mat (hS.pages mat hm)).1 rfl
    have hfr : mat ∉ s.ring.frames := fun hm => hnew (hS.pending mat hm)
    have hpages : ∀ x ∈ mat :: s.held, HeapPage k' T x := by
      intro x hx
      rcases List.mem_cons.1 hx with rfl | hx
      · exact quiet_page hp hW₁ hq hpage
      · exact quiet_page hp hW₁ hq (hrest x (hS.pages x hx)).2
    have hcount := pendingFrames_eq hS.valid
    have hr' := (hr.step hs).path hp
    by_cases hlt : s.ring.frames.length < frameBuffSize
    · have happ : (s.ring.pushFrame mat).frames = s.ring.frames ++ [mat] := pushFrame_frames hS.valid hlt
      have hnd : (s.ring.pushFrame mat).frames.Nodup := by
        rw [happ, ← List.concat_eq_append]
        exact hS.frames.concat hfr
      have hmem : ∀ x, x ∈ (s.ring.pushFrame mat).frames ↔ x = mat ∨ x ∈ s.ring.frames := by
        intro x
        rw [happ, List.mem_append, List.mem_singleton, or_comm]
      refine ⟨⟨⟨_, hr'⟩, pushFrame_valid hS.valid, hpages, List.nodup_cons.2 ⟨hnew, hS.held⟩, hnd, ?_⟩, ?_⟩
      · intro x hx
        rcases (hmem x).1 hx with rfl | hx
        · exact List.mem_cons_self
        · exact List.mem_cons_of_mem _ (hS.pending x hx)
      · intro hE
        refine iff_of_true ⟨hnd, fun x => ?_⟩ (by rw [hcount]; exact_mod_cast hlt)
        rw [hmem, List.mem_cons, hE.2]
    -- no room: the page is held, and no frame
    · have hfull : s.ring.frames.length = frameBuffSize := le_antisymm (frames_le hS.valid) (not_lt.1 hlt)
      have hsame : s.ring.pushFrame mat = s.ring := pushFrame_full hS.valid hfull
      rw [hsame]
      refine ⟨⟨⟨_, hr'⟩, hS.valid, hpages, List.nodup_cons.2 ⟨hnew, hS.held⟩, hS.frames,
        fun x hx => List.mem_cons_of_mem _ (hS.pending x hx)⟩, fun _ => iff_of_false ?_ ?_⟩
      · intro hE
        exact hfr ((hE.2 mat).1 List.mem_cons_self)
      · rw [hcount, hfull]
        exact lt_irrefl _

/-- **An iteration of the drawing thread.** -/
theorem Sound.dump (hS : Sound M T s) (hs : ScreenStep M T s .dump s') : Sound M T s' ∧ (s.Exact → s'.Exact) := by
  cases hs with
  -- an empty buffer gives NULL, which no buffered page is
  | @dumpNone r hread =>
    cases he : s.ring.frames with
    | nil =>
      rw [readFrame_empty hS.valid he] at hread
      cases hread
      exact ⟨hS, id⟩
    | cons mat fs =>
      obtain ⟨r', hr, -⟩ := readFrame_frames hS.valid he
      cases hr.symm.trans hread
      have hmem : null ∈ s.ring.frames := by
        rw [he]
        exact List.mem_cons_self
      exact absurd rfl (hS.pages null (hS.pending null hmem)).ne_null
  | @dump tmp r u b o k tr k' u' b' o' k'' hread hne hs₁ hp hq hT hs₂ =>
    cases he : s.ring.frames with
    | nil =>
      rw [readFrame_empty hS.valid he] at hread
      cases hread
      exact absurd rfl hne
    | cons mat fs =>
      obtain ⟨r', hr, hfs⟩ := readFrame_frames hS.valid he
      cases hr.symm.trans hread
      have hvr : r.ring.Valid frameBuffSize := by
        have hv := readFrame_valid hS.valid
        rw [hread] at hv
        exact hv
      have htmp : tmp ∈ s.held := hS.pending tmp (by rw [he]; exact List.mem_cons_self)
      have hnd : (tmp :: fs).Nodup := he ▸ hS.frames
      -- the page read is out of the buffer, the others are in it still
      have hmem : ∀ x, x ∈ fs ↔ x ≠ tmp ∧ x ∈ s.ring.frames := by
        intro x
        rw [he, List.mem_cons]
        refine ⟨fun hx => ⟨?_, .inr hx⟩, fun h => h.2.resolve_left h.1⟩
        rintro rfl
        exact (List.nodup_cons.1 hnd).1 hx
      -- the pages stay up to the `dealloc`
      obtain ⟨tr₀, hr₀⟩ := hS.reachable
      obtain ⟨a, hW, -⟩ := run_owned hr₀
      have hp₁ : Path (kernelSystem M) s.kernel (tr ++ [⟨s.kernel, .sysenter (.dumpScreen tmp) u b, o, k⟩]) k' :=
        (Path.step .refl hs₁).trans hp
      have hq₁ : Quiet (tr ++ [⟨s.kernel, .sysenter (.dumpScreen tmp) u b, o, k⟩]) := by
        intro t ht
        rcases List.mem_append.1 ht with ht | ht
        · exact hq t ht
        · rw [List.mem_singleton.1 ht]
          rfl
      have hr₁ := hr₀.path hp₁
      obtain ⟨a₁, hW₁, -⟩ := run_owned hr₁
      have hpages : ∀ x ∈ s.held, HeapPage k' T x := fun x hx => quiet_page hp₁ hW hq₁ (hS.pages x hx)
      obtain ⟨hret, hrest⟩ := dealloc_page hW₁ hT (hpages tmp htmp) hs₂
      rw [if_pos hret]
      have herase : ∀ x, x ∈ s.held.erase tmp ↔ x ≠ tmp ∧ x ∈ s.held := fun x => hS.held.mem_erase_iff
      refine ⟨⟨⟨_, hr₁.step hs₂⟩, hvr, fun x hx => ?_, hS.held.erase tmp, hfs ▸ (List.nodup_cons.1 hnd).2, ?_⟩,
        fun hE => ⟨hfs ▸ (List.nodup_cons.1 hnd).2, fun x => ?_⟩⟩
      · obtain ⟨h1, h2⟩ := (herase x).1 hx
        exact hrest x h1 (hpages x h2)
      · intro x hx
        rw [hfs, hmem] at hx
        exact (herase x).2 ⟨hx.1, hS.pending x hx.2⟩
      · rw [herase, hE.2, hfs, hmem]

/-- **One section.** -/
theorem ScreenStep.sound (hS : Sound M T s) (hs : ScreenStep M T s e s') :
    Sound M T s' ∧ (s.Exact → (s'.Exact ↔ FindsRoom s e)) := by
  cases e with
  | produce => exact hS.produce hs
  | dump =>
    obtain ⟨h1, h2⟩ := hS.dump hs
    exact ⟨h1, fun hE => iff_of_true (h2 hE) trivial⟩
  | other =>
    obtain ⟨h1, h2⟩ := hS.same hs
    exact ⟨h1, fun hE => iff_of_true (h2 hE) trivial⟩

/-! ### Frames in a row -/

/-- Task 1 has drawn `n` frames, and its other heap pages are free. -/
structure Drawing (s : Screen) (a : AState) (n : ℕ) : Prop where
  wf : WF s.kernel a
  ready : Ready a (356 - n)
  tab : a.tab = 1
  rest : ∀ q, heapStart + n ≤ q → (a.table 1 q).pbaseAddr = 0
  held : s.held.length = n

theorem drawing_init : ∃ s, (screenSystem aMachine 1).init s ∧ Drawing s (bootState aMachine) 0 := by
  obtain ⟨k, hr, hW⟩ := boot_run aMachine
  refine ⟨⟨k, {}, []⟩, ⟨⟨_, hr⟩, rfl, rfl⟩, hW, boot_ready aMachine, boot_tab aMachine, fun q hq => ?_, rfl⟩
  exact congrArg Pte.pbaseAddr (bootTable_heap hq aMachine.layout)

theorem Drawing.next {n : ℕ} (h : Drawing s a n) (hn : n < 356) :
    ∃ s' a', ScreenStep aMachine 1 s .produce s' ∧ Drawing s' a' (n + 1) := by
  obtain ⟨hW, hR, htab, hrest, hheld⟩ := h
  obtain ⟨m, hm⟩ : ∃ m, 356 - n = m + 1 := ⟨355 - n, by omega⟩
  rw [hm] at hR
  have hroom : CanAlloc a := hR.canAlloc ⟨heapStart + n, Nat.le_add_right _ _, by simp; omega, by
    rw [htab]
    exact hrest _ le_rfl⟩
  obtain ⟨o, k', -, -, hs, -⟩ := alloc_step hW hR.user hR.data hroom 1000
  obtain ⟨p, f, hret, hF, hW'⟩ := (alloc_step_ret hW hs).resolve_right fun h => h.2 hroom
  have hp : p ≤ heapStart + n := by
    by_contra hlt
    refine hF.first (heapStart + n) (Nat.le_add_right _ _) (not_le.1 hlt) ?_
    rw [htab]
    exact hrest _ le_rfl
  have hT : getPT s.kernel s.kernel.current = 1 := by
    rw [hW.current, hW.getPT]
    exact htab
  have hR' := hR.mapped hF
  rw [show m = 356 - (n + 1) by omega] at hR'
  refine ⟨_, _, .produce hT hs hret (page_toInt hF.bound).1 .refl (fun t ht => by cases ht), hW', hR', htab,
    fun q hq => ?_, by rw [List.length_cons, hheld]⟩
  have hne : ¬ ((1 : Slot) = a.tab ∧ q = p) := by
    rintro ⟨-, rfl⟩
    omega
  show ((a.mapped p f).table 1 q).pbaseAddr = 0
  rw [show (a.mapped p f).table 1 q = a.table 1 q from if_neg hne]
  exact hrest q (by omega)

theorem drawing_run (n : ℕ) (hn : n ≤ 356) : ∃ tr s a, Run (screenSystem aMachine 1) tr s ∧
    tr.map (·.event) = List.replicate n .produce ∧ Drawing s a n := by
  induction n with
  | zero =>
    obtain ⟨s, h0, h⟩ := drawing_init
    exact ⟨[], s, _, .init h0, rfl, h⟩
  | succ n ih =>
    obtain ⟨tr, s, a, hr, he, h⟩ := ih (by omega)
    obtain ⟨s', a', hs, h'⟩ := h.next (by omega)
    exact ⟨⟨s, .produce, (), s'⟩ :: tr, s', a', hr.step hs, by rw [List.map_cons, he, List.replicate_succ], h'⟩

/-! ### Runs -/

theorem screen_sound {tr : Trace Screen ScreenEvent Unit} (hr : Run (screenSystem M T) tr s) : Sound M T s :=
  hr.invariant (fun _ h => (screen_init h).1) fun hS hs => (ScreenStep.sound hS hs).1

/-- **No page is lost, unless pushed onto a full buffer.** In every run of the two threads, from any
state the kernel can reach, with their sections in any order and any kernel steps in between: the pages
held are the frames pending, each once, after every step of the run, if and only if each section of the
game finds fewer than `BUFF_SIZE` frames pending. -/
theorem pages_exact {tr : Trace Screen ScreenEvent Unit} (hr : Run (screenSystem M T) tr s) :
    (∀ t ∈ tr, t.after.Exact) ↔ ∀ t ∈ tr, FindsRoom t.before t.event := by
  refine hr.exact (P := Screen.Exact) (C := FindsRoom) (fun _ h => (screen_init h).2) ?_
  intro tr s e o s' hr hE hs
  exact (ScreenStep.sound (screen_sound hr) hs).2 hE

/-- The game draws its first frame, and the drawing thread shows it and gives the page back. -/
theorem pages_exact_shown : ∃ t₁ t₂ s, Run (screenSystem aMachine 1) [t₂, t₁] s ∧ t₁.event = .produce ∧
    t₂.event = .dump ∧ t₁.after.held.length = 1 ∧ t₁.after.Exact ∧ s.held = [] ∧ s.Exact := by
  obtain ⟨k₀, hr₀, hW₀⟩ := boot_run aMachine
  have hR₀ := boot_ready aMachine
  obtain ⟨o₁, k₁, -, -, hs₁, -⟩ := alloc_step hW₀ hR₀.user hR₀.data (boot_canAlloc aMachine) 1000
  obtain ⟨p, f, hret, hF, hW₁⟩ := (alloc_step_ret hW₀ hs₁).resolve_right fun h => h.2 (boot_canAlloc aMachine)
  have hR₁ := hR₀.mapped hF
  have hok := (page_toInt hF.bound).1
  have hT₀ : getPT k₀ k₀.current = 1 := by
    rw [hW₀.current, hW₀.getPT]
    exact boot_tab aMachine
  -- the drawing thread's two calls
  obtain ⟨o₂, k₂, a₂, hs₂, h₂, hW₂⟩ := call_step (b := 1000) hW₁ hR₁.user hR₁.data
    (x := .dumpScreen (BitVec.ofNat 32 (p * pageSize))) fun k hW => by
      obtain ⟨hA, hm⟩ := (mapped_userPage hW hF).screen hW hF.heap
      obtain ⟨r, hd⟩ := dumpLoop_ok (s := k.console) ((cellsRead_iff hW hA.2.1).2 hm)
      rw [systemCall, sysDumpScreen_accepts hA, hd]
      exact ⟨_, rfl⟩
  obtain rfl : a₂ = (bootState aMachine).mapped p f := by
    generalize o₂.switch = sw at h₂
    cases h₂
    rfl
  obtain ⟨o₃, k₃, a₃, hs₃, -, -⟩ := call_step (b := 1000) hW₂ hR₁.user hR₁.data
    (x := .dealloc (BitVec.ofNat 32 (p * pageSize))) fun _ _ => ⟨_, rfl⟩
  have hT₂ : getPT k₂ k₂.current = 1 := by
    rw [hW₂.current, hW₂.getPT]
    exact boot_tab aMachine
  have hpage := quiet_page (M := aMachine) (.step .refl hs₂) hW₁ (fun t ht => by rw [List.mem_singleton.1 ht]; rfl)
    (alloc_page hW₀ hT₀ hs₁ hret hok).1
  have hback := (dealloc_page hW₂ hT₂ hpage hs₃).1
  let s₀ : Screen := ⟨k₀, {}, []⟩
  have hproduce := ScreenStep.produce (M := aMachine) (T := 1) (s := s₀) hT₀ hs₁ hret hok .refl fun t ht => by cases ht
  have hdump := ScreenStep.dump (M := aMachine) (T := 1)
    (s := ⟨k₁, s₀.ring.pushFrame (BitVec.ofNat 32 (p * pageSize)), [BitVec.ofNat 32 (p * pageSize)]⟩) rfl hpage.ne_null
    hs₂ .refl (fun t ht => by cases ht) hT₂ hs₃
  rw [if_pos hback] at hdump
  have hinit : (screenSystem aMachine 1).init s₀ := ⟨⟨_, hr₀⟩, rfl, rfl⟩
  have hr := ((Run.init hinit).step (o := ()) hproduce).step (o := ()) hdump
  have hexact := (pages_exact hr).2 fun t ht => by
    rcases List.mem_cons.1 ht with rfl | ht
    · trivial
    · rw [List.mem_singleton.1 ht]
      show ({} : FrameBuff).pendingFrames < frameBuffSize
      decide
  exact ⟨_, _, _, hr, rfl, rfl, rfl, hexact _ (List.mem_cons_of_mem _ List.mem_cons_self), List.erase_cons_head _ _,
    hexact _ List.mem_cons_self⟩

/-- The game draws 65 frames before the drawing thread runs: a page is held, and no frame. -/
theorem page_lost : ∃ tr s, Run (screenSystem aMachine 1) tr s ∧ tr.map (·.event) = List.replicate 65 .produce ∧
    ∃ mat ∈ s.held, mat ∉ s.ring.frames := by
  obtain ⟨tr, s, a, hr, he, h⟩ := drawing_run 65 (by omega)
  have hS := screen_sound hr
  refine ⟨tr, s, hr, he, ?_⟩
  by_contra hall
  have hsub : s.held ⊆ s.ring.frames := by
    intro mat hm
    by_contra hn
    exact hall ⟨mat, hm, hn⟩
  have h1 : s.held.length ≤ s.ring.frames.length := (hS.held.subperm hsub).length_le
  have h2 := frames_le hS.valid
  have h3 := h.held
  simp only [frameBuffSize] at h2
  omega

end Zeos
