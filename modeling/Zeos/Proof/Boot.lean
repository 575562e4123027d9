import Zeos.Proof.Refine

/-!
# The state that `main` leaves

`bootState M` is the abstract state at the first entry into user mode: task 1 runs, idle
(task 0) waits off the queues, all other structs are free; the frames 256, 258, …, 310
hold the code and data pages of task 1.

* `boot_ok`: **`boot` succeeds and leaves `bootState`**, well formed.
* `run_wf`: every state of a run is well formed.
-/

namespace Zeos

open LinkHeap ForLoop Execution

/-- The entry of a kernel page, the same in every page table. -/
def kernelPte (L : Layout) (p : ℕ) : Pte :=
  if p = 0 ∨ numPagKernel ≤ p then {}
  else { present := decide (p ≠ L.protectedTasks ∧ p ≠ L.protectedTasks + 11), rwBit := true, pbaseAddr := p }

/-- The frame of code page `c` and of data page `i` of task 1. -/
def codeFrame (c : ℕ) : ℕ := numPagKernel + 2 * c

def dataFrame (i : ℕ) : ℕ := codeFrame (numPagCode + i)

/-- The frame map with the first `n` of the frames that `alloc_frame` visits in use. -/
def physAfter (n : ℕ) (g : ℕ) : Byte :=
  if g < numPagKernel ∨ (g < codeFrame n ∧ g % 2 = 0) then frameUsed else frameFree

def bootPhys : ℕ → Byte := physAfter (numPagCode + numPagData)

def bootTable (L : Layout) (s : Slot) (p : ℕ) : Pte :=
  if s = 1 ∧ pagLogInitCode ≤ p ∧ p < pagLogInitData then
    { pbaseAddr := codeFrame (p - pagLogInitCode), user := true, present := true }
  else if s = 1 ∧ pagLogInitData ≤ p ∧ p < heapStart then
    { pbaseAddr := dataFrame (p - pagLogInitData), user := true, rwBit := true, present := true }
  else kernelPte L p

/-- The structs that no task has yet. -/
def bootFree : List Node :=
  [.task 2, .task 3, .task 4, .task 5, .task 6, .task 7, .task 8, .task 9]

def bootState (M : Machine) : AState where
  pid s := if s = 0 then 0 else if s = 1 then 1 else -1
  dir s := if s = 1 then 1 else 0
  esp s := if s = 0 then some (0, kernelStackSize - 2) else none
  sem _ := {}
  queue hd := if hd = .freequeue then bootFree else []
  current := 1
  idle := 0
  lastPid := 1000
  phys := bootPhys
  table := bootTable M.layout

variable {m : Mm} {L : Layout} {PT : Slot} {M : Machine}

/-! ### Page tables and frames -/

/-- A loop that updates the entries of pages `lo`, …, `lo + n - 1`. -/
theorem forRange_setPte (f : ℕ → Pte → Pte) (lo n : ℕ) :
    forRange lo n m (fun m i => m.setPte PT i (f i (m.pagusrTable PT i))) =
      { m with pagusrTable := fun s p =>
          if s = PT ∧ lo ≤ p ∧ p < lo + n then f p (m.pagusrTable s p) else m.pagusrTable s p } := by
  induction n with
  | zero =>
    refine Mm.ext rfl rfl (funext fun s => funext fun p => ?_) rfl
    exact (if_neg (by omega)).symm
  | succ n ih =>
    rw [forRange_succ, ih]
    refine Mm.ext rfl rfl (funext fun s => funext fun p => ?_) rfl
    simp only [setPte_table]
    grind

/-- **A page table of `init_table_pages`.** -/
theorem initTablePagesOf_eq (L : Layout) (m : Mm) (j : Slot) (hz : ∀ p, totalPages ≤ p → m.pagusrTable j p = {}) :
    m.initTablePagesOf L j =
      { m with pagusrTable := fun s p => if s = j then kernelPte L p else m.pagusrTable s p } := by
  have h1 := L.after_start
  have h2 := L.in_kernel
  simp only [Mm.initTablePagesOf]
  rw [forRange_setPte (fun _ _ => {}) 0 totalPages,
    forRange_setPte (fun i e => { e with pbaseAddr := i % 2 ^ 20, rwBit := true, present := true })]
  refine Mm.ext rfl rfl (funext fun s => funext fun p => ?_) rfl
  by_cases hs : s = j
  · subst hs
    have hz' := hz p
    simp only [setPte_table, kernelPte]
    simp only [numPagKernel, totalPages] at *
    by_cases hp : p < 256
    · have hm : p % 2 ^ 20 = p := Nat.mod_eq_of_lt (by omega)
      grind
    · grind
  · simp [hs]

theorem initTablePages_eq (L : Layout) (m : Mm) (hz : ∀ s p, totalPages ≤ p → m.pagusrTable s p = {}) :
    m.initTablePages L = { m with pagusrTable := fun _ p => kernelPte L p } := by
  have hk : ∀ p, totalPages ≤ p → kernelPte L p = {} := fun p hp => by
    rw [kernelPte, if_pos]; right; simp at hp ⊢; omega
  have hloop : ∀ n, n ≤ nrTasks → forRange 0 n m (fun m j => m.initTablePagesOf L (Fin.ofNat nrTasks j)) =
      { m with pagusrTable := fun s p => if s.val < n then kernelPte L p else m.pagusrTable s p } := by
    intro n
    induction n with
    | zero => intro _; simp
    | succ n ih =>
      intro hn
      have hv : (Fin.ofNat nrTasks n).val = n := Nat.mod_eq_of_lt (by omega)
      rw [forRange_succ, ih (by omega), initTablePagesOf_eq, Nat.zero_add]
      · refine Mm.ext rfl rfl (funext fun s => funext fun p => ?_) rfl
        have hs : s = Fin.ofNat nrTasks n ↔ s.val = n := by rw [Fin.ext_iff, hv]
        simp only [hs]
        grind
      · intro p hp
        dsimp only
        split
        · exact hk p hp
        · exact hz _ p hp
  rw [Mm.initTablePages, hloop nrTasks le_rfl]
  refine Mm.ext rfl rfl (funext fun s => funext fun p => ?_) rfl
  exact if_pos s.isLt

/-- A loop that marks the frames `lo`, …, `lo + n - 1`. -/
theorem forRange_setPhys (b : Byte) (lo n : ℕ) :
    forRange lo n m (fun m i => m.setPhys i b) =
      { m with physMem := fun g => if lo ≤ g ∧ g < lo + n then b else m.physMem g } := by
  induction n with
  | zero =>
    refine Mm.ext (funext fun g => ?_) rfl rfl rfl
    exact (if_neg (by omega)).symm
  | succ n ih =>
    rw [forRange_succ, ih]
    refine Mm.ext (funext fun g => ?_) rfl rfl rfl
    simp only [setPhys_phys]
    grind

theorem initFrames_eq (hz : ∀ g, m.physMem g = frameFree) :
    m.initFrames = { m with physMem := fun g => if g < numPagKernel then frameUsed else frameFree } := by
  simp only [Mm.initFrames, forRange_setPhys]
  refine Mm.ext (funext fun g => ?_) rfl rfl rfl
  simp [hz]

theorem initDirPages_eq : m.initDirPages = { m with dirPages := id } := by
  have hloop : ∀ n, n ≤ nrTasks → forRange 0 n m (fun m i =>
      { m with dirPages := Function.update m.dirPages (Fin.ofNat nrTasks i) (Fin.ofNat nrTasks i) }) =
      { m with dirPages := fun s => if s.val < n then s else m.dirPages s } := by
    intro n
    induction n with
    | zero => intro _; simp
    | succ n ih =>
      intro hn
      have hv : (Fin.ofNat nrTasks n).val = n := Nat.mod_eq_of_lt (by omega)
      rw [forRange_succ, ih (by omega), Nat.zero_add]
      refine Mm.ext rfl (funext fun s => ?_) rfl rfl
      have hs : s = Fin.ofNat nrTasks n ↔ s.val = n := by rw [Fin.ext_iff, hv]
      simp only [Function.update_apply]
      grind
  rw [Mm.initDirPages, hloop nrTasks le_rfl]
  refine Mm.ext rfl (funext fun s => ?_) rfl rfl
  exact if_pos s.isLt

theorem allocFrameFrom_skip (j : ℕ) : ∀ n i, j < n → (∀ t < j, m.physMem (i + 2 * t) ≠ frameFree) →
    m.physMem (i + 2 * j) = frameFree →
    m.allocFrameFrom n i = (some (i + 2 * j), m.setPhys (i + 2 * j) frameUsed) := by
  induction j with
  | zero =>
    intro n i hn _ hf
    obtain ⟨n, rfl⟩ : ∃ n', n = n' + 1 := ⟨n - 1, by omega⟩
    have h0 : m.physMem i = frameFree := hf
    rw [Mm.allocFrameFrom, if_pos h0]; rfl
  | succ j ih =>
    intro n i hn hu hf
    obtain ⟨n, rfl⟩ : ∃ n', n = n' + 1 := ⟨n - 1, by omega⟩
    have h0 : m.physMem i ≠ frameFree := hu 0 (by omega)
    rw [Mm.allocFrameFrom, if_neg h0, ih n (i + 2) (by omega) (fun t ht => ?_) (by rw [← hf]; congr 1; omega)]
    · rw [show i + 2 + 2 * j = i + 2 * (j + 1) by omega]
    · rw [show i + 2 + 2 * t = i + 2 * (t + 1) by omega]; exact hu (t + 1) (by omega)

theorem allocFrame_after {n : ℕ} (hp : m.physMem = physAfter n) (hn : n < 384) :
    m.allocFrame = (some (codeFrame n), { m with physMem := physAfter (n + 1) }) := by
  have hused : ∀ t < n, m.physMem (numPagKernel + 2 * t) ≠ frameFree := by
    intro t ht
    rw [hp, physAfter, if_pos]
    · exact frameUsed_ne_free
    · right; simp only [codeFrame, numPagKernel]; omega
  have hfree : m.physMem (numPagKernel + 2 * n) = frameFree := by
    rw [hp, physAfter, if_neg]; simp only [codeFrame, numPagKernel]; omega
  rw [Mm.allocFrame, allocFrameFrom_skip n _ _ (by simp; omega) hused hfree]
  refine Prod.ext rfl (Mm.ext (funext fun g => ?_) rfl rfl rfl)
  rw [setPhys_phys, hp]
  simp only [physAfter, codeFrame, numPagKernel]
  grind

/-- A loop of `set_user_pages`: consecutive pages from `lo` on get the next frames. -/
theorem setUserLoop (PT : Slot) (e : Pte) (lo j n : ℕ) (hp : m.physMem = physAfter j) (hn : j + n ≤ 384) :
    (forRange 0 n m fun m pag =>
      m.allocFrame.2.setPte PT (lo + pag) { e with pbaseAddr := Mm.storedFrame m.allocFrame.1 }) =
      { m with
        physMem := physAfter (j + n)
        pagusrTable := fun s p => if s = PT ∧ lo ≤ p ∧ p < lo + n
          then { e with pbaseAddr := codeFrame (j + (p - lo)) } else m.pagusrTable s p } := by
  induction n with
  | zero =>
    refine Mm.ext hp rfl (funext fun s => funext fun p => ?_) rfl
    exact (if_neg (by omega)).symm
  | succ n ih =>
    rw [forRange_succ, ih (by omega), Nat.zero_add, allocFrame_after rfl (by omega)]
    have hs : Mm.storedFrame (some (codeFrame (j + n))) = codeFrame (j + n) :=
      Nat.mod_eq_of_lt (by simp only [codeFrame, numPagKernel]; omega)
    refine Mm.ext rfl rfl (funext fun s => funext fun p => ?_) rfl
    simp only [setPte_table, hs]
    by_cases hpage : p = lo + n
    · subst hpage
      by_cases hPT : s = PT
      · simp [hPT]
      · simp [hPT]
    · simp only [hpage, and_false, if_false]
      exact if_congr (and_congr_right fun _ => by omega) rfl rfl

/-- **The pages of task 1.** -/
theorem setUserPages_eq (hp : m.physMem = fun g => if g < numPagKernel then frameUsed else frameFree)
    (ht : m.pagusrTable = fun _ p => kernelPte L p) :
    m.setUserPages 1 = { m with physMem := bootPhys, pagusrTable := bootTable L } := by
  have h0 : m.physMem = physAfter 0 := by
    rw [hp]; funext g; simp only [physAfter, codeFrame, numPagKernel]
    exact if_congr (by omega) rfl rfl
  have h1 := setUserLoop 1 { user := true, present := true } pagLogInitCode 0 numPagCode h0 (by decide)
  have h2 := fun m' hm' => setUserLoop (m := m') 1 { user := true, rwBit := true, present := true }
    pagLogInitData numPagCode numPagData hm' (by decide)
  rw [Mm.setUserPages]
  refine (h2 _ ?_).trans ?_
  · rw [h1, Nat.zero_add]
  · rw [h1]
    refine Mm.ext rfl rfl (funext fun s => funext fun p => ?_) rfl
    simp only [ht, bootTable, dataFrame, Nat.zero_add]
    grind

/-! ### The queues -/

/-- The first `n` task structs. -/
def firstTasks (n : ℕ) : List Node := (List.range n).map fun i => .task (Fin.ofNat nrTasks i)

theorem firstTasks_succ (n : ℕ) : firstTasks (n + 1) = firstTasks n ++ [.task (Fin.ofNat nrTasks n)] := by
  simp [firstTasks, List.range_succ]

theorem mem_firstTasks {n : ℕ} (hn : n ≤ nrTasks) {s : Slot} : .task s ∈ firstTasks n ↔ s.val < n := by
  simp only [firstTasks, List.mem_map, List.mem_range, Node.task.injEq]
  constructor
  · rintro ⟨i, hi, rfl⟩
    rw [show (Fin.ofNat nrTasks i).val = i from Nat.mod_eq_of_lt (by omega)]; exact hi
  · intro hs; exact ⟨s.val, hs, Fin.ofNat_val_eq_self s⟩

/-- **`init_freequeue`** puts every struct on `freequeue`, in the order of the array. -/
theorem initFreequeue_ok (k : Kernel) : ∃ h',
    initFreequeue k = .ok { k with task := fun s => { k.task s with PID := -1 }, links := h' } ∧
      Rings h' (fun a => a = .freequeue) fun _ => firstTasks nrTasks := by
  let k₀ := k.setLinks (initListHead k.links .freequeue)
  have hbase : Rings k₀.links (fun a => a = .freequeue) fun _ => firstTasks 0 := by
    have := initListHead_rings (h := k.links) (A := fun _ => False) (q := fun _ => []) (x := Node.freequeue)
      ⟨fun _ h => h.elim, fun _ _ h => h.elim⟩ fun _ h => h.elim
    refine ⟨fun a ha => ?_, fun a b ha hb hne => absurd (ha.trans hb.symm) hne⟩
    have hr := this.ring a (.inr ha)
    rw [ha, Function.update_self] at hr
    rw [ha]; exact hr
  obtain ⟨k', h1, h2⟩ := forRangeM_ok (n := nrTasks) (s := k₀)
    (I := fun n k' => ∃ h', k' = { k with
        task := fun s => if s.val < n then { k.task s with PID := -1 } else k.task s, links := h' } ∧
      Rings h' (fun a => a = .freequeue) fun _ => firstTasks n)
    ⟨_, by simp [k₀, Kernel.setLinks], hbase⟩
    (f := fun k i => do
      let s : Slot := Fin.ofNat nrTasks i
      let k := k.setTask s { k.task s with PID := -1 }
      let h ← listAddTail k.links (.task s) .freequeue
      pure (k.setLinks h)) (by
    rintro n k₁ - hn ⟨h, rfl, hR⟩
    have hv : (Fin.ofNat nrTasks n).val = n := Nat.mod_eq_of_lt (by omega)
    have hoff : OffRings (fun a => a = Node.freequeue) (fun _ => firstTasks n) (.task (Fin.ofNat nrTasks n)) := by
      rintro a rfl hm
      have := (mem_firstTasks (by omega)).1 ((List.mem_cons.1 hm).resolve_left (by simp))
      omega
    obtain ⟨h', h1, h2⟩ := listAddTail_rings hR rfl hoff
    refine ⟨_, bind_ok.2 ⟨h', h1, rfl⟩, h', ?_, ?_⟩
    · simp only [Kernel.setTask, Kernel.setLinks]
      congr 1
      funext s
      have hs : s = Fin.ofNat nrTasks n ↔ s.val = n := by rw [Fin.ext_iff, hv]
      simp only [Function.update_apply]
      grind
    · refine ⟨fun a ha => ?_, fun a b ha hb hne => absurd (ha.trans hb.symm) hne⟩
      have hr := h2.ring a ha
      rw [ha, Function.update_self] at hr
      rw [ha, firstTasks_succ]; exact hr)
  obtain ⟨h', rfl, hR⟩ := h2
  refine ⟨h', ?_, hR⟩
  rw [show initFreequeue k = forRangeM 0 nrTasks k₀ _ from rfl]
  refine h1.trans ?_
  congr 2
  funext s
  exact if_pos (by have := s.isLt; omega)

theorem initSched_ok (k : Kernel) : ∃ h',
    initSched k = .ok { k with task := fun s => { k.task s with PID := -1 }, links := h' } ∧
      Queues h' (fun _ => False) (fun a => if a = .freequeue then firstTasks nrTasks else [])
        fun _ => False := by
  obtain ⟨h₁, h1, hR⟩ := initFreequeue_ok k
  have hoff : OffRings (fun a => a = Node.freequeue) (fun _ => firstTasks nrTasks) .readyqueue := by
    rintro a rfl hm
    simp [firstTasks] at hm
  have hR' := initListHead_rings hR hoff
  refine ⟨initListHead h₁ .readyqueue, by rw [initSched, h1]; rfl, ⟨?_, ?_, ?_, ?_, ?_⟩⟩
  · have hA : ∀ a, Heads (fun _ => False) (fun a => if a = .freequeue then firstTasks nrTasks else []) a →
        a = .freequeue ∨ a = .readyqueue := by
      intro a ha
      cases a with
      | freequeue => exact .inl rfl
      | readyqueue => exact .inr rfl
      | blocked n => exact ha.1.elim
      | task s => exact ha.elim
    have hq : ∀ a, a = .freequeue ∨ a = .readyqueue →
        Function.update (fun _ => firstTasks nrTasks) .readyqueue [] a =
          if a = Node.freequeue then firstTasks nrTasks else [] := by
      rintro a (rfl | rfl) <;> simp
    refine ⟨fun a ha => ?_, fun a b ha hb hne => ?_⟩
    · rw [← hq a (hA a ha)]; exact hR'.ring a (hA a ha)
    · rw [← hq a (hA a ha), ← hq b (hA b hb)]
      exact hR'.disj a b (hA a ha) (hA b hb) hne
  · intro x hx
    obtain ⟨i, -, rfl⟩ := List.mem_map.1 hx
    exact ⟨_, rfl⟩
  · intro x hx; simp at hx
  · intro n hn; exact hn.1.elim
  · intro s
    simp only [iff_false, not_forall, not_not]
    exact ⟨.freequeue, Heads.free, (mem_firstTasks le_rfl).2 s.isLt⟩

/-- **`boot` succeeds and leaves `bootState`.** -/
theorem boot_ok (M : Machine) : ∃ k, boot M = .ok k ∧ WF k (bootState M) := by
  -- the page tables and the frame map of `init_mm`
  set m₀ : Mm := {
    physMem := fun g => if g < numPagKernel then frameUsed else frameFree
    dirPages := id
    pagusrTable := fun _ p => kernelPte M.layout p
    ram := M.ram }
  have hmm : ((reset M).mm.initTablePages M.layout).initFrames.initDirPages = m₀ := by
    rw [initTablePages_eq _ _ fun _ _ _ => rfl, initFrames_eq fun _ => rfl, initDirPages_eq]; rfl
  set k₀ := initMm M.layout (reset M)
  have hmm₀ : k₀.mm = m₀ := hmm
  -- `init_sched` links all task structs into `freequeue`
  obtain ⟨h₁, h1, hQ₁⟩ := initSched_ok k₀
  set k₁ : Kernel := { k₀ with task := fun s => { k₀.task s with PID := -1 }, links := h₁ }
  have hfirst : firstTasks nrTasks = .task 0 :: .task 1 :: bootFree := by decide
  obtain ⟨h₂, h2, hQ₂⟩ := takeFree_ok (k := k₁) hQ₁
    (show _ = .task 0 :: .task 1 :: bootFree by simp [hfirst])
  -- `init_idle` takes the first of them, and `init_task1` the next
  have hidle : ∃ k₂, initIdle k₁ = .ok k₂ ∧ k₂.links = h₂ ∧ k₂.mm = m₀ ∧ k₂.idleTask = 0 ∧
      k₂.globalPID = 1000 ∧ k₂.listSem = (fun _ => {}) ∧
      (∀ s, (k₂.task s).PID = if s = 0 then 0 else -1) ∧
      (∀ s, (k₂.task s).dirPagesBaseAddr = 0) ∧
      ∀ s, (k₂.task s).registerEsp = if s = 0 then some (0, kernelStackSize - 2) else none := by
    rw [initIdle, h2]
    refine ⟨_, rfl, rfl, hmm₀, rfl, rfl, rfl, fun s => ?_, fun s => ?_, fun s => ?_⟩ <;>
      by_cases hs : s = 0 <;>
      simp [initStats, setStats, getTicks, allocateDIR, Kernel.setTask, Kernel.setLinks, k₁, k₀, initMm,
        reset, Kernel.setMm, hs]
  obtain ⟨k₂, h3, hl₂, hm₂, hi₂, hg₂, hs₂, hpid₂, hdir₂, hesp₂⟩ := hidle
  have hQ₂' : Queues k₂.links (fun _ => False) _ _ := hl₂ ▸ hQ₂
  obtain ⟨h₃, h4, hQ₃⟩ := takeFree_ok (k := k₂) hQ₂' (show _ = .task 1 :: bootFree by simp)
  have htask : ∃ k₃, initTask1 k₂ = .ok k₃ ∧ k₃.links = h₃ ∧ k₃.mm = m₀.setUserPages 1 ∧ k₃.idleTask = 0 ∧
      k₃.globalPID = 1000 ∧ k₃.listSem = (fun _ => {}) ∧ k₃.current = 1 ∧ k₃.cr3 = 1 ∧
      (k₃.task 1).state = .ST_RUN ∧
      (∀ s, (k₃.task s).PID = if s = 0 then 0 else if s = 1 then 1 else -1) ∧
      (∀ s, (k₃.task s).dirPagesBaseAddr = if s = 1 then 1 else 0) ∧
      ∀ s, (k₃.task s).registerEsp = if s = 0 then some (0, kernelStackSize - 2) else none := by
    rw [initTask1, h4]
    refine ⟨_, rfl, rfl, ?_, hi₂, hg₂, hs₂, rfl, ?_, ?_, fun s => ?_, fun s => ?_, fun s => ?_⟩
    · simp [initStats, setStats, getTicks, allocateDIR, Kernel.setTask, Kernel.setLinks, getPT, Kernel.setMm,
        hm₂, m₀]
    · simp [initStats, setStats, getTicks, allocateDIR, Kernel.setTask, Kernel.setLinks, getDIR, Kernel.setMm]
    · simp [initStats, setStats, getTicks, allocateDIR, Kernel.setTask, Kernel.setLinks, Kernel.setMm]
    all_goals
      by_cases hs : s = 1 <;>
      simp [initStats, setStats, getTicks, allocateDIR, Kernel.setTask, Kernel.setLinks, Kernel.setMm, hs,
        hpid₂, hdir₂, hesp₂]
  obtain ⟨k₃, h5, hl₃, hm₃, hi₃, hg₃, hs₃, hc₃, hcr₃, hst₃, hpid₃, hdir₃, hesp₃⟩ := htask
  rw [setUserPages_eq (m := m₀) (L := M.layout) rfl rfl] at hm₃
  refine ⟨k₃, bind_ok.2 ⟨k₁, h1, bind_ok.2 ⟨k₂, h3, h5⟩⟩, ?_⟩
  -- the two that were taken are the ones that live
  have hfree : ∀ s : Slot, Node.task s ∉ bootFree → s = 0 ∨ s = 1 := by decide
  have hlive : ∀ s, (bootState M).Live s → s = 0 ∨ s = 1 := fun s hs =>
    hfree s (by simpa [AState.Live, bootState] using hs)
  have hI : (bootState M).IsInit = fun _ => False := by funext n; simp [AState.IsInit, bootState]
  exact {
    pid := hpid₃
    dir := hdir₃
    esp := hesp₃
    sem := hs₃
    current := hc₃
    idle := hi₃
    lastPid := hg₃
    phys := by rw [hm₃]; rfl
    table := by rw [hm₃]; rfl
    queues := by
      rw [hI, hl₃]
      have hq : (bootState M).queue = Function.update (Function.update
          (fun a => if a = Node.freequeue then firstTasks nrTasks else []) .freequeue (.task 1 :: bootFree))
          .freequeue bootFree := by
        funext x
        by_cases hx : x = .freequeue <;> simp [bootState, hx]
      rw [hq]
      refine hQ₃.congr_off fun s => ?_
      simp only [bootState, false_or]
      exact or_comm
    dirs := by rw [hm₃]
    own := fun s sp _ he => by
      simp only [bootState] at he
      split at he
      · rename_i h; cases he; exact h.symm
      · cases he
    ran := fun s hl hs => by
      rcases hlive s hl with rfl | rfl
      · simp [bootState]
      · exact absurd rfl hs
    first := by
      simp only [bootState, bootPhys, physAfter, codeFrame, numPagKernel]
      decide
    cr3 := by rw [hcr₃]; simp [AState.tab, bootState]
    run := hst₃
    alone := fun h => by simp [bootState] at h }

/-- **Every state of a run is well formed.** -/
theorem run_wf {tr : KTrace} {k : Kernel} (hr : KRun M tr k) : ∃ a, WF k a := by
  refine hr.invariant (P := fun k => ∃ a, WF k a) ?_ ?_
  · intro k hk
    obtain ⟨k', h, hW⟩ := boot_ok M
    cases h.symm.trans hk; exact ⟨_, hW⟩
  · rintro k e o k' ⟨a, hW⟩ hs
    obtain ⟨a', -, hW'⟩ := Step.refines hW hs
    exact ⟨a', hW'⟩

end Zeos
