import Zeos.Proof.Isolation

/-!
# Looking a process up by its PID

`sys_get_stats` searches all task structs for the PID, the free ones too. `sys_exit` resets
the PID of the struct it gives back, a fork that fails and `sys_terminatethread` do not.

* `loadBytes_storeBytes`: what is stored is read back.
* `FreeReset.statsExact`: the search is right when free structs have PID -1.
* `lookup_exact`: **they have it, and the search is right, along a run exactly if each fork that
  fails and each thread that ends has PID -1 itself.**
* `thread_leaves_pid`: a thread that ends leaves a free struct with the PID of its process.
-/

namespace Zeos

open Execution ForLoop

variable {k k' : Kernel} {a a' : AState} {e : Event} {M : Machine} {tr : KTrace} {o : Out} {m m' : Mm} {dir : Slot}
  {addr dest pid st : Word} {s c : Slot} {b : ℕ} {p : ℕ}

/-! ### Stores read back -/

/-- The `n` bytes at `addr` lie in present pages. -/
def BytesMapped (m : Mm) (dir : Slot) (addr : Word) (n : ℕ) : Prop :=
  ∀ i < n, (addr + BitVec.ofNat 32 i).toNat / pageSize < totalPages ∧
    (m.pagusrTable (m.dirPages dir) ((addr + BitVec.ofNat 32 i).toNat / pageSize)).present = true

theorem add_succ (addr : Word) (i : ℕ) : addr + 1 + BitVec.ofNat 32 i = addr + BitVec.ofNat 32 (i + 1) := by
  rw [Nat.add_comm i, BitVec.ofNat_add, BitVec.add_assoc]
  rfl

theorem BytesMapped.tail {n : ℕ} (h : BytesMapped m dir addr (n + 1)) : BytesMapped m dir (addr + 1) n := by
  intro i hi
  rw [add_succ]
  exact h (i + 1) (by omega)

theorem BytesMapped.same {n : ℕ} (h : BytesMapped m dir addr n) (hs : m.SameTables m') : BytesMapped m' dir addr n := by
  intro i hi
  rw [hs.table, hs.dirs]
  exact h i hi

theorem BytesMapped.first {n : ℕ} (h : BytesMapped m dir addr (n + 1)) :
    ∃ f, m.translate dir addr = .ok (f, addr.toNat % pageSize) := by
  obtain ⟨h1, h2⟩ := h 0 (by omega)
  rw [BitVec.add_zero] at h1 h2
  exact ⟨_, if_pos ⟨h1, h2⟩⟩

theorem storeBytes_ok {bs : List Byte} (h : BytesMapped m dir addr bs.length) :
    ∃ m', Mm.storeBytes dir m addr bs = .ok m' := by
  induction bs generalizing m addr with
  | nil => exact ⟨m, rfl⟩
  | cons x bs ih =>
    obtain ⟨f, hf⟩ := h.first
    have hst : m.storeByte dir addr x = .ok (m.setRam f (addr.toNat % pageSize) x) := bind_ok.2 ⟨_, hf, rfl⟩
    obtain ⟨m', hm'⟩ := ih (h.tail.same (storeByte_same hst))
    exact ⟨m', bind_ok.2 ⟨_, hst, hm'⟩⟩

theorem translate_offset {f o : ℕ} (h : m.translate dir addr = .ok (f, o)) : addr.toNat % pageSize = o := by
  simp only [Mm.translate] at h
  split at h
  · cases h
    rfl
  · cases h

/-- Two addresses less than a page apart have different offsets. -/
theorem offset_ne {i : ℕ} (h1 : 0 < i) (h2 : i < pageSize) :
    (addr + BitVec.ofNat 32 i).toNat % pageSize ≠ addr.toNat % pageSize := by
  rw [BitVec.toNat_add, BitVec.toNat_ofNat]
  simp only [pageSize] at *
  omega

/-- The bytes stored, fewer than a page holds, and what the store leaves alone. -/
theorem loadBytes_storeBytes {bs : List Byte} (hl : bs.length ≤ pageSize) (h : Mm.storeBytes dir m addr bs = .ok m') :
    m'.loadBytes dir addr bs.length = .ok bs ∧
      ∀ f o, (∀ i < bs.length, (addr + BitVec.ofNat 32 i).toNat % pageSize ≠ o) → m'.ram f o = m.ram f o := by
  induction bs generalizing m addr with
  | nil =>
    cases h
    exact ⟨rfl, fun _ _ _ => rfl⟩
  | cons x bs ih =>
    obtain ⟨m₁, hst, h⟩ := bind_ok.1 h
    have hs := (storeByte_same hst).trans (storeBytes_same h)
    obtain ⟨⟨f, o⟩, hf, hm₁⟩ := bind_ok.1 hst
    cases hm₁
    rw [List.length_cons] at hl
    obtain ⟨hload, hkeep⟩ := ih (by omega) h
    have ho : addr.toNat % pageSize = o := translate_offset hf
    constructor
    · have hf' : m'.translate dir addr = .ok (f, o) := by
        unfold Mm.translate at hf ⊢
        rw [hs.table, hs.dirs]
        exact hf
      -- the byte just stored lies in no byte of the rest
      have hx : m'.ram f o = x := by
        rw [hkeep f o fun i hi => ?_]
        · exact if_pos ⟨rfl, rfl⟩
        · rw [add_succ, ← ho]
          exact offset_ne (by omega) (by omega)
      have hb : m'.loadByte dir addr = .ok x := bind_ok.2 ⟨_, hf', congrArg Except.ok hx⟩
      exact bind_ok.2 ⟨x, hb, bind_ok.2 ⟨bs, hload, rfl⟩⟩
    · intro g i hi
      have hne : o ≠ i := by
        have := hi 0 (by simp)
        rwa [BitVec.add_zero, ho] at this
      rw [hkeep g i fun j hj => ?_]
      · exact if_neg fun hh => hne hh.2.symm
      · rw [add_succ]
        exact hi (j + 1) (by rw [List.length_cons]; omega)

/-! ### The search -/

/-- Free structs have PID -1. -/
def FreeReset (k : Kernel) : Prop := ∀ s, .task s ∈ members k .freequeue → (k.task s).PID = -1

/-- The statistics can be written to `st`. -/
def Writable (k : Kernel) (st : Word) : Prop :=
  accessOk verifyWrite st 28 = true ∧ BytesMapped k.mm k.cr3 st 28

/-- `sys_get_stats` finds live tasks only, and one when there is one. -/
structure StatsExact (k : Kernel) : Prop where
  found : ∀ pid st, 0 ≤ pid.toInt → Writable k st → (∃ s, Live k s ∧ (k.task s).PID = pid) →
    ∃ s k', Live k s ∧ (k.task s).PID = pid ∧ sysGetStats k pid st = .ok (0, k') ∧
      k'.mm.loadBytes k'.cr3 st 28 = .ok (statsBytes { (k.task s).pStats with remainingTicks := k.remainingQuantum })
  missing : ∀ pid st, 0 ≤ pid.toInt → Writable k st → (¬ ∃ s, Live k s ∧ (k.task s).PID = pid) →
    sysGetStats k pid st = .ok (-esrch, k)

theorem sysGetStats_eq (ha : accessOk verifyWrite st 28 = true) (hp : 0 ≤ pid.toInt) : sysGetStats k pid st =
    (match (List.finRange nrTasks).find? fun i => (k.task i).PID = pid with
    | none => .ok (-esrch, k)
    | some i => do
      let k := setStats k i { (k.task i).pStats with remainingTicks := k.remainingQuantum }
      let m ← copyToUser k.mm k.cr3 (statsBytes (k.task i).pStats) st
      pure (0, k.setMm m)) := by
  have hne : ¬ accessOk verifyWrite st 28 = false := by rw [ha]; decide
  unfold sysGetStats
  exact (if_neg hne).trans (if_neg (by omega))

theorem statsBytes_length (x : Stats) : (statsBytes x).length = 28 := rfl

theorem FreeReset.statsExact (h : FreeReset k) : StatsExact k := by
  have hlive : ∀ {s pid}, 0 ≤ BitVec.toInt pid → (k.task s).PID = pid → Live k s := by
    intro s pid hp hs hf
    rw [h s hf] at hs
    subst hs
    exact absurd hp (by decide)
  constructor
  · rintro pid st hp ⟨ha, hmap⟩ ⟨t, -, ht⟩
    obtain ⟨s, hs⟩ : ∃ s, (List.finRange nrTasks).find? (fun i => (k.task i).PID = pid) = some s := by
      rw [← Option.isSome_iff_exists, List.find?_isSome]
      exact ⟨t, List.mem_finRange t, decide_eq_true ht⟩
    have hsp : (k.task s).PID = pid := by simpa using List.find?_some hs
    set x : Stats := { (k.task s).pStats with remainingTicks := k.remainingQuantum }
    obtain ⟨m, hm⟩ : ∃ m, Mm.storeBytes k.cr3 k.mm st (statsBytes x) = .ok m :=
      storeBytes_ok (by rw [statsBytes_length]; exact hmap)
    refine ⟨s, (setStats k s x).setMm m, hlive hp hsp, hsp, ?_, ?_⟩
    · have hx : ((setStats k s x).task s).pStats = x := by simp [setStats, Kernel.setTask]
      rw [← hx] at hm
      rw [sysGetStats_eq ha hp, hs]
      exact bind_ok.2 ⟨m, hm, rfl⟩
    · have hlen : (statsBytes x).length ≤ pageSize := by
        rw [statsBytes_length]
        decide
      exact (loadBytes_storeBytes hlen hm).1
  · rintro pid st hp ⟨ha, -⟩ hno
    have hs : (List.finRange nrTasks).find? (fun i => (k.task i).PID = pid) = none := by
      rw [List.find?_eq_none]
      intro s _ hs
      have hs : (k.task s).PID = pid := by simpa using hs
      exact hno ⟨s, hlive hp hs, hs⟩
    rw [sysGetStats_eq ha hp, hs]

/-! ### Runs -/

/-- The step gives back no struct with a PID in it: a fork that runs out of frames, and a thread
that ends, only with PID -1. -/
def ResetsPid (k : Kernel) : Event → Prop
  | .sysenter .fork _ _ =>
    members k .freequeue = [] ∨ numPagData ≤ freeFrames k.mm.physMem ∨ (k.task k.current).PID = -1
  | .sysenter .terminatethread u _ =>
    u.toNat / pageSize < heapStart ∨ totalPages ≤ u.toNat / pageSize ∨
      k.mm.getFrame (getPT k k.current) (u.toNat / pageSize) = 0 ∨ (k.task k.current).PID = -1
  | _ => True

def AState.FreeReset (a : AState) : Prop := ∀ s, ¬ a.Live s → a.pid s = -1

theorem WF.freeReset_iff (hW : WF k a) : FreeReset k ↔ a.FreeReset := by
  unfold Zeos.FreeReset AState.FreeReset AState.Live
  rw [hW.members_free]
  simp only [hW.pid, not_not]

theorem resetsPid_other (h : e.isMemory = false) : ResetsPid k e := by
  unfold ResetsPid
  split
  · cases h
  · cases h
  · trivial

/-- A new task is none of the free ones any more. -/
theorem freeReset_born (h : ∀ s, a'.Live s ↔ a.Live s ∨ s = c) (hp : ∀ s, s ≠ c → a'.pid s = a.pid s)
    (hF : a.FreeReset) : a'.FreeReset := by
  intro s hs
  rw [h, not_or] at hs
  rw [hp s hs.2]
  exact hF s hs.1

theorem freeReset_step (hr : KRun M tr k) (hF : FreeReset k) (hs : Step k e o k') :
    FreeReset k' ↔ ResetsPid k e := by
  obtain ⟨a, hW⟩ := run_wf hr
  obtain ⟨a', h, hW'⟩ := hs.refines hW
  rw [hW'.freeReset_iff]
  rw [hW.freeReset_iff] at hF
  -- a call that does nothing to memory and tasks keeps every PID and `freequeue`
  rcases h.memory with ⟨he, hS⟩ | h
  · refine iff_of_true (fun s hs => ?_) (resetsPid_other he)
    rw [hS.pid]
    exact hF s (mt hS.live.2 hs)
  cases h with
  -- the slot of a failed fork is free again with the parent's PID in it
  | forkNone hq => exact iff_of_true hF (.inl (hW.members_free.trans hq))
  | @forkFail u b c rest hq hf =>
    have hC : ResetsPid k (.sysenter .fork u b) ↔ a.pid a.current = -1 := by
      unfold ResetsPid
      rw [hW.members_free, hq, hW.phys, hW.current, hW.pid]
      simp [hf]
    rw [hC]
    constructor
    · intro hF'
      have hc := hF' c (mt (forkFail_live hq).1 (not_live hq))
      simpa [AState.forkFail] using hc
    · intro hp s hs
      by_cases hsc : s = c
      · subst hsc
        simpa [AState.forkFail] using hp
      · have hs' := hF s (mt (forkFail_live hq).2 hs)
        simpa [AState.forkFail, AState.put, hsc] using hs'
  | @forkOk u b c rest fs hq hf =>
    refine iff_of_true ?_ (.inr (.inl (hW.phys ▸ hf)))
    refine freeReset_born (fun s => forkOk_live hW.free_nodup hq) (fun s hs => ?_) hF
    exact (forkOk_other hs).2
  -- `exit` writes the PID of the slot it frees, which `terminatethread` below does not
  | exit =>
    refine iff_of_true (fun s hs => ?_) trivial
    by_cases hsc : s = a.current
    · simp [AState.exit, AState.leave, AState.dispatch, AState.push, AState.put, hsc]
    · rw [exit_pid hsc]
      exact hF s fun hl => hs (exit_live.2 ⟨hl, hsc⟩)
  | alloc hA =>
    refine iff_of_true (fun s hs => ?_) trivial
    rw [hA.queue.2.2.1]
    exact hF s (mt hA.live.2 hs)
  | deallocBad => exact iff_of_true hF trivial
  | dealloc => exact iff_of_true hF trivial
  | threadNone => exact iff_of_true hF trivial
  | @thread u b w f p c rest a₁ hq hA =>
    obtain ⟨hqu, -, hpid, -⟩ := hA.queue
    refine iff_of_true ?_ trivial
    refine freeReset_born (c := c) (fun s => ?_) (fun s hs => ?_) hF
    · rw [← hA.live]
      exact spawn_live (hqu ▸ hW.free_nodup) (hqu ▸ hq) _ _ _
    · rw [(spawn_other _ _ _ _ hs).2, hpid]
  | @terminateBad u b hm =>
    refine iff_of_true hF ?_
    have hT : getPT k a.current = a.tab := hW.getPT
    unfold AState.Mapped at hm
    simp only [ResetsPid, hW.current, hT, Mm.getFrame, hW.table]
    omega
  | @terminate u b hm =>
    have hT : getPT k a.current = a.tab := hW.getPT
    have hC : ResetsPid k (.sysenter .terminatethread u b) ↔ a.pid a.current = -1 := by
      simp only [ResetsPid, hW.current, hT, Mm.getFrame, hW.table, hW.pid, Nat.not_lt.2 hm.1, Nat.not_le.2 hm.2.1,
        hm.2.2, false_or]
    rw [hC]
    have hpid : ∀ s, ((a.unmap (u.toNat / pageSize)).leave b).pid s = a.pid s := fun s => rfl
    constructor
    · intro hF'
      rw [← hpid]
      exact hF' a.current fun hl => (leave_live.1 hl).2 rfl
    · intro hp s hs
      rw [hpid]
      by_cases hsc : s = a.current
      · rw [hsc]
        exact hp
      · exact hF s fun hl => hs (leave_live.2 ⟨hl, hsc⟩)

theorem init_freeReset (h : boot M = .ok k) : FreeReset k := by
  obtain ⟨k', hk', hW⟩ := boot_ok M
  cases h.symm.trans hk'
  refine hW.freeReset_iff.2 fun s hs => ?_
  have hne : ∀ s : Slot, Node.task s ∈ bootFree → s ≠ 0 ∧ s ≠ 1 := by decide
  have hs' : Node.task s ∈ bootFree := by simpa [AState.Live, bootState] using hs
  simp [bootState, hne s hs']

/-- **Process lookup, exactly.** Along a run free structs have PID -1, and `sys_get_stats` is right,
if and only if no fork that fails and no thread that ends gives back a struct with a PID in it. -/
theorem lookup_exact (hr : KRun M tr k) :
    ((∀ t ∈ tr, FreeReset t.after ∧ StatsExact t.after) ↔ ∀ t ∈ tr, ResetsPid t.before t.event) ∧
    ((∀ t ∈ tr, ResetsPid t.before t.event) → FreeReset k ∧ StatsExact k) := by
  have hboth : ∀ {k}, FreeReset k ∧ StatsExact k ↔ FreeReset k := ⟨And.left, fun h => ⟨h, h.statsExact⟩⟩
  constructor
  · refine hr.exact (P := fun k => FreeReset k ∧ StatsExact k) (fun k h => hboth.2 (init_freeReset h)) ?_
    intro tr k e o k' hr hP hs
    rw [hboth]
    exact freeReset_step hr hP.1 hs
  · intro hC
    refine hboth.2 (hr.invariant_of (fun k h => init_freeReset h) ?_ hC)
    intro tr k e o k' hr hP hC hs
    exact (freeReset_step hr hP hs).2 hC

/-! ### A run -/

/-- Task 1 makes thread 2 and yields to it: the thread runs on the page table of task 1, the first heap
page its stack. -/
theorem thread_on_cpu (M : Machine) (b : ℕ) : ∃ y c k a f, KRun M [y, c] k ∧
    c.event = .sysenter (.createthread 0 0 0) someStack b ∧ y.event = .sysenter .yield someStack b ∧
    WF k a ∧ Ready a 355 ∧ a.current = 2 ∧ a.idle = 0 ∧ a.tab = 1 ∧ a.pid 2 = 1 ∧
    a.queue .readyqueue = .task 1 :: [] ∧ a.queue .freequeue = bootFree.tail ∧ IsEven f ∧
    ∀ q, heapStart ≤ q → a.table 1 q = if q = heapStart then userPte f else {} := by
  obtain ⟨c, k₁, a₁, f, hr₁, hc, hW₁, hT⟩ := thread_run M b
  obtain ⟨o₂, k₂, hs₂, -, hW₂⟩ := yield_step hW₁ hT.ready.user hT.ready.data hT.queue b
  set a₂ := (a₁.push .readyqueue a₁.current).dispatch b
  have hpush : (a₁.push .readyqueue a₁.current).queue .readyqueue = .task 2 :: [.task 1] := by
    simp [AState.push, AState.put, hT.queue, hT.current]
  have hcur₂ : a₂.current = 2 := by
    show (a₁.push .readyqueue a₁.current).next = 2
    simp [AState.next, hpush]
  have hready₂ : a₂.queue .readyqueue = .task 1 :: [] := by
    simp [a₂, AState.dispatch, AState.put, hpush]
  have hfree₂ : a₂.queue .freequeue = bootFree.tail := by
    simp [a₂, AState.dispatch, AState.push, AState.put, hT.free]
  have htab₂ : a₂.tab = 1 := by
    show a₁.dir a₂.current = 1
    rw [hcur₂, hT.dir]
  refine ⟨_, c, k₂, a₂, f, hr₁.step hs₂, hc, rfl, hW₂, ⟨?_, ?_, hT.ready.frames⟩, hcur₂, hT.idle, htab₂, hT.pid,
    hready₂, hfree₂, hT.even, hT.heap⟩
  · show a₂.current ≠ a₁.idle
    rw [hcur₂, hT.idle]
    decide
  · rw [htab₂]
    exact hT.tab ▸ hT.ready.data

/-- The thread ends: its struct is free, with PID 1. -/
theorem thread_leaves_pid : ∃ t y c k, KRun aMachine [t, y, c] k ∧
    c.event = .sysenter (.createthread 0 0 0) someStack 1000 ∧ y.event = .sysenter .yield someStack 1000 ∧
    t.event = .sysenter .terminatethread (wordAddr (BitVec.ofNat 32 (heapStart * pageSize)) 1021) 1000 ∧
    .task 2 ∈ members k .freequeue ∧ (k.task 2).PID = 1 ∧ ¬ FreeReset k := by
  obtain ⟨y, c, k₂, a₂, f, hr, hc, hy, hW₂, hR₂, hcur, -, htab, hpid₂, hready, -, he, hheap⟩ :=
    thread_on_cpu aMachine 1000
  obtain ⟨hm, hp⟩ := stack_mapped htab he hheap
  obtain ⟨o₃, k₃, hs₃, hW₃⟩ := terminate_step hW₂ hR₂.user hm hp (show 1021 < 1023 by decide) (.inr hready) 1000
  have hfree : .task 2 ∈ members k₃ .freequeue := by
    have h : ((a₂.unmap heapStart).leave 1000).queue .freequeue = a₂.queue .freequeue ++ [.task a₂.current] := by
      simp [AState.leave, AState.dispatch, AState.push, AState.put, AState.unmap]
    rw [hW₃.members_free, h, hcur]
    simp
  have hpid : (k₃.task 2).PID = 1 := (hW₃.pid 2).trans hpid₂
  refine ⟨_, y, c, k₃, hr.step hs₃, hc, hy, rfl, hfree, hpid, fun hF => ?_⟩
  have h := hF 2 hfree
  rw [hpid] at h
  cases h

/-- The first fork from boot on. -/
theorem lookup_exact_fork : ∃ t k, KRun aMachine [t] k ∧ t.event = .sysenter .fork someStack 1000 ∧
    FreeReset k ∧ StatsExact k := by
  obtain ⟨k₀, o₁, k₁, fs, hr₀, hW₀, hs₁, hW₁, hl, hR₁⟩ := fork_run aMachine 1000
  have hR₀ := boot_ready aMachine
  have hr₁ := hr₀.step hs₁
  refine ⟨_, k₁, hr₁, rfl, (lookup_exact hr₁).2 fun t ht => ?_⟩
  rw [List.mem_singleton.1 ht]
  refine .inr (.inl ?_)
  rw [hW₀.phys]
  exact le_trans (by decide) hR₀.frames

end Zeos
