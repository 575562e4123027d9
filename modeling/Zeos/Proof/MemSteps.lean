import Zeos.Proof.Boot

/-!
# Steps as the memory sees them

`MemStep` keeps of the abstract steps those that change page tables, frames or which
tasks live; all others leave an abstract state with the same memory (`SameMem`).

* `AStep.memory`: an abstract step is one or the other.
* `run_memory`: the invariant rule for what `MemStep` and `SameMem` preserve.
-/

namespace Zeos

open Execution

/-- The same memory, page directories, PIDs and free structs. -/
structure SameMem (a a' : AState) : Prop where
  phys : a'.phys = a.phys
  table : a'.table = a.table
  dir : a'.dir = a.dir
  pid : a'.pid = a.pid
  lastPid : a'.lastPid = a.lastPid
  free : a'.queue .freequeue = a.queue .freequeue
  idle : a'.idle = a.idle

/-- The steps of the calls on memory. -/
inductive MemStep (a : AState) : Event → AState → Prop
  | forkNone {u b} : a.queue .freequeue = [] → MemStep a (.sysenter .fork u b) a
  | forkFail {u b c rest} : a.queue .freequeue = .task c :: rest → freeFrames a.phys < numPagData →
    MemStep a (.sysenter .fork u b) (a.forkFail c rest)
  | forkOk {u b c rest fs} : a.queue .freequeue = .task c :: rest → numPagData ≤ freeFrames a.phys →
    fs.length = numPagData → fs.Nodup → (∀ f ∈ fs, IsEven f ∧ a.phys f = frameFree) →
    MemStep a (.sysenter .fork u b) (a.forkOk c rest b fs)
  | exit {u b} : MemStep a (.sysenter .exit u b) (a.exit b)
  | alloc {u b a'} : a.Alloc a' → MemStep a (.sysenter .alloc u b) a'
  | deallocBad {u b addr} : ¬ a.Mapped (addr.toNat / pageSize) → MemStep a (.sysenter (.dealloc addr) u b) a
  | dealloc {u b addr} : a.Mapped (addr.toNat / pageSize) →
    MemStep a (.sysenter (.dealloc addr) u b) (a.unmap (addr.toNat / pageSize))
  | threadNone {u b w f p} : a.queue .freequeue = [] → MemStep a (.sysenter (.createthread w f p) u b) a
  | thread {u b w f p c rest a'} : a.queue .freequeue = .task c :: rest → a.Alloc a' →
    MemStep a (.sysenter (.createthread w f p) u b)
      (a'.spawn c rest (a.pid a.current) a.tab (some (c, kernelStackSize - 18)))
  | terminateBad {u b} : ¬ a.Mapped (u.toNat / pageSize) → MemStep a (.sysenter .terminatethread u b) a
  | terminate {u b} : a.Mapped (u.toNat / pageSize) →
    MemStep a (.sysenter .terminatethread u b) ((a.unmap (u.toNat / pageSize)).leave b)

variable {a a' : AState} {e : Event} {sw : Option Switch} {s c : Slot} {b : ℕ} {rest : List Node}
  {M : Machine} {k k' : Kernel} {tr : KTrace}

theorem Event.isLocal_memory (h : e.isLocal = true) : e.isMemory = false := by
  unfold Event.isLocal at h
  split at h <;> first | rfl | cases h

theorem AStep.memory (h : AStep a e sw a') : (e.isMemory = false ∧ SameMem a a') ∨ MemStep a e a' := by
  cases h with
  | noop he => exact .inl ⟨Event.isLocal_memory he, rfl, rfl, rfl, rfl, rfl, rfl, rfl⟩
  | forkNone h => exact .inr (.forkNone h)
  | forkFail h h' => exact .inr (.forkFail h h')
  | forkOk h1 h2 h3 h4 h5 => exact .inr (.forkOk h1 h2 h3 h4 h5)
  | exit => exact .inr .exit
  | alloc h => exact .inr (.alloc h)
  | deallocBad h => exact .inr (.deallocBad h)
  | dealloc h => exact .inr (.dealloc h)
  | threadNone h => exact .inr (.threadNone h)
  | thread h h' => exact .inr (.thread h h')
  | terminateBad h => exact .inr (.terminateBad h)
  | terminate h => exact .inr (.terminate h)
  | _ =>
    refine .inl ⟨rfl, rfl, rfl, rfl, rfl, rfl, ?_, rfl⟩
    simp [AState.dispatch, AState.push, AState.put, AState.count, AState.setSem, AState.semInit,
      AState.semDestroy]

/-! ### Who is live -/

theorem SameMem.live (h : SameMem a a') : a'.Live s ↔ a.Live s := by rw [AState.Live, h.free]; rfl

theorem leave_live : (a.leave b).Live s ↔ a.Live s ∧ s ≠ a.current := by
  rw [AState.leave, dispatch_live]
  simp [AState.Live, AState.push, AState.put]

theorem exit_live : (a.exit b).Live s ↔ a.Live s ∧ s ≠ a.current := by
  rw [AState.exit, leave_live]; rfl

theorem forkFail_live (h : a.queue .freequeue = .task c :: rest) : (a.forkFail c rest).Live s ↔ a.Live s := by
  have h' : (a.forkFail c rest).queue .freequeue = rest ++ [.task c] := by
    simp [AState.forkFail, AState.put]
  rw [AState.Live, h', (List.perm_append_singleton _ _).mem_iff, ← h]; rfl

theorem spawn_live (hn : (a.queue .freequeue).Nodup) (h : a.queue .freequeue = .task c :: rest)
    (pid : Word) (dir : Slot) (esp : StackPtr) : (a.spawn c rest pid dir esp).Live s ↔ a.Live s ∨ s = c := by
  have h' : (a.spawn c rest pid dir esp).queue .freequeue = rest := by
    simp [AState.spawn, AState.push, AState.put]
  rw [h] at hn
  rw [AState.Live, AState.Live, h', h]
  by_cases hs : s = c
  · subst hs; simp [(List.nodup_cons.1 hn).1]
  · simp [hs]

theorem forkOk_live (hn : (a.queue .freequeue).Nodup) (h : a.queue .freequeue = .task c :: rest)
    {fs : List ℕ} : (a.forkOk c rest b fs).Live s ↔ a.Live s ∨ s = c :=
  spawn_live hn h (a.lastPid + 1) c (some (c, b - 1))

theorem AState.Alloc.queue (h : a.Alloc a') : a'.queue = a.queue ∧ a'.dir = a.dir ∧ a'.pid = a.pid ∧
    a'.current = a.current ∧ a'.idle = a.idle ∧ a'.lastPid = a.lastPid := by
  cases h <;> exact ⟨rfl, rfl, rfl, rfl, rfl, rfl⟩

theorem AState.Alloc.live (h : a.Alloc a') : a'.Live s ↔ a.Live s := by
  rw [AState.Live, (h.queue).1]; rfl

/-! ### Well-formed states -/

theorem WF.free_nodup (hW : WF k a) : (a.queue .freequeue).Nodup :=
  (List.nodup_cons.1 (hW.queues.nodup Heads.free)).2

theorem WF.current_live (hW : WF k a) : a.Live a.current := hW.toShape.off_live (.inl rfl)

theorem WF.idle_live (hW : WF k a) : a.Live a.idle := hW.toShape.off_live (.inr rfl)

theorem not_live (h : a.queue .freequeue = .task c :: rest) : ¬ a.Live c := by
  simp [AState.Live, h]

theorem WF.members_free (hW : WF k a) : members k .freequeue = a.queue .freequeue :=
  hW.queues.members_eq Heads.free

/-- What `members` reads of `freequeue` is its content, so that `Live` of the kernel is `Live`
of the abstract state. -/
theorem WF.members_ready (hW : WF k a) : members k .readyqueue = a.queue .readyqueue :=
  hW.queues.members_eq Heads.ready

theorem WF.live_iff (hW : WF k a) : Live k s ↔ a.Live s := by
  rw [Live, hW.members_free]; rfl

theorem WF.getPT (hW : WF k a) : getPT k s = a.dir s := hW.toShape.getPT_eq

theorem WF.getPT_current (hW : WF k a) : Zeos.getPT k k.current = a.tab := by
  rw [hW.current]
  exact hW.getPT

/-- The user's events find idle off the CPU. -/
theorem Step.user {o : Out} (hW : WF k a) (h : Step k e o k') (he : e.ofUser = true) : a.current ≠ a.idle := by
  rw [← hW.current, ← hW.idle]; exact h.1 he

/-- Below the data pages all tables are as before, and each live task has the page directory
of one that was live. -/
structure Inherits (a a' : AState) : Prop where
  low : ∀ s p, p < pagLogInitData → a'.table s p = a.table s p
  dir : ∀ s, a'.Live s → ∃ s₀, a.Live s₀ ∧ a'.dir s = a.dir s₀ ∧ (s₀ = a.idle → s = a.idle)
  idle : a'.idle = a.idle

theorem clearPages_below {t : Slot → ℕ → Pte} {T : Slot} {p lo hi : ℕ} (h : p < lo) :
    clearPages t T lo hi s p = t s p := if_neg (by omega)

theorem lt_heapStart {p : ℕ} (h : p < pagLogInitData) : p < heapStart := by simp at h ⊢; omega

theorem AState.Alloc.low (h : a.Alloc a') (s : Slot) (p : ℕ) (hp : p < pagLogInitData) :
    a'.table s p = a.table s p := by
  cases h with
  | noPage _ => rfl
  | noFrame _ => rfl
  | page q f h1 _ _ _ _ _ => exact if_neg (by rintro ⟨-, rfl⟩; have := lt_heapStart hp; omega)

/-- **Only a successful fork does more.** -/
theorem MemStep.inherits (hW : WF k a) (hc : a.current ≠ a.idle) (h : MemStep a e a') :
    (∃ u b c rest fs, e = .sysenter .fork u b ∧ a' = a.forkOk c rest b fs ∧
      a.queue .freequeue = .task c :: rest ∧ numPagData ≤ freeFrames a.phys ∧ fs.length = numPagData ∧
      fs.Nodup ∧ ∀ f ∈ fs, IsEven f ∧ a.phys f = frameFree) ∨
    (Inherits a a' ∧ ∀ u b, e = .sysenter .fork u b →
      a.queue .freequeue = [] ∨ freeFrames a.phys < numPagData) := by
  have hself : Inherits a a := ⟨fun _ _ _ => rfl, fun s hs => ⟨s, hs, rfl, id⟩, rfl⟩
  cases h with
  | forkNone h => exact .inr ⟨hself, fun _ _ _ => .inl h⟩
  | @forkFail u b c rest hq hf =>
    refine .inr ⟨⟨fun s p hp => clearPages_below hp, fun s hs => ⟨s, (forkFail_live hq).1 hs, ?_, id⟩, rfl⟩,
      fun _ _ _ => .inr hf⟩
    have hsc : s ≠ c := by rintro rfl; exact not_live hq ((forkFail_live hq).1 hs)
    simp [AState.forkFail, hsc]
  | forkOk hq hf hl hn hfs => exact .inl ⟨_, _, _, _, _, rfl, rfl, hq, hf, hl, hn, hfs⟩
  | exit =>
    exact .inr ⟨⟨fun s p hp => clearPages_below hp, fun s hs => ⟨s, (exit_live.1 hs).1, rfl, id⟩, rfl⟩,
      fun _ _ he => by cases he⟩
  | alloc h =>
    obtain ⟨-, hd, -, -, hid, -⟩ := h.queue
    exact .inr ⟨⟨h.low, fun s hs => ⟨s, h.live.1 hs, by rw [hd], id⟩, hid⟩, fun _ _ he => by cases he⟩
  | deallocBad _ => exact .inr ⟨hself, fun _ _ he => by cases he⟩
  | dealloc h =>
    exact .inr ⟨⟨fun s p hp => clearPages_below (lt_of_lt_of_le (lt_heapStart hp) h.1),
      fun s hs => ⟨s, hs, rfl, id⟩, rfl⟩, fun _ _ he => by cases he⟩
  | threadNone _ => exact .inr ⟨hself, fun _ _ he => by cases he⟩
  | @thread u b w f p' c rest a₁ hq h =>
    obtain ⟨hqu, hd, -, -, hid, -⟩ := h.queue
    refine .inr ⟨⟨fun s p hp => h.low s p hp, fun s hs => ?_, hid⟩, fun _ _ he => by cases he⟩
    have hs' := (spawn_live (by rw [hqu]; exact hW.free_nodup) (hqu ▸ hq) _ _ _).1 hs
    by_cases hsc : s = c
    -- the new thread is on the page table of its creator
    · exact ⟨a.current, hW.current_live, by simp [AState.spawn, hsc, AState.tab], fun h => absurd h hc⟩
    · exact ⟨s, h.live.1 (hs'.resolve_right hsc), by simp [AState.spawn, hsc, hd], id⟩
  | terminateBad _ => exact .inr ⟨hself, fun _ _ he => by cases he⟩
  | terminate h =>
    exact .inr ⟨⟨fun s p hp => clearPages_below (lt_of_lt_of_le (lt_heapStart hp) h.1),
      fun s hs => ⟨s, (leave_live.1 hs).1, rfl, id⟩, rfl⟩, fun _ _ he => by cases he⟩

/-- Below the data pages the child of a fork has the parent's frames, with the bits of a user page. -/
theorem forkTable_low {t : Slot → ℕ → Pte} {T : Slot} {p : ℕ} {fs : List ℕ} (hp : p < pagLogInitData) :
    forkTable t T c fs s p = if s = c then userPte (t T p).pbaseAddr else t s p := by
  have h1 : ¬ (s = T ∧ heapStart ≤ p ∧ p < heapStart + numPagData) := by
    rintro ⟨-, h, -⟩; have := lt_heapStart hp; omega
  rw [forkTable, if_neg h1]
  by_cases hs : s = c
  · rw [if_pos ⟨hs, hp⟩, if_pos hs]
  · rw [if_neg fun h => hs h.1, if_neg fun h => hs h.1, if_neg hs]

theorem forkOk_dir {fs : List ℕ} : (a.forkOk c rest b fs).dir s = if s = c then c else a.dir s := by
  by_cases h : s = c <;> simp [AState.forkOk, AState.spawn, h]

theorem forkOk_table {fs : List ℕ} : (a.forkOk c rest b fs).table = forkTable a.table a.tab c fs := rfl

/-- **The invariant rule for the memory.** -/
theorem run_memory {P : AState → Prop} (h0 : P (bootState M)) (hsame : ∀ {a a'}, SameMem a a' → P a → P a')
    (hstep : ∀ {k a e a'}, WF k a → a.current ≠ a.idle → P a → MemStep a e a' → P a') (hr : KRun M tr k) :
    ∃ a, WF k a ∧ P a := by
  refine hr.invariant (P := fun k => ∃ a, WF k a ∧ P a) (fun k hk => ?_) ?_
  · obtain ⟨k', h, hW⟩ := boot_ok M
    cases h.symm.trans hk; exact ⟨_, hW, h0⟩
  · rintro k e o k' ⟨a, hW, hP⟩ hs
    obtain ⟨a', h, hW'⟩ := Step.refines hW hs
    rcases h.memory with ⟨-, h⟩ | h
    · exact ⟨a', hW', hsame h hP⟩
    · have he : e.ofUser = true := by cases h <;> rfl
      exact ⟨a', hW', hstep hW (Step.user hW hs he) hP h⟩

end Zeos
