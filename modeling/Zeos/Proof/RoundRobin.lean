import Zeos.Proof.Marks
import Zeos.Proof.Semaphores
import Zeos.Proof.Switches

/-!
# Waiting for the CPU

Each task has a quantum of `DEFAULT_QUANTUM` ticks, counted down in `remaining_quantum`
while it has the CPU, and `readyqueue` is served in its order.

* `run_timed`: **quanta stay in range**, on every way that sets them.
* `AStep.wait`: a step brings a waiting task forward, by a tick or by a place.
* `bounded_waiting`: **a task at place `i` of `readyqueue` has the CPU within `i + 1` quanta**,
  in every run that keeps the counters in range.
* `starved`: with a list head on `readyqueue`, a task overtakes another time and again.
-/

namespace Zeos

open Execution

variable {k k' : Kernel} {a a' : AState} {m : Marks} {e : Event} {M : Machine} {tr tr' : KTrace} {o : Out} {n : Sem}
  {s t c : Slot} {b : ℕ} {sw : Option Switch} {xs ys zs : List Node}

/-! ### Quanta -/

/-- The quanta of the live tasks, and of the current one what is left. -/
structure Timed (a : AState) (m : Marks) : Prop where
  quantum : ∀ s, a.Live s → m.quantum s = defaultQuantum
  range : 1 ≤ m.left.toNat ∧ m.left.toNat ≤ defaultQuantum.toNat

theorem markKeep_left (he : ∀ b, e ≠ .clock b) : (a.markKeep m e).left = m.left := by
  unfold AState.markKeep
  split
  · exact absurd rfl (he _)
  · split
    · split <;> rfl
    · rfl
  · split <;> rfl
  · split <;> rfl
  · split <;> rfl
  · rfl

theorem child_quantum {r : Resume} :
    (m.child t c r).quantum s = if s = c then m.quantum t else m.quantum s := by
  by_cases h : s = c <;> simp [Marks.child, Marks.suspend, Marks.setState, Marks.copy, h]

theorem copy_quantum : (m.copy t c).quantum s = if s = c then m.quantum t else m.quantum s := by
  by_cases h : s = c <;> simp [Marks.copy, h]

theorem markKeep_quantum (hl : a.Live s) : (a.markKeep m e).quantum s = m.quantum s := by
  unfold AState.markKeep
  split
  · rfl
  · split
    · rename_i c rest hq
      have hsc : s ≠ c := by
        rintro rfl
        exact not_live hq hl
      split
      · rw [child_quantum, if_neg hsc]
      · rw [copy_quantum, if_neg hsc]
    · rfl
  · split
    · rename_i c rest hq
      have hsc : s ≠ c := by
        rintro rfl
        exact not_live hq hl
      rw [child_quantum, if_neg hsc]
    · rfl
  · split <;> rfl
  · split <;> rfl
  · rfl

/-- A new task has the quantum of the current one. -/
theorem AStep.born_quantum (hW : WF k a) (h : AStep a e sw a') (hs : a'.Live s) (hn : ¬ a.Live s) :
    (a.markKeep m e).quantum s = m.quantum a.current := by
  rcases h.memory with ⟨-, hS⟩ | h
  · exact absurd (hS.live.1 hs) hn
  cases h with
  | forkFail hq => exact absurd ((forkFail_live hq).1 hs) hn
  | forkOk hq hle =>
    have hsc := ((forkOk_live hW.free_nodup hq).1 hs).resolve_left hn
    simp only [AState.markKeep, hq, if_pos hle, child_quantum, if_pos hsc]
  | @thread _ _ _ _ _ c rest a₁ hq hA =>
    have hfree : a₁.queue .freequeue = a.queue .freequeue := by rw [hA.queue.1]
    have hsc := ((spawn_live (hfree ▸ hW.free_nodup) (hfree.trans hq) _ _ _).1 hs).resolve_left (by rwa [hA.live])
    simp only [AState.markKeep, hq, child_quantum, if_pos hsc]
  | exit => exact absurd (exit_live.1 hs).1 hn
  | terminate => exact absurd (leave_live.1 hs).1 hn
  | alloc hA => exact absurd (hA.live.1 hs) hn
  | _ => exact absurd hs hn

theorem tick_left (h1 : 1 ≤ m.left.toNat) :
    (m.left - 1 = 0 ↔ m.left.toNat = 1) ∧ (m.left - 1).toNat = m.left.toNat - 1 := by
  have h := m.left.isLt
  have hsub : (m.left - 1).toNat = m.left.toNat - 1 := by
    rw [BitVec.toNat_sub]
    simp
    omega
  refine ⟨?_, hsub⟩
  rw [← BitVec.toNat_inj, hsub]
  simp
  omega

theorem AStep.timed (hW : WF k a) (h : AStep a e sw a') (hT : Timed a m) : Timed a' (a.mark m e sw) := by
  cases sw with
  | some sw =>
    have hS := h.switched hW
    have hq : (a.mark m e (some sw)).quantum = m.quantum := by
      simp only [AState.mark, Marks.dispatch_quantum]
      split <;> rfl
    have hl : (a.mark m e (some sw)).left = defaultQuantum := by
      rw [← hT.quantum _ hS.live]
      simp only [AState.mark, Marks.dispatch_left]
      split <;> rfl
    refine ⟨fun s hs => ?_, ?_⟩
    · rw [hq]
      exact hT.quantum s (hS.kept s hs)
    · rw [hl]
      exact ⟨by decide, le_rfl⟩
  | none =>
    refine ⟨fun s hs => ?_, ?_⟩
    · by_cases hl : a.Live s
      · exact (markKeep_quantum hl).trans (hT.quantum s hl)
      · exact (h.born_quantum hW hs hl).trans (hT.quantum _ hW.current_live)
    · obtain ⟨h1, h2⟩ := hT.range
      show 1 ≤ (a.markKeep m e).left.toNat ∧ (a.markKeep m e).left.toNat ≤ _
      by_cases he : ∃ b, e = .clock b
      · obtain ⟨b, rfl⟩ := he
        obtain ⟨h3, h4⟩ := tick_left h1
        show 1 ≤ (m.tick a.current).left.toNat ∧ (m.tick a.current).left.toNat ≤ _
        unfold Marks.tick
        split
        · rw [hT.quantum _ hW.current_live]
          show 1 ≤ defaultQuantum.toNat ∧ defaultQuantum.toNat ≤ _
          exact ⟨by decide, le_rfl⟩
        · rename_i hne
          rw [h4]
          have hne := mt h3.2 hne
          omega
      · rw [markKeep_left fun b hb => he ⟨b, hb⟩]
        exact ⟨h1, h2⟩

theorem run_timed (hr : KRun M tr k) : ∃ a, WF k a ∧ Timed a (marks k) := by
  refine run_marks hr ⟨fun s hs => ?_, by decide⟩ fun hW _ _ h hm hT => hm ▸ h.timed hW hT
  have hs : s = 0 ∨ s = 1 := by
    simp only [AState.Live, bootState, bootFree] at hs
    revert s
    decide
  exact if_pos hs

/-! ### Places -/

def Event.isClock : Event → Bool
  | .clock _ => true
  | _ => false

/-- The clock ticks of a trace. -/
def ticks (tr : KTrace) : ℕ := tr.countP fun x => x.event.isClock

/-- The transition takes `t` off `readyqueue` and gives it the CPU. -/
structure Dispatches (x : Transition Kernel Event Out) (t : Slot) : Prop where
  switch : ∃ sw, x.out.switch = some sw ∧ sw.incoming = t
  current : x.after.current = t
  gone : .task t ∉ members x.after .readyqueue

/-- How long `t` may have to wait behind `ys`, in ticks. -/
def Marks.delay (m : Marks) (ys : List Node) : ℕ := ys.length * defaultQuantum.toNat + m.left.toNat

/-- A step that keeps the CPU only adds to `readyqueue`, at its end. -/
theorem AStep.ready_keep (hw : ∀ n, ¬ a.Wild n) (h : AStep a e none a') :
    ∃ xs, a'.queue .readyqueue = a.queue .readyqueue ++ xs := by
  generalize hsw : none = sw at h
  cases h with
  | clockSwitch => cases hsw
  | yield => cases hsw
  | exit => cases hsw
  | terminate => cases hsw
  | waitBlock => cases hsw
  | waitWild => cases hsw
  | alloc hA => exact ⟨[], by rw [hA.queue.1, List.append_nil]⟩
  | forkFail => exact ⟨[], by simp [AState.forkFail, AState.put]⟩
  | @forkOk _ _ c => exact ⟨[.task c], by simp [forkOk_queue]⟩
  | @thread _ _ _ _ _ c _ _ _ hA =>
    exact ⟨[.task c], by simp [AState.spawn, AState.push, AState.put, hA.queue.1]⟩
  | semInit => exact ⟨[], by simp [AState.semInit, AState.put, AState.setSem]⟩
  | @signalWake _ _ _ _ t =>
    exact ⟨[.task t], by simp [AState.push, AState.put, AState.count, AState.setSem]⟩
  | @signalSplice _ _ _ n =>
    exact ⟨[.blocked n], by simp [AState.put]⟩
  | signalWild _ _ hn => exact absurd hn (hw _)
  | @destroy _ _ _ n =>
    exact ⟨a.queue (.blocked n), by simp [AState.semDestroy, AState.put, AState.setSem]⟩
  | _ => exact ⟨[], (List.append_nil _).symm⟩

/-- A dispatch gives the CPU to `t`, or takes away the first of those in front of it. -/
theorem dispatch_wait (hn : (a.queue .readyqueue).Nodup) (hq : a.queue .readyqueue = ys ++ .task t :: zs) :
    (a.next = t ∧ .task t ∉ (a.dispatch b).queue .readyqueue) ∨
    ∃ y ys', ys = y :: ys' ∧ (a.dispatch b).queue .readyqueue = ys' ++ .task t :: zs := by
  have htail : (a.dispatch b).queue .readyqueue = (ys ++ .task t :: zs).tail := by
    rw [← hq]
    simp [AState.dispatch, AState.put]
  cases ys with
  | nil =>
    left
    refine ⟨by simp [AState.next, hq], ?_⟩
    rw [htail]
    rw [hq] at hn
    exact (List.nodup_cons.1 hn).1
  | cons y ys =>
    right
    exact ⟨y, ys, rfl, htail⟩

/-- What a step that takes the CPU away does to `readyqueue`, before the dispatch. -/
theorem AStep.ready_switch {x : Switch} (hW : WF k a) (hw : ∀ n, ¬ a.Wild n) (h : AStep a e (some x) a') :
    ∃ (a₁ : AState) (b : ℕ) (xs : List Node), x = a₁.switch b ∧ a'.queue = (a₁.dispatch b).queue ∧ a'.current = a₁.next ∧
      a₁.queue .readyqueue = a.queue .readyqueue ++ xs ∧ (a₁.queue .readyqueue).Nodup := by
  have hnd : (a.queue .readyqueue).Nodup := (List.nodup_cons.1 (hW.queues.nodup Heads.ready)).2
  have hpush : ((a.push .readyqueue a.current).queue .readyqueue) = a.queue .readyqueue ++ [.task a.current] := by
    simp [AState.push, AState.put]
  have hnd' : (a.queue .readyqueue ++ [Node.task a.current]).Nodup := List.nodup_append.2 ⟨hnd, by simp, by
    intro x hx y hy
    rw [List.mem_singleton.1 hy]
    rintro rfl
    exact hW.not_ready hx⟩
  have hfree : (a.push .freequeue a.current).queue .readyqueue = a.queue .readyqueue := by
    simp [AState.push, AState.put]
  generalize hsw : some x = sw at h
  cases h with
  | clockSwitch => cases hsw; exact ⟨_, _, _, rfl, rfl, rfl, hpush, hpush ▸ hnd'⟩
  | yield => cases hsw; exact ⟨_, _, _, rfl, rfl, rfl, hpush, hpush ▸ hnd'⟩
  | exit => cases hsw; exact ⟨_, _, [], rfl, rfl, rfl, by rw [hfree, List.append_nil], hfree ▸ hnd⟩
  | terminate => cases hsw; exact ⟨_, _, [], rfl, rfl, rfl, by rw [hfree, List.append_nil], hfree ▸ hnd⟩
  | @waitBlock u b i n =>
    cases hsw
    have hq : ((a.count n (-1)).push (.blocked n) a.current).queue .readyqueue = a.queue .readyqueue := by
      simp [AState.push, AState.put, AState.count, AState.setSem]
    exact ⟨_, _, [], rfl, rfl, rfl, by rw [hq, List.append_nil], hq ▸ hnd⟩
  | @waitWild u b i n ys zs _ _ hq =>
    refine absurd ?_ (hw n)
    rw [AState.Wild, hq]
    simp
  | _ => cases hsw

/-- **A step brings a waiting task forward**: by a tick or by a place, if it does not give it
the CPU. -/
theorem Step.wait (hW : WF k a) (hW' : WF k' a') (hw : ∀ n, ¬ a.Wild n) (hT : Timed a (marks k)) (hs : Step k e o k')
    (h : AStep a e o.switch a') (hq : a.queue .readyqueue = ys ++ .task t :: zs) :
    Dispatches ⟨k, e, o, k'⟩ t ∨ ∃ ys' zs', a'.queue .readyqueue = ys' ++ .task t :: zs' ∧ ys' <:+ ys ∧
      (marks k').delay ys' + (if e.isClock then 1 else 0) ≤ (marks k).delay ys := by
  have hm := (hs.marked hW).after
  have hT' : Timed a' (marks k') := hm ▸ h.timed hW hT
  obtain ⟨hpos, hle⟩ := hT.range
  cases hsw : o.switch with
  -- a switch: either `t` is the one to get the CPU, or one of those before it, who is worth a quantum
  | some x =>
    rw [hsw] at h hm
    obtain ⟨a₁, b, xs, rfl, hqa, hcur, hq₁, hnd⟩ := h.ready_switch hW hw
    rw [hq, List.append_assoc, List.cons_append] at hq₁
    rcases dispatch_wait (b := b) hnd hq₁ with ⟨hnext, hgone⟩ | ⟨y, ys', rfl, hd⟩
    · left
      refine ⟨⟨_, hsw, hnext⟩, ?_, ?_⟩
      · rw [hW'.current, hcur, hnext]
      · rw [hW'.members_ready, hqa]
        exact hgone
    · right
      refine ⟨ys', zs ++ xs, hqa ▸ hd, List.suffix_cons y ys', ?_⟩
      have hl := hT'.range.2
      unfold Marks.delay
      rw [List.length_cons, Nat.succ_mul]
      split <;> omega
  -- no switch: the tasks before `t` stay, and only a tick takes from the delay
  | none =>
    right
    rw [hsw] at h hm
    obtain ⟨xs, hxs⟩ := h.ready_keep hw
    refine ⟨ys, zs ++ xs, by rw [hxs, hq]; simp, List.suffix_rfl, ?_⟩
    unfold Marks.delay
    by_cases he : ∃ b, e = .clock b
    · obtain ⟨b, rfl⟩ := he
      have hdue := (clock_marked hW hs.2).2
      rw [hsw] at hdue
      -- a tick that ended the quantum would have switched
      have hne : (marks k).left - 1 ≠ 0 := fun h0 => hdue.2 ⟨h0, by rw [hq]; simp⟩ rfl
      have hl : (marks k').left = (marks k).left - 1 := by
        rw [hm]
        exact if_neg hne
      obtain ⟨-, h2⟩ := tick_left hpos
      rw [hl, h2]
      simp only [Event.isClock, if_true]
      omega
    · have hc : e.isClock = false := by
        cases e with
        | clock b => exact absurd ⟨b, rfl⟩ he
        | _ => rfl
      have hl : (marks k').left = (marks k).left := by
        rw [hm]
        exact markKeep_left fun b hb => he ⟨b, hb⟩
      rw [hl, hc]
      simp

/-! ### Runs -/

theorem ticks_map (tr : KTrace) : ticks tr = (tr.map (·.event)).countP Event.isClock := by
  rw [List.countP_map]
  rfl

theorem ticks_cons {x : Transition Kernel Event Out} :
    ticks (x :: tr) = ticks tr + if x.event.isClock then 1 else 0 := List.countP_cons

/-- `t` waits behind `ys` after the run `tr`: after what follows it has had the CPU, or waits behind
less. -/
theorem wait_run {ys zs : List Node} (hr : KRun M tr k) (hp : Path (kernelSystem M) k tr' k')
    (hC : ∀ x ∈ tr' ++ tr, CountInRange x.before x.event) (hq : members k .readyqueue = ys ++ .task t :: zs) :
    (∃ x ∈ tr', Dispatches x t) ∨ ∃ ys' zs', members k' .readyqueue = ys' ++ .task t :: zs' ∧ ys' <:+ ys ∧
      (marks k').delay ys' + ticks tr' ≤ (marks k).delay ys := by
  refine hp.induct (P := fun tr' k' => (∀ x ∈ tr' ++ tr, CountInRange x.before x.event) →
    (∃ x ∈ tr', Dispatches x t) ∨ ∃ ys' zs', members k' .readyqueue = ys' ++ .task t :: zs' ∧ ys' <:+ ys ∧
      (marks k').delay ys' + ticks tr' ≤ (marks k).delay ys) (fun _ => ?_) ?_ hC
  · exact .inr ⟨ys, zs, hq, List.suffix_rfl, le_rfl⟩
  · intro tr₁ k₁ e o k₂ hp₁ ih hs hC
    rw [List.cons_append] at hC
    have hC₁ := fun x hx => hC x (List.mem_cons_of_mem _ hx)
    rcases ih hC₁ with ⟨x, hx, hd⟩ | ⟨ys₁, zs₁, hq₁, hsuf, hle⟩
    · exact .inl ⟨x, List.mem_cons_of_mem _ hx, hd⟩
    have hr₁ := hr.path hp₁
    obtain ⟨a, hW, hw, -⟩ := run_inRange hr₁ hC₁
    obtain ⟨a₀, hW₀, hT⟩ := run_timed hr₁
    obtain ⟨a', h, hW'⟩ := hs.refines hW
    have hT : Timed a (marks k₁) := ⟨fun s hl => hT.quantum s (hW₀.live_iff.1 (hW.live_iff.2 hl)), hT.range⟩
    rw [hW.members_ready] at hq₁
    rcases hs.wait hW hW' hw hT h hq₁ with hd | ⟨ys₂, zs₂, hq₂, hsuf₂, hle₂⟩
    · exact .inl ⟨_, List.mem_cons_self, hd⟩
    · refine .inr ⟨ys₂, zs₂, by rw [hW'.members_ready, hq₂], hsuf₂.trans hsuf, ?_⟩
      rw [ticks_cons]
      simp only
      omega

/-- **Bounded waiting.** The quantum of every live task is `DEFAULT_QUANTUM` and what is left of the
current one is from 1 to that. A task at place `i` of `readyqueue` has been taken off it and has got
the CPU by the end of the `(i + 1) * DEFAULT_QUANTUM`-th tick, and till then only tasks that had
been in front of it still are. -/
theorem bounded_waiting {ys zs : List Node} (hr : KRun M tr k) (hp : Path (kernelSystem M) k tr' k')
    (hC : ∀ x ∈ tr' ++ tr, CountInRange x.before x.event) (hq : members k .readyqueue = ys ++ .task t :: zs) :
    (∀ s, Live k s → (k.task s).totalQuantum = defaultQuantum) ∧ 1 ≤ k.remainingQuantum.toNat ∧
    k.remainingQuantum.toNat ≤ defaultQuantum.toNat ∧
    ((∃ x ∈ tr', Dispatches x t) ∨ ∃ ys' zs', members k' .readyqueue = ys' ++ .task t :: zs' ∧ ys' <:+ ys) ∧
    ((ys.length + 1) * defaultQuantum.toNat ≤ ticks tr' → ∃ x ∈ tr', Dispatches x t) := by
  obtain ⟨a, hW, hT⟩ := run_timed hr
  obtain ⟨a', hW', hT'⟩ := run_timed (hr.path hp)
  have hwait := wait_run hr hp hC hq
  refine ⟨fun s hl => hT.quantum s (hW.live_iff.1 hl), hT.range.1, hT.range.2, ?_, fun hle => ?_⟩
  · exact hwait.imp id fun ⟨ys', zs', h1, h2, _⟩ => ⟨ys', zs', h1, h2⟩
  · refine hwait.resolve_right ?_
    rintro ⟨ys', zs', -, -, hd⟩
    obtain ⟨h1, -⟩ := hT'.range
    obtain ⟨-, h2⟩ := hT.range
    unfold Marks.delay at hd
    rw [Nat.succ_mul] at hle
    omega

/-! ### Overtaking -/

/-- Ticks before the quantum is up. -/
theorem ticks_path (hW : WF k a) : ∀ n : ℕ, n < (marks k).left.toNat →
    ∃ tr k', Path (kernelSystem M) k tr k' ∧ tr.map (·.event) = List.replicate n (.clock 1000) ∧
      (∀ x ∈ tr, x.after.current = a.current) ∧ WF k' a ∧ (marks k').quantum = (marks k).quantum ∧
      (marks k').left.toNat = (marks k).left.toNat - n := by
  intro n
  induction n with
  | zero => exact fun _ => ⟨[], k, .refl, rfl, by simp, hW, rfl, rfl⟩
  | succ n ih =>
    intro hn
    obtain ⟨tr, k₁, hp, he, hcur, hW₁, hq, hl⟩ := ih (by omega)
    obtain ⟨h1, h2⟩ := tick_left (m := marks k₁) (by omega)
    have hne : (marks k₁).left - 1 ≠ 0 := mt h1.1 (by omega)
    obtain ⟨o, k', hs, -, hW', hm⟩ := tick_step hW₁ hne 1000
    refine ⟨_, k', hp.step hs, ?_, ?_, hW', ?_, ?_⟩
    · rw [List.map_cons, he, List.replicate_succ]
    · intro x hx
      rcases List.mem_cons.1 hx with rfl | hx
      · exact hW'.current
      · exact hcur x hx
    · rw [hm, ← hq]
      rfl
    · rw [hm]
      show (if (marks k₁).left - 1 = 0 then _ else (marks k₁).left - 1).toNat = _
      rw [if_neg hne, h2]
      omega

/-- Task 2 runs, with the head of semaphore 0 in front of task 1 on `readyqueue`. It has left the CPU before, at the
same place. -/
structure Stuck (k : Kernel) (v : Word) : Prop where
  state : ∃ a, WF k a ∧ Pair a 2 v (some (2, 1000)) [.blocked 0, .task 1] []
  quantum : (marks k).quantum 2 = defaultQuantum
  left : (marks k).left = defaultQuantum

/-- Task 2 waits on semaphore 0 before its quantum is up, and runs on. -/
theorem Stuck.round {v : Word} (hS : Stuck k v) (hv : (v - 1).toInt < 0) :
    ∃ tr k', Path (kernelSystem M) k tr k' ∧
      tr.map (·.event) = .sysenter (.semWait 0) someStack 1000 :: List.replicate 9 (.clock 1000) ∧
      (∀ x ∈ tr, x.after.current = 2) ∧ Stuck k' (v - 1) := by
  obtain ⟨⟨a, hW, hP⟩, hqu, hl⟩ := hS
  obtain ⟨tr, k₁, hp, he, hcur, hW₁, hqu₁, -⟩ := ticks_path (M := M) hW 9 (by rw [hl]; decide)
  have hc := hP.current
  obtain ⟨o, k', hs, hsw, hW'⟩ := waitWild_step hW₁ hP.user hP.data_current hP.valid (by rw [hP.sem]; exact hv)
    hP.ready (by rw [hc]; exact hP.esp)
  set a₁ := (a.count 0 (-1)).put .readyqueue (.task a.current :: .blocked 0 :: [.task 1])
  have hnext : a₁.next = 2 := by simp [a₁, AState.next, AState.put, hc]
  have hm := (hs.marked hW₁).after
  rw [hsw] at hm
  have hquk : (marks k').quantum = (marks k).quantum := by
    rw [← hqu₁, hm]
    rfl
  refine ⟨_, k', hp.step hs, ?_, ?_, ⟨⟨_, hW', ⟨.inr rfl, hnext, hP.idle, ?_, ?_, ?_, ?_, hP.data⟩⟩, ?_, ?_⟩⟩
  · rw [List.map_cons, he]
  · intro x hx
    rcases List.mem_cons.1 hx with rfl | hx
    · exact hW'.current.trans hnext
    · exact (hcur x hx).trans hc
  · have h : (a₁.dispatch 1000).sem 0 = { a.sem 0 with counter := (a.sem 0).counter + -1 } := by
      simp [a₁, AState.dispatch, AState.put, AState.count, AState.setSem]
    rw [h, hP.sem, BitVec.sub_eq_add_neg]
  · simp [a₁, AState.dispatch, AState.put, AState.count, AState.setSem, hc]
  · simp [a₁, AState.dispatch, AState.put]
  · simpa [a₁, AState.dispatch, AState.put, AState.count, AState.setSem] using hP.blocked
  · rw [hquk, hqu]
  · have h : (marks k').left = (marks k₁).quantum a₁.next := by
      rw [hm]
      rfl
    rw [h, hqu₁, hnext, hqu]

/-- A semaphore that starts below zero: task 2 waits on it once and is woken, then a signal finds nobody and puts the
list's head into `readyqueue`, task 1 comes behind it, and task 2, which waits on the semaphore time and again, goes
on while task 1 does not get the CPU in its two quanta. -/
theorem starved : ∃ tr tr' k k', KRun aMachine tr k ∧ Path (kernelSystem aMachine) k tr' k' ∧
    tr.map (·.event) = [.sysenter .yield someStack 1000, .sysenter (.semSignal 0) someStack 1000,
      .sysenter (.semSignal 0) someStack 1000, .sysenter (.semWait 0) someStack 1000, .sysenter .yield someStack 1000,
      .sysenter (.semInit 0 0xC0000000) someStack 1000, .sysenter .fork someStack 1000] ∧
    members k .readyqueue = [.blocked 0] ++ .task 1 :: [] ∧ (1 + 1) * defaultQuantum.toNat ≤ ticks tr' ∧
    ∀ x ∈ tr', ¬ Dispatches x 1 := by
  -- a child, and a semaphore with a counter far below zero
  obtain ⟨tr, k₁, a₁, hr₁, he, -, hW₁, hP₁⟩ := pair_run aMachine 0xC0000000
  obtain ⟨o₂, k₂, a₂, hs₂, hW₂, hP₂, -⟩ := hP₁.yield hW₁ (.inr rfl)
  -- the child waits, and a first signal wakes it
  obtain ⟨o₃, k₃, a₃, hs₃, hW₃, hP₃, -⟩ := hP₂.wait hW₂ (.inl rfl) (by simp) (by decide)
  obtain ⟨o₄, k₄, a₄, hs₄, hW₄, hP₄, -⟩ := hP₃.wake hW₃ (by simp) (by decide)
  -- the second finds the list empty: the list's head goes to `readyqueue`, behind the child
  obtain ⟨o₅, k₅, a₅, hs₅, hW₅, hP₅, -⟩ := hP₄.splice hW₄ (by simp) (by decide)
  obtain ⟨o₆, k₆, a₆, hs₆, hW₆, hP₆, x, hsw, hnext⟩ := hP₅.yield hW₅ (.inr rfl)
  have hr₆ := (((((hr₁.step hs₂).step hs₃).step hs₄).step hs₅).step hs₆)
  have hS : Stuck k₆ 0xC0000001 := by
    obtain ⟨a, hW, hT⟩ := run_timed hr₆
    have hlive : a.Live 2 := by
      have h : a.current = 2 := hW.current.symm.trans (hW₆.current.trans hP₆.current)
      exact h ▸ hW.current_live
    have hm := (hs₆.marked hW₅).after
    rw [hsw] at hm
    have hl : (marks k₆).left = (marks k₆).quantum x.incoming := by
      rw [hm]
      rfl
    exact ⟨⟨a₆, hW₆, hP₆⟩, hT.quantum 2 hlive, by rw [hl, hnext, hT.quantum 2 hlive]⟩
  -- three rounds of the child's quantum, in each of which it gets the CPU again itself
  obtain ⟨tr₁, k₇, hp₁, he₁, hc₁, hS₁⟩ := hS.round (M := aMachine) (by decide)
  obtain ⟨tr₂, k₈, hp₂, he₂, hc₂, hS₂⟩ := hS₁.round (M := aMachine) (by decide)
  obtain ⟨tr₃, k₉, hp₃, he₃, hc₃, -⟩ := hS₂.round (M := aMachine) (by decide)
  refine ⟨_, tr₃ ++ (tr₂ ++ tr₁), k₆, k₉, hr₆, (hp₁.trans hp₂).trans hp₃, ?_, ?_, ?_, ?_⟩
  · simp only [List.map_cons, he]
  · rw [hW₆.members_ready, hP₆.ready]
    rfl
  · rw [ticks_map, List.map_append, List.map_append, he₁, he₂, he₃]
    decide
  · intro x hx hd
    have hcur := hd.current
    rcases List.mem_append.1 hx with hx | hx
    · exact absurd ((hc₃ x hx).symm.trans hcur) (by decide)
    · rcases List.mem_append.1 hx with hx | hx
      · exact absurd ((hc₂ x hx).symm.trans hcur) (by decide)
      · exact absurd ((hc₁ x hx).symm.trans hcur) (by decide)

/-- A child has the CPU after the ten ticks of its parent's quantum. -/
theorem bounded_waiting_fork : ∃ t tr' k k', KRun aMachine [t] k ∧ Path (kernelSystem aMachine) k tr' k' ∧
    t.event = .sysenter .fork someStack 1000 ∧ tr'.map (·.event) = List.replicate 10 (.clock 1000) ∧
    members k .readyqueue = [] ++ .task 2 :: [] ∧ ∃ x ∈ tr', Dispatches x 2 := by
  obtain ⟨k₀, o₁, k₁, fs, hr₀, hW₀, hs₁, hW₁, hl, hR₁⟩ := fork_run aMachine 1000
  set a₀ := bootState aMachine
  set a₁ := (bootState aMachine).forkOk 2 bootFree.tail 1000 fs
  have hq₁ : a₁.queue .readyqueue = [.task 2] := by simp [a₁, forkOk_queue, bootState]
  have hr₁ := hr₀.step hs₁
  have hl : (marks k₁).left.toNat = 10 := by
    have hb : marks k₀ = bootMarks := by
      cases hr₀ with
      | init h => exact boot_marks h
    have hm := (hs₁.marked hW₀).after
    have hn : o₁.switch = none := by
      obtain ⟨a', h, -⟩ := hs₁.refines hW₀
      generalize o₁.switch = sw at h
      cases h <;> rfl
    rw [hn] at hm
    have hk : (marks k₁).left = (marks k₀).left := by
      have hkeep : marks k₁ = a₀.markKeep (marks k₀) (.sysenter .fork someStack 1000) := hm
      rw [hkeep, markKeep_left fun b h => by cases h]
    rw [hk, hb]
    rfl
  obtain ⟨tr, k₂, hp, he, -, hW₂, -, hl₂⟩ := ticks_path (M := aMachine) hW₁ 9 (by omega)
  have hdue : (marks k₂).left - 1 = 0 := (tick_left (by omega)).1.2 (by omega)
  obtain ⟨o₃, k₃, hs₃⟩ := due_step hW₂ hdue hq₁ 1000
  have hp' := hp.step hs₃
  have he' : ((⟨k₂, .clock 1000, o₃, k₃⟩ :: tr : KTrace)).map (·.event) = List.replicate 10 (.clock 1000) := by
    rw [List.map_cons, he]
    rfl
  have hmem : members k₁ .readyqueue = [] ++ .task 2 :: [] := hW₁.members_ready.trans hq₁
  have hC : ∀ x ∈ (⟨k₂, .clock 1000, o₃, k₃⟩ :: tr : KTrace) ++ [⟨k₀, .sysenter .fork someStack 1000, o₁, k₁⟩],
      CountInRange x.before x.event := by
    intro x hx
    rcases List.mem_append.1 hx with hx | hx
    · have h : x.event = .clock 1000 := by
        have := List.mem_map_of_mem (f := (·.event)) hx
        rw [he'] at this
        exact List.eq_of_mem_replicate this
      rw [h]
      trivial
    · rw [List.mem_singleton.1 hx]
      trivial
  have ht : ticks (⟨k₂, .clock 1000, o₃, k₃⟩ :: tr) = 10 := by
    rw [ticks_map, he']
    rfl
  exact ⟨_, _, k₁, k₃, hr₁, hp', rfl, he', hmem,
    (bounded_waiting hr₁ hp' hC hmem).2.2.2.2 (by rw [ht]; decide)⟩

end Zeos
