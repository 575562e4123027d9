import Zeos.Proof.Semaphores
import Zeos.Proof.Switches

/-!
# Idle

`schedule` would put idle on `readyqueue` like any other task. It never comes to that:
idle gets the CPU when nobody else is there to run, and nothing that happens then makes
a task ready.

* `idle_last`: **idle is on no queue, gets the CPU when `readyqueue` is empty only, and
  keeps it for good.**
-/

namespace Zeos

open Execution

variable {k k' : Kernel} {a a' : AState} {e : Event} {M : Machine} {tr : KTrace}

/-- With no list head on `readyqueue`, idle is next when it is empty. -/
theorem next_idle (hr : ∀ x ∈ a.queue .readyqueue, ∃ t, x = .task t ∧ t ≠ a.idle) (h : a.next = a.idle) :
    a.queue .readyqueue = [] := by
  cases hq : a.queue .readyqueue with
  | nil => rfl
  | cons x xs =>
    obtain ⟨t, rfl, ht⟩ := hr x (by rw [hq]; exact List.mem_cons_self)
    simp only [AState.next, hq] at h
    exact absurd h ht

/-- The nodes of `readyqueue` while no list head is on it. -/
theorem WF.ready_task (hW : WF k a) (hw : ∀ m, ¬ a.Wild m) {x : Node} (hx : x ∈ a.queue .readyqueue) :
    ∃ t, x = .task t ∧ t ≠ a.idle := by
  rcases hW.queues.ready_node x hx with ⟨t, rfl⟩ | ⟨m, -, rfl⟩
  · exact ⟨t, rfl, fun h => hW.queues.not_off Heads.ready hx (.inr h)⟩
  · exact absurd hx (hw m)

/-- **A step that gives the CPU to idle.** -/
theorem AStep.to_idle {sw : Switch} (hW : WF k a) (hw : ∀ m, ¬ a.Wild m) (hc : a.current ≠ a.idle)
    (h : AStep a e (some sw) a') (hi : sw.incoming = a.idle) :
    a.queue .readyqueue = [] ∧ a'.queue .readyqueue = [] := by
  have hready := fun x => hW.ready_task hw (x := x)
  -- the task that leaves is not idle, so that a queue it is put on is not one of idle's
  have hpush : (a.push .readyqueue a.current).next ≠ a.idle := by
    intro h
    have hq := next_idle (a := a.push .readyqueue a.current) (fun x hx => ?_) h
    · simp [AState.push, AState.put] at hq
    · simp only [AState.push, AState.put, Function.update_self, List.mem_append, List.mem_singleton] at hx
      rcases hx with hx | rfl
      · exact hready x hx
      · exact ⟨_, rfl, hc⟩
  have hkeep : ∀ (a₁ : AState) (b : ℕ), a₁.idle = a.idle → a₁.queue .readyqueue = a.queue .readyqueue →
      a₁.next = a.idle →
      a.queue .readyqueue = [] ∧ (a₁.dispatch b).queue .readyqueue = [] := by
    intro a₁ b h1 h2 h3
    have hq := next_idle (a := a₁) (fun x hx => by rw [h1]; exact hready x (h2 ▸ hx)) (h3.trans h1.symm)
    refine ⟨h2 ▸ hq, ?_⟩
    simp [AState.dispatch, AState.put, hq]
  generalize hsw : some sw = x at h
  cases h with
  | clockSwitch => cases hsw; exact absurd hi hpush
  | yield => cases hsw; exact absurd hi hpush
  | exit => cases hsw; exact hkeep _ _ rfl (by simp [AState.push, AState.put, AState.release]) hi
  | terminate => cases hsw; exact hkeep _ _ rfl (by simp [AState.push, AState.put, AState.unmap]) hi
  | waitBlock =>
    cases hsw
    exact hkeep _ _ rfl (by simp [AState.push, AState.put, AState.count, AState.setSem]) hi
  | @waitWild u b i n ys zs _ _ hq =>
    have hn : a.Wild n := by
      rw [AState.Wild, hq]
      simp
    exact absurd hn (hw n)
  | _ => cases hsw

/-- While idle runs nothing changes. -/
theorem AStep.idle_stays {sw : Option Switch} (hi : a.current = a.idle) (hu : e.ofUser = false)
    (h : AStep a e sw a') : a' = a := by
  cases h with
  | noop => rfl
  | clock => rfl
  | clockSwitch hc _ => exact absurd hi hc
  | _ => cases hu

/-- **Idle runs only when nothing else can**, and then for good. -/
theorem idle_last (hr : KRun M tr k) (hC : ∀ t ∈ tr, CountInRange t.before t.event) :
    Node.task k.idleTask ∉ members k .readyqueue ∧
    (∀ e o k' sw, Step k e o k' → o.switch = some sw → sw.incoming = k.idleTask →
      members k .readyqueue = [] ∧ members k' .readyqueue = []) ∧
    (k.current = k.idleTask → ∀ tr' k', Path (kernelSystem M) k tr' k' →
      k'.current = k'.idleTask ∧ k'.idleTask = k.idleTask ∧ members k' .readyqueue = []) := by
  obtain ⟨a, hW, hw, -⟩ := run_inRange hr hC
  refine ⟨?_, fun e o k' sw hs hsw hi => ?_, fun hi tr' k' hp => ?_⟩
  · rw [hW.members_ready, hW.idle]
    exact fun h => hW.queues.not_off Heads.ready h (.inr rfl)
  · obtain ⟨a', h, hW'⟩ := hs.refines hW
    obtain ⟨hc, -⟩ := switchOf_step hW hs.1 (show switchOf (step k e) = some sw by rw [hs.2]; exact hsw)
    rw [hsw] at h
    rw [hW.members_ready, hW'.members_ready]
    exact h.to_idle hW hw hc (hi.trans hW.idle)
  · have hi : a.current = a.idle := hW.current.symm.trans (hi.trans hW.idle)
    have hW' : WF k' a := by
      refine hp.induct (P := fun _ k' => WF k' a) hW ?_
      intro tr k₁ e o k₂ _ hW₁ hs
      have hu : e.ofUser = false := by
        rw [← Bool.not_eq_true]
        intro hu
        exact hs.1 hu (hW₁.current.trans (hi.trans hW₁.idle.symm))
      obtain ⟨a₂, h, hW₂⟩ := hs.refines hW₁
      exact h.idle_stays hi hu ▸ hW₂
    refine ⟨hW'.current.trans (hi.trans hW'.idle.symm), hW'.idle.trans hW.idle.symm, ?_⟩
    rw [hW'.members_ready]
    exact hW'.alone hi

/-- The first task ends, and a key is pressed. -/
theorem idle_last_exit : ∃ k₀ t k tr k', KRun aMachine [] k₀ ∧ KRun aMachine [t] k ∧
    t.event = .sysenter .exit someStack 1000 ∧ t.before = k₀ ∧ members k₀ .readyqueue = [] ∧
    k.current = k.idleTask ∧ Path (kernelSystem aMachine) k tr k' ∧ tr.length = 1 ∧
    k'.current = k'.idleTask := by
  obtain ⟨k₀, o, k, hr₀, hW₀, hs, hW⟩ := boot_exit_step aMachine 1000
  have hr := hr₀.step hs
  have hC : ∀ t ∈ [(⟨k₀, .sysenter .exit someStack 1000, o, k⟩ : Transition Kernel Event Out)],
      CountInRange t.before t.event := by
    intro t ht
    rw [List.mem_singleton.1 ht]
    trivial
  have hi : k.current = k.idleTask := by
    rw [hW.current, hW.idle]
    rfl
  have hkey : Step k (.keyboard 0) {} (keyboardHandler k 0) := ⟨fun h => (by cases h), rfl⟩
  have hp : Path (kernelSystem aMachine) k _ (keyboardHandler k 0) := .step .refl hkey
  obtain ⟨-, hto, -⟩ := idle_last hr₀ (by simp)
  obtain ⟨-, -, hstay⟩ := idle_last hr hC
  obtain ⟨a', h, -⟩ := hs.refines hW₀
  have hsw : ∃ sw, o.switch = some sw ∧ sw.incoming = 0 := by
    generalize ho : o.switch = x at h
    cases h with
    | noop he => cases he
    | exit => exact ⟨_, rfl, rfl⟩
  obtain ⟨sw, ho, h0⟩ := hsw
  exact ⟨k₀, _, k, _, _, hr₀, hr, rfl, rfl, (hto _ _ _ _ hs ho (h0.trans hW₀.idle.symm)).1, hi, hp, rfl,
    (hstay hi _ _ hp).1⟩

end Zeos
