import Zeos.Proof.Fork
import Zeos.Proof.Sem

/-!
# The kernel refines the abstract kernel

* `step_outcome`: from a well-formed state, the outcome of every event is a step of
  the abstract kernel.
* `Step.refines`: so is every step, and it leads to a well-formed state.
-/

namespace Zeos

open ForLoop

variable {k k' : Kernel} {a : AState} {e : Event} {o : Out} {u : Word} {b : ℕ}

/-- An update of what an abstract state does not see, tasks left alone. -/
theorem WF.other (hW : WF k a) (h : Same k k') (ht : k'.task = k.task) : WF k' a :=
  hW.same h (by rw [ht])

theorem sysWrite_outcome (hW : WF k a) (fd buffer nbytes : Word) :
    Outcome a (.sysenter (.write fd buffer nbytes) u b) ((sysWrite k fd buffer nbytes).map returning) := by
  refine .map (sysWrite_noStack k fd buffer nbytes) fun v k' h => ⟨a, .noop rfl, ?_⟩
  unfold sysWrite at h
  split at h
  · cases h; exact hW
  split at h
  · cases h; exact hW
  split at h
  · cases h; exact hW
  obtain ⟨s, -, h⟩ := bind_ok.1 h
  cases h
  exact hW.other ⟨fun _ => rfl, fun _ => rfl, fun _ => rfl, rfl, rfl, rfl, rfl, rfl, rfl, .refl _⟩ rfl

theorem sysGetKey_outcome (hW : WF k a) (c : Word) :
    Outcome a (.sysenter (.getKey c) u b) ((sysGetKey k c).map returning) := by
  refine .map (sysGetKey_noStack k c) fun v k' h => ⟨a, .noop rfl, ?_⟩
  unfold sysGetKey at h
  split at h
  · cases h; exact hW
  split at h
  · cases h
    exact hW.other ⟨fun _ => rfl, fun _ => rfl, fun _ => rfl, rfl, rfl, rfl, rfl, rfl, rfl, .refl _⟩ rfl
  · obtain ⟨m, h1, h⟩ := bind_ok.1 h
    cases h
    exact hW.other ⟨fun _ => rfl, fun _ => rfl, fun _ => rfl, rfl, rfl, rfl, rfl, rfl, rfl,
      storeByte_same h1⟩ rfl

theorem sysGetStats_outcome (hW : WF k a) (pid st : Word) :
    Outcome a (.sysenter (.getStats pid st) u b) ((sysGetStats k pid st).map returning) := by
  refine .map (sysGetStats_noStack k pid st) fun v k' h => ⟨a, .noop rfl, ?_⟩
  unfold sysGetStats at h
  split at h
  · cases h; exact hW
  split at h
  · cases h; exact hW
  split at h
  · cases h; exact hW
  · obtain ⟨m, h1, h⟩ := bind_ok.1 h
    cases h
    exact (hW.same (.setStats _) (setStats_state _)).other (.setMm (storeBytes_same h1)) rfl

theorem sysDumpScreen_outcome (hW : WF k a) (address : Word) :
    Outcome a (.sysenter (.dumpScreen address) u b) ((sysDumpScreen k address).map returning) := by
  refine .map (sysDumpScreen_noStack k address) fun v k' h => ⟨a, .noop rfl, ?_⟩
  simp only [sysDumpScreen] at h
  split at h
  · cases h; exact hW
  split at h
  · cases h; exact hW
  · obtain ⟨s, -, h⟩ := bind_ok.1 h
    cases h
    exact hW.other ⟨fun _ => rfl, fun _ => rfl, fun _ => rfl, rfl, rfl, rfl, rfl, rfl, rfl, .refl _⟩ rfl

/-- The entry of a system call: the user context on the kernel stack. -/
theorem enterCall_cases (hW : WF k a) (u : Word) :
    (∃ e, enterCall k u = .error e ∧ ∀ sw, e ≠ .stack sw) ∨
    ∃ k₁, enterCall k u = .ok k₁ ∧ WF k₁ a ∧ (k₁.task k₁.current).userEsp = u ∧
      k₁.links = k.links ∧ k₁.mm = k.mm ∧ k₁.listSem = k.listSem := by
  cases h : k.mm.loadWord k.cr3 (u + 4) with
  | error e =>
    refine .inl ⟨e, by rw [enterCall, h]; rfl, fun sw he => ?_⟩
    exact loadWord_noStack _ _ _ sw (he ▸ h)
  | ok eip =>
    refine .inr ⟨k.setTask k.current { k.task k.current with userEsp := u, userEip := eip },
      by rw [enterCall, h]; rfl, ?_, ?_, rfl, rfl, rfl⟩
    · exact hW.same (.setTask rfl rfl rfl) (by
        by_cases hc : a.current = k.current <;> simp [Kernel.setTask, hc])
    · simp [Kernel.setTask]

theorem systemCall_outcome (hW : WF k a) (hc : a.current ≠ a.idle)
    (hu : (k.task k.current).userEsp = u) (c : Call) :
    Outcome a (.sysenter c u b) (systemCall k b c) := by
  cases c with
  | exit => exact sysExit_outcome hW hc
  | fork => exact sysFork_outcome hW hc
  | write fd buffer nbytes => exact sysWrite_outcome hW fd buffer nbytes
  | gettime => exact .ret (.noop rfl) hW
  | yield => exact sysYield_outcome hW hc
  | getpid => exact .ret (.noop rfl) hW
  | alloc => exact sysAlloc_outcome hW
  | dealloc address => exact sysDealloc_outcome hW address
  | createthread w f p => exact sysCreatethread_outcome hW hc w f p
  | terminatethread => exact sysTerminatethread_outcome hW hc hu
  | dumpScreen address => exact sysDumpScreen_outcome hW address
  | getKey c => exact sysGetKey_outcome hW c
  | semInit i v => exact sysSemInit_outcome hW hc v
  | semWait i => exact sysSemWait_outcome hW hc
  | semSignal i => exact sysSemSignal_outcome hW hc
  | semDestroy i => exact sysSemDestroy_outcome hW hc
  | getStats pid st => exact sysGetStats_outcome hW pid st
  | niSyscall => exact .ret (.noop rfl) hW

/-- **The outcome of every event is a step of the abstract kernel.** -/
theorem step_outcome (hW : WF k a) (hu : e.ofUser = true → a.current ≠ a.idle) :
    Outcome a e (step k e) := by
  cases e with
  | sysenter c u b =>
    rcases enterCall_cases hW u with ⟨e, h, he⟩ | ⟨k₁, h, hW₁, hu₁, -⟩
    · simp only [step, systemCallHandler, h, bind, Except.bind]
      cases e with
      | stack sw => exact absurd rfl (he sw)
      | _ => trivial
    · simp only [step, systemCallHandler, h, bind, Except.bind]
      exact systemCall_outcome hW₁ (hu rfl) hu₁ c
  | clock b => exact clock_outcome hW
  | keyboard c =>
    refine ⟨a, .noop rfl, ?_⟩
    have h1 : WF (userToSystem k) a := hW.same (.updateStats _) (updateStats_state _)
    have h2 : WF { userToSystem k with kbd := keyboardRoutine (userToSystem k).kbd c } a :=
      h1.other ⟨fun _ => rfl, fun _ => rfl, fun _ => rfl, rfl, rfl, rfl, rfl, rfl, rfl, .refl _⟩ rfl
    exact h2.same (.updateStats _) (updateStats_state _)
  | store addr b =>
    simp only [step]
    cases h : k.mm.userStore k.cr3 addr b with
    | error e =>
      cases e with
      | stack sw => exact absurd h (userStore_noStack _ _ _ _ sw)
      | _ => trivial
    | ok m => exact ⟨a, .noop rfl, hW.other (.setMm (userStore_same h)) rfl⟩

/-- **Every step refines an abstract one.** -/
theorem Step.refines (hW : WF k a) (hs : Step k e o k') :
    ∃ a', AStep a e o.switch a' ∧ WF k' a' := by
  have h := step_outcome (e := e) hW fun hu => by rw [← hW.current, ← hW.idle]; exact hs.1 hu
  rw [hs.2] at h
  exact h

/-- A call of the current task, from where the user context is saved. -/
theorem Step.called {c : Call} (hW : WF k a) (hs : Step k (.sysenter c u b) o k') :
    ∃ k₁ w, k₁ = k.setTask k.current { k.task k.current with userEsp := u, userEip := w } ∧ WF k₁ a ∧
      systemCall k₁ b c = .ok (o, k') := by
  obtain ⟨k₁, h1, h2⟩ := bind_ok.1 hs.2
  rcases enterCall_cases hW u with ⟨e, he, -⟩ | ⟨k₂, he, hW₁, -⟩
  · cases h1.symm.trans he
  cases h1.symm.trans he
  unfold enterCall at h1
  obtain ⟨w, -, h1⟩ := bind_ok.1 h1
  cases h1
  exact ⟨_, w, rfl, hW₁, h2⟩

theorem returning_ok {x : Except Fault (Word × Kernel)} :
    x.map returning = .ok (o, k') ↔ ∃ v, x = .ok (v, k') ∧ o = { ret := some v } := by
  constructor
  · intro h
    cases x with
    | error e => cases h
    | ok r =>
      cases h
      exact ⟨_, rfl, rfl⟩
  · rintro ⟨v, rfl, rfl⟩
    rfl

end Zeos
