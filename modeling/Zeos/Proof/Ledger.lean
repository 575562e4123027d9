import Zeos.Proof.Progress

/-!
# The accounts of a semaphore

`ledger n tr` is what an observer of the run `tr` writes down of semaphore `n` since its
last initialisation: the initial value, the signals, the waits in the order of the calls,
and the tasks to which a wait was granted.

* `AStep.frame`: steps that make no call on `n` leave its counter and its list alone.
* `run_tally`: **while the counter stays in range, it and the list of `n` are what the
  ledger says** (`AState.Tally`). It does while the initial value and the signals together
  are no more than the largest counter.
-/

namespace Zeos

open Execution

/-- The largest counter. -/
@[simp] abbrev maxCount : ℕ := 2 ^ 31 - 1

/-! ### Ledgers -/

/-- What has happened to a semaphore since it was initialised. -/
structure Ledger where
  value : ℕ
  signals : ℕ := 0
  /-- The callers of `sys_sem_wait`, in the order of the calls. -/
  waits : List Slot := []
  /-- The callers that were let through, in that order. -/
  granted : List Slot := []
  /-- The callers let through that have not signalled since. -/
  inside : List Slot := []
  /-- Each signal came from a caller let through before. -/
  paired : Bool := true
  /-- The initial value was no negative number, and no signal found the counter at its largest. -/
  inRange : Bool

namespace Ledger

/-- How many waits there are to grant so far. -/
def total (L : Ledger) : ℕ := L.value + L.signals

def grant (L : Ledger) (ts : List Slot) : Ledger :=
  { L with granted := L.granted ++ ts, inside := L.inside ++ ts }

def wait (L : Ledger) (s : Slot) (passed : Bool) : Ledger :=
  { L with waits := L.waits ++ [s] }.grant (if passed then [s] else [])

def signal (L : Ledger) (s : Slot) (woken : List Slot) (below : Bool) : Ledger :=
  { L with
    signals := L.signals + 1
    inside := L.inside.erase s
    paired := L.paired && L.inside.contains s
    inRange := L.inRange && below }.grant woken

theorem signal_total (L : Ledger) (s : Slot) (ts : List Slot) (r : Bool) :
    (L.signal s ts r).total = L.total + 1 := by
  simp only [signal, grant, total]
  omega

/-- The initial value and the signals together are no more than the largest counter. -/
def Fits (L : Ledger) : Prop := L.total ≤ maxCount

instance (L : Ledger) : Decidable L.Fits := inferInstanceAs (Decidable (_ ≤ _))

end Ledger

/-- The tasks that a transition takes off the list of `n`. -/
def woken (n : Sem) (t : Transition Kernel Event Out) : List Slot :=
  (members t.before (.blocked n)).filterMap fun
    | .task s => if Node.task s ∈ members t.after (.blocked n) then none else some s
    | _ => none

/-- The entry for one transition. -/
def ledgerStep (n : Sem) (t : Transition Kernel Event Out) (L : Option Ledger) : Option Ledger :=
  match t.event with
  | .sysenter (.semInit i v) _ _ =>
    if validSem t.before.listSem i true = some n then some { value := v.toNat, inRange := v.toNat ≤ maxCount } else L
  | .sysenter (.semWait i) _ _ =>
    if validSem t.before.listSem i false = some n then
      L.map fun L => L.wait t.before.current (t.out.switch = none)
    else L
  | .sysenter (.semSignal i) _ _ =>
    if validSem t.before.listSem i false = some n then
      L.map fun L => L.signal t.before.current (woken n t) ((t.before.listSem n).counter.toInt < maxCount)
    else L
  | .sysenter (.semDestroy i) _ _ =>
    if validSem t.before.listSem i false = some n then none else L
  | _ => L

/-- The ledger of semaphore `n` after the run `tr`, if `n` is initialised. -/
def ledger (n : Sem) (tr : KTrace) : Option Ledger := tr.foldr (ledgerStep n) none

variable {k k' : Kernel} {a a' : AState} {e : Event} {M : Machine} {tr : KTrace} {o : Out} {n m : Sem}
  {s : Slot} {b : ℕ} {sw : Option Switch} {L : Ledger}

theorem ledger_cons {t : Transition Kernel Event Out} : ledger n (t :: tr) = ledgerStep n t (ledger n tr) := rfl

theorem ledgerStep_frame {t : Transition Kernel Event Out} {L : Option Ledger}
    (h : ¬ t.event.On t.before.listSem n) : ledgerStep n t L = L := by
  unfold Event.On at h
  unfold ledgerStep
  split <;> simp_all

/-! ### Steps and semaphores -/

theorem dispatch_wild (h : ¬ a.Wild n) : ¬ (a.dispatch b).Wild n := by
  intro hw
  apply h
  have : Node.blocked n ∈ (a.queue .readyqueue).tail := by
    simpa [AState.Wild, AState.dispatch, AState.put] using hw
  exact List.mem_of_mem_tail this

theorem push_wild {hd : Node} : (a.push hd s).Wild n ↔ a.Wild n := by
  by_cases h : hd = .readyqueue
  · simp [AState.Wild, AState.push, AState.put, h]
  · simp [AState.Wild, AState.push, AState.put, Ne.symm h]

/-- What a step may do to a semaphore that it makes no call on. -/
structure Frame (n : Sem) (a a' : AState) : Prop where
  sem : a'.sem n = a.sem n
  queue : a'.queue (.blocked n) = a.queue (.blocked n)
  wild : ¬ a.Wild n → ¬ a'.Wild n

theorem Frame.trans {a₁ : AState} (h : Frame n a a₁) (h' : Frame n a₁ a') : Frame n a a' :=
  ⟨h'.sem.trans h.sem, h'.queue.trans h.queue, fun hw => h'.wild (h.wild hw)⟩

theorem Frame.dispatch (n : Sem) (a : AState) (b : ℕ) : Frame n a (a.dispatch b) :=
  ⟨rfl, by simp [AState.dispatch, AState.put], dispatch_wild⟩

theorem Frame.push {hd : Node} (h : hd ≠ .blocked n) : Frame n a (a.push hd s) :=
  ⟨rfl, by simp [AState.push, AState.put, Ne.symm h], fun hw => mt push_wild.1 hw⟩

theorem Frame.put_ready {xs : List Node} (h : Node.blocked n ∈ xs → a.Wild n) :
    Frame n a (a.put .readyqueue xs) :=
  ⟨rfl, by simp [AState.put], fun hw hm => hw (h (by simpa [AState.Wild, AState.put] using hm))⟩

theorem Frame.put_free (xs : List Node) : Frame n a (a.put .freequeue xs) :=
  ⟨rfl, by simp [AState.put], fun hw => by simpa [AState.Wild, AState.put] using hw⟩

theorem Frame.put_blocked (h : m ≠ n) {xs : List Node} : Frame n a (a.put (.blocked m) xs) :=
  ⟨rfl, by simp [AState.put, Ne.symm h], fun hw => by simpa [AState.Wild, AState.put] using hw⟩

theorem Frame.count (h : m ≠ n) (d : Word) : Frame n a (a.count m d) :=
  ⟨by simp [AState.count, AState.setSem, Ne.symm h], rfl, id⟩

theorem Frame.alloc (h : a.Alloc a') : Frame n a a' := by
  cases h <;> exact ⟨rfl, rfl, id⟩

theorem Frame.spawn (c : Slot) (rest : List Node) (pid : Word) (d : Slot) (esp : StackPtr) :
    Frame n a (a.spawn c rest pid d esp) :=
  (Frame.put_free rest).trans ((Frame.push (s := c) (show Node.readyqueue ≠ _ by simp)).trans ⟨rfl, rfl, id⟩)

/-- **Steps that make no call on `n`.** -/
theorem AStep.frame (hW : WF k a) (h : AStep a e sw a') (hn : ¬ e.On a.sem n) : Frame n a a' := by
  have hne : ∀ {i m v}, validSem a.sem i v = some m → ¬ validSem a.sem i v = some n → m ≠ n := by
    intro i m v h1 h2 h
    exact h2 (h ▸ h1)
  have hleave : ∀ {a : AState} {b}, Frame n a (a.leave b) := (Frame.push (by simp)).trans (.dispatch _ _ _)
  -- what a step does to other queues and counters is no matter to semaphore `n`
  cases h with
  | clockSwitch _ _ => exact (Frame.push (by simp)).trans (.dispatch _ _ _)
  | yield => exact (Frame.push (by simp)).trans (.dispatch _ _ _)
  | @forkFail _ _ c rest => exact (Frame.put_free (rest ++ [.task c])).trans ⟨rfl, rfl, id⟩
  | @forkOk u b c rest fs =>
    exact (Frame.spawn c rest (a.lastPid + 1) c (some (c, b - 1))).trans ⟨rfl, rfl, id⟩
  | exit =>
    have hrel : Frame n a { a.release with pid := Function.update a.pid a.current (-1) } := ⟨rfl, rfl, id⟩
    exact hrel.trans hleave
  | alloc hA => exact .alloc hA
  | thread _ hA => exact (Frame.alloc hA).trans (.spawn _ _ _ _ _)
  | @terminate u b hm =>
    have hun : Frame n a (a.unmap (u.toNat / pageSize)) := ⟨rfl, rfl, id⟩
    exact hun.trans hleave
  | @semInit _ _ i v m hv =>
    have hm := hne hv hn
    have hsem : Frame n a (a.setSem m ⟨true, v⟩) := ⟨by simp [AState.setSem, Ne.symm hm], rfl, id⟩
    exact hsem.trans (.put_blocked hm)
  | waitPass hv => exact .count (hne hv hn) _
  | waitBlock hv =>
    have hm := hne hv hn
    exact (Frame.count hm _).trans ((Frame.push (by simpa using hm)).trans (.dispatch _ _ _))
  | @waitWild _ _ i m ys zs hv _ hq =>
    -- the caller goes into `readyqueue`: the heads there are the same
    have hxs : Node.blocked n ∈ ys ++ .task a.current :: .blocked m :: zs → (a.count m (-1)).Wild n := by
      intro hx
      show Node.blocked n ∈ a.queue .readyqueue
      rw [hq]
      simpa using hx
    exact (Frame.count (hne hv hn) _).trans ((Frame.put_ready hxs).trans (.dispatch _ _ _))
  | signalPass hv => exact .count (hne hv hn) _
  | signalWake hv =>
    have hm := hne hv hn
    exact (Frame.count hm _).trans ((Frame.put_blocked hm).trans (Frame.push (by simp)))
  -- the head of another semaphore may come to `readyqueue`, that of `n` does not
  | @signalSplice _ _ i m hv =>
    have hm := hne hv hn
    have hxs : Node.blocked n ∈ a.queue .readyqueue ++ [.blocked m] → (a.count m 1).Wild n := by
      intro hx
      rcases List.mem_append.1 hx with hx | hx
      · exact hx
      · exact absurd (by simpa using hx) (Ne.symm hm)
    exact (Frame.count hm _).trans (Frame.put_ready hxs)
  | @signalWild _ _ i m xs hv _ _ hp =>
    exact (Frame.count (hne hv hn) _).trans (Frame.put_ready (a := a.count m 1) hp.mem_iff.1)
  | @destroy _ _ i m hv hw =>
    have hm := hne hv hn
    have hxs : Node.blocked n ∈ a.queue .readyqueue ++ a.queue (.blocked m) → a.Wild n := by
      intro hx
      rcases List.mem_append.1 hx with hx | hx
      · exact hx
      · obtain ⟨s, h⟩ := hW.queues.blocked_task m ⟨validSem_init hv, hw⟩ _ hx
        cases h
    have hsem : ∀ (a : AState) sm, Frame n a (a.setSem m sm) := fun a sm =>
      ⟨by simp [AState.setSem, Ne.symm hm], rfl, id⟩
    exact (Frame.put_ready hxs).trans ((Frame.put_blocked hm).trans (hsem _ _))
  | _ => exact ⟨rfl, rfl, id⟩

/-! ### Counters -/

theorem toInt_succ {c : Word} (h : c.toInt < maxCount) : (c + 1).toInt = c.toInt + 1 := by
  have h1 := BitVec.le_toInt c
  simp only [maxCount] at h
  rw [BitVec.toInt_add, show (1 : Word).toInt = 1 from rfl]
  apply Int.bmod_eq_of_le <;> omega

theorem toInt_pred {c : Word} (h : -2 ^ 31 < c.toInt) : (c - 1).toInt = c.toInt - 1 := by
  have h1 := BitVec.toInt_lt (x := c)
  rw [BitVec.toInt_sub, show (1 : Word).toInt = 1 from rfl]
  apply Int.bmod_eq_of_le <;> omega

theorem toInt_small {c : Word} (h : c.toNat ≤ maxCount) : c.toInt = c.toNat := by
  simp only [maxCount] at h
  rw [BitVec.toInt_eq_toNat_cond, if_pos (by omega)]

@[simp] theorem count_counter (d : Word) : ((a.count n d).sem n).counter = (a.sem n).counter + d := by
  simp [AState.count, AState.setSem]

/-! ### Tallies -/

/-- The counter and the list of `n` are what the ledger says. -/
structure AState.Tally (a : AState) (n : Sem) (L : Ledger) : Prop where
  head : ¬ a.Wild n
  counter : (a.sem n).counter.toInt = L.total - L.waits.length
  blocked : a.queue (.blocked n) = (L.waits.drop L.total).map Node.task
  granted : L.granted = L.waits.take L.total
  inside : L.paired = true → L.inside.length + L.signals = L.granted.length

namespace AState.Tally

theorem frame (h : a.Tally n L) (hF : Frame n a a') : a'.Tally n L :=
  { h with
    head := hF.wild h.head
    counter := by rw [hF.sem]; exact h.counter
    blocked := hF.queue.trans h.blocked }

theorem init (hw : ¬ a.Wild n) {v : Word} {r : Bool} (hv : v.toNat ≤ maxCount) :
    (a.semInit n v).Tally n { value := v.toNat, inRange := r } := by
  refine ⟨?_, ?_, ?_, ?_, fun _ => rfl⟩
  · simpa [AState.Wild, AState.semInit, AState.put, AState.setSem] using hw
  · simp [AState.semInit, AState.put, AState.setSem, Ledger.total, toInt_small hv]
  · simp [AState.semInit, AState.put]
  · simp

variable (h : a.Tally n L)

include h

theorem length_blocked : (a.queue (.blocked n)).length = L.waits.length - L.total := by
  rw [h.blocked, List.length_map, List.length_drop]

theorem counter_pred (hl : (a.queue (.blocked n)).length ≤ numNodes) :
    ((a.sem n).counter - 1).toInt = L.total - L.waits.length - 1 := by
  have h1 := h.length_blocked
  have h2 := h.counter
  simp only [numNodes, nrTasks, maxSem] at hl
  rw [toInt_pred (by omega), h2]

theorem counter_succ (hm : (a.sem n).counter.toInt < maxCount) :
    ((a.sem n).counter + 1).toInt = L.total - L.waits.length + 1 := by
  rw [toInt_succ hm, h.counter]

theorem waitPass (hl : (a.queue (.blocked n)).length ≤ numNodes)
    (hp : 0 ≤ ((a.sem n).counter - 1).toInt) : (a.count n (-1)).Tally n (L.wait s true) := by
  have hc := h.counter_pred hl
  have hlt : L.waits.length < L.total := by omega
  refine ⟨h.head, ?_, ?_, ?_, fun hpair => ?_⟩
  · rw [count_counter, ← BitVec.sub_eq_add_neg, hc]
    simp [Ledger.wait, Ledger.grant, Ledger.total]
    omega
  · have hq : (a.count n (-1)).queue = a.queue := rfl
    rw [hq, h.blocked]
    simp only [Ledger.wait, Ledger.grant, Ledger.total] at hlt ⊢
    rw [List.drop_eq_nil_of_le (by omega), List.drop_eq_nil_of_le (by simp; omega)]
  · have hg := h.granted
    simp only [Ledger.wait, Ledger.grant, Ledger.total] at hlt hg ⊢
    rw [List.take_of_length_le (by simp; omega), hg, List.take_of_length_le (by omega)]
    rfl
  · have := h.inside hpair
    simp only [Ledger.wait, Ledger.grant, List.length_append] at this ⊢
    omega

theorem waitBlock (hl : (a.queue (.blocked n)).length ≤ numNodes)
    (hp : ((a.sem n).counter - 1).toInt < 0) :
    ((a.count n (-1)).push (.blocked n) s).Tally n (L.wait s false) := by
  have hc := h.counter_pred hl
  have hge : L.total ≤ L.waits.length := by omega
  refine ⟨mt push_wild.1 h.head, ?_, ?_, ?_, fun hpair => ?_⟩
  · have hs : ((a.count n (-1)).push (.blocked n) s).sem = (a.count n (-1)).sem := rfl
    rw [hs, count_counter, ← BitVec.sub_eq_add_neg, hc]
    simp [Ledger.wait, Ledger.grant, Ledger.total]
    omega
  · have hq : (a.count n (-1)).queue (.blocked n) = a.queue (.blocked n) := rfl
    simp only [AState.push, AState.put, Function.update_self, hq, h.blocked]
    simp only [Ledger.wait, Ledger.grant, Ledger.total] at hge ⊢
    rw [List.drop_append_of_le_length hge, List.map_append]
    rfl
  · have hg := h.granted
    simp only [Ledger.wait, Ledger.grant, Ledger.total] at hge hg ⊢
    rw [List.take_append_of_le_length hge, hg]
    simp
  · have := h.inside hpair
    simp only [Ledger.wait, Ledger.grant, List.length_append] at this ⊢
    omega

/-- The account of the critical section at a signal. -/
theorem signal_inside {ts : List Slot} {r : Bool} (hp : (L.signal s ts r).paired = true) :
    (L.signal s ts r).inside.length + (L.signal s ts r).signals = (L.signal s ts r).granted.length := by
  simp only [Ledger.signal, Ledger.grant, Bool.and_eq_true, List.contains_iff_mem] at hp
  have h1 := h.inside hp.1
  have h2 := List.length_erase_of_mem hp.2
  have h3 := List.length_pos_of_mem hp.2
  simp only [Ledger.signal, Ledger.grant, List.length_append]
  omega

theorem signalPass {r : Bool} (hm : (a.sem n).counter.toInt < maxCount) (hp : 0 < ((a.sem n).counter + 1).toInt) :
    (a.count n 1).Tally n (L.signal s [] r) ∧ a.queue (.blocked n) = [] := by
  have hc := h.counter_succ hm
  have hle : L.waits.length ≤ L.total := by omega
  have hnil : a.queue (.blocked n) = [] := by rw [h.blocked, List.drop_eq_nil_of_le hle]; rfl
  refine ⟨⟨h.head, ?_, ?_, ?_, h.signal_inside⟩, hnil⟩
  · rw [count_counter, hc]
    simp [Ledger.signal, Ledger.grant, Ledger.total]
    omega
  · have hq : (a.count n 1).queue = a.queue := rfl
    rw [hq, hnil]
    simp only [Ledger.signal, Ledger.grant, Ledger.total] at hle ⊢
    rw [List.drop_eq_nil_of_le (by omega)]
    rfl
  · have hg := h.granted
    simp only [Ledger.signal, Ledger.grant, Ledger.total, List.append_nil] at hle hg ⊢
    rw [hg, List.take_of_length_le (by omega), List.take_of_length_le (by omega)]

/-- The first that waits is the next in the order of the calls. -/
theorem signalWake {r : Bool} (hm : (a.sem n).counter.toInt < maxCount) (hp : ((a.sem n).counter + 1).toInt ≤ 0)
    {t : Slot} {xs : List Node} (hq : a.queue (.blocked n) = .task t :: xs) :
    (((a.count n 1).put (.blocked n) xs).push .readyqueue t).Tally n (L.signal s [t] r) := by
  have hc := h.counter_succ hm
  have hlt : L.total < L.waits.length := by omega
  -- the waits from the first waiting one on
  have hdrop : L.waits.drop L.total = L.waits[L.total] :: L.waits.drop (L.total + 1) :=
    List.drop_eq_getElem_cons hlt
  have hb := h.blocked
  rw [hq, hdrop, List.map_cons, List.cons.injEq, Node.task.injEq] at hb
  refine ⟨?_, ?_, ?_, ?_, h.signal_inside⟩
  · rw [push_wild]
    simpa [AState.Wild, AState.put, AState.count, AState.setSem] using h.head
  · have hs : (((a.count n 1).put (.blocked n) xs).push .readyqueue t).sem = (a.count n 1).sem := rfl
    rw [hs, count_counter, hc]
    simp [Ledger.signal, Ledger.grant, Ledger.total]
    omega
  · have hq' : (((a.count n 1).put (.blocked n) xs).push .readyqueue t).queue (.blocked n) = xs := by
      simp [AState.push, AState.put]
    rw [hq', hb.2]
    rfl
  · have hg := h.granted
    rw [L.signal_total]
    simp only [Ledger.signal, Ledger.grant]
    rw [hg, hb.1, List.take_succ_eq_append_getElem hlt]

/-- A signal that wakes finds someone. -/
theorem wake_ne_nil (hm : (a.sem n).counter.toInt < maxCount) (hp : ((a.sem n).counter + 1).toInt ≤ 0) :
    a.queue (.blocked n) ≠ [] := by
  have hc := h.counter_succ hm
  have hl := h.length_blocked
  intro hq
  rw [hq, List.length_nil] at hl
  omega

end AState.Tally

/-! ### Along a run -/

/-- The ledger `Lo` is there while `n` is initialised, and right while the counter stays in range. -/
structure Accounted (a : AState) (n : Sem) (Lo : Option Ledger) : Prop where
  init : a.IsInit n ↔ Lo ≠ none
  tally : ∀ L, Lo = some L → L.inRange = true → a.Tally n L
  fits : ∀ L, Lo = some L → L.Fits → L.inRange = true

theorem WF.members_blocked (hW : WF k a) (hi : a.IsInit n) (hw : ¬ a.Wild n) :
    members k (.blocked n) = a.queue (.blocked n) := hW.queues.members_eq (heads_blocked hi hw)

theorem WF.blocked_length (hW : WF k a) (hi : a.IsInit n) (hw : ¬ a.Wild n) :
    (a.queue (.blocked n)).length ≤ numNodes :=
  (List.nodup_cons.1 (hW.queues.nodup (heads_blocked hi hw))).2.length_le_card

/-- A semaphore that is not initialised has no head on `readyqueue`. -/
theorem WF.not_wild (hW : WF k a) (hi : ¬ a.IsInit n) : ¬ a.Wild n := by
  intro hw
  rcases hW.queues.ready_node _ hw with ⟨s, h⟩ | ⟨m, hm, h⟩
  · cases h
  · cases h; exact hi hm

theorem woken_nil (h : members k (.blocked n) = []) : woken n ⟨k, e, o, k'⟩ = [] := by
  unfold woken
  rw [h]
  rfl

theorem woken_first {xs : List Node} (h : members k (.blocked n) = .task s :: xs)
    (h' : members k' (.blocked n) = xs) (hn : (Node.task s :: xs).Nodup) : woken n ⟨k, e, o, k'⟩ = [s] := by
  unfold woken
  simp only [h, h', List.filterMap_cons, if_neg (List.nodup_cons.1 hn).1]
  apply congrArg (s :: ·)
  rw [List.filterMap_eq_nil_iff]
  intro x hx
  cases x with
  | task t => exact if_pos hx
  | _ => rfl

theorem accounted_step (hW : WF k a) (hW' : WF k' a') (h : AStep a e o.switch a') {Lo : Option Ledger}
    (hA : Accounted a n Lo) : Accounted a' n (ledgerStep n ⟨k, e, o, k'⟩ Lo) := by
  by_cases hon : e.On a.sem n
  swap
  · have hF := h.frame hW hon
    have hi : a'.IsInit n ↔ a.IsInit n := by unfold AState.IsInit; rw [hF.sem]
    rw [ledgerStep_frame (by rw [hW.sem]; exact hon)]
    exact ⟨hi.trans hA.init, fun L hL hf => (hA.tally L hL hf).frame hF, hA.fits⟩
  generalize hsw : o.switch = sw at h
  have hI : ∀ {i}, validSem a.sem i false = some n → a.IsInit n ∧ ∃ L, Lo = some L := fun hv => by
    have hi := validSem_init hv
    exact ⟨hi, Option.ne_none_iff_exists'.1 (hA.init.1 hi)⟩
  have hcount : a.IsInit n → ∀ d, (a.count n d).IsInit n := fun hi d => by rw [count_isInit]; exact hi
  -- a signal that leaves the counter in range, and one that the sum of signals allows
  have hrange : ∀ {L : Ledger} {c : Slot} {ts}, (L.signal c ts ((a.sem n).counter.toInt < maxCount)).inRange = true →
      L.inRange = true ∧ (a.sem n).counter.toInt < maxCount := fun h => by
    simpa [Ledger.signal, Ledger.grant] using h
  have hfits : ∀ (L : Ledger) {c : Slot} {ts}, Lo = some L →
      (L.signal c ts ((a.sem n).counter.toInt < maxCount)).Fits →
      (L.signal c ts ((a.sem n).counter.toInt < maxCount)).inRange = true := by
    intro L c ts hL hf
    rw [Ledger.Fits, L.signal_total] at hf
    have hr := hA.fits L hL (Nat.le_of_succ_le hf)
    have hc := (hA.tally L hL hr).counter
    have hm : (a.sem n).counter.toInt < maxCount := by omega
    simp only [Ledger.signal, Ledger.grant, hr, Bool.true_and]
    exact decide_eq_true hm
  -- a call on `n`: which of them, and how it went
  unfold ledgerStep
  cases h.called hon with
  | @init u b i v hv =>
    have hi : (a.semInit n v).IsInit n := by simp [AState.IsInit, AState.semInit, AState.setSem, AState.put]
    simp only [hW.sem, hv, if_true]
    refine ⟨iff_of_true hi (by simp), fun L hL hr => ?_, fun L hL hf => ?_⟩
    · cases hL
      exact .init (hW.not_wild (validSem_some hv)) (of_decide_eq_true hr)
    · cases hL
      exact decide_eq_true (by simpa [Ledger.Fits, Ledger.total] using hf)
  -- a grant without a wait; the length of the list is as it was
  | @waitPass u b i hv hp =>
    obtain ⟨hi, L, rfl⟩ := hI hv
    simp only [hW.sem, hW.current, hv, if_true, Option.map_some, hsw, decide_true]
    refine ⟨iff_of_true (hcount hi _) (by simp), fun L' hL hr => ?_, fun L' hL hf => ?_⟩
    · cases hL
      have hT := hA.tally L rfl hr
      exact hT.waitPass (hW.blocked_length hi hT.head) hp
    · cases hL
      exact hA.fits L rfl hf
  -- one more waiter, and the counter one lower
  | @waitBlock u b i hv hp =>
    obtain ⟨hi, L, rfl⟩ := hI hv
    simp only [hW.sem, hW.current, hv, if_true, Option.map_some, hsw, reduceCtorEq, decide_false]
    refine ⟨iff_of_true (hcount hi (-1)) (by simp), fun L' hL hr => ?_, fun L' hL hf => ?_⟩
    · cases hL
      have hT := hA.tally L rfl hr
      exact (hT.waitBlock (hW.blocked_length hi hT.head) hp).frame (.dispatch _ _ _)
    · cases hL
      exact hA.fits L rfl hf
  -- these accounts are of semaphores whose head is in its place
  | @waitWild u b i ys zs hv _ hq =>
    have hw : a.Wild n := by
      rw [AState.Wild, hq]
      simp
    obtain ⟨hi, L, rfl⟩ := hI hv
    simp only [hW.sem, hv, if_true, Option.map_some]
    refine ⟨iff_of_true (hcount hi (-1)) (by simp), fun L' hL hr => ?_, fun L' hL hf => ?_⟩
    · cases hL
      exact absurd hw (hA.tally L rfl hr).head
    · cases hL
      exact hA.fits L rfl hf
  -- nobody waits: the signal goes to the counter
  | @signalPass u b i hv hp =>
    obtain ⟨hi, L, rfl⟩ := hI hv
    simp only [hW.sem, hW.current, hv, if_true, Option.map_some]
    refine ⟨iff_of_true (hcount hi _) (by simp), fun L' hL hr => ?_, fun L' hL hf => ?_⟩
    · cases hL
      obtain ⟨hr, hm⟩ := hrange hr
      have hT := hA.tally L rfl hr
      obtain ⟨h1, h2⟩ := hT.signalPass (s := a.current) hm hp
      rw [woken_nil ((hW.members_blocked hi hT.head).trans h2)]
      exact h1
    · cases hL
      exact hfits L rfl hf
  -- the first waiter is the one that is granted
  | @signalWake u b i t xs hv hp hw hq =>
    obtain ⟨hi, L, rfl⟩ := hI hv
    simp only [hW.sem, hW.current, hv, if_true, Option.map_some]
    refine ⟨iff_of_true (hcount hi 1) (by simp), fun L' hL hr => ?_, fun L' hL hf => ?_⟩
    · cases hL
      obtain ⟨hr, hm⟩ := hrange hr
      have hT := fun r => (hA.tally L rfl hr).signalWake (s := a.current) (r := r) hm hp hq
      have hxs : members k' (.blocked n) = xs := by
        rw [hW'.members_blocked (hcount hi 1) (hT true).head]
        simp [AState.push, AState.put]
      have hnd := (List.nodup_cons.1 (hW.queues.nodup (heads_blocked hi hw))).2
      rw [hq] at hnd
      rw [woken_first ((hW.members_blocked hi hw).trans hq) hxs hnd]
      exact hT _
    · cases hL
      exact hfits L rfl hf
  | @signalSplice u b i hv hp hw hq =>
    obtain ⟨hi, L, rfl⟩ := hI hv
    simp only [hW.sem, hv, if_true, Option.map_some]
    refine ⟨iff_of_true (hcount hi 1) (by simp), fun L' hL hr => ?_, fun L' hL hf => ?_⟩
    · cases hL
      obtain ⟨hr, hm⟩ := hrange hr
      exact absurd hq ((hA.tally L rfl hr).wake_ne_nil hm hp)
    · cases hL
      exact hfits L rfl hf
  | @signalWild u b i xs hv hp hw =>
    obtain ⟨hi, L, rfl⟩ := hI hv
    simp only [hW.sem, hv, if_true, Option.map_some]
    refine ⟨iff_of_true (hcount hi 1) (by simp), fun L' hL hr => ?_, fun L' hL hf => ?_⟩
    · cases hL
      exact absurd hw (hA.tally L rfl (hrange hr).1).head
    · cases hL
      exact hfits L rfl hf
  -- the account is closed
  | @destroy u b i hv =>
    simp only [hW.sem, hv, if_true]
    refine ⟨iff_of_false ?_ (by simp), fun L' hL => (by cases hL), fun L' hL => by cases hL⟩
    simp [AState.IsInit, AState.semDestroy, AState.setSem]

/-- **The accounts of every semaphore, along every run.** -/
theorem run_tally (hr : KRun M tr k) : ∃ a, WF k a ∧ ∀ n, Accounted a n (ledger n tr) := by
  refine hr.induct (P := fun tr k => ∃ a, WF k a ∧ ∀ n, Accounted a n (ledger n tr)) (fun k hk => ?_) ?_
  · obtain ⟨k', h, hW⟩ := boot_ok M
    cases h.symm.trans hk
    refine ⟨_, hW, fun n => ⟨?_, fun L hL => (by cases hL), fun L hL => by cases hL⟩⟩
    simp [AState.IsInit, bootState, ledger]
  · rintro tr k e o k' - ⟨a, hW, hA⟩ hs
    obtain ⟨a', h, hW'⟩ := hs.refines hW
    exact ⟨a', hW', fun n => accounted_step hW hW' h (hA n)⟩

end Zeos
