import Zeos.Proof.Calls

/-!
# The semaphore calls

The calls of `sys.c` on semaphores are steps of the abstract kernel, also when the
head of a semaphore's list is itself on `readyqueue` (`AState.Wild`): then a wait
puts its task in the middle of `readyqueue`, a signal moves a node of it, and a
destroy does not come back.

* `sysSemInit_outcome`, `sysSemWait_outcome`, `sysSemSignal_outcome`, `sysSemDestroy_outcome`
* `destroyLoop_ok`, `destroyLoop_wild`: the loop of `sys_sem_destroy`.
-/

namespace Zeos

open LinkHeap ForLoop

/-- The event is a call on semaphore `n` that the kernel accepts. -/
def Event.On (sem : Sem → Semaphore) (n : Sem) : Event → Prop
  | .sysenter (.semInit i _) _ _ => validSem sem i true = some n
  | .sysenter (.semWait i) _ _ => validSem sem i false = some n
  | .sysenter (.semSignal i) _ _ => validSem sem i false = some n
  | .sysenter (.semDestroy i) _ _ => validSem sem i false = some n
  | _ => False

/-- The ways in which a call on `n` goes. -/
inductive AState.CallStep (a : AState) (n : Sem) : Event → Option Switch → AState → Prop
  | init {u b i v} : validSem a.sem i true = some n → CallStep a n (.sysenter (.semInit i v) u b) none (a.semInit n v)
  | waitPass {u b i} : validSem a.sem i false = some n → 0 ≤ ((a.sem n).counter - 1).toInt →
    CallStep a n (.sysenter (.semWait i) u b) none (a.count n (-1))
  | waitBlock {u b i} : validSem a.sem i false = some n → ((a.sem n).counter - 1).toInt < 0 → ¬ a.Wild n →
    CallStep a n (.sysenter (.semWait i) u b)
      (some (((a.count n (-1)).push (.blocked n) a.current).switch b))
      (((a.count n (-1)).push (.blocked n) a.current).dispatch b)
  | waitWild {u b i ys zs} : validSem a.sem i false = some n → ((a.sem n).counter - 1).toInt < 0 →
    a.queue .readyqueue = ys ++ .blocked n :: zs →
    CallStep a n (.sysenter (.semWait i) u b)
      (some (((a.count n (-1)).put .readyqueue (ys ++ .task a.current :: .blocked n :: zs)).switch b))
      (((a.count n (-1)).put .readyqueue (ys ++ .task a.current :: .blocked n :: zs)).dispatch b)
  | signalPass {u b i} : validSem a.sem i false = some n → 0 < ((a.sem n).counter + 1).toInt →
    CallStep a n (.sysenter (.semSignal i) u b) none (a.count n 1)
  | signalWake {u b i t xs} : validSem a.sem i false = some n → ((a.sem n).counter + 1).toInt ≤ 0 → ¬ a.Wild n →
    a.queue (.blocked n) = .task t :: xs →
    CallStep a n (.sysenter (.semSignal i) u b) none (((a.count n 1).put (.blocked n) xs).push .readyqueue t)
  | signalSplice {u b i} : validSem a.sem i false = some n → ((a.sem n).counter + 1).toInt ≤ 0 → ¬ a.Wild n →
    a.queue (.blocked n) = [] →
    CallStep a n (.sysenter (.semSignal i) u b) none
      ((a.count n 1).put .readyqueue (a.queue .readyqueue ++ [.blocked n]))
  | signalWild {u b i xs} : validSem a.sem i false = some n → ((a.sem n).counter + 1).toInt ≤ 0 → a.Wild n →
    CallStep a n (.sysenter (.semSignal i) u b) none ((a.count n 1).put .readyqueue xs)
  | destroy {u b i} : validSem a.sem i false = some n →
    CallStep a n (.sysenter (.semDestroy i) u b) none (a.semDestroy n)

variable {k k' k₁ : Kernel} {a a' : AState} {e : Event} {sw : Option Switch} {off : Slot → Prop} {s t : Slot} {n m : Sem}
  {u i : Word} {b : ℕ} {ys zs xs : List Node}

theorem validSem_some {sem : Sem → Semaphore} {isNew : Bool} (h : validSem sem i isNew = some n) :
    (sem n).isInit ≠ isNew := by
  simp only [validSem] at h
  split at h
  · split at h
    · cases h
    · rename_i hne; cases h; exact hne
  · cases h

theorem heads_blocked (hi : a.IsInit n) (hw : ¬ a.Wild n) : Heads a.IsInit a.queue (.blocked n) :=
  ⟨hi, hw⟩

theorem validSem_init (h : validSem a.sem i false = some n) : a.IsInit n := by
  have := validSem_some h
  simpa [AState.IsInit] using this

theorem count_isInit (d : Word) : (a.count n d).IsInit = a.IsInit := by
  funext m
  by_cases h : m = n <;> simp [AState.IsInit, AState.count, AState.setSem, h]

/-- **Steps that make a call on `n`.** -/
theorem AStep.called (h : AStep a e sw a') (hn : e.On a.sem n) : a.CallStep n e sw a' := by
  have hsame : ∀ {i m v}, validSem a.sem i v = some m → validSem a.sem i v = some n → m = n := fun h h' =>
    Option.some.inj (h.symm.trans h')
  cases h with
  | noop he =>
    unfold Event.On at hn
    split at hn <;> first | exact hn.elim | cases he
  -- calls with an invalid identifier
  | semInitBad hv => rw [Event.On, hv] at hn; cases hn
  | waitBad hv => rw [Event.On, hv] at hn; cases hn
  | signalBad hv => rw [Event.On, hv] at hn; cases hn
  | destroyBad hv => rw [Event.On, hv] at hn; cases hn
  | semInit hv =>
    obtain rfl := hsame hv hn
    exact .init hv
  | waitPass hv hp =>
    obtain rfl := hsame hv hn
    exact .waitPass hv hp
  | waitBlock hv hp hw =>
    obtain rfl := hsame hv hn
    exact .waitBlock hv hp hw
  | waitWild hv hp hq =>
    obtain rfl := hsame hv hn
    exact .waitWild hv hp hq
  | signalPass hv hp =>
    obtain rfl := hsame hv hn
    exact .signalPass hv hp
  | signalWake hv hp hw hq =>
    obtain rfl := hsame hv hn
    exact .signalWake hv hp hw hq
  | signalSplice hv hp hw hq =>
    obtain rfl := hsame hv hn
    exact .signalSplice hv hp hw hq
  | signalWild hv hp hw _ =>
    obtain rfl := hsame hv hn
    exact .signalWild hv hp hw
  | destroy hv _ =>
    obtain rfl := hsame hv hn
    exact .destroy hv
  | _ => exact hn.elim

theorem Shape.count (hS : Shape k a off) {c d : Word} (hc : c = (k.listSem n).counter + d) :
    Shape (k.setSem n { k.listSem n with counter := c }) (a.count n d) off :=
  { hS with
    sem := by simp only [Kernel.setSem, hc, hS.sem]; rfl
    queues := (count_isInit (a := a) d) ▸ hS.queues }

theorem WF.count (hW : WF k a) {c d : Word} (hc : c = (k.listSem n).counter + d) :
    WF (k.setSem n { k.listSem n with counter := c }) (a.count n d) :=
  { hW.toShape.count hc with cr3 := hW.cr3, run := hW.run, alone := hW.alone }

/-- New contents of queues other than `freequeue`. -/
theorem Shape.setQueues (hS : Shape k a off) {h' : Heap Node} {q' : Node → List Node}
    {off' : Slot → Prop} (hQ : Queues h' a.IsInit q' off')
    (hf : q' .freequeue = a.queue .freequeue) :
    Shape (k.setLinks h') { a with queue := q' } off' :=
  { hS with
    queues := hQ
    own := fun s sp hl => hS.own s sp (hf ▸ hl : Node.task s ∉ a.queue .freequeue)
    ran := fun s hl => hS.ran s (hf ▸ hl : Node.task s ∉ a.queue .freequeue) }

theorem WF.setQueues (hW : WF k a) (hc : a.current ≠ a.idle) {h' : Heap Node}
    {q' : Node → List Node} (hQ : Queues h' a.IsInit q' fun s => s = a.current ∨ s = a.idle)
    (hf : q' .freequeue = a.queue .freequeue) : WF (k.setLinks h') { a with queue := q' } :=
  { hW.toShape.setQueues hQ hf with
    cr3 := hW.cr3
    run := hW.run
    alone := fun h => absurd h hc }

/-! ### init -/

theorem sysSemInit_outcome (hW : WF k a) (hc : a.current ≠ a.idle) (v : Word) :
    Outcome a (.sysenter (.semInit i v) u b) (.ok (returning (sysSemInit k i v))) := by
  cases hv : validSem a.sem i true with
  | none =>
    have h : sysSemInit k i v = (-1, k) := by simp only [sysSemInit, hW.sem, hv]
    rw [h]; exact .ret (.semInitBad hv) hW
  | some n =>
    have hn : ¬ a.IsInit n := validSem_some hv
    have hI : (a.semInit n v).IsInit = fun m => a.IsInit m ∨ m = n := by
      funext m
      by_cases h : m = n
      · subst h; simp [AState.IsInit, AState.semInit, AState.setSem, AState.put]
      · simp [AState.IsInit, AState.semInit, AState.setSem, AState.put, h]
    have h : sysSemInit k i v = (0, { k with
        listSem := (a.semInit n v).sem
        links := initListHead k.links (.blocked n) }) := by
      simp [sysSemInit, hW.sem, hv, Kernel.setSem, Kernel.setLinks, AState.semInit, AState.setSem,
        AState.put]
    rw [h]
    refine .ret (.semInit hv) ?_
    exact { hW with
      sem := rfl
      queues := by rw [hI]; exact hW.queues.init hn
      own := fun s sp hl => hW.own s sp hl
      ran := fun s hl => hW.ran s hl
      alone := fun h => absurd h hc }

/-! ### wait -/

/-- The state of a wait that has counted itself. -/
def countDown (k : Kernel) (n : Sem) : Kernel :=
  k.setSem n { k.listSem n with counter := (k.listSem n).counter - 1 }

theorem sysSemWait_eq (hv : validSem k.listSem i false = some n) :
    sysSemWait k i b = if ((k.listSem n).counter - 1).toInt < 0 then
      (listAddTail (countDown k n).links (.task k.current) (.blocked n)).bind fun h =>
        schedNextRr ((countDown k n).setLinks h) b .sysSemWait
      else .ok ({ ret := some (semWaitEnd (countDown k n)).1 }, (semWaitEnd (countDown k n)).2) := by
  have hcnt : ((countDown k n).listSem n).counter = (k.listSem n).counter - 1 := by
    simp [countDown, Kernel.setSem]
  rw [← hcnt]
  simp only [sysSemWait, hv]
  rfl

theorem WF.countDown (hW : WF k a) (n : Sem) : WF (countDown k n) (a.count n (-1)) :=
  hW.count (by rw [BitVec.sub_eq_add_neg])

/-- A wait that blocks: its task goes on the list of the semaphore. -/
theorem semWait_blocks (hW : WF k a) (hc : a.current ≠ a.idle) (hv : validSem a.sem i false = some n)
    (hneg : ((a.sem n).counter - 1).toInt < 0) (hw : ¬ a.Wild n) :
    ∃ h, sysSemWait k i b = schedNextRr ((countDown k n).setLinks h) b .sysSemWait ∧
      Shape ((countDown k n).setLinks h) ((a.count n (-1)).push (.blocked n) a.current) fun s => s = a.idle := by
  have hcall := sysSemWait_eq (k := k) (b := b) (hW.sem ▸ hv)
  rw [hW.sem, if_pos hneg] at hcall
  have hh : Heads (a.count n (-1)).IsInit (a.count n (-1)).queue (.blocked n) := by
    rw [count_isInit]; exact ⟨validSem_init hv, hw⟩
  obtain ⟨h', h1, h2⟩ := (hW.countDown n).toShape.pushCurrent hc hh
  rw [show (countDown k n).current = k.current from rfl] at h1
  exact ⟨h', by rw [hcall, h1]; rfl, h2⟩

/-- The same where the head of that list is on `readyqueue`: the task goes in front of it. -/
theorem semWait_wild (hW : WF k a) (hc : a.current ≠ a.idle) (hv : validSem a.sem i false = some n)
    (hneg : ((a.sem n).counter - 1).toInt < 0) (hq : a.queue .readyqueue = ys ++ .blocked n :: zs) :
    ∃ h, sysSemWait k i b = schedNextRr ((countDown k n).setLinks h) b .sysSemWait ∧
      Shape ((countDown k n).setLinks h)
        ((a.count n (-1)).put .readyqueue (ys ++ .task a.current :: .blocked n :: zs)) fun s => s = a.idle := by
  have hcall := sysSemWait_eq (k := k) (b := b) (hW.sem ▸ hv)
  rw [hW.sem, if_pos hneg, show k.current = a.current from hW.current] at hcall
  have hW₁ := hW.countDown n
  obtain ⟨h', h1, h2⟩ := hW₁.queues.insert (s := a.current) Heads.ready hq (.inl rfl)
  rw [firstOf] at h1
  refine ⟨h', by rw [hcall, h1]; rfl, ?_⟩
  refine (hW₁.toShape.setQueues h2 (by simp)).congr_off fun s => ?_
  constructor
  · rintro ⟨h | h, hne⟩
    · exact absurd h hne
    · exact h
  · rintro rfl; exact ⟨.inr rfl, Ne.symm hc⟩

/-- A wait that blocks ends in `sched_next_rr`. -/
theorem semWait_block (hW : WF k a) (hc : a.current ≠ a.idle) (hv : validSem a.sem i false = some n)
    (hneg : ((a.sem n).counter - 1).toInt < 0) :
    ∃ h a', sysSemWait k i b = schedNextRr ((countDown k n).setLinks h) b .sysSemWait ∧
      Shape ((countDown k n).setLinks h) a' (fun s => s = a'.idle) ∧ a'.current = a.current ∧
      AStep a (.sysenter (.semWait i) u b) (some (a'.switch b)) (a'.dispatch b) := by
  by_cases hw : a.Wild n
  · obtain ⟨ys, zs, hq⟩ := List.append_of_mem hw
    obtain ⟨h, h1, h2⟩ := semWait_wild (b := b) hW hc hv hneg hq
    exact ⟨h, _, h1, h2, rfl, .waitWild hv hneg hq⟩
  · obtain ⟨h, h1, h2⟩ := semWait_blocks (b := b) hW hc hv hneg hw
    exact ⟨h, _, h1, h2, rfl, .waitBlock hv hneg hw⟩

theorem sysSemWait_outcome (hW : WF k a) (hc : a.current ≠ a.idle) :
    Outcome a (.sysenter (.semWait i) u b) (sysSemWait k i b) := by
  cases hv : validSem a.sem i false with
  | none =>
    have h : sysSemWait k i b = .ok ({ ret := some (-1) }, k) := by simp only [sysSemWait, hW.sem, hv]
    rw [h]; exact ⟨a, .waitBad hv, hW⟩
  | some n =>
    by_cases hneg : ((a.sem n).counter - 1).toInt < 0
    · obtain ⟨h, a', hcall, hS, -, hstep⟩ := semWait_block (b := b) (u := u) hW hc hv hneg
      rw [hcall]
      exact .sched hS hstep
    · rw [sysSemWait_eq (hW.sem ▸ hv), hW.sem, if_neg hneg]
      exact ⟨_, .waitPass hv (by omega), (hW.countDown n).same (semWaitEnd_same _) (semWaitEnd_state _)⟩

/-! ### signal -/

/-- The node behind a semaphore's head that is itself on `readyqueue`, moved to the tail. -/
theorem moveWild (hW : WF k a) (hc : a.current ≠ a.idle) (hw : a.Wild n) :
    ∃ lib, listFirst k.links (.blocked n) = .ok lib ∧
      ((∃ h₁, listDel k.links lib = .ok h₁ ∧ listAddTail h₁ lib .readyqueue = .error .null) ∨
        listDel k.links lib = .error .null ∨
        ∃ h₁ h₂ xs, listDel k.links lib = .ok h₁ ∧ listAddTail h₁ lib .readyqueue = .ok h₂ ∧
          xs.Perm (a.queue .readyqueue) ∧ WF (k.setLinks h₂) (a.put .readyqueue xs)) ∧
      lib ≠ .blocked n := by
  obtain ⟨ys, zs, hq⟩ := List.append_of_mem hw
  have hnd := (List.nodup_cons.1 (hW.queues.nodup Heads.ready)).2
  rw [hq] at hnd
  have hnz : Node.blocked n ∉ zs := (List.nodup_cons.1 (List.nodup_append.1 hnd).2.1).1
  refine ⟨_, hW.queues.firstOf_ready hq, ?_, ?_⟩
  -- the node to move is the one behind the head in `readyqueue`, with none there `readyqueue` itself
  · cases zs with
    | nil =>
      cases hd : listDel k.links .readyqueue with
      | error e => rw [firstOf, listDel_error hd] at *; exact .inr (.inl hd)
      | ok h₁ => exact .inl ⟨h₁, hd, listDel_add_self hd⟩
    | cons x zs =>
      right; right
      have hq' : a.queue .readyqueue = (ys ++ [.blocked n]) ++ x :: zs := by rw [hq]; simp
      -- behind the move `readyqueue` has the same members
      have hp : (ys ++ [Node.blocked n] ++ zs ++ [x]).Perm (a.queue .readyqueue) := by
        rw [hq', List.append_assoc _ zs]
        exact (List.perm_append_singleton x zs).append_left _
      rcases hW.queues.ready_node x (by rw [hq']; simp) with ⟨t, rfl⟩ | ⟨m, -, rfl⟩
      · obtain ⟨h₁, h1, hQ₁⟩ := hW.queues.remove Heads.ready hq'
        obtain ⟨h₂, h2, hQ₂⟩ := hQ₁.push (s := t) Heads.ready (.inr rfl)
        rw [Function.update_self, Function.update_idem] at hQ₂
        have ht : ¬ (t = a.current ∨ t = a.idle) := hW.queues.not_off Heads.ready (by rw [hq']; simp)
        refine ⟨h₁, h₂, _, h1, h2, hp, hW.setQueues hc (hQ₂.congr_off fun s => ?_) (by simp)⟩
        constructor
        · rintro ⟨h | h, hne⟩
          · exact h
          · exact absurd h hne
        · intro h; exact ⟨.inl h, by rintro rfl; exact ht h⟩
      · obtain ⟨h₁, h₂, h1, h2, hQ⟩ := hW.queues.rotate hq'
        exact ⟨h₁, h₂, _, h1, h2, hp, hW.setQueues hc hQ (by simp)⟩
  · cases zs with
    | nil => simp [firstOf]
    | cons x zs => rintro rfl; simp at hnz

/-- The first waiter of a semaphore moved to `readyqueue`. -/
theorem moveFirst (hW : WF k a) (hc : a.current ≠ a.idle) (hh : Heads a.IsInit a.queue (.blocked n))
    (hq : a.queue (.blocked n) = .task t :: xs) :
    listFirst k.links (.blocked n) = .ok (.task t) ∧ ∃ h₁ h₂, listDel k.links (.task t) = .ok h₁ ∧
      listAddTail h₁ (.task t) .readyqueue = .ok h₂ ∧
      WF (k.setLinks h₂) ((a.put (.blocked n) xs).push .readyqueue t) := by
  have hF := listFirst_rings hW.queues.rings hh
  rw [hq, firstOf] at hF
  obtain ⟨h₁, h1, hQ₁⟩ := hW.queues.pop hh hq
  obtain ⟨h₂, h2, hQ₂⟩ := hQ₁.push (s := t) Heads.ready (.inr rfl)
  have ht : ¬ (t = a.current ∨ t = a.idle) := hW.queues.not_off hh (by rw [hq]; simp)
  refine ⟨hF, h₁, h₂, h1, h2, hW.setQueues hc (hQ₂.congr_off fun s => ?_) (by simp [AState.put])⟩
  constructor
  · rintro ⟨h | h, hne⟩
    · exact h
    · exact absurd h hne
  · intro h; exact ⟨.inl h, by rintro rfl; exact ht h⟩

theorem sysSemSignal_eq (hv : validSem k.listSem i false = some n)
    (hk₁ : k₁ = k.setSem n { k.listSem n with counter := (k.listSem n).counter + 1 }) :
    sysSemSignal k i = if (k₁.listSem n).counter.toInt ≤ 0 then
      (listFirst k₁.links (.blocked n)).bind fun lib =>
        (listDel k₁.links lib).bind fun h =>
          (listAddTail h lib .readyqueue).bind fun h => .ok (0, k₁.setLinks h)
      else .ok (0, k₁) := by
  subst hk₁
  simp only [sysSemSignal, hv]
  rfl

/-- A signal on a sound semaphore comes back. -/
theorem sysSemSignal_sound (hW : WF k a) (hc : a.current ≠ a.idle) (hv : validSem a.sem i false = some n)
    (hw : ¬ a.Wild n) (u : Word) (b : ℕ) : ∃ k' a', sysSemSignal k i = .ok (0, k') ∧
      AStep a (.sysenter (.semSignal i) u b) none a' ∧ WF k' a' := by
  set k₁ := k.setSem n { k.listSem n with counter := (k.listSem n).counter + 1 } with hk₁
  have hW₁ : WF k₁ (a.count n 1) := hW.count rfl
  have hcnt : (k₁.listSem n).counter = (a.sem n).counter + 1 := by simp [k₁, Kernel.setSem, hW.sem]
  rw [sysSemSignal_eq (hW.sem ▸ hv) hk₁, hcnt]
  split
  · rename_i hle
    have hh : Heads (a.count n 1).IsInit (a.count n 1).queue (.blocked n) := by
      rw [count_isInit]
      exact heads_blocked (validSem_init hv) hw
    cases hq : a.queue (.blocked n) with
    | nil =>
      have hF := listFirst_rings hW₁.queues.rings hh
      rw [show (a.count n 1).queue (.blocked n) = [] from hq, firstOf] at hF
      obtain ⟨h₁, h₂, h1, h2, hQ⟩ := hW₁.queues.splice hh hq
      simp only [hF, Except.bind, h1, h2]
      exact ⟨_, _, rfl, .signalSplice hv hle hw hq, hW₁.setQueues hc hQ (by simp)⟩
    | cons x xs =>
      obtain ⟨t, rfl⟩ := hW₁.queues.blocked_task n hh x (by rw [show
        (a.count n 1).queue (.blocked n) = x :: xs from hq]; simp)
      obtain ⟨hF, h₁, h₂, h1, h2, hW₂⟩ := moveFirst hW₁ hc hh hq
      simp only [hF, Except.bind, h1, h2]
      exact ⟨_, _, rfl, .signalWake hv hle hw hq, hW₂⟩
  · rename_i hgt
    exact ⟨_, _, rfl, .signalPass hv (by omega), hW₁⟩

theorem sysSemSignal_outcome (hW : WF k a) (hc : a.current ≠ a.idle) :
    Outcome a (.sysenter (.semSignal i) u b) ((sysSemSignal k i).map returning) := by
  cases hv : validSem a.sem i false with
  | none =>
    have h : sysSemSignal k i = .ok (-1, k) := by simp only [sysSemSignal, hW.sem, hv]
    rw [h]
    exact ⟨a, .signalBad hv, hW⟩
  | some n =>
    by_cases hw : a.Wild n
    swap
    · obtain ⟨k', a', h, hA, hW'⟩ := sysSemSignal_sound hW hc hv hw u b
      rw [h]
      exact ⟨a', hA, hW'⟩
    set k₁ := k.setSem n { k.listSem n with counter := (k.listSem n).counter + 1 } with hk₁
    have hW₁ : WF k₁ (a.count n 1) := hW.count rfl
    have hcnt : (k₁.listSem n).counter = (a.sem n).counter + 1 := by simp [k₁, Kernel.setSem, hW.sem]
    rw [sysSemSignal_eq (hW.sem ▸ hv) hk₁, hcnt]
    split
    · rename_i hle
      -- the node after the head is another queue's, and may be a head
      obtain ⟨lib, hF, hcases, -⟩ := moveWild hW₁ hc hw
      rw [hF]
      rcases hcases with ⟨h₁, h1, h2⟩ | h1 | ⟨h₁, h₂, xs, h1, h2, hp, hW₂⟩
      · simp only [Except.bind, h1, h2]; trivial
      · simp only [Except.bind, h1]; trivial
      · simp only [Except.bind, h1, h2]
        exact ⟨_, .signalWild hv hle hw hp, hW₂⟩
    · rename_i hgt
      exact ⟨_, .signalPass hv (by omega), hW₁⟩

/-! ### destroy -/

theorem markDestroyed (hW : WF k a) (t : Slot) :
    WF (k.setTask t { k.task t with destroyed := true }) a :=
  hW.same (.setTask rfl rfl rfl) (by by_cases h : a.current = t <;> simp [Kernel.setTask, h])

/-- One round of the loop: the first waiter becomes ready. -/
theorem destroyOne_ok (hW : WF k a) (hc : a.current ≠ a.idle) (hh : Heads a.IsInit a.queue (.blocked n))
    (hq : a.queue (.blocked n) = .task t :: xs) :
    ∃ k', destroyOne k n = .ok k' ∧ WF k' ((a.put (.blocked n) xs).push .readyqueue t) := by
  obtain ⟨hF, h₁, h₂, h1, h2, hW₂⟩ := moveFirst hW hc hh hq
  refine ⟨(k.setLinks h₂).setTask t { (k.setLinks h₂).task t with destroyed := true }, ?_, markDestroyed hW₂ t⟩
  simp only [destroyOne, hF, h1, h2, listHeadToTaskStruct, bind, Except.bind]
  rfl

/-- The head stays one in such a round. -/
theorem heads_moved (hh : Heads a.IsInit a.queue (.blocked n)) :
    Heads a.IsInit ((a.put (.blocked n) xs).push .readyqueue t).queue (.blocked n) := by
  refine ⟨hh.1, ?_⟩
  have := hh.2
  simpa [AState.push, AState.put] using this

/-- **The loop of `sys_sem_destroy`** makes all waiters ready, in their order. -/
theorem destroyLoop_ok (f : ℕ) : ∀ {k : Kernel} {a : AState}, WF k a → a.current ≠ a.idle →
    Heads a.IsInit a.queue (.blocked n) → (a.queue (.blocked n)).length ≤ f →
    ∃ k', destroyLoop n f k = .ok k' ∧
      WF k' ((a.put .readyqueue (a.queue .readyqueue ++ a.queue (.blocked n))).put (.blocked n) []) := by
  -- with no waiter there is nothing to do
  have hnil : ∀ {k : Kernel} {a : AState}, WF k a → Heads a.IsInit a.queue (.blocked n) →
      a.queue (.blocked n) = [] → listEmpty k.links (.blocked n) = true ∧
      (a.put .readyqueue (a.queue .readyqueue ++ a.queue (.blocked n))).put (.blocked n) [] = a := by
    intro k a hW hh hq
    refine ⟨(listEmpty_rings hW.queues.rings hh).2 hq, ?_⟩
    have h1 : Function.update a.queue .readyqueue (a.queue .readyqueue ++ []) = a.queue := by simp
    have h2 : Function.update a.queue (.blocked n) [] = a.queue := by
      rw [← hq, Function.update_eq_self]
    simp only [AState.put, hq, h1, h2]
  induction f with
  | zero =>
    intro k a hW _ hh hl
    have hq : a.queue (.blocked n) = [] := List.length_eq_zero_iff.1 (by omega)
    obtain ⟨h1, h2⟩ := hnil hW hh hq
    exact ⟨k, by simp [destroyLoop, h1], by rw [h2]; exact hW⟩
  | succ f ih =>
    intro k a hW hc hh hl
    cases hq : a.queue (.blocked n) with
    | nil =>
      obtain ⟨h1, h2⟩ := hnil hW hh hq
      rw [hq] at h2
      exact ⟨k, by simp [destroyLoop, h1], by rw [h2]; exact hW⟩
    | cons x xs =>
      have hne : listEmpty k.links (.blocked n) = false := by
        rw [← Bool.not_eq_true, listEmpty_rings hW.queues.rings hh, hq]; simp
      obtain ⟨t, rfl⟩ := hW.queues.blocked_task n hh x (by rw [hq]; simp)
      -- the first waiter moves, and the loop goes on with the rest
      obtain ⟨k₃, hone, hW₃⟩ := destroyOne_ok hW hc hh hq
      have hh₃ : Heads a.IsInit ((a.put (.blocked n) xs).push .readyqueue t).queue (.blocked n) := heads_moved hh
      have hq₃ : ((a.put (.blocked n) xs).push .readyqueue t).queue (.blocked n) = xs := by
        simp [AState.push, AState.put]
      obtain ⟨k', h3, hW'⟩ := ih hW₃ hc hh₃ (by rw [hq₃]; rw [hq] at hl; simpa using hl)
      refine ⟨k', ?_, ?_⟩
      · simp only [destroyLoop, hne, hone, bind, Except.bind]; exact h3
      · rw [hq₃] at hW'
        convert hW' using 1
        simp only [AState.push, AState.put, Function.update_self]
        congr 1
        funext y
        by_cases h1 : y = .blocked n <;> by_cases h2 : y = .readyqueue <;> simp_all

/-- What holds of the loop on an empty list, and with a round before it, holds of the loop. -/
theorem destroyLoop_induct {Q : Kernel → List Node → Kernel → Prop} (hnil : ∀ k, Q k [] k)
    (hcons : ∀ {k : Kernel} {a : AState} {t : Slot} {xs : List Node} {k₁ k' : Kernel}, WF k a → a.current ≠ a.idle →
      Heads a.IsInit a.queue (.blocked n) → a.queue (.blocked n) = .task t :: xs → destroyOne k n = .ok k₁ →
      Q k₁ xs k' → Q k (.task t :: xs) k') (f : ℕ) : ∀ {k k' : Kernel} {a : AState}, WF k a → a.current ≠ a.idle →
    Heads a.IsInit a.queue (.blocked n) → destroyLoop n f k = .ok k' → Q k (a.queue (.blocked n)) k' := by
  induction f with
  | zero =>
    intro k k' a hW _ hh h
    unfold destroyLoop at h
    split at h
    · rename_i hE
      cases h
      rw [(listEmpty_rings hW.queues.rings hh).1 hE]
      exact hnil k
    · cases h
  | succ f ih =>
    intro k k' a hW hc hh h
    cases hq : a.queue (.blocked n) with
    | nil =>
      simp only [destroyLoop, (listEmpty_rings hW.queues.rings hh).2 hq, if_true] at h
      cases h
      exact hnil k
    | cons x xs =>
      have hne : listEmpty k.links (.blocked n) = false := by
        rw [← Bool.not_eq_true, listEmpty_rings hW.queues.rings hh, hq]; simp
      obtain ⟨t, rfl⟩ := hW.queues.blocked_task n hh x (by rw [hq]; simp)
      obtain ⟨k₁, hone, hW₁⟩ := destroyOne_ok hW hc hh hq
      simp only [destroyLoop, hne, hone, bind, Except.bind] at h
      have hq₁ : ((a.put (.blocked n) xs).push .readyqueue t).queue (.blocked n) = xs := by
        simp [AState.push, AState.put]
      have hrest := ih hW₁ hc (heads_moved hh) h
      rw [hq₁] at hrest
      exact hcons hW hc hh hq hone hrest

/-- The loop keeps what does not depend on `destroyed` and on the links. -/
theorem destroyLoop_keeps {β : Type*} {F : Kernel → β}
    (hF : ∀ k t l, F ((k.setTask t { k.task t with destroyed := true }).setLinks l) = F k) (f : ℕ) :
    ∀ {k k' : Kernel}, destroyLoop n f k = .ok k' → F k' = F k := by
  induction f with
  | zero =>
    intro k k' h
    unfold destroyLoop at h
    split at h <;> cases h
    rfl
  | succ f ih =>
    intro k k' h
    unfold destroyLoop at h
    split at h
    · cases h
      rfl
    obtain ⟨k₁, h1, h⟩ := bind_ok.1 h
    unfold destroyOne at h1
    obtain ⟨x, -, h1⟩ := bind_ok.1 h1
    obtain ⟨l, -, h1⟩ := bind_ok.1 h1
    obtain ⟨t, -, h1⟩ := bind_ok.1 h1
    obtain ⟨l', -, h1⟩ := bind_ok.1 h1
    cases h1
    exact (ih h).trans (hF k t l')

/-- On a semaphore whose head is on `readyqueue` the loop does not come to its end. -/
theorem destroyLoop_wild (f : ℕ) : ∀ {k : Kernel} {a : AState}, WF k a → a.current ≠ a.idle →
    a.Wild n → destroyLoop n f k = .error .hang ∨ destroyLoop n f k = .error .wild ∨
      destroyLoop n f k = .error .null := by
  -- `readyqueue` itself is in the ring, so the list is never empty
  have hne : ∀ {k : Kernel} {a : AState}, WF k a → a.current ≠ a.idle → a.Wild n →
      listEmpty k.links (.blocked n) = false := by
    intro k a hW hc hw
    obtain ⟨lib, hF, -, hlib⟩ := moveWild hW hc hw
    rw [← Bool.not_eq_true]
    intro he
    rw [listFirst, show (k.links (.blocked n)).next = some (.blocked n) by simpa [listEmpty] using he] at hF
    cases hF; exact hlib rfl
  induction f with
  | zero => intro k a hW hc hw; left; simp [destroyLoop, hne hW hc hw]
  | succ f ih =>
    intro k a hW hc hw
    obtain ⟨lib, hF, hcases, -⟩ := moveWild hW hc hw
    have hloop : destroyLoop n (f + 1) k = (destroyOne k n).bind (destroyLoop n f) := by
      simp only [destroyLoop, hne hW hc hw]; rfl
    have hone : destroyOne k n = (listDel k.links lib).bind fun h =>
        (listHeadToTaskStruct lib).bind fun l =>
          (listAddTail h lib .readyqueue).bind fun h' =>
            .ok ((k.setTask l { k.task l with destroyed := true }).setLinks h') := by
      simp only [destroyOne, hF]; rfl
    rw [hloop, hone]
    cases lib with
    -- a task behind the head is marked and moved, and the head stays in `readyqueue`
    | task t =>
      rcases hcases with ⟨h₁, h1, h2⟩ | h1 | ⟨h₁, h₂, xs, h1, h2, hp, hW₂⟩
      · right; right; simp only [h1, h2, Except.bind, listHeadToTaskStruct]
      · right; right; simp only [h1, Except.bind]
      · simp only [h1, h2, Except.bind, listHeadToTaskStruct]
        have hw₂ : (a.put .readyqueue xs).Wild n := by
          simpa [AState.Wild, AState.put] using hp.mem_iff.2 hw
        exact ih (markDestroyed hW₂ t) hc hw₂
    | _ =>
      right
      cases hd : listDel k.links _ with
      | error e => right; rw [listDel_error hd]; rfl
      | ok h => left; rfl

theorem sysSemDestroy_outcome (hW : WF k a) (hc : a.current ≠ a.idle) :
    Outcome a (.sysenter (.semDestroy i) u b) ((sysSemDestroy k i).map returning) := by
  cases hv : validSem a.sem i false with
  | none =>
    have h : sysSemDestroy k i = .ok (-1, k) := by simp only [sysSemDestroy, hW.sem, hv]
    rw [h]; exact ⟨a, .destroyBad hv, hW⟩
  | some n =>
    have hn := validSem_init hv
    have hcall : sysSemDestroy k i = (destroyLoop n numNodes k).bind fun k =>
        .ok (0, k.setSem n { k.listSem n with isInit := false }) := by
      simp only [sysSemDestroy, hW.sem, hv]; rfl
    rw [hcall]
    by_cases hw : a.Wild n
    · rcases destroyLoop_wild numNodes hW hc hw with h | h | h <;> rw [h] <;> trivial
    · have hh : Heads a.IsInit a.queue (.blocked n) := ⟨hn, hw⟩
      -- there are not more waiters than rounds
      have hlen := (List.nodup_cons.1 (hW.queues.nodup hh)).2.length_le_card
      obtain ⟨k₁, h1, hW₁⟩ := destroyLoop_ok numNodes hW hc hh hlen
      rw [h1]
      refine ⟨_, .destroy hv hw, ?_⟩
      have hI : (a.semDestroy n).IsInit = fun m => a.IsInit m ∧ m ≠ n := by
        funext m
        by_cases h : m = n
        · subst h; simp [AState.IsInit, AState.semDestroy, AState.setSem]
        · simp [AState.IsInit, AState.semDestroy, AState.setSem, AState.put, h]
      have hh₁ : Heads a.IsInit (((a.put .readyqueue (a.queue .readyqueue ++ a.queue (.blocked n))).put
          (.blocked n) []).queue) (.blocked n) := by
        refine ⟨hn, fun hm => ?_⟩
        simp only [AState.put, ne_eq, reduceCtorEq, not_false_eq_true, Function.update_of_ne,
          Function.update_self, List.mem_append] at hm
        rcases hm with hm | hm
        · exact hw hm
        · obtain ⟨s, e⟩ := hW.queues.blocked_task n hh _ hm; cases e
      have hQ := hW₁.queues.retire hh₁ (by simp [AState.put])
      exact { hW₁ with
        sem := by simp only [Kernel.setSem, hW₁.sem]; rfl
        queues := by rw [hI]; exact hQ
        alone := fun h => absurd h hc }

end Zeos
