import Zeos.Proof.Refine

/-!
# The calls of `list_del`

`listDels k e` writes down the calls of `list_del` that the kernel makes on event `e`: for
each, the lists at that time and the node.

* `step_relinks`: in every step that ends without a fault the `list_head`s go from their state before to the one
  behind by the list functions, and the calls of `list_del` among them are `listDels`, in this order.
-/

namespace Zeos

open LinkHeap ForLoop Execution

/-! ### What each call unlinks -/

/-- `sched_next_rr`, with the lists as it finds them. -/
def nextDel (h : Heap Node) : List (Heap Node × Node) :=
  if listEmpty h .readyqueue = false then
    match listFirst h .readyqueue with
    | .ok x => [(h, x)]
    | .error _ => []
  else []

/-- The current task goes on queue `q`, then `sched_next_rr`. -/
def leaveDels (k : Kernel) (q : Node) : List (Heap Node × Node) :=
  match listAddTail k.links (.task k.current) q with
  | .ok h => nextDel h
  | .error _ => []

/-- `update_process_state_rr` of the current task to `readyqueue`, then `sched_next_rr`. -/
def switchDels (k : Kernel) : List (Heap Node × Node) :=
  (if (k.task k.current).state ≠ .ST_RUN then [(k.links, .task k.current)] else []) ++
    match updateProcessStateRr k k.current (some .readyqueue) with
    | .ok k => nextDel k.links
    | .error _ => []

/-- fork and createthread take the first free struct. -/
def takeDels (k : Kernel) : List (Heap Node × Node) :=
  if listEmpty k.links .freequeue then []
  else
    match listFirst k.links .freequeue with
    | .ok x => [(k.links, x)]
    | .error _ => []

/-- The loop of `sys_sem_destroy`. -/
def destroyDels (n : Sem) : ℕ → Kernel → List (Heap Node × Node)
  | 0, _ => []
  | f + 1, k =>
    if listEmpty k.links (.blocked n) then []
    else
      match listFirst k.links (.blocked n) with
      | .ok x => (k.links, x) :: match destroyOne k n with
        | .ok k => destroyDels n f k
        | .error _ => []
      | .error _ => []

/-- `sys_terminatethread`, behind its `dealloc_k`. -/
def endDels (k : Kernel) : List (Heap Node × Node) :=
  if (deallocK k ((k.task k.current).userEsp.toNat / pageSize)).1.toInt < 0 then []
  else leaveDels k .freequeue

def waitDels (k : Kernel) (i : Word) : List (Heap Node × Node) :=
  match validSem k.listSem i false with
  | none => []
  | some n => if ((k.listSem n).counter - 1).toInt < 0 then leaveDels k (.blocked n) else []

def signalDels (k : Kernel) (i : Word) : List (Heap Node × Node) :=
  match validSem k.listSem i false with
  | none => []
  | some n =>
    if ((k.listSem n).counter + 1).toInt ≤ 0 then
      match listFirst k.links (.blocked n) with
      | .ok x => [(k.links, x)]
      | .error _ => []
    else []

def waitersDels (k : Kernel) (i : Word) : List (Heap Node × Node) :=
  match validSem k.listSem i false with
  | none => []
  | some n => destroyDels n numNodes k

def callDels (k : Kernel) : Call → List (Heap Node × Node)
  | .exit => leaveDels k .freequeue
  | .fork => takeDels k
  | .createthread _ _ _ => takeDels k
  | .yield => switchDels k
  | .terminatethread => endDels k
  | .semWait i => waitDels k i
  | .semSignal i => signalDels k i
  | .semDestroy i => waitersDels k i
  | _ => []

/-- The calls of `list_del` that the kernel makes on event `e`. -/
def listDels (k : Kernel) : Event → List (Heap Node × Node)
  | .sysenter c u _ =>
    match enterCall k u with
    | .ok k => callDels k c
    | .error _ => []
  | .clock _ =>
    let k := userToSystem k
    let (need, k) := needsSchedRr (updateSchedDataRr { k with zeosTicks := k.zeosTicks + 1 })
    if need then switchDels k else []
  | _ => []

variable {k k' : Kernel} {e : Event} {o : Out} {n : Sem} {b : ℕ} {r : Resume}

/-! ### Calls of the list functions -/

/-- The list functions take `h` to `h'`, and `ds` are the calls of `list_del` among them, in order.
No other function writes a `list_head`, apart from fork and createthread, which copy a task struct. -/
inductive Relinks : List (Heap Node × Node) → Heap Node → Heap Node → Prop
  | refl (h : Heap Node) : Relinks [] h h
  | initHead {ds h h' q} (hs : Relinks ds (initListHead h q) h') : Relinks ds h h'
  | copy {ds h h' x y} (hs : Relinks ds (Function.update h y (h x)) h') : Relinks ds h h'
  | addTail {ds h h₁ h' x q} (ha : listAddTail h x q = .ok h₁) (hs : Relinks ds h₁ h') : Relinks ds h h'
  | del {ds h h₁ h' x} (hd : listDel h x = .ok h₁) (hs : Relinks ds h₁ h') : Relinks ((h, x) :: ds) h h'

theorem Relinks.trans {ds es : List (Heap Node × Node)} {h h₁ h' : Heap Node} (h1 : Relinks ds h h₁)
    (h2 : Relinks es h₁ h') : Relinks (ds ++ es) h h' := by
  induction h1 with
  | refl => exact h2
  | initHead _ ih => exact .initHead (ih h2)
  | copy _ ih => exact .copy (ih h2)
  | addTail ha _ ih => exact .addTail ha (ih h2)
  | del hd _ ih => exact .del hd (ih h2)

/-- Nothing has written a `list_head`. -/
theorem Relinks.of_links (h : k'.links = k.links) : Relinks [] k.links k'.links := by
  rw [h]
  exact .refl _

/-! ### The scheduler -/

theorem resumeTask_links (k : Kernel) : (resumeTask k).2.links = k.links := by
  unfold resumeTask semWaitEnd
  dsimp only
  split
  case h_5 => split <;> rfl
  all_goals rfl

theorem innerTaskSwitch_links {t : Slot} {x : Switch × Kernel} (h : innerTaskSwitch k b t = .ok x) :
    x.2.links = k.links := by
  unfold innerTaskSwitch switchStack at h
  dsimp only at h
  cases hp : (k.task t).registerEsp with
  | none => rw [hp] at h; cases h
  | some p => rw [hp] at h; cases h; rfl

theorem schedNextRr_relinks (h : schedNextRr k b r = .ok (o, k')) : Relinks (nextDel k.links) k.links k'.links := by
  obtain ⟨⟨t, k₁⟩, h1, h⟩ := bind_ok.1 h
  obtain ⟨⟨sw, k₂⟩, h2, h⟩ := bind_ok.1 h
  have hk' : k'.links = k₁.links := by
    have hlinks : k₂.links = k₁.links := innerTaskSwitch_links h2
    dsimp only [comeBack] at h
    split at h
    · cases h
    · cases h
      exact (resumeTask_links k₂).trans hlinks
  unfold nextTask at h1
  unfold nextDel
  rw [hk']
  split at h1
  · rename_i hne
    obtain ⟨x, hx, h1⟩ := bind_ok.1 h1
    obtain ⟨h₁, hdel, h1⟩ := bind_ok.1 h1
    obtain ⟨t', -, h1⟩ := bind_ok.1 h1
    cases h1
    rw [if_pos hne, hx]
    exact .del hdel (.refl _)
  · rename_i hne
    cases h1
    rw [if_neg hne]
    exact .refl _

/-- The current task leaves the CPU and goes on queue `q`. -/
theorem leave_relinks {q : Node} {h₁ : Heap Node} {k₁ : Kernel} (ha : listAddTail k.links (.task k.current) q = .ok h₁)
    (hk : k₁.links = h₁) (h : schedNextRr k₁ b r = .ok (o, k')) : Relinks (leaveDels k q) k.links k'.links := by
  have hs := schedNextRr_relinks h
  unfold leaveDels
  rw [ha]
  rw [hk] at hs
  exact .addTail ha hs

theorem updateProcessStateRr_relinks {k₁ : Kernel} (h : updateProcessStateRr k k.current (some .readyqueue) = .ok k₁) :
    Relinks (if (k.task k.current).state ≠ .ST_RUN then [(k.links, .task k.current)] else []) k.links k₁.links := by
  unfold updateProcessStateRr at h
  dsimp only at h
  have hadd : ∀ {h h₁ : Heap Node}, listAddTail h (.task k.current) .readyqueue = .ok h₁ → Relinks [] h h₁ :=
    fun ha => .addTail ha (.refl _)
  split at h
  · rename_i hrun
    obtain ⟨h₁, hdel, h⟩ := bind_ok.1 h
    obtain ⟨k₂, h2, h⟩ := bind_ok.1 h
    cases h2
    obtain ⟨h₂, ha, h⟩ := bind_ok.1 h
    rw [if_neg (by simp)] at h
    cases h
    rw [if_pos hrun]
    exact .del hdel (hadd ha)
  · rename_i hrun
    obtain ⟨k₂, h2, h⟩ := bind_ok.1 h
    cases h2
    obtain ⟨h₂, ha, h⟩ := bind_ok.1 h
    rw [if_neg (by simp)] at h
    cases h
    rw [if_neg hrun]
    exact hadd ha

theorem forceTaskSwitch_relinks (h : forceTaskSwitch k b r = .ok (o, k')) :
    Relinks (switchDels k) k.links k'.links := by
  obtain ⟨k₁, h1, h⟩ := bind_ok.1 h
  unfold switchDels
  rw [h1]
  exact (updateProcessStateRr_relinks h1).trans (schedNextRr_relinks h)

/-! ### Calls that take a task struct -/

theorem takeFree_relinks {c : Slot} (hne : listEmpty k.links .freequeue = false) (h : takeFree k = .ok (c, k')) :
    Relinks (takeDels k) k.links k'.links := by
  obtain ⟨x, hx, h⟩ := bind_ok.1 h
  obtain ⟨h₁, hdel, h⟩ := bind_ok.1 h
  obtain ⟨t, -, h⟩ := bind_ok.1 h
  cases h
  unfold takeDels
  rw [if_neg (by simp [hne]), hx]
  exact .del hdel (.refl _)

/-- What fork and createthread do with the struct they have taken. -/
theorem took_relinks {c : Slot} {k₁ : Kernel} (hne : ¬ listEmpty k.links .freequeue = true) (h1 : takeFree k = .ok (c, k₁))
    (h2 : Relinks [] (copyTaskUnion k₁ k₁.current c).links k'.links) : Relinks (takeDels k) k.links k'.links := by
  have h := (takeFree_relinks (by simpa using hne) h1).trans (.copy h2)
  rwa [List.append_nil] at h

theorem takeDels_full (he : listEmpty k.links .freequeue = true) : takeDels k = [] := if_pos he

theorem forkImage_links {PT : Slot} (h : forkImage k PT = .ok k') : k'.links = k.links := by
  obtain ⟨m, -, h⟩ := bind_ok.1 h
  cases h
  rfl

theorem forkChild_links (k : Kernel) (c : Slot) (b : ℕ) : (forkChild k c b).links = k.links := by
  simp only [forkChild, setState, initStats, setStats, getTicks, Kernel.setTask]

theorem forkPages_relinks {c : Slot} {v : Word} (h : forkPages k c b = .ok (v, k')) : Relinks [] k.links k'.links := by
  unfold forkPages at h
  dsimp only at h
  split at h
  · obtain ⟨h₁, ha, h⟩ := bind_ok.1 h
    cases h
    exact .addTail ha (.refl _)
  · obtain ⟨k₁, h1, h⟩ := bind_ok.1 h
    obtain ⟨h₁, ha, h⟩ := bind_ok.1 h
    cases h
    rw [forkChild_links, forkImage_links h1] at ha
    exact .addTail ha (.refl _)

theorem sysFork_relinks {v : Word} (h : sysFork k b = .ok (v, k')) : Relinks (takeDels k) k.links k'.links := by
  unfold sysFork at h
  split at h
  · rename_i he
    cases h
    rw [takeDels_full he]
    exact .refl _
  · rename_i hne
    obtain ⟨⟨c, k₁⟩, h1, h⟩ := bind_ok.1 h
    have hp : Relinks [] (allocateDIR (copyTaskUnion k₁ k₁.current c) c).links k'.links := forkPages_relinks h
    exact took_relinks hne h1 hp

theorem allocK_links (k : Kernel) : (allocK k).2.links = k.links := by
  unfold allocK
  split
  · rfl
  split <;> rfl

theorem sysCreatethread_relinks {t f p v : Word} (h : sysCreatethread k t f p = .ok (v, k')) :
    Relinks (takeDels k) k.links k'.links := by
  unfold sysCreatethread at h
  split at h
  · rename_i he
    cases h
    rw [takeDels_full he]
    exact .refl _
  · rename_i hne
    obtain ⟨⟨c, k₁⟩, h1, h⟩ := bind_ok.1 h
    obtain ⟨m, -, h⟩ := bind_ok.1 h
    obtain ⟨h₁, ha, h⟩ := bind_ok.1 h
    cases h
    have ha : listAddTail (allocK (copyTaskUnion k₁ k₁.current c)).2.links (.task c) .readyqueue = .ok h₁ := ha
    rw [allocK_links] at ha
    exact took_relinks hne h1 (.addTail ha (.refl _))

/-! ### Threads and semaphores -/

theorem deallocK_same (k : Kernel) (p : ℕ) : (deallocK k p).2.links = k.links ∧ (deallocK k p).2.current = k.current := by
  unfold deallocK
  dsimp only
  split
  · exact ⟨rfl, rfl⟩
  split <;> exact ⟨rfl, rfl⟩

theorem sysTerminatethread_relinks (h : sysTerminatethread k b = .ok (o, k')) : Relinks (endDels k) k.links k'.links := by
  unfold sysTerminatethread at h
  unfold endDels
  dsimp only at h
  split at h
  · rename_i hneg
    rw [if_pos hneg]
    cases h
    exact .of_links (deallocK_same _ _).1
  · rename_i hneg
    rw [if_neg hneg]
    obtain ⟨h₁, ha, h⟩ := bind_ok.1 h
    rw [(deallocK_same _ _).1, (deallocK_same _ _).2] at ha
    exact leave_relinks ha rfl h

theorem semWaitEnd_links (k : Kernel) : (semWaitEnd k).2.links = k.links := by
  unfold semWaitEnd
  dsimp only
  split <;> rfl

theorem sysSemWait_relinks {i : Word} (h : sysSemWait k i b = .ok (o, k')) : Relinks (waitDels k i) k.links k'.links := by
  unfold sysSemWait at h
  unfold waitDels
  cases hv : validSem k.listSem i false with
  | none =>
    rw [hv] at h
    cases h
    exact .refl _
  | some n =>
    rw [hv] at h
    dsimp only at h ⊢
    split at h
    · rename_i hneg
      rw [if_pos (by simpa [Kernel.setSem] using hneg)]
      obtain ⟨h₁, ha, h⟩ := bind_ok.1 h
      exact leave_relinks ha rfl h
    · rename_i hneg
      rw [if_neg (by simpa [Kernel.setSem] using hneg)]
      cases h
      exact .of_links (semWaitEnd_links _)

theorem sysSemSignal_relinks {i v : Word} (h : sysSemSignal k i = .ok (v, k')) :
    Relinks (signalDels k i) k.links k'.links := by
  unfold sysSemSignal at h
  unfold signalDels
  cases hv : validSem k.listSem i false with
  | none =>
    rw [hv] at h
    cases h
    exact .refl _
  | some n =>
    rw [hv] at h
    dsimp only at h ⊢
    split at h
    · rename_i hle
      obtain ⟨x, hx, h⟩ := bind_ok.1 h
      obtain ⟨h₁, hdel, h⟩ := bind_ok.1 h
      obtain ⟨h₂, ha, h⟩ := bind_ok.1 h
      cases h
      have hx : listFirst k.links (.blocked n) = .ok x := hx
      rw [if_pos (by simpa [Kernel.setSem] using hle), hx]
      exact .del hdel (.addTail ha (.refl _))
    · rename_i hle
      rw [if_neg (by simpa [Kernel.setSem] using hle)]
      cases h
      exact .refl _

/-- By the rounds of the loop: each unlinks the first waiter. -/
theorem destroyLoop_relinks (f : ℕ) : ∀ {k k' : Kernel}, destroyLoop n f k = .ok k' →
    Relinks (destroyDels n f k) k.links k'.links := by
  induction f with
  | zero =>
    intro k k' h
    unfold destroyLoop at h
    split at h
    · cases h
      exact .refl _
    · cases h
  | succ f ih =>
    intro k k' h
    unfold destroyLoop at h
    unfold destroyDels
    split at h
    · rename_i he
      cases h
      rw [if_pos he]
      exact .refl _
    · rename_i hne
      obtain ⟨k₁, h1, h⟩ := bind_ok.1 h
      rw [if_neg hne]
      obtain ⟨x, hx, h2⟩ := bind_ok.1 h1
      obtain ⟨h₁, hdel, h2⟩ := bind_ok.1 h2
      obtain ⟨t, -, h2⟩ := bind_ok.1 h2
      obtain ⟨h₂, ha, h2⟩ := bind_ok.1 h2
      rw [hx, h1]
      refine .del hdel (.addTail ha ?_)
      cases h2
      exact ih h

theorem sysSemDestroy_relinks {i v : Word} (h : sysSemDestroy k i = .ok (v, k')) :
    Relinks (waitersDels k i) k.links k'.links := by
  unfold sysSemDestroy at h
  unfold waitersDels
  cases hv : validSem k.listSem i false with
  | none =>
    rw [hv] at h
    cases h
    exact .refl _
  | some n =>
    rw [hv] at h
    obtain ⟨k₁, h1, h⟩ := bind_ok.1 h
    have hlinks : k'.links = k₁.links := by
      cases h
      rfl
    rw [hlinks]
    exact destroyLoop_relinks _ h1

theorem sysSemInit_relinks (k : Kernel) (i value : Word) : Relinks [] k.links (sysSemInit k i value).2.links := by
  unfold sysSemInit
  split
  · exact .refl _
  · exact .initHead (.refl _)

/-! ### The other calls write no list_head -/

theorem sysWrite_links {fd buffer nbytes v : Word} (h : sysWrite k fd buffer nbytes = .ok (v, k')) :
    k'.links = k.links := by
  unfold sysWrite at h
  split at h
  · cases h; rfl
  split at h
  · cases h; rfl
  split at h
  · cases h; rfl
  obtain ⟨w, -, h⟩ := bind_ok.1 h
  cases h
  rfl

theorem sysDumpScreen_links {address v : Word} (h : sysDumpScreen k address = .ok (v, k')) :
    k'.links = k.links := by
  unfold sysDumpScreen at h
  dsimp only at h
  split at h
  · cases h; rfl
  split at h
  · cases h; rfl
  obtain ⟨s, -, h⟩ := bind_ok.1 h
  cases h
  rfl

theorem sysGetKey_links {c v : Word} (h : sysGetKey k c = .ok (v, k')) : k'.links = k.links := by
  unfold sysGetKey at h
  split at h
  · cases h; rfl
  split at h
  · cases h; rfl
  obtain ⟨m, -, h⟩ := bind_ok.1 h
  cases h
  rfl

theorem sysGetStats_links {pid st v : Word} (h : sysGetStats k pid st = .ok (v, k')) : k'.links = k.links := by
  unfold sysGetStats at h
  split at h
  · cases h; rfl
  split at h
  · cases h; rfl
  split at h
  · cases h; rfl
  obtain ⟨m, -, h⟩ := bind_ok.1 h
  cases h
  rfl

/-! ### A step -/

theorem systemCall_relinks {c : Call} (h : systemCall k b c = .ok (o, k')) : Relinks (callDels k c) k.links k'.links := by
  cases c with
  | exit =>
    obtain ⟨h₁, ha, h⟩ := bind_ok.1 h
    exact leave_relinks ha rfl h
  | fork =>
    obtain ⟨v, h, -⟩ := returning_ok.1 h
    exact sysFork_relinks h
  | createthread _ _ _ =>
    obtain ⟨v, h, -⟩ := returning_ok.1 h
    exact sysCreatethread_relinks h
  | yield => exact forceTaskSwitch_relinks h
  | terminatethread => exact sysTerminatethread_relinks h
  | semWait i => exact sysSemWait_relinks h
  | semSignal i =>
    obtain ⟨v, h, -⟩ := returning_ok.1 h
    exact sysSemSignal_relinks h
  | semDestroy i =>
    obtain ⟨v, h, -⟩ := returning_ok.1 h
    exact sysSemDestroy_relinks h
  | semInit i value =>
    cases h
    exact sysSemInit_relinks k i value
  | alloc =>
    cases h
    exact .of_links (allocK_links k)
  | dealloc address =>
    cases h
    exact .of_links (deallocK_same _ _).1
  | gettime | getpid | niSyscall =>
    cases h
    exact .refl _
  | write fd buffer nbytes =>
    obtain ⟨v, h, -⟩ := returning_ok.1 h
    exact .of_links (sysWrite_links h)
  | dumpScreen address =>
    obtain ⟨v, h, -⟩ := returning_ok.1 h
    exact .of_links (sysDumpScreen_links h)
  | getKey c =>
    obtain ⟨v, h, -⟩ := returning_ok.1 h
    exact .of_links (sysGetKey_links h)
  | getStats pid st =>
    obtain ⟨v, h, -⟩ := returning_ok.1 h
    exact .of_links (sysGetStats_links h)

/-- **`listDels` are the calls of `list_del` of a step**, in the order in which the step makes them. -/
theorem step_relinks (h : step k e = .ok (o, k')) : Relinks (listDels k e) k.links k'.links := by
  cases e with
  | sysenter c u ebp =>
    obtain ⟨k₁, h1, h⟩ := bind_ok.1 h
    have hlinks : k₁.links = k.links := by
      obtain ⟨eip, -, h1⟩ := bind_ok.1 h1
      cases h1
      rfl
    have hs := systemCall_relinks h
    rw [hlinks] at hs
    simp only [listDels, h1]
    exact hs
  | clock ebp =>
    -- the interrupt gives the CPU away only where `needs_sched_rr` says so
    have hsame : (needsSchedRr (clockEntry k)).2.links = k.links := (needsSchedRr_same (clockEntry k)).1.links
    change Relinks (if (needsSchedRr (clockEntry k)).1 then switchDels (needsSchedRr (clockEntry k)).2 else []) _ _
    change (if (needsSchedRr (clockEntry k)).1 then
      forceTaskSwitch (needsSchedRr (clockEntry k)).2 ebp .clockRoutine
      else .ok ({}, systemToUser (needsSchedRr (clockEntry k)).2)) = .ok (o, k') at h
    rw [← hsame]
    split at h
    · rename_i hn
      rw [if_pos hn]
      exact forceTaskSwitch_relinks h
    · rename_i hn
      rw [if_neg hn]
      cases h
      exact .refl _
  | keyboard c =>
    cases h
    exact .refl _
  | store addr x =>
    have h : ((k.mm.userStore k.cr3 addr x).map fun m => (({} : Out), k.setMm m)) = .ok (o, k') := h
    cases hm : k.mm.userStore k.cr3 addr x with
    | error f =>
      rw [hm] at h
      cases h
    | ok m =>
      rw [hm] at h
      cases h
      exact .refl _

end Zeos
