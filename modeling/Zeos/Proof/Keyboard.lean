import Zeos.Lib.Ring
import Zeos.Proof.Marks

/-!
# The keyboard buffer

The circular buffer of `io.c` is a ring of `BUFF_SIZE` cells (`CircularBuff.ring`), on which
`write_to_buffer` is a push and `read_from_buffer` a pop.

* `keyboard_fifo`: **the buffer is a bounded queue**, whatever the order of writes and reads.
* `run_keyboard`: in the running kernel the buffer is written by `keyboard_routine` and read by
  `sys_get_key`, and by nothing else.
* `run_getKey_empty`: `sys_get_key` on an empty buffer.
-/

namespace Zeos

open Execution ForLoop RingBuffer

variable {b : CircularBuff} {c : Byte} {ops : List (Op Byte)} {k k' : Kernel} {M : Machine} {tr : KTrace}

/-! ### The ring -/

def CircularBuff.ring (b : CircularBuff) : Circular Byte := ⟨b.buff, b.head, b.tail, b.isFullFlag⟩

/-- The characters in the buffer, the oldest first. -/
def CircularBuff.contents (b : CircularBuff) : List Byte := b.ring.toList buffSize

theorem CircularBuff.ring_inj {b' : CircularBuff} (h : b.ring = b'.ring) : b = b' := by
  cases b
  cases b'
  injection h with h1 h2 h3 h4
  subst h1 h2 h3 h4
  rfl

theorem writeToBuffer_ring : (b.writeToBuffer c).ring = b.ring.push buffSize c := by
  unfold CircularBuff.writeToBuffer Circular.push
  cases hf : b.isFullFlag with
  | true =>
    rw [if_neg (by decide), if_pos (show b.ring.full = true from hf)]
  | false =>
    rw [if_pos rfl, if_neg (show ¬ b.ring.full = true by simp [CircularBuff.ring, hf])]
    by_cases he : (b.head + 1) % buffSize = b.tail
    · simp [CircularBuff.ring, he]
    · simp [CircularBuff.ring, he, hf]

theorem readFromBuffer_ring : b.readFromBuffer.1 = (b.ring.pop buffSize).1 ∧
    b.readFromBuffer.2.ring = (b.ring.pop buffSize).2 := by
  unfold CircularBuff.readFromBuffer Circular.pop
  by_cases he : b.head = b.tail ∧ b.isFullFlag = false
  · rw [if_pos he, if_pos (show b.ring.head = b.ring.tail ∧ b.ring.full = false from he)]
    exact ⟨rfl, rfl⟩
  · rw [if_neg he, if_neg (show ¬ (b.ring.head = b.ring.tail ∧ b.ring.full = false) from he)]
    exact ⟨rfl, rfl⟩

theorem contents_length : b.contents.length = b.ring.count buffSize := Circular.length_toList

section

variable (hv : b.ring.Valid buffSize)

include hv

theorem writeToBuffer_contents (hc : b.contents.length < buffSize) :
    (b.writeToBuffer c).contents = b.contents ++ [c] := by
  unfold CircularBuff.contents
  rw [writeToBuffer_ring, hv.push_toList c (hv.full_false (contents_length ▸ hc))]

theorem writeToBuffer_full (hc : b.contents.length = buffSize) : b.writeToBuffer c = b := by
  apply CircularBuff.ring_inj
  rw [writeToBuffer_ring, hv.push_full c (contents_length ▸ hc)]

theorem readFromBuffer_empty (he : b.contents = []) : b.readFromBuffer = (none, b) := by
  have h0 : b.ring.count buffSize = 0 := by rw [← contents_length, he, List.length_nil]
  have hp := hv.pop_empty h0
  obtain ⟨h1, h2⟩ := readFromBuffer_ring (b := b)
  rw [hp] at h1 h2
  exact Prod.ext h1 (CircularBuff.ring_inj h2)

theorem readFromBuffer_contents {cs : List Byte} (he : b.contents = c :: cs) :
    ∃ b', b.readFromBuffer = (some c, b') ∧ b'.contents = cs := by
  have h0 : b.ring.count buffSize ≠ 0 := by
    rw [← contents_length, he]
    simp
  obtain ⟨y, hy, hl⟩ := hv.pop_toList h0
  obtain ⟨h1, h2⟩ := readFromBuffer_ring (b := b)
  have hcs : y :: (b.ring.pop buffSize).2.toList buffSize = c :: cs := hl.symm.trans he
  injection hcs with hyc hcs
  refine ⟨b.readFromBuffer.2, Prod.ext (h1.trans (by rw [hy, hyc])) rfl, ?_⟩
  rw [CircularBuff.contents, h2, hcs]

end

/-! ### Sequences of operations -/

/-- The buffer after `ops`, latest first: a push is a `write_to_buffer`, a pop a `read_from_buffer`. -/
def keyboardAfter : List (Op Byte) → CircularBuff
  | [] => {}
  | .push c :: ops => (keyboardAfter ops).writeToBuffer c
  | .pop :: ops => (keyboardAfter ops).readFromBuffer.2

/-- The characters that found room, in the order written. -/
def charsAccepted : List (Op Byte) → List Byte
  | [] => []
  | .push c :: ops => charsAccepted ops ++ if (keyboardAfter ops).contents.length < buffSize then [c] else []
  | .pop :: ops => charsAccepted ops

/-- The characters that the reads gave, in the order read. -/
def charsRead : List (Op Byte) → List Byte
  | [] => []
  | .push _ :: ops => charsRead ops
  | .pop :: ops => charsRead ops ++ (keyboardAfter ops).readFromBuffer.1.toList

/-- The ring of the buffer as the kernel starts. -/
abbrev emptyKeyboard : Circular Byte := CircularBuff.ring {}

theorem emptyKeyboard_valid : emptyKeyboard.Valid buffSize := ⟨by decide, by decide, fun _ => rfl⟩

theorem keyboardAfter_ring (ops : List (Op Byte)) : (keyboardAfter ops).ring = run buffSize emptyKeyboard ops := by
  induction ops with
  | nil => rfl
  | cons op ops ih =>
    cases op with
    | push c =>
      unfold keyboardAfter run
      rw [writeToBuffer_ring, ih]
      rfl
    | pop =>
      unfold keyboardAfter run
      rw [readFromBuffer_ring.2, ih]
      rfl

theorem keyboardAfter_valid (ops : List (Op Byte)) : (keyboardAfter ops).ring.Valid buffSize := by
  rw [keyboardAfter_ring]
  exact run_valid emptyKeyboard_valid ops

theorem charsAccepted_eq (ops : List (Op Byte)) : charsAccepted ops = accepted buffSize emptyKeyboard ops := by
  induction ops with
  | nil => rfl
  | cons op ops ih =>
    cases op with
    | push c =>
      unfold charsAccepted accepted
      rw [ih, CircularBuff.contents, Circular.length_toList, keyboardAfter_ring]
    | pop => exact ih

theorem charsRead_eq (ops : List (Op Byte)) : charsRead ops = popped buffSize emptyKeyboard ops := by
  induction ops with
  | nil => rfl
  | cons op ops ih =>
    cases op with
    | push c => exact ih
    | pop =>
      unfold charsRead popped
      rw [ih, readFromBuffer_ring.1, keyboardAfter_ring]

/-- **The keyboard buffer is a bounded queue.** After any sequence of writes and reads it holds at
most `BUFF_SIZE` characters; a write appends to them unless there are `BUFF_SIZE` already, and then
changes nothing; a read of the empty buffer gives `-1` and changes nothing, any other the oldest
character; and the characters taken in are those read and then those still there. -/
theorem keyboard_fifo (ops : List (Op Byte)) :
    let b := keyboardAfter ops
    b.contents.length ≤ buffSize ∧
    (∀ c, b.contents.length < buffSize → (b.writeToBuffer c).contents = b.contents ++ [c]) ∧
    (∀ c, b.contents.length = buffSize → b.writeToBuffer c = b) ∧
    (b.contents = [] → b.readFromBuffer = (none, b)) ∧
    (∀ c cs, b.contents = c :: cs → ∃ b', b.readFromBuffer = (some c, b') ∧ b'.contents = cs) ∧
    charsAccepted ops = charsRead ops ++ b.contents := by
  intro b
  have hv : b.ring.Valid buffSize := keyboardAfter_valid ops
  refine ⟨contents_length ▸ hv.count_le, fun c => writeToBuffer_contents hv, fun c => writeToBuffer_full hv,
    readFromBuffer_empty hv, fun c cs => readFromBuffer_contents hv, ?_⟩
  rw [charsAccepted_eq, charsRead_eq, run_fifo emptyKeyboard_valid (by decide) ops, CircularBuff.contents,
    keyboardAfter_ring]

/-! ### The kernel -/

/-- What comes back from `x` has the keyboard buffer of `k`. -/
def KeepsKbd {α : Type} (k : Kernel) (x : Except Fault (α × Kernel)) : Prop :=
  ∀ v k', x = .ok (v, k') → k'.kbd = k.kbd

theorem KeepsKbd.ok {α : Type} {v : α} (h : k'.kbd = k.kbd) : KeepsKbd k (.ok (v, k')) := by
  intro v' k'' hx
  cases hx
  exact h

theorem KeepsKbd.bind {α β : Type} {x : Except Fault α} {f : α → Except Fault (β × Kernel)}
    (h : ∀ y, x = .ok y → KeepsKbd k (f y)) : KeepsKbd k (x >>= f) := by
  intro v k' hx
  obtain ⟨y, hy, hx⟩ := bind_ok.1 hx
  exact h y hy v k' hx

theorem KeepsKbd.returning {x : Except Fault (Word × Kernel)} (h : KeepsKbd k x) : KeepsKbd k (x.map returning) := by
  intro o k' hx
  cases x with
  | error e => cases hx
  | ok y =>
    cases hx
    exact h y.1 y.2 rfl

theorem innerTaskSwitch_kbd {b : ℕ} {t : Slot} : KeepsKbd k (innerTaskSwitch k b t) := by
  intro sw k' h
  unfold innerTaskSwitch switchStack at h
  cases hn : (k.task t).registerEsp with
  | none => simp [hn] at h
  | some sp =>
    simp only [hn, Option.map_some] at h
    cases h
    rfl

theorem semWaitEnd_kbd (k : Kernel) : (semWaitEnd k).2.kbd = k.kbd := by
  unfold semWaitEnd
  simp only
  split <;> rfl

theorem resumeTask_kbd (k : Kernel) : (resumeTask k).2.kbd = k.kbd := by
  unfold resumeTask
  cases (k.task k.current).resume with
  | sysSemWait => exact semWaitEnd_kbd k
  | _ => rfl

theorem comeBack_kbd {sw : Switch} : KeepsKbd k (comeBack sw k) := by
  intro o k' h
  by_cases hst : sw.Stale
  · rw [comeBack, if_pos hst] at h
    cases h
  · rw [comeBack_ok hst] at h
    cases h
    exact resumeTask_kbd k

theorem nextTask_kbd : KeepsKbd k (nextTask k) := by
  unfold nextTask
  split
  · refine .bind fun e _ => .bind fun h _ => .bind fun t _ => .ok rfl
  · exact .ok rfl

theorem schedNextRr_kbd {b : ℕ} {r : Resume} : KeepsKbd k (schedNextRr k b r) := by
  unfold schedNextRr
  refine .bind fun y hy => .bind fun z hz => ?_
  have h1 := nextTask_kbd y.1 y.2 hy
  have h2 := innerTaskSwitch_kbd z.1 z.2 hz
  intro o k' h
  exact (comeBack_kbd o k' h).trans (h2.trans h1)

theorem requeue_kbd {t : Slot} (h : updateProcessStateRr k t (some .readyqueue) = .ok k') : k'.kbd = k.kbd := by
  have hput : ∀ k₁ : Kernel, k₁.kbd = k.kbd → (do
      let h ← listAddTail k₁.links (.task t) .readyqueue
      pure (setState (updateStats (k₁.setLinks h) t .systemTicks) t .ST_READY) : Except Fault Kernel) = .ok k' →
      k'.kbd = k.kbd := by
    intro k₁ hk₁ h
    obtain ⟨l, -, h⟩ := bind_ok.1 h
    cases h
    exact hk₁
  simp only [updateProcessStateRr] at h
  split at h
  · obtain ⟨l, -, h⟩ := bind_ok.1 h
    exact hput (k.setLinks l) rfl h
  · exact hput k rfl h

theorem forceTaskSwitch_kbd {b : ℕ} {r : Resume} : KeepsKbd k (forceTaskSwitch k b r) := by
  unfold forceTaskSwitch
  refine .bind fun k₁ h1 => ?_
  unfold KeepsKbd
  rw [← requeue_kbd h1]
  exact schedNextRr_kbd

theorem takeFree_kbd : KeepsKbd k (takeFree k) := by
  intro c k' h
  obtain ⟨l, rfl⟩ := takeFree_links h
  rfl

theorem forkPages_kbd {c : Slot} {b : ℕ} : KeepsKbd k (forkPages k c b) := by
  unfold forkPages
  simp only
  split
  · exact .bind fun l _ => .ok rfl
  · refine .bind fun k₁ h1 => .bind fun l _ => .ok ?_
    unfold forkImage at h1
    obtain ⟨m, -, h1⟩ := bind_ok.1 h1
    cases h1
    rfl

theorem sysFork_kbd {b : ℕ} : KeepsKbd k (sysFork k b) := by
  unfold sysFork
  split
  · exact .ok rfl
  refine .bind fun y hy => ?_
  intro v k' h
  exact (forkPages_kbd v k' h).trans (takeFree_kbd y.1 y.2 hy)

theorem allocK_kbd (k : Kernel) : (allocK k).2.kbd = k.kbd := by
  obtain ⟨v, m, h, -⟩ := allocK_cases k
  rw [h]
  rfl

theorem deallocK_kbd (k : Kernel) (page : ℕ) : (deallocK k page).2.kbd = k.kbd := by
  unfold deallocK
  simp only
  split
  · rfl
  split <;> rfl

theorem sysCreatethread_kbd {w f p : Word} : KeepsKbd k (sysCreatethread k w f p) := by
  unfold sysCreatethread
  split
  · exact .ok rfl
  refine .bind fun y hy => .bind fun m _ => .bind fun l _ => .ok ?_
  exact (allocK_kbd _).trans (takeFree_kbd y.1 y.2 hy)

theorem sysExit_kbd {b : ℕ} : KeepsKbd k (sysExit k b) := by
  unfold sysExit
  exact .bind fun l _ => schedNextRr_kbd

theorem sysTerminatethread_kbd {b : ℕ} : KeepsKbd k (sysTerminatethread k b) := by
  have hd := deallocK_kbd k ((k.task k.current).userEsp.toNat / pageSize)
  unfold sysTerminatethread
  simp only
  split
  · exact .ok hd
  · refine .bind fun l _ => ?_
    intro o k' h
    exact (schedNextRr_kbd o k' h).trans hd

theorem sysSemInit_kbd (k : Kernel) (i v : Word) : (sysSemInit k i v).2.kbd = k.kbd := by
  unfold sysSemInit
  split <;> rfl

theorem sysSemWait_kbd {i : Word} {b : ℕ} : KeepsKbd k (sysSemWait k i b) := by
  unfold sysSemWait
  split
  · exact .ok rfl
  simp only
  split
  · exact .bind fun l _ => schedNextRr_kbd
  · exact .ok (semWaitEnd_kbd _)

theorem sysSemSignal_kbd {i : Word} : KeepsKbd k (sysSemSignal k i) := by
  unfold sysSemSignal
  split
  · exact .ok rfl
  simp only
  split
  · exact .bind fun x _ => .bind fun h _ => .bind fun l _ => .ok rfl
  · exact .ok rfl

theorem destroyLoop_kbd {n : Sem} (f : ℕ) {k k' : Kernel} (h : destroyLoop n f k = .ok k') : k'.kbd = k.kbd :=
  destroyLoop_keeps (F := Kernel.kbd) (fun _ _ _ => rfl) f h

theorem sysSemDestroy_kbd {i : Word} : KeepsKbd k (sysSemDestroy k i) := by
  unfold sysSemDestroy
  split
  · exact .ok rfl
  · refine .bind fun k₁ h1 => ?_
    have hk₁ := destroyLoop_kbd numNodes h1
    exact .ok hk₁

theorem sysGetStats_kbd {pid st : Word} : KeepsKbd k (sysGetStats k pid st) := by
  unfold sysGetStats
  split
  · exact .ok rfl
  split
  · exact .ok rfl
  split
  · exact .ok rfl
  · exact .bind fun m _ => .ok rfl

theorem sysWrite_kbd {fd buffer nbytes : Word} : KeepsKbd k (sysWrite k fd buffer nbytes) := by
  unfold sysWrite
  split
  · exact .ok rfl
  split
  · exact .ok rfl
  split
  · exact .ok rfl
  · exact .bind fun s _ => .ok rfl

theorem sysDumpScreen_kbd {u : Word} : KeepsKbd k (sysDumpScreen k u) := by
  unfold sysDumpScreen
  simp only
  split
  · exact .ok rfl
  split
  · exact .ok rfl
  · exact .bind fun s _ => .ok rfl

/-- `sys_get_key` reads the buffer when it takes its argument. -/
theorem sysGetKey_kbd {u v : Word} (h : sysGetKey k u = .ok (v, k')) :
    k'.kbd = if accessOk verifyWrite u 4 = true then k.kbd.readFromBuffer.2 else k.kbd := by
  unfold sysGetKey at h
  by_cases hu : accessOk verifyWrite u 4 = true
  · rw [if_neg (by rw [hu]; decide)] at h
    rw [if_pos hu]
    split at h
    · rename_i hb
      cases h
      rw [hb]
    · rename_i hb
      obtain ⟨m, -, h⟩ := bind_ok.1 h
      cases h
      rw [hb]
  · rw [if_pos (by simpa using hu)] at h
    rw [if_neg hu]
    cases h
    rfl

/-- What an event does to the keyboard buffer. -/
def Event.keyOps : Event → List (Op Byte)
  | .keyboard c => if c &&& 0x80 ≠ 0 then [.push (charMap (c &&& 0x7F).toNat)] else []
  | .sysenter (.getKey u) _ _ => if accessOk verifyWrite u 4 = true then [.pop] else []
  | _ => []

/-- The writes and reads of a run, latest first. -/
def keyOps (tr : KTrace) : List (Op Byte) := tr.flatMap fun t => t.event.keyOps

/-- **Only `sys_get_key` touches the keyboard buffer.** -/
theorem systemCall_kbd {x : Call} {b : ℕ} (hx : ∀ u, x ≠ .getKey u) : KeepsKbd k (systemCall k b x) := by
  cases x with
  | exit => exact sysExit_kbd
  | fork => exact sysFork_kbd.returning
  | write fd buffer nbytes => exact sysWrite_kbd.returning
  | gettime => exact .ok rfl
  | yield => exact forceTaskSwitch_kbd
  | getpid => exact .ok rfl
  | alloc => exact .ok (allocK_kbd k)
  | dealloc address => exact .ok (deallocK_kbd k _)
  | createthread w f p => exact sysCreatethread_kbd.returning
  | terminatethread => exact sysTerminatethread_kbd
  | dumpScreen address => exact sysDumpScreen_kbd.returning
  | getKey u => exact absurd rfl (hx u)
  | semInit i v => exact .ok (sysSemInit_kbd k i v)
  | semWait i => exact sysSemWait_kbd
  | semSignal i => exact sysSemSignal_kbd.returning
  | semDestroy i => exact sysSemDestroy_kbd.returning
  | getStats pid st => exact sysGetStats_kbd.returning
  | niSyscall => exact .ok rfl

theorem clockHandler_kbd {b : ℕ} : KeepsKbd k (clockHandler k b) := by
  unfold clockHandler clockRoutine schedule
  have hn : ∀ k₁ : Kernel, (needsSchedRr k₁).2.kbd = k₁.kbd := by
    intro k₁
    unfold needsSchedRr
    split
    · rfl
    split <;> rfl
  simp only
  split
  · intro o k' h
    exact (forceTaskSwitch_kbd o k' h).trans (hn _)
  · exact .ok (hn _)

/-- What a step does to the keyboard buffer. -/
theorem Step.kbd {e : Event} {o : Out} {ops : List (Op Byte)} (h : Step k e o k') (hk : k.kbd = keyboardAfter ops) :
    k'.kbd = keyboardAfter (e.keyOps ++ ops) := by
  obtain ⟨-, h⟩ := h
  cases e with
  | sysenter x u b =>
    obtain ⟨k₁, h1, h⟩ := bind_ok.1 h
    have hk₁ : k₁.kbd = keyboardAfter ops := by
      obtain ⟨eip, -, h1⟩ := bind_ok.1 h1
      cases h1
      exact hk
    -- among the calls `get_key` alone reads from the buffer
    by_cases hx : ∃ c, x = .getKey c
    · obtain ⟨c, rfl⟩ := hx
      cases hg : sysGetKey k₁ c with
      | error f =>
        rw [systemCall, hg] at h
        cases h
      | ok y =>
        rw [systemCall, hg] at h
        cases h
        show y.2.kbd = _
        rw [sysGetKey_kbd (v := y.1) hg, Event.keyOps, hk₁]
        split <;> rfl
    · have hx' : ∀ c, x ≠ .getKey c := fun c hc => hx ⟨c, hc⟩
      have hops : (Event.sysenter x u b).keyOps = [] := by
        cases x with
        | getKey c => exact absurd rfl (hx' c)
        | _ => rfl
      rw [hops, systemCall_kbd hx' o k' h, hk₁, List.nil_append]
  | clock b =>
    rw [clockHandler_kbd o k' h, hk]
    rfl
  -- among the interrupts the keyboard's alone writes to it
  | keyboard c =>
    cases h
    show keyboardRoutine k.kbd c = _
    rw [keyboardRoutine, Event.keyOps, hk]
    split <;> rfl
  | store addr v =>
    cases hm : k.mm.userStore k.cr3 addr v with
    | error f =>
      rw [step, hm] at h
      cases h
    | ok m =>
      rw [step, hm] at h
      cases h
      exact hk

/-- The devices are as they were when `boot` ends. -/
theorem boot_devices (h : boot M = .ok k) : k.kbd = {} ∧ k.console = {} := by
  unfold boot at h
  obtain ⟨k₁, h1, h⟩ := bind_ok.1 h
  obtain ⟨k₂, h2, h⟩ := bind_ok.1 h
  unfold initSched at h1
  obtain ⟨k₀, h0, h1⟩ := bind_ok.1 h1
  obtain ⟨l₀, hf, -⟩ := initFreequeue_ok (initMm M.layout (reset M))
  cases hf.symm.trans h0
  cases h1
  unfold initIdle at h2
  obtain ⟨⟨c, k₃⟩, h3, h2⟩ := bind_ok.1 h2
  obtain ⟨l₃, rfl⟩ := takeFree_links h3
  cases h2
  unfold initTask1 at h
  obtain ⟨⟨c', k₄⟩, h4, h⟩ := bind_ok.1 h
  obtain ⟨l₄, rfl⟩ := takeFree_links h4
  cases h
  exact ⟨rfl, rfl⟩

/-- **The keyboard buffer of the running kernel** is that of the keys released and read so far. -/
theorem run_keyboard (hr : KRun M tr k) : k.kbd = keyboardAfter (keyOps tr) :=
  hr.induct (P := fun tr k => k.kbd = keyboardAfter (keyOps tr)) (fun _ hk => (boot_devices hk).1)
    fun _ ih hs => Step.kbd hs ih

/-- `sys_get_key` with nothing to read returns `-1` and changes nothing. -/
theorem run_getKey_empty (hr : KRun M tr k) {u : Word} (hu : accessOk verifyWrite u 4 = true)
    (he : k.kbd.contents = []) : sysGetKey k u = .ok (-1, k) := by
  have hv : k.kbd.ring.Valid buffSize := by
    rw [run_keyboard hr]
    exact keyboardAfter_valid _
  unfold sysGetKey
  rw [if_neg (by rw [hu]; decide), readFromBuffer_empty hv he]

end Zeos
