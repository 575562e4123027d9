import Zeos.Entry

/-!
# Faults

A null stack pointer is loaded by the scheduler only: the list functions, the
accesses to memory and the calls that keep the CPU never run into `Fault.stack`.
-/

namespace Zeos

open LinkHeap ForLoop

universe v

/-- The computation does not run into a null stack pointer. -/
def NoStack {α : Type v} (x : Except Fault α) : Prop := ∀ sw, x ≠ .error (.stack sw)

variable {α β : Type v} {x : Except Fault α} {f : α → Except Fault β}

theorem NoStack.ok (y : α) : NoStack (.ok y : Except Fault α) := fun _ h => by cases h

theorem NoStack.error {e : Fault} (he : ∀ sw, e ≠ .stack sw) : NoStack (.error e : Except Fault α) :=
  fun sw h => he sw (by cases h; rfl)

theorem NoStack.bind (hx : NoStack x) (hf : ∀ y, NoStack (f y)) : NoStack (x >>= f) := by
  intro sw h
  cases x with
  | error e => exact hx sw (by cases h; rfl)
  | ok y => exact hf y sw h

theorem NoStack.forRangeM {σ : Type v} {lo n : ℕ} {s : σ} {g : σ → ℕ → Except Fault σ}
    (hg : ∀ s i, NoStack (g s i)) : NoStack (forRangeM lo n s g) := by
  unfold ForLoop.forRangeM
  induction List.range' lo n generalizing s with
  | nil => exact .ok s
  | cons i is ih => rw [List.foldlM_cons]; exact (hg s i).bind fun s' => ih

/-! ### Lists -/

section Lists

variable {ν : Type} [DecidableEq ν] (h : Heap ν) (y z : ν) (p q : Option ν)

theorem storeNext_noStack : NoStack (storeNext h p q) := by
  cases p
  · exact .error (by simp)
  · exact .ok _

theorem storePrev_noStack : NoStack (storePrev h p q) := by
  cases p
  · exact .error (by simp)
  · exact .ok _

theorem listAddTail_noStack : NoStack (listAddTail h y z) :=
  (storePrev_noStack _ _ _).bind fun _ => (storeNext_noStack _ _ _).bind fun _ =>
    (storePrev_noStack _ _ _).bind fun _ => storeNext_noStack _ _ _

theorem listDel_noStack : NoStack (listDel h y) :=
  NoStack.bind ((storePrev_noStack _ _ _).bind fun _ => storeNext_noStack _ _ _) fun _ =>
    (storeNext_noStack _ _ _).bind fun _ => storePrev_noStack _ _ _

omit [DecidableEq ν] in
theorem listFirst_noStack : NoStack (listFirst h y) := by
  unfold listFirst
  split
  · exact .ok _
  · exact .error (by simp)

end Lists

theorem takeFree_noStack (k : Kernel) : NoStack (takeFree k) := by
  refine (listFirst_noStack _ _).bind fun l => (listDel_noStack _ _).bind fun h => NoStack.bind ?_ fun _ => .ok _
  cases l
  · exact .error (by simp)
  · exact .error (by simp)
  · exact .error (by simp)
  · exact .ok _

/-! ### Memory -/

section Memory

variable (m : Mm) (dir : Slot) (addr w : Word)

theorem translate_noStack : NoStack (m.translate dir addr) := by
  simp only [Mm.translate]
  split
  · exact .ok _
  · exact .error (by simp)

theorem loadByte_noStack : NoStack (m.loadByte dir addr) :=
  (translate_noStack _ _ _).bind fun _ => .ok _

theorem storeByte_noStack (b : Byte) : NoStack (m.storeByte dir addr b) :=
  (translate_noStack _ _ _).bind fun _ => .ok _

theorem loadWord_noStack : NoStack (m.loadWord dir addr) :=
  .forRangeM fun _ _ => (loadByte_noStack _ _ _).bind fun _ => .ok _

theorem storeWord_noStack : NoStack (m.storeWord dir addr w) :=
  .forRangeM fun _ _ => storeByte_noStack _ _ _ _

theorem loadBytes_noStack : ∀ (n : ℕ) (addr : Word), NoStack (m.loadBytes dir addr n)
  | 0, _ => .ok _
  | n + 1, _ => (loadByte_noStack _ _ _).bind fun _ => (loadBytes_noStack n _).bind fun _ => .ok _

theorem storeBytes_noStack : ∀ (bs : List Byte) (m : Mm) (addr : Word),
    NoStack (Mm.storeBytes dir m addr bs)
  | [], _, _ => .ok _
  | b :: bs, _, _ => (storeByte_noStack _ _ _ b).bind fun _ => storeBytes_noStack bs _ _

theorem copyPage_noStack (start dest : ℕ) : NoStack (m.copyPage dir start dest) :=
  (translate_noStack _ _ _).bind fun _ => (translate_noStack _ _ _).bind fun _ => .ok _

theorem userStore_noStack (b : Byte) : NoStack (m.userStore dir addr b) := by
  simp only [Mm.userStore]
  split
  · split
    · exact storeByte_noStack _ _ _ _
    · exact .error (by simp)
  · exact .error (by simp)

theorem pushArgs_noStack (userStack function param : Word) :
    NoStack (pushArgs m dir userStack function param) :=
  (storeWord_noStack _ _ _ _).bind fun _ => (storeWord_noStack _ _ _ _).bind fun _ =>
    storeWord_noStack _ _ _ _

theorem forkCopy_noStack (processPT parentPT : Slot) : NoStack (forkCopy m dir processPT parentPT) :=
  .forRangeM fun _ _ => (copyPage_noStack _ _ _ _).bind fun _ => .ok _

theorem copyFromUserLoops_noStack (n : ℕ) : NoStack (copyFromUserLoops m dir addr n) := by
  induction n using Nat.strong_induction_on generalizing addr with
  | _ n ih =>
    rw [copyFromUserLoops]
    split
    · exact (loadWord_noStack _ _ _).bind fun _ => (ih _ (by omega) _).bind fun _ => .ok _
    · exact loadBytes_noStack _ _ _ _

theorem writeLoop_noStack (s : Console) (n : ℕ) : NoStack (writeLoop m dir s addr n) := by
  induction n using Nat.strong_induction_on generalizing s addr with
  | _ n ih =>
    rw [writeLoop]
    split
    · rename_i h
      exact (copyFromUserLoops_noStack _ _ _ _).bind fun _ =>
        (ih _ (by simp only [tamBuffer] at *; omega) _ _).bind fun _ => .ok _
    · split
      · exact (copyFromUserLoops_noStack _ _ _ _).bind fun _ => .ok _
      · exact .ok _

theorem dumpLoop_noStack (s : Console) : NoStack (dumpLoop m dir addr s) :=
  .forRangeM fun _ _ => .forRangeM fun _ _ =>
    ((loadByte_noStack _ _ _).bind fun _ => (loadByte_noStack _ _ _).bind fun _ => .ok _).bind fun _ => .ok _

end Memory

/-! ### Calls -/

variable (k : Kernel)

theorem sysFork_noStack (b : ℕ) : NoStack (sysFork k b) := by
  unfold sysFork
  split
  · exact .ok _
  refine (takeFree_noStack _).bind fun x => ?_
  simp only [forkPages]
  split
  · exact (listAddTail_noStack _ _ _).bind fun _ => .ok _
  · exact NoStack.bind ((forkCopy_noStack _ _ _ _).bind fun _ => .ok _) fun _ =>
      (listAddTail_noStack _ _ _).bind fun _ => .ok _

theorem sysCreatethread_noStack (t f p : Word) : NoStack (sysCreatethread k t f p) := by
  unfold sysCreatethread
  split
  · exact .ok _
  exact (takeFree_noStack _).bind fun _ => (pushArgs_noStack _ _ _ _ _).bind fun _ =>
    (listAddTail_noStack _ _ _).bind fun _ => .ok _

theorem sysWrite_noStack (fd buffer nbytes : Word) : NoStack (sysWrite k fd buffer nbytes) := by
  unfold sysWrite
  split
  · exact .ok _
  split
  · exact .ok _
  split
  · exact .ok _
  exact (writeLoop_noStack _ _ _ _ _).bind fun _ => .ok _

theorem sysGetKey_noStack (c : Word) : NoStack (sysGetKey k c) := by
  unfold sysGetKey
  split
  · exact .ok _
  split
  · exact .ok _
  · exact (storeByte_noStack _ _ _ _).bind fun _ => .ok _

theorem sysGetStats_noStack (pid st : Word) : NoStack (sysGetStats k pid st) := by
  unfold sysGetStats
  split
  · exact .ok _
  split
  · exact .ok _
  split
  · exact .ok _
  · exact (storeBytes_noStack _ _ _ _).bind fun _ => .ok _

theorem sysDumpScreen_noStack (address : Word) : NoStack (sysDumpScreen k address) := by
  simp only [sysDumpScreen]
  split
  · exact .ok _
  split
  · exact .ok _
  · exact (dumpLoop_noStack _ _ _ _).bind fun _ => .ok _

end Zeos
