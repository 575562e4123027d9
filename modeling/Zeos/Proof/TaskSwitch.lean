import Zeos.Assembly
import Zeos.Sched

/-!
# The task switch, by its instructions

`task_switch`, `setMSR` and `switch_stack` are given; of `inner_task_switch` between them it is known which
arguments it passes, that it keeps a frame pointer, and that it stays on its own stack.

* `setMSR_eventually`, `switchStack_eventually`, `inner_eventually`: the functions on the way, one after the other.
* `taskSwitch_eventually`: a switch goes on where the stack of the new task says.
* `taskSwitch_resumes`: **it comes out of the call of `task_switch` that the new task had made.**
-/

namespace Zeos

open X86

namespace Asm

/-! ### The task array -/

def sizeofTaskStruct : ℕ := 64

def offsetRegisterEsp : Long := 24

def taskAddr (K : KernelSymbols) (s : Slot) : Long := K.task + BitVec.ofNat 32 (4096 * s.val)

/-- `&task[s].task.register_esp` -/
def registerEspAddr (K : KernelSymbols) (s : Slot) : Long := taskAddr K s + offsetRegisterEsp

/-- `KERNEL_ESP(&task[s])` -/
def kernelEsp (K : KernelSymbols) (s : Slot) : Long := taskAddr K s + 4096

/-- How far into `task[s]` an address is. -/
def into (K : KernelSymbols) (s : Slot) (a : Long) : ℕ := (a - taskAddr K s).toNat

/-- `n` longs from `a` on are in the kernel stack of `s`, and off its task struct. -/
structure OnStack (K : KernelSymbols) (s : Slot) (a : Long) (n : ℕ) : Prop where
  struct : sizeofTaskStruct ≤ into K s a
  top : into K s a + 4 * n ≤ 4096

/-- The longs of the task structs and of their stacks that code running for `cur` leaves alone while its frame is
at `frame`: all but those of its stack that are below. -/
def leftAlone (K : KernelSymbols) (cur : Slot) (frame : Long) : Set Long :=
  {a | ∃ s, into K s a + 4 ≤ 4096 ∧ (s = cur → into K s a + 4 ≤ sizeofTaskStruct ∨ into K s frame ≤ into K s a)}

variable {P : Program} {K : KernelSymbols} {Q : Core → Prop} {m : Core} {cur new s t : Slot} {a b : Long}

theorem into_add {k : ℕ} (h : into K s a + k < 2 ^ 32) : into K s (a + BitVec.ofNat 32 k) = into K s a + k := by
  unfold into at *
  bv_omega

theorem into_sub {k : ℕ} (h : k ≤ into K s a) : into K s (a - BitVec.ofNat 32 k) = into K s a - k := by
  unfold into at *
  bv_omega

theorem into_registerEsp : into K s (registerEspAddr K s) = 24 := by
  unfold into registerEspAddr offsetRegisterEsp
  bv_omega

theorem into_behind_registerEsp : into K s (registerEspAddr K s + 4) = 28 := by
  unfold into registerEspAddr offsetRegisterEsp
  bv_omega

theorem and_page (a : Long) : a &&& 0xFFFFF000#32 = (a >>> 12) <<< 12 := by
  have hmask : ∀ i : Fin 32, (0xFFFFF000#32).getLsbD i = decide (12 ≤ i.val) := by decide
  apply BitVec.eq_of_getLsbD_eq
  intro i hi
  have h := hmask ⟨i, hi⟩
  rw [BitVec.getLsbD_and, h]
  simp only [BitVec.getLsbD_shiftLeft, BitVec.getLsbD_ushiftRight, hi, decide_true, Bool.true_and]
  by_cases h12 : i < 12
  · simp [h12, Nat.not_le.2 h12]
  · have hle := Nat.not_lt.1 h12
    simp [h12, hle]

theorem mask_page (a : Long) : (a &&& 0xFFFFF000#32).toNat = a.toNat / 4096 * 4096 := by
  have ha := a.isLt
  rw [and_page, BitVec.toNat_shiftLeft, BitVec.toNat_ushiftRight, Nat.shiftRight_eq_div_pow, Nat.shiftLeft_eq]
  omega

/-- `current()`: an address on the stack of a task, masked, is the address of its struct. -/
theorem current_mask (halign : 4096 ∣ K.task.toNat) (hwrap : K.task.toNat + 4096 * nrTasks ≤ 2 ^ 32)
    (h : into K s a < 4096) : a &&& 0xFFFFF000#32 = taskAddr K s := by
  obtain ⟨n, hn⟩ := halign
  have hs := s.isLt
  have htask : (taskAddr K s).toNat = 4096 * (n + s.val) := by
    unfold taskAddr
    simp only [nrTasks] at hs hwrap
    bv_omega
  have haddr : a.toNat = 4096 * (n + s.val) + into K s a := by
    unfold into
    have := (taskAddr K s).isLt
    have := a.isLt
    unfold into at h
    bv_omega
  apply BitVec.eq_of_toNat_eq
  rw [mask_page, htask, haddr]
  omega

/-- The pages of two tasks are apart. -/
theorem off_of_page {n : ℕ} (h : s ≠ t) (ha : into K s a + 4 ≤ 4096) (hn : 4 * n ≤ into K t b)
    (hb : into K t b ≤ 4096) : Off n b a := by
  have hs := s.isLt
  have ht := t.isLt
  have hne : s.val ≠ t.val := fun he => h (Fin.ext he)
  unfold into taskAddr at *
  unfold Off
  generalize s.val = i at *
  generalize t.val = j at *
  simp only [nrTasks] at hs ht
  bv_omega

theorem leftAlone_off {n : ℕ} {frame : Long} (ha : a ∈ leftAlone K cur frame)
    (hn : sizeofTaskStruct + 4 * n ≤ into K cur b) (hb : into K cur b ≤ into K cur frame)
    (hf : into K cur frame ≤ 4096) : Off n b a := by
  obtain ⟨s, hpage, hcur⟩ := ha
  by_cases hs : s = cur
  · subst hs
    unfold sizeofTaskStruct into Off at *
    rcases hcur rfl with h | h <;> bv_omega
  · exact off_of_page hs hpage (by omega) (by omega)

/-! ### `setMSR` -/

/-- `setMSR` has come back to `back`. -/
structure MsrSet (back n hi lo : Long) (m m' : Core) : Prop where
  eip : m'.eip = back
  esp : m'.cpu.reg .esp = m.cpu.reg .esp + 4
  ebp : m'.cpu.reg .ebp = m.cpu.reg .ebp
  msr : m'.msr = Function.update m.msr n (hi ++ lo)
  load : ∀ a, Off 1 (m.cpu.reg .esp) a → m'.cpu.load a = m.cpu.load a
  readable : ∀ a, m'.cpu.readable a = m.cpu.readable a

theorem setMSR_eventually {back n hi lo : Long} (hat : P.At setMSR m.eip)
    (hstack : m.cpu.Holds (m.cpu.reg .esp) [back, n, hi, lo]) (hroom : m.cpu.readable (m.cpu.reg .esp - 4) = true) :
    Eventually P (MsrSet back n hi lo m) m := by
  let c := m.cpu
  let c₁ := c.pushed (c.reg .ebp)
  let c₂ := c₁.setReg .ebp (c.reg .esp - 4)
  let c₃ := ((c₂.setReg .eax lo).setReg .edx hi).setReg .ecx n
  have hrow : c₁.Holds (c.reg .esp - 4) [c.reg .ebp, back, n, hi, lo] := by
    rw [← pushed_esp c (c.reg .ebp)]
    exact @holds_pushes c [c.reg .ebp] [back, n, hi, lo] (by simp) ⟨hroom, trivial⟩ hstack
  have hload : ∀ a, c₃.load a = c₁.load a := fun _ => rfl
  have hesp : c₃.reg .esp = c.reg .esp - 4 := by
    simp only [c₃, c₂, setReg_of_ne (by decide : Reg.esp ≠ .ecx), setReg_of_ne (by decide : Reg.esp ≠ .edx),
      setReg_of_ne (by decide : Reg.esp ≠ .eax), setReg_of_ne (by decide : Reg.esp ≠ .ebp)]
    exact pushed_esp _ _
  have hlo : c₁.load (c.reg .esp - 4 + 0x10) = .ok lo := holds_get (i := 4) hrow rfl
  have hhi : c₁.load (c.reg .esp - 4 + 0xc) = .ok hi := holds_get (i := 3) hrow rfl
  have hn : c₁.load (c.reg .esp - 4 + 0x8) = .ok n := holds_get (i := 2) hrow rfl
  have hops : runOps [.push (.reg .ebp), .mov (.reg .esp) (.reg .ebp), .load 0x10 .ebp .eax, .load 0xc .ebp .edx,
      .load 0x8 .esp .ecx] c = .ok c₃ := by
    have hpush : Op.run c (.push (.reg .ebp)) = .ok c₁ := if_pos hroom
    have hmov : Op.run c₁ (.mov (.reg .esp) (.reg .ebp)) = .ok c₂ := by
      have hvalue : c₁.value (.reg .esp) = c.reg .esp - 4 := pushed_esp _ _
      rw [Op.run, hvalue]
      rfl
    have heax : Op.run c₂ (.load 0x10 .ebp .eax) = .ok (c₂.setReg .eax lo) := by
      have h : c₂.load (c₂.reg .ebp + 0x10) = .ok lo := by
        rw [setReg_self]
        exact hlo
      rw [Op.run, h]
      rfl
    have hedx : Op.run (c₂.setReg .eax lo) (.load 0xc .ebp .edx) = .ok ((c₂.setReg .eax lo).setReg .edx hi) := by
      have h : (c₂.setReg .eax lo).load ((c₂.setReg .eax lo).reg .ebp + 0xc) = .ok hi := by
        rw [setReg_of_ne (by decide), setReg_self]
        exact hhi
      rw [Op.run, h]
      rfl
    have hecx : Op.run ((c₂.setReg .eax lo).setReg .edx hi) (.load 0x8 .esp .ecx) = .ok c₃ := by
      have hesp₂ : ((c₂.setReg .eax lo).setReg .edx hi).reg .esp = c.reg .esp - 4 := hesp
      have h : ((c₂.setReg .eax lo).setReg .edx hi).load (c.reg .esp - 4 + 0x8) = .ok n := hn
      rw [Op.run, hesp₂, h]
      rfl
    simp only [runOps, List.foldlM_cons, List.foldlM_nil, hpush, hmov, heax, hedx, hecx, bind, Except.bind, pure,
      Except.pure]
  refine eventually_ops (l := [.push (.reg .ebp), .mov (.reg .esp) (.reg .ebp), .load 0x10 .ebp .eax,
    .load 0xc .ebp .edx, .load 0x8 .esp .ecx]) hat hops fun a₁ h₁ => ?_
  let m₁ (a : Long) : Core := { m.go c₃ a with msr := Function.update m.msr n (hi ++ lo) }
  refine eventually_inst m₁ h₁ (fun a => ?_) fun a₂ h₂ => ?_
  · have hregs : c₃.reg .ecx = n ∧ c₃.reg .edx = hi ∧ c₃.reg .eax = lo := by simp [c₃, Cpu.setReg]
    rw [Inst.run, go_cpu, hregs.1, hregs.2.1, hregs.2.2]
    rfl
  have hleft : c₃.Holds (c₃.reg .esp) [c.reg .ebp, back, n, hi, lo] := by
    rw [hesp]
    exact hrow.congr hload
  have hpop : runOps [.pop (.reg .ebp)] (m₁ a₂).cpu = .ok (c₃.popped (.reg .ebp) (c.reg .ebp)) :=
    (@pops_run c₃ [.reg .ebp] [c.reg .ebp] [back, n, hi, lo] (by decide) rfl hleft).1
  have hrest := (@pops_run c₃ [.reg .ebp] [c.reg .ebp] [back, n, hi, lo] (by decide) rfl hleft).2
  refine eventually_ops (m := m₁ a₂) (l := [.pop (.reg .ebp)]) h₂ hpop fun a₃ h₃ => ?_
  refine eventually_ret h₃ hrest.1 (.here ⟨rfl, ?_, ?_, rfl, fun a ha => ?_, fun _ => rfl⟩)
  · rw [go_cpu, setReg_self, go_cpu, popped_esp (by decide), hesp]
    change c.reg .esp - 4 + 4 + 4 = c.reg .esp + 4
    bv_omega
  · rw [go_cpu, setReg_of_ne (by decide), go_cpu]
    exact popped_has c₃ (.reg .ebp) (c.reg .ebp)
  · exact @load_pushes c [c.reg .ebp] a (by simp) ha

/-! ### `switch_stack` -/

/-- Out of `switch_stack`, on the stack of the task that was loaded. -/
structure Loaded (save sp fp back : Long) (m m' : Core) : Prop where
  eip : m'.eip = back
  esp : m'.cpu.reg .esp = sp + 8
  ebp : m'.cpu.reg .ebp = fp
  saved : m'.cpu.load save = .ok (m.cpu.reg .ebp)
  msr : m'.msr = m.msr
  load : ∀ a, Off 1 (save + 4) a → m'.cpu.load a = m.cpu.load a

theorem switchStack_eventually {r save sp fp back : Long} (hat : P.At switchStack m.eip)
    (hargs : m.cpu.Holds (m.cpu.reg .esp) [r, save, sp]) (hsave : m.cpu.readable save = true)
    (hoff : Off 1 (save + 4) (m.cpu.reg .esp + 8)) (hsp : Off 1 (save + 4) sp ∧ Off 1 (save + 4) (sp + 4))
    (hrow : m.cpu.Holds sp [fp, back]) : Eventually P (Loaded save sp fp back m) m := by
  let c := m.cpu
  let c₁ := c.setReg .eax save
  let c₂ := c₁.stored save (c.reg .ebp)
  let c₃ := c₂.setReg .esp sp
  have hload : ∀ a, Off 1 (save + 4) a → c₂.load a = c.load a := fun a ha => load_stored ha _
  have hops : runOps [.load 4 .esp .eax, .store .ebp 0 .eax, .load 8 .esp .esp] c = .ok c₃ := by
    have hfirst : c.load (c.reg .esp + 4) = .ok save := holds_get (i := 1) hargs rfl
    have heax : Op.run c (.load 4 .esp .eax) = .ok c₁ := by
      rw [Op.run, hfirst]
      rfl
    have hstore : Op.run c₁ (.store .ebp 0 .eax) = .ok c₂ := by
      have haddr : c₁.reg .eax + 0 = save := (BitVec.add_zero _).trans (setReg_self _ _ _)
      have hebp : c₁.reg .ebp = c.reg .ebp := setReg_of_ne (by decide) _ _
      rw [Op.run, haddr, hebp]
      exact if_pos hsave
    have hesp : Op.run c₂ (.load 8 .esp .esp) = .ok c₃ := by
      have h : c₂.load (c₂.reg .esp + 8) = .ok sp := by
        have hreg : c₂.reg .esp = c.reg .esp := setReg_of_ne (t := .esp) (r := .eax) (by decide) c save
        rw [hreg, hload _ hoff]
        exact holds_get (i := 2) hargs rfl
      rw [Op.run, h]
      rfl
    simp only [runOps, List.foldlM_cons, List.foldlM_nil, heax, hstore, hesp, bind, Except.bind, pure, Except.pure]
  refine eventually_ops (l := [.load 4 .esp .eax, .store .ebp 0 .eax, .load 8 .esp .esp]) hat hops fun a₁ h₁ => ?_
  have hstack : c₃.Holds (c₃.reg .esp) [fp, back] := by
    have hloaded : c₂.Holds sp [fp, back] :=
      ⟨(hload _ hsp.1).trans hrow.1, (hload _ hsp.2).trans hrow.2.1, trivial⟩
    have hesp : c₃.reg .esp = sp := setReg_self _ _ _
    rw [hesp]
    exact hloaded.congr fun _ => rfl
  obtain ⟨hpop, hrest⟩ := @pops_run c₃ [.reg .ebp] [fp] [back] (by decide) rfl hstack
  refine eventually_ops (m := m.go c₃ a₁) (l := [.pop (.reg .ebp)]) h₁ hpop fun a₂ h₂ => ?_
  refine eventually_ret h₂ hrest.1 (.here ⟨rfl, ?_, ?_, ?_, rfl, fun a ha => ?_⟩)
  · have hesp : (c₃.popped (.reg .ebp) fp).reg .esp = c₃.reg .esp + 4 := popped_esp (by decide) _
    have hsp₃ : c₃.reg .esp = sp := setReg_self _ _ _
    change (c₃.popped (.reg .ebp) fp).reg .esp + 4 = sp + 8
    rw [hesp, hsp₃]
    bv_omega
  · rw [go_cpu, setReg_of_ne (by decide), go_cpu]
    exact popped_has c₃ (.reg .ebp) fp
  · exact load_eq_ok.2 ⟨hsave, long_stored _ _⟩
  · exact hload a ha

/-! ### `inner_task_switch` -/

/-- A call of `inner_task_switch(&task[new])` on the stack of `cur`, with room for `2 * d` longs. -/
structure Inner (K : KernelSymbols) (d : ℕ) (cur new : Slot) (next : Long) (m : Core) : Prop where
  eip : m.eip = K.innerTaskSwitch
  args : m.cpu.Holds (m.cpu.reg .esp) [next, taskAddr K new]
  deep : sizeofTaskStruct + 8 * d ≤ into K cur (m.cpu.reg .esp)
  top : into K cur (m.cpu.reg .esp) + 8 ≤ 4096
  room : m.cpu.Room (2 * d) (m.cpu.reg .esp)
  tss : m.cpu.readable K.tssEsp0 = true

/-- From there it has come to its call of `setMSR`. -/
structure ToMSR (K : KernelSymbols) (d : ℕ) (cur new : Slot) (m m' : Core) : Prop where
  eip : m'.eip = K.setMSR
  ebp : m'.cpu.reg .ebp = m.cpu.reg .esp - 4
  frame : m'.cpu.load (m.cpu.reg .esp - 4) = .ok (m.cpu.reg .ebp)
  args : m'.cpu.Holds (m'.cpu.reg .esp) [K.msrSet, 0x175, 0, kernelEsp K new]
  deep : sizeofTaskStruct + 4 * d ≤ into K cur (m'.cpu.reg .esp)
  below : into K cur (m'.cpu.reg .esp) + 16 ≤ into K cur (m.cpu.reg .esp - 4)
  room : m'.cpu.Room d (m'.cpu.reg .esp)
  esp0 : m'.cpu.load K.tssEsp0 = .ok (kernelEsp K new)
  load : ∀ a ∈ leftAlone K cur (m.cpu.reg .esp), m'.cpu.load a = m.cpu.load a

/-- Behind that call, with its frame at `frame`. -/
structure MsrDone (K : KernelSymbols) (d : ℕ) (cur new : Slot) (frame sp : Long) (m : Core) : Prop where
  eip : m.eip = K.msrSet
  ebp : m.cpu.reg .ebp = frame
  deep : sizeofTaskStruct + 4 * d ≤ into K cur (m.cpu.reg .esp)
  below : into K cur (m.cpu.reg .esp) + 12 ≤ into K cur frame
  top : into K cur frame ≤ 4084
  room : m.cpu.Room d (m.cpu.reg .esp)
  param : m.cpu.load (frame + 8) = .ok (taskAddr K new)
  saved : m.cpu.load (registerEspAddr K new) = .ok sp

/-- From there it has come to its call of `switch_stack`, on the arguments `&current()->register_esp` and
`new->task.register_esp`. -/
structure ToSwitchStack (K : KernelSymbols) (cur : Slot) (frame sp : Long) (m m' : Core) : Prop where
  eip : m'.eip = K.switchStack
  ebp : m'.cpu.reg .ebp = frame
  args : ∃ r, m'.cpu.Holds (m'.cpu.reg .esp) [r, registerEspAddr K cur, sp]
  deep : sizeofTaskStruct ≤ into K cur (m'.cpu.reg .esp)
  below : into K cur (m'.cpu.reg .esp) + 12 ≤ into K cur frame
  msr : m'.msr = m.msr
  esp0 : m'.cpu.load K.tssEsp0 = m.cpu.load K.tssEsp0
  load : ∀ a ∈ leftAlone K cur frame, m'.cpu.load a = m.cpu.load a

theorem ToMSR.after {d : ℕ} (h : ToMSR K d cur new m m') : ToMSR K d cur new m (m'.after m) :=
  ⟨h.eip, h.ebp, h.frame, h.args, h.deep, h.below, h.room, h.esp0, h.load⟩

theorem ToSwitchStack.after {frame sp : Long} (h : ToSwitchStack K cur frame sp m m') :
    ToSwitchStack K cur frame sp m (m'.after m) := ⟨h.eip, h.ebp, h.args, h.deep, h.below, h.msr, h.esp0, h.load⟩

/-- The code that a task switch goes through. `inner_task_switch` needs no more than `d` longs of stack for each of
its calls. -/
structure SwitchCode (P : Program) (K : KernelSymbols) (d : ℕ) : Prop where
  setMSR : P.At Asm.setMSR K.setMSR
  switchStack : P.At Asm.switchStack K.switchStack
  inner_text : P.text K.innerTaskSwitch = none
  inner_total : ∀ cur new next m, Inner K d cur new next m → ∃ m', P.outside m m'
  inner : ∀ cur new next m m', Inner K d cur new next m → P.outside m m' → ToMSR K d cur new m m' ∧ m'.msr = m.msr
  msrSet_text : P.text K.msrSet = none
  msrSet_total : ∀ cur new frame sp m, MsrDone K d cur new frame sp m → ∃ m', P.outside m m'
  msrSet : ∀ cur new frame sp m m', MsrDone K d cur new frame sp m → P.outside m m' →
    ToSwitchStack K cur frame sp m m'
  tss : ∀ s b, 4 ≤ into K s b → into K s b ≤ 4096 → Off 1 b K.tssEsp0

variable {d : ℕ} {frame sp fp back next : Long}

theorem mem_leftAlone_registerEsp : registerEspAddr K t ∈ leftAlone K cur frame := by
  refine ⟨t, ?_, fun _ => .inl ?_⟩ <;> rw [into_registerEsp] <;> decide

theorem mem_leftAlone_above (ha : into K cur a + 4 ≤ 4096) (h : into K cur frame ≤ into K cur a) :
    a ∈ leftAlone K cur frame := ⟨cur, ha, fun _ => .inr h⟩

theorem mem_leftAlone_other (h : s ≠ cur) (ha : into K s a + 4 ≤ 4096) : a ∈ leftAlone K cur frame :=
  ⟨s, ha, fun hs => absurd hs h⟩

theorem leftAlone_mono {frame' : Long} (h : into K cur frame' ≤ into K cur frame) (ha : a ∈ leftAlone K cur frame) :
    a ∈ leftAlone K cur frame' := by
  obtain ⟨s, hpage, hcur⟩ := ha
  refine ⟨s, hpage, ?_⟩
  rintro rfl
  exact (hcur rfl).imp_right h.trans

theorem off_registerEsp (ha : sizeofTaskStruct ≤ into K s a) (hpage : into K s a + 4 ≤ 4096) :
    Off 1 (registerEspAddr K s + 4) a := by
  unfold sizeofTaskStruct into registerEspAddr offsetRegisterEsp Off at *
  bv_omega

/-- The processor has left `inner_task_switch` of `cur`, into what `new` had on its stack. -/
structure Left (K : KernelSymbols) (cur new : Slot) (sp fp back : Long) (m m' : Core) : Prop where
  eip : m'.eip = back
  esp : m'.cpu.reg .esp = sp + 8
  ebp : m'.cpu.reg .ebp = fp
  saved : m'.cpu.load (registerEspAddr K cur) = .ok (m.cpu.reg .esp - 4)
  frame : m'.cpu.load (m.cpu.reg .esp - 4) = .ok (m.cpu.reg .ebp)
  msr : m'.msr = Function.update m.msr 0x175 (0#32 ++ kernelEsp K new)
  esp0 : m'.cpu.load K.tssEsp0 = .ok (kernelEsp K new)
  load : ∀ a ∈ leftAlone K cur (m.cpu.reg .esp), Off 1 (registerEspAddr K cur + 4) a → m'.cpu.load a = m.cpu.load a

theorem inner_eventually (hP : SwitchCode P K d) (hm : Inner K d cur new next m) (hd : 0 < d) (hne : new ≠ cur)
    (hsave : m.cpu.readable (registerEspAddr K cur) = true) (hsp : m.cpu.load (registerEspAddr K new) = .ok sp)
    (hnew : OnStack K new sp 2) (hrow : m.cpu.Holds sp [fp, back]) :
    Eventually P (Left K cur new sp fp back m) m := by
  have hdeep := hm.deep
  have htop := hm.top
  have hframe : into K cur (m.cpu.reg .esp - 4) = into K cur (m.cpu.reg .esp) - 4 := by
    have h4 : 4 ≤ into K cur (m.cpu.reg .esp) := by omega
    exact into_sub h4
  have hframe' : into K cur (m.cpu.reg .esp - 4) ≤ into K cur (m.cpu.reg .esp) := by omega
  refine eventually_outside (by rw [hm.eip]; exact hP.inner_text) (hP.inner_total _ _ _ _ hm) fun m₁ hstep₁ => ?_
  obtain ⟨h₁, hmsr₁⟩ := hP.inner _ _ _ _ _ hm hstep₁
  replace h₁ := h₁.after
  replace hmsr₁ : (m₁.after m).msr = m.msr := hmsr₁
  generalize m₁.after m = m₁ at h₁ hmsr₁ ⊢
  have hbelow₁ := h₁.below
  have hdeep₁ := h₁.deep
  -- the push in `setMSR` is below everything that is left alone
  have hpush : ∀ a ∈ leftAlone K cur (m.cpu.reg .esp - 4), Off 1 (m₁.cpu.reg .esp) a := by
    intro a ha
    exact leftAlone_off ha (by omega) (by omega) (by omega)
  have hsubset : ∀ a ∈ leftAlone K cur (m.cpu.reg .esp), a ∈ leftAlone K cur (m.cpu.reg .esp - 4) := fun a ha =>
    leftAlone_mono hframe' ha
  refine (setMSR_eventually (by rw [h₁.eip]; exact hP.setMSR) h₁.args (h₁.room.mono hd).1).trans fun m₂ h₂ => ?_
  have hload₂ : ∀ a ∈ leftAlone K cur (m.cpu.reg .esp), m₂.cpu.load a = m.cpu.load a := fun a ha =>
    (h₂.load a (hpush a (hsubset a ha))).trans (h₁.load a ha)
  have hdone : MsrDone K d cur new (m.cpu.reg .esp - 4) sp m₂ := by
    have hesp : into K cur (m₂.cpu.reg .esp) = into K cur (m₁.cpu.reg .esp) + 4 := by
      rw [h₂.esp]
      exact into_add (k := 4) (by omega)
    refine ⟨h₂.eip, h₂.ebp.trans h₁.ebp, by omega, by omega, by omega, ?_, ?_, ?_⟩
    · have hback : m₁.cpu.reg .esp + 4 - 4 = m₁.cpu.reg .esp := BitVec.add_sub_cancel _ _
      have hroom : m₁.cpu.Room (d + 1) (m₁.cpu.reg .esp + 4) :=
        ⟨by rw [hback]; exact (load_eq_ok.1 h₁.args.1).1, by rw [hback]; exact h₁.room⟩
      rw [h₂.esp]
      exact (hroom.mono (by omega)).congr h₂.readable
    · have hparam : m.cpu.reg .esp - 4 + 8 = m.cpu.reg .esp + 4 := by bv_omega
      have hinto : into K cur (m.cpu.reg .esp + 4) = into K cur (m.cpu.reg .esp) + 4 := into_add (k := 4) (by omega)
      rw [hparam, hload₂ _ (mem_leftAlone_above (by omega) (by omega))]
      exact hm.args.2.1
    · rw [hload₂ _ mem_leftAlone_registerEsp]
      exact hsp
  refine eventually_outside (by rw [h₂.eip]; exact hP.msrSet_text) (hP.msrSet_total _ _ _ _ _ hdone)
    fun m₃ hstep₃ => ?_
  have h₃ := (hP.msrSet _ _ _ _ _ _ hdone hstep₃).after
  generalize m₃.after m₂ = m₃ at h₃ ⊢
  have hdeep₃ := h₃.deep
  have hbelow₃ := h₃.below
  have hload₃ : ∀ a ∈ leftAlone K cur (m.cpu.reg .esp), m₃.cpu.load a = m.cpu.load a := fun a ha =>
    (h₃.load a (hsubset a ha)).trans (hload₂ a ha)
  have hpage : into K new sp + 8 ≤ 4096 := hnew.top
  have hsp4 : into K new (sp + 4) = into K new sp + 4 := into_add (k := 4) (by omega)
  have hregister : into K cur (registerEspAddr K cur + 4) = 28 := into_behind_registerEsp
  have hapart : Off 1 (registerEspAddr K cur + 4) sp ∧ Off 1 (registerEspAddr K cur + 4) (sp + 4) :=
    ⟨off_of_page (K := K) hne (by omega) (by omega) (by omega),
      off_of_page (K := K) hne (by omega) (by omega) (by omega)⟩
  have hloaded : m₃.cpu.Holds sp [fp, back] := by
    refine ⟨?_, ?_, trivial⟩
    · rw [hload₃ _ (mem_leftAlone_other hne (by omega))]
      exact hrow.1
    · rw [hload₃ _ (mem_leftAlone_other hne (by omega))]
      exact hrow.2.1
  obtain ⟨r, hargs⟩ := h₃.args
  have hesp8 : into K cur (m₃.cpu.reg .esp + 8) = into K cur (m₃.cpu.reg .esp) + 8 := into_add (k := 8) (by omega)
  have hreadable : m₃.cpu.readable (registerEspAddr K cur) = true :=
    readable_of_load (hload₃ _ mem_leftAlone_registerEsp) hsave
  refine (switchStack_eventually (by rw [h₃.eip]; exact hP.switchStack) hargs hreadable
    (off_registerEsp (by omega) (by omega)) hapart hloaded).mono fun m' h' => ?_
  have hframeLong : m₃.cpu.load (m.cpu.reg .esp - 4) = .ok (m.cpu.reg .ebp) := by
    have hmem : m.cpu.reg .esp - 4 ∈ leftAlone K cur (m.cpu.reg .esp - 4) := mem_leftAlone_above (by omega) le_rfl
    rw [h₃.load _ hmem, h₂.load _ (hpush _ hmem)]
    exact h₁.frame
  refine ⟨h'.eip, h'.esp, h'.ebp, ?_, ?_, ?_, ?_, fun a ha hoff => (h'.load a hoff).trans (hload₃ a ha)⟩
  · rw [h'.saved, h₃.ebp]
  · rw [h'.load _ (off_registerEsp (by omega) (by omega))]
    exact hframeLong
  · rw [h'.msr, h₃.msr, h₂.msr, hmsr₁]
    rfl
  · have htss : Off 1 (m₁.cpu.reg .esp) K.tssEsp0 := hP.tss cur _ (by omega) (by omega)
    rw [h'.load _ (hP.tss cur _ (by omega) (by omega)), h₃.esp0, h₂.load _ htss]
    exact h₁.esp0

/-! ### `task_switch` -/

/-- What a call of `task_switch` has to bring back. -/
structure Context where
  ebx : Long
  esi : Long
  edi : Long
  ebp : Long
  /-- Behind the return. -/
  esp : Long
  eip : Long

def contextOf (m : Core) (back : Long) : Context :=
  ⟨m.cpu.reg .ebx, m.cpu.reg .esi, m.cpu.reg .edi, m.cpu.reg .ebp, m.cpu.reg .esp + 4, back⟩

/-- `cur` calls `task_switch(&task[new])`. -/
structure Calls (P : Program) (K : KernelSymbols) (d : ℕ) (cur new : Slot) (back : Long) (m : Core) : Prop where
  code : P.At (taskSwitch K) m.eip
  args : m.cpu.Holds (m.cpu.reg .esp) [back, taskAddr K new]
  deep : sizeofTaskStruct + 8 * d + 24 ≤ into K cur (m.cpu.reg .esp)
  top : into K cur (m.cpu.reg .esp) + 8 ≤ 4096
  room : m.cpu.Room (2 * d + 6) (m.cpu.reg .esp)
  tss : m.cpu.readable K.tssEsp0 = true

/-- The stack of a task that is in a call of `task_switch`, from its saved stack pointer on. -/
def switchRow (x : Context) (fp next arg : Long) : List Long := [fp, next, arg, x.ebx, x.edi, x.esi, x.ebp, x.eip]

/-- In front of the call of `inner_task_switch`. -/
def switching (K : KernelSymbols) (new : Slot) (c : Cpu) : Cpu :=
  ((c.pushed (c.reg .ebp)).setReg .ebp (c.reg .esp - 4)).pushes
    [c.reg .esi, c.reg .edi, c.reg .ebx, taskAddr K new]

theorem switching_esp (c : Cpu) : (switching K new c).reg .esp = c.reg .esp - 20 := by
  rw [switching, pushes_esp, setReg_of_ne (by decide), pushed_esp]
  simp only [List.length_cons, List.length_nil]
  bv_omega

theorem switching_run {c : Cpu} (hroom : c.Room 5 (c.reg .esp))
    (harg : c.load (c.reg .esp + 4) = .ok (taskAddr K new)) :
    runOps [.push (.reg .ebp), .mov (.reg .esp) (.reg .ebp), .push (.reg .esi), .push (.reg .edi), .push (.reg .ebx),
      .pushm 8 .ebp] c = .ok (switching K new c) := by
  let c₁ := (c.pushed (c.reg .ebp)).setReg .ebp (c.reg .esp - 4)
  let c₂ := c₁.pushes [c.reg .esi, c.reg .edi, c.reg .ebx]
  have hc₁ : c₁.reg .esp = c.reg .esp - 4 := (setReg_of_ne (by decide) _ _).trans (pushed_esp _ _)
  have henter : runOps [.push (.reg .ebp), .mov (.reg .esp) (.reg .ebp)] c = .ok c₁ := by
    have hpush : Op.run c (.push (.reg .ebp)) = .ok (c.pushed (c.reg .ebp)) := if_pos hroom.1
    have hmov : Op.run (c.pushed (c.reg .ebp)) (.mov (.reg .esp) (.reg .ebp)) = .ok c₁ := by
      have hvalue : (c.pushed (c.reg .ebp)).value (.reg .esp) = c.reg .esp - 4 := pushed_esp _ _
      rw [Op.run, hvalue]
      rfl
    simp only [runOps, List.foldlM_cons, List.foldlM_nil, hpush, hmov, bind, Except.bind, pure, Except.pure]
  have hread : ∀ a, c₁.readable a = c.readable a := fun _ => rfl
  have hroom₁ : c₁.Room 4 (c₁.reg .esp) := by
    rw [hc₁]
    exact hroom.2.congr hread
  have hpushes : runOps [.push (.reg .esi), .push (.reg .edi), .push (.reg .ebx)] c₁ = .ok c₂ := by
    have hrun := @pushes_run c₁ [.reg .esi, .reg .edi, .reg .ebx] (by decide) (hroom₁.mono (by simp))
    have hvalues : [Src.reg .esi, .reg .edi, .reg .ebx].map c₁.value = [c.reg .esi, c.reg .edi, c.reg .ebx] := by
      simp [c₁, Cpu.value, Cpu.setReg, Cpu.pushed, Cpu.stored]
    rw [hvalues] at hrun
    exact hrun
  have hlast : Op.run c₂ (.pushm 8 .ebp) = .ok (switching K new c) := by
    have hebp : c₂.reg .ebp = c.reg .esp - 4 := by
      have hvalue : c₂.value (.reg .ebp) = c₁.value (.reg .ebp) := value_pushes (by decide) _ _
      exact hvalue.trans (setReg_self _ _ _)
    have hload : c₂.load (c.reg .esp - 4 + 8) = .ok (taskAddr K new) := by
      have haddr : c.reg .esp - 4 + 8 = c.reg .esp + 4 := by bv_omega
      have hpush : (c.pushes [c.reg .ebp]).load (c.reg .esp + 4) = c.load (c.reg .esp + 4) := by
        refine load_pushes (by simp) ?_
        simp only [List.length_singleton, Off]
        bv_omega
      have hpushes : c₂.load (c.reg .esp + 4) = c₁.load (c.reg .esp + 4) := by
        refine load_pushes (by simp) ?_
        rw [hc₁]
        simp only [List.length_cons, List.length_nil, Off]
        bv_omega
      rw [haddr, hpushes]
      exact hpush.trans harg
    have hroom₂ : c₂.Room 1 (c₂.reg .esp) := @Cpu.Room.pushes c₁ 1 [c.reg .esi, c.reg .edi, c.reg .ebx] hroom₁
    have hpush : c₂.push (taskAddr K new) = .ok (c₂.pushed (taskAddr K new)) := if_pos hroom₂.1
    rw [Op.run, hebp, hload]
    exact hpush
  have hsplit : [Op.push (.reg .ebp), .mov (.reg .esp) (.reg .ebp), .push (.reg .esi), .push (.reg .edi),
      .push (.reg .ebx), .pushm 8 .ebp] = [.push (.reg .ebp), .mov (.reg .esp) (.reg .ebp)] ++
        ([.push (.reg .esi), .push (.reg .edi), .push (.reg .ebx)] ++ [.pushm 8 .ebp]) := rfl
  rw [hsplit, runOps_append henter, runOps_append hpushes, runOps, List.foldlM_cons, hlast]
  rfl

theorem switching_readable (c : Cpu) (a : Long) : (switching K new c).readable a = c.readable a :=
  readable_pushes ((c.pushed (c.reg .ebp)).setReg .ebp (c.reg .esp - 4)) _ a

theorem switching_load {c : Cpu} (h : Off 5 (c.reg .esp) a) : (switching K new c).load a = c.load a := by
  have hone : (c.pushes [c.reg .ebp]).load a = c.load a := load_pushes (by simp) (h.mono (by simp))
  have hesp : ((c.pushed (c.reg .ebp)).setReg .ebp (c.reg .esp - 4)).reg .esp = c.reg .esp - 4 :=
    (setReg_of_ne (by decide) _ _).trans (pushed_esp _ _)
  have hrest := @load_pushes ((c.pushed (c.reg .ebp)).setReg .ebp (c.reg .esp - 4))
    [c.reg .esi, c.reg .edi, c.reg .ebx, taskAddr K new] a (by simp) (by
      rw [hesp]
      exact (h.succ (by decide)).2)
  exact hrest.trans hone

theorem switching_holds {c : Cpu} {ws : List Long} (hws : ws.length ≤ 2) (hroom : c.Room 5 (c.reg .esp))
    (h : c.Holds (c.reg .esp) ws) :
    (switching K new c).Holds (c.reg .esp - 20)
      ([taskAddr K new, c.reg .ebx, c.reg .edi, c.reg .esi, c.reg .ebp] ++ ws) := by
  have hone := @holds_pushes c [c.reg .ebp] ws (by simp only [List.length_singleton]; omega)
    (hroom.mono (by simp)) h
  let c₁ := (c.pushed (c.reg .ebp)).setReg .ebp (c.reg .esp - 4)
  have hc₁ : c₁.reg .esp = c.reg .esp - 4 := (setReg_of_ne (by decide) _ _).trans (pushed_esp _ _)
  have hload : ∀ a, c₁.load a = (c.pushes [c.reg .ebp]).load a := fun _ => rfl
  have hread : ∀ a, c₁.readable a = c.readable a := fun _ => rfl
  have hrow : c₁.Holds (c₁.reg .esp) (c.reg .ebp :: ws) := by
    have hesp : (c.pushes [c.reg .ebp]).reg .esp = c.reg .esp - 4 := pushed_esp _ _
    rw [hesp] at hone
    rw [hc₁]
    exact hone.congr hload
  have hroom₁ : c₁.Room 4 (c₁.reg .esp) := by
    rw [hc₁]
    exact hroom.2.congr hread
  have hall := @holds_pushes c₁ [c.reg .esi, c.reg .edi, c.reg .ebx, taskAddr K new] (c.reg .ebp :: ws) (by
    simp only [List.length_cons, List.length_nil]
    omega) hroom₁ hrow
  rw [← switching_esp]
  exact hall

/-- The task is in a call of `task_switch`, which has saved `x`. -/
def Parked (P : Program) (K : KernelSymbols) (s : Slot) (x : Context) (c : Cpu) : Prop :=
  ∃ sp fp next arg, P.At taskSwitchEnd next ∧ c.load (registerEspAddr K s) = .ok sp ∧ OnStack K s sp 8 ∧
    c.Holds sp (switchRow x fp next arg) ∧ x.esp = sp + 32

/-- The processor has left `task_switch` of `cur`, into what `new` had on its stack. -/
structure Switched (P : Program) (K : KernelSymbols) (cur new : Slot) (sp fp back : Long) (x : Context)
    (m m' : Core) : Prop where
  eip : m'.eip = back
  esp : m'.cpu.reg .esp = sp + 8
  ebp : m'.cpu.reg .ebp = fp
  parked : Parked P K cur x m'.cpu
  saved : m'.cpu.load (registerEspAddr K cur) = .ok (m.cpu.reg .esp - 28)
  msr : m'.msr = Function.update m.msr 0x175 (0#32 ++ kernelEsp K new)
  esp0 : m'.cpu.load K.tssEsp0 = .ok (kernelEsp K new)
  load : ∀ a ∈ leftAlone K cur (m.cpu.reg .esp), Off 1 (registerEspAddr K cur + 4) a → m'.cpu.load a = m.cpu.load a

/-- **A task switch goes on where the stack of the new task says**, and what the old one had is on its own stack, at
the pointer that is saved for it. -/
theorem taskSwitch_eventually {ret : Long} (hP : SwitchCode P K d) (hm : Calls P K d cur new ret m) (hd : 0 < d)
    (hne : new ≠ cur) (hsave : m.cpu.readable (registerEspAddr K cur) = true)
    (hsp : m.cpu.load (registerEspAddr K new) = .ok sp) (hnew : OnStack K new sp 2)
    (hrow : m.cpu.Holds sp [fp, back]) : Eventually P (Switched P K cur new sp fp back (contextOf m ret) m) m := by
  have hdeep := hm.deep
  have htop := hm.top
  have hroom5 : m.cpu.Room 5 (m.cpu.reg .esp) := hm.room.mono (by omega)
  refine eventually_ops (l := [.push (.reg .ebp), .mov (.reg .esp) (.reg .ebp), .push (.reg .esi), .push (.reg .edi),
    .push (.reg .ebx), .pushm 8 .ebp]) hm.code (switching_run hroom5 hm.args.2.1) fun a₁ h₁ => ?_
  have hesp := @switching_esp K new m.cpu
  have hroom : (switching K new m.cpu).Room (1 + 2 * d) ((switching K new m.cpu).reg .esp) := by
    rw [hesp]
    have hrest : m.cpu.Room (1 + 2 * d) (m.cpu.reg .esp - BitVec.ofNat 32 (4 * 5)) :=
      Cpu.Room.sub (hm.room.mono (by omega))
    exact hrest.congr (switching_readable m.cpu)
  refine eventually_call h₁ (hroom.mono (m := 1) (by omega)).1 fun next hnext => ?_
  let c := (switching K new m.cpu).pushed next
  have hesp' : c.reg .esp = m.cpu.reg .esp - 24 := by
    change ((switching K new m.cpu).pushed next).reg .esp = _
    rw [pushed_esp, hesp]
    bv_omega
  have hframe : c.Holds (c.reg .esp) (next :: ([taskAddr K new, m.cpu.reg .ebx, m.cpu.reg .edi, m.cpu.reg .esi,
      m.cpu.reg .ebp] ++ [ret, taskAddr K new])) := by
    refine @holds_pushes (switching K new m.cpu) [next] _ (by simp) (hroom.mono (by simp)) ?_
    rw [hesp]
    exact switching_holds (by simp) hroom5 hm.args
  -- below `esp` nothing is left alone, from there on nothing has changed yet
  have hload : ∀ a ∈ leftAlone K cur (m.cpu.reg .esp), c.load a = m.cpu.load a := fun a ha =>
    (@load_pushes (switching K new m.cpu) [next] a (by simp) (by
      rw [hesp]
      have hoff : Off 6 (m.cpu.reg .esp) a := leftAlone_off ha (by omega) le_rfl (by omega)
      exact hoff.sub (k := 1) (j := 5) (by decide) (by decide))).trans
        (switching_load (leftAlone_off ha (by omega) le_rfl (by omega)))
  have hinto : into K cur (m.cpu.reg .esp - 24) = into K cur (m.cpu.reg .esp) - 24 := by
    have h24 : 24 ≤ into K cur (m.cpu.reg .esp) := by omega
    exact into_sub h24
  have hinner : Inner K d cur new next (m.go c K.innerTaskSwitch) := by
    refine ⟨rfl, ⟨hframe.1, hframe.2.1, trivial⟩, ?_, ?_, ?_, ?_⟩
    · rw [go_cpu, hesp', hinto]
      omega
    · rw [go_cpu, hesp', hinto]
      omega
    · exact @Cpu.Room.pushes (switching K new m.cpu) (2 * d) [next] hroom
    · exact (readable_pushes (switching K new m.cpu) [next] _).trans ((switching_readable _ _).trans hm.tss)
  have hpage := hnew.top
  have hsp4 : into K new (sp + 4) = into K new sp + 4 := into_add (k := 4) (by omega)
  have hrow' : c.Holds sp [fp, back] := by
    refine ⟨?_, ?_, trivial⟩
    · rw [hload _ (mem_leftAlone_other hne (by omega))]
      exact hrow.1
    · rw [hload _ (mem_leftAlone_other hne (by omega))]
      exact hrow.2.1
  refine (inner_eventually hP hinner hd hne ?_ ((hload _ mem_leftAlone_registerEsp).trans hsp) hnew hrow').mono
    fun m' h' => ?_
  · exact (readable_pushes (switching K new m.cpu) [next] _).trans ((switching_readable _ _).trans hsave)
  have hkeep : ∀ a ∈ leftAlone K cur (m.cpu.reg .esp), a ∈ leftAlone K cur (c.reg .esp) := fun a ha =>
    leftAlone_mono (by rw [hesp', hinto]; omega) ha
  refine ⟨h'.eip, h'.esp, h'.ebp, ?_, ?_, h'.msr, h'.esp0, fun a ha hoff =>
    (h'.load a (hkeep a ha) hoff).trans (hload a ha)⟩
  · have h28 : m.cpu.reg .esp - 24 - 4 = m.cpu.reg .esp - 28 := by bv_omega
    have hinto28 : into K cur (m.cpu.reg .esp - 28) = into K cur (m.cpu.reg .esp) - 28 := by
      have hle : 28 ≤ into K cur (m.cpu.reg .esp) := by omega
      exact into_sub hle
    have hsaved := h'.saved
    have hfp := h'.frame
    rw [go_cpu, hesp', h28] at hsaved hfp
    refine ⟨_, _, next, taskAddr K new, hnext, hsaved, ⟨?_, ?_⟩, ⟨hfp, ?_⟩, ?_⟩
    · rw [hinto28]
      omega
    · rw [hinto28]
      omega
    · have hup : m.cpu.reg .esp - 28 + 4 = m.cpu.reg .esp - 24 := by bv_omega
      have hframe' : c.Holds (c.reg .esp) ([next, taskAddr K new, m.cpu.reg .ebx, m.cpu.reg .edi, m.cpu.reg .esi,
          m.cpu.reg .ebp, ret] ++ [taskAddr K new]) := hframe
      rw [hup, ← hesp']
      refine holds_of_load (holds_append.1 hframe').1 fun i hi => ?_
      have hi' : i < 7 := hi
      have hinto' : into K cur (c.reg .esp) = into K cur (m.cpu.reg .esp) - 24 := by rw [hesp', hinto]
      have hat : into K cur (c.reg .esp + BitVec.ofNat 32 (4 * i)) = into K cur (c.reg .esp) + 4 * i :=
        into_add (by omega)
      exact h'.load _ (mem_leftAlone_above (by omega) (by rw [go_cpu]; omega)) (off_registerEsp (by omega) (by omega))
    · change m.cpu.reg .esp + 4 = m.cpu.reg .esp - 28 + 32
      bv_omega
  · have hsaved := h'.saved
    have h28 : m.cpu.reg .esp - 24 - 4 = m.cpu.reg .esp - 28 := by bv_omega
    rw [go_cpu, hesp', h28] at hsaved
    exact hsaved

/-! ### The way back -/

/-- A call of `task_switch` has come back. -/
structure Has (x : Context) (m : Core) : Prop where
  eip : m.eip = x.eip
  esp : m.cpu.reg .esp = x.esp
  ebx : m.cpu.reg .ebx = x.ebx
  esi : m.cpu.reg .esi = x.esi
  edi : m.cpu.reg .edi = x.edi
  ebp : m.cpu.reg .ebp = x.ebp

theorem taskSwitchEnd_eventually {x : Context} {arg : Long} (hat : P.At taskSwitchEnd m.eip)
    (hrow : m.cpu.Holds (m.cpu.reg .esp) [arg, x.ebx, x.edi, x.esi, x.ebp, x.eip])
    (hx : x.esp = m.cpu.reg .esp + 24) :
    Eventually P (fun m' => Has x m' ∧ m'.msr = m.msr ∧ ∀ a, m'.cpu.load a = m.cpu.load a) m := by
  let c : Cpu := { m.cpu.setReg .esp (m.cpu.reg .esp + 4) with
    flags := m.cpu.flags.result (m.cpu.reg .esp + 4) ((m.cpu.reg .esp).saddOverflow 4) }
  refine eventually_inst (m.go c) hat (fun _ => rfl) fun a₁ h₁ => ?_
  have hload : ∀ a, c.load a = m.cpu.load a := fun _ => rfl
  have hesp : c.reg .esp = m.cpu.reg .esp + 4 := setReg_self m.cpu .esp (m.cpu.reg .esp + 4)
  have hrest : c.Holds (c.reg .esp) ([x.ebx, x.edi, x.esi, x.ebp] ++ [x.eip]) := by
    rw [hesp]
    exact hrow.2.congr hload
  obtain ⟨hpops, hret⟩ := @pops_run c [.reg .ebx, .reg .edi, .reg .esi, .reg .ebp] _ _ (by decide) rfl hrest
  let l := [Dst.reg .ebx, .reg .edi, .reg .esi, .reg .ebp].zip [x.ebx, x.edi, x.esi, x.ebp]
  have hhas : ∀ p ∈ l, (c.pops l).Has p.2 p.1 := fun p hp => pops_has (by simp [l]) (by simp [l]) hp
  have hpopped : (c.pops l).reg .esp = c.reg .esp + 16 := pops_esp (by simp [l])
  have hpopsLoad : ∀ a, (c.pops l).load a = m.cpu.load a := fun a => (pops_load c l a).trans (hload a)
  refine eventually_ops (l := [.pop (.reg .ebx), .pop (.reg .edi), .pop (.reg .esi), .pop (.reg .ebp)]) h₁ hpops
    fun a₂ h₂ => ?_
  refine eventually_ret h₂ hret.1 (.here ⟨⟨rfl, ?_, ?_, ?_, ?_, ?_⟩, rfl, hpopsLoad⟩)
  · rw [go_cpu, setReg_self, go_cpu, hpopped, hesp, hx]
    bv_omega
  · rw [go_cpu, setReg_of_ne (by decide), go_cpu]
    exact hhas (.reg .ebx, x.ebx) (by simp [l])
  · rw [go_cpu, setReg_of_ne (by decide), go_cpu]
    exact hhas (.reg .esi, x.esi) (by simp [l])
  · rw [go_cpu, setReg_of_ne (by decide), go_cpu]
    exact hhas (.reg .edi, x.edi) (by simp [l])
  · rw [go_cpu, setReg_of_ne (by decide), go_cpu]
    exact hhas (.reg .ebp, x.ebp) (by simp [l])

/-- What a switch from `cur` to `new` leaves besides the registers. -/
structure Handed (P : Program) (K : KernelSymbols) (cur new : Slot) (x : Context) (m m' : Core) : Prop where
  parked : Parked P K cur x m'.cpu
  saved : m'.cpu.load (registerEspAddr K cur) = .ok (m.cpu.reg .esp - 28)
  msr : m'.msr = Function.update m.msr 0x175 (0#32 ++ kernelEsp K new)
  esp0 : m'.cpu.load K.tssEsp0 = .ok (kernelEsp K new)
  load : ∀ a ∈ leftAlone K cur (m.cpu.reg .esp), Off 1 (registerEspAddr K cur + 4) a → m'.cpu.load a = m.cpu.load a

theorem Parked.congr {c c' : Cpu} {x : Context} (h : Parked P K s x c)
    (hsaved : c'.load (registerEspAddr K s) = c.load (registerEspAddr K s))
    (hload : ∀ a, OnStack K s a 1 → c'.load a = c.load a) : Parked P K s x c' := by
  obtain ⟨sp, fp, next, arg, hat, hsp, hstack, hrow, hesp⟩ := h
  have htop : into K s sp + 32 ≤ 4096 := hstack.top
  have hlow := hstack.struct
  refine ⟨sp, fp, next, arg, hat, hsaved.trans hsp, hstack, holds_of_load hrow fun i hi => hload _ ?_, hesp⟩
  have hi' : i < 8 := hi
  have hat' : into K s (sp + BitVec.ofNat 32 (4 * i)) = into K s sp + 4 * i := into_add (by omega)
  constructor <;> omega

/-- **The task that is switched to comes out of its own call of `task_switch`**, wherever that was, with the
registers, the stack and the return address that it had there. -/
theorem taskSwitch_resumes {ret : Long} {y : Context} (hP : SwitchCode P K d) (hm : Calls P K d cur new ret m)
    (hd : 0 < d) (hne : new ≠ cur) (hsave : m.cpu.readable (registerEspAddr K cur) = true)
    (hnew : Parked P K new y m.cpu) :
    Eventually P (fun m' => Has y m' ∧ Handed P K cur new (contextOf m ret) m m') m := by
  obtain ⟨sp, fp, next, arg, hat, hsp, hstack, hrow, hesp⟩ := hnew
  have htop : into K new sp + 32 ≤ 4096 := hstack.top
  have htwo : OnStack K new sp 2 := ⟨hstack.struct, by omega⟩
  refine (taskSwitch_eventually hP hm hd hne hsave hsp htwo ⟨hrow.1, hrow.2.1, trivial⟩).trans fun m₁ h₁ => ?_
  have hrow₁ : m₁.cpu.Holds sp (switchRow y fp next arg) := by
    refine holds_of_load hrow fun i hi => ?_
    have hi' : i < 8 := hi
    have hinto : into K new (sp + BitVec.ofNat 32 (4 * i)) = into K new sp + 4 * i := into_add (by omega)
    exact h₁.load _ (mem_leftAlone_other hne (by omega))
      (off_of_page (K := K) hne (by omega) (by rw [into_behind_registerEsp]; decide)
        (by rw [into_behind_registerEsp]; decide))
  have hend : m₁.cpu.Holds (m₁.cpu.reg .esp) [arg, y.ebx, y.edi, y.esi, y.ebp, y.eip] := by
    have hup : m₁.cpu.reg .esp = sp + 4 + 4 := by
      rw [h₁.esp]
      bv_omega
    rw [hup]
    exact hrow₁.2.2
  refine (taskSwitchEnd_eventually (by rw [h₁.eip]; exact hat) hend ?_).mono fun m' h' => ⟨h'.1, ?_⟩
  · rw [hesp, h₁.esp]
    bv_omega
  · obtain ⟨-, hmsr, hload⟩ := h'
    exact ⟨h₁.parked.congr (hload _) fun a _ => hload a, (hload _).trans h₁.saved, hmsr.trans h₁.msr,
      (hload _).trans h₁.esp0, fun a ha hoff => (hload a).trans (h₁.load a ha hoff)⟩

end Asm

end Zeos
