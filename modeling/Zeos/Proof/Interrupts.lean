import Zeos.Assembly
import Zeos.Proof.Handler

/-!
# The handlers of the clock and of the keyboard

`clock_handler` and `keyboard_handler` from the interrupt to the `iret`, by their instructions. What
`user_to_system`, the routine and `system_to_user` do is not looked into: the routine may switch to another task,
and come back when this one is switched to.

* `save_taken`, `restore_iret`: the registers, on their way to the stack and back.
* `interrupt_transparent`: **the interrupted code goes on with all of its registers**, its stack and its flags.
  Meanwhile `user_to_system`, the routine and `system_to_user` have run, in this order, and the routine once the end
  of interrupt was told to the controller.
-/

namespace Zeos

open X86

namespace Asm

variable {P : Program} {K : KernelSymbols} {A : Set Long} {routine eip top esp0 : Long} {ss0 : BitVec 16}
  {outer : Bool} {c s : Cpu} {m : Core}

/-- What is on the stack of a handler, the lowest long first. -/
def handlerRow (c : Cpu) (eip : Long) (outer : Bool) : List Long :=
  (saveRow.map c.value).reverse ++ (c.context eip outer).reverse

def handlerLongs (outer : Bool) : ℕ := if outer then 16 else 14

theorem handlerRow_length (c : Cpu) (eip : Long) (outer : Bool) :
    (handlerRow c eip outer).length = handlerLongs outer := by cases outer <;> rfl

/-- Behind `SAVE_ALL`. -/
structure Held (outer : Bool) (c : Cpu) (eip top : Long) (k : ℕ) (s : Cpu) : Prop where
  stack : s.Holds (s.reg .esp) (handlerRow c eip outer)
  esp : s.reg .esp = top - BitVec.ofNat 32 (4 * (handlerRow c eip outer).length)
  room : s.Room k (s.reg .esp)
  cs : s.seg .cs = kernelCs
  ss : outer = false → s.seg .ss = c.seg .ss

/-- `SAVE_ALL` of the interrupt handlers. -/
def handlerSaved (s : Cpu) : Cpu :=
  (((s.pushes (saveRow.map s.value)).setReg .edx (kernelDs.setWidth 32)).setSeg .ds kernelDs).setSeg .es kernelDs

theorem saveAll_run (hroom : s.Room 11 (s.reg .esp)) : runOps saveAll s = .ok (handlerSaved s) := by
  have hpushes : runOps (saveRow.map .push) s = .ok (s.pushes (saveRow.map s.value)) :=
    pushes_run (by decide) hroom
  have hsplit : saveAll = saveRow.map .push ++ [.mov (.imm (kernelDs.setWidth 32)) (.reg .edx),
      .mov (.reg .edx) (.seg .ds), .mov (.reg .edx) (.seg .es)] := rfl
  rw [hsplit, runOps_append hpushes]
  rfl

theorem save_taken (h : Taken outer c eip top s) (hcs : s.seg .cs = kernelCs) (hroom : c.Room 18 top) :
    Held outer c eip top 2 (handlerSaved s) ∧ ∀ a, Off 16 top a → (handlerSaved s).load a = c.load a := by
  have hlen := context_length c eip outer
  have hrest : s.Room 13 (s.reg .esp) := by
    rw [h.esp]
    refine Cpu.Room.congr h.readable (Cpu.Room.sub (hroom.mono ?_))
    rw [hlen]
    cases outer <;> decide
  have hload : ∀ a, (handlerSaved s).load a = (s.pushes (saveRow.map s.value)).load a := fun _ => rfl
  have hesp : (handlerSaved s).reg .esp = (s.pushes (saveRow.map s.value)).reg .esp := rfl
  have hread : ∀ a, (handlerSaved s).readable a = (s.pushes (saveRow.map s.value)).readable a := fun _ => rfl
  have hvalues : saveRow.map s.value = saveRow.map c.value := by
    refine List.map_congr_left fun t ht => ?_
    cases t with
    | reg r => exact h.reg r (by rintro rfl; revert ht; decide)
    | seg t =>
      have hseg : s.seg t = c.seg t := h.seg t (by rintro rfl; revert ht; decide) (by rintro rfl; revert ht; decide)
      exact congrArg (BitVec.setWidth 32) hseg
    | imm w => simp [saveRow] at ht
    | flags => simp [saveRow] at ht
  have hlength : (saveRow.map s.value).length = 11 := rfl
  have hrow := @holds_pushes s (saveRow.map s.value) (c.context eip outer).reverse (by
    rw [List.length_reverse, hlen, hlength]
    cases outer <;> decide) (hrest.mono (by rw [hlength]; decide)) h.stack
  rw [hvalues] at hrow
  have hall : (handlerRow c eip outer).length = (c.context eip outer).length + 11 := by
    rw [handlerRow_length, hlen]
    cases outer <;> rfl
  have hseg : (s.pushes (saveRow.map s.value)).seg = s.seg := pushes_seg _ _
  refine ⟨⟨?_, ?_, ?_, ?_, fun hout => ?_⟩, fun a ha => ?_⟩
  · rw [hesp, hvalues]
    exact hrow.congr fun a => by rw [hload, hvalues]
  · rw [hesp, pushes_esp, h.esp, hall, hlength]
    bv_omega
  · have hroom' : (s.pushes (saveRow.map s.value)).Room 2 ((s.pushes (saveRow.map s.value)).reg .esp) :=
      Cpu.Room.pushes hrest
    rw [hesp]
    exact hroom'.congr hread
  · have hkept : (handlerSaved s).seg .cs = (s.pushes (saveRow.map s.value)).seg .cs := by
      simp [handlerSaved, Cpu.setSeg, Cpu.setReg]
    rw [hkept, hseg, hcs]
  · have hkept : (handlerSaved s).seg .ss = (s.pushes (saveRow.map s.value)).seg .ss := by
      simp [handlerSaved, Cpu.setSeg, Cpu.setReg]
    rw [hkept, hseg, h.ss hout]
  · have hpushes : (s.pushes (saveRow.map s.value)).load a = s.load a := by
      refine load_pushes (by simp [saveRow]) ?_
      rw [h.esp]
      refine ha.sub (by decide) ?_
      rw [hlength, hlen]
      cases outer <;> decide
    rw [hload, hpushes]
    refine h.load a (ha.mono ?_)
    rw [hlen]
    cases outer <;> decide

/-- Where the interrupted code is again, its registers being those of `c`. -/
structure Undisturbed (c c' : Cpu) : Prop where
  reg : c'.reg = c.reg
  seg : c'.seg = c.seg
  flags : c'.flags = c.flags

theorem restore_iret (h : Held outer c eip top 0 s) (houter : outer = decide (rpl kernelCs < rpl (c.seg .cs)))
    (htop : outer = false → top = c.reg .esp) (hrest : c.flags.rest &&& Flags.named = 0) :
    ∃ s' c', runOps restoreAll s = .ok s' ∧ s'.iret = .ok (c', eip) ∧ Undisturbed c c' ∧
      ∀ a, c'.load a = s.load a := by
  let ws := (saveRow.map c.value).reverse
  obtain ⟨hrun, hstack⟩ := @pops_run s restoreRow ws (c.context eip outer).reverse (by decide) rfl h.stack
  have hhas : ∀ p ∈ restoreRow.zip ws, (s.pops (restoreRow.zip ws)).Has p.2 p.1 := fun p hp =>
    pops_has (l := restoreRow.zip ws) (by decide : restoreRow.Nodup) (by decide : .reg .esp ∉ restoreRow) hp
  have hesp : (s.pops (restoreRow.zip ws)).reg .esp = s.reg .esp + 44 :=
    pops_esp (by decide : .reg .esp ∉ restoreRow)
  have hcs : (s.pops (restoreRow.zip ws)).seg .cs = kernelCs :=
    (pops_seg (by decide : .seg .cs ∉ restoreRow)).trans h.cs
  have hss : outer = false → (s.pops (restoreRow.zip ws)).seg .ss = c.seg .ss := fun hout =>
    (pops_seg (by decide : .seg .ss ∉ restoreRow)).trans (h.ss hout)
  have hload : ∀ a, (s.pops (restoreRow.zip ws)).load a = s.load a := fun a => pops_load s _ a
  generalize hs' : s.pops (restoreRow.zip ws) = s' at hrun hstack hhas hesp hcs hss hload
  have hcontext : s'.Holds (s'.reg .esp) ((c.context eip outer).reverse ++ []) := by
    rw [List.append_nil]
    exact hstack
  obtain ⟨c', hiret, hret⟩ := iret_context (by rw [hcs]; exact houter) hrest hcontext
  refine ⟨s', c', hrun, hiret, ⟨?_, ?_, hret.flags⟩, fun a => (load_congr hret.mem hret.mapped a).trans (hload a)⟩
  · funext r
    by_cases hr : r = .esp
    · subst hr
      rw [hret.esp]
      cases outer with
      | true => rfl
      | false =>
        have hlen : (handlerRow c eip false).length = 14 := rfl
        rw [if_neg (by decide), hesp, h.esp, htop rfl, hlen]
        bv_omega
    · rw [hret.reg r hr]
      have hmem : ∃ p ∈ restoreRow.zip ws, p.1 = .reg r ∧ p.2 = c.reg r := by
        cases r <;> first | exact absurd rfl hr | simp [restoreRow, ws, saveRow, Cpu.value]
      obtain ⟨p, hp, hp1, hp2⟩ := hmem
      have hval := hhas p hp
      rw [hp1, hp2] at hval
      exact hval
  · funext t
    by_cases htcs : t = .cs
    · subst htcs
      exact hret.cs
    · by_cases htss : t = .ss
      · subst htss
        rw [hret.ss]
        cases outer with
        | true => rfl
        | false => exact hss rfl
      · rw [hret.seg t htcs htss]
        have hmem : ∃ p ∈ restoreRow.zip ws, p.1 = .seg t ∧ p.2 = (c.seg t).setWidth 32 := by
          cases t <;> first
            | exact absurd rfl htcs
            | exact absurd rfl htss
            | simp [restoreRow, ws, saveRow, Cpu.value]
        obtain ⟨p, hp, hp1, hp2⟩ := hmem
        have hval := hhas p hp
        rw [hp1, hp2] at hval
        exact hval.trans (setWidth_word _)

/-! ### The routines -/

theorem al_setAl (c : Cpu) (b : BitVec 8) : (c.setAl b).al = b := by
  have hlow : (0xFFFFFF00 : Long).setWidth 8 = 0 := by decide
  rw [Cpu.al, Cpu.setAl, setReg_self, BitVec.setWidth_or, BitVec.setWidth_and, hlow,
    BitVec.setWidth_setWidth_of_le _ (by decide)]
  simp

theorem Held.congr {k : ℕ} {s' : Cpu} (h : Held outer c eip top k s) (hesp : s'.reg .esp = s.reg .esp)
    (hload : ∀ a, s'.load a = s.load a) (hread : ∀ a, s'.readable a = s.readable a) (hcs : s'.seg .cs = s.seg .cs)
    (hss : s'.seg .ss = s.seg .ss) : Held outer c eip top k s' := by
  refine ⟨?_, hesp.trans h.esp, ?_, hcs.trans h.cs, fun hout => hss.trans (h.ss hout)⟩
  · rw [hesp]
    exact h.stack.congr hload
  · rw [hesp]
    exact h.room.congr hread

theorem Held.off {k j : ℕ} (h : Held outer c eip top k s) (hj : j ≤ 2) {a : Long} (ha : Off 18 top a) :
    Off j (s.reg .esp) a := by
  rw [h.esp]
  refine ha.sub (by decide) ?_
  have hlen : handlerLongs outer ≤ 16 := by cases outer <;> decide
  rw [handlerRow_length]
  omega

/-- A compiled function, called with `eax` put by. -/
theorem bracket_eventually {f : Long} {Q : Core → Prop} {is : List Inst}
    (hf : P.Function A (handlerLongs outer + 1) f)
    (hat : P.At ([.op (.push (.reg .eax)), .call f, .op (.pop (.reg .eax))] ++ is) m.eip)
    (hm : Held outer c eip top 2 m.cpu) (hA : ∀ a ∈ A, Off 18 top a)
    (h : ∀ e l m', Held outer c eip top 2 m'.cpu → e.eip = f ∧ P.outside e l → e.ports = m.ports →
      m'.ports = l.ports → m'.calls = m.calls ++ [(f, m.ports)] → (∀ a ∈ A, m'.cpu.load a = m.cpu.load a) →
      P.At is m'.eip → Eventually P Q m') :
    Eventually P Q m := by
  have hlen := handlerRow_length c eip outer
  have hpush : runOps [.push (.reg .eax)] m.cpu = .ok (m.cpu.pushed (m.cpu.reg .eax)) :=
    @pushes_run m.cpu [.reg .eax] (by decide) (hm.room.mono (by decide))
  refine eventually_ops (l := [.push (.reg .eax)]) hat hpush fun a₁ h₁ => ?_
  let x := m.cpu.reg .eax
  have hesp : (m.cpu.pushed x).reg .esp = m.cpu.reg .esp - 4 := pushed_esp _ _
  have hrow : (m.cpu.pushed x).Holds ((m.cpu.pushed x).reg .esp) (x :: handlerRow c eip outer) :=
    @holds_pushes m.cpu [x] (handlerRow c eip outer) (by rw [hlen]; cases outer <;> exact Nat.le_of_ble_eq_true rfl)
      (hm.room.mono (by simp)) hm.stack
  have hroom : (m.cpu.pushed x).Room 1 ((m.cpu.pushed x).reg .esp) := @Cpu.Room.pushes m.cpu 1 [x] hm.room
  have hlen' : (x :: handlerRow c eip outer).length = handlerLongs outer + 1 := congrArg Nat.succ hlen
  rw [← hlen'] at hf
  refine eventually_function (m := m.go (m.cpu.pushed x) a₁) hf h₁ (by decide) hroom ?_ hrow ?_ ?_
  · rw [hlen']
    cases outer <;> decide
  · intro a ha
    have hoff : Off 2 (m.cpu.reg .esp) a := hm.off (by decide) (hA a ha)
    rw [go_cpu, hesp]
    exact (hoff.succ (by decide)).2
  · intro e l hl hat'
    have hrow' := hl.stack
    have hpop : runOps [.pop (.reg .eax)] l.cpu = .ok (l.cpu.popped (.reg .eax) x) :=
      (@pops_run l.cpu [.reg .eax] [x] (handlerRow c eip outer) (by decide) rfl hrow').1
    refine eventually_ops (l := [.pop (.reg .eax)]) hat' hpop fun a₂ h₂ => ?_
    have hesp' : (l.cpu.popped (.reg .eax) x).reg .esp = m.cpu.reg .esp := by
      rw [popped_esp (by decide), hl.esp, go_cpu, hesp]
      exact BitVec.sub_add_cancel _ _
    have hlow : l.cpu.reg .esp = m.cpu.reg .esp - 4 := hl.esp.trans hesp
    have hkept : ∀ a ∈ A, (m.cpu.pushed x).load a = m.cpu.load a := by
      intro a ha
      exact @load_pushes m.cpu [x] a (by simp) (hm.off (by simp) (hA a ha))
    obtain ⟨l', hran, hl'⟩ := hl.ran
    have hports : l.ports = l'.ports := by
      rw [hl']
      rfl
    refine h e l' _ ⟨?_, ?_, ?_, ?_, fun hout => ?_⟩ ⟨hl.entry, hran⟩ hl.ports hports hl.calls
      (fun a ha => ?_) h₂
    · rw [go_cpu, hesp', ← BitVec.sub_add_cancel (m.cpu.reg .esp) 4, ← hlow]
      exact hrow'.2.popped _ _
    · rw [go_cpu, hesp']
      exact hm.esp
    · have hread : ∀ a, (l.cpu.popped (.reg .eax) x).readable a = l.cpu.readable a := fun _ => rfl
      have hbelow := hl.room
      have hone := (load_eq_ok.1 hrow'.1).1
      rw [hlow] at hbelow hone
      rw [go_cpu, hesp']
      exact Cpu.Room.congr hread ⟨hone, hbelow⟩
    · exact hl.cs.trans hm.cs
    · exact hl.ss.trans (hm.ss hout)
    · exact (popped_load l.cpu (.reg .eax) x a).trans ((hl.kept a ha).trans (hkept a ha))

/-- The compiled functions of a handler. -/
structure Routines (P : Program) (K : KernelSymbols) (A : Set Long) (outer : Bool) (routine : Long) : Prop where
  userToSystem : P.Function A (handlerLongs outer + 1) K.userToSystem
  routine : P.Function A (handlerLongs outer) routine
  systemToUser : P.Function A (handlerLongs outer + 1) K.systemToUser
  ports : ∀ m m', m.eip = K.userToSystem → P.outside m m' → m'.ports = m.ports

/-- What an interrupt of the code at `eip` has done to it, the handler having been entered in `m`. -/
structure Transparent (K : KernelSymbols) (A : Set Long) (routine eip : Long) (c : Cpu) (m m' : Core) : Prop
    extends Undisturbed c m'.cpu where
  eip : m'.eip = eip
  calls : ∃ ports, m'.calls = m.calls ++
    [(K.userToSystem, m.ports), (routine, m.ports ++ [(0x20, 0x20)]), (K.systemToUser, ports)]
  kept : ∀ a ∈ A, m'.cpu.load a = c.load a

/-- **The interrupted code does not notice**: it goes on at its next instruction with all of its registers, its
flags and its stack, whatever the routine has done; and the memory that the compiled functions do not write is as
it was. Between the interrupt and there `user_to_system`, the routine and `system_to_user` ran, once each and in this
order, and the controller was told before the routine that the interrupt is over. -/
theorem interrupt_transparent (hP : Routines P K A outer routine) (hat : P.At (interruptHandler K routine) m.eip)
    (houter : outer = decide (rpl kernelCs < rpl (c.seg .cs))) (htop : top = if outer then esp0 else c.reg .esp)
    (hroom : c.Room 18 top) (hA : ∀ a ∈ A, Off 18 top a) (hrest : c.flags.rest &&& Flags.named = 0)
    (hm : c.interrupt eip kernelCs ss0 esp0 = .ok m.cpu) :
    Eventually P (Transparent K A routine eip c m) m := by
  have hlen := handlerRow_length c eip outer
  obtain ⟨s, hs, htaken, hcs⟩ := interrupt_taken eip ss0 houter htop (hroom.mono (by
    rw [context_length]
    cases outer <;> decide))
  rw [hm] at hs
  obtain rfl := Except.ok.inj hs
  obtain ⟨hheld, hload⟩ := save_taken htaken hcs hroom
  have hsave := saveAll_run (s := m.cpu) (by
    rw [htaken.esp]
    refine Cpu.Room.congr htaken.readable (Cpu.Room.sub (hroom.mono ?_))
    rw [context_length]
    cases outer <;> decide)
  rw [interruptHandler] at hat
  simp only [List.append_assoc] at hat
  refine eventually_ops hat hsave fun a₁ h₁ => ?_
  refine bracket_eventually hP.userToSystem h₁ hheld hA fun e₁ l₁ m₁ hm₁ hran₁ hports₁ hports₁' hcalls₁ hkept₁ h₂ =>
    ?_
  -- the end of the interrupt
  refine eventually_inst (m₁.go (m₁.cpu.setAl 0x20)) h₂ (fun _ => rfl) fun a₂ h₃ => ?_
  let m₂ (a : Long) : Core :=
    { m₁.go (m₁.cpu.setAl 0x20) a with ports := m₁.ports ++ [(0x20, (m₁.cpu.setAl 0x20).al)] }
  refine eventually_inst m₂ h₃ (fun _ => rfl) fun a₃ h₄ => ?_
  have hm₂ : Held outer c eip top 2 (m₂ a₃).cpu := by
    refine hm₁.congr (setReg_of_ne (by decide) _ _) (fun _ => rfl) (fun _ => rfl) rfl rfl
  have hf := hP.routine
  rw [← hlen] at hf
  refine eventually_function (m := m₂ a₃) hf h₄ (by decide) hm₂.room ?_ hm₂.stack
    (fun a ha => hm₂.off (by decide) (hA a ha)) fun e₃ m₃ hm₃ h₅ => ?_
  · rw [hlen]
    cases outer <;> decide
  have hheld₃ : Held outer c eip top 2 m₃.cpu :=
    ⟨hm₃.stack, hm₃.esp.trans hm₂.esp, hm₃.room, hm₃.cs.trans hm₂.cs, fun hout => hm₃.ss.trans (hm₂.ss hout)⟩
  refine bracket_eventually hP.systemToUser h₅ hheld₃ hA fun e₄ l₄ m₄ hm₄ _ _ _ hcalls₄ hkept₄ h₆ => ?_
  -- and back
  obtain ⟨s', c', hrestore, hiret, hundisturbed, hback⟩ := restore_iret (s := m₄.cpu)
    ⟨hm₄.stack, hm₄.esp, trivial, hm₄.cs, hm₄.ss⟩ houter (fun hout => by rw [htop, hout]; rfl) hrest
  refine eventually_ops h₆ hrestore fun a₅ h₇ => ?_
  refine eventually_inst (fun _ => m₄.go c' eip) h₇ (fun a => ?_) fun _ _ =>
    .here ⟨hundisturbed, rfl, ?_, fun a ha => ?_⟩
  · rw [Inst.run, go_cpu, hiret]
    rfl
  · have hal : (m₁.cpu.setAl 0x20).al = 0x20 := al_setAl _ _
    have hports : m₁.ports = m.ports := hports₁'.trans ((hP.ports e₁ l₁ hran₁.1 hran₁.2).trans hports₁)
    have heoi : (m₂ a₃).ports = m.ports ++ [(0x20, 0x20)] := by
      change m₁.ports ++ [(0x20, (m₁.cpu.setAl 0x20).al)] = _
      rw [hal, hports]
    have hcalls₃ : m₃.calls = m₁.calls ++ [(routine, m.ports ++ [(0x20, 0x20)])] := by
      rw [hm₃.calls, heoi]
      rfl
    refine ⟨m₃.ports, hcalls₄.trans ?_⟩
    rw [hcalls₃, hcalls₁, go_calls]
    simp only [List.append_assoc, List.cons_append, List.nil_append, go_ports]
  · have hfirst : m₁.cpu.load a = c.load a := (hkept₁ a ha).trans (hload a ((hA a ha).mono (by decide)))
    calc c'.load a = m₄.cpu.load a := hback a
      _ = m₃.cpu.load a := hkept₄ a ha
      _ = m₁.cpu.load a := hm₃.kept a ha
      _ = c.load a := hfirst

/-! ### One program -/

def sampleKernel : KernelSymbols where
  task := 0x20000
  tssEsp0 := 0x1F004
  innerTaskSwitch := 0x11000
  msrSet := 0x11010
  setMSR := 0x16000
  switchStack := 0x17000
  userToSystem := 0x12000
  systemToUser := 0x13000
  clockRoutine := 0x14000
  keyboardRoutine := 0x15000

/-- The clock's handler, over functions that only return. -/
def sampleHandlers : Program where
  text a := placed 0x10000 (clockHandler sampleKernel) a
  outside m m' := m.cpu.load (m.cpu.reg .esp) = .ok m'.eip ∧ m'.cpu = m.cpu.setReg .esp (m.cpu.reg .esp + 4) ∧
    m'.ports = m.ports
  gate _ _ := False

theorem sample_function (A : Set Long) (n : ℕ) {f : Long} (hf : sampleHandlers.text f = none) :
    sampleHandlers.Function A n f where
  text := hf
  total m _ hread :=
    ⟨m.go (m.cpu.setReg .esp (m.cpu.reg .esp + 4)) (m.cpu.long (m.cpu.reg .esp)), load_eq_ok.2 ⟨hread, rfl⟩, rfl, rfl⟩
  eip _ _ _ h := h.1
  keeps m m' _ h := by
    rw [h.2.1]
    exact ⟨setReg_self _ _ _, fun ws _ hrow => hrow.congr fun a => setReg_load _ _ _ a⟩
  room m m' _ h k hroom := by
    rw [h.2.1]
    exact hroom.congr fun a => setReg_readable _ _ _ a
  cs _ _ _ h := by rw [h.2.1, setReg_seg]
  ss _ _ _ h := by rw [h.2.1, setReg_seg]
  kept _ _ _ h a _ := by rw [h.2.1, setReg_load]

/-- The clock, in user mode at `0x100000`. -/
theorem interrupt_transparent_user : ∃ s, (sampleUser 0).interrupt 0x100000 kernelCs kernelDs 0x1E000 = .ok s ∧
    Eventually sampleHandlers (Transparent sampleKernel {0x100000} 0x14000 0x100000 (sampleUser 0)
      ⟨s, 0x10000, fun _ => 0, [], []⟩) ⟨s, 0x10000, fun _ => 0, [], []⟩ := by
  have hroom : ∀ n a, (sampleUser 0).Room n a := fun n a => room_of_readable (fun _ => rfl) n a
  have houter : true = decide (rpl kernelCs < rpl ((sampleUser 0).seg .cs)) := by decide
  obtain ⟨s, hs, -, -⟩ := interrupt_taken 0x100000 kernelDs houter rfl (hroom _ _)
  have hroutines : Routines sampleHandlers sampleKernel {0x100000} true 0x14000 :=
    ⟨sample_function _ _ rfl, sample_function _ _ rfl, sample_function _ _ rfl, fun _ _ _ h => h.2.2⟩
  refine ⟨s, hs, interrupt_transparent (m := ⟨s, 0x10000, fun _ => 0, [], []⟩) hroutines ?_ houter rfl
    (hroom _ _) ?_ (by decide) hs⟩
  · exact at_placed (by decide) fun _ _ h => h
  · rintro a rfl
    decide

end Asm

end Zeos
