import Mathlib.Logic.Relation
import Zeos.Lib.X86

/-!
# Code at addresses

`exec` runs a list of instructions. Here the instructions stand at addresses and the instruction pointer says
which one is next: a call pushes the address behind it, and where `ret` or `iret` leads is what the stack holds.

Code whose instructions are not given (compiled functions, the other side of `sysenter`) is a relation between
the states before and behind it.

* `Eventually`: whatever that code does, the run comes to a state with a property. One rule for each way to go
  on: `eventually_ops`, `eventually_inst`, `eventually_call`, `eventually_outside`, `eventually_sysenter`.
* `Eventually.stops`: if the property holds only where the code is left, it holds in every state where a run
  has left the code.
* `Program.Function`: a compiled function that keeps to the calling convention. `eventually_function`: a call of it.
* `iret_context`: an `iret` undoes an interrupt.
* `inst_mapped`: no instruction changes what is mapped.
-/

namespace X86

/-! ### Machines -/

/-- A processor at an instruction. -/
structure Core where
  cpu : Cpu
  eip : Long
  /-- The model-specific registers. -/
  msr : Long → BitVec 64
  /-- What was written to the ports so far. -/
  ports : List (BitVec 8 × BitVec 8)
  /-- The compiled functions that ran so far, each with what had been written to the ports before. -/
  calls : List (Long × List (BitVec 8 × BitVec 8))

inductive Inst
  | op (o : Op)
  /-- `addl $w, %r` -/
  | add (w : Long) (r : Reg)
  | neg (r : Reg)
  /-- `test %r, %r` -/
  | test (r : Reg)
  /-- `mov %r, a` -/
  | put (r : Reg) (a : Long)
  /-- `movb $b, %al` -/
  | movb (b : BitVec 8)
  /-- `outb %al, $port` -/
  | outb (port : BitVec 8)
  | wrmsr
  | js (a : Long)
  | call (a : Long)
  | ret
  | sysenter
  | iret
  deriving DecidableEq

/-- The flags of a result. -/
def Flags.result (f : Flags) (w : Long) (ovf : Bool) : Flags := { f with zf := w == 0, sf := w.msb, ovf := ovf }

/-- The bits of `eflags` with a field of their own. -/
def Flags.named : Long := 0xAC0

def Flags.ofLong (w : Long) : Flags where
  zf := w.getLsbD 6
  sf := w.getLsbD 7
  intf := w.getLsbD 9
  ovf := w.getLsbD 11
  rest := w &&& ~~~Flags.named

/-- The privilege level of a selector. -/
def rpl (s : BitVec 16) : ℕ := (s &&& 3).toNat

namespace Cpu

def setAl (c : Cpu) (b : BitVec 8) : Cpu := c.setReg .eax (c.reg .eax &&& 0xFFFFFF00 ||| b.setWidth 32)

def al (c : Cpu) : BitVec 8 := (c.reg .eax).setWidth 8

/-- `iret`, with the address it goes to. The stack pointer is on the stack too when the code gives up
privilege. -/
def iret (c : Cpu) : Except Stop (Cpu × Long) := do
  let eip ← c.load (c.reg .esp)
  let cs ← c.load (c.reg .esp + 4)
  let fl ← c.load (c.reg .esp + 8)
  let c' := { c.setSeg .cs (cs.setWidth 16) with flags := .ofLong fl }
  if rpl (c.seg .cs) < rpl (cs.setWidth 16) then
    let esp ← c.load (c.reg .esp + 12)
    let ss ← c.load (c.reg .esp + 16)
    pure ((c'.setReg .esp esp).setSeg .ss (ss.setWidth 16), eip)
  else pure (c'.setReg .esp (c.reg .esp + 12), eip)

end Cpu

/-- On to the address `a`. -/
def Core.go (m : Core) (c : Cpu) (a : Long) : Core := { m with cpu := c, eip := a }

@[simp] theorem go_cpu (m : Core) (c : Cpu) (a : Long) : (m.go c a).cpu = c := rfl

@[simp] theorem go_eip (m : Core) (c : Cpu) (a : Long) : (m.go c a).eip = a := rfl

@[simp] theorem go_ports (m : Core) (c : Cpu) (a : Long) : (m.go c a).ports = m.ports := rfl

@[simp] theorem go_calls (m : Core) (c : Cpu) (a : Long) : (m.go c a).calls = m.calls := rfl

@[simp] theorem go_go (m : Core) (c c' : Cpu) (a a' : Long) : (m.go c a).go c' a' = m.go c' a' := rfl

/-- Behind the compiled function that was entered in `m`. -/
def Core.after (m' m : Core) : Core := { m' with calls := m.calls ++ [(m.eip, m.ports)] }

@[simp] theorem after_cpu (m' m : Core) : (m'.after m).cpu = m'.cpu := rfl

@[simp] theorem after_eip (m' m : Core) : (m'.after m).eip = m'.eip := rfl

/-- One instruction, with the address behind it. `sysenter` has a rule of its own in `Step`. -/
def Inst.run (m : Core) (next : Long) : Inst → Except Stop Core
  | .op o => do
    let c ← o.run m.cpu
    pure (m.go c next)
  | .add w r =>
    let x := m.cpu.reg r
    .ok (m.go { m.cpu.setReg r (x + w) with flags := m.cpu.flags.result (x + w) (x.saddOverflow w) } next)
  | .neg r =>
    let x := m.cpu.reg r
    .ok (m.go { m.cpu.setReg r (-x) with flags := m.cpu.flags.result (-x) x.negOverflow } next)
  | .test r => .ok (m.go { m.cpu with flags := m.cpu.flags.result (m.cpu.reg r) false } next)
  | .put r a => do
    let c ← m.cpu.store a (m.cpu.reg r)
    pure (m.go c next)
  | .movb b => .ok (m.go (m.cpu.setAl b) next)
  | .outb port => .ok { m.go m.cpu next with ports := m.ports ++ [(port, m.cpu.al)] }
  | .wrmsr =>
    .ok { m.go m.cpu next with
      msr := Function.update m.msr (m.cpu.reg .ecx) (m.cpu.reg .edx ++ m.cpu.reg .eax) }
  | .js a => .ok (m.go m.cpu (if m.cpu.flags.sf then a else next))
  | .call a => do
    let c ← m.cpu.push next
    pure (m.go c a)
  | .ret => do
    let a ← m.cpu.load (m.cpu.reg .esp)
    pure (m.go (m.cpu.setReg .esp (m.cpu.reg .esp + 4)) a)
  | .sysenter => .error .ranOff
  | .iret => do
    let (c, a) ← m.cpu.iret
    pure (m.go c a)

structure Program where
  /-- The instruction at an address, and the address behind it. -/
  text : Long → Option (Inst × Long)
  /-- From the first instruction of a compiled function to where its code is left. -/
  outside : Core → Core → Prop
  /-- From a `sysenter` to the `sysexit`. -/
  gate : Cpu → Exit → Prop

inductive Step (P : Program) : Core → Core → Prop
  | inst {m m' : Core} {i : Inst} {next : Long} :
    P.text m.eip = some (i, next) → i.run m next = .ok m' → Step P m m'
  | sysenter {m : Core} {x : Exit} {next : Long} :
    P.text m.eip = some (.sysenter, next) → P.gate m.cpu x → Step P m (m.go x.cpu x.eip)
  | outside {m m' : Core} : P.text m.eip = none → P.outside m m' → Step P m (m'.after m)

/-- Every run from here comes to a state with the property. -/
inductive Eventually (P : Program) (Q : Core → Prop) : Core → Prop
  | here {m : Core} : Q m → Eventually P Q m
  | step {m : Core} : (∃ m', Step P m m') → (∀ m', Step P m m' → Eventually P Q m') → Eventually P Q m

/-- The code stands at the address. -/
def Program.At (P : Program) : List Inst → Long → Prop
  | [], _ => True
  | i :: is, a => ∃ next, P.text a = some (i, next) ∧ P.At is next

variable {P : Program} {Q R : Core → Prop} {m m' : Core} {is : List Inst}

/-! ### Rules -/

theorem Eventually.mono (h : Eventually P Q m) (hQR : ∀ m, Q m → R m) : Eventually P R m := by
  induction h with
  | here hQ => exact .here (hQR _ hQ)
  | step hex _ ih => exact .step hex ih

theorem Eventually.trans (h : Eventually P Q m) (hQR : ∀ m, Q m → Eventually P R m) : Eventually P R m := by
  induction h with
  | here hQ => exact hQR _ hQ
  | step hex _ ih => exact .step hex ih

theorem step_inst_iff {i : Inst} {next : Long} {m₁ : Core} (htext : P.text m.eip = some (i, next))
    (hrun : i.run m next = .ok m₁) : Step P m m' ↔ m' = m₁ := by
  constructor
  · intro h
    cases h with
    | inst ht hr =>
      rw [htext] at ht
      cases ht
      rw [hrun] at hr
      exact (Except.ok.inj hr).symm
    | sysenter ht _ =>
      rw [htext] at ht
      cases ht
      cases hrun
    | outside ht _ =>
      rw [htext] at ht
      cases ht
  · rintro rfl
    exact .inst htext hrun

theorem eventually_inst {i : Inst} (f : Long → Core) (hat : P.At (i :: is) m.eip)
    (hrun : ∀ a, i.run m a = .ok (f a)) (h : ∀ a, P.At is a → Eventually P Q (f a)) : Eventually P Q m := by
  obtain ⟨next, htext, hrest⟩ := hat
  refine .step ⟨f next, .inst htext (hrun next)⟩ fun m₁ hstep => ?_
  rw [(step_inst_iff htext (hrun next)).1 hstep]
  exact h next hrest

theorem eventually_ops {l : List Op} {c : Cpu} (hat : P.At (l.map .op ++ is) m.eip)
    (hrun : runOps l m.cpu = .ok c) (h : ∀ a, P.At is a → Eventually P Q (m.go c a)) : Eventually P Q m := by
  induction l generalizing m with
  | nil =>
    cases hrun
    exact h m.eip hat
  | cons o l ih =>
    rw [runOps, List.foldlM_cons] at hrun
    cases ho : o.run m.cpu with
    | error e =>
      rw [ho] at hrun
      cases hrun
    | ok c₁ =>
      rw [ho] at hrun
      refine eventually_inst (m.go c₁) hat (fun a => ?_) fun a ha => ih (m := m.go c₁ a) ha hrun h
      rw [Inst.run, ho]
      rfl

theorem eventually_call {f : Long} (hat : P.At (.call f :: is) m.eip)
    (hroom : m.cpu.readable (m.cpu.reg .esp - 4) = true)
    (h : ∀ a, P.At is a → Eventually P Q (m.go (m.cpu.pushed a) f)) : Eventually P Q m := by
  refine eventually_inst (fun a => m.go (m.cpu.pushed a) f) hat (fun a => ?_) h
  rw [Inst.run, Cpu.push, if_pos hroom]
  rfl

theorem eventually_ret {a : Long} (hat : P.At (.ret :: is) m.eip) (hload : m.cpu.load (m.cpu.reg .esp) = .ok a)
    (h : Eventually P Q (m.go (m.cpu.setReg .esp (m.cpu.reg .esp + 4)) a)) : Eventually P Q m := by
  refine eventually_inst (fun _ => m.go (m.cpu.setReg .esp (m.cpu.reg .esp + 4)) a) hat (fun _ => ?_) fun _ _ => h
  rw [Inst.run, hload]
  rfl

theorem eventually_outside (htext : P.text m.eip = none) (hex : ∃ m', P.outside m m')
    (h : ∀ m', P.outside m m' → Eventually P Q (m'.after m)) : Eventually P Q m := by
  obtain ⟨m₁, hm₁⟩ := hex
  refine .step ⟨m₁.after m, .outside htext hm₁⟩ fun m' hstep => ?_
  cases hstep with
  | inst ht _ =>
    rw [htext] at ht
    cases ht
  | sysenter ht _ =>
    rw [htext] at ht
    cases ht
  | outside _ hm' => exact h _ hm'

theorem eventually_sysenter (hat : P.At (.sysenter :: is) m.eip) (hex : ∃ x, P.gate m.cpu x)
    (h : ∀ x, P.gate m.cpu x → Eventually P Q (m.go x.cpu x.eip)) : Eventually P Q m := by
  obtain ⟨next, htext, -⟩ := hat
  obtain ⟨x, hx⟩ := hex
  refine .step ⟨_, .sysenter htext hx⟩ fun m' hstep => ?_
  cases hstep with
  | inst ht hr =>
    rw [htext] at ht
    cases ht
    cases hr
  | sysenter _ hx' => exact h _ hx'
  | outside ht _ =>
    rw [htext] at ht
    cases ht

/-- The instructions of a list at consecutive addresses. -/
def placed (base : Long) (is : List Inst) (a : Long) : Option (Inst × Long) :=
  is[(a - base).toNat]?.map fun i => (i, a + 1)

theorem at_placed {base : Long} (hlen : is.length < 2 ^ 32)
    (htext : ∀ a x, placed base is a = some x → P.text a = some x) : P.At is base := by
  have hrest : ∀ l, ∀ k, is.drop k = l → P.At l (base + BitVec.ofNat 32 k) := by
    intro l
    induction l with
    | nil => exact fun _ _ => trivial
    | cons i l ih =>
      intro k hk
      have hi : is[k]? = some i := by
        have hget : (is.drop k)[0]? = some i := by rw [hk]; rfl
        rw [List.getElem?_drop] at hget
        exact hget
      have hklt : k < is.length := (List.getElem?_eq_some_iff.1 hi).1
      have hoff : (base + BitVec.ofNat 32 k - base).toNat = k := by bv_omega
      have hnext : base + BitVec.ofNat 32 k + 1 = base + BitVec.ofNat 32 (k + 1) := by bv_omega
      refine ⟨_, htext _ (i, base + BitVec.ofNat 32 (k + 1)) ?_, ih (k + 1) ?_⟩
      · rw [placed, hoff, hi, ← hnext]
        rfl
      · rw [← List.drop_drop, hk]
        rfl
  have hall := hrest is 0 rfl
  have hbase : base + BitVec.ofNat 32 0 = base := BitVec.add_zero base
  rw [hbase] at hall
  exact hall

/-! ### Straight-line code -/

/-- An instruction that stores nothing. -/
def Op.quiet : Op → Bool
  | .push _ | .pushm _ _ | .store _ _ _ => false
  | _ => true

theorem quiet_mem {o : Op} {c c' : Cpu} (ho : o.quiet = true) (h : o.run c = .ok c') :
    c'.mem = c.mem ∧ c'.mapped = c.mapped := by
  cases o with
  | push _ => cases ho
  | pushm _ _ => cases ho
  | store _ _ _ => cases ho
  | pop d =>
    rw [Op.run] at h
    cases hl : c.load (c.reg .esp) with
    | error e => rw [hl] at h; cases h
    | ok w =>
      rw [hl] at h
      cases h
      cases d <;> exact ⟨rfl, rfl⟩
  | mov s d =>
    cases h
    cases d <;> exact ⟨rfl, rfl⟩
  | load d r t =>
    rw [Op.run] at h
    cases hl : c.load (c.reg r + d) with
    | error e => rw [hl] at h; cases h
    | ok w =>
      rw [hl] at h
      cases h
      exact ⟨rfl, rfl⟩
  | cmp w r =>
    cases h
    exact ⟨rfl, rfl⟩
  | sti =>
    cases h
    exact ⟨rfl, rfl⟩

theorem runOps_quiet {ops : List Op} {c c' : Cpu} (ho : ∀ o ∈ ops, o.quiet = true) (h : runOps ops c = .ok c') :
    c'.mem = c.mem ∧ c'.mapped = c.mapped := by
  induction ops generalizing c with
  | nil =>
    cases h
    exact ⟨rfl, rfl⟩
  | cons o ops ih =>
    rw [runOps, List.foldlM_cons] at h
    cases hr : o.run c with
    | error e => rw [hr] at h; cases h
    | ok c₁ =>
      rw [hr] at h
      obtain ⟨hmem, hmapped⟩ := ih (fun o h => ho o (List.mem_cons_of_mem _ h)) h
      obtain ⟨hmem', hmapped'⟩ := quiet_mem (ho o List.mem_cons_self) hr
      exact ⟨hmem.trans hmem', hmapped.trans hmapped'⟩

theorem load_congr {c c' : Cpu} (hmem : c'.mem = c.mem) (hmapped : c'.mapped = c.mapped) (a : Long) :
    c'.load a = c.load a := by
  rw [Cpu.load, Cpu.load, Cpu.readable, Cpu.readable, Cpu.long, Cpu.long, hmem, hmapped]

@[simp] theorem setReg_self (c : Cpu) (r : Reg) (w : Long) : (c.setReg r w).reg r = w := Function.update_self _ _ _

theorem setReg_of_ne {r t : Reg} (h : t ≠ r) (c : Cpu) (w : Long) : (c.setReg r w).reg t = c.reg t :=
  Function.update_of_ne h _ _

@[simp] theorem setReg_load (c : Cpu) (r : Reg) (w a : Long) : (c.setReg r w).load a = c.load a := rfl

@[simp] theorem setReg_readable (c : Cpu) (r : Reg) (w a : Long) : (c.setReg r w).readable a = c.readable a := rfl

@[simp] theorem setReg_seg (c : Cpu) (r : Reg) (w : Long) : (c.setReg r w).seg = c.seg := rfl

@[simp] theorem pushed_seg (c : Cpu) (w : Long) : (c.pushed w).seg = c.seg := rfl

theorem pushed_reg {t : Reg} (h : t ≠ .esp) (c : Cpu) (w : Long) : (c.pushed w).reg t = c.reg t :=
  Function.update_of_ne h _ _

theorem pushed_setReg {t : Reg} (ht : t ≠ .esp) (c : Cpu) (v x : Long) :
    (c.pushed v).setReg t x = (c.setReg t x).pushed v := by
  have hesp : (c.setReg t x).reg .esp = c.reg .esp := Function.update_of_ne (Ne.symm ht) _ _
  simp only [Cpu.pushed, hesp]
  simp only [Cpu.setReg, Cpu.stored, Function.update_comm ht]

theorem pushes_seg (c : Cpu) (ws : List Long) : (c.pushes ws).seg = c.seg := by
  induction ws generalizing c with
  | nil => rfl
  | cons w ws ih => exact ih _

theorem Cpu.Room.sub {c : Cpu} {n k : ℕ} {a : Long} (h : c.Room (k + n) a) :
    c.Room n (a - BitVec.ofNat 32 (4 * k)) := by
  induction k generalizing a with
  | zero =>
    have ha : a - BitVec.ofNat 32 (4 * 0) = a := BitVec.sub_zero a
    rw [ha]
    rw [Nat.zero_add] at h
    exact h
  | succ k ih =>
    have ha : a - BitVec.ofNat 32 (4 * (k + 1)) = a - 4 - BitVec.ofNat 32 (4 * k) := by bv_omega
    rw [ha]
    rw [Nat.succ_add_eq_add_succ] at h
    exact ih h.2

theorem Cpu.Room.get {c : Cpu} {n k : ℕ} {a : Long} (h : c.Room n a) (hk : k < n) :
    c.readable (a - BitVec.ofNat 32 (4 * (k + 1))) = true := by
  have hrest : c.Room 1 (a - BitVec.ofNat 32 (4 * k)) := (h.mono (m := k + 1) hk).sub
  have ha : a - BitVec.ofNat 32 (4 * (k + 1)) = a - BitVec.ofNat 32 (4 * k) - 4 := by bv_omega
  rw [ha]
  exact hrest.1

theorem Off.sub {n k j : ℕ} {top b : Long} (h : Off n top b) (hn : 4 * n + 4 ≤ 2 ^ 32) (hj : k + j ≤ n) :
    Off k (top - BitVec.ofNat 32 (4 * j)) b := by
  unfold Off at h ⊢
  rcases h with rfl | h
  · rcases Nat.eq_zero_or_pos j with rfl | hpos
    · left
      exact BitVec.sub_zero _
    · right
      have hd : top - BitVec.ofNat 32 (4 * j) - top = -BitVec.ofNat 32 (4 * j) := by bv_omega
      rw [hd]
      bv_omega
  · right
    bv_omega

theorem load_stored {c : Cpu} {a b : Long} (h : Off 1 (a + 4) b) (w : Long) : (c.stored a w).load b = c.load b := by
  rw [Cpu.load, Cpu.load, long_stored_off h]
  rfl

@[simp] theorem stored_readable (c : Cpu) (a w b : Long) : (c.stored a w).readable b = c.readable b := rfl

theorem stored_load {c : Cpu} {a : Long} (h : c.readable a = true) (w : Long) : (c.stored a w).load a = .ok w :=
  load_eq_ok.2 ⟨h, long_stored a w⟩

theorem readable_of_load {c c' : Cpu} {a b : Long} (h : c'.load a = c.load b) (hr : c.readable b = true) :
    c'.readable a = true := by
  rw [load_eq_ok.2 ⟨hr, rfl⟩] at h
  exact (load_eq_ok.1 h).1

/-- Registers that are filled one after the other. -/
def Cpu.sets (c : Cpu) (l : List (Reg × Long)) : Cpu := l.foldl (fun c p => c.setReg p.1 p.2) c

theorem sets_load (c : Cpu) (l : List (Reg × Long)) (a : Long) : (c.sets l).load a = c.load a := by
  induction l generalizing c with
  | nil => rfl
  | cons p l ih => exact ih _

theorem sets_readable (c : Cpu) (l : List (Reg × Long)) (a : Long) : (c.sets l).readable a = c.readable a := by
  induction l generalizing c with
  | nil => rfl
  | cons p l ih => exact ih _

theorem sets_seg (c : Cpu) (l : List (Reg × Long)) : (c.sets l).seg = c.seg := by
  induction l generalizing c with
  | nil => rfl
  | cons p l ih => exact ih _

theorem sets_of_notMem {c : Cpu} {l : List (Reg × Long)} {r : Reg} (hr : r ∉ l.map Prod.fst) :
    (c.sets l).reg r = c.reg r := by
  induction l generalizing c with
  | nil => rfl
  | cons p l ih =>
    rw [List.map_cons, List.mem_cons, not_or] at hr
    exact (ih hr.2).trans (Function.update_of_ne hr.1 _ _)

theorem sets_of_mem {c : Cpu} {l : List (Reg × Long)} (hl : (l.map Prod.fst).Nodup) {p : Reg × Long}
    (hp : p ∈ l) : (c.sets l).reg p.1 = p.2 := by
  induction l generalizing c with
  | nil => cases hp
  | cons q l ih =>
    rw [List.map_cons, List.nodup_cons] at hl
    rcases List.mem_cons.1 hp with rfl | hp
    · exact (sets_of_notMem hl.1).trans (Function.update_self _ _ _)
    · exact ih hl.2 hp

theorem setWidth_word (w : BitVec 16) : (w.setWidth 32).setWidth 16 = w := by
  rw [BitVec.setWidth_setWidth_of_le _ (by decide), BitVec.setWidth_eq]

theorem pops_reg {c : Cpu} {l : List (Dst × Long)} {t : Reg} (ht : .reg t ∉ l.map Prod.fst) (hesp : t ≠ .esp) :
    (c.pops l).reg t = c.reg t :=
  Cpu.Has.pops (w := c.reg t) ht (fun h => hesp (by injection h)) rfl

theorem pops_seg {c : Cpu} {l : List (Dst × Long)} {t : Seg} (ht : .seg t ∉ l.map Prod.fst) :
    (c.pops l).seg t = c.seg t :=
  (Cpu.Has.pops (w := (c.seg t).setWidth 32) ht nofun (setWidth_word _).symm).trans (setWidth_word _)

theorem pops_esp {c : Cpu} {l : List (Dst × Long)} (hl : .reg .esp ∉ l.map Prod.fst) :
    (c.pops l).reg .esp = c.reg .esp + BitVec.ofNat 32 (4 * l.length) := by
  induction l generalizing c with
  | nil => exact (BitVec.add_zero _).symm
  | cons p l ih =>
    rw [List.map_cons, List.mem_cons, not_or] at hl
    calc (c.pops (p :: l)).reg .esp = c.reg .esp + 4 + BitVec.ofNat 32 (4 * l.length) := by
          rw [← popped_esp (Ne.symm hl.1) p.2]
          exact ih hl.2
      _ = c.reg .esp + BitVec.ofNat 32 (4 * (p :: l).length) := by
          rw [List.length_cons]
          bv_omega

theorem pops_load (c : Cpu) (l : List (Dst × Long)) (a : Long) : (c.pops l).load a = c.load a := by
  induction l generalizing c with
  | nil => rfl
  | cons p l ih => exact (ih _).trans (popped_load c p.1 p.2 a)

theorem holds_of_load {c c' : Cpu} {a : Long} {ws : List Long} (h : c.Holds a ws)
    (hload : ∀ i < ws.length, c'.load (a + BitVec.ofNat 32 (4 * i)) = c.load (a + BitVec.ofNat 32 (4 * i))) :
    c'.Holds a ws :=
  holds_of_get fun i hi => (hload i hi).trans (holds_get h (List.getElem?_eq_getElem hi))

theorem holds_append {c : Cpu} {a : Long} {vs ws : List Long} :
    c.Holds a (vs ++ ws) ↔ c.Holds a vs ∧ c.Holds (a + BitVec.ofNat 32 (4 * vs.length)) ws := by
  induction vs generalizing a with
  | nil =>
    have ha : a + BitVec.ofNat 32 (4 * 0) = a := BitVec.add_zero a
    rw [List.length_nil, ha]
    exact ⟨fun h => ⟨trivial, h⟩, fun h => h.2⟩
  | cons v vs ih =>
    have ha : a + 4 + BitVec.ofNat 32 (4 * vs.length) = a + BitVec.ofNat 32 (4 * (v :: vs).length) := by
      rw [List.length_cons]
      bv_omega
    rw [List.cons_append, Cpu.Holds, ih, ha, Cpu.Holds, and_assoc]

theorem pushImm_run {c : Cpu} {ws : List Long} (hroom : c.Room ws.length (c.reg .esp)) :
    runOps (ws.map fun w => .push (.imm w)) c = .ok (c.pushes ws) := by
  have hrun := @pushes_run c (ws.map Src.imm) (by simp) (by rw [List.length_map]; exact hroom)
  rw [List.map_map, List.map_map] at hrun
  have hvalues : c.value ∘ Src.imm = id := rfl
  rw [hvalues, List.map_id] at hrun
  exact hrun

/-! ### What is mapped -/

theorem push_mapped {c c' : Cpu} {w : Long} (h : c.push w = .ok c') : c'.mapped = c.mapped := by
  unfold Cpu.push at h
  split at h
  · cases h
    rfl
  · cases h

theorem store_mapped {c c' : Cpu} {a w : Long} (h : c.store a w = .ok c') : c'.mapped = c.mapped := by
  unfold Cpu.store at h
  split at h
  · cases h
    rfl
  · cases h

theorem op_mapped {o : Op} {c c' : Cpu} (h : o.run c = .ok c') : c'.mapped = c.mapped := by
  cases o with
  | push _ => exact push_mapped h
  | pushm d r =>
    rw [Op.run] at h
    cases hl : c.load (c.reg r + d) with
    | error e => rw [hl] at h; cases h
    | ok w =>
      rw [hl] at h
      exact push_mapped h
  | store _ _ _ => exact store_mapped h
  | _ => exact (quiet_mem rfl h).2

theorem iret_mapped {c c' : Cpu} {a : Long} (h : c.iret = .ok (c', a)) : c'.mapped = c.mapped := by
  unfold Cpu.iret at h
  cases h0 : c.load (c.reg .esp) with
  | error e => rw [h0] at h; cases h
  | ok w0 =>
    cases h1 : c.load (c.reg .esp + 4) with
    | error e => rw [h0, h1] at h; cases h
    | ok w1 =>
      cases h2 : c.load (c.reg .esp + 8) with
      | error e => rw [h0, h1, h2] at h; cases h
      | ok w2 =>
        rw [h0, h1, h2] at h
        simp only [bind, Except.bind] at h
        split at h
        · cases h3 : c.load (c.reg .esp + 12) with
          | error e => rw [h3] at h; cases h
          | ok w3 =>
            cases h4 : c.load (c.reg .esp + 16) with
            | error e => rw [h3, h4] at h; cases h
            | ok w4 =>
              rw [h3, h4] at h
              cases h
              rfl
        · cases h
          rfl

/-- No instruction changes what is mapped. -/
theorem inst_mapped {i : Inst} {m m' : Core} {next : Long} (h : i.run m next = .ok m') :
    m'.cpu.mapped = m.cpu.mapped := by
  cases i with
  | op o =>
    rw [Inst.run] at h
    cases ho : o.run m.cpu with
    | error e => rw [ho] at h; cases h
    | ok c =>
      rw [ho] at h
      cases h
      exact op_mapped ho
  | put r a =>
    rw [Inst.run] at h
    cases hs : m.cpu.store a (m.cpu.reg r) with
    | error e => rw [hs] at h; cases h
    | ok c =>
      rw [hs] at h
      cases h
      exact store_mapped hs
  | call a =>
    rw [Inst.run] at h
    cases hp : m.cpu.push next with
    | error e => rw [hp] at h; cases h
    | ok c =>
      rw [hp] at h
      cases h
      exact push_mapped hp
  | ret =>
    rw [Inst.run] at h
    cases hl : m.cpu.load (m.cpu.reg .esp) with
    | error e => rw [hl] at h; cases h
    | ok a =>
      rw [hl] at h
      cases h
      rfl
  | iret =>
    rw [Inst.run] at h
    cases hi : m.cpu.iret with
    | error e => rw [hi] at h; cases h
    | ok x =>
      rw [hi] at h
      cases h
      exact iret_mapped hi
  | sysenter => cases h
  | _ =>
    cases h
    rfl

/-! ### Where the code is left -/

def Step.Star (P : Program) : Core → Core → Prop := Relation.ReflTransGen (Step P)

/-- Neither the code nor what is called from it goes on here. -/
def Program.Final (P : Program) (m : Core) : Prop := ∀ m', ¬ Step P m m'

/-- A run from `m` ends in `m'`. -/
def Stops (P : Program) (m m' : Core) : Prop := Step.Star P m m' ∧ P.Final m'

theorem Eventually.stops (h : Eventually P Q m) (hQ : ∀ m, Q m → P.Final m) (hs : Stops P m m') : Q m' := by
  obtain ⟨hrun, hfinal⟩ := hs
  induction h with
  | here hm =>
    rcases hrun.cases_head with rfl | ⟨m₁, hstep, -⟩
    · exact hm
    · exact absurd hstep (hQ _ hm m₁)
  | step hex _ ih =>
    rcases hrun.cases_head with rfl | ⟨m₁, hstep, hrest⟩
    · obtain ⟨m₁, hstep⟩ := hex
      exact absurd hstep (hfinal m₁)
    · exact ih m₁ hstep hrest

/-- And some run does end. -/
theorem Eventually.exists_stops (h : Eventually P Q m) (hQ : ∀ m, Q m → P.Final m) : ∃ m', Stops P m m' := by
  induction h with
  | here hm => exact ⟨_, .refl, hQ _ hm⟩
  | step hex _ ih =>
    obtain ⟨m₁, hstep⟩ := hex
    obtain ⟨m', hrun, hfinal⟩ := ih m₁ hstep
    exact ⟨m', .head hstep hrun, hfinal⟩

/-! ### Compiled functions -/

/-- The code at `f` keeps to the calling convention: it comes back to its return address, with the `n` longs above
it, the stack and the code segment as they were. It does not write to `A`. -/
structure Program.Function (P : Program) (A : Set Long) (n : ℕ) (f : Long) : Prop where
  text : P.text f = none
  total : ∀ m, m.eip = f → m.cpu.readable (m.cpu.reg .esp) = true → ∃ m', P.outside m m'
  eip : ∀ m m', m.eip = f → P.outside m m' → m.cpu.load (m.cpu.reg .esp) = .ok m'.eip
  keeps : ∀ m m', m.eip = f → P.outside m m' → Keeps n m.cpu m'.cpu
  room : ∀ m m', m.eip = f → P.outside m m' → ∀ k, m.cpu.Room k (m.cpu.reg .esp + 4) →
    m'.cpu.Room k (m.cpu.reg .esp + 4)
  cs : ∀ m m', m.eip = f → P.outside m m' → m'.cpu.seg .cs = m.cpu.seg .cs
  ss : ∀ m m', m.eip = f → P.outside m m' → m'.cpu.seg .ss = m.cpu.seg .ss
  kept : ∀ m m', m.eip = f → P.outside m m' → ∀ a ∈ A, m'.cpu.load a = m.cpu.load a

/-- What a call of `f` has left, `ws` being on top of the stack. `e` is the state that `f` was entered in. -/
structure Came (P : Program) (A : Set Long) (k : ℕ) (f : Long) (ws : List Long) (m e m' : Core) : Prop where
  entry : e.eip = f
  ran : ∃ l, P.outside e l ∧ m' = l.after e
  esp_entry : e.cpu.reg .esp = m.cpu.reg .esp - 4
  stack_entry : e.cpu.Holds (m.cpu.reg .esp) ws
  ports : e.ports = m.ports
  calls : m'.calls = m.calls ++ [(f, m.ports)]
  esp : m'.cpu.reg .esp = m.cpu.reg .esp
  stack : m'.cpu.Holds (m'.cpu.reg .esp) ws
  room : m'.cpu.Room k (m'.cpu.reg .esp)
  cs : m'.cpu.seg .cs = m.cpu.seg .cs
  ss : m'.cpu.seg .ss = m.cpu.seg .ss
  kept_entry : ∀ a ∈ A, e.cpu.load a = m.cpu.load a
  kept : ∀ a ∈ A, m'.cpu.load a = m.cpu.load a

theorem eventually_function {A : Set Long} {f : Long} {k : ℕ} {ws : List Long} (hf : P.Function A ws.length f)
    (hat : P.At (.call f :: is) m.eip) (hk : 0 < k) (hroom : m.cpu.Room k (m.cpu.reg .esp))
    (hws : 4 * (ws.length + 1) ≤ 2 ^ 32) (hrow : m.cpu.Holds (m.cpu.reg .esp) ws)
    (hA : ∀ a ∈ A, Off 1 (m.cpu.reg .esp) a)
    (h : ∀ e m', Came P A k f ws m e m' → P.At is m'.eip → Eventually P Q m') : Eventually P Q m := by
  have hone : m.cpu.Room 1 (m.cpu.reg .esp) := hroom.mono hk
  refine eventually_call hat hone.1 fun next hnext => ?_
  have hesp : (m.cpu.pushed next).reg .esp + 4 = m.cpu.reg .esp := by
    rw [pushed_esp]
    exact BitVec.sub_add_cancel _ _
  have htop : (m.cpu.pushed next).Holds ((m.cpu.pushed next).reg .esp) (next :: ws) :=
    @holds_pushes m.cpu [next] ws (by rw [List.length_singleton]; omega) hone hrow
  refine eventually_outside hf.text (hf.total _ rfl (load_eq_ok.1 htop.1).1) fun m' hm' => ?_
  have hback : m'.eip = next := by
    have heip := hf.eip _ _ rfl hm'
    rw [go_cpu, htop.1] at heip
    exact (Except.ok.inj heip).symm
  have hkeeps := hf.keeps _ _ rfl hm'
  have hesp' : m'.cpu.reg .esp = m.cpu.reg .esp := hkeeps.esp.trans hesp
  have hload : ∀ a ∈ A, (m.cpu.pushed next).load a = m.cpu.load a := fun a ha =>
    @load_pushes m.cpu [next] a (by simp) (hA a ha)
  have hrow' := htop.2
  rw [hesp] at hrow'
  have hleft := hkeeps.frame ws rfl
  rw [go_cpu, hesp] at hleft
  have hstack := hleft hrow'
  have hroom' := hf.room _ _ rfl hm' k
  rw [go_cpu, hesp] at hroom'
  have hcs := hf.cs _ _ rfl hm'
  have hss := hf.ss _ _ rfl hm'
  refine h _ _ ⟨rfl, ⟨m', hm', rfl⟩, pushed_esp _ _, hrow', rfl, rfl, hesp', ?_, ?_, hcs, hss, hload,
    fun a ha => (hf.kept _ _ rfl hm' a ha).trans (hload a ha)⟩ (by rw [after_eip, hback]; exact hnext)
  · rw [after_cpu, hesp']
    exact hstack
  · rw [after_cpu, hesp']
    exact hroom' hroom.pushed

/-! ### Interrupts -/

namespace Cpu

/-- What the processor pushes when it leaves the code at `eip`, the last long at the end. -/
def context (c : Cpu) (eip : Long) (outer : Bool) : List Long :=
  (if outer then [(c.seg .ss).setWidth 32, c.reg .esp] else []) ++ [c.flags.long, (c.seg .cs).setWidth 32, eip]

/-- The stack that an interrupt handler gets: a ring further in has its own. -/
def innerStack (c : Cpu) (outer : Bool) (ss0 : BitVec 16) (esp0 : Long) : Cpu :=
  if outer then (c.setSeg .ss ss0).setReg .esp esp0 else c

/-- An interrupt in front of the instruction at `eip`, up to the first instruction of its handler. `cs` is the
selector in the gate and `ss0`, `esp0` come from the task state segment. -/
def interrupt (c : Cpu) (eip : Long) (cs ss0 : BitVec 16) (esp0 : Long) : Except Stop Cpu := do
  let outer := decide (rpl cs < rpl (c.seg .cs))
  let s ← runOps ((c.context eip outer).map fun w => .push (.imm w)) (c.innerStack outer ss0 esp0)
  pure { s.setSeg .cs cs with flags := { s.flags with intf := false } }

end Cpu

/-- On the way into the handler of an interrupt at `eip`, with its stack at `top`. -/
structure Taken (outer : Bool) (c : Cpu) (eip top : Long) (s : Cpu) : Prop where
  stack : s.Holds (s.reg .esp) (c.context eip outer).reverse
  esp : s.reg .esp = top - BitVec.ofNat 32 (4 * (c.context eip outer).length)
  reg : ∀ r, r ≠ .esp → s.reg r = c.reg r
  seg : ∀ t, t ≠ .cs → t ≠ .ss → s.seg t = c.seg t
  ss : outer = false → s.seg .ss = c.seg .ss
  readable : ∀ a, s.readable a = c.readable a
  load : ∀ a, Off (c.context eip outer).length top a → s.load a = c.load a

theorem context_length (c : Cpu) (eip : Long) (outer : Bool) :
    (c.context eip outer).length = if outer then 5 else 3 := by cases outer <;> rfl

theorem interrupt_taken {c : Cpu} {top esp0 : Long} {cs : BitVec 16} {outer : Bool} (eip : Long) (ss0 : BitVec 16)
    (houter : outer = decide (rpl cs < rpl (c.seg .cs))) (htop : top = if outer then esp0 else c.reg .esp)
    (hroom : c.Room (c.context eip outer).length top) :
    ∃ s, c.interrupt eip cs ss0 esp0 = .ok s ∧ Taken outer c eip top s ∧ s.seg .cs = cs := by
  have hesp : (c.innerStack outer ss0 esp0).reg .esp = top := by
    rw [htop]
    cases outer
    · rfl
    · exact setReg_self _ _ _
  have hmem : ∀ a, (c.innerStack outer ss0 esp0).load a = c.load a := by
    intro a
    cases outer <;> rfl
  have hread : ∀ a, (c.innerStack outer ss0 esp0).readable a = c.readable a := by
    intro a
    cases outer <;> rfl
  have hlen := context_length c eip outer
  have hroom' : (c.innerStack outer ss0 esp0).Room (c.context eip outer).length
      ((c.innerStack outer ss0 esp0).reg .esp) := by
    rw [hesp]
    exact hroom.congr hread
  let s := (c.innerStack outer ss0 esp0).pushes (c.context eip outer)
  have hrun : runOps ((c.context eip outer).map fun w => .push (.imm w)) (c.innerStack outer ss0 esp0) = .ok s :=
    pushImm_run hroom'
  refine ⟨{ s.setSeg .cs cs with flags := { s.flags with intf := false } }, ?_, ⟨?_, ?_, ?_, ?_, ?_, ?_, ?_⟩, ?_⟩
  · rw [Cpu.interrupt]
    simp only [← houter, hrun]
    rfl
  · have hrow := @holds_pushes _ (c.context eip outer) [] (by rw [hlen]; cases outer <;> decide) hroom' trivial
    rw [List.append_nil] at hrow
    have hload : ∀ a, ({ s.setSeg .cs cs with flags := { s.flags with intf := false } } : Cpu).load a = s.load a :=
      fun _ => rfl
    exact hrow.congr hload
  · rw [← hesp]
    exact pushes_esp _ _
  · intro r hr
    have hvalue : s.value (.reg r) = (c.innerStack outer ss0 esp0).value (.reg r) :=
      value_pushes (fun h => hr (by injection h)) _ _
    refine hvalue.trans ?_
    cases outer
    · rfl
    · exact setReg_of_ne hr _ _
  · intro t hcs hss
    have hseg : s.seg = (c.innerStack outer ss0 esp0).seg := pushes_seg _ _
    refine (Function.update_of_ne hcs _ _).trans ?_
    rw [hseg]
    cases outer
    · rfl
    · exact Function.update_of_ne hss _ _
  · rintro rfl
    have hseg : s.seg = (c.innerStack false ss0 esp0).seg := pushes_seg _ _
    have hne : Seg.ss ≠ .cs := by decide
    refine (Function.update_of_ne hne cs s.seg).trans ?_
    rw [hseg]
    rfl
  · intro a
    exact (readable_pushes _ _ a).trans (hread a)
  · intro a ha
    have hload : s.load a = (c.innerStack outer ss0 esp0).load a :=
      load_pushes (by rw [hlen]; cases outer <;> decide) (by rw [hesp]; exact ha)
    exact hload.trans (hmem a)
  · exact Function.update_self Seg.cs cs s.seg

theorem and_not_of_and {w n : Long} (h : w &&& n = 0) : w &&& ~~~n = w := by
  calc w &&& ~~~n = w &&& n ||| w &&& ~~~n := by rw [h]; simp
    _ = w := by rw [← BitVec.and_or_distrib_left, BitVec.or_not_self, BitVec.and_allOnes]

theorem getLsbD_of_and {w n : Long} (h : w &&& n = 0) {i : ℕ} (hi : n.getLsbD i = true) : w.getLsbD i = false := by
  have hbit : (w &&& n).getLsbD i = false := by
    rw [h]
    exact BitVec.getLsbD_zero
  rw [BitVec.getLsbD_and, hi, Bool.and_true] at hbit
  exact hbit

/-- The named bits of `eflags`. -/
def Flags.bits (zf sf intf ovf : Bool) : Long := { zf, sf, ovf, intf, rest := 0 : Flags }.long

theorem long_eq (f : Flags) : f.long = f.rest ||| Flags.bits f.zf f.sf f.intf f.ovf := by
  simp [Flags.bits, Flags.long, BitVec.or_assoc]

/-- `popf` takes what `pushf` left, if the other bits are only the other bits. -/
theorem ofLong_long {f : Flags} (h : f.rest &&& Flags.named = 0) : Flags.ofLong f.long = f := by
  have hbits : ∀ zf sf intf ovf, Flags.bits zf sf intf ovf &&& ~~~Flags.named = 0 ∧
      (Flags.bits zf sf intf ovf).getLsbD 6 = zf ∧ (Flags.bits zf sf intf ovf).getLsbD 7 = sf ∧
      (Flags.bits zf sf intf ovf).getLsbD 9 = intf ∧ (Flags.bits zf sf intf ovf).getLsbD 11 = ovf := by decide
  obtain ⟨hrest, h6, h7, h9, h11⟩ := hbits f.zf f.sf f.intf f.ovf
  have hr : (f.rest ||| Flags.bits f.zf f.sf f.intf f.ovf) &&& ~~~Flags.named = f.rest := by
    rw [BitVec.and_comm, BitVec.and_or_distrib_left, BitVec.and_comm, and_not_of_and h, BitVec.and_comm, hrest]
    exact BitVec.or_zero
  rw [long_eq, Flags.ofLong, hr]
  simp only [BitVec.getLsbD_or, h6, h7, h9, h11, getLsbD_of_and h (i := 6) (by decide),
    getLsbD_of_and h (i := 7) (by decide), getLsbD_of_and h (i := 9) (by decide),
    getLsbD_of_and h (i := 11) (by decide), Bool.false_or]

/-- From `s` the processor has gone back to where it was in `c`, to a ring further out if `outer`. -/
structure Returned (outer : Bool) (c s c' : Cpu) : Prop where
  mem : c'.mem = s.mem
  mapped : c'.mapped = s.mapped
  flags : c'.flags = c.flags
  cs : c'.seg .cs = c.seg .cs
  seg : ∀ t, t ≠ .cs → t ≠ .ss → c'.seg t = s.seg t
  reg : ∀ r, r ≠ .esp → c'.reg r = s.reg r
  esp : c'.reg .esp = if outer then c.reg .esp else s.reg .esp + 12
  ss : c'.seg .ss = if outer then c.seg .ss else s.seg .ss

theorem context_reverse (c : Cpu) (eip : Long) (outer : Bool) : (c.context eip outer).reverse =
    [eip, (c.seg .cs).setWidth 32, c.flags.long] ++ if outer then [c.reg .esp, (c.seg .ss).setWidth 32] else [] := by
  cases outer <;> rfl

/-- **An `iret` undoes an interrupt**: the code goes on where it was left, with its stack, its flags and its
privilege, whatever the handler has done above what was pushed. -/
theorem iret_context {c s : Cpu} {eip : Long} {vs : List Long} {outer : Bool}
    (houter : outer = decide (rpl (s.seg .cs) < rpl (c.seg .cs))) (hrest : c.flags.rest &&& Flags.named = 0)
    (h : s.Holds (s.reg .esp) ((c.context eip outer).reverse ++ vs)) :
    ∃ c', s.iret = .ok (c', eip) ∧ Returned outer c s c' := by
  rw [context_reverse, List.append_assoc] at h
  have h0 : s.load (s.reg .esp) = .ok eip := h.1
  have h1 : s.load (s.reg .esp + 4) = .ok ((c.seg .cs).setWidth 32) := holds_get (i := 1) h rfl
  have h2 : s.load (s.reg .esp + 8) = .ok c.flags.long := holds_get (i := 2) h rfl
  have hiret : s.iret = if rpl (s.seg .cs) < rpl (c.seg .cs) then do
        let esp ← s.load (s.reg .esp + 12)
        let ss ← s.load (s.reg .esp + 16)
        pure ((({ s.setSeg .cs (c.seg .cs) with flags := c.flags }).setReg .esp esp).setSeg .ss (ss.setWidth 16), eip)
      else pure (({ s.setSeg .cs (c.seg .cs) with flags := c.flags }).setReg .esp (s.reg .esp + 12), eip) := by
    rw [Cpu.iret, h0, h1, h2]
    simp only [Except.bind, bind, setWidth_word, ofLong_long hrest]
  cases outer with
  | true =>
    have h3 : s.load (s.reg .esp + 12) = .ok (c.reg .esp) := holds_get (i := 3) h rfl
    have h4 : s.load (s.reg .esp + 16) = .ok ((c.seg .ss).setWidth 32) := holds_get (i := 4) h rfl
    refine ⟨(({ s.setSeg .cs (c.seg .cs) with flags := c.flags }).setReg .esp (c.reg .esp)).setSeg .ss (c.seg .ss),
      ?_, ?_⟩
    · rw [hiret, if_pos (of_decide_eq_true houter.symm), h3, h4]
      simp only [Except.bind, bind, setWidth_word]
      rfl
    · constructor <;> simp +contextual [Cpu.setReg, Cpu.setSeg]
  | false =>
    refine ⟨({ s.setSeg .cs (c.seg .cs) with flags := c.flags }).setReg .esp (s.reg .esp + 12), ?_, ?_⟩
    · rw [hiret, if_neg (of_decide_eq_false houter.symm)]
      rfl
    · constructor <;> simp +contextual [Cpu.setReg, Cpu.setSeg]

end X86
