import Mathlib.Algebra.Group.Nat.Defs
import Mathlib.Data.Nat.Notation
import Mathlib.Logic.Function.Basic
import Mathlib.Tactic.Common

/-!
# A fragment of the 32-bit x86

What an entry stub needs: pushes and pops, moves between registers, segment registers and memory, a
comparison with its signed jumps, a call through a table, and `sysexit`. Addresses wrap around at `2 ^ 32`.

`exec` runs a list of instructions, a label being the list that starts at it. The code that is called is a
parameter: the state it comes back in.

* `ends_op_iff`, `ends_jl_iff`, `ends_jg_iff`, `ends_call_iff`: what the rest of a run starts from.
* `Holds`: the longs from an address on. `holds_pushes`, `pops_run`: what a row of pushes puts there, a row
  of pops takes.
* `load_pushes`: the memory off the stack is not changed by pushes.
-/

namespace X86

abbrev Long := BitVec 32

inductive Reg
  | eax | ecx | edx | ebx | esp | ebp | esi | edi
  deriving DecidableEq, Repr

inductive Seg
  | cs | ss | ds | es | fs | gs
  deriving DecidableEq, Repr

/-- `eflags`. -/
structure Flags where
  zf : Bool
  sf : Bool
  ovf : Bool
  intf : Bool
  /-- The other bits. -/
  rest : Long

def Flags.long (f : Flags) : Long :=
  let bit (b : Bool) (i : ℕ) : Long := if b then 1#32 <<< i else 0
  f.rest ||| bit f.zf 6 ||| bit f.sf 7 ||| bit f.intf 9 ||| bit f.ovf 11

/-- The flags after `cmp` of `x` with `y`. Carry, parity and adjust are not read by any instruction here
and stay. -/
def Flags.cmp (f : Flags) (x y : Long) : Flags :=
  { f with zf := x - y == 0, sf := (x - y).msb, ovf := x.ssubOverflow y }

/-- The condition of `jl`. -/
def Flags.less (f : Flags) : Bool := f.sf != f.ovf

/-- The condition of `jg`. -/
def Flags.greater (f : Flags) : Bool := !f.zf && f.sf == f.ovf

structure Cpu where
  reg : Reg → Long
  seg : Seg → BitVec 16
  flags : Flags
  mem : Long → BitVec 8
  mapped : Long → Bool

inductive Stop
  | pageFault (a : Long)
  /-- The list of instructions is over. -/
  | ranOff
  | noFuel
  deriving DecidableEq, Repr

namespace Cpu

def setReg (c : Cpu) (r : Reg) (w : Long) : Cpu := { c with reg := Function.update c.reg r w }

def setSeg (c : Cpu) (s : Seg) (w : BitVec 16) : Cpu := { c with seg := Function.update c.seg s w }

/-- The four bytes at `a`, the lowest one first. -/
def long (c : Cpu) (a : Long) : Long := c.mem (a + 3) ++ c.mem (a + 2) ++ c.mem (a + 1) ++ c.mem a

def readable (c : Cpu) (a : Long) : Bool := c.mapped a && c.mapped (a + 1) && c.mapped (a + 2) && c.mapped (a + 3)

def stored (c : Cpu) (a w : Long) : Cpu :=
  { c with mem := fun b => if (b - a).toNat < 4 then w.extractLsb' (8 * (b - a).toNat) 8 else c.mem b }

def load (c : Cpu) (a : Long) : Except Stop Long := if c.readable a then .ok (c.long a) else .error (.pageFault a)

def store (c : Cpu) (a w : Long) : Except Stop Cpu :=
  if c.readable a then .ok (c.stored a w) else .error (.pageFault a)

def pushed (c : Cpu) (w : Long) : Cpu := (c.stored (c.reg .esp - 4) w).setReg .esp (c.reg .esp - 4)

def push (c : Cpu) (w : Long) : Except Stop Cpu :=
  if c.readable (c.reg .esp - 4) then .ok (c.pushed w) else .error (.pageFault (c.reg .esp - 4))

end Cpu

/-- An operand outside of memory. -/
inductive Src
  | imm (w : Long)
  | reg (r : Reg)
  | seg (s : Seg)
  /-- The operand of `pushf`. -/
  | flags
  deriving DecidableEq

inductive Dst
  | reg (r : Reg)
  | seg (s : Seg)
  deriving DecidableEq

def Cpu.value (c : Cpu) : Src → Long
  | .imm w => w
  | .reg r => c.reg r
  | .seg s => (c.seg s).setWidth 32
  | .flags => c.flags.long

/-- A segment register takes the low half. -/
def Cpu.write (c : Cpu) (w : Long) : Dst → Cpu
  | .reg r => c.setReg r w
  | .seg s => c.setSeg s (w.setWidth 16)

inductive Op
  | push (s : Src)
  /-- `push d(%r)` -/
  | pushm (d : Long) (r : Reg)
  | pop (d : Dst)
  | mov (s : Src) (d : Dst)
  /-- `movl d(%r), %t` -/
  | load (d : Long) (r t : Reg)
  /-- `movl %t, d(%r)` -/
  | store (t : Reg) (d : Long) (r : Reg)
  /-- `cmpl $w, %r` -/
  | cmp (w : Long) (r : Reg)
  | sti
  deriving DecidableEq

def Op.run (c : Cpu) : Op → Except Stop Cpu
  | .push s => c.push (c.value s)
  | .pushm d r => do
    let w ← c.load (c.reg r + d)
    c.push w
  | .pop d => do
    let w ← c.load (c.reg .esp)
    pure ((c.setReg .esp (c.reg .esp + 4)).write w d)
  | .mov s d => .ok (c.write (c.value s) d)
  | .load d r t => do
    let w ← c.load (c.reg r + d)
    pure (c.setReg t w)
  | .store t d r => c.store (c.reg r + d) (c.reg t)
  | .cmp w r => .ok { c with flags := c.flags.cmp (c.reg r) w }
  | .sti => .ok { c with flags := { c.flags with intf := true } }

inductive Instr (Λ : Type*)
  | op (o : Op)
  | jl (l : Λ)
  | jg (l : Λ)
  | jmp (l : Λ)
  /-- `call *table(, %r, 4)` -/
  | call (table : Long) (r : Reg)
  | sysexit

/-- The registers `sysenter` and `sysexit` take their values from. -/
structure Msr where
  sysenterCs : BitVec 16
  sysenterEsp : Long

/-- What is outside of the list of instructions. -/
structure Env (Λ : Type*) where
  msr : Msr
  /-- The code from a label on. -/
  code : Λ → List (Instr Λ)
  /-- The address a call comes back to. -/
  ret : Long
  /-- The code at an address, from its first instruction to the one its `ret` comes back to. -/
  callee : Long → Cpu → Cpu

/-- A call, with the address its target was read at and the state it came back in. -/
structure Called where
  entry : Long
  target : Long
  left : Cpu

/-- What `sysexit` leaves. -/
structure Exit where
  cpu : Cpu
  eip : Long
  calls : List Called

/-- `sysenter`, up to the first instruction of its handler. -/
def Cpu.sysenter (c : Cpu) (m : Msr) : Cpu :=
  let c := (c.setSeg .cs (m.sysenterCs &&& 0xFFFC)).setSeg .ss ((m.sysenterCs &&& 0xFFFC) + 8)
  { c.setReg .esp m.sysenterEsp with flags := { c.flags with intf := false } }

def Cpu.sysexit (c : Cpu) (m : Msr) : Cpu :=
  ((c.setSeg .cs ((m.sysenterCs + 16) ||| 3)).setSeg .ss ((m.sysenterCs + 24) ||| 3)).setReg .esp (c.reg .ecx)

def exec {Λ : Type*} (E : Env Λ) : ℕ → List (Instr Λ) → List Called → Cpu → Except Stop Exit
  | 0, _, _, _ => .error .noFuel
  | _ + 1, [], _, _ => .error .ranOff
  | n + 1, .op o :: is, log, c => do
    let c ← o.run c
    exec E n is log c
  | n + 1, .jl l :: is, log, c => exec E n (if c.flags.less then E.code l else is) log c
  | n + 1, .jg l :: is, log, c => exec E n (if c.flags.greater then E.code l else is) log c
  | n + 1, .jmp l :: _, log, c => exec E n (E.code l) log c
  | n + 1, .call table r :: is, log, c => do
    let target ← c.load (table + 4 * c.reg r)
    let c' ← c.push E.ret
    exec E n is (log ++ [⟨table + 4 * c.reg r, target, E.callee target c'⟩]) (E.callee target c')
  | _ + 1, .sysexit :: _, log, c => .ok ⟨c.sysexit E.msr, c.reg .edx, log⟩

variable {Λ : Type*} {E : Env Λ} {is : List (Instr Λ)} {log : List Called} {c : Cpu} {x : Exit}

/-! ### Runs -/

/-- The run comes to `sysexit`. -/
def Ends (E : Env Λ) (is : List (Instr Λ)) (log : List Called) (c : Cpu) (x : Exit) : Prop :=
  ∃ n, exec E n is log c = .ok x

theorem ends_op_iff {o : Op} : Ends E (.op o :: is) log c x ↔ ∃ c', o.run c = .ok c' ∧ Ends E is log c' x := by
  constructor
  · rintro ⟨n, h⟩
    cases n with
    | zero => cases h
    | succ n =>
      rw [exec] at h
      cases ho : o.run c with
      | error e => rw [ho] at h; cases h
      | ok c' => rw [ho] at h; exact ⟨c', rfl, n, h⟩
  · rintro ⟨c', ho, n, h⟩
    exact ⟨n + 1, by rw [exec, ho]; exact h⟩

/-- One instruction is taken, and the run goes on behind it. -/
theorem ends_next {is' : List (Instr Λ)} {log' : List Called} {c' : Cpu}
    (h : ∀ n, exec E (n + 1) is log c = exec E n is' log' c') : Ends E is log c x ↔ Ends E is' log' c' x := by
  constructor
  · rintro ⟨n, hx⟩
    cases n with
    | zero => cases hx
    | succ n => exact ⟨n, (h n).symm.trans hx⟩
  · rintro ⟨n, hx⟩
    exact ⟨n + 1, (h n).trans hx⟩

theorem ends_op {o : Op} {c' : Cpu} (h : o.run c = .ok c') : Ends E (.op o :: is) log c x ↔ Ends E is log c' x :=
  ends_next fun n => by
    rw [exec, h]
    rfl

theorem ends_jl_iff {l : Λ} :
    Ends E (.jl l :: is) log c x ↔ Ends E (if c.flags.less then E.code l else is) log c x :=
  ends_next fun _ => rfl

theorem ends_jg_iff {l : Λ} :
    Ends E (.jg l :: is) log c x ↔ Ends E (if c.flags.greater then E.code l else is) log c x :=
  ends_next fun _ => rfl

theorem ends_jmp_iff {l : Λ} : Ends E (.jmp l :: is) log c x ↔ Ends E (E.code l) log c x :=
  ends_next fun _ => rfl

theorem ends_call_iff {table : Long} {r : Reg} : Ends E (.call table r :: is) log c x ↔
    ∃ target c', c.load (table + 4 * c.reg r) = .ok target ∧ c.push E.ret = .ok c' ∧
      Ends E is (log ++ [⟨table + 4 * c.reg r, target, E.callee target c'⟩]) (E.callee target c') x := by
  constructor
  · rintro ⟨n, h⟩
    cases n with
    | zero => cases h
    | succ n =>
      rw [exec] at h
      cases hl : c.load (table + 4 * c.reg r) with
      | error e => rw [hl] at h; cases h
      | ok target =>
        cases hp : c.push E.ret with
        | error e => rw [hl, hp] at h; cases h
        | ok c' => rw [hl, hp] at h; exact ⟨target, c', rfl, rfl, n, h⟩
  · rintro ⟨target, c', hl, hp, n, h⟩
    exact ⟨n + 1, by rw [exec, hl, hp]; exact h⟩

theorem ends_sysexit_iff : Ends E (.sysexit :: is) log c x ↔ x = ⟨c.sysexit E.msr, c.reg .edx, log⟩ := by
  constructor
  · rintro ⟨n, h⟩
    cases n with
    | zero => cases h
    | succ n => rw [exec] at h; injection h with h; exact h.symm
  · rintro rfl
    exact ⟨1, rfl⟩

theorem exec_succ {n : ℕ} (h : exec E n is log c = .ok x) : exec E (n + 1) is log c = .ok x := by
  induction n generalizing is log c with
  | zero => cases h
  | succ n ih =>
    cases is with
    | nil => cases h
    | cons i is =>
      cases i with
      | op o =>
        rw [exec] at h ⊢
        cases ho : o.run c with
        | error e => rw [ho] at h; cases h
        | ok c' => rw [ho] at h; exact ih h
      | jl l => exact ih h
      | jg l => exact ih h
      | jmp l => exact ih h
      | call table r =>
        rw [exec] at h ⊢
        cases hl : c.load (table + 4 * c.reg r) with
        | error e => rw [hl] at h; cases h
        | ok target =>
          cases hp : c.push E.ret with
          | error e => rw [hl, hp] at h; cases h
          | ok c' => rw [hl, hp] at h; exact ih h
      | sysexit => exact h

theorem exec_le {n m : ℕ} (hnm : n ≤ m) (h : exec E n is log c = .ok x) : exec E m is log c = .ok x := by
  induction hnm with
  | refl => exact h
  | step _ ih => exact exec_succ ih

/-- A run comes to one `sysexit` at most. -/
theorem ends_unique {x' : Exit} (h : Ends E is log c x) (h' : Ends E is log c x') : x = x' := by
  obtain ⟨n, hn⟩ := h
  obtain ⟨m, hm⟩ := h'
  have hx := exec_le (Nat.le_max_left n m) hn
  rw [exec_le (Nat.le_max_right n m) hm] at hx
  exact (Except.ok.inj hx).symm

/-- Straight-line code. -/
def runOps (ops : List Op) (c : Cpu) : Except Stop Cpu := ops.foldlM Op.run c

theorem runOps_append {ops ops' : List Op} {c' : Cpu} (h : runOps ops c = .ok c') :
    runOps (ops ++ ops') c = runOps ops' c' := by
  rw [runOps, List.foldlM_append]
  exact congrArg (· >>= fun c => runOps ops' c) h

theorem ends_ops_iff {ops : List Op} :
    Ends E (ops.map .op ++ is) log c x ↔ ∃ c', runOps ops c = .ok c' ∧ Ends E is log c' x := by
  induction ops generalizing c with
  | nil =>
    constructor
    · intro h
      exact ⟨c, rfl, h⟩
    · rintro ⟨c', hc, h⟩
      cases hc
      exact h
  | cons o ops ih =>
    rw [List.map_cons, List.cons_append, ends_op_iff]
    simp only [ih, runOps, List.foldlM_cons]
    cases o.run c with
    | error e =>
      constructor
      · rintro ⟨_, h, _⟩
        cases h
      · rintro ⟨_, h, _⟩
        cases h
    | ok c₁ =>
      constructor
      · rintro ⟨_, h, hrest⟩
        cases h
        exact hrest
      · intro hrest
        exact ⟨c₁, rfl, hrest⟩

theorem sysexit_cs (c : Cpu) (m : Msr) : (c.sysexit m).seg .cs = (m.sysenterCs + 16) ||| 3 := by
  simp [Cpu.sysexit, Cpu.setReg, Cpu.setSeg]

theorem sysexit_ss (c : Cpu) (m : Msr) : (c.sysexit m).seg .ss = (m.sysenterCs + 24) ||| 3 := by
  simp [Cpu.sysexit, Cpu.setReg, Cpu.setSeg]

/-! ### Flags -/

/-- Sign and overflow of the difference differ exactly below. -/
theorem less_cmp (f : Flags) (x y : Long) : (f.cmp x y).less = decide (x.toInt < y.toInt) := by
  have hsub := BitVec.toInt_sub (x := x) (y := y)
  have h1 := x.toInt_lt
  have h2 := x.le_toInt
  have h3 := y.toInt_lt
  have h4 := y.le_toInt
  simp only [Flags.cmp, Flags.less, BitVec.ssubOverflow_eq, BitVec.msb_eq_toInt, hsub, Int.bmod]
  by_cases hx : x.toInt < 0 <;> by_cases hy : y.toInt < 0 <;> simp [hx, hy] <;> omega

theorem greater_cmp (f : Flags) (x y : Long) : (f.cmp x y).greater = decide (y.toInt < x.toInt) := by
  have hless : ((x - y).msb == x.ssubOverflow y) = !(f.cmp x y).less := by
    simp only [Flags.cmp, Flags.less, bne, Bool.not_not]
  have hz : (x - y == 0) = decide (x.toInt = y.toInt) := by
    rw [Bool.eq_iff_iff]
    simp [BitVec.toInt_inj, BitVec.sub_eq_iff_eq_add]
  have hg : (f.cmp x y).greater = (!(x - y == 0) && ((x - y).msb == x.ssubOverflow y)) := rfl
  rw [hg, hless, hz, less_cmp]
  simp only [← decide_not, ← Bool.decide_and]
  congr 1
  apply propext
  omega

/-! ### Memory -/

/-- The four bytes of a long, put together again. -/
theorem append_bytes (w : Long) :
    w.extractLsb' 24 8 ++ w.extractLsb' 16 8 ++ w.extractLsb' 8 8 ++ w.extractLsb' 0 8 = w := by
  have h2 : w.extractLsb' 24 8 ++ w.extractLsb' 16 8 = w.extractLsb' 16 16 :=
    BitVec.extractLsb'_append_extractLsb'_eq_extractLsb' rfl
  have h1 : w.extractLsb' 16 16 ++ w.extractLsb' 8 8 = w.extractLsb' 8 24 :=
    BitVec.extractLsb'_append_extractLsb'_eq_extractLsb' rfl
  have h0 : w.extractLsb' 8 24 ++ w.extractLsb' 0 8 = w.extractLsb' 0 32 :=
    BitVec.extractLsb'_append_extractLsb'_eq_extractLsb' rfl
  rw [h2, h1, h0, BitVec.extractLsb'_eq_self]

theorem long_stored (a w : Long) : (c.stored a w).long a = w := by
  have h (i : Long) : a + i - a = i := by rw [BitVec.add_comm, BitVec.add_sub_cancel]
  have h0 : a - a = 0 := BitVec.sub_self a
  simp only [Cpu.long, Cpu.stored, h, h0]
  exact append_bytes w

/-- The long at `b` is not among the `n` longs below `top` and does not reach into them. -/
def Off (n : ℕ) (top b : Long) : Prop := top = b ∨ 4 * n + 4 ≤ (top - b).toNat

theorem long_stored_off {a b w : Long} (h : Off 1 (a + 4) b) : (c.stored a w).long b = c.long b := by
  have hfar (i : Long) (hi : i.toNat < 4) : ¬ (b + i - a).toNat < 4 := by
    rcases h with h | h <;> bv_omega
  have h0 : ¬ (b - a).toNat < 4 := by simpa using hfar 0 (by decide)
  simp only [Cpu.long, Cpu.stored, hfar 1 (by decide), hfar 2 (by decide), hfar 3 (by decide), h0, if_false]

theorem Off.succ {n : ℕ} {top b : Long} (hn : 4 * (n + 1) + 4 ≤ 2 ^ 32) (h : Off (n + 1) top b) :
    Off 1 top b ∧ Off n (top - 4) b := by
  unfold Off at *
  rcases h with rfl | h
  · have hd : (top - 4 - top).toNat = 2 ^ 32 - 4 := by bv_omega
    exact ⟨.inl rfl, .inr (by omega)⟩
  · constructor <;> bv_omega
theorem Off.mono {m n : ℕ} {top b : Long} (hmn : m ≤ n) (h : Off n top b) : Off m top b := by
  rcases h with h | h
  · exact .inl h
  · exact .inr (by omega)

instance {n : ℕ} {top b : Long} : Decidable (Off n top b) := inferInstanceAs (Decidable (_ ∨ _))

theorem load_eq_ok {a w : Long} : c.load a = .ok w ↔ c.readable a = true ∧ c.long a = w := by
  rw [Cpu.load]
  split
  · rename_i h
    simp [h]
  · rename_i h
    simp [h]

/-- The longs from `a` on are `ws`. -/
def Cpu.Holds (c : Cpu) : Long → List Long → Prop
  | _, [] => True
  | a, w :: ws => c.load a = .ok w ∧ c.Holds (a + 4) ws

/-- The `n` longs below `a` can be written. -/
def Cpu.Room (c : Cpu) : ℕ → Long → Prop
  | 0, _ => True
  | n + 1, a => c.readable (a - 4) = true ∧ c.Room n (a - 4)

theorem holds_get {c : Cpu} {a : Long} {ws : List Long} {i : ℕ} {w : Long} (h : c.Holds a ws) (hi : ws[i]? = some w) :
    c.load (a + BitVec.ofNat 32 (4 * i)) = .ok w := by
  induction ws generalizing a i with
  | nil => cases hi
  | cons v ws ih =>
    cases i with
    | zero =>
      cases hi
      have ha : a + BitVec.ofNat 32 (4 * 0) = a := BitVec.add_zero a
      rw [ha]
      exact h.1
    | succ i =>
      have ha : a + BitVec.ofNat 32 (4 * (i + 1)) = a + 4 + BitVec.ofNat 32 (4 * i) := by bv_omega
      rw [ha]
      exact ih h.2 hi
theorem holds_of_get {c : Cpu} {a : Long} {ws : List Long}
    (h : ∀ i (hi : i < ws.length), c.load (a + BitVec.ofNat 32 (4 * i)) = .ok ws[i]) : c.Holds a ws := by
  induction ws generalizing a with
  | nil => trivial
  | cons w ws ih =>
    have h0 := h 0 (Nat.succ_pos _)
    have hz : a + BitVec.ofNat 32 (4 * 0) = a := BitVec.add_zero a
    rw [hz] at h0
    refine ⟨h0, ih fun i hi => ?_⟩
    have ha : a + BitVec.ofNat 32 (4 * (i + 1)) = a + 4 + BitVec.ofNat 32 (4 * i) := by bv_omega
    rw [← ha]
    exact h (i + 1) (Nat.succ_lt_succ hi)

/-- A store below leaves them. -/
theorem holds_stored {a b w : Long} {ws : List Long} (hw : (b - (a + 4)).toNat + 4 * ws.length + 4 ≤ 2 ^ 32)
    (h : c.Holds b ws) : (c.stored a w).Holds b ws := by
  induction ws generalizing b with
  | nil => trivial
  | cons v ws ih =>
    obtain ⟨hv, hws⟩ := h
    rw [List.length_cons] at hw
    refine ⟨?_, ih ?_ hws⟩
    · have hoff : Off 1 (a + 4) b := by
        unfold Off
        bv_omega
      rw [load_eq_ok] at hv ⊢
      exact ⟨hv.1, (long_stored_off hoff).trans hv.2⟩
    · bv_omega

/-- A store at one of them. -/
theorem holds_set {a w : Long} {ws : List Long} {i : ℕ} (hi : i < ws.length) (hw : 4 * ws.length + 4 ≤ 2 ^ 32)
    (h : c.Holds a ws) : (c.stored (a + BitVec.ofNat 32 (4 * i)) w).Holds a (ws.set i w) := by
  induction ws generalizing a i with
  | nil => trivial
  | cons v ws ih =>
    obtain ⟨hv, hws⟩ := h
    rw [List.length_cons] at hi hw
    rw [load_eq_ok] at hv
    cases i with
    | zero =>
      have ha : a + BitVec.ofNat 32 (4 * 0) = a := BitVec.add_zero a
      rw [ha]
      exact ⟨load_eq_ok.2 ⟨hv.1, long_stored a w⟩, holds_stored (by bv_omega) hws⟩
    | succ i =>
      have hoff : Off 1 (a + BitVec.ofNat 32 (4 * (i + 1)) + 4) a := by
        unfold Off
        bv_omega
      have ha : a + BitVec.ofNat 32 (4 * (i + 1)) = a + 4 + BitVec.ofNat 32 (4 * i) := by bv_omega
      refine ⟨load_eq_ok.2 ⟨hv.1, (long_stored_off hoff).trans hv.2⟩, ?_⟩
      rw [ha]
      exact ih (by omega) (by omega) hws

/-- The code that was called has come back as it should: its return address is popped, and the `n` longs above
it are as they were. -/
structure Keeps (n : ℕ) (c c' : Cpu) : Prop where
  esp : c'.reg .esp = c.reg .esp + 4
  frame : ∀ ws : List Long, ws.length = n → c.Holds (c.reg .esp + 4) ws → c'.Holds (c.reg .esp + 4) ws

/-! ### Rows of pushes and pops -/

@[simp] theorem pushed_esp (c : Cpu) (w : Long) : (c.pushed w).reg .esp = c.reg .esp - 4 := by
  simp [Cpu.pushed, Cpu.setReg]

theorem value_pushed {s : Src} (hs : s ≠ .reg .esp) (c : Cpu) (w : Long) : (c.pushed w).value s = c.value s := by
  cases s with
  | reg r =>
    have hr : r ≠ .esp := fun h => hs (by rw [h])
    exact Function.update_of_ne hr _ _
  | imm _ | seg _ | flags => rfl

def Cpu.pushes (c : Cpu) (ws : List Long) : Cpu := ws.foldl Cpu.pushed c

theorem value_pushes {s : Src} (hs : s ≠ .reg .esp) (c : Cpu) (ws : List Long) : (c.pushes ws).value s = c.value s := by
  induction ws generalizing c with
  | nil => rfl
  | cons w ws ih => exact (ih _).trans (value_pushed hs c w)

theorem map_value_pushes {ss : List Src} (hs : ∀ s ∈ ss, s ≠ .reg .esp) (c : Cpu) (ws : List Long) :
    ss.map (c.pushes ws).value = ss.map c.value :=
  List.map_congr_left fun s h => value_pushes (hs s h) c ws

theorem pushes_append (c : Cpu) (vs ws : List Long) : c.pushes (vs ++ ws) = (c.pushes vs).pushes ws :=
  List.foldl_append

theorem pushes_esp (c : Cpu) (ws : List Long) :
    (c.pushes ws).reg .esp = c.reg .esp - BitVec.ofNat 32 (4 * ws.length) := by
  induction ws generalizing c with
  | nil => simp [Cpu.pushes]
  | cons w ws ih =>
    calc (c.pushes (w :: ws)).reg .esp = c.reg .esp - 4 - BitVec.ofNat 32 (4 * ws.length) := by
          rw [← pushed_esp]
          exact ih (c.pushed w)
      _ = c.reg .esp - BitVec.ofNat 32 (4 * (w :: ws).length) := by
          rw [List.length_cons]
          bv_omega

theorem room_of_readable {c : Cpu} (h : ∀ a, c.readable a = true) (n : ℕ) (a : Long) : c.Room n a := by
  induction n generalizing a with
  | zero => trivial
  | succ n ih => exact ⟨h _, ih _⟩

theorem Cpu.Room.congr {c' : Cpu} (hread : ∀ a, c'.readable a = c.readable a) {n : ℕ} {a : Long} (h : c.Room n a) :
    c'.Room n a := by
  induction n generalizing a with
  | zero => trivial
  | succ n ih => exact ⟨(hread _).trans h.1, ih h.2⟩

theorem Cpu.Room.pushed {n : ℕ} {a : Long} {w : Long} (h : c.Room n a) : (c.pushed w).Room n a := by
  have hread : ∀ a, (c.pushed w).readable a = c.readable a := fun _ => rfl
  exact h.congr hread

theorem Cpu.Room.mono {m n : ℕ} {a : Long} (hmn : m ≤ n) (h : c.Room n a) : c.Room m a := by
  induction n generalizing m a with
  | zero => rw [Nat.le_zero.1 hmn]; trivial
  | succ n ih =>
    cases m with
    | zero => trivial
    | succ m => exact ⟨h.1, ih (Nat.le_of_succ_le_succ hmn) h.2⟩
theorem readable_pushes (c : Cpu) (ws : List Long) (a : Long) : (c.pushes ws).readable a = c.readable a := by
  induction ws generalizing c with
  | nil => rfl
  | cons w ws ih => exact ih _

/-- The longs left after a row of pushes. -/
theorem Cpu.Room.pushes {n : ℕ} {ws : List Long} (h : c.Room (ws.length + n) (c.reg .esp)) :
    (c.pushes ws).Room n ((c.pushes ws).reg .esp) := by
  induction ws generalizing c with
  | nil =>
    rw [List.length_nil, Nat.zero_add] at h
    exact h
  | cons w ws ih =>
    rw [List.length_cons, Nat.succ_add_eq_add_succ] at h
    have hw : (c.pushed w).Room (ws.length + n) ((c.pushed w).reg .esp) := by
      rw [pushed_esp]
      exact h.2.pushed
    exact ih hw

theorem pushes_run {ss : List Src} (hs : ∀ s ∈ ss, s ≠ .reg .esp) (hroom : c.Room ss.length (c.reg .esp)) :
    runOps (ss.map .push) c = .ok (c.pushes (ss.map c.value)) := by
  induction ss generalizing c with
  | nil => rfl
  | cons s ss ih =>
    have hvalues : ss.map (c.pushed (c.value s)).value = ss.map c.value :=
      map_value_pushes (fun t ht => hs t (List.mem_cons_of_mem _ ht)) c [c.value s]
    have hpush : Op.run c (.push s) = .ok (c.pushed (c.value s)) := if_pos hroom.1
    have hrest := ih (c := c.pushed (c.value s)) (fun t ht => hs t (List.mem_cons_of_mem _ ht))
      (by rw [pushed_esp]; exact hroom.2.pushed)
    rw [hvalues] at hrest
    rw [List.map_cons, runOps, List.foldlM_cons, hpush]
    exact hrest
theorem Cpu.Holds.congr {c' : Cpu} (hload : ∀ a, c'.load a = c.load a) {a : Long} {ws : List Long} (h : c.Holds a ws) :
    c'.Holds a ws := by
  induction ws generalizing a with
  | nil => trivial
  | cons w ws ih => exact ⟨(hload a).trans h.1, ih h.2⟩

theorem Cpu.Holds.pushed {ws : List Long} (hlen : 4 * ws.length + 4 ≤ 2 ^ 32) (v : Long)
    (h : c.Holds (c.reg .esp) ws) : (c.pushed v).Holds (c.reg .esp) ws := by
  have htop : c.reg .esp - 4 + 4 = c.reg .esp := BitVec.sub_add_cancel _ _
  have hst : (c.stored (c.reg .esp - 4) v).Holds (c.reg .esp) ws :=
    holds_stored (by rw [htop, BitVec.sub_self]; simpa using hlen) h
  have hload : ∀ a, (c.pushed v).load a = (c.stored (c.reg .esp - 4) v).load a := fun _ => rfl
  exact hst.congr hload

/-- The last long pushed is the lowest one. -/
theorem holds_pushes {vs ws : List Long} (hlen : 4 * (vs.length + ws.length) ≤ 2 ^ 32)
    (hroom : c.Room vs.length (c.reg .esp)) (h : c.Holds (c.reg .esp) ws) :
    (c.pushes vs).Holds ((c.pushes vs).reg .esp) (vs.reverse ++ ws) := by
  induction vs generalizing c ws with
  | nil => exact h
  | cons v vs ih =>
    rw [List.length_cons] at hlen
    have htop : c.reg .esp - 4 + 4 = c.reg .esp := BitVec.sub_add_cancel _ _
    have hws : (c.pushed v).Holds (c.reg .esp - 4 + 4) ws := by
      rw [htop]
      exact h.pushed (by omega) v
    have hv : (c.pushed v).load (c.reg .esp - 4) = .ok v := load_eq_ok.2 ⟨hroom.1, long_stored _ _⟩
    have hrest : ((c.pushed v).pushes vs).Holds (((c.pushed v).pushes vs).reg .esp) (vs.reverse ++ v :: ws) :=
      ih (by rw [List.length_cons]; omega) (by rw [pushed_esp]; exact hroom.2.pushed)
        (by rw [pushed_esp]; exact ⟨hv, hws⟩)
    rw [List.reverse_cons, List.append_assoc]
    exact hrest

theorem load_pushes {vs : List Long} {b : Long} (hlen : 4 * vs.length + 4 ≤ 2 ^ 32)
    (h : Off vs.length (c.reg .esp) b) : (c.pushes vs).load b = c.load b := by
  induction vs generalizing c with
  | nil => rfl
  | cons v vs ih =>
    obtain ⟨h1, hrest⟩ := h.succ hlen
    rw [List.length_cons] at hlen
    calc (c.pushes (v :: vs)).load b = (c.pushed v).load b := ih (by omega) (by rw [pushed_esp]; exact hrest)
      _ = c.load b := by
        have htop : c.reg .esp - 4 + 4 = c.reg .esp := BitVec.sub_add_cancel _ _
        have hlong : (c.pushed v).long b = c.long b := long_stored_off (by rw [htop]; exact h1)
        rw [Cpu.load, Cpu.load, hlong]
        rfl

/-- What was popped into `d`. -/
def Cpu.Has (c : Cpu) (w : Long) : Dst → Prop
  | .reg r => c.reg r = w
  | .seg s => c.seg s = w.setWidth 16

def Cpu.popped (c : Cpu) (d : Dst) (w : Long) : Cpu := (c.setReg .esp (c.reg .esp + 4)).write w d

def Cpu.pops (c : Cpu) (l : List (Dst × Long)) : Cpu := l.foldl (fun c p => c.popped p.1 p.2) c

theorem popped_has (c : Cpu) (d : Dst) (w : Long) : (c.popped d w).Has w d := by
  cases d with
  | reg r => exact Function.update_self _ _ _
  | seg s => exact Function.update_self _ _ _

theorem Cpu.Has.popped {d e : Dst} {v w : Long} (hde : d ≠ e) (hesp : d ≠ .reg .esp) (h : c.Has w d) :
    (c.popped e v).Has w d := by
  cases d with
  | reg r =>
    have hr : r ≠ .esp := fun h => hesp (by rw [h])
    cases e with
    | reg r' =>
      have hr' : r ≠ r' := fun h => hde (by rw [h])
      exact ((Function.update_of_ne hr' _ _).trans (Function.update_of_ne hr _ _)).trans h
    | seg s => exact (Function.update_of_ne hr _ _).trans h
  | seg s =>
    cases e with
    | reg r => exact h
    | seg s' =>
      have hs : s ≠ s' := fun h => hde (by rw [h])
      exact (Function.update_of_ne hs _ _).trans h

theorem Cpu.Has.pops {d : Dst} {w : Long} {l : List (Dst × Long)} (hd : d ∉ l.map Prod.fst) (hesp : d ≠ .reg .esp)
    (h : c.Has w d) : (c.pops l).Has w d := by
  induction l generalizing c with
  | nil => exact h
  | cons p l ih =>
    rw [List.map_cons, List.mem_cons, not_or] at hd
    exact ih hd.2 (h.popped hd.1 hesp)

/-- Every operand has what was popped into it. -/
theorem pops_has {l : List (Dst × Long)} (hnodup : (l.map Prod.fst).Nodup) (hesp : .reg .esp ∉ l.map Prod.fst)
    {p : Dst × Long} (hp : p ∈ l) : (c.pops l).Has p.2 p.1 := by
  induction l generalizing c with
  | nil => cases hp
  | cons q l ih =>
    rw [List.map_cons, List.nodup_cons] at hnodup
    rw [List.map_cons, List.mem_cons, not_or] at hesp
    rcases List.mem_cons.1 hp with h | h
    · rw [h]
      exact (popped_has c _ _).pops (l := l) hnodup.1 (Ne.symm hesp.1)
    · exact ih hnodup.2 hesp.2 h

theorem popped_esp {d : Dst} (hd : d ≠ .reg .esp) (w : Long) : (c.popped d w).reg .esp = c.reg .esp + 4 := by
  cases d with
  | reg r =>
    have hr : Reg.esp ≠ r := fun h => hd (by rw [h])
    exact (Function.update_of_ne hr w _).trans (Function.update_self _ _ c.reg)
  | seg s => simp [Cpu.popped, Cpu.write, Cpu.setSeg, Cpu.setReg]

theorem popped_load (c : Cpu) (d : Dst) (w a : Long) : (c.popped d w).load a = c.load a := by
  cases d with
  | reg r => rfl
  | seg s => rfl

theorem Cpu.Holds.popped {a : Long} {ws : List Long} (h : c.Holds a ws) (d : Dst) (w : Long) :
    (c.popped d w).Holds a ws :=
  h.congr (popped_load c d w)

/-- A row of pops takes the longs from `esp` on, and the ones above come to `esp`. -/
theorem pops_run {ds : List Dst} {ws vs : List Long} (hesp : .reg .esp ∉ ds) (hlen : ds.length = ws.length)
    (h : c.Holds (c.reg .esp) (ws ++ vs)) :
    runOps (ds.map .pop) c = .ok (c.pops (ds.zip ws)) ∧
      (c.pops (ds.zip ws)).Holds ((c.pops (ds.zip ws)).reg .esp) vs := by
  induction ds generalizing c ws with
  | nil =>
    cases ws with
    | nil => exact ⟨rfl, h⟩
    | cons w ws => cases hlen
  | cons d ds ih =>
    cases ws with
    | nil => cases hlen
    | cons w ws =>
      rw [List.mem_cons, not_or] at hesp
      have hpop : Op.run c (.pop d) = .ok (c.popped d w) := by
        rw [Op.run, h.1]
        rfl
      have hws : (c.popped d w).Holds ((c.popped d w).reg .esp) (ws ++ vs) := by
        rw [popped_esp (Ne.symm hesp.1)]
        exact h.2.popped d w
      have hrest := ih hesp.2 (Nat.succ.inj hlen) hws
      rw [List.map_cons, runOps, List.foldlM_cons, hpop]
      exact hrest

end X86

