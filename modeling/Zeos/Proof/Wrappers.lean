import Zeos.Assembly
import Zeos.Proof.Handler

/-!
# System calls from C

The wrappers of `user-utils.S` on top of `system_call_handler`: what a call of the C library does, from its first
instruction to its return.

* `fits`: each wrapper has the number of its routine, and fills `ebx`, `ecx`, `edx` with its arguments in order.
* `systemCall_serviced`: the handler, entered from `syscall_sysenter`.
* `wrapper_performs`: **a call runs its routine on its arguments, and comes back as a C function does, with the
  result or with -1 and `errno`.**
-/

namespace Zeos

open X86 Asm

/-! ### The wrappers -/

/-- How many arguments the C prototype of a call has. -/
def Routine.arity : Routine → ℕ
  | .sysWrite => 3
  | .sysGetStats | .sysCreatethread | .sysSemInit => 2
  | .sysDealloc | .sysDumpScreen | .sysGetKey | .sysSemWait | .sysSemSignal | .sysSemDestroy => 1
  | _ => 0

/-- The arguments of a routine, from those of its wrapper. -/
def Routine.arguments (U : UserSymbols) (r : Routine) (args : List Long) : List Long :=
  if r = .sysCreatethread then U.twrap :: args else args

namespace Asm

/-- The value that a wrapper with these arguments takes. -/
def Arg.value (args : List Long) : Arg → Long
  | .imm w => w
  | .param d => args.getD ((d.toNat - 8) / 4) 0

def Wrapper.values (w : Wrapper) (args : List Long) : List (Reg × Long) :=
  w.moves.map fun p => (p.1, p.2.value args)

/-- The parameter is one of `n`. -/
def Arg.among (n : ℕ) : Arg → Bool
  | .imm _ => true
  | .param d => 8 ≤ d.toNat && (d.toNat - 8) % 4 == 0 && (d.toNat - 8) / 4 < n

/-- A wrapper does what the convention of C functions and the handler ask for. -/
structure Fits (U : UserSymbols) (w : Wrapper) (r : Routine) : Prop where
  number : (.eax, .imm (BitVec.ofNat 32 (sysCallTable.idxOf r))) ∈ w.moves
  saved : w.saved.Sublist [.ebx, .ecx, .edx]
  saved_ebx : .ebx ∈ w.moves.map Prod.fst → .ebx ∈ w.saved
  moves : ∀ s ∈ w.moves.map Prod.fst, s = .eax ∨ s = .ebx ∨ s = .ecx ∨ s = .edx
  moves_nodup : (w.moves.map Prod.fst).Nodup
  params : w.moves.all (fun p => p.2.among r.arity) = true
  arguments : ∀ args : List Long, args.length = r.arity →
    ∀ p ∈ [Reg.ebx, .ecx, .edx].zip (r.arguments U args), p ∈ w.values args

theorem wrapper_number {U : UserSymbols} {r : Routine} {w : Wrapper} (h : wrapper U r = some w) :
    (.eax, .imm (BitVec.ofNat 32 (sysCallTable.idxOf r))) ∈ w.moves := by
  cases r <;> cases h
  all_goals first
    | exact .head _
    | exact .tail _ (.head _)

theorem wrapper_arguments {U : UserSymbols} {r : Routine} {w : Wrapper} (h : wrapper U r = some w)
    {args : List Long} (hargs : args.length = r.arity) :
    ∀ p ∈ [Reg.ebx, .ecx, .edx].zip (r.arguments U args), p ∈ w.values args := by
  cases r with
  | sysNiSyscall => cases h
  | sysWrite =>
    cases h
    obtain ⟨a, b, c, rfl⟩ := List.length_eq_three.1 hargs
    simp [Routine.arguments, Wrapper.values, write, Arg.value]
  | sysGetStats =>
    cases h
    obtain ⟨a, b, rfl⟩ := List.length_eq_two.1 hargs
    simp [Routine.arguments, Wrapper.values, getStats, Arg.value]
  | sysCreatethread =>
    cases h
    obtain ⟨a, b, rfl⟩ := List.length_eq_two.1 hargs
    simp [Routine.arguments, Wrapper.values, createthread, Arg.value]
  | sysSemInit =>
    cases h
    obtain ⟨a, b, rfl⟩ := List.length_eq_two.1 hargs
    simp [Routine.arguments, Wrapper.values, semInit, Arg.value]
  | sysDealloc | sysDumpScreen | sysGetKey | sysSemWait | sysSemSignal | sysSemDestroy =>
    cases h
    obtain ⟨a, rfl⟩ := List.length_eq_one_iff.1 hargs
    simp [Routine.arguments, Wrapper.values, dealloc, dumpScreen, getKey, semWait, semSignal, semDestroy, Arg.value]
  | _ =>
    rw [List.length_eq_zero_iff.1 hargs]
    intro p hp
    cases hp

/-- The registers that a wrapper saves and those that it fills. -/
def shapes : List (List Reg × List Reg) :=
  [([], [.eax]), ([.ebx], [.ebx, .eax]), ([.ebx], [.eax, .ebx, .ecx]), ([.ebx, .ecx], [.eax, .ebx, .ecx]),
    ([.ebx], [.eax, .ebx, .ecx, .edx]), ([.ebx, .ecx, .edx], [.eax, .ebx, .ecx, .edx])]

theorem wrapper_shape {U : UserSymbols} {r : Routine} {w : Wrapper} (h : wrapper U r = some w) :
    (w.saved, w.moves.map Prod.fst) ∈ shapes := by
  cases r <;> cases h
  all_goals first
    | exact .head _
    | exact .tail _ (.head _)
    | exact .tail _ (.tail _ (.head _))
    | exact .tail _ (.tail _ (.tail _ (.head _)))
    | exact .tail _ (.tail _ (.tail _ (.tail _ (.head _))))
    | exact .tail _ (.tail _ (.tail _ (.tail _ (.tail _ (.head _)))))

theorem wrapper_params {U : UserSymbols} {r : Routine} {w : Wrapper} (h : wrapper U r = some w) :
    w.moves.all (fun p => p.2.among r.arity) = true := by
  cases r <;> cases h <;> rfl

/-- **Each wrapper has the number of its routine, and passes its arguments on in order.** -/
theorem fits {U : UserSymbols} {r : Routine} {w : Wrapper} (h : wrapper U r = some w) : Fits U w r := by
  have hshape := wrapper_shape h
  have hshapes : ∀ p ∈ shapes, p.1.Sublist [.ebx, .ecx, .edx] ∧ (.ebx ∈ p.2 → .ebx ∈ p.1) ∧
      (∀ s ∈ p.2, s = .eax ∨ s = .ebx ∨ s = .ecx ∨ s = .edx) ∧ p.2.Nodup := by decide
  obtain ⟨hsaved, hebx, hmoves, hnodup⟩ := hshapes _ hshape
  exact ⟨wrapper_number h, hsaved, hebx, hmoves, hnodup, wrapper_params h, fun _ => wrapper_arguments h⟩

/-! ### The way in -/

variable {P : Program} {Q : Core → Prop} {S : Symbols} {U : UserSymbols} {top ret : Long}
  {callee : Long → Cpu → Cpu} {c : Cpu} {m : Core} {w : Wrapper} {r : Routine} {args : List Long} {back : Long}

theorem move_run {p : Reg × Arg} {x : Long} (hp : p.2.among args.length = true)
    (h : c.Holds (c.reg .ebp) (x :: back :: args)) :
    (p.2.op p.1).run c = .ok (c.setReg p.1 (p.2.value args)) := by
  obtain ⟨t, a⟩ := p
  cases a with
  | imm w => rfl
  | param d =>
    simp only [Arg.among, Bool.and_eq_true, decide_eq_true_eq, beq_iff_eq] at hp
    obtain ⟨⟨h8, h4⟩, hlt⟩ := hp
    have hd : c.reg .ebp + d = c.reg .ebp + BitVec.ofNat 32 (4 * ((d.toNat - 8) / 4 + 2)) := by
      congr 1
      apply BitVec.eq_of_toNat_eq
      have := d.isLt
      rw [BitVec.toNat_ofNat, Nat.mod_eq_of_lt] <;> omega
    have hget : (x :: back :: args)[(d.toNat - 8) / 4 + 2]? = some (args.getD ((d.toNat - 8) / 4) 0) := by
      rw [List.getElem?_cons_succ, List.getElem?_cons_succ, List.getD_eq_getElem?_getD,
        List.getElem?_eq_getElem hlt]
      rfl
    have hload := holds_get h hget
    rw [← hd] at hload
    rw [Arg.op, Op.run, hload]
    rfl

theorem moves_run {l : List (Reg × Arg)} {x : Long} (hl : ∀ p ∈ l, p.1 ≠ .ebp ∧ p.2.among args.length = true)
    (h : c.Holds (c.reg .ebp) (x :: back :: args)) :
    runOps (l.map fun p => p.2.op p.1) c = .ok (c.sets (l.map fun p => (p.1, p.2.value args))) := by
  induction l generalizing c with
  | nil => rfl
  | cons p l ih =>
    obtain ⟨hne, hp⟩ := hl p List.mem_cons_self
    have hebp : (c.setReg p.1 (p.2.value args)).reg .ebp = c.reg .ebp := setReg_of_ne (Ne.symm hne) _ _
    have hload : ∀ a, (c.setReg p.1 (p.2.value args)).load a = c.load a := fun _ => rfl
    have hrest := ih (c := c.setReg p.1 (p.2.value args)) (fun q hq => hl q (List.mem_cons_of_mem _ hq))
      (by rw [hebp]; exact h.congr hload)
    rw [List.map_cons, runOps, List.foldlM_cons, move_run hp h]
    exact hrest

theorem Fits.plain (h : Fits U w r) {t : Reg} (ht : t ∈ w.saved) : t ≠ .esp ∧ t ≠ .ebp := by
  have hmem : t ∈ [Reg.ebx, .ecx, .edx] := h.saved.subset ht
  simp only [List.mem_cons, List.not_mem_nil, or_false] at hmem
  rcases hmem with rfl | rfl | rfl <;> decide

theorem Fits.keys (h : Fits U w r) {t : Reg} (ht : t ∈ w.moves.map Prod.fst) :
    t ≠ .esp ∧ t ≠ .ebp ∧ t ≠ .esi ∧ t ≠ .edi := by
  rcases h.moves t ht with rfl | rfl | rfl | rfl <;> decide

theorem Fits.saved_length (h : Fits U w r) : w.saved.length ≤ 3 := h.saved.length_le

theorem values_keys (w : Wrapper) (args : List Long) : (w.values args).map Prod.fst = w.moves.map Prod.fst := by
  rw [Wrapper.values, List.map_map]
  rfl

/-- In front of the moves. -/
def Wrapper.framed (w : Wrapper) (c : Cpu) : Cpu :=
  ((c.pushed (c.reg .ebp)).setReg .ebp (c.reg .esp - 4)).pushes (w.saved.map c.reg)

/-- Where a wrapper calls `syscall_sysenter`. -/
def Wrapper.filled (w : Wrapper) (args : List Long) (c : Cpu) : Cpu := (w.framed c).sets (w.values args)

/-- The stack of a wrapper, from the register it has saved last to its arguments. -/
def Wrapper.stack (w : Wrapper) (back : Long) (args : List Long) (c : Cpu) : List Long :=
  (w.saved.map c.reg).reverse ++ c.reg .ebp :: back :: args

theorem framed_eq (w : Wrapper) (c : Cpu) :
    w.framed c = (c.setReg .ebp (c.reg .esp - 4)).pushes (c.reg .ebp :: w.saved.map c.reg) := by
  rw [Wrapper.framed, pushed_setReg (by decide)]
  rfl

theorem framed_esp (w : Wrapper) (c : Cpu) :
    (w.framed c).reg .esp = c.reg .esp - BitVec.ofNat 32 (4 * (w.saved.length + 1)) := by
  have hesp : (c.setReg .ebp (c.reg .esp - 4)).reg .esp = c.reg .esp := setReg_of_ne (by decide) _ _
  rw [framed_eq, pushes_esp, hesp, List.length_cons, List.length_map]

theorem framed_reg (w : Wrapper) (c : Cpu) {t : Reg} (hesp : t ≠ .esp) (hebp : t ≠ .ebp) :
    (w.framed c).reg t = c.reg t := by
  have hpushes : (w.framed c).value (.reg t) = (c.setReg .ebp (c.reg .esp - 4)).value (.reg t) := by
    rw [framed_eq]
    exact value_pushes (fun h => hesp (by injection h)) _ _
  exact hpushes.trans (setReg_of_ne hebp _ _)

theorem framed_ebp (w : Wrapper) (c : Cpu) : (w.framed c).reg .ebp = c.reg .esp - 4 := by
  have hpushes : (w.framed c).value (.reg .ebp) = (c.setReg .ebp (c.reg .esp - 4)).value (.reg .ebp) := by
    rw [framed_eq]
    exact value_pushes (by decide) _ _
  exact hpushes.trans (setReg_self _ _ _)

theorem framed_readable (w : Wrapper) (c : Cpu) (a : Long) : (w.framed c).readable a = c.readable a := by
  rw [framed_eq, readable_pushes]
  rfl

theorem framed_load (w : Wrapper) (c : Cpu) {b : Long} (hw : w.saved.length ≤ 3)
    (h : Off (w.saved.length + 1) (c.reg .esp) b) : (w.framed c).load b = c.load b := by
  have hesp : (c.setReg .ebp (c.reg .esp - 4)).reg .esp = c.reg .esp := setReg_of_ne (by decide) _ _
  rw [framed_eq, load_pushes]
  · rfl
  · rw [List.length_cons, List.length_map]
    omega
  · rw [List.length_cons, List.length_map, hesp]
    exact h

theorem framed_stack (hw : w.saved.length ≤ 3) (hargs : args.length ≤ 3)
    (hroom : c.Room (w.saved.length + 1) (c.reg .esp)) (h : c.Holds (c.reg .esp) (back :: args)) :
    (w.framed c).Holds ((w.framed c).reg .esp) (w.stack back args c) := by
  have hesp : (c.setReg .ebp (c.reg .esp - 4)).reg .esp = c.reg .esp := setReg_of_ne (by decide) _ _
  have hload : ∀ a, (c.setReg .ebp (c.reg .esp - 4)).load a = c.load a := fun _ => rfl
  have hread : ∀ a, (c.setReg .ebp (c.reg .esp - 4)).readable a = c.readable a := fun _ => rfl
  have hrow := @holds_pushes (c.setReg .ebp (c.reg .esp - 4)) (c.reg .ebp :: w.saved.map c.reg)
    (back :: args) (by simp only [List.length_cons, List.length_map]; omega)
    (by rw [hesp, List.length_cons, List.length_map]; exact hroom.congr hread) (by rw [hesp]; exact h.congr hload)
  rw [framed_eq]
  rw [List.reverse_cons, List.append_assoc] at hrow
  exact hrow

theorem enter_run (hw : Fits U w r) (hroom : c.Room 4 (c.reg .esp)) (hargs : args.length = r.arity)
    (h : c.Holds (c.reg .esp) (back :: args)) : runOps w.enter c = .ok (w.filled args c) := by
  have hlen := hw.saved_length
  have harity : args.length ≤ 3 := by
    rw [hargs]
    cases r <;> decide
  let c₁ : Cpu := (c.pushed (c.reg .ebp)).setReg .ebp (c.reg .esp - 4)
  have hpush : Op.run c (.push (.reg .ebp)) = .ok (c.pushed (c.reg .ebp)) := if_pos hroom.1
  have hmov : Op.run (c.pushed (c.reg .ebp)) (.mov (.reg .esp) (.reg .ebp)) = .ok c₁ := by
    have hvalue : (c.pushed (c.reg .ebp)).value (.reg .esp) = c.reg .esp - 4 := pushed_esp _ _
    rw [Op.run, hvalue]
    rfl
  have hc₁ : c₁.reg .esp = c.reg .esp - 4 := (setReg_of_ne (by decide) _ _).trans (pushed_esp _ _)
  have hsaved : runOps (w.saved.map fun t => Op.push (.reg t)) c₁ = .ok (w.framed c) := by
    have hplain : ∀ s ∈ w.saved.map Src.reg, s ≠ .reg .esp := by
      intro s hs
      obtain ⟨t, ht, rfl⟩ := List.mem_map.1 hs
      exact fun hte => (hw.plain ht).1 (by injection hte)
    have hrun := pushes_run (c := c₁) hplain (by
      rw [hc₁, List.length_map]
      have hread : ∀ a, c₁.readable a = c.readable a := fun _ => rfl
      exact (hroom.mono (m := w.saved.length + 1) (by omega)).2.congr hread)
    have hvalues : (w.saved.map Src.reg).map c₁.value = w.saved.map c.reg := by
      rw [List.map_map]
      refine List.map_congr_left fun t ht => ?_
      exact (setReg_of_ne (hw.plain ht).2 _ _).trans (pushed_reg (hw.plain ht).1 _ _)
    rw [hvalues, List.map_map] at hrun
    exact hrun
  have hmoves : runOps (w.moves.map fun p => p.2.op p.1) (w.framed c) = .ok (w.filled args c) := by
    have hstack := framed_stack hlen harity (hroom.mono (by omega)) h
    refine @moves_run _ _ back _ (c.reg .ebp) (fun p hp => ⟨?_, ?_⟩) ?_
    · exact (hw.keys (List.mem_map_of_mem hp)).2.1
    · rw [hargs]
      exact List.all_eq_true.1 hw.params p hp
    · have hrow := (holds_append.1 hstack).2
      have ha : c.reg .esp - BitVec.ofNat 32 (4 * (w.saved.length + 1)) + BitVec.ofNat 32 (4 * w.saved.length) =
          c.reg .esp - 4 := by bv_omega
      rw [List.length_reverse, List.length_map, framed_esp, ha] at hrow
      rw [framed_ebp]
      exact hrow
  have henter : runOps [.push (.reg .ebp), .mov (.reg .esp) (.reg .ebp)] c = .ok c₁ := by
    simp only [runOps, List.foldlM_cons, List.foldlM_nil, hpush, hmov, bind, Except.bind, pure, Except.pure]
  rw [Wrapper.enter, List.append_assoc, runOps_append henter, runOps_append hsaved, hmoves]

/-! ### The handler -/

/-- The row that `SAVE_ALL` leaves is off the user's memory, and so is what the way back stores there. -/
theorem fin_mem {log : List Called} {x : Exit} (h : Ends (env top ret callee) Asm.sysenterFin log c x) :
    x.cpu.mem = (c.stored (c.reg .esp + 0x18) (c.reg .eax)).mem ∧ x.cpu.mapped = c.mapped := by
  rw [Asm.sysenterFin, ends_ops_iff] at h
  obtain ⟨c', hrun, hx⟩ := h
  rw [List.append_assoc, List.singleton_append, runOps, List.foldlM_cons] at hrun
  have hx' : x.cpu = c'.sysexit (env top ret callee).msr := by rw [ends_sysexit_iff.1 hx]
  have hexit : x.cpu.mem = c'.mem ∧ x.cpu.mapped = c'.mapped := by
    rw [hx']
    exact ⟨rfl, rfl⟩
  by_cases hread : c.readable (c.reg .esp + 0x18) = true
  · have hstore : Op.run c (.store .eax 0x18 .esp) = .ok (c.stored (c.reg .esp + 0x18) (c.reg .eax)) := if_pos hread
    rw [hstore] at hrun
    have hquiet : ∀ o ∈ restoreAll ++ [Op.load 0 .esp .edx, .load 12 .esp .ecx, .sti], o.quiet = true := by decide
    obtain ⟨hmem, hmapped⟩ := runOps_quiet hquiet hrun
    exact ⟨hexit.1.trans hmem, hexit.2.trans hmapped⟩
  · have hstore : Op.run c (.store .eax 0x18 .esp) = .error (.pageFault (c.reg .esp + 0x18)) := if_neg hread
    rw [hstore] at hrun
    cases hrun

/-- What the routine `r` is entered in, and what is left of it in user mode. -/
structure Serviced (S : Symbols) (top ret : Long) (callee : Long → Cpu → Cpu) (r : Routine) (u s : Cpu)
    (x : Exit) : Prop extends Resumed top u x where
  entry : s.reg .esp = top - 68
  frame : s.Holds (top - 68) [ret, u.reg .ebx, u.reg .ecx, u.reg .edx]
  load : ∀ b, Off 17 top b → s.load b = u.load b
  result : x.cpu.reg .eax = (callee (S.routine r) s).reg .eax
  left : ∀ b, Off 17 top b → x.cpu.load b = (callee (S.routine r) s).load b

theorem systemCall_serviced {u : Cpu} {x : Exit} {i : ℕ} (h : Entered S top callee u)
    (hr : sysCallTable[i]? = some r) (heax : u.reg .eax = BitVec.ofNat 32 i)
    (hread : u.readable (u.reg .ebp + 4) = true) (hx : SystemCall ret S top callee u x) :
    ∃ s, Serviced S top ret callee r u s x := by
  have hi : i < maxSyscall := (List.getElem?_eq_some_iff.1 hr).1
  have hint : (u.reg .eax).toInt = i := by rw [heax, toInt_number (by omega)]
  obtain ⟨c, hc, hiff⟩ := accepted_dispatch ret h hread (by omega) (by omega)
  obtain ⟨target, c', hload, hpush, hrest⟩ := ends_call_iff.1 ((hiff x).1 hx)
  have htarget : target = S.routine r := by
    have hentry : S.sysCallTable + 4 * c.reg .eax = S.sysCallTable + BitVec.ofNat 32 (4 * i) := by
      rw [hc.eax, heax, BitVec.ofNat_mul]
      rfl
    have hword : (sysCallTable.map S.routine)[i]? = some (S.routine r) := by
      rw [List.getElem?_map, hr]
      rfl
    rw [hentry, hc.load _ ((h.apart i hi).mono (by decide)), holds_get h.table hword] at hload
    exact (Except.ok.inj hload).symm
  have hc' : c' = c.pushed ret := by
    have hroom := hc.room.1
    rw [← hc.esp] at hroom
    have hp : c.push ret = .ok (c.pushed ret) := if_pos hroom
    have hpush' : c.push ret = .ok c' := hpush
    rw [hp] at hpush'
    exact (Except.ok.inj hpush').symm
  subst htarget hc'
  have hesp : (c.pushed ret).reg .esp = top - 68 := by
    rw [pushed_esp, hc.esp]
    bv_omega
  have hkeeps := h.routine r _ hesp
  have htop : top - 68 + 4 = top - 64 := by bv_omega
  have hframe : (c.pushed ret).Holds (top - 64) (savedRow (Asm.entered top u)).reverse := by
    have hrow := hc.frame
    rw [← hc.esp] at hrow ⊢
    exact hrow.pushed (by rw [List.length_reverse, savedRow_length]; decide) ret
  have hleft : (callee (S.routine r) (c.pushed ret)).Holds (top - 64) (savedRow (Asm.entered top u)).reverse := by
    have hkept := hkeeps.frame (savedRow (Asm.entered top u)).reverse (List.length_reverse.trans savedRow_length)
    rw [hesp, htop] at hkept
    exact hkept hframe
  have hesp' : (callee (S.routine r) (c.pushed ret)).reg .esp = top - 64 := by rw [hkeeps.esp, hesp, htop]
  have hfin : Ends (env top ret callee) Asm.sysenterFin _ (callee (S.routine r) (c.pushed ret)) x :=
    ends_jmp_iff.1 hrest
  obtain ⟨x', hx', -, hres, hback⟩ := back ret callee _ h.cs h.ss (by rw [hesp']; exact hleft)
  obtain rfl := ends_unique hfin hx'
  obtain ⟨hmem, hmapped⟩ := fin_mem hfin
  have hret : (c.pushed ret).load (top - 68) = .ok ret := by
    have hroom := hc.room.1
    have hsub : top - 64 - 4 = top - 68 := by bv_omega
    rw [hsub] at hroom
    refine load_eq_ok.2 ⟨hroom, ?_⟩
    have hlong := long_stored (c := c) (c.reg .esp - 4) ret
    rw [hc.esp, hsub] at hlong
    have hpushed : (c.pushed ret).long (top - 68) = (c.stored (c.reg .esp - 4) ret).long (top - 68) := rfl
    rw [hpushed, hc.esp, hsub]
    exact hlong
  refine ⟨c.pushed ret, hback, hesp, ⟨hret, ?_⟩, fun b hb => ?_, hres, fun b hb => ?_⟩
  · rw [htop]
    exact ⟨hframe.1, hframe.2.1, hframe.2.2.1, trivial⟩
  · have hoff : Off 1 (c.reg .esp) b := by
      rw [hc.esp]
      unfold Off at hb ⊢
      bv_omega
    have hpushed : (c.pushes [ret]).load b = c.load b := load_pushes (by simp) hoff
    exact hpushed.trans (hc.load b (hb.mono (by decide)))
  · have hoff : Off 1 (top - 64 + 0x18 + 4) b := by
      unfold Off at hb ⊢
      bv_omega
    have hstored : ((callee (S.routine r) (c.pushed ret)).stored (top - 64 + 0x18)
        ((callee (S.routine r) (c.pushed ret)).reg .eax)).load b = (callee (S.routine r) (c.pushed ret)).load b := by
      rw [Cpu.load, Cpu.load, long_stored_off hoff]
      rfl
    rw [hesp'] at hmem
    exact (load_congr hmem hmapped b).trans hstored

/-! ### The way back -/

/-- Back in the caller, as a C function comes back. -/
structure Restored (c : Cpu) (back : Long) (m' : Core) : Prop where
  eip : m'.eip = back
  esp : m'.cpu.reg .esp = c.reg .esp + 4
  reg : ∀ t ∈ [Reg.ebx, .esi, .edi, .ebp], m'.cpu.reg t = c.reg t
  seg : m'.cpu.seg = c.seg

/-- What the caller finds: the result, or -1 and the error number. -/
def Outcome (U : UserSymbols) (checked : Bool) (result : Long) (c' : Cpu) : Prop :=
  if checked = true ∧ result.toInt < 0 then c'.reg .eax = -1 ∧ c'.load U.errno = .ok (-result)
  else c'.reg .eax = result

/-- What is left to do is to take `ebp` and the return address off the stack. -/
structure Leaving (c : Cpu) (back : Long) (s : Cpu) : Prop where
  stack : s.Holds (s.reg .esp) [c.reg .ebp, back]
  esp : s.reg .esp = c.reg .esp - 4
  reg : ∀ t ∈ [Reg.ebx, .esi, .edi], s.reg t = c.reg t
  seg : s.seg = c.seg

theorem Leaving.eventually (hat : P.At [.op (.pop (.reg .ebp)), .ret] m.eip) (h : Leaving c back m.cpu)
    (hQ : ∀ m', Restored c back m' → m'.cpu.reg .eax = m.cpu.reg .eax →
      (∀ a, m'.cpu.load a = m.cpu.load a) → Q m') : Eventually P Q m := by
  have hrun : runOps [Op.pop (.reg .ebp)] m.cpu = .ok (m.cpu.pops [(.reg .ebp, c.reg .ebp)]) :=
    (@pops_run m.cpu [.reg .ebp] [c.reg .ebp] [back] (by decide) rfl h.stack).1
  have hrest := (@pops_run m.cpu [.reg .ebp] [c.reg .ebp] [back] (by decide) rfl h.stack).2
  refine eventually_ops (l := [.pop (.reg .ebp)]) hat hrun fun a ha => ?_
  refine eventually_ret ha hrest.1 (.here (hQ _ ⟨rfl, ?_, ?_, ?_⟩ ?_ fun a => ?_))
  · have hesp : (m.cpu.pops [(.reg .ebp, c.reg .ebp)]).reg .esp = m.cpu.reg .esp + 4 := pops_esp (by simp)
    rw [go_cpu, setReg_self, go_cpu, hesp, h.esp]
    bv_omega
  · intro t ht
    have hesp : t ≠ .esp := by rintro rfl; revert ht; decide
    rw [go_cpu, setReg_of_ne hesp, go_cpu]
    by_cases hebp : t = .ebp
    · subst hebp
      exact popped_has m.cpu (.reg .ebp) (c.reg .ebp)
    · have hmem : t ∈ [Reg.ebx, .esi, .edi] := by
        simp only [List.mem_cons, List.not_mem_nil, or_false] at ht ⊢
        tauto
      rw [← h.reg t hmem]
      exact pops_reg (by simpa using hebp) hesp
  · rw [← h.seg]
    rfl
  · rw [go_cpu, setReg_of_ne (by decide), go_cpu]
    exact pops_reg (by simp) (by decide)
  · exact (setReg_load _ _ _ a).trans (pops_load m.cpu [(.reg .ebp, c.reg .ebp)] a)

theorem nok_eventually {result : Long} (hat : P.At (nok U) m.eip) (h : Leaving c back m.cpu)
    (heax : m.cpu.reg .eax = result) (herrno : m.cpu.readable U.errno = true) (hoff : Off 10 (c.reg .esp + 4) U.errno)
    (hQ : ∀ m', Restored c back m' → m'.cpu.reg .eax = -1 → m'.cpu.load U.errno = .ok (-result) → Q m') :
    Eventually P Q m := by
  let neg : Cpu := { m.cpu.setReg .eax (-result) with flags := m.cpu.flags.result (-result) result.negOverflow }
  have hneg : neg.reg .eax = -result := setReg_self m.cpu .eax (-result)
  refine eventually_inst (m.go neg) hat (fun a => by rw [Inst.run, heax]) fun a₁ h₁ => ?_
  refine eventually_inst (m.go (neg.stored U.errno (-result))) h₁ (fun a => ?_) fun a₂ h₂ => ?_
  · have hstore : neg.store U.errno (-result) = .ok (neg.stored U.errno (-result)) := if_pos herrno
    rw [Inst.run, go_cpu, hneg, hstore]
    rfl
  have hload : (neg.stored U.errno (-result)).load U.errno = .ok (-result) :=
    load_eq_ok.2 ⟨herrno, long_stored _ _⟩
  let failed : Cpu := (neg.stored U.errno (-result)).setReg .eax (-1)
  refine eventually_inst (m.go failed) h₂ (fun _ => rfl) fun a₃ h₃ => ?_
  have hesp : failed.reg .esp = m.cpu.reg .esp := by
    rw [setReg_of_ne (by decide)]
    exact setReg_of_ne (t := .esp) (r := .eax) (by decide) m.cpu (-result)
  have hstack : (neg.stored U.errno (-result)).Holds (m.cpu.reg .esp) [c.reg .ebp, back] := by
    have hneg' : ∀ a, neg.load a = m.cpu.load a := fun _ => rfl
    refine holds_stored ?_ (h.stack.congr hneg')
    rw [h.esp]
    unfold Off at hoff
    simp only [List.length_cons, List.length_nil]
    bv_omega
  refine @Leaving.eventually P Q c (m.go failed a₃) back h₃ ⟨?_, ?_, ?_, ?_⟩ fun m' hm' hres hmem => ?_
  · rw [go_cpu, hesp]
    exact hstack.congr fun a => setReg_load _ _ _ a
  · rw [go_cpu, hesp, h.esp]
  · intro t ht
    have hne : t ≠ .eax := by rintro rfl; revert ht; decide
    rw [go_cpu, setReg_of_ne hne, ← h.reg t ht]
    exact Function.update_of_ne hne _ _
  · exact h.seg
  · refine hQ m' hm' ?_ ?_
    · rw [hres]
      exact setReg_self _ _ _
    · rw [hmem]
      exact hload

/-- The wrapper's own frame, once `syscall_sysenter` has come back. -/
structure Framed (w : Wrapper) (c : Cpu) (back : Long) (s : Cpu) : Prop where
  stack : s.Holds (s.reg .esp) ((w.saved.map c.reg).reverse ++ [c.reg .ebp, back])
  esp : s.reg .esp = c.reg .esp - BitVec.ofNat 32 (4 * (w.saved.length + 1))
  reg : ∀ t ∈ [Reg.ebx, .esi, .edi], t ∉ w.saved → s.reg t = c.reg t
  seg : s.seg = c.seg

theorem Framed.restore (hw : Fits U w r) {s : Cpu} (h : Framed w c back s) :
    ∃ s', runOps (w.saved.reverse.map fun r => Op.pop (.reg r)) s = .ok s' ∧ Leaving c back s' ∧
      s'.reg .eax = s.reg .eax ∧ ∀ a, s'.load a = s.load a := by
  have hops : (w.saved.reverse.map fun r => Op.pop (.reg r)) = (w.saved.reverse.map Dst.reg).map .pop := by
    rw [List.map_map]
    rfl
  have hlen : (w.saved.reverse.map Dst.reg).length = (w.saved.map c.reg).reverse.length := by simp
  have hesp : Dst.reg .esp ∉ w.saved.reverse.map Dst.reg := by
    intro hmem
    obtain ⟨t, ht, hte⟩ := List.mem_map.1 hmem
    injection hte with hte
    exact (hw.plain (List.mem_reverse.1 ht)).1 hte
  obtain ⟨hrun, hstack⟩ := pops_run hesp hlen h.stack
  have hkeys : ((w.saved.reverse.map Dst.reg).zip (w.saved.map c.reg).reverse).map Prod.fst =
      w.saved.reverse.map Dst.reg := List.map_fst_zip hlen.le
  rw [hops]
  refine ⟨_, hrun, ⟨hstack, ?_, fun t ht => ?_, ?_⟩, ?_, fun a => pops_load s _ a⟩
  · rw [pops_esp (by rw [hkeys]; exact hesp), h.esp, List.length_zip]
    simp only [List.length_map, List.length_reverse, Nat.min_self]
    bv_omega
  · have htesp : t ≠ .esp := by rintro rfl; revert ht; decide
    by_cases hs : t ∈ w.saved
    · have hp : (Dst.reg t, c.reg t) ∈ (w.saved.reverse.map Dst.reg).zip (w.saved.map c.reg).reverse := by
        rw [← List.map_reverse, List.zip_map']
        exact List.mem_map.2 ⟨t, List.mem_reverse.2 hs, rfl⟩
      refine pops_has (p := (Dst.reg t, c.reg t)) ?_ (by rw [hkeys]; exact hesp) hp
      rw [hkeys]
      exact (List.nodup_reverse.2 (hw.saved.nodup (by decide))).map fun a b hab => by injection hab
    · rw [← h.reg t ht hs]
      refine pops_reg ?_ htesp
      rw [hkeys]
      intro hmem
      obtain ⟨t', ht', hte⟩ := List.mem_map.1 hmem
      injection hte with hte
      exact hs (hte ▸ List.mem_reverse.1 ht')
  · rw [← h.seg]
    funext t
    refine pops_seg ?_
    rw [hkeys]
    intro hmem
    obtain ⟨t', -, hte⟩ := List.mem_map.1 hmem
    cases hte
  · refine pops_reg ?_ (by decide)
    rw [hkeys]
    intro hmem
    obtain ⟨t', ht', hte⟩ := List.mem_map.1 hmem
    injection hte with hte
    have hsaved := hw.saved.subset (List.mem_reverse.1 ht')
    rw [hte] at hsaved
    revert hsaved
    decide

theorem toInt_neg_iff (x : Long) : x.toInt < 0 ↔ x.msb = true := by
  rw [BitVec.msb_eq_toInt, decide_eq_true_eq]

theorem leave_eventually {result : Long} (hw : Fits U w r) (hat : P.At (w.leave U) m.eip) (hnok : P.At (nok U) U.nok)
    (h : Framed w c back m.cpu) (heax : m.cpu.reg .eax = result) (herrno : m.cpu.readable U.errno = true)
    (hoff : Off 10 (c.reg .esp + 4) U.errno)
    (hQ : ∀ m', Restored c back m' → Outcome U w.checked result m'.cpu → Q m') : Eventually P Q m := by
  obtain ⟨s, hrun, hs, hseax, hload⟩ := h.restore hw
  rw [Wrapper.leave, List.append_assoc] at hat
  refine eventually_ops hat hrun fun a ha => ?_
  have herrno' : s.readable U.errno = true := readable_of_load (hload _) herrno
  cases hchecked : w.checked with
  | false =>
    rw [hchecked] at ha
    refine Leaving.eventually ha hs fun m' hm' hres _ => hQ m' hm' ?_
    rw [hchecked, Outcome, if_neg (by simp), hres]
    exact hseax.trans heax
  | true =>
    rw [hchecked] at ha
    let tested : Cpu := { s with flags := s.flags.result (s.reg .eax) false }
    have hleaving : Leaving c back tested := ⟨hs.stack, hs.esp, hs.reg, hs.seg⟩
    have hteax : tested.reg .eax = result := hseax.trans heax
    refine eventually_inst (m.go tested) ha (fun _ => rfl) fun a₁ h₁ => ?_
    refine eventually_inst (fun a => m.go tested (if tested.flags.sf then U.nok else a)) h₁ (fun _ => rfl)
      fun a₂ h₂ => ?_
    have hsf : tested.flags.sf = result.msb := congrArg BitVec.msb hteax
    by_cases hneg : result.toInt < 0
    · rw [hsf, (toInt_neg_iff result).1 hneg, if_pos rfl]
      refine nok_eventually hnok hleaving hteax herrno' hoff fun m' hm' hres hno => hQ m' hm' ?_
      rw [hchecked, Outcome, if_pos ⟨rfl, hneg⟩]
      exact ⟨hres, hno⟩
    · have hmsb : ¬ result.msb = true := fun h => hneg ((toInt_neg_iff result).2 h)
      rw [hsf, if_neg hmsb]
      refine Leaving.eventually h₂ hleaving fun m' hm' hres _ => hQ m' hm' ?_
      rw [hchecked, Outcome, if_neg fun h => hneg h.2, hres]
      exact hteax

/-! ### A call -/

/-- What `syscall_sysenter` pushes. -/
def trapRow (U : UserSymbols) (s : Cpu) : List Long := [s.reg .ecx, s.reg .edx, U.sysenterReturn, s.reg .ebp]

/-- The `sysenter` of `syscall_sysenter`. -/
def trapped (U : UserSymbols) (s : Cpu) : Cpu := (s.pushes (trapRow U s)).setReg .ebp (s.reg .esp - 16)

/-- Up to the `sysenter`. -/
def trapOps (U : UserSymbols) : List Op :=
  [.push (.reg .ecx), .push (.reg .edx), .push (.imm U.sysenterReturn), .push (.reg .ebp),
    .mov (.reg .esp) (.reg .ebp)]

theorem trap_run {s : Cpu} (hroom : s.Room 4 (s.reg .esp)) : runOps (trapOps U) s = .ok (trapped U s) := by
  have hpushes : runOps [.push (.reg .ecx), .push (.reg .edx), .push (.imm U.sysenterReturn), .push (.reg .ebp)] s =
      .ok (s.pushes (trapRow U s)) :=
    @pushes_run s [.reg .ecx, .reg .edx, .imm U.sysenterReturn, .reg .ebp] (by simp) hroom
  have hesp : (s.pushes (trapRow U s)).reg .esp = s.reg .esp - 16 := pushes_esp _ _
  have hmov : Op.run (s.pushes (trapRow U s)) (.mov (.reg .esp) (.reg .ebp)) = .ok (trapped U s) := by
    have hvalue : (s.pushes (trapRow U s)).value (.reg .esp) = s.reg .esp - 16 := hesp
    rw [Op.run, hvalue]
    rfl
  refine (runOps_append hpushes).trans ?_
  rw [runOps, List.foldlM_cons, hmov]
  rfl

theorem trapped_esp (s : Cpu) : (trapped U s).reg .esp = s.reg .esp - 16 := by
  rw [trapped, setReg_of_ne (by decide)]
  exact pushes_esp _ _

theorem trapped_reg {t : Reg} (hesp : t ≠ .esp) (hebp : t ≠ .ebp) (s : Cpu) : (trapped U s).reg t = s.reg t := by
  rw [trapped, setReg_of_ne hebp]
  have hpushes : (s.pushes (trapRow U s)).value (.reg t) = s.value (.reg t) :=
    value_pushes (fun h => hesp (by injection h)) _ _
  exact hpushes

theorem trapped_readable (s : Cpu) (a : Long) : (trapped U s).readable a = s.readable a :=
  readable_pushes s (trapRow U s) a

theorem trapped_load {s : Cpu} {b : Long} (h : Off 4 (s.reg .esp) b) : (trapped U s).load b = s.load b :=
  (setReg_load _ _ _ b).trans (load_pushes (by simp [trapRow]) h)

theorem trapped_seg (s : Cpu) : (trapped U s).seg = s.seg := pushes_seg s _

theorem trapped_stack {s : Cpu} {ws : List Long} (hws : ws.length ≤ 10) (hroom : s.Room 4 (s.reg .esp))
    (h : s.Holds (s.reg .esp) ws) :
    (trapped U s).Holds ((trapped U s).reg .esp) ([s.reg .ebp, U.sysenterReturn, s.reg .edx, s.reg .ecx] ++ ws) := by
  have hlen : (trapRow U s).length = 4 := rfl
  have hrow := @holds_pushes s (trapRow U s) ws (by rw [hlen]; omega) hroom h
  have hesp : (s.pushes (trapRow U s)).reg .esp = s.reg .esp - 16 := pushes_esp _ _
  have hload : ∀ a, (trapped U s).load a = (s.pushes (trapRow U s)).load a := fun _ => rfl
  rw [trapped_esp, ← hesp]
  exact hrow.congr hload

/-- A kernel that the C library can call from `c`, with a return address on top of the stack: there is room on
both stacks, neither reaches into the other, the table or `errno`, and the routines keep to the calling
convention and off the user's stack. -/
structure Served (S : Symbols) (U : UserSymbols) (top : Long) (callee : Long → Cpu → Cpu) (c : Cpu) : Prop where
  kernelRoom : c.Room 17 top
  userRoom : c.Room 9 (c.reg .esp)
  table : c.Holds S.sysCallTable (sysCallTable.map S.routine)
  apart : ∀ i < maxSyscall, Off 17 top (S.sysCallTable + BitVec.ofNat 32 (4 * i)) ∧
    Off 9 (c.reg .esp) (S.sysCallTable + BitVec.ofNat 32 (4 * i))
  disjoint : ∀ i < 10, Off 17 top (c.reg .esp - 36 + BitVec.ofNat 32 (4 * i))
  errno : Off 17 top U.errno ∧ Off 10 (c.reg .esp + 4) U.errno
  routine : ∀ r s, s.reg .esp = top - 68 → X86.Keeps 16 s (callee (S.routine r) s)
  user : ∀ r s, s.reg .esp = top - 68 → ∀ i < 10,
    (callee (S.routine r) s).load (c.reg .esp - 36 + BitVec.ofNat 32 (4 * i)) =
      s.load (c.reg .esp - 36 + BitVec.ofNat 32 (4 * i))
  mapped : c.readable U.errno = true
  writable : ∀ r s, s.readable U.errno = true → (callee (S.routine r) s).readable U.errno = true
  cs : c.seg .cs = userCs
  ss : c.seg .ss = userDs

/-- The C library and the kernel under it. -/
structure Linked (P : Program) (S : Symbols) (U : UserSymbols) (top ret : Long) (callee : Long → Cpu → Cpu) :
    Prop where
  sysenter : P.At (syscallSysenter U) U.syscallSysenter
  sysenterReturn : P.At Asm.sysenterReturn U.sysenterReturn
  nok : P.At (nok U) U.nok
  gate : ∀ u x, P.gate u x ↔ SystemCall ret S top callee u x

/-- In front of `sysenter`. -/
def Wrapper.gate (U : UserSymbols) (w : Wrapper) (args : List Long) (next : Long) (c : Cpu) : Cpu :=
  trapped U ((w.filled args c).pushed next)

theorem filled_esp (hw : Fits U w r) :
    (w.filled args c).reg .esp = c.reg .esp - BitVec.ofNat 32 (4 * (w.saved.length + 1)) := by
  rw [Wrapper.filled, sets_of_notMem, framed_esp]
  rw [values_keys]
  exact fun h => (hw.keys h).1 rfl

theorem filled_ebp (hw : Fits U w r) : (w.filled args c).reg .ebp = c.reg .esp - 4 := by
  rw [Wrapper.filled, sets_of_notMem, framed_ebp]
  rw [values_keys]
  exact fun h => (hw.keys h).2.1 rfl

theorem filled_readable (a : Long) : (w.filled args c).readable a = c.readable a :=
  (sets_readable _ _ a).trans (framed_readable w c a)

/-- Off what the wrapper and `syscall_sysenter` push. -/
theorem gate_load (hw : Fits U w r) (next : Long) {b : Long} (h : Off 9 (c.reg .esp) b) :
    (w.gate U args next c).load b = c.load b := by
  have hlen := hw.saved_length
  have hframed : (w.framed c).load b = c.load b := framed_load w c hlen (h.mono (by omega))
  have hpushed : ((w.filled args c).pushes [next]).load b = (w.filled args c).load b :=
    load_pushes (by simp) (by
      rw [filled_esp hw]
      exact h.sub (by omega) (by simp only [List.length_singleton]; omega))
  have hesp : ((w.filled args c).pushed next).reg .esp = c.reg .esp - BitVec.ofNat 32 (4 * (w.saved.length + 2)) := by
    rw [pushed_esp, filled_esp hw]
    bv_omega
  have htrap : (trapped U ((w.filled args c).pushed next)).load b = ((w.filled args c).pushed next).load b :=
    trapped_load (by rw [hesp]; exact h.sub (by omega) (by omega))
  calc (w.gate U args next c).load b = ((w.filled args c).pushed next).load b := htrap
    _ = (w.filled args c).load b := hpushed
    _ = (w.framed c).load b := sets_load _ _ b
    _ = c.load b := hframed

/-- In front of `sysenter`. -/
structure AtGate (S : Symbols) (U : UserSymbols) (top : Long) (callee : Long → Cpu → Cpu) (w : Wrapper)
    (r : Routine) (args : List Long) (back next : Long) (c u : Cpu) : Prop where
  entered : Entered S top callee u
  readable : u.readable (u.reg .ebp + 4) = true
  number : u.reg .eax = BitVec.ofNat 32 (sysCallTable.idxOf r)
  passed : ∀ p ∈ [Reg.ebx, .ecx, .edx].zip (r.arguments U args), u.reg p.1 = p.2
  esp : u.reg .esp = c.reg .esp - BitVec.ofNat 32 (4 * (w.saved.length + 6))
  ebp : u.reg .ebp = u.reg .esp
  stack : ∃ cx dx, u.Holds (u.reg .esp)
    ([c.reg .esp - 4, U.sysenterReturn, dx, cx, next] ++ w.stack back args c)
  reg : ∀ t ∈ [Reg.ebx, .esi, .edi], t ∉ w.saved → u.reg t = c.reg t
  seg : u.seg = c.seg

theorem atGate (hw : Fits U w r) (hs : Served S U top callee c) (hargs : args.length = r.arity)
    (hstack : c.Holds (c.reg .esp) (back :: args)) (next : Long) :
    AtGate S U top callee w r args back next c (w.gate U args next c) := by
  have hlen := hw.saved_length
  have harity : args.length ≤ 3 := by
    rw [hargs]
    cases r <;> decide
  have hread : ∀ a, (w.gate U args next c).readable a = c.readable a := fun a =>
    (trapped_readable _ a).trans (filled_readable a)
  have hesp : (w.gate U args next c).reg .esp = c.reg .esp - BitVec.ofNat 32 (4 * (w.saved.length + 6)) := by
    rw [Wrapper.gate, trapped_esp, pushed_esp, filled_esp hw]
    bv_omega
  have hebp : (w.gate U args next c).reg .ebp = (w.gate U args next c).reg .esp := by
    rw [Wrapper.gate, trapped_esp, trapped, setReg_self]
  have hreg : ∀ t, t ≠ .esp → t ≠ .ebp → (w.gate U args next c).reg t = (w.filled args c).reg t := by
    intro t h h'
    rw [Wrapper.gate, trapped_reg h h', pushed_reg h]
  have hnodup : ((w.values args).map Prod.fst).Nodup := by
    rw [values_keys]
    exact hw.moves_nodup
  have hvalue : ∀ p ∈ w.values args, (w.gate U args next c).reg p.1 = p.2 := by
    intro p hp
    have hkey : p.1 ∈ w.moves.map Prod.fst := by
      rw [← values_keys w args]
      exact List.mem_map_of_mem hp
    rw [hreg _ (hw.keys hkey).1 (hw.keys hkey).2.1]
    exact sets_of_mem hnodup hp
  have hseg : (w.gate U args next c).seg = c.seg := by
    rw [Wrapper.gate, trapped_seg, pushed_seg, Wrapper.filled, sets_seg, framed_eq, pushes_seg, setReg_seg]
  have hfilled : (w.filled args c).Holds ((w.filled args c).reg .esp) (w.stack back args c) := by
    rw [filled_esp hw, ← framed_esp]
    exact (framed_stack hlen harity (hs.userRoom.mono (by omega)) hstack).congr fun a => sets_load _ _ a
  have hroom : (w.filled args c).Room 5 ((w.filled args c).reg .esp) := by
    rw [filled_esp hw]
    exact (Cpu.Room.sub (hs.userRoom.mono (by omega))).congr filled_readable
  have hcalled : ((w.filled args c).pushed next).Holds (((w.filled args c).pushed next).reg .esp)
      (next :: w.stack back args c) := by
    refine @holds_pushes _ [next] (w.stack back args c) ?_ (hroom.mono (by simp)) hfilled
    simp only [Wrapper.stack, List.length_cons, List.length_nil, List.length_append, List.length_reverse,
      List.length_map]
    omega
  have hcalledRoom : ((w.filled args c).pushed next).Room 4 (((w.filled args c).pushed next).reg .esp) :=
    @Cpu.Room.pushes _ 4 [next] hroom
  have hcalledEbp : ((w.filled args c).pushed next).reg .ebp = c.reg .esp - 4 := by
    rw [pushed_reg (by decide), filled_ebp hw]
  refine ⟨?_, ?_, ?_, ?_, hesp, hebp, ?_, ?_, hseg⟩
  · refine ⟨hs.kernelRoom.congr hread, ?_, fun i hi => (hs.apart i hi).1, fun t s h => hs.routine t s h, ?_, ?_⟩
    · exact holds_of_load hs.table fun i hi => gate_load hw next (hs.apart i (by simpa [maxSyscall] using hi)).2
    · rw [hseg, hs.cs]
    · rw [hseg, hs.ss]
  · have hget := hs.userRoom.get (k := w.saved.length + 4) (by omega)
    have ha : c.reg .esp - BitVec.ofNat 32 (4 * (w.saved.length + 6)) + 4 =
        c.reg .esp - BitVec.ofNat 32 (4 * (w.saved.length + 4 + 1)) := by bv_omega
    rw [hread, hebp, hesp, ha]
    exact hget
  · have hnumber : (Reg.eax, BitVec.ofNat 32 (sysCallTable.idxOf r)) ∈ w.values args :=
      List.mem_map.2 ⟨_, hw.number, rfl⟩
    exact hvalue _ hnumber
  · exact fun p hp => hvalue p (hw.arguments args hargs p hp)
  · have hrow := @trapped_stack U _ (next :: w.stack back args c) (by
      simp only [Wrapper.stack, List.length_cons, List.length_append, List.length_reverse, List.length_map]
      omega) hcalledRoom hcalled
    rw [hcalledEbp] at hrow
    exact ⟨_, _, hrow⟩
  · intro t ht hts
    have hplain : t ≠ .esp ∧ t ≠ .ebp ∧ t ≠ .eax ∧ t ≠ .ecx ∧ t ≠ .edx := by
      simp only [List.mem_cons, List.not_mem_nil, or_false] at ht
      rcases ht with rfl | rfl | rfl <;> decide
    rw [hreg t hplain.1 hplain.2.1, Wrapper.filled, sets_of_notMem, framed_reg w c hplain.1 hplain.2.1]
    rw [values_keys]
    intro hkey
    -- of the registers a wrapper fills only `ebx` is one to be kept, and that one is saved
    rcases hw.moves t hkey with rfl | rfl | rfl | rfl
    · exact hplain.2.2.1 rfl
    · exact hts (hw.saved_ebx hkey)
    · exact hplain.2.2.2.1 rfl
    · exact hplain.2.2.2.2 rfl

/-- The stack of the wrapper is what it was when the routine comes back. -/
theorem AtGate.kept (hw : Fits U w r) (hs : Served S U top callee c) {next : Long} {u s : Cpu} {x : Exit}
    (hu : AtGate S U top callee w r args back next c u) (hx : Serviced S top ret callee r u s x) {ws vs : List Long}
    (hws : ws.length = w.saved.length + 7) (h : u.Holds (u.reg .esp) (ws ++ vs)) : x.cpu.Holds (u.reg .esp) ws := by
  have hlen := hw.saved_length
  refine holds_of_load (holds_append.1 h).1 fun i hi => ?_
  have ha : u.reg .esp + BitVec.ofNat 32 (4 * i) =
      c.reg .esp - 36 + BitVec.ofNat 32 (4 * (3 - w.saved.length + i)) := by
    rw [hu.esp]
    bv_omega
  have hlt : 3 - w.saved.length + i < 10 := by omega
  have hoff := hs.disjoint _ hlt
  rw [ha, hx.left _ hoff, hs.user r s hx.entry _ hlt, hx.load _ hoff]

/-- User mode goes on behind the `sysenter`, on the stack that it had. -/
theorem AtGate.comes (hw : Fits U w r) (hs : Served S U top callee c) {next : Long} {u s : Cpu} {x : Exit}
    (hu : AtGate S U top callee w r args back next c u) (hx : Serviced S top ret callee r u s x) :
    x.eip = U.sysenterReturn ∧ ∃ cx dx, x.cpu.Holds (x.cpu.reg .esp)
      ([c.reg .esp - 4, U.sysenterReturn, dx, cx, next] ++ ((w.saved.map c.reg).reverse ++ [c.reg .ebp, back])) := by
  obtain ⟨cx, dx, hrow⟩ := hu.stack
  have hlen := hw.saved_length
  have hsplit : [c.reg .esp - 4, U.sysenterReturn, dx, cx, next] ++ w.stack back args c =
      ([c.reg .esp - 4, U.sysenterReturn, dx, cx, next] ++ ((w.saved.map c.reg).reverse ++ [c.reg .ebp, back])) ++
        args := by simp [Wrapper.stack]
  rw [hsplit] at hrow
  refine ⟨?_, cx, dx, ?_⟩
  · have hoff : Off 4 top (u.reg .ebp + 4) := by
      have ha : u.reg .ebp + 4 = c.reg .esp - 36 + BitVec.ofNat 32 (4 * (4 - w.saved.length)) := by
        rw [hu.ebp, hu.esp]
        bv_omega
      rw [ha]
      exact (hs.disjoint _ (by omega)).mono (by decide)
    rw [hx.eip, returnAddress_eq hu.readable hoff, hu.ebp]
    exact (load_eq_ok.1 hrow.2.1).2
  · rw [hx.esp, hu.ebp]
    refine hu.kept hw hs hx ?_ hrow
    simp only [List.length_cons, List.length_nil, List.length_append, List.length_reverse, List.length_map]
    omega

theorem arguments_length (hargs : args.length = r.arity) : (r.arguments U args).length ≤ 3 := by
  cases r <;> simp_all [Routine.arguments, Routine.arity]

theorem arguments_prefix {u : Cpu} {l : List Long} (hl : l.length ≤ 3)
    (h : ∀ p ∈ [Reg.ebx, .ecx, .edx].zip l, u.reg p.1 = p.2) :
    ∃ vs, [u.reg .ebx, u.reg .ecx, u.reg .edx] = l ++ vs := by
  match l with
  | [] => exact ⟨_, rfl⟩
  | [_] =>
    simp only [List.zip_cons_cons, List.zip_nil_right, List.forall_mem_cons] at h
    rw [h.1]
    exact ⟨_, rfl⟩
  | [_, _] =>
    simp only [List.zip_cons_cons, List.zip_nil_right, List.forall_mem_cons] at h
    rw [h.1, h.2.1]
    exact ⟨_, rfl⟩
  | [_, _, _] =>
    simp only [List.zip_cons_cons, List.zip_nil_right, List.forall_mem_cons] at h
    rw [h.1, h.2.1, h.2.2.1]
    exact ⟨_, rfl⟩
  | _ :: _ :: _ :: _ :: _ =>
    simp only [List.length_cons] at hl
    omega

/-- What a call of the C library has done: its routine was entered with the arguments on the stack, right above
the return address, and the result has got to the caller. -/
structure Performed (S : Symbols) (U : UserSymbols) (top ret : Long) (callee : Long → Cpu → Cpu) (r : Routine)
    (checked : Bool) (args : List Long) (back : Long) (c : Cpu) (m' : Core) : Prop extends Restored c back m' where
  served : ∃ s, s.reg .esp = top - 68 ∧ s.Holds (top - 68) (ret :: r.arguments U args) ∧
    (∀ b, Off 17 top b → Off 9 (c.reg .esp) b → s.load b = c.load b) ∧
    Outcome U checked ((callee (S.routine r) s).reg .eax) m'.cpu

/-- **A call of the C library runs its routine on its arguments**, and comes back to the caller with its
registers and its stack, and with the result, or with -1 and the error number in `errno`. -/
theorem wrapper_performs (hP : Linked P S U top ret callee) (hr : wrapper U r = some w) (hat : P.At (w.code U) m.eip)
    (hs : Served S U top callee m.cpu) (hargs : args.length = r.arity)
    (hstack : m.cpu.Holds (m.cpu.reg .esp) (back :: args)) :
    Eventually P (Performed S U top ret callee r w.checked args back m.cpu) m := by
  have hw := fits hr
  have hlen := hw.saved_length
  refine eventually_ops hat (enter_run hw (hs.userRoom.mono (by decide)) hargs hstack) fun a₁ h₁ => ?_
  have hroom : (w.filled args m.cpu).Room 5 ((w.filled args m.cpu).reg .esp) := by
    rw [filled_esp hw]
    exact (Cpu.Room.sub (hs.userRoom.mono (by omega))).congr filled_readable
  refine eventually_call h₁ hroom.1 fun next hnext => ?_
  have htrap := trap_run (U := U) (@Cpu.Room.pushes _ 4 [next] hroom)
  refine eventually_ops (l := trapOps U) hP.sysenter htrap fun a₂ h₂ => ?_
  have hu := atGate hw hs hargs hstack next
  have htable : sysCallTable[sysCallTable.idxOf r]? = some r := by cases r <;> rfl
  obtain ⟨x₀, -, hx₀, -⟩ := through_table ret hu.entered hu.readable htable hu.number
  refine eventually_sysenter h₂ ⟨x₀, (hP.gate _ _).2 hx₀⟩ fun x hx => ?_
  obtain ⟨s, hserviced⟩ := systemCall_serviced hu.entered htable hu.number hu.readable ((hP.gate _ _).1 hx)
  obtain ⟨heip, cx, dx, hkept⟩ := hu.comes hw hs hserviced
  -- back in `syscall_sysenter`
  have hlibrary : P.At Asm.sysenterReturn x.eip := by rw [heip]; exact hP.sysenterReturn
  obtain ⟨hpops, hrest⟩ := @pops_run x.cpu [.reg .ebp, .reg .edx, .reg .edx, .reg .ecx]
    [m.cpu.reg .esp - 4, U.sysenterReturn, dx, cx] _ (by decide) rfl hkept
  refine eventually_ops (l := [.pop (.reg .ebp), .pop (.reg .edx), .pop (.reg .edx), .pop (.reg .ecx)]) hlibrary
    hpops fun a₃ h₃ => ?_
  refine eventually_ret h₃ hrest.1 ?_
  let popped : Cpu := x.cpu.pops ([.reg .ebp, .reg .edx, .reg .edx, .reg .ecx].zip
    [m.cpu.reg .esp - 4, U.sysenterReturn, dx, cx])
  have hesp : popped.reg .esp = x.cpu.reg .esp + 16 := pops_esp (by simp)
  have hreg : ∀ t, t ≠ .esp → t ≠ .ebp → t ≠ .edx → t ≠ .ecx → popped.reg t = x.cpu.reg t :=
    fun t h1 h2 h3 h4 => pops_reg (by simp [h2, h3, h4]) h1
  have hload : ∀ a, (popped.setReg .esp (popped.reg .esp + 4)).load a = x.cpu.load a := fun a =>
    (setReg_load _ _ _ a).trans (pops_load x.cpu _ a)
  have heax : (popped.setReg .esp (popped.reg .esp + 4)).reg .eax = (callee (S.routine r) s).reg .eax := by
    rw [setReg_of_ne (by decide), hreg .eax (by decide) (by decide) (by decide) (by decide), hserviced.result]
  have hframed : Framed w m.cpu back (popped.setReg .esp (popped.reg .esp + 4)) := by
    refine ⟨?_, ?_, fun t ht hts => ?_, ?_⟩
    · rw [setReg_self]
      exact hrest.2.congr fun a => setReg_load _ _ _ a
    · rw [setReg_self, hesp, hserviced.esp, hu.ebp, hu.esp]
      bv_omega
    · have hplain :
          t ≠ .esp ∧ t ≠ .ebp ∧ t ≠ .edx ∧ t ≠ .ecx ∧ t ∈ [Reg.ebx, .esi, .edi, .ebp] := by
        simp only [List.mem_cons, List.not_mem_nil, or_false] at ht
        rcases ht with rfl | rfl | rfl <;> decide
      rw [setReg_of_ne hplain.1, hreg t hplain.1 hplain.2.1 hplain.2.2.1 hplain.2.2.2.1,
        hserviced.reg t hplain.2.2.2.2]
      exact hu.reg t ht hts
    · funext t
      rw [setReg_seg, ← hu.seg]
      exact (pops_seg (by simp)).trans (hserviced.seg t)
  have herrno : (popped.setReg .esp (popped.reg .esp + 4)).readable U.errno = true := by
    have hoff : Off 9 (m.cpu.reg .esp) U.errno := by
      have ha : m.cpu.reg .esp + 4 - BitVec.ofNat 32 (4 * 1) = m.cpu.reg .esp := by bv_omega
      rw [← ha]
      exact hs.errno.2.sub (by decide) (by decide)
    have hentry : s.readable U.errno = true :=
      readable_of_load ((hserviced.load _ hs.errno.1).trans (gate_load hw next hoff)) hs.mapped
    exact readable_of_load ((hload _).trans (hserviced.left _ hs.errno.1)) (hs.writable r s hentry)
  refine leave_eventually hw hnext hP.nok hframed heax herrno hs.errno.2 fun m' hm' hout =>
    ⟨hm', s, hserviced.entry, ?_, fun b h17 h9 => ?_, hout⟩
  · obtain ⟨vs, hvs⟩ := arguments_prefix (arguments_length hargs) hu.passed
    have hframe := hserviced.frame
    rw [hvs] at hframe
    exact ⟨hframe.1, (holds_append.1 hframe.2).1⟩
  · rw [hserviced.load b h17]
    exact gate_load hw next h9

/-! ### One program -/

def sampleLibrary : UserSymbols where
  syscallSysenter := 0x100100
  sysenterReturn := 0x100200
  nok := 0x100300
  errno := 0x108000
  twrap := 0x100400

/-- `sys_write` of a descriptor that is not open: `-EBADF`. -/
abbrev sampleWrite : Long → Cpu → Cpu := sampleReturns (-9)

/-- `write` at its address, and what it needs. -/
def sampleProgram : Program where
  text a := placed 0x100000 (write.code sampleLibrary) a <|> placed 0x100100 (syscallSysenter sampleLibrary) a <|>
    placed 0x100200 Asm.sysenterReturn a <|> placed 0x100300 (nok sampleLibrary) a
  outside _ _ := False
  gate := SystemCall 0x10300 sampleSymbols 0x1E000 sampleWrite

theorem sample_linked : Linked sampleProgram sampleSymbols sampleLibrary 0x1E000 0x10300 sampleWrite where
  sysenter := ⟨_, rfl, _, rfl, _, rfl, _, rfl, _, rfl, _, rfl, trivial⟩
  sysenterReturn := ⟨_, rfl, _, rfl, _, rfl, _, rfl, _, rfl, trivial⟩
  nok := ⟨_, rfl, _, rfl, _, rfl, _, rfl, _, rfl, trivial⟩
  gate _ _ := Iff.rfl

theorem sample_served : Served sampleSymbols sampleLibrary 0x1E000 sampleWrite (sampleUser 0) where
  kernelRoom := (sample_entered (-9) 0).room
  userRoom := room_of_readable (fun _ => rfl) _ _
  table := sample_table
  apart := by decide
  disjoint := by decide
  errno := by decide
  routine := (sample_entered (-9) 0).routine
  user _ _ _ _ _ := rfl
  mapped := rfl
  writable _ _ h := h
  cs := rfl
  ss := (sample_entered (-9) 0).ss

/-- `write(0, 0, 0)`, called from address 0: the result is -1, and `errno` is 9. -/
theorem wrapper_performs_write : Eventually sampleProgram
    (Performed sampleSymbols sampleLibrary 0x1E000 0x10300 sampleWrite .sysWrite true [0, 0, 0] 0 (sampleUser 0))
    ⟨sampleUser 0, 0x100000, fun _ => 0, [], []⟩ := by
  refine wrapper_performs (m := ⟨sampleUser 0, 0x100000, fun _ => 0, [], []⟩) (w := write) sample_linked rfl ?_
    sample_served rfl (holds_of_get (by decide))
  exact ⟨_, rfl, _, rfl, _, rfl, _, rfl, _, rfl, _, rfl, _, rfl, _, rfl, _, rfl, _, rfl, _, rfl, _, rfl, _, rfl,
    trivial⟩

end Asm

end Zeos
