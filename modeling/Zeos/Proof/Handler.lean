import Zeos.Handler

/-!
# System calls by number

`Dispatched` is what a system call is for: the routine of its number runs, or the call is refused, and user
mode goes on behind it with its registers.

* `table_number`: the numbers in the wrappers are the places of their routines in the table.
* `save_run`, `fin_run`: the stack from the first push on, and the way back from it.
* `dispatched_iff`: **a system call does what it should unless it has the number behind the last one.**
-/

namespace Zeos

open X86

variable {S : Symbols} {top ret : Long} {callee : Long → Cpu → Cpu} {u c : Cpu} {x : Exit}
  {log : List Called}

/-- `systemCall` takes each call to the routine that the table has at its number. -/
theorem table_number {call : Call} {n : ℕ} (h : call.number = some n) : sysCallTable[n]? = some call.routine := by
  cases call <;> cases h <;> rfl

/-! ### The way in -/

namespace Asm

def entryRow : List Src := [.imm (userDs.setWidth 32), .reg .ebp, .flags, .imm (userCs.setWidth 32)]

def saveRow : List Src :=
  [.seg .gs, .seg .fs, .seg .es, .seg .ds, .reg .eax, .reg .ebp, .reg .edi, .reg .esi, .reg .edx, .reg .ecx,
    .reg .ebx]

/-- What `push 4(%ebp)` finds. -/
def returnAddress (c : Cpu) : Long := (c.pushes (entryRow.map c.value)).long (c.reg .ebp + 4)

/-- What is on the stack when all is saved, the last long pushed at its end. -/
def savedRow (c : Cpu) : List Long := entryRow.map c.value ++ returnAddress c :: saveRow.map c.value

/-- The state after `SAVE_ALL`. -/
def saved (c : Cpu) : Cpu :=
  let c := c.pushes (savedRow c)
  ((c.setReg .edx (kernelDs.setWidth 32)).setSeg .ds kernelDs).setSeg .es kernelDs

/-- The instructions up to the one after `SAVE_ALL`. -/
def saveOps : List Op := entryRow.map .push ++ .pushm 4 .ebp :: saveAll

theorem entry_run (hroom : c.Room 16 (c.reg .esp)) :
    runOps (entryRow.map .push) c = .ok (c.pushes (entryRow.map c.value)) :=
  pushes_run (by decide) (hroom.mono (by decide))

theorem entry_ebp : (c.pushes (entryRow.map c.value)).reg .ebp = c.reg .ebp :=
  value_pushes (s := .reg .ebp) (by decide) c _

theorem save_run (hroom : c.Room 16 (c.reg .esp)) (hread : c.readable (c.reg .ebp + 4) = true) :
    runOps saveOps c = .ok (saved c) := by
  have haddress : Op.run (c.pushes (entryRow.map c.value)) (.pushm 4 .ebp) =
      .ok (c.pushes (entryRow.map c.value ++ [returnAddress c])) := by
    have hload : (c.pushes (entryRow.map c.value)).load (c.reg .ebp + 4) = .ok (returnAddress c) :=
      load_eq_ok.2 ⟨(readable_pushes c _ _).trans hread, rfl⟩
    have hone : (c.pushes (entryRow.map c.value)).Room 12 ((c.pushes (entryRow.map c.value)).reg .esp) :=
      Cpu.Room.pushes hroom
    rw [Op.run, entry_ebp, hload, pushes_append]
    exact if_pos hone.1
  have hsave : runOps (saveRow.map .push) (c.pushes (entryRow.map c.value ++ [returnAddress c])) =
      .ok (c.pushes (savedRow c)) := by
    -- what is pushed now is what was there before the first push: none of it is `esp`
    have hplain : ∀ s ∈ saveRow, s ≠ .reg .esp := by decide
    have hbelow : (c.pushes (entryRow.map c.value ++ [returnAddress c])).Room saveRow.length
        ((c.pushes (entryRow.map c.value ++ [returnAddress c])).reg .esp) := Cpu.Room.pushes hroom
    have hrun := pushes_run hplain hbelow
    rw [map_value_pushes hplain, ← pushes_append, List.append_assoc] at hrun
    exact hrun
  rw [saveOps, runOps_append (entry_run hroom), runOps, List.foldlM_cons, haddress]
  change runOps (saveRow.map .push ++ _) _ = _
  rw [runOps_append hsave]
  rfl

/-- With `4(%ebp)` not mapped the handler does not come to `SAVE_ALL`. -/
theorem save_fault (hroom : c.Room 16 (c.reg .esp)) (hread : ¬ c.readable (c.reg .ebp + 4) = true) (c' : Cpu) :
    runOps saveOps c ≠ .ok c' := by
  have hload : (c.pushes (entryRow.map c.value)).load (c.reg .ebp + 4) = .error (.pageFault (c.reg .ebp + 4)) :=
    if_neg (by rw [readable_pushes]; exact hread)
  have haddress : Op.run (c.pushes (entryRow.map c.value)) (.pushm 4 .ebp) = .error (.pageFault (c.reg .ebp + 4)) := by
    rw [Op.run, entry_ebp, hload]
    rfl
  intro h
  rw [saveOps, runOps_append (entry_run hroom), runOps, List.foldlM_cons, haddress] at h
  cases h

theorem savedRow_length : (savedRow c).length = 16 := rfl

theorem saved_load {b : Long} (h : Off 16 (c.reg .esp) b) : (saved c).load b = c.load b := by
  have hpushes : (c.pushes (savedRow c)).load b = c.load b :=
    load_pushes (by rw [savedRow_length]; decide) (by rw [savedRow_length]; exact h)
  exact hpushes

theorem saved_esp : (saved c).reg .esp = c.reg .esp - 64 := by
  have hesp : (saved c).reg .esp = (c.pushes (savedRow c)).reg .esp := rfl
  rw [hesp, pushes_esp, savedRow_length]
  rfl

theorem saved_eax : (saved c).reg .eax = c.reg .eax := by
  have hpushes : (saved c).reg .eax = (c.pushes (savedRow c)).value (.reg .eax) := by
    simp [saved, Cpu.setReg, Cpu.setSeg, Cpu.value]
  exact hpushes.trans (value_pushes (by decide) c _)

theorem saved_holds (hroom : c.Room 16 (c.reg .esp)) : (saved c).Holds ((saved c).reg .esp) (savedRow c).reverse := by
  have hrow : (c.pushes (savedRow c)).Holds ((c.pushes (savedRow c)).reg .esp) ((savedRow c).reverse ++ []) :=
    holds_pushes (by rw [savedRow_length, List.length_nil]; omega) (by rw [savedRow_length]; exact hroom) trivial
  rw [List.append_nil] at hrow
  have hesp : (saved c).reg .esp = (c.pushes (savedRow c)).reg .esp := rfl
  have hload : ∀ a, (saved c).load a = (c.pushes (savedRow c)).load a := fun _ => rfl
  rw [hesp]
  exact hrow.congr hload

/-! ### The way back -/

/-- The pops of `RESTORE_ALL`. -/
def restoreRow : List Dst :=
  [.reg .ebx, .reg .ecx, .reg .edx, .reg .esi, .reg .edi, .reg .ebp, .reg .eax, .seg .ds, .seg .es, .seg .fs, .seg .gs]

/-- The state before `sysexit`. -/
def leaving (c : Cpu) (eip esp : Long) : Cpu :=
  { (c.setReg .edx eip).setReg .ecx esp with flags := { c.flags with intf := true } }

variable (ret callee log) in
theorem fin_run {b cx dx si di bp ax ds es fs gs ip cs fl sp ss : Long}
    (h : c.Holds (c.reg .esp) [b, cx, dx, si, di, bp, ax, ds, es, fs, gs, ip, cs, fl, sp, ss]) :
    ∃ x, Ends (env top ret callee) sysenterFin log c x ∧ x.calls = log ∧ x.eip = ip ∧ x.cpu.reg .esp = sp ∧
      x.cpu.reg .eax = c.reg .eax ∧ x.cpu.reg .ebx = b ∧ x.cpu.reg .esi = si ∧ x.cpu.reg .edi = di ∧
      x.cpu.reg .ebp = bp ∧ x.cpu.seg .ds = ds.setWidth 16 ∧ x.cpu.seg .es = es.setWidth 16 ∧
      x.cpu.seg .fs = fs.setWidth 16 ∧ x.cpu.seg .gs = gs.setWidth 16 ∧ x.cpu.seg .cs = userCs ∧
      x.cpu.seg .ss = userDs := by
  have hread : c.readable (c.reg .esp + 0x18) = true := (load_eq_ok.1 (holds_get (i := 6) h rfl)).1
  -- the result goes into the slot of `eax`
  have hstore : Op.run c (.store .eax 0x18 .esp) = .ok (c.stored (c.reg .esp + 0x18) (c.reg .eax)) := if_pos hread
  have hset := holds_set (i := 6) (w := c.reg .eax) (by simp) (by simp) h
  have hrow : [b, cx, dx, si, di, bp, ax, ds, es, fs, gs, ip, cs, fl, sp, ss].set 6 (c.reg .eax) =
      [b, cx, dx, si, di, bp, c.reg .eax, ds, es, fs, gs] ++ [ip, cs, fl, sp, ss] := rfl
  rw [hrow] at hset
  -- eleven pops, in the order of the row
  obtain ⟨hpops, hrest⟩ := pops_run (by decide : .reg .esp ∉ restoreRow) rfl hset
  have hhas : ∀ p ∈ restoreRow.zip [b, cx, dx, si, di, bp, c.reg .eax, ds, es, fs, gs],
      ((c.stored (c.reg .esp + 0x18) (c.reg .eax)).pops
        (restoreRow.zip [b, cx, dx, si, di, bp, c.reg .eax, ds, es, fs, gs])).Has p.2 p.1 :=
    fun p hp => pops_has (l := restoreRow.zip [b, cx, dx, si, di, bp, c.reg .eax, ds, es, fs, gs])
      (by decide : restoreRow.Nodup) (by decide : .reg .esp ∉ restoreRow) hp
  generalize (c.stored (c.reg .esp + 0x18) (c.reg .eax)).pops _ = c₂ at hpops hrest hhas
  have hip : c₂.load (c₂.reg .esp + 0) = .ok ip := holds_get (i := 0) hrest rfl
  have hsp : c₂.load (c₂.reg .esp + 12) = .ok sp := holds_get (i := 3) hrest rfl
  -- `eip` and `esp` for `sysexit`, from what is left of the frame
  have hout : runOps [.load 0 .esp .edx, .load 12 .esp .ecx, .sti] c₂ = .ok (leaving c₂ ip sp) := by
    have hedx : Op.run c₂ (.load 0 .esp .edx) = .ok (c₂.setReg .edx ip) := by
      rw [Op.run, hip]
      rfl
    have hecx : Op.run (c₂.setReg .edx ip) (.load 12 .esp .ecx) = .ok ((c₂.setReg .edx ip).setReg .ecx sp) := by
      have hload : (c₂.setReg .edx ip).load ((c₂.setReg .edx ip).reg .esp + 12) = .ok sp := hsp
      rw [Op.run, hload]
      rfl
    rw [runOps, List.foldlM_cons, hedx]
    change (Op.run (c₂.setReg .edx ip) (.load 12 .esp .ecx) >>= _) = _
    rw [hecx]
    rfl
  refine ⟨⟨(leaving c₂ ip sp).sysexit ⟨kernelCs, top⟩, ip, log⟩, ?_, rfl, rfl, rfl, ?_⟩
  · refine ends_ops_iff.2 ⟨leaving c₂ ip sp, ?_, ends_sysexit_iff.2 rfl⟩
    rw [List.append_assoc, List.singleton_append, runOps, List.foldlM_cons, hstore]
    exact (runOps_append hpops).trans hout
  · refine ⟨hhas (.reg .eax, _) (by simp [restoreRow]), hhas (.reg .ebx, _) (by simp [restoreRow]),
      hhas (.reg .esi, _) (by simp [restoreRow]), hhas (.reg .edi, _) (by simp [restoreRow]),
      hhas (.reg .ebp, _) (by simp [restoreRow]), hhas (.seg .ds, _) (by simp [restoreRow]),
      hhas (.seg .es, _) (by simp [restoreRow]), hhas (.seg .fs, _) (by simp [restoreRow]),
      hhas (.seg .gs, _) (by simp [restoreRow]), ?_, ?_⟩
    · exact (sysexit_cs _ _).trans (by decide : (kernelCs + 16) ||| 3 = userCs)
    · exact (sysexit_ss _ _).trans (by decide : (kernelCs + 24) ||| 3 = userDs)

/-! ### The dispatch -/

/-- Between `SAVE_ALL` and `sysenter_err`. -/
def dispatch (S : Symbols) : List (Instr Label) :=
  .op (.cmp 0 .eax) :: .jl .sysenterErr ::
  .op (.cmp (BitVec.ofNat 32 maxSyscall) .eax) :: .jg .sysenterErr ::
  .call S.sysCallTable .eax :: .jmp .sysenterFin ::
  sysenterErr

def compare (c : Cpu) (w : Long) : Cpu := { c with flags := c.flags.cmp (c.reg .eax) w }

theorem compare_run (w : Long) : Op.run c (.cmp w .eax) = .ok (compare c w) := rfl

theorem dispatch_low (h : (c.reg .eax).toInt < 0) :
    Ends (env top ret callee) (dispatch S) log c x ↔
      Ends (env top ret callee) sysenterErr log (compare c 0) x := by
  have hless : (compare c 0).flags.less = true := (less_cmp _ _ _).trans (decide_eq_true h)
  rw [dispatch, ends_op (compare_run 0), ends_jl_iff, if_pos hless]
  rfl

theorem dispatch_nonneg (h : 0 ≤ (c.reg .eax).toInt) :
    Ends (env top ret callee) (dispatch S) log c x ↔ Ends (env top ret callee)
      (if maxSyscall < (c.reg .eax).toInt then sysenterErr
        else .call S.sysCallTable .eax :: .jmp .sysenterFin :: sysenterErr)
      log (compare (compare c 0) (BitVec.ofNat 32 maxSyscall)) x := by
  have hless : ¬ (compare c 0).flags.less = true := by
    have hcmp : (compare c 0).flags.less = decide ((c.reg .eax).toInt < (0 : Long).toInt) := less_cmp _ _ _
    rw [hcmp, decide_eq_true_eq]
    exact Int.not_lt.2 h
  have hgreater : (compare (compare c 0) (BitVec.ofNat 32 maxSyscall)).flags.greater =
      decide ((maxSyscall : ℤ) < (c.reg .eax).toInt) := greater_cmp _ _ _
  rw [dispatch, ends_op (compare_run 0), ends_jl_iff, if_neg hless,
    ends_op (compare_run _), ends_jg_iff, hgreater]
  simp only [decide_eq_true_eq]
  rfl

def entered (top : Long) (u : Cpu) : Cpu := u.sysenter ⟨kernelCs, top⟩

end Asm
open Asm

/-- User mode goes on at the return address, with its stack and its registers. -/
structure Resumed (top : Long) (u : Cpu) (x : Exit) : Prop where
  eip : x.eip = returnAddress (entered top u)
  esp : x.cpu.reg .esp = u.reg .ebp
  reg : ∀ r ∈ [Reg.ebx, .esi, .edi, .ebp], x.cpu.reg r = u.reg r
  seg : ∀ s, x.cpu.seg s = u.seg s

theorem entered_esp : (entered top u).reg .esp = top := by
  simp [entered, Cpu.sysenter, Cpu.setReg]

theorem entered_room {n : ℕ} (h : u.Room n top) : (entered top u).Room n ((entered top u).reg .esp) := by
  have hread : ∀ a, (entered top u).readable a = u.readable a := fun _ => rfl
  rw [entered_esp]
  exact h.congr hread

/-- With the user's stack off the kernel's, it is the one that was there when the call was made. -/
theorem returnAddress_eq (hread : u.readable (u.reg .ebp + 4) = true) (hoff : Off 4 top (u.reg .ebp + 4)) :
    returnAddress (entered top u) = u.long (u.reg .ebp + 4) := by
  have hload : ((entered top u).pushes (entryRow.map (entered top u).value)).load (u.reg .ebp + 4) =
      .ok (u.long (u.reg .ebp + 4)) := by
    rw [load_pushes (by simp [entryRow]) (by rw [entered_esp]; exact hoff)]
    exact load_eq_ok.2 ⟨hread, rfl⟩
  exact (load_eq_ok.1 hload).2

theorem setWidth_seg (w : BitVec 16) : (w.setWidth 32).setWidth 16 = w := by
  rw [BitVec.setWidth_setWidth_of_le _ (by decide), BitVec.setWidth_eq]

variable (ret callee log) in
theorem back (hcs : u.seg .cs = userCs) (hss : u.seg .ss = userDs)
    (h : c.Holds (c.reg .esp) (savedRow (entered top u)).reverse) :
    ∃ x, Ends (env top ret callee) sysenterFin log c x ∧ x.calls = log ∧ x.cpu.reg .eax = c.reg .eax ∧
      Resumed top u x := by
  have hrow : (savedRow (entered top u)).reverse =
      [u.reg .ebx, u.reg .ecx, u.reg .edx, u.reg .esi, u.reg .edi, u.reg .ebp, u.reg .eax, (u.seg .ds).setWidth 32,
        (u.seg .es).setWidth 32, (u.seg .fs).setWidth 32, (u.seg .gs).setWidth 32, returnAddress (entered top u),
        userCs.setWidth 32, (entered top u).flags.long, u.reg .ebp, userDs.setWidth 32] := rfl
  rw [hrow] at h
  obtain ⟨x, hx, hcalls, heip, hesp, heax, hebx, hesi, hedi, hebp, hds, hes, hfs, hgs, hcs', hss'⟩ :=
    fin_run ret callee log h
  refine ⟨x, hx, hcalls, heax, heip, hesp, ?_, ?_⟩
  · intro r hr
    simp only [List.mem_cons, List.not_mem_nil, or_false] at hr
    rcases hr with rfl | rfl | rfl | rfl
    · exact hebx
    · exact hesi
    · exact hedi
    · exact hebp
  · intro s
    cases s with
    | cs => rw [hcs', hcs]
    | ss => rw [hss', hss]
    | ds => rw [hds, setWidth_seg]
    | es => rw [hes, setWidth_seg]
    | fs => rw [hfs, setWidth_seg]
    | gs => rw [hgs, setWidth_seg]

/-- The kernel a call comes into: a kernel stack with room for the handler, the table at its place and off that
stack, and routines that leave the saved registers alone. -/
structure Entered (S : Symbols) (top : Long) (callee : Long → Cpu → Cpu) (u : Cpu) : Prop where
  room : u.Room 17 top
  table : u.Holds S.sysCallTable (sysCallTable.map S.routine)
  apart : ∀ i < maxSyscall, Off 17 top (S.sysCallTable + BitVec.ofNat 32 (4 * i))
  routine : ∀ r c, c.reg .esp = top - 68 → Keeps 16 c (callee (S.routine r) c)
  cs : u.seg .cs = userCs
  ss : u.seg .ss = userDs

/-- **What a system call does**: the routine at its number, called through the table, gives the result, and
any other number is refused. -/
structure Dispatched (S : Symbols) (top : Long) (u : Cpu) (x : Exit) : Prop extends Resumed top u x where
  called : (∃ i r left, sysCallTable[i]? = some r ∧ u.reg .eax = BitVec.ofNat 32 i ∧
      x.calls = [⟨S.sysCallTable + BitVec.ofNat 32 (4 * i), S.routine r, left⟩] ∧ x.cpu.reg .eax = left.reg .eax) ∨
    (∀ i < maxSyscall, u.reg .eax ≠ BitVec.ofNat 32 i) ∧ x.calls = [] ∧ x.cpu.reg .eax = -enosys

variable (ret) in
/-- A system call, from the wrapper's `sysenter` to the handler's `sysexit`. -/
def SystemCall (S : Symbols) (top : Long) (callee : Long → Cpu → Cpu) (u : Cpu) (x : Exit) : Prop :=
  Ends (env top ret callee) (Asm.systemCallHandler S) [] (entered top u) x

theorem systemCall_iff (h : Entered S top callee u) (hread : u.readable (u.reg .ebp + 4) = true) :
    SystemCall ret S top callee u x ↔ Ends (env top ret callee) (dispatch S) [] (saved (entered top u)) x := by
  have hrun : runOps saveOps (entered top u) = .ok (saved (entered top u)) :=
    save_run (entered_room (h.room.mono (by decide))) hread
  have hcode : Asm.systemCallHandler S = saveOps.map .op ++ dispatch S := rfl
  rw [SystemCall, hcode, ends_ops_iff, hrun]
  constructor
  · rintro ⟨_, hc, hx⟩
    cases hc
    exact hx
  · intro hx
    exact ⟨_, rfl, hx⟩

theorem systemCall_fault (h : Entered S top callee u) (hread : ¬ u.readable (u.reg .ebp + 4) = true) :
    ¬ SystemCall ret S top callee u x := by
  intro hx
  have hcode : Asm.systemCallHandler S = saveOps.map .op ++ dispatch S := rfl
  rw [SystemCall, hcode, ends_ops_iff] at hx
  obtain ⟨c', hc, -⟩ := hx
  exact save_fault (entered_room (h.room.mono (by decide))) hread c' hc

/-- A state between `SAVE_ALL` and the call. -/
structure Framed (top : Long) (u c : Cpu) : Prop where
  frame : c.Holds (top - 64) (savedRow (entered top u)).reverse
  esp : c.reg .esp = top - 64
  eax : c.reg .eax = u.reg .eax
  room : c.Room 1 (top - 64)
  load : ∀ b, Off 16 top b → c.load b = u.load b

theorem framed_saved (h : Entered S top callee u) : Framed top u (saved (entered top u)) := by
  have hesp : (saved (entered top u)).reg .esp = top - 64 := by rw [saved_esp, entered_esp]
  refine ⟨?_, hesp, saved_eax, ?_, ?_⟩
  · rw [← hesp]
    exact saved_holds (entered_room (h.room.mono (by decide)))
  · have hroom : ((entered top u).pushes (savedRow (entered top u))).Room 1
        (((entered top u).pushes (savedRow (entered top u))).reg .esp) := (entered_room h.room).pushes
    have hread : ∀ a, (saved (entered top u)).readable a =
        ((entered top u).pushes (savedRow (entered top u))).readable a := fun _ => rfl
    rw [pushes_esp, entered_esp] at hroom
    exact hroom.congr hread
  · intro b hb
    exact saved_load (by rw [entered_esp]; exact hb)

theorem Framed.compare (h : Framed top u c) (w : Long) : Framed top u (compare c w) := by
  have hload : ∀ a, (Asm.compare c w).load a = c.load a := fun _ => rfl
  have hread : ∀ a, (Asm.compare c w).readable a = c.readable a := fun _ => rfl
  exact ⟨h.frame.congr hload, h.esp, h.eax, h.room.congr hread, fun b hb => (hload b).trans (h.load b hb)⟩

variable (ret) in
theorem refused_dispatch (h : Entered S top callee u) (hread : u.readable (u.reg .ebp + 4) = true)
    (hbad : (u.reg .eax).toInt < 0 ∨ maxSyscall < (u.reg .eax).toInt) :
    ∃ c, Framed top u c ∧ ∀ x, SystemCall ret S top callee u x ↔ Ends (env top ret callee) sysenterErr [] c x := by
  have hsaved := framed_saved h
  by_cases hlow : (u.reg .eax).toInt < 0
  · refine ⟨_, hsaved.compare 0, fun x => ?_⟩
    rw [systemCall_iff h hread, dispatch_low (by rw [hsaved.eax]; exact hlow)]
  · refine ⟨_, (hsaved.compare 0).compare (BitVec.ofNat 32 maxSyscall), fun x => ?_⟩
    rw [systemCall_iff h hread, dispatch_nonneg (by rw [hsaved.eax]; omega), hsaved.eax, if_pos (by omega)]

variable (ret) in
theorem accepted_dispatch (h : Entered S top callee u) (hread : u.readable (u.reg .ebp + 4) = true)
    (hlow : 0 ≤ (u.reg .eax).toInt) (hhigh : (u.reg .eax).toInt ≤ maxSyscall) :
    ∃ c, Framed top u c ∧ ∀ x, SystemCall ret S top callee u x ↔ Ends (env top ret callee)
      (.call S.sysCallTable .eax :: .jmp .sysenterFin :: sysenterErr) [] c x := by
  have hsaved := framed_saved h
  refine ⟨_, (hsaved.compare 0).compare (BitVec.ofNat 32 maxSyscall), fun x => ?_⟩
  rw [systemCall_iff h hread, dispatch_nonneg (by rw [hsaved.eax]; exact hlow), hsaved.eax, if_neg (by omega)]

variable (ret) in
/-- **Refused.** -/
theorem refused (h : Entered S top callee u) (hread : u.readable (u.reg .ebp + 4) = true)
    (hbad : (u.reg .eax).toInt < 0 ∨ maxSyscall < (u.reg .eax).toInt) :
    ∃ x, SystemCall ret S top callee u x ∧ x.calls = [] ∧ x.cpu.reg .eax = -enosys ∧ Resumed top u x := by
  obtain ⟨c, hc, hiff⟩ := refused_dispatch ret h hread hbad
  have hmov : Op.run c (.mov (.imm (-enosys)) (.reg .eax)) = .ok (c.setReg .eax (-enosys)) := rfl
  have hesp : (c.setReg .eax (-enosys)).reg .esp = top - 64 := hc.esp
  have hload : ∀ a, (c.setReg .eax (-enosys)).load a = c.load a := fun _ => rfl
  obtain ⟨x, hx, hcalls, hres, hback⟩ := back ret callee [] (c := c.setReg .eax (-enosys)) h.cs h.ss
    (by rw [hesp]; exact hc.frame.congr hload)
  refine ⟨x, (hiff x).2 ((ends_op hmov).2 hx), hcalls, ?_, hback⟩
  rw [hres]
  simp [Cpu.setReg]

theorem toInt_number {i : ℕ} (hi : i ≤ maxSyscall) : (BitVec.ofNat 32 i).toInt = i := by
  have hbound : maxSyscall = 36 := rfl
  rw [BitVec.toInt_eq_toNat_of_lt] <;> rw [BitVec.toNat_ofNat, Nat.mod_eq_of_lt (by omega)]
  omega

/-- What is neither refused nor behind the table has an entry. -/
theorem number_entry {w : Long} (hlow : 0 ≤ w.toInt) (hhigh : w.toInt ≤ maxSyscall)
    (hne : w ≠ BitVec.ofNat 32 maxSyscall) : w.toNat < maxSyscall := by
  have hbound : maxSyscall = 36 := rfl
  have hnat : w.toNat ≠ maxSyscall := by
    intro heq
    rw [← heq] at hne
    exact hne (by simp)
  have hcond := BitVec.toInt_eq_toNat_cond w
  have hlt := w.isLt
  split at hcond <;> omega

variable (ret) in
/-- **Through the table.** -/
theorem through_table {i : ℕ} {r : Routine} (h : Entered S top callee u)
    (hread : u.readable (u.reg .ebp + 4) = true) (hr : sysCallTable[i]? = some r)
    (heax : u.reg .eax = BitVec.ofNat 32 i) :
    ∃ x left, SystemCall ret S top callee u x ∧
      x.calls = [⟨S.sysCallTable + BitVec.ofNat 32 (4 * i), S.routine r, left⟩] ∧ x.cpu.reg .eax = left.reg .eax ∧
      Resumed top u x := by
  have hi : i < maxSyscall := (List.getElem?_eq_some_iff.1 hr).1
  have hint : (u.reg .eax).toInt = i := by rw [heax, toInt_number (by omega)]
  obtain ⟨c, hc, hiff⟩ := accepted_dispatch ret h hread (by omega) (by omega)
  have hentry : S.sysCallTable + 4 * c.reg .eax = S.sysCallTable + BitVec.ofNat 32 (4 * i) := by
    rw [hc.eax, heax, BitVec.ofNat_mul]
    rfl
  -- the table is off the stack, so it is still the table after the pushes
  have htarget : c.load (S.sysCallTable + 4 * c.reg .eax) = .ok (S.routine r) := by
    have hword : (sysCallTable.map S.routine)[i]? = some (S.routine r) := by
      rw [List.getElem?_map, hr]
      rfl
    rw [hentry, hc.load _ ((h.apart i hi).mono (by decide))]
    exact holds_get h.table hword
  have hpush : c.push ret = .ok (c.pushed ret) := by
    have hroom := hc.room.1
    rw [← hc.esp] at hroom
    exact if_pos hroom
  have hesp : (c.pushed ret).reg .esp = top - 68 := by
    rw [pushed_esp, hc.esp]
    bv_omega
  have hkeeps := h.routine r _ hesp
  have htop : top - 68 + 4 = top - 64 := by bv_omega
  -- the frame is above the return address
  have hframe : (c.pushed ret).Holds (top - 64) (savedRow (entered top u)).reverse := by
    have hrow := hc.frame
    rw [← hc.esp] at hrow ⊢
    exact hrow.pushed (by rw [List.length_reverse, savedRow_length]; decide) ret
  have hleft : (callee (S.routine r) (c.pushed ret)).Holds (top - 64) (savedRow (entered top u)).reverse := by
    have hkept := hkeeps.frame (savedRow (entered top u)).reverse (List.length_reverse.trans savedRow_length)
    rw [hesp, htop] at hkept
    exact hkept hframe
  have hesp' : (callee (S.routine r) (c.pushed ret)).reg .esp = top - 64 := by rw [hkeeps.esp, hesp, htop]
  obtain ⟨x, hx, hcalls, hres, hback⟩ := back ret callee
    [⟨S.sysCallTable + 4 * c.reg .eax, S.routine r, callee (S.routine r) (c.pushed ret)⟩] h.cs h.ss
    (by rw [hesp']; exact hleft)
  refine ⟨x, _, (hiff x).2 (ends_call_iff.2 ⟨_, _, htarget, hpush, ends_jmp_iff.2 hx⟩), ?_, hres, hback⟩
  rw [hcalls, hentry]

theorem fin_calls (h : Ends (env top ret callee) sysenterFin log c x) : x.calls = log := by
  rw [sysenterFin, ends_ops_iff] at h
  obtain ⟨c', -, hx⟩ := h
  rw [ends_sysexit_iff.1 hx]

/-- **Behind the table.** Nothing is assumed of what is called there. -/
theorem behind_table (h : Entered S top callee u) (hread : u.readable (u.reg .ebp + 4) = true)
    (heax : u.reg .eax = BitVec.ofNat 32 maxSyscall) (hx : SystemCall ret S top callee u x) :
    ∃ target left, x.calls = [⟨S.sysCallTable + BitVec.ofNat 32 (4 * maxSyscall), target, left⟩] := by
  have hint : (u.reg .eax).toInt = maxSyscall := by rw [heax, toInt_number le_rfl]
  obtain ⟨c, hc, hiff⟩ := accepted_dispatch ret h hread (by omega) (by omega)
  obtain ⟨target, c', -, -, hrest⟩ := ends_call_iff.1 ((hiff x).1 hx)
  have hentry : S.sysCallTable + 4 * c.reg .eax = S.sysCallTable + BitVec.ofNat 32 (4 * maxSyscall) := by
    rw [hc.eax, heax]
    rfl
  refine ⟨target, callee target c', ?_⟩
  rw [fin_calls (ends_jmp_iff.1 hrest), hentry]
  rfl

theorem behind_not_dispatched (h : Entered S top callee u) (hread : u.readable (u.reg .ebp + 4) = true)
    (heax : u.reg .eax = BitVec.ofNat 32 maxSyscall) (hx : SystemCall ret S top callee u x) :
    ¬ Dispatched S top u x := by
  intro hd
  obtain ⟨target, left, hcalls⟩ := behind_table h hread heax hx
  rcases hd.called with ⟨i, r, left', hr, -, hcalls', -⟩ | ⟨-, hnone, -⟩
  · have hi : i < 36 := (List.getElem?_eq_some_iff.1 hr).1
    have hbound : maxSyscall = 36 := rfl
    rw [hcalls, hbound] at hcalls'
    injection hcalls' with hcalled
    injection hcalled with hentry
    bv_omega
  · rw [hcalls] at hnone
    cases hnone

/-- **A system call does what it should unless it has the number behind the last one**, whatever the registers
are, as long as the return address can be read. -/
theorem dispatched_iff (h : Entered S top callee u) :
    (∃ x, SystemCall ret S top callee u x ∧ Dispatched S top u x) ↔
      u.reg .eax ≠ BitVec.ofNat 32 maxSyscall ∧ u.readable (u.reg .ebp + 4) = true := by
  constructor
  · rintro ⟨x, hx, hd⟩
    have hread : u.readable (u.reg .ebp + 4) = true := by
      by_contra hread
      exact systemCall_fault h hread hx
    exact ⟨fun heax => behind_not_dispatched h hread heax hx hd, hread⟩
  · rintro ⟨hne, hread⟩
    by_cases hbad : (u.reg .eax).toInt < 0 ∨ maxSyscall < (u.reg .eax).toInt
    · obtain ⟨x, hx, hcalls, hres, hback⟩ := refused ret h hread hbad
      refine ⟨x, hx, hback, .inr ⟨fun i hi heax => ?_, hcalls, hres⟩⟩
      rw [heax, toInt_number (by omega)] at hbad
      omega
    · have heax : u.reg .eax = BitVec.ofNat 32 (u.reg .eax).toNat := by simp
      obtain ⟨r, hr⟩ : ∃ r, sysCallTable[(u.reg .eax).toNat]? = some r :=
        ⟨_, List.getElem?_eq_getElem (number_entry (by omega) (by omega) hne)⟩
      obtain ⟨x, left, hx, hcalls, hres, hback⟩ := through_table ret h hread hr heax
      exact ⟨x, hx, hback, .inl ⟨_, r, left, hr, heax, hcalls, hres⟩⟩

/-! ### One kernel -/

def sampleSymbols : Symbols := ⟨0x1A000, fun r => 0x10400 + 0x40 * BitVec.ofNat 32 r.ctorIdx⟩

/-- All of memory is mapped, the table in it. -/
def sampleUser (eax : Long) : Cpu where
  reg
    | .eax => eax
    | .ebp => 0x11BFE0
    | .esp => 0x11BFE0
    | _ => 7
  seg
    | .cs => userCs
    | _ => userDs
  flags := ⟨false, false, false, true, 2⟩
  mem a :=
    let k := (a - 0x1A000).toNat
    ((sysCallTable[k / 4]?.map sampleSymbols.routine).getD 0).extractLsb' (8 * (k % 4)) 8
  mapped _ := true

/-- A routine with the result `w`. -/
def sampleReturns (w _ : Long) (c : Cpu) : Cpu := (c.setReg .esp (c.reg .esp + 4)).setReg .eax w

/-- The number of the process. -/
abbrev samplePid : Long → Cpu → Cpu := sampleReturns 1

theorem sample_table : (sampleUser 0).Holds sampleSymbols.sysCallTable (sysCallTable.map sampleSymbols.routine) :=
  holds_of_get (by decide)

theorem sample_entered (w eax : Long) : Entered sampleSymbols 0x1E000 (sampleReturns w) (sampleUser eax) where
  room := room_of_readable (fun _ => rfl) _ _
  table := by
    have hload : ∀ a, (sampleUser eax).load a = (sampleUser 0).load a := fun _ => rfl
    exact sample_table.congr hload
  apart := by decide
  routine r c hc := by
    refine ⟨by simp [sampleReturns, Cpu.setReg], fun ws _ h => ?_⟩
    have hload : ∀ a, (sampleReturns w (sampleSymbols.routine r) c).load a = c.load a := fun _ => rfl
    exact h.congr hload
  cs := rfl
  ss := by simp [sampleUser]

/-- Number 20 is that of `getpid`. -/
theorem dispatched_iff_getpid :
    ∃ x, SystemCall 0x10300 sampleSymbols 0x1E000 samplePid (sampleUser 20) x ∧
      Dispatched sampleSymbols 0x1E000 (sampleUser 20) x :=
  (dispatched_iff (sample_entered 1 20)).2 ⟨by decide, rfl⟩

/-- Number 36 goes through the long behind the table. -/
theorem no_entry : Entered sampleSymbols 0x1E000 samplePid (sampleUser 36) ∧
    ¬ ∃ x, SystemCall 0x10300 sampleSymbols 0x1E000 samplePid (sampleUser 36) x ∧
      Dispatched sampleSymbols 0x1E000 (sampleUser 36) x := by
  refine ⟨sample_entered 1 36, ?_⟩
  rintro ⟨x, hx, hd⟩
  exact behind_not_dispatched (sample_entered 1 36) rfl rfl hx hd

end Zeos
