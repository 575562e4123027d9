import Zeos.Proof.Coroutines

/-!
# The first turn of a new task

A forked child and a new thread have never called `task_switch`: their creator has made up what their kernel stacks
hold. From the switch to them up to user mode.

* `fork_child_returns`: **a forked child comes out of the `sysenter` of its parent**, with the parent's registers and
  zero as the result.
* `thread_begins`: **a new thread begins in `twrap`**, on its own user stack.
-/

namespace Zeos

open X86

namespace Asm

variable {P : Program} {K : KernelSymbols} {d : ℕ} {cur parent child s : Slot} {m m' : Core} {c u : Cpu}
  {a fp ret top top' next : Long} {callee : Long → Cpu → Cpu} {log : List Called} {x : Exit}

/-! ### The stacks that are made up -/

/-- `copy_data(current(), uchild, sizeof(union task_union))` has been done. -/
def Copied (K : KernelSymbols) (parent child : Slot) (c : Cpu) : Prop :=
  ∀ i < 1024,
    c.load (taskAddr K child + BitVec.ofNat 32 (4 * i)) = c.load (taskAddr K parent + BitVec.ofNat 32 (4 * i))

/-- What `sys_fork` stores on the child's kernel stack, and its saved pointer. The frame of `sys_fork` is at
`frame`. -/
def forkStack (K : KernelSymbols) (parent child : Slot) (retFromFork frame : Long) (c : Cpu) : Cpu :=
  let registerEbp := frame - taskAddr K parent + taskAddr K child
  let tempEbp := c.long registerEbp
  ((c.stored registerEbp retFromFork).stored (registerEbp - 4) tempEbp).stored (registerEspAddr K child)
    (registerEbp - 4)

/-- What `sys_createthread` stores there: `stack[KERNEL_STACK_SIZE-2]`, `stack[KERNEL_STACK_SIZE-5]` and the saved
pointer. -/
def threadStack (K : KernelSymbols) (child : Slot) (twrap userEsp : Long) (c : Cpu) : Cpu :=
  ((c.stored (kernelEsp K child - 8) userEsp).stored (kernelEsp K child - 20) twrap).stored (registerEspAddr K child)
    (kernelEsp K child - 72)

theorem into_kernelEsp {k : ℕ} (hk : k ≤ 4096) : into K s (kernelEsp K s - BitVec.ofNat 32 k) = 4096 - k := by
  unfold into kernelEsp
  bv_omega

/-- The same long on the stacks of two tasks. -/
theorem Copied.load (h : Copied K parent child c) {i : ℕ} (hi : i < 1024) :
    c.load (kernelEsp K child - BitVec.ofNat 32 (4 * (i + 1))) =
      c.load (kernelEsp K parent - BitVec.ofNat 32 (4 * (i + 1))) := by
  have haddr : ∀ s, kernelEsp K s - BitVec.ofNat 32 (4 * (i + 1)) =
      taskAddr K s + BitVec.ofNat 32 (4 * (1024 - (i + 1))) := fun s => by
    unfold kernelEsp
    bv_omega
  rw [haddr, haddr]
  exact h _ (by omega)

theorem off_above {b : Long} (h : into K s b + 4 ≤ into K s a) (ha : into K s a ≤ 4096) : Off 1 (b + 4) a := by
  unfold into Off at *
  bv_omega

/-- A store leaves alone what is above it on the stack of the task. -/
theorem load_above {b w : Long} {k : ℕ} (h : into K s b + 4 + k ≤ 4096) :
    (c.stored b w).load (kernelEsp K s - BitVec.ofNat 32 k) = c.load (kernelEsp K s - BitVec.ofNat 32 k) := by
  have hinto : into K s (kernelEsp K s - BitVec.ofNat 32 k) = 4096 - k := into_kernelEsp (by omega)
  refine load_stored (off_above (K := K) (s := s) ?_ ?_) w
  · omega
  · omega

/-- The longs at the top of the parent's stack, on the child's. -/
theorem Copied.holds {ws : List Long} (h : Copied K parent child c) (hlen : ws.length ≤ 1024)
    (hrow : c.Holds (kernelEsp K parent - BitVec.ofNat 32 (4 * ws.length)) ws) :
    c.Holds (kernelEsp K child - BitVec.ofNat 32 (4 * ws.length)) ws := by
  refine holds_of_get fun i hi => ?_
  have haddr : ∀ s, kernelEsp K s - BitVec.ofNat 32 (4 * ws.length) + BitVec.ofNat 32 (4 * i) =
      kernelEsp K s - BitVec.ofNat 32 (4 * (ws.length - (i + 1) + 1)) := fun s => by
    bv_omega
  rw [haddr, h.load (by omega), ← haddr]
  exact holds_get hrow (List.getElem?_eq_getElem hi)

theorem Copied.frame {ws : List Long} (h : Copied K parent child c) (hlen : ws.length = 18)
    (hrow : c.Holds (kernelEsp K parent - 72) ws) : c.Holds (kernelEsp K child - 72) ws := by
  have h72 : 4 * ws.length = 72 := by omega
  have hcopied : c.Holds (kernelEsp K child - BitVec.ofNat 32 (4 * ws.length)) ws :=
    h.holds (by omega) (by rw [h72]; exact hrow)
  rw [h72] at hcopied
  exact hcopied

theorem up_twice : a + 8 = a + 4 + 4 := by bv_omega

theorem down_from : a - 76 + 4 = a - 72 := by bv_omega

theorem up_from {i : ℕ} (hi : i < 17) : a - 72 + 4 + BitVec.ofNat 32 (4 * i) = a - BitVec.ofNat 32 (68 - 4 * i) := by
  bv_omega

/-- The stack pointers that a call of `sys_fork` leaves for its child: under what the parent's handler has saved,
`ret_from_fork` and a frame pointer for it. -/
theorem forkStack_holds (retFromFork : Long) {row : List Long} (hcopy : Copied K parent child c)
    (hlen : row.length = 16) (hrow : c.Holds (kernelEsp K parent - 72) (fp :: ret :: row))
    (hlow : c.readable (kernelEsp K child - 76) = true) (hregister : c.readable (registerEspAddr K child) = true) :
    (forkStack K parent child retFromFork (kernelEsp K parent - 72) c).load (registerEspAddr K child) =
        .ok (kernelEsp K child - 76) ∧
      (forkStack K parent child retFromFork (kernelEsp K parent - 72) c).Holds (kernelEsp K child - 76)
        (fp :: retFromFork :: ret :: row) := by
  have hframe : kernelEsp K parent - 72 - taskAddr K parent + taskAddr K child = kernelEsp K child - 72 := by
    unfold kernelEsp
    bv_omega
  have hchild : c.Holds (kernelEsp K child - 72) (fp :: ret :: row) := hcopy.frame (by simp [hlen]) hrow
  have htemp : c.long (kernelEsp K child - 72) = fp := (load_eq_ok.1 hchild.1).2
  have h76 : kernelEsp K child - 72 - 4 = kernelEsp K child - 76 := by bv_omega
  let c₁ := c.stored (kernelEsp K child - 72) retFromFork
  let c₂ := c₁.stored (kernelEsp K child - 76) fp
  let c₃ := c₂.stored (registerEspAddr K child) (kernelEsp K child - 76)
  have hfork : forkStack K parent child retFromFork (kernelEsp K parent - 72) c = c₃ := by
    simp only [forkStack, hframe, htemp, h76]
    rfl
  have hlow₁ : c₁.readable (kernelEsp K child - 76) = true := (stored_readable c _ _ _).trans hlow
  have hregister₂ : c₂.readable (registerEspAddr K child) = true :=
    (stored_readable c₁ _ _ _).trans ((stored_readable c _ _ _).trans hregister)
  -- each store leaves alone what is above it
  have h76' : into K child (kernelEsp K child - 76) = 4020 := into_kernelEsp (k := 76) (by decide)
  have h72' : into K child (kernelEsp K child - 72) = 4024 := into_kernelEsp (k := 72) (by decide)
  have hthird : ∀ k ≤ 76, c₃.load (kernelEsp K child - BitVec.ofNat 32 k) =
      c₂.load (kernelEsp K child - BitVec.ofNat 32 k) := fun k hk => load_above (by rw [into_registerEsp]; omega)
  have hsecond : ∀ k ≤ 72, c₂.load (kernelEsp K child - BitVec.ofNat 32 k) =
      c₁.load (kernelEsp K child - BitVec.ofNat 32 k) := fun k hk => load_above (by rw [h76']; omega)
  have hfirst : ∀ k ≤ 68, c₁.load (kernelEsp K child - BitVec.ofNat 32 k) =
      c.load (kernelEsp K child - BitVec.ofNat 32 k) := fun k hk => load_above (by rw [h72']; omega)
  have htop : c₃.load (kernelEsp K child - 76) = .ok fp := (hthird 76 le_rfl).trans (stored_load hlow₁ fp)
  have hback : c₃.load (kernelEsp K child - 72) = .ok retFromFork :=
    (hthird 72 (by decide)).trans ((hsecond 72 le_rfl).trans (stored_load (load_eq_ok.1 hchild.1).1 retFromFork))
  have hrest : c₃.Holds (kernelEsp K child - 72 + 4) (ret :: row) := by
    refine holds_of_load hchild.2 fun i hi => ?_
    have hi' : i < 17 := by
      rw [List.length_cons, hlen] at hi
      exact hi
    rw [up_from hi']
    exact (hthird _ (by omega)).trans ((hsecond _ (by omega)).trans (hfirst _ (by omega)))
  have hsaved : c₃.load (registerEspAddr K child) = .ok (kernelEsp K child - 76) :=
    stored_load hregister₂ (kernelEsp K child - 76)
  have hstack : c₃.Holds (kernelEsp K child - 76 + 4) (retFromFork :: ret :: row) := by
    rw [down_from]
    exact ⟨hback, hrest⟩
  rw [hfork]
  exact ⟨hsaved, htop, hstack⟩

/-! ### The way out -/

/-- `sysexit` takes no stack pointer from the registers of `sysenter`. -/
theorem exec_top (n : ℕ) (is : List (Instr Label)) (log : List Called) (c : Cpu) :
    exec (env top ret callee) n is log c = exec (env top' ret callee) n is log c := by
  induction n generalizing is log c with
  | zero => rfl
  | succ n ih =>
    cases is with
    | nil => rfl
    | cons i is =>
      cases i with
      | op o =>
        simp only [exec]
        cases o.run c with
        | error e => rfl
        | ok c' => exact ih is log c'
      | jl l => exact ih _ _ _
      | jg l => exact ih _ _ _
      | jmp l => exact ih _ _ _
      | call table r =>
        simp only [exec]
        cases c.load (table + 4 * c.reg r) with
        | error e => rfl
        | ok target =>
          change (c.push ret >>= fun c' => exec (env top ret callee) n is
              (log ++ [⟨table + 4 * c.reg r, target, callee target c'⟩]) (callee target c')) =
            (c.push ret >>= fun c' => exec (env top' ret callee) n is
              (log ++ [⟨table + 4 * c.reg r, target, callee target c'⟩]) (callee target c'))
          cases c.push ret with
          | error e => rfl
          | ok c' => exact ih _ _ _
      | sysexit => rfl

theorem ends_top {is : List (Instr Label)} :
    Ends (env top ret callee) is log c x ↔ Ends (env top' ret callee) is log c x :=
  exists_congr fun n => by rw [exec_top n is log c]

/-- Where the handler goes on once its routine has come back. -/
def handlerEnd : List (Instr Label) := .jmp .sysenterFin :: sysenterErr

variable (ret top' callee log) in
theorem end_resumed (hcs : u.seg .cs = userCs) (hss : u.seg .ss = userDs)
    (h : c.Holds (c.reg .esp) (savedRow (entered top u)).reverse) :
    ∃ x, Ends (env top' ret callee) handlerEnd log c x ∧ x.cpu.reg .eax = c.reg .eax ∧ Resumed top u x := by
  obtain ⟨x, hx, -, heax, hres⟩ := back ret callee log hcs hss h
  have hjmp : Ends (env top ret callee) handlerEnd log c x := ends_jmp_iff.2 hx
  exact ⟨x, ends_top.1 hjmp, heax, hres⟩

/-! ### The child -/

/-- The stack and the saved pointer of `child` are as in `c`. -/
structure Untouched (K : KernelSymbols) (child : Slot) (c c' : Cpu) : Prop where
  saved : c'.load (registerEspAddr K child) = c.load (registerEspAddr K child)
  stack : ∀ a, OnStack K child a 1 → c'.load a = c.load a

theorem Untouched.holds {c' : Cpu} {ws : List Long} {k : ℕ} (h : Untouched K child c c') (hk : 4 * ws.length ≤ k)
    (hk' : k ≤ 4000) (hrow : c.Holds (kernelEsp K child - BitVec.ofNat 32 k) ws) :
    c'.Holds (kernelEsp K child - BitVec.ofNat 32 k) ws := by
  refine holds_of_load hrow fun i hi => h.stack _ ?_
  have hbase : into K child (kernelEsp K child - BitVec.ofNat 32 k) = 4096 - k := into_kernelEsp (by omega)
  have hat : into K child (kernelEsp K child - BitVec.ofNat 32 k + BitVec.ofNat 32 (4 * i)) = 4096 - k + 4 * i := by
    rw [← hbase]
    exact into_add (by omega)
  constructor
  · rw [hat]
    unfold sizeofTaskStruct
    omega
  · rw [hat]
    omega

/-- A switch leaves the stack of the new task as it was. -/
theorem Switched.untouched {sp back : Long} {y : Context} (h : Switched P K cur child sp fp back y m m')
    (hne : child ≠ cur) : Untouched K child m.cpu m'.cpu := by
  have hpage : ∀ a, into K child a + 4 ≤ 4096 → m'.cpu.load a = m.cpu.load a := fun a ha =>
    h.load a (mem_leftAlone_other hne ha) (off_of_page (K := K) hne ha (by rw [into_behind_registerEsp]; decide)
      (by rw [into_behind_registerEsp]; decide))
  exact ⟨hpage _ (by rw [into_registerEsp]; decide), fun a ha => hpage a ha.top⟩

/-- On the parent's stack, the frame of the routine that its call has come to, at `kernelEsp K parent - 72`. -/
def InRoutine (K : KernelSymbols) (parent : Slot) (fp ret : Long) (u c : Cpu) : Prop :=
  c.Holds (kernelEsp K parent - 72) (fp :: ret :: (savedRow (entered (kernelEsp K parent) u)).reverse)

variable (ret callee log) in
/-- **`fork` comes back twice**: the child leaves the kernel where its parent had come in, on the parent's stack
address and with its registers, and with zero as the result. -/
theorem fork_child_returns {retFromFork : Long} {A : Set Long} (hP : SwitchCode P K d) (hd : 0 < d)
    (hm : Calls P K d cur child next m) (hne : child ≠ cur) (hsave : m.cpu.readable (registerEspAddr K cur) = true)
    (hret : P.Function A 16 retFromFork) (hzero : ∀ e l, e.eip = retFromFork → P.outside e l → l.cpu.reg .eax = 0)
    (hcs : u.seg .cs = userCs) (hss : u.seg .ss = userDs) (hparent : InRoutine K parent fp ret u c)
    (hcopy : Copied K parent child c) (hlow : c.readable (kernelEsp K child - 76) = true)
    (hregister : c.readable (registerEspAddr K child) = true)
    (hchild : Untouched K child (forkStack K parent child retFromFork (kernelEsp K parent - 72) c) m.cpu) :
    Eventually P (fun m' => m'.eip = ret ∧ ∃ x, Ends (env (kernelEsp K child) ret callee) handlerEnd log m'.cpu x ∧
      x.cpu.reg .eax = 0 ∧ Resumed (kernelEsp K parent) u x) m := by
  have hlen : (savedRow (entered (kernelEsp K parent) u)).reverse.length = 16 :=
    List.length_reverse.trans savedRow_length
  unfold InRoutine at hparent
  generalize hsavedRow : (savedRow (entered (kernelEsp K parent) u)).reverse = row at hparent hlen
  obtain ⟨hsaved, hrow⟩ := forkStack_holds retFromFork hcopy hlen hparent hlow hregister
  have hstack := hchild.holds (k := 76) (by simp [hlen]) (by decide) hrow
  have hon : OnStack K child (kernelEsp K child - 76) 2 := by
    have hinto : into K child (kernelEsp K child - 76) = 4096 - 76 := into_kernelEsp (by decide)
    constructor <;> rw [hinto] <;> decide
  refine (taskSwitch_eventually hP hm hd hne hsave (hchild.saved.trans hsaved) hon
    ⟨hstack.1, hstack.2.1, trivial⟩).trans fun m₁ h₁ => ?_
  have hstack₁ := (h₁.untouched hne).holds (k := 76) (by simp [hlen]) (by decide) hstack
  have hesp : m₁.cpu.reg .esp = kernelEsp K child - 76 + 4 + 4 := by
    rw [h₁.esp, up_twice]
  have hframe : m₁.cpu.Holds (m₁.cpu.reg .esp) (ret :: row) := by
    rw [hesp]
    exact hstack₁.2.2
  have hread := (load_eq_ok.1 hframe.1).1
  refine eventually_outside (by rw [h₁.eip]; exact hret.text) (hret.total _ h₁.eip hread) fun m' hm' => .here ?_
  have heip : m'.eip = ret := by
    have h := hret.eip _ _ h₁.eip hm'
    rw [hframe.1] at h
    exact (Except.ok.inj h).symm
  have hkeeps := hret.keeps _ _ h₁.eip hm'
  have hleft : m'.cpu.Holds (m'.cpu.reg .esp) row := by
    rw [hkeeps.esp]
    exact hkeeps.frame _ hlen hframe.2
  rw [← hsavedRow] at hleft
  obtain ⟨x, hx, heax, hres⟩ := end_resumed ret (kernelEsp K child) callee log hcs hss hleft
  have hresult : x.cpu.reg .eax = 0 := heax.trans (hzero m₁ m' h₁.eip hm')
  exact ⟨heip, x, hx, hresult, hres⟩

/-! ### The thread -/

/-- User mode begins at `eip` with the stack at `esp`, and with the other registers of `u`. -/
structure Begins (u : Cpu) (eip esp : Long) (x : Exit) : Prop where
  eip : x.eip = eip
  esp : x.cpu.reg .esp = esp
  reg : ∀ r ∈ [Reg.ebx, .esi, .edi, .ebp], x.cpu.reg r = u.reg r
  seg : ∀ s, x.cpu.seg s = u.seg s

/-- What `SAVE_ALL` has left, with another `eip` and `esp`. -/
def threadRow (u : Cpu) (top eip esp : Long) : List Long :=
  ((savedRow (entered top u)).reverse.set 14 esp).set 11 eip

variable (ret top' callee log) in
theorem end_begins {eip esp : Long} (hcs : u.seg .cs = userCs) (hss : u.seg .ss = userDs)
    (h : c.Holds (c.reg .esp) (threadRow u top eip esp)) :
    ∃ x, Ends (env top' ret callee) handlerEnd log c x ∧ Begins u eip esp x := by
  have hrow : threadRow u top eip esp =
      [u.reg .ebx, u.reg .ecx, u.reg .edx, u.reg .esi, u.reg .edi, u.reg .ebp, u.reg .eax, (u.seg .ds).setWidth 32,
        (u.seg .es).setWidth 32, (u.seg .fs).setWidth 32, (u.seg .gs).setWidth 32, eip, userCs.setWidth 32,
        (entered top u).flags.long, esp, userDs.setWidth 32] := rfl
  rw [hrow] at h
  obtain ⟨x, hx, -, heip, hesp, -, hebx, hesi, hedi, hebp, hds, hes, hfs, hgs, hcs', hss'⟩ :=
    @fin_run top' ret callee _ log _ _ _ _ _ _ _ _ _ _ _ _ _ _ _ _ h
  refine ⟨x, ends_jmp_iff.2 hx, heip, hesp, ?_, ?_⟩
  · intro r hr
    simp only [List.mem_cons, List.not_mem_nil, or_false] at hr
    rcases hr with rfl | rfl | rfl | rfl
    · exact hebx
    · exact hesi
    · exact hedi
    · exact hebp
  · intro s
    cases s with
    | cs => rw [hcs', hcs]
    | ss => rw [hss', hss]
    | ds => rw [hds, setWidth_seg]
    | es => rw [hes, setWidth_seg]
    | fs => rw [hfs, setWidth_seg]
    | gs => rw [hgs, setWidth_seg]

theorem esp_place : a - BitVec.ofNat 32 72 + BitVec.ofNat 32 (4 * 16) = a - 8 := by bv_omega

theorem eip_place : a - BitVec.ofNat 32 72 + BitVec.ofNat 32 (4 * 13) = a - 20 := by bv_omega

theorem threadStack_holds (twrap userEsp : Long) {row : List Long} (hcopy : Copied K parent child c)
    (hlen : row.length = 16) (hrow : c.Holds (kernelEsp K parent - 72) (fp :: ret :: row))
    (hregister : c.readable (registerEspAddr K child) = true) :
    (threadStack K child twrap userEsp c).load (registerEspAddr K child) = .ok (kernelEsp K child - 72) ∧
      (threadStack K child twrap userEsp c).Holds (kernelEsp K child - 72)
        (fp :: ret :: (row.set 14 userEsp).set 11 twrap) := by
  have hlength : (fp :: ret :: row).length = 18 := by simp [hlen]
  have hchild : c.Holds (kernelEsp K child - BitVec.ofNat 32 72) (fp :: ret :: row) :=
    hcopy.frame (by simp [hlen]) hrow
  -- the places of `esp` and `eip` in the row
  have hfirst := holds_set (i := 16) (w := userEsp) (by omega) (by omega) hchild
  rw [esp_place] at hfirst
  have hsecond := holds_set (i := 13) (w := twrap) (by simp [hlen]) (by simp [hlen]) hfirst
  rw [eip_place] at hsecond
  let c₂ := (c.stored (kernelEsp K child - 8) userEsp).stored (kernelEsp K child - 20) twrap
  have hthread : threadStack K child twrap userEsp c =
      c₂.stored (registerEspAddr K child) (kernelEsp K child - 72) := rfl
  have hmapped : c₂.readable (registerEspAddr K child) = true :=
    (stored_readable (c.stored (kernelEsp K child - 8) userEsp) _ _ _).trans
      ((stored_readable c _ _ _).trans hregister)
  rw [hthread]
  refine ⟨stored_load hmapped _, holds_of_load hsecond fun i hi => ?_⟩
  have hi' : i < 18 := by simpa [hlen] using hi
  have hbase : into K child (kernelEsp K child - 72) = 4024 := into_kernelEsp (k := 72) (by decide)
  have hat : into K child (kernelEsp K child - 72 + BitVec.ofNat 32 (4 * i)) = 4024 + 4 * i := by
    rw [← hbase]
    exact into_add (by omega)
  refine load_stored (off_above (K := K) (s := child) ?_ ?_) _
  · rw [into_registerEsp, hat]
    omega
  · rw [hat]
    omega

variable (ret callee log) in
/-- **A thread begins in `twrap`**, with the stack that `sys_createthread` has laid out for it, and otherwise with the
registers of the task that made it. -/
theorem thread_begins {twrap userEsp : Long} (hP : SwitchCode P K d) (hd : 0 < d)
    (hm : Calls P K d cur child next m) (hne : child ≠ cur) (hsave : m.cpu.readable (registerEspAddr K cur) = true)
    (hcs : u.seg .cs = userCs) (hss : u.seg .ss = userDs) (hparent : InRoutine K parent fp ret u c)
    (hcopy : Copied K parent child c) (hregister : c.readable (registerEspAddr K child) = true)
    (hchild : Untouched K child (threadStack K child twrap userEsp c) m.cpu) :
    Eventually P (fun m' => m'.eip = ret ∧ ∃ x, Ends (env (kernelEsp K child) ret callee) handlerEnd log m'.cpu x ∧
      Begins u twrap userEsp x) m := by
  have hlen : (savedRow (entered (kernelEsp K parent) u)).reverse.length = 16 :=
    List.length_reverse.trans savedRow_length
  obtain ⟨hsaved, hrow⟩ := threadStack_holds twrap userEsp hcopy hlen hparent hregister
  have hstack := hchild.holds (k := 72) (by simp [hlen]) (by decide) hrow
  have hon : OnStack K child (kernelEsp K child - 72) 2 := by
    have hinto : into K child (kernelEsp K child - 72) = 4096 - 72 := into_kernelEsp (by decide)
    constructor <;> rw [hinto] <;> decide
  refine (taskSwitch_eventually hP hm hd hne hsave (hchild.saved.trans hsaved) hon
    ⟨hstack.1, hstack.2.1, trivial⟩).mono fun m' h' => ⟨h'.eip, ?_⟩
  have hstack' := (h'.untouched hne).holds (k := 72) (by simp [hlen]) (by decide) hstack
  have hesp : m'.cpu.reg .esp = kernelEsp K child - BitVec.ofNat 32 72 + 4 + 4 := by
    rw [h'.esp, up_twice]
    rfl
  have hleft : m'.cpu.Holds (m'.cpu.reg .esp) (threadRow u (kernelEsp K parent) twrap userEsp) := by
    rw [hesp]
    exact hstack'.2.2
  exact end_begins ret (kernelEsp K child) callee log hcs hss hleft

/-! ### An example -/

/-- The end of a page: a call of `task_switch` for task 1 at `0xF00`, and the frame of the routine at `0xFB8`. -/
def forkWords : List Long :=
  [0x10500, 0x21000] ++ List.replicate 44 0 ++ [7, 0x10020] ++ (savedRow (entered 0x21000 (sampleUser 2))).reverse

/-- Every page is that of the parent. -/
def forkPage : Cpu where
  reg _ := 0x20F00
  seg _ := kernelDs
  flags := ⟨false, false, false, false, 0⟩
  mem a :=
    let place := (a.setWidth 12).toNat
    (forkWords.getD ((place - 0xF00) / 4) 0).extractLsb' (8 * (place % 4)) 8
  mapped _ := true

theorem forkPage_copied : Copied sampleKernel 0 1 forkPage := by
  have hmem : ∀ a b : Long, a.setWidth 12 = b.setWidth 12 → forkPage.mem a = forkPage.mem b := fun a b h => by
    simp only [forkPage, h]
  have hlong : ∀ a b : Long, a.setWidth 12 = b.setWidth 12 → forkPage.long a = forkPage.long b := fun a b h => by
    have hnext : ∀ k : Long, (a + k).setWidth 12 = (b + k).setWidth 12 := fun k => by
      rw [BitVec.setWidth_add _ _ (by decide), BitVec.setWidth_add _ _ (by decide), h]
    simp only [Cpu.long, hmem _ _ h, hmem _ _ (hnext _)]
  intro i _
  refine (load_eq_ok.2 ⟨rfl, hlong _ _ ?_⟩).trans (load_eq_ok.2 ⟨rfl, rfl⟩).symm
  rw [BitVec.setWidth_add _ _ (by decide), BitVec.setWidth_add _ _ (by decide)]
  rfl

theorem forkPage_inRoutine : InRoutine sampleKernel 0 7 0x10020 (sampleUser 2) forkPage :=
  holds_of_get (by decide)

/-- The parent, once it gives the CPU away. -/
def forkCore (c : Cpu) : Core := ⟨c.setReg .esp 0x20F00, 0x10000, fun _ => 0, [], []⟩

theorem forkCore_calls {c : Cpu} (hmapped : ∀ a, c.readable a = true)
    (hload : ∀ a, into sampleKernel 0 a + 4 ≤ 4096 → c.load a = forkPage.load a) :
    Calls sampleSwitch sampleKernel 8 0 1 0x10500 (forkCore c) where
  code := sample_calls.code
  args := by
    have hrow : c.Holds 0x20F00 [0x10500, 0x21000] := by
      refine ⟨(hload _ (by decide)).trans ?_, (hload _ (by decide)).trans ?_, trivial⟩ <;> decide
    have hesp : (forkCore c).cpu.reg .esp = 0x20F00 := setReg_self _ _ _
    rw [hesp]
    exact hrow.congr fun a => setReg_load _ _ _ a
  deep := by
    have hesp : (forkCore c).cpu.reg .esp = 0x20F00 := setReg_self _ _ _
    rw [hesp]
    decide
  top := by
    have hesp : (forkCore c).cpu.reg .esp = 0x20F00 := setReg_self _ _ _
    rw [hesp]
    decide
  room := room_of_readable (fun a => (setReg_readable _ _ _ a).trans (hmapped a)) _ _
  tss := (setReg_readable _ _ _ _).trans (hmapped _)

theorem off_parent {a b : Long} (ha : into sampleKernel 0 a + 4 ≤ 4096) (hb : 4 ≤ into sampleKernel 1 b)
    (hb' : into sampleKernel 1 b ≤ 4096) : Off 1 b a :=
  off_of_page (by decide : (0 : Slot) ≠ 1) ha hb hb'

theorem stored_parent {c : Cpu} {a b : Long} (hb : into sampleKernel 0 b + 4 ≤ 4096)
    (h : 4 ≤ into sampleKernel 1 (a + 4)) (h' : into sampleKernel 1 (a + 4) ≤ 4096) (w : Long) :
    (c.stored a w).load b = c.load b :=
  load_stored (off_parent hb h h') w

theorem forkStack_parent (retFromFork : Long) {b : Long} (hb : into sampleKernel 0 b + 4 ≤ 4096) :
    (forkStack sampleKernel 0 1 retFromFork 0x20FB8 forkPage).load b = forkPage.load b :=
  (stored_parent hb (by decide) (by decide) _).trans
    ((stored_parent hb (by decide) (by decide) _).trans (stored_parent hb (by decide) (by decide) _))

theorem threadStack_parent (twrap userEsp : Long) {b : Long} (hb : into sampleKernel 0 b + 4 ≤ 4096) :
    (threadStack sampleKernel 1 twrap userEsp forkPage).load b = forkPage.load b :=
  (stored_parent hb (by decide) (by decide) _).trans
    ((stored_parent hb (by decide) (by decide) _).trans (stored_parent hb (by decide) (by decide) _))

theorem forkCore_untouched (c : Cpu) : Untouched sampleKernel 1 c (forkCore c).cpu :=
  ⟨setReg_load _ _ _ _, fun a _ => setReg_load _ _ _ a⟩

/-- Task 0 gives the CPU to a thread that it has made. -/
theorem thread_begins_sample : Eventually sampleSwitch (fun m' => m'.eip = 0x10020 ∧
    ∃ x, Ends (env (kernelEsp sampleKernel 1) 0x10020 samplePid) handlerEnd [] m'.cpu x ∧
      Begins (sampleUser 2) 0x100300 0x11DFF4 x) (forkCore (threadStack sampleKernel 1 0x100300 0x11DFF4 forkPage)) :=
  thread_begins 0x10020 samplePid [] sample_switchOnly.toSwitchCode (by decide)
    (forkCore_calls (fun _ => rfl) fun _ h => threadStack_parent _ _ h) (by decide) rfl rfl rfl forkPage_inRoutine
    forkPage_copied rfl (forkCore_untouched _)

/-- The same with `ret_from_fork`. -/
def sampleFork : Program where
  text := sampleSwitch.text
  outside m m' := sampleSwitch.outside m m' ∨ m.eip = 0x18000 ∧ m.cpu.load (m.cpu.reg .esp) = .ok m'.eip ∧
    m'.cpu = (m.cpu.setReg .esp (m.cpu.reg .esp + 4)).setReg .eax 0
  gate _ _ := False

theorem sampleFork_outside {m m' : Core} (h : m.eip ≠ 0x18000) : sampleFork.outside m m' → sampleSwitch.outside m m'
  | .inl hout => hout
  | .inr hout => absurd hout.1 h

theorem sample_switchCode : SwitchCode sampleFork sampleKernel 8 where
  setMSR := sample_switchOnly.setMSR
  switchStack := sample_switchOnly.switchStack
  inner_text := rfl
  inner_total cur new next m h := (sample_switchOnly.inner_total cur new next m h).imp fun _ => .inl
  inner cur new next m m' h hm' :=
    sample_switchOnly.inner cur new next m m' h (sampleFork_outside (by rw [h.eip]; decide) hm')
  msrSet_text := rfl
  msrSet_total cur new frame sp m h := (sample_switchOnly.msrSet_total cur new frame sp m h).imp fun _ => .inl
  msrSet cur new frame sp m m' h hm' :=
    sample_switchOnly.msrSet cur new frame sp m m' h (sampleFork_outside (by rw [h.eip]; decide) hm')
  tss := sample_switchOnly.tss

theorem sampleFork_returns {m m' : Core} (heip : m.eip = 0x18000) (h : sampleFork.outside m m') :
    m.cpu.load (m.cpu.reg .esp) = .ok m'.eip ∧
      m'.cpu = (m.cpu.setReg .esp (m.cpu.reg .esp + 4)).setReg .eax 0 := by
  rcases h with (⟨hinner, -⟩ | ⟨hmsr, -⟩) | ⟨-, h⟩
  · exact absurd (heip.symm.trans hinner) (by decide)
  · exact absurd (heip.symm.trans hmsr) (by decide)
  · exact h

theorem sample_retFromFork : sampleFork.Function ∅ 16 0x18000 where
  text := rfl
  total m heip hread := ⟨m.go ((m.cpu.setReg .esp (m.cpu.reg .esp + 4)).setReg .eax 0) (m.cpu.long (m.cpu.reg .esp)),
    .inr ⟨heip, load_eq_ok.2 ⟨hread, rfl⟩, rfl⟩⟩
  eip m m' heip h := (sampleFork_returns heip h).1
  keeps m m' heip h := by
    rw [(sampleFork_returns heip h).2]
    refine ⟨(setReg_of_ne (by decide) _ _).trans (setReg_self _ _ _), fun ws _ hrow => hrow.congr fun a => ?_⟩
    rw [setReg_load, setReg_load]
  room m m' heip h k hroom := by
    rw [(sampleFork_returns heip h).2]
    refine hroom.congr fun a => ?_
    rw [setReg_readable, setReg_readable]
  cs m m' heip h := by rw [(sampleFork_returns heip h).2, setReg_seg, setReg_seg]
  ss m m' heip h := by rw [(sampleFork_returns heip h).2, setReg_seg, setReg_seg]
  kept m m' heip h a ha := ha.elim

/-- Task 0 gives the CPU to its child. -/
theorem fork_child_returns_sample : Eventually sampleFork (fun m' => m'.eip = 0x10020 ∧
    ∃ x, Ends (env (kernelEsp sampleKernel 1) 0x10020 samplePid) handlerEnd [] m'.cpu x ∧ x.cpu.reg .eax = 0 ∧
      Resumed (kernelEsp sampleKernel 0) (sampleUser 2) x)
    (forkCore (forkStack sampleKernel 0 1 0x18000 0x20FB8 forkPage)) := by
  have hcalls := forkCore_calls (c := forkStack sampleKernel 0 1 0x18000 0x20FB8 forkPage) (fun _ => rfl)
    fun _ h => forkStack_parent _ h
  have hzero : ∀ e l : Core, e.eip = 0x18000 → sampleFork.outside e l → l.cpu.reg .eax = 0 := fun e l heip h => by
    rw [(sampleFork_returns heip h).2, setReg_self]
  have hcalls' : Calls sampleFork sampleKernel 8 0 1 0x10500
      (forkCore (forkStack sampleKernel 0 1 0x18000 0x20FB8 forkPage)) :=
    ⟨hcalls.code, hcalls.args, hcalls.deep, hcalls.top, hcalls.room, hcalls.tss⟩
  have hframe : kernelEsp sampleKernel 0 - 72 = 0x20FB8 := by decide
  have hchild : Untouched sampleKernel 1 (forkStack sampleKernel 0 1 0x18000 (kernelEsp sampleKernel 0 - 72) forkPage)
      (forkCore (forkStack sampleKernel 0 1 0x18000 0x20FB8 forkPage)).cpu := by
    rw [hframe]
    exact forkCore_untouched _
  exact fork_child_returns 0x10020 samplePid [] sample_switchCode (by decide) hcalls' (by decide) rfl
    sample_retFromFork hzero rfl rfl forkPage_inRoutine forkPage_copied rfl rfl hchild

end Asm

end Zeos
