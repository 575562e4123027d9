import Zeos.Proof.Interrupts
import Zeos.Proof.TaskSwitch

/-!
# Tasks as coroutines

After one task switch, runs of them. `σ` has the context of each task that is in a call of
`task_switch`, as it was when the call was made.

* `taskSwitch_refines`: **the instructions do what `innerTaskSwitch` says** to the saved pointers and to `current()`,
  and the processor's own pointers to the kernel stack follow.
* `run_waiting`: whatever the tasks do on their own stacks, those that wait stay as they were.
* `resumed`: **in every run, a task that is switched to comes out of its own call of `task_switch`.**
-/

namespace Zeos

open X86

namespace Asm

variable {P : Program} {K : KernelSymbols} {d : ℕ} {cur new s : Slot} {m m' : Core} {sp fp back ret : Long}

/-! ### The model of the switch -/

def stackPtrAddr (K : KernelSymbols) : StackPtr → Long
  | none => 0
  | some (s, i) => taskAddr K s + BitVec.ofNat 32 (4 * i)

/-- Memory and the processor, as far as task switches go. -/
structure Stores (K : KernelSymbols) (k : Kernel) (m : Core) : Prop where
  saved : ∀ s, m.cpu.load (registerEspAddr K s) = .ok (stackPtrAddr K (k.task s).registerEsp)
  /-- `current()` -/
  current : into K k.current (m.cpu.reg .esp) ≤ 4096
  /-- `sysenter` takes its stack from here, -/
  msr : m.msr 0x175 = 0#32 ++ kernelEsp K k.current
  /-- and an interrupt from here. -/
  esp0 : m.cpu.load K.tssEsp0 = .ok (kernelEsp K k.current)

/-- The word of its stack that the frame of `inner_task_switch` is at. -/
def frameWord (K : KernelSymbols) (cur : Slot) (m : Core) : ℕ := (into K cur (m.cpu.reg .esp) - 28) / 4

theorem stackPtrAddr_frameWord (hdeep : 28 ≤ into K cur (m.cpu.reg .esp)) (halign : 4 ∣ into K cur (m.cpu.reg .esp)) :
    stackPtrAddr K (some (cur, frameWord K cur m)) = m.cpu.reg .esp - 28 := by
  obtain ⟨n, hn⟩ := halign
  have hword : 4 * frameWord K cur m = into K cur (m.cpu.reg .esp) - 28 := by
    unfold frameWord
    omega
  rw [stackPtrAddr, hword]
  unfold into at *
  bv_omega

/-- **The instructions refine `innerTaskSwitch`.** -/
theorem taskSwitch_refines {k : Kernel} {i : ℕ} (hP : SwitchCode P K d) (hd : 0 < d)
    (hm : Calls P K d k.current new ret m) (halign : 4 ∣ into K k.current (m.cpu.reg .esp)) (hne : new ≠ k.current)
    (hs : Stores K k m) (hnew : (k.task new).registerEsp = some (new, i)) (hlow : 16 ≤ i)
    (htop : i + 2 ≤ kernelStackSize) (hrow : m.cpu.Holds (stackPtrAddr K (some (new, i))) [fp, back]) :
    ∃ sw k', innerTaskSwitch k (frameWord K k.current m) new = .ok (sw, k') ∧
      Eventually P (fun m' => Stores K k' m' ∧ m'.eip = back ∧ m'.cpu.reg .ebp = fp ∧
        m'.cpu.reg .esp = stackPtrAddr K (some (new, i + 2))) m := by
  have hdeep := hm.deep
  unfold sizeofTaskStruct at hdeep
  let k₁ : Kernel := { k with cr3 := getDIR k new }
  let k₂ := k₁.setTask k.current { k₁.task k.current with registerEsp := some (k.current, frameWord K k.current m) }
  have hmodel : innerTaskSwitch k (frameWord K k.current m) new = .ok
      (⟨k.current, new, some (k.current, frameWord K k.current m), some (new, i)⟩, { k₂ with current := new }) := by
    rw [innerTaskSwitch, Zeos.switchStack]
    simp only [hnew]
    rfl
  refine ⟨_, _, hmodel, ?_⟩
  have hsave := (load_eq_ok.1 (hs.saved k.current)).1
  have hsp : m.cpu.load (registerEspAddr K new) = .ok (stackPtrAddr K (some (new, i))) := by
    rw [hs.saved new, hnew]
  have hwords : i + 2 ≤ 1024 := htop
  have hinto : into K new (stackPtrAddr K (some (new, i))) = 4 * i := by
    unfold into stackPtrAddr
    bv_omega
  have hstack : OnStack K new (stackPtrAddr K (some (new, i))) 2 := by
    constructor
    · unfold sizeofTaskStruct
      omega
    · omega
  refine (taskSwitch_eventually hP hm hd hne hsave hsp hstack hrow).mono fun m' h' => ⟨⟨fun t => ?_, ?_, ?_, ?_⟩,
    h'.eip, h'.ebp, ?_⟩
  · by_cases ht : t = k.current
    · subst ht
      have htask : (k₂.task k.current).registerEsp = some (k.current, frameWord K k.current m) := by
        simp [k₂, Kernel.setTask]
      change m'.cpu.load (registerEspAddr K k.current) = .ok (stackPtrAddr K (k₂.task k.current).registerEsp)
      rw [htask, stackPtrAddr_frameWord (by omega) halign]
      exact h'.saved
    · have htask : k₂.task t = k.task t := Function.update_of_ne ht _ _
      change m'.cpu.load (registerEspAddr K t) = .ok (stackPtrAddr K (k₂.task t).registerEsp)
      rw [htask, ← hs.saved t]
      refine h'.load _ mem_leftAlone_registerEsp (off_of_page (K := K) ht ?_ ?_ ?_)
      · rw [into_registerEsp]
        decide
      · rw [into_behind_registerEsp]
        decide
      · rw [into_behind_registerEsp]
        decide
  · have hesp : into K new (stackPtrAddr K (some (new, i)) + 8) = 4 * i + 8 := by
      rw [← hinto]
      exact into_add (k := 8) (by omega)
    change into K new (m'.cpu.reg .esp) ≤ 4096
    rw [h'.esp, hesp]
    omega
  · rw [h'.msr]
    exact Function.update_self _ _ _
  · exact h'.esp0
  · rw [h'.esp]
    unfold stackPtrAddr
    bv_omega

/-! ### Runs -/

/-- The contexts of the tasks that are in a call of `task_switch`. -/
abbrev Contexts := Slot → Option Context

/-- Every task but the current one is as it was when it gave the CPU away. -/
structure Waiting (P : Program) (K : KernelSymbols) (B : Set Long) (σ : Contexts) (cur : Slot) (m : Core) : Prop where
  parked : ∀ s x, s ≠ cur → σ s = some x → Parked P K s x m.cpu
  back : ∀ s x, σ s = some x → x.eip ∈ B
  mapped : ∀ s, m.cpu.readable (registerEspAddr K s) = true

/-- The task that has the CPU does anything, but writes neither to the stack nor to the saved pointer of one that
waits. It may take a task struct that is free for a new task, which then is in no call of `task_switch`. -/
structure Works (K : KernelSymbols) (σ σ' : Contexts) (cur : Slot) (m m' : Core) : Prop where
  contexts : ∀ s x, σ' s = some x → σ s = some x
  saved : ∀ s x, s ≠ cur → σ' s = some x → m'.cpu.load (registerEspAddr K s) = m.cpu.load (registerEspAddr K s)
  stack : ∀ s x, s ≠ cur → σ' s = some x → ∀ a, OnStack K s a 1 → m'.cpu.load a = m.cpu.load a
  mapped : ∀ s, m'.cpu.readable (registerEspAddr K s) = true

/-- The task is in a call of `task_switch`, or it is new and has something to go on with on its stack. -/
def Ready (K : KernelSymbols) (B : Set Long) (σ : Contexts) (s : Slot) (m : Core) : Prop :=
  (∃ x, σ s = some x) ∨ ∃ sp fp back, back ∈ B ∧ m.cpu.load (registerEspAddr K s) = .ok sp ∧ OnStack K s sp 2 ∧
    m.cpu.Holds sp [fp, back]

/-- Tasks that switch to each other, from any state in which those wait that do not have the CPU. -/
inductive Run (P : Program) (K : KernelSymbols) (d : ℕ) (B : Set Long) : Contexts → Slot → Core → Prop
  | start {σ : Contexts} {cur : Slot} {m : Core} : Waiting P K B σ cur m → Run P K d B σ cur m
  | work {σ σ' : Contexts} {cur : Slot} {m m' : Core} :
    Run P K d B σ cur m → Works K σ σ' cur m m' → Run P K d B σ' cur m'
  /-- From the call of `task_switch` to where its code is left. -/
  | switch {σ : Contexts} {cur new : Slot} {m m' : Core} {ret : Long} :
    Run P K d B σ cur m → Calls P K d cur new ret m → ret ∈ B → new ≠ cur → Ready K B σ new m → Stops P m m' →
    Run P K d B (Function.update σ cur (some (contextOf m ret))) new m'

/-- The code of the switch and no more: it is left at the addresses that it returns to. -/
structure SwitchOnly (P : Program) (K : KernelSymbols) (d : ℕ) (B : Set Long) : Prop extends SwitchCode P K d where
  final : ∀ m, m.eip ∈ B → P.Final m

variable {B : Set Long} {σ σ' : Contexts}

theorem Waiting.work (h : Waiting P K B σ cur m) (hw : Works K σ σ' cur m m') : Waiting P K B σ' cur m' where
  parked s x hs hx := (h.parked s x hs (hw.contexts s x hx)).congr (hw.saved s x hs hx) (hw.stack s x hs hx)
  back s x hx := h.back s x (hw.contexts s x hx)
  mapped := hw.mapped

/-- What any switch leaves of the tasks that were not in it, and of the one that gave the CPU away. -/
structure Kept (P : Program) (K : KernelSymbols) (cur : Slot) (x : Context) (m m' : Core) : Prop where
  parked : Parked P K cur x m'.cpu
  load : ∀ a ∈ leftAlone K cur (m.cpu.reg .esp), Off 1 (registerEspAddr K cur + 4) a → m'.cpu.load a = m.cpu.load a

theorem Waiting.switch (h : Waiting P K B σ cur m) {x : Context} (hx : x.eip ∈ B) (hk : Kept P K cur x m m') :
    Waiting P K B (Function.update σ cur (some x)) new m' := by
  have hpages : ∀ s, s ≠ cur → ∀ a, into K s a + 4 ≤ 4096 → m'.cpu.load a = m.cpu.load a := fun s hs a ha =>
    hk.load a (mem_leftAlone_other hs ha) (off_of_page (K := K) hs ha (by rw [into_behind_registerEsp]; decide)
      (by rw [into_behind_registerEsp]; decide))
  have hregister : ∀ s, into K s (registerEspAddr K s) + 4 ≤ 4096 := fun s => by
    rw [into_registerEsp]
    decide
  refine ⟨fun s y _ hy => ?_, fun s y hy => ?_, fun s => ?_⟩
  · by_cases hs : s = cur
    · subst hs
      rw [Function.update_self] at hy
      rw [← Option.some.inj hy]
      exact hk.parked
    · rw [Function.update_of_ne hs] at hy
      exact (h.parked s y hs hy).congr (hpages s hs _ (hregister s)) fun a ha => hpages s hs a ha.top
  · by_cases hs : s = cur
    · subst hs
      rw [Function.update_self] at hy
      rw [← Option.some.inj hy]
      exact hx
    · rw [Function.update_of_ne hs] at hy
      exact h.back s y hy
  · by_cases hs : s = cur
    · subst hs
      obtain ⟨sp, -, -, -, -, hsp, -⟩ := hk.parked
      exact (load_eq_ok.1 hsp).1
    · exact readable_of_load (hpages s hs _ (hregister s)) (h.mapped s)

/-- A switch to a task that waits. -/
theorem Waiting.resume (hP : SwitchOnly P K d B) (hd : 0 < d) (h : Waiting P K B σ cur m)
    (hm : Calls P K d cur new ret m) (hne : new ≠ cur) {y : Context} (hy : σ new = some y) :
    (∃ m', Stops P m m') ∧ ∀ m', Stops P m m' → Has y m' ∧ Kept P K cur (contextOf m ret) m m' := by
  have hev := taskSwitch_resumes hP.toSwitchCode hm hd hne (h.mapped cur) (h.parked new y hne hy)
  have hfinal : ∀ m', Has y m' ∧ Handed P K cur new (contextOf m ret) m m' → P.Final m' := fun m' hm' =>
    hP.final m' (by rw [hm'.1.eip]; exact h.back new y hy)
  refine ⟨hev.exists_stops hfinal, fun m' hstops => ?_⟩
  obtain ⟨hhas, hhanded⟩ := hev.stops hfinal hstops
  exact ⟨hhas, hhanded.parked, hhanded.load⟩

/-- A switch to any task. -/
theorem Waiting.kept (hP : SwitchOnly P K d B) (hd : 0 < d) (h : Waiting P K B σ cur m)
    (hm : Calls P K d cur new ret m) (hne : new ≠ cur) (hready : Ready K B σ new m) (hstops : Stops P m m') :
    Kept P K cur (contextOf m ret) m m' := by
  rcases hready with ⟨y, hy⟩ | ⟨sp, fp, back, hback, hsp, hstack, hrow⟩
  · exact ((h.resume hP hd hm hne hy).2 m' hstops).2
  · have hev := taskSwitch_eventually hP.toSwitchCode hm hd hne (h.mapped cur) hsp hstack hrow
    have hleft := hev.stops (fun m' hm' => hP.final m' (by rw [hm'.eip]; exact hback)) hstops
    exact ⟨hleft.parked, hleft.load⟩

theorem run_waiting (hP : SwitchOnly P K d B) (hd : 0 < d) (hrun : Run P K d B σ cur m) : Waiting P K B σ cur m := by
  induction hrun with
  | start h => exact h
  | work _ hw ih => exact ih.work hw
  | switch _ hm hret hne hready hstops ih => exact ih.switch hret (ih.kept hP hd hm hne hready hstops)

/-- **In every run of tasks that switch to each other, a task that is switched to comes out of the call of
`task_switch` that it was in**: at its return address, with the stack pointer and the registers that a C function
counts on. And it does come out. -/
theorem resumed {y : Context} (hP : SwitchOnly P K d B) (hd : 0 < d) (hrun : Run P K d B σ cur m)
    (hm : Calls P K d cur new ret m) (hne : new ≠ cur) (hy : σ new = some y) :
    (∃ m', Stops P m m') ∧ ∀ m', Stops P m m' → Has y m' := by
  obtain ⟨hex, hall⟩ := (run_waiting hP hd hrun).resume hP hd hm hne hy
  exact ⟨hex, fun m' h => (hall m' h).1⟩

/-! ### One program -/

/-- A compiled `inner_task_switch`, up to the call of `setMSR`, -/
def innerStart (c : Cpu) : Cpu :=
  let top := c.long (c.reg .esp + 4) + 4096
  let c₁ := (c.pushed (c.reg .ebp)).setReg .ebp (c.reg .esp - 4)
  (c₁.stored sampleKernel.tssEsp0 top).pushes [top, 0, 0x175, sampleKernel.msrSet]

/-- and from there up to the call of `switch_stack`. -/
def innerRest (c : Cpu) : Cpu :=
  let new := c.long (c.reg .ebp + 8)
  c.pushes [c.long (new + 24), (c.reg .esp &&& 0xFFFFF000#32) + 24, 0x11020]

def sampleSwitch : Program where
  text a := placed 0x10000 (taskSwitch sampleKernel) a <|> placed 0x16000 setMSR a <|> placed 0x17000 switchStack a
  outside m m' := m.eip = 0x11000 ∧ m' = m.go (innerStart m.cpu) 0x16000 ∨
    m.eip = 0x11010 ∧ m' = m.go (innerRest m.cpu) 0x17000
  gate _ _ := False

theorem sample_task (s : Slot) : taskAddr sampleKernel s = BitVec.ofNat 32 (0x20000 + 4096 * s.val) := by
  have hs := s.isLt
  simp only [nrTasks] at hs
  change (0x20000#32 + _) = _
  bv_omega

theorem sample_current {a : Long} (h : into sampleKernel s a < 4096) :
    a &&& 0xFFFFF000#32 = taskAddr sampleKernel s :=
  current_mask (by decide) (by decide) h

theorem innerStart_toMSR {next : Long} (h : Inner sampleKernel 8 cur new next m) :
    ToMSR sampleKernel 8 cur new m (m.go (innerStart m.cpu) 0x16000) := by
  have hdeep := h.deep
  have htop := h.top
  have hroom := h.room
  let top := m.cpu.long (m.cpu.reg .esp + 4) + 4096
  have harg : top = kernelEsp sampleKernel new := by
    have hlong : m.cpu.long (m.cpu.reg .esp + 4) = taskAddr sampleKernel new := (load_eq_ok.1 h.args.2.1).2
    change m.cpu.long (m.cpu.reg .esp + 4) + 4096 = _
    rw [hlong]
    rfl
  let c₁ := (m.cpu.pushed (m.cpu.reg .ebp)).setReg .ebp (m.cpu.reg .esp - 4)
  let c₂ := c₁.stored sampleKernel.tssEsp0 top
  have hc₂ : c₂.reg .esp = m.cpu.reg .esp - 4 := by
    change ((m.cpu.pushed (m.cpu.reg .ebp)).setReg .ebp (m.cpu.reg .esp - 4)).reg .esp = _
    rw [setReg_of_ne (by decide), pushed_esp]
  have hinto : ∀ k ≤ 24, into sampleKernel cur (m.cpu.reg .esp - BitVec.ofNat 32 k) =
      into sampleKernel cur (m.cpu.reg .esp) - k := fun k hk => into_sub (by
    unfold sizeofTaskStruct at hdeep
    omega)
  have hin : into sampleKernel cur (m.cpu.reg .esp - 4) = into sampleKernel cur (m.cpu.reg .esp) - 4 :=
    hinto 4 (by decide)
  have hesp : (innerStart m.cpu).reg .esp = m.cpu.reg .esp - BitVec.ofNat 32 20 := by
    have hpushes : (innerStart m.cpu).reg .esp = c₂.reg .esp - 16 :=
      pushes_esp c₂ [top, 0, 0x175, sampleKernel.msrSet]
    rw [hpushes, hc₂]
    bv_omega
  have hread : ∀ a, c₂.readable a = m.cpu.readable a := fun _ => rfl
  have hroom₂ : c₂.Room 4 (c₂.reg .esp) := by
    rw [hc₂]
    exact (hroom.mono (m := 5) (by decide)).2.congr hread
  -- what is stored is on the stack below the frame, and in the segment
  have hload₂ : ∀ a, Off 4 (m.cpu.reg .esp - 4) a → (innerStart m.cpu).load a = c₂.load a := fun a ha =>
    @load_pushes c₂ [top, 0, 0x175, sampleKernel.msrSet] a (by simp) (by rw [hc₂]; exact ha)
  have hload₁ : ∀ s a, into sampleKernel s a + 4 ≤ 4096 → c₂.load a = c₁.load a := fun s a ha => by
    have hs := s.isLt
    have hoff : Off 1 (sampleKernel.tssEsp0 + 4) a := by
      unfold into at ha
      rw [sample_task] at ha
      simp only [nrTasks] at hs
      change 0x1F004#32 + 4 = a ∨ 8 ≤ (0x1F004#32 + 4 - a).toNat
      bv_omega
    exact load_stored hoff top
  unfold sizeofTaskStruct at hdeep
  refine ⟨rfl, ?_, ?_, ?_, ?_, ?_, ?_, ?_, fun a ha => ?_⟩
  · have hvalue : (innerStart m.cpu).value (.reg .ebp) = c₂.value (.reg .ebp) := value_pushes (by decide) c₂ _
    exact hvalue.trans (setReg_self (m.cpu.pushed (m.cpu.reg .ebp)) .ebp (m.cpu.reg .esp - 4))
  · rw [go_cpu, hload₂ _ (.inl rfl), hload₁ cur _ (by omega)]
    exact load_eq_ok.2 ⟨(hroom.mono (m := 1) (by decide)).1, long_stored _ _⟩
  · have hrow := @holds_pushes c₂ [top, 0, 0x175, sampleKernel.msrSet] [] (by simp) hroom₂ trivial
    rw [List.append_nil] at hrow
    rw [← harg]
    exact hrow
  · rw [go_cpu, hesp, hinto 20 (by decide)]
    unfold sizeofTaskStruct
    omega
  · rw [go_cpu, hesp, hinto 20 (by decide), hin]
    omega
  · have hbelow : (innerStart m.cpu).reg .esp = m.cpu.reg .esp - BitVec.ofNat 32 (4 * 5) := hesp
    rw [go_cpu, hbelow]
    have hreads : ∀ a, (innerStart m.cpu).readable a = m.cpu.readable a := fun a =>
      (readable_pushes c₂ _ a).trans (hread a)
    exact Cpu.Room.congr hreads (Cpu.Room.sub (hroom.mono (m := 5 + 8) (by decide)))
  · have hoff : Off 4 (m.cpu.reg .esp - 4) sampleKernel.tssEsp0 := by
      have hs := cur.isLt
      unfold into at hin hdeep htop
      rw [sample_task] at hin hdeep htop
      simp only [nrTasks] at hs
      change m.cpu.reg .esp - 4 = 0x1F004#32 ∨ 20 ≤ (m.cpu.reg .esp - 4 - 0x1F004#32).toNat
      bv_omega
    rw [go_cpu, hload₂ _ hoff, ← harg]
    exact load_eq_ok.2 ⟨h.tss, long_stored _ _⟩
  · obtain ⟨s, hpage, -⟩ := id ha
    have hoff : Off 5 (m.cpu.reg .esp) a := leftAlone_off ha (by unfold sizeofTaskStruct; omega) le_rfl (by omega)
    have hfirst : c₁.load a = m.cpu.load a := @load_pushes m.cpu [m.cpu.reg .ebp] a (by simp) (hoff.mono (by simp))
    rw [go_cpu, hload₂ _ (hoff.succ (by decide)).2, hload₁ s a hpage, hfirst]

theorem innerRest_toSwitchStack {frame : Long} (h : MsrDone sampleKernel 8 cur new frame sp m) :
    ToSwitchStack sampleKernel cur frame sp m (m.go (innerRest m.cpu) 0x17000) := by
  have hdeep := h.deep
  have hbelow := h.below
  have htop := h.top
  unfold sizeofTaskStruct at hdeep
  have hnew : m.cpu.long (m.cpu.reg .ebp + 8) = taskAddr sampleKernel new := by
    rw [h.ebp]
    exact (load_eq_ok.1 h.param).2
  have hsp : m.cpu.long (taskAddr sampleKernel new + 24) = sp := (load_eq_ok.1 h.saved).2
  have hcur : (m.cpu.reg .esp &&& 0xFFFFF000#32) + 24 = registerEspAddr sampleKernel cur := by
    rw [sample_current (s := cur) (by omega)]
    rfl
  have hrest : innerRest m.cpu = m.cpu.pushes [sp, registerEspAddr sampleKernel cur, 0x11020] := by
    rw [innerRest, hnew, hsp, hcur]
  have hinto : into sampleKernel cur (m.cpu.reg .esp - BitVec.ofNat 32 12) =
      into sampleKernel cur (m.cpu.reg .esp) - 12 := into_sub (by omega)
  have hesp : (innerRest m.cpu).reg .esp = m.cpu.reg .esp - BitVec.ofNat 32 12 := by
    rw [hrest]
    exact pushes_esp _ _
  have hload : ∀ a, Off 3 (m.cpu.reg .esp) a → (innerRest m.cpu).load a = m.cpu.load a := fun a ha => by
    rw [hrest]
    exact load_pushes (by simp) ha
  refine ⟨rfl, ?_, ?_, ?_, ?_, rfl, ?_, fun a ha => ?_⟩
  · have hvalue : (innerRest m.cpu).value (.reg .ebp) = m.cpu.value (.reg .ebp) := value_pushes (by decide) _ _
    exact hvalue.trans h.ebp
  · have hrow := @holds_pushes m.cpu [sp, registerEspAddr sampleKernel cur, 0x11020] [] (by simp)
      (h.room.mono (by simp)) trivial
    rw [List.append_nil] at hrow
    refine ⟨0x11020, ?_⟩
    rw [go_cpu, hrest]
    exact hrow
  · rw [go_cpu, hesp, hinto]
    unfold sizeofTaskStruct
    omega
  · rw [go_cpu, hesp, hinto]
    omega
  · have hoff : Off 3 (m.cpu.reg .esp) sampleKernel.tssEsp0 := by
      have hs := cur.isLt
      unfold into at hdeep hbelow htop
      rw [sample_task] at hdeep hbelow htop
      simp only [nrTasks] at hs
      change m.cpu.reg .esp = 0x1F004#32 ∨ 16 ≤ (m.cpu.reg .esp - 0x1F004#32).toNat
      bv_omega
    exact hload _ hoff
  · exact hload a (leftAlone_off ha (by unfold sizeofTaskStruct; omega) (by omega) (by omega))

theorem sample_switchOnly : SwitchOnly sampleSwitch sampleKernel 8 {0x10500} where
  setMSR := ⟨_, rfl, _, rfl, _, rfl, _, rfl, _, rfl, _, rfl, _, rfl, _, rfl, trivial⟩
  switchStack := ⟨_, rfl, _, rfl, _, rfl, _, rfl, _, rfl, trivial⟩
  inner_text := rfl
  inner_total _ _ _ m h := ⟨_, .inl ⟨h.eip, rfl⟩⟩
  inner cur new next m m' h hm' := by
    rcases hm' with ⟨-, rfl⟩ | ⟨heip, -⟩
    · exact ⟨innerStart_toMSR h, rfl⟩
    · exact absurd (h.eip.symm.trans heip) (by decide)
  msrSet_text := rfl
  msrSet_total _ _ _ _ m h := ⟨_, .inr ⟨h.eip, rfl⟩⟩
  msrSet cur new frame sp m m' h hm' := by
    rcases hm' with ⟨heip, -⟩ | ⟨-, rfl⟩
    · exact absurd (h.eip.symm.trans heip) (by decide)
    · exact innerRest_toSwitchStack h
  tss s b h4 htop := by
    have hs := s.isLt
    unfold into at h4 htop
    rw [sample_task] at h4 htop
    simp only [nrTasks] at hs
    change b = 0x1F004#32 ∨ 8 ≤ (b - 0x1F004#32).toNat
    bv_omega
  final m hm m' hstep := by
    have heip : m.eip = 0x10500 := hm
    cases hstep with
    | inst ht _ =>
      rw [heip] at ht
      cases ht
    | sysenter ht _ =>
      rw [heip] at ht
      cases ht
    | outside _ hout =>
      rcases hout with ⟨h, -⟩ | ⟨h, -⟩ <;> exact absurd (heip.symm.trans h) (by decide)

def sampleContext : Context where
  ebx := 1
  esi := 3
  edi := 2
  ebp := 4
  esp := 0x20F20
  eip := 0x10500

/-- Task 0 is in a call of `task_switch`, and task 1 makes one. -/
def sampleWords : List (Long × Long) :=
  [(0x1F004, 0x22000), (0x20018, 0x20F00), (0x20F00, 0x20F18), (0x20F04, 0x10007), (0x20F08, 0x21000), (0x20F0C, 1),
    (0x20F10, 2), (0x20F14, 3), (0x20F18, 4), (0x20F1C, 0x10500), (0x21F00, 0x10500), (0x21F04, 0x20000)]

def sampleCall : Core where
  cpu :=
    { reg
        | .esp => 0x21F00
        | _ => 7
      seg _ := kernelDs
      flags := ⟨false, false, false, false, 0⟩
      mem a := ((sampleWords.lookup (a &&& 0xFFFFFFFC#32)).getD 0).extractLsb' (8 * (a &&& 3#32).toNat) 8
      mapped _ := true }
  eip := 0x10000
  msr _ := 0#32 ++ 0x22000#32
  ports := []
  calls := []

theorem sample_calls : Calls sampleSwitch sampleKernel 8 1 0 0x10500 sampleCall where
  code := ⟨_, rfl, _, rfl, _, rfl, _, rfl, _, rfl, _, rfl, _, rfl, _, rfl, _, rfl, _, rfl, _, rfl, _, rfl, _, rfl,
    trivial⟩
  args := holds_of_get (by decide)
  deep := by decide
  top := by decide
  room := room_of_readable (fun _ => rfl) _ _
  tss := rfl

theorem sample_parked : Parked sampleSwitch sampleKernel 0 sampleContext sampleCall.cpu :=
  ⟨0x20F00, 0x20F18, 0x10007, 0x21000, ⟨_, rfl, _, rfl, _, rfl, _, rfl, _, rfl, _, rfl, trivial⟩, by decide,
    ⟨by decide, by decide⟩, holds_of_get (by decide), rfl⟩

theorem sample_mapped {m m' : Core} (h : Step.Star sampleSwitch m m') : m'.cpu.mapped = m.cpu.mapped := by
  induction h with
  | refl => rfl
  | tail _ hstep ih =>
    refine Eq.trans ?_ ih
    cases hstep with
    | inst _ hr => exact inst_mapped hr
    | sysenter _ hg => exact hg.elim
    | outside _ hout =>
      rcases hout with ⟨-, rfl⟩ | ⟨-, rfl⟩ <;> rfl

/-- Task 0 calls `task_switch` for task 1, right where it came out of its own call. -/
def sampleReturn (m : Core) : Core := m.go (m.cpu.pushes [taskAddr sampleKernel 1, 0x10500]) 0x10000

/-- Task 1 switches to task 0, and task 0 back to task 1. -/
theorem resumed_sample : ∃ m', Stops sampleSwitch sampleCall m' ∧ Has sampleContext m' ∧
    (∃ m'', Stops sampleSwitch (sampleReturn m') m'') ∧
    ∀ m'', Stops sampleSwitch (sampleReturn m') m'' → Has (contextOf sampleCall 0x10500) m'' := by
  let σ : Contexts := fun s => if s = 0 then some sampleContext else none
  have hwaiting : Waiting sampleSwitch sampleKernel {0x10500} σ 1 sampleCall := by
    refine ⟨fun s x _ hx => ?_, fun s x hx => ?_, fun _ => rfl⟩
    · by_cases hs : s = 0
      · subst hs
        obtain rfl : sampleContext = x := Option.some.inj hx
        exact sample_parked
      · exact absurd ((if_neg hs).symm.trans hx) nofun
    · by_cases hs : s = 0
      · subst hs
        obtain rfl : sampleContext = x := Option.some.inj hx
        exact rfl
      · exact absurd ((if_neg hs).symm.trans hx) nofun
  obtain ⟨⟨m', hm'⟩, hall⟩ := resumed (σ := σ) sample_switchOnly (by decide) (.start hwaiting) sample_calls (by decide) rfl
  have hhas := hall m' hm'
  have hmapped : ∀ a, (sampleReturn m').cpu.readable a = true := fun a => by
    have h : m'.cpu.mapped = fun _ => true := sample_mapped hm'.1
    exact (readable_pushes m'.cpu _ a).trans (by simp [Cpu.readable, h])
  have hesp' : m'.cpu.reg .esp = 0x20F20 := hhas.esp
  have hesp : (sampleReturn m').cpu.reg .esp = 0x20F18 := by
    have h : (sampleReturn m').cpu.reg .esp = m'.cpu.reg .esp - 8 := pushes_esp m'.cpu [taskAddr sampleKernel 1, 0x10500]
    rw [h, hesp']
    rfl
  have hpages : ∀ s, s ≠ 0 → ∀ a, into sampleKernel s a + 4 ≤ 4096 →
      (sampleReturn m').cpu.load a = m'.cpu.load a := fun s hs a ha =>
    @load_pushes m'.cpu [taskAddr sampleKernel 1, 0x10500] a (by simp) (by
      rw [hesp']
      exact off_of_page (K := sampleKernel) hs ha (by decide) (by decide))
  have hready : Ready sampleKernel {0x10500} σ 0 sampleCall := .inl ⟨sampleContext, rfl⟩
  have hrun := (Run.start hwaiting).switch sample_calls rfl (by decide) hready hm'
  have hworks : Works sampleKernel (Function.update σ 1 (some (contextOf sampleCall 0x10500)))
      (Function.update σ 1 (some (contextOf sampleCall 0x10500))) 0 m' (sampleReturn m') :=
    ⟨fun _ _ h => h, fun s _ hs _ => hpages s hs _ (by rw [into_registerEsp]; decide),
      fun s _ hs _ a ha => hpages s hs a ha.top, fun _ => hmapped _⟩
  have hcalls : Calls sampleSwitch sampleKernel 8 0 1 0x10500 (sampleReturn m') := by
    refine ⟨sample_calls.code, ?_, ?_, ?_, room_of_readable hmapped _ _, hmapped _⟩
    · have hroom : m'.cpu.Room 2 (m'.cpu.reg .esp) := room_of_readable
        (fun a => (readable_pushes m'.cpu [taskAddr sampleKernel 1, 0x10500] a).symm.trans (hmapped a)) _ _
      exact @holds_pushes m'.cpu [taskAddr sampleKernel 1, 0x10500] [] (by simp) hroom trivial
    · rw [hesp]
      decide
    · rw [hesp]
      decide
  obtain ⟨hex, hback⟩ := resumed sample_switchOnly (by decide) (hrun.work hworks) hcalls (by decide)
    (Function.update_self _ _ _)
  exact ⟨m', hm', hhas, hex, hback⟩

/-- The two tasks in the model. -/
def sampleTasks : Kernel :=
  { reset ⟨⟨31, by decide, by decide⟩, fun _ => 0, fun _ _ => 0⟩ with
    current := 1
    task := fun s => if s = 0 then { registerEsp := some (0, 960) } else {} }

theorem sample_stores : Stores sampleKernel sampleTasks sampleCall where
  saved := by decide
  current := by decide
  msr := by decide
  esp0 := load_eq_ok.2 ⟨rfl, by decide⟩

/-- Task 1 switches to task 0, in the code and in the model. -/
theorem taskSwitch_refines_sample : ∃ sw k',
    innerTaskSwitch sampleTasks (frameWord sampleKernel 1 sampleCall) 0 = .ok (sw, k') ∧
      Eventually sampleSwitch (fun m' => Stores sampleKernel k' m' ∧ m'.eip = 0x10007 ∧ m'.cpu.reg .ebp = 0x20F18 ∧
        m'.cpu.reg .esp = stackPtrAddr sampleKernel (some (0, 962))) sampleCall :=
  taskSwitch_refines sample_switchOnly.toSwitchCode (by decide) sample_calls (by decide) (by decide) sample_stores rfl
    (by decide) (by decide) (holds_of_get (by decide))

end Asm

end Zeos
