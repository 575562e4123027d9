import Zeos.Lib.Terminal
import Zeos.Proof.Access
import Zeos.Proof.Keyboard
import Zeos.Proof.Lookup

/-!
# The console

`printc` and `printcc` keep the cursor on the screen as long as they start there: to them the screen is a
ring of cells (`Terminal.Tape`), and so it is to everything that prints through them.

* `printc_tape`, `printcc_tape`: one character.
* `Console.Op.run_tape`: one call.
* `console_cursor`: **the cursor and the stores after any sequence of calls**.
* `dumpLoop_screen`, `dump_faithful_iff`: **`sys_dump_screen` shows the buffer** exactly where
  `printcc` does not take a cell for a newline, or need not store it.
-/

namespace Zeos

open Terminal ForLoop

/-- The cursor is on the screen. -/
structure Console.InScreen (s : Console) : Prop where
  x_lt : s.x.toNat < numColumns
  y_lt : s.y.toNat < numRows

/-- The screen as a ring of cells. -/
def Console.tape (s : Console) : Tape (BitVec 16) := ⟨s.y.toNat * numColumns + s.x.toNat, s.screen⟩

/-- What `printc` makes of a character, -/
def charSign (c : Byte) : Sign (BitVec 16) := if c = newline then .feed else .put (c.setWidth 16 ||| 0x0200)

/-- and `printcc` of a cell. -/
def cellSign (cc : BitVec 16) : Sign (BitVec 16) := if cc.setWidth 8 = newline then .feed else .put cc

variable {s : Console} {c mx my : Byte} {cc : BitVec 16}

/-! ### One character -/

theorem nextRow_y (s : Console) : (s.nextRow.y).toNat = (s.y.toNat + 1) % numRows := by
  simp only [Console.nextRow, BitVec.toNat_ofNat]
  exact Nat.mod_eq_of_lt (lt_trans (Nat.mod_lt _ (by decide)) (by decide))

theorem nextRow_x (s : Console) : (s.nextRow.x).toNat = 0 := rfl

theorem nextRow_inScreen (s : Console) : s.nextRow.InScreen where
  x_lt := by rw [nextRow_x]; decide
  y_lt := by rw [nextRow_y]; exact Nat.mod_lt _ (by decide)

theorem nextRow_tape (h : s.InScreen) : s.nextRow.tape = s.tape.emit numRows numColumns .feed := by
  simp only [Console.tape, Tape.emit, nextRow_y, nextRow_x, Nat.add_zero, feed_place h.x_lt]
  rfl

theorem putCell_tape (h : s.InScreen) (cc : BitVec 16) :
    (s.putCell cc).InScreen ∧ (s.putCell cc).tape = s.tape.emit numRows numColumns (.put cc) := by
  have hx := h.x_lt
  have hinc : (s.x + 1).toNat = s.x.toNat + 1 := by
    rw [BitVec.toNat_add]
    exact Nat.mod_eq_of_lt (by simp at hx ⊢; omega)
  simp only [Console.putCell, hinc]
  split
  · -- the last cell of a row
    rename_i hend
    refine ⟨nextRow_inScreen _, ?_⟩
    simp only [Console.tape, Tape.emit, nextRow_y, nextRow_x, Nat.add_zero, put_place hx h.y_lt,
      if_neg (Nat.not_lt.2 hend)]
    rfl
  · rename_i hend
    refine ⟨⟨by rw [hinc]; omega, h.y_lt⟩, ?_⟩
    simp only [Console.tape, Tape.emit, hinc, put_place hx h.y_lt, if_pos (Nat.not_le.1 hend)]

theorem printc_tape (h : s.InScreen) (c : Byte) :
    (s.printc c).InScreen ∧ (s.printc c).tape = s.tape.emit numRows numColumns (charSign c) := by
  unfold Console.printc charSign
  split
  · exact ⟨nextRow_inScreen s, nextRow_tape h⟩
  · exact putCell_tape h _

theorem printcc_tape (h : s.InScreen) (cc : BitVec 16) :
    (s.printcc cc).InScreen ∧ (s.printcc cc).tape = s.tape.emit numRows numColumns (cellSign cc) := by
  unfold Console.printcc cellSign
  split
  · exact ⟨nextRow_inScreen s, nextRow_tape h⟩
  · exact putCell_tape h _

theorem printc_foldl_tape (h : s.InScreen) (cs : List Byte) : (cs.foldl Console.printc s).InScreen ∧
    (cs.foldl Console.printc s).tape = (cs.map charSign).foldl (Tape.emit numRows numColumns) s.tape := by
  induction cs generalizing s with
  | nil => exact ⟨h, rfl⟩
  | cons c cs ih =>
    obtain ⟨h', ht⟩ := printc_tape h c
    rw [List.foldl_cons, List.map_cons, List.foldl_cons, ← ht]
    exact ih h'

/-! ### Stores to video memory -/

/-- The store that `printc` makes of a character, -/
def Console.charStores (s : Console) (c : Byte) : List (ℕ × BitVec 16) :=
  if c = newline then [] else [(s.y.toNat * numColumns + s.x.toNat, c.setWidth 16 ||| 0x0200)]

/-- and `printcc` of a cell. -/
def Console.cellStores (s : Console) (cc : BitVec 16) : List (ℕ × BitVec 16) :=
  if cc.setWidth 8 = newline then [] else [(s.y.toNat * numColumns + s.x.toNat, cc)]

/-- The stores of characters printed one after the other. -/
def Console.stringStores (s : Console) : List Byte → List (ℕ × BitVec 16)
  | [] => []
  | c :: cs => s.charStores c ++ (s.printc c).stringStores cs

/-- Video memory after the stores `ps`. -/
def stored (screen : ℕ → BitVec 16) (ps : List (ℕ × BitVec 16)) : ℕ → BitVec 16 :=
  ps.foldl (fun screen p => Function.update screen p.1 p.2) screen

theorem putCell_screen (s : Console) (cc : BitVec 16) :
    (s.putCell cc).screen = Function.update s.screen (s.y.toNat * numColumns + s.x.toNat) cc := by
  simp only [Console.putCell]
  split <;> rfl

theorem printc_screen (s : Console) (c : Byte) : (s.printc c).screen = stored s.screen (s.charStores c) := by
  unfold Console.printc Console.charStores
  split
  · rfl
  · exact putCell_screen s _

theorem printcc_screen (s : Console) (cc : BitVec 16) :
    (s.printcc cc).screen = stored s.screen (s.cellStores cc) := by
  unfold Console.printcc Console.cellStores
  split
  · rfl
  · exact putCell_screen s _

theorem printc_foldl_screen (s : Console) (cs : List Byte) :
    (cs.foldl Console.printc s).screen = stored s.screen (s.stringStores cs) := by
  induction cs generalizing s with
  | nil => rfl
  | cons c cs ih =>
    rw [List.foldl_cons, ih, printc_screen, Console.stringStores, stored, stored, stored, List.foldl_append]

theorem charStores_lt (h : s.InScreen) : ∀ p ∈ s.charStores c, p.1 < numRows * numColumns := by
  intro p hp
  unfold Console.charStores at hp
  split at hp
  · simp at hp
  · rw [List.mem_singleton.1 hp]
    exact place_lt h.x_lt h.y_lt

theorem cellStores_lt (h : s.InScreen) : ∀ p ∈ s.cellStores cc, p.1 < numRows * numColumns := by
  intro p hp
  unfold Console.cellStores at hp
  split at hp
  · simp at hp
  · rw [List.mem_singleton.1 hp]
    exact place_lt h.x_lt h.y_lt

theorem stringStores_lt (h : s.InScreen) (cs : List Byte) :
    ∀ p ∈ s.stringStores cs, p.1 < numRows * numColumns := by
  induction cs generalizing s with
  | nil => intro p hp; simp [Console.stringStores] at hp
  | cons c cs ih =>
    intro p hp
    rcases List.mem_append.1 hp with hp | hp
    · exact charStores_lt h p hp
    · exact ih (printc_tape h c).1 p hp

/-! ### Calls -/

/-- A call of a printing function, with its arguments. -/
inductive Console.Op
  | printc (c : Byte)
  | printcc (cc : BitVec 16)
  | printk (string : List Byte)
  | sysWriteConsole (buffer : List Byte)
  | printcXy (mx my c : Byte)
  | printccXy (mx my : Byte) (cc : BitVec 16)

namespace Console.Op

def run (s : Console) : Op → Console
  | .printc c => s.printc c
  | .printcc cc => s.printcc cc
  | .printk string => s.printk string
  | .sysWriteConsole buffer => Zeos.sysWriteConsole s buffer
  | .printcXy mx my c => s.printcXy mx my c
  | .printccXy mx my cc => s.printccXy mx my cc

/-- The stores to video memory, index and cell, in their order. -/
def stores (s : Console) : Op → List (ℕ × BitVec 16)
  | .printc c => s.charStores c
  | .printcc cc => s.cellStores cc
  | .printk string => s.stringStores string
  | .sysWriteConsole buffer => s.stringStores buffer
  | .printcXy mx my c => { s with x := mx, y := my }.charStores c
  | .printccXy mx my cc => { s with x := mx, y := my }.cellStores cc

/-- `printc_xy` and `printcc_xy`. -/
def AtXy : Op → Prop
  | .printcXy _ _ _ | .printccXy _ _ _ => True
  | _ => False

/-- `printc_xy` and `printcc_xy` are called with a column and a row of the screen. -/
def OnScreen : Op → Prop
  | .printcXy mx my _ | .printccXy mx my _ => mx.toNat < numColumns ∧ my.toNat < numRows
  | _ => True

/-- What the call is to do to the ring of cells. -/
def effect (t : Tape (BitVec 16)) : Op → Tape (BitVec 16)
  | .printc c => t.emit numRows numColumns (charSign c)
  | .printcc cc => t.emit numRows numColumns (cellSign cc)
  | .printk string => (string.map charSign).foldl (Tape.emit numRows numColumns) t
  | .sysWriteConsole buffer => (buffer.map charSign).foldl (Tape.emit numRows numColumns) t
  | .printcXy mx my c => t.emitAt numRows numColumns (my.toNat * numColumns + mx.toNat) (charSign c)
  | .printccXy mx my cc => t.emitAt numRows numColumns (my.toNat * numColumns + mx.toNat) (cellSign cc)

variable {op : Op}

/-- The list of stores is that of the call. -/
theorem run_screen (s : Console) (op : Op) : (op.run s).screen = stored s.screen (op.stores s) := by
  cases op with
  | printc c => exact printc_screen s c
  | printcc cc => exact printcc_screen s cc
  | printk string => exact printc_foldl_screen s string
  | sysWriteConsole buffer => exact printc_foldl_screen s buffer
  | printcXy mx my c => exact printc_screen _ c
  | printccXy mx my cc => exact printcc_screen _ cc

theorem run_atXy (h : op.AtXy) (s : Console) : (op.run s).x = s.x ∧ (op.run s).y = s.y := by
  cases op with
  | printcXy => exact ⟨rfl, rfl⟩
  | printccXy => exact ⟨rfl, rfl⟩
  | _ => exact h.elim

/-- **A call on a cursor on the screen.** -/
theorem run_tape (h : s.InScreen) (ho : op.OnScreen) :
    (op.run s).InScreen ∧ (op.run s).tape = op.effect s.tape := by
  cases op with
  | printc c => exact printc_tape h c
  | printcc cc => exact printcc_tape h cc
  | printk string => exact printc_foldl_tape h string
  | sysWriteConsole buffer => exact printc_foldl_tape h buffer
  | printcXy mx my c =>
    have ht := (printc_tape (s := { s with x := mx, y := my }) ⟨ho.1, ho.2⟩ c).2
    exact ⟨⟨h.x_lt, h.y_lt⟩, congrArg (Tape.mk s.tape.place) (congrArg Tape.cell ht)⟩
  | printccXy mx my cc =>
    have ht := (printcc_tape (s := { s with x := mx, y := my }) ⟨ho.1, ho.2⟩ cc).2
    exact ⟨⟨h.x_lt, h.y_lt⟩, congrArg (Tape.mk s.tape.place) (congrArg Tape.cell ht)⟩

theorem stores_lt (h : s.InScreen) (ho : op.OnScreen) : ∀ p ∈ op.stores s, p.1 < numRows * numColumns := by
  cases op with
  | printc c => exact charStores_lt h
  | printcc cc => exact cellStores_lt h
  | printk string => exact stringStores_lt h string
  | sysWriteConsole buffer => exact stringStores_lt h buffer
  | printcXy mx my c => exact charStores_lt (s := { s with x := mx, y := my }) ⟨ho.1, ho.2⟩
  | printccXy mx my cc => exact cellStores_lt (s := { s with x := mx, y := my }) ⟨ho.1, ho.2⟩

/-- A sequence of calls keeps the cursor on the screen. -/
theorem runs_inScreen (h : s.InScreen) {ops : List Op} (ho : ∀ op ∈ ops, op.OnScreen) :
    (ops.foldl run s).InScreen := by
  induction ops generalizing s with
  | nil => exact h
  | cons op ops ih =>
    exact ih (run_tape h (ho op List.mem_cons_self)).1 fun op' h' => ho op' (List.mem_cons_of_mem _ h')

end Console.Op

theorem first_inScreen (screen : ℕ → BitVec 16) : Console.InScreen { screen := screen } where
  x_lt := show (0 : Byte).toNat < numColumns by decide
  y_lt := show (19 : Byte).toNat < numRows by decide

/-- **The console cursor.** After any sequence of calls from the first cursor, with `printc_xy` and
`printcc_xy` inside the screen, and at every next call: the cursor is on the screen; the stores to video
memory are inside it; `printc_xy` and `printcc_xy` leave the cursor where it was; and the call does to the
ring of cells what its characters do one after the other. -/
theorem console_cursor (screen : ℕ → BitVec 16) (ops : List Console.Op) (h : ∀ op ∈ ops, op.OnScreen)
    (op : Console.Op) (ho : op.OnScreen) :
    let s := ops.foldl Console.Op.run { screen := screen }
    s.InScreen ∧ (op.run s).InScreen ∧
    (op.run s).screen = stored s.screen (op.stores s) ∧ (∀ p ∈ op.stores s, p.1 < numRows * numColumns) ∧
    (op.AtXy → (op.run s).x = s.x ∧ (op.run s).y = s.y) ∧
    (op.run s).tape = op.effect s.tape := by
  intro s
  have hs : s.InScreen := Console.Op.runs_inScreen (first_inScreen screen) h
  obtain ⟨hr, ht⟩ := Console.Op.run_tape hs ho
  exact ⟨hs, hr, Console.Op.run_screen s op, Console.Op.stores_lt hs ho, fun hx => Console.Op.run_atXy hx s, ht⟩

/-- The last cell of the screen, a newline, and a character elsewhere. -/
theorem console_cursor_last :
    let s := [Console.Op.printcXy 79 24 10, .sysWriteConsole [65, 10]].foldl Console.Op.run { screen := fun _ => 0 }
    s.InScreen ∧ ((Console.Op.printccXy 79 24 0x0741).run s).screen =
      stored s.screen ((Console.Op.printccXy 79 24 0x0741).stores s) ∧
    (Console.Op.printccXy 79 24 0x0741).stores s = [(1999, 0x0741)] := by
  have hops : ∀ op ∈ [Console.Op.printcXy 79 24 10, .sysWriteConsole [65, 10]], op.OnScreen := by
    intro op hop
    rcases List.mem_cons.1 hop with rfl | hop
    · exact ⟨by decide, by decide⟩
    · rw [List.mem_singleton.1 hop]
      trivial
  obtain ⟨h1, -, h2, -⟩ := console_cursor (fun _ => 0) _ hops (.printccXy 79 24 0x0741) ⟨by decide, by decide⟩
  exact ⟨h1, h2, rfl⟩

/-! ### `sys_dump_screen` -/

variable {m : Mm} {dir : Slot} {address : Word} {k k' : Kernel} {i n : ℕ}

/-- What `printcc` makes of a cell that comes over `old`. -/
def shown (old cc : BitVec 16) : BitVec 16 := if cc.setWidth 8 = newline then old else cc

theorem printccXy_screen {j : ℕ} (hi : i < numRows) (hj : j < numColumns) (cc : BitVec 16) :
    (s.printccXy (BitVec.ofNat 8 j) (BitVec.ofNat 8 i) cc).screen =
      Function.update s.screen (i * numColumns + j) (shown (s.screen (i * numColumns + j)) cc) := by
  have hi' : (BitVec.ofNat 8 i).toNat = i := by simp at hi ⊢; omega
  have hj' : (BitVec.ofNat 8 j).toNat = j := by simp at hj ⊢; omega
  have h := printcc_screen { s with x := BitVec.ofNat 8 j, y := BitVec.ofNat 8 i } cc
  rw [Console.cellStores, hi', hj'] at h
  refine Eq.trans h ?_
  unfold shown
  split
  · exact (Function.update_eq_self _ _).symm
  · rfl

/-- The console `s'` after the first `c` cells of the buffer have been dumped on `s`. -/
structure Dumped (m : Mm) (dir : Slot) (address : Word) (s : Console) (c : ℕ) (s' : Console) : Prop where
  x_eq : s'.x = s.x
  y_eq : s'.y = s.y
  cells : ∀ n < c, ∀ cc, loadShort m dir address n = .ok cc → s'.screen n = shown (s.screen n) cc
  rest : ∀ n, c ≤ n → s'.screen n = s.screen n

theorem Dumped.cell {s' : Console} {j : ℕ} (h : Dumped m dir address s (i * numColumns + j) s') (hi : i < numRows)
    (hj : j < numColumns) (hcc : loadShort m dir address (i * numColumns + j) = .ok cc) :
    Dumped m dir address s (i * numColumns + j + 1) (s'.printccXy (BitVec.ofNat 8 j) (BitVec.ofNat 8 i) cc) where
  x_eq := h.x_eq
  y_eq := h.y_eq
  cells n hn cc' hcc' := by
    rw [printccXy_screen hi hj]
    by_cases hlast : n = i * numColumns + j
    · subst hlast
      cases hcc.symm.trans hcc'
      rw [Function.update_self, h.rest _ le_rfl]
    · rw [Function.update_of_ne hlast]
      exact h.cells n (by omega) cc' hcc'
  rest n hn := by
    rw [printccXy_screen hi hj, Function.update_of_ne (by omega)]
    exact h.rest n (by omega)

/-- **The loops of `sys_dump_screen`** go through the cells of the screen in the order of the buffer. -/
theorem dumpLoop_screen {r : Console × ℕ} (h : dumpLoop m dir address s = .ok r) :
    Dumped m dir address s (numRows * numColumns) r.1 := by
  have hall : r.2 = (0 + numRows) * numColumns ∧ Dumped m dir address s r.2 r.1 := by
    rw [dumpLoop_eq] at h
    refine forRangeM_inv (I := fun i sk => sk.2 = i * numColumns ∧ Dumped m dir address s sk.2 sk.1)
      ⟨by simp, rfl, rfl, fun n hn => by simp at hn, fun n _ => rfl⟩ (fun i sk sk' _ hi hI hrow => ?_) h
    have hrow' : sk'.2 = i * numColumns + (0 + numColumns) ∧ Dumped m dir address s sk'.2 sk'.1 := by
      refine forRangeM_inv (I := fun j sk => sk.2 = i * numColumns + j ∧ Dumped m dir address s sk.2 sk.1)
        hI (fun j sk sk' _ hj hI hcell => ?_) hrow
      obtain ⟨cc, hcc, hret⟩ := bind_ok.1 hcell
      obtain ⟨hc, hD⟩ := hI
      cases hret
      rw [hc] at hcc hD
      refine ⟨by rw [hc, Nat.add_assoc], ?_⟩
      show Dumped m dir address s (sk.2 + 1) _
      rw [hc]
      exact hD.cell (by omega) (by omega) hcc
    exact ⟨by rw [hrow'.1, Nat.zero_add, Nat.succ_mul], hrow'.2⟩
  rw [hall.1, Nat.zero_add] at hall
  exact hall.2

/-- **What a successful `sys_dump_screen` shows.** -/
theorem dump_screen_cells (h : sysDumpScreen k address = .ok (0, k')) :
    k'.console.x = k.console.x ∧ k'.console.y = k.console.y ∧
    ∀ i < numRows, ∀ j < numColumns, ∃ cc, loadShort k.mm k.cr3 address (i * numColumns + j) = .ok cc ∧
      k'.console.screen (i * numColumns + j) = shown (k.console.screen (i * numColumns + j)) cc := by
  have hA : DumpAccepts k address := by
    by_contra hA
    rw [sysDumpScreen_refuses hA] at h
    have h0 : -eacces = (0 : Word) := congrArg Prod.fst (Except.ok.inj h)
    exact absurd h0 (by decide)
  rw [sysDumpScreen_accepts hA] at h
  cases hd : dumpLoop k.mm k.cr3 address k.console with
  | error e =>
    rw [hd] at h
    cases h
  | ok r =>
    rw [hd] at h
    cases h
    have hD := dumpLoop_screen hd
    have hread := dumpLoop_reads hd
    refine ⟨hD.x_eq, hD.y_eq, fun i hi j hj => ?_⟩
    have hlt := place_lt hj hi
    have hread' : CellsRead k.mm k.cr3 address (i * numColumns + j + 1) := fun n hn => hread n (by omega)
    obtain ⟨cc, hcc⟩ := (CellsRead.succ_iff.1 hread').2
    exact ⟨cc, hcc, hD.cells _ hlt cc hcc⟩

/-- Video memory shows the buffer, and the cursor is where it was. -/
def Faithful (k : Kernel) (address : Word) (k' : Kernel) : Prop :=
  (∀ i < numRows, ∀ j < numColumns,
    loadShort k.mm k.cr3 address (i * numColumns + j) = .ok (k'.console.screen (i * numColumns + j))) ∧
  k'.console.x = k.console.x ∧ k'.console.y = k.console.y

/-- **`sys_dump_screen` is faithful** exactly when each cell of the buffer with the character `'\n'` is on
the screen already. -/
theorem dump_faithful_iff (h : sysDumpScreen k address = .ok (0, k')) :
    Faithful k address k' ↔ ∀ i < numRows, ∀ j < numColumns, ∀ cc,
      loadShort k.mm k.cr3 address (i * numColumns + j) = .ok cc → cc.setWidth 8 = newline →
        k.console.screen (i * numColumns + j) = cc := by
  obtain ⟨hx, hy, hcells⟩ := dump_screen_cells h
  constructor
  · rintro ⟨hF, -⟩ i hi j hj cc hcc hnl
    obtain ⟨cc', hcc', hs⟩ := hcells i hi j hj
    cases hcc.symm.trans hcc'
    rw [shown, if_pos hnl] at hs
    rw [← hs]
    exact (Except.ok.inj (hcc.symm.trans (hF i hi j hj))).symm
  · intro hnl
    refine ⟨fun i hi j hj => ?_, hx, hy⟩
    obtain ⟨cc, hcc, hs⟩ := hcells i hi j hj
    rw [hcc]
    refine congrArg Except.ok (Eq.trans ?_ hs.symm)
    unfold shown
    split
    · rename_i hc
      exact (hnl i hi j hj cc hcc hc).symm
    · rfl

/-- A screen just allocated. -/
theorem dump_faithful_iff_alloc : ∃ t k k', KRun aMachine [t] k ∧ t.event = .sysenter .alloc someStack 1000 ∧
    sysDumpScreen k 0x11C000 = .ok (0, k') ∧
    (Faithful k 0x11C000 k' ↔ ∀ i < numRows, ∀ j < numColumns, ∀ cc,
      loadShort k.mm k.cr3 0x11C000 (i * numColumns + j) = .ok cc → cc.setWidth 8 = newline →
        k.console.screen (i * numColumns + j) = cc) := by
  obtain ⟨t, k, f, hr, he, hW, hF, -⟩ := alloc_run aMachine 1000
  obtain ⟨hA, hm⟩ := heap_screen hW hF
  obtain ⟨k', h⟩ := (dump_screen_mapped hr 0x11C000).2.1 hA hm
  exact ⟨t, k, k', hr, he, h, dump_faithful_iff h⟩

/-- An allocation prints nothing. -/
theorem alloc_console {u : Word} {b : ℕ} {o : Out} (h : Step k (.sysenter .alloc u b) o k') :
    k'.console = k.console := by
  obtain ⟨k₁, h1, h⟩ := bind_ok.1 h.2
  obtain ⟨eip, -, h1⟩ := bind_ok.1 h1
  cases h1
  cases h
  obtain ⟨v, m, h, -⟩ := allocK_cases (k.setTask k.current { k.task k.current with userEsp := u, userEip := eip })
  show (allocK _).2.console = _
  rw [h]
  rfl

/-- **A cell with the character `'\n'` is not shown**: task 1 stores one into a screen it has allocated. -/
theorem dump_misses_newline : ∃ t₁ t₂ k k', KRun aMachine [t₂, t₁] k ∧ t₁.event = .sysenter .alloc someStack 1000 ∧
    t₂.event = .store 0x11C000 newline ∧ sysDumpScreen k 0x11C000 = .ok (0, k') ∧ ¬ Faithful k 0x11C000 k' := by
  obtain ⟨t, k, f, hr, he, hW, hF, hR⟩ := alloc_run aMachine 1000
  have hconsole : k.console = {} := by
    cases hr with
    | step hr₀ hs =>
      cases hr₀ with
      | init h₀ =>
        cases he
        rw [alloc_console hs]
        exact (boot_devices h₀).2
  -- the store goes to the frame of the page
  have hU := mapped_userPage hW hF
  have huser : k.current ≠ k.idleTask := by
    rw [hW.current, hW.idle]
    exact hR.user
  set k₁ := k.setMm (k.mm.setRam f 0 newline)
  have hs₁ : Step k (.store 0x11C000 newline) {} k₁ := hU.store (x := 0) huser (by decide) newline
  have hr₁ := hr.step hs₁
  have hW₁ : WF k₁ ((bootState aMachine).mapped heapStart f) := hW.other (.setMm ⟨rfl, rfl, rfl⟩) rfl
  obtain ⟨hA₁, hm₁⟩ := heap_screen hW₁ hF
  obtain ⟨k', h⟩ := (dump_screen_mapped hr₁ 0x11C000).2.1 hA₁ hm₁
  refine ⟨_, _, k₁, k', hr₁, he, rfl, h, fun hFaith => ?_⟩
  -- the first cell of the buffer has the character, that of the screen is empty
  have hload : k₁.mm.loadByte k₁.cr3 0x11C000 = .ok newline :=
    ((hU.setRam f 0 newline).load (x := 0) (by decide)).trans (congrArg Except.ok (if_pos ⟨rfl, rfl⟩))
  obtain ⟨-, -, hcells⟩ := dump_screen_cells h
  obtain ⟨cc, hcc, hs⟩ := hcells 0 (by decide) 0 (by decide)
  obtain ⟨lo, hlo, hcc'⟩ := bind_ok.1 hcc
  obtain ⟨hi, -, hcc'⟩ := bind_ok.1 hcc'
  cases hload.symm.trans hlo
  have hlow : cc.setWidth 8 = newline := by
    cases hcc'
    rw [BitVec.setWidth_append]
    rfl
  have hcell : k'.console.screen 0 = 0 := by
    rw [shown, if_pos hlow] at hs
    refine hs.trans ?_
    show k.console.screen 0 = 0
    rw [hconsole]
  have hF0 := hFaith.1 0 (by decide) 0 (by decide)
  cases hcc.symm.trans hF0
  rw [show 0 * numColumns + 0 = 0 from rfl, hcell] at hlow
  exact absurd hlow (by decide)

end Zeos
