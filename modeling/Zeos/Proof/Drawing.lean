import Zeos.Draw
import Zeos.Proof.Console
import Zeos.Proof.Heap

/-!
# What a frame depends on

`board_to_screen` writes every cell of rows 1 to 24. Of row 0 it writes the texts of the header only, and
`alloc` does not clear the page that it gives: the rest of the row is as the last owner of the page frame
left it.

* `boardToScreen_cells`: a frame is stores to cells that depend on nothing (`drawn_iff`).
* `depends_on_game_iff`: **two frames of one game are the same exactly where their pages agree on the cells
  between and behind the texts of row 0**.
* `frame_shown`: the stores as steps of the running task, and `sys_dump_screen` behind them.
* `last_owner_shown`: **what a page frame held before `alloc` gave it away gets to the screen**.
-/

namespace Zeos

open GridSweep ForLoop Execution

variable {m m' : Mat} {ws : List (ℤ × BitVec 16)} {i : ℤ} {d : Display} {ticks : Word} {p p' : Mat}

/-! ### Stores -/

theorem puts_off (hi : i ∉ ws.map Prod.fst) (m : Mat) : m.puts ws i = m i := by
  induction ws generalizing m with
  | nil => rfl
  | cons w ws ih =>
    rw [List.map_cons, List.mem_cons, not_or] at hi
    exact (ih hi.2 _).trans (Function.update_of_ne hi.1 _ _)

/-- A cell that is stored to does not show what was there. -/
theorem puts_same (hi : i ∈ ws.map Prod.fst) (m m' : Mat) : m.puts ws i = m'.puts ws i := by
  induction ws generalizing m m' with
  | nil => cases hi
  | cons w ws ih =>
    show (m.set w.1 w.2).puts ws i = (m'.set w.1 w.2).puts ws i
    by_cases h : i ∈ ws.map Prod.fst
    · exact ih h _ _
    · -- the last store to it is `w`
      obtain rfl := (List.mem_cons.1 hi).resolve_right h
      rw [puts_off h, puts_off h, Mat.set, Mat.set, Function.update_self, Function.update_self]

theorem puts_append (m : Mat) (ws vs : List (ℤ × BitVec 16)) : (m.puts ws).puts vs = m.puts (ws ++ vs) :=
  List.foldl_append.symm

/-! ### A frame as stores -/

theorem puts_map {γ : Type*} (m : Mat) (l : List γ) (f : γ → ℤ) (g : γ → BitVec 16) :
    m.puts (l.map fun x => (f x, g x)) = l.foldl (fun m x => m.set (f x) (g x)) m := List.foldl_map

/-- The variables as the frame shows them. -/
def Display.counted (d : Display) (ticks : Word) : Display :=
  { d.computeFps ticks with pfd := (d.computeFps ticks).ring.pendingFrames }

/-- The texts of row 0. -/
def Display.header (d : Display) (ticks : Word) : List (ℤ × BitVec 16) :=
  d.position ++ (d.counted ticks).fpsHeader 0 ++ (d.counted ticks).pfdHeader 0 7 ++
    (d.counted ticks).headHeader 0 7 7 ++ (d.counted ticks).tailHeader 0 7 15

/-- All the stores of `board_to_screen`, in their order. -/
def Display.stores (d : Display) (ticks : Word) : List (ℤ × BitVec 16) :=
  d.header ticks ++ (cells (upTo 1 (numRows - 1)) (upTo 0 (numColumns - 1))).map fun p =>
    ((numColumns : ℤ) * p.1 + p.2, ((d.counted ticks).game.board p.1 p.2).short)

theorem boardToScreen_cells (d : Display) (ticks : Word) (m : Mat) :
    (d.boardToScreen ticks m).2 = m.puts (d.stores ticks) := by
  unfold Display.stores Display.header
  rw [← puts_append, ← puts_append, ← puts_append, ← puts_append, ← puts_append, puts_map]
  exact forCells_eq _ _

/-- The cells of row 0 between the texts of the header, and behind them. -/
def Undrawn (i : ℤ) : Prop := i = 4 ∨ i = 9 ∨ i = 16 ∨ i = 23 ∨ i = 31 ∨ 39 ≤ i ∧ i < numColumns

instance (i : ℤ) : Decidable (Undrawn i) := inferInstanceAs (Decidable (_ ∨ _))

theorem header_cells : i ∈ (d.header ticks).map Prod.fst ↔ 0 ≤ i ∧ i < numColumns ∧ ¬ Undrawn i := by
  simp only [Display.header, Display.position, Display.fpsHeader, Display.pfdHeader, Display.headHeader,
    Display.tailHeader, List.map_append, List.map_cons, List.map_nil, List.mem_append, List.mem_cons,
    List.not_mem_nil, or_false, Undrawn, numColumns]
  omega

theorem board_cells {f : ℤ × ℤ → BitVec 16} :
    i ∈ ((cells (upTo 1 (numRows - 1)) (upTo 0 (numColumns - 1))).map fun p =>
      ((numColumns : ℤ) * p.1 + p.2, f p)).map Prod.fst ↔ numColumns ≤ i ∧ i < numRows * numColumns := by
  simp only [List.map_map, List.mem_map, mem_cells, mem_upTo, Function.comp, numColumns, numRows]
  constructor
  · rintro ⟨⟨r, c⟩, h, rfl⟩
    omega
  · intro h
    exact ⟨(i / 80, i % 80), by omega, by omega⟩

/-- The cells that a frame is drawn on. -/
theorem drawn_iff (d : Display) (ticks : Word) :
    i ∈ (d.stores ticks).map Prod.fst ↔ (0 ≤ i ∧ i < numRows * numColumns) ∧ ¬ Undrawn i := by
  unfold Display.stores
  rw [List.map_append, List.mem_append, header_cells, board_cells]
  simp only [Undrawn, numColumns, numRows]
  omega

/-! ### Two frames -/

theorem boardToScreen_off (hi : i ∉ (d.stores ticks).map Prod.fst) (m : Mat) : (d.boardToScreen ticks m).2 i = m i := by
  rw [boardToScreen_cells, puts_off hi]

/-- A cell that the header leaves out is as it was. -/
theorem undrawn_kept (hi : Undrawn i) (m : Mat) : (d.boardToScreen ticks m).2 i = m i :=
  boardToScreen_off (fun hm => ((drawn_iff d ticks).1 hm).2 hi) m

/-- From the contents `p` and `p'` of its page `board_to_screen` makes the same frame, and it writes no cell
outside of it. -/
structure DependsOnGame (d : Display) (ticks : Word) (p p' : Mat) : Prop where
  same : ∀ i : ℤ, 0 ≤ i → i < numRows * numColumns → (d.boardToScreen ticks p).2 i = (d.boardToScreen ticks p').2 i
  inside : ∀ i : ℤ, ¬ (0 ≤ i ∧ i < numRows * numColumns) →
    (d.boardToScreen ticks p).2 i = p i ∧ (d.boardToScreen ticks p').2 i = p' i

/-- **What a frame depends on.** For every game and every reading of the clock, the frames drawn on two
pages are the same if and only if the pages agree on the cells of row 0 that the header leaves out. -/
theorem depends_on_game_iff : DependsOnGame d ticks p p' ↔ ∀ i, Undrawn i → p i = p' i := by
  constructor
  · intro h i hi
    have hrow : 0 ≤ i ∧ i < (numRows : ℤ) * numColumns := by
      simp only [Undrawn, numColumns, numRows] at hi ⊢
      omega
    have hsame := h.same i hrow.1 hrow.2
    rwa [undrawn_kept hi, undrawn_kept hi] at hsame
  · intro h
    refine ⟨fun i h0 h1 => ?_, fun i hi => ?_⟩
    · by_cases hi : Undrawn i
      · rw [undrawn_kept hi, undrawn_kept hi, h i hi]
      · rw [boardToScreen_cells, boardToScreen_cells]
        exact puts_same ((drawn_iff d ticks).2 ⟨⟨h0, h1⟩, hi⟩) p p'
    · have hnot : i ∉ (d.stores ticks).map Prod.fst := fun hm => hi ((drawn_iff d ticks).1 hm).1
      exact ⟨boardToScreen_off hnot p, boardToScreen_off hnot p'⟩

/-- The board of a new game, on a page of zeros and on one that is full of the letter `A`. -/
theorem depends_on_page : ¬ DependsOnGame { game := Game.initBoard {} } 0 (fun _ => 0) (fun _ => 0x0741) := by
  intro h
  have hsame := h.same 4 (by decide) (by decide)
  rw [undrawn_kept (.inl rfl), undrawn_kept (.inl rfl)] at hsame
  exact absurd hsame (by decide)

/-! ### Frames in memory -/

variable {M : Machine} {tr : KTrace} {k k₁ : Kernel} {f x : ℕ} {n : ℕ} {w : ℤ × BitVec 16} {j : ℤ}

/-- The shorts that the page frame `f` holds. -/
def Mm.shorts (m : Mm) (f : ℕ) : Mat := fun i => m.ram f (2 * i.toNat + 1) ++ m.ram f (2 * i.toNat)

/-- The store of a short to the page at `address`, the low byte first. -/
def shortStores (address : Word) (w : ℤ × BitVec 16) : List Event :=
  [.store (address + BitVec.ofNat 32 (2 * w.1.toNat)) (w.2.setWidth 8),
    .store (address + BitVec.ofNat 32 (2 * w.1.toNat + 1)) (w.2.extractLsb' 8 8)]

/-- What it makes of the frame `f` of the page. -/
def Kernel.putShort (f : ℕ) (k : Kernel) (w : ℤ × BitVec 16) : Kernel :=
  k.setMm ((k.mm.setRam f (2 * w.1.toNat) (w.2.setWidth 8)).setRam f (2 * w.1.toNat + 1) (w.2.extractLsb' 8 8))

namespace UserPage

variable {page : ℕ}

theorem loadShort (h : UserPage k page f) (hn : n < numRows * numColumns) :
    Zeos.loadShort k.mm k.cr3 (BitVec.ofNat 32 (page * pageSize)) n = .ok (k.mm.shorts f n) := by
  have hlt : 2 * n + 1 < pageSize := by
    simp at hn ⊢
    omega
  exact bind_ok.2 ⟨_, h.load (Nat.lt_of_succ_lt hlt), bind_ok.2 ⟨_, h.load hlt, rfl⟩⟩

theorem putShort (h : UserPage k page f) (w : ℤ × BitVec 16) : UserPage (k.putShort f w) page f :=
  (h.setRam f _ _).setRam f _ _

theorem putShorts (h : UserPage k page f) (ws : List (ℤ × BitVec 16)) :
    UserPage (ws.foldl (Kernel.putShort f) k) page f := by
  induction ws generalizing k with
  | nil => exact h
  | cons w ws ih => exact ih (h.putShort w)

/-- **Stores of shorts** run as they should: two steps each. -/
theorem draw (h : UserPage k page f) (hu : k.current ≠ k.idleTask)
    (hws : ∀ i ∈ ws.map Prod.fst, 0 ≤ i ∧ i < numRows * numColumns) :
    ∃ tr, Path (kernelSystem M) k tr (ws.foldl (Kernel.putShort f) k) ∧
      tr.reverse.map Transition.event = ws.flatMap (shortStores (BitVec.ofNat 32 (page * pageSize))) := by
  induction ws generalizing k with
  | nil => exact ⟨[], .refl, rfl⟩
  | cons w ws ih =>
    obtain ⟨hw, hws⟩ := List.forall_mem_cons.1 hws
    -- a cell of the screen is inside the page
    have hlt : 2 * w.1.toNat + 1 < pageSize := by
      simp at hw ⊢
      omega
    obtain ⟨tr, hp, he⟩ := ih (h.putShort w) hu hws
    have h1 := h.store hu (Nat.lt_of_succ_lt hlt) (w.2.setWidth 8)
    have h2 := (h.setRam f (2 * w.1.toNat) (w.2.setWidth 8)).store hu hlt (w.2.extractLsb' 8 8)
    refine ⟨_, ((Path.step .refl h1).step h2).trans hp, ?_⟩
    rw [List.flatMap_cons, ← he, List.reverse_append, List.map_append]
    rfl

end UserPage

/-! What the stores leave. -/

theorem putShort_ram : (k.putShort f w).mm.ram f x =
    if x = 2 * w.1.toNat + 1 then w.2.extractLsb' 8 8
    else if x = 2 * w.1.toNat then w.2.setWidth 8 else k.mm.ram f x := by
  simp only [Kernel.putShort, Kernel.setMm, Mm.setRam, true_and]

theorem short_bytes (v : BitVec 16) : v.extractLsb' 8 8 ++ v.setWidth 8 = v := by
  have h : v.extractLsb' 8 8 ++ v.extractLsb' 0 8 = v.extractLsb' 0 16 :=
    BitVec.extractLsb'_append_extractLsb'_eq_extractLsb' rfl
  rw [BitVec.setWidth_eq_extractLsb' (by decide), h, BitVec.extractLsb'_eq_self]

theorem putShort_shorts (hw : 0 ≤ w.1) (hj : 0 ≤ j) :
    (k.putShort f w).mm.shorts f j = (k.mm.shorts f).set w.1 w.2 j := by
  by_cases h : j = w.1
  · subst h
    rw [Mat.set, Function.update_self, Mm.shorts, putShort_ram, putShort_ram, if_pos rfl,
      if_neg (Nat.ne_of_lt (Nat.lt_succ_self _)), if_pos rfl, short_bytes]
  · -- both bytes of another short are elsewhere
    have hne : j.toNat ≠ w.1.toNat := by omega
    rw [Mat.set, Function.update_of_ne h, Mm.shorts, putShort_ram, putShort_ram, if_neg (by omega), if_neg (by omega),
      if_neg (by omega), if_neg (by omega), Mm.shorts]

theorem puts_cell (hi : m i = m' i) (ws : List (ℤ × BitVec 16)) : m.puts ws i = m'.puts ws i := by
  by_cases h : i ∈ ws.map Prod.fst
  · exact puts_same h m m'
  · rw [puts_off h, puts_off h, hi]

theorem putShorts_shorts (hws : ∀ i ∈ ws.map Prod.fst, 0 ≤ i) (hj : 0 ≤ j) :
    (ws.foldl (Kernel.putShort f) k).mm.shorts f j = (k.mm.shorts f).puts ws j := by
  induction ws generalizing k with
  | nil => rfl
  | cons w ws ih =>
    obtain ⟨hw, hws⟩ := List.forall_mem_cons.1 hws
    exact (ih hws).trans (puts_cell (putShort_shorts hw hj) ws)

theorem putShorts_console (ws : List (ℤ × BitVec 16)) : (ws.foldl (Kernel.putShort f) k).console = k.console := by
  induction ws generalizing k with
  | nil => rfl
  | cons w ws ih => exact ih

/-- `sys_dump_screen` of the page. -/
theorem UserPage.dump {page : ℕ} (h : UserPage k page f) (hr : KRun M tr k) (hp : heapStart ≤ page) :
    ∃ k', sysDumpScreen k (BitVec.ofNat 32 (page * pageSize)) = .ok (0, k') ∧
      ∀ n < numRows * numColumns, k'.console.screen n = shown (k.console.screen n) (k.mm.shorts f n) := by
  obtain ⟨a, hW⟩ := run_wf hr
  obtain ⟨hA, hm⟩ := h.screen hW hp
  obtain ⟨k', hd⟩ := (dump_screen_mapped hr _).2.1 hA hm
  refine ⟨k', hd, fun n hn => ?_⟩
  obtain ⟨-, -, hcells⟩ := dump_screen_cells hd
  obtain ⟨cc, hcc, hs⟩ := hcells (n / numColumns) (by simp at hn ⊢; omega) (n % numColumns) (Nat.mod_lt _ (by decide))
  rw [Nat.div_add_mod'] at hcc hs
  cases hcc.symm.trans (h.loadShort hn)
  exact hs

/-- **A frame on the screen.** In every reachable state the running task can draw the frame of any game on
a page of its heap, and `sys_dump_screen` shows it. -/
theorem frame_shown {page : ℕ} (hr : KRun M tr k) (hu : k.current ≠ k.idleTask) (h : UserPage k page f)
    (hp : heapStart ≤ page) (d : Display) (ticks : Word) : ∃ tr' k₁ k₂, Path (kernelSystem M) k tr' k₁ ∧
      tr'.reverse.map Transition.event = (d.stores ticks).flatMap (shortStores (BitVec.ofNat 32 (page * pageSize))) ∧
      sysDumpScreen k₁ (BitVec.ofNat 32 (page * pageSize)) = .ok (0, k₂) ∧
      ∀ n < numRows * numColumns, k₂.console.screen n =
        shown (k.console.screen n) ((d.boardToScreen ticks (k.mm.shorts f)).2 n) := by
  have hcells : ∀ i ∈ (d.stores ticks).map Prod.fst, 0 ≤ i ∧ i < (numRows : ℤ) * numColumns := fun i hi =>
    ((drawn_iff d ticks).1 hi).1
  obtain ⟨tr', hpath, he⟩ := h.draw hu hcells
  obtain ⟨k₂, hd, hshow⟩ := (h.putShorts (d.stores ticks)).dump (hr.path hpath) hp
  refine ⟨tr', _, k₂, hpath, he, hd, fun n hn => ?_⟩
  rw [hshow n hn, putShorts_console, putShorts_shorts (fun i hi => (hcells i hi).1) (Int.natCast_nonneg n),
    boardToScreen_cells]

/-! ### The page that `alloc` gives -/

theorem alloc_ram {u : Word} {b : ℕ} {o : Out} (h : Step k (.sysenter .alloc u b) o k₁) : k₁.mm.ram = k.mm.ram := by
  obtain ⟨k₂, h1, h⟩ := bind_ok.1 h.2
  obtain ⟨eip, -, h1⟩ := bind_ok.1 h1
  cases h1
  cases h
  obtain ⟨v, m, h, hm⟩ := allocK_cases (k.setTask k.current { k.task k.current with userEsp := u, userEip := eip })
  show (allocK _).2.mm.ram = _
  rw [h]
  cases hm <;> rfl

theorem alloc_userPage {u v : Word} {b : ℕ} {o : Out} (hr : KRun M tr k)
    (hs : Step k (.sysenter .alloc u b) o k₁) (hret : o.ret = some v) (hv : 0 ≤ v.toInt) :
    ∃ page f, v = BitVec.ofNat 32 (page * pageSize) ∧ heapStart ≤ page ∧ k.mm.physMem f = frameFree ∧
      k₁.current ≠ k₁.idleTask ∧ UserPage k₁ page f := by
  obtain ⟨a, hW⟩ := run_wf hr
  rcases alloc_step_ret hW hs with ⟨page, f, h, hF, hW₁⟩ | ⟨h, -⟩
  · have hu := hs.1 rfl
    rw [hW.current, hW.idle] at hu
    refine ⟨page, f, Option.some.inj (hret.symm.trans h), hF.heap, ?_, ?_, mapped_userPage hW₁ hF⟩
    · rw [hW.phys]
      exact hF.free
    · rw [hW₁.current, hW₁.idle]
      exact hu
  · cases hret.symm.trans h
    exact absurd hv (by decide)

/-- **What the last owner of a frame left there is shown.** After every successful `alloc` the task can
draw the frame of any game there and dump it, and in the cells that the header leaves out the screen has
what the page frame, free then, held before the call. -/
theorem last_owner_shown {u v : Word} {b : ℕ} {o : Out} (hr : KRun M tr k)
    (hs : Step k (.sysenter .alloc u b) o k₁) (hret : o.ret = some v) (hv : 0 ≤ v.toInt) (d : Display) (ticks : Word) :
    ∃ f tr' k₂ k₃, k.mm.physMem f = frameFree ∧ Path (kernelSystem M) k₁ tr' k₂ ∧
      tr'.reverse.map Transition.event = (d.stores ticks).flatMap (shortStores v) ∧
      sysDumpScreen k₂ v = .ok (0, k₃) ∧
      ∀ n : ℕ, Undrawn n → k₃.console.screen n = shown (k.console.screen n) (k.mm.shorts f n) := by
  obtain ⟨page, f, rfl, hp, hfree, hu, hU⟩ := alloc_userPage hr hs hret hv
  obtain ⟨tr', k₂, k₃, hpath, he, hd, hshow⟩ := frame_shown (hr.step hs) hu hU hp d ticks
  refine ⟨f, tr', k₂, k₃, hfree, hpath, he, hd, fun n hn => ?_⟩
  have hlt : n < numRows * numColumns := by
    simp only [Undrawn, numColumns, numRows] at hn ⊢
    omega
  -- neither the call nor the drawing has touched the cell
  rw [hshow n hlt, undrawn_kept hn, alloc_console hs, Mm.shorts, alloc_ram hs]
  rfl

end Zeos
