import Zeos.Proof.Progress

/-!
# What the kernel makes of user addresses

`access_ok` compares page numbers of the two ends of a block, `sys_dump_screen` checks the page of
the first byte only.

* `access_exact`: **when a block that `access_ok` lets through is one of user bytes**: unless it
  wraps around within its page, ends on the page behind the data pages, or is written into the code.
* `UserPage.load`, `UserPage.store`: on a page that the running task may write, its loads and stores are
  those of the page frame.
* `dump_screen_mapped`: `sys_dump_screen` comes back with 0 exactly when every byte that it reads is
  mapped.
-/

namespace Zeos

open Execution ForLoop

/-! ### `access_ok` -/

/-- The page behind the data pages. -/
@[simp] abbrev userEnd : ℕ := userFirstPage + numPagCode + numPagData

/-- The block does not wrap around, and its bytes are the user's: for writing, data. -/
def UserBlock (type addr size : Word) : Prop :=
  addr.toNat + size.toNat < 2 ^ 32 ∧ ∀ i < size.toNat,
    userFirstPage ≤ (addr.toNat + i) / pageSize ∧ (addr.toNat + i) / pageSize < userEnd ∧
      (type = verifyWrite → userFirstPage + numPagCode ≤ (addr.toNat + i) / pageSize)

/-- A block so long that it ends in front of its start, but on the same page. -/
def WrapsInPage (addr size : Word) : Prop :=
  userFirstPage ≤ addr.toNat / pageSize ∧ addr.toNat / pageSize ≤ userEnd ∧
    2 ^ 32 ≤ addr.toNat % pageSize + size.toNat

/-- A block with its last byte on the page behind the data pages. -/
def EndsBehind (addr size : Word) : Prop :=
  0 < size.toNat ∧ userFirstPage ≤ addr.toNat / pageSize ∧ userEnd * pageSize < addr.toNat + size.toNat ∧
    addr.toNat + size.toNat < (userEnd + 1) * pageSize

/-- A block to be written that starts in the code. -/
def WritesCode (type addr size : Word) : Prop :=
  type = verifyWrite ∧ 0 < size.toNat ∧ userFirstPage ≤ addr.toNat / pageSize ∧
    addr.toNat / pageSize < userFirstPage + numPagCode ∧ addr.toNat + size.toNat < (userEnd + 1) * pageSize

variable {type addr size : Word}

/-- The test of `access_ok`: the one for writing asks for more than the one behind it. -/
theorem accessOk_iff : accessOk type addr size = true ↔
    addr.toNat / pageSize ≤ (addr.toNat + size.toNat) % 2 ^ 32 / pageSize ∧
      userFirstPage ≤ addr.toNat / pageSize ∧ (addr.toNat + size.toNat) % 2 ^ 32 / pageSize ≤ userEnd := by
  simp only [accessOk, BitVec.toNat_add]
  split
  · rename_i h
    exact iff_of_false Bool.false_ne_true fun h' => by omega
  · rename_i h
    split
    · rename_i hw
      exact iff_of_true rfl ⟨by omega, by omega, hw.2.2⟩
    · split
      · rename_i hr
        exact iff_of_true rfl ⟨by omega, hr⟩
      · rename_i hr
        exact iff_of_false Bool.false_ne_true fun h' => hr h'.2

theorem WrapsInPage.accessOk (h : WrapsInPage addr size) : accessOk type addr size = true := by
  have ha := addr.isLt
  have hn := size.isLt
  unfold WrapsInPage at h
  rw [accessOk_iff]
  simp only [pageSize, userEnd, userFirstPage, lUserStart, numPagCode, numPagData] at h ⊢
  omega

theorem EndsBehind.accessOk (h : EndsBehind addr size) : accessOk type addr size = true := by
  unfold EndsBehind at h
  rw [accessOk_iff]
  simp only [pageSize, userEnd, userFirstPage, lUserStart, numPagCode, numPagData] at h ⊢
  omega

theorem WritesCode.accessOk (h : WritesCode type addr size) : accessOk type addr size = true := by
  obtain ⟨-, h⟩ := h
  rw [accessOk_iff]
  simp only [pageSize, userEnd, userFirstPage, lUserStart, numPagCode, numPagData] at h ⊢
  omega

/-- **What `access_ok` lets through, exactly.** -/
theorem access_exact (type addr size : Word) : (accessOk type addr size = true → UserBlock type addr size) ↔
    ¬ (WrapsInPage addr size ∨ EndsBehind addr size ∨ WritesCode type addr size) := by
  have ha := addr.isLt
  have hn := size.isLt
  constructor
  · rintro h (hw | he | hc)
    · obtain ⟨h1, -⟩ := h hw.accessOk
      have h2 := hw.2.2
      have h3 := Nat.mod_le addr.toNat pageSize
      omega
    · -- its last byte
      obtain ⟨h0, h1, h2, h3⟩ := he
      have := (h (EndsBehind.accessOk ⟨h0, h1, h2, h3⟩)).2 (size.toNat - 1) (by omega)
      simp only [pageSize, userEnd, userFirstPage, lUserStart, numPagCode, numPagData] at *
      omega
    · -- its first byte
      obtain ⟨h0, h1, h2, h3, h4⟩ := hc
      have := ((h (WritesCode.accessOk ⟨h0, h1, h2, h3, h4⟩)).2 0 h1).2.2 h0
      rw [Nat.add_zero] at this
      omega
  · intro h hok
    rw [not_or, not_or] at h
    obtain ⟨hw, he, hc⟩ := h
    rw [accessOk_iff] at hok
    unfold WrapsInPage at hw
    unfold EndsBehind at he
    unfold WritesCode at hc
    -- not wrapping inside its first page it does not wrap at all
    have hsum : addr.toNat + size.toNat < 2 ^ 32 := by
      simp only [pageSize, userEnd, userFirstPage, lUserStart, numPagCode, numPagData] at *
      omega
    rw [Nat.mod_eq_of_lt hsum] at hok
    refine ⟨hsum, fun i hi => ⟨?_, ?_, fun ht => ?_⟩⟩
    · simp only [pageSize, userFirstPage, lUserStart] at *
      omega
    · simp only [pageSize, userEnd, userFirstPage, lUserStart, numPagCode, numPagData] at *
      omega
    · simp only [ht, true_and, pageSize, userEnd, userFirstPage, lUserStart, numPagCode, numPagData] at *
      omega

/-- `get_stats` into a code page. -/
theorem access_code : accessOk verifyWrite 0x100000 28 = true ∧ ¬ UserBlock verifyWrite 0x100000 28 := by
  refine ⟨by decide, fun h => ?_⟩
  have := (h.2 0 (by decide)).2.2 rfl
  revert this
  decide

/-! ### A page of the running task -/

variable {M : Machine} {tr : KTrace} {k k' : Kernel} {m : Mm} {dir : Slot} {address : Word} {s : Console} {i : ℕ}

/-- The page `page` of the running task is in the frame `f`, and user code may write it. -/
structure UserPage (k : Kernel) (page f : ℕ) : Prop where
  bound : page < totalPages
  entry : k.mm.pagusrTable (k.mm.dirPages k.cr3) page = userPte f
  even : IsEven f

theorem mapped_userPage {a : AState} {page f : ℕ} (hW : WF k (a.mapped page f)) (hF : Fresh a page f) :
    UserPage k page f where
  bound := hF.bound
  entry := by
    rw [hW.dirs, hW.cr3, hW.table]
    exact a.mapped_page page f
  even := hF.even

/-- The page of an address in it, and where it is there. -/
theorem page_add {page x : ℕ} (hp : page < totalPages) (hx : x < pageSize) :
    (BitVec.ofNat 32 (page * pageSize) + BitVec.ofNat 32 x).toNat / pageSize = page ∧
    (BitVec.ofNat 32 (page * pageSize) + BitVec.ofNat 32 x).toNat % pageSize = x := by
  simp at hp hx
  simp
  omega

namespace UserPage

variable {page f x : ℕ}

theorem translate (h : UserPage k page f) (hx : x < pageSize) :
    k.mm.translate k.cr3 (BitVec.ofNat 32 (page * pageSize) + BitVec.ofNat 32 x) = .ok (f, x) := by
  obtain ⟨hpage, hoff⟩ := page_add h.bound hx
  simp only [Mm.translate]
  rw [hpage, hoff, h.entry, if_pos ⟨h.bound, rfl⟩, userPte_pbase h.even.2.1]

theorem load (h : UserPage k page f) (hx : x < pageSize) :
    k.mm.loadByte k.cr3 (BitVec.ofNat 32 (page * pageSize) + BitVec.ofNat 32 x) = .ok (k.mm.ram f x) :=
  bind_ok.2 ⟨_, h.translate hx, rfl⟩

theorem store (h : UserPage k page f) (hu : k.current ≠ k.idleTask) (hx : x < pageSize) (b : Byte) :
    Step k (.store (BitVec.ofNat 32 (page * pageSize) + BitVec.ofNat 32 x) b) {} (k.setMm (k.mm.setRam f x b)) := by
  have hst : k.mm.userStore k.cr3 (BitVec.ofNat 32 (page * pageSize) + BitVec.ofNat 32 x) b =
      .ok (k.mm.setRam f x b) := by
    simp only [Mm.userStore]
    rw [(page_add h.bound hx).1, h.entry, if_pos ⟨rfl, rfl⟩, userPte_pbase h.even.2.1, if_pos h.even.1]
    exact bind_ok.2 ⟨_, h.translate hx, rfl⟩
  refine ⟨fun _ => hu, ?_⟩
  rw [step, hst]
  rfl

theorem setRam (h : UserPage k page f) (g x : ℕ) (b : Byte) : UserPage (k.setMm (k.mm.setRam g x b)) page f :=
  ⟨h.bound, h.entry, h.even⟩

end UserPage

/-! ### `sys_dump_screen` -/

/-- The test of `sys_dump_screen`: the page of the first byte is one of the heap, with a frame. -/
def DumpAccepts (k : Kernel) (address : Word) : Prop :=
  heapStart ≤ address.toNat / pageSize ∧ address.toNat / pageSize < totalPages ∧
    k.mm.getFrame (getPT k k.current) (address.toNat / pageSize) ≠ 0

/-- The page of every byte of the screen at `address` is present in the caller's page table. -/
def ScreenMapped (k : Kernel) (address : Word) : Prop :=
  ∀ i < 2 * numRows * numColumns, (address.toNat + i) / pageSize < totalPages ∧
    (k.mm.pagusrTable (getPT k k.current) ((address.toNat + i) / pageSize)).present = true

theorem loadByte_iff {addr : Word} : (∃ b, m.loadByte dir addr = .ok b) ↔ ∃ x, m.translate dir addr = .ok x := by
  constructor
  · rintro ⟨b, h⟩
    obtain ⟨x, hx, -⟩ := bind_ok.1 h
    exact ⟨x, hx⟩
  · rintro ⟨x, hx⟩
    exact ⟨_, bind_ok.2 ⟨x, hx, rfl⟩⟩

theorem translate_iff {addr : Word} : (∃ x, m.translate dir addr = .ok x) ↔ addr.toNat / pageSize < totalPages ∧
    (m.pagusrTable (m.dirPages dir) (addr.toNat / pageSize)).present = true := by
  simp only [Mm.translate]
  split
  · rename_i h
    exact iff_of_true ⟨_, rfl⟩ h
  · rename_i h
    refine iff_of_false ?_ h
    rintro ⟨x, hx⟩
    cases hx

theorem loadShort_iff : (∃ cc, loadShort m dir address i = .ok cc) ↔
    ∀ j < 2, ∃ x, m.translate dir (address + BitVec.ofNat 32 (2 * i + j)) = .ok x := by
  constructor
  · rintro ⟨cc, h⟩ j hj
    obtain ⟨lo, h1, h⟩ := bind_ok.1 h
    obtain ⟨hi, h2, -⟩ := bind_ok.1 h
    rcases (show j = 0 ∨ j = 1 by omega) with rfl | rfl
    · exact loadByte_iff.1 ⟨lo, h1⟩
    · exact loadByte_iff.1 ⟨hi, h2⟩
  · intro h
    obtain ⟨lo, h1⟩ := loadByte_iff.2 (h 0 (by decide))
    obtain ⟨hi, h2⟩ := loadByte_iff.2 (h 1 (by decide))
    exact ⟨_, bind_ok.2 ⟨lo, h1, bind_ok.2 ⟨hi, h2, rfl⟩⟩⟩

/-- The first `c` cells at `address` can be read. -/
def CellsRead (m : Mm) (dir : Slot) (address : Word) (c : ℕ) : Prop :=
  ∀ i < 2 * c, ∃ x, m.translate dir (address + BitVec.ofNat 32 i) = .ok x

theorem CellsRead.succ_iff {c : ℕ} : CellsRead m dir address (c + 1) ↔
    CellsRead m dir address c ∧ ∃ cc, loadShort m dir address c = .ok cc := by
  rw [loadShort_iff]
  constructor
  · intro h
    exact ⟨fun i hi => h i (by omega), fun j hj => h (2 * c + j) (by omega)⟩
  · rintro ⟨h1, h2⟩ i hi
    by_cases hc : i < 2 * c
    · exact h1 i hc
    · obtain ⟨x, hx⟩ := h2 (i - 2 * c) (by omega)
      rw [show 2 * c + (i - 2 * c) = i by omega] at hx
      exact ⟨x, hx⟩

/-- A round of the inner loop. -/
def dumpCell (m : Mm) (dir : Slot) (address : Word) (i : ℕ) (sk : Console × ℕ) (j : ℕ) :
    Except Fault (Console × ℕ) := do
  let cc ← loadShort m dir address sk.2
  pure (sk.1.printccXy (BitVec.ofNat 8 j) (BitVec.ofNat 8 i) cc, sk.2 + 1)

theorem dumpLoop_eq : dumpLoop m dir address s = forRangeM 0 numRows (s, 0) fun sk i =>
    forRangeM 0 numColumns sk (dumpCell m dir address i) := rfl

theorem dumpCell_ok {sk sk' : Console × ℕ} {j : ℕ} (h : dumpCell m dir address i sk j = .ok sk') :
    sk'.2 = sk.2 + 1 ∧ ∃ cc, loadShort m dir address sk.2 = .ok cc := by
  obtain ⟨cc, hc, h⟩ := bind_ok.1 h
  cases h
  exact ⟨rfl, cc, hc⟩

/-- **The loops of `sys_dump_screen`** read every cell on the way to their end. -/
theorem dumpLoop_reads {r : Console × ℕ} (h : dumpLoop m dir address s = .ok r) :
    CellsRead m dir address (numRows * numColumns) := by
  have hcells : r.2 = (0 + numRows) * numColumns ∧ CellsRead m dir address r.2 := by
    rw [dumpLoop_eq] at h
    refine forRangeM_inv (I := fun i sk => sk.2 = i * numColumns ∧ CellsRead m dir address sk.2)
      ⟨rfl, fun i hi => by simp at hi⟩ (fun i sk sk' _ _ hI hrow => ?_) h
    have hrow' : sk'.2 = i * numColumns + (0 + numColumns) ∧ CellsRead m dir address sk'.2 := by
      refine forRangeM_inv (I := fun j sk => sk.2 = i * numColumns + j ∧ CellsRead m dir address sk.2)
        ⟨hI.1, hI.2⟩ (fun j sk sk' _ _ hI hcell => ?_) hrow
      obtain ⟨h1, h2⟩ := dumpCell_ok hcell
      exact ⟨by rw [h1, hI.1, Nat.add_assoc], by rw [h1]; exact CellsRead.succ_iff.2 ⟨hI.2, h2⟩⟩
    exact ⟨by rw [hrow'.1, Nat.zero_add, Nat.succ_mul], hrow'.2⟩
  rw [hcells.1, Nat.zero_add] at hcells
  exact hcells.2

/-- They end early with a page fault only. -/
theorem dumpLoop_error {e : Fault} (h : dumpLoop m dir address s = .error e) : ∃ addr, e = .page addr := by
  have hbyte : ∀ addr e, m.loadByte dir addr = .error e → ∃ addr, e = .page addr := by
    intro addr e h
    simp only [Mm.loadByte, Mm.translate] at h
    split at h
    · cases h
    · cases h
      exact ⟨addr, rfl⟩
  have hcell : ∀ i sk j e, dumpCell m dir address i sk j = .error e → ∃ addr, e = .page addr := by
    intro i sk j e h
    unfold dumpCell loadShort at h
    cases h1 : m.loadByte dir (address + BitVec.ofNat 32 (2 * sk.2)) with
    | error e' =>
      rw [h1] at h
      cases h
      exact hbyte _ _ h1
    | ok lo =>
      cases h2 : m.loadByte dir (address + BitVec.ofNat 32 (2 * sk.2 + 1)) with
      | error e' =>
        rw [h1, show (m.loadByte dir (address + BitVec.ofNat 32 (2 * sk.2 + 1))) = _ from h2] at h
        cases h
        exact hbyte _ _ h2
      | ok hi =>
        rw [h1, show (m.loadByte dir (address + BitVec.ofNat 32 (2 * sk.2 + 1))) = _ from h2] at h
        cases h
  rw [dumpLoop_eq] at h
  exact forRangeM_error (Q := fun e => ∃ addr, e = .page addr) (fun sk i e => forRangeM_error (hcell i)) h

/-- When all cells can be read they come to their end. -/
theorem dumpLoop_ok (h : CellsRead m dir address (numRows * numColumns)) :
    ∃ r, dumpLoop m dir address s = .ok r := by
  have hread : ∀ c < numRows * numColumns, ∃ cc, loadShort m dir address c = .ok cc := fun c hc =>
    (CellsRead.succ_iff.1 fun i hi => h i (by omega)).2
  have hrow : ∀ i sk, i < numRows → sk.2 = i * numColumns →
      ∃ r, forRangeM 0 numColumns sk (dumpCell m dir address i) = .ok r ∧ r.2 = i * numColumns + (0 + numColumns) := by
    intro i sk hi hI
    refine forRangeM_ok (I := fun j (sk : Console × ℕ) => sk.2 = i * numColumns + j) hI fun j sk _ hj hI => ?_
    obtain ⟨cc, hcc⟩ := hread sk.2 (by rw [hI]; simp at hi hj ⊢; omega)
    exact ⟨_, bind_ok.2 ⟨cc, hcc, rfl⟩, by rw [hI, Nat.add_assoc]⟩
  have hrows : ∃ r, dumpLoop m dir address s = .ok r ∧ r.2 = (0 + numRows) * numColumns := by
    refine forRangeM_ok (I := fun i (sk : Console × ℕ) => sk.2 = i * numColumns) (by simp) fun i sk _ hi hI => ?_
    obtain ⟨r, hr, hc⟩ := hrow i sk (by omega) hI
    exact ⟨r, hr, by rw [hc, Nat.zero_add, Nat.succ_mul]⟩
  obtain ⟨r, hr, -⟩ := hrows
  exact ⟨r, hr⟩

/-- A reachable kernel reads through the page table of the caller. -/
theorem cellsRead_iff {a : AState} (hW : WF k a) (h : address.toNat / pageSize < totalPages) :
    CellsRead k.mm k.cr3 address (numRows * numColumns) ↔ ScreenMapped k address := by
  have hT : getPT k k.current = k.mm.dirPages k.cr3 := by
    rw [hW.dirs, hW.cr3, hW.current]
    exact hW.getPT
  unfold CellsRead ScreenMapped
  rw [← Nat.mul_assoc, hT]
  refine forall₂_congr fun i hi => ?_
  rw [translate_iff, BitVec.toNat_add, BitVec.toNat_ofNat, Nat.mod_eq_of_lt (show i < 2 ^ 32 by simp at hi ⊢; omega),
    Nat.mod_eq_of_lt (show address.toNat + i < 2 ^ 32 by simp at hi h ⊢; omega)]

theorem sysDumpScreen_accepts (h : DumpAccepts k address) : sysDumpScreen k address =
    (dumpLoop k.mm k.cr3 address k.console).map fun r => (0, { k with console := r.1 }) := by
  obtain ⟨h1, h2, h3⟩ := h
  simp only [sysDumpScreen]
  rw [if_neg (by omega), if_neg h3]
  cases dumpLoop k.mm k.cr3 address k.console <;> rfl

theorem sysDumpScreen_refuses (h : ¬ DumpAccepts k address) : sysDumpScreen k address = .ok (-eacces, k) := by
  simp only [sysDumpScreen]
  split
  · rfl
  · rename_i hr
    split
    · rfl
    · rename_i hf
      exact absurd ⟨by omega, by omega, hf⟩ h

/-- A page of the heap holds a whole screen. -/
theorem UserPage.screen {a : AState} {page f : ℕ} (h : UserPage k page f) (hW : WF k a) (hp : heapStart ≤ page) :
    DumpAccepts k (BitVec.ofNat 32 (page * pageSize)) ∧ ScreenMapped k (BitVec.ofNat 32 (page * pageSize)) := by
  have hT : getPT k k.current = k.mm.dirPages k.cr3 := by
    rw [hW.getPT_current, hW.dirs, hW.cr3]
    rfl
  have hstart : (BitVec.ofNat 32 (page * pageSize)).toNat = page * pageSize := by
    have hb := h.bound
    simp at hb ⊢
    omega
  constructor
  · unfold DumpAccepts
    rw [hstart, Nat.mul_div_cancel page (by simp), hT, Mm.getFrame, h.entry, userPte_pbase h.even.2.1]
    exact ⟨hp, h.bound, Nat.ne_of_gt (Nat.lt_of_lt_of_le (by decide) h.even.1)⟩
  · intro i hi
    have hpage : (page * pageSize + i) / pageSize = page := by
      simp at hi ⊢
      omega
    rw [hstart, hpage, hT, h.entry]
    exact ⟨h.bound, rfl⟩

/-- The first heap page of task 1, once it is there. -/
theorem heap_screen {f : ℕ} (hW : WF k ((bootState aMachine).mapped heapStart f))
    (hF : Fresh (bootState aMachine) heapStart f) : DumpAccepts k 0x11C000 ∧ ScreenMapped k 0x11C000 :=
  (mapped_userPage hW hF).screen hW le_rfl

/-- **`sys_dump_screen` reads mapped memory only.** In every reachable state and for every address: when
it returns 0, the page of each byte that it read is present in the caller's page table. At an address
that it accepts it returns 0 if all these pages are present, and else runs into a page fault and does
not return. -/
theorem dump_screen_mapped (hr : KRun M tr k) (address : Word) :
    (∀ k', sysDumpScreen k address = .ok (0, k') → ScreenMapped k address) ∧
    (DumpAccepts k address → ScreenMapped k address → ∃ k', sysDumpScreen k address = .ok (0, k')) ∧
    (DumpAccepts k address → ¬ ScreenMapped k address → ∃ addr, sysDumpScreen k address = .error (.page addr)) := by
  obtain ⟨a, hW⟩ := run_wf hr
  refine ⟨fun k' h => ?_, fun hA hm => ?_, fun hA hm => ?_⟩
  · by_cases hA : DumpAccepts k address
    · rw [sysDumpScreen_accepts hA] at h
      cases hd : dumpLoop k.mm k.cr3 address k.console with
      | error e =>
        rw [hd] at h
        cases h
      | ok r => exact (cellsRead_iff hW hA.2.1).1 (dumpLoop_reads hd)
    · rw [sysDumpScreen_refuses hA] at h
      have h0 : -eacces = (0 : Word) := congrArg Prod.fst (Except.ok.inj h)
      exact absurd h0 (by decide)
  · obtain ⟨r, hd⟩ := dumpLoop_ok (s := k.console) ((cellsRead_iff hW hA.2.1).2 hm)
    rw [sysDumpScreen_accepts hA, hd]
    exact ⟨_, rfl⟩
  · rw [sysDumpScreen_accepts hA]
    cases hd : dumpLoop k.mm k.cr3 address k.console with
    | error e =>
      obtain ⟨addr, rfl⟩ := dumpLoop_error hd
      exact ⟨addr, rfl⟩
    | ok r => exact absurd ((cellsRead_iff hW hA.2.1).1 (dumpLoop_reads hd)) hm

/-- A page just allocated holds a whole screen. -/
theorem dump_screen_mapped_alloc : ∃ t k, KRun aMachine [t] k ∧ t.event = .sysenter .alloc someStack 1000 ∧
    ScreenMapped k 0x11C000 ∧ ∃ k', sysDumpScreen k 0x11C000 = .ok (0, k') := by
  obtain ⟨t, k, f, hr, he, hW, hF, -⟩ := alloc_run aMachine 1000
  obtain ⟨hA, hm⟩ := heap_screen hW hF
  obtain ⟨k', h⟩ := (dump_screen_mapped hr 0x11C000).2.1 hA hm
  exact ⟨t, k, hr, he, (dump_screen_mapped hr 0x11C000).1 k' h, k', h⟩

end Zeos
