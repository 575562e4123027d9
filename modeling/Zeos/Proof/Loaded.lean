import Zeos.Proof.Bootsect
import Zeos.Proof.Build
import Zeos.Proof.Copies
import Zeos.Proof.Progress
import Zeos.Proof.Write
import Zeos.System

/-!
# The way of the user program into memory

The boot sector has read the image. `main` copies the user program out of it, through the page tables that it has just
made.

* `copyData_ok`: **`copy_data` through the page tables** copies bytes that it does not overwrite itself.
* `boot_ram`: `boot` leaves the frames alone.
* `translate_kernel`, `translate_user`: where the pages of the kernel and of the first process are.
* `user_program_loaded`: **the user program comes into the pages of the first process**, from the files that `build`
  is given.
-/

namespace Zeos

open Disk ForLoop WhileLoop

variable {m m' m₁ : Mm} {dir : Slot} {p q : Word} {S D : ℕ → ℕ × ℕ} {n c : ℕ} {k : Kernel} {M : Machine}

/-! ### Copies through the page tables -/

/-- The `n` bytes from `p` on are at the places `S` in memory. -/
def Mm.At (m : Mm) (dir : Slot) (p : Word) (n : ℕ) (S : ℕ → ℕ × ℕ) : Prop :=
  ∀ i < n, m.translate dir (p + BitVec.ofNat 32 i) = .ok (S i)

/-- The first `c` bytes have come from `S` to `D`, and nothing else has changed. -/
structure Transferred (S D : ℕ → ℕ × ℕ) (m : Mm) (c : ℕ) (m' : Mm) : Prop where
  same : m.SameTables m'
  moved : ∀ i < c, m'.ram (D i).1 (D i).2 = m.ram (S i).1 (S i).2
  rest : ∀ f o, (∀ i < c, D i ≠ (f, o)) → m'.ram f o = m.ram f o

/-- No byte is written twice or over one that is to be read. -/
structure NoOverlap (S D : ℕ → ℕ × ℕ) (n : ℕ) : Prop where
  once : ∀ i < n, ∀ j < n, D i = D j → i = j
  source : ∀ i < n, ∀ j < n, D i ≠ S j

theorem Mm.SameTables.at (h : m.SameTables m') (hp : m.At dir p n S) : m'.At dir p n S := fun i hi => by
  have hi := hp i hi
  unfold Mm.translate at hi ⊢
  rw [h.table, h.dirs]
  exact hi

theorem Transferred.zero : Transferred S D m 0 m := ⟨.refl m, nofun, fun _ _ _ => rfl⟩

/-- A byte that has not been read yet is as it was. -/
theorem Transferred.load (h : Transferred S D m c m') (hS : m.At dir p n S) (hA : NoOverlap S D n) {j : ℕ}
    (hc : c ≤ n) (hj : j < n) : m'.loadByte dir (p + BitVec.ofNat 32 j) = .ok (m.ram (S j).1 (S j).2) :=
  bind_ok.2 ⟨S j, h.same.at hS j hj, congrArg Except.ok (h.rest _ _ fun i hi => hA.source i (by omega) j hj)⟩

/-- One byte more. -/
theorem Transferred.store (h : Transferred S D m c m') (hD : m.At dir q n D) (hA : NoOverlap S D n) (hc : c < n)
    {b : Byte} (hb : b = m.ram (S c).1 (S c).2) :
    ∃ m'', m'.storeByte dir (q + BitVec.ofNat 32 c) b = .ok m'' ∧ Transferred S D m (c + 1) m'' := by
  have hst : m'.storeByte dir (q + BitVec.ofNat 32 c) b = .ok (m'.setRam (D c).1 (D c).2 b) :=
    bind_ok.2 ⟨D c, h.same.at hD c hc, rfl⟩
  refine ⟨_, hst, h.same.trans (storeByte_same hst), fun i hi => ?_, fun f o hne => ?_⟩
  · by_cases hic : i = c
    · subst hic
      exact (if_pos ⟨rfl, rfl⟩).trans hb
    · have hne : ¬ ((D i).1 = (D c).1 ∧ (D i).2 = (D c).2) := fun he =>
        hic (hA.once i (by omega) c hc (Prod.ext he.1 he.2))
      exact (if_neg hne).trans (h.moved i (by omega))
  · have hne' : ¬ (f = (D c).1 ∧ o = (D c).2) := fun he => hne c (by omega) (Prod.ext he.1.symm he.2.symm)
    exact (if_neg hne').trans (h.rest f o fun i hi => hne i (by omega))

/-- A word is its bytes. -/
theorem loadWord_get {b : ℕ → Byte} (h : ∀ i < 4, m.loadByte dir (p + BitVec.ofNat 32 i) = .ok (b i)) :
    ∃ w, m.loadWord dir p = .ok w ∧ ∀ i < 4, Mm.byteOf w i = b i := by
  have hmapped : BytesMapped m dir p 4 := fun i hi => translate_iff.1 (loadByte_iff.1 ⟨b i, h i hi⟩)
  obtain ⟨w, hw⟩ := loadWord_ok hmapped
  refine ⟨w, hw, fun i hi => ?_⟩
  have hbytes := loadWord_bytes m dir p
  rw [hw] at hbytes
  have hget := (loadBytes_get hbytes.symm).2 i (by simpa using hi)
  rw [h i hi] at hget
  have hbyte := Except.ok.inj hget
  rw [List.getElem_map, List.getElem_range] at hbyte
  exact hbyte.symm

theorem add_ofNat (p : Word) (i j : ℕ) : p + BitVec.ofNat 32 i + BitVec.ofNat 32 j = p + BitVec.ofNat 32 (i + j) := by
  rw [BitVec.ofNat_add, BitVec.add_assoc]

/-- Four bytes more. -/
theorem Transferred.word (h : Transferred S D m c m') (hS : m.At dir p n S) (hD : m.At dir q n D)
    (hA : NoOverlap S D n) (hc : c + 4 ≤ n) : ∃ w m'', m'.loadWord dir (p + BitVec.ofNat 32 c) = .ok w ∧
      m'.storeWord dir (q + BitVec.ofNat 32 c) w = .ok m'' ∧ Transferred S D m (c + 4) m'' := by
  have hload : ∀ i < 4, m'.loadByte dir (p + BitVec.ofNat 32 c + BitVec.ofNat 32 i) =
      .ok (m.ram (S (c + i)).1 (S (c + i)).2) := fun i hi => by
    rw [add_ofNat]
    exact h.load hS hA (by omega) (by omega)
  obtain ⟨w, hw, hbyte⟩ := loadWord_get (b := fun i => m.ram (S (c + i)).1 (S (c + i)).2) hload
  have hloop : ∃ m'', m'.storeWord dir (q + BitVec.ofNat 32 c) w = .ok m'' ∧ Transferred S D m (c + (0 + 4)) m'' :=
    forRangeM_ok (I := fun i m'' => Transferred S D m (c + i) m'') h fun i m₁ _ hi hI => by
      rw [add_ofNat]
      exact hI.store hD hA (by omega) (hbyte i (by omega))
  obtain ⟨m'', hm'', hT⟩ := hloop
  exact ⟨w, m'', hw, hm'', hT⟩

theorem copyLongs_ok (hS : m.At dir p n S) (hD : m.At dir q n D) (hA : NoOverlap S D n)
    (h : Transferred S D m c m') (hc : c ≤ n) :
    ∃ c' m'', Mm.copyLongs dir m' (p + BitVec.ofNat 32 c) (q + BitVec.ofNat 32 c) (n - c : ℕ) =
        .ok (m'', p + BitVec.ofNat 32 c', q + BitVec.ofNat 32 c', (n - c' : ℕ)) ∧
      c' ≤ n ∧ Transferred S D m c' m'' := by
  induction hd : n - c using Nat.strongRecOn generalizing c m' with
  | ind d ih =>
    rw [Mm.copyLongs]
    by_cases hmore : (4 : ℤ) < (d : ℕ)
    · obtain ⟨w, m₁, hw, hst, hT⟩ := h.word hS hD hA (by omega)
      obtain ⟨c', m'', hm'', hc', hT'⟩ := ih (n - (c + 4)) (by omega) hT (by omega) rfl
      have hsize : ((d : ℕ) : ℤ) - 4 = (n - (c + 4) : ℕ) := by omega
      rw [if_pos hmore]
      refine ⟨c', m'', bind_ok.2 ⟨w, hw, bind_ok.2 ⟨m₁, hst, ?_⟩⟩, hc', hT'⟩
      rw [hsize]
      exact (congrArg₂ (fun a b => Mm.copyLongs dir m₁ a b _) (add_ofNat p c 4) (add_ofNat q c 4)).trans hm''
    · rw [if_neg hmore]
      exact ⟨c, m', by rw [← hd]; rfl, hc, h⟩

theorem copyRest_ok (hS : m.At dir p n S) (hD : m.At dir q n D) (hA : NoOverlap S D n)
    (h : Transferred S D m c m') (hc : c ≤ n) :
    ∃ m'', Mm.copyRest dir m' (p + BitVec.ofNat 32 c) (q + BitVec.ofNat 32 c) (n - c : ℕ) = .ok m'' ∧
      Transferred S D m n m'' := by
  induction hd : n - c generalizing c m' with
  | zero =>
    obtain rfl : c = n := by omega
    rw [Mm.copyRest]
    exact ⟨m', if_neg (by simp), h⟩
  | succ d ih =>
    have hb := h.load hS hA hc (j := c) (by omega)
    obtain ⟨m₁, hst, hT⟩ := h.store hD hA (by omega) rfl
    obtain ⟨m'', hm'', hT'⟩ := ih hT (by omega) (by omega)
    have hsize : ((d + 1 : ℕ) : ℤ) - 1 = (d : ℕ) := by omega
    rw [Mm.copyRest, if_pos (by omega)]
    refine ⟨m'', bind_ok.2 ⟨_, hb, bind_ok.2 ⟨m₁, hst, ?_⟩⟩, hT'⟩
    rw [hsize]
    exact (congrArg₂ (fun a b => Mm.copyRest dir m₁ a b _) (add_ofNat p c 1) (add_ofNat q c 1)).trans hm''

/-- **`copy_data` through the page tables** copies as it would over one memory. -/
theorem copyData_ok (hS : m.At dir p n S) (hD : m.At dir q n D) (hA : NoOverlap S D n) :
    ∃ m', Mm.copyData dir m p q n = .ok m' ∧ Transferred S D m n m' := by
  obtain ⟨c, m₁, hm₁, hc, hT⟩ := copyLongs_ok hS hD hA .zero (Nat.zero_le n)
  obtain ⟨m', hm', hT'⟩ := copyRest_ok hS hD hA hT hc
  rw [Nat.sub_zero, BitVec.add_zero, BitVec.add_zero] at hm₁
  exact ⟨m', bind_ok.2 ⟨_, hm₁, hm'⟩, hT'⟩

/-! ### The memory at the start -/

theorem forRange_ram {f : Mm → ℕ → Mm} (lo n : ℕ) (hf : ∀ m i, (f m i).ram = m.ram) (m : Mm) :
    (forRange lo n m f).ram = m.ram :=
  forRange_inv (I := fun _ m' => m'.ram = m.ram) rfl fun i m' _ _ h => (hf m' i).trans h

theorem setPte_ram (m : Mm) (PT : Slot) (page : ℕ) (e : Pte) : (m.setPte PT page e).ram = m.ram := rfl

theorem initTablePagesOf_ram (L : Layout) (m : Mm) (j : Slot) : (m.initTablePagesOf L j).ram = m.ram := by
  unfold Mm.initTablePagesOf
  extract_lets m₁ m₂
  have h1 : m₁.ram = m.ram := forRange_ram 0 _ (fun m i => setPte_ram m _ _ _) m
  have h2 : m₂.ram = m₁.ram := forRange_ram 1 _ (fun m i => setPte_ram m _ _ _) m₁
  exact (setPte_ram _ _ _ _).trans ((setPte_ram _ _ _ _).trans (h2.trans h1))

theorem setPhys_ram (m : Mm) (g : ℕ) (b : Byte) : (m.setPhys g b).ram = m.ram := rfl

theorem initFrames_ram (m : Mm) : m.initFrames.ram = m.ram := by
  unfold Mm.initFrames
  extract_lets m₁
  have h1 : m₁.ram = m.ram := forRange_ram 0 _ (fun m i => setPhys_ram m i _) m
  exact (forRange_ram 0 _ (fun m i => setPhys_ram m i _) m₁).trans h1

theorem initMm_ram (L : Layout) (k : Kernel) : (initMm L k).mm.ram = k.mm.ram := by
  let m₁ := k.mm.initTablePages L
  let m₂ := m₁.initFrames
  have h1 : m₁.ram = k.mm.ram := forRange_ram 0 _ (fun m i => initTablePagesOf_ram L m _) _
  have h2 : m₂.ram = m₁.ram := initFrames_ram m₁
  have h3 : m₂.initDirPages.ram = m₂.ram := by rw [initDirPages_eq]
  exact h3.trans (h2.trans h1)

theorem userPage_ram (m : Mm) (PT : Slot) (page : ℕ) (e : Pte) : (m.allocFrame.2.setPte PT page e).ram = m.ram :=
  allocFrameFrom_ram _ _

theorem setUserPages_ram (m : Mm) (PT : Slot) : (m.setUserPages PT).ram = m.ram := by
  unfold Mm.setUserPages
  extract_lets m₁
  have h1 : m₁.ram = m.ram := forRange_ram 0 _ (fun m _ => userPage_ram m PT _ _) m
  exact (forRange_ram 0 _ (fun m _ => userPage_ram m PT _ _) m₁).trans h1

theorem takeFree_mm {c : Slot} {k' : Kernel} (h : takeFree k = .ok (c, k')) : k'.mm = k.mm := by
  obtain ⟨l, -, h⟩ := bind_ok.1 h
  obtain ⟨links, -, h⟩ := bind_ok.1 h
  obtain ⟨s, -, h⟩ := bind_ok.1 h
  cases h
  rfl

theorem initSched_mm {k' : Kernel} (h : initSched k = .ok k') : k'.mm = k.mm := by
  obtain ⟨_, hsched, -⟩ := initSched_ok k
  obtain rfl := Except.ok.inj (hsched.symm.trans h)
  rfl

theorem initIdle_mm {k' : Kernel} (h : initIdle k = .ok k') : k'.mm = k.mm := by
  obtain ⟨⟨c, k₁⟩, h₁, h⟩ := bind_ok.1 h
  have htaken : k₁.mm = k.mm := takeFree_mm h₁
  cases h
  exact htaken

theorem initTask1_ram {k' : Kernel} (h : initTask1 k = .ok k') : k'.mm.ram = k.mm.ram := by
  obtain ⟨⟨c, k₁⟩, h₁, h⟩ := bind_ok.1 h
  have htaken : k₁.mm = k.mm := takeFree_mm h₁
  cases h
  simp only [Kernel.setMm, setUserPages_ram]
  exact congrArg Mm.ram htaken

/-- `boot` makes up its tables and leaves the frames alone. -/
theorem boot_ram (h : boot M = .ok k) : k.mm.ram = M.ram := by
  obtain ⟨k₁, h₁, h⟩ := bind_ok.1 h
  obtain ⟨k₂, h₂, h₃⟩ := bind_ok.1 h
  rw [initTask1_ram h₃, initIdle_mm h₂, initSched_mm h₁]
  exact initMm_ram _ _

variable {a : AState} {L : Layout}

/-- An address in the page tables that `boot` leaves. -/
theorem translate_boot (hW : WF k (bootState M)) {x frame : ℕ} {e : Pte} (hx : x < totalPages * pageSize)
    (he : bootTable M.layout 1 (x / pageSize) = e) (hpresent : e.present = true) (hframe : e.pbaseAddr = frame) :
    k.mm.translate k.cr3 (BitVec.ofNat 32 x) = .ok (frame, x % pageSize) := by
  have haddr : (BitVec.ofNat 32 x).toNat = x := by
    rw [BitVec.toNat_ofNat]
    exact Nat.mod_eq_of_lt (lt_trans hx (by decide))
  have hcr3 : k.cr3 = 1 := hW.cr3
  have hpage : x / pageSize < totalPages := Nat.div_lt_of_lt_mul (Nat.mul_comm _ _ ▸ hx)
  unfold Mm.translate
  rw [haddr, hcr3, hW.dirs, hW.table]
  change (if x / pageSize < totalPages ∧ (bootTable M.layout 1 (x / pageSize)).present = true then
    Except.ok ((bootTable M.layout 1 (x / pageSize)).pbaseAddr, x % pageSize) else _) = _
  rw [he, hframe, if_pos ⟨hpage, hpresent⟩]

/-- The pages of the kernel are where they are in memory. -/
theorem translate_kernel (hW : WF k (bootState M)) {x : ℕ} (hlo : pageSize ≤ x) (hhi : x < lUserStart)
    (hguard : x / pageSize ≠ M.layout.protectedTasks ∧ x / pageSize ≠ M.layout.protectedTasks + 11) :
    k.mm.translate k.cr3 (BitVec.ofNat 32 x) = .ok (x / pageSize, x % pageSize) := by
  have hpage : 0 < x / pageSize ∧ x / pageSize < numPagKernel := by
    simp only [pageSize, lUserStart, numPagKernel] at *
    omega
  refine translate_boot hW (lt_trans hhi (by decide)) (e := kernelPte M.layout (x / pageSize)) ?_ ?_ ?_
  · have hcode : ¬ pagLogInitCode ≤ x / pageSize := Nat.not_le.2 hpage.2
    have hdata : ¬ pagLogInitData ≤ x / pageSize := Nat.not_le.2 (lt_trans hpage.2 (by decide))
    rw [bootTable, if_neg fun h => hcode h.2.1, if_neg fun h => hdata h.2.1]
  · rw [kernelPte, if_neg (not_or.2 ⟨by omega, Nat.not_le.2 hpage.2⟩)]
    exact decide_eq_true hguard
  · rw [kernelPte, if_neg (not_or.2 ⟨by omega, Nat.not_le.2 hpage.2⟩)]

/-- Those of the first process are in every second frame. -/
theorem translate_user (hW : WF k (bootState M)) {i : ℕ} (hi : i < (numPagCode + numPagData) * pageSize) :
    k.mm.translate k.cr3 (BitVec.ofNat 32 (lUserStart + i)) = .ok (codeFrame (i / pageSize), i % pageSize) := by
  have hpage : (lUserStart + i) / pageSize = pagLogInitCode + i / pageSize := by
    simp only [lUserStart, pageSize, pagLogInitCode]
    omega
  have hoffset : (lUserStart + i) % pageSize = i % pageSize := by
    simp only [lUserStart, pageSize]
    omega
  have hlt : i / pageSize < numPagCode + numPagData := Nat.div_lt_of_lt_mul (Nat.mul_comm _ _ ▸ hi)
  have hx : lUserStart + i < totalPages * pageSize := by
    simp only [lUserStart, totalPages, pageSize, numPagCode, numPagData] at *
    omega
  rw [← hoffset]
  by_cases hcode : i / pageSize < numPagCode
  · refine translate_boot hW hx (e := { pbaseAddr := codeFrame (i / pageSize), user := true, present := true }) ?_ rfl
      rfl
    rw [hpage, bootTable, if_pos ⟨rfl, Nat.le_add_right _ _, Nat.add_lt_add_left hcode _⟩, Nat.add_sub_cancel_left]
  · obtain ⟨j, hj⟩ := Nat.exists_eq_add_of_le (Nat.not_lt.1 hcode)
    refine translate_boot hW hx
      (e := { pbaseAddr := codeFrame (i / pageSize), user := true, rwBit := true, present := true }) ?_ rfl rfl
    have hend : pagLogInitCode + i / pageSize < heapStart := Nat.add_lt_add_left hlt _
    have hdata : pagLogInitCode + i / pageSize = pagLogInitData + j := by
      rw [hj]
      exact (Nat.add_assoc _ _ _).symm
    rw [hpage, bootTable, if_neg fun h => hcode (Nat.lt_of_add_lt_add_left h.2.2),
      if_pos ⟨rfl, by rw [hdata]; exact Nat.le_add_right _ _, hend⟩, hdata, Nat.add_sub_cancel_left, dataFrame, hj]

/-! ### From the files to the pages -/

/-- The files that `build` is given: the boot sector behind its header, the system and the user program. -/
def BuiltFrom (fs : String → Option File) (argv : List String) (boot sys usr : File) : Prop :=
  ∃ prog bootsect system user h, argv = [prog, bootsect, system, user] ∧ fs bootsect = some (h ++ boot) ∧
    h.length = Build.minixHeaderLen ∧ fs system = some sys ∧ fs user = some usr

/-- What the code takes for granted of them: the boot sector as it is assembled, and the lengths. -/
structure Fits (V : Bootsect.Vars) (boot sys usr : File) : Prop where
  setup : bytes boot 497 = Bootsect.setupsecs
  zero : ∀ i < 6, bytes boot (V.offset + i) = 0
  header : 12 ≤ sys.length
  size : sys.length + usr.length ≤ 0x7FFF0
  pages : usr.length ≤ (numPagCode + numPagData) * pageSize

theorem BuiltFrom.image {fs : String → Option File} {argv : List String} {boot sys usr image : File}
    (h : BuiltFrom fs argv boot sys usr) (hbuild : Build.main fs argv = .ok image) :
    Build.BootSector boot ∧ image = Build.imageOf boot sys usr := by
  obtain ⟨prog, b, s, u, hd, rfl, hb, hlen, hs, hu⟩ := h
  obtain ⟨prog', b', s', u', hd', boot', sys', usr', hargv, hb', hminix, hsector, hs', hu', himage⟩ :=
    Build.main_ok_iff.1 hbuild
  cases hargv
  have hparts := Option.some.inj (hb.symm.trans hb')
  obtain ⟨-, rfl⟩ := List.append_inj hparts (hlen.trans hminix.length.symm)
  obtain rfl := Option.some.inj (hs.symm.trans hs')
  obtain rfl := Option.some.inj (hu.symm.trans hu')
  exact ⟨hsector, himage⟩

/-- The frames as the loader leaves them. -/
def ramOf (m : ByteMem.Bytes) : ℕ → ℕ → Byte := fun f o => m (f * pageSize + o)

/-- A long of the image, as the kernel reads it. -/
theorem loadWord_long {mem : ByteMem.Bytes} {x : ℕ}
    (h : ∀ i < 4, m.loadByte dir (BitVec.ofNat 32 x + BitVec.ofNat 32 i) = .ok (mem (x + i))) :
    m.loadWord dir (BitVec.ofNat 32 x) = .ok (ByteMem.long mem x) := by
  obtain ⟨w, hw, hbyte⟩ := loadWord_get (b := fun i => mem (x + i)) h
  have hlong : w = ByteMem.long mem x := ByteMem.long_ext fun i hi => by
    have hextract : w.extractLsb' (8 * i) 8 = Mm.byteOf w i := by
      rw [Mm.byteOf, ← BitVec.toNat_inj, BitVec.extractLsb'_toNat, BitVec.toNat_setWidth, BitVec.toNat_ushiftRight]
    rw [hextract, hbyte i hi]
  rw [hw, hlong]

/-- The image as the boot sector leaves it. -/
def InMemory (image : File) (mem : ByteMem.Bytes) : Prop :=
  ∀ i, 512 + i < image.length → mem (0x10000 + i) = bytes image (512 + i)

variable {V : Bootsect.Vars} {boot sys usr image : File} {mem : ByteMem.Bytes}

/-- A byte of a kernel page that is present. -/
theorem loadByte_kernel (hW : WF k (bootState M)) (hram : k.mm.ram = ramOf mem) {x : ℕ} (hlo : pageSize ≤ x)
    (hhi : x < lUserStart)
    (hguard : x / pageSize ≠ M.layout.protectedTasks ∧ x / pageSize ≠ M.layout.protectedTasks + 11) :
    k.mm.loadByte k.cr3 (BitVec.ofNat 32 x) = .ok (mem x) := by
  refine bind_ok.2 ⟨_, translate_kernel hW hlo hhi hguard, congrArg Except.ok ?_⟩
  rw [hram, ramOf, Nat.div_add_mod']

/-- A length in front of the system. -/
theorem loadWord_length (hW : WF k (bootState M)) (hram : k.mm.ram = ramOf mem) (himage : InMemory image mem)
    {i n : ℕ} (hi : i ≤ 4) (hlen : 524 ≤ image.length) (hn : (ByteMem.long (bytes image) (512 + i)).toNat = n) :
    k.mm.loadWord k.cr3 (BitVec.ofNat 32 (0x10000 + i)) = .ok (BitVec.ofNat 32 n) := by
  have hstart := M.layout.after_start
  have hbytes : ∀ j < 4, k.mm.loadByte k.cr3 (BitVec.ofNat 32 (0x10000 + i) + BitVec.ofNat 32 j) =
      .ok (mem (0x10000 + i + j)) := fun j hj => by
    rw [← BitVec.ofNat_add]
    refine loadByte_kernel hW hram ?_ ?_ ?_
    all_goals
      simp only [pageSize, lUserStart]
      omega
  have hlong : ByteMem.long mem (0x10000 + i) = ByteMem.long (bytes image) (512 + i) :=
    (ByteMem.long_ext fun j hj => by
      rw [ByteMem.long_byte _ _ hj, Nat.add_assoc, Nat.add_assoc]
      exact (himage (i + j) (by omega)).symm).symm
  rw [loadWord_long hbytes, hlong, ← hn, BitVec.ofNat_toNat, BitVec.setWidth_eq]

/-- The pages that the user program is copied from and to. -/
theorem copy_noOverlap {x n : ℕ} (hx : x + n ≤ lUserStart) :
    NoOverlap (fun i => ((x + i) / pageSize, (x + i) % pageSize))
      (fun i => (codeFrame (i / pageSize), i % pageSize)) n where
  once i _ j _ h := by
    obtain ⟨hframe, hoffset⟩ := Prod.mk.inj h
    simp only [codeFrame, pageSize] at hframe hoffset
    omega
  source i _ j hj h := by
    obtain ⟨hframe, -⟩ := Prod.mk.inj h
    simp only [codeFrame, numPagKernel, pageSize, lUserStart] at *
    omega

/-- `main`, on an image in memory. -/
theorem main_copies (hl : Build.Layout boot sys usr image) (hfits : Fits V boot sys usr) (himage : InMemory image mem)
    (hram : M.ram = ramOf mem) (htasks : (M.layout.protectedTasks + 12) * pageSize ≤ 0x10000 + sys.length) :
    ∃ k, main M = .ok k ∧ WF k (bootState M) ∧
      ∀ i < usr.length, k.mm.loadByte k.cr3 (BitVec.ofNat 32 (lUserStart + i)) = .ok (bytes usr i) := by
  obtain ⟨k, hboot, hW⟩ := boot_ok M
  have hram' : k.mm.ram = ramOf mem := (boot_ram hboot).trans hram
  have hlen := hl.length
  have hheader := hfits.header
  have hsize := hfits.size
  have hsys := loadWord_length hW hram' himage (Nat.zero_le 4) (by omega) hl.sysSize
  have husr := loadWord_length hW hram' himage le_rfl (by omega) hl.usrSize
  have hint : (BitVec.ofNat 32 usr.length).toInt = (usr.length : ℤ) := by
    rw [BitVec.toInt_eq_toNat_of_lt (by rw [BitVec.toNat_ofNat]; omega), BitVec.toNat_ofNat,
      Nat.mod_eq_of_lt (by omega)]
  have hstart : kernelStart + BitVec.ofNat 32 sys.length = BitVec.ofNat 32 (0x10000 + sys.length) :=
    (BitVec.ofNat_add ..).symm
  -- the user program, in the image and in its pages
  let S : ℕ → ℕ × ℕ := fun i => ((0x10000 + sys.length + i) / pageSize, (0x10000 + sys.length + i) % pageSize)
  let D : ℕ → ℕ × ℕ := fun i => (codeFrame (i / pageSize), i % pageSize)
  have hS : k.mm.At k.cr3 (BitVec.ofNat 32 (0x10000 + sys.length)) usr.length S := fun i hi => by
    rw [← BitVec.ofNat_add]
    refine translate_kernel hW ?_ ?_ ?_
    all_goals
      simp only [pageSize, lUserStart] at *
      omega
  have huser : ∀ i : ℕ, phUserStart + BitVec.ofNat 32 i = BitVec.ofNat 32 (lUserStart + i) := fun i =>
    (BitVec.ofNat_add ..).symm
  have hD : k.mm.At k.cr3 phUserStart usr.length D := fun i hi => by
    rw [huser]
    exact translate_user hW (lt_of_lt_of_le hi hfits.pages)
  obtain ⟨m', hcopy, hT⟩ := copyData_ok hS hD (copy_noOverlap (by simp only [lUserStart]; omega))
  have hmove : moveUser k = .ok (k.setMm m') := by
    refine bind_ok.2 ⟨_, hsys, bind_ok.2 ⟨_, husr, bind_ok.2 ⟨m', ?_, rfl⟩⟩⟩
    rw [hint, hstart]
    exact hcopy
  refine ⟨k.setMm m', bind_ok.2 ⟨k, hboot, hmove⟩, hW.same (Same.setMm hT.same) rfl, fun i hi => ?_⟩
  have hkept : m'.translate k.cr3 (BitVec.ofNat 32 (lUserStart + i)) = .ok (D i) := by
    rw [← huser]
    exact hT.same.at hD i hi
  refine bind_ok.2 ⟨D i, hkept, congrArg Except.ok ?_⟩
  calc m'.ram (D i).1 (D i).2 = k.mm.ram (S i).1 (S i).2 := hT.moved i hi
    _ = mem (0x10000 + sys.length + i) := by rw [hram', ramOf, Nat.div_add_mod']
    _ = bytes image (512 + (sys.length + i)) := by rw [Nat.add_assoc]; exact himage _ (by omega)
    _ = bytes usr i := by rw [← Nat.add_assoc]; exact hl.user i hi

/-- **The user program comes into the pages of the first process.** From the files, over `build`, the disk and the
boot sector: once `main` is through, the bytes at `L_USER_START` are those of the user program. The system is at
`KERNEL_START`, behind the lengths of the two. -/
theorem user_program_loaded {fs : String → Option File} {argv : List String} {disk : ByteMem.Bytes}
    {bios : Bootsect.Request → ByteMem.Bytes → ByteMem.Bytes} (hfiles : BuiltFrom fs argv boot sys usr)
    (hfits : Fits V boot sys usr) (hbuild : Build.main fs argv = .ok image)
    (hdisk : ∀ i < image.length, disk i = bytes image i) (hbios : Bootsect.Reads bios disk)
    (hmem : ∀ i < 512, mem (Bootsect.linear Bootsect.bootseg 0 + i) = disk i) :
    ∃ c, Halts (Bootsect.rpRead bios V) (Bootsect.readIt V (Bootsect.moved mem)) c ∧
      (∀ i, 12 ≤ i → i < sys.length → c.mem (0x10000 + i) = bytes sys i) ∧
      ∀ M : Machine, M.ram = ramOf c.mem → (M.layout.protectedTasks + 12) * pageSize ≤ 0x10000 + sys.length →
        ∃ k, main M = .ok k ∧ WF k (bootState M) ∧
          ∀ i < usr.length, k.mm.loadByte k.cr3 (BitVec.ofNat 32 (lUserStart + i)) = .ok (bytes usr i) := by
  obtain ⟨hsector, himageOf⟩ := hfiles.image hbuild
  have hl : Build.Layout boot sys usr image := by
    rw [himageOf]
    exact Build.imageOf_layout hsector hfits.header hfits.size
  have hlen := hl.length
  have hsize := hfits.size
  have hheader := hfits.header
  have hgdt := V.before_gdt
  have hboot : Bootsect.Booting V disk mem := by
    refine ⟨hmem, ?_, fun i hi => ?_⟩
    swap
    · rw [hdisk _ (by omega), hl.sector _ (by omega) (by omega) (by omega) (by omega) (by omega), hfits.zero i hi]
    rw [hdisk 497 (by omega), hl.sector 497 (by decide) (by decide) (by decide) (by decide) (by decide), hfits.setup]
  have hshort : Bootsect.short disk 500 = Bootsect.short (bytes image) 500 := by
    rw [Bootsect.short, Bootsect.short, hdisk 500 (by omega), hdisk 501 (by omega)]
  have hfield : (Bootsect.syssize (Bootsect.moved mem)).toNat = (sys.length + usr.length + 15) / 16 := by
    rw [hboot.syssize, hshort, hl.imSize]
  obtain ⟨c, hc, hloaded⟩ := Bootsect.readIt_halts hbios hboot.started (by omega)
  have himage : InMemory image c.mem := fun i hi =>
    (hloaded.image (by omega) (by omega)).trans (hdisk _ hi)
  refine ⟨c, hc, fun i hi hi' => ?_, fun M hram htasks => main_copies hl hfits himage hram htasks⟩
  exact (himage i (by omega)).trans (hl.system i hi hi')

/-! ### An example -/

def sampleHeader : File := Build.hdr ++ List.replicate 24 0

def sampleBoot : File := List.replicate 510 0 ++ [0x55, 0xaa]

def sampleSystem : File := List.replicate 0xD000 0

def sampleProgram : File := [1, 2, 3]

def sampleFiles (name : String) : Option File :=
  if name = "bootsect" then some (sampleHeader ++ sampleBoot)
  else if name = "system.out" then some sampleSystem
  else if name = "user.out" then some sampleProgram
  else none

def sampleArgv : List String := ["build", "bootsect", "system.out", "user.out"]

def sampleImage : File := Build.imageOf sampleBoot sampleSystem sampleProgram

theorem sampleSystem_length : sampleSystem.length = 0xD000 := List.length_replicate

/-- The task structs are in it. -/
theorem sampleSystem_tasks : (17 + 12) * pageSize ≤ 0x10000 + sampleSystem.length := by
  rw [sampleSystem_length]
  decide

theorem sampleFiles_builtFrom : BuiltFrom sampleFiles sampleArgv sampleBoot sampleSystem sampleProgram :=
  ⟨"build", "bootsect", "system.out", "user.out", sampleHeader, rfl, if_pos rfl, rfl,
    (if_neg (by decide)).trans (if_pos rfl),
    (if_neg (by decide)).trans ((if_neg (by decide)).trans (if_pos rfl))⟩

theorem sampleBoot_zero {i : ℕ} (hi : i < 510) : bytes sampleBoot i = 0 := by
  rw [sampleBoot, bytes_append_left (by rw [List.length_replicate]; exact hi),
    bytes_of_lt (by rw [List.length_replicate]; exact hi), List.getElem_replicate]

theorem sampleBoot_sector : Build.BootSector sampleBoot where
  length := by rw [sampleBoot, List.length_append, List.length_replicate]; rfl
  flag := by
    have hend := bytes_append_right (List.replicate 510 (0 : Byte)) [0x55, 0xaa]
    rw [List.length_replicate] at hend
    exact ⟨hend 0, hend 1⟩

theorem sampleImage_built : Build.main sampleFiles sampleArgv = .ok sampleImage := by
  obtain ⟨prog, b, s, u, h, hargv, hb, -, hs, hu⟩ := sampleFiles_builtFrom
  refine Build.main_ok_iff.2 ⟨prog, b, s, u, sampleHeader, sampleBoot, sampleSystem, sampleProgram, hargv, ?_, ?_,
    sampleBoot_sector, hs, hu, rfl⟩
  · cases hargv
    exact if_pos rfl
  · exact ⟨by decide, by decide, by decide, by decide, by decide, by decide⟩

theorem sample_fits : Fits Bootsect.sampleVars sampleBoot sampleSystem sampleProgram where
  setup := (sampleBoot_zero (by decide)).trans rfl
  zero i hi := sampleBoot_zero (show 250 + i < 510 by omega)
  header := by rw [sampleSystem_length]; decide
  size := by rw [sampleSystem_length]; decide
  pages := by decide

/-- Three bytes of a user program, from the files on. -/
theorem user_program_loaded_sample : ∃ M k, main M = .ok k ∧
    ∀ i < 3, k.mm.loadByte k.cr3 (BitVec.ofNat 32 (lUserStart + i)) = .ok (bytes sampleProgram i) := by
  let mem : ByteMem.Bytes := fun a => bytes sampleImage (a - Bootsect.linear Bootsect.bootseg 0)
  have hmem : ∀ i < 512, mem (Bootsect.linear Bootsect.bootseg 0 + i) = bytes sampleImage i := fun i _ =>
    congrArg (bytes sampleImage) (Nat.add_sub_cancel_left ..)
  obtain ⟨c, -, -, hmain⟩ := user_program_loaded sampleFiles_builtFrom sample_fits sampleImage_built (fun _ _ => rfl)
    (Bootsect.sampleBios_reads (bytes sampleImage)) hmem
  let M : Machine := ⟨⟨17, by decide, by decide⟩, fun _ => 0, ramOf c.mem⟩
  obtain ⟨k, hk, -, hbytes⟩ := hmain M rfl sampleSystem_tasks
  exact ⟨M, k, hk, hbytes⟩

end Zeos
