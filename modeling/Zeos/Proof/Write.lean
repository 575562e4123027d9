import Zeos.Proof.Console

/-!
# `sys_write`

`writeLoop` records the contents of `localbuffer` at each call of `sys_write_console`, and `bytes_left` at the end.

* `copyFromUserLoops_eq`: the word and byte loops of `copy_from_user` copy the bytes in their order.
* `writeLoop_bytes`, `writeLoop_chunks`: **the chunks are the buffer, cut in pieces of at most `TAM_BUFFER`**,
  or the call ends in the page fault that the first byte that is not mapped causes.
* `write_all_iff`: **a request is served as it should be exactly if `access_ok` has not let a buffer
  pass that is not mapped.**
-/

namespace Zeos

open ForLoop

variable {m : Mm} {dir : Slot} {addr buffer fd nbytes : Word} {k : Kernel} {s : Console} {n : ℕ}

/-! ### Words and bytes -/

theorem byteOf_or (v w : Word) (i : ℕ) : Mm.byteOf (v ||| w) i = Mm.byteOf v i ||| Mm.byteOf w i := by
  simp only [Mm.byteOf, BitVec.ushiftRight_or_distrib, BitVec.setWidth_or]

theorem byteOf_shift (b : Byte) {i j : ℕ} (hi : i < 4) (hj : j < 4) :
    Mm.byteOf (b.setWidth 32 <<< (8 * j)) i = if i = j then b else 0 := by
  apply BitVec.eq_of_getLsbD_eq
  intro t ht
  simp only [Mm.byteOf, BitVec.getLsbD_setWidth, BitVec.getLsbD_ushiftRight, BitVec.getLsbD_shiftLeft]
  rcases Nat.lt_trichotomy i j with h | h | h
  · rw [if_neg (by omega), decide_eq_true (show 8 * i + t < 8 * j by omega)]
    simp
  · subst h
    simp only [Nat.add_sub_cancel_left, if_true]
    rw [decide_eq_true ht, decide_eq_true (show 8 * i + t < 32 by omega), decide_eq_true (show t < 32 by omega),
      decide_eq_false (show ¬ 8 * i + t < 8 * i by omega)]
    simp
  · rw [if_neg (by omega), BitVec.getLsbD_of_ge b _ (by omega)]
    simp

/-- The word of four bytes, as `loadWord` puts it together, taken apart again. -/
theorem byteOf_word (b₀ b₁ b₂ b₃ : Byte) : (List.range 4).map (Mm.byteOf (0 ||| b₀.setWidth 32 <<< (8 * 0) |||
    b₁.setWidth 32 <<< (8 * 1) ||| b₂.setWidth 32 <<< (8 * 2) ||| b₃.setWidth 32 <<< (8 * 3))) = [b₀, b₁, b₂, b₃] := by
  have hbyte : ∀ i < 4, Mm.byteOf (0 ||| b₀.setWidth 32 <<< (8 * 0) ||| b₁.setWidth 32 <<< (8 * 1) |||
      b₂.setWidth 32 <<< (8 * 2) ||| b₃.setWidth 32 <<< (8 * 3)) i =
      (if i = 0 then b₀ else 0) ||| (if i = 1 then b₁ else 0) ||| (if i = 2 then b₂ else 0) |||
        if i = 3 then b₃ else 0 := by
    intro i hi
    rw [byteOf_or, byteOf_or, byteOf_or, byteOf_or, byteOf_shift _ hi (by decide), byteOf_shift _ hi (by decide),
      byteOf_shift _ hi (by decide), byteOf_shift _ hi (by decide)]
    simp [Mm.byteOf]
  simp only [List.range, List.range.loop, List.map_cons, List.map_nil]
  rw [hbyte 0 (by decide), hbyte 1 (by decide), hbyte 2 (by decide), hbyte 3 (by decide)]
  simp

theorem loadWord_bytes (m : Mm) (dir : Slot) (addr : Word) :
    (m.loadWord dir addr).map (fun w => (List.range 4).map (Mm.byteOf w)) = m.loadBytes dir addr 4 := by
  have h2 : addr + 1 + 1 = addr + BitVec.ofNat 32 2 := add_succ addr 1
  have h3 : addr + BitVec.ofNat 32 2 + 1 = addr + BitVec.ofNat 32 3 := by
    rw [← h2]
    exact (add_succ (addr + 1) 1).trans (add_succ addr 2)
  simp only [Mm.loadBytes, Mm.loadWord, forRangeM, List.range', List.foldlM_cons, List.foldlM_nil]
  rw [h2, h3]
  simp only [bind, Except.bind, pure, Except.pure, BitVec.add_zero, Nat.zero_add, Nat.reduceAdd]
  cases m.loadByte dir addr with
  | error e => rfl
  | ok b₀ =>
    cases m.loadByte dir (addr + 1) with
    | error e => rfl
    | ok b₁ =>
      cases m.loadByte dir (addr + BitVec.ofNat 32 2) with
      | error e => rfl
      | ok b₂ =>
        cases m.loadByte dir (addr + BitVec.ofNat 32 3) with
        | error e => rfl
        | ok b₃ => exact congrArg Except.ok (byteOf_word b₀ b₁ b₂ b₃)

theorem loadBytes_add (m : Mm) (dir : Slot) (addr : Word) (a b : ℕ) : m.loadBytes dir addr (a + b) = (do
    let xs ← m.loadBytes dir addr a
    let ys ← m.loadBytes dir (addr + BitVec.ofNat 32 a) b
    pure (xs ++ ys)) := by
  induction a generalizing addr with
  | zero =>
    rw [Nat.zero_add, BitVec.add_zero]
    show _ = (m.loadBytes dir addr b).bind fun ys => .ok ([] ++ ys)
    cases m.loadBytes dir addr b <;> rfl
  | succ a ih =>
    rw [Nat.succ_add, Mm.loadBytes, Mm.loadBytes, ih (addr + 1), add_succ]
    cases m.loadByte dir addr with
    | error e => rfl
    | ok x =>
      simp only [bind, Except.bind, pure, Except.pure]
      cases m.loadBytes dir (addr + 1) a with
      | error e => rfl
      | ok xs => cases m.loadBytes dir (addr + BitVec.ofNat 32 (a + 1)) b <;> rfl

/-- **`copy_from_user`** copies the bytes in their order. -/
theorem copyFromUserLoops_eq (m : Mm) (dir : Slot) (start : Word) (size : ℕ) :
    copyFromUserLoops m dir start size = copyFromUser m dir start size := by
  induction size using Nat.strong_induction_on generalizing start with
  | _ size ih =>
    rw [copyFromUserLoops]
    split
    · rename_i h
      have hrest := ih (size - 4) (by omega) (start + 4)
      have hsplit := loadBytes_add m dir start 4 (size - 4)
      rw [show 4 + (size - 4) = size by omega, ← loadWord_bytes] at hsplit
      rw [hrest, copyFromUser, copyFromUser, hsplit, show start + BitVec.ofNat 32 4 = start + 4 from rfl]
      cases m.loadWord dir start <;> rfl
    · rfl

theorem loadBytes_iff : (∃ bs, m.loadBytes dir addr n = .ok bs) ↔ BytesMapped m dir addr n := by
  induction n generalizing addr with
  | zero => exact iff_of_true ⟨[], rfl⟩ fun i hi => absurd hi (Nat.not_lt_zero i)
  | succ n ih =>
    constructor
    · rintro ⟨bs, h⟩ i hi
      obtain ⟨b, hb, h⟩ := bind_ok.1 h
      obtain ⟨bs', hbs, -⟩ := bind_ok.1 h
      cases i with
      | zero =>
        rw [BitVec.add_zero]
        exact translate_iff.1 (loadByte_iff.1 ⟨b, hb⟩)
      | succ i =>
        rw [← add_succ]
        exact ih.1 ⟨bs', hbs⟩ i (by omega)
    · intro h
      obtain ⟨f, hf⟩ := h.first
      obtain ⟨bs, hbs⟩ := ih.2 h.tail
      exact ⟨_, bind_ok.2 ⟨_, bind_ok.2 ⟨_, hf, rfl⟩, bind_ok.2 ⟨bs, hbs, rfl⟩⟩⟩

/-- The bytes loaded, one by one. -/
theorem loadBytes_get {bs : List Byte} (h : m.loadBytes dir addr n = .ok bs) : bs.length = n ∧
    ∀ i (hi : i < bs.length), m.loadByte dir (addr + BitVec.ofNat 32 i) = .ok bs[i] := by
  induction n generalizing addr bs with
  | zero =>
    cases h
    exact ⟨rfl, fun i hi => absurd hi (Nat.not_lt_zero i)⟩
  | succ n ih =>
    obtain ⟨b, hb, h⟩ := bind_ok.1 h
    obtain ⟨bs', hbs, h⟩ := bind_ok.1 h
    cases h
    obtain ⟨hlen, hget⟩ := ih hbs
    refine ⟨congrArg Nat.succ hlen, fun i hi => ?_⟩
    cases i with
    | zero =>
      rw [BitVec.add_zero]
      exact hb
    | succ i =>
      rw [← add_succ]
      exact hget i (by simpa using hi)

/-! ### The loop -/

/-- **The chunks are the bytes of the buffer**, faults included. -/
theorem writeLoop_bytes (m : Mm) (dir : Slot) (s : Console) (buffer : Word) (n : ℕ) :
    (writeLoop m dir s buffer n).map (fun w => w.chunks.flatten) = m.loadBytes dir buffer n := by
  induction n using Nat.strong_induction_on generalizing buffer s with
  | _ n ih =>
    rw [writeLoop]
    split
    · rename_i h
      have hrest := fun s => ih (n - tamBuffer) (by simp only [tamBuffer] at h ⊢; omega) s
        (buffer + BitVec.ofNat 32 tamBuffer)
      have hsplit := loadBytes_add m dir buffer tamBuffer (n - tamBuffer)
      rw [show tamBuffer + (n - tamBuffer) = n by omega] at hsplit
      rw [hsplit, copyFromUserLoops_eq]
      show ((m.loadBytes dir buffer tamBuffer).bind _).map _ = (m.loadBytes dir buffer tamBuffer).bind _
      cases m.loadBytes dir buffer tamBuffer with
      | error e => rfl
      | ok xs =>
        simp only [bind, Except.bind]
        rw [← hrest (sysWriteConsole s xs)]
        cases writeLoop m dir (sysWriteConsole s xs) (buffer + BitVec.ofNat 32 tamBuffer) (n - tamBuffer) <;> rfl
    · split
      · rw [copyFromUserLoops_eq]
        show ((m.loadBytes dir buffer n).bind _).map _ = _
        cases m.loadBytes dir buffer n with
        | error e => rfl
        | ok xs => exact congrArg Except.ok (by simp)
      · rename_i h
        obtain rfl : n = 0 := by omega
        rfl

/-- No chunk is longer than `localbuffer`, nothing is left, and the chunks are what is printed. -/
theorem writeLoop_chunks {w : Written} (h : writeLoop m dir s buffer n = .ok w) :
    (∀ c ∈ w.chunks, c.length ≤ tamBuffer) ∧ w.bytesLeft = 0 ∧ w.console = w.chunks.foldl sysWriteConsole s := by
  induction n using Nat.strong_induction_on generalizing buffer s w with
  | _ n ih =>
    rw [writeLoop] at h
    split at h
    · rename_i hn
      obtain ⟨xs, hxs, h⟩ := bind_ok.1 h
      obtain ⟨w', hw', h⟩ := bind_ok.1 h
      rw [copyFromUserLoops_eq] at hxs
      cases h
      obtain ⟨hc, hl⟩ := ih _ (by simp only [tamBuffer] at hn ⊢; omega) hw'
      refine ⟨fun c hcm => ?_, hl.1, hl.2⟩
      rcases List.mem_cons.1 hcm with rfl | hcm
      · exact (loadBytes_get hxs).1.le
      · exact hc c hcm
    · split at h
      · obtain ⟨xs, hxs, h⟩ := bind_ok.1 h
        rw [copyFromUserLoops_eq] at hxs
        cases h
        refine ⟨fun c hcm => ?_, Nat.sub_self n, rfl⟩
        rw [List.mem_singleton.1 hcm, (loadBytes_get hxs).1]
        omega
      · cases h
        exact ⟨fun c hcm => by simp at hcm, by show n = 0; omega, rfl⟩

/-! ### The call -/

/-- The tests of `sys_write`. -/
def Accepted (fd buffer nbytes : Word) : Prop :=
  fd = 1 ∧ 0 ≤ nbytes.toInt ∧ accessOk verifyRead buffer nbytes = true

theorem sysWrite_accepted (h : Accepted fd buffer nbytes) : sysWrite k fd buffer nbytes =
    (writeLoop k.mm k.cr3 k.console buffer nbytes.toNat).map fun w =>
      (nbytes - BitVec.ofNat 32 w.bytesLeft, { k with console := w.console }) := by
  obtain ⟨rfl, h1, h2⟩ := h
  unfold sysWrite
  rw [if_neg (by decide), if_neg (by omega), if_neg (by rw [h2]; decide)]
  cases writeLoop k.mm k.cr3 k.console buffer nbytes.toNat <;> rfl

/-- A request that is refused prints nothing and returns an error. -/
theorem sysWrite_refused (h : ¬ Accepted fd buffer nbytes) :
    ∃ e : Word, sysWrite k fd buffer nbytes = .ok (e, k) ∧ e.toInt < 0 := by
  unfold sysWrite
  split
  · rename_i hfd
    refine ⟨_, rfl, ?_⟩
    unfold checkFd at hfd ⊢
    split at hfd
    · rename_i hne
      rw [if_pos hne]
      decide
    · exact absurd (if_neg (by decide)) hfd
  · rename_i hfd
    have hfd' : fd = 1 := by
      by_contra hne
      exact hfd (by rw [checkFd, if_pos hne]; decide)
    split
    · exact ⟨_, rfl, by decide⟩
    · split
      · exact ⟨_, rfl, by decide⟩
      · rename_i hn ha
        exact absurd ⟨hfd', by omega, Bool.not_eq_false _ ▸ ha⟩ h

/-- The request is served: every byte of the buffer is given to `printc`, in order and once, through a
`localbuffer` that is never overrun, and `nbytes` is returned. -/
def Served (k : Kernel) (fd buffer nbytes : Word) : Prop :=
  ∃ w bs, writeLoop k.mm k.cr3 k.console buffer nbytes.toNat = .ok w ∧ (∀ c ∈ w.chunks, c.length ≤ tamBuffer) ∧
    w.chunks.flatten = bs ∧ bs.length = nbytes.toNat ∧
    (∀ i (hi : i < bs.length), k.mm.loadByte k.cr3 (buffer + BitVec.ofNat 32 i) = .ok bs[i]) ∧
    sysWrite k fd buffer nbytes = .ok (nbytes, { k with console := bs.foldl Console.printc k.console })

theorem served_iff (h : Accepted fd buffer nbytes) :
    Served k fd buffer nbytes ↔ BytesMapped k.mm k.cr3 buffer nbytes.toNat := by
  have hbytes := writeLoop_bytes k.mm k.cr3 k.console buffer nbytes.toNat
  rw [← loadBytes_iff]
  constructor
  · rintro ⟨w, bs, hw, -⟩
    rw [hw] at hbytes
    exact ⟨_, hbytes.symm⟩
  · rintro ⟨bs, hbs⟩
    rw [hbs] at hbytes
    cases hw : writeLoop k.mm k.cr3 k.console buffer nbytes.toNat with
    | error e =>
      rw [hw] at hbytes
      cases hbytes
    | ok w =>
      rw [hw] at hbytes
      obtain ⟨hc, hl, hprinted⟩ := writeLoop_chunks hw
      obtain ⟨hlen, hget⟩ := loadBytes_get hbs
      have hflat : w.chunks.flatten = bs := Except.ok.inj hbytes
      refine ⟨w, bs, hw, hc, hflat, hlen, hget, ?_⟩
      have hprint : w.console = bs.foldl Console.printc k.console := by
        rw [hprinted, ← hflat, List.foldl_flatten]
        rfl
      rw [sysWrite_accepted h, hw]
      show Except.ok (nbytes - BitVec.ofNat 32 w.bytesLeft, _) = _
      rw [hl, BitVec.sub_zero, hprint]

/-- **`sys_write`** serves the requests that it accepts and refuses the others, exactly if no
buffer that it accepts has a byte on a page that is not present. -/
theorem write_all_iff (k : Kernel) (fd buffer nbytes : Word) :
    ((Accepted fd buffer nbytes → Served k fd buffer nbytes) ∧
      (¬ Accepted fd buffer nbytes → ∃ e : Word, sysWrite k fd buffer nbytes = .ok (e, k) ∧ e.toInt < 0)) ↔
    (Accepted fd buffer nbytes → BytesMapped k.mm k.cr3 buffer nbytes.toNat) := by
  constructor
  · rintro ⟨h, -⟩ ha
    exact (served_iff ha).1 (h ha)
  · intro h
    exact ⟨fun ha => (served_iff ha).2 (h ha), sysWrite_refused⟩

/-- A request that does not come back: `access_ok` takes the page behind the data pages for one of them, and
at the start nothing is mapped there. -/
theorem write_unmapped : ∃ k, KRun aMachine [] k ∧ Accepted 1 0x11C000 1 ∧ ¬ Served k 1 0x11C000 1 ∧
    sysWrite k 1 0x11C000 1 = .error (.page 0x11C000) := by
  obtain ⟨k, hr, hW⟩ := boot_run aMachine
  have hpage : k.mm.pagusrTable (k.mm.dirPages k.cr3) heapStart = {} := by
    rw [hW.dirs, hW.cr3, hW.table, id, boot_tab]
    show bootTable aMachine.layout 1 heapStart = {}
    exact bootTable_heap le_rfl aMachine.layout
  have hacc : Accepted 1 0x11C000 1 := ⟨rfl, by decide, by decide⟩
  have hload : k.mm.loadBytes k.cr3 0x11C000 1 = .error (.page 0x11C000) := by
    have htr : k.mm.translate k.cr3 0x11C000 = .error (.page 0x11C000) := by
      simp only [Mm.translate, show (0x11C000 : Word).toNat / pageSize = heapStart from rfl]
      rw [hpage]
      rfl
    simp only [Mm.loadBytes, Mm.loadByte, htr]
    rfl
  refine ⟨k, hr, hacc, fun hS => ?_, ?_⟩
  · obtain ⟨bs, hbs⟩ := loadBytes_iff.2 ((served_iff hacc).1 hS)
    cases hload.symm.trans hbs
  · have hbytes := writeLoop_bytes k.mm k.cr3 k.console 0x11C000 (1 : Word).toNat
    rw [sysWrite_accepted hacc]
    cases hw : writeLoop k.mm k.cr3 k.console 0x11C000 (1 : Word).toNat with
    | error e =>
      rw [hw] at hbytes
      cases hbytes.trans hload
      rfl
    | ok w =>
      rw [hw] at hbytes
      cases hbytes.trans hload

end Zeos
