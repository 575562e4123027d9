import Zeos.Bootsect
import Zeos.Lib.While

/-!
# The boot sector reads the image

* `At`: where the loader is once it has read some sectors; `At.chunk`, `At.request`, `At.ok2Read` are one round.
* `readIt_halts`: **the reads come to an end**, with whole segments in memory.
* `bootsect_loads`: **an image of less than 512 kB is all read**, and each read is one that the BIOS can do.
* `stays_below_iff`: a larger one comes over the boot sector itself.

`Loaded.next` holds below the boot sector only: above, a read overwrites the variables that the round goes on with.
-/

namespace Zeos

namespace Bootsect

open Disk ByteMem WhileLoop

variable {bios : Request → Bytes → Bytes} {disk m m' : Bytes} {V : Vars} {c c' : Loader} {k n a b i : ℕ} {ax w : Short}

/-! ### Words -/

theorem short_low (m : Bytes) (a : ℕ) : (short m a).extractLsb' 0 8 = m a :=
  (BitVec.extractLsb'_append_eq_of_add_le (by decide)).trans BitVec.extractLsb'_eq_self

theorem short_high (m : Bytes) (a : ℕ) : (short m a).extractLsb' 8 8 = m (a + 1) :=
  (BitVec.extractLsb'_append_eq_of_le (by decide)).trans BitVec.extractLsb'_eq_self

theorem setShort_off (h : b < a ∨ a + 2 ≤ b) : setShort m a w b = m b := by
  unfold setShort
  rw [Function.update_of_ne (by omega), Function.update_of_ne (by omega)]

theorem short_setShort (m : Bytes) (a : ℕ) (w : Short) : short (setShort m a w) a = w := by
  have hhigh : setShort m a w (a + 1) = w.extractLsb' 8 8 := Function.update_self ..
  have hlow : setShort m a w a = w.extractLsb' 0 8 :=
    (Function.update_of_ne (by omega) _ _).trans (Function.update_self ..)
  rw [short, hhigh, hlow]
  exact (BitVec.extractLsb'_append_extractLsb'_eq_extractLsb' rfl).trans BitVec.extractLsb'_eq_self

theorem short_congr (h : ∀ i < 2, m (a + i) = m' (a + i)) : short m a = short m' a := by
  rw [short, short, h 1 (by decide)]
  exact congrArg (m' (a + 1) ++ ·) (h 0 (by decide))

theorem short_setShort_off (h : a + 2 ≤ b ∨ b + 2 ≤ a) : short (setShort m a w) b = short m b :=
  short_congr fun i hi => setShort_off (by omega)

/-! ### One round -/

/-- The first `k` sectors behind the boot sector have been read. -/
structure At (V : Vars) (k : ℕ) (c : Loader) : Prop where
  es : c.es.toNat = 0x1000 * (1 + k / 128)
  bx : c.bx.toNat = 512 * (k % 128)
  place : (⟨(c.track V).toNat, (c.head V).toNat, (c.sread V).toNat⟩ : Chs) = floppy.chs (k + 1)

/-- The rest of the track or the rest of the segment, whichever is less. -/
def chunkSize (k : ℕ) : ℕ := min (18 - (k + 1) % 18) (128 - k % 128)

theorem At.sread (h : At V k c) : (c.sread V).toNat = (k + 1) % 18 := congrArg Chs.sector h.place

theorem At.head (h : At V k c) : (c.head V).toNat = (k + 1) / 18 % 2 := congrArg Chs.head h.place

theorem At.track (h : At V k c) : (c.track V).toNat = (k + 1) / 18 / 2 := congrArg Chs.cylinder h.place

theorem shl_toNat {w : Short} (h : w.toNat < 128) : (w <<< 9).toNat = 512 * w.toNat := by
  rw [BitVec.toNat_shiftLeft, Nat.shiftLeft_eq]
  omega

theorem At.chunk (h : At V k c) : (chunk V c).toNat = chunkSize k := by
  have hs := h.sread
  have hb := h.bx
  have hax : (sectors - c.sread V).toNat = 18 - (k + 1) % 18 := by
    have hsectors : sectors.toNat = 18 := rfl
    rw [BitVec.toNat_sub, hsectors, hs]
    omega
  have hcx : ((sectors - c.sread V) <<< 9).toNat = 512 * (18 - (k + 1) % 18) := by
    rw [shl_toNat (by omega), hax]
  have hzero : (sectors - c.sread V) <<< 9 + c.bx = 0 ↔ (18 - (k + 1) % 18) + k % 128 = 128 := by
    rw [← BitVec.toNat_inj, BitVec.toNat_add, hcx, hb]
    change _ % 2 ^ 16 = 0 ↔ _
    omega
  unfold Bootsect.chunk chunkSize
  simp only [hcx, hb, hzero]
  split
  · rw [hax]
    omega
  · rw [BitVec.toNat_ushiftRight, Nat.shiftRight_eq_div_pow, BitVec.toNat_sub, hb]
    change (2 ^ 16 - _ + 0) % 2 ^ 16 / 2 ^ 9 = _
    omega

theorem chunkSize_pos (k : ℕ) : 0 < chunkSize k := by
  unfold chunkSize
  omega

theorem nextTrack_full (h : ax + c.sread V = sectors) : (nextTrack V c ax).sread V = 0 ∧
    (nextTrack V c ax).head V = 1 - c.head V ∧
    (nextTrack V c ax).track V = if 1 - c.head V = 0 then c.track V + 1 else c.track V := by
  simp only [nextTrack, if_pos h]
  refine ⟨short_setShort .., ?_, ?_⟩
  · exact (short_setShort_off (.inl le_rfl)).trans (short_setShort ..)
  · refine (short_setShort_off (.inl (Nat.le_add_right (V.sread + 2) 2))).trans ((short_setShort_off (.inl le_rfl)).trans ?_)
    split
    · exact short_setShort ..
    · rfl

theorem nextTrack_part (h : ¬ ax + c.sread V = sectors) : (nextTrack V c ax).sread V = ax + c.sread V ∧
    (nextTrack V c ax).head V = c.head V ∧ (nextTrack V c ax).track V = c.track V := by
  rw [nextTrack, if_neg h]
  exact ⟨short_setShort .., short_setShort_off (.inl le_rfl),
    short_setShort_off (.inl (Nat.le_add_right (V.sread + 2) 2))⟩

theorem nextTrack_keeps (V : Vars) (c : Loader) (ax : Short) : (nextTrack V c ax).es = c.es ∧
    (nextTrack V c ax).bx = c.bx ∧ (nextTrack V c ax).asked = c.asked := by
  unfold nextTrack
  simp only []
  split
  · split <;> exact ⟨rfl, rfl, rfl⟩
  · exact ⟨rfl, rfl, rfl⟩

/-- It stores to its variables only. -/
theorem nextTrack_mem (h : a < V.sread ∨ V.sread + 6 ≤ a) : (nextTrack V c ax).mem a = c.mem a := by
  have hoff : ∀ (c : Loader) (b : ℕ) (w : Short), V.sread ≤ b → b ≤ V.sread + 4 → (c.store b w).mem a = c.mem a :=
    fun c b w hlo hhi => setShort_off (by omega)
  have hhead : V.sread ≤ V.head ∧ V.head ≤ V.sread + 4 := ⟨Nat.le_add_right _ _, Nat.add_le_add_left (by decide) _⟩
  unfold nextTrack
  simp only []
  split
  · rw [hoff _ _ _ le_rfl (Nat.le_add_right _ _), hoff _ _ _ hhead.1 hhead.2]
    split
    · exact hoff _ _ _ (Nat.le_add_right _ _) le_rfl
    · rfl
  · exact hoff _ _ _ le_rfl (Nat.le_add_right _ _)

theorem ok3Read_keeps (c : Loader) (cx : Short) : (ok3Read c cx).mem = c.mem ∧ (ok3Read c cx).asked = c.asked := by
  unfold ok3Read
  simp only []
  split <;> exact ⟨rfl, rfl⟩

theorem ok2Read_mem (h : a < V.sread ∨ V.sread + 6 ≤ a) :
    (ok2Read bios V c ax).mem a = bios (request V c ax) c.mem a :=
  (congrFun (ok3Read_keeps _ _).1 a).trans (nextTrack_mem h)

theorem ok2Read_asked : (ok2Read bios V c ax).asked = c.asked ++ [request V c ax] :=
  (ok3Read_keeps _ _).2.trans (nextTrack_keeps V _ _).2.2

/-- The place that the sectors read lead to. -/
theorem nextTrack_place (hs : (c.sread V).toNat + ax.toNat ≤ 18) (hh : (c.head V).toNat < 2)
    (ht : (c.track V).toNat < 1000) :
    (⟨((nextTrack V c ax).track V).toNat, ((nextTrack V c ax).head V).toNat, ((nextTrack V c ax).sread V).toNat⟩ : Chs) =
      floppy.advance ⟨(c.track V).toNat, (c.head V).toNat, (c.sread V).toNat⟩ ax.toNat := by
  have hfull : ax + c.sread V = sectors ↔ (c.sread V).toNat + ax.toNat = 18 := by
    have hsectors : sectors.toNat = 18 := rfl
    rw [← BitVec.toNat_inj, BitVec.toNat_add, hsectors]
    omega
  have hhead : (1 - c.head V).toNat = 1 - (c.head V).toNat := by
    rw [BitVec.toNat_sub]
    change (2 ^ 16 - _ + 1) % 2 ^ 16 = _
    omega
  have hlast : 1 - c.head V = 0 ↔ (c.head V).toNat + 1 = 2 := by
    rw [← BitVec.toNat_inj, hhead]
    change _ = 0 ↔ _
    omega
  unfold Geometry.advance
  by_cases h : (c.sread V).toNat + ax.toNat = 18
  · obtain ⟨h1, h2, h3⟩ := nextTrack_full (hfull.2 h)
    rw [h1, h2, h3, if_pos (show _ = floppy.sectors from h)]
    by_cases h' : (c.head V).toNat + 1 = 2
    · have hnext : (c.track V + 1).toNat = (c.track V).toNat + 1 := by
        rw [BitVec.toNat_add]
        change (_ + 1) % 2 ^ 16 = _
        omega
      simp only [hlast.2 h', if_true, hnext]
      rw [if_pos (show _ = floppy.heads from h')]
      rfl
    · have hnot : ¬ 1 - c.head V = 0 := fun h0 => h' (hlast.1 h0)
      simp only [hnot, if_false, hhead]
      rw [if_neg (show ¬ _ = floppy.heads from h')]
      exact Chs.ext rfl (by change 1 - _ = _ + 1; omega) rfl
  · obtain ⟨h1, h2, h3⟩ := nextTrack_part fun h0 => h (hfull.1 h0)
    rw [h1, h2, h3, if_neg (show ¬ _ = floppy.sectors from h)]
    refine Chs.ext rfl rfl ?_
    change (ax + c.sread V).toNat = (c.sread V).toNat + ax.toNat
    rw [BitVec.toNat_add]
    omega

/-- The address that they lead to. -/
theorem ok3Read_dest {cx : Short} (hes : c.es.toNat = 0x1000 * (1 + k / 128)) (hbx : c.bx.toNat = 512 * (k % 128))
    (hk : k / 128 < 14) (hn : cx.toNat < 128) (hcx : cx.toNat + k % 128 ≤ 128) :
    (ok3Read c cx).es.toNat = 0x1000 * (1 + (k + cx.toNat) / 128) ∧
      (ok3Read c cx).bx.toNat = 512 * ((k + cx.toNat) % 128) := by
  have hlt : (cx <<< 9).toNat = 512 * cx.toNat := shl_toNat hn
  unfold ok3Read
  simp only [hlt, hbx]
  split
  · have hsum : (c.bx + cx <<< 9).toNat = 512 * ((k + cx.toNat) % 128) := by
      rw [BitVec.toNat_add, hlt, hbx]
      omega
    refine ⟨?_, hsum⟩
    change c.es.toNat = _
    rw [hes]
    omega
  · have hsegment : (c.es + 0x1000).toNat = 0x1000 * (1 + (k + cx.toNat) / 128) := by
      rw [BitVec.toNat_add, hes]
      change (_ + 4096) % _ = _
      omega
    refine ⟨hsegment, ?_⟩
    change 0 = _
    omega

/-- What a round asks for: the next sectors of the disk, for the next bytes of memory. -/
theorem At.request (h : At V k c) (hk : k / 128 < 14) (hax : ax.toNat = chunkSize k) :
    (request V c ax).Valid ∧ (request V c ax).al.toNat = chunkSize k ∧ (request V c ax).place = floppy.chs (k + 1) ∧
      (request V c ax).dest = linear sysseg 0 + 512 * k := by
  have hs := h.sread
  have hh := h.head
  have ht := h.track
  have hsize : chunkSize k ≤ 18 - (k + 1) % 18 ∧ chunkSize k ≤ 128 - k % 128 := ⟨min_le_left _ _, min_le_right _ _⟩
  have hal : (Bootsect.request V c ax).al.toNat = chunkSize k := by
    change (ax.setWidth 8).toNat = _
    rw [BitVec.toNat_setWidth, hax]
    omega
  have hch : (Bootsect.request V c ax).ch.toNat = (c.track V).toNat := by
    change ((c.track V).setWidth 8).toNat = _
    rw [BitVec.toNat_setWidth]
    omega
  have hcl : (Bootsect.request V c ax).cl.toNat = (c.sread V).toNat + 1 := by
    change ((c.sread V + 1).setWidth 8).toNat = _
    rw [BitVec.toNat_setWidth, BitVec.toNat_add]
    change (_ + 1) % _ % _ = _
    omega
  have hdh : (Bootsect.request V c ax).dh.toNat = (c.head V).toNat := by
    change ((c.head V).setWidth 8 &&& 1).toNat = _
    rw [BitVec.toNat_and, BitVec.toNat_setWidth]
    change _ &&& 1 = _
    rw [Nat.and_one_is_mod]
    omega
  have hcylinder : (Bootsect.request V c ax).cylinder = (c.track V).toNat := by
    rw [Request.cylinder, hch, hcl]
    omega
  have hsector : (Bootsect.request V c ax).sector = (c.sread V).toNat + 1 := by
    rw [Request.sector, hcl]
    omega
  refine ⟨⟨rfl, ?_, ?_, ?_, ?_, ?_, ?_⟩, hal, ?_, ?_⟩
  · rw [hal]
    exact chunkSize_pos k
  · rw [hcylinder]
    omega
  · rw [hdh, hh]
    exact Nat.mod_lt _ (by decide)
  · rw [hsector]
    omega
  · rw [hsector, hal, hs]
    change _ ≤ 18
    omega
  · change c.bx.toNat + _ ≤ _
    rw [hal, h.bx]
    omega
  · rw [← h.place]
    exact Chs.ext hcylinder hdh (by change (Bootsect.request V c ax).sector - 1 = _; rw [hsector]; rfl)
  · change c.es.toNat * 16 + c.bx.toNat = _
    rw [h.es, h.bx]
    change _ = 0x1000 * 16 + 0 + _
    omega

/-- The sector that has been moved is left alone by a read that stays below it. -/
theorem At.read_above (hbios : Reads bios disk) (h : At V k c) (hk : k < 1024) (hax : ax.toNat = chunkSize k)
    (hlo : linear initseg 0 ≤ a) (hhi : a < linear initseg 512) : bios (Bootsect.request V c ax) c.mem a = c.mem a := by
  obtain ⟨hvalid, hal, -, hdest⟩ := h.request (by omega) hax
  have hbase : linear sysseg 0 = 0x10000 := rfl
  have hmoved : linear initseg 0 = 0x90000 := rfl
  have hchunk : chunkSize k ≤ 128 - k % 128 := min_le_right _ _
  rw [hbios _ c.mem hvalid a (by omega) hhi, if_neg (by rw [hal, hdest]; omega)]

/-- A round goes on by as many sectors as it asks for. -/
theorem At.ok2Read (hbios : Reads bios disk) (h : At V k c) (hk : k < 1024) (hax : ax.toNat = chunkSize k) :
    At V (k + chunkSize k) (ok2Read bios V c ax) := by
  have hs := h.sread
  have hinside : ax.toNat + k % 128 ≤ 128 := by
    rw [hax, chunkSize]
    omega
  have hsize : ax.toNat ≤ 18 := by
    rw [hax, chunkSize]
    omega
  let c₁ := readTrack bios V c ax
  -- the read leaves the variables alone
  have hvar : ∀ d ≤ 4, short c₁.mem (V.sread + d) = short c.mem (V.sread + d) := fun d hd =>
    short_congr fun i hi => by
      have hgdt := V.before_gdt
      have hend : linear initseg 512 = linear initseg 0 + 512 := rfl
      refine h.read_above hbios hk hax ?_ ?_
      · rw [Vars.sread, Nat.add_assoc, Nat.add_assoc]
        exact Nat.le_add_right _ _
      · rw [Vars.sread, hend]
        omega
  have hsread : c₁.sread V = c.sread V := hvar 0 (by decide)
  have hhead : c₁.head V = c.head V := hvar 2 (by decide)
  have htrack : c₁.track V = c.track V := hvar 4 (by decide)
  have hkeeps := nextTrack_keeps V c₁ ax
  have hdest := @ok3Read_dest (nextTrack V c₁ ax) k ax (by rw [hkeeps.1]; exact h.es)
    (by rw [hkeeps.2.1]; exact h.bx) (by omega) (by omega) hinside
  have hmem : (Bootsect.ok2Read bios V c ax).mem = (nextTrack V c₁ ax).mem := (ok3Read_keeps _ _).1
  have hfit : (c₁.sread V).toNat + ax.toNat ≤ 18 := by
    rw [hsread, hax, hs, chunkSize]
    omega
  have hplace := @nextTrack_place V c₁ ax hfit (by rw [hhead, h.head]; omega) (by rw [htrack, h.track]; omega)
  refine ⟨hax ▸ hdest.1, hax ▸ hdest.2, ?_⟩
  calc (⟨((Bootsect.ok2Read bios V c ax).track V).toNat, ((Bootsect.ok2Read bios V c ax).head V).toNat,
        ((Bootsect.ok2Read bios V c ax).sread V).toNat⟩ : Chs)
      = ⟨((nextTrack V c₁ ax).track V).toNat, ((nextTrack V c₁ ax).head V).toNat,
          ((nextTrack V c₁ ax).sread V).toNat⟩ := by
        rw [Loader.track, Loader.head, Loader.sread, hmem]
        rfl
    _ = floppy.advance (floppy.chs (k + 1)) ax.toNat := by
        rw [hplace, hsread, hhead, htrack, h.place]
    _ = floppy.chs (k + chunkSize k + 1) := by
        rw [advance_chs, hax, Nat.add_right_comm]
        rw [← h.place, ← hsread]
        exact hfit

/-! ### All rounds -/

/-- The sector has been moved, with the variables as they are assembled. -/
structure Started (V : Vars) (m : Bytes) : Prop where
  setup : setupSects m = setupsecs
  zero : ∀ i < 6, m (V.sread + i) = 0

/-- `k` sectors have been read, and nothing else has been done. `m` is the memory before. -/
structure Loaded (V : Vars) (disk m : Bytes) (k : ℕ) (c : Loader) : Prop where
  pos : At V k c
  mem : Blit (linear sysseg 0) (linear initseg 0) disk 512 (linear sysseg 0) (512 * k) m c.mem
  sector : ∀ i < 512, V.Off i → c.mem (linear initseg 0 + i) = m (linear initseg 0 + i)
  asked : ∀ r ∈ c.asked, r.Valid ∧ r.dest + 512 * r.al.toNat ≤ linear sysseg 0 + 512 * k

theorem Loaded.start (hm : Started V m) : Loaded V disk m 0 (readIt V m) := by
  have hoff : ∀ a, a ≠ V.sread → (readIt V m).mem a = m a := fun a ha => Function.update_of_ne ha _ _
  have hword : ∀ d, 0 < d → d ≤ 4 → short (readIt V m).mem (V.sread + d) = 0 := fun d hpos hd => by
    rw [short, hoff _ (by omega), hoff _ (by omega), Nat.add_assoc, hm.zero (d + 1) (by omega), hm.zero d (by omega)]
    rfl
  have hsread : (readIt V m).sread V = 1 := by
    have hlow : (readIt V m).mem V.sread = setupSects m + 1 := Function.update_self ..
    rw [Loader.sread, short, hoff _ (by omega), hm.zero 1 (by decide), hlow, hm.setup]
    rfl
  have hhead : (readIt V m).head V = 0 := hword 2 (by decide) (by decide)
  have htrack : (readIt V m).track V = 0 := hword 4 (by decide) (by decide)
  refine ⟨⟨rfl, rfl, ?_⟩, fun a _ ha => ?_, fun i _ hi => ?_, nofun⟩
  · rw [hsread, hhead, htrack]
    rfl
  · rw [if_neg (by omega), hoff]
    exact Nat.ne_of_lt (lt_of_lt_of_le ha (Nat.le_add_right _ _))
  · refine hoff _ ?_
    unfold Vars.sread
    rcases hi with hi | hi <;> omega

/-- A byte of the sector besides the variables. -/
theorem Vars.Off.apart (h : V.Off i) : linear initseg 0 + i < V.sread ∨ V.sread + 6 ≤ linear initseg 0 + i := by
  unfold Vars.sread
  rcases h with h | h <;> omega

theorem Loaded.next (hbios : Reads bios disk) (h : Loaded V disk m k c) (hk : k < 1024) :
    Loaded V disk m (k + chunkSize k) (ok2Read bios V c (chunk V c)) := by
  obtain ⟨hvalid, hal, hplace, hdest⟩ := h.pos.request (by omega) h.pos.chunk
  have hend : linear initseg 512 = linear initseg 0 + 512 := rfl
  refine ⟨h.pos.ok2Read hbios hk h.pos.chunk, ?_, fun i hi hoff => ?_, ?_⟩
  · have hread : Blit (linear sysseg 0) (linear initseg 0) disk (512 + 512 * k) (linear sysseg 0 + 512 * k)
        (512 * chunkSize k) c.mem (ok2Read bios V c (chunk V c)).mem := fun a hlo hhi => by
      have hread := hbios (request V c (chunk V c)) c.mem hvalid a hlo (by omega)
      rw [hal, hplace, hdest, lba_chs, Nat.mul_succ, Nat.add_comm (512 * k)] at hread
      rw [ok2Read_mem (.inl (lt_of_lt_of_le hhi (Nat.le_add_right _ _))), hread]
    rw [Nat.mul_add]
    exact h.mem.append hread
  · rw [ok2Read_mem hoff.apart, h.pos.read_above hbios hk h.pos.chunk (Nat.le_add_right _ _) (by omega)]
    exact h.sector i hi hoff
  · intro r hr
    rw [ok2Read_asked, List.mem_append, List.mem_singleton] at hr
    rcases hr with hr | rfl
    · obtain ⟨hv, hle⟩ := h.asked r hr
      exact ⟨hv, by omega⟩
    · exact ⟨hvalid, by rw [hal, hdest]; omega⟩

theorem Loaded.syssize (h : Loaded V disk m k c) : syssize c.mem = syssize m := by
  have hgdt := V.before_gdt
  have hfield : linear initseg 500 = linear initseg 0 + 500 := rfl
  refine short_congr fun i hi => ?_
  rw [hfield, Nat.add_assoc]
  exact h.sector (500 + i) (by omega) (.inr (by omega))

/-- The loop goes on while the segment that `es` is at holds some of the image. -/
theorem Loaded.round (h : Loaded V disk m k c) (hk : k ≤ 1024) :
    rpRead bios V c =
      if 0x1000 * (k / 128) ≤ (Bootsect.syssize m).toNat then some (ok2Read bios V c (chunk V c)) else none := by
  have hes : (c.es - sysseg).toNat = 0x1000 * (k / 128) := by
    have hsys : sysseg.toNat = 0x1000 := rfl
    rw [BitVec.toNat_sub, hsys, h.pos.es]
    omega
  rw [rpRead, h.syssize]
  exact if_congr (by rw [BitVec.le_def, hes]) rfl rfl

/-- Where the next sector goes. -/
theorem At.linear (h : At V k c) : linear c.es c.bx = Bootsect.linear sysseg 0 + 512 * k := by
  unfold Bootsect.linear
  rw [h.es, h.bx]
  change _ = 0x1000 * 16 + 0 + _
  omega

/-- The sectors that come into the segments that hold the image. -/
def wholeSegments (m : Bytes) : ℕ := 128 * ((Bootsect.syssize m).toNat / 0x1000 + 1)

theorem wholeSegments_le (hsize : (Bootsect.syssize m).toNat < 0x8000) : wholeSegments m ≤ 1024 := by
  unfold wholeSegments
  omega

theorem Loaded.more (hbios : Reads bios disk) (hsize : (Bootsect.syssize m).toNat < 0x8000) (h : Loaded V disk m k c)
    (hk : k ≤ wholeSegments m) (hc : rpRead bios V c = some c') :
    ∃ k', k < k' ∧ k' ≤ wholeSegments m ∧ Loaded V disk m k' c' := by
  have hlast := wholeSegments_le hsize
  rw [h.round (by omega)] at hc
  split at hc
  · obtain rfl := Option.some.inj hc
    have hchunk : chunkSize k ≤ 128 - k % 128 := min_le_right _ _
    have hpos := chunkSize_pos k
    unfold wholeSegments at *
    exact ⟨k + chunkSize k, by omega, by omega, h.next hbios (by omega)⟩
  · cases hc

/-- **`read_it` ends with the whole image in memory**, if this stays below the boot sector that has been moved. -/
theorem readIt_halts (hbios : Reads bios disk) (hm : Started V m) (hsize : (Bootsect.syssize m).toNat < 0x8000) :
    ∃ c, Halts (rpRead bios V) (readIt V m) c ∧ Loaded V disk m (wholeSegments m) c := by
  have hlast := wholeSegments_le hsize
  have hround : ∀ c c', (∃ k ≤ wholeSegments m, Loaded V disk m k c) → rpRead bios V c = some c' →
      (∃ k ≤ wholeSegments m, Loaded V disk m k c') ∧
        0x100000 - linear c'.es c'.bx < 0x100000 - linear c.es c.bx := by
    rintro c c' ⟨k, hk, h⟩ hc
    obtain ⟨k', hlt, hk', h'⟩ := h.more hbios hsize hk hc
    refine ⟨⟨k', hk', h'⟩, ?_⟩
    rw [h.pos.linear, h'.pos.linear]
    change 0x100000 - (0x10000 + _) < 0x100000 - (0x10000 + _)
    omega
  obtain ⟨c, hc, ⟨k, hk, hloaded⟩, hend⟩ := Halts.of_measure _ _ hround ⟨0, Nat.zero_le _, .start hm⟩
  refine ⟨c, hc, ?_⟩
  rw [hloaded.round (by omega)] at hend
  split at hend
  · cases hend
  · obtain rfl : k = wholeSegments m := by
      unfold wholeSegments at *
      omega
    exact hloaded

/-- An image of 512 kB or more comes over the boot sector: the read behind the last segment below it replaces all of
the sector, its code and its length field, by a sector of the image. Of the variables, `read_it` stores some anew. -/
theorem readIt_overruns (hbios : Reads bios disk) (hm : Started V m) (hsize : 0x8000 ≤ (Bootsect.syssize m).toNat) :
    ∃ c, Reach (rpRead bios V) (readIt V m) c ∧
      (∃ r ∈ c.asked, r.Valid ∧ r.dest = linear initseg 0 ∧ r.al = 1) ∧
      ∀ i < 512, V.Off i → c.mem (linear initseg 0 + i) = disk (512 * 1025 + i) := by
  have hstart : linear initseg 0 = linear sysseg 0 + 512 * 1024 := rfl
  have hend : linear initseg 512 = linear initseg 0 + 512 := rfl
  have hround : ∀ c, (∃ k ≤ 1024, Loaded V disk m k c) → linear c.es c.bx < linear initseg 0 →
      ∃ c', rpRead bios V c = some c' ∧ (∃ k ≤ 1024, Loaded V disk m k c') ∧
        linear c.es c.bx < linear c'.es c'.bx := by
    rintro c ⟨k, hk, h⟩ hlt
    have hchunk : chunkSize k ≤ 128 - k % 128 := min_le_right _ _
    have hpos := chunkSize_pos k
    rw [h.pos.linear] at hlt
    have hnext := h.next hbios (by omega)
    refine ⟨_, (h.round hk).trans (if_pos (by omega)), ⟨k + chunkSize k, by omega, hnext⟩, ?_⟩
    rw [h.pos.linear, hnext.pos.linear]
    omega
  obtain ⟨c, hc, ⟨k, hk, hloaded⟩, hstage⟩ := Reach.exists_stage _ _ ⟨0, Nat.zero_le _, .start hm⟩ hround
  rw [hloaded.pos.linear] at hstage
  obtain rfl : k = 1024 := by omega
  obtain ⟨hvalid, hal, hplace, hdest⟩ := hloaded.pos.request (by decide) hloaded.pos.chunk
  -- one sector is left of the track
  have hone : chunkSize 1024 = 1 := rfl
  rw [hone] at hal
  refine ⟨_, .next hc ((hloaded.round le_rfl).trans (if_pos (by omega))),
    ⟨request V c (chunk V c), ?_, hvalid, hdest, BitVec.eq_of_toNat_eq hal⟩, fun i hi hoff => ?_⟩
  · rw [ok2Read_asked]
    exact List.mem_append_right _ (List.mem_singleton.2 rfl)
  · have hread := hbios _ c.mem hvalid (linear initseg 0 + i) (by omega) (by omega)
    rw [hal, hplace, lba_chs, if_pos (by omega)] at hread
    rw [ok2Read_mem hoff.apart, hread, hdest, hstart, Nat.add_sub_cancel_left]

/-- What is in memory of the image at the end. -/
theorem Loaded.image (h : Loaded V disk m (wholeSegments m) c) (hsize : (Bootsect.syssize m).toNat < 0x8000)
    (hn : n < 16 * (Bootsect.syssize m).toNat) : c.mem (linear sysseg 0 + n) = disk (512 + n) := by
  have hbase : linear sysseg 0 = 0x10000 := rfl
  have hend : linear initseg 0 = 0x90000 := rfl
  have hlast := wholeSegments_le hsize
  have hsegments : n < 512 * wholeSegments m := by
    unfold wholeSegments
    omega
  exact h.mem.get hsegments le_rfl (by omega)

/-! ### From the start -/

theorem setShort_get (m : Bytes) (a b x : ℕ) : setShort m a (short m b) x =
    if a ≤ x ∧ x < a + 2 then m (b + (x - a)) else m x := by
  unfold setShort
  rw [short_low, short_high]
  by_cases hx : x = a + 1
  · subst hx
    rw [Function.update_self, if_pos (by omega), Nat.add_sub_cancel_left]
  · rw [Function.update_of_ne hx]
    by_cases hx' : x = a
    · subst hx'
      rw [Function.update_self, if_pos (by omega), Nat.sub_self, Nat.add_zero]
    · rw [Function.update_of_ne hx', if_neg (by omega)]

theorem move_get {dst src : ℕ} (h : src + 2 * n ≤ dst) (m : Bytes) (a : ℕ) :
    ForLoop.forRange 0 n m (fun m i => setShort m (dst + 2 * i) (short m (src + 2 * i))) a =
      if dst ≤ a ∧ a < dst + 2 * n then m (src + (a - dst)) else m a := by
  induction n generalizing a with
  | zero => exact (if_neg (by omega)).symm
  | succ n ih =>
    have ih := ih (by omega)
    rw [ForLoop.forRange_succ, setShort_get, Nat.zero_add]
    split
    · rw [ih, if_neg (by omega), if_pos (by omega)]
      congr 1
      omega
    · rw [ih]
      exact if_congr (by omega) rfl rfl

/-- What the BIOS has done: the boot sector is where it puts it, as it is assembled. -/
structure Booting (V : Vars) (disk m : Bytes) : Prop where
  sector : ∀ i < 512, m (linear bootseg 0 + i) = disk i
  setup : disk 497 = setupsecs
  zero : ∀ i < 6, disk (V.offset + i) = 0

theorem Booting.moved (h : Booting V disk m) (hi : i < 512) : moved m (linear initseg 0 + i) = disk i := by
  rw [Bootsect.moved, move_get (by decide), if_pos (by omega), Nat.add_sub_cancel_left, h.sector i hi]

theorem Booting.started (h : Booting V disk m) : Started V (Bootsect.moved m) where
  setup := (h.moved (i := 497) (by decide)).trans h.setup
  zero i hi := by
    have hgdt := V.before_gdt
    rw [Vars.sread, Nat.add_assoc, h.moved (by omega), h.zero i hi]

theorem Booting.syssize (h : Booting V disk m) : syssize (Bootsect.moved m) = short disk 500 := by
  have hlow : Bootsect.moved m (linear initseg 500) = disk 500 := h.moved (i := 500) (by decide)
  have hhigh : Bootsect.moved m (linear initseg 500 + 1) = disk 501 := h.moved (i := 501) (by decide)
  rw [Bootsect.syssize, short, short, hlow, hhigh]

/-- **The boot sector boots.** From the sector where the BIOS puts it, it moves itself away and reads all of an image
of less than 512 kB, without an error of the disk or of a segment that is left, and at the end it is still there, but
for the variables of `read_it`. -/
theorem bootsect_loads (hbios : Reads bios disk) (hboot : Booting V disk m) (hsize : (short disk 500).toNat < 0x8000) :
    ∃ c, Halts (rpRead bios V) (readIt V (moved m)) c ∧
      (∀ i < 16 * (short disk 500).toNat, c.mem (linear sysseg 0 + i) = disk (512 + i)) ∧
      (∀ i < 512, V.Off i → c.mem (linear initseg 0 + i) = disk i) ∧ ∀ r ∈ c.asked, r.Valid := by
  rw [← hboot.syssize] at hsize ⊢
  obtain ⟨c, hc, hloaded⟩ := readIt_halts hbios hboot.started hsize
  refine ⟨c, hc, fun i hi => hloaded.image hsize hi, fun i hi hoff => ?_, fun r hr => (hloaded.asked r hr).1⟩
  exact (hloaded.sector i hi hoff).trans (hboot.moved hi)

/-- **The reads stay below the boot sector exactly when the image is under 512 kB.** A larger one is read over it: a
sector of the image comes in the place of its code and of its length field. -/
theorem stays_below_iff (hbios : Reads bios disk) (hboot : Booting V disk m) :
    ((∀ c, Reach (rpRead bios V) (readIt V (moved m)) c → ∀ r ∈ c.asked, r.dest + 512 * r.al.toNat ≤ linear initseg 0) ↔
      (short disk 500).toNat < 0x8000) ∧
    (0x8000 ≤ (short disk 500).toNat → ∃ c, Reach (rpRead bios V) (readIt V (moved m)) c ∧
      (∃ r ∈ c.asked, r.Valid ∧ r.dest = linear initseg 0 ∧ r.al = 1) ∧
      ∀ i < 512, V.Off i → c.mem (linear initseg 0 + i) = disk (512 * 1025 + i)) := by
  rw [← hboot.syssize]
  have hstart : linear initseg 0 = linear sysseg 0 + 512 * 1024 := rfl
  refine ⟨⟨fun hall => ?_, fun hsize c hc r hr => ?_⟩, readIt_overruns hbios hboot.started⟩
  · by_contra hsize
    obtain ⟨c, hc, ⟨r, hr, hvalid, hdest, -⟩, -⟩ := readIt_overruns hbios hboot.started (not_lt.1 hsize)
    have hle := hall c hc r hr
    have hcount := hvalid.count
    omega
  · have hlast := wholeSegments_le hsize
    obtain ⟨k, hk, hloaded⟩ := hc.inv (I := fun c => ∃ k ≤ wholeSegments (moved m), Loaded V disk (moved m) k c)
      ⟨0, Nat.zero_le _, .start hboot.started⟩ (by
        rintro c c' ⟨k, hk, h⟩ hc
        obtain ⟨k', -, hk', h'⟩ := h.more hbios hsize hk hc
        exact ⟨k', hk', h'⟩)
    obtain ⟨-, hle⟩ := hloaded.asked r hr
    omega

/-! ### An example -/

/-- A BIOS that reads, and leaves everything else alone. -/
def sampleBios (disk : Bytes) (r : Request) (m : Bytes) : Bytes := fun a =>
  if r.dest ≤ a ∧ a < r.dest + 512 * r.al.toNat then disk (512 * floppy.lba r.place + (a - r.dest)) else m a

/-- Variables behind 250 bytes of code. -/
def sampleVars : Vars := ⟨250, by decide⟩

/-- An image of 40 paragraphs, and one of 512 kB. -/
def sampleDisk : Bytes := fun i => if i = 500 then 40 else 0

def largeDisk : Bytes := fun i => if i = 501 then 0x80 else if 512 ≤ i then 0x90 else 0

theorem sampleBios_reads (disk : Bytes) : Reads (sampleBios disk) disk := fun _ _ _ _ _ _ => rfl

theorem sampleDisk_booting : Booting sampleVars sampleDisk fun a => sampleDisk (a - linear bootseg 0) :=
  ⟨fun i _ => by rw [Nat.add_sub_cancel_left], by decide, by decide⟩

theorem largeDisk_booting : Booting sampleVars largeDisk fun a => largeDisk (a - linear bootseg 0) :=
  ⟨fun i _ => by rw [Nat.add_sub_cancel_left], by decide, by decide⟩

/-- A small image. -/
theorem bootsect_loads_sample : ∃ c,
    Halts (rpRead (sampleBios sampleDisk) sampleVars)
      (readIt sampleVars (moved fun a => sampleDisk (a - linear bootseg 0))) c ∧
      (∀ i < 16 * (short sampleDisk 500).toNat, c.mem (linear sysseg 0 + i) = sampleDisk (512 + i)) ∧
      (∀ i < 512, sampleVars.Off i → c.mem (linear initseg 0 + i) = sampleDisk i) ∧ ∀ r ∈ c.asked, r.Valid :=
  bootsect_loads (sampleBios_reads _) sampleDisk_booting (by decide)

/-- The small image stays below, and of the large one a sector comes over the length field. -/
theorem stays_below_sample :
    ((short sampleDisk 500).toNat < 0x8000 ∧ ∀ c,
      Reach (rpRead (sampleBios sampleDisk) sampleVars)
        (readIt sampleVars (moved fun a => sampleDisk (a - linear bootseg 0))) c →
        ∀ r ∈ c.asked, r.dest + 512 * r.al.toNat ≤ linear initseg 0) ∧
    ∃ c, Reach (rpRead (sampleBios largeDisk) sampleVars)
        (readIt sampleVars (moved fun a => largeDisk (a - linear bootseg 0))) c ∧ syssize c.mem = 0x9090 := by
  refine ⟨⟨by decide, (stays_below_iff (sampleBios_reads _) sampleDisk_booting).1.2 (by decide)⟩, ?_⟩
  obtain ⟨c, hc, -, hmem⟩ := (stays_below_iff (sampleBios_reads _) largeDisk_booting).2 (by decide)
  refine ⟨c, hc, ?_⟩
  have hlow : c.mem (linear initseg 500) = 0x90 := hmem 500 (by decide) (.inr (by decide))
  have hhigh : c.mem (linear initseg 500 + 1) = 0x90 := hmem 501 (by decide) (.inr (by decide))
  rw [syssize, short, hlow, hhigh]
  rfl

end Bootsect

end Zeos
