import Zeos.Lib.Bytes

/-!
# Files and disks

A file is written at an offset, which may be past its end. A disk has cylinders, heads and sectors; its sectors are
numbered track by track.

* `bytes_overwrite`: **a write into a file**, byte by byte.
* `lba_chs`, `chs_lba`: the number of a sector and its place are the same thing.
* `advance_chs`: **the place behind the sectors of one read**.
* `Blit.append`: two reads in a row, one behind the other on the disk and in memory, are one.
-/

namespace Disk

open ByteMem

/-! ### Files -/

abbrev File := List (BitVec 8)

/-- The bytes of a file, zeros behind the last. -/
def bytes (f : File) : Bytes := fun i => f.getD i 0

/-- `bs` written at `pos`. -/
def overwrite (f : File) (pos : ℕ) (bs : File) : File :=
  f.take pos ++ List.replicate (pos - f.length) 0 ++ bs ++ f.drop (pos + bs.length)

variable {f g bs : File} {i n pos : ℕ}

theorem bytes_of_lt (h : i < f.length) : bytes f i = f[i] := List.getD_eq_getElem _ _ h

theorem bytes_append_left (h : i < f.length) : bytes (f ++ g) i = bytes f i := by
  rw [bytes, bytes, List.getD_append _ _ _ _ h]

theorem bytes_append_right (f g : File) (i : ℕ) : bytes (f ++ g) (f.length + i) = bytes g i := by
  rw [bytes, bytes, List.getD_append_right _ _ _ _ (Nat.le_add_right _ _), Nat.add_sub_cancel_left]

theorem bytes_overwrite (f : File) (pos : ℕ) (bs : File) : bytes (overwrite f pos bs) = put (bytes f) pos bs := by
  funext i
  have hfront : (f.take pos ++ List.replicate (pos - f.length) 0).length = pos := by
    rw [List.length_append, List.length_take, List.length_replicate]
    omega
  rcases Nat.lt_or_ge i pos with hi | hi
  · rw [put_off (by omega), overwrite, List.append_assoc, bytes_append_left (by omega)]
    by_cases hlen : i < f.length
    · rw [bytes_append_left (by rw [List.length_take]; omega), bytes_of_lt (by rw [List.length_take]; omega),
        bytes_of_lt hlen, List.getElem_take]
    · have hzero : bytes f i = 0 := List.getD_eq_default _ _ (by omega)
      rw [hzero, bytes, List.getD_append_right _ _ _ _ (by rw [List.length_take]; omega),
        List.getD_eq_getElem _ _ (by rw [List.length_take, List.length_replicate]; omega), List.getElem_replicate]
  · obtain ⟨j, rfl⟩ := Nat.exists_eq_add_of_le hi
    rcases Nat.lt_or_ge j bs.length with hj | hj
    · have hplace := bytes_append_right (f.take pos ++ List.replicate (pos - f.length) 0) bs j
      rw [hfront] at hplace
      rw [put_at _ _ hj, overwrite, bytes_append_left (by rw [List.length_append, hfront]; omega), hplace,
        bytes_of_lt hj]
    · obtain ⟨k, rfl⟩ := Nat.exists_eq_add_of_le hj
      have hplace := bytes_append_right (f.take pos ++ List.replicate (pos - f.length) 0 ++ bs)
        (f.drop (pos + bs.length)) k
      rw [List.length_append, hfront] at hplace
      rw [put_off (by omega), overwrite, ← Nat.add_assoc, hplace, bytes, bytes, List.getD_eq_getElem?_getD,
        List.getD_eq_getElem?_getD, List.getElem?_drop]

theorem bytes_set (f : File) (n : ℕ) (b : BitVec 8) (h : n < f.length) (i : ℕ) :
    bytes (f.set n b) i = if i = n then b else bytes f i := by
  rw [bytes, bytes, List.getD_eq_getElem?_getD, List.getElem?_set]
  by_cases hi : n = i
  · rw [if_pos hi, if_pos hi.symm, if_pos h]
    rfl
  · rw [if_neg hi, if_neg (Ne.symm hi), List.getD_eq_getElem?_getD]

theorem length_overwrite (f : File) (pos : ℕ) (bs : File) :
    (overwrite f pos bs).length = max f.length (pos + bs.length) := by
  simp only [overwrite, List.length_append, List.length_take, List.length_replicate, List.length_drop]
  omega

/-! ### Geometry -/

structure Geometry where
  heads : ℕ
  sectors : ℕ
  heads_pos : 0 < heads
  sectors_pos : 0 < sectors

/-- The place of a sector, all three counted from zero. -/
@[ext] structure Chs where
  cylinder : ℕ
  head : ℕ
  sector : ℕ

def Geometry.lba (G : Geometry) (p : Chs) : ℕ := (p.cylinder * G.heads + p.head) * G.sectors + p.sector

def Geometry.chs (G : Geometry) (k : ℕ) : Chs := ⟨k / G.sectors / G.heads, k / G.sectors % G.heads, k % G.sectors⟩

/-- The place `n` sectors on, in the same track or at the start of the next. -/
def Geometry.advance (G : Geometry) (p : Chs) (n : ℕ) : Chs :=
  if p.sector + n = G.sectors then
    if p.head + 1 = G.heads then ⟨p.cylinder + 1, 0, 0⟩ else ⟨p.cylinder, p.head + 1, 0⟩
  else { p with sector := p.sector + n }

variable {G : Geometry} {k : ℕ} {p : Chs}

theorem lba_chs (G : Geometry) (k : ℕ) : G.lba (G.chs k) = k := by
  unfold Geometry.lba Geometry.chs
  rw [Nat.div_add_mod', Nat.div_add_mod']

theorem chs_lba (hh : p.head < G.heads) (hs : p.sector < G.sectors) : G.chs (G.lba p) = p := by
  have htrack : G.lba p / G.sectors = p.cylinder * G.heads + p.head := by
    rw [Geometry.lba, Nat.add_comm, Nat.add_mul_div_right _ _ G.sectors_pos, Nat.div_eq_of_lt hs, Nat.zero_add]
  refine Chs.ext ?_ ?_ ?_
  · change G.lba p / G.sectors / G.heads = _
    rw [htrack, Nat.add_comm, Nat.add_mul_div_right _ _ G.heads_pos, Nat.div_eq_of_lt hh, Nat.zero_add]
  · change G.lba p / G.sectors % G.heads = _
    rw [htrack, Nat.add_comm, Nat.add_mul_mod_self_right, Nat.mod_eq_of_lt hh]
  · change G.lba p % G.sectors = _
    rw [Geometry.lba, Nat.add_comm, Nat.add_mul_mod_self_right, Nat.mod_eq_of_lt hs]

theorem lba_advance (G : Geometry) (p : Chs) (n : ℕ) : G.lba (G.advance p n) = G.lba p + n := by
  obtain ⟨c, h, s⟩ := p
  by_cases hend : s + n = G.sectors
  · by_cases hlast : h + 1 = G.heads
    · calc G.lba (G.advance ⟨c, h, s⟩ n) = ((c + 1) * G.heads + 0) * G.sectors + 0 := by
            rw [Geometry.advance, if_pos hend, if_pos hlast]
            rfl
        _ = (c * G.heads + h) * G.sectors + G.sectors := by
            rw [← Nat.succ_mul, ← hlast, Nat.succ_mul c (h + 1)]
            rfl
        _ = (c * G.heads + h) * G.sectors + s + n := by rw [Nat.add_assoc, hend]
    · calc G.lba (G.advance ⟨c, h, s⟩ n) = (c * G.heads + (h + 1)) * G.sectors + 0 := by
            rw [Geometry.advance, if_pos hend, if_neg hlast]
            rfl
        _ = (c * G.heads + h) * G.sectors + G.sectors := Nat.succ_mul _ _
        _ = (c * G.heads + h) * G.sectors + s + n := by rw [Nat.add_assoc, hend]
  · rw [Geometry.advance, if_neg hend]
    exact (Nat.add_assoc _ _ _).symm

/-- **What is left of a track read at once** leads to the place that many sectors on. -/
theorem advance_chs (h : (G.chs k).sector + n ≤ G.sectors) : G.advance (G.chs k) n = G.chs (k + n) := by
  have hhead : (G.chs k).head < G.heads := Nat.mod_lt _ G.heads_pos
  have hinside : (G.advance (G.chs k) n).head < G.heads ∧ (G.advance (G.chs k) n).sector < G.sectors := by
    unfold Geometry.advance
    split
    · split
      · exact ⟨G.heads_pos, G.sectors_pos⟩
      · exact ⟨by change _ + 1 < _; omega, G.sectors_pos⟩
    · exact ⟨hhead, by change _ + n < _; omega⟩
  rw [← chs_lba hinside.1 hinside.2, lba_advance, lba_chs]

/-! ### Reads -/

/-- In `[lo, hi)`, `n` bytes of the disk from `src` on have come to `dst`, and nothing else. -/
def Blit (lo hi : ℕ) (disk : Bytes) (src dst n : ℕ) (m m' : Bytes) : Prop :=
  ∀ a, lo ≤ a → a < hi → m' a = if dst ≤ a ∧ a < dst + n then disk (src + (a - dst)) else m a

variable {lo hi src dst l : ℕ} {disk m m' m'' : Bytes}

theorem Blit.refl : Blit lo hi disk src dst 0 m m := fun a _ _ => (if_neg (by omega)).symm

theorem Blit.append (h : Blit lo hi disk src dst n m m') (h' : Blit lo hi disk (src + n) (dst + n) l m' m'') :
    Blit lo hi disk src dst (n + l) m m'' := by
  intro a hlo hhi
  rw [h' a hlo hhi, h a hlo hhi]
  by_cases hsecond : dst + n ≤ a ∧ a < dst + n + l
  · rw [if_pos hsecond, if_pos (by omega)]
    congr 1
    omega
  · rw [if_neg hsecond]
    exact if_congr (by omega) rfl rfl

theorem Blit.get (h : Blit lo hi disk src dst n m m') (hi' : i < n) (hlo : lo ≤ dst) (hhi : dst + n ≤ hi) :
    m' (dst + i) = disk (src + i) := by
  rw [h _ (by omega) (by omega), if_pos (by omega), Nat.add_sub_cancel_left]

end Disk
