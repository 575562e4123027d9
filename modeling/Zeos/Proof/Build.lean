import Zeos.Build
import Zeos.Bootsect

/-!
# What `build` writes

* `copyLoop_ok`: the loop copies a file to its end.
* `main_ok_iff`: **when `build` succeeds**, and with what.
* `imageOf_layout`: **where the three files are in an image** of less than 512 kB, and where their lengths are.
-/

namespace Zeos

namespace Build

open Disk ByteMem ForLoop

variable {fs : String → Option File} {argv : List String} {name : String} {f out boot sys usr image : File} {i : ℕ}
  {w : Word}

/-! ### The copies -/

theorem copyLoop_ok (sz : ℕ) (f out : File) (h : sz ≤ f.length) :
    copyLoop name f out sz = .ok (out ++ f.take sz) := by
  induction sz using Nat.strongRecOn generalizing f out with
  | ind sz ih =>
    rw [copyLoop]
    by_cases hpos : 0 < sz
    · let l := if sizeofBuf < sz then sizeofBuf else sz
      have hl : 0 < l ∧ l ≤ sz := by
        unfold l sizeofBuf
        split <;> omega
      have hlen : (f.take l).length = l := by
        rw [List.length_take]
        omega
      rw [if_pos hpos]
      refine (if_neg (not_not.2 hlen)).trans ?_
      rw [ih (sz - l) (by omega) _ _ (by rw [List.length_drop]; omega), List.append_assoc]
      have hsplit : f.take l ++ (f.drop l).take (sz - l) = f.take sz := by
        rw [← List.take_add]
        congr 1
        omega
      rw [hsplit]
    · obtain rfl : sz = 0 := by omega
      rw [if_neg hpos, List.take_zero, List.append_nil]

theorem openFile_ok_iff : openFile fs name = .ok f ↔ fs name = some f := by
  unfold openFile
  cases fs name with
  | none => exact ⟨nofun, nofun⟩
  | some g => exact ⟨fun h => congrArg some (Except.ok.inj h), fun h => congrArg Except.ok (Option.some.inj h)⟩

/-- A file of 4 GB or more is not copied to its end. -/
theorem copyFile_ok_iff {r : Word × File} : copyFile fs name out = .ok r ↔
    ∃ f, fs name = some f ∧ r = (BitVec.ofNat 32 f.length, out ++ f.take (f.length % 2 ^ 32)) := by
  have hloop : ∀ f : File, copyLoop name f out (BitVec.ofNat 32 f.length).toNat =
      .ok (out ++ f.take (f.length % 2 ^ 32)) := fun f => by
    rw [BitVec.toNat_ofNat]
    exact copyLoop_ok _ _ _ (Nat.mod_le _ _)
  constructor
  · intro h
    obtain ⟨f, hf, h⟩ := bind_ok.1 h
    obtain ⟨out', hout, h⟩ := bind_ok.1 h
    obtain rfl := Except.ok.inj ((hloop f).symm.trans hout)
    exact ⟨f, openFile_ok_iff.1 hf, (Except.ok.inj h).symm⟩
  · rintro ⟨f, hf, rfl⟩
    exact bind_ok.2 ⟨f, openFile_ok_iff.2 hf, bind_ok.2 ⟨_, hloop f, rfl⟩⟩

/-! ### The header of the boot sector -/

/-- What `ld86` has put in front of the boot sector. -/
structure MinixHeader (h : File) : Prop where
  length : h.length = minixHeaderLen
  magic : h.take hdr.length = hdr
  data : lb h 3 = 0
  bss : lb h 4 = 0
  unused : lb h 5 = 0
  symbols : lb h 7 = 0

theorem minixOpen_ok_iff {rest : File} : minixOpen fs name = .ok rest ↔
    ∃ h, fs name = some (h ++ rest) ∧ MinixHeader h := by
  constructor
  · intro h
    obtain ⟨f, hf, h⟩ := bind_ok.1 h
    simp only [] at h
    split at h
    · cases h
    split at h
    · cases h
    split at h
    · cases h
    split at h
    · cases h
    split at h
    · cases h
    rename_i hlen hmagic hdata hbss hsymbols
    obtain ⟨hmagic, hunused⟩ := not_or.1 hmagic
    obtain rfl := Except.ok.inj h
    exact ⟨f.take minixHeaderLen, by rw [List.take_append_drop]; exact openFile_ok_iff.1 hf,
      not_not.1 hlen, not_not.1 hmagic, not_not.1 hdata, not_not.1 hbss, not_not.1 hunused, not_not.1 hsymbols⟩
  · rintro ⟨h, hf, hh⟩
    have htake : (h ++ rest).take minixHeaderLen = h := List.take_left' hh.length
    have hdrop : (h ++ rest).drop minixHeaderLen = rest := List.drop_left' hh.length
    refine bind_ok.2 ⟨h ++ rest, openFile_ok_iff.2 hf, ?_⟩
    simp only [htake, hdrop]
    rw [if_neg (not_not.2 hh.length), if_neg (not_or.2 ⟨not_not.2 hh.magic, not_not.2 hh.unused⟩),
      if_neg (not_not.2 hh.data), if_neg (not_not.2 hh.bss), if_neg (not_not.2 hh.symbols)]

/-! ### The image -/

/-- A boot sector as it has to be. -/
structure BootSector (boot : File) : Prop where
  length : boot.length = 512
  flag : bytes boot 510 = 0x55 ∧ bytes boot 511 = 0xaa

/-- The two bytes in front of the flag are the root device, none here. -/
def rooted (boot : File) : File := (boot.set 508 defaultMinorRoot).set 509 defaultMajorRoot

/-- The image of the three files. -/
def imageOf (boot sys usr : File) : File :=
  patch (rooted boot ++ sys.take (sys.length % 2 ^ 32) ++ usr.take (usr.length % 2 ^ 32))
    (BitVec.ofNat 32 sys.length) (BitVec.ofNat 32 usr.length)

theorem take_sizeofBuf {rest : File} (h : (rest.take sizeofBuf).length = 512) : rest.take sizeofBuf = rest := by
  unfold sizeofBuf at *
  rw [List.length_take] at h
  exact List.take_of_length_le (by omega)

/-- **When `build` succeeds**, and with what. -/
theorem main_ok_iff : main fs argv = .ok image ↔ ∃ prog bootsect system user h boot sys usr,
    argv = [prog, bootsect, system, user] ∧ fs bootsect = some (h ++ boot) ∧ MinixHeader h ∧ BootSector boot ∧
      fs system = some sys ∧ fs user = some usr ∧ image = imageOf boot sys usr := by
  constructor
  · intro hmain
    unfold main at hmain
    split at hmain
    · rename_i prog bootsect system user
      obtain ⟨rest, hrest, hmain⟩ := bind_ok.1 hmain
      obtain ⟨h, hf, hh⟩ := minixOpen_ok_iff.1 hrest
      simp only [] at hmain
      split at hmain
      · cases hmain
      split at hmain
      · cases hmain
      rename_i hlen hflag
      have hrest := take_sizeofBuf (not_not.1 hlen)
      rw [hrest] at hlen hflag hmain
      obtain ⟨hlow, hhigh⟩ := not_or.1 hflag
      obtain ⟨r, hcopy, hmain⟩ := bind_ok.1 hmain
      obtain ⟨sys, hsys, rfl⟩ := copyFile_ok_iff.1 hcopy
      obtain ⟨r, hcopy', hmain⟩ := bind_ok.1 hmain
      obtain ⟨usr, husr, rfl⟩ := copyFile_ok_iff.1 hcopy'
      have hsector : BootSector rest := ⟨not_not.1 hlen, not_not.1 hlow, not_not.1 hhigh⟩
      exact ⟨prog, bootsect, system, user, h, rest, sys, usr, rfl, hf, hh, hsector, hsys,
        husr, (Except.ok.inj hmain).symm⟩
    · cases hmain
  · rintro ⟨prog, bootsect, system, user, h, boot, sys, usr, rfl, hf, hh, hb, hsys, husr, himage⟩
    have hbuf : boot.take sizeofBuf = boot := List.take_of_length_le (by rw [hb.length, sizeofBuf]; omega)
    rw [himage]
    refine bind_ok.2 ⟨boot, minixOpen_ok_iff.2 ⟨h, hf, hh⟩, ?_⟩
    simp only [hbuf]
    rw [if_neg (not_not.2 hb.length), if_neg (not_or.2 ⟨not_not.2 hb.flag.1, not_not.2 hb.flag.2⟩)]
    refine bind_ok.2 ⟨_, copyFile_ok_iff.2 ⟨sys, hsys, rfl⟩, ?_⟩
    refine bind_ok.2 ⟨_, copyFile_ok_iff.2 ⟨usr, husr, rfl⟩, ?_⟩
    unfold imageOf rooted
    rfl

/-! ### The layout -/

/-- Where everything is in an image. -/
structure Layout (boot sys usr image : File) : Prop where
  length : image.length = 512 + sys.length + usr.length
  sector : ∀ i < 512, i ≠ 500 → i ≠ 501 → i ≠ 508 → i ≠ 509 → bytes image i = bytes boot i
  root : bytes image 508 = defaultMinorRoot ∧ bytes image 509 = defaultMajorRoot
  imSize : (Bootsect.short (bytes image) 500).toNat = (sys.length + usr.length + 15) / 16
  sysSize : (long (bytes image) 512).toNat = sys.length
  usrSize : (long (bytes image) 516).toNat = usr.length
  rdtr : long (bytes image) 520 = 0x7E1A
  system : ∀ i, 12 ≤ i → i < sys.length → bytes image (512 + i) = bytes sys i
  user : ∀ i < usr.length, bytes image (512 + sys.length + i) = bytes usr i

theorem low_eq (w : Word) (i : ℕ) : low w i = w.extractLsb' (8 * i) 8 := by
  have hmask : ∀ j < 8, (0xff#32).getLsbD j = true := by decide
  unfold low
  ext j hj
  rw [BitVec.getElem_setWidth, BitVec.getElem_extractLsb', BitVec.getLsbD_and, BitVec.getLsbD_ushiftRight]
  exact (congrArg (_ && ·) (hmask j hj)).trans (Bool.and_true _)

theorem long_low (hw : w.toNat < 2 ^ 24) : (0 : Byte) ++ low w 2 ++ low w 1 ++ low w 0 = w := by
  have hzero : (0 : Byte) = w.extractLsb' 24 8 := by
    rw [← BitVec.toNat_inj, BitVec.extractLsb'_toNat, Nat.shiftRight_eq_div_pow, Nat.div_eq_of_lt hw]
    rfl
  rw [hzero, low_eq, low_eq, low_eq]
  exact append_bytes w

theorem short_low (w : Word) : low w 1 ++ low w 0 = w.extractLsb' 0 16 := by
  have h0 : w.extractLsb' 8 8 ++ w.extractLsb' 0 8 = w.extractLsb' 0 16 :=
    BitVec.extractLsb'_append_extractLsb'_eq_extractLsb' rfl
  rw [low_eq, low_eq]
  exact h0

/-- The patches, one after the other, on the bytes. -/
theorem bytes_patch (out : File) (s u : Word) : bytes (patch out s u) =
    put (put (put (put (bytes out) 500 [low ((s + u + 15) / 16) 0, low ((s + u + 15) / 16) 1])
      512 [low s 0, low s 1, low s 2, 0]) 516 [low u 0, low u 1, low u 2, 0]) 520
      [low 0x7E1A 0, low 0x7E1A 1, low 0x7E1A 2, 0] := by
  unfold patch
  rw [bytes_overwrite, bytes_overwrite, bytes_overwrite, bytes_overwrite]

variable {m : Bytes} {a b : ℕ} {s u : Word}

theorem long_put (m : Bytes) (a : ℕ) (b₀ b₁ b₂ b₃ : Byte) :
    long (put m a [b₀, b₁, b₂, b₃]) a = b₃ ++ b₂ ++ b₁ ++ b₀ := by
  have hput : ∀ i (hi : i < 4), put m a [b₀, b₁, b₂, b₃] (a + i) = [b₀, b₁, b₂, b₃][i] := fun i hi => put_at m a hi
  have h0 : put m a [b₀, b₁, b₂, b₃] a = b₀ := hput 0 (by decide)
  have h1 : put m a [b₀, b₁, b₂, b₃] (a + 1) = b₁ := hput 1 (by decide)
  have h2 : put m a [b₀, b₁, b₂, b₃] (a + 2) = b₂ := hput 2 (by decide)
  have h3 : put m a [b₀, b₁, b₂, b₃] (a + 3) = b₃ := hput 3 (by decide)
  rw [long, h0, h1, h2, h3]

theorem long_put_off {t : File} (h : a + 4 ≤ b ∨ b + t.length ≤ a) : long (put m b t) a = long m a := by
  have hoff : ∀ i < 4, put m b t (a + i) = m (a + i) := fun i hi => put_off (by omega)
  have h0 : put m b t a = m a := hoff 0 (by decide)
  rw [long, long, hoff 3 (by decide), hoff 2 (by decide), hoff 1 (by decide), h0]

/-- Outside of the patches. -/
theorem patch_off (h : ¬ (500 ≤ i ∧ i < 502)) (h' : ¬ (512 ≤ i ∧ i < 524)) :
    bytes (patch out s u) i = bytes out i := by
  have hlen : ∀ b₀ b₁ b₂ b₃ : Byte, [b₀, b₁, b₂, b₃].length = 4 := fun _ _ _ _ => rfl
  rw [bytes_patch, put_off (by rw [hlen]; omega), put_off (by rw [hlen]; omega), put_off (by rw [hlen]; omega),
    put_off (by simp only [List.length_cons, List.length_nil]; omega)]

theorem patch_length (h : 524 ≤ out.length) : (patch out s u).length = out.length := by
  unfold patch
  simp only [length_overwrite, List.length_cons, List.length_nil]
  omega

theorem rooted_length (boot : File) : (rooted boot).length = boot.length := by
  rw [rooted, List.length_set, List.length_set]

theorem rooted_get (h : boot.length = 512) (i : ℕ) : bytes (rooted boot) i =
    if i = 509 then defaultMajorRoot else if i = 508 then defaultMinorRoot else bytes boot i := by
  rw [rooted, bytes_set _ _ _ (by rw [List.length_set]; omega), bytes_set _ _ _ (by omega)]

/-- **The layout of an image** of less than 512 kB. -/
theorem imageOf_layout (hb : BootSector boot) (hs : 12 ≤ sys.length) (hlen : sys.length + usr.length ≤ 0x7FFF0) :
    Layout boot sys usr (imageOf boot sys usr) := by
  let out := rooted boot ++ sys ++ usr
  let s : Word := BitVec.ofNat 32 sys.length
  let u : Word := BitVec.ofNat 32 usr.length
  have hmod : ∀ f : File, f.length ≤ 0x7FFF0 → f.take (f.length % 2 ^ 32) = f := fun f hf => by
    rw [Nat.mod_eq_of_lt (by omega), List.take_length]
  have himage : imageOf boot sys usr = patch out s u := by
    rw [imageOf, hmod sys (by omega), hmod usr (by omega)]
  have hrooted : (rooted boot).length = 512 := (rooted_length boot).trans hb.length
  have hs' : s.toNat = sys.length := by
    rw [BitVec.toNat_ofNat]
    exact Nat.mod_eq_of_lt (by omega)
  have hu' : u.toNat = usr.length := by
    rw [BitVec.toNat_ofNat]
    exact Nat.mod_eq_of_lt (by omega)
  have hlength : out.length = 512 + sys.length + usr.length := by
    rw [List.length_append, List.length_append, hrooted]
  have hfirst : ∀ i < 512, bytes out i = bytes (rooted boot) i := fun i hi => by
    rw [bytes_append_left (by rw [List.length_append, hrooted]; omega), bytes_append_left (by omega)]
  rw [himage]
  refine ⟨?_, fun i hi h0 h1 h8 h9 => ?_, ⟨?_, ?_⟩, ?_, ?_, ?_, ?_, fun i hi hi' => ?_, fun i hi => ?_⟩
  · rw [patch_length (by omega), hlength]
  · rw [patch_off (by omega) (by omega), hfirst i hi, rooted_get hb.length, if_neg h9, if_neg h8]
  · rw [patch_off (by decide) (by decide), hfirst 508 (by decide), rooted_get hb.length, if_neg (by decide),
      if_pos rfl]
  · rw [patch_off (by decide) (by decide), hfirst 509 (by decide), rooted_get hb.length, if_pos rfl]
  · have hlow : bytes (patch out s u) 500 = low ((s + u + 15) / 16) 0 := by
      rw [bytes_patch, put_off (by simp), put_off (by simp), put_off (by simp)]
      exact put_at (i := 0) _ 500 (by simp)
    have hhigh : bytes (patch out s u) 501 = low ((s + u + 15) / 16) 1 := by
      rw [bytes_patch, put_off (by simp), put_off (by simp), put_off (by simp)]
      exact put_at (i := 1) _ 500 (by simp)
    have hsum : (s + u + 15).toNat = sys.length + usr.length + 15 := by
      rw [BitVec.toNat_add, BitVec.toNat_add, hs', hu']
      change ((_ + _) % 2 ^ 32 + 15) % 2 ^ 32 = _
      omega
    rw [Bootsect.short, hlow, hhigh, short_low, BitVec.extractLsb'_toNat, Nat.shiftRight_zero, BitVec.toNat_udiv,
      hsum]
    exact Nat.mod_eq_of_lt (by change _ / 16 < _; omega)
  · rw [bytes_patch, long_put_off (.inl (by decide)), long_put_off (.inl (by decide)), long_put,
      long_low (by omega), hs']
  · rw [bytes_patch, long_put_off (.inl (by decide)), long_put, long_low (by omega), hu']
  · rw [bytes_patch, long_put]
    exact long_low (by decide)
  · rw [patch_off (by omega) (by omega)]
    have hplace := bytes_append_right (rooted boot) sys i
    rw [hrooted] at hplace
    rw [bytes_append_left (by rw [List.length_append, hrooted]; omega), hplace]
  · rw [patch_off (by omega) (by omega)]
    have hplace := bytes_append_right (rooted boot ++ sys) usr i
    rw [List.length_append, hrooted] at hplace
    exact hplace

end Build

end Zeos
