import Zeos.Proof.Copies
import Zeos.Utils

/-!
# Block copies

The three copies of `utils.c` move longs while more than four bytes are left, and the rest byte by byte.

* `copyLoops_moved`: **the loops leave at the destination what the source held**, where the destination
  does not run ahead of the reads.
* `copies_exact`: so it is for disjoint blocks, and for a destination at or below the source.
* `copyPage_flat`, `copyFromUser_flat`: the copies through the page tables are those of the loops on the
  memory that the page tables show.
-/

namespace Zeos

open ByteMem ForLoop

variable {m m₁ m' : Bytes} {start dest n c k : ℕ} {size : ℤ}

/-! ### The loops -/

/-- The loop over longs, with `c` bytes done and `k` to go. -/
theorem copyLongs_moved (hA : Ahead start dest n) (h : Moved m start dest c m₁) (hk : c + k = n) :
    ∃ m₂ c', Flat.copyLongs m₁ (start + c) (dest + c) k = (m₂, start + c', dest + c', ((n - c' : ℕ) : ℤ)) ∧
      c' ≤ n ∧ Moved m start dest c' m₂ := by
  induction k using Nat.strong_induction_on generalizing c m₁ with
  | _ k ih =>
    rw [Flat.copyLongs]
    split
    · have hrest : (k : ℤ) - 4 = ((k - 4 : ℕ) : ℤ) := by omega
      rw [Nat.add_assoc, Nat.add_assoc, hrest]
      exact ih (k - 4) (by omega) (h.long hA (by omega)) (by omega)
    · exact ⟨m₁, c, by rw [← hk, Nat.add_sub_cancel_left], by omega, h⟩

/-- The loop over bytes does the rest. -/
theorem copyRest_moved (hA : Ahead start dest n) (h : Moved m start dest c m₁) (hk : c + k = n) :
    Moved m start dest n (Flat.copyRest m₁ (start + c) (dest + c) k) := by
  induction k generalizing c m₁ with
  | zero =>
    rw [Flat.copyRest, if_neg (by simp)]
    rw [Nat.add_zero] at hk
    exact hk ▸ h
  | succ k ih =>
    have hrest : ((k + 1 : ℕ) : ℤ) - 1 = (k : ℤ) := by omega
    rw [Flat.copyRest, if_pos (by omega), Nat.add_assoc, Nat.add_assoc, hrest]
    exact ih (h.byte hA (by omega)) (by omega)

theorem copyLoops_none (m : Bytes) (start dest : ℕ) (h : size ≤ 0) : Flat.copyLoops m start dest size = m := by
  rw [Flat.copyLoops, Flat.copyLongs, if_neg (by omega)]
  show Flat.copyRest m start dest size = m
  rw [Flat.copyRest, if_neg (by omega)]

/-- **The loops** copy `size` bytes. -/
theorem copyLoops_moved (m : Bytes) (hA : Ahead start dest size.toNat) :
    Moved m start dest size.toNat (Flat.copyLoops m start dest size) := by
  by_cases h0 : size ≤ 0
  · rw [copyLoops_none m start dest h0, Int.toNat_of_nonpos h0]
    exact .zero m start dest
  · obtain ⟨n, rfl⟩ := Int.eq_ofNat_of_zero_le (show 0 ≤ size by omega)
    rw [Int.toNat_natCast] at hA ⊢
    obtain ⟨m₂, c, hlongs, hc, hM⟩ := copyLongs_moved hA (.zero m start dest) (Nat.zero_add n)
    rw [Flat.copyLoops]
    rw [Nat.add_zero, Nat.add_zero] at hlongs
    rw [hlongs]
    exact copyRest_moved hA hM (by omega)

theorem copyData_block (m : Bytes) (hA : Ahead start dest n) : Moved m start dest n (Flat.copyData m start dest n) := by
  have hA' : Ahead start dest (n : ℤ).toNat := hA
  exact copyLoops_moved m hA'

/-- Disjoint blocks, or a destination at or below the source. -/
theorem ahead_of (h : (∀ i < n, ∀ j < n, start + i ≠ dest + j) ∨ dest ≤ start) : Ahead start dest n := by
  intro i j hij hj hd
  rcases h with h | h
  · exact h j hj i (by omega) hd.symm
  · omega

/-- **Block copies are byte copies.** -/
theorem copies_exact (m : Bytes) (start dest : ℕ) (size : ℤ)
    (h : (∀ i < size.toNat, ∀ j < size.toNat, start + i ≠ dest + j) ∨ dest ≤ start) :
    Moved m start dest size.toNat (Flat.copyData m start dest size) ∧
    Moved m start dest size.toNat (Flat.copyFromUser m start dest size).2 ∧
    Moved m start dest size.toNat (Flat.copyToUser m start dest size).2 ∧
    (size ≤ 0 → Flat.copyData m start dest size = m ∧ (Flat.copyFromUser m start dest size).2 = m ∧
      (Flat.copyToUser m start dest size).2 = m) := by
  have hM := copyLoops_moved m (ahead_of h)
  refine ⟨hM, hM, hM, fun h0 => ?_⟩
  have hnone := copyLoops_none m start dest h0
  exact ⟨hnone, hnone, hnone⟩

/-- Nine bytes moved one down. -/
theorem copies_exact_down : Moved (BitVec.ofNat 8) 101 100 9 (Flat.copyData (BitVec.ofNat 8) 101 100 9) :=
  (copies_exact (BitVec.ofNat 8) 101 100 9 (.inr (by decide))).1

/-! ### The same copies through the page tables -/

/-- The memory that the page table `PT` shows. -/
def Mm.flat (m : Mm) (PT : Slot) : Bytes := fun x => m.ram (m.getFrame PT (x / pageSize)) (x % pageSize)

variable {mm mm' : Mm} {dir : Slot} {addr : Word} {b : Byte} {bs : List Byte}

theorem pages_ahead {P s d : ℕ} (h : s ≠ d) : Ahead (s * P) (d * P) P := by
  intro i j hij hj he
  rcases Nat.lt_or_gt_of_ne h with h | h
  · have := Nat.mul_le_mul_right P (Nat.succ_le_of_lt h)
    rw [Nat.succ_mul] at this
    omega
  · have := Nat.mul_le_mul_right P (Nat.succ_le_of_lt h)
    rw [Nat.succ_mul] at this
    omega

theorem page_offset {P i : ℕ} (s : ℕ) (hi : i < P) : (s * P + i) / P = s ∧ (s * P + i) % P = i := by
  rw [Nat.mul_comm, Nat.mul_add_div (by omega), Nat.div_eq_of_lt hi, Nat.mul_add_mod, Nat.mod_eq_of_lt hi]
  exact ⟨rfl, rfl⟩

/-- **A page copied** is `copy_data` of its bytes, if no other page has the destination's frame. -/
theorem copyPage_flat {s d : ℕ} (hs : s < totalPages) (hd : d < totalPages) (hsd : s ≠ d)
    (hown : ∀ p, p ≠ d → mm.getFrame (mm.dirPages dir) p ≠ mm.getFrame (mm.dirPages dir) d)
    (h : mm.copyPage dir s d = .ok mm') :
    mm'.flat (mm.dirPages dir) = Flat.copyData (mm.flat (mm.dirPages dir)) (s * pageSize) (d * pageSize) pageSize := by
  have htab := copyPage_same h
  obtain ⟨-, hram⟩ := copyPage_copies hs hd h
  have hframe : ∀ p, mm'.getFrame (mm.dirPages dir) p = mm.getFrame (mm.dirPages dir) p := fun p => by
    rw [Mm.getFrame, htab.table]
    rfl
  refine Moved.unique ⟨fun i hi => ?_, fun x hx => ?_⟩ (copyData_block _ (pages_ahead hsd))
  · obtain ⟨h1, h1'⟩ := page_offset s hi
    obtain ⟨h2, h2'⟩ := page_offset d hi
    rw [Mm.flat, Mm.flat, hframe, h1, h2, h1', h2', hram, Function.update_self]
  · have hp : x / pageSize ≠ d := by
      rintro rfl
      simp at hx
      omega
    rw [Mm.flat, Mm.flat, hframe, hram, Function.update_of_ne (hown _ hp)]

/-- A byte read through the page table, at an address that does not wrap around when it goes on. -/
theorem loadByte_flat (h : mm.loadByte dir addr = .ok b) :
    b = mm.flat (mm.dirPages dir) addr.toNat ∧ addr.toNat + 1 < 2 ^ 32 := by
  obtain ⟨⟨f, o⟩, ht, hb⟩ := bind_ok.1 h
  cases hb
  simp only [Mm.translate] at ht
  split at ht
  · rename_i hp
    cases ht
    refine ⟨rfl, ?_⟩
    have := hp.1
    simp at this
    omega
  · cases ht

theorem loadBytes_flat (h : mm.loadBytes dir addr n = .ok bs) :
    bs.length = n ∧ Holds (mm.flat (mm.dirPages dir)) addr.toNat bs := by
  induction n generalizing addr bs with
  | zero =>
    cases h
    exact ⟨rfl, fun i hi => absurd hi (Nat.not_lt_zero i)⟩
  | succ n ih =>
    obtain ⟨b, h1, h⟩ := bind_ok.1 h
    obtain ⟨cs, h2, h⟩ := bind_ok.1 h
    cases h
    obtain ⟨hb, hlt⟩ := loadByte_flat h1
    obtain ⟨hl, hH⟩ := ih h2
    refine ⟨by rw [List.length_cons, hl], fun i hi => ?_⟩
    cases i with
    | zero => exact hb.symm
    | succ i =>
      have hnext : (addr + 1).toNat = addr.toNat + 1 := by
        rw [BitVec.toNat_add]
        exact Nat.mod_eq_of_lt hlt
      rw [List.getElem_cons_succ, ← hH i, hnext, Nat.add_assoc, Nat.add_comm 1 i]

/-- **What `copy_from_user` hands to the kernel** is what its loops put into a buffer apart from the source. -/
theorem copyFromUser_flat (h : copyFromUser mm dir addr n = .ok bs) (hA : Ahead addr.toNat dest n) :
    Holds (Flat.copyFromUser (mm.flat (mm.dirPages dir)) addr.toNat dest n).2 dest bs := by
  obtain ⟨hl, hH⟩ := loadBytes_flat h
  have hM := copyData_block (mm.flat (mm.dirPages dir)) hA
  intro i hi
  rw [← hH i hi]
  exact hM.moved i (by omega)

end Zeos
