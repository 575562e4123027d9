import Zeos.Libc

/-!
# `itoa`

The digits come out of the first loop with the lowest one first, and the second loop turns them round.

* `itoaDigits_put`, `itoaReverse_put`: what each of the loops leaves.
* `itoa_put`: **`itoa` stores the decimal string and a zero byte**, and nothing else.
* `itoa_decimal`: what this string is, and how `strlen` reads it.
* `perror_writes`: `perror` has room for every error number, and writes its digits.
-/

namespace Zeos

open ByteMem ForLoop

variable {m : Bytes} {a b n f i : ℕ} {s : List Byte}

/-! ### Decimal strings -/

def digit (d : ℕ) : Byte := BitVec.ofNat 8 d + ascii '0'

/-- The digits of `n`, the highest one first. -/
def decimal (n : ℕ) : List Byte := (Nat.toDigits 10 n).map ascii

def IsDigit (c : Byte) : Prop := (ascii '0').toNat ≤ c.toNat ∧ c.toNat ≤ (ascii '9').toNat

/-- What a string of digits says in base 10. -/
def readDecimal (s : List Byte) : ℕ := s.foldl (fun v c => 10 * v + (c.toNat - (ascii '0').toNat)) 0

theorem digit_toNat {d : ℕ} (hd : d < 10) : (digit d).toNat = (ascii '0').toNat + d := by
  have h0 : (ascii '0').toNat = 48 := rfl
  rw [digit, BitVec.toNat_add, BitVec.toNat_ofNat, h0]
  omega

theorem digit_isDigit {d : ℕ} (hd : d < 10) : IsDigit (digit d) := by
  have h0 : (ascii '0').toNat = 48 := rfl
  have h9 : (ascii '9').toNat = 57 := rfl
  rw [IsDigit, digit_toNat hd, h0, h9]
  omega

theorem IsDigit.ne_zero {c : Byte} (h : IsDigit c) : c ≠ 0 := by
  rintro rfl
  exact absurd h.1 (by decide)

theorem ascii_digitChar : ∀ d < 10, ascii (Nat.digitChar d) = digit d := by decide

theorem decimal_one {d : ℕ} (hd : d < 10) : decimal d = [digit d] := by
  rw [decimal, Nat.toDigits_of_lt_base hd, List.map_singleton, ascii_digitChar d hd]

theorem decimal_more {d : ℕ} (hn : 0 < n) (hd : d < 10) : decimal (10 * n + d) = decimal n ++ [digit d] := by
  rw [← decimal_one hd, decimal, decimal, decimal, ← List.map_append, Nat.toDigits_append_toDigits (by decide) hn hd]

/-- The induction on the string of a number, from its highest digit on. -/
theorem decimal_induct {P : ℕ → Prop} (one : ∀ d < 10, P d) (more : ∀ n d, 0 < n → d < 10 → P n → P (10 * n + d))
    (n : ℕ) : P n := by
  induction n using Nat.strong_induction_on with
  | _ n ih =>
    by_cases hn : n < 10
    · exact one n hn
    · have h := more (n / 10) (n % 10) (by omega) (Nat.mod_lt n (by decide)) (ih (n / 10) (by omega))
      rwa [Nat.div_add_mod] at h

theorem decimal_digits (n : ℕ) : ∀ c ∈ decimal n, IsDigit c := by
  induction n using decimal_induct with
  | one d hd =>
    rw [decimal_one hd]
    simpa using digit_isDigit hd
  | more n d hn hd ih =>
    rw [decimal_more hn hd]
    intro c hc
    rcases List.mem_append.1 hc with hc | hc
    · exact ih c hc
    · rw [List.mem_singleton.1 hc]
      exact digit_isDigit hd

theorem decimal_ne_nil : decimal n ≠ [] := by
  rw [decimal, Ne, List.map_eq_nil_iff]
  exact Nat.toDigits_ne_nil

/-- No leading zero. -/
theorem decimal_head (n : ℕ) : 0 < n → (decimal n).head? ≠ some (ascii '0') := by
  induction n using decimal_induct with
  | one d hd =>
    intro h0 h
    rw [decimal_one hd] at h
    have hz := congrArg BitVec.toNat (Option.some.inj h)
    rw [digit_toNat hd] at hz
    omega
  | more n d hn hd ih =>
    intro _
    rw [decimal_more hn hd, List.head?_append_of_ne_nil _ decimal_ne_nil]
    exact ih hn

theorem readDecimal_append (s : List Byte) (c : Byte) :
    readDecimal (s ++ [c]) = 10 * readDecimal s + (c.toNat - (ascii '0').toNat) := by
  simp [readDecimal]

/-- **Read back** the string is the number. -/
theorem readDecimal_decimal (n : ℕ) : readDecimal (decimal n) = n := by
  induction n using decimal_induct with
  | one d hd =>
    rw [decimal_one hd, ← List.nil_append [digit d], readDecimal_append, digit_toNat hd, Nat.add_sub_cancel_left]
    exact Nat.zero_add d
  | more n d hn hd ih =>
    rw [decimal_more hn hd, readDecimal_append, ih, digit_toNat hd, Nat.add_sub_cancel_left]

/-! ### The loops -/

/-- A round of the first loop, with `s` in the buffer so far. -/
theorem itoaDigits_step {d : ℕ} (m : Bytes) (b : ℕ) (s : List Byte) (hd : d < 10) (h : 0 < 10 * n + d) :
    itoaDigits b (put m b s) s.length (10 * n + d : ℕ) =
      itoaDigits b (put m b (s ++ [digit d])) (s ++ [digit d]).length n := by
  have hchar : BitVec.ofInt 8 (((10 * n + d : ℕ) : ℤ).tmod 10) + ascii '0' = digit d := by
    rw [digit, Int.tmod_eq_emod_of_nonneg (by omega), show ((10 * n + d : ℕ) : ℤ) % 10 = d by omega]
    rfl
  have hrest : ((10 * n + d : ℕ) : ℤ).tdiv 10 = n := by
    rw [Int.tdiv_eq_ediv_of_nonneg (by omega)]
    omega
  have hput : Function.update (put m b s) (b + s.length) (digit d) = put m b (s ++ [digit d]) := by
    rw [update_eq_put, put_append]
  have hlen : s.length + 1 = (s ++ [digit d]).length := by simp
  rw [itoaDigits, if_pos (by omega), hchar, hrest, hput, hlen]

theorem itoaDigits_zero (m : Bytes) (b i : ℕ) : itoaDigits b m i (0 : ℕ) = (m, i) := by
  rw [itoaDigits, if_neg (by omega)]

/-- **The first loop** stores the digits of `n`, the lowest one first. -/
theorem itoaDigits_put (m : Bytes) (b : ℕ) (n : ℕ) : 0 < n → ∀ s : List Byte, itoaDigits b (put m b s) s.length n =
    (put m b (s ++ (decimal n).reverse), (s ++ (decimal n).reverse).length) := by
  induction n using decimal_induct with
  | one d hd =>
    intro h s
    have hstep := itoaDigits_step (n := 0) m b s hd (by omega)
    rw [Nat.mul_zero, Nat.zero_add, itoaDigits_zero] at hstep
    rw [hstep, decimal_one hd, List.reverse_singleton]
  | more n d hn hd ih =>
    intro h s
    rw [itoaDigits_step m b s hd h, ih hn, decimal_more hn hd, List.reverse_append, List.reverse_singleton,
      List.append_assoc]

theorem itoaReverse_put (m : Bytes) (b : ℕ) (s : List Byte) : itoaReverse b s.length (put m b s) = put m b s.reverse :=
  swaps_reverse m b s

/-- **What `itoa` stores.** -/
theorem itoa_put (m : Bytes) (n b : ℕ) : itoa m n b = put m b (decimal n ++ [0]) := by
  unfold itoa
  by_cases hn : n = 0
  · subst hn
    rw [if_pos Int.natCast_zero, decimal_one (by decide)]
    simp only
    rw [update_eq_put, update_eq_put]
    exact put_append
  · have hloop := itoaDigits_put m b n (by omega) []
    rw [put_nil, List.length_nil, List.nil_append] at hloop
    rw [if_neg (by omega), hloop]
    simp only
    rw [itoaReverse_put, List.reverse_reverse, List.length_reverse, update_eq_put]
    exact put_append

/-- `strlen` on a string. -/
theorem strlen_holds (h : Holds m a (s ++ [0])) (hs : ∀ c ∈ s, c ≠ 0) (hf : s.length < f) :
    strlen f m a = some s.length := by
  have hfrom : ∀ f i, i ≤ s.length → s.length < i + f → strlenFrom m a f i = some s.length := by
    intro f
    induction f with
    | zero => intro i hi hf; omega
    | succ f ih =>
      intro i hi hf
      rw [strlenFrom, h i (by simp; omega)]
      by_cases hlt : i < s.length
      · rw [List.getElem_append_left hlt, if_pos (hs _ (List.getElem_mem hlt))]
        exact ih (i + 1) hlt (by omega)
      · have hil : i = s.length := by omega
        subst hil
        simp
  exact hfrom f 0 (Nat.zero_le _) (by omega)

/-- **`itoa` prints decimal.** -/
theorem itoa_decimal (m : Bytes) (a : ℤ) (ha : 0 ≤ a) (b : ℕ) : ∃ s : List Byte, s ≠ [] ∧ (∀ c ∈ s, IsDigit c) ∧
    (a = 0 → s = [ascii '0']) ∧ (a ≠ 0 → s.head? ≠ some (ascii '0')) ∧ readDecimal s = a ∧
    Holds (itoa m a b) b (s ++ [0]) ∧ (∀ f, s.length < f → strlen f (itoa m a b) b = some s.length) ∧
    ∀ x, ¬ (b ≤ x ∧ x ≤ b + s.length) → itoa m a b x = m x := by
  obtain ⟨n, rfl⟩ := Int.eq_ofNat_of_zero_le ha
  rw [itoa_put]
  have hH := put_holds m b (decimal n ++ [0])
  refine ⟨decimal n, decimal_ne_nil, decimal_digits n, fun h => ?_, fun h => decimal_head n (by omega), ?_, hH,
    fun f hf => strlen_holds hH (fun c hc => (decimal_digits n c hc).ne_zero) hf, fun x hx => put_off ?_⟩
  · obtain rfl : n = 0 := by omega
    exact decimal_one (by decide)
  · rw [readDecimal_decimal]
  · rw [List.length_append, List.length_singleton]
    omega

/-- The largest `int`. -/
theorem itoa_decimal_max : ∃ s : List Byte, s ≠ [] ∧ (∀ c ∈ s, IsDigit c) ∧
    ((2147483647 : ℤ) = 0 → s = [ascii '0']) ∧ ((2147483647 : ℤ) ≠ 0 → s.head? ≠ some (ascii '0')) ∧
    readDecimal s = (2147483647 : ℤ) ∧ Holds (itoa (fun _ => 0) 2147483647 0) 0 (s ++ [0]) ∧
    (∀ f, s.length < f → strlen f (itoa (fun _ => 0) 2147483647 0) 0 = some s.length) ∧
    ∀ x, ¬ (0 ≤ x ∧ x ≤ 0 + s.length) → itoa (fun _ => 0) 2147483647 0 x = (fun _ => 0) x :=
  itoa_decimal (fun _ => 0) 2147483647 (by decide) 0

/-! ### `perror` -/

/-- An `int` has ten digits at most. -/
theorem decimal_length (h : n < 10 ^ 10) : (decimal n).length ≤ 10 := by
  rw [decimal, List.length_map]
  exact (Nat.length_toDigits_le_iff (by decide) (by decide)).2 h

theorem perror_writes (m : Bytes) (buffer : ℕ) (h : n < 2 ^ 31) : perror m buffer n =
    some (put m buffer (decimal n ++ [0]), .write 1 (BitVec.ofNat 32 buffer) (BitVec.ofNat 32 (decimal n).length)) := by
  have hlen := decimal_length (n := n) (by omega)
  have hH := put_holds m buffer (decimal n ++ [0])
  have hstr := strlen_holds (f := 256) hH (fun c hc => (decimal_digits n c hc).ne_zero) (by omega)
  rw [perror, itoa_put, hstr]
  rfl

end Zeos
