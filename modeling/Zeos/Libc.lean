import Zeos.Lib.Bytes
import Zeos.Entry

/-!
# The library of the user programs (`libc.c`)

Strings are in a flat memory, each ended by a zero byte.
-/

namespace Zeos

open ByteMem ForLoop

def ascii (c : Char) : Byte := BitVec.ofNat 8 c.toNat

/-- The first loop of `itoa`, with `i`: the digits of `a` from `b[i]` on, the lowest one first. -/
def itoaDigits (b : ℕ) (m : Bytes) (i : ℕ) (a : ℤ) : Bytes × ℕ :=
  if 0 < a then
    itoaDigits b (Function.update m (b + i) (BitVec.ofInt 8 (a.tmod 10) + ascii '0')) (i + 1) (a.tdiv 10)
  else (m, i)
termination_by a.toNat
decreasing_by
  rw [Int.tdiv_eq_ediv_of_nonneg (by omega)]
  omega

/-- The second loop: the `i` bytes at `b` in the other order. -/
def itoaReverse (b i : ℕ) (m : Bytes) : Bytes :=
  forRange 0 (i / 2) m fun m i1 =>
    let c := m (b + i1)
    let m := Function.update m (b + i1) (m (b + (i - i1 - 1)))
    Function.update m (b + (i - i1 - 1)) c

def itoa (m : Bytes) (a : ℤ) (b : ℕ) : Bytes :=
  if a = 0 then
    let m := Function.update m b (ascii '0')
    Function.update m (b + 1) 0
  else
    let (m, i) := itoaDigits b m 0 a
    let m := itoaReverse b i m
    Function.update m (b + i) 0

/-- The loop of `strlen` from `i` on, for `f` rounds; `none` when they do not bring it to a zero byte. -/
def strlenFrom (m : Bytes) (a : ℕ) : ℕ → ℕ → Option ℕ
  | 0, _ => none
  | f + 1, i => if m (a + i) ≠ 0 then strlenFrom m a f (i + 1) else some i

def strlen (f : ℕ) (m : Bytes) (a : ℕ) : Option ℕ := strlenFrom m a f 0

/-- `perror` with its 256 bytes at `buffer`: the memory it leaves and the call that it makes, unless its
`strlen` goes beyond the buffer. -/
def perror (m : Bytes) (buffer : ℕ) (errno : ℤ) : Option (Bytes × Call) := do
  let m := itoa m errno buffer
  let n ← strlen 256 m buffer
  pure (m, .write 1 (BitVec.ofNat 32 buffer) (BitVec.ofNat 32 n))

/-- Screen to short. -/
def stos (ch color : Byte) : BitVec 16 :=
  let col := color.signExtend 16 <<< 8
  ch.signExtend 16 ||| col

end Zeos
