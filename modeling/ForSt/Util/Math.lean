import Mathlib
import ForSt.Lib.Gf2
/-!
The bit helpers of `util/math.h` that the model uses.

`CountTrailingZeroBits(v)`, for `v != 0`, is the number of low zero bits, which the builtins and the portable code
all compute; the model counts them by halving (`countTrailingZeroBits_spec`: what is left is odd). `BitParity(v)` is
the parity of the bits set, as `__builtin_parity` and `BitsSetToOne(v) & 1` compute it: the GF(2) sum of the bits.
-/

namespace ForSt

/-- `CountTrailingZeroBits(v)` for `v ≠ 0` -/
def countTrailingZeroBits (v : ℕ) : ℕ :=
  if v = 0 ∨ v % 2 = 1 then 0 else countTrailingZeroBits (v / 2) + 1
termination_by v
decreasing_by omega

/-- `BitParity(v)` -/
def bitParity {w : ℕ} (v : BitVec w) : Bool := Gf2.bsum v.getLsbD w

/-- `BitParity(a & b)`: the GF(2) product of the words' bits -/
theorem bitParity_and {w : ℕ} (a b : BitVec w) :
    bitParity (a &&& b) = Gf2.bsum (fun k => a.getLsbD k && b.getLsbD k) w :=
  Gf2.bsum_congr fun _ _ => BitVec.getLsbD_and

theorem bitParity_xor {w : ℕ} (a b : BitVec w) : bitParity (a ^^^ b) = (bitParity a ^^ bitParity b) := by
  unfold bitParity
  rw [← Gf2.bsum_xor]
  exact Gf2.bsum_congr fun _ _ => BitVec.getLsbD_xor

/-- `CountTrailingZeroBits(v)` is the largest `r` with `2 ^ r` dividing `v`: the quotient is odd -/
theorem countTrailingZeroBits_spec (v : ℕ) (hv : 0 < v) :
    v / 2 ^ countTrailingZeroBits v % 2 = 1 ∧ v / 2 ^ countTrailingZeroBits v * 2 ^ countTrailingZeroBits v = v := by
  induction v using Nat.strongRecOn with
  | ind v ih =>
    rw [countTrailingZeroBits]
    split
    · rename_i hodd
      simp only [Nat.pow_zero, Nat.div_one, Nat.mul_one, and_true]
      omega
    · rename_i heven
      -- an even `v`: its trailing zeroes are those of `v / 2` and one more
      obtain ⟨hq, hmul⟩ := ih (v / 2) (by omega) (by omega)
      rw [Nat.pow_succ', ← Nat.div_div_eq_div_mul, Nat.mul_left_comm, hmul]
      exact ⟨hq, by omega⟩

section word

variable {w : ℕ} {cr : BitVec w}

/-- the trailing zeroes of a nonzero word are its low bits below the first one set -/
theorem getLsbD_countTrailingZeroBits (hne : cr ≠ 0) : cr.getLsbD (countTrailingZeroBits cr.toNat) = true := by
  have hpos : 0 < cr.toNat := Nat.pos_of_ne_zero (fun h => hne (BitVec.eq_of_toNat_eq (by simpa using h)))
  rw [BitVec.getLsbD, Nat.testBit_eq_decide_div_mod_eq, (countTrailingZeroBits_spec _ hpos).1]
  rfl

theorem getLsbD_of_lt_countTrailingZeroBits (hne : cr ≠ 0) {k : ℕ} (hk : k < countTrailingZeroBits cr.toNat) :
    cr.getLsbD k = false := by
  have hpos : 0 < cr.toNat := Nat.pos_of_ne_zero (fun h => hne (BitVec.eq_of_toNat_eq (by simpa using h)))
  obtain ⟨-, hmul⟩ := countTrailingZeroBits_spec _ hpos
  rw [BitVec.getLsbD, ← hmul, Nat.testBit_mul_two_pow, decide_eq_false (by omega), Bool.false_and]

theorem countTrailingZeroBits_lt (hne : cr ≠ 0) : countTrailingZeroBits cr.toNat < w := by
  have hbit := getLsbD_countTrailingZeroBits hne
  refine Nat.lt_of_not_le fun hge => ?_
  rw [BitVec.getLsbD_of_ge _ _ hge] at hbit
  exact Bool.false_ne_true hbit

/-- a word with its low bit set has no trailing zeroes -/
theorem countTrailingZeroBits_eq_zero (h : cr.getLsbD 0 = true) : countTrailingZeroBits cr.toNat = 0 := by
  rw [countTrailingZeroBits, if_pos (Or.inr ?_)]
  rw [BitVec.getLsbD, Nat.testBit_zero] at h
  simpa using h

end word

end ForSt
