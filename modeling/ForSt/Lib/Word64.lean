import ForSt.Lib.BitFields
/-!
The invertible steps of a 64-bit mixing function, over `UInt64` and `UInt32`. An xor with the word shifted right by
at least half its width undoes itself (`xor_shiftRight_involutive`), a product with an odd constant is undone by the
product with its inverse (`mul_mul_of_mul_eq_one`), and an xor or a sum is undone by the same xor or the difference.
Adding `K` times the low half of a word to it is undone, when `1 + K` is invertible modulo `2 ^ 32`, by reading the
low half back through the inverse and subtracting its product with `K` from the high half alone
(`unmix_low32`).
-/

namespace ForSt.Word64

/-- the word shifted right twice by half its width or more has no bits left -/
theorem shiftRight_shiftRight_eq_zero (x k : UInt64) (hk : 32 ≤ k.toNat) (hk64 : k.toNat < 64) :
    x >>> k >>> k = 0 := by
  apply UInt64.toNat_inj.mp
  rw [UInt64.toNat_shiftRight, UInt64.toNat_shiftRight, Nat.mod_eq_of_lt hk64, Nat.shiftRight_eq_div_pow,
    Nat.shiftRight_eq_div_pow, Nat.div_div_eq_div_mul, ← Nat.pow_add]
  have hwide : 2 ^ 64 ≤ 2 ^ (k.toNat + k.toNat) := Nat.pow_le_pow_right Nat.two_pos (by omega)
  exact Nat.div_eq_of_lt (Nat.lt_of_lt_of_le x.toNat_lt hwide)

/-- `h ^= h >> k` twice is the identity when `k` is at least half the width -/
theorem xor_shiftRight_involutive (x k : UInt64) (hk : 32 ≤ k.toNat) (hk64 : k.toNat < 64) :
    (x ^^^ x >>> k) ^^^ (x ^^^ x >>> k) >>> k = x := by
  rw [UInt64.shiftRight_xor, shiftRight_shiftRight_eq_zero x k hk hk64, UInt64.xor_zero, UInt64.xor_assoc,
    UInt64.xor_self, UInt64.xor_zero]

/-- a product with `c` is undone by the product with an inverse of `c` -/
theorem mul_mul_of_mul_eq_one {x c d : UInt64} (h : c * d = 1) : x * c * d = x := by
  rw [UInt64.mul_assoc, h, UInt64.mul_one]

/-- an xor is undone by the same xor -/
theorem xor_xor_cancel (x y : UInt64) : x ^^^ y ^^^ y = x := by
  rw [UInt64.xor_assoc, UInt64.xor_self, UInt64.xor_zero]

/-- the low half of `x + K * low32(x)` is `low32(x) * (1 + K)` -/
theorem toUInt32_add_toUInt32_mul (x K : UInt64) :
    (x + x.toUInt32.toUInt64 * K).toUInt32 = x.toUInt32 * (1 + K.toUInt32) := by
  rw [UInt64.toUInt32_add, UInt64.toUInt32_mul, UInt32.toUInt32_toUInt64, UInt32.mul_add, UInt32.mul_one]

/-- the mask of the high half of a word, as a natural number -/
theorem toNat_high_mask : (0xFFFFFFFF00000000 : UInt64).toNat = 2 ^ 64 - 1 - (2 ^ 32 - 1) := rfl

/-- the step `hi += Lower32of64(hi) * K` undone: the low half is read back through the inverse `K'` of `1 + K`,
and the high half is what is left after taking off the high half of its product with `K` -/
theorem unmix_low32 (x K : UInt64) (K' : UInt32) (hK : K.toNat < 2 ^ 32) (hinv : (1 + K.toUInt32) * K' = 1) :
    let y := x + x.toUInt32.toUInt64 * K
    let t := y.toUInt32 * K'
    ((y - t.toUInt64) &&& 0xFFFFFFFF00000000) - ((t.toUInt64 * K) &&& 0xFFFFFFFF00000000) + t.toUInt64 = x := by
  intro y t
  have ht : t = x.toUInt32 := by
    show (x + x.toUInt32.toUInt64 * K).toUInt32 * K' = x.toUInt32
    rw [toUInt32_add_toUInt32_mul, UInt32.mul_assoc, hinv, UInt32.mul_one]
  rw [ht]
  apply UInt64.toNat_inj.mp
  -- in ℕ the low half is `X % 2 ^ 32` and its product with `K` is some `B` below `2 ^ 64`
  have hB : x.toNat % 2 ^ 32 * K.toNat < 2 ^ 64 := by
    have hlow : x.toNat % 2 ^ 32 < 2 ^ 32 := Nat.mod_lt _ (by decide)
    calc x.toNat % 2 ^ 32 * K.toNat < 2 ^ 32 * 2 ^ 32 := Nat.mul_lt_mul'' hlow hK
      _ = 2 ^ 64 := by rw [← Nat.pow_add]
  simp only [y, UInt64.toNat_add, UInt64.toNat_sub, UInt64.toNat_and, UInt64.toNat_mul, UInt32.toNat_toUInt64,
    UInt64.toNat_toUInt32, toNat_high_mask]
  rw [BitFields.and_not_low_mask (Nat.mod_lt _ (by decide)) (by decide),
    BitFields.and_not_low_mask (Nat.mod_lt _ (by decide)) (by decide), Nat.mod_eq_of_lt hB]
  generalize x.toNat % 2 ^ 32 * K.toNat = B at hB ⊢
  have hx := x.toNat_lt
  omega

end ForSt.Word64
