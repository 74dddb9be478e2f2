import Mathlib.Data.FinEnum
import ForSt.Lib.Word64
import ForSt.Util.Hash
/-!
`BijectiveHash2x64` loses nothing: `BijectiveUnhash2x64` with the same seed undoes it step by step
(`bijectiveUnhash2x64_bijectiveHash2x64`), each step of the unhash undoing one of the hash in the reverse order
(`Word64`), and since a map of the finite set of word pairs that has a left inverse is onto, the hash also undoes
the unhash (`bijectiveHash2x64_bijectiveUnhash2x64`).
-/

namespace ForSt.Hash

open ForSt.Word64

/-- the low word of the 128-bit product is the 64-bit product -/
@[simp] theorem lower64of128_multiply64to128 (a b : UInt64) : lower64of128 (multiply64to128 a b) = a * b := by
  apply UInt64.toNat_inj.mp
  rw [lower64of128, multiply64to128, UInt64.toNat_ofNat', UInt64.toNat_mul]

/-- the three multipliers of the hash and their inverses modulo `2 ^ 64`, and the one modulo `2 ^ 32` -/
theorem avalanche_mul_inv : (0x165667919E3779F9 : UInt64) * 0x8da8ee41d6df849 = 1 := by decide
theorem prime2_mul_inv : (0xC2B2AE3D27D4EB4F : UInt64) * 0xba79078168d4baf = 1 := by decide
theorem prime1_mul_inv : (0x9E3779B185EBCA87 : UInt64) * 0x887493432badb37 = 1 := by decide
theorem prime32_mul_inv : (1 + (0x85EBCA76 : UInt64).toUInt32) * 0xb6c92f47 = 1 := by decide

@[simp] theorem xxh3Unavalanche_xxh3Avalanche (h : UInt64) : xxh3Unavalanche (xxh3Avalanche h) = h := by
  simp only [xxh3Avalanche, xxh3Unavalanche]
  rw [xor_shiftRight_involutive _ 32 (by decide) (by decide), mul_mul_of_mul_eq_one avalanche_mul_inv,
    xor_shiftRight_involutive _ 37 (by decide) (by decide)]

/-- a sum less its first term -/
theorem add_sub_cancel_left' (a b : UInt64) : a + b - a = b := by
  rw [UInt64.add_comm, UInt64.add_sub_cancel]

/-- `BijectiveUnhash2x64(seed)` undoes `BijectiveHash2x64(seed)` -/
theorem bijectiveUnhash2x64_bijectiveHash2x64 (h l seed : UInt64) :
    bijectiveUnhash2x64 (bijectiveHash2x64 h l seed).1 (bijectiveHash2x64 h l seed).2 seed = (h, l) := by
  dsimp only [bijectiveHash2x64, bijectiveUnhash2x64]
  -- the avalanches, then the second product with its carry into the high word
  rw [xxh3Unavalanche_xxh3Avalanche, xxh3Unavalanche_xxh3Avalanche]
  simp only [lower64of128_multiply64to128, mul_mul_of_mul_eq_one prime2_mul_inv, add_sub_cancel_left']
  -- the swapped high word xor-ed out, the length constant, and the first product
  rw [xor_xor_cancel, UInt64.add_sub_cancel, mul_mul_of_mul_eq_one prime1_mul_inv, add_sub_cancel_left']
  -- the low half of the flipped high word added in
  simp only [lower32of64]
  rw [unmix_low32 _ _ _ (by decide) prime32_mul_inv, xor_xor_cancel, UInt64.xor_assoc l h, xor_xor_cancel]

/-- the hash and the unhash with one seed, as maps of word pairs -/
theorem bijectiveHash2x64_leftInverse (seed : UInt64) :
    Function.LeftInverse (fun p : UInt64 × UInt64 => bijectiveUnhash2x64 p.1 p.2 seed)
      (fun p => bijectiveHash2x64 p.1 p.2 seed) :=
  fun p => bijectiveUnhash2x64_bijectiveHash2x64 p.1 p.2 seed

/-- two pairs with one hash are one pair -/
theorem eq_of_bijectiveHash2x64_eq {h l h' l' seed : UInt64}
    (heq : bijectiveHash2x64 h l seed = bijectiveHash2x64 h' l' seed) : h = h' ∧ l = l' :=
  Prod.mk.inj ((bijectiveHash2x64_leftInverse seed).injective heq)

/-- `BijectiveHash2x64(seed)` undoes `BijectiveUnhash2x64(seed)`: a map of the finite set of word pairs with a left
inverse is onto, so the left inverse is also a right one -/
theorem bijectiveHash2x64_bijectiveUnhash2x64 (h l seed : UInt64) :
    bijectiveHash2x64 (bijectiveUnhash2x64 h l seed).1 (bijectiveUnhash2x64 h l seed).2 seed = (h, l) := by
  have hleft := bijectiveHash2x64_leftInverse seed
  have honto : Function.Surjective (fun p : UInt64 × UInt64 => bijectiveHash2x64 p.1 p.2 seed) :=
    Finite.injective_iff_surjective.mp hleft.injective
  exact hleft.rightInverse_of_surjective honto (h, l)

end ForSt.Hash
