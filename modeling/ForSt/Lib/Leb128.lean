import Mathlib.Tactic
/-!
Base-128 encoding of natural numbers: seven bits to a byte, lowest group first, with the high bit set on every byte
but the last.

`encode` is stated arithmetically; `encode_of_ge` gives its step in the bitwise terms byte-level code is written in
(`v | 128` for the byte, `v >> 7` for the rest), so that an encoder written with shifts and masks can be compared with
it case by case. The byte facts below (`or_128_mod`, `and_128_eq_zero`, `or_shiftLeft_eq_add`) are what a decoder
that masks, shifts and ORs groups into an accumulator needs.
-/

namespace ForSt.Leb128

/-! ## Bits of a byte -/

/-- OR-ing a group into bits the accumulator does not use is addition -/
theorem or_shiftLeft_eq_add {r s : ℕ} (x : ℕ) (h : r < 2 ^ s) : r ||| x <<< s = r + x * 2 ^ s := by
  rw [Nat.or_comm, ← Nat.shiftLeft_add_eq_or_of_lt h, Nat.shiftLeft_eq, Nat.add_comm]

theorem mod_or_128 (v : ℕ) : v % 128 ||| 128 = v % 128 + 128 := by
  simpa using or_shiftLeft_eq_add 1 (Nat.mod_lt v (by norm_num : 0 < 2 ^ 7))

/-- the low byte of `v | 128`: the low seven bits of `v` with the high bit set -/
theorem or_128_mod (v : ℕ) : (v ||| 128) % 256 = v % 128 + 128 := by
  rw [← mod_or_128]
  apply Nat.eq_of_testBit_eq
  intro i
  have h256 : (256 : ℕ) = 2 ^ 8 := by norm_num
  have h128 : (128 : ℕ) = 2 ^ 7 := by norm_num
  rw [h256, h128, Nat.testBit_mod_two_pow, Nat.testBit_or, Nat.testBit_or, Nat.testBit_mod_two_pow,
    Nat.testBit_two_pow]
  -- bit 7 is set on both sides; below it both are `v`'s bits, above it both are clear
  by_cases hi : i < 7
  · simp [hi, show i < 8 by omega, show 7 ≠ i by omega]
  · by_cases h7 : i = 7
    · subst h7; simp
    · simp [hi, show ¬ i < 8 by omega, show 7 ≠ i by omega]

theorem testBit_seven {n : ℕ} (h : n < 256) : n.testBit 7 = decide (128 ≤ n) := by
  rw [Nat.testBit_eq_decide_div_mod_eq]
  by_cases hn : 128 ≤ n
  · simp [hn]; omega
  · simp [hn]; omega

/-- a byte's high bit is clear exactly when it is below 128 -/
theorem and_128_eq_zero {n : ℕ} (h : n < 256) : n &&& 128 = 0 ↔ n < 128 := by
  have h128 : (128 : ℕ) = 2 ^ 7 := by norm_num
  constructor
  · intro hz
    by_contra hge
    have h7 : (n &&& 128).testBit 7 = true := by
      rw [Nat.testBit_and, testBit_seven h, h128, Nat.testBit_two_pow]; simp; omega
    rw [hz] at h7
    simp at h7
  · intro hlt
    apply Nat.eq_of_testBit_eq
    intro i
    rw [Nat.testBit_and, h128, Nat.testBit_two_pow, Nat.zero_testBit]
    by_cases hi : 7 = i
    · subst hi; rw [Nat.testBit_lt_two_pow (by omega)]; rfl
    · simp [hi]

theorem and_127 (v : ℕ) : v &&& 127 = v % 128 := Nat.and_two_pow_sub_one_eq_mod v 7

theorem ofNat_or_128 (v : ℕ) : UInt8.ofNat (v ||| 128) = UInt8.ofNat (v % 128 + 128) := by
  apply UInt8.toNat_inj.1
  have h256 : (2 : ℕ) ^ 8 = 256 := by norm_num
  simp only [UInt8.toNat_ofNat', h256, or_128_mod]
  omega

/-! ## Encoding -/

/-- the base-128 groups of `v`, lowest first; all bytes but the last carry the high bit -/
def encode (v : ℕ) : List UInt8 :=
  if v < 128 then [UInt8.ofNat v] else UInt8.ofNat (v % 128 + 128) :: encode (v / 128)
termination_by v
decreasing_by omega

theorem encode_of_lt {v : ℕ} (h : v < 128) : encode v = [UInt8.ofNat v] := by
  rw [encode, if_pos h]

/-- one step of the encoding, as shift-and-mask code writes it -/
theorem encode_of_ge {v : ℕ} (h : 128 ≤ v) : encode v = UInt8.ofNat (v ||| 128) :: encode (v >>> 7) := by
  rw [encode, if_neg (by omega), ofNat_or_128, Nat.shiftRight_eq_div_pow]

theorem encode_ne_nil (v : ℕ) : encode v ≠ [] := by
  rw [encode]; split <;> simp

/-- a number below `128 ^ (k + 1)` takes at most `k + 1` bytes -/
theorem length_encode_le {k v : ℕ} (h : v < 128 ^ (k + 1)) : (encode v).length ≤ k + 1 := by
  induction k generalizing v with
  | zero => rw [encode_of_lt (by simpa using h)]; simp
  | succ k ih =>
    by_cases hv : v < 128
    · rw [encode_of_lt hv]; simp
    · rw [encode, if_neg hv, List.length_cons]
      have hdiv : v / 128 < 128 ^ (k + 1) := by
        rw [Nat.div_lt_iff_lt_mul (by norm_num), ← pow_succ]; exact h
      have := ih hdiv
      omega

end ForSt.Leb128
