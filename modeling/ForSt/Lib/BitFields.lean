import Mathlib.Data.Nat.Bitwise
/-!
Two fields of one machine word, as natural numbers: a high field `y` above a low field `d` of `k` bits is the word
`y * 2 ^ k + d`. Or-ing the fields in is adding them (`mul_two_pow_or`), the mask `2 ^ k - 1` reads back the low field
(`mul_two_pow_add_and_low`), and the complement of that mask in a `w`-bit word reads back the high field in place
(`mul_two_pow_add_and_high`), the complement clearing the low bits of any word (`and_not_low_mask`). Words compare
as their high fields, then their low ones (`compare_mul_two_pow_add`). An xor with a number below `2 ^ k` changes
only the low field, so it keeps a word below any multiple of `2 ^ k` it was below (`xor_lt_mul_two_pow`).
-/

namespace ForSt.BitFields

/-- in a `w`-bit word the complement of the low `k` bits is `2 ^ (w - k) - 1` shifted over them -/
theorem not_low_mask_eq {w k : ℕ} (hk : k ≤ w) : 2 ^ w - 1 - (2 ^ k - 1) = (2 ^ (w - k) - 1) * 2 ^ k := by
  have hsplit : 2 ^ w = 2 ^ (w - k) * 2 ^ k := by
    rw [← Nat.pow_add, Nat.sub_add_cancel hk]
  have h1 : 1 ≤ 2 ^ k := Nat.one_le_two_pow
  have h2 : 1 ≤ 2 ^ (w - k) := Nat.one_le_two_pow
  rw [hsplit, Nat.sub_mul, Nat.one_mul]
  omega

/-- masking a `w`-bit word with the complement of its low `k` bits clears them -/
theorem and_not_low_mask {x w k : ℕ} (hx : x < 2 ^ w) (hk : k ≤ w) :
    x &&& (2 ^ w - 1 - (2 ^ k - 1)) = x / 2 ^ k * 2 ^ k := by
  apply Nat.eq_of_testBit_eq
  intro i
  rw [not_low_mask_eq hk, Nat.testBit_and, Nat.testBit_mul_two_pow, Nat.testBit_mul_two_pow,
    Nat.testBit_two_pow_sub_one, Nat.testBit_div_two_pow]
  -- bits below `k` are cleared on both sides; above `w` the word has none
  by_cases hki : k ≤ i
  · rw [decide_eq_true hki, Nat.sub_add_cancel hki]
    by_cases hi : i < w
    · rw [decide_eq_true (show i - k < w - k by omega)]
      simp
    · have hzero : x.testBit i = false :=
        Nat.testBit_lt_two_pow (lt_of_lt_of_le hx (Nat.pow_le_pow_right Nat.two_pos (by omega)))
      rw [hzero]
      simp
  · rw [decide_eq_false hki]
    simp

/-- or-ing a field of `k` bits under a multiple of `2 ^ k` adds it -/
theorem mul_two_pow_or {y d k : ℕ} (hd : d < 2 ^ k) : y * 2 ^ k ||| d = y * 2 ^ k + d := by
  rw [Nat.mul_comm, Nat.two_pow_add_eq_or_of_lt hd]

/-- the low mask reads back the low field -/
theorem mul_two_pow_add_and_low {y d k : ℕ} (hd : d < 2 ^ k) : (y * 2 ^ k + d) &&& (2 ^ k - 1) = d := by
  rw [Nat.and_two_pow_sub_one_eq_mod, Nat.mul_comm, Nat.mul_add_mod, Nat.mod_eq_of_lt hd]

/-- the complement of the low mask reads back the high field in place -/
theorem mul_two_pow_add_and_high {y d k w : ℕ} (hd : d < 2 ^ k) (hk : k ≤ w) (hw : y * 2 ^ k + d < 2 ^ w) :
    (y * 2 ^ k + d) &&& (2 ^ w - 1 - (2 ^ k - 1)) = y * 2 ^ k := by
  have hdiv : (y * 2 ^ k + d) / 2 ^ k = y := by
    rw [Nat.mul_comm, Nat.mul_add_div (Nat.two_pow_pos k), Nat.div_eq_of_lt hd, Nat.add_zero]
  rw [and_not_low_mask hw hk, hdiv]

/-- a smaller high field makes a smaller word, whatever the low fields -/
theorem mul_two_pow_add_lt {y y' d d' k : ℕ} (hd : d < 2 ^ k) (hy : y < y') : y * 2 ^ k + d < y' * 2 ^ k + d' :=
  calc y * 2 ^ k + d < (y + 1) * 2 ^ k := by rw [Nat.succ_mul]; omega
    _ ≤ y' * 2 ^ k := Nat.mul_le_mul_right _ hy
    _ ≤ y' * 2 ^ k + d' := Nat.le_add_right _ _

/-- two words compare as their high fields, then as their low fields -/
theorem compare_mul_two_pow_add {y₁ y₂ d₁ d₂ k : ℕ} (hd₁ : d₁ < 2 ^ k) (hd₂ : d₂ < 2 ^ k) :
    compare (y₁ * 2 ^ k + d₁) (y₂ * 2 ^ k + d₂) = (compare y₁ y₂).then (compare d₁ d₂) := by
  rcases lt_trichotomy y₁ y₂ with hy | rfl | hy
  · rw [compare_lt_iff_lt.mpr hy, compare_lt_iff_lt.mpr (mul_two_pow_add_lt hd₁ hy)]
    rfl
  · rw [Std.compare_self, Ordering.eq_then]
    rcases lt_trichotomy d₁ d₂ with hd | rfl | hd
    · rw [compare_lt_iff_lt.mpr hd, compare_lt_iff_lt.mpr (by omega)]
    · rw [Std.compare_self, Std.compare_self]
    · rw [compare_gt_iff_gt.mpr hd, compare_gt_iff_gt.mpr (by omega)]
  · rw [compare_gt_iff_gt.mpr hy, compare_gt_iff_gt.mpr (mul_two_pow_add_lt hd₂ hy)]
    rfl

/-- an xor with a number below `2 ^ k` keeps the high field, so the word stays in its aligned block of `2 ^ k` and
below every multiple of `2 ^ k` it was below -/
theorem xor_lt_mul_two_pow {a i n k : ℕ} (ha : a < n * 2 ^ k) (hi : i < 2 ^ k) : a ^^^ i < n * 2 ^ k := by
  have hhigh : (a ^^^ i) / 2 ^ k = a / 2 ^ k := by
    rw [← Nat.shiftRight_eq_div_pow, ← Nat.shiftRight_eq_div_pow, Nat.shiftRight_xor_distrib,
      Nat.shiftRight_eq_zero i k hi, Nat.xor_zero]
  have hblock : a / 2 ^ k < n := (Nat.div_lt_iff_lt_mul (Nat.two_pow_pos k)).mpr ha
  calc a ^^^ i < 2 ^ k * ((a ^^^ i) / 2 ^ k + 1) := Nat.lt_mul_div_succ _ (Nat.two_pow_pos k)
    _ = 2 ^ k * (a / 2 ^ k + 1) := by rw [hhigh]
    _ ≤ 2 ^ k * n := Nat.mul_le_mul_left _ hblock
    _ = n * 2 ^ k := Nat.mul_comm _ _

end ForSt.BitFields
