import Mathlib
/-!
Reversible mixing of `w`-bit words, kept reversible when the word is cut to fewer bits.

The masked xorshift `x ^ ((x & mask) >> s)` undoes itself when no bit of the mask is `s` above another one
(`mask & (mask >> s) = 0`): a bit it changes is one the mask leaves out, so the second pass reads the same bits as
the first. Cutting the word to its low `v` bits commutes with it when the mask never reaches across the cut, and
widening a word commutes with it always. A product with a constant is undone by the product with its inverse, also
after the cut, since the low bits of a product only depend on the low bits of its factors.

A counter kept under a mask of its low `m` bits, `x = (x + 1) & mask` with `mask = 2^m - 1`, counts modulo `2^m`:
after `k` steps from `x` it is `(x + k) mod 2^m`, so it comes back to where it started after exactly `2^m` steps.
-/

namespace ForSt.MaskedMix

variable {w : ℕ}

/-- the masked xorshift `x ^ ((x & mask) >> s)` -/
def xorShiftMix (mask : BitVec w) (s : ℕ) (x : BitVec w) : BitVec w := x ^^^ ((x &&& mask) >>> s)

theorem getLsbD_xorShiftMix (mask : BitVec w) (s : ℕ) (x : BitVec w) (i : ℕ) :
    (xorShiftMix mask s x).getLsbD i = (x.getLsbD i ^^ (x.getLsbD (s + i) && mask.getLsbD (s + i))) := by
  simp [xorShiftMix, BitVec.getLsbD_ushiftRight]

variable {mask : BitVec w} {s : ℕ}

/-- the static assertion `(mask & (mask >> s)) == 0`, bit by bit -/
theorem mask_disjoint (hdis : mask &&& (mask >>> s) = 0) (i : ℕ) :
    (mask.getLsbD i && mask.getLsbD (s + i)) = false := by
  have hbit := congrArg (fun x => x.getLsbD i) hdis
  simpa [BitVec.getLsbD_ushiftRight] using hbit

/-- **The masked xorshift is its own inverse** when the mask and the mask shifted are disjoint -/
theorem xorShiftMix_xorShiftMix (hdis : mask &&& (mask >>> s) = 0) (x : BitVec w) :
    xorShiftMix mask s (xorShiftMix mask s x) = x := by
  apply BitVec.eq_of_getLsbD_eq
  intro i _
  rw [getLsbD_xorShiftMix, getLsbD_xorShiftMix, getLsbD_xorShiftMix]
  -- a bit the second pass reads is one the first pass kept
  cases hm : mask.getLsbD (s + i)
  · simp
  · have hfar : mask.getLsbD (s + (s + i)) = false := by
      simpa [hm] using mask_disjoint hdis (s + i)
    cases x.getLsbD i <;> cases x.getLsbD (s + i) <;> simp [hfar]

variable {v : ℕ}

/-- cutting to the low `v` bits commutes with the mixing when the mask reaches no bit at or above `v` from below -/
theorem setWidth_xorShiftMix (hcut : ∀ i < v, mask.getLsbD (s + i) = true → s + i < v) (x : BitVec w) :
    (xorShiftMix mask s x).setWidth v = xorShiftMix (mask.setWidth v) s (x.setWidth v) := by
  apply BitVec.eq_of_getLsbD_eq
  intro i hi
  rw [BitVec.getLsbD_setWidth, getLsbD_xorShiftMix, getLsbD_xorShiftMix, BitVec.getLsbD_setWidth,
    BitVec.getLsbD_setWidth, BitVec.getLsbD_setWidth]
  cases hm : mask.getLsbD (s + i)
  · simp [hi]
  · simp [hi, hcut i hi hm]

/-- widening a word commutes with the mixing by the mask cut to the word's width -/
theorem xorShiftMix_setWidth (hv : v ≤ w) (y : BitVec v) :
    (xorShiftMix (mask.setWidth v) s y).setWidth w = xorShiftMix mask s (y.setWidth w) := by
  apply BitVec.eq_of_getLsbD_eq
  intro i hi
  rw [BitVec.getLsbD_setWidth, getLsbD_xorShiftMix, getLsbD_xorShiftMix, BitVec.getLsbD_setWidth,
    BitVec.getLsbD_setWidth, BitVec.getLsbD_setWidth]
  -- a bit of `y` at or above `v` is clear, so the cut mask and the whole one agree where `y` has bits
  by_cases hs : s + i < v
  · simp [hi, hs, Nat.lt_of_lt_of_le hs hv]
  · rw [BitVec.getLsbD_of_ge y (s + i) (by omega)]
    simp [hi]

/-- a product with `a`, cut to `v` bits, then widened and multiplied with an inverse `b` of `a` and cut again, is
the identity -/
theorem setWidth_mul_setWidth_mul (hv : v ≤ w) {a b : BitVec w} (hab : a * b = 1) (x : BitVec v) :
    (((x.setWidth w * a).setWidth v).setWidth w * b).setWidth v = x := by
  rw [BitVec.setWidth_mul _ _ hv, BitVec.setWidth_setWidth_of_le _ hv, BitVec.setWidth_mul _ _ hv,
    BitVec.setWidth_setWidth_of_le _ hv, BitVec.setWidth_eq, BitVec.mul_assoc, ← BitVec.setWidth_mul _ _ hv, hab]
  -- the cut of the unit is the unit, or the word has no bits
  rcases Nat.eq_zero_or_pos v with rfl | hpos
  · exact Subsingleton.elim _ _
  · have hone : (1 : BitVec w).setWidth v = 1 := by
      apply BitVec.eq_of_toNat_eq
      have h1 : 1 < 2 ^ v := Nat.one_lt_two_pow (by omega)
      have h2 : 1 < 2 ^ w := Nat.one_lt_two_pow (by omega)
      simp [BitVec.toNat_setWidth, Nat.mod_eq_of_lt h1, Nat.mod_eq_of_lt h2]
    rw [hone]
    simp

/-! ## Counters under a mask of low bits -/

section counter

variable {m : ℕ} {mask : BitVec w}

theorem le_of_toNat_eq_two_pow_sub_one (hm : mask.toNat = 2 ^ m - 1) : m ≤ w := by
  have hlt := mask.isLt
  have hpos := Nat.two_pow_pos m
  rw [hm] at hlt
  exact (Nat.pow_le_pow_iff_right (by norm_num : 1 < 2)).mp (by omega)

/-- `(x + k) & mask` is `(x + k) mod 2^m` when the mask is the low `m` bits -/
theorem toNat_add_and_mask (hm : mask.toNat = 2 ^ m - 1) (x : BitVec w) (k : ℕ) :
    ((x + BitVec.ofNat w k) &&& mask).toNat = (x.toNat + k) % 2 ^ m := by
  have hdvd : 2 ^ m ∣ 2 ^ w := Nat.pow_dvd_pow 2 (le_of_toNat_eq_two_pow_sub_one hm)
  rw [BitVec.toNat_and, hm, Nat.and_two_pow_sub_one_eq_mod, BitVec.toNat_add, BitVec.toNat_ofNat,
    Nat.mod_mod_of_dvd _ hdvd, Nat.add_mod, Nat.mod_mod_of_dvd _ hdvd, ← Nat.add_mod]

/-- one step of the masked counter from its `k`-th value is its `k + 1`-st -/
theorem add_one_and_mask (hm : mask.toNat = 2 ^ m - 1) (x : BitVec w) (k : ℕ) :
    (((x + BitVec.ofNat w k) &&& mask) + 1) &&& mask = (x + BitVec.ofNat w (k + 1)) &&& mask := by
  apply BitVec.eq_of_toNat_eq
  calc ((((x + BitVec.ofNat w k) &&& mask) + BitVec.ofNat w 1) &&& mask).toNat
      = (((x + BitVec.ofNat w k) &&& mask).toNat + 1) % 2 ^ m := toNat_add_and_mask hm _ 1
    _ = (x.toNat + (k + 1)) % 2 ^ m := by rw [toNat_add_and_mask hm x k, Nat.mod_add_mod, Nat.add_assoc]
    _ = ((x + BitVec.ofNat w (k + 1)) &&& mask).toNat := (toNat_add_and_mask hm x (k + 1)).symm

/-- the masked counter is back at its start after `k` steps exactly when `2^m` divides `k` -/
theorem add_and_mask_eq_and_mask_iff (hm : mask.toNat = 2 ^ m - 1) (x : BitVec w) (k : ℕ) :
    (x + BitVec.ofNat w k) &&& mask = x &&& mask ↔ k % 2 ^ m = 0 := by
  rw [← BitVec.toNat_inj, toNat_add_and_mask hm, BitVec.toNat_and, hm, Nat.and_two_pow_sub_one_eq_mod]
  constructor
  · intro h
    have hk : x.toNat + k ≡ x.toNat + 0 [MOD 2 ^ m] := h
    exact Nat.ModEq.add_left_cancel' x.toNat hk
  · intro h
    have hk : k ≡ 0 [MOD 2 ^ m] := by rw [Nat.ModEq, h, Nat.zero_mod]
    exact Nat.ModEq.add_left x.toNat hk

end counter

end ForSt.MaskedMix
