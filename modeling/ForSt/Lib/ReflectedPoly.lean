import Mathlib
/-!
The register of a bit-reflected CRC as a residue of polynomials over GF(2). A `w`-bit register `a` is the polynomial
with coefficient `a[w - 1 - i]` at `X ^ i` (`toPoly`), the reflected polynomial `m` of the CRC stands for
`P = X ^ w + toPoly m` (`modulus`), and the register is read in `GF(2)[X] / (P)` (`embed`).

Shifting the register by one zero bit, xor-ing `m` in when the bit shifted out is set (`shift`), is multiplying by
the root `X` (`embed_shift`), and xor is addition (`embed_xor`). Since a register has degree below `w`, no two
registers are the same residue (`embed_injective`): an identity of residues is one of registers.
-/

namespace ForSt.ReflectedPoly

open Polynomial

variable {w : ℕ}

/-- a bit as a coefficient -/
def bitCoeff (b : Bool) : ZMod 2 := if b then 1 else 0

@[simp] theorem bitCoeff_xor (b c : Bool) : bitCoeff (b ^^ c) = bitCoeff b + bitCoeff c := by
  cases b <;> cases c <;> decide

theorem bitCoeff_injective : Function.Injective bitCoeff := by
  intro b c h
  cases b <;> cases c <;> first | rfl | exact absurd h (by decide)

/-- the coefficients of a register: bit `w - 1 - i` at `X ^ i` -/
def coeffs (a : BitVec w) : Fin w → ZMod 2 := fun i => bitCoeff (a.getLsbD (w - 1 - i))

/-- the polynomial of a register -/
noncomputable def toPoly (a : BitVec w) : (ZMod 2)[X] := Polynomial.ofFn w (coeffs a)

theorem toPoly_xor (a b : BitVec w) : toPoly (a ^^^ b) = toPoly a + toPoly b := by
  have hc : coeffs (a ^^^ b) = coeffs a + coeffs b := by
    funext i
    simp [coeffs, BitVec.getLsbD_xor]
  rw [toPoly, hc, map_add]
  rfl

theorem toPoly_injective : Function.Injective (toPoly (w := w)) := by
  intro a b h
  have hc := Polynomial.injective_ofFn w h
  apply BitVec.eq_of_getLsbD_eq
  intro j hj
  -- bit `j` is the coefficient at `X ^ (w - 1 - j)`
  have := congrFun hc ⟨w - 1 - j, by omega⟩
  simp only [coeffs, show w - 1 - (w - 1 - j) = j by omega] at this
  exact bitCoeff_injective this

theorem degree_toPoly_lt (a : BitVec w) : (toPoly a).degree < w := Polynomial.ofFn_degree_lt _

theorem coeff_toPoly {a : BitVec w} {i : ℕ} (hi : i < w) : (toPoly a).coeff i = bitCoeff (a.getLsbD (w - 1 - i)) :=
  Polynomial.ofFn_coeff_eq_val_of_lt _ hi

theorem coeff_toPoly_of_le {a : BitVec w} {i : ℕ} (hi : w ≤ i) : (toPoly a).coeff i = 0 :=
  Polynomial.ofFn_coeff_eq_zero_of_ge _ hi

variable (m : BitVec w)

/-- the polynomial of the CRC whose reflected low terms are `m` -/
noncomputable def modulus : (ZMod 2)[X] := X ^ w + toPoly m

theorem modulus_monic : (modulus m).Monic := Polynomial.monic_X_pow_add (degree_toPoly_lt m)

theorem degree_modulus : (modulus m).degree = w := by
  rw [modulus, Polynomial.degree_add_eq_left_of_degree_lt (by rw [Polynomial.degree_X_pow]; exact degree_toPoly_lt m),
    Polynomial.degree_X_pow]

/-- the register as a residue modulo the CRC's polynomial -/
noncomputable def embed (a : BitVec w) : AdjoinRoot (modulus m) := AdjoinRoot.mk (modulus m) (toPoly a)

theorem embed_xor (a b : BitVec w) : embed m (a ^^^ b) = embed m a + embed m b := by
  rw [embed, toPoly_xor, map_add]
  rfl

theorem embed_zero : embed m 0 = 0 := by
  have h := embed_xor m 0 0
  rw [BitVec.xor_self] at h
  -- `x = x + x` forces `x = 0`
  exact left_eq_add.mp h

/-- no two registers are the same residue: both are their own remainders modulo the polynomial -/
theorem embed_injective : Function.Injective (embed m) := by
  intro a b h
  have hmod := congrArg (AdjoinRoot.modByMonicHom (modulus_monic m)) h
  simp only [embed, AdjoinRoot.modByMonicHom_mk] at hmod
  rw [(Polynomial.modByMonic_eq_self_iff (modulus_monic m)).mpr (by rw [degree_modulus]; exact degree_toPoly_lt a),
    (Polynomial.modByMonic_eq_self_iff (modulus_monic m)).mpr (by rw [degree_modulus]; exact degree_toPoly_lt b)]
    at hmod
  exact toPoly_injective hmod

/-- two is zero among the residues -/
theorem two_eq_zero : (2 : AdjoinRoot (modulus m)) = 0 := by
  rw [← map_ofNat (AdjoinRoot.of (modulus m)) 2, show (2 : ZMod 2) = 0 from rfl, map_zero]

/-- the root to the `w` is the residue of `m`: the polynomial is zero at its root, and `-x = x` -/
theorem root_pow : AdjoinRoot.root (modulus m) ^ w = embed m m := by
  -- the modulus stays named, so that `mk_X` gives the root of `modulus m`
  have h : AdjoinRoot.mk (modulus m) (X ^ w + toPoly m) = 0 := AdjoinRoot.mk_self
  rw [map_add, map_pow, AdjoinRoot.mk_X] at h
  have h2 := two_eq_zero m
  rw [embed]
  linear_combination h - AdjoinRoot.mk (modulus m) (toPoly m) * h2

/-- one shift of the reflected register, over a zero bit -/
def shift (r : BitVec w) : BitVec w := if r.getLsbD 0 then (r >>> 1) ^^^ m else r >>> 1

/-- multiplying a register's polynomial by `X` moves its bits down one place, and the lowest bit to `X ^ w` -/
theorem X_mul_toPoly (a : BitVec w) :
    X * toPoly a = toPoly (a >>> 1) + C (bitCoeff (a.getLsbD 0)) * X ^ w := by
  ext i
  rw [Polynomial.coeff_add, Polynomial.coeff_C_mul, Polynomial.coeff_X_pow]
  rcases i with _ | i
  · rw [Polynomial.coeff_X_mul_zero]
    rcases Nat.eq_zero_or_pos w with hw | hw
    · subst hw
      simp [coeff_toPoly_of_le, bitCoeff]
    · -- the top bit of the shifted register is clear
      rw [coeff_toPoly hw, BitVec.getLsbD_ushiftRight, if_neg (by omega), BitVec.getLsbD_of_ge a _ (by omega)]
      simp [bitCoeff]
  · rw [Polynomial.coeff_X_mul]
    rcases Nat.lt_or_ge (i + 1) w with hi | hi
    · rw [coeff_toPoly (by omega), coeff_toPoly hi, BitVec.getLsbD_ushiftRight, if_neg (by omega),
        show 1 + (w - 1 - (i + 1)) = w - 1 - i by omega]
      simp
    · rw [coeff_toPoly_of_le hi]
      rcases Nat.eq_or_lt_of_le hi with heq | hgt
      · -- the coefficient at `X ^ w` is the lowest bit
        rw [coeff_toPoly (by omega), if_pos heq.symm, show w - 1 - i = 0 by omega]
        simp
      · rw [coeff_toPoly_of_le (by omega), if_neg (by omega)]
        simp

/-- a shift is a product with the root -/
theorem embed_shift (a : BitVec w) : embed m (shift m a) = AdjoinRoot.root (modulus m) * embed m a := by
  have hX : AdjoinRoot.root (modulus m) * embed m a =
      embed m (a >>> 1) + AdjoinRoot.of (modulus m) (bitCoeff (a.getLsbD 0)) * AdjoinRoot.root (modulus m) ^ w := by
    rw [embed, embed, ← AdjoinRoot.mk_X, ← map_mul, X_mul_toPoly, map_add, map_mul, map_pow, AdjoinRoot.mk_X,
      AdjoinRoot.mk_C]
  rw [hX, root_pow, shift]
  split
  · rename_i h
    rw [h, embed_xor]
    simp [bitCoeff]
  · rename_i h
    rw [Bool.not_eq_true] at h
    simp [h, bitCoeff]

theorem embed_iterate_shift (n : ℕ) (a : BitVec w) :
    embed m ((shift m)^[n] a) = AdjoinRoot.root (modulus m) ^ n * embed m a := by
  induction n generalizing a with
  | zero => simp
  | succ n ih =>
    rw [Function.iterate_succ_apply', embed_shift, ih, pow_succ]
    ring

/-- the first `k` bits of `b` from the top, as a polynomial in the root -/
noncomputable def topBits (b : BitVec w) (k : ℕ) : AdjoinRoot (modulus m) :=
  ∑ j ∈ Finset.range k, AdjoinRoot.of (modulus m) (bitCoeff (b.getLsbD (w - 1 - j))) * AdjoinRoot.root (modulus m) ^ j

/-- all `w` bits from the top are the register -/
theorem topBits_width (b : BitVec w) : topBits m b w = embed m b := by
  rw [embed, toPoly, Polynomial.ofFn_eq_sum_monomial, map_sum, topBits,
    ← Fin.sum_univ_eq_sum_range (fun j => AdjoinRoot.of (modulus m) (bitCoeff (b.getLsbD (w - 1 - j))) *
      AdjoinRoot.root (modulus m) ^ j) w]
  refine Finset.sum_congr rfl (fun i _ => ?_)
  rw [← Polynomial.C_mul_X_pow_eq_monomial, map_mul, map_pow, AdjoinRoot.mk_C, AdjoinRoot.mk_X]
  rfl

/-- the top bit, then the bits of the register shifted left one place -/
theorem topBits_succ (b : BitVec w) (k : ℕ) (hk : k + 1 ≤ w) :
    topBits m b (k + 1) = AdjoinRoot.of (modulus m) (bitCoeff (b.getLsbD (w - 1))) +
      AdjoinRoot.root (modulus m) * topBits m (b <<< 1) k := by
  rw [topBits, Finset.sum_range_succ', topBits, Finset.mul_sum, add_comm, pow_zero, mul_one, Nat.sub_zero]
  congr 1
  refine Finset.sum_congr rfl (fun j hj => ?_)
  have hj' := Finset.mem_range.mp hj
  -- bit `w - 1 - (j + 1)` of `b` is bit `w - 1 - j` of `b <<< 1`
  rw [BitVec.getLsbD_shiftLeft, decide_eq_true (show w - 1 - j < w by omega),
    decide_eq_false (show ¬ w - 1 - j < 1 by omega), show w - 1 - j - 1 = w - 1 - (j + 1) by omega, pow_succ]
  simp only [Bool.true_and, Bool.not_false]
  ring

/-- `k` rounds of the reflected multiply: the bits of `b` from the top select the shifts of `a` xor-ed into `p` -/
def mulLoop : ℕ → BitVec w → BitVec w → BitVec w → BitVec w
  | 0, p, _, _ => p
  | k + 1, p, a, b => mulLoop k (p ^^^ (if b.getLsbD (w - 1) then a else 0)) (shift m a) (b <<< 1)

theorem embed_mulLoop (k : ℕ) (hk : k ≤ w) (p a b : BitVec w) :
    embed m (mulLoop m k p a b) = embed m p + embed m a * topBits m b k := by
  induction k generalizing p a b with
  | zero => simp [mulLoop, topBits]
  | succ k ih =>
    have hsel : embed m (if b.getLsbD (w - 1) then a else 0) =
        AdjoinRoot.of (modulus m) (bitCoeff (b.getLsbD (w - 1))) * embed m a := by
      cases b.getLsbD (w - 1)
      · simp only [Bool.false_eq_true, if_false, embed_zero, bitCoeff, map_zero, zero_mul]
      · simp only [if_true, bitCoeff, map_one, one_mul]
    rw [mulLoop, ih (by omega), embed_xor, hsel, embed_shift, topBits_succ m b k hk]
    ring

/-- the reflected multiply is the product of residues -/
theorem embed_mul (a b : BitVec w) : embed m (mulLoop m w 0 a b) = embed m a * embed m b := by
  rw [embed_mulLoop m w le_rfl, embed_zero, zero_add, topBits_width]

end ForSt.ReflectedPoly
