import Mathlib.Data.Nat.Notation
/-!
Sums in GF(2) of finitely many bits, and the sums of a word's bits and of the products of two words' bits.

`bsum f n` is `f 0 ^^ ... ^^ f (n - 1)`. It is additive in `f` (`bsum_xor`), splits at any point (`bsum_add`, `bsum_split`),
peels off its first term (`bsum_succ'`), and vanishes when every term does (`bsum_eq_false`). A linear equation over
GF(2) in unknowns `x k` with coefficients `c k` has the value `bsum (fun k => c k && x k) n`: xor-ing two equations
adds their values (`bsum_and_xor_left`).
-/

namespace ForSt.Gf2

/-- `f 0 ^^ ... ^^ f (n - 1)` -/
def bsum (f : ℕ → Bool) : ℕ → Bool
  | 0 => false
  | n + 1 => bsum f n ^^ f n

@[simp] theorem bsum_zero (f : ℕ → Bool) : bsum f 0 = false := rfl

@[simp] theorem bsum_succ (f : ℕ → Bool) (n : ℕ) : bsum f (n + 1) = (bsum f n ^^ f n) := rfl

theorem bsum_congr {f g : ℕ → Bool} {n : ℕ} (h : ∀ k < n, f k = g k) : bsum f n = bsum g n := by
  induction n with
  | zero => rfl
  | succ n ih => rw [bsum_succ, bsum_succ, ih (fun k hk => h k (by omega)), h n (by omega)]

theorem bsum_eq_false {f : ℕ → Bool} {n : ℕ} (h : ∀ k < n, f k = false) : bsum f n = false := by
  induction n with
  | zero => rfl
  | succ n ih => rw [bsum_succ, ih (fun k hk => h k (by omega)), h n (by omega), Bool.xor_false]

theorem bsum_xor (f g : ℕ → Bool) (n : ℕ) : bsum (fun k => f k ^^ g k) n = (bsum f n ^^ bsum g n) := by
  induction n with
  | zero => rfl
  | succ n ih =>
    rw [bsum_succ, bsum_succ, bsum_succ, ih]
    cases bsum f n <;> cases bsum g n <;> cases f n <;> cases g n <;> rfl

theorem bsum_add (f : ℕ → Bool) (m n : ℕ) : bsum f (m + n) = (bsum f m ^^ bsum (fun k => f (m + k)) n) := by
  induction n with
  | zero => simp
  | succ n ih => rw [← Nat.add_assoc, bsum_succ, ih, bsum_succ, Bool.xor_assoc]

theorem bsum_split (f : ℕ → Bool) {m n : ℕ} (h : m ≤ n) :
    bsum f n = (bsum f m ^^ bsum (fun k => f (m + k)) (n - m)) := by
  obtain ⟨d, rfl⟩ := Nat.exists_eq_add_of_le h
  rw [bsum_add, Nat.add_sub_cancel_left]

theorem bsum_succ' (f : ℕ → Bool) (n : ℕ) : bsum f (n + 1) = (f 0 ^^ bsum (fun k => f (k + 1)) n) := by
  rw [Nat.add_comm, bsum_add]
  simp [Nat.add_comm 1]

/-- xor-ing the coefficients of two equations adds their values -/
theorem bsum_and_xor_left (c d x : ℕ → Bool) (n : ℕ) :
    bsum (fun k => (c k ^^ d k) && x k) n = (bsum (fun k => c k && x k) n ^^ bsum (fun k => d k && x k) n) := by
  rw [← bsum_xor]
  exact bsum_congr fun k _ => by cases c k <;> cases d k <;> cases x k <;> rfl

/-- the invariant rule of a loop `for (i = 0; i < n; ++i)` over bit positions, as a fold over `List.range n` -/
theorem foldl_range_induction {α : Type _} (P : ℕ → α → Prop) (f : α → ℕ → α) (init : α) (h0 : P 0 init)
    (hstep : ∀ n a, P n a → P (n + 1) (f a n)) (n : ℕ) : P n ((List.range n).foldl f init) := by
  induction n with
  | zero => exact h0
  | succ n ih =>
    rw [List.range_succ, List.foldl_append, List.foldl_cons, List.foldl_nil]
    exact hstep n _ ih

/-! ## A bit as a word -/

section word

variable {w : ℕ}

/-- the word `b ? 1 : 0` -/
theorem getLsbD_ofBool_one (b : Bool) (k : ℕ) :
    (if b then 1 else 0 : BitVec w).getLsbD k = (decide (k = 0) && decide (0 < w) && b) := by
  cases b <;> simp [BitVec.getLsbD_one, Bool.and_comm]

/-- the word `(b ? 1 : 0) << i`, shifted as a number and then cut to `w` bits, has the bit `b` at `i` -/
theorem getLsbD_ofBool_shiftLeft (b : Bool) (i k : ℕ) :
    (((if b then 1 else 0) <<< i : ℕ) : BitVec w).getLsbD k = (decide (k = i) && decide (k < w) && b) := by
  rw [BitVec.natCast_eq_ofNat, BitVec.getLsbD_ofNat, Nat.testBit_shiftLeft]
  by_cases h : k = i
  · subst h
    cases b <;> simp
  · cases b <;> simp [h]
    intro _ hik
    rw [← Bool.not_eq_true, Nat.testBit_one_eq_true_iff_self_eq_zero]
    omega

/-- the loop `for (i = 0; i < n; ++i) sr ^= p(i) << i` flips bit `i` of `sr` by `p i` for the positions below `n` -/
theorem getLsbD_foldl_xor_bit (p : ℕ → Bool) (n : ℕ) (sr : BitVec w) (i : ℕ) :
    ((List.range n).foldl (fun sr i => sr ^^^ (((if p i then 1 else 0) <<< i : ℕ) : BitVec w)) sr).getLsbD i =
      (sr.getLsbD i ^^ (decide (i < n) && decide (i < w) && p i)) := by
  refine foldl_range_induction
    (fun n (sr' : BitVec w) => ∀ i, sr'.getLsbD i = (sr.getLsbD i ^^ (decide (i < n) && decide (i < w) && p i)))
    _ sr (fun i => by simp) ?_ n i
  intro n sr' ih i
  rw [BitVec.getLsbD_xor, getLsbD_ofBool_shiftLeft, ih i]
  by_cases hin : i = n
  · subst hin
    simp
  · have hlt : (i < n + 1) ↔ (i < n) := by omega
    simp [hin, hlt]

/-- the low bit of a word, `x & 1` -/
theorem and_one_eq_ofBool (x : BitVec w) : x &&& 1 = if x.getLsbD 0 then 1 else 0 := by
  apply BitVec.eq_of_getLsbD_eq
  intro k hk
  rw [BitVec.getLsbD_and, getLsbD_ofBool_one]
  by_cases hk0 : k = 0
  · subst hk0
    cases x.getLsbD 0 <;> simp [hk]
  · simp [hk0]

/-- `0 - (b ? 1 : 0)`: the mask of all ones or none -/
theorem getLsbD_zero_sub_ofBool (b : Bool) {k : ℕ} (hk : k < w) :
    (0 - (if b then 1 else 0 : BitVec w)).getLsbD k = b := by
  cases b
  · simp
  · simp [BitVec.zero_sub, BitVec.neg_one_eq_allOnes, hk]

end word

end ForSt.Gf2
