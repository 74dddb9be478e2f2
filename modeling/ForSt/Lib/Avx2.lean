import Mathlib.Data.Nat.Notation
/-!
The AVX2 intrinsics of `immintrin.h` on 32-bit lanes, as the Intel intrinsics guide defines them.

A `__m256i` is eight 32-bit lanes, lane 0 the least significant (`M256`). The shifts by an immediate give zero, or
the sign, past 31; `_mm256_sllv_epi32` gives zero in a lane whose count is past 31; `_mm256_blendv_epi8` selects
each byte by the top bit of the mask's byte; `_mm256_testc_si256` is the carry flag of `~a & b`, set when that is
zero; `_mm256_loadu_si256` reads 32 bytes of memory, four to a lane, least significant first.
-/

namespace ForSt.Avx2

/-- a `__m256i` as eight 32-bit lanes -/
abbrev M256 := Vector UInt32 8

/-- four bytes, least significant first, as a little-endian doubleword -/
def le32 (b0 b1 b2 b3 : UInt8) : UInt32 := UInt32.ofBitVec (b3.toBitVec ++ b2.toBitVec ++ b1.toBitVec ++ b0.toBitVec)

/-- `_mm256_setr_epi32(e0, ..., e7)`: lane `j` is `ej` -/
def setrEpi32 (e0 e1 e2 e3 e4 e5 e6 e7 : UInt32) : M256 := #v[e0, e1, e2, e3, e4, e5, e6, e7]

/-- `_mm256_set1_epi32(a)` -/
def set1Epi32 (a : UInt32) : M256 := Vector.replicate 8 a

/-- `_mm256_mullo_epi32(a, b)`: the low 32 bits of each product -/
def mulloEpi32 (a b : M256) : M256 := Vector.zipWith (· * ·) a b

/-- `_mm256_sub_epi32(a, b)` -/
def subEpi32 (a b : M256) : M256 := Vector.zipWith (· - ·) a b

/-- `_mm256_srli_epi32(a, imm8)` -/
def srliEpi32 (a : M256) (imm8 : ℕ) : M256 := a.map fun x => if imm8 > 31 then 0 else x >>> imm8.toUInt32

/-- `_mm256_slli_epi32(a, imm8)` -/
def slliEpi32 (a : M256) (imm8 : ℕ) : M256 := a.map fun x => if imm8 > 31 then 0 else x <<< imm8.toUInt32

/-- `_mm256_srai_epi32(a, imm8)`: shifting in the sign -/
def sraiEpi32 (a : M256) (imm8 : ℕ) : M256 := a.map fun x => UInt32.ofBitVec (x.toBitVec.sshiftRight imm8)

/-- `_mm256_sllv_epi32(a, count)` -/
def sllvEpi32 (a count : M256) : M256 :=
  Vector.zipWith (fun (x c : UInt32) => if c > 31 then 0 else x <<< c) a count

/-- the lane `idx & 7` picks -/
def laneIndex (idx : UInt32) : Fin 8 := ⟨(idx % 8).toNat, by simp; omega⟩

/-- `_mm256_permutevar8x32_epi32(a, idx)`: lane `j` is lane `idx[j] & 7` of `a` -/
def permutevar8x32Epi32 (a idx : M256) : M256 := idx.map fun i => a.get (laneIndex i)

/-- the bytes of a lane whose top bit is set in `m`, as a mask of all their bits -/
def byteMask (m : UInt32) : UInt32 :=
  (List.range 4).foldl
    (fun acc k => if (m >>> (8 * k + 7).toUInt32) &&& 1 = 1 then acc ||| (0xFF : UInt32) <<< (8 * k).toUInt32 else acc) 0

/-- `_mm256_blendv_epi8(a, b, mask)`: each byte from `b` where its mask byte's top bit is set, else from `a` -/
def blendvEpi8 (a b mask : M256) : M256 :=
  Vector.ofFn fun j => (a.get j &&& ~~~byteMask (mask.get j)) ||| (b.get j &&& byteMask (mask.get j))

/-- `_mm256_testc_si256(a, b)`: whether `~a & b` is zero -/
def testcSi256 (a b : M256) : Bool := (Vector.zipWith (fun x y => ~~~x &&& y) a b).all (· == 0)

/-- `_mm256_loadu_si256(mem + p)` -/
def loaduSi256 {n : ℕ} (mem : Vector UInt8 n) (p : ℕ) : M256 :=
  Vector.ofFn fun j =>
    le32 (mem.getD (p + 4 * j) 0) (mem.getD (p + 4 * j + 1) 0) (mem.getD (p + 4 * j + 2) 0) (mem.getD (p + 4 * j + 3) 0)

/-! ## Lanes -/

section lanes

variable {j : ℕ} (hj : j < 8)
include hj

@[simp] theorem getElem_set1Epi32 (a : UInt32) : (set1Epi32 a)[j] = a := Vector.getElem_replicate hj

@[simp] theorem getElem_mulloEpi32 (a b : M256) : (mulloEpi32 a b)[j] = a[j] * b[j] := Vector.getElem_zipWith hj

@[simp] theorem getElem_subEpi32 (a b : M256) : (subEpi32 a b)[j] = a[j] - b[j] := Vector.getElem_zipWith hj

theorem getElem_srliEpi32 (a : M256) {imm8 : ℕ} (himm : imm8 ≤ 31) :
    (srliEpi32 a imm8)[j] = a[j] >>> imm8.toUInt32 := by
  simp [srliEpi32, show ¬ imm8 > 31 by omega]

theorem getElem_slliEpi32 (a : M256) {imm8 : ℕ} (himm : imm8 ≤ 31) :
    (slliEpi32 a imm8)[j] = a[j] <<< imm8.toUInt32 := by
  simp [slliEpi32, show ¬ imm8 > 31 by omega]

/-- shifting in the sign 31 times leaves the sign in every bit -/
theorem getElem_sraiEpi32_31 (a : M256) : (sraiEpi32 a 31)[j] = if a[j] < 0x80000000 then 0 else 0xFFFFFFFF := by
  simp only [sraiEpi32, Vector.getElem_map]
  apply UInt32.toBitVec_inj.mp
  apply BitVec.eq_of_getLsbD_eq
  intro i hi
  have hsign : (a[j].toBitVec.sshiftRight 31).getLsbD i = a[j].toBitVec.msb := by
    rw [BitVec.getLsbD_sshiftRight, BitVec.msb_eq_getLsbD_last]
    rcases Nat.eq_zero_or_pos i with rfl | hpos
    · simp
    · simp [show ¬ 31 + i < 32 by omega, show ¬ 32 ≤ i by omega]
  rw [UInt32.toBitVec_ofBitVec, hsign, BitVec.msb_eq_decide]
  split
  · rename_i hlt
    rw [UInt32.lt_iff_toNat_lt, show (0x80000000 : UInt32).toNat = 2 ^ 31 from rfl] at hlt
    simpa using hlt
  · rename_i hge
    rw [UInt32.lt_iff_toNat_lt, show (0x80000000 : UInt32).toNat = 2 ^ 31 from rfl] at hge
    rw [show (0xFFFFFFFF : UInt32).toBitVec = BitVec.allOnes 32 by decide, BitVec.getLsbD_allOnes]
    simp [hi]
    omega

@[simp] theorem getElem_sllvEpi32 (a count : M256) :
    (sllvEpi32 a count)[j] = if count[j] > 31 then 0 else a[j] <<< count[j] := Vector.getElem_zipWith hj

@[simp] theorem getElem_permutevar8x32Epi32 (a idx : M256) :
    (permutevar8x32Epi32 a idx)[j] = a.get (laneIndex idx[j]) := Vector.getElem_map _ hj

theorem getElem_blendvEpi8_of_zero {a b mask : M256} (hm : mask[j] = 0) : (blendvEpi8 a b mask)[j] = a[j] := by
  simp [blendvEpi8, Vector.get, hm, show byteMask 0 = 0 by decide]

theorem getElem_blendvEpi8_of_allOnes {a b mask : M256} (hm : mask[j] = 0xFFFFFFFF) :
    (blendvEpi8 a b mask)[j] = b[j] := by
  have hones : ∀ y : UInt32, y &&& 0xFFFFFFFF = y := fun _ => UInt32.and_neg_one
  simp [blendvEpi8, Vector.get, hm, show byteMask 0xFFFFFFFF = 0xFFFFFFFF by decide,
    show ~~~(0xFFFFFFFF : UInt32) = 0 by decide, hones]

/-- blending by the sign of `x` picks `b` in the lanes where `x` is negative -/
theorem getElem_blendvEpi8_sraiEpi32_31 (a b x : M256) :
    (blendvEpi8 a b (sraiEpi32 x 31))[j] = if x[j] < 0x80000000 then a[j] else b[j] := by
  split
  · rename_i hlow
    exact getElem_blendvEpi8_of_zero hj (by rw [getElem_sraiEpi32_31 hj, if_pos hlow])
  · rename_i hhigh
    exact getElem_blendvEpi8_of_allOnes hj (by rw [getElem_sraiEpi32_31 hj, if_neg hhigh])

@[simp] theorem getElem_loaduSi256 {n : ℕ} (mem : Vector UInt8 n) (p : ℕ) :
    (loaduSi256 mem p)[j] =
      le32 (mem.getD (p + 4 * j) 0) (mem.getD (p + 4 * j + 1) 0) (mem.getD (p + 4 * j + 2) 0)
        (mem.getD (p + 4 * j + 3) 0) :=
  Vector.getElem_ofFn hj

end lanes

theorem testcSi256_eq_true (a b : M256) : testcSi256 a b = true ↔ ∀ j (hj : j < 8), ~~~a[j] &&& b[j] = 0 := by
  simp [testcSi256]

/-- a word masked by its bit `k` alone is zero when that bit is clear -/
theorem and_one_shiftLeft_eq_zero_iff {w : ℕ} (x : BitVec w) {k : ℕ} (hk : k < w) :
    x &&& (1#w <<< k) = 0#w ↔ x.getLsbD k = false := by
  constructor
  · intro h
    have hbit := congrArg (fun c : BitVec w => c.getLsbD k) h
    simpa [BitVec.getLsbD_and, BitVec.getLsbD_shiftLeft, hk] using hbit
  · intro h
    apply BitVec.eq_of_getLsbD_eq
    intro i hi
    by_cases hik : i = k
    · subst hik
      simp [BitVec.getLsbD_and, h]
    · simp [BitVec.getLsbD_and, BitVec.getLsbD_shiftLeft]
      omega

/-- bit `i` of a little-endian doubleword is bit `i % 8` of its byte `i / 8` -/
theorem getLsbD_le32 (b0 b1 b2 b3 : UInt8) {i : ℕ} (hi : i < 32) :
    (le32 b0 b1 b2 b3).toBitVec.getLsbD i = ([b0, b1, b2, b3].getD (i / 8) 0).toBitVec.getLsbD (i % 8) := by
  simp only [le32, UInt32.toBitVec_ofBitVec, BitVec.getLsbD_append]
  rcases (show i < 8 ∨ (8 ≤ i ∧ i < 16) ∨ (16 ≤ i ∧ i < 24) ∨ 24 ≤ i by omega) with h | h | h | h
  · simp [h, Nat.div_eq_of_lt h, Nat.mod_eq_of_lt h]
  · simp [show ¬ i < 8 by omega, show i - 8 < 8 by omega, show i / 8 = 1 by omega, show i % 8 = i - 8 by omega]
  · simp [show ¬ i < 8 by omega, show ¬ i - 8 < 8 by omega, show i - 8 - 8 < 8 by omega, show i / 8 = 2 by omega,
      show i % 8 = i - 8 - 8 by omega]
  · simp [show ¬ i < 8 by omega, show ¬ i - 8 < 8 by omega, show ¬ i - 8 - 8 < 8 by omega, show i / 8 = 3 by omega,
      show i % 8 = i - 8 - 8 - 8 by omega]

end ForSt.Avx2
