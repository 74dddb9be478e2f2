import Mathlib.Data.UInt
import ForSt.Util.BloomImpl
import ForSt.Lib.JoinFold
import ForSt.Util.DynamicBloomSpec
/-!
The AVX2 probe of `FastLocalBloomImpl::HashMayMatchPrepared` answers as the portable one, and both find every key
`AddHashPrepared` has added to the line.

Both answer `MayMatch`: every probe's bit (`probeBit`) is set. `hashMayMatchPreparedLoop_eq_true` reads the portable
loop; `avx2Match_eq_true` reads a round of the AVX2 loop lane by lane (`multipliers_eq`, `valueVector_lane`,
`kSelector_lane`, `getLsbD_loadWord`); `hashMayMatchPreparedAvx2Loop_eq_true` the rounds after it. Adding sets the
probes' bits and never clears one (`mayMatch_addHashPreparedLoop`, `mayMatch_addHashPreparedRun`).
-/

namespace ForSt.FastLocalBloomImpl

open ForSt.Avx2

/-! ## The probes -/

/-- the bit of the line that the top nine bits of `x` address: byte `x >> 26`, bit `(x >> 23) & 7` -/
def probeBit (dataAtCacheLine : Vector UInt8 64) (x : UInt32) : Bool :=
  (dataAtCacheLine.getD (x >>> 26).toNat 0).toBitVec.getLsbD ((x >>> 23).toNat % 8)

/-- what both probes decide: the bits of the first `numProbes` probes from `h2` are all set -/
def MayMatch (dataAtCacheLine : Vector UInt8 64) (h2 : UInt32) (numProbes : ℕ) : Prop :=
  ∀ i < numProbes, probeBit dataAtCacheLine (h2 * 0x9e3779b9 ^ i) = true

instance (dataAtCacheLine : Vector UInt8 64) (h2 : UInt32) (numProbes : ℕ) :
    Decidable (MayMatch dataAtCacheLine h2 numProbes) :=
  inferInstanceAs (Decidable (∀ i < numProbes, _))

/-- the first `a + b` probes are the first `a`, and the first `b` from the hash `a` probes on -/
theorem mayMatch_add (dataAtCacheLine : Vector UInt8 64) (h2 : UInt32) (a b : ℕ) :
    MayMatch dataAtCacheLine h2 (a + b) ↔
      MayMatch dataAtCacheLine h2 a ∧ MayMatch dataAtCacheLine (h2 * 0x9e3779b9 ^ a) b := by
  have hshift : ∀ i, h2 * 0x9e3779b9 ^ a * 0x9e3779b9 ^ i = h2 * (0x9e3779b9 : UInt32) ^ (a + i) := fun i => by
    rw [pow_add, mul_assoc]
  constructor
  · intro hall
    exact ⟨fun i hi => hall i (by omega), fun i hi => by rw [hshift]; exact hall (a + i) (by omega)⟩
  · rintro ⟨hlow, hhigh⟩ i hi
    by_cases hia : i < a
    · exact hlow i hia
    · have := hhigh (i - a) (by omega)
      rwa [hshift, Nat.add_sub_cancel' (by omega)] at this

/-- the portable test: a byte masked by one of its bits is zero when that bit is clear -/
theorem and_shiftLeft_eq_zero_iff (b k : UInt8) (hk : k.toNat < 8) :
    (b &&& (1 : UInt8) <<< k) = 0 ↔ b.toBitVec.getLsbD k.toNat = false := by
  rw [← UInt8.toBitVec_inj, UInt8.toBitVec_and, UInt8.toBitVec_shiftLeft, BitVec.shiftLeft_eq',
    BitVec.toNat_umod, Nat.mod_eq_of_lt (by simpa using hk)]
  exact and_one_shiftLeft_eq_zero_iff _ hk

/-- the AVX2 test of a lane: the complement of a word masked by one of its bits is zero when that bit is set -/
theorem not_and_shiftLeft_eq_zero_iff (v b : UInt32) (hb : b.toNat < 32) :
    (~~~v &&& (1 : UInt32) <<< b) = 0 ↔ v.toBitVec.getLsbD b.toNat = true := by
  rw [← UInt32.toBitVec_inj, UInt32.toBitVec_and, UInt32.toBitVec_shiftLeft, BitVec.shiftLeft_eq',
    BitVec.toNat_umod, Nat.mod_eq_of_lt (by simpa using hb), UInt32.toBitVec_not]
  exact (and_one_shiftLeft_eq_zero_iff (~~~v.toBitVec) hb).trans (by simp [hb])

theorem mod_eight_of_and_seven (x : ℕ) : x &&& 7 = x % 8 := Nat.and_two_pow_sub_one_eq_mod x 3

/-- the byte of `bitpos >> 3`, for `bitpos` the top nine bits -/
theorem toNat_bitpos_byte (h : UInt32) : ((h >>> (32 - 9)) >>> 3).toNat = (h >>> 26).toNat := by
  simp [UInt32.toNat_shiftRight, Nat.shiftRight_eq_div_pow, Nat.div_div_eq_div_mul]

/-- the bit of `bitpos & 7` in that byte -/
theorem toNat_bitpos_bit (h : UInt32) : ((h >>> (32 - 9)) &&& 7).toUInt8.toNat = (h >>> 23).toNat % 8 := by
  simp [UInt32.toNat_shiftRight, Nat.shiftRight_eq_div_pow, mod_eight_of_and_seven]

/-- the portable test of one probe is its bit -/
theorem portable_test_eq_zero_iff (dataAtCacheLine : Vector UInt8 64) (h : UInt32) :
    (dataAtCacheLine.getD ((h >>> (32 - 9)) >>> 3).toNat 0 &&& (1 : UInt8) <<< ((h >>> (32 - 9)) &&& 7).toUInt8) = 0 ↔
      probeBit dataAtCacheLine h = false := by
  rw [and_shiftLeft_eq_zero_iff _ _ (by rw [toNat_bitpos_bit]; omega), toNat_bitpos_byte, toNat_bitpos_bit,
    probeBit]

/-- the next probe's hash is the golden ratio's next power -/
theorem mul_golden_pow_succ (h : UInt32) (i : ℕ) : h * 0x9e3779b9 ^ (i + 1) = h * 0x9e3779b9 * 0x9e3779b9 ^ i := by
  rw [pow_succ', mul_assoc]

/-! ## The portable loop -/

theorem hashMayMatchPreparedLoop_eq_true (dataAtCacheLine : Vector UInt8 64) (n : ℕ) (h : UInt32) :
    hashMayMatchPreparedLoop dataAtCacheLine n h = true ↔ MayMatch dataAtCacheLine h n := by
  induction n generalizing h with
  | zero => simp [hashMayMatchPreparedLoop, MayMatch]
  | succ n ih =>
    rw [hashMayMatchPreparedLoop, MayMatch, Nat.forall_lt_succ_left]
    simp only [pow_zero, mul_one, mul_golden_pow_succ]
    split
    · -- the first probe's bit is clear
      rename_i hclear
      rw [portable_test_eq_zero_iff] at hclear
      simp [hclear]
    · rename_i hset
      rw [portable_test_eq_zero_iff, Bool.not_eq_false] at hset
      rw [ih, MayMatch]
      simp [hset]

/-! ## A round of the AVX2 loop, lane by lane -/

/-- word `w` of the line, as `_mm256_loadu_si256` reads it -/
def loadWord (dataAtCacheLine : Vector UInt8 64) (w : ℕ) : UInt32 :=
  le32 (dataAtCacheLine.getD (4 * w) 0) (dataAtCacheLine.getD (4 * w + 1) 0) (dataAtCacheLine.getD (4 * w + 2) 0)
    (dataAtCacheLine.getD (4 * w + 3) 0)

/-- bit `b` of word `w` is bit `b % 8` of byte `4 * w + b / 8` -/
theorem getLsbD_loadWord (dataAtCacheLine : Vector UInt8 64) (w : ℕ) {b : ℕ} (hb : b < 32) :
    (loadWord dataAtCacheLine w).toBitVec.getLsbD b = (dataAtCacheLine.getD (4 * w + b / 8) 0).toBitVec.getLsbD (b % 8) := by
  rw [loadWord, getLsbD_le32 _ _ _ _ hb]
  rcases (show b / 8 = 0 ∨ b / 8 = 1 ∨ b / 8 = 2 ∨ b / 8 = 3 by omega) with h | h | h | h <;> simp [h]

theorem multipliers_get : ∀ j : Fin 8, multipliers.get j = (0x9e3779b9 : UInt32) ^ j.val := by decide

/-- the constants of `multipliers` are the golden ratio's powers -/
theorem multipliers_eq {j : ℕ} (hj : j < 8) : multipliers[j] = 0x9e3779b9 ^ j := multipliers_get ⟨j, hj⟩

theorem zeroToSeven_get : ∀ j : Fin 8, (setrEpi32 0 1 2 3 4 5 6 7).get j = UInt32.ofNat j.val := by decide

theorem zeroToSeven_eq {j : ℕ} (hj : j < 8) : (setrEpi32 0 1 2 3 4 5 6 7)[j] = UInt32.ofNat j :=
  zeroToSeven_get ⟨j, hj⟩

/-- `0xab25f4c1` is the golden ratio to the eighth power -/
theorem golden_pow_eight : (0xab25f4c1 : UInt32) = 0x9e3779b9 ^ 8 := by decide

/-- the upper half holds the words from eight on, so the half and the lane make up the word address -/
theorem lane_offset (x : UInt32) :
    (if x < 0x80000000 then 0 else 32) + 4 * (laneIndex (x >>> 28)).val = 4 * (x >>> 28).toNat := by
  have hx := x.toNat_lt
  simp only [laneIndex, UInt32.lt_iff_toNat_lt, UInt32.toNat_mod, UInt32.toNat_shiftRight,
    Nat.shiftRight_eq_div_pow]
  split <;> simp_all <;> omega

/-- the probe's bit, read in 32-bit words: word `x >> 28`, bit `(x >> 23) % 32` -/
theorem probeBit_eq_loadWord (dataAtCacheLine : Vector UInt8 64) (x : UInt32) :
    probeBit dataAtCacheLine x = (loadWord dataAtCacheLine (x >>> 28).toNat).toBitVec.getLsbD ((x >>> 23) % 32).toNat := by
  have hbit : ((x >>> 23) % 32).toNat < 32 := by simp; omega
  rw [getLsbD_loadWord _ _ hbit, probeBit]
  have hbyte : 4 * (x >>> 28).toNat + ((x >>> 23) % 32).toNat / 8 = (x >>> 26).toNat := by
    simp [UInt32.toNat_shiftRight, Nat.shiftRight_eq_div_pow]
    omega
  have hin : ((x >>> 23) % 32).toNat % 8 = (x >>> 23).toNat % 8 := by simp
  rw [hbyte, hin]

/-- the lane test of `_mm256_testc_si256`: a lane without its `k_selector` bit passes, one with it tests its bit -/
theorem lane_test_eq_zero_iff (v c : UInt32) (hc : c.toNat < 32) (sel : Prop) [Decidable sel] :
    (~~~v &&& (if sel then 1 else 0) <<< c) = 0 ↔ (sel → v.toBitVec.getLsbD c.toNat = true) := by
  split
  · rename_i hsel
    simp only [hsel, forall_const]
    exact not_and_shiftLeft_eq_zero_iff v c hc
  · rename_i hsel
    simp [hsel]

section round

variable (dataAtCacheLine : Vector UInt8 64) (h : UInt32) (remProbes : ℕ) {j : ℕ} (hj : j < 8)
include hj

theorem hashVector_lane : (mulloEpi32 (set1Epi32 h) multipliers)[j] = h * 0x9e3779b9 ^ j := by
  rw [getElem_mulloEpi32 hj, getElem_set1Epi32 hj, multipliers_eq hj]

/-- lane `j` of `value_vector` is the word the top four bits of the lane's hash address -/
theorem valueVector_lane (x : M256) :
    (blendvEpi8 (permutevar8x32Epi32 (loaduSi256 dataAtCacheLine 0) (srliEpi32 x 28))
        (permutevar8x32Epi32 (loaduSi256 dataAtCacheLine 32) (srliEpi32 x 28)) (sraiEpi32 x 31))[j] =
      loadWord dataAtCacheLine (x[j] >>> 28).toNat := by
  have hoff := lane_offset x[j]
  have h28 : (28 : ℕ).toUInt32 = 28 := rfl
  rw [getElem_blendvEpi8_sraiEpi32_31 hj]
  simp only [getElem_permutevar8x32Epi32 hj, getElem_srliEpi32 hj _ (show 28 ≤ 31 by omega), Vector.get, loadWord,
    h28]
  -- the lower half at offset 0 or the upper at 32, and the lane within it
  split
  · rename_i hlow
    rw [if_pos hlow] at hoff
    rw [← hoff]
    simp
  · rename_i hhigh
    rw [if_neg hhigh] at hoff
    rw [← hoff]
    simp [Nat.add_assoc]

/-- `k_selector`: the lanes below `rem_probes`, for every `rem_probes` an `int` holds -/
theorem kSelector_lane (hrem : remProbes < 2 ^ 31) :
    (srliEpi32 (subEpi32 (setrEpi32 0 1 2 3 4 5 6 7) (set1Epi32 (UInt32.ofNat remProbes))) 31)[j] =
      if j < remProbes then 1 else 0 := by
  rw [getElem_srliEpi32 hj _ (by omega), getElem_subEpi32 hj, zeroToSeven_eq hj, getElem_set1Epi32 hj]
  apply UInt32.toNat_inj.mp
  simp only [UInt32.toNat_shiftRight, UInt32.toNat_sub, Nat.shiftRight_eq_div_pow]
  split <;> simp <;> omega

/-- `bit_addresses`: bits 23 to 27 of the lane's hash -/
theorem bitAddresses_lane (x : M256) : (srliEpi32 (slliEpi32 x 4) 27)[j] = (x[j] >>> 23) % 32 := by
  rw [getElem_srliEpi32 hj _ (by omega), getElem_slliEpi32 hj _ (by omega)]
  apply UInt32.toNat_inj.mp
  have hx := x[j].toNat_lt
  simp only [UInt32.toNat_shiftRight, UInt32.toNat_shiftLeft, UInt32.toNat_mod, Nat.shiftRight_eq_div_pow,
    Nat.shiftLeft_eq]
  simp
  omega

end round

/-- a round of the AVX2 loop tests the probes of the lanes below `rem_probes` -/
theorem avx2Match_eq_true (dataAtCacheLine : Vector UInt8 64) (h : UInt32) {remProbes : ℕ}
    (hrem : remProbes < 2 ^ 31) :
    avx2Match dataAtCacheLine h remProbes = true ↔
      ∀ j < 8, j < remProbes → probeBit dataAtCacheLine (h * 0x9e3779b9 ^ j) = true := by
  unfold avx2Match
  dsimp only
  rw [testcSi256_eq_true]
  refine forall_congr' fun j => forall_congr' fun hj => ?_
  have hc : ((mulloEpi32 (set1Epi32 h) multipliers)[j] >>> 23 % 32).toNat < 32 := by simp; omega
  rw [valueVector_lane dataAtCacheLine hj, getElem_sllvEpi32 hj, kSelector_lane remProbes hj hrem,
    bitAddresses_lane hj, if_neg (by simp [UInt32.lt_iff_toNat_lt] at hc ⊢; omega),
    lane_test_eq_zero_iff _ _ hc, hashVector_lane h hj, probeBit_eq_loadWord]

/-- a round answers for the next `min 8 rem_probes` probes -/
theorem avx2Match_eq_true_iff_mayMatch (dataAtCacheLine : Vector UInt8 64) (h : UInt32) {remProbes : ℕ}
    (hrem : remProbes < 2 ^ 31) :
    avx2Match dataAtCacheLine h remProbes = true ↔ MayMatch dataAtCacheLine h (min 8 remProbes) := by
  rw [avx2Match_eq_true dataAtCacheLine h hrem, MayMatch]
  exact ⟨fun hall i hi => hall i (by omega) (by omega), fun hall j hj hjr => hall j (by omega)⟩

/-! ## The AVX2 loop -/

theorem hashMayMatchPreparedAvx2Loop_eq_true (dataAtCacheLine : Vector UInt8 64) (h : UInt32) {remProbes : ℕ}
    (hrem : remProbes < 2 ^ 31) :
    hashMayMatchPreparedAvx2Loop dataAtCacheLine h remProbes = true ↔ MayMatch dataAtCacheLine h remProbes := by
  -- induction on the probes left, eight a round
  induction remProbes using Nat.strongRecOn generalizing h with
  | ind remProbes ih =>
    rw [hashMayMatchPreparedAvx2Loop]
    split
    · -- the last round
      rename_i hle
      rw [avx2Match_eq_true_iff_mayMatch _ _ hrem, Nat.min_eq_right hle]
    · rename_i hgt
      have hsplit := mayMatch_add dataAtCacheLine h 8 (remProbes - 8)
      rw [Nat.add_sub_cancel' (by omega)] at hsplit
      rw [hsplit, ← golden_pow_eight, ← ih (remProbes - 8) (by omega) _ (by omega),
        ← Nat.min_eq_left (show 8 ≤ remProbes by omega), ← avx2Match_eq_true_iff_mayMatch _ _ hrem]
      cases avx2Match dataAtCacheLine h remProbes <;> simp

/-- **The AVX2 probe answers as the portable one**, for every `num_probes` an `int` holds -/
theorem hashMayMatchPreparedAvx2_eq_portable (h2 : UInt32) {numProbes : ℕ} (hprobes : numProbes < 2 ^ 31)
    (dataAtCacheLine : Vector UInt8 64) :
    hashMayMatchPreparedAvx2 h2 numProbes dataAtCacheLine = hashMayMatchPreparedPortable h2 numProbes dataAtCacheLine := by
  rw [Bool.eq_iff_iff, hashMayMatchPreparedAvx2, hashMayMatchPreparedPortable,
    hashMayMatchPreparedAvx2Loop_eq_true _ _ hprobes, hashMayMatchPreparedLoop_eq_true]

/-! ## Adding -/

theorem getD_eq_getElem {α : Type} {n : ℕ} (xs : Vector α n) {i : ℕ} (hi : i < n) (d : α) : xs.getD i d = xs[i] := by
  simp [Vector.getD, Array.getD, hi]

theorem getD_setIfInBounds {α : Type} {n : ℕ} (xs : Vector α n) {i j : ℕ} (hj : j < n) (x d : α) :
    (xs.setIfInBounds i x).getD j d = if i = j then x else xs.getD j d := by
  rw [getD_eq_getElem _ hj, getD_eq_getElem _ hj, Vector.getElem_setIfInBounds hj]

theorem toNat_byte_lt (x : UInt32) : (x >>> 26).toNat < 64 := by
  have hx := x.toNat_lt
  simp [UInt32.toNat_shiftRight, Nat.shiftRight_eq_div_pow]
  omega

/-- one probe of `AddHashPrepared` sets the bit of its hash `y` and keeps every other -/
theorem probeBit_setProbe (dataAtCacheLine : Vector UInt8 64) (y x : UInt32) :
    probeBit (dataAtCacheLine.setIfInBounds ((y >>> (32 - 9)) >>> 3).toNat
        (dataAtCacheLine.getD ((y >>> (32 - 9)) >>> 3).toNat 0 ||| (1 : UInt8) <<< ((y >>> (32 - 9)) &&& 7).toUInt8))
        x = true ↔
      probeBit dataAtCacheLine x = true ∨ (x >>> 26 = y >>> 26 ∧ (x >>> 23).toNat % 8 = (y >>> 23).toNat % 8) := by
  have hk := toNat_bitpos_bit y
  rw [toNat_bitpos_byte, probeBit, probeBit, getD_setIfInBounds _ (toNat_byte_lt x)]
  split
  · -- the byte of the probe: its bit is or-ed in
    rename_i hbyte
    have hxy : x >>> 26 = y >>> 26 := UInt32.toNat_inj.mp hbyte.symm
    have hk8 : ((y >>> (32 - 9)) &&& 7).toUInt8.toNat < 8 := by rw [hk]; omega
    rw [← hbyte, UInt8.toBitVec_or, UInt8.toBitVec_shiftLeft, BitVec.shiftLeft_eq', BitVec.toNat_umod,
      Nat.mod_eq_of_lt (by simpa using hk8), BitVec.getLsbD_or, UInt8.toNat_toBitVec, hk]
    simp [BitVec.getLsbD_shiftLeft, hxy]
    -- the probe's bit is the one set
    exact or_congr_right (by omega)
  · rename_i hbyte
    have hxy : x >>> 26 ≠ y >>> 26 := fun h => hbyte (congrArg UInt32.toNat h).symm
    simp [hxy]

/-- `AddHashPrepared` keeps every bit set -/
theorem probeBit_addHashPreparedLoop (n : ℕ) (h : UInt32) {dataAtCacheLine : Vector UInt8 64} {x : UInt32}
    (hx : probeBit dataAtCacheLine x = true) : probeBit (addHashPreparedLoop n h dataAtCacheLine) x = true := by
  induction n generalizing h dataAtCacheLine with
  | zero => exact hx
  | succ n ih => exact ih _ ((probeBit_setProbe _ _ _).mpr (Or.inl hx))

/-- `AddHashPrepared` sets the bits of its probes -/
theorem mayMatch_addHashPreparedLoop (n : ℕ) (h : UInt32) (dataAtCacheLine : Vector UInt8 64) :
    MayMatch (addHashPreparedLoop n h dataAtCacheLine) h n := by
  induction n generalizing h dataAtCacheLine with
  | zero => intro i hi; omega
  | succ n ih =>
    rw [MayMatch, Nat.forall_lt_succ_left]
    refine ⟨?_, fun i hi => ?_⟩
    · -- the first probe's bit is set now and kept by the rest
      rw [pow_zero, mul_one]
      exact probeBit_addHashPreparedLoop n _ ((probeBit_setProbe _ _ _).mpr (Or.inr ⟨rfl, rfl⟩))
    · rw [mul_golden_pow_succ]
      exact ih _ _ i hi

theorem probeBit_addHashPreparedRun (adds : List (UInt32 × ℕ)) {dataAtCacheLine : Vector UInt8 64} {x : UInt32}
    (hx : probeBit dataAtCacheLine x = true) : probeBit (addHashPreparedRun adds dataAtCacheLine) x = true := by
  induction adds generalizing dataAtCacheLine with
  | nil => exact hx
  | cons add adds ih => exact ih (probeBit_addHashPreparedLoop _ _ hx)

/-- every key added to the line is found in it, whatever is added after -/
theorem mayMatch_addHashPreparedRun (adds : List (UInt32 × ℕ)) (dataAtCacheLine : Vector UInt8 64) :
    ∀ add ∈ adds, MayMatch (addHashPreparedRun adds dataAtCacheLine) add.1 add.2 := by
  induction adds generalizing dataAtCacheLine with
  | nil => simp
  | cons add adds ih =>
    intro add' hadd'
    rcases List.mem_cons.mp hadd' with rfl | hmem
    · exact fun i hi => probeBit_addHashPreparedRun adds (mayMatch_addHashPreparedLoop _ _ _ i hi)
    · exact ih _ add' hmem

/-- **The vectorized Bloom probe agrees with the scalar one**, and both find a key added to the cache line with the
same number of probes, whatever else is added to the line. -/
theorem hashMayMatchPrepared_avx2_portable (dataAtCacheLine : Vector UInt8 64) (h2 : UInt32) (numProbes : ℕ)
    (hprobes : numProbes ≤ 30) :
    hashMayMatchPreparedAvx2 h2 numProbes dataAtCacheLine = hashMayMatchPreparedPortable h2 numProbes dataAtCacheLine ∧
      ∀ adds : List (UInt32 × ℕ), (h2, numProbes) ∈ adds →
        hashMayMatchPreparedPortable h2 numProbes (addHashPreparedRun adds dataAtCacheLine) = true ∧
          hashMayMatchPreparedAvx2 h2 numProbes (addHashPreparedRun adds dataAtCacheLine) = true := by
  have hint : numProbes < 2 ^ 31 := by omega
  refine ⟨hashMayMatchPreparedAvx2_eq_portable h2 hint dataAtCacheLine, fun adds hadd => ?_⟩
  have hportable : hashMayMatchPreparedPortable h2 numProbes (addHashPreparedRun adds dataAtCacheLine) = true :=
    (hashMayMatchPreparedLoop_eq_true _ _ _).mpr (mayMatch_addHashPreparedRun adds dataAtCacheLine _ hadd)
  exact ⟨hportable, (hashMayMatchPreparedAvx2_eq_portable h2 hint _).trans hportable⟩

theorem hashMayMatchPrepared_avx2_portable_six :
    6 ≤ 30 ∧
      (hashMayMatchPreparedAvx2 0x12345678 6 (Vector.replicate 64 0xA5) =
          hashMayMatchPreparedPortable 0x12345678 6 (Vector.replicate 64 0xA5) ∧
        ∀ adds : List (UInt32 × ℕ), (0x12345678, 6) ∈ adds →
          hashMayMatchPreparedPortable 0x12345678 6 (addHashPreparedRun adds (Vector.replicate 64 0xA5)) = true ∧
            hashMayMatchPreparedAvx2 0x12345678 6 (addHashPreparedRun adds (Vector.replicate 64 0xA5)) = true) :=
  ⟨by decide, hashMayMatchPrepared_avx2_portable _ _ _ (by decide)⟩

/-! ## The whole filter

`AddHashPrepared` or-s into its cache line a pattern of bits that depends on the hash and the probes alone
(`getD_addHashPreparedLoop`), so `AddHash` or-s that pattern into the filter's bytes (`addHashPreparedAt_eq_or`):
adds commute and a repeat changes nothing, and `HashMayMatch` finds every hash added, whatever is added after. -/

theorem getD_replicate_zero (i : ℕ) : (Vector.replicate 64 (0 : UInt8)).getD i 0 = 0 := by
  simp [Vector.getD, Array.getD]

/-- `AddHashPrepared` or-s into each byte of the line what it would set in a line of zeroes -/
theorem getD_addHashPreparedLoop (n : ℕ) (h : UInt32) (dataAtCacheLine : Vector UInt8 64) {k : ℕ} (hk : k < 64) :
    (addHashPreparedLoop n h dataAtCacheLine).getD k 0 =
      dataAtCacheLine.getD k 0 ||| (addHashPreparedLoop n h (Vector.replicate 64 0)).getD k 0 := by
  induction n generalizing h dataAtCacheLine with
  | zero => simp [addHashPreparedLoop, getD_eq_getElem _ hk]
  | succ n ih =>
    rw [addHashPreparedLoop, addHashPreparedLoop, ih, ih (h * 0x9e3779b9) (Vector.replicate 64 0 |>.setIfInBounds _ _),
      getD_setIfInBounds _ hk, getD_setIfInBounds _ hk]
    -- the probe's byte gets its bit in both lines; the other bytes keep theirs
    split
    · rename_i hbyte
      subst hbyte
      simp [getD_replicate_zero, UInt8.or_assoc]
    · simp [getD_replicate_zero]

theorem cacheLineAt_zero (byteOffset : ℕ) : cacheLineAt (fun _ => 0) byteOffset = Vector.replicate 64 0 := by
  ext k hk
  simp [cacheLineAt]

theorem cacheLineAt_writeCacheLineAt (data : ℕ → UInt8) (byteOffset : ℕ) (dataAtCacheLine : Vector UInt8 64) :
    cacheLineAt (writeCacheLineAt data byteOffset dataAtCacheLine) byteOffset = dataAtCacheLine := by
  ext k hk
  simp [cacheLineAt, writeCacheLineAt, getD_eq_getElem _ hk]

/-- **`AddHashPrepared` at a byte offset or-s a pattern of bits into the filter**, the bits it would set in a filter
of zeroes -/
theorem addHashPreparedAt_eq_or (h2 : UInt32) (numProbes : ℕ) (data : ℕ → UInt8) (byteOffset : ℕ) :
    addHashPreparedAt h2 numProbes data byteOffset =
      fun j => data j ||| addHashPreparedAt h2 numProbes (fun _ => 0) byteOffset j := by
  funext j
  unfold addHashPreparedAt writeCacheLineAt
  rw [cacheLineAt_zero]
  split
  · rename_i hj
    rw [addHashPrepared, addHashPrepared, getD_addHashPreparedLoop _ _ _ (by omega)]
    simp [cacheLineAt, getD_eq_getElem _ (show j - byteOffset < 64 by omega), Nat.add_sub_cancel' hj.1]
  · simp

/-- the adds of prepared hashes, a hash and its byte offset each, as steps on the filter's bytes -/
def addPreparedStep (numProbes : ℕ) (data : ℕ → UInt8) (prepared : UInt32 × UInt32) : ℕ → UInt8 :=
  addHashPreparedAt prepared.1 numProbes data prepared.2.toNat

theorem addPreparedStep_commutes (numProbes : ℕ) : JoinFold.Commutes (addPreparedStep numProbes) := by
  intro data x y
  funext j
  simp only [addPreparedStep]
  rw [addHashPreparedAt_eq_or _ _ (addHashPreparedAt _ _ _ _), addHashPreparedAt_eq_or _ _ data,
    addHashPreparedAt_eq_or _ _ (addHashPreparedAt _ _ _ _), addHashPreparedAt_eq_or _ _ data]
  simp only [UInt8.or_assoc, UInt8.or_comm (addHashPreparedAt x.1 _ _ _ j)]

theorem addPreparedStep_absorbs (numProbes : ℕ) : JoinFold.Absorbs (addPreparedStep numProbes) := by
  intro data x
  funext j
  simp only [addPreparedStep]
  rw [addHashPreparedAt_eq_or _ _ (addHashPreparedAt _ _ _ _), addHashPreparedAt_eq_or _ _ data]
  simp only [UInt8.or_assoc, UInt8.or_self]

/-- `AddHash` is the add of its prepared hash -/
theorem addHash_eq_addPreparedStep (h1 h2 lenBytes : UInt32) (numProbes : ℕ) (data : ℕ → UInt8) :
    addHash h1 h2 lenBytes numProbes data = addPreparedStep numProbes data (h2, prepareHash h1 lenBytes) := rfl

/-- `HashMayMatch` finds a hash just added -/
theorem hashMayMatch_addHash (h1 h2 lenBytes : UInt32) (numProbes : ℕ) (data : ℕ → UInt8) :
    hashMayMatch h1 h2 lenBytes numProbes (addHash h1 h2 lenBytes numProbes data) = true := by
  simp only [hashMayMatch, addHash, addHashPreparedAt]
  rw [cacheLineAt_writeCacheLineAt, hashMayMatchPreparedPortable, hashMayMatchPreparedLoop_eq_true]
  exact mayMatch_addHashPreparedLoop _ _ _

/-- **`HashMayMatch` finds every hash added to a filter**, whatever is added before or after it -/
theorem hashMayMatch_foldl_addPreparedStep (lenBytes : UInt32) (numProbes : ℕ) (data : ℕ → UInt8)
    (adds : List (UInt32 × UInt32)) {h1 h2 : UInt32} (hmem : (h2, prepareHash h1 lenBytes) ∈ adds) :
    hashMayMatch h1 h2 lenBytes numProbes (adds.foldl (addPreparedStep numProbes) data) = true := by
  -- adding the hash again changes nothing, and finds it
  rw [← JoinFold.step_foldl_of_mem (addPreparedStep_commutes numProbes) (addPreparedStep_absorbs numProbes) hmem,
    ← addHash_eq_addPreparedStep]
  exact hashMayMatch_addHash _ _ _ _ _

/-- the cache line of a hash lies within a filter of whole cache lines -/
theorem prepareHash_add_le (h1 lenBytes : UInt32) (hlen : lenBytes.toNat % 64 = 0) (hpos : 0 < lenBytes.toNat) :
    (prepareHash h1 lenBytes).toNat + 64 ≤ lenBytes.toNat := by
  have hlines : (lenBytes >>> 6).toNat = lenBytes.toNat / 64 := by
    rw [UInt32.toNat_shiftRight]
    simp [Nat.shiftRight_eq_div_pow]
  have hlt := @DynamicBloom.fastRange32_lt h1 (lenBytes >>> 6) (by rw [hlines]; omega)
  rw [hlines] at hlt
  have hsmall : (fastRange32 h1 (lenBytes >>> 6)).toNat * 64 < 2 ^ 32 := by
    have := lenBytes.toNat_lt
    omega
  rw [prepareHash, UInt32.toNat_shiftLeft]
  simp only [Nat.shiftLeft_eq, UInt32.toNat_ofNat, Nat.reducePow, Nat.reduceMod]
  omega

/-- an add writes only the 64 bytes of its cache line -/
theorem addPreparedStep_frame (numProbes : ℕ) (data : ℕ → UInt8) (prepared : UInt32 × UInt32) {j : ℕ}
    (hj : prepared.2.toNat + 64 ≤ j) : addPreparedStep numProbes data prepared j = data j := by
  simp only [addPreparedStep, addHashPreparedAt, writeCacheLineAt]
  rw [if_neg (by omega)]

/-- `ChooseNumProbes` chooses between one and 24 probes -/
theorem chooseNumProbes_mem (millibitsPerKey : ℤ) :
    1 ≤ chooseNumProbes millibitsPerKey ∧ chooseNumProbes millibitsPerKey ≤ 24 := by
  unfold chooseNumProbes
  omega

end ForSt.FastLocalBloomImpl
