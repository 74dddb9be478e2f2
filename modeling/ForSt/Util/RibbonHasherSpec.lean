import ForSt.Util.RibbonImpl
import ForSt.Util.RibbonBandingSpec
import ForSt.Lib.MaskedMix
/-!
What the `StandardHasher` of `util/ribbon_impl.h` guarantees to the search over seeds and to the banding.

`GetOrdinalSeed` and `SetOrdinalSeed` are inverse to each other for every seed of whole bytes no wider than the hash
(`ordinalSeed_codec`). The raw seed is the ordinal seed times an odd constant, mixed within each byte by
the masked xorshift of `Lib.MaskedMix` and cut to the seed's width: the mixing undoes itself and the cut never splits
a byte, and the product with the inverse constant undoes the first one.

`GetStart` is below `num_starts` for every hash. `GetCoeffRow` gives `BandingAdd` the rows it needs, a first
coefficient set with `kFirstCoeffAlwaysOne` and a nonzero row otherwise, exactly when `kFirstCoeffAlwaysOne` or
`kUseSmash` is set or the coefficient row is at least as wide as the hash (`getCoeffRow_eq_zero_iff`). A narrower hash
expanded by a constant xor keeps a bit set, but a wider hash cut down to the row can leave none.
-/

namespace ForSt.ribbon

open ForSt.MaskedMix

variable {Key : Type} {hb sb w r : ℕ}

namespace StandardHasher

/-! ## Ordinal and raw seeds -/

/-- the bits of `0xf0f0f0f0f0f0f0f0`: the high half of each of the eight bytes -/
theorem testBit_seedMixMask (i : ℕ) :
    Nat.testBit 0xf0f0f0f0f0f0f0f0 i = (decide (i < 64) && decide (4 ≤ i % 8)) := by
  by_cases hi : i < 64
  · have hbits : ∀ i < 64, Nat.testBit 0xf0f0f0f0f0f0f0f0 i = decide (4 ≤ i % 8) := by decide
    simp [hi, hbits i hi]
  · have hlt : 0xf0f0f0f0f0f0f0f0 < 2 ^ i :=
      Nat.lt_of_lt_of_le (by norm_num) (Nat.pow_le_pow_right Nat.two_pos (Nat.le_of_not_lt hi))
    simp [Nat.testBit_eq_false_of_lt hlt, hi]

theorem getLsbD_kSeedMixMask (i : ℕ) :
    (kSeedMixMask hb).getLsbD i = (decide (i < hb) && decide (i < 64) && decide (4 ≤ i % 8)) := by
  rw [kSeedMixMask, BitVec.getLsbD_ofNat, testBit_seedMixMask, Bool.and_assoc]

/-- the static assertion `(kSeedMixMask & (kSeedMixMask >> kSeedMixShift)) == 0` -/
theorem kSeedMixMask_disjoint : kSeedMixMask hb &&& (kSeedMixMask hb >>> kSeedMixShift) = 0 := by
  apply BitVec.eq_of_getLsbD_eq
  intro i _
  simp only [BitVec.getLsbD_and, BitVec.getLsbD_ushiftRight, getLsbD_kSeedMixMask, kSeedMixShift]
  -- a bit of the mask is in the high half of its byte, four bits on is in the low half of the next
  by_cases hhigh : 4 ≤ i % 8
  · have hnext : ¬ 4 ≤ (4 + i) % 8 := by omega
    simp [hnext]
  · simp [hhigh]

/-- the static assertion `kToRawSeedFactor * kFromRawSeedFactor == Hash{1}`, for a hash of at most 64 bits -/
theorem kToRawSeedFactor_mul (hhb : hb ≤ 64) : kToRawSeedFactor hb * kFromRawSeedFactor hb = 1 := by
  apply BitVec.eq_of_toNat_eq
  have h64 : 0xc78219a23eeadd03 * 0xfe1a137d14b475ab % 2 ^ 64 = 1 := by norm_num
  rw [BitVec.toNat_mul, kToRawSeedFactor, kFromRawSeedFactor, BitVec.toNat_ofNat, BitVec.toNat_ofNat, ← Nat.mul_mod,
    ← Nat.mod_mod_of_dvd _ (Nat.pow_dvd_pow 2 hhb), h64]
  simp

theorem setOrdinalSeed_eq (count : BitVec sb) :
    setOrdinalSeed hb count =
      (xorShiftMix (kSeedMixMask hb) kSeedMixShift (count.setWidth hb * kToRawSeedFactor hb)).setWidth sb := rfl

theorem getOrdinalSeed_eq (rawSeed : BitVec sb) :
    getOrdinalSeed hb rawSeed =
      (xorShiftMix (kSeedMixMask hb) kSeedMixShift (rawSeed.setWidth hb) * kFromRawSeedFactor hb).setWidth sb := rfl

/-- the mask never reaches across a cut at a whole byte -/
theorem kSeedMixMask_cut (hsb : sb % 8 = 0) :
    ∀ i < sb, (kSeedMixMask hb).getLsbD (kSeedMixShift + i) = true → kSeedMixShift + i < sb := by
  intro i hi hm
  simp only [getLsbD_kSeedMixMask, kSeedMixShift, Bool.and_eq_true, decide_eq_true_eq] at hm ⊢
  omega

/-- **`GetOrdinalSeed` undoes `SetOrdinalSeed`** for every seed of whole bytes no wider than a hash of at most 64 bits,
the dynamic verification `assert(GetOrdinalSeed() == count)` -/
theorem getOrdinalSeed_setOrdinalSeed (hsb : sb % 8 = 0) (hle : sb ≤ hb) (hhb : hb ≤ 64) (count : BitVec sb) :
    getOrdinalSeed hb (setOrdinalSeed hb count) = count := by
  rw [getOrdinalSeed_eq, setOrdinalSeed_eq, setWidth_xorShiftMix (kSeedMixMask_cut hsb), xorShiftMix_setWidth hle,
    xorShiftMix_xorShiftMix kSeedMixMask_disjoint]
  exact setWidth_mul_setWidth_mul hle (kToRawSeedFactor_mul hhb) count

/-- every raw seed is the raw seed of its ordinal seed: a reader's `SetOrdinalSeed(GetOrdinalSeed())` gives back the
writer's hasher -/
theorem setOrdinalSeed_getOrdinalSeed (hsb : sb % 8 = 0) (hle : sb ≤ hb) (hhb : hb ≤ 64) (rawSeed : BitVec sb) :
    setOrdinalSeed hb (getOrdinalSeed hb rawSeed) = rawSeed := by
  -- the low bits of the product only depend on the low bits of the mixed seed
  have hlow : ∀ M : BitVec hb, (M * kFromRawSeedFactor hb).setWidth sb =
      ((M.setWidth sb).setWidth hb * kFromRawSeedFactor hb).setWidth sb := by
    intro M
    rw [BitVec.setWidth_mul _ _ hle, BitVec.setWidth_mul _ _ hle, BitVec.setWidth_setWidth_of_le _ hle,
      BitVec.setWidth_eq]
  have hinv : kFromRawSeedFactor hb * kToRawSeedFactor hb = 1 := by
    rw [BitVec.mul_comm]
    exact kToRawSeedFactor_mul hhb
  rw [setOrdinalSeed_eq, getOrdinalSeed_eq, setWidth_xorShiftMix (kSeedMixMask_cut hsb), hlow,
    setWidth_mul_setWidth_mul hle hinv, ← setWidth_xorShiftMix (kSeedMixMask_cut hsb),
    xorShiftMix_xorShiftMix kSeedMixMask_disjoint, BitVec.setWidth_setWidth_of_le _ hle, BitVec.setWidth_eq]

/-- **ordinal and raw seeds are one-to-one**: for seeds of whole bytes no wider than a hash of at most 64 bits,
`SetOrdinalSeed` and `GetOrdinalSeed` are inverse to each other, so the `2^sb` ordinal seeds a search tries give
`2^sb` different hashers, and the ordinal seed a filter stores gives back the hasher it was built with -/
theorem ordinalSeed_codec (hsb : sb % 8 = 0) (hle : sb ≤ hb) (hhb : hb ≤ 64) :
    Function.LeftInverse (getOrdinalSeed hb : BitVec sb → BitVec sb) (setOrdinalSeed hb) ∧
      Function.RightInverse (getOrdinalSeed hb : BitVec sb → BitVec sb) (setOrdinalSeed hb) :=
  ⟨getOrdinalSeed_setOrdinalSeed hsb hle hhb, setOrdinalSeed_getOrdinalSeed hsb hle hhb⟩

/-- the seeds of `Standard128RibbonTypesAndSettings`, 32 bits with a 64-bit hash -/
theorem ordinalSeed_codec_seed32 :
    (32 % 8 = 0 ∧ 32 ≤ 64 ∧ 64 ≤ 64) ∧ Function.LeftInverse (getOrdinalSeed 64 : BitVec 32 → BitVec 32) (setOrdinalSeed 64) ∧
      Function.RightInverse (getOrdinalSeed 64 : BitVec 32 → BitVec 32) (setOrdinalSeed 64) :=
  ⟨by decide, ordinalSeed_codec (by decide) (by decide) (by decide)⟩

/-! ## Starts and coefficient rows -/

theorem fastRangeGeneric_lt (h : BitVec hb) {range : ℕ} (hr : 0 < range) : fastRangeGeneric h range < range := by
  rw [fastRangeGeneric, Nat.shiftRight_eq_div_pow, Nat.div_lt_iff_lt_mul (Nat.two_pow_pos hb)]
  exact Nat.mul_lt_mul_of_pos_left h.isLt hr

variable (ts : TypesAndSettings Key hb sb w r)

/-- `GetStart` is a start, with or without the smash -/
theorem getStart_lt (h : BitVec hb) {numStarts : ℕ} (hn : 0 < numStarts) : getStart ts h numStarts < numStarts := by
  unfold getStart
  split
  · exact Nat.lt_of_le_of_lt (Nat.min_le_right _ _) (by omega)
  · exact fastRangeGeneric_lt h hn

theorem getLsbD_or_one (cr : BitVec w) (hw : 0 < w) : (cr ||| 1).getLsbD 0 = true := by
  simp [hw]

/-- `cr |= (cr == 0) ? 1 : 0` leaves a bit set -/
theorem or_ite_eq_zero_ne_zero (cr : BitVec w) (hw : 0 < w) : cr ||| (if cr = 0 then 1 else 0) ≠ 0 := by
  by_cases h : cr = 0
  · intro h1
    have hbit := congrArg (fun x => x.getLsbD 0) h1
    simp [h, hw] at hbit
  · rw [if_neg h]
    simpa using h

/-- a word expanded by a copy of itself shifted up over its xor with an odd constant keeps a bit below `v` once `v`
reaches the copy: the low part is `b ^ K`, so if it is clear `b` has `K`'s first bit, set, and so has the copy -/
theorem setWidth_expand_ne_zero {n M v : ℕ} (b K : BitVec n) (hK : K.getLsbD 0 = true) (hnv : n < v) (hvM : v ≤ M) :
    ((b.setWidth M <<< n) ^^^ (b ^^^ K).setWidth M).setWidth v ≠ 0 := by
  intro hzero
  have hn : 0 < n := Nat.pos_of_ne_zero fun h0 => by simp [h0] at hK
  have hbit : ∀ k < v, ((b.setWidth M <<< n) ^^^ (b ^^^ K).setWidth M).getLsbD k = false := by
    intro k hk
    have := congrArg (fun x => x.getLsbD k) hzero
    simpa [hk] using this
  have hlow := hbit 0 (by omega)
  have hcopy := hbit n hnv
  simp only [BitVec.getLsbD_xor, BitVec.getLsbD_shiftLeft, BitVec.getLsbD_setWidth] at hlow hcopy
  simp [hn, Nat.lt_of_lt_of_le hnv hvM, Nat.lt_trans hn (Nat.lt_of_lt_of_le hnv hvM)] at hlow hcopy hK
  simp [hlow, hK] at hcopy

/-- the expansion of the product `h * kCoeffAndResultFactor` to a coefficient row wider than the hash keeps a bit -/
theorem expandedCoeffRow_ne_zero (hhb : hb = 32 ∨ hb = 64) (hlt : hb < w) (hw : w ≤ 128) (a : BitVec hb) :
    (if 64 < w then
        ((if hb < 64 then (a.setWidth 64 <<< 32) ^^^ (a ^^^ kCoeffXor32.setWidth hb).setWidth 64
          else a.setWidth 64).setWidth 128 <<< 64) ^^^
        ((if hb < 64 then (a.setWidth 64 <<< 32) ^^^ (a ^^^ kCoeffXor32.setWidth hb).setWidth 64
          else a.setWidth 64) ^^^ kCoeffXor64).setWidth 128
      else (if hb < 64 then (a.setWidth 64 <<< 32) ^^^ (a ^^^ kCoeffXor32.setWidth hb).setWidth 64
          else a.setWidth 64).setWidth 128).setWidth w ≠ 0 := by
  by_cases hwide : 64 < w
  · -- past 64 bits: the 64-bit expansion and its xor with `kCoeffXor64`
    rw [if_pos hwide]
    exact setWidth_expand_ne_zero _ kCoeffXor64 (by decide) hwide hw
  · -- up to 64 bits from a 32-bit hash: the hash and its xor with `kCoeffXor32`
    obtain rfl : hb = 32 := by omega
    rw [if_neg hwide, if_pos (by decide), BitVec.setWidth_setWidth_of_le _ (by omega)]
    exact setWidth_expand_ne_zero a (kCoeffXor32.setWidth 32) (by decide) hlt (by omega)

/-- **`GetCoeffRow` gives `BandingAdd` a row it can take** when `kFirstCoeffAlwaysOne`, `kUseSmash`, or a coefficient row
at least as wide as the hash -/
theorem getCoeffRow_coeffOk (hhb : hb = 32 ∨ hb = 64) (hw : 0 < w) (hw128 : w ≤ 128)
    (hcfg : ts.kFirstCoeffAlwaysOne = true ∨ ts.kUseSmash = true ∨ hb ≤ w) (h : BitVec hb) :
    CoeffOk ts.kFirstCoeffAlwaysOne (getCoeffRow ts h) := by
  unfold getCoeffRow
  by_cases hsmash : ts.kUseSmash = true
  · rw [if_pos hsmash]
    dsimp only
    cases hF : ts.kFirstCoeffAlwaysOne
    · rw [if_neg Bool.false_ne_true]
      exact ⟨or_ite_eq_zero_ne_zero _ hw, fun h => absurd h Bool.false_ne_true⟩
    · rw [if_pos rfl]
      exact coeffOk_of_getLsbD_zero true (getLsbD_or_one _ hw)
  · rw [if_neg hsmash]
    dsimp only
    cases hF : ts.kFirstCoeffAlwaysOne
    · -- no first coefficient fixed: some bit set, by the fix-up or by the expansion
      refine ⟨?_, fun h => absurd h Bool.false_ne_true⟩
      rw [if_neg Bool.false_ne_true]
      by_cases hwh : w = hb
      · rw [if_pos hwh]
        exact or_ite_eq_zero_ne_zero _ hw
      · rw [if_neg hwh]
        have hlt : hb < w := by
          rcases hcfg with h | h | h
          · simp [hF] at h
          · exact absurd h hsmash
          · omega
        exact expandedCoeffRow_ne_zero hhb hlt hw128 _
    · rw [if_pos rfl]
      exact coeffOk_of_getLsbD_zero true (getLsbD_or_one _ hw)

/-- the inputs of the standard hasher under any raw seed start at a start and have a coefficient row `BandingAdd`
can take -/
theorem toBandingHasher_inputs_ok (hhb : hb = 32 ∨ hb = 64) (hw : 0 < w) (hw128 : w ≤ 128)
    (hcfg : ts.kFirstCoeffAlwaysOne = true ∨ ts.kUseSmash = true ∨ hb ≤ w) {AddInput : Type} (rawSeed : BitVec sb)
    (getKey : AddInput → Key) (getResultRowFromInput : AddInput → BitVec r) {numStarts : ℕ} (hn : 0 < numStarts)
    (inputs : List AddInput) :
    ∀ x ∈ inputs, inputStart (toBandingHasher ts rawSeed getKey getResultRowFromInput) numStarts x < numStarts ∧
      CoeffOk (toBandingHasher ts rawSeed getKey getResultRowFromInput).kFirstCoeffAlwaysOne
        (inputCoeffRow (toBandingHasher ts rawSeed getKey getResultRowFromInput) x) :=
  fun _ _ => ⟨getStart_lt ts _ hn, getCoeffRow_coeffOk ts hhb hw hw128 hcfg _⟩

/-- without `kFirstCoeffAlwaysOne` or `kUseSmash`, a coefficient row narrower than the hash is zero for some hash:
for a 64-bit hash the hash zero, for a 32-bit one the hash whose product is `kCoeffXor32` -/
theorem getCoeffRow_eq_zero_of_lt (hF : ts.kFirstCoeffAlwaysOne = false) (hsmash : ts.kUseSmash = false)
    (hhb : hb = 32 ∨ hb = 64) (hlt : w < hb) : ∃ h, getCoeffRow ts h = 0 := by
  rcases hhb with rfl | rfl
  · refine ⟨0x6cde5a69, ?_⟩
    have ha : (0x6cde5a69 : BitVec 32) * kCoeffAndResultFactor 32 = kCoeffXor32 := by decide
    unfold getCoeffRow
    rw [if_neg (show ¬ ts.kUseSmash = true by simp [hsmash])]
    dsimp only
    rw [ha, if_neg (show ¬ ts.kFirstCoeffAlwaysOne = true by simp [hF]), if_neg (show ¬ w = 32 by omega),
      if_neg (show ¬ 64 < w by omega), if_pos (show 32 < 64 by decide)]
    -- the low 32 bits of the expansion are `kCoeffXor32 ^ kCoeffXor32`
    apply BitVec.eq_of_getLsbD_eq
    intro k hk
    have hk32 : k < 32 := by omega
    simp [BitVec.getLsbD_setWidth, BitVec.getLsbD_shiftLeft, hk32]
  · refine ⟨0, ?_⟩
    simp [getCoeffRow, hsmash, hF, show ¬ 64 < w by omega, show w ≠ 64 by omega]

/-- **`GetCoeffRow` can give a zero row exactly when neither `kFirstCoeffAlwaysOne` nor `kUseSmash` is set and the row
is narrower than the hash**, and there `BandingAdd` would count the trailing zeroes of zero -/
theorem getCoeffRow_eq_zero_iff (hhb : hb = 32 ∨ hb = 64) (hw : 0 < w) (hw128 : w ≤ 128) :
    (∃ h, getCoeffRow ts h = 0) ↔ ts.kFirstCoeffAlwaysOne = false ∧ ts.kUseSmash = false ∧ w < hb := by
  constructor
  · rintro ⟨h, hzero⟩
    by_contra hnot
    -- any other setting gives a row with a bit set
    have hcfg : ts.kFirstCoeffAlwaysOne = true ∨ ts.kUseSmash = true ∨ hb ≤ w := by
      rcases Nat.lt_or_ge w hb with hlt | hge
      · cases hF : ts.kFirstCoeffAlwaysOne
        · cases hS : ts.kUseSmash
          · exact absurd ⟨hF, hS, hlt⟩ hnot
          · exact Or.inr (Or.inl rfl)
        · exact Or.inl rfl
      · exact Or.inr (Or.inr hge)
    exact (getCoeffRow_coeffOk ts hhb hw hw128 hcfg h).1 hzero
  · rintro ⟨hF, hsmash, hlt⟩
    exact getCoeffRow_eq_zero_of_lt ts hF hsmash hhb hlt

/-- the coefficient rows of `Standard128RibbonTypesAndSettings` are never zero -/
theorem getCoeffRow_eq_zero_iff_standard128 :
    ((64 = 32 ∨ 64 = 64) ∧ 0 < 128 ∧ 128 ≤ 128) ∧
      ((∃ h, getCoeffRow standard128RibbonTypesAndSettings h = 0) ↔
        standard128RibbonTypesAndSettings.kFirstCoeffAlwaysOne = false ∧
          standard128RibbonTypesAndSettings.kUseSmash = false ∧ 128 < 64) :=
  ⟨by decide, getCoeffRow_eq_zero_iff standard128RibbonTypesAndSettings (by decide) (by decide) (by decide)⟩

end StandardHasher

end ForSt.ribbon
