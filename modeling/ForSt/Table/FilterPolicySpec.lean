import ForSt.Table.FilterPolicyBloomSpec
import ForSt.Util.RibbonImplSpec
import ForSt.Lib.BitFields
/-!
A Ribbon filter `Finish` builds, read back as a table reads a filter block, accepts every hash it was built from
(`standard128Ribbon_addKeys_finish`), on every path: the Ribbon filter and each fall-back to Bloom.

The slots are whole blocks, at least two, and the buffer ends in the metadata after whole segments, so the reader's
bytes hold the writer's segments, each `CoeffRow` reading back as written (`coeffRowsOfBytes_coeffRowBytes`). The
metadata gives back the ordinal seed and the blocks, which configure the writer's layout, so the reader's
`FilterQuery` is the writer's, which accepts every key of the band.
-/

namespace ForSt

open ribbon ribbon.StandardHasher ribbon.StandardBanding XXPH3FilterBitsBuilder

namespace Standard128RibbonBitsBuilder

theorem roundDownUsableSpace_mod (availableSize : ℕ) : roundDownUsableSpace availableSize % 16 = 5 := by
  simp only [roundDownUsableSpace, kMetadataLen]
  omega

section sizing

variable (b : Standard128RibbonBitsBuilder)

/-- the slots of the Ribbon path: whole blocks of `kCoeffBits = 128`, at least two, and no more than the slots
`GetNumSlots` asks for rounded up to a block, or two blocks -/
theorem numEntriesToNumSlots_spec (numEntries : ℕ) :
    b.numEntriesToNumSlots numEntries % 128 = 0 ∧
      (b.numEntriesToNumSlots numEntries = 0 ∨ 256 ≤ b.numEntriesToNumSlots numEntries) ∧
      b.numEntriesToNumSlots numEntries ≤ max (b.getNumSlots numEntries + 127) 256 :=
  SerializableInterleavedSolution.roundUpNumSlots_spec standard128RibbonTypesAndSettings rfl _

/-- slots for the Ribbon path are those of `NumEntriesToNumSlots`, for a target of `GetBytesForOneInFpRate` -/
theorem calculateSpaceAndSlots_of_ne_zero {numEntries : ℕ} {entropy : BitVec 32}
    (h : (b.calculateSpaceAndSlots numEntries entropy).2 ≠ 0) :
    (b.calculateSpaceAndSlots numEntries entropy).2 = b.numEntriesToNumSlots numEntries ∧
      (b.calculateSpaceAndSlots numEntries entropy).1 =
        b.getBytesForOneInFpRate (b.numEntriesToNumSlots numEntries) entropy + kMetadataLen := by
  unfold calculateSpaceAndSlots at h ⊢
  dsimp only at h ⊢
  split_ifs at h ⊢
  · exact absurd rfl h
  · exact absurd rfl h
  · exact ⟨rfl, rfl⟩

/-- the buffer `AllocateMaybeRounding` leaves ends in the metadata after whole segments, at least one of them -/
theorem allocateMaybeRounding_spec
    (hrounding : ∀ t ne available, b.rounding t ne = some available → kMetadataLen + 16 ≤ available)
    {target : ℕ} (ht : target % 16 = 5) (ht16 : kMetadataLen + 16 ≤ target) (numEntries : ℕ) :
    allocateMaybeRounding roundDownUsableSpace b.optimizeForMemory b.rounding target numEntries % 16 = 5 ∧
      kMetadataLen + 16 ≤ allocateMaybeRounding roundDownUsableSpace b.optimizeForMemory b.rounding target numEntries := by
  rcases allocateMaybeRounding_cases roundDownUsableSpace b.optimizeForMemory b.rounding target numEntries with
    hL | ⟨available, havailable, hL⟩
  · rw [hL]
    exact ⟨ht, ht16⟩
  · -- the rounding's buffer keeps a segment, which `RoundDownUsableSpace` does not take away
    have hge := hrounding target numEntries available havailable
    rw [hL]
    refine ⟨roundDownUsableSpace_mod available, ?_⟩
    simp only [roundDownUsableSpace, kMetadataLen] at hge ⊢
    omega

/-- on the Ribbon path the slots are whole blocks, at least two, with a block to spare below `2^31`, and the target
length ends in the metadata after whole segments, at least one -/
theorem calculateSpaceAndSlots_ribbon
    (hbytes : ∀ ns e, 0 < b.getBytesForOneInFpRate ns e ∧ b.getBytesForOneInFpRate ns e % 16 = 0)
    (hslots : ∀ ne, b.getNumSlots ne + 128 ≤ 2 ^ 31) {numEntries : ℕ} {entropy : BitVec 32}
    (h : (b.calculateSpaceAndSlots numEntries entropy).2 ≠ 0) :
    (b.calculateSpaceAndSlots numEntries entropy).2 % 128 = 0 ∧ 256 ≤ (b.calculateSpaceAndSlots numEntries entropy).2 ∧
      (b.calculateSpaceAndSlots numEntries entropy).2 + 128 ≤ 2 ^ 31 ∧
      (b.calculateSpaceAndSlots numEntries entropy).1 % 16 = 5 ∧
      kMetadataLen + 16 ≤ (b.calculateSpaceAndSlots numEntries entropy).1 := by
  obtain ⟨hslotsEq, htarget⟩ := b.calculateSpaceAndSlots_of_ne_zero h
  obtain ⟨hmod, hzero, hle⟩ := b.numEntriesToNumSlots_spec numEntries
  have hg := hslots numEntries
  have hb := hbytes (b.numEntriesToNumSlots numEntries) entropy
  rw [hslotsEq] at h ⊢
  rw [htarget]
  unfold kMetadataLen
  omega

end sizing

/-- the metadata's blocks come back from their three bytes -/
theorem numBlocks_of_metadata {numBlocks : ℕ} (hnb : numBlocks < 2 ^ 24) :
    (UInt8.ofNat (numBlocks &&& 255)).toNat ||| ((UInt8.ofNat ((numBlocks >>> 8) &&& 255)).toNat <<< 8) |||
      ((UInt8.ofNat ((numBlocks >>> 16) &&& 255)).toNat <<< 16) = numBlocks := by
  -- each byte is the number's digit in base 256
  have hbyte : ∀ x : ℕ, (UInt8.ofNat (x &&& 255)).toNat = x % 256 := by
    intro x
    rw [UInt8.toNat_ofNat', show (255 : ℕ) = 2 ^ 8 - 1 from rfl, Nat.and_two_pow_sub_one_eq_mod, Nat.mod_mod]
  rw [hbyte, hbyte, hbyte, Nat.shiftRight_eq_div_pow, Nat.shiftRight_eq_div_pow, Nat.shiftLeft_eq, Nat.shiftLeft_eq,
    Nat.lor_comm (numBlocks % 256), ForSt.BitFields.mul_two_pow_or (show numBlocks % 256 < 2 ^ 8 by omega),
    Nat.lor_comm _ (numBlocks / 2 ^ 16 % 256 * 2 ^ 16),
    ForSt.BitFields.mul_two_pow_or (show numBlocks / 2 ^ 8 % 256 * 2 ^ 8 + numBlocks % 256 < 2 ^ 16 by omega)]
  omega

/-- the sixteen bytes `Finish` writes for a `CoeffRow` read back as it -/
theorem coeffRowsOfBytes_coeffRowBytes (segments : ℕ → BitVec 128) :
    BuiltinFilterPolicy.coeffRowsOfBytes (coeffRowBytes segments) = segments := by
  funext i
  have hbytes : (List.range 16).map (fun k => coeffRowBytes segments (16 * i + k)) =
      Bytes.leBytes 16 (segments i).toNat := by
    apply List.ext_getElem (by simp)
    intro k hk _
    rw [List.length_map, List.length_range] at hk
    have hdiv : (16 * i + k) / 16 = i := by omega
    have hmod : (16 * i + k) % 16 = k := by omega
    rw [List.getElem_map, List.getElem_range, coeffRowBytes, hdiv, hmod, List.getD_eq_getElem]
  have hlt : (segments i).toNat < 256 ^ 16 := (segments i).isLt.trans_eq (by norm_num)
  rw [BuiltinFilterPolicy.coeffRowsOfBytes, hbytes, Bytes.ofLeBytes_leBytes_of_lt hlt, BitVec.ofNat_toNat,
    BitVec.setWidth_eq]

/-- **`GetBuiltinFilterBitsReader` reads back the metadata `Finish` writes**: past the marker `-2`, a seed of a
byte and between two and `2^24` blocks give the Ribbon reader of the segments before the metadata, configured for
the blocks, under the seed -/
theorem getBuiltinFilterBitsReader_metadata (segments : ℕ → BitVec 128) {len : ℕ} (hlen : kMetadataLen < len)
    {seed : BitVec 32} (hseed : seed.toNat < 256) {numBlocks : ℕ} (hnb2 : 2 ≤ numBlocks) (hnb : numBlocks < 2 ^ 24) :
    BuiltinFilterPolicy.getBuiltinFilterBitsReader ⟨coeffRowBytes segments, len, metadata seed numBlocks⟩ =
      .standard128Ribbon
        ((SerializableInterleavedSolution.ofBuffer segments (len - kMetadataLen)).configureForNumBlocks numBlocks)
        seed := by
  have hmarker : ((-2 : Int8).toUInt8).toInt8 = -2 := by decide
  have hseed' : BitVec.ofNat 32 (UInt8.ofNat seed.toNat).toNat = seed := by
    rw [UInt8.toNat_ofNat', Nat.mod_eq_of_lt hseed, BitVec.ofNat_toNat, BitVec.setWidth_eq]
  unfold BuiltinFilterPolicy.getBuiltinFilterBitsReader BuiltinFilterPolicy.getRibbonBitsReader metadata
  simp only [List.getD_cons_succ, List.getD_cons_zero, hmarker, numBlocks_of_metadata hnb, hseed',
    coeffRowsOfBytes_coeffRowBytes]
  rw [if_neg (Nat.not_le.mpr hlen), if_pos (by decide : (-2 : Int8) < 1), if_neg (by decide : (-2 : Int8) ≠ 0),
    if_neg (by decide : (-2 : Int8) ≠ -1), if_pos trivial, if_neg (Nat.not_lt.mpr hnb2)]

/-- **the bytes `Finish` writes for a solution read back as that solution**: back substituted into a zeroed buffer
of whole segments before the metadata, a band of two or more whole blocks, and fewer than `2^24`, is what
`GetBuiltinFilterBitsReader` reads from the segments' bytes and the metadata of its seed and blocks -/
theorem getBuiltinFilterBitsReader_backSubstFrom (bs : BandingStorage 128 32) (hn : bs.numStarts % 128 = 1)
    (hn2 : 128 < bs.numStarts) (hn24 : bs.numStarts + 128 < 2 ^ 31) {len : ℕ} (hlen : len % 16 = 5)
    (hlen21 : kMetadataLen + 16 ≤ len) {seed : BitVec 32} (hseed : seed.toNat < 256) :
    BuiltinFilterPolicy.getBuiltinFilterBitsReader
        ⟨coeffRowBytes ((SerializableInterleavedSolution.ofBuffer (fun _ => 0) len).backSubstFrom
          standard128RibbonTypesAndSettings bs).data, len,
          metadata seed ((SerializableInterleavedSolution.ofBuffer (fun _ => 0) len).backSubstFrom
            standard128RibbonTypesAndSettings bs).getNumBlocks⟩ =
      .standard128Ribbon ((SerializableInterleavedSolution.ofBuffer (fun _ => 0) len).backSubstFrom
        standard128RibbonTypesAndSettings bs) seed := by
  have hnb : ((SerializableInterleavedSolution.ofBuffer (fun _ => 0) len).backSubstFrom
      standard128RibbonTypesAndSettings bs).getNumBlocks = (bs.numStarts + 128 - 1) / 128 := by
    rw [SerializableInterleavedSolution.getNumBlocks,
      SerializableInterleavedSolution.backSubstFrom_numStarts _ _ _ (by omega)]
  unfold kMetadataLen at hlen21
  rw [getBuiltinFilterBitsReader_metadata _ (by unfold kMetadataLen; omega) hseed (by rw [hnb]; omega)
    (by rw [hnb]; omega),
    SerializableInterleavedSolution.configureForNumBlocks_backSubstFrom _ _ (by norm_num) _ hn _
      (by show (len - kMetadataLen) / 16 = len / 16; unfold kMetadataLen; omega)]

/-- the inputs of `Standard128RibbonTypesAndSettings` under any raw seed start at a start of `num_slots` and have a
coefficient row `BandingAdd` can take -/
theorem standard128_inputs_ok (numSlots : ℕ) (entries : List (BitVec 64)) (c : BitVec 32) :
    ∀ x ∈ entries, inputStart (keyHasher standard128RibbonTypesAndSettings c) (numSlots - 128 + 1) x < numSlots - 128 + 1 ∧
      CoeffOk (keyHasher standard128RibbonTypesAndSettings c).kFirstCoeffAlwaysOne
        (inputCoeffRow (keyHasher standard128RibbonTypesAndSettings c) x) :=
  toBandingHasher_inputs_ok standard128RibbonTypesAndSettings (Or.inr rfl) (by decide) (by decide) (Or.inl rfl) c id
    (fun _ => 0) (by omega) entries

/-- the Ribbon filter of `Finish`'s last path, read back, accepts every entry: slots of whole blocks, at least two,
a buffer of whole segments before the metadata, and a search over the 256 seeds from `start` that solved -/
theorem hashMayMatch_of_banding {numSlots len : ℕ} (hmod : numSlots % 128 = 0) (h256 : 256 ≤ numSlots)
    (hlt : numSlots + 128 ≤ 2 ^ 31) (hlen : len % 16 = 5) (hlen21 : kMetadataLen + 16 ≤ len)
    (entries : List (BitVec 64)) (start : BitVec 32) {res : Bool × StandardBanding 128 32 32}
    (hres : resetAndFindSeedToSolve standard128RibbonTypesAndSettings (keyHasher standard128RibbonTypesAndSettings)
      init numSlots entries start 255 = res) (hok : res.1 = true) :
    ∀ h ∈ entries, (BuiltinFilterPolicy.getBuiltinFilterBitsReader
      ⟨coeffRowBytes ((SerializableInterleavedSolution.ofBuffer (fun _ => 0) len).backSubstFrom
          standard128RibbonTypesAndSettings (res.2.toBandingStorage standard128RibbonTypesAndSettings)).data, len,
        metadata (getOrdinalSeed 64 res.2.rawSeed) ((SerializableInterleavedSolution.ofBuffer (fun _ => 0) len).backSubstFrom
          standard128RibbonTypesAndSettings (res.2.toBandingStorage standard128RibbonTypesAndSettings)).getNumBlocks⟩).hashMayMatch h =
      some true := by
  intro h hh
  -- the search stops at a seed that solves, and leaves its band under its raw seed
  obtain ⟨k, -, hsolve, hseed, hstarts, hrows⟩ := resetAndFindSeedToSolve_success standard128RibbonTypesAndSettings
    (keyHasher standard128RibbonTypesAndSettings) start (by decide : (255 : BitVec 32).toNat = 2 ^ 8 - 1)
    (by decide) (by omega) init (Or.inl (by show 0 < numSlots; omega)) (fun c => standard128_inputs_ok numSlots entries c)
    (fun hh => absurd hh (by decide)) (hres ▸ hok)
  rw [hres] at hseed hstarts hrows
  rw [bandAt, ← hseed] at hrows
  -- the ordinal seed is a byte, and `SetOrdinalSeed` of it is the raw seed
  have hc : (ordinalSeedAt start 255 k).toNat < 256 := by
    rw [ordinalSeedAt, ForSt.MaskedMix.toNat_add_and_mask (by decide : (255 : BitVec 32).toNat = 2 ^ 8 - 1)]
    exact Nat.mod_lt _ (by norm_num)
  have hseedEq : getOrdinalSeed 64 res.2.rawSeed = ordinalSeedAt start 255 k := by
    rw [hseed, getOrdinalSeed_setOrdinalSeed (by decide) (by decide) (by decide)]
  -- the band's starts are whole blocks plus one
  have hbsStarts : (res.2.toBandingStorage standard128RibbonTypesAndSettings).numStarts = numSlots - 128 + 1 := hstarts
  have hbsmod : (res.2.toBandingStorage standard128RibbonTypesAndSettings).numStarts % 128 = 1 :=
    hbsStarts ▸ sub_add_one_mod_of_mod_eq_zero (by norm_num) (by omega) hmod
  -- the reader's query is the writer's, which accepts every key of the band
  rw [hseedEq, getBuiltinFilterBitsReader_backSubstFrom _ hbsmod (by omega) (by omega) hlen hlen21 hc,
    FilterBitsReader.hashMayMatch, ← hseed]
  exact congrArg some (filterQuery_backSubstFrom_of_rows standard128RibbonTypesAndSettings (Or.inr rfl) (by norm_num)
    (by norm_num) (Or.inl rfl) (by omega) hmod res.2 res.2.rawSeed entries hrows hstarts (hseed ▸ hsolve) _ h hh)

/-- a check of the hash entries that fails leaves the always-true filter -/
theorem hashMayMatch_finishAlwaysTrue (h : BitVec 64) :
    (BuiltinFilterPolicy.getBuiltinFilterBitsReader finishAlwaysTrue).hashMayMatch h = some true := by
  rfl

/-- with the entries' checksum right, `Finish` reports OK on every path -/
theorem finish_status {b : Standard128RibbonBitsBuilder} {info : HashEntriesInfo}
    (hinfo : ChecksumOk b.detectFilterConstructCorruption info) : (b.finish info).2 = .ok := by
  have hbloom : (b.bloomFallback.finish info).2 = .ok := FastLocalBloomBitsBuilder.finish_status hinfo
  unfold finish
  simp only [maybeVerifyHashEntriesChecksum_of_checksumOk hinfo, ne_eq, not_true_eq_false, if_false]
  split_ifs <;> first | exact hbloom | rfl

/-- the filter `Finish` builds, read back, finds every entry, on each path: too many entries, a small filter Bloom
would beat, no memory for banding and no seed solving give the Bloom filter; a failed checksum gives the always-true
filter; the last path gives the Ribbon filter -/
theorem finish_hashMayMatch (b : Standard128RibbonBitsBuilder)
    (hbytes : ∀ ns e, 0 < b.getBytesForOneInFpRate ns e ∧ b.getBytesForOneInFpRate ns e % 16 = 0)
    (hrounding : ∀ t ne available, b.rounding t ne = some available → kMetadataLen + 16 ≤ available)
    (hslots : ∀ ne, b.getNumSlots ne + 128 ≤ 2 ^ 31) (hbm : 0 < b.bloomMillibitsPerKey)
    (hbr : ∀ t ne available, b.bloomRounding t ne = some available → kMetadataLen + 64 ≤ available)
    (info : HashEntriesInfo) :
    ∀ h ∈ info.entries, (BuiltinFilterPolicy.getBuiltinFilterBitsReader (b.finish info).1).hashMayMatch h =
      some true := by
  intro h hh
  have hbloom := (FastLocalBloomBitsBuilder.finish_hashMayMatch b.bloomFallback hbm hbr info).1 h hh
  have hne : info.entries.length ≠ 0 := (List.length_pos_of_mem hh).ne'
  unfold finish
  by_cases hmax : info.entries.length > kMaxRibbonEntries
  · rw [if_pos hmax]
    exact hbloom
  rw [if_neg hmax, if_neg hne]
  dsimp only
  split
  · exact hbloom
  rename_i hslots0
  split
  · exact hbloom
  split
  · exact hbloom
  rename_i hfound
  split
  · exact hashMayMatch_finishAlwaysTrue h
  -- the Ribbon path: the slots and the buffer keep whole blocks and segments
  obtain ⟨hmod, h256, hlt, htmod, ht16⟩ := b.calculateSpaceAndSlots_ribbon hbytes hslots hslots0
  obtain ⟨hLmod, hL21⟩ := b.allocateMaybeRounding_spec hrounding htmod ht16 info.entries.length
  exact hashMayMatch_of_banding hmod h256 hlt hLmod hL21 info.entries _ rfl (by simpa using hfound) h hh

/-- **A Standard128 Ribbon filter finds every key added, on every path of `Finish`**: for every builder whose
floating-point and allocator parts give whole segments, at least one, and fewer than `2^31` slots, and whose Bloom
fall-back has a positive `millibits_per_key` and keeps a cache line, and every sequence of hashes given to `AddKey`,
`Finish` reports OK and the reader `GetBuiltinFilterBitsReader` makes of its bytes answers `HashMayMatch` with true
for every hash added -/
theorem standard128Ribbon_addKeys_finish (b : Standard128RibbonBitsBuilder)
    (hbytes : ∀ ns e, 0 < b.getBytesForOneInFpRate ns e ∧ b.getBytesForOneInFpRate ns e % 16 = 0)
    (hrounding : ∀ t ne available, b.rounding t ne = some available → kMetadataLen + 16 ≤ available)
    (hslots : ∀ ne, b.getNumSlots ne + 128 ≤ 2 ^ 31) (hbm : 0 < b.bloomMillibitsPerKey)
    (hbr : ∀ t ne available, b.bloomRounding t ne = some available → kMetadataLen + 64 ≤ available)
    (hashes : List (BitVec 64)) :
    let filter := b.finish (addKeys b.detectFilterConstructCorruption HashEntriesInfo.empty hashes)
    filter.2 = .ok ∧
      ∀ h ∈ hashes, (BuiltinFilterPolicy.getBuiltinFilterBitsReader filter.1).hashMayMatch h = some true := by
  intro filter
  have hinfo := checksumOk_addKeys (checksumOk_empty b.detectFilterConstructCorruption) hashes
  refine ⟨finish_status hinfo, fun h hh => ?_⟩
  -- every hash added is kept
  exact finish_hashMayMatch b hbytes hrounding hslots hbm hbr _ h ((mem_addKeys _ _ _ h).mpr (Or.inr hh))

/-- a builder with slots for twice the entries, a byte a slot, no rounding, corruption detection and a Bloom
fall-back of ten bits a key, given a repeated key -/
theorem standard128Ribbon_addKeys_finish_twoSlotsPerKey :
    let filter := (⟨fun ne => min (2 * ne) (2 ^ 30), fun ns _ => (ns / 128 + 1) * 16, false, fun _ _ => none,
      fun _ _ => none, false, true, 10000⟩ : Standard128RibbonBitsBuilder).finish
        (addKeys true HashEntriesInfo.empty [1, 2, 2, 3])
    filter.2 = .ok ∧ ∀ h ∈ ([1, 2, 2, 3] : List (BitVec 64)),
      (BuiltinFilterPolicy.getBuiltinFilterBitsReader filter.1).hashMayMatch h = some true :=
  standard128Ribbon_addKeys_finish _ (fun ns _ => ⟨Nat.mul_pos (Nat.succ_pos _) (by norm_num), Nat.mul_mod_left _ _⟩)
    (fun _ _ _ h => absurd h (by simp)) (fun ne => by show min (2 * ne) (2 ^ 30) + 128 ≤ 2 ^ 31; omega) (by decide)
    (fun _ _ _ h => absurd h (by simp)) [1, 2, 2, 3]

end Standard128RibbonBitsBuilder

end ForSt
