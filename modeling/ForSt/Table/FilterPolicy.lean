import ForSt.Util.RibbonImpl
import ForSt.Util.BloomImpl
import ForSt.Util.Coding
import ForSt.Util.Status
import ForSt.Table.Format
/-!
The filter builders and readers of `table/block_based/filter_policy.cc` that use the XXH3 hashes of the keys: the
cache-local Bloom filter (`FastLocalBloomBitsBuilder`), the Standard128 Ribbon filter with its Bloom fall-back, and
`GetBuiltinFilterBitsReader`, which reads either from the filter's bytes.

Both builders keep the 64-bit hashes of the keys added, collapsing adjacent repeats, and with
`detect_filter_construct_corruption` their xor, which `Finish` checks. A filter is `len_with_metadata` bytes: its own
bytes, then `kMetadataLen` bytes of metadata whose first byte names the implementation.

- Bloom: `Finish` sizes the filter in whole cache lines, adds every entry with `AddAllEntries`, which prepares up to
  eight entries ahead of adding them, and writes `-1`, the sub-implementation `0` and `num_probes`.
- Ribbon: `Finish` falls back to Bloom for too many entries, for a small filter Bloom would beat, when the cache
  charging for banding fails, and when no seed solves; otherwise it bands the hashes with `ResetAndFindSeedToSolve`
  over the 256 seeds from `entropy & 255`, back substitutes into a zeroed buffer, and writes `-2`, the ordinal seed
  and the number of blocks in 24 bits.

The sizes from floating point (`GetNumSlots`, `GetBytesForOneInFpRate`, the rate estimates of `AllocateMaybeRounding`)
and from `malloc_usable_size` are parameters; the integer code around them is modelled. The filter's bytes are a
function from offsets; the Ribbon `CoeffRow`s are those bytes read as little-endian 128-bit words.
-/

namespace ForSt

open ribbon

/-- `kMetadataLen` -/
def kMetadataLen : ℕ := 5

/-- the bytes of a filter, as `Finish` returns them and `GetBuiltinFilterBitsReader` reads them: the `Slice` of
`len_with_metadata` bytes, as the bytes before the metadata and the `kMetadataLen` bytes of metadata at its end -/
structure FilterContents where
  data : ℕ → UInt8
  lenWithMetadata : ℕ
  metadata : List UInt8

/-- `FinishAlwaysFalse(buf)`: missing metadata, treated as zero entries -/
def finishAlwaysFalse : FilterContents := ⟨fun _ => 0, 0, []⟩

/-- `FinishAlwaysTrue(buf)`: six zero bytes, of which the metadata marks zero probes -/
def finishAlwaysTrue : FilterContents := ⟨fun _ => 0, 6, [0, 0, 0, 0, 0]⟩

/-! ## The hash entries of `XXPH3FilterBitsBuilder` -/

/-- `HashEntriesInfo`: the hashes of the keys added, and with `detect_filter_construct_corruption` their xor -/
structure HashEntriesInfo where
  entries : List (BitVec 64)
  xorChecksum : BitVec 64

/-- the hash entries of a new builder -/
def HashEntriesInfo.empty : HashEntriesInfo := ⟨[], 0⟩

namespace XXPH3FilterBitsBuilder

/-- `AddKey(key)` of the key's `GetSliceHash64`, without the cache charging of the entries -/
def addKey (detectFilterConstructCorruption : Bool) (info : HashEntriesInfo) (hash : BitVec 64) :
    HashEntriesInfo :=
  -- only adjacent repetition is collapsed
  if info.entries.isEmpty || hash != info.entries.getLastD 0 then
    { entries := info.entries ++ [hash]
      xorChecksum := if detectFilterConstructCorruption then info.xorChecksum ^^^ hash else info.xorChecksum }
  else info

/-- the hash entries after `AddKey` of each hash in turn -/
def addKeys (detectFilterConstructCorruption : Bool) (info : HashEntriesInfo) (hashes : List (BitVec 64)) :
    HashEntriesInfo :=
  hashes.foldl (addKey detectFilterConstructCorruption) info

/-- `MaybeVerifyHashEntriesChecksum()` -/
def maybeVerifyHashEntriesChecksum (detectFilterConstructCorruption : Bool) (info : HashEntriesInfo) : Status :=
  if !detectFilterConstructCorruption then .ok
  else if info.entries.foldl (· ^^^ ·) 0 == info.xorChecksum then .ok
  else .corruption "Filter's hash entries checksum mismatched"

/-- `AllocateMaybeRounding(target_len_with_metadata, num_entries, &buf)` of a builder whose `RoundDownUsableSpace` is
`roundDownUsableSpace`: the target, or with `optimize_filters_for_memory` the usable space of the size `rounding`
says it rounds down to, if it rounds -/
def allocateMaybeRounding (roundDownUsableSpace : ℕ → ℕ) (optimizeForMemory : Bool) (rounding : ℕ → ℕ → Option ℕ)
    (targetLenWithMetadata numEntries : ℕ) : ℕ :=
  if optimizeForMemory then
    match rounding targetLenWithMetadata numEntries with
    | none => targetLenWithMetadata
    | some available => roundDownUsableSpace available
  else targetLenWithMetadata

end XXPH3FilterBitsBuilder

open XXPH3FilterBitsBuilder

/-! ## `FastLocalBloomBitsBuilder` -/

/-- a `FastLocalBloomBitsBuilder`: `millibits_per_key_`, whether `aggregate_rounding_balance_` is set
(`optimize_filters_for_memory`), the size `AllocateMaybeRounding` then rounds down to for a target length and a
number of entries, if it rounds, and `detect_filter_construct_corruption_` -/
structure FastLocalBloomBitsBuilder where
  millibitsPerKey : ℕ
  optimizeForMemory : Bool
  rounding : ℕ → ℕ → Option ℕ
  detectFilterConstructCorruption : Bool

namespace FastLocalBloomBitsBuilder

/-- `CalculateSpace(num_entries)` -/
def calculateSpace (b : FastLocalBloomBitsBuilder) (numEntries : ℕ) : ℕ :=
  -- If not for cache line blocks in the filter, what would the target length in bytes be?
  let rawTargetLen := (numEntries * b.millibitsPerKey + 7999) / 8000
  -- Max supported for this data structure implementation
  let rawTargetLen := if rawTargetLen ≥ 0xffffffc0 then 0xffffffc0 else rawTargetLen
  -- Round up to nearest multiple of 64 (block size)
  (rawTargetLen + 63) / 64 * 64 + kMetadataLen

/-- `RoundDownUsableSpace(available_size)` -/
def roundDownUsableSpace (availableSize : ℕ) : ℕ :=
  let rv := availableSize - kMetadataLen
  -- Max supported for this data structure implementation
  let rv := if rv ≥ 0xffffffc0 then 0xffffffc0 else rv
  -- round down to multiple of 64 (block size)
  rv / 64 * 64 + kMetadataLen

/-- `GetNumProbes(keys, len_with_metadata)` -/
def getNumProbes (b : FastLocalBloomBitsBuilder) (keys lenWithMetadata : ℕ) : ℤ :=
  let millibits := (lenWithMetadata - kMetadataLen) * 8000
  let actualMillibitsPerKey : ℤ := (Int32.ofNat (millibits / max keys 1)).toInt
  -- preserving old/default behavior without `aggregate_rounding_balance_`
  let actualMillibitsPerKey := if b.optimizeForMemory then actualMillibitsPerKey else (b.millibitsPerKey : ℤ)
  FastLocalBloomImpl.chooseNumProbes actualMillibitsPerKey

/-- `kBufferMask` of `AddAllEntries` -/
def kBufferMask : ℕ := 7

/-- the `hashes` and `byte_offsets` arrays of `AddAllEntries`, for the entries prepared and not yet added -/
structure AddBuffer where
  hashes : Vector UInt32 (kBufferMask + 1)
  byteOffsets : Vector UInt32 (kBufferMask + 1)

/-- the buffer `AddAllEntries` starts with; the arrays are uninitialized, and no slot is read before it is written -/
def AddBuffer.empty : AddBuffer := ⟨Vector.replicate _ 0, Vector.replicate _ 0⟩

/-- the buffer with slot `i` holding the upper half of the entry `h` and the byte offset `PrepareHash` gives for the
lower half -/
def AddBuffer.prepare (buf : AddBuffer) (len : UInt32) (i : ℕ) (h : BitVec 64) : AddBuffer :=
  ⟨buf.hashes.setIfInBounds i (upper32of64 (UInt64.ofBitVec h)),
    buf.byteOffsets.setIfInBounds i (FastLocalBloomImpl.prepareHash (lower32of64 (UInt64.ofBitVec h)) len)⟩

/-- `AddHashPrepared(hashes[i], num_probes, data + byte_offsets[i])` -/
def AddBuffer.addSlot (buf : AddBuffer) (numProbes : ℕ) (data : ℕ → UInt8) (i : ℕ) : ℕ → UInt8 :=
  FastLocalBloomImpl.addHashPreparedAt (buf.hashes.getD i 0) numProbes data (buf.byteOffsets.getD i 0).toNat

/-- the first loop of `AddAllEntries`, `for (; i <= kBufferMask && i < num_entries; ++i)`: prime the buffer; the
index it stops at and the entries left -/
def primeBuffer (len : UInt32) : ℕ → List (BitVec 64) → AddBuffer → ℕ × List (BitVec 64) × AddBuffer
  | i, [], buf => (i, [], buf)
  | i, h :: rest, buf =>
    if i ≤ kBufferMask then primeBuffer len (i + 1) rest (buf.prepare len i h)
    else (i, h :: rest, buf)

/-- the second loop, `for (; i < num_entries; ++i)`: add the entry of slot `i & kBufferMask`, and prepare entry `i`
into it -/
def processAndBuffer (len : UInt32) (numProbes : ℕ) : ℕ → List (BitVec 64) → AddBuffer → (ℕ → UInt8) →
    AddBuffer × (ℕ → UInt8)
  | _, [], buf, data => (buf, data)
  | i, h :: rest, buf, data =>
    -- Process (add)
    let data := buf.addSlot numProbes data (i &&& kBufferMask)
    -- And buffer
    processAndBuffer len numProbes (i + 1) rest (buf.prepare len (i &&& kBufferMask) h) data

/-- the last loop, `for (i = 0; i <= kBufferMask && i < num_entries; ++i)`: add the entries left in the buffer -/
def finishProcessing (numProbes : ℕ) (buf : AddBuffer) (numEntries : ℕ) (data : ℕ → UInt8) : ℕ → UInt8 :=
  (List.range (min (kBufferMask + 1) numEntries)).foldl (buf.addSlot numProbes) data

/-- `AddAllEntries(data, len, num_probes)` -/
def addAllEntries (entries : List (BitVec 64)) (data : ℕ → UInt8) (len : UInt32) (numProbes : ℕ) : ℕ → UInt8 :=
  -- Prime the buffer
  let primed := primeBuffer len 0 entries AddBuffer.empty
  -- Process and buffer
  let processed := processAndBuffer len numProbes primed.1 primed.2.1 primed.2.2 data
  -- Finish processing
  finishProcessing numProbes processed.1 entries.length processed.2

/-- `Finish(buf, status)` of the hash entries, without the cache charging: the filter and the status -/
def finish (b : FastLocalBloomBitsBuilder) (info : HashEntriesInfo) : FilterContents × Status :=
  let numEntries := info.entries.length
  let lenWithMetadata := b.calculateSpace numEntries
  let lenWithMetadata :=
    allocateMaybeRounding roundDownUsableSpace b.optimizeForMemory b.rounding lenWithMetadata numEntries
  -- Compute num_probes after any rounding / adjustments
  let numProbes := b.getNumProbes numEntries lenWithMetadata
  let len : UInt32 := UInt32.ofNat (lenWithMetadata - kMetadataLen)
  let data : ℕ → UInt8 := if len > 0 then addAllEntries info.entries (fun _ => 0) len numProbes.toNat else fun _ => 0
  let status := if len > 0 then maybeVerifyHashEntriesChecksum b.detectFilterConstructCorruption info else .ok
  if status ≠ .ok then (finishAlwaysTrue, status)
  else
    -- `-1` marks the newer Bloom implementations, `0` this sub-implementation; `num_probes` with 0 in the upper
    -- bits for 64-byte blocks; the rest of the metadata stays zero
    (⟨data, lenWithMetadata, [(-1 : Int8).toUInt8, 0, (Int8.ofInt numProbes).toUInt8, 0, 0]⟩, .ok)

end FastLocalBloomBitsBuilder

/-! ## `Standard128RibbonBitsBuilder` -/

/-- `Standard128RibbonBitsBuilder::kMaxRibbonEntries` -/
def kMaxRibbonEntries : ℕ := 950000000

/-- a `Standard128RibbonBitsBuilder`: what `ConfigHelper::GetNumSlots(num_entries)` and
`SolnType::GetBytesForOneInFpRate(num_slots, desired_one_in_fp_rate_, entropy)` give, whether
`aggregate_rounding_balance_` is set and the sizes `AllocateMaybeRounding` then rounds down to, for the Ribbon filter
and for the Bloom fall-back, whether the cache charging for banding fails with a full cache,
`detect_filter_construct_corruption_`, and the Bloom fall-back's `millibits_per_key` -/
structure Standard128RibbonBitsBuilder where
  getNumSlots : ℕ → ℕ
  getBytesForOneInFpRate : ℕ → BitVec 32 → ℕ
  optimizeForMemory : Bool
  rounding : ℕ → ℕ → Option ℕ
  bloomRounding : ℕ → ℕ → Option ℕ
  bandingMemoryLimit : Bool
  detectFilterConstructCorruption : Bool
  bloomMillibitsPerKey : ℕ

namespace Standard128RibbonBitsBuilder

/-- `bloom_fallback_`, built with the Ribbon builder's rounding balance and corruption detection -/
def bloomFallback (b : Standard128RibbonBitsBuilder) : FastLocalBloomBitsBuilder :=
  ⟨b.bloomMillibitsPerKey, b.optimizeForMemory, b.bloomRounding, b.detectFilterConstructCorruption⟩

/-- `RoundDownUsableSpace(available_size)`: whole segments before the metadata -/
def roundDownUsableSpace (availableSize : ℕ) : ℕ :=
  let rv := availableSize - kMetadataLen
  -- round down to multiple of 16 (segment size)
  let rv := rv / 16 * 16
  rv + kMetadataLen

/-- `NumEntriesToNumSlots(num_entries)` -/
def numEntriesToNumSlots (b : Standard128RibbonBitsBuilder) (numEntries : ℕ) : ℕ :=
  SerializableInterleavedSolution.roundUpNumSlots standard128RibbonTypesAndSettings (b.getNumSlots numEntries)

/-- `CalculateSpaceAndSlots(num_entries, &target_len_with_metadata, &num_slots)`, under the entropy
`Upper32of64(entries.front())`: the target length and the slots, no slots meaning Bloom -/
def calculateSpaceAndSlots (b : Standard128RibbonBitsBuilder) (numEntries : ℕ) (entropy : BitVec 32) : ℕ × ℕ :=
  if numEntries > kMaxRibbonEntries then
    -- More entries than supported by this Ribbon
    (b.bloomFallback.calculateSpace numEntries, 0)
  else
    let numSlots := b.numEntriesToNumSlots numEntries
    let targetLenWithMetadata := b.getBytesForOneInFpRate numSlots entropy + kMetadataLen
    -- Consider possible Bloom fallback for small filters
    if numSlots < 1024 ∧ b.bloomFallback.calculateSpace numEntries < targetLenWithMetadata then
      (b.bloomFallback.calculateSpace numEntries, 0)
    else (targetLenWithMetadata, numSlots)

/-- the metadata after the solution: `-2` for Standard128 Ribbon, the seed, the blocks in 24 bits -/
def metadata (seed : BitVec 32) (numBlocks : ℕ) : List UInt8 :=
  [(-2 : Int8).toUInt8, UInt8.ofNat seed.toNat, UInt8.ofNat (numBlocks &&& 255), UInt8.ofNat ((numBlocks >>> 8) &&& 255),
    UInt8.ofNat ((numBlocks >>> 16) &&& 255)]

/-- the bytes of the solution's `CoeffRow`s, each little-endian -/
def coeffRowBytes (segments : ℕ → BitVec 128) : ℕ → UInt8 :=
  fun j => (Bytes.leBytes 16 (segments (j / 16)).toNat).getD (j % 16) 0

/-- `Finish(buf, status)` of the hash entries, without the cache charging of the filter: the filter and the status -/
def finish (b : Standard128RibbonBitsBuilder) (info : HashEntriesInfo) : FilterContents × Status :=
  if info.entries.length > kMaxRibbonEntries then b.bloomFallback.finish info
  else if info.entries.length = 0 then
    -- Save a conditional in Ribbon queries by using alternate reader for zero entries added.
    (finishAlwaysFalse, .ok)
  else
    let numEntries := info.entries.length
    -- `Upper32of64` and `Lower32of64` of the first entry
    let front := info.entries.headD 0
    let space := b.calculateSpaceAndSlots numEntries ((front >>> 32).setWidth 32)
    let numSlots := space.2
    -- Bloom fall-back indicator
    if numSlots = 0 then b.bloomFallback.finish info
    else
      let entropy : BitVec 32 := front.setWidth 32
      -- Cache charging for banding
      if b.bandingMemoryLimit then b.bloomFallback.finish info
      else
        let banding := (StandardBanding.init : StandardBanding 128 32 32).resetAndFindSeedToSolve
          standard128RibbonTypesAndSettings (StandardHasher.keyHasher standard128RibbonTypesAndSettings) numSlots
          info.entries (entropy &&& 255) 255
        if !banding.1 then b.bloomFallback.finish info
        else
          let verify := maybeVerifyHashEntriesChecksum b.detectFilterConstructCorruption info
          if verify ≠ .ok then (finishAlwaysTrue, verify)
          else
            let seed := StandardHasher.getOrdinalSeed 64 banding.2.rawSeed
            let lenWithMetadata :=
              allocateMaybeRounding roundDownUsableSpace b.optimizeForMemory b.rounding space.1 numEntries
            let soln := (SerializableInterleavedSolution.ofBuffer (fun _ => 0) lenWithMetadata).backSubstFrom
              standard128RibbonTypesAndSettings (banding.2.toBandingStorage standard128RibbonTypesAndSettings)
            (⟨coeffRowBytes soln.data, lenWithMetadata, metadata seed soln.getNumBlocks⟩, .ok)

end Standard128RibbonBitsBuilder

/-! ## Readers -/

/-- the readers `GetBuiltinFilterBitsReader` gives: always false, always true, a `FastLocalBloomBitsReader` of the
filter's bytes, its probes and length, a `Standard128RibbonBitsReader` of a solution and the ordinal seed of its
hasher, or a legacy Bloom reader (not modelled) -/
inductive FilterBitsReader where
  | alwaysFalse
  | alwaysTrue
  | fastLocalBloom (data : ℕ → UInt8) (numProbes : ℕ) (lenBytes : UInt32)
  | standard128Ribbon (soln : SerializableInterleavedSolution 128 32) (seed : BitVec 32)
  | legacyBloom

namespace FilterBitsReader

/-- `HashMayMatch(h)`; `none` for a legacy Bloom reader -/
def hashMayMatch : FilterBitsReader → BitVec 64 → Option Bool
  | alwaysFalse, _ => some false
  | alwaysTrue, _ => some true
  | fastLocalBloom data numProbes lenBytes, h =>
    some (FastLocalBloomImpl.hashMayMatch (lower32of64 (UInt64.ofBitVec h)) (upper32of64 (UInt64.ofBitVec h)) lenBytes
      numProbes data)
  | standard128Ribbon soln seed, h =>
    some (soln.filterQuery standard128RibbonTypesAndSettings h
      (StandardHasher.keyHasher standard128RibbonTypesAndSettings (StandardHasher.setOrdinalSeed 64 seed)))
  | legacyBloom, _ => none

end FilterBitsReader

namespace BuiltinFilterPolicy

/-- `GetBloomBitsReader(contents)` -/
def getBloomBitsReader (contents : FilterContents) : FilterBitsReader :=
  let len := contents.lenWithMetadata - kMetadataLen
  -- Read more metadata
  let subImplVal := (contents.metadata.getD 1 0).toInt8
  let blockAndProbes := (contents.metadata.getD 2 0).toInt8
  let log2BlockBytes := ((blockAndProbes >>> 5) &&& 7) + 6
  let numProbes := blockAndProbes &&& 31
  if numProbes < 1 ∨ numProbes > 30 then
    -- Reserved / future safe
    .alwaysTrue
  else
    let rest := Coding.decodeFixed16 [contents.metadata.getD 3 0, contents.metadata.getD 4 0]
    if rest ≠ 0 then
      -- Reserved, possibly for hash seed
      .alwaysTrue
    else if subImplVal = 0 ∧ log2BlockBytes = 6 then
      .fastLocalBloom contents.data numProbes.toNatClampNeg (UInt32.ofNat len)
    else .alwaysTrue

/-- the solution's `CoeffRow`s of the filter's bytes, each little-endian -/
def coeffRowsOfBytes (data : ℕ → UInt8) : ℕ → BitVec 128 :=
  fun i => BitVec.ofNat 128 (Bytes.ofLeBytes ((List.range 16).map fun k => data (16 * i + k)))

/-- `GetRibbonBitsReader(contents)` -/
def getRibbonBitsReader (contents : FilterContents) : FilterBitsReader :=
  let len := contents.lenWithMetadata - kMetadataLen
  let seed := (contents.metadata.getD 1 0).toNat
  let numBlocks := (contents.metadata.getD 2 0).toNat ||| ((contents.metadata.getD 3 0).toNat <<< 8) |||
    ((contents.metadata.getD 4 0).toNat <<< 16)
  if numBlocks < 2 then
    -- Not supported: return something safe
    .alwaysTrue
  else
    .standard128Ribbon
      ((SerializableInterleavedSolution.ofBuffer (coeffRowsOfBytes contents.data) len).configureForNumBlocks numBlocks)
      (BitVec.ofNat 32 seed)

/-- `GetBuiltinFilterBitsReader(contents)` on the marker byte at `len_with_meta - kMetadataLen` -/
def getBuiltinFilterBitsReader (contents : FilterContents) : FilterBitsReader :=
  if contents.lenWithMetadata ≤ kMetadataLen then
    -- filter is empty or broken. Treat like zero keys added.
    .alwaysFalse
  else
    let rawNumProbes := (contents.metadata.getD 0 0).toInt8
    if rawNumProbes < 1 then
      if rawNumProbes = 0 then .alwaysTrue
      else if rawNumProbes = -1 then getBloomBitsReader contents
      else if rawNumProbes = -2 then getRibbonBitsReader contents
      else .alwaysTrue
    else
      -- attempt decode for LegacyBloomBitsReader
      .legacyBloom

end BuiltinFilterPolicy

end ForSt
