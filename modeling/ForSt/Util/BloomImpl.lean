import ForSt.Lib.Avx2
import ForSt.Util.DynamicBloom
/-!
The cache-local Bloom filter probes of `FastLocalBloomImpl` (`util/bloom_impl.h`), on one 64-byte cache line.

`AddHashPrepared` sets, for each of `num_probes` probes, the bit the top nine bits of `h` address, multiplying `h` by
`0x9e3779b9` between probes. `HashMayMatchPrepared` tests the same bits, one at a time in the portable loop and eight
at a time as 32-bit words in the AVX2 branch (`avx2Match`, `hashMayMatchPreparedAvx2Loop`). Over a whole filter the
cache line is `FastRange32(h1, len_bytes >> 6)`; the filter's bytes are a function from offsets, and prefetches are
left out. `HashMayMatch` uses the portable probe, which the AVX2 one agrees with.
-/

namespace ForSt.FastLocalBloomImpl

open ForSt.Avx2

/-- the loop of `AddHashPrepared(h2, num_probes, data_at_cache_line)` with `n` probes left -/
def addHashPreparedLoop : ℕ → UInt32 → Vector UInt8 64 → Vector UInt8 64
  | 0, _, dataAtCacheLine => dataAtCacheLine
  | n + 1, h, dataAtCacheLine =>
    -- 9-bit address within 512 bit cache line
    let bitpos := h >>> (32 - 9)
    let i := (bitpos >>> 3).toNat
    addHashPreparedLoop n (h * 0x9e3779b9)
      (dataAtCacheLine.setIfInBounds i (dataAtCacheLine.getD i 0 ||| (1 : UInt8) <<< (bitpos &&& 7).toUInt8))

/-- `AddHashPrepared(h2, num_probes, data_at_cache_line)` -/
def addHashPrepared (h2 : UInt32) (numProbes : ℕ) (dataAtCacheLine : Vector UInt8 64) : Vector UInt8 64 :=
  addHashPreparedLoop numProbes h2 dataAtCacheLine

/-- the portable loop of `HashMayMatchPrepared` with `n` probes left -/
def hashMayMatchPreparedLoop (dataAtCacheLine : Vector UInt8 64) : ℕ → UInt32 → Bool
  | 0, _ => true
  | n + 1, h =>
    let bitpos := h >>> (32 - 9)
    if (dataAtCacheLine.getD (bitpos >>> 3).toNat 0 &&& (1 : UInt8) <<< (bitpos &&& 7).toUInt8) = 0 then false
    else hashMayMatchPreparedLoop dataAtCacheLine n (h * 0x9e3779b9)

/-- `HashMayMatchPrepared(h2, num_probes, data_at_cache_line)` without `__AVX2__` -/
def hashMayMatchPreparedPortable (h2 : UInt32) (numProbes : ℕ) (dataAtCacheLine : Vector UInt8 64) : Bool :=
  hashMayMatchPreparedLoop dataAtCacheLine numProbes h2

/-- `multipliers`: powers of the 32-bit golden ratio, mod `2 ^ 32` -/
def multipliers : M256 :=
  setrEpi32 0x00000001 0x9e3779b9 0xe35e67b1 0x734297e9 0x35fbe861 0xdeb7c719 0x448b211 0x3459b749

/-- one round of the AVX2 loop: the eight probes from `h`, of which those of the lanes below `rem_probes` count -/
def avx2Match (dataAtCacheLine : Vector UInt8 64) (h : UInt32) (remProbes : ℕ) : Bool :=
  let hashVector := mulloEpi32 (set1Epi32 h) multipliers
  let wordAddresses := srliEpi32 hashVector 28
  let lower := loaduSi256 dataAtCacheLine 0
  let upper := loaduSi256 dataAtCacheLine 32
  -- the AVX2 permute and blend in place of a gather
  let lower := permutevar8x32Epi32 lower wordAddresses
  let upper := permutevar8x32Epi32 upper wordAddresses
  let upperLowerSelector := sraiEpi32 hashVector 31
  let valueVector := blendvEpi8 lower upper upperLowerSelector
  let zeroToSeven := setrEpi32 0 1 2 3 4 5 6 7
  let kSelector := subEpi32 zeroToSeven (set1Epi32 (UInt32.ofNat remProbes))
  let kSelector := srliEpi32 kSelector 31
  let bitAddresses := slliEpi32 hashVector 4
  let bitAddresses := srliEpi32 bitAddresses 27
  let bitMask := sllvEpi32 kSelector bitAddresses
  testcSi256 valueVector bitMask

/-- the `for (;;)` loop of the AVX2 branch of `HashMayMatchPrepared`, from `h` with `rem_probes` probes left -/
def hashMayMatchPreparedAvx2Loop (dataAtCacheLine : Vector UInt8 64) (h : UInt32) (remProbes : ℕ) : Bool :=
  let isMatch := avx2Match dataAtCacheLine h remProbes
  if remProbes ≤ 8 then isMatch
  else if !isMatch then false
  -- 0xab25f4c1 == golden ratio to the 8th power
  else hashMayMatchPreparedAvx2Loop dataAtCacheLine (h * 0xab25f4c1) (remProbes - 8)
termination_by remProbes
decreasing_by omega

/-- `HashMayMatchPrepared(h2, num_probes, data_at_cache_line)` with `__AVX2__` -/
def hashMayMatchPreparedAvx2 (h2 : UInt32) (numProbes : ℕ) (dataAtCacheLine : Vector UInt8 64) : Bool :=
  hashMayMatchPreparedAvx2Loop dataAtCacheLine h2 numProbes

/-- `AddHashPrepared` calls on one cache line, one after the other -/
def addHashPreparedRun (adds : List (UInt32 × ℕ)) (dataAtCacheLine : Vector UInt8 64) : Vector UInt8 64 :=
  adds.foldl (fun data add => addHashPrepared add.1 add.2 data) dataAtCacheLine

/-! ## The whole filter -/

/-- the 64 bytes at `data + byte_offset` -/
def cacheLineAt (data : ℕ → UInt8) (byteOffset : ℕ) : Vector UInt8 64 := Vector.ofFn fun k => data (byteOffset + k)

/-- `data` with the 64 bytes at `byte_offset` written from the cache line -/
def writeCacheLineAt (data : ℕ → UInt8) (byteOffset : ℕ) (dataAtCacheLine : Vector UInt8 64) : ℕ → UInt8 :=
  fun j => if byteOffset ≤ j ∧ j < byteOffset + 64 then dataAtCacheLine.getD (j - byteOffset) 0 else data j

/-- `AddHashPrepared(h2, num_probes, data + byte_offset)` on the filter's bytes -/
def addHashPreparedAt (h2 : UInt32) (numProbes : ℕ) (data : ℕ → UInt8) (byteOffset : ℕ) : ℕ → UInt8 :=
  writeCacheLineAt data byteOffset (addHashPrepared h2 numProbes (cacheLineAt data byteOffset))

/-- `AddHash(h1, h2, len_bytes, num_probes, data)` -/
def addHash (h1 h2 lenBytes : UInt32) (numProbes : ℕ) (data : ℕ → UInt8) : ℕ → UInt8 :=
  let bytesToCacheLine := fastRange32 h1 (lenBytes >>> 6) <<< 6
  addHashPreparedAt h2 numProbes data bytesToCacheLine.toNat

/-- the `byte_offset` of `PrepareHash(h1, len_bytes, data, &byte_offset)` -/
def prepareHash (h1 lenBytes : UInt32) : UInt32 := fastRange32 h1 (lenBytes >>> 6) <<< 6

/-- `HashMayMatch(h1, h2, len_bytes, num_probes, data)` -/
def hashMayMatch (h1 h2 lenBytes : UInt32) (numProbes : ℕ) (data : ℕ → UInt8) : Bool :=
  let bytesToCacheLine := fastRange32 h1 (lenBytes >>> 6) <<< 6
  hashMayMatchPreparedPortable h2 numProbes (cacheLineAt data bytesToCacheLine.toNat)

/-- `ChooseNumProbes(millibits_per_key)` -/
def chooseNumProbes (millibitsPerKey : ℤ) : ℤ :=
  if millibitsPerKey ≤ 2080 then 1
  else if millibitsPerKey ≤ 3580 then 2
  else if millibitsPerKey ≤ 5100 then 3
  else if millibitsPerKey ≤ 6640 then 4
  else if millibitsPerKey ≤ 8300 then 5
  else if millibitsPerKey ≤ 10070 then 6
  else if millibitsPerKey ≤ 11720 then 7
  else if millibitsPerKey ≤ 14001 then 8
  else if millibitsPerKey ≤ 16050 then 9
  else if millibitsPerKey ≤ 18300 then 10
  else if millibitsPerKey ≤ 22001 then 11
  else if millibitsPerKey ≤ 25501 then 12
  -- Top out at 24 probes (three sets of 8)
  else if millibitsPerKey > 50000 then 24
  -- Roughly optimal choices for remaining range
  else (millibitsPerKey - 1) / 2000 - 1

end ForSt.FastLocalBloomImpl
