import Mathlib.Data.Rat.Floor
import ForSt.Table.Block
/-!
The hash index of a data block (`table/block_based/data_block_hash_index.cc`): a table of buckets, each holding the
restart interval of the keys that hash to it, appended to the block after its restart array.

`DataBlockHashIndexBuilder::Add` keeps the hash of each user key with its restart index. `Finish` writes `NUM_BUCK`
buckets, made odd, each `kNoEntry` until a key hashes to it: the first key's restart index is stored there, and a
second one marks it `kCollision`; then `NUM_BUCK` as a fixed16. `DataBlockHashIndex::Initialize` reads `NUM_BUCK`
back and returns where the buckets start (`map_offset`); `Lookup` reads the key's bucket.

`GetSliceHash` is the parameter `getSliceHash`. The two `double`s of the builder are rationals: they only set the
number of buckets, which the results leave arbitrary. The cast of the estimate to `uint16_t` keeps its low 16 bits. A
read past the data, which `Lookup` would make with no buckets, is `none`.

`Block::Block` reads a block whose footer marks a hash index (`kDataBlockBinaryAndHash`): the index ends where the
footer starts, and the restart array ends where the buckets start (`Block.createBinaryAndHash`).
-/

namespace ForSt

open ForSt.Coding

/-- `kNoEntry` -/
def kNoEntry : UInt8 := 255

/-- `kCollision` -/
def kCollision : UInt8 := 254

/-- `kMaxRestartSupportedByHashIndex` -/
def kMaxRestartSupportedByHashIndex : ℕ := 253

/-- `kDefaultUtilRatio`, `0.75` -/
def kDefaultUtilRatio : ℚ := 3 / 4

/-- `static_cast<uint16_t>` of a non-negative `double`: its integer part, of which a value out of range keeps the low
16 bits -/
def castUInt16 (x : ℚ) : UInt16 := UInt16.ofNat ⌊x⌋₊

/-- `DataBlockHashIndexBuilder` -/
structure DataBlockHashIndexBuilder where
  /-- the multiplicative inverse of `util_ratio` -/
  bucketPerKey : ℚ
  estimatedNumBuckets : ℚ
  /-- marked false once a restart index is larger than supported -/
  valid : Bool
  hashAndRestartPairs : List (UInt32 × UInt8)
deriving DecidableEq, Repr

namespace DataBlockHashIndexBuilder

/-- the constructor: `bucket_per_key_` is `-1` until `Initialize` -/
def create : DataBlockHashIndexBuilder := ⟨-1, 0, false, []⟩

/-- `DataBlockHashIndexBuilder::Initialize` -/
def init (b : DataBlockHashIndexBuilder) (utilRatio : ℚ) : DataBlockHashIndexBuilder :=
  let utilRatio := if utilRatio ≤ 0 then kDefaultUtilRatio else utilRatio
  { b with bucketPerKey := 1 / utilRatio, valid := true }

/-- `DataBlockHashIndexBuilder::Valid` -/
def Valid (b : DataBlockHashIndexBuilder) : Bool := b.valid && decide (0 < b.bucketPerKey)

/-- `DataBlockHashIndexBuilder::Add`: a restart index past `kMaxRestartSupportedByHashIndex` gives up the index -/
def add (getSliceHash : List UInt8 → UInt32) (b : DataBlockHashIndexBuilder) (key : List UInt8)
    (restartIndex : ℕ) : DataBlockHashIndexBuilder :=
  if restartIndex > kMaxRestartSupportedByHashIndex then { b with valid := false }
  else
    { b with
      hashAndRestartPairs := b.hashAndRestartPairs ++ [(getSliceHash key, UInt8.ofNat restartIndex)]
      estimatedNumBuckets := b.estimatedNumBuckets + b.bucketPerKey }

/-- the keys of a block added one after the other, each with its restart index -/
def addAll (getSliceHash : List UInt8 → UInt32) (b : DataBlockHashIndexBuilder)
    (keyRestarts : List (List UInt8 × ℕ)) : DataBlockHashIndexBuilder :=
  keyRestarts.foldl (fun b kr => b.add getSliceHash kr.1 kr.2) b

/-- the number of buckets `Finish` writes: at least one, and odd -/
def numBucketsOf (b : DataBlockHashIndexBuilder) : UInt16 :=
  let numBuckets := castUInt16 b.estimatedNumBuckets
  let numBuckets := if numBuckets = 0 then 1 else numBuckets
  numBuckets ||| 1

/-- one pair of the bucket loop of `Finish`: an empty bucket takes the restart index, and a bucket holding another
is marked a collision -/
def fillBucket (numBuckets : UInt16) (buckets : List UInt8) (entry : UInt32 × UInt8) : List UInt8 :=
  -- `hash_value % num_buckets` is below `num_buckets`, so its cast to `uint16_t` keeps it
  let buckIdx := entry.1.toNat % numBuckets.toNat
  if buckets.getD buckIdx kNoEntry = kNoEntry then buckets.set buckIdx entry.2
  else if buckets.getD buckIdx kNoEntry ≠ entry.2 then buckets.set buckIdx kCollision
  else buckets

/-- `DataBlockHashIndexBuilder::Finish`: the buckets and `NUM_BUCK` appended to the buffer -/
def finish (b : DataBlockHashIndexBuilder) (buffer : List UInt8) : List UInt8 :=
  let numBuckets := b.numBucketsOf
  let buckets := b.hashAndRestartPairs.foldl (fillBucket numBuckets) (List.replicate numBuckets.toNat kNoEntry)
  buffer ++ buckets ++ encodeFixed16 numBuckets.toNat

/-- `DataBlockHashIndexBuilder::Reset` -/
def reset (b : DataBlockHashIndexBuilder) : DataBlockHashIndexBuilder :=
  { b with estimatedNumBuckets := 0, valid := true, hashAndRestartPairs := [] }

/-- `DataBlockHashIndexBuilder::EstimateSize`, with the bucket count made odd as `Finish` makes it -/
def estimateSize (b : DataBlockHashIndexBuilder) : ℕ := 2 + (castUInt16 b.estimatedNumBuckets ||| 1).toNat

end DataBlockHashIndexBuilder

/-- `DataBlockHashIndex` -/
structure DataBlockHashIndex where
  numBuckets : UInt16
deriving DecidableEq, Repr

namespace DataBlockHashIndex

/-- `DataBlockHashIndex::Initialize`: `NUM_BUCK` from the last two bytes of the index, and where the buckets start,
both `uint16_t` -/
def init (data : List UInt8) (size : UInt16) : DataBlockHashIndex × UInt16 :=
  let numBuckets := UInt16.ofNat (decodeFixed16 (data.drop (size.toNat - 2)))
  (⟨numBuckets⟩, size - 2 - numBuckets)

/-- `DataBlockHashIndex::Lookup`: the byte of the key's bucket -/
def lookup (getSliceHash : List UInt8 → UInt32) (index : DataBlockHashIndex) (data : List UInt8)
    (mapOffset : UInt32) (key : List UInt8) : Option UInt8 :=
  let idx := (getSliceHash key).toNat % index.numBuckets.toNat
  data[mapOffset.toNat + idx]?

/-- `DataBlockHashIndex::Valid` -/
def valid (index : DataBlockHashIndex) : Bool := index.numBuckets != 0

end DataBlockHashIndex

/-- the `kDataBlockBinaryAndHash` case of the `Block` constructor, which `Block.create` leaves out: the hash index is
initialised over the block without its footer, and the restart array, computed in `uint32_t`, must end where the
buckets start -/
def Block.createBinaryAndHash (data : List UInt8) : Block × DataBlockHashIndex :=
  let numRestarts := Block.numRestartsOf data
  -- no room for the footer and `NUM_BUCK`
  if data.length < 4 + 2 then (⟨data, 0, 0, numRestarts⟩, ⟨0⟩)
  else
    let (index, mapOffset) := DataBlockHashIndex.init data (UInt16.ofNat (data.length - 4))
    let restartOffset := ((mapOffset.toNat : ℤ) - (numRestarts : ℤ) * 4) % 2 ^ 32 |>.toNat
    if mapOffset.toNat < restartOffset then (⟨data, 0, restartOffset, numRestarts⟩, index)
    else (⟨data, data.length, restartOffset, numRestarts⟩, index)

end ForSt
