import ForSt.Util.Hash
/-!
The memtable Bloom filter (`util/dynamic_bloom.h`, `util/dynamic_bloom.cc`) and `FastRange32` (`util/fastrange.h`).

The filter is `kLen` 64-bit words. A hash picks a word `a = FastRange32(h, kLen)` and is expanded by the 64-bit golden
ratio; each of the `kNumDoubleProbes` rounds sets, or tests, two bits of the word `a ^ i`, then rotates `h` by twelve
bits. The constructor rounds the size up to whole blocks of `roundUpToPow2(kNumDoubleProbes)` words, in `uint32_t`.
The words are a list; the allocator's padding is left out, and a concurrent `or_func` is a function of the word and
the mask.
-/

namespace ForSt

/-- `FastRange32(hash, range)`: the upper half of the 64-bit product -/
def fastRange32 (hash range : UInt32) : UInt32 := ((range.toUInt64 * hash.toUInt64) >>> 32).toUInt32

namespace DynamicBloom

/-- the `while` loop of `roundUpToPow2`, with fuel -/
def roundUpToPow2Loop (x : UInt32) : ℕ → UInt32 → UInt32
  | 0, rv => rv
  | fuel + 1, rv => if rv < x then roundUpToPow2Loop x fuel (rv <<< 1) else rv

/-- `roundUpToPow2` -/
def roundUpToPow2 (x : UInt32) : UInt32 := roundUpToPow2Loop x 32 1

/-- `kNumDoubleProbes`: half the probes, rounding one up -/
def numDoubleProbes (numProbes : UInt32) : UInt32 := (numProbes + (if numProbes = 1 then 1 else 0)) / 2

/-- `block_bytes`: eight bytes for each word of a block of `roundUpToPow2(kNumDoubleProbes)` words -/
def blockBytes (kNumDoubleProbes : UInt32) : UInt32 := 8 * max 1 (roundUpToPow2 kNumDoubleProbes)

/-- `kLen`: `total_bits` rounded up to whole blocks, in words -/
def len (totalBits kNumDoubleProbes : UInt32) : UInt32 :=
  let blockBytes := blockBytes kNumDoubleProbes
  let blockBits := blockBytes * 8
  let blocks := (totalBits + blockBits - 1) / blockBits
  let sz := blocks * blockBytes
  sz / 8

end DynamicBloom

/-- `DynamicBloom`: `kLen`, `kNumDoubleProbes` and the words -/
structure DynamicBloom where
  kLen : UInt32
  kNumDoubleProbes : UInt32
  data : List UInt64
deriving DecidableEq, Repr

namespace DynamicBloom

/-- the constructor: the words, all zero -/
def create (totalBits numProbes : UInt32) : DynamicBloom :=
  let kNumDoubleProbes := numDoubleProbes numProbes
  let kLen := len totalBits kNumDoubleProbes
  ⟨kLen, kNumDoubleProbes, List.replicate kLen.toNat 0⟩

/-- the 64-bit golden ratio that expands a 32-bit hash -/
def kGoldenRatio64 : UInt64 := 0x9e3779b97f4a7c13

/-- the two bits of one round, chosen by the low twelve bits of `h` -/
def probeMask (h : UInt64) : UInt64 := ((1 : UInt64) <<< (h &&& 63)) ||| ((1 : UInt64) <<< ((h >>> 6) &&& 63))

/-- `h = (h >> 12) | (h << 52)`: the next round's bits -/
def rotate (h : UInt64) : UInt64 := (h >>> 12) ||| (h <<< 52)

/-- the `or_func` of `AddHash`: `ptr->store(ptr->load() | mask)` -/
def orStore (val mask : UInt64) : UInt64 := val ||| mask

/-- the `or_func` of `AddHashConcurrently`: `fetch_or` only when a bit of the mask is missing -/
def orConcurrently (val mask : UInt64) : UInt64 := if mask &&& val ≠ mask then val ||| mask else val

/-- the loop of `AddHash(h32, or_func)` from round `i`, with `left` rounds after this one -/
def addHashLoop (orFunc : UInt64 → UInt64 → UInt64) (a : ℕ) : ℕ → ℕ → UInt64 → List UInt64 → List UInt64
  | 0, i, h, data => data.modify (a ^^^ i) (orFunc · (probeMask h))
  | left + 1, i, h, data =>
    addHashLoop orFunc a left (i + 1) (rotate h) (data.modify (a ^^^ i) (orFunc · (probeMask h)))

/-- the loop of `DoubleProbe(h32, byte_offset)` from round `i`, with `left` rounds after this one -/
def doubleProbeLoop (data : List UInt64) (a : ℕ) : ℕ → ℕ → UInt64 → Bool
  | 0, i, h => (data.getD (a ^^^ i) 0 &&& probeMask h) == probeMask h
  | left + 1, i, h =>
    if (data.getD (a ^^^ i) 0 &&& probeMask h) ≠ probeMask h then false
    else doubleProbeLoop data a left (i + 1) (rotate h)

/-- `AddHash(h32, or_func)` -/
def addHashWith (b : DynamicBloom) (orFunc : UInt64 → UInt64 → UInt64) (h32 : UInt32) : DynamicBloom :=
  let a := fastRange32 h32 b.kLen
  { b with
    data := addHashLoop orFunc a.toNat (b.kNumDoubleProbes.toNat - 1) 0 (kGoldenRatio64 * h32.toUInt64) b.data }

/-- `AddHash(hash)` -/
def addHash (b : DynamicBloom) (h32 : UInt32) : DynamicBloom := b.addHashWith orStore h32

/-- `AddHashConcurrently(hash)` -/
def addHashConcurrently (b : DynamicBloom) (h32 : UInt32) : DynamicBloom := b.addHashWith orConcurrently h32

/-- `Add(key)` -/
def add (b : DynamicBloom) (key : List UInt8) : DynamicBloom := b.addHash (Hash.bloomHash key)

/-- `AddConcurrently(key)` -/
def addConcurrently (b : DynamicBloom) (key : List UInt8) : DynamicBloom := b.addHashConcurrently (Hash.bloomHash key)

/-- `DoubleProbe(h32, byte_offset)` -/
def doubleProbe (b : DynamicBloom) (h32 : UInt32) (byteOffset : ℕ) : Bool :=
  doubleProbeLoop b.data byteOffset (b.kNumDoubleProbes.toNat - 1) 0 (kGoldenRatio64 * h32.toUInt64)

/-- `MayContainHash(h32)` -/
def mayContainHash (b : DynamicBloom) (h32 : UInt32) : Bool := b.doubleProbe h32 (fastRange32 h32 b.kLen).toNat

/-- `MayContain(key)` -/
def mayContain (b : DynamicBloom) (key : List UInt8) : Bool := b.mayContainHash (Hash.bloomHash key)

/-- the batched `MayContain(num_keys, keys, may_match)`: the hashes and word offsets first, then the probes -/
def mayContainBatch (b : DynamicBloom) (keys : List (List UInt8)) : List Bool :=
  let hashes := keys.map Hash.bloomHash
  let byteOffsets := hashes.map fun h => (fastRange32 h b.kLen).toNat
  (hashes.zip byteOffsets).map fun (h, a) => b.doubleProbe h a

end DynamicBloom

/-- a call that adds a key to the filter -/
inductive DynamicBloomOp where
  | add (key : List UInt8)
  | addConcurrently (key : List UInt8)
deriving DecidableEq, Repr

namespace DynamicBloom

/-- one call -/
def apply (b : DynamicBloom) : DynamicBloomOp → DynamicBloom
  | .add key => b.add key
  | .addConcurrently key => b.addConcurrently key

/-- the calls one after the other -/
def run (b : DynamicBloom) (ops : List DynamicBloomOp) : DynamicBloom := ops.foldl apply b

end DynamicBloom

/-- the key a call adds -/
def DynamicBloomOp.key : DynamicBloomOp → List UInt8
  | .add key => key
  | .addConcurrently key => key

end ForSt
