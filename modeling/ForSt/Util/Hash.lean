import ForSt.Util.Coding
/-!
The hash functions of `util/hash.cc` and `util/hash.h` that the model uses.

`Hash(data, n, seed)` is MurmurHash1 over the bytes: four bytes at a time, read as a little-endian `uint32_t`, then
the one to three bytes left, each sign-extended from `int8_t` as the source does to keep the format of old files.
`BloomHash` is `Hash` with the seed `0xbc9f1d34`. All arithmetic is in `uint32_t`; the length is a `size_t`, and only
its product with the multiplier modulo `2 ^ 32` reaches the hash.

`BijectiveHash2x64` mixes two 64-bit words into two, in the steps of `XXH3_len_9to16_128b` and `XXH3_avalanche`, and
`BijectiveUnhash2x64` undoes the steps in the reverse order. An `Unsigned128` of `util/math128.h` is the natural
number below `2 ^ 128`, split at `2 ^ 64` by `Lower64of128` and `Upper64of128`; `EndianSwapValue` of `util/math.h` is
its portable loop over the eight bytes, which computes what `__builtin_bswap64` does. The overloads without a seed
are the seeded ones at seed 0.
-/

namespace ForSt

open ForSt.Coding

namespace Hash

/-- `static_cast<uint32_t>(static_cast<int8_t>(c))`: the byte sign-extended -/
def signExtend (b : UInt8) : UInt32 := b.toInt8.toInt32.toUInt32

/-- the loop of `Hash` over four bytes at a time, with the bytes it leaves -/
def hashWords (m : UInt32) : UInt32 → List UInt8 → UInt32 × List UInt8
  | h, b0 :: b1 :: b2 :: b3 :: rest =>
    let h := (h + UInt32.ofNat (decodeFixed32 [b0, b1, b2, b3])) * m
    hashWords m (h ^^^ (h >>> 16)) rest
  | h, rest => (h, rest)

/-- `Hash(data, n, seed)` -/
def hash (data : List UInt8) (seed : UInt32) : UInt32 :=
  let m : UInt32 := 0xc6a4a793
  let r : UInt32 := 24
  let h := seed ^^^ UInt32.ofNat (data.length * m.toNat)
  let (h, rest) := hashWords m h data
  -- the `switch` on the bytes left, falling through from three to one
  match rest with
  | [b0, b1, b2] =>
    let h := (h + (signExtend b2 <<< 16) + (signExtend b1 <<< 8) + signExtend b0) * m
    h ^^^ (h >>> r)
  | [b0, b1] =>
    let h := (h + (signExtend b1 <<< 8) + signExtend b0) * m
    h ^^^ (h >>> r)
  | [b0] =>
    let h := (h + signExtend b0) * m
    h ^^^ (h >>> r)
  | _ => h

/-- `BloomHash` -/
def bloomHash (key : List UInt8) : UInt32 := hash key 0xbc9f1d34

-- two of the stable values of `HashTest.Values`: a byte sign-extended, and a word with three bytes left
example : bloomHash [0x9a] = 3195034349 := by decide
example : bloomHash [0xd3, 0xa5, 0x7c, 0x0e, 0xc0, 0x02, 0x07] = 2030937252 := by decide

/-- `Multiply64to128(a, b)`: the full product -/
def multiply64to128 (a b : UInt64) : ℕ := a.toNat * b.toNat

/-- `Lower64of128(v)` -/
def lower64of128 (v : ℕ) : UInt64 := UInt64.ofNat v

/-- `Upper64of128(v)` -/
def upper64of128 (v : ℕ) : UInt64 := UInt64.ofNat (v / 2 ^ 64)

/-- `Lower32of64(v)` -/
def lower32of64 (v : UInt64) : UInt32 := v.toUInt32

/-- `EndianSwapValue(v)` for a `uint64_t`: byte `i` of `v` becomes byte `7 - i` -/
def endianSwapValue (v : UInt64) : UInt64 :=
  (List.range 8).foldl (fun retVal i => retVal ||| (((v >>> (8 * i).toUInt64) &&& 0xff) <<< (8 * (7 - i)).toUInt64)) 0

/-- `XXH3_avalanche` -/
def xxh3Avalanche (h64 : UInt64) : UInt64 :=
  let h64 := h64 ^^^ h64 >>> 37
  let h64 := h64 * 0x165667919E3779F9
  h64 ^^^ h64 >>> 32

/-- `XXH3_unavalanche` -/
def xxh3Unavalanche (h64 : UInt64) : UInt64 :=
  let h64 := h64 ^^^ h64 >>> 32
  let h64 := h64 * 0x8da8ee41d6df849
  h64 ^^^ h64 >>> 37

/-- `BijectiveHash2x64(in_high64, in_low64, seed)`: `(out_high64, out_low64)` -/
def bijectiveHash2x64 (inHigh64 inLow64 seed : UInt64) : UInt64 × UInt64 :=
  let bitflipl : UInt64 := 0x59973f0033362349 - seed
  let bitfliph : UInt64 := 0xc202797692d63d58 + seed
  let tmp128 := multiply64to128 (inLow64 ^^^ inHigh64 ^^^ bitflipl) 0x9E3779B185EBCA87
  let lo := lower64of128 tmp128
  let hi := upper64of128 tmp128
  let lo := lo + 0x3c0000000000000
  let inHigh64 := inHigh64 ^^^ bitfliph
  let hi := hi + (inHigh64 + (lower32of64 inHigh64).toUInt64 * 0x85EBCA76)
  let lo := lo ^^^ endianSwapValue hi
  let tmp128 := multiply64to128 lo 0xC2B2AE3D27D4EB4F
  let lo := lower64of128 tmp128
  let hi := upper64of128 tmp128 + hi * 0xC2B2AE3D27D4EB4F
  (xxh3Avalanche hi, xxh3Avalanche lo)

/-- `BijectiveUnhash2x64(in_high64, in_low64, seed)`: `(out_high64, out_low64)` -/
def bijectiveUnhash2x64 (inHigh64 inLow64 seed : UInt64) : UInt64 × UInt64 :=
  let bitflipl : UInt64 := 0x59973f0033362349 - seed
  let bitfliph : UInt64 := 0xc202797692d63d58 + seed
  let lo := xxh3Unavalanche inLow64
  let hi := xxh3Unavalanche inHigh64
  let lo := lo * 0xba79078168d4baf
  let hi := hi - upper64of128 (multiply64to128 lo 0xC2B2AE3D27D4EB4F)
  let hi := hi * 0xba79078168d4baf
  let lo := lo ^^^ endianSwapValue hi
  let lo := lo - 0x3c0000000000000
  let lo := lo * 0x887493432badb37
  let hi := hi - upper64of128 (multiply64to128 lo 0x9E3779B185EBCA87)
  -- `uint32_t` arithmetic, as the source has it
  let tmp32 : UInt32 := lower32of64 hi * 0xb6c92f47
  let hi := hi - tmp32.toUInt64
  let hi := (hi &&& 0xFFFFFFFF00000000) - ((tmp32.toUInt64 * 0x85EBCA76) &&& 0xFFFFFFFF00000000) + tmp32.toUInt64
  let hi := hi ^^^ bitfliph
  let lo := lo ^^^ (hi ^^^ bitflipl)
  (hi, lo)

end Hash

end ForSt
