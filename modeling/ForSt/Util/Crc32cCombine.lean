import ForSt.Util.Crc32c
import ForSt.Util.Math
/-!
`crc32c::Crc32cCombine` and what it calls (`util/crc32c.cc`, from folly).

The CRC of `A ++ B` is the pure CRC of `A` extended over `|B|` zero bytes, xor-ed with the CRC of `B`: the zero
bytes past the last multiple of four are fed to `PureExtend` in the normal way, and the multiples of four are
appended by multiplying, in GF(2)[X] modulo the CRC-32C polynomial, by the precomputed powers `X ^ (32 * 2 ^ i)`.

`gf_multiply_sw_1` runs from round `i = 0` to `32`; the model counts the rounds left. `crc32c_powers` is the array of
`gf_powers_memo<i, crc32c_m>` for `i < 62`, which is every index a `size_t` length reaches; the model reads the
memo itself, which gives the same for every `crc2len < 2 ^ 64` (`crc32AppendZeroes_powersArray`). `Extend` is the table-driven or hardware CRC-32C, passed in; the writer's model passes the bitwise
CRC-32C, which computes the same.
-/

namespace ForSt.crc32c

/-- `gf_multiply_sw_1(i, p, a, b, m)` with `rounds = 32 - i` rounds left -/
def gfMultiplySw1 : ℕ → UInt32 → UInt32 → UInt32 → UInt32 → UInt32
  | 0, p, _, _, _ => p
  | rounds + 1, p, a, b, m =>
    gfMultiplySw1 rounds (p ^^^ (((0 : UInt32) - ((b >>> 31) &&& 1)) &&& a))
      ((a >>> 1) ^^^ (((0 : UInt32) - (a &&& 1)) &&& m)) (b <<< 1) m

/-- `gf_multiply_sw(a, b, m)` -/
def gfMultiplySw (a b m : UInt32) : UInt32 := gfMultiplySw1 32 0 a b m

/-- `gf_square_sw(a, m)` -/
def gfSquareSw (a m : UInt32) : UInt32 := gfMultiplySw a a m

/-- `gf_powers_memo<i, m>::value` -/
def gfPowersMemo (m : UInt32) : ℕ → UInt32
  | 0 => m
  | i + 1 => gfSquareSw (gfPowersMemo m i) m

/-- `crc32c_m` -/
def crc32cM : UInt32 := 0x82f63b78

/-- `crc32c_powers[i]` -/
def crc32cPowers (i : ℕ) : UInt32 := gfPowersMemo crc32cM i

/-- `crc32c_powers` as the source stores it: the first 62 powers -/
def crc32cPowersArray : List UInt32 := (List.range 62).map crc32cPowers

/-- the `while (len_bits)` loop of `Crc32AppendZeroes`; `powersIdx` is where `powers` points in the array -/
def crc32AppendZeroesLoop (polynomial : UInt32) (powers : ℕ → UInt32) (lenBits powersIdx : ℕ) (crc : UInt32) :
    UInt32 :=
  if h : lenBits = 0 then crc
  else
    -- advance directly to the next bit set
    let r := countTrailingZeroBits lenBits
    let lenBits' := lenBits >>> r
    let powersIdx := powersIdx + r
    let crc := gfMultiplySw crc (powers powersIdx) polynomial
    crc32AppendZeroesLoop polynomial powers (lenBits' >>> 1) (powersIdx + 1) crc
termination_by lenBits
decreasing_by
  simp only [Nat.shiftRight_eq_div_pow]
  have := Nat.div_le_self lenBits (2 ^ countTrailingZeroBits lenBits)
  omega

/-- `Crc32AppendZeroes(crc, len_over_4, polynomial, powers_array)`, on a pure CRC -/
def crc32AppendZeroes (crc : UInt32) (lenOver4 : ℕ) (polynomial : UInt32) (powersArray : ℕ → UInt32) : UInt32 :=
  crc32AppendZeroesLoop polynomial powersArray lenOver4 0 crc

/-- `InvertedToPure(crc)` -/
def invertedToPure (crc : UInt32) : UInt32 := ~~~crc

/-- `PureToInverted(crc)` -/
def pureToInverted (crc : UInt32) : UInt32 := ~~~crc

/-- `PureExtend(crc, buf, size)` over the `Extend` given -/
def pureExtendWith (extend : UInt32 → List UInt8 → UInt32) (crc : UInt32) (buf : List UInt8) : UInt32 :=
  invertedToPure (extend (pureToInverted crc) buf)

/-- `Crc32cCombine(crc1, crc2, crc2len)` over the `Extend` given -/
def crc32cCombineWith (extend : UInt32 → List UInt8 → UInt32) (crc1 crc2 : UInt32) (crc2len : ℕ) : UInt32 :=
  let pureCrc1WithInit := invertedToPure crc1
  let pureCrc2WithInit := invertedToPure crc2
  -- `static_cast<uint32_t>(-1)`
  let pureCrc2Init : UInt32 := 0xFFFFFFFF
  -- up to 32 bits of zeroes appended in the normal way
  let len := crc2len &&& 3
  let tmp := pureCrc1WithInit ^^^ pureCrc2Init
  let tmp := if len ≠ 0 then pureExtendWith extend tmp (List.replicate len 0) else tmp
  pureToInverted (crc32AppendZeroes tmp (crc2len / 4) crc32cM crc32cPowers ^^^ pureCrc2WithInit)

end ForSt.crc32c
