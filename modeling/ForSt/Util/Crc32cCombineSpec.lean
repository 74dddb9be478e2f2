import ForSt.Lib.ReflectedPoly
import ForSt.Util.Crc32cCombine
/-!
`Crc32cCombine` computes the combine of the bitwise CRC-32C, so it meets the law `util/crc32c.h` documents.

A 32-bit register is a residue modulo the CRC-32C polynomial (`ReflectedPoly.embed poly`). `gf_multiply_sw`
multiplies residues (`embed_gfMultiplySw`), `crc32c_powers[i]` is `x ^ (32 * 2 ^ i)` (`embed_crc32cPowers`), and the
loop of `Crc32AppendZeroes` multiplies by `x ^ (32 * len_over_4)` (`embed_crc32AppendZeroesLoop`,
`crc32AppendZeroes_eq`). So with the bitwise `Extend`, `Crc32cCombine` is the combine of `crc32c::bitwise`
(`crc32cCombineWith_bitwise`).
-/

namespace ForSt.crc32c

open ForSt.ReflectedPoly

/-! ## The bit steps of `gf_multiply_sw_1` -/

@[simp] theorem toBitVec_crc32cM : crc32cM.toBitVec = poly := rfl

/-- the register's bit step is the library's shift modulo `poly` -/
theorem shiftBit_eq_shift : shiftBit = shift poly := rfl

theorem and_one_eq (x : UInt32) : x &&& 1 = if x.toBitVec.getLsbD 0 then 1 else 0 := by
  apply UInt32.toNat_inj.mp
  rw [UInt32.toNat_and, show UInt32.toNat 1 = 1 from rfl, Nat.and_one_is_mod]
  simp only [BitVec.getLsbD, UInt32.toNat_toBitVec, Nat.testBit_zero]
  split <;> simp_all

/-- `0u - bit` is the mask of all ones or of none -/
theorem zero_sub_and (c : Bool) (a : UInt32) : ((0 : UInt32) - (if c then 1 else 0)) &&& a = if c then a else 0 := by
  cases c <;> simp

/-- `(0u - ((b >> 31) & 1)) & a` selects `a` by the top bit of `b` -/
theorem select_toBitVec (a b : UInt32) :
    (((0 : UInt32) - ((b >>> 31) &&& 1)) &&& a).toBitVec = if b.toBitVec.getLsbD (32 - 1) then a.toBitVec else 0 := by
  rw [and_one_eq, zero_sub_and]
  simp only [UInt32.toBitVec_shiftRight]
  split <;> simp_all

/-- `(a >> 1) ^ ((0u - (a & 1)) & m)` is one bit step of the register -/
theorem shift_toBitVec (a : UInt32) :
    ((a >>> 1) ^^^ (((0 : UInt32) - (a &&& 1)) &&& crc32cM)).toBitVec = shift poly a.toBitVec := by
  rw [and_one_eq, zero_sub_and, shift]
  split <;> simp_all

theorem gfMultiplySw1_toBitVec (rounds : ℕ) (p a b : UInt32) :
    (gfMultiplySw1 rounds p a b crc32cM).toBitVec = mulLoop poly rounds p.toBitVec a.toBitVec b.toBitVec := by
  induction rounds generalizing p a b with
  | zero => rfl
  | succ rounds ih =>
    rw [gfMultiplySw1, ih, mulLoop, UInt32.toBitVec_xor, select_toBitVec, shift_toBitVec, UInt32.toBitVec_shiftLeft]
    rfl

/-- `gf_multiply_sw` multiplies residues -/
theorem embed_gfMultiplySw (a b : UInt32) :
    embed poly (gfMultiplySw a b crc32cM).toBitVec = embed poly a.toBitVec * embed poly b.toBitVec := by
  rw [gfMultiplySw, gfMultiplySw1_toBitVec]
  exact embed_mul poly _ _

/-- `crc32c_powers[i]` is the residue of `2 ^ i` words of zeroes -/
theorem embed_crc32cPowers (i : ℕ) :
    embed poly (crc32cPowers i).toBitVec = AdjoinRoot.root (modulus poly) ^ (32 * 2 ^ i) := by
  induction i with
  | zero => rw [crc32cPowers, gfPowersMemo, toBitVec_crc32cM, pow_zero, mul_one, ← root_pow]
  | succ i ih =>
    rw [crc32cPowers, gfPowersMemo, gfSquareSw, embed_gfMultiplySw, ← crc32cPowers, ih, ← pow_add]
    ring_nf

/-! ## `Crc32AppendZeroes` -/

theorem crc32AppendZeroesLoop_zero (polynomial : UInt32) (powers : ℕ → UInt32) (powersIdx : ℕ) (crc : UInt32) :
    crc32AppendZeroesLoop polynomial powers 0 powersIdx crc = crc := by
  rw [crc32AppendZeroesLoop, dif_pos rfl]

/-- a round: skip the `r` trailing zeroes, multiply by the power there, and go on past that bit -/
theorem crc32AppendZeroesLoop_of_pos (polynomial : UInt32) (powers : ℕ → UInt32) {lenBits : ℕ} (h : 0 < lenBits)
    (powersIdx : ℕ) (crc : UInt32) :
    crc32AppendZeroesLoop polynomial powers lenBits powersIdx crc =
      crc32AppendZeroesLoop polynomial powers (lenBits / 2 ^ countTrailingZeroBits lenBits / 2)
        (powersIdx + countTrailingZeroBits lenBits + 1)
        (gfMultiplySw crc (powers (powersIdx + countTrailingZeroBits lenBits)) polynomial) := by
  rw [crc32AppendZeroesLoop, dif_neg (by omega)]
  simp only [Nat.shiftRight_eq_div_pow, pow_one]

theorem div_two_pow_div_two_lt {n : ℕ} (h : 0 < n) (r : ℕ) : n / 2 ^ r / 2 < n := by
  have := Nat.div_le_self n (2 ^ r)
  omega

/-- the exponents of one round: the word count `q * 2 ^ r` with `q` odd is `2 ^ r` words and `q / 2` times
`2 ^ (r + 1)` -/
theorem appendZeroes_exponent (k r q : ℕ) (hq : q % 2 = 1) :
    32 * 2 ^ (k + r + 1) * (q / 2) + 32 * 2 ^ (k + r) = 32 * 2 ^ k * (q * 2 ^ r) := by
  obtain ⟨s, rfl⟩ : ∃ s, q = 2 * s + 1 := ⟨q / 2, by omega⟩
  rw [show (2 * s + 1) / 2 = s by omega]
  ring

/-- the loop multiplies by the residue of `len_bits` words of zeroes past the powers already skipped -/
theorem embed_crc32AppendZeroesLoop (lenBits powersIdx : ℕ) (crc : UInt32) :
    embed poly (crc32AppendZeroesLoop crc32cM crc32cPowers lenBits powersIdx crc).toBitVec =
      AdjoinRoot.root (modulus poly) ^ (32 * 2 ^ powersIdx * lenBits) * embed poly crc.toBitVec := by
  induction lenBits using Nat.strongRecOn generalizing powersIdx crc with
  | ind lenBits ih =>
    rcases Nat.eq_zero_or_pos lenBits with h | h
    · rw [h, crc32AppendZeroesLoop_zero, Nat.mul_zero, pow_zero, one_mul]
    · obtain ⟨hodd, hmul⟩ := countTrailingZeroBits_spec lenBits h
      rw [crc32AppendZeroesLoop_of_pos _ _ h, ih _ (div_two_pow_div_two_lt h _), embed_gfMultiplySw,
        embed_crc32cPowers, mul_left_comm, ← pow_add, mul_comm (embed poly crc.toBitVec)]
      -- the round's power `x ^ (32 * 2 ^ (i + r))` and the rest of the bits make up all of `len_bits`
      rw [appendZeroes_exponent powersIdx _ _ hodd, hmul]

/-- the loop reads the powers only below the bit length of `len_bits`, past those already skipped -/
theorem crc32AppendZeroesLoop_congr (polynomial : UInt32) {powers powers' : ℕ → UInt32} {bound : ℕ}
    (hagree : ∀ i < bound, powers i = powers' i) (lenBits powersIdx : ℕ) (crc : UInt32)
    (hfit : lenBits * 2 ^ powersIdx < 2 ^ bound) :
    crc32AppendZeroesLoop polynomial powers lenBits powersIdx crc =
      crc32AppendZeroesLoop polynomial powers' lenBits powersIdx crc := by
  induction lenBits using Nat.strongRecOn generalizing powersIdx crc with
  | ind lenBits ih =>
    rcases Nat.eq_zero_or_pos lenBits with h | h
    · rw [h, crc32AppendZeroesLoop_zero, crc32AppendZeroesLoop_zero]
    · obtain ⟨hodd, hmul⟩ := countTrailingZeroBits_spec lenBits h
      rw [crc32AppendZeroesLoop_of_pos _ _ h, crc32AppendZeroesLoop_of_pos _ _ h]
      -- `len_bits = q * 2 ^ r` with `q` odd: the power read is below `len_bits * 2 ^ i`, and so is what is left
      have hq : 1 ≤ lenBits / 2 ^ countTrailingZeroBits lenBits :=
        Nat.pos_of_ne_zero (fun h0 => by simp [h0] at hodd)
      have hread : 2 ^ (powersIdx + countTrailingZeroBits lenBits) ≤ lenBits * 2 ^ powersIdx :=
        calc 2 ^ (powersIdx + countTrailingZeroBits lenBits)
            = 1 * 2 ^ countTrailingZeroBits lenBits * 2 ^ powersIdx := by rw [pow_add]; ring
          _ ≤ lenBits / 2 ^ countTrailingZeroBits lenBits * 2 ^ countTrailingZeroBits lenBits * 2 ^ powersIdx := by
            gcongr
          _ = lenBits * 2 ^ powersIdx := by rw [hmul]
      have hrest : lenBits / 2 ^ countTrailingZeroBits lenBits / 2 *
          2 ^ (powersIdx + countTrailingZeroBits lenBits + 1) ≤ lenBits * 2 ^ powersIdx :=
        calc lenBits / 2 ^ countTrailingZeroBits lenBits / 2 * 2 ^ (powersIdx + countTrailingZeroBits lenBits + 1)
            = lenBits / 2 ^ countTrailingZeroBits lenBits / 2 * 2 * 2 ^ countTrailingZeroBits lenBits *
                2 ^ powersIdx := by rw [pow_succ, pow_add]; ring
          _ ≤ lenBits / 2 ^ countTrailingZeroBits lenBits * 2 ^ countTrailingZeroBits lenBits * 2 ^ powersIdx := by
            gcongr; exact Nat.div_mul_le_self _ 2
          _ = lenBits * 2 ^ powersIdx := by rw [hmul]
      have hidx : powersIdx + countTrailingZeroBits lenBits < bound :=
        (Nat.pow_lt_pow_iff_right (show 1 < 2 by omega)).mp (by omega)
      rw [hagree _ hidx, ih _ (div_two_pow_div_two_lt h _) _ _ (by omega)]

/-- the powers the source stores suffice for every `size_t` length -/
theorem crc32AppendZeroes_powersArray (crc : UInt32) (crc2len : ℕ) (hlen : crc2len < 2 ^ 64) :
    crc32AppendZeroes crc (crc2len / 4) crc32cM (fun i => crc32cPowersArray.getD i 0) =
      crc32AppendZeroes crc (crc2len / 4) crc32cM crc32cPowers := by
  refine @crc32AppendZeroesLoop_congr crc32cM _ _ 62 (fun i hi => ?_) _ 0 crc (by omega)
  simp [crc32cPowersArray, hi]

/-- zero bytes are steps of the register, eight to a byte -/
theorem pureExtend_replicate_zero (r : BitVec 32) (n : ℕ) :
    pureExtend r (List.replicate n 0) = shiftBit^[8 * n] r := by
  induction n generalizing r with
  | zero => rfl
  | succ n ih =>
    rw [List.replicate_succ, pureExtend, List.foldl_cons, ← pureExtend, ih, shiftByte, UInt8.toBitVec_zero,
      BitVec.setWidth_zero, BitVec.xor_zero, ← Function.iterate_add_apply]
    rfl

/-- `Crc32AppendZeroes(crc, len_over_4)` is the pure CRC over `4 * len_over_4` zero bytes -/
theorem crc32AppendZeroes_eq (crc : UInt32) (lenOver4 : ℕ) :
    (crc32AppendZeroes crc lenOver4 crc32cM crc32cPowers).toBitVec =
      pureExtend crc.toBitVec (List.replicate (4 * lenOver4) 0) := by
  apply embed_injective poly
  rw [crc32AppendZeroes, embed_crc32AppendZeroesLoop, pureExtend_replicate_zero, shiftBit_eq_shift,
    embed_iterate_shift]
  ring_nf

/-! ## `Crc32cCombine` -/

/-- `PureExtend` over the bitwise `Extend` runs the pure register -/
theorem pureExtendWith_bitwise (crc : UInt32) (buf : List UInt8) :
    (pureExtendWith bitwise.extend crc buf).toBitVec = pureExtend crc.toBitVec buf := by
  simp [pureExtendWith, invertedToPure, pureToInverted, bitwise]

/-- the bytes past the last multiple of four, extended in the normal way or not at all -/
theorem toBitVec_extendTail (crc : UInt32) (len : ℕ) :
    (if len ≠ 0 then pureExtendWith bitwise.extend crc (List.replicate len 0) else crc).toBitVec =
      pureExtend crc.toBitVec (List.replicate len 0) := by
  split
  · exact pureExtendWith_bitwise crc _
  · rename_i h
    rw [not_not.mp h]
    rfl

/-- with the bitwise `Extend`, `Crc32cCombine` extends the first pure CRC over `crc2len` zero bytes and xors the
second: the combine of `crc32c::bitwise` -/
theorem crc32cCombineWith_bitwise (crc1 crc2 : UInt32) (crc2len : ℕ) :
    crc32cCombineWith bitwise.extend crc1 crc2 crc2len = bitwise.crc32cCombine crc1 crc2 crc2len := by
  -- the pure form of `crc1` and the initial register of `crc2` cancel to `crc1`
  have hinit : ~~~crc1 ^^^ 0xFFFFFFFF = crc1 := by
    apply UInt32.toBitVec_inj.mp
    rw [UInt32.toBitVec_xor, UInt32.toBitVec_not, show (0xFFFFFFFF : UInt32).toBitVec = BitVec.allOnes 32 by decide,
      BitVec.xor_allOnes, BitVec.not_not]
  have hlen : crc2len &&& 3 = crc2len % 4 := Nat.and_two_pow_sub_one_eq_mod crc2len 2
  simp only [crc32cCombineWith, invertedToPure, pureToInverted, hlen]
  rw [hinit]
  apply UInt32.toBitVec_inj.mp
  rw [UInt32.toBitVec_not, UInt32.toBitVec_xor, crc32AppendZeroes_eq, toBitVec_extendTail, ← pureExtend_append,
    ← List.replicate_add, Nat.mod_add_div]
  ext i hi
  simp [bitwise]

/-- the `Crc32c` of `util/crc32c.cc`: the bitwise `Extend` and the source's `Crc32cCombine` -/
def combined : Crc32c where
  extend := bitwise.extend
  crc32cCombine := crc32cCombineWith bitwise.extend
  extend_value := bitwise.extend_value
  combine_value a b := by rw [crc32cCombineWith_bitwise]; exact bitwise.combine_value a b

end ForSt.crc32c
