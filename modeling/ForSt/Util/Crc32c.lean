import Mathlib.Tactic
/-!
CRC-32C as the log format uses it (`util/crc32c.h`).

`Mask`/`Unmask` are modelled as the header writes them, and `unmask_mask` shows that the stored form loses nothing.
`Extend` and `Crc32cCombine` are table-driven or hardware code in `util/crc32c.cc`. The log model takes them as a
parameter `Crc32c`, whose two fields of laws are what `util/crc32c.h` documents for them:
- `Extend(init_crc, data)`: "the crc32c of concat(A, data) where init_crc is the crc32c of some string A";
- `Crc32cCombine(crc1, crc2, crc2len)`: "a crc32c value for the concatenation of the original two input strings".

`bitwise` is an instance: the same CRC computed one bit at a time (reflected polynomial `0x82f63b78`, register
initialised to all ones and inverted at the end). Its combine is the one `Crc32cCombine` computes: extend the first
pure CRC over `crc2len` zero bytes and xor the second. Both laws are proved from the xor-linearity of a shift.
-/

namespace ForSt.crc32c

/-! ## Masked storage -/

def kMaskDelta : UInt32 := 0xa282ead8

/-- `Mask(crc)`: rotate right by 15 bits and add a constant -/
def mask (crc : UInt32) : UInt32 := ((crc >>> 15) ||| (crc <<< 17)) + kMaskDelta

/-- `Unmask(masked_crc)` -/
def unmask (maskedCrc : UInt32) : UInt32 :=
  let rot := maskedCrc - kMaskDelta
  (rot >>> 17) ||| (rot <<< 15)

/-- two left rotations that add up to the width give back the word -/
theorem rotateLeft_rotateLeft {w r s : ℕ} (x : BitVec w) (hrs : r + s = w) (hr : r < w) (hs : s < w) :
    (x.rotateLeft r).rotateLeft s = x := by
  ext i hi
  simp only [BitVec.getElem_rotateLeft, Nat.mod_eq_of_lt hr, Nat.mod_eq_of_lt hs]
  split_ifs <;> congr 1 <;> omega

/-- the shift pair of `Mask` and `Unmask` is a rotation of the 32-bit word -/
theorem toBitVec_shiftRight_or_shiftLeft (c a b : UInt32) (hab : a.toNat + b.toNat = 32) (hb0 : 0 < b.toNat)
    (hb : b.toNat < 32) : (c >>> a ||| c <<< b).toBitVec = c.toBitVec.rotateLeft b.toNat := by
  have ha : (a.toBitVec % 32).toNat = 32 - b.toNat % 32 := by
    rw [BitVec.toNat_umod, Nat.mod_eq_of_lt hb]; simp; omega
  have hb' : (b.toBitVec % 32).toNat = b.toNat % 32 := by
    rw [BitVec.toNat_umod]; simp
  rw [BitVec.rotateLeft_def, BitVec.or_comm, UInt32.toBitVec_or, UInt32.toBitVec_shiftLeft,
    UInt32.toBitVec_shiftRight, BitVec.ushiftRight_eq', BitVec.shiftLeft_eq', ha, hb']

/-- rotating right by 15 and then by 17 bits is the identity on 32-bit words -/
theorem rotate_rotate (c : UInt32) : ((c >>> 15 ||| c <<< 17) >>> 17 ||| (c >>> 15 ||| c <<< 17) <<< 15) = c := by
  apply UInt32.toBitVec_inj.1
  rw [toBitVec_shiftRight_or_shiftLeft _ 17 15 (by decide) (by decide) (by decide),
    toBitVec_shiftRight_or_shiftLeft _ 15 17 (by decide) (by decide) (by decide)]
  exact rotateLeft_rotateLeft c.toBitVec (by decide) (by decide) (by decide)

@[simp] theorem unmask_mask (c : UInt32) : unmask (mask c) = c := by
  simp only [unmask, mask, UInt32.add_sub_cancel, rotate_rotate]

/-! ## The interface the log format relies on -/

/-- `crc32c::Extend` and `crc32c::Crc32cCombine`, with their documented laws -/
structure Crc32c where
  extend : UInt32 → List UInt8 → UInt32
  crc32cCombine : UInt32 → UInt32 → ℕ → UInt32
  extend_value : ∀ a b : List UInt8, extend (extend 0 a) b = extend 0 (a ++ b)
  combine_value : ∀ a b : List UInt8, crc32cCombine (extend 0 a) (extend 0 b) b.length = extend 0 (a ++ b)

/-- `crc32c::Value(data, n)` is `Extend(0, data, n)` -/
def Crc32c.value (crc : Crc32c) (data : List UInt8) : UInt32 := crc.extend 0 data

theorem Crc32c.extend_value' (crc : Crc32c) (a b : List UInt8) : crc.extend (crc.value a) b = crc.value (a ++ b) :=
  crc.extend_value a b

theorem Crc32c.combine_value' (crc : Crc32c) (a b : List UInt8) :
    crc.crc32cCombine (crc.value a) (crc.value b) b.length = crc.value (a ++ b) :=
  crc.combine_value a b

/-! ## CRC-32C a bit at a time -/

def poly : BitVec 32 := 0x82f63b78#32

/-- one shift of the reflected CRC register -/
def shiftBit (r : BitVec 32) : BitVec 32 := if r.getLsbD 0 then (r >>> 1) ^^^ poly else r >>> 1

/-- feed one byte into the register -/
def shiftByte (r : BitVec 32) (b : UInt8) : BitVec 32 := shiftBit^[8] (r ^^^ b.toBitVec.setWidth 32)

/-- the pure CRC register after `data`, from register `r` -/
def pureExtend (r : BitVec 32) (data : List UInt8) : BitVec 32 := data.foldl shiftByte r

theorem shiftBit_xor (r s : BitVec 32) : shiftBit (r ^^^ s) = shiftBit r ^^^ shiftBit s := by
  unfold shiftBit
  simp only [BitVec.getLsbD_xor, BitVec.ushiftRight_xor_distrib]
  cases r.getLsbD 0 <;> cases s.getLsbD 0 <;> simp
  -- only the case with both low bits set is left: `poly` cancels against itself
  all_goals ac_nf
  simp only [← BitVec.xor_assoc, BitVec.xor_self, BitVec.zero_xor]

theorem iterate_shiftBit_xor (n : ℕ) (r s : BitVec 32) :
    shiftBit^[n] (r ^^^ s) = shiftBit^[n] r ^^^ shiftBit^[n] s := by
  induction n generalizing r s with
  | zero => rfl
  | succ n ih => simp only [Function.iterate_succ_apply, shiftBit_xor, ih]

theorem shiftByte_xor (r s : BitVec 32) (b : UInt8) : shiftByte (r ^^^ s) b = shiftByte r b ^^^ shiftByte s 0 := by
  unfold shiftByte
  rw [← iterate_shiftBit_xor]
  congr 1
  simp only [UInt8.toBitVec_zero, BitVec.setWidth_zero, BitVec.xor_zero]
  ac_rfl

/-- the register is affine in its start: a xor of starts runs the second one over zeros -/
theorem pureExtend_xor (r s : BitVec 32) (data : List UInt8) :
    pureExtend (r ^^^ s) data = pureExtend r data ^^^ pureExtend s (List.replicate data.length 0) := by
  induction data generalizing r s with
  | nil => rfl
  | cons b data ih =>
    simp only [pureExtend, List.foldl_cons, List.length_cons, List.replicate_succ] at ih ⊢
    rw [shiftByte_xor, ih]

theorem pureExtend_append (r : BitVec 32) (a b : List UInt8) :
    pureExtend r (a ++ b) = pureExtend (pureExtend r a) b := by
  simp [pureExtend, List.foldl_append]

/-- the bitwise CRC-32C -/
def bitwise : Crc32c where
  extend c data := UInt32.ofBitVec (~~~ pureExtend (~~~ c.toBitVec) data)
  crc32cCombine crc1 crc2 crc2len :=
    UInt32.ofBitVec (pureExtend crc1.toBitVec (List.replicate crc2len 0) ^^^ crc2.toBitVec)
  extend_value a b := by simp [pureExtend_append]
  combine_value a b := by
    -- the register after `a` is `~0 ^^^ ~u` where `u` is the inverted register, so linearity splits `b`'s pass
    have hones : ~~~ (0 : UInt32).toBitVec = BitVec.allOnes 32 := by decide
    set u := pureExtend (BitVec.allOnes 32) a
    have hsplit : pureExtend u b = pureExtend (BitVec.allOnes 32) b ^^^
        pureExtend (~~~ u) (List.replicate b.length 0) := by
      rw [← pureExtend_xor]
      congr 1
      ext i hi
      simp only [BitVec.getElem_xor, BitVec.getElem_not, BitVec.getElem_allOnes]
      cases u[i] <;> rfl
    apply UInt32.toBitVec_inj.1
    simp only [hones, pureExtend_append]
    rw [hsplit]
    ext i hi
    simp only [BitVec.getElem_xor, BitVec.getElem_not]
    cases (pureExtend (BitVec.allOnes 32) b)[i] <;> cases (pureExtend (~~~u) (List.replicate b.length 0))[i] <;> rfl

-- the CRC-32C check value: the digits one to nine
example : bitwise.value [0x31, 0x32, 0x33, 0x34, 0x35, 0x36, 0x37, 0x38, 0x39] = 0xE3069283 := by decide +kernel

end ForSt.crc32c
