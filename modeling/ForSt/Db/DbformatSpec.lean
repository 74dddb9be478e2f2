import ForSt.Lib.BitFields
import ForSt.Db.Dbformat
import ForSt.Util.Comparator
/-!
The internal-key codec is lossless, and every overload of the comparator orders encoded keys as their parsed keys.

A parsed key's footer is its sequence number above its type byte (`packSequenceAndType_eq`); it fits the fixed64 for
every sequence number up to `kMaxSequenceNumber`, so the encoded key reads back its user key, its footer, and from
the footer its type and sequence (`parseInternalKey_appendInternalKey`). Comparing footers compares sequence numbers,
then types (`compare_packSequenceAndType`), so comparing two encoded keys, an encoded key with a parsed one, or two
parsed keys all give `internalKeyOrder`: increasing user key, then decreasing sequence number, then decreasing type.
Global sequence numbers replace a key's own in its footer and keep its type byte, so comparing under them is
comparing the keys with their sequence numbers replaced (`compareWithGlobalSeqno_appendInternalKey`), with no bound on
the sequence numbers at all.
-/

namespace ForSt

open Coding BitFields

/-- the order the comparator gives parsed keys: increasing user key, then decreasing sequence number, then decreasing
type -/
def internalKeyOrder (userCompare : List UInt8 → List UInt8 → Ordering) (a b : ParsedInternalKey (List UInt8)) :
    Ordering :=
  (userCompare a.userKey b.userKey).then ((compare b.sequence a.sequence).then (compare b.type.toNat a.type.toNat))

/-- a key with its sequence number replaced by a global one, or as it is when global sequence numbers are off -/
def ParsedInternalKey.withGlobalSeqno (k : ParsedInternalKey (List UInt8)) (globalSeqno : ℕ) :
    ParsedInternalKey (List UInt8) :=
  if globalSeqno = kDisableGlobalSequenceNumber then k else { k with sequence := globalSeqno }

@[simp] theorem ParsedInternalKey.userKey_withGlobalSeqno (k : ParsedInternalKey (List UInt8)) (g : ℕ) :
    (k.withGlobalSeqno g).userKey = k.userKey := by
  unfold withGlobalSeqno
  split <;> rfl

/-! ## The footer -/

theorem ValueType.toNat_lt_two_pow (t : ValueType) : t.toNat < 2 ^ 8 :=
  lt_of_lt_of_le t.toNat_lt (by decide)

/-- the footer is the sequence number above the type byte -/
theorem packSequenceAndType_eq (s : ℕ) (t : ValueType) : packSequenceAndType s t = s * 2 ^ 8 + t.toNat := by
  rw [packSequenceAndType, Nat.shiftLeft_eq, mul_two_pow_or t.toNat_lt_two_pow]

theorem packSequenceAndType_lt {s : ℕ} (hs : s ≤ kMaxSequenceNumber) (t : ValueType) :
    packSequenceAndType s t < 2 ^ 64 := by
  have ht := t.toNat_lt_two_pow
  rw [packSequenceAndType_eq]
  unfold kMaxSequenceNumber at hs
  omega

@[simp] theorem packSequenceAndType_and (s : ℕ) (t : ValueType) : packSequenceAndType s t &&& 0xff = t.toNat := by
  rw [packSequenceAndType_eq]
  exact mul_two_pow_add_and_low t.toNat_lt_two_pow

@[simp] theorem packSequenceAndType_shiftRight (s : ℕ) (t : ValueType) : packSequenceAndType s t >>> 8 = s := by
  rw [packSequenceAndType_eq, Nat.shiftRight_eq_div_pow, Nat.mul_comm, Nat.mul_add_div (Nat.two_pow_pos 8),
    Nat.div_eq_of_lt t.toNat_lt_two_pow, Nat.add_zero]

/-- footers compare as their sequence numbers, then as their types -/
theorem compare_packSequenceAndType (s₁ s₂ : ℕ) (t₁ t₂ : ValueType) :
    compare (packSequenceAndType s₁ t₁) (packSequenceAndType s₂ t₂) =
      (compare s₁ s₂).then (compare t₁.toNat t₂.toNat) := by
  rw [packSequenceAndType_eq, packSequenceAndType_eq]
  exact compare_mul_two_pow_add t₁.toNat_lt_two_pow t₂.toNat_lt_two_pow

/-! ## Encoded keys -/

section encoded

variable (k : ParsedInternalKey (List UInt8))

@[simp] theorem extractUserKey_appendInternalKey : extractUserKey (appendInternalKey [] k) = k.userKey := by
  rw [appendInternalKey, List.nil_append, extractUserKey_append_encodeFixed64]

theorem drop_appendInternalKey :
    (appendInternalKey [] k).drop ((appendInternalKey [] k).length - kNumInternalBytes) =
      encodeFixed64 (packSequenceAndType k.sequence k.type) := by
  simp [appendInternalKey, kNumInternalBytes]

/-- the footer read back is the packed one, as a uint64 -/
theorem extractPackedSequenceAndType_appendInternalKey :
    extractPackedSequenceAndType (appendInternalKey [] k) = packSequenceAndType k.sequence k.type % 2 ^ 64 := by
  rw [extractPackedSequenceAndType, drop_appendInternalKey, ← List.append_nil (encodeFixed64 _),
    decodeFixed64_encodeFixed64]

/-- the type byte survives the truncation to 64 bits, whatever the sequence number -/
@[simp] theorem extractValueType_appendInternalKey : extractValueType (appendInternalKey [] k) = k.type.toNat := by
  have htrunc : packSequenceAndType k.sequence k.type % 2 ^ 64 % 2 ^ 8 = packSequenceAndType k.sequence k.type % 2 ^ 8 :=
    Nat.mod_mod_of_dvd _ (Nat.pow_dvd_pow 2 (by omega))
  have hbyte : (0xff : ℕ) = 2 ^ 8 - 1 := rfl
  rw [extractValueType, extractPackedSequenceAndType_appendInternalKey, hbyte, Nat.and_two_pow_sub_one_eq_mod,
    htrunc, ← Nat.and_two_pow_sub_one_eq_mod, ← hbyte, packSequenceAndType_and]

/-- an encoded key within the sequence range parses back to itself -/
theorem parseInternalKey_appendInternalKey (hs : k.sequence ≤ kMaxSequenceNumber)
    (ht : k.type.isExtendedValueType = true) (logErrKey : Bool) :
    parseInternalKey (appendInternalKey [] k) logErrKey = .ok k := by
  have hlen : ¬ (appendInternalKey [] k).length < kNumInternalBytes := by
    simp [appendInternalKey, kNumInternalBytes]
  have hnum : decodeFixed64 ((appendInternalKey [] k).drop ((appendInternalKey [] k).length - kNumInternalBytes)) =
      packSequenceAndType k.sequence k.type := by
    rw [← extractPackedSequenceAndType, extractPackedSequenceAndType_appendInternalKey,
      Nat.mod_eq_of_lt (packSequenceAndType_lt hs _)]
  have huser : (appendInternalKey [] k).take ((appendInternalKey [] k).length - kNumInternalBytes) = k.userKey :=
    extractUserKey_appendInternalKey k
  rw [parseInternalKey, if_neg hlen]
  dsimp only
  rw [hnum, packSequenceAndType_and, packSequenceAndType_shiftRight, ValueType.ofNat?_toNat]
  dsimp only
  rw [if_pos ht, huser]

end encoded

/-! ## The comparator's overloads -/

section compare

variable (userCompare : List UInt8 → List UInt8 → Ordering) {a b : ParsedInternalKey (List UInt8)}

theorem compareParsed_eq (a b : ParsedInternalKey (List UInt8)) :
    compareParsed userCompare a b = internalKeyOrder userCompare a b := rfl

/-- two encoded keys compare as their parsed keys -/
theorem internalKeyCompare_appendInternalKey (ha : a.sequence ≤ kMaxSequenceNumber)
    (hb : b.sequence ≤ kMaxSequenceNumber) :
    internalKeyCompare userCompare (appendInternalKey [] a) (appendInternalKey [] b) =
      internalKeyOrder userCompare a b := by
  rw [internalKeyCompare, extractUserKey_appendInternalKey, extractUserKey_appendInternalKey,
    extractPackedSequenceAndType_appendInternalKey, extractPackedSequenceAndType_appendInternalKey,
    Nat.mod_eq_of_lt (packSequenceAndType_lt ha _), Nat.mod_eq_of_lt (packSequenceAndType_lt hb _),
    compare_packSequenceAndType]
  rfl

/-- an encoded key and a parsed one compare as the two parsed keys -/
theorem compareSliceParsed_appendInternalKey (ha : a.sequence ≤ kMaxSequenceNumber)
    (hb : b.sequence ≤ kMaxSequenceNumber) :
    compareSliceParsed userCompare (appendInternalKey [] a) b = internalKeyOrder userCompare a b := by
  rw [compareSliceParsed, extractUserKey_appendInternalKey, extractPackedSequenceAndType_appendInternalKey,
    Nat.mod_eq_of_lt (packSequenceAndType_lt ha _), Nat.mod_eq_of_lt (packSequenceAndType_lt hb _),
    compare_packSequenceAndType]
  rfl

/-- the footer under a global sequence number is the footer of the key with its sequence number replaced -/
theorem footerWithGlobalSeqno_appendInternalKey (k : ParsedInternalKey (List UInt8)) (g : ℕ) :
    footerWithGlobalSeqno (appendInternalKey [] k) g =
      extractPackedSequenceAndType (appendInternalKey [] (k.withGlobalSeqno g)) := by
  unfold footerWithGlobalSeqno ParsedInternalKey.withGlobalSeqno
  split
  · rfl
  · rw [extractValueType_appendInternalKey, extractPackedSequenceAndType_appendInternalKey]
    rfl

/-- comparing under global sequence numbers is comparing the keys with their sequence numbers replaced -/
theorem compareWithGlobalSeqno_appendInternalKey (ga gb : ℕ) :
    compareWithGlobalSeqno userCompare (appendInternalKey [] a) ga (appendInternalKey [] b) gb =
      internalKeyCompare userCompare (appendInternalKey [] (a.withGlobalSeqno ga))
        (appendInternalKey [] (b.withGlobalSeqno gb)) := by
  rw [compareWithGlobalSeqno, internalKeyCompare, footerWithGlobalSeqno_appendInternalKey,
    footerWithGlobalSeqno_appendInternalKey]
  simp only [extractUserKey_appendInternalKey, ParsedInternalKey.userKey_withGlobalSeqno]

end compare

/-- the codec is lossless on keys within the sequence range with extended value types, the overloads of the
comparator on encoded and parsed keys agree with `internalKeyOrder`, and global sequence numbers act as replaced
sequence numbers -/
structure InternalKeyCodec (userCompare : List UInt8 → List UInt8 → Ordering) : Prop where
  parse_append : ∀ (k : ParsedInternalKey (List UInt8)) (logErrKey : Bool), k.sequence ≤ kMaxSequenceNumber →
    k.type.isExtendedValueType = true → parseInternalKey (appendInternalKey [] k) logErrKey = .ok k
  compare_slices : ∀ a b : ParsedInternalKey (List UInt8), a.sequence ≤ kMaxSequenceNumber →
    b.sequence ≤ kMaxSequenceNumber →
    internalKeyCompare userCompare (appendInternalKey [] a) (appendInternalKey [] b) = internalKeyOrder userCompare a b
  compare_slice_parsed : ∀ a b : ParsedInternalKey (List UInt8), a.sequence ≤ kMaxSequenceNumber →
    b.sequence ≤ kMaxSequenceNumber →
    compareSliceParsed userCompare (appendInternalKey [] a) b = internalKeyOrder userCompare a b
  compare_parsed : ∀ a b : ParsedInternalKey (List UInt8),
    compareParsed userCompare a b = internalKeyOrder userCompare a b
  compare_global : ∀ (a b : ParsedInternalKey (List UInt8)) (ga gb : ℕ),
    compareWithGlobalSeqno userCompare (appendInternalKey [] a) ga (appendInternalKey [] b) gb =
      internalKeyCompare userCompare (appendInternalKey [] (a.withGlobalSeqno ga))
        (appendInternalKey [] (b.withGlobalSeqno gb))

theorem internalKey_codec (userCompare : List UInt8 → List UInt8 → Ordering) : InternalKeyCodec userCompare where
  parse_append k logErrKey hs ht := parseInternalKey_appendInternalKey k hs ht logErrKey
  compare_slices _ _ ha hb := internalKeyCompare_appendInternalKey userCompare ha hb
  compare_slice_parsed _ _ ha hb := compareSliceParsed_appendInternalKey userCompare ha hb
  compare_parsed a b := compareParsed_eq userCompare a b
  compare_global _ _ ga gb := compareWithGlobalSeqno_appendInternalKey userCompare ga gb

/-- past 56 bits the packed footer wraps: the largest sequence number plus one packs below sequence number 0 with a
larger type, so the encoded comparison and the parsed one disagree -/
example : internalKeyCompare sliceCompare (appendInternalKey [] ⟨[], 2 ^ 56, .kTypeDeletion⟩)
    (appendInternalKey [] ⟨[], 0, .kTypeValue⟩) = .gt := by decide

example : compareParsed sliceCompare ⟨[], 2 ^ 56, .kTypeDeletion⟩ ⟨[], 0, .kTypeValue⟩ = .lt := by decide

end ForSt
