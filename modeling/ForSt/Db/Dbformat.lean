import Mathlib.Tactic
import ForSt.Util.Coding
import ForSt.Util.Status
import ForSt.Table.Format
/-!
`ValueType` (`db/dbformat.h`): the tag of an entry in a write batch, a memtable or a table. `toNat` is the value the
enumerator stands for; `ofNat?` reads a tag byte back, `none` for a byte that names no enumerator (what a `switch`
over the tag sends to its `default`). `kMaxSequenceNumber` is the largest sequence number.
-/

namespace ForSt

inductive ValueType where
  | kTypeDeletion
  | kTypeValue
  | kTypeMerge
  | kTypeLogData
  | kTypeColumnFamilyDeletion
  | kTypeColumnFamilyValue
  | kTypeColumnFamilyMerge
  | kTypeSingleDeletion
  | kTypeColumnFamilySingleDeletion
  | kTypeBeginPrepareXID
  | kTypeEndPrepareXID
  | kTypeCommitXID
  | kTypeRollbackXID
  | kTypeNoop
  | kTypeColumnFamilyRangeDeletion
  | kTypeRangeDeletion
  | kTypeColumnFamilyBlobIndex
  | kTypeBlobIndex
  | kTypeBeginPersistedPrepareXID
  | kTypeBeginUnprepareXID
  | kTypeDeletionWithTimestamp
  | kTypeCommitXIDAndTimestamp
  | kTypeWideColumnEntity
  | kTypeColumnFamilyWideColumnEntity
  /-- after the last valid type: the largest type a truncated range tombstone's start key carries -/
  | kTypeMaxValid
  /-- not used for storing records -/
  | kMaxValue
deriving DecidableEq, Repr

def ValueType.toNat : ValueType → ℕ
  | .kTypeDeletion => 0x0
  | .kTypeValue => 0x1
  | .kTypeMerge => 0x2
  | .kTypeLogData => 0x3
  | .kTypeColumnFamilyDeletion => 0x4
  | .kTypeColumnFamilyValue => 0x5
  | .kTypeColumnFamilyMerge => 0x6
  | .kTypeSingleDeletion => 0x7
  | .kTypeColumnFamilySingleDeletion => 0x8
  | .kTypeBeginPrepareXID => 0x9
  | .kTypeEndPrepareXID => 0xA
  | .kTypeCommitXID => 0xB
  | .kTypeRollbackXID => 0xC
  | .kTypeNoop => 0xD
  | .kTypeColumnFamilyRangeDeletion => 0xE
  | .kTypeRangeDeletion => 0xF
  | .kTypeColumnFamilyBlobIndex => 0x10
  | .kTypeBlobIndex => 0x11
  | .kTypeBeginPersistedPrepareXID => 0x12
  | .kTypeBeginUnprepareXID => 0x13
  | .kTypeDeletionWithTimestamp => 0x14
  | .kTypeCommitXIDAndTimestamp => 0x15
  | .kTypeWideColumnEntity => 0x16
  | .kTypeColumnFamilyWideColumnEntity => 0x17
  | .kTypeMaxValid => 0x18
  | .kMaxValue => 0x7F

/-- the enumerator a tag byte names -/
def ValueType.ofNat? : ℕ → Option ValueType
  | 0x0 => some .kTypeDeletion
  | 0x1 => some .kTypeValue
  | 0x2 => some .kTypeMerge
  | 0x3 => some .kTypeLogData
  | 0x4 => some .kTypeColumnFamilyDeletion
  | 0x5 => some .kTypeColumnFamilyValue
  | 0x6 => some .kTypeColumnFamilyMerge
  | 0x7 => some .kTypeSingleDeletion
  | 0x8 => some .kTypeColumnFamilySingleDeletion
  | 0x9 => some .kTypeBeginPrepareXID
  | 0xA => some .kTypeEndPrepareXID
  | 0xB => some .kTypeCommitXID
  | 0xC => some .kTypeRollbackXID
  | 0xD => some .kTypeNoop
  | 0xE => some .kTypeColumnFamilyRangeDeletion
  | 0xF => some .kTypeRangeDeletion
  | 0x10 => some .kTypeColumnFamilyBlobIndex
  | 0x11 => some .kTypeBlobIndex
  | 0x12 => some .kTypeBeginPersistedPrepareXID
  | 0x13 => some .kTypeBeginUnprepareXID
  | 0x14 => some .kTypeDeletionWithTimestamp
  | 0x15 => some .kTypeCommitXIDAndTimestamp
  | 0x16 => some .kTypeWideColumnEntity
  | 0x17 => some .kTypeColumnFamilyWideColumnEntity
  | 0x18 => some .kTypeMaxValid
  | 0x7F => some .kMaxValue
  | _ => none

/-- `static_cast<char>(t)`: the tag byte -/
def ValueType.toUInt8 (t : ValueType) : UInt8 := UInt8.ofNat t.toNat

theorem ValueType.toNat_lt (t : ValueType) : t.toNat < 0x80 := by
  cases t <;> decide

@[simp] theorem ValueType.ofNat?_toNat (t : ValueType) : ValueType.ofNat? t.toNat = some t := by
  cases t <;> rfl

@[simp] theorem ValueType.toNat_toUInt8 (t : ValueType) : t.toUInt8.toNat = t.toNat := by
  have := t.toNat_lt
  simp only [toUInt8, UInt8.toNat_ofNat']
  omega

/-- `kMaxSequenceNumber`: sequence numbers take the 56 bits above the type byte of an internal key -/
def kMaxSequenceNumber : ℕ := 2 ^ 56 - 1

/-! ## Internal keys

An internal key is the user key followed by eight bytes, the fixed64 of the sequence number shifted over the type
byte. -/

def kNumInternalBytes : ℕ := 8

/-- `ExtractUserKey` -/
def extractUserKey (internalKey : List UInt8) : List UInt8 := internalKey.take (internalKey.length - kNumInternalBytes)

/-- the fixed64 at the end of an internal key -/
def extractPackedSequenceAndType (internalKey : List UInt8) : ℕ :=
  Coding.decodeFixed64 (internalKey.drop (internalKey.length - kNumInternalBytes))

/-- `PackSequenceAndType` -/
def packSequenceAndType (seq : ℕ) (t : ValueType) : ℕ := seq <<< 8 ||| t.toNat

/-- `kValueTypeForSeek` -/
def kValueTypeForSeek : ValueType := .kTypeWideColumnEntity

/-- `InternalKeyComparator::Compare`: the user keys under the user comparator, then, when they compare equal, the
larger sequence number and type first -/
def internalKeyCompare (userCompare : List UInt8 → List UInt8 → Ordering) (a b : List UInt8) : Ordering :=
  (userCompare (extractUserKey a) (extractUserKey b)).then
    (compare (extractPackedSequenceAndType b) (extractPackedSequenceAndType a))

theorem extractUserKey_append_encodeFixed64 (userKey : List UInt8) (packed : ℕ) :
    extractUserKey (userKey ++ Coding.encodeFixed64 packed) = userKey := by
  simp [extractUserKey, kNumInternalBytes]

/-- an internal key compares as its user key whenever the user keys differ -/
theorem internalKeyCompare_of_ne_eq {userCompare : List UInt8 → List UInt8 → Ordering} {a b : List UInt8}
    (h : userCompare (extractUserKey a) (extractUserKey b) ≠ .eq) :
    internalKeyCompare userCompare a b = userCompare (extractUserKey a) (extractUserKey b) := by
  rw [internalKeyCompare]
  cases hc : userCompare (extractUserKey a) (extractUserKey b)
  · rfl
  · exact absurd hc h
  · rfl

/-- below in internal key order, so not above in user key order -/
theorem userCompare_ne_gt_of_internalKeyCompare_lt {userCompare : List UInt8 → List UInt8 → Ordering}
    {a b : List UInt8} (h : internalKeyCompare userCompare a b = .lt) :
    userCompare (extractUserKey a) (extractUserKey b) ≠ .gt := by
  rw [internalKeyCompare, Ordering.then_eq_lt] at h
  rcases h with h | ⟨h, -⟩ <;> rw [h] <;> decide

theorem internalKeyCompare_self {userCompare : List UInt8 → List UInt8 → Ordering} [Std.ReflCmp userCompare]
    (a : List UInt8) : internalKeyCompare userCompare a a = .eq := by
  have huser : userCompare (extractUserKey a) (extractUserKey a) = .eq := Std.ReflCmp.compare_self
  rw [internalKeyCompare, huser, Ordering.eq_then, Std.compare_self]

/-- the internal key order is transitive when the user order is: by user key, then by the packed sequence number and
type, the larger first -/
instance internalKeyCompare.instTransCmp {userCompare : List UInt8 → List UInt8 → Ordering}
    [Std.TransCmp userCompare] : Std.TransCmp (internalKeyCompare userCompare) := by
  have huser : Std.TransCmp fun a b : List UInt8 => userCompare (extractUserKey a) (extractUserKey b) :=
    { eq_swap := Std.OrientedCmp.eq_swap, isLE_trans := Std.TransCmp.isLE_trans }
  have hpacked : Std.TransCmp fun a b : List UInt8 =>
      compare (extractPackedSequenceAndType b) (extractPackedSequenceAndType a) :=
    @Std.TransCmp.opposite _ (compareOn extractPackedSequenceAndType) inferInstance
  exact inferInstanceAs (Std.TransCmp (compareLex _ _))

/-! ## Parsed internal keys

`ParsedInternalKey` with its user key in a type that the user comparator orders linearly. Keys of one user key are
ordered by their packed sequence number and type, the larger first. -/

/-- `ParsedInternalKey` -/
structure ParsedInternalKey (UK : Type) where
  userKey : UK
  sequence : ℕ
  type : ValueType
deriving DecidableEq, Repr

section parsed

variable {UK : Type} [LinearOrder UK] {a b c : ParsedInternalKey UK}

/-- `InternalKeyComparator::Compare` on parsed keys -/
def icmpCompare (a b : ParsedInternalKey UK) : Ordering :=
  (compare a.userKey b.userKey).then
    (compare (packSequenceAndType b.sequence b.type) (packSequenceAndType a.sequence a.type))

theorem icmpCompare_eq_lt : icmpCompare a b = .lt ↔ a.userKey < b.userKey ∨
    (a.userKey = b.userKey ∧ packSequenceAndType b.sequence b.type < packSequenceAndType a.sequence a.type) := by
  rw [icmpCompare, Ordering.then_eq_lt, compare_lt_iff_lt, compare_eq_iff_eq, compare_lt_iff_lt]

theorem userKey_le_of_icmpCompare_lt (h : icmpCompare a b = .lt) : a.userKey ≤ b.userKey := by
  rcases icmpCompare_eq_lt.mp h with h | ⟨h, -⟩
  · exact le_of_lt h
  · exact le_of_eq h

theorem icmpCompare_lt_of_userKey_lt (h : a.userKey < b.userKey) : icmpCompare a b = .lt :=
  icmpCompare_eq_lt.mpr (.inl h)

/-- not below in internal key order, so not below in user key order -/
theorem userKey_le_of_icmpCompare_ne_lt (h : icmpCompare a b ≠ .lt) : b.userKey ≤ a.userKey :=
  not_lt.mp fun hlt => h (icmpCompare_lt_of_userKey_lt hlt)

theorem icmpCompare_lt_trans (hab : icmpCompare a b = .lt) (hbc : icmpCompare b c = .lt) :
    icmpCompare a c = .lt := by
  rw [icmpCompare_eq_lt] at hab hbc ⊢
  grind

/-- below a key that another is not below, so below that one -/
theorem icmpCompare_lt_of_lt_of_ne_lt (hab : icmpCompare a b = .lt) (hcb : icmpCompare c b ≠ .lt) :
    icmpCompare a c = .lt := by
  rw [ne_eq, icmpCompare_eq_lt] at hcb
  rw [icmpCompare_eq_lt] at hab ⊢
  grind

end parsed

/-! ## Encoding and parsing internal keys

`AppendInternalKey` writes a parsed key as its user key and the fixed64 of the packed sequence number and type;
`ParseInternalKey` reads it back, failing for a key shorter than eight bytes or whose type byte is not an extended
value type. The comparator has one overload per pair of encoded and parsed keys, and one that compares two encoded
keys under global sequence numbers that replace their own. -/

/-- `IsValueType`: a type that a memtable or a data block holds inline -/
def ValueType.isValueType (t : ValueType) : Bool :=
  decide (t.toNat ≤ ValueType.kTypeMerge.toNat) || t == .kTypeSingleDeletion || t == .kTypeBlobIndex ||
    t == .kTypeDeletionWithTimestamp || t == .kTypeWideColumnEntity

/-- `IsExtendedValueType`: a value type, or one of the types only a table's meta blocks or a range tombstone's
start key carry -/
def ValueType.isExtendedValueType (t : ValueType) : Bool :=
  t.isValueType || t == .kTypeRangeDeletion || t == .kTypeMaxValid

/-- `AppendInternalKey(result, key)` -/
def appendInternalKey (result : List UInt8) (key : ParsedInternalKey (List UInt8)) : List UInt8 :=
  result ++ key.userKey ++ Coding.encodeFixed64 (packSequenceAndType key.sequence key.type)

/-- `ParsedInternalKey::DebugString(log_err_key, true)`, the type printed as the byte it was read from -/
def parsedInternalKeyDebugString (logErrKey : Bool) (userKey : List UInt8) (sequence type : ℕ) : String :=
  "'" ++ (if logErrKey then sliceToStringHex userKey else "<redacted>") ++ "' seq:" ++ toString sequence ++
    ", type:" ++ toString type

/-- `ParseInternalKey(internal_key, &result, log_err_key)` -/
def parseInternalKey (internalKey : List UInt8) (logErrKey : Bool) : Except Status (ParsedInternalKey (List UInt8)) :=
  let n := internalKey.length
  if n < kNumInternalBytes then
    .error (.corruption ("Corrupted Key: Internal Key too small. Size=" ++ toString n ++ ". "))
  else
    let num := Coding.decodeFixed64 (internalKey.drop (n - kNumInternalBytes))
    let c := num &&& 0xff
    let sequence := num >>> 8
    let userKey := internalKey.take (n - kNumInternalBytes)
    let corrupted : Status := .corruption ("Corrupted Key: " ++ parsedInternalKeyDebugString logErrKey userKey sequence c)
    -- a byte that names no enumerator fails every comparison of `IsExtendedValueType`
    match ValueType.ofNat? c with
    | some t => if t.isExtendedValueType then .ok ⟨userKey, sequence, t⟩ else .error corrupted
    | none => .error corrupted

section compare

variable (userCompare : List UInt8 → List UInt8 → Ordering)

/-- `InternalKeyComparator::Compare(const ParsedInternalKey&, const ParsedInternalKey&)` -/
def compareParsed (a b : ParsedInternalKey (List UInt8)) : Ordering :=
  (userCompare a.userKey b.userKey).then ((compare b.sequence a.sequence).then (compare b.type.toNat a.type.toNat))

/-- `InternalKeyComparator::Compare(const Slice&, const ParsedInternalKey&)`: the parsed key packed as a uint64 -/
def compareSliceParsed (a : List UInt8) (b : ParsedInternalKey (List UInt8)) : Ordering :=
  (userCompare (extractUserKey a) b.userKey).then
    (compare (packSequenceAndType b.sequence b.type % 2 ^ 64) (extractPackedSequenceAndType a))

/-- `InternalKeyComparator::Compare(const ParsedInternalKey&, const Slice&)`: the other overload, negated -/
def compareParsedSlice (a : ParsedInternalKey (List UInt8)) (b : List UInt8) : Ordering :=
  (compareSliceParsed userCompare b a).swap

/-- `InternalKeyComparator::CompareKeySeq(const Slice&, const Slice&)`: the type byte shifted out -/
def compareKeySeq (a b : List UInt8) : Ordering :=
  (userCompare (extractUserKey a) (extractUserKey b)).then
    (compare (extractPackedSequenceAndType b >>> 8) (extractPackedSequenceAndType a >>> 8))

/-- `kDisableGlobalSequenceNumber` -/
def kDisableGlobalSequenceNumber : ℕ := 2 ^ 64 - 1

/-- `ExtractValueType`: the type byte of an internal key -/
def extractValueType (internalKey : List UInt8) : ℕ := extractPackedSequenceAndType internalKey &&& 0xff

/-- the footer `Compare` with global sequence numbers reads: the key's own, or the global sequence number packed
with the key's type byte as a uint64 -/
def footerWithGlobalSeqno (internalKey : List UInt8) (globalSeqno : ℕ) : ℕ :=
  if globalSeqno = kDisableGlobalSequenceNumber then extractPackedSequenceAndType internalKey
  else (globalSeqno <<< 8 ||| extractValueType internalKey) % 2 ^ 64

/-- `InternalKeyComparator::Compare(a, a_global_seqno, b, b_global_seqno)` -/
def compareWithGlobalSeqno (a : List UInt8) (aGlobalSeqno : ℕ) (b : List UInt8) (bGlobalSeqno : ℕ) : Ordering :=
  (userCompare (extractUserKey a) (extractUserKey b)).then
    (compare (footerWithGlobalSeqno b bGlobalSeqno) (footerWithGlobalSeqno a aGlobalSeqno))

end compare

/-! ## User-defined timestamps in internal keys -/

/-- `PadInternalKeyWithMinTimestamp`: the user key, `tsSz` zero bytes, then the eight bytes after the user key -/
def padInternalKeyWithMinTimestamp (key : List UInt8) (tsSz : ℕ) : List UInt8 :=
  key.take (key.length - kNumInternalBytes) ++ List.replicate tsSz 0 ++ key.drop (key.length - kNumInternalBytes)

/-- `StripTimestampFromInternalKey`: the user key without its last `tsSz` bytes, then the eight bytes of sequence
number and type -/
def stripTimestampFromInternalKey (key : List UInt8) (tsSz : ℕ) : List UInt8 :=
  key.take (key.length - 8 - tsSz) ++ key.drop (key.length - 8)

/-- `ReplaceInternalKeyWithMinTimestamp`: the timestamp of the user key replaced by `tsSz` zero bytes -/
def replaceInternalKeyWithMinTimestamp (key : List UInt8) (tsSz : ℕ) : List UInt8 :=
  key.take (key.length - kNumInternalBytes - tsSz) ++ List.replicate tsSz 0 ++
    key.drop (key.length - kNumInternalBytes)

end ForSt
