import ForSt.Util.Coding
/-!
The write-ahead log format shared by `log::Writer` and `log::Reader` (`db/log_format.h`), and the payloads of the
two metadata records (`util/udt_util.h`, `util/compression.h`).

A file is a sequence of 32 KiB blocks. A block holds physical records, each a header (checksum, length, type, and in
the recyclable format the low 32 bits of the log number) followed by its payload; fewer than a header's bytes left at
the end of a block are zero padding. The reader's own result codes extend the record types past `kMaxRecordType`.

`udt_decodeFrom_encodeTo` is the round trip of the timestamp-size payload that the reader relies on.
-/

namespace ForSt.log

open ForSt.Coding

def kBlockSize : ℕ := 32768

/-- checksum (4 bytes), length (2 bytes), type (1 byte) -/
def kHeaderSize : ℕ := 4 + 2 + 1

/-- checksum (4 bytes), length (2 bytes), type (1 byte), log number (4 bytes) -/
def kRecyclableHeaderSize : ℕ := 4 + 2 + 1 + 4

/-- `enum RecordType` -/
inductive RecordType where
  | kZeroType
  | kFullType
  | kFirstType
  | kMiddleType
  | kLastType
  | kRecyclableFullType
  | kRecyclableFirstType
  | kRecyclableMiddleType
  | kRecyclableLastType
  | kSetCompressionType
  | kUserDefinedTimestampSizeType
  | kRecyclableUserDefinedTimestampSizeType
deriving DecidableEq, Repr

/-- the enumerator's value, as it is written into byte 6 of the header -/
def RecordType.toNat : RecordType → ℕ
  | .kZeroType => 0
  | .kFullType => 1
  | .kFirstType => 2
  | .kMiddleType => 3
  | .kLastType => 4
  | .kRecyclableFullType => 5
  | .kRecyclableFirstType => 6
  | .kRecyclableMiddleType => 7
  | .kRecyclableLastType => 8
  | .kSetCompressionType => 9
  | .kUserDefinedTimestampSizeType => 10
  | .kRecyclableUserDefinedTimestampSizeType => 11

def kMaxRecordType : ℕ := RecordType.kRecyclableUserDefinedTimestampSizeType.toNat

/-- `enum class WALRecoveryMode` -/
inductive WALRecoveryMode where
  | kTolerateCorruptedTailRecords
  | kAbsoluteConsistency
  | kPointInTimeRecovery
  | kSkipAnyCorruptedRecords
deriving DecidableEq, Repr

/-! ## The user-defined timestamp size record -/

/-- `UserDefinedTimestampSizeRecord::kSizePerColumnFamily`: 4 bytes of column family id, 2 of timestamp size -/
def kSizePerColumnFamily : ℕ := 4 + 2

/-- `UserDefinedTimestampSizeRecord::EncodeTo`: each pair as a fixed32 id and a fixed16 size -/
def udtEncodeTo : List (ℕ × ℕ) → List UInt8
  | [] => []
  | (cfId, tsSz) :: rest => encodeFixed32 cfId ++ encodeFixed16 tsSz ++ udtEncodeTo rest

/-- the entry loop of `DecodeFrom`, over `n` entries -/
def udtDecodeEntries : ℕ → List UInt8 → Except String (List (ℕ × ℕ))
  | 0, _ => .ok []
  | n + 1, src =>
    match getFixed32 src with
    | none => .error "Error decoding user-defined timestamp size record entry"
    | some (cfId, src) =>
      match getFixed16 src with
      | none => .error "Error decoding user-defined timestamp size record entry"
      | some (tsSz, src) => (udtDecodeEntries n src).map ((cfId, tsSz) :: ·)

/-- `UserDefinedTimestampSizeRecord::DecodeFrom` -/
def udtDecodeFrom (src : List UInt8) : Except String (List (ℕ × ℕ)) :=
  if src.length % kSizePerColumnFamily ≠ 0 then
    .error ("User-defined timestamp size record length: " ++ toString src.length ++ " is not a multiple of " ++
      toString kSizePerColumnFamily ++ "\n")
  else udtDecodeEntries (src.length / kSizePerColumnFamily) src

@[simp] theorem length_udtEncodeTo (l : List (ℕ × ℕ)) : (udtEncodeTo l).length = kSizePerColumnFamily * l.length := by
  induction l with
  | nil => rfl
  | cons p l ih => simp [udtEncodeTo, ih, kSizePerColumnFamily]; ring

theorem udtDecodeEntries_encodeTo (l : List (ℕ × ℕ)) (hl : ∀ p ∈ l, p.1 < 2 ^ 32 ∧ p.2 < 2 ^ 16) :
    udtDecodeEntries l.length (udtEncodeTo l) = .ok l := by
  induction l with
  | nil => rfl
  | cons p l ih =>
    obtain ⟨h1, h2⟩ := hl p List.mem_cons_self
    have ih' := ih (fun q hq => hl q (List.mem_cons_of_mem _ hq))
    simp only [List.length_cons, udtDecodeEntries, udtEncodeTo, List.append_assoc, getFixed32_encodeFixed32,
      getFixed16_encodeFixed16, ih', Nat.mod_eq_of_lt h1, Nat.mod_eq_of_lt h2]
    rfl

/-- what the writer encodes, the reader decodes, as long as ids and sizes fit their fields -/
theorem udt_decodeFrom_encodeTo (l : List (ℕ × ℕ)) (hl : ∀ p ∈ l, p.1 < 2 ^ 32 ∧ p.2 < 2 ^ 16) :
    udtDecodeFrom (udtEncodeTo l) = .ok l := by
  have hdiv : kSizePerColumnFamily * l.length / kSizePerColumnFamily = l.length := by
    simp [kSizePerColumnFamily]
  simp only [udtDecodeFrom, length_udtEncodeTo, Nat.mul_mod_right, ne_eq, not_true_eq_false, if_false, hdiv]
  exact udtDecodeEntries_encodeTo l hl

/-! ## The compression type record -/

def kNoCompression : ℕ := 0
def kZSTD : ℕ := 7

/-- `CompressionTypeRecord::DecodeFrom`; `StreamingCompressionTypeSupported` accepts no compression and ZSTD
(in a build with streaming ZSTD) -/
def compressionTypeDecodeFrom (src : List UInt8) : Except String ℕ :=
  match getFixed32 src with
  | none => .error "CompressionTypeRecord: Error decoding WAL compression type"
  | some (val, _) =>
    if val = kNoCompression ∨ val = kZSTD then .ok val
    else .error "CompressionTypeRecord: WAL compression type not supported"

end ForSt.log
