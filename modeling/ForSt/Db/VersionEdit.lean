import ForSt.Util.Coding
import ForSt.Util.Status
import ForSt.Db.Dbformat
/-!
`VersionEdit` (`db/version_edit.h`, `db/version_edit.cc`): one record of the manifest, with the records it carries
(`FileMetaData` by its persisted fields, `BlobFileAddition`, `BlobFileGarbage`, `WalAddition`, `WalDeletion`).

`EncodeTo` writes a tagged sequence; `DecodeFrom` first calls `Clear()` and then reads tag after tag until the input
ends or a reader sets `msg` (`Corruption("VersionEdit", msg)`) or a record's own `DecodeFrom` fails (its status is
returned as is). The loop is `decodeLoop`, one turn is `decodeTag`, whose outcome is a `DecodeStep`; each reader has
a length lemma, and the loop terminates on the length of the input.

`Clear()` resets every field but `has_persist_user_defined_timestamps_` and `persist_user_defined_timestamps_`:
`VersionEdit.clear` keeps the two as the source does.
-/

namespace ForSt

open ForSt.Coding

/-! ## Records an edit holds -/

/-- `InternalKey`, by its encoding `rep_` -/
structure InternalKey where
  rep : List UInt8 := []
deriving DecidableEq, Repr

/-- `IsExtendedValueType`: a value type or one of the types only a table holds -/
def isExtendedValueType (t : ℕ) : Bool :=
  t ≤ 0x2 || t == 0x7 || t == 0x11 || t == 0x14 || t == 0x16 || t == 0xF || t == 0x18

/-- `InternalKey::Valid`: `ParseInternalKey` succeeds, so the key has its eight bytes of sequence number and type,
the type byte being the first of them -/
def InternalKey.valid (k : InternalKey) : Bool :=
  decide (8 ≤ k.rep.length) && isExtendedValueType (k.rep.getD (k.rep.length - 8) 0).toNat

def kFileNumberMask : UInt64 := 0x3FFFFFFFFFFFFFFF

/-- `PackFileNumberAndPathId` -/
def packFileNumberAndPathId (number pathId : UInt64) : UInt64 := number ||| (pathId * (kFileNumberMask + 1))

/-- `FileDescriptor` by its persisted fields -/
structure FileDescriptor where
  packedNumberAndPathId : UInt64
  fileSize : UInt64
  smallestSeqno : UInt64
  largestSeqno : UInt64
deriving DecidableEq, Repr

/-- `FileDescriptor(number, path_id, file_size, smallest_seqno, largest_seqno)` -/
def FileDescriptor.create (number : UInt64) (pathId : UInt32) (fileSize : UInt64)
    (smallestSeqno : UInt64 := UInt64.ofNat kMaxSequenceNumber) (largestSeqno : UInt64 := 0) : FileDescriptor :=
  ⟨packFileNumberAndPathId number pathId.toUInt64, fileSize, smallestSeqno, largestSeqno⟩

def FileDescriptor.getNumber (fd : FileDescriptor) : UInt64 := fd.packedNumberAndPathId &&& kFileNumberMask

def FileDescriptor.getPathId (fd : FileDescriptor) : UInt32 :=
  (fd.packedNumberAndPathId / (kFileNumberMask + 1)).toUInt32

def FileDescriptor.getFileSize (fd : FileDescriptor) : UInt64 := fd.fileSize

def kUnknownEpochNumber : UInt64 := 0

/-- `kUnknownFileChecksumFuncName` -/
def kUnknownFileChecksumFuncName : List UInt8 := "Unknown".toUTF8.toList

/-- `FileMetaData` by the fields an edit persists, with their member initializers; `temperature` is the byte of
the `Temperature` (an `enum class : uint8_t`), `uniqueId` the two words of a `UniqueId64x2` -/
structure FileMetaData where
  fd : FileDescriptor := FileDescriptor.create 0 0 0
  smallest : InternalKey := {}
  largest : InternalKey := {}
  compensatedRangeDeletionSize : UInt64 := 0
  markedForCompaction : Bool := false
  temperature : UInt8 := 0
  oldestBlobFileNumber : UInt64 := 0
  oldestAncesterTime : UInt64 := 0
  fileCreationTime : UInt64 := 0
  epochNumber : UInt64 := kUnknownEpochNumber
  fileChecksum : List UInt8 := []
  fileChecksumFuncName : List UInt8 := kUnknownFileChecksumFuncName
  uniqueId : UInt64 × UInt64 := (0, 0)
  tailSize : UInt64 := 0
  userDefinedTimestampsPersisted : Bool := true
deriving DecidableEq, Repr

structure BlobFileAddition where
  blobFileNumber : UInt64
  totalBlobCount : UInt64
  totalBlobBytes : UInt64
  checksumMethod : List UInt8
  checksumValue : List UInt8
deriving DecidableEq, Repr

structure BlobFileGarbage where
  blobFileNumber : UInt64
  garbageBlobCount : UInt64
  garbageBlobBytes : UInt64
deriving DecidableEq, Repr

/-- `WalMetadata::kUnknownWalSize` -/
def kUnknownWalSize : UInt64 := 0xFFFFFFFFFFFFFFFF

/-- `WalAddition`: the log number and its `WalMetadata`'s synced size -/
structure WalAddition where
  number : UInt64
  syncedSize : UInt64 := kUnknownWalSize
deriving DecidableEq, Repr

/-- `WalDeletion`; `number = kEmpty = 0` is no deletion -/
structure WalDeletion where
  number : UInt64 := 0
deriving DecidableEq, Repr

/-- the members of `VersionEdit` with their initializers; a level is an `int` -/
structure VersionEdit where
  maxLevel : Int32 := 0
  dbId : List UInt8 := []
  comparator : List UInt8 := []
  logNumber : UInt64 := 0
  prevLogNumber : UInt64 := 0
  nextFileNumber : UInt64 := 0
  maxColumnFamily : UInt32 := 0
  minLogNumberToKeep : UInt64 := 0
  lastSequence : UInt64 := 0
  hasDbId : Bool := false
  hasComparator : Bool := false
  hasLogNumber : Bool := false
  hasPrevLogNumber : Bool := false
  hasNextFileNumber : Bool := false
  hasMaxColumnFamily : Bool := false
  hasMinLogNumberToKeep : Bool := false
  hasLastSequence : Bool := false
  hasPersistUserDefinedTimestamps : Bool := false
  compactCursors : List (Int32 × InternalKey) := []
  /-- a `std::set<std::pair<int, uint64_t>>`, kept in its order by `insertDeletedFile` -/
  deletedFiles : List (Int32 × UInt64) := []
  newFiles : List (Int32 × FileMetaData) := []
  blobFileAdditions : List BlobFileAddition := []
  blobFileGarbages : List BlobFileGarbage := []
  walAdditions : List WalAddition := []
  walDeletion : WalDeletion := {}
  columnFamily : UInt32 := 0
  isColumnFamilyDrop : Bool := false
  isColumnFamilyAdd : Bool := false
  columnFamilyName : List UInt8 := []
  isInAtomicGroup : Bool := false
  remainingEntries : UInt32 := 0
  fullHistoryTsLow : List UInt8 := []
  persistUserDefinedTimestamps : Bool := true
deriving DecidableEq, Repr

/-- `VersionEdit::Clear()`: every member back to its initializer but the two of the persist flag -/
def VersionEdit.clear (ve : VersionEdit) : VersionEdit :=
  { ve with
    maxLevel := 0, dbId := [], comparator := [], logNumber := 0, prevLogNumber := 0, nextFileNumber := 0,
    maxColumnFamily := 0, minLogNumberToKeep := 0, lastSequence := 0, hasDbId := false, hasComparator := false,
    hasLogNumber := false, hasPrevLogNumber := false, hasNextFileNumber := false, hasMaxColumnFamily := false,
    hasMinLogNumberToKeep := false, hasLastSequence := false, compactCursors := [], deletedFiles := [],
    newFiles := [], blobFileAdditions := [], blobFileGarbages := [], walAdditions := [], walDeletion := {},
    columnFamily := 0, isColumnFamilyAdd := false, isColumnFamilyDrop := false, columnFamilyName := [],
    isInAtomicGroup := false, remainingEntries := 0, fullHistoryTsLow := [] }

/-- the order of `std::pair<int, uint64_t>` -/
def deletedFileLt (a b : Int32 × UInt64) : Bool := a.1 < b.1 || (a.1 == b.1 && a.2 < b.2)

/-- `deleted_files_.insert`: a set, so a pair already there is not added again -/
def insertDeletedFile (x : Int32 × UInt64) : List (Int32 × UInt64) → List (Int32 × UInt64)
  | [] => [x]
  | y :: ys => if x = y then y :: ys else if deletedFileLt x y then x :: y :: ys else y :: insertDeletedFile x ys

/-! ## Tags -/

/-- `enum Tag` of `version_edit.h`, without `kTagSafeIgnoreMask`, which no record is written under -/
inductive Tag where
  | kComparator | kLogNumber | kNextFileNumber | kLastSequence | kCompactCursor | kDeletedFile | kNewFile
  | kPrevLogNumber | kMinLogNumberToKeep | kNewFile2 | kNewFile3 | kNewFile4 | kColumnFamily | kColumnFamilyAdd
  | kColumnFamilyDrop | kMaxColumnFamily | kInAtomicGroup | kBlobFileAddition | kBlobFileGarbage | kDbId
  | kBlobFileAddition_DEPRECATED | kBlobFileGarbage_DEPRECATED | kWalAddition | kWalDeletion | kFullHistoryTsLow
  | kWalAddition2 | kWalDeletion2 | kPersistUserDefinedTimestamps
deriving DecidableEq, Repr

def kTagSafeIgnoreMask : UInt32 := 8192

def Tag.toUInt32 : Tag → UInt32
  | .kComparator => 1
  | .kLogNumber => 2
  | .kNextFileNumber => 3
  | .kLastSequence => 4
  | .kCompactCursor => 5
  | .kDeletedFile => 6
  | .kNewFile => 7
  | .kPrevLogNumber => 9
  | .kMinLogNumberToKeep => 10
  | .kNewFile2 => 100
  | .kNewFile3 => 102
  | .kNewFile4 => 103
  | .kColumnFamily => 200
  | .kColumnFamilyAdd => 201
  | .kColumnFamilyDrop => 202
  | .kMaxColumnFamily => 203
  | .kInAtomicGroup => 300
  | .kBlobFileAddition => 400
  | .kBlobFileGarbage => 401
  | .kDbId => 8193
  | .kBlobFileAddition_DEPRECATED => 8194
  | .kBlobFileGarbage_DEPRECATED => 8195
  | .kWalAddition => 8196
  | .kWalDeletion => 8197
  | .kFullHistoryTsLow => 8198
  | .kWalAddition2 => 8199
  | .kWalDeletion2 => 8200
  | .kPersistUserDefinedTimestamps => 8201

/-- the case of the tag switch of `DecodeFrom` a tag reaches, `none` for its `default` -/
def Tag.ofUInt32? (t : UInt32) : Option Tag :=
  match t.toNat with
  | 1 => some .kComparator
  | 2 => some .kLogNumber
  | 3 => some .kNextFileNumber
  | 4 => some .kLastSequence
  | 5 => some .kCompactCursor
  | 6 => some .kDeletedFile
  | 7 => some .kNewFile
  | 9 => some .kPrevLogNumber
  | 10 => some .kMinLogNumberToKeep
  | 100 => some .kNewFile2
  | 102 => some .kNewFile3
  | 103 => some .kNewFile4
  | 200 => some .kColumnFamily
  | 201 => some .kColumnFamilyAdd
  | 202 => some .kColumnFamilyDrop
  | 203 => some .kMaxColumnFamily
  | 300 => some .kInAtomicGroup
  | 400 => some .kBlobFileAddition
  | 401 => some .kBlobFileGarbage
  | 8193 => some .kDbId
  | 8194 => some .kBlobFileAddition_DEPRECATED
  | 8195 => some .kBlobFileGarbage_DEPRECATED
  | 8196 => some .kWalAddition
  | 8197 => some .kWalDeletion
  | 8198 => some .kFullHistoryTsLow
  | 8199 => some .kWalAddition2
  | 8200 => some .kWalDeletion2
  | 8201 => some .kPersistUserDefinedTimestamps
  | _ => none

/-- `enum NewFileCustomTag` -/
inductive NewFileCustomTag where
  | kTerminate | kNeedCompaction | kMinLogNumberToKeepHack | kOldestBlobFileNumber | kOldestAncesterTime
  | kFileCreationTime | kFileChecksum | kFileChecksumFuncName | kTemperature | kMinTimestamp | kMaxTimestamp
  | kUniqueId | kEpochNumber | kCompensatedRangeDeletionSize | kTailSize | kUserDefinedTimestampsPersisted | kPathId
deriving DecidableEq, Repr

/-- `kCustomTagNonSafeIgnoreMask` -/
def kCustomTagNonSafeIgnoreMask : UInt32 := 64

def NewFileCustomTag.toUInt32 : NewFileCustomTag → UInt32
  | .kTerminate => 1
  | .kNeedCompaction => 2
  | .kMinLogNumberToKeepHack => 3
  | .kOldestBlobFileNumber => 4
  | .kOldestAncesterTime => 5
  | .kFileCreationTime => 6
  | .kFileChecksum => 7
  | .kFileChecksumFuncName => 8
  | .kTemperature => 9
  | .kMinTimestamp => 10
  | .kMaxTimestamp => 11
  | .kUniqueId => 12
  | .kEpochNumber => 13
  | .kCompensatedRangeDeletionSize => 14
  | .kTailSize => 15
  | .kUserDefinedTimestampsPersisted => 16
  | .kPathId => 65

/-- the case of the custom-field switch of `DecodeNewFile4From` a tag reaches -/
def NewFileCustomTag.ofUInt32? (t : UInt32) : Option NewFileCustomTag :=
  match t.toNat with
  | 1 => some .kTerminate
  | 2 => some .kNeedCompaction
  | 3 => some .kMinLogNumberToKeepHack
  | 4 => some .kOldestBlobFileNumber
  | 5 => some .kOldestAncesterTime
  | 6 => some .kFileCreationTime
  | 7 => some .kFileChecksum
  | 8 => some .kFileChecksumFuncName
  | 9 => some .kTemperature
  | 10 => some .kMinTimestamp
  | 11 => some .kMaxTimestamp
  | 12 => some .kUniqueId
  | 13 => some .kEpochNumber
  | 14 => some .kCompensatedRangeDeletionSize
  | 15 => some .kTailSize
  | 16 => some .kUserDefinedTimestampsPersisted
  | 65 => some .kPathId
  | _ => none

/-! ## EncodeTo -/

/-- `PutVarint32(dst, tag)` -/
def putTag (t : Tag) : List UInt8 := putVarint32 t.toUInt32

/-- `EncodeFileBoundaries`: the boundaries without their timestamps when timestamps are not persisted -/
def encodeFileBoundaries (f : FileMetaData) (tsSz : ℕ) : List UInt8 :=
  if tsSz = 0 ∨ f.userDefinedTimestampsPersisted then
    putLengthPrefixedSlice f.smallest.rep ++ putLengthPrefixedSlice f.largest.rep
  else
    putLengthPrefixedSlice (stripTimestampFromInternalKey f.smallest.rep tsSz) ++
      putLengthPrefixedSlice (stripTimestampFromInternalKey f.largest.rep tsSz)

/-- a custom field of a new file: its tag, then the field as a length-prefixed slice -/
def putCustomField (t : NewFileCustomTag) (field : List UInt8) : List UInt8 :=
  putVarint32 t.toUInt32 ++ putLengthPrefixedSlice field

/-- `EncodeUniqueIdBytes` of a `UniqueId64x2` -/
def encodeUniqueIdBytes (id : UInt64 × UInt64) : List UInt8 := encodeFixed64 id.1.toNat ++ encodeFixed64 id.2.toNat

/-- one `kNewFile4` record; `minLogHack` is the min log number to keep, written with the first file only -/
def encodeNewFile4 (tsSz : ℕ) (minLogHack : Option UInt64) (level : Int32) (f : FileMetaData) : List UInt8 :=
  putTag .kNewFile4 ++ putVarint32 level.toUInt32 ++ putVarint64 f.fd.getNumber ++ putVarint64 f.fd.getFileSize ++
    encodeFileBoundaries f tsSz ++ putVarint64 f.fd.smallestSeqno ++ putVarint64 f.fd.largestSeqno ++
    putCustomField .kOldestAncesterTime (putVarint64 f.oldestAncesterTime) ++
    putCustomField .kFileCreationTime (putVarint64 f.fileCreationTime) ++
    putCustomField .kEpochNumber (putVarint64 f.epochNumber) ++
    putCustomField .kFileChecksum f.fileChecksum ++
    putCustomField .kFileChecksumFuncName f.fileChecksumFuncName ++
    (if f.fd.getPathId ≠ 0 then putCustomField .kPathId [f.fd.getPathId.toUInt8] else []) ++
    (if f.temperature ≠ 0 then putCustomField .kTemperature [f.temperature] else []) ++
    (if f.markedForCompaction then putCustomField .kNeedCompaction [1] else []) ++
    (match minLogHack with
      | some n => putCustomField .kMinLogNumberToKeepHack (encodeFixed64 n.toNat)
      | none => []) ++
    (if f.oldestBlobFileNumber ≠ 0 then putCustomField .kOldestBlobFileNumber (putVarint64 f.oldestBlobFileNumber)
      else []) ++
    (if f.uniqueId ≠ (0, 0) then putCustomField .kUniqueId (encodeUniqueIdBytes f.uniqueId) else []) ++
    (if f.compensatedRangeDeletionSize ≠ 0 then
      putCustomField .kCompensatedRangeDeletionSize (putVarint64 f.compensatedRangeDeletionSize) else []) ++
    (if f.tailSize ≠ 0 then putCustomField .kTailSize (putVarint64 f.tailSize) else []) ++
    (if !f.userDefinedTimestampsPersisted then putCustomField .kUserDefinedTimestampsPersisted [0] else []) ++
    putVarint32 NewFileCustomTag.kTerminate.toUInt32

/-- the loop over `new_files_`: it returns false at the first file with an invalid boundary or an unknown epoch
number, after the bytes of the files before it -/
def encodeNewFiles (tsSz : ℕ) (minLogHack : Option UInt64) : List (Int32 × FileMetaData) → Bool × List UInt8
  | [] => (true, [])
  | (level, f) :: rest =>
    if !f.smallest.valid || !f.largest.valid || f.epochNumber = kUnknownEpochNumber then (false, [])
    else
      let r := encodeNewFiles tsSz none rest
      (r.1, encodeNewFile4 tsSz minLogHack level f ++ r.2)

def BlobFileAddition.encodeTo (a : BlobFileAddition) : List UInt8 :=
  putVarint64 a.blobFileNumber ++ putVarint64 a.totalBlobCount ++ putVarint64 a.totalBlobBytes ++
    putLengthPrefixedSlice a.checksumMethod ++ putLengthPrefixedSlice a.checksumValue ++ putVarint32 0

def BlobFileGarbage.encodeTo (g : BlobFileGarbage) : List UInt8 :=
  putVarint64 g.blobFileNumber ++ putVarint64 g.garbageBlobCount ++ putVarint64 g.garbageBlobBytes ++ putVarint32 0

/-- `WalAddition::EncodeTo`: the synced size under tag `kSyncedSize = 2` when known, then `kTerminate = 1` -/
def WalAddition.encodeTo (w : WalAddition) : List UInt8 :=
  putVarint64 w.number ++ (if w.syncedSize ≠ kUnknownWalSize then putVarint32 2 ++ putVarint64 w.syncedSize else []) ++
    putVarint32 1

def WalDeletion.encodeTo (w : WalDeletion) : List UInt8 := putVarint64 w.number

/-- the records `EncodeTo` writes before the new files -/
def VersionEdit.encodeHeader (ve : VersionEdit) : List UInt8 :=
  (if ve.hasDbId then putTag .kDbId ++ putLengthPrefixedSlice ve.dbId else []) ++
  (if ve.hasComparator then putTag .kComparator ++ putLengthPrefixedSlice ve.comparator else []) ++
  (if ve.hasLogNumber then putTag .kLogNumber ++ putVarint64 ve.logNumber else []) ++
  (if ve.hasPrevLogNumber then putTag .kPrevLogNumber ++ putVarint64 ve.prevLogNumber else []) ++
  (if ve.hasNextFileNumber then putTag .kNextFileNumber ++ putVarint64 ve.nextFileNumber else []) ++
  (if ve.hasMaxColumnFamily then putTag .kMaxColumnFamily ++ putVarint32 ve.maxColumnFamily else []) ++
  (if ve.hasMinLogNumberToKeep then putTag .kMinLogNumberToKeep ++ putVarint64 ve.minLogNumberToKeep else []) ++
  (if ve.hasLastSequence then putTag .kLastSequence ++ putVarint64 ve.lastSequence else []) ++
  (ve.compactCursors.filter (fun c => c.2.valid)).flatMap (fun c =>
    putTag .kCompactCursor ++ putVarint32 c.1.toUInt32 ++ putLengthPrefixedSlice c.2.rep) ++
  ve.deletedFiles.flatMap (fun d => putTag .kDeletedFile ++ putVarint32 d.1.toUInt32 ++ putVarint64 d.2)

/-- the records `EncodeTo` writes after the new files -/
def VersionEdit.encodeTrailer (ve : VersionEdit) : List UInt8 :=
  ve.blobFileAdditions.flatMap (fun a => putTag .kBlobFileAddition ++ a.encodeTo) ++
  ve.blobFileGarbages.flatMap (fun g => putTag .kBlobFileGarbage ++ g.encodeTo) ++
  ve.walAdditions.flatMap (fun w => putTag .kWalAddition2 ++ putLengthPrefixedSlice w.encodeTo) ++
  (if ve.walDeletion.number ≠ 0 then putTag .kWalDeletion2 ++ putLengthPrefixedSlice ve.walDeletion.encodeTo
    else []) ++
  (if ve.columnFamily ≠ 0 then putTag .kColumnFamily ++ putVarint32 ve.columnFamily else []) ++
  (if ve.isColumnFamilyAdd then putTag .kColumnFamilyAdd ++ putLengthPrefixedSlice ve.columnFamilyName else []) ++
  (if ve.isColumnFamilyDrop then putTag .kColumnFamilyDrop else []) ++
  (if ve.isInAtomicGroup then putTag .kInAtomicGroup ++ putVarint32 ve.remainingEntries else []) ++
  (if ve.fullHistoryTsLow ≠ [] then putTag .kFullHistoryTsLow ++ putLengthPrefixedSlice ve.fullHistoryTsLow
    else []) ++
  (if ve.hasPersistUserDefinedTimestamps then
    putTag .kPersistUserDefinedTimestamps ++ putLengthPrefixedSlice [if ve.persistUserDefinedTimestamps then 1 else 0]
    else [])

/-- `VersionEdit::EncodeTo(dst, ts_sz)`: whether it succeeded and the bytes it appended; `ts_sz` is the value of
the optional, which its assertion requires whenever a new file is present -/
def VersionEdit.encodeTo (ve : VersionEdit) (tsSz : ℕ) : Bool × List UInt8 :=
  let files := encodeNewFiles tsSz (if ve.hasMinLogNumberToKeep then some ve.minLogNumberToKeep else none) ve.newFiles
  if files.1 then (true, ve.encodeHeader ++ files.2 ++ ve.encodeTrailer) else (false, ve.encodeHeader ++ files.2)

/-! ## The records' own DecodeFrom -/

/-- the custom fields after a blob file record's fixed ones, up to `kEndMarker = 0`; a field in the forward
incompatible range (`kForwardIncompatibleMask = 1 << 6`) is refused -/
def skipBlobCustomFields (className : String) (input : List UInt8) : Except Status (List UInt8) :=
  match _hv : getVarint32 input with
  | none => .error (.corruption (className ++ ": Error decoding custom field tag"))
  | some (tag, rest) =>
    if tag = 0 then .ok rest
    else if tag &&& 64 ≠ 0 then .error (.corruption (className ++ ": Forward incompatible custom field encountered"))
    else
      match _hs : getLengthPrefixedSlice rest with
      | none => .error (.corruption (className ++ ": Error decoding custom field value"))
      | some (_, rest') => skipBlobCustomFields className rest'
termination_by input.length
decreasing_by
  have := getVarint32_length _hv
  have := getLengthPrefixedSlice_length _hs
  omega

def BlobFileAddition.decodeFrom (input : List UInt8) : Except Status (BlobFileAddition × List UInt8) := do
  let some (blobFileNumber, input) := getVarint64 input
    | .error (.corruption "BlobFileAddition: Error decoding blob file number")
  let some (totalBlobCount, input) := getVarint64 input
    | .error (.corruption "BlobFileAddition: Error decoding total blob count")
  let some (totalBlobBytes, input) := getVarint64 input
    | .error (.corruption "BlobFileAddition: Error decoding total blob bytes")
  let some (checksumMethod, input) := getLengthPrefixedSlice input
    | .error (.corruption "BlobFileAddition: Error decoding checksum method")
  let some (checksumValue, input) := getLengthPrefixedSlice input
    | .error (.corruption "BlobFileAddition: Error decoding checksum value")
  let input ← skipBlobCustomFields "BlobFileAddition" input
  return (⟨blobFileNumber, totalBlobCount, totalBlobBytes, checksumMethod, checksumValue⟩, input)

def BlobFileGarbage.decodeFrom (input : List UInt8) : Except Status (BlobFileGarbage × List UInt8) := do
  let some (blobFileNumber, input) := getVarint64 input
    | .error (.corruption "BlobFileGarbage: Error decoding blob file number")
  let some (garbageBlobCount, input) := getVarint64 input
    | .error (.corruption "BlobFileGarbage: Error decoding garbage blob count")
  let some (garbageBlobBytes, input) := getVarint64 input
    | .error (.corruption "BlobFileGarbage: Error decoding garbage blob bytes")
  let input ← skipBlobCustomFields "BlobFileGarbage" input
  return (⟨blobFileNumber, garbageBlobCount, garbageBlobBytes⟩, input)

/-- the tag loop of `WalAddition::DecodeFrom`: `kSyncedSize = 2` sets the synced size, `kTerminate = 1` ends -/
def walAdditionTags (syncedSize : UInt64) (input : List UInt8) : Except Status (UInt64 × List UInt8) :=
  match _hv : getVarint32 input with
  | none => .error (.corruption "WalAddition: Error decoding tag")
  | some (tag, rest) =>
    if tag = 2 then
      match _hs : getVarint64 rest with
      | none => .error (.corruption "WalAddition: Error decoding WAL file size")
      | some (size, rest') => walAdditionTags size rest'
    else if tag = 1 then .ok (syncedSize, rest)
    else .error (.corruption ("WalAddition: Unknown tag " ++ toString tag.toNat))
termination_by input.length
decreasing_by
  have := getVarint32_length _hv
  have := getVarint64_length _hs
  omega

def WalAddition.decodeFrom (input : List UInt8) : Except Status (WalAddition × List UInt8) := do
  let some (number, input) := getVarint64 input
    | .error (.corruption "WalAddition: Error decoding WAL log number")
  let (syncedSize, input) ← walAdditionTags kUnknownWalSize input
  return (⟨number, syncedSize⟩, input)

def WalDeletion.decodeFrom (input : List UInt8) : Except Status (WalDeletion × List UInt8) := do
  let some (number, input) := getVarint64 input
    | .error (.corruption "WalDeletion: Error decoding WAL log number")
  return (⟨number⟩, input)

/-! ## DecodeFrom -/

/-- one turn of the tag loop: go on with the edit and the rest of the input, stop with `msg` set, or return a
record's failed status -/
inductive DecodeStep where
  | next (ve : VersionEdit) (input : List UInt8)
  | fail (ve : VersionEdit) (msg : String)
  | stop (ve : VersionEdit) (s : Status)

/-- `GetInternalKey`: a length-prefixed key that must be `Valid` -/
def getInternalKey (input : List UInt8) : Option (InternalKey × List UInt8) :=
  match getLengthPrefixedSlice input with
  | some (rep, rest) => if (InternalKey.mk rep).valid then some (⟨rep⟩, rest) else none
  | none => none

/-- `VersionEdit::GetLevel`: a `uint32_t` read into an `int`; `max_level_` follows the greatest level read -/
def VersionEdit.getLevel (ve : VersionEdit) (input : List UInt8) : Option (Int32 × VersionEdit × List UInt8) :=
  match getVarint32 input with
  | some (v, rest) =>
    let level := v.toInt32
    some (level, if ve.maxLevel < level then { ve with maxLevel := level } else ve, rest)
  | none => none

/-- the cases that read one field with `reader` and store it with `set`, or stop with `msg` -/
def decodeField {α : Type} (reader : List UInt8 → Option (α × List UInt8)) (set : VersionEdit → α → VersionEdit)
    (msg : String) (ve : VersionEdit) (input : List UInt8) : DecodeStep :=
  match reader input with
  | some (a, rest) => .next (set ve a) rest
  | none => .fail ve msg

/-- the cases that read a level and then a record with `reader` (a compaction cursor, a deleted file, the new files
of the first three formats) -/
def decodeLevelled {α : Type} (reader : List UInt8 → Option (α × List UInt8))
    (add : VersionEdit → Int32 → α → VersionEdit) (msg : String) (ve : VersionEdit) (input : List UInt8) :
    DecodeStep :=
  match ve.getLevel input with
  | some (level, ve, rest) => decodeField reader (fun ve a => add ve level a) msg ve rest
  | none => .fail ve msg

/-- the cases whose record decodes itself: its failed status is returned as is -/
def decodeRecord {α : Type} (decode : List UInt8 → Except Status (α × List UInt8))
    (add : VersionEdit → α → VersionEdit) (ve : VersionEdit) (input : List UInt8) : DecodeStep :=
  match decode input with
  | .ok (a, rest) => .next (add ve a) rest
  | .error s => .stop ve s

/-- the cases of a record inside a length-prefixed slice; what follows the record in the slice is skipped -/
def decodePrefixedRecord {α : Type} (decode : List UInt8 → Except Status (α × List UInt8))
    (add : VersionEdit → α → VersionEdit) (msg : String) (ve : VersionEdit) (input : List UInt8) : DecodeStep :=
  match getLengthPrefixedSlice input with
  | some (encoded, rest) =>
    match decode encoded with
    | .ok (a, _) => .next (add ve a) rest
    | .error s => .stop ve s
  | none => .fail ve msg

/-- number, size and boundaries of a `kNewFile` record -/
def readNewFile (input : List UInt8) : Option (FileMetaData × List UInt8) := do
  let (number, input) ← getVarint64 input
  let (fileSize, input) ← getVarint64 input
  let (smallest, input) ← getInternalKey input
  let (largest, input) ← getInternalKey input
  return ({ fd := FileDescriptor.create number 0 fileSize, smallest, largest }, input)

/-- a `kNewFile2` record: a `kNewFile` one with its sequence numbers -/
def readNewFile2 (input : List UInt8) : Option (FileMetaData × List UInt8) := do
  let (number, input) ← getVarint64 input
  let (fileSize, input) ← getVarint64 input
  let (smallest, input) ← getInternalKey input
  let (largest, input) ← getInternalKey input
  let (smallestSeqno, input) ← getVarint64 input
  let (largestSeqno, input) ← getVarint64 input
  return ({ fd := FileDescriptor.create number 0 fileSize smallestSeqno largestSeqno, smallest, largest }, input)

/-- a `kNewFile3` record: a `kNewFile2` one with a path id after the number -/
def readNewFile3 (input : List UInt8) : Option (FileMetaData × List UInt8) := do
  let (number, input) ← getVarint64 input
  let (pathId, input) ← getVarint32 input
  let (fileSize, input) ← getVarint64 input
  let (smallest, input) ← getInternalKey input
  let (largest, input) ← getInternalKey input
  let (smallestSeqno, input) ← getVarint64 input
  let (largestSeqno, input) ← getVarint64 input
  return ({ fd := FileDescriptor.create number pathId fileSize smallestSeqno largestSeqno, smallest, largest },
    input)

/-- the fixed part of a `kNewFile4` record after its level: number, size, boundaries, sequence numbers -/
def readNewFile4Header (input : List UInt8) :
    Option ((UInt64 × UInt64 × InternalKey × InternalKey × UInt64 × UInt64) × List UInt8) := do
  let (number, input) ← getVarint64 input
  let (fileSize, input) ← getVarint64 input
  let (smallest, input) ← getInternalKey input
  let (largest, input) ← getInternalKey input
  let (smallestSeqno, input) ← getVarint64 input
  let (largestSeqno, input) ← getVarint64 input
  return ((number, fileSize, smallest, largest, smallestSeqno, largestSeqno), input)

/-- `DecodeUniqueIdBytes` into a `UniqueId64x2` -/
def decodeUniqueIdBytes (field : List UInt8) : Option (UInt64 × UInt64) :=
  if field.length = 16 then some (UInt64.ofNat (decodeFixed64 field), UInt64.ofNat (decodeFixed64 (field.drop 8)))
  else none

/-- a one-byte field read through `varint` or a `char` -/
def oneByte (field : List UInt8) : Option UInt8 :=
  match field with
  | [b] => some b
  | _ => none

/-- the switch over a custom field of a `kNewFile4` record: the edit (the min-log-number hack sets a member of it),
the file and its path id, or the message -/
def applyNewFile4Field (ve : VersionEdit) (f : FileMetaData) (pathId : UInt32) (tag : UInt32) (field : List UInt8) :
    Except String (VersionEdit × FileMetaData × UInt32) :=
  match NewFileCustomTag.ofUInt32? tag with
  | some .kPathId =>
    match oneByte field with
    | none => .error "path_id field wrong size"
    | some b => if b.toUInt32 > 3 then .error "path_id wrong vaue" else .ok (ve, f, b.toUInt32)
  | some .kOldestAncesterTime =>
    match getVarint64 field with
    | none => .error "invalid oldest ancester time"
    | some (v, _) => .ok (ve, { f with oldestAncesterTime := v }, pathId)
  | some .kFileCreationTime =>
    match getVarint64 field with
    | none => .error "invalid file creation time"
    | some (v, _) => .ok (ve, { f with fileCreationTime := v }, pathId)
  | some .kEpochNumber =>
    match getVarint64 field with
    | none => .error "invalid epoch number"
    | some (v, _) => .ok (ve, { f with epochNumber := v }, pathId)
  | some .kFileChecksum => .ok (ve, { f with fileChecksum := field }, pathId)
  | some .kFileChecksumFuncName => .ok (ve, { f with fileChecksumFuncName := field }, pathId)
  | some .kNeedCompaction =>
    match oneByte field with
    | none => .error "need_compaction field wrong size"
    | some b => .ok (ve, { f with markedForCompaction := b == 1 }, pathId)
  | some .kMinLogNumberToKeepHack =>
    match getFixed64 field with
    | none => .error "deleted log number malformatted"
    | some (v, _) => .ok ({ ve with minLogNumberToKeep := UInt64.ofNat v, hasMinLogNumberToKeep := true }, f, pathId)
  | some .kOldestBlobFileNumber =>
    match getVarint64 field with
    | none => .error "invalid oldest blob file number"
    | some (v, _) => .ok (ve, { f with oldestBlobFileNumber := v }, pathId)
  | some .kTemperature =>
    match oneByte field with
    | none => .error "temperature field wrong size"
    -- a byte above `kCold = 0x0C` leaves the temperature as it was
    | some b => .ok (ve, if b ≤ 0x0C then { f with temperature := b } else f, pathId)
  | some .kUniqueId =>
    match decodeUniqueIdBytes field with
    | none => .error "invalid unique id"
    | some id => .ok (ve, { f with uniqueId := id }, pathId)
  | some .kCompensatedRangeDeletionSize =>
    match getVarint64 field with
    | none => .error "Invalid compensated range deletion size"
    | some (v, _) => .ok (ve, { f with compensatedRangeDeletionSize := v }, pathId)
  | some .kTailSize =>
    match getVarint64 field with
    | none => .error "invalid tail start offset"
    | some (v, _) => .ok (ve, { f with tailSize := v }, pathId)
  | some .kUserDefinedTimestampsPersisted =>
    match oneByte field with
    | none => .error "user-defined timestamps persisted field wrong size"
    | some b => .ok (ve, { f with userDefinedTimestampsPersisted := b == 1 }, pathId)
  -- `kMinTimestamp`, `kMaxTimestamp` and the tags from the future reach the default case
  | _ => if tag &&& kCustomTagNonSafeIgnoreMask ≠ 0 then .error "new-file4 custom field not supported"
    else .ok (ve, f, pathId)

/-- the custom field loop of `DecodeNewFile4From`, up to `kTerminate` -/
def newFile4CustomFields (ve : VersionEdit) (f : FileMetaData) (pathId : UInt32) (input : List UInt8) :
    Except (VersionEdit × String) (VersionEdit × FileMetaData × UInt32 × List UInt8) :=
  match _hv : getVarint32 input with
  | none => .error (ve, "new-file4 custom field")
  | some (tag, rest) =>
    if tag = NewFileCustomTag.kTerminate.toUInt32 then .ok (ve, f, pathId, rest)
    else
      match _hs : getLengthPrefixedSlice rest with
      | none => .error (ve, "new-file4 custom field length prefixed slice error")
      | some (field, rest') =>
        match applyNewFile4Field ve f pathId tag field with
        | .error msg => .error (ve, msg)
        | .ok (ve', f', pathId') => newFile4CustomFields ve' f' pathId' rest'
termination_by input.length
decreasing_by
  have := getVarint32_length _hv
  have := getLengthPrefixedSlice_length _hs
  omega

/-- `VersionEdit::DecodeNewFile4From` -/
def VersionEdit.decodeNewFile4From (ve : VersionEdit) (input : List UInt8) : DecodeStep :=
  match ve.getLevel input with
  | none => .fail ve "new-file4 entry"
  | some (level, ve, input) =>
    match readNewFile4Header input with
    | none => .fail ve "new-file4 entry"
    | some ((number, fileSize, smallest, largest, smallestSeqno, largestSeqno), input) =>
      match newFile4CustomFields ve { smallest, largest } 0 input with
      | .error (ve, msg) => .fail ve msg
      | .ok (ve, f, pathId, input) =>
        let f := { f with fd := FileDescriptor.create number pathId fileSize smallestSeqno largestSeqno }
        .next { ve with newFiles := ve.newFiles ++ [(level, f)] } input

/-- the `default` case: a tag with `kTagSafeIgnoreMask` set is skipped by its length, any other is unknown -/
def decodeUnknownTag (tag : UInt32) (ve : VersionEdit) (input : List UInt8) : DecodeStep :=
  if tag &&& kTagSafeIgnoreMask ≠ 0 then
    match getVarint32 input with
    | some (fieldLen, rest) =>
      if fieldLen.toNat > rest.length then .fail ve "safely ignoreable tag length error"
      else .next ve (rest.drop fieldLen.toNat)
    | none => .fail ve "safely ignoreable tag length error"
  else .fail ve "unknown tag"

/-- one case of the tag switch of `DecodeFrom` -/
def decodeTag (tag : UInt32) (ve : VersionEdit) (input : List UInt8) : DecodeStep :=
  match Tag.ofUInt32? tag with
  | some .kDbId => decodeField getLengthPrefixedSlice (fun ve s => { ve with dbId := s, hasDbId := true })
      "db id" ve input
  | some .kComparator => decodeField getLengthPrefixedSlice
      (fun ve s => { ve with comparator := s, hasComparator := true }) "comparator name" ve input
  | some .kLogNumber => decodeField getVarint64 (fun ve v => { ve with logNumber := v, hasLogNumber := true })
      "log number" ve input
  | some .kPrevLogNumber => decodeField getVarint64
      (fun ve v => { ve with prevLogNumber := v, hasPrevLogNumber := true }) "previous log number" ve input
  | some .kNextFileNumber => decodeField getVarint64
      (fun ve v => { ve with nextFileNumber := v, hasNextFileNumber := true }) "next file number" ve input
  | some .kMaxColumnFamily => decodeField getVarint32
      (fun ve v => { ve with maxColumnFamily := v, hasMaxColumnFamily := true }) "max column family" ve input
  | some .kMinLogNumberToKeep => decodeField getVarint64
      (fun ve v => { ve with minLogNumberToKeep := v, hasMinLogNumberToKeep := true }) "min log number to kee"
      ve input
  | some .kLastSequence => decodeField getVarint64
      (fun ve v => { ve with lastSequence := v, hasLastSequence := true }) "last sequence number" ve input
  | some .kCompactCursor => decodeLevelled getInternalKey
      (fun ve level key => { ve with compactCursors := ve.compactCursors ++ [(level, key)] }) "compaction cursor"
      ve input
  | some .kDeletedFile => decodeLevelled getVarint64
      (fun ve level number => { ve with deletedFiles := insertDeletedFile (level, number) ve.deletedFiles })
      "deleted file" ve input
  | some .kNewFile => decodeLevelled readNewFile
      (fun ve level f => { ve with newFiles := ve.newFiles ++ [(level, f)] }) "new-file entry" ve input
  | some .kNewFile2 => decodeLevelled readNewFile2
      (fun ve level f => { ve with newFiles := ve.newFiles ++ [(level, f)] }) "new-file2 entry" ve input
  | some .kNewFile3 => decodeLevelled readNewFile3
      (fun ve level f => { ve with newFiles := ve.newFiles ++ [(level, f)] }) "new-file3 entry" ve input
  | some .kNewFile4 => ve.decodeNewFile4From input
  | some .kBlobFileAddition | some .kBlobFileAddition_DEPRECATED => decodeRecord BlobFileAddition.decodeFrom
      (fun ve a => { ve with blobFileAdditions := ve.blobFileAdditions ++ [a] }) ve input
  | some .kBlobFileGarbage | some .kBlobFileGarbage_DEPRECATED => decodeRecord BlobFileGarbage.decodeFrom
      (fun ve g => { ve with blobFileGarbages := ve.blobFileGarbages ++ [g] }) ve input
  | some .kWalAddition => decodeRecord WalAddition.decodeFrom
      (fun ve w => { ve with walAdditions := ve.walAdditions ++ [w] }) ve input
  | some .kWalAddition2 => decodePrefixedRecord WalAddition.decodeFrom
      (fun ve w => { ve with walAdditions := ve.walAdditions ++ [w] }) "WalAddition not prefixed by length" ve input
  | some .kWalDeletion => decodeRecord WalDeletion.decodeFrom (fun ve w => { ve with walDeletion := w }) ve input
  | some .kWalDeletion2 => decodePrefixedRecord WalDeletion.decodeFrom (fun ve w => { ve with walDeletion := w })
      "WalDeletion not prefixed by length" ve input
  | some .kColumnFamily => decodeField getVarint32 (fun ve v => { ve with columnFamily := v })
      "set column family id" ve input
  | some .kColumnFamilyAdd => decodeField getLengthPrefixedSlice
      (fun ve s => { ve with isColumnFamilyAdd := true, columnFamilyName := s }) "column family add" ve input
  | some .kColumnFamilyDrop => .next { ve with isColumnFamilyDrop := true } input
  -- the flag is set before the count is read
  | some .kInAtomicGroup => decodeField getVarint32 (fun ve v => { ve with remainingEntries := v })
      "remaining entries" { ve with isInAtomicGroup := true } input
  | some .kFullHistoryTsLow =>
    match getLengthPrefixedSlice input with
    | none => .fail ve "full_history_ts_low"
    | some ([], _) => .fail ve "full_history_ts_low: empty"
    | some (s, rest) => .next { ve with fullHistoryTsLow := s } rest
  | some .kPersistUserDefinedTimestamps =>
    match getLengthPrefixedSlice input with
    | none => .fail ve "persist_user_defined_timestamps"
    | some ([b], rest) =>
      .next { ve with persistUserDefinedTimestamps := b == 1, hasPersistUserDefinedTimestamps := true } rest
    | some (_, _) => .fail ve "persist_user_defined_timestamps field wrong size"
  | none => decodeUnknownTag tag ve input

/-- what a turn can leave of the input: no more than it was given -/
def DecodeStep.Within (bound : ℕ) : DecodeStep → Prop
  | .next _ rest => rest.length ≤ bound
  | .fail _ _ => True
  | .stop _ _ => True

/-- a reader that consumes at least one byte whenever it succeeds -/
def Shrinks {α : Type} (reader : List UInt8 → Option (α × List UInt8)) : Prop :=
  ∀ {input : List UInt8} {a : α} {rest : List UInt8}, reader input = some (a, rest) → rest.length < input.length

/-- a record decoder that never hands back more input than it was given -/
def DecoderWithin {α : Type} (decode : List UInt8 → Except Status (α × List UInt8)) : Prop :=
  ∀ {input : List UInt8} {a : α} {rest : List UInt8}, decode input = .ok (a, rest) → rest.length ≤ input.length

section readers

theorem getVarint32_shrinks : Shrinks getVarint32 := getVarint32_length

theorem getVarint64_shrinks : Shrinks getVarint64 := getVarint64_length

theorem getLengthPrefixedSlice_shrinks : Shrinks getLengthPrefixedSlice := getLengthPrefixedSlice_length

theorem getInternalKey_shrinks : Shrinks getInternalKey := by
  intro input k rest h
  rw [getInternalKey] at h
  split at h
  · rename_i rep r hs
    split_ifs at h
    cases h
    exact getLengthPrefixedSlice_length hs
  · cases h

theorem readNewFile_shrinks : Shrinks readNewFile := by
  intro input f rest h
  simp only [readNewFile, bind, Option.bind_eq_some_iff, pure, Option.some.injEq] at h
  obtain ⟨⟨number, r1⟩, h1, ⟨size, r2⟩, h2, ⟨s, r3⟩, h3, ⟨l, r4⟩, h4, h5⟩ := h
  dsimp only at h2 h3 h4 h5
  obtain ⟨-, rfl⟩ := Prod.mk.inj h5
  have := getVarint64_length h1
  have := getVarint64_length h2
  have := getInternalKey_shrinks h3
  have := getInternalKey_shrinks h4
  omega

theorem readNewFile2_shrinks : Shrinks readNewFile2 := by
  intro input f rest h
  simp only [readNewFile2, bind, Option.bind_eq_some_iff, pure, Option.some.injEq] at h
  obtain ⟨⟨number, r1⟩, h1, ⟨size, r2⟩, h2, ⟨s, r3⟩, h3, ⟨l, r4⟩, h4, ⟨q1, r5⟩, h5, ⟨q2, r6⟩, h6, h7⟩ := h
  dsimp only at h2 h3 h4 h5 h6 h7
  obtain ⟨-, rfl⟩ := Prod.mk.inj h7
  have := getVarint64_length h1
  have := getVarint64_length h2
  have := getInternalKey_shrinks h3
  have := getInternalKey_shrinks h4
  have := getVarint64_length h5
  have := getVarint64_length h6
  omega

theorem readNewFile3_shrinks : Shrinks readNewFile3 := by
  intro input f rest h
  simp only [readNewFile3, bind, Option.bind_eq_some_iff, pure, Option.some.injEq] at h
  obtain ⟨⟨number, r1⟩, h1, ⟨pathId, r2⟩, h2, ⟨size, r3⟩, h3, ⟨s, r4⟩, h4, ⟨l, r5⟩, h5, ⟨q1, r6⟩, h6,
    ⟨q2, r7⟩, h7, h8⟩ := h
  dsimp only at h2 h3 h4 h5 h6 h7 h8
  obtain ⟨-, rfl⟩ := Prod.mk.inj h8
  have := getVarint64_length h1
  have := getVarint32_length h2
  have := getVarint64_length h3
  have := getInternalKey_shrinks h4
  have := getInternalKey_shrinks h5
  have := getVarint64_length h6
  have := getVarint64_length h7
  omega

theorem readNewFile4Header_shrinks : Shrinks readNewFile4Header := by
  intro input f rest h
  simp only [readNewFile4Header, bind, Option.bind_eq_some_iff, pure, Option.some.injEq] at h
  obtain ⟨⟨number, r1⟩, h1, ⟨size, r2⟩, h2, ⟨s, r3⟩, h3, ⟨l, r4⟩, h4, ⟨q1, r5⟩, h5, ⟨q2, r6⟩, h6, h7⟩ := h
  dsimp only at h2 h3 h4 h5 h6 h7
  obtain ⟨-, rfl⟩ := Prod.mk.inj h7
  have := getVarint64_length h1
  have := getVarint64_length h2
  have := getInternalKey_shrinks h3
  have := getInternalKey_shrinks h4
  have := getVarint64_length h5
  have := getVarint64_length h6
  omega

theorem skipBlobCustomFields_length {className : String} {input rest : List UInt8}
    (h : skipBlobCustomFields className input = .ok rest) : rest.length < input.length := by
  induction input using skipBlobCustomFields.induct with
  | case1 input hv =>
    rw [skipBlobCustomFields, hv] at h
    cases h
  | case2 input r hv =>
    rw [skipBlobCustomFields, hv] at h
    simp only [if_true, Except.ok.injEq] at h
    subst h
    exact getVarint32_length hv
  | case3 input tag r hv htag hmask =>
    rw [skipBlobCustomFields, hv] at h
    simp only [if_neg htag, if_pos hmask] at h
    cases h
  | case4 input tag r hv htag hmask hs =>
    rw [skipBlobCustomFields, hv] at h
    simp only [if_neg htag, if_neg hmask] at h
    split at h
    · cases h
    · rename_i field r' hs'
      rw [hs] at hs'
      cases hs'
  | case5 input tag r hv htag hmask field r' hs ih =>
    rw [skipBlobCustomFields, hv] at h
    simp only [if_neg htag, if_neg hmask] at h
    split at h
    · cases h
    · rename_i field' r'' hs'
      rw [hs] at hs'
      obtain ⟨-, rfl⟩ := Prod.mk.inj (Option.some.inj hs')
      have := getVarint32_length hv
      have := getLengthPrefixedSlice_length hs
      have := ih h
      omega

end readers

section decoders

theorem blobFileAddition_decodeFrom_within : DecoderWithin BlobFileAddition.decodeFrom := by
  intro input a rest h
  simp only [BlobFileAddition.decodeFrom] at h
  split at h
  case h_2 => cases h
  rename_i n r1 h1
  split at h
  case h_2 => cases h
  rename_i c r2 h2
  split at h
  case h_2 => cases h
  rename_i b r3 h3
  split at h
  case h_2 => cases h
  rename_i m r4 h4
  split at h
  case h_2 => cases h
  rename_i v r5 h5
  cases hs : skipBlobCustomFields "BlobFileAddition" r5 with
  | error e => simp [hs, bind, Except.bind] at h
  | ok r =>
    simp only [hs, bind, Except.bind, pure, Except.pure, Except.ok.injEq, Prod.mk.injEq] at h
    obtain ⟨-, rfl⟩ := h
    have := getVarint64_length h1
    have := getVarint64_length h2
    have := getVarint64_length h3
    have := getLengthPrefixedSlice_length h4
    have := getLengthPrefixedSlice_length h5
    have := skipBlobCustomFields_length hs
    omega

theorem blobFileGarbage_decodeFrom_within : DecoderWithin BlobFileGarbage.decodeFrom := by
  intro input g rest h
  simp only [BlobFileGarbage.decodeFrom] at h
  split at h
  case h_2 => cases h
  rename_i n r1 h1
  split at h
  case h_2 => cases h
  rename_i c r2 h2
  split at h
  case h_2 => cases h
  rename_i b r3 h3
  cases hs : skipBlobCustomFields "BlobFileGarbage" r3 with
  | error e => simp [hs, bind, Except.bind] at h
  | ok r =>
    simp only [hs, bind, Except.bind, pure, Except.pure, Except.ok.injEq, Prod.mk.injEq] at h
    obtain ⟨-, rfl⟩ := h
    have := getVarint64_length h1
    have := getVarint64_length h2
    have := getVarint64_length h3
    have := skipBlobCustomFields_length hs
    omega

theorem walAdditionTags_length {syncedSize size : UInt64} {input rest : List UInt8}
    (h : walAdditionTags syncedSize input = .ok (size, rest)) : rest.length < input.length := by
  induction syncedSize, input using walAdditionTags.induct with
  | case1 syncedSize input hv =>
    rw [walAdditionTags, hv] at h
    cases h
  | case2 syncedSize input r hs hv =>
    rw [walAdditionTags, hv] at h
    simp only [if_true] at h
    split at h
    · cases h
    · rename_i size' r' hs'
      rw [hs] at hs'
      cases hs'
  | case3 syncedSize input r size' r' hs hv ih =>
    rw [walAdditionTags, hv] at h
    simp only [if_true] at h
    split at h
    · cases h
    · rename_i size'' r'' hs'
      rw [hs] at hs'
      obtain ⟨rfl, rfl⟩ := Prod.mk.inj (Option.some.inj hs')
      have := getVarint32_length hv
      have := getVarint64_length hs
      have := ih h
      omega
  | case4 syncedSize input r hv hne =>
    rw [walAdditionTags, hv] at h
    simp only [if_neg hne, if_true, Except.ok.injEq, Prod.mk.injEq] at h
    obtain ⟨-, rfl⟩ := h
    exact getVarint32_length hv
  | case5 syncedSize input tag r hv h2 h1 =>
    rw [walAdditionTags, hv] at h
    simp only [if_neg h2, if_neg h1] at h
    cases h

theorem walAddition_decodeFrom_within : DecoderWithin WalAddition.decodeFrom := by
  intro input w rest h
  simp only [WalAddition.decodeFrom] at h
  split at h
  case h_2 => cases h
  rename_i n r1 h1
  cases hs : walAdditionTags kUnknownWalSize r1 with
  | error e => simp [hs, bind, Except.bind] at h
  | ok r =>
    simp only [hs, bind, Except.bind, pure, Except.pure, Except.ok.injEq, Prod.mk.injEq] at h
    obtain ⟨-, rfl⟩ := h
    have := getVarint64_length h1
    have := walAdditionTags_length hs
    omega

theorem walDeletion_decodeFrom_within : DecoderWithin WalDeletion.decodeFrom := by
  intro input w rest h
  simp only [WalDeletion.decodeFrom] at h
  split at h
  case h_2 => cases h
  rename_i n r1 h1
  simp only [pure, Except.pure, Except.ok.injEq, Prod.mk.injEq] at h
  obtain ⟨-, rfl⟩ := h
  exact (getVarint64_length h1).le

theorem newFile4CustomFields_length {ve ve' : VersionEdit} {f f' : FileMetaData} {pathId pathId' : UInt32}
    {input rest : List UInt8} (h : newFile4CustomFields ve f pathId input = .ok (ve', f', pathId', rest)) :
    rest.length < input.length := by
  induction ve, f, pathId, input using newFile4CustomFields.induct with
  | case1 ve f pathId input hv =>
    rw [newFile4CustomFields, hv] at h
    cases h
  | case2 ve f pathId input r hv =>
    rw [newFile4CustomFields, hv] at h
    simp only [if_true, Except.ok.injEq, Prod.mk.injEq] at h
    obtain ⟨-, -, -, rfl⟩ := h
    exact getVarint32_length hv
  | case3 ve f pathId input tag r hv hterm hs =>
    rw [newFile4CustomFields, hv] at h
    simp only [if_neg hterm] at h
    split at h
    · cases h
    · rename_i field r' hs'
      rw [hs] at hs'
      cases hs'
  | case4 ve f pathId input tag r hv hterm field r' hs msg happly =>
    rw [newFile4CustomFields, hv] at h
    simp only [if_neg hterm] at h
    split at h
    · cases h
    · rename_i field' r'' hs'
      rw [hs] at hs'
      obtain ⟨rfl, rfl⟩ := Prod.mk.inj (Option.some.inj hs')
      simp only [happly] at h
      cases h
  | case5 ve f pathId input tag r hv hterm field r' hs ve₁ f₁ pathId₁ happly ih =>
    rw [newFile4CustomFields, hv] at h
    simp only [if_neg hterm] at h
    split at h
    · cases h
    · rename_i field' r'' hs'
      rw [hs] at hs'
      obtain ⟨rfl, rfl⟩ := Prod.mk.inj (Option.some.inj hs')
      simp only [happly] at h
      have := getVarint32_length hv
      have := getLengthPrefixedSlice_length hs
      have := ih h
      omega

end decoders

section within

variable {α : Type} {ve : VersionEdit} {input : List UInt8}

theorem getLevel_length {level : Int32} {ve' : VersionEdit} {rest : List UInt8}
    (h : ve.getLevel input = some (level, ve', rest)) : rest.length < input.length := by
  rw [VersionEdit.getLevel] at h
  split at h
  · rename_i v r hv
    cases h
    exact getVarint32_length hv
  · cases h

theorem decodeField_within {reader : List UInt8 → Option (α × List UInt8)} (hr : Shrinks reader)
    (set : VersionEdit → α → VersionEdit) (msg : String) : (decodeField reader set msg ve input).Within input.length := by
  rw [decodeField]
  split
  · rename_i a rest h
    exact (hr h).le
  · trivial

theorem decodeLevelled_within {reader : List UInt8 → Option (α × List UInt8)} (hr : Shrinks reader)
    (add : VersionEdit → Int32 → α → VersionEdit) (msg : String) :
    (decodeLevelled reader add msg ve input).Within input.length := by
  rw [decodeLevelled]
  split
  · rename_i level ve' rest h
    have hrest := getLevel_length h
    have hstep : (decodeField reader (fun ve a => add ve level a) msg ve' rest).Within rest.length :=
      decodeField_within hr _ msg
    -- the bound only loosens from what follows the level to the whole input
    revert hstep
    cases decodeField reader (fun ve a => add ve level a) msg ve' rest with
    | next ve'' rest' => exact fun hle => Nat.le_trans hle hrest.le
    | fail _ _ => exact fun _ => trivial
    | stop _ _ => exact fun _ => trivial
  · trivial

theorem decodeRecord_within {decode : List UInt8 → Except Status (α × List UInt8)} (hd : DecoderWithin decode)
    (add : VersionEdit → α → VersionEdit) : (decodeRecord decode add ve input).Within input.length := by
  rw [decodeRecord]
  split
  · rename_i a rest h
    exact hd h
  · trivial

theorem decodePrefixedRecord_within (decode : List UInt8 → Except Status (α × List UInt8))
    (add : VersionEdit → α → VersionEdit) (msg : String) :
    (decodePrefixedRecord decode add msg ve input).Within input.length := by
  rw [decodePrefixedRecord]
  split
  · rename_i encoded rest h
    split
    · exact (getLengthPrefixedSlice_length h).le
    · trivial
  · trivial

theorem decodeNewFile4From_within : (ve.decodeNewFile4From input).Within input.length := by
  rw [VersionEdit.decodeNewFile4From]
  split
  · trivial
  · rename_i level ve₁ r₁ h₁
    split
    · trivial
    · rename_i number fileSize smallest largest smallestSeqno largestSeqno r₂ h₂
      split
      · trivial
      · rename_i ve₂ f pathId r₃ h₃
        have := getLevel_length h₁
        have := readNewFile4Header_shrinks h₂
        have := newFile4CustomFields_length h₃
        show r₃.length ≤ input.length
        omega

theorem decodeUnknownTag_within (tag : UInt32) : (decodeUnknownTag tag ve input).Within input.length := by
  rw [decodeUnknownTag]
  split_ifs
  · split
    · rename_i fieldLen rest h
      split_ifs
      · trivial
      · show (rest.drop fieldLen.toNat).length ≤ input.length
        have := getVarint32_length h
        simp only [List.length_drop]
        omega
    · trivial
  · trivial

/-- a turn never hands back more input than it was given -/
theorem decodeTag_within (tag : UInt32) (ve : VersionEdit) (input : List UInt8) :
    (decodeTag tag ve input).Within input.length := by
  rw [decodeTag]
  -- one case per tag of the match, in its order
  split
  next => exact decodeField_within getLengthPrefixedSlice_shrinks _ _
  next => exact decodeField_within getLengthPrefixedSlice_shrinks _ _
  next => exact decodeField_within getVarint64_shrinks _ _
  next => exact decodeField_within getVarint64_shrinks _ _
  next => exact decodeField_within getVarint64_shrinks _ _
  next => exact decodeField_within getVarint32_shrinks _ _
  next => exact decodeField_within getVarint64_shrinks _ _
  next => exact decodeField_within getVarint64_shrinks _ _
  next => exact decodeLevelled_within getInternalKey_shrinks _ _
  next => exact decodeLevelled_within getVarint64_shrinks _ _
  next => exact decodeLevelled_within readNewFile_shrinks _ _
  next => exact decodeLevelled_within readNewFile2_shrinks _ _
  next => exact decodeLevelled_within readNewFile3_shrinks _ _
  next => exact decodeNewFile4From_within
  next => exact decodeRecord_within blobFileAddition_decodeFrom_within _
  next => exact decodeRecord_within blobFileAddition_decodeFrom_within _
  next => exact decodeRecord_within blobFileGarbage_decodeFrom_within _
  next => exact decodeRecord_within blobFileGarbage_decodeFrom_within _
  next => exact decodeRecord_within walAddition_decodeFrom_within _
  next => exact decodePrefixedRecord_within _ _ _
  next => exact decodeRecord_within walDeletion_decodeFrom_within _
  next => exact decodePrefixedRecord_within _ _ _
  next => exact decodeField_within getVarint32_shrinks _ _
  next => exact decodeField_within getLengthPrefixedSlice_shrinks _ _
  next => exact Nat.le_refl _
  next => exact decodeField_within getVarint32_shrinks _ _
  -- the two fields read inline: a slice that is there leaves less than the input
  next =>
    split
    · trivial
    · trivial
    · rename_i h; exact (getLengthPrefixedSlice_length h).le
  next =>
    split
    · trivial
    · rename_i h; exact (getLengthPrefixedSlice_length h).le
    · trivial
  next => exact decodeUnknownTag_within tag

end within

/-- the tag loop of `DecodeFrom`: the status and the edit it leaves -/
def decodeLoop (ve : VersionEdit) (input : List UInt8) : Status × VersionEdit :=
  match _hv : getVarint32 input with
  | none => if input.isEmpty then (.ok, ve) else (.corruption "VersionEdit: invalid tag", ve)
  | some (tag, rest) =>
    match _hd : decodeTag tag ve rest with
    | .next ve' rest' => decodeLoop ve' rest'
    | .fail ve' msg => (.corruption ("VersionEdit: " ++ msg), ve')
    | .stop ve' s => (s, ve')
termination_by input.length
decreasing_by
  have hturn := decodeTag_within tag ve rest
  rw [_hd] at hturn
  exact Nat.lt_of_le_of_lt hturn (getVarint32_length _hv)

section loop

variable {ve ve' : VersionEdit} {input rest : List UInt8} {tag : UInt32}

theorem decodeLoop_next {rest' : List UInt8} (hv : getVarint32 input = some (tag, rest))
    (hd : decodeTag tag ve rest = .next ve' rest') : decodeLoop ve input = decodeLoop ve' rest' := by
  rw [decodeLoop]
  split
  · rename_i hnone
    rw [hv] at hnone
    cases hnone
  · rename_i tag' rest' hsome
    rw [hv] at hsome
    cases hsome
    split <;> rename_i hturn <;> rw [hd] at hturn <;> cases hturn
    rfl

theorem decodeLoop_fail {msg : String} (hv : getVarint32 input = some (tag, rest))
    (hd : decodeTag tag ve rest = .fail ve' msg) :
    decodeLoop ve input = (.corruption ("VersionEdit: " ++ msg), ve') := by
  rw [decodeLoop]
  split
  · rename_i hnone
    rw [hv] at hnone
    cases hnone
  · rename_i tag' rest' hsome
    rw [hv] at hsome
    cases hsome
    split <;> rename_i hturn <;> rw [hd] at hturn <;> cases hturn
    rfl

theorem decodeLoop_stop {s : Status} (hv : getVarint32 input = some (tag, rest))
    (hd : decodeTag tag ve rest = .stop ve' s) : decodeLoop ve input = (s, ve') := by
  rw [decodeLoop]
  split
  · rename_i hnone
    rw [hv] at hnone
    cases hnone
  · rename_i tag' rest' hsome
    rw [hv] at hsome
    cases hsome
    split <;> rename_i hturn <;> rw [hd] at hturn <;> cases hturn
    rfl

end loop

/-- `VersionEdit::DecodeFrom(src)`: `Clear()`, then the tag loop -/
def VersionEdit.decodeFrom (ve : VersionEdit) (src : List UInt8) : Status × VersionEdit := decodeLoop ve.clear src

end ForSt
