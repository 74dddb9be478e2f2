import ForSt.Util.Coding
import ForSt.Util.Status
import ForSt.Db.Dbformat
/-!
`WriteBatch` (`db/write_batch.cc`, `db/write_batch_internal.h`): a byte log `rep_` behind a 12-byte header (a
sequence number and a record count), a content-flag word, a `max_bytes_` limit and a stack of savepoints.

- Mutators: `WriteBatchInternal::Put`, `Delete`, `SingleDelete`, `DeleteRange`, `Merge`, `PutBlobIndex` and
  `PutEntity` share one body, `WriteBatch.addRecord`: count one more record, write the tag, the column family id and
  the length-prefixed slices, set the flag, and let `LocalSavePoint::commit` undo it all over `max_bytes_`. `Put`,
  `Merge` and `PutEntity` first refuse a slice longer than a `uint32_t` length can say; the others do not check.
  `PutLogData` writes its record without counting it or setting a flag.
- Savepoints: `SetSavePoint`, `RollbackToSavePoint`, `PopSavePoint`; and `Clear`, `SetMaxBytes`.
- Reading: `ReadRecordFromWriteBatch` parses one record into out-parameters (`RecordSlots`) that keep their old
  contents where a record does not write them; `WriteBatchInternal::Iterate` hands each record to a `Handler`,
  retries a record once on `TryAgain`, and checks the count in the header. `ComputeContentFlags` and the `Has*`
  queries read the flag word.
- Appending: `MarkWalTerminationPoint` and `WriteBatchInternal::Append`, which copies the records of one batch after
  another's, all of them or those before the WAL termination point.

A mutator takes the column family id that `WriteBatch::Put(ColumnFamilyHandle*, ...)` resolves, for a family without
user-defined timestamps; handles, timestamps and per-key protection info are left out (with `Append`'s check of it).
`PutEntity`'s `SortColumns` and `WideColumnSerialization::Serialize` are the parameter `serialize`.
-/

namespace ForSt

open ForSt.Coding

/-! ## State -/

/-- `ContentFlags`, the bits of `content_flags_` that name record kinds -/
inductive ContentFlags where
  | hasPut
  | hasDelete
  | hasSingleDelete
  | hasMerge
  | hasBeginPrepare
  | hasEndPrepare
  | hasCommit
  | hasRollback
  | hasDeleteRange
  | hasBlobIndex
  | hasBeginUnprepare
  | hasPutEntity
deriving DecidableEq, Repr

/-- the bit position: `HAS_PUT = 1 << 1` to `HAS_PUT_ENTITY = 1 << 12` -/
def ContentFlags.shift : ContentFlags → ℕ
  | .hasPut => 1
  | .hasDelete => 2
  | .hasSingleDelete => 3
  | .hasMerge => 4
  | .hasBeginPrepare => 5
  | .hasEndPrepare => 6
  | .hasCommit => 7
  | .hasRollback => 8
  | .hasDeleteRange => 9
  | .hasBlobIndex => 10
  | .hasBeginUnprepare => 11
  | .hasPutEntity => 12

def ContentFlags.bit (f : ContentFlags) : ℕ := 1 <<< f.shift

/-- `DEFERRED = 1 << 0`: the flags of a batch made from a serialized `rep` are computed when first asked for -/
def ContentFlags.deferred : ℕ := 1 <<< 0

/-- `SavePoint`: the size of `rep_`, the count and the content flags when it was taken -/
structure SavePoint where
  size : ℕ
  count : ℕ
  contentFlags : ℕ
deriving DecidableEq, Repr

/-- the fields of a `WriteBatch` the modelled operations read or write -/
@[ext] structure WriteBatch where
  rep : List UInt8
  contentFlags : ℕ
  maxBytes : ℕ
  /-- `save_points_->stack`, top first; a null `save_points_` is the empty stack -/
  savePoints : List SavePoint
  /-- `wal_term_point_`, all zero while cleared -/
  walTermPoint : SavePoint
deriving DecidableEq, Repr

/-- `WriteBatchInternal::kHeader`: 8 bytes of sequence number and 4 of count -/
def kHeader : ℕ := 12

/-- `std::numeric_limits<uint32_t>::max()` -/
def uint32Max : ℕ := 2 ^ 32 - 1

/-- `std::string::resize`: truncate, or pad with zero bytes -/
def resize (s : List UInt8) (n : ℕ) : List UInt8 := s.take n ++ List.replicate (n - s.length) 0

/-- `WriteBatch(reserved_bytes, max_bytes, ...)`: the header, zeroed, and nothing else -/
def WriteBatch.create (maxBytes : ℕ) : WriteBatch := ⟨resize [] kHeader, 0, maxBytes, [], ⟨0, 0, 0⟩⟩

/-- `WriteBatchInternal::Count`: the fixed32 at offset 8 -/
def WriteBatch.count (b : WriteBatch) : ℕ := decodeFixed32 (b.rep.drop 8)

/-- `WriteBatchInternal::SetCount`: `EncodeFixed32(&rep_[8], n)` -/
def WriteBatch.setCount (b : WriteBatch) (n : ℕ) : WriteBatch :=
  { b with rep := b.rep.take 8 ++ encodeFixed32 n ++ b.rep.drop 12 }

/-- `WriteBatchInternal::Sequence`: the fixed64 at offset 0 -/
def WriteBatch.sequence (b : WriteBatch) : ℕ := decodeFixed64 b.rep

/-- `WriteBatchInternal::SetSequence`: `EncodeFixed64(rep_.data(), seq)` -/
def WriteBatch.setSequence (b : WriteBatch) (seq : ℕ) : WriteBatch :=
  { b with rep := encodeFixed64 seq ++ b.rep.drop 8 }

/-- `GetDataSize` -/
def WriteBatch.getDataSize (b : WriteBatch) : ℕ := b.rep.length

/-! ## Mutators -/

/-- `LocalSavePoint save(b)` -/
def WriteBatch.localSavePoint (b : WriteBatch) : SavePoint := ⟨b.getDataSize, b.count, b.contentFlags⟩

/-- `LocalSavePoint::commit`: over `max_bytes_` the operation is undone to `savepoint` and `MemoryLimit` returned -/
def WriteBatch.commit (b : WriteBatch) (savepoint : SavePoint) : Status × WriteBatch :=
  if b.maxBytes ≠ 0 ∧ b.rep.length > b.maxBytes then
    let b := { b with rep := resize b.rep savepoint.size }
    (.memoryLimit, { b.setCount savepoint.count with contentFlags := savepoint.contentFlags })
  else (.ok, b)

/-- the tag of a record: `defaultTag` in the default column family, else `cfTag` and the id as a varint -/
def recordTag (defaultTag cfTag : ValueType) (columnFamilyId : UInt32) : List UInt8 :=
  if columnFamilyId = 0 then [defaultTag.toUInt8] else cfTag.toUInt8 :: putVarint32 columnFamilyId

/-- the body the counted mutators share, after their size checks -/
def WriteBatch.addRecord (b : WriteBatch) (defaultTag cfTag : ValueType) (columnFamilyId : UInt32)
    (slices : List (List UInt8)) (flag : ContentFlags) : Status × WriteBatch :=
  let save := b.localSavePoint
  -- `Count` is a `uint32_t`; `SetCount` keeps the low 32 bits of the sum
  let b := b.setCount (b.count + 1)
  let rep := b.rep ++ recordTag defaultTag cfTag columnFamilyId ++ (slices.map putLengthPrefixedSlice).flatten
  { b with rep, contentFlags := b.contentFlags ||| flag.bit }.commit save

/-- the size checks `Put` and `Merge` make before writing -/
def keyValueTooLarge (key value : List UInt8) : Option Status :=
  if key.length > uint32Max then some (.invalidArgument "key is too large")
  else if value.length > uint32Max then some (.invalidArgument "value is too large")
  else none

/-- `WriteBatchInternal::Put(b, column_family_id, key, value)` -/
def WriteBatch.put (b : WriteBatch) (columnFamilyId : UInt32) (key value : List UInt8) : Status × WriteBatch :=
  match keyValueTooLarge key value with
  | some s => (s, b)
  | none => b.addRecord .kTypeValue .kTypeColumnFamilyValue columnFamilyId [key, value] .hasPut

/-- `WriteBatchInternal::Delete` -/
def WriteBatch.delete (b : WriteBatch) (columnFamilyId : UInt32) (key : List UInt8) : Status × WriteBatch :=
  b.addRecord .kTypeDeletion .kTypeColumnFamilyDeletion columnFamilyId [key] .hasDelete

/-- `WriteBatchInternal::SingleDelete` -/
def WriteBatch.singleDelete (b : WriteBatch) (columnFamilyId : UInt32) (key : List UInt8) : Status × WriteBatch :=
  b.addRecord .kTypeSingleDeletion .kTypeColumnFamilySingleDeletion columnFamilyId [key] .hasSingleDelete

/-- `WriteBatchInternal::DeleteRange` -/
def WriteBatch.deleteRange (b : WriteBatch) (columnFamilyId : UInt32) (beginKey endKey : List UInt8) :
    Status × WriteBatch :=
  b.addRecord .kTypeRangeDeletion .kTypeColumnFamilyRangeDeletion columnFamilyId [beginKey, endKey] .hasDeleteRange

/-- `WriteBatchInternal::Merge` -/
def WriteBatch.merge (b : WriteBatch) (columnFamilyId : UInt32) (key value : List UInt8) : Status × WriteBatch :=
  match keyValueTooLarge key value with
  | some s => (s, b)
  | none => b.addRecord .kTypeMerge .kTypeColumnFamilyMerge columnFamilyId [key, value] .hasMerge

/-- `WriteBatchInternal::PutBlobIndex` -/
def WriteBatch.putBlobIndex (b : WriteBatch) (columnFamilyId : UInt32) (key value : List UInt8) :
    Status × WriteBatch :=
  b.addRecord .kTypeBlobIndex .kTypeColumnFamilyBlobIndex columnFamilyId [key, value] .hasBlobIndex

/-- `WriteBatchInternal::PutEntity`; `serialize` sorts the columns and serializes them -/
def WriteBatch.putEntity {Cols : Type} (serialize : Cols → Except Status (List UInt8)) (b : WriteBatch)
    (columnFamilyId : UInt32) (key : List UInt8) (columns : Cols) : Status × WriteBatch :=
  if key.length > uint32Max then (.invalidArgument "key is too large", b)
  else
    match serialize columns with
    | .error s => (s, b)
    | .ok entity =>
      if entity.length > uint32Max then (.invalidArgument "wide column entity is too large", b)
      else b.addRecord .kTypeWideColumnEntity .kTypeColumnFamilyWideColumnEntity columnFamilyId [key, entity]
        .hasPutEntity

/-- `WriteBatch::PutLogData`: neither counted nor flagged -/
def WriteBatch.putLogData (b : WriteBatch) (blob : List UInt8) : Status × WriteBatch :=
  let save := b.localSavePoint
  { b with rep := b.rep ++ [ValueType.kTypeLogData.toUInt8] ++ putLengthPrefixedSlice blob }.commit save

/-! ## Savepoints -/

/-- `WriteBatch::Clear`: the header zeroed, no flags, no savepoints, the WAL termination point cleared -/
def WriteBatch.clear (b : WriteBatch) : WriteBatch :=
  { b with rep := resize [] kHeader, contentFlags := 0, savePoints := [], walTermPoint := ⟨0, 0, 0⟩ }

/-- `WriteBatch::SetSavePoint` -/
def WriteBatch.setSavePoint (b : WriteBatch) : WriteBatch :=
  { b with savePoints := ⟨b.getDataSize, b.count, b.contentFlags⟩ :: b.savePoints }

/-- `WriteBatch::RollbackToSavePoint` -/
def WriteBatch.rollbackToSavePoint (b : WriteBatch) : Status × WriteBatch :=
  match b.savePoints with
  | [] => (.notFound, b)
  | savepoint :: rest =>
    let b := { b with savePoints := rest }
    if savepoint.size = b.rep.length then (.ok, b)
    else if savepoint.size = 0 then (.ok, b.clear)
    else
      let b := { b with rep := resize b.rep savepoint.size }
      (.ok, { b.setCount savepoint.count with contentFlags := savepoint.contentFlags })

/-- `WriteBatch::PopSavePoint` -/
def WriteBatch.popSavePoint (b : WriteBatch) : Status × WriteBatch :=
  match b.savePoints with
  | [] => (.notFound, b)
  | _ :: rest => (.ok, { b with savePoints := rest })

/-- `WriteBatch::SetMaxBytes` -/
def WriteBatch.setMaxBytes (b : WriteBatch) (maxBytes : ℕ) : WriteBatch := { b with maxBytes }

/-! ## Appending batches -/

/-- `SavePoint::is_cleared` -/
def SavePoint.isCleared (sp : SavePoint) : Bool := sp.size ||| sp.count ||| sp.contentFlags = 0

/-- `WriteBatch::MarkWalTerminationPoint`: the size, count and flags up to which the batch goes to the WAL -/
def WriteBatch.markWalTerminationPoint (b : WriteBatch) : WriteBatch :=
  { b with walTermPoint := ⟨b.getDataSize, b.count, b.contentFlags⟩ }

/-- `WriteBatchInternal::Append(dst, src, wal_only)`: the records of `src` after its header, up to its WAL
termination point when `walOnly` and one is marked, are copied after those of `dst`, and the count and flags are
added in -/
def WriteBatch.append (dst src : WriteBatch) (walOnly : Bool) : WriteBatch :=
  let batchEnd := src.walTermPoint
  let (srcLen, srcCount, srcFlags) :=
    if walOnly && !batchEnd.isCleared then (batchEnd.size - kHeader, batchEnd.count, batchEnd.contentFlags)
    else (src.rep.length - kHeader, src.count, src.contentFlags)
  let dst := dst.setCount (dst.count + srcCount)
  { dst with rep := dst.rep ++ (src.rep.drop kHeader).take srcLen, contentFlags := dst.contentFlags ||| srcFlags }

/-- `WriteBatchInternal::Append(dst, src, wal_only)` with the batches' `prot_info_`, each the entries of its
`ProtectionInfo` or `none` for `nullptr`. A protection info whose size is not its batch's count is a corruption, and
nothing is appended. Otherwise the source's entries for the records copied follow the destination's, and a source
without protection info drops the destination's -/
def WriteBatchInternal.append {P : Type} (dst : WriteBatch) (dstProt : Option (List P)) (src : WriteBatch)
    (srcProt : Option (List P)) (walOnly : Bool) : Status × WriteBatch × Option (List P) :=
  if srcProt.any (·.length != src.count) || dstProt.any (·.length != dst.count) then
    (.corruption "Write batch has inconsistent count and number of checksums", dst, dstProt)
  else
    let srcCount := if walOnly && !src.walTermPoint.isCleared then src.walTermPoint.count else src.count
    let prot := match srcProt with
      | some p => some (dstProt.getD [] ++ p.take srcCount)
      | none => none
    (.ok, dst.append src walOnly, prot)

/-! ## Reading records back -/

/-- the out-parameters `key`, `value`, `blob` and `xid` of `ReadRecordFromWriteBatch`, which `Iterate` declares once
outside its loop -/
structure RecordSlots where
  key : List UInt8
  value : List UInt8
  blob : List UInt8
  xid : List UInt8
deriving DecidableEq, Repr

def RecordSlots.empty : RecordSlots := ⟨[], [], [], []⟩

/-- `GetVarint32(input, column_family)`, failing with `Corruption(msg)` -/
def readColumnFamily (msg : String) (input : List UInt8) : Except Status (UInt32 × List UInt8) :=
  match getVarint32 input with
  | some r => .ok r
  | none => .error (.corruption msg)

/-- `GetLengthPrefixedSlice(input, slice)`, failing with `Corruption(msg)` -/
def readSlice (msg : String) (input : List UInt8) : Except Status (List UInt8 × List UInt8) :=
  match getLengthPrefixedSlice input with
  | some r => .ok r
  | none => .error (.corruption msg)

/-- the key and value of a record: a put, range deletion, merge, blob index or entity -/
def readKeyValue (msg : String) (slots : RecordSlots) (cf : UInt32) (input : List UInt8) :
    Except Status (UInt32 × RecordSlots × List UInt8) := do
  let (key, input) ← readSlice msg input
  let (value, input) ← readSlice msg input
  pure (cf, { slots with key, value }, input)

/-- the key of a deletion -/
def readKey (msg : String) (slots : RecordSlots) (cf : UInt32) (input : List UInt8) :
    Except Status (UInt32 × RecordSlots × List UInt8) := do
  let (key, input) ← readSlice msg input
  pure (cf, { slots with key }, input)

/-- the xid of a transaction marker -/
def readXid (msg : String) (slots : RecordSlots) (input : List UInt8) :
    Except Status (UInt32 × RecordSlots × List UInt8) := do
  let (xid, input) ← readSlice msg input
  pure (0, { slots with xid }, input)

/-- the blob of a log data record -/
def readBlob (msg : String) (slots : RecordSlots) (input : List UInt8) :
    Except Status (UInt32 × RecordSlots × List UInt8) := do
  let (blob, input) ← readSlice msg input
  pure (0, { slots with blob }, input)

/-- `kTypeCommitXIDAndTimestamp`: the commit timestamp goes to `key`, then the case falls through to the xid of
`kTypeCommitXID` -/
def readCommitXIDAndTimestamp (slots : RecordSlots) (input : List UInt8) :
    Except Status (UInt32 × RecordSlots × List UInt8) := do
  let (key, input) ← readSlice "bad commit timestamp" input
  readXid "bad Commit XID" { slots with key } input

/-- a `kTypeColumnFamily*` record: the id, then what the default-family case reads (`FALLTHROUGH_INTENDED`) -/
def withColumnFamily (msg : String) (input : List UInt8)
    (k : UInt32 → List UInt8 → Except Status (UInt32 × RecordSlots × List UInt8)) :
    Except Status (UInt32 × RecordSlots × List UInt8) := do
  let (cf, input) ← readColumnFamily msg input
  k cf input

/-- `ReadRecordFromWriteBatch` after its tag byte `tag`: the column family id, the slots and the rest of the input -/
def readRecordFromWriteBatch (tag : UInt8) (input : List UInt8) (slots : RecordSlots) :
    Except Status (UInt32 × RecordSlots × List UInt8) :=
  match ValueType.ofNat? tag.toNat with
  | some .kTypeColumnFamilyValue => withColumnFamily "bad WriteBatch Put" input (readKeyValue "bad WriteBatch Put" slots)
  | some .kTypeValue => readKeyValue "bad WriteBatch Put" slots 0 input
  | some .kTypeColumnFamilyDeletion | some .kTypeColumnFamilySingleDeletion =>
    withColumnFamily "bad WriteBatch Delete" input (readKey "bad WriteBatch Delete" slots)
  | some .kTypeDeletion | some .kTypeSingleDeletion => readKey "bad WriteBatch Delete" slots 0 input
  | some .kTypeColumnFamilyRangeDeletion =>
    withColumnFamily "bad WriteBatch DeleteRange" input (readKeyValue "bad WriteBatch DeleteRange" slots)
  | some .kTypeRangeDeletion => readKeyValue "bad WriteBatch DeleteRange" slots 0 input
  | some .kTypeColumnFamilyMerge =>
    withColumnFamily "bad WriteBatch Merge" input (readKeyValue "bad WriteBatch Merge" slots)
  | some .kTypeMerge => readKeyValue "bad WriteBatch Merge" slots 0 input
  | some .kTypeColumnFamilyBlobIndex =>
    withColumnFamily "bad WriteBatch BlobIndex" input (readKeyValue "bad WriteBatch BlobIndex" slots)
  | some .kTypeBlobIndex => readKeyValue "bad WriteBatch BlobIndex" slots 0 input
  | some .kTypeLogData => readBlob "bad WriteBatch Blob" slots input
  | some .kTypeNoop | some .kTypeBeginPrepareXID | some .kTypeBeginPersistedPrepareXID
  | some .kTypeBeginUnprepareXID => pure (0, slots, input)
  | some .kTypeEndPrepareXID => readXid "bad EndPrepare XID" slots input
  | some .kTypeCommitXIDAndTimestamp => readCommitXIDAndTimestamp slots input
  | some .kTypeCommitXID => readXid "bad Commit XID" slots input
  | some .kTypeRollbackXID => readXid "bad Rollback XID" slots input
  | some .kTypeColumnFamilyWideColumnEntity =>
    withColumnFamily "bad WriteBatch PutEntity" input (readKeyValue "bad WriteBatch PutEntity" slots)
  | some .kTypeWideColumnEntity => readKeyValue "bad WriteBatch PutEntity" slots 0 input
  | _ => .error (.corruption "unknown WriteBatch tag")

theorem readSlice_length {msg : String} {input s rest : List UInt8} (h : readSlice msg input = .ok (s, rest)) :
    rest.length < input.length := by
  unfold readSlice at h
  split at h
  · cases h
    exact getLengthPrefixedSlice_length ‹_›
  · cases h

theorem readKeyValue_length {msg : String} {slots slots' : RecordSlots} {cf cf' : UInt32} {input rest : List UInt8}
    (h : readKeyValue msg slots cf input = .ok (cf', slots', rest)) : rest.length < input.length := by
  simp only [readKeyValue, bind, Except.bind] at h
  split at h
  · cases h
  · rename_i r₁ h₁
    split at h
    · cases h
    · rename_i r₂ h₂
      cases h
      exact (readSlice_length h₂).trans (readSlice_length h₁)

theorem readKey_length {msg : String} {slots slots' : RecordSlots} {cf cf' : UInt32} {input rest : List UInt8}
    (h : readKey msg slots cf input = .ok (cf', slots', rest)) : rest.length < input.length := by
  simp only [readKey, bind, Except.bind] at h
  split at h
  · cases h
  · rename_i r₁ h₁
    cases h
    exact readSlice_length h₁

theorem readXid_length {msg : String} {slots slots' : RecordSlots} {cf : UInt32} {input rest : List UInt8}
    (h : readXid msg slots input = .ok (cf, slots', rest)) : rest.length < input.length := by
  simp only [readXid, bind, Except.bind] at h
  split at h
  · cases h
  · rename_i r₁ h₁
    cases h
    exact readSlice_length h₁

theorem readBlob_length {msg : String} {slots slots' : RecordSlots} {cf : UInt32} {input rest : List UInt8}
    (h : readBlob msg slots input = .ok (cf, slots', rest)) : rest.length < input.length := by
  simp only [readBlob, bind, Except.bind] at h
  split at h
  · cases h
  · rename_i r₁ h₁
    cases h
    exact readSlice_length h₁

theorem readCommitXIDAndTimestamp_length {slots slots' : RecordSlots} {cf : UInt32} {input rest : List UInt8}
    (h : readCommitXIDAndTimestamp slots input = .ok (cf, slots', rest)) : rest.length < input.length := by
  simp only [readCommitXIDAndTimestamp, bind, Except.bind] at h
  split at h
  · cases h
  · rename_i r₁ h₁
    exact (readXid_length h).trans (readSlice_length h₁)

theorem withColumnFamily_length {msg : String} {input rest : List UInt8} {cf : UInt32} {slots : RecordSlots}
    {k : UInt32 → List UInt8 → Except Status (UInt32 × RecordSlots × List UInt8)}
    (hk : ∀ c i r, k c i = .ok r → r.2.2.length < i.length)
    (h : withColumnFamily msg input k = .ok (cf, slots, rest)) : rest.length < input.length := by
  simp only [withColumnFamily, bind, Except.bind] at h
  split at h
  · cases h
  · rename_i r₁ h₁
    have hcf : r₁.2.length < input.length := by
      unfold readColumnFamily at h₁
      split at h₁
      · cases h₁
        exact getVarint32_length ‹_›
      · cases h₁
    exact (hk _ _ _ h).trans hcf

/-- a record read leaves no more input than it was given: the loop of `Iterate` terminates -/
theorem readRecordFromWriteBatch_length {tag : UInt8} {input : List UInt8} {slots slots' : RecordSlots}
    {cf : UInt32} {rest : List UInt8} (h : readRecordFromWriteBatch tag input slots = .ok (cf, slots', rest)) :
    rest.length ≤ input.length := by
  have hkv : ∀ msg c i r, readKeyValue msg slots c i = .ok r → r.2.2.length < i.length :=
    fun _ _ _ _ hr => readKeyValue_length hr
  have hk : ∀ msg c i r, readKey msg slots c i = .ok r → r.2.2.length < i.length :=
    fun _ _ _ _ hr => readKey_length hr
  unfold readRecordFromWriteBatch at h
  -- one case per tag of the match, in its order
  split at h
  next => exact (withColumnFamily_length (hkv _) h).le
  next => exact (readKeyValue_length h).le
  next => exact (withColumnFamily_length (hk _) h).le
  next => exact (withColumnFamily_length (hk _) h).le
  next => exact (readKey_length h).le
  next => exact (readKey_length h).le
  next => exact (withColumnFamily_length (hkv _) h).le
  next => exact (readKeyValue_length h).le
  next => exact (withColumnFamily_length (hkv _) h).le
  next => exact (readKeyValue_length h).le
  next => exact (withColumnFamily_length (hkv _) h).le
  next => exact (readKeyValue_length h).le
  next => exact (readBlob_length h).le
  -- the markers without a body read nothing
  next => cases h; exact le_rfl
  next => cases h; exact le_rfl
  next => cases h; exact le_rfl
  next => cases h; exact le_rfl
  next => exact (readXid_length h).le
  next => exact (readCommitXIDAndTimestamp_length h).le
  next => exact (readXid_length h).le
  next => exact (readXid_length h).le
  next => exact (withColumnFamily_length (hkv _) h).le
  next => exact (readKeyValue_length h).le
  next => cases h

/-! ## Handlers and `Iterate` -/

/-- the calls `Iterate` makes on a `WriteBatch::Handler` -/
inductive HandlerCall where
  | putCF (columnFamilyId : UInt32) (key value : List UInt8)
  | deleteCF (columnFamilyId : UInt32) (key : List UInt8)
  | singleDeleteCF (columnFamilyId : UInt32) (key : List UInt8)
  | deleteRangeCF (columnFamilyId : UInt32) (beginKey endKey : List UInt8)
  | mergeCF (columnFamilyId : UInt32) (key value : List UInt8)
  | putBlobIndexCF (columnFamilyId : UInt32) (key value : List UInt8)
  | putEntityCF (columnFamilyId : UInt32) (key entity : List UInt8)
  | logData (blob : List UInt8)
  | markBeginPrepare (unprepare : Bool)
  | markEndPrepare (xid : List UInt8)
  | markCommit (xid : List UInt8)
  | markCommitWithTimestamp (xid commitTs : List UInt8)
  | markRollback (xid : List UInt8)
  | markNoop (emptyBatch : Bool)
deriving DecidableEq, Repr

/-- `WriteBatch::Handler::OptionState` -/
inductive OptionState where
  | kUnknown
  | kDisabled
  | kEnabled
deriving DecidableEq, Repr

/-- a `WriteBatch::Handler` with state `σ`; the status of a `logData` call is ignored (`LogData` returns `void`) -/
structure Handler (σ : Type) where
  call : HandlerCall → σ → Status × σ
  /-- `Continue()` -/
  continue_ : σ → Bool
  writeAfterCommit : OptionState
  writeBeforePrepare : OptionState

/-- what `Iterate`'s loop carries from one record to the next -/
structure IterState (σ : Type) where
  handler : σ
  found : ℕ
  emptyBatch : Bool

section iterate

variable {σ : Type} (h : Handler σ)

/-- a counted record: on success the batch is not empty and one more record is found (`found` is a `uint32_t`) -/
def countedCall (c : HandlerCall) (it : IterState σ) : Status × IterState σ :=
  let r := h.call c it.handler
  (r.1, if r.1.isOk then ⟨r.2, (it.found + 1) % 2 ^ 32, false⟩ else { it with handler := r.2 })

/-- a transaction marker: the call, then `empty_batch` as the marker sets it -/
def markerCall (c : HandlerCall) (emptyBatch : Bool) (it : IterState σ) : Status × IterState σ :=
  let r := h.call c it.handler
  (r.1, { it with handler := r.2, emptyBatch })

/-- the `switch (tag)` of `Iterate` for one record read with id `cf` into `slots`; `none` is its `default` return -/
def dispatch (tag : UInt8) (cf : UInt32) (slots : RecordSlots) (it : IterState σ) : Option (Status × IterState σ) :=
  match ValueType.ofNat? tag.toNat with
  | some .kTypeColumnFamilyValue | some .kTypeValue => some (countedCall h (.putCF cf slots.key slots.value) it)
  | some .kTypeColumnFamilyDeletion | some .kTypeDeletion => some (countedCall h (.deleteCF cf slots.key) it)
  | some .kTypeColumnFamilySingleDeletion | some .kTypeSingleDeletion =>
    some (countedCall h (.singleDeleteCF cf slots.key) it)
  | some .kTypeColumnFamilyRangeDeletion | some .kTypeRangeDeletion =>
    some (countedCall h (.deleteRangeCF cf slots.key slots.value) it)
  | some .kTypeColumnFamilyMerge | some .kTypeMerge => some (countedCall h (.mergeCF cf slots.key slots.value) it)
  | some .kTypeColumnFamilyBlobIndex | some .kTypeBlobIndex =>
    -- counted, but unlike the other counted records it leaves `empty_batch` as it was
    let r := h.call (.putBlobIndexCF cf slots.key slots.value) it.handler
    some (r.1, if r.1.isOk then { it with handler := r.2, found := (it.found + 1) % 2 ^ 32 }
      else { it with handler := r.2 })
  | some .kTypeLogData =>
    -- `LogData` returns nothing: the status stays the OK of the read
    some (.ok, { it with handler := (h.call (.logData slots.blob) it.handler).2, emptyBatch := false })
  | some .kTypeBeginPrepareXID =>
    let r := markerCall h (.markBeginPrepare false) false it
    let s := if h.writeAfterCommit = .kDisabled then .notSupported
      "WriteCommitted txn tag when write_after_commit_ is disabled (in WritePrepared/WriteUnprepared mode). If it is not due to corruption, the WAL must be emptied before changing the WritePolicy."
      else r.1
    let s := if h.writeBeforePrepare = .kEnabled then .notSupported
      "WriteCommitted txn tag when write_before_prepare_ is enabled (in WriteUnprepared mode). If it is not due to corruption, the WAL must be emptied before changing the WritePolicy."
      else s
    some (s, r.2)
  | some .kTypeBeginPersistedPrepareXID =>
    let r := markerCall h (.markBeginPrepare false) false it
    let s := if h.writeAfterCommit = .kEnabled then .notSupported
      "WritePrepared/WriteUnprepared txn tag when write_after_commit_ is enabled (in default WriteCommitted mode). If it is not due to corruption, the WAL must be emptied before changing the WritePolicy."
      else r.1
    some (s, r.2)
  | some .kTypeBeginUnprepareXID =>
    let r := markerCall h (.markBeginPrepare true) false it
    let s := if h.writeAfterCommit = .kEnabled then .notSupported
      "WriteUnprepared txn tag when write_after_commit_ is enabled (in default WriteCommitted mode). If it is not due to corruption, the WAL must be emptied before changing the WritePolicy."
      else r.1
    let s := if h.writeBeforePrepare = .kDisabled then .notSupported
      "WriteUnprepared txn tag when write_before_prepare_ is disabled (in WriteCommitted/WritePrepared mode). If it is not due to corruption, the WAL must be emptied before changing the WritePolicy."
      else s
    some (s, r.2)
  | some .kTypeEndPrepareXID => some (markerCall h (.markEndPrepare slots.xid) true it)
  | some .kTypeCommitXID => some (markerCall h (.markCommit slots.xid) true it)
  | some .kTypeCommitXIDAndTimestamp =>
    let r := h.call (.markCommitWithTimestamp slots.xid slots.key) it.handler
    some (r.1, { it with handler := r.2, emptyBatch := if r.1.isOk then true else it.emptyBatch })
  | some .kTypeRollbackXID => some (markerCall h (.markRollback slots.xid) true it)
  | some .kTypeNoop => some (markerCall h (.markNoop it.emptyBatch) true it)
  | some .kTypeWideColumnEntity | some .kTypeColumnFamilyWideColumnEntity =>
    some (countedCall h (.putEntityCF cf slots.key slots.value) it)
  | _ => none

/-- how `Iterate`'s loop ends: the status, `handler_continue`, and the carried state -/
structure IterResult (σ : Type) where
  status : Status
  handlerContinue : Bool
  state : IterState σ

/-- the corruption a second `TryAgain` in a row ends `Iterate` with -/
def twoTryAgainMessage : String :=
  "two consecutive TryAgain in WriteBatch handler; this is either a software bug or data corruption."

/-- the `while` loop of `WriteBatchInternal::Iterate`, one record a turn. A `TryAgain` from the handler runs the
loop once more on the same record (after `Continue()`), and a second `TryAgain` in a row is a corruption. -/
def iterateLoop (input : List UInt8) (slots : RecordSlots) (it : IterState σ) : IterResult σ :=
  match input with
  | [] => ⟨.ok, true, it⟩
  | tag :: rest =>
    if !h.continue_ it.handler then ⟨.ok, false, it⟩
    else
      match _hr : readRecordFromWriteBatch tag rest slots with
      | .error s => ⟨s, true, it⟩
      | .ok (cf, slots, rest') =>
        match dispatch h tag cf slots it with
        | none => ⟨.corruption "unknown WriteBatch tag", true, it⟩
        | some (s, it) =>
          if s.isTryAgain then
            if !h.continue_ it.handler then ⟨s, false, it⟩
            else
              match dispatch h tag cf slots it with
              | none => ⟨.corruption "unknown WriteBatch tag", true, it⟩
              | some (s, it) =>
                if s.isTryAgain then
                  if !h.continue_ it.handler then ⟨s, false, it⟩ else ⟨.corruption twoTryAgainMessage, true, it⟩
                else if s.isOk then iterateLoop rest' slots it
                else ⟨s, true, it⟩
          else if s.isOk then iterateLoop rest' slots it
          else ⟨s, true, it⟩
termination_by input.length
decreasing_by
  all_goals
    simp only [List.length_cons]
    exact Nat.lt_succ_of_le (readRecordFromWriteBatch_length _hr)

/-- `WriteBatchInternal::Iterate(wb, handler, begin, end)`: the status and the handler's final state -/
def WriteBatch.iterateRange (b : WriteBatch) (st : σ) (beginOffset endOffset : ℕ) : Status × σ :=
  if beginOffset > b.rep.length ∨ endOffset > b.rep.length ∨ endOffset < beginOffset then
    (.corruption "Invalid start/end bounds for Iterate", st)
  else
    let wholeBatch := beginOffset = kHeader ∧ endOffset = b.rep.length
    let r := iterateLoop h ((b.rep.drop beginOffset).take (endOffset - beginOffset)) .empty ⟨st, 0, true⟩
    if !r.status.isOk then (r.status, r.state.handler)
    else if r.handlerContinue ∧ wholeBatch ∧ r.state.found ≠ b.count then
      (.corruption "WriteBatch has wrong count", r.state.handler)
    else (.ok, r.state.handler)

/-- `WriteBatch::Iterate(Handler*)` -/
def WriteBatch.iterate (b : WriteBatch) (st : σ) : Status × σ :=
  if b.rep.length < kHeader then (.corruption "malformed WriteBatch (too small)", st)
  else b.iterateRange h st kHeader b.rep.length

end iterate

/-! ## Content flags -/

/-- `BatchContentClassifier`: the flag of each record kind; `MarkNoop` is the base class's -/
def batchContentClassifier : Handler ℕ where
  call c flags :=
    match c with
    | .putCF .. => (.ok, flags ||| ContentFlags.hasPut.bit)
    | .putEntityCF .. => (.ok, flags ||| ContentFlags.hasPutEntity.bit)
    | .deleteCF .. => (.ok, flags ||| ContentFlags.hasDelete.bit)
    | .singleDeleteCF .. => (.ok, flags ||| ContentFlags.hasSingleDelete.bit)
    | .deleteRangeCF .. => (.ok, flags ||| ContentFlags.hasDeleteRange.bit)
    | .mergeCF .. => (.ok, flags ||| ContentFlags.hasMerge.bit)
    | .putBlobIndexCF .. => (.ok, flags ||| ContentFlags.hasBlobIndex.bit)
    | .markBeginPrepare unprepare =>
      let flags := flags ||| ContentFlags.hasBeginPrepare.bit
      (.ok, if unprepare then flags ||| ContentFlags.hasBeginUnprepare.bit else flags)
    | .markEndPrepare _ => (.ok, flags ||| ContentFlags.hasEndPrepare.bit)
    | .markCommit _ => (.ok, flags ||| ContentFlags.hasCommit.bit)
    | .markCommitWithTimestamp .. => (.ok, flags ||| ContentFlags.hasCommit.bit)
    | .markRollback _ => (.ok, flags ||| ContentFlags.hasRollback.bit)
    | .logData _ => (.ok, flags)
    | .markNoop _ => (.invalidArgument "MarkNoop() handler not defined.", flags)
  continue_ _ := true
  writeAfterCommit := .kUnknown
  writeBeforePrepare := .kUnknown

/-- `WriteBatch::ComputeContentFlags`: the stored flags, or, for a deferred batch, the classifier's over `Iterate`
(whose status is ignored; the store back into the mutable `content_flags_` is left out) -/
def WriteBatch.computeContentFlags (b : WriteBatch) : ℕ :=
  if b.contentFlags &&& ContentFlags.deferred ≠ 0 then (b.iterate batchContentClassifier 0).2 else b.contentFlags

/-- the `Has*` queries: `(ComputeContentFlags() & flag) != 0` -/
def WriteBatch.hasContent (b : WriteBatch) (flag : ContentFlags) : Bool := b.computeContentFlags &&& flag.bit ≠ 0

/-- `WriteBatch::HasPut` -/
def WriteBatch.hasPut (b : WriteBatch) : Bool := b.hasContent .hasPut
/-- `WriteBatch::HasPutEntity` -/
def WriteBatch.hasPutEntity (b : WriteBatch) : Bool := b.hasContent .hasPutEntity
/-- `WriteBatch::HasDelete` -/
def WriteBatch.hasDelete (b : WriteBatch) : Bool := b.hasContent .hasDelete
/-- `WriteBatch::HasSingleDelete` -/
def WriteBatch.hasSingleDelete (b : WriteBatch) : Bool := b.hasContent .hasSingleDelete
/-- `WriteBatch::HasDeleteRange` -/
def WriteBatch.hasDeleteRange (b : WriteBatch) : Bool := b.hasContent .hasDeleteRange
/-- `WriteBatch::HasMerge` -/
def WriteBatch.hasMerge (b : WriteBatch) : Bool := b.hasContent .hasMerge
/-- `WriteBatch::HasBeginPrepare` -/
def WriteBatch.hasBeginPrepare (b : WriteBatch) : Bool := b.hasContent .hasBeginPrepare
/-- `WriteBatch::HasEndPrepare` -/
def WriteBatch.hasEndPrepare (b : WriteBatch) : Bool := b.hasContent .hasEndPrepare
/-- `WriteBatch::HasCommit` -/
def WriteBatch.hasCommit (b : WriteBatch) : Bool := b.hasContent .hasCommit
/-- `WriteBatch::HasRollback` -/
def WriteBatch.hasRollback (b : WriteBatch) : Bool := b.hasContent .hasRollback

/-! ## Operations -/

/-- the batch's operations, as a client calls them -/
inductive WriteBatchOp (Cols : Type) where
  | put (columnFamilyId : UInt32) (key value : List UInt8)
  | delete (columnFamilyId : UInt32) (key : List UInt8)
  | singleDelete (columnFamilyId : UInt32) (key : List UInt8)
  | deleteRange (columnFamilyId : UInt32) (beginKey endKey : List UInt8)
  | merge (columnFamilyId : UInt32) (key value : List UInt8)
  | putBlobIndex (columnFamilyId : UInt32) (key value : List UInt8)
  | putEntity (columnFamilyId : UInt32) (key : List UInt8) (columns : Cols)
  | putLogData (blob : List UInt8)
  | setSavePoint
  | rollbackToSavePoint
  | popSavePoint
  | clear
  | setMaxBytes (maxBytes : ℕ)

/-- one operation and the status it returns (`OK` for those that return nothing) -/
def WriteBatch.step {Cols : Type} (serialize : Cols → Except Status (List UInt8)) (b : WriteBatch) :
    WriteBatchOp Cols → Status × WriteBatch
  | .put cf key value => b.put cf key value
  | .delete cf key => b.delete cf key
  | .singleDelete cf key => b.singleDelete cf key
  | .deleteRange cf beginKey endKey => b.deleteRange cf beginKey endKey
  | .merge cf key value => b.merge cf key value
  | .putBlobIndex cf key value => b.putBlobIndex cf key value
  | .putEntity cf key columns => b.putEntity serialize cf key columns
  | .putLogData blob => b.putLogData blob
  | .setSavePoint => (.ok, b.setSavePoint)
  | .rollbackToSavePoint => b.rollbackToSavePoint
  | .popSavePoint => b.popSavePoint
  | .clear => (.ok, b.clear)
  | .setMaxBytes maxBytes => (.ok, b.setMaxBytes maxBytes)

end ForSt
