import ForSt.Db.WriteBatch
/-!
`MemTableInserter` (`db/write_batch.cc`): the `WriteBatch::Handler` that `WriteBatchInternal::InsertInto` runs over a
batch to write its records into the memtables, each at the sequence number `sequence_` holds when `Iterate` reaches
it, and `InsertInto` over a write group and over one writer.

- `MaybeAdvanceSeq(batch_boundry)` moves `sequence_` (a `uint64_t`) by one when `batch_boundry == seq_per_batch_`:
  a data record moves it by default, a batch boundary (`MarkNoop`, `MarkEndPrepare`, `MarkCommit`, `MarkRollback`)
  with `seq_per_batch_`.
- Each record handler first calls `SeekToColumnFamily`. A family that is missing and ignored, or that already holds
  the updates of the log being recovered, is answered OK and moves the sequence as a write would; a missing family
  that is not ignored is `InvalidArgument`. A `TryAgain` from the memtable moves the sequence only as a batch
  boundary, and `Iterate` hands the record over once more.
- `DeleteRangeCF` with a DB refuses a table type without range deletions and a range whose end comes before its
  start, and answers an empty range with OK, neither writing it nor moving the sequence.
- `PutCFImpl` writes with `Add`, `Update`, or `UpdateCallback` with a read from the DB for a key not in the
  memtable. `MergeCF` past `max_successive_merges` merges with the value the DB holds, and otherwise, or when that
  read or merge fails, adds the operand.

The memtables, the DB's reads and the merge operator are the fields of `ColumnFamilyMemTables` over the state `M` of
the memtables; a family (existence, log number, options, comparator) does not change while a group is written. Left
out: the transaction recovery rebuilds (`rebuilding_trx_`, with their branches and `IsDuplicateKeySeq`), so the
markers in recovery are the parameter `markRecovered`; per-key protection info (a mismatch is a status of `add`); the
schedulers of `CheckMemtableFull`; the maps of concurrent writes; and `has_valid_writes_`, null here.
-/

namespace ForSt

/-- `UpdateStatus`: what an `inplace_callback` did with the value -/
inductive UpdateStatus where
  | updateFailed
  | updatedInplace
  | updated
deriving DecidableEq, Repr

/-- what `MemTableInserter` reads and writes through `ColumnFamilyMemTables`, the memtable of the family it has
moved to and the `DB`, over the state `M` of the memtables; a family is named by its id -/
structure ColumnFamilyMemTables (M : Type) where
  /-- `Seek(column_family_id)` finds the family -/
  seek : UInt32 → Bool
  /-- `GetLogNumber()`: the family holds the updates of every log before it -/
  getLogNumber : UInt32 → ℕ
  /-- `MemTable::RefLogContainingPrepSection(log)` -/
  refLogContainingPrepSection : M → UInt32 → ℕ → M
  /-- `MemTable::Add(s, type, key, value)` -/
  add : M → UInt32 → UInt64 → ValueType → List UInt8 → List UInt8 → Status × M
  /-- `inplace_update_support` of the memtable's options -/
  inplaceUpdateSupport : UInt32 → Bool
  /-- `inplace_callback != nullptr` -/
  hasInplaceCallback : UInt32 → Bool
  /-- `MemTable::Update(s, type, key, value)` -/
  update : M → UInt32 → UInt64 → ValueType → List UInt8 → List UInt8 → Status × M
  /-- `MemTable::UpdateCallback(s, key, delta)` -/
  updateCallback : M → UInt32 → UInt64 → List UInt8 → List UInt8 → Status × M
  /-- `DB::Get` at a snapshot of that sequence number -/
  get : M → UInt32 → UInt64 → List UInt8 → Except Status (List UInt8)
  /-- `inplace_callback(existing, delta)`: what it did, and the value it leaves -/
  inplaceCallback : UInt32 → Option (List UInt8) → List UInt8 → UpdateStatus × List UInt8
  /-- `timestamp_size()` of the family's user comparator -/
  timestampSize : UInt32 → ℕ
  /-- `is_delete_range_supported()` of the family -/
  isDeleteRangeSupported : UInt32 → Bool
  /-- `table_factory->Name()` -/
  tableFactoryName : UInt32 → String
  /-- `GetName()` of the family -/
  getName : UInt32 → String
  /-- `CompareWithoutTimestamp` of the family's user comparator -/
  compareWithoutTimestamp : UInt32 → List UInt8 → List UInt8 → Ordering
  /-- `merge_operator != nullptr` -/
  hasMergeOperator : UInt32 → Bool
  /-- `max_successive_merges` -/
  maxSuccessiveMerges : UInt32 → ℕ
  /-- `CountSuccessiveMergeEntries(LookupKey(key, s))` -/
  countSuccessiveMergeEntries : M → UInt32 → UInt64 → List UInt8 → ℕ
  /-- `DB::GetEntity` at a snapshot of that sequence number: the columns the DB holds -/
  getEntity : M → UInt32 → UInt64 → List UInt8 → Except Status (List UInt8)
  /-- `MergeHelper::TimedFullMerge` of one operand into those columns: the new value and its type -/
  timedFullMerge : UInt32 → List UInt8 → List UInt8 → List UInt8 → Except Status (ValueType × List UInt8)

/-- the arguments a `MemTableInserter` is built with that its handlers read -/
structure InserterOptions where
  ignoreMissingColumnFamilies : Bool
  /-- `recovering_log_number_`: 0 outside recovery -/
  recoveringLogNumber : ℕ
  /-- `db_ != nullptr` -/
  hasDb : Bool
  seqPerBatch : Bool
  batchPerTxn : Bool
deriving DecidableEq, Repr

/-- the fields of a `MemTableInserter` its handlers move -/
structure MemTableInserter (M : Type) where
  /-- `sequence_` -/
  sequence : UInt64
  /-- `log_number_ref_` -/
  logNumberRef : ℕ
  /-- the memtables behind `cf_mems_` -/
  mem : M

namespace MemTableInserter

section handlers

variable {M : Type} (cfMems : ColumnFamilyMemTables M) (opts : InserterOptions)

/-- `MaybeAdvanceSeq(batch_boundry)` -/
def maybeAdvanceSeq (batchBoundry : Bool) (st : MemTableInserter M) : MemTableInserter M :=
  if batchBoundry == opts.seqPerBatch then { st with sequence := st.sequence + 1 } else st

/-- `SeekToColumnFamily`: the inserter once it has moved to the family, or the status it sets when it returns
`false` -/
def seekToColumnFamily (columnFamilyId : UInt32) (st : MemTableInserter M) : Except Status (MemTableInserter M) :=
  if !cfMems.seek columnFamilyId then
    .error (if opts.ignoreMissingColumnFamilies then .ok
      else .invalidArgument "Invalid column family specified in write batch")
  -- in recovery, the family already holds this log's updates
  else if opts.recoveringLogNumber ≠ 0 ∧ opts.recoveringLogNumber < cfMems.getLogNumber columnFamilyId then .error .ok
  else if st.logNumberRef > 0 then
    .ok { st with mem := cfMems.refLogContainingPrepSection st.mem columnFamilyId st.logNumberRef }
  else .ok st

/-- a record handler past `SeekToColumnFamily`: when it returns `false` with OK the record is skipped, and the
sequence moves as a write would -/
def onColumnFamily (columnFamilyId : UInt32) (write : MemTableInserter M → Status × MemTableInserter M)
    (st : MemTableInserter M) : Status × MemTableInserter M :=
  match seekToColumnFamily cfMems opts columnFamilyId st with
  | .error s => (s, if s.isOk then maybeAdvanceSeq opts false st else st)
  | .ok st => write st

/-- the end of a memtable write in `PutCFImpl`, `DeleteImpl` and `MergeCF`: a `TryAgain` is a batch boundary, an OK
moves the sequence -/
def advanceAfterWrite (r : Status × M) (st : MemTableInserter M) : Status × MemTableInserter M :=
  let st := { st with mem := r.2 }
  if r.1.isTryAgain then (r.1, maybeAdvanceSeq opts true st)
  else if r.1.isOk then (r.1, maybeAdvanceSeq opts false st)
  else (r.1, st)

/-- the `inplace_callback` path of `PutCFImpl` for a key `UpdateCallback` did not find: read it from the DB (with a
DB and outside recovery; else `NotSupported`), run the callback on what is there, and add the value it leaves -/
def updateFromDb (columnFamilyId : UInt32) (key value : List UInt8) (st : MemTableInserter M) (m : M) : Status × M :=
  let getStatus :=
    if opts.hasDb ∧ opts.recoveringLogNumber = 0 then cfMems.get m columnFamilyId st.sequence key
    else .error (.notSupported "")
  let existing : Except Status (Option (List UInt8)) :=
    match getStatus with
    | .ok prev => .ok (some prev)
    | .error .notFound => .ok none
    | .error s => .error s
  match existing with
  | .error s => (s, m)
  | .ok existing =>
    match cfMems.inplaceCallback columnFamilyId existing value with
    | (.updateFailed, _) => (.ok, m)
    | (_, newValue) => cfMems.add m columnFamilyId st.sequence .kTypeValue key newValue

/-- the memtable write of `PutCFImpl` -/
def putToMemTable (columnFamilyId : UInt32) (key value : List UInt8) (valueType : ValueType)
    (st : MemTableInserter M) : Status × M :=
  if !cfMems.inplaceUpdateSupport columnFamilyId then
    cfMems.add st.mem columnFamilyId st.sequence valueType key value
  else if !cfMems.hasInplaceCallback columnFamilyId || valueType != .kTypeValue then
    cfMems.update st.mem columnFamilyId st.sequence valueType key value
  else
    let r := cfMems.updateCallback st.mem columnFamilyId st.sequence key value
    if r.1 = .notFound then updateFromDb cfMems opts columnFamilyId key value st r.2 else r

/-- `PutCFImpl`, of `PutCF`, `PutEntityCF` and `PutBlobIndexCF` -/
def putCFImpl (columnFamilyId : UInt32) (key value : List UInt8) (valueType : ValueType) (st : MemTableInserter M) :
    Status × MemTableInserter M :=
  onColumnFamily cfMems opts columnFamilyId
    (fun st => advanceAfterWrite opts (putToMemTable cfMems opts columnFamilyId key value valueType st) st) st

/-- `DeleteImpl` -/
def deleteImpl (columnFamilyId : UInt32) (key value : List UInt8) (deleteType : ValueType)
    (st : MemTableInserter M) : Status × MemTableInserter M :=
  advanceAfterWrite opts (cfMems.add st.mem columnFamilyId st.sequence deleteType key value) st

/-- `DeleteCF`: a deletion with a timestamp where the family's keys carry one -/
def deleteCF (columnFamilyId : UInt32) (key : List UInt8) (st : MemTableInserter M) : Status × MemTableInserter M :=
  onColumnFamily cfMems opts columnFamilyId (fun st =>
    let deleteType := if cfMems.timestampSize columnFamilyId = 0 then .kTypeDeletion else .kTypeDeletionWithTimestamp
    deleteImpl cfMems opts columnFamilyId key [] deleteType st) st

/-- `SingleDeleteCF` -/
def singleDeleteCF (columnFamilyId : UInt32) (key : List UInt8) (st : MemTableInserter M) :
    Status × MemTableInserter M :=
  onColumnFamily cfMems opts columnFamilyId
    (fun st => deleteImpl cfMems opts columnFamilyId key [] .kTypeSingleDeletion st) st

/-- `DeleteRangeCF` -/
def deleteRangeCF (columnFamilyId : UInt32) (beginKey endKey : List UInt8) (st : MemTableInserter M) :
    Status × MemTableInserter M :=
  onColumnFamily cfMems opts columnFamilyId (fun st =>
    if opts.hasDb then
      if !cfMems.isDeleteRangeSupported columnFamilyId then
        (.notSupported ("DeleteRange not supported for table type " ++ cfMems.tableFactoryName columnFamilyId ++
          " in CF " ++ cfMems.getName columnFamilyId), st)
      else
        match cfMems.compareWithoutTimestamp columnFamilyId beginKey endKey with
        | .gt => (.invalidArgument "end key comes before start key", st)
        -- an empty range: not applied, and the sequence stays
        | .eq => (.ok, st)
        | .lt => deleteImpl cfMems opts columnFamilyId beginKey endKey .kTypeRangeDeletion st
    else deleteImpl cfMems opts columnFamilyId beginKey endKey .kTypeRangeDeletion st) st

/-- the memtable write of `MergeCF`: past `max_successive_merges` operands at the head of the key, with a DB and
outside recovery, the operand merged into what the DB holds; otherwise, or when that read or merge fails, the
operand -/
def mergeToMemTable (columnFamilyId : UInt32) (key value : List UInt8) (st : MemTableInserter M) : Status × M :=
  let addOperand := cfMems.add st.mem columnFamilyId st.sequence .kTypeMerge key value
  if cfMems.maxSuccessiveMerges columnFamilyId > 0 ∧ opts.hasDb ∧ opts.recoveringLogNumber = 0 ∧
      cfMems.maxSuccessiveMerges columnFamilyId ≤
        cfMems.countSuccessiveMergeEntries st.mem columnFamilyId st.sequence key then
    match cfMems.getEntity st.mem columnFamilyId st.sequence key with
    | .error _ => addOperand
    | .ok existing =>
      match cfMems.timedFullMerge columnFamilyId key existing value with
      | .error _ => addOperand
      | .ok (newValueType, newValue) => cfMems.add st.mem columnFamilyId st.sequence newValueType key newValue
  else addOperand

/-- `MergeCF` -/
def mergeCF (columnFamilyId : UInt32) (key value : List UInt8) (st : MemTableInserter M) :
    Status × MemTableInserter M :=
  onColumnFamily cfMems opts columnFamilyId (fun st =>
    if !cfMems.hasMergeOperator columnFamilyId then
      (.invalidArgument "Merge requires `ColumnFamilyOptions::merge_operator != nullptr`", st)
    else advanceAfterWrite opts (mergeToMemTable cfMems opts columnFamilyId key value st) st) st

/-- `MarkNoop`: the end of a batch that had no prepare marker, unless nothing was written before it -/
def markNoop (emptyBatch : Bool) (st : MemTableInserter M) : Status × MemTableInserter M :=
  (.ok, if !emptyBatch then maybeAdvanceSeq opts true st else st)

/-- a transaction marker: in recovery `markRecovered`, else `outside` -/
def markOutsideRecovery (markRecovered : HandlerCall → MemTableInserter M → Status × MemTableInserter M)
    (c : HandlerCall) (outside : MemTableInserter M → Status × MemTableInserter M) (st : MemTableInserter M) :
    Status × MemTableInserter M :=
  if opts.recoveringLogNumber ≠ 0 then markRecovered c st else outside st

/-- the `MemTableInserter` callback each call of `Iterate` reaches; `markRecovered` is what the transaction markers
do in recovery. Outside recovery `MarkBeginPrepare` does nothing, and `MarkEndPrepare`, `MarkCommit`,
`MarkCommitWithTimestamp` and `MarkRollback` are batch boundaries. -/
def call (markRecovered : HandlerCall → MemTableInserter M → Status × MemTableInserter M) :
    HandlerCall → MemTableInserter M → Status × MemTableInserter M
  | .putCF cf key value, st => putCFImpl cfMems opts cf key value .kTypeValue st
  | .putEntityCF cf key entity, st => putCFImpl cfMems opts cf key entity .kTypeWideColumnEntity st
  | .putBlobIndexCF cf key value, st => putCFImpl cfMems opts cf key value .kTypeBlobIndex st
  | .deleteCF cf key, st => deleteCF cfMems opts cf key st
  | .singleDeleteCF cf key, st => singleDeleteCF cfMems opts cf key st
  | .deleteRangeCF cf beginKey endKey, st => deleteRangeCF cfMems opts cf beginKey endKey st
  | .mergeCF cf key value, st => mergeCF cfMems opts cf key value st
  -- `Handler::LogData` does nothing
  | .logData _, st => (.ok, st)
  | .markNoop emptyBatch, st => markNoop opts emptyBatch st
  | c@(.markBeginPrepare _), st => markOutsideRecovery opts markRecovered c (fun st => (.ok, st)) st
  | c@(.markEndPrepare _), st => markOutsideRecovery opts markRecovered c (fun st => (.ok, maybeAdvanceSeq opts true st)) st
  | c@(.markCommit _), st => markOutsideRecovery opts markRecovered c (fun st => (.ok, maybeAdvanceSeq opts true st)) st
  | c@(.markCommitWithTimestamp ..), st =>
    markOutsideRecovery opts markRecovered c (fun st => (.ok, maybeAdvanceSeq opts true st)) st
  | c@(.markRollback _), st => markOutsideRecovery opts markRecovered c (fun st => (.ok, maybeAdvanceSeq opts true st)) st

/-- the inserter as a `WriteBatch::Handler`: `write_after_commit_` is `!seq_per_batch`, `write_before_prepare_` is
`!batch_per_txn`, and `Continue()` is the base class's -/
def handler (markRecovered : HandlerCall → MemTableInserter M → Status × MemTableInserter M) :
    Handler (MemTableInserter M) where
  call := call cfMems opts markRecovered
  continue_ _ := true
  writeAfterCommit := if opts.seqPerBatch then .kDisabled else .kEnabled
  writeBeforePrepare := if opts.batchPerTxn then .kDisabled else .kEnabled

end handlers

end MemTableInserter

/-! ## `InsertInto` -/

/-- the fields of a `WriteThread::Writer` that `InsertInto` reads and writes -/
structure Writer where
  batch : WriteBatch
  status : Status
  /-- `callback_status` of the writer's callback; `none` without a callback -/
  callbackStatus : Option Status
  disableMemtable : Bool
  logRef : ℕ
  sequence : UInt64

/-- `CallbackFailed()` -/
def Writer.callbackFailed (w : Writer) : Bool := w.callbackStatus.any fun s => !s.isOk

/-- `ShouldWriteToMemtable()` -/
def Writer.shouldWriteToMemtable (w : Writer) : Bool := w.status.isOk && !w.callbackFailed && !w.disableMemtable

namespace MemTableInserter

variable {M : Type} (cfMems : ColumnFamilyMemTables M) (opts : InserterOptions)
  (markRecovered : HandlerCall → MemTableInserter M → Status × MemTableInserter M)

/-- the loop of `WriteBatchInternal::InsertInto(WriteGroup&, ...)` from inserter `st`: the status, the writers as it
leaves them, and the inserter. A writer that is not skipped gets the sequence number it starts at; a writer that
does not write to the memtable moves it as a batch boundary; the first batch that fails ends the loop. -/
def insertIntoLoop : List Writer → MemTableInserter M → Status × List Writer × MemTableInserter M
  | [], st => (.ok, [], st)
  | w :: ws, st =>
    if w.callbackFailed then
      let r := insertIntoLoop ws st
      (r.1, w :: r.2.1, r.2.2)
    else if !w.shouldWriteToMemtable then
      let r := insertIntoLoop ws (maybeAdvanceSeq opts true st)
      (r.1, { w with sequence := st.sequence } :: r.2.1, r.2.2)
    else
      let batch := w.batch.setSequence st.sequence.toNat
      let r := batch.iterate (handler cfMems opts markRecovered) { st with logNumberRef := w.logRef }
      let w := { w with batch, sequence := st.sequence, status := r.1 }
      if !r.1.isOk then (r.1, w :: ws, r.2)
      else
        let r' := insertIntoLoop ws r.2
        (r'.1, w :: r'.2.1, r'.2.2)

/-- `WriteBatchInternal::InsertInto(WriteGroup&, sequence, ...)`: a fresh inserter at `sequence` -/
def insertInto (writeGroup : List Writer) (sequence : UInt64) (mem : M) : Status × List Writer × MemTableInserter M :=
  insertIntoLoop cfMems opts markRecovered writeGroup ⟨sequence, 0, mem⟩

/-- `WriteBatchInternal::InsertInto(Writer*, sequence, ...)`: the status, the batch after `SetSequence`, and the
inserter -/
def insertIntoWriter (writer : Writer) (sequence : UInt64) (mem : M) : Status × WriteBatch × MemTableInserter M :=
  let batch := writer.batch.setSequence sequence.toNat
  let r := batch.iterate (handler cfMems opts markRecovered) ⟨sequence, writer.logRef, mem⟩
  (r.1, batch, r.2)

end MemTableInserter

end ForSt
