import ForSt.Log.Format
import ForSt.Util.Crc32c
/-!
`log::Reader` (`db/log_reader.cc`) over a file whose reads never fail, without WAL decompression and without the
optional record checksum.

The state holds what the reader keeps between calls: the unread rest of the file, `buffer_` (the unconsumed part
of the last block read), `eof_`, `end_of_buffer_offset_`, `recycled_`, the metadata records' effects, and the
calls the reporter received. `ReadPhysicalRecord` and `ReadRecord` are the source's two `while (true)` loops:
- `readPhysicalRecord` reads a block at most twice before it returns (`readMore_continue` is the measure's step);
- `readRecordLoop` consumes at least a header's bytes on every turn that does not return
  (`readPhysicalRecord_progress`), so it stops at the end of any finite file.
-/

namespace ForSt.log

open ForSt.Coding ForSt.crc32c

/-- the state of a `log::Reader` -/
structure Reader where
  /-- the bytes `file_` has not returned yet -/
  file : List UInt8
  checksum : Bool
  buffer : List UInt8
  eof : Bool
  eofOffset : ℕ
  lastRecordOffset : ℕ
  endOfBufferOffset : ℕ
  logNumber : ℕ
  recycled : Bool
  firstRecordRead : Bool
  compressionType : ℕ
  compressionTypeRecordRead : Bool
  recordedCfToTsSz : List (ℕ × ℕ)
  /-- the calls `reporter_->Corruption(bytes, reason)` received, in order -/
  reports : List (ℕ × String)
deriving DecidableEq, Repr

/-- a reader constructed over `file` -/
def Reader.create (file : List UInt8) (checksum : Bool) (logNum : ℕ) : Reader :=
  ⟨file, checksum, [], false, 0, 0, 0, logNum, false, false, kNoCompression, false, [], []⟩

/-! ## The reader's special values past the record types -/

def kEof : ℕ := kMaxRecordType + 1
def kBadRecord : ℕ := kMaxRecordType + 2
def kBadHeader : ℕ := kMaxRecordType + 3
def kOldRecord : ℕ := kMaxRecordType + 4
def kBadRecordLen : ℕ := kMaxRecordType + 5
def kBadRecordChecksum : ℕ := kMaxRecordType + 6

/-- `const unsigned int type = header[6]` with a signed `char`: bytes from 128 up sign-extend -/
def headerTypeCode (b : UInt8) : ℕ := if b.toNat < 128 then b.toNat else b.toNat + (2 ^ 32 - 256)

/-- `ReportCorruption(bytes, reason)` -/
def Reader.reportCorruption (st : Reader) (bytes : ℕ) (reason : String) : Reader :=
  { st with reports := st.reports ++ [(bytes, reason)] }

/-! ## ReadMore -/

/-- the read of one block in `ReadMore`: a read of fewer than `kBlockSize` bytes marks EOF -/
def Reader.readBlock (st : Reader) : Reader :=
  let data := st.file.take kBlockSize
  let st' := { st with
    buffer := data, file := st.file.drop kBlockSize, endOfBufferOffset := st.endOfBufferOffset + data.length }
  if data.length < kBlockSize then { st' with eof := true, eofOffset := data.length } else st'

/-- `Reader::ReadMore`: `none` when it returns true, else the error and the drop size it sets -/
def Reader.readMore (st : Reader) : Reader × Option (ℕ × ℕ) :=
  -- the last read was a full block: the rest of the buffer is a trailer to skip
  if !st.eof then (st.readBlock, none)
  else if st.buffer.length ≠ 0 then ({ st with buffer := [] }, some (kBadHeader, st.buffer.length))
  else ({ st with buffer := [] }, some (kEof, 0))

section readBlock

variable (st : Reader)

@[simp] theorem Reader.readBlock_buffer : st.readBlock.buffer = st.file.take kBlockSize := by
  unfold readBlock; dsimp only; split <;> rfl

@[simp] theorem Reader.readBlock_file : st.readBlock.file = st.file.drop kBlockSize := by
  unfold readBlock; dsimp only; split <;> rfl

@[simp] theorem Reader.readBlock_endOfBufferOffset :
    st.readBlock.endOfBufferOffset = st.endOfBufferOffset + (st.file.take kBlockSize).length := by
  unfold readBlock; dsimp only; split <;> rfl

theorem Reader.readBlock_eof : st.readBlock.eof = (decide (st.file.length < kBlockSize) || st.eof) := by
  unfold readBlock; dsimp only
  split
  · rename_i h; simp only [List.length_take] at h; simp; omega
  · rename_i h; simp only [List.length_take] at h; simp; omega

@[simp] theorem Reader.readBlock_checksum : st.readBlock.checksum = st.checksum := by
  unfold readBlock; dsimp only; split <;> rfl

@[simp] theorem Reader.readBlock_logNumber : st.readBlock.logNumber = st.logNumber := by
  unfold readBlock; dsimp only; split <;> rfl

@[simp] theorem Reader.readBlock_recycled : st.readBlock.recycled = st.recycled := by
  unfold readBlock; dsimp only; split <;> rfl

@[simp] theorem Reader.readBlock_reports : st.readBlock.reports = st.reports := by
  unfold readBlock; dsimp only; split <;> rfl

@[simp] theorem Reader.readBlock_recordedCfToTsSz : st.readBlock.recordedCfToTsSz = st.recordedCfToTsSz := by
  unfold readBlock; dsimp only; split <;> rfl

end readBlock

/-- a read that returns true was not at EOF, and it either reached EOF or filled a whole block -/
theorem Reader.readMore_continue {st st' : Reader} (h : st.readMore = (st', none)) :
    st.eof = false ∧ (st'.eof = true ∨ st'.buffer.length = kBlockSize) := by
  unfold readMore at h
  cases he : st.eof
  · simp only [he, Bool.not_false, if_true, Prod.mk.injEq, and_true] at h
    subst h
    refine ⟨rfl, ?_⟩
    rw [Reader.readBlock_eof, Reader.readBlock_buffer, he, List.length_take]
    by_cases hl : st.file.length < kBlockSize
    · exact .inl (by simp [hl])
    · exact .inr (by omega)
  · simp only [he, Bool.not_true, Bool.false_eq_true, if_false] at h
    split at h <;> simp at h

/-! ## ReadPhysicalRecord -/

/-- what `ReadPhysicalRecord` hands back: its return value, `*result` and `*drop_size` -/
structure PhysicalRecord where
  code : ℕ
  fragment : List UInt8
  dropSize : ℕ
deriving DecidableEq, Repr

def isRecyclableTypeCode (type : ℕ) : Bool :=
  (decide (RecordType.kRecyclableFullType.toNat ≤ type) && decide (type ≤ RecordType.kRecyclableLastType.toNat)) ||
    type == RecordType.kRecyclableUserDefinedTimestampSizeType.toNat

/-- the measure of `ReadPhysicalRecord`'s loop: a call of `ReadMore` that returns true is at most the second -/
def Reader.readMoreBudget (st : Reader) : ℕ :=
  (if st.eof then 0 else 2) + (if st.buffer.length < kRecyclableHeaderSize then 1 else 0)

theorem Reader.readMoreBudget_lt {st st' : Reader} (h : st.readMore = (st', none))
    (hb : st.buffer.length < kRecyclableHeaderSize) : st'.readMoreBudget < st.readMoreBudget := by
  obtain ⟨he, he' | hfull⟩ := readMore_continue h
  · simp only [readMoreBudget, he, he', hb, if_true, Bool.false_eq_true, if_false]
    split <;> omega
  · have : ¬ st'.buffer.length < kRecyclableHeaderSize := by rw [hfull]; decide
    cases he'' : st'.eof <;> simp [readMoreBudget, he, he'', hb, this]

/-- the length field: bytes 4 and 5 of the header, little-endian -/
def headerLength (header : List UInt8) : ℕ := (header.getD 4 0).toNat ||| ((header.getD 5 0).toNat <<< 8)

/-- the type field: byte 6 of the header -/
def headerType (header : List UInt8) : ℕ := headerTypeCode (header.getD 6 0)

/-- what `ReadPhysicalRecord` parses of a header needs its first seven bytes only -/
theorem headerType_take (l : List UInt8) {j : ℕ} (hj : kHeaderSize ≤ j) : headerType (l.take j) = headerType l := by
  unfold headerType
  simp only [List.getD_eq_getElem?_getD, List.getElem?_take]
  rw [if_pos (by unfold kHeaderSize at hj; omega)]

/-- `recycled_` is set when a recyclable header starts the file -/
def Reader.markRecycled (st : Reader) : Reader :=
  if isRecyclableTypeCode (headerType st.buffer) && st.endOfBufferOffset - st.buffer.length == 0 then
    { st with recycled := true }
  else st

/-- `header_size`: 11 bytes for the recyclable types, 7 for the others -/
def recordHeaderSize (recyclable : Bool) : ℕ := if recyclable then kRecyclableHeaderSize else kHeaderSize

theorem recordHeaderSize_pos (recyclable : Bool) : 0 < recordHeaderSize recyclable := by
  unfold recordHeaderSize; split <;> decide

/-- the checks of `ReadPhysicalRecord` once `buffer_` holds the whole header -/
def Reader.checkRecord (crc : Crc32c) (st : Reader) : PhysicalRecord × Reader :=
  let header := st.buffer
  let length := headerLength header
  let type := headerType header
  let recyclable := isRecyclableTypeCode type
  let headerSize := recordHeaderSize recyclable
  if st.buffer.length < headerSize + length then (⟨kBadRecordLen, [], st.buffer.length⟩, { st with buffer := [] })
  else if recyclable && decodeFixed32 (header.drop 7) != st.logNumber then
    (⟨kOldRecord, [], 0⟩, { st with buffer := st.buffer.drop (headerSize + length) })
  else if type == RecordType.kZeroType.toNat && length == 0 then
    -- preallocated regions of an mmap-written file
    (⟨kBadRecord, [], 0⟩, { st with buffer := [] })
  else if st.checksum &&
      unmask (UInt32.ofNat (decodeFixed32 header)) != crc.value ((header.drop 6).take (length + headerSize - 6))
  then (⟨kBadRecordChecksum, [], st.buffer.length⟩, { st with buffer := [] })
  else (⟨type, (header.drop headerSize).take length, 0⟩, { st with buffer := st.buffer.drop (headerSize + length) })

-- the hypotheses named in the loop are used by `decreasing_by`, which the linter does not see
set_option linter.unusedVariables false in
/-- `Reader::ReadPhysicalRecord` -/
def Reader.readPhysicalRecord (crc : Crc32c) (st : Reader) : PhysicalRecord × Reader :=
  if hb : st.buffer.length < kHeaderSize then
    -- we need at least the minimum header size
    match hm : st.readMore with
    | (st', some (r, dropSize)) => (⟨r, [], dropSize⟩, st')
    | (st', none) => st'.readPhysicalRecord crc
  else if hr : isRecyclableTypeCode (headerType st.buffer) && st.buffer.length < kRecyclableHeaderSize then
    -- we need enough for the larger header
    match hm : st.markRecycled.readMore with
    | (st', some (r, dropSize)) => (⟨r, [], dropSize⟩, st')
    | (st', none) => st'.readPhysicalRecord crc
  else st.markRecycled.checkRecord crc
termination_by st.readMoreBudget
decreasing_by
  · exact readMoreBudget_lt hm (lt_of_lt_of_le hb (by decide))
  · have hb' : st.markRecycled.buffer.length < kRecyclableHeaderSize := by
      simp only [Bool.and_eq_true, decide_eq_true_eq] at hr
      unfold Reader.markRecycled; split <;> exact hr.2
    have hlt := readMoreBudget_lt hm hb'
    have heq : st.markRecycled.readMoreBudget = st.readMoreBudget := by
      unfold Reader.markRecycled; split <;> rfl
    omega

section progress

variable (st : Reader)

@[simp] theorem Reader.markRecycled_buffer : st.markRecycled.buffer = st.buffer := by
  unfold markRecycled; split <;> rfl

@[simp] theorem Reader.markRecycled_file : st.markRecycled.file = st.file := by
  unfold markRecycled; split <;> rfl

@[simp] theorem Reader.markRecycled_eof : st.markRecycled.eof = st.eof := by
  unfold markRecycled; split <;> rfl

@[simp] theorem Reader.markRecycled_endOfBufferOffset :
    st.markRecycled.endOfBufferOffset = st.endOfBufferOffset := by
  unfold markRecycled; split <;> rfl

@[simp] theorem Reader.markRecycled_logNumber : st.markRecycled.logNumber = st.logNumber := by
  unfold markRecycled; split <;> rfl

/-- what is left to read: the buffer and the rest of the file -/
def Reader.remaining : ℕ := st.buffer.length + st.file.length

theorem Reader.readMore_some {st st' : Reader} {r dropSize : ℕ} (h : st.readMore = (st', some (r, dropSize))) :
    r = kBadHeader ∨ r = kEof := by
  unfold readMore at h
  split at h
  · simp at h
  · split at h <;> simp at h <;> omega

theorem Reader.readMore_remaining {st st' : Reader} {o : Option (ℕ × ℕ)} (h : st.readMore = (st', o)) :
    st'.remaining ≤ st.remaining := by
  unfold readMore at h
  split at h
  · simp only [Prod.mk.injEq] at h
    obtain ⟨rfl, -⟩ := h
    simp only [remaining, readBlock_buffer, readBlock_file, List.length_take, List.length_drop]
    omega
  · split at h <;> simp only [Prod.mk.injEq] at h <;> obtain ⟨rfl, -⟩ := h <;> simp [remaining]

/-- every check either drops the buffer or consumes the record: a header's bytes at least -/
theorem Reader.checkRecord_progress (crc : Crc32c) (hb : kHeaderSize ≤ st.buffer.length) :
    (st.checkRecord crc).2.remaining < st.remaining := by
  have hpos : 0 < st.buffer.length := lt_of_lt_of_le (by decide) hb
  have hdrop : ∀ k, 0 < k → (st.buffer.drop k).length < st.buffer.length := by
    intro k hk; simp only [List.length_drop]; omega
  have hcons := hdrop _ (Nat.add_pos_left (recordHeaderSize_pos (isRecyclableTypeCode (headerType st.buffer)))
    (headerLength st.buffer))
  unfold checkRecord
  dsimp only
  split
  · simp [remaining]; omega
  split
  · simp only [remaining]; omega
  split
  · simp [remaining]; omega
  split
  · simp [remaining]; omega
  · simp only [remaining]; omega

end progress

/-- every call of `ReadPhysicalRecord` that does not report EOF or a bad header consumes bytes -/
theorem Reader.readPhysicalRecord_progress (crc : Crc32c) (st : Reader)
    (h1 : (st.readPhysicalRecord crc).1.code ≠ kEof) (h2 : (st.readPhysicalRecord crc).1.code ≠ kBadHeader) :
    (st.readPhysicalRecord crc).2.remaining < st.remaining := by
  fun_induction Reader.readPhysicalRecord crc st with
  | case1 st hb st' r dropSize hm =>
    rcases Reader.readMore_some hm with rfl | rfl
    · exact absurd rfl h2
    · exact absurd rfl h1
  | case2 st hb st' hm ih => exact lt_of_lt_of_le (ih h1 h2) (Reader.readMore_remaining hm)
  | case3 st hb hr st' r dropSize hm =>
    rcases Reader.readMore_some hm with rfl | rfl
    · exact absurd rfl h2
    · exact absurd rfl h1
  | case4 st hb hr st' hm ih =>
    have := Reader.readMore_remaining hm
    have heq : st.markRecycled.remaining = st.remaining := by simp [Reader.remaining]
    omega
  | case5 st hb hr =>
    have := Reader.checkRecord_progress st.markRecycled crc (by simp only [Reader.markRecycled_buffer]; omega)
    have heq : st.markRecycled.remaining = st.remaining := by simp [Reader.remaining]
    omega

/-! ## ReadRecord -/

/-- `UpdateRecordedTimestampSize`: the recorded map after the update, and the error that stopped it -/
def updateRecordedTimestampSize : List (ℕ × ℕ) → List (ℕ × ℕ) → List (ℕ × ℕ) × Option String
  | recorded, [] => (recorded, none)
  | recorded, (cf, tsSz) :: rest =>
    if tsSz = 0 then (recorded, some "User-defined timestamp size record contains zero timestamp size.")
    else if recorded.any (·.1 == cf) then
      (recorded, some "User-defined timestamp size record contains update to recorded column family.")
    else updateRecordedTimestampSize (recorded ++ [(cf, tsSz)]) rest

/-- the `kSetCompressionType` case of `ReadRecord`, after `last_record_offset_` is set -/
def Reader.handleSetCompressionType (st : Reader) (fragment : List UInt8) : Reader :=
  let st := if st.compressionTypeRecordRead then
    st.reportCorruption fragment.length "read multiple SetCompressionType records" else st
  let st := if st.firstRecordRead then st.reportCorruption fragment.length "SetCompressionType not the first record"
    else st
  match compressionTypeDecodeFrom fragment with
  | .error _ => st.reportCorruption fragment.length "could not decode SetCompressionType record"
  | .ok c => { st with compressionType := c, compressionTypeRecordRead := true }

/-- the `kUserDefinedTimestampSizeType` case of `ReadRecord`, after the interspersed-record check -/
def Reader.handleTimestampSizeRecord (st : Reader) (fragment : List UInt8) : Reader :=
  match udtDecodeFrom fragment with
  | .error _ => st.reportCorruption fragment.length "could not decode user-defined timestamp size record"
  | .ok l =>
    match updateRecordedTimestampSize st.recordedCfToTsSz l with
    | (recorded, none) => { st with recordedCfToTsSz := recorded }
    | (recorded, some msg) => { st with recordedCfToTsSz := recorded }.reportCorruption fragment.length msg

/-- `kAbsoluteConsistency` and `kPointInTimeRecovery` report the truncations the other modes pass over -/
def WALRecoveryMode.reportsTail (mode : WALRecoveryMode) : Bool :=
  mode == .kAbsoluteConsistency || mode == .kPointInTimeRecovery

section handlers

variable (st : Reader) (fragment : List UInt8)

@[simp] theorem Reader.reportCorruption_remaining (bytes : ℕ) (reason : String) :
    (st.reportCorruption bytes reason).remaining = st.remaining := rfl

@[simp] theorem Reader.handleSetCompressionType_remaining :
    (st.handleSetCompressionType fragment).remaining = st.remaining := by
  unfold handleSetCompressionType; dsimp only
  split <;> split <;> split <;> rfl

@[simp] theorem Reader.handleTimestampSizeRecord_remaining :
    (st.handleTimestampSizeRecord fragment).remaining = st.remaining := by
  unfold handleTimestampSizeRecord
  split
  · rfl
  · split <;> rfl

@[simp] theorem Reader.remaining_lastRecordOffset (o : ℕ) : { st with lastRecordOffset := o }.remaining = st.remaining :=
  rfl

end handlers

-- the hypotheses named in the loop are used by `decreasing_by`, which the linter does not see
set_option linter.unusedVariables false in
/-- the `while (true)` loop of `Reader::ReadRecord`, with its locals `in_fragmented_record`, `*scratch` and
`prospective_record_offset`; `some record` is a return of true -/
def Reader.readRecordLoop (crc : Crc32c) (mode : WALRecoveryMode) (st : Reader) (inFragmentedRecord : Bool)
    (scratch : List UInt8) (prospectiveRecordOffset : ℕ) : Option (List UInt8) × Reader :=
  let physicalRecordOffset := st.endOfBufferOffset - st.buffer.length
  match hp : st.readPhysicalRecord crc with
  | (r, st') =>
    if r.code = RecordType.kFullType.toNat ∨ r.code = RecordType.kRecyclableFullType.toNat then
      let st' := if inFragmentedRecord && !scratch.isEmpty then
        st'.reportCorruption scratch.length "partial record without end(1)" else st'
      (some r.fragment, { st' with lastRecordOffset := physicalRecordOffset, firstRecordRead := true })
    else if r.code = RecordType.kFirstType.toNat ∨ r.code = RecordType.kRecyclableFirstType.toNat then
      let st' := if inFragmentedRecord && !scratch.isEmpty then
        st'.reportCorruption scratch.length "partial record without end(2)" else st'
      st'.readRecordLoop crc mode true r.fragment physicalRecordOffset
    else if r.code = RecordType.kMiddleType.toNat ∨ r.code = RecordType.kRecyclableMiddleType.toNat then
      if !inFragmentedRecord then
        (st'.reportCorruption r.fragment.length "missing start of fragmented record(1)").readRecordLoop crc mode
          inFragmentedRecord scratch prospectiveRecordOffset
      else st'.readRecordLoop crc mode inFragmentedRecord (scratch ++ r.fragment) prospectiveRecordOffset
    else if r.code = RecordType.kLastType.toNat ∨ r.code = RecordType.kRecyclableLastType.toNat then
      if !inFragmentedRecord then
        (st'.reportCorruption r.fragment.length "missing start of fragmented record(2)").readRecordLoop crc mode
          inFragmentedRecord scratch prospectiveRecordOffset
      else (some (scratch ++ r.fragment), { st' with lastRecordOffset := prospectiveRecordOffset, firstRecordRead := true })
    else if r.code = RecordType.kSetCompressionType.toNat then
      ({ st' with lastRecordOffset := physicalRecordOffset }.handleSetCompressionType r.fragment).readRecordLoop crc mode
        inFragmentedRecord [] physicalRecordOffset
    else if r.code = RecordType.kUserDefinedTimestampSizeType.toNat ∨
        r.code = RecordType.kRecyclableUserDefinedTimestampSizeType.toNat then
      let st' := if inFragmentedRecord && !scratch.isEmpty then
        st'.reportCorruption scratch.length "user-defined timestamp size record interspersed partial record" else st'
      ({ st' with lastRecordOffset := physicalRecordOffset }.handleTimestampSizeRecord r.fragment).readRecordLoop crc
        mode inFragmentedRecord [] physicalRecordOffset
    else if r.code = kBadHeader ∨ r.code = kEof then
      -- a truncated header falls through to the end of the file
      let st' := if r.code = kBadHeader && mode.reportsTail then st'.reportCorruption r.dropSize "truncated header"
        else st'
      let st' := if inFragmentedRecord && mode.reportsTail then
        st'.reportCorruption scratch.length "error reading trailing data" else st'
      (none, st')
    else if r.code = kOldRecord ∧ mode ≠ .kSkipAnyCorruptedRecords then
      -- a record from a previous instance of the log is its end
      let st' := if inFragmentedRecord && mode.reportsTail then
        st'.reportCorruption scratch.length "error reading trailing data" else st'
      (none, st')
    else if r.code = kOldRecord ∨ r.code = kBadRecord then
      if inFragmentedRecord then
        (st'.reportCorruption scratch.length "error in middle of record").readRecordLoop crc mode false []
          prospectiveRecordOffset
      else st'.readRecordLoop crc mode inFragmentedRecord scratch prospectiveRecordOffset
    else if r.code = kBadRecordLen ∧ st'.eof then
      let st' := if mode.reportsTail then st'.reportCorruption r.dropSize "truncated record body" else st'
      (none, st')
    else if r.code = kBadRecordLen ∨ r.code = kBadRecordChecksum then
      if st'.recycled && mode == .kTolerateCorruptedTailRecords then (none, st')
      else
        let st' := st'.reportCorruption r.dropSize
          (if r.code = kBadRecordLen then "bad record length" else "checksum mismatch")
        if inFragmentedRecord then
          (st'.reportCorruption scratch.length "error in middle of record").readRecordLoop crc mode false []
            prospectiveRecordOffset
        else st'.readRecordLoop crc mode inFragmentedRecord scratch prospectiveRecordOffset
    else
      let st' := st'.reportCorruption (r.fragment.length + if inFragmentedRecord then scratch.length else 0)
        ("unknown record type " ++ toString r.code)
      st'.readRecordLoop crc mode false [] prospectiveRecordOffset
termination_by st.remaining
decreasing_by
  all_goals
    have hprog := Reader.readPhysicalRecord_progress crc st
    rw [hp] at hprog
    simp only at hprog
    -- the reports and metadata a turn records leave the bytes to read as `ReadPhysicalRecord` left them
    try simp only [dite_eq_ite, apply_ite Reader.remaining, Reader.reportCorruption_remaining, ite_self,
      Reader.handleSetCompressionType_remaining, Reader.handleTimestampSizeRecord_remaining,
      Reader.remaining_lastRecordOffset]
    apply hprog <;> (simp only [kEof, kBadHeader, kMaxRecordType, RecordType.toNat] at *; omega)

/-- `Reader::ReadRecord` -/
def Reader.readRecord (crc : Crc32c) (st : Reader) (mode : WALRecoveryMode) : Option (List UInt8) × Reader :=
  st.readRecordLoop crc mode false [] 0

end ForSt.log
