import ForSt.Log.Reader
/-!
`log::FragmentBufferedReader` (`db/log_reader.cc`), the reader that tails a log still being written: the record it is
assembling stays in `fragments_` between calls, and `ReadRecord` returns false when the file holds no whole record.

`TryReadFragment` reads until the buffer holds a header (`fillBuffer`), then the larger header of a recyclable type,
then the record, and checks it as `ReadPhysicalRecord` does. Reads never fail, so `TryReadMore` always returns true:
it reads a whole block, or at EOF unmarks it and reads the rest of the last block. Without WAL compression,
`uncompress_` is never set.

`ReadRecord` is a loop with no bound of its own: `readRecordStep` is one turn, and `readRecordLoop` runs at most
`fuel` turns, `none` when they are used up.
- `readHeader_oldRecord`: a recyclable record with another log number is answered `kOldRecord` and left in the
  buffer, where `Reader::ReadPhysicalRecord` drops it;
- `readRecordStep_oldRecord`: a turn on such a record returns nothing and keeps it at the front of the buffer;
- `readRecord_never_returns_on_old_recyclable_record`: over a file that starts with such a record, `ReadRecord` does
  not return within any number of turns.
-/

namespace ForSt.log

open ForSt.Coding ForSt.crc32c

/-- the state of a `log::FragmentBufferedReader`: a `log::Reader` and the record it is assembling -/
structure FragmentBufferedReader extends Reader where
  fragments : List UInt8
  inFragmentedRecord : Bool
deriving DecidableEq, Repr

namespace FragmentBufferedReader

/-- a reader constructed over `file` -/
def create (file : List UInt8) (checksum : Bool) (logNum : ℕ) : FragmentBufferedReader :=
  { toReader := Reader.create file checksum logNum, fragments := [], inFragmentedRecord := false }

/-- `ReportCorruption(bytes, reason)` -/
def report (st : FragmentBufferedReader) (bytes : ℕ) (reason : String) : FragmentBufferedReader :=
  { st with toReader := st.toReader.reportCorruption bytes reason }

/-- `UnmarkEOF`, through `Reader::UnmarkEOFInternal`: the rest of the last block, read after the bytes still in the
buffer -/
def unmarkEOF (st : FragmentBufferedReader) : FragmentBufferedReader :=
  let remaining := kBlockSize - st.eofOffset
  let added := st.file.take remaining
  let st' := { st with
    eof := false, buffer := st.buffer ++ added, file := st.file.drop remaining
    endOfBufferOffset := st.endOfBufferOffset + added.length }
  if added.length < remaining then { st' with eof := true, eofOffset := st.eofOffset + added.length }
  else { st' with eofOffset := 0 }

/-- `TryReadMore`, whose reads never fail: it returns true -/
def tryReadMore (st : FragmentBufferedReader) : FragmentBufferedReader :=
  if !st.eof then { st with toReader := st.toReader.readBlock } else st.unmarkEOF

/-- what is left to read, counted so that a read that changes the buffer lowers it -/
def readBudget (st : FragmentBufferedReader) : ℕ := 2 * st.file.length + if st.eof then 0 else 1

theorem tryReadMore_budget {st : FragmentBufferedReader}
    (h : st.tryReadMore.buffer.length ≠ st.buffer.length) : st.tryReadMore.readBudget < st.readBudget := by
  unfold tryReadMore at h ⊢
  cases he : st.eof
  · simp only [Bool.not_false, if_true, readBudget, he, Reader.readBlock_file, Reader.readBlock_eof,
      List.length_drop, Bool.or_false, Bool.false_eq_true, if_false]
    by_cases hf : st.file.length < kBlockSize
    · simp only [hf, decide_true, if_true]
      omega
    · simp only [hf, decide_false, Bool.false_eq_true, if_false]
      have : 0 < kBlockSize := by decide
      omega
  · simp only [he, Bool.not_true, Bool.false_eq_true, if_false] at h ⊢
    -- the read added bytes, so it took them from the file
    have hadded : 0 < (st.file.take (kBlockSize - st.eofOffset)).length := by
      unfold unmarkEOF at h
      dsimp only at h
      split at h <;> simp only [List.length_append] at h <;> omega
    have hfile : st.unmarkEOF.file.length < st.file.length := by
      unfold unmarkEOF
      dsimp only
      simp only [List.length_take] at hadded
      split <;> simp only [List.length_drop] <;> omega
    simp only [readBudget, he, if_true]
    split <;> omega

-- the hypothesis named in the loop is used by `decreasing_by`, which the linter does not see
set_option linter.unusedVariables false in
/-- the loops of `TryReadFragment` that read until the buffer holds `need` bytes: false when a read adds nothing -/
def fillBuffer (need : ℕ) (st : FragmentBufferedReader) : Bool × FragmentBufferedReader :=
  if st.buffer.length < need then
    if h : st.tryReadMore.buffer.length = st.buffer.length then (false, st.tryReadMore)
    else st.tryReadMore.fillBuffer need
  else (true, st)
termination_by st.readBudget
decreasing_by exact tryReadMore_budget h

theorem fillBuffer_of_le {st : FragmentBufferedReader} {need : ℕ} (h : need ≤ st.buffer.length) :
    st.fillBuffer need = (true, st) := by
  rw [fillBuffer, if_neg (by omega)]

/-- what `TryReadFragment` hands back: its return value, `*fragment`, `*drop_size` and `*fragment_type_or_err`; on a
return of false the last two are not read -/
structure Fragment where
  ready : Bool
  data : List UInt8
  dropSize : ℕ
  typeOrErr : ℕ
deriving DecidableEq, Repr

/-- the end of `TryReadFragment` once the header is read: the record's bytes, then its checks -/
def readBody (crc : Crc32c) (headerSize length type : ℕ) (st : FragmentBufferedReader) :
    Fragment × FragmentBufferedReader :=
  match st.fillBuffer (headerSize + length) with
  | (false, st) => (⟨false, [], 0, 0⟩, st)
  | (true, st) =>
    let header := st.buffer
    if type == RecordType.kZeroType.toNat && length == 0 then (⟨true, [], 0, kBadRecord⟩, { st with buffer := [] })
    else if st.checksum &&
        unmask (UInt32.ofNat (decodeFixed32 header)) != crc.value ((header.drop 6).take (length + headerSize - 6))
    then (⟨true, [], st.buffer.length, kBadRecordChecksum⟩, { st with buffer := [] })
    else
      (⟨true, (header.drop headerSize).take length, 0, type⟩, { st with buffer := st.buffer.drop (headerSize + length) })

/-- `TryReadFragment` once the buffer holds a header -/
def readHeader (crc : Crc32c) (st : FragmentBufferedReader) : Fragment × FragmentBufferedReader :=
  let length := headerLength st.buffer
  let type := headerType st.buffer
  if isRecyclableTypeCode type then
    let st := { st with toReader := st.toReader.markRecycled }
    match st.fillBuffer kRecyclableHeaderSize with
    | (false, st) => (⟨false, [], 0, 0⟩, st)
    | (true, st) =>
      -- a record of another log is answered without consuming it
      if decodeFixed32 (st.buffer.drop 7) != st.logNumber then (⟨true, [], 0, kOldRecord⟩, st)
      else st.readBody crc kRecyclableHeaderSize length type
  else st.readBody crc kHeaderSize length type

/-- `TryReadFragment` -/
def tryReadFragment (crc : Crc32c) (st : FragmentBufferedReader) : Fragment × FragmentBufferedReader :=
  match st.fillBuffer kHeaderSize with
  | (false, st) => (⟨false, [], 0, 0⟩, st)
  | (true, st) => st.readHeader crc

/-- a turn of `ReadRecord`'s loop: it returns, or goes on with the state and `prospective_record_offset` -/
inductive Turn where
  | done (found : Bool) (record : List UInt8) (st : FragmentBufferedReader)
  | next (st : FragmentBufferedReader) (prospectiveRecordOffset : ℕ)

/-- the end of the `kBadHeader`, `kBadRecord`, `kEof` and `kOldRecord` case: a partial record is reported and
dropped -/
def dropPartialRecord (st : FragmentBufferedReader) : FragmentBufferedReader :=
  if st.inFragmentedRecord then
    { st.report st.fragments.length "error in middle of record" with inFragmentedRecord := false, fragments := [] }
  else st

/-- the body of `ReadRecord`'s loop; `physical_record_offset` is computed once, before the loop -/
def readRecordStep (crc : Crc32c) (physicalRecordOffset : ℕ) (st : FragmentBufferedReader)
    (prospectiveRecordOffset : ℕ) : Turn :=
  match st.tryReadFragment crc with
  | (r, st) =>
    let code := r.typeOrErr
    if !r.ready then .done false [] st
    else if code = RecordType.kFullType.toNat ∨ code = RecordType.kRecyclableFullType.toNat then
      let st := if st.inFragmentedRecord && !st.fragments.isEmpty then
        st.report st.fragments.length "partial record without end(1)" else st
      .done true r.data { st with
        fragments := [], lastRecordOffset := physicalRecordOffset, firstRecordRead := true
        inFragmentedRecord := false }
    else if code = RecordType.kFirstType.toNat ∨ code = RecordType.kRecyclableFirstType.toNat then
      let st := if st.inFragmentedRecord || !st.fragments.isEmpty then
        st.report st.fragments.length "partial record without end(2)" else st
      .next { st with fragments := r.data, inFragmentedRecord := true } physicalRecordOffset
    else if code = RecordType.kMiddleType.toNat ∨ code = RecordType.kRecyclableMiddleType.toNat then
      if !st.inFragmentedRecord then
        .next (st.report r.data.length "missing start of fragmented record(1)") prospectiveRecordOffset
      else .next { st with fragments := st.fragments ++ r.data } prospectiveRecordOffset
    else if code = RecordType.kLastType.toNat ∨ code = RecordType.kRecyclableLastType.toNat then
      if !st.inFragmentedRecord then
        .next (st.report r.data.length "missing start of fragmented record(2)") prospectiveRecordOffset
      else .done true (st.fragments ++ r.data) { st with
        fragments := [], lastRecordOffset := prospectiveRecordOffset, firstRecordRead := true
        inFragmentedRecord := false }
    else if code = RecordType.kSetCompressionType.toNat then
      let st := { st with fragments := [], lastRecordOffset := physicalRecordOffset, inFragmentedRecord := false }
      .next { st with toReader := st.toReader.handleSetCompressionType r.data } physicalRecordOffset
    else if code = RecordType.kUserDefinedTimestampSizeType.toNat ∨
        code = RecordType.kRecyclableUserDefinedTimestampSizeType.toNat then
      -- `*scratch` stays empty until the return that fills it, so the interspersed-record check never reports
      let st := { st with fragments := [], lastRecordOffset := physicalRecordOffset, inFragmentedRecord := false }
      .next { st with toReader := st.toReader.handleTimestampSizeRecord r.data } physicalRecordOffset
    else if code = kBadHeader ∨ code = kBadRecord ∨ code = kEof ∨ code = kOldRecord then
      .next st.dropPartialRecord prospectiveRecordOffset
    else if code = kBadRecordChecksum then
      if st.recycled then .done false [] { st with fragments := [] }
      else .next (st.report r.dropSize "checksum mismatch").dropPartialRecord prospectiveRecordOffset
    else
      let st := st.report (r.data.length + if st.inFragmentedRecord then st.fragments.length else 0)
        ("unknown record type " ++ toString code)
      .next { st with inFragmentedRecord := false, fragments := [] } prospectiveRecordOffset

/-- `ReadRecord`'s loop, for at most `fuel` turns: `some (found, record, state)` when it returns -/
def readRecordLoop (crc : Crc32c) (physicalRecordOffset : ℕ) :
    ℕ → FragmentBufferedReader → ℕ → Option (Bool × List UInt8 × FragmentBufferedReader)
  | 0, _, _ => none
  | fuel + 1, st, prospectiveRecordOffset =>
    match st.readRecordStep crc physicalRecordOffset prospectiveRecordOffset with
    | .done found record st => some (found, record, st)
    | .next st prospectiveRecordOffset => readRecordLoop crc physicalRecordOffset fuel st prospectiveRecordOffset

/-- `ReadRecord`, for at most `fuel` turns of its loop -/
def readRecord (crc : Crc32c) (fuel : ℕ) (st : FragmentBufferedReader) :
    Option (Bool × List UInt8 × FragmentBufferedReader) :=
  readRecordLoop crc (st.endOfBufferOffset - st.buffer.length) fuel st 0

/-! ## A record of another log -/

/-- the buffer starts with the whole header of a recyclable record whose log number is not the reader's -/
structure HoldsOldRecord (st : FragmentBufferedReader) : Prop where
  header : kRecyclableHeaderSize ≤ st.buffer.length
  recyclable : isRecyclableTypeCode (headerType st.buffer) = true
  logNumber : decodeFixed32 (st.buffer.drop 7) ≠ st.logNumber

/-- what a turn leaves of a reader that holds such a record -/
def afterOldRecord (st : FragmentBufferedReader) : FragmentBufferedReader :=
  { st with toReader := st.toReader.markRecycled }.dropPartialRecord

theorem readHeader_oldRecord (crc : Crc32c) {st : FragmentBufferedReader} (h : HoldsOldRecord st) :
    st.readHeader crc = (⟨true, [], 0, kOldRecord⟩, { st with toReader := st.toReader.markRecycled }) := by
  have hfill : ({ st with toReader := st.toReader.markRecycled } : FragmentBufferedReader).fillBuffer
      kRecyclableHeaderSize = (true, { st with toReader := st.toReader.markRecycled }) :=
    fillBuffer_of_le (by simpa using h.header)
  have hlog : (decodeFixed32 (st.toReader.markRecycled.buffer.drop 7) != st.toReader.markRecycled.logNumber) =
      true := by
    simpa using h.logNumber
  unfold readHeader
  rw [if_pos h.recyclable]
  dsimp only
  rw [hfill]
  dsimp only
  rw [if_pos hlog]

theorem tryReadFragment_oldRecord (crc : Crc32c) {st : FragmentBufferedReader} (h : HoldsOldRecord st) :
    st.tryReadFragment crc = (⟨true, [], 0, kOldRecord⟩, { st with toReader := st.toReader.markRecycled }) := by
  have hfill : st.fillBuffer kHeaderSize = (true, st) :=
    fillBuffer_of_le (le_trans (by decide) h.header)
  unfold tryReadFragment
  rw [hfill]
  exact readHeader_oldRecord crc h

theorem readRecordStep_oldRecord (crc : Crc32c) (physicalRecordOffset : ℕ) {st : FragmentBufferedReader}
    (h : HoldsOldRecord st) (prospectiveRecordOffset : ℕ) :
    st.readRecordStep crc physicalRecordOffset prospectiveRecordOffset =
      .next st.afterOldRecord prospectiveRecordOffset := by
  unfold readRecordStep
  rw [tryReadFragment_oldRecord crc h]
  simp only [Bool.not_true, Bool.false_eq_true, if_false, kOldRecord, kBadHeader, kBadRecord, kEof,
    kMaxRecordType, RecordType.toNat]
  rfl

theorem HoldsOldRecord.afterOldRecord {st : FragmentBufferedReader} (h : HoldsOldRecord st) :
    HoldsOldRecord st.afterOldRecord := by
  have hbuf : st.afterOldRecord.buffer = st.buffer := by
    unfold FragmentBufferedReader.afterOldRecord dropPartialRecord
    split <;> simp [report, Reader.reportCorruption]
  have hlog : st.afterOldRecord.logNumber = st.logNumber := by
    unfold FragmentBufferedReader.afterOldRecord dropPartialRecord
    split <;> simp [report, Reader.reportCorruption]
  exact ⟨hbuf ▸ h.header, hbuf ▸ h.recyclable, hbuf ▸ hlog ▸ h.logNumber⟩

/-- the run lemma: from a reader that holds a record of another log, no number of turns returns -/
theorem readRecordLoop_oldRecord (crc : Crc32c) (physicalRecordOffset : ℕ) :
    ∀ (fuel : ℕ) (st : FragmentBufferedReader) (prospectiveRecordOffset : ℕ), HoldsOldRecord st →
      readRecordLoop crc physicalRecordOffset fuel st prospectiveRecordOffset = none
  | 0, _, _, _ => rfl
  | fuel + 1, st, prospectiveRecordOffset, h => by
    rw [readRecordLoop, readRecordStep_oldRecord crc physicalRecordOffset h]
    exact readRecordLoop_oldRecord crc physicalRecordOffset fuel _ _ h.afterOldRecord

/-- the first read of a fresh reader: the first block of the file -/
theorem create_fillBuffer (file : List UInt8) (checksum : Bool) (logNum : ℕ) (hlen : kHeaderSize ≤ file.length) :
    (create file checksum logNum).fillBuffer kHeaderSize =
      (true, { create file checksum logNum with toReader := (Reader.create file checksum logNum).readBlock }) := by
  have hread : (create file checksum logNum).tryReadMore =
      { create file checksum logNum with toReader := (Reader.create file checksum logNum).readBlock } := rfl
  have hempty : (create file checksum logNum).buffer.length = 0 := rfl
  have hblock : kHeaderSize ≤ ((Reader.create file checksum logNum).readBlock).buffer.length := by
    simp only [Reader.readBlock_buffer, List.length_take]
    exact le_min (by decide) hlen
  have hgrew : ({ create file checksum logNum with toReader := (Reader.create file checksum logNum).readBlock } :
      FragmentBufferedReader).buffer.length ≠ (create file checksum logNum).buffer.length := by
    have : 0 < kHeaderSize := by decide
    change ((Reader.create file checksum logNum).readBlock).buffer.length ≠ _
    omega
  rw [fillBuffer, if_pos (by rw [hempty]; decide), hread, dif_neg hgrew]
  exact fillBuffer_of_le hblock

theorem decodeFixed32_drop_take {file : List UInt8} {n : ℕ} (h : 11 ≤ n) :
    decodeFixed32 ((file.take n).drop 7) = decodeFixed32 (file.drop 7) := by
  simp only [decodeFixed32, List.drop_take, List.take_take]
  congr 2
  omega

/-- **`ReadRecord` never returns on an old record.** Over a file that starts with a whole recyclable header whose log
number is not the reader's, as a reused log file does, no number of turns of the loop returns: every turn answers
`kOldRecord` and leaves the record in the buffer. -/
theorem readRecord_never_returns_on_old_recyclable_record (crc : Crc32c) (file : List UInt8) (checksum : Bool)
    (logNum : ℕ) (hlen : kRecyclableHeaderSize ≤ file.length)
    (htype : isRecyclableTypeCode (headerType file) = true) (hlog : decodeFixed32 (file.drop 7) ≠ logNum) :
    ∀ fuel, (create file checksum logNum).readRecord crc fuel = none := by
  intro fuel
  let st := { create file checksum logNum with toReader := (Reader.create file checksum logNum).readBlock }
  have hfill := create_fillBuffer file checksum logNum (le_trans (by decide) hlen)
  have hold : HoldsOldRecord st := by
    have hbuf : st.buffer = file.take kBlockSize := Reader.readBlock_buffer _
    have hnum : st.logNumber = logNum := Reader.readBlock_logNumber _
    refine ⟨?_, ?_, ?_⟩
    · rw [hbuf, List.length_take]
      exact le_min (by decide) hlen
    · rw [hbuf, headerType_take _ (by decide)]
      exact htype
    · rw [hbuf, decodeFixed32_drop_take (by decide), hnum]
      exact hlog
  -- the first turn reads the first block, then meets the record as every later turn does
  have hstep : ∀ p, (create file checksum logNum).readRecordStep crc 0 p = .next st.afterOldRecord p := by
    intro p
    have hfrag : (create file checksum logNum).tryReadFragment crc = st.tryReadFragment crc := by
      unfold tryReadFragment
      rw [hfill, fillBuffer_of_le (le_trans (by decide) hold.header)]
    rw [← readRecordStep_oldRecord crc 0 hold p]
    unfold readRecordStep
    rw [hfrag]
  cases fuel with
  | zero => rfl
  | succ fuel =>
    show readRecordLoop crc 0 (fuel + 1) (create file checksum logNum) 0 = none
    rw [readRecordLoop, hstep]
    exact readRecordLoop_oldRecord crc 0 fuel _ 0 hold.afterOldRecord

/-- a log file reused by log 2 that still starts with an empty full record of log 1 -/
theorem readRecord_never_returns_on_log_one_record :
    kRecyclableHeaderSize ≤ [0, 0, 0, 0, 0, 0, 5, 1, 0, 0, 0].length ∧
      isRecyclableTypeCode (headerType [0, 0, 0, 0, 0, 0, 5, 1, 0, 0, 0]) = true ∧
      decodeFixed32 (([0, 0, 0, 0, 0, 0, 5, 1, 0, 0, 0] : List UInt8).drop 7) ≠ 2 ∧
      ∀ fuel, (create [0, 0, 0, 0, 0, 0, 5, 1, 0, 0, 0] true 2).readRecord crc32c.bitwise fuel = none :=
  ⟨by decide, by decide, by decide,
    readRecord_never_returns_on_old_recyclable_record crc32c.bitwise _ true 2 (by decide) (by decide) (by decide)⟩

end FragmentBufferedReader

end ForSt.log
