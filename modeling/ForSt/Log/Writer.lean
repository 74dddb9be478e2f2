import ForSt.Log.Format
import ForSt.Util.Crc32c
/-!
`log::Writer` (`db/log_writer.cc`) without WAL compression, over a file that accepts every append.

The state is the bytes appended to `dest_` so far and the fields the format reads: `block_offset_`, `log_number_`,
`recycle_log_files_` and `recorded_cf_to_ts_sz_`. Flushing does not change the bytes and is left out.

- `emitPhysicalRecord`: header (masked crc of type, log number and payload; length; type; log number) and payload;
- `addRecordLoop`: `AddRecord`'s do-while loop, one fragment per turn, switching blocks first when fewer than a
  header's bytes are left (the trailer is zero-filled);
- `maybeAddUserDefinedTimestampSizeRecord`: records the column families not yet recorded, with one physical record
  emitted directly, without the block switch `AddRecord` does.
-/

namespace ForSt.log

open ForSt.Coding ForSt.crc32c

/-- the state of a `log::Writer` -/
structure Writer where
  /-- the bytes appended to the file -/
  dest : List UInt8
  blockOffset : ℕ
  logNumber : ℕ
  recycleLogFiles : Bool
  recordedCfToTsSz : List (ℕ × ℕ)
deriving DecidableEq, Repr

/-- a freshly constructed writer over an empty file -/
def Writer.create (logNumber : ℕ) (recycleLogFiles : Bool) : Writer := ⟨[], 0, logNumber, recycleLogFiles, []⟩

/-- `header_size` in `AddRecord` -/
def Writer.headerSize (w : Writer) : ℕ := if w.recycleLogFiles then kRecyclableHeaderSize else kHeaderSize

/-- the types `EmitPhysicalRecord` writes in the legacy 7-byte format -/
def RecordType.isLegacy (t : RecordType) : Bool :=
  decide (t.toNat < RecordType.kRecyclableFullType.toNat) || t == .kSetCompressionType ||
    t == .kUserDefinedTimestampSizeType

/-- bytes 7 to 10 of a recyclable header: only the low 32 bits of the log number are encoded -/
def logNumberBytes (t : RecordType) (logNumber : ℕ) : List UInt8 :=
  if t.isLegacy then [] else encodeFixed32 logNumber

/-- the stored checksum: of the type byte, the log number bytes and the payload, masked -/
def headerChecksum (crc : Crc32c) (logNumber : ℕ) (t : RecordType) (payload : List UInt8) : UInt32 :=
  let typeCrc := crc.value [UInt8.ofNat t.toNat]
  let c := if t.isLegacy then typeCrc else crc.extend typeCrc (logNumberBytes t logNumber)
  mask (crc.crc32cCombine c (crc.value payload) payload.length)

/-- the header `EmitPhysicalRecord` formats for a record of type `t` with `payload` -/
def physicalHeader (crc : Crc32c) (logNumber : ℕ) (t : RecordType) (payload : List UInt8) : List UInt8 :=
  let n := payload.length
  encodeFixed32 (headerChecksum crc logNumber t payload).toNat ++
    [UInt8.ofNat n, UInt8.ofNat (n >>> 8), UInt8.ofNat t.toNat] ++ logNumberBytes t logNumber

/-- `Writer::EmitPhysicalRecord` -/
def Writer.emitPhysicalRecord (crc : Crc32c) (w : Writer) (t : RecordType) (payload : List UInt8) : Writer :=
  let header := physicalHeader crc w.logNumber t payload
  { w with dest := w.dest ++ header ++ payload, blockOffset := w.blockOffset + header.length + payload.length }

/-- the block switch at the top of `AddRecord`'s loop; `leftover` is signed, as `int64_t` in the source -/
def Writer.switchBlock (w : Writer) : Writer :=
  let leftover : ℤ := (kBlockSize : ℤ) - w.blockOffset
  if leftover < w.headerSize then
    { w with dest := w.dest ++ List.replicate leftover.toNat 0, blockOffset := 0 }
  else w

/-- the fragment type `AddRecord` picks -/
def fragmentType (recycleLogFiles isBegin isEnd : Bool) : RecordType :=
  if isBegin && isEnd then (if recycleLogFiles then .kRecyclableFullType else .kFullType)
  else if isBegin then (if recycleLogFiles then .kRecyclableFirstType else .kFirstType)
  else if isEnd then (if recycleLogFiles then .kRecyclableLastType else .kLastType)
  else (if recycleLogFiles then .kRecyclableMiddleType else .kMiddleType)

theorem Writer.switchBlock_of_lt {w : Writer} (h : (kBlockSize : ℤ) - w.blockOffset < w.headerSize) :
    w.switchBlock =
      { w with dest := w.dest ++ List.replicate ((kBlockSize : ℤ) - w.blockOffset).toNat 0, blockOffset := 0 } := by
  simp only [switchBlock, if_pos h]

theorem Writer.switchBlock_of_ge {w : Writer} (h : ¬ (kBlockSize : ℤ) - w.blockOffset < w.headerSize) :
    w.switchBlock = w := by
  simp only [switchBlock, if_neg h]

@[simp] theorem Writer.switchBlock_headerSize (w : Writer) : w.switchBlock.headerSize = w.headerSize := by
  by_cases h : (kBlockSize : ℤ) - w.blockOffset < w.headerSize
  · rw [switchBlock_of_lt h]; rfl
  · rw [switchBlock_of_ge h]

@[simp] theorem Writer.switchBlock_recycleLogFiles (w : Writer) :
    w.switchBlock.recycleLogFiles = w.recycleLogFiles := by
  by_cases h : (kBlockSize : ℤ) - w.blockOffset < w.headerSize
  · rw [switchBlock_of_lt h]
  · rw [switchBlock_of_ge h]

@[simp] theorem Writer.switchBlock_logNumber (w : Writer) : w.switchBlock.logNumber = w.logNumber := by
  by_cases h : (kBlockSize : ℤ) - w.blockOffset < w.headerSize
  · rw [switchBlock_of_lt h]
  · rw [switchBlock_of_ge h]

/-- after the switch a whole header fits: either a new block was started or one already fitted -/
theorem Writer.switchBlock_cases (w : Writer) :
    w.switchBlock.blockOffset = 0 ∨ (w.switchBlock = w ∧ w.blockOffset + w.headerSize ≤ kBlockSize) := by
  by_cases h : (kBlockSize : ℤ) - w.blockOffset < w.headerSize
  · rw [switchBlock_of_lt h]; exact .inl rfl
  · rw [switchBlock_of_ge h]; right; refine ⟨rfl, ?_⟩; omega

theorem Writer.headerSize_pos (w : Writer) : 0 < w.headerSize := by
  unfold headerSize; split <;> decide

theorem Writer.headerSize_le (w : Writer) : w.headerSize ≤ kRecyclableHeaderSize := by
  unfold headerSize; split <;> decide

@[simp] theorem fragmentType_isLegacy (recycleLogFiles isBegin isEnd : Bool) :
    (fragmentType recycleLogFiles isBegin isEnd).isLegacy = !recycleLogFiles := by
  unfold fragmentType
  cases recycleLogFiles <;> cases isBegin <;> cases isEnd <;> decide

@[simp] theorem length_physicalHeader (crc : Crc32c) (logNumber : ℕ) (t : RecordType) (payload : List UInt8) :
    (physicalHeader crc logNumber t payload).length = if t.isLegacy then kHeaderSize else kRecyclableHeaderSize := by
  unfold physicalHeader logNumberBytes
  split <;> simp [*, kHeaderSize, kRecyclableHeaderSize]

/-- a fragment's header is `AddRecord`'s `header_size` -/
theorem length_physicalHeader_fragmentType (crc : Crc32c) (w : Writer) (isBegin isEnd : Bool)
    (payload : List UInt8) :
    (physicalHeader crc w.logNumber (fragmentType w.recycleLogFiles isBegin isEnd) payload).length = w.headerSize := by
  simp only [length_physicalHeader, fragmentType_isLegacy, Writer.headerSize]
  cases w.recycleLogFiles <;> rfl

/-- `AddRecord`'s loop over the `left` bytes still to write -/
def Writer.addRecordLoop (crc : Crc32c) (w : Writer) (left : List UInt8) (isBegin : Bool) : Writer :=
  let w₁ := w.switchBlock
  let avail := kBlockSize - w₁.blockOffset - w₁.headerSize
  let fragmentLength := min left.length avail
  let t := fragmentType w.recycleLogFiles isBegin (left.length == fragmentLength)
  let w₂ := w₁.emitPhysicalRecord crc t (left.take fragmentLength)
  if 0 < left.length - fragmentLength then w₂.addRecordLoop crc (left.drop fragmentLength) false else w₂
termination_by (left.length, kBlockSize - w.blockOffset)
decreasing_by
  -- an empty fragment is written only when the header exactly fills the block, which it then ends
  rcases w.switchBlock_cases with h | ⟨h, hfit⟩
  · apply Prod.Lex.left
    have := w.headerSize_pos
    have := w.headerSize_le
    simp only [List.length_drop, h, Writer.switchBlock_headerSize] at *
    unfold kBlockSize kRecyclableHeaderSize at *
    omega
  · rw [h]
    by_cases hav : 0 < kBlockSize - w.blockOffset - w.headerSize
    · apply Prod.Lex.left
      simp only [List.length_drop]
      omega
    · apply Prod.Lex.right'
      · simp only [List.length_drop]; omega
      · simp only [Writer.emitPhysicalRecord, length_physicalHeader_fragmentType, List.length_take]
        have := w.headerSize_pos
        omega

/-- `Writer::AddRecord` without compression -/
def Writer.addRecord (crc : Crc32c) (w : Writer) (slice : List UInt8) : Writer := w.addRecordLoop crc slice true

/-- `Writer::AddCompressionTypeRecord` with `compression_type_ == kNoCompression`: nothing is written -/
def Writer.addCompressionTypeRecord (w : Writer) : Writer := w

/-- the loop of `MaybeAddUserDefinedTimestampSizeRecord`: the pairs to record, and the recorded map after it -/
def collectTsSzToRecord : List (ℕ × ℕ) → List (ℕ × ℕ) → List (ℕ × ℕ) × List (ℕ × ℕ)
  | [], recorded => ([], recorded)
  | (cfId, tsSz) :: rest, recorded =>
    if recorded.any (·.1 == cfId) then collectTsSzToRecord rest recorded
    else if tsSz ≠ 0 then
      let r := collectTsSzToRecord rest (recorded ++ [(cfId, tsSz)])
      ((cfId, tsSz) :: r.1, r.2)
    else collectTsSzToRecord rest recorded

/-- `Writer::MaybeAddUserDefinedTimestampSizeRecord`; `cfToTsSz` lists the map in its iteration order -/
def Writer.maybeAddUserDefinedTimestampSizeRecord (crc : Crc32c) (w : Writer) (cfToTsSz : List (ℕ × ℕ)) : Writer :=
  let r := collectTsSzToRecord cfToTsSz w.recordedCfToTsSz
  if r.1 = [] then w
  else
    let t := if w.recycleLogFiles then RecordType.kRecyclableUserDefinedTimestampSizeType
      else .kUserDefinedTimestampSizeType
    { w with recordedCfToTsSz := r.2 }.emitPhysicalRecord crc t (udtEncodeTo r.1)

/-- the writer's operations -/
inductive WriterOp where
  | addRecord (slice : List UInt8)
  | maybeAddUserDefinedTimestampSizeRecord (cfToTsSz : List (ℕ × ℕ))
deriving DecidableEq, Repr

def Writer.step (crc : Crc32c) (w : Writer) : WriterOp → Writer
  | .addRecord slice => w.addRecord crc slice
  | .maybeAddUserDefinedTimestampSizeRecord cfToTsSz => w.maybeAddUserDefinedTimestampSizeRecord crc cfToTsSz

def Writer.run (crc : Crc32c) (w : Writer) (ops : List WriterOp) : Writer := ops.foldl (Writer.step crc) w

end ForSt.log
