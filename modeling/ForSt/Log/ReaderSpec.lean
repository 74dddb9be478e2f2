import ForSt.Log.Reader
import ForSt.Log.Writer
/-!
What `log::Reader` does with the bytes `log::Writer` lays out.

The reader's position is the number `p` of bytes of the file `f` it has consumed; `Synced f p st` says its state is
the one it has at `p`. From a synced state a record written inside one block is returned whole
(`Synced.readPhysicalRecord_frame`), a block's zero trailer is skipped (`Synced.readPhysicalRecord_shortTrailer`,
`Synced.readPhysicalRecord_zeros`), and a file cut inside a record gives EOF or a bad record, the reader then
`Drained` (`Synced.readPhysicalRecord_nearEnd`, `Synced.readPhysicalRecord_cut`). The `readRecordLoop_of_*` lemmas
read one turn of `ReadRecord` off the physical record it gets.
-/

namespace ForSt.log

open ForSt.Bytes ForSt.Coding ForSt.crc32c

/-! ## The header, as the reader parses it -/

theorem isRecyclableTypeCode_toNat (t : RecordType) : isRecyclableTypeCode t.toNat = !t.isLegacy := by
  cases t <;> decide

theorem headerTypeCode_toNat (t : RecordType) : headerTypeCode (UInt8.ofNat t.toNat) = t.toNat := by
  cases t <;> decide

theorem length_logNumberBytes (t : RecordType) (L : ℕ) :
    (logNumberBytes t L).length = if t.isLegacy then 0 else 4 := by
  unfold logNumberBytes; split <;> simp

/-- the reader's `header_size` for a written type is the header the writer wrote -/
theorem recordHeaderSize_toNat (crc : Crc32c) (L : ℕ) (t : RecordType) (payload : List UInt8) :
    recordHeaderSize (isRecyclableTypeCode t.toNat) = (physicalHeader crc L t payload).length := by
  rw [isRecyclableTypeCode_toNat, length_physicalHeader]
  cases t.isLegacy <;> rfl

theorem getD_encodeFixed32_append (c : ℕ) (l : List UInt8) (i : ℕ) :
    (encodeFixed32 c ++ l).getD (4 + i) 0 = l.getD i 0 := by
  simp only [List.getD_eq_getElem?_getD]
  rw [List.getElem?_append_right (by simp)]
  simp

theorem or_shiftLeft_eight {a b : ℕ} (ha : a < 256) : a ||| (b <<< 8) = a + 256 * b := by
  rw [Nat.shiftLeft_eq, Nat.mul_comm, Nat.or_comm, ← Nat.two_pow_add_eq_or_of_lt (i := 8) (by simpa using ha)]
  ring

section header

variable (crc : Crc32c) (L : ℕ) (t : RecordType) (payload rest : List UInt8)

theorem physicalHeader_append :
    physicalHeader crc L t payload ++ rest = encodeFixed32 (headerChecksum crc L t payload).toNat ++
      (UInt8.ofNat payload.length :: UInt8.ofNat (payload.length >>> 8) :: UInt8.ofNat t.toNat ::
        (logNumberBytes t L ++ rest)) := by
  simp [physicalHeader]

theorem headerLength_physicalHeader (hn : payload.length < 2 ^ 16) :
    headerLength (physicalHeader crc L t payload ++ rest) = payload.length := by
  have h4 := getD_encodeFixed32_append (headerChecksum crc L t payload).toNat
    (UInt8.ofNat payload.length :: UInt8.ofNat (payload.length >>> 8) :: UInt8.ofNat t.toNat ::
      (logNumberBytes t L ++ rest)) 0
  have h5 := getD_encodeFixed32_append (headerChecksum crc L t payload).toNat
    (UInt8.ofNat payload.length :: UInt8.ofNat (payload.length >>> 8) :: UInt8.ofNat t.toNat ::
      (logNumberBytes t L ++ rest)) 1
  simp only [Nat.add_zero, List.getD_cons_zero, List.getD_cons_succ] at h4 h5
  rw [headerLength, physicalHeader_append, h4, h5, UInt8.toNat_ofNat', UInt8.toNat_ofNat',
    or_shiftLeft_eight (Nat.mod_lt _ (by decide)), Nat.shiftRight_eq_div_pow]
  omega

theorem headerType_physicalHeader : headerType (physicalHeader crc L t payload ++ rest) = t.toNat := by
  have h6 := getD_encodeFixed32_append (headerChecksum crc L t payload).toNat
    (UInt8.ofNat payload.length :: UInt8.ofNat (payload.length >>> 8) :: UInt8.ofNat t.toNat ::
      (logNumberBytes t L ++ rest)) 2
  simp only [List.getD_cons_succ, List.getD_cons_zero] at h6
  rw [headerType, physicalHeader_append, h6, headerTypeCode_toNat]

theorem decodeFixed32_physicalHeader :
    UInt32.ofNat (decodeFixed32 (physicalHeader crc L t payload ++ rest)) = headerChecksum crc L t payload := by
  rw [physicalHeader_append, decodeFixed32_encodeFixed32, Nat.mod_eq_of_lt (UInt32.toNat_lt _), UInt32.ofNat_toNat]

theorem logNumber_physicalHeader (ht : t.isLegacy = false) :
    decodeFixed32 ((physicalHeader crc L t payload ++ rest).drop 7) = L % 2 ^ 32 := by
  have hdrop : (physicalHeader crc L t payload ++ rest).drop 7 = logNumberBytes t L ++ rest := by
    rw [physicalHeader_append, List.drop_append, List.drop_eq_nil_of_le (by simp)]
    rfl
  rw [hdrop, logNumberBytes, if_neg (by simp [ht]), decodeFixed32_encodeFixed32]

/-- the bytes the reader checksums: the type byte, the log number bytes and the payload -/
theorem checksummed_physicalHeader :
    ((physicalHeader crc L t payload ++ payload ++ rest).drop 6).take
        (payload.length + (physicalHeader crc L t payload).length - 6) =
      UInt8.ofNat t.toNat :: (logNumberBytes t L ++ payload) := by
  have hlen : (physicalHeader crc L t payload).length = 7 + (logNumberBytes t L).length := by
    rw [length_physicalHeader, length_logNumberBytes]; split <;> rfl
  rw [List.append_assoc, physicalHeader_append, List.drop_append, List.drop_eq_nil_of_le (by simp), hlen]
  simp only [length_encodeFixed32, List.nil_append, show 6 - 4 = 2 from rfl, List.drop_succ_cons, List.drop_zero]
  rw [show payload.length + (7 + (logNumberBytes t L).length) - 6 = (logNumberBytes t L ++ payload).length + 1 by
    simp; omega]
  simp only [List.take_succ_cons, List.length_append, ← List.append_assoc]
  rw [List.take_left' (by simp)]

theorem fragment_physicalHeader :
    ((physicalHeader crc L t payload ++ payload ++ rest).drop (physicalHeader crc L t payload).length).take
      payload.length = payload := by
  simp

/-- the checksum the writer stores is the one the reader computes -/
theorem unmask_headerChecksum :
    unmask (headerChecksum crc L t payload) = crc.value (UInt8.ofNat t.toNat :: (logNumberBytes t L ++ payload)) := by
  unfold headerChecksum
  simp only [unmask_mask]
  split
  · rename_i h
    have hl : logNumberBytes t L = [] := by simp [logNumberBytes, h]
    rw [hl, List.nil_append, ← List.singleton_append, crc.combine_value', List.append_nil, List.singleton_append]
  · rw [crc.extend_value', crc.combine_value', ← List.cons_append, List.singleton_append]

end header

/-- the zero type is never written, so a written header is not taken for preallocated space -/
theorem toNat_ne_zero {t : RecordType} (ht : t ≠ .kZeroType) : t.toNat ≠ 0 := by
  cases t <;> simp_all [RecordType.toNat]

/-- what `ReadPhysicalRecord` parses of a buffer that starts with a written record: its length, its type, and room
for both -/
theorem parse_written_buffer (crc : Crc32c) {buf : List UInt8} {L : ℕ} {t : RecordType} {payload rest : List UInt8}
    (hbuf : buf = physicalHeader crc L t payload ++ payload ++ rest) (hn : payload.length < 2 ^ 16) :
    headerLength buf = payload.length ∧ headerType buf = t.toNat ∧
      recordHeaderSize (isRecyclableTypeCode (headerType buf)) + headerLength buf ≤ buf.length := by
  have hassoc : buf = physicalHeader crc L t payload ++ (payload ++ rest) := by rw [hbuf, List.append_assoc]
  have hlen := headerLength_physicalHeader crc L t payload (payload ++ rest) hn
  have htype := headerType_physicalHeader crc L t payload (payload ++ rest)
  rw [← hassoc] at hlen htype
  refine ⟨hlen, htype, ?_⟩
  rw [htype, recordHeaderSize_toNat crc L t payload, hlen, hbuf]
  simp

/-- `ReadPhysicalRecord`'s checks all pass on a record the writer emitted, which is then consumed -/
theorem Reader.checkRecord_frame (crc : Crc32c) (st : Reader) {L : ℕ} {t : RecordType} {payload rest : List UInt8}
    (hbuf : st.buffer = physicalHeader crc L t payload ++ payload ++ rest) (hn : payload.length < 2 ^ 16)
    (ht : t ≠ .kZeroType) (hlog : t.isLegacy = false → st.logNumber = L % 2 ^ 32) :
    st.checkRecord crc = (⟨t.toNat, payload, 0⟩, { st with buffer := rest }) := by
  have hassoc : st.buffer = physicalHeader crc L t payload ++ (payload ++ rest) := by rw [hbuf, List.append_assoc]
  obtain ⟨hlen, htype, hroom⟩ := parse_written_buffer crc hbuf hn
  have hsize := recordHeaderSize_toNat crc L t payload
  have hold : (isRecyclableTypeCode (headerType st.buffer) &&
      decodeFixed32 (st.buffer.drop 7) != st.logNumber) = false := by
    rw [htype, isRecyclableTypeCode_toNat]
    cases hl : t.isLegacy
    · rw [hassoc, logNumber_physicalHeader crc L t payload _ hl, hlog hl]; simp
    · rfl
  have hzero : (headerType st.buffer == RecordType.kZeroType.toNat && headerLength st.buffer == 0) = false := by
    have h0 : (t.toNat == RecordType.kZeroType.toNat) = false := by
      simpa [RecordType.toNat] using toNat_ne_zero ht
    rw [htype, h0, Bool.false_and]
  have hcrc : (st.checksum && unmask (UInt32.ofNat (decodeFixed32 st.buffer)) !=
      crc.value ((st.buffer.drop 6).take (headerLength st.buffer +
        recordHeaderSize (isRecyclableTypeCode (headerType st.buffer)) - 6))) = false := by
    rw [htype, hsize, hlen]
    conv => rhs; rw [← Bool.and_false st.checksum]
    congr 1
    rw [hassoc, decodeFixed32_physicalHeader, unmask_headerChecksum, ← hassoc, hbuf,
      checksummed_physicalHeader]
    simp
  unfold checkRecord
  simp only [not_lt.mpr hroom, if_false, hold, hzero, hcrc, Bool.false_eq_true]
  rw [htype, hsize, hlen, hbuf, fragment_physicalHeader, List.drop_left' (by simp)]

/-- a recyclable record whose log number bytes are not the reader's log number is an old record, and is skipped -/
theorem Reader.checkRecord_old (crc : Crc32c) (st : Reader) {L : ℕ} {t : RecordType} {payload rest : List UInt8}
    (hbuf : st.buffer = physicalHeader crc L t payload ++ payload ++ rest) (hn : payload.length < 2 ^ 16)
    (hl : t.isLegacy = false) (hlog : st.logNumber ≠ L % 2 ^ 32) :
    st.checkRecord crc = (⟨kOldRecord, [], 0⟩, { st with buffer := rest }) := by
  have hassoc : st.buffer = physicalHeader crc L t payload ++ (payload ++ rest) := by rw [hbuf, List.append_assoc]
  obtain ⟨hlen, htype, hroom⟩ := parse_written_buffer crc hbuf hn
  have hsize := recordHeaderSize_toNat crc L t payload
  have hold : (isRecyclableTypeCode (headerType st.buffer) &&
      decodeFixed32 (st.buffer.drop 7) != st.logNumber) = true := by
    rw [htype, isRecyclableTypeCode_toNat, hl, hassoc, logNumber_physicalHeader crc L t payload _ hl]
    simpa using Ne.symm hlog
  unfold checkRecord
  simp only [not_lt.mpr hroom, if_false, hold, if_true]
  rw [htype, hsize, hlen, hbuf, List.drop_left' (by simp)]

/-! ## One call of ReadPhysicalRecord, by the size of its buffer -/

section readPhysicalRecord

variable (crc : Crc32c) {st : Reader}

theorem Reader.readMore_of_not_eof (heof : st.eof = false) : st.readMore = (st.readBlock, none) := by
  simp [readMore, heof]

/-- a buffer shorter than a header, before EOF: the rest of the block is skipped and the next one read -/
theorem Reader.readPhysicalRecord_of_short (hb : st.buffer.length < kHeaderSize) (heof : st.eof = false) :
    st.readPhysicalRecord crc = st.readBlock.readPhysicalRecord crc := by
  rw [readPhysicalRecord, dif_pos hb]
  split
  · rename_i h; rw [readMore_of_not_eof heof] at h; simp at h
  · rename_i st' h; rw [readMore_of_not_eof heof] at h; cases h; rfl

/-- `ReadMore` at EOF: a truncated header, or the end -/
theorem Reader.readMore_of_eof (heof : st.eof = true) :
    st.readMore = ({ st with buffer := [] }, some (if st.buffer = [] then kEof else kBadHeader, st.buffer.length)) := by
  unfold readMore
  simp only [heof, Bool.not_true, Bool.false_eq_true, if_false]
  by_cases h : st.buffer = [] <;> simp [h]

/-- a buffer shorter than a header at EOF: a truncated header, or the end -/
theorem Reader.readPhysicalRecord_of_short_eof (hb : st.buffer.length < kHeaderSize) (heof : st.eof = true) :
    st.readPhysicalRecord crc =
      (⟨if st.buffer = [] then kEof else kBadHeader, [], st.buffer.length⟩, { st with buffer := [] }) := by
  rw [readPhysicalRecord, dif_pos hb]
  split
  · rename_i st' r d h; rw [readMore_of_eof heof] at h; simp only [Prod.mk.injEq, Option.some.injEq] at h
    rw [← h.1, ← h.2.1, ← h.2.2]
  · rename_i st' h; rw [readMore_of_eof heof] at h; simp at h

/-- a recyclable header cut short at EOF is a truncated header -/
theorem Reader.readPhysicalRecord_of_recyclable_eof (hb : ¬ st.buffer.length < kHeaderSize)
    (hr : isRecyclableTypeCode (headerType st.buffer) && decide (st.buffer.length < kRecyclableHeaderSize))
    (heof : st.eof = true) :
    st.readPhysicalRecord crc = (⟨kBadHeader, [], st.buffer.length⟩, { st.markRecycled with buffer := [] }) := by
  have hne : st.markRecycled.buffer ≠ [] := by
    rw [markRecycled_buffer]; intro h; rw [h] at hb; exact hb (by decide)
  rw [readPhysicalRecord, dif_neg hb, dif_pos hr]
  split
  · rename_i st' r d h
    rw [readMore_of_eof (by rw [markRecycled_eof, heof]), if_neg hne] at h
    simp only [Prod.mk.injEq, Option.some.injEq, markRecycled_buffer] at h
    rw [← h.1, ← h.2.1, ← h.2.2]
  · rename_i st' h; rw [readMore_of_eof (by rw [markRecycled_eof, heof])] at h; simp at h

/-- a whole header in the buffer goes to the checks -/
theorem Reader.readPhysicalRecord_of_header (hb : ¬ st.buffer.length < kHeaderSize)
    (hr : ¬ (isRecyclableTypeCode (headerType st.buffer) && decide (st.buffer.length < kRecyclableHeaderSize))) :
    st.readPhysicalRecord crc = st.markRecycled.checkRecord crc := by
  rw [readPhysicalRecord, dif_neg hb, dif_neg hr]

end readPhysicalRecord

/-! ## The reader's position in the file -/

/-- the end of the block that holds byte `p` (for `p` on a boundary, of the block that starts there) -/
def blockEnd (p : ℕ) : ℕ := (p / kBlockSize + 1) * kBlockSize

theorem lt_blockEnd (p : ℕ) : p < blockEnd p := by
  unfold blockEnd kBlockSize; omega

theorem blockEnd_of_mod (p : ℕ) : blockEnd p = p - p % kBlockSize + kBlockSize := by
  unfold blockEnd kBlockSize; omega

theorem blockEnd_mono {p q : ℕ} (h : p ≤ q) : blockEnd p ≤ blockEnd q := by
  unfold blockEnd kBlockSize; omega

/-- `st` is the reader's state once it has consumed the first `p` bytes of `f`: `buffer_` is the part of `p`'s block
that has been read and not consumed, and `file_` is positioned where that read stopped -/
structure Synced (f : List UInt8) (p : ℕ) (st : Reader) : Prop where
  pos_le : p ≤ st.endOfBufferOffset
  end_le : st.endOfBufferOffset ≤ f.length
  buffer_eq : st.buffer = slice f p st.endOfBufferOffset
  file_eq : st.file = f.drop st.endOfBufferOffset
  within_block : st.endOfBufferOffset ≤ blockEnd p
  aligned : st.eof = false → st.endOfBufferOffset % kBlockSize = 0
  at_eof : st.eof = true → st.endOfBufferOffset = f.length

/-- the fields `ReadPhysicalRecord` never changes -/
structure Reader.Keeps (st st' : Reader) : Prop where
  checksum : st'.checksum = st.checksum
  logNumber : st'.logNumber = st.logNumber
  reports : st'.reports = st.reports
  recordedCfToTsSz : st'.recordedCfToTsSz = st.recordedCfToTsSz

theorem Reader.Keeps.refl (st : Reader) : st.Keeps st := ⟨rfl, rfl, rfl, rfl⟩

theorem Reader.Keeps.trans {st₁ st₂ st₃ : Reader} (h₁ : st₁.Keeps st₂) (h₂ : st₂.Keeps st₃) : st₁.Keeps st₃ :=
  ⟨h₂.checksum.trans h₁.checksum, h₂.logNumber.trans h₁.logNumber, h₂.reports.trans h₁.reports,
    h₂.recordedCfToTsSz.trans h₁.recordedCfToTsSz⟩

theorem Reader.keeps_buffer (st : Reader) (b : List UInt8) : st.Keeps { st with buffer := b } :=
  ⟨rfl, rfl, rfl, rfl⟩

/-- the reader has consumed the whole file and seen its end -/
structure Reader.Drained (st : Reader) : Prop where
  buffer_eq : st.buffer = []
  eof_eq : st.eof = true
  file_eq : st.file = []

@[simp] theorem Reader.drained_reportCorruption (st : Reader) (bytes : ℕ) (reason : String) :
    (st.reportCorruption bytes reason).Drained ↔ st.Drained :=
  ⟨fun h => ⟨h.buffer_eq, h.eof_eq, h.file_eq⟩, fun h => ⟨h.buffer_eq, h.eof_eq, h.file_eq⟩⟩

theorem synced_create (f : List UInt8) (checksum : Bool) (logNum : ℕ) :
    Synced f 0 (Reader.create f checksum logNum) where
  pos_le := le_refl _
  end_le := Nat.zero_le _
  buffer_eq := by simp [Reader.create, slice]
  file_eq := by simp [Reader.create]
  within_block := by simp [Reader.create, blockEnd]
  aligned _ := rfl
  at_eof h := by simp [Reader.create] at h

section markRecycled

variable (st : Reader)

theorem Reader.keeps_markRecycled : st.Keeps st.markRecycled := by
  unfold markRecycled; split <;> exact ⟨rfl, rfl, rfl, rfl⟩

theorem Reader.keeps_readBlock : st.Keeps st.readBlock := by
  exact ⟨readBlock_checksum st, readBlock_logNumber st, readBlock_reports st, readBlock_recordedCfToTsSz st⟩

end markRecycled

section synced

variable {f : List UInt8} {p : ℕ} {st : Reader}

/-- with bytes left at `p`, the buffer holds the rest of `p`'s block, or nothing at the start of a block -/
theorem Synced.end_cases (hs : Synced f p st) (hp : p < f.length) :
    st.endOfBufferOffset = min (blockEnd p) f.length ∨
      (st.endOfBufferOffset = p ∧ st.eof = false ∧ p % kBlockSize = 0) := by
  have h1 := hs.pos_le
  have h2 := hs.end_le
  have h3 := hs.within_block
  unfold blockEnd at *
  cases heof : st.eof
  · have h4 := hs.aligned heof
    have : st.endOfBufferOffset = min ((p / kBlockSize + 1) * kBlockSize) f.length ∨
        (st.endOfBufferOffset = p ∧ p % kBlockSize = 0) := by
      unfold kBlockSize at *; omega
    tauto
  · have h4 := hs.at_eof heof
    omega

/-- a block read from a block boundary `q` syncs the reader to `q`, whatever the buffer held before -/
theorem synced_readBlock {q : ℕ} (hfile : st.file = f.drop q) (he : st.endOfBufferOffset = q)
    (heof : st.eof = false) (hmod : q % kBlockSize = 0) (hq : q ≤ f.length) :
    Synced f q st.readBlock ∧ st.readBlock.endOfBufferOffset = min (blockEnd q) f.length := by
  have hb := blockEnd_of_mod q
  have hend : st.readBlock.endOfBufferOffset = min (blockEnd q) f.length := by
    rw [Reader.readBlock_endOfBufferOffset, hfile, he, List.length_take, List.length_drop]
    omega
  have heof' : st.readBlock.eof = decide (f.length - q < kBlockSize) := by
    rw [Reader.readBlock_eof, heof, hfile, List.length_drop, Bool.or_false]
  refine ⟨⟨?_, ?_, ?_, ?_, ?_, ?_, ?_⟩, hend⟩
  · rw [hend]; unfold kBlockSize at *; omega
  · rw [hend]; omega
  · rw [Reader.readBlock_buffer, hend, hfile, slice, List.take_eq_take_iff]
    simp only [List.length_drop]
    unfold kBlockSize at *
    omega
  · rw [Reader.readBlock_file, hend, hfile, List.drop_drop]
    by_cases hl : f.length ≤ q + kBlockSize
    · rw [List.drop_eq_nil_of_le hl, List.drop_eq_nil_of_le (by omega)]
    · have hmin : min (blockEnd q) f.length = q + kBlockSize := by
        unfold kBlockSize at *; omega
      rw [hmin]
  · rw [hend]; exact min_le_left _ _
  · intro h
    rw [heof'] at h
    simp only [decide_eq_false_iff_not, not_lt] at h
    rw [hend]; unfold kBlockSize at *; omega
  · intro h
    rw [heof'] at h
    simp only [decide_eq_true_eq] at h
    rw [hend]; unfold kBlockSize at *; omega

/-- with bytes left at `p`, after at most one block read the buffer holds the rest of `p`'s block -/
theorem Synced.load (crc : Crc32c) (hs : Synced f p st) (hp : p < f.length) :
    ∃ st₀, st.readPhysicalRecord crc = st₀.readPhysicalRecord crc ∧ Synced f p st₀ ∧
      st₀.endOfBufferOffset = min (blockEnd p) f.length ∧ st.Keeps st₀ := by
  rcases hs.end_cases hp with he | ⟨he, heof, hmod⟩
  · exact ⟨st, rfl, hs, he, Reader.Keeps.refl st⟩
  · obtain ⟨hs', he'⟩ := synced_readBlock (hs.file_eq.trans (by rw [he])) he heof hmod (by omega)
    have hb : st.buffer.length < kHeaderSize := by
      rw [hs.buffer_eq, he, slice_self]; decide
    exact ⟨st.readBlock, Reader.readPhysicalRecord_of_short crc hb heof, hs', he', Reader.keeps_readBlock st⟩

/-- **A written physical record is read back.** From the reader's state at `p`, a record the writer emitted at `p`
inside one block is returned with its type and payload, and the reader is then at the record's end. -/
theorem Synced.readPhysicalRecord_frame (crc : Crc32c) (hs : Synced f p st) {L : ℕ} {t : RecordType}
    {payload : List UInt8} (hfr : physicalHeader crc L t payload ++ payload <+: f.drop p)
    (hfit : p % kBlockSize + (physicalHeader crc L t payload).length + payload.length ≤ kBlockSize)
    (ht : t ≠ .kZeroType) (hlog : t.isLegacy = false → st.logNumber = L % 2 ^ 32) :
    ∃ st', st.readPhysicalRecord crc = (⟨t.toNat, payload, 0⟩, st') ∧
      Synced f (p + (physicalHeader crc L t payload).length + payload.length) st' ∧ st.Keeps st' := by
  set hdr := physicalHeader crc L t payload
  have hh7 : kHeaderSize ≤ hdr.length := by
    simp only [hdr, length_physicalHeader]; split <;> decide
  have hflen : p + (hdr ++ payload).length ≤ f.length := by
    have := hfr.length_le
    simp only [List.length_drop, List.length_append] at this ⊢
    unfold kHeaderSize at hh7
    omega
  have hpf : p < f.length := by
    simp only [List.length_append] at hflen; unfold kHeaderSize at hh7; omega
  obtain ⟨st₀, hread, hs₀, he₀, hk₀⟩ := hs.load crc hpf
  have hroom : p + (hdr ++ payload).length ≤ st₀.endOfBufferOffset := by
    have hend := blockEnd_of_mod p
    rw [he₀]; simp only [List.length_append] at hflen ⊢; unfold kBlockSize at *; omega
  have hbuf : st₀.buffer = hdr ++ payload ++ slice f (p + hdr.length + payload.length) st₀.endOfBufferOffset := by
    rw [hs₀.buffer_eq, slice_eq_append hfr hroom, List.length_append, Nat.add_assoc]
  have hblen : hdr.length + payload.length ≤ st₀.buffer.length := by rw [hbuf]; simp
  have hn : payload.length < 2 ^ 16 := by unfold kBlockSize at hfit; omega
  have hcheck := Reader.checkRecord_frame crc st₀.markRecycled
    (by rw [Reader.markRecycled_buffer]; exact hbuf) hn ht
    (by rw [Reader.markRecycled_logNumber, hk₀.logNumber]; exact hlog)
  have hshort : ¬ st₀.buffer.length < kHeaderSize := by omega
  have htype : headerType st₀.buffer = t.toNat := by
    rw [hbuf, List.append_assoc, headerType_physicalHeader]
  have hrec : ¬ (isRecyclableTypeCode (headerType st₀.buffer) &&
      decide (st₀.buffer.length < kRecyclableHeaderSize)) := by
    rw [htype, isRecyclableTypeCode_toNat]
    cases hl : t.isLegacy
    · have : hdr.length = kRecyclableHeaderSize := by simp [hdr, length_physicalHeader, hl]
      simp only [Bool.not_false, Bool.true_and, decide_eq_true_eq]; omega
    · simp
  refine ⟨_, hread.trans ((Reader.readPhysicalRecord_of_header crc hshort hrec).trans hcheck), ?_, ?_⟩
  · have hpos := hs₀.pos_le
    have hwb := hs₀.within_block
    refine ⟨?_, ?_, ?_, ?_, ?_, ?_, ?_⟩ <;> simp only [Reader.markRecycled_endOfBufferOffset,
      Reader.markRecycled_file, Reader.markRecycled_eof]
    · simp only [List.length_append] at hroom; omega
    · exact hs₀.end_le
    · exact hs₀.file_eq
    · exact hwb.trans (blockEnd_mono (by omega))
    · exact hs₀.aligned
    · exact hs₀.at_eof
  · exact hk₀.trans ((Reader.keeps_markRecycled st₀).trans (Reader.keeps_buffer _ _))

/-- inside a block, the buffer runs to the block's end or to the end of the file -/
theorem Synced.end_of_inside (hs : Synced f p st) (hp : p < f.length) (hmod : p % kBlockSize ≠ 0) :
    st.endOfBufferOffset = min (blockEnd p) f.length := by
  rcases hs.end_cases hp with he | ⟨-, -, h⟩
  · exact he
  · exact absurd h hmod

/-- **A short trailer is skipped.** Fewer bytes than a header left in `p`'s block, with more of the file after
it: the reader reads the next block and goes on from its start. -/
theorem Synced.readPhysicalRecord_shortTrailer (crc : Crc32c) (hs : Synced f p st) (hmod : p % kBlockSize ≠ 0)
    (hshort : kBlockSize - p % kBlockSize < kHeaderSize) (hmore : blockEnd p < f.length) :
    ∃ st', st.readPhysicalRecord crc = st'.readPhysicalRecord crc ∧ Synced f (blockEnd p) st' ∧ st.Keeps st' := by
  have hlt := lt_blockEnd p
  have hend := hs.end_of_inside (by omega) hmod
  rw [min_eq_left hmore.le] at hend
  have heof : st.eof = false := by
    cases h : st.eof
    · rfl
    · have := hs.at_eof h; omega
  have hb : st.buffer.length < kHeaderSize := by
    rw [hs.buffer_eq, length_slice, hend, blockEnd_of_mod]; unfold kBlockSize kHeaderSize at *; omega
  obtain ⟨hs', -⟩ := synced_readBlock (hs.file_eq.trans (by rw [hend])) hend heof
    (by rw [blockEnd_of_mod]; unfold kBlockSize; omega) hmore.le
  exact ⟨_, Reader.readPhysicalRecord_of_short crc hb heof, hs', Reader.keeps_readBlock st⟩

theorem getD_replicate_zero (k i : ℕ) : (List.replicate k (0 : UInt8)).getD i 0 = 0 := by
  simp only [List.getD_eq_getElem?_getD, List.getElem?_replicate]
  split <;> rfl

theorem headerLength_replicate (k : ℕ) : headerLength (List.replicate k 0) = 0 := by
  simp only [headerLength, getD_replicate_zero]; rfl

theorem headerType_replicate (k : ℕ) : headerType (List.replicate k 0) = 0 := by
  simp only [headerType, getD_replicate_zero]; rfl

theorem isRecyclableTypeCode_zero : isRecyclableTypeCode 0 = false := by
  simp [isRecyclableTypeCode, RecordType.toNat]

/-- a buffer of zeros, at least a header long, is the zero-length record of the zero type -/
theorem Reader.checkRecord_zeros (crc : Crc32c) {st : Reader} {k : ℕ} (hbuf : st.buffer = List.replicate k 0)
    (hk : kHeaderSize ≤ k) : st.checkRecord crc = (⟨kBadRecord, [], 0⟩, { st with buffer := [] }) := by
  unfold checkRecord
  simp only [hbuf, headerLength_replicate, headerType_replicate, isRecyclableTypeCode_zero, List.length_replicate,
    recordHeaderSize, Bool.false_and, Bool.false_eq_true, if_false, Nat.add_zero]
  rw [if_neg (by unfold kHeaderSize at *; omega), if_pos (by decide)]

/-- at EOF the file has been read to its end -/
theorem Synced.file_nil (hs : Synced f p st) (heof : st.eof = true) : st.file = [] := by
  rw [hs.file_eq, hs.at_eof heof, List.drop_length]

/-- **Zeros as long as a header** (the recyclable format's trailer of 7 to 10 bytes, or what is left of it at the end of
the file) read as a zero-length record of the zero type, `kBadRecord`, after which the reader is past them. -/
theorem Synced.readPhysicalRecord_zeros (crc : Crc32c) (hs : Synced f p st) (hmod : p % kBlockSize ≠ 0)
    (hp : p < f.length) {k : ℕ} (hzero : slice f p (min (blockEnd p) f.length) = List.replicate k 0)
    (hk : kHeaderSize ≤ k) :
    ∃ st', st.readPhysicalRecord crc = (⟨kBadRecord, [], 0⟩, st') ∧ Synced f (min (blockEnd p) f.length) st' ∧
      st.Keeps st' := by
  have hend := hs.end_of_inside hp hmod
  have hbuf : st.buffer = List.replicate k 0 := by rw [hs.buffer_eq, hend, hzero]
  have hb : ¬ st.buffer.length < kHeaderSize := by rw [hbuf, List.length_replicate]; omega
  have hr : ¬ (isRecyclableTypeCode (headerType st.buffer) &&
      decide (st.buffer.length < kRecyclableHeaderSize)) := by
    rw [hbuf, headerType_replicate, isRecyclableTypeCode_zero]; exact Bool.false_ne_true
  have hmark : st.markRecycled = st := by
    unfold Reader.markRecycled; rw [hbuf, headerType_replicate, isRecyclableTypeCode_zero]; rfl
  refine ⟨{ st with buffer := [] }, by
    rw [Reader.readPhysicalRecord_of_header crc hb hr, hmark, Reader.checkRecord_zeros crc hbuf hk], ?_,
    Reader.keeps_buffer st []⟩
  refine ⟨?_, ?_, ?_, hs.file_eq, ?_, hs.aligned, hs.at_eof⟩ <;> simp only [hend]
  · exact le_refl _
  · exact min_le_right _ _
  · exact (slice_self f _).symm
  · exact (lt_blockEnd _).le

/-- a buffer shorter than a header at EOF gives the end of the file when empty, a truncated header otherwise -/
theorem Synced.readPhysicalRecord_short_eof (crc : Crc32c) (hs : Synced f p st) (hb : st.buffer.length < kHeaderSize)
    (heof : st.eof = true) :
    ∃ r st', st.readPhysicalRecord crc = (r, st') ∧ (r.code = kEof ∨ r.code = kBadHeader) ∧
      (f.length ≤ p → r.code = kEof) ∧ st'.Drained ∧ st.Keeps st' := by
  rw [Reader.readPhysicalRecord_of_short_eof crc hb heof]
  refine ⟨_, _, rfl, ?_, ?_, ⟨rfl, heof, hs.file_nil heof⟩, Reader.keeps_buffer st []⟩
  · split
    · exact .inl rfl
    · exact .inr rfl
  · intro hfp
    have hnil : st.buffer = [] := by
      rw [hs.buffer_eq, ← List.length_eq_zero_iff, length_slice]; have := hs.end_le; omega
    simp [hnil]

/-- **Near the end of the file.** With fewer bytes than a header left, the reader finds the end of the file, or a
truncated header, and has then consumed the whole file. -/
theorem Synced.readPhysicalRecord_nearEnd (crc : Crc32c) (hs : Synced f p st) (hnear : f.length < p + kHeaderSize) :
    ∃ r st', st.readPhysicalRecord crc = (r, st') ∧ (r.code = kEof ∨ r.code = kBadHeader) ∧
      (f.length = p → r.code = kEof) ∧ st'.Drained ∧ st.Keeps st' := by
  have he := hs.end_le
  have hp := hs.pos_le
  have hb : st.buffer.length < kHeaderSize := by
    rw [hs.buffer_eq, length_slice]; omega
  cases heof : st.eof
  · -- the last read filled a block: the next read returns the last bytes of the file and sets EOF
    obtain ⟨hs', -⟩ := synced_readBlock hs.file_eq rfl heof (hs.aligned heof) he
    have hb' : st.readBlock.buffer.length < kHeaderSize := by
      rw [Reader.readBlock_buffer, hs.file_eq, List.length_take, List.length_drop]
      unfold kBlockSize at *; omega
    have heof' : st.readBlock.eof = true := by
      rw [Reader.readBlock_eof, hs.file_eq, List.length_drop]
      unfold kBlockSize kHeaderSize at *; simp; omega
    obtain ⟨r, st', hr, hc, hend, hd, hk⟩ := hs'.readPhysicalRecord_short_eof crc hb' heof'
    refine ⟨r, st', (Reader.readPhysicalRecord_of_short crc hb heof).trans hr, hc, fun h => hend (by omega), hd,
      (Reader.keeps_readBlock st).trans hk⟩
  · obtain ⟨r, st', hr, hc, hend, hd, hk⟩ := hs.readPhysicalRecord_short_eof crc hb heof
    exact ⟨r, st', hr, hc, fun h => hend h.le, hd, hk⟩

/-- a buffer too short for the header's length is a bad record length, and is dropped -/
theorem Reader.checkRecord_short (crc : Crc32c) {st : Reader}
    (h : st.buffer.length < recordHeaderSize (isRecyclableTypeCode (headerType st.buffer)) + headerLength st.buffer) :
    st.checkRecord crc = (⟨kBadRecordLen, [], st.buffer.length⟩, { st with buffer := [] }) := by
  rw [checkRecord, if_pos h]

/-- at the end of a file that is read to a point inside a block, the read stopped short and EOF is set -/
theorem Synced.eof_of_inside (hs : Synced f p st) (he : st.endOfBufferOffset = f.length)
    (hmod : f.length % kBlockSize ≠ 0) : st.eof = true := by
  cases heof : st.eof
  · have := hs.aligned heof; rw [he] at this; exact absurd this hmod
  · rfl

/-- **A file cut inside a record.** When the file ends inside a physical record the writer emitted inside one block,
the reader finds the end of the file, a truncated header, or a bad record length with EOF set; it has then consumed
the whole file. -/
theorem Synced.readPhysicalRecord_cut (crc : Crc32c) (hs : Synced f p st) {L : ℕ} {t : RecordType}
    {payload : List UInt8} (hfr : f.drop p <+: physicalHeader crc L t payload ++ payload)
    (hcut : f.length < p + (physicalHeader crc L t payload).length + payload.length)
    (hfit : p % kBlockSize + (physicalHeader crc L t payload).length + payload.length ≤ kBlockSize) :
    ∃ r st', st.readPhysicalRecord crc = (r, st') ∧
      (r.code = kEof ∨ r.code = kBadHeader ∨ (r.code = kBadRecordLen ∧ st'.eof = true)) ∧ st'.Drained := by
  set hdr := physicalHeader crc L t payload
  by_cases hnear : f.length < p + kHeaderSize
  · obtain ⟨r, st', hr, hc, -, hd, -⟩ := hs.readPhysicalRecord_nearEnd crc hnear
    exact ⟨r, st', hr, hc.imp_right .inl, hd⟩
  have hpf : p < f.length := by unfold kHeaderSize at hnear; omega
  obtain ⟨st₀, hread, hs₀, he₀, -⟩ := hs.load crc hpf
  -- the fact about block ends stays inside this step: in the context of the later `omega`s its subtraction
  -- makes each of their proofs a case split the kernel takes seconds to check
  have he : st₀.endOfBufferOffset = f.length := by
    have hend := blockEnd_of_mod p
    rw [he₀]; unfold kBlockSize at *; omega
  have heof : st₀.eof = true := by
    refine hs₀.eof_of_inside he ?_
    unfold kBlockSize kHeaderSize at *; omega
  -- the buffer is what is left of the file, a prefix of the record
  have hbuf : st₀.buffer = (hdr ++ payload).take (f.length - p) := by
    rw [hs₀.buffer_eq, he, slice, List.prefix_iff_eq_take.mp hfr, List.length_drop, List.take_take, min_self]
  have hblen : st₀.buffer.length = f.length - p := by
    rw [hbuf, List.length_take, List.length_append]; omega
  have hb : ¬ st₀.buffer.length < kHeaderSize := by omega
  have htype : headerType st₀.buffer = t.toNat := by
    rw [hbuf, headerType_take _ (by omega), headerType_physicalHeader]
  by_cases hh : f.length < p + hdr.length
  · -- the file ends inside the log number of a recyclable header
    have hl : t.isLegacy = false := by
      cases h : t.isLegacy
      · rfl
      · simp only [hdr, length_physicalHeader, h, if_true] at hh; omega
    have hr : isRecyclableTypeCode (headerType st₀.buffer) && decide (st₀.buffer.length < kRecyclableHeaderSize) := by
      have : hdr.length = kRecyclableHeaderSize := by simp [hdr, length_physicalHeader, hl]
      rw [htype, isRecyclableTypeCode_toNat, hl]; simp only [Bool.not_false, Bool.true_and, decide_eq_true_eq]
      omega
    refine ⟨_, _, hread.trans (Reader.readPhysicalRecord_of_recyclable_eof crc hb hr heof), .inr (.inl rfl), ?_⟩
    exact ⟨rfl, by simp [heof], by simp [hs₀.file_nil heof]⟩
  · -- the header is whole and the payload is cut
    have hbuf' : st₀.buffer = hdr ++ payload.take (f.length - p - hdr.length) := by
      rw [hbuf, List.take_append, List.take_of_length_le (by omega)]
    have hn : payload.length < 2 ^ 16 := by unfold kBlockSize at hfit; omega
    have hlen : headerLength st₀.buffer = payload.length := by
      rw [hbuf', headerLength_physicalHeader crc L t payload _ hn]
    have hsize : recordHeaderSize (isRecyclableTypeCode (headerType st₀.buffer)) = hdr.length := by
      rw [htype, recordHeaderSize_toNat crc L t payload]
    have hr : ¬ (isRecyclableTypeCode (headerType st₀.buffer) &&
        decide (st₀.buffer.length < kRecyclableHeaderSize)) := by
      rw [htype, isRecyclableTypeCode_toNat]
      cases hl : t.isLegacy
      · have : hdr.length = kRecyclableHeaderSize := by simp [hdr, length_physicalHeader, hl]
        simp only [Bool.not_false, Bool.true_and, decide_eq_true_eq]; omega
      · simp
    have hshort : st₀.markRecycled.buffer.length < recordHeaderSize (isRecyclableTypeCode
        (headerType st₀.markRecycled.buffer)) + headerLength st₀.markRecycled.buffer := by
      rw [Reader.markRecycled_buffer, hsize, hlen]; omega
    refine ⟨_, _, hread.trans ((Reader.readPhysicalRecord_of_header crc hb hr).trans
      (Reader.checkRecord_short crc hshort)), .inr (.inr ⟨rfl, by simp [heof]⟩), ?_⟩
    exact ⟨rfl, by simp [heof], by simp [hs₀.file_nil heof]⟩

end synced

/-! ## One turn of ReadRecord, by the physical record it gets -/

section loop

variable {crc : Crc32c} {mode : WALRecoveryMode} {st st' : Reader} {r : PhysicalRecord}

theorem Reader.readRecordLoop_of_full (hp : st.readPhysicalRecord crc = (r, st'))
    (hc : r.code = RecordType.kFullType.toNat ∨ r.code = RecordType.kRecyclableFullType.toNat) (s : List UInt8)
    (o : ℕ) :
    st.readRecordLoop crc mode false s o =
      (some r.fragment, { st' with
        lastRecordOffset := st.endOfBufferOffset - st.buffer.length, firstRecordRead := true }) := by
  rw [Reader.readRecordLoop]
  split
  rename_i r₀ st₀ hp₀
  rw [hp] at hp₀
  cases hp₀
  simp [hc]

theorem Reader.readRecordLoop_of_first (hp : st.readPhysicalRecord crc = (r, st'))
    (hc : r.code = RecordType.kFirstType.toNat ∨ r.code = RecordType.kRecyclableFirstType.toNat) (s : List UInt8)
    (o : ℕ) :
    st.readRecordLoop crc mode false s o =
      st'.readRecordLoop crc mode true r.fragment (st.endOfBufferOffset - st.buffer.length) := by
  rw [Reader.readRecordLoop]
  split
  rename_i r₀ st₀ hp₀
  rw [hp] at hp₀
  cases hp₀
  rcases hc with hc | hc <;> simp [hc, RecordType.toNat]

theorem Reader.readRecordLoop_of_middle (hp : st.readPhysicalRecord crc = (r, st'))
    (hc : r.code = RecordType.kMiddleType.toNat ∨ r.code = RecordType.kRecyclableMiddleType.toNat) (s : List UInt8)
    (o : ℕ) :
    st.readRecordLoop crc mode true s o = st'.readRecordLoop crc mode true (s ++ r.fragment) o := by
  rw [Reader.readRecordLoop]
  split
  rename_i r₀ st₀ hp₀
  rw [hp] at hp₀
  cases hp₀
  rcases hc with hc | hc <;> simp [hc, RecordType.toNat]

theorem Reader.readRecordLoop_of_last (hp : st.readPhysicalRecord crc = (r, st'))
    (hc : r.code = RecordType.kLastType.toNat ∨ r.code = RecordType.kRecyclableLastType.toNat) (s : List UInt8)
    (o : ℕ) :
    st.readRecordLoop crc mode true s o =
      (some (s ++ r.fragment), { st' with lastRecordOffset := o, firstRecordRead := true }) := by
  rw [Reader.readRecordLoop]
  split
  rename_i r₀ st₀ hp₀
  rw [hp] at hp₀
  cases hp₀
  rcases hc with hc | hc <;> simp [hc, RecordType.toNat]

theorem Reader.readRecordLoop_of_badRecord (hp : st.readPhysicalRecord crc = (r, st')) (hc : r.code = kBadRecord)
    (s : List UInt8) (o : ℕ) :
    st.readRecordLoop crc mode false s o = st'.readRecordLoop crc mode false s o := by
  rw [Reader.readRecordLoop]
  split
  rename_i r₀ st₀ hp₀
  rw [hp] at hp₀
  cases hp₀
  simp [hc, RecordType.toNat, kBadRecord, kOldRecord, kEof, kBadHeader, kMaxRecordType]

theorem Reader.readRecordLoop_of_eof (hp : st.readPhysicalRecord crc = (r, st')) (hc : r.code = kEof)
    (s : List UInt8) (o : ℕ) :
    st.readRecordLoop crc mode false s o = (none, st') := by
  rw [Reader.readRecordLoop]
  split
  rename_i r₀ st₀ hp₀
  rw [hp] at hp₀
  cases hp₀
  simp [hc, RecordType.toNat, kEof, kBadHeader, kMaxRecordType]

theorem Reader.readRecordLoop_of_end (hp : st.readPhysicalRecord crc = (r, st'))
    (hc : r.code = kBadHeader ∨ r.code = kEof) (hd : st'.Drained) (b : Bool) (s : List UInt8) (o : ℕ) :
    ∃ st'', st.readRecordLoop crc mode b s o = (none, st'') ∧ st''.Drained := by
  rw [Reader.readRecordLoop]
  split
  rename_i r₀ st₀ hp₀
  rw [hp] at hp₀
  cases hp₀
  rcases hc with hc | hc <;> simp [hc, RecordType.toNat, kEof, kBadHeader, kMaxRecordType] <;> split_ifs <;> simp [hd]

theorem Reader.readRecordLoop_of_truncatedBody (hp : st.readPhysicalRecord crc = (r, st'))
    (hc : r.code = kBadRecordLen) (heof : st'.eof = true) (hd : st'.Drained) (b : Bool) (s : List UInt8) (o : ℕ) :
    ∃ st'', st.readRecordLoop crc mode b s o = (none, st'') ∧ st''.Drained := by
  rw [Reader.readRecordLoop]
  split
  rename_i r₀ st₀ hp₀
  rw [hp] at hp₀
  cases hp₀
  simp [hc, heof, RecordType.toNat, kEof, kBadHeader, kMaxRecordType, kBadRecordLen, kOldRecord, kBadRecord]
  split_ifs <;> simp [hd]

end loop

/-- a drained reader only finds the end of the file -/
theorem Reader.Drained.readPhysicalRecord (crc : Crc32c) {st : Reader} (hd : st.Drained) :
    st.readPhysicalRecord crc = (⟨kEof, [], 0⟩, st) := by
  have hb : st.buffer.length < kHeaderSize := by rw [hd.buffer_eq]; decide
  have hst : ({ st with buffer := [] } : Reader) = st := by rw [← hd.buffer_eq]
  rw [Reader.readPhysicalRecord_of_short_eof crc hb hd.eof_eq, if_pos hd.buffer_eq, hst, hd.buffer_eq]
  rfl

/-- every later `ReadRecord` of a drained reader returns false, and the reader stays drained -/
theorem Reader.Drained.readRecordLoop (crc : Crc32c) (mode : WALRecoveryMode) {st : Reader} (hd : st.Drained)
    (b : Bool) (s : List UInt8) (o : ℕ) :
    ∃ st', st.readRecordLoop crc mode b s o = (none, st') ∧ st'.Drained :=
  Reader.readRecordLoop_of_end (hd.readPhysicalRecord crc) (.inr rfl) hd b s o

section oldRecord

variable {crc : Crc32c} {mode : WALRecoveryMode} {st st' : Reader} {r : PhysicalRecord}

/-- an old record ends the read, at once or, when every corrupted record is skipped, once the reader has nothing
left -/
theorem Reader.readRecordLoop_of_oldRecord (hp : st.readPhysicalRecord crc = (r, st')) (hc : r.code = kOldRecord)
    (hd : st'.Drained) (b : Bool) (s : List UInt8) (o : ℕ) :
    ∃ st'', st.readRecordLoop crc mode b s o = (none, st'') ∧ st''.Drained := by
  have hloop : st.readRecordLoop crc mode b s o =
      if mode ≠ .kSkipAnyCorruptedRecords then
        (none, if b && mode.reportsTail then st'.reportCorruption s.length "error reading trailing data" else st')
      else if b then (st'.reportCorruption s.length "error in middle of record").readRecordLoop crc mode false [] o
      else st'.readRecordLoop crc mode b s o := by
    rw [Reader.readRecordLoop]
    split
    rename_i r₀ st₀ hp₀
    rw [hp] at hp₀
    cases hp₀
    by_cases hm : mode = .kSkipAnyCorruptedRecords <;>
      simp [hc, hm, RecordType.toNat, kOldRecord, kEof, kBadHeader, kMaxRecordType]
  rw [hloop]
  by_cases hm : mode = .kSkipAnyCorruptedRecords
  · have hd' : (st'.reportCorruption s.length "error in middle of record").Drained := by simpa using hd
    simp only [hm, ne_eq, not_true_eq_false, if_false]
    cases b
    · simp only [Bool.false_eq_true, if_false]
      exact hd.readRecordLoop crc _ false s o
    · simp only [if_true]
      exact hd'.readRecordLoop crc _ false [] o
  · refine ⟨_, by rw [if_pos hm], ?_⟩
    split_ifs <;> simp [hd]

end oldRecord

end ForSt.log
