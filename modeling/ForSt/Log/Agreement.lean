import ForSt.Log.ReaderSpec
import ForSt.Log.WriterSpec
/-!
`log::Reader` reads back what `log::Writer` wrote with `AddRecord`.

The writer in state `w` and the reader in state `st` walk the same file `f`: `Synced f w.dest.length st` says that
the reader has consumed what the writer had written when it was in state `w`. The simulation goes one fragment at a
time (`Synced.readFragment`, `Synced.readFragment_cut`), then one `AddRecord` (`Synced.readRecordLoop_addRecordLoop`,
`Synced.readRecordLoop_addRecordLoop_cut`), then a run of them (`Synced.readRecords_run`,
`Synced.readRecords_run_cut`), in every recovery mode:
- the whole file, written with recycling off, or on with a log number below 2^32, reads back as the records
  written, then false on every later call, and the reporter is never called;
- every prefix of a file written with recycling off reads back as the first records written, whole and in order,
  then false on every later call.
-/

namespace ForSt.log

open ForSt.Bytes ForSt.Coding ForSt.crc32c

/-- successive `ReadRecord` calls, as the caller makes them: what each returned, and the reader after the last -/
def Reader.readRecords (crc : Crc32c) (mode : WALRecoveryMode) : ℕ → Reader → List (Option (List UInt8)) × Reader
  | 0, st => ([], st)
  | n + 1, st =>
    let r := st.readRecord crc mode
    let rest := Reader.readRecords crc mode n r.2
    (r.1 :: rest.1, rest.2)

section readRecords

variable (crc : Crc32c) (mode : WALRecoveryMode)

@[simp] theorem Reader.readRecords_zero (st : Reader) : st.readRecords crc mode 0 = ([], st) := rfl

theorem Reader.readRecords_succ (n : ℕ) (st : Reader) :
    st.readRecords crc mode (n + 1) =
      ((st.readRecord crc mode).1 :: ((st.readRecord crc mode).2.readRecords crc mode n).1,
        ((st.readRecord crc mode).2.readRecords crc mode n).2) := rfl

/-- a drained reader returns false, and stays as it is -/
theorem Reader.Drained.readRecord {st : Reader} (hd : st.Drained) : st.readRecord crc mode = (none, st) :=
  Reader.readRecordLoop_of_eof (hd.readPhysicalRecord crc) rfl [] 0

/-- a drained reader returns false to every call -/
theorem Reader.Drained.readRecords {st : Reader} (hd : st.Drained) (n : ℕ) :
    st.readRecords crc mode n = (List.replicate n none, st) := by
  induction n with
  | zero => rfl
  | succ n ih => rw [Reader.readRecords_succ, hd.readRecord, ih]; rfl

/-- calls made in two rounds -/
theorem Reader.readRecords_add (a b : ℕ) (st : Reader) :
    st.readRecords crc mode (a + b) =
      ((st.readRecords crc mode a).1 ++ ((st.readRecords crc mode a).2.readRecords crc mode b).1,
        ((st.readRecords crc mode a).2.readRecords crc mode b).2) := by
  induction a generalizing st with
  | zero => rw [Nat.zero_add]; rfl
  | succ a ih =>
    rw [Nat.add_right_comm, Reader.readRecords_succ, ih, Reader.readRecords_succ]
    rfl

/-- a record read, then the calls after it -/
theorem Reader.readRecords_of_readRecord {st st' : Reader} {r : List UInt8} (h : st.readRecord crc mode = (some r, st'))
    (n : ℕ) :
    st.readRecords crc mode (n + 1) = (some r :: (st'.readRecords crc mode n).1, (st'.readRecords crc mode n).2) := by
  rw [Reader.readRecords_succ, h]

end readRecords

/-! ## The fragment types, as the reader sees them -/

theorem fragmentType_ne_zero (recycleLogFiles isBegin isEnd : Bool) :
    fragmentType recycleLogFiles isBegin isEnd ≠ .kZeroType := by
  unfold fragmentType
  cases recycleLogFiles <;> cases isBegin <;> cases isEnd <;> decide

theorem fragmentType_full (recycleLogFiles : Bool) :
    (fragmentType recycleLogFiles true true).toNat = RecordType.kFullType.toNat ∨
      (fragmentType recycleLogFiles true true).toNat = RecordType.kRecyclableFullType.toNat := by
  cases recycleLogFiles <;> simp [fragmentType]

theorem fragmentType_first (recycleLogFiles : Bool) :
    (fragmentType recycleLogFiles true false).toNat = RecordType.kFirstType.toNat ∨
      (fragmentType recycleLogFiles true false).toNat = RecordType.kRecyclableFirstType.toNat := by
  cases recycleLogFiles <;> simp [fragmentType]

theorem fragmentType_middle (recycleLogFiles : Bool) :
    (fragmentType recycleLogFiles false false).toNat = RecordType.kMiddleType.toNat ∨
      (fragmentType recycleLogFiles false false).toNat = RecordType.kRecyclableMiddleType.toNat := by
  cases recycleLogFiles <;> simp [fragmentType]

theorem fragmentType_last (recycleLogFiles : Bool) :
    (fragmentType recycleLogFiles false true).toNat = RecordType.kLastType.toNat ∨
      (fragmentType recycleLogFiles false true).toNat = RecordType.kRecyclableLastType.toNat := by
  cases recycleLogFiles <;> simp [fragmentType]

/-! ## What `ReadRecord` returns does not depend on where the last record started -/

theorem Synced.setRecordOffset {f : List UInt8} {p : ℕ} {st : Reader} (hs : Synced f p st) (o : ℕ) (b : Bool) :
    Synced f p { st with lastRecordOffset := o, firstRecordRead := b } :=
  ⟨hs.pos_le, hs.end_le, hs.buffer_eq, hs.file_eq, hs.within_block, hs.aligned, hs.at_eof⟩

theorem Reader.Keeps.setRecordOffset {st st' : Reader} (h : st.Keeps st') (o : ℕ) (b : Bool) :
    st.Keeps { st' with lastRecordOffset := o, firstRecordRead := b } :=
  ⟨h.checksum, h.logNumber, h.reports, h.recordedCfToTsSz⟩

/-! ## One fragment -/

section fragment

variable (crc : Crc32c) (mode : WALRecoveryMode) {f : List UInt8} {w : Writer} {st : Reader} {isBegin : Bool}

/-- **The block switch, read.** The reader skips the zero trailer the switch appended, with a block read when it is
shorter than a header and as a zero-length record otherwise; either way it gets the physical record after it. -/
theorem Synced.skipTrailer (hw : w.Framed) (hs : Synced f w.dest.length st) (hpre : w.switchBlock.dest <+: f)
    (hmore : w.switchBlock.dest.length < f.length) (hmid : isBegin = false → w.blockOffset = kBlockSize) :
    ∃ st₀ st₁ : Reader, (∀ s o, st.readRecordLoop crc mode (!isBegin) s o = st₀.readRecordLoop crc mode (!isBegin) s o) ∧
      st₀.readPhysicalRecord crc = st₁.readPhysicalRecord crc ∧ Synced f w.switchBlock.dest.length st₁ ∧
      st.Keeps st₁ := by
  rcases hw.switchBlock_dest with hd | ⟨hmod, hpad, hd⟩
  · rw [hd]
    exact ⟨st, st, fun _ _ => rfl, rfl, hs, Reader.Keeps.refl st⟩
  -- only a record's first fragment follows a trailer: a fragment in the middle of a record starts a block
  obtain rfl := hw.begin_of_mod hmid hmod
  have hend : w.switchBlock.dest.length = blockEnd w.dest.length := by
    rw [hd, List.length_append, List.length_replicate, blockEnd_of_mod]
    have := Nat.mod_lt w.dest.length (show 0 < kBlockSize by decide)
    have := Nat.mod_le w.dest.length kBlockSize
    omega
  have hzero : slice f w.dest.length (blockEnd w.dest.length) =
      List.replicate (kBlockSize - w.dest.length % kBlockSize) 0 := by
    have hz := prefix_drop_of_append_prefix (hd ▸ hpre)
    have hzl : w.dest.length + (List.replicate (kBlockSize - w.dest.length % kBlockSize) (0 : UInt8)).length =
        blockEnd w.dest.length := by
      rw [← hend, hd, List.length_append]
    rw [slice_eq_append hz hzl.le, hzl, slice_self, List.append_nil]
  rw [hend] at hmore ⊢
  by_cases hshort : kBlockSize - w.dest.length % kBlockSize < kHeaderSize
  · obtain ⟨st', hr, hs', hk⟩ := hs.readPhysicalRecord_shortTrailer crc hmod hshort hmore
    exact ⟨st, st', fun _ _ => rfl, hr, hs', hk⟩
  · have hmin : min (blockEnd w.dest.length) f.length = blockEnd w.dest.length := min_eq_left hmore.le
    obtain ⟨st', hr, hs', hk⟩ := hs.readPhysicalRecord_zeros crc hmod
      (lt_of_lt_of_le (lt_blockEnd _) hmore.le) (by rw [hmin]; exact hzero) (not_lt.mp hshort)
    rw [hmin] at hs'
    exact ⟨st', st', fun s o => Reader.readRecordLoop_of_badRecord hr rfl s o, rfl, hs', hk⟩

/-- **A fragment, read.** From the reader synced with the writer, the physical record the writer emits after its
block switch is the next one the reader gets, and the reader is then synced with the writer after it. -/
theorem Synced.readFragment (hw : w.Framed) (hs : Synced f w.dest.length st) {t : RecordType}
    {payload : List UInt8} (ht : t ≠ .kZeroType)
    (hfit : w.switchBlock.blockOffset + (physicalHeader crc w.switchBlock.logNumber t payload).length +
      payload.length ≤ kBlockSize)
    (hpre : (w.switchBlock.emitPhysicalRecord crc t payload).dest <+: f)
    (hmid : isBegin = false → w.blockOffset = kBlockSize)
    (hlog : t.isLegacy = false → st.logNumber = w.logNumber % 2 ^ 32) :
    ∃ st₀ st₁ : Reader, (∀ s o, st.readRecordLoop crc mode (!isBegin) s o = st₀.readRecordLoop crc mode (!isBegin) s o) ∧
      st₀.readPhysicalRecord crc = (⟨t.toNat, payload, 0⟩, st₁) ∧
      Synced f (w.switchBlock.emitPhysicalRecord crc t payload).dest.length st₁ ∧ st.Keeps st₁ := by
  set hdr := physicalHeader crc w.switchBlock.logNumber t payload
  have hh7 : kHeaderSize ≤ hdr.length := by
    simp only [hdr, length_physicalHeader]; split <;> decide
  have hsw : w.switchBlock.dest <+: f :=
    (Writer.dest_prefix_emitPhysicalRecord crc _ t payload).trans hpre
  have hlen : w.switchBlock.dest.length + hdr.length + payload.length ≤ f.length := by
    have := hpre.length_le
    simp only [Writer.emitPhysicalRecord_dest, List.length_append] at this
    omega
  have hmore : w.switchBlock.dest.length < f.length := by
    unfold kHeaderSize at hh7; omega
  obtain ⟨st₀, st₁, hloop, hread, hs₁, hk₁⟩ := hs.skipTrailer crc mode hw hsw hmore hmid
  have hfr : hdr ++ payload <+: f.drop w.switchBlock.dest.length := by
    apply prefix_drop_of_append_prefix
    simpa only [Writer.emitPhysicalRecord_dest, List.append_assoc] using hpre
  have hmod := (hw.switchBlock).2.2
  obtain ⟨st₂, hr₂, hs₂, hk₂⟩ := hs₁.readPhysicalRecord_frame crc hfr (by rw [hmod]; exact hfit) ht
    (fun hl => by rw [hk₁.logNumber, hlog hl, Writer.switchBlock_logNumber])
  refine ⟨st₀, st₂, hloop, hread.trans hr₂, ?_, hk₁.trans hk₂⟩
  simpa only [Writer.emitPhysicalRecord_dest, List.length_append, Nat.add_assoc] using hs₂

/-- **A cut fragment, read.** When the file ends before the end of the physical record the writer emits, the reader
returns false and has consumed the whole file. -/
theorem Synced.readFragment_cut (hw : w.Framed) (hs : Synced f w.dest.length st) {t : RecordType}
    {payload : List UInt8}
    (hfit : w.switchBlock.blockOffset + (physicalHeader crc w.switchBlock.logNumber t payload).length +
      payload.length ≤ kBlockSize)
    (hpre : f <+: (w.switchBlock.emitPhysicalRecord crc t payload).dest) (hp : w.dest.length ≤ f.length)
    (hcut : f.length < (w.switchBlock.emitPhysicalRecord crc t payload).dest.length)
    (hmid : isBegin = false → w.blockOffset = kBlockSize) (s : List UInt8) (o : ℕ) :
    ∃ st', st.readRecordLoop crc mode (!isBegin) s o = (none, st') ∧ st'.Drained := by
  set hdr := physicalHeader crc w.switchBlock.logNumber t payload
  have hsw : w.switchBlock.dest <+: (w.switchBlock.emitPhysicalRecord crc t payload).dest :=
    Writer.dest_prefix_emitPhysicalRecord crc _ t payload
  by_cases hin : f.length ≤ w.switchBlock.dest.length
  · -- the file ends inside the trailer, or where the record starts
    by_cases hnear : f.length < w.dest.length + kHeaderSize
    · obtain ⟨r, st', hr, hc, -, hd, -⟩ := hs.readPhysicalRecord_nearEnd crc hnear
      exact Reader.readRecordLoop_of_end hr hc.symm hd _ s o
    rcases hw.switchBlock_dest with hd | ⟨hmod, hpad, hd⟩
    · rw [hd] at hin; unfold kHeaderSize at hnear; omega
    obtain rfl := hw.begin_of_mod hmid hmod
    -- what is left is a run of zeros at least a header long
    have hpz : f <+: w.dest ++ (List.replicate (kBlockSize - w.dest.length % kBlockSize) 0 ++
        (hdr ++ payload)) := by
      simpa only [Writer.emitPhysicalRecord_dest, hd, List.append_assoc] using hpre
    have hdz := drop_prefix_of_prefix_append hpz hp
    have hin' : f.length ≤ w.dest.length + (kBlockSize - w.dest.length % kBlockSize) := by
      rw [hd, List.length_append, List.length_replicate] at hin; exact hin
    have hlen : (f.drop w.dest.length).length ≤ kBlockSize - w.dest.length % kBlockSize := by
      rw [List.length_drop]; omega
    have hz := eq_replicate_of_prefix hdz hlen
    have hmin : min (blockEnd w.dest.length) f.length = f.length := by
      have := Nat.mod_le w.dest.length kBlockSize
      have := Nat.mod_lt w.dest.length (show 0 < kBlockSize by decide)
      rw [blockEnd_of_mod]
      exact min_eq_right (by omega)
    have hzero : slice f w.dest.length (min (blockEnd w.dest.length) f.length) =
        List.replicate (f.length - w.dest.length) 0 := by
      rw [hmin, slice_of_length_le le_rfl, hz, List.length_drop]
    obtain ⟨st', hr, hs', -⟩ := hs.readPhysicalRecord_zeros crc hmod (by unfold kHeaderSize at hnear; omega)
      hzero (by omega)
    rw [hmin] at hs'
    obtain ⟨r, st'', hr', hc, -, hd', -⟩ := hs'.readPhysicalRecord_nearEnd crc (by unfold kHeaderSize; omega)
    rw [Bool.not_true, Reader.readRecordLoop_of_badRecord hr rfl s o]
    exact Reader.readRecordLoop_of_end hr' hc.symm hd' _ s o
  · -- the file ends inside the physical record
    have hsw' : w.switchBlock.dest <+: f := List.prefix_of_prefix_length_le hsw hpre (by omega)
    obtain ⟨st₀, st₁, hloop, hread, hs₁, -⟩ := hs.skipTrailer crc mode hw hsw' (by omega) hmid
    have hfr : f.drop w.switchBlock.dest.length <+: hdr ++ payload := by
      apply drop_prefix_of_prefix_append _ (by omega)
      simpa only [Writer.emitPhysicalRecord_dest, List.append_assoc] using hpre
    have hmod := (hw.switchBlock).2.2
    have hcut' : f.length < w.switchBlock.dest.length + hdr.length + payload.length := by
      simpa only [Writer.emitPhysicalRecord_dest, List.length_append] using hcut
    obtain ⟨r, st', hr, hc, hd⟩ := hs₁.readPhysicalRecord_cut crc hfr hcut' (by rw [hmod]; exact hfit)
    rw [hloop s o]
    rcases hc with hc | hc | ⟨hc, heof⟩
    · exact Reader.readRecordLoop_of_end (hread.trans hr) (.inr hc) hd _ s o
    · exact Reader.readRecordLoop_of_end (hread.trans hr) (.inl hc) hd _ s o
    · exact Reader.readRecordLoop_of_truncatedBody (hread.trans hr) hc heof hd _ s o

end fragment

/-! ## One AddRecord -/

section record

variable (crc : Crc32c) (mode : WALRecoveryMode) {f : List UInt8}

/-- the log number check carries over a fragment, whose type is recyclable exactly when the writer recycles -/
theorem logNumber_fragmentType {w : Writer} {st : Reader}
    (hlog : w.recycleLogFiles = true → st.logNumber = w.logNumber % 2 ^ 32) (isBegin isEnd : Bool) :
    (fragmentType w.recycleLogFiles isBegin isEnd).isLegacy = false → st.logNumber = w.logNumber % 2 ^ 32 := by
  rw [fragmentType_isLegacy, Bool.not_eq_false']
  exact hlog

/-- the log number check carries over a physical record, to the reader after it -/
theorem logNumber_emitPhysicalRecord {w : Writer} {st st₁ : Reader}
    (hlog : w.recycleLogFiles = true → st.logNumber = w.logNumber % 2 ^ 32) (hk : st.Keeps st₁) (t : RecordType)
    (payload : List UInt8) :
    (w.switchBlock.emitPhysicalRecord crc t payload).recycleLogFiles = true →
      st₁.logNumber = (w.switchBlock.emitPhysicalRecord crc t payload).logNumber % 2 ^ 32 := by
  rw [Writer.emitPhysicalRecord_recycleLogFiles, Writer.switchBlock_recycleLogFiles,
    Writer.emitPhysicalRecord_logNumber, Writer.switchBlock_logNumber, hk.logNumber]
  exact hlog

/-- the log number check carries over an `AddRecord`, to the reader after it -/
theorem logNumber_addRecord {w : Writer} {st st₁ : Reader}
    (hlog : w.recycleLogFiles = true → st.logNumber = w.logNumber % 2 ^ 32) (hk : st.Keeps st₁) (r : List UInt8) :
    (w.addRecord crc r).recycleLogFiles = true → st₁.logNumber = (w.addRecord crc r).logNumber % 2 ^ 32 := by
  rw [Writer.addRecord, Writer.addRecordLoop_recycleLogFiles, Writer.addRecordLoop_logNumber, hk.logNumber]
  exact hlog

/-- **A fragment that is not the last, read.** `ReadRecord`'s loop goes on in the next block, `scratch` now ending
with the fragment (FIRST starts it, MIDDLE extends it), and the writer after the fragment has filled its block. -/
theorem Synced.readFragment_more {w : Writer} {left : List UInt8} {isBegin isEnd : Bool} {st : Reader} {k : ℕ}
    (hw : w.Framed) (hs : Synced f w.dest.length st)
    (hk : k = min left.length (kBlockSize - w.switchBlock.blockOffset - w.switchBlock.headerSize))
    (hmore : 0 < left.length - k) (hend : isEnd = false)
    (hpre : (w.switchBlock.emitPhysicalRecord crc (fragmentType w.recycleLogFiles isBegin isEnd)
      (left.take k)).dest <+: f)
    (hmid : isBegin = false → w.blockOffset = kBlockSize)
    (hlog : w.recycleLogFiles = true → st.logNumber = w.logNumber % 2 ^ 32) :
    ∃ st₁ : Reader, (∀ s o, ∃ o', st.readRecordLoop crc mode (!isBegin) s o =
        st₁.readRecordLoop crc mode true ((if isBegin then [] else s) ++ left.take k) o') ∧
      Synced f (w.switchBlock.emitPhysicalRecord crc (fragmentType w.recycleLogFiles isBegin isEnd)
        (left.take k)).dest.length st₁ ∧ st.Keeps st₁ ∧
      (w.switchBlock.emitPhysicalRecord crc (fragmentType w.recycleLogFiles isBegin isEnd) (left.take k)).Framed ∧
      (w.switchBlock.emitPhysicalRecord crc (fragmentType w.recycleLogFiles isBegin isEnd)
        (left.take k)).blockOffset = kBlockSize ∧
      ((w.switchBlock.emitPhysicalRecord crc (fragmentType w.recycleLogFiles isBegin isEnd)
        (left.take k)).recycleLogFiles = true → st₁.logNumber = (w.switchBlock.emitPhysicalRecord crc
          (fragmentType w.recycleLogFiles isBegin isEnd) (left.take k)).logNumber % 2 ^ 32) := by
  subst hk hend
  obtain ⟨st₀, st₁, hloop, hread, hs₁, hk₁⟩ := hs.readFragment crc mode hw (fragmentType_ne_zero _ _ _)
    (hw.fragment_fits crc left isBegin false (min_le_right _ _)) hpre hmid (logNumber_fragmentType hlog _ _)
  refine ⟨st₁, fun s o => ?_, hs₁, hk₁, hw.fragment crc left isBegin false (min_le_right _ _),
    hw.fragment_fills crc left isBegin false hmore, logNumber_emitPhysicalRecord crc hlog hk₁ _ _⟩
  rw [hloop s o]
  cases isBegin
  · exact ⟨o, Reader.readRecordLoop_of_middle hread (fragmentType_middle _) s o⟩
  · exact ⟨_, Reader.readRecordLoop_of_first hread (fragmentType_first _) s o⟩

/-- **An `AddRecord`, read.** From the reader synced with the writer, `ReadRecord`'s turns read the fragments of the
record and return it whole; the reader is then synced with the writer after it. The induction follows `AddRecord`'s
loop, with `scratch` holding the fragments read so far; a fragment after the first starts a block. -/
theorem Synced.readRecordLoop_addRecordLoop {w : Writer} {left : List UInt8} {isBegin : Bool} {st : Reader}
    (hw : w.Framed) (hs : Synced f w.dest.length st) (hpre : (w.addRecordLoop crc left isBegin).dest <+: f)
    (hmid : isBegin = false → w.blockOffset = kBlockSize)
    (hlog : w.recycleLogFiles = true → st.logNumber = w.logNumber % 2 ^ 32) (s : List UInt8) (o : ℕ)
    (hs₀ : isBegin = true → s = []) :
    ∃ st', st.readRecordLoop crc mode (!isBegin) s o = (some (s ++ left), st') ∧
      Synced f (w.addRecordLoop crc left isBegin).dest.length st' ∧ st.Keeps st' := by
  fun_induction Writer.addRecordLoop crc w left isBegin generalizing st s o with
  | case1 w left isBegin w₁ avail k t w₂ hmore =>
    -- a fragment that is not the last: the loop goes on in the next block
    rename_i ih
    have hend : (left.length == k) = false := by simp only [beq_eq_false_iff_ne]; omega
    obtain ⟨st₁, hloop, hs₁, hk₁, hw₂, hfull, hlog₁⟩ := hs.readFragment_more crc mode hw rfl hmore hend
      ((Writer.dest_prefix_addRecordLoop crc w₂ _ false).trans hpre) hmid hlog
    obtain ⟨o', ho⟩ := hloop s o
    obtain ⟨st', hr, hs', hk'⟩ := ih hw₂ hs₁ hpre (fun _ => hfull) hlog₁ ((if isBegin then [] else s) ++ left.take k)
      o' (fun h => absurd h Bool.noConfusion)
    rw [Bool.not_false] at hr
    have hscratch : (if isBegin then [] else s) = s := by
      cases isBegin
      · rfl
      · exact (hs₀ rfl).symm
    refine ⟨st', ?_, hs', hk₁.trans hk'⟩
    rw [ho, hr, hscratch, List.append_assoc, List.take_append_drop]
  | case2 w left isBegin w₁ avail k t w₂ =>
    -- the last fragment: FULL or LAST, and the record is returned
    rename_i hlast
    have hk : k = left.length := by
      have : k ≤ left.length := min_le_left _ _
      omega
    have hend : (left.length == k) = true := by simp [hk]
    obtain ⟨st₀, st₁, hloop, hread, hs₁, hk₁⟩ := hs.readFragment crc mode hw (fragmentType_ne_zero _ _ _)
      (hw.fragment_fits crc left isBegin _ (min_le_right _ _)) hpre hmid (logNumber_fragmentType hlog _ _)
    have htake : left.take k = left := by rw [hk, List.take_length]
    rw [htake, hend] at hread
    cases isBegin
    · exact ⟨_, by rw [hloop, Bool.not_false, Reader.readRecordLoop_of_last hread (fragmentType_last _)],
        hs₁.setRecordOffset _ _, hk₁.setRecordOffset _ _⟩
    · exact ⟨_, by rw [hloop, Bool.not_true, Reader.readRecordLoop_of_full hread (fragmentType_full _), hs₀ rfl,
        List.nil_append], hs₁.setRecordOffset _ _, hk₁.setRecordOffset _ _⟩

/-- **A cut `AddRecord`, read.** When the file ends inside what `AddRecord` wrote, `ReadRecord` returns false and the
reader has consumed the whole file. -/
theorem Synced.readRecordLoop_addRecordLoop_cut {w : Writer} {left : List UInt8} {isBegin : Bool} {st : Reader}
    (hw : w.Framed) (hs : Synced f w.dest.length st) (hpre : f <+: (w.addRecordLoop crc left isBegin).dest)
    (hp : w.dest.length ≤ f.length) (hcut : f.length < (w.addRecordLoop crc left isBegin).dest.length)
    (hmid : isBegin = false → w.blockOffset = kBlockSize)
    (hlog : w.recycleLogFiles = true → st.logNumber = w.logNumber % 2 ^ 32) (s : List UInt8) (o : ℕ) :
    ∃ st', st.readRecordLoop crc mode (!isBegin) s o = (none, st') ∧ st'.Drained := by
  fun_induction Writer.addRecordLoop crc w left isBegin generalizing st s o with
  | case1 w left isBegin w₁ avail k t w₂ hmore =>
    rename_i ih
    have hsuffix := Writer.dest_prefix_addRecordLoop crc w₂ (left.drop k) false
    by_cases hin : w₂.dest.length ≤ f.length
    · -- this fragment is whole: read it, and go on to the cut in a later one
      have hend : (left.length == k) = false := by simp only [beq_eq_false_iff_ne]; omega
      obtain ⟨st₁, hloop, hs₁, hk₁, hw₂, hfull, hlog₁⟩ := hs.readFragment_more crc mode hw rfl hmore hend
        (List.prefix_of_prefix_length_le hsuffix hpre hin) hmid hlog
      obtain ⟨o', ho⟩ := hloop s o
      rw [ho]
      exact ih hw₂ hs₁ hpre hin hcut (fun _ => hfull) hlog₁ _ o'
    · -- the cut is in this fragment
      have hcut₂ : f.length < w₂.dest.length := Nat.lt_of_not_le hin
      exact hs.readFragment_cut crc mode hw (hw.fragment_fits crc left isBegin _ (min_le_right left.length avail))
        (List.prefix_of_prefix_length_le hpre hsuffix hcut₂.le) hp hcut₂ hmid s o
  | case2 w left isBegin w₁ avail k t w₂ =>
    exact hs.readFragment_cut crc mode hw (hw.fragment_fits crc left isBegin _ (min_le_right _ _)) hpre hp hcut
      hmid s o

end record

/-! ## A run of AddRecord -/

section run

variable (crc : Crc32c) (mode : WALRecoveryMode) {f : List UInt8}

/-- the run only appends to the file -/
theorem Writer.dest_prefix_run_addRecord (w : Writer) (rs : List (List UInt8)) :
    w.dest <+: (w.run crc (rs.map WriterOp.addRecord)).dest := by
  induction rs generalizing w with
  | nil => exact List.prefix_refl _
  | cons r rs ih =>
    rw [Writer.run_addRecord_cons]
    exact (Writer.dest_prefix_addRecordLoop crc w r true).trans (ih _)

@[simp] theorem Writer.run_addRecord_logNumber (w : Writer) (rs : List (List UInt8)) :
    (w.run crc (rs.map WriterOp.addRecord)).logNumber = w.logNumber := by
  induction rs generalizing w with
  | nil => rfl
  | cons r rs ih =>
    rw [Writer.run_addRecord_cons, ih]
    exact Writer.addRecordLoop_logNumber crc w r true

/-- `AddRecord` read back as one `ReadRecord` -/
theorem Synced.readRecord_addRecord {w : Writer} {r : List UInt8} {st : Reader} (hw : w.Framed)
    (hs : Synced f w.dest.length st) (hpre : (w.addRecord crc r).dest <+: f)
    (hlog : w.recycleLogFiles = true → st.logNumber = w.logNumber % 2 ^ 32) :
    ∃ st', st.readRecord crc mode = (some r, st') ∧ Synced f (w.addRecord crc r).dest.length st' ∧ st.Keeps st' := by
  obtain ⟨st', hr, hs', hk⟩ := hs.readRecordLoop_addRecordLoop crc mode hw hpre (fun h => absurd h Bool.noConfusion)
    hlog [] 0 (fun _ => rfl)
  exact ⟨st', hr, hs', hk⟩

/-- **A run of `AddRecord`, read.** The reader synced with the writer returns the records written, in order -/
theorem Synced.readRecords_run {w : Writer} {st : Reader} (hw : w.Framed) (hs : Synced f w.dest.length st)
    (rs : List (List UInt8)) (hpre : (w.run crc (rs.map WriterOp.addRecord)).dest <+: f)
    (hlog : w.recycleLogFiles = true → st.logNumber = w.logNumber % 2 ^ 32) :
    ∃ st', st.readRecords crc mode rs.length = (rs.map some, st') ∧
      Synced f (w.run crc (rs.map WriterOp.addRecord)).dest.length st' ∧ st.Keeps st' := by
  induction rs generalizing w st with
  | nil => exact ⟨st, rfl, hs, Reader.Keeps.refl st⟩
  | cons r rs ih =>
    rw [Writer.run_addRecord_cons] at hpre ⊢
    have hpre₁ := (Writer.dest_prefix_run_addRecord crc (w.addRecord crc r) rs).trans hpre
    obtain ⟨st₁, hr, hs₁, hk₁⟩ := hs.readRecord_addRecord crc mode hw hpre₁ hlog
    obtain ⟨st', hrs, hs', hk'⟩ := ih (hw.addRecordLoop crc r true) hs₁ hpre (logNumber_addRecord crc hlog hk₁ r)
    refine ⟨st', ?_, hs', hk₁.trans hk'⟩
    rw [List.length_cons, Reader.readRecords_of_readRecord crc mode hr, hrs, List.map_cons]

/-- **A cut run of `AddRecord`, read.** On a prefix of what the writer wrote, the reader returns the records written
before the cut, in order, then false, and has consumed the whole prefix -/
theorem Synced.readRecords_run_cut {w : Writer} {st : Reader} (hw : w.Framed) (hs : Synced f w.dest.length st)
    (rs : List (List UInt8)) (hpre : f <+: (w.run crc (rs.map WriterOp.addRecord)).dest)
    (hp : w.dest.length ≤ f.length) (hlog : w.recycleLogFiles = true → st.logNumber = w.logNumber % 2 ^ 32) :
    ∃ k ≤ rs.length, ∃ st', st.readRecords crc mode (k + 1) = ((rs.take k).map some ++ [none], st') ∧
      st'.Drained := by
  induction rs generalizing w st with
  | nil =>
    -- nothing more was written: the reader is at the end of the file
    have hlen : f.length = w.dest.length := le_antisymm hpre.length_le hp
    obtain ⟨r, st', hr, hc, -, hd, -⟩ := hs.readPhysicalRecord_nearEnd crc (by unfold kHeaderSize; omega)
    obtain ⟨st'', hrec, hd'⟩ : ∃ st'', st.readRecord crc mode = (none, st'') ∧ st''.Drained :=
      Reader.readRecordLoop_of_end hr hc.symm hd false [] 0
    exact ⟨0, le_rfl, st'', by rw [Reader.readRecords_succ, hrec]; rfl, hd'⟩
  | cons r rs ih =>
    rw [Writer.run_addRecord_cons] at hpre
    have hsuffix := Writer.dest_prefix_run_addRecord crc (w.addRecord crc r) rs
    by_cases hin : (w.addRecord crc r).dest.length ≤ f.length
    · -- the record is whole: read it, and go on
      obtain ⟨st₁, hr, hs₁, hk₁⟩ := hs.readRecord_addRecord crc mode hw
        (List.prefix_of_prefix_length_le hsuffix hpre hin) hlog
      obtain ⟨k, hk, st', hrs, hd⟩ := ih (hw.addRecordLoop crc r true) hs₁ hpre hin (logNumber_addRecord crc hlog hk₁ r)
      refine ⟨k + 1, by simp only [List.length_cons]; omega, st', ?_, hd⟩
      rw [Reader.readRecords_of_readRecord crc mode hr, hrs, List.take_succ_cons, List.map_cons, List.cons_append]
    · -- the cut is in this record
      have hcut : f.length < (w.addRecord crc r).dest.length := Nat.lt_of_not_le hin
      obtain ⟨st', hl, hd⟩ := hs.readRecordLoop_addRecordLoop_cut crc mode hw
        (List.prefix_of_prefix_length_le hpre hsuffix hcut.le) hp hcut
        (fun h => absurd h Bool.noConfusion) hlog [] 0
      have hrec : st.readRecord crc mode = (none, st') := hl
      exact ⟨0, Nat.zero_le _, st', by rw [Reader.readRecords_succ, hrec]; rfl, hd⟩

end run

/-! ## Reading back a written file -/

section readBack

variable (crc : Crc32c) (mode : WALRecoveryMode)

/-- the reader's log number is the one the writer encodes, when it has at most 32 bits -/
theorem logNumber_encoded {logNumber : ℕ} {recycleLogFiles : Bool}
    (hlog : recycleLogFiles = true → logNumber < 2 ^ 32) (checksum : Bool) (f : List UInt8) :
    (Writer.create logNumber recycleLogFiles).recycleLogFiles = true →
      (Reader.create f checksum logNumber).logNumber = (Writer.create logNumber recycleLogFiles).logNumber % 2 ^ 32 :=
  fun h => (Nat.mod_eq_of_lt (hlog h)).symm

/-- **Reader/writer agreement.** The file a fresh writer writes with `AddRecord` alone, with recycling off, or on with
a log number below 2^32, read back in any recovery mode: the records written, in order, then false on every later
call, and the reporter is never called. -/
theorem readRecords_written (logNumber : ℕ) (recycleLogFiles : Bool)
    (hlog : recycleLogFiles = true → logNumber < 2 ^ 32) (rs : List (List UInt8)) (j : ℕ) :
    ∃ st', (Reader.create ((Writer.create logNumber recycleLogFiles).run crc (rs.map WriterOp.addRecord)).dest true
        logNumber).readRecords crc mode (rs.length + (j + 1)) = (rs.map some ++ List.replicate (j + 1) none, st') ∧
      st'.reports = [] := by
  set W := ((Writer.create logNumber recycleLogFiles).run crc (rs.map WriterOp.addRecord)).dest
  have hs : Synced W (Writer.create logNumber recycleLogFiles).dest.length (Reader.create W true logNumber) :=
    synced_create W true logNumber
  obtain ⟨st₁, hr, hs₁, hk₁⟩ := hs.readRecords_run crc mode (Writer.framed_create _ _) rs (List.prefix_refl _)
    (logNumber_encoded hlog true W)
  change Synced W W.length st₁ at hs₁
  -- after the last record the reader is at the end of the file
  obtain ⟨r, st₂, hr₂, -, hend, hd₂, hk₂⟩ := hs₁.readPhysicalRecord_nearEnd crc (by unfold kHeaderSize; omega)
  have hlast : st₁.readRecord crc mode = (none, st₂) := Reader.readRecordLoop_of_eof hr₂ (hend rfl) [] 0
  refine ⟨st₂, ?_, ?_⟩
  · rw [Reader.readRecords_add, hr, Reader.readRecords_succ, hlast, hd₂.readRecords]
    rfl
  · rw [hk₂.reports, hk₁.reports]
    rfl

theorem readRecords_written_recycled :
    (true = true → 7 < 2 ^ 32) ∧ ∃ st', (Reader.create ((Writer.create 7 true).run bitwise
        ([[1, 2], []].map WriterOp.addRecord)).dest true 7).readRecords bitwise .kPointInTimeRecovery
          ([[1, 2], []].length + (0 + 1)) = ([[1, 2], []].map some ++ List.replicate (0 + 1) none, st') ∧
      st'.reports = [] :=
  ⟨fun _ => by decide, readRecords_written bitwise .kPointInTimeRecovery 7 true (fun _ => by decide) [[1, 2], []] 0⟩

/-- **Crash-truncation safety.** Every prefix of the file a fresh writer writes with `AddRecord` alone, recycling
off, read back in any recovery mode and with any log number: the first `k` records written, whole and in order, then
false on every later call. -/
theorem readRecords_prefix (logNumber readerLogNumber : ℕ) (rs : List (List UInt8)) (m : ℕ) :
    ∃ k ≤ rs.length, ∀ j, ((Reader.create
        (((Writer.create logNumber false).run crc (rs.map WriterOp.addRecord)).dest.take m) true
          readerLogNumber).readRecords crc mode (k + (j + 1))).1 =
        (rs.take k).map some ++ List.replicate (j + 1) none := by
  set W := ((Writer.create logNumber false).run crc (rs.map WriterOp.addRecord)).dest
  have hs : Synced (W.take m) (Writer.create logNumber false).dest.length
      (Reader.create (W.take m) true readerLogNumber) :=
    synced_create _ true readerLogNumber
  obtain ⟨k, hk, st', hr, hd⟩ := hs.readRecords_run_cut crc mode (Writer.framed_create _ _) rs (List.take_prefix m W)
    (Nat.zero_le _) (fun h => absurd h Bool.false_ne_true)
  refine ⟨k, hk, fun j => ?_⟩
  rw [show k + (j + 1) = (k + 1) + j by omega, Reader.readRecords_add, hr, hd.readRecords, List.append_assoc]
  rfl

end readBack

/-! ## A recyclable log numbered from 2^32 -/

/-- **The reader rejects a recyclable log numbered from 2^32.** The writer encodes the low 32 bits of the log
number in bytes 7 to 10 of a recyclable header; the reader compares the 32 bits it decodes with its 64-bit
`log_number_`, so the first record of such a log is an old record, and `ReadRecord` returns false in every mode. -/
theorem recyclable_log_number_wraps (crc : Crc32c) (mode : WALRecoveryMode) (logNumber : ℕ)
    (hL : 2 ^ 32 ≤ logNumber) (r : List UInt8) (hr : kRecyclableHeaderSize + r.length < kBlockSize) :
    ((Reader.create ((Writer.create logNumber true).addRecord crc r).dest true logNumber).readRecord crc mode).1 =
      none := by
  set t := fragmentType true true true
  set hdr := physicalHeader crc logNumber t r
  have hhdr : hdr.length = kRecyclableHeaderSize := by
    rw [length_physicalHeader, if_neg (by decide)]
  have hfit : (Writer.create logNumber true).blockOffset + (Writer.create logNumber true).headerSize + r.length ≤
      kBlockSize := by
    simp only [Writer.create, Writer.headerSize, if_true, Nat.zero_add]
    exact hr.le
  have hW : ((Writer.create logNumber true).addRecord crc r).dest = hdr ++ r := by
    rw [Writer.addRecord, Writer.addRecordLoop_of_fit crc true hfit, Writer.emitPhysicalRecord_dest]
    exact List.nil_append _
  rw [hW]
  set st := Reader.create (hdr ++ r) true logNumber
  have hs : Synced (hdr ++ r) 0 st := synced_create _ true logNumber
  have hlen : (hdr ++ r).length < kBlockSize := by rw [List.length_append, hhdr]; exact hr
  obtain ⟨st₀, hread, hs₀, he₀, hk₀⟩ := hs.load crc (by rw [List.length_append, hhdr]; unfold kRecyclableHeaderSize; omega)
  have hb0 : blockEnd 0 = kBlockSize := by rw [blockEnd_of_mod]; simp
  have he : st₀.endOfBufferOffset = (hdr ++ r).length := by
    rw [he₀, hb0]; exact min_eq_right hlen.le
  have heof : st₀.eof = true := hs₀.eof_of_inside he (by
    rw [Nat.mod_eq_of_lt hlen, List.length_append, hhdr]; unfold kRecyclableHeaderSize; omega)
  have hbuf : st₀.buffer = hdr ++ r ++ [] := by
    rw [hs₀.buffer_eq, he, slice_of_length_le le_rfl, List.drop_zero, List.append_nil]
  have hb : ¬ st₀.buffer.length < kHeaderSize := by
    rw [hbuf, List.append_nil, List.length_append, hhdr]; unfold kHeaderSize kRecyclableHeaderSize; omega
  have hrec : ¬ (isRecyclableTypeCode (headerType st₀.buffer) &&
      decide (st₀.buffer.length < kRecyclableHeaderSize)) := by
    rw [hbuf, List.append_nil, headerType_physicalHeader, List.length_append, hhdr]; simp
  have hlog : st₀.markRecycled.logNumber ≠ logNumber % 2 ^ 32 := by
    rw [Reader.markRecycled_logNumber, hk₀.logNumber]
    have := Nat.mod_lt logNumber (show 0 < 2 ^ 32 by decide)
    exact fun h => by simp only [st, Reader.create] at h; omega
  have hold := Reader.checkRecord_old crc st₀.markRecycled (by rw [Reader.markRecycled_buffer]; exact hbuf)
    (by unfold kBlockSize kRecyclableHeaderSize at hr; omega) rfl hlog
  have hd : ({ st₀.markRecycled with buffer := [] } : Reader).Drained :=
    ⟨rfl, by simp [heof], by simp [hs₀.file_nil heof]⟩
  obtain ⟨st', hl, -⟩ : ∃ st', st.readRecord crc mode = (none, st') ∧ st'.Drained :=
    Reader.readRecordLoop_of_oldRecord (hread.trans ((Reader.readPhysicalRecord_of_header crc hb hrec).trans hold))
      rfl hd false [] 0
  exact congrArg Prod.fst hl

theorem recyclable_log_number_wraps_at_2_32 :
    2 ^ 32 ≤ 2 ^ 32 ∧ kRecyclableHeaderSize + [97].length < kBlockSize ∧
      ((Reader.create ((Writer.create (2 ^ 32) true).addRecord bitwise [97]).dest true (2 ^ 32)).readRecord
        bitwise .kTolerateCorruptedTailRecords).1 = none :=
  ⟨le_rfl, by decide, recyclable_log_number_wraps bitwise .kTolerateCorruptedTailRecords (2 ^ 32) le_rfl [97]
    (by decide)⟩

end ForSt.log
