import ForSt.Log.Writer
import ForSt.Util.Crc32cCombineSpec
/-!
The layout `log::Writer` gives the file.

`Writer.Framed w`: `block_offset_` is where the file ends in its block, never past `kBlockSize`. The block switch
leaves room for a header and appends the old block's zero trailer (`Writer.Framed.switchBlock`, `_dest`); a fragment
fits in what is left and fills it unless it is the last (`Writer.Framed.fragment`, `_fills`); so every `AddRecord`
keeps the invariant (`Writer.Framed.run_addRecord`). `MaybeAddUserDefinedTimestampSizeRecord` emits its record with
no block switch (`maybeAddUserDefinedTimestampSizeRecord_blockOffset`). The stored checksum is `Extend` of the
type's CRC over the payload (`headerChecksum_eq_extend`).
-/

namespace ForSt.log

open ForSt.crc32c

/-- `block_offset_` is the offset of the end of `dest_` in its block, at most `kBlockSize` -/
structure Writer.Framed (w : Writer) : Prop where
  blockOffset_le : w.blockOffset ≤ kBlockSize
  length_mod : w.dest.length % kBlockSize = w.blockOffset % kBlockSize

theorem Writer.framed_create (logNumber : ℕ) (recycleLogFiles : Bool) :
    (Writer.create logNumber recycleLogFiles).Framed :=
  ⟨Nat.zero_le _, rfl⟩

section emit

variable (crc : Crc32c) (w : Writer) (t : RecordType) (payload : List UInt8)

@[simp] theorem Writer.emitPhysicalRecord_dest :
    (w.emitPhysicalRecord crc t payload).dest = w.dest ++ physicalHeader crc w.logNumber t payload ++ payload := rfl

@[simp] theorem Writer.emitPhysicalRecord_blockOffset :
    (w.emitPhysicalRecord crc t payload).blockOffset =
      w.blockOffset + (physicalHeader crc w.logNumber t payload).length + payload.length := rfl

@[simp] theorem Writer.emitPhysicalRecord_logNumber : (w.emitPhysicalRecord crc t payload).logNumber = w.logNumber :=
  rfl

@[simp] theorem Writer.emitPhysicalRecord_recycleLogFiles :
    (w.emitPhysicalRecord crc t payload).recycleLogFiles = w.recycleLogFiles := rfl

@[simp] theorem Writer.emitPhysicalRecord_headerSize : (w.emitPhysicalRecord crc t payload).headerSize = w.headerSize :=
  rfl

@[simp] theorem Writer.emitPhysicalRecord_recordedCfToTsSz :
    (w.emitPhysicalRecord crc t payload).recordedCfToTsSz = w.recordedCfToTsSz := rfl

end emit

/-- a physical record that fits in what is left of the block keeps the invariant -/
theorem Writer.Framed.emitPhysicalRecord (crc : Crc32c) {w : Writer} (hw : w.Framed) (t : RecordType)
    (payload : List UInt8)
    (hfit : w.blockOffset + (physicalHeader crc w.logNumber t payload).length + payload.length ≤ kBlockSize) :
    (w.emitPhysicalRecord crc t payload).Framed where
  blockOffset_le := hfit
  length_mod := by
    have := hw.length_mod
    simp only [Writer.emitPhysicalRecord_dest, Writer.emitPhysicalRecord_blockOffset, List.length_append]
    unfold kBlockSize at *
    omega

section switch

variable {w : Writer}

/-- after the switch a header fits in the block, and the end of the file is `block_offset_` into it -/
theorem Writer.Framed.switchBlock (hw : w.Framed) :
    w.switchBlock.Framed ∧ w.switchBlock.blockOffset + w.headerSize ≤ kBlockSize ∧
      w.switchBlock.dest.length % kBlockSize = w.switchBlock.blockOffset := by
  have hpos := w.headerSize_pos
  have hle := hw.blockOffset_le
  have hmod := hw.length_mod
  by_cases h : (kBlockSize : ℤ) - w.blockOffset < w.headerSize
  · -- the trailer is padded: the file now ends on a block boundary
    rw [Writer.switchBlock_of_lt h]
    have hlen : (w.dest ++ List.replicate ((kBlockSize : ℤ) - w.blockOffset).toNat 0).length % kBlockSize = 0 := by
      rw [List.length_append, List.length_replicate]
      unfold kBlockSize at *
      omega
    refine ⟨⟨Nat.zero_le _, hlen⟩, ?_, hlen⟩
    have := w.headerSize_le
    unfold kBlockSize kRecyclableHeaderSize at *
    simp only [Nat.zero_add]
    omega
  · rw [Writer.switchBlock_of_ge h]
    refine ⟨hw, by omega, ?_⟩
    rw [hmod]
    exact Nat.mod_eq_of_lt (by omega)

/-- the switch appends nothing, or the zero trailer of the block the file ends in -/
theorem Writer.Framed.switchBlock_dest (hw : w.Framed) :
    w.switchBlock.dest = w.dest ∨
      (w.dest.length % kBlockSize ≠ 0 ∧ kBlockSize - w.dest.length % kBlockSize < w.headerSize ∧
        w.switchBlock.dest = w.dest ++ List.replicate (kBlockSize - w.dest.length % kBlockSize) 0) := by
  have hle := hw.blockOffset_le
  have hmod := hw.length_mod
  by_cases h : (kBlockSize : ℤ) - w.blockOffset < w.headerSize
  · rw [Writer.switchBlock_of_lt h]
    by_cases hfull : w.blockOffset = kBlockSize
    · -- a block that the last record filled: no trailer
      left
      rw [hfull, sub_self]
      simp
    · right
      have hlt : w.blockOffset < kBlockSize := lt_of_le_of_ne hle hfull
      have hm : w.dest.length % kBlockSize = w.blockOffset := by rw [hmod]; exact Nat.mod_eq_of_lt hlt
      have hto : ((kBlockSize : ℤ) - w.blockOffset).toNat = kBlockSize - w.blockOffset := by omega
      have hhs := w.headerSize_le
      rw [hm, hto]
      unfold kBlockSize kRecyclableHeaderSize at *
      exact ⟨by omega, by omega, rfl⟩
  · rw [Writer.switchBlock_of_ge h]
    exact .inl rfl

/-- inside a block the writer is never in the middle of a record: a fragment after the first starts a block -/
theorem Writer.Framed.begin_of_mod {isBegin : Bool} (hw : w.Framed)
    (hmid : isBegin = false → w.blockOffset = kBlockSize) (hmod : w.dest.length % kBlockSize ≠ 0) :
    isBegin = true := by
  cases isBegin
  · have h := hw.length_mod
    rw [hmid rfl, Nat.mod_self] at h
    exact absurd h hmod
  · rfl

end switch

/-! ## The fragments of AddRecord -/

section fragment

variable (crc : Crc32c) {w : Writer} (left : List UInt8) (isBegin isEnd : Bool) {k : ℕ}

/-- a fragment's header is the writer's header size -/
theorem Writer.length_fragmentHeader (payload : List UInt8) :
    (physicalHeader crc w.switchBlock.logNumber (fragmentType w.recycleLogFiles isBegin isEnd) payload).length =
      w.headerSize := by
  rw [← Writer.switchBlock_headerSize, ← Writer.switchBlock_recycleLogFiles]
  exact length_physicalHeader_fragmentType crc _ isBegin isEnd payload

/-- the fragment `AddRecord` emits after the switch fits in what is left of the block -/
theorem Writer.Framed.fragment_fits (hw : w.Framed)
    (hk : k ≤ kBlockSize - w.switchBlock.blockOffset - w.switchBlock.headerSize) :
    w.switchBlock.blockOffset +
        (physicalHeader crc w.switchBlock.logNumber (fragmentType w.recycleLogFiles isBegin isEnd)
          (left.take k)).length + (left.take k).length ≤ kBlockSize := by
  have hsw := (hw.switchBlock).2.1
  rw [Writer.length_fragmentHeader, List.length_take]
  simp only [Writer.switchBlock_headerSize] at hk
  omega

theorem Writer.Framed.fragment (hw : w.Framed)
    (hk : k ≤ kBlockSize - w.switchBlock.blockOffset - w.switchBlock.headerSize) :
    (w.switchBlock.emitPhysicalRecord crc (fragmentType w.recycleLogFiles isBegin isEnd) (left.take k)).Framed :=
  (hw.switchBlock).1.emitPhysicalRecord crc _ _ (hw.fragment_fits crc left isBegin isEnd hk)

/-- a fragment that is not the last takes all that is left of the block -/
theorem Writer.Framed.fragment_fills (hw : w.Framed)
    (hmore : 0 < left.length - min left.length (kBlockSize - w.switchBlock.blockOffset - w.switchBlock.headerSize)) :
    (w.switchBlock.emitPhysicalRecord crc (fragmentType w.recycleLogFiles isBegin isEnd)
      (left.take (min left.length (kBlockSize - w.switchBlock.blockOffset - w.switchBlock.headerSize)))).blockOffset =
        kBlockSize := by
  have hsw := (hw.switchBlock).2.1
  rw [Writer.emitPhysicalRecord_blockOffset, Writer.length_fragmentHeader, List.length_take]
  simp only [Writer.switchBlock_headerSize] at hmore ⊢
  omega

end fragment

/-! ## The bytes AddRecord appends -/

/-- `Laid crc logNumber headerSize p bytes`: the bytes a writer appends from file offset `p` are zero trailers and
physical records. A trailer fills the rest of a block when fewer than `headerSize` bytes are left in it, and each
record, header and payload, lies inside one block -/
inductive Writer.Laid (crc : Crc32c) (logNumber headerSize : ℕ) : ℕ → List UInt8 → Prop
  | nil (p : ℕ) : Writer.Laid crc logNumber headerSize p []
  | trailer (p : ℕ) (rest : List UInt8) (hmid : p % kBlockSize ≠ 0)
      (hshort : kBlockSize - p % kBlockSize < headerSize)
      (hrest : Writer.Laid crc logNumber headerSize (p + (kBlockSize - p % kBlockSize)) rest) :
      Writer.Laid crc logNumber headerSize p (List.replicate (kBlockSize - p % kBlockSize) 0 ++ rest)
  | record (p : ℕ) (t : RecordType) (payload rest : List UInt8)
      (hfit : p % kBlockSize + (physicalHeader crc logNumber t payload).length + payload.length ≤ kBlockSize)
      (hrest : Writer.Laid crc logNumber headerSize
        (p + (physicalHeader crc logNumber t payload).length + payload.length) rest) :
      Writer.Laid crc logNumber headerSize p (physicalHeader crc logNumber t payload ++ payload ++ rest)

/-- two layouts one after the other are one layout -/
theorem Writer.Laid.append {crc : Crc32c} {logNumber headerSize p : ℕ} {a b : List UInt8}
    (ha : Writer.Laid crc logNumber headerSize p a) (hb : Writer.Laid crc logNumber headerSize (p + a.length) b) :
    Writer.Laid crc logNumber headerSize p (a ++ b) := by
  induction ha with
  | nil p => simpa using hb
  | trailer p rest hmid hshort _ ih =>
    rw [List.append_assoc]
    refine .trailer p _ hmid hshort (ih ?_)
    simpa [Nat.add_assoc] using hb
  | record p t payload rest hfit _ ih =>
    rw [List.append_assoc]
    refine .record p t payload _ hfit (ih ?_)
    simpa [Nat.add_assoc] using hb

/-- one turn of `AddRecord`'s loop: the block switch appends nothing or the block's zero trailer, and the fragment
after it lies in what is left of the block -/
theorem Writer.Framed.fragment_laid (crc : Crc32c) {w : Writer} (hw : w.Framed) (left : List UInt8)
    (isBegin isEnd : Bool) {k : ℕ} (hk : k ≤ kBlockSize - w.switchBlock.blockOffset - w.switchBlock.headerSize) :
    ∃ bytes, (w.switchBlock.emitPhysicalRecord crc (fragmentType w.recycleLogFiles isBegin isEnd) (left.take k)).dest =
      w.dest ++ bytes ∧ Writer.Laid crc w.logNumber w.headerSize w.dest.length bytes := by
  set t := fragmentType w.recycleLogFiles isBegin isEnd
  set payload := left.take k
  have hfits := hw.fragment_fits crc left isBegin isEnd hk
  have hoff := (hw.switchBlock).2.2
  -- the record starts where the switch leaves the file, `block_offset_` into its block
  have hrec : Writer.Laid crc w.logNumber w.headerSize w.switchBlock.dest.length
      (physicalHeader crc w.logNumber t payload ++ payload) := by
    have h : Writer.Laid crc w.logNumber w.headerSize w.switchBlock.dest.length
        (physicalHeader crc w.logNumber t payload ++ payload ++ []) :=
      .record _ t payload [] (by rw [hoff, ← Writer.switchBlock_logNumber]; exact hfits) (.nil _)
    simpa using h
  rw [Writer.emitPhysicalRecord_dest, Writer.switchBlock_logNumber]
  rcases hw.switchBlock_dest with hsame | ⟨hmid, hshort, htrail⟩
  · exact ⟨_, by rw [hsame, List.append_assoc], by rwa [hsame] at hrec⟩
  · refine ⟨List.replicate (kBlockSize - w.dest.length % kBlockSize) 0 ++
      (physicalHeader crc w.logNumber t payload ++ payload), by rw [htrail]; simp, ?_⟩
    refine .trailer _ _ hmid hshort ?_
    have hlen : w.dest.length + (kBlockSize - w.dest.length % kBlockSize) = w.switchBlock.dest.length := by
      rw [htrail, List.length_append, List.length_replicate]
    rwa [hlen]

section loop

variable (crc : Crc32c) (w : Writer) (left : List UInt8) (isBegin : Bool)

@[simp] theorem Writer.addRecordLoop_logNumber : (w.addRecordLoop crc left isBegin).logNumber = w.logNumber := by
  fun_induction Writer.addRecordLoop crc w left isBegin with
  | case1 w left isBegin w₁ avail k t w₂ hmore ih =>
    rw [ih]; exact Writer.switchBlock_logNumber w
  | case2 w left isBegin w₁ avail k t w₂ hlast => exact Writer.switchBlock_logNumber w

@[simp] theorem Writer.addRecordLoop_recycleLogFiles :
    (w.addRecordLoop crc left isBegin).recycleLogFiles = w.recycleLogFiles := by
  fun_induction Writer.addRecordLoop crc w left isBegin with
  | case1 w left isBegin w₁ avail k t w₂ hmore ih => rw [ih]; exact Writer.switchBlock_recycleLogFiles w
  | case2 w left isBegin w₁ avail k t w₂ hlast => exact Writer.switchBlock_recycleLogFiles w

theorem Writer.dest_prefix_switchBlock : w.dest <+: w.switchBlock.dest := by
  by_cases h : (kBlockSize : ℤ) - w.blockOffset < w.headerSize
  · rw [Writer.switchBlock_of_lt h]; exact List.prefix_append _ _
  · rw [Writer.switchBlock_of_ge h]

theorem Writer.dest_prefix_emitPhysicalRecord (t : RecordType) (payload : List UInt8) :
    w.dest <+: (w.emitPhysicalRecord crc t payload).dest := by
  rw [Writer.emitPhysicalRecord_dest, List.append_assoc]
  exact List.prefix_append _ _

/-- the loop only appends to the file -/
theorem Writer.dest_prefix_addRecordLoop : w.dest <+: (w.addRecordLoop crc left isBegin).dest := by
  fun_induction Writer.addRecordLoop crc w left isBegin with
  | case1 w left isBegin w₁ avail k t w₂ hmore ih =>
    exact (w.dest_prefix_switchBlock.trans (w₁.dest_prefix_emitPhysicalRecord crc t _)).trans ih
  | case2 w left isBegin w₁ avail k t w₂ hlast =>
    exact w.dest_prefix_switchBlock.trans (w₁.dest_prefix_emitPhysicalRecord crc t _)

end loop

/-- the bytes the loop appends are laid out in blocks from where the file ended -/
theorem Writer.Framed.addRecordLoop_laid (crc : Crc32c) {w : Writer} (hw : w.Framed) (left : List UInt8)
    (isBegin : Bool) :
    ∃ bytes, (w.addRecordLoop crc left isBegin).dest = w.dest ++ bytes ∧
      Writer.Laid crc w.logNumber w.headerSize w.dest.length bytes := by
  -- induction on the loop; each turn is a fragment, laid out by `fragment_laid`, and the turns after it
  fun_induction Writer.addRecordLoop crc w left isBegin with
  | case1 w left isBegin w₁ avail k t w₂ hmore ih =>
    obtain ⟨a, ha, hla⟩ := hw.fragment_laid crc left isBegin _ (min_le_right _ _)
    have hw₂ : w₂.Framed := hw.fragment crc left isBegin _ (min_le_right _ _)
    obtain ⟨b, hb, hlb⟩ := ih hw₂
    have hlog : w₂.logNumber = w.logNumber := by simp [w₂, w₁]
    have hhdr : w₂.headerSize = w.headerSize := by simp [w₂, w₁]
    refine ⟨a ++ b, by rw [hb, ha, List.append_assoc], hla.append ?_⟩
    rw [← hlog, ← hhdr, ← List.length_append, ← ha]
    exact hlb
  | case2 w left isBegin w₁ avail k t w₂ hlast => exact hw.fragment_laid crc left isBegin _ (min_le_right _ _)

/-- **`AddRecord` keeps the framing**: every fragment it emits fits in its block -/
theorem Writer.Framed.addRecordLoop (crc : Crc32c) {w : Writer} (hw : w.Framed) (left : List UInt8) (isBegin : Bool) :
    (w.addRecordLoop crc left isBegin).Framed := by
  fun_induction Writer.addRecordLoop crc w left isBegin with
  | case1 w left isBegin w₁ avail k t w₂ hmore ih =>
    exact ih (hw.fragment crc left isBegin _ (min_le_right _ _))
  | case2 w left isBegin w₁ avail k t w₂ hlast =>
    exact hw.fragment crc left isBegin _ (min_le_right _ _)

@[simp] theorem Writer.step_addRecord (crc : Crc32c) (w : Writer) (slice : List UInt8) :
    w.step crc (.addRecord slice) = w.addRecord crc slice := rfl

/-- a run of `AddRecord` calls, one call at a time -/
theorem Writer.run_addRecord_cons (crc : Crc32c) (w : Writer) (r : List UInt8) (rs : List (List UInt8)) :
    w.run crc ((r :: rs).map WriterOp.addRecord) = (w.addRecord crc r).run crc (rs.map WriterOp.addRecord) := rfl

/-- **`AddRecord` frames every record of a run**: after any run of `AddRecord` from a framed writer, the writer is
framed, and the bytes appended are zero trailers, each filling a block that has fewer than a header's bytes left, and
physical records, each inside one block -/
theorem Writer.Framed.run_addRecord (crc : Crc32c) {w : Writer} (hw : w.Framed) (rs : List (List UInt8)) :
    let w' := w.run crc (rs.map WriterOp.addRecord)
    w'.Framed ∧ ∃ bytes, w'.dest = w.dest ++ bytes ∧ Writer.Laid crc w.logNumber w.headerSize w.dest.length bytes := by
  -- induction on the records; each `AddRecord` is laid out by its loop and keeps the log number and header size
  induction rs generalizing w with
  | nil => exact ⟨hw, [], (List.append_nil _).symm, .nil _⟩
  | cons r rs ih =>
    rw [Writer.run_addRecord_cons]
    obtain ⟨a, ha, hla⟩ := hw.addRecordLoop_laid crc r true
    obtain ⟨hfr, b, hb, hlb⟩ := ih (hw.addRecordLoop crc r true)
    have hlog : (w.addRecordLoop crc r true).logNumber = w.logNumber := Writer.addRecordLoop_logNumber crc w r true
    have hhdr : (w.addRecordLoop crc r true).headerSize = w.headerSize := by
      simp only [Writer.headerSize, Writer.addRecordLoop_recycleLogFiles]
    refine ⟨hfr, a ++ b, by rw [Writer.addRecord, hb, ha, List.append_assoc], hla.append ?_⟩
    rw [← hlog, ← hhdr, ← List.length_append, ← ha]
    exact hlb

theorem Writer.framed_run_addRecord_create :
    (Writer.create 0 false).Framed ∧
      let w' := (Writer.create 0 false).run bitwise ([[1, 2, 3]].map WriterOp.addRecord)
      w'.Framed ∧ ∃ bytes, w'.dest = (Writer.create 0 false).dest ++ bytes ∧
        Writer.Laid bitwise (Writer.create 0 false).logNumber (Writer.create 0 false).headerSize
          (Writer.create 0 false).dest.length bytes :=
  ⟨Writer.framed_create 0 false, Writer.Framed.run_addRecord bitwise (Writer.framed_create 0 false) [[1, 2, 3]]⟩

/-! ## A record that fits, and the timestamp-size record -/

/-- with room for the whole record in the block, `AddRecord` emits it as one fragment -/
theorem Writer.addRecordLoop_of_fit (crc : Crc32c) {w : Writer} {left : List UInt8} (isBegin : Bool)
    (h : w.blockOffset + w.headerSize + left.length ≤ kBlockSize) :
    w.addRecordLoop crc left isBegin = w.emitPhysicalRecord crc (fragmentType w.recycleLogFiles isBegin true) left := by
  have hsw : w.switchBlock = w := Writer.switchBlock_of_ge (by omega)
  have hmin : min left.length (kBlockSize - w.blockOffset - w.headerSize) = left.length := min_eq_left (by omega)
  rw [Writer.addRecordLoop]
  simp only [hsw, hmin, Nat.sub_self, Nat.lt_irrefl, if_false, List.take_length, beq_self_eq_true]

/-- the timestamp-size record is emitted where the file ends, whatever is left of the block -/
theorem Writer.maybeAddUserDefinedTimestampSizeRecord_blockOffset (crc : Crc32c) (w : Writer)
    (cfToTsSz : List (ℕ × ℕ)) (h : (collectTsSzToRecord cfToTsSz w.recordedCfToTsSz).1 ≠ []) :
    (w.maybeAddUserDefinedTimestampSizeRecord crc cfToTsSz).blockOffset =
      w.blockOffset + w.headerSize + kSizePerColumnFamily * (collectTsSzToRecord cfToTsSz w.recordedCfToTsSz).1.length := by
  unfold Writer.maybeAddUserDefinedTimestampSizeRecord
  rw [if_neg h, Writer.emitPhysicalRecord_blockOffset, length_physicalHeader, length_udtEncodeTo]
  unfold Writer.headerSize
  cases w.recycleLogFiles <;> rfl

/-- **The timestamp-size record runs past its block.** A fresh writer without recycling, given a record of 32754
bytes and then a timestamp size for one column family: the record ends 7 bytes before the end of the block, where
the timestamp-size record's 7-byte header and 6-byte payload are emitted without a block switch, so
`block_offset_` ends at 32774, past `kBlockSize`. -/
theorem userDefinedTimestampSizeRecord_overruns_block (crc : Crc32c) :
    ((Writer.create 0 false).addCompressionTypeRecord.run crc
      [.addRecord (List.replicate 32754 0), .maybeAddUserDefinedTimestampSizeRecord [(0, 8)]]).blockOffset = 32774 := by
  have hfit : (Writer.create 0 false).blockOffset + (Writer.create 0 false).headerSize +
      (List.replicate 32754 (0 : UInt8)).length ≤ kBlockSize := by
    rw [List.length_replicate]; decide
  -- the record is one fragment, which leaves 7 bytes of the block
  have h₁ := Writer.addRecordLoop_of_fit crc true hfit
  have hbo : ((Writer.create 0 false).addRecord crc (List.replicate 32754 0)).blockOffset = 32761 := by
    rw [Writer.addRecord, h₁, Writer.emitPhysicalRecord_blockOffset, length_physicalHeader, if_pos (by decide),
      List.length_replicate]
    rfl
  have hrec : ((Writer.create 0 false).addRecord crc (List.replicate 32754 0)).recordedCfToTsSz = [] := by
    rw [Writer.addRecord, h₁, Writer.emitPhysicalRecord_recordedCfToTsSz]; rfl
  have hcol : (collectTsSzToRecord [(0, 8)]
      ((Writer.create 0 false).addRecord crc (List.replicate 32754 0)).recordedCfToTsSz).1 = [(0, 8)] := by
    rw [hrec]; decide
  have hhs : ((Writer.create 0 false).addRecord crc (List.replicate 32754 0)).headerSize = kHeaderSize := by
    rw [Writer.addRecord, h₁, Writer.emitPhysicalRecord_headerSize]; rfl
  show (((Writer.create 0 false).addRecord crc (List.replicate 32754 0)).maybeAddUserDefinedTimestampSizeRecord crc
    [(0, 8)]).blockOffset = 32774
  rw [Writer.maybeAddUserDefinedTimestampSizeRecord_blockOffset crc _ _ (by rw [hcol]; exact List.cons_ne_nil _ _),
    hbo, hhs, hcol]
  rfl

/-- the combine of the type's CRC and the payload's is the type's CRC extended over the payload -/
theorem headerChecksum_eq_extend (crc : Crc32c) (logNumber : ℕ) (t : RecordType) (payload : List UInt8) :
    headerChecksum crc logNumber t payload =
      mask (crc.extend (if t.isLegacy then crc.value [UInt8.ofNat t.toNat]
        else crc.extend (crc.value [UInt8.ofNat t.toNat]) (logNumberBytes t logNumber)) payload) := by
  unfold headerChecksum
  refine congrArg mask ?_
  split
  · rw [crc.combine_value', crc.extend_value']
  · -- the log number bytes extend the type's CRC, which is the CRC of the type byte and the log number
    rw [crc.extend_value', crc.combine_value', crc.extend_value']

/-- **The source's `Crc32cCombine` meets the combination law** for the standard CRC-32C `Value`, so the header
checksum of every physical record is `Extend` of the type's CRC over the payload. -/
theorem crc32cCombine_headerChecksum :
    (∀ a b : List UInt8,
      crc32cCombineWith bitwise.extend (bitwise.value a) (bitwise.value b) b.length = bitwise.value (a ++ b)) ∧
    ∀ (logNumber : ℕ) (t : RecordType) (payload : List UInt8),
      headerChecksum combined logNumber t payload =
        mask (combined.extend (if t.isLegacy then combined.value [UInt8.ofNat t.toNat]
          else combined.extend (combined.value [UInt8.ofNat t.toNat]) (logNumberBytes t logNumber)) payload) :=
by
  exact ⟨combined.combine_value, headerChecksum_eq_extend combined⟩

end ForSt.log
