import ForSt.Db.WriteBatch
import ForSt.Lib.SavepointLog
import Mathlib.Data.Nat.Bitwise
/-!
What a `WriteBatch` is for: a list of operations with a stack of savepoints (`SavepointLog BatchEntry`), which the
byte log refines.

`WriteBatch.Abstracts b m` says the batch `b` is the model `m` written out: `rep_` is the zeroed sequence number, the
count of the entries that are not log data, and each entry's record (`batchRep`); the flag word is the union of the
entries' flags; each savepoint holds the size, count and flags of the batch at the model's savepoint. Results:
- one lemma per operation: a mutator that succeeds appends its entry, one that fails (`MemoryLimit`, or a refused
  size) leaves the batch as it was; `RollbackToSavePoint` truncates to the newest savepoint, `PopSavePoint` drops it,
  `Clear` empties both;
- reading: from `rep = batchRep es`, `Iterate` with a recording handler returns OK and reports `es` in order;
  `Count()` is the number of counted entries modulo `2 ^ 32`, and each `Has*` query holds exactly when an entry of
  its kind is present.

These need every slice shorter than `2 ^ 32` bytes: `PutLengthPrefixedSlice` casts the length to `uint32_t`, and
`Delete`, `SingleDelete`, `DeleteRange`, `PutBlobIndex` and `PutLogData` do not refuse a longer one.
-/

namespace ForSt

open ForSt.Coding

/-! ## Entries -/

/-- an operation a batch holds -/
inductive BatchEntry where
  | put (columnFamilyId : UInt32) (key value : List UInt8)
  | delete (columnFamilyId : UInt32) (key : List UInt8)
  | singleDelete (columnFamilyId : UInt32) (key : List UInt8)
  | deleteRange (columnFamilyId : UInt32) (beginKey endKey : List UInt8)
  | merge (columnFamilyId : UInt32) (key value : List UInt8)
  | putBlobIndex (columnFamilyId : UInt32) (key value : List UInt8)
  | putEntity (columnFamilyId : UInt32) (key entity : List UInt8)
  | logData (blob : List UInt8)
deriving DecidableEq, Repr

namespace BatchEntry

/-- the slices the entry's record carries -/
def slices : BatchEntry → List (List UInt8)
  | .put _ key value | .merge _ key value | .putBlobIndex _ key value | .putEntity _ key value => [key, value]
  | .deleteRange _ beginKey endKey => [beginKey, endKey]
  | .delete _ key | .singleDelete _ key => [key]
  | .logData blob => [blob]

/-- every slice has a length `PutLengthPrefixedSlice` can write -/
def Encodable (e : BatchEntry) : Prop := ∀ s ∈ e.slices, s.length < 2 ^ 32

/-- the kind of entry, as its content flag names it; log data has none -/
def flag? : BatchEntry → Option ContentFlags
  | .put .. => some .hasPut
  | .delete .. => some .hasDelete
  | .singleDelete .. => some .hasSingleDelete
  | .deleteRange .. => some .hasDeleteRange
  | .merge .. => some .hasMerge
  | .putBlobIndex .. => some .hasBlobIndex
  | .putEntity .. => some .hasPutEntity
  | .logData _ => none

/-- whether `Count()` counts the entry: all but log data -/
def counted (e : BatchEntry) : Bool := e.flag?.isSome

/-- the tag bytes: the default-family and column-family tags of a counted entry, or `kTypeLogData` -/
def tag : BatchEntry → List UInt8
  | .put cf .. => recordTag .kTypeValue .kTypeColumnFamilyValue cf
  | .delete cf _ => recordTag .kTypeDeletion .kTypeColumnFamilyDeletion cf
  | .singleDelete cf _ => recordTag .kTypeSingleDeletion .kTypeColumnFamilySingleDeletion cf
  | .deleteRange cf .. => recordTag .kTypeRangeDeletion .kTypeColumnFamilyRangeDeletion cf
  | .merge cf .. => recordTag .kTypeMerge .kTypeColumnFamilyMerge cf
  | .putBlobIndex cf .. => recordTag .kTypeBlobIndex .kTypeColumnFamilyBlobIndex cf
  | .putEntity cf .. => recordTag .kTypeWideColumnEntity .kTypeColumnFamilyWideColumnEntity cf
  | .logData _ => [ValueType.kTypeLogData.toUInt8]

/-- the record of the entry in `rep_` -/
def encode (e : BatchEntry) : List UInt8 := e.tag ++ (e.slices.map putLengthPrefixedSlice).flatten

/-- what `Iterate` tells a handler about the entry -/
def toCall : BatchEntry → HandlerCall
  | .put cf key value => .putCF cf key value
  | .delete cf key => .deleteCF cf key
  | .singleDelete cf key => .singleDeleteCF cf key
  | .deleteRange cf beginKey endKey => .deleteRangeCF cf beginKey endKey
  | .merge cf key value => .mergeCF cf key value
  | .putBlobIndex cf key value => .putBlobIndexCF cf key value
  | .putEntity cf key entity => .putEntityCF cf key entity
  | .logData blob => .logData blob

/-- the flag bit the entry sets in `content_flags_` -/
def flagBits (e : BatchEntry) : ℕ := match e.flag? with
  | some f => f.bit
  | none => 0

theorem tag_ne_nil (e : BatchEntry) : e.tag ≠ [] := by
  cases e <;> simp [tag, recordTag] <;> split <;> simp

theorem encode_ne_nil (e : BatchEntry) : e.encode ≠ [] := by
  simp [encode, tag_ne_nil]

end BatchEntry

/-! ## The batch a list of entries makes -/

/-- the records of the entries, one after another -/
def encodeEntries (es : List BatchEntry) : List UInt8 := (es.map BatchEntry.encode).flatten

/-- the number of counted entries -/
def countOf (es : List BatchEntry) : ℕ := es.countP BatchEntry.counted

/-- the union of the entries' flags, as the mutators accumulate it -/
def contentFlagsOf (es : List BatchEntry) : ℕ := es.foldl (fun flags e => flags ||| e.flagBits) 0

/-- the header: the sequence number the modelled operations leave at zero, and the count -/
def batchHeader (count : ℕ) : List UInt8 := List.replicate 8 0 ++ encodeFixed32 count

/-- `rep_` of the batch holding `es` -/
def batchRep (es : List BatchEntry) : List UInt8 := batchHeader (countOf es) ++ encodeEntries es

/-- the savepoint a batch holding `es` records -/
def savePointOf (es : List BatchEntry) : SavePoint := ⟨(batchRep es).length, countOf es % 2 ^ 32, contentFlagsOf es⟩

@[simp] theorem encodeEntries_nil : encodeEntries [] = [] := rfl

theorem encodeEntries_append (es fs : List BatchEntry) :
    encodeEntries (es ++ fs) = encodeEntries es ++ encodeEntries fs := by
  simp [encodeEntries]

theorem encodeEntries_cons (e : BatchEntry) (es : List BatchEntry) :
    encodeEntries (e :: es) = e.encode ++ encodeEntries es := rfl

theorem countOf_append (es : List BatchEntry) (e : BatchEntry) :
    countOf (es ++ [e]) = countOf es + if e.counted then 1 else 0 := by
  simp [countOf, List.countP_append]

theorem contentFlagsOf_append (es : List BatchEntry) (e : BatchEntry) :
    contentFlagsOf (es ++ [e]) = contentFlagsOf es ||| e.flagBits := by
  simp [contentFlagsOf, List.foldl_append]

@[simp] theorem length_batchHeader (count : ℕ) : (batchHeader count).length = kHeader := by
  simp [batchHeader, kHeader]

/-- the count field keeps the low 32 bits -/
theorem batchHeader_mod (count : ℕ) : batchHeader (count % 2 ^ 32) = batchHeader count := by
  have h : encodeFixed32 (count % 2 ^ 32) = encodeFixed32 count := by
    have hk := Bytes.leBytes_ofLeBytes (encodeFixed32 count)
    rw [length_encodeFixed32] at hk
    unfold encodeFixed32 at hk ⊢
    rw [Bytes.ofLeBytes_leBytes] at hk
    rw [← hk]
    norm_num
  rw [batchHeader, h, batchHeader]

/-- a prefix of the entries is a prefix of the records -/
theorem encodeEntries_take (es : List BatchEntry) (n : ℕ) :
    encodeEntries es = encodeEntries (es.take n) ++ encodeEntries (es.drop n) := by
  rw [← encodeEntries_append, List.take_append_drop]

/-- records of a list of entries are empty only for no entries -/
theorem encodeEntries_eq_nil {es : List BatchEntry} (h : encodeEntries es = []) : es = [] := by
  cases es with
  | nil => rfl
  | cons e es =>
    rw [encodeEntries_cons, List.append_eq_nil_iff] at h
    exact absurd h.1 e.encode_ne_nil

/-! ## The header of `rep_` -/

section header

variable {b : WriteBatch} {c : ℕ} {body : List UInt8}

theorem count_of_rep (h : b.rep = batchHeader c ++ body) : b.count = c % 2 ^ 32 := by
  rw [WriteBatch.count, h, batchHeader, List.append_assoc, List.drop_left' (by simp),
    decodeFixed32_encodeFixed32]

theorem setCount_rep_of_rep (h : b.rep = batchHeader c ++ body) (n : ℕ) :
    (b.setCount n).rep = batchHeader n ++ body := by
  have h12 : (batchHeader c).length = 12 := length_batchHeader c
  have htake : b.rep.take 8 = List.replicate 8 0 := by
    rw [h, batchHeader, List.append_assoc, List.take_left' (by simp)]
  have hdrop : b.rep.drop 12 = body := by
    rw [h, List.drop_left' h12]
  simp only [WriteBatch.setCount, htake, hdrop, batchHeader, List.append_assoc]

end header

/-! ## The refinement -/

/-- the model of a batch -/
abbrev BatchModel := SavepointLog BatchEntry

/-- the batch `b` is the model `m` written out -/
structure WriteBatch.Abstracts (b : WriteBatch) (m : BatchModel) : Prop where
  rep_eq : b.rep = batchRep m.entries
  contentFlags_eq : b.contentFlags = contentFlagsOf m.entries
  savePoints_eq : b.savePoints = m.views savePointOf
  encodable : ∀ e ∈ m.entries, e.Encodable

theorem abstracts_create (maxBytes : ℕ) : (WriteBatch.create maxBytes).Abstracts .empty where
  rep_eq := rfl
  contentFlags_eq := rfl
  savePoints_eq := rfl
  encodable := by simp

/-! ## One operation -/

section step

variable {b : WriteBatch} {m : BatchModel}

/-- `LocalSavePoint::commit` over the limit, after an append to `b`: cutting back to the saved size and putting back
the saved count and flags restores `b` exactly -/
theorem restore_localSavePoint (raw : WriteBatch) {c c' : ℕ} {body extra : List UInt8}
    (hb : b.rep = batchHeader c ++ body) (hraw : raw.rep = batchHeader c' ++ body ++ extra)
    (hmax : raw.maxBytes = b.maxBytes) (hsp : raw.savePoints = b.savePoints) (hwal : raw.walTermPoint = b.walTermPoint) :
    { { raw with rep := resize raw.rep b.localSavePoint.size }.setCount b.localSavePoint.count with
        contentFlags := b.localSavePoint.contentFlags } = b := by
  have hsize : b.localSavePoint.size = (batchHeader c' ++ body).length := by
    simp [WriteBatch.localSavePoint, WriteBatch.getDataSize, hb]
  have hresize : resize raw.rep b.localSavePoint.size = batchHeader c' ++ body := by
    rw [resize, hsize, hraw, List.take_left, List.length_append]
    simp
  have hrep : ({ raw with rep := resize raw.rep b.localSavePoint.size }.setCount b.localSavePoint.count).rep =
      batchHeader b.count ++ body :=
    setCount_rep_of_rep hresize _
  rw [count_of_rep hb, batchHeader_mod] at hrep
  exact WriteBatch.ext (hrep.trans hb.symm) rfl hmax hsp hwal

/-- a batch that holds one more entry than `b`, with its flag added and the savepoints kept, is the appended model -/
theorem WriteBatch.Abstracts.append_of (hR : b.Abstracts m) {e : BatchEntry} (he : e.Encodable) {b' : WriteBatch}
    (hrep : b'.rep = batchRep (m.entries ++ [e])) (hflags : b'.contentFlags = b.contentFlags ||| e.flagBits)
    (hsp : b'.savePoints = b.savePoints) : b'.Abstracts (m.append e) where
  rep_eq := hrep
  contentFlags_eq := by rw [hflags, hR.contentFlags_eq, SavepointLog.entries_append, contentFlagsOf_append]
  savePoints_eq := by rw [hsp, SavepointLog.views_append, hR.savePoints_eq]
  encodable := by
    intro x hx
    rcases List.mem_append.1 hx with hx | hx
    · exact hR.encodable x hx
    · rw [List.mem_singleton.1 hx]
      exact he

/-- a counted mutator that passed its checks: the entry is appended, or over the limit nothing changes -/
theorem WriteBatch.Abstracts.addRecord (hR : b.Abstracts m) (e : BatchEntry) (he : e.Encodable)
    {defaultTag cfTag : ValueType} {cf : UInt32} {slices : List (List UInt8)} {flag : ContentFlags}
    (htag : recordTag defaultTag cfTag cf = e.tag) (hslices : slices = e.slices) (hflag : e.flag? = some flag) :
    (∃ b', b.addRecord defaultTag cfTag cf slices flag = (.ok, b') ∧ b'.Abstracts (m.append e)) ∨
      b.addRecord defaultTag cfTag cf slices flag = (.memoryLimit, b) := by
  have hcount := count_of_rep hR.rep_eq
  have hcounted : e.counted = true := by simp [BatchEntry.counted, hflag]
  have hset := setCount_rep_of_rep hR.rep_eq (b.count + 1)
  -- the batch after the append, before `commit`
  let raw : WriteBatch := ⟨(b.setCount (b.count + 1)).rep ++ recordTag defaultTag cfTag cf ++
    (slices.map putLengthPrefixedSlice).flatten, b.contentFlags ||| flag.bit, b.maxBytes, b.savePoints, b.walTermPoint⟩
  have hraw : raw.rep = batchHeader (b.count + 1) ++ encodeEntries m.entries ++ e.encode := by
    show (b.setCount (b.count + 1)).rep ++ _ ++ _ = _
    rw [hset, htag, hslices, BatchEntry.encode, List.append_assoc]
  have hadd : b.addRecord defaultTag cfTag cf slices flag = raw.commit b.localSavePoint := rfl
  rw [hadd, WriteBatch.commit]
  split_ifs
  · exact Or.inr (Prod.ext rfl (restore_localSavePoint raw hR.rep_eq hraw rfl rfl rfl))
  · refine Or.inl ⟨_, rfl, hR.append_of he ?_ (by simp [raw, BatchEntry.flagBits, hflag]) rfl⟩
    -- the count went up by one, modulo `2 ^ 32` in both
    have hc : batchHeader (b.count + 1) = batchHeader (countOf (m.entries ++ [e])) := by
      rw [← batchHeader_mod (b.count + 1), ← batchHeader_mod (countOf _), countOf_append, if_pos hcounted,
        hcount]
      congr 1
      omega
    rw [hraw, batchRep, encodeEntries_append, encodeEntries_cons, encodeEntries_nil, List.append_nil, hc,
      List.append_assoc]

/-- `PutLogData` of a blob that fits: the entry is appended, uncounted and unflagged, or over the limit nothing
changes -/
theorem WriteBatch.Abstracts.putLogData (hR : b.Abstracts m) {blob : List UInt8} (hblob : blob.length < 2 ^ 32) :
    (∃ b', b.putLogData blob = (.ok, b') ∧ b'.Abstracts (m.append (.logData blob))) ∨
      b.putLogData blob = (.memoryLimit, b) := by
  let raw : WriteBatch :=
    ⟨b.rep ++ [ValueType.kTypeLogData.toUInt8] ++ putLengthPrefixedSlice blob, b.contentFlags, b.maxBytes,
      b.savePoints, b.walTermPoint⟩
  have hraw : raw.rep = batchHeader (countOf m.entries) ++ encodeEntries m.entries ++ (BatchEntry.logData blob).encode := by
    show b.rep ++ _ ++ _ = _
    rw [hR.rep_eq, batchRep]
    simp [BatchEntry.encode, BatchEntry.tag, BatchEntry.slices]
  have hput : b.putLogData blob = raw.commit b.localSavePoint := rfl
  have he : (BatchEntry.logData blob).Encodable := by simpa [BatchEntry.Encodable, BatchEntry.slices] using hblob
  rw [hput, WriteBatch.commit]
  split_ifs
  · exact Or.inr (Prod.ext rfl (restore_localSavePoint raw hR.rep_eq hraw rfl rfl rfl))
  · refine Or.inl ⟨_, rfl, hR.append_of he ?_ (by simp [raw, BatchEntry.flagBits, BatchEntry.flag?]) rfl⟩
    rw [hraw, batchRep, countOf_append, encodeEntries_append, encodeEntries_cons, encodeEntries_nil,
      List.append_nil, List.append_assoc]
    rfl

theorem WriteBatch.Abstracts.setSavePoint (hR : b.Abstracts m) : b.setSavePoint.Abstracts m.setSavePoint where
  rep_eq := hR.rep_eq
  contentFlags_eq := hR.contentFlags_eq
  savePoints_eq := by
    rw [SavepointLog.views_setSavePoint, ← hR.savePoints_eq]
    show ⟨b.getDataSize, b.count, b.contentFlags⟩ :: b.savePoints = _
    rw [savePointOf, WriteBatch.getDataSize, ← hR.rep_eq, count_of_rep hR.rep_eq, ← hR.contentFlags_eq]
  encodable := hR.encodable

theorem WriteBatch.abstracts_clear (b : WriteBatch) : b.clear.Abstracts .empty where
  rep_eq := rfl
  contentFlags_eq := rfl
  savePoints_eq := rfl
  encodable := by simp

theorem WriteBatch.Abstracts.setMaxBytes (hR : b.Abstracts m) (maxBytes : ℕ) : (b.setMaxBytes maxBytes).Abstracts m :=
  ⟨hR.rep_eq, hR.contentFlags_eq, hR.savePoints_eq, hR.encodable⟩

theorem WriteBatch.Abstracts.popSavePoint (hR : b.Abstracts m) :
    (m.savePoints = [] ∧ b.popSavePoint = (.notFound, b)) ∨
      ∃ b', b.popSavePoint = (.ok, b') ∧ b'.Abstracts m.popSavePoint := by
  have hsp := hR.savePoints_eq
  match h : m.savePoints with
  | [] =>
    rw [SavepointLog.views, h, List.map_nil] at hsp
    exact Or.inl ⟨rfl, by rw [WriteBatch.popSavePoint, hsp]⟩
  | n :: rest =>
    refine Or.inr ⟨{ b with savePoints := b.savePoints.tail }, ?_, hR.rep_eq, hR.contentFlags_eq, ?_,
      hR.encodable⟩
    · rw [SavepointLog.views_of_cons m h] at hsp
      rw [WriteBatch.popSavePoint, hsp]
      rfl
    · show b.savePoints.tail = _
      rw [SavepointLog.views_popSavePoint, hR.savePoints_eq]

/-- cutting `rep_` back to the size a savepoint recorded leaves the records before it -/
theorem resize_batchRep_take (c : ℕ) (es : List BatchEntry) (n : ℕ) :
    resize (batchHeader c ++ encodeEntries es) (batchRep (es.take n)).length =
      batchHeader c ++ encodeEntries (es.take n) := by
  have hlen : (batchRep (es.take n)).length = (batchHeader c ++ encodeEntries (es.take n)).length := by
    simp [batchRep]
  rw [resize, hlen, encodeEntries_take es n, ← List.append_assoc, List.take_left]
  simp

/-- a savepoint's size equals the batch's only when no entry came after it -/
theorem take_eq_of_length_batchRep {es : List BatchEntry} {n : ℕ}
    (h : (batchRep (es.take n)).length = (batchRep es).length) : es.take n = es := by
  have hsplit := congrArg List.length (encodeEntries_take es n)
  simp only [batchRep, List.length_append, length_batchHeader] at h hsplit
  have hnil : encodeEntries (es.drop n) = [] := List.eq_nil_of_length_eq_zero (by omega)
  exact (List.take_eq_self_iff _).2 (List.drop_eq_nil_iff.1 (encodeEntries_eq_nil hnil))

theorem WriteBatch.Abstracts.rollbackToSavePoint (hR : b.Abstracts m) :
    (m.savePoints = [] ∧ b.rollbackToSavePoint = (.notFound, b)) ∨
      ∃ b', b.rollbackToSavePoint = (.ok, b') ∧ b'.Abstracts m.rollbackToSavePoint := by
  have hsp := hR.savePoints_eq
  match h : m.savePoints with
  | [] =>
    rw [SavepointLog.views, h, List.map_nil] at hsp
    exact Or.inl ⟨rfl, by rw [WriteBatch.rollbackToSavePoint, hsp]⟩
  | n :: rest =>
    rw [SavepointLog.views_of_cons m h] at hsp
    have hentries := SavepointLog.entries_rollbackToSavePoint m h
    have hviews : m.rollbackToSavePoint.views savePointOf = rest.map fun k => savePointOf (m.entries.take k) := by
      rw [SavepointLog.views_rollbackToSavePoint, SavepointLog.views_of_cons m h]
      rfl
    have hencodable : ∀ e ∈ m.rollbackToSavePoint.entries, e.Encodable := by
      rw [hentries]
      exact fun e he => hR.encodable e (List.mem_of_mem_take he)
    right
    rw [WriteBatch.rollbackToSavePoint, hsp]
    dsimp only
    split_ifs with hsame hzero
    · -- nothing was added since the savepoint: only the stack changes
      have htake : m.entries.take n = m.entries := by
        apply take_eq_of_length_batchRep
        rw [← hR.rep_eq]
        exact hsame
      refine ⟨_, rfl, ?_, ?_, hviews.symm, hencodable⟩
      · rw [hentries, htake]
        exact hR.rep_eq
      · rw [hentries, htake]
        exact hR.contentFlags_eq
    · -- a savepoint covers at least the header
      simp [savePointOf, batchRep, kHeader] at hzero
    · refine ⟨_, rfl, ?_, ?_, hviews.symm, hencodable⟩
      · have hcut := resize_batchRep_take (countOf m.entries) m.entries n
        rw [← batchRep, ← hR.rep_eq] at hcut
        show ({ b with savePoints := _, rep := resize b.rep (savePointOf (m.entries.take n)).size }.setCount
          (savePointOf (m.entries.take n)).count).rep = _
        rw [setCount_rep_of_rep hcut, hentries, savePointOf, batchHeader_mod]
        rfl
      · rw [hentries]
        rfl

end step

/-! ## Every operation -/

section ops

variable {Cols : Type} (serialize : Cols → Except Status (List UInt8))

/-- the slices an operation writes without checking their size fit a `uint32_t` length -/
def WriteBatchOp.Encodable : WriteBatchOp Cols → Prop
  | .delete _ key | .singleDelete _ key | .putLogData key => key.length < 2 ^ 32
  | .deleteRange _ beginKey endKey => beginKey.length < 2 ^ 32 ∧ endKey.length < 2 ^ 32
  | .putBlobIndex _ key value => key.length < 2 ^ 32 ∧ value.length < 2 ^ 32
  | _ => True

/-- the model's operation for a batch operation that returned OK -/
def BatchModel.apply (m : BatchModel) : WriteBatchOp Cols → BatchModel
  | .put cf key value => m.append (.put cf key value)
  | .delete cf key => m.append (.delete cf key)
  | .singleDelete cf key => m.append (.singleDelete cf key)
  | .deleteRange cf beginKey endKey => m.append (.deleteRange cf beginKey endKey)
  | .merge cf key value => m.append (.merge cf key value)
  | .putBlobIndex cf key value => m.append (.putBlobIndex cf key value)
  | .putEntity cf key columns =>
    match serialize columns with
    | .ok entity => m.append (.putEntity cf key entity)
    | .error _ => m
  | .putLogData blob => m.append (.logData blob)
  | .setSavePoint => m.setSavePoint
  | .rollbackToSavePoint => m.rollbackToSavePoint
  | .popSavePoint => m.popSavePoint
  | .clear => .empty
  | .setMaxBytes _ => m

/-- what an operation on `b` may do: return OK with a batch that abstracts `m'`, or an error with `b` unchanged -/
def StepOutcome (b : WriteBatch) (m' : BatchModel) (r : Status × WriteBatch) : Prop :=
  (r.1 = .ok ∧ r.2.Abstracts m') ∨ (r.1 ≠ .ok ∧ r.2 = b)

variable {b : WriteBatch} {m m' : BatchModel}

theorem stepOutcome_of_commit {r : Status × WriteBatch}
    (h : (∃ b', r = (.ok, b') ∧ b'.Abstracts m') ∨ r = (.memoryLimit, b)) : StepOutcome b m' r := by
  rcases h with ⟨b', rfl, hb'⟩ | rfl
  · exact Or.inl ⟨rfl, hb'⟩
  · exact Or.inr ⟨by simp, rfl⟩

theorem stepOutcome_of_ok (h : b'.Abstracts m') : StepOutcome b m' (.ok, b') := Or.inl ⟨rfl, h⟩

theorem stepOutcome_of_error {s : Status} (hs : s ≠ .ok) : StepOutcome b m' (s, b) := Or.inr ⟨hs, rfl⟩

theorem keyValueTooLarge_ne_ok {key value : List UInt8} {s : Status} (h : keyValueTooLarge key value = some s) :
    s ≠ .ok := by
  unfold keyValueTooLarge at h
  split_ifs at h <;> cases h <;> simp

theorem lt_of_keyValueTooLarge {key value : List UInt8} (h : keyValueTooLarge key value = none) :
    key.length < 2 ^ 32 ∧ value.length < 2 ^ 32 := by
  unfold keyValueTooLarge at h
  split_ifs at h with hk hv
  simp only [uint32Max, gt_iff_lt, not_lt] at hk hv
  omega

theorem encodable_single {key : List UInt8} (hk : key.length < 2 ^ 32) : ∀ s ∈ [key], s.length < 2 ^ 32 := by
  intro s hs
  rw [List.mem_singleton.1 hs]
  exact hk

theorem encodable_pair {key value : List UInt8} (hk : key.length < 2 ^ 32) (hv : value.length < 2 ^ 32) :
    ∀ s ∈ [key, value], s.length < 2 ^ 32 := by
  intro s hs
  rcases List.mem_pair.1 hs with rfl | rfl
  · exact hk
  · exact hv

/-- the step lemma: every operation either does what the model does or fails and changes nothing -/
theorem WriteBatch.Abstracts.step (hR : b.Abstracts m) {op : WriteBatchOp Cols} (hop : op.Encodable) :
    StepOutcome b (m.apply serialize op) (b.step serialize op) := by
  cases op with
  | put cf key value =>
    simp only [WriteBatch.step, WriteBatch.put, BatchModel.apply]
    split
    · exact stepOutcome_of_error (keyValueTooLarge_ne_ok ‹_›)
    · obtain ⟨hk, hv⟩ := lt_of_keyValueTooLarge ‹_›
      exact stepOutcome_of_commit (hR.addRecord (.put cf key value) (encodable_pair hk hv) rfl rfl rfl)
  | merge cf key value =>
    simp only [WriteBatch.step, WriteBatch.merge, BatchModel.apply]
    split
    · exact stepOutcome_of_error (keyValueTooLarge_ne_ok ‹_›)
    · obtain ⟨hk, hv⟩ := lt_of_keyValueTooLarge ‹_›
      exact stepOutcome_of_commit (hR.addRecord (.merge cf key value) (encodable_pair hk hv) rfl rfl rfl)
  | delete cf key =>
    exact stepOutcome_of_commit (hR.addRecord (.delete cf key) (encodable_single hop) rfl rfl rfl)
  | singleDelete cf key =>
    exact stepOutcome_of_commit (hR.addRecord (.singleDelete cf key) (encodable_single hop) rfl rfl rfl)
  | deleteRange cf beginKey endKey =>
    exact stepOutcome_of_commit
      (hR.addRecord (.deleteRange cf beginKey endKey) (encodable_pair hop.1 hop.2) rfl rfl rfl)
  | putBlobIndex cf key value =>
    exact stepOutcome_of_commit (hR.addRecord (.putBlobIndex cf key value) (encodable_pair hop.1 hop.2) rfl rfl rfl)
  | putEntity cf key columns =>
    simp only [WriteBatch.step, WriteBatch.putEntity, BatchModel.apply]
    split_ifs with hk
    · exact stepOutcome_of_error (by simp)
    · cases serialize columns with
      | error s =>
        -- a failed serialization: its status, and nothing written
        by_cases hs : s = .ok
        · rw [hs]
          exact stepOutcome_of_ok hR
        · exact stepOutcome_of_error hs
      | ok entity =>
        dsimp only
        split_ifs with he
        · exact stepOutcome_of_error (by simp)
        · simp only [uint32Max, gt_iff_lt, not_lt] at hk he
          exact stepOutcome_of_commit
            (hR.addRecord (.putEntity cf key entity) (encodable_pair (by omega) (by omega)) rfl rfl rfl)
  | putLogData blob => exact stepOutcome_of_commit (hR.putLogData hop)
  | setSavePoint => exact stepOutcome_of_ok hR.setSavePoint
  | rollbackToSavePoint =>
    rcases hR.rollbackToSavePoint with ⟨-, h⟩ | ⟨b', h, hb'⟩
    · simp only [WriteBatch.step, h]
      exact stepOutcome_of_error (by simp)
    · simp only [WriteBatch.step, h]
      exact stepOutcome_of_ok hb'
  | popSavePoint =>
    rcases hR.popSavePoint with ⟨-, h⟩ | ⟨b', h, hb'⟩
    · simp only [WriteBatch.step, h]
      exact stepOutcome_of_error (by simp)
    · simp only [WriteBatch.step, h]
      exact stepOutcome_of_ok hb'
  | clear => exact stepOutcome_of_ok (WriteBatch.abstracts_clear b)
  | setMaxBytes maxBytes => exact stepOutcome_of_ok (hR.setMaxBytes maxBytes)

/-- the batch and its model, one operation at a time: the model takes the operation exactly when the batch
returned OK -/
def simulate (p : WriteBatch × BatchModel) (op : WriteBatchOp Cols) : WriteBatch × BatchModel :=
  let r := p.1.step serialize op
  (r.2, if r.1 = .ok then p.2.apply serialize op else p.2)

/-- the run lemma: from any batch that abstracts its model, every sequence of operations keeps it so -/
theorem WriteBatch.Abstracts.run (ops : List (WriteBatchOp Cols)) (hops : ∀ op ∈ ops, op.Encodable)
    (hR : b.Abstracts m) : (ops.foldl (simulate serialize) (b, m)).1.Abstracts (ops.foldl (simulate serialize) (b, m)).2 := by
  induction ops generalizing b m with
  | nil => exact hR
  | cons op ops ih =>
    apply ih (fun o ho => hops o (List.mem_cons_of_mem op ho))
    rcases hR.step serialize (hops op List.mem_cons_self) with ⟨hok, hb'⟩ | ⟨herr, hb'⟩
    · simpa [simulate, hok] using hb'
    · simpa [simulate, herr, hb'] using hR

end ops

/-! ## Reading the records back -/

section read

theorem readSlice_putLengthPrefixedSlice (msg : String) {s : List UInt8} (hs : s.length < 2 ^ 32)
    (rest : List UInt8) : readSlice msg (putLengthPrefixedSlice s ++ rest) = .ok (s, rest) := by
  rw [readSlice, getLengthPrefixedSlice_putLengthPrefixedSlice hs]

theorem readKeyValue_encode (msg : String) (slots : RecordSlots) (cf : UInt32) {key value : List UInt8}
    (hk : key.length < 2 ^ 32) (hv : value.length < 2 ^ 32) (rest : List UInt8) :
    readKeyValue msg slots cf (putLengthPrefixedSlice key ++ putLengthPrefixedSlice value ++ rest) =
      .ok (cf, { slots with key, value }, rest) := by
  simp only [readKeyValue, bind, Except.bind, List.append_assoc, readSlice_putLengthPrefixedSlice msg hk,
    readSlice_putLengthPrefixedSlice msg hv]
  rfl

theorem readKey_encode (msg : String) (slots : RecordSlots) (cf : UInt32) {key : List UInt8}
    (hk : key.length < 2 ^ 32) (rest : List UInt8) :
    readKey msg slots cf (putLengthPrefixedSlice key ++ rest) = .ok (cf, { slots with key }, rest) := by
  simp only [readKey, bind, Except.bind, readSlice_putLengthPrefixedSlice msg hk]
  rfl

theorem withColumnFamily_putVarint32 (msg : String) (cf : UInt32) (input : List UInt8)
    (k : UInt32 → List UInt8 → Except Status (UInt32 × RecordSlots × List UInt8)) :
    withColumnFamily msg (putVarint32 cf ++ input) k = k cf input := by
  simp only [withColumnFamily, readColumnFamily, getVarint32_putVarint32]
  rfl

/-- a record written with `recordTag`: its reader `rd` runs on the body, after the id outside the default family -/
theorem readRecord_recordTag (defaultTag cfTag : ValueType) (msg : String)
    (rd : RecordSlots → UInt32 → List UInt8 → Except Status (UInt32 × RecordSlots × List UInt8))
    (cf : UInt32) {slots slots' : RecordSlots} {body rest : List UInt8}
    (hdefault : ∀ input, readRecordFromWriteBatch defaultTag.toUInt8 input slots = rd slots 0 input)
    (hcf : ∀ input, readRecordFromWriteBatch cfTag.toUInt8 input slots = withColumnFamily msg input (rd slots))
    (hrd : ∀ c, rd slots c (body ++ rest) = .ok (c, slots', rest)) :
    ∃ t tail, recordTag defaultTag cfTag cf ++ body = t :: tail ∧ (t = defaultTag.toUInt8 ∨ t = cfTag.toUInt8) ∧
      readRecordFromWriteBatch t (tail ++ rest) slots = .ok (cf, slots', rest) := by
  unfold recordTag
  split_ifs with h0
  · refine ⟨_, body, rfl, .inl rfl, ?_⟩
    rw [hdefault, hrd, h0]
  · refine ⟨_, putVarint32 cf ++ body, rfl, .inr rfl, ?_⟩
    rw [hcf, List.append_assoc, withColumnFamily_putVarint32, hrd]

/-- a handler that accepts every call and records it -/
def recordingHandler : Handler (List HandlerCall) where
  call c calls := (.ok, calls ++ [c])
  continue_ _ := true
  writeAfterCommit := .kUnknown
  writeBeforePrepare := .kUnknown

/-- what recording one entry does to the loop's state; `emptyBatch` is as the record's case sets it -/
def recordEntry (e : BatchEntry) (it : IterState (List HandlerCall)) (emptyBatch : Bool) :
    IterState (List HandlerCall) :=
  ⟨it.handler ++ [e.toCall], if e.counted then (it.found + 1) % 2 ^ 32 else it.found, emptyBatch⟩

theorem readBlob_encode (msg : String) (slots : RecordSlots) {blob : List UInt8} (hb : blob.length < 2 ^ 32)
    (rest : List UInt8) :
    readBlob msg slots (putLengthPrefixedSlice blob ++ rest) = .ok (0, { slots with blob }, rest) := by
  simp only [readBlob, bind, Except.bind, readSlice_putLengthPrefixedSlice msg hb]
  rfl

/-- what the switch of `Iterate` does with the record of an entry, for any handler -/
def entryCall {σ : Type} (h : Handler σ) (e : BatchEntry) (it : IterState σ) : Status × IterState σ :=
  match e with
  | .putBlobIndex .. =>
    -- counted, but it leaves `empty_batch` as it was
    let r := h.call e.toCall it.handler
    (r.1, if r.1.isOk then { it with handler := r.2, found := (it.found + 1) % 2 ^ 32 } else { it with handler := r.2 })
  | .logData blob => (.ok, { it with handler := (h.call (.logData blob) it.handler).2, emptyBatch := false })
  | e => countedCall h e.toCall it

/-- a counted entry parses back, given how its two tags are read, and both tags dispatch it as `entryCall` -/
theorem readRecord_counted {e : BatchEntry} {defaultTag cfTag : ValueType} {msg : String}
    {rd : RecordSlots → UInt32 → List UInt8 → Except Status (UInt32 × RecordSlots × List UInt8)}
    {cf : UInt32} {slots slots' : RecordSlots} {rest : List UInt8} (htag : e.tag = recordTag defaultTag cfTag cf)
    (hdefault : ∀ input, readRecordFromWriteBatch defaultTag.toUInt8 input slots = rd slots 0 input)
    (hcf : ∀ input, readRecordFromWriteBatch cfTag.toUInt8 input slots = withColumnFamily msg input (rd slots))
    (hrd : ∀ c, rd slots c ((e.slices.map putLengthPrefixedSlice).flatten ++ rest) = .ok (c, slots', rest))
    (hdispatch : ∀ {σ : Type} (h : Handler σ) it, dispatch h defaultTag.toUInt8 cf slots' it = some (entryCall h e it) ∧
      dispatch h cfTag.toUInt8 cf slots' it = some (entryCall h e it)) :
    ∃ t tail cf slots', e.encode = t :: tail ∧ readRecordFromWriteBatch t (tail ++ rest) slots = .ok (cf, slots', rest) ∧
      ∀ {σ : Type} (h : Handler σ) it, dispatch h t cf slots' it = some (entryCall h e it) := by
  obtain ⟨t, tail, ht, htag', hr⟩ := readRecord_recordTag defaultTag cfTag msg rd cf hdefault hcf hrd
  refine ⟨t, tail, cf, slots', by rw [BatchEntry.encode, htag, ht], hr, fun h it => ?_⟩
  rcases htag' with rfl | rfl
  · exact (hdispatch h it).1
  · exact (hdispatch h it).2

/-- each entry's record parses back to the entry, and the switch of `Iterate` hands it to any handler as
`entryCall` does -/
theorem readRecord_encode (e : BatchEntry) (he : e.Encodable) (rest : List UInt8) (slots : RecordSlots) :
    ∃ t tail cf slots', e.encode = t :: tail ∧ readRecordFromWriteBatch t (tail ++ rest) slots = .ok (cf, slots', rest) ∧
      ∀ {σ : Type} (h : Handler σ) it, dispatch h t cf slots' it = some (entryCall h e it) := by
  have hs : ∀ s ∈ e.slices, s.length < 2 ^ 32 := he
  -- the two slices of a key-value record, or the one of a deletion
  have hkv : ∀ {msg : String} {a c : List UInt8}, e.slices = [a, c] → ∀ cf,
      readKeyValue msg slots cf ((e.slices.map putLengthPrefixedSlice).flatten ++ rest) =
        .ok (cf, { slots with key := a, value := c }, rest) := by
    intro msg a c h cf
    rw [h] at hs ⊢
    simpa [List.append_assoc] using readKeyValue_encode msg slots cf (hs a (by simp)) (hs c (by simp)) rest
  have hk : ∀ {msg : String} {a : List UInt8}, e.slices = [a] → ∀ cf,
      readKey msg slots cf ((e.slices.map putLengthPrefixedSlice).flatten ++ rest) =
        .ok (cf, { slots with key := a }, rest) := by
    intro msg a h cf
    rw [h] at hs ⊢
    simpa using readKey_encode msg slots cf (hs a (by simp)) rest
  cases e with
  | put cf key value =>
    exact readRecord_counted rfl (fun _ => rfl) (fun _ => rfl) (hkv rfl) (fun _ _ => ⟨rfl, rfl⟩)
  | delete cf key =>
    exact readRecord_counted rfl (fun _ => rfl) (fun _ => rfl) (hk rfl) (fun _ _ => ⟨rfl, rfl⟩)
  | singleDelete cf key =>
    exact readRecord_counted rfl (fun _ => rfl) (fun _ => rfl) (hk rfl) (fun _ _ => ⟨rfl, rfl⟩)
  | deleteRange cf beginKey endKey =>
    exact readRecord_counted rfl (fun _ => rfl) (fun _ => rfl) (hkv rfl) (fun _ _ => ⟨rfl, rfl⟩)
  | merge cf key value =>
    exact readRecord_counted rfl (fun _ => rfl) (fun _ => rfl) (hkv rfl) (fun _ _ => ⟨rfl, rfl⟩)
  | putBlobIndex cf key value =>
    exact readRecord_counted rfl (fun _ => rfl) (fun _ => rfl) (hkv rfl) (fun _ _ => ⟨rfl, rfl⟩)
  | putEntity cf key entity =>
    exact readRecord_counted rfl (fun _ => rfl) (fun _ => rfl) (hkv rfl) (fun _ _ => ⟨rfl, rfl⟩)
  | logData blob =>
    -- log data: no column family, the blob slot, and neither counted nor a batch boundary
    refine ⟨ValueType.kTypeLogData.toUInt8, putLengthPrefixedSlice blob, 0, { slots with blob },
      by simp [BatchEntry.encode, BatchEntry.tag, BatchEntry.slices], ?_, fun _ _ => rfl⟩
    exact readBlob_encode "bad WriteBatch Blob" slots (hs blob (by simp [BatchEntry.slices])) rest

/-- the recording handler takes every entry with OK and records it -/
theorem entryCall_recordingHandler (e : BatchEntry) (it : IterState (List HandlerCall)) :
    ∃ eb, entryCall recordingHandler e it = (.ok, recordEntry e it eb) := by
  cases e with
  | putBlobIndex => exact ⟨it.emptyBatch, rfl⟩
  | _ => exact ⟨false, rfl⟩

section entries

variable {σ : Type} (h : Handler σ)

/-- one turn of `Iterate`'s loop on a record that `call` dispatches, with `k` the loop from the next record on: a
`TryAgain` runs the record once more after `Continue()`, and a second one in a row is a corruption -/
def recordTurn (call : IterState σ → Status × IterState σ) (k : IterState σ → IterResult σ) (it : IterState σ) :
    IterResult σ :=
  if !h.continue_ it.handler then ⟨.ok, false, it⟩
  else
    let r := call it
    if r.1.isTryAgain then
      if !h.continue_ r.2.handler then ⟨r.1, false, r.2⟩
      else
        let r' := call r.2
        if r'.1.isTryAgain then
          if !h.continue_ r'.2.handler then ⟨r'.1, false, r'.2⟩ else ⟨.corruption twoTryAgainMessage, true, r'.2⟩
        else if r'.1.isOk then k r'.2
        else ⟨r'.1, true, r'.2⟩
    else if r.1.isOk then k r.2
    else ⟨r.1, true, r.2⟩

/-- `Iterate`'s loop over the records of a list of entries, read back as the entries -/
def entriesLoop : List BatchEntry → IterState σ → IterResult σ
  | [], it => ⟨.ok, true, it⟩
  | e :: es, it => recordTurn h (entryCall h e) (entriesLoop es) it

/-- one turn of the byte loop on a record that reads back and dispatches as `call` -/
theorem iterateLoop_cons_of_read {tag : UInt8} {input rest : List UInt8} {slots slots' : RecordSlots} {cf : UInt32}
    {call : IterState σ → Status × IterState σ} (hr : readRecordFromWriteBatch tag input slots = .ok (cf, slots', rest))
    (hd : ∀ it, dispatch h tag cf slots' it = some (call it)) (it : IterState σ) :
    iterateLoop h (tag :: input) slots it = recordTurn h call (iterateLoop h rest slots') it := by
  rw [iterateLoop]
  unfold recordTurn
  by_cases hc : h.continue_ it.handler = true
  · simp only [hc, Bool.not_true, Bool.false_eq_true, if_false]
    split
    · rename_i s hs
      rw [hr] at hs
      cases hs
    · rename_i cf₁ slots₁ rest₁ hs
      rw [hr] at hs
      cases hs
      simp only [hd]
  · simp [hc]

/-- the loop over the bytes of `es` is the loop over the entries -/
theorem iterateLoop_encodeEntries_eq (es : List BatchEntry) (hes : ∀ e ∈ es, e.Encodable) (slots : RecordSlots)
    (it : IterState σ) : iterateLoop h (encodeEntries es) slots it = entriesLoop h es it := by
  induction es generalizing slots it with
  | nil => rw [encodeEntries_nil, iterateLoop, entriesLoop]
  | cons e es ih =>
    obtain ⟨t, tail, cf, slots', hte, hr, hd⟩ := readRecord_encode e (hes e List.mem_cons_self) (encodeEntries es) slots
    have hrest : iterateLoop h (encodeEntries es) slots' = entriesLoop h es :=
      funext fun it => ih (fun x hx => hes x (List.mem_cons_of_mem e hx)) slots' it
    rw [encodeEntries_cons, hte, List.cons_append, iterateLoop_cons_of_read h hr (hd h), hrest, entriesLoop]

/-- the handler's state after an entry's record is the one its call leaves -/
theorem entryCall_handler (e : BatchEntry) (it : IterState σ) :
    (entryCall h e it).2.handler = (h.call e.toCall it.handler).2 := by
  cases e <;> simp [entryCall, countedCall, apply_ite IterState.handler, BatchEntry.toCall]

/-- the status of a counted entry's record is its call's; log data answers nothing -/
theorem entryCall_status (e : BatchEntry) (it : IterState σ) :
    (entryCall h e it).1 = if e.counted then (h.call e.toCall it.handler).1 else .ok := by
  cases e <;> rfl

/-- `found` counts a counted record its call answers OK -/
theorem found_entryCall (e : BatchEntry) (it : IterState σ) :
    (entryCall h e it).2.found =
      if (entryCall h e it).1.isOk then (if e.counted then (it.found + 1) % 2 ^ 32 else it.found) else it.found := by
  cases e <;> simp only [entryCall, countedCall, BatchEntry.counted, BatchEntry.flag?] <;> split_ifs <;> simp_all

/-- how a turn of the loop passes on to the next record: the record's call answers OK, or `TryAgain` and then OK -/
inductive TurnOk (call : IterState σ → Status × IterState σ) (it : IterState σ) : IterState σ → Prop
  | first {it' : IterState σ} : call it = (.ok, it') → TurnOk call it it'
  | retried {s : Status} {mid it' : IterState σ} :
      call it = (s, mid) → s.isTryAgain = true → call mid = (.ok, it') → TurnOk call it it'

/-- a quantity of the loop's state that a call moves by `f` when it answers OK, and leaves otherwise, moves by `f` over
a turn that passes -/
theorem TurnOk.map {call : IterState σ → Status × IterState σ} {α : Type} (g : IterState σ → α) (f : α → α)
    (hcall : ∀ it, g (call it).2 = if (call it).1.isOk then f (g it) else g it) {it it' : IterState σ}
    (hturn : TurnOk call it it') : g it' = f (g it) := by
  cases hturn with
  | first hfirst => simpa [hfirst] using hcall it
  | @retried s mid _ hfirst hs hsecond =>
    -- the `TryAgain` left the quantity where it was
    have hmid : g mid = g it := by
      simpa [hfirst, Status.isOk_eq_false_of_isTryAgain hs] using hcall it
    rw [← hmid]
    simpa [hsecond] using hcall mid

/-- for a handler that always continues, a turn passes on to the rest of the loop, or ends it with a status that is
not OK whatever the rest is -/
theorem recordTurn_cases (hc : ∀ x, h.continue_ x = true) (call : IterState σ → Status × IterState σ)
    (it : IterState σ) :
    (∃ it', TurnOk call it it' ∧ ∀ k, recordTurn h call k it = k it') ∨
      ∃ r : IterResult σ, r.status.isOk = false ∧ ∀ k, recordTurn h call k it = r := by
  rcases hfirst : call it with ⟨s, mid⟩
  by_cases hs : s.isTryAgain = true
  · rcases hsecond : call mid with ⟨s', it'⟩
    by_cases hs' : s'.isTryAgain = true
    · -- a second `TryAgain` in a row
      exact .inr ⟨⟨.corruption twoTryAgainMessage, true, it'⟩, rfl,
        fun k => by simp [recordTurn, hc, hfirst, hsecond, hs, hs']⟩
    · by_cases hok : s'.isOk = true
      · obtain rfl : s' = .ok := (Status.isOk_iff s').mp hok
        exact .inl ⟨it', .retried hfirst hs hsecond, fun k => by simp [recordTurn, hc, hfirst, hsecond, hs]⟩
      · exact .inr ⟨⟨s', true, it'⟩, Bool.eq_false_iff.mpr hok,
          fun k => by simp [recordTurn, hc, hfirst, hsecond, hs, hs', hok]⟩
  · by_cases hok : s.isOk = true
    · obtain rfl : s = .ok := (Status.isOk_iff s).mp hok
      exact .inl ⟨mid, .first hfirst, fun k => by simp [recordTurn, hc, hfirst]⟩
    · exact .inr ⟨⟨s, true, mid⟩, Bool.eq_false_iff.mpr hok, fun k => by simp [recordTurn, hc, hfirst, hs, hok]⟩

/-- the loop over `pre ++ post` runs `pre`, and from where `pre` ends OK runs `post` -/
theorem entriesLoop_append (hc : ∀ x, h.continue_ x = true) (pre post : List BatchEntry) (it : IterState σ) :
    entriesLoop h (pre ++ post) it =
      if (entriesLoop h pre it).status.isOk then entriesLoop h post (entriesLoop h pre it).state
      else entriesLoop h pre it := by
  induction pre generalizing it with
  | nil => simp [entriesLoop]
  | cons e pre ih =>
    rw [List.cons_append, entriesLoop, entriesLoop]
    rcases recordTurn_cases h hc (entryCall h e) it with ⟨it', -, hk⟩ | ⟨r, hr, hk⟩
    · rw [hk, hk, ih]
    · rw [hk, hk, hr]
      rfl

/-- the entries a loop hands over one by one, each turn passing on -/
inductive TurnsOk : List BatchEntry → IterState σ → IterState σ → Prop
  | nil (it : IterState σ) : TurnsOk [] it it
  | cons {e : BatchEntry} {es : List BatchEntry} {it mid it' : IterState σ} :
      TurnOk (entryCall h e) it mid → TurnsOk es mid it' → TurnsOk (e :: es) it it'

/-- a loop that ends OK passes every turn -/
theorem turnsOk_of_entriesLoop (hc : ∀ x, h.continue_ x = true) (es : List BatchEntry) (it : IterState σ)
    (hok : (entriesLoop h es it).status.isOk = true) : TurnsOk h es it (entriesLoop h es it).state := by
  induction es generalizing it with
  | nil => exact .nil it
  | cons e es ih =>
    rw [entriesLoop] at hok ⊢
    rcases recordTurn_cases h hc (entryCall h e) it with ⟨mid, hturn, hk⟩ | ⟨r, hr, hk⟩
    · rw [hk] at hok ⊢
      exact .cons hturn (ih mid hok)
    · rw [hk, hr] at hok
      cases hok

/-- a quantity that each entry's OK call moves by `f e` moves by all of them, in order, over the turns -/
theorem TurnsOk.map {α : Type} (g : IterState σ → α) (f : BatchEntry → α → α)
    (hcall : ∀ e it, g (entryCall h e it).2 = if (entryCall h e it).1.isOk then f e (g it) else g it)
    {es : List BatchEntry} {it it' : IterState σ} (hturns : TurnsOk h es it it') :
    g it' = es.foldl (fun a e => f e a) (g it) := by
  induction hturns with
  | nil => rfl
  | cons hturn _ ih =>
    rw [ih, List.foldl_cons, TurnOk.map g _ (hcall _) hturn]

theorem foldl_found (es : List BatchEntry) {n : ℕ} (hn : n < 2 ^ 32) :
    es.foldl (fun a e => if e.counted then (a + 1) % 2 ^ 32 else a) n = (n + countOf es) % 2 ^ 32 := by
  induction es generalizing n with
  | nil => rw [List.foldl_nil, countOf, List.countP_nil, Nat.add_zero, Nat.mod_eq_of_lt hn]
  | cons e es ih =>
    rw [List.foldl_cons]
    by_cases he : e.counted = true
    · rw [if_pos he, ih (Nat.mod_lt _ (by norm_num)), countOf, countOf, List.countP_cons_of_pos he]
      omega
    · rw [if_neg he, ih hn, countOf, countOf, List.countP_cons_of_neg he]

/-- over the turns of a loop `found` counts the counted entries -/
theorem TurnsOk.found {es : List BatchEntry} {it it' : IterState σ} (hturns : TurnsOk h es it it')
    (hfound : it.found < 2 ^ 32) : it'.found = (it.found + countOf es) % 2 ^ 32 := by
  rw [TurnsOk.map h IterState.found (fun e n => if e.counted then (n + 1) % 2 ^ 32 else n) (found_entryCall h) hturns,
    foldl_found es hfound]

end entries

/-- the loop over the records of `es` reports every entry in order and counts the counted ones -/
theorem iterateLoop_encodeEntries (es : List BatchEntry) (hes : ∀ e ∈ es, e.Encodable) (slots : RecordSlots)
    (it : IterState (List HandlerCall)) (hfound : it.found < 2 ^ 32) :
    ∃ it', iterateLoop recordingHandler (encodeEntries es) slots it = ⟨.ok, true, it'⟩ ∧
      it'.handler = it.handler ++ es.map BatchEntry.toCall ∧ it'.found = (it.found + countOf es) % 2 ^ 32 := by
  rw [iterateLoop_encodeEntries_eq recordingHandler es hes]
  induction es generalizing it with
  | nil =>
    refine ⟨it, rfl, by simp, ?_⟩
    rw [countOf, List.countP_nil, Nat.add_zero, Nat.mod_eq_of_lt hfound]
  | cons e es ih =>
    obtain ⟨eb, hcall⟩ := entryCall_recordingHandler e it
    have hfound' : (recordEntry e it eb).found < 2 ^ 32 := by
      unfold recordEntry
      split_ifs
      · exact Nat.mod_lt _ (by norm_num)
      · exact hfound
    obtain ⟨it', hloop, hcalls, hcount⟩ := ih (fun x hx => hes x (List.mem_cons_of_mem e hx)) (recordEntry e it eb) hfound'
    refine ⟨it', ?_, ?_, ?_⟩
    · -- the recording handler continues and answers OK, so the turn goes on to the next entry
      rw [entriesLoop, recordTurn, hcall]
      exact hloop
    · rw [hcalls]
      simp [recordEntry]
    · rw [hcount]
      simp only [recordEntry, countOf, List.countP_cons]
      split_ifs <;> omega

variable {b : WriteBatch} {m : BatchModel}

/-- `Iterate` over a batch whose body is the records of `es` reports them all, then checks the count the header
holds against the records it counted -/
theorem iterate_of_rep {c : ℕ} {es : List BatchEntry} (hrep : b.rep = batchHeader c ++ encodeEntries es)
    (hes : ∀ e ∈ es, e.Encodable) :
    b.iterate recordingHandler [] =
      if countOf es % 2 ^ 32 = c % 2 ^ 32 then (.ok, es.map BatchEntry.toCall)
      else (.corruption "WriteBatch has wrong count", es.map BatchEntry.toCall) := by
  have hlen : kHeader ≤ b.rep.length := by
    rw [hrep, List.length_append, length_batchHeader]
    omega
  have hinput : (b.rep.drop kHeader).take (b.rep.length - kHeader) = encodeEntries es := by
    rw [List.take_of_length_le (by simp), hrep, List.drop_left' (length_batchHeader _)]
  obtain ⟨it', hloop, hcalls, hcount⟩ := iterateLoop_encodeEntries es hes .empty ⟨[], 0, true⟩ (by norm_num)
  rw [Nat.zero_add] at hcount
  unfold WriteBatch.iterate WriteBatch.iterateRange
  rw [if_neg (by omega), if_neg (by omega)]
  simp only [hinput, hloop, hcount, hcalls, count_of_rep hrep]
  split_ifs <;> simp_all [Status.isOk]

/-- `Iterate` with a recording handler returns OK and reports the model's entries in order -/
theorem WriteBatch.Abstracts.iterate (hR : b.Abstracts m) :
    b.iterate recordingHandler [] = (.ok, m.entries.map BatchEntry.toCall) := by
  rw [iterate_of_rep hR.rep_eq hR.encodable, if_pos rfl]

theorem WriteBatch.Abstracts.count (hR : b.Abstracts m) : b.count = countOf m.entries % 2 ^ 32 :=
  count_of_rep hR.rep_eq

/-- `Iterate` reads of `rep_` only its length, the count and the records: not the sequence number -/
theorem WriteBatch.iterate_congr {σ : Type} (h : Handler σ) {b b' : WriteBatch} (hlen : b'.rep.length = b.rep.length)
    (hdrop : b'.rep.drop 8 = b.rep.drop 8) (st : σ) : b'.iterate h st = b.iterate h st := by
  have hbody : b'.rep.drop kHeader = b.rep.drop kHeader := by
    rw [kHeader, show 12 = 8 + 4 from rfl, ← List.drop_drop, hdrop, List.drop_drop]
  have hcount : b'.count = b.count := by
    rw [WriteBatch.count, WriteBatch.count, hdrop]
  simp only [WriteBatch.iterate, WriteBatch.iterateRange, hlen, hbody, hcount]

/-- so `SetSequence` does not change what `Iterate` reports -/
theorem WriteBatch.iterate_setSequence {σ : Type} (h : Handler σ) (hb : 8 ≤ b.rep.length) (seq : ℕ) (st : σ) :
    (b.setSequence seq).iterate h st = b.iterate h st := by
  apply WriteBatch.iterate_congr
  · rw [WriteBatch.setSequence, List.length_append, length_encodeFixed64, List.length_drop]
    omega
  · rw [WriteBatch.setSequence, List.drop_left' (length_encodeFixed64 seq)]

/-- `Iterate` over the batch holding `es`, with a handler that always continues, is the loop over the entries: a loop
that ends OK has counted every counted record, so the count check passes -/
theorem iterate_batchRep {σ : Type} (h : Handler σ) (hc : ∀ x, h.continue_ x = true) {es : List BatchEntry}
    (hrep : b.rep = batchRep es) (hes : ∀ e ∈ es, e.Encodable) (st : σ) :
    b.iterate h st = ((entriesLoop h es ⟨st, 0, true⟩).status, (entriesLoop h es ⟨st, 0, true⟩).state.handler) := by
  have hrep' : b.rep = batchHeader (countOf es) ++ encodeEntries es := hrep
  have hlen : kHeader ≤ b.rep.length := by
    rw [hrep', List.length_append, length_batchHeader]
    omega
  have hinput : (b.rep.drop kHeader).take (b.rep.length - kHeader) = encodeEntries es := by
    rw [List.take_of_length_le (by simp), hrep', List.drop_left' (length_batchHeader _)]
  unfold WriteBatch.iterate WriteBatch.iterateRange
  rw [if_neg (by omega), if_neg (by omega)]
  simp only [hinput, iterateLoop_encodeEntries_eq h es hes, count_of_rep hrep']
  by_cases hok : (entriesLoop h es ⟨st, 0, true⟩).status.isOk = true
  · have hfound := (turnsOk_of_entriesLoop h hc es _ hok).found h (by norm_num)
    simp [hfound, (Status.isOk_iff _).mp hok]
  · simp [hok]

end read

/-! ## Content flags -/

section flags

/-- the flag at a bit position -/
def ContentFlags.ofShift? : ℕ → Option ContentFlags
  | 1 => some .hasPut
  | 2 => some .hasDelete
  | 3 => some .hasSingleDelete
  | 4 => some .hasMerge
  | 5 => some .hasBeginPrepare
  | 6 => some .hasEndPrepare
  | 7 => some .hasCommit
  | 8 => some .hasRollback
  | 9 => some .hasDeleteRange
  | 10 => some .hasBlobIndex
  | 11 => some .hasBeginUnprepare
  | 12 => some .hasPutEntity
  | _ => none

theorem ContentFlags.ofShift?_shift (f : ContentFlags) : ContentFlags.ofShift? f.shift = some f := by
  cases f <;> rfl

theorem ContentFlags.shift_inj {f g : ContentFlags} (h : f.shift = g.shift) : f = g := by
  have := congrArg ContentFlags.ofShift? h
  rwa [ContentFlags.ofShift?_shift, ContentFlags.ofShift?_shift, Option.some.injEq] at this

/-- no kind uses bit 0, `DEFERRED` -/
theorem ContentFlags.shift_pos (f : ContentFlags) : 0 < f.shift := by
  cases f <;> decide

theorem BatchEntry.testBit_flagBits (e : BatchEntry) (i : ℕ) :
    e.flagBits.testBit i = true ↔ ∃ f, e.flag? = some f ∧ f.shift = i := by
  unfold BatchEntry.flagBits
  split
  · rename_i f hf
    rw [ContentFlags.bit, Nat.one_shiftLeft, Nat.testBit_two_pow, decide_eq_true_iff]
    constructor
    · intro h
      exact ⟨f, hf, h⟩
    · rintro ⟨g, hg, rfl⟩
      rw [hf, Option.some.injEq] at hg
      rw [hg]
  · rename_i hf
    simp [hf]

/-- a bit of the accumulated flags is set exactly when it was set before or an entry's flag sets it -/
theorem testBit_foldl_flagBits (es : List BatchEntry) (acc i : ℕ) :
    (es.foldl (fun flags e => flags ||| e.flagBits) acc).testBit i = true ↔
      acc.testBit i = true ∨ ∃ e ∈ es, ∃ f, e.flag? = some f ∧ f.shift = i := by
  induction es generalizing acc with
  | nil => simp
  | cons e es ih =>
    rw [List.foldl_cons, ih, Nat.testBit_or, Bool.or_eq_true, BatchEntry.testBit_flagBits]
    constructor
    · rintro ((h | h) | ⟨x, hx, hxf⟩)
      · exact .inl h
      · exact .inr ⟨e, List.mem_cons_self, h⟩
      · exact .inr ⟨x, List.mem_cons_of_mem e hx, hxf⟩
    · rintro (h | ⟨x, hx, hxf⟩)
      · exact .inl (.inl h)
      · rcases List.mem_cons.1 hx with rfl | hx
        · exact .inl (.inr hxf)
        · exact .inr ⟨x, hx, hxf⟩

theorem testBit_contentFlagsOf (es : List BatchEntry) (i : ℕ) :
    (contentFlagsOf es).testBit i = true ↔ ∃ e ∈ es, ∃ f, e.flag? = some f ∧ f.shift = i := by
  rw [contentFlagsOf, testBit_foldl_flagBits]
  simp

variable {b : WriteBatch} {m : BatchModel}

/-- a batch the mutators built is never deferred: `ComputeContentFlags` returns the stored flags -/
theorem WriteBatch.Abstracts.computeContentFlags (hR : b.Abstracts m) : b.computeContentFlags = b.contentFlags := by
  have hbit : b.contentFlags.testBit 0 = false := by
    rw [hR.contentFlags_eq, Bool.eq_false_iff, ne_eq, testBit_contentFlagsOf]
    rintro ⟨e, -, f, -, hf⟩
    exact absurd hf (ContentFlags.shift_pos f).ne'
  have hand : b.contentFlags &&& ContentFlags.deferred = 0 := by
    rw [ContentFlags.deferred, Nat.one_shiftLeft, Nat.and_two_pow, hbit]
    rfl
  rw [WriteBatch.computeContentFlags, if_neg (not_not.2 hand)]

/-- each `Has*` query holds exactly when the model holds an entry of its kind -/
theorem WriteBatch.Abstracts.hasContent (hR : b.Abstracts m) (flag : ContentFlags) :
    b.hasContent flag = true ↔ ∃ e ∈ m.entries, e.flag? = some flag := by
  rw [WriteBatch.hasContent, hR.computeContentFlags, ContentFlags.bit, Nat.one_shiftLeft, Nat.and_two_pow,
    decide_eq_true_iff, ne_eq, Nat.mul_eq_zero, not_or, Bool.toNat_eq_zero, Bool.not_eq_false,
    hR.contentFlags_eq, testBit_contentFlagsOf]
  constructor
  · rintro ⟨⟨e, he, f, hf, hs⟩, -⟩
    exact ⟨e, he, ContentFlags.shift_inj hs ▸ hf⟩
  · rintro ⟨e, he, hf⟩
    exact ⟨⟨e, he, flag, hf, rfl⟩, by positivity⟩

end flags

/-! ## Every run -/

section run

variable {Cols : Type} (serialize : Cols → Except Status (List UInt8))

/-- After any sequence of operations whose unchecked slices fit, under any `max_bytes`, the batch is its model
written out: `Iterate` reports the model's entries, `Count()` counts those that are not log data (modulo `2 ^ 32`),
each `Has*` query is the presence of its kind, `rep_` is the model's bytes, and an operation that fails from there
changes nothing. -/
theorem writeBatch_refines_model (maxBytes : ℕ) (ops : List (WriteBatchOp Cols))
    (hops : ∀ op ∈ ops, op.Encodable) :
    let p := ops.foldl (simulate serialize) (WriteBatch.create maxBytes, .empty)
    p.1.iterate recordingHandler [] = (.ok, p.2.entries.map BatchEntry.toCall) ∧
      p.1.count = countOf p.2.entries % 2 ^ 32 ∧
      (∀ flag, p.1.hasContent flag = true ↔ ∃ e ∈ p.2.entries, e.flag? = some flag) ∧
      p.1.rep = batchRep p.2.entries ∧
      ∀ op : WriteBatchOp Cols, op.Encodable → (p.1.step serialize op).1 ≠ .ok → (p.1.step serialize op).2 = p.1 := by
  intro p
  have hR : p.1.Abstracts p.2 := WriteBatch.Abstracts.run serialize ops hops (abstracts_create maxBytes)
  refine ⟨hR.iterate, hR.count, hR.hasContent, hR.rep_eq, fun op hop hfail => ?_⟩
  rcases hR.step serialize hop with ⟨hok, -⟩ | ⟨-, hsame⟩
  · exact absurd hok hfail
  · exact hsame

end run

/-- a put, a savepoint, a deletion in column family 3 and a rollback, under a 20-byte limit -/
theorem writeBatch_refines_model_rollback :
    (∀ op ∈ [WriteBatchOp.put 0 [1] [2], .setSavePoint, .delete 3 [4], .rollbackToSavePoint],
        (op : WriteBatchOp Unit).Encodable) ∧
      let p := [WriteBatchOp.put 0 [1] [2], .setSavePoint, .delete 3 [4], .rollbackToSavePoint].foldl
        (simulate fun (_ : Unit) => .ok []) (WriteBatch.create 20, .empty)
      p.1.iterate recordingHandler [] = (.ok, p.2.entries.map BatchEntry.toCall) ∧
        p.1.count = countOf p.2.entries % 2 ^ 32 ∧
        (∀ flag, p.1.hasContent flag = true ↔ ∃ e ∈ p.2.entries, e.flag? = some flag) ∧
        p.1.rep = batchRep p.2.entries ∧
        ∀ op : WriteBatchOp Unit, op.Encodable → (p.1.step (fun _ => .ok []) op).1 ≠ .ok →
          (p.1.step (fun _ => .ok []) op).2 = p.1 :=
  have hops : ∀ op ∈ [WriteBatchOp.put 0 [1] [2], .setSavePoint, .delete 3 [4], .rollbackToSavePoint],
      (op : WriteBatchOp Unit).Encodable := by
    intro op hop
    simp only [List.mem_cons, List.not_mem_nil, or_false] at hop
    rcases hop with rfl | rfl | rfl | rfl <;> simp [WriteBatchOp.Encodable]
  ⟨hops, writeBatch_refines_model (fun (_ : Unit) => .ok []) 20 _ hops⟩

/-! ## A key whose length prefix wraps -/

/-- the records of `n` deletions of the empty key in the default family are `2 * n` zero bytes -/
theorem encodeEntries_replicate_delete_nil (n : ℕ) :
    encodeEntries (List.replicate n (BatchEntry.delete 0 [])) = List.replicate (2 * n) 0 := by
  induction n with
  | zero => rfl
  | succ n ih =>
    rw [List.replicate_succ, encodeEntries_cons, ih, show 2 * (n + 1) = 2 * n + 1 + 1 by ring,
      List.replicate_succ, List.replicate_succ]
    rfl

/-- a slice whose length is a multiple of `2 ^ 32` is prefixed by the varint of 0 -/
theorem putLengthPrefixedSlice_of_wrap {value : List UInt8} (h : UInt32.ofNat value.length = 0) :
    putLengthPrefixedSlice value = 0 :: value := by
  rw [putLengthPrefixedSlice, h]
  rfl

/-- deleting `2 * M` zero bytes in the default family of a fresh batch, when that length wraps: the record the batch
holds is the one of `M + 1` deletions of the empty key, under a header that counts one -/
theorem delete_replicate_of_wrap (M : ℕ) (hM : UInt32.ofNat (2 * M) = 0) :
    (WriteBatch.create 0).delete 0 (List.replicate (2 * M) 0) =
      (.ok, ⟨batchHeader 1 ++ encodeEntries (List.replicate (M + 1) (.delete 0 [])),
        ContentFlags.hasDelete.bit, 0, [], ⟨0, 0, 0⟩⟩) := by
  have hcreate : (WriteBatch.create 0).rep = batchHeader 0 ++ [] := rfl
  have hprefix : putLengthPrefixedSlice (List.replicate (2 * M) (0 : UInt8)) = 0 :: List.replicate (2 * M) 0 :=
    putLengthPrefixedSlice_of_wrap (by rw [List.length_replicate]; exact hM)
  rw [WriteBatch.delete, WriteBatch.addRecord]
  rw [WriteBatch.commit, if_neg (by simp [WriteBatch.create, WriteBatch.setCount])]
  refine Prod.ext rfl (WriteBatch.ext ?_ ?_ rfl rfl rfl)
  · -- the tag byte and the zero prefix are the first empty deletion, the key's bytes the other `M`
    show ((WriteBatch.create 0).setCount ((WriteBatch.create 0).count + 1)).rep ++
        recordTag .kTypeDeletion .kTypeColumnFamilyDeletion 0 ++
          ([List.replicate (2 * M) 0].map putLengthPrefixedSlice).flatten = _
    rw [setCount_rep_of_rep hcreate, count_of_rep hcreate, List.map_cons, List.map_nil, List.flatten_cons,
      List.flatten_nil, List.append_nil, List.append_nil, hprefix, encodeEntries_replicate_delete_nil,
      show 2 * (M + 1) = 2 * M + 1 + 1 by ring, List.replicate_succ, List.replicate_succ, recordTag, if_pos rfl,
      List.append_assoc, List.singleton_append]
    rfl
  · show (WriteBatch.create 0).contentFlags ||| ContentFlags.hasDelete.bit = ContentFlags.hasDelete.bit
    exact Nat.zero_or _

theorem countOf_replicate_delete_nil (n : ℕ) : countOf (List.replicate n (BatchEntry.delete 0 [])) = n := by
  have hcounted : (BatchEntry.delete 0 []).counted = true := rfl
  rw [countOf, List.countP_replicate, if_pos hcounted]

/-- what `Iterate` makes of that batch: `M + 1` empty deletions, against a count of one -/
theorem iterate_delete_replicate_of_wrap (M : ℕ) (hM : UInt32.ofNat (2 * M) = 0) :
    ((WriteBatch.create 0).delete 0 (List.replicate (2 * M) 0)).2.iterate recordingHandler [] =
      if (M + 1) % 2 ^ 32 = 1 then (.ok, List.replicate (M + 1) (.deleteCF 0 []))
      else (.corruption "WriteBatch has wrong count", List.replicate (M + 1) (.deleteCF 0 [])) := by
  have hes : ∀ e ∈ List.replicate (M + 1) (BatchEntry.delete 0 []), e.Encodable := by
    intro e he
    rw [List.eq_of_mem_replicate he]
    exact encodable_single (by norm_num)
  rw [delete_replicate_of_wrap M hM, iterate_of_rep rfl hes, countOf_replicate_delete_nil, List.map_replicate,
    show (BatchEntry.delete 0 []).toCall = .deleteCF 0 [] from rfl, show 1 % 2 ^ 32 = 1 by norm_num]

/-- `Delete` does not refuse a key of `2 ^ 32` bytes, and `PutLengthPrefixedSlice` writes that length as 0: the
key's bytes then read as `2 ^ 31` further deletions of the empty key, and `Iterate` fails the count check -/
theorem delete_of_oversized_key_miscounts :
    ((WriteBatch.create 0).delete 0 (List.replicate (2 ^ 32) 0)).1 = .ok ∧
      ((WriteBatch.create 0).delete 0 (List.replicate (2 ^ 32) 0)).2.iterate recordingHandler [] =
        (.corruption "WriteBatch has wrong count", List.replicate (2 ^ 31 + 1) (.deleteCF 0 [])) := by
  have hwrap : UInt32.ofNat (2 * 2 ^ 31) = 0 := by decide
  rw [show (2 : ℕ) ^ 32 = 2 * 2 ^ 31 by norm_num, iterate_delete_replicate_of_wrap _ hwrap,
    if_neg (by norm_num), delete_replicate_of_wrap _ hwrap]
  exact ⟨rfl, rfl⟩

end ForSt
