import ForSt.Db.WriteBatchSpec
/-!
`WriteBatchInternal::Append` is the concatenation of the models.

`Append` copies bytes past the source's header and adds its count and flags into the destination's, without
re-encoding a record. On two batches that abstract their models it leaves the destination abstracting its model with
the source's entries appended (`WriteBatch.Abstracts.append_whole`), so `Iterate` reports the old entries and then
the new ones, the count is the sum of the two modulo `2 ^ 32`, and the flags are the union. With `wal_only` and a WAL
termination point marked after the entries `pre` of the source, it copies just the records of `pre`, with the count
and flags saved at the mark (`WriteBatch.Abstracts.append_marked`). `MarkWalTerminationPoint` saves exactly that
point (`WriteBatch.Abstracts.walTermPoint_mark`), and an operation that appends an entry leaves it in place.

The batches' `prot_info_` decides the status: a protection info whose size is not its batch's count is a corruption
that appends nothing (`WriteBatchInternal.append_of_not_aligned`), and otherwise the protection entries of the records
copied follow the destination's, one per record (`append_homomorphism`).
-/

namespace ForSt

open ForSt.Coding

/-! ## Runs of entries -/

theorem countOf_append_entries (es fs : List BatchEntry) : countOf (es ++ fs) = countOf es + countOf fs := by
  simp [countOf, List.countP_append]

/-- or-ing the flags of entries into a word: the word, or the flags the entries have -/
theorem foldl_flagBits (fs : List BatchEntry) (a : ℕ) :
    fs.foldl (fun flags e => flags ||| e.flagBits) a = a ||| contentFlagsOf fs := by
  induction fs generalizing a with
  | nil => simp [contentFlagsOf]
  | cons e fs ih =>
    rw [contentFlagsOf, List.foldl_cons, List.foldl_cons, ih, ih, Nat.zero_or, Nat.or_assoc]

theorem contentFlagsOf_append_entries (es fs : List BatchEntry) :
    contentFlagsOf (es ++ fs) = contentFlagsOf es ||| contentFlagsOf fs := by
  rw [contentFlagsOf, List.foldl_append, foldl_flagBits]
  rfl

/-- a savepoint of a batch is never the cleared one: its size counts the header -/
theorem isCleared_savePointOf (es : List BatchEntry) : (savePointOf es).isCleared = false := by
  have hsize : (savePointOf es).size ≠ 0 := by
    simp [savePointOf, batchRep, kHeader]
  simp only [SavePoint.isCleared, decide_eq_false_iff_not, Nat.or_eq_zero_iff]
  exact fun h => hsize h.1.1

/-! ## Appending records -/

section append

variable {dst src : WriteBatch} {md ms : BatchModel}

/-- the destination after `Append` has copied the records of `fs` and added a count and flags that agree with them -/
theorem WriteBatch.Abstracts.append_entries (hd : dst.Abstracts md) {fs : List BatchEntry}
    (hfs : ∀ e ∈ fs, e.Encodable) (srcCount srcFlags : ℕ) (hcount : srcCount % 2 ^ 32 = countOf fs % 2 ^ 32)
    (hflags : srcFlags = contentFlagsOf fs) :
    ({ dst.setCount (dst.count + srcCount) with
        rep := (dst.setCount (dst.count + srcCount)).rep ++ encodeEntries fs,
        contentFlags := dst.contentFlags ||| srcFlags } : WriteBatch).Abstracts (md.appendAll fs) where
  rep_eq := by
    -- the header counts both runs, modulo `2 ^ 32`
    have hheader : batchHeader (dst.count + srcCount) = batchHeader (countOf (md.entries ++ fs)) := by
      rw [← batchHeader_mod (dst.count + srcCount), ← batchHeader_mod (countOf _), countOf_append_entries,
        hd.count, Nat.add_mod, hcount, Nat.mod_mod, ← Nat.add_mod]
    have hset := setCount_rep_of_rep hd.rep_eq (dst.count + srcCount)
    show (dst.setCount (dst.count + srcCount)).rep ++ encodeEntries fs = _
    rw [hset, hheader, SavepointLog.entries_appendAll, batchRep, encodeEntries_append, List.append_assoc]
  contentFlags_eq := by
    show dst.contentFlags ||| srcFlags = _
    rw [hd.contentFlags_eq, hflags, SavepointLog.entries_appendAll, contentFlagsOf_append_entries]
  savePoints_eq := by
    show dst.savePoints = _
    rw [SavepointLog.views_appendAll, hd.savePoints_eq]
  encodable := by
    intro e he
    rcases List.mem_append.1 he with he | he
    · exact hd.encodable e he
    · exact hfs e he

/-- `Append` of the whole source: its records, its count and its flags -/
theorem WriteBatch.Abstracts.append_whole (hd : dst.Abstracts md) (hs : src.Abstracts ms) {walOnly : Bool}
    (hwal : walOnly = false ∨ src.walTermPoint.isCleared = true) :
    (dst.append src walOnly).Abstracts (md.appendAll ms.entries) := by
  have hwhole : (walOnly && !src.walTermPoint.isCleared) = false := by
    rcases hwal with rfl | h
    · rfl
    · rw [h, Bool.not_true, Bool.and_false]
  have hbody : (src.rep.drop kHeader).take (src.rep.length - kHeader) = encodeEntries ms.entries := by
    rw [hs.rep_eq, batchRep, List.drop_left' (length_batchHeader _), List.take_of_length_le (by simp)]
  have h := hd.append_entries hs.encodable src.count src.contentFlags (by rw [hs.count, Nat.mod_mod])
    hs.contentFlags_eq
  rw [← hbody] at h
  unfold WriteBatch.append
  dsimp only
  rw [hwhole, if_neg Bool.false_ne_true]
  exact h

/-- `Append` with `wal_only` of a source marked after the entries `pre`: just their records, with the count and flags
saved at the mark -/
theorem WriteBatch.Abstracts.append_marked (hd : dst.Abstracts md) (hs : src.Abstracts ms) {pre rest : List BatchEntry}
    (hms : ms.entries = pre ++ rest) (hmark : src.walTermPoint = savePointOf pre) :
    (dst.append src true).Abstracts (md.appendAll pre) := by
  have hpre : ∀ e ∈ pre, e.Encodable := fun e he => hs.encodable e (hms ▸ List.mem_append_left rest he)
  have hmarked : (true && !src.walTermPoint.isCleared) = true := by
    rw [hmark, isCleared_savePointOf]
    rfl
  -- the saved size stops the copy at the end of the records of `pre`
  have hbody : (src.rep.drop kHeader).take ((savePointOf pre).size - kHeader) = encodeEntries pre := by
    have hsize : (savePointOf pre).size - kHeader = (encodeEntries pre).length := by
      simp [savePointOf, batchRep]
    rw [hs.rep_eq, batchRep, List.drop_left' (length_batchHeader _), hms, encodeEntries_append, hsize,
      List.take_left]
  have h := hd.append_entries hpre (savePointOf pre).count (savePointOf pre).contentFlags (Nat.mod_mod _ _) rfl
  rw [← hbody] at h
  unfold WriteBatch.append
  dsimp only
  rw [hmarked, if_pos rfl, hmark]
  exact h

/-- `MarkWalTerminationPoint` saves the size, count and flags of the model as it stands -/
theorem WriteBatch.Abstracts.walTermPoint_mark {b : WriteBatch} {m : BatchModel} (hR : b.Abstracts m) :
    b.markWalTerminationPoint.walTermPoint = savePointOf m.entries := by
  rw [WriteBatch.markWalTerminationPoint, WriteBatch.getDataSize, hR.rep_eq, hR.count, hR.contentFlags_eq]
  rfl

theorem WriteBatch.Abstracts.markWalTerminationPoint {b : WriteBatch} {m : BatchModel} (hR : b.Abstracts m) :
    b.markWalTerminationPoint.Abstracts m :=
  ⟨hR.rep_eq, hR.contentFlags_eq, hR.savePoints_eq, hR.encodable⟩

/-! ## The termination point under later operations -/

@[simp] theorem WriteBatch.walTermPoint_setCount (b : WriteBatch) (n : ℕ) :
    (b.setCount n).walTermPoint = b.walTermPoint := rfl

theorem WriteBatch.walTermPoint_commit (b : WriteBatch) (sp : SavePoint) :
    (b.commit sp).2.walTermPoint = b.walTermPoint := by
  unfold WriteBatch.commit
  split_ifs <;> rfl

theorem WriteBatch.walTermPoint_addRecord (b : WriteBatch) (defaultTag cfTag : ValueType) (cf : UInt32)
    (slices : List (List UInt8)) (flag : ContentFlags) :
    (b.addRecord defaultTag cfTag cf slices flag).2.walTermPoint = b.walTermPoint :=
  WriteBatch.walTermPoint_commit _ _

end append

/-! ## What the destination reports -/

/-- what `Append` leaves in `dst`: the model with `appended` after it, which `Iterate` reports, and the count and
flags of the copied records added in -/
structure AppendResult (dst src : WriteBatch) (walOnly : Bool) (md : BatchModel) (appended : List BatchEntry)
    (srcCount srcFlags : ℕ) : Prop where
  abstracts : (dst.append src walOnly).Abstracts (md.appendAll appended)
  iterate : (dst.append src walOnly).iterate recordingHandler [] =
    (.ok, (md.entries ++ appended).map BatchEntry.toCall)
  count : (dst.append src walOnly).count = (dst.count + srcCount) % 2 ^ 32
  contentFlags : (dst.append src walOnly).contentFlags = dst.contentFlags ||| srcFlags

theorem appendResult_of_abstracts {dst src : WriteBatch} {walOnly : Bool} {md : BatchModel}
    {appended : List BatchEntry} {srcCount srcFlags : ℕ} (hd : dst.Abstracts md)
    (h : (dst.append src walOnly).Abstracts (md.appendAll appended))
    (hcount : srcCount % 2 ^ 32 = countOf appended % 2 ^ 32) (hflags : srcFlags = contentFlagsOf appended) :
    AppendResult dst src walOnly md appended srcCount srcFlags where
  abstracts := h
  iterate := h.iterate
  count := by
    rw [h.count, SavepointLog.entries_appendAll, countOf_append_entries, hd.count, Nat.add_mod, ← hcount,
      Nat.add_mod_mod]
  contentFlags := by
    rw [h.contentFlags_eq, SavepointLog.entries_appendAll, contentFlagsOf_append_entries, hd.contentFlags_eq,
      hflags]

/-! ## Protection info -/

section protection

variable {P : Type} {dst src : WriteBatch} {dstProt srcProt : Option (List P)} {walOnly : Bool}

/-- a protection info lines up with its batch: `nullptr`, or one entry per counted record -/
def ProtAligned (b : WriteBatch) (prot : Option (List P)) : Prop := ∀ p, prot = some p → p.length = b.count

instance (b : WriteBatch) (prot : Option (List P)) : Decidable (ProtAligned b prot) :=
  match prot with
  | none => isTrue fun _ h => absurd h (by simp)
  | some p => decidable_of_iff (p.length = b.count) (by simp [ProtAligned])

theorem any_length_ne_eq_false {b : WriteBatch} {prot : Option (List P)} :
    prot.any (·.length != b.count) = false ↔ ProtAligned b prot := by
  cases prot <;> simp [ProtAligned]

/-- a protection info out of line with its batch: `Append` reports the corruption and leaves the destination -/
theorem WriteBatchInternal.append_of_not_aligned (h : ¬ (ProtAligned src srcProt ∧ ProtAligned dst dstProt)) :
    WriteBatchInternal.append dst dstProt src srcProt walOnly =
      (.corruption "Write batch has inconsistent count and number of checksums", dst, dstProt) := by
  rw [← any_length_ne_eq_false, ← any_length_ne_eq_false] at h
  unfold WriteBatchInternal.append
  rw [if_pos (by cases h1 : srcProt.any (·.length != src.count) <;> simp_all)]

/-- protection infos in line: `Append` succeeds with the records of `dst.append`, and the source's entries for the
`n` records it copies follow the destination's -/
theorem WriteBatchInternal.append_of_aligned (hs : ProtAligned src srcProt) (hd : ProtAligned dst dstProt)
    {n : ℕ} (hn : (if walOnly && !src.walTermPoint.isCleared then src.walTermPoint.count else src.count) = n) :
    WriteBatchInternal.append dst dstProt src srcProt walOnly =
      (.ok, dst.append src walOnly, srcProt.map fun p => dstProt.getD [] ++ p.take n) := by
  rw [← any_length_ne_eq_false] at hs hd
  unfold WriteBatchInternal.append
  rw [hs, hd, Bool.false_or, if_neg Bool.false_ne_true]
  dsimp only
  rw [hn]
  cases srcProt <;> rfl

/-- the protection info `Append` leaves has an entry for each record of the destination and each record copied,
when the source has at least as many entries as it copies and the destination's has one exactly when the source's
has, or the destination is empty -/
theorem protLength_of_aligned (hd : ProtAligned dst dstProt) (hsetting : dst.count = 0 ∨ dstProt.isSome = srcProt.isSome)
    {n : ℕ} (hn : ∀ p, srcProt = some p → n ≤ p.length) :
    ∀ q, (srcProt.map fun p => dstProt.getD [] ++ p.take n) = some q → q.length = dst.count + n := by
  intro q hq
  obtain ⟨p, hp, rfl⟩ := Option.map_eq_some_iff.mp hq
  have htake : (p.take n).length = n := List.length_take_of_le (hn p hp)
  cases hdp : dstProt with
  | none =>
    -- without protection info of its own the destination is empty
    have hzero : dst.count = 0 := hsetting.resolve_right (by simp [hdp, hp])
    simp [htake, hzero]
  | some d => simp [htake, hd d hdp]

end protection

/-- `Append` is the concatenation of the models, with its protection info: a protection info out of line with its
batch is a corruption that changes nothing; otherwise `Append` succeeds, `dst` takes the whole source unless `wal_only`
finds a termination point, and then the entries before it, and the protection info it leaves has one entry for each
record of the destination and each record copied -/
theorem append_homomorphism {P : Type} {dst src : WriteBatch} {md ms : BatchModel} (hd : dst.Abstracts md)
    (hs : src.Abstracts ms) (dstProt srcProt : Option (List P))
    (hsetting : dst.count = 0 ∨ dstProt.isSome = srcProt.isSome) :
    (∀ walOnly, ¬ (ProtAligned src srcProt ∧ ProtAligned dst dstProt) →
      WriteBatchInternal.append dst dstProt src srcProt walOnly =
        (.corruption "Write batch has inconsistent count and number of checksums", dst, dstProt)) ∧
    (ProtAligned src srcProt → ProtAligned dst dstProt →
      (∀ walOnly : Bool, (walOnly = false ∨ src.walTermPoint.isCleared = true) →
        let r := WriteBatchInternal.append dst dstProt src srcProt walOnly
        r.1 = .ok ∧ r.2.1 = dst.append src walOnly ∧
          AppendResult dst src walOnly md ms.entries src.count src.contentFlags ∧
          ∀ q, r.2.2 = some q → q.length = dst.count + src.count) ∧
      (∀ pre rest : List BatchEntry, ms.entries = pre ++ rest → src.walTermPoint = savePointOf pre →
        countOf ms.entries < 2 ^ 32 →
        let r := WriteBatchInternal.append dst dstProt src srcProt true
        r.1 = .ok ∧ r.2.1 = dst.append src true ∧
          AppendResult dst src true md pre (countOf pre) (contentFlagsOf pre) ∧
          ∀ q, r.2.2 = some q → q.length = dst.count + countOf pre)) := by
  refine ⟨fun walOnly h => WriteBatchInternal.append_of_not_aligned h, fun hsa hda => ⟨?_, ?_⟩⟩
  · intro walOnly hwal
    have hwhole : (if walOnly && !src.walTermPoint.isCleared then src.walTermPoint.count else src.count) =
        src.count := by
      rcases hwal with rfl | h
      · rfl
      · simp [h]
    rw [WriteBatchInternal.append_of_aligned hsa hda hwhole]
    refine ⟨rfl, rfl, appendResult_of_abstracts hd (hd.append_whole hs hwal) (by rw [hs.count, Nat.mod_mod])
      hs.contentFlags_eq, protLength_of_aligned hda hsetting fun p hp => (hsa p hp).ge⟩
  · intro pre rest hms hmark hsmall
    -- the count saved at the mark is the records before it, no more than the source's count
    have hpre : countOf pre ≤ countOf ms.entries := by
      rw [hms, countOf_append_entries]; exact Nat.le_add_right _ _
    have hmarked : (if true && !src.walTermPoint.isCleared then src.walTermPoint.count else src.count) =
        countOf pre := by
      rw [hmark, isCleared_savePointOf, Bool.not_false, Bool.and_true, if_pos rfl, savePointOf,
        Nat.mod_eq_of_lt (by omega)]
    rw [WriteBatchInternal.append_of_aligned hsa hda hmarked]
    refine ⟨rfl, rfl, appendResult_of_abstracts hd (hd.append_marked hs hms hmark) rfl rfl,
      protLength_of_aligned hda hsetting fun p hp => ?_⟩
    rw [hsa p hp, hs.count, Nat.mod_eq_of_lt hsmall]
    exact hpre

/-- a source that took a put, was marked, and took a deletion, appended with `wal_only` to a batch holding a put,
both with protection info: the put before the mark is copied with its entry, the deletion after it is not -/
theorem append_homomorphism_marked :
    let d := [WriteBatchOp.put 0 [1] [2]].foldl (simulate fun (_ : Unit) => .ok []) (WriteBatch.create 0, .empty)
    let s₀ := [WriteBatchOp.put 0 [3] [4]].foldl (simulate fun (_ : Unit) => .ok []) (WriteBatch.create 0, .empty)
    let s := [WriteBatchOp.delete 0 [5]].foldl (simulate fun (_ : Unit) => .ok []) (s₀.1.markWalTerminationPoint, s₀.2)
    (d.1.Abstracts d.2 ∧ s.1.Abstracts s.2 ∧ (d.1.count = 0 ∨ (some [()]).isSome = (some [(), ()]).isSome) ∧
        ProtAligned s.1 (some [(), ()]) ∧ ProtAligned d.1 (some [()]) ∧
        s.2.entries = [.put 0 [3] [4]] ++ [.delete 0 [5]] ∧ s.1.walTermPoint = savePointOf [.put 0 [3] [4]] ∧
        countOf s.2.entries < 2 ^ 32) ∧
      let r := WriteBatchInternal.append d.1 (some [()]) s.1 (some [(), ()]) true
      r.1 = .ok ∧ r.2.1 = d.1.append s.1 true ∧
        AppendResult d.1 s.1 true d.2 [.put 0 [3] [4]] (countOf [.put 0 [3] [4]]) (contentFlagsOf [.put 0 [3] [4]]) ∧
        ∀ q, r.2.2 = some q → q.length = d.1.count + countOf [.put 0 [3] [4]] :=
  have hput : ∀ op ∈ [WriteBatchOp.put 0 [1] [2]], (op : WriteBatchOp Unit).Encodable := by
    simp [WriteBatchOp.Encodable]
  have hput' : ∀ op ∈ [WriteBatchOp.put 0 [3] [4]], (op : WriteBatchOp Unit).Encodable := by
    simp [WriteBatchOp.Encodable]
  have hdelete : ∀ op ∈ [WriteBatchOp.delete 0 [5]], (op : WriteBatchOp Unit).Encodable := by
    simp [WriteBatchOp.Encodable]
  have hd := WriteBatch.Abstracts.run (fun (_ : Unit) => .ok []) _ hput (abstracts_create 0)
  have hs := WriteBatch.Abstracts.run (fun (_ : Unit) => .ok []) _ hdelete
    (WriteBatch.Abstracts.run (fun (_ : Unit) => .ok []) _ hput' (abstracts_create 0)).markWalTerminationPoint
  have hms : ([WriteBatchOp.delete 0 [5]].foldl (simulate fun (_ : Unit) => .ok [])
      (([WriteBatchOp.put 0 [3] [4]].foldl (simulate fun (_ : Unit) => .ok [])
        (WriteBatch.create 0, .empty)).1.markWalTerminationPoint,
        ([WriteBatchOp.put 0 [3] [4]].foldl (simulate fun (_ : Unit) => .ok []) (WriteBatch.create 0, .empty)).2)).2.entries =
      [.put 0 [3] [4]] ++ [.delete 0 [5]] := by decide
  have hmark : ([WriteBatchOp.delete 0 [5]].foldl (simulate fun (_ : Unit) => .ok [])
      (([WriteBatchOp.put 0 [3] [4]].foldl (simulate fun (_ : Unit) => .ok [])
        (WriteBatch.create 0, .empty)).1.markWalTerminationPoint,
        ([WriteBatchOp.put 0 [3] [4]].foldl (simulate fun (_ : Unit) => .ok [])
          (WriteBatch.create 0, .empty)).2)).1.walTermPoint = savePointOf [.put 0 [3] [4]] := by decide
  have hsetting : ([WriteBatchOp.put 0 [1] [2]].foldl (simulate fun (_ : Unit) => .ok [])
      (WriteBatch.create 0, .empty)).1.count = 0 ∨ (some [()]).isSome = (some [(), ()]).isSome := .inr rfl
  have hsa : ProtAligned ([WriteBatchOp.delete 0 [5]].foldl (simulate fun (_ : Unit) => .ok [])
      (([WriteBatchOp.put 0 [3] [4]].foldl (simulate fun (_ : Unit) => .ok [])
        (WriteBatch.create 0, .empty)).1.markWalTerminationPoint,
        ([WriteBatchOp.put 0 [3] [4]].foldl (simulate fun (_ : Unit) => .ok [])
          (WriteBatch.create 0, .empty)).2)).1 (some [(), ()]) := by decide
  have hda : ProtAligned ([WriteBatchOp.put 0 [1] [2]].foldl (simulate fun (_ : Unit) => .ok [])
      (WriteBatch.create 0, .empty)).1 (some [()]) := by decide
  have hsmall : countOf ([WriteBatchOp.delete 0 [5]].foldl (simulate fun (_ : Unit) => .ok [])
      (([WriteBatchOp.put 0 [3] [4]].foldl (simulate fun (_ : Unit) => .ok [])
        (WriteBatch.create 0, .empty)).1.markWalTerminationPoint,
        ([WriteBatchOp.put 0 [3] [4]].foldl (simulate fun (_ : Unit) => .ok [])
          (WriteBatch.create 0, .empty)).2)).2.entries < 2 ^ 32 := by decide
  ⟨⟨hd, hs, hsetting, hsa, hda, hms, hmark, hsmall⟩,
    ((append_homomorphism hd hs (some [()]) (some [(), ()]) hsetting).2 hsa hda).2 _ _ hms hmark hsmall⟩

end ForSt
