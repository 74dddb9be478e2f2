import ForSt.Db.MemTableInserter
import ForSt.Db.WriteBatchSpec
import ForSt.Util.Comparator
/-!
How `MemTableInserter` hands out sequence numbers in the default mode (one a key), over batches of data records and
log data.

A record handler moves `sequence_` by one exactly when it answers OK (`moves_call`), except for a range deletion
whose two ends the comparator finds equal (`emptyRange`), which `DeleteRangeCF` answers OK without writing it or
moving the sequence. The records that move it are `advances`, counted by `advancingCount`. Over `Iterate`'s turns the
sequence moves once for each record that advances (`sequence_of_turnsOk`, `sequence_of_reached`); a batch inserted
with OK ends past all of them (`insertIntoWriter_sequence`); in a write group each writer starts where the ones
before it end (`insertIntoLoop_sequence`).
-/

namespace ForSt.MemTableInserter

variable {M : Type} (cfMems : ColumnFamilyMemTables M) (opts : InserterOptions)

/-! ## The records that move the sequence -/

/-- a range deletion that `DeleteRangeCF` answers OK without applying it: with a DB, into a family it writes to,
between two keys the family's comparator finds equal -/
def emptyRange : HandlerCall → Bool
  | .deleteRangeCF cf beginKey endKey =>
    opts.hasDb && cfMems.seek cf &&
      !decide (opts.recoveringLogNumber ≠ 0 ∧ opts.recoveringLogNumber < cfMems.getLogNumber cf) &&
        cfMems.compareWithoutTimestamp cf beginKey endKey == .eq
  | _ => false

/-- the entries that move the sequence: the counted ones but the empty ranges -/
def advances (e : BatchEntry) : Bool := e.counted && !emptyRange cfMems opts e.toCall

/-- the number of entries that move the sequence -/
def advancingCount (es : List BatchEntry) : ℕ := es.countP (advances cfMems opts)

/-- the records of a batch move the sequence by their count less the empty ranges -/
theorem advancingCount_add_emptyRanges (es : List BatchEntry) :
    advancingCount cfMems opts es + es.countP (fun e => emptyRange cfMems opts e.toCall) = countOf es := by
  induction es with
  | nil => rfl
  | cons e es ih =>
    -- an empty range is a counted entry
    have hcounted : emptyRange cfMems opts e.toCall = true → e.counted = true := by
      cases e <;> simp [emptyRange, BatchEntry.toCall, BatchEntry.counted, BatchEntry.flag?]
    rw [advancingCount, countOf, List.countP_cons, List.countP_cons, List.countP_cons, ← advancingCount, ← countOf,
      ← ih]
    by_cases he : emptyRange cfMems opts e.toCall = true
    · simp [advances, he, hcounted he]
      omega
    · simp only [advances, he, Bool.not_false, Bool.and_true, Bool.false_eq_true, if_false]
      omega

/-- without a DB no range is empty: every counted record moves the sequence -/
theorem advancingCount_of_hasDb_false (hdb : opts.hasDb = false) (es : List BatchEntry) :
    advancingCount cfMems opts es = countOf es := by
  have hnone : ∀ c, emptyRange cfMems opts c = false := by
    intro c
    cases c <;> simp [emptyRange, hdb]
  exact List.countP_congr fun e _ => by simp [advances, hnone]

/-- the entries that advance, taken from a starting sequence number -/
theorem foldl_advances (es : List BatchEntry) (q : UInt64) :
    es.foldl (fun a e => if advances cfMems opts e then a + 1 else a) q =
      q + UInt64.ofNat (advancingCount cfMems opts es) := by
  induction es generalizing q with
  | nil => simp [advancingCount]
  | cons e es ih =>
    rw [List.foldl_cons, ih, advancingCount, advancingCount]
    by_cases he : advances cfMems opts e = true
    · rw [if_pos he, List.countP_cons_of_pos he, UInt64.ofNat_add, UInt64.ofNat_one, UInt64.add_assoc,
        UInt64.add_comm 1]
    · rw [if_neg he, List.countP_cons_of_neg he]

/-! ## One record -/

/-- the sequence moves by one exactly when the handler answers OK for a record that advances -/
def Moves (adv : Bool) (st : MemTableInserter M) (r : Status × MemTableInserter M) : Prop :=
  r.2.sequence = if r.1.isOk && adv then st.sequence + 1 else st.sequence

theorem seekToColumnFamily_sequence {cf : UInt32} {st st' : MemTableInserter M}
    (h : seekToColumnFamily cfMems opts cf st = .ok st') : st'.sequence = st.sequence := by
  unfold seekToColumnFamily at h
  split_ifs at h <;> cases h <;> rfl

theorem emptyRange_of_seek_error {cf : UInt32} {beginKey endKey : List UInt8} {st : MemTableInserter M} {s : Status}
    (h : seekToColumnFamily cfMems opts cf st = .error s) :
    emptyRange cfMems opts (.deleteRangeCF cf beginKey endKey) = false := by
  by_cases hseek : cfMems.seek cf = true
  · -- a family that exists is skipped only in recovery, when it holds the log
    have hrec : opts.recoveringLogNumber ≠ 0 ∧ opts.recoveringLogNumber < cfMems.getLogNumber cf := by
      by_contra hrec
      unfold seekToColumnFamily at h
      rw [if_neg (by simp [hseek]), if_neg hrec] at h
      split_ifs at h
    simp [emptyRange, hseek, hrec]
  · simp [emptyRange, hseek]

theorem emptyRange_of_seek_ok {cf : UInt32} {beginKey endKey : List UInt8} {st st' : MemTableInserter M}
    (h : seekToColumnFamily cfMems opts cf st = .ok st') :
    emptyRange cfMems opts (.deleteRangeCF cf beginKey endKey) =
      (opts.hasDb && cfMems.compareWithoutTimestamp cf beginKey endKey == .eq) := by
  unfold seekToColumnFamily at h
  split_ifs at h with hseek hrec
  all_goals
    simp only [Bool.not_eq_true'] at hseek
    simp [emptyRange, hseek, hrec]

/-- how far a writer of a group moves the sequence: not at all when it is skipped or does not write to the memtable,
else by its batch's records that advance -/
def writerAdvance (w : Writer) (es : List BatchEntry) : ℕ :=
  if w.callbackFailed || !w.shouldWriteToMemtable then 0 else advancingCount cfMems opts es

theorem handler_continue (markRecovered : HandlerCall → MemTableInserter M → Status × MemTableInserter M)
    (x : MemTableInserter M) : (handler cfMems opts markRecovered).continue_ x = true := rfl

section defaultMode

variable (hspb : opts.seqPerBatch = false)
include hspb

theorem maybeAdvanceSeq_false (st : MemTableInserter M) : (maybeAdvanceSeq opts false st).sequence = st.sequence + 1 := by
  simp [maybeAdvanceSeq, hspb]

theorem maybeAdvanceSeq_true (st : MemTableInserter M) : maybeAdvanceSeq opts true st = st := by
  simp [maybeAdvanceSeq, hspb]

/-- the end of a memtable write: OK moves the sequence, a `TryAgain` or an error leaves it -/
theorem moves_advanceAfterWrite (r : Status × M) (st : MemTableInserter M) :
    Moves true st (advanceAfterWrite opts r st) := by
  unfold Moves advanceAfterWrite
  by_cases ht : r.1.isTryAgain = true
  · -- a `TryAgain` is a batch boundary, which in the default mode does not move the sequence
    simp [ht, Status.isOk_eq_false_of_isTryAgain ht, maybeAdvanceSeq_true opts hspb]
  · by_cases hok : r.1.isOk = true
    · simp [ht, hok, maybeAdvanceSeq_false opts hspb]
    · simp [ht, hok]

/-- a record handler past `SeekToColumnFamily`: a skipped record moves the sequence on OK as a write would, so it
`Moves` as the write does when the write moves it whenever the family is skipped -/
theorem moves_onColumnFamily {adv : Bool} (cf : UInt32) (write : MemTableInserter M → Status × MemTableInserter M)
    (st : MemTableInserter M) (hskip : ∀ s, seekToColumnFamily cfMems opts cf st = .error s → adv = true)
    (hwrite : ∀ st', seekToColumnFamily cfMems opts cf st = .ok st' → Moves adv st' (write st')) :
    Moves adv st (onColumnFamily cfMems opts cf write st) := by
  unfold onColumnFamily
  split
  · rename_i s hs
    rw [Moves, hskip s hs]
    by_cases hok : s.isOk = true
    · simp [hok, maybeAdvanceSeq_false opts hspb]
    · simp [hok]
  · rename_i st' hs
    have hw := hwrite st' hs
    rw [Moves] at hw ⊢
    rw [hw, seekToColumnFamily_sequence cfMems opts hs]

theorem moves_putCFImpl (cf : UInt32) (key value : List UInt8) (valueType : ValueType) (st : MemTableInserter M) :
    Moves true st (putCFImpl cfMems opts cf key value valueType st) :=
  moves_onColumnFamily cfMems opts hspb cf _ st (fun _ _ => rfl) fun st' _ => moves_advanceAfterWrite opts hspb _ st'

theorem moves_deleteCF (cf : UInt32) (key : List UInt8) (st : MemTableInserter M) :
    Moves true st (deleteCF cfMems opts cf key st) :=
  moves_onColumnFamily cfMems opts hspb cf _ st (fun _ _ => rfl) fun st' _ => moves_advanceAfterWrite opts hspb _ st'

theorem moves_singleDeleteCF (cf : UInt32) (key : List UInt8) (st : MemTableInserter M) :
    Moves true st (singleDeleteCF cfMems opts cf key st) :=
  moves_onColumnFamily cfMems opts hspb cf _ st (fun _ _ => rfl) fun st' _ => moves_advanceAfterWrite opts hspb _ st'

theorem moves_mergeCF (cf : UInt32) (key value : List UInt8) (st : MemTableInserter M) :
    Moves true st (mergeCF cfMems opts cf key value st) := by
  refine moves_onColumnFamily cfMems opts hspb cf _ st (fun _ _ => rfl) fun st' _ => ?_
  by_cases hm : cfMems.hasMergeOperator cf = true
  · simp only [hm, Bool.not_true, Bool.false_eq_true, if_false]
    exact moves_advanceAfterWrite opts hspb _ st'
  · -- no merge operator: `InvalidArgument`, and the sequence stays
    simp [hm, Moves, Status.isOk]

/-- a range deletion moves the sequence on OK unless it is empty -/
theorem moves_deleteRangeCF (cf : UInt32) (beginKey endKey : List UInt8) (st : MemTableInserter M) :
    Moves (!emptyRange cfMems opts (.deleteRangeCF cf beginKey endKey)) st
      (deleteRangeCF cfMems opts cf beginKey endKey st) := by
  refine moves_onColumnFamily cfMems opts hspb cf _ st
    (fun _ hs => by rw [emptyRange_of_seek_error cfMems opts hs]; rfl) fun st' hs => ?_
  rw [emptyRange_of_seek_ok cfMems opts hs]
  cases hdb : opts.hasDb
  · -- no DB: the range is written whatever its ends
    simp only [Bool.false_and, Bool.not_false, Bool.false_eq_true, if_false]
    exact moves_advanceAfterWrite opts hspb _ st'
  · by_cases hsup : cfMems.isDeleteRangeSupported cf = true
    · cases hcmp : cfMems.compareWithoutTimestamp cf beginKey endKey
      · simp only [hsup, Bool.not_true, Bool.false_eq_true, if_true, if_false]
        exact moves_advanceAfterWrite opts hspb _ st'
      · -- both ends equal: OK, and the sequence stays
        simp [Moves, hsup]
      · simp [Moves, hsup, Status.isOk]
    · simp [Moves, hsup, Status.isOk]

variable (markRecovered : HandlerCall → MemTableInserter M → Status × MemTableInserter M)

/-- each entry's call moves the sequence by one exactly when it answers OK and the entry advances -/
theorem moves_call (e : BatchEntry) (st : MemTableInserter M) :
    Moves (advances cfMems opts e) st (call cfMems opts markRecovered e.toCall st) := by
  cases e with
  | put cf key value => exact moves_putCFImpl cfMems opts hspb cf key value _ st
  | delete cf key => exact moves_deleteCF cfMems opts hspb cf key st
  | singleDelete cf key => exact moves_singleDeleteCF cfMems opts hspb cf key st
  | deleteRange cf beginKey endKey => exact moves_deleteRangeCF cfMems opts hspb cf beginKey endKey st
  | merge cf key value => exact moves_mergeCF cfMems opts hspb cf key value st
  | putBlobIndex cf key value => exact moves_putCFImpl cfMems opts hspb cf key value _ st
  | putEntity cf key entity => exact moves_putCFImpl cfMems opts hspb cf key entity _ st
  | logData blob =>
    -- `LogData` does nothing
    simp [Moves, advances, BatchEntry.counted, BatchEntry.flag?, BatchEntry.toCall, call]

/-! ## The loop over a batch -/

/-- what `Iterate` does with an entry's record moves the sequence when it answers OK and the entry advances -/
theorem sequence_entryCall (e : BatchEntry) (it : IterState (MemTableInserter M)) :
    (entryCall (handler cfMems opts markRecovered) e it).2.handler.sequence =
      if (entryCall (handler cfMems opts markRecovered) e it).1.isOk then
        (if advances cfMems opts e then it.handler.sequence + 1 else it.handler.sequence)
      else it.handler.sequence := by
  have hm := moves_call cfMems opts hspb markRecovered e it.handler
  rw [Moves] at hm
  have hcall : (handler cfMems opts markRecovered).call = call cfMems opts markRecovered := rfl
  rw [entryCall_handler, entryCall_status, hcall]
  by_cases hc : e.counted = true
  · rw [if_pos hc, hm]
    by_cases hok : (call cfMems opts markRecovered e.toCall it.handler).1.isOk = true <;> simp [hok]
  · -- log data: it never advances
    have hadv : advances cfMems opts e = false := by simp [advances, hc]
    rw [hm, hadv]
    simp

/-- over the turns of `Iterate`'s loop the sequence moves once for each entry that advances -/
theorem sequence_of_turnsOk {es : List BatchEntry} {it it' : IterState (MemTableInserter M)}
    (hturns : TurnsOk (handler cfMems opts markRecovered) es it it') :
    it'.handler.sequence = it.handler.sequence + UInt64.ofNat (advancingCount cfMems opts es) := by
  rw [TurnsOk.map _ (fun it => it.handler.sequence) (fun e q => if advances cfMems opts e then q + 1 else q)
    (sequence_entryCall cfMems opts hspb markRecovered) hturns, foldl_advances]

/-- `Iterate` has handled the first `i` records with OK: the loop goes on from there with the record at `i`, handed
to the inserter at the sequence it started at moved past the records before it that advance -/
theorem sequence_of_reached (es : List BatchEntry) (st : MemTableInserter M) (i : ℕ)
    (hok : (entriesLoop (handler cfMems opts markRecovered) (es.take i) ⟨st, 0, true⟩).status = .ok) :
    entriesLoop (handler cfMems opts markRecovered) es ⟨st, 0, true⟩ =
        entriesLoop (handler cfMems opts markRecovered) (es.drop i)
          (entriesLoop (handler cfMems opts markRecovered) (es.take i) ⟨st, 0, true⟩).state ∧
      (entriesLoop (handler cfMems opts markRecovered) (es.take i) ⟨st, 0, true⟩).state.handler.sequence =
        st.sequence + UInt64.ofNat (advancingCount cfMems opts (es.take i)) := by
  have hok' : (entriesLoop (handler cfMems opts markRecovered) (es.take i) ⟨st, 0, true⟩).status.isOk = true :=
    (Status.isOk_iff _).mpr hok
  constructor
  · conv_lhs => rw [← List.take_append_drop i es]
    rw [entriesLoop_append _ (handler_continue cfMems opts markRecovered), if_pos hok']
  · exact sequence_of_turnsOk cfMems opts hspb markRecovered
      (turnsOk_of_entriesLoop _ (handler_continue cfMems opts markRecovered) _ _ hok')

/-- `Iterate` over a batch that ends OK leaves the inserter past all its records that advance -/
theorem iterate_sequence {b : WriteBatch} {es : List BatchEntry} (hrep : b.rep = batchRep es)
    (hes : ∀ e ∈ es, e.Encodable) (st : MemTableInserter M)
    (hok : (b.iterate (handler cfMems opts markRecovered) st).1 = .ok) :
    (b.iterate (handler cfMems opts markRecovered) st).2.sequence =
      st.sequence + UInt64.ofNat (advancingCount cfMems opts es) := by
  rw [iterate_batchRep _ (handler_continue cfMems opts markRecovered) hrep hes] at hok ⊢
  have hok' : (entriesLoop (handler cfMems opts markRecovered) es ⟨st, 0, true⟩).status.isOk = true :=
    (Status.isOk_iff _).mpr hok
  exact sequence_of_turnsOk cfMems opts hspb markRecovered
    (turnsOk_of_entriesLoop _ (handler_continue cfMems opts markRecovered) es _ hok')

/-- `Iterate` after `SetSequence` on a batch that holds `es` -/
theorem iterate_setSequence_sequence {b : WriteBatch} {es : List BatchEntry} (hrep : b.rep = batchRep es)
    (hes : ∀ e ∈ es, e.Encodable) (seq : ℕ) (st : MemTableInserter M)
    (hok : ((b.setSequence seq).iterate (handler cfMems opts markRecovered) st).1 = .ok) :
    ((b.setSequence seq).iterate (handler cfMems opts markRecovered) st).2.sequence =
      st.sequence + UInt64.ofNat (advancingCount cfMems opts es) := by
  have hlen : 8 ≤ b.rep.length := by
    rw [hrep, batchRep, List.length_append, length_batchHeader, kHeader]
    omega
  rw [WriteBatch.iterate_setSequence _ hlen] at hok ⊢
  exact iterate_sequence cfMems opts hspb markRecovered hrep hes st hok

/-- `InsertInto` of one writer that ends OK leaves the inserter past all its batch's records that advance -/
theorem insertIntoWriter_sequence (w : Writer) {es : List BatchEntry} (hrep : w.batch.rep = batchRep es)
    (hes : ∀ e ∈ es, e.Encodable) (S : UInt64) (mem : M)
    (hok : (insertIntoWriter cfMems opts markRecovered w S mem).1 = .ok) :
    (insertIntoWriter cfMems opts markRecovered w S mem).2.2.sequence =
      S + UInt64.ofNat (advancingCount cfMems opts es) :=
  iterate_setSequence_sequence cfMems opts hspb markRecovered hrep hes S.toNat ⟨S, w.logRef, mem⟩ hok

/-! ## A write group -/

/-- one writer of a group that the loop gets past: the rest of the group goes on from the sequence moved by the
writer's advance, and a writer that is not skipped is left with the sequence it started at -/
theorem insertIntoLoop_cons {w : Writer} {es : List BatchEntry}
    (hw : w.batch.rep = batchRep es ∧ ∀ e ∈ es, e.Encodable) (ws : List Writer) (st : MemTableInserter M)
    (hok : (insertIntoLoop cfMems opts markRecovered (w :: ws) st).1 = .ok) :
    ∃ w' st', insertIntoLoop cfMems opts markRecovered (w :: ws) st =
        ((insertIntoLoop cfMems opts markRecovered ws st').1, w' :: (insertIntoLoop cfMems opts markRecovered ws st').2.1,
          (insertIntoLoop cfMems opts markRecovered ws st').2.2) ∧
      st'.sequence = st.sequence + UInt64.ofNat (writerAdvance cfMems opts w es) ∧
      (w.callbackFailed = false → w'.sequence = st.sequence) := by
  by_cases hcb : w.callbackFailed = true
  · -- skipped: no sequence of its own
    refine ⟨w, st, by rw [insertIntoLoop, if_pos hcb], by simp [writerAdvance, hcb], fun h => ?_⟩
    rw [hcb] at h
    cases h
  · by_cases hwrite : w.shouldWriteToMemtable = true
    · -- the batch is inserted from the sequence the writer starts at
      have hloop := insertIntoLoop.eq_2 cfMems opts markRecovered st w ws
      rw [if_neg hcb, if_neg (by simp [hwrite])] at hloop
      dsimp only at hloop
      generalize hr : (w.batch.setSequence st.sequence.toNat).iterate (handler cfMems opts markRecovered)
        { st with logNumberRef := w.logRef } = r at hloop
      obtain ⟨s, st''⟩ := r
      -- the batch ended OK, or the loop would have stopped with its status
      obtain rfl : s = .ok := by
        by_contra hne
        have hf : s.isOk = false := Bool.eq_false_iff.mpr fun h => hne ((Status.isOk_iff s).mp h)
        rw [hloop] at hok
        simp [hf] at hok
        exact hne hok
      refine ⟨_, st'', by rw [hloop]; rfl, ?_, fun _ => rfl⟩
      have hseq := iterate_setSequence_sequence cfMems opts hspb markRecovered hw.1 hw.2 st.sequence.toNat
        { st with logNumberRef := w.logRef } (by rw [hr])
      rw [hr] at hseq
      dsimp only at hseq
      rw [hseq]
      simp [writerAdvance, hcb, hwrite]
    · -- no memtable write: a batch boundary, which does not move the sequence here
      refine ⟨{ w with sequence := st.sequence }, maybeAdvanceSeq opts true st, ?_, ?_, fun _ => rfl⟩
      · rw [insertIntoLoop, if_neg hcb, if_pos (by simpa using hwrite)]
      · rw [maybeAdvanceSeq_true opts hspb]
        simp [writerAdvance, hwrite]

/-- a write group inserted with OK: each writer that is not skipped starts where the writers before it end, and the
group ends past all of them -/
theorem insertIntoLoop_sequence {ws : List Writer} {ess : List (List BatchEntry)}
    (hws : List.Forall₂ (fun w es => w.batch.rep = batchRep es ∧ ∀ e ∈ es, e.Encodable) ws ess)
    (st : MemTableInserter M) (hok : (insertIntoLoop cfMems opts markRecovered ws st).1 = .ok) :
    (insertIntoLoop cfMems opts markRecovered ws st).2.2.sequence =
        st.sequence + UInt64.ofNat (List.zipWith (writerAdvance cfMems opts) ws ess).sum ∧
      ∀ j (hj : j < ws.length), ws[j].callbackFailed = false →
        ((insertIntoLoop cfMems opts markRecovered ws st).2.1[j]?).map Writer.sequence =
          some (st.sequence + UInt64.ofNat ((List.zipWith (writerAdvance cfMems opts) ws ess).take j).sum) := by
  induction hws generalizing st with
  | nil =>
    refine ⟨by simp [insertIntoLoop], fun j hj => absurd hj (Nat.not_lt_zero j)⟩
  | @cons w es ws ess hw _ ih =>
    obtain ⟨w', st', hloop, hseq, hw'⟩ := insertIntoLoop_cons cfMems opts hspb markRecovered hw ws st hok
    rw [hloop] at hok ⊢
    obtain ⟨hfinal, hstarts⟩ := ih st' hok
    -- the sequence numbers of the rest of the group, moved by this writer's advance
    have hshift : ∀ n, st'.sequence + UInt64.ofNat n = st.sequence + UInt64.ofNat (writerAdvance cfMems opts w es + n) := by
      intro n
      rw [hseq, UInt64.add_assoc, ← UInt64.ofNat_add]
    refine ⟨by rw [hfinal, hshift, List.zipWith_cons_cons, List.sum_cons], fun j hj hcb => ?_⟩
    cases j with
    | zero => simp [hw' hcb]
    | succ j =>
      rw [List.getElem?_cons_succ, hstarts j (by simpa using hj) hcb, hshift, List.zipWith_cons_cons, List.take_succ_cons,
        List.sum_cons]

end defaultMode

/-! ## Sequence allocation -/

/-- how the inserter hands out sequence numbers, part by part -/
structure SequenceAllocation (markRecovered : HandlerCall → MemTableInserter M → Status × MemTableInserter M) :
    Prop where
  /-- once `Iterate` has handled the first `i` records with OK, the loop goes on with the record at `i`, handed to
  the inserter at the sequence the batch started at moved past the records before it that advance -/
  reached : ∀ (es : List BatchEntry) (st : MemTableInserter M) (i : ℕ),
    (entriesLoop (handler cfMems opts markRecovered) (es.take i) ⟨st, 0, true⟩).status = .ok →
      entriesLoop (handler cfMems opts markRecovered) es ⟨st, 0, true⟩ =
          entriesLoop (handler cfMems opts markRecovered) (es.drop i)
            (entriesLoop (handler cfMems opts markRecovered) (es.take i) ⟨st, 0, true⟩).state ∧
        (entriesLoop (handler cfMems opts markRecovered) (es.take i) ⟨st, 0, true⟩).state.handler.sequence =
          st.sequence + UInt64.ofNat (advancingCount cfMems opts (es.take i))
  /-- a batch inserted with OK at `S` leaves `sequence()` past all its records that advance -/
  writer : ∀ (w : Writer) (es : List BatchEntry) (S : UInt64) (mem : M), w.batch.rep = batchRep es →
    (∀ e ∈ es, e.Encodable) → (insertIntoWriter cfMems opts markRecovered w S mem).1 = .ok →
      (insertIntoWriter cfMems opts markRecovered w S mem).2.2.sequence =
        S + UInt64.ofNat (advancingCount cfMems opts es)
  /-- the records that advance are the counted ones less the empty range deletions -/
  accounting : ∀ es : List BatchEntry,
    advancingCount cfMems opts es + es.countP (fun e => emptyRange cfMems opts e.toCall) = countOf es
  /-- without a DB, every counted record -/
  withoutDb : opts.hasDb = false → ∀ es : List BatchEntry, advancingCount cfMems opts es = countOf es
  /-- a write group inserted with OK at `S`: each writer that is not skipped starts where the writers before it
  end, and the group ends past all of them -/
  group : ∀ (ws : List Writer) (ess : List (List BatchEntry)) (S : UInt64) (mem : M),
    List.Forall₂ (fun w es => w.batch.rep = batchRep es ∧ ∀ e ∈ es, e.Encodable) ws ess →
    (insertInto cfMems opts markRecovered ws S mem).1 = .ok →
      (insertInto cfMems opts markRecovered ws S mem).2.2.sequence =
          S + UInt64.ofNat (List.zipWith (writerAdvance cfMems opts) ws ess).sum ∧
        ∀ j (hj : j < ws.length), ws[j].callbackFailed = false →
          ((insertInto cfMems opts markRecovered ws S mem).2.1[j]?).map Writer.sequence =
            some (S + UInt64.ofNat ((List.zipWith (writerAdvance cfMems opts) ws ess).take j).sum)

/-- in the default mode (one sequence number a key) the inserter hands out sequence numbers as `SequenceAllocation`
says, whatever the memtables, the DB and the options -/
theorem insertInto_sequence_allocation (hspb : opts.seqPerBatch = false)
    (markRecovered : HandlerCall → MemTableInserter M → Status × MemTableInserter M) :
    SequenceAllocation cfMems opts markRecovered where
  reached := sequence_of_reached cfMems opts hspb markRecovered
  writer w _ S mem hrep hes hok := insertIntoWriter_sequence cfMems opts hspb markRecovered w hrep hes S mem hok
  accounting := advancingCount_add_emptyRanges cfMems opts
  withoutDb hdb := advancingCount_of_hasDb_false cfMems opts hdb
  group _ _ S mem hws hok := insertIntoLoop_sequence cfMems opts hspb markRecovered hws ⟨S, 0, mem⟩ hok

end ForSt.MemTableInserter

namespace ForSt.MemTableInserter

/-! ## A DB that records its writes -/

/-- memtables that record each `Add` (sequence number, type, key, value): every family present, the bytewise
comparator, no in-place updates and no timestamps -/
def recordingMemTables : ColumnFamilyMemTables (List (UInt64 × ValueType × List UInt8 × List UInt8)) where
  seek _ := true
  getLogNumber _ := 0
  refLogContainingPrepSection m _ _ := m
  add m _ s valueType key value := (.ok, m ++ [(s, valueType, key, value)])
  inplaceUpdateSupport _ := false
  hasInplaceCallback _ := false
  update m _ _ _ _ _ := (.ok, m)
  updateCallback m _ _ _ _ := (.ok, m)
  get _ _ _ _ := .error .notFound
  inplaceCallback _ _ value := (.updateFailed, value)
  timestampSize _ := 0
  isDeleteRangeSupported _ := true
  tableFactoryName _ := "BlockBasedTable"
  getName _ := "default"
  compareWithoutTimestamp _ := sliceCompare
  hasMergeOperator _ := true
  maxSuccessiveMerges _ := 0
  countSuccessiveMergeEntries _ _ _ _ := 0
  getEntity _ _ _ _ := .error .notFound
  timedFullMerge _ _ _ value := .ok (.kTypeValue, value)

/-- the inserter `DBImpl::WriteImpl` builds for a write group: with a DB, outside recovery, one sequence number a
key -/
def writeImplOptions : InserterOptions := ⟨false, 0, true, false, true⟩

theorem insertInto_sequence_allocation_writeImpl :
    writeImplOptions.seqPerBatch = false ∧
      SequenceAllocation recordingMemTables writeImplOptions fun _ st => (.ok, st) :=
  ⟨rfl, insertInto_sequence_allocation recordingMemTables writeImplOptions rfl fun _ st => (.ok, st)⟩

/-- a range deletion from `[1]` to `[1]` and then a put of `[2]`, in the default family -/
def emptyRangeThenPut : List BatchEntry := [.deleteRange 0 [1] [1], .put 0 [2] [3]]

/-- that batch inserted at 7 as `DBImpl::WriteImpl` inserts a group: both records are counted, but the put, the
second, is written at 7, and the inserter ends at 8, not `7 + Count() = 9` -/
theorem deleteRange_empty_shifts_sequence :
    countOf emptyRangeThenPut = 2 ∧
      insertIntoWriter recordingMemTables writeImplOptions (fun _ st => (.ok, st))
          ⟨⟨batchRep emptyRangeThenPut, 0, 0, [], ⟨0, 0, 0⟩⟩, .ok, none, false, 0, 0⟩ 7 [] =
        (.ok, (⟨batchRep emptyRangeThenPut, 0, 0, [], ⟨0, 0, 0⟩⟩ : WriteBatch).setSequence 7,
          ⟨8, 0, [(7, .kTypeValue, [2], [3])]⟩) := by
  have hlen : 8 ≤ (batchRep emptyRangeThenPut).length := by decide
  have hes : ∀ e ∈ emptyRangeThenPut, e.Encodable := by
    intro e he
    simp only [emptyRangeThenPut, List.mem_cons, List.not_mem_nil, or_false] at he
    rcases he with rfl | rfl <;> exact encodable_pair (by decide) (by decide)
  refine ⟨rfl, ?_⟩
  rw [insertIntoWriter, WriteBatch.iterate_setSequence _ hlen,
    iterate_batchRep _ (handler_continue recordingMemTables writeImplOptions _) rfl hes]
  rfl

end ForSt.MemTableInserter
