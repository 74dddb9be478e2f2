import ForSt.Db.Compaction.CompactionIterator
/-!
What a compaction must keep: the read of a user key at a snapshot, the value of its newest version at or below the
snapshot's sequence number (`readAt`), before and after the compaction.

`compaction_drops_only_version_at_snapshot_zero`: rule (A) recognises the first version of a user key by
`current_user_key_snapshot_ = 0`, the value the first occurrence resets it to, and 0 is also the earliest snapshot
of an entry at sequence 0 when a snapshot at sequence 0 is held. Such an entry is then dropped as hidden by a newer
version that does not exist, and the read at that snapshot loses its value.
-/

namespace ForSt

variable {K : Type} [DecidableEq K]

/-- the version of `k` with the greatest sequence number at or below `S` (the first of those in list order) -/
def newestVersion (S : ℕ) (k : K) (es : List (CompactionEntry K)) : Option (CompactionEntry K) :=
  es.foldl (fun best e =>
    if e.userKey = k ∧ e.sequence ≤ S ∧ best.all (fun b => b.sequence < e.sequence) then some e else best) none

/-- a point read of `k` at sequence number `S`: the newest visible version's value, nothing after a deletion or a
single deletion, or when there is no visible version -/
def readAt (S : ℕ) (k : K) (es : List (CompactionEntry K)) : Option (List UInt8) :=
  match newestVersion S k es with
  | some ⟨_, _, .kTypeValue, v⟩ => some v
  | _ => none

section run

variable (o : CompactionIteratorOptions K)

theorem compactionLoop_of_not_valid {st : CompactionIterator K} (h : st.valid = false) :
    compactionLoop o st = ([], st.status) := by
  rw [compactionLoop, dif_neg (by simp [h])]

/-- with the single snapshot 0, an entry at sequence 0 is in the stripe of snapshot 0, and so is the newer version
rule (A) takes the reset state to have seen -/
theorem processInput_first_at_snapshot_zero (hsnap : o.snapshots = [0]) (st : CompactionIterator K)
    (e : CompactionEntry K) (rest : List (CompactionEntry K)) (hnew : st.isNewUserKey e.userKey = true)
    (hseq : e.sequence = 0) (hclear : st.clearAndOutputNextKey = false) (htype : e.type ≠ .kTypeSingleDeletion) :
    processInput o st e rest =
      .again { (st.startUserKey e.userKey).enter o e with input := rest } := by
  have hvis : o.visibleSnapshot e.sequence = (0, 0) := by
    simp [CompactionIteratorOptions.visibleSnapshot, CompactionIteratorOptions.visibleAtTip, hsnap, hseq,
      findEarliestVisibleSnapshot, findEarliestVisibleSnapshot.go]
  have hat : st.atUserKey e.userKey = st.startUserKey e.userKey := if_pos hnew
  simp only [processInput, hat]
  rw [if_neg (by simpa [CompactionIterator.enter, CompactionIterator.startUserKey] using hclear), if_neg htype,
    if_pos (Or.inl (by simp [CompactionIterator.enter, CompactionIterator.startUserKey, hvis]))]

end run

/-- a compaction under the single snapshot 0 writes nothing for a put at sequence 0, whose value the read at that
snapshot returns before the compaction and not after it -/
theorem compaction_drops_only_version_at_snapshot_zero (o : CompactionIteratorOptions K) (hsnap : o.snapshots = [0])
    (k : K) (v : List UInt8) :
    compactionOutput o [⟨k, 0, .kTypeValue, v⟩] = ([], .ok) ∧
      readAt 0 k [⟨k, 0, .kTypeValue, v⟩] = some v ∧
      readAt 0 k (compactionOutput o [⟨k, 0, .kTypeValue, v⟩]).1 = none := by
  let st : CompactionIterator K :=
    { CompactionIterator.create [⟨k, 0, .kTypeValue, v⟩] with atNext := false, valid := false }
  have hturn := processInput_first_at_snapshot_zero o hsnap st ⟨k, 0, .kTypeValue, v⟩ [] rfl rfl rfl (by simp)
  -- the one turn reads the entry and drops it; the loop then finds the input empty
  have hloop : nextFromInput o (CompactionIterator.create [⟨k, 0, .kTypeValue, v⟩]) =
      { (st.startUserKey k).enter o ⟨k, 0, .kTypeValue, v⟩ with input := [] } := by
    rw [nextFromInput, nextFromInputLoop_again o (by simp) rfl hturn, nextFromInputLoop_nil o rfl]
  have hout : compactionOutput o [⟨k, 0, .kTypeValue, v⟩] = ([], .ok) := by
    rw [compactionOutput, seekToFirst, hloop]
    exact compactionLoop_of_not_valid o rfl
  refine ⟨hout, ?_, ?_⟩
  · simp [readAt, newestVersion]
  · rw [hout]
    rfl

theorem compaction_drops_only_version_at_snapshot_zero_one :
    ({ snapshots := [0], earliestWriteConflictSnapshot := kMaxSequenceNumber, compaction := none,
        enforceSingleDelContracts := true, preserveTimeMinSeqno := kMaxSequenceNumber } :
          CompactionIteratorOptions ℕ).snapshots = [0] ∧
      compactionOutput ⟨[0], kMaxSequenceNumber, none, true, kMaxSequenceNumber⟩ [⟨1, 0, .kTypeValue, [7]⟩] =
        ([], .ok) ∧
      readAt 0 1 [(⟨1, 0, .kTypeValue, [7]⟩ : CompactionEntry ℕ)] = some [7] ∧
      readAt 0 1 (compactionOutput ⟨[0], kMaxSequenceNumber, none, true, kMaxSequenceNumber⟩
        [(⟨1, 0, .kTypeValue, [7]⟩ : CompactionEntry ℕ)]).1 = none :=
  ⟨rfl, compaction_drops_only_version_at_snapshot_zero ⟨[0], kMaxSequenceNumber, none, true, kMaxSequenceNumber⟩ rfl
    1 [7]⟩

end ForSt
