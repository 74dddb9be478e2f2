import ForSt.Util.Status
import ForSt.Db.Dbformat
/-!
`CompactionIterator` (`db/compaction/compaction_iterator.cc`) over puts, deletions and single deletions, with a list
of snapshots and no snapshot checker, compaction filter, merge operands, user-defined timestamps, blob files or range
tombstones. The input is the list of entries still to read, its head the entry `input_` is at.

- `processInput` is one turn of the loop of `NextFromInput`: the first-occurrence bookkeeping of a user key, the
  earliest snapshot the entry is visible in, then the source's branches in order: the put kept after a single
  deletion with its value cleared, the single deletion with its look-ahead (`singleDeletion`), rule (A), the deletion
  no lower level can see, the bottommost deletion that skips the rest of its stripe (`bottommostDeletion`), and the
  entry that is kept.
- `nextFromInput` runs the loop until an entry is kept or the input ends; `prepareOutput` zeroes the sequence number
  of a kept bottommost entry below the earliest snapshot; `next`, `seekToFirst` and `compactionOutput` drive it.

Every turn that does not stop reads an entry (`processInput_again_length`), and every entry emitted was read
(`nextFromInput_measure`), so the loops terminate.
-/

namespace ForSt

/-- the entry types of the modelled fragment of `ValueType` -/
inductive PointType where
  | kTypeValue
  | kTypeDeletion
  | kTypeSingleDeletion
deriving DecidableEq, Repr

def PointType.toValueType : PointType → ValueType
  | .kTypeValue => .kTypeValue
  | .kTypeDeletion => .kTypeDeletion
  | .kTypeSingleDeletion => .kTypeSingleDeletion

/-- a parsed internal key (`ParsedInternalKey`) with the value stored under it -/
structure CompactionEntry (K : Type) where
  userKey : K
  sequence : ℕ
  type : PointType
  value : List UInt8
deriving DecidableEq, Repr

/-- what `CompactionIterator` asks of the compaction it runs for (`CompactionProxy`) -/
structure CompactionProxy (K : Type) where
  bottommostLevel : Bool
  allowIngestBehind : Bool
  keyNotExistsBeyondOutputLevel : K → Bool

/-- the constructor's arguments the modelled code reads; `compaction` is `none` for a flush -/
structure CompactionIteratorOptions (K : Type) where
  /-- ascending, as the constructor asserts -/
  snapshots : List ℕ
  earliestWriteConflictSnapshot : ℕ
  compaction : Option (CompactionProxy K)
  enforceSingleDelContracts : Bool
  preserveTimeMinSeqno : ℕ

namespace CompactionIteratorOptions

variable {K : Type} (o : CompactionIteratorOptions K)

/-- `bottommost_level_`: the compaction's bottommost level, unless it ingests behind -/
def bottommostLevel : Bool :=
  match o.compaction with
  | some c => c.bottommostLevel && !c.allowIngestBehind
  | none => false

def allowIngestBehind : Bool :=
  match o.compaction with
  | some c => c.allowIngestBehind
  | none => false

/-- `compaction_ != nullptr && compaction_->KeyNotExistsBeyondOutputLevel(user_key, ...)` -/
def keyNotExistsBeyondOutputLevel (k : K) : Bool :=
  match o.compaction with
  | some c => c.keyNotExistsBeyondOutputLevel k
  | none => false

/-- `visible_at_tip_`: there are no snapshots -/
def visibleAtTip : Bool := o.snapshots.isEmpty

/-- `earliest_snapshot_` -/
def earliestSnapshot : ℕ := o.snapshots.head?.getD kMaxSequenceNumber

end CompactionIteratorOptions

/-- `findEarliestVisibleSnapshot(in, &prev_snapshot)` without a snapshot checker: the first snapshot at or above
`in` (`std::lower_bound`), or `kMaxSequenceNumber`, and the snapshot before it, or 0 -/
def findEarliestVisibleSnapshot (snapshots : List ℕ) (seq : ℕ) : ℕ × ℕ :=
  go 0 snapshots
where
  go (prev : ℕ) : List ℕ → ℕ × ℕ
    | [] => (kMaxSequenceNumber, prev)
    | s :: rest => if seq ≤ s then (s, prev) else go s rest

/-- the members of `CompactionIterator` the modelled code reads or writes -/
structure CompactionIterator (K : Type) where
  /-- `input_`: the entries not yet read, the current one first -/
  input : List (CompactionEntry K)
  /-- `ikey_` and `value_`: the entry the iterator is at -/
  ikey : Option (CompactionEntry K)
  /-- `validity_info_.IsValid()` -/
  valid : Bool
  status : Status
  hasCurrentUserKey : Bool
  currentUserKey : Option K
  currentUserKeySequence : ℕ
  currentUserKeySnapshot : ℕ
  hasOutputtedKey : Bool
  lastKeySeqZeroed : Bool
  clearAndOutputNextKey : Bool
  atNext : Bool

/-- the iterator as the constructor leaves it, over `input` -/
def CompactionIterator.create {K : Type} (input : List (CompactionEntry K)) : CompactionIterator K :=
  ⟨input, none, false, .ok, false, none, 0, 0, false, false, false, false⟩

/-- the end of one turn of the loop: read on, or leave `NextFromInput` (`break` or `return`) -/
inductive LoopStep (σ : Type) where
  | again (st : σ)
  | done (st : σ)

/-- the corruption a single deletion followed by a deletion of the same key raises under
`enforce_single_del_contracts` (`static_cast<int>(kTypeDeletion)` is 0) -/
def singleDelMismatchMessage : String :=
  "Found SD and type: 0 on the same key, violating the contract of SingleDelete. Check your application to make " ++
  "sure the application does not mix SingleDelete and Delete for the same key. If you are using " ++
  "write-prepared/write-unprepared transactions, and use SingleDelete to delete certain keys, then make sure " ++
  "TransactionDBOptions::rollback_deletion_type_callback is configured properly. Mixing SD and DEL can lead to " ++
  "undefined behaviors"

section loop

variable {K : Type} [DecidableEq K] (o : CompactionIteratorOptions K)

/-- a single deletion with nothing more of its user key after it: it is dropped when no lower level holds the key
and it is in the earliest snapshot, or when a newer version of the key had its sequence number zeroed -/
def singleDeletionAtEnd (st : CompactionIterator K) (e : CompactionEntry K) : LoopStep (CompactionIterator K) :=
  let st := { st with hasCurrentUserKey := false }
  if e.sequence ≤ o.earliestSnapshot ∧ o.keyNotExistsBeyondOutputLevel e.userKey then .again st
  else if st.lastKeySeqZeroed then .again st
  else .done { st with valid := true, atNext := true }

/-- the single-deletion branch: the input has already moved past `e`, and the next entry decides. A version of the
same key in the same snapshot stripe is dropped with the single deletion when a record of the key was already
output in this snapshot or no earlier write-conflict snapshot needs it (rules 1 and 2 of the source); otherwise the
single deletion is kept and the version after it is kept with its value cleared (optimization 3) -/
def singleDeletion (st : CompactionIterator K) (e : CompactionEntry K) (rest : List (CompactionEntry K))
    (prevSnapshot : ℕ) : LoopStep (CompactionIterator K) :=
  let st := { st with input := rest }
  match rest with
  | [] => singleDeletionAtEnd o st e
  | w :: rest' =>
    if w.userKey = e.userKey then
      if st.lastKeySeqZeroed then .again { st with input := rest' }
      else if prevSnapshot = 0 ∨ prevSnapshot < w.sequence then
        match w.type with
        -- two single deletions in a row: skip the first, the next turn decides the second
        | .kTypeSingleDeletion => .again st
        | .kTypeDeletion =>
          if o.enforceSingleDelContracts then .done { st with valid := false, status := .corruption singleDelMismatchMessage }
          else .again st
        | .kTypeValue =>
          if st.hasOutputtedKey ∨ e.sequence ≤ o.earliestWriteConflictSnapshot ∨
              (o.earliestSnapshot < o.earliestWriteConflictSnapshot ∧ e.sequence ≤ o.earliestSnapshot) then
            .again { st with input := rest' }
          else .done { st with valid := true, atNext := true, clearAndOutputNextKey := true }
      -- the next version is in an older snapshot stripe: the single deletion is kept
      else .done { st with valid := true, atNext := true }
    else singleDeletionAtEnd o st e

/-- a deletion at the bottommost level: skip the versions of its key in its snapshot stripe, and keep the deletion
only if an older version of the key is left -/
def bottommostDeletion (st : CompactionIterator K) (e : CompactionEntry K) (rest : List (CompactionEntry K))
    (prevSnapshot : ℕ) : LoopStep (CompactionIterator K) :=
  let rest' := rest.dropWhile fun w => w.userKey = e.userKey ∧ (prevSnapshot = 0 ∨ prevSnapshot < w.sequence)
  match rest' with
  | [] => .again { st with input := [] }
  | w :: _ =>
    if w.userKey = e.userKey then .done { st with input := rest', valid := true, atNext := true }
    else .again { st with input := rest' }

/-- the first version of a user key: no newer version of it was seen, in no snapshot, and none was output -/
def CompactionIterator.startUserKey (st : CompactionIterator K) (k : K) : CompactionIterator K :=
  { st with currentUserKeySequence := kMaxSequenceNumber, currentUserKeySnapshot := 0, hasCurrentUserKey := true,
            currentUserKey := some k, hasOutputtedKey := false, lastKeySeqZeroed := false }

def CompactionIterator.isNewUserKey (st : CompactionIterator K) (k : K) : Bool :=
  !st.hasCurrentUserKey || st.currentUserKey != some k

/-- the bookkeeping at the top of a turn: the first version of a user key starts it afresh -/
def CompactionIterator.atUserKey (st : CompactionIterator K) (k : K) : CompactionIterator K :=
  if st.isNewUserKey k then st.startUserKey k else st

/-- the earliest snapshot an entry at `seq` is visible in and the snapshot before it (`visible_at_tip_` when there
are none) -/
def CompactionIteratorOptions.visibleSnapshot (seq : ℕ) : ℕ × ℕ :=
  if o.visibleAtTip then (o.earliestSnapshot, 0) else findEarliestVisibleSnapshot o.snapshots seq

/-- the entry becomes `ikey_`; its sequence number and the earliest snapshot it is visible in become the current
user key's -/
def CompactionIterator.enter (st : CompactionIterator K) (e : CompactionEntry K) : CompactionIterator K :=
  { st with ikey := some e, currentUserKeySequence := e.sequence,
            currentUserKeySnapshot := (o.visibleSnapshot e.sequence).1 }

/-- one turn of the loop of `NextFromInput` on the entry `e` the input is at, `rest` after it -/
def processInput (st : CompactionIterator K) (e : CompactionEntry K) (rest : List (CompactionEntry K)) :
    LoopStep (CompactionIterator K) :=
  let st := st.atUserKey e.userKey
  let lastSnapshot := st.currentUserKeySnapshot
  let prevSnapshot := (o.visibleSnapshot e.sequence).2
  let st := st.enter o e
  if st.clearAndOutputNextKey then
    .done { st with ikey := some { e with value := [] }, valid := true, clearAndOutputNextKey := false }
  else if e.type = .kTypeSingleDeletion then singleDeletion o st e rest prevSnapshot
  -- rule (A): a newer version of the key was seen in the same snapshot stripe
  else if lastSnapshot = st.currentUserKeySnapshot ∨
      (0 < lastSnapshot ∧ lastSnapshot < st.currentUserKeySnapshot) then .again { st with input := rest }
  else if e.type = .kTypeDeletion ∧ e.sequence ≤ o.earliestSnapshot ∧ o.keyNotExistsBeyondOutputLevel e.userKey then
    .again { st with input := rest }
  else if e.type = .kTypeDeletion ∧ o.bottommostLevel then bottommostDeletion st e rest prevSnapshot
  else .done { st with valid := true }

omit [DecidableEq K] in
@[simp] theorem CompactionIterator.enter_input (st : CompactionIterator K) (e : CompactionEntry K) :
    (st.enter o e).input = st.input := rfl
omit [DecidableEq K] in
@[simp] theorem CompactionIterator.enter_atNext (st : CompactionIterator K) (e : CompactionEntry K) :
    (st.enter o e).atNext = st.atNext := rfl
omit [DecidableEq K] in
@[simp] theorem CompactionIterator.enter_valid (st : CompactionIterator K) (e : CompactionEntry K) :
    (st.enter o e).valid = st.valid := rfl
@[simp] theorem CompactionIterator.atUserKey_input (st : CompactionIterator K) (k : K) :
    (st.atUserKey k).input = st.input := by
  unfold CompactionIterator.atUserKey; split <;> rfl
@[simp] theorem CompactionIterator.atUserKey_atNext (st : CompactionIterator K) (k : K) :
    (st.atUserKey k).atNext = st.atNext := by
  unfold CompactionIterator.atUserKey; split <;> rfl
@[simp] theorem CompactionIterator.atUserKey_valid (st : CompactionIterator K) (k : K) :
    (st.atUserKey k).valid = st.valid := by
  unfold CompactionIterator.atUserKey; split <;> rfl

/-- what a turn of the loop leaves, against the state `st` it started from and a bound on what is left to read:
reading on, the iterator is still invalid and not past an entry, as `st` was; either way the input is within the
bound -/
def LoopStep.Within (st : CompactionIterator K) (bound : ℕ) : LoopStep (CompactionIterator K) → Prop
  | .again st' => st'.atNext = st.atNext ∧ st'.valid = st.valid ∧ st'.input.length ≤ bound
  | .done st' => st'.input.length ≤ bound

omit [DecidableEq K] in
theorem singleDeletionAtEnd_within (st : CompactionIterator K) (e : CompactionEntry K) :
    (singleDeletionAtEnd o st e).Within st st.input.length := by
  simp only [singleDeletionAtEnd]
  split_ifs
  · exact ⟨rfl, rfl, le_rfl⟩
  · exact ⟨rfl, rfl, le_rfl⟩
  · exact le_rfl

theorem singleDeletion_within (st : CompactionIterator K) (e : CompactionEntry K) (rest : List (CompactionEntry K))
    (prevSnapshot : ℕ) : (singleDeletion o st e rest prevSnapshot).Within st rest.length := by
  simp only [singleDeletion]
  split
  · exact singleDeletionAtEnd_within o _ e
  · rename_i w rest'
    have hshort : rest'.length ≤ (w :: rest').length := by simp
    split
    · split
      · exact ⟨rfl, rfl, hshort⟩
      · split
        · split
          · exact ⟨rfl, rfl, le_rfl⟩
          · split
            · exact le_rfl
            · exact ⟨rfl, rfl, le_rfl⟩
          · split
            · exact ⟨rfl, rfl, hshort⟩
            · exact le_rfl
        · exact le_rfl
    · exact singleDeletionAtEnd_within o _ e

theorem bottommostDeletion_within (st : CompactionIterator K) (e : CompactionEntry K)
    (rest : List (CompactionEntry K)) (prevSnapshot : ℕ) :
    (bottommostDeletion st e rest prevSnapshot).Within st rest.length := by
  simp only [bottommostDeletion]
  have hdrop := (List.dropWhile_sublist (fun w : CompactionEntry K =>
    decide (w.userKey = e.userKey ∧ (prevSnapshot = 0 ∨ prevSnapshot < w.sequence))) (l := rest)).length_le
  split
  · exact ⟨rfl, rfl, by simp⟩
  · split
    · exact hdrop
    · exact ⟨rfl, rfl, hdrop⟩

/-- a turn that reads on has read the entry it was at and leaves the iterator as the loop found it -/
theorem processInput_again {st st' : CompactionIterator K} {e : CompactionEntry K}
    {rest : List (CompactionEntry K)} (h : processInput o st e rest = .again st') :
    st'.atNext = st.atNext ∧ st'.valid = st.valid ∧ st'.input.length ≤ rest.length := by
  simp only [processInput] at h
  split at h
  · cases h
  · split at h
    · have hw := singleDeletion_within o ((st.atUserKey e.userKey).enter o e) e rest (o.visibleSnapshot e.sequence).2
      rw [h] at hw
      simpa [LoopStep.Within] using hw
    · split at h
      · cases h; simp
      · split at h
        · cases h; simp
        · split at h
          · have hw := bottommostDeletion_within ((st.atUserKey e.userKey).enter o e) e rest
              (o.visibleSnapshot e.sequence).2
            rw [h] at hw
            simpa [LoopStep.Within] using hw
          · cases h

/-- a turn that stops leaves the entry it kept unread, or has read it and says so with `atNext` -/
theorem processInput_done_measure {st st' : CompactionIterator K} {e : CompactionEntry K}
    {rest : List (CompactionEntry K)} (hin : st.input = e :: rest) (hat : st.atNext = false)
    (h : processInput o st e rest = .done st') :
    st'.input.length + (if st'.atNext then 1 else 0) ≤ rest.length + 1 := by
  have hbit : (if st'.atNext then 1 else 0) ≤ 1 := by split <;> omega
  simp only [processInput] at h
  split at h
  · cases h; simp [hin, hat]
  · split at h
    · have hw := singleDeletion_within o ((st.atUserKey e.userKey).enter o e) e rest (o.visibleSnapshot e.sequence).2
      rw [h] at hw
      have hlen : st'.input.length ≤ rest.length := hw
      omega
    · split at h
      · cases h
      · split at h
        · cases h
        · split at h
          · have hw := bottommostDeletion_within ((st.atUserKey e.userKey).enter o e) e rest
              (o.visibleSnapshot e.sequence).2
            rw [h] at hw
            have hlen : st'.input.length ≤ rest.length := hw
            omega
          · cases h; simp [hin, hat]

/-- the `while` loop of `NextFromInput` -/
def nextFromInputLoop (st : CompactionIterator K) : CompactionIterator K :=
  if st.valid then st
  else
    match _hin : st.input with
    | [] => st
    | e :: rest =>
      match _hp : processInput o st e rest with
      | .again st' => nextFromInputLoop st'
      | .done st' => st'
termination_by st.input.length
decreasing_by
  rw [_hin, List.length_cons]
  exact Nat.lt_succ_of_le (processInput_again o _hp).2.2


theorem nextFromInputLoop_of_valid {st : CompactionIterator K} (h : st.valid = true) :
    nextFromInputLoop o st = st := by
  rw [nextFromInputLoop, if_pos h]

theorem nextFromInputLoop_nil {st : CompactionIterator K} (h : st.input = []) : nextFromInputLoop o st = st := by
  rw [nextFromInputLoop]
  split
  · rfl
  · split
    · rfl
    · rename_i e rest hin
      rw [h] at hin
      cases hin

theorem nextFromInputLoop_again {st st' : CompactionIterator K} {e : CompactionEntry K}
    {rest : List (CompactionEntry K)} (hv : ¬st.valid = true) (hin : st.input = e :: rest)
    (hp : processInput o st e rest = .again st') : nextFromInputLoop o st = nextFromInputLoop o st' := by
  rw [nextFromInputLoop, if_neg hv]
  split
  · rename_i hnil
    rw [hin] at hnil
    cases hnil
  · rename_i e' rest' hin'
    rw [hin] at hin'
    cases hin'
    split
    · rename_i st'' hp'
      rw [hp] at hp'
      cases hp'
      rfl
    · rename_i st'' hp'
      rw [hp] at hp'
      cases hp'

theorem nextFromInputLoop_done {st st' : CompactionIterator K} {e : CompactionEntry K}
    {rest : List (CompactionEntry K)} (hv : ¬st.valid = true) (hin : st.input = e :: rest)
    (hp : processInput o st e rest = .done st') : nextFromInputLoop o st = st' := by
  rw [nextFromInputLoop, if_neg hv]
  split
  · rename_i hnil
    rw [hin] at hnil
    cases hnil
  · rename_i e' rest' hin'
    rw [hin] at hin'
    cases hin'
    split
    · rename_i st'' hp'
      rw [hp] at hp'
      cases hp'
    · rename_i st'' hp'
      rw [hp] at hp'
      cases hp'
      rfl

/-- the loop reads on while it has not stopped: what it leaves unread, with the entry it is past when `atNext`,
is at most what it was given -/
theorem nextFromInputLoop_measure (st : CompactionIterator K) (hat : st.atNext = false) :
    (nextFromInputLoop o st).input.length + (if (nextFromInputLoop o st).atNext then 1 else 0) ≤
      st.input.length := by
  induction st using nextFromInputLoop.induct o with
  | case1 st hv => rw [nextFromInputLoop_of_valid o hv, hat]; simp
  | case2 st hv hin => rw [nextFromInputLoop_nil o hin, hat]; simp
  | case3 st hv e rest hin st' hp ih =>
    obtain ⟨hat', -, hlen⟩ := processInput_again o hp
    have := ih (hat'.trans hat)
    rw [nextFromInputLoop_again o hv hin hp, hin, List.length_cons]
    omega
  | case4 st hv e rest hin st' hp =>
    rw [nextFromInputLoop_done o hv hin hp, hin, List.length_cons]
    exact processInput_done_measure o hin hat hp

/-- `NextFromInput` -/
def nextFromInput (st : CompactionIterator K) : CompactionIterator K :=
  nextFromInputLoop o { st with atNext := false, valid := false }

/-- `PrepareOutput`: the sequence number of an entry kept at the bottommost level, in the earliest snapshot, is
zeroed. The source logs a fatal error and asserts when that entry is a deletion; past the assertion it zeroes it
all the same, as here. -/
def prepareOutput (st : CompactionIterator K) : CompactionIterator K :=
  match st.valid, st.ikey with
  | true, some e =>
    if o.compaction.isSome ∧ !o.allowIngestBehind ∧ o.bottommostLevel ∧ e.sequence ≤ o.earliestSnapshot ∧
        e.sequence < o.preserveTimeMinSeqno then
      { st with ikey := some { e with sequence := 0 }, lastKeySeqZeroed := true }
    else st
  | _, _ => st

/-- `CompactionIterator::Next` without merge output -/
def next (st : CompactionIterator K) : CompactionIterator K :=
  let st := if st.atNext then st else { st with input := st.input.tail }
  let st := nextFromInput o st
  let st := if st.valid then { st with hasOutputtedKey := true } else st
  prepareOutput o st

/-- `CompactionIterator::SeekToFirst` -/
def seekToFirst (st : CompactionIterator K) : CompactionIterator K := prepareOutput o (nextFromInput o st)

/-- the entries left to read, with the one the iterator is at when it has not yet moved past it -/
def CompactionIterator.pending (st : CompactionIterator K) : ℕ :=
  st.input.length + (if st.atNext then 1 else 0) + (if st.valid then 1 else 0)

omit [DecidableEq K] in
theorem prepareOutput_pending (st : CompactionIterator K) : (prepareOutput o st).pending = st.pending := by
  unfold prepareOutput
  split
  · split <;> rfl
  · rfl

/-- `NextFromInput` leaves at most one entry more pending than it had to read -/
theorem nextFromInput_pending (st : CompactionIterator K) :
    (nextFromInput o st).pending ≤ st.input.length + 1 := by
  have hr := nextFromInputLoop_measure o { st with atNext := false, valid := false } rfl
  dsimp only at hr
  have hvalid : (if (nextFromInput o st).valid then 1 else 0) ≤ 1 := by split <;> omega
  unfold CompactionIterator.pending
  unfold nextFromInput at hvalid ⊢
  omega

/-- with nothing to read, `NextFromInput` leaves the iterator invalid -/
theorem nextFromInput_pending_of_nil {st : CompactionIterator K} (h : st.input = []) :
    (nextFromInput o st).pending = 0 := by
  rw [nextFromInput, nextFromInputLoop_nil o (by simpa using h)]
  simp [CompactionIterator.pending, h]

theorem next_pending (st : CompactionIterator K) :
    (next o st).pending =
      (nextFromInput o (if st.atNext then st else { st with input := st.input.tail })).pending := by
  have hmark : ∀ x : CompactionIterator K,
      (if x.valid then { x with hasOutputtedKey := true } else x).pending = x.pending := by
    intro x
    split <;> rfl
  unfold next
  rw [prepareOutput_pending, hmark]

/-- `Next` from a valid iterator moves on: it reads the entry it was at, or is already past it -/
theorem next_pending_lt (st : CompactionIterator K) (hv : st.valid = true) : (next o st).pending < st.pending := by
  rw [next_pending]
  have hvbit : (if st.valid then 1 else 0) = 1 := if_pos hv
  show _ < st.input.length + (if st.atNext then 1 else 0) + (if st.valid then 1 else 0)
  by_cases hat : st.atNext = true
  · have h := nextFromInput_pending o st
    have hbit : (if st.atNext then 1 else 0) = 1 := if_pos hat
    rw [if_pos hat]
    omega
  · have hbit : (if st.atNext then 1 else 0) = 0 := if_neg hat
    rw [if_neg hat]
    by_cases hnil : st.input = []
    · -- nothing left to read: the loop does not run and the iterator is invalid
      have hx : ({ st with input := st.input.tail } : CompactionIterator K).input = [] := by simp [hnil]
      have h := nextFromInput_pending_of_nil o hx
      omega
    · have h := nextFromInput_pending o { st with input := st.input.tail }
      have hlen : ({ st with input := st.input.tail } : CompactionIterator K).input.length + 1 = st.input.length := by
        have := List.length_pos_iff.2 hnil
        simp only [List.length_tail]
        omega
      omega

/-- the compaction's loop over the iterator (`CompactionJob::ProcessKeyValueCompaction`): the entry the iterator is
at while it is valid, then `Next`; and the iterator's status at the end -/
def compactionLoop (st : CompactionIterator K) : List (CompactionEntry K) × Status :=
  if _hv : st.valid = true then
    let r := compactionLoop (next o st)
    (st.ikey.toList ++ r.1, r.2)
  else ([], st.status)
termination_by st.pending
decreasing_by exact next_pending_lt o st _hv

/-- the entries a compaction of `input` writes, and its status -/
def compactionOutput (input : List (CompactionEntry K)) : List (CompactionEntry K) × Status :=
  compactionLoop o (seekToFirst o (CompactionIterator.create input))

end loop

end ForSt
