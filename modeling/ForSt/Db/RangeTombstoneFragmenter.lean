import Mathlib.Data.List.Sort
import ForSt.Lib.Containers
import ForSt.Db.Dbformat
/-!
Fragmenting range tombstones (`db/range_tombstone_fragmenter.cc`): `FragmentedRangeTombstoneList` cuts overlapping
tombstones `[start, end)@seq` into disjoint fragments, each with the sequence numbers of every tombstone over it.

A tombstone is its start user key, sequence number and end user key; user keys carry no timestamp, so the timestamp
branches are left out. A `RangeTombstoneStack` carries its slice of `tombstone_seqs_` as a list. `FragmentTombstones`
sweeps the tombstones in start order, keeping in `cur_end_keys` the end keys of those started; when the start key
moves on, `flush_current_tombstones` emits the fragments up to it, cutting at each end key, and drops those passed.
-/

namespace ForSt

open ForSt.Containers

/-- a range tombstone of the unfragmented iterator -/
structure RangeTombstone (UK : Type) where
  startKey : UK
  seq : ℕ
  endKey : UK
deriving DecidableEq, Repr

/-- `RangeTombstoneStack`, with its sequence numbers -/
structure RangeTombstoneStack (UK : Type) where
  startKey : UK
  endKey : UK
  seqs : List ℕ
deriving DecidableEq, Repr

variable {UK : Type} [LinearOrder UK]

/-- `icmp.Compare(a, b) > 0` on the start internal keys of two tombstones: user keys ascending, then sequence
numbers descending -/
def startKeyGt (a b : RangeTombstone UK) : Bool :=
  b.startKey < a.startKey || (a.startKey == b.startKey && a.seq < b.seq)

/-- the first loop of the constructor: `is_sorted` stays true while no start key is above the next -/
def isSorted : List (RangeTombstone UK) → Bool
  | a :: b :: rest => !startKeyGt a b && isSorted (b :: rest)
  | _ => true

/-- the order of `cur_end_keys` (`ParsedInternalKeyComparator` on end keys of type `kTypeRangeDeletion`): end user
keys ascending, then sequence numbers descending -/
def endKeyLt (a b : UK × ℕ) : Bool := a.1 < b.1 || (a.1 == b.1 && b.2 < a.2)

/-- the snapshot loop of the `for_compaction` branch over the sequence numbers in descending order: a sequence
number is kept when it is the newest below the next snapshot up, and the loop stops at the one the earliest snapshot
sees -/
def keepVisibleSeqnums (snapshots : List ℕ) : ℕ → List ℕ → List ℕ
  | _, [] => []
  | nextSnapshot, seq :: rest =>
    if seq ≤ nextSnapshot then
      -- `std::lower_bound`: the first snapshot not below `seq`
      let upperBound := snapshots.findIdx (fun s => seq ≤ s)
      if upperBound = 0 then [seq]
      else seq :: keepVisibleSeqnums snapshots (snapshots.getD (upperBound - 1) 0) rest
    else keepVisibleSeqnums snapshots nextSnapshot rest

/-- the sequence numbers `tombstone_seqs_` gets for a fragment: those of the end keys from `it` on, sorted in
descending order (`std::sort` with `std::greater`), all of them for reads and the visible ones for a compaction -/
def flushedSeqnums (forCompaction : Bool) (snapshots : List ℕ) (endKeys : List (UK × ℕ)) : List ℕ :=
  let seqnumsToFlush := (endKeys.map (·.2)).insertionSort (fun a b => a ≥ b)
  if forCompaction then keepVisibleSeqnums snapshots kMaxSequenceNumber seqnumsToFlush else seqnumsToFlush

/-- the loop of `flush_current_tombstones` from the end key `it` on, with `cur_start_key` and the fragments so far:
the fragments, and the end keys from `it` on when it reached `next_start_key` (the loop then erases the ones before
`it`) -/
def flushLoop (forCompaction : Bool) (snapshots : List ℕ) (nextStartKey : UK) :
    UK → List (UK × ℕ) → List (RangeTombstoneStack UK) →
      List (RangeTombstoneStack UK) × Option (List (UK × ℕ))
  | _, [], tombstones => (tombstones, none)
  | curStartKey, it :: rest, tombstones =>
    if curStartKey = it.1 then
      -- empty tombstone
      flushLoop forCompaction snapshots nextStartKey curStartKey rest tombstones
    else if nextStartKey ≤ it.1 then
      -- the end keys from `it` on reach past `next_start_key`: one last fragment up to it
      (tombstones ++ [⟨curStartKey, nextStartKey, flushedSeqnums forCompaction snapshots (it :: rest)⟩],
        some (it :: rest))
    else
      flushLoop forCompaction snapshots nextStartKey it.1 rest
        (tombstones ++ [⟨curStartKey, it.1, flushedSeqnums forCompaction snapshots (it :: rest)⟩])

/-- the variables of `FragmentTombstones` that the sweep updates: `cur_start_key`, `cur_end_keys` and `tombstones_` -/
structure FragmenterState (UK : Type) where
  curStartKey : UK
  curEndKeys : List (UK × ℕ)
  tombstones : List (RangeTombstoneStack UK)

/-- `flush_current_tombstones(next_start_key)`: when the loop ran out of end keys it clears the set -/
def FragmenterState.flushCurrentTombstones (forCompaction : Bool) (snapshots : List ℕ) (st : FragmenterState UK)
    (nextStartKey : UK) : FragmenterState UK :=
  let r := flushLoop forCompaction snapshots nextStartKey st.curStartKey st.curEndKeys st.tombstones
  ⟨nextStartKey, r.2.getD [], r.1⟩

/-- one tombstone of the main loop of `FragmentTombstones` -/
def FragmenterState.addTombstone (forCompaction : Bool) (snapshots : List ℕ) (st : FragmenterState UK)
    (t : RangeTombstone UK) : FragmenterState UK :=
  -- the start key has changed: flush all tombstones that start before this new start key
  let st := if st.curEndKeys ≠ [] ∧ st.curStartKey ≠ t.startKey then
      st.flushCurrentTombstones forCompaction snapshots t.startKey
    else st
  { st with curStartKey := t.startKey, curEndKeys := setEmplace endKeyLt (t.endKey, t.seq) st.curEndKeys }

/-- the main loop of `FragmentTombstones` over the tombstones -/
def FragmenterState.addTombstones (forCompaction : Bool) (snapshots : List ℕ) :
    FragmenterState UK → List (RangeTombstone UK) → FragmenterState UK
  | st, [] => st
  | st, t :: ts => addTombstones forCompaction snapshots (st.addTombstone forCompaction snapshots t) ts

/-- `FragmentedRangeTombstoneList::FragmentTombstones`: the fragments `tombstones_`. `cur_start_key` is first read
once the first tombstone has set it, so the sweep starts at that tombstone's start key -/
def fragmentTombstones (forCompaction : Bool) (snapshots : List ℕ) :
    List (RangeTombstone UK) → List (RangeTombstoneStack UK)
  | [] => []
  | t :: ts =>
    let st := FragmenterState.addTombstones forCompaction snapshots ⟨t.startKey, [], []⟩ (t :: ts)
    -- the last flush runs to the largest end key in the set
    match st.curEndKeys.getLast? with
    | some lastEndKey => (st.flushCurrentTombstones forCompaction snapshots lastEndKey.1).tombstones
    | none => st.tombstones

/-- the constructor of `FragmentedRangeTombstoneList`: tombstones out of order are sorted first (`VectorIterator`
sorts by the internal key comparator; `std::sort` is one sort, insertion sort another) -/
def fragmentedRangeTombstoneList (forCompaction : Bool) (snapshots : List ℕ)
    (unfragmentedTombstones : List (RangeTombstone UK)) : List (RangeTombstoneStack UK) :=
  if isSorted unfragmentedTombstones then fragmentTombstones forCompaction snapshots unfragmentedTombstones
  else fragmentTombstones forCompaction snapshots
    (unfragmentedTombstones.insertionSort (fun a b => startKeyGt a b = false))

/-- `SeekToCoveringTombstone`: `std::upper_bound` by end key, the first fragment that ends past the target -/
def seekToCoveringTombstone (tombstones : List (RangeTombstoneStack UK)) (target : UK) :
    Option (RangeTombstoneStack UK) :=
  tombstones.find? (fun t => target < t.endKey)

/-- `SetMaxVisibleSeqAndTimestamp`: `std::lower_bound` with `std::greater` on the descending sequence numbers, the
first one not above `upper_bound_` -/
def setMaxVisibleSeq (upperBound : ℕ) (pos : RangeTombstoneStack UK) : Option ℕ :=
  pos.seqs.find? (fun s => s ≤ upperBound)

/-- `FragmentedRangeTombstoneIterator::MaxCoveringTombstoneSeqnum` on an iterator with `upper_bound_ = upperBound` -/
def maxCoveringTombstoneSeqnum (tombstones : List (RangeTombstoneStack UK)) (upperBound : ℕ)
    (targetUserKey : UK) : ℕ :=
  match seekToCoveringTombstone tombstones targetUserKey with
  -- all tombstones end before the target
  | none => 0
  | some pos =>
    match setMaxVisibleSeq upperBound pos with
    | none => 0
    | some seq => if pos.startKey ≤ targetUserKey then seq else 0

end ForSt
