import ForSt.Db.RangeTombstoneFragmenter
/-!
The top-level positioning of `FragmentedRangeTombstoneIterator` (`db/range_tombstone_fragmenter.cc`): the calls that
move over whole fragments and stop on the newest sequence number each has not above `upper_bound_`, skipping a
fragment where it is below `lower_bound_` (`SeekToTopFirst`, `TopNext`, `SeekToTopLast`, `TopPrev`, `Seek`,
`SeekForPrev`).

`pos_` is an index into the fragments. `SetMaxVisibleSeqAndTimestamp` sets `seq_pos_` inside the slice of
`tombstone_seqs_` that belongs to `pos_`, and the calls here read it only there, so it is kept as an index into that
fragment's numbers; `Invalidate` puts it at the end, which no top-level call reads while `pos_` is at the end (0
here). User keys carry no timestamp, so the timestamp branch is left out. `std::upper_bound` over fragments in order
is the index of the first fragment whose key is above the target.

The scan loops move `pos_` by one fragment a turn, so the number of fragments is their fuel. A reader that calls
`TopNext` until the iterator is invalid (`VerifyVisibleTombstones` of the tests) is `topForward`; with `TopPrev`,
`topBackward`.
-/

namespace ForSt

/-- the fields of `FragmentedRangeTombstoneIterator` its top-level calls read and update -/
structure FragmentedRangeTombstoneIterator (UK : Type) where
  tombstones : List (RangeTombstoneStack UK)
  upperBound : ℕ
  lowerBound : ℕ
  pos : ℕ
  seqPos : ℕ

namespace FragmentedRangeTombstoneIterator

variable {UK : Type} [LinearOrder UK]

/-- `Invalidate` -/
def invalidate (it : FragmentedRangeTombstoneIterator UK) : FragmentedRangeTombstoneIterator UK :=
  { it with pos := it.tombstones.length, seqPos := 0 }

/-- the constructor: the iterator starts invalid -/
def create (tombstones : List (RangeTombstoneStack UK)) (upperBound lowerBound : ℕ) :
    FragmentedRangeTombstoneIterator UK :=
  invalidate ⟨tombstones, upperBound, lowerBound, 0, 0⟩

/-- `Valid` -/
def valid (it : FragmentedRangeTombstoneIterator UK) : Bool := it.pos != it.tombstones.length

/-- the sequence numbers `[seq_start_idx, seq_end_idx)` of the fragment at `pos_` -/
def posSeqs (it : FragmentedRangeTombstoneIterator UK) : List ℕ := (it.tombstones[it.pos]?.map (·.seqs)).getD []

/-- `Tombstone()`: the start key, end key and sequence number at `pos_` and `seq_pos_` -/
def tombstone (it : FragmentedRangeTombstoneIterator UK) : Option (RangeTombstone UK) := do
  let f ← it.tombstones[it.pos]?
  let seq ← f.seqs[it.seqPos]?
  pure ⟨f.startKey, seq, f.endKey⟩

/-- `SetMaxVisibleSeqAndTimestamp`: `std::lower_bound` with `std::greater` on the fragment's sequence numbers, the
first one not above `upper_bound_` -/
def setMaxVisibleSeqAndTimestamp (it : FragmentedRangeTombstoneIterator UK) : FragmentedRangeTombstoneIterator UK :=
  { it with seqPos := it.posSeqs.findIdx (fun s => decide (s ≤ it.upperBound)) }

/-- the test of both scan loops: `seq_pos_` is at the end of the fragment's sequence numbers, or below
`lower_bound_` -/
def notVisible (it : FragmentedRangeTombstoneIterator UK) : Bool :=
  it.seqPos == it.posSeqs.length || decide (it.posSeqs.getD it.seqPos 0 < it.lowerBound)

/-- `ScanForwardToVisibleTombstone` -/
def scanForwardToVisibleTombstone :
    ℕ → FragmentedRangeTombstoneIterator UK → FragmentedRangeTombstoneIterator UK
  | 0, it => it
  | fuel + 1, it =>
    if it.pos != it.tombstones.length && it.notVisible then
      let it := { it with pos := it.pos + 1 }
      if it.pos = it.tombstones.length then it.invalidate
      else scanForwardToVisibleTombstone fuel it.setMaxVisibleSeqAndTimestamp
    else it

/-- `ScanBackwardToVisibleTombstone` -/
def scanBackwardToVisibleTombstone :
    ℕ → FragmentedRangeTombstoneIterator UK → FragmentedRangeTombstoneIterator UK
  | 0, it => it
  | fuel + 1, it =>
    if it.pos != it.tombstones.length && it.notVisible then
      if it.pos = 0 then it.invalidate
      else scanBackwardToVisibleTombstone fuel (setMaxVisibleSeqAndTimestamp { it with pos := it.pos - 1 })
    else it

/-- `SeekToTopFirst` -/
def seekToTopFirst (it : FragmentedRangeTombstoneIterator UK) : FragmentedRangeTombstoneIterator UK :=
  if it.tombstones.isEmpty then it.invalidate
  else scanForwardToVisibleTombstone it.tombstones.length (setMaxVisibleSeqAndTimestamp { it with pos := 0 })

/-- `TopNext` -/
def topNext (it : FragmentedRangeTombstoneIterator UK) : FragmentedRangeTombstoneIterator UK :=
  let it := { it with pos := it.pos + 1 }
  if it.pos = it.tombstones.length then it
  else scanForwardToVisibleTombstone it.tombstones.length it.setMaxVisibleSeqAndTimestamp

/-- `SeekToTopLast` -/
def seekToTopLast (it : FragmentedRangeTombstoneIterator UK) : FragmentedRangeTombstoneIterator UK :=
  if it.tombstones.isEmpty then it.invalidate
  else scanBackwardToVisibleTombstone it.tombstones.length
    (setMaxVisibleSeqAndTimestamp { it with pos := it.tombstones.length - 1 })

/-- `TopPrev` -/
def topPrev (it : FragmentedRangeTombstoneIterator UK) : FragmentedRangeTombstoneIterator UK :=
  if it.pos = 0 then it.invalidate
  else scanBackwardToVisibleTombstone it.tombstones.length
    (setMaxVisibleSeqAndTimestamp { it with pos := it.pos - 1 })

/-- `SeekToCoveringTombstone`: `std::upper_bound` by end key, the first fragment that ends past the target -/
def seekToCoveringTombstone (target : UK) (it : FragmentedRangeTombstoneIterator UK) :
    FragmentedRangeTombstoneIterator UK :=
  let it := { it with
    pos := it.tombstones.findIdx (fun f : RangeTombstoneStack UK => decide (target < f.endKey)) }
  -- all tombstones end before target: `seq_pos_ = tombstones_->seq_end()`
  if it.pos = it.tombstones.length then { it with seqPos := 0 }
  else it.setMaxVisibleSeqAndTimestamp

/-- `Seek` -/
def seek (target : UK) (it : FragmentedRangeTombstoneIterator UK) : FragmentedRangeTombstoneIterator UK :=
  if it.tombstones.isEmpty then it.invalidate
  else scanForwardToVisibleTombstone it.tombstones.length (it.seekToCoveringTombstone target)

/-- `SeekForPrevToCoveringTombstone`: `std::upper_bound` by start key, the first fragment that starts past the
target, and the fragment before it -/
def seekForPrevToCoveringTombstone (target : UK) (it : FragmentedRangeTombstoneIterator UK) :
    FragmentedRangeTombstoneIterator UK :=
  if it.tombstones.isEmpty then it.invalidate
  else
    let pos := it.tombstones.findIdx (fun f : RangeTombstoneStack UK => decide (target < f.startKey))
    -- all tombstones start after target
    if pos = 0 then it.invalidate
    else setMaxVisibleSeqAndTimestamp { it with pos := pos - 1 }

/-- `SeekForPrev` -/
def seekForPrev (target : UK) (it : FragmentedRangeTombstoneIterator UK) : FragmentedRangeTombstoneIterator UK :=
  if it.tombstones.isEmpty then it.invalidate
  else scanBackwardToVisibleTombstone it.tombstones.length (it.seekForPrevToCoveringTombstone target)

/-- a reader's loop: while the iterator is valid, read `Tombstone()` and call `TopNext` -/
def topForward : ℕ → FragmentedRangeTombstoneIterator UK → List (RangeTombstone UK)
  | 0, _ => []
  | fuel + 1, it => if it.valid then it.tombstone.toList ++ topForward fuel it.topNext else []

/-- a reader's loop: while the iterator is valid, read `Tombstone()` and call `TopPrev` -/
def topBackward : ℕ → FragmentedRangeTombstoneIterator UK → List (RangeTombstone UK)
  | 0, _ => []
  | fuel + 1, it => if it.valid then it.tombstone.toList ++ topBackward fuel it.topPrev else []

end FragmentedRangeTombstoneIterator

end ForSt
