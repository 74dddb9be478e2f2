import ForSt.Util.Coding
import ForSt.Util.Status
import ForSt.Lib.SortedSearch
/-!
`SeqnoToTimeMapping` (`db/seqno_to_time_mapping.h`, `.cc`): a sampled mapping from sequence numbers to write times,
kept as a deque of `(seqno, time)` pairs with an `is_sorted_` flag.

`Add(seqno, time)` appends a pair, dropping one with sequence number 0; `Add(pairs_str)` decodes a count and pairs
delta encoded from the pair before, and appends every pair it decodes. `Sort` sorts the pairs, drops the leading pairs
with sequence number 0, and in one pass keeps for each sequence number its latest time, dropping a pair whose time is
not later than the time kept before it.

`Encode(dest, start, end, now, output_size)` writes the pairs that answer queries from `start` to `end`: from one pair
before the pair before the first past `start` (past the pairs older than `now - max_time_duration_`, when that is
set) to the last pair not past `end`, of which a greedy loop picks some when there are more than `output_size`. It
writes their count and each pair as its delta from the one before, from `(0, 0)`.

`Append(seqno, time)` takes a pair later in sequence number and in time than the last, replaces the last pair's
sequence number when the time is the same, and pops the front past `max_capacity_` pairs. `TruncateOldEntries(now)`
erases the pairs before the last one not later than `now - max_time_duration_`.

Sequence numbers and times are natural numbers; the delta decoding adds modulo `2 ^ 64` and the encoding subtracts in
`UInt64`, as the source does, and the greedy loop counts in `int64_t`. `std::upper_bound` and `std::lower_bound` are
the index of the first pair past the bound (`List.findIdx`). `Sort` reads `copy.front()` after popping the pairs with
sequence number 0 without checking that the deque is not empty; `sort` is `none` where that read falls on an empty
deque. Its status is always OK, and is not modelled.
-/

namespace ForSt

open ForSt.Coding

/-- `SeqnoToTimeMapping::SeqnoTimePair` -/
structure SeqnoTimePair where
  seqno : ℕ
  time : ℕ
deriving DecidableEq, Repr, Inhabited

namespace SeqnoTimePair

/-- `operator<` made reflexive: by sequence number, then by time, as the tuple comparison of `std::tie` -/
def le (a b : SeqnoTimePair) : Prop := a.seqno < b.seqno ∨ (a.seqno = b.seqno ∧ a.time ≤ b.time)

instance : DecidableRel le := fun a b => inferInstanceAs (Decidable (a.seqno < b.seqno ∨ _))

/-- `ApplyDelta`: the fields are added in `uint64_t` -/
def applyDelta (v deltaOrBase : SeqnoTimePair) : SeqnoTimePair :=
  ⟨(v.seqno + deltaOrBase.seqno) % 2 ^ 64, (v.time + deltaOrBase.time) % 2 ^ 64⟩

/-- `SeqnoTimePair::Decode`: two varint64s -/
def decode (input : List UInt8) : Except Status (SeqnoTimePair × List UInt8) :=
  match getVarint64 input with
  | none => .error (.corruption "Invalid sequence number")
  | some (seqno, rest) =>
    match getVarint64 rest with
    | none => .error (.corruption "Invalid time")
    | some (time, rest') => .ok (⟨seqno.toNat, time.toNat⟩, rest')

/-- `ComputeDelta`: the fields are subtracted in `uint64_t` -/
def computeDelta (v base : SeqnoTimePair) : SeqnoTimePair :=
  ⟨(UInt64.ofNat v.seqno - UInt64.ofNat base.seqno).toNat, (UInt64.ofNat v.time - UInt64.ofNat base.time).toNat⟩

/-- `SeqnoTimePair::Encode`: `PutVarint64Varint64` of the two fields -/
def encode (p : SeqnoTimePair) : List UInt8 := putVarint64 (UInt64.ofNat p.seqno) ++ putVarint64 (UInt64.ofNat p.time)

end SeqnoTimePair

/-- the fields of `SeqnoToTimeMapping` its calls read and update -/
structure SeqnoToTimeMapping where
  maxTimeDuration : ℕ
  maxCapacity : ℕ
  pairs : List SeqnoTimePair
  isSorted : Bool
deriving DecidableEq, Repr

namespace SeqnoToTimeMapping

/-- the constructor: no pairs, and sorted -/
def create (maxTimeDuration maxCapacity : ℕ) : SeqnoToTimeMapping := ⟨maxTimeDuration, maxCapacity, [], true⟩

/-- `Add(seqno, time)`: a pair with sequence number 0 is dropped -/
def add (m : SeqnoToTimeMapping) (seqno time : ℕ) : SeqnoToTimeMapping :=
  if seqno = 0 then m else { m with isSorted := false, pairs := m.pairs ++ [⟨seqno, time⟩] }

/-- the loop of `Add(pairs_str)`: `size` pairs, each decoded as a delta from the one before and appended; a pair that
does not decode ends the loop with its status, and the pairs appended before it stay -/
def addDecodedLoop : ℕ → SeqnoTimePair → List UInt8 → List SeqnoTimePair → Status × List SeqnoTimePair
  | 0, _, _, pairs => (.ok, pairs)
  | size + 1, base, input, pairs =>
    match SeqnoTimePair.decode input with
    | .error s => (s, pairs)
    | .ok (val, rest) =>
      let val := val.applyDelta base
      addDecodedLoop size val rest (pairs ++ [val])

/-- `Add(pairs_str)`: the count, then the pairs; the mapping is marked unsorted once the count is read -/
def addEncoded (m : SeqnoToTimeMapping) (pairsStr : List UInt8) : Status × SeqnoToTimeMapping :=
  if pairsStr.isEmpty then (.ok, m)
  else
    match getVarint64 pairsStr with
    | none => (.corruption "Invalid sequence number time size", m)
    | some (size, input) =>
      let r := addDecodedLoop size.toNat ⟨0, 0⟩ input m.pairs
      (r.1, { m with isSorted := false, pairs := r.2 })

/-- the `while` loop of `Sort` that pops the pairs with sequence number 0; reading the front of an empty deque is
`none` -/
def dropLeadingZeros : List SeqnoTimePair → Option (List SeqnoTimePair)
  | [] => none
  | p :: rest => if p.seqno = 0 then dropLeadingZeros rest else some (p :: rest)

/-- one turn of the pass of `Sort` over the sorted copy: the pairs pushed so far and `prev` -/
def sortStep (acc : List SeqnoTimePair × SeqnoTimePair) (it : SeqnoTimePair) : List SeqnoTimePair × SeqnoTimePair :=
  -- the same sequence number again: its later time is the larger one
  if it.seqno = acc.2.seqno then (acc.1, { acc.2 with time := it.time })
  -- a larger sequence number with a time that is not later is of no use
  else if acc.2.time < it.time then (acc.1 ++ [acc.2], it)
  else acc

/-- `Sort`: `std::sort` by sequence number then time, the leading pairs with sequence number 0 popped, then the pass
from `prev = copy.front()` over the whole copy, and `prev` pushed at the end -/
def sort (m : SeqnoToTimeMapping) : Option SeqnoToTimeMapping :=
  if m.isSorted then some m
  else if m.pairs.isEmpty then some { m with isSorted := true }
  else
    match dropLeadingZeros (m.pairs.insertionSort SeqnoTimePair.le) with
    | some (prev :: rest) =>
      let r := (prev :: rest).foldl sortStep ([], prev)
      some { m with pairs := r.1 ++ [r.2], isSorted := true }
    | _ => none

/-- `FindGreaterSeqno`: the first pair with a larger sequence number -/
def findGreaterSeqno (m : SeqnoToTimeMapping) (seqno : ℕ) : ℕ := m.pairs.findIdx fun p => decide (seqno < p.seqno)

/-- `FindGreaterEqSeqno`: the first pair with a sequence number at least `seqno` -/
def findGreaterEqSeqno (m : SeqnoToTimeMapping) (seqno : ℕ) : ℕ := m.pairs.findIdx fun p => decide (seqno ≤ p.seqno)

/-- `kUnknownTimeBeforeAll` -/
def kUnknownTimeBeforeAll : ℕ := 0

/-- `GetProximalTimeBeforeSeqno`: the time of the last pair with a smaller sequence number -/
def getProximalTimeBeforeSeqno (m : SeqnoToTimeMapping) (seqno : ℕ) : ℕ :=
  let it := m.findGreaterEqSeqno seqno
  if it = 0 then kUnknownTimeBeforeAll else (m.pairs[it - 1]?.map SeqnoTimePair.time).getD kUnknownTimeBeforeAll

/-- the iterators `[start_it, end_it)` of `Encode` once the searches and the cut-off have placed them; `none` where
it returns before writing anything -/
def encodeRange (m : SeqnoToTimeMapping) (start endSeqno now : ℕ) : Option (ℕ × ℕ) :=
  -- an empty file: `start` is `kMaxSequenceNumber` and `end` is 0
  if start > endSeqno then none
  else
    let startIt := m.findGreaterSeqno start
    let startIt := if startIt ≠ 0 then startIt - 1 else startIt
    let endIt := m.findGreaterSeqno endSeqno
    if endIt = 0 then none
    else if startIt ≥ endIt then none
    else
      -- truncate old entries that are not needed
      let startIt :=
        if m.maxTimeDuration > 0 then
          let cutOffTime := if now > m.maxTimeDuration then now - m.maxTimeDuration else 0
          SortedSearch.advanceWhile
            (fun i => decide (i < endIt) && m.pairs[i]?.any fun p => decide (p.time < cutOffTime))
            m.pairs.length startIt
        else startIt
      -- to include the first element
      let startIt := if startIt ≠ 0 then startIt - 1 else startIt
      some (startIt, endIt)

/-- the pairs between the iterators of `Encode` before it picks from them; none where it returns before writing -/
def encodeWindow (m : SeqnoToTimeMapping) (start endSeqno now : ℕ) : List SeqnoTimePair :=
  match m.encodeRange start endSeqno now with
  | none => []
  | some (startIt, endIt) => (m.pairs.drop startIt).take (endIt - startIt)

/-- the loop of `Encode` that picks from the pairs `[it, end_it)` when there are more than `output_size`: a pair is
skipped while more pairs are left than are still to fill and its time is before `skip_until_time`; after each pick,
while pairs are still to fill, the bound moves on by an even share of the time left to `end_time` -/
def pickLoop (endTime : ℕ) : List SeqnoTimePair → ℤ → ℕ → List SeqnoTimePair
  | [], _, _ => []
  | it :: rest, numEntriesToFill, skipUntilTime =>
    -- `std::distance(it, end_it)` counts `it` itself
    if (rest.length + 1 : ℤ) > numEntriesToFill ∧ it.time < skipUntilTime then
      pickLoop endTime rest numEntriesToFill skipUntilTime
    else
      let numEntriesToFill := numEntriesToFill - 1
      let skipUntilTime :=
        if (rest.length + 1 : ℤ) > numEntriesToFill ∧ numEntriesToFill > 0 then
          (UInt64.ofNat it.time +
            (UInt64.ofNat endTime - UInt64.ofNat it.time) / UInt64.ofNat numEntriesToFill.toNat).toNat
        else skipUntilTime
      it :: pickLoop endTime rest numEntriesToFill skipUntilTime

/-- the pairs `Encode` writes from the iterators `[start_it, end_it)`: all of them, or those the loop picks when there
are more than `output_size`, compared as `int64_t` -/
def encodeOutput (m : SeqnoToTimeMapping) (outputSize : UInt64) (startIt endIt : ℕ) : List SeqnoTimePair :=
  let window := (m.pairs.drop startIt).take (endIt - startIt)
  if (window.length : ℤ) > outputSize.toInt64.toInt then
    pickLoop ((m.pairs[endIt - 1]?.map SeqnoTimePair.time).getD 0) window outputSize.toInt64.toInt 0
  else window

/-- the delta-encoding loop of `Encode`: each pair as its delta from the pair before it, from `base` -/
def deltaEncode : SeqnoTimePair → List SeqnoTimePair → List UInt8
  | _, [] => []
  | base, it :: rest => (it.computeDelta base).encode ++ deltaEncode it rest

/-- `Encode(dest, start, end, now, output_size)`: the bytes it appends to `dest`, the count of the pairs and their
deltas from `(0, 0)` on; nothing where it returns early -/
def encode (m : SeqnoToTimeMapping) (start endSeqno now : ℕ) (outputSize : UInt64) : List UInt8 :=
  match m.encodeRange start endSeqno now with
  | none => []
  | some (startIt, endIt) =>
    let output := m.encodeOutput outputSize startIt endIt
    putVarint64 (UInt64.ofNat output.length) ++ deltaEncode ⟨0, 0⟩ output

/-! ## Sampling: `Append` and `TruncateOldEntries` -/

/-- `FindGreaterTime`: the first pair with a later time -/
def findGreaterTime (m : SeqnoToTimeMapping) (time : ℕ) : ℕ := m.pairs.findIdx fun p => decide (time < p.time)

/-- `kUnknownSeqnoBeforeAll` -/
def kUnknownSeqnoBeforeAll : ℕ := 0

/-- `GetProximalSeqnoBeforeTime`: the sequence number of the last pair not later than `time` -/
def getProximalSeqnoBeforeTime (m : SeqnoToTimeMapping) (time : ℕ) : ℕ :=
  let it := m.findGreaterTime time
  if it = 0 then kUnknownSeqnoBeforeAll else (m.pairs[it - 1]?.map SeqnoTimePair.seqno).getD kUnknownSeqnoBeforeAll

/-- `TruncateOldEntries(now)`: the pairs before the last one not later than `now - max_time_duration_` are erased -/
def truncateOldEntries (m : SeqnoToTimeMapping) (now : ℕ) : SeqnoToTimeMapping :=
  -- no cutoff time
  if m.maxTimeDuration = 0 then m
  -- would under-flow
  else if now < m.maxTimeDuration then m
  else
    let cutOffTime := now - m.maxTimeDuration
    let it := m.findGreaterTime cutOffTime
    if it = 0 then m else { m with pairs := m.pairs.drop (it - 1) }

/-- the end of `Append`: `pairs_.emplace_back`, then `pop_front` once there are more pairs than `max_capacity_` -/
def emplaceBackCapped (m : SeqnoToTimeMapping) (p : SeqnoTimePair) : SeqnoToTimeMapping :=
  let pairs := m.pairs ++ [p]
  { m with pairs := if pairs.length > m.maxCapacity then pairs.tail else pairs }

/-- `Append(seqno, time)`: whether the pair was taken, and the mapping after it -/
def append (m : SeqnoToTimeMapping) (seqno time : ℕ) : Bool × SeqnoToTimeMapping :=
  -- skip seq number 0, which may have special meaning
  if seqno = 0 then (false, m)
  else
    match m.pairs.getLast? with
    | some last =>
      if seqno < last.seqno ∨ time < last.time then (false, m)
      -- updating `Last()` would hurt `GetProximalSeqnoBeforeTime`
      else if seqno = last.seqno then (false, m)
      -- the same time: `Last().seqno = seqno`
      else if time = last.time then (true, { m with pairs := m.pairs.dropLast ++ [{ last with seqno := seqno }] })
      else (true, m.emplaceBackCapped ⟨seqno, time⟩)
    | none => (true, m.emplaceBackCapped ⟨seqno, time⟩)

end SeqnoToTimeMapping

/-- a call that samples the mapping -/
inductive SeqnoToTimeMappingOp where
  | append (seqno time : ℕ)
  | truncateOldEntries (now : ℕ)
deriving DecidableEq, Repr

namespace SeqnoToTimeMapping

/-- one call on the mapping -/
def apply (m : SeqnoToTimeMapping) : SeqnoToTimeMappingOp → SeqnoToTimeMapping
  | .append seqno time => (m.append seqno time).2
  | .truncateOldEntries now => m.truncateOldEntries now

/-- the calls one after the other -/
def run (m : SeqnoToTimeMapping) (ops : List SeqnoToTimeMappingOp) : SeqnoToTimeMapping := ops.foldl apply m

end SeqnoToTimeMapping

end ForSt
