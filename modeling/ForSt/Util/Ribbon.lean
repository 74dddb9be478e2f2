import Mathlib.Logic.Function.Basic
import ForSt.Util.Math
/-!
Ribbon banding and back substitution (`util/ribbon_alg.h`): on-the-fly Gaussian elimination over GF(2) of equations
`cr @ start -> rr`, and the two ways of solving the band.

`BandingAdd` reduces an equation by the rows in the band until it finds an empty slot, or until it cancels.
`BandingAddRange` adds a range of inputs and on failure clears the slots it filled when backtracking is on.
`SimpleBackSubst` computes the solution rows from the last slot down; `InterleavedBackSubst` does so a block of
`kCoeffBits` slots at a time, one segment per column. Rows are `w`- and `r`-bit words; each storage is modelled by what
it stores.
-/

namespace ForSt.ribbon

variable {w r : ℕ}

/-- a `BandingStorage`: `GetNumStarts()`, `UsePrefetch()`, the row of each slot, and the result row `LoadRow` gives an
empty slot when `for_back_subst` -/
@[ext] structure BandingStorage (w r : ℕ) where
  numStarts : ℕ
  usePrefetch : Bool
  rows : ℕ → BitVec w × BitVec r
  unconstrainedResult : ℕ → BitVec r

namespace BandingStorage

/-- `LoadRow(i, &cr, &rr, for_back_subst)` -/
def loadRow (bs : BandingStorage w r) (i : ℕ) (forBackSubst : Bool) : BitVec w × BitVec r :=
  if forBackSubst && (bs.rows i).1 == 0 then (0, bs.unconstrainedResult i) else bs.rows i

/-- `StoreRow(i, cr, rr)` -/
def storeRow (bs : BandingStorage w r) (i : ℕ) (cr : BitVec w) (rr : BitVec r) : BandingStorage w r :=
  { bs with rows := Function.update bs.rows i (cr, rr) }

end BandingStorage

/-- the `for (;;)` loop of `BandingAdd`, with `fuel` rounds at most; the backtrack entries put so far are a list -/
def bandingAddLoop :
    ℕ → BandingStorage w r → ℕ → BitVec w → BitVec r → List ℕ → Bool × BandingStorage w r × List ℕ
  | 0, bs, _, _, _, backtrack => (false, bs, backtrack)
  | fuel + 1, bs, i, cr, rr, backtrack =>
    let (crAtI, rrAtI) := bs.loadRow i false
    if crAtI = 0 then (true, bs.storeRow i cr rr, backtrack ++ [i])
    else
      -- Gaussian row reduction
      let cr := cr ^^^ crAtI
      let rr := rr ^^^ rrAtI
      -- inconsistency or (less likely) redundancy
      if cr = 0 then (rr == 0, bs, backtrack)
      else
        let tz := countTrailingZeroBits cr.toNat
        bandingAddLoop fuel bs (i + tz) (cr >>> tz) rr backtrack

/-- `BandingAdd<kFirstCoeffAlwaysOne>(bs, start, rr, cr, bts, &backtrack_pos)`: each round moves to a later slot,
all of them below `num_slots`, so `num_starts + kCoeffBits` rounds are enough -/
def bandingAdd (kFirstCoeffAlwaysOne : Bool) (bs : BandingStorage w r) (start : ℕ) (rr : BitVec r) (cr : BitVec w)
    (backtrack : List ℕ) : Bool × BandingStorage w r × List ℕ :=
  if kFirstCoeffAlwaysOne then bandingAddLoop (bs.numStarts + w) bs start cr rr backtrack
  else
    let tz := countTrailingZeroBits cr.toNat
    bandingAddLoop (bs.numStarts + w) bs (start + tz) (cr >>> tz) rr backtrack

/-- a `BandingHasher` -/
structure BandingHasher (AddInput Hash : Type) (w r : ℕ) where
  getHash : AddInput → Hash
  getStart : Hash → ℕ → ℕ
  getResultRowFromInput : AddInput → BitVec r
  getResultRowFromHash : Hash → BitVec r
  getCoeffRow : Hash → BitVec w
  kFirstCoeffAlwaysOne : Bool

variable {AddInput Hash : Type}

/-- the simple loop of `BandingAddRange`, over the inputs from `cur` -/
def bandingAddRangeLoop (bh : BandingHasher AddInput Hash w r) (numStarts : ℕ) :
    BandingStorage w r → List AddInput → List ℕ → Bool × BandingStorage w r × List ℕ
  | bs, [], backtrack => (true, bs, backtrack)
  | bs, cur :: rest, backtrack =>
    let h := bh.getHash cur
    let start := bh.getStart h numStarts
    let rr := bh.getResultRowFromInput cur ||| bh.getResultRowFromHash h
    let cr := bh.getCoeffRow h
    match bandingAdd bh.kFirstCoeffAlwaysOne bs start rr cr backtrack with
    | (true, bs, backtrack) => bandingAddRangeLoop bh numStarts bs rest backtrack
    | (false, bs, backtrack) => (false, bs, backtrack)

/-- the pipelined loop of `BandingAddRange`: the current input's hash, start and result row from the input, and the
inputs after it -/
def bandingAddRangePipelined (bh : BandingHasher AddInput Hash w r) (numStarts : ℕ) :
    BandingStorage w r → Hash → ℕ → BitVec r → List AddInput → List ℕ → Bool × BandingStorage w r × List ℕ
  | bs, h, start, rr, rest, backtrack =>
    let rr := rr ||| bh.getResultRowFromHash h
    let cr := bh.getCoeffRow h
    match rest with
    | [] => bandingAdd bh.kFirstCoeffAlwaysOne bs start rr cr backtrack
    | next :: rest =>
      let nextH := bh.getHash next
      let nextStart := bh.getStart nextH numStarts
      let nextRr := bh.getResultRowFromInput next
      match bandingAdd bh.kFirstCoeffAlwaysOne bs start rr cr backtrack with
      | (true, bs, backtrack) => bandingAddRangePipelined bh numStarts bs nextH nextStart nextRr rest backtrack
      | (false, bs, backtrack) => (false, bs, backtrack)

/-- the backtrack on failure: `StoreRow(i, 0, 0)` for the entries put, the last first -/
def backtrackRows (bs : BandingStorage w r) (backtrack : List ℕ) : BandingStorage w r :=
  backtrack.reverse.foldl (fun bs i => bs.storeRow i 0 0) bs

/-- `BandingAddRange(bs, bts, bh, begin, end)`; `useBacktrack` is `bts->UseBacktrack()` -/
def bandingAddRange (useBacktrack : Bool) (bs : BandingStorage w r) (bh : BandingHasher AddInput Hash w r)
    (inputs : List AddInput) : Bool × BandingStorage w r :=
  match inputs with
  | [] => (true, bs)
  | cur :: rest =>
    let numStarts := bs.numStarts
    let (ok, bs', backtrack) :=
      if !bs.usePrefetch then bandingAddRangeLoop bh numStarts bs (cur :: rest) []
      else
        let h := bh.getHash cur
        bandingAddRangePipelined bh numStarts bs h (bh.getStart h numStarts) (bh.getResultRowFromInput cur) rest []
    if ok then (true, bs')
    -- failed; backtrack (if implemented)
    else (false, if useBacktrack then backtrackRows bs' backtrack else bs')

/-! ## Back substitution -/

/-- a `SimpleSolutionStorage`: `GetNumStarts()` and the solution row of each slot -/
structure SimpleSolutionStorage (r : ℕ) where
  numStarts : ℕ
  rows : ℕ → BitVec r

/-- the solution bit of row `i` in column `j`, from the column's next `w` bits in `state j`; the column's new state -/
def backSubstBit (cr : BitVec w) (rr : BitVec r) (state : BitVec w) (j : ℕ) : Bool × BitVec w :=
  let tmp := state <<< 1
  let bit := bitParity (tmp &&& cr) ^^ rr.getLsbD j
  (bit, tmp ||| (if bit then 1 else 0))

/-- the `j` loop of `SimpleBackSubst` for one row: the columns' states and the solution row -/
def simpleBackSubstRow (cr : BitVec w) (rr : BitVec r) (state : ℕ → BitVec w) : (ℕ → BitVec w) × BitVec r :=
  (List.range r).foldl
    (fun (acc : (ℕ → BitVec w) × BitVec r) j =>
      let (bit, tmp) := backSubstBit cr rr (acc.1 j) j
      (Function.update acc.1 j tmp, acc.2 ||| ((if bit then 1 else 0) <<< j)))
    (state, 0)

/-- the `i` loop of `SimpleBackSubst`, for the slots below `i` -/
def simpleBackSubstLoop (bs : BandingStorage w r) : ℕ → (ℕ → BitVec w) → (ℕ → BitVec r) → ℕ → BitVec r
  | 0, _, sol => sol
  | i + 1, state, sol =>
    let (cr, rr) := bs.loadRow i true
    let (state, sr) := simpleBackSubstRow cr rr state
    simpleBackSubstLoop bs i state (Function.update sol i sr)

/-- `SimpleBackSubst(sss, bs)` -/
def simpleBackSubst (sss : SimpleSolutionStorage r) (bs : BandingStorage w r) : SimpleSolutionStorage r :=
  let numStarts := bs.numStarts
  let numSlots := numStarts + w - 1
  ⟨numStarts, simpleBackSubstLoop bs numSlots (fun _ => 0) sss.rows⟩

/-- `SimpleQueryHelper(start_slot, cr, sss)` -/
def simpleQueryHelper (startSlot : ℕ) (cr : BitVec w) (sss : SimpleSolutionStorage r) : BitVec r :=
  (List.range w).foldl
    (fun result i => result ^^^ (sss.rows (startSlot + i) &&& (0 - ((cr >>> i).setWidth r &&& 1)))) 0

/-- an `InterleavedSolutionStorage`: `GetNumStarts()`, `GetUpperNumColumns()`, `GetUpperStartBlock()`,
`GetNumSegments()` and the segments -/
structure InterleavedSolutionStorage (w : ℕ) where
  numStarts : ℕ
  upperNumColumns : ℕ
  upperStartBlock : ℕ
  numSegments : ℕ
  segments : ℕ → BitVec w

/-- the `j` loop of `BackSubstBlock` for one row: the columns' new states -/
def backSubstBlockRow (cr : BitVec w) (rr : BitVec r) (numColumns : ℕ) (state : ℕ → BitVec w) : ℕ → BitVec w :=
  (List.range numColumns).foldl (fun state j => Function.update state j (backSubstBit cr rr (state j) j).2) state

/-- the `i` loop of `BackSubstBlock`, for the slots of the block below `startSlot + i` -/
def backSubstBlockLoop (bs : BandingStorage w r) (numColumns startSlot : ℕ) : ℕ → (ℕ → BitVec w) → ℕ → BitVec w
  | 0, state => state
  | i + 1, state =>
    let (cr, rr) := bs.loadRow (startSlot + i) true
    backSubstBlockLoop bs numColumns startSlot i (backSubstBlockRow cr rr numColumns state)

/-- `BackSubstBlock(state, num_columns, bs, start_slot)` -/
def backSubstBlock (state : ℕ → BitVec w) (numColumns : ℕ) (bs : BandingStorage w r) (startSlot : ℕ) : ℕ → BitVec w :=
  backSubstBlockLoop bs numColumns startSlot w state

/-- a `while (block > ...)` loop of `InterleavedBackSubst`, from `block` down to `lastBlock`: the state, the segment
number and the segments -/
def interleavedBackSubstBlocks (bs : BandingStorage w r) (numColumns lastBlock : ℕ) :
    ℕ → (ℕ → BitVec w) → ℕ → (ℕ → BitVec w) → (ℕ → BitVec w) × ℕ × (ℕ → BitVec w)
  | 0, state, segmentNum, segments => (state, segmentNum, segments)
  | block + 1, state, segmentNum, segments =>
    if block + 1 ≤ lastBlock then (state, segmentNum, segments)
    else
      let state := backSubstBlock state numColumns bs (block * w)
      let segmentNum := segmentNum - numColumns
      let segments := (List.range numColumns).foldl
        (fun segments i => Function.update segments (segmentNum + i) (state i)) segments
      interleavedBackSubstBlocks bs numColumns lastBlock block state segmentNum segments

/-- the number of blocks `interleavedBackSubstBlocks` leaves: down to `lastBlock`, or none if already below -/
def blocksLeft (block lastBlock : ℕ) : ℕ := if block ≤ lastBlock then block else lastBlock

/-- `InterleavedBackSubst(iss, bs)` -/
def interleavedBackSubst (iss : InterleavedSolutionStorage w) (bs : BandingStorage w r) :
    InterleavedSolutionStorage w :=
  let numStarts := bs.numStarts
  let iss := { iss with numStarts := numStarts }
  let numSlots := numStarts + w - 1
  let numBlocks := numSlots / w
  let numSegments := iss.numSegments
  let numColumns := iss.upperNumColumns
  let upperStartBlock := iss.upperStartBlock
  if numColumns = 0 then iss
  else
    let state : ℕ → BitVec w := fun _ => 0
    -- for now upper, then lower
    let (state, segmentNum, segments) :=
      interleavedBackSubstBlocks bs numColumns upperStartBlock numBlocks state numSegments iss.segments
    let block := blocksLeft numBlocks upperStartBlock
    let (_, _, segments) := interleavedBackSubstBlocks bs (numColumns - 1) 0 block state segmentNum segments
    { iss with segments := segments }

/-- `InterleavedPrepareQuery` from the key's hash: `(segment_num, num_columns, start_bit)` -/
def interleavedPrepareQuery (hasher : BandingHasher AddInput Hash w r) (iss : InterleavedSolutionStorage w)
    (hash : Hash) : ℕ × ℕ × ℕ :=
  let startSlot := hasher.getStart hash iss.numStarts
  let upperStartBlock := iss.upperStartBlock
  let numColumns := iss.upperNumColumns
  let startBlockNum := startSlot / w
  let segmentNum := startBlockNum * numColumns - min startBlockNum upperStartBlock
  -- change to lower num columns if applicable
  let numColumns := numColumns - (if startBlockNum < upperStartBlock then 1 else 0)
  let startBit := startSlot % w
  (segmentNum, numColumns, startBit)

/-- `InterleavedPhsfQuery(hash, segment_num, num_columns, start_bit, hasher, iss)` -/
def interleavedPhsfQuery (hash : Hash) (segmentNum numColumns startBit : ℕ) (hasher : BandingHasher AddInput Hash w r)
    (iss : InterleavedSolutionStorage w) : BitVec r :=
  let cr := hasher.getCoeffRow hash
  let crLeft := cr <<< startBit
  let sr := (List.range numColumns).foldl
    (fun (sr : BitVec r) i => sr ^^^ ((if bitParity (iss.segments (segmentNum + i) &&& crLeft) then 1 else 0) <<< i)) 0
  if startBit > 0 then
    let segmentNum := segmentNum + numColumns
    let crRight := cr >>> (w - startBit)
    (List.range numColumns).foldl
      (fun sr i => sr ^^^ ((if bitParity (iss.segments (segmentNum + i) &&& crRight) then 1 else 0) <<< i)) sr
  else sr

/-- `InterleavedFilterQuery(hash, segment_num, num_columns, start_bit, hasher, iss)` -/
def interleavedFilterQuery (hash : Hash) (segmentNum numColumns startBit : ℕ)
    (hasher : BandingHasher AddInput Hash w r) (iss : InterleavedSolutionStorage w) : Bool :=
  let cr := hasher.getCoeffRow hash
  let expected := hasher.getResultRowFromHash hash
  if startBit = 0 then
    (List.range numColumns).all fun i => bitParity (iss.segments (segmentNum + i) &&& cr) == expected.getLsbD i
  else
    let crLeft := cr <<< startBit
    let crRight := cr >>> (w - startBit)
    (List.range numColumns).all fun i =>
      let solnData := (iss.segments (segmentNum + i) &&& crLeft) ^^^ (iss.segments (segmentNum + numColumns + i) &&& crRight)
      bitParity solnData == expected.getLsbD i

end ForSt.ribbon
