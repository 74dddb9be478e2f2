import ForSt.Util.Ribbon
import ForSt.Util.Hash
/-!
The standard Ribbon implementations of `util/ribbon_impl.h`: the hasher, the banding and the two solution storages.

A `TypesAndSettings` is its flags and hash function, `Hash` an `hb`-bit word, `Seed` an `sb`-bit word.
`StandardHasher` derives the start, coefficient row and result row from a hash, and maps ordinal seeds to raw seeds
and back. `StandardBanding` keeps its rows in arrays, functions zero past the allocation, and is the storage
`BandingAddRange` writes (`toBandingStorage`, `storeRows`). `InMemSimpleSolution` keeps a row per slot;
`SerializableInterleavedSolution` keeps its segments, laid out by `InternalConfigure`.
-/

namespace ForSt.ribbon

variable {Key : Type} {hb sb w r : ℕ}

/-- the flags and the hash function of a `TypesAndSettings` -/
structure TypesAndSettings (Key : Type) (hb sb w r : ℕ) where
  kIsFilter : Bool
  kHomogeneous : Bool
  kFirstCoeffAlwaysOne : Bool
  kUseSmash : Bool
  kAllowZeroStarts : Bool
  hashFn : Key → BitVec sb → BitVec hb

/-- `FastRangeGeneric(hash, range)`: the high `hb` bits of the product of the range and the hash -/
def fastRangeGeneric (hash : BitVec hb) (range : ℕ) : ℕ := (range * hash.toNat) >>> hb

/-- `EndianSwapValue(v)` of `util/math.h`: byte `i` of `v` becomes byte `sizeof(v) - 1 - i` -/
def endianSwapValue {n : ℕ} (v : BitVec n) : BitVec n :=
  (List.range (n / 8)).foldl (fun retVal i => retVal ||| (((v >>> (8 * i)) &&& 0xff) <<< (8 * (n / 8 - 1 - i)))) 0

namespace StandardHasher

/-- for expanding hash: a large random prime -/
def kCoeffAndResultFactor (hb : ℕ) : BitVec hb := BitVec.ofNat hb 0xc28f82822b650bed

def kAltCoeffFactor1 : UInt64 := 0x876f170be4f1fcb9

def kAltCoeffFactor2 : UInt64 := 0xf0433a4aecda4c5f

/-- random-ish data -/
def kCoeffXor32 : BitVec 32 := 0xa6293635

def kCoeffXor64 : BitVec 64 := 0xc367844a6e52731d

/-- for pre-mixing seeds -/
def kSeedMixMask (hb : ℕ) : BitVec hb := BitVec.ofNat hb 0xf0f0f0f0f0f0f0f0

def kSeedMixShift : ℕ := 4

def kToRawSeedFactor (hb : ℕ) : BitVec hb := BitVec.ofNat hb 0xc78219a23eeadd03

def kFromRawSeedFactor (hb : ℕ) : BitVec hb := BitVec.ofNat hb 0xfe1a137d14b475ab

variable (ts : TypesAndSettings Key hb sb w r)

/-- `GetHash(key)` under the raw seed -/
def getHash (rawSeed : BitVec sb) (key : Key) : BitVec hb := ts.hashFn key rawSeed

/-- `GetStart(h, num_starts)` -/
def getStart (h : BitVec hb) (numStarts : ℕ) : ℕ :=
  if ts.kUseSmash then
    let kFrontSmash := w / 4
    let kBackSmash := w / 4
    let start := fastRangeGeneric h (numStarts + kFrontSmash + kBackSmash)
    let start := max start kFrontSmash
    let start := start - kFrontSmash
    min start (numStarts - 1)
  else fastRangeGeneric h numStarts

/-- `GetCoeffRow(h)` -/
def getCoeffRow (h : BitVec hb) : BitVec w :=
  if ts.kUseSmash then
    let a : BitVec 128 := BitVec.ofNat 128 (Hash.multiply64to128 (UInt64.ofNat h.toNat) kAltCoeffFactor1)
    let b : BitVec 128 := BitVec.ofNat 128 (Hash.multiply64to128 (UInt64.ofNat h.toNat) kAltCoeffFactor2)
    let cr : BitVec w := (b ^^^ (a <<< 64) ^^^ (a >>> 64)).setWidth w
    -- now ensure the value is non-zero
    if ts.kFirstCoeffAlwaysOne then cr ||| 1 else cr ||| (if cr = 0 then 1 else 0)
  else
    let a := h * kCoeffAndResultFactor hb
    let b : BitVec 64 :=
      if hb < 64 then (a.setWidth 64 <<< 32) ^^^ (a ^^^ kCoeffXor32.setWidth hb).setWidth 64 else a.setWidth 64
    let c : BitVec 128 :=
      if 64 < w then (b.setWidth 128 <<< 64) ^^^ (b ^^^ kCoeffXor64).setWidth 128 else b.setWidth 128
    let cr : BitVec w := c.setWidth w
    -- now ensure the value is non-zero, unless the expansion with a constant xor did
    if ts.kFirstCoeffAlwaysOne then cr ||| 1
    else if w = hb then cr ||| (if cr = 0 then 1 else 0)
    else cr

/-- `GetResultRowMask()` -/
def getResultRowMask : BitVec r := ~~~(0 : BitVec r)

/-- `GetResultRowFromHash(h)` -/
def getResultRowFromHash (h : BitVec hb) : BitVec r :=
  if ts.kIsFilter && !ts.kHomogeneous then
    let a := h * kCoeffAndResultFactor hb
    let rr : BitVec r := (endianSwapValue a).setWidth r
    rr &&& getResultRowMask
  else 0

/-- `SetOrdinalSeed(count)`: the raw seed it sets -/
def setOrdinalSeed (hb : ℕ) (count : BitVec sb) : BitVec sb :=
  -- multiply by a large random prime (one-to-one for any prefix of bits)
  let tmp := count.setWidth hb * kToRawSeedFactor hb
  -- within-byte one-to-one mixing
  let tmp := tmp ^^^ ((tmp &&& kSeedMixMask hb) >>> kSeedMixShift)
  tmp.setWidth sb

/-- `GetOrdinalSeed()` of the raw seed -/
def getOrdinalSeed (hb : ℕ) (rawSeed : BitVec sb) : BitVec sb :=
  let tmp := rawSeed.setWidth hb
  -- within-byte one-to-one mixing (its own inverse)
  let tmp := tmp ^^^ ((tmp &&& kSeedMixMask hb) >>> kSeedMixShift)
  -- multiply by the multiplicative inverse
  (tmp * kFromRawSeedFactor hb).setWidth sb

/-- the hasher as a `BandingHasher` over inputs whose key is `getKey` and whose result row from the input is
`getResultRowFromInput` -/
def toBandingHasher {AddInput : Type} (rawSeed : BitVec sb) (getKey : AddInput → Key)
    (getResultRowFromInput : AddInput → BitVec r) : BandingHasher AddInput (BitVec hb) w r :=
  ⟨fun x => getHash ts rawSeed (getKey x), getStart ts, getResultRowFromInput, getResultRowFromHash ts,
    getCoeffRow ts, ts.kFirstCoeffAlwaysOne⟩

/-- the hasher over keys, the inputs of a filter and of every query; `GetResultRowFromInput(key)` is zero -/
def keyHasher (rawSeed : BitVec sb) : BandingHasher Key (BitVec hb) w r :=
  toBandingHasher ts rawSeed id fun _ => 0

/-- the hasher over the inputs of a general PHSF, a key and its result row -/
def pairHasher (rawSeed : BitVec sb) : BandingHasher (Key × BitVec r) (BitVec hb) w r :=
  toBandingHasher ts rawSeed Prod.fst Prod.snd

end StandardHasher

/-- `StandardRehasherAdapter::kRehashFactor` -/
def kRehashFactor (hb : ℕ) : BitVec hb := BitVec.ofNat hb 0x6193d459236a3a0d

/-- `StandardRehasherAdapter<RehasherTypesAndSettings>`: the flags, with the hash as the key and
`HashFn(input, raw_seed) = (input ^ raw_seed) * kRehashFactor` -/
def standardRehasherAdapter (kIsFilter kHomogeneous kFirstCoeffAlwaysOne kUseSmash kAllowZeroStarts : Bool) :
    TypesAndSettings (BitVec hb) hb sb w r :=
  ⟨kIsFilter, kHomogeneous, kFirstCoeffAlwaysOne, kUseSmash, kAllowZeroStarts,
    fun input rawSeed => (input ^^^ rawSeed.setWidth hb) * kRehashFactor hb⟩

/-- `Standard128RibbonTypesAndSettings` of `table/block_based/filter_policy.cc` -/
def standard128RibbonTypesAndSettings : TypesAndSettings (BitVec 64) 64 32 128 32 :=
  standardRehasherAdapter true false true false false

/-! ## `StandardBanding` -/

/-- a `StandardBanding`: `coeff_rows_`, `result_rows_`, `num_starts_`, `num_slots_allocated_` and the raw seed of
its hasher -/
structure StandardBanding (w r sb : ℕ) where
  coeffRows : ℕ → BitVec w
  resultRows : ℕ → BitVec r
  numStarts : ℕ
  numSlotsAllocated : ℕ
  rawSeed : BitVec sb

namespace StandardBanding

variable (ts : TypesAndSettings Key hb sb w r)

/-- `StandardBanding()`: nothing allocated, ordinal and raw seed zero -/
def init : StandardBanding w r sb := ⟨fun _ => 0, fun _ => 0, 0, 0, 0⟩

/-- `Reset(num_slots)` -/
def reset (s : StandardBanding w r sb) (numSlots : ℕ) : StandardBanding w r sb :=
  if numSlots = 0 then
    -- unusual (kAllowZeroStarts) or "uninitialized"
    { s with numStarts := 0 }
  else if numSlots > s.numSlotsAllocated then
    { s with coeffRows := fun _ => 0, resultRows := if ts.kHomogeneous then s.resultRows else fun _ => 0,
             numSlotsAllocated := numSlots, numStarts := numSlots - w + 1 }
  else
    { s with coeffRows := fun i => if i < numSlots then 0 else s.coeffRows i,
             resultRows := if ts.kHomogeneous then s.resultRows else fun i => if i < numSlots then 0 else s.resultRows i,
             numStarts := numSlots - w + 1 }

/-- the banding as its `BandingStorage`: `UsePrefetch()` is `num_starts_ > 1500`, and a homogeneous banding loads a
zero result row, or for back substitution of an empty slot `i * 0x9E3779B185EBCA87` -/
def toBandingStorage (s : StandardBanding w r sb) : BandingStorage w r where
  numStarts := s.numStarts
  usePrefetch := decide (s.numStarts > 1500)
  rows i := (s.coeffRows i, if ts.kHomogeneous then 0 else s.resultRows i)
  unconstrainedResult i :=
    if ts.kHomogeneous then BitVec.ofNat r (i * 0x9E3779B185EBCA87 % 2 ^ 64) else s.resultRows i

/-- the rows of `bs` stored back through `StoreRow`, which keeps no result row in a homogeneous banding -/
def storeRows (s : StandardBanding w r sb) (bs : BandingStorage w r) : StandardBanding w r sb :=
  { s with coeffRows := fun i => (bs.rows i).1,
           resultRows := if ts.kHomogeneous then s.resultRows else fun i => (bs.rows i).2 }

variable {AddInput : Type} (hasher : BitVec sb → BandingHasher AddInput (BitVec hb) w r)

/-- `AddRange(begin, end)`, the banding being its own hasher `hasher raw_seed_` -/
def addRange (s : StandardBanding w r sb) (inputs : List AddInput) : Bool × StandardBanding w r sb :=
  if ts.kAllowZeroStarts && s.numStarts == 0 then
    -- unusual: can't add any in this case
    (inputs.isEmpty, s)
  else
    let res := bandingAddRange false (s.toBandingStorage ts) (hasher s.rawSeed) inputs
    (res.1, s.storeRows ts res.2)

/-- `AddRangeOrRollBack(begin, end)` -/
def addRangeOrRollBack (s : StandardBanding w r sb) (inputs : List AddInput) : Bool × StandardBanding w r sb :=
  if ts.kAllowZeroStarts && s.numStarts == 0 then (inputs.isEmpty, s)
  else
    let res := bandingAddRange true (s.toBandingStorage ts) (hasher s.rawSeed) inputs
    (res.1, s.storeRows ts res.2)

/-- `Add(input)` -/
def add (s : StandardBanding w r sb) (input : AddInput) : Bool × StandardBanding w r sb :=
  addRange ts hasher s [input]

/-- `GetOccupiedCount()` -/
def getOccupiedCount (s : StandardBanding w r sb) : ℕ :=
  if s.numStarts > 0 then ((List.range (s.numStarts + w - 1)).filter fun i => s.coeffRows i != 0).length else 0

/-- the `do ... while` loop of `ResetAndFindSeedToSolve` from the ordinal seed `cur`, with `fuel` more seeds at
most -/
def resetAndFindSeedToSolveLoop (numSlots : ℕ) (inputs : List AddInput) (startingOrdinalSeed ordinalSeedMask : BitVec sb) :
    ℕ → StandardBanding w r sb → BitVec sb → Bool × StandardBanding w r sb
  | 0, s, _ => (false, s)
  | fuel + 1, s, cur =>
    let s := { s with rawSeed := StandardHasher.setOrdinalSeed hb cur }
    let s := s.reset ts numSlots
    let res := s.addRange ts hasher inputs
    if res.1 then (true, res.2)
    else
      let cur := (cur + 1) &&& ordinalSeedMask
      if cur ≠ startingOrdinalSeed then
        resetAndFindSeedToSolveLoop numSlots inputs startingOrdinalSeed ordinalSeedMask fuel res.2 cur
      else (false, res.2)

/-- `ResetAndFindSeedToSolve(num_slots, begin, end, starting_ordinal_seed, ordinal_seed_mask)`: with the mask a
power of two minus one, the seeds come round to the first after `ordinal_seed_mask + 1` of them -/
def resetAndFindSeedToSolve (s : StandardBanding w r sb) (numSlots : ℕ) (inputs : List AddInput)
    (startingOrdinalSeed ordinalSeedMask : BitVec sb) : Bool × StandardBanding w r sb :=
  let startingOrdinalSeed := startingOrdinalSeed &&& ordinalSeedMask
  resetAndFindSeedToSolveLoop ts hasher numSlots inputs startingOrdinalSeed ordinalSeedMask
    (ordinalSeedMask.toNat + 1) s startingOrdinalSeed

end StandardBanding

/-! ## `InMemSimpleSolution` -/

/-- an `InMemSimpleSolution`: `num_starts_`, `num_slots_allocated_` and the solution rows -/
structure InMemSimpleSolution (w r : ℕ) where
  numStarts : ℕ
  numSlotsAllocated : ℕ
  solutionRows : ℕ → BitVec r

namespace InMemSimpleSolution

variable (ts : TypesAndSettings Key hb sb w r)

/-- `PrepareForNumStarts(num_starts)`; a new array is not initialized, so the rows are left as they are -/
def prepareForNumStarts (s : InMemSimpleSolution w r) (numStarts : ℕ) : InMemSimpleSolution w r :=
  if ts.kAllowZeroStarts && numStarts == 0 then { s with numStarts := 0 }
  else
    let numSlots := numStarts + w - 1
    if numSlots > s.numSlotsAllocated then { s with numSlotsAllocated := numSlots, numStarts := numStarts }
    else { s with numStarts := numStarts }

/-- the solution as the `SimpleSolutionStorage` of `SimpleBackSubst` and the queries -/
def toSimpleSolutionStorage (s : InMemSimpleSolution w r) : SimpleSolutionStorage r := ⟨s.numStarts, s.solutionRows⟩

/-- `BackSubstFrom(bs)`; `SimpleBackSubst(this, bs)` prepares for the banding's starts, then stores every row -/
def backSubstFrom (s : InMemSimpleSolution w r) (bs : BandingStorage w r) : InMemSimpleSolution w r :=
  if ts.kAllowZeroStarts && bs.numStarts == 0 then s.prepareForNumStarts ts 0
  else
    let s := s.prepareForNumStarts ts bs.numStarts
    { s with solutionRows := (simpleBackSubst s.toSimpleSolutionStorage bs).rows }

/-- `PhsfQuery(input, hasher)` -/
def phsfQuery (s : InMemSimpleSolution w r) (input : Key) (hasher : BandingHasher Key (BitVec hb) w r) : BitVec r :=
  if ts.kAllowZeroStarts && s.numStarts == 0 then 0
  else
    -- SimplePhsfQuery(input, hasher, *this)
    let hash := hasher.getHash input
    simpleQueryHelper (hasher.getStart hash s.numStarts) (hasher.getCoeffRow hash) s.toSimpleSolutionStorage

/-- `FilterQuery(input, hasher)` -/
def filterQuery (s : InMemSimpleSolution w r) (input : Key) (hasher : BandingHasher Key (BitVec hb) w r) : Bool :=
  if ts.kAllowZeroStarts && s.numStarts == 0 then false
  else
    -- SimpleFilterQuery(input, hasher, *this)
    let hash := hasher.getHash input
    let expected := hasher.getResultRowFromHash hash
    expected == simpleQueryHelper (hasher.getStart hash s.numStarts) (hasher.getCoeffRow hash) s.toSimpleSolutionStorage

/-- `RoundUpNumSlots(num_slots)` -/
def roundUpNumSlots (numSlots : ℕ) : ℕ := max numSlots (w * (if ts.kUseSmash then 1 else 2))

end InMemSimpleSolution

/-! ## `SerializableInterleavedSolution` -/

/-- a `SerializableInterleavedSolution`: the segments in the caller's buffer `data_`, `data_len_` in bytes,
`num_starts_`, `upper_num_columns_` and `upper_start_block_` -/
structure SerializableInterleavedSolution (w r : ℕ) where
  data : ℕ → BitVec w
  dataLen : ℕ
  numStarts : ℕ
  upperNumColumns : ℕ
  upperStartBlock : ℕ

namespace SerializableInterleavedSolution

/-- `SerializableInterleavedSolution(data, data_len)` -/
def ofBuffer (data : ℕ → BitVec w) (dataLen : ℕ) : SerializableInterleavedSolution w r := ⟨data, dataLen, 0, 0, 0⟩

/-- `GetNumBlocks()` -/
def getNumBlocks (s : SerializableInterleavedSolution w r) : ℕ := (s.numStarts + w - 1) / w

/-- `GetNumSegments()`: the whole `CoeffRow`s in the buffer -/
def getNumSegments (s : SerializableInterleavedSolution w r) : ℕ := s.dataLen / (w / 8)

/-- `InternalConfigure()`: `r` is `8U * sizeof(ResultRow)` -/
def internalConfigure (s : SerializableInterleavedSolution w r) : SerializableInterleavedSolution w r :=
  let numBlocks := s.getNumBlocks
  let numSegments := s.getNumSegments
  if numBlocks = 0 then
    -- exceptional
    { s with upperNumColumns := 0, upperStartBlock := 0, dataLen := numSegments * (w / 8) }
  else
    let upperNumColumns := (numSegments + numBlocks - 1) / numBlocks
    let upperStartBlock := upperNumColumns * numBlocks - numSegments
    -- unless that's more columns than supported by ResultRow data type
    if upperNumColumns > r then
      { s with upperNumColumns := r, upperStartBlock := 0, dataLen := numBlocks * r * (w / 8) }
    else { s with upperNumColumns, upperStartBlock, dataLen := numSegments * (w / 8) }

/-- `PrepareForNumStarts(num_starts)` -/
def prepareForNumStarts (s : SerializableInterleavedSolution w r) (numStarts : ℕ) :
    SerializableInterleavedSolution w r :=
  internalConfigure { s with numStarts := numStarts }

/-- `ConfigureForNumBlocks(num_blocks)` -/
def configureForNumBlocks (s : SerializableInterleavedSolution w r) (numBlocks : ℕ) :
    SerializableInterleavedSolution w r :=
  if numBlocks = 0 then s.prepareForNumStarts 0 else s.prepareForNumStarts (numBlocks * w - w + 1)

/-- `ConfigureForNumSlots(num_slots)` -/
def configureForNumSlots (s : SerializableInterleavedSolution w r) (numSlots : ℕ) :
    SerializableInterleavedSolution w r :=
  s.configureForNumBlocks (numSlots / w)

/-- the solution as the `InterleavedSolutionStorage` of `InterleavedBackSubst` and the queries -/
def toStorage (s : SerializableInterleavedSolution w r) : InterleavedSolutionStorage w :=
  ⟨s.numStarts, s.upperNumColumns, s.upperStartBlock, s.getNumSegments, s.data⟩

variable (ts : TypesAndSettings Key hb sb w r)

/-- `BackSubstFrom(bs)`; `InterleavedBackSubst(this, bs)` first prepares this for the banding's starts -/
def backSubstFrom (s : SerializableInterleavedSolution w r) (bs : BandingStorage w r) :
    SerializableInterleavedSolution w r :=
  if ts.kAllowZeroStarts && bs.numStarts == 0 then s.prepareForNumStarts 0
  else
    let s := s.prepareForNumStarts bs.numStarts
    { s with data := (interleavedBackSubst s.toStorage bs).segments }

/-- `PhsfQuery(input, hasher)` -/
def phsfQuery (s : SerializableInterleavedSolution w r) (input : Key) (hasher : BandingHasher Key (BitVec hb) w r) :
    BitVec r :=
  if ts.kAllowZeroStarts && s.numStarts == 0 then 0
  else
    let hash := hasher.getHash input
    let q := interleavedPrepareQuery hasher s.toStorage hash
    interleavedPhsfQuery hash q.1 q.2.1 q.2.2 hasher s.toStorage

/-- `FilterQuery(input, hasher)` -/
def filterQuery (s : SerializableInterleavedSolution w r) (input : Key) (hasher : BandingHasher Key (BitVec hb) w r) :
    Bool :=
  if ts.kAllowZeroStarts && s.numStarts == 0 then false
  else
    let hash := hasher.getHash input
    let q := interleavedPrepareQuery hasher s.toStorage hash
    interleavedFilterQuery hash q.1 q.2.1 q.2.2 hasher s.toStorage

/-- `RoundUpNumSlots(num_slots)` -/
def roundUpNumSlots (numSlots : ℕ) : ℕ :=
  -- must be multiple of kCoeffBits
  let corrected := (numSlots + w - 1) / w * w
  -- do not use num_starts == 1 unless kUseSmash
  if !ts.kUseSmash && corrected == w then corrected + w else corrected

/-- `RoundDownNumSlots(num_slots)` -/
def roundDownNumSlots (numSlots : ℕ) : ℕ :=
  let corrected := numSlots / w * w
  if !ts.kUseSmash && corrected == w then 0 else corrected

end SerializableInterleavedSolution

end ForSt.ribbon
