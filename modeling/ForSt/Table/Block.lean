import ForSt.Table.BlockBuilder
import ForSt.Util.Status
/-!
`Block` and `DataBlockIter` (`table/block_based/block.cc`, `block.h`): a data block read back entry by entry.

`Block` reads the number of restart points from the footer and where the restart array starts. A `DataBlockIter` keeps
the offset of the current entry, its restart interval, the key it decoded and where the value lies. `ParseNextKey`
decodes the entry after the current value (three varint32s, one byte each when all are below 128), keeps the `shared`
bytes of the key before and appends the rest, padding back a stripped timestamp. `Prev` scans forward from a restart
point before the current entry, caching the entries it passes, and a later `Prev` reads the cache. `Seek` bisects the
restart keys under the internal key comparator, then scans the interval it found; `SeekForPrev` seeks, then steps
back to a key not above the target.

Offsets are `uint32_t`: the next entry offset and the restart array offset are taken modulo `2^32`, as the source
casts them. Each loop over entries runs with as many rounds as the data has bytes. The hash index, the read
amplification bitmap, global sequence numbers, per key-value checksums, key pinning, and the `IsUserKey` keys of
index blocks are left out.
-/

namespace ForSt

/-- `kMaxBlockSizeSupportedByHashIndex` -/
def kMaxBlockSizeSupportedByHashIndex : ℕ := 2 ^ 16

/-- the fields of `Block` a data iterator reads: `size_` is zero on a block found corrupt -/
structure Block where
  data : List UInt8
  size : ℕ
  restartOffset : ℕ
  numRestarts : ℕ
deriving DecidableEq, Repr

namespace Block

/-- the fixed32 at the end of the block -/
def footer (data : List UInt8) : ℕ := Coding.decodeFixed32 (data.drop (data.length - 4))

/-- `Block::NumRestarts`: a block too large for a hash index keeps the whole footer as the count -/
def numRestartsOf (data : List UInt8) : ℕ :=
  if kMaxBlockSizeSupportedByHashIndex < data.length then footer data else footer data &&& kNumRestartsMask

/-- `Block::IndexType` -/
def indexTypeOf (data : List UInt8) : DataBlockIndexType :=
  if kMaxBlockSizeSupportedByHashIndex < data.length then .kDataBlockBinarySearch
  else if footer data &&& 2 ^ kDataBlockIndexTypeBitShift ≠ 0 then .kDataBlockBinaryAndHash
  else .kDataBlockBinarySearch

/-- the constructor, for a block without a hash index: `restart_offset_` is computed in `uint32_t`, and a count of
restart points too large for the block marks it corrupt; a block with a hash index is outside the model -/
def create (data : List UInt8) : Option Block :=
  if data.length < 4 then some ⟨data, 0, 0, 0⟩
  else
    let numRestarts := numRestartsOf data
    match indexTypeOf data with
    | .kDataBlockBinarySearch =>
      let restartOffset :=
        (((data.length % 2 ^ 32 : ℕ) : ℤ) - (((1 + numRestarts) % 2 ^ 32 : ℕ) : ℤ) * 4) % 2 ^ 32 |>.toNat
      if data.length - 4 < restartOffset then some ⟨data, 0, restartOffset, numRestarts⟩
      else some ⟨data, data.length, restartOffset, numRestarts⟩
    | .kDataBlockBinaryAndHash => none

end Block

/-- an entry `PrevImpl` caches: its offset, its key, and where its value lies -/
structure CachedPrevEntry where
  offset : ℕ
  key : List UInt8
  valueOffset : ℕ
  valueSize : ℕ
deriving DecidableEq, Repr, Inhabited

/-- the fields of `DataBlockIter` its calls read and update; `value_` is the slice of `data` at `valueOffset` of
`valueSize` bytes, and `initialized` is `data_ != nullptr` -/
structure DataBlockIter where
  initialized : Bool
  data : List UInt8
  restarts : ℕ
  numRestarts : ℕ
  tsSz : ℕ
  padMinTimestamp : Bool
  restartIndex : ℕ
  current : ℕ
  rawKey : List UInt8
  valueOffset : ℕ
  valueSize : ℕ
  status : Status
  prevEntries : List CachedPrevEntry
  prevEntriesIdx : Int
deriving DecidableEq, Repr

namespace DataBlockIter

/-- `Invalidate` of a fresh iterator -/
def invalidated (s : Status) : DataBlockIter := ⟨false, [], 0, 0, 0, false, 0, 0, [], 0, 0, s, [], -1⟩

/-- `Initialize`, through `InitializeBase` -/
def initializeBase (data : List UInt8) (restarts numRestarts tsSz : ℕ) (userDefinedTimestampPersisted : Bool) :
    DataBlockIter :=
  ⟨true, data, restarts, numRestarts, tsSz, decide (0 < tsSz) && !userDefinedTimestampPersisted, numRestarts,
    restarts, [], 0, 0, .ok, [], -1⟩

/-- `Valid` -/
def valid (it : DataBlockIter) : Bool := decide (it.current < it.restarts)

/-- `key()`, without a global sequence number -/
def key (it : DataBlockIter) : List UInt8 := it.rawKey

/-- `value()` -/
def value (it : DataBlockIter) : List UInt8 := (it.data.drop it.valueOffset).take it.valueSize

/-- `NextEntryOffset` -/
def nextEntryOffset (it : DataBlockIter) : ℕ := (it.valueOffset + it.valueSize) % 2 ^ 32

/-- `GetRestartPoint` -/
def getRestartPoint (it : DataBlockIter) (index : ℕ) : ℕ :=
  Coding.decodeFixed32 (it.data.drop (it.restarts + index * 4))

/-- `SeekToRestartPoint`: the next entry is parsed from the restart point, with no key before it -/
def seekToRestartPoint (it : DataBlockIter) (index : ℕ) : DataBlockIter :=
  { it with rawKey := [], restartIndex := index, valueOffset := it.getRestartPoint index, valueSize := 0 }

/-- `CorruptionError` -/
def corruptionError (it : DataBlockIter) (msg : String) : DataBlockIter :=
  { it with
    current := it.restarts, restartIndex := it.numRestarts, status := .corruption msg, rawKey := []
    valueOffset := 0, valueSize := 0 }

/-- the loop of `ParseNextKey` that moves `restart_index_` to the interval of the entry it parsed, with at most
`fuel` rounds -/
def advanceRestartIndex (it : DataBlockIter) : ℕ → ℕ → ℕ
  | 0, index => index
  | fuel + 1, index =>
    if index + 1 < it.numRestarts ∧ it.getRestartPoint (index + 1) < it.current then
      it.advanceRestartIndex fuel (index + 1)
    else index

end DataBlockIter

/-- `DecodeEntry` at offset `p` before `limit`: `shared`, `non_shared`, the value length and the offset of the key
delta; bytes past `limit` are read as the source reads them, unchecked -/
def decodeEntry (data : List UInt8) (p limit : ℕ) : Option (ℕ × ℕ × ℕ × ℕ) :=
  let b0 := (data.getD p 0).toNat
  let b1 := (data.getD (p + 1) 0).toNat
  let b2 := (data.getD (p + 2) 0).toNat
  if b0 ||| b1 ||| b2 < 128 then some (b0, b1, b2, p + 3)
  else
    let input := (data.take limit).drop p
    match Coding.getVarint32Ptr input with
    | none => none
    | some (shared, r1) =>
      match Coding.getVarint32Ptr r1 with
      | none => none
      | some (nonShared, r2) =>
        match Coding.getVarint32Ptr r2 with
        | none => none
        | some (valueLength, r3) => some (shared, nonShared, valueLength, p + (input.length - r3.length))

/-- `MaybeAddKeyPartsWithTimestamp`: the slice, with the minimum timestamp inserted `leftSz` bytes into it when it is
the part where the timestamp goes and none was added yet -/
def maybeAddKeyPartsWithTimestamp (slice : List UInt8) (addTimestamp : Bool) (leftSz : ℕ)
    (minTimestamp : List UInt8) (parts : List UInt8 × Bool) : List UInt8 × Bool :=
  if addTimestamp && !parts.2 then (parts.1 ++ slice.take leftSz ++ minTimestamp ++ slice.drop leftSz, true)
  else (parts.1 ++ slice, parts.2)

/-- `IterKey::TrimAppendWithTimestamp`: the `sharedLen` bytes of `key` before its timestamp, then the non-shared
bytes, with a minimum timestamp of `tsSz` bytes before the last eight bytes of an internal key -/
def trimAppendWithTimestamp (isUserKey : Bool) (key : List UInt8) (sharedLen : ℕ) (nonSharedData : List UInt8)
    (tsSz : ℕ) : List UInt8 :=
  let kTsMin := List.replicate tsSz 0
  let nonSharedLen := nonSharedData.length
  if isUserKey then key.take sharedLen ++ nonSharedData ++ kTsMin
  else
    let userKeyLen := key.length - kNumInternalBytes
    let sharableUserKeyLen := userKeyLen - tsSz
    let sharedUserKeyLen := min sharedLen sharableUserKeyLen
    let sharedInternalBytesLen := sharedLen - sharedUserKeyLen
    let parts := maybeAddKeyPartsWithTimestamp (key.take sharedUserKeyLen)
      (decide (sharedInternalBytesLen + nonSharedLen < kNumInternalBytes))
      (sharedLen + nonSharedLen - kNumInternalBytes) kTsMin ([], false)
    let parts := maybeAddKeyPartsWithTimestamp ((key.drop userKeyLen).take sharedInternalBytesLen)
      (decide (nonSharedLen < kNumInternalBytes))
      (sharedInternalBytesLen + nonSharedLen - kNumInternalBytes) kTsMin parts
    let parts := maybeAddKeyPartsWithTimestamp nonSharedData (decide (kNumInternalBytes ≤ nonSharedLen))
      (nonSharedLen - kNumInternalBytes) kTsMin parts
    parts.1

namespace DataBlockIter

/-- `UpdateRawKeyAndMaybePadMinTimestamp` for the internal keys of a data block -/
def updateRawKeyAndMaybePadMinTimestamp (it : DataBlockIter) (key : List UInt8) : List UInt8 :=
  if it.padMinTimestamp then padInternalKeyWithMinTimestamp key it.tsSz else key

/-- `ParseNextKey<DecodeEntry>` (and `ParseNextDataKey`): the iterator, and whether an entry was parsed -/
def parseNextKey (it : DataBlockIter) : DataBlockIter × Bool :=
  let current := it.nextEntryOffset
  if it.restarts ≤ current then ({ it with current := it.restarts, restartIndex := it.numRestarts }, false)
  else
    let it := { it with current := current }
    match decodeEntry it.data current it.restarts with
    | none => (it.corruptionError "bad entry in block", false)
    | some (shared, nonShared, valueLength, p) =>
      if it.rawKey.length < shared then (it.corruptionError "bad entry in block", false)
      else
        let delta := (it.data.drop p).take nonShared
        let rawKey :=
          if shared = 0 then it.updateRawKeyAndMaybePadMinTimestamp delta
          else if it.padMinTimestamp then trimAppendWithTimestamp false it.rawKey shared delta it.tsSz
          else it.rawKey.take shared ++ delta
        let it := { it with rawKey := rawKey, valueOffset := p + nonShared, valueSize := valueLength }
        -- an entry that shares nothing may start a restart interval
        if shared = 0 then ({ it with restartIndex := it.advanceRestartIndex it.numRestarts it.restartIndex }, true)
        else (it, true)

/-- `NextImpl` -/
def next (it : DataBlockIter) : DataBlockIter := it.parseNextKey.1

/-- `SeekToFirstImpl` -/
def seekToFirst (it : DataBlockIter) : DataBlockIter :=
  if it.initialized then (it.seekToRestartPoint 0).parseNextKey.1 else it

/-- the loop of `SeekToLastImpl`: parse entries while the next one is before the restart array -/
def seekToLastLoop : ℕ → DataBlockIter → DataBlockIter
  | 0, it => it
  | fuel + 1, it =>
    let r := it.parseNextKey
    if r.2 = true ∧ r.1.nextEntryOffset < r.1.restarts then seekToLastLoop fuel r.1 else r.1

/-- `SeekToLastImpl` -/
def seekToLast (it : DataBlockIter) : DataBlockIter :=
  if it.initialized then seekToLastLoop it.data.length (it.seekToRestartPoint (it.numRestarts - 1)) else it

/-- the loop of `PrevImpl` that steps back over restart points starting at or after `original` -/
def restartBefore (it : DataBlockIter) (original : ℕ) : ℕ → Option ℕ
  | 0 => if original ≤ it.getRestartPoint 0 then none else some 0
  | index + 1 => if original ≤ it.getRestartPoint (index + 1) then it.restartBefore original index else some (index + 1)

/-- the loop of `PrevImpl` that parses entries from a restart point, caching each, until one ends at `original` -/
def prevScanLoop (original : ℕ) : ℕ → DataBlockIter → DataBlockIter
  | 0, it => it
  | fuel + 1, it =>
    let r := it.parseNextKey
    if r.2 = true then
      let it := { r.1 with
        prevEntries := r.1.prevEntries ++ [⟨r.1.current, r.1.rawKey, r.1.valueOffset, r.1.valueSize⟩] }
      if it.nextEntryOffset < original then prevScanLoop original fuel it else it
    else r.1

/-- `DataBlockIter::PrevImpl` -/
def prev (it : DataBlockIter) : DataBlockIter :=
  if 0 < it.prevEntriesIdx ∧ (it.prevEntries.getD it.prevEntriesIdx.toNat default).offset = it.current then
    -- the entry before is cached
    let e := it.prevEntries.getD (it.prevEntriesIdx - 1).toNat default
    { it with
      prevEntriesIdx := it.prevEntriesIdx - 1, current := e.offset, rawKey := e.key
      valueOffset := e.valueOffset, valueSize := e.valueSize }
  else
    let it := { it with prevEntriesIdx := -1, prevEntries := [] }
    match it.restartBefore it.current it.restartIndex with
    | none => { it with current := it.restarts, restartIndex := it.numRestarts }
    | some index =>
      let it := prevScanLoop it.current it.data.length (it.seekToRestartPoint index)
      { it with prevEntriesIdx := (it.prevEntries.length : Int) - 1 }

/-- `CompareCurrentKey` under `icmp_`, the `InternalKeyComparator` of the user comparator -/
def compareCurrentKey (userCompare : List UInt8 → List UInt8 → Ordering) (it : DataBlockIter) (other : List UInt8) :
    Ordering :=
  internalKeyCompare userCompare it.rawKey other

/-- the loop of `BinarySeek` over the restart keys, until `left = right`: the iterator holds the last restart key it
compared, and the result is `left` with `skip_linear_scan`, or `none` where a restart entry does not decode or shares
bytes -/
def binarySeekLoop (userCompare : List UInt8 → List UInt8 → Ordering) (target : List UInt8) :
    ℕ → DataBlockIter → ℤ → ℤ → Bool → DataBlockIter × Option (ℤ × Bool)
  | 0, it, left, _, skipLinearScan => (it, some (left, skipLinearScan))
  | fuel + 1, it, left, right, skipLinearScan =>
    if left = right then (it, some (left, skipLinearScan))
    else
      -- rounded up, so that `mid` is in `(left, right]`
      let mid := left + (right - left + 1) / 2
      match decodeEntry it.data (it.getRestartPoint mid.toNat) it.restarts with
      | none => (it.corruptionError "bad entry in block", none)
      | some (shared, nonShared, _, p) =>
        if shared ≠ 0 then (it.corruptionError "bad entry in block", none)
        else
          let it := { it with rawKey := it.updateRawKeyAndMaybePadMinTimestamp ((it.data.drop p).take nonShared) }
          match it.compareCurrentKey userCompare target with
          | .lt => binarySeekLoop userCompare target fuel it mid right skipLinearScan
          | .gt => binarySeekLoop userCompare target fuel it left (mid - 1) skipLinearScan
          | .eq => binarySeekLoop userCompare target fuel it mid mid true

/-- `BinarySeek`: the restart interval the scan starts from and `skip_linear_scan`, or `none` for a block whose
restart array is at offset 0 and where a restart entry does not decode. `right` starts at `num_restarts_ - 1` in
`uint32_t`, and the loop runs with one round more than that, which is as many as it can take -/
def binarySeek (userCompare : List UInt8 → List UInt8 → Ordering) (it : DataBlockIter) (target : List UInt8) :
    DataBlockIter × Option (ℕ × Bool) :=
  if it.restarts = 0 then (it, none)
  else
    let right := (it.numRestarts + 2 ^ 32 - 1) % 2 ^ 32
    match binarySeekLoop userCompare target (right + 1) it (-1) right false with
    | (it, none) => (it, none)
    | (it, some (left, skipLinearScan)) =>
      -- every restart key is above the target: the first key of the block is the result
      if left = -1 then (it, some (0, true)) else (it, some (left.toNat, skipLinearScan))

/-- the linear scan of `FindKeyAfterBinarySeek`: `Next` until the iterator runs off the entries, reaches
`max_offset`, or holds a key not below the target -/
def findKeyAfterBinarySeekLoop (userCompare : List UInt8 → List UInt8 → Ordering) (target : List UInt8)
    (maxOffset : ℕ) : ℕ → DataBlockIter → DataBlockIter
  | 0, it => it
  | fuel + 1, it =>
    let it := it.next
    if !it.valid then it
    else if it.current = maxOffset then it
    else if (it.compareCurrentKey userCompare target).isGE then it
    else findKeyAfterBinarySeekLoop userCompare target maxOffset fuel it

/-- `FindKeyAfterBinarySeek`: the restart key of interval `index`, then, unless it is the result, the scan up to the
next restart point, or to the end of the entries in the last interval -/
def findKeyAfterBinarySeek (userCompare : List UInt8 → List UInt8 → Ordering) (it : DataBlockIter)
    (target : List UInt8) (index : ℕ) (skipLinearScan : Bool) : DataBlockIter :=
  let it := (it.seekToRestartPoint index).next
  if skipLinearScan then it
  else
    let maxOffset := if index + 1 < it.numRestarts then it.getRestartPoint (index + 1) else 2 ^ 32 - 1
    findKeyAfterBinarySeekLoop userCompare target maxOffset it.data.length it

/-- `DataBlockIter::SeekImpl` -/
def seek (userCompare : List UInt8 → List UInt8 → Ordering) (it : DataBlockIter) (target : List UInt8) :
    DataBlockIter :=
  if it.initialized then
    match it.binarySeek userCompare target with
    | (it, none) => it
    | (it, some (index, skipLinearScan)) => it.findKeyAfterBinarySeek userCompare target index skipLinearScan
  else it

/-- the loop of `SeekForPrevImpl`: `Prev` while the iterator holds a key above the target -/
def seekForPrevLoop (userCompare : List UInt8 → List UInt8 → Ordering) (target : List UInt8) :
    ℕ → DataBlockIter → DataBlockIter
  | 0, it => it
  | fuel + 1, it =>
    if it.valid = true ∧ it.compareCurrentKey userCompare target = .gt then
      seekForPrevLoop userCompare target fuel it.prev
    else it

/-- `DataBlockIter::SeekForPrevImpl`: the seek, then `SeekToLast` when it ran off the entries with its status ok, and
otherwise `Prev` back to a key not above the target -/
def seekForPrev (userCompare : List UInt8 → List UInt8 → Ordering) (it : DataBlockIter) (target : List UInt8) :
    DataBlockIter :=
  if it.initialized then
    match it.binarySeek userCompare target with
    | (it, none) => it
    | (it, some (index, skipLinearScan)) =>
      let it := it.findKeyAfterBinarySeek userCompare target index skipLinearScan
      if !it.valid then (if it.status = .ok then it.seekToLast else it)
      else seekForPrevLoop userCompare target it.data.length it
  else it

end DataBlockIter

/-- `Block::NewDataIterator` -/
def Block.newDataIterator (b : Block) (tsSz : ℕ) (userDefinedTimestampsPersisted : Bool) : DataBlockIter :=
  if b.size < 8 then DataBlockIter.invalidated (.corruption "bad block contents")
  else if b.numRestarts = 0 then DataBlockIter.invalidated .ok
  else DataBlockIter.initializeBase b.data b.restartOffset b.numRestarts tsSz userDefinedTimestampsPersisted

end ForSt
