import ForSt.Db.Dbformat
import ForSt.Lib.ListCompare
/-!
`BlockBuilder` (`table/block_based/block_builder.cc`): the bytes of a block of key-value entries.

Each entry is `shared`, `non_shared` and the value size as varint32s, the `non_shared` bytes of the key past the
`shared` bytes it has in common with the key before, then the value; with value delta encoding the value size is not
written and, past the first entry of a restart interval, the value delta stands for the value. Every
`block_restart_interval` entries a restart point starts an entry that shares nothing. `Finish` appends the offsets of
the restart points as fixed32s and a fixed32 footer that packs their number with the index type. When user-defined
timestamps are not persisted, the timestamp is stripped from each key before it is written.

The sizes and offsets the builder writes are cast to `uint32_t`, as the source casts them. The hash index of a
`kDataBlockBinaryAndHash` block, the size estimate and `AddWithLastKey` are left out.
-/

namespace ForSt

/-- `BlockBasedTableOptions::DataBlockIndexType` -/
inductive DataBlockIndexType where
  | kDataBlockBinarySearch
  | kDataBlockBinaryAndHash
deriving DecidableEq, Repr

/-- `kDataBlockIndexTypeBitShift` -/
def kDataBlockIndexTypeBitShift : ℕ := 31

/-- `kNumRestartsMask` -/
def kNumRestartsMask : ℕ := 2 ^ kDataBlockIndexTypeBitShift - 1

/-- `PackIndexTypeAndNumRestarts` -/
def packIndexTypeAndNumRestarts (indexType : DataBlockIndexType) (numRestarts : ℕ) : ℕ :=
  match indexType with
  | .kDataBlockBinarySearch => numRestarts
  | .kDataBlockBinaryAndHash => numRestarts ||| 2 ^ kDataBlockIndexTypeBitShift

/-- the fields of `BlockBuilder` that its calls read and update -/
structure BlockBuilder where
  blockRestartInterval : ℕ
  useDeltaEncoding : Bool
  useValueDeltaEncoding : Bool
  /-- `strip_ts_sz_`: the timestamp size when timestamps are not persisted, else zero -/
  stripTsSz : ℕ
  isUserKey : Bool
  buffer : List UInt8
  /-- `restarts_`, the `uint32_t` offsets of the restart points -/
  restarts : List ℕ
  counter : ℕ
  lastKey : List UInt8
deriving DecidableEq, Repr

namespace BlockBuilder

/-- the constructor: the first restart point is at offset 0 -/
def create (blockRestartInterval : ℕ) (useDeltaEncoding useValueDeltaEncoding : Bool) (tsSz : ℕ)
    (persistUserDefinedTimestamps isUserKey : Bool) : BlockBuilder :=
  ⟨blockRestartInterval, useDeltaEncoding, useValueDeltaEncoding,
    if persistUserDefinedTimestamps then 0 else tsSz, isUserKey, [], [0], 0, []⟩

/-- `MaybeStripTimestampFromKey` -/
def maybeStripTimestampFromKey (b : BlockBuilder) (key : List UInt8) : List UInt8 :=
  if b.stripTsSz > 0 then
    if b.isUserKey then key.take (key.length - b.stripTsSz) else stripTimestampFromInternalKey key b.stripTsSz
  else key

/-- `AddWithLastKeyImpl`, with the value delta that value delta encoding writes in place of the value -/
def addWithLastKeyImpl (b : BlockBuilder) (key value lastKey deltaValue : List UInt8) (bufferSize : ℕ) :
    BlockBuilder :=
  let keyToPersist := b.maybeStripTimestampFromKey key
  let lastKeyPersisted := if lastKey.length = 0 then lastKey else b.maybeStripTimestampFromKey lastKey
  -- a full interval restarts compression
  let restart := decide (b.blockRestartInterval ≤ b.counter)
  let shared := if restart then 0
    else if b.useDeltaEncoding then ListCompare.diffIndex keyToPersist lastKeyPersisted else 0
  let nonShared := keyToPersist.length - shared
  let sizes := if b.useValueDeltaEncoding then
      Coding.putVarint32 (UInt32.ofNat shared) ++ Coding.putVarint32 (UInt32.ofNat nonShared)
    else Coding.putVarint32 (UInt32.ofNat shared) ++ Coding.putVarint32 (UInt32.ofNat nonShared) ++
      Coding.putVarint32 (UInt32.ofNat value.length)
  { b with
    buffer := b.buffer ++ sizes ++ keyToPersist.drop shared ++
      (if shared ≠ 0 ∧ b.useValueDeltaEncoding = true then deltaValue else value)
    restarts := if restart then b.restarts ++ [bufferSize % 2 ^ 32] else b.restarts
    counter := if restart then 1 else b.counter + 1 }

/-- `Add`: the last key is kept only for delta encoding -/
def add (b : BlockBuilder) (key value deltaValue : List UInt8) : BlockBuilder :=
  let b' := b.addWithLastKeyImpl key value b.lastKey deltaValue b.buffer.length
  if b.useDeltaEncoding then { b' with lastKey := key } else b'

/-- `Finish` of a block searched by binary search: the entries, the restart array, then the footer -/
def finish (b : BlockBuilder) : List UInt8 :=
  b.buffer ++ (b.restarts.map Coding.encodeFixed32).flatten ++
    Coding.encodeFixed32 (packIndexTypeAndNumRestarts .kDataBlockBinarySearch (b.restarts.length % 2 ^ 32))

end BlockBuilder

end ForSt
