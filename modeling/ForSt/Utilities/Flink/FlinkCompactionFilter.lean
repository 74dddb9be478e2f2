import ForSt.Lib.Bytes
/-!
`FlinkCompactionFilter` (`utilities/flink/flink_compaction_filter.cc`, `.h`): drops Flink state whose time to live
has passed.

Each entry carries its last access time, a big-endian `int64_t` at `timestamp_offset`. `Decide` removes an entry whose
timestamp plus the TTL, capped at `JAVA_MAX_LONG`, is not after now. For list state, `FixedListElementFilter` walks
the expired elements from the head, and `ListDecide` removes, keeps or cuts the value. Reads past the end and signed
overflow give `none`; `size_t` sums are modulo `2^64`. `FilterV2` updates the cached config and time first.
-/

namespace ForSt.flink

open ForSt.Bytes

/-- `JAVA_MAX_LONG` -/
def javaMaxLong : ℤ := 2 ^ 63 - 1

/-- `JAVA_MIN_LONG` -/
def javaMinLong : ℤ := -2 ^ 63

/-- `JAVA_MAX_SIZE` -/
def javaMaxSize : ℕ := 0x7fffffff

/-- `TIMESTAMP_BYTE_SIZE` -/
def timestampByteSize : ℕ := 8

/-- `BITS_PER_BYTE` -/
def bitsPerByte : ℕ := 8

/-- the decisions of `CompactionFilter::Decision` this filter returns -/
inductive Decision where
  | kKeep
  | kRemove
  | kChangeValue
deriving DecidableEq, Repr

/-- `CompactionFilter::ValueType` -/
inductive ValueType where
  | kValue
  | kMergeOperand
  | kBlobIndex
  | kWideColumnEntity
deriving DecidableEq, Repr

/-- `static_cast<int64_t>` of a `uint64_t` -/
def int64OfUInt64 (x : ℕ) : ℤ := if x < 2 ^ 63 then x else (x : ℤ) - 2 ^ 64

/-- a signed result that fits `int64_t`, `none` when it overflows -/
def checkedInt64 (x : ℤ) : Option ℤ := if javaMinLong ≤ x ∧ x ≤ javaMaxLong then some x else none

/-- the loop of `DeserializeTimestamp` for its first `count` bytes: each byte ORed in at its big-endian place -/
def deserializeLoop (src : List UInt8) (offset count : ℕ) : ℕ :=
  (List.range count).foldl
    (fun result i => result ||| (src.getD (offset + i) 0).toNat <<< ((timestampByteSize - 1 - i) * bitsPerByte)) 0

/-- `DeserializeTimestamp`, `none` when one of its eight bytes lies outside `src` -/
def deserializeTimestamp (src : List UInt8) (offset : ℕ) : Option ℤ :=
  if offset + timestampByteSize ≤ src.length then some (int64OfUInt64 (deserializeLoop src offset timestampByteSize))
  else none

/-- `Decide`: remove when the timestamp at `timestampOffset` plus the TTL, kept from overflowing, is not after
`currentTimestamp` -/
def decideTtl (tsBytes : List UInt8) (ttl : ℤ) (timestampOffset : ℕ) (currentTimestamp : ℤ) : Option Decision := do
  let timestamp ← deserializeTimestamp tsBytes timestampOffset
  let ttlWithoutOverflow ← if timestamp > 0 then do
      let room ← checkedInt64 (javaMaxLong - timestamp)
      pure (min room ttl)
    else pure ttl
  let expiry ← checkedInt64 (timestamp + ttlWithoutOverflow)
  pure (if expiry ≤ currentTimestamp then .kRemove else .kKeep)

/-- `FixedListElementFilter`, and the factory that creates it with the same two fields -/
structure FixedListElementFilter where
  fixedSize : ℕ
  timestampOffset : ℕ
deriving DecidableEq, Repr

/-- the loop of `NextUnexpiredOffset` from `offset`, for at most `fuel` rounds -/
def FixedListElementFilter.nextUnexpiredOffsetLoop (flt : FixedListElementFilter) (list : List UInt8)
    (ttl currentTimestamp : ℤ) : ℕ → ℕ → Option ℕ
  | 0, _ => none
  | fuel + 1, offset =>
    if offset < list.length then
      match decideTtl list ttl ((offset + flt.timestampOffset) % 2 ^ 64) currentTimestamp with
      | none => none
      | some decision =>
        if decision ≠ .kKeep then
          let newOffset := (offset + flt.fixedSize) % 2 ^ 64
          if newOffset ≥ javaMaxSize ∨ newOffset < offset then some javaMaxSize
          else flt.nextUnexpiredOffsetLoop list ttl currentTimestamp fuel newOffset
        else some offset
    else some offset

/-- `FixedListElementFilter::NextUnexpiredOffset`: the offset of the first element from the head that is not
expired, or one at or past the end -/
def FixedListElementFilter.nextUnexpiredOffset (flt : FixedListElementFilter) (list : List UInt8)
    (ttl currentTimestamp : ℤ) : Option ℕ :=
  flt.nextUnexpiredOffsetLoop list ttl currentTimestamp (list.length + 1) 0

/-- `FlinkCompactionFilter::StateType` -/
inductive StateType where
  | disabled
  | value
  | list
deriving DecidableEq, Repr

/-- `FlinkCompactionFilter::Config` -/
structure Config where
  stateType : StateType
  timestampOffset : ℕ
  ttl : Int64
  queryTimeAfterNumEntries : Int64
  listElementFilterFactory : Option FixedListElementFilter
deriving DecidableEq, Repr

/-- `DISABLED_CONFIG` -/
def disabledConfig : Config := ⟨.disabled, 0, Int64.maxValue, Int64.maxValue, none⟩

/-- the fields of `FlinkCompactionFilter` that `FilterV2` reads and updates; a cached config of `none` is
`&DISABLED_CONFIG` -/
structure FlinkCompactionFilter where
  configCached : Option Config
  listElementFilter : Option FixedListElementFilter
  currentTimestamp : Int64
  recordCounter : Int64
deriving DecidableEq, Repr

/-- what `FilterV2` decides, with `*new_value` when it assigns it -/
structure FilterResult where
  decision : Decision
  newValue : Option (List UInt8)
deriving DecidableEq, Repr

namespace FlinkCompactionFilter

/-- the constructor -/
def create : FlinkCompactionFilter := ⟨none, none, Int64.maxValue, Int64.maxValue⟩

/-- `config_cached_` -/
def config (s : FlinkCompactionFilter) : Config := s.configCached.getD disabledConfig

/-- `InitConfigIfNotYet`, with the config the holder holds now -/
def initConfigIfNotYet (s : FlinkCompactionFilter) (holder : Option Config) : FlinkCompactionFilter :=
  match s.configCached with
  | none => { s with configCached := holder }
  | some _ => s

/-- `CreateListElementFilterIfNull` -/
def createListElementFilterIfNull (s : FlinkCompactionFilter) : FlinkCompactionFilter :=
  match s.listElementFilter with
  | none => { s with listElementFilter := s.config.listElementFilterFactory }
  | some _ => s

/-- `UpdateCurrentTimestampIfStale`, with the time the provider gives now -/
def updateCurrentTimestampIfStale (s : FlinkCompactionFilter) (providerTimestamp : Int64) :
    FlinkCompactionFilter :=
  let s := if s.recordCounter.toInt ≥ s.config.queryTimeAfterNumEntries.toInt then
    { s with recordCounter := 0, currentTimestamp := providerTimestamp } else s
  { s with recordCounter := s.recordCounter + 1 }

/-- the filter as `FilterV2` finds it once its three updates are made -/
def prepare (s : FlinkCompactionFilter) (holder : Option Config) (providerTimestamp : Int64) :
    FlinkCompactionFilter :=
  ((s.initConfigIfNotYet holder).createListElementFilterIfNull).updateCurrentTimestampIfStale providerTimestamp

/-- `ListNextUnexpiredOffset`: an offset before `offset` or past `JAVA_MAX_SIZE` is wrong, and answered with
`JAVA_MAX_SIZE` -/
def listNextUnexpiredOffset (s : FlinkCompactionFilter) (flt : FixedListElementFilter) (existingValue : List UInt8)
    (offset : ℕ) (ttl : ℤ) : Option ℕ := do
  let newOffset ← flt.nextUnexpiredOffset existingValue ttl s.currentTimestamp.toInt
  pure (if newOffset ≥ javaMaxSize ∨ newOffset < offset then javaMaxSize else newOffset)

/-- the end of `ListDecide` at the first unexpired offset, through `SetUnexpiredListValue` -/
def listDecision (existingValue : List UInt8) (offset : ℕ) : FilterResult :=
  if offset ≥ existingValue.length then ⟨.kRemove, none⟩
  else if offset > 0 then ⟨.kChangeValue, some (existingValue.drop offset)⟩
  else ⟨.kKeep, none⟩

/-- `ListDecide` -/
def listDecide (s : FlinkCompactionFilter) (flt : FixedListElementFilter) (existingValue : List UInt8) :
    Option FilterResult :=
  if 0 < existingValue.length then
    match decideTtl existingValue s.config.ttl.toInt s.config.timestampOffset s.currentTimestamp.toInt with
    | none => none
    | some decision =>
      if decision ≠ .kKeep then
        match s.listNextUnexpiredOffset flt existingValue 0 s.config.ttl.toInt with
        | none => none
        | some offset =>
          -- a wrong offset keeps the value
          if offset ≥ javaMaxSize then some ⟨.kKeep, none⟩ else some (listDecision existingValue offset)
      else some (listDecision existingValue 0)
  else some (listDecision existingValue 0)

/-- the decision of `FilterV2` once the filter is prepared -/
def decideEntry (s : FlinkCompactionFilter) (valueType : ValueType) (existingValue : List UInt8) :
    Option FilterResult :=
  let cfg := s.config
  -- too short a value to have a timestamp at all
  let tooShortValue := existingValue.length < (cfg.timestampOffset + timestampByteSize) % 2 ^ 64
  let valueOrMerge := valueType = .kValue ∨ valueType = .kMergeOperand
  let valueState := cfg.stateType = .value ∧ valueType = .kValue
  let listEntry := cfg.stateType = .list ∧ valueOrMerge
  if ¬ tooShortValue ∧ (valueState ∨ listEntry) then
    match s.listElementFilter with
    | some flt => if listEntry then s.listDecide flt existingValue
      else (decideTtl existingValue cfg.ttl.toInt cfg.timestampOffset s.currentTimestamp.toInt).map (⟨·, none⟩)
    | none => (decideTtl existingValue cfg.ttl.toInt cfg.timestampOffset s.currentTimestamp.toInt).map (⟨·, none⟩)
  else some ⟨.kKeep, none⟩

/-- `FilterV2`: the decision, `none` when it is undefined, and the filter after the call -/
def filterV2 (s : FlinkCompactionFilter) (holder : Option Config) (providerTimestamp : Int64)
    (valueType : ValueType) (existingValue : List UInt8) : Option FilterResult × FlinkCompactionFilter :=
  let s := s.prepare holder providerTimestamp
  (s.decideEntry valueType existingValue, s)

end FlinkCompactionFilter

end ForSt.flink
