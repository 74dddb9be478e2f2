import ForSt.Lib.Containers
/-!
The point lock tracker of pessimistic transactions (`utilities/transactions/lock/point/point_lock_tracker.cc`): each
locked key with its earliest sequence number, its read and write counts, and whether some lock was exclusive.

`tracked_keys_` and its inner maps are `AList`s. The counts are `uint32_t` and wrap. `Subtract` and
`GetTrackedLocksSinceSavePoint` look families up with `at`, which throws for a missing one: that is `none`; a key the
source asserts is tracked but is not is left untracked in `Subtract` and skipped in `GetTrackedLocksSinceSavePoint`.
-/

namespace ForSt

open ForSt.Containers

/-- `ColumnFamilyId` -/
abbrev ColumnFamilyId := UInt32

/-- `PointLockRequest`, with its defaults -/
structure PointLockRequest where
  /-- the id of the key's column family -/
  columnFamilyId : ColumnFamilyId := 0
  key : List UInt8
  /-- the sequence number from which there is no concurrent update to the key -/
  seq : ℕ := 0
  readOnly : Bool := false
  exclusive : Bool := true
deriving DecidableEq, Repr

/-- `TrackedKeyInfo` -/
structure TrackedKeyInfo where
  /-- earliest sequence number that is relevant to this transaction for this key -/
  seq : ℕ
  numWrites : UInt32
  numReads : UInt32
  exclusive : Bool
deriving DecidableEq, Repr

/-- the constructor `TrackedKeyInfo(seq_no)` -/
def TrackedKeyInfo.create (seqNo : ℕ) : TrackedKeyInfo := ⟨seqNo, 0, 0, false⟩

/-- `TrackedKeyInfo::Merge`, which asserts that its own `seq` is not later than the other's and keeps it -/
def TrackedKeyInfo.merge (self info : TrackedKeyInfo) : TrackedKeyInfo :=
  { self with
    numReads := self.numReads + info.numReads
    numWrites := self.numWrites + info.numWrites
    exclusive := self.exclusive || info.exclusive }

abbrev TrackedKeyInfos := AList (fun _ : List UInt8 => TrackedKeyInfo)

abbrev TrackedKeys := AList (fun _ : ColumnFamilyId => TrackedKeyInfos)

/-- `PointLockTracker` -/
structure PointLockTracker where
  trackedKeys : TrackedKeys

/-- a tracker that tracks nothing -/
def PointLockTracker.empty : PointLockTracker := ⟨∅⟩

/-- `PointLockStatus`, with its defaults -/
structure PointLockStatus where
  locked : Bool := false
  exclusive : Bool := true
  seq : ℕ := 0
deriving DecidableEq, Repr

/-- `UntrackStatus` -/
inductive UntrackStatus where
  | notTracked
  | untracked
  | removed
deriving DecidableEq, Repr

/-! ## Tracking and untracking one request -/

/-- what `Track` makes of the request's key's info: `try_emplace` creates it at the request's sequence number, and an
earlier sequence number replaces a tracked one; then the request is counted and its mode joined -/
def trackKeyInfo (r : PointLockRequest) (old : Option TrackedKeyInfo) : TrackedKeyInfo :=
  let info := match old with
    | none => TrackedKeyInfo.create r.seq
    | some info => if r.seq < info.seq then { info with seq := r.seq } else info
  let info := if r.readOnly then { info with numReads := info.numReads + 1 }
    else { info with numWrites := info.numWrites + 1 }
  { info with exclusive := info.exclusive || r.exclusive }

/-- `PointLockTracker::Track` -/
def PointLockTracker.track (t : PointLockTracker) (r : PointLockRequest) : PointLockTracker :=
  -- `tracked_keys_[cf]` creates the family's map when it is missing
  let keys := (t.trackedKeys.lookup r.columnFamilyId).getD ∅
  ⟨t.trackedKeys.insert r.columnFamilyId (keys.insert r.key (trackKeyInfo r (keys.lookup r.key)))⟩

/-- `PointLockTracker::Untrack`: a count of the request's mode is taken back when there is one, and the key, then an
emptied family, is erased once both counts are zero -/
def PointLockTracker.untrack (t : PointLockTracker) (r : PointLockRequest) : UntrackStatus × PointLockTracker :=
  match t.trackedKeys.lookup r.columnFamilyId with
  | none => (.notTracked, t)
  | some keys =>
    match keys.lookup r.key with
    | none => (.notTracked, t)
    | some info =>
      let (untracked, info) :=
        if r.readOnly then
          if info.numReads > 0 then (true, { info with numReads := info.numReads - 1 }) else (false, info)
        else if info.numWrites > 0 then (true, { info with numWrites := info.numWrites - 1 }) else (false, info)
      if info.numReads = 0 ∧ info.numWrites = 0 then
        let keys := keys.erase r.key
        (.removed, ⟨if keys.entries.isEmpty then t.trackedKeys.erase r.columnFamilyId
          else t.trackedKeys.insert r.columnFamilyId keys⟩)
      else
        (if untracked then .untracked else .notTracked,
          ⟨t.trackedKeys.insert r.columnFamilyId (keys.insert r.key info)⟩)

/-- `PointLockTracker::GetPointLockStatus` -/
def PointLockTracker.getPointLockStatus (t : PointLockTracker) (columnFamilyId : ColumnFamilyId)
    (key : List UInt8) : PointLockStatus :=
  match t.trackedKeys.lookup columnFamilyId with
  | none => {}
  | some keys =>
    match keys.lookup key with
    | none => {}
    | some keyInfo => { locked := true, exclusive := keyInfo.exclusive, seq := keyInfo.seq }

/-! ## Whole trackers -/

/-- the key loop of `Merge` for a family both trackers track: a key not tracked yet is copied, a tracked one merged -/
def mergeKeyInfos (currentKeys keys : TrackedKeyInfos) : TrackedKeyInfos :=
  rewriteEach (fun _ info currentInfo => some (match currentInfo with
    | none => info
    | some current => current.merge info)) currentKeys keys.entries

/-- `PointLockTracker::Merge`: a family not tracked yet is copied whole -/
def PointLockTracker.merge (self t : PointLockTracker) : PointLockTracker :=
  ⟨rewriteEach (fun _ keys currentCfKeys => some (match currentCfKeys with
    | none => keys
    | some currentKeys => mergeKeyInfos currentKeys keys)) self.trackedKeys t.trackedKeys.entries⟩

/-- a key's info after `Subtract` takes the other tracker's counts of it away; `none` once both are zero and the
key is erased -/
def subtractKeyInfo (current info : TrackedKeyInfo) : Option TrackedKeyInfo :=
  let current := if info.numReads > 0 then { current with numReads := current.numReads - info.numReads } else current
  let current :=
    if info.numWrites > 0 then { current with numWrites := current.numWrites - info.numWrites } else current
  if current.numReads = 0 ∧ current.numWrites = 0 then none else some current

/-- the key loop of `Subtract` over one family; a family emptied by it is kept -/
def subtractKeyInfos (currentKeys keys : TrackedKeyInfos) : TrackedKeyInfos :=
  rewriteEach (fun _ info currentInfo => currentInfo.bind (subtractKeyInfo · info)) currentKeys keys.entries

/-- `PointLockTracker::Subtract` -/
def PointLockTracker.subtract (self t : PointLockTracker) : Option PointLockTracker := do
  let trackedKeys ← t.trackedKeys.entries.foldlM (fun trackedKeys cfKeys => do
      -- `tracked_keys_.at(cf)` throws for a family this tracker does not track
      let currentKeys ← trackedKeys.lookup cfKeys.1
      pure (trackedKeys.insert cfKeys.1 (subtractKeyInfos currentKeys cfKeys.2))) self.trackedKeys
  pure ⟨trackedKeys⟩

/-- one turn of the key loop of `GetTrackedLocksSinceSavePoint`: a key all of whose reads and writes were made since
the save point is tracked again, read-only when the save point saw no write of it -/
def trackKeySinceSavePoint (cf : ColumnFamilyId) (currentKeys : TrackedKeyInfos) (t : PointLockTracker)
    (keyInfo : Σ _ : List UInt8, TrackedKeyInfo) : PointLockTracker :=
  match currentKeys.lookup keyInfo.1 with
  | none => t
  | some current =>
    if current.numReads = keyInfo.2.numReads ∧ current.numWrites = keyInfo.2.numWrites then
      t.track
        { columnFamilyId := cf
          key := keyInfo.1
          seq := keyInfo.2.seq
          readOnly := keyInfo.2.numWrites == 0
          exclusive := keyInfo.2.exclusive }
    else t

/-- the key loop of `GetTrackedLocksSinceSavePoint` over one family -/
def trackSinceSavePoint (cf : ColumnFamilyId) (currentKeys : TrackedKeyInfos)
    (keyInfos : List (Σ _ : List UInt8, TrackedKeyInfo)) (t : PointLockTracker) : PointLockTracker :=
  keyInfos.foldl (trackKeySinceSavePoint cf currentKeys) t

/-- `PointLockTracker::GetTrackedLocksSinceSavePoint` -/
def PointLockTracker.getTrackedLocksSinceSavePoint (self savePointTracker : PointLockTracker) :
    Option PointLockTracker :=
  savePointTracker.trackedKeys.entries.foldlM (fun t cfKeys => do
    -- `tracked_keys_.at(cf)` throws for a family this tracker does not track
    let currentKeys ← self.trackedKeys.lookup cfKeys.1
    pure (trackSinceSavePoint cfKeys.1 currentKeys cfKeys.2.entries t)) PointLockTracker.empty

/-- the tracker of a sequence of requests, tracked one after the other -/
def PointLockTracker.trackAll (t : PointLockTracker) (rs : List PointLockRequest) : PointLockTracker :=
  rs.foldl PointLockTracker.track t

end ForSt
