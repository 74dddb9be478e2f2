import Mathlib
/-!
The level files of a version and the overlap tests on them (`db/version_set.cc`).

A level is the `LevelFilesBrief` list of its files, each an `FdWithKeyRange`: the user keys of its boundaries, and
the user keys of its point entries in the order a table iterator reads them. The user comparator is a linear order
on `UK`; a seek to the smallest internal key of a user key lands on the first entry whose user key is not below it.

Two tests read a level. `OverlapInLevel` asks whether some file's key range meets `[smallest, largest]`: on a level
past L0 by `FindFile`'s binary search (the first file whose largest key is not before the range, which
`List.findIdx` finds on the same list) and one comparison. `OverlapWithLevelIterator` asks whether the level holds an
entry inside the range, by one seek (on L0 through each file whose range meets it, past L0 through the level iterator,
which reads the files' entries one file after another), or a range tombstone of a file it opened that meets it.
-/

namespace ForSt

/-- `FdWithKeyRange`, with the user keys of the file's entries -/
structure FdWithKeyRange (UK : Type) where
  smallestKey : UK
  largestKey : UK
  keys : List UK
deriving DecidableEq, Repr

/-- the files of each level of a `VersionStorageInfo`, and `base_level_` -/
structure VersionStorageInfo (UK : Type) where
  files : List (List (FdWithKeyRange UK))
  baseLevel : Int
deriving DecidableEq, Repr

variable {UK : Type} [LinearOrder UK]

/-- `num_levels_` -/
def VersionStorageInfo.numLevels (v : VersionStorageInfo UK) : ℕ := v.files.length

/-- `LevelFilesBrief(level)`; a level past the last one has no files -/
def VersionStorageInfo.levelFiles (v : VersionStorageInfo UK) (level : ℕ) : List (FdWithKeyRange UK) :=
  v.files.getD level []

def VersionStorageInfo.numLevelFiles (v : VersionStorageInfo UK) (level : ℕ) : ℕ := (v.levelFiles level).length

/-- `AfterFile`: the user key is past the file's largest key -/
def afterFile (userKey : UK) (f : FdWithKeyRange UK) : Bool := f.largestKey < userKey

/-- `BeforeFile`: the user key is before the file's smallest key -/
def beforeFile (userKey : UK) (f : FdWithKeyRange UK) : Bool := userKey < f.smallestKey

/-- `FindFile` for the smallest internal key of `userKey` (`std::lower_bound`): the first file whose largest key is
not before it -/
def findFile (files : List (FdWithKeyRange UK)) (userKey : UK) : ℕ :=
  files.findIdx (fun f => userKey ≤ f.largestKey)

/-- `SomeFileOverlapsRange` -/
def someFileOverlapsRange (disjointSortedFiles : Bool) (files : List (FdWithKeyRange UK))
    (smallestUserKey largestUserKey : UK) : Bool :=
  if !disjointSortedFiles then
    -- need to check against all files
    files.any (fun f => !(afterFile smallestUserKey f || beforeFile largestUserKey f))
  else
    match files[findFile files smallestUserKey]? with
    -- beginning of range is after all files, so no overlap
    | none => false
    | some f => !beforeFile largestUserKey f

/-- `VersionStorageInfo::OverlapInLevel` (its shortcut for the empty levels past `num_non_empty_levels_` returns the
`false` the search returns on them) -/
def VersionStorageInfo.overlapInLevel (v : VersionStorageInfo UK) (level : ℕ) (smallestUserKey largestUserKey : UK) :
    Bool :=
  someFileOverlapsRange (level > 0) (v.levelFiles level) smallestUserKey largestUserKey

/-- `OverlapWithIterator`: seek to the first entry of `smallest_user_key` and see whether its user key is at most
`largest_user_key` -/
def overlapWithIterator (iterKeys : List UK) (smallestUserKey largestUserKey : UK) : Bool :=
  match iterKeys.find? (fun k => smallestUserKey ≤ k) with
  | some k => k ≤ largestUserKey
  | none => false

/-- `RangeDelAggregator::IsRangeOverlapped` for a read at `kMaxSequenceNumber`, at the user keys: some tombstone
`[start, end)` of the files added to the aggregator meets `[smallest_user_key, largest_user_key]` -/
def isRangeOverlapped (tombstones : List (UK × UK)) (smallestUserKey largestUserKey : UK) : Bool :=
  tombstones.any fun t => t.1 ≤ largestUserKey && smallestUserKey < t.2

/-- `Version::OverlapWithLevelIterator`. `rangeDels f` is the range tombstones the table reader of `f` adds to
`range_del_agg` when the iterator opens `f`. On L0 every file whose range meets the range is opened; past L0 the level
iterator opens the file `FindFile` picks and, while a file has no entry at or past the seek key, the next one -/
def VersionStorageInfo.overlapWithLevelIterator (v : VersionStorageInfo UK)
    (rangeDels : FdWithKeyRange UK → List (UK × UK)) (smallestUserKey largestUserKey : UK) (level : ℕ) : Bool :=
  if level = 0 then
    -- each L0 file whose range meets the range, until one overlaps
    let opened := (v.levelFiles 0).filter fun f => !(afterFile smallestUserKey f || beforeFile largestUserKey f)
    opened.any (fun f => overlapWithIterator f.keys smallestUserKey largestUserKey) ||
      isRangeOverlapped (opened.flatMap rangeDels) smallestUserKey largestUserKey
  else if v.numLevelFiles level > 0 then
    let rest := (v.levelFiles level).drop (findFile (v.levelFiles level) smallestUserKey)
    let opened := rest.take (rest.findIdx (fun f => f.keys.any (smallestUserKey ≤ ·)) + 1)
    overlapWithIterator ((v.levelFiles level).flatMap (·.keys)) smallestUserKey largestUserKey ||
      isRangeOverlapped (opened.flatMap rangeDels) smallestUserKey largestUserKey
  else false

end ForSt
