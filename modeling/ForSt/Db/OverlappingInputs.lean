import ForSt.Db.Dbformat
import ForSt.Db.VersionSet
import ForSt.Lib.SortedSearch
/-!
The queries of `VersionStorageInfo` for the files of a level that overlap a range (`db/version_set.cc`):
`GetOverlappingInputs`, `GetCleanInputsWithinInterval`, the binary search under both, and `SomeFileOverlapsRange`;
and `sstableKeyCompare` (`db/compaction/compaction.cc`), by which the search compares boundaries past L0.

A level's files are `FdWithKeyRange`s with internal-key boundaries; `files_[level][i]` and
`level_files_brief_[level].files[i]` are the same file, so one list stands for both. The range's bounds and the
out-parameters `file_index` and `next_smallest` are pointers, `none` for null (`some none` for a `next_smallest` set
to null). Without user-defined timestamps `CompareWithoutTimestamp` is the user comparator, a linear order on `UK`.

On L0 `GetOverlappingInputs` compares user keys: it passes over the files still to check, moving each that overlaps
the range to `*inputs` and, with `expand_range`, widening the range to it, and passes again while the last pass took
a file; so it passes at most once more than there are files, its fuel. Past L0 it calls
`GetOverlappingInputsRangeBinarySearch`: `std::lower_bound` and `std::upper_bound` by `sstableKeyCompare`, as
`List.findIdx`, and two loops that move the ends of the run off boundaries it shares with the files beside it, each
bounded by the number of files.
-/

namespace ForSt

variable {UK : Type} [LinearOrder UK]

/-! ## `sstableKeyCompare` -/

/-- `kRangeTombstoneSentinel`: the footer of the largest key of a file that a range tombstone ends -/
def kRangeTombstoneSentinel : ℕ := packSequenceAndType kMaxSequenceNumber .kTypeRangeDeletion

/-- `sstableKeyCompare`: the user keys, and for equal user keys a key whose footer (`ExtractInternalKeyFooter`, the
packed sequence number and type) is the range tombstone sentinel before any other -/
def sstableKeyCompare (a b : ParsedInternalKey UK) : Ordering :=
  match compare a.userKey b.userKey with
  | .eq =>
    let aFooter := packSequenceAndType a.sequence a.type
    let bFooter := packSequenceAndType b.sequence b.type
    if aFooter = kRangeTombstoneSentinel then
      if bFooter ≠ kRangeTombstoneSentinel then .lt else .eq
    else if bFooter = kRangeTombstoneSentinel then .gt else .eq
  | c => c

/-! ## `SomeFileOverlapsRange` -/

/-- `AfterFile` with its user key by pointer: a null user key occurs before all keys and is therefore never after
the file -/
def afterFilePtr (userKey : Option UK) (f : FdWithKeyRange UK) : Bool := userKey.any (afterFile · f)

/-- `BeforeFile` with its user key by pointer: a null user key occurs after all keys and is therefore never before
the file -/
def beforeFilePtr (userKey : Option UK) (f : FdWithKeyRange UK) : Bool := userKey.any (beforeFile · f)

/-- `SomeFileOverlapsRange` with its user keys by pointer -/
def someFileOverlapsRangePtr (disjointSortedFiles : Bool) (files : List (FdWithKeyRange UK))
    (smallestUserKey largestUserKey : Option UK) : Bool :=
  if !disjointSortedFiles then
    -- need to check against all files
    files.any fun f => !(afterFilePtr smallestUserKey f || beforeFilePtr largestUserKey f)
  else
    -- the file a seek to the leftmost possible internal key of the smallest user key lands on, or the first
    let index := match smallestUserKey with
      | some k => findFile files k
      | none => 0
    match files[index]? with
    -- beginning of range is after all files, so no overlap
    | none => false
    | some f => !beforeFilePtr largestUserKey f

/-- the file as `AfterFile` and `BeforeFile` read it, by `ExtractUserKey` of its keys -/
def FdWithKeyRange.userKeys (f : FdWithKeyRange (ParsedInternalKey UK)) : FdWithKeyRange UK :=
  ⟨f.smallestKey.userKey, f.largestKey.userKey, f.keys.map (·.userKey)⟩

/-! ## The queries -/

/-- `num_non_empty_levels_` as `UpdateNumNonEmptyLevels` sets it, from the last level down: the levels up to the
last that has a file -/
def VersionStorageInfo.numNonEmptyLevels {α : Type} (v : VersionStorageInfo α) : ℕ :=
  v.files.foldr (fun levelFiles n => if n = 0 ∧ levelFiles.isEmpty = true then 0 else n + 1) 0

/-- the out-parameters of the queries: `*inputs`, and `file_index` and `next_smallest`, `none` when the caller
passes no pointer -/
structure OverlappingInputs (UK : Type) where
  inputs : List (FdWithKeyRange (ParsedInternalKey UK))
  fileIndex : Option Int
  nextSmallest : Option (Option (ParsedInternalKey UK))

/-- the files at `i - 1` and `i` share a boundary: the largest key of the one compares equal to the smallest key of
the other -/
def sharesBoundary (files : List (FdWithKeyRange (ParsedInternalKey UK))) : ℕ → Bool
  | 0 => false
  | i + 1 =>
    match files[i]?, files[i + 1]? with
    | some pre, some cur => sstableKeyCompare pre.largestKey cur.smallestKey == .eq
    | _, _ => false

/-- the start of the run: `std::lower_bound` over the files before `hint_index` (all of them for -1), to the first
whose largest key (smallest key, within the interval) is not before `begin`; within the interval, moved past each
file that shares a boundary with the one before it -/
def rangeStartIndex (files : List (FdWithKeyRange (ParsedInternalKey UK))) (beginKey : Option (ParsedInternalKey UK))
    (hintIndex : Int) (withinInterval : Bool) : ℕ :=
  match beginKey with
  | none => 0
  | some b =>
    let searchEnd := if hintIndex = -1 then files.length else hintIndex.toNat
    let startIndex := (files.take searchEnd).findIdx fun f =>
      sstableKeyCompare (if withinInterval then f.smallestKey else f.largestKey) b != .lt
    if startIndex > 0 && withinInterval then
      SortedSearch.advanceWhile (fun i => decide (i < files.length) && sharesBoundary files i) files.length startIndex
    else startIndex

/-- the end of the run: `std::upper_bound` over the files from the start on, to the first whose smallest key
(largest key, within the interval) is past `end`; within the interval, moved back before each file that shares a
boundary with the one before it, down to the start -/
def rangeEndIndex (files : List (FdWithKeyRange (ParsedInternalKey UK))) (endKey : Option (ParsedInternalKey UK))
    (withinInterval : Bool) (startIndex : ℕ) : ℕ :=
  match endKey with
  | none => files.length
  | some e =>
    let endIndex := startIndex + (files.drop startIndex).findIdx fun f =>
      sstableKeyCompare e (if withinInterval then f.largestKey else f.smallestKey) == .lt
    if endIndex < files.length && withinInterval then
      SortedSearch.retreatWhile (fun i => decide (startIndex < i) && sharesBoundary files i) files.length endIndex
    else endIndex

/-- `GetOverlappingInputsRangeBinarySearch`: the files of the run from the start to the end are added to
`*inputs` -/
def getOverlappingInputsRangeBinarySearch (files : List (FdWithKeyRange (ParsedInternalKey UK)))
    (beginKey endKey : Option (ParsedInternalKey UK)) (hintIndex : Int) (withinInterval : Bool)
    (out : OverlappingInputs UK) : OverlappingInputs UK :=
  let startIndex := rangeStartIndex files beginKey hintIndex withinInterval
  let endIndex := rangeEndIndex files endKey withinInterval startIndex
  if startIndex = endIndex then
    -- no overlapping files
    { out with nextSmallest := out.nextSmallest.map fun _ => none }
  else
    { inputs := out.inputs ++ (files.drop startIndex).take (endIndex - startIndex)
      fileIndex := out.fileIndex.map fun _ => startIndex
      -- the next key outside the range covered by inputs
      nextSmallest := out.nextSmallest.map fun _ => files[endIndex]?.map (·.smallestKey) }

/-- what a pass of the L0 loop reads and writes besides the indices: the range as `expand_range` has widened it,
`*inputs`, `*file_index` and `found_overlapping_file` -/
structure Level0Scan (UK : Type) where
  userBegin : Option UK
  userEnd : Option UK
  inputs : List (FdWithKeyRange (ParsedInternalKey UK))
  fileIndex : Option Int
  foundOverlappingFile : Bool

/-- `ExtractUserKey(f->smallest_key)`: the user key where a file starts -/
def FdWithKeyRange.fileStart (f : FdWithKeyRange (ParsedInternalKey UK)) : UK := f.smallestKey.userKey

/-- `ExtractUserKey(f->largest_key)`: the user key where a file ends -/
def FdWithKeyRange.fileLimit (f : FdWithKeyRange (ParsedInternalKey UK)) : UK := f.largestKey.userKey

/-- the scan after it takes the file `f` at index `i`: the file goes to `*inputs`, its index to `*file_index` if none
is there yet, and with `expand_range` the range widens to the file -/
def Level0Scan.take (expandRange : Bool) (s : Level0Scan UK) (f : FdWithKeyRange (ParsedInternalKey UK)) (i : ℕ) :
    Level0Scan UK :=
  { userBegin := if expandRange then s.userBegin.map fun b => if f.fileStart < b then f.fileStart else b
      else s.userBegin
    userEnd := if expandRange then s.userEnd.map fun e => if f.fileLimit > e then f.fileLimit else e
      else s.userEnd
    inputs := s.inputs ++ [f]
    -- record the first file index
    fileIndex := s.fileIndex.map fun fi => if fi = -1 then i else fi
    foundOverlappingFile := true }

/-- one pass of the inner loop over the files still to check, each with its index: a file completely before or
after the range stays in the list, and one that overlaps it is taken out -/
def level0Pass (expandRange : Bool) :
    List (FdWithKeyRange (ParsedInternalKey UK) × ℕ) → Level0Scan UK →
      List (FdWithKeyRange (ParsedInternalKey UK) × ℕ) × Level0Scan UK
  | [], s => ([], s)
  | (f, i) :: index, s =>
    if s.userBegin.any (f.fileLimit < ·) || s.userEnd.any (f.fileStart > ·) then
      let r := level0Pass expandRange index s
      ((f, i) :: r.1, r.2)
    else level0Pass expandRange index (s.take expandRange f i)

/-- the outer loop: a pass over the files left, and another while a pass finds an overlapping file -/
def level0Loop (expandRange : Bool) :
    ℕ → List (FdWithKeyRange (ParsedInternalKey UK) × ℕ) → Level0Scan UK → Level0Scan UK
  | 0, _, s => s
  | fuel + 1, index, s =>
    if index.isEmpty then s
    else
      let r := level0Pass expandRange index { s with foundOverlappingFile := false }
      -- if all the files left are not overlap, break
      if r.2.foundOverlappingFile then level0Loop expandRange fuel r.1 r.2 else r.2

/-- `VersionStorageInfo::GetOverlappingInputs` -/
def VersionStorageInfo.getOverlappingInputs (v : VersionStorageInfo (ParsedInternalKey UK)) (level : ℕ)
    (beginKey endKey : Option (ParsedInternalKey UK)) (hintIndex : Int) (expandRange : Bool)
    (out : OverlappingInputs UK) : OverlappingInputs UK :=
  if level ≥ v.numNonEmptyLevels then
    -- this level is empty, no overlapping inputs
    out
  else
    let out := { out with inputs := [], fileIndex := out.fileIndex.map fun _ => -1 }
    if level > 0 then
      getOverlappingInputsRangeBinarySearch (v.levelFiles level) beginKey endKey hintIndex false out
    else
      let files := v.levelFiles 0
      let s := level0Loop expandRange files.length files.zipIdx
        ⟨beginKey.map (·.userKey), endKey.map (·.userKey), [], out.fileIndex, false⟩
      -- next_smallest key only makes sense for non-level 0, where files are non-overlapping
      { inputs := s.inputs, fileIndex := s.fileIndex, nextSmallest := out.nextSmallest.map fun _ => none }

/-- `VersionStorageInfo::GetCleanInputsWithinInterval`, which passes no `next_smallest` -/
def VersionStorageInfo.getCleanInputsWithinInterval (v : VersionStorageInfo (ParsedInternalKey UK)) (level : ℕ)
    (beginKey endKey : Option (ParsedInternalKey UK)) (hintIndex : Int) (out : OverlappingInputs UK) :
    OverlappingInputs UK :=
  let out := { out with inputs := [], fileIndex := out.fileIndex.map fun _ => -1 }
  if level ≥ v.numNonEmptyLevels ∨ level = 0 ∨ v.numLevelFiles level = 0 then
    -- this level is empty, no inputs within range; no clean input interval within L0
    out
  else
    let r := getOverlappingInputsRangeBinarySearch (v.levelFiles level) beginKey endKey hintIndex true
      { out with nextSmallest := none }
    { r with nextSmallest := out.nextSmallest }

end ForSt
