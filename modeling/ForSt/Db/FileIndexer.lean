import ForSt.Db.Dbformat
import ForSt.Db.VersionSet
/-!
`FileIndexer` (`db/file_indexer.cc`): for each file of a level from L1 to the one before the last, where a lookup
that has compared its key with that file can still land in the next level, so that `FilePicker` narrows the binary
search there (fractional cascading).

A key compared with a file's smallest and largest user keys is below, at, inside, at the end of or past the file.
`UpdateIndex` fills, once a version, an `IndexUnit` for each file: `smallest_lb` and `largest_lb` are the first files
of the next level whose largest user key is not below the file's smallest and largest user key, `smallest_rb` and
`largest_rb` the last ones whose smallest user key is not above them. `CalculateLB` finds the first ones in one pass
over both levels from the front, `CalculateRB` the last ones in one pass from the back. The files are those of
`FilePicker`: `FdWithKeyRange` with internal keys as boundaries, whose user keys `FileMetaData::smallest` and
`largest` give.
-/

namespace ForSt

/-- `FileIndexer::kLevelMaxIndex` -/
def kLevelMaxIndex : Int := 2 ^ 31 - 1

/-- `FileIndexer::IndexUnit` -/
structure IndexUnit where
  smallestLb : Int
  largestLb : Int
  smallestRb : Int
  largestRb : Int
deriving DecidableEq, Repr

/-- `IndexUnit()` -/
def IndexUnit.init : IndexUnit := ⟨0, 0, -1, -1⟩

structure FileIndexer where
  numLevels : ℕ
  /-- `next_level_index_[level].index_units`, one for each file of the level -/
  nextLevelIndex : List (List IndexUnit)
  /-- `level_rb_`: the index of the last file of each level, -1 where it is not set -/
  levelRb : List Int
deriving DecidableEq, Repr

section calculate

variable {α β : Type} (cmpOp : α → β → Ordering)

/-- the lower files the loop of `CalculateLB` passes for one upper file: those `cmp_op` puts it above -/
def skipLowerLB (upper : α) : ℕ → List β → ℕ × List β
  | lowerIdx, [] => (lowerIdx, [])
  | lowerIdx, lower :: rest =>
    if cmpOp upper lower = .gt then skipLowerLB upper (lowerIdx + 1) rest else (lowerIdx, lower :: rest)

/-- `FileIndexer::CalculateLB` from `lower_idx` on: the index `set_index` gives each upper file, the size of the
lower level once its files are exhausted -/
def calculateLB : List α → ℕ → List β → List ℕ
  | [], _, _ => []
  | upper :: rest, lowerIdx, lowers =>
    let r := skipLowerLB cmpOp upper lowerIdx lowers
    r.1 :: calculateLB rest r.1 r.2

/-- the lower files the loop of `CalculateRB` passes, from the last, for one upper file: those `cmp_op` puts it
below -/
def skipLowerRB (upper : α) : Int → List β → Int × List β
  | lowerIdx, [] => (lowerIdx, [])
  | lowerIdx, lower :: rest =>
    if cmpOp upper lower = .lt then skipLowerRB upper (lowerIdx - 1) rest else (lowerIdx, lower :: rest)

/-- the loop of `CalculateRB` over the upper files from the last, with the lower files from `lower_idx` down -/
def calculateRBLoop : List α → Int → List β → List Int
  | [], _, _ => []
  | upper :: rest, lowerIdx, lowers =>
    let r := skipLowerRB cmpOp upper lowerIdx lowers
    r.1 :: calculateRBLoop rest r.1 r.2

/-- `FileIndexer::CalculateRB`: the index `set_index` gives each upper file, -1 once the lower files are
exhausted -/
def calculateRB (upperFiles : List α) (lowerFiles : List β) : List Int :=
  (calculateRBLoop cmpOp upperFiles.reverse ((lowerFiles.length : Int) - 1) lowerFiles.reverse).reverse

end calculate

variable {UK : Type} [LinearOrder UK]

/-- the index units `UpdateIndex` builds for the files of `level`, from L1 to the level before the last -/
def indexLevel (numLevels : ℕ) (files : List (List (FdWithKeyRange (ParsedInternalKey UK)))) (level : ℕ) :
    List IndexUnit :=
  if 1 ≤ level ∧ level < numLevels - 1 then
    let upperFiles := files.getD level []
    let lowerFiles := files.getD (level + 1) []
    let smallestLb := calculateLB (fun a b : FdWithKeyRange (ParsedInternalKey UK) =>
      compare a.smallestKey.userKey b.largestKey.userKey) upperFiles 0 lowerFiles
    let largestLb := calculateLB (fun a b : FdWithKeyRange (ParsedInternalKey UK) =>
      compare a.largestKey.userKey b.largestKey.userKey) upperFiles 0 lowerFiles
    let smallestRb := calculateRB (fun a b : FdWithKeyRange (ParsedInternalKey UK) =>
      compare a.smallestKey.userKey b.smallestKey.userKey) upperFiles lowerFiles
    let largestRb := calculateRB (fun a b : FdWithKeyRange (ParsedInternalKey UK) =>
      compare a.largestKey.userKey b.smallestKey.userKey) upperFiles lowerFiles
    (List.range upperFiles.length).map fun i =>
      ⟨smallestLb.getD i 0, largestLb.getD i 0, smallestRb.getD i (-1), largestRb.getD i (-1)⟩
  else []

/-- `FileIndexer::UpdateIndex` on the files of `num_levels` levels: `level_rb_` is set for the levels the loop
visits and for the last one -/
def FileIndexer.updateIndex (numLevels : ℕ) (files : List (List (FdWithKeyRange (ParsedInternalKey UK)))) :
    FileIndexer :=
  if numLevels = 0 then ⟨0, [], []⟩
  else
    ⟨numLevels, (List.range numLevels).map (indexLevel numLevels files),
      (List.range numLevels).map fun level =>
        if (1 ≤ level ∧ level < numLevels - 1) ∨ level = numLevels - 1 then
          ((files.getD level []).length : Int) - 1
        else -1⟩

/-- `FileIndexer::GetNextLevelIndex`: the bounds `[left_bound, right_bound]` of the search in the next level after
the key compared `cmp_smallest` with the smallest and `cmp_largest` with the largest user key of the file
`file_index` of `level` -/
def FileIndexer.getNextLevelIndex (ix : FileIndexer) (level fileIndex : ℕ) (cmpSmallest cmpLargest : Ordering) :
    Int × Int :=
  -- last level, no hint
  if level = ix.numLevels - 1 then (0, -1)
  else
    let indexUnits := ix.nextLevelIndex.getD level []
    let index := indexUnits.getD fileIndex IndexUnit.init
    match cmpSmallest, cmpLargest with
    | .lt, _ =>
      (if level > 0 ∧ fileIndex > 0 then (indexUnits.getD (fileIndex - 1) IndexUnit.init).largestLb else 0,
        index.smallestRb)
    | .eq, _ => (index.smallestLb, index.smallestRb)
    | .gt, .lt => (index.smallestLb, index.largestRb)
    | .gt, .eq => (index.largestLb, index.largestRb)
    | .gt, .gt => (index.largestLb, ix.levelRb.getD (level + 1) (-1))

end ForSt
