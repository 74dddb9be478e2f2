import ForSt.Db.VersionSet
import ForSt.Db.ExternalSstFileIngestionJob
/-!
The two tests of `Compaction` (`db/compaction/compaction.cc`) that ask whether a key, or a range of keys, may exist
on a level below the output level: `KeyNotExistsBeyondOutputLevel` and `KeyRangeNotExistsBeyondOutputLevel`.

Both read each level past the output level from a pointer into its files that the caller keeps across calls in
`level_ptrs`: files that end before the key (or before the range's begin key) are passed for good, and the first
that does not decides the level by its smallest key. The inner loop is the same in both (`scanLevelFiles`), and so
is the loop over the levels (`Compaction.scanBeyondOutputLevel`); they differ in the key the pointer moves by and in
the test on the smallest key. A bottommost compaction has nothing below it; other than a level compaction past L0,
the tests answer that the key may exist. Without user-defined timestamps, `CompareWithoutTimestamp` is the user
comparator, a linear order on `UK`.
-/

namespace ForSt

variable {UK : Type} [LinearOrder UK]

/-- the fields of `Compaction` that the two tests read -/
structure Compaction (UK : Type) where
  inputVstorage : VersionStorageInfo UK
  numberLevels : ℕ
  outputLevel : ℕ
  bottommostLevel : Bool
  compactionStyle : CompactionStyle

/-- the inner loop of both tests over the files of a level from the pointer `ptr`: a file that ends before `key` is
passed, and the first that does not is hit or not by `hit` on its smallest key; the pointer stays where the loop
stops -/
def scanLevelFiles (key : UK) (hit : UK → Bool) : List (FdWithKeyRange UK) → ℕ → Bool × ℕ
  | [], ptr => (false, ptr)
  | f :: rest, ptr => if f.largestKey < key then scanLevelFiles key hit rest (ptr + 1) else (hit f.smallestKey, ptr)

namespace Compaction

/-- the levels past the output level -/
def levelsBeyondOutputLevel (c : Compaction UK) : List ℕ :=
  List.range' (c.outputLevel + 1) (c.numberLevels - (c.outputLevel + 1))

/-- the loop of both tests over the levels, from each level's pointer in `levelPtrs`: true at the first level hit -/
def scanBeyondOutputLevel (c : Compaction UK) (key : UK) (hit : UK → Bool) :
    List ℕ → List ℕ → Bool × List ℕ
  | [], levelPtrs => (false, levelPtrs)
  | lvl :: rest, levelPtrs =>
    let files := c.inputVstorage.levelFiles lvl
    let r := scanLevelFiles key hit (files.drop (levelPtrs.getD lvl 0)) (levelPtrs.getD lvl 0)
    if r.1 then (true, levelPtrs.set lvl r.2) else c.scanBeyondOutputLevel key hit rest (levelPtrs.set lvl r.2)

/-- `KeyNotExistsBeyondOutputLevel`, with the pointers it leaves -/
def keyNotExistsBeyondOutputLevel (c : Compaction UK) (userKey : UK) (levelPtrs : List ℕ) : Bool × List ℕ :=
  if c.bottommostLevel then (true, levelPtrs)
  else if c.outputLevel ≠ 0 ∧ c.compactionStyle = .kCompactionStyleLevel then
    -- the key falls in the first file that does not end before it when it is not before that file's start
    let r := c.scanBeyondOutputLevel userKey (fun smallest => decide (smallest ≤ userKey))
      c.levelsBeyondOutputLevel levelPtrs
    (!r.1, r.2)
  else (false, levelPtrs)

/-- `KeyRangeNotExistsBeyondOutputLevel`, with the pointers it leaves -/
def keyRangeNotExistsBeyondOutputLevel (c : Compaction UK) (beginKey endKey : UK) (levelPtrs : List ℕ) :
    Bool × List ℕ :=
  if c.bottommostLevel then (true, levelPtrs)
  else if c.outputLevel ≠ 0 ∧ c.compactionStyle = .kCompactionStyleLevel then
    -- the range overlaps the first file that does not end before its begin key unless it ends at that file's start
    let r := c.scanBeyondOutputLevel beginKey (fun smallest => decide (smallest < endKey))
      c.levelsBeyondOutputLevel levelPtrs
    (!r.1, r.2)
  else (false, levelPtrs)

end Compaction

end ForSt
