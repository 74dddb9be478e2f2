import ForSt.Db.VersionSet
import ForSt.Util.Status
/-!
Where an ingested file goes (`ExternalSstFileIngestionJob::AssignLevelAndSeqnoForIngestedFile`,
`db/external_sst_file_ingestion_job.cc`).

The job scans the levels from L0 down, skipping those between L0 and the base level. A level that a running
compaction writes into over the file's range, or that holds an entry or a range tombstone inside it, stops the scan; every level scanned
before it where the file fits becomes the target in turn. Under universal compaction an empty level is not a target.
Overlapping ingested files, or a forced global sequence number under universal compaction, send the file to L0.
A running compaction is its output level and the user keys of its range; the ingested file is the user keys of its
smallest and largest internal keys.
-/

namespace ForSt

/-- `CompactionStyle` -/
inductive CompactionStyle where
  | kCompactionStyleLevel
  | kCompactionStyleUniversal
  | kCompactionStyleFIFO
  | kCompactionStyleNone
deriving DecidableEq, Repr

/-- a compaction in `compactions_in_progress_` -/
structure RunningCompaction (UK : Type) where
  outputLevel : ℕ
  smallestUserKey : UK
  largestUserKey : UK
deriving DecidableEq, Repr

variable {UK : Type} [LinearOrder UK]

/-- `CompactionPicker::RangeOverlapWithCompaction`: some compaction into `level` has a range meeting the file's -/
def rangeOverlapWithCompaction (compactions : List (RunningCompaction UK)) (smallestUserKey largestUserKey : UK)
    (level : ℕ) : Bool :=
  compactions.any fun c =>
    c.outputLevel == level && smallestUserKey ≤ c.largestUserKey && largestUserKey ≥ c.smallestUserKey

/-- `IngestedFileFitInLevel`: files always fit in L0; elsewhere no file of the level may meet the file's range -/
def ingestedFileFitInLevel (v : VersionStorageInfo UK) (smallestUserKey largestUserKey : UK) (level : ℕ) : Bool :=
  level == 0 || !v.overlapInLevel level smallestUserKey largestUserKey

/-- the level loop of `AssignLevelAndSeqnoForIngestedFile` from `target_level` over the levels `lvls`:
`overlap_with_db` and `target_level` when it ends or breaks -/
def assignLevelLoop (v : VersionStorageInfo UK) (rangeDels : FdWithKeyRange UK → List (UK × UK))
    (compactions : List (RunningCompaction UK))
    (compactionStyle : CompactionStyle) (smallestUserKey largestUserKey : UK) :
    ℕ → List ℕ → Bool × ℕ
  | targetLevel, [] => (false, targetLevel)
  | targetLevel, lvl :: rest =>
    -- the fit check that ends the iteration, when nothing above stopped or skipped it
    let fitted := if ingestedFileFitInLevel v smallestUserKey largestUserKey lvl then lvl else targetLevel
    if lvl > 0 ∧ (lvl : Int) < v.baseLevel then
      assignLevelLoop v rangeDels compactions compactionStyle smallestUserKey largestUserKey targetLevel rest
    else if rangeOverlapWithCompaction compactions smallestUserKey largestUserKey lvl then (true, targetLevel)
    else if v.numLevelFiles lvl > 0 then
      if v.overlapWithLevelIterator rangeDels smallestUserKey largestUserKey lvl then (true, targetLevel)
      else assignLevelLoop v rangeDels compactions compactionStyle smallestUserKey largestUserKey fitted rest
    else if compactionStyle = .kCompactionStyleUniversal then
      assignLevelLoop v rangeDels compactions compactionStyle smallestUserKey largestUserKey targetLevel rest
    else assignLevelLoop v rangeDels compactions compactionStyle smallestUserKey largestUserKey fitted rest

/-- the message when a forced global sequence number would send the file to L0 -/
def kCannotIngestToLmaxForced : String :=
  "Files cannot be ingested to Lmax. Please make sure key range of Lmax does not overlap with files to ingest."

/-- the message when the picked level is above the last one (the source's literal runs "Lmax" into "does") -/
def kCannotIngestToLmax : String :=
  "Files cannot be ingested to Lmax. Please make sure key range of Lmax and ongoing compaction's output to Lmax" ++
    "does not overlap with files to ingest."

/-- `ExternalSstFileIngestionJob::AssignLevelAndSeqnoForIngestedFile`: on success `picked_level` and
`*assigned_seqno`. Sequence numbers are below `kMaxSequenceNumber`, so `last_seqno + 1` does not wrap -/
def assignLevelAndSeqnoForIngestedFile (v : VersionStorageInfo UK)
    (rangeDels : FdWithKeyRange UK → List (UK × UK)) (compactions : List (RunningCompaction UK))
    (forceGlobalSeqno : Bool) (compactionStyle : CompactionStyle) (lastSeqno : ℕ)
    (smallestUserKey largestUserKey : UK) (filesOverlap failIfNotBottommostLevel : Bool) : Except Status (ℕ × ℕ) :=
  let assignedSeqno := if forceGlobalSeqno then lastSeqno + 1 else 0
  if forceGlobalSeqno ∧ (compactionStyle = .kCompactionStyleUniversal ∨ filesOverlap) then
    if failIfNotBottommostLevel then .error (.tryAgain kCannotIngestToLmaxForced) else .ok (0, assignedSeqno)
  else
    let scan := assignLevelLoop v rangeDels compactions compactionStyle smallestUserKey largestUserKey 0 (List.range v.numLevels)
    -- overlapping ingested files go to L0 with the newest sequence number
    let targetLevel := if filesOverlap then 0 else scan.2
    let assignedSeqno := if filesOverlap then lastSeqno + 1 else assignedSeqno
    if failIfNotBottommostLevel ∧ (targetLevel : Int) < v.numLevels - 1 then .error (.tryAgain kCannotIngestToLmax)
    else .ok (targetLevel, if scan.1 ∧ assignedSeqno = 0 then lastSeqno + 1 else assignedSeqno)

end ForSt
