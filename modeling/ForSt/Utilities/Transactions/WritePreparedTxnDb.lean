import Mathlib.Logic.Function.Basic
import Mathlib.Data.Nat.Notation
/-!
The commit cache of write-prepared transactions (`utilities/transactions/write_prepared_txn_db.h`, `.cc`).

`WritePreparedTxnDB` records each commit `(prepare_seq, commit_seq)` in `commit_cache_`, an array of
`COMMIT_CACHE_SIZE = 2 ^ COMMIT_CACHE_BITS` words indexed by the prepare sequence modulo the size. A word
(`CommitEntry64b`) keeps the bits of the prepare sequence above the index, shifted over the 8 pad bits, and under them
the distance `commit_seq - prepare_seq + 1`; the zero word is the empty slot. `Parse` rebuilds the pair from a word
and the index it is stored at.

The model is of one thread: the word that `AddCommitted` loads is still in its slot when it exchanges it, so the
compare-and-exchange succeeds and the retry is never taken. What `AddCommitted` does with the entry it evicts
(`max_evicted_seq_`, `delayed_prepared_commits_`, `CheckAgainstSnapshots`) writes no slot and is left out.
-/

namespace ForSt

/-- `CommitEntry` -/
structure CommitEntry where
  prepSeq : UInt64
  commitSeq : UInt64
deriving DecidableEq, Repr

/-- `CommitEntry64bFormat(index_bits)`; the derived widths are the functions below -/
structure CommitEntry64bFormat where
  indexBits : ℕ
deriving DecidableEq, Repr

namespace CommitEntry64bFormat

variable (format : CommitEntry64bFormat)

/-- `PAD_BITS`: the high bits of a sequence number that are left for the value type -/
def padBits (_ : CommitEntry64bFormat) : ℕ := 8

/-- `PREP_BITS` -/
def prepBits : ℕ := 64 - format.padBits - format.indexBits

/-- `COMMIT_BITS` -/
def commitBits : ℕ := 64 - format.prepBits

/-- `COMMIT_FILTER` -/
def commitFilter : UInt64 := (1 <<< UInt64.ofNat format.commitBits) - 1

/-- `DELTA_UPPERBOUND` -/
def deltaUpperbound : UInt64 := 1 <<< UInt64.ofNat format.commitBits

end CommitEntry64bFormat

/-- `CommitEntry64b`: the packed word -/
structure CommitEntry64b where
  rep : UInt64
deriving DecidableEq, Repr

namespace CommitEntry64b

/-- the default constructor: the empty word -/
def empty : CommitEntry64b := ⟨0⟩

/-- `CommitEntry64b(ps, cs, format)`, which throws when the distance does not fit under the filter -/
def ofSeqs (ps cs : UInt64) (format : CommitEntry64bFormat) : Except String CommitEntry64b :=
  -- make initialized delta always >= 1
  let delta := cs - ps + 1
  if delta ≥ format.deltaUpperbound then
    .error ("commit_seq >> prepare_seq. The allowed distance is " ++ toString format.deltaUpperbound.toNat ++
      " commit_seq is " ++ toString cs.toNat ++ " prepare_seq is " ++ toString ps.toNat)
  else
    .ok ⟨((ps <<< UInt64.ofNat format.padBits) &&& ~~~format.commitFilter) ||| delta⟩

/-- `Parse(indexed_seq, entry, format)`: the entry, or `none` for a word with no distance -/
def parse (e : CommitEntry64b) (indexedSeq : UInt64) (format : CommitEntry64bFormat) : Option CommitEntry :=
  let delta := e.rep &&& format.commitFilter
  -- zero is reserved for uninitialized entries
  if delta = 0 then none
  else
    let prepUp := (e.rep &&& ~~~format.commitFilter) >>> UInt64.ofNat format.padBits
    let prepSeq := prepUp ||| indexedSeq
    some ⟨prepSeq, prepSeq + delta - 1⟩

end CommitEntry64b

/-- the fields of `WritePreparedTxnDB` that the commit cache reads and writes -/
structure CommitCache where
  commitCacheBits : ℕ
  commitCache : ℕ → CommitEntry64b

namespace CommitCache

variable (c : CommitCache)

/-- `COMMIT_CACHE_SIZE` -/
def commitCacheSize : UInt64 := 1 <<< UInt64.ofNat c.commitCacheBits

/-- `FORMAT` -/
def format : CommitEntry64bFormat := ⟨c.commitCacheBits⟩

/-- a new cache: every slot holds the empty word -/
def create (commitCacheBits : ℕ) : CommitCache := ⟨commitCacheBits, fun _ => .empty⟩

/-- `GetCommitEntry(indexed_seq, &entry_64b, &entry)`: the word in the slot and what it parses to -/
def getCommitEntry (indexedSeq : UInt64) : CommitEntry64b × Option CommitEntry :=
  let entry64b := c.commitCache indexedSeq.toNat
  (entry64b, entry64b.parse indexedSeq c.format)

/-- `AddCommitEntry(indexed_seq, new_entry, &evicted_entry)`: store the new entry and parse the word it replaces -/
def addCommitEntry (indexedSeq : UInt64) (newEntry : CommitEntry) :
    Except String (Option CommitEntry × CommitCache) := do
  let newEntry64b ← CommitEntry64b.ofSeqs newEntry.prepSeq newEntry.commitSeq c.format
  let evictedEntry64b := c.commitCache indexedSeq.toNat
  pure (evictedEntry64b.parse indexedSeq c.format,
    { c with commitCache := Function.update c.commitCache indexedSeq.toNat newEntry64b })

/-- `ExchangeCommitEntry(indexed_seq, expected_entry_64b, new_entry)`: store the new entry if the slot still holds
the expected word -/
def exchangeCommitEntry (indexedSeq : UInt64) (expectedEntry64b : CommitEntry64b) (newEntry : CommitEntry) :
    Except String (Bool × CommitCache) := do
  let newEntry64b ← CommitEntry64b.ofSeqs newEntry.prepSeq newEntry.commitSeq c.format
  if c.commitCache indexedSeq.toNat = expectedEntry64b then
    pure (true, { c with commitCache := Function.update c.commitCache indexedSeq.toNat newEntry64b })
  else
    pure (false, c)

/-- `AddCommitted(prepare_seq, commit_seq, loop_cnt)`, with `retries` the number of failed exchanges left before
`loop_cnt > 100` -/
def addCommittedLoop (c : CommitCache) (prepareSeq commitSeq : UInt64) (retries : ℕ) : Except String CommitCache := do
  let indexedSeq := prepareSeq % c.commitCacheSize
  -- the evicted entry's bookkeeping is not modelled; only the word loaded here is used
  let (evicted64b, _) := c.getCommitEntry indexedSeq
  let (succ, c') ← c.exchangeCommitEntry indexedSeq evicted64b ⟨prepareSeq, commitSeq⟩
  if succ then pure c'
  else
    match retries with
    | 0 => throw "Infinite loop in AddCommitted!"
    | r + 1 => c'.addCommittedLoop prepareSeq commitSeq r

/-- `AddCommitted(prepare_seq, commit_seq)`: `loop_cnt` starts at 0 -/
def addCommitted (prepareSeq commitSeq : UInt64) : Except String CommitCache :=
  c.addCommittedLoop prepareSeq commitSeq 101

/-- the cache after a sequence of commits, each `AddCommitted` in turn -/
def addCommittedAll (c : CommitCache) : List (UInt64 × UInt64) → Except String CommitCache
  | [] => pure c
  | (p, cs) :: rest => do
    let c' ← c.addCommitted p cs
    c'.addCommittedAll rest

end CommitCache

end ForSt
