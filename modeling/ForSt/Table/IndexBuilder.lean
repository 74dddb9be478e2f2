import Mathlib
import ForSt.Db.Dbformat
import ForSt.Util.Comparator
/-!
`ShortenedIndexBuilder` (`table/block_based/index_builder.h`, `index_builder.cc`): the index block of a table, one
entry per data block, keyed by a separator between the block's last key and the next block's first key.

The builder keeps the keys it gives its two block builders: `indexBlock` (internal-key separators) and
`indexBlockWithoutSeq` (their user keys, while every separator so far differs from the next block's first key in its
user key). `Finish` takes the second when `seperator_is_key_plus_seq_` is still false. The block handles and the
first keys stored as values are left out. `addDataBlocks` is how `BlockBasedTableBuilder` drives the builder: the
entry of a block when the first key of the next one is seen (`Add`), the last block's at `Finish`.
-/

namespace ForSt

open ForSt.Coding

/-- `BlockBasedTableOptions::IndexShorteningMode` -/
inductive IndexShorteningMode where
  | kNoShortening
  | kShortenSeparators
  | kShortenSeparatorsAndSuccessor
deriving DecidableEq, Repr

/-- the eight bytes a shortened user key is given: the earliest position for it in internal key order -/
def seekTrailer : List UInt8 := encodeFixed64 (packSequenceAndType kMaxSequenceNumber kValueTypeForSeek)

/-- `ShortenedIndexBuilder::FindShortestInternalKeySeparator`: the user key is shortened, and taken only when it
became physically shorter but logically larger -/
def findShortestInternalKeySeparator (comparator : BuiltinComparator) (start limit : List UInt8) : List UInt8 :=
  let userStart := extractUserKey start
  let tmp := comparator.findShortestSeparator userStart (extractUserKey limit)
  if tmp.length ≤ userStart.length ∧ comparator.compare userStart tmp = .lt then tmp ++ seekTrailer else start

/-- `ShortenedIndexBuilder::FindShortInternalKeySuccessor` -/
def findShortInternalKeySuccessor (comparator : BuiltinComparator) (key : List UInt8) : List UInt8 :=
  let userKey := extractUserKey key
  let tmp := comparator.findShortSuccessor userKey
  if tmp.length ≤ userKey.length ∧ comparator.compare userKey tmp = .lt then tmp ++ seekTrailer else key

structure ShortenedIndexBuilder where
  comparator : BuiltinComparator
  shorteningMode : IndexShorteningMode
  seperatorIsKeyPlusSeq : Bool
  /-- the keys added to `index_block_builder_` -/
  indexBlock : List (List UInt8)
  /-- the keys added to `index_block_builder_without_seq_` -/
  indexBlockWithoutSeq : List (List UInt8)
deriving DecidableEq, Repr

/-- the constructor: formats up to 2 always use internal keys -/
def ShortenedIndexBuilder.create (comparator : BuiltinComparator) (formatVersion : ℕ)
    (shorteningMode : IndexShorteningMode) : ShortenedIndexBuilder :=
  ⟨comparator, shorteningMode, formatVersion ≤ 2, [], []⟩

/-- `ShouldUseKeyPlusSeqAsSeparator`: the two user keys compare equal. For the built-in comparators, which have no
timestamp, `CompareWithoutTimestamp` is `Compare` up to sign, so both branches of the source agree -/
def ShortenedIndexBuilder.shouldUseKeyPlusSeqAsSeparator (b : ShortenedIndexBuilder)
    (lastKeyInCurrentBlock firstKeyInNextBlock : List UInt8) : Bool :=
  b.comparator.compare (extractUserKey lastKeyInCurrentBlock) (extractUserKey firstKeyInNextBlock) == .eq

/-- the separator `AddIndexEntry` leaves in `*last_key_in_current_block` -/
def ShortenedIndexBuilder.separator (b : ShortenedIndexBuilder) (lastKeyInCurrentBlock : List UInt8) :
    Option (List UInt8) → List UInt8
  | some firstKeyInNextBlock =>
    if b.shorteningMode ≠ .kNoShortening then
      findShortestInternalKeySeparator b.comparator lastKeyInCurrentBlock firstKeyInNextBlock
    else lastKeyInCurrentBlock
  | none =>
    if b.shorteningMode = .kShortenSeparatorsAndSuccessor then
      findShortInternalKeySuccessor b.comparator lastKeyInCurrentBlock
    else lastKeyInCurrentBlock

/-- `ShortenedIndexBuilder::AddIndexEntry` -/
def ShortenedIndexBuilder.addIndexEntry (b : ShortenedIndexBuilder) (lastKeyInCurrentBlock : List UInt8)
    (firstKeyInNextBlock : Option (List UInt8)) : ShortenedIndexBuilder :=
  let sep := b.separator lastKeyInCurrentBlock firstKeyInNextBlock
  let seperatorIsKeyPlusSeq :=
    match firstKeyInNextBlock with
    | some first => b.seperatorIsKeyPlusSeq || b.shouldUseKeyPlusSeqAsSeparator sep first
    | none => b.seperatorIsKeyPlusSeq
  { b with
    seperatorIsKeyPlusSeq
    indexBlock := b.indexBlock ++ [sep]
    indexBlockWithoutSeq :=
      if seperatorIsKeyPlusSeq then b.indexBlockWithoutSeq else b.indexBlockWithoutSeq ++ [extractUserKey sep] }

/-- `ShortenedIndexBuilder::Finish`: the keys of the index block it emits -/
def ShortenedIndexBuilder.finish (b : ShortenedIndexBuilder) : List (List UInt8) :=
  if b.seperatorIsKeyPlusSeq then b.indexBlock else b.indexBlockWithoutSeq

/-- the index entries `BlockBasedTableBuilder` adds for data blocks given by their first and last keys -/
def addDataBlocks (b : ShortenedIndexBuilder) : List (List UInt8 × List UInt8) → ShortenedIndexBuilder
  | [] => b
  | [(_, last)] => b.addIndexEntry last none
  | (_, last) :: (first, last') :: rest => addDataBlocks (b.addIndexEntry last (some first)) ((first, last') :: rest)

end ForSt
