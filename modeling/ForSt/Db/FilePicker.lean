import ForSt.Db.FileIndexer
/-!
`FilePicker` (`db/version_set.cc`): the files a point lookup reads, one `GetNextFile` call at a time, for the lookup
key's user key and internal key.

The picker goes down the levels. In L0 it reads every file whose user key range holds the key (every file, when
there is one level with at most three). In a level past L0 it starts at the first file whose largest key is not
before the internal key, found by a binary search in the bounds that the file indexer gave after the level above,
and reads files while their range holds the user key, until one ends past it. The levels are the first
`num_levels_` levels of the version: `Version::Get` passes `num_non_empty_levels_`, which `UpdateIndex` was given
too.

`GetNextFile`'s loop over the levels runs at most once more than there are levels, and `Version::Get` calls it at
most once more than there are files; the model bounds both loops so. The statistics the picker keeps for
`GetHitFileLevel` and `IsHitFileLastInLevel` are left out.
-/

namespace ForSt

variable {UK : Type} [LinearOrder UK]

/-- `FindFileInRange`: `std::lower_bound` over the files `[left, right)`, the first whose largest key is not
before `key` -/
def findFileInRange (files : List (FdWithKeyRange (ParsedInternalKey UK))) (key : ParsedInternalKey UK)
    (left right : ℕ) : ℕ :=
  left + ((files.drop left).take (right - left)).findIdx (fun f => icmpCompare f.largestKey key != .lt)

/-- the variables of `FilePicker` that its calls update -/
structure FilePicker where
  currLevel : ℕ
  searchLeftBound : Int
  searchRightBound : Int
  searchEnded : Bool
  currIndexInCurrLevel : ℕ
deriving DecidableEq, Repr

/-- go on to the next level, which is searched in full: the level is empty, or the bounds or the search rule it
out -/
def FilePicker.skipLevel (p : FilePicker) : FilePicker :=
  { p with currLevel := p.currLevel + 1, searchLeftBound := 0, searchRightBound := kLevelMaxIndex }

section picker

variable (ikey : ParsedInternalKey UK)

/-- the loop of `PrepareNextLevel` over the levels from `curr_level_` on: the picker after it, and whether there is
a level to search -/
def FilePicker.prepareNextLevelLoop (p : FilePicker) :
    List (List (FdWithKeyRange (ParsedInternalKey UK))) → FilePicker × Bool
  | [] => (p, false)
  | files :: rest =>
    if files = [] then prepareNextLevelLoop p.skipLevel rest
    -- on L0 every file is read
    else if p.currLevel = 0 then ({ p with currIndexInCurrLevel := 0 }, true)
    else if p.searchLeftBound ≤ p.searchRightBound then
      let right := if p.searchRightBound = kLevelMaxIndex then (files.length : Int) - 1 else p.searchRightBound
      -- a limit one past the inclusive bound, to see when the key falls past it
      let startIndex := findFileInRange files ikey p.searchLeftBound.toNat (right + 1).toNat
      if (startIndex : Int) = right + 1 then prepareNextLevelLoop p.skipLevel rest
      else ({ p with searchRightBound := right, currIndexInCurrLevel := startIndex }, true)
    else prepareNextLevelLoop p.skipLevel rest

variable (levels : List (List (FdWithKeyRange (ParsedInternalKey UK))))

/-- `PrepareNextLevel`: `curr_level_++`, then the loop -/
def FilePicker.prepareNextLevel (p : FilePicker) : FilePicker × Bool :=
  { p with currLevel := p.currLevel + 1 }.prepareNextLevelLoop ikey (levels.drop (p.currLevel + 1))

/-- `search_ended_ = !PrepareNextLevel()` -/
def FilePicker.nextLevel (p : FilePicker) : FilePicker :=
  let r := p.prepareNextLevel ikey levels
  { r.1 with searchEnded := !r.2 }

/-- the constructor: `curr_level_` starts one before L0, the bounds cover a whole level, and the first
`PrepareNextLevel` runs -/
def FilePicker.create : FilePicker :=
  let r := (⟨0, 0, kLevelMaxIndex, false, 0⟩ : FilePicker).prepareNextLevelLoop ikey levels
  { r.1 with searchEnded := !r.2 }

/-- after a file is returned: one of L1 or below that ends past the key is the last of its level -/
def FilePicker.afterReturn (p : FilePicker) (cmpLargest : Ordering) : FilePicker :=
  if p.currLevel > 0 ∧ cmpLargest = .lt then p.nextLevel ikey levels
  else { p with currIndexInCurrLevel := p.currIndexInCurrLevel + 1 }

variable (indexer : FileIndexer) (userKey : UK)

/-- the loop of `GetNextFile` over the files of the current level (of `levelSize` files) from
`curr_index_in_curr_level_`: the file to return with the picker after it, or none with the picker when the level
has nothing more to read -/
def FilePicker.scanLevel (levelSize : ℕ) (p : FilePicker) :
    List (FdWithKeyRange (ParsedInternalKey UK)) → Option (FdWithKeyRange (ParsedInternalKey UK)) × FilePicker
  | [] => (none, p)
  | f :: rest =>
    -- with at most three files in the only level, every file is read
    if levels.length > 1 ∨ levelSize > 3 then
      let cmpSmallest := compare userKey f.smallestKey.userKey
      let cmpLargest := if cmpSmallest = .lt then .lt else compare userKey f.largestKey.userKey
      -- the file search bound for the next level
      let p := if p.currLevel > 0 then
          let b := indexer.getNextLevelIndex p.currLevel p.currIndexInCurrLevel cmpSmallest cmpLargest
          { p with searchLeftBound := b.1, searchRightBound := b.2 }
        else p
      if cmpSmallest = .lt ∨ cmpLargest = .gt then
        -- the key falls out of the file's range: on L0 try the next file, past it search the next level
        if p.currLevel = 0 then scanLevel levelSize { p with currIndexInCurrLevel := p.currIndexInCurrLevel + 1 } rest
        else (none, p)
      else (some f, p.afterReturn ikey levels cmpLargest)
    else (some f, p.afterReturn ikey levels .lt)

/-- the loop of `GetNextFile` over the levels, with at most `fuel` rounds -/
def FilePicker.getNextFileLoop : ℕ → FilePicker → Option (FdWithKeyRange (ParsedInternalKey UK)) × FilePicker
  | 0, p => (none, p)
  | fuel + 1, p =>
    if p.searchEnded then (none, p)
    else
      let files := levels.getD p.currLevel []
      match p.scanLevel ikey levels indexer userKey files.length (files.drop p.currIndexInCurrLevel) with
      | (some f, p') => (some f, p')
      -- start searching the next level
      | (none, p') => getNextFileLoop fuel (p'.nextLevel ikey levels)

/-- `FilePicker::GetNextFile` -/
def FilePicker.getNextFile (p : FilePicker) : Option (FdWithKeyRange (ParsedInternalKey UK)) × FilePicker :=
  p.getNextFileLoop ikey levels indexer userKey (levels.length + 1)

/-- the calls of `GetNextFile` in `Version::Get` until it returns `nullptr`, at most `n` -/
def FilePicker.getNextFiles : ℕ → FilePicker → List (FdWithKeyRange (ParsedInternalKey UK))
  | 0, _ => []
  | n + 1, p =>
    match p.getNextFile ikey levels indexer userKey with
    | (some f, p') => f :: getNextFiles n p'
    | (none, _) => []

end picker

/-- the files `Version::Get` reads for the lookup of `userKey` at the internal key `ikey`, in order -/
def filePickerFiles (levels : List (List (FdWithKeyRange (ParsedInternalKey UK)))) (indexer : FileIndexer)
    (userKey : UK) (ikey : ParsedInternalKey UK) : List (FdWithKeyRange (ParsedInternalKey UK)) :=
  (FilePicker.create ikey levels).getNextFiles ikey levels indexer userKey ((levels.map List.length).sum + 1)

end ForSt
