import ForSt.Db.FilePicker
import ForSt.Db.FileIndexerSpec
/-!
What `GetNextFile` returns, call after call, for a lookup: the files a linear scan of the levels reads
(`lookupFiles`), when every level past L0 is in order and disjoint and the indexer was built by `UpdateIndex`.

The picker reads a level past L0 from the file `FindFileInRange` finds and stops at the first file that does not
hold the key or ends past it (`levelRun`); on a level in order that is the scan (`levelLookupFiles_eq_levelRun`).
`PrepareNextLevel` searches inside the indexer's bounds, which lose no file that holds the key (`BoundsValid`).
`FilePicker.pending` is what a picker has still to return; each `GetNextFile` returns its head and keeps
`FilePicker.Good` (`getNextFile_spec`), so the calls return all of it (`getNextFiles_eq_pending`).
-/

namespace ForSt

variable {UK : Type} [LinearOrder UK]

/-- the file's user key range holds the key -/
def FdWithKeyRange.HoldsUserKey (f : FdWithKeyRange (ParsedInternalKey UK)) (userKey : UK) : Prop :=
  f.smallestKey.userKey ≤ userKey ∧ userKey ≤ f.largestKey.userKey

instance (f : FdWithKeyRange (ParsedInternalKey UK)) (userKey : UK) : Decidable (f.HoldsUserKey userKey) :=
  inferInstanceAs (Decidable (_ ∧ _))

/-- the elements before the first that satisfies `p`, and that one -/
def takeThrough {α : Type} (p : α → Bool) : List α → List α
  | [] => []
  | a :: as => if p a then [a] else a :: takeThrough p as

section reference

variable (userKey : UK) (ikey : ParsedInternalKey UK)

/-- the files of L0 a lookup reads: those whose range holds the key, or all of them when there is one level with at
most three -/
def level0LookupFiles (numLevels : ℕ) (files : List (FdWithKeyRange (ParsedInternalKey UK))) :
    List (FdWithKeyRange (ParsedInternalKey UK)) :=
  if numLevels ≤ 1 ∧ files.length ≤ 3 then files else files.filter (fun f => decide (f.HoldsUserKey userKey))

/-- the files of a level past L0 a lookup reads: in order, those whose range holds the key and whose largest key is
not before the lookup key, up to the first that ends past the user key -/
def levelLookupFiles (files : List (FdWithKeyRange (ParsedInternalKey UK))) :
    List (FdWithKeyRange (ParsedInternalKey UK)) :=
  takeThrough (fun f => decide (userKey < f.largestKey.userKey))
    (files.filter (fun f => decide (f.HoldsUserKey userKey) && icmpCompare f.largestKey ikey != .lt))

/-- the files a lookup reads from the level `level` on, one level after the other -/
def lookupFilesFrom (numLevels : ℕ) : ℕ → List (List (FdWithKeyRange (ParsedInternalKey UK))) →
    List (FdWithKeyRange (ParsedInternalKey UK))
  | _, [] => []
  | level, files :: rest =>
    (if level = 0 then level0LookupFiles userKey numLevels files else levelLookupFiles userKey ikey files) ++
      lookupFilesFrom numLevels (level + 1) rest

/-- the linear scan of the levels for the lookup of `userKey` at `ikey` -/
def lookupFiles (levels : List (List (FdWithKeyRange (ParsedInternalKey UK)))) :
    List (FdWithKeyRange (ParsedInternalKey UK)) :=
  lookupFilesFrom userKey ikey levels.length 0 levels

end reference

/-- what `GetNextFile` reads of a level past L0 from a file on: the files while their range holds the key, up to the
first that ends past it -/
def levelRun (userKey : UK) :
    List (FdWithKeyRange (ParsedInternalKey UK)) → List (FdWithKeyRange (ParsedInternalKey UK))
  | [] => []
  | f :: rest =>
    if f.HoldsUserKey userKey then if userKey < f.largestKey.userKey then [f] else f :: levelRun userKey rest
    else []

section levelSearch

variable {userKey : UK} {ikey : ParsedInternalKey UK} {files : List (FdWithKeyRange (ParsedInternalKey UK))}

theorem not_holdsUserKey_of_largest_lt {f : FdWithKeyRange (ParsedInternalKey UK)}
    (h : f.largestKey.userKey < userKey) : ¬ f.HoldsUserKey userKey :=
  fun hf => absurd hf.2 (not_le.mpr h)

theorem not_holdsUserKey_of_lt_smallest {f : FdWithKeyRange (ParsedInternalKey UK)}
    (h : userKey < f.smallestKey.userKey) : ¬ f.HoldsUserKey userKey :=
  fun hf => absurd hf.1 (not_le.mpr h)

/-- from a file whose largest key is not before `key` on, no file of a level ends before it -/
theorem LevelWellFormed.largest_not_lt_of_cons {f : FdWithKeyRange (ParsedInternalKey UK)}
    {rest : List (FdWithKeyRange (ParsedInternalKey UK))} (h : LevelWellFormed (f :: rest))
    {key : ParsedInternalKey UK} (hf : icmpCompare f.largestKey key ≠ .lt) :
    ∀ g ∈ f :: rest, icmpCompare g.largestKey key ≠ .lt := by
  intro g hg hlt
  rcases List.mem_cons.mp hg with rfl | hg
  · exact hf hlt
  · exact hf (icmpCompare_lt_trans (List.rel_of_pairwise_cons h.largest_lt hg) hlt)

/-- on a level in order whose files all end at or past the key, the files that hold it, up to the first that ends
past it, are those the picker reads from the front -/
theorem takeThrough_filter_eq_levelRun :
    ∀ {files : List (FdWithKeyRange (ParsedInternalKey UK))}, LevelWellFormed files →
      (∀ g ∈ files, userKey ≤ g.largestKey.userKey) →
      takeThrough (fun f => decide (userKey < f.largestKey.userKey))
        (files.filter (fun f => decide (f.HoldsUserKey userKey))) = levelRun userKey files
  | [], _, _ => rfl
  | f :: rest, hwf, hge => by
    by_cases hf : f.HoldsUserKey userKey
    · have hcons : (f :: rest).filter (fun g => decide (g.HoldsUserKey userKey)) =
          f :: rest.filter (fun g => decide (g.HoldsUserKey userKey)) :=
        List.filter_cons_of_pos (decide_eq_true hf)
      rw [hcons, takeThrough, levelRun, if_pos hf]
      by_cases hlt : userKey < f.largestKey.userKey
      · rw [if_pos (decide_eq_true hlt), if_pos hlt]
      · have hrest := takeThrough_filter_eq_levelRun (hwf.sublist (List.sublist_cons_self f rest))
          (fun g hg => hge g (List.mem_cons_of_mem f hg))
        rw [if_neg (by simpa using hlt), if_neg hlt, hrest]
    · -- a file that ends at or past the key without holding it starts past it, and so does every later one
      have hstart : userKey < f.smallestKey.userKey :=
        not_le.mp fun hs => hf ⟨hs, hge f List.mem_cons_self⟩
      have hnil : rest.filter (fun g => decide (g.HoldsUserKey userKey)) = [] := by
        apply List.filter_eq_nil_iff.mpr
        intro g hg
        have hfg := List.rel_of_pairwise_cons hwf.largest_le_smallest hg
        have hff := hwf.smallest_le_largest List.mem_cons_self
        rw [decide_eq_true_eq]
        exact not_holdsUserKey_of_lt_smallest (lt_of_lt_of_le hstart (le_trans hff hfg))
      rw [List.filter_cons_of_neg (by simpa using hf), hnil, levelRun, if_neg hf]
      rfl

/-- the files a lookup reads from a level in order are the picker's from the first file whose largest key is not
before the lookup key -/
theorem levelLookupFiles_eq_levelRun (hikey : ikey.userKey = userKey) (hwf : LevelWellFormed files) {j : ℕ}
    (hbelow : ∀ g ∈ files.take j, icmpCompare g.largestKey ikey = .lt)
    (hfrom : ∀ g ∈ files.drop j, icmpCompare g.largestKey ikey ≠ .lt) :
    levelLookupFiles userKey ikey files = levelRun userKey (files.drop j) := by
  have htake : (files.take j).filter
      (fun f => decide (f.HoldsUserKey userKey) && icmpCompare f.largestKey ikey != .lt) = [] := by
    apply List.filter_eq_nil_iff.mpr
    intro g hg
    simp [hbelow g hg]
  have hdrop : (files.drop j).filter
      (fun f => decide (f.HoldsUserKey userKey) && icmpCompare f.largestKey ikey != .lt) =
      (files.drop j).filter (fun f => decide (f.HoldsUserKey userKey)) := by
    apply List.filter_congr
    intro g hg
    simp [hfrom g hg]
  have hge : ∀ g ∈ files.drop j, userKey ≤ g.largestKey.userKey := by
    intro g hg
    rw [← hikey]
    exact userKey_le_of_icmpCompare_ne_lt (hfrom g hg)
  rw [levelLookupFiles]
  conv_lhs => rw [← List.take_append_drop j files, List.filter_append, htake, List.nil_append, hdrop]
  exact takeThrough_filter_eq_levelRun (hwf.sublist (List.drop_sublist j files)) hge

/-- a level none of whose files both holds the key and ends at or past the lookup key gives the scan nothing -/
theorem levelLookupFiles_eq_nil
    (h : ∀ g ∈ files, icmpCompare g.largestKey ikey = .lt ∨ ¬ g.HoldsUserKey userKey) :
    levelLookupFiles userKey ikey files = [] := by
  have hnil : files.filter
      (fun f => decide (f.HoldsUserKey userKey) && icmpCompare f.largestKey ikey != .lt) = [] := by
    apply List.filter_eq_nil_iff.mpr
    intro g hg
    rcases h g hg with hlt | hout
    · simp [hlt]
    · simp [hout]
  rw [levelLookupFiles, hnil]
  rfl

/-- a level whose files all end below the key or start past it gives the scan nothing -/
theorem levelLookupFiles_eq_nil_of_bounds {left right : ℕ} (hlr : right ≤ left)
    (hleft : ∀ g ∈ files.take left, g.largestKey.userKey < userKey)
    (hright : ∀ g ∈ files.drop right, userKey < g.smallestKey.userKey) :
    levelLookupFiles userKey ikey files = [] := by
  apply levelLookupFiles_eq_nil
  intro g hg
  refine .inr ?_
  rw [← List.take_append_drop right files, List.mem_append] at hg
  rcases hg with hg | hg
  · exact not_holdsUserKey_of_largest_lt (hleft g (List.take_subset_take_left files hlr hg))
  · exact not_holdsUserKey_of_lt_smallest (hright g hg)

/-- `FindFileInRange` over `[left, right)` from a `left` before which every file ends below `key`: every file before
the index it gives ends below `key`, and from it on, when it is inside the range, none does -/
theorem findFileInRange_spec (hwf : LevelWellFormed files) (key : ParsedInternalKey UK) {left right : ℕ}
    (hlr : left ≤ right) (hr : right ≤ files.length)
    (hleft : ∀ g ∈ files.take left, icmpCompare g.largestKey key = .lt) :
    findFileInRange files key left right ≤ right ∧
      (∀ g ∈ files.take (findFileInRange files key left right), icmpCompare g.largestKey key = .lt) ∧
      (findFileInRange files key left right < right →
        ∀ g ∈ files.drop (findFileInRange files key left right), icmpCompare g.largestKey key ≠ .lt) := by
  set window := (files.drop left).take (right - left) with hwindow
  set k := window.findIdx (fun f => icmpCompare f.largestKey key != .lt) with hk
  have hstart : findFileInRange files key left right = left + k := rfl
  have hlen : window.length = right - left := by
    rw [hwindow, List.length_take, List.length_drop]
    omega
  have hkle : k ≤ window.length := List.findIdx_le_length
  rw [hstart]
  refine ⟨by omega, ?_, ?_⟩
  · -- the files before `left`, then those of the window before its first file not below `key`
    intro g hg
    rw [List.take_add, List.mem_append] at hg
    rcases hg with hg | hg
    · exact hleft g hg
    · have hwin : (files.drop left).take k = window.take k := by
        rw [hwindow, List.take_take, Nat.min_eq_left (by omega)]
      rw [hwin] at hg
      obtain ⟨m, hm, rfl⟩ := List.mem_take_iff_getElem.mp hg
      have hnot := List.not_of_lt_findIdx (p := fun f : FdWithKeyRange (ParsedInternalKey UK) => icmpCompare f.largestKey key != .lt)
        (show m < k by omega)
      simpa using hnot
  · intro hlt g hg
    have hk' : k < window.length := by omega
    have hat := List.findIdx_getElem (p := fun f : FdWithKeyRange (ParsedInternalKey UK) => icmpCompare f.largestKey key != .lt) (w := hk')
    have hfile : window[k] = files[left + k] := by
      rw [List.getElem_take, List.getElem_drop]
    have hcons := List.drop_eq_getElem_cons (show left + k < files.length by omega)
    have hwf' : LevelWellFormed (files[left + k] :: files.drop (left + k + 1)) :=
      hcons ▸ hwf.sublist (List.drop_sublist _ files)
    rw [hcons] at hg
    apply hwf'.largest_not_lt_of_cons _ g hg
    rw [← hfile]
    simpa using hat

/-- the search of `PrepareNextLevel` in a window outside which no file holds the key: the scan of the level is
empty when it comes out at the window's end, and otherwise the files the picker reads from where it came out -/
theorem findFileInRange_lookup (hikey : ikey.userKey = userKey) (hwf : LevelWellFormed files) {left right : ℕ}
    (hlr : left ≤ right) (hr : right ≤ files.length)
    (hleft : ∀ g ∈ files.take left, g.largestKey.userKey < userKey)
    (hright : ∀ g ∈ files.drop right, userKey < g.smallestKey.userKey) :
    (findFileInRange files ikey left right = right → levelLookupFiles userKey ikey files = []) ∧
    (findFileInRange files ikey left right ≠ right →
      levelLookupFiles userKey ikey files = levelRun userKey (files.drop (findFileInRange files ikey left right)) ∧
        ∀ g ∈ files.take (findFileInRange files ikey left right), g.largestKey.userKey ≤ userKey) := by
  have hleft' : ∀ g ∈ files.take left, icmpCompare g.largestKey ikey = .lt := by
    intro g hg
    apply icmpCompare_lt_of_userKey_lt
    rw [hikey]
    exact hleft g hg
  obtain ⟨hle, hbefore, hfrom⟩ := findFileInRange_spec hwf ikey hlr hr hleft'
  constructor
  · intro heq
    apply levelLookupFiles_eq_nil
    intro g hg
    rw [← List.take_append_drop right files, List.mem_append] at hg
    rcases hg with hg | hg
    · rw [← heq] at hg
      exact .inl (hbefore g hg)
    · exact .inr (not_holdsUserKey_of_lt_smallest (hright g hg))
  · intro hne
    have hlt : findFileInRange files ikey left right < right := lt_of_le_of_ne hle hne
    refine ⟨levelLookupFiles_eq_levelRun hikey hwf hbefore (hfrom hlt), ?_⟩
    intro g hg
    rw [← hikey]
    exact userKey_le_of_icmpCompare_lt (hbefore g hg)

/-- the index range that `PrepareNextLevel` searches, with bounds that lose no file holding the key and are in
order -/
theorem BoundsValid.window {left right : Int} (hb : BoundsValid files userKey (left, right)) (hlr : left ≤ right)
    {r : Int} (hr : r = if right = kLevelMaxIndex then (files.length : Int) - 1 else right) :
    left.toNat ≤ (r + 1).toNat ∧ (r + 1).toNat ≤ files.length ∧ r + 1 = ((r + 1).toNat : Int) ∧
      (∀ g ∈ files.take left.toNat, g.largestKey.userKey < userKey) ∧
      ∀ g ∈ files.drop (r + 1).toNat, userKey < g.smallestKey.userKey := by
  rcases hb with ⟨hl, hmax⟩ | ⟨hl, hlen, hleft, hright⟩
  · -- the whole level
    dsimp only at hl hmax
    rw [if_pos hmax] at hr
    have hr1 : (r + 1).toNat = files.length := by omega
    rw [hr1, hl]
    refine ⟨Nat.zero_le _, le_refl _, by omega, ?_, ?_⟩
    · intro g hg
      exact absurd hg (by rw [Int.toNat_zero, List.take_zero]; exact List.not_mem_nil)
    · intro g hg
      exact absurd hg (by rw [List.drop_length]; exact List.not_mem_nil)
  · dsimp only at hl hlen hleft hright hlr
    have hrr : right ≤ r ∧ r < files.length := by
      split at hr <;> omega
    refine ⟨by omega, by omega, by omega, hleft, ?_⟩
    intro g hg
    exact hright g (List.drop_subset_drop_left files (by omega) hg)

end levelSearch

omit [LinearOrder UK] in
/-- the level at the front of the levels from `level` on -/
theorem getD_of_cons_eq_drop {α : Type} {levels : List (List α)} {level : ℕ} {files : List α}
    {rest : List (List α)} (h : files :: rest = levels.drop level) :
    levels.getD level [] = files ∧ rest = levels.drop (level + 1) ∧ level < levels.length := by
  have hhead := congrArg List.head? h
  have htail := congrArg List.tail h
  rw [List.head?_cons, List.head?_drop] at hhead
  rw [List.tail_cons, List.tail_drop] at htail
  refine ⟨?_, htail, (List.getElem?_eq_some_iff.mp hhead.symm).1⟩
  rw [List.getD_eq_getElem?_getD, ← hhead, Option.getD_some]

theorem LevelWellFormed.nil : LevelWellFormed ([] : List (FdWithKeyRange (ParsedInternalKey UK))) :=
  ⟨fun _ h => absurd h List.not_mem_nil, List.Pairwise.nil⟩

/-- the test of `GetNextFile` that the key falls out of a file's range -/
theorem outside_iff_not_holdsUserKey (f : FdWithKeyRange (ParsedInternalKey UK)) (userKey : UK) :
    (compare userKey f.smallestKey.userKey = .lt ∨
      (if compare userKey f.smallestKey.userKey = .lt then Ordering.lt
        else compare userKey f.largestKey.userKey) = .gt) ↔ ¬ f.HoldsUserKey userKey := by
  by_cases hs : userKey < f.smallestKey.userKey
  · rw [if_pos (compare_lt_iff_lt.mpr hs)]
    exact ⟨fun _ => not_holdsUserKey_of_lt_smallest hs, fun _ => .inl (compare_lt_iff_lt.mpr hs)⟩
  · rw [if_neg (mt compare_lt_iff_lt.mp hs), compare_lt_iff_lt, compare_gt_iff_gt, FdWithKeyRange.HoldsUserKey,
      not_and_or, not_le, not_le]

section picker

variable (ikey : ParsedInternalKey UK) (levels : List (List (FdWithKeyRange (ParsedInternalKey UK)))) (userKey : UK)

/-- the files a picker has still to return: the rest of its level as the picker reads it, then the scan of the
levels below -/
def FilePicker.pending (p : FilePicker) : List (FdWithKeyRange (ParsedInternalKey UK)) :=
  if p.searchEnded then []
  else
    let files := levels.getD p.currLevel []
    let rest := files.drop p.currIndexInCurrLevel
    (if p.currLevel = 0 then
        if levels.length ≤ 1 ∧ files.length ≤ 3 then rest else rest.filter (fun f => decide (f.HoldsUserKey userKey))
      else levelRun userKey rest) ++
      lookupFilesFrom userKey ikey levels.length (p.currLevel + 1) (levels.drop (p.currLevel + 1))

/-- a picker that has not ended: it is at a file of a level or just past its last, on L0 the bounds are the whole
next level, past L0 every file it has passed ends at or below the key, and once it is past the last file of such a
level its bounds lose no file of the next level that holds the key -/
structure FilePicker.Active (p : FilePicker) : Prop where
  level_lt : p.currLevel < levels.length
  index_le : p.currIndexInCurrLevel ≤ (levels.getD p.currLevel []).length
  level0 : p.currLevel = 0 → p.searchLeftBound = 0 ∧ p.searchRightBound = kLevelMaxIndex
  passed : 0 < p.currLevel →
    ∀ g ∈ (levels.getD p.currLevel []).take p.currIndexInCurrLevel, g.largestKey.userKey ≤ userKey
  atEnd : 0 < p.currLevel → p.currIndexInCurrLevel = (levels.getD p.currLevel []).length →
    BoundsValid (levels.getD (p.currLevel + 1) []) userKey (p.searchLeftBound, p.searchRightBound)

/-- the invariant of a picker between two calls -/
def FilePicker.Good (p : FilePicker) : Prop := p.searchEnded = false → p.Active levels userKey

theorem FilePicker.pending_level0 {p : FilePicker} (he : p.searchEnded = false) (hL0 : p.currLevel = 0) :
    p.pending ikey levels userKey =
      (if levels.length ≤ 1 ∧ (levels.getD 0 []).length ≤ 3 then (levels.getD 0 []).drop p.currIndexInCurrLevel
        else ((levels.getD 0 []).drop p.currIndexInCurrLevel).filter (fun f => decide (f.HoldsUserKey userKey))) ++
        lookupFilesFrom userKey ikey levels.length 1 (levels.drop 1) := by
  rw [FilePicker.pending, if_neg (by rw [he]; exact Bool.false_ne_true)]
  dsimp only
  rw [hL0, if_pos rfl]

theorem FilePicker.pending_level {p : FilePicker} (he : p.searchEnded = false) (hL : p.currLevel ≠ 0) :
    p.pending ikey levels userKey =
      levelRun userKey ((levels.getD p.currLevel []).drop p.currIndexInCurrLevel) ++
        lookupFilesFrom userKey ikey levels.length (p.currLevel + 1) (levels.drop (p.currLevel + 1)) := by
  rw [FilePicker.pending, if_neg (by rw [he]; exact Bool.false_ne_true)]
  dsimp only
  rw [if_neg hL]

variable {ikey levels userKey}

theorem FilePicker.pending_of_ended {p : FilePicker} (he : p.searchEnded = true) :
    p.pending ikey levels userKey = [] := by
  rw [FilePicker.pending, if_pos he]

theorem FilePicker.good_of_ended {p : FilePicker} (he : p.searchEnded = true) : p.Good levels userKey := by
  intro hne
  rw [he] at hne
  exact Bool.noConfusion hne

variable (ikey levels userKey)

/-- what the loop of `PrepareNextLevel` leaves, run from the level `level` over the levels `rest` from there: the
picker with `search_ended_` set has the scan of those levels still to return, keeps the invariant, and is not above
`level` -/
structure PrepareOutcome (level : ℕ) (rest : List (List (FdWithKeyRange (ParsedInternalKey UK))))
    (r : FilePicker × Bool) : Prop where
  pending : ({ r.1 with searchEnded := !r.2 } : FilePicker).pending ikey levels userKey =
    lookupFilesFrom userKey ikey levels.length level rest
  good : ({ r.1 with searchEnded := !r.2 } : FilePicker).Good levels userKey
  level_le : r.2 = true → level ≤ r.1.currLevel

variable {ikey levels userKey}

/-- a level the scan reads nothing of is skipped -/
theorem PrepareOutcome.skip {level : ℕ} {files : List (FdWithKeyRange (ParsedInternalKey UK))}
    {rest : List (List (FdWithKeyRange (ParsedInternalKey UK)))} {r : FilePicker × Bool}
    (h : PrepareOutcome ikey levels userKey (level + 1) rest r)
    (hnil : (if level = 0 then level0LookupFiles userKey levels.length files
      else levelLookupFiles userKey ikey files) = []) :
    PrepareOutcome ikey levels userKey level (files :: rest) r := by
  refine ⟨?_, h.good, fun hr => Nat.le_of_succ_le (h.level_le hr)⟩
  rw [h.pending, lookupFilesFrom, hnil, List.nil_append]

theorem levelLookup_nil (level : ℕ) :
    (if level = 0 then level0LookupFiles userKey levels.length []
      else levelLookupFiles userKey ikey ([] : List (FdWithKeyRange (ParsedInternalKey UK)))) = [] := by
  split
  · rw [level0LookupFiles]
    split <;> rfl
  · rfl

/-- a loop that found a level to search leaves the picker it stopped at, with `search_ended_` false -/
theorem PrepareOutcome.of_found {level : ℕ} {rest : List (List (FdWithKeyRange (ParsedInternalKey UK)))}
    {q : FilePicker}
    (hpend : ({ q with searchEnded := false } : FilePicker).pending ikey levels userKey =
      lookupFilesFrom userKey ikey levels.length level rest)
    (hact : ({ q with searchEnded := false } : FilePicker).Active levels userKey) (hle : level ≤ q.currLevel) :
    PrepareOutcome ikey levels userKey level rest (q, true) :=
  ⟨hpend, fun _ => hact, fun _ => hle⟩

/-- on L0 `PrepareNextLevel` stops at the first file -/
theorem prepareOutcome_level0 {p : FilePicker} {files : List (FdWithKeyRange (ParsedInternalKey UK))}
    {rest : List (List (FdWithKeyRange (ParsedInternalKey UK)))} (hfiles : levels.getD p.currLevel [] = files)
    (hrest : rest = levels.drop (p.currLevel + 1)) (hlt : p.currLevel < levels.length) (hL0 : p.currLevel = 0)
    (h0 : p.searchLeftBound = 0 ∧ p.searchRightBound = kLevelMaxIndex) :
    PrepareOutcome ikey levels userKey p.currLevel (files :: rest) ({ p with currIndexInCurrLevel := 0 }, true) := by
  refine PrepareOutcome.of_found ?_ ?_ (le_refl p.currLevel)
  · rw [FilePicker.pending_level0 ikey levels userKey (p := { p with currIndexInCurrLevel := 0, searchEnded := false })
      rfl hL0, hL0,
      lookupFilesFrom, if_pos rfl, level0LookupFiles]
    rw [hL0] at hfiles hrest
    rw [hfiles, hrest, List.drop_zero]
  · refine ⟨hlt, Nat.zero_le _, fun _ => h0, fun hpos => absurd hL0 (Nat.pos_iff_ne_zero.mp hpos), ?_⟩
    intro hpos
    exact absurd hL0 (Nat.pos_iff_ne_zero.mp hpos)

/-- past L0 `PrepareNextLevel` stops at the file its search found, inside the level -/
theorem prepareOutcome_found {p : FilePicker} {files : List (FdWithKeyRange (ParsedInternalKey UK))}
    {rest : List (List (FdWithKeyRange (ParsedInternalKey UK)))} (hfiles : levels.getD p.currLevel [] = files)
    (hrest : rest = levels.drop (p.currLevel + 1)) (hlt : p.currLevel < levels.length) (hL0 : p.currLevel ≠ 0)
    (right : Int) {start : ℕ} (hstart : start < files.length)
    (hlook : levelLookupFiles userKey ikey files = levelRun userKey (files.drop start))
    (hpassed : ∀ g ∈ files.take start, g.largestKey.userKey ≤ userKey) :
    PrepareOutcome ikey levels userKey p.currLevel (files :: rest)
      ({ p with searchRightBound := right, currIndexInCurrLevel := start }, true) := by
  refine PrepareOutcome.of_found ?_ ?_ (le_refl p.currLevel)
  · rw [FilePicker.pending_level ikey levels userKey
      (p := { p with searchRightBound := right, currIndexInCurrLevel := start, searchEnded := false }) rfl hL0,
      lookupFilesFrom, if_neg hL0, hlook, hrest]
    dsimp only
    rw [hfiles]
  · refine ⟨hlt, ?_, fun h => absurd h hL0, ?_, ?_⟩
    · show start ≤ (levels.getD p.currLevel []).length
      rw [hfiles]
      exact le_of_lt hstart
    · intro _
      show ∀ g ∈ (levels.getD p.currLevel []).take start, g.largestKey.userKey ≤ userKey
      rw [hfiles]
      exact hpassed
    · intro _ hend
      have hend' : start = (levels.getD p.currLevel []).length := hend
      rw [hfiles] at hend'
      exact absurd hend' (Nat.ne_of_lt hstart)

variable (ikey levels userKey) in
/-- a call that returns the head of what the picker had still to return and leaves it the tail, keeping the
invariant -/
structure FilePicker.Returns (p : FilePicker) (r : Option (FdWithKeyRange (ParsedInternalKey UK)) × FilePicker) :
    Prop where
  head : r.1 = (p.pending ikey levels userKey).head?
  tail : r.2.pending ikey levels userKey = (p.pending ikey levels userKey).tail
  good : r.2.Good levels userKey

theorem FilePicker.Returns.of_ended {p : FilePicker} (he : p.searchEnded = true) :
    p.Returns ikey levels userKey (none, p) := by
  refine ⟨?_, ?_, FilePicker.good_of_ended he⟩
  · rw [FilePicker.pending_of_ended he]
    rfl
  · rw [FilePicker.pending_of_ended he]
    rfl

/-- only what a picker has still to return matters to a call -/
theorem FilePicker.Returns.of_pending_eq {p q : FilePicker} {r : Option (FdWithKeyRange (ParsedInternalKey UK)) × FilePicker}
    (h : q.pending ikey levels userKey = p.pending ikey levels userKey) (hr : q.Returns ikey levels userKey r) :
    p.Returns ikey levels userKey r :=
  ⟨h ▸ hr.head, h ▸ hr.tail, hr.good⟩

variable (ikey levels userKey) in
/-- what a scan of the picker's current level leaves, as the loop of `GetNextFile` goes on from it: a file returned
as a call returns it; or none, with a picker at the same level whose bounds lose no file of the next level that holds
the key, when all the picker had still to return is below -/
structure FilePicker.ScanOutcome (p : FilePicker) (r : Option (FdWithKeyRange (ParsedInternalKey UK)) × FilePicker) :
    Prop where
  found : r.1 ≠ none → p.Returns ikey levels userKey r
  next : r.1 = none → r.2.currLevel = p.currLevel ∧
    BoundsValid (levels.getD (p.currLevel + 1) []) userKey (r.2.searchLeftBound, r.2.searchRightBound) ∧
    p.pending ikey levels userKey =
      lookupFilesFrom userKey ikey levels.length (p.currLevel + 1) (levels.drop (p.currLevel + 1))

theorem FilePicker.ScanOutcome.of_found {p q : FilePicker} {f : FdWithKeyRange (ParsedInternalKey UK)}
    (h : p.Returns ikey levels userKey (some f, q)) : p.ScanOutcome ikey levels userKey (some f, q) :=
  ⟨fun _ => h, fun hn => absurd hn (Option.some_ne_none f)⟩

theorem FilePicker.ScanOutcome.of_next {p q : FilePicker} (hlevel : q.currLevel = p.currLevel)
    (hb : BoundsValid (levels.getD (p.currLevel + 1) []) userKey (q.searchLeftBound, q.searchRightBound))
    (hpend : p.pending ikey levels userKey =
      lookupFilesFrom userKey ikey levels.length (p.currLevel + 1) (levels.drop (p.currLevel + 1))) :
    p.ScanOutcome ikey levels userKey (none, q) :=
  ⟨fun hn => absurd rfl hn, fun _ => ⟨hlevel, hb, hpend⟩⟩

/-- on L0, when not every file is read, the scan of the level from a file on returns the first file from there that
holds the key, and leaves the picker past it -/
theorem scanLevel_level0 (indexer : FileIndexer) (hmode : levels.length > 1 ∨ (levels.getD 0 []).length > 3) :
    ∀ (rest : List (FdWithKeyRange (ParsedInternalKey UK))) (p : FilePicker), p.currLevel = 0 →
      p.currIndexInCurrLevel ≤ (levels.getD 0 []).length → rest = (levels.getD 0 []).drop p.currIndexInCurrLevel →
      ∃ i ≤ (levels.getD 0 []).length,
        p.scanLevel ikey levels indexer userKey (levels.getD 0 []).length rest =
          ((rest.filter (fun f => decide (f.HoldsUserKey userKey))).head?, { p with currIndexInCurrLevel := i }) ∧
        ((levels.getD 0 []).drop i).filter (fun f => decide (f.HoldsUserKey userKey)) =
          (rest.filter (fun f => decide (f.HoldsUserKey userKey))).tail
  | [], p, _, hi, hrest => ⟨p.currIndexInCurrLevel, hi, rfl, by rw [← hrest]; rfl⟩
  | f :: rest, p, hL0, hi, hrest => by
    have hlt : p.currIndexInCurrLevel < (levels.getD 0 []).length := by
      apply Nat.lt_of_not_le
      intro hge
      have hnil := List.drop_eq_nil_iff.mpr hge
      rw [← hrest] at hnil
      exact List.cons_ne_nil f rest hnil
    have hrest' : rest = (levels.getD 0 []).drop (p.currIndexInCurrLevel + 1) := by
      have htail := congrArg List.tail hrest
      rwa [List.tail_cons, List.tail_drop] at htail
    rw [FilePicker.scanLevel, if_pos hmode]
    dsimp only
    rw [if_neg (show ¬ p.currLevel > 0 by omega)]
    by_cases hf : f.HoldsUserKey userKey
    · -- the file holds the key: returned, with the picker past it
      rw [if_neg (mt (outside_iff_not_holdsUserKey f userKey).mp (not_not.mpr hf)), FilePicker.afterReturn,
        if_neg (fun h => absurd h.1 (by omega))]
      have hcons : (f :: rest).filter (fun g => decide (g.HoldsUserKey userKey)) =
          f :: rest.filter (fun g => decide (g.HoldsUserKey userKey)) :=
        List.filter_cons_of_pos (decide_eq_true hf)
      refine ⟨p.currIndexInCurrLevel + 1, hlt, ?_, ?_⟩
      · rw [hcons]
        rfl
      · rw [← hrest', hcons]
        rfl
    · -- the key falls out of the file: the scan goes on from the next one
      rw [if_pos ((outside_iff_not_holdsUserKey f userKey).mpr hf), if_pos hL0]
      have hcons : (f :: rest).filter (fun g => decide (g.HoldsUserKey userKey)) =
          rest.filter (fun g => decide (g.HoldsUserKey userKey)) :=
        List.filter_cons_of_neg (by simpa using hf)
      obtain ⟨i, hi', hscan, htail⟩ := scanLevel_level0 indexer hmode rest
        { p with currIndexInCurrLevel := p.currIndexInCurrLevel + 1 } hL0 hlt hrest'
      refine ⟨i, hi', ?_, ?_⟩
      · rw [hcons]
        exact hscan
      · rw [htail, hcons]

/-- the scan of L0: the next file from the picker's that holds the key, or, with one level of at most three files,
the next file -/
theorem scanOutcome_level0 (indexer : FileIndexer) {p : FilePicker} (hact : p.Active levels userKey)
    (he : p.searchEnded = false) (hL0 : p.currLevel = 0) :
    p.ScanOutcome ikey levels userKey (p.scanLevel ikey levels indexer userKey (levels.getD p.currLevel []).length
      ((levels.getD p.currLevel []).drop p.currIndexInCurrLevel)) := by
  have hbounds : BoundsValid (levels.getD (p.currLevel + 1) []) userKey (p.searchLeftBound, p.searchRightBound) :=
    .inl (hact.level0 hL0)
  have hidx : p.currIndexInCurrLevel ≤ (levels.getD 0 []).length := hL0 ▸ hact.index_le
  have hpend := FilePicker.pending_level0 ikey levels userKey he hL0
  -- the picker moved to an index of L0 keeps the invariant
  have hmove : ∀ i ≤ (levels.getD 0 []).length,
      ({ p with currIndexInCurrLevel := i } : FilePicker).Good levels userKey := by
    intro i hi _
    refine ⟨hact.level_lt, hL0 ▸ hi, hact.level0, ?_, ?_⟩
    · intro hpos
      exact absurd hL0 (Nat.pos_iff_ne_zero.mp hpos)
    · intro hpos
      exact absurd hL0 (Nat.pos_iff_ne_zero.mp hpos)
  rw [hL0]
  by_cases hmode : levels.length > 1 ∨ (levels.getD 0 []).length > 3
  · obtain ⟨i, hi, hscan, htail⟩ := scanLevel_level0 indexer hmode _ p hL0 hidx rfl
    rw [if_neg (by omega)] at hpend
    rw [hscan]
    have hpend' := FilePicker.pending_level0 ikey levels userKey (p := { p with currIndexInCurrLevel := i })
      he hL0
    rw [if_neg (by omega), htail] at hpend'
    cases hhold : ((levels.getD 0 []).drop p.currIndexInCurrLevel).filter
        (fun f => decide (f.HoldsUserKey userKey)) with
    | nil =>
      rw [hhold, List.nil_append] at hpend
      exact FilePicker.ScanOutcome.of_next rfl hbounds (by rw [hpend, hL0])
    | cons f fs =>
      rw [hhold] at hpend hpend'
      refine FilePicker.ScanOutcome.of_found ⟨?_, ?_, hmove i hi⟩
      · rw [hpend]
        rfl
      · rw [hpend', hpend]
        rfl
  · -- one level of at most three files: every file is read
    rw [if_pos (by omega)] at hpend
    cases hrest : (levels.getD 0 []).drop p.currIndexInCurrLevel with
    | nil =>
      rw [hrest, List.nil_append] at hpend
      exact FilePicker.ScanOutcome.of_next rfl hbounds (by rw [hpend, hL0])
    | cons f fs =>
      have hlt : p.currIndexInCurrLevel < (levels.getD 0 []).length := by
        apply Nat.lt_of_not_le
        intro hge
        rw [List.drop_eq_nil_iff.mpr hge] at hrest
        exact List.cons_ne_nil f fs hrest.symm
      have hfs : fs = (levels.getD 0 []).drop (p.currIndexInCurrLevel + 1) := by
        have htail := congrArg List.tail hrest
        rwa [List.tail_cons, List.tail_drop, eq_comm] at htail
      rw [hrest] at hpend
      rw [FilePicker.scanLevel, if_neg hmode, FilePicker.afterReturn, if_neg (fun h => absurd h.1 (by omega))]
      have hpend' := FilePicker.pending_level0 ikey levels userKey
        (p := { p with currIndexInCurrLevel := p.currIndexInCurrLevel + 1 }) he hL0
      rw [if_pos (by omega), ← hfs] at hpend'
      refine FilePicker.ScanOutcome.of_found ⟨?_, ?_, hmove _ hlt⟩
      · rw [hpend]
        rfl
      · rw [hpend', hpend]
        rfl

/-- the bounds `GetNextLevelIndex` gives after the key met a file of a level past L0: on the last level the next
level is empty -/
theorem getNextLevelIndex_bounds (hwf : ∀ level, 0 < level → LevelWellFormed (levels.getD level [])) {level i : ℕ}
    (hlevel : 0 < level ∧ level < levels.length) (hi : i < (levels.getD level []).length)
    (hbefore : ∀ g ∈ (levels.getD level []).take i, g.largestKey.userKey ≤ userKey) {cmpSmallest cmpLargest : Ordering}
    (hs : cmpSmallest = compare userKey (levels.getD level [])[i].smallestKey.userKey)
    (hl : cmpLargest = if cmpSmallest = .lt then .lt else compare userKey (levels.getD level [])[i].largestKey.userKey) :
    BoundsValid (levels.getD (level + 1) []) userKey
      ((FileIndexer.updateIndex levels.length levels).getNextLevelIndex level i cmpSmallest cmpLargest) := by
  by_cases hlast : level = levels.length - 1
  · have hnum : level = (FileIndexer.updateIndex levels.length levels).numLevels - 1 := by
      rw [updateIndex_numLevels]
      exact hlast
    have hnil : levels.getD (level + 1) [] = [] := by
      rw [List.getD_eq_getElem?_getD, List.getElem?_eq_none (by omega), Option.getD_none]
    rw [FileIndexer.getNextLevelIndex, if_pos hnum, hnil]
    refine .inr ⟨le_refl 0, by simp, ?_, ?_⟩
    · intro g hg
      exact absurd hg List.not_mem_nil
    · intro g hg
      exact absurd hg List.not_mem_nil
  · exact getNextLevelIndex_valid ⟨hlevel.1, by omega⟩ (hwf level hlevel.1) hi hbefore hs hl

variable (hikey : ikey.userKey = userKey) (hwf : ∀ level, 0 < level → LevelWellFormed (levels.getD level []))
include hikey hwf

/-- the loop of `PrepareNextLevel` from a level whose bounds lose no file of it that holds the key (the whole level,
on L0) leaves a picker with the scan of the levels from there on still to return -/
theorem prepareNextLevelLoop_outcome :
    ∀ (rest : List (List (FdWithKeyRange (ParsedInternalKey UK)))) (p : FilePicker),
      rest = levels.drop p.currLevel →
      BoundsValid (levels.getD p.currLevel []) userKey (p.searchLeftBound, p.searchRightBound) →
      (p.currLevel = 0 → p.searchLeftBound = 0 ∧ p.searchRightBound = kLevelMaxIndex) →
      PrepareOutcome ikey levels userKey p.currLevel rest (p.prepareNextLevelLoop ikey rest)
  | [], p, _, _, _ => by
    rw [FilePicker.prepareNextLevelLoop]
    refine ⟨?_, FilePicker.good_of_ended (p := { p with searchEnded := true }) rfl,
      fun h => absurd h Bool.false_ne_true⟩
    exact FilePicker.pending_of_ended (p := { p with searchEnded := true }) rfl
  | files :: rest, p, hrest, hb, h0 => by
    obtain ⟨hfiles, hrest', hlt⟩ := getD_of_cons_eq_drop hrest
    -- every branch that skips the level goes on from the next one, searched in full
    have hskip : PrepareOutcome ikey levels userKey (p.currLevel + 1) rest
        (p.skipLevel.prepareNextLevelLoop ikey rest) :=
      prepareNextLevelLoop_outcome rest p.skipLevel hrest' (.inl ⟨rfl, rfl⟩)
        (fun h => absurd h (Nat.succ_ne_zero _))
    rw [FilePicker.prepareNextLevelLoop]
    by_cases hnil : files = []
    · rw [if_pos hnil]
      subst hnil
      exact hskip.skip (levelLookup_nil _)
    rw [if_neg hnil]
    by_cases hL0 : p.currLevel = 0
    · rw [if_pos hL0]
      exact prepareOutcome_level0 hfiles hrest' hlt hL0 (h0 hL0)
    rw [if_neg hL0]
    rw [hfiles] at hb
    have hwfl : LevelWellFormed files := hfiles ▸ hwf p.currLevel (Nat.pos_of_ne_zero hL0)
    by_cases hlr : p.searchLeftBound ≤ p.searchRightBound
    · rw [if_pos hlr]
      dsimp only
      generalize hrdef : (if p.searchRightBound = kLevelMaxIndex then (files.length : Int) - 1
        else p.searchRightBound) = right
      obtain ⟨hl, hr, hcast, hleft, hright⟩ := hb.window hlr hrdef.symm
      obtain ⟨hempty, hfound⟩ := findFileInRange_lookup hikey hwfl hl hr hleft hright
      by_cases hend : ((findFileInRange files ikey p.searchLeftBound.toNat (right + 1).toNat : ℕ) : Int) = right + 1
      · -- the key is past the window: nothing of the level holds it
        rw [if_pos hend]
        exact hskip.skip (by rw [if_neg hL0]; exact hempty (by omega))
      · rw [if_neg hend]
        obtain ⟨hlook, hpassed⟩ := hfound (by omega)
        have hle := (findFileInRange_spec hwfl ikey hl hr (fun g hg => icmpCompare_lt_of_userKey_lt
          (by rw [hikey]; exact hleft g hg))).1
        exact prepareOutcome_found hfiles hrest' hlt hL0 _ (by omega) hlook hpassed
    · rw [if_neg hlr]
      rcases hb with ⟨hl, hmax⟩ | ⟨hl, hlen, hleft, hright⟩
      · dsimp only at hl hmax
        rw [hl, hmax] at hlr
        exact absurd (by norm_num [kLevelMaxIndex]) hlr
      · -- bounds out of order: the files before them end below the key and those after start past it
        dsimp only at hl hlen hleft hright
        exact hskip.skip (by
          rw [if_neg hL0]
          exact levelLookupFiles_eq_nil_of_bounds (show (p.searchRightBound + 1).toNat ≤ p.searchLeftBound.toNat
            by omega) hleft hright)

/-- `search_ended_ = !PrepareNextLevel()` from a picker whose bounds lose no file of the next level that holds the
key -/
theorem FilePicker.nextLevel_spec {p : FilePicker}
    (hb : BoundsValid (levels.getD (p.currLevel + 1) []) userKey (p.searchLeftBound, p.searchRightBound)) :
    (p.nextLevel ikey levels).pending ikey levels userKey =
        lookupFilesFrom userKey ikey levels.length (p.currLevel + 1) (levels.drop (p.currLevel + 1)) ∧
      (p.nextLevel ikey levels).Good levels userKey ∧
      ((p.nextLevel ikey levels).searchEnded = false → p.currLevel < (p.nextLevel ikey levels).currLevel) := by
  have h := prepareNextLevelLoop_outcome hikey hwf (levels.drop (p.currLevel + 1))
    { p with currLevel := p.currLevel + 1 } rfl hb (fun h => absurd h (Nat.succ_ne_zero _))
  refine ⟨h.pending, h.good, fun he => h.level_le ?_⟩
  have he' : (!({ p with currLevel := p.currLevel + 1 }.prepareNextLevelLoop ikey
      (levels.drop (p.currLevel + 1))).2) = false := he
  simpa using he'

/-- the scan of a level past L0 reads the file the picker is at: it returns it when its range holds the key, and sets
the bounds of the next level from it -/
theorem scanOutcome_level {p : FilePicker} (hact : p.Active levels userKey) (he : p.searchEnded = false)
    (hL : 0 < p.currLevel) :
    p.ScanOutcome ikey levels userKey (p.scanLevel ikey levels (FileIndexer.updateIndex levels.length levels) userKey
      (levels.getD p.currLevel []).length ((levels.getD p.currLevel []).drop p.currIndexInCurrLevel)) := by
  have hpend := FilePicker.pending_level ikey levels userKey he hL.ne'
  rcases Nat.lt_or_ge p.currIndexInCurrLevel (levels.getD p.currLevel []).length with hi | hi
  · have hb := getNextLevelIndex_bounds hwf ⟨hL, hact.level_lt⟩ hi (hact.passed hL) rfl rfl
    have hmode : levels.length > 1 ∨ (levels.getD p.currLevel []).length > 3 :=
      .inl (by have := hact.level_lt; omega)
    have htake := List.take_add_one (l := levels.getD p.currLevel []) (i := p.currIndexInCurrLevel)
    rw [List.getElem?_eq_getElem hi, Option.toList_some] at htake
    rw [List.drop_eq_getElem_cons hi] at hpend ⊢
    rw [FilePicker.scanLevel, if_pos hmode]
    dsimp only
    rw [if_pos hL]
    generalize (levels.getD p.currLevel [])[p.currIndexInCurrLevel] = f at hb hpend htake ⊢
    by_cases hf : f.HoldsUserKey userKey
    · rw [if_neg (mt (outside_iff_not_holdsUserKey f userKey).mp (not_not.mpr hf))]
      have hcmpS : compare userKey f.smallestKey.userKey ≠ .lt := mt compare_lt_iff_lt.mp (not_lt.mpr hf.1)
      rw [if_neg hcmpS] at hb ⊢
      by_cases hlt : userKey < f.largestKey.userKey
      · -- the file ends past the key: the last of its level the picker reads
        rw [compare_lt_iff_lt.mpr hlt] at hb ⊢
        rw [FilePicker.afterReturn, if_pos ⟨hL, rfl⟩]
        set b := (FileIndexer.updateIndex levels.length levels).getNextLevelIndex p.currLevel
          p.currIndexInCurrLevel (compare userKey f.smallestKey.userKey) .lt
        obtain ⟨hnp, hng, -⟩ := FilePicker.nextLevel_spec hikey hwf
          (p := { p with searchLeftBound := b.1, searchRightBound := b.2 }) hb
        rw [levelRun, if_pos hf, if_pos hlt] at hpend
        refine FilePicker.ScanOutcome.of_found ⟨?_, ?_, hng⟩
        · rw [hpend]
          rfl
        · rw [hnp, hpend]
          rfl
      · -- the file ends at the key: the picker reads on in the level
        have hend : f.largestKey.userKey = userKey := le_antisymm (not_lt.mp hlt) hf.2
        rw [compare_eq_iff_eq.mpr hend.symm] at hb ⊢
        rw [FilePicker.afterReturn, if_neg (fun h => absurd h.2 (by decide))]
        rw [levelRun, if_pos hf, if_neg hlt] at hpend
        set b := (FileIndexer.updateIndex levels.length levels).getNextLevelIndex p.currLevel
          p.currIndexInCurrLevel (compare userKey f.smallestKey.userKey) .eq
        have hpend' := FilePicker.pending_level ikey levels userKey
          (p := { p with
            searchLeftBound := b.1, searchRightBound := b.2, currIndexInCurrLevel := p.currIndexInCurrLevel + 1 })
          he hL.ne'
        refine FilePicker.ScanOutcome.of_found ⟨?_, ?_, fun _ => ⟨hact.level_lt, hi, fun h => absurd h hL.ne', ?_, ?_⟩⟩
        · rw [hpend]
          rfl
        · rw [hpend', hpend]
          rfl
        · intro _ g hg
          have hg' : g ∈ (levels.getD p.currLevel []).take p.currIndexInCurrLevel ++ [f] := htake ▸ hg
          rcases List.mem_append.mp hg' with hg' | hg'
          · exact hact.passed hL g hg'
          · rw [List.mem_singleton.mp hg', hend]
        · intro _ _
          exact hb
    · -- the key falls out of the file: nothing more in the level
      rw [if_pos ((outside_iff_not_holdsUserKey f userKey).mpr hf), if_neg hL.ne']
      rw [levelRun, if_neg hf, List.nil_append] at hpend
      exact FilePicker.ScanOutcome.of_next rfl hb hpend
  · -- past the last file: what is left is below
    have hieq := le_antisymm hact.index_le hi
    rw [List.drop_eq_nil_of_le hi] at hpend ⊢
    rw [levelRun, List.nil_append] at hpend
    exact FilePicker.ScanOutcome.of_next rfl (hact.atEnd hL hieq) hpend

/-- the loop of `GetNextFile`, with a round more than the levels it has still to go down, returns the head of what
the picker has still to return and leaves it the tail -/
theorem getNextFileLoop_returns :
    ∀ (fuel : ℕ) (p : FilePicker), p.Good levels userKey →
      (p.searchEnded = false → levels.length - p.currLevel < fuel) →
      p.Returns ikey levels userKey
        (p.getNextFileLoop ikey levels (FileIndexer.updateIndex levels.length levels) userKey fuel)
  | 0, p, _, hfuel => by
    have he : p.searchEnded = true := by
      cases h : p.searchEnded
      · exact absurd (hfuel h) (Nat.not_lt_zero _)
      · rfl
    exact FilePicker.Returns.of_ended he
  | fuel + 1, p, hgood, hfuel => by
    rw [FilePicker.getNextFileLoop]
    cases he : p.searchEnded
    · rw [if_neg Bool.false_ne_true]
      dsimp only
      have hact := hgood he
      -- the scan of the current level, by its kind
      have hscan : p.ScanOutcome ikey levels userKey (p.scanLevel ikey levels
          (FileIndexer.updateIndex levels.length levels) userKey (levels.getD p.currLevel []).length
          ((levels.getD p.currLevel []).drop p.currIndexInCurrLevel)) := by
        rcases Nat.eq_zero_or_pos p.currLevel with hL0 | hL
        · exact scanOutcome_level0 _ hact he hL0
        · exact scanOutcome_level hikey hwf hact he hL
      split
      · next f p' heq =>
        rw [heq] at hscan
        exact hscan.found (Option.some_ne_none f)
      · next p' heq =>
        rw [heq] at hscan
        obtain ⟨hlevel, hb, hpend⟩ := hscan.next rfl
        rw [← hlevel] at hb
        obtain ⟨hnp, hng, hnl⟩ := FilePicker.nextLevel_spec hikey hwf hb
        apply FilePicker.Returns.of_pending_eq (by rw [hnp, hlevel, hpend])
        apply getNextFileLoop_returns fuel _ hng
        intro hne
        have hup := hnl hne
        have hrounds := hfuel he
        have hin := hact.level_lt
        omega
    · rw [if_pos rfl]
      exact FilePicker.Returns.of_ended he

/-- `GetNextFile` returns the head of what the picker has still to return and leaves it the tail -/
theorem getNextFile_spec {p : FilePicker} (hgood : p.Good levels userKey) :
    p.Returns ikey levels userKey (p.getNextFile ikey levels (FileIndexer.updateIndex levels.length levels) userKey) :=
  getNextFileLoop_returns hikey hwf (levels.length + 1) p hgood (fun _ => by omega)

/-- the calls of `Version::Get` until `GetNextFile` returns none, with more calls allowed than the picker has files
still to return, return them all -/
theorem getNextFiles_eq_pending :
    ∀ (n : ℕ) (p : FilePicker), p.Good levels userKey → (p.pending ikey levels userKey).length < n →
      p.getNextFiles ikey levels (FileIndexer.updateIndex levels.length levels) userKey n =
        p.pending ikey levels userKey
  | 0, _, _, hlen => absurd hlen (Nat.not_lt_zero _)
  | n + 1, p, hgood, hlen => by
    have hret := getNextFile_spec hikey hwf hgood
    rw [FilePicker.getNextFiles]
    split
    · next f p' heq =>
      rw [heq] at hret
      have hhead : f ∈ (p.pending ikey levels userKey).head? := hret.head.symm
      have hpos : 0 < (p.pending ikey levels userKey).length :=
        List.length_pos_of_mem (List.mem_of_mem_head? hhead)
      have hrest := getNextFiles_eq_pending n p' hret.good (by rw [hret.tail, List.length_tail]; omega)
      rw [hrest, hret.tail]
      exact List.cons_head?_tail hhead
    · next p' heq =>
      rw [heq] at hret
      exact (List.head?_eq_none_iff.mp hret.head.symm).symm

/-- the constructor leaves a picker with the whole scan still to return -/
theorem FilePicker.create_spec :
    (FilePicker.create ikey levels).pending ikey levels userKey = lookupFiles userKey ikey levels ∧
      (FilePicker.create ikey levels).Good levels userKey := by
  have h := prepareNextLevelLoop_outcome hikey hwf levels ⟨0, 0, kLevelMaxIndex, false, 0⟩ rfl (.inl ⟨rfl, rfl⟩)
    (fun _ => ⟨rfl, rfl⟩)
  exact ⟨h.pending, h.good⟩

end picker

theorem takeThrough_sublist {α : Type} (p : α → Bool) : ∀ l : List α, (takeThrough p l).Sublist l
  | [] => List.Sublist.slnil
  | a :: as => by
    rw [takeThrough]
    split
    · exact List.cons_sublist_cons.mpr (List.nil_sublist as)
    · exact (takeThrough_sublist p as).cons_cons a

/-- the scan reads each file of the levels at most once, in order -/
theorem lookupFilesFrom_sublist (userKey : UK) (ikey : ParsedInternalKey UK) (numLevels : ℕ) :
    ∀ (level : ℕ) (rest : List (List (FdWithKeyRange (ParsedInternalKey UK)))),
      (lookupFilesFrom userKey ikey numLevels level rest).Sublist rest.flatten
  | _, [] => List.Sublist.slnil
  | level, files :: rest => by
    rw [lookupFilesFrom, List.flatten_cons]
    apply List.Sublist.append _ (lookupFilesFrom_sublist userKey ikey numLevels (level + 1) rest)
    split
    · rw [level0LookupFiles]
      split
      · exact List.Sublist.refl files
      · exact List.filter_sublist
    · exact (takeThrough_sublist _ _).trans List.filter_sublist

/-- The files `Version::Get` reads for a lookup, one `GetNextFile` call after another until it returns none, are
those the linear scan of the levels reads, when every level past L0 is in order and disjoint and the file indexer is
built by `UpdateIndex` from the same levels -/
theorem filePickerFiles_eq_lookupFiles (levels : List (List (FdWithKeyRange (ParsedInternalKey UK))))
    (hwf : ∀ files ∈ levels.drop 1, LevelWellFormed files) (userKey : UK) (ikey : ParsedInternalKey UK)
    (hikey : ikey.userKey = userKey) :
    filePickerFiles levels (FileIndexer.updateIndex levels.length levels) userKey ikey =
      lookupFiles userKey ikey levels := by
  have hwf' : ∀ level, 0 < level → LevelWellFormed (levels.getD level []) := by
    intro level hlevel
    rcases Nat.lt_or_ge level levels.length with hlt | hge
    · have hmem : levels[level] ∈ levels.drop 1 := by
        rw [List.mem_iff_getElem]
        refine ⟨level - 1, by rw [List.length_drop]; omega, ?_⟩
        rw [List.getElem_drop]
        congr 1
        omega
      rw [List.getD_eq_getElem?_getD, List.getElem?_eq_getElem hlt, Option.getD_some]
      exact hwf _ hmem
    · rw [List.getD_eq_getElem?_getD, List.getElem?_eq_none hge, Option.getD_none]
      exact LevelWellFormed.nil
  obtain ⟨hpend, hgood⟩ := FilePicker.create_spec hikey hwf'
  have hlen : (lookupFiles userKey ikey levels).length ≤ (levels.map List.length).sum := by
    rw [← List.length_flatten]
    exact (lookupFilesFrom_sublist userKey ikey levels.length 0 levels).length_le
  rw [filePickerFiles, getNextFiles_eq_pending hikey hwf' _ _ hgood (by rw [hpend]; omega), hpend]

theorem filePickerFiles_eq_lookupFiles_fourLevels :
    let levels : List (List (FdWithKeyRange (ParsedInternalKey ℕ))) :=
      [[⟨⟨5, 10, .kTypeValue⟩, ⟨10, 10, .kTypeValue⟩, []⟩, ⟨⟨1, 10, .kTypeValue⟩, ⟨4, 10, .kTypeValue⟩, []⟩],
        [⟨⟨1, 10, .kTypeValue⟩, ⟨3, 10, .kTypeValue⟩, []⟩, ⟨⟨4, 10, .kTypeValue⟩, ⟨6, 10, .kTypeValue⟩, []⟩,
          ⟨⟨7, 10, .kTypeValue⟩, ⟨9, 10, .kTypeValue⟩, []⟩],
        [⟨⟨1, 10, .kTypeValue⟩, ⟨5, 10, .kTypeValue⟩, []⟩, ⟨⟨6, 10, .kTypeValue⟩, ⟨8, 10, .kTypeValue⟩, []⟩],
        [⟨⟨2, 10, .kTypeValue⟩, ⟨2, 10, .kTypeValue⟩, []⟩, ⟨⟨3, 10, .kTypeValue⟩, ⟨5, 10, .kTypeValue⟩, []⟩,
          ⟨⟨6, 10, .kTypeValue⟩, ⟨7, 10, .kTypeValue⟩, []⟩]]
    (∀ files ∈ levels.drop 1, LevelWellFormed files) ∧
      filePickerFiles levels (FileIndexer.updateIndex levels.length levels) 5 ⟨5, 20, kValueTypeForSeek⟩ =
        lookupFiles 5 ⟨5, 20, kValueTypeForSeek⟩ levels :=
  ⟨by decide, filePickerFiles_eq_lookupFiles _ (by decide) 5 _ rfl⟩

end ForSt
