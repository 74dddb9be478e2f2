import ForSt.Db.FileIndexer
import Mathlib.Data.List.Forall2
/-!
What `FileIndexer` gives `FilePicker`: bounds that lose no file of the next level that can hold the key.

On a level past L0 (`LevelWellFormed`) the files are in order and disjoint, so their smallest and largest user keys
grow along the level. Then every next-level file before an index unit's `smallest_lb` (`largest_lb`) ends below the
file's smallest (largest) user key, and every one after `smallest_rb` (`largest_rb`) starts past it
(`IndexUnit.Sound`, from `calculateLB_sound` and `calculateRB_sound`). Whatever the key's comparison with the file,
`GetNextLevelIndex` then gives bounds outside which no file of the next level holds the key
(`getNextLevelIndex_valid`): the file's position says how the key relates to the files above it, the unit how those
keys relate to the next level.
-/

namespace ForSt

variable {UK : Type} [LinearOrder UK]

/-- a level past L0 of a version: each file's smallest key is not after its largest, and each file ends before every
later one starts, in internal key order -/
structure LevelWellFormed (files : List (FdWithKeyRange (ParsedInternalKey UK))) : Prop where
  ordered : ∀ f ∈ files, icmpCompare f.largestKey f.smallestKey ≠ .lt
  disjoint : files.Pairwise (fun f g => icmpCompare f.largestKey g.smallestKey = .lt)

instance (files : List (FdWithKeyRange (ParsedInternalKey UK))) : Decidable (LevelWellFormed files) :=
  decidable_of_iff ((∀ f ∈ files, icmpCompare f.largestKey f.smallestKey ≠ .lt) ∧
      files.Pairwise (fun f g => icmpCompare f.largestKey g.smallestKey = .lt))
    ⟨fun h => ⟨h.1, h.2⟩, fun h => ⟨h.1, h.2⟩⟩

section levels

variable {files : List (FdWithKeyRange (ParsedInternalKey UK))}

theorem LevelWellFormed.smallest_le_largest (h : LevelWellFormed files) {f : FdWithKeyRange (ParsedInternalKey UK)}
    (hf : f ∈ files) : f.smallestKey.userKey ≤ f.largestKey.userKey :=
  userKey_le_of_icmpCompare_ne_lt (h.ordered f hf)

theorem LevelWellFormed.largest_le_smallest (h : LevelWellFormed files) :
    files.Pairwise (fun f g => f.largestKey.userKey ≤ g.smallestKey.userKey) :=
  h.disjoint.imp userKey_le_of_icmpCompare_lt

theorem LevelWellFormed.smallest_mono (h : LevelWellFormed files) :
    files.Pairwise (fun f g => f.smallestKey.userKey ≤ g.smallestKey.userKey) :=
  h.largest_le_smallest.imp_of_mem fun hf _ hfg => le_trans (h.smallest_le_largest hf) hfg

theorem LevelWellFormed.largest_mono (h : LevelWellFormed files) :
    files.Pairwise (fun f g => f.largestKey.userKey ≤ g.largestKey.userKey) :=
  h.largest_le_smallest.imp_of_mem fun _ hg hfg => le_trans hfg (h.smallest_le_largest hg)

/-- the largest keys of a level grow, in internal key order -/
theorem LevelWellFormed.largest_lt (h : LevelWellFormed files) :
    files.Pairwise (fun f g => icmpCompare f.largestKey g.largestKey = .lt) :=
  h.disjoint.imp_of_mem fun _ hg hfg => icmpCompare_lt_of_lt_of_ne_lt hfg (h.ordered _ hg)

theorem LevelWellFormed.sublist (h : LevelWellFormed files) {files' : List (FdWithKeyRange (ParsedInternalKey UK))}
    (hs : files'.Sublist files) : LevelWellFormed files' :=
  ⟨fun f hf => h.ordered f (hs.subset hf), h.disjoint.sublist hs⟩

end levels

section calculate

variable {α β : Type} (ka : α → UK) (kb : β → UK)

/-- the lower files `CalculateLB` passes for one upper file all have keys below it -/
theorem skipLowerLB_eq (a : α) : ∀ (k : ℕ) (lowers : List β), ∃ n ≤ lowers.length,
    skipLowerLB (fun a b => compare (ka a) (kb b)) a k lowers = (k + n, lowers.drop n) ∧
      ∀ b ∈ lowers.take n, kb b < ka a
  | k, [] => ⟨0, le_refl _, rfl, fun _ h => absurd h List.not_mem_nil⟩
  | k, b :: rest => by
    by_cases hgt : compare (ka a) (kb b) = .gt
    · obtain ⟨n, hn, heq, hlt⟩ := skipLowerLB_eq a (k + 1) rest
      refine ⟨n + 1, Nat.succ_le_succ hn, ?_, ?_⟩
      · rw [skipLowerLB, if_pos hgt, heq, List.drop_succ_cons, Nat.add_assoc, Nat.add_comm 1 n]
      · intro b' hb'
        rw [List.take_succ_cons] at hb'
        rcases List.mem_cons.mp hb' with rfl | hb'
        · exact compare_gt_iff_gt.mp hgt
        · exact hlt b' hb'
    · refine ⟨0, Nat.zero_le _, ?_, fun _ h => absurd h List.not_mem_nil⟩
      rw [skipLowerLB, if_neg hgt, Nat.add_zero, List.drop_zero]

/-- every lower file before the index `CalculateLB` gives an upper file has a key below the upper file's, when the
upper keys grow -/
theorem calculateLB_sound {upper : List α} (hmono : upper.Pairwise (fun a a' => ka a ≤ ka a')) (full : List β)
    (k : ℕ) (hbelow : ∀ b ∈ full.take k, ∀ a ∈ upper, kb b < ka a) :
    List.Forall₂ (fun a lb => ∀ b ∈ full.take lb, kb b < ka a) upper
      (calculateLB (fun a b => compare (ka a) (kb b)) upper k (full.drop k)) := by
  induction upper generalizing k with
  | nil => exact List.Forall₂.nil
  | cons a rest ih =>
    obtain ⟨n, -, heq, hlt⟩ := skipLowerLB_eq ka kb a k (full.drop k)
    rw [List.pairwise_cons] at hmono
    -- the files passed for `a` are below `a`, and so below every later upper file
    have hnew : ∀ b ∈ full.take (k + n), kb b < ka a := by
      intro b hb
      rw [List.take_add] at hb
      rcases List.mem_append.mp hb with hb | hb
      · exact hbelow b hb a (List.mem_cons_self ..)
      · exact hlt b hb
    rw [calculateLB, heq, List.drop_drop]
    exact List.Forall₂.cons hnew (ih hmono.2 (k + n) fun b hb a' ha' =>
      lt_of_lt_of_le (hnew b hb) (hmono.1 a' ha'))

/-- the lower files `CalculateRB` passes from the back for one upper file all have keys past it -/
theorem skipLowerRB_eq (a : α) : ∀ (k : Int) (lowers : List β), ∃ n ≤ lowers.length,
    skipLowerRB (fun a b => compare (ka a) (kb b)) a k lowers = (k - n, lowers.drop n) ∧
      ∀ b ∈ lowers.take n, ka a < kb b
  | k, [] => ⟨0, le_refl _, by rw [skipLowerRB, Nat.cast_zero, Int.sub_zero, List.drop_zero],
      fun _ h => absurd h List.not_mem_nil⟩
  | k, b :: rest => by
    by_cases hlt : compare (ka a) (kb b) = .lt
    · obtain ⟨n, hn, heq, hgt⟩ := skipLowerRB_eq a (k - 1) rest
      refine ⟨n + 1, Nat.succ_le_succ hn, ?_, ?_⟩
      · rw [skipLowerRB, if_pos hlt, heq, List.drop_succ_cons]
        congr 1
        push_cast
        ring
      · intro b' hb'
        rw [List.take_succ_cons] at hb'
        rcases List.mem_cons.mp hb' with rfl | hb'
        · exact compare_lt_iff_lt.mp hlt
        · exact hgt b' hb'
    · refine ⟨0, Nat.zero_le _, ?_, fun _ h => absurd h List.not_mem_nil⟩
      rw [skipLowerRB, if_neg hlt, Nat.cast_zero, Int.sub_zero, List.drop_zero]

/-- the loop of `CalculateRB` over the upper files from the last, with the first `m` lower files left: every lower
file after the index it gives an upper file has a key past the upper file's, when the upper keys fall -/
theorem calculateRBLoop_sound {upper : List α} (hmono : upper.Pairwise (fun a a' => ka a' ≤ ka a)) (full : List β)
    (m : ℕ) (hm : m ≤ full.length) (habove : ∀ b ∈ full.drop m, ∀ a ∈ upper, ka a < kb b) :
    List.Forall₂ (fun a (rb : Int) => -1 ≤ rb ∧ rb < full.length ∧ ∀ b ∈ full.drop (rb + 1).toNat, ka a < kb b)
      upper (calculateRBLoop (fun a b => compare (ka a) (kb b)) upper ((m : Int) - 1) (full.take m).reverse) := by
  induction upper generalizing m with
  | nil => exact List.Forall₂.nil
  | cons a rest ih =>
    obtain ⟨n, hn, heq, hgt⟩ := skipLowerRB_eq ka kb a ((m : Int) - 1) (full.take m).reverse
    rw [List.length_reverse, List.length_take, Nat.min_eq_left hm] at hn
    rw [List.pairwise_cons] at hmono
    -- the lower files left after `a` are the first `m - n`
    have hleft : ((m : Int) - 1 - n) = ((m - n : ℕ) : Int) - 1 := by
      rw [Nat.cast_sub hn]
      ring
    have hrest : (full.take m).reverse.drop n = (full.take (m - n)).reverse := by
      rw [List.drop_reverse, List.length_take, Nat.min_eq_left hm, List.take_take, Nat.min_eq_left (Nat.sub_le m n)]
    -- the files passed for `a` are past `a`, and so past every earlier upper file
    have hnew : ∀ b ∈ full.drop (m - n), ka a < kb b := by
      intro b hb
      have hsplit : full.drop (m - n) = (full.take m).drop (m - n) ++ full.drop m := by
        conv_lhs => rw [← List.take_append_drop m full]
        exact List.drop_append_of_le_length (by rw [List.length_take, Nat.min_eq_left hm]; exact Nat.sub_le m n)
      rw [hsplit] at hb
      rcases List.mem_append.mp hb with hb | hb
      · apply hgt b
        rw [List.take_reverse, List.length_take, Nat.min_eq_left hm]
        exact List.mem_reverse.mpr hb
      · exact habove b hb a (List.mem_cons_self ..)
    rw [calculateRBLoop, heq, hleft, hrest]
    refine List.Forall₂.cons ⟨?_, ?_, ?_⟩ (ih hmono.2 (m - n) (le_trans (Nat.sub_le m n) hm) fun b hb a' ha' =>
      lt_of_le_of_lt (hmono.1 a' ha') (hnew b hb))
    · omega
    · omega
    · have hidx : ((((m - n : ℕ) : Int) - 1 + 1).toNat) = m - n := by omega
      rw [hidx]
      exact hnew

/-- every lower file after the index `CalculateRB` gives an upper file has a key past the upper file's, when the
upper keys grow -/
theorem calculateRB_sound {upper : List α} (hmono : upper.Pairwise (fun a a' => ka a ≤ ka a')) (lower : List β) :
    List.Forall₂ (fun a (rb : Int) => -1 ≤ rb ∧ rb < lower.length ∧ ∀ b ∈ lower.drop (rb + 1).toNat, ka a < kb b)
      upper (calculateRB (fun a b => compare (ka a) (kb b)) upper lower) := by
  rw [calculateRB, ← List.forall₂_reverse_iff, List.reverse_reverse]
  have h := calculateRBLoop_sound ka kb (List.pairwise_reverse.mpr hmono) lower lower.length (le_refl _)
    (fun b hb => absurd hb (by rw [List.drop_length]; exact List.not_mem_nil))
  rwa [List.take_length] at h

end calculate

/-- an index unit says, of the next level, which files end below and which start past the file's keys -/
structure IndexUnit.Sound (lower : List (FdWithKeyRange (ParsedInternalKey UK))) (f : FdWithKeyRange (ParsedInternalKey UK))
    (unit : IndexUnit) : Prop where
  smallestLb : 0 ≤ unit.smallestLb ∧ ∀ g ∈ lower.take unit.smallestLb.toNat,
    g.largestKey.userKey < f.smallestKey.userKey
  largestLb : 0 ≤ unit.largestLb ∧ ∀ g ∈ lower.take unit.largestLb.toNat,
    g.largestKey.userKey < f.largestKey.userKey
  smallestRb : -1 ≤ unit.smallestRb ∧ unit.smallestRb < lower.length ∧
    ∀ g ∈ lower.drop (unit.smallestRb + 1).toNat, f.smallestKey.userKey < g.smallestKey.userKey
  largestRb : -1 ≤ unit.largestRb ∧ unit.largestRb < lower.length ∧
    ∀ g ∈ lower.drop (unit.largestRb + 1).toNat, f.largestKey.userKey < g.smallestKey.userKey

section updateIndex

variable {levels : List (List (FdWithKeyRange (ParsedInternalKey UK)))}

omit [LinearOrder UK] in
theorem getD_map_range {β : Type} (g : ℕ → β) {n i : ℕ} (hi : i < n) (d : β) :
    ((List.range n).map g).getD i d = g i := by
  rw [List.getD_eq_getElem?_getD, List.getElem?_map, List.getElem?_range hi, Option.map_some, Option.getD_some]

/-- a `Forall₂` over the files, read at one file and at the same index of the other list -/
theorem forall₂_getD {α β : Type} {R : α → β → Prop} {l : List α} {l' : List β} (h : List.Forall₂ R l l') {i : ℕ}
    (hi : i < l.length) (d : β) : R l[i] (l'.getD i d) := by
  have hlen := h.length_eq
  rw [List.getD_eq_getElem?_getD, List.getElem?_eq_getElem (hlen ▸ hi), Option.getD_some]
  exact (List.forall₂_iff_get.mp h).2 i hi (hlen ▸ hi)

/-- the unit `UpdateIndex` builds for each file of a level from L1 to the one before the last is sound -/
theorem updateIndex_sound {level i : ℕ} (hlevel : 1 ≤ level ∧ level < levels.length - 1)
    (hwf : LevelWellFormed (levels.getD level [])) (hi : i < (levels.getD level []).length) :
    IndexUnit.Sound (levels.getD (level + 1) []) (levels.getD level [])[i]
      (((FileIndexer.updateIndex levels.length levels).nextLevelIndex.getD level []).getD i IndexUnit.init) := by
  have hn : levels.length ≠ 0 := by omega
  have hunits : (FileIndexer.updateIndex levels.length levels).nextLevelIndex.getD level [] =
      indexLevel levels.length levels level := by
    rw [FileIndexer.updateIndex, if_neg hn]
    exact getD_map_range _ (by omega) []
  rw [hunits, indexLevel, if_pos hlevel]
  dsimp only
  rw [getD_map_range _ hi]
  have hnil : ∀ b ∈ (levels.getD (level + 1) []).take 0, ∀ a ∈ levels.getD level [],
      b.largestKey.userKey < a.smallestKey.userKey := fun b hb => absurd hb List.not_mem_nil
  have hnil' : ∀ b ∈ (levels.getD (level + 1) []).take 0, ∀ a ∈ levels.getD level [],
      b.largestKey.userKey < a.largestKey.userKey := fun b hb => absurd hb List.not_mem_nil
  refine ⟨⟨Int.natCast_nonneg _, ?_⟩, ⟨Int.natCast_nonneg _, ?_⟩, ?_, ?_⟩
  · rw [Int.toNat_natCast]
    exact forall₂_getD (calculateLB_sound (fun a : FdWithKeyRange (ParsedInternalKey UK) => a.smallestKey.userKey)
      (fun b : FdWithKeyRange (ParsedInternalKey UK) => b.largestKey.userKey) hwf.smallest_mono _ 0 hnil) hi 0
  · rw [Int.toNat_natCast]
    exact forall₂_getD (calculateLB_sound (fun a : FdWithKeyRange (ParsedInternalKey UK) => a.largestKey.userKey)
      (fun b : FdWithKeyRange (ParsedInternalKey UK) => b.largestKey.userKey) hwf.largest_mono _ 0 hnil') hi 0
  · exact forall₂_getD (calculateRB_sound (fun a : FdWithKeyRange (ParsedInternalKey UK) => a.smallestKey.userKey)
      (fun b : FdWithKeyRange (ParsedInternalKey UK) => b.smallestKey.userKey) hwf.smallest_mono _) hi (-1)
  · exact forall₂_getD (calculateRB_sound (fun a : FdWithKeyRange (ParsedInternalKey UK) => a.largestKey.userKey)
      (fun b : FdWithKeyRange (ParsedInternalKey UK) => b.smallestKey.userKey) hwf.largest_mono _) hi (-1)

/-- `level_rb_` of every level from L2 on is the index of its last file -/
theorem updateIndex_levelRb {level : ℕ} (hlevel : 1 ≤ level ∧ level < levels.length - 1) :
    (FileIndexer.updateIndex levels.length levels).levelRb.getD (level + 1) (-1) =
      ((levels.getD (level + 1) []).length : Int) - 1 := by
  have hn : levels.length ≠ 0 := by omega
  have hset : (1 ≤ level + 1 ∧ level + 1 < levels.length - 1) ∨ level + 1 = levels.length - 1 := by omega
  rw [FileIndexer.updateIndex, if_neg hn]
  dsimp only
  rw [getD_map_range _ (by omega), if_pos hset]

theorem updateIndex_numLevels : (FileIndexer.updateIndex levels.length levels).numLevels = levels.length := by
  rw [FileIndexer.updateIndex]
  split
  · next h => exact h.symm
  · rfl

end updateIndex

/-- search bounds that lose no file holding the key: the whole level, or a range such that every file before it
ends below the key and every file after it starts past it -/
def BoundsValid (files : List (FdWithKeyRange (ParsedInternalKey UK))) (userKey : UK) (bounds : Int × Int) : Prop :=
  (bounds.1 = 0 ∧ bounds.2 = kLevelMaxIndex) ∨
    (0 ≤ bounds.1 ∧ bounds.2 < files.length ∧ (∀ g ∈ files.take bounds.1.toNat, g.largestKey.userKey < userKey) ∧
      ∀ g ∈ files.drop (bounds.2 + 1).toNat, userKey < g.smallestKey.userKey)

/-- the bounds `GetNextLevelIndex` gives after the key met the file `i` of a level from L1 to the one before the
last, when every file before it ends at or below the key -/
theorem getNextLevelIndex_valid {levels : List (List (FdWithKeyRange (ParsedInternalKey UK)))} {level i : ℕ}
    (hlevel : 1 ≤ level ∧ level < levels.length - 1) (hwf : LevelWellFormed (levels.getD level []))
    (hi : i < (levels.getD level []).length) {userKey : UK}
    (hbefore : ∀ g ∈ (levels.getD level []).take i, g.largestKey.userKey ≤ userKey) {cmpSmallest cmpLargest : Ordering}
    (hs : cmpSmallest = compare userKey (levels.getD level [])[i].smallestKey.userKey)
    (hl : cmpLargest = if cmpSmallest = .lt then .lt else compare userKey (levels.getD level [])[i].largestKey.userKey) :
    BoundsValid (levels.getD (level + 1) []) userKey
      ((FileIndexer.updateIndex levels.length levels).getNextLevelIndex level i cmpSmallest cmpLargest) := by
  set f := (levels.getD level [])[i]
  have hsound := updateIndex_sound hlevel hwf hi
  have hnotLast : level ≠ (FileIndexer.updateIndex levels.length levels).numLevels - 1 := by
    rw [updateIndex_numLevels]
    omega
  rw [FileIndexer.getNextLevelIndex, if_neg hnotLast]
  refine .inr ?_
  cases hcs : compare userKey f.smallestKey.userKey with
  | lt =>
    -- the key is before the file and at or past the file before it
    rw [hcs] at hs
    subst hs
    dsimp only
    have hus : userKey < f.smallestKey.userKey := compare_lt_iff_lt.mp hcs
    refine ⟨?_, hsound.smallestRb.2.1, ?_, fun g hg => lt_trans hus (hsound.smallestRb.2.2 g hg)⟩
    · split
      · exact (updateIndex_sound hlevel hwf (by omega)).largestLb.1
      · exact le_refl 0
    · split
      · next hpos =>
        have hprev := updateIndex_sound hlevel hwf (show i - 1 < (levels.getD level []).length by omega)
        intro g hg
        have hmem : (levels.getD level [])[i - 1] ∈ (levels.getD level []).take i :=
          List.mem_take_iff_getElem.mpr ⟨i - 1, by omega, rfl⟩
        exact lt_of_lt_of_le (hprev.largestLb.2 g hg) (hbefore _ hmem)
      · intro g hg
        exact absurd hg (by rw [Int.toNat_zero, List.take_zero]; exact List.not_mem_nil)
  | eq =>
    rw [hcs] at hs
    subst hs
    dsimp only
    have hus : userKey = f.smallestKey.userKey := compare_eq_iff_eq.mp hcs
    exact ⟨hsound.smallestLb.1, hsound.smallestRb.2.1, fun g hg => hus ▸ hsound.smallestLb.2 g hg,
      fun g hg => hus ▸ hsound.smallestRb.2.2 g hg⟩
  | gt =>
    rw [hcs] at hs
    subst hs
    have hus : f.smallestKey.userKey < userKey := compare_gt_iff_gt.mp hcs
    rw [if_neg (by decide)] at hl
    subst hl
    dsimp only
    cases hcl : compare userKey f.largestKey.userKey with
    | lt =>
      have hul : userKey < f.largestKey.userKey := compare_lt_iff_lt.mp hcl
      exact ⟨hsound.smallestLb.1, hsound.largestRb.2.1, fun g hg => lt_trans (hsound.smallestLb.2 g hg) hus,
        fun g hg => lt_trans hul (hsound.largestRb.2.2 g hg)⟩
    | eq =>
      have hul : userKey = f.largestKey.userKey := compare_eq_iff_eq.mp hcl
      exact ⟨hsound.largestLb.1, hsound.largestRb.2.1, fun g hg => hul ▸ hsound.largestLb.2 g hg,
        fun g hg => hul ▸ hsound.largestRb.2.2 g hg⟩
    | gt =>
      -- past the file: the rest of the next level from its first file that does not end below the file
      have hul : f.largestKey.userKey < userKey := compare_gt_iff_gt.mp hcl
      dsimp only
      rw [updateIndex_levelRb hlevel]
      refine ⟨hsound.largestLb.1, by omega, fun g hg => lt_trans (hsound.largestLb.2 g hg) hul, ?_⟩
      intro g hg
      have hdrop : (((levels.getD (level + 1) []).length : Int) - 1 + 1).toNat =
          (levels.getD (level + 1) []).length := by omega
      rw [hdrop, List.drop_length] at hg
      exact absurd hg List.not_mem_nil

end ForSt
