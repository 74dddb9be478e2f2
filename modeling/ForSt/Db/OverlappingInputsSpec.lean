import ForSt.Db.OverlappingInputs
import ForSt.Lib.IntervalHull
import Mathlib.Data.Prod.Lex
/-!
What the overlap queries of a level select (`db/version_set.cc`).

`sstableKeyCompare` is `compare` on `sstableKey` (`sstableKeyCompare_eq_compare`). On L0, `GetOverlappingInputs`
returns the files that meet the range by user key (`getOverlappingInputs_level0`), and with `expand_range` the least set of files closed under meeting the hull (`getOverlappingInputs_level0_expand`,
from `level0Pass_hull`, `level0Pass_subset` and `level0Loop_end`). On a level past L0 in key order (`InKeyOrder`),
it returns the files neither before nor after the range (`getOverlappingInputs_sorted`), `SomeFileOverlapsRange`'s
binary search agrees with its scan (`someFileOverlapsRangePtr_sorted`), and `GetCleanInputsWithinInterval` returns a
run inside the range that shares no boundary with its neighbours (`getCleanInputsWithinInterval_clean`).
-/

namespace ForSt

open IntervalHull SortedSearch

variable {UK : Type} [LinearOrder UK]

/-! ## The order of `sstableKeyCompare` -/

/-- where `sstableKeyCompare` puts a key: by its user key, then 0 for the range tombstone sentinel and 1 for any other
footer -/
def sstableKey (k : ParsedInternalKey UK) : UK ×ₗ ℕ :=
  toLex (k.userKey, if packSequenceAndType k.sequence k.type = kRangeTombstoneSentinel then 0 else 1)

theorem sstableKeyCompare_eq_compare (a b : ParsedInternalKey UK) :
    sstableKeyCompare a b = compare (sstableKey a) (sstableKey b) := by
  -- on `Lex`, `compare` is the user keys' comparison, then the footers' rank
  rw [Prod.Lex.compare_def, sstableKeyCompare]
  cases h : compare a.userKey b.userKey with
  | lt => simp [compareLex, compareOn, sstableKey, h]
  | gt => simp [compareLex, compareOn, sstableKey, h]
  | eq =>
    simp only [compareLex, compareOn, sstableKey, ofLex_toLex, h, Ordering.then]
    split_ifs <;> first | rfl | simp_all

section order

variable {a b : ParsedInternalKey UK}

@[simp] theorem sstableKeyCompare_eq_lt : sstableKeyCompare a b = .lt ↔ sstableKey a < sstableKey b := by
  rw [sstableKeyCompare_eq_compare, compare_lt_iff_lt]

@[simp] theorem sstableKeyCompare_eq_eq : sstableKeyCompare a b = .eq ↔ sstableKey a = sstableKey b := by
  rw [sstableKeyCompare_eq_compare, compare_eq_iff_eq]

@[simp] theorem sstableKeyCompare_ne_gt : sstableKeyCompare a b ≠ .gt ↔ sstableKey a ≤ sstableKey b := by
  rw [sstableKeyCompare_eq_compare, ne_eq, compare_gt_iff_gt, not_lt]

theorem sstableKeyCompare_ne_lt : sstableKeyCompare a b ≠ .lt ↔ sstableKey b ≤ sstableKey a := by
  rw [ne_eq, sstableKeyCompare_eq_lt, not_lt]

/-- the tests of `std::lower_bound` and `std::upper_bound` -/
@[simp] theorem sstableKeyCompare_bne_lt : (sstableKeyCompare a b != .lt) = true ↔ sstableKey b ≤ sstableKey a := by
  rw [bne_iff_ne, sstableKeyCompare_ne_lt]

@[simp] theorem sstableKeyCompare_beq_lt : (sstableKeyCompare a b == .lt) = true ↔ sstableKey a < sstableKey b := by
  rw [beq_iff_eq, sstableKeyCompare_eq_lt]

/-- keys in `sstableKeyCompare` order have their user keys in order -/
theorem userKey_le_of_sstableKey_le (h : sstableKey a ≤ sstableKey b) : a.userKey ≤ b.userKey := by
  rcases Prod.Lex.le_iff.mp h with h | ⟨h, -⟩
  · exact le_of_lt h
  · exact le_of_eq h

end order

/-! ## Levels that have files -/

/-- a level that has a file is below `num_non_empty_levels_` -/
theorem VersionStorageInfo.lt_numNonEmptyLevels {α : Type} {v : VersionStorageInfo α} {level : ℕ}
    (h : v.levelFiles level ≠ []) : level < v.numNonEmptyLevels := by
  obtain ⟨files, baseLevel⟩ := v
  simp only [levelFiles, numNonEmptyLevels] at h ⊢
  induction files generalizing level with
  | nil => simp at h
  | cons x files ih =>
    rw [List.foldr_cons]
    cases level with
    | zero =>
      -- the level itself has a file, so the count is not cut to 0 there
      have hx : x.isEmpty = false := by simpa using h
      simp [hx]
    | succ k =>
      have hk := ih (by simpa using h)
      rw [if_neg (by omega)]
      omega

/-- past `num_non_empty_levels_` every level is empty -/
theorem VersionStorageInfo.levelFiles_eq_nil {α : Type} {v : VersionStorageInfo α} {level : ℕ}
    (h : v.numNonEmptyLevels ≤ level) : v.levelFiles level = [] := by
  by_contra hne
  exact absurd (v.lt_numNonEmptyLevels hne) (not_lt.mpr h)

/-! ## L0 -/

section level0

variable {ex : Bool} {s : Level0Scan UK} {f : FdWithKeyRange (ParsedInternalKey UK)} {i : ℕ}
  {index : List (FdWithKeyRange (ParsedInternalKey UK) × ℕ)}

@[simp] theorem Level0Scan.take_inputs : (s.take ex f i).inputs = s.inputs ++ [f] := rfl

@[simp] theorem Level0Scan.take_foundOverlappingFile : (s.take ex f i).foundOverlappingFile = true := rfl

@[simp] theorem Level0Scan.take_false_userBegin : (s.take false f i).userBegin = s.userBegin := rfl

@[simp] theorem Level0Scan.take_false_userEnd : (s.take false f i).userEnd = s.userEnd := rfl

/-- a pass skips a file exactly when it does not meet the range the pass compares with -/
theorem skips_iff_not_meets (u v : Option UK) (f : FdWithKeyRange (ParsedInternalKey UK)) :
    (u.any (f.fileLimit < ·) || v.any (f.fileStart > ·)) = !decide (Meets u v f.fileStart f.fileLimit) := by
  cases u <;> cases v <;> simp [Meets, ← decide_not]

theorem level0Pass_cons_skip (h : ¬Meets s.userBegin s.userEnd f.fileStart f.fileLimit) :
    level0Pass ex ((f, i) :: index) s = ((f, i) :: (level0Pass ex index s).1, (level0Pass ex index s).2) := by
  rw [level0Pass, skips_iff_not_meets, decide_eq_false h, Bool.not_false, if_pos rfl]

theorem level0Pass_cons_take (h : Meets s.userBegin s.userEnd f.fileStart f.fileLimit) :
    level0Pass ex ((f, i) :: index) s = level0Pass ex index (s.take ex f i) := by
  rw [level0Pass, skips_iff_not_meets, decide_eq_true h, Bool.not_true, if_neg Bool.false_ne_true]

/-- a pass leaves some files in the list and takes the others, in the order it meets them, and finds an overlapping
file when it takes one -/
theorem level0Pass_perm (ex : Bool) (index : List (FdWithKeyRange (ParsedInternalKey UK) × ℕ)) (s : Level0Scan UK) :
    ∃ taken, index.Perm ((level0Pass ex index s).1 ++ taken) ∧
      (level0Pass ex index s).2.inputs = s.inputs ++ taken.map Prod.fst ∧
      (level0Pass ex index s).2.foundOverlappingFile = (s.foundOverlappingFile || !taken.isEmpty) := by
  induction index generalizing s with
  | nil => exact ⟨[], by simp [level0Pass]⟩
  | cons p index ih =>
    obtain ⟨f, i⟩ := p
    by_cases hm : Meets s.userBegin s.userEnd f.fileStart f.fileLimit
    · -- the file is taken, then the rest of the pass runs from the scan that took it
      rw [level0Pass_cons_take hm]
      obtain ⟨taken, hperm, hinputs, hfound⟩ := ih (s.take ex f i)
      refine ⟨(f, i) :: taken, (hperm.cons _).trans List.perm_middle.symm, ?_, ?_⟩
      · simp [hinputs]
      · simp [hfound]
    · rw [level0Pass_cons_skip hm]
      obtain ⟨taken, hperm, hinputs, hfound⟩ := ih s
      exact ⟨taken, hperm.cons _, hinputs, hfound⟩

/-- a pass that finds no overlapping file changes nothing, and no file of its list meets its range -/
theorem level0Pass_of_not_found (h : (level0Pass ex index s).2.foundOverlappingFile = false) :
    level0Pass ex index s = (index, s) ∧ ∀ p ∈ index, ¬Meets s.userBegin s.userEnd p.1.fileStart p.1.fileLimit := by
  induction index generalizing s with
  | nil => exact ⟨rfl, by simp⟩
  | cons p index ih =>
    obtain ⟨f, i⟩ := p
    by_cases hm : Meets s.userBegin s.userEnd f.fileStart f.fileLimit
    · -- a pass that took the file has found one
      rw [level0Pass_cons_take hm] at h
      obtain ⟨taken, -, -, hfound⟩ := level0Pass_perm ex index (s.take ex f i)
      simp [hfound] at h
    · rw [level0Pass_cons_skip hm] at h ⊢
      obtain ⟨heq, hall⟩ := ih h
      rw [heq]
      exact ⟨rfl, List.forall_mem_cons.mpr ⟨hm, hall⟩⟩

/-- a pass over files none of which meets its range changes nothing -/
theorem level0Pass_of_forall_not_meets
    (h : ∀ p ∈ index, ¬Meets s.userBegin s.userEnd p.1.fileStart p.1.fileLimit) : level0Pass ex index s = (index, s) := by
  induction index with
  | nil => rfl
  | cons p index ih =>
    obtain ⟨f, i⟩ := p
    rw [List.forall_mem_cons] at h
    rw [level0Pass_cons_skip h.1, ih h.2]

/-- a pass that goes on has taken a file out of the list -/
theorem length_level0Pass_lt (hs : s.foundOverlappingFile = false)
    (h : (level0Pass ex index s).2.foundOverlappingFile = true) : (level0Pass ex index s).1.length < index.length := by
  obtain ⟨taken, hperm, -, hfound⟩ := level0Pass_perm ex index s
  have htaken : taken ≠ [] := by
    intro hnil
    simp [hnil, hs, h] at hfound
  rw [hperm.length_eq, List.length_append]
  have := List.length_pos_iff.mpr htaken
  omega

/-- without `expand_range` a pass keeps its range, so it takes exactly the files that meet it -/
theorem level0Pass_false (index : List (FdWithKeyRange (ParsedInternalKey UK) × ℕ)) (s : Level0Scan UK) :
    (level0Pass false index s).1 =
        index.filter (fun p => !decide (Meets s.userBegin s.userEnd p.1.fileStart p.1.fileLimit)) ∧
      (level0Pass false index s).2.userBegin = s.userBegin ∧ (level0Pass false index s).2.userEnd = s.userEnd ∧
      (level0Pass false index s).2.inputs =
        s.inputs ++ (index.filter fun p => decide (Meets s.userBegin s.userEnd p.1.fileStart p.1.fileLimit)).map
          Prod.fst := by
  induction index generalizing s with
  | nil => simp [level0Pass]
  | cons p index ih =>
    obtain ⟨f, i⟩ := p
    by_cases hm : Meets s.userBegin s.userEnd f.fileStart f.fileLimit
    · -- the scan that took the file compares with the same range
      rw [level0Pass_cons_take hm, List.filter_cons_of_neg (by simpa using hm),
        List.filter_cons_of_pos (by simpa using hm)]
      obtain ⟨hkept, hbegin, hend, hinputs⟩ := ih (s.take false f i)
      refine ⟨hkept, hbegin, hend, ?_⟩
      rw [hinputs, Level0Scan.take_inputs, List.append_assoc, List.singleton_append]
      rfl
    · rw [level0Pass_cons_skip hm]
      obtain ⟨hkept, hbegin, hend, hinputs⟩ := ih s
      simp [hkept, hbegin, hend, hinputs, hm]

/-- one turn of the loop: done when no file is left, else a pass, and another turn if it found a file -/
theorem level0Loop_succ (fuel : ℕ) (index : List (FdWithKeyRange (ParsedInternalKey UK) × ℕ)) (s : Level0Scan UK) :
    level0Loop ex (fuel + 1) index s =
      if index.isEmpty then s
      else if (level0Pass ex index { s with foundOverlappingFile := false }).2.foundOverlappingFile then
        level0Loop ex fuel (level0Pass ex index { s with foundOverlappingFile := false }).1
          (level0Pass ex index { s with foundOverlappingFile := false }).2
      else (level0Pass ex index { s with foundOverlappingFile := false }).2 := rfl

/-- a loop from a scan whose files left all miss its range takes nothing more -/
theorem level0Loop_of_forall_not_meets (fuel : ℕ)
    (h : ∀ p ∈ index, ¬Meets s.userBegin s.userEnd p.1.fileStart p.1.fileLimit) :
    (level0Loop ex fuel index s).inputs = s.inputs := by
  cases fuel with
  | zero => rfl
  | succ fuel =>
    rw [level0Loop_succ, level0Pass_of_forall_not_meets (s := { s with foundOverlappingFile := false }) h]
    -- the pass takes nothing, so it does not find a file
    split_ifs with hempty hfound
    · rfl
    · simp at hfound
    · rfl

/-- without `expand_range` the loop takes exactly the files that meet the range: the first pass takes them, and the
second finds nothing more -/
theorem level0Loop_false (fuel : ℕ) (hfuel : index ≠ [] → 0 < fuel) :
    (level0Loop false fuel index s).inputs =
      s.inputs ++ (index.filter fun p => decide (Meets s.userBegin s.userEnd p.1.fileStart p.1.fileLimit)).map
        Prod.fst := by
  cases fuel with
  | zero =>
    have hnil : index = [] := by
      by_contra hne
      exact absurd (hfuel hne) (lt_irrefl 0)
    simp [level0Loop, hnil]
  | succ fuel =>
    set r := level0Pass false index { s with foundOverlappingFile := false } with hr
    obtain ⟨hkept, hbegin, hend, hinputs⟩ := level0Pass_false index { s with foundOverlappingFile := false }
    rw [level0Loop_succ, ← hr]
    split_ifs with hempty hfound
    · simp [List.isEmpty_iff.mp hempty]
    · -- every file the first pass left misses the range, which it kept
      have hmiss : ∀ p ∈ r.1, ¬Meets r.2.userBegin r.2.userEnd p.1.fileStart p.1.fileLimit := by
        rw [hkept, hbegin, hend]
        intro p hp
        simpa using (List.mem_filter.mp hp).2
      rw [level0Loop_of_forall_not_meets fuel hmiss]
      exact hinputs
    · exact hinputs

/-! ### With `expand_range` -/

variable {files : List (FdWithKeyRange (ParsedInternalKey UK))} {b e : Option UK}

/-- taking a file with `expand_range` widens the range to the hull with it -/
theorem Level0Scan.isHull_take
    (h : IsHull FdWithKeyRange.fileStart FdWithKeyRange.fileLimit b e {g | g ∈ s.inputs} s.userBegin s.userEnd) :
    IsHull FdWithKeyRange.fileStart FdWithKeyRange.fileLimit b e {g | g ∈ (s.take true f i).inputs}
      (s.take true f i).userBegin (s.take true f i).userEnd := by
  have hset : {g | g ∈ (s.take true f i).inputs} = insert f {g | g ∈ s.inputs} := by
    ext g
    simp [or_comm]
  rw [hset]
  exact h.insert f

/-- with `expand_range`, a pass keeps the range at the hull of `[b, e]` and the files taken -/
theorem level0Pass_hull
    (h : IsHull FdWithKeyRange.fileStart FdWithKeyRange.fileLimit b e {g | g ∈ s.inputs} s.userBegin s.userEnd) :
    IsHull FdWithKeyRange.fileStart FdWithKeyRange.fileLimit b e {g | g ∈ (level0Pass true index s).2.inputs}
      (level0Pass true index s).2.userBegin (level0Pass true index s).2.userEnd := by
  induction index generalizing s with
  | nil => exact h
  | cons p index ih =>
    obtain ⟨f, i⟩ := p
    by_cases hm : Meets s.userBegin s.userEnd f.fileStart f.fileLimit
    · rw [level0Pass_cons_take hm]
      exact ih (Level0Scan.isHull_take h)
    · rw [level0Pass_cons_skip hm]
      exact ih h

/-- a file a pass takes is in every set of files that takes in each file meeting the hull of `[b, e]` and the set,
if the files taken before are -/
theorem level0Pass_subset {S : Set (FdWithKeyRange (ParsedInternalKey UK))}
    (hS : HullClosed FdWithKeyRange.fileStart FdWithKeyRange.fileLimit {g | g ∈ files} b e S)
    (hindex : ∀ p ∈ index, p.1 ∈ files) (hsub : ∀ g ∈ s.inputs, g ∈ S)
    (h : IsHull FdWithKeyRange.fileStart FdWithKeyRange.fileLimit b e {g | g ∈ s.inputs} s.userBegin s.userEnd) :
    ∀ g ∈ (level0Pass true index s).2.inputs, g ∈ S := by
  induction index generalizing s with
  | nil => exact hsub
  | cons p index ih =>
    obtain ⟨f, i⟩ := p
    rw [List.forall_mem_cons] at hindex
    by_cases hm : Meets s.userBegin s.userEnd f.fileStart f.fileLimit
    · -- the file meets the hull of the files taken, which are in `S`, so it is in `S`
      have hf : f ∈ S := hS.mem hsub hindex.1 (h.meets_iff.mp hm)
      rw [level0Pass_cons_take hm]
      refine ih hindex.2 (fun g hg => ?_) (Level0Scan.isHull_take h)
      rcases List.mem_append.mp hg with hg | hg
      · exact hsub g hg
      · rw [List.mem_singleton.mp hg]
        exact hf
    · rw [level0Pass_cons_skip hm]
      exact ih hindex.2 hsub h

/-- what the L0 loop keeps with `expand_range`: each file of the level is still to check or taken, and the range is
the hull of `[b, e]` and the files taken -/
structure Level0Inv (files : List (FdWithKeyRange (ParsedInternalKey UK))) (b e : Option UK)
    (index : List (FdWithKeyRange (ParsedInternalKey UK) × ℕ)) (s : Level0Scan UK) : Prop where
  mem : ∀ g, g ∈ files ↔ g ∈ index.map Prod.fst ∨ g ∈ s.inputs
  hull : IsHull FdWithKeyRange.fileStart FdWithKeyRange.fileLimit b e {g | g ∈ s.inputs} s.userBegin s.userEnd

/-- a pass keeps the invariant: the files it takes move from the list to `*inputs` -/
theorem Level0Inv.pass (h : Level0Inv files b e index s) :
    Level0Inv files b e (level0Pass true index s).1 (level0Pass true index s).2 := by
  obtain ⟨taken, hperm, hinputs, -⟩ := level0Pass_perm true index s
  refine ⟨fun g => ?_, level0Pass_hull h.hull⟩
  rw [h.mem g, hinputs, (hperm.map Prod.fst).mem_iff, List.map_append, List.mem_append, List.mem_append, or_assoc,
    @or_comm (g ∈ taken.map Prod.fst)]

/-- the loop ends with the invariant, and no file left to check meets its range: it ran out of files, or its last
pass took none -/
theorem level0Loop_end (fuel : ℕ) (h : Level0Inv files b e index s) (hfuel : index.length ≤ fuel) :
    ∃ rest, Level0Inv files b e rest (level0Loop true fuel index s) ∧
      ∀ p ∈ rest, ¬Meets (level0Loop true fuel index s).userBegin (level0Loop true fuel index s).userEnd
        p.1.fileStart p.1.fileLimit := by
  induction fuel generalizing index s with
  | zero =>
    -- the fuel runs out only when the files do
    have hnil : index = [] := List.eq_nil_of_length_eq_zero (by omega)
    subst hnil
    exact ⟨[], h, by simp⟩
  | succ fuel ih =>
    have h0 : Level0Inv files b e index { s with foundOverlappingFile := false } := ⟨h.mem, h.hull⟩
    rw [level0Loop_succ]
    split_ifs with hempty hfound
    · exact ⟨index, h, by simp [List.isEmpty_iff.mp hempty]⟩
    · -- the pass took a file, so fewer are left than there is fuel
      have hlt := length_level0Pass_lt (s := { s with foundOverlappingFile := false }) rfl hfound
      exact ih h0.pass (by omega)
    · -- the pass took nothing: it changed nothing, and no file left meets the range
      obtain ⟨heq, hmiss⟩ := level0Pass_of_not_found (Bool.eq_false_iff.mpr hfound)
      rw [heq]
      exact ⟨index, h0, hmiss⟩

/-- every file the loop takes is in every set of files that takes in each file meeting the hull of `[b, e]` and the
set -/
theorem level0Loop_subset {S : Set (FdWithKeyRange (ParsedInternalKey UK))}
    (hS : HullClosed FdWithKeyRange.fileStart FdWithKeyRange.fileLimit {g | g ∈ files} b e S) (fuel : ℕ)
    (h : Level0Inv files b e index s) (hsub : ∀ g ∈ s.inputs, g ∈ S) :
    ∀ g ∈ (level0Loop true fuel index s).inputs, g ∈ S := by
  induction fuel generalizing index s with
  | zero => exact hsub
  | succ fuel ih =>
    have h0 : Level0Inv files b e index { s with foundOverlappingFile := false } := ⟨h.mem, h.hull⟩
    have hindex : ∀ p ∈ index, p.1 ∈ files := fun p hp => (h.mem p.1).mpr (.inl (List.mem_map_of_mem hp))
    have hpass := level0Pass_subset (s := { s with foundOverlappingFile := false }) hS hindex hsub h0.hull
    rw [level0Loop_succ]
    split_ifs with hempty hfound
    · exact hsub
    · exact ih h0.pass hpass
    · exact hpass

end level0

/-! ## `GetOverlappingInputs` on L0 -/

section queries

variable {v : VersionStorageInfo (ParsedInternalKey UK)}

/-- pairing a list with the indices and filtering by the element keeps the elements that pass -/
theorem map_fst_filter_zipIdx {α : Type} (p : α → Bool) (l : List α) :
    (l.zipIdx.filter fun q => p q.1).map Prod.fst = l.filter p := by
  rw [show (fun q : α × ℕ => p q.1) = p ∘ Prod.fst from rfl, ← List.filter_map, List.zipIdx_map_fst]

/-- on L0 with files, the loop from the whole level and the user keys of the range -/
theorem VersionStorageInfo.getOverlappingInputs_zero (hne : v.levelFiles 0 ≠ []) (b e : Option (ParsedInternalKey UK))
    (hint : Int) (ex : Bool) (out : OverlappingInputs UK) :
    (v.getOverlappingInputs 0 b e hint ex out).inputs =
      (level0Loop ex (v.levelFiles 0).length (v.levelFiles 0).zipIdx
        ⟨b.map (·.userKey), e.map (·.userKey), [], out.fileIndex.map fun _ => -1, false⟩).inputs := by
  simp only [VersionStorageInfo.getOverlappingInputs, if_neg (not_le.mpr (v.lt_numNonEmptyLevels hne)), gt_iff_lt,
    lt_irrefl, if_false]

/-- on L0 without `expand_range`, the files that meet the range by user key, in level order -/
theorem getOverlappingInputs_level0 (v : VersionStorageInfo (ParsedInternalKey UK)) (hne : v.levelFiles 0 ≠ [])
    (b e : Option (ParsedInternalKey UK)) (hint : Int) (out : OverlappingInputs UK) :
    (v.getOverlappingInputs 0 b e hint false out).inputs =
      (v.levelFiles 0).filter fun f => decide (Meets (b.map (·.userKey)) (e.map (·.userKey)) f.fileStart f.fileLimit) := by
  rw [v.getOverlappingInputs_zero hne, level0Loop_false _ fun _ => List.length_pos_iff.mpr hne, List.nil_append]
  exact map_fst_filter_zipIdx
    (fun f : FdWithKeyRange (ParsedInternalKey UK) =>
      decide (Meets (b.map (·.userKey)) (e.map (·.userKey)) f.fileStart f.fileLimit)) _

/-- on L0 with `expand_range`, the least set of files that takes in every file meeting the hull of the range and the
set -/
theorem getOverlappingInputs_level0_expand (v : VersionStorageInfo (ParsedInternalKey UK)) (hne : v.levelFiles 0 ≠ [])
    (b e : Option (ParsedInternalKey UK)) (hint : Int) (out : OverlappingInputs UK) :
    IsLeast {S | S ⊆ {f | f ∈ v.levelFiles 0} ∧
        HullClosed FdWithKeyRange.fileStart FdWithKeyRange.fileLimit {f | f ∈ v.levelFiles 0} (b.map (·.userKey))
          (e.map (·.userKey)) S}
      {f | f ∈ (v.getOverlappingInputs 0 b e hint true out).inputs} := by
  rw [v.getOverlappingInputs_zero hne]
  -- the loop starts from the whole level and the range itself, with nothing taken
  have hinit : Level0Inv (v.levelFiles 0) (b.map (·.userKey)) (e.map (·.userKey)) (v.levelFiles 0).zipIdx
      ⟨b.map (·.userKey), e.map (·.userKey), [], out.fileIndex.map fun _ => -1, false⟩ := by
    refine ⟨fun g => by simp [List.zipIdx_map_fst], ?_⟩
    have hempty : {g | g ∈ ([] : List (FdWithKeyRange (ParsedInternalKey UK)))} = ∅ := by
      ext
      simp
    exact hempty ▸ isHull_empty
  obtain ⟨rest, hinv, hmiss⟩ := level0Loop_end (v.levelFiles 0).length hinit (by simp)
  refine ⟨⟨fun g hg => (hinv.mem g).mpr (.inr hg), fun g hg hmeets => ?_⟩, fun S hS =>
    level0Loop_subset hS.2 _ hinit (by simp)⟩
  -- a file of the level is taken or left, and no file left meets the hull of the files taken
  rcases (hinv.mem g).mp hg with hrest | htaken
  · obtain ⟨p, hp, rfl⟩ := List.mem_map.mp hrest
    exact absurd (hinv.hull.meets_iff.mpr hmeets) (hmiss p hp)
  · exact htaken

end queries

/-! ## Past L0 -/

/-- the files of a level past L0 in order by `sstableKeyCompare`: a file's smallest key is not past its largest, and
its largest key is not past the smallest key of any file after it (a file may start at the key where the one before it
ends) -/
structure InKeyOrder (files : List (FdWithKeyRange (ParsedInternalKey UK))) : Prop where
  range : ∀ f ∈ files, sstableKeyCompare f.smallestKey f.largestKey ≠ .gt
  sorted : files.Pairwise fun f g => sstableKeyCompare f.largestKey g.smallestKey ≠ .gt

section sorted

variable {files : List (FdWithKeyRange (ParsedInternalKey UK))}

theorem InKeyOrder.largest_le (h : InKeyOrder files) :
    files.Pairwise fun f g => sstableKey f.largestKey ≤ sstableKey g.largestKey :=
  h.sorted.imp_of_mem fun _ hg hfg =>
    le_trans (sstableKeyCompare_ne_gt.mp hfg) (sstableKeyCompare_ne_gt.mp (h.range _ hg))

theorem InKeyOrder.smallest_le (h : InKeyOrder files) :
    files.Pairwise fun f g => sstableKey f.smallestKey ≤ sstableKey g.smallestKey :=
  h.sorted.imp_of_mem fun hf _ hfg =>
    le_trans (sstableKeyCompare_ne_gt.mp (h.range _ hf)) (sstableKeyCompare_ne_gt.mp hfg)

/-- the files of the run are added to `*inputs`, none if the run is empty -/
theorem getOverlappingInputsRangeBinarySearch_inputs (files : List (FdWithKeyRange (ParsedInternalKey UK)))
    (b e : Option (ParsedInternalKey UK)) (hint : Int) (w : Bool) (out : OverlappingInputs UK) :
    (getOverlappingInputsRangeBinarySearch files b e hint w out).inputs =
      out.inputs ++ (files.drop (rangeStartIndex files b hint w)).take
        (rangeEndIndex files e w (rangeStartIndex files b hint w) - rangeStartIndex files b hint w) := by
  unfold getOverlappingInputsRangeBinarySearch
  dsimp only
  split_ifs with h
  · rw [show rangeEndIndex files e w (rangeStartIndex files b hint w) - rangeStartIndex files b hint w = 0 by omega,
      List.take_zero, List.append_nil]
  · rfl

/-- without the interval, the run starts after exactly the files that end before `b` -/
theorem drop_rangeStartIndex (h : InKeyOrder files) (b : Option (ParsedInternalKey UK)) :
    files.drop (rangeStartIndex files b (-1) false) =
      files.filter fun f => decide (∀ b' ∈ b, sstableKeyCompare f.largestKey b' ≠ .lt) := by
  cases b with
  | none => simp [rangeStartIndex]
  | some b =>
    -- a file that does not end before `b` is followed by files that do not either
    have hpart : files.Pairwise fun f g =>
        (sstableKeyCompare f.largestKey b != .lt) = true → (sstableKeyCompare g.largestKey b != .lt) = true :=
      h.largest_le.imp fun hfg hf => sstableKeyCompare_bne_lt.mpr (le_trans (sstableKeyCompare_bne_lt.mp hf) hfg)
    simp only [rangeStartIndex, ↓reduceIte, List.take_length, Bool.false_eq_true, Bool.and_false]
    rw [drop_findIdx_eq_filter hpart]
    refine List.filter_congr fun f _ => ?_
    rw [Bool.eq_iff_iff, sstableKeyCompare_bne_lt, decide_eq_true_iff]
    simp

/-- without the interval, the run from any start goes on exactly over the files that do not start after `e` -/
theorem take_rangeEndIndex (h : InKeyOrder files) (e : Option (ParsedInternalKey UK)) (start : ℕ) :
    (files.drop start).take (rangeEndIndex files e false start - start) =
      (files.drop start).filter fun f => decide (∀ e' ∈ e, sstableKeyCompare e' f.smallestKey ≠ .lt) := by
  cases e with
  | none =>
    rw [rangeEndIndex, List.take_of_length_le (by simp)]
    simp
  | some e =>
    -- a file that starts after `e` is followed by files that do too
    have hpart : (files.drop start).Pairwise fun f g =>
        (sstableKeyCompare e f.smallestKey == .lt) = true → (sstableKeyCompare e g.smallestKey == .lt) = true :=
      h.smallest_le.drop.imp fun hfg hf =>
        sstableKeyCompare_beq_lt.mpr (lt_of_lt_of_le (sstableKeyCompare_beq_lt.mp hf) hfg)
    simp only [rangeEndIndex, ↓reduceIte, Bool.false_eq_true, Bool.and_false, Nat.add_sub_cancel_left]
    rw [take_findIdx_eq_filter hpart]
    refine List.filter_congr fun f _ => ?_
    rw [Bool.eq_iff_iff, Bool.not_eq_true', decide_eq_true_iff]
    simp

/-- without the interval, the run is exactly the files that neither end before `b` nor start after `e` -/
theorem run_eq_filter (h : InKeyOrder files) (b e : Option (ParsedInternalKey UK)) :
    (files.drop (rangeStartIndex files b (-1) false)).take
        (rangeEndIndex files e false (rangeStartIndex files b (-1) false) - rangeStartIndex files b (-1) false) =
      files.filter fun f => decide ((∀ b' ∈ b, sstableKeyCompare f.largestKey b' ≠ .lt) ∧
        ∀ e' ∈ e, sstableKeyCompare e' f.smallestKey ≠ .lt) := by
  rw [take_rangeEndIndex h e, drop_rangeStartIndex h b, List.filter_filter]
  refine List.filter_congr fun f _ => ?_
  rw [Bool.and_comm, Bool.decide_and]

end sorted

/-- past L0 with files, the binary search without the interval over the level, with `*inputs` cleared -/
theorem VersionStorageInfo.getOverlappingInputs_pos {v : VersionStorageInfo (ParsedInternalKey UK)} {level : ℕ}
    (hl : 0 < level) (hne : v.levelFiles level ≠ []) (b e : Option (ParsedInternalKey UK)) (hint : Int) (ex : Bool)
    (out : OverlappingInputs UK) :
    (v.getOverlappingInputs level b e hint ex out).inputs =
      (getOverlappingInputsRangeBinarySearch (v.levelFiles level) b e hint false
        { out with inputs := [], fileIndex := out.fileIndex.map fun _ => -1 }).inputs := by
  simp only [VersionStorageInfo.getOverlappingInputs, if_neg (not_le.mpr (v.lt_numNonEmptyLevels hne)), gt_iff_lt,
    if_pos hl]

/-- past L0, on a level in order, the files that neither end before `b` nor start after `e`, in level order -/
theorem getOverlappingInputs_sorted (v : VersionStorageInfo (ParsedInternalKey UK)) (level : ℕ) (hl : 0 < level)
    (hne : v.levelFiles level ≠ []) (hsorted : InKeyOrder (v.levelFiles level)) (b e : Option (ParsedInternalKey UK))
    (ex : Bool) (out : OverlappingInputs UK) :
    (v.getOverlappingInputs level b e (-1) ex out).inputs =
      (v.levelFiles level).filter fun f => decide ((∀ b' ∈ b, sstableKeyCompare f.largestKey b' ≠ .lt) ∧
        ∀ e' ∈ e, sstableKeyCompare e' f.smallestKey ≠ .lt) := by
  rw [v.getOverlappingInputs_pos hl hne, getOverlappingInputsRangeBinarySearch_inputs, List.nil_append]
  exact run_eq_filter hsorted b e

/-! ## `SomeFileOverlapsRange` -/

/-- the linear scan finds a file that meets the range -/
theorem someFileOverlapsRangePtr_false_iff (files : List (FdWithKeyRange UK)) (a c : Option UK) :
    someFileOverlapsRangePtr false files a c = true ↔ ∃ f ∈ files, Meets a c f.smallestKey f.largestKey := by
  simp only [someFileOverlapsRangePtr, Bool.not_false, ↓reduceIte, List.any_eq_true]
  refine exists_congr fun f => and_congr_right fun _ => ?_
  cases a <;> cases c <;> simp [afterFilePtr, beforeFilePtr, afterFile, beforeFile, Meets]

/-- the binary search lands on the first file that does not end before `a`, and asks whether it starts after `c` -/
theorem someFileOverlapsRangePtr_true (files : List (FdWithKeyRange UK)) (a c : Option UK) :
    someFileOverlapsRangePtr true files a c =
      (files.find? fun f => decide (∀ a' ∈ a, a' ≤ f.largestKey)).any
        fun f => decide (∀ c' ∈ c, f.smallestKey ≤ c') := by
  cases a with
  | none =>
    -- with no smallest key the search starts at the first file
    cases files with
    | nil => rfl
    | cons f files => cases c <;> simp [someFileOverlapsRangePtr, beforeFilePtr, beforeFile, ← decide_not]
  | some a =>
    simp only [someFileOverlapsRangePtr, Bool.not_true, Bool.false_eq_true, ↓reduceIte, findFile,
      ← List.find?_eq_getElem?_findIdx, Option.mem_def, Option.some.injEq, forall_eq']
    cases files.find? (fun f => decide (a ≤ f.largestKey)) with
    | none => rfl
    | some f => cases c <;> simp [beforeFilePtr, beforeFile, ← decide_not]

/-- on a level in order, the binary search finds a file that meets the range exactly when the linear scan does -/
theorem someFileOverlapsRangePtr_true_eq_false {files : List (FdWithKeyRange UK)}
    (hrange : ∀ f ∈ files, f.smallestKey ≤ f.largestKey)
    (hsorted : files.Pairwise fun f g => f.largestKey ≤ g.smallestKey) (a c : Option UK) :
    someFileOverlapsRangePtr true files a c = someFileOverlapsRangePtr false files a c := by
  rw [Bool.eq_iff_iff, someFileOverlapsRangePtr_true, someFileOverlapsRangePtr_false_iff]
  exact find?_meets_iff FdWithKeyRange.smallestKey FdWithKeyRange.largestKey hrange hsorted a c

/-- on a level past L0 in order, read by user key as `SomeFileOverlapsRange` reads it -/
theorem someFileOverlapsRangePtr_sorted {files : List (FdWithKeyRange (ParsedInternalKey UK))} (h : InKeyOrder files)
    (a c : Option UK) :
    someFileOverlapsRangePtr true (files.map FdWithKeyRange.userKeys) a c =
      someFileOverlapsRangePtr false (files.map FdWithKeyRange.userKeys) a c := by
  -- `sstableKeyCompare` order is order by user key first
  have hrange : ∀ f ∈ files.map FdWithKeyRange.userKeys, f.smallestKey ≤ f.largestKey := by
    intro f hf
    obtain ⟨g, hg, rfl⟩ := List.mem_map.mp hf
    exact userKey_le_of_sstableKey_le (sstableKeyCompare_ne_gt.mp (h.range g hg))
  have hsorted : (files.map FdWithKeyRange.userKeys).Pairwise fun f g => f.largestKey ≤ g.smallestKey :=
    List.pairwise_map.mpr (h.sorted.imp fun hfg => userKey_le_of_sstableKey_le (sstableKeyCompare_ne_gt.mp hfg))
  exact someFileOverlapsRangePtr_true_eq_false hrange hsorted a c

/-! ## Clean runs -/

/-- the files at `i - 1` and `i` do not share a boundary key; at either end of the level there is nothing to share -/
def CleanBoundary (files : List (FdWithKeyRange (ParsedInternalKey UK))) (i : ℕ) : Prop :=
  ∀ (_ : 0 < i) (hi : i < files.length), sstableKeyCompare files[i - 1].largestKey files[i].smallestKey ≠ .eq

/-- the files `[s, t)` of a level lie inside the range by `sstableKeyCompare` and share no boundary key with the files
beside them -/
structure CleanRun (files : List (FdWithKeyRange (ParsedInternalKey UK))) (b e : Option (ParsedInternalKey UK))
    (s t : ℕ) : Prop where
  le : s ≤ t
  le_length : t ≤ files.length
  within : ∀ i (hi : i < files.length), s ≤ i → i < t →
    (∀ b' ∈ b, sstableKeyCompare b' files[i].smallestKey ≠ .gt) ∧
      ∀ e' ∈ e, sstableKeyCompare files[i].largestKey e' ≠ .gt
  cleanStart : CleanBoundary files s
  cleanEnd : CleanBoundary files t

section clean

variable {files : List (FdWithKeyRange (ParsedInternalKey UK))}

theorem cleanBoundary_length : CleanBoundary files files.length :=
  fun _ hi => absurd hi (lt_irrefl _)

theorem sharesBoundary_eq_false_iff {i : ℕ} : sharesBoundary files i = false ↔ CleanBoundary files i := by
  cases i with
  | zero => simp [sharesBoundary, CleanBoundary]
  | succ k =>
    by_cases hk : k + 1 < files.length
    · rw [sharesBoundary, List.getElem?_eq_getElem (show k < files.length by omega), List.getElem?_eq_getElem hk]
      simp [CleanBoundary, hk]
    · -- no file at `k + 1`
      have hnone : files[k + 1]? = none := List.getElem?_eq_none (by omega)
      simp only [sharesBoundary, hnone, CleanBoundary]
      refine ⟨fun _ _ hk' => absurd hk' hk, fun _ => ?_⟩
      cases files[k]? <;> rfl

/-- within the interval, the run starts at a clean boundary, and the files from it on start inside `b`; no index
before it of a file that starts inside `b` is at a clean boundary -/
theorem rangeStartIndex_clean (h : InKeyOrder files) (b : Option (ParsedInternalKey UK)) :
    rangeStartIndex files b (-1) true ≤ files.length ∧
      (∀ i (hi : i < files.length), rangeStartIndex files b (-1) true ≤ i →
        ∀ b' ∈ b, sstableKeyCompare b' files[i].smallestKey ≠ .gt) ∧
      CleanBoundary files (rangeStartIndex files b (-1) true) ∧
      ∀ s' (hs' : s' < files.length), (∀ b' ∈ b, sstableKeyCompare b' files[s'].smallestKey ≠ .gt) →
        CleanBoundary files s' → rangeStartIndex files b (-1) true ≤ s' := by
  cases b with
  | none =>
    -- no `begin`: the run starts at the first file
    exact ⟨Nat.zero_le _, fun _ _ _ b' hb' => absurd hb' (by simp), fun h0 => absurd h0 (lt_irrefl 0),
      fun _ _ _ _ => Nat.zero_le _⟩
  | some b =>
    set lb := files.findIdx fun f => sstableKeyCompare f.smallestKey b != .lt with hlb
    -- a file that does not start before `b` is followed by files that do not either
    have hpart : files.Pairwise fun f g =>
        (sstableKeyCompare f.smallestKey b != .lt) = true → (sstableKeyCompare g.smallestKey b != .lt) = true :=
      h.smallest_le.imp fun hfg hf => sstableKeyCompare_bne_lt.mpr (le_trans (sstableKeyCompare_bne_lt.mp hf) hfg)
    -- so the files before `lb` are exactly those that start before `b`
    have hbefore : ∀ i (hi : i < files.length), i < lb ↔ sstableKey files[i].smallestKey < sstableKey b := by
      intro i hi
      rw [hlb, lt_findIdx_iff hpart hi, Bool.eq_false_iff, ne_eq, sstableKeyCompare_bne_lt, not_le]
    have hinside : ∀ i (hi : i < files.length), lb ≤ i → ∀ b' ∈ some b, sstableKeyCompare b' files[i].smallestKey ≠ .gt := by
      rintro i hi hli b' ⟨⟩
      exact sstableKeyCompare_ne_gt.mpr (not_lt.mp fun hlt => absurd ((hbefore i hi).mpr hlt) (not_lt.mpr hli))
    have hafter : ∀ s' (hs' : s' < files.length), (∀ b' ∈ some b, sstableKeyCompare b' files[s'].smallestKey ≠ .gt) →
        lb ≤ s' := fun s' hs' hb =>
      not_lt.mp fun hlt => absurd (sstableKeyCompare_ne_gt.mp (hb b rfl)) (not_le.mpr ((hbefore s' hs').mp hlt))
    have hlb_le : lb ≤ files.length := List.findIdx_le_length
    have hstart : rangeStartIndex files (some b) (-1) true =
        if 0 < lb then advanceWhile (fun i => decide (i < files.length) && sharesBoundary files i) files.length lb
        else lb := by
      simp only [rangeStartIndex, ↓reduceIte, List.take_of_length_le le_rfl, Bool.and_true, decide_eq_true_eq,
        gt_iff_lt, ← hlb]
    rw [hstart]
    split_ifs with hpos
    · obtain ⟨hle, -, hall, hstop⟩ :=
        advanceWhile_spec (fun i => decide (i < files.length) && sharesBoundary files i) files.length lb
      set r := advanceWhile (fun i => decide (i < files.length) && sharesBoundary files i) files.length lb
      -- the loop passes only indices of files, so it stops at the end of the level at the latest
      have hrn : r ≤ files.length := by
        by_contra hgt
        simpa using hall files.length hlb_le (by omega)
      refine ⟨hrn, fun i hi hri => hinside i hi (le_trans hle hri), fun h0 hr => ?_, fun s' hs' hb hclean => ?_⟩
      · -- the loop stopped before its fuel ran out, at a boundary it does not share
        have hshare : sharesBoundary files r = false := by simpa [hr] using hstop (by omega)
        exact sharesBoundary_eq_false_iff.mp hshare h0 hr
      · -- a file starting inside `b` is not before `lb`, and the loop passed only shared boundaries
        by_contra hlt
        have hshare := ((Bool.and_eq_true _ _).mp (hall s' (hafter s' hs' hb) (by omega))).2
        exact absurd (sharesBoundary_eq_false_iff.mpr hclean) (by simp [hshare])
    · -- `lb = 0`: the run starts at the first file
      have hlb0 : lb = 0 := by omega
      refine ⟨hlb_le, fun i hi hli => hinside i hi hli, fun h0 => absurd h0 (by omega), fun s' hs' _ _ => ?_⟩
      omega

/-- within the interval, from a start at a clean boundary the run ends at a clean boundary, and the files before its
end end inside `e`; no index past it after which the last file ends inside `e` is at a clean boundary -/
theorem rangeEndIndex_clean (h : InKeyOrder files) (e : Option (ParsedInternalKey UK)) {s : ℕ}
    (hs : s ≤ files.length) (hclean : CleanBoundary files s) :
    s ≤ rangeEndIndex files e true s ∧ rangeEndIndex files e true s ≤ files.length ∧
      (∀ i (hi : i < files.length), s ≤ i → i < rangeEndIndex files e true s →
        ∀ e' ∈ e, sstableKeyCompare files[i].largestKey e' ≠ .gt) ∧
      CleanBoundary files (rangeEndIndex files e true s) ∧
      ∀ t' (hst : s < t') (ht : t' ≤ files.length),
        (∀ e' ∈ e, sstableKeyCompare files[t' - 1].largestKey e' ≠ .gt) → CleanBoundary files t' →
          t' ≤ rangeEndIndex files e true s := by
  cases e with
  | none =>
    -- no `end`: the run goes to the end of the level
    exact ⟨hs, le_rfl, fun _ _ _ _ e' he' => absurd he' (by simp), cleanBoundary_length, fun _ _ ht _ _ => ht⟩
  | some e =>
    set k := (files.drop s).findIdx (fun f => sstableKeyCompare e f.largestKey == .lt) with hk
    -- a file that ends after `e` is followed by files that do too
    have hpart : (files.drop s).Pairwise fun f g =>
        (sstableKeyCompare e f.largestKey == .lt) = true → (sstableKeyCompare e g.largestKey == .lt) = true :=
      h.largest_le.drop.imp fun hfg hf =>
        sstableKeyCompare_beq_lt.mpr (lt_of_lt_of_le (sstableKeyCompare_beq_lt.mp hf) hfg)
    -- so the files from `s` before `s + k` are exactly those that end inside `e`
    have hbefore : ∀ i (hi : i < files.length), s ≤ i →
        (i < s + k ↔ sstableKey files[i].largestKey ≤ sstableKey e) := by
      intro i hi hsi
      have hd : i - s < (files.drop s).length := by
        rw [List.length_drop]
        omega
      have hget : (files.drop s)[i - s] = files[i] := by simp [List.getElem_drop, Nat.add_sub_cancel' hsi]
      rw [show i < s + k ↔ i - s < k by omega, hk, lt_findIdx_iff hpart hd, hget, Bool.eq_false_iff, ne_eq,
        sstableKeyCompare_beq_lt, not_lt]
    have hinside : ∀ i (hi : i < files.length), s ≤ i → i < s + k →
        ∀ e' ∈ some e, sstableKeyCompare files[i].largestKey e' ≠ .gt := by
      rintro i hi hsi hiu e' ⟨⟩
      exact sstableKeyCompare_ne_gt.mpr ((hbefore i hi hsi).mp hiu)
    -- a run from `s` whose last file ends inside `e` ends by `s + k`
    have hbound : ∀ t' (hst : s < t') (ht : t' ≤ files.length),
        (∀ e' ∈ some e, sstableKeyCompare files[t' - 1].largestKey e' ≠ .gt) → t' ≤ s + k := by
      intro t' hst ht he
      have hlast := (hbefore (t' - 1) (by omega) (by omega)).mpr (sstableKeyCompare_ne_gt.mp (he e rfl))
      omega
    have hk_le : s + k ≤ files.length := by
      have : k ≤ (files.drop s).length := List.findIdx_le_length
      rw [List.length_drop] at this
      omega
    have hend : rangeEndIndex files (some e) true s =
        if s + k < files.length then
          retreatWhile (fun i => decide (s < i) && sharesBoundary files i) files.length (s + k)
        else s + k := by
      simp only [rangeEndIndex, ↓reduceIte, Bool.and_true, decide_eq_true_eq, ← hk]
    rw [hend]
    split_ifs with hlt
    · obtain ⟨hle, -, hall, hstop⟩ :=
        retreatWhile_spec (fun i => decide (s < i) && sharesBoundary files i) (by simp) files.length (s + k)
      set r := retreatWhile (fun i => decide (s < i) && sharesBoundary files i) files.length (s + k)
      -- the loop passes only indices past the start, so it stops at the start at the latest
      have hsr : s ≤ r := by
        by_contra hrs
        simpa using hall s (by omega) (by omega)
      refine ⟨hsr, by omega, fun i hi hsi hir => hinside i hi hsi (by omega), ?_, fun t' hst ht he hclean' => ?_⟩
      · -- the loop stopped before its fuel ran out: at the start, or at a boundary it does not share
        have hp := hstop (by omega)
        by_cases hrs : s < r
        · exact sharesBoundary_eq_false_iff.mp (by simpa [hrs] using hp)
        · rw [show r = s by omega]
          exact hclean
      · -- the end of such a run is not past `s + k`, and the loop passed only shared boundaries
        have htu := hbound t' hst ht he
        by_contra hgt
        have hshare := ((Bool.and_eq_true _ _).mp (hall t' (by omega) htu)).2
        exact absurd (sharesBoundary_eq_false_iff.mpr hclean') (by simp [hshare])
    · -- `s + k` is the end of the level
      have hkn : s + k = files.length := by omega
      refine ⟨by omega, hk_le, hinside, hkn ▸ cleanBoundary_length, fun t' hst ht _ _ => by omega⟩

end clean

/-- within the interval, the files from the start to the end of the run, none on an empty level -/
theorem VersionStorageInfo.getCleanInputsWithinInterval_inputs {v : VersionStorageInfo (ParsedInternalKey UK)}
    {level : ℕ} (hl : 0 < level) (b e : Option (ParsedInternalKey UK)) (hint : Int) (out : OverlappingInputs UK) :
    (v.getCleanInputsWithinInterval level b e hint out).inputs =
      ((v.levelFiles level).drop (rangeStartIndex (v.levelFiles level) b hint true)).take
        (rangeEndIndex (v.levelFiles level) e true (rangeStartIndex (v.levelFiles level) b hint true) -
          rangeStartIndex (v.levelFiles level) b hint true) := by
  unfold VersionStorageInfo.getCleanInputsWithinInterval
  dsimp only
  split_ifs with hempty
  · -- an empty level: nothing to take either way
    have hnil : v.levelFiles level = [] := by
      rcases hempty with h | h | h
      · exact v.levelFiles_eq_nil h
      · omega
      · exact List.eq_nil_of_length_eq_zero h
    simp [hnil]
  · rw [getOverlappingInputsRangeBinarySearch_inputs, List.nil_append]

/-! ## The queries -/

/-- what the overlap queries of a version select: on L0, the files that meet the range by user key, and with
`expand_range` the least set of files that takes in every file meeting the hull of the range and the set; past L0, on
a level in order by `sstableKeyCompare`, the files neither before nor after the range, and `SomeFileOverlapsRange`
finds by binary search what its scan finds -/
structure OverlapQueriesExact (v : VersionStorageInfo (ParsedInternalKey UK)) : Prop where
  level0 : v.levelFiles 0 ≠ [] → ∀ (b e : Option (ParsedInternalKey UK)) (hint : Int) (out : OverlappingInputs UK),
    (v.getOverlappingInputs 0 b e hint false out).inputs =
      (v.levelFiles 0).filter fun f => decide (Meets (b.map (·.userKey)) (e.map (·.userKey)) f.fileStart f.fileLimit)
  level0Expand : v.levelFiles 0 ≠ [] →
    ∀ (b e : Option (ParsedInternalKey UK)) (hint : Int) (out : OverlappingInputs UK),
      IsLeast {S | S ⊆ {f | f ∈ v.levelFiles 0} ∧
          HullClosed FdWithKeyRange.fileStart FdWithKeyRange.fileLimit {f | f ∈ v.levelFiles 0} (b.map (·.userKey))
            (e.map (·.userKey)) S}
        {f | f ∈ (v.getOverlappingInputs 0 b e hint true out).inputs}
  sorted : ∀ level, 0 < level → v.levelFiles level ≠ [] → InKeyOrder (v.levelFiles level) →
    ∀ (b e : Option (ParsedInternalKey UK)) (expandRange : Bool) (out : OverlappingInputs UK),
      (v.getOverlappingInputs level b e (-1) expandRange out).inputs =
        (v.levelFiles level).filter fun f => decide ((∀ b' ∈ b, sstableKeyCompare f.largestKey b' ≠ .lt) ∧
          ∀ e' ∈ e, sstableKeyCompare e' f.smallestKey ≠ .lt)
  someFileOverlapsRange : ∀ level, 0 < level → InKeyOrder (v.levelFiles level) → ∀ a c : Option UK,
    someFileOverlapsRangePtr true ((v.levelFiles level).map FdWithKeyRange.userKeys) a c =
      someFileOverlapsRangePtr false ((v.levelFiles level).map FdWithKeyRange.userKeys) a c

theorem overlapping_inputs_exact (v : VersionStorageInfo (ParsedInternalKey UK)) : OverlapQueriesExact v where
  level0 := getOverlappingInputs_level0 v
  level0Expand := getOverlappingInputs_level0_expand v
  sorted := getOverlappingInputs_sorted v
  someFileOverlapsRange _ _ hsorted := someFileOverlapsRangePtr_sorted hsorted

/-- an L0 of three files: the second starts where the first ends, the third after both -/
def chainedLevel0 : VersionStorageInfo (ParsedInternalKey ℕ) :=
  ⟨[[⟨⟨1, 3, .kTypeValue⟩, ⟨2, 3, .kTypeValue⟩, []⟩, ⟨⟨2, 2, .kTypeValue⟩, ⟨4, 2, .kTypeValue⟩, []⟩,
    ⟨⟨5, 1, .kTypeValue⟩, ⟨6, 1, .kTypeValue⟩, []⟩]], 0⟩

/-- the overlap queries on that L0: the range `[1, 1]` meets the first file only, and widened to it, the second -/
theorem overlapping_inputs_exact_chainedLevel0 :
    OverlapQueriesExact chainedLevel0 ∧
      (chainedLevel0.getOverlappingInputs 0 (some ⟨1, 0, .kTypeValue⟩) (some ⟨1, 0, .kTypeValue⟩) (-1) false
        ⟨[], none, none⟩).inputs.length = 1 ∧
      (chainedLevel0.getOverlappingInputs 0 (some ⟨1, 0, .kTypeValue⟩) (some ⟨1, 0, .kTypeValue⟩) (-1) true
        ⟨[], none, none⟩).inputs.length = 2 :=
  ⟨overlapping_inputs_exact chainedLevel0, by decide, by decide⟩

/-- `GetCleanInputsWithinInterval` on a level past L0 in order: a run of files inside the range by
`sstableKeyCompare` that shares no boundary key with the files beside it, and every such run that is not empty lies
inside it -/
theorem clean_cut_within_interval (v : VersionStorageInfo (ParsedInternalKey UK)) (level : ℕ) (hl : 0 < level)
    (hsorted : InKeyOrder (v.levelFiles level)) (b e : Option (ParsedInternalKey UK)) (out : OverlappingInputs UK) :
    ∃ s t, CleanRun (v.levelFiles level) b e s t ∧
      (v.getCleanInputsWithinInterval level b e (-1) out).inputs = ((v.levelFiles level).drop s).take (t - s) ∧
      ∀ s' t', s' < t' → CleanRun (v.levelFiles level) b e s' t' → s ≤ s' ∧ t' ≤ t := by
  obtain ⟨hsn, hsb, hsclean, hsmin⟩ := rangeStartIndex_clean hsorted b
  obtain ⟨hst, htn, hte, htclean, htmax⟩ := rangeEndIndex_clean hsorted e hsn hsclean
  refine ⟨_, _, ⟨hst, htn, fun i hi hsi hit => ⟨hsb i hi hsi, hte i hi hsi hit⟩, hsclean, htclean⟩,
    v.getCleanInputsWithinInterval_inputs hl b e (-1) out, fun s' t' hlt hrun => ?_⟩
  -- a clean run starts with a file inside `b` at a clean boundary, and ends with one inside `e` at a clean boundary
  have hs' : rangeStartIndex (v.levelFiles level) b (-1) true ≤ s' :=
    hsmin s' (by have := hrun.le_length; omega) (hrun.within s' _ le_rfl hlt).1 hrun.cleanStart
  exact ⟨hs', htmax t' (by omega) hrun.le_length (hrun.within (t' - 1) _ (by omega) (by omega)).2 hrun.cleanEnd⟩

/-- a level 1 whose first two files share the user key 5 as a boundary, and a third file after them -/
def sharedBoundaryLevel : VersionStorageInfo (ParsedInternalKey ℕ) :=
  ⟨[[], [⟨⟨1, 9, .kTypeValue⟩, ⟨5, 8, .kTypeValue⟩, []⟩, ⟨⟨5, 7, .kTypeValue⟩, ⟨9, 6, .kTypeValue⟩, []⟩,
    ⟨⟨10, 5, .kTypeValue⟩, ⟨12, 4, .kTypeValue⟩, []⟩]], 1⟩

theorem clean_cut_within_interval_sharedBoundary :
    0 < 1 ∧ InKeyOrder (sharedBoundaryLevel.levelFiles 1) ∧
      ∃ s t, CleanRun (sharedBoundaryLevel.levelFiles 1) (some ⟨2, 0, .kTypeValue⟩) (some ⟨12, 0, .kTypeValue⟩) s t ∧
        (sharedBoundaryLevel.getCleanInputsWithinInterval 1 (some ⟨2, 0, .kTypeValue⟩) (some ⟨12, 0, .kTypeValue⟩) (-1)
            ⟨[], none, none⟩).inputs = ((sharedBoundaryLevel.levelFiles 1).drop s).take (t - s) ∧
        ∀ s' t', s' < t' →
          CleanRun (sharedBoundaryLevel.levelFiles 1) (some ⟨2, 0, .kTypeValue⟩) (some ⟨12, 0, .kTypeValue⟩) s' t' →
            s ≤ s' ∧ t' ≤ t :=
  have hsorted : InKeyOrder (sharedBoundaryLevel.levelFiles 1) := ⟨by decide, by decide⟩
  ⟨by decide, hsorted, clean_cut_within_interval sharedBoundaryLevel 1 (by decide) hsorted _ _ _⟩

-- the first file inside `[2, 12]` shares its boundary with the one before it, so the clean run is the third file
example : (sharedBoundaryLevel.getCleanInputsWithinInterval 1 (some ⟨2, 0, .kTypeValue⟩) (some ⟨12, 0, .kTypeValue⟩)
    (-1) ⟨[], none, none⟩).inputs = [⟨⟨10, 5, .kTypeValue⟩, ⟨12, 4, .kTypeValue⟩, []⟩] := by decide

end ForSt
