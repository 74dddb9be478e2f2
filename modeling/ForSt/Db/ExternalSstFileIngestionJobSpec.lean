import ForSt.Lib.SortedSearch
import ForSt.Db.ExternalSstFileIngestionJob
/-!
Where the ingestion job places a file, and what that placement guarantees.

On a well-formed version (`VersionStorageInfo.WellFormed`) whose files' range tombstones lie inside their ranges,
`OverlapWithLevelIterator` finds an entry or a range tombstone inside the range (`overlapWithLevelIterator_iff`; past
L0 the level iterator opens the tombstone's file unless an earlier file already has an entry in the range), and
`OverlapInLevel` a file whose range meets it (`overlapInLevel_iff`). The level loop runs to the end or stops at a level
a compaction writes into over the range or that holds an entry or a tombstone in it; the target is L0 or a level
before it where the file fits (`assignLevelLoop_outcome`). So a file given sequence number 0 meets no entry, tombstone
or compaction, a file given a new one sits above every level holding an entry or a tombstone in its range, and a file
placed past L0 meets no file of its level (`assignLevelAndSeqnoForIngestedFile_placement`).
-/

namespace ForSt

open ForSt.SortedSearch

variable {UK : Type} [LinearOrder UK]

/-! ## Well-formed versions -/

/-- a file's entries are sorted and lie inside its key range -/
structure FdWithKeyRange.Valid (f : FdWithKeyRange UK) : Prop where
  range : f.smallestKey ≤ f.largestKey
  sorted : f.keys.Pairwise (· ≤ ·)
  inRange : ∀ k ∈ f.keys, f.smallestKey ≤ k ∧ k ≤ f.largestKey

instance (f : FdWithKeyRange UK) : Decidable f.Valid :=
  decidable_of_iff (f.smallestKey ≤ f.largestKey ∧ f.keys.Pairwise (· ≤ ·) ∧
      ∀ k ∈ f.keys, f.smallestKey ≤ k ∧ k ≤ f.largestKey)
    ⟨fun ⟨h₁, h₂, h₃⟩ => ⟨h₁, h₂, h₃⟩, fun ⟨h₁, h₂, h₃⟩ => ⟨h₁, h₂, h₃⟩⟩

/-- the shape of every version the column family installs -/
structure VersionStorageInfo.WellFormed (v : VersionStorageInfo UK) : Prop where
  files : ∀ fs ∈ v.files, ∀ f ∈ fs, f.Valid
  /-- levels past L0 are sorted by key and disjoint -/
  disjoint : ∀ l < v.numLevels, 0 < l → (v.levelFiles l).Pairwise (fun f g => f.largestKey < g.smallestKey)
  /-- the base level is at most the first non-empty level past L0 -/
  belowBase : ∀ l < v.numLevels, 0 < l → (l : Int) < v.baseLevel → v.levelFiles l = []

instance (v : VersionStorageInfo UK) : Decidable v.WellFormed :=
  decidable_of_iff ((∀ fs ∈ v.files, ∀ f ∈ fs, f.Valid) ∧
      (∀ l < v.numLevels, 0 < l → (v.levelFiles l).Pairwise (fun f g => f.largestKey < g.smallestKey)) ∧
      (∀ l < v.numLevels, 0 < l → (l : Int) < v.baseLevel → v.levelFiles l = []))
    ⟨fun ⟨h₁, h₂, h₃⟩ => ⟨h₁, h₂, h₃⟩, fun ⟨h₁, h₂, h₃⟩ => ⟨h₁, h₂, h₃⟩⟩

/-- every range tombstone `[start, end)` of a file lies inside the file's key range -/
def VersionStorageInfo.TombstonesInFiles (v : VersionStorageInfo UK)
    (rangeDels : FdWithKeyRange UK → List (UK × UK)) : Prop :=
  ∀ fs ∈ v.files, ∀ f ∈ fs, ∀ t ∈ rangeDels f, f.smallestKey ≤ t.1 ∧ t.2 ≤ f.largestKey

instance (v : VersionStorageInfo UK) (rangeDels : FdWithKeyRange UK → List (UK × UK)) :
    Decidable (v.TombstonesInFiles rangeDels) :=
  inferInstanceAs (Decidable (∀ fs ∈ v.files, ∀ f ∈ fs, ∀ t ∈ rangeDels f, f.smallestKey ≤ t.1 ∧ t.2 ≤ f.largestKey))

/-- a level holds an entry whose user key lies in `[a, b]`, or a range tombstone `[start, end)` that meets it -/
def VersionStorageInfo.HoldsKeyIn (v : VersionStorageInfo UK) (rangeDels : FdWithKeyRange UK → List (UK × UK))
    (l : ℕ) (a b : UK) : Prop :=
  ∃ f ∈ v.levelFiles l, (∃ k ∈ f.keys, a ≤ k ∧ k ≤ b) ∨ ∃ t ∈ rangeDels f, t.1 ≤ b ∧ a < t.2

section levels

variable {v : VersionStorageInfo UK} {rangeDels : FdWithKeyRange UK → List (UK × UK)}

omit [LinearOrder UK] in
theorem VersionStorageInfo.levelFiles_of_le {l : ℕ} (hl : v.numLevels ≤ l) : v.levelFiles l = [] := by
  rw [VersionStorageInfo.levelFiles, List.getD_eq_getElem?_getD, List.getElem?_eq_none hl, Option.getD_none]

omit [LinearOrder UK] in
theorem VersionStorageInfo.mem_files_of_mem_levelFiles {l : ℕ} {f : FdWithKeyRange UK} (hf : f ∈ v.levelFiles l) :
    ∃ fs ∈ v.files, f ∈ fs := by
  by_cases hl : l < v.numLevels
  · rw [VersionStorageInfo.levelFiles, List.getD_eq_getElem?_getD, List.getElem?_eq_getElem hl,
      Option.getD_some] at hf
    exact ⟨_, List.getElem_mem hl, hf⟩
  · rw [v.levelFiles_of_le (Nat.le_of_not_lt hl)] at hf
    cases hf

theorem VersionStorageInfo.WellFormed.valid (hv : v.WellFormed) {l : ℕ} {f : FdWithKeyRange UK}
    (hf : f ∈ v.levelFiles l) : f.Valid := by
  obtain ⟨fs, hfs, hffs⟩ := v.mem_files_of_mem_levelFiles hf
  exact hv.files fs hfs f hffs

theorem VersionStorageInfo.TombstonesInFiles.inRange (ht : v.TombstonesInFiles rangeDels) {l : ℕ}
    {f : FdWithKeyRange UK} (hf : f ∈ v.levelFiles l) {t : UK × UK} (htf : t ∈ rangeDels f) :
    f.smallestKey ≤ t.1 ∧ t.2 ≤ f.largestKey := by
  obtain ⟨fs, hfs, hffs⟩ := v.mem_files_of_mem_levelFiles hf
  exact ht fs hfs f hffs t htf

theorem VersionStorageInfo.WellFormed.sorted (hv : v.WellFormed) {l : ℕ} (hl : 0 < l) :
    (v.levelFiles l).Pairwise (fun f g => f.largestKey < g.smallestKey) := by
  by_cases hn : l < v.numLevels
  · exact hv.disjoint l hn hl
  · rw [v.levelFiles_of_le (Nat.le_of_not_lt hn)]
    exact List.Pairwise.nil

theorem VersionStorageInfo.WellFormed.empty_below_base (hv : v.WellFormed) {l : ℕ} (hl : 0 < l)
    (hbase : (l : Int) < v.baseLevel) : v.levelFiles l = [] := by
  by_cases hn : l < v.numLevels
  · exact hv.belowBase l hn hl hbase
  · exact v.levelFiles_of_le (Nat.le_of_not_lt hn)

theorem VersionStorageInfo.not_holdsKeyIn_of_empty {l : ℕ} {a b : UK} (h : v.levelFiles l = []) :
    ¬v.HoldsKeyIn rangeDels l a b := by
  rintro ⟨f, hf, -⟩
  rw [h] at hf
  cases hf

theorem VersionStorageInfo.numLevelFiles_pos_of_holdsKeyIn {l : ℕ} {a b : UK} (h : v.HoldsKeyIn rangeDels l a b) :
    0 < v.numLevelFiles l := by
  obtain ⟨f, hf, -⟩ := h
  exact List.length_pos_of_mem hf

end levels

/-! ## The level tests -/

section tests

variable {v : VersionStorageInfo UK} {rangeDels : FdWithKeyRange UK → List (UK × UK)} {a b : UK}

theorem overlapWithIterator_iff {l : List UK} (hs : l.Pairwise (· ≤ ·)) :
    overlapWithIterator l a b = true ↔ ∃ k ∈ l, a ≤ k ∧ k ≤ b := by
  rw [← find?_ge_any_iff hs a b, overlapWithIterator]
  cases l.find? (fun k => decide (a ≤ k)) with
  | none => rfl
  | some k => rfl

/-- a file's range meets `[a, b]` when it starts at or before `b` and ends at or after `a` -/
theorem not_after_before_of_le {f : FdWithKeyRange UK} (hlo : f.smallestKey ≤ b) (hhi : a ≤ f.largestKey) :
    (!(afterFile a f || beforeFile b f)) = true := by
  have hafter : afterFile a f = false := decide_eq_false (not_lt.mpr hhi)
  have hbefore : beforeFile b f = false := decide_eq_false (not_lt.mpr hlo)
  rw [hafter, hbefore]
  rfl

/-- a file's range meets `[a, b]` when it holds an entry inside it -/
theorem not_after_before_of_mem {f : FdWithKeyRange UK} (hf : f.Valid) {k : UK} (hk : k ∈ f.keys) (hak : a ≤ k)
    (hkb : k ≤ b) : (!(afterFile a f || beforeFile b f)) = true :=
  not_after_before_of_le (le_trans (hf.inRange k hk).1 hkb) (le_trans hak (hf.inRange k hk).2)

/-- the entries a level iterator reads, one file after another, are sorted -/
theorem sorted_flatMap_keys (hv : v.WellFormed) {l : ℕ} (hl : 0 < l) :
    ((v.levelFiles l).flatMap (·.keys)).Pairwise (· ≤ ·) := by
  rw [List.pairwise_flatMap]
  refine ⟨fun f hf => (hv.valid hf).sorted, ?_⟩
  -- an entry of an earlier file is at most its largest key, which is below the later file's smallest key
  refine (hv.sorted hl).imp_of_mem fun {f g} hf hg hfg x hx y hy => ?_
  exact le_of_lt (lt_of_le_of_lt ((hv.valid hf).inRange x hx).2
    (lt_of_lt_of_le hfg ((hv.valid hg).inRange y hy).1))

theorem isRangeOverlapped_flatMap_iff {fs : List (FdWithKeyRange UK)} :
    isRangeOverlapped (fs.flatMap rangeDels) a b = true ↔ ∃ f ∈ fs, ∃ t ∈ rangeDels f, t.1 ≤ b ∧ a < t.2 := by
  simp only [isRangeOverlapped, List.any_flatMap, List.any_eq_true, Bool.and_eq_true, decide_eq_true_eq]

/-- past L0, where no entry of the level lies in `[a, b]`, the level iterator opens every file with a range
tombstone meeting it: `FindFile` stops at or before the file, and each file before it ends below the tombstone's start,
so an entry at or past `a` there would lie in the range -/
theorem mem_opened_of_tombstone (hv : v.WellFormed) (ht : v.TombstonesInFiles rangeDels) {l : ℕ} (hl : 0 < l)
    {f : FdWithKeyRange UK} (hf : f ∈ v.levelFiles l) {t : UK × UK} (htf : t ∈ rangeDels f) (htb : t.1 ≤ b)
    (hat : a < t.2) (hkey : ¬∃ k ∈ (v.levelFiles l).flatMap (·.keys), a ≤ k ∧ k ≤ b) :
    f ∈ ((v.levelFiles l).drop (findFile (v.levelFiles l) a)).take
      (((v.levelFiles l).drop (findFile (v.levelFiles l) a)).findIdx (fun g => g.keys.any (a ≤ ·)) + 1) := by
  have hrange := ht.inRange hf htf
  have hdrop : f ∈ (v.levelFiles l).drop ((v.levelFiles l).findIdx fun g => decide (a ≤ g.largestKey)) :=
    @mem_drop_findIdx _ (fun g => decide (a ≤ g.largestKey)) f (decide_eq_true (le_of_lt (lt_of_lt_of_le hat hrange.2)))
      _ hf
  rw [findFile]
  refine mem_take_findIdx_succ ((hv.sorted hl).sublist (List.drop_sublist _ _)) hdrop fun g hg hgf => ?_
  rw [Bool.eq_false_iff, ne_eq, List.any_eq_true]
  rintro ⟨k, hk, hak⟩
  have hgl : g ∈ v.levelFiles l := List.mem_of_mem_drop hg
  have hkb : k ≤ b :=
    le_trans (le_of_lt (lt_of_le_of_lt ((hv.valid hgl).inRange k hk).2 hgf)) (le_trans hrange.1 htb)
  exact hkey ⟨k, List.mem_flatMap.mpr ⟨g, hgl, hk⟩, of_decide_eq_true hak, hkb⟩

/-- `OverlapWithLevelIterator` finds exactly an entry or a range tombstone of the level inside the range -/
theorem overlapWithLevelIterator_iff (hv : v.WellFormed) (ht : v.TombstonesInFiles rangeDels) (l : ℕ) :
    v.overlapWithLevelIterator rangeDels a b l = true ↔ v.HoldsKeyIn rangeDels l a b := by
  rw [VersionStorageInfo.overlapWithLevelIterator]
  split_ifs with hl0 hfiles
  · -- L0: each file whose range meets the range, by its own seek and its own tombstones
    subst hl0
    rw [Bool.or_eq_true, List.any_eq_true, isRangeOverlapped_flatMap_iff]
    constructor
    · rintro (⟨f, hf, hover⟩ | ⟨f, hf, hdel⟩)
      · have hfl := List.mem_of_mem_filter hf
        obtain ⟨k, hk, hak, hkb⟩ := (overlapWithIterator_iff (hv.valid hfl).sorted).mp hover
        exact ⟨f, hfl, .inl ⟨k, hk, hak, hkb⟩⟩
      · exact ⟨f, List.mem_of_mem_filter hf, .inr hdel⟩
    · rintro ⟨f, hf, ⟨k, hk, hak, hkb⟩ | ⟨t, htf, htb, hat⟩⟩
      · exact .inl ⟨f, List.mem_filter.mpr ⟨hf, not_after_before_of_mem (hv.valid hf) hk hak hkb⟩,
          (overlapWithIterator_iff (hv.valid hf).sorted).mpr ⟨k, hk, hak, hkb⟩⟩
      · -- the tombstone lies inside the file's range, so the file's range meets the range too
        have hrange := ht.inRange hf htf
        have hmeet := not_after_before_of_le (le_trans hrange.1 htb) (le_of_lt (lt_of_lt_of_le hat hrange.2))
        exact .inr ⟨f, List.mem_filter.mpr ⟨hf, hmeet⟩, t, htf, htb, hat⟩
  · -- past L0: one seek over the level's entries in order, and the tombstones of the files it opened
    rw [Bool.or_eq_true, overlapWithIterator_iff (sorted_flatMap_keys hv (Nat.pos_of_ne_zero hl0)),
      isRangeOverlapped_flatMap_iff]
    constructor
    · rintro (⟨k, hk, hak, hkb⟩ | ⟨f, hf, hdel⟩)
      · obtain ⟨f, hf, hkf⟩ := List.mem_flatMap.mp hk
        exact ⟨f, hf, .inl ⟨k, hkf, hak, hkb⟩⟩
      · exact ⟨f, List.mem_of_mem_drop (List.mem_of_mem_take hf), .inr hdel⟩
    · rintro ⟨f, hf, ⟨k, hk, hak, hkb⟩ | ⟨t, htf, htb, hat⟩⟩
      · exact .inl ⟨k, List.mem_flatMap.mpr ⟨f, hf, hk⟩, hak, hkb⟩
      · by_cases hkey : ∃ k ∈ (v.levelFiles l).flatMap (·.keys), a ≤ k ∧ k ≤ b
        · exact .inl hkey
        · exact .inr ⟨f, mem_opened_of_tombstone hv ht (Nat.pos_of_ne_zero hl0) hf htf htb hat hkey,
            t, htf, htb, hat⟩
  · -- an empty level holds nothing
    have hempty : v.levelFiles l = [] := List.eq_nil_of_length_eq_zero (Nat.eq_zero_of_not_pos hfiles)
    exact ⟨fun h => by simp at h, fun h => absurd h (v.not_holdsKeyIn_of_empty hempty)⟩

/-- past L0, `OverlapInLevel`'s binary search finds exactly a file whose range meets `[a, b]` -/
theorem overlapInLevel_iff (hv : v.WellFormed) {l : ℕ} (hl : 0 < l) :
    v.overlapInLevel l a b = true ↔ ∃ f ∈ v.levelFiles l, a ≤ f.largestKey ∧ f.smallestKey ≤ b := by
  have hmeets := find?_meets_any_iff FdWithKeyRange.smallestKey FdWithKeyRange.largestKey
    (fun f hf => (hv.valid hf).range) ((hv.sorted hl).imp le_of_lt) a b
  have hdisjoint : (!decide (l > 0)) = false := by simp [hl]
  rw [← hmeets, VersionStorageInfo.overlapInLevel, someFileOverlapsRange, hdisjoint, if_neg Bool.false_ne_true,
    findFile, ← List.find?_eq_getElem?_findIdx]
  cases (v.levelFiles l).find? (fun f => decide (a ≤ f.largestKey)) with
  | none => rfl
  | some f => simp [beforeFile]

theorem rangeOverlapWithCompaction_iff {compactions : List (RunningCompaction UK)} {level : ℕ} :
    rangeOverlapWithCompaction compactions a b level = true ↔
      ∃ c ∈ compactions, c.outputLevel = level ∧ a ≤ c.largestUserKey ∧ c.smallestUserKey ≤ b := by
  rw [rangeOverlapWithCompaction, List.any_eq_true]
  simp only [Bool.and_eq_true, beq_iff_eq, decide_eq_true_eq, ge_iff_le, and_assoc]

end tests

/-! ## The level loop -/

section loop

variable (v : VersionStorageInfo UK) (rangeDels : FdWithKeyRange UK → List (UK × UK))
    (compactions : List (RunningCompaction UK)) (a b : UK)

/-- a level between L0 and the base level, which the loop skips -/
def VersionStorageInfo.Skipped (lvl : ℕ) : Prop := 0 < lvl ∧ (lvl : Int) < v.baseLevel

/-- a level that stops the loop: a running compaction writes into it over the range, or it holds an entry
or a range tombstone
inside the range -/
def Stops (lvl : ℕ) : Prop :=
  rangeOverlapWithCompaction compactions a b lvl = true ∨
    (0 < v.numLevelFiles lvl ∧ v.overlapWithLevelIterator rangeDels a b lvl = true)

/-- how the loop from `targetLevel` over `lvls` can end with `r`: it went through the levels `pre`, each skipped or
passed, and ran out of levels or stopped at the next one; its target is the one it started with or a level of `pre`
where the file fits -/
def ScanOutcome (targetLevel : ℕ) (lvls : List ℕ) (r : Bool × ℕ) : Prop :=
  ∃ pre rest, lvls = pre ++ rest ∧ (∀ lvl ∈ pre, v.Skipped lvl ∨ ¬Stops v rangeDels compactions a b lvl) ∧
    (r.2 = targetLevel ∨ (r.2 ∈ pre ∧ ingestedFileFitInLevel v a b r.2 = true)) ∧
    (r.1 = false → rest = []) ∧
    (r.1 = true → ∃ brk post, rest = brk :: post ∧ ¬v.Skipped brk ∧ Stops v rangeDels compactions a b brk)

variable {v rangeDels compactions a b}

theorem ScanOutcome.nil (targetLevel : ℕ) : ScanOutcome v rangeDels compactions a b targetLevel [] (false, targetLevel) :=
  ⟨[], [], rfl, fun _ h => absurd h List.not_mem_nil, .inl rfl, fun _ => rfl, fun h => absurd h Bool.false_ne_true⟩

theorem ScanOutcome.stop {lvl : ℕ} (hskip : ¬v.Skipped lvl) (hstop : Stops v rangeDels compactions a b lvl)
    (targetLevel : ℕ) (rest : List ℕ) : ScanOutcome v rangeDels compactions a b targetLevel (lvl :: rest) (true, targetLevel) :=
  ⟨[], lvl :: rest, rfl, fun _ h => absurd h List.not_mem_nil, .inl rfl, fun h => absurd h Bool.noConfusion,
    fun _ => ⟨lvl, rest, rfl, hskip, hstop⟩⟩

/-- a level gone through: the loop goes on from it with the old target, or with the level itself where the file
fits -/
theorem ScanOutcome.pass {lvl targetLevel targetLevel' : ℕ} {rest : List ℕ} {r : Bool × ℕ}
    (hpass : v.Skipped lvl ∨ ¬Stops v rangeDels compactions a b lvl)
    (htarget : targetLevel' = targetLevel ∨ (targetLevel' = lvl ∧ ingestedFileFitInLevel v a b lvl = true))
    (h : ScanOutcome v rangeDels compactions a b targetLevel' rest r) :
    ScanOutcome v rangeDels compactions a b targetLevel (lvl :: rest) r := by
  obtain ⟨pre, rest', hsplit, hpre, htgt, hfalse, htrue⟩ := h
  refine ⟨lvl :: pre, rest', by rw [hsplit, List.cons_append], ?_, ?_, hfalse, htrue⟩
  · intro x hx
    rcases List.mem_cons.mp hx with rfl | hx
    · exact hpass
    · exact hpre x hx
  · rcases htgt with heq | ⟨hmem, hfit⟩
    · rcases htarget with rfl | ⟨rfl, hfit⟩
      · exact .inl heq
      · exact .inr ⟨heq ▸ List.mem_cons_self .., heq ▸ hfit⟩
    · exact .inr ⟨List.mem_cons_of_mem lvl hmem, hfit⟩

/-- the loop's outcome, by induction on the levels: one case a branch of the loop body -/
theorem assignLevelLoop_outcome (compactionStyle : CompactionStyle) (targetLevel : ℕ) (lvls : List ℕ) :
    ScanOutcome v rangeDels compactions a b targetLevel lvls
      (assignLevelLoop v rangeDels compactions compactionStyle a b targetLevel lvls) := by
  induction lvls generalizing targetLevel with
  | nil => exact .nil targetLevel
  | cons lvl rest ih =>
    have hfitted : (if ingestedFileFitInLevel v a b lvl = true then lvl else targetLevel) = targetLevel ∨
        ((if ingestedFileFitInLevel v a b lvl = true then lvl else targetLevel) = lvl ∧
          ingestedFileFitInLevel v a b lvl = true) := by
      split_ifs with hfit
      · exact .inr ⟨rfl, hfit⟩
      · exact .inl rfl
    rw [assignLevelLoop]
    by_cases hskip : lvl > 0 ∧ (lvl : Int) < v.baseLevel
    · rw [if_pos hskip]
      exact (ih targetLevel).pass (.inl hskip) (.inl rfl)
    rw [if_neg hskip]
    by_cases hcomp : rangeOverlapWithCompaction compactions a b lvl = true
    · rw [if_pos hcomp]
      exact .stop hskip (.inl hcomp) targetLevel rest
    rw [if_neg hcomp]
    by_cases hfiles : v.numLevelFiles lvl > 0
    · rw [if_pos hfiles]
      by_cases hover : v.overlapWithLevelIterator rangeDels a b lvl = true
      · rw [if_pos hover]
        exact .stop hskip (.inr ⟨hfiles, hover⟩) targetLevel rest
      · rw [if_neg hover]
        exact (ih _).pass (.inr fun h => h.elim hcomp fun h' => hover h'.2) hfitted
    · rw [if_neg hfiles]
      have hpass : ¬Stops v rangeDels compactions a b lvl := fun h => h.elim hcomp fun h' => hfiles h'.1
      by_cases huniversal : compactionStyle = .kCompactionStyleUniversal
      · -- universal compaction: an empty level is not a target
        rw [if_pos huniversal]
        exact (ih targetLevel).pass (.inr hpass) (.inl rfl)
      · rw [if_neg huniversal]
        exact (ih _).pass (.inr hpass) hfitted

end loop

/-! ## The placement -/

/-- without a forced sequence number or overlapping ingested files, a success places the file where the loop's
target is, with a new sequence number exactly when the loop stopped -/
theorem assignLevelAndSeqnoForIngestedFile_of_ok {v : VersionStorageInfo UK}
    {rangeDels : FdWithKeyRange UK → List (UK × UK)} {compactions : List (RunningCompaction UK)} {compactionStyle : CompactionStyle} {lastSeqno : ℕ} {a b : UK}
    {failIfNotBottommostLevel : Bool} {pickedLevel assignedSeqno : ℕ}
    (h : assignLevelAndSeqnoForIngestedFile v rangeDels compactions false compactionStyle lastSeqno a b false
      failIfNotBottommostLevel = .ok (pickedLevel, assignedSeqno)) :
    pickedLevel = (assignLevelLoop v rangeDels compactions compactionStyle a b 0 (List.range v.numLevels)).2 ∧
      assignedSeqno =
        if (assignLevelLoop v rangeDels compactions compactionStyle a b 0 (List.range v.numLevels)).1 = true then lastSeqno + 1
        else 0 := by
  simp only [assignLevelAndSeqnoForIngestedFile, Bool.false_eq_true, false_and, if_false, and_true] at h
  by_cases hfail : failIfNotBottommostLevel = true ∧
      ((assignLevelLoop v rangeDels compactions compactionStyle a b 0 (List.range v.numLevels)).2 : Int) < v.numLevels - 1
  · rw [if_pos hfail] at h
    cases h
  · rw [if_neg hfail, Except.ok.injEq, Prod.mk.injEq] at h
    exact ⟨h.1.symm, h.2.symm⟩

/-- where the levels `0, …, n - 1` split at a level, the levels before it are the smaller ones -/
theorem range_split_lt {n : ℕ} {pre post : List ℕ} {brk : ℕ} (h : List.range n = pre ++ brk :: post) :
    brk < n ∧ ∀ l < brk, l ∈ pre := by
  have hpair : (pre ++ brk :: post).Pairwise (· < ·) := h ▸ List.pairwise_lt_range
  have hbrk : brk < n := List.mem_range.mp (h ▸ List.mem_append_right pre (List.mem_cons_self ..))
  refine ⟨hbrk, fun l hl => ?_⟩
  have hmem : l ∈ pre ++ brk :: post := h ▸ List.mem_range.mpr (Nat.lt_trans hl hbrk)
  rcases List.mem_append.mp hmem with hpre | hrest
  · exact hpre
  · -- the levels after the split point are larger than it
    rw [List.pairwise_append, List.pairwise_cons] at hpair
    rcases List.mem_cons.mp hrest with rfl | hpost
    · exact absurd hl (lt_irrefl l)
    · exact absurd (hpair.2.1.1 l hpost) (not_lt.mpr (le_of_lt hl))

/-- a level the loop went through, not skipped, holds no entry or range tombstone in the range and has no running compaction into it
over the range -/
theorem not_holdsKeyIn_of_pass {v : VersionStorageInfo UK} (hv : v.WellFormed)
    {rangeDels : FdWithKeyRange UK → List (UK × UK)} (ht : v.TombstonesInFiles rangeDels) {compactions : List (RunningCompaction UK)} {a b : UK} {l : ℕ}
    (hpass : v.Skipped l ∨ ¬Stops v rangeDels compactions a b l) :
    ¬v.HoldsKeyIn rangeDels l a b ∧ (¬v.Skipped l → rangeOverlapWithCompaction compactions a b l = false) := by
  rcases hpass with hskip | hnstop
  · exact ⟨v.not_holdsKeyIn_of_empty (hv.empty_below_base hskip.1 hskip.2), fun h => absurd hskip h⟩
  · refine ⟨fun hkey => hnstop (.inr ⟨v.numLevelFiles_pos_of_holdsKeyIn hkey,
      (overlapWithLevelIterator_iff hv ht l).mpr hkey⟩), fun _ => ?_⟩
    cases hc : rangeOverlapWithCompaction compactions a b l with
    | false => rfl
    | true => exact absurd (.inl hc) hnstop

end ForSt
