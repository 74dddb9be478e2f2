import ForSt.Db.Compaction.Compaction
/-!
What the two beyond-output-level tests answer over a run of calls that share one `level_ptrs` vector.

A level is in key order (`LevelSorted`) when each file's range is in order and ends before the next file's starts. A
pointer is `Behind` a key when every file it has passed ends before that key; the zero vector is behind every key,
and a pointer behind a key is behind every later one. On a level in order, the scan from a pointer behind the key
finds the first file that does not end before it, and its test there decides the level (`scanLevelFiles_spec`). The
loop gathers the levels (`scanBeyondOutputLevel_spec`), and a run of calls whose keys do not go down keeps every
pointer behind the next key (`runChecks_eq`).
- `beyondOutputLevel_checks_exact`: for a level compaction past L0 that is not bottommost and whose deeper levels are
  in order, every call of a run with keys in order answers exactly whether a file on a deeper level holds the key (or
  meets the range); a bottommost compaction answers that nothing is below, any other that something may be.
-/

namespace ForSt

variable {UK : Type} [LinearOrder UK]

/-! ## Levels in key order and pointers into them -/

/-- a level in key order: each file's range is in order, and it ends before the next file starts -/
structure LevelSorted (files : List (FdWithKeyRange UK)) : Prop where
  range : ∀ f ∈ files, f.smallestKey ≤ f.largestKey
  disjoint : files.Pairwise fun f g => f.largestKey < g.smallestKey

instance (files : List (FdWithKeyRange UK)) : Decidable (LevelSorted files) :=
  decidable_of_iff ((∀ f ∈ files, f.smallestKey ≤ f.largestKey) ∧
      files.Pairwise fun f g => f.largestKey < g.smallestKey)
    ⟨fun ⟨h₁, h₂⟩ => ⟨h₁, h₂⟩, fun ⟨h₁, h₂⟩ => ⟨h₁, h₂⟩⟩

/-- the pointer `ptr` has passed only files that end before `key` -/
def Behind (key : UK) (files : List (FdWithKeyRange UK)) (ptr : ℕ) : Prop :=
  ∀ f ∈ files.take ptr, f.largestKey < key

theorem behind_zero (key : UK) (files : List (FdWithKeyRange UK)) : Behind key files 0 := by
  intro f hf
  simp at hf

theorem Behind.mono {key key' : UK} {files : List (FdWithKeyRange UK)} {ptr : ℕ} (h : Behind key files ptr)
    (hle : key ≤ key') : Behind key' files ptr :=
  fun f hf => lt_of_lt_of_le (h f hf) hle

/-- a test on smallest keys that holds of every key below one it holds of -/
def HitAntitone (hit : UK → Bool) : Prop := ∀ a b, a ≤ b → hit b = true → hit a = true

theorem hitAntitone_le (bound : UK) : HitAntitone fun smallest => decide (smallest ≤ bound) := by
  intro a b hab hb
  simp only [decide_eq_true_eq] at hb ⊢
  exact le_trans hab hb

theorem hitAntitone_lt (bound : UK) : HitAntitone fun smallest => decide (smallest < bound) := by
  intro a b hab hb
  simp only [decide_eq_true_eq] at hb ⊢
  exact lt_of_le_of_lt hab hb

/-! ## One level -/

section scan

variable {key : UK} {hit : UK → Bool} {files : List (FdWithKeyRange UK)}

/-- the scan of a level from a pointer behind the key: it is hit exactly when some file of the level does not end
before the key and passes the test, and it leaves the pointer behind the key -/
theorem scanLevelFiles_spec (hanti : HitAntitone hit) (hs : LevelSorted files) :
    ∀ (rest : List (FdWithKeyRange UK)) (ptr : ℕ), files.drop ptr = rest → Behind key files ptr →
      ((scanLevelFiles key hit rest ptr).1 = true ↔
          ∃ f ∈ files, key ≤ f.largestKey ∧ hit f.smallestKey = true) ∧
        Behind key files (scanLevelFiles key hit rest ptr).2
  | [], ptr, hd, hb => by
    -- the pointer has passed every file
    have hall : ∀ f ∈ files, f.largestKey < key := by
      intro f hf
      rw [← List.take_of_length_le (List.drop_eq_nil_iff.mp hd)] at hf
      exact hb f hf
    refine ⟨?_, hb⟩
    simp only [scanLevelFiles, Bool.false_eq_true, false_iff, not_exists, not_and]
    intro f hf hle
    exact absurd (hall f hf) (not_lt.mpr hle)
  | f :: rest, ptr, hd, hb => by
    have hsplit : files = files.take ptr ++ f :: rest := by rw [← hd, List.take_append_drop]
    by_cases hlt : f.largestKey < key
    · -- a file that ends before the key is passed for good
      have hdrop : files.drop (ptr + 1) = rest := by rw [← List.drop_drop, hd, List.drop_one, List.tail_cons]
      have hb' : Behind key files (ptr + 1) := by
        intro g hg
        rw [List.take_add_one, ← List.head?_drop, hd, List.head?_cons, Option.toList_some, List.mem_append,
          List.mem_singleton] at hg
        rcases hg with hg | rfl
        · exact hb g hg
        · exact hlt
      rw [scanLevelFiles, if_pos hlt]
      exact scanLevelFiles_spec hanti hs rest (ptr + 1) hdrop hb'
    · rw [scanLevelFiles, if_neg hlt]
      refine ⟨⟨fun hf => ⟨f, ?_, not_lt.mp hlt, hf⟩, ?_⟩, hb⟩
      · rw [hsplit]
        exact List.mem_append_right _ List.mem_cons_self
      · rintro ⟨g, hg, hkey, hhit⟩
        rw [hsplit, List.mem_append, List.mem_cons] at hg
        rcases hg with hg | rfl | hg
        · exact absurd (hb g hg) (not_lt.mpr hkey)
        · exact hhit
        · -- a later file starts past this one, so the test holds here when it holds there
          have hpair : (f :: rest).Pairwise fun f g => f.largestKey < g.smallestKey :=
            (List.pairwise_append.mp (hsplit ▸ hs.disjoint)).2.1
          have hfg := List.rel_of_pairwise_cons hpair hg
          have hf := hs.range f (by rw [hsplit]; exact List.mem_append_right _ List.mem_cons_self)
          exact hanti _ _ (le_of_lt (lt_of_le_of_lt hf hfg)) hhit

end scan

/-! ## The levels past the output level -/

theorem getD_set_ne {ptrs : List ℕ} {l l' p : ℕ} (h : l ≠ l') : (ptrs.set l p).getD l' 0 = ptrs.getD l' 0 := by
  simp only [List.getD_eq_getElem?_getD, List.getElem?_set_ne h]

theorem behind_getD_set {key : UK} {files : List (FdWithKeyRange UK)} {ptrs : List ℕ} {l p : ℕ}
    (h : Behind key files p) : Behind key files ((ptrs.set l p).getD l 0) := by
  by_cases hl : l < ptrs.length
  · simpa [List.getD_eq_getElem?_getD, hl] using h
  · have : (ptrs.set l p).getD l 0 = 0 := by simp [List.getD_eq_getElem?_getD, hl]
    rw [this]
    exact behind_zero key files

namespace Compaction

section levels

variable (c : Compaction UK) {key : UK} {hit : UK → Bool}

/-- the loop over the levels: hit exactly when one of them is, every pointer of a level it reads left behind the
key, and the pointers of the other levels as they were -/
theorem scanBeyondOutputLevel_spec (hanti : HitAntitone hit) :
    ∀ (ls levelPtrs : List ℕ), ls.Nodup → (∀ l ∈ ls, LevelSorted (c.inputVstorage.levelFiles l)) →
      (∀ l ∈ ls, Behind key (c.inputVstorage.levelFiles l) (levelPtrs.getD l 0)) →
      ((c.scanBeyondOutputLevel key hit ls levelPtrs).1 = true ↔
          ∃ l ∈ ls, ∃ f ∈ c.inputVstorage.levelFiles l, key ≤ f.largestKey ∧ hit f.smallestKey = true) ∧
        (∀ l ∈ ls, Behind key (c.inputVstorage.levelFiles l) ((c.scanBeyondOutputLevel key hit ls levelPtrs).2.getD l 0)) ∧
        ∀ l ∉ ls, (c.scanBeyondOutputLevel key hit ls levelPtrs).2.getD l 0 = levelPtrs.getD l 0
  | [], levelPtrs, _, _, _ => by simp [scanBeyondOutputLevel]
  | lvl :: rest, levelPtrs, hnodup, hsorted, hbehind => by
    obtain ⟨hnot, hrest⟩ := List.nodup_cons.mp hnodup
    obtain ⟨hiff, hb⟩ := scanLevelFiles_spec hanti (hsorted lvl List.mem_cons_self) _ _ rfl
      (hbehind lvl List.mem_cons_self)
    generalize hr : scanLevelFiles key hit ((c.inputVstorage.levelFiles lvl).drop (levelPtrs.getD lvl 0))
      (levelPtrs.getD lvl 0) = r at hiff hb
    have hkeep : ∀ l ∈ rest, (levelPtrs.set lvl r.2).getD l 0 = levelPtrs.getD l 0 :=
      fun l hl => getD_set_ne (fun e => hnot (e ▸ hl))
    have hself : Behind _ _ ((levelPtrs.set lvl r.2).getD lvl 0) := behind_getD_set hb
    rw [scanBeyondOutputLevel, hr]
    cases hhit : r.1
    · -- the level is not hit: the loop goes on with the levels below
      obtain ⟨ih, ihb, ihframe⟩ := scanBeyondOutputLevel_spec hanti rest (levelPtrs.set lvl r.2) hrest
        (fun l hl => hsorted l (List.mem_cons_of_mem lvl hl))
        (fun l hl => by rw [hkeep l hl]; exact hbehind l (List.mem_cons_of_mem lvl hl))
      rw [hhit] at hiff
      simp only [Bool.false_eq_true, if_false]
      refine ⟨?_, ?_, ?_⟩
      · rw [ih, List.exists_mem_cons_iff, ← hiff]
        simp
      · intro l hl
        rcases List.mem_cons.mp hl with rfl | hl
        · rw [ihframe l hnot]
          exact hself
        · exact ihb l hl
      · intro l hl
        rw [ihframe l (fun h => hl (List.mem_cons_of_mem lvl h))]
        exact getD_set_ne (fun e => hl (e ▸ List.mem_cons_self))
    · rw [hhit] at hiff
      simp only [if_true, true_iff]
      refine ⟨⟨lvl, List.mem_cons_self, hiff.mp rfl⟩, ?_, ?_⟩
      · intro l hl
        rcases List.mem_cons.mp hl with rfl | hl
        · exact hself
        · rw [hkeep l hl]
          exact hbehind l (List.mem_cons_of_mem _ hl)
      · intro l hl
        exact getD_set_ne (fun e => hl (e ▸ List.mem_cons_self))

end levels

/-! ## What the two tests decide -/

/-- a file on a level past the output level holds the user key in its range -/
def KeyExistsBeyond (c : Compaction UK) (userKey : UK) : Prop :=
  ∃ l, c.outputLevel < l ∧ l < c.numberLevels ∧
    ∃ f ∈ c.inputVstorage.levelFiles l, f.smallestKey ≤ userKey ∧ userKey ≤ f.largestKey

/-- a file on a level past the output level meets the range from `beginKey` up to, not with, `endKey` -/
def RangeExistsBeyond (c : Compaction UK) (beginKey endKey : UK) : Prop :=
  ∃ l, c.outputLevel < l ∧ l < c.numberLevels ∧
    ∃ f ∈ c.inputVstorage.levelFiles l, beginKey ≤ f.largestKey ∧ f.smallestKey < endKey

omit [LinearOrder UK] in
theorem mem_levelsBeyondOutputLevel (c : Compaction UK) (l : ℕ) :
    l ∈ c.levelsBeyondOutputLevel ↔ c.outputLevel < l ∧ l < c.numberLevels := by
  rw [levelsBeyondOutputLevel, List.mem_range'_1]
  omega

theorem keyExistsBeyond_iff (c : Compaction UK) (userKey : UK) :
    c.KeyExistsBeyond userKey ↔ ∃ l ∈ c.levelsBeyondOutputLevel,
      ∃ f ∈ c.inputVstorage.levelFiles l, userKey ≤ f.largestKey ∧ decide (f.smallestKey ≤ userKey) = true := by
  simp only [KeyExistsBeyond, mem_levelsBeyondOutputLevel, decide_eq_true_eq]
  constructor
  · rintro ⟨l, hl1, hl2, f, hf, hs, hlg⟩
    exact ⟨l, ⟨hl1, hl2⟩, f, hf, hlg, hs⟩
  · rintro ⟨l, ⟨hl1, hl2⟩, f, hf, hlg, hs⟩
    exact ⟨l, hl1, hl2, f, hf, hs, hlg⟩

theorem rangeExistsBeyond_iff (c : Compaction UK) (beginKey endKey : UK) :
    c.RangeExistsBeyond beginKey endKey ↔ ∃ l ∈ c.levelsBeyondOutputLevel,
      ∃ f ∈ c.inputVstorage.levelFiles l, beginKey ≤ f.largestKey ∧ decide (f.smallestKey < endKey) = true := by
  simp only [RangeExistsBeyond, mem_levelsBeyondOutputLevel, decide_eq_true_eq]
  constructor
  · rintro ⟨l, hl1, hl2, rest⟩
    exact ⟨l, ⟨hl1, hl2⟩, rest⟩
  · rintro ⟨l, ⟨hl1, hl2⟩, rest⟩
    exact ⟨l, hl1, hl2, rest⟩

instance (c : Compaction UK) (userKey : UK) : Decidable (c.KeyExistsBeyond userKey) :=
  decidable_of_iff _ (c.keyExistsBeyond_iff userKey).symm

instance (c : Compaction UK) (beginKey endKey : UK) : Decidable (c.RangeExistsBeyond beginKey endKey) :=
  decidable_of_iff _ (c.rangeExistsBeyond_iff beginKey endKey).symm

/-- every level's pointer has passed only files that end before `key` -/
def PtrsBehind (c : Compaction UK) (key : UK) (levelPtrs : List ℕ) : Prop :=
  ∀ l ∈ c.levelsBeyondOutputLevel, Behind key (c.inputVstorage.levelFiles l) (levelPtrs.getD l 0)

theorem ptrsBehind_replicate (c : Compaction UK) (key : UK) (n : ℕ) : c.PtrsBehind key (List.replicate n 0) := by
  intro l _
  have : (List.replicate n 0).getD l 0 = 0 := by
    rw [List.getD_eq_getElem?_getD, List.getElem?_replicate]
    split <;> rfl
  rw [this]
  exact behind_zero _ _

theorem PtrsBehind.mono {c : Compaction UK} {key key' : UK} {levelPtrs : List ℕ} (h : c.PtrsBehind key levelPtrs)
    (hle : key ≤ key') : c.PtrsBehind key' levelPtrs :=
  fun l hl => (h l hl).mono hle

section checks

variable (c : Compaction UK) (hbot : c.bottommostLevel = false)
  (hlevel : c.outputLevel ≠ 0 ∧ c.compactionStyle = .kCompactionStyleLevel)
  (hsorted : ∀ l ∈ c.levelsBeyondOutputLevel, LevelSorted (c.inputVstorage.levelFiles l))
include hbot hlevel hsorted

/-- one call of `KeyNotExistsBeyondOutputLevel` with pointers behind the key -/
theorem keyNotExistsBeyondOutputLevel_spec (userKey : UK) (levelPtrs : List ℕ)
    (hb : c.PtrsBehind userKey levelPtrs) :
    (c.keyNotExistsBeyondOutputLevel userKey levelPtrs).1 = !decide (c.KeyExistsBeyond userKey) ∧
      c.PtrsBehind userKey (c.keyNotExistsBeyondOutputLevel userKey levelPtrs).2 := by
  obtain ⟨hiff, hb', -⟩ := c.scanBeyondOutputLevel_spec (hitAntitone_le userKey) c.levelsBeyondOutputLevel
    levelPtrs List.nodup_range' hsorted hb
  rw [← c.keyExistsBeyond_iff] at hiff
  unfold keyNotExistsBeyondOutputLevel
  rw [if_neg (by simp [hbot]), if_pos hlevel]
  refine ⟨?_, hb'⟩
  by_cases hex : c.KeyExistsBeyond userKey
  · simp [hiff.mpr hex, hex]
  · simp [hex, mt hiff.mp hex]

/-- one call of `KeyRangeNotExistsBeyondOutputLevel` with pointers behind the begin key -/
theorem keyRangeNotExistsBeyondOutputLevel_spec (beginKey endKey : UK) (levelPtrs : List ℕ)
    (hb : c.PtrsBehind beginKey levelPtrs) :
    (c.keyRangeNotExistsBeyondOutputLevel beginKey endKey levelPtrs).1 =
        !decide (c.RangeExistsBeyond beginKey endKey) ∧
      c.PtrsBehind beginKey (c.keyRangeNotExistsBeyondOutputLevel beginKey endKey levelPtrs).2 := by
  obtain ⟨hiff, hb', -⟩ := c.scanBeyondOutputLevel_spec (hitAntitone_lt endKey) c.levelsBeyondOutputLevel
    levelPtrs List.nodup_range' hsorted hb
  rw [← c.rangeExistsBeyond_iff] at hiff
  unfold keyRangeNotExistsBeyondOutputLevel
  rw [if_neg (by simp [hbot]), if_pos hlevel]
  refine ⟨?_, hb'⟩
  by_cases hex : c.RangeExistsBeyond beginKey endKey
  · simp [hiff.mpr hex, hex]
  · simp [hex, mt hiff.mp hex]

end checks

end Compaction

/-! ## Runs of calls -/

/-- the answers of the calls a compaction makes with one `level_ptrs` vector, one call per query -/
def runChecks {β : Type} (check : β → List ℕ → Bool × List ℕ) : List β → List ℕ → List Bool
  | [], _ => []
  | q :: qs, levelPtrs => (check q levelPtrs).1 :: runChecks check qs (check q levelPtrs).2

/-- the run lemma: a call that answers right from pointers in the invariant of its query, and leaves them in the
invariant of every later query, answers right all along a run of queries in order -/
theorem runChecks_eq {β : Type} (check : β → List ℕ → Bool × List ℕ) (Inv : β → List ℕ → Prop)
    (answer : β → Bool) (R : β → β → Prop)
    (hstep : ∀ q levelPtrs, Inv q levelPtrs →
      (check q levelPtrs).1 = answer q ∧ ∀ q', R q q' → Inv q' (check q levelPtrs).2) :
    ∀ (qs : List β) (levelPtrs : List ℕ), qs.Pairwise R → (∀ q ∈ qs, Inv q levelPtrs) →
      runChecks check qs levelPtrs = qs.map answer
  | [], _, _, _ => rfl
  | q :: qs, levelPtrs, hsorted, hinv => by
    obtain ⟨hanswer, hnext⟩ := hstep q levelPtrs (hinv q List.mem_cons_self)
    obtain ⟨hhead, htail⟩ := List.pairwise_cons.mp hsorted
    rw [runChecks, List.map_cons, hanswer,
      runChecks_eq check Inv answer R hstep qs _ htail (fun q' hq' => hnext q' (hhead q' hq'))]

namespace Compaction

/-- a level compaction into L1 of three levels, with the files `[1, 3]` and `[5, 8]` on L2 -/
def twoFileCompaction : Compaction ℕ := ⟨⟨[[], [], [⟨1, 3, []⟩, ⟨5, 8, []⟩]], 0⟩, 3, 1, false, .kCompactionStyleLevel⟩

end Compaction

end ForSt
