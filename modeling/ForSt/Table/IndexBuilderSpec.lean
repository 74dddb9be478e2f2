import ForSt.Table.IndexBuilder
/-!
The index separators partition the key space.

Each index entry must be at or above its block's last key and below the next block's first key (`Separates`): a
binary search for the first entry at or above a target then lands on the only block that can hold it. For both
built-in comparators and every shortening mode, `separator_separates` shows this of one entry, from
`findShortestInternalKeySeparator_separates` (a shortened key is taken only when it is larger than the start, and
the comparator's separator never reaches the limit). `addDataBlocks_indexBlock` is the run: the index keys are the
separators of the block boundaries in order. When `Finish` emits user keys, no separator shares its user key with the
next block's first key, so the user keys alone are ordered the same way
(`addDataBlocks_separators_partition`).
-/

namespace ForSt

open ForSt.Coding

/-- an index entry `sep` for a block whose last key is `last`, followed by a block starting at `next` -/
structure Separates (c : BuiltinComparator) (last : List UInt8) (next : Option (List UInt8)) (sep : List UInt8) :
    Prop where
  above : internalKeyCompare c.compare last sep ≠ .gt
  below : ∀ first, next = some first → internalKeyCompare c.compare sep first = .lt

/-- the boundaries the table builder reports: each block's last key with the first key of the next block -/
def boundaries : List (List UInt8 × List UInt8) → List (List UInt8 × Option (List UInt8))
  | [] => []
  | [(_, last)] => [(last, none)]
  | (_, last) :: (first, last') :: rest => (last, some first) :: boundaries ((first, last') :: rest)

section entry

variable {c : BuiltinComparator}

theorem extractUserKey_seekTrailer (userKey : List UInt8) : extractUserKey (userKey ++ seekTrailer) = userKey :=
  extractUserKey_append_encodeFixed64 userKey _

/-- a key whose user key is above another's is above it -/
theorem internalKeyCompare_lt_of_user {a b : List UInt8} (h : c.compare (extractUserKey a) (extractUserKey b) = .lt) :
    internalKeyCompare c.compare a b = .lt := by
  rw [internalKeyCompare_of_ne_eq (by rw [h]; decide), h]

theorem findShortestInternalKeySeparator_separates {start limit : List UInt8}
    (h : internalKeyCompare c.compare start limit = .lt) :
    internalKeyCompare c.compare start (findShortestInternalKeySeparator c start limit) ≠ .gt ∧
      internalKeyCompare c.compare (findShortestInternalKeySeparator c start limit) limit = .lt := by
  simp only [findShortestInternalKeySeparator]
  split_ifs with hshort
  · obtain ⟨-, hlarger⟩ := hshort
    -- equal user keys leave the separator unshortened, so the user keys differ and are in order
    have hne : c.compare (extractUserKey start) (extractUserKey limit) ≠ .eq := by
      intro heq
      have hrefl : c.compare (extractUserKey limit) (extractUserKey limit) = .eq := Std.ReflCmp.compare_self
      rw [c.eq_of_compare_eq heq, c.findShortestSeparator_self, hrefl] at hlarger
      cases hlarger
    have hlt : c.compare (extractUserKey start) (extractUserKey limit) = .lt := by
      have hngt := userCompare_ne_gt_of_internalKeyCompare_lt h
      cases hc : c.compare (extractUserKey start) (extractUserKey limit)
      · rfl
      · exact absurd hc hne
      · exact absurd hc hngt
    have hbelow := c.findShortestSeparator_lt hlt
    refine ⟨?_, ?_⟩
    · rw [internalKeyCompare_lt_of_user (by rwa [extractUserKey_seekTrailer])]
      decide
    · exact internalKeyCompare_lt_of_user (by rwa [extractUserKey_seekTrailer])
  · refine ⟨?_, h⟩
    rw [internalKeyCompare_self]
    decide

theorem findShortInternalKeySuccessor_above (key : List UInt8) :
    internalKeyCompare c.compare key (findShortInternalKeySuccessor c key) ≠ .gt := by
  simp only [findShortInternalKeySuccessor]
  split_ifs with hshort
  · rw [internalKeyCompare_lt_of_user (by rw [extractUserKey_seekTrailer]; exact hshort.2)]
    decide
  · rw [internalKeyCompare_self]
    decide

/-- every entry `AddIndexEntry` makes separates its block from the next, whatever the shortening mode -/
theorem separator_separates (b : ShortenedIndexBuilder) (last : List UInt8) (next : Option (List UInt8))
    (h : ∀ first, next = some first → internalKeyCompare b.comparator.compare last first = .lt) :
    Separates b.comparator last next (b.separator last next) := by
  cases next with
  | some first =>
    have hlt := h first rfl
    simp only [ShortenedIndexBuilder.separator]
    split_ifs
    · obtain ⟨habove, hbelow⟩ := findShortestInternalKeySeparator_separates hlt
      exact ⟨habove, fun f hf => Option.some.inj hf ▸ hbelow⟩
    · refine ⟨?_, fun f hf => Option.some.inj hf ▸ hlt⟩
      rw [internalKeyCompare_self]
      decide
  | none =>
    simp only [ShortenedIndexBuilder.separator]
    split_ifs
    · exact ⟨findShortInternalKeySuccessor_above last, fun _ hf => by cases hf⟩
    · refine ⟨?_, fun _ hf => by cases hf⟩
      rw [internalKeyCompare_self]
      decide

/-- a separator below the next first key whose user key differs from it is below it in user key order -/
theorem user_lt_of_separates {last sep first : List UInt8} (hsep : Separates c last (some first) sep)
    (hne : c.compare (extractUserKey sep) (extractUserKey first) ≠ .eq) :
    c.compare (extractUserKey sep) (extractUserKey first) = .lt := by
  have hlt := hsep.below first rfl
  rwa [internalKeyCompare_of_ne_eq hne] at hlt

end entry

/-! ## The run over the data blocks -/

section run

variable (b : ShortenedIndexBuilder) (last : List UInt8) (next : Option (List UInt8))

@[simp] theorem addIndexEntry_comparator : (b.addIndexEntry last next).comparator = b.comparator := rfl

@[simp] theorem addIndexEntry_shorteningMode : (b.addIndexEntry last next).shorteningMode = b.shorteningMode := rfl

theorem addIndexEntry_separator : (b.addIndexEntry last next).separator = b.separator := rfl

theorem addIndexEntry_shouldUseKeyPlusSeqAsSeparator :
    (b.addIndexEntry last next).shouldUseKeyPlusSeqAsSeparator = b.shouldUseKeyPlusSeqAsSeparator := rfl

@[simp] theorem addIndexEntry_indexBlock :
    (b.addIndexEntry last next).indexBlock = b.indexBlock ++ [b.separator last next] := rfl

/-- the index keys after the run: the separators of the boundaries, in order -/
theorem addDataBlocks_indexBlock (blocks : List (List UInt8 × List UInt8)) :
    (addDataBlocks b blocks).indexBlock =
      b.indexBlock ++ (boundaries blocks).map (fun p => b.separator p.1 p.2) := by
  induction b, blocks using addDataBlocks.induct with
  | case1 b => simp [addDataBlocks, boundaries]
  | case2 b first last => simp [addDataBlocks, boundaries]
  | case3 b first last first' last' rest ih =>
    rw [addDataBlocks, ih, addIndexEntry_separator, boundaries, List.map_cons, addIndexEntry_indexBlock,
      List.append_assoc, List.singleton_append]

/-- a run that ends with `seperator_is_key_plus_seq_` false had it false all along: no separator shared its user
key with the next first key, and every separator's user key went to the second block builder -/
theorem addDataBlocks_of_not_keyPlusSeq (blocks : List (List UInt8 × List UInt8))
    (h : (addDataBlocks b blocks).seperatorIsKeyPlusSeq = false) :
    b.seperatorIsKeyPlusSeq = false ∧
      (∀ p ∈ boundaries blocks, ∀ first, p.2 = some first →
        b.shouldUseKeyPlusSeqAsSeparator (b.separator p.1 p.2) first = false) ∧
      (addDataBlocks b blocks).indexBlockWithoutSeq =
        b.indexBlockWithoutSeq ++ (boundaries blocks).map (fun p => extractUserKey (b.separator p.1 p.2)) := by
  induction b, blocks using addDataBlocks.induct with
  | case1 b => simpa [addDataBlocks, boundaries] using h
  | case2 b first last =>
    simp only [addDataBlocks, ShortenedIndexBuilder.addIndexEntry] at h ⊢
    refine ⟨h, ?_, ?_⟩
    · intro p hp f hf
      simp only [boundaries, List.mem_singleton] at hp
      subst hp
      cases hf
    · simp [h, boundaries]
  | case3 b first last first' last' rest ih =>
    rw [addDataBlocks] at h ⊢
    obtain ⟨hflag, hne, hwithout⟩ := ih h
    -- the flag of the builder after the first entry is the old flag or the test of that entry
    have hstep : (b.seperatorIsKeyPlusSeq || b.shouldUseKeyPlusSeqAsSeparator (b.separator last (some first')) first')
        = false := hflag
    rw [Bool.or_eq_false_iff] at hstep
    refine ⟨hstep.1, ?_, ?_⟩
    · intro p hp f hf
      rw [boundaries, List.mem_cons] at hp
      rcases hp with rfl | hp
      · cases hf
        exact hstep.2
      · rw [← addIndexEntry_separator b last (some first'), ← addIndexEntry_shouldUseKeyPlusSeqAsSeparator b last
          (some first')]
        exact hne p hp f hf
    · rw [hwithout, addIndexEntry_separator, boundaries, List.map_cons]
      simp only [ShortenedIndexBuilder.addIndexEntry, hstep.1, hstep.2, Bool.or_false, Bool.false_eq_true, if_false,
        List.append_assoc, List.singleton_append]

end run

/-- for both built-in comparators, every shortening mode and every format version, over data blocks whose each last
key is below the next block's first key: the index has one entry per block, each at or above its block's last key
and below the next block's first key; and when `Finish` emits user keys only, these are the separators' user keys,
each below the next block's first user key -/
theorem addDataBlocks_separators_partition (c : BuiltinComparator) (formatVersion : ℕ) (mode : IndexShorteningMode)
    (blocks : List (List UInt8 × List UInt8))
    (hsorted : ∀ p ∈ boundaries blocks, ∀ first, p.2 = some first → internalKeyCompare c.compare p.1 first = .lt) :
    List.Forall₂ (fun p sep => Separates c p.1 p.2 sep ∧
        ((addDataBlocks (.create c formatVersion mode) blocks).seperatorIsKeyPlusSeq = false →
          ∀ first, p.2 = some first → c.compare (extractUserKey sep) (extractUserKey first) = .lt))
      (boundaries blocks) (addDataBlocks (.create c formatVersion mode) blocks).indexBlock ∧
    ((addDataBlocks (.create c formatVersion mode) blocks).seperatorIsKeyPlusSeq = false →
      (addDataBlocks (.create c formatVersion mode) blocks).finish =
        (addDataBlocks (.create c formatVersion mode) blocks).indexBlock.map extractUserKey) := by
  set b := ShortenedIndexBuilder.create c formatVersion mode
  have hc : b.comparator = c := rfl
  have hindex := addDataBlocks_indexBlock b blocks
  have hempty : b.indexBlock = [] := rfl
  rw [hempty, List.nil_append] at hindex
  refine ⟨?_, ?_⟩
  · rw [hindex, List.forall₂_map_right_iff, List.forall₂_same]
    rintro ⟨last, next⟩ hp
    have hsep := separator_separates b last next (hc ▸ hsorted (last, next) hp)
    rw [hc] at hsep
    refine ⟨hsep, ?_⟩
    intro hflag first hfirst
    obtain ⟨-, hne, -⟩ := addDataBlocks_of_not_keyPlusSeq b blocks hflag
    -- the run kept user-key separators, so this one's user key differs from the next block's first
    have hdiff : c.compare (extractUserKey (b.separator last next)) (extractUserKey first) ≠ .eq := by
      have := hne (last, next) hp first hfirst
      simpa [ShortenedIndexBuilder.shouldUseKeyPlusSeqAsSeparator, hc] using this
    dsimp only at hfirst
    subst hfirst
    exact user_lt_of_separates hsep hdiff
  · intro hflag
    obtain ⟨-, -, hwithout⟩ := addDataBlocks_of_not_keyPlusSeq b blocks hflag
    rw [ShortenedIndexBuilder.finish, if_neg (by simp [hflag]), hwithout, hindex, List.map_map]
    rfl

theorem addDataBlocks_separators_partition_two_blocks :
    (∀ p ∈ boundaries [([97, 1, 0, 0, 0, 0, 0, 0, 0], [98, 1, 0, 0, 0, 0, 0, 0, 0]), ([100, 1, 0, 0, 0, 0, 0, 0, 0], [101, 1, 0, 0, 0, 0, 0, 0, 0])],
      ∀ first, p.2 = some first → internalKeyCompare BuiltinComparator.bytewise.compare p.1 first = .lt) ∧
    (List.Forall₂ (fun p sep => Separates .bytewise p.1 p.2 sep ∧
        ((addDataBlocks (.create .bytewise 5 .kShortenSeparators) [([97, 1, 0, 0, 0, 0, 0, 0, 0], [98, 1, 0, 0, 0, 0, 0, 0, 0]), ([100, 1, 0, 0, 0, 0, 0, 0, 0], [101, 1, 0, 0, 0, 0, 0, 0, 0])]).seperatorIsKeyPlusSeq = false →
          ∀ first, p.2 = some first → BuiltinComparator.bytewise.compare (extractUserKey sep) (extractUserKey first) = .lt))
      (boundaries [([97, 1, 0, 0, 0, 0, 0, 0, 0], [98, 1, 0, 0, 0, 0, 0, 0, 0]), ([100, 1, 0, 0, 0, 0, 0, 0, 0], [101, 1, 0, 0, 0, 0, 0, 0, 0])]) (addDataBlocks (.create .bytewise 5 .kShortenSeparators) [([97, 1, 0, 0, 0, 0, 0, 0, 0], [98, 1, 0, 0, 0, 0, 0, 0, 0]), ([100, 1, 0, 0, 0, 0, 0, 0, 0], [101, 1, 0, 0, 0, 0, 0, 0, 0])]).indexBlock ∧
    ((addDataBlocks (.create .bytewise 5 .kShortenSeparators) [([97, 1, 0, 0, 0, 0, 0, 0, 0], [98, 1, 0, 0, 0, 0, 0, 0, 0]), ([100, 1, 0, 0, 0, 0, 0, 0, 0], [101, 1, 0, 0, 0, 0, 0, 0, 0])]).seperatorIsKeyPlusSeq = false →
      (addDataBlocks (.create .bytewise 5 .kShortenSeparators) [([97, 1, 0, 0, 0, 0, 0, 0, 0], [98, 1, 0, 0, 0, 0, 0, 0, 0]), ([100, 1, 0, 0, 0, 0, 0, 0, 0], [101, 1, 0, 0, 0, 0, 0, 0, 0])]).finish = (addDataBlocks (.create .bytewise 5 .kShortenSeparators) [([97, 1, 0, 0, 0, 0, 0, 0, 0], [98, 1, 0, 0, 0, 0, 0, 0, 0]), ([100, 1, 0, 0, 0, 0, 0, 0, 0], [101, 1, 0, 0, 0, 0, 0, 0, 0])]).indexBlock.map extractUserKey)) := by
  have hsorted : ∀ p ∈ boundaries [([97, 1, 0, 0, 0, 0, 0, 0, 0], [98, 1, 0, 0, 0, 0, 0, 0, 0]), ([100, 1, 0, 0, 0, 0, 0, 0, 0], [101, 1, 0, 0, 0, 0, 0, 0, 0])],
      ∀ first, p.2 = some first → internalKeyCompare BuiltinComparator.bytewise.compare p.1 first = .lt := by
    intro p hp first hfirst
    simp only [boundaries, List.mem_cons, List.not_mem_nil, or_false] at hp
    rcases hp with rfl | rfl
    · cases hfirst
      decide
    · cases hfirst
  exact ⟨hsorted, addDataBlocks_separators_partition .bytewise 5 .kShortenSeparators _ hsorted⟩

end ForSt
