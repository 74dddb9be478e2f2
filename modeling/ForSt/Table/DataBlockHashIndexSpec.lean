import ForSt.Lib.BitFields
import ForSt.Table.DataBlockHashIndex
/-!
A key added to a data block's hash index is found again: `Lookup` returns its restart index or `kCollision`, for every
hash function and number of buckets.

The bucket loop of `Finish` keeps one invariant per pair (`Holds`): once its turn has come, its bucket holds its
restart index or the collision marker (`holds_fillBucket_self`, `holds_fillBucket`). `Initialize` finds the buckets
after the buffer they were appended to (`init_finish`), so `Lookup` reads the key's bucket (`lookup_finish`), also in
a block (`createBinaryAndHash_finish`).
-/

namespace ForSt

open ForSt.Coding

namespace DataBlockHashIndexBuilder

/-- a bucket a key with restart index `r` hashes to holds `r` or the collision marker -/
def Holds (r : UInt8) (v : Option UInt8) : Prop := v = some r ∨ v = some kCollision

theorem length_fillBucket (n : UInt16) (buckets : List UInt8) (e : UInt32 × UInt8) :
    (fillBucket n buckets e).length = buckets.length := by
  unfold fillBucket
  dsimp only
  split_ifs <;> simp

theorem length_foldl_fillBucket (n : UInt16) (buckets : List UInt8) (l : List (UInt32 × UInt8)) :
    (l.foldl (fillBucket n) buckets).length = buckets.length := by
  induction l generalizing buckets with
  | nil => rfl
  | cons e l ih => rw [List.foldl_cons, ih, length_fillBucket]

/-- the pair's own turn leaves its bucket holding its restart index or a collision -/
theorem holds_fillBucket_self (n : UInt16) (buckets : List UInt8) (e : UInt32 × UInt8)
    (hi : e.1.toNat % n.toNat < buckets.length) :
    Holds e.2 (fillBucket n buckets e)[e.1.toNat % n.toNat]? := by
  obtain ⟨v, hv⟩ : ∃ v, buckets[e.1.toNat % n.toNat]? = some v := ⟨_, List.getElem?_eq_getElem hi⟩
  have hget : buckets.getD (e.1.toNat % n.toNat) kNoEntry = v := by
    rw [List.getD_eq_getElem?_getD, hv, Option.getD_some]
  unfold fillBucket
  dsimp only
  rw [hget]
  by_cases hempty : v = kNoEntry
  · rw [if_pos hempty, List.getElem?_set_self hi]
    exact Or.inl rfl
  · rw [if_neg hempty]
    by_cases hother : v ≠ e.2
    · rw [if_pos hother, List.getElem?_set_self hi]
      exact Or.inr rfl
    · rw [if_neg hother, hv, not_not.mp hother]
      exact Or.inl rfl

/-- a later pair keeps a bucket that holds a restart index or a collision so: it finds it taken, and at most marks
it a collision -/
theorem holds_fillBucket {r : UInt8} (hr : r ≠ kNoEntry) (n : UInt16) {buckets : List UInt8} {i : ℕ}
    (h : Holds r buckets[i]?) (e : UInt32 × UInt8) : Holds r (fillBucket n buckets e)[i]? := by
  obtain ⟨v, hv, hvr⟩ : ∃ v, buckets[i]? = some v ∧ (v = r ∨ v = kCollision) := by
    rcases h with h | h
    · exact ⟨r, h, Or.inl rfl⟩
    · exact ⟨kCollision, h, Or.inr rfl⟩
  have hi : i < buckets.length := (List.getElem?_eq_some_iff.mp hv).1
  have htaken : v ≠ kNoEntry := by
    rcases hvr with rfl | rfl
    · exact hr
    · decide
  unfold fillBucket
  dsimp only
  by_cases hidx : e.1.toNat % n.toNat = i
  · subst hidx
    have hget : buckets.getD (e.1.toNat % n.toNat) kNoEntry = v := by
      rw [List.getD_eq_getElem?_getD, hv, Option.getD_some]
    rw [hget, if_neg htaken]
    split_ifs
    · rw [List.getElem?_set_self hi]
      exact Or.inr rfl
    · exact h
  · split_ifs
    · rw [List.getElem?_set_ne hidx]
      exact h
    · rw [List.getElem?_set_ne hidx]
      exact h
    · exact h

theorem holds_foldl_fillBucket {r : UInt8} (hr : r ≠ kNoEntry) (n : UInt16) (l : List (UInt32 × UInt8))
    {buckets : List UInt8} {i : ℕ} (h : Holds r buckets[i]?) : Holds r (l.foldl (fillBucket n) buckets)[i]? := by
  induction l generalizing buckets with
  | nil => exact h
  | cons e l ih => exact ih (holds_fillBucket hr n h e)

/-- after the bucket loop, the bucket of every pair holds its restart index or a collision -/
theorem holds_foldl_fillBucket_of_mem {n : UInt16} {buckets : List UInt8} (hlen : buckets.length = n.toNat)
    (hn : 0 < n.toNat) {l : List (UInt32 × UInt8)} {e : UInt32 × UInt8} (he : e ∈ l) (hr : e.2 ≠ kNoEntry) :
    Holds e.2 (l.foldl (fillBucket n) buckets)[e.1.toNat % n.toNat]? := by
  obtain ⟨pre, post, rfl⟩ := List.append_of_mem he
  rw [List.foldl_append, List.foldl_cons]
  apply holds_foldl_fillBucket hr
  apply holds_fillBucket_self
  rw [length_foldl_fillBucket, hlen]
  exact Nat.mod_lt _ hn

/-- `num_buckets |= 1` leaves at least one bucket -/
theorem numBucketsOf_pos (b : DataBlockHashIndexBuilder) : 0 < b.numBucketsOf.toNat := by
  unfold numBucketsOf
  rw [UInt16.toNat_or, Nat.pos_iff_ne_zero, Ne, Nat.or_eq_zero_iff, not_and_or]
  exact Or.inr (by decide)

/-- the buckets `Finish` writes -/
def bucketsOf (b : DataBlockHashIndexBuilder) : List UInt8 :=
  b.hashAndRestartPairs.foldl (fillBucket b.numBucketsOf) (List.replicate b.numBucketsOf.toNat kNoEntry)

theorem finish_eq (b : DataBlockHashIndexBuilder) (buffer : List UInt8) :
    b.finish buffer = buffer ++ b.bucketsOf ++ encodeFixed16 b.numBucketsOf.toNat := rfl

theorem length_bucketsOf (b : DataBlockHashIndexBuilder) : b.bucketsOf.length = b.numBucketsOf.toNat := by
  rw [bucketsOf, length_foldl_fillBucket, List.length_replicate]

theorem length_finish (b : DataBlockHashIndexBuilder) (buffer : List UInt8) :
    (b.finish buffer).length = buffer.length + b.numBucketsOf.toNat + 2 := by
  rw [finish_eq, List.length_append, List.length_append, length_bucketsOf, length_encodeFixed16]

/-- every pair of the builder finds its bucket holding its restart index or a collision -/
theorem holds_bucketsOf {b : DataBlockHashIndexBuilder} {e : UInt32 × UInt8} (he : e ∈ b.hashAndRestartPairs)
    (hr : e.2 ≠ kNoEntry) : Holds e.2 b.bucketsOf[e.1.toNat % b.numBucketsOf.toNat]? :=
  holds_foldl_fillBucket_of_mem (List.length_replicate ..) b.numBucketsOf_pos he hr

/-- under the default utilisation ratio three keys get five buckets; two keys with one restart index share a bucket
without a collision -/
example : ((DataBlockHashIndexBuilder.create.init 0).addAll (fun k => UInt32.ofNat k.length)
    [([1], 0), ([2], 0), ([3, 4], 1)]).finish [7] = [7, 255, 0, 1, 255, 255, 5, 0] := by decide +kernel

/-- two restart indices in one bucket mark it a collision -/
example : ((DataBlockHashIndexBuilder.create.init 1).addAll (fun k => UInt32.ofNat k.length)
    [([1], 0), ([2], 1)]).bucketsOf = [255, 254, 255] := by decide +kernel

/-- `Add` keeps the pairs it had, and keeps a key with a supported restart index -/
theorem hashAndRestartPairs_add (getSliceHash : List UInt8 → UInt32) (b : DataBlockHashIndexBuilder)
    (key : List UInt8) (restartIndex : ℕ) :
    (b.add getSliceHash key restartIndex).hashAndRestartPairs = b.hashAndRestartPairs ++
      if restartIndex ≤ kMaxRestartSupportedByHashIndex then [(getSliceHash key, UInt8.ofNat restartIndex)]
      else [] := by
  unfold add
  by_cases h : restartIndex ≤ kMaxRestartSupportedByHashIndex
  · rw [if_neg (Nat.not_lt.mpr h), if_pos h]
  · rw [if_pos (Nat.lt_of_not_le h), if_neg h, List.append_nil]

/-- after adding a sequence of keys, the builder has a pair for each key with a supported restart index, by
induction on the sequence -/
theorem mem_hashAndRestartPairs_addAll (getSliceHash : List UInt8 → UInt32) (b : DataBlockHashIndexBuilder)
    {keyRestarts : List (List UInt8 × ℕ)} {kr : List UInt8 × ℕ} (hkr : kr ∈ keyRestarts)
    (hidx : kr.2 ≤ kMaxRestartSupportedByHashIndex) :
    (getSliceHash kr.1, UInt8.ofNat kr.2) ∈ (b.addAll getSliceHash keyRestarts).hashAndRestartPairs := by
  -- the pairs only grow
  have hgrow : ∀ (b : DataBlockHashIndexBuilder) (l : List (List UInt8 × ℕ)) e,
      e ∈ b.hashAndRestartPairs → e ∈ (b.addAll getSliceHash l).hashAndRestartPairs := by
    intro b l e he
    induction l generalizing b with
    | nil => exact he
    | cons kr' l ih =>
      apply ih
      rw [hashAndRestartPairs_add]
      exact List.mem_append_left _ he
  induction keyRestarts generalizing b with
  | nil => cases hkr
  | cons kr' l ih =>
    rcases List.mem_cons.mp hkr with rfl | hmem
    · refine hgrow (b.add getSliceHash kr.1 kr.2) l _ ?_
      rw [hashAndRestartPairs_add, if_pos hidx]
      exact List.mem_append_right _ (List.mem_singleton_self _)
    · exact ih _ hmem

end DataBlockHashIndexBuilder

namespace DataBlockHashIndex

open DataBlockHashIndexBuilder

/-- `Initialize` on the finished index, with whatever follows it in the data, reads back its number of buckets and
finds the buckets right after the buffer they were appended to -/
theorem init_finish_append (b : DataBlockHashIndexBuilder) (buffer rest : List UInt8)
    (hsize : (b.finish buffer).length < 2 ^ 16) :
    init (b.finish buffer ++ rest) (UInt16.ofNat (b.finish buffer).length) =
      (⟨b.numBucketsOf⟩, UInt16.ofNat buffer.length) := by
  have hlen := length_finish b buffer
  have htoNat : (UInt16.ofNat (b.finish buffer).length).toNat = (b.finish buffer).length :=
    UInt16.toNat_ofNat_of_lt' hsize
  -- the last two bytes of the index are `NUM_BUCK`
  have hdrop : (b.finish buffer ++ rest).drop ((b.finish buffer).length - 2) =
      encodeFixed16 b.numBucketsOf.toNat ++ rest := by
    rw [hlen, finish_eq, List.append_assoc (buffer ++ b.bucketsOf)]
    apply List.drop_left'
    rw [List.length_append, length_bucketsOf]
    omega
  unfold init
  rw [htoNat, hdrop, decodeFixed16_encodeFixed16, Nat.mod_eq_of_lt (UInt16.toNat_lt _), UInt16.ofNat_toNat]
  dsimp only
  rw [hlen, UInt16.ofNat_add, UInt16.ofNat_add, UInt16.ofNat_toNat, show UInt16.ofNat 2 = 2 from rfl,
    UInt16.add_sub_cancel, UInt16.add_sub_cancel]

theorem init_finish (b : DataBlockHashIndexBuilder) (buffer : List UInt8)
    (hsize : (b.finish buffer).length < 2 ^ 16) :
    init (b.finish buffer) (UInt16.ofNat (b.finish buffer).length) = (⟨b.numBucketsOf⟩, UInt16.ofNat buffer.length) := by
  simpa using init_finish_append b buffer [] hsize

/-- `Lookup` with the buckets found right after the buffer reads the bucket the key hashes to -/
theorem lookup_finish_append (getSliceHash : List UInt8 → UInt32) (b : DataBlockHashIndexBuilder)
    (buffer rest : List UInt8) {mapOffset : UInt32} (hoff : mapOffset.toNat = buffer.length) (key : List UInt8) :
    lookup getSliceHash ⟨b.numBucketsOf⟩ (b.finish buffer ++ rest) mapOffset key =
      b.bucketsOf[(getSliceHash key).toNat % b.numBucketsOf.toNat]? := by
  have hidx : (getSliceHash key).toNat % b.numBucketsOf.toNat < b.bucketsOf.length := by
    rw [length_bucketsOf]
    exact Nat.mod_lt _ b.numBucketsOf_pos
  unfold lookup
  rw [hoff, finish_eq, List.append_assoc, List.append_assoc, List.getElem?_append_right (Nat.le_add_right _ _),
    Nat.add_sub_cancel_left, List.getElem?_append_left hidx]

theorem lookup_finish (getSliceHash : List UInt8 → UInt32) (b : DataBlockHashIndexBuilder) (buffer : List UInt8)
    (hbuf : buffer.length < 2 ^ 16) (key : List UInt8) :
    lookup getSliceHash ⟨b.numBucketsOf⟩ (b.finish buffer) (UInt16.ofNat buffer.length).toUInt32 key =
      b.bucketsOf[(getSliceHash key).toNat % b.numBucketsOf.toNat]? := by
  have hoff : (UInt16.ofNat buffer.length).toUInt32.toNat = buffer.length := by
    rw [UInt16.toNat_toUInt32, UInt16.toNat_ofNat_of_lt' hbuf]
  simpa using lookup_finish_append getSliceHash b buffer [] hoff key

end DataBlockHashIndex

open DataBlockHashIndexBuilder in
/-- every key added with a supported restart index is found with it, or with a collision, after `Finish` and
`Initialize` -/
theorem lookup_added_key (getSliceHash : List UInt8 → UInt32) (b : DataBlockHashIndexBuilder)
    (keyRestarts : List (List UInt8 × ℕ)) (buffer : List UInt8)
    (hidx : ∀ kr ∈ keyRestarts, kr.2 ≤ kMaxRestartSupportedByHashIndex) :
    let data := (b.addAll getSliceHash keyRestarts).finish buffer
    data.length < 2 ^ 16 → ∀ index mapOffset, DataBlockHashIndex.init data (UInt16.ofNat data.length) =
      (index, mapOffset) → ∀ kr ∈ keyRestarts,
        index.lookup getSliceHash data mapOffset.toUInt32 kr.1 = some (UInt8.ofNat kr.2) ∨
          index.lookup getSliceHash data mapOffset.toUInt32 kr.1 = some kCollision := by
  intro data hsize index mapOffset hinit kr hkr
  change ((b.addAll getSliceHash keyRestarts).finish buffer).length < 2 ^ 16 at hsize
  rw [DataBlockHashIndex.init_finish _ _ hsize, Prod.mk.injEq] at hinit
  obtain ⟨rfl, rfl⟩ := hinit
  have hbuf : buffer.length < 2 ^ 16 := by
    have := length_finish (b.addAll getSliceHash keyRestarts) buffer
    omega
  -- a supported restart index is neither marker
  have hr : UInt8.ofNat kr.2 ≠ kNoEntry := by
    have hlt : kr.2 < UInt8.size := lt_of_le_of_lt (hidx kr hkr) (by decide)
    intro h
    have := congrArg UInt8.toNat h
    rw [UInt8.toNat_ofNat_of_lt' hlt] at this
    exact absurd (hidx kr hkr) (by rw [this]; decide)
  rw [DataBlockHashIndex.lookup_finish _ _ _ hbuf]
  exact holds_bucketsOf (mem_hashAndRestartPairs_addAll getSliceHash b hkr (hidx kr hkr)) hr

/-- three keys, the first two in one bucket with restart index 0, under the default utilisation ratio and the
length as the hash -/
theorem lookup_added_key_three :
    let keyRestarts := [([1], 0), ([2], 0), ([3, 4], 1)]
    let data := ((DataBlockHashIndexBuilder.create.init 0).addAll (fun k => UInt32.ofNat k.length) keyRestarts).finish
      [7]
    data.length < 2 ^ 16 ∧ (∀ kr ∈ keyRestarts, kr.2 ≤ kMaxRestartSupportedByHashIndex) ∧
      ∀ kr ∈ keyRestarts,
        (DataBlockHashIndex.init data (UInt16.ofNat data.length)).1.lookup (fun k => UInt32.ofNat k.length) data
            (DataBlockHashIndex.init data (UInt16.ofNat data.length)).2.toUInt32 kr.1 = some (UInt8.ofNat kr.2) ∨
          (DataBlockHashIndex.init data (UInt16.ofNat data.length)).1.lookup (fun k => UInt32.ofNat k.length) data
            (DataBlockHashIndex.init data (UInt16.ofNat data.length)).2.toUInt32 kr.1 = some kCollision := by
  intro keyRestarts data
  have hsize : data.length < 2 ^ 16 := by decide +kernel
  have hidx : ∀ kr ∈ keyRestarts, kr.2 ≤ kMaxRestartSupportedByHashIndex := by decide
  exact ⟨hsize, hidx, lookup_added_key _ _ keyRestarts [7] hidx hsize _ _ rfl⟩


/-! ## The hash index in a block -/

section block

variable {numRestarts : ℕ}

/-- the footer of a block with a hash index packs the number of restart points with the bit that marks the index -/
theorem packIndexTypeAndNumRestarts_binaryAndHash (hR : numRestarts < 2 ^ 31) :
    packIndexTypeAndNumRestarts .kDataBlockBinaryAndHash numRestarts = 1 * 2 ^ 31 + numRestarts := by
  have h := BitFields.mul_two_pow_or (y := 1) hR
  rw [one_mul] at h
  rw [packIndexTypeAndNumRestarts, kDataBlockIndexTypeBitShift, Nat.lor_comm, one_mul, h]

theorem footer_append_packed (hashData : List UInt8) (hR : numRestarts < 2 ^ 31) :
    Block.footer (hashData ++ encodeFixed32 (packIndexTypeAndNumRestarts .kDataBlockBinaryAndHash numRestarts)) =
      1 * 2 ^ 31 + numRestarts := by
  have hlt : 1 * 2 ^ 31 + numRestarts < 2 ^ 32 := by omega
  unfold Block.footer
  rw [List.drop_left' (by simp only [List.length_append, length_encodeFixed32]; omega),
    packIndexTypeAndNumRestarts_binaryAndHash hR, ← List.append_nil (encodeFixed32 _), decodeFixed32_encodeFixed32,
    Nat.mod_eq_of_lt hlt]

/-- a block no larger than `kMaxBlockSizeSupportedByHashIndex` whose footer marks a hash index is read as one, with
the number of restart points below the mark -/
theorem numRestartsOf_indexTypeOf_append_packed (hashData : List UInt8) (hR : numRestarts < 2 ^ 31)
    (hsize : (hashData ++ encodeFixed32 (packIndexTypeAndNumRestarts .kDataBlockBinaryAndHash numRestarts)).length ≤
      kMaxBlockSizeSupportedByHashIndex) :
    Block.numRestartsOf (hashData ++ encodeFixed32 (packIndexTypeAndNumRestarts .kDataBlockBinaryAndHash numRestarts)) =
        numRestarts ∧
      Block.indexTypeOf (hashData ++ encodeFixed32 (packIndexTypeAndNumRestarts .kDataBlockBinaryAndHash numRestarts)) =
        .kDataBlockBinaryAndHash := by
  have hfooter := footer_append_packed hashData hR
  have hfits := Nat.not_lt.mpr hsize
  constructor
  · rw [Block.numRestartsOf, if_neg hfits, hfooter, kNumRestartsMask, kDataBlockIndexTypeBitShift,
      BitFields.mul_two_pow_add_and_low hR]
  · rw [Block.indexTypeOf, if_neg hfits, hfooter, kDataBlockIndexTypeBitShift, Nat.and_two_pow, one_mul,
      Nat.testBit_two_pow_add_eq, Nat.testBit_lt_two_pow hR]
    simp

end block

open DataBlockHashIndexBuilder in
/-- a block whose entries and restart array are `buffer`, with the hash index `Finish` appends and the footer that
marks it, is read as a hash-indexed block: the restart array is found where it is, the buckets right after it, and
`Lookup` of a key added to the index returns its restart index or a collision -/
theorem createBinaryAndHash_finish (getSliceHash : List UInt8 → UInt32) (b : DataBlockHashIndexBuilder)
    (buffer : List UInt8) (numRestarts : ℕ) (hR : numRestarts < 2 ^ 31) (hrestarts : numRestarts * 4 ≤ buffer.length) :
    let data := b.finish buffer ++ encodeFixed32 (packIndexTypeAndNumRestarts .kDataBlockBinaryAndHash numRestarts)
    data.length ≤ kMaxBlockSizeSupportedByHashIndex →
      Block.indexTypeOf data = .kDataBlockBinaryAndHash ∧
      Block.createBinaryAndHash data =
        (⟨data, data.length, buffer.length - numRestarts * 4, numRestarts⟩, ⟨b.numBucketsOf⟩) ∧
      ∀ key r, (getSliceHash key, r) ∈ b.hashAndRestartPairs → r ≠ kNoEntry →
        -- `SeekForGet` finds the buckets after the restart array
        (⟨b.numBucketsOf⟩ : DataBlockHashIndex).lookup getSliceHash data
            (UInt32.ofNat (buffer.length - numRestarts * 4 + numRestarts * 4)) key = some r ∨
          (⟨b.numBucketsOf⟩ : DataBlockHashIndex).lookup getSliceHash data
            (UInt32.ofNat (buffer.length - numRestarts * 4 + numRestarts * 4)) key = some kCollision := by
  intro data hsize
  obtain ⟨hnum, hidx⟩ := numRestartsOf_indexTypeOf_append_packed (b.finish buffer) hR hsize
  have hlen : data.length = (b.finish buffer).length + 4 := by
    simp only [data, List.length_append, length_encodeFixed32]
  have hfinish := length_finish b buffer
  have hpos := b.numBucketsOf_pos
  have hhash : (b.finish buffer).length < 2 ^ 16 := by
    rw [kMaxBlockSizeSupportedByHashIndex] at hsize
    omega
  have hbuf : buffer.length < 2 ^ 32 := by omega
  refine ⟨hidx, ?_, ?_⟩
  · have hinit := DataBlockHashIndex.init_finish_append b buffer
      (encodeFixed32 (packIndexTypeAndNumRestarts .kDataBlockBinaryAndHash numRestarts)) hhash
    have hmap : (UInt16.ofNat buffer.length).toNat = buffer.length :=
      UInt16.toNat_ofNat_of_lt' (by rw [UInt16.size]; omega)
    -- the restart array ends where the buckets start
    have hoff : (((buffer.length : ℤ) - (numRestarts : ℤ) * 4) % 2 ^ 32).toNat = buffer.length - numRestarts * 4 := by
      omega
    unfold Block.createBinaryAndHash
    rw [hnum, if_neg (by omega), show data.length - 4 = (b.finish buffer).length by omega]
    simp only [data, hinit, hmap, hoff]
    rw [if_neg (by omega)]
  · intro key r hmem hr
    have hoff : (UInt32.ofNat (buffer.length - numRestarts * 4 + numRestarts * 4)).toNat = buffer.length := by
      rw [Nat.sub_add_cancel hrestarts, UInt32.toNat_ofNat_of_lt' hbuf]
    rw [DataBlockHashIndex.lookup_finish_append getSliceHash b buffer _ hoff]
    exact holds_bucketsOf hmem hr

/-- a block of one restart point with two keys added at restart index 0 -/
theorem createBinaryAndHash_finish_small :
    let b := (DataBlockHashIndexBuilder.create.init 0).addAll (fun k => UInt32.ofNat k.length) [([1], 0), ([2, 3], 0)]
    let data := b.finish [0, 0, 0, 0] ++ encodeFixed32 (packIndexTypeAndNumRestarts .kDataBlockBinaryAndHash 1)
    1 < 2 ^ 31 ∧ 1 * 4 ≤ [(0 : UInt8), 0, 0, 0].length ∧ data.length ≤ kMaxBlockSizeSupportedByHashIndex ∧
      Block.indexTypeOf data = .kDataBlockBinaryAndHash ∧
      Block.createBinaryAndHash data = (⟨data, data.length, 0, 1⟩, ⟨b.numBucketsOf⟩) := by
  intro b data
  have hsize : data.length ≤ kMaxBlockSizeSupportedByHashIndex := by decide +kernel
  obtain ⟨hidx, hcreate, -⟩ := createBinaryAndHash_finish (fun k => UInt32.ofNat k.length) b [0, 0, 0, 0] 1
    (by decide) (by decide) hsize
  exact ⟨by decide, by decide, hsize, hidx, hcreate⟩

end ForSt
