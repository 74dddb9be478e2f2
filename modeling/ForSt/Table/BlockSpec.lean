import Mathlib.Data.Nat.Bitwise
import ForSt.Table.Block
import ForSt.Table.BlockBuilderSpec
/-!
A data block read back: `Block` and `DataBlockIter` over the bytes `BlockBuilder` writes.

The reader side is proved over any run of entries that decodes (`EntriesDecode`), laid out as the builder lays it
out. `DataBlockIter.Over` says what an iterator over such a run holds: the entries' bytes in front of the restart
array, restart points that are entries starting an interval, the first at offset 0. `DataBlockIter.AtEntry` says it
is at entry `i`, with the key read back and the value in place.
- `parseNextKey_entry`: `ParseNextKey` from the end of an entry, with the key the next entry may share with, lands on
  the next entry; the one place the entry's bytes are decoded.
- `AtEntry.iterate_next`, `seekToLast_atEntry`, `AtEntry.iterate_prev`: `SeekToFirst` then `Next`, and `SeekToLast`
  then `Prev`, visit every entry in order and in reverse; `Over.readsBack` puts the runs together.
- `blockRoundTrip`: a block built from pairs and shorter than `2 ^ 32` bytes reads back every pair in order and in
  reverse, keys as persisted, status ok throughout. The restart array offset is computed in `uint32_t`, and for a
  block of `2 ^ 32 + 8` bytes it wraps to 0 (`seekToFirst_invalid_of_wrapped`).
- `create_of_fits`, `create_of_short`, `create_accepts_wrapped_restarts`: on a block shorter than `2 ^ 32` bytes,
  `Block::Block` finds the restart array in front of the footer when it fits and marks the block corrupt when it is
  longer than the block, but with `2 ^ 30` restart points or more `(1 + num_restarts_) * 4` wraps past `2 ^ 32`, and
  the block is accepted with a restart array that runs `2 ^ 32` bytes past its end.
-/

namespace ForSt

/-! ## Decoding an entry -/

/-- the bytes of a prefix of a buffer -/
theorem getD_drop_take {data : List UInt8} {limit p j : ℕ} (h : j < ((data.take limit).drop p).length) :
    ((data.take limit).drop p).getD j 0 = data.getD (p + j) 0 := by
  simp only [List.length_drop, List.length_take] at h
  simp only [List.getD_eq_getElem?_getD, List.getElem?_drop, List.getElem?_take]
  rw [if_pos (by omega)]

/-- `DecodeEntry` reads the three sizes in front of an entry that lies before `limit`: by its fast path when all three
are below 128, and by the varint decoder otherwise -/
theorem decodeEntry_putVarint32 {data : List UInt8} {p limit s n v : ℕ} {rest : List UInt8} (hs : s < 2 ^ 32)
    (hn : n < 2 ^ 32) (hv : v < 2 ^ 32)
    (h : (data.take limit).drop p = Coding.putVarint32 (UInt32.ofNat s) ++ Coding.putVarint32 (UInt32.ofNat n) ++
      Coding.putVarint32 (UInt32.ofNat v) ++ rest) :
    decodeEntry data p limit = some (s, n, v, p + (Coding.putVarint32 (UInt32.ofNat s) ++
      Coding.putVarint32 (UInt32.ofNat n) ++ Coding.putVarint32 (UInt32.ofNat v)).length) := by
  have hs' : (UInt32.ofNat s).toNat = s := by simp; omega
  have hn' : (UInt32.ofNat n).toNat = n := by simp; omega
  have hv' : (UInt32.ofNat v).toNat = v := by simp; omega
  obtain ⟨b0, r0, h0, hb0, hsmall0⟩ := Coding.putVarint32_eq_cons (UInt32.ofNat s)
  obtain ⟨b1, r1, h1, hb1, hsmall1⟩ := Coding.putVarint32_eq_cons (UInt32.ofNat n)
  obtain ⟨b2, r2, h2, hb2, hsmall2⟩ := Coding.putVarint32_eq_cons (UInt32.ofNat v)
  rw [hs'] at hb0 hsmall0
  rw [hn'] at hb1 hsmall1
  rw [hv'] at hb2 hsmall2
  -- the first byte of each size, as the fast path reads it
  have hlen3 : 3 ≤ ((data.take limit).drop p).length := by
    have := Coding.length_putVarint32_pos (UInt32.ofNat n)
    have := Coding.length_putVarint32_pos (UInt32.ofNat v)
    rw [h, h0]
    simp only [List.length_append, List.length_cons]
    omega
  have hbyte : ∀ j < 3, data.getD (p + j) 0 = ((data.take limit).drop p).getD j 0 :=
    fun j hj => (getD_drop_take (by omega)).symm
  have hd0 : (data.getD p 0).toNat = b0.toNat := by
    have := hbyte 0 (by omega)
    rw [h, h0, Nat.add_zero] at this
    simp only [List.cons_append, List.getD_cons_zero] at this
    rw [this]
  unfold decodeEntry
  dsimp only
  by_cases hfast : s < 128 ∧ n < 128 ∧ v < 128
  · obtain ⟨hs128, hn128, hv128⟩ := hfast
    obtain ⟨hb0s, rfl⟩ := hsmall0 hs128
    obtain ⟨hb1n, rfl⟩ := hsmall1 hn128
    obtain ⟨hb2v, rfl⟩ := hsmall2 hv128
    have hd1 : (data.getD (p + 1) 0).toNat = n := by
      have := hbyte 1 (by omega)
      rw [h, h0, h1, h2] at this
      simp only [List.cons_append, List.nil_append, List.getD_cons_succ, List.getD_cons_zero] at this
      rw [this, hb1n]
    have hd2 : (data.getD (p + 2) 0).toNat = v := by
      have := hbyte 2 (by omega)
      rw [h, h0, h1, h2] at this
      simp only [List.cons_append, List.nil_append, List.getD_cons_succ, List.getD_cons_zero] at this
      rw [this, hb2v]
    have hor : s ||| n ||| v < 128 :=
      Nat.or_lt_two_pow (n := 7) (Nat.or_lt_two_pow (n := 7) hs128 hn128) hv128
    rw [hd0, hb0s, hd1, hd2, if_pos hor, h0, h1, h2]
    rfl
  · -- one size takes more than a byte, and its first byte carries the bit the fast path tests
    have hslow : ¬ ((data.getD p 0).toNat ||| (data.getD (p + 1) 0).toNat ||| (data.getD (p + 2) 0).toNat < 128) := by
      intro hor
      have hlt0 : (data.getD p 0).toNat < 128 := lt_of_le_of_lt (le_trans Nat.left_le_or Nat.left_le_or) hor
      have hlt1 : (data.getD (p + 1) 0).toNat < 128 := lt_of_le_of_lt (le_trans Nat.right_le_or Nat.left_le_or) hor
      have hlt2 : (data.getD (p + 2) 0).toNat < 128 := lt_of_le_of_lt Nat.right_le_or hor
      have hs128 : s < 128 := hb0.mp (hd0 ▸ hlt0)
      obtain ⟨-, rfl⟩ := hsmall0 hs128
      have hd1 : (data.getD (p + 1) 0).toNat = b1.toNat := by
        have := hbyte 1 (by omega)
        rw [h, h0, h1] at this
        simp only [List.cons_append, List.nil_append, List.getD_cons_succ, List.getD_cons_zero] at this
        rw [this]
      have hn128 : n < 128 := hb1.mp (hd1 ▸ hlt1)
      obtain ⟨-, rfl⟩ := hsmall1 hn128
      have hd2 : (data.getD (p + 2) 0).toNat = b2.toNat := by
        have := hbyte 2 (by omega)
        rw [h, h0, h1, h2] at this
        simp only [List.cons_append, List.nil_append, List.getD_cons_succ, List.getD_cons_zero] at this
        rw [this]
      exact hfast ⟨hs128, hn128, hb2.mp (hd2 ▸ hlt2)⟩
    rw [if_neg hslow, h, List.append_assoc, List.append_assoc]
    simp only [Coding.getVarint32Ptr_putVarint32, hs', hn', hv', List.length_append, Option.some.injEq,
      Prod.mk.injEq, true_and]
    omega

/-! ## Keys with the minimum timestamp -/

section timestamps

variable {tsSz : ℕ}

@[simp] theorem maybeAddKeyPartsWithTimestamp_add (slice : List UInt8) (leftSz : ℕ) (minTimestamp parts : List UInt8) :
    maybeAddKeyPartsWithTimestamp slice true leftSz minTimestamp (parts, false) =
      (parts ++ slice.take leftSz ++ minTimestamp ++ slice.drop leftSz, true) := rfl

@[simp] theorem maybeAddKeyPartsWithTimestamp_added (slice : List UInt8) (addTimestamp : Bool) (leftSz : ℕ)
    (minTimestamp parts : List UInt8) :
    maybeAddKeyPartsWithTimestamp slice addTimestamp leftSz minTimestamp (parts, true) = (parts ++ slice, true) := by
  simp [maybeAddKeyPartsWithTimestamp]

@[simp] theorem maybeAddKeyPartsWithTimestamp_skip (slice : List UInt8) (leftSz : ℕ) (minTimestamp parts : List UInt8)
    (added : Bool) :
    maybeAddKeyPartsWithTimestamp slice false leftSz minTimestamp (parts, added) = (parts ++ slice, added) := rfl

theorem length_padInternalKeyWithMinTimestamp {key : List UInt8} (h : kNumInternalBytes ≤ key.length) :
    (padInternalKeyWithMinTimestamp key tsSz).length = key.length + tsSz := by
  simp only [padInternalKeyWithMinTimestamp, List.length_append, List.length_take, List.length_replicate,
    List.length_drop]
  omega

/-- the three calls of `MaybeAddKeyPartsWithTimestamp` splice the minimum timestamp in before the last eight bytes of
the key they rebuild, in the part where those bytes start -/
theorem maybeAddKeyPartsWithTimestamp_splice {A B D minTimestamp : List UInt8} {shared sharedInternalBytesLen : ℕ}
    (hs : shared = A.length + B.length) (hb : sharedInternalBytesLen = B.length)
    (hkey : kNumInternalBytes ≤ shared + D.length) :
    (maybeAddKeyPartsWithTimestamp D (decide (kNumInternalBytes ≤ D.length)) (D.length - kNumInternalBytes)
        minTimestamp
      (maybeAddKeyPartsWithTimestamp B (decide (D.length < kNumInternalBytes))
          (sharedInternalBytesLen + D.length - kNumInternalBytes) minTimestamp
        (maybeAddKeyPartsWithTimestamp A (decide (sharedInternalBytesLen + D.length < kNumInternalBytes))
          (shared + D.length - kNumInternalBytes) minTimestamp ([], false)))).1 =
      (A ++ B ++ D).take (shared + D.length - kNumInternalBytes) ++ minTimestamp ++
        (A ++ B ++ D).drop (shared + D.length - kNumInternalBytes) := by
  subst hs hb
  have hk : kNumInternalBytes = 8 := rfl
  by_cases h1 : B.length + D.length < kNumInternalBytes
  · -- the last eight bytes start in the user key part of the shared bytes
    rw [decide_eq_true h1, decide_eq_true (by omega : D.length < kNumInternalBytes),
      decide_eq_false (by omega : ¬ kNumInternalBytes ≤ D.length)]
    simp only [maybeAddKeyPartsWithTimestamp_add, maybeAddKeyPartsWithTimestamp_added, List.nil_append]
    rw [List.append_assoc A B D, Bytes.splice_append_left (by omega)]
    simp only [List.append_assoc]
  · by_cases h2 : D.length < kNumInternalBytes
    · -- they start in the internal bytes of the shared bytes
      rw [decide_eq_false h1, decide_eq_true h2]
      simp only [maybeAddKeyPartsWithTimestamp_skip, maybeAddKeyPartsWithTimestamp_add,
        maybeAddKeyPartsWithTimestamp_added, List.nil_append]
      have hpos : A.length + B.length + D.length - kNumInternalBytes - A.length =
          B.length + D.length - kNumInternalBytes := by omega
      rw [List.append_assoc A B D, Bytes.splice_append_right (by omega), hpos, Bytes.splice_append_left (by omega)]
      simp only [List.append_assoc]
    · -- they start in the entry's own bytes
      rw [decide_eq_false h1, decide_eq_false h2, decide_eq_true (by omega : kNumInternalBytes ≤ D.length)]
      simp only [maybeAddKeyPartsWithTimestamp_skip, maybeAddKeyPartsWithTimestamp_add, List.nil_append]
      have hpos : A.length + B.length + D.length - kNumInternalBytes - (A ++ B).length =
          D.length - kNumInternalBytes := by simp only [List.length_append]; omega
      rw [Bytes.splice_append_right (by simp; omega), hpos]
      simp only [List.append_assoc]

/-- `TrimAppendWithTimestamp` on the padded key before rebuilds the padded key: the bytes it takes from the user key
and from the eight internal bytes of the key before are the bytes the two keys share -/
theorem trimAppendWithTimestamp_pad {prev key : List UInt8} {shared : ℕ} (hprev : kNumInternalBytes ≤ prev.length)
    (hkey : kNumInternalBytes ≤ key.length) (hs : shared ≤ prev.length) (hsk : shared ≤ key.length)
    (htake : key.take shared = prev.take shared) :
    trimAppendWithTimestamp false (padInternalKeyWithMinTimestamp prev tsSz) shared (key.drop shared) tsSz =
      padInternalKeyWithMinTimestamp key tsSz := by
  have hP : (padInternalKeyWithMinTimestamp prev tsSz).length = prev.length + tsSz :=
    length_padInternalKeyWithMinTimestamp hprev
  obtain ⟨u, hu⟩ : ∃ u, u = prev.length - kNumInternalBytes := ⟨_, rfl⟩
  obtain ⟨A, hA⟩ : ∃ A, A = prev.take (min shared u) := ⟨_, rfl⟩
  obtain ⟨B, hB⟩ : ∃ B, B = (prev.drop u).take (shared - min shared u) := ⟨_, rfl⟩
  obtain ⟨D, hD⟩ : ∃ D, D = key.drop shared := ⟨_, rfl⟩
  have hsliceA : (padInternalKeyWithMinTimestamp prev tsSz).take (min shared u) = A := by
    rw [padInternalKeyWithMinTimestamp, List.append_assoc, List.take_append_of_le_length (by simp; omega),
      List.take_take, ← hu, min_eq_left (min_le_right _ _), hA]
  have hsliceB : ((padInternalKeyWithMinTimestamp prev tsSz).drop
      ((padInternalKeyWithMinTimestamp prev tsSz).length - kNumInternalBytes)).take (shared - min shared u) = B := by
    rw [hP, padInternalKeyWithMinTimestamp, List.drop_left' (by simp only [kNumInternalBytes] at hprev ⊢; simp; omega),
      hB, hu]
  have hlenA : A.length = min shared u := by
    rw [hA, List.length_take]
    omega
  have hlenB : B.length = shared - min shared u := by
    rw [hB, List.length_take, List.length_drop]
    omega
  -- the key is the bytes it shares, user key part first, then its own bytes
  have hkeyEq : key = A ++ B ++ D := by
    have hAB : A ++ B = prev.take shared := by
      rcases le_total shared u with hle | hle
      · rw [hA, hB, min_eq_left hle, Nat.sub_self, List.take_zero, List.append_nil]
      · rw [hA, hB, min_eq_right hle, ← List.take_add, Nat.add_sub_cancel' hle]
    rw [hAB, ← htake, hD, List.take_append_drop]
  have hlenD : D.length = key.length - shared := by rw [hD, List.length_drop]
  have hsharable : (padInternalKeyWithMinTimestamp prev tsSz).length - kNumInternalBytes - tsSz = u := by omega
  simp only [trimAppendWithTimestamp, Bool.false_eq_true, if_false, hsharable, hsliceA, hsliceB, ← hD]
  rw [maybeAddKeyPartsWithTimestamp_splice (by omega) hlenB.symm (by omega), ← hkeyEq,
    padInternalKeyWithMinTimestamp, show shared + D.length = key.length from by omega]

theorem length_stripTimestampFromInternalKey {key : List UInt8} (h : kNumInternalBytes + tsSz ≤ key.length) :
    (stripTimestampFromInternalKey key tsSz).length = key.length - tsSz := by
  simp only [stripTimestampFromInternalKey, List.length_append, List.length_take, List.length_drop]
  simp only [kNumInternalBytes] at h
  omega

/-- the key the builder persists without its timestamp reads back with the minimum timestamp in its place -/
theorem padInternalKeyWithMinTimestamp_strip {key : List UInt8} (h : kNumInternalBytes + tsSz ≤ key.length) :
    padInternalKeyWithMinTimestamp (stripTimestampFromInternalKey key tsSz) tsSz =
      replaceInternalKeyWithMinTimestamp key tsSz := by
  have hlen := length_stripTimestampFromInternalKey h
  have hk : key.length - tsSz - kNumInternalBytes = (key.take (key.length - 8 - tsSz)).length := by
    simp only [kNumInternalBytes] at h ⊢
    simp only [List.length_take]
    omega
  rw [padInternalKeyWithMinTimestamp, hlen, hk, stripTimestampFromInternalKey, Bytes.splice_append_left le_rfl,
    List.take_length, List.drop_length, List.append_nil]
  rfl

/-- `TrimAppendWithTimestamp` on an internal key that carries a timestamp: the first `shared` bytes of the key without
its timestamp, then the non-shared bytes, padded with the minimum timestamp before their last eight bytes -/
theorem trimAppendWithTimestamp_eq_pad {P N : List UInt8} {shared : ℕ} (hP : kNumInternalBytes + tsSz ≤ P.length)
    (hs : shared ≤ P.length - tsSz) (hkey : kNumInternalBytes ≤ shared + N.length) :
    trimAppendWithTimestamp false P shared N tsSz =
      padInternalKeyWithMinTimestamp ((stripTimestampFromInternalKey P tsSz).take shared ++ N) tsSz := by
  have hk : kNumInternalBytes = 8 := rfl
  obtain ⟨u, hu⟩ : ∃ u, u = P.length - kNumInternalBytes := ⟨_, rfl⟩
  -- the shared bytes of the user key without its timestamp, then those of the eight internal bytes
  obtain ⟨A, hA⟩ : ∃ A, A = P.take (min shared (u - tsSz)) := ⟨_, rfl⟩
  obtain ⟨B, hB⟩ : ∃ B, B = (P.drop u).take (shared - min shared (u - tsSz)) := ⟨_, rfl⟩
  have hlenA : A.length = min shared (u - tsSz) := by
    rw [hA, List.length_take]
    omega
  have hlenB : B.length = shared - min shared (u - tsSz) := by
    rw [hB, List.length_take, List.length_drop]
    omega
  have hAB : A ++ B = (stripTimestampFromInternalKey P tsSz).take shared := by
    have hcut : (P.take (P.length - 8 - tsSz)).length = u - tsSz := by
      rw [List.length_take]
      omega
    rw [stripTimestampFromInternalKey, List.take_append, List.take_take, hcut, hA, hB, hu, hk,
      show shared - min shared (P.length - 8 - tsSz) = shared - (P.length - 8 - tsSz) by omega]
  simp only [trimAppendWithTimestamp, Bool.false_eq_true, if_false, ← hu, ← hA, ← hB]
  rw [maybeAddKeyPartsWithTimestamp_splice (by omega) hlenB.symm hkey, hAB, padInternalKeyWithMinTimestamp]
  have hlen : ((stripTimestampFromInternalKey P tsSz).take shared ++ N).length - kNumInternalBytes =
      shared + N.length - kNumInternalBytes := by
    rw [List.length_append, List.length_take, length_stripTimestampFromInternalKey hP]
    omega
  rw [hlen]

/-- two bytes of user key and one byte of the footer are shared, so the timestamp goes into the new bytes -/
theorem trimAppendWithTimestamp_eq_pad_footer :
    (kNumInternalBytes + 2 ≤ [1, 2, 9, 9, 0, 0, 0, 0, 0, 0, 0, 0].length ∧
      3 ≤ [1, 2, 9, 9, 0, 0, 0, 0, 0, 0, 0, 0].length - 2 ∧ kNumInternalBytes ≤ 3 + [5, 6, 7, 8, 9, 10, 11].length) ∧
    trimAppendWithTimestamp false [1, 2, 9, 9, 0, 0, 0, 0, 0, 0, 0, 0] 3 [5, 6, 7, 8, 9, 10, 11] 2 =
      padInternalKeyWithMinTimestamp
        ((stripTimestampFromInternalKey [1, 2, 9, 9, 0, 0, 0, 0, 0, 0, 0, 0] 2).take 3 ++ [5, 6, 7, 8, 9, 10, 11]) 2 :=
  ⟨by decide, trimAppendWithTimestamp_eq_pad (by decide) (by decide) (by decide)⟩

end timestamps

/-! ## Iterators over a run of entries -/

namespace DataBlockIter

/-- the entry the iterator is on, as `PrevImpl` caches one -/
def entry (it : DataBlockIter) : CachedPrevEntry := ⟨it.current, it.rawKey, it.valueOffset, it.valueSize⟩

/-- entry `t` of `es` as the iterator reads it: where it starts, its key read back, and where its value lies -/
def entryView (it : DataBlockIter) (es : List StoredEntry) (t : ℕ) : CachedPrevEntry :=
  let e := es.getD t default
  ⟨entryOffset es t, it.updateRawKeyAndMaybePadMinTimestamp e.key,
    entryOffset es t + e.header.length + (e.key.length - e.shared), e.value.length⟩

/-- two iterators over the same block: the same data, restart array and timestamp handling -/
structure SameBlock (it it' : DataBlockIter) : Prop where
  data : it'.data = it.data
  restarts : it'.restarts = it.restarts
  numRestarts : it'.numRestarts = it.numRestarts
  tsSz : it'.tsSz = it.tsSz
  padMinTimestamp : it'.padMinTimestamp = it.padMinTimestamp

theorem SameBlock.trans {it it' it'' : DataBlockIter} (h : it.SameBlock it') (h' : it'.SameBlock it'') :
    it.SameBlock it'' :=
  ⟨h'.data.trans h.data, h'.restarts.trans h.restarts, h'.numRestarts.trans h.numRestarts, h'.tsSz.trans h.tsSz,
    h'.padMinTimestamp.trans h.padMinTimestamp⟩

theorem SameBlock.getRestartPoint {it it' : DataBlockIter} (h : it.SameBlock it') (j : ℕ) :
    it'.getRestartPoint j = it.getRestartPoint j := by
  simp only [DataBlockIter.getRestartPoint, h.data, h.restarts]

theorem SameBlock.updateRawKeyAndMaybePadMinTimestamp {it it' : DataBlockIter} (h : it.SameBlock it') :
    it'.updateRawKeyAndMaybePadMinTimestamp = it.updateRawKeyAndMaybePadMinTimestamp := by
  funext key
  simp only [DataBlockIter.updateRawKeyAndMaybePadMinTimestamp, h.tsSz, h.padMinTimestamp]

theorem SameBlock.entryView {it it' : DataBlockIter} (h : it.SameBlock it') (es : List StoredEntry) :
    it'.entryView es = it.entryView es := by
  funext t
  simp only [DataBlockIter.entryView, h.updateRawKeyAndMaybePadMinTimestamp]

/-- an iterator over the entries `es`: their bytes come first in its data and end where its restart array starts,
below `2 ^ 32`; each restart point is an entry that starts an interval, the first of them at offset 0; and every key
it pads has its eight internal bytes -/
structure Over (it : DataBlockIter) (es : List StoredEntry) : Prop where
  decode : EntriesDecode es
  data : entriesBytes es <+: it.data
  restarts : it.restarts = (entriesBytes es).length
  bound : it.restarts < 2 ^ 32
  restartPoint : ∀ j < it.numRestarts, ∃ m, ∃ h : m < es.length, es[m].restart = true ∧
    it.getRestartPoint j = entryOffset es m
  firstRestart : 0 < it.numRestarts ∧ it.getRestartPoint 0 = 0
  keys : it.padMinTimestamp = true → ∀ e ∈ es, kNumInternalBytes ≤ e.key.length

theorem Over.sameBlock {it it' : DataBlockIter} {es : List StoredEntry} (h : it.Over es) (hs : it.SameBlock it') :
    it'.Over es where
  decode := h.decode
  data := hs.data ▸ h.data
  restarts := hs.restarts ▸ h.restarts
  bound := hs.restarts ▸ h.bound
  restartPoint j hj := by
    rw [hs.getRestartPoint]
    exact h.restartPoint j (hs.numRestarts ▸ hj)
  firstRestart := by
    rw [hs.getRestartPoint, hs.numRestarts]
    exact h.firstRestart
  keys hp := h.keys (hs.padMinTimestamp ▸ hp)

/-- the iterator is at entry `i` of `es`, with its key read back, its value in place and its status ok -/
structure AtEntry (it : DataBlockIter) (es : List StoredEntry) (i : ℕ) : Prop where
  onEntries : it.Over es
  lt : i < es.length
  entry : it.entry = it.entryView es i
  restartIndex : it.restartIndex < it.numRestarts
  status : it.status = .ok

/-- the key the iterator holds is one entry `i` can be rebuilt from: entry `i` shares nothing, or the iterator holds
the key of the entry before it, read back -/
def KeyBefore (it : DataBlockIter) (es : List StoredEntry) (i : ℕ) : Prop :=
  (es.getD i default).shared = 0 ∨ ∃ j, j + 1 = i ∧ it.rawKey = (it.entryView es j).key

section reading

variable {it : DataBlockIter} {es : List StoredEntry}

theorem getD_eq_getElem {i : ℕ} (h : i < es.length) : es.getD i default = es[i] := by
  rw [List.getD_eq_getElem?_getD, List.getElem?_eq_getElem h, Option.getD_some]

theorem Over.entryOffset_lt (h : it.Over es) {i : ℕ} (hi : i < es.length) : entryOffset es i < it.restarts := by
  rw [h.restarts, ← entryOffset_length]
  exact (entryOffset_lt_iff (le_of_lt hi) le_rfl).mpr hi

theorem Over.entryOffset_lt_two_pow (h : it.Over es) {i : ℕ} (hi : i ≤ es.length) : entryOffset es i < 2 ^ 32 :=
  lt_of_le_of_lt (h.restarts ▸ entryOffset_le_length hi) h.bound

/-- the bytes the iterator reads from entry `i` on -/
theorem Over.drop_data (h : it.Over es) {i : ℕ} (hi : i < es.length) :
    ∃ rest, it.data.drop (entryOffset es i) = es[i].bytes ++ rest ∧
      (it.data.take it.restarts).drop (entryOffset es i) = es[i].bytes ++ entriesBytes (es.drop (i + 1)) := by
  obtain ⟨trailer, htr⟩ := h.data
  have hE : (it.data.take it.restarts) = entriesBytes es := by
    rw [h.restarts, ← htr, List.take_left]
  have hoff : entryOffset es i ≤ (entriesBytes es).length := entryOffset_le_length (le_of_lt hi)
  refine ⟨entriesBytes (es.drop (i + 1)) ++ trailer, ?_, ?_⟩
  · rw [← htr, List.drop_append_of_le_length hoff, drop_entriesBytes hi, List.append_assoc]
  · rw [hE, drop_entriesBytes hi]

/-- `DecodeEntry` at entry `i` reads its three sizes -/
theorem Over.decodeEntry_eq (h : it.Over es) {i : ℕ} (hi : i < es.length) :
    decodeEntry it.data (entryOffset es i) it.restarts =
      some (es[i].shared, es[i].key.length - es[i].shared, es[i].value.length,
        entryOffset es i + es[i].header.length) := by
  obtain ⟨-, -, hdroptake⟩ := h.drop_data hi
  have hkey := h.decode.key_length_le i hi
  have hshared := h.decode.shared_le i hi
  have hnext := h.entryOffset_lt_two_pow (i := i + 1) hi
  have hvalue : es[i].value.length ≤ entryOffset es (i + 1) := by
    rw [entryOffset_succ hi, es[i].length_bytes]
    omega
  have hlayout : (it.data.take it.restarts).drop (entryOffset es i) =
      es[i].header ++ (es[i].key.drop es[i].shared ++ es[i].value ++ entriesBytes (es.drop (i + 1))) := by
    rw [hdroptake, StoredEntry.bytes]
    simp only [List.append_assoc]
  rw [StoredEntry.header] at hlayout ⊢
  exact decodeEntry_putVarint32 (by omega) (by omega) (by omega) hlayout

/-- the key bytes entry `i` stores past those it shares, from where `DecodeEntry` leaves off -/
theorem Over.keyDelta (h : it.Over es) {i : ℕ} (hi : i < es.length) :
    (it.data.drop (entryOffset es i + es[i].header.length)).take (es[i].key.length - es[i].shared) =
      es[i].key.drop es[i].shared := by
  obtain ⟨rest, hdrop, -⟩ := h.drop_data hi
  rw [← List.drop_drop, hdrop, StoredEntry.bytes, List.append_assoc, List.append_assoc, List.drop_left,
    List.take_left' (by simp)]

/-! ### One entry -/

theorem sameBlock_corruptionError (it : DataBlockIter) (msg : String) : it.SameBlock (it.corruptionError msg) :=
  ⟨rfl, rfl, rfl, rfl, rfl⟩

theorem sameBlock_parseNextKey (it : DataBlockIter) : it.SameBlock it.parseNextKey.1 := by
  unfold parseNextKey
  dsimp only
  split
  · exact ⟨rfl, rfl, rfl, rfl, rfl⟩
  · split
    · exact sameBlock_corruptionError _ _
    · split
      · exact sameBlock_corruptionError _ _
      · split <;> exact ⟨rfl, rfl, rfl, rfl, rfl⟩

theorem advanceRestartIndex_lt (it : DataBlockIter) :
    ∀ (fuel index : ℕ), index < it.numRestarts → it.advanceRestartIndex fuel index < it.numRestarts
  | 0, _, h => h
  | fuel + 1, index, h => by
    rw [advanceRestartIndex]
    split
    · exact advanceRestartIndex_lt it fuel (index + 1) (by omega)
    · exact h

theorem length_le_updateRawKeyAndMaybePadMinTimestamp (it : DataBlockIter) (key : List UInt8) :
    key.length ≤ (it.updateRawKeyAndMaybePadMinTimestamp key).length := by
  unfold updateRawKeyAndMaybePadMinTimestamp padInternalKeyWithMinTimestamp
  split
  · simp only [List.length_append, List.length_take, List.length_replicate, List.length_drop]
    omega
  · exact le_rfl

/-- the key `ParseNextKey` rebuilds for an entry from the key before it, read back -/
theorem rebuiltKey_eq (it : DataBlockIter) {e' e : StoredEntry} (hshares : SharesWith e' e)
    (hpad : it.padMinTimestamp = true → kNumInternalBytes ≤ e'.key.length ∧ kNumInternalBytes ≤ e.key.length) :
    (if it.padMinTimestamp then
        trimAppendWithTimestamp false (it.updateRawKeyAndMaybePadMinTimestamp e'.key) e.shared
          (e.key.drop e.shared) it.tsSz
      else (it.updateRawKeyAndMaybePadMinTimestamp e'.key).take e.shared ++ e.key.drop e.shared) =
      it.updateRawKeyAndMaybePadMinTimestamp e.key := by
  obtain ⟨hle, hle', htake⟩ := hshares
  cases hp : it.padMinTimestamp
  · simp only [updateRawKeyAndMaybePadMinTimestamp, hp, Bool.false_eq_true, if_false]
    rw [← htake, List.take_append_drop]
  · obtain ⟨h1, h2⟩ := hpad hp
    simp only [updateRawKeyAndMaybePadMinTimestamp, hp, if_true]
    exact trimAppendWithTimestamp_pad h1 h2 hle hle' htake

/-- the step lemma of every walk over the entries: `ParseNextKey` from the end of an entry, holding a key the next
entry can be rebuilt from, decodes that entry -/
theorem parseNextKey_entry (hover : it.Over es) {i : ℕ} (hi : i < es.length)
    (hnext : it.nextEntryOffset = entryOffset es i) (hkey : it.KeyBefore es i) (hstatus : it.status = .ok)
    (hri : it.restartIndex < it.numRestarts) :
    it.parseNextKey.2 = true ∧ it.parseNextKey.1.AtEntry es i ∧ it.parseNextKey.1.prevEntries = it.prevEntries ∧
      it.parseNextKey.1.prevEntriesIdx = it.prevEntriesIdx := by
  have hdelta := hover.keyDelta hi
  -- the key the entry is rebuilt from is at least as long as what it shares
  have hlen : ¬ it.rawKey.length < es[i].shared := by
    rcases hkey with h0 | ⟨j, rfl, hraw⟩
    · rw [getD_eq_getElem hi] at h0
      omega
    · have := (hover.decode.chain.getElem j hi).1
      have := length_le_updateRawKeyAndMaybePadMinTimestamp it es[j].key
      simp only [hraw, DataBlockIter.entryView, getD_eq_getElem (Nat.lt_of_succ_lt hi)]
      omega
  have hpad : ∀ {j} (hj : j + 1 = i), it.padMinTimestamp = true →
      kNumInternalBytes ≤ es[j].key.length ∧ kNumInternalBytes ≤ es[i].key.length := by
    intro j hj hp
    exact ⟨hover.keys hp _ (List.getElem_mem _), hover.keys hp _ (List.getElem_mem _)⟩
  obtain ⟨it', hres, hentry, hri', hprev, hidx, hst⟩ : ∃ it', it.parseNextKey = (it', true) ∧
      it'.entry = it.entryView es i ∧ it'.restartIndex < it.numRestarts ∧ it'.prevEntries = it.prevEntries ∧
      it'.prevEntriesIdx = it.prevEntriesIdx ∧ it'.status = it.status := by
    unfold parseNextKey
    dsimp only
    rw [hnext, if_neg (not_le.mpr (hover.entryOffset_lt hi)), hover.decodeEntry_eq hi]
    dsimp only
    rw [if_neg hlen, hdelta]
    by_cases hs0 : es[i].shared = 0
    · -- an entry that shares nothing is its own key, and may start a new restart interval
      simp only [hs0, if_true]
      refine ⟨_, rfl, ?_, advanceRestartIndex_lt _ _ _ hri, rfl, rfl, rfl⟩
      simp only [entry, entryView, getD_eq_getElem hi, updateRawKeyAndMaybePadMinTimestamp, hs0, List.drop_zero,
        Nat.sub_zero]
    · obtain ⟨j, rfl, hraw⟩ := hkey.resolve_left (by rwa [getD_eq_getElem hi])
      simp only [hs0, if_false]
      refine ⟨_, rfl, ?_, hri, rfl, rfl, rfl⟩
      simp only [entry, entryView, getD_eq_getElem hi]
      rw [hraw, entryView, getD_eq_getElem (Nat.lt_of_succ_lt hi)]
      dsimp only
      rw [rebuiltKey_eq it (hover.decode.chain.getElem j hi) (hpad rfl)]
  have hsame := sameBlock_parseNextKey it
  rw [hres] at hsame ⊢
  exact ⟨rfl, ⟨hover.sameBlock hsame, hi, by rw [hentry, hsame.entryView], hsame.numRestarts ▸ hri',
    hst.trans hstatus⟩, hprev, hidx⟩

/-! ### At an entry -/

section atEntry

variable {i : ℕ}

/-- what the iterator holds at entry `i`, field by field -/
theorem AtEntry.fields (h : it.AtEntry es i) :
    it.current = entryOffset es i ∧ it.rawKey = it.updateRawKeyAndMaybePadMinTimestamp (es.get ⟨i, h.lt⟩).key ∧
      it.valueOffset = entryOffset es i + (es.get ⟨i, h.lt⟩).header.length +
        ((es.get ⟨i, h.lt⟩).key.length - (es.get ⟨i, h.lt⟩).shared) ∧
      it.valueSize = (es.get ⟨i, h.lt⟩).value.length := by
  have hentry := h.entry
  simp only [DataBlockIter.entry, entryView, getD_eq_getElem h.lt, CachedPrevEntry.mk.injEq] at hentry
  simpa using hentry

theorem AtEntry.nextEntryOffset_eq (h : it.AtEntry es i) : it.nextEntryOffset = entryOffset es (i + 1) := by
  obtain ⟨-, -, hvo, hvs⟩ := h.fields
  have hbound := h.onEntries.entryOffset_lt_two_pow (i := i + 1) h.lt
  have hsucc := entryOffset_succ h.lt
  rw [StoredEntry.length_bytes] at hsucc
  simp only [List.get_eq_getElem] at hvo hvs
  rw [nextEntryOffset, hvo, hvs, Nat.mod_eq_of_lt (by omega)]
  omega

theorem AtEntry.valid_eq (h : it.AtEntry es i) : it.valid = true := by
  rw [valid, h.fields.1, decide_eq_true_iff]
  exact h.onEntries.entryOffset_lt h.lt

theorem AtEntry.key_eq (h : it.AtEntry es i) : it.key = it.updateRawKeyAndMaybePadMinTimestamp (es.get ⟨i, h.lt⟩).key :=
  h.fields.2.1

theorem AtEntry.value_eq (h : it.AtEntry es i) : it.value = (es.get ⟨i, h.lt⟩).value := by
  obtain ⟨rest, hdrop, -⟩ := h.onEntries.drop_data h.lt
  obtain ⟨-, -, hvo, hvs⟩ := h.fields
  rw [value, hvo, hvs, ← List.drop_drop, ← List.drop_drop, List.get_eq_getElem, hdrop, StoredEntry.bytes,
    List.append_assoc, List.append_assoc, List.drop_left, List.drop_left' (by simp), List.take_left]

/-- the next entry can be rebuilt from the key of this one -/
theorem AtEntry.keyBefore_succ (h : it.AtEntry es i) : it.KeyBefore es (i + 1) :=
  .inr ⟨i, rfl, congrArg CachedPrevEntry.key h.entry⟩

/-- the cache of `PrevImpl` plays no part in being at an entry -/
theorem AtEntry.setCache (h : it.AtEntry es i) (cache : List CachedPrevEntry) (idx : Int) :
    ({ it with prevEntries := cache, prevEntriesIdx := idx } : DataBlockIter).AtEntry es i :=
  ⟨h.onEntries.sameBlock ⟨rfl, rfl, rfl, rfl, rfl⟩, h.lt, h.entry, h.restartIndex, h.status⟩

end atEntry

/-! ### Forward -/

theorem Over.length_pos (h : it.Over es) : 0 < es.length := by
  obtain ⟨m, hm, -⟩ := h.restartPoint 0 h.firstRestart.1
  omega

/-- after `SeekToRestartPoint` to a restart point, the next entry parsed is that restart point's entry, which
shares nothing -/
theorem Over.seekToRestartPoint (h : it.Over es) {j : ℕ} (hj : j < it.numRestarts) :
    ∃ m, m < es.length ∧ it.getRestartPoint j = entryOffset es m ∧
      (it.seekToRestartPoint j).nextEntryOffset = entryOffset es m ∧ (it.seekToRestartPoint j).KeyBefore es m := by
  obtain ⟨m, hm, hrestart, hpoint⟩ := h.restartPoint j hj
  refine ⟨m, hm, hpoint, ?_, .inl ?_⟩
  · rw [nextEntryOffset]
    simp only [DataBlockIter.seekToRestartPoint, Nat.add_zero, hpoint]
    exact Nat.mod_eq_of_lt (h.entryOffset_lt_two_pow (le_of_lt hm))
  · rw [getD_eq_getElem hm]
    exact h.decode.restart _ (List.getElem_mem hm) hrestart

theorem sameBlock_seekToRestartPoint (it : DataBlockIter) (j : ℕ) : it.SameBlock (it.seekToRestartPoint j) :=
  ⟨rfl, rfl, rfl, rfl, rfl⟩

/-- `SeekToFirst` lands on the first entry -/
theorem seekToFirst_atEntry (hover : it.Over es) (hinit : it.initialized = true) (hstatus : it.status = .ok) :
    it.seekToFirst.AtEntry es 0 := by
  obtain ⟨m, hm, -, hnext, hkey⟩ := hover.seekToRestartPoint hover.firstRestart.1
  have hm0 : m = 0 := by
    have hzero : (it.seekToRestartPoint 0).nextEntryOffset = 0 := by
      rw [nextEntryOffset]
      simp [DataBlockIter.seekToRestartPoint, hover.firstRestart.2]
    rw [hnext, ← entryOffset_zero es] at hzero
    exact entryOffset_injective (le_of_lt hm) (Nat.zero_le _) hzero
  subst hm0
  rw [seekToFirst, if_pos hinit]
  exact (parseNextKey_entry (hover.sameBlock (sameBlock_seekToRestartPoint it 0)) hm hnext hkey hstatus
    hover.firstRestart.1).2.1

/-- `Next` from an entry that is not the last lands on the next -/
theorem AtEntry.next {i : ℕ} (h : it.AtEntry es i) (hi : i + 1 < es.length) :
    it.next.AtEntry es (i + 1) :=
  (parseNextKey_entry h.onEntries hi h.nextEntryOffset_eq h.keyBefore_succ h.status h.restartIndex).2.1

/-- past the end of the entries, `ParseNextKey` leaves the iterator invalid and its status as it was -/
theorem parseNextKey_end (hover : it.Over es) (hnext : it.nextEntryOffset = (entriesBytes es).length) :
    it.parseNextKey.1.valid = false ∧ it.parseNextKey.1.status = it.status := by
  unfold parseNextKey
  dsimp only
  rw [hnext, if_pos (le_of_eq hover.restarts)]
  simp [valid]

/-- `Next` from the last entry leaves the iterator invalid, with its status ok -/
theorem AtEntry.next_last {i : ℕ} (h : it.AtEntry es i) (hi : i + 1 = es.length) :
    it.next.valid = false ∧ it.next.status = .ok := by
  have hend := parseNextKey_end h.onEntries (by rw [h.nextEntryOffset_eq, hi, entryOffset_length])
  exact ⟨hend.1, hend.2.trans h.status⟩

/-- the forward run: from the first entry, `Next` visits every entry in order -/
theorem AtEntry.iterate_next (h : it.AtEntry es 0) :
    ∀ i, i < es.length → (DataBlockIter.next^[i] it).AtEntry es i
  | 0, _ => h
  | i + 1, hi => by
    rw [Function.iterate_succ_apply']
    exact (h.iterate_next i (by omega)).next hi

/-- and past the last entry it leaves the iterator invalid, with its status ok -/
theorem AtEntry.iterate_next_end (h : it.AtEntry es 0) :
    (DataBlockIter.next^[es.length] it).valid = false ∧ (DataBlockIter.next^[es.length] it).status = .ok := by
  obtain ⟨n, hn⟩ : ∃ n, es.length = n + 1 := ⟨es.length - 1, by have := h.lt; omega⟩
  rw [hn, Function.iterate_succ_apply']
  exact (h.iterate_next n (by omega)).next_last hn.symm

/-! ### Backward -/

theorem Over.length_le_data (h : it.Over es) : es.length ≤ it.data.length := by
  obtain ⟨trailer, htr⟩ := h.data
  have : es.length ≤ entryOffset es es.length := le_entryOffset le_rfl
  rw [entryOffset_length] at this
  rw [← htr, List.length_append]
  omega

/-- the loop of `SeekToLast` parses entries from one it can rebuild on to the last -/
theorem seekToLastLoop_atEntry :
    ∀ (fuel : ℕ) (st : DataBlockIter) (t : ℕ), st.Over es → t < es.length → st.nextEntryOffset = entryOffset es t →
      st.KeyBefore es t → st.status = .ok → st.restartIndex < st.numRestarts → es.length - t ≤ fuel →
      (seekToLastLoop fuel st).AtEntry es (es.length - 1) ∧
        (seekToLastLoop fuel st).prevEntries = st.prevEntries ∧
        (seekToLastLoop fuel st).prevEntriesIdx = st.prevEntriesIdx
  | 0, _, t, _, ht, _, _, _, _, hfuel => by omega
  | fuel + 1, st, t, hover, ht, hnext, hkey, hstatus, hri, hfuel => by
    obtain ⟨hparsed, hat, hprev, hidx⟩ := parseNextKey_entry hover ht hnext hkey hstatus hri
    rw [seekToLastLoop]
    by_cases hlast : t + 1 < es.length
    · -- another entry follows before the restart array
      have hmore : st.parseNextKey.1.nextEntryOffset < st.parseNextKey.1.restarts := by
        rw [hat.nextEntryOffset_eq]
        exact hat.onEntries.entryOffset_lt hlast
      rw [if_pos ⟨hparsed, hmore⟩]
      obtain ⟨h1, h2, h3⟩ := seekToLastLoop_atEntry fuel st.parseNextKey.1 (t + 1) hat.onEntries hlast
        hat.nextEntryOffset_eq hat.keyBefore_succ hat.status hat.restartIndex (by omega)
      exact ⟨h1, h2.trans hprev, h3.trans hidx⟩
    · have hend : ¬ st.parseNextKey.1.nextEntryOffset < st.parseNextKey.1.restarts := by
        rw [hat.nextEntryOffset_eq, hat.onEntries.restarts, show t + 1 = es.length from by omega,
          entryOffset_length]
        exact lt_irrefl _
      rw [if_neg (fun h => hend h.2), show es.length - 1 = t from by omega]
      exact ⟨hat, hprev, hidx⟩

/-- `SeekToLast` lands on the last entry, and leaves the cache of `PrevImpl` as it was -/
theorem seekToLast_atEntry (hover : it.Over es) (hinit : it.initialized = true) (hstatus : it.status = .ok) :
    it.seekToLast.AtEntry es (es.length - 1) ∧ it.seekToLast.prevEntries = it.prevEntries ∧
      it.seekToLast.prevEntriesIdx = it.prevEntriesIdx := by
  have hlast : it.numRestarts - 1 < it.numRestarts := by have := hover.firstRestart.1; omega
  obtain ⟨m, hm, -, hnext, hkey⟩ := hover.seekToRestartPoint hlast
  have hlen := hover.length_le_data
  rw [seekToLast, if_pos hinit]
  exact seekToLastLoop_atEntry _ _ m (hover.sameBlock (sameBlock_seekToRestartPoint it _)) hm hnext hkey hstatus
    hlast (by omega)

/-- the loop of `PrevImpl` over the restart points finds one before `original` when the first restart point is -/
theorem restartBefore_some (it : DataBlockIter) (original : ℕ) (h0 : it.getRestartPoint 0 < original) :
    ∀ index, ∃ j ≤ index, it.restartBefore original index = some j ∧ it.getRestartPoint j < original
  | 0 => ⟨0, le_rfl, by rw [restartBefore, if_neg (not_le.mpr h0)], h0⟩
  | index + 1 => by
    rw [restartBefore]
    split
    · obtain ⟨j, hj, hres, hlt⟩ := restartBefore_some it original h0 index
      exact ⟨j, by omega, hres, hlt⟩
    · exact ⟨index + 1, le_rfl, rfl, by omega⟩

/-- and finds none before offset 0 -/
theorem restartBefore_zero (it : DataBlockIter) : ∀ index, it.restartBefore 0 index = none
  | 0 => by rw [restartBefore, if_pos (Nat.zero_le _)]
  | index + 1 => by rw [restartBefore, if_pos (Nat.zero_le _)]; exact restartBefore_zero it index

/-- the scan of `PrevImpl` from a restart point parses and caches every entry up to the one before `original` -/
theorem prevScanLoop_atEntry {m i : ℕ} (hi : i < es.length) :
    ∀ (fuel : ℕ) (st : DataBlockIter) (t : ℕ), st.Over es → m ≤ t → t ≤ i →
      st.nextEntryOffset = entryOffset es t → st.KeyBefore es t → st.status = .ok →
      st.restartIndex < st.numRestarts → st.prevEntries = (List.range' m (t - m)).map (st.entryView es) →
      i + 1 - t ≤ fuel →
      (prevScanLoop (entryOffset es (i + 1)) fuel st).AtEntry es i ∧
        st.SameBlock (prevScanLoop (entryOffset es (i + 1)) fuel st) ∧
        (prevScanLoop (entryOffset es (i + 1)) fuel st).prevEntries =
          (List.range' m (i + 1 - m)).map (st.entryView es)
  | 0, _, t, _, _, hti, _, _, _, _, _, hfuel => by omega
  | fuel + 1, st, t, hover, hmt, hti, hnext, hkey, hstatus, hri, hcache, hfuel => by
    obtain ⟨hparsed, hat, hprev, -⟩ := parseNextKey_entry hover (by omega) hnext hkey hstatus hri
    -- the entry just parsed joins the cache
    have hat' := hat.setCache (st.parseNextKey.1.prevEntries ++ [st.parseNextKey.1.entry])
      st.parseNextKey.1.prevEntriesIdx
    have hsame : st.SameBlock ({ st.parseNextKey.1 with
        prevEntries := st.parseNextKey.1.prevEntries ++ [st.parseNextKey.1.entry] } : DataBlockIter) :=
      (sameBlock_parseNextKey st).trans ⟨rfl, rfl, rfl, rfl, rfl⟩
    have hcache' : st.parseNextKey.1.prevEntries ++ [st.parseNextKey.1.entry] =
        (List.range' m (t + 1 - m)).map (st.entryView es) := by
      rw [hprev, hcache, hat.entry, (sameBlock_parseNextKey st).entryView, show t + 1 - m = (t - m) + 1 from by omega,
        List.range'_concat, List.map_append, List.map_singleton, Nat.one_mul, Nat.add_sub_cancel' hmt]
    rw [prevScanLoop, if_pos hparsed]
    dsimp only
    split
    · -- the entry ends before `original`: the scan goes on from the next
      rename_i hlt
      have hlt' : entryOffset es (t + 1) < entryOffset es (i + 1) := by
        rw [← hat'.nextEntryOffset_eq]
        exact hlt
      have hti' : t < i := by
        have := (entryOffset_lt_iff (i := t + 1) (j := i + 1) (by omega) (by omega)).mp hlt'
        omega
      obtain ⟨h1, h2, h3⟩ := prevScanLoop_atEntry (m := m) hi fuel _ (t + 1) hat'.onEntries (by omega) hti'
        hat'.nextEntryOffset_eq hat'.keyBefore_succ hat'.status hat'.restartIndex
        (by rw [hsame.entryView]; exact hcache') (by omega)
      exact ⟨h1, hsame.trans h2, h3.trans (by rw [hsame.entryView])⟩
    · -- it ends at `original`: it is the entry before
      rename_i hge
      have hti' : t = i := by
        by_contra hne
        exact hge (lt_of_eq_of_lt hat'.nextEntryOffset_eq
          ((entryOffset_lt_iff (i := t + 1) (j := i + 1) (by omega) (by omega)).mpr (by omega)))
      subst hti'
      exact ⟨hat', hsame, hcache'⟩

/-- the cache of `PrevImpl`: the entries from some `c` on, read back, with an index below their number -/
structure CacheOk (it : DataBlockIter) (es : List StoredEntry) : Prop where
  entries : ∃ c, c + it.prevEntries.length ≤ es.length ∧
    it.prevEntries = (List.range' c it.prevEntries.length).map (it.entryView es)
  idx : it.prevEntriesIdx < it.prevEntries.length

theorem cacheOk_empty (h : it.prevEntries = []) (hidx : it.prevEntriesIdx = -1) : it.CacheOk es :=
  ⟨⟨0, by simp [h], by simp [h]⟩, by simp [h, hidx]⟩

theorem getD_map_range' {α : Type} (f : ℕ → α) (d : α) {c L k : ℕ} (hk : k < L) :
    ((List.range' c L).map f).getD k d = f (c + k) := by
  simp [List.getD_eq_getElem?_getD, hk]

/-- the cached entry at index `k`, read back -/
theorem cache_getD_eq {c k : ℕ} (hcache : it.prevEntries =
      (List.range' c it.prevEntries.length).map (it.entryView es)) (hk : k < it.prevEntries.length) :
    it.prevEntries.getD k default = it.entryView es (c + k) := by
  rw [hcache, getD_map_range' _ _ (by simpa using hk)]

/-- the scan of `PrevImpl` leaves the cache holding the entries from its restart point to the current one, and its
index on the last of them -/
theorem AtEntry.cacheOk_of_scan {i m : ℕ} (h : it.AtEntry es i) (hmi : m ≤ i)
    (hcache : it.prevEntries = (List.range' m (i + 1 - m)).map (it.entryView es)) :
    ({ it with prevEntriesIdx := (it.prevEntries.length : Int) - 1 } : DataBlockIter).AtEntry es i ∧
      ({ it with prevEntriesIdx := (it.prevEntries.length : Int) - 1 } : DataBlockIter).CacheOk es := by
  have hlen : it.prevEntries.length = i + 1 - m := by rw [hcache, List.length_map, List.length_range']
  have hsame : it.SameBlock ({ it with prevEntriesIdx := (it.prevEntries.length : Int) - 1 } : DataBlockIter) :=
    ⟨rfl, rfl, rfl, rfl, rfl⟩
  refine ⟨h.setCache _ _, ⟨⟨m, ?_, ?_⟩, ?_⟩⟩
  · show m + it.prevEntries.length ≤ es.length
    have := h.lt
    omega
  · rw [hsame.entryView]
    show it.prevEntries = (List.range' m it.prevEntries.length).map (it.entryView es)
    rw [hlen]
    exact hcache
  · dsimp only
    omega

/-- `Prev` from entry `i + 1` lands on entry `i`: through the cache when it holds the entry, by a scan from a restart
point before it otherwise -/
theorem AtEntry.prev {i : ℕ} (h : it.AtEntry es (i + 1)) (hc : it.CacheOk es) :
    it.prev.AtEntry es i ∧ it.prev.CacheOk es := by
  obtain ⟨c, hcN, hcache⟩ := hc.entries
  have hcur := h.fields.1
  unfold DataBlockIter.prev
  split
  · -- the cache holds the entry at the current offset, so the entry before it is cached too
    rename_i hhit
    obtain ⟨hpos, hoff⟩ := hhit
    have hidx := hc.idx
    have hk : it.prevEntriesIdx.toNat < it.prevEntries.length := by omega
    rw [cache_getD_eq hcache hk, hcur] at hoff
    have hci : c + it.prevEntriesIdx.toNat = i + 1 :=
      entryOffset_injective (by omega) (by have := h.lt; omega) hoff
    have hprev : it.prevEntries.getD (it.prevEntriesIdx - 1).toNat default = it.entryView es i := by
      rw [cache_getD_eq hcache (by omega)]
      congr 1
      omega
    rw [hprev]
    have hsame : it.SameBlock ({ it with
        prevEntriesIdx := it.prevEntriesIdx - 1, current := (it.entryView es i).offset
        rawKey := (it.entryView es i).key, valueOffset := (it.entryView es i).valueOffset
        valueSize := (it.entryView es i).valueSize } : DataBlockIter) := ⟨rfl, rfl, rfl, rfl, rfl⟩
    refine ⟨⟨h.onEntries.sameBlock hsame, by have := h.lt; omega, ?_, h.restartIndex, h.status⟩,
      ⟨⟨c, hcN, by rw [hsame.entryView]; exact hcache⟩, by dsimp only; omega⟩⟩
    rw [hsame.entryView]
    rfl
  · -- a scan from the last restart point before the current entry
    have hover := h.onEntries
    have hsame1 : it.SameBlock ({ it with prevEntriesIdx := -1, prevEntries := [] } : DataBlockIter) :=
      ⟨rfl, rfl, rfl, rfl, rfl⟩
    have hover1 := hover.sameBlock hsame1
    have h0 : ({ it with prevEntriesIdx := -1, prevEntries := [] } : DataBlockIter).getRestartPoint 0 < it.current := by
      rw [hsame1.getRestartPoint, hover.firstRestart.2, hcur, ← entryOffset_zero es]
      exact (entryOffset_lt_iff (i := 0) (j := i + 1) (Nat.zero_le _) (le_of_lt h.lt)).mpr (Nat.succ_pos i)
    obtain ⟨j, hj, hres, hlt⟩ := restartBefore_some _ _ h0 it.restartIndex
    dsimp only
    rw [hres]
    dsimp only
    have hjR : j < ({ it with prevEntriesIdx := -1, prevEntries := [] } : DataBlockIter).numRestarts :=
      lt_of_le_of_lt hj h.restartIndex
    obtain ⟨m, hm, hpoint, hnext, hkey⟩ := hover1.seekToRestartPoint hjR
    have hmi : m ≤ i := by
      rw [hpoint, hcur] at hlt
      have := (entryOffset_lt_iff (i := m) (j := i + 1) (le_of_lt hm) (le_of_lt h.lt)).mp hlt
      omega
    have hfuel := hover.length_le_data
    rw [show prevScanLoop it.current = prevScanLoop (entryOffset es (i + 1)) from congrArg prevScanLoop hcur]
    obtain ⟨h1, h2, h3⟩ := prevScanLoop_atEntry (m := m) (by have := h.lt; omega) it.data.length _ m
      (hover1.sameBlock (sameBlock_seekToRestartPoint _ j)) le_rfl hmi hnext hkey h.status hjR
      (by simp [DataBlockIter.seekToRestartPoint])
      (by have := h.lt; omega)
    exact h1.cacheOk_of_scan hmi (h3.trans (by rw [h2.entryView]))

/-- `Prev` from the first entry leaves the iterator invalid, with its status ok -/
theorem AtEntry.prev_first (h : it.AtEntry es 0) (hc : it.CacheOk es) :
    it.prev.valid = false ∧ it.prev.status = .ok := by
  obtain ⟨c, hcN, hcache⟩ := hc.entries
  have hcur := h.fields.1
  rw [entryOffset_zero] at hcur
  unfold DataBlockIter.prev
  split
  · -- no cached entry with one before it sits at offset 0
    rename_i hhit
    obtain ⟨hpos, hoff⟩ := hhit
    have hidx := hc.idx
    have hk : it.prevEntriesIdx.toNat < it.prevEntries.length := by omega
    rw [cache_getD_eq hcache hk, hcur] at hoff
    have := entryOffset_injective (i := c + it.prevEntriesIdx.toNat) (j := 0) (by omega) (Nat.zero_le _)
      (hoff.trans (entryOffset_zero es).symm)
    omega
  · dsimp only
    rw [hcur, restartBefore_zero]
    simp [valid, h.status]

/-- the backward run: from entry `n`, `Prev` visits the entries before it in reverse -/
theorem AtEntry.iterate_prev {n : ℕ} (h : it.AtEntry es n) (hc : it.CacheOk es) :
    ∀ k, k ≤ n → (DataBlockIter.prev^[k] it).AtEntry es (n - k) ∧ (DataBlockIter.prev^[k] it).CacheOk es
  | 0, _ => ⟨h, hc⟩
  | k + 1, hk => by
    obtain ⟨h1, h2⟩ := h.iterate_prev hc k (by omega)
    rw [show n - k = n - (k + 1) + 1 from by omega] at h1
    rw [Function.iterate_succ_apply']
    exact h1.prev h2

/-- and past the first entry it leaves the iterator invalid, with its status ok -/
theorem AtEntry.iterate_prev_end {n : ℕ} (h : it.AtEntry es n) (hc : it.CacheOk es) :
    (DataBlockIter.prev^[n + 1] it).valid = false ∧ (DataBlockIter.prev^[n + 1] it).status = .ok := by
  obtain ⟨h1, h2⟩ := h.iterate_prev hc n le_rfl
  rw [Nat.sub_self] at h1
  rw [Function.iterate_succ_apply']
  exact h1.prev_first h2

end reading

/-! ### Frames: no call changes the block an iterator reads -/

theorem SameBlock.rfl' (it : DataBlockIter) : it.SameBlock it := ⟨rfl, rfl, rfl, rfl, rfl⟩

theorem sameBlock_next (it : DataBlockIter) : it.SameBlock it.next := sameBlock_parseNextKey it

theorem sameBlock_seekToFirst (it : DataBlockIter) : it.SameBlock it.seekToFirst := by
  unfold seekToFirst
  split
  · exact (sameBlock_seekToRestartPoint it 0).trans (sameBlock_parseNextKey _)
  · exact SameBlock.rfl' it

theorem sameBlock_seekToLastLoop : ∀ (fuel : ℕ) (it : DataBlockIter), it.SameBlock (seekToLastLoop fuel it)
  | 0, it => SameBlock.rfl' it
  | fuel + 1, it => by
    rw [seekToLastLoop]
    split
    · exact (sameBlock_parseNextKey it).trans (sameBlock_seekToLastLoop fuel _)
    · exact sameBlock_parseNextKey it

theorem sameBlock_seekToLast (it : DataBlockIter) : it.SameBlock it.seekToLast := by
  unfold seekToLast
  split
  · exact (sameBlock_seekToRestartPoint it _).trans (sameBlock_seekToLastLoop _ _)
  · exact SameBlock.rfl' it

theorem sameBlock_prevScanLoop (original : ℕ) :
    ∀ (fuel : ℕ) (it : DataBlockIter), it.SameBlock (prevScanLoop original fuel it)
  | 0, it => SameBlock.rfl' it
  | fuel + 1, it => by
    rw [prevScanLoop]
    split
    · dsimp only
      refine (sameBlock_parseNextKey it).trans ?_
      split
      · refine SameBlock.trans ?_ (sameBlock_prevScanLoop original fuel _)
        exact ⟨rfl, rfl, rfl, rfl, rfl⟩
      · exact ⟨rfl, rfl, rfl, rfl, rfl⟩
    · exact sameBlock_parseNextKey it

theorem sameBlock_prev (it : DataBlockIter) : it.SameBlock it.prev := by
  unfold DataBlockIter.prev
  split
  · exact ⟨rfl, rfl, rfl, rfl, rfl⟩
  · dsimp only
    split
    · exact ⟨rfl, rfl, rfl, rfl, rfl⟩
    · rename_i index _
      have hclear : it.SameBlock ({ it with prevEntriesIdx := -1, prevEntries := [] } : DataBlockIter) :=
        ⟨rfl, rfl, rfl, rfl, rfl⟩
      have hscan := hclear.trans ((sameBlock_seekToRestartPoint _ index).trans
        (sameBlock_prevScanLoop it.current it.data.length _))
      exact hscan.trans ⟨rfl, rfl, rfl, rfl, rfl⟩

theorem sameBlock_iterate {f : DataBlockIter → DataBlockIter} (hf : ∀ it : DataBlockIter, it.SameBlock (f it)) :
    ∀ (n : ℕ) (it : DataBlockIter), it.SameBlock (f^[n] it)
  | 0, it => SameBlock.rfl' it
  | n + 1, it => by
    rw [Function.iterate_succ_apply']
    exact (sameBlock_iterate hf n it).trans (hf _)


/-! ## Reading the entries back -/

/-- the iterator is valid on the key and value `kv`, with its status ok -/
def OnPair (it : DataBlockIter) (kv : List UInt8 × List UInt8) : Prop :=
  it.valid = true ∧ it.key = kv.1 ∧ it.value = kv.2 ∧ it.status = .ok

/-- the iterator has run off the entries, with its status ok -/
def Exhausted (it : DataBlockIter) : Prop := it.valid = false ∧ it.status = .ok

/-- the iterator reads back the pairs `kvs`: after `SeekToFirst`, `Next` visits them in order and then runs off the
end; after `SeekToLast`, `Prev` visits them in reverse and then runs off the start -/
structure ReadsBack (it : DataBlockIter) (kvs : List (List UInt8 × List UInt8)) : Prop where
  forward : ∀ i (hi : i < kvs.length), (DataBlockIter.next^[i] it.seekToFirst).OnPair kvs[i]
  forwardEnd : (DataBlockIter.next^[kvs.length] it.seekToFirst).Exhausted
  backward : ∀ i (hi : i < kvs.length), (DataBlockIter.prev^[i] it.seekToLast).OnPair kvs[kvs.length - 1 - i]
  backwardEnd : (DataBlockIter.prev^[kvs.length] it.seekToLast).Exhausted

section readsBack

variable {it : DataBlockIter} {es : List StoredEntry}

theorem AtEntry.onPair {i : ℕ} (h : it.AtEntry es i) {it₀ : DataBlockIter} (hs : it₀.SameBlock it) :
    it.OnPair (it₀.updateRawKeyAndMaybePadMinTimestamp (es.get ⟨i, h.lt⟩).key, (es.get ⟨i, h.lt⟩).value) := by
  refine ⟨h.valid_eq, ?_, h.value_eq, h.status⟩
  rw [h.key_eq, hs.updateRawKeyAndMaybePadMinTimestamp]

/-- the reader's round trip: a fresh iterator over a run of entries that decodes reads back each entry, its key as
the iterator pads it -/
theorem Over.readsBack (hover : it.Over es) (hinit : it.initialized = true) (hstatus : it.status = .ok)
    (hcache : it.prevEntries = []) (hidx : it.prevEntriesIdx = -1) :
    it.ReadsBack (es.map fun e => (it.updateRawKeyAndMaybePadMinTimestamp e.key, e.value)) := by
  have hpos := hover.length_pos
  have hfirst := seekToFirst_atEntry hover hinit hstatus
  obtain ⟨hlast, hprev, hprevIdx⟩ := seekToLast_atEntry hover hinit hstatus
  have hc : it.seekToLast.CacheOk es := cacheOk_empty (hprev.trans hcache) (hprevIdx.trans hidx)
  have hsFirst : ∀ i, it.SameBlock (DataBlockIter.next^[i] it.seekToFirst) := fun i =>
    (sameBlock_seekToFirst it).trans (sameBlock_iterate sameBlock_next i _)
  have hsLast : ∀ i, it.SameBlock (DataBlockIter.prev^[i] it.seekToLast) := fun i =>
    (sameBlock_seekToLast it).trans (sameBlock_iterate sameBlock_prev i _)
  refine ⟨fun i hi => ?_, ?_, fun i hi => ?_, ?_⟩
  · simp only [List.length_map] at hi
    simpa using (hfirst.iterate_next i hi).onPair (hsFirst i)
  · rw [List.length_map]
    exact hfirst.iterate_next_end
  · simp only [List.length_map] at hi
    simpa using (hlast.iterate_prev hc i (by omega)).1.onPair (hsLast i)
  · rw [List.length_map, show es.length = es.length - 1 + 1 from by omega]
    exact hlast.iterate_prev_end hc

end readsBack

end DataBlockIter

/-! ## The block `Finish` writes -/

/-- the bytes `Finish` writes for the entries `es`: the entries, the offsets of the restart points as `uint32_t`s,
then their number -/
def finishedBlock (es : List StoredEntry) : List UInt8 :=
  entriesBytes es ++ (((restartOffsets es).map (· % 2 ^ 32)).map Coding.encodeFixed32).flatten ++
    Coding.encodeFixed32 ((restartIndices es).length % 2 ^ 32)

theorem drop_flatten_encodeFixed32 : ∀ (ws : List ℕ) (j : ℕ),
    ((ws.map Coding.encodeFixed32).flatten).drop (j * 4) = ((ws.drop j).map Coding.encodeFixed32).flatten
  | [], j => by simp
  | w :: ws, 0 => by simp
  | w :: ws, j + 1 => by
    have h4 : (j + 1) * 4 = (Coding.encodeFixed32 w).length + j * 4 := by
      rw [Coding.length_encodeFixed32]
      ring
    rw [List.map_cons, List.flatten_cons, h4, ← List.drop_drop, List.drop_left' rfl, List.drop_succ_cons]
    exact drop_flatten_encodeFixed32 ws j

section finished

variable {es : List StoredEntry}

theorem length_restartWords (es : List StoredEntry) :
    ((((restartOffsets es).map (· % 2 ^ 32)).map Coding.encodeFixed32).flatten).length =
      4 * (restartIndices es).length := by
  simp [List.length_flatten, restartOffsets, Function.comp_def]
  omega

theorem length_finishedBlock (es : List StoredEntry) :
    (finishedBlock es).length = (entriesBytes es).length + 4 * (restartIndices es).length + 4 := by
  rw [finishedBlock, List.length_append, List.length_append, length_restartWords, Coding.length_encodeFixed32]

/-- the footer is the number of restart points -/
theorem footer_finishedBlock (hR : (restartIndices es).length < 2 ^ 32) :
    Block.footer (finishedBlock es) = (restartIndices es).length := by
  have hlast := Coding.decodeFixed32_encodeFixed32 (restartIndices es).length []
  rw [List.append_nil, Nat.mod_eq_of_lt hR] at hlast
  unfold Block.footer finishedBlock
  rw [List.drop_left' (by simp only [List.length_append, Coding.length_encodeFixed32]; omega), Nat.mod_eq_of_lt hR]
  exact hlast

theorem numRestartsOf_finishedBlock (hR : (restartIndices es).length < 2 ^ 31) :
    Block.numRestartsOf (finishedBlock es) = (restartIndices es).length := by
  have hfooter : Block.footer (finishedBlock es) = (restartIndices es).length := footer_finishedBlock (by omega)
  unfold Block.numRestartsOf
  split
  · exact hfooter
  · rw [hfooter, kNumRestartsMask, kDataBlockIndexTypeBitShift, Nat.and_two_pow_sub_one_eq_mod,
      Nat.mod_eq_of_lt hR]

/-- a finished block has no hash index: the bit that marks one is clear in the footer -/
theorem indexTypeOf_finishedBlock (hR : (restartIndices es).length < 2 ^ 31) :
    Block.indexTypeOf (finishedBlock es) = .kDataBlockBinarySearch := by
  have hfooter : Block.footer (finishedBlock es) = (restartIndices es).length := footer_finishedBlock (by omega)
  unfold Block.indexTypeOf
  split
  · rfl
  · rw [hfooter, kDataBlockIndexTypeBitShift, Nat.and_two_pow, Nat.testBit_lt_two_pow hR]
    simp

/-- `Block::Block` on a finished block, when its restart array is found at `off` -/
theorem create_finishedBlock {off : ℕ} (hR : (restartIndices es).length < 2 ^ 31)
    (hoff : (((((finishedBlock es).length % 2 ^ 32 : ℕ) : ℤ) -
      (((1 + (restartIndices es).length) % 2 ^ 32 : ℕ) : ℤ) * 4) % 2 ^ 32).toNat = off)
    (hle : off ≤ (finishedBlock es).length - 4) :
    Block.create (finishedBlock es) =
      some ⟨finishedBlock es, (finishedBlock es).length, off, (restartIndices es).length⟩ := by
  have hlen := length_finishedBlock es
  unfold Block.create
  rw [if_neg (by omega)]
  dsimp only
  rw [numRestartsOf_finishedBlock hR, indexTypeOf_finishedBlock hR]
  dsimp only
  rw [hoff, if_neg (by omega)]

/-- the word of the restart array at index `j` is the offset of the `j`-th entry that starts an interval -/
theorem decodeFixed32_drop_finishedBlock {j : ℕ} (hj : j < (restartIndices es).length)
    (hE : (entriesBytes es).length < 2 ^ 32) :
    Coding.decodeFixed32 ((finishedBlock es).drop ((entriesBytes es).length + j * 4)) =
      entryOffset es (restartIndices es)[j] := by
  have hm := (mem_restartIndices.mp (List.getElem_mem hj)).1
  have hoff : entryOffset es (restartIndices es)[j] < 2 ^ 32 :=
    lt_of_le_of_lt (entryOffset_le_length (le_of_lt hm)) hE
  have hws : ((restartOffsets es).map (· % 2 ^ 32)).drop j =
      entryOffset es (restartIndices es)[j] % 2 ^ 32 :: ((restartOffsets es).map (· % 2 ^ 32)).drop (j + 1) := by
    rw [List.drop_eq_getElem_cons (by simpa [restartOffsets] using hj)]
    simp [restartOffsets]
  have hW := length_restartWords es
  rw [finishedBlock, List.append_assoc, List.drop_append, List.drop_eq_nil_of_le (by omega), List.nil_append,
    show (entriesBytes es).length + j * 4 - (entriesBytes es).length = j * 4 from by omega,
    List.drop_append_of_le_length (by omega), drop_flatten_encodeFixed32, hws, List.map_cons, List.flatten_cons,
    List.append_assoc, Coding.decodeFixed32_encodeFixed32, Nat.mod_mod, Nat.mod_eq_of_lt hoff]

/-- the iterator `NewDataIterator` opens on a finished block shorter than `2 ^ 32` bytes is over its entries -/
theorem over_initializeBase (hdec : EntriesDecode es) (hne : es ≠ []) (hlen : (finishedBlock es).length < 2 ^ 32)
    (tsSz : ℕ) (persisted : Bool)
    (hkeys : (decide (0 < tsSz) && !persisted) = true → ∀ e ∈ es, kNumInternalBytes ≤ e.key.length) :
    (DataBlockIter.initializeBase (finishedBlock es) (entriesBytes es).length (restartIndices es).length tsSz
      persisted).Over es := by
  have hL := length_finishedBlock es
  obtain ⟨rest, hrest⟩ := hdec.restartIndices_eq hne
  have hpoint : ∀ j (hj : j < (restartIndices es).length),
      (DataBlockIter.initializeBase (finishedBlock es) (entriesBytes es).length (restartIndices es).length tsSz
        persisted).getRestartPoint j = entryOffset es (restartIndices es)[j] :=
    fun j hj => decodeFixed32_drop_finishedBlock hj (by omega)
  refine ⟨hdec, (List.prefix_append _ _).trans (List.prefix_append _ _), rfl, ?_, fun j hj => ?_, ⟨?_, ?_⟩, hkeys⟩
  · show (entriesBytes es).length < 2 ^ 32
    omega
  · obtain ⟨hm, hrestart⟩ := mem_restartIndices.mp (List.getElem_mem hj)
    exact ⟨_, hm, hrestart, hpoint j hj⟩
  · show 0 < (restartIndices es).length
    simp [hrest]
  · rw [hpoint 0 (by simp [hrest])]
    simp [hrest]

/-- an iterator opened on a finished block starts over the whole block -/
theorem newDataIterator_finishedBlock (hdec : EntriesDecode es) (hne : es ≠ []) (tsSz : ℕ) (persisted : Bool) :
    (Block.mk (finishedBlock es) (finishedBlock es).length (entriesBytes es).length
      (restartIndices es).length).newDataIterator tsSz persisted =
    DataBlockIter.initializeBase (finishedBlock es) (entriesBytes es).length (restartIndices es).length tsSz
      persisted := by
  have hL := length_finishedBlock es
  obtain ⟨rest, hrest⟩ := hdec.restartIndices_eq hne
  have hR : 0 < (restartIndices es).length := by simp [hrest]
  dsimp only [Block.newDataIterator]
  rw [if_neg (by omega), if_neg (by omega)]

theorem BlockBuilder.Writes.finish_eq_finishedBlock {b : BlockBuilder} (hw : b.Writes es) (hne : es ≠ []) :
    b.finish = finishedBlock es :=
  hw.finish_eq hne

/-- `Block::Block` on what a builder finishes, when it is shorter than `2 ^ 32` bytes: the restart array starts
right after the entries -/
theorem BlockBuilder.Writes.create_finish {b : BlockBuilder} (hw : b.Writes es) (hne : es ≠ [])
    (hsize : b.finish.length < 2 ^ 32) :
    Block.create b.finish =
      some ⟨finishedBlock es, (finishedBlock es).length, (entriesBytes es).length, (restartIndices es).length⟩ := by
  rw [hw.finish_eq_finishedBlock hne] at hsize ⊢
  have hL := length_finishedBlock es
  refine create_finishedBlock (by omega) ?_ (by omega)
  rw [Nat.mod_eq_of_lt hsize, Nat.mod_eq_of_lt (by omega)]
  omega

end finished

/-! ## A block built from pairs, read back -/

/-- the key a data block reads back for a key added to it: the key itself when timestamps are persisted, and
otherwise the key with its timestamp replaced by the minimum timestamp -/
def keyReadBack (persistUserDefinedTimestamps : Bool) (tsSz : ℕ) (key : List UInt8) : List UInt8 :=
  if persistUserDefinedTimestamps then key else replaceInternalKeyWithMinTimestamp key tsSz

section roundTrip

variable {blockRestartInterval tsSz : ℕ} {useDeltaEncoding persistUserDefinedTimestamps : Bool}

/-- a key as the builder persists it, then as the iterator pads it back -/
theorem updateRawKeyAndMaybePadMinTimestamp_maybeStripTimestampFromKey {data : List UInt8}
    {restarts numRestarts : ℕ} {key : List UInt8}
    (hkey : persistUserDefinedTimestamps = false → kNumInternalBytes + tsSz ≤ key.length) :
    (DataBlockIter.initializeBase data restarts numRestarts tsSz
      persistUserDefinedTimestamps).updateRawKeyAndMaybePadMinTimestamp
      ((BlockBuilder.create blockRestartInterval useDeltaEncoding false tsSz persistUserDefinedTimestamps
        false).maybeStripTimestampFromKey key) =
      keyReadBack persistUserDefinedTimestamps tsSz key := by
  simp only [DataBlockIter.updateRawKeyAndMaybePadMinTimestamp, DataBlockIter.initializeBase,
    BlockBuilder.maybeStripTimestampFromKey, BlockBuilder.create, keyReadBack]
  cases persistUserDefinedTimestamps with
  | true => simp
  | false =>
    rcases Nat.eq_zero_or_pos tsSz with h0 | hpos
    · simp [h0, replaceInternalKeyWithMinTimestamp]
    · simp only [hpos, decide_true, Bool.not_false, Bool.and_self, if_true, Bool.false_eq_true, if_false]
      exact padInternalKeyWithMinTimestamp_strip (hkey rfl)

/-- a data block built from pairs and shorter than `2 ^ 32` bytes is the finished block of the entries the builder
wrote, and an iterator opened on it is over those entries, reading each key back as persisted -/
theorem BlockBuilder.addPairs_opens (hk : 1 ≤ blockRestartInterval) {kvs : List (List UInt8 × List UInt8)}
    (hne : kvs ≠ [])
    (hkeys : persistUserDefinedTimestamps = false → ∀ kv ∈ kvs, kNumInternalBytes + tsSz ≤ kv.1.length)
    (hsize : ((BlockBuilder.create blockRestartInterval useDeltaEncoding false tsSz persistUserDefinedTimestamps
      false).addPairs kvs).finish.length < 2 ^ 32) :
    ∃ es, EntriesDecode es ∧ es ≠ [] ∧ (finishedBlock es).length < 2 ^ 32 ∧
      Block.create ((BlockBuilder.create blockRestartInterval useDeltaEncoding false tsSz
        persistUserDefinedTimestamps false).addPairs kvs).finish =
        some ⟨finishedBlock es, (finishedBlock es).length, (entriesBytes es).length, (restartIndices es).length⟩ ∧
      (DataBlockIter.initializeBase (finishedBlock es) (entriesBytes es).length (restartIndices es).length tsSz
        persistUserDefinedTimestamps).Over es ∧
      kvs.map (fun kv => (keyReadBack persistUserDefinedTimestamps tsSz kv.1, kv.2)) =
        es.map fun e => ((DataBlockIter.initializeBase (finishedBlock es) (entriesBytes es).length
          (restartIndices es).length tsSz persistUserDefinedTimestamps).updateRawKeyAndMaybePadMinTimestamp e.key,
          e.value) := by
  obtain ⟨es, hw, hkeysEs, hvaluesEs⟩ := BlockBuilder.addPairs_writes kvs _ []
    (BlockBuilder.create_writes hk useDeltaEncoding false persistUserDefinedTimestamps false) rfl
  rw [List.nil_append] at hw
  have hlenEs : es.length = kvs.length := by simpa using congrArg List.length hvaluesEs
  have hes : es ≠ [] := by
    intro h
    apply hne
    rw [← List.length_eq_zero_iff, ← hlenEs, h, List.length_nil]
  have hcreate := hw.create_finish hes hsize
  rw [hw.finish_eq_finishedBlock hes] at hsize
  -- a timestamp is padded back only where it was stripped, from a key long enough to hold it
  have hpad : (decide (0 < tsSz) && !persistUserDefinedTimestamps) = true →
      ∀ e ∈ es, kNumInternalBytes ≤ e.key.length := by
    intro hp e he
    obtain ⟨htsSz, hpersist⟩ : 0 < tsSz ∧ persistUserDefinedTimestamps = false := by simpa using hp
    have hmem : e.key ∈ kvs.map ((BlockBuilder.create blockRestartInterval useDeltaEncoding false tsSz
        persistUserDefinedTimestamps false).maybeStripTimestampFromKey ·.1) := by
      rw [← hkeysEs]
      exact List.mem_map_of_mem he
    obtain ⟨kv, hkv, hkeq⟩ := List.mem_map.mp hmem
    have hlen := hkeys hpersist kv hkv
    rw [← hkeq, BlockBuilder.maybeStripTimestampFromKey]
    simp only [BlockBuilder.create, hpersist, Bool.false_eq_true, if_false, htsSz, if_true]
    rw [length_stripTimestampFromInternalKey hlen]
    omega
  refine ⟨es, hw.decode, hes, hsize, hcreate,
    over_initializeBase hw.decode hes hsize tsSz persistUserDefinedTimestamps hpad, ?_⟩
  refine List.ext_getElem (by simp [hlenEs]) fun i h₁ h₂ => ?_
  have hi : i < kvs.length := by simpa using h₁
  have hik := List.getElem_of_eq hkeysEs (by simpa [hlenEs] using hi)
  have hiv := List.getElem_of_eq hvaluesEs (by simpa [hlenEs] using hi)
  simp only [List.getElem_map] at hik hiv ⊢
  rw [hik, hiv, updateRawKeyAndMaybePadMinTimestamp_maybeStripTimestampFromKey
    (fun hp => hkeys hp _ (List.getElem_mem hi))]

/-- a data block built from pairs and shorter than `2 ^ 32` bytes opens, and reads the pairs back in order and in
reverse, each key as persisted, with the status ok throughout -/
theorem blockRoundTrip (hk : 1 ≤ blockRestartInterval) {kvs : List (List UInt8 × List UInt8)} (hne : kvs ≠ [])
    (hkeys : persistUserDefinedTimestamps = false → ∀ kv ∈ kvs, kNumInternalBytes + tsSz ≤ kv.1.length)
    (hsize : ((BlockBuilder.create blockRestartInterval useDeltaEncoding false tsSz persistUserDefinedTimestamps
      false).addPairs kvs).finish.length < 2 ^ 32) :
    ∃ blk, Block.create ((BlockBuilder.create blockRestartInterval useDeltaEncoding false tsSz
        persistUserDefinedTimestamps false).addPairs kvs).finish = some blk ∧
      (blk.newDataIterator tsSz persistUserDefinedTimestamps).ReadsBack
        (kvs.map fun kv => (keyReadBack persistUserDefinedTimestamps tsSz kv.1, kv.2)) := by
  obtain ⟨es, hdec, hes, -, hcreate, hover, hpairs⟩ := BlockBuilder.addPairs_opens hk hne hkeys hsize
  refine ⟨_, hcreate, ?_⟩
  rw [newDataIterator_finishedBlock hdec hes, hpairs]
  exact hover.readsBack rfl rfl rfl rfl

/-- two internal keys of one user key, with timestamps of one byte, that share all but the timestamp -/
def pairsWithTimestamps : List (List UInt8 × List UInt8) :=
  [([97, 7, 1, 0, 0, 0, 0, 0, 0], [1]), ([97, 5, 1, 0, 0, 0, 0, 0, 0], [2])]

theorem blockRoundTrip_pairsWithTimestamps :
    ∃ blk, Block.create ((BlockBuilder.create 2 true false 1 false false).addPairs pairsWithTimestamps).finish =
        some blk ∧
      (blk.newDataIterator 1 false).ReadsBack (pairsWithTimestamps.map fun kv => (keyReadBack false 1 kv.1, kv.2)) :=
  blockRoundTrip (by decide) (by simp [pairsWithTimestamps]) (fun _ => by decide) (by decide)

/-- an iterator whose restart array starts at offset 0 finds no entry -/
theorem DataBlockIter.seekToFirst_valid_of_restarts_eq_zero {it : DataBlockIter} (h : it.restarts = 0) :
    it.seekToFirst.valid = false := by
  unfold DataBlockIter.seekToFirst
  split
  · unfold DataBlockIter.parseNextKey
    simp [h, DataBlockIter.seekToRestartPoint, DataBlockIter.valid]
  · simp [DataBlockIter.valid, h]

/-- one pair whose entry takes `2 ^ 32` bytes: the block opens, but with the offset of its restart array, computed in
`uint32_t`, wrapped to 0 -/
theorem newDataIterator_restarts_of_wrapped (hk : 1 ≤ blockRestartInterval) {key value : List UInt8}
    (hkey : key.length = 8) (hvalue : value.length = 2 ^ 32 - 15) :
    ∃ blk, Block.create ((BlockBuilder.create blockRestartInterval useDeltaEncoding false 0 true false).addPairs
        [(key, value)]).finish = some blk ∧ (blk.newDataIterator 0 true).restarts = 0 := by
  obtain ⟨es, hw, hkeysEs, hvaluesEs⟩ := BlockBuilder.addPairs_writes [(key, value)] _ []
    (BlockBuilder.create_writes hk useDeltaEncoding false true false) rfl
  rw [List.nil_append] at hw
  obtain ⟨e, rfl⟩ : ∃ e, es = [e] := by
    rcases es with _ | ⟨e, _ | ⟨e', es⟩⟩
    · simp at hvaluesEs
    · exact ⟨e, rfl⟩
    · simp at hvaluesEs
  have hek : e.key = key := by simpa [BlockBuilder.maybeStripTimestampFromKey, BlockBuilder.create] using hkeysEs
  have hev : e.value = value := by simpa using hvaluesEs
  have hfirst : e.restart = true := hw.decode.first e rfl
  have hshared : e.shared = 0 := hw.decode.restart e (List.mem_singleton_self e) hfirst
  have hrestarts : restartIndices [e] = [0] := by simp [restartIndices, hfirst]
  -- a header of 1 + 1 + 5 bytes, the key and the value
  have hE : (entriesBytes [e]).length = 2 ^ 32 := by
    rw [entriesBytes_cons, entriesBytes_nil, List.append_nil, StoredEntry.length_bytes, StoredEntry.header, hshared,
      hek, hev, hkey, hvalue]
    decide
  have hL : (finishedBlock [e]).length = 2 ^ 32 + 8 := by
    rw [length_finishedBlock, hrestarts, hE]
    rfl
  rw [hw.finish_eq_finishedBlock (List.cons_ne_nil e [])]
  refine ⟨⟨finishedBlock [e], (finishedBlock [e]).length, 0, (restartIndices [e]).length⟩,
    create_finishedBlock (by simp [hrestarts]) ?_ (Nat.zero_le _), ?_⟩
  · rw [hL, hrestarts]
    decide
  · dsimp only [Block.newDataIterator]
    rw [if_neg (by omega), if_neg (by simp [hrestarts])]
    rfl

/-- so `SeekToFirst` on it finds no entry -/
theorem seekToFirst_invalid_of_wrapped (hk : 1 ≤ blockRestartInterval) {key value : List UInt8}
    (hkey : key.length = 8) (hvalue : value.length = 2 ^ 32 - 15) :
    ∃ blk, Block.create ((BlockBuilder.create blockRestartInterval useDeltaEncoding false 0 true false).addPairs
        [(key, value)]).finish = some blk ∧ (blk.newDataIterator 0 true).seekToFirst.valid = false := by
  refine (newDataIterator_restarts_of_wrapped hk hkey hvalue).imp fun blk h => ⟨h.1, ?_⟩
  exact DataBlockIter.seekToFirst_valid_of_restarts_eq_zero h.2

theorem blockRoundTrip_fails_past_two_pow_32 :
    ∃ blk, Block.create ((BlockBuilder.create 16 true false 0 true false).addPairs
        [([1, 0, 0, 0, 0, 0, 0, 0], List.replicate (2 ^ 32 - 15) 0)]).finish = some blk ∧
      (blk.newDataIterator 0 true).seekToFirst.valid = false :=
  seekToFirst_invalid_of_wrapped (by decide) rfl List.length_replicate

end roundTrip

/-! ## The restart array of any block -/

section header

variable {data : List UInt8}

/-- the restart array offset `Block::Block` computes, for a block shorter than `2 ^ 32` bytes whose restart array
is at most `2 ^ 32` bytes longer than the block -/
theorem restartOffset_eq {L n : ℕ} (hL : L < 2 ^ 32) (hn : 4 * (n + 1) ≤ 2 ^ 32 + L) :
    ((((L % 2 ^ 32 : ℕ) : ℤ) - (((1 + n) % 2 ^ 32 : ℕ) : ℤ) * 4) % 2 ^ 32).toNat = (L + 2 ^ 32 - 4 * (n + 1)) % 2 ^ 32 := by
  rw [Nat.mod_eq_of_lt hL, Nat.mod_eq_of_lt (show 1 + n < 2 ^ 32 by omega)]
  omega

/-- `Block::Block` on a binary-search block shorter than `2 ^ 32` bytes: the restart array offset is computed modulo
`2 ^ 32`, and the block is marked corrupt when the offset lies past the footer -/
theorem create_of_binarySearch (hL : data.length < 2 ^ 32) (h4 : 4 ≤ data.length)
    (hidx : Block.indexTypeOf data = .kDataBlockBinarySearch)
    (hn : 4 * (Block.numRestartsOf data + 1) ≤ 2 ^ 32 + data.length) :
    Block.create data = some ⟨data,
      if data.length - 4 < (data.length + 2 ^ 32 - 4 * (Block.numRestartsOf data + 1)) % 2 ^ 32 then 0
      else data.length,
      (data.length + 2 ^ 32 - 4 * (Block.numRestartsOf data + 1)) % 2 ^ 32, Block.numRestartsOf data⟩ := by
  unfold Block.create
  rw [if_neg (by omega)]
  dsimp only
  rw [hidx]
  dsimp only
  rw [restartOffset_eq hL hn]
  split <;> rfl

/-- when the restart array fits in front of the footer, the block is valid and the array ends at the footer -/
theorem create_of_fits (hL : data.length < 2 ^ 32) (hidx : Block.indexTypeOf data = .kDataBlockBinarySearch)
    (hfit : 4 * (Block.numRestartsOf data + 1) ≤ data.length) :
    Block.create data = some ⟨data, data.length, data.length - 4 * (Block.numRestartsOf data + 1),
      Block.numRestartsOf data⟩ := by
  have hoff : (data.length + 2 ^ 32 - 4 * (Block.numRestartsOf data + 1)) % 2 ^ 32 =
      data.length - 4 * (Block.numRestartsOf data + 1) := by omega
  rw [create_of_binarySearch hL (by omega) hidx (by omega), hoff, if_neg (by omega)]

/-- a restart array longer than the block, short of wrapping, marks the block corrupt -/
theorem create_of_short (hL : data.length < 2 ^ 32) (h4 : 4 ≤ data.length)
    (hidx : Block.indexTypeOf data = .kDataBlockBinarySearch)
    (hshort : data.length < 4 * (Block.numRestartsOf data + 1))
    (hnowrap : 4 * (Block.numRestartsOf data + 1) < 2 ^ 32 + 4) :
    (Block.create data).map Block.size = some 0 := by
  rw [create_of_binarySearch hL h4 hidx (by omega), if_pos (by omega)]
  rfl

/-- A restart array that wraps past `2 ^ 32` bytes passes the check: with `2 ^ 30` restart points or more, and the
wrapped offset before the footer, `Block::Block` accepts the block, and its restart array runs `2 ^ 32` bytes past
the block's end -/
theorem create_accepts_wrapped_restarts (hL : data.length < 2 ^ 32)
    (hidx : Block.indexTypeOf data = .kDataBlockBinarySearch)
    (hwrap : 2 ^ 30 ≤ Block.numRestartsOf data)
    (hpass : 4 * (Block.numRestartsOf data + 1) ≤ 2 ^ 32 + data.length - 4) :
    ∃ blk, Block.create data = some blk ∧ blk.size = data.length ∧
      blk.restartOffset + 4 * blk.numRestarts + 4 = blk.size + 2 ^ 32 := by
  have hoff : (data.length + 2 ^ 32 - 4 * (Block.numRestartsOf data + 1)) % 2 ^ 32 =
      data.length + 2 ^ 32 - 4 * (Block.numRestartsOf data + 1) := Nat.mod_eq_of_lt (by omega)
  refine ⟨_, create_of_binarySearch hL (by omega) hidx (by omega), ?_, ?_⟩
  · dsimp only
    rw [hoff, if_neg (by omega)]
  · dsimp only
    rw [hoff, if_neg (by omega)]
    omega

/-- the footer `0x40000000` of an eight-byte block declares `2 ^ 30` restart points -/
theorem create_accepts_wrapped_restarts_eight_bytes :
    ∃ blk, Block.create [0, 0, 0, 0, 0, 0, 0, 64] = some blk ∧ blk.size = 8 ∧
      blk.restartOffset + 4 * blk.numRestarts + 4 = blk.size + 2 ^ 32 :=
  create_accepts_wrapped_restarts (by decide) (by decide) (by decide) (by decide)

end header

end ForSt
