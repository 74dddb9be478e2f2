import ForSt.Table.BlockSpec
import ForSt.Util.Comparator
/-!
`Seek` and `SeekForPrev` of a data block (`BlockIter::BinarySeek`, `FindKeyAfterBinarySeek`,
`DataBlockIter::SeekImpl`, `SeekForPrevImpl`), over a block whose keys increase under the internal key comparator of
any transitive user comparator.

`BinarySeek` bisects the restart points by their keys, `left` from the sentinel `-1` and `right` from the last one.
`FindKeyAfterBinarySeek` parses the restart entry found and, unless it is the result, scans forward to the first key
not below the target, stopping without a comparison at the next restart point.
- `binarySeekLoop_bisected`: the restart key at `left` is below the target, or `left` is the sentinel, and every
  restart key after `right` is above it; each round narrows `right - left`, so the rounds the model runs suffice.
- `binarySeek_start`, `findKeyAfterBinarySeek_first`: the scan lands on the first entry not below the target, or
  runs off the entries with its status ok when every key is below it.
- `Over.seek_first`, `Over.seekForPrev_last`: over entries whose keys, read back, increase, `Seek` lands on the first
  entry not below the target and `SeekForPrev` on the last one not above it, or each leaves the iterator invalid
  with its status ok when there is none.
- `blockSeek`: on a block built from pairs whose keys, as read back, increase, and shorter than `2 ^ 32` bytes,
  `Seek` and `SeekForPrev` land on the first pair not below and the last pair not above any target. On the block of
  `2 ^ 32 + 8` bytes whose restart array offset wraps to 0, `Seek` to its one key finds nothing
  (`blockSeek_fails_past_two_pow_32`).
-/

namespace ForSt

/-! ## The restart array of a run of entries -/

/-- the entry the `j`-th restart point of a run of entries starts -/
def restartEntry (es : List StoredEntry) (j : ℕ) : ℕ := (restartIndices es).getD j 0

section restarts

variable {es : List StoredEntry} {j j' : ℕ}

theorem restartEntry_eq (hj : j < (restartIndices es).length) : restartEntry es j = (restartIndices es)[j] :=
  List.getD_eq_getElem _ _ hj

theorem restartEntry_mem (hj : j < (restartIndices es).length) :
    ∃ h : restartEntry es j < es.length, es[restartEntry es j].restart = true := by
  rw [restartEntry_eq hj]
  exact mem_restartIndices.mp (List.getElem_mem hj)

theorem restartEntry_lt (hj : j < (restartIndices es).length) : restartEntry es j < es.length :=
  (restartEntry_mem hj).1

/-- the entries the restart points start come in the order of the points -/
theorem restartEntry_lt_restartEntry (hjj' : j < j') (hj' : j' < (restartIndices es).length) :
    restartEntry es j < restartEntry es j' := by
  have hsorted : (restartIndices es).Pairwise (· < ·) := List.pairwise_lt_range.filter _
  rw [restartEntry_eq (by omega), restartEntry_eq hj']
  exact List.pairwise_iff_getElem.mp hsorted j j' (by omega) hj' hjj'

theorem EntriesDecode.restartEntry_zero (h : EntriesDecode es) (hne : es ≠ []) : restartEntry es 0 = 0 := by
  obtain ⟨rest, hrest⟩ := h.restartIndices_eq hne
  simp [restartEntry, hrest]

theorem length_restartIndices_le (es : List StoredEntry) : (restartIndices es).length ≤ es.length := by
  simpa [restartIndices] using List.length_filter_le _ (List.range es.length)

end restarts

namespace DataBlockIter

/-- the restart array of the iterator is that of `es`: one point for each entry that starts an interval, in order -/
structure RestartsOf (it : DataBlockIter) (es : List StoredEntry) : Prop where
  numRestarts : it.numRestarts = (restartIndices es).length
  restartPoint : ∀ j < it.numRestarts, it.getRestartPoint j = entryOffset es (restartEntry es j)

/-- the key the `j`-th restart point starts with, as the iterator reads it back -/
def restartKey (it : DataBlockIter) (es : List StoredEntry) (j : ℕ) : List UInt8 :=
  (it.entryView es (restartEntry es j)).key

section restartsOf

variable {it it' : DataBlockIter} {es : List StoredEntry}

theorem RestartsOf.sameBlock (h : it.RestartsOf es) (hs : it.SameBlock it') : it'.RestartsOf es where
  numRestarts := hs.numRestarts.trans h.numRestarts
  restartPoint j hj := by
    rw [hs.getRestartPoint]
    exact h.restartPoint j (hs.numRestarts ▸ hj)

/-- `DecodeKey` at a restart point reads the sizes of an entry that shares nothing, and then its whole key -/
theorem Over.decodeRestartKey (hover : it.Over es) (hrs : it.RestartsOf es) {j : ℕ} (hj : j < it.numRestarts) :
    ∃ n v p, decodeEntry it.data (it.getRestartPoint j) it.restarts = some (0, n, v, p) ∧
      it.updateRawKeyAndMaybePadMinTimestamp ((it.data.drop p).take n) = it.restartKey es j := by
  obtain ⟨hm, hrestart⟩ := restartEntry_mem (hrs.numRestarts ▸ hj)
  have h0 : es[restartEntry es j].shared = 0 := hover.decode.restart _ (List.getElem_mem hm) hrestart
  have hkey := hover.keyDelta hm
  rw [h0, Nat.sub_zero, List.drop_zero] at hkey
  refine ⟨es[restartEntry es j].key.length, es[restartEntry es j].value.length,
    entryOffset es (restartEntry es j) + es[restartEntry es j].header.length, ?_, ?_⟩
  · rw [hrs.restartPoint j hj, hover.decodeEntry_eq hm, h0, Nat.sub_zero]
  · rw [hkey, restartKey, entryView, getD_eq_getElem hm]

end restartsOf

/-! ## Moving an iterator -/

/-- `it'` is `it` moved: the same block and initialisation, and the same cache of `PrevImpl` -/
structure Moved (it it' : DataBlockIter) : Prop where
  sameBlock : it.SameBlock it'
  initialized : it'.initialized = it.initialized
  prevEntries : it'.prevEntries = it.prevEntries
  prevEntriesIdx : it'.prevEntriesIdx = it.prevEntriesIdx

section moved

variable {it it' it'' : DataBlockIter} {es : List StoredEntry}

theorem Moved.trans (h : it.Moved it') (h' : it'.Moved it'') : it.Moved it'' :=
  ⟨h.sameBlock.trans h'.sameBlock, h'.initialized.trans h.initialized, h'.prevEntries.trans h.prevEntries,
    h'.prevEntriesIdx.trans h.prevEntriesIdx⟩

theorem moved_setRawKey (it : DataBlockIter) (k : List UInt8) : it.Moved { it with rawKey := k } :=
  ⟨⟨rfl, rfl, rfl, rfl, rfl⟩, rfl, rfl, rfl⟩

theorem moved_seekToRestartPoint (it : DataBlockIter) (j : ℕ) : it.Moved (it.seekToRestartPoint j) :=
  ⟨sameBlock_seekToRestartPoint it j, rfl, rfl, rfl⟩

/-- every branch of `ParseNextKey` moves the iterator and leaves the rest as it was -/
theorem moved_next (it : DataBlockIter) : it.Moved it.next := by
  unfold next parseNextKey
  dsimp only
  split
  · exact ⟨⟨rfl, rfl, rfl, rfl, rfl⟩, rfl, rfl, rfl⟩
  · split
    · exact ⟨⟨rfl, rfl, rfl, rfl, rfl⟩, rfl, rfl, rfl⟩
    · split
      · exact ⟨⟨rfl, rfl, rfl, rfl, rfl⟩, rfl, rfl, rfl⟩
      · split <;> exact ⟨⟨rfl, rfl, rfl, rfl, rfl⟩, rfl, rfl, rfl⟩

/-- the cache of `PrevImpl` stays right while the iterator moves -/
theorem CacheOk.moved (h : it.CacheOk es) (hm : it.Moved it') : it'.CacheOk es := by
  obtain ⟨⟨c, hc, hcache⟩, hidx⟩ := h
  refine ⟨⟨c, by rwa [hm.prevEntries], ?_⟩, by rwa [hm.prevEntries, hm.prevEntriesIdx]⟩
  rw [hm.prevEntries, hm.sameBlock.entryView]
  exact hcache

/-- at an entry the iterator holds its key, as `it` reads it back -/
theorem AtEntry.compareCurrentKey {i : ℕ} (h : it'.AtEntry es i)
    (userCompare : List UInt8 → List UInt8 → Ordering) (target : List UInt8) (hs : it.SameBlock it') :
    it'.compareCurrentKey userCompare target = internalKeyCompare userCompare (it.entryView es i).key target := by
  have hraw : it'.rawKey = (it'.entryView es i).key := congrArg CachedPrevEntry.key h.entry
  rw [DataBlockIter.compareCurrentKey, hraw, hs.entryView]

/-- `SeekToRestartPoint` then `Next` lands on the entry the restart point starts -/
theorem Over.next_seekToRestartPoint (hover : it.Over es) (hrs : it.RestartsOf es) (hstatus : it.status = .ok)
    {j : ℕ} (hj : j < it.numRestarts) : (it.seekToRestartPoint j).next.AtEntry es (restartEntry es j) := by
  obtain ⟨m, hm, hpoint, hnext, hkey⟩ := hover.seekToRestartPoint hj
  have hjR : j < (restartIndices es).length := hrs.numRestarts ▸ hj
  have hmj : m = restartEntry es j := by
    rw [hrs.restartPoint j hj] at hpoint
    exact entryOffset_injective (le_of_lt hm) (le_of_lt (restartEntry_lt hjR)) hpoint.symm
  subst hmj
  exact (parseNextKey_entry (hover.sameBlock (sameBlock_seekToRestartPoint it j)) hm hnext hkey hstatus hj).2.1

end moved

/-! ## What a seek finds -/

/-- the keys of `es`, as `it` reads them back, increase under the internal key order -/
def KeysIncrease (userCompare : List UInt8 → List UInt8 → Ordering) (it : DataBlockIter) (es : List StoredEntry) :
    Prop :=
  ∀ i j, i < j → j < es.length →
    internalKeyCompare userCompare (it.entryView es i).key (it.entryView es j).key = .lt

/-- the invariant of the bisection of `BinarySeek` over `left`, `right` and `skip_linear_scan`, and so what it leaves.
Without the flag, the restart key at `left` is below the target, or `left` is the sentinel `-1`, and every restart key
after `right` is above it; with the flag, the restart key at `left` equals the target -/
def Bisected (userCompare : List UInt8 → List UInt8 → Ordering) (it : DataBlockIter) (es : List StoredEntry)
    (target : List UInt8) (left right : ℤ) : Bool → Prop
  | false => -1 ≤ left ∧ left ≤ right ∧ right < it.numRestarts ∧
      (left = -1 ∨ internalKeyCompare userCompare (it.restartKey es left.toNat) target = .lt) ∧
      ∀ j : ℕ, right < j → j < it.numRestarts → internalKeyCompare userCompare (it.restartKey es j) target = .gt
  | true => 0 ≤ left ∧ left < it.numRestarts ∧
      internalKeyCompare userCompare (it.restartKey es left.toNat) target = .eq

/-- where `FindKeyAfterBinarySeek` starts, from the restart interval `index` and `skip_linear_scan`. With the flag,
the restart key at `index` is the first key not below the target; without it, that key is below the target and the
next restart key, if there is one, is above it -/
def SeekStart (userCompare : List UInt8 → List UInt8 → Ordering) (it : DataBlockIter) (es : List StoredEntry)
    (target : List UInt8) (index : ℕ) : Bool → Prop
  | true => index < it.numRestarts ∧ (internalKeyCompare userCompare (it.restartKey es index) target).isGE ∧
      ∀ i < restartEntry es index, internalKeyCompare userCompare (it.entryView es i).key target = .lt
  | false => index < it.numRestarts ∧ internalKeyCompare userCompare (it.restartKey es index) target = .lt ∧
      (index + 1 < it.numRestarts →
        internalKeyCompare userCompare (it.restartKey es (index + 1)) target = .gt)

/-- the iterator `it` is on the first entry of `es` whose key, as `it₀` reads it back, is not below `target`; or it
has run off the entries with its status ok, and every key is below `target` -/
def FirstNotBelow (userCompare : List UInt8 → List UInt8 → Ordering) (it₀ : DataBlockIter) (es : List StoredEntry)
    (target : List UInt8) (it : DataBlockIter) : Prop :=
  (∃ i, it.AtEntry es i ∧ (internalKeyCompare userCompare (it₀.entryView es i).key target).isGE ∧
      ∀ j < i, internalKeyCompare userCompare (it₀.entryView es j).key target = .lt) ∨
    (it.Exhausted ∧ ∀ j < es.length, internalKeyCompare userCompare (it₀.entryView es j).key target = .lt)

/-- the iterator `it` is on the last entry of `es` whose key, as `it₀` reads it back, is not above `target`; or it is
invalid with its status ok, and every key is above `target` -/
def LastNotAbove (userCompare : List UInt8 → List UInt8 → Ordering) (it₀ : DataBlockIter) (es : List StoredEntry)
    (target : List UInt8) (it : DataBlockIter) : Prop :=
  (∃ i, it.AtEntry es i ∧ (internalKeyCompare userCompare (it₀.entryView es i).key target).isLE ∧
      ∀ j, i < j → j < es.length → internalKeyCompare userCompare (it₀.entryView es j).key target = .gt) ∨
    (it.Exhausted ∧ ∀ j < es.length, internalKeyCompare userCompare (it₀.entryView es j).key target = .gt)

/-- the iterator is on the first pair of `kvs` whose key is not below `target` under the internal key order; or it has
run off the pairs with its status ok, and every key is below `target` -/
def OnFirstNotBelow (it : DataBlockIter) (userCompare : List UInt8 → List UInt8 → Ordering)
    (kvs : List (List UInt8 × List UInt8)) (target : List UInt8) : Prop :=
  (∃ i, ∃ h : i < kvs.length, it.OnPair kvs[i] ∧ (internalKeyCompare userCompare kvs[i].1 target).isGE ∧
      ∀ j (hj : j < i), internalKeyCompare userCompare kvs[j].1 target = .lt) ∨
    (it.Exhausted ∧ ∀ kv ∈ kvs, internalKeyCompare userCompare kv.1 target = .lt)

/-- the iterator is on the last pair of `kvs` whose key is not above `target` under the internal key order; or it is
invalid with its status ok, and every key is above `target` -/
def OnLastNotAbove (it : DataBlockIter) (userCompare : List UInt8 → List UInt8 → Ordering)
    (kvs : List (List UInt8 × List UInt8)) (target : List UInt8) : Prop :=
  (∃ i, ∃ h : i < kvs.length, it.OnPair kvs[i] ∧ (internalKeyCompare userCompare kvs[i].1 target).isLE ∧
      ∀ j (hj : j < kvs.length), i < j → internalKeyCompare userCompare kvs[j].1 target = .gt) ∨
    (it.Exhausted ∧ ∀ kv ∈ kvs, internalKeyCompare userCompare kv.1 target = .gt)

section seek

variable {userCompare : List UInt8 → List UInt8 → Ordering} {it : DataBlockIter} {es : List StoredEntry}
  {target : List UInt8}

/-! ### Sorted keys -/

theorem keysIncrease_of_pairwise
    (h : (es.map fun e => it.updateRawKeyAndMaybePadMinTimestamp e.key).Pairwise
      fun a b => internalKeyCompare userCompare a b = .lt) : it.KeysIncrease userCompare es := by
  intro i j hij hj
  have hi : i < es.length := Nat.lt_trans hij hj
  have := List.pairwise_iff_getElem.mp h i j (by simpa using hi) (by simpa using hj) hij
  simp only [List.getElem_map] at this
  simp only [entryView, getD_eq_getElem hi, getD_eq_getElem hj]
  exact this

theorem KeysIncrease.restartKey_lt (hkeys : it.KeysIncrease userCompare es) (hrs : it.RestartsOf es) {j j' : ℕ}
    (hjj' : j < j') (hj' : j' < it.numRestarts) :
    internalKeyCompare userCompare (it.restartKey es j) (it.restartKey es j') = .lt := by
  rw [hrs.numRestarts] at hj'
  exact hkeys _ _ (restartEntry_lt_restartEntry hjj' hj') (restartEntry_lt hj')

theorem SameBlock.restartKey {it' : DataBlockIter} (hs : it.SameBlock it') (j : ℕ) :
    it'.restartKey es j = it.restartKey es j := by
  rw [DataBlockIter.restartKey, hs.entryView, DataBlockIter.restartKey]

variable [Std.TransCmp userCompare]

/-- below a key below the target every key is below it -/
theorem KeysIncrease.lt_of_le (hkeys : it.KeysIncrease userCompare es) {i : ℕ} (hi : i < es.length)
    (hlt : internalKeyCompare userCompare (it.entryView es i).key target = .lt) :
    ∀ j ≤ i, internalKeyCompare userCompare (it.entryView es j).key target = .lt := by
  intro j hj
  rcases Nat.lt_or_eq_of_le hj with hj | rfl
  · exact Std.TransCmp.lt_trans (hkeys j i hj hi) hlt
  · exact hlt

/-- past a key not below the target every key is above it -/
theorem KeysIncrease.gt_of_lt (hkeys : it.KeysIncrease userCompare es) {i : ℕ}
    (hge : (internalKeyCompare userCompare (it.entryView es i).key target).isGE) :
    ∀ j, i < j → j < es.length → internalKeyCompare userCompare (it.entryView es j).key target = .gt :=
  fun j hij hj => Std.TransCmp.gt_of_gt_of_isGE (Std.OrientedCmp.gt_iff_lt.mpr (hkeys i j hij hj)) hge

/-! ### `BinarySeek` -/

omit [Std.TransCmp userCompare] in
theorem binarySeekLoop_self (fuel : ℕ) (it : DataBlockIter) (x : ℤ) (skip : Bool) :
    binarySeekLoop userCompare target fuel it x x skip = (it, some (x, skip)) := by
  cases fuel with
  | zero => rfl
  | succ fuel => rw [binarySeekLoop, if_pos rfl]

/-- the bisection keeps its invariant, and the rounds it is given are as many as `right - left`, so it ends with
`left = right`, having changed only the key the iterator holds -/
theorem binarySeekLoop_bisected (hover : it.Over es) (hrs : it.RestartsOf es)
    (hkeys : it.KeysIncrease userCompare es) :
    ∀ (fuel : ℕ) (it' : DataBlockIter) (left right : ℤ), it.SameBlock it' →
      Bisected userCompare it es target left right false → right - left ≤ fuel →
      ∃ k left' skip, binarySeekLoop userCompare target fuel it' left right false =
        ({ it' with rawKey := k }, some (left', skip)) ∧ Bisected userCompare it es target left' left' skip := by
  intro fuel
  induction fuel with
  | zero =>
    intro it' left right _ hb hfuel
    have hlr : left = right := by have := hb.2.1; omega
    subst hlr
    exact ⟨it'.rawKey, left, false, binarySeekLoop_self 0 it' left false, hb⟩
  | succ fuel ih =>
    intro it' left right hs hb hfuel
    by_cases hlr : left = right
    · subst hlr
      exact ⟨it'.rawKey, left, false, binarySeekLoop_self _ it' left false, hb⟩
    obtain ⟨hl, hle, hr, hleft, hright⟩ := hb
    -- `mid` is rounded up, so it lies in `(left, right]`
    have hmid : left < left + (right - left + 1) / 2 ∧ left + (right - left + 1) / 2 ≤ right := by omega
    have hmidN : (left + (right - left + 1) / 2).toNat < it.numRestarts := by omega
    obtain ⟨n, v, p, hdec, hkey⟩ :=
      (hover.sameBlock hs).decodeRestartKey (hrs.sameBlock hs) (hs.numRestarts ▸ hmidN)
    rw [hs.restartKey] at hkey
    have hs' : it.SameBlock { it' with rawKey := it.restartKey es (left + (right - left + 1) / 2).toNat } :=
      hs.trans ⟨rfl, rfl, rfl, rfl, rfl⟩
    rw [binarySeekLoop, if_neg hlr]
    dsimp only
    rw [hdec]
    dsimp only
    rw [if_neg (by decide), hkey]
    split
    next hc =>
      -- the restart key at `mid` is below the target: `left` moves up to `mid`
      have hc : internalKeyCompare userCompare (it.restartKey es (left + (right - left + 1) / 2).toNat) target =
          .lt := hc
      exact ih _ _ _ hs' ⟨by omega, hmid.2, hr, .inr hc, hright⟩ (by omega)
    next hc =>
      -- above the target: so is every restart key from `mid` on, and `right` moves down below `mid`
      have hc : internalKeyCompare userCompare (it.restartKey es (left + (right - left + 1) / 2).toNat) target =
          .gt := hc
      refine ih _ _ _ hs' ⟨hl, by omega, by omega, hleft, fun j hj hjN => ?_⟩ (by omega)
      rcases Nat.lt_or_eq_of_le (show (left + (right - left + 1) / 2).toNat ≤ j by omega) with hmj | hmj
      · exact Std.TransCmp.gt_trans (Std.OrientedCmp.gt_iff_lt.mpr (hkeys.restartKey_lt hrs hmj hjN)) hc
      · rw [← hmj]
        exact hc
    next hc =>
      -- equal to the target: the search stops at `mid`, with the linear scan skipped
      have hc : internalKeyCompare userCompare (it.restartKey es (left + (right - left + 1) / 2).toNat) target =
          .eq := hc
      exact ⟨_, _, true, binarySeekLoop_self _ _ _ true, by omega, by omega, hc⟩

/-- `BinarySeek` over entries laid out with their restart array finds where the scan starts, and changes only the key
the iterator holds -/
theorem binarySeek_start (hover : it.Over es) (hrs : it.RestartsOf es) (hkeys : it.KeysIncrease userCompare es)
    (target : List UInt8) :
    ∃ k index skip, it.binarySeek userCompare target = ({ it with rawKey := k }, some (index, skip)) ∧
      SeekStart userCompare it es target index skip := by
  have hpos := hover.length_pos
  have hrestarts : it.restarts ≠ 0 := by
    have := hover.entryOffset_lt hpos
    omega
  have hN : 0 < it.numRestarts := hover.firstRestart.1
  have hN32 : it.numRestarts < 2 ^ 32 := by
    have hR := length_restartIndices_le es
    have hE : es.length ≤ it.restarts := by
      rw [hover.restarts, ← entryOffset_length]
      exact le_entryOffset le_rfl
    have := hover.bound
    rw [hrs.numRestarts]
    omega
  -- `num_restarts_ - 1` does not wrap, and the sentinel starts below every restart point
  have hinit : Bisected userCompare it es target (-1) (((it.numRestarts + 2 ^ 32 - 1) % 2 ^ 32 : ℕ) : ℤ) false :=
    ⟨le_rfl, by omega, by omega, .inl rfl, fun j hj hjN => by omega⟩
  obtain ⟨k, left, skip, hres, hb⟩ :=
    binarySeekLoop_bisected hover hrs hkeys ((it.numRestarts + 2 ^ 32 - 1) % 2 ^ 32 + 1) it _ _ (SameBlock.rfl' it)
      hinit (by omega)
  rw [binarySeek, if_neg hrestarts]
  dsimp only
  rw [hres]
  dsimp only
  cases skip with
  | false =>
    obtain ⟨hl, -, hr, hleft, hafter⟩ := hb
    by_cases hsentinel : left = -1
    · -- every restart key is above the target, so the first key of the block is the result
      rw [if_pos hsentinel]
      refine ⟨k, 0, true, rfl, hN, ?_, fun i hi => ?_⟩
      · rw [hafter 0 (by omega) hN]
        rfl
      · rw [hover.decode.restartEntry_zero (List.ne_nil_of_length_pos hpos)] at hi
        omega
    · rw [if_neg hsentinel]
      exact ⟨k, left.toNat, false, rfl, by omega, hleft.resolve_left hsentinel, fun h => hafter _ (by omega) h⟩
  | true =>
    obtain ⟨hl, hr, heq⟩ := hb
    rw [if_neg (by omega)]
    refine ⟨k, left.toNat, true, rfl, by omega, by rw [heq]; rfl, fun i hi => ?_⟩
    have hm := restartEntry_lt (hrs.numRestarts ▸ (show left.toNat < it.numRestarts by omega))
    exact Std.TransCmp.lt_of_lt_of_eq (hkeys i _ hi hm) heq

/-! ### `FindKeyAfterBinarySeek` -/

/-- the linear scan from an entry whose key is below the target reaches the first key not below it, which it may
take at `max_offset` without comparing it, or runs off the last entry -/
theorem findKeyAfterBinarySeekLoop_first (hkeys : it.KeysIncrease userCompare es) {maxOffset : ℕ} :
    ∀ (fuel : ℕ) (it' : DataBlockIter) (i : ℕ), it.Moved it' → it'.AtEntry es i →
      internalKeyCompare userCompare (it.entryView es i).key target = .lt →
      (∀ j, i < j → j < es.length → entryOffset es j = maxOffset →
        (internalKeyCompare userCompare (it.entryView es j).key target).isGE) →
      es.length - i ≤ fuel →
      FirstNotBelow userCompare it es target (findKeyAfterBinarySeekLoop userCompare target maxOffset fuel it') ∧
        it.Moved (findKeyAfterBinarySeekLoop userCompare target maxOffset fuel it') := by
  intro fuel
  induction fuel with
  | zero =>
    intro it' i _ hat _ _ hfuel
    have := hat.lt
    omega
  | succ fuel ih =>
    intro it' i hm hat hlt hstop hfuel
    have hm' := hm.trans (moved_next it')
    have hbelow := hkeys.lt_of_le hat.lt hlt
    rw [findKeyAfterBinarySeekLoop]
    by_cases hlast : i + 1 = es.length
    · -- off the last entry: every key is below the target
      obtain ⟨hinvalid, hok⟩ := hat.next_last hlast
      rw [if_pos (by simp [hinvalid])]
      exact ⟨.inr ⟨⟨hinvalid, hok⟩, fun j hj => hbelow j (by omega)⟩, hm'⟩
    have hat' := hat.next (by have := hat.lt; omega)
    have hbefore : ∀ j < i + 1, internalKeyCompare userCompare (it.entryView es j).key target = .lt :=
      fun j hj => hbelow j (by omega)
    rw [if_neg (by simp [hat'.valid_eq])]
    by_cases hmax : it'.next.current = maxOffset
    · -- at the next restart point, whose key the bisection found above the target
      rw [if_pos hmax]
      exact ⟨.inl ⟨i + 1, hat', hstop (i + 1) (by omega) hat'.lt (hat'.fields.1.symm.trans hmax), hbefore⟩, hm'⟩
    rw [if_neg hmax, hat'.compareCurrentKey userCompare target hm'.sameBlock]
    by_cases hge : (internalKeyCompare userCompare (it.entryView es (i + 1)).key target).isGE
    · rw [if_pos hge]
      exact ⟨.inl ⟨i + 1, hat', hge, hbefore⟩, hm'⟩
    · rw [if_neg hge]
      exact ih _ (i + 1) hm' hat' (Ordering.isGE_eq_false.mp (Bool.eq_false_iff.mpr hge))
        (fun j hj => hstop j (by omega)) (by omega)

/-- `FindKeyAfterBinarySeek` from where `BinarySeek` left off lands on the first entry not below the target, or runs
off the entries when every key is below it -/
theorem findKeyAfterBinarySeek_first (hover : it.Over es) (hrs : it.RestartsOf es)
    (hkeys : it.KeysIncrease userCompare es) {it' : DataBlockIter} (hm : it.Moved it') (hstatus : it'.status = .ok)
    {index : ℕ} {skip : Bool} (hstart : SeekStart userCompare it es target index skip) :
    FirstNotBelow userCompare it es target (it'.findKeyAfterBinarySeek userCompare target index skip) ∧
      it.Moved (it'.findKeyAfterBinarySeek userCompare target index skip) := by
  have hindex : index < it.numRestarts := by cases skip <;> exact hstart.1
  have hat := (hover.sameBlock hm.sameBlock).next_seekToRestartPoint (hrs.sameBlock hm.sameBlock) hstatus
    (hm.sameBlock.numRestarts ▸ hindex)
  have hm0 := (hm.trans (moved_seekToRestartPoint it' index)).trans (moved_next _)
  rw [findKeyAfterBinarySeek]
  dsimp only
  cases skip with
  | true =>
    -- the restart key is the result
    obtain ⟨-, hge, hbefore⟩ := hstart
    rw [if_pos rfl]
    exact ⟨.inl ⟨restartEntry es index, hat, hge, hbefore⟩, hm0⟩
  | false =>
    obtain ⟨-, hlt, hnext⟩ := hstart
    rw [if_neg Bool.false_ne_true]
    refine findKeyAfterBinarySeekLoop_first hkeys _ _ _ hm0 hat hlt (fun j hij hj hoff => ?_) ?_
    · -- the scan meets `max_offset` only at the next restart point, and in the last interval never
      rw [hm0.sameBlock.numRestarts] at hoff
      split at hoff
      next hnextR =>
        rw [hm0.sameBlock.getRestartPoint, hrs.restartPoint _ hnextR] at hoff
        have hR : index + 1 < (restartIndices es).length := hrs.numRestarts ▸ hnextR
        obtain rfl := entryOffset_injective (le_of_lt hj) (le_of_lt (restartEntry_lt hR)) hoff
        have hgt : internalKeyCompare userCompare (it.restartKey es (index + 1)) target = .gt := hnext hnextR
        rw [restartKey] at hgt
        rw [hgt]
        rfl
      next =>
        have := hover.entryOffset_lt hj
        have := hover.bound
        omega
    · have := hover.length_le_data
      rw [hm0.sameBlock.data]
      omega

/-! ### `Seek` and `SeekForPrev` -/

/-- `Seek` over entries laid out with their restart array, whose keys increase as the iterator reads them back, lands
on the first entry not below the target, or runs off the entries with its status ok when every key is below it -/
theorem Over.seek_first (hover : it.Over es) (hrs : it.RestartsOf es) (hkeys : it.KeysIncrease userCompare es)
    (hinit : it.initialized = true) (hstatus : it.status = .ok) (target : List UInt8) :
    FirstNotBelow userCompare it es target (it.seek userCompare target) ∧ it.Moved (it.seek userCompare target) := by
  obtain ⟨k, index, skip, hres, hstart⟩ := binarySeek_start hover hrs hkeys target
  rw [seek, if_pos hinit, hres]
  exact findKeyAfterBinarySeek_first hover hrs hkeys (moved_setRawKey it k) hstatus hstart

omit [Std.TransCmp userCompare] in
theorem seekForPrevLoop_stop (fuel : ℕ) {it' : DataBlockIter}
    (h : ¬(it'.valid = true ∧ it'.compareCurrentKey userCompare target = .gt)) :
    seekForPrevLoop userCompare target fuel it' = it' := by
  cases fuel with
  | zero => rfl
  | succ fuel => rw [seekForPrevLoop, if_neg h]

/-- the loop of `SeekForPrev` from the first entry not below the target steps back once, when that key is above the
target, and then stops -/
theorem seekForPrevLoop_last (hkeys : it.KeysIncrease userCompare es) {it' : DataBlockIter} {i : ℕ}
    (hm : it.Moved it') (hat : it'.AtEntry es i) (hc : it'.CacheOk es)
    (hge : (internalKeyCompare userCompare (it.entryView es i).key target).isGE)
    (hbefore : ∀ j < i, internalKeyCompare userCompare (it.entryView es j).key target = .lt) (fuel : ℕ) :
    LastNotAbove userCompare it es target (seekForPrevLoop userCompare target (fuel + 1) it') ∧
      it.SameBlock (seekForPrevLoop userCompare target (fuel + 1) it') := by
  have hcmp := hat.compareCurrentKey userCompare target hm.sameBlock
  have hafter := hkeys.gt_of_lt hge
  rw [seekForPrevLoop]
  by_cases hgt : internalKeyCompare userCompare (it.entryView es i).key target = .gt
  · rw [if_pos ⟨hat.valid_eq, hcmp.trans hgt⟩]
    cases i with
    | zero =>
      -- the first key is above the target: `Prev` runs off the start
      obtain ⟨hinvalid, hok⟩ := hat.prev_first hc
      rw [seekForPrevLoop_stop fuel (by simp [hinvalid])]
      refine ⟨.inr ⟨⟨hinvalid, hok⟩, fun j hj => ?_⟩, hm.sameBlock.trans (sameBlock_prev it')⟩
      rcases Nat.eq_zero_or_pos j with rfl | hj0
      · exact hgt
      · exact hafter j hj0 hj
    | succ i =>
      -- the key before is below the target
      obtain ⟨hat', -⟩ := hat.prev hc
      have hlt := hbefore i (Nat.lt_succ_self i)
      have hcmp' := hat'.compareCurrentKey userCompare target (hm.sameBlock.trans (sameBlock_prev it'))
      rw [seekForPrevLoop_stop fuel (fun h => by rw [hcmp', hlt] at h; cases h.2)]
      refine ⟨.inl ⟨i, hat', by rw [hlt]; rfl, fun j hij hj => ?_⟩, hm.sameBlock.trans (sameBlock_prev it')⟩
      rcases Nat.lt_or_eq_of_le (show i + 1 ≤ j by omega) with hj' | rfl
      · exact hafter j hj' hj
      · exact hgt
  · rw [if_neg (fun h => hgt (hcmp.symm.trans h.2))]
    -- not below and not above: the key equals the target
    have heq : internalKeyCompare userCompare (it.entryView es i).key target = .eq :=
      (Ordering.isGE_iff_eq_gt_or_eq_eq.mp hge).resolve_left hgt
    exact ⟨.inl ⟨i, hat, by rw [heq]; rfl, hafter⟩, hm.sameBlock⟩

/-- what `SeekForPrev` does after the seek: from the first entry not below the target, step back while the key is
above it; off the entries, with the status ok, `SeekToLast` -/
theorem lastNotAbove_of_firstNotBelow (hover : it.Over es) (hkeys : it.KeysIncrease userCompare es)
    (hinit : it.initialized = true) (hc : it.CacheOk es) {it' : DataBlockIter}
    (hfirst : FirstNotBelow userCompare it es target it') (hm : it.Moved it') :
    LastNotAbove userCompare it es target
        (if !it'.valid then (if it'.status = .ok then it'.seekToLast else it')
          else seekForPrevLoop userCompare target it'.data.length it') ∧
      it.SameBlock (if !it'.valid then (if it'.status = .ok then it'.seekToLast else it')
          else seekForPrevLoop userCompare target it'.data.length it') := by
  rcases hfirst with ⟨i, hat, hge, hbefore⟩ | ⟨⟨hinvalid, hok⟩, hall⟩
  · rw [if_neg (by simp [hat.valid_eq])]
    obtain ⟨fuel, hfuel⟩ : ∃ fuel, it'.data.length = fuel + 1 := by
      have := hover.length_le_data
      have := hover.length_pos
      exact ⟨it'.data.length - 1, by rw [hm.sameBlock.data]; omega⟩
    rw [hfuel]
    exact seekForPrevLoop_last hkeys hm hat (hc.moved hm) hge hbefore fuel
  · -- every key is below the target: the last entry is the result
    rw [if_pos (by simp [hinvalid]), if_pos hok]
    have hpos := hover.length_pos
    have hlast := (seekToLast_atEntry (hover.sameBlock hm.sameBlock) (hm.initialized.trans hinit) hok).1
    refine ⟨.inl ⟨es.length - 1, hlast, ?_, fun j hj hj' => by omega⟩, hm.sameBlock.trans (sameBlock_seekToLast it')⟩
    rw [hall _ (by omega)]
    rfl

/-- `SeekForPrev` over entries laid out with their restart array, whose keys increase as the iterator reads them
back, lands on the last entry not above the target, or leaves the iterator invalid with its status ok when every key
is above it -/
theorem Over.seekForPrev_last (hover : it.Over es) (hrs : it.RestartsOf es)
    (hkeys : it.KeysIncrease userCompare es) (hinit : it.initialized = true) (hstatus : it.status = .ok)
    (hc : it.CacheOk es) (target : List UInt8) :
    LastNotAbove userCompare it es target (it.seekForPrev userCompare target) ∧
      it.SameBlock (it.seekForPrev userCompare target) := by
  obtain ⟨k, index, skip, hres, hstart⟩ := binarySeek_start hover hrs hkeys target
  obtain ⟨hfirst, hm⟩ := findKeyAfterBinarySeek_first hover hrs hkeys (moved_setRawKey it k) hstatus hstart
  rw [seekForPrev, if_pos hinit, hres]
  exact lastNotAbove_of_firstNotBelow hover hkeys hinit hc hfirst hm

/-! ### The entries read back as pairs -/

omit [Std.TransCmp userCompare] in
theorem entryView_key {i : ℕ} (hi : i < es.length) :
    (it.entryView es i).key = it.updateRawKeyAndMaybePadMinTimestamp es[i].key := by
  simp only [entryView, getD_eq_getElem hi]

omit [Std.TransCmp userCompare] in
theorem FirstNotBelow.onFirstNotBelow {it' : DataBlockIter} (h : FirstNotBelow userCompare it es target it')
    (hs : it.SameBlock it') :
    it'.OnFirstNotBelow userCompare (es.map fun e => (it.updateRawKeyAndMaybePadMinTimestamp e.key, e.value))
      target := by
  rcases h with ⟨i, hat, hge, hbefore⟩ | ⟨hex, hall⟩
  · have hi := hat.lt
    refine .inl ⟨i, by simpa using hi, ?_, ?_, fun j hj => ?_⟩
    · rw [List.getElem_map]
      exact hat.onPair hs
    · rw [List.getElem_map]
      rwa [entryView_key hi] at hge
    · rw [List.getElem_map]
      have := hbefore j hj
      rwa [entryView_key (by omega)] at this
  · refine .inr ⟨hex, fun kv hkv => ?_⟩
    obtain ⟨e, he, rfl⟩ := List.mem_map.mp hkv
    obtain ⟨j, hj, rfl⟩ := List.getElem_of_mem he
    have := hall j hj
    rwa [entryView_key hj] at this

omit [Std.TransCmp userCompare] in
theorem LastNotAbove.onLastNotAbove {it' : DataBlockIter} (h : LastNotAbove userCompare it es target it')
    (hs : it.SameBlock it') :
    it'.OnLastNotAbove userCompare (es.map fun e => (it.updateRawKeyAndMaybePadMinTimestamp e.key, e.value))
      target := by
  rcases h with ⟨i, hat, hle, hafter⟩ | ⟨hex, hall⟩
  · have hi := hat.lt
    refine .inl ⟨i, by simpa using hi, ?_, ?_, fun j hj hij => ?_⟩
    · rw [List.getElem_map]
      exact hat.onPair hs
    · rw [List.getElem_map]
      rwa [entryView_key hi] at hle
    · rw [List.getElem_map]
      have hj' : j < es.length := by simpa using hj
      have := hafter j hij hj'
      rwa [entryView_key hj'] at this
  · refine .inr ⟨hex, fun kv hkv => ?_⟩
    obtain ⟨e, he, rfl⟩ := List.mem_map.mp hkv
    obtain ⟨j, hj, rfl⟩ := List.getElem_of_mem he
    have := hall j hj
    rwa [entryView_key hj] at this

end seek

end DataBlockIter

/-! ## A block built from pairs -/

section block

variable {es : List StoredEntry} {blockRestartInterval tsSz : ℕ}
  {useDeltaEncoding persistUserDefinedTimestamps : Bool} {userCompare : List UInt8 → List UInt8 → Ordering}

/-- the restart array `Finish` writes is that of the entries -/
theorem restartsOf_initializeBase (hlen : (finishedBlock es).length < 2 ^ 32) (tsSz : ℕ) (persisted : Bool) :
    (DataBlockIter.initializeBase (finishedBlock es) (entriesBytes es).length (restartIndices es).length tsSz
      persisted).RestartsOf es := by
  have hL := length_finishedBlock es
  refine ⟨rfl, fun j hj => ?_⟩
  rw [restartEntry_eq hj]
  exact decodeFixed32_drop_finishedBlock hj (by omega)

/-- a builder given no pair finishes a block of one restart point, at offset 0 -/
theorem BlockBuilder.finish_addPairs_nil :
    ((BlockBuilder.create blockRestartInterval useDeltaEncoding false tsSz persistUserDefinedTimestamps
      false).addPairs []).finish = [0, 0, 0, 0, 1, 0, 0, 0] := by
  simp only [BlockBuilder.addPairs, List.foldl_nil, BlockBuilder.finish, BlockBuilder.create]
  decide

/-- an iterator whose restart array starts at offset 0 is not moved by `Seek` -/
theorem DataBlockIter.seek_of_restarts_eq_zero {it : DataBlockIter} (h : it.restarts = 0) (target : List UInt8) :
    it.seek userCompare target = it := by
  have hb : it.binarySeek userCompare target = (it, none) := by rw [DataBlockIter.binarySeek, if_pos h]
  rw [DataBlockIter.seek, hb]
  split <;> rfl

/-- nor by `SeekForPrev` -/
theorem DataBlockIter.seekForPrev_of_restarts_eq_zero {it : DataBlockIter} (h : it.restarts = 0)
    (target : List UInt8) : it.seekForPrev userCompare target = it := by
  have hb : it.binarySeek userCompare target = (it, none) := by rw [DataBlockIter.binarySeek, if_pos h]
  rw [DataBlockIter.seekForPrev, hb]
  split <;> rfl

variable [Std.TransCmp userCompare]

/-- a data block built from pairs whose keys, as the block reads them back, increase under the internal key order,
and shorter than `2 ^ 32` bytes: for every target, `Seek` lands on the first pair not below it and `SeekForPrev` on the
last pair not above it, and each leaves the iterator invalid with its status ok where there is no such pair -/
theorem blockSeek (hk : 1 ≤ blockRestartInterval) {kvs : List (List UInt8 × List UInt8)}
    (hkeys : persistUserDefinedTimestamps = false → ∀ kv ∈ kvs, kNumInternalBytes + tsSz ≤ kv.1.length)
    (hsize : ((BlockBuilder.create blockRestartInterval useDeltaEncoding false tsSz persistUserDefinedTimestamps
      false).addPairs kvs).finish.length < 2 ^ 32)
    (hsorted : (kvs.map fun kv => keyReadBack persistUserDefinedTimestamps tsSz kv.1).Pairwise
      fun a b => internalKeyCompare userCompare a b = .lt) :
    ∃ blk, Block.create ((BlockBuilder.create blockRestartInterval useDeltaEncoding false tsSz
        persistUserDefinedTimestamps false).addPairs kvs).finish = some blk ∧ ∀ target,
      ((blk.newDataIterator tsSz persistUserDefinedTimestamps).seek userCompare target).OnFirstNotBelow userCompare
          (kvs.map fun kv => (keyReadBack persistUserDefinedTimestamps tsSz kv.1, kv.2)) target ∧
        ((blk.newDataIterator tsSz persistUserDefinedTimestamps).seekForPrev userCompare target).OnLastNotAbove
          userCompare (kvs.map fun kv => (keyReadBack persistUserDefinedTimestamps tsSz kv.1, kv.2)) target := by
  by_cases hne : kvs = []
  · -- no pair: the restart array is at offset 0, and neither seek finds an entry
    subst hne
    refine ⟨⟨[0, 0, 0, 0, 1, 0, 0, 0], 8, 0, 1⟩, by rw [BlockBuilder.finish_addPairs_nil]; decide, fun target => ?_⟩
    have hex : (DataBlockIter.initializeBase [0, 0, 0, 0, 1, 0, 0, 0] 0 1 tsSz
        persistUserDefinedTimestamps).Exhausted := ⟨rfl, rfl⟩
    show ((DataBlockIter.initializeBase [0, 0, 0, 0, 1, 0, 0, 0] 0 1 tsSz persistUserDefinedTimestamps).seek
        userCompare target).OnFirstNotBelow userCompare [] target ∧
      ((DataBlockIter.initializeBase [0, 0, 0, 0, 1, 0, 0, 0] 0 1 tsSz persistUserDefinedTimestamps).seekForPrev
        userCompare target).OnLastNotAbove userCompare [] target
    rw [DataBlockIter.seek_of_restarts_eq_zero rfl, DataBlockIter.seekForPrev_of_restarts_eq_zero rfl]
    exact ⟨.inr ⟨hex, by simp⟩, .inr ⟨hex, by simp⟩⟩
  obtain ⟨es, hdec, hes, hlen, hcreate, hover, hpairs⟩ := BlockBuilder.addPairs_opens hk hne hkeys hsize
  set it := DataBlockIter.initializeBase (finishedBlock es) (entriesBytes es).length (restartIndices es).length tsSz
    persistUserDefinedTimestamps
  -- the keys increase as the iterator reads them back
  have hkeysIt : it.KeysIncrease userCompare es := by
    have hks : kvs.map (fun kv => keyReadBack persistUserDefinedTimestamps tsSz kv.1) =
        es.map fun e => it.updateRawKeyAndMaybePadMinTimestamp e.key := by
      simpa [List.map_map, Function.comp_def] using congrArg (List.map Prod.fst) hpairs
    rw [hks] at hsorted
    exact DataBlockIter.keysIncrease_of_pairwise hsorted
  have hrs := restartsOf_initializeBase hlen tsSz persistUserDefinedTimestamps
  refine ⟨_, hcreate, fun target => ?_⟩
  rw [newDataIterator_finishedBlock hdec hes, hpairs]
  obtain ⟨hfirst, hm⟩ := hover.seek_first hrs hkeysIt rfl rfl target
  obtain ⟨hlast, hs⟩ := hover.seekForPrev_last hrs hkeysIt rfl rfl (DataBlockIter.cacheOk_empty rfl rfl) target
  exact ⟨hfirst.onFirstNotBelow hm.sameBlock, hlast.onLastNotAbove hs⟩

/-- three internal keys of distinct user keys, in two restart intervals -/
def seekTestPairs : List (List UInt8 × List UInt8) :=
  [([97, 0, 0, 0, 0, 0, 0, 0, 0], [1]), ([98, 0, 0, 0, 0, 0, 0, 0, 0], [2]), ([99, 0, 0, 0, 0, 0, 0, 0, 0], [3])]

theorem blockSeek_seekTestPairs :
    ∃ blk, Block.create ((BlockBuilder.create 2 true false 0 true false).addPairs seekTestPairs).finish = some blk ∧
      ∀ target, ((blk.newDataIterator 0 true).seek BuiltinComparator.bytewise.compare target).OnFirstNotBelow
          BuiltinComparator.bytewise.compare (seekTestPairs.map fun kv => (keyReadBack true 0 kv.1, kv.2)) target ∧
        ((blk.newDataIterator 0 true).seekForPrev BuiltinComparator.bytewise.compare target).OnLastNotAbove
          BuiltinComparator.bytewise.compare (seekTestPairs.map fun kv => (keyReadBack true 0 kv.1, kv.2)) target :=
  blockSeek (by decide) (fun h => absurd h (by decide)) (by decide) (by decide)

/-- on the one-pair block of `2 ^ 32 + 8` bytes whose restart array offset wraps to 0, `Seek` to the key of its one
pair finds nothing -/
theorem blockSeek_fails_past_two_pow_32 :
    ∃ blk, Block.create ((BlockBuilder.create 16 true false 0 true false).addPairs
        [([1, 0, 0, 0, 0, 0, 0, 0], List.replicate (2 ^ 32 - 15) 0)]).finish = some blk ∧
      ((blk.newDataIterator 0 true).seek BuiltinComparator.bytewise.compare [1, 0, 0, 0, 0, 0, 0, 0]).valid =
        false := by
  refine (newDataIterator_restarts_of_wrapped (by decide) rfl List.length_replicate).imp fun blk h => ⟨h.1, ?_⟩
  rw [DataBlockIter.seek_of_restarts_eq_zero h.2, DataBlockIter.valid, h.2]
  rfl

end block

end ForSt
