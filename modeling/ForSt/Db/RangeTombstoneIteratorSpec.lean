import Mathlib.Data.List.GetD
import ForSt.Db.RangeTombstoneIterator
import ForSt.Db.RangeTombstoneFragmenterSpec
/-!
What the top-level calls of `FragmentedRangeTombstoneIterator` visit, on fragments in order, disjoint, with their
sequence numbers descending (`Fragmented`).

A fragment is visible when it has a sequence number in `[lower_bound_, upper_bound_]`, and is shown with the newest
of them (`visibleTombstone`, `SetAt`). `scanForward_stop` and `scanBackward_stop` say where the scans stop;
`topForward_of_stop` and `topBackward_of_stop` read the visible tombstones one a turn; so
`fragmentedRangeTombstoneIterator_visible`: the top-level iteration in either direction reads exactly the visible
fragments, and `Seek` and `SeekForPrev` land on the first and last visible fragment around the target.
-/

namespace ForSt

open ForSt.SortedSearch

variable {UK : Type}

/-- the newest sequence number of a fragment in `[lowerBound, upperBound]` -/
def visibleSeq (lowerBound upperBound : ℕ) (f : RangeTombstoneStack UK) : Option ℕ :=
  (f.seqs.filter fun s => decide (lowerBound ≤ s ∧ s ≤ upperBound)).max?

/-- the fragment with the newest of its sequence numbers in `[lowerBound, upperBound]`, when it has one -/
def visibleTombstone (lowerBound upperBound : ℕ) (f : RangeTombstoneStack UK) : Option (RangeTombstone UK) :=
  (visibleSeq lowerBound upperBound f).map fun s => ⟨f.startKey, s, f.endKey⟩

/-- on descending sequence numbers, the newest in the bounds is the first not above the upper bound, when that is not
below the lower one -/
theorem visibleSeq_eq {lowerBound upperBound : ℕ} {f : RangeTombstoneStack UK} (hdesc : f.seqs.Pairwise (· ≥ ·)) :
    visibleSeq lowerBound upperBound f =
      (f.seqs.find? fun s => decide (s ≤ upperBound)).filter fun s => decide (lowerBound ≤ s) := by
  rw [find?_eq_max?_filter hdesc, ← max?_filter_le, List.filter_filter, visibleSeq]
  congr 1
  exact List.filter_congr fun s _ => by simp only [Bool.decide_and]

theorem visibleTombstone_keys {lowerBound upperBound : ℕ} {f : RangeTombstoneStack UK} {t : RangeTombstone UK}
    (h : visibleTombstone lowerBound upperBound f = some t) : t.startKey = f.startKey ∧ t.endKey = f.endKey := by
  obtain ⟨s, -, rfl⟩ := Option.map_eq_some_iff.mp h
  exact ⟨rfl, rfl⟩

namespace FragmentedRangeTombstoneIterator

variable {it it' r : FragmentedRangeTombstoneIterator UK} {i j n fuel : ℕ} {f : RangeTombstoneStack UK}
  {t : RangeTombstone UK}

/-- the visible tombstones of the fragments from `i` on -/
def visibleFrom (it : FragmentedRangeTombstoneIterator UK) (i : ℕ) : List (RangeTombstone UK) :=
  (it.tombstones.drop i).filterMap (visibleTombstone it.lowerBound it.upperBound)

/-- the visible tombstones of the fragments before `n`, last first -/
def visibleBefore (it : FragmentedRangeTombstoneIterator UK) (n : ℕ) : List (RangeTombstone UK) :=
  ((it.tombstones.take n).filterMap (visibleTombstone it.lowerBound it.upperBound)).reverse

theorem visibleFrom_of_getElem? (hf : it.tombstones[i]? = some f) :
    it.visibleFrom i = (visibleTombstone it.lowerBound it.upperBound f).toList ++ it.visibleFrom (i + 1) := by
  obtain ⟨hi, rfl⟩ := List.getElem?_eq_some_iff.mp hf
  rw [visibleFrom, List.drop_eq_getElem_cons hi, List.filterMap_cons, visibleFrom]
  cases visibleTombstone it.lowerBound it.upperBound it.tombstones[i] <;> rfl

theorem visibleFrom_of_length_le (h : it.tombstones.length ≤ i) : it.visibleFrom i = [] := by
  rw [visibleFrom, List.drop_eq_nil_of_le h, List.filterMap_nil]

theorem visibleBefore_succ (hf : it.tombstones[i]? = some f) :
    it.visibleBefore (i + 1) = (visibleTombstone it.lowerBound it.upperBound f).toList ++ it.visibleBefore i := by
  rw [visibleBefore, List.take_add_one, hf, Option.toList_some, List.filterMap_append, List.reverse_append,
    visibleBefore, List.filterMap_cons, List.filterMap_nil]
  cases visibleTombstone it.lowerBound it.upperBound f <;> rfl

/-- `it'` walks the fragments of `it` under the same bounds -/
structure SameList (it it' : FragmentedRangeTombstoneIterator UK) : Prop where
  tombstones : it'.tombstones = it.tombstones
  upperBound : it'.upperBound = it.upperBound
  lowerBound : it'.lowerBound = it.lowerBound

theorem SameList.refl : SameList it it := ⟨rfl, rfl, rfl⟩

theorem SameList.trans (h : SameList it it') (h' : SameList it' r) : SameList it r :=
  ⟨h'.tombstones.trans h.tombstones, h'.upperBound.trans h.upperBound, h'.lowerBound.trans h.lowerBound⟩

theorem SameList.visibleFrom (h : SameList it it') (i : ℕ) : it'.visibleFrom i = it.visibleFrom i := by
  simp only [FragmentedRangeTombstoneIterator.visibleFrom, h.tombstones, h.upperBound, h.lowerBound]

theorem SameList.visibleBefore (h : SameList it it') (n : ℕ) : it'.visibleBefore n = it.visibleBefore n := by
  simp only [FragmentedRangeTombstoneIterator.visibleBefore, h.tombstones, h.upperBound, h.lowerBound]

theorem sameList_setMaxVisibleSeqAndTimestamp (it : FragmentedRangeTombstoneIterator UK) (p : ℕ) :
    SameList it (setMaxVisibleSeqAndTimestamp { it with pos := p }) := ⟨rfl, rfl, rfl⟩

/-- `Tombstone()` on a fragment: the sequence number at `seq_pos_`, if there is one -/
theorem tombstone_eq_map (hf : it.tombstones[it.pos]? = some f) :
    it.tombstone = f.seqs[it.seqPos]?.map fun s => ⟨f.startKey, s, f.endKey⟩ := by
  simp only [tombstone, hf, Option.bind_eq_bind, Option.bind_some]
  cases f.seqs[it.seqPos]? <;> rfl

theorem tombstone_of_not_valid (h : it.valid = false) : it.tombstone = none := by
  have hpos : it.pos = it.tombstones.length := by simpa [valid] using h
  simp only [tombstone, hpos, List.getElem?_eq_none (le_refl _)]
  rfl

/-- the iterator is on the fragment `f` at `i`, with `seq_pos_` as `SetMaxVisibleSeqAndTimestamp` sets it -/
structure SetAt (it : FragmentedRangeTombstoneIterator UK) (i : ℕ) (f : RangeTombstoneStack UK) : Prop where
  getElem : it.tombstones[i]? = some f
  pos : it.pos = i
  seqPos : it.seqPos = f.seqs.findIdx fun s => decide (s ≤ it.upperBound)

theorem setAt_setMaxVisibleSeqAndTimestamp (hf : it.tombstones[i]? = some f) :
    SetAt (setMaxVisibleSeqAndTimestamp { it with pos := i }) i f where
  getElem := hf
  pos := rfl
  seqPos := by simp only [setMaxVisibleSeqAndTimestamp, posSeqs, hf, Option.map_some, Option.getD_some]

theorem SetAt.lt (h : it.SetAt i f) : i < it.tombstones.length := (List.getElem?_eq_some_iff.mp h.getElem).1

theorem SetAt.valid (h : it.SetAt i f) : it.valid = true := by
  have := h.lt
  simp only [FragmentedRangeTombstoneIterator.valid, h.pos, bne_iff_ne, ne_eq]
  omega

/-- `seq_pos_` is on the first sequence number not above `upper_bound_` -/
theorem SetAt.seq (h : it.SetAt i f) : f.seqs[it.seqPos]? = f.seqs.find? fun s => decide (s ≤ it.upperBound) := by
  rw [h.seqPos, List.find?_eq_getElem?_findIdx]

theorem SetAt.notVisible_eq (h : it.SetAt i f) (hdesc : f.seqs.Pairwise (· ≥ ·)) :
    it.notVisible = (visibleTombstone it.lowerBound it.upperBound f).isNone := by
  have hposSeqs : it.posSeqs = f.seqs := by
    simp only [posSeqs, h.pos, h.getElem, Option.map_some, Option.getD_some]
  rw [notVisible, hposSeqs, visibleTombstone, visibleSeq_eq hdesc, ← h.seq, Option.isNone_map]
  -- `seq_pos_` is at the end of the slice, or on a sequence number to test against `lower_bound_`
  rcases Nat.lt_or_ge it.seqPos f.seqs.length with hlt | hge
  · have hne : (it.seqPos == f.seqs.length) = false := by simpa using Nat.ne_of_lt hlt
    rw [List.getElem?_eq_getElem hlt, List.getD_eq_getElem _ _ hlt, Option.filter_some, hne, Bool.false_or]
    by_cases hle : it.lowerBound ≤ f.seqs[it.seqPos]
    · simp [hle]
    · simp [hle, not_le.mp hle]
  · have hend : it.seqPos = f.seqs.length :=
      le_antisymm (h.seqPos ▸ List.findIdx_le_length) hge
    rw [List.getElem?_eq_none hge, hend]
    simp

theorem SetAt.tombstone_eq (h : it.SetAt i f) (hdesc : f.seqs.Pairwise (· ≥ ·))
    (hvis : visibleTombstone it.lowerBound it.upperBound f = some t) : it.tombstone = some t := by
  rw [visibleTombstone, visibleSeq_eq hdesc, ← h.seq] at hvis
  obtain ⟨s, hs, rfl⟩ := Option.map_eq_some_iff.mp hvis
  obtain ⟨hseq, -⟩ := Option.filter_eq_some_iff.mp hs
  rw [tombstone_eq_map (h.pos ▸ h.getElem), hseq]
  rfl

/-- where `ScanForwardToVisibleTombstone` from the fragment `i` of `it` stops -/
inductive ForwardStop (it : FragmentedRangeTombstoneIterator UK) (i : ℕ) :
    FragmentedRangeTombstoneIterator UK → Prop
  /-- past the end, when no fragment from `i` on is visible -/
  | past {st} : SameList it st → st.valid = false → it.visibleFrom i = [] → ForwardStop it i st
  /-- on the first visible fragment from `i` on -/
  | visible {st} (j : ℕ) (f : RangeTombstoneStack UK) (t : RangeTombstone UK) : SameList it st → i ≤ j →
      st.SetAt j f → st.tombstone = some t → it.visibleFrom i = t :: it.visibleFrom (j + 1) → ForwardStop it i st

/-- where `ScanBackwardToVisibleTombstone` over the fragments before `n` of `it` stops -/
inductive BackwardStop (it : FragmentedRangeTombstoneIterator UK) (n : ℕ) :
    FragmentedRangeTombstoneIterator UK → Prop
  /-- past the end, when no fragment before `n` is visible -/
  | past {st} : SameList it st → st.valid = false → it.visibleBefore n = [] → BackwardStop it n st
  /-- on the last visible fragment before `n` -/
  | visible {st} (j : ℕ) (f : RangeTombstoneStack UK) (t : RangeTombstone UK) : SameList it st → j < n →
      st.SetAt j f → st.tombstone = some t → it.visibleBefore n = t :: it.visibleBefore j → BackwardStop it n st

theorem ForwardStop.congr (hs : SameList it it') (h : ForwardStop it' i r) : ForwardStop it i r := by
  cases h with
  | past hr hv hnil => exact .past (hs.trans hr) hv (hs.visibleFrom i ▸ hnil)
  | visible j f t hr hij hat ht hcons =>
    exact .visible j f t (hs.trans hr) hij hat ht (by rw [← hs.visibleFrom, ← hs.visibleFrom]; exact hcons)

theorem BackwardStop.congr (hs : SameList it it') (h : BackwardStop it' n r) : BackwardStop it n r := by
  cases h with
  | past hr hv hnil => exact .past (hs.trans hr) hv (hs.visibleBefore n ▸ hnil)
  | visible j f t hr hjn hat ht hcons =>
    exact .visible j f t (hs.trans hr) hjn hat ht (by rw [← hs.visibleBefore, ← hs.visibleBefore]; exact hcons)

/-- where the iterator stops, it is valid exactly when there is a visible tombstone, and shows the first -/
theorem ForwardStop.tombstone (h : ForwardStop it i r) :
    r.valid = (it.visibleFrom i).head?.isSome ∧ r.tombstone = (it.visibleFrom i).head? := by
  cases h with
  | past _ hv hnil => exact ⟨by rw [hv, hnil]; rfl, by rw [tombstone_of_not_valid hv, hnil]; rfl⟩
  | visible j f t _ _ hat ht hcons => exact ⟨by rw [hat.valid, hcons]; rfl, by rw [ht, hcons]; rfl⟩

theorem BackwardStop.tombstone (h : BackwardStop it n r) :
    r.valid = (it.visibleBefore n).head?.isSome ∧ r.tombstone = (it.visibleBefore n).head? := by
  cases h with
  | past _ hv hnil => exact ⟨by rw [hv, hnil]; rfl, by rw [tombstone_of_not_valid hv, hnil]; rfl⟩
  | visible j f t _ _ hat ht hcons => exact ⟨by rw [hat.valid, hcons]; rfl, by rw [ht, hcons]; rfl⟩

theorem scanForward_of_not_valid (h : it.valid = false) (fuel : ℕ) :
    scanForwardToVisibleTombstone fuel it = it := by
  cases fuel with
  | zero => rfl
  | succ fuel => simp only [scanForwardToVisibleTombstone, show (it.pos != it.tombstones.length) = false from h,
      Bool.false_and, Bool.false_eq_true, if_false]

theorem scanBackward_of_not_valid (h : it.valid = false) (fuel : ℕ) :
    scanBackwardToVisibleTombstone fuel it = it := by
  cases fuel with
  | zero => rfl
  | succ fuel => simp only [scanBackwardToVisibleTombstone, show (it.pos != it.tombstones.length) = false from h,
      Bool.false_and, Bool.false_eq_true, if_false]

theorem valid_invalidate : it.invalidate.valid = false := by
  simp [invalidate, FragmentedRangeTombstoneIterator.valid]

/-- from the fragment `i`, the forward scan stops on the first visible fragment from `i` on, or past the end; each
turn moves one fragment on, so as many turns as fragments are left are enough -/
theorem scanForward_stop (h : it.SetAt i f) (hdesc : ∀ f ∈ it.tombstones, f.seqs.Pairwise (· ≥ ·))
    (hfuel : it.tombstones.length ≤ i + fuel) : ForwardStop it i (scanForwardToVisibleTombstone fuel it) := by
  induction fuel generalizing it i f with
  | zero => exact absurd h.lt (not_lt.mpr hfuel)
  | succ fuel ih =>
    have hdf := hdesc f (List.mem_of_getElem? h.getElem)
    have hcond : (it.pos != it.tombstones.length && it.notVisible) = it.notVisible := by
      rw [show (it.pos != it.tombstones.length) = true from h.valid, Bool.true_and]
    cases hvis : visibleTombstone it.lowerBound it.upperBound f with
    | some t =>
      -- the fragment is visible: the scan stops on it
      have hnv : it.notVisible = false := by rw [h.notVisible_eq hdf, hvis]; rfl
      rw [scanForwardToVisibleTombstone, hcond, hnv, if_neg Bool.false_ne_true]
      exact .visible i f t .refl (le_refl i) h (h.tombstone_eq hdf hvis)
        (by rw [visibleFrom_of_getElem? h.getElem, hvis]; rfl)
    | none =>
      -- the fragment is not visible: the scan moves on to the next one
      have hnv : it.notVisible = true := by rw [h.notVisible_eq hdf, hvis]; rfl
      have hskip : it.visibleFrom i = it.visibleFrom (i + 1) := by
        rw [visibleFrom_of_getElem? h.getElem, hvis]; rfl
      have hlt := h.lt
      rw [scanForwardToVisibleTombstone, hcond, hnv, if_pos rfl]
      dsimp only
      rw [h.pos]
      by_cases hend : i + 1 = it.tombstones.length
      · rw [if_pos hend]
        exact .past ⟨rfl, rfl, rfl⟩ valid_invalidate (by rw [hskip, visibleFrom_of_length_le (le_of_eq hend.symm)])
      · rw [if_neg hend]
        have hf' : it.tombstones[i + 1]? = some it.tombstones[i + 1] := List.getElem?_eq_getElem (by omega)
        have hstop := ih (setAt_setMaxVisibleSeqAndTimestamp hf') hdesc
          (by show it.tombstones.length ≤ i + 1 + fuel; omega)
        cases hstop.congr (sameList_setMaxVisibleSeqAndTimestamp it (i + 1)) with
        | past hr hv hnil => exact .past hr hv (hskip.trans hnil)
        | visible j f' t hr hij hat ht hcons =>
          exact .visible j f' t hr (by omega) hat ht (hskip.trans hcons)

/-- before the fragment `i + 1`, the backward scan from `i` stops on the last visible fragment, or past the end; each
turn moves one fragment back, so `i + 1` turns are enough -/
theorem scanBackward_stop (h : it.SetAt i f) (hdesc : ∀ f ∈ it.tombstones, f.seqs.Pairwise (· ≥ ·))
    (hfuel : i < fuel) : BackwardStop it (i + 1) (scanBackwardToVisibleTombstone fuel it) := by
  induction fuel generalizing it i f with
  | zero => exact absurd hfuel (Nat.not_lt_zero i)
  | succ fuel ih =>
    have hdf := hdesc f (List.mem_of_getElem? h.getElem)
    have hcond : (it.pos != it.tombstones.length && it.notVisible) = it.notVisible := by
      rw [show (it.pos != it.tombstones.length) = true from h.valid, Bool.true_and]
    cases hvis : visibleTombstone it.lowerBound it.upperBound f with
    | some t =>
      -- the fragment is visible: the scan stops on it
      have hnv : it.notVisible = false := by rw [h.notVisible_eq hdf, hvis]; rfl
      rw [scanBackwardToVisibleTombstone, hcond, hnv, if_neg Bool.false_ne_true]
      exact .visible i f t .refl (Nat.lt_succ_self i) h (h.tombstone_eq hdf hvis)
        (by rw [visibleBefore_succ h.getElem, hvis]; rfl)
    | none =>
      -- the fragment is not visible: the scan moves back to the one before, if there is one
      have hnv : it.notVisible = true := by rw [h.notVisible_eq hdf, hvis]; rfl
      have hskip : it.visibleBefore (i + 1) = it.visibleBefore i := by
        rw [visibleBefore_succ h.getElem, hvis]; rfl
      have hlt := h.lt
      rw [scanBackwardToVisibleTombstone, hcond, hnv, if_pos rfl, h.pos]
      by_cases hzero : i = 0
      · rw [if_pos hzero]
        exact .past ⟨rfl, rfl, rfl⟩ valid_invalidate (by rw [hskip, hzero]; rfl)
      · rw [if_neg hzero]
        have hf' : it.tombstones[i - 1]? = some it.tombstones[i - 1] := List.getElem?_eq_getElem (by omega)
        have hstop := ih (setAt_setMaxVisibleSeqAndTimestamp hf') hdesc (by omega)
        rw [Nat.sub_add_cancel (Nat.pos_of_ne_zero hzero)] at hstop
        cases hstop.congr (sameList_setMaxVisibleSeqAndTimestamp it (i - 1)) with
        | past hr hv hnil => exact .past hr hv (hskip.trans hnil)
        | visible j f' t hr hji hat ht hcons =>
          exact .visible j f' t hr (by omega) hat ht (hskip.trans hcons)

theorem topForward_of_not_valid (h : it.valid = false) : topForward fuel it = [] := by
  cases fuel with
  | zero => rfl
  | succ fuel => rw [topForward, h, if_neg Bool.false_ne_true]

theorem topBackward_of_not_valid (h : it.valid = false) : topBackward fuel it = [] := by
  cases fuel with
  | zero => rfl
  | succ fuel => rw [topBackward, h, if_neg Bool.false_ne_true]

/-- from where a forward scan from `i` stops, the loop of `TopNext` reads the visible tombstones from `i` on: each
turn reads one and scans on from the next fragment -/
theorem topForward_of_stop (h : ForwardStop it i r) (hdesc : ∀ f ∈ it.tombstones, f.seqs.Pairwise (· ≥ ·))
    (hfuel : it.tombstones.length ≤ i + fuel) : topForward fuel r = it.visibleFrom i := by
  induction fuel generalizing i r with
  | zero =>
    cases h with
    | past _ hv hnil => rw [topForward_of_not_valid hv, hnil]
    | visible j f t hr hij hat _ _ =>
      have := hat.lt
      rw [hr.tombstones] at this
      omega
  | succ fuel ih =>
    cases h with
    | past _ hv hnil => rw [topForward_of_not_valid hv, hnil]
    | visible j f t hr hij hat ht hcons =>
      rw [topForward, if_pos hat.valid, ht, Option.toList_some, List.singleton_append, hcons]
      congr 1
      have hlt := hat.lt
      rw [hr.tombstones] at hlt
      -- `TopNext` moves to the fragment after `j`, and stops there if it is past the end
      rw [topNext]
      dsimp only
      rw [hat.pos, hr.tombstones]
      by_cases hend : j + 1 = it.tombstones.length
      · rw [if_pos hend, topForward_of_not_valid (by simp [FragmentedRangeTombstoneIterator.valid, hend]),
          visibleFrom_of_length_le (le_of_eq hend.symm)]
      · rw [if_neg hend]
        have hj : j + 1 < r.tombstones.length := by rw [hr.tombstones]; omega
        have hdesc' : ∀ f ∈ r.tombstones, f.seqs.Pairwise (· ≥ ·) := fun f hf => hdesc f (hr.tombstones ▸ hf)
        have hstop := scanForward_stop (setAt_setMaxVisibleSeqAndTimestamp (List.getElem?_eq_getElem hj)) hdesc'
          (Nat.le_add_left _ _)
        rw [← hr.tombstones]
        exact ih (hstop.congr (hr.trans (sameList_setMaxVisibleSeqAndTimestamp r (j + 1)))) (by omega)

/-- from where a backward scan before `n` stops, the loop of `TopPrev` reads the visible tombstones before `n`, last
first -/
theorem topBackward_of_stop (h : BackwardStop it n r) (hdesc : ∀ f ∈ it.tombstones, f.seqs.Pairwise (· ≥ ·))
    (hfuel : n ≤ fuel) : topBackward fuel r = it.visibleBefore n := by
  induction fuel generalizing n r with
  | zero =>
    cases h with
    | past _ hv hnil => rw [topBackward_of_not_valid hv, hnil]
    | visible j f t _ hjn _ _ _ => omega
  | succ fuel ih =>
    cases h with
    | past _ hv hnil => rw [topBackward_of_not_valid hv, hnil]
    | visible j f t hr hjn hat ht hcons =>
      rw [topBackward, if_pos hat.valid, ht, Option.toList_some, List.singleton_append, hcons]
      congr 1
      have hlt := hat.lt
      -- `TopPrev` moves to the fragment before `j`, and past the end if there is none
      rw [topPrev, hat.pos]
      by_cases hzero : j = 0
      · rw [if_pos hzero, topBackward_of_not_valid valid_invalidate, hzero]
        rfl
      · rw [if_neg hzero]
        have hj : j - 1 < r.tombstones.length := by omega
        have hdesc' : ∀ f ∈ r.tombstones, f.seqs.Pairwise (· ≥ ·) := fun f hf => hdesc f (hr.tombstones ▸ hf)
        have hstop := scanBackward_stop (setAt_setMaxVisibleSeqAndTimestamp (List.getElem?_eq_getElem hj)) hdesc' hj
        rw [Nat.sub_add_cancel (Nat.pos_of_ne_zero hzero)] at hstop
        exact ih (hstop.congr (hr.trans (sameList_setMaxVisibleSeqAndTimestamp r (j - 1)))) (by omega)

/-- `SeekToTopFirst` scans forward from the first fragment -/
theorem seekToTopFirst_stop (hdesc : ∀ f ∈ it.tombstones, f.seqs.Pairwise (· ≥ ·)) :
    ForwardStop it 0 it.seekToTopFirst := by
  rw [seekToTopFirst]
  by_cases hempty : it.tombstones.isEmpty = true
  · rw [if_pos hempty]
    exact .past ⟨rfl, rfl, rfl⟩ valid_invalidate
      (visibleFrom_of_length_le (by simp [List.isEmpty_iff.mp hempty]))
  · rw [if_neg hempty]
    have hpos : 0 < it.tombstones.length := List.length_pos_iff.mpr (by simpa using hempty)
    exact (scanForward_stop (setAt_setMaxVisibleSeqAndTimestamp (List.getElem?_eq_getElem hpos)) hdesc
      (Nat.le_add_left _ _)).congr (sameList_setMaxVisibleSeqAndTimestamp it 0)

/-- `SeekToTopLast` scans backward from the last fragment -/
theorem seekToTopLast_stop (hdesc : ∀ f ∈ it.tombstones, f.seqs.Pairwise (· ≥ ·)) :
    BackwardStop it it.tombstones.length it.seekToTopLast := by
  rw [seekToTopLast]
  by_cases hempty : it.tombstones.isEmpty = true
  · rw [if_pos hempty]
    exact .past ⟨rfl, rfl, rfl⟩ valid_invalidate (by simp [visibleBefore, List.isEmpty_iff.mp hempty])
  · rw [if_neg hempty]
    have hpos : 0 < it.tombstones.length := List.length_pos_iff.mpr (by simpa using hempty)
    have hlast : it.tombstones.length - 1 < it.tombstones.length := Nat.sub_lt hpos Nat.one_pos
    have hstop := scanBackward_stop (setAt_setMaxVisibleSeqAndTimestamp (List.getElem?_eq_getElem hlast)) hdesc hlast
    rw [Nat.sub_add_cancel hpos] at hstop
    exact hstop.congr (sameList_setMaxVisibleSeqAndTimestamp it _)

section seek

variable [LinearOrder UK]

/-- `Seek` scans forward from the first fragment that ends past the target -/
theorem seek_stop (hdesc : ∀ f ∈ it.tombstones, f.seqs.Pairwise (· ≥ ·)) (target : UK) :
    ForwardStop it (it.tombstones.findIdx fun f => decide (target < f.endKey)) (it.seek target) := by
  rw [seek]
  by_cases hempty : it.tombstones.isEmpty = true
  · rw [if_pos hempty]
    exact .past ⟨rfl, rfl, rfl⟩ valid_invalidate
      (visibleFrom_of_length_le (by simp [List.isEmpty_iff.mp hempty]))
  · rw [if_neg hempty, seekToCoveringTombstone]
    dsimp only
    by_cases hend : (it.tombstones.findIdx fun f => decide (target < f.endKey)) = it.tombstones.length
    · -- all tombstones end before the target
      have hv : ({ it with pos := it.tombstones.length, seqPos := 0 } : FragmentedRangeTombstoneIterator UK).valid =
          false := by simp [FragmentedRangeTombstoneIterator.valid]
      rw [if_pos hend, hend, scanForward_of_not_valid hv]
      exact .past ⟨rfl, rfl, rfl⟩ hv (visibleFrom_of_length_le (le_refl _))
    · rw [if_neg hend]
      have hlt : (it.tombstones.findIdx fun f => decide (target < f.endKey)) < it.tombstones.length :=
        lt_of_le_of_ne List.findIdx_le_length hend
      exact (scanForward_stop (setAt_setMaxVisibleSeqAndTimestamp (List.getElem?_eq_getElem hlt)) hdesc
        (Nat.le_add_left _ _)).congr (sameList_setMaxVisibleSeqAndTimestamp it _)

/-- `SeekForPrev` scans backward from the last fragment that starts at or before the target -/
theorem seekForPrev_stop (hdesc : ∀ f ∈ it.tombstones, f.seqs.Pairwise (· ≥ ·)) (target : UK) :
    BackwardStop it (it.tombstones.findIdx fun f => decide (target < f.startKey)) (it.seekForPrev target) := by
  rw [seekForPrev]
  by_cases hempty : it.tombstones.isEmpty = true
  · rw [if_pos hempty]
    exact .past ⟨rfl, rfl, rfl⟩ valid_invalidate (by simp [visibleBefore, List.isEmpty_iff.mp hempty])
  · rw [if_neg hempty, seekForPrevToCoveringTombstone, if_neg hempty]
    dsimp only
    by_cases hzero : (it.tombstones.findIdx fun f => decide (target < f.startKey)) = 0
    · -- all tombstones start after the target
      rw [if_pos hzero, scanBackward_of_not_valid valid_invalidate, hzero]
      exact .past ⟨rfl, rfl, rfl⟩ valid_invalidate rfl
    · rw [if_neg hzero]
      have hlt : (it.tombstones.findIdx fun f => decide (target < f.startKey)) - 1 < it.tombstones.length :=
        lt_of_lt_of_le (Nat.sub_lt (Nat.pos_of_ne_zero hzero) Nat.one_pos) List.findIdx_le_length
      have hstop := scanBackward_stop (setAt_setMaxVisibleSeqAndTimestamp (List.getElem?_eq_getElem hlt)) hdesc hlt
      rw [Nat.sub_add_cancel (Nat.pos_of_ne_zero hzero)] at hstop
      exact hstop.congr (sameList_setMaxVisibleSeqAndTimestamp it _)

/-- on fragments as `FragmentedRangeTombstoneList` holds them, and under any bounds: `SeekToTopFirst` then `TopNext`
until the iterator is invalid reads exactly the fragments that have a sequence number in
`[lower_bound_, upper_bound_]`, in start-key order, each with the newest such sequence number, and `SeekToTopLast`
then `TopPrev` reads them last first; `Seek` lands on the first of them that ends past the target and `SeekForPrev` on
the last that starts at or before it, each leaving the iterator invalid when there is none -/
theorem visible_tombstones_iteration (it : FragmentedRangeTombstoneIterator UK) (hF : Fragmented it.tombstones) :
    let visible := it.tombstones.filterMap (visibleTombstone it.lowerBound it.upperBound)
    visible.Pairwise (fun a b => a.startKey < b.startKey) ∧
    (∀ fuel, it.tombstones.length ≤ fuel → topForward fuel it.seekToTopFirst = visible) ∧
    (∀ fuel, it.tombstones.length ≤ fuel → topBackward fuel it.seekToTopLast = visible.reverse) ∧
    (∀ target, (it.seek target).valid = (it.seek target).tombstone.isSome ∧
      (it.seek target).tombstone = ((it.tombstones.filter fun f => target < f.endKey).filterMap
        (visibleTombstone it.lowerBound it.upperBound)).head?) ∧
    ∀ target, (it.seekForPrev target).valid = (it.seekForPrev target).tombstone.isSome ∧
      (it.seekForPrev target).tombstone = ((it.tombstones.filter fun f => f.startKey ≤ target).filterMap
        (visibleTombstone it.lowerBound it.upperBound)).getLast? := by
  intro visible
  have hdesc := hF.seqsDesc
  refine ⟨?_, fun fuel hfuel => ?_, fun fuel hfuel => ?_, fun target => ?_, fun target => ?_⟩
  · -- the fragments are in start-key order, and a visible tombstone keeps the keys of its fragment
    refine hF.sorted.filterMap _ fun f g hfg a ha b hb => ?_
    rw [(visibleTombstone_keys ha).1, (visibleTombstone_keys hb).1]
    exact hfg
  · rw [topForward_of_stop (seekToTopFirst_stop hdesc) hdesc (by omega), visibleFrom, List.drop_zero]
  · rw [topBackward_of_stop (seekToTopLast_stop hdesc) hdesc hfuel, visibleBefore, List.take_length]
  · -- the fragments that end past the target are those from the first of them on
    have hpart : it.tombstones.Pairwise fun f g => decide (target < f.endKey) = true → decide (target < g.endKey) = true :=
      hF.disjoint.imp_of_mem fun {f g} _ hg hfg hf => by
        simp only [decide_eq_true_eq] at hf ⊢
        exact lt_of_lt_of_le hf (le_trans hfg (le_of_lt (hF.nonempty g hg)))
    obtain ⟨hv, ht⟩ := (seek_stop hdesc target).tombstone
    rw [visibleFrom, drop_findIdx_eq_filter hpart] at hv ht
    exact ⟨by rw [hv, ht], ht⟩
  · -- the fragments that start at or before the target are those before the first that starts past it
    have hpart : it.tombstones.Pairwise fun f g =>
        decide (target < f.startKey) = true → decide (target < g.startKey) = true :=
      hF.sorted.imp fun hfg hf => by
        simp only [decide_eq_true_eq] at hf ⊢
        exact lt_trans hf hfg
    have hfilter : (it.tombstones.filter fun f => !decide (target < f.startKey)) =
        it.tombstones.filter fun f => f.startKey ≤ target :=
      List.filter_congr fun f _ => by simp only [← decide_not, not_lt]
    obtain ⟨hv, ht⟩ := (seekForPrev_stop hdesc target).tombstone
    rw [visibleBefore, take_findIdx_eq_filter hpart, hfilter, List.head?_reverse] at hv ht
    exact ⟨by rw [hv, ht], ht⟩

-- `OverlapAndRepeatedStartKey` of the fragmenter's tests, with the keys `a`, `c`, `e`, `g`, `i`, `j`, `l`, `n` as 1, 3,
-- 5, 7, 9, 10, 12, 14: the visible tombstones under the upper bounds 9 and 3
example : topForward 8 (create (fragmentedRangeTombstoneList false []
      ([⟨1, 10, 5⟩, ⟨3, 8, 7⟩, ⟨3, 6, 9⟩, ⟨10, 4, 14⟩, ⟨10, 2, 12⟩] : List (RangeTombstone ℕ))) 9 0).seekToTopFirst =
    [⟨3, 8, 5⟩, ⟨5, 8, 7⟩, ⟨7, 6, 9⟩, ⟨10, 4, 12⟩, ⟨12, 4, 14⟩] := by decide

example : topForward 8 (create (fragmentedRangeTombstoneList false []
      ([⟨1, 10, 5⟩, ⟨3, 8, 7⟩, ⟨3, 6, 9⟩, ⟨10, 4, 14⟩, ⟨10, 2, 12⟩] : List (RangeTombstone ℕ))) 3 0).seekToTopFirst =
    [⟨10, 2, 12⟩] := by decide

/-- the fragments of the tombstones of `OverlapAndRepeatedStartKey` under the upper bound 9 -/
theorem visible_tombstones_iteration_overlap :
    let it := create (fragmentedRangeTombstoneList false []
      ([⟨1, 10, 5⟩, ⟨3, 8, 7⟩, ⟨3, 6, 9⟩, ⟨10, 4, 14⟩, ⟨10, 2, 12⟩] : List (RangeTombstone ℕ))) 9 0
    Fragmented it.tombstones ∧
    (let visible := it.tombstones.filterMap (visibleTombstone it.lowerBound it.upperBound)
    visible.Pairwise (fun a b => a.startKey < b.startKey) ∧
    (∀ fuel, it.tombstones.length ≤ fuel → topForward fuel it.seekToTopFirst = visible) ∧
    (∀ fuel, it.tombstones.length ≤ fuel → topBackward fuel it.seekToTopLast = visible.reverse) ∧
    (∀ target, (it.seek target).valid = (it.seek target).tombstone.isSome ∧
      (it.seek target).tombstone = ((it.tombstones.filter fun f => target < f.endKey).filterMap
        (visibleTombstone it.lowerBound it.upperBound)).head?) ∧
    ∀ target, (it.seekForPrev target).valid = (it.seekForPrev target).tombstone.isSome ∧
      (it.seekForPrev target).tombstone = ((it.tombstones.filter fun f => f.startKey ≤ target).filterMap
        (visibleTombstone it.lowerBound it.upperBound)).getLast?) :=
  have hF := ⟨by decide, by decide, by decide, by decide⟩
  ⟨hF, visible_tombstones_iteration _ hF⟩

end seek

end FragmentedRangeTombstoneIterator

end ForSt
