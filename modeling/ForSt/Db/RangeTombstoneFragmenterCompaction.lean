import Mathlib.Data.List.GetD
import ForSt.Db.RangeTombstoneFragmenterSpec
/-!
What fragmenting range tombstones for a compaction (`for_compaction = true`, no timestamps) keeps.

The snapshots cut the sequence numbers into stripes: on ascending snapshots stripe `j` is `(snap_{j-1}, snap_j]` and
the last one `(snap_last, +inf)`, so the stripe of a number is the number of snapshots below it (`snapshotStripe`),
and two numbers share a stripe exactly when every snapshot sees both or neither (`snapshotStripe_eq_iff`). A
compaction needs over a key only the newest number of each stripe (`NewestInStripe`): no reader sees anything else.

- `keepVisibleSeqnums_spec`: the snapshot loop, on descending numbers, keeps exactly the newest of each stripe. It
  carries `next_snapshot`, the largest snapshot below the stripe of the last number kept, from `std::lower_bound`
  (`lowerBound_eq_zero`, `lowerBound_pos`).
- The fragmenter for a compaction is the one for reads followed by that loop on each fragment
  (`fragmentedRangeTombstoneList_keepVisible`): the flag is read only where a fragment's numbers are pushed, so each
  function of the sweep commutes with the map (`flushLoop_keepVisible`, `addTombstones_keepVisible`).
- Every fragment's numbers are descending and come from the tombstones (`fragmentedRangeTombstoneList_seqsIn`).
- `fragmentedRangeTombstoneList_snapshot_stripes`: the same fragments, each keeping exactly the newest number of
  each of its stripes, and the same `MaxCoveringTombstoneSeqnum` at every snapshot and at `kMaxSequenceNumber`.

Sequence numbers are at most `kMaxSequenceNumber` (56 bits in an internal key); the loop starts with
`next_snapshot = kMaxSequenceNumber`.
-/

namespace ForSt

open ForSt.SortedSearch

section stripes

variable {snapshots : List ℕ}

/-- the snapshot stripe of a sequence number: the number of snapshots below it -/
def snapshotStripe (snapshots : List ℕ) (q : ℕ) : ℕ := snapshots.countP (fun s => decide (s < q))

/-- of the sequence numbers `L`, `q` is the newest of its stripe -/
def NewestInStripe (snapshots L : List ℕ) (q : ℕ) : Prop :=
  q ∈ L ∧ ∀ q' ∈ L, snapshotStripe snapshots q' = snapshotStripe snapshots q → q' ≤ q

/-- the snapshots below the smaller of two sequence numbers in one stripe are all those below the larger -/
theorem lt_of_snapshotStripe_eq {a b : ℕ} (hab : a ≤ b)
    (h : snapshotStripe snapshots a = snapshotStripe snapshots b) {s : ℕ} (hs : s ∈ snapshots) (hsb : s < b) : s < a := by
  have hsub : (snapshots.filter fun s => decide (s < a)).Sublist (snapshots.filter fun s => decide (s < b)) :=
    List.monotone_filter_right snapshots fun s hsa => by
      simp only [decide_eq_true_eq] at hsa ⊢
      exact lt_of_lt_of_le hsa hab
  have heq := hsub.eq_of_length (by simpa only [snapshotStripe, List.countP_eq_length_filter] using h)
  have hmem : s ∈ snapshots.filter fun s => decide (s < a) := heq ▸ List.mem_filter.mpr ⟨hs, decide_eq_true hsb⟩
  exact of_decide_eq_true (List.mem_filter.mp hmem).2

/-- two sequence numbers share a stripe exactly when every snapshot sees both or neither -/
theorem snapshotStripe_eq_iff {q q' : ℕ} :
    snapshotStripe snapshots q = snapshotStripe snapshots q' ↔ ∀ s ∈ snapshots, (q ≤ s ↔ q' ≤ s) := by
  constructor
  · intro h s hs
    rcases le_total q q' with hle | hle
    · exact ⟨fun hqs => not_lt.mp fun hsq' => absurd hqs (not_le.mpr (lt_of_snapshotStripe_eq hle h hs hsq')),
        fun hq's => le_trans hle hq's⟩
    · exact ⟨fun hqs => le_trans hle hqs,
        fun hq's => not_lt.mp fun hsq => absurd hq's (not_le.mpr (lt_of_snapshotStripe_eq hle h.symm hs hsq))⟩
  · intro h
    refine List.countP_congr fun s hs => ?_
    simp only [decide_eq_true_eq, ← not_le]
    exact not_congr (h s hs)

/-- a snapshot that sees `q` and not `q'` puts them in different stripes -/
theorem snapshotStripe_ne {q q' s : ℕ} (hs : s ∈ snapshots) (hq : q ≤ s) (hq' : s < q') :
    snapshotStripe snapshots q' ≠ snapshotStripe snapshots q := fun h =>
  absurd ((snapshotStripe_eq_iff.mp h s hs).mpr hq) (not_le.mpr hq')

variable {seq q : ℕ} {rest : List ℕ}

theorem newestInStripe_head (hdesc : ∀ x ∈ rest, x ≤ seq) : NewestInStripe snapshots (seq :: rest) seq := by
  refine ⟨List.mem_cons_self .., fun q' hq' _ => ?_⟩
  rcases List.mem_cons.mp hq' with rfl | hq'
  · exact le_refl _
  · exact hdesc q' hq'

/-- a snapshot between `q` and the head `seq` leaves `seq` out of the stripe of `q` -/
theorem newestInStripe_cons_iff {next : ℕ} (hnext : next ∈ snapshots) (hq : q ≤ next) (hseq : next < seq) :
    NewestInStripe snapshots (seq :: rest) q ↔ NewestInStripe snapshots rest q := by
  have hne := snapshotStripe_ne hnext hq hseq
  constructor
  · rintro ⟨hmem, hmax⟩
    rcases List.mem_cons.mp hmem with rfl | hmem
    · exact absurd (lt_of_le_of_lt hq hseq) (lt_irrefl _)
    · exact ⟨hmem, fun q' hq' => hmax q' (List.mem_cons_of_mem _ hq')⟩
  · rintro ⟨hmem, hmax⟩
    refine ⟨List.mem_cons_of_mem _ hmem, fun q' hq' hst => ?_⟩
    rcases List.mem_cons.mp hq' with rfl | hq'
    · exact absurd hst hne
    · exact hmax q' hq' hst

/-- the newest of a stripe that the head `seq` is in is the head -/
theorem NewestInStripe.eq_head (h : NewestInStripe snapshots (seq :: rest) q) (hdesc : ∀ x ∈ rest, x ≤ seq)
    (hst : ∀ s ∈ snapshots, (q ≤ s ↔ seq ≤ s)) : q = seq := by
  have hle : q ≤ seq := by
    rcases List.mem_cons.mp h.1 with rfl | hq
    · exact le_refl _
    · exact hdesc q hq
  exact le_antisymm hle (h.2 seq (List.mem_cons_self ..) (snapshotStripe_eq_iff.mpr fun s hs => (hst s hs).symm))

end stripes

section keepVisible

variable {snapshots : List ℕ} (hsnap : snapshots.Pairwise (· ≤ ·))
include hsnap

/-- `upper_bound_it == snapshots.begin()`: every snapshot sees `seq` -/
theorem lowerBound_eq_zero {seq : ℕ} (h : snapshots.findIdx (fun s => decide (seq ≤ s)) = 0) :
    ∀ s ∈ snapshots, seq ≤ s := by
  intro s hs
  obtain ⟨j, hj, rfl⟩ := List.getElem_of_mem hs
  exact not_lt.mp fun hlt => Nat.not_lt_zero j (h ▸ (getElem_lt_iff_lt_findIdx hsnap seq hj).mp hlt)

/-- `*std::prev(upper_bound_it)`: a snapshot below `seq`, and the largest of them -/
theorem lowerBound_pos {seq : ℕ} (h : snapshots.findIdx (fun s => decide (seq ≤ s)) ≠ 0) :
    let next := snapshots.getD (snapshots.findIdx (fun s => decide (seq ≤ s)) - 1) 0
    next ∈ snapshots ∧ next < seq ∧ ∀ s ∈ snapshots, s < seq → s ≤ next := by
  intro next
  set ub := snapshots.findIdx (fun s => decide (seq ≤ s)) with hub
  have hlen : ub - 1 < snapshots.length := by
    have : ub ≤ snapshots.length := List.findIdx_le_length
    omega
  have hnext : next = snapshots[ub - 1] := List.getD_eq_getElem _ _ hlen
  refine ⟨hnext ▸ List.getElem_mem hlen, hnext ▸ (getElem_lt_iff_lt_findIdx hsnap seq hlen).mpr (by omega), ?_⟩
  intro s hs hlt
  obtain ⟨j, hj, rfl⟩ := List.getElem_of_mem hs
  -- the snapshots below `seq` are those before the lower bound, and the last of them is the largest
  have hjub : j < ub := (getElem_lt_iff_lt_findIdx hsnap seq hj).mp hlt
  rw [hnext]
  rcases Nat.lt_or_eq_of_le (Nat.le_sub_one_of_lt hjub) with hj' | hj'
  · exact List.pairwise_iff_getElem.mp hsnap j (ub - 1) hj hlen hj'
  · simp only [hj', le_refl]

/-- the snapshot loop on sequence numbers in descending order keeps, in strictly descending order, exactly the
newest of each stripe that are not above `next_snapshot`; `next_snapshot` is a snapshot, or above them all -/
theorem keepVisibleSeqnums_spec {L : List ℕ} (hL : L.Pairwise (· ≥ ·)) {next : ℕ}
    (hnext : next ∈ snapshots ∨ ∀ q ∈ L, q ≤ next) :
    (keepVisibleSeqnums snapshots next L).Pairwise (· > ·) ∧
      ∀ q, q ∈ keepVisibleSeqnums snapshots next L ↔ NewestInStripe snapshots L q ∧ q ≤ next := by
  induction L generalizing next with
  | nil => simp [keepVisibleSeqnums, NewestInStripe]
  | cons seq rest ih =>
    rw [List.pairwise_cons] at hL
    have hdesc : ∀ x ∈ rest, x ≤ seq := hL.1
    by_cases hle : seq ≤ next
    · by_cases hub : snapshots.findIdx (fun s => decide (seq ≤ s)) = 0
      · -- the earliest snapshot sees `seq`: every later number is in its stripe, and the loop stops
        have hlow := lowerBound_eq_zero hsnap hub
        simp only [keepVisibleSeqnums, if_pos hle, hub, if_true, List.pairwise_singleton, List.mem_singleton,
          true_and]
        intro q
        constructor
        · rintro rfl
          exact ⟨newestInStripe_head hdesc, hle⟩
        · rintro ⟨hnew, -⟩
          have hqle : q ≤ seq := by
            rcases List.mem_cons.mp hnew.1 with rfl | hq
            · exact le_refl _
            · exact hdesc q hq
          exact hnew.eq_head hdesc fun s hs => ⟨fun _ => hlow s hs, fun hs' => le_trans hqle hs'⟩
      · -- `seq` is kept and the loop goes on below the largest snapshot under it
        obtain ⟨hmem', hlt', hbelow⟩ := lowerBound_pos hsnap hub
        set next' := snapshots.getD (snapshots.findIdx (fun s => decide (seq ≤ s)) - 1) 0
        obtain ⟨ihdesc, ihmem⟩ := ih hL.2 (.inl hmem')
        simp only [keepVisibleSeqnums, if_pos hle, if_neg hub]
        refine ⟨List.Pairwise.cons (fun q hq => lt_of_le_of_lt ((ihmem q).mp hq).2 hlt') ihdesc, fun q => ?_⟩
        rw [List.mem_cons, ihmem]
        by_cases hq : q = seq
        · subst hq
          simp only [true_or, true_iff]
          exact ⟨newestInStripe_head hdesc, hle⟩
        · rw [or_iff_right hq]
          constructor
          · rintro ⟨hnew, hq'⟩
            exact ⟨(newestInStripe_cons_iff hmem' hq' hlt').mpr hnew, le_trans hq' (le_trans hlt'.le hle)⟩
          · rintro ⟨hnew, -⟩
            -- above `next'` the number would be in the stripe of `seq`, whose newest is `seq`
            have hq' : q ≤ next' := by
              refine not_lt.mp fun hgt => hq (hnew.eq_head hdesc fun s hs => ?_)
              have hqle : q ≤ seq := by
                rcases List.mem_cons.mp hnew.1 with rfl | hq
                · exact le_refl _
                · exact hdesc q hq
              exact ⟨fun hqs => not_lt.mp fun hss => absurd (lt_of_lt_of_le hgt hqs) (not_lt.mpr (hbelow s hs hss)),
                fun hs' => le_trans hqle hs'⟩
            exact ⟨(newestInStripe_cons_iff hmem' hq' hlt').mp hnew, hq'⟩
    · -- `seq` is above `next_snapshot`, a snapshot: it is in the stripe of a number kept before
      have hnext' : next ∈ snapshots := hnext.resolve_right fun h => hle (h seq (List.mem_cons_self ..))
      obtain ⟨ihdesc, ihmem⟩ := ih hL.2 (.inl hnext')
      simp only [keepVisibleSeqnums, if_neg hle]
      refine ⟨ihdesc, fun q => ?_⟩
      rw [ihmem]
      exact and_congr_left fun hq => (newestInStripe_cons_iff hnext' hq (not_le.mp hle)).symm

end keepVisible

section sweep

variable {UK : Type} [LinearOrder UK] (snapshots : List ℕ)

/-- a fragment with the sequence numbers a compaction keeps of it -/
def RangeTombstoneStack.keepVisible (f : RangeTombstoneStack UK) : RangeTombstoneStack UK :=
  { f with seqs := keepVisibleSeqnums snapshots kMaxSequenceNumber f.seqs }

/-- the sweep's state with the sequence numbers a compaction keeps of each fragment -/
def FragmenterState.keepVisible (st : FragmenterState UK) : FragmenterState UK :=
  { st with tombstones := st.tombstones.map (RangeTombstoneStack.keepVisible snapshots) }

/-- a flush for a compaction emits the fragments of the flush for reads, with the sequence numbers it keeps -/
theorem flushLoop_keepVisible {next : UK} (cur : UK) (L : List (UK × ℕ)) (out : List (RangeTombstoneStack UK)) :
    flushLoop true snapshots next cur L (out.map (RangeTombstoneStack.keepVisible snapshots)) =
      ((flushLoop false snapshots next cur L out).1.map (RangeTombstoneStack.keepVisible snapshots),
        (flushLoop false snapshots next cur L out).2) := by
  induction L generalizing cur out with
  | nil => rfl
  | cons x rest ih =>
    by_cases hskip : cur = x.1
    · simp only [flushLoop, if_pos hskip]
      exact ih cur out
    · by_cases hreach : next ≤ x.1
      · simp only [flushLoop, if_neg hskip, if_pos hreach, List.map_append, List.map_cons, List.map_nil]
        rfl
      · simp only [flushLoop, if_neg hskip, if_neg hreach]
        rw [← ih x.1 (out ++ [_]), List.map_append, List.map_singleton]
        rfl

theorem flushCurrentTombstones_keepVisible (st : FragmenterState UK) (next : UK) :
    (st.keepVisible snapshots).flushCurrentTombstones true snapshots next =
      (st.flushCurrentTombstones false snapshots next).keepVisible snapshots := by
  simp only [FragmenterState.flushCurrentTombstones, FragmenterState.keepVisible, flushLoop_keepVisible]

theorem addTombstone_keepVisible (st : FragmenterState UK) (t : RangeTombstone UK) :
    (st.keepVisible snapshots).addTombstone true snapshots t =
      (st.addTombstone false snapshots t).keepVisible snapshots := by
  -- the test for a flush reads the start key and the end keys, which the map leaves as they are
  by_cases hflush : st.curEndKeys ≠ [] ∧ st.curStartKey ≠ t.startKey
  · have hflush' : (st.keepVisible snapshots).curEndKeys ≠ [] ∧
        (st.keepVisible snapshots).curStartKey ≠ t.startKey := hflush
    simp only [FragmenterState.addTombstone, if_pos hflush, if_pos hflush', flushCurrentTombstones_keepVisible]
    rfl
  · have hflush' : ¬((st.keepVisible snapshots).curEndKeys ≠ [] ∧
        (st.keepVisible snapshots).curStartKey ≠ t.startKey) := hflush
    simp only [FragmenterState.addTombstone, if_neg hflush, if_neg hflush']
    rfl

theorem addTombstones_keepVisible (st : FragmenterState UK) (ts : List (RangeTombstone UK)) :
    (st.keepVisible snapshots).addTombstones true snapshots ts =
      (st.addTombstones false snapshots ts).keepVisible snapshots := by
  induction ts generalizing st with
  | nil => rfl
  | cons t ts ih =>
    simp only [FragmenterState.addTombstones, addTombstone_keepVisible, ih]

/-- `FragmentTombstones` for a compaction is `FragmentTombstones` for reads with the sequence numbers a compaction
keeps of each fragment -/
theorem fragmentTombstones_keepVisible (T : List (RangeTombstone UK)) :
    fragmentTombstones true snapshots T =
      (fragmentTombstones false snapshots T).map (RangeTombstoneStack.keepVisible snapshots) := by
  cases T with
  | nil => rfl
  | cons t ts =>
    -- the sweep starts with no fragments, which the map leaves as they are
    have hstart := addTombstones_keepVisible snapshots ⟨t.startKey, [], []⟩ (t :: ts)
    simp only [FragmenterState.keepVisible, List.map_nil] at hstart
    simp only [fragmentTombstones, hstart]
    split
    · next lastEndKey hlast =>
      rw [← FragmenterState.keepVisible, flushCurrentTombstones_keepVisible]
      rfl
    · rfl

theorem fragmentedRangeTombstoneList_keepVisible (T : List (RangeTombstone UK)) :
    fragmentedRangeTombstoneList true snapshots T =
      (fragmentedRangeTombstoneList false snapshots T).map (RangeTombstoneStack.keepVisible snapshots) := by
  simp only [fragmentedRangeTombstoneList]
  split
  · exact fragmentTombstones_keepVisible snapshots T
  · exact fragmentTombstones_keepVisible snapshots _

-- `OverlapAndRepeatedStartKeyForCompaction` and `...WithSnapshot` of the fragmenter's tests, with the keys `a`, `c`,
-- `e`, `g`, `i`, `j`, `l`, `n` as 1, 3, 5, 7, 9, 10, 12, 14
example : fragmentedRangeTombstoneList true []
    ([⟨1, 10, 5⟩, ⟨10, 4, 14⟩, ⟨3, 6, 9⟩, ⟨3, 8, 7⟩, ⟨10, 2, 12⟩] : List (RangeTombstone ℕ)) =
    [⟨1, 3, [10]⟩, ⟨3, 5, [10]⟩, ⟨5, 7, [8]⟩, ⟨7, 9, [6]⟩, ⟨10, 12, [4]⟩, ⟨12, 14, [4]⟩] := by decide

example : fragmentedRangeTombstoneList true [9, 20]
    ([⟨1, 10, 5⟩, ⟨10, 4, 14⟩, ⟨3, 6, 9⟩, ⟨3, 8, 7⟩, ⟨10, 2, 12⟩] : List (RangeTombstone ℕ)) =
    [⟨1, 3, [10]⟩, ⟨3, 5, [10, 8]⟩, ⟨5, 7, [8]⟩, ⟨7, 9, [6]⟩, ⟨10, 12, [4]⟩, ⟨12, 14, [4]⟩] := by decide

end sweep

section seqsIn

open ForSt.Containers

variable {UK : Type} [LinearOrder UK] (snapshots : List ℕ) (P : ℕ → Prop)

/-- the fragment's sequence numbers are in descending order and pass `P` -/
def RangeTombstoneStack.SeqsIn (f : RangeTombstoneStack UK) : Prop :=
  f.seqs.Pairwise (· ≥ ·) ∧ ∀ q ∈ f.seqs, P q

/-- the sequence numbers of the end keys and of the fragments of a sweep for reads: those of the fragments are in
descending order, and all pass `P` -/
structure FragmenterState.SeqsIn (st : FragmenterState UK) : Prop where
  endKeys : ∀ x ∈ st.curEndKeys, P x.2
  tombstones : ∀ f ∈ st.tombstones, f.SeqsIn P

variable {P}

omit [LinearOrder UK] in
theorem seqsIn_flushedSeqnums {L : List (UK × ℕ)} (hL : ∀ x ∈ L, P x.2) (start «end» : UK) :
    (⟨start, «end», flushedSeqnums false snapshots L⟩ : RangeTombstoneStack UK).SeqsIn P := by
  refine ⟨flushedSeqnums_desc snapshots L, fun q hq => ?_⟩
  obtain ⟨x, hx, rfl⟩ := (mem_flushedSeqnums snapshots L).mp hq
  exact hL x hx

/-- a flush for reads emits fragments whose sequence numbers are those of the end keys, and leaves some of them -/
theorem flushLoop_seqsIn (next cur : UK) {L : List (UK × ℕ)} (hL : ∀ x ∈ L, P x.2)
    {out : List (RangeTombstoneStack UK)} (hout : ∀ f ∈ out, f.SeqsIn P) :
    (∀ f ∈ (flushLoop false snapshots next cur L out).1, f.SeqsIn P) ∧
      ∀ L', (flushLoop false snapshots next cur L out).2 = some L' → ∀ x ∈ L', P x.2 := by
  induction L generalizing cur out with
  | nil =>
    refine ⟨hout, fun L' h => ?_⟩
    cases h
  | cons x rest ih =>
    have hrest : ∀ y ∈ rest, P y.2 := fun y hy => hL y (List.mem_cons_of_mem x hy)
    -- an emitted fragment is one more fragment after `out`
    have happend : ∀ {start «end» : UK},
        ∀ f ∈ out ++ [⟨start, «end», flushedSeqnums false snapshots (x :: rest)⟩], f.SeqsIn P := by
      intro start «end» f hf
      rcases List.mem_append.mp hf with hf | hf
      · exact hout f hf
      · exact List.mem_singleton.mp hf ▸ seqsIn_flushedSeqnums snapshots hL start «end»
    by_cases hskip : cur = x.1
    · simp only [flushLoop, if_pos hskip]
      exact ih cur hrest hout
    · by_cases hreach : next ≤ x.1
      · simp only [flushLoop, if_neg hskip, if_pos hreach]
        refine ⟨happend, fun L' h => ?_⟩
        cases h
        exact hL
      · simp only [flushLoop, if_neg hskip, if_neg hreach]
        exact ih x.1 hrest happend

theorem FragmenterState.SeqsIn.flush {st : FragmenterState UK} (h : st.SeqsIn P) (next : UK) :
    (st.flushCurrentTombstones false snapshots next).SeqsIn P := by
  obtain ⟨hfrag, hleft⟩ := flushLoop_seqsIn snapshots next st.curStartKey h.endKeys h.tombstones
  refine ⟨fun x hx => ?_, hfrag⟩
  simp only [FragmenterState.flushCurrentTombstones] at hx
  cases hr : (flushLoop false snapshots next st.curStartKey st.curEndKeys st.tombstones).2 with
  | none => simp only [hr, Option.getD_none, List.not_mem_nil] at hx
  | some L' =>
    simp only [hr, Option.getD_some] at hx
    exact hleft L' hr x hx

theorem FragmenterState.SeqsIn.addTombstone {st : FragmenterState UK} (h : st.SeqsIn P) {t : RangeTombstone UK}
    (ht : P t.seq) : (st.addTombstone false snapshots t).SeqsIn P := by
  -- the flush, when there is one, keeps the invariant; then the tombstone's end key joins the set
  have hflushed : (if st.curEndKeys ≠ [] ∧ st.curStartKey ≠ t.startKey then
      st.flushCurrentTombstones false snapshots t.startKey else st).SeqsIn P := by
    split
    · exact h.flush snapshots t.startKey
    · exact h
  refine ⟨fun x hx => ?_, hflushed.tombstones⟩
  rcases mem_setEmplace hx with rfl | hx
  · exact ht
  · exact hflushed.endKeys x hx

theorem FragmenterState.SeqsIn.addTombstones {st : FragmenterState UK} (h : st.SeqsIn P)
    {ts : List (RangeTombstone UK)} (hts : ∀ t ∈ ts, P t.seq) : (st.addTombstones false snapshots ts).SeqsIn P := by
  induction ts generalizing st with
  | nil => exact h
  | cons t ts ih =>
    exact ih (h.addTombstone snapshots (hts t (List.mem_cons_self ..))) fun t' ht' =>
      hts t' (List.mem_cons_of_mem t ht')

theorem fragmentTombstones_seqsIn {T : List (RangeTombstone UK)} (hT : ∀ t ∈ T, P t.seq) :
    ∀ f ∈ fragmentTombstones false snapshots T, f.SeqsIn P := by
  cases T with
  | nil => exact fun f hf => absurd hf List.not_mem_nil
  | cons t ts =>
    have hinit : (⟨t.startKey, [], []⟩ : FragmenterState UK).SeqsIn P :=
      ⟨fun x hx => absurd hx List.not_mem_nil, fun f hf => absurd hf List.not_mem_nil⟩
    have hsweep := hinit.addTombstones snapshots hT
    simp only [fragmentTombstones]
    split
    · exact (hsweep.flush snapshots _).tombstones
    · exact hsweep.tombstones

/-- the fragments for reads of any tombstones have their sequence numbers in descending order, each that of a
tombstone -/
theorem fragmentedRangeTombstoneList_seqsIn {T : List (RangeTombstone UK)} (hT : ∀ t ∈ T, P t.seq) :
    ∀ f ∈ fragmentedRangeTombstoneList false snapshots T, f.SeqsIn P := by
  simp only [fragmentedRangeTombstoneList]
  split
  · exact fragmentTombstones_seqsIn snapshots hT
  · exact fragmentTombstones_seqsIn snapshots fun t ht =>
      hT t ((List.perm_insertionSort (fun a b => startKeyGt a b = false) T).subset ht)

end seqsIn

section maxCovering

variable {UK : Type} [LinearOrder UK] {snapshots : List ℕ} (hsnap : snapshots.Pairwise (· ≤ ·))
include hsnap

/-- a reader at a snapshot, or at `kMaxSequenceNumber`, finds the same newest sequence number among those a
compaction keeps as among all -/
theorem find?_keepVisibleSeqnums {L : List ℕ} (hL : L.Pairwise (· ≥ ·))
    (hmax : ∀ q ∈ L, q ≤ kMaxSequenceNumber) {S : ℕ} (hS : S ∈ snapshots ∨ S = kMaxSequenceNumber) :
    (keepVisibleSeqnums snapshots kMaxSequenceNumber L).find? (fun s => decide (s ≤ S)) =
      L.find? (fun s => decide (s ≤ S)) := by
  obtain ⟨hdesc, hmem⟩ := keepVisibleSeqnums_spec hsnap hL (.inr hmax)
  rw [find?_eq_max?_filter (hdesc.imp le_of_lt), find?_eq_max?_filter hL]
  refine max?_eq_of_subset (fun x hx => ?_) (fun m hm => ?_)
  · rw [List.mem_filter] at hx ⊢
    exact ⟨((hmem x).mp hx.1).1.1, hx.2⟩
  · -- the newest number the reader sees is the newest of its stripe: the others of the stripe it sees too
    obtain ⟨hmS, hle⟩ := List.max?_eq_some_iff.mp hm
    rw [List.mem_filter] at hmS ⊢
    refine ⟨(hmem m).mpr ⟨⟨hmS.1, fun q' hq' hst => hle q' (List.mem_filter.mpr ⟨hq', ?_⟩)⟩, hmax m hmS.1⟩,
      hmS.2⟩
    rcases hS with hS | rfl
    · exact decide_eq_true ((snapshotStripe_eq_iff.mp hst S hS).mpr (of_decide_eq_true hmS.2))
    · exact decide_eq_true (hmax q' hq')

/-- `MaxCoveringTombstoneSeqnum` at a snapshot, or at `kMaxSequenceNumber`, is the same on fragments with the
sequence numbers a compaction keeps -/
theorem maxCoveringTombstoneSeqnum_keepVisible {F : List (RangeTombstoneStack UK)}
    (hF : ∀ f ∈ F, f.SeqsIn (· ≤ kMaxSequenceNumber)) {S : ℕ} (hS : S ∈ snapshots ∨ S = kMaxSequenceNumber)
    (k : UK) :
    maxCoveringTombstoneSeqnum (F.map (RangeTombstoneStack.keepVisible snapshots)) S k =
      maxCoveringTombstoneSeqnum F S k := by
  -- the seek reads end keys only, so it lands on the same fragment
  have hseek : seekToCoveringTombstone (F.map (RangeTombstoneStack.keepVisible snapshots)) k =
      (seekToCoveringTombstone F k).map (RangeTombstoneStack.keepVisible snapshots) := by
    simp only [seekToCoveringTombstone, List.find?_map]
    rfl
  simp only [maxCoveringTombstoneSeqnum, hseek]
  cases hpos : seekToCoveringTombstone F k with
  | none => rfl
  | some pos =>
    have hf := hF pos (seekToCoveringTombstone_some hpos).1
    have hvis : setMaxVisibleSeq S (pos.keepVisible snapshots) = setMaxVisibleSeq S pos :=
      find?_keepVisibleSeqnums hsnap hf.1 hf.2 hS
    simp only [Option.map_some, hvis]
    rfl

end maxCovering

section snapshotStripes

variable {UK : Type} [LinearOrder UK]

/-- fragmenting for a compaction: the fragments of the fragmenting for reads, each keeping, in strictly descending
order, exactly the newest of its sequence numbers in each snapshot stripe; so at each snapshot, and at
`kMaxSequenceNumber`, `MaxCoveringTombstoneSeqnum` is unchanged -/
theorem fragmentedRangeTombstoneList_snapshot_stripes (snapshots : List ℕ) (T : List (RangeTombstone UK))
    (hsnap : snapshots.Pairwise (· ≤ ·)) (hseq : ∀ t ∈ T, t.seq ≤ kMaxSequenceNumber) :
    List.Forall₂ (fun f₀ f => f.startKey = f₀.startKey ∧ f.endKey = f₀.endKey ∧ f.seqs.Pairwise (· > ·) ∧
        ∀ q, q ∈ f.seqs ↔ NewestInStripe snapshots f₀.seqs q)
      (fragmentedRangeTombstoneList false snapshots T) (fragmentedRangeTombstoneList true snapshots T) ∧
    ∀ S, (S ∈ snapshots ∨ S = kMaxSequenceNumber) → ∀ k,
      maxCoveringTombstoneSeqnum (fragmentedRangeTombstoneList true snapshots T) S k =
        maxCoveringTombstoneSeqnum (fragmentedRangeTombstoneList false snapshots T) S k := by
  have hF := fragmentedRangeTombstoneList_seqsIn snapshots (P := (· ≤ kMaxSequenceNumber)) hseq
  rw [fragmentedRangeTombstoneList_keepVisible]
  refine ⟨List.forall₂_map_right_iff.mpr (List.forall₂_same.mpr fun f hf => ?_),
    fun S hS k => maxCoveringTombstoneSeqnum_keepVisible hsnap hF hS k⟩
  obtain ⟨hdesc, hmem⟩ := keepVisibleSeqnums_spec hsnap (hF f hf).1 (.inr (hF f hf).2)
  exact ⟨rfl, rfl, hdesc, fun q => (hmem q).trans (and_iff_left_of_imp fun hnew => (hF f hf).2 q hnew.1)⟩

/-- the overlapping tombstones with repeated start keys of the fragmenter's tests, with the snapshots 9 and 20 -/
theorem fragmentedRangeTombstoneList_snapshot_stripes_overlap :
    let T : List (RangeTombstone ℕ) := [⟨1, 10, 5⟩, ⟨10, 4, 14⟩, ⟨3, 6, 9⟩, ⟨3, 8, 7⟩, ⟨10, 2, 12⟩]
    ([9, 20] : List ℕ).Pairwise (· ≤ ·) ∧ (∀ t ∈ T, t.seq ≤ kMaxSequenceNumber) ∧
    (List.Forall₂ (fun f₀ f => f.startKey = f₀.startKey ∧ f.endKey = f₀.endKey ∧ f.seqs.Pairwise (· > ·) ∧
        ∀ q, q ∈ f.seqs ↔ NewestInStripe [9, 20] f₀.seqs q)
      (fragmentedRangeTombstoneList false [9, 20] T) (fragmentedRangeTombstoneList true [9, 20] T) ∧
    ∀ S, (S ∈ [9, 20] ∨ S = kMaxSequenceNumber) → ∀ k,
      maxCoveringTombstoneSeqnum (fragmentedRangeTombstoneList true [9, 20] T) S k =
        maxCoveringTombstoneSeqnum (fragmentedRangeTombstoneList false [9, 20] T) S k) :=
  ⟨by decide, by decide, fragmentedRangeTombstoneList_snapshot_stripes [9, 20] _ (by decide) (by decide)⟩

end snapshotStripes

end ForSt
