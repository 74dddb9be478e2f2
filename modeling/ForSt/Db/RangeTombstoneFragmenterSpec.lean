import ForSt.Db.RangeTombstoneFragmenter
import ForSt.Lib.SortedSearch
/-!
What fragmenting range tombstones keeps, for reads (`for_compaction = false`).

The fragments `F` of the tombstones `T` (`FragmentsOf T F`) are in order and disjoint, each with its sequence numbers
descending, and a key lies in a fragment exactly when some tombstone covers it, with exactly their sequence numbers.
The sweep keeps `FragmenterState.Inv`: `cur_end_keys` holds the end keys of the tombstones that reach past
`cur_start_key`, and the fragments cover everything before it; a flush keeps it (`flushLoop_outcome`, `Inv.flush`),
and so does each tombstone read in start order (`Inv.addTombstone`). Tombstones end at or after they start, as
`DeleteRange` and `MemTableInserter::DeleteRangeCF` ensure.
-/

namespace ForSt

open ForSt.Containers ForSt.SortedSearch

variable {UK : Type} [LinearOrder UK]

/-- the tombstone deletes the key -/
def RangeTombstone.Covers (t : RangeTombstone UK) (k : UK) : Prop := t.startKey ≤ k ∧ k < t.endKey

instance (t : RangeTombstone UK) (k : UK) : Decidable (t.Covers k) := inferInstanceAs (Decidable (_ ∧ _))

def RangeTombstoneStack.Contains (f : RangeTombstoneStack UK) (k : UK) : Prop := f.startKey ≤ k ∧ k < f.endKey

instance (f : RangeTombstoneStack UK) (k : UK) : Decidable (f.Contains k) := inferInstanceAs (Decidable (_ ∧ _))

/-- fragments as `tombstones_` must hold them -/
structure Fragmented (F : List (RangeTombstoneStack UK)) : Prop where
  nonempty : ∀ f ∈ F, f.startKey < f.endKey
  /-- `assert(start_idx < end_idx)` -/
  seqsNonempty : ∀ f ∈ F, f.seqs ≠ []
  seqsDesc : ∀ f ∈ F, f.seqs.Pairwise (· ≥ ·)
  /-- each fragment ends at or before every later one starts -/
  disjoint : F.Pairwise (fun f g => f.endKey ≤ g.startKey)

/-- `F` is a fragmentation of the tombstones `T` -/
structure FragmentsOf (T : List (RangeTombstone UK)) (F : List (RangeTombstoneStack UK)) : Prop
    extends Fragmented F where
  covers : ∀ k q, (∃ f ∈ F, f.Contains k ∧ q ∈ f.seqs) ↔ ∃ t ∈ T, t.Covers k ∧ t.seq = q

section fragmented

variable {A B F : List (RangeTombstoneStack UK)}

theorem Fragmented.nil : Fragmented ([] : List (RangeTombstoneStack UK)) where
  nonempty _ h := absurd h List.not_mem_nil
  seqsNonempty _ h := absurd h List.not_mem_nil
  seqsDesc _ h := absurd h List.not_mem_nil
  disjoint := List.Pairwise.nil

theorem Fragmented.singleton {f : RangeTombstoneStack UK} (hf : f.startKey < f.endKey) (hne : f.seqs ≠ [])
    (hdesc : f.seqs.Pairwise (· ≥ ·)) : Fragmented [f] where
  nonempty _ hg := List.mem_singleton.mp hg ▸ hf
  seqsNonempty _ hg := List.mem_singleton.mp hg ▸ hne
  seqsDesc _ hg := List.mem_singleton.mp hg ▸ hdesc
  disjoint := List.pairwise_singleton _ f

theorem Fragmented.append (hA : Fragmented A) (hB : Fragmented B)
    (hAB : ∀ a ∈ A, ∀ b ∈ B, a.endKey ≤ b.startKey) : Fragmented (A ++ B) where
  nonempty f hf := (List.mem_append.mp hf).elim (hA.nonempty f) (hB.nonempty f)
  seqsNonempty f hf := (List.mem_append.mp hf).elim (hA.seqsNonempty f) (hB.seqsNonempty f)
  seqsDesc f hf := (List.mem_append.mp hf).elim (hA.seqsDesc f) (hB.seqsDesc f)
  disjoint := List.pairwise_append.mpr ⟨hA.disjoint, hB.disjoint, hAB⟩

/-- disjoint non-empty fragments are in start order -/
theorem Fragmented.sorted (h : Fragmented F) : F.Pairwise (fun f g => f.startKey < g.startKey) :=
  h.disjoint.imp_of_mem fun hf _ hfg => lt_of_lt_of_le (h.nonempty _ hf) hfg

/-- at most one fragment contains a key -/
theorem eq_of_contains_of_pairwise (hF : F.Pairwise (fun f g => f.endKey ≤ g.startKey)) {k : UK}
    {f g : RangeTombstoneStack UK} (hf : f ∈ F) (hg : g ∈ F) (hfk : f.Contains k) (hgk : g.Contains k) : f = g := by
  induction F with
  | nil => cases hf
  | cons x F ih =>
    rw [List.pairwise_cons] at hF
    rcases List.mem_cons.mp hf with rfl | hfF <;> rcases List.mem_cons.mp hg with rfl | hgF
    · rfl
    · exact absurd (lt_of_lt_of_le hfk.2 (le_trans (hF.1 g hgF) hgk.1)) (lt_irrefl k)
    · exact absurd (lt_of_lt_of_le hgk.2 (le_trans (hF.1 f hfF) hfk.1)) (lt_irrefl k)
    · exact ih hF.2 hfF hgF

/-- a key past every fragment of `B` is in a fragment of `A ++ B` when it is in one of `A` -/
theorem exists_contains_append_of_right {k : UK} {q : ℕ} (hB : ∀ f ∈ B, ¬f.Contains k) :
    (∃ f ∈ A ++ B, f.Contains k ∧ q ∈ f.seqs) ↔ ∃ f ∈ A, f.Contains k ∧ q ∈ f.seqs := by
  constructor
  · rintro ⟨f, hf, hfk, hq⟩
    rcases List.mem_append.mp hf with hf | hf
    · exact ⟨f, hf, hfk, hq⟩
    · exact absurd hfk (hB f hf)
  · rintro ⟨f, hf, hfk, hq⟩
    exact ⟨f, List.mem_append_left B hf, hfk, hq⟩

theorem exists_contains_append_of_left {k : UK} {q : ℕ} (hA : ∀ f ∈ A, ¬f.Contains k) :
    (∃ f ∈ A ++ B, f.Contains k ∧ q ∈ f.seqs) ↔ ∃ f ∈ B, f.Contains k ∧ q ∈ f.seqs := by
  constructor
  · rintro ⟨f, hf, hfk, hq⟩
    rcases List.mem_append.mp hf with hf | hf
    · exact absurd hfk (hA f hf)
    · exact ⟨f, hf, hfk, hq⟩
  · rintro ⟨f, hf, hfk, hq⟩
    exact ⟨f, List.mem_append_right A hf, hfk, hq⟩

end fragmented

section fragmentsOf

variable {T T' : List (RangeTombstone UK)} {F : List (RangeTombstoneStack UK)}

/-- the sequence numbers of the fragment that contains a key are those of the tombstones over it -/
theorem FragmentsOf.seqs_iff (h : FragmentsOf T F) {k : UK} {f : RangeTombstoneStack UK} (hf : f ∈ F)
    (hfk : f.Contains k) (q : ℕ) : q ∈ f.seqs ↔ ∃ t ∈ T, t.Covers k ∧ t.seq = q := by
  rw [← h.covers k q]
  constructor
  · intro hq
    exact ⟨f, hf, hfk, hq⟩
  · rintro ⟨g, hg, hgk, hq⟩
    rwa [eq_of_contains_of_pairwise h.disjoint hf hg hfk hgk]

/-- a key is in a fragment exactly when a tombstone covers it -/
theorem FragmentsOf.contains_iff (h : FragmentsOf T F) (k : UK) :
    (∃ f ∈ F, f.Contains k) ↔ ∃ t ∈ T, t.Covers k := by
  constructor
  · rintro ⟨f, hf, hfk⟩
    obtain ⟨q, hq⟩ := List.exists_mem_of_ne_nil _ (h.seqsNonempty f hf)
    obtain ⟨t, ht, htk, -⟩ := (h.covers k q).mp ⟨f, hf, hfk, hq⟩
    exact ⟨t, ht, htk⟩
  · rintro ⟨t, ht, htk⟩
    obtain ⟨f, hf, hfk, -⟩ := (h.covers k t.seq).mpr ⟨t, ht, htk, rfl⟩
    exact ⟨f, hf, hfk⟩

theorem FragmentsOf.nil : FragmentsOf ([] : List (RangeTombstone UK)) [] where
  toFragmented := Fragmented.nil
  covers _ _ := ⟨fun ⟨_, h, _⟩ => absurd h List.not_mem_nil, fun ⟨_, h, _⟩ => absurd h List.not_mem_nil⟩

/-- the order of the tombstones does not matter -/
theorem FragmentsOf.of_perm (h : FragmentsOf T F) (hp : T.Perm T') : FragmentsOf T' F where
  toFragmented := h.toFragmented
  covers k q := by
    rw [h.covers k q]
    constructor
    · rintro ⟨t, ht, htk⟩
      exact ⟨t, hp.subset ht, htk⟩
    · rintro ⟨t, ht, htk⟩
      exact ⟨t, hp.symm.subset ht, htk⟩

end fragmentsOf

section orders

variable {a b c : RangeTombstone UK}

theorem startKeyGt_eq_false : startKeyGt a b = false ↔ a.startKey ≤ b.startKey ∧ (a.startKey = b.startKey → b.seq ≤ a.seq) := by
  simp only [startKeyGt, Bool.or_eq_false_iff, decide_eq_false_iff_not, not_lt, Bool.and_eq_false_iff,
    beq_eq_false_iff_ne, ne_eq]
  grind

theorem startKeyGt_total (a b : RangeTombstone UK) : startKeyGt a b = false ∨ startKeyGt b a = false := by
  rw [startKeyGt_eq_false, startKeyGt_eq_false]
  grind

theorem startKeyGt_trans (hab : startKeyGt a b = false) (hbc : startKeyGt b c = false) : startKeyGt a c = false := by
  rw [startKeyGt_eq_false] at hab hbc ⊢
  grind

/-- the order of `cur_end_keys` refines the order by end user key -/
theorem endKeyLt_le {x y : UK × ℕ} (h : endKeyLt x y = true) : x.1 ≤ y.1 := by
  simp only [endKeyLt, Bool.or_eq_true, decide_eq_true_eq, Bool.and_eq_true, beq_iff_eq] at h
  rcases h with h | ⟨h, -⟩
  · exact le_of_lt h
  · exact le_of_eq h

/-- two end keys that neither order puts first are the same -/
theorem endKeyLt_tri (x y : UK × ℕ) (hxy : endKeyLt x y = false) (hyx : endKeyLt y x = false) : x = y := by
  simp only [endKeyLt, Bool.or_eq_false_iff, decide_eq_false_iff_not, not_lt, Bool.and_eq_false_iff,
    beq_eq_false_iff_ne, ne_eq] at hxy hyx
  have h1 : x.1 = y.1 := le_antisymm hyx.1 hxy.1
  have h2 : x.2 = y.2 := by
    rcases hxy.2 with h | h
    · exact absurd h1 h
    · rcases hyx.2 with h' | h'
      · exact absurd h1.symm h'
      · omega
  exact Prod.ext h1 h2

end orders

section seqnums

variable (snapshots : List ℕ) (L : List (UK × ℕ))

omit [LinearOrder UK] in
theorem mem_flushedSeqnums {q : ℕ} : q ∈ flushedSeqnums false snapshots L ↔ ∃ x ∈ L, x.2 = q := by
  simp only [flushedSeqnums, Bool.false_eq_true, if_false, List.mem_insertionSort, List.mem_map]

omit [LinearOrder UK] in
theorem flushedSeqnums_desc : (flushedSeqnums false snapshots L).Pairwise (· ≥ ·) :=
  List.pairwise_insertionSort _ _

omit [LinearOrder UK] in
theorem flushedSeqnums_ne_nil (h : L ≠ []) : flushedSeqnums false snapshots L ≠ [] := by
  obtain ⟨x, hx⟩ := List.exists_mem_of_ne_nil L h
  exact List.ne_nil_of_mem ((mem_flushedSeqnums snapshots L).mpr ⟨x, hx, rfl⟩)

end seqnums

section flush

variable {forCompaction : Bool} {snapshots : List ℕ} {next : UK}

/-- the fragments emitted before stay in front -/
theorem flushLoop_append (cur : UK) (L : List (UK × ℕ)) (out : List (RangeTombstoneStack UK)) :
    flushLoop forCompaction snapshots next cur L out =
      (out ++ (flushLoop forCompaction snapshots next cur L []).1,
        (flushLoop forCompaction snapshots next cur L []).2) := by
  induction L generalizing cur out with
  | nil => simp only [flushLoop, List.append_nil]
  | cons x rest ih =>
    by_cases hskip : cur = x.1
    · simp only [flushLoop, if_pos hskip]
      exact ih cur out
    · by_cases hreach : next ≤ x.1
      · simp only [flushLoop, if_neg hskip, if_pos hreach, List.nil_append]
      · simp only [flushLoop, if_neg hskip, if_neg hreach, List.nil_append]
        rw [ih x.1 (out ++ _), ih x.1 [_], List.append_assoc]

/-- what the loop of a flush from `cur` over the end keys `L` leaves for `next`: fragments over `[cur, next)`, each
key with the sequence numbers of the end keys past it, and the end keys past `next` -/
structure FlushOutcome (next cur : UK) (L : List (UK × ℕ))
    (r : List (RangeTombstoneStack UK) × Option (List (UK × ℕ))) : Prop where
  fragmented : Fragmented r.1
  bounds : ∀ g ∈ r.1, cur ≤ g.startKey ∧ g.endKey ≤ next
  covers : ∀ k, cur ≤ k → k < next → ∀ q,
    (∃ g ∈ r.1, g.Contains k ∧ q ∈ g.seqs) ↔ ∃ x ∈ L, k < x.1 ∧ x.2 = q
  keptSuffix : r.2.getD [] <:+ L
  keptAbove : ∀ x ∈ r.2.getD [], next ≤ x.1
  keptAll : ∀ x ∈ L, next < x.1 → x ∈ r.2.getD []

theorem FlushOutcome.nil (cur : UK) : FlushOutcome next cur [] ([], none) where
  fragmented := Fragmented.nil
  bounds _ h := absurd h List.not_mem_nil
  covers _ _ _ _ := ⟨fun ⟨_, h, _⟩ => absurd h List.not_mem_nil, fun ⟨_, h, _⟩ => absurd h List.not_mem_nil⟩
  keptSuffix := List.nil_suffix
  keptAbove _ h := absurd h List.not_mem_nil
  keptAll _ h := absurd h List.not_mem_nil

/-- an end key at `cur_start_key` is an empty tombstone, which the loop passes -/
theorem FlushOutcome.skip {cur : UK} {x : UK × ℕ} {rest r} (h : FlushOutcome next cur rest r) (hskip : cur = x.1)
    (hle : cur ≤ next) : FlushOutcome next cur (x :: rest) r where
  fragmented := h.fragmented
  bounds := h.bounds
  covers k hk hkn q := by
    rw [h.covers k hk hkn q]
    constructor
    · rintro ⟨y, hy, hky, hq⟩
      exact ⟨y, List.mem_cons_of_mem x hy, hky, hq⟩
    · rintro ⟨y, hy, hky, hq⟩
      rcases List.mem_cons.mp hy with rfl | hy
      · exact absurd (hskip ▸ hk) (not_le.mpr hky)
      · exact ⟨y, hy, hky, hq⟩
  keptSuffix := h.keptSuffix.trans (List.suffix_cons x rest)
  keptAbove := h.keptAbove
  keptAll y hy hny := by
    rcases List.mem_cons.mp hy with rfl | hy
    · exact absurd (hskip ▸ hle) (not_le.mpr hny)
    · exact h.keptAll y hy hny

/-- the end keys reach `next`: one fragment `[cur, next)` with all their sequence numbers, and they all stay -/
theorem FlushOutcome.reach {cur : UK} {L : List (UK × ℕ)} (hL : L ≠ []) (hlt : cur < next)
    (hall : ∀ y ∈ L, next ≤ y.1) :
    FlushOutcome next cur L ([⟨cur, next, flushedSeqnums false snapshots L⟩], some L) where
  fragmented := Fragmented.singleton hlt (flushedSeqnums_ne_nil snapshots L hL) (flushedSeqnums_desc snapshots L)
  bounds g hg := List.mem_singleton.mp hg ▸ ⟨le_refl cur, le_refl next⟩
  covers k hk hkn q := by
    constructor
    · rintro ⟨g, hg, -, hq⟩
      rw [List.mem_singleton] at hg
      subst hg
      obtain ⟨y, hy, rfl⟩ := (mem_flushedSeqnums snapshots L).mp hq
      exact ⟨y, hy, lt_of_lt_of_le hkn (hall y hy), rfl⟩
    · rintro ⟨y, hy, -, rfl⟩
      exact ⟨_, List.mem_singleton_self _, ⟨hk, hkn⟩, (mem_flushedSeqnums snapshots L).mpr ⟨y, hy, rfl⟩⟩
  keptSuffix := List.suffix_refl L
  keptAbove := hall
  keptAll _ hy _ := hy

/-- an end key before `next`: the fragment `[cur, x)` with the sequence numbers from `x` on, and the loop goes on
from `x` -/
theorem FlushOutcome.emit {cur : UK} {x : UK × ℕ} {rest r} (h : FlushOutcome next x.1 rest r)
    (hsorted : (x :: rest).Pairwise (fun a b => a.1 ≤ b.1)) (hcx : cur < x.1) (hxn : x.1 < next) :
    FlushOutcome next cur (x :: rest) ([⟨cur, x.1, flushedSeqnums false snapshots (x :: rest)⟩] ++ r.1, r.2) := by
  have hx : ∀ y ∈ x :: rest, x.1 ≤ y.1 := fun y hy => by
    rcases List.mem_cons.mp hy with rfl | hy
    · exact le_refl _
    · exact (List.pairwise_cons.mp hsorted).1 y hy
  -- the fragments after this one start at `x` or later, so contain no key before `x`
  have hafter : ∀ k < x.1, ∀ g ∈ r.1, ¬g.Contains k := fun k hk g hg hgk =>
    absurd (lt_of_lt_of_le hk (h.bounds g hg).1) (not_lt.mpr hgk.1)
  refine ⟨?fragmented, ?bounds, ?covers, ?keptSuffix, h.keptAbove, ?keptAll⟩
  case fragmented =>
    refine (Fragmented.singleton hcx (flushedSeqnums_ne_nil snapshots _ (List.cons_ne_nil x rest))
      (flushedSeqnums_desc snapshots _)).append h.fragmented fun a ha b hb => ?_
    rw [List.mem_singleton] at ha
    subst ha
    exact (h.bounds b hb).1
  case bounds =>
    intro g hg
    rcases List.mem_append.mp hg with hg | hg
    · rw [List.mem_singleton] at hg
      subst hg
      exact ⟨le_refl cur, le_of_lt hxn⟩
    · exact ⟨le_of_lt (lt_of_lt_of_le hcx (h.bounds g hg).1), (h.bounds g hg).2⟩
  case covers =>
    intro k hk hkn q
    by_cases hkx : k < x.1
    · -- `k` is in this fragment, and every end key from `x` on is past it
      rw [exists_contains_append_of_right (hafter k hkx)]
      constructor
      · rintro ⟨g, hg, -, hq⟩
        rw [List.mem_singleton] at hg
        subst hg
        obtain ⟨y, hy, rfl⟩ := (mem_flushedSeqnums snapshots _).mp hq
        exact ⟨y, hy, lt_of_lt_of_le hkx (hx y hy), rfl⟩
      · rintro ⟨y, hy, -, rfl⟩
        exact ⟨_, List.mem_singleton_self _, ⟨hk, hkx⟩, (mem_flushedSeqnums snapshots _).mpr ⟨y, hy, rfl⟩⟩
    · -- `k` is past this fragment and past `x`
      have hxk : x.1 ≤ k := not_lt.mp hkx
      have hnot : ∀ g ∈ [(⟨cur, x.1, flushedSeqnums false snapshots (x :: rest)⟩ : RangeTombstoneStack UK)],
          ¬g.Contains k := fun g hg hgk => by
        rw [List.mem_singleton] at hg
        subst hg
        exact hkx hgk.2
      rw [exists_contains_append_of_left hnot, h.covers k hxk hkn q]
      constructor
      · rintro ⟨y, hy, hky, hq⟩
        exact ⟨y, List.mem_cons_of_mem x hy, hky, hq⟩
      · rintro ⟨y, hy, hky, hq⟩
        rcases List.mem_cons.mp hy with rfl | hy
        · exact absurd hky hkx
        · exact ⟨y, hy, hky, hq⟩
  case keptSuffix => exact h.keptSuffix.trans (List.suffix_cons x rest)
  case keptAll =>
    intro y hy hny
    rcases List.mem_cons.mp hy with rfl | hy
    · exact absurd hny (not_lt.mpr (le_of_lt hxn))
    · exact h.keptAll y hy hny

/-- the loop of a flush from `cur` over end keys in order, none before `cur`; `next` is past `cur` unless every end
key is at `cur` -/
theorem flushLoop_outcome {cur : UK} {L : List (UK × ℕ)} (hsorted : L.Pairwise (fun a b => a.1 ≤ b.1))
    (hcur : ∀ x ∈ L, cur ≤ x.1) (hle : cur ≤ next) (hnext : ∀ x ∈ L, cur < x.1 → cur < next) :
    FlushOutcome next cur L (flushLoop false snapshots next cur L []) := by
  induction L generalizing cur with
  | nil => exact FlushOutcome.nil cur
  | cons x rest ih =>
    have hrest := List.pairwise_cons.mp hsorted
    by_cases hskip : cur = x.1
    · rw [flushLoop, if_pos hskip]
      exact (ih hrest.2 (fun y hy => hcur y (List.mem_cons_of_mem x hy)) hle
        (fun y hy => hnext y (List.mem_cons_of_mem x hy))).skip hskip hle
    · have hcx : cur < x.1 := lt_of_le_of_ne (hcur x (List.mem_cons_self ..)) hskip
      by_cases hreach : next ≤ x.1
      · rw [flushLoop, if_neg hskip, if_pos hreach, List.nil_append]
        refine FlushOutcome.reach (List.cons_ne_nil x rest) (hnext x (List.mem_cons_self ..) hcx) fun y hy => ?_
        rcases List.mem_cons.mp hy with rfl | hy
        · exact hreach
        · exact le_trans hreach (hrest.1 y hy)
      · have hxn : x.1 < next := lt_of_not_ge hreach
        rw [flushLoop, if_neg hskip, if_neg hreach, List.nil_append, flushLoop_append]
        exact (ih hrest.2 hrest.1 (le_of_lt hxn) fun _ _ _ => hxn).emit hsorted hcx hxn

theorem flushCurrentTombstones_eq (st : FragmenterState UK) :
    st.flushCurrentTombstones forCompaction snapshots next =
      ⟨next, (flushLoop forCompaction snapshots next st.curStartKey st.curEndKeys []).2.getD [],
        st.tombstones ++ (flushLoop forCompaction snapshots next st.curStartKey st.curEndKeys []).1⟩ := by
  rw [FragmenterState.flushCurrentTombstones, flushLoop_append]

end flush

section sweep

variable {snapshots : List ℕ} {P : List (RangeTombstone UK)} {st : FragmenterState UK}

/-- the state of the sweep after the tombstones `P` -/
structure FragmenterState.Inv (P : List (RangeTombstone UK)) (st : FragmenterState UK) : Prop where
  /-- `cur_end_keys` is in end key order -/
  sorted : st.curEndKeys.Pairwise (fun x y => x.1 ≤ y.1)
  /-- each end key in the set is one of a tombstone read, not before `cur_start_key` -/
  sound : ∀ x ∈ st.curEndKeys, st.curStartKey ≤ x.1 ∧ ∃ t ∈ P, (t.endKey, t.seq) = x
  /-- every tombstone read that reaches past `cur_start_key` has its end key in the set -/
  complete : ∀ t ∈ P, st.curStartKey < t.endKey → (t.endKey, t.seq) ∈ st.curEndKeys
  startsBelow : ∀ t ∈ P, t.startKey ≤ st.curStartKey
  fragmented : Fragmented st.tombstones
  below : ∀ f ∈ st.tombstones, f.endKey ≤ st.curStartKey
  /-- below `cur_start_key` the fragments are done -/
  covers : ∀ k < st.curStartKey, ∀ q,
    (∃ f ∈ st.tombstones, f.Contains k ∧ q ∈ f.seqs) ↔ ∃ t ∈ P, t.Covers k ∧ t.seq = q

/-- from `cur_start_key` on, the end keys in the set past a key are the tombstones over it -/
theorem FragmenterState.Inv.endKeys_covers (h : st.Inv P) {k : UK} (hk : st.curStartKey ≤ k) (q : ℕ) :
    (∃ x ∈ st.curEndKeys, k < x.1 ∧ x.2 = q) ↔ ∃ t ∈ P, t.Covers k ∧ t.seq = q := by
  constructor
  · rintro ⟨x, hx, hkx, rfl⟩
    obtain ⟨-, t, ht, rfl⟩ := h.sound x hx
    exact ⟨t, ht, ⟨le_trans (h.startsBelow t ht) hk, hkx⟩, rfl⟩
  · rintro ⟨t, ht, ⟨-, hkt⟩, rfl⟩
    exact ⟨_, h.complete t ht (lt_of_le_of_lt hk hkt), hkt, rfl⟩

/-- when no end key in the set is past `m`, no tombstone read ends past `m` -/
theorem FragmenterState.Inv.endKey_le (h : st.Inv P) {m : UK} (hm : st.curStartKey ≤ m)
    (hE : ∀ x ∈ st.curEndKeys, x.1 ≤ m) : ∀ t ∈ P, t.endKey ≤ m := by
  intro t ht
  by_contra hlt
  have hmt : m < t.endKey := lt_of_not_ge hlt
  exact hlt (hE _ (h.complete t ht (lt_of_le_of_lt hm hmt)))

theorem FragmenterState.Inv.init (s : UK) : (⟨s, [], []⟩ : FragmenterState UK).Inv [] where
  sorted := List.Pairwise.nil
  sound _ h := absurd h List.not_mem_nil
  complete _ h := absurd h List.not_mem_nil
  startsBelow _ h := absurd h List.not_mem_nil
  fragmented := Fragmented.nil
  below _ h := absurd h List.not_mem_nil
  covers _ _ _ := ⟨fun ⟨_, h, _⟩ => absurd h List.not_mem_nil, fun ⟨_, h, _⟩ => absurd h List.not_mem_nil⟩

/-- a flush to `next` keeps the invariant, with `cur_start_key` moved to `next` -/
theorem FragmenterState.Inv.flush (h : st.Inv P) {next : UK} (hle : st.curStartKey ≤ next)
    (hnext : ∀ x ∈ st.curEndKeys, st.curStartKey < x.1 → st.curStartKey < next) :
    (st.flushCurrentTombstones false snapshots next).Inv P := by
  have ho : FlushOutcome next st.curStartKey st.curEndKeys
      (flushLoop false snapshots next st.curStartKey st.curEndKeys []) :=
    flushLoop_outcome h.sorted (fun x hx => (h.sound x hx).1) hle hnext
  rw [flushCurrentTombstones_eq]
  refine ⟨h.sorted.sublist ho.keptSuffix.sublist, fun x hx => ⟨ho.keptAbove x hx, (h.sound x
    (ho.keptSuffix.subset hx)).2⟩, fun t ht htn => ho.keptAll _ (h.complete t ht (lt_of_le_of_lt hle htn)) htn,
    fun t ht => le_trans (h.startsBelow t ht) hle, ?fragmented, ?below, ?covers⟩
  case fragmented =>
    exact h.fragmented.append ho.fragmented fun a ha b hb => le_trans (h.below a ha) (ho.bounds b hb).1
  case below =>
    intro f hf
    rcases List.mem_append.mp hf with hf | hf
    · exact le_trans (h.below f hf) hle
    · exact (ho.bounds f hf).2
  case covers =>
    intro k hk q
    by_cases hkc : k < st.curStartKey
    · -- below the old `cur_start_key`: the old fragments, which the new ones start after
      rw [exists_contains_append_of_right fun g hg hgk =>
        absurd (lt_of_lt_of_le hkc (ho.bounds g hg).1) (not_lt.mpr hgk.1)]
      exact h.covers k hkc q
    · -- from it on: the new fragments, with the end keys of the set past `k`
      have hck : st.curStartKey ≤ k := not_lt.mp hkc
      rw [exists_contains_append_of_left fun f hf hfk =>
        absurd (lt_of_lt_of_le hfk.2 (h.below f hf)) (not_lt.mpr hck)]
      rw [ho.covers k hck hk q]
      exact h.endKeys_covers hck q

/-- moving `cur_start_key` forward over an empty set keeps the invariant: no tombstone read reaches past it -/
theorem FragmenterState.Inv.moveTo_of_nil (h : st.Inv P) (hE : st.curEndKeys = []) {s : UK}
    (hs : st.curStartKey ≤ s) : ({ st with curStartKey := s } : FragmenterState UK).Inv P where
  sorted := h.sorted
  sound x hx := absurd (hE ▸ hx : x ∈ []) List.not_mem_nil
  complete t ht hts := h.complete t ht (lt_of_le_of_lt hs hts)
  startsBelow t ht := le_trans (h.startsBelow t ht) hs
  fragmented := h.fragmented
  below f hf := le_trans (h.below f hf) hs
  covers k hk q := by
    by_cases hkc : k < st.curStartKey
    · exact h.covers k hkc q
    · have hck : st.curStartKey ≤ k := not_lt.mp hkc
      rw [← h.endKeys_covers hck q, hE]
      constructor
      · rintro ⟨f, hf, hfk, -⟩
        exact absurd (lt_of_lt_of_le hfk.2 (h.below f hf)) hkc
      · rintro ⟨x, hx, -⟩
        exact absurd hx List.not_mem_nil

/-- a tombstone that starts at `cur_start_key` joins the set -/
theorem FragmenterState.Inv.emplace (h : st.Inv P) {t : RangeTombstone UK} (hts : t.startKey = st.curStartKey)
    (hwf : t.startKey ≤ t.endKey) :
    ({ st with curEndKeys := setEmplace endKeyLt (t.endKey, t.seq) st.curEndKeys } : FragmenterState UK).Inv
      (P ++ [t]) where
  sorted := pairwise_setEmplace (R := fun x y : UK × ℕ => x.1 ≤ y.1) (fun _ _ _ => le_trans)
    (fun _ _ => endKeyLt_le) _ h.sorted
  sound x hx := by
    rcases mem_setEmplace hx with rfl | hx
    · exact ⟨hts ▸ hwf, t, List.mem_append_right P (List.mem_singleton_self t), rfl⟩
    · obtain ⟨hcx, t', ht', hx'⟩ := h.sound x hx
      exact ⟨hcx, t', List.mem_append_left [t] ht', hx'⟩
  complete t' ht' hlt := by
    rcases List.mem_append.mp ht' with ht' | ht'
    · exact mem_setEmplace_of_mem (h.complete t' ht' hlt)
    · rw [List.mem_singleton.mp ht']
      exact self_mem_setEmplace endKeyLt_tri _ _
  startsBelow t' ht' := by
    rcases List.mem_append.mp ht' with ht' | ht'
    · exact h.startsBelow t' ht'
    · rw [List.mem_singleton.mp ht']
      exact le_of_eq hts
  fragmented := h.fragmented
  below := h.below
  covers k hk q := by
    rw [h.covers k hk q]
    constructor
    · rintro ⟨t', ht', htk⟩
      exact ⟨t', List.mem_append_left [t] ht', htk⟩
    · rintro ⟨t', ht', htk, hq⟩
      rcases List.mem_append.mp ht' with ht' | ht'
      · exact ⟨t', ht', htk, hq⟩
      · rw [List.mem_singleton.mp ht'] at htk
        exact absurd (lt_of_le_of_lt htk.1 (lt_of_lt_of_eq hk hts.symm)) (lt_irrefl _)

/-- one tombstone of the main loop, in start order -/
theorem FragmenterState.Inv.addTombstone (h : st.Inv P) {t : RangeTombstone UK} (hs : st.curStartKey ≤ t.startKey)
    (hwf : t.startKey ≤ t.endKey) : (st.addTombstone false snapshots t).Inv (P ++ [t]) := by
  -- the flush when the start key changes, or none, leaves `cur_start_key` at the new start key
  have hmove : ({ (if st.curEndKeys ≠ [] ∧ st.curStartKey ≠ t.startKey then
      st.flushCurrentTombstones false snapshots t.startKey else st) with curStartKey := t.startKey } :
        FragmenterState UK).Inv P := by
    by_cases hflush : st.curEndKeys ≠ [] ∧ st.curStartKey ≠ t.startKey
    · rw [if_pos hflush]
      exact h.flush hs fun _ _ _ => lt_of_le_of_ne hs hflush.2
    · rw [if_neg hflush]
      rcases not_and_or.mp hflush with hE | hc
      · exact h.moveTo_of_nil (not_not.mp hE) hs
      · rw [← not_not.mp hc]
        exact h
  exact hmove.emplace rfl hwf

/-- the main loop over tombstones in start order, none before `cur_start_key` -/
theorem FragmenterState.Inv.addTombstones (h : st.Inv P) {R : List (RangeTombstone UK)}
    (hR : R.Pairwise (fun a b => a.startKey ≤ b.startKey)) (hc : ∀ t ∈ R, st.curStartKey ≤ t.startKey)
    (hwf : ∀ t ∈ R, t.startKey ≤ t.endKey) : (st.addTombstones false snapshots R).Inv (P ++ R) := by
  induction R generalizing P st with
  | nil =>
    rw [List.append_nil]
    exact h
  | cons t R ih =>
    have hR' := List.pairwise_cons.mp hR
    rw [FragmenterState.addTombstones, ← List.singleton_append, ← List.append_assoc]
    exact ih (h.addTombstone (hc t (List.mem_cons_self ..)) (hwf t (List.mem_cons_self ..))) hR'.2 hR'.1
      fun t' ht' => hwf t' (List.mem_cons_of_mem t ht')

/-- once no tombstone read ends past `cur_start_key`, the fragments cover every key -/
theorem FragmenterState.Inv.fragmentsOf (h : st.Inv P) (hP : ∀ t ∈ P, t.endKey ≤ st.curStartKey) :
    FragmentsOf P st.tombstones where
  toFragmented := h.fragmented
  covers k q := by
    by_cases hk : k < st.curStartKey
    · exact h.covers k hk q
    · constructor
      · rintro ⟨f, hf, hfk, -⟩
        exact absurd (lt_of_lt_of_le hfk.2 (h.below f hf)) hk
      · rintro ⟨t, ht, htk, -⟩
        exact absurd (lt_of_lt_of_le htk.2 (hP t ht)) hk

end sweep

section fragmentTombstones

variable (snapshots : List ℕ)

/-- `FragmentTombstones` on tombstones in start order fragments them -/
theorem fragmentTombstones_fragmentsOf {T : List (RangeTombstone UK)}
    (hsorted : T.Pairwise (fun a b => a.startKey ≤ b.startKey)) (hwf : ∀ t ∈ T, t.startKey ≤ t.endKey) :
    FragmentsOf T (fragmentTombstones false snapshots T) := by
  cases T with
  | nil => exact FragmentsOf.nil
  | cons t ts =>
    -- the sweep starts at the first start key, the smallest
    have hc : ∀ t' ∈ t :: ts, t.startKey ≤ t'.startKey := fun t' ht' => by
      rcases List.mem_cons.mp ht' with rfl | ht'
      · exact le_refl _
      · exact (List.pairwise_cons.mp hsorted).1 t' ht'
    have hinv : (FragmenterState.addTombstones false snapshots ⟨t.startKey, [], []⟩ (t :: ts)).Inv ([] ++ t :: ts) :=
      (FragmenterState.Inv.init t.startKey).addTombstones hsorted hc hwf
    rw [List.nil_append] at hinv
    simp only [fragmentTombstones]
    split
    · -- the last flush runs to the largest end key in the set
      next lastEndKey hlast =>
      obtain ⟨ys, hys⟩ := List.getLast?_eq_some_iff.mp hlast
      set st := FragmenterState.addTombstones false snapshots ⟨t.startKey, [], []⟩ (t :: ts)
      have hmem : lastEndKey ∈ st.curEndKeys := hys ▸ List.mem_append_right ys (List.mem_singleton_self _)
      have hmax : ∀ x ∈ st.curEndKeys, x.1 ≤ lastEndKey.1 := by
        have hs := hinv.sorted
        rw [hys, List.pairwise_append] at hs
        intro x hx
        rw [hys] at hx
        rcases List.mem_append.mp hx with hx | hx
        · exact hs.2.2 x hx lastEndKey (List.mem_singleton_self _)
        · rw [List.mem_singleton.mp hx]
      have hle : st.curStartKey ≤ lastEndKey.1 := (hinv.sound _ hmem).1
      exact (hinv.flush hle fun x hx hcx => lt_of_lt_of_le hcx (hmax x hx)).fragmentsOf
        (hinv.endKey_le hle hmax)
    · -- the set is empty: nothing reaches past `cur_start_key`
      next hlast =>
      rw [List.getLast?_eq_none_iff] at hlast
      exact hinv.fragmentsOf (hinv.endKey_le (le_refl _) fun x hx => absurd (hlast ▸ hx) List.not_mem_nil)

/-- `is_sorted` means the start keys are in order -/
theorem isSorted_pairwise : ∀ {T : List (RangeTombstone UK)}, isSorted T = true →
    T.Pairwise (fun a b => a.startKey ≤ b.startKey)
  | [], _ => List.Pairwise.nil
  | [_], _ => List.pairwise_singleton _ _
  | a :: b :: rest, h => by
    rw [isSorted, Bool.and_eq_true, Bool.not_eq_true'] at h
    have hab := (startKeyGt_eq_false.mp h.1).1
    have hrest := isSorted_pairwise h.2
    refine List.Pairwise.cons (fun c hc => ?_) hrest
    rcases List.mem_cons.mp hc with rfl | hc
    · exact hab
    · exact le_trans hab ((List.pairwise_cons.mp hrest).1 c hc)

/-- the sort of the constructor puts the start keys in order -/
theorem pairwise_insertionSort_startKey (T : List (RangeTombstone UK)) :
    (T.insertionSort (fun a b => startKeyGt a b = false)).Pairwise (fun a b => a.startKey ≤ b.startKey) := by
  have : Std.Total (fun a b : RangeTombstone UK => startKeyGt a b = false) := ⟨startKeyGt_total⟩
  have : IsTrans (RangeTombstone UK) (fun a b => startKeyGt a b = false) := ⟨fun _ _ _ => startKeyGt_trans⟩
  exact (List.pairwise_insertionSort _ T).imp fun h => (startKeyGt_eq_false.mp h).1

/-- the constructor fragments tombstones given in any order -/
theorem fragmentedRangeTombstoneList_fragmentsOf {T : List (RangeTombstone UK)}
    (hwf : ∀ t ∈ T, t.startKey ≤ t.endKey) : FragmentsOf T (fragmentedRangeTombstoneList false snapshots T) := by
  rw [fragmentedRangeTombstoneList]
  by_cases hs : isSorted T = true
  · rw [if_pos hs]
    exact fragmentTombstones_fragmentsOf snapshots (isSorted_pairwise hs) hwf
  · rw [if_neg hs]
    have hperm := List.perm_insertionSort (fun a b => startKeyGt a b = false) T
    exact (fragmentTombstones_fragmentsOf snapshots (pairwise_insertionSort_startKey T)
      fun t ht => hwf t (hperm.subset ht)).of_perm hperm

end fragmentTombstones

section maxCovering

variable {T : List (RangeTombstone UK)} {F : List (RangeTombstoneStack UK)}

/-- the newest sequence number not above `U` of the tombstones over `k`, or 0 when there is none -/
def coveringSeqnum (T : List (RangeTombstone UK)) (U : ℕ) (k : UK) : ℕ :=
  ((T.filter (fun t => decide (t.Covers k ∧ t.seq ≤ U))).map (·.seq)).max?.getD 0

/-- the seek lands on the fragment that contains the key -/
theorem seekToCoveringTombstone_of_contains (hF : F.Pairwise (fun f g => f.endKey ≤ g.startKey)) {k : UK}
    {f : RangeTombstoneStack UK} (hf : f ∈ F) (hfk : f.Contains k) : seekToCoveringTombstone F k = some f := by
  induction F with
  | nil => cases hf
  | cons g F ih =>
    rw [List.pairwise_cons] at hF
    rw [seekToCoveringTombstone] at ih ⊢
    by_cases hkg : k < g.endKey
    · -- the seek stops at `g`, which must be `f`: a later fragment starts after `g` ends
      rw [List.find?_cons_of_pos (p := fun t : RangeTombstoneStack UK => decide (k < t.endKey))
        (decide_eq_true hkg)]
      rcases List.mem_cons.mp hf with rfl | hf
      · rfl
      · exact absurd (lt_of_lt_of_le hkg (le_trans (hF.1 f hf) hfk.1)) (lt_irrefl k)
    · rw [List.find?_cons_of_neg (p := fun t : RangeTombstoneStack UK => decide (k < t.endKey))
        (by simpa using hkg)]
      rcases List.mem_cons.mp hf with rfl | hf
      · exact absurd hfk.2 hkg
      · exact ih hF.2 hf

theorem seekToCoveringTombstone_some {k : UK} {pos : RangeTombstoneStack UK}
    (h : seekToCoveringTombstone F k = some pos) : pos ∈ F ∧ k < pos.endKey := by
  rw [seekToCoveringTombstone] at h
  have hk : decide (k < pos.endKey) = true :=
    List.find?_some (p := fun t : RangeTombstoneStack UK => decide (k < t.endKey)) h
  exact ⟨List.mem_of_find?_eq_some h, of_decide_eq_true hk⟩

/-- `MaxCoveringTombstoneSeqnum` on the fragments of `T` is the newest sequence number not above the upper bound of
the tombstones over the key -/
theorem FragmentsOf.maxCoveringTombstoneSeqnum_eq (h : FragmentsOf T F) (U : ℕ) (k : UK) :
    maxCoveringTombstoneSeqnum F U k = coveringSeqnum T U k := by
  by_cases hk : ∃ f ∈ F, f.Contains k
  · -- the seek lands on the fragment of `k`, whose first sequence number not above `U` is the largest
    obtain ⟨f, hf, hfk⟩ := hk
    have hmem : ∀ q, q ∈ f.seqs.filter (fun s => decide (s ≤ U)) ↔
        q ∈ (T.filter (fun t => decide (t.Covers k ∧ t.seq ≤ U))).map (·.seq) := fun q => by
      simp only [List.mem_filter, List.mem_map, decide_eq_true_eq, h.seqs_iff hf hfk q]
      constructor
      · rintro ⟨⟨t, ht, htk, rfl⟩, hq⟩
        exact ⟨t, ⟨ht, htk, hq⟩, rfl⟩
      · rintro ⟨t, ⟨ht, htk, hq⟩, rfl⟩
        exact ⟨⟨t, ht, htk, rfl⟩, hq⟩
    simp only [maxCoveringTombstoneSeqnum, seekToCoveringTombstone_of_contains h.disjoint hf hfk]
    rw [setMaxVisibleSeq, find?_eq_max?_filter (h.seqsDesc f hf), coveringSeqnum, ← max?_congr hmem]
    cases (f.seqs.filter (fun s => decide (s ≤ U))).max? with
    | none => rfl
    | some q => simp only [if_pos hfk.1, Option.getD_some]
  · -- no fragment contains `k`, so no tombstone covers it; the seek finds nothing or a fragment past `k`
    have hT : T.filter (fun t => decide (t.Covers k ∧ t.seq ≤ U)) = [] :=
      List.filter_eq_nil_iff.mpr fun t ht htk =>
        hk ((h.contains_iff k).mpr ⟨t, ht, (of_decide_eq_true htk).1⟩)
    rw [coveringSeqnum, hT, List.map_nil, List.max?_nil, Option.getD_none, maxCoveringTombstoneSeqnum]
    cases hseek : seekToCoveringTombstone F k with
    | none => rfl
    | some pos =>
      dsimp only
      obtain ⟨hpos, hkpos⟩ := seekToCoveringTombstone_some hseek
      have hstart : ¬pos.startKey ≤ k := fun hle => hk ⟨pos, hpos, hle, hkpos⟩
      cases setMaxVisibleSeq U pos with
      | none => rfl
      | some q => simp only [if_neg hstart]

/-- fragmenting for reads: the fragments are in order, disjoint and non-empty, with their sequence numbers in
descending order; the fragment that contains a key has the sequence numbers of exactly the tombstones over it, and
there is one exactly when a tombstone covers the key; and under any upper bound `MaxCoveringTombstoneSeqnum` is the
newest sequence number not above it of the tombstones over the key, or 0 -/
theorem fragmentedRangeTombstoneList_exact_coverage (snapshots : List ℕ) (T : List (RangeTombstone UK))
    (hwf : ∀ t ∈ T, t.startKey ≤ t.endKey) :
    (fragmentedRangeTombstoneList false snapshots T).Pairwise (fun f g => f.startKey < g.startKey) ∧
    (fragmentedRangeTombstoneList false snapshots T).Pairwise (fun f g => f.endKey ≤ g.startKey) ∧
    (∀ f ∈ fragmentedRangeTombstoneList false snapshots T, f.startKey < f.endKey) ∧
    (∀ f ∈ fragmentedRangeTombstoneList false snapshots T, f.seqs.Pairwise (· ≥ ·)) ∧
    (∀ k, ∀ f ∈ fragmentedRangeTombstoneList false snapshots T, f.Contains k →
      ∀ q, q ∈ f.seqs ↔ ∃ t ∈ T, t.Covers k ∧ t.seq = q) ∧
    (∀ k, (∃ f ∈ fragmentedRangeTombstoneList false snapshots T, f.Contains k) ↔ ∃ t ∈ T, t.Covers k) ∧
    ∀ U k, maxCoveringTombstoneSeqnum (fragmentedRangeTombstoneList false snapshots T) U k =
      coveringSeqnum T U k := by
  have h := fragmentedRangeTombstoneList_fragmentsOf snapshots hwf
  exact ⟨h.sorted, h.disjoint, h.nonempty, h.seqsDesc, fun k f hf hfk => h.seqs_iff hf hfk, h.contains_iff,
    h.maxCoveringTombstoneSeqnum_eq⟩

/-- the overlapping tombstones with repeated start keys of the fragmenter's tests, out of order -/
theorem fragmentedRangeTombstoneList_exact_coverage_overlap :
    let T : List (RangeTombstone ℕ) := [⟨10, 4, 14⟩, ⟨3, 8, 7⟩, ⟨1, 10, 5⟩, ⟨10, 2, 12⟩, ⟨3, 6, 9⟩]
    (∀ t ∈ T, t.startKey ≤ t.endKey) ∧
    ((fragmentedRangeTombstoneList false [] T).Pairwise (fun f g => f.startKey < g.startKey) ∧
    (fragmentedRangeTombstoneList false [] T).Pairwise (fun f g => f.endKey ≤ g.startKey) ∧
    (∀ f ∈ fragmentedRangeTombstoneList false [] T, f.startKey < f.endKey) ∧
    (∀ f ∈ fragmentedRangeTombstoneList false [] T, f.seqs.Pairwise (· ≥ ·)) ∧
    (∀ k, ∀ f ∈ fragmentedRangeTombstoneList false [] T, f.Contains k →
      ∀ q, q ∈ f.seqs ↔ ∃ t ∈ T, t.Covers k ∧ t.seq = q) ∧
    (∀ k, (∃ f ∈ fragmentedRangeTombstoneList false [] T, f.Contains k) ↔ ∃ t ∈ T, t.Covers k) ∧
    ∀ U k, maxCoveringTombstoneSeqnum (fragmentedRangeTombstoneList false [] T) U k = coveringSeqnum T U k) :=
  ⟨by decide, fragmentedRangeTombstoneList_exact_coverage [] _ (by decide)⟩

end maxCovering

end ForSt
