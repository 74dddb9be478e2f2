import ForSt.Db.SeqnoToTimeMapping
/-!
What `SeqnoToTimeMapping::Sort` leaves of the pairs a mapping holds.

The staircase of pairs `P` is its pairs `(s, t)` with `s > 0`, `t` the latest time `P` pairs with `s`, and every pair
with a smaller positive sequence number earlier (`OnStaircase P s t`). `Sort` leaves exactly the staircase when some
pair has a positive sequence number (`sort_staircase`), and reads an empty deque when none has
(`sort_reads_empty_deque`), which `Add(pairs_str)` can cause but `Add(seqno, time)` cannot. The pass keeps `PassInv`:
what it has pushed, with `prev`, is the staircase of the prefix of the sorted copy seen so far.
-/

namespace ForSt

namespace SeqnoToTimeMapping

/-- `(s, t)` is a step of the staircase of `P` -/
def OnStaircase (P : List SeqnoTimePair) (s t : ℕ) : Prop :=
  0 < s ∧ SeqnoTimePair.mk s t ∈ P ∧ (∀ t', SeqnoTimePair.mk s t' ∈ P → t' ≤ t) ∧
    ∀ p ∈ P, 0 < p.seqno → p.seqno < s → p.time < t

/-- strictly increasing in sequence number and in time -/
def StrictlyIncreasing (l : List SeqnoTimePair) : Prop := l.Pairwise fun a b => a.seqno < b.seqno ∧ a.time < b.time

/-- a pair is its two fields -/
theorem SeqnoTimePair.mk_eq_iff {s t : ℕ} {p : SeqnoTimePair} : SeqnoTimePair.mk s t = p ↔ s = p.seqno ∧ t = p.time := by
  cases p
  simp

/-! ## The staircase -/

section staircase

variable {P Q : List SeqnoTimePair} {s t : ℕ}

/-- the staircase depends only on the pairs with a positive sequence number -/
theorem onStaircase_congr (h : ∀ p, 0 < p.seqno → (p ∈ P ↔ p ∈ Q)) : OnStaircase P s t ↔ OnStaircase Q s t := by
  constructor
  · rintro ⟨hs, hmem, hmax, hbelow⟩
    refine ⟨hs, (h _ hs).mp hmem, fun t' ht' => hmax t' ((h _ hs).mpr ht'), fun p hp hpos hlt => ?_⟩
    exact hbelow p ((h p hpos).mpr hp) hpos hlt
  · rintro ⟨hs, hmem, hmax, hbelow⟩
    refine ⟨hs, (h _ hs).mpr hmem, fun t' ht' => hmax t' ((h _ hs).mp ht'), fun p hp hpos hlt => ?_⟩
    exact hbelow p ((h p hpos).mp hp) hpos hlt

/-- a pair with a larger sequence number does not change the steps below it -/
theorem onStaircase_snoc_of_lt {x : SeqnoTimePair} (hs : s < x.seqno) :
    OnStaircase (P ++ [x]) s t ↔ OnStaircase P s t := by
  have hne : ∀ t', SeqnoTimePair.mk s t' ≠ x := fun t' h => by rw [← h] at hs; exact absurd hs (lt_irrefl _)
  simp only [OnStaircase, List.mem_append, List.mem_singleton]
  constructor
  · rintro ⟨hpos, hmem, hmax, hbelow⟩
    refine ⟨hpos, hmem.resolve_right (hne t), fun t' ht' => hmax t' (.inl ht'), fun p hp => hbelow p (.inl hp)⟩
  · rintro ⟨hpos, hmem, hmax, hbelow⟩
    refine ⟨hpos, .inl hmem, fun t' ht' => hmax t' (ht'.resolve_right (hne t')), fun p hp hp0 hlt => ?_⟩
    rcases hp with hp | rfl
    · exact hbelow p hp hp0 hlt
    · omega

end staircase

/-! ## The sorted copy -/

section copy

theorem le_total (a b : SeqnoTimePair) : a.le b ∨ b.le a := by
  unfold SeqnoTimePair.le
  omega

theorem le_trans {a b c : SeqnoTimePair} (hab : a.le b) (hbc : b.le c) : a.le c := by
  unfold SeqnoTimePair.le at *
  omega

/-- `std::sort` puts the pairs in order -/
theorem pairwise_le_insertionSort (P : List SeqnoTimePair) : (P.insertionSort SeqnoTimePair.le).Pairwise SeqnoTimePair.le := by
  have : Std.Total SeqnoTimePair.le := ⟨le_total⟩
  have : IsTrans SeqnoTimePair SeqnoTimePair.le := ⟨fun _ _ _ => le_trans⟩
  exact List.pairwise_insertionSort _ P

/-- on a sorted list with a positive sequence number, the loop stops at the first positive pair, and the pairs from
there on are the positive pairs of the list -/
theorem dropLeadingZeros_of_pairwise {l : List SeqnoTimePair} (hl : l.Pairwise SeqnoTimePair.le)
    (hpos : ∃ p ∈ l, 0 < p.seqno) :
    ∃ first rest, dropLeadingZeros l = some (first :: rest) ∧ (first :: rest).Pairwise SeqnoTimePair.le ∧
      ∀ p, p ∈ first :: rest ↔ p ∈ l ∧ 0 < p.seqno := by
  induction l with
  | nil => simp at hpos
  | cons p l ih =>
    rw [List.pairwise_cons] at hl
    by_cases hp : p.seqno = 0
    · -- a pair with sequence number 0 is popped; the positive pair is further on
      have hpos' : ∃ q ∈ l, 0 < q.seqno := by
        obtain ⟨q, hq, hq0⟩ := hpos
        rcases List.mem_cons.mp hq with rfl | hq
        · omega
        · exact ⟨q, hq, hq0⟩
      obtain ⟨first, rest, hdrop, hsorted, hmem⟩ := ih hl.2 hpos'
      refine ⟨first, rest, by rw [dropLeadingZeros, if_pos hp, hdrop], hsorted, fun q => ?_⟩
      rw [hmem, List.mem_cons]
      constructor
      · exact fun h => ⟨.inr h.1, h.2⟩
      · rintro ⟨rfl | h, h0⟩
        · omega
        · exact ⟨h, h0⟩
    · -- the first positive pair: every pair after it is at least as large
      refine ⟨p, l, by rw [dropLeadingZeros, if_neg hp], List.pairwise_cons.mpr hl, fun q => ?_⟩
      constructor
      · intro hq
        refine ⟨hq, ?_⟩
        rcases List.mem_cons.mp hq with rfl | hq
        · omega
        · have := hl.1 q hq
          unfold SeqnoTimePair.le at this
          omega
      · exact fun h => h.1

/-- with no positive sequence number the loop pops every pair and then reads an empty deque -/
theorem dropLeadingZeros_of_zero {l : List SeqnoTimePair} (hzero : ∀ p ∈ l, p.seqno = 0) :
    dropLeadingZeros l = none := by
  induction l with
  | nil => rfl
  | cons p l ih =>
    rw [dropLeadingZeros, if_pos (hzero p (List.mem_cons_self ..))]
    exact ih fun q hq => hzero q (List.mem_cons_of_mem _ hq)

end copy

/-! ## The pass -/

/-- what the pass keeps over a prefix `q` of the sorted copy: what it pushed, then `prev`, is the staircase of `q`,
strictly increasing, and `prev` holds the latest time of `q` -/
structure PassInv (q out : List SeqnoTimePair) (prev : SeqnoTimePair) : Prop where
  increasing : StrictlyIncreasing (out ++ [prev])
  staircase : ∀ s t, SeqnoTimePair.mk s t ∈ out ++ [prev] ↔ OnStaircase q s t
  latest : ∀ p ∈ q, p.time ≤ prev.time

section pass

variable {q : List SeqnoTimePair} {out : List SeqnoTimePair} {prev x : SeqnoTimePair}

theorem PassInv.prev_onStaircase (h : PassInv q out prev) : OnStaircase q prev.seqno prev.time :=
  (h.staircase _ _).mp (by simp)

/-- the pairs pushed before `prev` are below it in both -/
theorem PassInv.lt_prev (h : PassInv q out prev) {a : SeqnoTimePair} (ha : a ∈ out) :
    a.seqno < prev.seqno ∧ a.time < prev.time :=
  (List.pairwise_append.mp h.increasing).2.2 a ha prev (List.mem_singleton_self _)

/-- every step of the staircase of `q` is at most at the sequence number of a pair after `q` -/
theorem seqno_le_of_onStaircase (hx : ∀ p ∈ q, p.le x) {s t : ℕ} (h : OnStaircase q s t) : s ≤ x.seqno := by
  have := hx _ h.2.1
  simp only [SeqnoTimePair.le] at this
  omega

/-- a pair after `q` is at least every pair of `q` and itself -/
theorem le_snoc_self (hx : ∀ p ∈ q, p.le x) : ∀ p ∈ q ++ [x], p.le x := by
  intro p hp
  rcases List.mem_append.mp hp with hp | hp
  · exact hx p hp
  · rw [List.mem_singleton.mp hp]
    exact Or.inr ⟨rfl, le_rfl⟩

/-- a pushed pair or `prev` is a step below a pair after `q` with another sequence number than `prev` -/
theorem PassInv.lt_of_mem (h : PassInv q out prev) (hx : ∀ p ∈ q, p.le x) (hne : x.seqno ≠ prev.seqno)
    {s t : ℕ} (hst : SeqnoTimePair.mk s t ∈ out ++ [prev]) : s < x.seqno := by
  have hprev := seqno_le_of_onStaircase hx h.prev_onStaircase
  rcases List.mem_append.mp hst with ha | ha
  · have := (h.lt_prev ha).1
    dsimp only at this
    omega
  · obtain ⟨rfl, rfl⟩ := SeqnoTimePair.mk_eq_iff.mp (List.mem_singleton.mp ha)
    omega

/-- `x` has the sequence number of `prev`: its later time replaces `prev`'s -/
theorem PassInv.step_same (h : PassInv q out prev) (hx : ∀ p ∈ q, p.le x) (heq : x.seqno = prev.seqno) :
    PassInv (q ++ [x]) out { prev with time := x.time } := by
  have hprev := h.prev_onStaircase
  have hle : prev.time ≤ x.time := by
    have := hx _ hprev.2.1
    simp only [SeqnoTimePair.le] at this
    omega
  refine ⟨?_, fun s t => ?_, fun p hp => ?_⟩
  · refine List.pairwise_append.mpr ⟨(List.pairwise_append.mp h.increasing).1, List.pairwise_singleton _ _, ?_⟩
    intro a ha b hb
    rw [List.mem_singleton.mp hb]
    have := h.lt_prev ha
    exact ⟨this.1, by dsimp only; omega⟩
  · constructor
    · intro hst
      rcases List.mem_append.mp hst with ha | ha
      · -- a step pushed before keeps its place
        have hlt := (h.lt_prev ha).1
        have hq := (h.staircase s t).mp (List.mem_append_left _ ha)
        exact (onStaircase_snoc_of_lt (by dsimp only at hlt; omega)).mpr hq
      · -- the step of `prev`, now at `x`'s time
        obtain ⟨rfl, rfl⟩ : s = prev.seqno ∧ t = x.time := by
          simp only [List.mem_singleton, SeqnoTimePair.mk.injEq] at ha
          exact ha
        refine ⟨hprev.1, List.mem_append_right _ (by rw [← heq]; simp), fun t' ht' => ?_, fun p hp hp0 hlt => ?_⟩
        · rcases List.mem_append.mp ht' with ht' | ht'
          · exact (h.latest _ ht').trans hle
          · simp only [List.mem_singleton] at ht'
            rw [← ht']
        · rcases List.mem_append.mp hp with hp | hp
          · exact Nat.lt_of_lt_of_le (hprev.2.2.2 p hp hp0 hlt) hle
          · rw [List.mem_singleton.mp hp] at hlt
            omega
    · intro hst
      have hsx := seqno_le_of_onStaircase (le_snoc_self hx) hst
      rcases Nat.lt_or_eq_of_le hsx with hlt | rfl
      · have hq := (onStaircase_snoc_of_lt hlt).mp hst
        rcases List.mem_append.mp ((h.staircase s t).mpr hq) with ha | ha
        · exact List.mem_append_left _ ha
        · have := SeqnoTimePair.mk_eq_iff.mp (List.mem_singleton.mp ha)
          omega
      · -- the step at `x`'s sequence number has `x`'s time, the latest one
        have hge : x.time ≤ t := hst.2.2.1 x.time (List.mem_append_right _ (List.mem_singleton_self _))
        have hle' : t ≤ x.time := by
          rcases List.mem_append.mp hst.2.1 with ht | ht
          · exact (h.latest _ ht).trans hle
          · simp only [List.mem_singleton] at ht
            rw [← ht]
        refine List.mem_append_right _ (List.mem_singleton.mpr ?_)
        rw [heq, show t = x.time by omega]
  · rcases List.mem_append.mp hp with hp | hp
    · exact (h.latest p hp).trans hle
    · rw [List.mem_singleton.mp hp]

/-- `x` has another sequence number and a later time than `prev`: `prev` is pushed and `x` starts the next step -/
theorem PassInv.step_later (h : PassInv q out prev) (hx : ∀ p ∈ q, p.le x) (hne : x.seqno ≠ prev.seqno)
    (hlt : prev.time < x.time) (hpos : 0 < x.seqno) : PassInv (q ++ [x]) (out ++ [prev]) x := by
  have hprev := h.prev_onStaircase
  have hseq : prev.seqno < x.seqno := by
    have := seqno_le_of_onStaircase hx hprev
    omega
  -- every time in `q` is at most `prev`'s, so below `x`'s
  have hearlier : ∀ p ∈ q, p.time < x.time := fun p hp => Nat.lt_of_le_of_lt (h.latest p hp) hlt
  refine ⟨?_, fun s t => ?_, fun p hp => ?_⟩
  · refine List.pairwise_append.mpr ⟨h.increasing, List.pairwise_singleton _ _, fun a ha b hb => ?_⟩
    rw [List.mem_singleton.mp hb]
    rcases List.mem_append.mp ha with ha | ha
    · have := h.lt_prev ha
      exact ⟨by omega, by omega⟩
    · rw [List.mem_singleton.mp ha]
      exact ⟨hseq, hlt⟩
  · constructor
    · intro hst
      rcases List.mem_append.mp hst with ha | ha
      · -- the steps of `q` stay below `x`
        exact (onStaircase_snoc_of_lt (h.lt_of_mem hx hne ha)).mpr ((h.staircase s t).mp ha)
      · -- `x` is the new step
        obtain ⟨rfl, rfl⟩ := SeqnoTimePair.mk_eq_iff.mp (List.mem_singleton.mp ha)
        refine ⟨hpos, List.mem_append_right _ (List.mem_singleton_self _), fun t' ht' => ?_, fun p hp _ hplt => ?_⟩
        · rcases List.mem_append.mp ht' with ht' | ht'
          · exact (hearlier _ ht').le
          · exact (SeqnoTimePair.mk_eq_iff.mp (List.mem_singleton.mp ht')).2.le
        · rcases List.mem_append.mp hp with hp | hp
          · exact hearlier p hp
          · rw [List.mem_singleton.mp hp] at hplt
            omega
    · intro hst
      rcases Nat.lt_or_eq_of_le (seqno_le_of_onStaircase (le_snoc_self hx) hst) with hsx | rfl
      · exact List.mem_append_left _ ((h.staircase s t).mpr ((onStaircase_snoc_of_lt hsx).mp hst))
      · -- a step at `x`'s sequence number is `x`: the other pairs there are earlier than `x`
        have hge : x.time ≤ t := hst.2.2.1 x.time (List.mem_append_right _ (List.mem_singleton_self _))
        rcases List.mem_append.mp hst.2.1 with ht | ht
        · have := hearlier _ ht
          dsimp only at this
          omega
        · exact List.mem_append_right _ ht
  · rcases List.mem_append.mp hp with hp | hp
    · exact (hearlier p hp).le
    · rw [List.mem_singleton.mp hp]

/-- `x` has another sequence number and no later time than `prev`: it is below the staircase -/
theorem PassInv.step_dominated (h : PassInv q out prev) (hx : ∀ p ∈ q, p.le x) (hne : x.seqno ≠ prev.seqno)
    (hle : x.time ≤ prev.time) : PassInv (q ++ [x]) out prev := by
  have hprev := h.prev_onStaircase
  have hseq : prev.seqno < x.seqno := by
    have := seqno_le_of_onStaircase hx hprev
    omega
  refine ⟨h.increasing, fun s t => ?_, fun p hp => ?_⟩
  · constructor
    · intro hst
      exact (onStaircase_snoc_of_lt (h.lt_of_mem hx hne hst)).mpr ((h.staircase s t).mp hst)
    · intro hst
      rcases Nat.lt_or_eq_of_le (seqno_le_of_onStaircase (le_snoc_self hx) hst) with hsx | rfl
      · exact (h.staircase s t).mpr ((onStaircase_snoc_of_lt hsx).mp hst)
      · -- a step at `x`'s sequence number would need a time later than `prev`'s, and there is none
        have hbelow := hst.2.2.2 prev (List.mem_append_left _ hprev.2.1) hprev.1 hseq
        rcases List.mem_append.mp hst.2.1 with ht | ht
        · have := h.latest _ ht
          dsimp only at this
          omega
        · have := (SeqnoTimePair.mk_eq_iff.mp (List.mem_singleton.mp ht)).2
          omega
  · rcases List.mem_append.mp hp with hp | hp
    · exact h.latest p hp
    · rw [List.mem_singleton.mp hp]
      exact hle

/-- one turn of the pass keeps the invariant, over a sorted copy of positive pairs -/
theorem PassInv.sortStep (h : PassInv q out prev) (hx : ∀ p ∈ q, p.le x) (hpos : 0 < x.seqno) :
    PassInv (q ++ [x]) (sortStep (out, prev) x).1 (sortStep (out, prev) x).2 := by
  unfold SeqnoToTimeMapping.sortStep
  dsimp only
  split
  · exact h.step_same hx ‹_›
  · split
    · exact h.step_later hx ‹_› ‹_› hpos
    · exact h.step_dominated hx ‹_› (by omega)

end pass

/-- the pass over a sorted copy of positive pairs, from its front, leaves the staircase of the copy -/
theorem passInv_foldl {first : SeqnoTimePair} (hfirst : 0 < first.seqno) :
    ∀ {l : List SeqnoTimePair}, (first :: l).Pairwise SeqnoTimePair.le → (∀ p ∈ l, 0 < p.seqno) →
      PassInv (first :: l) ((first :: l).foldl sortStep ([], first)).1 ((first :: l).foldl sortStep ([], first)).2 := by
  intro l
  -- the induction is on the copy from its end: each turn of the pass adds one pair to the prefix it has seen
  induction l using List.reverseRecOn with
  | nil =>
    intro _ _
    have hstep : sortStep ([], first) first = ([], first) := by simp [sortStep]
    rw [List.foldl_cons, hstep, List.foldl_nil]
    show PassInv [first] [] first
    refine ⟨List.pairwise_singleton _ _, fun s t => ?_, fun p hp => by rw [List.mem_singleton.mp hp]⟩
    constructor
    · intro hst
      obtain ⟨rfl, rfl⟩ := SeqnoTimePair.mk_eq_iff.mp (List.mem_singleton.mp hst)
      refine ⟨hfirst, by simp, fun t' ht' => ?_, fun p hp _ hlt => ?_⟩
      · rw [(SeqnoTimePair.mk_eq_iff.mp (List.mem_singleton.mp ht')).2]
      · rw [List.mem_singleton.mp hp] at hlt
        omega
    · exact fun hst => hst.2.1
  | append_singleton l x ih =>
    intro hsorted hpos
    rw [← List.cons_append] at hsorted ⊢
    have hx : ∀ p ∈ first :: l, p.le x :=
      fun p hp => (List.pairwise_append.mp hsorted).2.2 p hp x (List.mem_singleton_self _)
    have hinv := ih (List.pairwise_append.mp hsorted).1 fun p hp => hpos p (List.mem_append_left _ hp)
    rw [List.foldl_append, List.foldl_cons, List.foldl_nil]
    exact hinv.sortStep hx (hpos x (List.mem_append_right _ (List.mem_singleton_self _)))

/-! ## Runs of `Add` -/

/-- `Add(seqno, time)` on each pair in turn -/
def addPairs (m : SeqnoToTimeMapping) (P : List SeqnoTimePair) : SeqnoToTimeMapping :=
  P.foldl (fun m p => m.add p.seqno p.time) m

/-! ## `Sort` -/

/-- **`Sort` computes the staircase.** On an unsorted mapping that holds a pair with a positive sequence number, `Sort`
leaves, in increasing order of sequence number and of time, exactly the pairs `(s, t)` of the staircase: `s > 0`
occurs in the mapping, `t` is the latest time paired with it, and every smaller positive sequence number is paired
only with earlier times. The mapping is then sorted, with its other fields as they were. -/
theorem sort_staircase (m : SeqnoToTimeMapping) (hunsorted : m.isSorted = false)
    (hpos : ∃ p ∈ m.pairs, 0 < p.seqno) :
    ∃ m', m.sort = some m' ∧ m'.isSorted = true ∧ m'.maxTimeDuration = m.maxTimeDuration ∧
      m'.maxCapacity = m.maxCapacity ∧ StrictlyIncreasing m'.pairs ∧
      ∀ s t, SeqnoTimePair.mk s t ∈ m'.pairs ↔ OnStaircase m.pairs s t := by
  have hne : m.pairs.isEmpty = false := by
    obtain ⟨p, hp, -⟩ := hpos
    exact List.isEmpty_eq_false_iff_exists_mem.mpr ⟨p, hp⟩
  have hperm := List.perm_insertionSort SeqnoTimePair.le m.pairs
  -- the sorted copy, from its first positive pair on
  obtain ⟨first, rest, hdrop, hsorted, hmem⟩ := dropLeadingZeros_of_pairwise (pairwise_le_insertionSort m.pairs)
    (by obtain ⟨p, hp, hp0⟩ := hpos; exact ⟨p, hperm.mem_iff.mpr hp, hp0⟩)
  have hpos' : ∀ p ∈ first :: rest, 0 < p.seqno := fun p hp => ((hmem p).mp hp).2
  have hinv := passInv_foldl (hpos' first List.mem_cons_self) hsorted
    fun p hp => hpos' p (List.mem_cons_of_mem _ hp)
  set r := (first :: rest).foldl sortStep ([], first)
  refine ⟨{ m with pairs := r.1 ++ [r.2], isSorted := true }, ?_, rfl, rfl, rfl, hinv.increasing, fun s t => ?_⟩
  · unfold sort
    rw [hunsorted, hne, hdrop]
    rfl
  · -- the copy's positive pairs are the mapping's positive pairs
    rw [hinv.staircase s t]
    refine onStaircase_congr fun p hp0 => ?_
    rw [hmem p, hperm.mem_iff]
    exact and_iff_left hp0

/-- the pairs of the `Sort` test of `seqno_time_test.cc`, in the order it adds them -/
def sortTestPairs : List SeqnoTimePair := [⟨10, 11⟩, ⟨10, 11⟩, ⟨10, 9⟩, ⟨11, 9⟩, ⟨9, 8⟩, ⟨1, 10⟩, ⟨100, 100⟩]

theorem sort_staircase_sortTest :
    ∃ m', ((create 0 0).addPairs sortTestPairs).sort = some m' ∧ m'.isSorted = true ∧
      m'.maxTimeDuration = ((create 0 0).addPairs sortTestPairs).maxTimeDuration ∧
      m'.maxCapacity = ((create 0 0).addPairs sortTestPairs).maxCapacity ∧ StrictlyIncreasing m'.pairs ∧
      ∀ s t, SeqnoTimePair.mk s t ∈ m'.pairs ↔ OnStaircase ((create 0 0).addPairs sortTestPairs).pairs s t :=
  sort_staircase _ (by decide) ⟨⟨10, 11⟩, by decide, by decide⟩

/-- **`Sort` reads an empty deque.** On an unsorted mapping whose pairs all have sequence number 0, the loop that pops
them empties the copy, and `Sort` then reads `copy.front()` of the empty deque. -/
theorem sort_reads_empty_deque (m : SeqnoToTimeMapping) (hunsorted : m.isSorted = false) (hne : m.pairs ≠ [])
    (hzero : ∀ p ∈ m.pairs, p.seqno = 0) : m.sort = none := by
  have hcopy : ∀ p ∈ m.pairs.insertionSort SeqnoTimePair.le, p.seqno = 0 :=
    fun p hp => hzero p ((List.perm_insertionSort _ _).mem_iff.mp hp)
  unfold sort
  rw [hunsorted, List.isEmpty_eq_false_iff.mpr hne, dropLeadingZeros_of_zero hcopy]
  rfl

/-- `Add(pairs_str)` on the string `[1, 0, 5]` (one pair, sequence number delta 0, time delta 5) adds the pair `(0, 5)`,
and `Sort` then reads an empty deque -/
theorem sort_reads_empty_deque_after_decode : ((create 0 0).addEncoded [1, 0, 5]).2.sort = none :=
  sort_reads_empty_deque _ (by decide) (by decide) (by decide)

end SeqnoToTimeMapping

end ForSt
