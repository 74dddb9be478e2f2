import ForSt.Db.SeqnoToTimeMappingSpec
import ForSt.Lib.SortedSearch
/-!
What `Append` and `TruncateOldEntries` keep of a mapping they sample.

`Sampled`: the pairs strictly increase in sequence number and time, every sequence number is positive, and there are
at most `max_capacity_` pairs. `Append` refuses, appends, or replaces the last sequence number (`append_cases`);
it and `TruncateOldEntries` keep the invariant (`sampled_append`, `sampled_truncateOldEntries`, `sampled_run`).
`GetProximalSeqnoBeforeTime(q)` is the sequence number of the last pair not later than `q`
(`getProximalSeqnoBeforeTime_eq`), which `Append` and `TruncateOldEntries` keep for the queries that matter
(`getProximalSeqnoBeforeTime_append`, `getProximalSeqnoBeforeTime_truncateOldEntries`).
-/

namespace ForSt

namespace SeqnoToTimeMapping

/-- what a mapping sampled by `Append` and `TruncateOldEntries` holds -/
structure Sampled (m : SeqnoToTimeMapping) : Prop where
  increasing : StrictlyIncreasing m.pairs
  pos : ∀ p ∈ m.pairs, 0 < p.seqno
  size : m.pairs.length ≤ m.maxCapacity

theorem sampled_create (maxTimeDuration maxCapacity : ℕ) : (create maxTimeDuration maxCapacity).Sampled where
  increasing := List.Pairwise.nil
  pos := by simp [create]
  size := by simp [create]

/-- strictly increasing pairs are in time order -/
theorem StrictlyIncreasing.time {l : List SeqnoTimePair} (h : StrictlyIncreasing l) :
    l.Pairwise fun a b => a.time < b.time :=
  h.imp fun hab => hab.2

theorem StrictlyIncreasing.sublist {l l' : List SeqnoTimePair} (h : StrictlyIncreasing l) (hsub : l'.Sublist l) :
    StrictlyIncreasing l' :=
  List.Pairwise.sublist hsub h

/-- a pair after every pair of an increasing list keeps it increasing -/
theorem StrictlyIncreasing.append_singleton {l : List SeqnoTimePair} (h : StrictlyIncreasing l)
    {p : SeqnoTimePair} (hp : ∀ x ∈ l, x.seqno < p.seqno ∧ x.time < p.time) : StrictlyIncreasing (l ++ [p]) := by
  apply List.pairwise_append.mpr
  refine ⟨h, List.pairwise_singleton _ p, fun x hx y hy => ?_⟩
  rw [List.mem_singleton.mp hy]
  exact hp x hx

/-! ## The last pair not later than a time -/

section lastBefore

variable {m : SeqnoToTimeMapping}

/-- `std::upper_bound` by time on pairs in time order: the pairs before it are those not later than `q` -/
theorem take_findGreaterTime (hs : m.pairs.Pairwise fun a b => a.time < b.time) (q : ℕ) :
    m.pairs.take (m.findGreaterTime q) = m.pairs.filter fun p => decide (p.time ≤ q) := by
  have hmono : m.pairs.Pairwise fun a b => decide (q < a.time) = true → decide (q < b.time) = true :=
    hs.imp fun hab ha => by
      rw [decide_eq_true_eq] at ha ⊢
      exact lt_trans ha hab
  rw [findGreaterTime, SortedSearch.take_findIdx_eq_filter hmono]
  apply List.filter_congr
  intro p _
  by_cases hp : q < p.time
  · simp [hp, not_le.mpr hp]
  · simp [hp, not_lt.mp hp]

/-- `GetProximalSeqnoBeforeTime(q)` on pairs in time order: the sequence number of the last pair not later than `q`,
or `kUnknownSeqnoBeforeAll` when there is none -/
theorem getProximalSeqnoBeforeTime_eq (hs : m.pairs.Pairwise fun a b => a.time < b.time) (q : ℕ) :
    m.getProximalSeqnoBeforeTime q =
      ((m.pairs.filter fun p => decide (p.time ≤ q)).getLast?.map SeqnoTimePair.seqno).getD
        kUnknownSeqnoBeforeAll := by
  rw [← take_findGreaterTime hs, List.getLast?_take, getProximalSeqnoBeforeTime]
  by_cases h0 : m.findGreaterTime q = 0
  · simp only [h0, if_true, Option.map_none, Option.getD_none]
  · have hle : m.findGreaterTime q ≤ m.pairs.length := List.findIdx_le_length
    have hlt : m.findGreaterTime q - 1 < m.pairs.length := by omega
    simp only [h0, if_false, List.getElem?_eq_getElem hlt, Option.some_or]

/-- a pair at the end, not later than `q`, is the last pair not later than `q` -/
theorem getProximalSeqnoBeforeTime_of_pairs_eq {xs : List SeqnoTimePair} {p : SeqnoTimePair}
    (hs : m.pairs.Pairwise fun a b => a.time < b.time) (hpairs : m.pairs = xs ++ [p]) {q : ℕ} (hq : p.time ≤ q) :
    m.getProximalSeqnoBeforeTime q = p.seqno := by
  rw [getProximalSeqnoBeforeTime_eq hs, hpairs, List.filter_append]
  simp [hq]

end lastBefore

/-! ## Append -/

section append

variable {m : SeqnoToTimeMapping} {s t : ℕ}

@[simp] theorem emplaceBackCapped_maxCapacity (p : SeqnoTimePair) :
    (m.emplaceBackCapped p).maxCapacity = m.maxCapacity := rfl

@[simp] theorem emplaceBackCapped_maxTimeDuration (p : SeqnoTimePair) :
    (m.emplaceBackCapped p).maxTimeDuration = m.maxTimeDuration := rfl

theorem emplaceBackCapped_pairs_eq (p : SeqnoTimePair) :
    (m.emplaceBackCapped p).pairs =
      if (m.pairs ++ [p]).length > m.maxCapacity then (m.pairs ++ [p]).tail else m.pairs ++ [p] := rfl

/-- with room for one pair, `pop_front` never drops the pair just appended -/
theorem emplaceBackCapped_pairs (hcap : 0 < m.maxCapacity) (p : SeqnoTimePair) :
    ∃ xs, (m.emplaceBackCapped p).pairs = xs ++ [p] ∧ xs.Sublist m.pairs := by
  rw [emplaceBackCapped_pairs_eq]
  by_cases hlen : (m.pairs ++ [p]).length > m.maxCapacity
  · -- the deque held a pair, since it now holds more than one
    have hne : m.pairs ≠ [] := by
      rintro hnil
      rw [hnil, List.nil_append, List.length_singleton] at hlen
      omega
    rw [if_pos hlen, List.tail_append_of_ne_nil hne]
    exact ⟨m.pairs.tail, rfl, List.tail_sublist _⟩
  · rw [if_neg hlen]
    exact ⟨m.pairs, rfl, List.Sublist.refl _⟩

theorem length_emplaceBackCapped (h : m.pairs.length ≤ m.maxCapacity) (p : SeqnoTimePair) :
    (m.emplaceBackCapped p).pairs.length ≤ m.maxCapacity := by
  rw [emplaceBackCapped_pairs_eq]
  by_cases hlen : (m.pairs ++ [p]).length > m.maxCapacity
  · rw [if_pos hlen, List.length_tail, List.length_append, List.length_singleton]
    omega
  · rw [if_neg hlen]
    omega

/-- what `Append` can do: refuse the pair, append it after a last pair earlier in both fields, or give the last pair
its sequence number when the time is the same -/
theorem append_cases (m : SeqnoToTimeMapping) (s t : ℕ) :
    m.append s t = (false, m) ∨
      (0 < s ∧ (∀ last ∈ m.pairs.getLast?, last.seqno < s ∧ last.time < t) ∧
        m.append s t = (true, m.emplaceBackCapped ⟨s, t⟩)) ∨
      (0 < s ∧ ∃ xs last, m.pairs = xs ++ [last] ∧ last.seqno < s ∧ last.time = t ∧
        m.append s t = (true, { m with pairs := xs ++ [⟨s, t⟩] })) := by
  by_cases hs : s = 0
  · exact .inl (by simp [append, hs])
  have hpos : 0 < s := Nat.pos_of_ne_zero hs
  cases hl : m.pairs.getLast? with
  | none => exact .inr (.inl ⟨hpos, by simp, by simp [append, hs, hl]⟩)
  | some last =>
    obtain ⟨xs, hxs⟩ := List.getLast?_eq_some_iff.mp hl
    have happend : m.append s t =
        if s < last.seqno ∨ t < last.time then (false, m)
        else if s = last.seqno then (false, m)
        else if t = last.time then (true, { m with pairs := m.pairs.dropLast ++ [{ last with seqno := s }] })
        else (true, m.emplaceBackCapped ⟨s, t⟩) := by
      simp only [append, if_neg hs, hl]
    by_cases hlt : s < last.seqno ∨ t < last.time
    · exact .inl (by rw [happend, if_pos hlt])
    by_cases heq : s = last.seqno
    · exact .inl (by rw [happend, if_neg hlt, if_pos heq])
    rw [happend, if_neg hlt, if_neg heq]
    rw [not_or, not_lt, not_lt] at hlt
    by_cases ht : t = last.time
    · -- `Last().seqno = seqno`
      refine .inr (.inr ⟨hpos, xs, last, hxs, lt_of_le_of_ne hlt.1 (Ne.symm heq), ht.symm, ?_⟩)
      rw [if_pos ht, hxs, List.dropLast_concat, ht]
    · refine .inr (.inl ⟨hpos, ?_, ?_⟩)
      · intro last' hlast'
        rw [Option.mem_some_iff] at hlast'
        subst hlast'
        exact ⟨lt_of_le_of_ne hlt.1 (Ne.symm heq), lt_of_le_of_ne hlt.2 (Ne.symm ht)⟩
      · rw [if_neg ht]

/-- every pair of increasing pairs is at most the last in both fields -/
theorem le_last_of_increasing {xs : List SeqnoTimePair} {last : SeqnoTimePair} (h : StrictlyIncreasing (xs ++ [last])) :
    ∀ x ∈ xs, x.seqno < last.seqno ∧ x.time < last.time := by
  intro x hx
  exact (List.pairwise_append.mp h).2.2 x hx last (List.mem_singleton_self last)

theorem sampled_emplaceBackCapped (hm : m.Sampled) (hcap : 0 < m.maxCapacity) {p : SeqnoTimePair}
    (hpos : 0 < p.seqno) (habove : ∀ x ∈ m.pairs, x.seqno < p.seqno ∧ x.time < p.time) :
    (m.emplaceBackCapped p).Sampled := by
  obtain ⟨xs, hpairs, hsub⟩ := emplaceBackCapped_pairs hcap p
  constructor
  · rw [hpairs]
    exact (hm.increasing.sublist hsub).append_singleton fun x hx => habove x (hsub.subset hx)
  · intro x hx
    rw [hpairs, List.mem_append, List.mem_singleton] at hx
    rcases hx with hx | rfl
    · exact hm.pos x (hsub.subset hx)
    · exact hpos
  · exact length_emplaceBackCapped hm.size p

/-- a pair after the last pair, in both fields -/
theorem above_of_last (hm : m.Sampled) {p : SeqnoTimePair}
    (hlast : ∀ last ∈ m.pairs.getLast?, last.seqno < p.seqno ∧ last.time < p.time) :
    ∀ x ∈ m.pairs, x.seqno < p.seqno ∧ x.time < p.time := by
  intro x hx
  cases hl : m.pairs.getLast? with
  | none => exact absurd (List.getLast?_eq_none_iff.mp hl) (List.ne_nil_of_mem hx)
  | some last =>
  obtain ⟨xs, hxs⟩ := List.getLast?_eq_some_iff.mp hl
  have hlp := hlast last hl
  rw [hxs, List.mem_append, List.mem_singleton] at hx
  rcases hx with hx | rfl
  · have hxl := le_last_of_increasing (hxs ▸ hm.increasing) x hx
    exact ⟨lt_trans hxl.1 hlp.1, lt_trans hxl.2 hlp.2⟩
  · exact hlp

theorem sampled_append (hm : m.Sampled) (hcap : 0 < m.maxCapacity) (s t : ℕ) : (m.append s t).2.Sampled := by
  rcases append_cases m s t with h | ⟨hpos, hlast, h⟩ | ⟨hpos, xs, last, hxs, hs, ht, h⟩
  · rw [h]
    exact hm
  · rw [h]
    exact sampled_emplaceBackCapped hm hcap hpos (above_of_last hm hlast)
  · -- the last pair takes the larger sequence number and keeps its time
    have hinc : StrictlyIncreasing (xs ++ [last]) := hxs ▸ hm.increasing
    rw [h]
    constructor
    · apply (hinc.sublist (List.sublist_append_left xs [last])).append_singleton
      intro x hx
      have hxl := le_last_of_increasing hinc x hx
      exact ⟨lt_trans hxl.1 hs, ht ▸ hxl.2⟩
    · intro x hx
      rw [List.mem_append, List.mem_singleton] at hx
      rcases hx with hx | rfl
      · exact hm.pos x (hxs ▸ List.mem_append_left _ hx)
      · exact hpos
    · have hsize := hm.size
      rw [hxs] at hsize
      simpa using hsize

/-- a pair `Append` takes answers a query at its own time -/
theorem getProximalSeqnoBeforeTime_append (hm : m.Sampled) (hcap : 0 < m.maxCapacity)
    (htaken : (m.append s t).1 = true) : (m.append s t).2.getProximalSeqnoBeforeTime t = s := by
  have hs := (sampled_append hm hcap s t).increasing.time
  rcases append_cases m s t with h | ⟨-, -, h⟩ | ⟨-, xs, -, -, -, -, h⟩
  · rw [h] at htaken
    exact absurd htaken Bool.false_ne_true
  · rw [h] at hs ⊢
    obtain ⟨xs, hpairs, -⟩ := emplaceBackCapped_pairs hcap ⟨s, t⟩
    exact getProximalSeqnoBeforeTime_of_pairs_eq hs hpairs le_rfl
  · rw [h] at hs ⊢
    exact getProximalSeqnoBeforeTime_of_pairs_eq hs rfl le_rfl

end append

/-! ## TruncateOldEntries -/

section truncate

variable {m : SeqnoToTimeMapping}

/-- what `TruncateOldEntries(now)` can do: nothing, or erase the pairs before the last one not later than the
cutoff -/
theorem truncateOldEntries_cases (m : SeqnoToTimeMapping) (now : ℕ) :
    m.truncateOldEntries now = m ∨
      (0 < m.maxTimeDuration ∧ m.maxTimeDuration ≤ now ∧ m.findGreaterTime (now - m.maxTimeDuration) ≠ 0 ∧
        m.truncateOldEntries now =
          { m with pairs := m.pairs.drop (m.findGreaterTime (now - m.maxTimeDuration) - 1) }) := by
  by_cases hd : m.maxTimeDuration = 0
  · exact .inl (by simp [truncateOldEntries, hd])
  by_cases hnow : now < m.maxTimeDuration
  · exact .inl (by simp [truncateOldEntries, hnow])
  by_cases hit : m.findGreaterTime (now - m.maxTimeDuration) = 0
  · exact .inl (by simp [truncateOldEntries, hd, hnow, hit])
  exact .inr ⟨Nat.pos_of_ne_zero hd, not_lt.mp hnow, hit, by simp [truncateOldEntries, hd, hnow, hit]⟩

@[simp] theorem truncateOldEntries_maxCapacity (now : ℕ) :
    (m.truncateOldEntries now).maxCapacity = m.maxCapacity := by
  rcases truncateOldEntries_cases m now with h | ⟨-, -, -, h⟩ <;> rw [h]

@[simp] theorem truncateOldEntries_maxTimeDuration (now : ℕ) :
    (m.truncateOldEntries now).maxTimeDuration = m.maxTimeDuration := by
  rcases truncateOldEntries_cases m now with h | ⟨-, -, -, h⟩ <;> rw [h]

theorem sampled_truncateOldEntries (hm : m.Sampled) (now : ℕ) : (m.truncateOldEntries now).Sampled := by
  rcases truncateOldEntries_cases m now with h | ⟨-, -, -, h⟩
  · rw [h]
    exact hm
  · rw [h]
    exact ⟨hm.increasing.sublist (List.drop_sublist _ _), fun p hp => hm.pos p (List.mem_of_mem_drop hp),
      Nat.le_trans (List.drop_sublist _ _).length_le hm.size⟩

/-- the pair before the first one later than `q` is not later than `q` -/
theorem time_le_of_lt_findGreaterTime {q i : ℕ} (hi : i < m.findGreaterTime q) (hlen : i < m.pairs.length) :
    m.pairs[i].time ≤ q := by
  have := List.not_of_lt_findIdx hi
  simpa using this

/-- the last pair not later than the cutoff is kept, so each query from the cutoff on has the same answer -/
theorem getProximalSeqnoBeforeTime_truncateOldEntries (hm : m.Sampled) {now q : ℕ}
    (hq : now - m.maxTimeDuration ≤ q) :
    (m.truncateOldEntries now).getProximalSeqnoBeforeTime q = m.getProximalSeqnoBeforeTime q := by
  rcases truncateOldEntries_cases m now with h | ⟨-, -, hit, h⟩
  · rw [h]
  have hs := hm.increasing.time
  have hs' := (sampled_truncateOldEntries hm now).increasing.time
  rw [getProximalSeqnoBeforeTime_eq hs', getProximalSeqnoBeforeTime_eq hs, h]
  have hle : m.findGreaterTime (now - m.maxTimeDuration) ≤ m.pairs.length := List.findIdx_le_length
  have hlt : m.findGreaterTime (now - m.maxTimeDuration) - 1 < m.pairs.length := by omega
  -- the pair the cutoff keeps is not later than `q`, so some kept pair is
  have hcut := time_le_of_lt_findGreaterTime
    (show m.findGreaterTime (now - m.maxTimeDuration) - 1 < m.findGreaterTime (now - m.maxTimeDuration) by omega) hlt
  generalize m.findGreaterTime (now - m.maxTimeDuration) - 1 = k at hlt hcut ⊢
  have hne : (m.pairs.drop k).filter (fun p => decide (p.time ≤ q)) ≠ [] := by
    have hmem : m.pairs[k] ∈ (m.pairs.drop k).filter (fun p => decide (p.time ≤ q)) := by
      rw [List.mem_filter, List.drop_eq_getElem_cons hlt]
      exact ⟨List.mem_cons_self .., decide_eq_true (Nat.le_trans hcut hq)⟩
    exact List.ne_nil_of_mem hmem
  conv => rhs; rw [← List.take_append_drop k m.pairs]
  rw [List.filter_append, List.getLast?_append_of_ne_nil _ hne]

end truncate

/-! ## Runs -/

@[simp] theorem apply_maxCapacity (m : SeqnoToTimeMapping) (op : SeqnoToTimeMappingOp) :
    (m.apply op).maxCapacity = m.maxCapacity := by
  cases op with
  | append s t =>
    rcases append_cases m s t with h | ⟨-, -, h⟩ | ⟨-, _, _, -, -, -, h⟩ <;> simp [apply, h]
  | truncateOldEntries now => simp [apply]

@[simp] theorem apply_maxTimeDuration (m : SeqnoToTimeMapping) (op : SeqnoToTimeMappingOp) :
    (m.apply op).maxTimeDuration = m.maxTimeDuration := by
  cases op with
  | append s t =>
    rcases append_cases m s t with h | ⟨-, -, h⟩ | ⟨-, _, _, -, -, -, h⟩ <;> simp [apply, h]
  | truncateOldEntries now => simp [apply]

theorem run_maxCapacity : ∀ (m : SeqnoToTimeMapping) (ops : List SeqnoToTimeMappingOp),
    (m.run ops).maxCapacity = m.maxCapacity
  | _, [] => rfl
  | m, op :: ops => (run_maxCapacity (m.apply op) ops).trans (apply_maxCapacity m op)

theorem run_maxTimeDuration : ∀ (m : SeqnoToTimeMapping) (ops : List SeqnoToTimeMappingOp),
    (m.run ops).maxTimeDuration = m.maxTimeDuration
  | _, [] => rfl
  | m, op :: ops => (run_maxTimeDuration (m.apply op) ops).trans (apply_maxTimeDuration m op)

theorem sampled_apply {m : SeqnoToTimeMapping} (hm : m.Sampled) (hcap : 0 < m.maxCapacity)
    (op : SeqnoToTimeMappingOp) : (m.apply op).Sampled := by
  cases op with
  | append s t => exact sampled_append hm hcap s t
  | truncateOldEntries now => exact sampled_truncateOldEntries hm now

/-- every run of calls keeps the invariant -/
theorem sampled_run : ∀ {m : SeqnoToTimeMapping}, m.Sampled → 0 < m.maxCapacity →
    ∀ ops : List SeqnoToTimeMappingOp, (m.run ops).Sampled
  | _, hm, _, [] => hm
  | m, hm, hcap, op :: ops => by
    have hcap' : 0 < (m.apply op).maxCapacity := by rw [apply_maxCapacity]; exact hcap
    exact sampled_run (sampled_apply hm hcap op) hcap' ops

/-- from a fresh mapping with room for a pair, every interleaving of `Append` and `TruncateOldEntries` keeps the pairs
strictly increasing in sequence number and in time, with positive sequence numbers and at most `max_capacity_` of
them; a pair `Append` then takes answers the query at its time, and `TruncateOldEntries(now)` answers each query
from `now - max_time_duration_` on as before -/
theorem append_truncate_keep_samples (maxTimeDuration maxCapacity : ℕ) (hcap : 0 < maxCapacity)
    (ops : List SeqnoToTimeMappingOp) :
    (StrictlyIncreasing ((create maxTimeDuration maxCapacity).run ops).pairs ∧
        (∀ p ∈ ((create maxTimeDuration maxCapacity).run ops).pairs, 0 < p.seqno) ∧
        ((create maxTimeDuration maxCapacity).run ops).pairs.length ≤ maxCapacity) ∧
      (∀ s t, (((create maxTimeDuration maxCapacity).run ops).append s t).1 = true →
        (((create maxTimeDuration maxCapacity).run ops).append s t).2.getProximalSeqnoBeforeTime t = s) ∧
      ∀ now q, 0 < maxTimeDuration → maxTimeDuration ≤ now → now - maxTimeDuration ≤ q →
        (((create maxTimeDuration maxCapacity).run ops).truncateOldEntries now).getProximalSeqnoBeforeTime q =
          ((create maxTimeDuration maxCapacity).run ops).getProximalSeqnoBeforeTime q := by
  have hcap' : 0 < ((create maxTimeDuration maxCapacity).run ops).maxCapacity := by
    rw [run_maxCapacity]
    exact hcap
  have hm := sampled_run (sampled_create maxTimeDuration maxCapacity) hcap ops
  have hsize := hm.size
  rw [run_maxCapacity] at hsize
  refine ⟨⟨hm.increasing, hm.pos, hsize⟩, fun s t htaken => getProximalSeqnoBeforeTime_append hm hcap' htaken, ?_⟩
  intro now q _ _ hq
  apply getProximalSeqnoBeforeTime_truncateOldEntries hm
  rw [run_maxTimeDuration]
  exact hq

/-- the samples of the test of `TruncateOldEntries`: the cutoff `642 - 42` keeps the pair at time 600 for the
query at 600 -/
theorem append_truncate_keep_samples_test :
    0 < 10 ∧ (((create 42 10).run [.append 10 500, .append 20 600, .append 30 700]).truncateOldEntries
        642).getProximalSeqnoBeforeTime 600 = 20 := by
  refine ⟨by decide, ?_⟩
  have hkeep := (append_truncate_keep_samples 42 10 (by decide)
    [.append 10 500, .append 20 600, .append 30 700]).2.2 642 600 (by decide) (by decide) (by decide)
  exact hkeep.trans (by decide)

end SeqnoToTimeMapping

end ForSt
