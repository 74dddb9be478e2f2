import ForSt.Db.SeqnoToTimeMappingSpec
import Mathlib.Tactic.SplitIfs
/-!
What `SeqnoToTimeMapping::Encode` writes, read back by `Add(pairs_str)`.

- Each pair is its delta from the pair before, subtracted in `uint64_t`, and decoding adds it back modulo `2 ^ 64`
  (`addDecodedLoop_deltaEncode`), so `Add(pairs_str)` on the output of `Encode` appends exactly the pairs `Encode`
  chose (`addEncoded_encode`).
- The greedy loop that picks `output_size` of the pairs always keeps the last. For `output_size` at least 2 it picks
  exactly `output_size` (`pickLoop_length`, with the invariant `PickInv`); for `output_size = 1` the bound is never
  set and it picks every pair (`pickLoop_of_skip_zero`).
- The window of `Encode` runs to the last pair not past `end`; with no cut-off it starts at or before the pair that
  answers `GetProximalTimeBeforeSeqno` just past `start` (`getLast?_filter_window`).
- `encode_sample`: for pairs strictly increasing in sequence number and time, and `start ≤ end`, `Add(pairs_str)`
  reads back some of the pairs in order, at most `output_size` when it is at least 2, the last pair not past `end`
  among them, and with no cut-off and pairs that fit `output_size`, the same answers of `GetProximalTimeBeforeSeqno`
  from `start + 1` to `end + 1`. With `output_size = 1` and two pairs, both are written
  (`encode_outputSize_one_exceeds`).
-/

namespace ForSt

namespace SeqnoToTimeMapping

open ForSt.Coding

/-! ## Delta encoding -/

section delta

/-- the fields fit a `uint64_t` -/
def Fits (p : SeqnoTimePair) : Prop := p.seqno < 2 ^ 64 ∧ p.time < 2 ^ 64

instance (p : SeqnoTimePair) : Decidable (Fits p) := inferInstanceAs (Decidable (_ ∧ _))

/-- a delta reads back as it was written: its fields are `uint64_t` values already -/
theorem decode_encode_computeDelta (v base : SeqnoTimePair) (rest : List UInt8) :
    SeqnoTimePair.decode ((v.computeDelta base).encode ++ rest) = .ok (v.computeDelta base, rest) := by
  rw [SeqnoTimePair.encode, List.append_assoc, SeqnoTimePair.decode, getVarint64_putVarint64]
  simp only [getVarint64_putVarint64, SeqnoTimePair.computeDelta, UInt64.ofNat_toNat]

/-- adding the delta back to the base gives the pair, modulo `2 ^ 64` on both sides -/
theorem applyDelta_computeDelta {v base : SeqnoTimePair} (hv : Fits v) (hb : Fits base) :
    (v.computeDelta base).applyDelta base = v := by
  obtain ⟨hvs, hvt⟩ := hv
  obtain ⟨hbs, hbt⟩ := hb
  have hs : ((UInt64.ofNat v.seqno - UInt64.ofNat base.seqno).toNat + base.seqno) % 2 ^ 64 = v.seqno := by
    rw [UInt64.toNat_sub, UInt64.toNat_ofNat', UInt64.toNat_ofNat']
    omega
  have ht : ((UInt64.ofNat v.time - UInt64.ofNat base.time).toNat + base.time) % 2 ^ 64 = v.time := by
    rw [UInt64.toNat_sub, UInt64.toNat_ofNat', UInt64.toNat_ofNat']
    omega
  rw [SeqnoTimePair.applyDelta, SeqnoTimePair.computeDelta]
  simp only [hs, ht]

/-- the decoding loop of `Add(pairs_str)` reads back the delta encoding of pairs that fit, whatever follows -/
theorem addDecodedLoop_deltaEncode (S : List SeqnoTimePair) (hS : ∀ p ∈ S, Fits p) (base : SeqnoTimePair)
    (hbase : Fits base) (rest : List UInt8) (acc : List SeqnoTimePair) :
    addDecodedLoop S.length base (deltaEncode base S ++ rest) acc = (.ok, acc ++ S) := by
  -- the induction is on the pairs, each the base of the next
  induction S generalizing base acc with
  | nil => simp [deltaEncode, addDecodedLoop]
  | cons it S ih =>
    have hit : Fits it := hS it List.mem_cons_self
    rw [List.length_cons, deltaEncode, List.append_assoc, addDecodedLoop, decode_encode_computeDelta]
    simp only [applyDelta_computeDelta hit hbase]
    rw [ih (fun p hp => hS p (List.mem_cons_of_mem it hp)) it hit]
    simp

/-- `Add(pairs_str)` on what `Encode` writes for the pairs `out`: the count and then the deltas -/
theorem addEncoded_encode (m' : SeqnoToTimeMapping) (out : List SeqnoTimePair) (hout : ∀ p ∈ out, Fits p)
    (hlen : out.length < 2 ^ 64) :
    m'.addEncoded (putVarint64 (UInt64.ofNat out.length) ++ deltaEncode ⟨0, 0⟩ out) =
      (.ok, { m' with isSorted := false, pairs := m'.pairs ++ out }) := by
  have hne : (putVarint64 (UInt64.ofNat out.length) ++ deltaEncode ⟨0, 0⟩ out).isEmpty = false := by
    simp [putVarint64_ne_nil]
  have hloop := addDecodedLoop_deltaEncode out hout ⟨0, 0⟩ ⟨by norm_num, by norm_num⟩ [] m'.pairs
  rw [List.append_nil] at hloop
  rw [addEncoded, hne, if_neg Bool.false_ne_true, getVarint64_putVarint64]
  simp only [UInt64.toNat_ofNat_of_lt' hlen, hloop]

end delta

/-! ## The greedy loop -/

section pick

variable (endTime : ℕ)

/-- the loop picks pairs in their order -/
theorem pickLoop_sublist (l : List SeqnoTimePair) (num : ℤ) (skip : ℕ) : (pickLoop endTime l num skip).Sublist l := by
  induction l generalizing num skip with
  | nil => exact List.Sublist.slnil
  | cons it rest ih =>
    rw [pickLoop]
    split_ifs
    · exact (ih num skip).cons it
    · exact (ih _ _).cons_cons it

/-- with no bound set and at most one pair to fill, the loop picks every pair: the bound is set only while pairs are
still to fill after a pick -/
theorem pickLoop_of_skip_zero (l : List SeqnoTimePair) {num : ℤ} (hnum : num ≤ 1) : pickLoop endTime l num 0 = l := by
  induction l generalizing num with
  | nil => rfl
  | cons it rest ih =>
    rw [pickLoop, if_neg (fun h => Nat.not_lt_zero _ h.2)]
    dsimp only
    rw [if_neg (fun h => by omega), ih (by omega)]

/-- the pairs the loop runs over: strictly increasing in time, up to the last, whose time is `end_time` -/
structure PickList (l : List SeqnoTimePair) : Prop where
  increasing : l.Pairwise fun a b => a.time < b.time
  last : ∀ p ∈ l.getLast?, p.time = endTime
  fits : endTime < 2 ^ 64

/-- what the loop keeps from one pair to the next, for `output_size` at least 2: pairs are still to fill, no more
than are left, and with one left to fill the bound is the time of the last pair -/
structure PickInv (l : List SeqnoTimePair) (num : ℤ) (skip : ℕ) : Prop where
  pos : 0 < num
  le_length : num ≤ l.length
  last : num = 1 → 2 ≤ l.length → skip = endTime

variable {endTime}

theorem PickList.tail {it : SeqnoTimePair} {rest : List SeqnoTimePair} (h : PickList endTime (it :: rest))
    (hrest : rest ≠ []) : PickList endTime rest where
  increasing := (List.pairwise_cons.mp h.increasing).2
  last p hp := h.last p (by rwa [List.getLast?_cons_of_ne_nil hrest])
  fits := h.fits

/-- a pair before the last is earlier than `end_time` -/
theorem PickList.time_lt {it : SeqnoTimePair} {rest : List SeqnoTimePair} (h : PickList endTime (it :: rest))
    (hrest : rest ≠ []) : it.time < endTime := by
  have hlast := List.getLast?_eq_some_getLast hrest
  rw [← h.last (rest.getLast hrest) (by rw [List.getLast?_cons_of_ne_nil hrest, hlast]; rfl)]
  exact (List.pairwise_cons.mp h.increasing).1 _ (List.getLast_mem hrest)

/-- a skipped pair leaves as many to fill, one fewer left -/
theorem PickInv.skip {it : SeqnoTimePair} {rest : List SeqnoTimePair} {num : ℤ} {skip : ℕ}
    (h : PickInv endTime (it :: rest) num skip) (hskip : (rest.length + 1 : ℤ) > num) :
    PickInv endTime rest num skip where
  pos := h.pos
  le_length := by omega
  last h1 h2 := h.last h1 (by simp only [List.length_cons]; omega)

/-- the bound set after a pick that leaves one pair to fill is `end_time` -/
theorem skip_eq_endTime (it : SeqnoTimePair) (hend : endTime < 2 ^ 64) :
    (UInt64.ofNat it.time + (UInt64.ofNat endTime - UInt64.ofNat it.time) / UInt64.ofNat (1 : ℤ).toNat).toNat =
      endTime := by
  have hsum : UInt64.ofNat it.time + (UInt64.ofNat endTime - UInt64.ofNat it.time) = UInt64.ofNat endTime := by
    have ha := (UInt64.ofNat it.time).toNat_lt
    have hb := (UInt64.ofNat endTime).toNat_lt
    rw [← UInt64.toNat_inj, UInt64.toNat_add, UInt64.toNat_sub]
    omega
  rw [Int.toNat_one, UInt64.ofNat_one, UInt64.div_one, hsum, UInt64.toNat_ofNat_of_lt' hend]

/-- a pick that leaves more pairs to fill keeps the invariant, the bound moved on -/
theorem PickInv.pick {it : SeqnoTimePair} {rest : List SeqnoTimePair} {num : ℤ} {skip : ℕ}
    (h : PickInv endTime (it :: rest) num skip) (hl : PickList endTime (it :: rest)) (hnum : 1 < num) :
    PickInv endTime rest (num - 1)
      (if (rest.length + 1 : ℤ) > num - 1 ∧ num - 1 > 0 then
        (UInt64.ofNat it.time + (UInt64.ofNat endTime - UInt64.ofNat it.time) / UInt64.ofNat (num - 1).toNat).toNat
      else skip) where
  pos := by omega
  le_length := by have := h.le_length; simp only [List.length_cons] at this; omega
  last h1 _ := by
    have hlen := h.le_length
    simp only [List.length_cons] at hlen
    rw [if_pos ⟨by omega, by omega⟩, h1]
    exact skip_eq_endTime it hl.fits

/-- a pick that leaves no pair to fill is of the last pair: before it, with one left to fill, the bound is
`end_time`, and every earlier pair is skipped -/
theorem PickInv.rest_eq_nil {it : SeqnoTimePair} {rest : List SeqnoTimePair} {skip : ℕ}
    (h : PickInv endTime (it :: rest) 1 skip) (hl : PickList endTime (it :: rest))
    (hpick : ¬((rest.length + 1 : ℤ) > 1 ∧ it.time < skip)) : rest = [] := by
  by_contra hrest
  have hlen : 0 < rest.length := List.length_pos_iff.mpr hrest
  have hskip : skip = endTime := h.last rfl (by simp only [List.length_cons]; omega)
  exact hpick ⟨by omega, hskip ▸ hl.time_lt hrest⟩

/-- the loop picks exactly as many pairs as are to fill, the last pair among them -/
theorem pickLoop_length_mem (l : List SeqnoTimePair) (num : ℤ) (skip : ℕ) (hl : PickList endTime l)
    (h : PickInv endTime l num skip) :
    (pickLoop endTime l num skip).length = num.toNat ∧ ∀ p ∈ l.getLast?, p ∈ pickLoop endTime l num skip := by
  -- the induction is on the pairs left; each turn skips, picks the last pair, or picks and goes on
  induction l generalizing num skip with
  | nil => exact absurd (lt_of_lt_of_le h.pos h.le_length) (by simp)
  | cons it rest ih =>
    have hpos := h.pos
    have hlen := h.le_length
    simp only [List.length_cons] at hlen
    by_cases hskip : (rest.length + 1 : ℤ) > num ∧ it.time < skip
    · -- skipped: pairs are left after it, with the same last
      have hrest : rest ≠ [] := List.ne_nil_of_length_pos (by omega)
      rw [pickLoop, if_pos hskip, List.getLast?_cons_of_ne_nil hrest]
      exact ih num skip (hl.tail hrest) (h.skip hskip.1)
    rw [pickLoop, if_neg hskip]
    dsimp only
    rcases Int.lt_or_eq_of_le (Int.add_one_le_iff.mpr h.pos) with hnum | hnum
    · -- picked, with more left to fill
      have hrest : rest ≠ [] := List.ne_nil_of_length_pos (by omega)
      obtain ⟨ihlen, ihmem⟩ := ih (num - 1) _ (hl.tail hrest) (h.pick hl hnum)
      rw [List.length_cons, ihlen, List.getLast?_cons_of_ne_nil hrest]
      exact ⟨by omega, fun p hp => List.mem_cons_of_mem it (ihmem p hp)⟩
    · -- picked the last pair to fill, which is the last pair
      subst hnum
      have hrest := h.rest_eq_nil hl hskip
      subst hrest
      simp [pickLoop]

end pick

/-! ## The searches and the window -/

section window

variable {m : SeqnoToTimeMapping}

/-- past a bound, a larger sequence number stays past it -/
theorem pairwise_lt_seqno (hs : m.pairs.Pairwise fun a b => a.seqno < b.seqno) (x : ℕ) :
    m.pairs.Pairwise fun a b => decide (x < a.seqno) = true → decide (x < b.seqno) = true :=
  hs.imp fun hab hxa => decide_eq_true ((of_decide_eq_true hxa).trans hab)

/-- the pairs before `FindGreaterSeqno(x)` are those not past `x` -/
theorem take_findGreaterSeqno (hs : m.pairs.Pairwise fun a b => a.seqno < b.seqno) (x : ℕ) :
    m.pairs.take (m.findGreaterSeqno x) = m.pairs.filter fun p => decide (p.seqno ≤ x) := by
  rw [findGreaterSeqno, SortedSearch.take_findIdx_eq_filter (pairwise_lt_seqno hs x)]
  exact List.filter_congr fun p _ => by simp only [← decide_not, not_lt]

/-- the pairs from `FindGreaterSeqno(x)` on are past `x` -/
theorem lt_seqno_of_mem_drop (hs : m.pairs.Pairwise fun a b => a.seqno < b.seqno) {x : ℕ} {p : SeqnoTimePair}
    (hp : p ∈ m.pairs.drop (m.findGreaterSeqno x)) : x < p.seqno := by
  rw [findGreaterSeqno, SortedSearch.drop_findIdx_eq_filter (pairwise_lt_seqno hs x)] at hp
  simpa using (List.mem_filter.mp hp).2

/-- a pair before `FindGreaterSeqno(x)` is not past `x` -/
theorem seqno_le_of_lt_findGreaterSeqno (hs : m.pairs.Pairwise fun a b => a.seqno < b.seqno) {x i : ℕ}
    (hi : i < m.pairs.length) (h : i < m.findGreaterSeqno x) : m.pairs[i].seqno ≤ x := by
  have := (SortedSearch.lt_findIdx_iff (pairwise_lt_seqno hs x) hi).mp h
  simpa using this

theorem findGreaterSeqno_le_length (x : ℕ) : m.findGreaterSeqno x ≤ m.pairs.length := List.findIdx_le_length

theorem findGreaterSeqno_mono {x y : ℕ} (hxy : x ≤ y) : m.findGreaterSeqno x ≤ m.findGreaterSeqno y :=
  List.findIdx_le_findIdx fun _ _ hp => decide_eq_true (lt_of_le_of_lt hxy (of_decide_eq_true hp))

/-- the cut-off loop stops at `end_it` at the latest -/
theorem advanceWhile_cutOff_le (pairs : List SeqnoTimePair) (endIt cutOffTime : ℕ) {startIt : ℕ}
    (h : startIt ≤ endIt) :
    SortedSearch.advanceWhile
      (fun i => decide (i < endIt) && pairs[i]?.any fun p => decide (p.time < cutOffTime)) pairs.length startIt ≤
      endIt := by
  -- the loop would have passed `end_it`, where its test fails
  obtain ⟨hle, -, hall, -⟩ := SortedSearch.advanceWhile_spec
    (fun i => decide (i < endIt) && pairs[i]?.any fun p => decide (p.time < cutOffTime)) pairs.length startIt
  by_contra hgt
  have := hall endIt (by omega) (by omega)
  simp at this

/-- stepping an iterator back unless it is at the start is subtracting one -/
theorem ite_ne_zero_sub_one (i : ℕ) : (if i ≠ 0 then i - 1 else i) = i - 1 := by
  split_ifs <;> omega

/-- where `Encode` writes: its iterators are in order, `end_it` is `FindGreaterSeqno(end)`, and with no cut-off
`start_it` is at the start or before the first pair past `start` -/
theorem encodeRange_eq_some {start endSeqno now startIt endIt : ℕ}
    (h : m.encodeRange start endSeqno now = some (startIt, endIt)) :
    startIt < endIt ∧ endIt = m.findGreaterSeqno endSeqno ∧
      (m.maxTimeDuration = 0 → startIt = 0 ∨ startIt < m.findGreaterSeqno start) := by
  dsimp only [encodeRange] at h
  simp only [ite_ne_zero_sub_one] at h
  split_ifs at h with hse hend hge hmtd hnow <;> simp only [Option.some.injEq, Prod.mk.injEq] at h
  all_goals obtain ⟨rfl, rfl⟩ := h
  · -- the cut-off moved `start_it`, no further than `end_it`
    have hcut := advanceWhile_cutOff_le m.pairs (m.findGreaterSeqno endSeqno) (now - m.maxTimeDuration)
      (Nat.le_of_lt (Nat.lt_of_not_le hge))
    exact ⟨by omega, rfl, fun h0 => absurd h0 (by omega)⟩
  · have hcut := advanceWhile_cutOff_le m.pairs (m.findGreaterSeqno endSeqno) 0 (Nat.le_of_lt (Nat.lt_of_not_le hge))
    exact ⟨by omega, rfl, fun h0 => absurd h0 (by omega)⟩
  · exact ⟨by omega, rfl, fun _ => by omega⟩

/-- `Encode` writes nothing for `start ≤ end` only when no pair is at most `end` -/
theorem encodeRange_eq_none {start endSeqno now : ℕ} (hse : start ≤ endSeqno)
    (h : m.encodeRange start endSeqno now = none) : m.findGreaterSeqno endSeqno = 0 := by
  have hmono := findGreaterSeqno_mono (m := m) hse
  dsimp only [encodeRange] at h
  simp only [ite_ne_zero_sub_one] at h
  split_ifs at h with hse' hend hge <;> simp only at h
  · omega
  · exact hend
  · -- `start_it` is one back from a point not past `end_it`
    omega

/-- a sequence number up to `end + 1` is reached no later than `FindGreaterSeqno(end)` -/
theorem findGreaterEqSeqno_le {s x : ℕ} (h : s ≤ x + 1) : m.findGreaterEqSeqno s ≤ m.findGreaterSeqno x :=
  List.findIdx_le_findIdx fun _ _ hp => decide_eq_true (by have := of_decide_eq_true hp; omega)

/-- on pairs sorted by sequence number, `GetProximalTimeBeforeSeqno(s)` is the time of the last pair before `s` -/
theorem getProximalTimeBeforeSeqno_eq (m : SeqnoToTimeMapping) (hs : m.pairs.Pairwise fun a b => a.seqno < b.seqno)
    (s : ℕ) : m.getProximalTimeBeforeSeqno s =
      (((m.pairs.filter fun p => decide (p.seqno < s)).getLast?).map SeqnoTimePair.time).getD 0 := by
  have hpart : m.pairs.Pairwise fun a b => decide (s ≤ a.seqno) = true → decide (s ≤ b.seqno) = true :=
    hs.imp fun hab h => decide_eq_true ((of_decide_eq_true h).trans hab.le)
  have hfilter : (m.pairs.filter fun p => !decide (s ≤ p.seqno)) = m.pairs.filter fun p => decide (p.seqno < s) :=
    List.filter_congr fun p _ => by simp only [← decide_not, not_le]
  have hle : m.findGreaterEqSeqno s ≤ m.pairs.length := List.findIdx_le_length
  rw [← hfilter, ← SortedSearch.take_findIdx_eq_filter hpart, List.getLast?_take, getProximalTimeBeforeSeqno]
  rw [← findGreaterEqSeqno]
  split_ifs with h0
  · rfl
  · rw [List.getElem?_eq_getElem (by omega), Option.some_or]
    rfl

/-- the last pair of the window before `s` is the last pair of the mapping before `s`, for `s` past `start` and at
most `end + 1`, when the window starts at the start or before the first pair past `start` -/
theorem getLast?_filter_window (hs : m.pairs.Pairwise fun a b => a.seqno < b.seqno) {a e start endSeqno s : ℕ}
    (hae : a < e) (he : e = m.findGreaterSeqno endSeqno) (ha : a = 0 ∨ a < m.findGreaterSeqno start)
    (hs1 : start < s) (hs2 : s ≤ endSeqno + 1) :
    (((m.pairs.drop a).take (e - a)).filter fun p => decide (p.seqno < s)).getLast? =
      (m.pairs.filter fun p => decide (p.seqno < s)).getLast? := by
  have hel : e ≤ m.pairs.length := he ▸ findGreaterSeqno_le_length endSeqno
  -- the pairs from `end_it` on are past `end`, so none is before `s`
  have hdrop : (m.pairs.drop e).filter (fun p => decide (p.seqno < s)) = [] := by
    refine List.filter_eq_nil_iff.mpr fun p hp hlt => ?_
    have := lt_seqno_of_mem_drop hs (he ▸ hp)
    have := of_decide_eq_true hlt
    omega
  have hsplit : m.pairs = (m.pairs.take e).take a ++ (m.pairs.drop a).take (e - a) ++ m.pairs.drop e := by
    rw [List.drop_take.symm, List.take_append_drop, List.take_append_drop]
  conv_rhs => rw [hsplit]
  rw [List.filter_append, List.filter_append, hdrop, List.append_nil, List.getLast?_append]
  rcases ha with rfl | ha
  · simp
  · -- the window starts with a pair not past `start`, so before `s`
    have hal : a < m.pairs.length := by omega
    have hmem : m.pairs[a] ∈ (m.pairs.drop a).take (e - a) := by
      rw [List.drop_eq_getElem_cons hal, show e - a = (e - a - 1) + 1 by omega, List.take_succ_cons]
      exact List.mem_cons_self
    have hlt : m.pairs[a].seqno < s := by
      have := seqno_le_of_lt_findGreaterSeqno hs hal ha
      omega
    have hne : (((m.pairs.drop a).take (e - a)).filter fun p => decide (p.seqno < s)) ≠ [] :=
      List.ne_nil_of_mem (List.mem_filter.mpr ⟨hmem, decide_eq_true hlt⟩)
    obtain ⟨y, hy⟩ := Option.isSome_iff_exists.mp (List.getLast?_isSome.mpr hne)
    rw [hy, Option.some_or]

end window

/-! ## What `Encode` writes -/

section output

variable {m : SeqnoToTimeMapping}

/-- `static_cast<int64_t>` of a `uint64_t`: the value below `2 ^ 63`, negative from there on -/
theorem toInt64_toInt (v : UInt64) :
    v.toInt64.toInt = if v.toNat < 2 ^ 63 then (v.toNat : ℤ) else v.toNat - 2 ^ 64 := by
  have hv := v.toNat_lt
  rw [Int64.toInt, UInt64.toInt64, BitVec.toInt_eq_toNat_cond]
  simp only [Int64.toBitVec, UInt64.toNat_toBitVec]
  split_ifs <;> omega

/-- the pairs `Encode` writes from `[start_it, end_it)`: all of them when they fit `output_size`, all of them when
`output_size` is at most 1 or is negative as an `int64_t`, and otherwise those the greedy loop picks -/
theorem encodeOutput_cases (outputSize : UInt64) (startIt endIt : ℕ) :
    let window := (m.pairs.drop startIt).take (endIt - startIt)
    (m.encodeOutput outputSize startIt endIt = window ∧ window.length ≤ outputSize.toNat) ∨
      (m.encodeOutput outputSize startIt endIt = window ∧ (outputSize.toNat ≤ 1 ∨ 2 ^ 63 ≤ outputSize.toNat)) ∨
      (2 ≤ outputSize.toNat ∧ outputSize.toNat < 2 ^ 63 ∧ outputSize.toNat < window.length ∧
        m.encodeOutput outputSize startIt endIt =
          pickLoop ((m.pairs[endIt - 1]?.map SeqnoTimePair.time).getD 0) window outputSize.toNat 0) := by
  intro window
  rw [encodeOutput, toInt64_toInt]
  by_cases h63 : outputSize.toNat < 2 ^ 63
  · rw [if_pos h63]
    by_cases hsub : (window.length : ℤ) > outputSize.toNat
    · rw [if_pos hsub]
      by_cases h1 : outputSize.toNat ≤ 1
      · -- one pair to fill: the bound is never set
        exact .inr (.inl ⟨pickLoop_of_skip_zero _ _ (by omega), .inl h1⟩)
      · exact .inr (.inr ⟨by omega, h63, by omega, rfl⟩)
    · rw [if_neg hsub]
      exact .inl ⟨rfl, by omega⟩
  · -- `output_size` is negative as an `int64_t`: the loop runs with nothing to fill and no bound
    rw [if_neg h63]
    have hv := outputSize.toNat_lt
    rw [if_pos (by omega), pickLoop_of_skip_zero _ _ (by omega)]
    exact .inr (.inl ⟨rfl, .inr (by omega)⟩)

variable (m) in
/-- what `Add(pairs_str)` reads back from the output of `Encode(dest, start, end, now, output_size)` into `decoded`:
a status OK and pairs of `m` in their order, at most `output_size` of them when it is at least 2, the last pair not
past `end` among them, and, with no cut-off and pairs that fit `output_size`, the same answers of
`GetProximalTimeBeforeSeqno` from `start + 1` to `end + 1` -/
structure EncodeSample (start endSeqno now : ℕ) (outputSize : UInt64) (decoded : Status × SeqnoToTimeMapping) :
    Prop where
  ok : decoded.1 = .ok
  sublist : decoded.2.pairs.Sublist m.pairs
  length_le : 2 ≤ outputSize.toNat → decoded.2.pairs.length ≤ outputSize.toNat
  last_mem : ∀ p ∈ (m.pairs.filter fun p => decide (p.seqno ≤ endSeqno)).getLast?, p ∈ decoded.2.pairs
  proximal : m.maxTimeDuration = 0 → (m.encodeWindow start endSeqno now).length ≤ outputSize.toNat →
    ∀ s, start < s → s ≤ endSeqno + 1 → decoded.2.getProximalTimeBeforeSeqno s = m.getProximalTimeBeforeSeqno s

/-- the pairs up to an index past none, the last of them the pair before it -/
theorem getLast?_take_of_pos (l : List SeqnoTimePair) {e : ℕ} (he : 0 < e) (hel : e ≤ l.length) :
    (l.take e).getLast? = l[e - 1]? := by
  rw [List.getLast?_take, if_neg (by omega), List.getElem?_eq_getElem (by omega), Option.some_or]

/-- what `Encode` writes when it writes anything: pairs of `m` in their order, at most `output_size` of them when it
is at least 2, the last pair not past `end` among them, and all the pairs between the iterators when they fit -/
theorem encodeOutput_sample (hinc : StrictlyIncreasing m.pairs) (hfits : ∀ p ∈ m.pairs, Fits p)
    (hlen : m.pairs.length < 2 ^ 63) {start endSeqno now a e : ℕ}
    (hr : m.encodeRange start endSeqno now = some (a, e)) (outputSize : UInt64) :
    (m.encodeOutput outputSize a e).Sublist m.pairs ∧
      (2 ≤ outputSize.toNat → (m.encodeOutput outputSize a e).length ≤ outputSize.toNat) ∧
      (∀ p ∈ (m.pairs.filter fun p => decide (p.seqno ≤ endSeqno)).getLast?, p ∈ m.encodeOutput outputSize a e) ∧
      (((m.pairs.drop a).take (e - a)).length ≤ outputSize.toNat →
        m.encodeOutput outputSize a e = (m.pairs.drop a).take (e - a)) := by
  obtain ⟨hae, he, -⟩ := encodeRange_eq_some hr
  have hs : m.pairs.Pairwise fun a b => a.seqno < b.seqno := hinc.imp (·.1)
  have hel : e ≤ m.pairs.length := he ▸ findGreaterSeqno_le_length endSeqno
  have hWsub : ((m.pairs.drop a).take (e - a)).Sublist m.pairs := (List.take_sublist _ _).trans (List.drop_sublist _ _)
  have hWlen := hWsub.length_le
  -- the window ends with the pair before `end_it`, the last pair not past `end`
  have hWlast : ((m.pairs.drop a).take (e - a)).getLast? = m.pairs[e - 1]? := by
    rw [← List.drop_take, List.getLast?_drop, if_neg (by simp only [List.length_take]; omega),
      getLast?_take_of_pos _ (by omega) hel]
  have hlast : (m.pairs.filter fun p => decide (p.seqno ≤ endSeqno)).getLast? = m.pairs[e - 1]? := by
    rw [← take_findGreaterSeqno hs, ← he, getLast?_take_of_pos _ (by omega) hel]
  rcases encodeOutput_cases (m := m) outputSize a e with ⟨hO, hfit⟩ | ⟨hO, hsmall⟩ | ⟨h2, h63, hgt, hO⟩
  · rw [hO, hlast, ← hWlast]
    exact ⟨hWsub, fun _ => hfit, fun p hp => List.mem_of_getLast? hp, fun _ => rfl⟩
  · rw [hO, hlast, ← hWlast]
    exact ⟨hWsub, fun h2 => by omega, fun p hp => List.mem_of_getLast? hp, fun _ => rfl⟩
  · -- the greedy loop, from `output_size` at least 2 to fill
    have hpl : PickList ((m.pairs[e - 1]?.map SeqnoTimePair.time).getD 0) ((m.pairs.drop a).take (e - a)) := by
      refine ⟨(hinc.imp (·.2)).sublist hWsub, fun p hp => ?_, ?_⟩
      · rw [hWlast] at hp
        rw [hp]
        rfl
      · rw [List.getElem?_eq_getElem (by omega)]
        exact (hfits _ (List.getElem_mem _)).2
    have hpi : PickInv ((m.pairs[e - 1]?.map SeqnoTimePair.time).getD 0) ((m.pairs.drop a).take (e - a))
        outputSize.toNat 0 := ⟨by omega, by omega, fun h1 => absurd h1 (by omega)⟩
    obtain ⟨hlenO, hmemO⟩ := pickLoop_length_mem _ _ _ hpl hpi
    rw [hO, hlast]
    exact ⟨(pickLoop_sublist _ _ _ _).trans hWsub, fun _ => by omega, fun p hp => hmemO p (by rwa [hWlast]),
      fun hfit => absurd hgt (by omega)⟩

end output

/-- `Encode` is a sample of the mapping that `Add(pairs_str)` reads back: for pairs strictly increasing in sequence
number and in time, of `uint64_t` values and fewer than `2 ^ 63`, and `start ≤ end` -/
theorem encode_sample (m : SeqnoToTimeMapping) (hinc : StrictlyIncreasing m.pairs) (hfits : ∀ p ∈ m.pairs, Fits p)
    (hlen : m.pairs.length < 2 ^ 63) (start endSeqno now : ℕ) (hse : start ≤ endSeqno) (outputSize : UInt64)
    (maxTimeDuration maxCapacity : ℕ) :
    EncodeSample m start endSeqno now outputSize
      ((create maxTimeDuration maxCapacity).addEncoded (m.encode start endSeqno now outputSize)) := by
  have hs : m.pairs.Pairwise fun a b => a.seqno < b.seqno := hinc.imp (·.1)
  rcases hr : m.encodeRange start endSeqno now with _ | ⟨a, e⟩
  · -- nothing is written: no pair is at most `end`
    have he := encodeRange_eq_none hse hr
    have hnil : m.pairs.filter (fun p => decide (p.seqno ≤ endSeqno)) = [] := by
      rw [← take_findGreaterSeqno hs, he, List.take_zero]
    rw [encode, hr]
    refine ⟨rfl, List.nil_sublist _, fun _ => Nat.zero_le _, by simp [hnil], fun _ _ s _ hs2 => ?_⟩
    have h0 : m.findGreaterEqSeqno s = 0 := Nat.eq_zero_of_le_zero (he ▸ findGreaterEqSeqno_le hs2)
    have hm : m.getProximalTimeBeforeSeqno s = kUnknownTimeBeforeAll := by
      simp only [getProximalTimeBeforeSeqno, h0, ↓reduceIte]
    rw [hm]
    simp [addEncoded, create, getProximalTimeBeforeSeqno, findGreaterEqSeqno]
  · obtain ⟨hae, he, hmtd⟩ := encodeRange_eq_some hr
    obtain ⟨hsub, hlenle, hlast, hwin⟩ := encodeOutput_sample hinc hfits hlen hr outputSize
    have hOlen : (m.encodeOutput outputSize a e).length < 2 ^ 64 := by
      have := hsub.length_le
      omega
    rw [encode, hr]
    dsimp only
    rw [addEncoded_encode _ _ (fun p hp => hfits p (hsub.subset hp)) hOlen]
    refine ⟨rfl, hsub, hlenle, hlast, fun h0 hfit s hs1 hs2 => ?_⟩
    -- no cut-off and pairs that fit: the pairs written are the window
    rw [encodeWindow, hr] at hfit
    have hO := hwin hfit
    have hOs : (m.encodeOutput outputSize a e).Pairwise fun a b => a.seqno < b.seqno := hs.sublist hsub
    rw [getProximalTimeBeforeSeqno_eq m hs, getProximalTimeBeforeSeqno_eq _ (by simpa [create] using hOs)]
    simp only [create, List.nil_append, hO]
    rw [getLast?_filter_window hs hae he (hmtd h0) hs1 hs2]
/-- the mapping of the example in the comment of `Encode` -/
def encodeCommentMapping : SeqnoToTimeMapping := ⟨0, 0, [⟨1, 10⟩, ⟨5, 17⟩, ⟨6, 25⟩, ⟨8, 30⟩], true⟩

theorem encode_sample_comment :
    StrictlyIncreasing encodeCommentMapping.pairs ∧ (∀ p ∈ encodeCommentMapping.pairs, Fits p) ∧
      encodeCommentMapping.pairs.length < 2 ^ 63 ∧ 1 ≤ 8 ∧
      EncodeSample encodeCommentMapping 1 8 0 3 ((create 0 0).addEncoded (encodeCommentMapping.encode 1 8 0 3)) :=
  have hinc : StrictlyIncreasing encodeCommentMapping.pairs := by unfold StrictlyIncreasing; decide
  ⟨hinc, by decide, by decide, by decide, encode_sample _ hinc (by decide) (by decide) 1 8 0 (by decide) 3 0 0⟩

/-- the comment's three picks: the first pair, then the first at least half way in time to the last, then the last -/
example : ((create 0 0).addEncoded (encodeCommentMapping.encode 1 8 0 3)).2.pairs = [⟨1, 10⟩, ⟨6, 25⟩, ⟨8, 30⟩] := by
  rw [encode, show encodeCommentMapping.encodeRange 1 8 0 = some (0, 4) by decide]
  dsimp only
  rw [addEncoded_encode _ _ (by decide) (by decide)]
  decide

/-- two pairs, a second apart -/
def twoPairs : SeqnoToTimeMapping := ⟨0, 0, [⟨1, 10⟩, ⟨2, 20⟩], true⟩

/-- with `output_size = 1` and two pairs to pick from, both are written: after the first pick none is left to fill,
so the bound stays at 0 and the second pair is not skipped -/
theorem encode_outputSize_one_exceeds :
    ((create 0 0).addEncoded (twoPairs.encode 1 2 0 1)).2.pairs = [⟨1, 10⟩, ⟨2, 20⟩] := by
  rw [encode, show twoPairs.encodeRange 1 2 0 = some (0, 2) by decide]
  dsimp only
  rw [addEncoded_encode _ _ (by decide) (by decide)]
  decide

end SeqnoToTimeMapping

end ForSt
