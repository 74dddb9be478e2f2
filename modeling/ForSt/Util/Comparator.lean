import Mathlib.Data.List.GetD
import ForSt.Lib.ListCompare
/-!
The built-in comparators of `util/comparator.cc`: `BytewiseComparatorImpl` and `ReverseBytewiseComparatorImpl`,
with the key shortening an index builder asks of them.

`Slice::compare` (`memcmp` over the common length, then the shorter first) is core's lexicographic `compare` on the
byte list (`sliceCompare`); the reverse comparator negates it. `FindShortestSeparator(start, limit)` edits `start` at
the first byte where it differs from `limit`; whenever `start` is below `limit` in the comparator's order, so is what
it returns (`BuiltinComparator.findShortestSeparator_lt`), and it leaves a `start` equal to `limit` unchanged.
-/

namespace ForSt

open ForSt.ListCompare

/-- `Slice::compare` -/
def sliceCompare (a b : List UInt8) : Ordering := compare a b

/-- the loop that increments the first byte below `0xff` and cuts the string after it (`FindShortSuccessor`'s
`byte != 0xff` is the same test on a byte); `none` when every byte is `0xff` -/
def incrementFirstBelowFF : List UInt8 → Option (List UInt8)
  | [] => none
  | b :: rest => if b < 0xff then some [b + 1] else (incrementFirstBelowFF rest).map (b :: ·)

/-- `BytewiseComparatorImpl::FindShortestSeparator` -/
def bytewiseFindShortestSeparator (start limit : List UInt8) : List UInt8 :=
  let minLength := min start.length limit.length
  let diffIndex := diffIndex start limit
  -- one string is a prefix of the other: no shortening
  if diffIndex ≥ minLength then start
  else
    let startByte := start.getD diffIndex 0
    let limitByte := limit.getD diffIndex 0
    if startByte ≥ limitByte then start
    else if diffIndex < limit.length - 1 ∨ startByte.toNat + 1 < limitByte.toNat then
      start.take diffIndex ++ [startByte + 1]
    else
      -- incrementing the byte would reach the limit: the first byte after it below 0xff is incremented instead
      match incrementFirstBelowFF (start.drop (diffIndex + 1)) with
      | some rest => start.take (diffIndex + 1) ++ rest
      | none => start

/-- `BytewiseComparatorImpl::FindShortSuccessor` -/
def bytewiseFindShortSuccessor (key : List UInt8) : List UInt8 := (incrementFirstBelowFF key).getD key

/-- `ReverseBytewiseComparatorImpl::FindShortestSeparator`: only the case where `start` goes on past a larger byte
is shortened -/
def reverseBytewiseFindShortestSeparator (start limit : List UInt8) : List UInt8 :=
  let minLength := min start.length limit.length
  let diffIndex := diffIndex start limit
  if diffIndex = minLength then start
  else
    let startByte := start.getD diffIndex 0
    let limitByte := limit.getD diffIndex 0
    if startByte > limitByte ∧ diffIndex < start.length - 1 then start.take (diffIndex + 1) else start

/-- the two built-in comparators -/
inductive BuiltinComparator where
  | bytewise
  | reverseBytewise
deriving DecidableEq, Repr

/-- `Comparator::Compare`; the reverse comparator is `-a.compare(b)` -/
def BuiltinComparator.compare : BuiltinComparator → List UInt8 → List UInt8 → Ordering
  | .bytewise, a, b => sliceCompare a b
  | .reverseBytewise, a, b => (sliceCompare a b).swap

def BuiltinComparator.findShortestSeparator : BuiltinComparator → List UInt8 → List UInt8 → List UInt8
  | .bytewise, start, limit => bytewiseFindShortestSeparator start limit
  | .reverseBytewise, start, limit => reverseBytewiseFindShortestSeparator start limit

/-- `FindShortSuccessor`; the reverse comparator leaves the key alone -/
def BuiltinComparator.findShortSuccessor : BuiltinComparator → List UInt8 → List UInt8
  | .bytewise, key => bytewiseFindShortSuccessor key
  | .reverseBytewise, key => key

/-! ## The orders -/

theorem BuiltinComparator.compare_reverseBytewise (a b : List UInt8) :
    BuiltinComparator.reverseBytewise.compare a b = sliceCompare b a := by
  rw [BuiltinComparator.compare, sliceCompare, sliceCompare]
  exact Std.OrientedCmp.eq_swap.symm

instance BuiltinComparator.instTransCmp (c : BuiltinComparator) : Std.TransCmp c.compare := by
  cases c with
  | bytewise => exact inferInstanceAs (Std.TransCmp (Ord.compare : List UInt8 → List UInt8 → Ordering))
  | reverseBytewise =>
    have h : BuiltinComparator.reverseBytewise.compare = fun a b => Ord.compare b a :=
      funext fun a => funext fun b => BuiltinComparator.compare_reverseBytewise a b
    rw [h]
    exact Std.TransCmp.opposite

theorem BuiltinComparator.eq_of_compare_eq {c : BuiltinComparator} {a b : List UInt8} (h : c.compare a b = .eq) :
    a = b := by
  cases c with
  | bytewise => exact Std.compare_eq_iff_eq.mp h
  | reverseBytewise =>
    rw [BuiltinComparator.compare_reverseBytewise] at h
    exact (Std.compare_eq_iff_eq.mp h).symm

/-! ## The separators stay below the limit -/

section separator

variable {start limit : List UInt8}

/-- a byte below another can be incremented without wrapping -/
theorem toNat_add_one_of_lt {a b : UInt8} (h : a < b) : (a + 1).toNat = a.toNat + 1 := by
  have hb := UInt8.toNat_lt b
  rw [UInt8.lt_iff_toNat_lt] at h
  rw [UInt8.toNat_add, UInt8.toNat_one]
  omega

/-- `start` and `limit` split at their first difference, inside both -/
theorem split_at_diffIndex {d : ℕ} (hd : diffIndex start limit = d) (hs : d < start.length) (hl : d < limit.length) :
    start = start.take d ++ start[d] :: start.drop (d + 1) ∧ limit = start.take d ++ limit[d] :: limit.drop (d + 1) := by
  have htake : start.take d = limit.take d := hd ▸ take_diffIndex start limit
  have hlimit := eq_take_append_getElem_cons limit hl
  rw [← htake] at hlimit
  exact ⟨eq_take_append_getElem_cons start hs, hlimit⟩

theorem bytewiseFindShortestSeparator_lt (h : sliceCompare start limit = .lt) :
    sliceCompare (bytewiseFindShortestSeparator start limit) limit = .lt := by
  simp only [bytewiseFindShortestSeparator]
  obtain ⟨d, hd⟩ : ∃ d, diffIndex start limit = d := ⟨_, rfl⟩
  rw [hd]
  split_ifs with hmin hge hinc
  · exact h
  · exact h
  · -- the byte at the first difference, incremented, then nothing
    have hs : d < start.length := by omega
    have hl : d < limit.length := by omega
    obtain ⟨-, hlimit⟩ := split_at_diffIndex hd hs hl
    rw [List.getD_eq_getElem _ _ hs] at hge hinc ⊢
    rw [List.getD_eq_getElem _ _ hl] at hge hinc
    have hlt : start[d] < limit[d] := UInt8.not_le.mp hge
    rw [hlimit]
    rcases hinc with hmore | hgap
    · -- the limit goes on after its byte: the cut string is a proper prefix of it, or below it at that byte
      have hnext : d + 1 < limit.length := by omega
      rw [List.drop_eq_getElem_cons hnext, sliceCompare, compare_append_left, List.compare_cons_cons]
      cases hc : compare (start[d] + 1) limit[d] with
      | lt => rfl
      | eq => rw [Ordering.eq_then, List.compare_nil_cons]
      | gt =>
        rw [Std.compare_eq_gt, UInt8.lt_iff_toNat_lt, toNat_add_one_of_lt hlt] at hc
        rw [UInt8.lt_iff_toNat_lt] at hlt
        omega
    · -- the incremented byte is still below the limit's
      apply compare_prefix_cons_of_lt
      rw [Std.compare_eq_lt, UInt8.lt_iff_toNat_lt, toNat_add_one_of_lt hlt]
      exact hgap
  · -- the first byte below 0xff after the difference is incremented; the difference itself is kept
    have hs : d < start.length := by omega
    have hl : d < limit.length := by omega
    obtain ⟨-, hlimit⟩ := split_at_diffIndex hd hs hl
    rw [List.getD_eq_getElem _ _ hs, List.getD_eq_getElem _ _ hl] at hge
    have hlt : compare start[d] limit[d] = .lt := Std.compare_eq_lt.mpr (UInt8.not_le.mp hge)
    split
    · rw [List.take_add_one, List.getElem?_eq_getElem hs, Option.toList_some, List.append_assoc,
        List.singleton_append, hlimit, sliceCompare]
      exact compare_prefix_cons_of_lt _ _ _ hlt
    · exact h

theorem bytewiseFindShortestSeparator_self (start : List UInt8) : bytewiseFindShortestSeparator start start = start := by
  have hge : min start.length start.length ≤ diffIndex start start := by
    rw [Nat.min_self]
    -- a list agrees with itself everywhere, so the first difference is its length
    by_contra hlt
    exact getElem_diffIndex_ne start start (by omega) (by omega) rfl
  simp only [bytewiseFindShortestSeparator, if_pos hge]

theorem reverseBytewiseFindShortestSeparator_gt (h : sliceCompare limit start = .lt) :
    sliceCompare limit (reverseBytewiseFindShortestSeparator start limit) = .lt := by
  simp only [reverseBytewiseFindShortestSeparator]
  obtain ⟨d, hd⟩ : ∃ d, diffIndex start limit = d := ⟨_, rfl⟩
  rw [hd]
  split_ifs with hmin hcut
  · exact h
  · -- `start` cut after its byte at the first difference, which is above the limit's
    have hs : d < start.length := by
      have := diffIndex_le_length_left start limit
      omega
    have hl : d < limit.length := by
      have := diffIndex_le_length_right start limit
      omega
    obtain ⟨-, hlimit⟩ := split_at_diffIndex hd hs hl
    obtain ⟨hgt, -⟩ := hcut
    rw [List.getD_eq_getElem _ _ hs, List.getD_eq_getElem _ _ hl] at hgt
    rw [List.take_add_one, List.getElem?_eq_getElem hs, Option.toList_some, hlimit, sliceCompare]
    exact compare_prefix_cons_of_lt _ _ [] (Std.compare_eq_lt.mpr hgt)
  · exact h

theorem reverseBytewiseFindShortestSeparator_self (start : List UInt8) :
    reverseBytewiseFindShortestSeparator start start = start := by
  simp only [reverseBytewiseFindShortestSeparator]
  split_ifs with hmin hcut
  · rfl
  · -- the first difference of a list with itself is never inside it
    have hs : diffIndex start start < start.length := by
      have := diffIndex_le_length_left start start
      omega
    exact absurd rfl (getElem_diffIndex_ne start start hs hs)
  · rfl

/-- a separator of a `start` below `limit` stays below `limit`, in either order -/
theorem BuiltinComparator.findShortestSeparator_lt {c : BuiltinComparator} (h : c.compare start limit = .lt) :
    c.compare (c.findShortestSeparator start limit) limit = .lt := by
  cases c with
  | bytewise => exact bytewiseFindShortestSeparator_lt h
  | reverseBytewise =>
    rw [BuiltinComparator.compare_reverseBytewise] at h ⊢
    exact reverseBytewiseFindShortestSeparator_gt h

theorem BuiltinComparator.findShortestSeparator_self (c : BuiltinComparator) (start : List UInt8) :
    c.findShortestSeparator start start = start := by
  cases c with
  | bytewise => exact bytewiseFindShortestSeparator_self start
  | reverseBytewise => exact reverseBytewiseFindShortestSeparator_self start

end separator

end ForSt
