import Mathlib.Order.Basic
import Mathlib.Data.List.Pairwise
import Mathlib.Data.List.MinMax
/-!
Searching sorted lists by their first element past a bound, as a seek does.

On a sorted list the first element not below `a` is at most `b` exactly when some element lies in `[a, b]`
(`find?_ge_any_iff`); on intervals in order, the first that does not end before `a` meets `[a, b]` exactly when some
interval does, also with a bound missing (`find?_meets_iff`). On a descending list the first element that passes a
test is the largest that does (`find?_eq_max?_filter`), and the largest element depends only on which elements there
are (`max?_congr`, `max?_eq_of_subset`). On an ascending list the elements before `std::lower_bound` are exactly those
below `a` (`getElem_lt_iff_lt_findIdx`). Where a test, once passed, stays passed, `std::upper_bound` splits the list
into the elements that fail and those that pass (`take_findIdx_eq_filter`, `drop_findIdx_eq_filter`,
`lt_findIdx_iff`). A loop that moves an index while a test holds stops at the first index where it fails, or when its
fuel runs out (`advanceWhile_spec`, `retreatWhile_spec`).
-/

namespace ForSt.SortedSearch

variable {α : Type} [LinearOrder α]

/-- on a sorted list, the first element not below `a` is at most every element not below `a` -/
theorem find?_ge_le {l : List α} (hs : l.Pairwise (· ≤ ·)) {a k : α} (hk : k ∈ l) (hak : a ≤ k) :
    ∃ k', l.find? (fun x => decide (a ≤ x)) = some k' ∧ k' ≤ k := by
  induction l with
  | nil => cases hk
  | cons x l ih =>
    rw [List.pairwise_cons] at hs
    by_cases hax : a ≤ x
    · refine ⟨x, List.find?_cons_of_pos (decide_eq_true hax), ?_⟩
      rcases List.mem_cons.mp hk with rfl | hk
      · exact le_refl _
      · exact hs.1 k hk
    · rw [List.find?_cons_of_neg (by simpa using hax)]
      rcases List.mem_cons.mp hk with rfl | hk
      · exact absurd hak hax
      · exact ih hs.2 hk

/-- a seek to `a` on a sorted list lands on an element at most `b` exactly when some element lies in `[a, b]` -/
theorem find?_ge_any_iff {l : List α} (hs : l.Pairwise (· ≤ ·)) (a b : α) :
    ((l.find? (fun x => decide (a ≤ x))).any (fun k => decide (k ≤ b))) = true ↔ ∃ k ∈ l, a ≤ k ∧ k ≤ b := by
  constructor
  · intro h
    cases hfind : l.find? (fun x => decide (a ≤ x)) with
    | none =>
      rw [hfind] at h
      cases h
    | some k =>
      rw [hfind, Option.any_some] at h
      have hak : decide (a ≤ k) = true := List.find?_some (p := fun x => decide (a ≤ x)) hfind
      exact ⟨k, List.mem_of_find?_eq_some hfind, of_decide_eq_true hak, of_decide_eq_true h⟩
  · rintro ⟨k, hk, hak, hkb⟩
    obtain ⟨k', hfind, hle⟩ := find?_ge_le hs hk hak
    rw [hfind, Option.any_some]
    exact decide_eq_true (le_trans hle hkb)

/-- the first element of a descending list is its largest -/
theorem head?_eq_max?_of_pairwise_ge {l : List α} (hs : l.Pairwise (· ≥ ·)) : l.head? = l.max? := by
  cases l with
  | nil => rfl
  | cons x xs =>
    rw [List.head?_cons, eq_comm, List.max?_eq_some_iff]
    refine ⟨List.mem_cons_self .., fun b hb => ?_⟩
    rcases List.mem_cons.mp hb with rfl | hb
    · exact le_refl b
    · exact (List.pairwise_cons.mp hs).1 b hb

/-- a search of a descending list finds the largest element that passes -/
theorem find?_eq_max?_filter {l : List α} (hs : l.Pairwise (· ≥ ·)) (p : α → Bool) :
    l.find? p = (l.filter p).max? := by
  rw [← List.head?_filter, head?_eq_max?_of_pairwise_ge (hs.filter p)]

/-- the largest element of a list depends only on its elements -/
theorem max?_congr {l l' : List α} (h : ∀ x, x ∈ l ↔ x ∈ l') : l.max? = l'.max? := by
  cases hl : l.max? with
  | none =>
    rw [List.max?_eq_none_iff] at hl
    subst hl
    cases l' with
    | nil => rfl
    | cons y _ => exact absurd ((h y).mpr (List.mem_cons_self ..)) List.not_mem_nil
  | some a =>
    obtain ⟨ha, hle⟩ := List.max?_eq_some_iff.mp hl
    exact (List.max?_eq_some_iff.mpr ⟨(h a).mp ha, fun b hb => hle b ((h b).mpr hb)⟩).symm

/-- a list whose elements are among those of `l`, and that keeps the largest of them, has the same largest element -/
theorem max?_eq_of_subset {l l' : List α} (hsub : ∀ x ∈ l', x ∈ l) (hmax : ∀ m, l.max? = some m → m ∈ l') :
    l'.max? = l.max? := by
  cases hl : l.max? with
  | none =>
    rw [List.max?_eq_none_iff] at hl ⊢
    subst hl
    exact List.eq_nil_iff_forall_not_mem.mpr fun x hx => List.not_mem_nil (hsub x hx)
  | some m =>
    obtain ⟨-, hle⟩ := List.max?_eq_some_iff.mp hl
    exact List.max?_eq_some_iff.mpr ⟨hmax m hl, fun b hb => hle b (hsub b hb)⟩

/-- the largest element not below `a` is the largest element, when that is not below `a` -/
theorem max?_filter_le (l : List α) (a : α) :
    (l.filter fun x => decide (a ≤ x)).max? = l.max?.filter fun x => decide (a ≤ x) := by
  cases hl : l.max? with
  | none =>
    rw [List.max?_eq_none_iff] at hl
    subst hl
    rfl
  | some m =>
    obtain ⟨hm, hle⟩ := List.max?_eq_some_iff.mp hl
    by_cases ham : a ≤ m
    · rw [Option.filter_some, if_pos (decide_eq_true ham)]
      exact List.max?_eq_some_iff.mpr
        ⟨List.mem_filter.mpr ⟨hm, decide_eq_true ham⟩, fun b hb => hle b (List.mem_filter.mp hb).1⟩
    · -- every element is at most `m`, so below `a`
      rw [Option.filter_some, if_neg (by simpa using ham), List.max?_eq_none_iff, List.filter_eq_nil_iff]
      intro b hb hab
      exact ham (le_trans (of_decide_eq_true hab) (hle b hb))

/-- `std::lower_bound` on a sorted list, as the index of the first element not below `a`: the elements before it are
exactly those below `a` -/
theorem getElem_lt_iff_lt_findIdx {l : List α} (hs : l.Pairwise (· ≤ ·)) (a : α) {j : ℕ} (hj : j < l.length) :
    l[j] < a ↔ j < l.findIdx (fun x => decide (a ≤ x)) := by
  constructor
  · intro hlt
    refine List.lt_findIdx_of_not hj fun j' hj' => ?_
    -- every element up to the `j`-th is at most it, so below `a`
    have hle : l[j'] ≤ l[j] := by
      rcases Nat.lt_or_eq_of_le hj' with h | rfl
      · exact List.pairwise_iff_getElem.mp hs j' j _ hj h
      · exact le_refl _
    simpa using lt_of_le_of_lt hle hlt
  · intro hidx
    simpa using List.not_of_lt_findIdx hidx

section partitioned

variable {β : Type} {p : β → Bool}

/-- `std::upper_bound` on a list where the test, once passed, stays passed: the elements from the first that passes
on are those that pass -/
theorem drop_findIdx_eq_filter {l : List β} (h : l.Pairwise fun a b => p a = true → p b = true) :
    l.drop (l.findIdx p) = l.filter p := by
  induction l with
  | nil => rfl
  | cons x l ih =>
    rw [List.pairwise_cons] at h
    by_cases hx : p x = true
    · -- every later element passes too
      rw [List.findIdx_cons, hx, cond_true, List.drop_zero, List.filter_cons_of_pos hx,
        List.filter_eq_self.mpr fun y hy => h.1 y hy hx]
    · rw [List.findIdx_cons, Bool.eq_false_iff.mpr hx, cond_false, List.drop_succ_cons, ih h.2,
        List.filter_cons_of_neg hx]

/-- and the elements before it are those that fail -/
theorem take_findIdx_eq_filter {l : List β} (h : l.Pairwise fun a b => p a = true → p b = true) :
    l.take (l.findIdx p) = l.filter fun a => !p a := by
  induction l with
  | nil => rfl
  | cons x l ih =>
    rw [List.pairwise_cons] at h
    by_cases hx : p x = true
    · -- every later element passes too, so none fails
      rw [List.findIdx_cons, hx, cond_true, List.take_zero, List.filter_cons_of_neg (by simp [hx]), eq_comm,
        List.filter_eq_nil_iff]
      intro y hy
      simp [h.1 y hy hx]
    · rw [List.findIdx_cons, Bool.eq_false_iff.mpr hx, cond_false, List.take_succ_cons, ih h.2,
        List.filter_cons_of_pos (by simpa using hx)]

/-- the indices before the first element that passes are those of the elements that fail -/
theorem lt_findIdx_iff {l : List β} (h : l.Pairwise fun a b => p a = true → p b = true) {j : ℕ}
    (hj : j < l.length) : j < l.findIdx p ↔ p l[j] = false := by
  constructor
  · intro hlt
    simpa using List.not_of_lt_findIdx hlt
  · intro hj'
    refine List.lt_findIdx_of_not hj fun j' hj'' => ?_
    -- an element before the `j`-th that passed would make it pass
    rcases Nat.lt_or_eq_of_le hj'' with hlt | rfl
    · intro hp
      have := List.pairwise_iff_getElem.mp h j' j _ hj hlt hp
      simp [hj'] at this
    · simp [hj']

end partitioned

/-! ## Prefixes up to the first hit -/

section prefixes

variable {β : Type}

/-- an element satisfying `q` is at or past the first one that does -/
theorem mem_drop_findIdx {q : β → Bool} {x : β} (hq : q x = true) : ∀ {l : List β}, x ∈ l → x ∈ l.drop (l.findIdx q)
  | [], hx => absurd hx List.not_mem_nil
  | y :: ys, hx => by
    cases hy : q y with
    | true =>
      rw [List.findIdx_cons, hy, cond_true, List.drop_zero]
      exact hx
    | false =>
      rw [List.findIdx_cons, hy, cond_false, List.drop_succ_cons]
      rcases List.mem_cons.mp hx with rfl | hys
      · exact absurd (hq.symm.trans hy) Bool.noConfusion
      · exact mem_drop_findIdx hq hys

/-- an element whose predecessors under `R` all fail `p` is among the elements up to the first one satisfying `p` -/
theorem mem_take_findIdx_succ {R : β → β → Prop} {p : β → Bool} {x : β} :
    ∀ {l : List β}, l.Pairwise R → x ∈ l → (∀ y ∈ l, R y x → p y = false) → x ∈ l.take (l.findIdx p + 1)
  | [], _, hx, _ => absurd hx List.not_mem_nil
  | y :: ys, hl, hx, hbefore => by
    rcases List.mem_cons.mp hx with rfl | hys
    · rw [List.take_succ_cons]
      exact List.mem_cons_self ..
    · -- `y` comes before `x`, so it fails `p` and the first hit lies in `ys`
      have hy : p y = false := hbefore y (List.mem_cons_self ..) ((List.pairwise_cons.mp hl).1 x hys)
      rw [List.findIdx_cons, hy, cond_false, List.take_succ_cons]
      exact List.mem_cons_of_mem y (mem_take_findIdx_succ (List.pairwise_cons.mp hl).2 hys
        fun z hz => hbefore z (List.mem_cons_of_mem y hz))

end prefixes

section loops

/-- a loop that moves an index up while a test holds of it, for at most `fuel` steps -/
def advanceWhile (p : ℕ → Bool) : ℕ → ℕ → ℕ
  | 0, i => i
  | fuel + 1, i => if p i then advanceWhile p fuel (i + 1) else i

/-- a loop that moves an index down while a test holds of it, for at most `fuel` steps -/
def retreatWhile (p : ℕ → Bool) : ℕ → ℕ → ℕ
  | 0, i => i
  | fuel + 1, i => if p i then retreatWhile p fuel (i - 1) else i

/-- the loop up passes only indices where the test holds, and stops at one where it fails unless the fuel runs
out -/
theorem advanceWhile_spec (p : ℕ → Bool) (fuel i : ℕ) :
    i ≤ advanceWhile p fuel i ∧ advanceWhile p fuel i ≤ i + fuel ∧
      (∀ j, i ≤ j → j < advanceWhile p fuel i → p j = true) ∧
      (advanceWhile p fuel i < i + fuel → p (advanceWhile p fuel i) = false) := by
  induction fuel generalizing i with
  | zero =>
    rw [advanceWhile]
    exact ⟨le_rfl, le_rfl, fun j hij hj => absurd hj (by omega), fun h => absurd h (by omega)⟩
  | succ fuel ih =>
    by_cases hp : p i = true
    · -- the loop goes on from `i + 1`
      obtain ⟨hle, hbound, hall, hstop⟩ := ih (i + 1)
      rw [advanceWhile, if_pos hp]
      refine ⟨by omega, by omega, fun j hij hj => ?_, fun h => hstop (by omega)⟩
      rcases Nat.eq_or_lt_of_le hij with rfl | hij
      · exact hp
      · exact hall j hij hj
    · rw [advanceWhile, if_neg hp]
      exact ⟨le_rfl, by omega, fun j hij hj => absurd hj (by omega), fun _ => by simpa using hp⟩

/-- the loop down, with a test that fails at 0, passes only indices where the test holds, and stops at one where it
fails unless the fuel runs out -/
theorem retreatWhile_spec (p : ℕ → Bool) (hp0 : p 0 = false) (fuel i : ℕ) :
    retreatWhile p fuel i ≤ i ∧ i ≤ retreatWhile p fuel i + fuel ∧
      (∀ j, retreatWhile p fuel i < j → j ≤ i → p j = true) ∧
      (i < retreatWhile p fuel i + fuel → p (retreatWhile p fuel i) = false) := by
  induction fuel generalizing i with
  | zero =>
    rw [retreatWhile]
    exact ⟨le_rfl, le_rfl, fun j hj hji => absurd hji (by omega), fun h => absurd h (by omega)⟩
  | succ fuel ih =>
    by_cases hp : p i = true
    · -- the test fails at 0, so the loop goes on from `i - 1` above it
      have hi : 0 < i := Nat.pos_of_ne_zero fun h => by simp [h, hp0] at hp
      obtain ⟨hle, hbound, hall, hstop⟩ := ih (i - 1)
      rw [retreatWhile, if_pos hp]
      refine ⟨by omega, by omega, fun j hj hji => ?_, fun h => hstop (by omega)⟩
      rcases Nat.eq_or_lt_of_le hji with rfl | hji
      · exact hp
      · exact hall j hj (by omega)
    · rw [retreatWhile, if_neg hp]
      exact ⟨le_rfl, by omega, fun j hj hji => absurd hji (by omega), fun _ => by simpa using hp⟩

end loops

section intervals

variable {ι : Type} (lo hi : ι → α)

/-- in a list of intervals in order, each ending where the next may start, the first one that does not end before
`a` (the first one, with no `a`) meets the range from `a` to `b` exactly when some interval does; a missing bound is
no bound -/
theorem find?_meets_iff {l : List ι} (hlohi : ∀ i ∈ l, lo i ≤ hi i)
    (hs : l.Pairwise (fun i j => hi i ≤ lo j)) (a b : Option α) :
    ((l.find? (fun i => decide (∀ a' ∈ a, a' ≤ hi i))).any (fun i => decide (∀ b' ∈ b, lo i ≤ b'))) = true ↔
      ∃ i ∈ l, (∀ a' ∈ a, a' ≤ hi i) ∧ ∀ b' ∈ b, lo i ≤ b' := by
  induction l with
  | nil => simp
  | cons x l ih =>
    rw [List.pairwise_cons] at hs
    have hx := hlohi x (List.mem_cons_self ..)
    by_cases hax : ∀ a' ∈ a, a' ≤ hi x
    · -- the seek stops at `x`: a later interval meeting the range starts past `x`, so `x` starts before `b`
      rw [List.find?_cons_of_pos (p := fun i => decide (∀ a' ∈ a, a' ≤ hi i)) (decide_eq_true hax),
        Option.any_some, decide_eq_true_iff]
      constructor
      · intro hxb
        exact ⟨x, List.mem_cons_self .., hax, hxb⟩
      · rintro ⟨i, hi', -, hib⟩ b' hb'
        rcases List.mem_cons.mp hi' with rfl | hi'
        · exact hib b' hb'
        · exact le_trans (le_trans hx (hs.1 i hi')) (hib b' hb')
    · -- `x` ends before `a`: the seek goes past it, and it meets nothing
      rw [List.find?_cons_of_neg (p := fun i => decide (∀ a' ∈ a, a' ≤ hi i)) (by simpa using hax),
        ih (fun i hi' => hlohi i (List.mem_cons_of_mem x hi')) hs.2]
      constructor
      · rintro ⟨i, hi', hai, hib⟩
        exact ⟨i, List.mem_cons_of_mem x hi', hai, hib⟩
      · rintro ⟨i, hi', hai, hib⟩
        rcases List.mem_cons.mp hi' with rfl | hi'
        · exact absurd hai hax
        · exact ⟨i, hi', hai, hib⟩

/-- with both bounds -/
theorem find?_meets_any_iff {l : List ι} (hlohi : ∀ i ∈ l, lo i ≤ hi i)
    (hs : l.Pairwise (fun i j => hi i ≤ lo j)) (a b : α) :
    ((l.find? (fun i => decide (a ≤ hi i))).any (fun i => decide (lo i ≤ b))) = true ↔
      ∃ i ∈ l, a ≤ hi i ∧ lo i ≤ b := by
  simpa using find?_meets_iff lo hi hlohi hs (some a) (some b)

end intervals

end ForSt.SortedSearch
