import Mathlib.Order.MinMax
import Mathlib.Data.Set.Insert
/-!
Ranges of keys whose bounds may be missing, and the hull a scan widens such a range to.

An interval `[x, y]` meets a range when it neither ends before `b` nor starts after `e` (`Meets`). `MeetsHull` says what meeting the hull of the
range and the intervals taken is, `IsHull` that a pair of bounds is that hull (`isHull_empty`, `IsHull.insert`,
`IsHull.meets_iff`), and `HullClosed` that a set takes in every interval meeting its hull (`HullClosed.mem`).
-/

namespace ForSt.IntervalHull

variable {α ι : Type} [LinearOrder α]

/-- `[x, y]` meets the range from `b` to `e`: it does not end before `b` nor start after `e` -/
def Meets (b e : Option α) (x y : α) : Prop := (∀ b' ∈ b, b' ≤ y) ∧ ∀ e' ∈ e, x ≤ e'

instance (b e : Option α) (x y : α) : Decidable (Meets b e x y) :=
  inferInstanceAs (Decidable (_ ∧ _))

variable (lo hi : ι → α)

/-- `[x, y]` meets the hull of the range and the intervals `[lo i, hi i]` of `S`; a bound the range lacks, the hull
lacks too -/
def MeetsHull (b e : Option α) (S : Set ι) (x y : α) : Prop :=
  (∀ b' ∈ b, b' ≤ y ∨ ∃ i ∈ S, lo i ≤ y) ∧ ∀ e' ∈ e, x ≤ e' ∨ ∃ i ∈ S, x ≤ hi i

/-- the bounds `u` and `v` are those of the hull of the range and the intervals of `S` -/
structure IsHull (b e : Option α) (S : Set ι) (u v : Option α) : Prop where
  isSome_lower : u.isSome = b.isSome
  isSome_upper : v.isSome = e.isSome
  lower : ∀ y, (∀ u' ∈ u, u' ≤ y) ↔ ∀ b' ∈ b, b' ≤ y ∨ ∃ i ∈ S, lo i ≤ y
  upper : ∀ x, (∀ v' ∈ v, x ≤ v') ↔ ∀ e' ∈ e, x ≤ e' ∨ ∃ i ∈ S, x ≤ hi i

/-- `S` takes in every interval of `U` that meets the hull of the range and `S` -/
def HullClosed (U : Set ι) (b e : Option α) (S : Set ι) : Prop :=
  ∀ i ∈ U, MeetsHull lo hi b e S (lo i) (hi i) → i ∈ S

variable {lo hi} {b e : Option α} {S T : Set ι} {u v : Option α} {x y : α}

/-- the hull grows with the set -/
theorem MeetsHull.mono (hST : S ⊆ T) (h : MeetsHull lo hi b e S x y) : MeetsHull lo hi b e T x y := by
  obtain ⟨hb, he⟩ := h
  refine ⟨fun b' hb' => ?_, fun e' he' => ?_⟩
  · rcases hb b' hb' with h | ⟨i, hi, h⟩
    · exact .inl h
    · exact .inr ⟨i, hST hi, h⟩
  · rcases he e' he' with h | ⟨i, hi, h⟩
    · exact .inl h
    · exact .inr ⟨i, hST hi, h⟩

theorem isHull_empty : IsHull lo hi b e ∅ b e :=
  ⟨rfl, rfl, fun y => by simp, fun x => by simp⟩

theorem IsHull.meets_iff (h : IsHull lo hi b e S u v) : Meets u v x y ↔ MeetsHull lo hi b e S x y :=
  and_congr (h.lower y) (h.upper x)

omit [LinearOrder α] in
/-- with one more interval in the set, its own test is one more way into the hull, if the range has the bound -/
theorem forall_or_exists_insert (P : α → Prop) (q : ι → Prop) (b : Option α) (i : ι) :
    (∀ b' ∈ b, P b' ∨ ∃ j ∈ insert i S, q j) ↔ (∀ b' ∈ b, P b' ∨ ∃ j ∈ S, q j) ∨ (b.isSome ∧ q i) := by
  cases b with
  | none => simp
  | some b =>
    simp only [Option.mem_def, Option.some.injEq, forall_eq', Set.mem_insert_iff, exists_eq_or_imp,
      Option.isSome_some, true_and]
    rw [or_assoc, @or_comm (∃ j ∈ S, q j)]

/-- lowering a lower bound to `a`: a key is above the new bound when it is above the old one or above `a`, if there
is a bound at all -/
theorem forall_le_map_min (u : Option α) (a y : α) :
    (∀ u' ∈ u.map (fun u' => if a < u' then a else u'), u' ≤ y) ↔ (∀ u' ∈ u, u' ≤ y) ∨ (u.isSome ∧ a ≤ y) := by
  cases u with
  | none => simp
  | some u =>
    simp only [Option.map_some, Option.mem_def, Option.some.injEq, forall_eq', Option.isSome_some, true_and]
    split_ifs with h
    · exact ⟨.inr, fun h' => h'.elim (fun hu => (le_of_lt h).trans hu) id⟩
    · exact ⟨.inl, fun h' => h'.elim id fun ha => (not_lt.mp h).trans ha⟩

/-- raising an upper bound to `a`, the same way -/
theorem forall_ge_map_max (v : Option α) (a x : α) :
    (∀ v' ∈ v.map (fun v' => if v' < a then a else v'), x ≤ v') ↔ (∀ v' ∈ v, x ≤ v') ∨ (v.isSome ∧ x ≤ a) := by
  cases v with
  | none => simp
  | some v =>
    simp only [Option.map_some, Option.mem_def, Option.some.injEq, forall_eq', Option.isSome_some, true_and]
    split_ifs with h
    · exact ⟨.inr, fun h' => h'.elim (fun hv => hv.trans (le_of_lt h)) id⟩
    · exact ⟨.inl, fun h' => h'.elim id fun ha => ha.trans (not_lt.mp h)⟩

/-- widening the bounds to an interval gives the hull with it -/
theorem IsHull.insert (h : IsHull lo hi b e S u v) (i : ι) :
    IsHull lo hi b e (insert i S) (u.map fun u' => if lo i < u' then lo i else u')
      (v.map fun v' => if v' < hi i then hi i else v') := by
  refine ⟨by rw [Option.isSome_map, h.isSome_lower], by rw [Option.isSome_map, h.isSome_upper], fun y => ?_,
    fun x => ?_⟩
  · rw [forall_le_map_min, h.lower y, forall_or_exists_insert, h.isSome_lower]
  · rw [forall_ge_map_max, h.upper x, forall_or_exists_insert, h.isSome_upper]

/-- a closed set holds every interval of the family that meets the hull of a part of it -/
theorem HullClosed.mem {U : Set ι} (hS : HullClosed lo hi U b e S) (hTS : T ⊆ S) {i : ι} (hiU : i ∈ U)
    (hmeets : MeetsHull lo hi b e T (lo i) (hi i)) : i ∈ S :=
  hS i hiU (hmeets.mono hTS)

end ForSt.IntervalHull
