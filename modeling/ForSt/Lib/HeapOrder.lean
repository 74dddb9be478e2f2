import Mathlib.Data.Nat.Notation
import Mathlib.Order.Defs.Unbundled
import Mathlib.Logic.Function.Basic
/-!
A binary max-heap in an array, over any strict weak order `r`: position `i > 0` has parent `(i - 1) / 2`, and the heap
is `Ordered` when no element is below one of its children; `¬ r a b` is transitive (`neg_trans`).

The sifts move a hole carrying an element `e` that goes in last. `UpOrder` holds while the hole climbs, `DownOrder`
while it sinks; each step keeps its invariant (`UpOrder.move`, `DownOrder.move`), and each stop leaves an ordered heap
once `e` is put in the hole (`UpOrder.finish`, `DownOrder.finish`). The maximum is at the root (`Ordered.root_max`).
-/

namespace ForSt.HeapOrder

/-- the parent of position `i > 0` -/
def parent (i : ℕ) : ℕ := (i - 1) / 2

/-- `c` is a child of `p`; position 0 is no position's child -/
def IsChild (c p : ℕ) : Prop := 0 < c ∧ parent c = p

theorem parent_lt {i : ℕ} (h : 0 < i) : parent i < i := by
  unfold parent; omega

theorem child_gt {c p : ℕ} (h : IsChild c p) : p < c := by
  unfold IsChild parent at h; omega

/-- the children of `p` are `2 * p + 1` and `2 * p + 2` -/
theorem isChild_iff {c p : ℕ} : IsChild c p ↔ c = 2 * p + 1 ∨ c = 2 * p + 2 := by
  unfold IsChild parent; omega

section Order

variable {α : Type*} (r : α → α → Prop)

/-- no element of the first `n` positions is below one of its children -/
def Ordered (n : ℕ) (f : ℕ → α) : Prop :=
  ∀ i, 0 < i → i < n → ¬ r (f (parent i)) (f i)

/-- every pair of parent and child that does not touch `hole` is in order -/
def OrderedExcept (n : ℕ) (f : ℕ → α) (hole : ℕ) : Prop :=
  ∀ i, 0 < i → i < n → i ≠ hole → parent i ≠ hole → ¬ r (f (parent i)) (f i)

/-- the invariant of a hole climbing with `e` -/
structure UpOrder (n : ℕ) (f : ℕ → α) (hole : ℕ) (e : α) : Prop where
  except : OrderedExcept r n f hole
  grand : hole ≠ 0 → ∀ c, IsChild c hole → c < n → ¬ r (f (parent hole)) (f c)
  below : ∀ c, IsChild c hole → c < n → ¬ r e (f c)

/-- the invariant of a hole sinking with `e` -/
structure DownOrder (n : ℕ) (f : ℕ → α) (hole : ℕ) (e : α) : Prop where
  except : OrderedExcept r n f hole
  above : hole ≠ 0 → ¬ r (f (parent hole)) e
  grand : hole ≠ 0 → ∀ c, IsChild c hole → c < n → ¬ r (f (parent hole)) (f c)

variable {r} [IsStrictWeakOrder α r]

theorem asymm_of_lt {a b : α} (h : r a b) : ¬ r b a :=
  fun h' => irrefl_of r a (trans_of r h h')

/-- "not below" is transitive in a strict weak order -/
theorem neg_trans {a b c : α} (h₁ : ¬ r a b) (h₂ : ¬ r b c) : ¬ r a c := by
  intro hac
  by_cases hba : r b a
  · exact h₂ (trans_of r hba hac)
  · by_cases hcb : r c b
    · exact h₁ (trans_of r hac hcb)
    -- `a` and `b` are incomparable, and so are `b` and `c`
    · exact (IsStrictWeakOrder.incomp_trans a b c ⟨h₁, hba⟩ ⟨h₂, hcb⟩).1 hac

/-- the hole climbs to its parent, which comes down into it -/
theorem UpOrder.move {n : ℕ} {f : ℕ → α} {hole : ℕ} {e : α} (o : UpOrder r n f hole e)
    (hne : hole ≠ 0) (hlt : hole < n) (hb : r (f (parent hole)) e) :
    UpOrder r n (Function.update f hole (f (parent hole))) (parent hole) e := by
  have hq : parent hole < hole := parent_lt (Nat.pos_of_ne_zero hne)
  -- the parent is in order with its own parent, as no pair at the parent touches the hole
  have hq_up : parent hole ≠ 0 → ¬ r (f (parent (parent hole))) (f (parent hole)) :=
    fun hq0 => o.except (parent hole) (by omega) (by omega) (by omega)
      (by have := parent_lt (Nat.pos_of_ne_zero hq0); omega)
  constructor
  · intro i hi0 hi hiq hpi
    by_cases hih : i = hole
    · exact absurd (congrArg parent hih) hpi
    · rw [Function.update_of_ne hih]
      by_cases hph : parent i = hole
      · rw [hph, Function.update_self]
        exact o.grand hne i ⟨hi0, hph⟩ hi
      · rw [Function.update_of_ne hph]
        exact o.except i hi0 hi hih hph
  · intro hq0 c hc hcl
    have hpq : parent (parent hole) ≠ hole := by
      have := parent_lt (Nat.pos_of_ne_zero hq0); omega
    rw [Function.update_of_ne hpq]
    by_cases hch : c = hole
    · subst hch
      rw [Function.update_self]
      exact hq_up hq0
    · rw [Function.update_of_ne hch]
      have hc_q : ¬ r (f (parent hole)) (f c) := by
        have := o.except c hc.1 hcl hch (by rw [hc.2]; omega)
        rwa [hc.2] at this
      exact neg_trans (hq_up hq0) hc_q
  · intro c hc hcl
    by_cases hch : c = hole
    · subst hch
      rw [Function.update_self]
      exact asymm_of_lt hb
    · rw [Function.update_of_ne hch]
      have hc_q : ¬ r (f (parent hole)) (f c) := by
        have := o.except c hc.1 hcl hch (by rw [hc.2]; omega)
        rwa [hc.2] at this
      exact fun hec => hc_q (trans_of r hb hec)

omit [IsStrictWeakOrder α r] in
/-- the hole stops climbing at the root, or under a parent that `e` is not above -/
theorem UpOrder.finish {n : ℕ} {f : ℕ → α} {hole : ℕ} {e : α} (o : UpOrder r n f hole e)
    (hstop : hole ≠ 0 → ¬ r (f (parent hole)) e) : Ordered r n (Function.update f hole e) := by
  intro i hi0 hi
  by_cases hih : i = hole
  · subst hih
    have hp : parent i ≠ i := by have := parent_lt hi0; omega
    rw [Function.update_self, Function.update_of_ne hp]
    exact hstop (by omega)
  · rw [Function.update_of_ne hih]
    by_cases hph : parent i = hole
    · rw [hph, Function.update_self]
      exact o.below i ⟨hi0, hph⟩ hi
    · rw [Function.update_of_ne hph]
      exact o.except i hi0 hi hih hph

/-- the hole sinks to a maximal child `c` that is above `e`, which comes up into it -/
theorem DownOrder.move {n : ℕ} {f : ℕ → α} {hole c : ℕ} {e : α} (o : DownOrder r n f hole e)
    (hc : IsChild c hole) (hcl : c < n) (hmax : ∀ s, IsChild s hole → s < n → ¬ r (f c) (f s))
    (hb : r e (f c)) : DownOrder r n (Function.update f hole (f c)) c e := by
  have hgt := child_gt hc
  constructor
  · intro i hi0 hi hic hpi
    by_cases hih : i = hole
    · subst hih
      have hp : parent i ≠ i := by have := parent_lt hi0; omega
      rw [Function.update_self, Function.update_of_ne hp]
      exact o.grand (by omega) c hc hcl
    · rw [Function.update_of_ne hih]
      by_cases hph : parent i = hole
      · rw [hph, Function.update_self]
        exact hmax i ⟨hi0, hph⟩ hi
      · rw [Function.update_of_ne hph]
        exact o.except i hi0 hi hih hph
  · intro _
    rw [hc.2, Function.update_self]
    exact asymm_of_lt hb
  · intro _ d hd hdl
    have hdgt := child_gt hd
    rw [hc.2, Function.update_self, Function.update_of_ne (show d ≠ hole by omega)]
    have := o.except d hd.1 hdl (by omega) (by rw [hd.2]; omega)
    rwa [hd.2] at this

omit [IsStrictWeakOrder α r] in
/-- the hole stops sinking where no child is above `e` -/
theorem DownOrder.finish {n : ℕ} {f : ℕ → α} {hole : ℕ} {e : α} (o : DownOrder r n f hole e)
    (hstop : ∀ c, IsChild c hole → c < n → ¬ r e (f c)) : Ordered r n (Function.update f hole e) := by
  intro i hi0 hi
  by_cases hih : i = hole
  · subst hih
    have hp : parent i ≠ i := by have := parent_lt hi0; omega
    rw [Function.update_self, Function.update_of_ne hp]
    exact o.above (by omega)
  · rw [Function.update_of_ne hih]
    by_cases hph : parent i = hole
    · rw [hph, Function.update_self]
      exact hstop i ⟨hi0, hph⟩ hi
    · rw [Function.update_of_ne hph]
      exact o.except i hi0 hi hih hph

/-- no element of an ordered heap is above its root: by strong induction on the position, through its parent -/
theorem Ordered.root_max {n : ℕ} {f : ℕ → α} (h : Ordered r n f) : ∀ i, i < n → ¬ r (f 0) (f i) := by
  intro i
  induction i using Nat.strongRecOn with
  | ind i ih =>
    intro hi
    rcases Nat.eq_zero_or_pos i with rfl | hpos
    · exact irrefl_of r (f 0)
    · have hp := parent_lt hpos
      exact neg_trans (ih (parent i) hp (by omega)) (h i hpos hi)

end Order

end ForSt.HeapOrder
