import Mathlib.Data.List.Perm.Basic
/-!
Folding updates that commute and absorb their repeats, such as setting bits.

An update `f : β → α → β` whose steps can be swapped (`Commutes f`) and whose repeat changes nothing
(`Absorbs f`) folds a list to what depends only on which elements the list holds: `foldl_eq_of_mem_iff`. The order
of the steps and how often each one is taken do not matter, so a loop that takes the same steps in another order,
or takes some of them twice, ends in the same state.
-/

namespace ForSt.JoinFold

variable {α β : Type*} (f : β → α → β)

/-- two steps can be taken in either order -/
def Commutes : Prop := ∀ b x y, f (f b x) y = f (f b y) x

/-- a step taken twice in a row is taken once -/
def Absorbs : Prop := ∀ b x, f (f b x) x = f b x

variable {f}

/-- a first step can be taken last instead -/
theorem foldl_step_comm (hc : Commutes f) (b : β) (x : α) (l : List α) : l.foldl f (f b x) = f (l.foldl f b) x := by
  induction l generalizing b with
  | nil => rfl
  | cons y l ih => rw [List.foldl_cons, hc, ih, List.foldl_cons]

/-- taking a step the fold has already taken changes nothing -/
theorem step_foldl_of_mem (hc : Commutes f) (ha : Absorbs f) {x : α} {l : List α} (hx : x ∈ l) (b : β) :
    f (l.foldl f b) x = l.foldl f b := by
  obtain ⟨p, q, rfl⟩ := List.append_of_mem hx
  rw [List.foldl_append, List.foldl_cons, foldl_step_comm hc, ha]

/-- steps that the rest of the fold takes again can be left out -/
theorem foldl_append_of_subset (hc : Commutes f) (ha : Absorbs f) {l l' : List α} (h : ∀ x ∈ l, x ∈ l') (b : β) :
    (l ++ l').foldl f b = l'.foldl f b := by
  induction l with
  | nil => rfl
  | cons x l ih =>
    -- the first step moves to the end, where the rest of `l'` has already taken it
    rw [List.cons_append, List.foldl_cons, foldl_step_comm hc, ih fun y hy => h y (List.mem_cons_of_mem x hy),
      step_foldl_of_mem hc ha (h x List.mem_cons_self)]

/-- **a fold of commuting, absorbing steps depends only on the steps' set** -/
theorem foldl_eq_of_mem_iff (hc : Commutes f) (ha : Absorbs f) {l l' : List α} (h : ∀ x, x ∈ l ↔ x ∈ l')
    (b : β) : l.foldl f b = l'.foldl f b :=
  calc l.foldl f b
      = (l' ++ l).foldl f b := (foldl_append_of_subset hc ha (fun x hx => (h x).mpr hx) b).symm
    _ = (l ++ l').foldl f b := List.perm_append_comm.foldl_eq' (fun _ _ _ _ z => hc z _ _) b
    _ = l'.foldl f b := foldl_append_of_subset hc ha (fun x hx => (h x).mp hx) b

end ForSt.JoinFold
