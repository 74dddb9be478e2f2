import Mathlib.Data.List.Basic
/-!
Folding operands into an accumulator that may be missing, with a step `f : Option α → α → α`.

`fold f acc xs` steps each operand into the accumulator in turn; `combine f x xs` folds a run of operands that
starts from its first one, with no accumulator. When stepping in the combination of two operands is stepping in
one and then the other (`Assoc f`), stepping in the combination of a run is folding the run
(`some_combine`), so a run inside a longer list of operands can be replaced by its combination without changing the
fold (`fold_combine`).
-/

namespace ForSt.OptionFold

variable {α : Type*} (f : Option α → α → α)

/-- each operand stepped into the accumulator in turn -/
def fold (acc : Option α) (xs : List α) : Option α := xs.foldl (fun a x => some (f a x)) acc

/-- a run folded from its first operand -/
def combine (x : α) (xs : List α) : α := xs.foldl (fun t y => f (some t) y) x

/-- stepping in a combined pair is stepping in its two operands one after the other -/
def Assoc : Prop := ∀ (a : Option α) (x y : α), f a (f (some x) y) = f (some (f a x)) y

variable {f}

@[simp] theorem fold_nil (acc : Option α) : fold f acc [] = acc := rfl

@[simp] theorem fold_cons (acc : Option α) (x : α) (xs : List α) :
    fold f acc (x :: xs) = fold f (some (f acc x)) xs := rfl

theorem fold_append (acc : Option α) (xs ys : List α) : fold f acc (xs ++ ys) = fold f (fold f acc xs) ys :=
  List.foldl_append

@[simp] theorem combine_nil (x : α) : combine f x [] = x := rfl

@[simp] theorem combine_cons (x y : α) (ys : List α) : combine f x (y :: ys) = combine f (f (some x) y) ys := rfl

/-- stepping in the combination of a run is folding the run, by induction on the run after its first operand -/
theorem some_combine (h : Assoc f) (a : Option α) (x : α) (xs : List α) :
    some (f a (combine f x xs)) = fold f a (x :: xs) := by
  induction xs generalizing x with
  | nil => rfl
  | cons y ys ih =>
    rw [combine_cons, ih, fold_cons, fold_cons, fold_cons, h]

/-- a run of operands can be replaced by its combination -/
theorem fold_combine (h : Assoc f) (acc : Option α) (xs : List α) (y : α) (ys zs : List α) :
    fold f acc (xs ++ [combine f y ys] ++ zs) = fold f acc (xs ++ y :: ys ++ zs) := by
  rw [fold_append, fold_append, fold_append, fold_append, fold_cons, fold_nil, some_combine h]

end ForSt.OptionFold
