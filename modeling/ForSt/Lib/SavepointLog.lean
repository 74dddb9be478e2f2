import Mathlib.Tactic
/-!
A log with savepoints: a list of entries and a stack of marks, each the length of the log when it was set. Appending
an entry or a run of them keeps the marks; rolling back truncates the log to the newest mark and drops it; popping
drops it. The marks are nonincreasing from the newest and never exceed the log, as fields of the structure.

`views f` is what a client saved at each mark, read through any `f` of the log prefix: appending leaves it alone,
setting a savepoint pushes `f entries`, rolling back and popping both drop the first view, and the empty log has
none. These are the facts a concrete log with its own savepoint records refines.
-/

namespace ForSt

/-- a log of entries with a stack of savepoints, newest first -/
structure SavepointLog (α : Type*) where
  entries : List α
  savePoints : List ℕ
  savePoints_le : ∀ n ∈ savePoints, n ≤ entries.length
  savePoints_sorted : savePoints.Pairwise (· ≥ ·)

namespace SavepointLog

variable {α β : Type*} (m : SavepointLog α)

def empty : SavepointLog α := ⟨[], [], by simp, List.Pairwise.nil⟩

def append (e : α) : SavepointLog α :=
  ⟨m.entries ++ [e], m.savePoints, fun n hn => by
    have := m.savePoints_le n hn
    simp only [List.length_append, List.length_singleton]
    omega, m.savePoints_sorted⟩

/-- append a run of entries, keeping the marks -/
def appendAll (es : List α) : SavepointLog α :=
  ⟨m.entries ++ es, m.savePoints, fun n hn => by
    have := m.savePoints_le n hn
    simp only [List.length_append]
    omega, m.savePoints_sorted⟩

def setSavePoint : SavepointLog α :=
  ⟨m.entries, m.entries.length :: m.savePoints, by
    intro n hn
    rcases List.mem_cons.1 hn with rfl | hn
    · exact le_rfl
    · exact m.savePoints_le n hn, List.Pairwise.cons (fun n hn => m.savePoints_le n hn) m.savePoints_sorted⟩

/-- back to the newest savepoint, which is dropped; without one, nothing changes -/
def rollbackToSavePoint : SavepointLog α :=
  match h : m.savePoints with
  | [] => m
  | n :: rest =>
    have hle : ∀ k ∈ n :: rest, k ≤ m.entries.length := h ▸ m.savePoints_le
    have hsorted : (n :: rest).Pairwise (· ≥ ·) := h ▸ m.savePoints_sorted
    ⟨m.entries.take n, rest, fun k hk => by
      have hkn : n ≥ k := List.rel_of_pairwise_cons hsorted hk
      have hn := hle n List.mem_cons_self
      simp only [List.length_take]
      omega, hsorted.of_cons⟩

/-- drop the newest savepoint -/
def popSavePoint : SavepointLog α :=
  ⟨m.entries, m.savePoints.tail, fun n hn => m.savePoints_le n (List.mem_of_mem_tail hn),
    m.savePoints_sorted.sublist (List.tail_sublist _)⟩

@[simp] theorem entries_empty : (empty : SavepointLog α).entries = [] := rfl
@[simp] theorem savePoints_empty : (empty : SavepointLog α).savePoints = [] := rfl
@[simp] theorem entries_append (e : α) : (m.append e).entries = m.entries ++ [e] := rfl
@[simp] theorem savePoints_append (e : α) : (m.append e).savePoints = m.savePoints := rfl
@[simp] theorem entries_appendAll (es : List α) : (m.appendAll es).entries = m.entries ++ es := rfl
@[simp] theorem savePoints_appendAll (es : List α) : (m.appendAll es).savePoints = m.savePoints := rfl
@[simp] theorem entries_setSavePoint : m.setSavePoint.entries = m.entries := rfl
@[simp] theorem savePoints_setSavePoint : m.setSavePoint.savePoints = m.entries.length :: m.savePoints := rfl
@[simp] theorem entries_popSavePoint : m.popSavePoint.entries = m.entries := rfl
@[simp] theorem savePoints_popSavePoint : m.popSavePoint.savePoints = m.savePoints.tail := rfl

theorem rollbackToSavePoint_of_nil (h : m.savePoints = []) : m.rollbackToSavePoint = m := by
  unfold rollbackToSavePoint
  split
  · rfl
  · rename_i n rest h'
    rw [h] at h'
    cases h'

theorem entries_rollbackToSavePoint {n : ℕ} {rest : List ℕ} (h : m.savePoints = n :: rest) :
    m.rollbackToSavePoint.entries = m.entries.take n := by
  unfold rollbackToSavePoint
  split
  · rename_i h'
    rw [h] at h'
    cases h'
  · rename_i n' rest' h'
    rw [h] at h'
    cases h'
    rfl

theorem savePoints_rollbackToSavePoint {n : ℕ} {rest : List ℕ} (h : m.savePoints = n :: rest) :
    m.rollbackToSavePoint.savePoints = rest := by
  unfold rollbackToSavePoint
  split
  · rename_i h'
    rw [h] at h'
    cases h'
  · rename_i n' rest' h'
    rw [h] at h'
    cases h'
    rfl

/-! ## What was saved at each savepoint -/

/-- `f` of the log as it stood at each savepoint, newest first -/
def views (f : List α → β) : List β := m.savePoints.map fun n => f (m.entries.take n)

/-- the log at the newest savepoint is the log then -/
theorem take_of_mem {n : ℕ} (hn : n ∈ m.savePoints) (e : α) : (m.entries ++ [e]).take n = m.entries.take n :=
  List.take_append_of_le_length (m.savePoints_le n hn)

theorem views_append (f : List α → β) (e : α) : (m.append e).views f = m.views f := by
  unfold views
  apply List.map_congr_left
  intro n hn
  rw [entries_append, take_of_mem m hn e]

theorem views_appendAll (f : List α → β) (es : List α) : (m.appendAll es).views f = m.views f := by
  unfold views
  apply List.map_congr_left
  intro n hn
  rw [entries_appendAll, List.take_append_of_le_length (m.savePoints_le n hn)]

theorem views_setSavePoint (f : List α → β) : m.setSavePoint.views f = f m.entries :: m.views f := by
  simp [views]

theorem views_popSavePoint (f : List α → β) : m.popSavePoint.views f = (m.views f).tail := by
  simp [views, List.map_tail]

/-- rolling back forgets the newest view and keeps the older ones, which are views of the shorter log too -/
theorem views_rollbackToSavePoint (f : List α → β) : m.rollbackToSavePoint.views f = (m.views f).tail := by
  match h : m.savePoints with
  | [] => rw [rollbackToSavePoint_of_nil m h, views, h]; rfl
  | n :: rest =>
    have hsorted : (n :: rest).Pairwise (· ≥ ·) := h ▸ m.savePoints_sorted
    unfold views
    rw [entries_rollbackToSavePoint m h, savePoints_rollbackToSavePoint m h, h, List.map_cons, List.tail_cons]
    apply List.map_congr_left
    intro k hk
    rw [List.take_take, min_eq_left (List.rel_of_pairwise_cons hsorted hk)]

@[simp] theorem views_empty (f : List α → β) : (empty : SavepointLog α).views f = [] := rfl

/-- the view at the newest savepoint -/
theorem views_of_cons {n : ℕ} {rest : List ℕ} (h : m.savePoints = n :: rest) (f : List α → β) :
    m.views f = f (m.entries.take n) :: rest.map (fun k => f (m.entries.take k)) := by
  rw [views, h, List.map_cons]

end SavepointLog

end ForSt
