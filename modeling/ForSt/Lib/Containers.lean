import Mathlib.Data.List.AList
import Mathlib.Data.Multiset.AddSub
/-!
Three containers a lock table and a tombstone fragmenter need.

Swap-and-pop removal from a vector is, as a multiset, removal of that one element (`swapPop_perm`,
`coe_swapPop_idxOf`). An unordered map is an `AList`: a property of every entry survives inserts of entries with it
and erases, and a loop that rewrites each key of another map rewrites each once (`lookup_rewriteEach`). An ordered
set under a strict order `lt` is a sorted list; `emplace` inserts before the first element above, keeping the set
sorted under a trichotomous `lt` (`pairwise_setEmplace`).
-/

namespace ForSt.Containers

section swapPop

variable {α : Type}

/-- overwrite position `i` with the last element, then drop the last element -/
def swapPop (l : List α) (i : ℕ) : List α :=
  match l.getLast? with
  | none => l
  | some last => (l.set i last).dropLast

theorem swapPop_concat (l : List α) (last : α) (i : ℕ) :
    swapPop (l ++ [last]) i = ((l ++ [last]).set i last).dropLast := by
  rw [swapPop, List.getLast?_concat]

/-- overwriting the last position with itself and popping it is popping it -/
theorem swapPop_concat_length (l : List α) (last : α) : swapPop (l ++ [last]) l.length = l := by
  rw [swapPop_concat, List.set_append_right _ _ (Nat.le_refl _), Nat.sub_self, List.set_cons_zero,
    List.dropLast_concat]

theorem swapPop_concat_of_lt (l : List α) (last : α) {i : ℕ} (hi : i < l.length) :
    swapPop (l ++ [last]) i = l.set i last := by
  rw [swapPop_concat, List.set_append_left _ _ hi, List.dropLast_concat]

theorem swapPop_perm (l : List α) {i : ℕ} (hi : i < l.length) : (swapPop l i).Perm (l.eraseIdx i) := by
  obtain ⟨init, last, rfl⟩ : ∃ init last, l = init ++ [last] := by
    obtain ⟨last, hlast⟩ := Option.isSome_iff_exists.mp
      (List.getLast?_isSome.mpr (List.ne_nil_of_length_pos (Nat.lt_of_le_of_lt (Nat.zero_le i) hi)))
    obtain ⟨init, hinit⟩ := List.getLast?_eq_some_iff.mp hlast
    exact ⟨init, last, hinit⟩
  rw [List.length_append, List.length_singleton] at hi
  rcases Nat.lt_succ_iff_lt_or_eq.mp hi with hlt | rfl
  · -- a position before the last: the last element moves into it
    rw [swapPop_concat_of_lt init last hlt, List.eraseIdx_append_of_lt_length hlt,
      List.set_eq_take_append_cons_drop, if_pos hlt, List.eraseIdx_eq_take_drop_succ, List.append_assoc]
    exact List.Perm.append_left _ (List.perm_append_singleton _ _).symm
  · -- the last position itself
    rw [swapPop_concat_length, List.eraseIdx_append_of_length_le (Nat.le_refl _), Nat.sub_self,
      List.eraseIdx_cons_zero, List.append_nil]

theorem length_swapPop (l : List α) {i : ℕ} (hi : i < l.length) : (swapPop l i).length = l.length - 1 := by
  rw [(swapPop_perm l hi).length_eq, List.length_eraseIdx_of_lt hi]

/-- swap-and-pop at the first occurrence of a value removes one copy of it -/
theorem coe_swapPop_idxOf [DecidableEq α] (l : List α) {a : α} (ha : a ∈ l) :
    (swapPop l (l.idxOf a) : Multiset α) = (l : Multiset α).erase a := by
  rw [Multiset.coe_erase, List.erase_eq_eraseIdx_of_idxOf rfl]
  exact Multiset.coe_eq_coe.mpr (swapPop_perm l (List.idxOf_lt_length_of_mem ha))


end swapPop

section alist

variable {κ β : Type} [DecidableEq κ] {s : AList (fun _ : κ => β)} {k : κ} {b : β}

/-- a property of every entry survives an insert of an entry that has it -/
theorem forall_lookup_insert {P : β → Prop} (hs : ∀ k' b', s.lookup k' = some b' → P b') (hb : P b) :
    ∀ k' b', (s.insert k b).lookup k' = some b' → P b' := by
  intro k' b' hk'
  by_cases hkk : k' = k
  · subst hkk
    rw [AList.lookup_insert, Option.some.injEq] at hk'
    exact hk' ▸ hb
  · rw [AList.lookup_insert_ne hkk] at hk'
    exact hs k' b' hk'

theorem forall_lookup_erase {P : β → Prop} (hs : ∀ k' b', s.lookup k' = some b' → P b') :
    ∀ k' b', (s.erase k).lookup k' = some b' → P b' := by
  intro k' b' hk'
  by_cases hkk : k' = k
  · subst hkk
    rw [AList.lookup_erase] at hk'
    cases hk'
  · rw [AList.lookup_erase_ne hkk] at hk'
    exact hs k' b' hk'

theorem length_keys_insert_of_lookup_none (h : s.lookup k = none) :
    (s.insert k b).keys.length = s.keys.length + 1 := by
  have hk : k ∉ s.keys := AList.mem_keys.not.mp (AList.lookup_eq_none.mp h)
  rw [AList.keys_insert, List.length_cons, List.erase_of_not_mem hk]

theorem length_keys_insert_of_lookup_some {b' : β} (h : s.lookup k = some b') :
    (s.insert k b).keys.length = s.keys.length := by
  have hk : k ∈ s.keys := AList.mem_keys.mp (AList.lookup_isSome.mp (by rw [h]; rfl))
  have hpos := List.length_pos_of_mem hk
  rw [AList.keys_insert, List.length_cons, List.length_erase_of_mem hk]
  omega

theorem length_keys_erase_of_lookup_some {b' : β} (h : s.lookup k = some b') :
    (s.erase k).keys.length + 1 = s.keys.length := by
  have hk : k ∈ s.keys := AList.mem_keys.mp (AList.lookup_isSome.mp (by rw [h]; rfl))
  have hpos := List.length_pos_of_mem hk
  rw [AList.keys_erase, List.length_erase_of_mem hk]
  omega

end alist

/-! ## Rewriting entries key by key

A loop over a map's entries that rewrites, for each, the entry of its key in another map: `setEntry` sets one entry
(`none` erases it), and `rewriteEach` runs the loop. Over distinct keys each key is rewritten once, from the entry it
had before the loop (`lookup_rewriteEach`). -/

section rewrite

variable {κ β γ : Type} [DecidableEq κ]

/-- the map with the entry at `k` set, erased for `none` -/
def setEntry (m : AList (fun _ : κ => β)) (k : κ) : Option β → AList (fun _ : κ => β)
  | none => m.erase k
  | some b => m.insert k b

@[simp] theorem lookup_setEntry_self (m : AList (fun _ : κ => β)) (k : κ) (r : Option β) :
    (setEntry m k r).lookup k = r := by
  cases r <;> simp [setEntry]

theorem lookup_setEntry_ne (m : AList (fun _ : κ => β)) {k k' : κ} (h : k' ≠ k) (r : Option β) :
    (setEntry m k r).lookup k' = m.lookup k' := by
  cases r with
  | none => exact AList.lookup_erase_ne h
  | some b => exact AList.lookup_insert_ne h

/-- each entry of `l` in turn rewrites the entry of its key: `f k c old` is the new one, `none` erasing it -/
def rewriteEach (f : κ → γ → Option β → Option β) (m : AList (fun _ : κ => β)) (l : List (Σ _ : κ, γ)) :
    AList (fun _ : κ => β) :=
  l.foldl (fun m s => setEntry m s.1 (f s.1 s.2 (m.lookup s.1))) m

variable {f : κ → γ → Option β → Option β}

theorem rewriteEach_cons (m : AList (fun _ : κ => β)) (s : Σ _ : κ, γ) (l : List (Σ _ : κ, γ)) :
    rewriteEach f m (s :: l) = rewriteEach f (setEntry m s.1 (f s.1 s.2 (m.lookup s.1))) l := rfl

/-- a key no entry of the list has keeps its entry -/
theorem lookup_rewriteEach_of_notMem (m : AList (fun _ : κ => β)) {l : List (Σ _ : κ, γ)} {k : κ}
    (h : k ∉ l.keys) : (rewriteEach f m l).lookup k = m.lookup k := by
  induction l generalizing m with
  | nil => rfl
  | cons s l ih =>
    rw [List.keys_cons, List.mem_cons, not_or] at h
    rw [rewriteEach_cons, ih _ h.2, lookup_setEntry_ne _ h.1]

/-- over distinct keys, a key of the list is rewritten once, from its entry before the loop -/
theorem lookup_rewriteEach_of_mem (m : AList (fun _ : κ => β)) {l : List (Σ _ : κ, γ)} (hl : l.NodupKeys)
    {k : κ} {c : γ} (h : (⟨k, c⟩ : Σ _ : κ, γ) ∈ l) : (rewriteEach f m l).lookup k = f k c (m.lookup k) := by
  induction l generalizing m with
  | nil => cases h
  | cons s l ih =>
    rw [List.nodupKeys_cons] at hl
    rw [rewriteEach_cons]
    rcases List.mem_cons.mp h with rfl | hmem
    · rw [lookup_rewriteEach_of_notMem _ hl.1, lookup_setEntry_self]
    · have hne : k ≠ s.1 := fun hks => hl.1 (hks ▸ List.mem_keys_of_mem hmem)
      rw [ih _ hl.2 hmem, lookup_setEntry_ne _ hne]

theorem isSome_lookup_of_mem {m : AList (fun _ : κ => β)} {s : Σ _ : κ, β} (hs : s ∈ m.entries) :
    (m.lookup s.1).isSome :=
  Option.isSome_iff_exists.mpr ⟨s.2, AList.mem_lookup_iff.mpr hs⟩

/-- the rewrite of a loop over another map's entries, read at one key -/
theorem lookup_rewriteEach (m : AList (fun _ : κ => β)) (t : AList (fun _ : κ => γ)) (k : κ) :
    (rewriteEach f m t.entries).lookup k = (t.lookup k).elim (m.lookup k) (fun c => f k c (m.lookup k)) := by
  cases ht : t.lookup k with
  | none =>
    exact lookup_rewriteEach_of_notMem m (AList.lookup_eq_none.mp ht)
  | some c =>
    exact lookup_rewriteEach_of_mem m t.nodupKeys (AList.mem_lookup_iff.mp ht)

/-- a loop that looks each key up first, failing where it is missing (as `at` throws), and inserts its new entry
succeeds when every key of the list is present, and rewrites as `rewriteEach` -/
theorem foldlM_lookup_insert (g : κ → γ → β → β) (m : AList (fun _ : κ => β)) {l : List (Σ _ : κ, γ)}
    (h : ∀ s ∈ l, (m.lookup s.1).isSome) :
    l.foldlM (fun m s => do
        let b ← m.lookup s.1
        pure (m.insert s.1 (g s.1 s.2 b))) m =
      some (rewriteEach (fun k c old => old.map (g k c)) m l) := by
  induction l generalizing m with
  | nil => rfl
  | cons s l ih =>
    obtain ⟨b, hb⟩ := Option.isSome_iff_exists.mp (h s List.mem_cons_self)
    -- inserting keeps every key present
    have h' : ∀ s' ∈ l, ((m.insert s.1 (g s.1 s.2 b)).lookup s'.1).isSome := by
      intro s' hs'
      by_cases hk : s'.1 = s.1
      · rw [hk, AList.lookup_insert]
        rfl
      · rw [AList.lookup_insert_ne hk]
        exact h s' (List.mem_cons_of_mem s hs')
    rw [List.foldlM_cons, hb, rewriteEach_cons, hb]
    exact ih _ h'

/-- a loop whose step fails only where a lookup that does not depend on the loop's state fails runs as the plain
loop when every lookup succeeds -/
theorem foldlM_bind_eq_some {α δ : Type} (g : α → Option γ) (h : α → γ → δ → δ) (init : δ) {l : List α}
    (hg : ∀ a ∈ l, (g a).isSome) :
    l.foldlM (fun d a => do
        let c ← g a
        pure (h a c d)) init =
      some (l.foldl (fun d a => (g a).elim d (h a · d)) init) := by
  induction l generalizing init with
  | nil => rfl
  | cons a l ih =>
    obtain ⟨c, hc⟩ := Option.isSome_iff_exists.mp (hg a List.mem_cons_self)
    rw [List.foldlM_cons, List.foldl_cons, hc]
    exact ih _ fun a' ha' => hg a' (List.mem_cons_of_mem a ha')

end rewrite

section orderedSet

variable {α : Type} (lt : α → α → Bool)

/-- `std::set::emplace` on a set kept as a list sorted by `lt` -/
def setEmplace (x : α) : List α → List α
  | [] => [x]
  | y :: l => if lt x y then x :: y :: l else if lt y x then y :: setEmplace x l else y :: l

variable {lt}

theorem mem_setEmplace {x a : α} {l : List α} (h : a ∈ setEmplace lt x l) : a = x ∨ a ∈ l := by
  induction l with
  | nil => exact .inl (List.mem_singleton.mp h)
  | cons y l ih =>
    rw [setEmplace] at h
    by_cases hxy : lt x y
    · rw [if_pos hxy] at h
      exact (List.mem_cons.mp h).imp id id
    · rw [if_neg hxy] at h
      by_cases hyx : lt y x
      · rw [if_pos hyx] at h
        rcases List.mem_cons.mp h with rfl | h
        · exact .inr (List.mem_cons_self ..)
        · exact (ih h).imp id (List.mem_cons_of_mem y)
      · rw [if_neg hyx] at h
        exact .inr h

theorem mem_setEmplace_of_mem {x a : α} {l : List α} (h : a ∈ l) : a ∈ setEmplace lt x l := by
  induction l with
  | nil => cases h
  | cons y l ih =>
    rw [setEmplace]
    by_cases hxy : lt x y
    · rw [if_pos hxy]
      exact List.mem_cons_of_mem x h
    · rw [if_neg hxy]
      by_cases hyx : lt y x
      · rw [if_pos hyx]
        rcases List.mem_cons.mp h with rfl | h
        · exact List.mem_cons_self ..
        · exact List.mem_cons_of_mem y (ih h)
      · rw [if_neg hyx]
        exact h

/-- under a trichotomous order the emplaced element is in the set: what stops the insert is the element itself -/
theorem self_mem_setEmplace (htri : ∀ a b, lt a b = false → lt b a = false → a = b) (x : α) (l : List α) :
    x ∈ setEmplace lt x l := by
  induction l with
  | nil => exact List.mem_singleton_self x
  | cons y l ih =>
    rw [setEmplace]
    by_cases hxy : lt x y
    · rw [if_pos hxy]
      exact List.mem_cons_self ..
    · rw [if_neg hxy]
      by_cases hyx : lt y x
      · rw [if_pos hyx]
        exact List.mem_cons_of_mem y ih
      · rw [if_neg hyx, htri x y (by simpa using hxy) (by simpa using hyx)]
        exact List.mem_cons_self ..

/-- a transitive relation that holds wherever `lt` does stays pairwise through an emplace -/
theorem pairwise_setEmplace {R : α → α → Prop} (htrans : ∀ a b c, R a b → R b c → R a c)
    (hlt : ∀ a b, lt a b = true → R a b) (x : α) {l : List α} (hl : l.Pairwise R) :
    (setEmplace lt x l).Pairwise R := by
  induction l with
  | nil => exact List.pairwise_singleton R x
  | cons y l ih =>
    rw [List.pairwise_cons] at hl
    rw [setEmplace]
    by_cases hxy : lt x y
    · -- `x` goes in front of `y`, and so below everything after it
      rw [if_pos hxy]
      refine List.Pairwise.cons (fun z hz => ?_) (List.Pairwise.cons hl.1 hl.2)
      rcases List.mem_cons.mp hz with rfl | hz
      · exact hlt x z hxy
      · exact htrans x y z (hlt x y hxy) (hl.1 z hz)
    · rw [if_neg hxy]
      by_cases hyx : lt y x
      · rw [if_pos hyx]
        refine List.Pairwise.cons (fun z hz => ?_) (ih hl.2)
        rcases mem_setEmplace hz with rfl | hz
        · exact hlt y z hyx
        · exact hl.1 z hz
      · rw [if_neg hyx]
        exact List.Pairwise.cons hl.1 hl.2

end orderedSet

end ForSt.Containers
