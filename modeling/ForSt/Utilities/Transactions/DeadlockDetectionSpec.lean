import ForSt.Utilities.Transactions.PointLockManager
import Mathlib.Data.Finmap
import Mathlib.Data.List.Chain
import Mathlib.Logic.Relation
/-!
What `IncrementWaiters` answers about the wait-for graph, and what it leaves of it.

`a` waits for `b` when `wait_txn_map_` lists `b` among its neighbours (`Waits`); `CountsWaiters` says
`rev_wait_txn_map_` counts each transaction's appearances, with no entry of 0. Adding a waiter keeps it, and taking it
out restores the maps (`countsWaiters_addWaiter`, `decrementWaiters_addWaiter`). The search keeps `SearchInv`; a queue
that never fills and runs out shows nothing reachable from `id` is `id` (`searchLoop_spec`), and the path through
`queue_parents` is a chain of waits (`pathLoop_chain`). Together: `incrementWaiters_sound`.
-/

namespace ForSt

namespace WaitGraph

variable {κ : Type}

/-- `a` waits for `b` -/
def Waits (g : WaitGraph κ) (a b : TransactionID) : Prop :=
  ∃ info, g.waitTxnMap.lookup a = some info ∧ b ∈ info.neighbors

/-- how many times `w` appears in the neighbour lists of `wait_txn_map_` -/
def occurrences (g : WaitGraph κ) (w : TransactionID) : ℕ :=
  (g.waitTxnMap.entries.map fun e => e.2.neighbors.count w).sum

/-- an entry of `rev_wait_txn_map_`, 0 when there is none -/
def countOf (rev : AList (fun _ : TransactionID => ℤ)) (w : TransactionID) : ℤ := (rev.lookup w).getD 0

/-- no entry of `rev_wait_txn_map_` is 0 or less -/
def Positive (rev : AList (fun _ : TransactionID => ℤ)) : Prop := ∀ w n, rev.lookup w = some n → 0 < n

/-- the counting invariant: `rev_wait_txn_map_[w]` is the number of times `w` appears in the neighbour lists of
`wait_txn_map_`, with no entry for a transaction nobody waits for -/
structure CountsWaiters (g : WaitGraph κ) : Prop where
  count : ∀ w, countOf g.revWaitTxnMap w = g.occurrences w
  pos : Positive g.revWaitTxnMap

/-- the same maps, whatever the order of their entries -/
def SameMaps (g g' : WaitGraph κ) : Prop :=
  g.waitTxnMap.toFinmap = g'.waitTxnMap.toFinmap ∧ g.revWaitTxnMap.toFinmap = g'.revWaitTxnMap.toFinmap

/-! ## The counts of `rev_wait_txn_map_` -/

section counts

variable {rev : AList (fun _ : TransactionID => ℤ)} {x w : TransactionID}

theorem countOf_incrementRev (rev : AList (fun _ : TransactionID => ℤ)) (x w : TransactionID) :
    countOf (incrementRev rev x) w = countOf rev w + if w = x then 1 else 0 := by
  unfold countOf
  by_cases hw : w = x
  · subst hw
    cases h : rev.lookup w <;> simp [incrementRev, h, AList.lookup_insert]
  · cases h : rev.lookup x <;> simp [incrementRev, h, AList.lookup_insert_ne hw, hw]

theorem positive_incrementRev (hp : Positive rev) (x : TransactionID) : Positive (incrementRev rev x) := by
  intro w n hn
  by_cases hw : w = x
  · subst hw
    cases h : rev.lookup w with
    | none =>
      simp only [incrementRev, h, AList.lookup_insert, Option.some.injEq] at hn
      omega
    | some m =>
      have := hp w m h
      simp only [incrementRev, h, AList.lookup_insert, Option.some.injEq] at hn
      omega
  · cases h : rev.lookup x <;> simp only [incrementRev, h, AList.lookup_insert_ne hw] at hn <;> exact hp w n hn

/-- the increments of a list of waited-for transactions add how often each appears in it -/
theorem countOf_foldl_incrementRev (ws : List TransactionID) (rev : AList (fun _ : TransactionID => ℤ))
    (w : TransactionID) : countOf (ws.foldl incrementRev rev) w = countOf rev w + ws.count w := by
  induction ws generalizing rev with
  | nil => simp
  | cons x ws ih =>
    rw [List.foldl_cons, ih, countOf_incrementRev, List.count_cons]
    by_cases hw : w = x
    · subst hw
      simp only [if_true, beq_self_eq_true]
      push_cast
      ring
    · simp only [hw, if_false, beq_iff_eq, Ne.symm hw]
      simp

theorem positive_foldl_incrementRev (hp : Positive rev) (ws : List TransactionID) :
    Positive (ws.foldl incrementRev rev) := by
  induction ws generalizing rev with
  | nil => exact hp
  | cons x ws ih => exact ih (positive_incrementRev hp x)

/-- the map a decrement of an entry that is there leaves: the entry goes at 0 -/
theorem decrementRev_of_lookup {n : ℤ} (hn : rev.lookup x = some n) :
    decrementRev rev x = if n - 1 = 0 then rev.erase x else rev.insert x (n - 1) := by
  simp only [decrementRev, hn]

/-- a decrement of an entry that is there takes one off it -/
theorem countOf_decrementRev (hx : 0 < countOf rev x) (w : TransactionID) :
    countOf (decrementRev rev x) w = countOf rev w - if w = x then 1 else 0 := by
  obtain ⟨n, hn⟩ : ∃ n, rev.lookup x = some n := by
    cases h : rev.lookup x with
    | none => simp [countOf, h] at hx
    | some n => exact ⟨n, rfl⟩
  rw [decrementRev_of_lookup hn]
  unfold countOf
  by_cases hw : w = x
  · subst hw
    by_cases h0 : n - 1 = 0
    · rw [if_pos h0, AList.lookup_erase, hn]
      simp only [Option.getD_none, Option.getD_some, if_true]
      omega
    · rw [if_neg h0, AList.lookup_insert, hn]
      simp
  · rw [if_neg hw, sub_zero]
    split_ifs
    · rw [AList.lookup_erase_ne hw]
    · rw [AList.lookup_insert_ne hw]

theorem positive_decrementRev (hp : Positive rev) (x : TransactionID) : Positive (decrementRev rev x) := by
  intro w n hn
  cases h : rev.lookup x with
  | none =>
    simp only [decrementRev, h] at hn
    exact hp w n hn
  | some m =>
    rw [decrementRev_of_lookup h] at hn
    by_cases hw : w = x
    · subst hw
      split_ifs at hn with h0
      · simp at hn
      · rw [AList.lookup_insert, Option.some.injEq] at hn
        have := hp w m h
        omega
    · split_ifs at hn
      · rw [AList.lookup_erase_ne hw] at hn
        exact hp w n hn
      · rw [AList.lookup_insert_ne hw] at hn
        exact hp w n hn

/-- the decrements of a list of transactions, each counted at least as often as it appears, take off how often each
appears in it -/
theorem countOf_foldl_decrementRev (ws : List TransactionID) (rev : AList (fun _ : TransactionID => ℤ))
    (hle : ∀ w, (ws.count w : ℤ) ≤ countOf rev w) (w : TransactionID) :
    countOf (ws.foldl decrementRev rev) w = countOf rev w - ws.count w := by
  induction ws generalizing rev with
  | nil => simp
  | cons x ws ih =>
    have hx : 0 < countOf rev x := by
      have := hle x
      rw [List.count_cons_self] at this
      omega
    -- after the first decrement every transaction is still counted as often as it appears in the rest
    have hle' : ∀ v, (ws.count v : ℤ) ≤ countOf (decrementRev rev x) v := by
      intro v
      have := hle v
      rw [countOf_decrementRev hx, List.count_cons] at *
      by_cases hv : v = x
      · subst hv
        simp only [beq_self_eq_true, if_true] at this ⊢
        push_cast at this
        omega
      · simp only [hv, if_false, beq_iff_eq, Ne.symm hv] at this ⊢
        simpa using this
    rw [List.foldl_cons, ih _ hle', countOf_decrementRev hx, List.count_cons]
    by_cases hw : w = x
    · subst hw
      simp only [beq_self_eq_true, if_true]
      push_cast
      ring
    · simp only [hw, if_false, beq_iff_eq, Ne.symm hw]
      simp

theorem positive_foldl_decrementRev (hp : Positive rev) (ws : List TransactionID) :
    Positive (ws.foldl decrementRev rev) := by
  induction ws generalizing rev with
  | nil => exact hp
  | cons x ws ih => exact ih (positive_decrementRev hp x)

/-- two maps with no entry of 0 or less and the same counts are the same map -/
theorem toFinmap_eq_of_countOf {rev rev' : AList (fun _ : TransactionID => ℤ)} (hp : Positive rev)
    (hp' : Positive rev') (h : ∀ w, countOf rev w = countOf rev' w) : rev.toFinmap = rev'.toFinmap := by
  refine Finmap.ext_lookup fun w => ?_
  rw [Finmap.lookup_toFinmap, Finmap.lookup_toFinmap]
  have hw := h w
  unfold countOf at hw
  cases h1 : rev.lookup w <;> cases h2 : rev'.lookup w <;> simp only [h1, h2, Option.getD_none, Option.getD_some]
    at hw ⊢
  · exact absurd hw.symm (ne_of_gt (hp' w _ h2))
  · exact absurd hw (ne_of_gt (hp w _ h1))
  · rw [hw]

end counts

/-! ## Adding a waiter and taking it out -/

section waiter

variable {g : WaitGraph κ} {id : TransactionID} {info : TrackedTrxInfo κ}

/-- the new waiter's neighbours are counted once more each -/
theorem occurrences_addWaiter (hid : g.waitTxnMap.lookup id = none) (w : TransactionID) :
    (g.addWaiter id info).occurrences w = g.occurrences w + info.neighbors.count w := by
  rw [occurrences, addWaiter, AList.entries_insert_of_notMem (AList.lookup_eq_none.mp hid), List.map_cons,
    List.sum_cons, occurrences]
  exact Nat.add_comm _ _

/-- adding a waiter keeps the counting invariant -/
theorem countsWaiters_addWaiter (h : CountsWaiters g) (hid : g.waitTxnMap.lookup id = none) :
    CountsWaiters (g.addWaiter id info) where
  count w := by
    rw [addWaiter, countOf_foldl_incrementRev, ← addWaiter, occurrences_addWaiter hid, h.count w]
    push_cast
    rfl
  pos := positive_foldl_incrementRev h.pos _

/-- `DecrementWaiters` after the waiter was added gives back the same maps -/
theorem decrementWaiters_addWaiter (h : CountsWaiters g) (hid : g.waitTxnMap.lookup id = none) :
    ((g.addWaiter id info).decrementWaiters id info.neighbors).SameMaps g := by
  constructor
  · refine Finmap.ext_lookup fun k => ?_
    rw [Finmap.lookup_toFinmap, Finmap.lookup_toFinmap]
    by_cases hk : k = id
    · subst hk
      simp [decrementWaiters, decrementWaitersImpl, addWaiter, hid]
    · simp [decrementWaiters, decrementWaitersImpl, addWaiter, AList.lookup_erase_ne hk, AList.lookup_insert_ne hk]
  · -- every count goes up by how often it appears in the neighbours, then down by as much
    have hinc := countOf_foldl_incrementRev info.neighbors g.revWaitTxnMap
    refine toFinmap_eq_of_countOf (positive_foldl_decrementRev (positive_foldl_incrementRev h.pos _) _) h.pos
      fun w => ?_
    have hle : ∀ v, (info.neighbors.count v : ℤ) ≤ countOf (info.neighbors.foldl incrementRev g.revWaitTxnMap) v := by
      intro v
      rw [hinc, h.count v]
      omega
    simp only [decrementWaiters, decrementWaitersImpl, addWaiter]
    rw [countOf_foldl_decrementRev _ _ hle, hinc]
    ring

/-- the new waiter waits for exactly its neighbours -/
theorem waits_addWaiter_self (b : TransactionID) : (g.addWaiter id info).Waits id b ↔ b ∈ info.neighbors := by
  simp [Waits, addWaiter, AList.lookup_insert]

end waiter

/-- a transaction somebody waits for appears in a neighbour list -/
theorem occurrences_pos_of_waits {g : WaitGraph κ} {a b : TransactionID} (h : g.Waits a b) : 0 < g.occurrences b := by
  obtain ⟨info, hl, hb⟩ := h
  have hmem : (⟨a, info⟩ : Sigma fun _ : TransactionID => TrackedTrxInfo κ) ∈ g.waitTxnMap.entries :=
    AList.mem_lookup_iff.mp hl
  have hcount : 0 < info.neighbors.count b := List.count_pos_iff.mpr hb
  have hle : info.neighbors.count b ≤ g.occurrences b :=
    List.le_sum_of_mem (List.mem_map.mpr ⟨⟨a, info⟩, hmem, rfl⟩)
  omega

/-- with nobody waiting for `id`, no cycle goes through it -/
theorem not_transGen_of_revCount_zero {g : WaitGraph κ} (h : CountsWaiters g) {id : TransactionID}
    (hid : g.revWaitTxnMap.lookup id = none) : ¬Relation.TransGen g.Waits id id := by
  intro hcycle
  -- the last step of the cycle is a wait for `id`
  obtain ⟨c, -, hc⟩ := Relation.TransGen.tail'_iff.mp hcycle
  have hpos := occurrences_pos_of_waits hc
  have hcount := h.count id
  rw [countOf, hid, Option.getD_none] at hcount
  omega

/-- what is reachable from `a` stays in a set closed under the relation that holds the first steps from `a` -/
theorem mem_of_transGen_closed {α : Type} {r : α → α → Prop} {S : Set α} {a c : α}
    (hstart : ∀ b, r a b → b ∈ S) (hclosed : ∀ x ∈ S, ∀ y, r x y → y ∈ S) (h : Relation.TransGen r a c) : c ∈ S := by
  induction h with
  | single hab => exact hstart _ hab
  | tail _ hbc ih => exact hclosed _ ih _ hbc

/-! ## The search -/

section search

variable (G : WaitGraph κ) (id : TransactionID) (waitIds : List TransactionID) (depth : ℕ)

/-- what a turn of the search enqueues: `next_ids`, while `tail + i < deadlock_detect_depth` -/
def enqueued (queueValues : List TransactionID) : Option (List TransactionID) → List TransactionID
  | none => []
  | some ids => ids.take (depth - queueValues.length)

/-- one turn of the search, with what it enqueues named -/
theorem searchLoop_succ (fuel head : ℕ) (qv : List TransactionID) (qp : List ℤ) (nextIds : Option (List TransactionID))
    (parent : ℤ) :
    G.searchLoop id depth (fuel + 1) head qv qp nextIds parent =
      if (qv ++ enqueued depth qv nextIds).length = head then .noDeadlock
      else if (qv ++ enqueued depth qv nextIds)[head]?.getD 0 = id then
        .found head (qv ++ enqueued depth qv nextIds) (qp ++ (enqueued depth qv nextIds).map fun _ => parent)
      else
        match G.waitTxnMap.lookup ((qv ++ enqueued depth qv nextIds)[head]?.getD 0) with
        | none => G.searchLoop id depth fuel (head + 1) (qv ++ enqueued depth qv nextIds)
            (qp ++ (enqueued depth qv nextIds).map fun _ => parent) none parent
        | some info => G.searchLoop id depth fuel (head + 1) (qv ++ enqueued depth qv nextIds)
            (qp ++ (enqueued depth qv nextIds).map fun _ => parent) (some info.neighbors) head := by
  cases nextIds <;> rfl

variable {depth}

theorem mem_enqueued {qv : List TransactionID} {nextIds : Option (List TransactionID)} {b : TransactionID}
    (h : b ∈ enqueued depth qv nextIds) : ∃ ids, nextIds = some ids ∧ b ∈ ids := by
  cases nextIds with
  | none => cases h
  | some ids => exact ⟨ids, rfl, List.mem_of_mem_take h⟩

theorem length_enqueued_le {qv : List TransactionID} (hqv : qv.length ≤ depth) (nextIds : Option (List TransactionID)) :
    (qv ++ enqueued depth qv nextIds).length ≤ depth := by
  cases nextIds with
  | none => simpa [enqueued] using hqv
  | some ids => simp only [enqueued, List.length_append, List.length_take]; omega

/-- a turn that leaves the queue short of full enqueues all of `next_ids` -/
theorem enqueued_of_lt {qv ids : List TransactionID} (h : (qv ++ enqueued depth qv (some ids)).length < depth) :
    enqueued depth qv (some ids) = ids := by
  simp only [enqueued, List.length_append, List.length_take] at h ⊢
  exact List.take_of_length_le (by omega)

/-- a place of a list, read as `queue_values[head]` is, is the element there -/
theorem getElem?_eq_some_getD {l : List TransactionID} {i : ℕ} (hi : i < l.length) : l[i]? = some (l[i]?.getD 0) := by
  rw [List.getElem?_eq_getElem hi, Option.getD_some]

/-- every place in the queue has its parent: `-1` for what `id` waits for, else an earlier place that waits for it -/
structure Parents (queueValues : List TransactionID) (queueParents : List ℤ) : Prop where
  length_eq : queueParents.length = queueValues.length
  parent : ∀ j : ℕ, ∀ b ∈ queueValues[j]?, (queueParents[j]? = some (-1) ∧ b ∈ waitIds) ∨
    ∃ p : ℕ, p < j ∧ queueParents[j]? = some (p : ℤ) ∧ ∃ a ∈ queueValues[p]?, G.Waits a b

variable (depth)

/-- what the search keeps at the top of its turn `head`: the queue has parents and fits the depth; what it has
dequeued is not `id`; `next_ids` are what `id` waits for at the start and else the neighbours of the last dequeued,
with `parent` its place; and while the queue is not full it holds what `id` and every dequeued transaction but the
last wait for -/
structure SearchInv (head : ℕ) (queueValues : List TransactionID) (queueParents : List ℤ)
    (nextIds : Option (List TransactionID)) (parent : ℤ) : Prop where
  parents : Parents G waitIds queueValues queueParents
  head_le : head ≤ queueValues.length
  le_depth : queueValues.length ≤ depth
  processed : ∀ j < head, queueValues[j]? ≠ some id
  root : head = 0 → nextIds = some waitIds ∧ parent = -1
  pending : 0 < head →
    nextIds = (G.waitTxnMap.lookup (queueValues[head - 1]?.getD 0)).map TrackedTrxInfo.neighbors ∧
      (nextIds.isSome → parent = ((head - 1 : ℕ) : ℤ))
  closed : queueValues.length < depth → ∀ j, j + 1 < head → ∀ a ∈ queueValues[j]?, ∀ b, G.Waits a b →
    b ∈ queueValues
  closed_root : queueValues.length < depth → 0 < head → ∀ b ∈ waitIds, b ∈ queueValues

theorem searchInv_start : SearchInv G id waitIds depth 0 [] [] (some waitIds) (-1) where
  parents := ⟨rfl, fun j b hb => by simp at hb⟩
  head_le := le_rfl
  le_depth := Nat.zero_le _
  processed _ h := absurd h (Nat.not_lt_zero _)
  root _ := ⟨rfl, rfl⟩
  pending h := absurd h (Nat.lt_irrefl _)
  closed _ _ h := absurd h (Nat.not_lt_zero _)
  closed_root _ h := absurd h (Nat.lt_irrefl _)

variable {G id waitIds depth}
variable {head : ℕ} {qv : List TransactionID} {qp : List ℤ} {nextIds : Option (List TransactionID)} {parent : ℤ}

/-- what a turn enqueues has `parent` for parent: what `id` waits for at the start, else the neighbours of the last
dequeued -/
theorem SearchInv.parents_enqueue (h : SearchInv G id waitIds depth head qv qp nextIds parent) :
    Parents G waitIds (qv ++ enqueued depth qv nextIds) (qp ++ (enqueued depth qv nextIds).map fun _ => parent) := by
  obtain ⟨hlen, hpar⟩ := h.parents
  refine ⟨by simp [hlen], fun j b hb => ?_⟩
  by_cases hj : j < qv.length
  · -- an old place keeps its parent
    rw [List.getElem?_append_left hj] at hb
    rw [List.getElem?_append_left (hlen ▸ hj)]
    rcases hpar j b hb with hroot | ⟨p, hpj, hp, a, ha, hab⟩
    · exact .inl hroot
    · exact .inr ⟨p, hpj, hp, a, by rwa [List.getElem?_append_left (by omega)], hab⟩
  · -- a new place has `parent`
    rw [Nat.not_lt] at hj
    rw [List.getElem?_append_right hj] at hb
    have hbmem := List.mem_of_getElem? hb
    rw [List.getElem?_append_right (hlen ▸ hj), List.getElem?_map, hlen, hb, Option.map_some]
    obtain ⟨ids, hids, hb'⟩ := mem_enqueued hbmem
    rcases Nat.eq_zero_or_pos head with h0 | hpos
    · obtain ⟨hroot, hparent⟩ := h.root h0
      rw [hroot, Option.some.injEq] at hids
      exact .inl ⟨by rw [hparent], hids ▸ hb'⟩
    · obtain ⟨hnext, hparent⟩ := h.pending hpos
      rw [hids] at hnext hparent
      obtain ⟨info, hinfo, hneighbors⟩ := Option.map_eq_some_iff.mp hnext.symm
      refine .inr ⟨head - 1, by have := h.head_le; omega, by rw [hparent rfl], _, ?_, info, hinfo, hneighbors ▸ hb'⟩
      rw [List.getElem?_append_left (by have := h.head_le; omega)]
      exact getElem?_eq_some_getD (by have := h.head_le; omega)

/-- a turn that finds no new item ends the search with no cycle through `id`: the queue was never full, so it holds
what `id` and every transaction in it wait for, and `id` is not in it -/
theorem SearchInv.not_transGen (h : SearchInv G id waitIds depth head qv qp nextIds parent)
    (hG : ∀ b, G.Waits id b ↔ b ∈ waitIds) (hlt : head < depth)
    (hempty : (qv ++ enqueued depth qv nextIds).length = head) : ¬Relation.TransGen G.Waits id id := by
  have hle := h.head_le
  have happ : (qv ++ enqueued depth qv nextIds).length = qv.length + (enqueued depth qv nextIds).length :=
    List.length_append
  have hlen : qv.length = head := by omega
  -- nothing was enqueued, though the queue was not full: `next_ids` is empty
  have hnone : ∀ ids, nextIds = some ids → ids = [] := by
    intro ids hids
    subst hids
    have hfull : enqueued depth qv (some ids) = ids := enqueued_of_lt (by omega)
    have : (enqueued depth qv (some ids)).length = 0 := by omega
    rw [hfull] at this
    exact List.length_eq_zero_iff.mp this
  have hstart : ∀ b, G.Waits id b → b ∈ {x | x ∈ qv} := by
    intro b hb
    rcases Nat.eq_zero_or_pos head with h0 | hpos
    · have := hnone waitIds (h.root h0).1
      exact absurd ((hG b).mp hb) (by simp [this])
    · exact h.closed_root (by omega) hpos b ((hG b).mp hb)
  have hclosed : ∀ a ∈ {x | x ∈ qv}, ∀ b, G.Waits a b → b ∈ {x | x ∈ qv} := by
    intro a ha b hab
    obtain ⟨j, hj, hja⟩ := List.getElem_of_mem ha
    by_cases hjh : j + 1 < head
    · exact h.closed (by omega) j hjh a (List.getElem?_eq_some_iff.mpr ⟨hj, hja⟩) b hab
    · -- the last dequeued: its neighbours are `next_ids`, which are empty
      have hj' : j = head - 1 := by omega
      obtain ⟨hnext, -⟩ := h.pending (by omega)
      obtain ⟨info, hinfo, hb⟩ := hab
      have hv : qv[head - 1]?.getD 0 = a := by rw [← hj', List.getElem?_eq_getElem hj, hja, Option.getD_some]
      rw [hv, hinfo, Option.map_some] at hnext
      exact absurd hb (by simp [hnone _ hnext])
  intro hcycle
  obtain ⟨j, hj, hjid⟩ := List.getElem_of_mem (mem_of_transGen_closed (S := {x | x ∈ qv}) hstart hclosed hcycle)
  exact h.processed j (by omega) (by rw [List.getElem?_eq_getElem hj, hjid])

/-- a turn that dequeues a transaction other than `id` keeps the invariant, with its neighbours next if it waits -/
theorem SearchInv.step (h : SearchInv G id waitIds depth head qv qp nextIds parent)
    (hne : (qv ++ enqueued depth qv nextIds).length ≠ head)
    (hnext : (qv ++ enqueued depth qv nextIds)[head]?.getD 0 ≠ id) {nextIds' : Option (List TransactionID)}
    {parent' : ℤ}
    (hnextIds : nextIds' =
      (G.waitTxnMap.lookup ((qv ++ enqueued depth qv nextIds)[head]?.getD 0)).map TrackedTrxInfo.neighbors)
    (hparent : nextIds'.isSome → parent' = head) :
    SearchInv G id waitIds depth (head + 1) (qv ++ enqueued depth qv nextIds)
      (qp ++ (enqueued depth qv nextIds).map fun _ => parent) nextIds' parent' := by
  have hle := h.head_le
  have hlen : head < (qv ++ enqueued depth qv nextIds).length := by
    have happ : (qv ++ enqueued depth qv nextIds).length = qv.length + (enqueued depth qv nextIds).length :=
      List.length_append
    omega
  refine ⟨h.parents_enqueue, hlen, length_enqueued_le h.le_depth nextIds, fun j hj => ?_, fun h0 => absurd h0
    (Nat.succ_ne_zero _), fun _ => ⟨by simpa using hnextIds, by simpa using hparent⟩, ?_, ?_⟩
  · -- what is dequeued now is not `id`, nor what was dequeued before
    rcases Nat.lt_succ_iff_lt_or_eq.mp hj with hj | rfl
    · rw [List.getElem?_append_left (by omega)]
      exact h.processed j hj
    · rw [getElem?_eq_some_getD hlen]
      exact fun heq => hnext (Option.some.inj heq)
  · -- not full: what every dequeued transaction but this one waits for is in the queue
    intro hfull j hj a ha b hab
    rw [List.getElem?_append_left (by omega)] at ha
    by_cases hjh : j + 1 < head
    · exact List.mem_append_left _ (h.closed (by simp at hfull; omega) j hjh a ha b hab)
    · -- the one dequeued last turn: its neighbours were enqueued, all of them
      have hj' : j = head - 1 := by omega
      obtain ⟨hnextIds, -⟩ := h.pending (by omega)
      obtain ⟨info, hinfo, hb⟩ := hab
      have hv : qv[head - 1]?.getD 0 = a := by rw [← hj', ha, Option.getD_some]
      rw [hv, hinfo, Option.map_some] at hnextIds
      subst hnextIds
      exact List.mem_append_right _ ((enqueued_of_lt hfull).symm ▸ hb)
  · -- not full: what `id` waits for is in the queue
    intro hfull _ b hb
    rcases Nat.eq_zero_or_pos head with h0 | hpos
    · obtain ⟨hroot, -⟩ := h.root h0
      subst hroot
      exact List.mem_append_right _ ((enqueued_of_lt hfull).symm ▸ hb)
    · exact List.mem_append_left _ (h.closed_root (by simp at hfull; omega) hpos b hb)

variable (G id waitIds)

/-- what the search's answer says: no cycle through `id` when it runs out of items, and a place of `id` in a queue
with parents when it finds it -/
def OutcomeSpec : SearchOutcome → Prop
  | .noDeadlock => ¬Relation.TransGen G.Waits id id
  | .found head queueValues queueParents => queueValues[head]? = some id ∧ Parents G waitIds queueValues queueParents
  | .limitExceeded => True

/-- the search answers as it says, from any turn that keeps the invariant within the depth -/
theorem searchLoop_spec (hG : ∀ b, G.Waits id b ↔ b ∈ waitIds) (fuel : ℕ) :
    ∀ head qv qp nextIds parent, head + fuel ≤ depth → SearchInv G id waitIds depth head qv qp nextIds parent →
      OutcomeSpec G id waitIds (G.searchLoop id depth fuel head qv qp nextIds parent) := by
  -- the induction is on the turns left; each turn runs out of items, finds `id`, or goes on
  induction fuel with
  | zero => intros; trivial
  | succ fuel ih =>
    intro head qv qp nextIds parent hfuel h
    rw [searchLoop_succ]
    split_ifs with hempty hnext
    · exact h.not_transGen hG (by omega) hempty
    · have hlen : head < (qv ++ enqueued depth qv nextIds).length := by
        have happ : (qv ++ enqueued depth qv nextIds).length = qv.length + (enqueued depth qv nextIds).length :=
          List.length_append
        have := h.head_le
        omega
      exact ⟨by rw [getElem?_eq_some_getD hlen, hnext], h.parents_enqueue⟩
    · cases hl : G.waitTxnMap.lookup ((qv ++ enqueued depth qv nextIds)[head]?.getD 0) with
      | none => exact ih _ _ _ _ _ (by omega) (h.step hempty hnext (by rw [hl]; rfl) (by simp))
      | some info => exact ih _ _ _ _ _ (by omega) (h.step hempty hnext (by rw [hl]; rfl) fun _ => rfl)

end search

/-! ## The path -/

section path

variable {G : WaitGraph κ} {id : TransactionID} {waitIds : List TransactionID} {qv : List TransactionID}
  {qp : List ℤ}

/-- every entry of the path is built from its transaction's `TrackedTrxInfo` -/
theorem pathLoop_info (fuel : ℕ) : ∀ (j : ℤ), ∀ d ∈ G.pathLoop qv qp fuel j, ∃ info,
    G.waitTxnMap.lookup d.txnId = some info ∧ d.cfId = info.cfId ∧ d.exclusive = info.exclusive ∧
      d.waitingKey = info.waitingKey := by
  induction fuel with
  | zero => intro j d hd; cases hd
  | succ fuel ih =>
    intro j d hd
    rw [pathLoop] at hd
    split_ifs at hd
    · cases hd
    · dsimp only at hd
      split at hd
      · cases hd
      · rename_i info hinfo
        rcases List.mem_cons.mp hd with rfl | hd
        · exact ⟨info, hinfo, rfl, rfl, rfl⟩
        · exact ih _ d hd

/-- the path walked back from a place of a waiting transaction `b` is a chain of waits from `id` to `b`: every
place's parent is an earlier place that waits for it, or `-1` for what `id` waits for -/
theorem pathLoop_chain (hpar : Parents G waitIds qv qp) (hG : ∀ b, G.Waits id b ↔ b ∈ waitIds) (fuel : ℕ) :
    ∀ (j : ℕ) (b : TransactionID), j < fuel → qv[j]? = some b → (∃ info, G.waitTxnMap.lookup b = some info) →
      List.IsChain G.Waits (id :: ((G.pathLoop qv qp fuel j).map DeadlockInfo.txnId).reverse) ∧
        ((G.pathLoop qv qp fuel j).map DeadlockInfo.txnId).reverse.getLast? = some b := by
  -- the induction is on the fuel, which outlasts the places: each parent is at an earlier place
  induction fuel with
  | zero => intro j b hj; omega
  | succ fuel ih =>
    intro j b hj hb hwaiting
    obtain ⟨info, hinfo⟩ := hwaiting
    have hj1 : (j : ℤ) ≠ -1 := by omega
    have hstep : G.pathLoop qv qp (fuel + 1) j =
        ⟨b, info.cfId, info.exclusive, info.waitingKey⟩ :: G.pathLoop qv qp fuel (qp[j]?.getD 0) := by
      have hv : qv[(j : ℤ).toNat]?.getD 0 = b := by rw [Int.toNat_natCast, hb, Option.getD_some]
      rw [pathLoop, if_neg hj1]
      dsimp only
      rw [hv, hinfo, Int.toNat_natCast]
    rw [hstep, List.map_cons, List.reverse_cons]
    rcases hpar.parent j b hb with ⟨hroot, hbw⟩ | ⟨p, hpj, hp, a, ha, hab⟩
    · -- what `id` waits for: the walk ends here
      have hend : G.pathLoop qv qp fuel (qp[j]?.getD 0) = [] := by
        rw [hroot, Option.getD_some]
        cases fuel <;> simp [pathLoop]
      rw [hend, List.map_nil, List.reverse_nil, List.nil_append]
      exact ⟨List.isChain_pair.mpr ((hG b).mpr hbw), rfl⟩
    · -- an earlier place that waits for it: the walk goes on from there
      rw [hp, Option.getD_some]
      have hwaits : ∃ info, G.waitTxnMap.lookup a = some info := by
        obtain ⟨i, hi, -⟩ := hab
        exact ⟨i, hi⟩
      obtain ⟨hchain, hlast⟩ := ih p a (by omega) ha hwaits
      refine ⟨?_, by simp⟩
      rw [← List.cons_append]
      refine hchain.append (List.isChain_singleton b) fun x hx y hy => ?_
      rw [List.getLast?_cons, hlast, Option.getD_some, Option.mem_some_iff] at hx
      rw [List.head?_cons, Option.mem_some_iff] at hy
      rw [← hx, ← hy]
      exact hab

end path

/-! ## `IncrementWaiters` -/

/-- what `IncrementWaiters` of `id`, waiting with `info`, answers and leaves of the graph `g`: a false answer leaves
`g` with `id` added, which has no cycle through `id` and keeps the counting invariant, and which `DecrementWaiters`
takes back to the maps of `g`; a true answer leaves the maps of `g`, and records a path marked limit exceeded or a
chain of waits in the graph with `id` added, from `id` back to `id`, each entry with its transaction's data -/
structure IncrementWaitersSound (g : WaitGraph κ) (id : TransactionID) (info : TrackedTrxInfo κ)
    (r : Bool × WaitGraph κ × Option (DeadlockPath κ)) : Prop where
  no_cycle : r.1 = false → ¬Relation.TransGen (g.addWaiter id info).Waits id id
  extended : r.1 = false →
    r.2.1 = g.addWaiter id info ∧ CountsWaiters r.2.1 ∧ (r.2.1.decrementWaiters id info.neighbors).SameMaps g
  restored : r.1 = true → r.2.1.SameMaps g
  path : r.1 = true → ∃ dp ∈ r.2.2, dp.limitExceeded = true ∨
    (List.IsChain (g.addWaiter id info).Waits (id :: dp.path.map DeadlockInfo.txnId) ∧
      (dp.path.map DeadlockInfo.txnId).getLast? = some id ∧
      ∀ d ∈ dp.path, ∃ i, (g.addWaiter id info).waitTxnMap.lookup d.txnId = some i ∧ d.cfId = i.cfId ∧
        d.exclusive = i.exclusive ∧ d.waitingKey = i.waitingKey)

/-- deadlock detection is sound and keeps the wait-for graph's bookkeeping, from a graph with the counting invariant
where `id` is not waiting -/
theorem incrementWaiters_sound (g : WaitGraph κ) (hinv : CountsWaiters g) (id : TransactionID)
    (hid : g.waitTxnMap.lookup id = none) (waitIds : List TransactionID) (key : κ) (cfId : UInt32) (exclusive : Bool)
    (depth : ℕ) (currentTime : Option ℤ) :
    IncrementWaitersSound g id ⟨waitIds, cfId, exclusive, key⟩
      (g.incrementWaiters id waitIds key cfId exclusive depth currentTime) := by
  have hcounts : CountsWaiters (g.addWaiter id ⟨waitIds, cfId, exclusive, key⟩) := countsWaiters_addWaiter hinv hid
  have hrestore : ((g.addWaiter id ⟨waitIds, cfId, exclusive, key⟩).decrementWaiters id waitIds).SameMaps g :=
    decrementWaiters_addWaiter hinv hid
  have hG : ∀ b, (g.addWaiter id ⟨waitIds, cfId, exclusive, key⟩).Waits id b ↔ b ∈ waitIds := waits_addWaiter_self
  have hGid : ∃ i, (g.addWaiter id ⟨waitIds, cfId, exclusive, key⟩).waitTxnMap.lookup id = some i :=
    ⟨⟨waitIds, cfId, exclusive, key⟩, by simp [addWaiter, AList.lookup_insert]⟩
  unfold incrementWaiters
  dsimp only
  by_cases hnone : ((g.addWaiter id ⟨waitIds, cfId, exclusive, key⟩).revWaitTxnMap.lookup id).isNone
  · -- nobody waits for `id`
    rw [if_pos hnone]
    exact ⟨fun _ => not_transGen_of_revCount_zero hcounts (Option.isNone_iff_eq_none.mp hnone),
      fun _ => ⟨rfl, hcounts, hrestore⟩, fun h => absurd h Bool.false_ne_true, fun h => absurd h Bool.false_ne_true⟩
  · rw [if_neg hnone]
    have hspec := searchLoop_spec _ id waitIds hG depth 0 [] [] (some waitIds) (-1) (by omega)
      (searchInv_start _ id waitIds depth)
    cases hs : (g.addWaiter id ⟨waitIds, cfId, exclusive, key⟩).searchLoop id depth depth 0 [] [] (some waitIds) (-1)
      with
    | noDeadlock =>
      rw [hs] at hspec
      exact ⟨fun _ => hspec, fun _ => ⟨rfl, hcounts, hrestore⟩, fun h => absurd h Bool.false_ne_true,
        fun h => absurd h Bool.false_ne_true⟩
    | found head qv qp =>
      rw [hs] at hspec
      obtain ⟨hhead, hpar⟩ := hspec
      obtain ⟨hchain, hlast⟩ := pathLoop_chain hpar hG (head + 1) head id (by omega) hhead hGid
      refine ⟨fun h => absurd h Bool.noConfusion, fun h => absurd h Bool.noConfusion, fun _ => hrestore,
        fun _ => ⟨_, rfl, .inr ⟨?_, ?_, fun d hd => pathLoop_info _ _ d (List.mem_reverse.mp hd)⟩⟩⟩
      · rwa [List.map_reverse]
      · rwa [List.map_reverse]
    | limitExceeded =>
      exact ⟨fun h => absurd h Bool.noConfusion, fun h => absurd h Bool.noConfusion, fun _ => hrestore,
        fun _ => ⟨_, rfl, .inl rfl⟩⟩

/-- transaction 2 waits for transaction 1 -/
def twoWaitsForOne : WaitGraph Unit := ⟨(∅ : AList _).insert 2 ⟨[1], 0, true, ()⟩, (∅ : AList _).insert 1 1⟩

theorem countsWaiters_twoWaitsForOne : CountsWaiters twoWaitsForOne where
  count w := by
    have hocc : twoWaitsForOne.occurrences w = [1].count w := by
      simp [twoWaitsForOne, occurrences]
    rw [hocc, countOf]
    by_cases hw : w = 1
    · subst hw
      rw [twoWaitsForOne, AList.lookup_insert]
      rfl
    · rw [twoWaitsForOne, AList.lookup_insert_ne hw, AList.lookup_empty, List.count_singleton, if_neg (by simpa using Ne.symm hw)]
      rfl
  pos w n hn := by
    by_cases hw : w = 1
    · subst hw
      rw [twoWaitsForOne, AList.lookup_insert, Option.some.injEq] at hn
      omega
    · rw [twoWaitsForOne, AList.lookup_insert_ne hw, AList.lookup_empty] at hn
      cases hn

/-- transaction 1 then waits for 2: a cycle -/
theorem incrementWaiters_sound_twoWaitsForOne :
    CountsWaiters twoWaitsForOne ∧ twoWaitsForOne.waitTxnMap.lookup 1 = none ∧
      IncrementWaitersSound twoWaitsForOne 1 ⟨[2], 0, true, ()⟩
        (twoWaitsForOne.incrementWaiters 1 [2] () 0 true 50 (some 7)) :=
  ⟨countsWaiters_twoWaitsForOne, by decide,
    incrementWaiters_sound twoWaitsForOne countsWaiters_twoWaitsForOne 1 (by decide) [2] () 0 true 50 (some 7)⟩

/-- the recorded path: 1 waits for 2, which waits for 1; with a depth of 1 the search runs out of turns first -/
example : ((twoWaitsForOne.incrementWaiters 1 [2] () 0 true 50 (some 7)).2.2.map fun dp =>
    (dp.path.map DeadlockInfo.txnId, dp.limitExceeded)) = some ([2, 1], false) := by decide

example : ((twoWaitsForOne.incrementWaiters 1 [2] () 0 true 1 (some 7)).2.2.map DeadlockPath.limitExceeded) =
    some true := by decide

end WaitGraph

end ForSt
