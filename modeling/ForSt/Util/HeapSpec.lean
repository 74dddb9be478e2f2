import Mathlib.Data.List.Perm.Basic
import ForSt.Lib.HeapOrder
import ForSt.Util.Heap
/-!
`BinaryHeap` keeps its invariant over every run: the data is heap-ordered, the top is a maximal element, and a
`root_cmp_cache_` below the size is the index of a maximal child of the root; each call keeps the elements of the
abstract priority queue, which adds an element, takes off the top, or swaps it for another (`modelStep`).

The loops are the sifts of `HeapOrder` on the elements by position, `v` being the element the hole carries:
`upheapLoop_spec` and `downheapLoop_spec` follow their recursions, each round one `move`, and each exit one
`finish`. The cached child is trusted only while the hole is at the root, when the root's children are those the
cache was computed on: `pop` moves the last element to the root, which is no child of the root once the heap has
more than three elements, and with three or fewer the cache is out of range or still the only child.
-/

namespace ForSt.BinaryHeap

open ForSt.HeapOrder

variable {T : Type} [Inhabited T]

/-- the elements by position -/
def elems (data : List T) (i : ℕ) : T := data.getD i default

theorem elems_set (data : List T) {i : ℕ} (x : T) (hi : i < data.length) :
    elems (data.set i x) = Function.update (elems data) i x := by
  funext j
  by_cases hj : j = i
  · subst hj
    simp [elems, List.getD_eq_getElem?_getD, hi]
  · rw [Function.update_of_ne hj]
    simp [elems, List.getD_eq_getElem?_getD, Ne.symm hj]

/-- moving the parent's element into the hole and `v` into the parent is a swap of two positions -/
theorem set_set_perm (data : List T) {index parent : ℕ} (v : T) (hi : index < data.length)
    (hp : parent < data.length) (hne : parent ≠ index) :
    ((data.set index (data.getD parent default)).set parent v).Perm (data.set index v) := by
  have hswap := List.swap_perm (data.set index v) index parent
  rw [List.swap_eq_of_lt (by simpa using hi) (by simpa using hp)] at hswap
  simp only [List.getElem_set_ne (Ne.symm hne), List.getElem_set_self, List.set_set] at hswap
  rwa [List.getD_eq_getElem?_getD, List.getElem?_eq_getElem hp, Option.getD_some]

theorem set_getD_self (data : List T) {i : ℕ} (hi : i < data.length) : data.set i (data.getD i default) = data := by
  rw [List.getD_eq_getElem?_getD, List.getElem?_eq_getElem hi, Option.getD_some, List.set_getElem_self]

/-- `pop`'s data, the last element moved to the root and the last position dropped, holds the elements at the other
positions -/
theorem elems_dropLast_set (data : List T) (y : T) {i : ℕ} (hi0 : i ≠ 0) (hi : i < data.length - 1) :
    elems ((data.set 0 y).dropLast) i = elems data i := by
  simp only [elems, List.getD_eq_getElem?_getD, List.getElem?_dropLast, List.length_set, if_pos hi,
    List.getElem?_set_ne (Ne.symm hi0)]

section Order

variable (cmp : T → T → Bool)

/-- `cmp` as a relation -/
abbrev Lt (a b : T) : Prop := cmp a b = true

/-- no child is greater than its parent under `cmp` -/
def HeapOrdered (data : List T) : Prop := Ordered (Lt cmp) data.length (elems data)

/-- a cache below the size is a child of the root that no other child is greater than -/
def CacheValid (data : List T) (rootCmpCache : ℕ) : Prop :=
  rootCmpCache < data.length →
    IsChild rootCmpCache 0 ∧ ∀ c, IsChild c 0 → c < data.length → ¬ Lt cmp (elems data rootCmpCache) (elems data c)

/-- a cache stays valid for data whose positions are fewer and hold the same elements at the root's children -/
theorem CacheValid.of_children {data data' : List T} {rootCmpCache : ℕ} (hc : CacheValid cmp data rootCmpCache)
    (hlen : data'.length ≤ data.length) (hagree : ∀ i, IsChild i 0 → i < data'.length → elems data' i = elems data i) :
    CacheValid cmp data' rootCmpCache := by
  intro hlt
  obtain ⟨hchild, hmax⟩ := hc (by omega)
  refine ⟨hchild, fun c hcc hcl => ?_⟩
  rw [hagree _ hchild hlt, hagree c hcc hcl]
  exact hmax c hcc (by omega)

/-- the child `downheap` picks is below the hole, when a cache in range is not the root -/
theorem pickedChild_gt (data : List T) (rootCmpCache index : ℕ)
    (hcache : index = 0 → rootCmpCache < data.length → 0 < rootCmpCache) :
    index < (if index = 0 ∧ rootCmpCache < data.length then rootCmpCache
      else if getLeft index + 1 < data.length ∧
          cmp (data.getD (getLeft index) default) (data.getD (getLeft index + 1) default) then getLeft index + 1
      else getLeft index) := by
  split_ifs with hroot
  · rw [hroot.1]; exact hcache hroot.1 hroot.2
  all_goals simp only [getLeft]; omega

/-- the fuel of `downheap`'s loop never runs out: with as much fuel as positions below the hole, more fuel gives
the same result, since the hole sinks at each round -/
theorem downheapLoop_fuel (v : T) (rootCmpCache : ℕ) :
    ∀ (fuel k : ℕ) (data : List T) (index pickedChild : ℕ), data.length ≤ fuel + index →
      (index = 0 → rootCmpCache < data.length → 0 < rootCmpCache) →
      downheapLoop cmp v rootCmpCache (fuel + k) data index pickedChild =
        downheapLoop cmp v rootCmpCache fuel data index pickedChild
  | 0, 0, _, _, _, _, _ => rfl
  | 0, k + 1, data, index, pickedChild, hfuel, _ => by
    rw [Nat.zero_add, downheapLoop.eq_1, downheapLoop.eq_2]
    dsimp only
    rw [if_pos (by simp only [getLeft]; omega)]
  | fuel + 1, k, data, index, pickedChild, hfuel, hcache => by
    rw [Nat.add_right_comm, downheapLoop, downheapLoop]
    dsimp only
    by_cases hleft : getLeft index ≥ data.length
    · rw [if_pos hleft, if_pos hleft]
    · rw [if_neg hleft, if_neg hleft]
      have hgt := pickedChild_gt cmp data rootCmpCache index hcache
      generalize (if index = 0 ∧ rootCmpCache < data.length then rootCmpCache
        else if getLeft index + 1 < data.length ∧
            cmp (data.getD (getLeft index) default) (data.getD (getLeft index + 1) default) then getLeft index + 1
        else getLeft index) = c at hgt ⊢
      split_ifs
      · rfl
      · -- the hole sinks to the picked child, below it
        exact downheapLoop_fuel v rootCmpCache fuel k _ _ _ (by rw [List.length_set]; omega)
          (fun h => absurd h (by omega))

/-- the pairs off the root of data that agrees with an ordered heap off the root are in order -/
theorem orderedExcept_root_of_agree {data data' : List T} (hord : HeapOrdered cmp data) (hlen : data'.length ≤ data.length)
    (hagree : ∀ i, i ≠ 0 → i < data'.length → elems data' i = elems data i) :
    OrderedExcept (Lt cmp) data'.length (elems data') 0 := by
  intro i hi0 hi _ hpi
  have hp := parent_lt hi0
  rw [hagree i (by omega) hi, hagree (parent i) hpi (by omega)]
  exact hord i hi0 (by omega)

/-- the abstract priority queue a call leaves, from the elements before it: `push` adds its element while the
`autovector` has room, `pop` takes off the top, which is the first element, and `replace_top` swaps it -/
def modelStep (data : List T) : BinaryHeapOp T → List T
  | .push value => if data.length < kMaxSize then data ++ [value] else data
  | .pop => data.tail
  | .replaceTop value => if data = [] then [] else value :: data.tail
  | .clear => []

/-- the invariant of a heap: ordered, a valid cache, and no more elements than an `autovector` holds -/
structure Valid (h : BinaryHeap T) : Prop where
  ordered : HeapOrdered cmp h.data
  cache : CacheValid cmp h.data h.rootCmpCache
  size : h.data.length ≤ kMaxSize

/-- the reset cache is out of range of any heap -/
theorem cacheValid_kSizeMax (data : List T) (hsize : data.length ≤ kMaxSize) : CacheValid cmp data kSizeMax :=
  fun hlt => absurd hlt (by unfold kMaxSize at hsize; unfold kSizeMax; omega)

theorem valid_empty : Valid cmp (empty : BinaryHeap T) :=
  ⟨fun _ _ hi => absurd hi (by simp [empty]), cacheValid_kSizeMax cmp [] (by simp), by simp [empty]⟩

variable [IsStrictWeakOrder T (Lt cmp)]

/-- `upheap`'s loop: from a hole at `index` climbing with `v`, the data with `v` put in is ordered, and holds the
elements it held with `v` at `index` -/
theorem upheapLoop_spec (v : T) (data : List T) (index : ℕ) (hidx : index < data.length)
    (o : UpOrder (Lt cmp) data.length (elems data) index v) :
    (upheapLoop cmp v data index).2 < data.length ∧ (upheapLoop cmp v data index).1.length = data.length ∧
      HeapOrdered cmp ((upheapLoop cmp v data index).1.set (upheapLoop cmp v data index).2 v) ∧
      ((upheapLoop cmp v data index).1.set (upheapLoop cmp v data index).2 v).Perm (data.set index v) := by
  induction index using Nat.strongRecOn generalizing data with
  | ind index ih =>
    rw [upheapLoop]
    by_cases hroot : index > getRoot
    · have hpos : 0 < index := hroot
      have hp : parent index < index := parent_lt hpos
      simp only [hroot, if_true, getParent]
      by_cases hcmp : cmp (data.getD (parent index) default) v = true
      · -- the parent comes down, and the hole climbs to it
        simp only [show ((index - 1) / 2) = parent index from rfl, hcmp, Bool.not_true]
        have hlen : (data.set index (data.getD (parent index) default)).length = data.length := List.length_set ..
        have o' := o.move (by omega) hidx hcmp
        rw [← elems_set data _ hidx, ← hlen] at o'
        obtain ⟨hlt, hl, hord, hperm⟩ := ih (parent index) hp _ (by omega) o'
        rw [hlen] at hlt hl
        exact ⟨hlt, hl, hord, hperm.trans (set_set_perm data v hidx (by omega) (by omega))⟩
      · simp only [show ((index - 1) / 2) = parent index from rfl, hcmp, Bool.not_false, if_true]
        refine ⟨hidx, trivial, ?_, List.Perm.refl _⟩
        unfold HeapOrdered
        rw [List.length_set, elems_set data v hidx]
        exact o.finish (fun _ => hcmp)
    · simp only [hroot, if_false]
      have h0 : index = 0 := by simp only [getRoot] at hroot; omega
      refine ⟨hidx, trivial, ?_, List.Perm.refl _⟩
      unfold HeapOrdered
      rw [List.length_set, elems_set data v hidx]
      exact o.finish (fun hne => absurd h0 hne)

/-- the child `downheap` picks is a child, in range, that no other child is greater than: the cached one at the root,
else the greater of the two -/
theorem pickedChild_max (data : List T) (rootCmpCache index c : ℕ) (hleft : getLeft index < data.length)
    (hcache : index = 0 → CacheValid cmp data rootCmpCache)
    (hc : (if index = 0 ∧ rootCmpCache < data.length then rootCmpCache
      else if getLeft index + 1 < data.length ∧
          cmp (data.getD (getLeft index) default) (data.getD (getLeft index + 1) default) then getLeft index + 1
      else getLeft index) = c) :
    IsChild c index ∧ c < data.length ∧ ∀ s, IsChild s index → s < data.length → ¬ Lt cmp (elems data c) (elems data s) := by
  have hleft' : getLeft index = 2 * index + 1 := rfl
  split_ifs at hc with hroot hright
  · subst hc
    obtain ⟨hchild, hmax⟩ := hcache hroot.1 hroot.2
    rw [hroot.1]
    exact ⟨hchild, hroot.2, hmax⟩
  · subst hc
    refine ⟨isChild_iff.mpr (Or.inr (by omega)), hright.1, fun s hs _ => ?_⟩
    rcases isChild_iff.mp hs with rfl | rfl
    · rw [show 2 * index + 1 = getLeft index from rfl]
      exact asymm_of_lt hright.2
    · exact irrefl_of (Lt cmp) _
  · subst hc
    refine ⟨isChild_iff.mpr (Or.inl hleft'), hleft, fun s hs hsl => ?_⟩
    rcases isChild_iff.mp hs with rfl | rfl
    · exact irrefl_of (Lt cmp) _
    · have hnot : ¬ cmp (data.getD (getLeft index) default) (data.getD (getLeft index + 1) default) = true :=
        fun h => hright ⟨by omega, h⟩
      rw [show 2 * index + 2 = getLeft index + 1 from rfl]
      exact hnot

/-- `downheap`'s loop, with the fuel it is given: from a hole at `index` sinking with `v`, the data with `v` put in
is ordered and holds the elements it held with `v` at `index`; when `v` stays at the root the data is as it was, and
the picked child is a valid cache -/
theorem downheapLoop_spec (v : T) (rootCmpCache : ℕ) :
    ∀ (fuel : ℕ) (data : List T) (index pickedChild : ℕ) {data' : List T} {index' pickedChild' : ℕ},
      index < data.length → data.length ≤ fuel + index →
      DownOrder (Lt cmp) data.length (elems data) index v →
      (index = 0 → CacheValid cmp data rootCmpCache) → (index = 0 → data.length ≤ pickedChild) →
      downheapLoop cmp v rootCmpCache fuel data index pickedChild = (data', index', pickedChild') →
      index ≤ index' ∧ index' < data.length ∧ data'.length = data.length ∧ HeapOrdered cmp (data'.set index' v) ∧
        (data'.set index' v).Perm (data.set index v) ∧ (index' = 0 → data' = data ∧ CacheValid cmp data pickedChild')
  | 0, data, index, pickedChild, _, _, _, hidx, hfuel, _, _, _, _ => by omega
  | fuel + 1, data, index, pickedChild, data', index', pickedChild', hidx, hfuel, o, hcache, hpicked, hr => by
    rw [downheapLoop] at hr
    dsimp only at hr
    by_cases hleft : getLeft index ≥ data.length
    · -- no child: `v` goes in at the hole
      rw [if_pos hleft] at hr
      simp only [Prod.mk.injEq] at hr
      obtain ⟨rfl, rfl, rfl⟩ := hr
      refine ⟨Nat.le_refl _, hidx, rfl, ?_, List.Perm.refl _, fun h0 => ⟨rfl, fun hlt => absurd (hpicked h0) (by omega)⟩⟩
      unfold HeapOrdered
      rw [List.length_set, elems_set data v hidx]
      exact o.finish (fun c hc hcl => absurd hcl (by have := isChild_iff.mp hc; simp only [getLeft] at hleft; omega))
    · rw [if_neg hleft] at hr
      generalize hc : (if index = 0 ∧ rootCmpCache < data.length then rootCmpCache
        else if getLeft index + 1 < data.length ∧
            cmp (data.getD (getLeft index) default) (data.getD (getLeft index + 1) default) then getLeft index + 1
        else getLeft index) = c at hr
      obtain ⟨hchild, hcl, hmax⟩ := pickedChild_max cmp data rootCmpCache index c (by omega) hcache hc
      have hgt := child_gt hchild
      by_cases hcmp : cmp v (data.getD c default) = true
      · -- the picked child comes up, and the hole sinks to it
        rw [hcmp, Bool.not_true] at hr
        simp only [Bool.false_eq_true, if_false] at hr
        have hlen : (data.set index (data.getD c default)).length = data.length := List.length_set ..
        have o' := o.move hchild hcl hmax hcmp
        rw [← elems_set data _ hidx, ← hlen] at o'
        obtain ⟨hle, hlt, hl, hord, hperm, _⟩ := downheapLoop_spec v rootCmpCache fuel _ c c
          (by omega) (by omega) o' (fun h => absurd h (by omega)) (fun h => absurd h (by omega)) hr
        rw [hlen] at hlt hl
        exact ⟨by omega, hlt, hl, hord, hperm.trans (set_set_perm data v hidx hcl (by omega)),
          fun h => absurd h (by omega)⟩
      · -- no child is greater than `v`: it goes in at the hole
        rw [Bool.not_eq_true] at hcmp
        rw [hcmp, Bool.not_false, if_pos rfl] at hr
        simp only [Prod.mk.injEq] at hr
        obtain ⟨rfl, rfl, rfl⟩ := hr
        have hv : ¬ Lt cmp v (elems data c) := by
          rw [Lt, elems, hcmp]
          exact Bool.false_ne_true
        refine ⟨Nat.le_refl _, hidx, rfl, ?_, List.Perm.refl _, fun h0 => ⟨rfl, fun _ => ?_⟩⟩
        · unfold HeapOrdered
          rw [List.length_set, elems_set data v hidx]
          exact o.finish (fun s hs hsl => neg_trans hv (hmax s hs hsl))
        · rw [h0] at hchild hmax
          exact ⟨hchild, hmax⟩

/-- `push(value)` below the size limit: a valid heap with `value` added -/
theorem push_spec (h : BinaryHeap T) (value : T) (hv : Valid cmp h) (hlt : h.data.length < kMaxSize) :
    Valid cmp (h.push cmp value) ∧ (h.push cmp value).data.Perm (h.data ++ [value]) := by
  have hlen : (h.data ++ [value]).length = h.data.length + 1 := by simp
  have hv0 : (h.data ++ [value]).getD h.data.length default = value := by simp
  -- the new position is a leaf, and every other pair is one of the heap's
  have o : UpOrder (Lt cmp) (h.data ++ [value]).length (elems (h.data ++ [value])) h.data.length value := by
    refine ⟨fun i hi0 hi hin _ => ?_, fun _ c hc hcl => ?_, fun c hc hcl => ?_⟩
    · have hp := parent_lt hi0
      have heq : ∀ j, j < h.data.length → elems (h.data ++ [value]) j = elems h.data j := fun j hj => by
        simp [elems, List.getD_eq_getElem?_getD, List.getElem?_append_left hj]
      rw [heq i (by omega), heq (parent i) (by omega)]
      exact hv.ordered i hi0 (by omega)
    all_goals exact absurd hcl (by have := child_gt hc; omega)
  obtain ⟨hidx, hl, hord, hperm⟩ := upheapLoop_spec cmp value _ h.data.length (by omega) o
  have hpush : h.push cmp value = ⟨(upheapLoop cmp value (h.data ++ [value]) h.data.length).1.set
      (upheapLoop cmp value (h.data ++ [value]) h.data.length).2 value, kSizeMax⟩ := by
    simp only [push, upheap, List.length_append, List.length_singleton, Nat.add_sub_cancel]
    rw [if_pos hlt, hv0]
  rw [hpush]
  have hsize : ((upheapLoop cmp value (h.data ++ [value]) h.data.length).1.set
      (upheapLoop cmp value (h.data ++ [value]) h.data.length).2 value).length ≤ kMaxSize := by
    rw [List.length_set, hl, hlen]; omega
  refine ⟨⟨hord, cacheValid_kSizeMax cmp _ hsize, hsize⟩, ?_⟩
  have hself := set_getD_self (h.data ++ [value]) (i := h.data.length) (by omega)
  rw [hv0] at hself
  rwa [hself] at hperm

/-- `downheap(get_root())` from data ordered off the root with a valid cache: a valid heap with the same elements -/
theorem downheap_root_spec (h : BinaryHeap T) (hne : 0 < h.data.length) (hsize : h.data.length ≤ kMaxSize)
    (hexcept : OrderedExcept (Lt cmp) h.data.length (elems h.data) 0)
    (hcache : CacheValid cmp h.data h.rootCmpCache) :
    Valid cmp (downheap cmp h getRoot) ∧ (downheap cmp h getRoot).data.Perm h.data := by
  have hpicked : h.data.length ≤ kSizeMax := by unfold kMaxSize at hsize; unfold kSizeMax; omega
  rcases hr : downheapLoop cmp (h.data.getD 0 default) h.rootCmpCache h.data.length h.data 0 kSizeMax with
    ⟨data', index', picked'⟩
  obtain ⟨_, _, hl, hord, hperm, hroot⟩ := downheapLoop_spec cmp (h.data.getD 0 default) h.rootCmpCache
    h.data.length h.data 0 kSizeMax hne (by omega) ⟨hexcept, fun h0 => absurd rfl h0, fun h0 => absurd rfl h0⟩
    (fun _ => hcache) (fun _ => hpicked) hr
  have hdown : downheap cmp h getRoot =
      ⟨data'.set index' (h.data.getD 0 default), if index' = 0 then picked' else kSizeMax⟩ := by
    simp only [downheap, getRoot, hr]
  rw [hdown]
  have hlen' : (data'.set index' (h.data.getD 0 default)).length ≤ kMaxSize := by
    rw [List.length_set, hl]; exact hsize
  refine ⟨⟨hord, ?_, hlen'⟩, ?_⟩
  · split_ifs with h0
    · -- `v` stayed at the root: the data is as it was, and the picked child is the cache
      obtain ⟨rfl, hc⟩ := hroot h0
      rw [h0, set_getD_self _ hne]
      exact hc
    · exact cacheValid_kSizeMax cmp _ hlen'
  · rwa [set_getD_self _ hne] at hperm

/-- `replace_top(value)`: a valid heap with the top swapped for `value` -/
theorem replaceTop_spec (h : BinaryHeap T) (value : T) (hv : Valid cmp h) :
    Valid cmp (h.replaceTop cmp value) ∧ (h.replaceTop cmp value).data.Perm (if h.data = [] then [] else value :: h.data.tail) := by
  rcases hd : h.data with _ | ⟨x, rest⟩
  · -- an empty heap stays empty
    have hrep : h.replaceTop cmp value = (empty : BinaryHeap T) := by
      simp [replaceTop, downheap, downheapLoop, hd, empty]
    rw [hrep]
    exact ⟨valid_empty cmp, List.Perm.refl _⟩
  · have hagree : ∀ i, i ≠ 0 → i < ((x :: rest).set 0 value).length →
        elems ((x :: rest).set 0 value) i = elems (x :: rest) i := fun i hi0 _ => by
      rw [elems_set _ _ (by simp), Function.update_of_ne hi0]
    obtain ⟨hord, hcache, hsize⟩ := hv
    rw [hd] at hord hcache hsize
    have hlen : ((x :: rest).set 0 value).length = (x :: rest).length := List.length_set ..
    have hrep : h.replaceTop cmp value = downheap cmp { h with data := (x :: rest).set 0 value } getRoot := by
      simp only [replaceTop, hd]
    obtain ⟨hvalid, hperm⟩ := downheap_root_spec cmp { h with data := (x :: rest).set 0 value } (by simp)
      (by rw [hlen]; exact hsize) (orderedExcept_root_of_agree cmp hord (Nat.le_of_eq hlen) hagree)
      (hcache.of_children cmp (Nat.le_of_eq hlen) (fun i hi hil => hagree i (by have := child_gt hi; omega) hil))
    rw [hrep]
    refine ⟨hvalid, ?_⟩
    simpa using hperm

/-- `pop()`: a valid heap without its top -/
theorem pop_spec (h : BinaryHeap T) (hv : Valid cmp h) :
    Valid cmp (h.pop cmp) ∧ (h.pop cmp).data.Perm h.data.tail := by
  rcases hd : h.data with _ | ⟨x, rest⟩
  · have hpop : h.pop cmp = (empty : BinaryHeap T) := by simp [pop, hd, empty]
    rw [hpop]
    exact ⟨valid_empty cmp, List.Perm.refl _⟩
  · rcases eq_or_ne rest [] with rfl | hrest
    · have hpop : h.pop cmp = (empty : BinaryHeap T) := by simp [pop, hd, empty]
      rw [hpop]
      exact ⟨valid_empty cmp, List.Perm.refl _⟩
    · -- the last element comes to the root, and the last position goes
      obtain ⟨hord, hcache, hsize⟩ := hv
      rw [hd] at hord hcache hsize
      set data := ((x :: rest).set 0 ((x :: rest).getLastD default)).dropLast with hdata
      have hlen : data.length = (x :: rest).length - 1 := by simp [data]
      have hpos : 0 < data.length := by
        rw [hlen]; simp only [List.length_cons]; have := List.length_pos_iff.mpr hrest; omega
      have hagree : ∀ i, i ≠ 0 → i < data.length → elems data i = elems (x :: rest) i :=
        fun i hi0 hil => elems_dropLast_set _ _ hi0 (by omega)
      have hpop : h.pop cmp = downheap cmp { h with data := data } getRoot := by
        have hgt : (x :: rest).length > 1 := by
          simp only [List.length_cons]; have := List.length_pos_iff.mpr hrest; omega
        simp only [pop, hd, if_pos hgt]
        rw [if_pos (List.ne_nil_of_length_pos hpos)]
      rw [hpop]
      obtain ⟨hvalid, hperm⟩ := downheap_root_spec cmp { h with data := data } hpos
        (by have := hsize; simp only at this ⊢; omega) (orderedExcept_root_of_agree cmp hord (show data.length ≤ (x :: rest).length by omega) hagree)
        (hcache.of_children cmp (show data.length ≤ (x :: rest).length by omega) (fun i hi hil => hagree i (by have := child_gt hi; omega) hil))
      refine ⟨hvalid, hperm.trans ?_⟩
      -- the moved last element and the rest but the last are the rest
      have hlast : (x :: rest).getLastD default = rest.getLast hrest := by
        rw [List.getLastD_eq_getLast?, List.getLast?_eq_some_getLast (List.cons_ne_nil x rest), Option.getD_some,
          List.getLast_cons hrest]
      simp only [data, List.set_cons_zero, List.dropLast_cons_of_ne_nil hrest, hlast, List.tail_cons]
      have hsplit := List.dropLast_append_getLast hrest
      calc (rest.getLast hrest :: rest.dropLast).Perm (rest.dropLast ++ [rest.getLast hrest]) :=
            (List.perm_append_singleton _ _).symm
        _ = rest := hsplit

/-- each call keeps the invariant, and leaves the elements of the abstract priority queue -/
theorem apply_spec (h : BinaryHeap T) (op : BinaryHeapOp T) (hv : Valid cmp h) :
    Valid cmp (h.apply cmp op) ∧ (h.apply cmp op).data.Perm (modelStep h.data op) := by
  cases op with
  | push value =>
    by_cases hlt : h.data.length < kMaxSize
    · rw [apply, modelStep, if_pos hlt]
      exact push_spec cmp h value hv hlt
    · -- `push_back` throws: the heap is as it was
      have hpush : h.push cmp value = h := by simp only [push, if_neg hlt]
      rw [apply, modelStep, if_neg hlt, hpush]
      exact ⟨hv, List.Perm.refl _⟩
  | pop => exact pop_spec cmp h hv
  | replaceTop value => exact replaceTop_spec cmp h value hv
  | clear => exact ⟨valid_empty cmp, List.Perm.refl _⟩

/-- every run keeps the invariant, by induction on the calls -/
theorem valid_run (h : BinaryHeap T) (hv : Valid cmp h) (ops : List (BinaryHeapOp T)) : Valid cmp (h.run cmp ops) := by
  induction ops generalizing h with
  | nil => exact hv
  | cons op ops ih => exact ih _ (apply_spec cmp h op hv).1

/-- the top of a valid heap is a maximal element -/
theorem top_max (h : BinaryHeap T) (hv : Valid cmp h) : ∀ x ∈ h.data, cmp h.top x = false := by
  intro x hx
  obtain ⟨i, hi, rfl⟩ := List.getElem_of_mem hx
  have hroot := hv.ordered.root_max i hi
  have htop : h.top = elems h.data 0 := by
    rcases hd : h.data with _ | ⟨y, rest⟩
    · simp [hd] at hi
    · simp [top, elems, hd]
  have hx' : h.data[i] = elems h.data i := by
    simp [elems, List.getD_eq_getElem?_getD, List.getElem?_eq_getElem hi]
  rw [htop, hx']
  exact Bool.not_eq_true _ ▸ hroot

end Order

/-- The root-comparison cache is sound: over every run of `push`, `pop`, `replace_top` and `clear` with a strict weak
order, each call leaves the elements of the abstract priority queue, the data is heap-ordered, the top is maximal,
and a cache below the size is a child of the root that no other child is greater than. -/
theorem binaryHeap_root_cmp_cache_sound (cmp : T → T → Bool) [IsStrictWeakOrder T (fun a b => cmp a b = true)]
    (ops : List (BinaryHeapOp T)) (n : ℕ) :
    let h := (empty : BinaryHeap T).run cmp (ops.take n)
    (∀ op, (h.apply cmp op).data.Perm (modelStep h.data op)) ∧ HeapOrdered cmp h.data ∧
      (∀ x ∈ h.data, cmp h.top x = false) ∧
      (h.rootCmpCache < h.data.length → IsChild h.rootCmpCache 0 ∧
        ∀ c, IsChild c 0 → c < h.data.length → cmp (h.data.getD h.rootCmpCache default) (h.data.getD c default) = false) := by
  intro h
  have hv : Valid cmp h := valid_run cmp empty (valid_empty cmp) (ops.take n)
  refine ⟨fun op => (apply_spec cmp h op hv).2, hv.ordered, top_max cmp h hv, fun hlt => ?_⟩
  obtain ⟨hchild, hmax⟩ := hv.cache hlt
  exact ⟨hchild, fun c hc hcl => Bool.not_eq_true _ ▸ hmax c hc hcl⟩

/-- three pushes and a pop of natural numbers, with their order -/
theorem binaryHeap_root_cmp_cache_sound_nat :
    IsStrictWeakOrder ℕ (fun a b => decide (a < b) = true) ∧
      let h := (empty : BinaryHeap ℕ).run (fun a b => decide (a < b))
        (List.take 4 [.push 3, .push 7, .push 5, .pop])
      (∀ op, (h.apply (fun a b => decide (a < b)) op).data.Perm (modelStep h.data op)) ∧
        HeapOrdered (fun a b => decide (a < b)) h.data ∧ (∀ x ∈ h.data, decide (h.top < x) = false) ∧
        (h.rootCmpCache < h.data.length → IsChild h.rootCmpCache 0 ∧
          ∀ c, IsChild c 0 → c < h.data.length → decide (h.data.getD h.rootCmpCache default < h.data.getD c default) = false) := by
  have inst : IsStrictWeakOrder ℕ (fun a b => decide (a < b) = true) :=
    { irrefl := fun a h => by simp at h
      trans := fun a b c h₁ h₂ => by simp only [decide_eq_true_eq] at *; omega
      incomp_trans := fun a b c h₁ h₂ => by simp only [decide_eq_true_eq] at *; omega }
  exact ⟨inst, binaryHeap_root_cmp_cache_sound (fun a b : ℕ => decide (a < b)) [.push 3, .push 7, .push 5, .pop] 4⟩

end ForSt.BinaryHeap
