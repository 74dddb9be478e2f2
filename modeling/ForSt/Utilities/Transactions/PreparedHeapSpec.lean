import ForSt.Utilities.Transactions.PreparedHeap
/-!
What the prepared heap is for: its top is the least prepare sequence number pushed and not yet popped or erased.

`LiveSeqs` is that set of numbers, with what a caller may do to it (`LiveSeqs.Allows`): push numbers in increasing
order, pop when some number is live, and erase a live number once. `PreparedHeap.Represents` says how the deque and
the erased numbers stand for it: the live numbers are those of the deque not erased, every erased number is in the
deque above its front, and the cache holds the front. Each call keeps it (`represents_push`, `represents_pop`,
`represents_erase`), so a whole run keeps it (`represents_run`), and the top is the least live number
(`top_eq_min`).

Only the numbers below `kMaxSequenceNumber` can be told from the empty heap: `erase` reads `empty()` from the cache,
so a live number `kMaxSequenceNumber` at the top is never erased.
-/

namespace ForSt

/-- the prepare sequence numbers pushed, and those of them not yet popped or erased, in the order they were pushed -/
structure LiveSeqs where
  live : List ℕ
  pushed : List ℕ
deriving DecidableEq, Repr

namespace LiveSeqs

/-- what each call should do: a push adds a number, a pop removes the least, an erase removes the number -/
def step (s : LiveSeqs) : PreparedHeapOp → LiveSeqs
  | .push v => ⟨s.live ++ [v], s.pushed ++ [v]⟩
  | .pop => ⟨match s.live.min? with
      | some m => s.live.erase m
      | none => s.live, s.pushed⟩
  | .erase v => ⟨s.live.erase v, s.pushed⟩

/-- the calls a caller may make: a push of a number above every number pushed before, a pop while some number is
live, and an erase of a live number -/
def Allows (s : LiveSeqs) : PreparedHeapOp → Prop
  | .push v => ∀ u ∈ s.pushed, u < v
  | .pop => s.live ≠ []
  | .erase v => v ∈ s.live

/-- a sequence of calls each of which is allowed where it is made -/
def AllowsAll : LiveSeqs → List PreparedHeapOp → Prop
  | _, [] => True
  | s, op :: ops => s.Allows op ∧ (s.step op).AllowsAll ops

instance decAllows (s : LiveSeqs) : (op : PreparedHeapOp) → Decidable (s.Allows op)
  | .push v => inferInstanceAs (Decidable (∀ u ∈ s.pushed, u < v))
  | .pop => inferInstanceAs (Decidable (s.live ≠ []))
  | .erase v => inferInstanceAs (Decidable (v ∈ s.live))

instance decAllowsAll : (s : LiveSeqs) → (ops : List PreparedHeapOp) → Decidable (s.AllowsAll ops)
  | _, [] => isTrue trivial
  | s, op :: ops =>
    have := decAllowsAll (s.step op) ops
    inferInstanceAs (Decidable (s.Allows op ∧ (s.step op).AllowsAll ops))

/-- a prefix of an allowed sequence is allowed -/
theorem AllowsAll.take : ∀ {s : LiveSeqs} {ops : List PreparedHeapOp} (n : ℕ), s.AllowsAll ops →
    s.AllowsAll (ops.take n)
  | _, [], _, _ => by simp [AllowsAll]
  | _, _ :: _, 0, _ => trivial
  | _, _ :: _, n + 1, ⟨hop, hrest⟩ => ⟨hop, AllowsAll.take n hrest⟩

/-- the calls one after the other -/
def run (s : LiveSeqs) (ops : List PreparedHeapOp) : LiveSeqs := ops.foldl step s

end LiveSeqs

namespace PreparedHeap

/-- a deque and the erased numbers as `pop` needs them: the deque increases, and the erased numbers are sorted,
distinct and in the deque -/
structure ErasedIn (heap erased : List ℕ) : Prop where
  sorted : heap.Pairwise (· < ·)
  erasedSorted : erased.Pairwise (· ≤ ·)
  erasedNodup : erased.Nodup
  erasedMem : ∀ e ∈ erased, e ∈ heap

/-- the heap stands for the live numbers: the erased numbers are in the deque and above its front, the live numbers
are those of the deque not erased, the cache holds the front, and every number of the deque was pushed and is below
`kMaxSequenceNumber` -/
structure Represents (h : PreparedHeap) (s : LiveSeqs) : Prop where
  erasedIn : ErasedIn h.heap h.erasedHeap
  frontLive : ∀ f ∈ h.heap.head?, ∀ e ∈ h.erasedHeap, f < e
  live : s.live = h.heap.filter (· ∉ h.erasedHeap)
  top : h.heapTop = h.heap.head?.getD kMaxSequenceNumber
  pushed : ∀ x ∈ h.heap, x ∈ s.pushed
  bound : ∀ x ∈ h.heap, x < kMaxSequenceNumber

theorem represents_empty : ({} : PreparedHeap).Represents ⟨[], []⟩ where
  erasedIn := ⟨List.Pairwise.nil, List.Pairwise.nil, List.nodup_nil, by simp⟩
  frontLive := by simp
  live := rfl
  top := rfl
  pushed := by simp
  bound := by simp

variable {h : PreparedHeap} {s : LiveSeqs}

/-- the front of the deque is live and below every other live number -/
theorem Represents.live_of_cons (hr : h.Represents s) {f : ℕ} {rest : List ℕ} (hh : h.heap = f :: rest) :
    s.live = f :: rest.filter (· ∉ h.erasedHeap) := by
  have hf : f ∉ h.erasedHeap := fun he => lt_irrefl f (hr.frontLive f (by simp [hh]) f he)
  rw [hr.live, hh, List.filter_cons_of_pos (by simpa using hf)]

theorem Represents.min?_live (hr : h.Represents s) : s.live.min? = h.heap.head? := by
  cases hh : h.heap with
  | nil => simp [hr.live, hh]
  | cons f rest =>
    have hsorted := hr.erasedIn.sorted
    rw [hh, List.pairwise_cons] at hsorted
    rw [hr.live_of_cons hh, List.head?_cons, List.min?_eq_some_iff]
    refine ⟨List.mem_cons_self .., fun b hb => ?_⟩
    rcases List.mem_cons.mp hb with rfl | hb
    · exact le_rfl
    · exact (hsorted.1 b (List.mem_of_mem_filter hb)).le

/-- the top is the least live number, or `kMaxSequenceNumber` when none is live -/
theorem Represents.top_eq_min (hr : h.Represents s) : h.top = s.live.min?.getD kMaxSequenceNumber := by
  rw [PreparedHeap.top, hr.top, hr.min?_live]

/-! ## Push -/

theorem represents_push (hr : h.Represents s) {v : ℕ} (hv : s.Allows (.push v)) (hb : v < kMaxSequenceNumber) :
    (h.push v).Represents (s.step (.push v)) := by
  have habove : ∀ x ∈ h.heap, x < v := fun x hx => hv x (hr.pushed x hx)
  have hv' : v ∉ h.erasedHeap := fun he => lt_irrefl v (habove v (hr.erasedIn.erasedMem v he))
  constructor
  · refine ⟨?_, hr.erasedIn.erasedSorted, hr.erasedIn.erasedNodup,
      fun e he => List.mem_append_left _ (hr.erasedIn.erasedMem e he)⟩
    exact List.pairwise_append.mpr ⟨hr.erasedIn.sorted, List.pairwise_singleton _ v, fun x hx y hy => by
      rw [List.mem_singleton.mp hy]
      exact habove x hx⟩
  · -- the front stays, or the deque was empty and so was the erased heap
    cases hh : h.heap with
    | nil =>
      intro f _ e he
      exact absurd (hr.erasedIn.erasedMem e he) (by simp [hh])
    | cons f' rest =>
      intro f hf e he
      have hff : f = f' := by simpa [push, hh] using hf.symm
      rw [hff]
      exact hr.frontLive f' (by simp [hh]) e he
  · show s.live ++ [v] = (h.heap ++ [v]).filter (· ∉ h.erasedHeap)
    rw [List.filter_append, hr.live]
    simp [hv']
  · cases hh : h.heap with
    | nil => simp [push, hh]
    | cons f rest => simp [push, hh, hr.top]
  · intro x hx
    rcases List.mem_append.mp hx with hx | hx
    · exact List.mem_append_left _ (hr.pushed x hx)
    · exact List.mem_append_right _ hx
  · intro x hx
    rcases List.mem_append.mp hx with hx | hx
    · exact hr.bound x hx
    · rw [List.mem_singleton.mp hx]
      exact hb

/-! ## Pop -/

/-- the first loop of `pop`, from a deque that holds every erased number: each erased number at the front is the
front itself, so both are dropped and the live numbers stay -/
theorem popErasedLoop_spec : ∀ {heap erased : List ℕ}, ErasedIn heap erased →
    let r := popErasedLoop heap erased
    ErasedIn r.1 r.2 ∧ (∀ f ∈ r.1.head?, ∀ e ∈ r.2, f < e) ∧ r.1.filter (· ∉ r.2) = heap.filter (· ∉ erased) ∧
      r.1.Sublist heap
  | heap, [], hi => by
    have hloop : popErasedLoop heap [] = (heap, []) := by cases heap <;> rfl
    rw [hloop]
    exact ⟨hi, by simp, rfl, List.Sublist.refl heap⟩
  | [], e :: _, hi => absurd (hi.erasedMem e (List.mem_cons_self ..)) (List.not_mem_nil)
  | f :: rest, e :: es, hi => by
    obtain ⟨hsorted, hes, hnodup, hmem⟩ := hi
    rw [List.pairwise_cons] at hsorted hes
    rw [List.nodup_cons] at hnodup
    by_cases hle : e ≤ f
    · -- the erased number is in the deque above its front, so it is the front
      have hef : e = f := by
        rcases List.mem_cons.mp (hmem e (List.mem_cons_self ..)) with h | h
        · exact h
        · exact absurd (hsorted.1 e h) (not_lt.mpr hle)
      subst hef
      have hloop : popErasedLoop (e :: rest) (e :: es) = popErasedLoop rest es := by
        simp only [popErasedLoop, le_refl, if_true]
      have hrest : ErasedIn rest es := by
        refine ⟨hsorted.2, hes.2, hnodup.2, fun x hx => ?_⟩
        rcases List.mem_cons.mp (hmem x (List.mem_cons_of_mem e hx)) with h | h
        · exact absurd (h ▸ hx) hnodup.1
        · exact h
      obtain ⟨hi', hfront, hfilter, hsub⟩ := popErasedLoop_spec hrest
      rw [hloop]
      refine ⟨hi', hfront, ?_, hsub.cons e⟩
      rw [hfilter, List.filter_cons_of_neg (by simp)]
      -- no number after the front is the front
      apply List.filter_congr
      intro x hx
      have hxe : x ≠ e := (ne_of_lt (hsorted.1 x hx)).symm
      simp [hxe]
    · have hloop : popErasedLoop (f :: rest) (e :: es) = (f :: rest, e :: es) := by
        simp only [popErasedLoop, hle, if_false]
      rw [hloop]
      refine ⟨⟨List.pairwise_cons.mpr hsorted, List.pairwise_cons.mpr hes, List.nodup_cons.mpr hnodup, hmem⟩,
        ?_, rfl, List.Sublist.refl _⟩
      intro f' hf' x hx
      have hff : f' = f := by simpa using hf'.symm
      subst hff
      rcases List.mem_cons.mp hx with rfl | hx
      · exact lt_of_not_ge hle
      · exact lt_of_lt_of_le (lt_of_not_ge hle) (hes.1 x hx)

/-- the second loop of `pop` does nothing: once the deque is empty so is the erased heap -/
theorem drain_eq_of_erasedIn {heap erased : List ℕ} (hi : ErasedIn heap erased) :
    (if heap.isEmpty then [] else erased) = erased := by
  cases heap with
  | nil =>
    cases erased with
    | nil => rfl
    | cons e _ => exact absurd (hi.erasedMem e (List.mem_cons_self ..)) List.not_mem_nil
  | cons f rest => rfl

theorem pop_eq (h : PreparedHeap) :
    h.pop = ⟨(popErasedLoop h.heap.tail h.erasedHeap).1,
      if (popErasedLoop h.heap.tail h.erasedHeap).1.isEmpty then [] else (popErasedLoop h.heap.tail h.erasedHeap).2,
      (popErasedLoop h.heap.tail h.erasedHeap).1.head?.getD kMaxSequenceNumber⟩ := rfl

/-- a pop of the least live number -/
theorem represents_pop (hr : h.Represents s) (hne : s.Allows .pop) : h.pop.Represents (s.step .pop) := by
  obtain ⟨f, rest, hh⟩ : ∃ f rest, h.heap = f :: rest := by
    cases hh : h.heap with
    | nil => exact absurd (by simpa [hh] using hr.live) hne
    | cons f rest => exact ⟨f, rest, rfl⟩
  have hf : f ∉ h.erasedHeap := fun he => lt_irrefl f (hr.frontLive f (by simp [hh]) f he)
  have hrest : ErasedIn rest h.erasedHeap := by
    have hsorted := hr.erasedIn.sorted
    rw [hh, List.pairwise_cons] at hsorted
    refine ⟨hsorted.2, hr.erasedIn.erasedSorted, hr.erasedIn.erasedNodup, fun x hx => ?_⟩
    have hx' := hr.erasedIn.erasedMem x hx
    rw [hh] at hx'
    rcases List.mem_cons.mp hx' with rfl | hx'
    · exact absurd hx hf
    · exact hx'
  -- the spec drops the least live number, the front
  have hmin : s.live.min? = some f := by rw [hr.min?_live, hh, List.head?_cons]
  have hstep : s.step .pop = ⟨rest.filter (· ∉ h.erasedHeap), s.pushed⟩ := by
    simp only [LiveSeqs.step, hmin]
    rw [hr.live_of_cons hh, List.erase_cons_head]
  obtain ⟨hi', hfront, hfilter, hsub⟩ := popErasedLoop_spec hrest
  have hsub' : ∀ x ∈ (popErasedLoop rest h.erasedHeap).1, x ∈ h.heap := fun x hx => by
    rw [hh]
    exact List.mem_cons_of_mem f (hsub.subset hx)
  rw [hstep, pop_eq, hh, List.tail_cons, drain_eq_of_erasedIn hi']
  constructor
  · exact hi'
  · exact hfront
  · exact hfilter.symm
  · rfl
  · exact fun x hx => hr.pushed x (hsub' x hx)
  · exact fun x hx => hr.bound x (hsub' x hx)

/-! ## Erase -/

/-- an erase of a live number: the top is popped, and a number further down is recorded -/
theorem represents_erase (hr : h.Represents s) {v : ℕ} (hv : s.Allows (.erase v)) :
    (h.erase v).Represents (s.step (.erase v)) := by
  have hv : v ∈ s.live := hv
  obtain ⟨f, rest, hh⟩ : ∃ f rest, h.heap = f :: rest := by
    cases hh : h.heap with
    | nil => exact absurd hv (by simp [hr.live, hh])
    | cons f rest => exact ⟨f, rest, rfl⟩
  have hvlive : v ∈ h.heap.filter (· ∉ h.erasedHeap) := hr.live ▸ hv
  have hvheap : v ∈ h.heap := List.mem_of_mem_filter hvlive
  have hvE : v ∉ h.erasedHeap := by simpa using (List.mem_filter.mp hvlive).2
  have htop : h.top = f := by rw [PreparedHeap.top, hr.top, hh, List.head?_cons, Option.getD_some]
  -- the front is below `kMaxSequenceNumber`, so the cache does not read as empty
  have hnonempty : h.empty = false := by
    have hb := hr.bound f (by simp [hh])
    simp only [empty, htop, beq_eq_false_iff_ne]
    exact ne_of_lt hb
  have hfv : f ≤ v := by
    rw [hh] at hvheap
    have hsorted := hr.erasedIn.sorted
    rw [hh, List.pairwise_cons] at hsorted
    rcases List.mem_cons.mp hvheap with rfl | hv'
    · exact le_rfl
    · exact (hsorted.1 v hv').le
  rcases eq_or_lt_of_le hfv with rfl | hlt
  · -- erasing the top is a pop, and so is erasing the least live number
    have herase : h.erase f = h.pop := by simp [erase, hnonempty, htop]
    have hstep : s.step (.erase f) = s.step .pop := by
      simp only [LiveSeqs.step, hr.min?_live, hh, List.head?_cons]
    rw [herase, hstep]
    exact represents_pop hr (List.ne_nil_of_mem hv)
  · have herase : h.erase v = { h with erasedHeap := h.erasedHeap.orderedInsert (· ≤ ·) v } := by
      simp [erase, hnonempty, htop, not_lt.mpr hfv, ne_of_lt hlt]
    have hmemIns : ∀ x, x ∈ h.erasedHeap.orderedInsert (· ≤ ·) v ↔ x = v ∨ x ∈ h.erasedHeap := fun x =>
      (List.perm_orderedInsert (· ≤ ·) v h.erasedHeap).mem_iff.trans List.mem_cons
    have hnodupLive : (h.heap.filter (· ∉ h.erasedHeap)).Nodup :=
      hr.erasedIn.sorted.nodup.filter _
    rw [herase]
    constructor
    · refine ⟨hr.erasedIn.sorted, hr.erasedIn.erasedSorted.orderedInsert v,
        (List.perm_orderedInsert (· ≤ ·) v h.erasedHeap).nodup_iff.mpr
          (List.nodup_cons.mpr ⟨hvE, hr.erasedIn.erasedNodup⟩), fun x hx => ?_⟩
      rcases (hmemIns x).mp hx with rfl | hx
      · exact hvheap
      · exact hr.erasedIn.erasedMem x hx
    · intro f' hf' x hx
      have hff : f' = f := by simpa [hh] using hf'.symm
      subst hff
      rcases (hmemIns x).mp hx with rfl | hx
      · exact hlt
      · exact hr.frontLive f' (by simp [hh]) x hx
    · show s.live.erase v = h.heap.filter (· ∉ h.erasedHeap.orderedInsert (· ≤ ·) v)
      -- the live numbers are distinct, so erasing one is filtering it out
      rw [hr.live, hnodupLive.erase_eq_filter, List.filter_filter]
      apply List.filter_congr
      intro x _
      by_cases hx : x = v <;> simp [hmemIns, hx]
    · exact hr.top
    · exact hr.pushed
    · exact hr.bound

/-! ## Runs -/

theorem represents_apply (hr : h.Represents s) {op : PreparedHeapOp} (hop : s.Allows op)
    (hb : ∀ v, op = .push v → v < kMaxSequenceNumber) : (h.apply op).Represents (s.step op) := by
  cases op with
  | push v => exact represents_push hr hop (hb v rfl)
  | pop => exact represents_pop hr hop
  | erase v => exact represents_erase hr hop

/-- an allowed run of pushes of numbers below `kMaxSequenceNumber`, pops and erases keeps the heap standing for the
live numbers -/
theorem represents_run : ∀ {ops : List PreparedHeapOp} {h : PreparedHeap} {s : LiveSeqs}, h.Represents s →
    s.AllowsAll ops → (∀ v, PreparedHeapOp.push v ∈ ops → v < kMaxSequenceNumber) → (h.run ops).Represents (s.run ops)
  | [], _, _, hr, _, _ => hr
  | op :: ops, h, s, hr, ⟨hop, hrest⟩, hb => by
    have hop' := represents_apply hr hop (fun v hv => hb v (hv ▸ List.mem_cons_self ..))
    show ((h.apply op).run ops).Represents ((s.step op).run ops)
    exact represents_run hop' hrest (fun v hv => hb v (List.mem_cons_of_mem op hv))

/-- after each call of an allowed sequence whose pushes are below `kMaxSequenceNumber`, the top is the least number
pushed and not yet popped or erased, or `kMaxSequenceNumber` when none is, and the erased heap holds only numbers
not below the front of the deque -/
theorem preparedHeap_top_tracks_min (ops : List PreparedHeapOp) (hallowed : LiveSeqs.AllowsAll ⟨[], []⟩ ops)
    (hbound : ∀ v, PreparedHeapOp.push v ∈ ops → v < kMaxSequenceNumber) (n : ℕ) :
    (({} : PreparedHeap).run (ops.take n)).top =
        (LiveSeqs.run ⟨[], []⟩ (ops.take n)).live.min?.getD kMaxSequenceNumber ∧
      ∀ e ∈ (({} : PreparedHeap).run (ops.take n)).erasedHeap,
        ∀ f ∈ (({} : PreparedHeap).run (ops.take n)).heap.head?, f ≤ e := by
  have hr := represents_run represents_empty (hallowed.take n)
    (fun v hv => hbound v (List.mem_of_mem_take hv))
  refine ⟨hr.top_eq_min, ?_⟩
  intro e he f hf
  exact (hr.frontLive f hf e he).le

theorem preparedHeap_top_tracks_min_run :
    LiveSeqs.AllowsAll ⟨[], []⟩ [.push 3, .push 5, .push 7, .erase 5, .pop] ∧
      (({} : PreparedHeap).run [.push 3, .push 5, .push 7, .erase 5, .pop]).top = 7 := by
  have hallowed : LiveSeqs.AllowsAll ⟨[], []⟩ [.push 3, .push 5, .push 7, .erase 5, .pop] := by decide
  have hbound : ∀ v, PreparedHeapOp.push v ∈ [.push 3, .push 5, .push 7, .erase 5, .pop] →
      v < kMaxSequenceNumber := by
    intro v hv
    simp only [List.mem_cons, PreparedHeapOp.push.injEq, reduceCtorEq, List.not_mem_nil, or_false] at hv
    rcases hv with rfl | rfl | rfl <;> decide
  refine ⟨hallowed, ?_⟩
  exact (preparedHeap_top_tracks_min _ hallowed hbound 5).1.trans (by decide)

/-- a live `kMaxSequenceNumber` at the top reads as the empty heap, so erasing it is ignored and the top stays below
the least live number -/
theorem preparedHeap_top_tracks_min_counterexample :
    LiveSeqs.AllowsAll ⟨[], []⟩
        [.push kMaxSequenceNumber, .push (kMaxSequenceNumber + 1), .erase kMaxSequenceNumber] ∧
      (({} : PreparedHeap).run
          [.push kMaxSequenceNumber, .push (kMaxSequenceNumber + 1), .erase kMaxSequenceNumber]).top =
        kMaxSequenceNumber ∧
      (LiveSeqs.run ⟨[], []⟩
          [.push kMaxSequenceNumber, .push (kMaxSequenceNumber + 1), .erase kMaxSequenceNumber]).live.min?.getD
          kMaxSequenceNumber = kMaxSequenceNumber + 1 := by
  decide

end PreparedHeap

end ForSt
