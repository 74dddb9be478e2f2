import ForSt.Util.RibbonBandingSpec
/-!
Back substitution solves the band, and the queries read every accepted equation back.

For each result column both back substitutions compute the same bits from the last slot down (`columnState`,
`solution`), and every row of a band holds for them (`backSubstBit_solves`, `rowsHold_solution`). So
`SimpleQueryHelper` returns the result row of each equation of the band, and the interleaved queries, on the segment
layouts `InterleavedBackSubst` asserts, read back the low `num_columns` bits of it.
-/

namespace ForSt.ribbon

open ForSt.Gf2

variable {w r : ℕ}

/-! ## One solution bit -/

/-- the new state of a column is the old one shifted up by a slot, with the new solution bit at the bottom -/
theorem getLsbD_backSubstBit (cr : BitVec w) (rr : BitVec r) (state : BitVec w) (j k : ℕ) :
    (backSubstBit cr rr state j).2.getLsbD k =
      (decide (k < w) && if k = 0 then (backSubstBit cr rr state j).1 else state.getLsbD (k - 1)) := by
  simp only [backSubstBit]
  generalize (bitParity (state <<< 1 &&& cr) ^^ rr.getLsbD j) = b
  simp only [BitVec.getLsbD_or, BitVec.getLsbD_shiftLeft, getLsbD_ofBool_one]
  cases k with
  | zero => cases b <;> simp
  | succ k => simp

/-- with its first coefficient set, a row holds for the new state of a column: `BitParity(tmp & cr) == rr >> j & 1` -/
theorem backSubstBit_solves {cr : BitVec w} (hbit : cr.getLsbD 0 = true) (rr : BitVec r) (state : BitVec w)
    (j : ℕ) : bsum (fun k => cr.getLsbD k && (backSubstBit cr rr state j).2.getLsbD k) w = rr.getLsbD j := by
  obtain ⟨w, rfl⟩ : ∃ w', w = w' + 1 :=
    Nat.exists_eq_add_one.mpr (Nat.pos_of_ne_zero fun h => by subst h; simp at hbit)
  -- the slots above: `tmp = state << 1` has no bit 0, so they are all of `BitParity(tmp & cr)`
  have habove : bitParity ((state <<< 1) &&& cr) = bsum (fun k => cr.getLsbD (k + 1) && state.getLsbD k) w := by
    rw [bitParity_and, bsum_succ', show (state <<< 1).getLsbD 0 = false by simp, Bool.false_and, Bool.false_xor]
    refine bsum_congr fun k hk => ?_
    rw [BitVec.getLsbD_shiftLeft]
    simp [hk, Bool.and_comm]
  have hnew : bsum (fun k => cr.getLsbD (k + 1) && (backSubstBit cr rr state j).2.getLsbD (k + 1)) w =
      bsum (fun k => cr.getLsbD (k + 1) && state.getLsbD k) w :=
    bsum_congr fun k hk => by rw [getLsbD_backSubstBit]; simp [hk]
  rw [bsum_succ', hnew, ← habove, getLsbD_backSubstBit, hbit]
  simp only [backSubstBit]
  cases bitParity (state <<< 1 &&& cr) <;> cases rr.getLsbD j <;> rfl

/-! ## The solution back substitution computes -/

section column

variable (bs : BandingStorage w r)

/-- the state of column `j` once the `n` slots from `i` are solved, from a zero state above them -/
def columnState (j : ℕ) : ℕ → ℕ → BitVec w
  | 0, _ => 0
  | n + 1, i => (backSubstBit (bs.loadRow i true).1 (bs.loadRow i true).2 (columnState j n (i + 1)) j).2

/-- the state of column `j` at slot `i`, solving from the last slot down -/
def window (j i : ℕ) : BitVec w := columnState bs j (numSlots bs - i) i

/-- the solution bit of slot `s` in column `j` -/
def solution (s j : ℕ) : Bool :=
  (backSubstBit (bs.loadRow s true).1 (bs.loadRow s true).2 (window bs j (s + 1)) j).1

theorem window_numSlots (j : ℕ) : window bs j (numSlots bs) = 0 := by
  rw [window, Nat.sub_self, columnState]

theorem window_of_lt {s : ℕ} (hs : s < numSlots bs) (j : ℕ) :
    window bs j s = (backSubstBit (bs.loadRow s true).1 (bs.loadRow s true).2 (window bs j (s + 1)) j).2 := by
  rw [window, show numSlots bs - s = numSlots bs - (s + 1) + 1 by omega, columnState]
  rfl

/-- bit `k` of the state at slot `s` is the solution bit of slot `s + k` -/
theorem getLsbD_window {s k : ℕ} (hk : k < w) (hs : s + k < numSlots bs) (j : ℕ) :
    (window bs j s).getLsbD k = solution bs (s + k) j := by
  induction k generalizing s with
  | zero =>
    rw [window_of_lt bs (by omega), getLsbD_backSubstBit]
    simp [hk, solution]
  | succ k ih =>
    rw [window_of_lt bs (by omega), getLsbD_backSubstBit, if_neg (Nat.succ_ne_zero k), Nat.add_sub_cancel,
      ih (by omega) (by omega), Nat.add_right_comm, Nat.add_assoc]
    simp [hk]

theorem loadRow_of_ne_zero {s : ℕ} (he : (bs.rows s).1 ≠ 0) : bs.loadRow s true = bs.rows s := by
  rw [BandingStorage.loadRow, if_neg (by simpa using he)]

/-- every row of the band holds for the solution -/
theorem rowsHold_solution (hv : Valid bs) (j : ℕ) : RowsHold bs (solution bs) j := by
  intro s
  by_cases he : (bs.rows s).1 = 0
  · exact hv.satisfies_of_empty he _ j
  have hbit := hv.pivot s he
  have hs : s < numSlots bs := by simpa using hv.fits s 0 hbit
  have hsolve := backSubstBit_solves hbit (bs.rows s).2 (window bs j (s + 1)) j
  rw [← loadRow_of_ne_zero bs he, ← window_of_lt bs hs] at hsolve
  rw [loadRow_of_ne_zero bs he] at hsolve
  rw [Satisfies, ← hsolve]
  -- the coefficients set lie below `num_slots`, where the state is the solution
  refine bsum_congr fun k hk => ?_
  cases hc : (bs.rows s).1.getLsbD k
  · rfl
  · rw [getLsbD_window bs hk (hv.fits s k hc)]

/-! ## `SimpleBackSubst` and `SimpleQueryHelper` -/

/-- the `j` loop of one row: each column's solution bit and new state -/
theorem simpleBackSubstRow_spec (cr : BitVec w) (rr : BitVec r) (state : ℕ → BitVec w) {j : ℕ} (hj : j < r) :
    (simpleBackSubstRow cr rr state).1 j = (backSubstBit cr rr (state j) j).2 ∧
      (simpleBackSubstRow cr rr state).2.getLsbD j = (backSubstBit cr rr (state j) j).1 := by
  -- the columns below `n` are done, the others untouched
  have hloop := foldl_range_induction
    (fun n (acc : (ℕ → BitVec w) × BitVec r) => ∀ j < r,
      acc.1 j = (if j < n then (backSubstBit cr rr (state j) j).2 else state j) ∧
        acc.2.getLsbD j = (decide (j < n) && (backSubstBit cr rr (state j) j).1))
    (fun (acc : (ℕ → BitVec w) × BitVec r) j =>
      (Function.update acc.1 j (backSubstBit cr rr (acc.1 j) j).2,
        acc.2 ||| ((if (backSubstBit cr rr (acc.1 j) j).1 then 1 else 0) <<< j)))
    (state, 0) (fun j _ => by simp) ?_ r j hj
  · rw [if_pos hj, decide_eq_true hj, Bool.true_and] at hloop
    exact hloop
  · intro n acc ih j hj
    obtain ⟨h1, h2⟩ := ih j hj
    rcases hb : backSubstBit cr rr (acc.1 n) n with ⟨bit, tmp⟩
    dsimp only
    rw [BitVec.getLsbD_or, getLsbD_ofBool_shiftLeft, h2]
    by_cases hjn : j = n
    · -- the column of this round: its state was the initial one
      subst hjn
      rw [if_neg (Nat.lt_irrefl j)] at h1
      rw [h1] at hb
      simp [hb, hj]
    · have hlt : (j < n + 1) ↔ (j < n) := by omega
      simp [h1, hjn, hlt]

theorem simpleBackSubstLoop_succ (i : ℕ) (state : ℕ → BitVec w) (sol : ℕ → BitVec r) :
    simpleBackSubstLoop bs (i + 1) state sol =
      simpleBackSubstLoop bs i (simpleBackSubstRow (bs.loadRow i true).1 (bs.loadRow i true).2 state).1
        (Function.update sol i (simpleBackSubstRow (bs.loadRow i true).1 (bs.loadRow i true).2 state).2) := rfl

/-- the `i` loop of `SimpleBackSubst` from slot `i` down: with each column's state at `i`, it stores the solution
below `i` and leaves the rows from `i` up -/
theorem simpleBackSubstLoop_spec {i : ℕ} (hi : i ≤ numSlots bs) (state : ℕ → BitVec w)
    (hstate : ∀ j < r, state j = window bs j i) (sol : ℕ → BitVec r) :
    (∀ s, i ≤ s → simpleBackSubstLoop bs i state sol s = sol s) ∧
      ∀ s < i, ∀ j < r, (simpleBackSubstLoop bs i state sol s).getLsbD j = solution bs s j := by
  induction i generalizing state sol with
  | zero => exact ⟨fun _ _ => rfl, fun s hs => absurd hs (Nat.not_lt_zero s)⟩
  | succ i ih =>
    rw [simpleBackSubstLoop_succ]
    have hrow := fun j (hj : j < r) =>
      simpleBackSubstRow_spec (bs.loadRow i true).1 (bs.loadRow i true).2 state hj
    -- the row at `i` moves each column's state down a slot
    have hstate' : ∀ j < r,
        (simpleBackSubstRow (bs.loadRow i true).1 (bs.loadRow i true).2 state).1 j = window bs j i := by
      intro j hj
      rw [(hrow j hj).1, hstate j hj]
      exact (window_of_lt bs (by omega : i < numSlots bs) j).symm
    obtain ⟨habove, hbelow⟩ := ih (by omega) _ hstate' (Function.update sol i _)
    refine ⟨fun s hs => ?_, fun s hs j hj => ?_⟩
    · rw [habove s (by omega), Function.update_of_ne (by omega)]
    · rcases Nat.lt_succ_iff_lt_or_eq.mp hs with hs | rfl
      · exact hbelow s hs j hj
      · rw [habove s (Nat.le_refl _), Function.update_self, (hrow j hj).2, hstate j hj]
        rfl

/-- `SimpleBackSubst` stores the solution in the rows below `num_slots` -/
theorem simpleBackSubst_rows (sss : SimpleSolutionStorage r) {s j : ℕ} (hs : s < numSlots bs) (hj : j < r) :
    ((simpleBackSubst sss bs).rows s).getLsbD j = solution bs s j :=
  (simpleBackSubstLoop_spec bs (Nat.le_refl _) (fun _ => 0) (fun j _ => (window_numSlots bs j).symm) sss.rows).2 s hs j hj

end column

/-- bit `j` of `SimpleQueryHelper`: the sum over the coefficients set of the solution rows' bit `j` -/
theorem getLsbD_simpleQueryHelper (startSlot : ℕ) (cr : BitVec w) (sss : SimpleSolutionStorage r) {j : ℕ}
    (hj : j < r) :
    (simpleQueryHelper startSlot cr sss).getLsbD j =
      bsum (fun k => cr.getLsbD k && (sss.rows (startSlot + k)).getLsbD j) w := by
  refine foldl_range_induction
    (fun n (result : BitVec r) => ∀ j < r,
      result.getLsbD j = bsum (fun k => cr.getLsbD k && (sss.rows (startSlot + k)).getLsbD j) n)
    _ 0 (fun j _ => by simp) ?_ w j hj
  intro n result ih j hj
  -- `0 - (cr >> i & 1)` is all ones when bit `i` of `cr` is set, and zero when not
  have hmask : (0 - ((cr >>> n).setWidth r &&& 1)).getLsbD j = cr.getLsbD n := by
    rw [and_one_eq_ofBool, BitVec.getLsbD_setWidth, BitVec.getLsbD_ushiftRight, Nat.add_zero,
      decide_eq_true (by omega : 0 < r), Bool.true_and, getLsbD_zero_sub_ofBool _ hj]
  rw [BitVec.getLsbD_xor, BitVec.getLsbD_and, hmask, ih j hj, bsum_succ, Bool.and_comm (cr.getLsbD n)]

/-- `SimpleQueryHelper` after `SimpleBackSubst` gives the result row of every equation that fits and holds for the
solution -/
theorem simpleQueryHelper_simpleBackSubst (bs : BandingStorage w r) (sss : SimpleSolutionStorage r) {start : ℕ}
    {cr : BitVec w} {rr : BitVec r} (hfit : Fits (numSlots bs) start cr)
    (hsat : ∀ j, Satisfies (solution bs) start cr rr j) :
    simpleQueryHelper start cr (simpleBackSubst sss bs) = rr := by
  apply BitVec.eq_of_getLsbD_eq
  intro j hj
  have hcol := hsat j
  unfold Satisfies at hcol
  rw [getLsbD_simpleQueryHelper _ _ _ hj, ← hcol]
  refine bsum_congr fun k _ => ?_
  cases hc : cr.getLsbD k
  · rfl
  · rw [simpleBackSubst_rows bs sss (hfit k hc) hj]


/-! ## The interleaved layout -/

section layout

variable (b u : ℕ)

/-- the first segment of block `B`, with `b` columns from block `u` up and `b - 1` below it -/
def segmentStart (B : ℕ) : ℕ := B * b - min B u

/-- the columns of block `B` -/
def numColumnsAt (B : ℕ) : ℕ := b - (if B < u then 1 else 0)

theorem segmentStart_succ (B : ℕ) : segmentStart b u (B + 1) = segmentStart b u B + numColumnsAt b u B := by
  unfold segmentStart numColumnsAt
  rw [Nat.succ_mul]
  have hB : (0 < b ∧ B ≤ B * b) ∨ (b = 0 ∧ B * b = 0) := by
    rcases Nat.eq_zero_or_pos b with hb | hb
    · exact Or.inr ⟨hb, by rw [hb, Nat.mul_zero]⟩
    · exact Or.inl ⟨hb, Nat.le_mul_of_pos_right B hb⟩
  generalize B * b = m at hB ⊢
  by_cases h : B < u
  · rw [if_pos h, Nat.min_eq_left (by omega : B + 1 ≤ u), Nat.min_eq_left (by omega : B ≤ u)]
    omega
  · rw [if_neg h, Nat.min_eq_right (by omega : u ≤ B + 1), Nat.min_eq_right (by omega : u ≤ B)]
    omega

theorem segmentStart_le {B B' : ℕ} (h : B ≤ B') : segmentStart b u B ≤ segmentStart b u B' := by
  obtain ⟨d, rfl⟩ := Nat.exists_eq_add_of_le h
  induction d with
  | zero => exact Nat.le_refl _
  | succ d ih =>
    rw [← Nat.add_assoc, segmentStart_succ]
    exact Nat.le_trans (ih (Nat.le_add_right B d)) (Nat.le_add_right _ _)

theorem numColumnsAt_le {B B' : ℕ} (h : B ≤ B') : numColumnsAt b u B ≤ numColumnsAt b u B' := by
  unfold numColumnsAt
  split <;> split <;> omega

end layout

/-- `InterleavedPrepareQuery` reads the block of the start slot, its first segment and columns, and the offset -/
theorem interleavedPrepareQuery_eq {AddInput Hash : Type} (hasher : BandingHasher AddInput Hash w r)
    (iss : InterleavedSolutionStorage w) (hash : Hash) :
    interleavedPrepareQuery hasher iss hash =
      (segmentStart iss.upperNumColumns iss.upperStartBlock (hasher.getStart hash iss.numStarts / w),
        numColumnsAt iss.upperNumColumns iss.upperStartBlock (hasher.getStart hash iss.numStarts / w),
        hasher.getStart hash iss.numStarts % w) := rfl

/-! ## `InterleavedBackSubst` -/

/-- storing the words `st i` at `base + i` for `i < c` -/
theorem foldl_update_range (base c : ℕ) (st segments : ℕ → BitVec w) (s : ℕ) :
    (List.range c).foldl (fun segments i => Function.update segments (base + i) (st i)) segments s =
      if base ≤ s ∧ s < base + c then st (s - base) else segments s := by
  refine foldl_range_induction
    (fun n (sg : ℕ → BitVec w) => ∀ s, sg s = if base ≤ s ∧ s < base + n then st (s - base) else segments s)
    _ segments (fun s => by rw [if_neg (by omega)]) ?_ c s
  intro n sg ih s
  by_cases hs : s = base + n
  · subst hs
    simp
  · have hlt : (base ≤ s ∧ s < base + (n + 1)) ↔ (base ≤ s ∧ s < base + n) := by omega
    rw [Function.update_of_ne hs, ih s]
    simp only [hlt]

theorem blocksLeft_eq_min (block lastBlock : ℕ) : blocksLeft block lastBlock = min block lastBlock := by
  unfold blocksLeft
  rw [Nat.min_def]

section blocks

variable (bs : BandingStorage w r)

/-- the `j` loop of `BackSubstBlock` for one row moves the first `numColumns` columns down a slot -/
theorem backSubstBlockRow_apply (cr : BitVec w) (rr : BitVec r) (numColumns : ℕ) (state : ℕ → BitVec w) (j : ℕ) :
    backSubstBlockRow cr rr numColumns state j =
      if j < numColumns then (backSubstBit cr rr (state j) j).2 else state j := by
  refine foldl_range_induction
    (fun n (st : ℕ → BitVec w) => ∀ j, st j = if j < n then (backSubstBit cr rr (state j) j).2 else state j)
    _ state (fun j => by simp) ?_ numColumns j
  intro n st ih j
  by_cases hjn : j = n
  · subst hjn
    rw [Function.update_self, ih j, if_neg (Nat.lt_irrefl j), if_pos (Nat.lt_succ_self j)]
  · have hlt : (j < n + 1) ↔ (j < n) := by omega
    rw [Function.update_of_ne hjn, ih j]
    simp only [hlt]

theorem backSubstBlockLoop_succ (numColumns startSlot n : ℕ) (state : ℕ → BitVec w) :
    backSubstBlockLoop bs numColumns startSlot (n + 1) state =
      backSubstBlockLoop bs numColumns startSlot n
        (backSubstBlockRow (bs.loadRow (startSlot + n) true).1 (bs.loadRow (startSlot + n) true).2 numColumns state) :=
  rfl

/-- the `i` loop of `BackSubstBlock` over the `n` slots from `startSlot`: the first `numColumns` columns go from
their state at `startSlot + n` to their state at `startSlot`, and the others are left -/
theorem backSubstBlockLoop_apply (numColumns startSlot : ℕ) {n : ℕ} (hn : startSlot + n ≤ numSlots bs)
    (state : ℕ → BitVec w) (hstate : ∀ j < numColumns, state j = window bs j (startSlot + n)) (j : ℕ) :
    backSubstBlockLoop bs numColumns startSlot n state j =
      if j < numColumns then window bs j startSlot else state j := by
  induction n generalizing state with
  | zero =>
    by_cases hj : j < numColumns
    · rw [if_pos hj]
      exact hstate j hj
    · rw [if_neg hj]
      rfl
  | succ n ih =>
    rw [backSubstBlockLoop_succ]
    have hrow : ∀ j < numColumns, backSubstBlockRow (bs.loadRow (startSlot + n) true).1
        (bs.loadRow (startSlot + n) true).2 numColumns state j = window bs j (startSlot + n) := by
      intro j hj
      rw [backSubstBlockRow_apply, if_pos hj, hstate j hj]
      exact (window_of_lt bs (by omega) j).symm
    rw [ih (by omega) _ hrow, backSubstBlockRow_apply]
    by_cases hj : j < numColumns <;> simp [hj]

/-- a `while (block > ...)` loop of `InterleavedBackSubst` from block `B` down, each block with `c` columns: it
stores each block's columns at the block's segments and touches no other segment -/
theorem interleavedBackSubstBlocks_spec (b u c lastBlock : ℕ) {B : ℕ} (hB : B * w ≤ numSlots bs)
    (hc : ∀ B', lastBlock ≤ B' → B' < B → numColumnsAt b u B' = c) {state : ℕ → BitVec w}
    (hstate : ∀ j < c, state j = window bs j (B * w)) {segments : ℕ → BitVec w} {state' : ℕ → BitVec w}
    {segmentNum' : ℕ} {segments' : ℕ → BitVec w}
    (hres : interleavedBackSubstBlocks bs c lastBlock B state (segmentStart b u B) segments =
      (state', segmentNum', segments')) :
    (∀ j < c, state' j = window bs j (blocksLeft B lastBlock * w)) ∧
      segmentNum' = segmentStart b u (blocksLeft B lastBlock) ∧
      (∀ B', blocksLeft B lastBlock ≤ B' → B' < B → ∀ j < c,
        segments' (segmentStart b u B' + j) = window bs j (B' * w)) ∧
      ∀ s, (s < segmentStart b u (blocksLeft B lastBlock) ∨ segmentStart b u B ≤ s) → segments' s = segments s := by
  induction B generalizing state segments with
  | zero =>
    simp only [interleavedBackSubstBlocks, Prod.mk.injEq] at hres
    obtain ⟨rfl, rfl, rfl⟩ := hres
    have h0 : blocksLeft 0 lastBlock = 0 := by rw [blocksLeft_eq_min, Nat.zero_min]
    rw [h0]
    exact ⟨hstate, rfl, fun B' h h' => absurd h' (by omega), fun _ _ => rfl⟩
  | succ B ih =>
    by_cases hL : B + 1 ≤ lastBlock
    · -- already at the last block: nothing to do
      rw [interleavedBackSubstBlocks, if_pos hL, Prod.mk.injEq, Prod.mk.injEq] at hres
      obtain ⟨rfl, rfl, rfl⟩ := hres
      have hbl : blocksLeft (B + 1) lastBlock = B + 1 := if_pos hL
      rw [hbl]
      exact ⟨hstate, rfl, fun B' h h' => absurd h' (by omega), fun _ _ => rfl⟩
    rw [interleavedBackSubstBlocks, if_neg hL] at hres
    have hcB := hc B (by omega) (Nat.lt_succ_self B)
    -- block `B` moves the columns from the bottom of block `B + 1` to its own bottom
    have hst : ∀ j < c, backSubstBlock state c bs (B * w) j = window bs j (B * w) := by
      intro j hj
      have hslots : B * w + w ≤ numSlots bs := by rwa [← Nat.succ_mul]
      rw [backSubstBlock, backSubstBlockLoop_apply bs c (B * w) hslots state
        (fun j hj => by rw [hstate j hj, Nat.succ_mul]), if_pos hj]
    have hsn : segmentStart b u (B + 1) - c = segmentStart b u B := by
      rw [segmentStart_succ, hcB, Nat.add_sub_cancel]
    rw [hsn] at hres
    obtain ⟨h1, h2, h3, h4⟩ := ih (Nat.le_trans (Nat.mul_le_mul_right w (Nat.le_succ B)) hB)
      (fun B' h h' => hc B' h (by omega)) hst hres
    have hbl : blocksLeft (B + 1) lastBlock = blocksLeft B lastBlock := by
      rw [blocksLeft_eq_min, blocksLeft_eq_min]
      omega
    have hle : blocksLeft B lastBlock ≤ B := by
      rw [blocksLeft_eq_min]
      exact Nat.min_le_left B lastBlock
    have hnext : segmentStart b u (B + 1) = segmentStart b u B + c := by rw [segmentStart_succ, hcB]
    rw [hbl]
    refine ⟨h1, h2, fun B' h h' j hj => ?_, fun s hs => ?_⟩
    · rcases Nat.lt_succ_iff_lt_or_eq.mp h' with h' | rfl
      · exact h3 B' h h' j hj
      · rw [h4 _ (Or.inr (Nat.le_add_right _ _)), foldl_update_range, if_pos (by omega), Nat.add_sub_cancel_left,
          hst j hj]
    · have hlow := segmentStart_le b u hle
      rw [h4 s (by omega), foldl_update_range, if_neg (by omega)]

/-- `InterleavedBackSubst` into the segments its asserts ask for: the columns of each block, at the block's segments,
are their states at the bottom of the block -/
theorem interleavedBackSubst_segments (iss : InterleavedSolutionStorage w) (hslots : numSlots bs % w = 0)
    (hsegs : iss.numSegments = segmentStart iss.upperNumColumns iss.upperStartBlock (numSlots bs / w))
    {B j : ℕ} (hB : B < numSlots bs / w) (hj : j < numColumnsAt iss.upperNumColumns iss.upperStartBlock B) :
    (interleavedBackSubst iss bs).segments (segmentStart iss.upperNumColumns iss.upperStartBlock B + j) =
      window bs j (B * w) := by
  have hb : iss.upperNumColumns ≠ 0 := fun h => by simp [numColumnsAt, h] at hj
  have hN : numSlots bs / w * w = numSlots bs := Nat.div_mul_cancel (Nat.dvd_of_mod_eq_zero hslots)
  unfold interleavedBackSubst
  simp only [if_neg hb, show bs.numStarts + w - 1 = numSlots bs from rfl]
  rw [hsegs]
  generalize iss.upperNumColumns = b at hb hj ⊢
  generalize iss.upperStartBlock = u at hj ⊢
  generalize numSlots bs / w = N at hB hN ⊢
  -- the upper blocks, from the last one down to `upper_start_block`, with all `b` columns
  rcases hup : interleavedBackSubstBlocks bs b u N (fun _ => 0) (segmentStart b u N) iss.segments with
    ⟨st1, seg1, sg1⟩
  obtain ⟨hst1, rfl, hup1, hframe1⟩ := interleavedBackSubstBlocks_spec bs b u b u (Nat.le_of_eq hN)
    (fun B' h _ => by simp [numColumnsAt, Nat.not_lt.mpr h]) (fun j _ => by rw [hN, window_numSlots]) hup
  have hbl : blocksLeft N u ≤ N ∧ blocksLeft N u ≤ u := by
    rw [blocksLeft_eq_min]
    omega
  -- then the lower ones with a column fewer
  rcases hlow : interleavedBackSubstBlocks bs (b - 1) 0 (blocksLeft N u) st1 (segmentStart b u (blocksLeft N u)) sg1 with
    ⟨st2, seg2, sg2⟩
  obtain ⟨-, -, hlow1, hframe2⟩ := interleavedBackSubstBlocks_spec bs b u (b - 1) 0
    (Nat.le_trans (Nat.mul_le_mul_right w hbl.1) (Nat.le_of_eq hN))
    (fun B' _ h => by simp [numColumnsAt, show B' < u by omega]) (fun j hj => hst1 j (by omega)) hlow
  have h0 : blocksLeft (blocksLeft N u) 0 = 0 := by rw [blocksLeft_eq_min, Nat.min_zero]
  rw [h0] at hlow1
  dsimp only
  by_cases hBl : B < blocksLeft N u
  · have hc : numColumnsAt b u B = b - 1 := by simp [numColumnsAt, show B < u by omega]
    exact hlow1 B (Nat.zero_le B) hBl j (hc ▸ hj)
  · have hc : numColumnsAt b u B = b := by
      have : ¬ B < u := by
        rw [blocksLeft_eq_min] at hBl
        omega
      simp [numColumnsAt, this]
    rw [hframe2 _ (Or.inr (Nat.le_trans (segmentStart_le b u (Nat.le_of_not_lt hBl)) (Nat.le_add_right _ _)))]
    exact hup1 B (Nat.le_of_not_lt hBl) hB j (hc ▸ hj)

end blocks

/-! ## The interleaved queries -/

section query

variable (bs : BandingStorage w r) {cr : BitVec w} {start : ℕ}

/-- the low part of an interleaved query: the solution bits of the slots from the start to the end of its block -/
theorem bitParity_window_and_shiftLeft (hfit : Fits (numSlots bs) start cr) (hsb : start % w < w) (i : ℕ) :
    bitParity (window bs i (start / w * w) &&& (cr <<< (start % w))) =
      bsum (fun k => cr.getLsbD k && solution bs (start + k) i) (w - start % w) := by
  have hstart : start / w * w + start % w = start := Nat.div_add_mod' start w
  rw [bitParity_and, bsum_split _ (Nat.le_of_lt hsb)]
  -- below the offset `cr << start_bit` has no bits
  rw [bsum_eq_false (fun k hk => by simp [BitVec.getLsbD_shiftLeft, hk]), Bool.false_xor]
  refine bsum_congr fun k hk => ?_
  rw [BitVec.getLsbD_shiftLeft, Nat.add_sub_cancel_left]
  cases hc : cr.getLsbD k
  · simp
  · have hslot := hfit k hc
    rw [getLsbD_window bs (by omega) (by omega), ← Nat.add_assoc, hstart]
    simp [show start % w + k < w by omega]

/-- the high part: the solution bits of the slots of the next block that the equation reaches -/
theorem bitParity_window_and_ushiftRight (hfit : Fits (numSlots bs) start cr) (hsb : start % w < w) (i : ℕ) :
    bitParity (window bs i ((start / w + 1) * w) &&& (cr >>> (w - start % w))) =
      bsum (fun k => cr.getLsbD (w - start % w + k) && solution bs (start + (w - start % w + k)) i) (start % w) := by
  have hstart : start / w * w + start % w = start := Nat.div_add_mod' start w
  rw [bitParity_and, bsum_split _ (Nat.le_of_lt hsb)]
  -- from the offset up `cr >> (kCoeffBits - start_bit)` has no bits
  rw [bsum_eq_false (n := w - start % w) (fun k _ => by
    rw [BitVec.getLsbD_ushiftRight, BitVec.getLsbD_of_ge cr _ (by omega), Bool.and_false]), Bool.xor_false]
  refine bsum_congr fun k hk => ?_
  rw [BitVec.getLsbD_ushiftRight]
  cases hc : cr.getLsbD (w - start % w + k)
  · simp
  · have hslot := hfit _ hc
    rw [getLsbD_window bs (by omega) (by rw [Nat.succ_mul]; omega), Bool.and_comm]
    congr 2
    rw [Nat.succ_mul]
    omega

/-- column `i` of an interleaved query, from the segments of the start's block and, past the start bit, of the next
block, is the sum of the equation's solution bits -/
theorem interleaved_column (b u : ℕ) {segments : ℕ → BitVec w}
    (hseg : ∀ B < numSlots bs / w, ∀ j < numColumnsAt b u B,
      segments (segmentStart b u B + j) = window bs j (B * w))
    (hslots : numSlots bs % w = 0) (hstart : start < bs.numStarts) {rr : BitVec r} {i : ℕ}
    (hsat : Satisfies (solution bs) start cr rr i) (hi : i < numColumnsAt b u (start / w)) :
    (bitParity (segments (segmentStart b u (start / w) + i) &&& (cr <<< (start % w))) ^^
      (decide (0 < start % w) && bitParity (segments (segmentStart b u (start / w) + numColumnsAt b u (start / w) + i)
        &&& (cr >>> (w - start % w))))) = rr.getLsbD i := by
  unfold Satisfies at hsat
  rcases Nat.eq_zero_or_pos w with rfl | hw
  · -- no coefficients: both sides are empty sums
    simp [bitParity, ← hsat]
  have hsb : start % w < w := Nat.mod_lt start hw
  have hfit := fits_of_start_lt hstart cr
  have hN : numSlots bs / w * w = numSlots bs := Nat.div_mul_cancel (Nat.dvd_of_mod_eq_zero hslots)
  have hdiv : start / w * w + start % w = start := Nat.div_add_mod' start w
  -- the equation's slots end below `num_slots`, in the start's block or the next one
  have hend : start + w ≤ numSlots bs := by unfold numSlots; omega
  have hB : start / w < numSlots bs / w := Nat.lt_of_mul_lt_mul_right (a := w) (by omega)
  rw [hseg _ hB i hi, bitParity_window_and_shiftLeft bs hfit hsb i]
  have hright : (decide (0 < start % w) &&
      bitParity (segments (segmentStart b u (start / w) + numColumnsAt b u (start / w) + i) &&&
        (cr >>> (w - start % w)))) =
      bsum (fun k => cr.getLsbD (w - start % w + k) && solution bs (start + (w - start % w + k)) i) (start % w) := by
    rcases Nat.eq_zero_or_pos (start % w) with h0 | hpos
    · rw [h0]
      simp
    · have hB1 : start / w + 1 < numSlots bs / w := Nat.lt_of_mul_lt_mul_right (a := w) (by rw [Nat.succ_mul]; omega)
      rw [decide_eq_true hpos, Bool.true_and, ← segmentStart_succ,
        hseg _ hB1 i (Nat.lt_of_lt_of_le hi (numColumnsAt_le b u (Nat.le_succ _))),
        bitParity_window_and_ushiftRight bs hfit hsb i]
  rw [hright, ← hsat, bsum_split _ (Nat.sub_le w (start % w)), Nat.sub_sub_self (Nat.le_of_lt hsb)]

variable {AddInput Hash : Type}

/-- bit `i` of `InterleavedPhsfQuery`: the sum of column `i`, for the columns it reads -/
theorem getLsbD_interleavedPhsfQuery (hash : Hash) (segmentNum numColumns startBit : ℕ)
    (hasher : BandingHasher AddInput Hash w r) (iss : InterleavedSolutionStorage w) (i : ℕ) :
    (interleavedPhsfQuery hash segmentNum numColumns startBit hasher iss).getLsbD i =
      (decide (i < numColumns) && decide (i < r) &&
        (bitParity (iss.segments (segmentNum + i) &&& (hasher.getCoeffRow hash <<< startBit)) ^^
          (decide (0 < startBit) && bitParity (iss.segments (segmentNum + numColumns + i) &&&
            (hasher.getCoeffRow hash >>> (w - startBit)))))) := by
  unfold interleavedPhsfQuery
  split
  · rename_i hsb
    rw [getLsbD_foldl_xor_bit, getLsbD_foldl_xor_bit]
    cases decide (i < numColumns) <;> cases decide (i < r) <;> simp [hsb]
  · rename_i hsb
    rw [getLsbD_foldl_xor_bit]
    simp [hsb]

/-- `InterleavedFilterQuery` compares the sum of each column it reads with the expected result row -/
theorem interleavedFilterQuery_eq (hash : Hash) (segmentNum numColumns startBit : ℕ)
    (hasher : BandingHasher AddInput Hash w r) (iss : InterleavedSolutionStorage w) :
    interleavedFilterQuery hash segmentNum numColumns startBit hasher iss =
      (List.range numColumns).all fun i =>
        (bitParity (iss.segments (segmentNum + i) &&& (hasher.getCoeffRow hash <<< startBit)) ^^
          (decide (0 < startBit) && bitParity (iss.segments (segmentNum + numColumns + i) &&&
            (hasher.getCoeffRow hash >>> (w - startBit))))) == (hasher.getResultRowFromHash hash).getLsbD i := by
  unfold interleavedFilterQuery
  split
  · rename_i hsb
    subst hsb
    simp
  · rename_i hsb
    simp [bitParity_xor, Nat.pos_of_ne_zero hsb]

@[simp] theorem interleavedBackSubst_numStarts (iss : InterleavedSolutionStorage w) :
    (interleavedBackSubst iss bs).numStarts = bs.numStarts := by
  unfold interleavedBackSubst
  dsimp only
  split <;> rfl

@[simp] theorem interleavedBackSubst_upperNumColumns (iss : InterleavedSolutionStorage w) :
    (interleavedBackSubst iss bs).upperNumColumns = iss.upperNumColumns := by
  unfold interleavedBackSubst
  dsimp only
  split <;> rfl

@[simp] theorem interleavedBackSubst_upperStartBlock (iss : InterleavedSolutionStorage w) :
    (interleavedBackSubst iss bs).upperStartBlock = iss.upperStartBlock := by
  unfold interleavedBackSubst
  dsimp only
  split <;> rfl

/-- after `InterleavedBackSubst` into the segments its asserts ask for, the prepared queries of an equation that holds
for the solution read its result row in the columns of its block -/
theorem interleavedQueries_of_satisfies (iss : InterleavedSolutionStorage w) (hslots : numSlots bs % w = 0)
    (hsegs : iss.numSegments = segmentStart iss.upperNumColumns iss.upperStartBlock (numSlots bs / w))
    (hasher : BandingHasher AddInput Hash w r) (hash : Hash)
    (hstart : hasher.getStart hash bs.numStarts < bs.numStarts) {rr : BitVec r}
    (hsat : ∀ i, Satisfies (solution bs) (hasher.getStart hash bs.numStarts) (hasher.getCoeffRow hash) rr i)
    {segmentNum numColumns startBit : ℕ}
    (hq : interleavedPrepareQuery hasher (interleavedBackSubst iss bs) hash = (segmentNum, numColumns, startBit)) :
    (∀ i, (interleavedPhsfQuery hash segmentNum numColumns startBit hasher (interleavedBackSubst iss bs)).getLsbD i =
      (decide (i < numColumns) && rr.getLsbD i)) ∧
    (interleavedFilterQuery hash segmentNum numColumns startBit hasher (interleavedBackSubst iss bs) = true ↔
      ∀ i < numColumns, rr.getLsbD i = (hasher.getResultRowFromHash hash).getLsbD i) := by
  rw [interleavedPrepareQuery_eq, interleavedBackSubst_numStarts, interleavedBackSubst_upperNumColumns,
    interleavedBackSubst_upperStartBlock, Prod.mk.injEq, Prod.mk.injEq] at hq
  obtain ⟨rfl, rfl, rfl⟩ := hq
  have hcol := fun i (hi : i < numColumnsAt iss.upperNumColumns iss.upperStartBlock
      (hasher.getStart hash bs.numStarts / w)) =>
    interleaved_column bs iss.upperNumColumns iss.upperStartBlock
      (fun B hB j hj => interleavedBackSubst_segments bs iss hslots hsegs hB hj) hslots hstart (hsat i) hi
  refine ⟨fun i => ?_, ?_⟩
  · rw [getLsbD_interleavedPhsfQuery]
    by_cases hi : i < numColumnsAt iss.upperNumColumns iss.upperStartBlock (hasher.getStart hash bs.numStarts / w)
    · by_cases hir : i < r
      · rw [hcol i hi]
        simp [hi, hir]
      · simp [hir, BitVec.getLsbD_of_ge rr i (by omega)]
    · simp [hi]
  · rw [interleavedFilterQuery_eq, List.all_eq_true]
    simp only [List.mem_range, beq_iff_eq]
    constructor
    · intro h i hi
      rw [← hcol i hi]
      exact h i hi
    · intro h i hi
      rw [hcol i hi]
      exact h i hi

end query

/-! ## Banding, then solving -/

variable {AddInput Hash : Type}

/-- `BandingAddRange` from a band, then back substitution: on success `SimpleQueryHelper` gives every input's result
row, and the interleaved queries, prepared for the input, give its result row in the columns of the start's block
(`InterleavedPhsfQuery`) and accept it when its result row from the input is zero (`InterleavedFilterQuery`), for a
segment layout as `InterleavedBackSubst` asserts it; on failure with backtracking the band is the one before -/
theorem bandingAddRange_backSubst_queries (useBacktrack : Bool) {bs : BandingStorage w r} (hv : Valid bs)
    (bh : BandingHasher AddInput Hash w r) (inputs : List AddInput)
    (hin : ∀ x ∈ inputs, inputStart bh bs.numStarts x < bs.numStarts ∧ (inputCoeffRow bh x).getLsbD 0 = true) :
    ((bandingAddRange useBacktrack bs bh inputs).1 = true →
      (∀ (sss : SimpleSolutionStorage r), ∀ x ∈ inputs,
        simpleQueryHelper (inputStart bh bs.numStarts x) (inputCoeffRow bh x)
          (simpleBackSubst sss (bandingAddRange useBacktrack bs bh inputs).2) = inputResultRow bh x) ∧
      ∀ (iss : InterleavedSolutionStorage w), numSlots bs % w = 0 →
        iss.numSegments = segmentStart iss.upperNumColumns iss.upperStartBlock (numSlots bs / w) →
        ∀ x ∈ inputs, ∀ segmentNum numColumns startBit,
          interleavedPrepareQuery bh (interleavedBackSubst iss (bandingAddRange useBacktrack bs bh inputs).2)
            (bh.getHash x) = (segmentNum, numColumns, startBit) →
          (∀ i, (interleavedPhsfQuery (bh.getHash x) segmentNum numColumns startBit bh
              (interleavedBackSubst iss (bandingAddRange useBacktrack bs bh inputs).2)).getLsbD i =
            (decide (i < numColumns) && (inputResultRow bh x).getLsbD i)) ∧
          (bh.getResultRowFromInput x = 0 →
            interleavedFilterQuery (bh.getHash x) segmentNum numColumns startBit bh
              (interleavedBackSubst iss (bandingAddRange useBacktrack bs bh inputs).2) = true)) ∧
    ((bandingAddRange useBacktrack bs bh inputs).1 = false → useBacktrack = true →
      (bandingAddRange useBacktrack bs bh inputs).2 = bs) := by
  obtain ⟨hn, hv', hsat, hback⟩ := bandingAddRange_spec bh useBacktrack hv inputs hin
  generalize bandingAddRange useBacktrack bs bh inputs = res at hn hv' hsat hback ⊢
  refine ⟨fun hok => ⟨fun sss x hmem => ?_, fun iss hslots hsegs x hmem segmentNum numColumns startBit hq => ?_⟩,
    hback⟩
  all_goals
    -- each input's equation holds for the solution of the band
    have hx := fun j => hsat hok (solution res.2) j (rowsHold_solution res.2 hv' j) x hmem
    have hstart : inputStart bh bs.numStarts x < res.2.numStarts := by rw [hn]; exact (hin x hmem).1
  · exact simpleQueryHelper_simpleBackSubst res.2 sss (fits_of_start_lt hstart _) hx
  · -- the interleaved queries take the starts of the band they are solved from
    have hslot : numSlots res.2 = numSlots bs := by rw [numSlots, numSlots, hn]
    rw [← hslot] at hslots hsegs
    rw [← hn] at hstart hx
    obtain ⟨hphsf, hfilter⟩ := interleavedQueries_of_satisfies res.2 iss hslots hsegs bh (bh.getHash x) hstart hx hq
    refine ⟨hphsf, fun h0 => hfilter.mpr fun i _ => ?_⟩
    simp [inputResultRow, h0]

/-- equations given as they are: an input is its start, coefficient row and result row -/
def equationHasher (w r : ℕ) : BandingHasher (ℕ × BitVec w × BitVec r) (ℕ × BitVec w × BitVec r) w r :=
  ⟨id, fun h _ => h.1, fun x => x.2.2, fun _ => 0, fun h => h.2.1, true⟩

/-- an empty band of `numStarts` starts -/
def emptyBand (w r numStarts : ℕ) : BandingStorage w r := ⟨numStarts, false, fun _ => (0, 0), fun _ => 0⟩

/-- three equations, the second reduced by the first -/
def threeEquations : List (ℕ × BitVec 4 × BitVec 2) := [(0, 0b0011, 1), (0, 0b0101, 2), (4, 0b1001, 3)]

theorem bandingAddRange_backSubst_queries_three :
    ((bandingAddRange true (emptyBand 4 2 5) (equationHasher 4 2) threeEquations).1 = true →
      (∀ (sss : SimpleSolutionStorage 2), ∀ x ∈ threeEquations,
        simpleQueryHelper (inputStart (equationHasher 4 2) 5 x) (inputCoeffRow (equationHasher 4 2) x)
          (simpleBackSubst sss (bandingAddRange true (emptyBand 4 2 5) (equationHasher 4 2) threeEquations).2) =
            inputResultRow (equationHasher 4 2) x) ∧
      ∀ (iss : InterleavedSolutionStorage 4), numSlots (emptyBand 4 2 5) % 4 = 0 →
        iss.numSegments = segmentStart iss.upperNumColumns iss.upperStartBlock (numSlots (emptyBand 4 2 5) / 4) →
        ∀ x ∈ threeEquations, ∀ segmentNum numColumns startBit,
          interleavedPrepareQuery (equationHasher 4 2)
            (interleavedBackSubst iss (bandingAddRange true (emptyBand 4 2 5) (equationHasher 4 2) threeEquations).2)
            ((equationHasher 4 2).getHash x) = (segmentNum, numColumns, startBit) →
          (∀ i, (interleavedPhsfQuery ((equationHasher 4 2).getHash x) segmentNum numColumns startBit
              (equationHasher 4 2)
              (interleavedBackSubst iss (bandingAddRange true (emptyBand 4 2 5) (equationHasher 4 2)
                threeEquations).2)).getLsbD i =
            (decide (i < numColumns) && (inputResultRow (equationHasher 4 2) x).getLsbD i)) ∧
          ((equationHasher 4 2).getResultRowFromInput x = 0 →
            interleavedFilterQuery ((equationHasher 4 2).getHash x) segmentNum numColumns startBit (equationHasher 4 2)
              (interleavedBackSubst iss (bandingAddRange true (emptyBand 4 2 5) (equationHasher 4 2)
                threeEquations).2) = true)) ∧
    ((bandingAddRange true (emptyBand 4 2 5) (equationHasher 4 2) threeEquations).1 = false → true = true →
      (bandingAddRange true (emptyBand 4 2 5) (equationHasher 4 2) threeEquations).2 = emptyBand 4 2 5) :=
  bandingAddRange_backSubst_queries true (valid_of_rows_zero fun _ => rfl) (equationHasher 4 2) threeEquations
    (by decide)

/-- one column of segments for a band of one block of eight slots -/
def oneColumnLayout : InterleavedSolutionStorage 8 := ⟨0, 1, 0, 1, fun _ => 0⟩

/-- with 8-bit coefficient and result rows, the equation `1 @ 0 -> 3` goes into the band, and in the layout of one
column the prepared PHSF query gives its low bit, `1`, not its result row -/
theorem interleavedPhsfQuery_one_column :
    (bandingAddRange true (emptyBand 8 8 1) (equationHasher 8 8) [(0, 1, 3)]).1 = true ∧
      numSlots (emptyBand 8 8 1) % 8 = 0 ∧
      oneColumnLayout.numSegments = segmentStart 1 0 (numSlots (emptyBand 8 8 1) / 8) ∧
      interleavedPrepareQuery (equationHasher 8 8) (interleavedBackSubst oneColumnLayout
        (bandingAddRange true (emptyBand 8 8 1) (equationHasher 8 8) [(0, 1, 3)]).2) (0, 1, 3) = (0, 1, 0) ∧
      interleavedPhsfQuery (0, 1, 3) 0 1 0 (equationHasher 8 8) (interleavedBackSubst oneColumnLayout
        (bandingAddRange true (emptyBand 8 8 1) (equationHasher 8 8) [(0, 1, 3)]).2) ≠
        inputResultRow (equationHasher 8 8) (0, 1, 3) := by
  decide

end ForSt.ribbon
