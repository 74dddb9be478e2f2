import ForSt.Util.Ribbon
/-!
`BandingAdd` keeps the band a band, and every equation it accepts holds for every solution of the band.

`Satisfies x start cr rr j` is column `j` of the equation `cr @ start -> rr` for the solution bits `x slot column`.
`Valid` is the band: each row that is not empty has its first coefficient at its own slot and ends below
`num_slots`, and each empty row has a zero result. A step of the reduction keeps the equation's solutions, given the
rows of the band: xor-ing the row at `i` into it (`satisfies_xor_row`) and moving past its trailing zeroes
(`satisfies_shiftRight`). So the loop of `BandingAdd` ends in one of three ways (`bandingAddLoop_cases`): it stores
an equation with the same solutions in an empty slot, it cancels the equation to a result row that must be zero, or
it runs out of rounds, which it never does in a band (`bandingAddLoop_fuel`).
-/

namespace ForSt.ribbon

open ForSt.Gf2

variable {w r : ℕ}

/-! ## Equations and the band -/

/-- `num_slots`: a run of `kCoeffBits` slots from every start -/
def numSlots (bs : BandingStorage w r) : ℕ := bs.numStarts + w - 1

/-- column `j` of the equation `cr @ start -> rr` holds for the solution bits `x` -/
def Satisfies (x : ℕ → ℕ → Bool) (start : ℕ) (cr : BitVec w) (rr : BitVec r) (j : ℕ) : Prop :=
  bsum (fun k => cr.getLsbD k && x (start + k) j) w = rr.getLsbD j

/-- the coefficients of `cr` at slot `i` lie below slot `n` -/
def Fits (n i : ℕ) (cr : BitVec w) : Prop := ∀ k, cr.getLsbD k = true → i + k < n

/-- column `j` of every row of the band holds -/
def RowsHold (bs : BandingStorage w r) (x : ℕ → ℕ → Bool) (j : ℕ) : Prop :=
  ∀ i, Satisfies x i (bs.rows i).1 (bs.rows i).2 j

/-- the band `BandingAdd` keeps: rows in row echelon form below `num_slots`, the empty ones zero -/
structure Valid (bs : BandingStorage w r) : Prop where
  pivot : ∀ i, (bs.rows i).1 ≠ 0 → (bs.rows i).1.getLsbD 0 = true
  fits : ∀ i, Fits (numSlots bs) i (bs.rows i).1
  empty : ∀ i, (bs.rows i).1 = 0 → (bs.rows i).2 = 0

theorem satisfies_zero (x : ℕ → ℕ → Bool) (start : ℕ) (rr : BitVec r) (j : ℕ) :
    Satisfies x start (0 : BitVec w) rr j ↔ rr.getLsbD j = false := by
  rw [Satisfies, bsum_eq_false (fun k _ => by simp)]
  exact eq_comm

/-- xor-ing a row that holds into an equation keeps the equation's solutions -/
theorem satisfies_xor_row {x : ℕ → ℕ → Bool} {i j : ℕ} {cr crAtI : BitVec w} {rr rrAtI : BitVec r}
    (hrow : Satisfies x i crAtI rrAtI j) :
    Satisfies x i (cr ^^^ crAtI) (rr ^^^ rrAtI) j ↔ Satisfies x i cr rr j := by
  unfold Satisfies at hrow ⊢
  simp only [BitVec.getLsbD_xor]
  rw [bsum_and_xor_left (fun k => cr.getLsbD k) (fun k => crAtI.getLsbD k) (fun k => x (i + k) j), hrow]
  cases bsum (fun k => cr.getLsbD k && x (i + k) j) w <;> cases rr.getLsbD j <;> cases rrAtI.getLsbD j <;> simp

/-- an equation whose low `tz` coefficients are zero is the equation of the rest, `tz` slots on -/
theorem satisfies_shiftRight {x : ℕ → ℕ → Bool} {i j tz : ℕ} {cr : BitVec w} {rr : BitVec r} (htz : tz ≤ w)
    (hlow : ∀ k < tz, cr.getLsbD k = false) :
    Satisfies x (i + tz) (cr >>> tz) rr j ↔ Satisfies x i cr rr j := by
  unfold Satisfies
  have hsplit : bsum (fun k => cr.getLsbD k && x (i + k) j) w =
      bsum (fun k => cr.getLsbD (tz + k) && x (i + (tz + k)) j) (w - tz) := by
    rw [bsum_split _ htz, bsum_eq_false (fun k hk => by simp [hlow k hk]), Bool.false_xor]
  have hshift : bsum (fun k => (cr >>> tz).getLsbD k && x (i + tz + k) j) w =
      bsum (fun k => cr.getLsbD (tz + k) && x (i + (tz + k)) j) (w - tz) := by
    rw [bsum_split _ (Nat.sub_le w tz), bsum_eq_false (n := w - (w - tz)) (fun k _ => ?_), Bool.xor_false]
    · refine bsum_congr fun k hk => ?_
      rw [BitVec.getLsbD_ushiftRight, Nat.add_assoc]
    · rw [BitVec.getLsbD_ushiftRight, BitVec.getLsbD_of_ge _ _ (by omega), Bool.false_and]
  rw [hsplit, hshift]

/-! ## `BandingAdd` -/

section add

variable {bs : BandingStorage w r}

/-- a band with every row empty, as the storage starts -/
theorem valid_of_rows_zero (h : ∀ i, bs.rows i = (0, 0)) : Valid bs where
  pivot i hi := absurd (by rw [h i]) hi
  fits i k hk := by simp [h i] at hk
  empty i _ := by rw [h i]

@[simp] theorem numSlots_storeRow (i : ℕ) (cr : BitVec w) (rr : BitVec r) :
    numSlots (bs.storeRow i cr rr) = numSlots bs := rfl

theorem rows_storeRow (i : ℕ) (cr : BitVec w) (rr : BitVec r) (s : ℕ) :
    (bs.storeRow i cr rr).rows s = if s = i then (cr, rr) else bs.rows s := by
  by_cases hs : s = i
  · subst hs
    simp [BandingStorage.storeRow]
  · simp [BandingStorage.storeRow, hs]

/-- a row stored in a slot keeps the band if it has its first coefficient there and fits -/
theorem Valid.storeRow (hv : Valid bs) {i : ℕ} {cr : BitVec w} (rr : BitVec r) (hbit : cr.getLsbD 0 = true)
    (hfit : Fits (numSlots bs) i cr) : Valid (bs.storeRow i cr rr) := by
  have hne : cr ≠ 0 := fun h => by simp [h] at hbit
  refine ⟨fun s hs => ?_, fun s => ?_, fun s hs => ?_⟩
  · rw [rows_storeRow] at hs ⊢
    split
    · exact hbit
    · rename_i hsi
      rw [if_neg hsi] at hs
      exact hv.pivot s hs
  · rw [numSlots_storeRow, rows_storeRow]
    split
    · rename_i hsi
      rw [hsi]
      exact hfit
    · exact hv.fits s
  · rw [rows_storeRow] at hs ⊢
    split
    · rename_i hsi
      rw [if_pos hsi] at hs
      exact absurd hs hne
    · rename_i hsi
      rw [if_neg hsi] at hs
      exact hv.empty s hs

/-- an empty row of the band holds for every solution -/
theorem Valid.satisfies_of_empty (hv : Valid bs) {i : ℕ} (hempty : (bs.rows i).1 = 0) (x : ℕ → ℕ → Bool) (j : ℕ) :
    Satisfies x i (bs.rows i).1 (bs.rows i).2 j := by
  rw [hempty, satisfies_zero, hv.empty i hempty]
  simp

/-- storing into an empty slot only adds a row: solutions of the new band solve the old one -/
theorem RowsHold.of_storeRow (hv : Valid bs) {i : ℕ} (hempty : (bs.rows i).1 = 0) {cr : BitVec w} {rr : BitVec r}
    {x : ℕ → ℕ → Bool} {j : ℕ} (h : RowsHold (bs.storeRow i cr rr) x j) : RowsHold bs x j := by
  intro s
  by_cases hs : s = i
  · subst hs
    exact hv.satisfies_of_empty hempty x j
  · have hrow := h s
    rwa [rows_storeRow, if_neg hs] at hrow

theorem bandingAddLoop_succ (fuel : ℕ) (i : ℕ) (cr : BitVec w) (rr : BitVec r) (backtrack : List ℕ) :
    bandingAddLoop (fuel + 1) bs i cr rr backtrack =
      if (bs.rows i).1 = 0 then (true, bs.storeRow i cr rr, backtrack ++ [i])
      else if cr ^^^ (bs.rows i).1 = 0 then (rr ^^^ (bs.rows i).2 == 0, bs, backtrack)
      else bandingAddLoop fuel bs (i + countTrailingZeroBits (cr ^^^ (bs.rows i).1).toNat)
        ((cr ^^^ (bs.rows i).1) >>> countTrailingZeroBits (cr ^^^ (bs.rows i).1).toNat) (rr ^^^ (bs.rows i).2)
        backtrack := by
  simp [bandingAddLoop, BandingStorage.loadRow]

/-- one round of the reduction: past the trailing zeroes of the equation with the row at `i` xor-ed in, the
equation has its first coefficient at its slot, still fits, has moved on, and has the same solutions -/
theorem reduce_step (hv : Valid bs) {i : ℕ} {cr : BitVec w} (rr : BitVec r) (hbit : cr.getLsbD 0 = true)
    (hfit : Fits (numSlots bs) i cr) (hrow : (bs.rows i).1 ≠ 0) (hcancel : cr ^^^ (bs.rows i).1 ≠ 0) :
    ((cr ^^^ (bs.rows i).1) >>> countTrailingZeroBits (cr ^^^ (bs.rows i).1).toNat).getLsbD 0 = true ∧
      Fits (numSlots bs) (i + countTrailingZeroBits (cr ^^^ (bs.rows i).1).toNat)
        ((cr ^^^ (bs.rows i).1) >>> countTrailingZeroBits (cr ^^^ (bs.rows i).1).toNat) ∧
      1 ≤ countTrailingZeroBits (cr ^^^ (bs.rows i).1).toNat ∧
      ∀ x j, RowsHold bs x j →
        (Satisfies x (i + countTrailingZeroBits (cr ^^^ (bs.rows i).1).toNat)
          ((cr ^^^ (bs.rows i).1) >>> countTrailingZeroBits (cr ^^^ (bs.rows i).1).toNat) (rr ^^^ (bs.rows i).2) j ↔
          Satisfies x i cr rr j) := by
  have htz := getLsbD_countTrailingZeroBits hcancel
  refine ⟨?_, fun k hk => ?_, ?_, fun x j hx => ?_⟩
  · rw [BitVec.getLsbD_ushiftRight, Nat.add_zero, htz]
  · -- a coefficient of the sum is one of the equation's or of the row's, both below `num_slots`
    rw [BitVec.getLsbD_ushiftRight, BitVec.getLsbD_xor] at hk
    rw [Nat.add_assoc]
    cases hcr : cr.getLsbD (countTrailingZeroBits (cr ^^^ (bs.rows i).1).toNat + k)
    · rw [hcr, Bool.false_xor] at hk
      exact hv.fits i _ hk
    · exact hfit _ hcr
  · -- both first coefficients are set, so the sum's is clear
    refine Nat.pos_of_ne_zero fun h0 => ?_
    rw [h0, BitVec.getLsbD_xor, hbit, hv.pivot i hrow] at htz
    exact Bool.false_ne_true htz
  · rw [satisfies_shiftRight (Nat.le_of_lt (countTrailingZeroBits_lt hcancel))
      (fun k hk => getLsbD_of_lt_countTrailingZeroBits hcancel hk)]
    exact satisfies_xor_row (hx i)

/-- **How `BandingAdd`'s loop ends**, in a band and from an equation with its first coefficient at its slot that
fits: it stores an equation with the same solutions in an empty slot, or it cancels the equation to a result row
that every solution of the band makes zero exactly when it solves the equation, or it runs out of rounds -/
theorem bandingAddLoop_cases (hv : Valid bs) (fuel i : ℕ) (cr : BitVec w) (rr : BitVec r) (backtrack : List ℕ)
    (hbit : cr.getLsbD 0 = true) (hfit : Fits (numSlots bs) i cr) :
    (∃ i' cr' rr', (bs.rows i').1 = 0 ∧ cr'.getLsbD 0 = true ∧ Fits (numSlots bs) i' cr' ∧
        (∀ x j, RowsHold bs x j → (Satisfies x i' cr' rr' j ↔ Satisfies x i cr rr j)) ∧
        bandingAddLoop fuel bs i cr rr backtrack = (true, bs.storeRow i' cr' rr', backtrack ++ [i'])) ∨
      (∃ rr' : BitVec r, (∀ x j, RowsHold bs x j → (rr'.getLsbD j = false ↔ Satisfies x i cr rr j)) ∧
        bandingAddLoop fuel bs i cr rr backtrack = (rr' == 0, bs, backtrack)) ∨
      bandingAddLoop fuel bs i cr rr backtrack = (false, bs, backtrack) := by
  induction fuel generalizing i cr rr with
  | zero => exact Or.inr (Or.inr rfl)
  | succ fuel ih =>
    rw [bandingAddLoop_succ]
    by_cases hempty : (bs.rows i).1 = 0
    · -- an empty slot takes the equation
      rw [if_pos hempty]
      exact Or.inl ⟨i, cr, rr, hempty, hbit, hfit, fun _ _ _ => Iff.rfl, rfl⟩
    rw [if_neg hempty]
    by_cases hcancel : cr ^^^ (bs.rows i).1 = 0
    · -- the equation cancels against the row
      rw [if_pos hcancel]
      refine Or.inr (Or.inl ⟨rr ^^^ (bs.rows i).2, fun x j hx => ?_, rfl⟩)
      rw [← satisfies_xor_row (hx i), hcancel, satisfies_zero]
    rw [if_neg hcancel]
    obtain ⟨hbit', hfit', -, hsat⟩ := reduce_step hv rr hbit hfit hempty hcancel
    rcases ih _ _ (rr ^^^ (bs.rows i).2) hbit' hfit' with
      ⟨i', cr', rr', he, hb, hf, hsat', heq⟩ | ⟨rr', hsat', heq⟩ | heq
    · exact Or.inl ⟨i', cr', rr', he, hb, hf, fun x j hx => (hsat' x j hx).trans (hsat x j hx), heq⟩
    · exact Or.inr (Or.inl ⟨rr', fun x j hx => (hsat' x j hx).trans (hsat x j hx), heq⟩)
    · exact Or.inr (Or.inr heq)

/-- **`BandingAdd` never runs out of rounds** in a band: each round moves to a later slot below `num_slots` -/
theorem bandingAddLoop_fuel (hv : Valid bs) {fuel i : ℕ} {cr : BitVec w} (rr : BitVec r) (backtrack : List ℕ)
    (hbit : cr.getLsbD 0 = true) (hfit : Fits (numSlots bs) i cr) (hfuel : numSlots bs - i < fuel) (k : ℕ) :
    bandingAddLoop (fuel + k) bs i cr rr backtrack = bandingAddLoop fuel bs i cr rr backtrack := by
  induction fuel generalizing i cr rr with
  | zero => omega
  | succ fuel ih =>
    have hi : i < numSlots bs := by simpa using hfit 0 hbit
    rw [show fuel + 1 + k = (fuel + k) + 1 by omega, bandingAddLoop_succ, bandingAddLoop_succ]
    by_cases hempty : (bs.rows i).1 = 0
    · rw [if_pos hempty, if_pos hempty]
    rw [if_neg hempty, if_neg hempty]
    by_cases hcancel : cr ^^^ (bs.rows i).1 = 0
    · rw [if_pos hcancel, if_pos hcancel]
    rw [if_neg hcancel, if_neg hcancel]
    obtain ⟨hbit', hfit', hmove, -⟩ := reduce_step hv rr hbit hfit hempty hcancel
    exact ih _ hbit' hfit' (by omega)

end add

/-! ## Filling empty slots, and undoing it -/

/-- `bs'` is `bs` with rows stored in the slots `added`, which are empty in `bs` -/
structure Fills (bs bs' : BandingStorage w r) (added : List ℕ) : Prop where
  numStarts : bs'.numStarts = bs.numStarts
  usePrefetch : bs'.usePrefetch = bs.usePrefetch
  unconstrainedResult : bs'.unconstrainedResult = bs.unconstrainedResult
  rows_of_not_mem : ∀ s, s ∉ added → bs'.rows s = bs.rows s
  empty : ∀ s ∈ added, bs.rows s = (0, 0)

theorem Fills.refl (bs : BandingStorage w r) : Fills bs bs [] :=
  ⟨rfl, rfl, rfl, fun _ _ => rfl, fun _ h => absurd h List.not_mem_nil⟩

theorem Fills.trans {bs bs' bs'' : BandingStorage w r} {a b : List ℕ} (h : Fills bs bs' a) (h' : Fills bs' bs'' b) :
    Fills bs bs'' (a ++ b) := by
  refine ⟨h'.numStarts.trans h.numStarts, h'.usePrefetch.trans h.usePrefetch,
    h'.unconstrainedResult.trans h.unconstrainedResult, fun s hs => ?_, fun s hs => ?_⟩
  · rw [List.mem_append, not_or] at hs
    rw [h'.rows_of_not_mem s hs.2, h.rows_of_not_mem s hs.1]
  · -- a slot filled second was empty after the first, so before it too
    by_cases ha : s ∈ a
    · exact h.empty s ha
    · have hb : s ∈ b := by simpa [ha] using hs
      rw [← h.rows_of_not_mem s ha]
      exact h'.empty s hb

theorem Fills.storeRow {bs : BandingStorage w r} (hv : Valid bs) {i : ℕ} (hempty : (bs.rows i).1 = 0)
    (cr : BitVec w) (rr : BitVec r) : Fills bs (bs.storeRow i cr rr) [i] := by
  refine ⟨rfl, rfl, rfl, fun s hs => ?_, fun s hs => ?_⟩
  · rw [rows_storeRow, if_neg (by simpa using hs)]
  · rw [List.mem_singleton.mp hs]
    exact Prod.ext hempty (hv.empty i hempty)

theorem rows_foldl_storeRow_zero (l : List ℕ) (bs : BandingStorage w r) (s : ℕ) :
    (l.foldl (fun bs i => bs.storeRow i 0 0) bs).rows s = if s ∈ l then (0, 0) else bs.rows s := by
  induction l generalizing bs with
  | nil => simp
  | cons i l ih =>
    rw [List.foldl_cons, ih, rows_storeRow]
    by_cases hsl : s ∈ l
    · simp [hsl]
    · by_cases hsi : s = i <;> simp [hsl, hsi]

/-- storing zero rows back into the slots filled gives back the storage before -/
theorem backtrackRows_of_fills {bs bs' : BandingStorage w r} {added : List ℕ} (h : Fills bs bs' added) :
    backtrackRows bs' added = bs := by
  have hfold : ∀ (l : List ℕ) (bs : BandingStorage w r),
      (l.foldl (fun bs i => bs.storeRow i 0 0) bs).numStarts = bs.numStarts ∧
        (l.foldl (fun bs i => bs.storeRow i 0 0) bs).usePrefetch = bs.usePrefetch ∧
        (l.foldl (fun bs i => bs.storeRow i 0 0) bs).unconstrainedResult = bs.unconstrainedResult := by
    intro l
    induction l with
    | nil => exact fun _ => ⟨rfl, rfl, rfl⟩
    | cons i l ih => exact fun bs => ih (bs.storeRow i 0 0)
  obtain ⟨hn, hp, hu⟩ := hfold added.reverse bs'
  refine BandingStorage.ext (hn.trans h.numStarts) (hp.trans h.usePrefetch) (funext fun s => ?_)
    (hu.trans h.unconstrainedResult)
  rw [backtrackRows, rows_foldl_storeRow_zero]
  split
  · rename_i hs
    exact (h.empty s (List.mem_reverse.mp hs)).symm
  · rename_i hs
    exact h.rows_of_not_mem s (fun h' => hs (List.mem_reverse.mpr h'))

/-! ## `BandingAdd` and `BandingAddRange` -/

section range

variable {bs : BandingStorage w r}

/-- an equation from a start fits the band -/
theorem fits_of_start_lt {start : ℕ} (hstart : start < bs.numStarts) (cr : BitVec w) :
    Fits (numSlots bs) start cr := by
  intro k hk
  have : k < w := by
    refine Nat.lt_of_not_le fun hge => ?_
    rw [BitVec.getLsbD_of_ge _ _ hge] at hk
    exact Bool.false_ne_true hk
  unfold numSlots
  omega

/-- with its first coefficient set, `BandingAdd` is its loop from the start, and no more rounds change it -/
theorem bandingAdd_eq_loop (hv : Valid bs) (kFirstCoeffAlwaysOne : Bool) {start : ℕ} (hstart : start < bs.numStarts)
    (rr : BitVec r) {cr : BitVec w} (hbit : cr.getLsbD 0 = true) (backtrack : List ℕ) (k : ℕ) :
    bandingAdd kFirstCoeffAlwaysOne bs start rr cr backtrack =
      bandingAddLoop (bs.numStarts + w + k) bs start cr rr backtrack := by
  rw [bandingAddLoop_fuel hv rr backtrack hbit (fits_of_start_lt hstart cr) (by unfold numSlots; omega)]
  cases kFirstCoeffAlwaysOne
  · rw [bandingAdd, if_neg Bool.false_ne_true]
    simp only [countTrailingZeroBits_eq_zero hbit, Nat.add_zero, BitVec.ushiftRight_zero]
  · rw [bandingAdd, if_pos rfl]

/-- what `BandingAdd`'s loop does to the band, from an equation with its first coefficient at its slot that fits: it
fills at most one empty slot, keeps the band, keeps every solution of the band after it a solution before it, and on
success the equation is one of them -/
theorem bandingAddLoop_spec (hv : Valid bs) (fuel i : ℕ) {cr : BitVec w} (rr : BitVec r) (backtrack : List ℕ)
    (hbit : cr.getLsbD 0 = true) (hfit : Fits (numSlots bs) i cr) :
    ∃ added, (bandingAddLoop fuel bs i cr rr backtrack).2.2 = backtrack ++ added ∧
      Fills bs (bandingAddLoop fuel bs i cr rr backtrack).2.1 added ∧
      Valid (bandingAddLoop fuel bs i cr rr backtrack).2.1 ∧
      (∀ x j, RowsHold (bandingAddLoop fuel bs i cr rr backtrack).2.1 x j →
        RowsHold bs x j ∧ ((bandingAddLoop fuel bs i cr rr backtrack).1 = true → Satisfies x i cr rr j)) ∧
      ((bandingAddLoop fuel bs i cr rr backtrack).1 = false →
        (bandingAddLoop fuel bs i cr rr backtrack).2 = (bs, backtrack)) := by
  rcases bandingAddLoop_cases hv fuel i cr rr backtrack hbit hfit with
    ⟨i', cr', rr', he, hb, hf, hsat, heq⟩ | ⟨rr', hsat, heq⟩ | heq
  · -- stored in an empty slot
    rw [heq]
    refine ⟨[i'], rfl, Fills.storeRow hv he cr' rr', hv.storeRow rr' hb hf, fun x j hx => ?_, fun h => absurd h (by simp)⟩
    have hold := RowsHold.of_storeRow hv he hx
    refine ⟨hold, fun _ => (hsat x j hold).mp ?_⟩
    have hrow := hx i'
    rwa [rows_storeRow, if_pos rfl] at hrow
  · -- cancelled: a success only with a zero result row
    rw [heq]
    refine ⟨[], (List.append_nil _).symm, Fills.refl bs, hv, fun x j hx => ⟨hx, fun hok => ?_⟩, fun _ => rfl⟩
    have hzero : rr' = 0 := by simpa using hok
    exact (hsat x j hx).mp (by simp [hzero])
  · rw [heq]
    exact ⟨[], (List.append_nil _).symm, Fills.refl bs, hv, fun x j hx => ⟨hx, fun h => absurd h (by simp)⟩,
      fun _ => rfl⟩

/-- what `BandingAdd` does to the band, for an equation from a start with its first coefficient set -/
theorem bandingAdd_spec (hv : Valid bs) (kFirstCoeffAlwaysOne : Bool) {start : ℕ} (hstart : start < bs.numStarts)
    (rr : BitVec r) {cr : BitVec w} (hbit : cr.getLsbD 0 = true) (backtrack : List ℕ) :
    ∃ added, (bandingAdd kFirstCoeffAlwaysOne bs start rr cr backtrack).2.2 = backtrack ++ added ∧
      Fills bs (bandingAdd kFirstCoeffAlwaysOne bs start rr cr backtrack).2.1 added ∧
      Valid (bandingAdd kFirstCoeffAlwaysOne bs start rr cr backtrack).2.1 ∧
      (∀ x j, RowsHold (bandingAdd kFirstCoeffAlwaysOne bs start rr cr backtrack).2.1 x j →
        RowsHold bs x j ∧ ((bandingAdd kFirstCoeffAlwaysOne bs start rr cr backtrack).1 = true →
          Satisfies x start cr rr j)) ∧
      ((bandingAdd kFirstCoeffAlwaysOne bs start rr cr backtrack).1 = false →
        (bandingAdd kFirstCoeffAlwaysOne bs start rr cr backtrack).2 = (bs, backtrack)) := by
  rw [bandingAdd_eq_loop hv kFirstCoeffAlwaysOne hstart rr hbit backtrack 0]
  exact bandingAddLoop_spec hv _ start rr backtrack hbit (fits_of_start_lt hstart cr)

/-- the coefficient rows `BandingAdd<kFirstCoeffAlwaysOne>` is given: nonzero, with the first coefficient set when
`kFirstCoeffAlwaysOne` -/
def CoeffOk (kFirstCoeffAlwaysOne : Bool) (cr : BitVec w) : Prop :=
  cr ≠ 0 ∧ (kFirstCoeffAlwaysOne = true → cr.getLsbD 0 = true)

theorem coeffOk_of_getLsbD_zero (kFirstCoeffAlwaysOne : Bool) {cr : BitVec w} (hbit : cr.getLsbD 0 = true) :
    CoeffOk kFirstCoeffAlwaysOne cr :=
  ⟨fun h => by simp [h] at hbit, fun _ => hbit⟩

/-- what `BandingAdd` does to the band, for every coefficient row it may be given: without `kFirstCoeffAlwaysOne` it
first moves the equation past its trailing zeroes, which keeps its solutions -/
theorem bandingAdd_spec_of_coeffOk (hv : Valid bs) (kFirstCoeffAlwaysOne : Bool) {start : ℕ}
    (hstart : start < bs.numStarts) (rr : BitVec r) {cr : BitVec w} (hcr : CoeffOk kFirstCoeffAlwaysOne cr)
    (backtrack : List ℕ) :
    ∃ added, (bandingAdd kFirstCoeffAlwaysOne bs start rr cr backtrack).2.2 = backtrack ++ added ∧
      Fills bs (bandingAdd kFirstCoeffAlwaysOne bs start rr cr backtrack).2.1 added ∧
      Valid (bandingAdd kFirstCoeffAlwaysOne bs start rr cr backtrack).2.1 ∧
      (∀ x j, RowsHold (bandingAdd kFirstCoeffAlwaysOne bs start rr cr backtrack).2.1 x j →
        RowsHold bs x j ∧ ((bandingAdd kFirstCoeffAlwaysOne bs start rr cr backtrack).1 = true →
          Satisfies x start cr rr j)) ∧
      ((bandingAdd kFirstCoeffAlwaysOne bs start rr cr backtrack).1 = false →
        (bandingAdd kFirstCoeffAlwaysOne bs start rr cr backtrack).2 = (bs, backtrack)) := by
  cases kFirstCoeffAlwaysOne with
  | true => exact bandingAdd_spec hv true hstart rr (hcr.2 rfl) backtrack
  | false =>
    have hne := hcr.1
    have heq : bandingAdd false bs start rr cr backtrack =
        bandingAddLoop (bs.numStarts + w) bs (start + countTrailingZeroBits cr.toNat)
          (cr >>> countTrailingZeroBits cr.toNat) rr backtrack := rfl
    have hbit : (cr >>> countTrailingZeroBits cr.toNat).getLsbD 0 = true := by
      rw [BitVec.getLsbD_ushiftRight, Nat.add_zero]
      exact getLsbD_countTrailingZeroBits hne
    have hfit : Fits (numSlots bs) (start + countTrailingZeroBits cr.toNat) (cr >>> countTrailingZeroBits cr.toNat) := by
      intro k hk
      rw [BitVec.getLsbD_ushiftRight] at hk
      have := fits_of_start_lt hstart cr _ hk
      omega
    -- the equation past its trailing zeroes has the same solutions
    have hshift : ∀ x j, Satisfies x (start + countTrailingZeroBits cr.toNat) (cr >>> countTrailingZeroBits cr.toNat)
        rr j ↔ Satisfies x start cr rr j := fun _ _ =>
      satisfies_shiftRight (Nat.le_of_lt (countTrailingZeroBits_lt hne))
        (fun k hk => getLsbD_of_lt_countTrailingZeroBits hne hk)
    rw [heq]
    obtain ⟨added, hbt, hfills, hv', hhold, hfail⟩ := bandingAddLoop_spec hv (bs.numStarts + w) _ rr backtrack hbit hfit
    exact ⟨added, hbt, hfills, hv', fun x j hx => ⟨(hhold x j hx).1, fun hok => (hshift x j).mp ((hhold x j hx).2 hok)⟩,
      hfail⟩

variable {AddInput Hash : Type} (bh : BandingHasher AddInput Hash w r)

/-- the equation `BandingAddRange` adds for an input -/
def inputStart (numStarts : ℕ) (x : AddInput) : ℕ := bh.getStart (bh.getHash x) numStarts

def inputCoeffRow (x : AddInput) : BitVec w := bh.getCoeffRow (bh.getHash x)

def inputResultRow (x : AddInput) : BitVec r := bh.getResultRowFromInput x ||| bh.getResultRowFromHash (bh.getHash x)

theorem bandingAddRangeLoop_cons (numStarts : ℕ) (bs : BandingStorage w r) (cur : AddInput) (rest : List AddInput)
    (backtrack : List ℕ) :
    bandingAddRangeLoop bh numStarts bs (cur :: rest) backtrack =
      if (bandingAdd bh.kFirstCoeffAlwaysOne bs (inputStart bh numStarts cur) (inputResultRow bh cur)
          (inputCoeffRow bh cur) backtrack).1 then
        bandingAddRangeLoop bh numStarts
          (bandingAdd bh.kFirstCoeffAlwaysOne bs (inputStart bh numStarts cur) (inputResultRow bh cur)
            (inputCoeffRow bh cur) backtrack).2.1 rest
          (bandingAdd bh.kFirstCoeffAlwaysOne bs (inputStart bh numStarts cur) (inputResultRow bh cur)
            (inputCoeffRow bh cur) backtrack).2.2
      else bandingAdd bh.kFirstCoeffAlwaysOne bs (inputStart bh numStarts cur) (inputResultRow bh cur)
        (inputCoeffRow bh cur) backtrack := by
  rcases h : bandingAdd bh.kFirstCoeffAlwaysOne bs (inputStart bh numStarts cur) (inputResultRow bh cur)
    (inputCoeffRow bh cur) backtrack with ⟨_ | _, bs', backtrack'⟩
  all_goals simp only [bandingAddRangeLoop, inputStart, inputResultRow, inputCoeffRow] at h ⊢
  all_goals rw [h]
  all_goals rfl

/-- what the simple loop of `BandingAddRange` does to the band, input after input -/
theorem bandingAddRangeLoop_spec_of_coeffOk (numStarts : ℕ) (inputs : List AddInput) (hv : Valid bs)
    (hn : bs.numStarts = numStarts) (backtrack : List ℕ)
    (hin : ∀ x ∈ inputs, inputStart bh numStarts x < numStarts ∧ CoeffOk bh.kFirstCoeffAlwaysOne (inputCoeffRow bh x)) :
    ∃ added, (bandingAddRangeLoop bh numStarts bs inputs backtrack).2.2 = backtrack ++ added ∧
      Fills bs (bandingAddRangeLoop bh numStarts bs inputs backtrack).2.1 added ∧
      Valid (bandingAddRangeLoop bh numStarts bs inputs backtrack).2.1 ∧
      ∀ X j, RowsHold (bandingAddRangeLoop bh numStarts bs inputs backtrack).2.1 X j →
        RowsHold bs X j ∧ ((bandingAddRangeLoop bh numStarts bs inputs backtrack).1 = true →
          ∀ x ∈ inputs, Satisfies X (inputStart bh numStarts x) (inputCoeffRow bh x) (inputResultRow bh x) j) := by
  induction inputs generalizing bs backtrack with
  | nil =>
    exact ⟨[], (List.append_nil _).symm, Fills.refl bs, hv, fun X j hX => ⟨hX, fun _ x hx => absurd hx List.not_mem_nil⟩⟩
  | cons cur rest ih =>
    subst hn
    obtain ⟨hstart, hcr⟩ := hin cur List.mem_cons_self
    obtain ⟨added, hbt, hfills, hv', hhold, -⟩ :=
      bandingAdd_spec_of_coeffOk hv bh.kFirstCoeffAlwaysOne hstart (inputResultRow bh cur) hcr backtrack
    rw [bandingAddRangeLoop_cons]
    split
    · -- `cur` went in; the rest go into the band after it
      rename_i hok
      obtain ⟨added', hbt', hfills', hv'', hhold'⟩ :=
        ih hv' hfills.numStarts _ (fun x hx => hin x (List.mem_cons_of_mem cur hx))
      refine ⟨added ++ added', by rw [hbt', hbt, List.append_assoc], hfills.trans hfills', hv'', fun X j hX => ?_⟩
      obtain ⟨hmid, hrest⟩ := hhold' X j hX
      obtain ⟨hbs, hcur⟩ := hhold X j hmid
      refine ⟨hbs, fun hok' x hx => ?_⟩
      rcases List.mem_cons.mp hx with rfl | hx
      · exact hcur hok
      · exact hrest hok' x hx
    · rename_i hok
      exact ⟨added, hbt, hfills, hv', fun X j hX => ⟨(hhold X j hX).1, fun h => absurd h hok⟩⟩

/-- the pipelined loop makes the same calls as the simple one -/
theorem bandingAddRangePipelined_eq (numStarts : ℕ) (rest : List AddInput) (bs : BandingStorage w r)
    (cur : AddInput) (backtrack : List ℕ) :
    bandingAddRangePipelined bh numStarts bs (bh.getHash cur) (bh.getStart (bh.getHash cur) numStarts)
        (bh.getResultRowFromInput cur) rest backtrack =
      bandingAddRangeLoop bh numStarts bs (cur :: rest) backtrack := by
  induction rest generalizing bs cur backtrack with
  | nil =>
    rw [bandingAddRangeLoop_cons]
    simp only [bandingAddRangePipelined]
    split
    · rename_i hok
      rcases h : bandingAdd bh.kFirstCoeffAlwaysOne bs (inputStart bh numStarts cur) (inputResultRow bh cur)
        (inputCoeffRow bh cur) backtrack with ⟨ok, bs', backtrack'⟩
      rw [h] at hok
      simp only at hok
      subst hok
      simp only [inputStart, inputResultRow, inputCoeffRow] at h
      simp [h, bandingAddRangeLoop]
    · rfl
  | cons next rest ih =>
    rw [bandingAddRangeLoop_cons]
    simp only [bandingAddRangePipelined]
    rcases h : bandingAdd bh.kFirstCoeffAlwaysOne bs (inputStart bh numStarts cur) (inputResultRow bh cur)
      (inputCoeffRow bh cur) backtrack with ⟨_ | _, bs', backtrack'⟩
    all_goals simp only [inputStart, inputResultRow, inputCoeffRow] at h
    all_goals simp only [h]
    · rfl
    · exact ih bs' next backtrack'

/-- both loops of `BandingAddRange` make the calls of the simple one -/
theorem bandingAddRange_eq (useBacktrack : Bool) (bs : BandingStorage w r) (inputs : List AddInput) :
    bandingAddRange useBacktrack bs bh inputs =
      if (bandingAddRangeLoop bh bs.numStarts bs inputs []).1 then (true, (bandingAddRangeLoop bh bs.numStarts bs inputs []).2.1)
      else (false, if useBacktrack then backtrackRows (bandingAddRangeLoop bh bs.numStarts bs inputs []).2.1
          (bandingAddRangeLoop bh bs.numStarts bs inputs []).2.2
        else (bandingAddRangeLoop bh bs.numStarts bs inputs []).2.1) := by
  cases inputs with
  | nil => rfl
  | cons cur rest =>
    have hloop : (if !bs.usePrefetch then bandingAddRangeLoop bh bs.numStarts bs (cur :: rest) []
        else bandingAddRangePipelined bh bs.numStarts bs (bh.getHash cur)
          (bh.getStart (bh.getHash cur) bs.numStarts) (bh.getResultRowFromInput cur) rest []) =
        bandingAddRangeLoop bh bs.numStarts bs (cur :: rest) [] := by
      split
      · rfl
      · exact bandingAddRangePipelined_eq bh bs.numStarts rest bs cur []
    simp only [bandingAddRange]
    rw [hloop]

/-- `BandingAddRange` keeps the band; on success every input's equation holds for every solution of the band, and on
failure with backtracking the storage is the one before the call -/
theorem bandingAddRange_spec_of_coeffOk (useBacktrack : Bool) (hv : Valid bs) (inputs : List AddInput)
    (hin : ∀ x ∈ inputs, inputStart bh bs.numStarts x < bs.numStarts ∧
      CoeffOk bh.kFirstCoeffAlwaysOne (inputCoeffRow bh x)) :
    (bandingAddRange useBacktrack bs bh inputs).2.numStarts = bs.numStarts ∧
      Valid (bandingAddRange useBacktrack bs bh inputs).2 ∧
      ((bandingAddRange useBacktrack bs bh inputs).1 = true → ∀ X j,
        RowsHold (bandingAddRange useBacktrack bs bh inputs).2 X j →
        ∀ x ∈ inputs, Satisfies X (inputStart bh bs.numStarts x) (inputCoeffRow bh x) (inputResultRow bh x) j) ∧
      ((bandingAddRange useBacktrack bs bh inputs).1 = false → useBacktrack = true →
        (bandingAddRange useBacktrack bs bh inputs).2 = bs) := by
  obtain ⟨added, hbt, hfills, hv', hhold⟩ := bandingAddRangeLoop_spec_of_coeffOk bh bs.numStarts inputs hv rfl [] hin
  rw [bandingAddRange_eq]
  split
  · rename_i hok
    exact ⟨hfills.numStarts, hv', fun _ X j hX => (hhold X j hX).2 hok, fun h => absurd h (by simp)⟩
  · -- the slots filled are the backtrack entries, and clearing them gives back the band
    have hback : backtrackRows (bandingAddRangeLoop bh bs.numStarts bs inputs []).2.1
        (bandingAddRangeLoop bh bs.numStarts bs inputs []).2.2 = bs := by
      rw [hbt, List.nil_append]
      exact backtrackRows_of_fills hfills
    cases useBacktrack
    · exact ⟨hfills.numStarts, hv', fun h => absurd h (by simp), fun _ h => absurd h (by simp)⟩
    · simp only [if_true]
      rw [hback]
      exact ⟨rfl, hv, fun h => absurd h (by simp), fun _ _ => rfl⟩

/-- `BandingAddRange` for coefficient rows with their first coefficient set -/
theorem bandingAddRange_spec (useBacktrack : Bool) (hv : Valid bs) (inputs : List AddInput)
    (hin : ∀ x ∈ inputs, inputStart bh bs.numStarts x < bs.numStarts ∧ (inputCoeffRow bh x).getLsbD 0 = true) :
    (bandingAddRange useBacktrack bs bh inputs).2.numStarts = bs.numStarts ∧
      Valid (bandingAddRange useBacktrack bs bh inputs).2 ∧
      ((bandingAddRange useBacktrack bs bh inputs).1 = true → ∀ X j,
        RowsHold (bandingAddRange useBacktrack bs bh inputs).2 X j →
        ∀ x ∈ inputs, Satisfies X (inputStart bh bs.numStarts x) (inputCoeffRow bh x) (inputResultRow bh x) j) ∧
      ((bandingAddRange useBacktrack bs bh inputs).1 = false → useBacktrack = true →
        (bandingAddRange useBacktrack bs bh inputs).2 = bs) :=
  bandingAddRange_spec_of_coeffOk bh useBacktrack hv inputs fun x hx =>
    ⟨(hin x hx).1, coeffOk_of_getLsbD_zero _ (hin x hx).2⟩

/-! ## Homogeneous bands -/

/-- every row of the band has a zero result row, as in a homogeneous banding -/
def ResultsZero (bs : BandingStorage w r) : Prop := ∀ i, (bs.rows i).2 = 0

theorem ResultsZero.storeRow (hz : ResultsZero bs) (i : ℕ) (cr : BitVec w) : ResultsZero (bs.storeRow i cr 0) := by
  intro s
  rw [rows_storeRow]
  split
  · rfl
  · exact hz s

/-- an equation with a zero result row keeps the result rows zero: its reductions are sums of zero rows -/
theorem bandingAddLoop_resultsZero (hz : ResultsZero bs) (fuel i : ℕ) (cr : BitVec w) (backtrack : List ℕ) :
    ResultsZero (bandingAddLoop fuel bs i cr 0 backtrack).2.1 := by
  induction fuel generalizing i cr with
  | zero => exact hz
  | succ fuel ih =>
    rw [bandingAddLoop_succ]
    split
    · exact hz.storeRow i cr
    · split
      · exact hz
      · rw [hz i, BitVec.xor_self]
        exact ih _ _

theorem bandingAdd_resultsZero (hz : ResultsZero bs) (kFirstCoeffAlwaysOne : Bool) (start : ℕ) {rr : BitVec r}
    (hrr : rr = 0) (cr : BitVec w) (backtrack : List ℕ) :
    ResultsZero (bandingAdd kFirstCoeffAlwaysOne bs start rr cr backtrack).2.1 := by
  subst hrr
  unfold bandingAdd
  split
  · exact bandingAddLoop_resultsZero hz _ _ _ _
  · exact bandingAddLoop_resultsZero hz _ _ _ _

theorem bandingAddRangeLoop_resultsZero (numStarts : ℕ) (inputs : List AddInput) (hz : ResultsZero bs)
    (backtrack : List ℕ) (hin : ∀ x ∈ inputs, inputResultRow bh x = 0) :
    ResultsZero (bandingAddRangeLoop bh numStarts bs inputs backtrack).2.1 := by
  induction inputs generalizing bs backtrack with
  | nil => exact hz
  | cons cur rest ih =>
    have hcur := bandingAdd_resultsZero hz bh.kFirstCoeffAlwaysOne (inputStart bh numStarts cur)
      (hin cur List.mem_cons_self) (inputCoeffRow bh cur) backtrack
    rw [bandingAddRangeLoop_cons]
    split
    · exact ih hcur _ fun x hx => hin x (List.mem_cons_of_mem cur hx)
    · exact hcur

/-- **`BandingAddRange` keeps a band's result rows zero** when every input's result row is zero -/
theorem bandingAddRange_resultsZero (useBacktrack : Bool) (hz : ResultsZero bs) (inputs : List AddInput)
    (hin : ∀ x ∈ inputs, inputResultRow bh x = 0) : ResultsZero (bandingAddRange useBacktrack bs bh inputs).2 := by
  have hloop := bandingAddRangeLoop_resultsZero bh bs.numStarts inputs hz [] hin
  rw [bandingAddRange_eq]
  split
  · exact hloop
  · split
    · -- the backtrack stores zero rows
      intro s
      rw [backtrackRows, rows_foldl_storeRow_zero]
      split
      · rfl
      · exact hloop s
    · exact hloop

end range

end ForSt.ribbon
