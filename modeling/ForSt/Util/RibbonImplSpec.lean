import ForSt.Util.RibbonHasherSpec
import ForSt.Util.RibbonSolutionSpec
/-!
The standard Ribbon implementations of `util/ribbon_impl.h` put together: a `StandardBanding` reset and given inputs
is a band of the inputs' equations, `SerializableInterleavedSolution` solves it, and its queries answer every input.

`Reset(num_slots)` leaves every row empty when the arrays are new or nothing is left past the slots (`EmptyFrom`), and
what `BandingAddRange` leaves is again empty past them, so a banding reset again with the same slots starts from the
same empty band (`toBandingStorage_reset`). `AddRange` on that band is the algorithm of `util/ribbon_alg.h` on the
banding's storage (`addRange_reset_spec`): a homogeneous banding keeps no result rows, and its inputs have none.

`PrepareForNumStarts` of `SerializableInterleavedSolution` fits a layout to the buffer that meets the asserts of
`InterleavedBackSubst`, and `BackSubstFrom` writes below the segments it keeps (`backSubstFrom_layout`).
-/

namespace ForSt.ribbon

variable {Key : Type} {hb sb w r : ℕ}

/-- a storage with the same rows and starts as a band is a band -/
theorem valid_of_rows_eq {bs bs' : BandingStorage w r} (hrows : bs'.rows = bs.rows) (hn : bs'.numStarts = bs.numStarts)
    (hv : Valid bs) : Valid bs' := by
  have hslots : numSlots bs' = numSlots bs := by rw [numSlots, numSlots, hn]
  exact ⟨fun i => hrows ▸ hv.pivot i, fun i => hslots ▸ hrows ▸ hv.fits i, fun i => hrows ▸ hv.empty i⟩

/-- the rows of a band past its slots are empty: a row that is not has its first coefficient at its own slot -/
theorem Valid.rows_of_le {bs : BandingStorage w r} (hv : Valid bs) {i : ℕ} (hi : numSlots bs ≤ i) :
    bs.rows i = (0, 0) := by
  have hcr : (bs.rows i).1 = 0 := by
    by_contra hne
    have := hv.fits i 0 (hv.pivot i hne)
    omega
  exact Prod.ext hcr (hv.empty i hcr)

namespace StandardBanding

variable (ts : TypesAndSettings Key hb sb w r)

/-- the rows from `n` on are empty, as the storage sees them -/
def EmptyFrom (s : StandardBanding w r sb) (n : ℕ) : Prop := ∀ i, n ≤ i → (s.toBandingStorage ts).rows i = (0, 0)

/-- the storage of the banding with the rows of `bs` stored back depends on the banding only through its starts -/
theorem toBandingStorage_storeRows (s : StandardBanding w r sb) (bs : BandingStorage w r) :
    (s.storeRows ts bs).toBandingStorage ts =
      ⟨s.numStarts, decide (s.numStarts > 1500), fun i => ((bs.rows i).1, if ts.kHomogeneous then 0 else (bs.rows i).2),
        fun i => if ts.kHomogeneous then BitVec.ofNat r (i * 0x9E3779B185EBCA87 % 2 ^ 64) else (bs.rows i).2⟩ := by
  unfold storeRows toBandingStorage
  cases ts.kHomogeneous <;> rfl

/-- stored back, the rows are those of `bs`, when a homogeneous banding is given no result rows -/
theorem toBandingStorage_storeRows_rows (s : StandardBanding w r sb) (bs : BandingStorage w r)
    (hz : ts.kHomogeneous = true → ResultsZero bs) : ((s.storeRows ts bs).toBandingStorage ts).rows = bs.rows := by
  rw [toBandingStorage_storeRows]
  funext i
  cases hh : ts.kHomogeneous
  · rfl
  · exact Prod.ext rfl (hz hh i).symm

@[simp] theorem reset_rawSeed (s : StandardBanding w r sb) (n : ℕ) : (s.reset ts n).rawSeed = s.rawSeed := by
  unfold reset
  split_ifs <;> rfl

theorem reset_numStarts (s : StandardBanding w r sb) {n : ℕ} (hn : n ≠ 0) : (s.reset ts n).numStarts = n - w + 1 := by
  unfold reset
  rw [if_neg hn]
  split_ifs <;> rfl

/-- the band `Reset(num_slots)` leaves: no row, the starts of `num_slots`, and for back substitution the
pseudorandom rows of a homogeneous banding or zero ones -/
def resetStorage (n : ℕ) : BandingStorage w r :=
  ⟨n - w + 1, decide (n - w + 1 > 1500), fun _ => (0, 0),
    fun i => if ts.kHomogeneous then BitVec.ofNat r (i * 0x9E3779B185EBCA87 % 2 ^ 64) else 0⟩

theorem valid_resetStorage (n : ℕ) : Valid (resetStorage ts n : BandingStorage w r) := valid_of_rows_zero fun _ => rfl

theorem resultsZero_resetStorage (n : ℕ) : ResultsZero (resetStorage ts n : BandingStorage w r) := fun _ => rfl

/-- a banding that `Reset(num_slots)` empties: its arrays are too small and get replaced, or nothing is left past
the slots -/
def CleanFor (s : StandardBanding w r sb) (n : ℕ) : Prop := s.numSlotsAllocated < n ∨ s.EmptyFrom ts n

theorem toBandingStorage_reset (s : StandardBanding w r sb) {n : ℕ} (hn : n ≠ 0) (hclean : s.CleanFor ts n) :
    (s.reset ts n).toBandingStorage ts = resetStorage ts n := by
  -- past the slots the rows are the old ones, empty, when the arrays are not new
  have hold : s.numSlotsAllocated < n ∨ ∀ i, n ≤ i → s.coeffRows i = 0 ∧ (ts.kHomogeneous = false → s.resultRows i = 0) := by
    refine hclean.imp id fun h i hi => ?_
    have hrow := h i hi
    simp only [toBandingStorage, Prod.mk.injEq] at hrow
    exact ⟨hrow.1, fun hh => by simpa [hh] using hrow.2⟩
  unfold reset toBandingStorage resetStorage
  rw [if_neg hn]
  split
  · cases ts.kHomogeneous <;> rfl
  · rename_i hle
    have hclean' := hold.resolve_left (by omega)
    congr 1
    · funext i
      by_cases hi : i < n
      · cases ts.kHomogeneous <;> simp [hi]
      · obtain ⟨hcr, hrr⟩ := hclean' i (by omega)
        cases hh : ts.kHomogeneous
        · simp [hi, hcr, hrr hh]
        · simp [hi, hcr]
    · funext i
      by_cases hi : i < n
      · cases ts.kHomogeneous <;> simp [hi]
      · cases hh : ts.kHomogeneous
        · simp [hi, (hclean' i (by omega)).2 hh]
        · simp

/-- a banding that keeps a band of `n` slots has nothing past them -/
theorem emptyFrom_of_valid (s : StandardBanding w r sb) {n : ℕ} (hv : Valid (s.toBandingStorage ts))
    (hn : numSlots (s.toBandingStorage ts) = n) : s.EmptyFrom ts n :=
  fun _ hi => hv.rows_of_le (hn ▸ hi)

variable {AddInput : Type} (hasher : BitVec sb → BandingHasher AddInput (BitVec hb) w r)

/-- `AddRange` after `Reset(num_slots)` is `BandingAddRange` on the empty band, stored back -/
theorem addRange_reset_eq (s : StandardBanding w r sb) {n : ℕ} (hn : n ≠ 0) (hclean : s.CleanFor ts n)
    (inputs : List AddInput) :
    (s.reset ts n).addRange ts hasher inputs =
      ((bandingAddRange false (resetStorage ts n) (hasher s.rawSeed) inputs).1,
        (s.reset ts n).storeRows ts (bandingAddRange false (resetStorage ts n) (hasher s.rawSeed) inputs).2) := by
  have hnormal : ¬ (ts.kAllowZeroStarts && (s.reset ts n).numStarts == 0) = true := by
    simp [reset_numStarts ts s hn]
  unfold addRange
  rw [if_neg hnormal, reset_rawSeed, toBandingStorage_reset ts s hn hclean]

/-- **`AddRange` after `Reset(num_slots)`**: it answers as `BandingAddRange` on the empty band, keeps that band's
rows, the starts of `num_slots` and the raw seed, and leaves a banding the next `Reset` of the slots empties -/
theorem addRange_reset_spec (s : StandardBanding w r sb) {n : ℕ} (hn : w ≤ n) (hn0 : n ≠ 0)
    (hclean : s.CleanFor ts n) (inputs : List AddInput)
    (hin : ∀ x ∈ inputs, inputStart (hasher s.rawSeed) (n - w + 1) x < n - w + 1 ∧
      CoeffOk (hasher s.rawSeed).kFirstCoeffAlwaysOne (inputCoeffRow (hasher s.rawSeed) x))
    (hhom : ts.kHomogeneous = true → ∀ x ∈ inputs, inputResultRow (hasher s.rawSeed) x = 0) :
    ((s.reset ts n).addRange ts hasher inputs).1 =
        (bandingAddRange false (resetStorage ts n) (hasher s.rawSeed) inputs).1 ∧
      (((s.reset ts n).addRange ts hasher inputs).2.toBandingStorage ts).rows =
        (bandingAddRange false (resetStorage ts n) (hasher s.rawSeed) inputs).2.rows ∧
      ((s.reset ts n).addRange ts hasher inputs).2.numStarts = n - w + 1 ∧
      ((s.reset ts n).addRange ts hasher inputs).2.rawSeed = s.rawSeed ∧
      ((s.reset ts n).addRange ts hasher inputs).2.CleanFor ts n := by
  rw [addRange_reset_eq ts hasher s hn0 hclean]
  obtain ⟨hnum, hv, -, -⟩ := bandingAddRange_spec_of_coeffOk (hasher s.rawSeed) false (valid_resetStorage ts n)
    inputs hin
  -- a homogeneous banding is given zero result rows only, and keeps none
  have hrows := toBandingStorage_storeRows_rows ts (s.reset ts n)
    (bandingAddRange false (resetStorage ts n) (hasher s.rawSeed) inputs).2
    fun hh => bandingAddRange_resultsZero _ false (resultsZero_resetStorage ts n) inputs (hhom hh)
  have hstarts : (s.reset ts n).numStarts = n - w + 1 := reset_numStarts ts s hn0
  have hv' : Valid (((s.reset ts n).storeRows ts
      (bandingAddRange false (resetStorage ts n) (hasher s.rawSeed) inputs).2).toBandingStorage ts) :=
    valid_of_rows_eq hrows (hstarts.trans hnum.symm) hv
  refine ⟨rfl, hrows, hstarts, reset_rawSeed ts s n, Or.inr (emptyFrom_of_valid ts _ hv' ?_)⟩
  show (s.reset ts n).numStarts + w - 1 = n
  rw [hstarts]
  omega

/-- the banding of a band `BandingAddRange` built on the empty band is a band, and when every input went in, its
rows hold every input's equation -/
theorem satisfies_of_rows_eq (t : StandardBanding w r sb) {n : ℕ} (bh : BandingHasher AddInput (BitVec hb) w r)
    (inputs : List AddInput)
    (hin : ∀ x ∈ inputs, inputStart bh (n - w + 1) x < n - w + 1 ∧
      CoeffOk bh.kFirstCoeffAlwaysOne (inputCoeffRow bh x))
    (hrows : (t.toBandingStorage ts).rows = (bandingAddRange false (resetStorage ts n) bh inputs).2.rows)
    (hstarts : t.numStarts = n - w + 1) :
    Valid (t.toBandingStorage ts) ∧ ((bandingAddRange false (resetStorage ts n) bh inputs).1 = true →
      ∀ X j, RowsHold (t.toBandingStorage ts) X j →
        ∀ x ∈ inputs, Satisfies X (inputStart bh (n - w + 1) x) (inputCoeffRow bh x) (inputResultRow bh x) j) := by
  obtain ⟨hnum, hv, hsat, -⟩ := bandingAddRange_spec_of_coeffOk bh false (valid_resetStorage ts n) inputs hin
  refine ⟨valid_of_rows_eq hrows (hstarts.trans hnum.symm) hv, fun hok X j hX => ?_⟩
  exact hsat hok X j fun i => by simpa only [hrows] using hX i

/-! ### `ResetAndFindSeedToSolve` -/

/-- the `k`-th ordinal seed `ResetAndFindSeedToSolve` tries, `(starting_ordinal_seed + k) & ordinal_seed_mask` -/
def ordinalSeedAt (start mask : BitVec sb) (k : ℕ) : BitVec sb := (start + BitVec.ofNat sb k) &&& mask

/-- what `BandingAddRange` on the empty band of `num_slots` makes of the inputs under the ordinal seed `c` -/
def bandAt (n : ℕ) (inputs : List AddInput) (c : BitVec sb) : Bool × BandingStorage w r :=
  bandingAddRange false (resetStorage ts n) (hasher (StandardHasher.setOrdinalSeed hb c)) inputs

/-- `res` is what trying the seeds from the `k`-th up to the `N`-th in turn gives: success exactly when one of them
gets every input in, and then the banding of the first that does, under its raw seed -/
def FirstSolvingSeed (n : ℕ) (inputs : List AddInput) (seeds : ℕ → BitVec sb) (k N : ℕ)
    (res : Bool × StandardBanding w r sb) : Prop :=
  (res.1 = true ↔ ∃ i, k ≤ i ∧ i < N ∧ (bandAt ts hasher n inputs (seeds i)).1 = true) ∧
    ∀ i, k ≤ i → i < N → (bandAt ts hasher n inputs (seeds i)).1 = true →
      (∀ i', k ≤ i' → i' < i → (bandAt ts hasher n inputs (seeds i')).1 = false) →
      res.2.rawSeed = StandardHasher.setOrdinalSeed hb (seeds i) ∧ res.2.numStarts = n - w + 1 ∧
        (res.2.toBandingStorage ts).rows = (bandAt ts hasher n inputs (seeds i)).2.rows

section search

variable {n : ℕ} {inputs : List AddInput} {seeds : ℕ → BitVec sb} {k N : ℕ}

/-- no seed left to try: failure -/
theorem firstSolvingSeed_none (t : StandardBanding w r sb) :
    FirstSolvingSeed ts hasher n inputs seeds N N (false, t) := by
  refine ⟨?_, fun i hi hiN => absurd hiN (by omega)⟩
  simp only [Bool.false_eq_true, false_iff, not_exists, not_and]
  intro i hi hiN
  omega

/-- the `k`-th seed fails: the search from it is the search from the next -/
theorem firstSolvingSeed_of_fails (hk : (bandAt ts hasher n inputs (seeds k)).1 = false)
    {res : Bool × StandardBanding w r sb} (h : FirstSolvingSeed ts hasher n inputs seeds (k + 1) N res) :
    FirstSolvingSeed ts hasher n inputs seeds k N res := by
  obtain ⟨hiff, hfirst⟩ := h
  refine ⟨hiff.trans ⟨fun ⟨i, hi, hiN, hs⟩ => ⟨i, by omega, hiN, hs⟩, fun ⟨i, hi, hiN, hs⟩ => ?_⟩,
    fun i hi hiN hs hbefore => hfirst i ?_ hiN hs fun i' hi' => hbefore i' (by omega)⟩
  · -- the `k`-th is not the one
    refine ⟨i, ?_, hiN, hs⟩
    rcases Nat.lt_or_ge k i with hlt | hge
    · omega
    · rw [show i = k by omega, hk] at hs
      exact absurd hs Bool.false_ne_true
  · rcases Nat.lt_or_ge k i with hlt | hge
    · omega
    · rw [show i = k by omega, hk] at hs
      exact absurd hs Bool.false_ne_true

/-- the `k`-th seed solves: the search stops at it -/
theorem firstSolvingSeed_of_solves (hkN : k < N) (hk : (bandAt ts hasher n inputs (seeds k)).1 = true)
    {t : StandardBanding w r sb} (hseed : t.rawSeed = StandardHasher.setOrdinalSeed hb (seeds k))
    (hstarts : t.numStarts = n - w + 1)
    (hrows : (t.toBandingStorage ts).rows = (bandAt ts hasher n inputs (seeds k)).2.rows) :
    FirstSolvingSeed ts hasher n inputs seeds k N (true, t) := by
  refine ⟨iff_of_true rfl ⟨k, le_rfl, hkN, hk⟩, fun i hi _ hs hbefore => ?_⟩
  -- a later seed that solves is not the first
  rcases Nat.lt_or_ge k i with hlt | hge
  · have := hbefore k le_rfl hlt
    rw [hk] at this
    exact absurd this (by decide)
  · rw [show i = k by omega]
    exact ⟨hseed, hstarts, hrows⟩

/-- a search that succeeds stops at a seed that solves, the first -/
theorem FirstSolvingSeed.exists_of_success {res : Bool × StandardBanding w r sb}
    (h : FirstSolvingSeed ts hasher n inputs seeds k N res) (hok : res.1 = true) :
    ∃ i, k ≤ i ∧ i < N ∧ (bandAt ts hasher n inputs (seeds i)).1 = true ∧
      res.2.rawSeed = StandardHasher.setOrdinalSeed hb (seeds i) ∧ res.2.numStarts = n - w + 1 ∧
        (res.2.toBandingStorage ts).rows = (bandAt ts hasher n inputs (seeds i)).2.rows := by
  have hex := h.1.mp hok
  -- the least seed from `k` that solves
  let i := Nat.find hex
  obtain ⟨hki, hiN, hs⟩ : k ≤ i ∧ i < N ∧ (bandAt ts hasher n inputs (seeds i)).1 = true := Nat.find_spec hex
  have hbefore : ∀ i', k ≤ i' → i' < i → (bandAt ts hasher n inputs (seeds i')).1 = false := by
    intro i' hki' hlt
    have hnot := Nat.find_min hex hlt
    simp only [not_and, Bool.not_eq_true] at hnot
    exact hnot hki' (by omega)
  exact ⟨i, hki, hiN, hs, h.2 i hki hiN hs hbefore⟩

end search

variable {m : ℕ} {n : ℕ} {inputs : List AddInput} (start : BitVec sb) {mask : BitVec sb}

theorem ordinalSeedAt_succ (hm : mask.toNat = 2 ^ m - 1) (k : ℕ) :
    (ordinalSeedAt start mask k + 1) &&& mask = ordinalSeedAt start mask (k + 1) :=
  ForSt.MaskedMix.add_one_and_mask hm start k

theorem ordinalSeedAt_eq_iff (hm : mask.toNat = 2 ^ m - 1) (k : ℕ) :
    ordinalSeedAt start mask k = start &&& mask ↔ k % 2 ^ m = 0 :=
  ForSt.MaskedMix.add_and_mask_eq_and_mask_iff hm start k

/-- one round of the loop of `ResetAndFindSeedToSolve` at the `k`-th seed: `AddRange` after `Reset(num_slots)`
under it, then success, or the next seed unless it is the first again -/
theorem resetAndFindSeedToSolveLoop_round (hm : mask.toNat = 2 ^ m - 1) (hn : w ≤ n) (hn0 : n ≠ 0)
    (hin : ∀ c, ∀ x ∈ inputs, inputStart (hasher c) (n - w + 1) x < n - w + 1 ∧
      CoeffOk (hasher c).kFirstCoeffAlwaysOne (inputCoeffRow (hasher c) x))
    (hhom : ts.kHomogeneous = true → ∀ c, ∀ x ∈ inputs, inputResultRow (hasher c) x = 0)
    (fuel k : ℕ) (s : StandardBanding w r sb) (hclean : s.CleanFor ts n) :
    ∃ t : StandardBanding w r sb, t.rawSeed = StandardHasher.setOrdinalSeed hb (ordinalSeedAt start mask k) ∧
      t.numStarts = n - w + 1 ∧ (t.toBandingStorage ts).rows = (bandAt ts hasher n inputs (ordinalSeedAt start mask k)).2.rows ∧
      t.CleanFor ts n ∧
      resetAndFindSeedToSolveLoop ts hasher n inputs (start &&& mask) mask (fuel + 1) s (ordinalSeedAt start mask k) =
        if (bandAt ts hasher n inputs (ordinalSeedAt start mask k)).1 then (true, t)
        else if (k + 1) % 2 ^ m ≠ 0 then
          resetAndFindSeedToSolveLoop ts hasher n inputs (start &&& mask) mask fuel t (ordinalSeedAt start mask (k + 1))
        else (false, t) := by
  set c := StandardHasher.setOrdinalSeed hb (ordinalSeedAt start mask k)
  -- the reset under the round's seed empties the banding as it does without it
  obtain ⟨hok, hrows, hstarts, hseed, hclean'⟩ :=
    addRange_reset_spec ts hasher { s with rawSeed := c } hn hn0 hclean inputs (hin c) fun hh => hhom hh c
  refine ⟨_, hseed, hstarts, hrows, hclean', ?_⟩
  rw [resetAndFindSeedToSolveLoop]
  dsimp only
  rw [hok, ordinalSeedAt_succ start hm k]
  -- the next seed is the first again exactly when the seeds have come round
  simp only [ne_eq, ordinalSeedAt_eq_iff start hm]
  rfl

/-- **the `do ... while` loop of `ResetAndFindSeedToSolve`** from the `k`-th seed with a seed for each of the
`2^m - k` left: each round is `AddRange` after `Reset(num_slots)` under the round's seed from a banding the reset
empties, and the loop stops at the first that solves or when the seeds come round to the first -/
theorem resetAndFindSeedToSolveLoop_spec (hm : mask.toNat = 2 ^ m - 1) (hn : w ≤ n) (hn0 : n ≠ 0)
    (hin : ∀ c, ∀ x ∈ inputs, inputStart (hasher c) (n - w + 1) x < n - w + 1 ∧
      CoeffOk (hasher c).kFirstCoeffAlwaysOne (inputCoeffRow (hasher c) x))
    (hhom : ts.kHomogeneous = true → ∀ c, ∀ x ∈ inputs, inputResultRow (hasher c) x = 0) (j : ℕ) :
    ∀ k (s : StandardBanding w r sb), k + (j + 1) = 2 ^ m → s.CleanFor ts n →
      FirstSolvingSeed ts hasher n inputs (ordinalSeedAt start mask) k (2 ^ m)
        (resetAndFindSeedToSolveLoop ts hasher n inputs (start &&& mask) mask (j + 1) s (ordinalSeedAt start mask k)) := by
  -- induction on the seeds left after this round; the banding each round leaves is empty past the slots
  induction j with
  | zero =>
    intro k s hk hclean
    obtain ⟨t, hseed, hstarts, hrows, -, hloop⟩ := resetAndFindSeedToSolveLoop_round ts hasher start hm hn hn0 hin hhom 0 k s hclean
    rw [hloop]
    cases hs : (bandAt ts hasher n inputs (ordinalSeedAt start mask k)).1
    · -- the last seed fails and the next is the first
      have hlast : ¬ (k + 1) % 2 ^ m ≠ 0 := by simp [show k + 1 = 2 ^ m by omega]
      rw [if_neg (by simp), if_neg hlast]
      exact firstSolvingSeed_of_fails ts hasher hs (by rw [show k + 1 = 2 ^ m by omega]; exact firstSolvingSeed_none ts hasher t)
    · rw [if_pos rfl]
      exact firstSolvingSeed_of_solves ts hasher (by omega) hs hseed hstarts hrows
  | succ j ih =>
    intro k s hk hclean
    obtain ⟨t, hseed, hstarts, hrows, hclean', hloop⟩ :=
      resetAndFindSeedToSolveLoop_round ts hasher start hm hn hn0 hin hhom (j + 1) k s hclean
    rw [hloop]
    cases hs : (bandAt ts hasher n inputs (ordinalSeedAt start mask k)).1
    · -- a seed fails, and the next is not yet the first
      have hnext : (k + 1) % 2 ^ m ≠ 0 := by rw [Nat.mod_eq_of_lt (by omega)]; omega
      rw [if_neg (by simp), if_pos hnext]
      exact firstSolvingSeed_of_fails ts hasher hs (ih (k + 1) t (by omega) hclean')
    · rw [if_pos rfl]
      exact firstSolvingSeed_of_solves ts hasher (by omega) hs hseed hstarts hrows

/-- `ResetAndFindSeedToSolve` is its loop from the first seed with a round for each of the `2^m` seeds -/
theorem resetAndFindSeedToSolve_eq (hm : mask.toNat = 2 ^ m - 1) (s : StandardBanding w r sb) :
    s.resetAndFindSeedToSolve ts hasher n inputs start mask =
      resetAndFindSeedToSolveLoop ts hasher n inputs (start &&& mask) mask (2 ^ m - 1 + 1) s
        (ordinalSeedAt start mask 0) := by
  have hfirst : ordinalSeedAt start mask 0 = start &&& mask := (ordinalSeedAt_eq_iff start hm 0).mpr (Nat.zero_mod _)
  have hfuel : mask.toNat + 1 = 2 ^ m - 1 + 1 := by rw [hm]
  unfold resetAndFindSeedToSolve
  rw [hfuel, hfirst]

/-- a `ResetAndFindSeedToSolve` that succeeds leaves the band of one of the `2^m` seeds that solves, under its raw
seed -/
theorem resetAndFindSeedToSolve_success (hm : mask.toNat = 2 ^ m - 1) (hw : 0 < w) (hn : w ≤ n)
    (s : StandardBanding w r sb) (hclean : s.CleanFor ts n)
    (hin : ∀ c, ∀ x ∈ inputs, inputStart (hasher c) (n - w + 1) x < n - w + 1 ∧
      CoeffOk (hasher c).kFirstCoeffAlwaysOne (inputCoeffRow (hasher c) x))
    (hhom : ts.kHomogeneous = true → ∀ c, ∀ x ∈ inputs, inputResultRow (hasher c) x = 0)
    (hok : (s.resetAndFindSeedToSolve ts hasher n inputs start mask).1 = true) :
    ∃ k < 2 ^ m, (bandAt ts hasher n inputs (ordinalSeedAt start mask k)).1 = true ∧
      (s.resetAndFindSeedToSolve ts hasher n inputs start mask).2.rawSeed =
        StandardHasher.setOrdinalSeed hb (ordinalSeedAt start mask k) ∧
      (s.resetAndFindSeedToSolve ts hasher n inputs start mask).2.numStarts = n - w + 1 ∧
      ((s.resetAndFindSeedToSolve ts hasher n inputs start mask).2.toBandingStorage ts).rows =
        (bandAt ts hasher n inputs (ordinalSeedAt start mask k)).2.rows := by
  rw [resetAndFindSeedToSolve_eq ts hasher start hm s] at hok ⊢
  obtain ⟨k, -, hk, hrest⟩ := FirstSolvingSeed.exists_of_success ts hasher
    (resetAndFindSeedToSolveLoop_spec ts hasher start hm hn (by omega) hin hhom (2 ^ m - 1) 0 s
      (by have := Nat.two_pow_pos m; omega) hclean) hok
  exact ⟨k, hk, hrest⟩

end StandardBanding

/-! ## The interleaved layout -/

/-- the ceiling division of `InternalConfigure`: `nb` blocks of the columns it gives hold the `ns` segments with less
than a block's worth to spare -/
theorem ceilDiv_mul_bounds (ns : ℕ) {nb : ℕ} (hnb : 0 < nb) :
    ns ≤ (ns + nb - 1) / nb * nb ∧ (ns + nb - 1) / nb * nb < ns + nb := by
  have hdm := Nat.div_add_mod (ns + nb - 1) nb
  have hlt := Nat.mod_lt (ns + nb - 1) hnb
  rw [Nat.mul_comm] at hdm
  generalize (ns + nb - 1) / nb * nb = P at *
  generalize (ns + nb - 1) % nb = m at *
  omega

/-- starts that fill whole blocks, `num_starts = num_blocks * kCoeffBits - kCoeffBits + 1`: the slots are
`num_blocks` whole blocks -/
theorem add_sub_one_eq_of_mod_eq_one {n : ℕ} (hn : n % w = 1) : n + w - 1 = (n / w + 1) * w := by
  have hdm := Nat.div_add_mod n w
  rw [hn, Nat.mul_comm] at hdm
  rw [Nat.succ_mul]
  omega

/-- the starts of `n` slots in whole blocks fill whole blocks -/
theorem sub_add_one_mod_of_mod_eq_zero {n : ℕ} (hw : 2 ≤ w) (hn : w ≤ n) (hnw : n % w = 0) : (n - w + 1) % w = 1 := by
  have hdm := Nat.div_add_mod n w
  rw [hnw, Nat.add_zero] at hdm
  rw [show n - w + 1 = (n / w - 1) * w + 1 by rw [Nat.sub_one_mul, Nat.mul_comm]; omega,
    Nat.add_mod, Nat.mul_mod_left, Nat.zero_add, Nat.mod_mod, Nat.mod_eq_of_lt (by omega : 1 < w)]

theorem ceilDiv_mul_sub_add_one {n : ℕ} (hw : 0 < w) (hn : n % w = 1) : (n + w - 1) / w * w - w + 1 = n := by
  have hdm := Nat.div_add_mod n w
  rw [hn, Nat.mul_comm] at hdm
  rw [add_sub_one_eq_of_mod_eq_one hn, Nat.mul_div_cancel _ hw, Nat.succ_mul]
  omega

/-- a `while (block > last_block)` loop of `InterleavedBackSubst` takes `num_columns` segments a block, and writes
nothing at or above the segment number it starts from -/
theorem interleavedBackSubstBlocks_frame (bs : BandingStorage w r) (c lastBlock B : ℕ) (state : ℕ → BitVec w)
    (segmentNum : ℕ) (segments : ℕ → BitVec w) (h : c * (B - lastBlock) ≤ segmentNum) :
    (interleavedBackSubstBlocks bs c lastBlock B state segmentNum segments).2.1 = segmentNum - c * (B - lastBlock) ∧
      ∀ s, segmentNum ≤ s → (interleavedBackSubstBlocks bs c lastBlock B state segmentNum segments).2.2 s = segments s := by
  induction B generalizing state segmentNum segments with
  | zero => exact ⟨by simp [interleavedBackSubstBlocks], fun _ _ => rfl⟩
  | succ B ih =>
    by_cases hL : B + 1 ≤ lastBlock
    · rw [interleavedBackSubstBlocks, if_pos hL]
      exact ⟨by simp [Nat.sub_eq_zero_of_le hL], fun _ _ => rfl⟩
    · rw [interleavedBackSubstBlocks, if_neg hL]
      dsimp only
      -- block `B` takes the `c` segments below the segment number
      have hmul : c * (B + 1 - lastBlock) = c * (B - lastBlock) + c := by
        rw [show B + 1 - lastBlock = B - lastBlock + 1 by omega, Nat.mul_succ]
      rw [hmul] at h ⊢
      generalize c * (B - lastBlock) = P at h ih ⊢
      obtain ⟨h1, h2⟩ := ih (backSubstBlock state c bs (B * w)) (segmentNum - c)
        ((List.range c).foldl (fun segments i => Function.update segments (segmentNum - c + i)
          (backSubstBlock state c bs (B * w) i)) segments) (by omega)
      refine ⟨by rw [h1]; omega, fun s hs => ?_⟩
      rw [h2 s (by omega), foldl_update_range, if_neg (by omega)]

/-- **`InterleavedBackSubst` writes no segment at or above `GetNumSegments()`** when the layout meets its assert and
`upper_start_block` is a block -/
theorem interleavedBackSubst_frame (iss : InterleavedSolutionStorage w) (bs : BandingStorage w r)
    (hu : iss.upperStartBlock ≤ (bs.numStarts + w - 1) / w)
    (hsegs : iss.numSegments = segmentStart iss.upperNumColumns iss.upperStartBlock ((bs.numStarts + w - 1) / w))
    {s : ℕ} (hs : iss.numSegments ≤ s) : (interleavedBackSubst iss bs).segments s = iss.segments s := by
  unfold interleavedBackSubst
  dsimp only
  split
  · rfl
  · rename_i hb
    generalize (bs.numStarts + w - 1) / w = N at hu hsegs ⊢
    generalize iss.upperNumColumns = b at hb hsegs ⊢
    generalize iss.upperStartBlock = u at hu hsegs ⊢
    -- the upper blocks take `b` segments each, from `N * b - u` down to `u * (b - 1)`, the lower ones the rest
    have hP : N * b - min N u = b * N - u := by rw [Nat.min_eq_right hu, Nat.mul_comm]
    have hQ : u ≤ b * u := Nat.le_mul_of_pos_left u (Nat.pos_of_ne_zero hb)
    have hQP : b * u ≤ b * N := Nat.mul_le_mul_left b hu
    have hup : b * (N - u) = b * N - b * u := Nat.mul_sub b N u
    have hlow : (b - 1) * (blocksLeft N u - 0) = b * u - u := by
      rw [Nat.sub_zero, blocksLeft_eq_min, Nat.min_eq_right hu, Nat.sub_one_mul]
    rw [segmentStart, hP] at hsegs
    rcases h1 : interleavedBackSubstBlocks bs b u N (fun _ => 0) iss.numSegments iss.segments with ⟨st1, seg1, sg1⟩
    dsimp only
    obtain ⟨hseg1, hframe1⟩ :=
      interleavedBackSubstBlocks_frame bs b u N (fun _ => 0) iss.numSegments iss.segments (by rw [hup]; omega)
    rw [h1] at hseg1 hframe1
    dsimp only at hseg1 hframe1
    rw [hup] at hseg1
    obtain ⟨-, hframe2⟩ :=
      interleavedBackSubstBlocks_frame bs (b - 1) 0 (blocksLeft N u) st1 seg1 sg1 (by rw [hlow]; omega)
    rw [hframe2 s (by omega), hframe1 s hs]

namespace SerializableInterleavedSolution

variable (s : SerializableInterleavedSolution w r)

@[simp] theorem internalConfigure_numStarts : s.internalConfigure.numStarts = s.numStarts := by
  unfold internalConfigure
  dsimp only
  split_ifs <;> rfl

@[simp] theorem internalConfigure_data : s.internalConfigure.data = s.data := by
  unfold internalConfigure
  dsimp only
  split_ifs <;> rfl

/-- `InternalConfigure` without a block -/
theorem internalConfigure_of_zero (hnb : s.getNumBlocks = 0) :
    s.internalConfigure = { s with upperNumColumns := 0, upperStartBlock := 0, dataLen := s.getNumSegments * (w / 8) } := by
  unfold internalConfigure
  rw [if_pos hnb]

/-- `InternalConfigure` when the columns the buffer allows fit a result row -/
theorem internalConfigure_of_le (hnb : s.getNumBlocks ≠ 0)
    (hle : (s.getNumSegments + s.getNumBlocks - 1) / s.getNumBlocks ≤ r) :
    s.internalConfigure =
      { s with upperNumColumns := (s.getNumSegments + s.getNumBlocks - 1) / s.getNumBlocks,
               upperStartBlock := (s.getNumSegments + s.getNumBlocks - 1) / s.getNumBlocks * s.getNumBlocks -
                 s.getNumSegments,
               dataLen := s.getNumSegments * (w / 8) } := by
  unfold internalConfigure
  rw [if_neg hnb, if_neg (Nat.not_lt.mpr hle)]

/-- `InternalConfigure` when the buffer allows more columns than a result row has: `r` columns in every block -/
theorem internalConfigure_of_lt (hnb : s.getNumBlocks ≠ 0)
    (hlt : r < (s.getNumSegments + s.getNumBlocks - 1) / s.getNumBlocks) :
    s.internalConfigure =
      { s with upperNumColumns := r, upperStartBlock := 0, dataLen := s.getNumBlocks * r * (w / 8) } := by
  unfold internalConfigure
  rw [if_neg hnb, if_pos hlt]

/-- **the layout `InternalConfigure` fits to the buffer**: the segments are those the blocks take, at most
`8U * sizeof(ResultRow)` columns, `upper_start_block` a block, and the buffer never grows -/
theorem internalConfigure_layout (hw : 8 ≤ w) (hnb : 0 < s.getNumBlocks) :
    s.internalConfigure.getNumSegments =
        segmentStart s.internalConfigure.upperNumColumns s.internalConfigure.upperStartBlock s.getNumBlocks ∧
      s.internalConfigure.upperNumColumns ≤ r ∧ s.internalConfigure.upperStartBlock < s.getNumBlocks ∧
      s.internalConfigure.getNumSegments ≤ s.getNumSegments := by
  have hbytes : 0 < w / 8 := by omega
  have hne := Nat.pos_iff_ne_zero.mp hnb
  obtain ⟨hge, hlt⟩ := ceilDiv_mul_bounds s.getNumSegments hnb
  by_cases hcap : r < (s.getNumSegments + s.getNumBlocks - 1) / s.getNumBlocks
  · -- more columns than a result row: every block takes `r`, and the segments past them stay unused
    have hfit : r * s.getNumBlocks < s.getNumSegments := by
      have := (Nat.le_div_iff_mul_le hnb).mp (Nat.succ_le_of_lt hcap)
      rw [Nat.succ_mul] at this
      omega
    rw [internalConfigure_of_lt s hne hcap]
    have hsegs : (s.getNumBlocks * r * (w / 8)) / (w / 8) = s.getNumBlocks * r := Nat.mul_div_cancel _ hbytes
    refine ⟨?_, Nat.le_refl r, hnb, ?_⟩
    · show (s.getNumBlocks * r * (w / 8)) / (w / 8) = s.getNumBlocks * r - min s.getNumBlocks 0
      rw [hsegs, Nat.min_zero, Nat.sub_zero]
    · show (s.getNumBlocks * r * (w / 8)) / (w / 8) ≤ s.getNumSegments
      rw [hsegs, Nat.mul_comm]
      exact Nat.le_of_lt hfit
  · -- the columns fit: `upper_start_block` is what the blocks of all upper columns have to spare
    rw [internalConfigure_of_le s hne (Nat.le_of_not_lt hcap)]
    have hsegs : s.getNumSegments * (w / 8) / (w / 8) = s.getNumSegments := Nat.mul_div_cancel _ hbytes
    refine ⟨?_, Nat.le_of_not_lt hcap, ?_, ?_⟩
    · show s.getNumSegments * (w / 8) / (w / 8) =
        s.getNumBlocks * ((s.getNumSegments + s.getNumBlocks - 1) / s.getNumBlocks) -
          min s.getNumBlocks ((s.getNumSegments + s.getNumBlocks - 1) / s.getNumBlocks * s.getNumBlocks - s.getNumSegments)
      rw [hsegs, Nat.mul_comm s.getNumBlocks]
      generalize (s.getNumSegments + s.getNumBlocks - 1) / s.getNumBlocks * s.getNumBlocks = P at hge hlt ⊢
      rw [Nat.min_eq_right (by omega)]
      omega
    · show (s.getNumSegments + s.getNumBlocks - 1) / s.getNumBlocks * s.getNumBlocks - s.getNumSegments < s.getNumBlocks
      omega
    · exact Nat.le_of_eq hsegs

/-- a buffer with room for `8U * sizeof(ResultRow)` columns in every block gets them in every block -/
theorem internalConfigure_of_room (hnb : 0 < s.getNumBlocks) (hroom : s.getNumBlocks * r ≤ s.getNumSegments) :
    s.internalConfigure.upperNumColumns = r ∧ s.internalConfigure.upperStartBlock = 0 := by
  have hne := Nat.pos_iff_ne_zero.mp hnb
  by_cases hcap : r < (s.getNumSegments + s.getNumBlocks - 1) / s.getNumBlocks
  · rw [internalConfigure_of_lt s hne hcap]
    exact ⟨rfl, rfl⟩
  · -- the columns the buffer allows are exactly `r`, with no block to spare
    have hge : r ≤ (s.getNumSegments + s.getNumBlocks - 1) / s.getNumBlocks := by
      rw [Nat.le_div_iff_mul_le hnb, Nat.mul_comm]
      omega
    have hcols : (s.getNumSegments + s.getNumBlocks - 1) / s.getNumBlocks = r := Nat.le_antisymm (Nat.le_of_not_lt hcap) hge
    rw [internalConfigure_of_le s hne (Nat.le_of_not_lt hcap)]
    refine ⟨hcols, ?_⟩
    show (s.getNumSegments + s.getNumBlocks - 1) / s.getNumBlocks * s.getNumBlocks - s.getNumSegments = 0
    rw [hcols, Nat.mul_comm]
    omega

/-- `InternalConfigure` reads nothing of the storage but its starts and how many segments the buffer holds, and
leaves the buffer's contents as they are -/
theorem internalConfigure_congr (s' : SerializableInterleavedSolution w r) (hsegs : s'.getNumSegments = s.getNumSegments)
    (hn : s'.numStarts = s.numStarts) : s'.internalConfigure = { s.internalConfigure with data := s'.data } := by
  have hblocks : s'.getNumBlocks = s.getNumBlocks := by rw [getNumBlocks, getNumBlocks, hn]
  by_cases h0 : s.getNumBlocks = 0
  · rw [internalConfigure_of_zero s' (hblocks ▸ h0), internalConfigure_of_zero s h0, hsegs, hn]
  · by_cases hcap : r < (s.getNumSegments + s.getNumBlocks - 1) / s.getNumBlocks
    · rw [internalConfigure_of_lt s' (hblocks ▸ h0) (by rw [hsegs, hblocks]; exact hcap),
        internalConfigure_of_lt s h0 hcap, hblocks, hn]
    · rw [internalConfigure_of_le s' (hblocks ▸ h0) (by rw [hsegs, hblocks]; exact Nat.le_of_not_lt hcap),
        internalConfigure_of_le s h0 (Nat.le_of_not_lt hcap), hsegs, hblocks, hn]

variable (ts : TypesAndSettings Key hb sb w r)

/-- `BackSubstFrom` of a band with starts: `InterleavedBackSubst` into the layout `PrepareForNumStarts` fits -/
theorem backSubstFrom_eq (bs : BandingStorage w r) (hn : 0 < bs.numStarts) :
    s.backSubstFrom ts bs =
      { s.prepareForNumStarts bs.numStarts with
        data := (interleavedBackSubst (s.prepareForNumStarts bs.numStarts).toStorage bs).segments } := by
  unfold backSubstFrom
  rw [if_neg (by simp [Nat.pos_iff_ne_zero.mp hn])]

/-- the solution after `BackSubstFrom`, as a storage, is what `InterleavedBackSubst` leaves -/
theorem toStorage_backSubstFrom (bs : BandingStorage w r) (hn : 0 < bs.numStarts) :
    (s.backSubstFrom ts bs).toStorage = interleavedBackSubst (s.prepareForNumStarts bs.numStarts).toStorage bs := by
  have hns : (s.prepareForNumStarts bs.numStarts).numStarts = bs.numStarts := internalConfigure_numStarts _
  rw [backSubstFrom_eq s ts bs hn]
  unfold interleavedBackSubst
  dsimp only
  split <;> simp only [toStorage, hns] <;> rfl

/-- a reader's `ConfigureForNumBlocks(GetNumBlocks())` on a buffer with as many whole segments as the writer's finds
the writer's layout: `InternalConfigure` reads only the starts and the segments the buffer holds -/
theorem configureForNumBlocks_backSubstFrom (hw : 0 < w) (bs : BandingStorage w r) (hn : bs.numStarts % w = 1) (len : ℕ)
    (hlen : len / (w / 8) = s.getNumSegments) :
    (ofBuffer (s.backSubstFrom ts bs).data len).configureForNumBlocks (s.backSubstFrom ts bs).getNumBlocks =
      s.backSubstFrom ts bs := by
  have hpos : 0 < bs.numStarts := Nat.pos_of_ne_zero fun h0 => by simp [h0] at hn
  have hB : (s.backSubstFrom ts bs).getNumBlocks = (bs.numStarts + w - 1) / w := by
    rw [getNumBlocks, backSubstFrom_eq s ts bs hpos]
    show ((s.prepareForNumStarts bs.numStarts).numStarts + w - 1) / w = _
    rw [prepareForNumStarts, internalConfigure_numStarts]
  have hne : (bs.numStarts + w - 1) / w ≠ 0 := Nat.pos_iff_ne_zero.mp (Nat.div_pos (by omega) hw)
  rw [hB, configureForNumBlocks, if_neg hne, ceilDiv_mul_sub_add_one hw hn, prepareForNumStarts,
    internalConfigure_congr { s with numStarts := bs.numStarts }
      { ofBuffer (s.backSubstFrom ts bs).data len with numStarts := bs.numStarts } hlen rfl,
    backSubstFrom_eq s ts bs hpos]
  rfl

/-- **`BackSubstFrom` lays the solution out in the caller's buffer as its asserts ask, writes nothing past the
segments it keeps, and a reader configuring a buffer of the same segments for the same blocks finds the same
layout**: for a band whose starts fill whole blocks, the segments are those the blocks take with at most
`8U * sizeof(ResultRow)` columns, `upper_start_block` is a block, the buffer never grows, and
`ConfigureForNumBlocks(GetNumBlocks())` on a buffer of any length holding as many whole segments as the writer's gives
back the solution -/
theorem backSubstFrom_layout (hw : 8 ≤ w) (bs : BandingStorage w r) (hn : bs.numStarts % w = 1) :
    (s.backSubstFrom ts bs).numStarts = bs.numStarts ∧
      (s.backSubstFrom ts bs).getNumSegments = segmentStart (s.backSubstFrom ts bs).upperNumColumns
        (s.backSubstFrom ts bs).upperStartBlock (s.backSubstFrom ts bs).getNumBlocks ∧
      (s.backSubstFrom ts bs).upperNumColumns ≤ r ∧
      (s.backSubstFrom ts bs).upperStartBlock < (s.backSubstFrom ts bs).getNumBlocks ∧
      (s.backSubstFrom ts bs).getNumSegments ≤ s.getNumSegments ∧
      (∀ i, (s.backSubstFrom ts bs).getNumSegments ≤ i → (s.backSubstFrom ts bs).data i = s.data i) ∧
      ∀ len, len / (w / 8) = s.getNumSegments →
        (ofBuffer (s.backSubstFrom ts bs).data len).configureForNumBlocks (s.backSubstFrom ts bs).getNumBlocks =
          s.backSubstFrom ts bs := by
  have hpos : 0 < bs.numStarts := Nat.pos_of_ne_zero fun h0 => by simp [h0] at hn
  have hnb : 0 < ({ s with numStarts := bs.numStarts } : SerializableInterleavedSolution w r).getNumBlocks := by
    show 0 < (bs.numStarts + w - 1) / w
    exact Nat.div_pos (by omega) (by omega)
  have hrt := fun len hlen => configureForNumBlocks_backSubstFrom s ts (by omega) bs hn len hlen
  obtain ⟨hsegs, hcols, hub, hle⟩ := internalConfigure_layout { s with numStarts := bs.numStarts } hw hnb
  rw [backSubstFrom_eq s ts bs hpos] at hrt ⊢
  unfold prepareForNumStarts at hrt ⊢
  generalize hp : internalConfigure { s with numStarts := bs.numStarts } = p at hsegs hcols hub hle hrt
  have hpn : p.numStarts = bs.numStarts := by rw [← hp, internalConfigure_numStarts]
  have hpd : p.data = s.data := by rw [← hp, internalConfigure_data]
  -- the blocks of the solution are those of the band
  have hBp : p.getNumBlocks = (bs.numStarts + w - 1) / w := by rw [getNumBlocks, hpn]
  refine ⟨hpn, ?_, hcols, ?_, hle, fun i hi => ?_, hrt⟩
  · show p.getNumSegments = segmentStart p.upperNumColumns p.upperStartBlock p.getNumBlocks
    rw [hBp]
    exact hsegs
  · show p.upperStartBlock < p.getNumBlocks
    rw [hBp]
    exact hub
  · show (interleavedBackSubst p.toStorage bs).segments i = s.data i
    rw [interleavedBackSubst_frame p.toStorage bs (Nat.le_of_lt hub) hsegs hi]
    show p.data i = s.data i
    rw [hpd]

/-- a reset band of `Standard128RibbonTypesAndSettings` over two blocks, in a buffer of sixteen segments -/
theorem backSubstFrom_layout_standard128 :
    let s : SerializableInterleavedSolution 128 32 := ofBuffer (fun _ => 0) 261
    let bs := StandardBanding.resetStorage standard128RibbonTypesAndSettings 256
    (8 ≤ 128 ∧ bs.numStarts % 128 = 1) ∧
      (s.backSubstFrom standard128RibbonTypesAndSettings bs).numStarts = bs.numStarts ∧
      (s.backSubstFrom standard128RibbonTypesAndSettings bs).getNumSegments =
        segmentStart (s.backSubstFrom standard128RibbonTypesAndSettings bs).upperNumColumns
          (s.backSubstFrom standard128RibbonTypesAndSettings bs).upperStartBlock
          (s.backSubstFrom standard128RibbonTypesAndSettings bs).getNumBlocks ∧
      (s.backSubstFrom standard128RibbonTypesAndSettings bs).upperNumColumns ≤ 32 ∧
      (s.backSubstFrom standard128RibbonTypesAndSettings bs).upperStartBlock <
        (s.backSubstFrom standard128RibbonTypesAndSettings bs).getNumBlocks ∧
      (s.backSubstFrom standard128RibbonTypesAndSettings bs).getNumSegments ≤ s.getNumSegments ∧
      (∀ i, (s.backSubstFrom standard128RibbonTypesAndSettings bs).getNumSegments ≤ i →
        (s.backSubstFrom standard128RibbonTypesAndSettings bs).data i = s.data i) ∧
      ∀ len, len / (128 / 8) = s.getNumSegments →
        (ofBuffer (s.backSubstFrom standard128RibbonTypesAndSettings bs).data len).configureForNumBlocks
          (s.backSubstFrom standard128RibbonTypesAndSettings bs).getNumBlocks =
          s.backSubstFrom standard128RibbonTypesAndSettings bs := by
  intro s bs
  exact ⟨⟨by decide, by decide⟩, backSubstFrom_layout s standard128RibbonTypesAndSettings (by decide) bs (by decide)⟩

@[simp] theorem backSubstFrom_numStarts (bs : BandingStorage w r) (hn : 0 < bs.numStarts) :
    (s.backSubstFrom ts bs).numStarts = bs.numStarts := by
  rw [backSubstFrom_eq s ts bs hn]
  exact internalConfigure_numStarts _

theorem backSubstFrom_upperNumColumns (bs : BandingStorage w r) (hn : 0 < bs.numStarts) :
    (s.backSubstFrom ts bs).upperNumColumns = (s.prepareForNumStarts bs.numStarts).upperNumColumns := by
  rw [backSubstFrom_eq s ts bs hn]

theorem backSubstFrom_upperStartBlock (bs : BandingStorage w r) (hn : 0 < bs.numStarts) :
    (s.backSubstFrom ts bs).upperStartBlock = (s.prepareForNumStarts bs.numStarts).upperStartBlock := by
  rw [backSubstFrom_eq s ts bs hn]

/-- the queries of a solution back substituted from a band whose starts fill whole blocks: for an input whose equation
holds for the band's solution, `PhsfQuery` gives its result row in the columns of its start's block, and
`FilterQuery` compares them with the result row from its hash -/
theorem queries_backSubstFrom (hw : 8 ≤ w) (bs : BandingStorage w r) (hn : bs.numStarts % w = 1)
    (hasher : BandingHasher Key (BitVec hb) w r) (x : Key)
    (hstart : hasher.getStart (hasher.getHash x) bs.numStarts < bs.numStarts) {rr : BitVec r}
    (hsat : ∀ j, Satisfies (solution bs) (hasher.getStart (hasher.getHash x) bs.numStarts)
      (hasher.getCoeffRow (hasher.getHash x)) rr j) :
    (∀ i, ((s.backSubstFrom ts bs).phsfQuery ts x hasher).getLsbD i =
        (decide (i < numColumnsAt (s.backSubstFrom ts bs).upperNumColumns (s.backSubstFrom ts bs).upperStartBlock
          (hasher.getStart (hasher.getHash x) bs.numStarts / w)) && rr.getLsbD i)) ∧
      ((s.backSubstFrom ts bs).filterQuery ts x hasher = true ↔
        ∀ i < numColumnsAt (s.backSubstFrom ts bs).upperNumColumns (s.backSubstFrom ts bs).upperStartBlock
          (hasher.getStart (hasher.getHash x) bs.numStarts / w),
          rr.getLsbD i = (hasher.getResultRowFromHash (hasher.getHash x)).getLsbD i) := by
  have hpos : 0 < bs.numStarts := Nat.pos_of_ne_zero fun h0 => by simp [h0] at hn
  have hnb : 0 < ({ s with numStarts := bs.numStarts } : SerializableInterleavedSolution w r).getNumBlocks := by
    show 0 < (bs.numStarts + w - 1) / w
    exact Nat.div_pos (by omega) (by omega)
  -- the band's slots fill whole blocks, and the layout fits them
  have hslots : numSlots bs % w = 0 := by
    rw [numSlots, add_sub_one_eq_of_mod_eq_one hn]
    exact Nat.mul_mod_left _ _
  have hsegs := (internalConfigure_layout { s with numStarts := bs.numStarts } hw hnb).1
  have hnormal : ¬ (ts.kAllowZeroStarts && (s.backSubstFrom ts bs).numStarts == 0) = true := by
    simp [backSubstFrom_numStarts s ts bs hpos, Nat.pos_iff_ne_zero.mp hpos]
  have hq : interleavedPrepareQuery hasher (interleavedBackSubst (s.prepareForNumStarts bs.numStarts).toStorage bs)
      (hasher.getHash x) =
      ((interleavedPrepareQuery hasher (interleavedBackSubst (s.prepareForNumStarts bs.numStarts).toStorage bs)
        (hasher.getHash x)).1,
      (interleavedPrepareQuery hasher (interleavedBackSubst (s.prepareForNumStarts bs.numStarts).toStorage bs)
        (hasher.getHash x)).2.1,
      (interleavedPrepareQuery hasher (interleavedBackSubst (s.prepareForNumStarts bs.numStarts).toStorage bs)
        (hasher.getHash x)).2.2) := rfl
  obtain ⟨hphsf, hfilter⟩ := interleavedQueries_of_satisfies bs (s.prepareForNumStarts bs.numStarts).toStorage hslots
    hsegs hasher (hasher.getHash x) hstart hsat hq
  -- the columns of the start's block, in the layout `BackSubstFrom` keeps
  have hcols : (interleavedPrepareQuery hasher (interleavedBackSubst (s.prepareForNumStarts bs.numStarts).toStorage bs)
      (hasher.getHash x)).2.1 = numColumnsAt (s.backSubstFrom ts bs).upperNumColumns
        (s.backSubstFrom ts bs).upperStartBlock (hasher.getStart (hasher.getHash x) bs.numStarts / w) := by
    rw [interleavedPrepareQuery_eq, interleavedBackSubst_numStarts, interleavedBackSubst_upperNumColumns,
      interleavedBackSubst_upperStartBlock, backSubstFrom_eq s ts bs hpos]
    rfl
  unfold phsfQuery filterQuery
  rw [if_neg hnormal, if_neg hnormal, toStorage_backSubstFrom s ts bs hpos, ← hcols]
  exact ⟨hphsf, hfilter⟩

/-- `RoundUpNumSlots` without the smash: a whole number of blocks, none or at least two, and no more than the slots
rounded up to a block, or two blocks -/
theorem roundUpNumSlots_spec (hsmash : ts.kUseSmash = false) (numSlots : ℕ) :
    roundUpNumSlots ts numSlots % w = 0 ∧ (roundUpNumSlots ts numSlots = 0 ∨ 2 * w ≤ roundUpNumSlots ts numSlots) ∧
      roundUpNumSlots ts numSlots ≤ max (numSlots + w - 1) (2 * w) := by
  have hle : (numSlots + w - 1) / w * w ≤ numSlots + w - 1 := Nat.div_mul_le_self _ _
  unfold roundUpNumSlots
  simp only [hsmash, Bool.not_false, Bool.true_and, beq_iff_eq]
  split_ifs with hone
  · -- one block is made two
    rw [hone, ← Nat.two_mul]
    exact ⟨Nat.mul_mod_left 2 w, Or.inr le_rfl, le_max_right _ _⟩
  · refine ⟨Nat.mul_mod_left _ _, ?_, le_max_of_le_left hle⟩
    -- a whole number of blocks other than one
    rcases Nat.lt_or_ge ((numSlots + w - 1) / w) 2 with hlt | hge
    · interval_cases hq : (numSlots + w - 1) / w
      · exact Or.inl (Nat.zero_mul w)
      · exact absurd (Nat.one_mul w) hone
    · exact Or.inr (Nat.mul_le_mul_right w hge)

end SerializableInterleavedSolution

/-! ## Building and querying -/

section build

open StandardHasher

variable (ts : TypesAndSettings Key hb sb w r)

/-- a filter back substituted from a band of its keys built on the empty band accepts every key: each key's
equation holds for the band's solution with the result row from its hash, which is what `FilterQuery` compares -/
theorem filterQuery_backSubstFrom_of_rows (hhb : hb = 32 ∨ hb = 64) (hw : 8 ≤ w) (hw128 : w ≤ 128)
    (hcfg : ts.kFirstCoeffAlwaysOne = true ∨ ts.kUseSmash = true ∨ hb ≤ w) {n : ℕ} (hn : w ≤ n) (hnw : n % w = 0)
    (t : StandardBanding w r sb) (rawSeed : BitVec sb) (keys : List Key)
    (hrows : (t.toBandingStorage ts).rows =
      (bandingAddRange false (StandardBanding.resetStorage ts n) (keyHasher ts rawSeed) keys).2.rows)
    (hstarts : t.numStarts = n - w + 1)
    (hok : (bandingAddRange false (StandardBanding.resetStorage ts n) (keyHasher ts rawSeed) keys).1 = true)
    (sol : SerializableInterleavedSolution w r) :
    ∀ x ∈ keys, (sol.backSubstFrom ts (t.toBandingStorage ts)).filterQuery ts x (keyHasher ts rawSeed) = true := by
  intro x hx
  have hin := toBandingHasher_inputs_ok ts hhb (by omega) hw128 hcfg rawSeed id (fun _ => 0)
    (by omega : 0 < n - w + 1) keys
  obtain ⟨hv, hsat⟩ := StandardBanding.satisfies_of_rows_eq ts t (keyHasher ts rawSeed) keys hin hrows hstarts
  have hstarts' : (t.toBandingStorage ts).numStarts = n - w + 1 := hstarts
  have hsx := fun j => hsat hok (solution _) j (rowsHold_solution _ hv j) x hx
  rw [← hstarts'] at hsx hin
  obtain ⟨-, hfilter⟩ := SerializableInterleavedSolution.queries_backSubstFrom sol ts hw (t.toBandingStorage ts)
    (hstarts' ▸ sub_add_one_mod_of_mod_eq_zero (by omega) hn hnw) (keyHasher ts rawSeed) x (hin x hx).1 hsx
  -- a key's result row is the one from its hash
  refine hfilter.mpr fun i _ => ?_
  simp [inputResultRow, keyHasher, toBandingHasher]

end build

end ForSt.ribbon
