import ForSt.Util.DynamicBloom
import ForSt.Lib.BitFields
/-!
What the memtable Bloom filter guarantees: every word it touches is one of its words, and a key added is always found.

`Covers v mask` says every bit of `mask` is set in `v`; `Grows d d'` says each word of `d'` covers the same word of
`d`. `AddHash` only sets bits, so each call makes the words grow (`grows_addHashWith`), and the concurrent `or_func`
is the plain one in one thread (`orConcurrently_eq_orStore`). After `AddHash(h)` each round's word covers that round's
two bits (`holds_addHash`), which is what `DoubleProbe` tests (`mayContainHash_of_holds`), and growing keeps it.

`InRange` says each round's word `a ^ i` is below `kLen`. The constructor rounds `kLen` up to whole blocks of
`2 ^ m ≥ kNumDoubleProbes` words (`len_toNat`), and `a ^ i` stays in the block of `a` (`xor_lt_mul_two_pow`), so a
filter built with `total_bits + block_bits ≤ 2 ^ 32` is in range (`inRange_create`). Past that bound the `uint32_t`
sum `total_bits + block_bits - 1` wraps, and `kLen` can be 0.
-/

namespace ForSt

namespace DynamicBloom

/-! ## Masks -/

/-- every bit of `mask` is set in `v` -/
def Covers (v mask : UInt64) : Prop := v &&& mask = mask

theorem covers_self (v : UInt64) : Covers v v := UInt64.and_self

theorem covers_or_right (v mask : UInt64) : Covers (v ||| mask) mask := by
  apply UInt64.toBitVec_inj.mp
  rw [UInt64.toBitVec_and, UInt64.toBitVec_or]
  ext i hi
  rw [BitVec.getElem_and, BitVec.getElem_or]
  cases v.toBitVec[i] <;> cases mask.toBitVec[i] <;> rfl

theorem covers_or_left (v mask : UInt64) : Covers (v ||| mask) v := by
  apply UInt64.toBitVec_inj.mp
  rw [UInt64.toBitVec_and, UInt64.toBitVec_or]
  ext i hi
  rw [BitVec.getElem_and, BitVec.getElem_or]
  cases v.toBitVec[i] <;> cases mask.toBitVec[i] <;> rfl

theorem Covers.trans {a b c : UInt64} (hab : Covers a b) (hbc : Covers b c) : Covers a c :=
  calc a &&& c = a &&& (b &&& c) := by rw [hbc]
    _ = (a &&& b) &&& c := (UInt64.and_assoc a b c).symm
    _ = c := by rw [hab, hbc]

/-- a word that has the bits of the mask already is left as it is by or-ing it in -/
theorem or_eq_self_of_and_eq {v mask : UInt64} (h : mask &&& v = mask) : v ||| mask = v := by
  rw [← h]
  apply UInt64.toBitVec_inj.mp
  rw [UInt64.toBitVec_or, UInt64.toBitVec_and]
  ext i hi
  simp

/-- in one thread the concurrent `or_func` sets the same bits -/
theorem orConcurrently_eq_orStore (v mask : UInt64) : orConcurrently v mask = orStore v mask := by
  by_cases h : mask &&& v = mask
  · rw [orConcurrently, if_neg (not_not.mpr h), orStore, or_eq_self_of_and_eq h]
  · rw [orConcurrently, if_pos h]
    rfl

/-! ## Words that grow -/

/-- each word of `d'` has the bits of the same word of `d` -/
def Grows (d d' : List UInt64) : Prop := d'.length = d.length ∧ ∀ j, Covers (d'.getD j 0) (d.getD j 0)

theorem Grows.trans {d d' d'' : List UInt64} (h : Grows d d') (h' : Grows d' d'') : Grows d d'' :=
  ⟨h'.1.trans h.1, fun j => (h'.2 j).trans (h.2 j)⟩

/-- a word read after a `modify`: the modified word, or the word as it was -/
theorem getD_modify (d : List UInt64) (j : ℕ) (f : UInt64 → UInt64) (j' : ℕ) :
    (d.modify j f).getD j' 0 = if j = j' ∧ j' < d.length then f (d.getD j' 0) else d.getD j' 0 := by
  rw [List.getD_eq_getElem?_getD, List.getElem?_modify, List.getD_eq_getElem?_getD]
  by_cases hj : j' < d.length
  · rw [List.getElem?_eq_getElem hj]
    by_cases hjj : j = j'
    · simp [hjj, hj]
    · simp [hjj]
  · rw [List.getElem?_eq_none (not_lt.mp hj)]
    simp [hj]

theorem grows_modify_orStore (d : List UInt64) (j : ℕ) (mask : UInt64) : Grows d (d.modify j (orStore · mask)) := by
  refine ⟨List.length_modify _ _ _, fun j' => ?_⟩
  rw [getD_modify]
  split_ifs
  · exact covers_or_left _ _
  · exact covers_self _

/-! ## The loops -/

section loops

variable (a : ℕ)

theorem grows_addHashLoop : ∀ (left i : ℕ) (h : UInt64) (data : List UInt64),
    Grows data (addHashLoop orStore a left i h data)
  | 0, _, _, data => grows_modify_orStore data _ _
  | left + 1, i, h, data =>
    (grows_modify_orStore data _ _).trans (grows_addHashLoop left (i + 1) (rotate h) _)

/-- each round of the loop of `AddHash` leaves its word covering its two bits, where the word is one of the words -/
theorem covers_addHashLoop : ∀ (left i : ℕ) (h : UInt64) (data : List UInt64) (r : ℕ), r ≤ left →
    a ^^^ (i + r) < data.length →
    Covers ((addHashLoop orStore a left i h data).getD (a ^^^ (i + r)) 0) (probeMask (rotate^[r] h))
  | left, i, h, data, 0, _, hlt => by
    -- the first round sets the bits, and the rounds after it only add bits
    have hset : Covers ((data.modify (a ^^^ i) (orStore · (probeMask h))).getD (a ^^^ i) 0) (probeMask h) := by
      rw [getD_modify, if_pos ⟨rfl, hlt⟩]
      exact covers_or_right _ _
    cases left with
    | zero => exact hset
    | succ left => exact ((grows_addHashLoop a left (i + 1) (rotate h) _).2 _).trans hset
  | left + 1, i, h, data, r + 1, hr, hlt => by
    have hidx : a ^^^ (i + (r + 1)) = a ^^^ (i + 1 + r) := by rw [Nat.add_comm r 1, Nat.add_assoc]
    rw [hidx, Function.iterate_succ_apply]
    rw [hidx] at hlt
    exact covers_addHashLoop left (i + 1) (rotate h) _ r (Nat.le_of_succ_le_succ hr)
      (by rw [List.length_modify]; exact hlt)

/-- `DoubleProbe` finds every round's two bits set where they are -/
theorem doubleProbeLoop_of_covers (data : List UInt64) : ∀ (left i : ℕ) (h : UInt64),
    (∀ r ≤ left, Covers (data.getD (a ^^^ (i + r)) 0) (probeMask (rotate^[r] h))) →
      doubleProbeLoop data a left i h = true
  | 0, i, h, hcov => by
    have hlast : data.getD (a ^^^ i) 0 &&& probeMask h = probeMask h := hcov 0 le_rfl
    rw [doubleProbeLoop, hlast, beq_self_eq_true]
  | left + 1, i, h, hcov => by
    have hfirst : data.getD (a ^^^ i) 0 &&& probeMask h = probeMask h := hcov 0 (Nat.zero_le _)
    have hrest : ∀ r ≤ left, Covers (data.getD (a ^^^ (i + 1 + r)) 0) (probeMask (rotate^[r] (rotate h))) :=
      fun r hr => by
        have := hcov (r + 1) (Nat.succ_le_succ hr)
        rwa [Function.iterate_succ_apply, Nat.add_comm r 1, ← Nat.add_assoc] at this
    rw [doubleProbeLoop, if_neg (not_not.mpr hfirst)]
    exact doubleProbeLoop_of_covers data left (i + 1) (rotate h) hrest

end loops

/-! ## Filters -/

/-- every round's word of the hash covers that round's two bits -/
def Holds (b : DynamicBloom) (h32 : UInt32) : Prop :=
  ∀ r ≤ b.kNumDoubleProbes.toNat - 1,
    Covers (b.data.getD ((fastRange32 h32 b.kLen).toNat ^^^ r) 0) (probeMask (rotate^[r] (kGoldenRatio64 * h32.toUInt64)))

/-- the filter's probes stay in its words: it has `kLen` words, at least one round, and for every hash each round's
word `a ^ i` is below `kLen` -/
structure InRange (b : DynamicBloom) : Prop where
  length : b.data.length = b.kLen.toNat
  rounds : 0 < b.kNumDoubleProbes.toNat
  probes : ∀ h32 : UInt32, ∀ i < b.kNumDoubleProbes.toNat, (fastRange32 h32 b.kLen).toNat ^^^ i < b.kLen.toNat

theorem addHashConcurrently_eq_addHash (b : DynamicBloom) (h32 : UInt32) :
    b.addHashConcurrently h32 = b.addHash h32 := by
  have hfun : orConcurrently = orStore := funext fun v => funext fun mask => orConcurrently_eq_orStore v mask
  rw [addHashConcurrently, addHash, hfun]

@[simp] theorem addHashWith_kLen (b : DynamicBloom) (orFunc : UInt64 → UInt64 → UInt64) (h32 : UInt32) :
    (b.addHashWith orFunc h32).kLen = b.kLen := rfl

@[simp] theorem addHashWith_kNumDoubleProbes (b : DynamicBloom) (orFunc : UInt64 → UInt64 → UInt64) (h32 : UInt32) :
    (b.addHashWith orFunc h32).kNumDoubleProbes = b.kNumDoubleProbes := rfl

theorem grows_addHash (b : DynamicBloom) (h32 : UInt32) : Grows b.data (b.addHash h32).data :=
  grows_addHashLoop _ _ _ _ _

/-- growing words keep every hash found -/
theorem Holds.of_grows {b b' : DynamicBloom} {h32 : UInt32} (hb : b.Holds h32) (hk : b'.kLen = b.kLen)
    (hn : b'.kNumDoubleProbes = b.kNumDoubleProbes) (hg : Grows b.data b'.data) : b'.Holds h32 := by
  intro r hr
  rw [hk, hn] at *
  exact (hg.2 _).trans (hb r hr)

/-- after `AddHash(h)` on a filter in range, the hash is found -/
theorem holds_addHash {b : DynamicBloom} (hb : b.InRange) (h32 : UInt32) : (b.addHash h32).Holds h32 := by
  intro r hr
  have hr : r ≤ b.kNumDoubleProbes.toNat - 1 := hr
  have hk := hb.rounds
  have hlt : (fastRange32 h32 b.kLen).toNat ^^^ (0 + r) < b.data.length := by
    rw [hb.length, Nat.zero_add]
    exact hb.probes h32 r (by omega)
  have := covers_addHashLoop (fastRange32 h32 b.kLen).toNat (b.kNumDoubleProbes.toNat - 1) 0
    (kGoldenRatio64 * h32.toUInt64) b.data r hr hlt
  rwa [Nat.zero_add] at this

theorem mayContainHash_of_holds {b : DynamicBloom} {h32 : UInt32} (hb : b.Holds h32) : b.mayContainHash h32 = true := by
  apply doubleProbeLoop_of_covers
  intro r hr
  rw [Nat.zero_add]
  exact hb r hr

theorem InRange.addHash {b : DynamicBloom} (hb : b.InRange) (h32 : UInt32) : (b.addHash h32).InRange :=
  ⟨(grows_addHash b h32).1.trans hb.length, hb.rounds, hb.probes⟩

/-- the batched `MayContain` answers each key as `MayContain` does -/
theorem mayContainBatch_eq (b : DynamicBloom) (keys : List (List UInt8)) :
    b.mayContainBatch keys = keys.map b.mayContain := by
  induction keys with
  | nil => rfl
  | cons key keys ih =>
    simp only [mayContainBatch, List.map_cons, List.zip_cons_cons] at ih ⊢
    rw [ih]
    rfl

/-! ## The constructor -/

/-- `FastRange32` maps a hash below the range -/
theorem fastRange32_lt {hash range : UInt32} (hr : 0 < range.toNat) : (fastRange32 hash range).toNat < range.toNat := by
  have hprod : (range.toUInt64 * hash.toUInt64).toNat = range.toNat * hash.toNat := by
    rw [UInt64.toNat_mul, UInt32.toNat_toUInt64, UInt32.toNat_toUInt64]
    have := Nat.mul_lt_mul'' range.toNat_lt hash.toNat_lt
    exact Nat.mod_eq_of_lt (by omega)
  have hhigh : range.toNat * hash.toNat / 2 ^ 32 < range.toNat :=
    (Nat.div_lt_iff_lt_mul (by norm_num)).mpr (Nat.mul_lt_mul_of_pos_left hash.toNat_lt hr)
  have hshift : ((range.toUInt64 * hash.toUInt64) >>> 32).toNat = range.toNat * hash.toNat / 2 ^ 32 := by
    rw [UInt64.toNat_shiftRight, hprod, Nat.shiftRight_eq_div_pow]
    rfl
  rw [fastRange32, UInt64.toNat_toUInt32, hshift, Nat.mod_eq_of_lt (lt_trans hhigh range.toNat_lt)]
  exact hhigh

/-- `kLen` of blocks of `8 * P` bytes, where `total_bits + block_bits` fits in `uint32_t`: the number of blocks that
hold `total_bits`, times `P` words -/
theorem len_toNat {totalBits k : UInt32} {P : ℕ} (hB : (blockBytes k).toNat = 8 * P) (hP : 0 < P)
    (htotal : 1 ≤ totalBits.toNat) (hfit : totalBits.toNat + 64 * P ≤ 2 ^ 32) :
    (len totalBits k).toNat = (totalBits.toNat + 64 * P - 1) / (64 * P) * P := by
  have hbits : (blockBytes k * 8).toNat = 64 * P := by
    rw [UInt32.toNat_mul, hB]
    simp only [UInt32.reduceToNat]
    omega
  have hsum : (totalBits + blockBytes k * 8 - 1).toNat = totalBits.toNat + 64 * P - 1 := by
    rw [UInt32.toNat_sub, UInt32.toNat_add, hbits]
    simp only [UInt32.reduceToNat]
    omega
  -- the bytes of the blocks fit: at most an eighth of the bits
  have hblocks : (totalBits.toNat + 64 * P - 1) / (64 * P) * (8 * P) < 2 ^ 32 := by
    have hdiv := Nat.div_mul_le_self (totalBits.toNat + 64 * P - 1) (64 * P)
    have hle : (totalBits.toNat + 64 * P - 1) / (64 * P) * (8 * P) ≤
        (totalBits.toNat + 64 * P - 1) / (64 * P) * (64 * P) := Nat.mul_le_mul_left _ (by omega)
    omega
  rw [len]
  rw [UInt32.toNat_div, UInt32.toNat_mul, UInt32.toNat_div, hsum, hbits, hB, Nat.mod_eq_of_lt hblocks]
  simp only [UInt32.reduceToNat]
  rw [Nat.mul_comm 8 P, ← Nat.mul_assoc, Nat.mul_div_cancel _ (by norm_num : 0 < 8)]

/-- the block sizes of the probes `2, 4, 6, 8, 10`: `2 ^ m` words for `kNumDoubleProbes ≤ 2 ^ m` -/
theorem blockBytes_of_numProbes {numProbes : UInt32} (hprobes : numProbes ∈ [2, 4, 6, 8, 10]) :
    ∃ m, (blockBytes (numDoubleProbes numProbes)).toNat = 8 * 2 ^ m ∧
      0 < (numDoubleProbes numProbes).toNat ∧ (numDoubleProbes numProbes).toNat ≤ 2 ^ m := by
  simp only [List.mem_cons, List.not_mem_nil, or_false] at hprobes
  rcases hprobes with rfl | rfl | rfl | rfl | rfl
  · exact ⟨0, by decide, by decide, by decide⟩
  · exact ⟨1, by decide, by decide, by decide⟩
  · exact ⟨2, by decide, by decide, by decide⟩
  · exact ⟨2, by decide, by decide, by decide⟩
  · exact ⟨3, by decide, by decide, by decide⟩

/-- a filter of at least one bit, with `total_bits + block_bits ≤ 2 ^ 32`, is in range -/
theorem inRange_create {totalBits numProbes : UInt32} (htotal : 1 ≤ totalBits.toNat)
    (hprobes : numProbes ∈ [2, 4, 6, 8, 10])
    (hfit : totalBits.toNat + (blockBytes (numDoubleProbes numProbes)).toNat * 8 ≤ 2 ^ 32) :
    (create totalBits numProbes).InRange := by
  obtain ⟨m, hB, hpos, hk⟩ := blockBytes_of_numProbes hprobes
  rw [hB] at hfit
  have hlen : (len totalBits (numDoubleProbes numProbes)).toNat =
      (totalBits.toNat + 64 * 2 ^ m - 1) / (64 * 2 ^ m) * 2 ^ m :=
    len_toNat hB (Nat.two_pow_pos m) htotal (by omega)
  -- at least one block
  have hblocks : 0 < (totalBits.toNat + 64 * 2 ^ m - 1) / (64 * 2 ^ m) :=
    Nat.div_pos (by omega) (by positivity)
  refine ⟨List.length_replicate .., hpos, fun h32 i hi => ?_⟩
  have hi : i < (numDoubleProbes numProbes).toNat := hi
  change (fastRange32 h32 (len totalBits (numDoubleProbes numProbes))).toNat ^^^ i <
    (len totalBits (numDoubleProbes numProbes)).toNat
  have hpos' : 0 < (len totalBits (numDoubleProbes numProbes)).toNat := by
    rw [hlen]
    exact Nat.mul_pos hblocks (Nat.two_pow_pos m)
  have ha := @fastRange32_lt h32 _ hpos'
  rw [hlen] at ha ⊢
  exact BitFields.xor_lt_mul_two_pow ha (by omega)

/-! ## Runs -/

theorem apply_eq_addHash (b : DynamicBloom) (op : DynamicBloomOp) : b.apply op = b.addHash (Hash.bloomHash op.key) := by
  cases op with
  | add key => rfl
  | addConcurrently key => exact addHashConcurrently_eq_addHash b _

/-- a run keeps the filter in range, every hash found before, and finds the key of every call -/
theorem holds_run : ∀ {b : DynamicBloom} (ops : List DynamicBloomOp) (hashes : List UInt32), b.InRange →
    (∀ h32 ∈ hashes, b.Holds h32) →
    (b.run ops).InRange ∧ (∀ h32 ∈ hashes, (b.run ops).Holds h32) ∧
      ∀ op ∈ ops, (b.run ops).Holds (Hash.bloomHash op.key)
  | _, [], _, hb, hholds => ⟨hb, hholds, by simp⟩
  | b, op :: ops, hashes, hb, hholds => by
    have hb' : (b.apply op).InRange := by rw [apply_eq_addHash]; exact hb.addHash _
    -- the hashes found before, and the key just added
    have hholds' : ∀ h32 ∈ Hash.bloomHash op.key :: hashes, (b.apply op).Holds h32 := by
      intro h32 hmem
      rw [apply_eq_addHash]
      rcases List.mem_cons.mp hmem with rfl | hmem
      · exact holds_addHash hb _
      · exact (hholds h32 hmem).of_grows rfl rfl (grows_addHash b _)
    obtain ⟨hrange, hprev, hops⟩ := holds_run ops _ hb' hholds'
    refine ⟨hrange, fun h32 hmem => hprev h32 (List.mem_cons_of_mem _ hmem), fun op' hop' => ?_⟩
    rcases List.mem_cons.mp hop' with rfl | hop'
    · exact hprev _ (List.mem_cons_self ..)
    · exact hops op' hop'

/-- on a filter of at least one bit, with two to ten probes and `total_bits + block_bits ≤ 2 ^ 32`, after any calls of
`Add` and `AddConcurrently` every word `a ^ i` a round of `AddHash` or `DoubleProbe` touches is one of the `kLen`
words, the batched `MayContain` answers as `MayContain`, and every key added is found -/
theorem dynamicBloom_probes_in_range (totalBits numProbes : UInt32) (htotal : 1 ≤ totalBits.toNat)
    (hprobes : numProbes ∈ [2, 4, 6, 8, 10])
    (hfit : totalBits.toNat + (blockBytes (numDoubleProbes numProbes)).toNat * 8 ≤ 2 ^ 32)
    (ops : List DynamicBloomOp) :
    (∀ h32 : UInt32, ∀ i < ((create totalBits numProbes).run ops).kNumDoubleProbes.toNat,
        (fastRange32 h32 ((create totalBits numProbes).run ops).kLen).toNat ^^^ i <
          ((create totalBits numProbes).run ops).kLen.toNat) ∧
      (∀ keys, ((create totalBits numProbes).run ops).mayContainBatch keys =
        keys.map ((create totalBits numProbes).run ops).mayContain) ∧
      ∀ op ∈ ops, ((create totalBits numProbes).run ops).mayContain op.key = true := by
  obtain ⟨hrange, -, hops⟩ := holds_run ops [] (inRange_create htotal hprobes hfit) (by simp)
  refine ⟨hrange.probes, mayContainBatch_eq _, fun op hop => ?_⟩
  exact mayContainHash_of_holds (hops op hop)

theorem dynamicBloom_probes_in_range_add :
    1 ≤ (1000 : UInt32).toNat ∧ (6 : UInt32) ∈ [2, 4, 6, 8, 10] ∧
      (1000 : UInt32).toNat + (blockBytes (numDoubleProbes 6)).toNat * 8 ≤ 2 ^ 32 ∧
      ((create 1000 6).run [.add [1, 2, 3]]).mayContain [1, 2, 3] = true := by
  have htotal : 1 ≤ (1000 : UInt32).toNat := by decide
  have hprobes : (6 : UInt32) ∈ [2, 4, 6, 8, 10] := by decide
  have hfit : (1000 : UInt32).toNat + (blockBytes (numDoubleProbes 6)).toNat * 8 ≤ 2 ^ 32 := by decide
  have hfound := (dynamicBloom_probes_in_range 1000 6 htotal hprobes hfit [.add [1, 2, 3]]).2.2 (.add [1, 2, 3])
    (List.mem_singleton_self _)
  exact ⟨htotal, hprobes, hfit, hfound⟩

/-- with `total_bits = 2 ^ 32 - 1` the sum `total_bits + block_bits - 1` wraps: no block, `kLen = 0`, and the first
round's word of every hash is past the words -/
theorem dynamicBloom_probes_in_range_counterexample :
    (create 0xFFFFFFFF 2).kLen = 0 ∧ 0 < (create 0xFFFFFFFF 2).kNumDoubleProbes.toNat ∧
      ¬ (fastRange32 0 (create 0xFFFFFFFF 2).kLen).toNat ^^^ 0 < (create 0xFFFFFFFF 2).kLen.toNat := by
  decide

end DynamicBloom

end ForSt
