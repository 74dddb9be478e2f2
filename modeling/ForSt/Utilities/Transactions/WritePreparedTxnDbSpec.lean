import ForSt.Lib.BitFields
import ForSt.Utilities.Transactions.WritePreparedTxnDb
/-!
The packed commit entry round-trips, and the commit cache returns what was committed until its slot is written again.

For a format of `b ≤ 55` index bits the filter is `b + 8` bits wide. The word built from `(p, c)` is the prepare
sequence with its low `b` bits dropped, as the high field over a low field of `b + 8` bits, and the distance
`c - p + 1` in the low field (`toNat_ofSeqs`). Parsing such a word at index `i` gives back the high field shifted
under the pad bits and or-ed with `i`, and the distance (`parse_pack`); at `i = p mod 2 ^ b` that is `(p, c)`. The
empty word has no distance and parses to nothing.

In one thread `AddCommitted` stores the packed word at `p mod COMMIT_CACHE_SIZE` (`addCommitted_eq`) and leaves every
other slot as it was, so a run of commits to other slots keeps it (`addCommittedAll_frame`).
-/

namespace ForSt

open BitFields

namespace CommitEntry64bFormat

variable {b : ℕ}

@[simp] theorem commitBits_mk (hb : b ≤ 56) : (⟨b⟩ : CommitEntry64bFormat).commitBits = b + 8 := by
  simp only [commitBits, prepBits, padBits]
  omega

theorem toNat_one_shiftLeft {k : ℕ} (hk : k < 64) : (1 <<< UInt64.ofNat k : UInt64).toNat = 2 ^ k := by
  have hk' : (UInt64.ofNat k).toNat = k := UInt64.toNat_ofNat_of_lt' (Nat.lt_trans hk (by decide))
  rw [UInt64.toNat_shiftLeft, hk', UInt64.toNat_one, Nat.mod_eq_of_lt hk, Nat.one_shiftLeft]
  exact Nat.mod_eq_of_lt (Nat.pow_lt_pow_right (by omega) hk)

theorem toNat_deltaUpperbound (hb : b ≤ 55) : (⟨b⟩ : CommitEntry64bFormat).deltaUpperbound.toNat = 2 ^ (b + 8) := by
  rw [deltaUpperbound, commitBits_mk (by omega), toNat_one_shiftLeft (by omega)]

theorem toNat_commitFilter (hb : b ≤ 55) : (⟨b⟩ : CommitEntry64bFormat).commitFilter.toNat = 2 ^ (b + 8) - 1 := by
  have hpos : 1 ≤ 2 ^ (b + 8) := Nat.one_le_two_pow
  have hlt : 2 ^ (b + 8) < 2 ^ 64 := Nat.pow_lt_pow_right (by omega) (by omega)
  rw [commitFilter, commitBits_mk (by omega), UInt64.toNat_sub, toNat_one_shiftLeft (by omega), UInt64.toNat_one]
  omega

theorem toNat_not_commitFilter (hb : b ≤ 55) :
    (~~~(⟨b⟩ : CommitEntry64bFormat).commitFilter).toNat = 2 ^ 64 - 1 - (2 ^ (b + 8) - 1) := by
  rw [UInt64.toNat_not, toNat_commitFilter hb]
  rfl

end CommitEntry64bFormat

namespace CommitEntry64b

variable {b : ℕ}

/-- the empty word parses to nothing, in every format and at every index -/
theorem parse_empty (i : UInt64) (format : CommitEntry64bFormat) : empty.parse i format = none := by
  simp [parse, empty]

/-- a word with `y` over a low field `d` of `b + 8` bits parses at index `i` to `y` shifted under the pad bits, or-ed
with `i`, and that plus `d - 1` -/
theorem parse_pack (hb : b ≤ 55) {rep d : UInt64} {y : ℕ} (hrep : rep.toNat = y * 2 ^ (b + 8) + d.toNat)
    (hd0 : 0 < d.toNat) (hd : d.toNat < 2 ^ (b + 8)) {i : UInt64} (hi : i.toNat < 2 ^ b) :
    parse ⟨rep⟩ i ⟨b⟩ = some ⟨UInt64.ofNat (y * 2 ^ b + i.toNat), UInt64.ofNat (y * 2 ^ b + i.toNat) + d - 1⟩ := by
  have hsplit : 2 ^ (b + 8) = 2 ^ b * 2 ^ 8 := Nat.pow_add 2 b 8
  have hw : rep.toNat < 2 ^ 64 := rep.toNat_lt
  -- the distance is the low field
  have hdelta : rep &&& (⟨b⟩ : CommitEntry64bFormat).commitFilter = d := by
    apply UInt64.toNat_inj.mp
    rw [UInt64.toNat_and, CommitEntry64bFormat.toNat_commitFilter hb, hrep, mul_two_pow_add_and_low hd]
  -- the high field, shifted down over the pad bits, is `y` over `b` free bits
  have hup : ((rep &&& ~~~(⟨b⟩ : CommitEntry64bFormat).commitFilter) >>>
      UInt64.ofNat (⟨b⟩ : CommitEntry64bFormat).padBits).toNat = y * 2 ^ b := by
    have hhigh : (rep &&& ~~~(⟨b⟩ : CommitEntry64bFormat).commitFilter).toNat = y * 2 ^ (b + 8) := by
      rw [UInt64.toNat_and, CommitEntry64bFormat.toNat_not_commitFilter hb, hrep]
      exact mul_two_pow_add_and_high hd (by omega) (by omega)
    have hpad : (UInt64.ofNat (⟨b⟩ : CommitEntry64bFormat).padBits).toNat % 64 = 8 := rfl
    rw [UInt64.toNat_shiftRight, hhigh, hpad, Nat.shiftRight_eq_div_pow, hsplit, ← Nat.mul_assoc,
      Nat.mul_div_cancel _ (Nat.two_pow_pos 8)]
  have hprep : ((rep &&& ~~~(⟨b⟩ : CommitEntry64bFormat).commitFilter) >>>
      UInt64.ofNat (⟨b⟩ : CommitEntry64bFormat).padBits ||| i) = UInt64.ofNat (y * 2 ^ b + i.toNat) := by
    apply UInt64.toNat_inj.mp
    have hlt : y * 2 ^ b + i.toNat < 2 ^ 64 := by
      have : y * 2 ^ b * 2 ^ 8 < 2 ^ 64 := by rw [Nat.mul_assoc, ← hsplit]; omega
      have h8 : 2 ^ b ≤ 2 ^ 55 := Nat.pow_le_pow_right (by omega) hb
      omega
    rw [UInt64.toNat_or, hup, mul_two_pow_or hi, UInt64.toNat_ofNat_of_lt' hlt]
  have hne : d ≠ 0 := by
    intro h
    rw [h] at hd0
    exact absurd hd0 (by decide)
  simp only [parse, hdelta, if_neg hne, hprep]

theorem toNat_distance {p c : UInt64} (hpc : p ≤ c) (hd : c.toNat - p.toNat + 1 < 2 ^ 64) :
    (c - p + 1).toNat = c.toNat - p.toNat + 1 := by
  rw [UInt64.toNat_add, UInt64.toNat_sub_of_le _ _ hpc, UInt64.toNat_one]
  exact Nat.mod_eq_of_lt hd

/-- the word built from `(p, c)` holds the prepare sequence above its `b` index bits over the distance -/
theorem ofSeqs_eq_ok (hb : b ≤ 55) {p c : UInt64} (hp : p.toNat < 2 ^ 56) (hpc : p ≤ c)
    (hd : c.toNat - p.toNat + 1 < 2 ^ (b + 8)) :
    ∃ rep : UInt64, ofSeqs p c ⟨b⟩ = .ok ⟨rep⟩ ∧ rep.toNat = p.toNat / 2 ^ b * 2 ^ (b + 8) + (c - p + 1).toNat := by
  have hsplit : 2 ^ (b + 8) = 2 ^ b * 2 ^ 8 := Nat.pow_add 2 b 8
  have hk : 2 ^ (b + 8) ≤ 2 ^ 63 := Nat.pow_le_pow_right (by omega) (by omega)
  have hdelta : (c - p + 1).toNat = c.toNat - p.toNat + 1 := toNat_distance hpc (by omega)
  have hfits : ¬ c - p + 1 ≥ (⟨b⟩ : CommitEntry64bFormat).deltaUpperbound := by
    rw [ge_iff_le, UInt64.le_iff_toNat_le, CommitEntry64bFormat.toNat_deltaUpperbound hb, hdelta]
    omega
  refine ⟨_, by rw [ofSeqs, if_neg hfits], ?_⟩
  -- the shift moves the prepare sequence over the pad bits; the mask then drops its index bits
  have hshift : (p <<< UInt64.ofNat (⟨b⟩ : CommitEntry64bFormat).padBits).toNat = p.toNat * 2 ^ 8 := by
    have hpad : (UInt64.ofNat (⟨b⟩ : CommitEntry64bFormat).padBits).toNat % 64 = 8 := rfl
    rw [UInt64.toNat_shiftLeft, hpad, Nat.shiftLeft_eq]
    exact Nat.mod_eq_of_lt (by omega)
  have hhigh : (p <<< UInt64.ofNat (⟨b⟩ : CommitEntry64bFormat).padBits &&&
      ~~~(⟨b⟩ : CommitEntry64bFormat).commitFilter).toNat = p.toNat / 2 ^ b * 2 ^ (b + 8) := by
    rw [UInt64.toNat_and, hshift, CommitEntry64bFormat.toNat_not_commitFilter hb,
      and_not_low_mask (by omega) (by omega), hsplit, Nat.mul_div_mul_right _ _ (Nat.two_pow_pos 8)]
  rw [UInt64.toNat_or, hhigh, mul_two_pow_or (by omega)]

/-- the word built from `(p, c)` parses back to `(p, c)` at the index `p mod 2 ^ b` -/
theorem parse_ofSeqs (hb : b ≤ 55) {p c : UInt64} (hp : p.toNat < 2 ^ 56) (hpc : p ≤ c)
    (hd : c.toNat - p.toNat + 1 < 2 ^ (b + 8)) {i : UInt64} (hi : i.toNat = p.toNat % 2 ^ b) :
    ∃ e, ofSeqs p c ⟨b⟩ = .ok e ∧ e.parse i ⟨b⟩ = some ⟨p, c⟩ := by
  obtain ⟨rep, hok, hrep⟩ := ofSeqs_eq_ok hb hp hpc hd
  have hk : 2 ^ (b + 8) ≤ 2 ^ 63 := Nat.pow_le_pow_right (by omega) (by omega)
  have hdelta : (c - p + 1).toNat = c.toNat - p.toNat + 1 := toNat_distance hpc (by omega)
  have hprep : UInt64.ofNat (p.toNat / 2 ^ b * 2 ^ b + i.toNat) = p := by
    rw [hi, Nat.div_add_mod', UInt64.ofNat_toNat]
  refine ⟨_, hok, ?_⟩
  rw [parse_pack hb hrep (by omega) (by omega) (by rw [hi]; exact Nat.mod_lt _ (Nat.two_pow_pos b)), hprep]
  -- the commit sequence is the prepare sequence plus the distance less one, in 64-bit arithmetic
  have hc : p + (c - p + 1) - 1 = c := by grind
  rw [hc]

end CommitEntry64b

namespace CommitCache

variable (c : CommitCache)

theorem toNat_commitCacheSize (h : c.commitCacheBits < 64) : c.commitCacheSize.toNat = 2 ^ c.commitCacheBits :=
  CommitEntry64bFormat.toNat_one_shiftLeft h

/-- in one thread the word loaded from the slot is still there, so `AddCommitted` stores the packed word at its
index, or throws what packing it throws -/
theorem addCommitted_eq (p cs : UInt64) :
    c.addCommitted p cs = (CommitEntry64b.ofSeqs p cs c.format).map fun w =>
      { c with commitCache := Function.update c.commitCache (p % c.commitCacheSize).toNat w } := by
  rw [addCommitted, addCommittedLoop]
  simp only [getCommitEntry, exchangeCommitEntry]
  cases CommitEntry64b.ofSeqs p cs c.format with
  | error e => rfl
  | ok w => rfl

/-- commits to other slots keep a slot's word, and the cache keeps its width -/
theorem addCommittedAll_frame {i : UInt64} :
    ∀ (calls : List (UInt64 × UInt64)) (c c' : CommitCache), c.addCommittedAll calls = .ok c' →
      (∀ q ∈ calls, q.1 % c.commitCacheSize ≠ i) → c'.commitCache i.toNat = c.commitCache i.toNat ∧
        c'.commitCacheBits = c.commitCacheBits
  | [], c, c', h, _ => by
    cases h
    exact ⟨rfl, rfl⟩
  | (p, cs) :: rest, c, c', h, hother => by
    rw [addCommittedAll, addCommitted_eq] at h
    cases hw : CommitEntry64b.ofSeqs p cs c.format with
    | error e =>
      rw [hw] at h
      cases h
    | ok w =>
      rw [hw] at h
      have hne : (p % c.commitCacheSize).toNat ≠ i.toNat := fun heq =>
        hother (p, cs) List.mem_cons_self (UInt64.toNat_inj.mp heq)
      -- the first commit stores its word and leaves the width
      let c₁ : CommitCache := { c with commitCache := Function.update c.commitCache (p % c.commitCacheSize).toNat w }
      have hrest : c₁.addCommittedAll rest = .ok c' := h
      obtain ⟨hslot, hbits⟩ :=
        addCommittedAll_frame rest c₁ c' hrest (fun q hq => hother q (List.mem_cons_of_mem _ hq))
      exact ⟨hslot.trans (Function.update_of_ne hne.symm _ _), hbits⟩

/-- a commit within reach is stored so that the slot reads it back until another commit maps to that slot -/
theorem getCommitEntry_addCommitted (hb : c.commitCacheBits ≤ 55) {p cs : UInt64} (hp : p.toNat < 2 ^ 56)
    (hpc : p ≤ cs) (hd : cs.toNat - p.toNat + 1 < 2 ^ (c.commitCacheBits + 8)) :
    ∃ c₁, c.addCommitted p cs = .ok c₁ ∧
      ∀ (calls : List (UInt64 × UInt64)) (c₂ : CommitCache),
        (∀ q ∈ calls, q.1 % c.commitCacheSize ≠ p % c.commitCacheSize) →
        c₁.addCommittedAll calls = .ok c₂ → (c₂.getCommitEntry (p % c.commitCacheSize)).2 = some ⟨p, cs⟩ := by
  have hidx : (p % c.commitCacheSize).toNat = p.toNat % 2 ^ c.commitCacheBits := by
    rw [UInt64.toNat_mod, c.toNat_commitCacheSize (by omega)]
  obtain ⟨e, hok, hparse⟩ := CommitEntry64b.parse_ofSeqs hb hp hpc hd hidx
  refine ⟨{ c with commitCache := Function.update c.commitCache (p % c.commitCacheSize).toNat e }, ?_, ?_⟩
  · rw [addCommitted_eq]
    exact congrArg (Except.map _) hok
  · intro calls c₂ hother hrun
    obtain ⟨hslot, hbits⟩ := addCommittedAll_frame calls _ c₂ hrun hother
    -- the slot still holds the packed word, and the cache still has the width it was parsed with
    have hword : c₂.commitCache (p % c.commitCacheSize).toNat = e := by
      rw [hslot]
      exact Function.update_self (p % c.commitCacheSize).toNat e c.commitCache
    have hformat : c₂.format = ⟨c.commitCacheBits⟩ := by
      rw [format, hbits]
    rw [getCommitEntry, hword, hformat]
    exact hparse

end CommitCache

/-- what the packing guarantees for a format of `b` index bits: a commit within reach round-trips through its word at
the index `p mod 2 ^ b`, the empty word parses to nothing, and a cache of that width returns a commit until another
commit maps to its slot -/
structure PackingSound (b : ℕ) : Prop where
  roundTrip : ∀ p cs : UInt64, p.toNat < 2 ^ 56 → p ≤ cs → cs.toNat - p.toNat + 1 < 2 ^ (b + 8) →
    ∃ e, CommitEntry64b.ofSeqs p cs ⟨b⟩ = .ok e ∧ e.parse (UInt64.ofNat (p.toNat % 2 ^ b)) ⟨b⟩ = some ⟨p, cs⟩
  empty : ∀ i : UInt64, CommitEntry64b.empty.parse i ⟨b⟩ = none
  cache : ∀ c : CommitCache, c.commitCacheBits = b → ∀ p cs : UInt64, p.toNat < 2 ^ 56 → p ≤ cs →
    cs.toNat - p.toNat + 1 < 2 ^ (b + 8) → ∃ c₁, c.addCommitted p cs = .ok c₁ ∧
      ∀ (calls : List (UInt64 × UInt64)) (c₂ : CommitCache),
        (∀ q ∈ calls, q.1 % c.commitCacheSize ≠ p % c.commitCacheSize) →
        c₁.addCommittedAll calls = .ok c₂ → (c₂.getCommitEntry (p % c.commitCacheSize)).2 = some ⟨p, cs⟩

theorem packing_sound {b : ℕ} (hb : b ≤ 55) : PackingSound b where
  roundTrip p cs hp hpc hd := by
    have hlt : p.toNat % 2 ^ b < 2 ^ 64 :=
      lt_of_lt_of_le (Nat.mod_lt _ (Nat.two_pow_pos b)) (Nat.pow_le_pow_right (by omega) (by omega))
    exact CommitEntry64b.parse_ofSeqs hb hp hpc hd (UInt64.toNat_ofNat_of_lt' hlt)
  empty i := CommitEntry64b.parse_empty i ⟨b⟩
  cache c hc p cs hp hpc hd := by
    subst hc
    exact c.getCommitEntry_addCommitted hb hp hpc hd

/-- at the default width of 23 bits -/
theorem packing_sound_default : 23 ≤ 55 ∧ PackingSound 23 := ⟨by decide, packing_sound (by decide)⟩

/-- the prepare sequence 5 over 2 index bits keeps 1 above them, under it the distance 3 to the commit 7 -/
example : CommitEntry64b.ofSeqs 5 7 ⟨2⟩ = .ok ⟨1 * 2 ^ 10 + 3⟩ := rfl

example : CommitEntry64b.parse ⟨1 * 2 ^ 10 + 3⟩ 1 ⟨2⟩ = some ⟨5, 7⟩ := rfl

end ForSt
