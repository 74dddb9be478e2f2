import ForSt.Table.FilterPolicy
import ForSt.Util.BloomImplSpec
import ForSt.Util.DynamicBloomSpec
import ForSt.Lib.JoinFold
import Mathlib.Data.List.Destutter
/-!
What the XXH3 filter builders keep of the keys added, and that the cache-local Bloom filter finds every one.

- `addKeys_destutter`: a run of `AddKey` keeps the hashes with adjacent repeats collapsed, and the checksum verifies.
- `addAllEntries_eq_simple`: `AddAllEntries`, which prepares up to eight entries ahead and adds the last ones in the
  order of their slots, sets the bits of the simple loop that adds each entry in turn, and depends only on which
  entries there are.
- `fastLocalBloom_addKeys_finish`: after any run of `AddKey`, `Finish` reports OK, its reader finds every key added,
  and `AddAllEntries` writes nothing at or past `len`, where the metadata is.

The adds are or-s of bit patterns, so they commute and a repeat changes nothing (`addPreparedStep_commutes`,
`_absorbs`), and a fold of such steps depends only on the set of steps (`JoinFold.foldl_eq_of_mem_iff`). The loops of
`AddAllEntries` keep an invariant: the adds done and the eight slots are the entries consumed so far.
-/

namespace ForSt

open XXPH3FilterBitsBuilder FastLocalBloomImpl

/-! ## `AddKey` -/

namespace XXPH3FilterBitsBuilder

/-- what `AddKey` keeps: with corruption detection the xor of the hashes kept, otherwise zero -/
def ChecksumOk (detectFilterConstructCorruption : Bool) (info : HashEntriesInfo) : Prop :=
  info.xorChecksum = if detectFilterConstructCorruption then info.entries.foldl (· ^^^ ·) 0 else 0

theorem checksumOk_empty (detect : Bool) : ChecksumOk detect HashEntriesInfo.empty := by
  cases detect <;> rfl

theorem mem_addKey (detect : Bool) (info : HashEntriesInfo) (hash x : BitVec 64) :
    x ∈ (addKey detect info hash).entries ↔ x ∈ info.entries ∨ x = hash := by
  unfold addKey
  split
  · simp
  · -- a repeat of the last hash is already kept
    rename_i hrep
    simp only [Bool.or_eq_true, List.isEmpty_iff, bne_iff_ne, ne_eq, not_or, not_not] at hrep
    obtain ⟨hne, hlast⟩ := hrep
    have hmem : hash ∈ info.entries := by
      rw [hlast, List.getLastD_eq_getLast?, List.getLast?_eq_some_getLast hne, Option.getD_some]
      exact List.getLast_mem hne
    exact ⟨Or.inl, fun hx => hx.elim id (fun h => h ▸ hmem)⟩

theorem mem_addKeys (detect : Bool) (info : HashEntriesInfo) (hashes : List (BitVec 64)) (x : BitVec 64) :
    x ∈ (addKeys detect info hashes).entries ↔ x ∈ info.entries ∨ x ∈ hashes := by
  induction hashes generalizing info with
  | nil => simp [addKeys]
  | cons h hs ih =>
    rw [addKeys, List.foldl_cons, ← addKeys, ih, mem_addKey]
    simp only [List.mem_cons]
    tauto

theorem checksumOk_addKey {detect : Bool} {info : HashEntriesInfo} (hinfo : ChecksumOk detect info)
    (hash : BitVec 64) : ChecksumOk detect (addKey detect info hash) := by
  unfold addKey
  split
  · unfold ChecksumOk at hinfo ⊢
    cases detect
    · simpa using hinfo
    · simp [hinfo, List.foldl_append]
  · exact hinfo

theorem checksumOk_addKeys {detect : Bool} {info : HashEntriesInfo} (hinfo : ChecksumOk detect info)
    (hashes : List (BitVec 64)) : ChecksumOk detect (addKeys detect info hashes) := by
  induction hashes generalizing info with
  | nil => exact hinfo
  | cons h hs ih => exact ih (checksumOk_addKey hinfo h)

theorem maybeVerifyHashEntriesChecksum_of_checksumOk {detect : Bool} {info : HashEntriesInfo}
    (hinfo : ChecksumOk detect info) : maybeVerifyHashEntriesChecksum detect info = .ok := by
  unfold maybeVerifyHashEntriesChecksum
  cases detect
  · rfl
  · simp [ChecksumOk] at hinfo
    simp [hinfo]

/-- `AllocateMaybeRounding` gives the target, or the usable space of the size it rounds down to -/
theorem allocateMaybeRounding_cases (roundDownUsableSpace : ℕ → ℕ) (optimizeForMemory : Bool)
    (rounding : ℕ → ℕ → Option ℕ) (targetLenWithMetadata numEntries : ℕ) :
    allocateMaybeRounding roundDownUsableSpace optimizeForMemory rounding targetLenWithMetadata numEntries =
        targetLenWithMetadata ∨
      ∃ available, rounding targetLenWithMetadata numEntries = some available ∧
        allocateMaybeRounding roundDownUsableSpace optimizeForMemory rounding targetLenWithMetadata numEntries =
          roundDownUsableSpace available := by
  unfold allocateMaybeRounding
  split
  · split
    · exact Or.inl rfl
    · rename_i available havailable
      exact Or.inr ⟨available, havailable, rfl⟩
  · exact Or.inl rfl

/-! `AddKey` appends a hash unless it repeats the last one, which is what `List.destutter (· ≠ ·)` keeps of a list
extended by the hash: the last hash kept is the list's last. -/

theorem getLastD_destutter' (a : BitVec 64) (l : List (BitVec 64)) (x : BitVec 64) :
    (l.destutter' (· ≠ ·) a).getLastD x = l.getLastD a := by
  induction l generalizing a x with
  | nil => rfl
  | cons b l ih =>
    by_cases hab : a ≠ b
    · rw [List.destutter'_cons_pos (h := hab), List.getLastD_cons, List.getLastD_cons]
      exact ih b a
    · obtain rfl : a = b := not_not.mp hab
      rw [List.destutter'_cons_neg (h := hab), List.getLastD_cons]
      exact ih a x

theorem destutter'_append_singleton (a : BitVec 64) (l : List (BitVec 64)) (b : BitVec 64) :
    (l ++ [b]).destutter' (· ≠ ·) a =
      if l.getLastD a ≠ b then l.destutter' (· ≠ ·) a ++ [b] else l.destutter' (· ≠ ·) a := by
  induction l generalizing a with
  | nil =>
    by_cases hab : a = b
    · simp [hab]
    · simp [hab]
  | cons c l ih =>
    by_cases hac : a ≠ c
    · rw [List.cons_append, List.destutter'_cons_pos (h := hac), ih, List.destutter'_cons_pos (h := hac),
        List.getLastD_cons]
      split <;> rfl
    · obtain rfl : a = c := not_not.mp hac
      rw [List.cons_append, List.destutter'_cons_neg (h := hac), ih, List.destutter'_cons_neg (h := hac),
        List.getLastD_cons]

theorem addKey_entries_destutter (detect : Bool) (l : List (BitVec 64)) (xorChecksum hash : BitVec 64) :
    (addKey detect ⟨l.destutter (· ≠ ·), xorChecksum⟩ hash).entries = (l ++ [hash]).destutter (· ≠ ·) := by
  cases l with
  | nil => simp [addKey]
  | cons a l =>
    rw [List.cons_append, List.destutter_cons', List.destutter_cons', destutter'_append_singleton]
    have hne : (l.destutter' (· ≠ ·) a).isEmpty = false := by simp [List.destutter'_ne_nil]
    unfold addKey
    simp only [hne, getLastD_destutter', Bool.false_or, bne_iff_ne, ne_eq]
    by_cases heq : hash = l.getLastD a
    · rw [if_neg (not_not.mpr heq), if_neg (fun h => h heq.symm)]
    · rw [if_pos heq, if_pos (Ne.symm heq)]

theorem addKeys_append_singleton (detect : Bool) (info : HashEntriesInfo) (hashes : List (BitVec 64))
    (hash : BitVec 64) : addKeys detect info (hashes ++ [hash]) = addKey detect (addKeys detect info hashes) hash := by
  simp [addKeys, List.foldl_append]

/-- **A run of `AddKey` keeps the hashes added with adjacent repeats collapsed, and their checksum verifies**: from a
new builder, for every sequence of hashes, the entries are the hashes with each run of equal adjacent hashes kept
once, in order, and `MaybeVerifyHashEntriesChecksum` is OK, with or without corruption detection -/
theorem addKeys_destutter (detect : Bool) (hashes : List (BitVec 64)) :
    (addKeys detect HashEntriesInfo.empty hashes).entries = hashes.destutter (· ≠ ·) ∧
      maybeVerifyHashEntriesChecksum detect (addKeys detect HashEntriesInfo.empty hashes) = .ok := by
  refine ⟨?_, maybeVerifyHashEntriesChecksum_of_checksumOk (checksumOk_addKeys (checksumOk_empty detect) hashes)⟩
  -- the entries after a prefix are the prefix with its repeats collapsed
  induction hashes using List.reverseRecOn with
  | nil => rfl
  | append_singleton hs h ih =>
    rw [addKeys_append_singleton]
    generalize addKeys detect HashEntriesInfo.empty hs = info at ih ⊢
    obtain ⟨entries, xorChecksum⟩ := info
    subst ih
    exact addKey_entries_destutter detect hs xorChecksum h

end XXPH3FilterBitsBuilder


/-! ## `AddAllEntries` -/

namespace FastLocalBloomBitsBuilder

/-- a slot of the buffer: the hash and the byte offset prepared in it -/
def AddBuffer.slot (buf : AddBuffer) (i : ℕ) : UInt32 × UInt32 := (buf.hashes.getD i 0, buf.byteOffsets.getD i 0)

/-- the hash and the byte offset `AddAllEntries` prepares for an entry -/
def prepared (len : UInt32) (h : BitVec 64) : UInt32 × UInt32 :=
  (upper32of64 (UInt64.ofBitVec h), prepareHash (lower32of64 (UInt64.ofBitVec h)) len)

theorem AddBuffer.slot_prepare (buf : AddBuffer) (len : UInt32) (i : ℕ) (h : BitVec 64) {s : ℕ}
    (hs : s < kBufferMask + 1) : (buf.prepare len i h).slot s = if i = s then prepared len h else buf.slot s := by
  unfold AddBuffer.slot AddBuffer.prepare prepared
  rw [getD_setIfInBounds _ hs, getD_setIfInBounds _ hs]
  split <;> rfl

/-- preparing an entry into a slot trades the slot's old contents for the entry's -/
theorem AddBuffer.exists_slot_prepare (buf : AddBuffer) (len : UInt32) {t : ℕ} (ht : t < kBufferMask + 1)
    (h : BitVec 64) (x : UInt32 × UInt32) :
    (x = buf.slot t ∨ ∃ s < kBufferMask + 1, (buf.prepare len t h).slot s = x) ↔
      (∃ s < kBufferMask + 1, buf.slot s = x) ∨ x = prepared len h := by
  constructor
  · rintro (rfl | ⟨s, hs, hx⟩)
    · exact Or.inl ⟨t, ht, rfl⟩
    · rw [buf.slot_prepare len t h hs] at hx
      split at hx
      · exact Or.inr hx.symm
      · exact Or.inl ⟨s, hs, hx⟩
  · rintro (⟨s, hs, hx⟩ | rfl)
    · by_cases hst : t = s
      · subst hst
        exact Or.inl hx.symm
      · exact Or.inr ⟨s, hs, by rw [buf.slot_prepare len t h hs, if_neg hst, hx]⟩
    · exact Or.inr ⟨t, ht, by rw [buf.slot_prepare len t h ht, if_pos rfl]⟩

/-- the first loop fills the slots from `i` on with the next entries, up to the last slot -/
theorem primeBuffer_spec (len : UInt32) (es : List (BitVec 64)) :
    ∀ (i : ℕ) (buf : AddBuffer), i ≤ kBufferMask + 1 →
      (primeBuffer len i es buf).1 = min (kBufferMask + 1) (i + es.length) ∧
      (primeBuffer len i es buf).2.1 = es.drop (kBufferMask + 1 - i) ∧
      ∀ s < (primeBuffer len i es buf).1, (primeBuffer len i es buf).2.2.slot s =
        if s < i then buf.slot s else prepared len (es.getD (s - i) 0) := by
  induction es with
  | nil =>
    intro i buf hi
    refine ⟨by simp [primeBuffer]; omega, by simp [primeBuffer], fun s hs => ?_⟩
    simp only [primeBuffer] at hs ⊢
    rw [if_pos hs]
  | cons h rest ih =>
    intro i buf hi
    rw [primeBuffer]
    split
    · -- slot `i` gets `h`, and the rest of the loop the rest
      rename_i hle
      obtain ⟨h1, h2, h3⟩ := ih (i + 1) (buf.prepare len i h) (by omega)
      refine ⟨by rw [h1, List.length_cons]; omega, ?_, fun s hs => ?_⟩
      · rw [h2, show kBufferMask + 1 - i = kBufferMask + 1 - (i + 1) + 1 by omega, List.drop_succ_cons]
      · have hs8 : s < kBufferMask + 1 := by rw [h1] at hs; omega
        rw [h3 s hs]
        rcases Nat.lt_trichotomy s i with hlt | rfl | hgt
        · rw [if_pos (by omega), buf.slot_prepare len i h hs8, if_neg (by omega), if_pos hlt]
        · rw [if_pos (by omega), buf.slot_prepare len s h hs8, if_pos rfl, if_neg (by omega), Nat.sub_self,
            List.getD_cons_zero]
        · rw [if_neg (by omega), if_neg (by omega), show s - i = s - (i + 1) + 1 by omega, List.getD_cons_succ]
    · -- all slots are full
      rename_i hgt
      refine ⟨by simp only [List.length_cons]; omega, by simp [show kBufferMask + 1 - i = 0 by omega], fun s hs => ?_⟩
      simp only at hs ⊢
      rw [if_pos hs]

/-- the second loop: the adds it does and what it leaves in the buffer are what the buffer held and the entries it
prepared -/
theorem processAndBuffer_spec (len : UInt32) (numProbes : ℕ) (es : List (BitVec 64)) :
    ∀ (i : ℕ) (buf : AddBuffer) (data : ℕ → UInt8), ∃ adds : List (UInt32 × UInt32),
      (processAndBuffer len numProbes i es buf data).2 = adds.foldl (addPreparedStep numProbes) data ∧
      ∀ x, (x ∈ adds ∨ ∃ s < kBufferMask + 1, (processAndBuffer len numProbes i es buf data).1.slot s = x) ↔
        (∃ s < kBufferMask + 1, buf.slot s = x) ∨ x ∈ es.map (prepared len) := by
  induction es with
  | nil => exact fun i buf data => ⟨[], rfl, fun x => by simp [processAndBuffer]⟩
  | cons h rest ih =>
    intro i buf data
    -- the slot `i & kBufferMask` is added, then takes `h`
    have ht : i &&& kBufferMask < kBufferMask + 1 := Nat.lt_succ_of_le Nat.and_le_right
    obtain ⟨adds, hdata, hmem⟩ := ih (i + 1) (buf.prepare len (i &&& kBufferMask) h)
      (buf.addSlot numProbes data (i &&& kBufferMask))
    refine ⟨buf.slot (i &&& kBufferMask) :: adds, by rw [processAndBuffer, hdata]; rfl, fun x => ?_⟩
    rw [processAndBuffer, List.mem_cons, or_assoc, hmem x, ← or_assoc,
      buf.exists_slot_prepare len ht h x, List.map_cons, List.mem_cons, or_assoc]

theorem finishProcessing_eq (numProbes : ℕ) (buf : AddBuffer) (numEntries : ℕ) (data : ℕ → UInt8) :
    finishProcessing numProbes buf numEntries data =
      ((List.range (min (kBufferMask + 1) numEntries)).map buf.slot).foldl (addPreparedStep numProbes) data := by
  rw [finishProcessing, List.foldl_map]
  rfl

/-- the first slots of the primed buffer hold the first entries -/
theorem exists_slot_primed {len : UInt32} {es : List (BitVec 64)} {buf : AddBuffer}
    (hslots : ∀ s < min (kBufferMask + 1) es.length, buf.slot s = prepared len (es.getD s 0)) (x : UInt32 × UInt32) :
    (∃ s < min (kBufferMask + 1) es.length, buf.slot s = x) ↔ x ∈ (es.take (kBufferMask + 1)).map (prepared len) := by
  rw [List.mem_map]
  constructor
  · rintro ⟨s, hs, rfl⟩
    refine ⟨es.getD s 0, ?_, (hslots s hs).symm⟩
    have hlt : s < (es.take (kBufferMask + 1)).length := by simp; omega
    have hmem : (es.take (kBufferMask + 1))[s] ∈ es.take (kBufferMask + 1) := List.getElem_mem hlt
    rwa [List.getElem_take, ← List.getD_eq_getElem _ 0] at hmem
  · rintro ⟨y, hy, rfl⟩
    obtain ⟨s, hs, rfl⟩ := List.getElem_of_mem hy
    have hs' : s < min (kBufferMask + 1) es.length := by simpa using hs
    refine ⟨s, hs', ?_⟩
    rw [hslots s hs', List.getElem_take, List.getD_eq_getElem _ _ (by omega)]

/-- `AddAllEntries` does the adds of the simple loop, in another order -/
theorem addAllEntries_eq_foldl (entries : List (BitVec 64)) (data : ℕ → UInt8) (len : UInt32) (numProbes : ℕ) :
    addAllEntries entries data len numProbes = (entries.map (prepared len)).foldl (addPreparedStep numProbes) data := by
  have hc := addPreparedStep_commutes numProbes
  have ha := addPreparedStep_absorbs numProbes
  obtain ⟨hi, hrest, hslots⟩ := primeBuffer_spec len entries 0 AddBuffer.empty (by decide)
  unfold addAllEntries
  generalize primeBuffer len 0 entries AddBuffer.empty = p at hi hrest hslots ⊢
  obtain ⟨i, rest, buf⟩ := p
  simp only [Nat.zero_add, Nat.sub_zero, Nat.not_lt_zero, if_false] at hi hrest hslots ⊢
  subst hi hrest
  have hprimed := exists_slot_primed hslots
  rcases Nat.lt_or_ge (kBufferMask + 1) entries.length with hlong | hshort
  · -- all eight slots are primed, and the second loop runs over the rest
    obtain ⟨adds, hdata, hmem⟩ := processAndBuffer_spec len numProbes (entries.drop (kBufferMask + 1))
      (min (kBufferMask + 1) entries.length) buf data
    generalize processAndBuffer len numProbes _ _ buf data = q at hdata hmem ⊢
    obtain ⟨buf', data'⟩ := q
    simp only at hdata hmem ⊢
    rw [finishProcessing_eq, hdata, ← List.foldl_append]
    refine JoinFold.foldl_eq_of_mem_iff hc ha (fun x => ?_) data
    have h8 : min (kBufferMask + 1) entries.length = kBufferMask + 1 := by omega
    rw [h8] at hprimed
    rw [List.mem_append, List.mem_map, h8]
    simp only [List.mem_range]
    rw [hmem x, hprimed, ← List.mem_append, ← List.map_append, List.take_append_drop]
  · -- the entries fit in the slots: the second loop does nothing
    rw [List.drop_eq_nil_of_le hshort]
    simp only [processAndBuffer]
    rw [finishProcessing_eq]
    refine JoinFold.foldl_eq_of_mem_iff hc ha (fun x => ?_) data
    rw [List.mem_map]
    simp only [List.mem_range]
    rw [hprimed, List.take_of_length_le hshort]


/-- **`AddAllEntries` sets the bits the simple loop sets**: for every list of entries, filter bytes, length and
number of probes, adding the entries with eight of them prepared ahead and the last ones added in the order of their
slots gives the bytes of `AddHash(Lower32of64(h), Upper32of64(h), len, num_probes, data)` for each entry in turn,
and the bytes depend only on which entries there are, not on their order or repeats -/
theorem addAllEntries_eq_simple (entries : List (BitVec 64)) (data : ℕ → UInt8) (len : UInt32) (numProbes : ℕ) :
    addAllEntries entries data len numProbes =
        entries.foldl (fun data h =>
          addHash (lower32of64 (UInt64.ofBitVec h)) (upper32of64 (UInt64.ofBitVec h)) len numProbes data) data ∧
      ∀ entries' : List (BitVec 64), (∀ h, h ∈ entries' ↔ h ∈ entries) →
        addAllEntries entries' data len numProbes = addAllEntries entries data len numProbes := by
  have hsimple : ∀ es : List (BitVec 64), es.foldl (fun data h =>
      addHash (lower32of64 (UInt64.ofBitVec h)) (upper32of64 (UInt64.ofBitVec h)) len numProbes data) data =
        (es.map (prepared len)).foldl (addPreparedStep numProbes) data := fun es => by
    rw [List.foldl_map]
    rfl
  refine ⟨by rw [addAllEntries_eq_foldl, hsimple], fun entries' hsame => ?_⟩
  rw [addAllEntries_eq_foldl, addAllEntries_eq_foldl]
  -- the prepared entries are the same set
  refine JoinFold.foldl_eq_of_mem_iff (addPreparedStep_commutes numProbes) (addPreparedStep_absorbs numProbes)
    (fun x => ?_) data
  simp only [List.mem_map]
  exact ⟨fun ⟨y, hy, hx⟩ => ⟨y, (hsame y).mp hy, hx⟩, fun ⟨y, hy, hx⟩ => ⟨y, (hsame y).mpr hy, hx⟩⟩

/-- adds of hashes whose cache lines end at or before `j` leave byte `j` as it was -/
theorem foldl_addPreparedStep_frame (numProbes : ℕ) (adds : List (UInt32 × UInt32)) {j : ℕ}
    (hadds : ∀ x ∈ adds, x.2.toNat + 64 ≤ j) (data : ℕ → UInt8) :
    adds.foldl (addPreparedStep numProbes) data j = data j := by
  induction adds generalizing data with
  | nil => rfl
  | cons x adds ih =>
    rw [List.foldl_cons, ih (fun y hy => hadds y (List.mem_cons_of_mem x hy)),
      addPreparedStep_frame numProbes data x (hadds x List.mem_cons_self)]

/-! ## The Bloom filter `Finish` writes, read back -/

/-- a length with metadata of whole cache lines, at least one, that a `uint32_t` holds -/
def WholeLines (lenWithMetadata : ℕ) : Prop :=
  (lenWithMetadata - kMetadataLen) % 64 = 0 ∧ 64 ≤ lenWithMetadata - kMetadataLen ∧
    lenWithMetadata - kMetadataLen ≤ 0xffffffc0

theorem calculateSpace_wholeLines (b : FastLocalBloomBitsBuilder) (hm : 0 < b.millibitsPerKey) {numEntries : ℕ}
    (hn : 0 < numEntries) : WholeLines (b.calculateSpace numEntries) := by
  have hnm : 1 ≤ numEntries * b.millibitsPerKey := Nat.mul_pos hn hm
  unfold calculateSpace WholeLines
  simp only [kMetadataLen]
  split_ifs <;> omega

theorem roundDownUsableSpace_wholeLines {availableSize : ℕ} (ha : kMetadataLen + 64 ≤ availableSize) :
    WholeLines (roundDownUsableSpace availableSize) := by
  unfold roundDownUsableSpace WholeLines
  dsimp only
  -- the space is capped at the maximum, and then rounded down to whole cache lines
  split <;> (unfold kMetadataLen at *; omega)

theorem allocateMaybeRounding_wholeLines (b : FastLocalBloomBitsBuilder)
    (hrounding : ∀ t ne available, b.rounding t ne = some available → kMetadataLen + 64 ≤ available)
    {target : ℕ} (ht : WholeLines target) (numEntries : ℕ) :
    WholeLines (allocateMaybeRounding roundDownUsableSpace b.optimizeForMemory b.rounding target numEntries) := by
  rcases allocateMaybeRounding_cases roundDownUsableSpace b.optimizeForMemory b.rounding target numEntries with
    h | ⟨available, havailable, h⟩
  · rw [h]
    exact ht
  · rw [h]
    exact roundDownUsableSpace_wholeLines (hrounding _ _ _ havailable)

/-- the metadata byte of one to 24 probes: `num_probes` in the low five bits, and 64-byte blocks above -/
theorem blockAndProbes_of_numProbes : ∀ n : Fin 25, 1 ≤ n.val →
    ((Int8.ofInt n.val).toUInt8.toInt8 &&& 31) = Int8.ofInt n.val ∧
      (((Int8.ofInt n.val).toUInt8.toInt8 >>> 5) &&& 7) + 6 = 6 ∧
      ¬((Int8.ofInt n.val) < 1 ∨ (Int8.ofInt n.val) > 30) ∧ (Int8.ofInt n.val).toNatClampNeg = n.val := by
  decide

/-- **`GetBuiltinFilterBitsReader` reads back the metadata the Bloom `Finish` writes**: past the marker `-1`, the
sub-implementation `0` and one to 24 probes give the `FastLocalBloomBitsReader` of the bytes before the metadata -/
theorem getBuiltinFilterBitsReader_bloom (data : ℕ → UInt8) {lenWithMetadata : ℕ} (hlen : kMetadataLen < lenWithMetadata)
    {numProbes : ℤ} (h1 : 1 ≤ numProbes) (h24 : numProbes ≤ 24) :
    BuiltinFilterPolicy.getBuiltinFilterBitsReader
        ⟨data, lenWithMetadata, [(-1 : Int8).toUInt8, 0, (Int8.ofInt numProbes).toUInt8, 0, 0]⟩ =
      .fastLocalBloom data numProbes.toNat (UInt32.ofNat (lenWithMetadata - kMetadataLen)) := by
  obtain ⟨n, rfl⟩ := Int.eq_ofNat_of_zero_le (by omega : 0 ≤ numProbes)
  obtain ⟨hprobes, hblock, hrange, hnat⟩ := blockAndProbes_of_numProbes ⟨n, by omega⟩ (by simpa using h1)
  have hmarker : ((-1 : Int8).toUInt8).toInt8 = -1 := by decide
  have hrest : Coding.decodeFixed16 [0, 0] = 0 := by decide
  unfold BuiltinFilterPolicy.getBuiltinFilterBitsReader BuiltinFilterPolicy.getBloomBitsReader
  rw [if_neg (Nat.not_le.mpr hlen)]
  simp only [List.getD_cons_succ, List.getD_cons_zero, hmarker, hprobes, hblock, hrest, hnat, Int.toNat_natCast]
  -- the marker is `-1`, the rest of the metadata zero
  rw [if_pos trivial, if_neg hrange, if_neg (by decide : ¬(0 : ℕ) ≠ 0),
    if_pos (⟨by decide, trivial⟩ : UInt8.toInt8 0 = 0 ∧ True), if_pos (by decide : (-1 : Int8) < 1),
    if_neg (by decide : (-1 : Int8) ≠ 0)]

theorem finish_status {b : FastLocalBloomBitsBuilder} {info : HashEntriesInfo}
    (hinfo : ChecksumOk b.detectFilterConstructCorruption info) : (b.finish info).2 = .ok := by
  unfold finish
  simp only [maybeVerifyHashEntriesChecksum_of_checksumOk hinfo, ite_self, ne_eq, not_true_eq_false, if_false]

theorem addAllEntries_nil (data : ℕ → UInt8) (len : UInt32) (numProbes : ℕ) :
    addAllEntries [] data len numProbes = data := by
  rw [addAllEntries_eq_foldl]
  rfl

/-- the Bloom filter `Finish` writes finds every entry, and writes no byte at or past its length -/
theorem finish_hashMayMatch (b : FastLocalBloomBitsBuilder) (hm : 0 < b.millibitsPerKey)
    (hrounding : ∀ t ne available, b.rounding t ne = some available → kMetadataLen + 64 ≤ available)
    (info : HashEntriesInfo) :
    (∀ h ∈ info.entries, (BuiltinFilterPolicy.getBuiltinFilterBitsReader (b.finish info).1).hashMayMatch h =
      some true) ∧
      ∀ j, (b.finish info).1.lenWithMetadata - kMetadataLen ≤ j → (b.finish info).1.data j = 0 := by
  by_cases hnil : info.entries = []
  · -- no entries: nothing is added
    refine ⟨fun h hh => by simp [hnil] at hh, fun j _ => ?_⟩
    simp only [finish, hnil, addAllEntries_nil, ite_self]
    split_ifs <;> rfl
  have hn : 0 < info.entries.length := List.length_pos_of_ne_nil hnil
  obtain ⟨hmod, h64, hmax⟩ := allocateMaybeRounding_wholeLines b hrounding (calculateSpace_wholeLines b hm hn)
    info.entries.length
  unfold finish
  dsimp only
  generalize allocateMaybeRounding roundDownUsableSpace b.optimizeForMemory b.rounding (b.calculateSpace _) _ = L
    at hmod h64 hmax ⊢
  obtain ⟨hp1, hp24⟩ : 1 ≤ b.getNumProbes info.entries.length L ∧ b.getNumProbes info.entries.length L ≤ 24 :=
    chooseNumProbes_mem _
  generalize b.getNumProbes info.entries.length L = numProbes at hp1 hp24 ⊢
  -- the filter's length is its whole cache lines
  have hlenNat : (UInt32.ofNat (L - kMetadataLen)).toNat = L - kMetadataLen :=
    UInt32.toNat_ofNat_of_lt' (lt_of_le_of_lt hmax (by decide))
  have hpos : UInt32.ofNat (L - kMetadataLen) > 0 := by
    rw [GT.gt, UInt32.lt_iff_toNat_lt, hlenNat]
    simp only [UInt32.toNat_zero]
    omega
  rw [if_pos hpos, if_pos hpos]
  split
  · -- the checksum fails: `FinishAlwaysTrue`
    exact ⟨fun _ _ => rfl, fun _ _ => rfl⟩
  refine ⟨fun h hh => ?_, fun j hj => ?_⟩
  · -- the reader probes the lines the entries were added to
    rw [getBuiltinFilterBitsReader_bloom _ (by unfold kMetadataLen at h64 ⊢; omega) hp1 hp24,
      FilterBitsReader.hashMayMatch, addAllEntries_eq_foldl]
    exact congrArg some (hashMayMatch_foldl_addPreparedStep _ _ _ _ (List.mem_map_of_mem hh))
  · -- every entry's cache line ends at or before the length
    show addAllEntries info.entries (fun _ => 0) _ _ j = 0
    rw [addAllEntries_eq_foldl]
    refine foldl_addPreparedStep_frame _ _ (fun x hx => ?_) _
    obtain ⟨e, -, rfl⟩ := List.mem_map.mp hx
    have hline := prepareHash_add_le (lower32of64 (UInt64.ofBitVec e)) (UInt32.ofNat (L - kMetadataLen))
      (by rw [hlenNat]; exact hmod) (by rw [hlenNat]; omega)
    rw [hlenNat] at hline
    exact hline.trans hj


/-- **A cache-local Bloom filter finds every key added**: for every `FastLocalBloomBitsBuilder` with a positive
`millibits_per_key` whose rounding keeps at least one cache line, and every sequence of hashes given to `AddKey`,
`Finish` reports OK, the reader `GetBuiltinFilterBitsReader` makes of the bytes it returns answers `HashMayMatch`
with true for every hash added, and no byte at or past `len`, where the metadata is written, was set by
`AddAllEntries` -/
theorem fastLocalBloom_addKeys_finish (b : FastLocalBloomBitsBuilder) (hm : 0 < b.millibitsPerKey)
    (hrounding : ∀ t ne available, b.rounding t ne = some available → kMetadataLen + 64 ≤ available)
    (hashes : List (BitVec 64)) :
    let filter := b.finish (addKeys b.detectFilterConstructCorruption HashEntriesInfo.empty hashes)
    filter.2 = .ok ∧
      (∀ h ∈ hashes, (BuiltinFilterPolicy.getBuiltinFilterBitsReader filter.1).hashMayMatch h = some true) ∧
      ∀ j, filter.1.lenWithMetadata - kMetadataLen ≤ j → filter.1.data j = 0 := by
  intro filter
  obtain ⟨hmatch, hframe⟩ := finish_hashMayMatch b hm hrounding
    (addKeys b.detectFilterConstructCorruption HashEntriesInfo.empty hashes)
  refine ⟨finish_status (checksumOk_addKeys (checksumOk_empty _) hashes), fun h hh => hmatch h ?_, hframe⟩
  -- every hash added is kept
  exact (mem_addKeys _ _ _ h).mpr (Or.inr hh)

/-- ten bits a key, without `optimize_filters_for_memory`, with corruption detection, and a repeated key -/
theorem fastLocalBloom_addKeys_finish_tenBits :
    let filter := (⟨10000, false, fun _ _ => none, true⟩ : FastLocalBloomBitsBuilder).finish
      (addKeys true HashEntriesInfo.empty [1, 2, 2, 3])
    filter.2 = .ok ∧
      (∀ h ∈ ([1, 2, 2, 3] : List (BitVec 64)),
        (BuiltinFilterPolicy.getBuiltinFilterBitsReader filter.1).hashMayMatch h = some true) ∧
      ∀ j, filter.1.lenWithMetadata - kMetadataLen ≤ j → filter.1.data j = 0 :=
  fastLocalBloom_addKeys_finish ⟨10000, false, fun _ _ => none, true⟩ (by decide)
    (fun _ _ _ h => absurd h (by simp)) [1, 2, 2, 3]

end FastLocalBloomBitsBuilder

end ForSt
