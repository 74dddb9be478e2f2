import ForSt.Lib.BitFields
import ForSt.Util.HashSpec
import ForSt.Table.UniqueId
/-!
The unique-id codecs lose nothing. `ExternalUniqueIdToInternal` undoes `InternalUniqueIdToExternal` and the other
way round, for ids of two words and of three (`externalUniqueIdToInternal_internalUniqueIdToExternal`,
`internalUniqueIdToExternal_externalUniqueIdToInternal`), since the third word is moved by the sum of the first two
after mixing, which the inverse reads before unmixing. The offsets make the two zero words the only first two words
that come out zero (`internalUniqueIdToExternal_zero_iff`).

`ParseBaseChars` reads back what `PutBaseChars` writes, modulo `kBase ^ n` (`parseBaseChars_putBaseChars`), and
reads `n` characters as it reads them one at a time (`parseBaseChars_add`), as its comment says. So
`DecodeSessionId` reads `lower` back from any `EncodeSessionId(upper, lower)`, and `upper` when its eight characters
hold `upper * 4` (`decodeSessionId_encodeSessionId`).
-/

namespace ForSt

open ForSt.Hash

section BaseChars

/-- the digit `ParseBaseChars<kBase>` reads a character as, if it is one -/
def digitValue (kBase : ℕ) (c : Char) : Option ℕ :=
  if '0' ≤ c ∧ (if 10 ≤ kBase then c ≤ '9' else c.toNat < '0'.toNat + kBase) then some (c.toNat - '0'.toNat)
  else if 10 < kBase ∧ 'A' ≤ c ∧ c.toNat < 'A'.toNat + kBase - 10 then some (c.toNat - 'A'.toNat + 10)
  else if 10 < kBase ∧ 'a' ≤ c ∧ c.toNat < 'a'.toNat + kBase - 10 then some (c.toNat - 'a'.toNat + 10)
  else none

/-- one character of `ParseBaseChars`: its digit is added to `v * kBase`, or the parse stops there -/
theorem parseBaseChars_succ (kBase n : ℕ) (buf : List Char) (v : UInt64) :
    parseBaseChars kBase (n + 1) buf v =
      match digitValue kBase (buf.headD '\x00') with
      | some d => parseBaseChars kBase n buf.tail (v * kBase.toUInt64 + d.toUInt64)
      | none => (false, buf, v * kBase.toUInt64) := by
  simp only [parseBaseChars, digitValue]
  split_ifs <;> rfl

/-- `ParseBaseChars(&b, m + n, &v)` is `ParseBaseChars(&b, m, &v)` and, if it succeeds, `ParseBaseChars(&b, n, &v)` -/
theorem parseBaseChars_add (kBase m n : ℕ) (buf : List Char) (v : UInt64) :
    parseBaseChars kBase (m + n) buf v =
      if (parseBaseChars kBase m buf v).1 then
        parseBaseChars kBase n (parseBaseChars kBase m buf v).2.1 (parseBaseChars kBase m buf v).2.2
      else parseBaseChars kBase m buf v := by
  induction m generalizing buf v with
  | zero => rw [Nat.zero_add, parseBaseChars, if_pos rfl]
  | succ m ih =>
    rw [Nat.add_right_comm, parseBaseChars_succ, parseBaseChars_succ]
    cases digitValue kBase (buf.headD '\x00') with
    | none => rfl
    | some d => exact ih _ _

/-- each of the 36 upper-case digits reads as itself -/
theorem digitValue_digitChars : ∀ d : Fin 36, digitValue 36 ((digitChars true).getD d.val '\x00') = some d.val := by
  decide

@[simp] theorem length_putBaseChars (kBase n : ℕ) (v : UInt64) (uppercase : Bool) :
    (putBaseChars kBase n v uppercase).length = n := by
  induction n generalizing v with
  | zero => rfl
  | succ n ih => rw [putBaseChars, List.length_append, ih, List.length_singleton]

/-- the `n` base-36 characters of `v`, read after `acc`, are `acc * 36 ^ n + v % 36 ^ n` modulo `2 ^ 64` -/
theorem parseBaseChars_putBaseChars (n : ℕ) (v acc : UInt64) (rest : List Char) :
    parseBaseChars 36 n (putBaseChars 36 n v true ++ rest) acc =
      (true, rest, UInt64.ofNat (acc.toNat * 36 ^ n + v.toNat % 36 ^ n)) := by
  induction n generalizing v rest with
  | zero => simp [parseBaseChars, putBaseChars, Nat.mod_one]
  | succ n ih =>
    have h36 : (36 : ℕ).toUInt64 = UInt64.ofNat 36 := Nat.toUInt64_eq
    have hdiv : (v / UInt64.ofNat 36).toNat = v.toNat / 36 := UInt64.toNat_div _ _
    have hmod : (v % UInt64.ofNat 36).toNat = v.toNat % 36 := UInt64.toNat_mod _ _
    have hdigit : digitValue 36 ((digitChars true).getD (v.toNat % 36) '\x00') = some (v.toNat % 36) :=
      digitValue_digitChars ⟨v.toNat % 36, Nat.mod_lt _ (by decide)⟩
    -- the first `n` characters hold `v / 36`, the last one `v % 36`
    rw [putBaseChars, List.append_assoc, List.singleton_append, parseBaseChars_add 36 n 1, ih]
    simp only [h36, hmod, if_pos, parseBaseChars_succ, List.headD_cons, List.tail_cons, hdigit]
    rw [parseBaseChars, hdiv, Nat.toUInt64_eq, ← UInt64.ofNat_mul, ← UInt64.ofNat_add, Nat.pow_succ', Nat.mod_mul]
    congr 3
    ring

/-- what `DecodeSessionId` computes from the characters `EncodeSessionId` writes -/
theorem decodeSessionId_encodeSessionId_eq (upper lower : UInt64) :
    let a := (upper <<< 2) ||| (lower >>> 62)
    let b := lower &&& ((0xFFFFFFFFFFFFFFFF : UInt64) >>> 2)
    decodeSessionId (encodeSessionId upper lower) =
      .ok (UInt64.ofNat (a.toNat % 36 ^ 8) >>> 2,
        (UInt64.ofNat (b.toNat % 36 ^ 12) &&& ((0xFFFFFFFFFFFFFFFF : UInt64) >>> 2)) |||
          (UInt64.ofNat (a.toNat % 36 ^ 8) <<< 62)) := by
  intro a b
  have hlen : (putBaseChars 36 8 a true ++ putBaseChars 36 12 b true).length = 20 := by
    rw [List.length_append, length_putBaseChars, length_putBaseChars]
  have hfirst := parseBaseChars_putBaseChars 8 a 0 (putBaseChars 36 12 b true)
  have hsecond := parseBaseChars_putBaseChars 12 b 0 []
  rw [List.append_nil] at hsecond
  show decodeSessionId (putBaseChars 36 8 a true ++ putBaseChars 36 12 b true) = _
  rw [decodeSessionId, hlen, if_neg (by decide), if_neg (by decide), if_neg (by decide)]
  simp only [show 20 - 12 = 8 from rfl, hfirst, hsecond, UInt64.toNat_zero, Nat.zero_mul, Nat.zero_add]

/-- the word of the first eight characters: `upper` shifted left two bits, the top two bits of `lower` below it -/
theorem toNat_sessionIdHigh (upper lower : UInt64) :
    ((upper <<< 2) ||| (lower >>> 62)).toNat = upper.toNat % 2 ^ 62 * 2 ^ 2 + lower.toNat / 2 ^ 62 := by
  rw [UInt64.toNat_or, UInt64.toNat_shiftLeft, UInt64.toNat_shiftRight]
  show upper.toNat <<< 2 % 2 ^ 64 ||| lower.toNat >>> 62 = _
  rw [Nat.shiftLeft_eq, Nat.shiftRight_eq_div_pow,
    show upper.toNat * 2 ^ 2 % 2 ^ 64 = upper.toNat % 2 ^ 62 * 2 ^ 2 by omega]
  exact BitFields.mul_two_pow_or (by have := lower.toNat_lt; omega)

/-- `UINT64_MAX >> 2` keeps the low 62 bits -/
theorem toNat_and_low62 (v : UInt64) : (v &&& ((0xFFFFFFFFFFFFFFFF : UInt64) >>> 2)).toNat = v.toNat % 2 ^ 62 := by
  rw [UInt64.toNat_and, show ((0xFFFFFFFFFFFFFFFF : UInt64) >>> 2).toNat = 2 ^ 62 - 1 from rfl,
    Nat.and_two_pow_sub_one_eq_mod]

/-- the decoded `lower` is `lower`: the low 62 bits fit in twelve characters, and the top two are the low two bits
of the first word, which eight characters keep modulo `36 ^ 8`, a multiple of four -/
theorem decodedLower_eq (upper lower : UInt64) :
    (UInt64.ofNat (((lower &&& ((0xFFFFFFFFFFFFFFFF : UInt64) >>> 2))).toNat % 36 ^ 12) &&&
        ((0xFFFFFFFFFFFFFFFF : UInt64) >>> 2)) |||
      (UInt64.ofNat (((upper <<< 2) ||| (lower >>> 62)).toNat % 36 ^ 8) <<< 62) = lower := by
  apply UInt64.toNat_inj.mp
  rw [UInt64.toNat_or, toNat_and_low62, UInt64.toNat_shiftLeft, UInt64.toNat_ofNat', UInt64.toNat_ofNat',
    toNat_and_low62, toNat_sessionIdHigh]
  show _ ||| _ <<< 62 % 2 ^ 64 = _
  have hlower := lower.toNat_lt
  rw [Nat.shiftLeft_eq,
    show (upper.toNat % 2 ^ 62 * 2 ^ 2 + lower.toNat / 2 ^ 62) % 36 ^ 8 % 2 ^ 64 * 2 ^ 62 % 2 ^ 64 =
      lower.toNat / 2 ^ 62 * 2 ^ 62 by omega,
    show lower.toNat % 2 ^ 62 % 36 ^ 12 % 2 ^ 64 % 2 ^ 62 = lower.toNat % 2 ^ 62 by omega,
    Nat.lor_comm, BitFields.mul_two_pow_or (Nat.mod_lt _ (by decide)), Nat.div_add_mod']

/-- the decoded `upper` is `upper` when `upper * 4` fits in eight characters -/
theorem decodedUpper_eq (upper lower : UInt64) (hupper : 4 * upper.toNat < 36 ^ 8) :
    UInt64.ofNat (((upper <<< 2) ||| (lower >>> 62)).toNat % 36 ^ 8) >>> 2 = upper := by
  apply UInt64.toNat_inj.mp
  rw [UInt64.toNat_shiftRight, UInt64.toNat_ofNat', toNat_sessionIdHigh]
  show _ >>> 2 = _
  have hlower := lower.toNat_lt
  rw [Nat.shiftRight_eq_div_pow]
  omega

/-- `DecodeSessionId(EncodeSessionId(upper, lower))` succeeds with `lower`, and with `upper` when `upper * 4` fits in
eight characters -/
theorem decodeSessionId_encodeSessionId (upper lower : UInt64) :
    (4 * upper.toNat < 36 ^ 8 → decodeSessionId (encodeSessionId upper lower) = .ok (upper, lower)) ∧
      ∃ upper', decodeSessionId (encodeSessionId upper lower) = .ok (upper', lower) := by
  rw [decodeSessionId_encodeSessionId_eq, decodedLower_eq]
  exact ⟨fun hupper => by rw [decodedUpper_eq upper lower hupper], ⟨_, rfl⟩⟩

end BaseChars

section UniqueIds

/-- an id is two words, or three when extended -/
theorem UniqueIdPtr.eq_cases (p : UniqueIdPtr) :
    (∃ a b, p = ⟨[a, b], false, rfl⟩) ∨ (∃ a b c, p = ⟨[a, b, c], true, rfl⟩) := by
  obtain ⟨ptr, extended, hlen⟩ := p
  cases extended with
  | false =>
    obtain ⟨a, b, rfl⟩ := List.length_eq_two.mp hlen
    exact Or.inl ⟨a, b, rfl⟩
  | true =>
    obtain ⟨a, b, c, rfl⟩ := List.length_eq_three.mp hlen
    exact Or.inr ⟨a, b, c, rfl⟩

/-- the first two words of the external id are the mixed internal ones -/
theorem word_internalUniqueIdToExternal (p : UniqueIdPtr) :
    let r := bijectiveHash2x64 (p.word 1 + kHiOffsetForZero) (p.word 0 + kLoOffsetForZero) 0
    (internalUniqueIdToExternal p).word 0 = r.2 ∧ (internalUniqueIdToExternal p).word 1 = r.1 := by
  rcases p.eq_cases with ⟨a, b, rfl⟩ | ⟨a, b, c, rfl⟩ <;>
    simp [internalUniqueIdToExternal, UniqueIdPtr.word, UniqueIdPtr.setWord]

/-- `ExternalUniqueIdToInternal` undoes `InternalUniqueIdToExternal` -/
theorem externalUniqueIdToInternal_internalUniqueIdToExternal (p : UniqueIdPtr) :
    externalUniqueIdToInternal (internalUniqueIdToExternal p) = p := by
  rcases p.eq_cases with ⟨a, b, rfl⟩ | ⟨a, b, c, rfl⟩
  all_goals
    have hinv := bijectiveUnhash2x64_bijectiveHash2x64 (b + kHiOffsetForZero) (a + kLoOffsetForZero) 0
    rcases hr : bijectiveHash2x64 (b + kHiOffsetForZero) (a + kLoOffsetForZero) 0 with ⟨hi, lo⟩
    rw [hr] at hinv
    simp [internalUniqueIdToExternal, externalUniqueIdToInternal, UniqueIdPtr.word, UniqueIdPtr.setWord, hr, hinv]

/-- `InternalUniqueIdToExternal` undoes `ExternalUniqueIdToInternal` -/
theorem internalUniqueIdToExternal_externalUniqueIdToInternal (p : UniqueIdPtr) :
    internalUniqueIdToExternal (externalUniqueIdToInternal p) = p := by
  rcases p.eq_cases with ⟨a, b, rfl⟩ | ⟨a, b, c, rfl⟩
  all_goals
    have hinv := bijectiveHash2x64_bijectiveUnhash2x64 b a 0
    rcases hr : bijectiveUnhash2x64 b a 0 with ⟨hi, lo⟩
    rw [hr] at hinv
    simp [internalUniqueIdToExternal, externalUniqueIdToInternal, UniqueIdPtr.word, UniqueIdPtr.setWord, hr, hinv]

/-- the offsets mix two zero words to two zero words -/
theorem bijectiveHash2x64_offsetsForZero : bijectiveHash2x64 kHiOffsetForZero kLoOffsetForZero 0 = (0, 0) := by
  decide

/-- an external id starts with two zero words exactly when its internal id does -/
theorem internalUniqueIdToExternal_zero_iff (p : UniqueIdPtr) :
    ((internalUniqueIdToExternal p).word 0 = 0 ∧ (internalUniqueIdToExternal p).word 1 = 0) ↔
      (p.word 0 = 0 ∧ p.word 1 = 0) := by
  obtain ⟨hw0, hw1⟩ := word_internalUniqueIdToExternal p
  rw [hw0, hw1]
  constructor
  · rintro ⟨hlo, hhi⟩
    -- both pairs mix to zero, so they are one pair
    have heq : bijectiveHash2x64 (p.word 1 + kHiOffsetForZero) (p.word 0 + kLoOffsetForZero) 0 =
        bijectiveHash2x64 kHiOffsetForZero kLoOffsetForZero 0 := by
      rw [bijectiveHash2x64_offsetsForZero]
      exact Prod.ext hhi hlo
    obtain ⟨hh, hl⟩ := eq_of_bijectiveHash2x64_eq heq
    exact ⟨UInt64.add_eq_right.mp hl, UInt64.add_eq_right.mp hh⟩
  · rintro ⟨h0, h1⟩
    rw [h0, h1, UInt64.zero_add, UInt64.zero_add, bijectiveHash2x64_offsetsForZero]
    exact ⟨rfl, rfl⟩

end UniqueIds

/-- The unique-id codecs are lossless: the hash and the unhash with one seed undo each other, so do the internal
and the external form of a two- or three-word id, which start with two zero words together, and a session id gives
back its `lower`, and its `upper` when `upper * 4` fits in eight base-36 characters. -/
theorem uniqueId_codecs_lossless :
    (∀ seed h l : UInt64,
      bijectiveUnhash2x64 (bijectiveHash2x64 h l seed).1 (bijectiveHash2x64 h l seed).2 seed = (h, l) ∧
        bijectiveHash2x64 (bijectiveUnhash2x64 h l seed).1 (bijectiveUnhash2x64 h l seed).2 seed = (h, l)) ∧
    (∀ id : UniqueIdPtr,
      externalUniqueIdToInternal (internalUniqueIdToExternal id) = id ∧
        internalUniqueIdToExternal (externalUniqueIdToInternal id) = id ∧
        ((internalUniqueIdToExternal id).word 0 = 0 ∧ (internalUniqueIdToExternal id).word 1 = 0 ↔
          id.word 0 = 0 ∧ id.word 1 = 0)) ∧
    (∀ upper lower : UInt64,
      (4 * upper.toNat < 36 ^ 8 → decodeSessionId (encodeSessionId upper lower) = .ok (upper, lower)) ∧
        ∃ upper', decodeSessionId (encodeSessionId upper lower) = .ok (upper', lower)) := by
  refine ⟨fun seed h l => ⟨?_, ?_⟩, fun id => ⟨?_, ?_, ?_⟩, decodeSessionId_encodeSessionId⟩
  · exact bijectiveUnhash2x64_bijectiveHash2x64 h l seed
  · exact bijectiveHash2x64_bijectiveUnhash2x64 h l seed
  · exact externalUniqueIdToInternal_internalUniqueIdToExternal id
  · exact internalUniqueIdToExternal_externalUniqueIdToInternal id
  · exact internalUniqueIdToExternal_zero_iff id

/-- a session id whose upper part fits, read back -/
theorem uniqueId_codecs_lossless_session :
    4 * (0x1234 : UInt64).toNat < 36 ^ 8 ∧
      decodeSessionId (encodeSessionId 0x1234 0xFEDCBA9876543210) = .ok (0x1234, 0xFEDCBA9876543210) :=
  ⟨by decide, (uniqueId_codecs_lossless.2.2 0x1234 0xFEDCBA9876543210).1 (by decide)⟩

end ForSt
