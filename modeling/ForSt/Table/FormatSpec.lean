import ForSt.Table.Format
/-!
The footer read back: `Footer::DecodeFrom` on the bytes `FooterBuilder::Build` writes, after any prefix.

- `BlockHandle.decodeFrom_encodeTo`: a handle reads back, with what follows it.
- `build_legacy`, `build_of_lt_six`, `build_of_six`: the bytes of each footer format, part by part.
- `parsePart3_legacy`, `parsePart3_of_new`, `parsePart2_of_lt_six`, `parsePart2_of_six`: the parts of `DecodeFrom`
  on those bytes. The checksum of a version 6 footer is computed over the same bytes on both sides, so the round
  trip holds whatever the hash functions are.
- `footer_decodeFrom_build`: every footer reads back. A legacy footer stores no checksum type and reads back as
  CRC-32C; a footer before version 6 stores no base context checksum, and one of version 6 no index handle.
-/

namespace ForSt

/-! ## Handles and fixed-width words -/

namespace BlockHandle

theorem decodeFrom_encodeTo (h : BlockHandle) (rest : List UInt8) :
    decodeFrom (h.encodeTo ++ rest) = .ok (h, rest) := by
  rw [decodeFrom, encodeTo, List.append_assoc, Coding.getVarint64_putVarint64]
  dsimp only
  rw [Coding.getVarint64_putVarint64]

theorem length_encodeTo_le (h : BlockHandle) : h.encodeTo.length ≤ kMaxEncodedLength := by
  have ho := Coding.length_putVarint64_le h.offset
  have hs := Coding.length_putVarint64_le h.size
  rw [encodeTo, List.length_append, kMaxEncodedLength]
  omega

end BlockHandle

theorem ofNat_decodeFixed32_encodeFixed32 (v : UInt32) (rest : List UInt8) :
    UInt32.ofNat (Coding.decodeFixed32 (Coding.encodeFixed32 v.toNat ++ rest)) = v := by
  rw [Coding.decodeFixed32_encodeFixed32, Nat.mod_eq_of_lt v.toNat_lt]
  simp

theorem ofNat_decodeFixed64_encodeFixed64 (v : UInt64) :
    UInt64.ofNat (Coding.decodeFixed64 (Coding.encodeFixed64 v.toNat)) = v := by
  have h := Coding.decodeFixed64_encodeFixed64 v.toNat []
  rw [List.append_nil, Nat.mod_eq_of_lt v.toNat_lt] at h
  rw [h]
  simp

/-- the modifier for offset 0 is the base context checksum itself, so \x60DecodeFrom\x60 accepts every nonzero one -/
theorem checksumModifierForContext_zero {baseContextChecksum : UInt32} (h : baseContextChecksum ≠ 0) :
    checksumModifierForContext baseContextChecksum 0 = baseContextChecksum := by
  simp [checksumModifierForContext, lower32of64, upper32of64, h]

theorem ChecksumType.ofUInt8?_toUInt8 (t : ChecksumType) : ChecksumType.ofUInt8? t.toUInt8 = some t := by
  cases t <;> rfl

/-! ## Magic numbers -/

section magic

variable {magicNumber : UInt64}
  (hmagic : magicNumber = kBlockBasedTableMagicNumber ∨ magicNumber = kPlainTableMagicNumber)
include hmagic

theorem isLegacyFooterFormat_of_current : isLegacyFooterFormat magicNumber = false := by
  rcases hmagic with rfl | rfl <;> decide

theorem isLegacyFooterFormat_downconvert :
    isLegacyFooterFormat (downconvertToLegacyFooterFormat magicNumber) = true := by
  rcases hmagic with rfl | rfl <;> decide

theorem upconvert_downconvert :
    upconvertLegacyFooterFormat (downconvertToLegacyFooterFormat magicNumber) = magicNumber := by
  rcases hmagic with rfl | rfl <;> decide

end magic

/-! ## What the builder writes -/

/-- part 2 of a footer before version 6: the two handles, padded with zeros -/
def handlesPart2 (metaindexHandle indexHandle : BlockHandle) : List UInt8 :=
  metaindexHandle.encodeTo ++ indexHandle.encodeTo ++
    List.replicate (kFooterPart2Size - (metaindexHandle.encodeTo ++ indexHandle.encodeTo).length) 0

/-- part 2 of a version 6 footer -/
def part2V6 (checksum baseContextChecksum metaindexSize : UInt32) : List UInt8 :=
  kExtendedMagic ++ Coding.encodeFixed32 checksum.toNat ++ Coding.encodeFixed32 baseContextChecksum.toNat ++
    Coding.encodeFixed32 metaindexSize.toNat ++ List.replicate 24 0

/-- part 3 of a footer from version 1 on -/
def part3 (formatVersion : UInt32) (magicNumber : UInt64) : List UInt8 :=
  Coding.encodeFixed32 formatVersion.toNat ++ Coding.encodeFixed64 magicNumber.toNat

theorem length_handlesPart2 (metaindexHandle indexHandle : BlockHandle) :
    (handlesPart2 metaindexHandle indexHandle).length = kFooterPart2Size := by
  have hm := metaindexHandle.length_encodeTo_le
  have hi := indexHandle.length_encodeTo_le
  simp only [handlesPart2, List.length_append, List.length_replicate, kFooterPart2Size] at hm hi ⊢
  omega

theorem length_part2V6 (checksum baseContextChecksum metaindexSize : UInt32) :
    (part2V6 checksum baseContextChecksum metaindexSize).length = kFooterPart2Size := by
  simp [part2V6, kExtendedMagic, kFooterPart2Size, BlockHandle.kMaxEncodedLength, Coding.kMaxVarint64Length]

theorem length_part3 (formatVersion : UInt32) (magicNumber : UInt64) :
    (part3 formatVersion magicNumber).length = 12 := by
  simp [part3]

section build

variable (hs : BuiltinHashes) (magicNumber footerOffset : UInt64) (checksumType : ChecksumType)
  (metaindexHandle indexHandle : BlockHandle) (baseContextChecksum : UInt32)

/-- a legacy footer: the handles, then the legacy magic number -/
theorem build_legacy :
    FooterBuilder.build hs magicNumber 0 footerOffset checksumType metaindexHandle indexHandle baseContextChecksum =
      .ok (handlesPart2 metaindexHandle indexHandle ++
        Coding.encodeFixed64 (downconvertToLegacyFooterFormat magicNumber).toNat) := by
  simp [FooterBuilder.build, handlesPart2]

/-- a footer of versions 1 to 5: the checksum type, the handles, the version and the magic number -/
theorem build_of_lt_six {formatVersion : UInt32} (h0 : 0 < formatVersion) (h6 : formatVersion < 6) :
    FooterBuilder.build hs magicNumber formatVersion footerOffset checksumType metaindexHandle indexHandle
        baseContextChecksum =
      .ok (checksumType.toUInt8 :: (handlesPart2 metaindexHandle indexHandle ++ part3 formatVersion magicNumber)) := by
  have h6' : ¬ 6 ≤ formatVersion := UInt32.not_le.mpr h6
  simp [FooterBuilder.build, h0, h6', handlesPart2, part3]

/-- a version 6 footer: part 2 holds the checksum of the footer with that field zeroed, plus the context modifier -/
theorem build_of_six {formatVersion : UInt32} (h6 : 6 ≤ formatVersion) (hsize : metaindexHandle.size.toNat < 2 ^ 32) :
    FooterBuilder.build hs magicNumber formatVersion footerOffset checksumType metaindexHandle indexHandle
        baseContextChecksum =
      .ok (checksumType.toUInt8 ::
        (part2V6 (computeBuiltinChecksum hs checksumType (checksumType.toUInt8 ::
            (part2V6 0 baseContextChecksum metaindexHandle.size.toUInt32 ++ part3 formatVersion magicNumber)) +
          checksumModifierForContext baseContextChecksum footerOffset)
          baseContextChecksum metaindexHandle.size.toUInt32 ++ part3 formatVersion magicNumber)) := by
  have h0 : 0 < formatVersion := UInt32.lt_of_lt_of_le (show (0 : UInt32) < 6 by decide) h6
  have hfits : metaindexHandle.size.toUInt32.toUInt64 = metaindexHandle.size := by
    apply UInt64.toNat_inj.mp
    simp
    omega
  simp [FooterBuilder.build, h0, h6, hfits, part2V6, part3]

end build

/-! ## What the decoder reads -/

namespace Footer

variable (hs : BuiltinHashes)

/-- a legacy footer, after any prefix: part 2 starts 48 bytes before the end -/
theorem parsePart3_legacy (pre part2 : List UInt8) (magicNumber inputOffset : UInt64)
    (h2 : part2.length = kFooterPart2Size) :
    parsePart3 hs true (pre ++ (part2 ++ Coding.encodeFixed64 magicNumber.toNat)) inputOffset =
      .ok (0, .kCRC32c, 0, 0, part2 ++ Coding.encodeFixed64 magicNumber.toNat) := by
  have hlen : (part2 ++ Coding.encodeFixed64 magicNumber.toNat).length = kVersion0EncodedLength := by
    rw [List.length_append, h2, Coding.length_encodeFixed64]
    rfl
  rw [parsePart3, if_pos rfl, Bytes.drop_length_sub_append hlen]

/-- parts 3 and 1 of a footer from version 1 on, after any prefix: the stored checksum field is cleared in the copy
that is checksummed -/
theorem parsePart3_of_new (pre part2 : List UInt8) (checksumType : ChecksumType) {formatVersion : UInt32}
    (hfv : isSupportedFormatVersion formatVersion = true) (magicNumber inputOffset : UInt64)
    (h2 : part2.length = kFooterPart2Size) :
    parsePart3 hs false (pre ++ checksumType.toUInt8 :: (part2 ++ part3 formatVersion magicNumber)) inputOffset =
      .ok (formatVersion, checksumType,
        (if checksumType ≠ .kNoChecksum ∧ formatVersion ≥ 6 then
          computeBuiltinChecksum hs checksumType (checksumType.toUInt8 ::
            (part2.take 4 ++ Coding.encodeFixed32 0 ++ part2.drop 8 ++ part3 formatVersion magicNumber))
        else 0),
        inputOffset + UInt64.ofNat pre.length, part2 ++ part3 formatVersion magicNumber) := by
  have h40 : kFooterPart2Size = 40 := rfl
  have hfooter : (checksumType.toUInt8 :: (part2 ++ part3 formatVersion magicNumber)).length =
      kNewVersionsEncodedLength := by
    rw [List.length_cons, List.length_append, h2, length_part3]
    rfl
  have hshape : pre ++ checksumType.toUInt8 :: (part2 ++ part3 formatVersion magicNumber) =
      (pre ++ checksumType.toUInt8 :: part2) ++ part3 formatVersion magicNumber := by
    simp
  -- the version is read in front of the magic number
  have hversion : UInt32.ofNat (Coding.decodeFixed32
      ((pre ++ checksumType.toUInt8 :: (part2 ++ part3 formatVersion magicNumber)).drop
        ((pre ++ checksumType.toUInt8 :: (part2 ++ part3 formatVersion magicNumber)).length -
          kMagicNumberLengthByte - 4))) = formatVersion := by
    rw [hshape, Nat.sub_sub, Bytes.drop_length_sub_append (by rw [length_part3]; rfl), part3,
      ofNat_decodeFixed32_encodeFixed32]
  have hlong : ¬ (pre ++ checksumType.toUInt8 :: (part2 ++ part3 formatVersion magicNumber)).length <
      kNewVersionsEncodedLength := by
    rw [List.length_append, hfooter]
    omega
  have hadjust : (pre ++ checksumType.toUInt8 :: (part2 ++ part3 formatVersion magicNumber)).length -
      kNewVersionsEncodedLength = pre.length := by
    rw [List.length_append, hfooter]
    omega
  -- the checksummed copy: the checksum type, the extended magic, four zero bytes, then the rest
  have hcopy : (checksumType.toUInt8 :: (part2 ++ part3 formatVersion magicNumber)).take 5 ++ Coding.encodeFixed32 0 ++
      ((checksumType.toUInt8 :: (part2 ++ part3 formatVersion magicNumber)).take kNewVersionsEncodedLength).drop 9 =
      checksumType.toUInt8 ::
        (part2.take 4 ++ Coding.encodeFixed32 0 ++ part2.drop 8 ++ part3 formatVersion magicNumber) := by
    rw [List.take_of_length_le (le_of_eq hfooter), List.take_succ_cons, List.drop_succ_cons,
      List.take_append_of_le_length (by omega), List.drop_append_of_le_length (by omega)]
    simp only [List.cons_append, List.append_assoc]
  rw [parsePart3, if_neg Bool.false_ne_true]
  dsimp only
  rw [hversion, hfv, Bool.not_true, if_neg Bool.false_ne_true, if_neg hlong, hadjust, List.drop_left,
    List.headD_cons, ChecksumType.ofUInt8?_toUInt8]
  dsimp only
  rw [hcopy, List.drop_succ_cons, List.drop_zero]

/-- part 2 of a version 6 footer starts with the extended magic, then its three words and the reserved bytes -/
theorem part2V6_fields (checksum baseContextChecksum metaindexSize : UInt32) (rest : List UInt8) :
    (part2V6 checksum baseContextChecksum metaindexSize ++ rest).take 4 = kExtendedMagic ∧
      (part2V6 checksum baseContextChecksum metaindexSize ++ rest).drop 4 =
        Coding.encodeFixed32 checksum.toNat ++ (Coding.encodeFixed32 baseContextChecksum.toNat ++
          (Coding.encodeFixed32 metaindexSize.toNat ++ (List.replicate 16 0 ++ (Coding.encodeFixed64 0 ++ rest)))) := by
  have hzeros : (List.replicate 24 0 : List UInt8) = List.replicate 16 0 ++ Coding.encodeFixed64 0 := by decide
  have hshape : part2V6 checksum baseContextChecksum metaindexSize ++ rest =
      kExtendedMagic ++ (Coding.encodeFixed32 checksum.toNat ++ (Coding.encodeFixed32 baseContextChecksum.toNat ++
        (Coding.encodeFixed32 metaindexSize.toNat ++ (List.replicate 16 0 ++ (Coding.encodeFixed64 0 ++ rest))))) := by
    rw [part2V6, hzeros]
    simp only [List.append_assoc]
  rw [hshape]
  exact ⟨List.take_left' rfl, List.drop_left' rfl⟩

/-- part 2 before version 6: the two handles -/
theorem parsePart2_of_lt_six {formatVersion : UInt32} (h6 : formatVersion < 6) (computedChecksum : UInt32)
    (footerOffset : UInt64) (blockTrailerSize : ℕ) (metaindexHandle indexHandle : BlockHandle) (rest : List UInt8) :
    parsePart2 formatVersion computedChecksum footerOffset blockTrailerSize
        (handlesPart2 metaindexHandle indexHandle ++ rest) =
      .ok (0, metaindexHandle, indexHandle) := by
  rw [parsePart2, if_neg (UInt32.not_le.mpr h6), handlesPart2, List.append_assoc, List.append_assoc,
    BlockHandle.decodeFrom_encodeTo]
  dsimp only [bind, Except.bind]
  rw [BlockHandle.decodeFrom_encodeTo]
  rfl

/-- part 2 of a version 6 footer whose stored checksum is the one computed: the metaindex block ends where the block
trailer before the footer starts -/
theorem parsePart2_of_six {formatVersion : UInt32} (h6 : 6 ≤ formatVersion)
    {checksum baseContextChecksum metaindexSize computedChecksum : UInt32} {footerOffset : UInt64}
    (blockTrailerSize : ℕ) (rest : List UInt8) (hbase : baseContextChecksum ≠ 0)
    (hchecksum : computedChecksum + checksumModifierForContext baseContextChecksum footerOffset = checksum) :
    parsePart2 formatVersion computedChecksum footerOffset blockTrailerSize
        (part2V6 checksum baseContextChecksum metaindexSize ++ rest) =
      .ok (baseContextChecksum,
        ⟨footerOffset - UInt64.ofNat blockTrailerSize - metaindexSize.toUInt64, metaindexSize.toUInt64⟩,
        BlockHandle.nullBlockHandle) := by
  obtain ⟨hext, hafter⟩ := part2V6_fields checksum baseContextChecksum metaindexSize rest
  have h4 : ∀ (v : ℕ) (l : List UInt8), (Coding.encodeFixed32 v ++ l).drop 4 = l :=
    fun v l => List.drop_left' (Coding.length_encodeFixed32 v)
  -- the reads at offsets 4, 8 and 28 after the extended magic
  have hdrop8 : (Coding.encodeFixed32 checksum.toNat ++ (Coding.encodeFixed32 baseContextChecksum.toNat ++
      (Coding.encodeFixed32 metaindexSize.toNat ++ (List.replicate 16 0 ++ (Coding.encodeFixed64 0 ++ rest))))).drop 8 =
      Coding.encodeFixed32 metaindexSize.toNat ++ (List.replicate 16 0 ++ (Coding.encodeFixed64 0 ++ rest)) := by
    rw [show (8 : ℕ) = 4 + 4 from rfl, ← List.drop_drop, h4, h4]
  have hdrop28 : (Coding.encodeFixed32 checksum.toNat ++ (Coding.encodeFixed32 baseContextChecksum.toNat ++
      (Coding.encodeFixed32 metaindexSize.toNat ++ (List.replicate 16 0 ++ (Coding.encodeFixed64 0 ++ rest))))).drop 28 =
      Coding.encodeFixed64 0 ++ rest := by
    rw [show (28 : ℕ) = 4 + (4 + (4 + 16)) from rfl, ← List.drop_drop, ← List.drop_drop, ← List.drop_drop, h4, h4, h4,
      List.drop_left' (List.length_replicate)]
  rw [parsePart2, if_pos h6]
  dsimp only
  rw [hext, if_neg (fun h => h rfl), hafter, ofNat_decodeFixed32_encodeFixed32, h4, ofNat_decodeFixed32_encodeFixed32,
    checksumModifierForContext_zero hbase, if_neg hbase, hchecksum, if_neg (fun h => h rfl), hdrop8,
    ofNat_decodeFixed32_encodeFixed32, hdrop28, Coding.decodeFixed64_encodeFixed64, Nat.zero_mod,
    if_neg (fun h => h rfl)]

end Footer

/-- the copy `DecodeFrom` checksums, with the stored checksum cleared, is part 2 as the builder checksummed it -/
theorem part2V6_clear (checksum baseContextChecksum metaindexSize : UInt32) :
    (part2V6 checksum baseContextChecksum metaindexSize).take 4 ++ Coding.encodeFixed32 0 ++
        (part2V6 checksum baseContextChecksum metaindexSize).drop 8 =
      part2V6 0 baseContextChecksum metaindexSize := by
  have hfront : part2V6 checksum baseContextChecksum metaindexSize =
      (kExtendedMagic ++ Coding.encodeFixed32 checksum.toNat) ++ (Coding.encodeFixed32 baseContextChecksum.toNat ++
        Coding.encodeFixed32 metaindexSize.toNat ++ List.replicate 24 0) := by
    simp only [part2V6, List.append_assoc]
  rw [hfront, List.take_append_of_le_length (by simp [kExtendedMagic]),
    List.take_left' (show kExtendedMagic.length = 4 from rfl),
    List.drop_left' (show (kExtendedMagic ++ Coding.encodeFixed32 checksum.toNat).length = 8 by simp [kExtendedMagic]),
    part2V6]
  simp only [UInt32.toNat_zero, List.append_assoc]

/-- the magic number at the end of a footer -/
theorem decodeFixed64_magic {input a : List UInt8} {magicNumber : UInt64}
    (h : input = a ++ Coding.encodeFixed64 magicNumber.toNat) :
    UInt64.ofNat (Coding.decodeFixed64 (input.drop (input.length - kMagicNumberLengthByte))) = magicNumber := by
  have h8 : (Coding.encodeFixed64 magicNumber.toNat).length = kMagicNumberLengthByte := Coding.length_encodeFixed64 _
  rw [h, Bytes.drop_length_sub_append h8, ofNat_decodeFixed64_encodeFixed64]

/-! ## The round trip -/

section roundTrip

variable (hs : BuiltinHashes) {magicNumber : UInt64}
  (hmagic : magicNumber = kBlockBasedTableMagicNumber ∨ magicNumber = kPlainTableMagicNumber)
  (footerOffset : UInt64) (checksumType : ChecksumType) (metaindexHandle indexHandle : BlockHandle)
  (baseContextChecksum : UInt32) (pre : List UInt8) {inputOffset enforceTableMagicNumber : UInt64}
  (henforce : enforceTableMagicNumber = 0 ∨ enforceTableMagicNumber = magicNumber)
include hmagic henforce

omit hmagic in
theorem not_enforce_mismatch : ¬ (enforceTableMagicNumber ≠ 0 ∧ enforceTableMagicNumber ≠ magicNumber) :=
  fun ⟨h0, hm⟩ => henforce.elim h0 hm

/-- a legacy footer reads back with version 0 and CRC-32C -/
theorem decodeFrom_build_legacy :
    Footer.decodeFrom hs (pre ++ (handlesPart2 metaindexHandle indexHandle ++
        Coding.encodeFixed64 (downconvertToLegacyFooterFormat magicNumber).toNat)) inputOffset
        enforceTableMagicNumber =
      .ok ⟨magicNumber, 0, 0, metaindexHandle, indexHandle, .kCRC32c, blockTrailerSizeForMagicNumber magicNumber⟩ := by
  have hread := decodeFixed64_magic (List.append_assoc pre (handlesPart2 metaindexHandle indexHandle)
    (Coding.encodeFixed64 (downconvertToLegacyFooterFormat magicNumber).toNat)).symm
  unfold Footer.decodeFrom
  dsimp only
  rw [hread, isLegacyFooterFormat_downconvert hmagic, if_pos rfl, upconvert_downconvert hmagic,
    if_neg (not_enforce_mismatch henforce)]
  dsimp only [bind, Except.bind]
  rw [Footer.parsePart3_legacy hs pre _ _ _ (length_handlesPart2 _ _)]
  dsimp only
  rw [Footer.parsePart2_of_lt_six (by decide)]
  rfl

/-- a footer of versions 1 to 5 reads back with its checksum type and both handles -/
theorem decodeFrom_build_of_lt_six {formatVersion : UInt32} (h6 : formatVersion < 6) :
    Footer.decodeFrom hs (pre ++ checksumType.toUInt8 ::
        (handlesPart2 metaindexHandle indexHandle ++ part3 formatVersion magicNumber)) inputOffset
        enforceTableMagicNumber =
      .ok ⟨magicNumber, formatVersion, 0, metaindexHandle, indexHandle, checksumType,
        blockTrailerSizeForMagicNumber magicNumber⟩ := by
  have hfv : isSupportedFormatVersion formatVersion = true := decide_eq_true (UInt32.le_of_lt h6)
  have hshape : pre ++ checksumType.toUInt8 :: (handlesPart2 metaindexHandle indexHandle ++
      part3 formatVersion magicNumber) = (pre ++ checksumType.toUInt8 :: handlesPart2 metaindexHandle indexHandle ++
        Coding.encodeFixed32 formatVersion.toNat) ++ Coding.encodeFixed64 magicNumber.toNat := by
    simp [part3]
  have hread := decodeFixed64_magic hshape
  unfold Footer.decodeFrom
  dsimp only
  rw [hread, isLegacyFooterFormat_of_current hmagic, if_neg Bool.false_ne_true,
    if_neg (not_enforce_mismatch henforce)]
  dsimp only [bind, Except.bind]
  rw [Footer.parsePart3_of_new hs pre _ checksumType hfv magicNumber inputOffset (length_handlesPart2 _ _)]
  dsimp only
  rw [Footer.parsePart2_of_lt_six h6]
  rfl

/-- a version 6 footer reads back with its base context checksum and the metaindex handle that ends before it -/
theorem decodeFrom_build_of_six {formatVersion : UInt32} (hfv : isSupportedFormatVersion formatVersion = true)
    (h6 : 6 ≤ formatVersion) (hsize : metaindexHandle.size.toNat < 2 ^ 32)
    (hadjacent : metaindexHandle.offset + metaindexHandle.size =
      footerOffset - UInt64.ofNat (blockTrailerSizeForMagicNumber magicNumber))
    (hbase : baseContextChecksum ≠ 0) (hoff : inputOffset = footerOffset - UInt64.ofNat pre.length) :
    Footer.decodeFrom hs (pre ++ checksumType.toUInt8 ::
        (part2V6 (computeBuiltinChecksum hs checksumType (checksumType.toUInt8 ::
            (part2V6 0 baseContextChecksum metaindexHandle.size.toUInt32 ++ part3 formatVersion magicNumber)) +
          checksumModifierForContext baseContextChecksum footerOffset)
          baseContextChecksum metaindexHandle.size.toUInt32 ++ part3 formatVersion magicNumber)) inputOffset
        enforceTableMagicNumber =
      .ok ⟨magicNumber, formatVersion, baseContextChecksum, metaindexHandle, BlockHandle.nullBlockHandle,
        checksumType, blockTrailerSizeForMagicNumber magicNumber⟩ := by
  -- the footer offset the decoder works out is the one the builder was given
  have hfo : inputOffset + UInt64.ofNat pre.length = footerOffset := by
    rw [hoff]
    simp
  have hshape : pre ++ checksumType.toUInt8 :: (part2V6 (computeBuiltinChecksum hs checksumType
      (checksumType.toUInt8 :: (part2V6 0 baseContextChecksum metaindexHandle.size.toUInt32 ++
        part3 formatVersion magicNumber)) + checksumModifierForContext baseContextChecksum footerOffset)
      baseContextChecksum metaindexHandle.size.toUInt32 ++ part3 formatVersion magicNumber) =
      (pre ++ checksumType.toUInt8 :: part2V6 (computeBuiltinChecksum hs checksumType
        (checksumType.toUInt8 :: (part2V6 0 baseContextChecksum metaindexHandle.size.toUInt32 ++
          part3 formatVersion magicNumber)) + checksumModifierForContext baseContextChecksum footerOffset)
        baseContextChecksum metaindexHandle.size.toUInt32 ++ Coding.encodeFixed32 formatVersion.toNat) ++
      Coding.encodeFixed64 magicNumber.toNat := by
    simp [part3]
  have hread := decodeFixed64_magic hshape
  -- the checksum computed on reading covers the bytes the builder checksummed; none is computed for kNoChecksum
  have hcomputed : ∀ checksum : UInt32,
      (if checksumType ≠ .kNoChecksum ∧ formatVersion ≥ 6 then
        computeBuiltinChecksum hs checksumType (checksumType.toUInt8 ::
          ((part2V6 checksum baseContextChecksum metaindexHandle.size.toUInt32).take 4 ++ Coding.encodeFixed32 0 ++
            (part2V6 checksum baseContextChecksum metaindexHandle.size.toUInt32).drop 8 ++
            part3 formatVersion magicNumber))
      else 0) =
        computeBuiltinChecksum hs checksumType (checksumType.toUInt8 ::
          (part2V6 0 baseContextChecksum metaindexHandle.size.toUInt32 ++ part3 formatVersion magicNumber)) := by
    intro checksum
    rw [part2V6_clear]
    by_cases hnone : checksumType = .kNoChecksum
    · subst hnone
      rfl
    · rw [if_pos ⟨hnone, h6⟩]
  have hmeta : (⟨footerOffset - UInt64.ofNat (blockTrailerSizeForMagicNumber magicNumber) -
      metaindexHandle.size.toUInt32.toUInt64, metaindexHandle.size.toUInt32.toUInt64⟩ : BlockHandle) =
      metaindexHandle := by
    have hfits : metaindexHandle.size.toUInt32.toUInt64 = metaindexHandle.size := by
      apply UInt64.toNat_inj.mp
      simp
      omega
    rw [hfits, ← hadjacent, UInt64.add_sub_cancel]
  unfold Footer.decodeFrom
  dsimp only
  rw [hread, isLegacyFooterFormat_of_current hmagic, if_neg Bool.false_ne_true,
    if_neg (not_enforce_mismatch henforce)]
  dsimp only [bind, Except.bind]
  rw [Footer.parsePart3_of_new hs pre _ checksumType hfv magicNumber inputOffset (length_part2V6 _ _ _), hcomputed]
  dsimp only
  rw [hfo, Footer.parsePart2_of_six h6 _ _ hbase rfl, hmeta]
  rfl

omit hmagic henforce in
theorem formatVersion_cases (formatVersion : UInt32) :
    formatVersion = 0 ∨ (0 < formatVersion ∧ formatVersion < 6) ∨ 6 ≤ formatVersion := by
  by_cases h6 : 6 ≤ formatVersion
  · exact .inr (.inr h6)
  · by_cases h0 : formatVersion = 0
    · exact .inl h0
    · exact .inr (.inl ⟨UInt32.pos_iff_ne_zero.mpr h0, UInt32.not_le.mp h6⟩)

/-- the footer round trip: every footer `FooterBuilder::Build` writes, read by `Footer::DecodeFrom` after any
prefix that starts where the input says, gives back its magic number, version, checksum type and handles. A legacy
footer stores no checksum type and reads back as CRC-32C; the base context checksum is stored from version 6 on, and
the index handle only before it -/
theorem footer_decodeFrom_build {formatVersion : UInt32} (hfv : isSupportedFormatVersion formatVersion = true)
    (h6 : 6 ≤ formatVersion → metaindexHandle.size.toNat < 2 ^ 32 ∧
      metaindexHandle.offset + metaindexHandle.size =
        footerOffset - UInt64.ofNat (blockTrailerSizeForMagicNumber magicNumber) ∧
      baseContextChecksum ≠ 0)
    (hoff : inputOffset = footerOffset - UInt64.ofNat pre.length) :
    ∃ bytes, FooterBuilder.build hs magicNumber formatVersion footerOffset checksumType metaindexHandle indexHandle
        baseContextChecksum = .ok bytes ∧
      Footer.decodeFrom hs (pre ++ bytes) inputOffset enforceTableMagicNumber =
        .ok ⟨magicNumber, formatVersion, if 6 ≤ formatVersion then baseContextChecksum else 0, metaindexHandle,
          if 6 ≤ formatVersion then BlockHandle.nullBlockHandle else indexHandle,
          if formatVersion = 0 then .kCRC32c else checksumType, blockTrailerSizeForMagicNumber magicNumber⟩ := by
  rcases formatVersion_cases formatVersion with h0 | ⟨h0, hlt⟩ | hge
  · -- the legacy format
    subst h0
    refine ⟨_, build_legacy hs _ _ _ _ _ _, ?_⟩
    rw [decodeFrom_build_legacy hs hmagic _ _ _ henforce]
    rfl
  · refine ⟨_, build_of_lt_six hs _ _ _ _ _ _ h0 hlt, ?_⟩
    rw [decodeFrom_build_of_lt_six hs hmagic _ _ _ _ henforce hlt, if_neg (UInt32.not_le.mpr hlt),
      if_neg (UInt32.not_le.mpr hlt), if_neg (UInt32.pos_iff_ne_zero.mp h0)]
  · obtain ⟨hsize, hadjacent, hbase⟩ := h6 hge
    refine ⟨_, build_of_six hs _ _ _ _ _ _ hge hsize, ?_⟩
    rw [decodeFrom_build_of_six hs hmagic _ _ _ _ _ henforce hfv hge hsize hadjacent hbase hoff, if_pos hge, if_pos hge,
      if_neg (UInt32.pos_iff_ne_zero.mp (UInt32.lt_of_lt_of_le (show (0 : UInt32) < 6 by decide) hge))]

end roundTrip

/-- builtin hashes to state examples with: the bitwise CRC-32C, and constant stand-ins for the xxHash functions -/
def sampleHashes : BuiltinHashes := ⟨crc32c.bitwise, fun _ => 0, fun _ => 0, fun _ => 0⟩

theorem footer_decodeFrom_build_version6 :
    ∃ bytes, FooterBuilder.build sampleHashes kBlockBasedTableMagicNumber 6 1000 .kCRC32c ⟨900, 95⟩ ⟨0, 0⟩ 7 =
        .ok bytes ∧
      Footer.decodeFrom sampleHashes ([1, 2, 3] ++ bytes) 997 0 =
        .ok ⟨kBlockBasedTableMagicNumber, 6, if 6 ≤ (6 : UInt32) then 7 else 0, ⟨900, 95⟩,
          if 6 ≤ (6 : UInt32) then BlockHandle.nullBlockHandle else ⟨0, 0⟩,
          if (6 : UInt32) = 0 then .kCRC32c else .kCRC32c,
          blockTrailerSizeForMagicNumber kBlockBasedTableMagicNumber⟩ :=
  footer_decodeFrom_build sampleHashes (Or.inl rfl) 1000 .kCRC32c ⟨900, 95⟩ ⟨0, 0⟩ 7 [1, 2, 3] (Or.inl rfl)
    (by decide) (fun _ => ⟨by decide, by decide, by decide⟩) (by decide)

/-- a legacy footer built for a file without checksums reads back with checksum type CRC-32C -/
theorem footer_legacy_reads_back_crc32c :
    ∃ bytes, FooterBuilder.build sampleHashes kBlockBasedTableMagicNumber 0 0 .kNoChecksum ⟨0, 0⟩ ⟨0, 0⟩ 0 =
        .ok bytes ∧
      ∃ footer, Footer.decodeFrom sampleHashes bytes 0 0 = .ok footer ∧ footer.checksumType = .kCRC32c := by
  refine ⟨_, build_legacy _ _ _ _ _ _ _, ?_⟩
  refine ⟨⟨kBlockBasedTableMagicNumber, 0, 0, ⟨0, 0⟩, ⟨0, 0⟩, .kCRC32c,
    blockTrailerSizeForMagicNumber kBlockBasedTableMagicNumber⟩, ?_, rfl⟩
  rw [← List.nil_append (handlesPart2 _ _ ++ _)]
  exact decodeFrom_build_legacy sampleHashes (Or.inl rfl) _ _ [] (Or.inl rfl)

end ForSt
