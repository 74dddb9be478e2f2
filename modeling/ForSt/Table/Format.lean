import ForSt.Util.Coding
import ForSt.Util.Crc32c
import ForSt.Util.Status
/-!
The SST footer (`table/format.h`, `table/format.cc`): `BlockHandle`, the builtin checksums, `FooterBuilder::Build`
and `Footer::DecodeFrom`.

A footer is 48 bytes for format_version 0 (two handles padded to 40 bytes, a legacy magic number) and 53 from
version 1 on (a checksum type, 40 bytes of part 2, the version and the magic number); from version 6 part 2 holds an
extended magic, a checksum of the footer, the base context checksum and the metaindex size. The hash functions are
parameters (`BuiltinHashes`). `DecodeFrom` returns the footer or the status of the first check that fails. Offsets
and checksums are `UInt64` and `UInt32`, wrapping as the source's do.
-/

namespace ForSt

/-- `kMagicNumberLengthByte` -/
def kMagicNumberLengthByte : ℕ := 8

/-- `BlockBasedTable::kBlockTrailerSize`: the compression type byte and the checksum after each block -/
def kBlockTrailerSize : ℕ := 5

/-- `kBlockBasedTableMagicNumber` -/
def kBlockBasedTableMagicNumber : UInt64 := 0x88e241b785f4cff7

/-- `kLegacyBlockBasedTableMagicNumber` -/
def kLegacyBlockBasedTableMagicNumber : UInt64 := 0xdb4775248b80fb57

/-- `kPlainTableMagicNumber` -/
def kPlainTableMagicNumber : UInt64 := 0x8242229663bf9564

/-- `kLegacyPlainTableMagicNumber` -/
def kLegacyPlainTableMagicNumber : UInt64 := 0x4f3418eb7a8f13b8

/-! ## Block handles -/

/-- `BlockHandle`: where a block lies in the file -/
structure BlockHandle where
  offset : UInt64
  size : UInt64
deriving DecidableEq, Repr

namespace BlockHandle

/-- `BlockHandle::kMaxEncodedLength` -/
def kMaxEncodedLength : ℕ := 2 * Coding.kMaxVarint64Length

/-- `BlockHandle::NullBlockHandle()` -/
def nullBlockHandle : BlockHandle := ⟨0, 0⟩

/-- `BlockHandle::EncodeTo` -/
def encodeTo (h : BlockHandle) : List UInt8 := Coding.putVarint64 h.offset ++ Coding.putVarint64 h.size

/-- `BlockHandle::DecodeFrom`: the handle and the rest of the input -/
def decodeFrom (input : List UInt8) : Except Status (BlockHandle × List UInt8) :=
  match Coding.getVarint64 input with
  | some (offset, input) =>
    match Coding.getVarint64 input with
    | some (size, input) => .ok (⟨offset, size⟩, input)
    | none => .error (.corruption "bad block handle")
  | none => .error (.corruption "bad block handle")

end BlockHandle

/-! ## Builtin checksums -/

/-- `ChecksumType` -/
inductive ChecksumType where
  | kNoChecksum
  | kCRC32c
  | kxxHash
  | kxxHash64
  | kXXH3
deriving DecidableEq, Repr

namespace ChecksumType

/-- the byte a checksum type is stored as -/
def toUInt8 : ChecksumType → UInt8
  | kNoChecksum => 0
  | kCRC32c => 1
  | kxxHash => 2
  | kxxHash64 => 3
  | kXXH3 => 4

/-- `lossless_cast<ChecksumType>` of a stored byte, when `IsSupportedChecksumType` accepts it -/
def ofUInt8? (b : UInt8) : Option ChecksumType :=
  match b.toNat with
  | 0 => some kNoChecksum
  | 1 => some kCRC32c
  | 2 => some kxxHash
  | 3 => some kxxHash64
  | 4 => some kXXH3
  | _ => none

end ChecksumType

/-- the hash functions `ComputeBuiltinChecksum` calls: CRC-32C through `crc32c::Extend`, `XXH32` and `XXH64` with
seed 0, and `XXH3_64bits` -/
structure BuiltinHashes where
  crc : crc32c.Crc32c
  xxh32 : List UInt8 → UInt32
  xxh64 : List UInt8 → UInt64
  xxh3 : List UInt8 → UInt64

/-- `Lower32of64` -/
def lower32of64 (v : UInt64) : UInt32 := v.toUInt32

/-- `Upper32of64` -/
def upper32of64 (v : UInt64) : UInt32 := (v >>> 32).toUInt32

/-- `ModifyChecksumForLastByte` -/
def modifyChecksumForLastByte (checksum : UInt32) (lastByte : UInt8) : UInt32 :=
  checksum ^^^ lastByte.toUInt32 * 0x6b9083d9

/-- `ComputeBuiltinChecksum` -/
def computeBuiltinChecksum (hs : BuiltinHashes) (type : ChecksumType) (data : List UInt8) : UInt32 :=
  match type with
  | .kCRC32c => crc32c.mask (hs.crc.value data)
  | .kxxHash => hs.xxh32 data
  | .kxxHash64 => lower32of64 (hs.xxh64 data)
  | .kXXH3 =>
    if data.length = 0 then 0
    else modifyChecksumForLastByte (lower32of64 (hs.xxh3 (data.take (data.length - 1)))) (data.getLastD 0)
  | .kNoChecksum => 0

/-- `ChecksumModifierForContext`: no modifier when the base context checksum is zero -/
def checksumModifierForContext (baseContextChecksum : UInt32) (offset : UInt64) : UInt32 :=
  let allOrNothing : UInt32 := 0 - (if baseContextChecksum ≠ 0 then 1 else 0)
  let modifier := baseContextChecksum ^^^ (lower32of64 offset + upper32of64 offset)
  modifier &&& allOrNothing

/-! ## The footer -/

/-- `kLatestFormatVersion` -/
def kLatestFormatVersion : UInt32 := 6

/-- `IsSupportedFormatVersion` -/
def isSupportedFormatVersion (version : UInt32) : Bool := decide (version ≤ kLatestFormatVersion)

/-- `kExtendedMagic` -/
def kExtendedMagic : List UInt8 := [0x3e, 0x00, 0x7a, 0x00]

/-- `kFooterPart2Size` -/
def kFooterPart2Size : ℕ := 2 * BlockHandle.kMaxEncodedLength

/-- `IsLegacyFooterFormat` -/
def isLegacyFooterFormat (magicNumber : UInt64) : Bool :=
  magicNumber == kLegacyBlockBasedTableMagicNumber || magicNumber == kLegacyPlainTableMagicNumber

/-- `UpconvertLegacyFooterFormat` -/
def upconvertLegacyFooterFormat (magicNumber : UInt64) : UInt64 :=
  if magicNumber = kLegacyBlockBasedTableMagicNumber then kBlockBasedTableMagicNumber
  else if magicNumber = kLegacyPlainTableMagicNumber then kPlainTableMagicNumber
  else magicNumber

/-- `DownconvertToLegacyFooterFormat` -/
def downconvertToLegacyFooterFormat (magicNumber : UInt64) : UInt64 :=
  if magicNumber = kBlockBasedTableMagicNumber then kLegacyBlockBasedTableMagicNumber
  else if magicNumber = kPlainTableMagicNumber then kLegacyPlainTableMagicNumber
  else magicNumber

/-- `BlockTrailerSizeForMagicNumber` -/
def blockTrailerSizeForMagicNumber (magicNumber : UInt64) : ℕ :=
  if magicNumber = kBlockBasedTableMagicNumber ∨ magicNumber = kLegacyBlockBasedTableMagicNumber then
    kBlockTrailerSize
  else 0

/-- `toHex` of `util/slice.cc` -/
def toHex (v : ℕ) : Char := if v ≤ 9 then Char.ofNat (48 + v) else Char.ofNat (65 + v - 10)

/-- `Slice::ToString(true)` -/
def sliceToStringHex (s : List UInt8) : String :=
  String.ofList (s.flatMap fun c => [toHex (c.toNat >>> 4), toHex (c.toNat &&& 0xf)])

/-- the fields of `Footer` that `DecodeFrom` sets -/
structure Footer where
  tableMagicNumber : UInt64
  formatVersion : UInt32
  baseContextChecksum : UInt32
  metaindexHandle : BlockHandle
  indexHandle : BlockHandle
  checksumType : ChecksumType
  blockTrailerSize : ℕ
deriving DecidableEq, Repr

namespace Footer

/-- `Footer::kVersion0EncodedLength` -/
def kVersion0EncodedLength : ℕ := 2 * BlockHandle.kMaxEncodedLength + kMagicNumberLengthByte

/-- `Footer::kNewVersionsEncodedLength` -/
def kNewVersionsEncodedLength : ℕ := 1 + 2 * BlockHandle.kMaxEncodedLength + 4 + kMagicNumberLengthByte

end Footer

/-- `FooterBuilder::Build`: the bytes of the footer -/
def FooterBuilder.build (hs : BuiltinHashes) (magicNumber : UInt64) (formatVersion : UInt32) (footerOffset : UInt64)
    (checksumType : ChecksumType) (metaindexHandle indexHandle : BlockHandle) (baseContextChecksum : UInt32) :
    Except Status (List UInt8) :=
  -- parts 1 and 3; a legacy footer has no part 1 and keeps the legacy magic number
  let part1 := if formatVersion > 0 then [checksumType.toUInt8] else []
  let part3 :=
    if formatVersion > 0 then Coding.encodeFixed32 formatVersion.toNat ++ Coding.encodeFixed64 magicNumber.toNat
    else Coding.encodeFixed64 (downconvertToLegacyFooterFormat magicNumber).toNat
  if formatVersion ≥ 6 then
    let metaindexSize := metaindexHandle.size.toUInt32
    if metaindexSize.toUInt64 ≠ metaindexHandle.size then .error (.notSupported "Metaindex block size > 4GB")
    else
      let part2 (checksum : UInt32) := kExtendedMagic ++ Coding.encodeFixed32 checksum.toNat ++
        Coding.encodeFixed32 baseContextChecksum.toNat ++ Coding.encodeFixed32 metaindexSize.toNat ++
        List.replicate 24 0
      -- the checksum covers the footer with the checksum field zeroed
      let checksum := computeBuiltinChecksum hs checksumType (part1 ++ part2 0 ++ part3) +
        checksumModifierForContext baseContextChecksum footerOffset
      .ok (part1 ++ part2 checksum ++ part3)
  else
    let handles := metaindexHandle.encodeTo ++ indexHandle.encodeTo
    .ok (part1 ++ handles ++ List.replicate (kFooterPart2Size - handles.length) 0 ++ part3)

namespace Footer

/-- the part of `Footer::DecodeFrom` that parses parts 3 and 1: the format version, the checksum type, the checksum
of the footer computed with its stored checksum cleared, the offset of the footer in the file, and the input from
part 2 on -/
def parsePart3 (hs : BuiltinHashes) (legacy : Bool) (input : List UInt8) (inputOffset : UInt64) :
    Except Status (UInt32 × ChecksumType × UInt32 × UInt64 × List UInt8) :=
  if legacy then .ok (0, .kCRC32c, 0, 0, input.drop (input.length - kVersion0EncodedLength))
  else
    let formatVersion := UInt32.ofNat (Coding.decodeFixed32 (input.drop (input.length - kMagicNumberLengthByte - 4)))
    if !isSupportedFormatVersion formatVersion then
      .error (.corruption ("Corrupt or unsupported format_version: " ++ toString formatVersion))
    else if input.length < kNewVersionsEncodedLength then .error (.corruption "Input is too short to be an SST file")
    else
      let adjustment := input.length - kNewVersionsEncodedLength
      let input := input.drop adjustment
      let footerOffset := inputOffset + UInt64.ofNat adjustment
      let chksum := input.headD 0
      match ChecksumType.ofUInt8? chksum with
      | none => .error (.corruption ("Corrupt or unsupported checksum type: " ++ toString chksum.toNat))
      | some checksumType =>
        let computedChecksum :=
          if checksumType ≠ .kNoChecksum ∧ formatVersion ≥ 6 then
            computeBuiltinChecksum hs checksumType
              (input.take 5 ++ Coding.encodeFixed32 0 ++ (input.take kNewVersionsEncodedLength).drop 9)
          else 0
        .ok (formatVersion, checksumType, computedChecksum, footerOffset, input.drop 1)

/-- the part of `Footer::DecodeFrom` that parses part 2: the base context checksum and the two handles -/
def parsePart2 (formatVersion computedChecksum : UInt32) (footerOffset : UInt64) (blockTrailerSize : ℕ)
    (input : List UInt8) : Except Status (UInt32 × BlockHandle × BlockHandle) :=
  if formatVersion ≥ 6 then
    let extMagic := input.take 4
    if extMagic ≠ kExtendedMagic then
      .error (.corruption ("Bad extended magic number: 0x" ++ sliceToStringHex extMagic))
    else
      let input := input.drop 4
      let storedChecksum := UInt32.ofNat (Coding.decodeFixed32 input)
      let baseContextChecksum := UInt32.ofNat (Coding.decodeFixed32 (input.drop 4))
      if checksumModifierForContext baseContextChecksum 0 = 0 then .error (.corruption "Invalid base context checksum")
      else if computedChecksum + checksumModifierForContext baseContextChecksum footerOffset ≠ storedChecksum then
        .error (.corruption ("Footer at " ++ toString footerOffset ++ " checksum mismatch"))
      else
        let metaindexSize := UInt32.ofNat (Coding.decodeFixed32 (input.drop 8))
        let metaindexEnd := footerOffset - UInt64.ofNat blockTrailerSize
        -- 16 bytes of unchecked padding, then 8 reserved bytes that must be zero
        if Coding.decodeFixed64 (input.drop 28) ≠ 0 then
          .error (.notSupported "File uses a future feature not supported in this version")
        else
          .ok (baseContextChecksum, ⟨metaindexEnd - metaindexSize.toUInt64, metaindexSize.toUInt64⟩,
            BlockHandle.nullBlockHandle)
  else do
    let (metaindexHandle, input) ← BlockHandle.decodeFrom input
    let (indexHandle, _) ← BlockHandle.decodeFrom input
    pure (0, metaindexHandle, indexHandle)

/-- `Footer::DecodeFrom`: the footer at the end of `input`, which starts at `inputOffset` in the file -/
def decodeFrom (hs : BuiltinHashes) (input : List UInt8) (inputOffset enforceTableMagicNumber : UInt64) :
    Except Status Footer :=
  let magic := UInt64.ofNat (Coding.decodeFixed64 (input.drop (input.length - kMagicNumberLengthByte)))
  -- legacy formats are upconverted silently
  let legacy := isLegacyFooterFormat magic
  let magic := if legacy then upconvertLegacyFooterFormat magic else magic
  if enforceTableMagicNumber ≠ 0 ∧ enforceTableMagicNumber ≠ magic then
    .error (.corruption ("Bad table magic number: expected " ++ toString enforceTableMagicNumber ++ ", found " ++
      toString magic))
  else do
    let blockTrailerSize := blockTrailerSizeForMagicNumber magic
    let (formatVersion, checksumType, computedChecksum, footerOffset, input) ← parsePart3 hs legacy input inputOffset
    let (baseContextChecksum, metaindexHandle, indexHandle) ←
      parsePart2 formatVersion computedChecksum footerOffset blockTrailerSize input
    pure ⟨magic, formatVersion, baseContextChecksum, metaindexHandle, indexHandle, checksumType, blockTrailerSize⟩

end Footer

end ForSt
