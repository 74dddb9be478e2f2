import ForSt.Util.Hash
import ForSt.Util.Status
/-!
The codecs of SST unique ids (`table/unique_id.cc`, `table/unique_id_impl.h`) and the base-`k` digits they print
with (`PutBaseChars`, `ParseBaseChars` of `util/string_util.h`).

A DB session id is twenty base-36 characters: eight for `upper` with the top two bits of `lower`, twelve for the rest
of `lower`; `DecodeSessionId` accepts 13 to 24 characters. An internal unique id is two or three 64-bit words; its
external form mixes the first two with `BijectiveHash2x64` and adds them to the third. A `std::string` is its list of
`char`s, with `'\0'` past its end.
-/

namespace ForSt

open ForSt.Hash

/-- the `digitChars` of `PutBaseChars` -/
def digitChars (uppercase : Bool) : List Char :=
  (if uppercase then "0123456789ABCDEFGHIJKLMNOPQRSTUVWXYZ" else "0123456789abcdefghijklmnopqrstuvwxyz").toList

/-- `PutBaseChars<kBase>(&buf, n, v, uppercase)`: the `n` characters it writes. The loop writes the last of them
from `v % kBase` and the ones before from `v / kBase`. -/
def putBaseChars (kBase : ℕ) : ℕ → UInt64 → Bool → List Char
  | 0, _, _ => []
  | n + 1, v, uppercase =>
    putBaseChars kBase n (v / kBase.toUInt64) uppercase ++ [(digitChars uppercase).getD (v % kBase.toUInt64).toNat '\x00']

/-- `ParseBaseChars<kBase>(&buf, n, &v)`: whether it succeeds, the characters after `*buf` and `*v` -/
def parseBaseChars (kBase : ℕ) : ℕ → List Char → UInt64 → Bool × List Char × UInt64
  | 0, buf, v => (true, buf, v)
  | n + 1, buf, v =>
    let c := buf.headD '\x00'
    let v := v * kBase.toUInt64
    if '0' ≤ c ∧ (if 10 ≤ kBase then c ≤ '9' else c.toNat < '0'.toNat + kBase) then
      parseBaseChars kBase n buf.tail (v + (c.toNat - '0'.toNat).toUInt64)
    else if 10 < kBase ∧ 'A' ≤ c ∧ c.toNat < 'A'.toNat + kBase - 10 then
      parseBaseChars kBase n buf.tail (v + (c.toNat - 'A'.toNat + 10).toUInt64)
    else if 10 < kBase ∧ 'a' ≤ c ∧ c.toNat < 'a'.toNat + kBase - 10 then
      parseBaseChars kBase n buf.tail (v + (c.toNat - 'a'.toNat + 10).toUInt64)
    else (false, buf, v)

/-- `EncodeSessionId(upper, lower)` -/
def encodeSessionId (upper lower : UInt64) : List Char :=
  let a := (upper <<< 2) ||| (lower >>> 62)
  -- `UINT64_MAX >> 2`
  let b := lower &&& ((0xFFFFFFFFFFFFFFFF : UInt64) >>> 2)
  putBaseChars 36 8 a true ++ putBaseChars 36 12 b true

/-- `DecodeSessionId(db_session_id, &upper, &lower)` -/
def decodeSessionId (dbSessionId : List Char) : Except Status (UInt64 × UInt64) :=
  let len := dbSessionId.length
  if len = 0 then .error (.notSupported "Missing db_session_id")
  else if len < 13 then .error (.notSupported "Too short db_session_id")
  else if len > 24 then .error (.notSupported "Too long db_session_id")
  else
    match parseBaseChars 36 (len - 12) dbSessionId 0 with
    | (false, _, _) => .error (.notSupported "Bad digit in db_session_id")
    | (true, buf, a) =>
      match parseBaseChars 36 12 buf 0 with
      | (false, _, _) => .error (.notSupported "Bad digit in db_session_id")
      | (true, _, b) => .ok (a >>> 2, (b &&& ((0xFFFFFFFFFFFFFFFF : UInt64) >>> 2)) ||| (a <<< 62))

/-- `UniqueIdPtr`: the words of a `UniqueId64x2`, or of a `UniqueId64x3` when `extended` -/
@[ext] structure UniqueIdPtr where
  ptr : List UInt64
  extended : Bool
  length_ptr : ptr.length = if extended then 3 else 2

namespace UniqueIdPtr

/-- `ptr[i]` -/
def word (p : UniqueIdPtr) (i : ℕ) : UInt64 := p.ptr.getD i 0

/-- `ptr[i] = v` -/
def setWord (p : UniqueIdPtr) (i : ℕ) (v : UInt64) : UniqueIdPtr :=
  ⟨p.ptr.set i v, p.extended, by rw [List.length_set]; exact p.length_ptr⟩

end UniqueIdPtr

/-- `kHiOffsetForZero` -/
def kHiOffsetForZero : UInt64 := 17391078804906429400

/-- `kLoOffsetForZero` -/
def kLoOffsetForZero : UInt64 := 6417269962128484497

/-- `InternalUniqueIdToExternal(in_out)` -/
def internalUniqueIdToExternal (inOut : UniqueIdPtr) : UniqueIdPtr :=
  let (hi, lo) := bijectiveHash2x64 (inOut.word 1 + kHiOffsetForZero) (inOut.word 0 + kLoOffsetForZero) 0
  let inOut := (inOut.setWord 0 lo).setWord 1 hi
  if inOut.extended then inOut.setWord 2 (inOut.word 2 + (lo + hi)) else inOut

/-- `ExternalUniqueIdToInternal(in_out)` -/
def externalUniqueIdToInternal (inOut : UniqueIdPtr) : UniqueIdPtr :=
  let lo := inOut.word 0
  let hi := inOut.word 1
  let inOut := if inOut.extended then inOut.setWord 2 (inOut.word 2 - (lo + hi)) else inOut
  let (hi, lo) := bijectiveUnhash2x64 hi lo 0
  (inOut.setWord 0 (lo - kLoOffsetForZero)).setWord 1 (hi - kHiOffsetForZero)

end ForSt
