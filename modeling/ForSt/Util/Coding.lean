import ForSt.Lib.Bytes
import ForSt.Lib.Leb128
/-!
Fixed-width and variable-length coding of `util/coding.h`, `util/coding.cc` and `util/coding_lean.h`.

Fixed-width values are natural numbers; the source's `uint16_t`/`uint32_t`/`uint64_t` parameters truncate, which
`leBytes` does. `Get*` consume a prefix of the input slice and fail, leaving no value, when the slice is too short.

Varints: `EncodeVarint32` writes its five unrolled cases, which `encodeVarint32_eq` identifies with the base-128
encoding `Leb128.encode`. The decoders `GetVarint32PtrFallback` and `GetVarint64Ptr` are one loop, `getVarintPtr`,
that ORs seven-bit groups into a `bits`-wide accumulator while `shift <= maxShift`; `getVarintPtr_encode` reads
back any encoding that fits. `EncodeVarint64` is its loop, `encodeVarint64Loop`. A signed varint is the varint64
of the zigzag image of an `int64_t`, which `zigzagToI64` inverts on the bits of the word (`zigzag_toBitVec`).
-/

namespace ForSt.Coding

open ForSt.Bytes

/-- `EncodeFixed16` / `PutFixed16` -/
def encodeFixed16 (value : ℕ) : List UInt8 := leBytes 2 value

/-- `EncodeFixed32` / `PutFixed32` -/
def encodeFixed32 (value : ℕ) : List UInt8 := leBytes 4 value

/-- `EncodeFixed64` / `PutFixed64` -/
def encodeFixed64 (value : ℕ) : List UInt8 := leBytes 8 value

/-- `DecodeFixed16`: the first two bytes, little-endian -/
def decodeFixed16 (buf : List UInt8) : ℕ := ofLeBytes (buf.take 2)

/-- `DecodeFixed32` -/
def decodeFixed32 (buf : List UInt8) : ℕ := ofLeBytes (buf.take 4)

/-- `DecodeFixed64` -/
def decodeFixed64 (buf : List UInt8) : ℕ := ofLeBytes (buf.take 8)

/-- `GetFixed16(Slice* input, uint16_t* value)` -/
def getFixed16 (input : List UInt8) : Option (ℕ × List UInt8) :=
  if input.length < 2 then none else some (decodeFixed16 input, input.drop 2)

/-- `GetFixed32` -/
def getFixed32 (input : List UInt8) : Option (ℕ × List UInt8) :=
  if input.length < 4 then none else some (decodeFixed32 input, input.drop 4)

/-- `GetFixed64` -/
def getFixed64 (input : List UInt8) : Option (ℕ × List UInt8) :=
  if input.length < 8 then none else some (decodeFixed64 input, input.drop 8)

@[simp] theorem length_encodeFixed16 (v : ℕ) : (encodeFixed16 v).length = 2 := length_leBytes 2 v
@[simp] theorem length_encodeFixed32 (v : ℕ) : (encodeFixed32 v).length = 4 := length_leBytes 4 v
@[simp] theorem length_encodeFixed64 (v : ℕ) : (encodeFixed64 v).length = 8 := length_leBytes 8 v

/-- reading a fixed-width field back from the front of a buffer gives the truncated value -/
theorem ofLeBytes_take_leBytes_append (k v : ℕ) (rest : List UInt8) :
    ofLeBytes ((leBytes k v ++ rest).take k) = v % 256 ^ k := by
  rw [List.take_left' (length_leBytes k v), ofLeBytes_leBytes]

@[simp] theorem decodeFixed16_encodeFixed16 (v : ℕ) (rest : List UInt8) :
    decodeFixed16 (encodeFixed16 v ++ rest) = v % 2 ^ 16 :=
  ofLeBytes_take_leBytes_append 2 v rest

@[simp] theorem decodeFixed32_encodeFixed32 (v : ℕ) (rest : List UInt8) :
    decodeFixed32 (encodeFixed32 v ++ rest) = v % 2 ^ 32 :=
  ofLeBytes_take_leBytes_append 4 v rest

@[simp] theorem decodeFixed64_encodeFixed64 (v : ℕ) (rest : List UInt8) :
    decodeFixed64 (encodeFixed64 v ++ rest) = v % 2 ^ 64 :=
  ofLeBytes_take_leBytes_append 8 v rest

@[simp] theorem getFixed16_encodeFixed16 (v : ℕ) (rest : List UInt8) :
    getFixed16 (encodeFixed16 v ++ rest) = some (v % 2 ^ 16, rest) := by
  simp [getFixed16]; omega

@[simp] theorem getFixed32_encodeFixed32 (v : ℕ) (rest : List UInt8) :
    getFixed32 (encodeFixed32 v ++ rest) = some (v % 2 ^ 32, rest) := by
  simp [getFixed32]

@[simp] theorem getFixed64_encodeFixed64 (v : ℕ) (rest : List UInt8) :
    getFixed64 (encodeFixed64 v ++ rest) = some (v % 2 ^ 64, rest) := by
  simp [getFixed64]

/-! ## Varints -/

/-- `EncodeVarint32`: each case stores `v | 128` (and its shifts) into an `unsigned char`, keeping the low byte -/
def encodeVarint32 (v : UInt32) : List UInt8 :=
  let v := v.toNat
  if v < 2 ^ 7 then [UInt8.ofNat v]
  else if v < 2 ^ 14 then [UInt8.ofNat (v ||| 128), UInt8.ofNat (v >>> 7)]
  else if v < 2 ^ 21 then [UInt8.ofNat (v ||| 128), UInt8.ofNat ((v >>> 7) ||| 128), UInt8.ofNat (v >>> 14)]
  else if v < 2 ^ 28 then
    [UInt8.ofNat (v ||| 128), UInt8.ofNat ((v >>> 7) ||| 128), UInt8.ofNat ((v >>> 14) ||| 128),
      UInt8.ofNat (v >>> 21)]
  else
    [UInt8.ofNat (v ||| 128), UInt8.ofNat ((v >>> 7) ||| 128), UInt8.ofNat ((v >>> 14) ||| 128),
      UInt8.ofNat ((v >>> 21) ||| 128), UInt8.ofNat (v >>> 28)]

/-- `PutVarint32`: the bytes it appends -/
def putVarint32 (v : UInt32) : List UInt8 := encodeVarint32 v

/-- the loop of `GetVarint32PtrFallback` (`bits = 32`, `maxShift = 28`) and `GetVarint64Ptr` (`64`, `63`): the
value read and what follows it, or `none` when the input ends or the shift passes `maxShift` first -/
def getVarintPtr (bits maxShift : ℕ) (shift result : ℕ) : List UInt8 → Option (ℕ × List UInt8)
  | [] => none
  | b :: rest =>
    if shift ≤ maxShift then
      if b.toNat &&& 128 ≠ 0 then
        -- more bytes are present
        getVarintPtr bits maxShift (shift + 7) ((result ||| ((b.toNat &&& 127) <<< shift)) % 2 ^ bits) rest
      else some ((result ||| (b.toNat <<< shift)) % 2 ^ bits, rest)
    else none

/-- `GetVarint32PtrFallback` -/
def getVarint32PtrFallback (input : List UInt8) : Option (ℕ × List UInt8) := getVarintPtr 32 28 0 0 input

/-- `GetVarint64Ptr` -/
def getVarint64Ptr (input : List UInt8) : Option (ℕ × List UInt8) := getVarintPtr 64 63 0 0 input

/-- `GetVarint32Ptr`: a one-byte fast path in front of the fallback -/
def getVarint32Ptr (input : List UInt8) : Option (ℕ × List UInt8) :=
  match input with
  | b :: rest => if b.toNat &&& 128 = 0 then some (b.toNat, rest) else getVarint32PtrFallback input
  | [] => getVarint32PtrFallback input

/-- `GetVarint32(Slice*, uint32_t*)`: the value and the rest of the slice -/
def getVarint32 (input : List UInt8) : Option (UInt32 × List UInt8) :=
  (getVarint32Ptr input).map fun r => (UInt32.ofNat r.1, r.2)

/-- `PutLengthPrefixedSlice`: the bytes it appends; the length is cast to `uint32_t` -/
def putLengthPrefixedSlice (value : List UInt8) : List UInt8 :=
  putVarint32 (UInt32.ofNat value.length) ++ value

/-- `GetLengthPrefixedSlice(Slice*, Slice*)`: the slice read and the rest of the input -/
def getLengthPrefixedSlice (input : List UInt8) : Option (List UInt8 × List UInt8) :=
  match getVarint32 input with
  | some (len, rest) => if len.toNat ≤ rest.length then some (rest.take len.toNat, rest.drop len.toNat) else none
  | none => none

/-- the loop of `EncodeVarint64`: `(v & (B - 1)) | B` while `v >= B = 128`, then the last byte -/
def encodeVarint64Loop (v : ℕ) : List UInt8 :=
  if 128 ≤ v then UInt8.ofNat ((v &&& 127) ||| 128) :: encodeVarint64Loop (v >>> 7) else [UInt8.ofNat v]
termination_by v
decreasing_by
  rw [Nat.shiftRight_eq_div_pow]
  omega

/-- `EncodeVarint64` -/
def encodeVarint64 (v : UInt64) : List UInt8 := encodeVarint64Loop v.toNat

/-- `kMaxVarint64Length` -/
def kMaxVarint64Length : ℕ := 10

/-- `PutVarint64`: the bytes it appends -/
def putVarint64 (v : UInt64) : List UInt8 := encodeVarint64 v

/-- `GetVarint64(Slice*, uint64_t*)`: the value and the rest of the slice -/
def getVarint64 (input : List UInt8) : Option (UInt64 × List UInt8) :=
  (getVarint64Ptr input).map fun r => (UInt64.ofNat r.1, r.2)

/-- the five cases of `EncodeVarint32` are the base-128 encoding -/
theorem encodeVarint32_eq (v : UInt32) : encodeVarint32 v = Leb128.encode v.toNat := by
  have hv := v.toNat_lt
  have h14 : v.toNat >>> 7 >>> 7 = v.toNat >>> 14 := by rw [← Nat.shiftRight_add]
  have h21 : v.toNat >>> 14 >>> 7 = v.toNat >>> 21 := by rw [← Nat.shiftRight_add]
  have h28 : v.toNat >>> 21 >>> 7 = v.toNat >>> 28 := by rw [← Nat.shiftRight_add]
  have hshift : ∀ k, v.toNat >>> k = v.toNat / 2 ^ k := fun k => Nat.shiftRight_eq_div_pow _ k
  -- each case is the encoding unrolled once per byte it writes
  simp only [encodeVarint32]
  split_ifs with c1 c2 c3 c4
  · rw [Leb128.encode_of_lt c1]
  · rw [Leb128.encode_of_ge (by omega), Leb128.encode_of_lt (by rw [hshift]; omega)]
  · rw [Leb128.encode_of_ge (by omega), Leb128.encode_of_ge (by rw [hshift]; omega), h14,
      Leb128.encode_of_lt (by rw [hshift]; omega)]
  · rw [Leb128.encode_of_ge (by omega), Leb128.encode_of_ge (by rw [hshift]; omega), h14,
      Leb128.encode_of_ge (by rw [hshift]; omega), h21, Leb128.encode_of_lt (by rw [hshift]; omega)]
  · rw [Leb128.encode_of_ge (by omega), Leb128.encode_of_ge (by rw [hshift]; omega), h14,
      Leb128.encode_of_ge (by rw [hshift]; omega), h21, Leb128.encode_of_ge (by rw [hshift]; omega), h28,
      Leb128.encode_of_lt (by rw [hshift]; omega)]

section getVarintPtr

variable {bits maxShift shift result : ℕ} {b : UInt8} {rest : List UInt8}

/-- a byte without the continuation bit ends the varint -/
theorem getVarintPtr_last (h : shift ≤ maxShift) (hb : b.toNat < 128) (hres : result < 2 ^ shift) :
    getVarintPtr bits maxShift shift result (b :: rest) = some ((result + b.toNat * 2 ^ shift) % 2 ^ bits, rest) := by
  have hz : b.toNat &&& 128 = 0 := (Leb128.and_128_eq_zero b.toNat_lt).2 hb
  rw [getVarintPtr, if_pos h, if_neg (not_not.2 hz), Leb128.or_shiftLeft_eq_add _ hres]

/-- a byte with the continuation bit adds its low seven bits and moves on -/
theorem getVarintPtr_more (h : shift ≤ maxShift) (hb : 128 ≤ b.toNat) (hres : result < 2 ^ shift) :
    getVarintPtr bits maxShift shift result (b :: rest) =
      getVarintPtr bits maxShift (shift + 7) ((result + b.toNat % 128 * 2 ^ shift) % 2 ^ bits) rest := by
  have hnz : b.toNat &&& 128 ≠ 0 := fun hz => absurd ((Leb128.and_128_eq_zero b.toNat_lt).1 hz) (by omega)
  rw [getVarintPtr, if_pos h, if_pos hnz, Leb128.and_127, Leb128.or_shiftLeft_eq_add _ hres]

/-- every byte read is consumed -/
theorem getVarintPtr_length {input : List UInt8} {v : ℕ} {r : List UInt8} :
    getVarintPtr bits maxShift shift result input = some (v, r) → r.length < input.length := by
  induction input generalizing shift result with
  | nil => simp [getVarintPtr]
  | cons b rest ih =>
    intro h
    rw [getVarintPtr] at h
    split_ifs at h with hs hc
    · exact Nat.lt_succ_of_lt (ih h)
    · cases h
      simp

/-- what follows the varint is what the input has after it -/
theorem getVarintPtr_suffix {input : List UInt8} {v : ℕ} {r : List UInt8} :
    getVarintPtr bits maxShift shift result input = some (v, r) → ∃ pre, input = pre ++ r := by
  induction input generalizing shift result with
  | nil => simp [getVarintPtr]
  | cons b rest ih =>
    intro h
    rw [getVarintPtr] at h
    split_ifs at h with hs hc
    · obtain ⟨pre, hpre⟩ := ih h
      exact ⟨b :: pre, by rw [hpre, List.cons_append]⟩
    · cases h
      exact ⟨[b], rfl⟩

/-- the loop reads back an encoding whose groups fit in the `j + 1` bytes it may still read and whose value fits
in the accumulator -/
theorem getVarintPtr_encode (rest : List UInt8) (j : ℕ) :
    ∀ {shift result v : ℕ}, maxShift = shift + 7 * j → result < 2 ^ shift → v < 128 ^ (j + 1) →
      result + v * 2 ^ shift < 2 ^ bits →
      getVarintPtr bits maxShift shift result (Leb128.encode v ++ rest) = some (result + v * 2 ^ shift, rest) := by
  induction j with
  | zero =>
    intro shift result v hmax hres hv hbits
    have hv' : v < 128 := by simpa using hv
    have hb : (UInt8.ofNat v).toNat = v := by simp; omega
    rw [Leb128.encode_of_lt hv', List.singleton_append, getVarintPtr_last (by omega) (by omega) hres, hb,
      Nat.mod_eq_of_lt hbits]
  | succ j ih =>
    intro shift result v hmax hres hv hbits
    by_cases hv' : v < 128
    · have hb : (UInt8.ofNat v).toNat = v := by simp; omega
      rw [Leb128.encode_of_lt hv', List.singleton_append, getVarintPtr_last (by omega) (by omega) hres, hb,
        Nat.mod_eq_of_lt hbits]
    · -- the first byte holds `v % 128`; the rest is the encoding of `v / 128`, read from `shift + 7`
      have hb : (UInt8.ofNat (v % 128 + 128)).toNat = v % 128 + 128 := by simp; omega
      have hsplit : v * 2 ^ shift = v % 128 * 2 ^ shift + v / 128 * 2 ^ (shift + 7) := by
        rw [pow_add]
        calc v * 2 ^ shift = (v % 128 + 128 * (v / 128)) * 2 ^ shift := by rw [Nat.mod_add_div]
          _ = v % 128 * 2 ^ shift + v / 128 * (2 ^ shift * 2 ^ 7) := by ring
      have hacc : result + v % 128 * 2 ^ shift < 2 ^ (shift + 7) := by
        have h127 : v % 128 ≤ 127 := Nat.le_of_lt_succ (Nat.mod_lt v (by norm_num))
        calc result + v % 128 * 2 ^ shift < 2 ^ shift + 127 * 2 ^ shift := by
              have := Nat.mul_le_mul_right (2 ^ shift) h127; omega
          _ = 2 ^ (shift + 7) := by rw [pow_add]; ring
      have hdiv : v / 128 < 128 ^ (j + 1) := by
        rw [Nat.div_lt_iff_lt_mul (by norm_num), ← pow_succ]; exact hv
      rw [Leb128.encode, if_neg hv', List.cons_append, getVarintPtr_more (by omega) (by omega) hres, hb,
        Nat.add_mod_right, Nat.mod_mod,
        Nat.mod_eq_of_lt (by omega : result + v % 128 * 2 ^ shift < 2 ^ bits),
        ih (by omega) hacc hdiv (by omega), hsplit, Nat.add_assoc]

end getVarintPtr

/-- the fast path of `GetVarint32Ptr` agrees with the fallback it skips -/
theorem getVarint32Ptr_eq (input : List UInt8) : getVarint32Ptr input = getVarint32PtrFallback input := by
  match input with
  | [] => rfl
  | b :: rest =>
    rw [getVarint32Ptr]
    split_ifs with hz
    · have hb := (Leb128.and_128_eq_zero b.toNat_lt).1 hz
      rw [getVarint32PtrFallback, getVarintPtr_last (by norm_num) hb (by norm_num), Nat.zero_add, pow_zero,
        Nat.mul_one, Nat.mod_eq_of_lt (by omega)]
    · rfl

/-- `GetVarint32Ptr` reads back what `PutVarint32` wrote -/
theorem getVarint32Ptr_putVarint32 (v : UInt32) (rest : List UInt8) :
    getVarint32Ptr (putVarint32 v ++ rest) = some (v.toNat, rest) := by
  have hv := v.toNat_lt
  have h : getVarintPtr 32 28 0 0 (Leb128.encode v.toNat ++ rest) = some (0 + v.toNat * 2 ^ 0, rest) :=
    getVarintPtr_encode rest 4 (by norm_num) (by norm_num) (by omega) (by simpa using hv)
  rw [putVarint32, encodeVarint32_eq, getVarint32Ptr_eq, getVarint32PtrFallback]
  simpa using h

theorem getVarint32_putVarint32 (v : UInt32) (rest : List UInt8) :
    getVarint32 (putVarint32 v ++ rest) = some (v, rest) := by
  rw [getVarint32, getVarint32Ptr_putVarint32]
  simp

/-- the loop of `EncodeVarint64` is the base-128 encoding -/
theorem encodeVarint64Loop_eq (v : ℕ) : encodeVarint64Loop v = Leb128.encode v := by
  induction v using Nat.strong_induction_on with
  | _ v ih =>
    rw [encodeVarint64Loop]
    split_ifs with h
    · have hlt : v >>> 7 < v := by
        rw [Nat.shiftRight_eq_div_pow]
        omega
      rw [Leb128.encode_of_ge h, ih _ hlt, Leb128.and_127, Leb128.mod_or_128, Leb128.ofNat_or_128]
    · rw [Leb128.encode_of_lt (by omega)]

/-- `GetVarint64Ptr` reads back what `PutVarint64` wrote -/
theorem getVarint64Ptr_putVarint64 (v : UInt64) (rest : List UInt8) :
    getVarint64Ptr (putVarint64 v ++ rest) = some (v.toNat, rest) := by
  have hv := v.toNat_lt
  have h : getVarintPtr 64 63 0 0 (Leb128.encode v.toNat ++ rest) = some (0 + v.toNat * 2 ^ 0, rest) :=
    getVarintPtr_encode rest 9 (by norm_num) (by norm_num) (by omega) (by simpa using hv)
  rw [putVarint64, encodeVarint64, encodeVarint64Loop_eq, getVarint64Ptr]
  simpa using h

theorem getVarint64_putVarint64 (v : UInt64) (rest : List UInt8) :
    getVarint64 (putVarint64 v ++ rest) = some (v, rest) := by
  rw [getVarint64, getVarint64Ptr_putVarint64]
  simp

/-- a varint64 takes at least one byte -/
theorem putVarint64_ne_nil (v : UInt64) : putVarint64 v ≠ [] := by
  rw [putVarint64, encodeVarint64, encodeVarint64Loop_eq]
  exact Leb128.encode_ne_nil _

/-- a varint64 takes at most `kMaxVarint64Length` bytes -/
theorem length_putVarint64_le (v : UInt64) : (putVarint64 v).length ≤ kMaxVarint64Length := by
  have hv := v.toNat_lt
  rw [putVarint64, encodeVarint64, encodeVarint64Loop_eq]
  exact Leb128.length_encode_le (k := 9) (by omega)

/-- a value below 128 takes one byte, the value itself -/
theorem putVarint32_of_lt {v : UInt32} (h : v.toNat < 128) : putVarint32 v = [UInt8.ofNat v.toNat] := by
  rw [putVarint32, encodeVarint32_eq, Leb128.encode_of_lt h]

/-- the first byte of a varint32 lacks the continuation bit exactly when the value fits in seven bits, and is then
all of it -/
theorem putVarint32_eq_cons (v : UInt32) :
    ∃ b rest, putVarint32 v = b :: rest ∧ (b.toNat < 128 ↔ v.toNat < 128) ∧ (v.toNat < 128 → b.toNat = v.toNat ∧ rest = []) := by
  by_cases h : v.toNat < 128
  · have hb : (UInt8.ofNat v.toNat).toNat = v.toNat := by simp; omega
    exact ⟨_, [], putVarint32_of_lt h, by rw [hb], fun _ => ⟨hb, rfl⟩⟩
  · rw [putVarint32, encodeVarint32_eq, Leb128.encode, if_neg h]
    have hb : (UInt8.ofNat (v.toNat % 128 + 128)).toNat = v.toNat % 128 + 128 := by simp; omega
    refine ⟨_, _, rfl, ?_, fun h' => absurd h' h⟩
    rw [hb]
    omega

theorem length_putVarint32_pos (v : UInt32) : 0 < (putVarint32 v).length := by
  rw [putVarint32, encodeVarint32_eq]
  exact List.length_pos_of_ne_nil (Leb128.encode_ne_nil _)

theorem getVarint32_length {input : List UInt8} {v : UInt32} {r : List UInt8} (h : getVarint32 input = some (v, r)) :
    r.length < input.length := by
  rw [getVarint32, getVarint32Ptr_eq, Option.map_eq_some_iff] at h
  obtain ⟨⟨n, r'⟩, hr, heq⟩ := h
  cases heq
  exact getVarintPtr_length hr

/-- a slice shorter than `2 ^ 32` bytes is read back whole -/
theorem getLengthPrefixedSlice_putLengthPrefixedSlice {value : List UInt8} (h : value.length < 2 ^ 32)
    (rest : List UInt8) : getLengthPrefixedSlice (putLengthPrefixedSlice value ++ rest) = some (value, rest) := by
  have hlen : (UInt32.ofNat value.length).toNat = value.length := by simp; omega
  rw [getLengthPrefixedSlice, putLengthPrefixedSlice, List.append_assoc, getVarint32_putVarint32]
  simp [hlen]

theorem getLengthPrefixedSlice_length {input value r : List UInt8} (h : getLengthPrefixedSlice input = some (value, r)) :
    r.length < input.length := by
  rw [getLengthPrefixedSlice] at h
  split at h
  · rename_i len rest hv
    split_ifs at h
    cases h
    have := getVarint32_length hv
    simp only [List.length_drop]
    omega
  · cases h

theorem getVarint32_suffix {input : List UInt8} {v : UInt32} {r : List UInt8} (h : getVarint32 input = some (v, r)) :
    ∃ pre, input = pre ++ r := by
  rw [getVarint32, getVarint32Ptr_eq, Option.map_eq_some_iff] at h
  obtain ⟨⟨n, r'⟩, hr, heq⟩ := h
  cases heq
  exact getVarintPtr_suffix hr

theorem getLengthPrefixedSlice_suffix {input value r : List UInt8}
    (h : getLengthPrefixedSlice input = some (value, r)) : ∃ pre, input = pre ++ r := by
  rw [getLengthPrefixedSlice] at h
  split at h
  · rename_i len rest hv
    split_ifs at h
    cases h
    obtain ⟨pre, hpre⟩ := getVarint32_suffix hv
    exact ⟨pre ++ rest.take len.toNat, by rw [hpre, List.append_assoc, List.take_append_drop]⟩
  · cases h

theorem getVarint64_length {input : List UInt8} {v : UInt64} {r : List UInt8} (h : getVarint64 input = some (v, r)) :
    r.length < input.length := by
  rw [getVarint64, Option.map_eq_some_iff] at h
  obtain ⟨⟨n, r'⟩, hr, heq⟩ := h
  cases heq
  exact getVarintPtr_length hr

/-! ## Signed varints and varint lengths -/

/-- `i64ToZigzag`: the value shifted up one bit, XOR the sign spread over the word by the arithmetic shift -/
def i64ToZigzag (l : Int64) : UInt64 := (l.toUInt64 <<< 1) ^^^ (l >>> 63).toUInt64

/-- `zigzagToI64` -/
def zigzagToI64 (n : UInt64) : Int64 := (n >>> 1).toInt64 ^^^ -(n &&& 1).toInt64

/-- `PutVarsignedint64`: the bytes it appends -/
def putVarsignedint64 (v : Int64) : List UInt8 := encodeVarint64 (i64ToZigzag v)

/-- `GetVarsignedint64(Slice*, int64_t*)`: the value and the rest of the slice -/
def getVarsignedint64 (input : List UInt8) : Option (Int64 × List UInt8) :=
  (getVarint64Ptr input).map fun r => (zigzagToI64 (UInt64.ofNat r.1), r.2)

/-- the loop of `VarintLength`: one byte more for each shift by seven while `v >= 128` -/
def varintLengthLoop (v len : ℕ) : ℕ :=
  if 128 ≤ v then varintLengthLoop (v >>> 7) (len + 1) else len
termination_by v
decreasing_by
  rw [Nat.shiftRight_eq_div_pow]
  omega

/-- `VarintLength` -/
def varintLength (v : UInt64) : ℕ := varintLengthLoop v.toNat 1

/-- the arithmetic shift of a word by 63 spreads its sign bit over it -/
theorem sshiftRight_63 (x : BitVec 64) : x.sshiftRight 63 = if x.msb then BitVec.allOnes 64 else 0#64 := by
  have hlt := x.isLt
  split_ifs with hm
  · have hnot : (~~~x) >>> 63 = 0#64 := by
      apply BitVec.eq_of_toNat_eq
      have := BitVec.msb_eq_true_iff_two_mul_ge.mp hm
      simp only [BitVec.toNat_ushiftRight, BitVec.toNat_not, BitVec.toNat_ofNat, Nat.shiftRight_eq_div_pow]
      omega
    rw [BitVec.sshiftRight_eq_of_msb_true hm, hnot]
    simp
  · have hshift : x >>> 63 = 0#64 := by
      apply BitVec.eq_of_toNat_eq
      have := BitVec.msb_eq_false_iff_two_mul_lt.mp (by simpa using hm)
      simp only [BitVec.toNat_ushiftRight, BitVec.toNat_ofNat, Nat.shiftRight_eq_div_pow]
      omega
    rw [BitVec.sshiftRight_eq_of_msb_false (by simpa using hm), hshift]

theorem one_mod_two_pow_64 : (1 : ℕ) % 2 ^ 64 = 1 := by norm_num

/-- the zigzag round trip on the bits of the word: a non-negative value is shifted up and back, a negative one is
also complemented twice, the low bit of its image telling which -/
theorem zigzag_toBitVec (x : BitVec 64) :
    ((x <<< 1 ^^^ x.sshiftRight 63) >>> 1) ^^^ -((x <<< 1 ^^^ x.sshiftRight 63) &&& 1#64) = x := by
  have hlt := x.isLt
  rw [sshiftRight_63]
  split_ifs with hm
  · -- negative: the image is the complement of `2 * x`, which is odd
    have hge := BitVec.msb_eq_true_iff_two_mul_ge.mp hm
    have hodd : ~~~(x <<< 1) &&& 1#64 = 1#64 := by
      apply BitVec.eq_of_toNat_eq
      simp only [BitVec.toNat_and, BitVec.toNat_not, BitVec.toNat_shiftLeft, BitVec.toNat_ofNat, one_mod_two_pow_64,
        Nat.and_one_is_mod, Nat.shiftLeft_eq]
      omega
    rw [BitVec.xor_allOnes, hodd, BitVec.neg_one_eq_allOnes, BitVec.xor_allOnes]
    apply BitVec.eq_of_toNat_eq
    simp only [BitVec.toNat_not, BitVec.toNat_ushiftRight, BitVec.toNat_shiftLeft, Nat.shiftRight_eq_div_pow,
      Nat.shiftLeft_eq]
    omega
  · -- non-negative: the image is `2 * x`, which is even
    have hlt2 := BitVec.msb_eq_false_iff_two_mul_lt.mp (by simpa using hm)
    have heven : x <<< 1 &&& 1#64 = 0#64 := by
      apply BitVec.eq_of_toNat_eq
      simp only [BitVec.toNat_and, BitVec.toNat_shiftLeft, BitVec.toNat_ofNat, one_mod_two_pow_64, Nat.and_one_is_mod,
        Nat.shiftLeft_eq]
      omega
    rw [BitVec.xor_zero, heven, BitVec.neg_zero, BitVec.xor_zero]
    apply BitVec.eq_of_toNat_eq
    simp only [BitVec.toNat_ushiftRight, BitVec.toNat_shiftLeft, Nat.shiftRight_eq_div_pow, Nat.shiftLeft_eq]
    omega

theorem zigzagToI64_i64ToZigzag (z : Int64) : zigzagToI64 (i64ToZigzag z) = z := by
  apply Int64.toBitVec_inj.mp
  simp only [zigzagToI64, i64ToZigzag]
  simp only [Int64.toBitVec_xor, UInt64.toBitVec_toInt64, UInt64.toBitVec_shiftRight, Int64.toBitVec_neg,
    UInt64.toBitVec_and, UInt64.toBitVec_xor, UInt64.toBitVec_shiftLeft, Int64.toBitVec_toUInt64,
    Int64.toBitVec_shiftRight]
  exact zigzag_toBitVec z.toBitVec

/-- zigzag interleaves the signs: `-1 ↦ 1`, `1 ↦ 2`, `-3 ↦ 5` -/
example : i64ToZigzag (-1) = 1 ∧ i64ToZigzag 1 = 2 ∧ i64ToZigzag (-3) = 5 := by decide

theorem getVarsignedint64_putVarsignedint64 (z : Int64) (rest : List UInt8) :
    getVarsignedint64 (putVarsignedint64 z ++ rest) = some (z, rest) := by
  rw [getVarsignedint64, putVarsignedint64, ← putVarint64, getVarint64Ptr_putVarint64]
  simp [zigzagToI64_i64ToZigzag]

/-- the loop of `VarintLength` counts the bytes of the base-128 encoding -/
theorem varintLengthLoop_eq (v len : ℕ) : varintLengthLoop v len = len + (Leb128.encode v).length - 1 := by
  induction v using Nat.strong_induction_on generalizing len with
  | _ v ih =>
    rw [varintLengthLoop]
    split_ifs with h
    · have hlt : v >>> 7 < v := by
        rw [Nat.shiftRight_eq_div_pow]
        omega
      have hpos := List.length_pos_of_ne_nil (Leb128.encode_ne_nil (v >>> 7))
      rw [ih _ hlt, Leb128.encode_of_ge h, List.length_cons]
      omega
    · rw [Leb128.encode_of_lt (by omega)]
      simp

theorem length_encodeVarint64 (v : UInt64) : (encodeVarint64 v).length = varintLength v := by
  have hpos := List.length_pos_of_ne_nil (Leb128.encode_ne_nil v.toNat)
  rw [encodeVarint64, encodeVarint64Loop_eq, varintLength, varintLengthLoop_eq]
  omega

theorem length_encodeVarint32 (v : UInt32) : (encodeVarint32 v).length = varintLength v.toUInt64 := by
  have hpos := List.length_pos_of_ne_nil (Leb128.encode_ne_nil v.toNat)
  rw [encodeVarint32_eq, varintLength, varintLengthLoop_eq, UInt32.toNat_toUInt64]
  omega

/-- the varint codecs read back what they write, past any suffix, and write as many bytes as `VarintLength`
counts; a length-prefixed slice shorter than `2 ^ 32` bytes is read back whole -/
theorem varint_round_trip (v : UInt32) (w : UInt64) (z : Int64) (suffix : List UInt8) :
    getVarint32 (encodeVarint32 v ++ suffix) = some (v, suffix) ∧
      getVarint64 (encodeVarint64 w ++ suffix) = some (w, suffix) ∧
      getVarsignedint64 (putVarsignedint64 z ++ suffix) = some (z, suffix) ∧
      (encodeVarint32 v).length = varintLength v.toUInt64 ∧ (encodeVarint64 w).length = varintLength w ∧
      (putVarsignedint64 z).length = varintLength (i64ToZigzag z) ∧
      ∀ value : List UInt8, value.length < 2 ^ 32 →
        getLengthPrefixedSlice (putLengthPrefixedSlice value ++ suffix) = some (value, suffix) :=
  ⟨getVarint32_putVarint32 v suffix, getVarint64_putVarint64 w suffix, getVarsignedint64_putVarsignedint64 z suffix,
    length_encodeVarint32 v, length_encodeVarint64 w, length_encodeVarint64 (i64ToZigzag z),
    fun _ h => getLengthPrefixedSlice_putLengthPrefixedSlice h suffix⟩

theorem varint_round_trip_slice :
    [7, 8].length < 2 ^ 32 ∧
      getLengthPrefixedSlice (putLengthPrefixedSlice [7, 8] ++ [1]) = some ([7, 8], [1]) :=
  ⟨by decide, (varint_round_trip 300 300 (-3) [1]).2.2.2.2.2.2 [7, 8] (by decide)⟩

end ForSt.Coding
