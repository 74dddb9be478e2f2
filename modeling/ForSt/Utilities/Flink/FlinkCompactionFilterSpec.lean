import ForSt.Utilities.Flink.FlinkCompactionFilter
/-!
What the Flink TTL filter decides, stated in exact integer arithmetic.

An entry last accessed at `ts` has expired at `now` when `min(ts + ttl, JAVA_MAX_LONG) ≤ now` (`Expired`). A list value
of `n` elements of `fixed_size` bytes is removed when every element has expired, kept when its first element has not,
and otherwise cut to the suffix from the first element that has not (`listReference`).
- `deserializeTimestamp_eq`: the loop that ORs the bytes in reads the big-endian number (`timestampAt`);
- `decideTtl_eq`: for a TTL that is not negative, `Decide` neither overflows nor reads outside the value, and decides
  by `Expired`;
- `nextUnexpiredOffsetLoop_eq`: the element filter stops at the first element from the head that has not expired;
- `filterV2_ttl_spec`: `FilterV2` on a list value or on a value state answers as the reference does.
-/

namespace ForSt.flink

open ForSt.Bytes

/-! ## The reference -/

/-- the element of a list value that starts `i` elements in -/
def listElement (value : List UInt8) (fixedSize i : ℕ) : List UInt8 := (value.drop (i * fixedSize)).take fixedSize

/-- the elements of a list value of `n` elements -/
def listElements (value : List UInt8) (fixedSize n : ℕ) : List (List UInt8) :=
  (List.range n).map (listElement value fixedSize)

/-- the big-endian `int64_t` at byte `offset` -/
def timestampAt (bytes : List UInt8) (offset : ℕ) : ℤ := int64OfUInt64 (ofBeBytes ((bytes.drop offset).take 8))

/-- an entry last accessed at `timestamp` has expired at `now` -/
def Expired (ttl now timestamp : ℤ) : Prop := min (timestamp + ttl) javaMaxLong ≤ now

instance (ttl now timestamp : ℤ) : Decidable (Expired ttl now timestamp) := inferInstanceAs (Decidable (_ ≤ _))

/-- the index of the first element that has not expired, `n` when all have -/
def firstUnexpired (value : List UInt8) (fixedSize timestampOffset n : ℕ) (ttl now : ℤ) : ℕ :=
  (listElements value fixedSize n).findIdx fun e => !decide (Expired ttl now (timestampAt e timestampOffset))

/-- what the filter is to decide for a list value of `n` elements -/
def listReference (value : List UInt8) (fixedSize timestampOffset n : ℕ) (ttl now : ℤ) : FilterResult :=
  if ∀ i < n, Expired ttl now (timestampAt (listElement value fixedSize i) timestampOffset) then ⟨.kRemove, none⟩
  else if ¬ Expired ttl now (timestampAt (listElement value fixedSize 0) timestampOffset) then ⟨.kKeep, none⟩
  else ⟨.kChangeValue, some (value.drop (firstUnexpired value fixedSize timestampOffset n ttl now * fixedSize))⟩

/-! ## Reading a timestamp -/

/-- after `count` bytes the loop holds them as a big-endian number, shifted to the top of the eight -/
theorem deserializeLoop_eq (src : List UInt8) (offset : ℕ) :
    ∀ count ≤ timestampByteSize, offset + count ≤ src.length →
      deserializeLoop src offset count = ofBeBytes ((src.drop offset).take count) * 2 ^ ((8 - count) * 8)
  | 0, _, _ => by simp [deserializeLoop]
  | count + 1, hle, hlen => by
    have ih := deserializeLoop_eq src offset count (by omega) (by omega)
    have hlt : count < (src.drop offset).length := by simp only [List.length_drop]; omega
    have hbyte : src.getD (offset + count) 0 = (src.drop offset)[count] := by
      rw [List.getElem_drop, List.getD_eq_getElem?_getD, List.getElem?_eq_getElem (by omega), Option.getD_some]
    have htake : (src.drop offset).take (count + 1) = (src.drop offset).take count ++ [(src.drop offset)[count]] := by
      rw [List.take_add_one, List.getElem?_eq_getElem hlt, Option.toList_some]
    have hpow : 2 ^ ((8 - count) * 8) = 2 ^ ((8 - (count + 1)) * 8) * 2 ^ 8 := by
      rw [← pow_add]
      congr 1
      simp only [timestampByteSize] at hle
      omega
    have hb := ((src.drop offset)[count]).toNat_lt
    -- the new byte fills the eight bits just below those already read
    have hor : ofBeBytes ((src.drop offset).take count) * 2 ^ 8 ||| ((src.drop offset)[count]).toNat =
        ofBeBytes ((src.drop offset).take count) * 256 + ((src.drop offset)[count]).toNat := by
      rw [Nat.mul_comm, ← Nat.two_pow_add_eq_or_of_lt hb]
      ring
    have hm : (8 - 1 - count) * 8 = (8 - (count + 1)) * 8 := by rw [Nat.sub_sub, Nat.add_comm 1]
    rw [deserializeLoop, List.range_succ, List.foldl_append, ← deserializeLoop, ih]
    simp only [List.foldl_cons, List.foldl_nil, hbyte, timestampByteSize, bitsPerByte]
    rw [htake, ofBeBytes_append_singleton, hm]
    calc ofBeBytes ((src.drop offset).take count) * 2 ^ ((8 - count) * 8) |||
          ((src.drop offset)[count]).toNat <<< ((8 - (count + 1)) * 8)
        = (ofBeBytes ((src.drop offset).take count) * 2 ^ 8) <<< ((8 - (count + 1)) * 8) |||
          ((src.drop offset)[count]).toNat <<< ((8 - (count + 1)) * 8) := by
          rw [hpow, Nat.shiftLeft_eq (ofBeBytes _ * 2 ^ 8)]
          congr 1
          ring
      _ = (ofBeBytes ((src.drop offset).take count) * 2 ^ 8 ||| ((src.drop offset)[count]).toNat) <<<
          ((8 - (count + 1)) * 8) := Nat.shiftLeft_or_distrib.symm
      _ = (ofBeBytes ((src.drop offset).take count) * 256 + ((src.drop offset)[count]).toNat) *
          2 ^ ((8 - (count + 1)) * 8) := by rw [hor, Nat.shiftLeft_eq]

theorem deserializeTimestamp_eq {src : List UInt8} {offset : ℕ} (h : offset + 8 ≤ src.length) :
    deserializeTimestamp src offset = some (timestampAt src offset) := by
  have hloop := deserializeLoop_eq src offset timestampByteSize le_rfl h
  rw [deserializeTimestamp, if_pos (show offset + timestampByteSize ≤ src.length from h), hloop]
  simp [timestampAt, timestampByteSize]

theorem int64OfUInt64_bounds {x : ℕ} (h : x < 2 ^ 64) :
    javaMinLong ≤ int64OfUInt64 x ∧ int64OfUInt64 x ≤ javaMaxLong := by
  unfold int64OfUInt64 javaMinLong javaMaxLong
  split <;> omega

theorem timestampAt_bounds (bytes : List UInt8) (offset : ℕ) :
    javaMinLong ≤ timestampAt bytes offset ∧ timestampAt bytes offset ≤ javaMaxLong := by
  apply int64OfUInt64_bounds
  have hlt := ofBeBytes_lt ((bytes.drop offset).take 8)
  have hlen : ((bytes.drop offset).take 8).length ≤ 8 := by simp
  calc ofBeBytes ((bytes.drop offset).take 8) < 256 ^ ((bytes.drop offset).take 8).length := hlt
    _ ≤ 256 ^ 8 := Nat.pow_le_pow_right (by decide) hlen
    _ = 2 ^ 64 := by norm_num

theorem checkedInt64_of_bounds {x : ℤ} (h1 : javaMinLong ≤ x) (h2 : x ≤ javaMaxLong) : checkedInt64 x = some x := by
  rw [checkedInt64, if_pos ⟨h1, h2⟩]

/-- **`Decide` is exact.** With the timestamp's eight bytes inside the value and a TTL that is not negative, the
subtraction and the sum stay inside `int64_t`, and the entry is removed exactly when it has expired. -/
theorem decideTtl_eq {src : List UInt8} {offset : ℕ} (h : offset + 8 ≤ src.length) {ttl : ℤ} (httl : 0 ≤ ttl)
    (httl' : ttl ≤ javaMaxLong) (now : ℤ) :
    decideTtl src ttl offset now = some (if Expired ttl now (timestampAt src offset) then .kRemove else .kKeep) := by
  obtain ⟨hmin, hmax⟩ := timestampAt_bounds src offset
  have hmin' : javaMinLong = -2 ^ 63 := rfl
  have hmax' : javaMaxLong = 2 ^ 63 - 1 := rfl
  unfold decideTtl
  rw [deserializeTimestamp_eq h]
  simp only [Option.bind_eq_bind, Option.bind_some]
  generalize timestampAt src offset = ts at hmin hmax ⊢
  by_cases hpos : ts > 0
  · -- the TTL is cut to the room left below `JAVA_MAX_LONG`
    have hiff : ts + min (javaMaxLong - ts) ttl ≤ now ↔ min (ts + ttl) javaMaxLong ≤ now := by omega
    rw [if_pos hpos, checkedInt64_of_bounds (by omega) (by omega)]
    simp only [Option.pure_def, Option.bind_some]
    rw [checkedInt64_of_bounds (by omega) (by omega)]
    simp only [Option.bind_some, Expired, hiff]
    rfl
  · rw [if_neg hpos]
    simp only [Option.pure_def, Option.bind_some]
    have hiff : ts + ttl ≤ now ↔ min (ts + ttl) javaMaxLong ≤ now := by omega
    rw [checkedInt64_of_bounds (by omega) (by omega)]
    simp only [Option.bind_some, Expired, hiff]
    rfl

/-! ## A list value of fixed-size elements -/

section list

variable {value : List UInt8} {f o n : ℕ} {ttl now : ℤ}

theorem timestampAt_listElement (ho : o + 8 ≤ f) (i : ℕ) :
    timestampAt (listElement value f i) o = timestampAt value (i * f + o) := by
  unfold timestampAt listElement
  rw [List.drop_take, List.take_take, min_eq_left (by omega), List.drop_drop]

theorem listElements_drop (hk : k < n) :
    (listElements value f n).drop k = listElement value f k :: (listElements value f n).drop (k + 1) := by
  have hlen : k < (listElements value f n).length := by simpa [listElements] using hk
  rw [List.drop_eq_getElem_cons hlen]
  simp [listElements]

theorem listElements_drop_length : (listElements value f n).drop n = [] := by
  simp [listElements]

variable (hf : 0 < f) (ho : o + 8 ≤ f) (hlen : value.length = n * f) (hmax : value.length < javaMaxSize)
  (httl : 0 ≤ ttl) (httl' : ttl ≤ javaMaxLong)
include hf ho hlen hmax httl httl'

omit hf hmax in
/-- the element at `k` is read where the filter reads it -/
theorem decideTtl_element {k : ℕ} (hk : k < n) :
    decideTtl value ttl (k * f + o) now =
      some (if Expired ttl now (timestampAt (listElement value f k) o) then .kRemove else .kKeep) := by
  have hend : k * f + o + 8 ≤ value.length := by
    have : (k + 1) * f ≤ n * f := Nat.mul_le_mul_right f hk
    rw [hlen]
    nlinarith
  rw [decideTtl_eq hend httl httl', timestampAt_listElement ho]

/-- the run lemma of `NextUnexpiredOffset`: from the element at `k` on, the loop stops at the first that has not
expired, or at the end of the value -/
theorem nextUnexpiredOffsetLoop_eq :
    ∀ (m k : ℕ), n - k = m → k ≤ n → ∀ fuel, m < fuel →
      (FixedListElementFilter.mk f o).nextUnexpiredOffsetLoop value ttl now fuel (k * f) =
        some ((k + ((listElements value f n).drop k).findIdx
          fun e => !decide (Expired ttl now (timestampAt e o))) * f)
  | m, k, hm, hk, 0, hfuel => absurd hfuel (Nat.not_lt_zero m)
  | m, k, hm, hk, fuel + 1, hfuel => by
    have hbound : n * f < 2 ^ 64 := by
      have : javaMaxSize < 2 ^ 64 := by decide
      omega
    rcases Nat.lt_or_ge k n with hlt | hge
    · have hoff : k * f < value.length := by
        rw [hlen]
        exact Nat.mul_lt_mul_of_pos_right hlt hf
      have hsum : (k * f + o) % 2 ^ 64 = k * f + o := by
        apply Nat.mod_eq_of_lt
        have : (k + 1) * f ≤ n * f := Nat.mul_le_mul_right f hlt
        nlinarith
      rw [FixedListElementFilter.nextUnexpiredOffsetLoop, if_pos hoff]
      dsimp only
      rw [hsum, decideTtl_element ho hlen httl httl' hlt, listElements_drop hlt, List.findIdx_cons]
      by_cases hexp : Expired ttl now (timestampAt (listElement value f k) o)
      · -- an expired element: the loop moves one element on
        have hnext : (k * f + f) % 2 ^ 64 = (k + 1) * f := by
          rw [Nat.succ_mul]
          apply Nat.mod_eq_of_lt
          have : (k + 1) * f ≤ n * f := Nat.mul_le_mul_right f hlt
          nlinarith
        have hrest := nextUnexpiredOffsetLoop_eq (m - 1) (k + 1) (by omega) hlt fuel (by omega)
        have hsmall : ¬ ((k + 1) * f ≥ javaMaxSize ∨ (k + 1) * f < k * f) := by
          have : (k + 1) * f ≤ n * f := Nat.mul_le_mul_right f hlt
          have : k * f ≤ (k + 1) * f := Nat.mul_le_mul_right f (Nat.le_succ k)
          omega
        simp only [hexp, if_true, ne_eq, reduceCtorEq, not_false_eq_true, decide_true, Bool.not_true,
          cond_false, hnext, if_neg hsmall, hrest]
        congr 2
        omega
      · simp only [hexp, if_false, ne_eq, not_true_eq_false, decide_false, Bool.not_false, cond_true]
        simp
    · have hkn : k = n := le_antisymm hk hge
      subst hkn
      rw [FixedListElementFilter.nextUnexpiredOffsetLoop, if_neg (by omega), listElements_drop_length]
      simp

/-- `NextUnexpiredOffset` gives the offset of the first element that has not expired -/
theorem nextUnexpiredOffset_eq :
    (FixedListElementFilter.mk f o).nextUnexpiredOffset value ttl now = some (firstUnexpired value f o n ttl now * f) := by
  have hn : n ≤ value.length := by
    rw [hlen]
    exact Nat.le_mul_of_pos_right n hf
  have hloop : (FixedListElementFilter.mk f o).nextUnexpiredOffsetLoop value ttl now (value.length + 1) (0 * f) = _ :=
    nextUnexpiredOffsetLoop_eq hf ho hlen hmax httl httl' n 0 (by simp) (Nat.zero_le n) (value.length + 1) (by omega)
  rw [Nat.zero_mul] at hloop
  rw [FixedListElementFilter.nextUnexpiredOffset, hloop]
  simp [firstUnexpired]

end list

/-! ## The first unexpired element -/

theorem firstUnexpired_le (value : List UInt8) (f o n : ℕ) (ttl now : ℤ) : firstUnexpired value f o n ttl now ≤ n := by
  have : (listElements value f n).findIdx (fun e => !decide (Expired ttl now (timestampAt e o))) ≤
      (listElements value f n).length := List.findIdx_le_length
  simpa [firstUnexpired, listElements] using this

/-- every element has expired exactly when none is found -/
theorem firstUnexpired_eq_iff (value : List UInt8) (f o n : ℕ) (ttl now : ℤ) :
    firstUnexpired value f o n ttl now = n ↔ ∀ i < n, Expired ttl now (timestampAt (listElement value f i) o) := by
  have hlen : (listElements value f n).length = n := by simp [listElements]
  have hiff : (listElements value f n).findIdx (fun e => !decide (Expired ttl now (timestampAt e o))) =
      (listElements value f n).length ↔
        ∀ x ∈ listElements value f n, (!decide (Expired ttl now (timestampAt x o))) = false :=
    List.findIdx_eq_length
  rw [hlen] at hiff
  unfold firstUnexpired
  rw [hiff]
  simp [listElements]

theorem firstUnexpired_pos {value : List UInt8} {f o n : ℕ} {ttl now : ℤ} (hn : 0 < n)
    (h0 : Expired ttl now (timestampAt (listElement value f 0) o)) : 0 < firstUnexpired value f o n ttl now := by
  have hdrop : (listElements value f n).drop 0 = listElement value f 0 :: (listElements value f n).drop 1 :=
    listElements_drop hn
  rw [List.drop_zero] at hdrop
  unfold firstUnexpired
  rw [hdrop, List.findIdx_cons]
  simp [h0]

/-! ## `FilterV2` -/

section filter

variable {s : FlinkCompactionFilter} {cfg : Config}

theorem ttl_le_javaMaxLong (cfg : Config) : cfg.ttl.toInt ≤ javaMaxLong := by
  have := cfg.ttl.toInt_lt
  unfold javaMaxLong
  omega

/-- `ListDecide` on a list value answers as the reference -/
theorem listDecide_eq (hcfg : s.configCached = some cfg) (hf : 0 < f) (ho : cfg.timestampOffset + 8 ≤ f)
    (value : List UInt8) (hn : 1 ≤ n) (hlen : value.length = n * f) (hmax : value.length < javaMaxSize)
    (httl : 0 ≤ cfg.ttl.toInt) :
    s.listDecide ⟨f, cfg.timestampOffset⟩ value =
      some (listReference value f cfg.timestampOffset n cfg.ttl.toInt s.currentTimestamp.toInt) := by
  have hconfig : s.config = cfg := by simp [FlinkCompactionFilter.config, hcfg]
  have httl' := ttl_le_javaMaxLong cfg
  have hnf : f ≤ value.length := by
    rw [hlen]
    exact Nat.le_mul_of_pos_left f hn
  have hfirst : decideTtl value cfg.ttl.toInt (0 * f + cfg.timestampOffset) s.currentTimestamp.toInt = _ :=
    decideTtl_element ho hlen httl httl' hn
  rw [Nat.zero_mul, Nat.zero_add] at hfirst
  have hle := firstUnexpired_le value f cfg.timestampOffset n cfg.ttl.toInt s.currentTimestamp.toInt
  unfold FlinkCompactionFilter.listDecide
  rw [if_pos (by omega), hconfig, hfirst]
  by_cases h0 : Expired cfg.ttl.toInt s.currentTimestamp.toInt (timestampAt (listElement value f 0) cfg.timestampOffset)
  · -- the head has expired: the element filter finds the first element that has not
    have hoffset : s.listNextUnexpiredOffset ⟨f, cfg.timestampOffset⟩ value 0 cfg.ttl.toInt =
        some (firstUnexpired value f cfg.timestampOffset n cfg.ttl.toInt s.currentTimestamp.toInt * f) := by
      have hsmall : firstUnexpired value f cfg.timestampOffset n cfg.ttl.toInt s.currentTimestamp.toInt * f <
          javaMaxSize := by
        have : firstUnexpired value f cfg.timestampOffset n cfg.ttl.toInt s.currentTimestamp.toInt * f ≤ n * f :=
          Nat.mul_le_mul_right f hle
        omega
      unfold FlinkCompactionFilter.listNextUnexpiredOffset
      rw [nextUnexpiredOffset_eq hf ho hlen hmax httl httl']
      simp only [Option.bind_eq_bind, Option.bind_some, Option.pure_def, Option.some.injEq]
      rw [if_neg (by omega)]
    have hpos : 0 < firstUnexpired value f cfg.timestampOffset n cfg.ttl.toInt s.currentTimestamp.toInt :=
      firstUnexpired_pos (by omega) h0
    generalize hj : firstUnexpired value f cfg.timestampOffset n cfg.ttl.toInt s.currentTimestamp.toInt = j
      at hoffset hpos hle
    simp only [h0, if_true, ne_eq, reduceCtorEq, not_false_eq_true, if_true, hoffset]
    have hsmall : ¬ j * f ≥ javaMaxSize := by
      have : j * f ≤ n * f := Nat.mul_le_mul_right f hle
      omega
    rw [if_neg hsmall, listReference, hj]
    by_cases hall : ∀ i < n, Expired cfg.ttl.toInt s.currentTimestamp.toInt
        (timestampAt (listElement value f i) cfg.timestampOffset)
    · have hjn : j = n := by rw [← hj]; exact (firstUnexpired_eq_iff _ _ _ _ _ _).mpr hall
      subst hjn
      rw [if_pos hall, FlinkCompactionFilter.listDecision, if_pos (by omega)]
    · have hjn : j ≠ n := fun e => hall ((firstUnexpired_eq_iff _ _ _ _ _ _).mp (hj.trans e))
      have hjlt : j * f < n * f := Nat.mul_lt_mul_of_pos_right (by omega) hf
      have hjpos : 0 < j * f := Nat.mul_pos hpos hf
      rw [if_neg hall, if_neg (not_not.mpr h0), FlinkCompactionFilter.listDecision, if_neg (by omega),
        if_pos hjpos]
  · -- the head has not expired: the value is kept as it is
    have hall : ¬ ∀ i < n, Expired cfg.ttl.toInt s.currentTimestamp.toInt
        (timestampAt (listElement value f i) cfg.timestampOffset) := fun h => h0 (h 0 (by omega))
    simp only [h0, if_false, ne_eq, not_true_eq_false]
    rw [listReference, if_neg hall, if_pos h0, FlinkCompactionFilter.listDecision, if_neg (by omega),
      if_neg (by omega)]

/-- **The Flink TTL filter decides as the reference does.** Take any filter and the config the holder holds, and the
filter as `FilterV2` prepares it, with `now` the current time it then keeps, for any TTL that is not negative.
- For list state, with a fixed-size element filter of element size `f > 0` whose timestamp offset is the config's
  `o`, `o + 8 ≤ f`, on a value or merge operand made of `n ≥ 1` elements and shorter than `JAVA_MAX_SIZE`: the value
  is removed when every element has expired, kept when its first element has not, and otherwise cut to the suffix
  from the first element that has not.
- For value state, on a value with a timestamp at `o`: it is removed exactly when that timestamp has expired.
No signed overflow happens and no byte outside the value is read, or the model's answer would be `none`. -/
theorem filterV2_ttl_spec (s : FlinkCompactionFilter) (holder : Option Config) (providerTimestamp : Int64)
    (cfg : Config) (hcfg : (s.prepare holder providerTimestamp).configCached = some cfg)
    (httl : 0 ≤ cfg.ttl.toInt) :
    (cfg.stateType = .list → ∀ f, (s.prepare holder providerTimestamp).listElementFilter =
        some ⟨f, cfg.timestampOffset⟩ → 0 < f → cfg.timestampOffset + 8 ≤ f →
      ∀ valueType, (valueType = .kValue ∨ valueType = .kMergeOperand) →
      ∀ value n, 1 ≤ n → value.length = n * f → value.length < javaMaxSize →
        (s.filterV2 holder providerTimestamp valueType value).1 =
          some (listReference value f cfg.timestampOffset n cfg.ttl.toInt
            (s.prepare holder providerTimestamp).currentTimestamp.toInt)) ∧
    (cfg.stateType = .value → ∀ value : List UInt8, cfg.timestampOffset + 8 ≤ value.length →
      (s.filterV2 holder providerTimestamp .kValue value).1 =
        some ⟨if Expired cfg.ttl.toInt (s.prepare holder providerTimestamp).currentTimestamp.toInt
          (timestampAt value cfg.timestampOffset) then .kRemove else .kKeep, none⟩) := by
  have hconfig : (s.prepare holder providerTimestamp).config = cfg := by
    simp [FlinkCompactionFilter.config, hcfg]
  have hsum : ∀ value : List UInt8, cfg.timestampOffset + 8 ≤ value.length →
      ¬ value.length < (cfg.timestampOffset + timestampByteSize) % 2 ^ 64 := by
    intro value hv hlt
    have := Nat.mod_le (cfg.timestampOffset + timestampByteSize) (2 ^ 64)
    simp only [timestampByteSize] at this hlt
    omega
  refine ⟨?_, ?_⟩
  · intro hlist f hflt hf ho valueType hvt value n hn hlen hmax
    have hfit : cfg.timestampOffset + 8 ≤ value.length := by
      have : f ≤ n * f := Nat.le_mul_of_pos_left f hn
      omega
    show (s.prepare holder providerTimestamp).decideEntry valueType value = _
    unfold FlinkCompactionFilter.decideEntry
    rw [hconfig, hflt]
    simp only [hlist, hvt, hsum value hfit, not_false_eq_true, and_true, or_true, if_true]
    exact listDecide_eq hcfg hf ho value hn hlen hmax httl
  · intro hvalue value hv
    have hread := decideTtl_eq hv httl (ttl_le_javaMaxLong cfg)
      (s.prepare holder providerTimestamp).currentTimestamp.toInt
    show (s.prepare holder providerTimestamp).decideEntry .kValue value = _
    unfold FlinkCompactionFilter.decideEntry
    rw [hconfig]
    cases hflt : (s.prepare holder providerTimestamp).listElementFilter with
    | none =>
      simp only [hvalue, hsum value hv, not_false_eq_true, if_true, hread, Option.map_some, reduceCtorEq,
        false_and, or_false, and_self]
    | some flt =>
      simp only [hvalue, hsum value hv, not_false_eq_true, if_true, hread, Option.map_some, reduceCtorEq,
        false_and, or_false, and_self, if_false]

end filter

/-- a fresh filter of list state with elements of eight bytes and a TTL of ten, at time 100: of two elements last
accessed at 5 and at 200, the first has expired and the value is cut to the second; in value state the first
timestamp has expired -/
theorem filterV2_ttl_spec_at_100 :
    (FlinkCompactionFilter.create.filterV2 (some ⟨.list, 0, 10, 5, some ⟨8, 0⟩⟩) 100 .kValue
        [0, 0, 0, 0, 0, 0, 0, 5, 0, 0, 0, 0, 0, 0, 0, 200]).1 =
      some (listReference [0, 0, 0, 0, 0, 0, 0, 5, 0, 0, 0, 0, 0, 0, 0, 200] 8 0 2 10 100) ∧
    (FlinkCompactionFilter.create.filterV2 (some ⟨.value, 0, 10, 5, none⟩) 100 .kValue
        [0, 0, 0, 0, 0, 0, 0, 5]).1 =
      some ⟨if Expired 10 100 (timestampAt [0, 0, 0, 0, 0, 0, 0, 5] 0) then .kRemove else .kKeep, none⟩ :=
  ⟨(filterV2_ttl_spec FlinkCompactionFilter.create (some ⟨.list, 0, 10, 5, some ⟨8, 0⟩⟩) 100
      ⟨.list, 0, 10, 5, some ⟨8, 0⟩⟩ rfl (by decide)).1 rfl 8 rfl (by decide) (by decide) .kValue (.inl rfl)
      [0, 0, 0, 0, 0, 0, 0, 5, 0, 0, 0, 0, 0, 0, 0, 200] 2 (by decide) rfl (by decide),
    (filterV2_ttl_spec FlinkCompactionFilter.create (some ⟨.value, 0, 10, 5, none⟩) 100
      ⟨.value, 0, 10, 5, none⟩ rfl (by decide)).2 rfl [0, 0, 0, 0, 0, 0, 0, 5] (by decide)⟩

end ForSt.flink
