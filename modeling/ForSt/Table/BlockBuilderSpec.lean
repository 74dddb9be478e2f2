import ForSt.Table.BlockBuilder
/-!
What `BlockBuilder` writes, as a run of entries.

An entry is its persisted key, the bytes it shares with the key before, its value, and whether it starts a restart
interval (`StoredEntry`). A run decodes (`EntriesDecode`) when its first entry starts an interval, an entry that starts
one shares nothing, and each shares only bytes both keys have. `add_writes`: `Add` appends one entry; `addPairs_writes`:
`Add` on each pair writes a run that decodes; `Writes.finish_eq`: the block is the entries, the restart offsets and
their number.
-/

namespace ForSt

/-- an entry of a block: its key as persisted, how many bytes of it the key before shares, its value, and whether it
starts a restart interval -/
structure StoredEntry where
  key : List UInt8
  shared : ℕ
  value : List UInt8
  restart : Bool
deriving DecidableEq, Repr, Inhabited

namespace StoredEntry

/-- the three varint32 sizes the entry starts with -/
def header (e : StoredEntry) : List UInt8 :=
  Coding.putVarint32 (UInt32.ofNat e.shared) ++ Coding.putVarint32 (UInt32.ofNat (e.key.length - e.shared)) ++
    Coding.putVarint32 (UInt32.ofNat e.value.length)

/-- the bytes of the entry -/
def bytes (e : StoredEntry) : List UInt8 := e.header ++ e.key.drop e.shared ++ e.value

theorem length_bytes (e : StoredEntry) :
    e.bytes.length = e.header.length + (e.key.length - e.shared) + e.value.length := by
  simp only [bytes, List.length_append, List.length_drop]

theorem three_le_length_header (e : StoredEntry) : 3 ≤ e.header.length := by
  have h1 := Coding.length_putVarint32_pos (UInt32.ofNat e.shared)
  have h2 := Coding.length_putVarint32_pos (UInt32.ofNat (e.key.length - e.shared))
  have h3 := Coding.length_putVarint32_pos (UInt32.ofNat e.value.length)
  simp only [header, List.length_append]
  omega

end StoredEntry

/-! ## A run of entries -/

/-- the bytes of a run of entries -/
def entriesBytes (es : List StoredEntry) : List UInt8 := (es.map StoredEntry.bytes).flatten

@[simp] theorem entriesBytes_nil : entriesBytes [] = [] := rfl

theorem entriesBytes_append (es es' : List StoredEntry) :
    entriesBytes (es ++ es') = entriesBytes es ++ entriesBytes es' := by
  simp [entriesBytes]

theorem entriesBytes_cons (e : StoredEntry) (es : List StoredEntry) :
    entriesBytes (e :: es) = e.bytes ++ entriesBytes es := by
  simp [entriesBytes]

/-- where entry `i` starts -/
def entryOffset (es : List StoredEntry) (i : ℕ) : ℕ := (entriesBytes (es.take i)).length

/-- the indices of the entries that start a restart interval -/
def restartIndices (es : List StoredEntry) : List ℕ :=
  (List.range es.length).filter fun i => es[i]?.any StoredEntry.restart

/-- the offsets of the entries that start a restart interval -/
def restartOffsets (es : List StoredEntry) : List ℕ := (restartIndices es).map (entryOffset es)

/-- the entry `e'` after `e` shares with it only bytes both keys have -/
def SharesWith (e e' : StoredEntry) : Prop :=
  e'.shared ≤ e.key.length ∧ e'.shared ≤ e'.key.length ∧ e'.key.take e'.shared = e.key.take e'.shared

/-- a run of entries whose keys a reader rebuilds from the key before, or from nothing at a restart point -/
structure EntriesDecode (es : List StoredEntry) : Prop where
  first : ∀ e ∈ es.head?, e.restart = true
  restart : ∀ e ∈ es, e.restart = true → e.shared = 0
  chain : es.IsChain SharesWith

section layout

variable {es : List StoredEntry}

@[simp] theorem entryOffset_zero (es : List StoredEntry) : entryOffset es 0 = 0 := by
  simp [entryOffset]

theorem entryOffset_succ {i : ℕ} (h : i < es.length) :
    entryOffset es (i + 1) = entryOffset es i + es[i].bytes.length := by
  rw [entryOffset, entryOffset, List.take_add_one, List.getElem?_eq_getElem h, Option.toList_some,
    entriesBytes_append, List.length_append, entriesBytes_cons, entriesBytes_nil, List.append_nil]

theorem entryOffset_length (es : List StoredEntry) : entryOffset es es.length = (entriesBytes es).length := by
  rw [entryOffset, List.take_length]

theorem entryOffset_append_of_le {es' : List StoredEntry} {i : ℕ} (h : i ≤ es.length) :
    entryOffset (es ++ es') i = entryOffset es i := by
  rw [entryOffset, entryOffset, List.take_append_of_le_length h]

/-- the bytes from entry `i` on -/
theorem drop_entriesBytes {i : ℕ} (h : i < es.length) :
    (entriesBytes es).drop (entryOffset es i) = es[i].bytes ++ entriesBytes (es.drop (i + 1)) := by
  have hsplit : entriesBytes es = entriesBytes (es.take i) ++ (es[i].bytes ++ entriesBytes (es.drop (i + 1))) := by
    rw [← entriesBytes_cons, ← List.drop_eq_getElem_cons h, ← entriesBytes_append, List.take_append_drop]
  rw [hsplit, entryOffset, List.drop_left]

/-- every entry takes at least three bytes, so offsets grow with the index -/
theorem entryOffset_lt_entryOffset {i j : ℕ} (hij : i < j) (hj : j ≤ es.length) :
    entryOffset es i + 3 * (j - i) ≤ entryOffset es j := by
  induction j with
  | zero => omega
  | succ j ih =>
    have hstep := entryOffset_succ (i := j) (show j < es.length by omega)
    have hbytes := es[j].three_le_length_header
    have hlen := es[j].length_bytes
    rcases Nat.lt_succ_iff_lt_or_eq.mp hij with hlt | rfl
    · have := ih hlt (by omega)
      omega
    · simp only [Nat.add_sub_cancel_left]
      omega

theorem entryOffset_lt_iff {i j : ℕ} (hi : i ≤ es.length) (hj : j ≤ es.length) :
    entryOffset es i < entryOffset es j ↔ i < j := by
  constructor
  · intro h
    by_contra hge
    rcases Nat.lt_or_eq_of_le (not_lt.mp hge) with hlt | rfl
    · have := entryOffset_lt_entryOffset hlt hi
      omega
    · omega
  · intro h
    have := entryOffset_lt_entryOffset h hj
    omega

theorem entryOffset_injective {i j : ℕ} (hi : i ≤ es.length) (hj : j ≤ es.length)
    (h : entryOffset es i = entryOffset es j) : i = j := by
  by_contra hne
  rcases Nat.lt_or_gt_of_ne hne with hlt | hlt
  · exact absurd h (Nat.ne_of_lt ((entryOffset_lt_iff hi hj).mpr hlt))
  · exact absurd h (Nat.ne_of_gt ((entryOffset_lt_iff hj hi).mpr hlt))

/-- an entry's offset is at least its index -/
theorem le_entryOffset {i : ℕ} (hi : i ≤ es.length) : i ≤ entryOffset es i := by
  rcases Nat.eq_zero_or_pos i with rfl | hpos
  · omega
  · have := entryOffset_lt_entryOffset hpos hi
    simp only [entryOffset_zero] at this
    omega

theorem entryOffset_le_length {i : ℕ} (hi : i ≤ es.length) : entryOffset es i ≤ (entriesBytes es).length := by
  rw [← entryOffset_length]
  rcases Nat.lt_or_eq_of_le hi with hlt | rfl
  · exact le_of_lt ((entryOffset_lt_iff hi le_rfl).mpr hlt)
  · exact le_rfl

theorem mem_restartIndices {m : ℕ} : m ∈ restartIndices es ↔ ∃ h : m < es.length, es[m].restart = true := by
  simp only [restartIndices, List.mem_filter, List.mem_range]
  constructor
  · rintro ⟨h, hr⟩
    exact ⟨h, by simpa [List.getElem?_eq_getElem h] using hr⟩
  · rintro ⟨h, hr⟩
    exact ⟨h, by simpa [List.getElem?_eq_getElem h] using hr⟩

theorem restartIndices_append_singleton (es : List StoredEntry) (e : StoredEntry) :
    restartIndices (es ++ [e]) = restartIndices es ++ if e.restart then [es.length] else [] := by
  simp only [restartIndices, List.length_append, List.length_singleton, List.range_succ, List.filter_append]
  congr 1
  · apply List.filter_congr
    intro i hi
    rw [List.getElem?_append_left (List.mem_range.mp hi)]
  · cases h : e.restart <;> simp [h]

theorem restartOffsets_append_singleton (es : List StoredEntry) (e : StoredEntry) :
    restartOffsets (es ++ [e]) = restartOffsets es ++ if e.restart then [(entriesBytes es).length] else [] := by
  rw [restartOffsets, restartIndices_append_singleton, List.map_append, restartOffsets]
  congr 1
  · apply List.map_congr_left
    intro m hm
    exact entryOffset_append_of_le (le_of_lt (mem_restartIndices.mp hm).1)
  · cases e.restart
    · rfl
    · simp [entryOffset_append_of_le le_rfl, entryOffset_length]

/-- the first restart point is the first entry -/
theorem EntriesDecode.restartIndices_eq (h : EntriesDecode es) (hne : es ≠ []) :
    ∃ rest, restartIndices es = 0 :: rest := by
  obtain ⟨e, es', rfl⟩ := List.exists_cons_of_ne_nil hne
  have hfirst : e.restart = true := h.first e rfl
  rw [restartIndices, List.length_cons, List.range_succ_eq_map, List.filter_cons_of_pos (by simp [hfirst])]
  exact ⟨_, rfl⟩

theorem EntriesDecode.snoc {e : StoredEntry} (h : EntriesDecode es) (hfirst : es = [] → e.restart = true)
    (hrestart : e.restart = true → e.shared = 0) (hshares : ∀ x ∈ es.getLast?, SharesWith x e) :
    EntriesDecode (es ++ [e]) := by
  refine ⟨?_, ?_, ?_⟩
  · intro x hx
    cases es with
    | nil => simp only [List.nil_append, List.head?_cons, Option.mem_def, Option.some.injEq] at hx
             exact hx ▸ hfirst rfl
    | cons e' es' => exact h.first x (by simpa using hx)
  · intro x hx hr
    rcases List.mem_append.mp hx with hx | hx
    · exact h.restart x hx hr
    · rw [List.mem_singleton.mp hx] at hr ⊢
      exact hrestart hr
  · refine List.IsChain.append h.chain (List.isChain_singleton e) ?_
    intro x hx y hy
    rw [List.head?_cons, Option.mem_def, Option.some.injEq] at hy
    exact hy ▸ hshares x hx

/-- an entry shares no more bytes than its key has -/
theorem EntriesDecode.shared_le (h : EntriesDecode es) :
    ∀ i (hi : i < es.length), es[i].shared ≤ es[i].key.length
  | 0, hi => by
    have hfirst := h.first es[0] (by simp [List.head?_eq_getElem?])
    rw [h.restart es[0] (List.getElem_mem hi) hfirst]
    exact Nat.zero_le _
  | i + 1, hi => (h.chain.getElem i hi).2.1

/-- a key is no longer than the bytes of the entries up to its own: the first of an interval is written whole, and
each later one adds its own bytes to what it shares with the one before -/
theorem EntriesDecode.key_length_le (h : EntriesDecode es) :
    ∀ i (hi : i < es.length), es[i].key.length ≤ entryOffset es (i + 1)
  | 0, hi => by
    have hfirst := h.first es[0] (by simp [List.head?_eq_getElem?])
    have hshared := h.restart es[0] (List.getElem_mem hi) hfirst
    rw [entryOffset_succ hi, es[0].length_bytes, hshared]
    omega
  | i + 1, hi => by
    obtain ⟨hle, hle', -⟩ := h.chain.getElem i hi
    have ih := h.key_length_le i (by omega)
    rw [entryOffset_succ hi, es[i + 1].length_bytes]
    omega

end layout

/-! ## The builder -/

namespace BlockBuilder

section add

variable (b : BlockBuilder) (key value deltaValue : List UInt8)

@[simp] theorem add_buffer :
    (b.add key value deltaValue).buffer = (b.addWithLastKeyImpl key value b.lastKey deltaValue b.buffer.length).buffer := by
  unfold add; split <;> rfl

@[simp] theorem add_restarts :
    (b.add key value deltaValue).restarts =
      (b.addWithLastKeyImpl key value b.lastKey deltaValue b.buffer.length).restarts := by
  unfold add; split <;> rfl

@[simp] theorem add_lastKey : (b.add key value deltaValue).lastKey = if b.useDeltaEncoding then key else b.lastKey := by
  unfold add; split <;> rfl

@[simp] theorem add_useDeltaEncoding : (b.add key value deltaValue).useDeltaEncoding = b.useDeltaEncoding := by
  unfold add; split <;> rfl

@[simp] theorem add_useValueDeltaEncoding :
    (b.add key value deltaValue).useValueDeltaEncoding = b.useValueDeltaEncoding := by
  unfold add; split <;> rfl

@[simp] theorem add_maybeStripTimestampFromKey (k : List UInt8) :
    (b.add key value deltaValue).maybeStripTimestampFromKey k = b.maybeStripTimestampFromKey k := by
  unfold add; split <;> rfl

end add

@[simp] theorem maybeStripTimestampFromKey_nil (b : BlockBuilder) : b.maybeStripTimestampFromKey [] = [] := by
  simp [maybeStripTimestampFromKey, stripTimestampFromInternalKey]

/-- the test on an empty last key changes nothing: the empty key persists as itself -/
theorem lastKeyPersisted_eq (b : BlockBuilder) (lastKey : List UInt8) :
    (if lastKey.length = 0 then lastKey else b.maybeStripTimestampFromKey lastKey) = b.maybeStripTimestampFromKey lastKey := by
  split
  · rename_i h
    rw [List.length_eq_zero_iff.mp h, maybeStripTimestampFromKey_nil]
  · rfl

/-- the builder has written the entries `es`: its buffer holds their bytes, its restart array the offsets of those
that start an interval, and its last key is, as persisted, the key of the last -/
structure Writes (b : BlockBuilder) (es : List StoredEntry) : Prop where
  buffer : b.buffer = entriesBytes es
  restarts : b.restarts = if es = [] then [0] else (restartOffsets es).map (· % 2 ^ 32)
  decode : EntriesDecode es
  lastKey : b.useDeltaEncoding = true →
    b.maybeStripTimestampFromKey b.lastKey = (es.getLast?.map StoredEntry.key).getD []
  counter : es = [] → b.counter < b.blockRestartInterval

theorem create_writes {blockRestartInterval tsSz : ℕ} (hk : 1 ≤ blockRestartInterval)
    (useDeltaEncoding useValueDeltaEncoding persistUserDefinedTimestamps isUserKey : Bool) :
    (create blockRestartInterval useDeltaEncoding useValueDeltaEncoding tsSz persistUserDefinedTimestamps
      isUserKey).Writes [] where
  buffer := rfl
  restarts := rfl
  decode := ⟨by simp, by simp, List.isChain_nil⟩
  lastKey _ := by simp [create]
  counter _ := by simp only [create]; omega

/-- the step lemma: `Add` without value delta encoding appends one entry, for its key as persisted and its value -/
theorem add_writes {b : BlockBuilder} {es : List StoredEntry} (hw : b.Writes es) (hvd : b.useValueDeltaEncoding = false)
    (key value : List UInt8) :
    ∃ e : StoredEntry, e.key = b.maybeStripTimestampFromKey key ∧ e.value = value ∧ (b.add key value []).Writes (es ++ [e]) := by
  -- the entry restarts compression when the interval is full, or when it is the first
  let restart := decide (b.blockRestartInterval ≤ b.counter)
  let keyToPersist := b.maybeStripTimestampFromKey key
  let lastKeyPersisted := b.maybeStripTimestampFromKey b.lastKey
  let shared := if restart then 0 else if b.useDeltaEncoding then ListCompare.diffIndex keyToPersist lastKeyPersisted else 0
  have hfresh : es = [] → restart = false := fun h => by simpa [restart] using hw.counter h
  -- the entry shares nothing, or it shares what its key has in common with the last key
  have hcases : shared = 0 ∨ (b.useDeltaEncoding = true ∧ shared = ListCompare.diffIndex keyToPersist lastKeyPersisted) := by
    simp only [shared]
    split
    · exact .inl rfl
    · split
      · exact .inr ⟨‹_›, rfl⟩
      · exact .inl rfl
  have hfirst : es = [] → shared = 0 := by
    intro hes
    rcases hcases with h | ⟨hd, h⟩
    · exact h
    · have hnil : lastKeyPersisted = [] := by simpa [hes] using hw.lastKey hd
      rw [h, hnil]
      simpa using ListCompare.diffIndex_le_length_right keyToPersist []
  have hshares : ∀ x ∈ es.getLast?, SharesWith x ⟨keyToPersist, shared, value, restart || decide (es = [])⟩ := by
    intro x hx
    rcases hcases with h | ⟨hd, h⟩
    · simp [SharesWith, h]
    · have hlast : lastKeyPersisted = x.key := by simpa [Option.mem_def.mp hx] using hw.lastKey hd
      rw [hlast] at h
      refine ⟨?_, ?_, ?_⟩
      · rw [h]; exact ListCompare.diffIndex_le_length_right _ _
      · rw [h]; exact ListCompare.diffIndex_le_length_left _ _
      · rw [h]; exact ListCompare.take_diffIndex _ _
  refine ⟨⟨keyToPersist, shared, value, restart || decide (es = [])⟩, rfl, rfl, ?_, ?_, ?_, ?_, ?_⟩
  · have hbytes : (b.add key value []).buffer =
        b.buffer ++ StoredEntry.bytes ⟨keyToPersist, shared, value, restart || decide (es = [])⟩ := by
      simp only [add_buffer, addWithLastKeyImpl, lastKeyPersisted_eq, hvd, StoredEntry.bytes, StoredEntry.header]
      simp [shared, restart, keyToPersist, lastKeyPersisted]
    rw [hbytes, hw.buffer, entriesBytes_append, entriesBytes_cons, entriesBytes_nil, List.append_nil]
  · simp only [add_restarts, addWithLastKeyImpl, hw.restarts, hw.buffer, List.append_eq_nil_iff, List.cons_ne_self,
      and_false, if_false, restartOffsets_append_singleton]
    by_cases hes : es = []
    · have hr := hfresh hes
      subst hes
      simp only [restart] at hr
      simp [hr, restartOffsets, restartIndices]
    · by_cases hr : b.blockRestartInterval ≤ b.counter
      · simp [hes, hr, restart]
      · simp [hes, hr, restart]
  · refine hw.decode.snoc (fun h => by simp [h]) ?_ hshares
    intro hr
    by_cases hes : es = []
    · exact hfirst hes
    · simp only [hes, decide_false, Bool.or_false, restart, decide_eq_true_eq] at hr
      simp [shared, restart, hr]
  · intro hd
    simp only [add_useDeltaEncoding] at hd
    simp [hd, keyToPersist]
  · intro h
    simp at h

/-- `Add` on each key and value in turn, as a caller builds a data block -/
def addPairs (b : BlockBuilder) (kvs : List (List UInt8 × List UInt8)) : BlockBuilder :=
  kvs.foldl (fun b kv => b.add kv.1 kv.2 []) b

/-- the run lemma: each `Add` appends the entry of its pair -/
theorem addPairs_writes (kvs : List (List UInt8 × List UInt8)) :
    ∀ (b : BlockBuilder) (es : List StoredEntry), b.Writes es → b.useValueDeltaEncoding = false →
      ∃ es', (b.addPairs kvs).Writes (es ++ es') ∧
        es'.map StoredEntry.key = kvs.map (b.maybeStripTimestampFromKey ·.1) ∧
        es'.map StoredEntry.value = kvs.map (·.2) := by
  induction kvs with
  | nil =>
    intro b es hw _
    exact ⟨[], by simpa [addPairs] using hw, rfl, rfl⟩
  | cons kv kvs ih =>
    intro b es hw hvd
    obtain ⟨e, hkey, hvalue, hw'⟩ := add_writes hw hvd kv.1 kv.2
    obtain ⟨es', hw'', hkeys, hvalues⟩ := ih (b.add kv.1 kv.2 []) (es ++ [e]) hw' (by simpa using hvd)
    refine ⟨e :: es', by simpa [addPairs] using hw'', ?_, ?_⟩
    · simp only [List.map_cons, hkey, hkeys, add_maybeStripTimestampFromKey]
    · simp only [List.map_cons, hvalue, hvalues]

/-- the finished block: the entries, the offsets of the restart points as `uint32_t`s, then their number -/
theorem Writes.finish_eq {b : BlockBuilder} {es : List StoredEntry} (hw : b.Writes es) (hne : es ≠ []) :
    b.finish = entriesBytes es ++ (((restartOffsets es).map (· % 2 ^ 32)).map Coding.encodeFixed32).flatten ++
      Coding.encodeFixed32 ((restartIndices es).length % 2 ^ 32) := by
  rw [finish, hw.buffer, hw.restarts, if_neg hne, packIndexTypeAndNumRestarts]
  simp [restartOffsets]

end BlockBuilder

end ForSt
