import ForSt.Db.Wide.WideColumnSerialization
/-!
What the wide-column encoding guarantees.

`NamesIncreasing` is a `Pairwise` relation, which the loops check neighbour by neighbour (`IsChain`); `Fits` says
every name and value is shorter than `2 ^ 32` bytes. `serialize_ok` and `serialize_outOfOrder` say what `Serialize`
writes or refuses, `deserialize_serialize` that `Deserialize` reads it back, and `deserialize_sound` that what it
accepts has increasing names. Each loop has a `_complete` and a `_sound` lemma, by induction on the columns.
-/

namespace ForSt

namespace WideColumnSerialization

open ForSt.Coding

/-- `a` comes before `b` in the order of `Slice::compare` -/
def NameLt (a b : List UInt8) : Prop := sliceCompare a b = .lt

instance : DecidableRel NameLt := fun a b => inferInstanceAs (Decidable (sliceCompare a b = .lt))

instance : Trans NameLt NameLt NameLt := ⟨fun hab hbc => @Std.TransCmp.lt_trans _ compare _ _ _ _ hab hbc⟩

/-- the names are strictly increasing -/
def NamesIncreasing (columns : List WideColumn) : Prop := (columns.map WideColumn.name).Pairwise NameLt

instance : DecidablePred NamesIncreasing := fun columns =>
  inferInstanceAs (Decidable ((columns.map WideColumn.name).Pairwise NameLt))

/-- every name and value is shorter than `2 ^ 32` bytes -/
def Fits (columns : List WideColumn) : Prop := ∀ c ∈ columns, c.name.length < 2 ^ 32 ∧ c.value.length < 2 ^ 32

instance : DecidablePred Fits := fun columns =>
  inferInstanceAs (Decidable (∀ c ∈ columns, c.name.length < 2 ^ 32 ∧ c.value.length < 2 ^ 32))

/-- what the loop of `Serialize` writes: each name, length prefixed, then the size of its value -/
def encodeNames (columns : List WideColumn) : List UInt8 :=
  (columns.map fun c => putLengthPrefixedSlice c.name ++ putVarint32 (UInt32.ofNat c.value.length)).flatten

/-- a column as the first loop of `Deserialize` leaves it: its name and an empty value -/
def unfilled (c : WideColumn) : WideColumn := ⟨c.name, []⟩

@[simp] theorem encodeNames_nil : encodeNames [] = [] := rfl

@[simp] theorem encodeNames_cons (c : WideColumn) (columns : List WideColumn) :
    encodeNames (c :: columns) =
      putLengthPrefixedSlice c.name ++ putVarint32 (UInt32.ofNat c.value.length) ++ encodeNames columns := rfl

theorem namesIncreasing_iff_isChain {columns : List WideColumn} :
    NamesIncreasing columns ↔ (columns.map WideColumn.name).IsChain NameLt :=
  List.isChain_iff_pairwise.symm

theorem Fits.tail {c : WideColumn} {columns : List WideColumn} (h : Fits (c :: columns)) : Fits columns :=
  fun x hx => h x (List.mem_cons_of_mem c hx)

theorem Fits.head {c : WideColumn} {columns : List WideColumn} (h : Fits (c :: columns)) :
    c.name.length < 2 ^ 32 ∧ c.value.length < 2 ^ 32 :=
  h c (List.mem_cons_self ..)

/-- the out-of-order check against the name before, for the name before in either loop -/
theorem any_sliceCompare_eq_false {α : Type} {o : Option α} {f : α → List UInt8} {name : List UInt8} :
    o.any (fun x => sliceCompare (f x) name != .lt) = false ↔ ∀ x ∈ o, NameLt (f x) name := by
  cases o <;> simp [NameLt]

/-- a chain after an optional name before -/
theorem isChain_toList_append_cons {prev : Option (List UInt8)} {name : List UInt8} {names : List (List UInt8)} :
    (prev.toList ++ name :: names).IsChain NameLt ↔ (∀ p ∈ prev, NameLt p name) ∧ (name :: names).IsChain NameLt := by
  cases prev <;> simp [List.isChain_cons_cons]

/-! ## Serialize -/

/-- the loop of `Serialize` on columns that fit and follow the name before in increasing order -/
theorem serializeLoop_ok : ∀ {prev : Option (List UInt8)} {columns : List WideColumn} {output : List UInt8},
    Fits columns → (prev.toList ++ columns.map WideColumn.name).IsChain NameLt →
    serializeLoop prev columns output = (.ok, output ++ encodeNames columns)
  | _, [], output, _, _ => by simp [serializeLoop]
  | prev, c :: cs, output, hfits, hchain => by
    obtain ⟨hname, hvalue⟩ := hfits.head
    obtain ⟨hprev, hrest⟩ := isChain_toList_append_cons.mp hchain
    have hrest' : ((some c.name).toList ++ cs.map WideColumn.name).IsChain NameLt := hrest
    have hany : prev.any (fun p => sliceCompare p c.name != .lt) = false :=
      any_sliceCompare_eq_false (f := id) |>.mpr hprev
    rw [serializeLoop, if_neg (by omega), if_neg (by simp [hany]), if_neg (by omega),
      serializeLoop_ok hfits.tail hrest', encodeNames_cons]
    simp only [List.append_assoc]

/-- on columns that fit, the loop of `Serialize` stops with a corruption at the first name out of order -/
theorem serializeLoop_outOfOrder : ∀ {prev : Option (List UInt8)} {columns : List WideColumn} {output : List UInt8},
    Fits columns → ¬ (prev.toList ++ columns.map WideColumn.name).IsChain NameLt →
    (serializeLoop prev columns output).1 = .corruption "Wide columns out of order"
  | prev, [], _, _, hchain => by
    -- at most one name is always a chain
    cases prev <;> simp at hchain
  | prev, c :: cs, output, hfits, hchain => by
    obtain ⟨hname, hvalue⟩ := hfits.head
    by_cases hprev : ∀ p ∈ prev, NameLt p c.name
    · have hrest : ¬ ((some c.name).toList ++ cs.map WideColumn.name).IsChain NameLt := fun h =>
        hchain (isChain_toList_append_cons.mpr ⟨hprev, h⟩)
      have hany : prev.any (fun p => sliceCompare p c.name != .lt) = false :=
        any_sliceCompare_eq_false (f := id) |>.mpr hprev
      rw [serializeLoop, if_neg (by omega), if_neg (by simp [hany]), if_neg (by omega)]
      exact serializeLoop_outOfOrder hfits.tail hrest
    · have hany : prev.any (fun p => sliceCompare p c.name != .lt) = true := by
        rw [← Bool.not_eq_false]
        exact fun h => hprev (any_sliceCompare_eq_false (f := id) |>.mp h)
      rw [serializeLoop, if_neg (by omega), if_pos hany]

/-- `Serialize` of fewer than `2 ^ 32` columns that fit, with increasing names -/
theorem serialize_ok {columns : List WideColumn} (hlen : columns.length < 2 ^ 32) (hfits : Fits columns)
    (hinc : NamesIncreasing columns) :
    serialize columns = (.ok, putVarint32 kCurrentVersion ++ putVarint32 (UInt32.ofNat columns.length) ++
      encodeNames columns ++ (columns.map WideColumn.value).flatten) := by
  have hchain : ((none : Option (List UInt8)).toList ++ columns.map WideColumn.name).IsChain NameLt :=
    namesIncreasing_iff_isChain.mp hinc
  rw [serialize, if_neg (by omega)]
  simp only [serializeLoop_ok hfits hchain]

/-- where the loop of `Serialize` fails, `Serialize` returns what it returns -/
theorem serialize_of_serializeLoop_ne_ok {columns : List WideColumn} (hlen : columns.length < 2 ^ 32) {s : Status}
    {output : List UInt8} (hs : s ≠ .ok)
    (hloop : serializeLoop none columns (putVarint32 kCurrentVersion ++ putVarint32 (UInt32.ofNat columns.length)) =
      (s, output)) :
    serialize columns = (s, output) := by
  rw [serialize, if_neg (by omega)]
  dsimp only
  rw [hloop]
  cases s <;> simp_all

theorem serialize_outOfOrder {columns : List WideColumn} (hlen : columns.length < 2 ^ 32) (hfits : Fits columns)
    (hinc : ¬ NamesIncreasing columns) : (serialize columns).1 = .corruption "Wide columns out of order" := by
  have hchain : ¬ ((none : Option (List UInt8)).toList ++ columns.map WideColumn.name).IsChain NameLt :=
    fun h => hinc (namesIncreasing_iff_isChain.mpr h)
  have hloop : (serializeLoop none columns
      (putVarint32 kCurrentVersion ++ putVarint32 (UInt32.ofNat columns.length))).1 =
      .corruption "Wide columns out of order" := serializeLoop_outOfOrder hfits hchain
  rw [serialize_of_serializeLoop_ne_ok hlen (by rw [hloop]; simp) (Prod.mk.eta).symm, hloop]

/-! ## Deserialize reads what Serialize writes -/

/-- the first loop of `Deserialize` reads back the names and value sizes of columns that fit and follow the last
column read in increasing order -/
theorem deserializeNamesLoop_complete : ∀ {columns acc : List WideColumn} {sizes : List UInt32} (rest : List UInt8),
    Fits columns → ((acc.getLast?.map WideColumn.name).toList ++ columns.map WideColumn.name).IsChain NameLt →
    deserializeNamesLoop columns.length (encodeNames columns ++ rest) acc sizes =
      (.ok, rest, acc ++ columns.map unfilled, sizes ++ columns.map fun c => UInt32.ofNat c.value.length)
  | [], acc, sizes, rest, _, _ => by simp [deserializeNamesLoop]
  | c :: cs, acc, sizes, rest, hfits, hchain => by
    obtain ⟨hname, -⟩ := hfits.head
    obtain ⟨hprev, hrest⟩ := isChain_toList_append_cons.mp hchain
    have hany : acc.getLast?.any (fun x => sliceCompare x.name c.name != .lt) = false := by
      apply any_sliceCompare_eq_false.mpr
      intro x hx
      exact hprev x.name (Option.mem_map_of_mem _ hx)
    have hrest' : (((acc ++ [unfilled c]).getLast?.map WideColumn.name).toList ++
        cs.map WideColumn.name).IsChain NameLt := by
      rw [List.getLast?_concat]
      exact hrest
    have hread : encodeNames (c :: cs) ++ rest = putLengthPrefixedSlice c.name ++
        (putVarint32 (UInt32.ofNat c.value.length) ++ (encodeNames cs ++ rest)) := by
      simp only [encodeNames_cons, List.append_assoc]
    rw [List.length_cons, hread, deserializeNamesLoop, getLengthPrefixedSlice_putLengthPrefixedSlice hname]
    simp only [hany, Bool.false_eq_true, if_false, getVarint32_putVarint32]
    rw [show (⟨c.name, []⟩ : WideColumn) = unfilled c from rfl, deserializeNamesLoop_complete rest hfits.tail hrest']
    simp only [List.map_cons, List.append_assoc, List.singleton_append]

/-- the second loop of `Deserialize` gives each column the value that follows in the data -/
theorem deserializeValuesLoop_complete {data t : List UInt8} : ∀ {columns done : List WideColumn} {pos : ℕ},
    Fits columns → pos ≤ data.length → data.drop pos = (columns.map WideColumn.value).flatten ++ t →
    deserializeValuesLoop data pos (columns.map unfilled) (columns.map fun c => UInt32.ofNat c.value.length) done =
      (.ok, done ++ columns)
  | [], done, pos, _, _, _ => by simp [deserializeValuesLoop]
  | c :: cs, done, pos, hfits, hpos, hdrop => by
    obtain ⟨-, hvalue⟩ := hfits.head
    have hsize : (UInt32.ofNat c.value.length).toNat = c.value.length := by
      rw [UInt32.toNat_ofNat_of_lt' hvalue]
    have hdrop' : data.drop pos = c.value ++ ((cs.map WideColumn.value).flatten ++ t) := by
      rw [hdrop, List.map_cons, List.flatten_cons, List.append_assoc]
    have hfit : pos + c.value.length ≤ data.length := by
      have hlen := congrArg List.length hdrop'
      rw [List.length_drop, List.length_append] at hlen
      omega
    have htake : (data.drop pos).take c.value.length = c.value := by
      rw [hdrop']
      exact List.take_left' rfl
    have hnext : data.drop (pos + c.value.length) = (cs.map WideColumn.value).flatten ++ t := by
      rw [← List.drop_drop, hdrop', List.drop_left' rfl]
    rw [List.map_cons, List.map_cons, deserializeValuesLoop, hsize, if_neg (by omega), htake]
    -- the column given its value is the column
    rw [show { unfilled c with value := c.value } = c from rfl,
      deserializeValuesLoop_complete hfits.tail hfit hnext, List.append_assoc, List.singleton_append]

/-- `Deserialize` reads back what `Serialize` wrote, whatever follows it -/
theorem deserialize_serialize {columns : List WideColumn} (hlen : columns.length < 2 ^ 32) (hfits : Fits columns)
    (hinc : NamesIncreasing columns) (t : List UInt8) :
    deserialize ((serialize columns).2 ++ t) = (.ok, columns) := by
  have hcount : (UInt32.ofNat columns.length).toNat = columns.length := UInt32.toNat_ofNat_of_lt' hlen
  have hbytes : (serialize columns).2 ++ t = putVarint32 kCurrentVersion ++ (putVarint32
      (UInt32.ofNat columns.length) ++ (encodeNames columns ++ ((columns.map WideColumn.value).flatten ++ t))) := by
    rw [serialize_ok hlen hfits hinc]
    simp only [List.append_assoc]
  have hversion : ¬ kCurrentVersion > kCurrentVersion := UInt32.lt_irrefl _
  rw [hbytes, deserialize, getVarint32_putVarint32]
  simp only [hversion, if_false, getVarint32_putVarint32]
  cases columns with
  | nil => rfl
  | cons c cs =>
    -- a positive count: the names, then the values
    have hne : UInt32.ofNat (c :: cs).length ≠ 0 := by
      intro h0
      have := congrArg UInt32.toNat h0
      rw [hcount] at this
      simp at this
    have hchain : ((([] : List WideColumn).getLast?.map WideColumn.name).toList ++
        (c :: cs).map WideColumn.name).IsChain NameLt := namesIncreasing_iff_isChain.mp hinc
    rw [if_neg hne, hcount, deserializeNamesLoop_complete _ hfits hchain]
    simp only [List.nil_append]
    exact deserializeValuesLoop_complete hfits (Nat.zero_le _) List.drop_zero

/-! ## What Deserialize accepts -/

/-- what the first loop of `Deserialize` has read when it succeeds: columns with empty values whose names follow the
columns before in increasing order, and the input up to the data -/
theorem deserializeNamesLoop_sound : ∀ {n : ℕ} {input data : List UInt8} {acc columns : List WideColumn}
    {sizes sizes' : List UInt32},
    deserializeNamesLoop n input acc sizes = (.ok, data, columns, sizes') → (acc.map WideColumn.name).IsChain NameLt →
    ∃ newColumns header, columns = acc ++ newColumns ∧ (∀ c ∈ newColumns, c.value = []) ∧
      (columns.map WideColumn.name).IsChain NameLt ∧ input = header ++ data
  | 0, input, data, acc, columns, sizes, sizes', h, hchain => by
    simp only [deserializeNamesLoop, Prod.mk.injEq] at h
    obtain ⟨-, rfl, rfl, -⟩ := h
    exact ⟨[], [], by simp, by simp, hchain, rfl⟩
  | n + 1, input, data, acc, columns, sizes, sizes', h, hchain => by
    rw [deserializeNamesLoop] at h
    -- each check that fails returns a corruption, so only the reads that succeed remain
    split at h
    · simp at h
    · rename_i name input' hname
      split_ifs at h with horder
      · simp at h
      split at h
      · simp at h
      rename_i valueSize input'' hsize
      have hlast : ∀ x ∈ acc.getLast?, NameLt x.name name :=
        any_sliceCompare_eq_false.mp (Bool.eq_false_iff.mpr horder)
      have hchain' : ((acc ++ [(⟨name, []⟩ : WideColumn)]).map WideColumn.name).IsChain NameLt := by
        rw [List.map_append, List.isChain_append]
        refine ⟨hchain, List.isChain_singleton _, fun x hx y hy => ?_⟩
        rw [List.getLast?_map, Option.mem_map] at hx
        obtain ⟨x', hx', rfl⟩ := hx
        rw [List.map_singleton, List.head?_singleton, Option.mem_some_iff] at hy
        rw [← hy]
        exact hlast x' hx'
      obtain ⟨newColumns, header, hcols, hvals, hchain'', hinput⟩ := deserializeNamesLoop_sound h hchain'
      obtain ⟨pre, hpre⟩ := getLengthPrefixedSlice_suffix hname
      obtain ⟨pre', hpre'⟩ := getVarint32_suffix hsize
      refine ⟨⟨name, []⟩ :: newColumns, pre ++ pre' ++ header, ?_, ?_, hchain'', ?_⟩
      · rw [hcols, List.append_assoc, List.singleton_append]
      · intro c hc
        rcases List.mem_cons.mp hc with rfl | hc
        · rfl
        · exact hvals c hc
      · rw [hpre, hpre', hinput]
        simp only [List.append_assoc]

/-- what the second loop of `Deserialize` has read when it succeeds: the columns, each given a value, and those values
one after the other from `pos` in the data -/
theorem deserializeValuesLoop_sound {data : List UInt8} : ∀ {pos : ℕ} {columns : List WideColumn}
    {sizes : List UInt32} {done result : List WideColumn},
    deserializeValuesLoop data pos columns sizes done = (.ok, result) → (∀ c ∈ columns, c.value = []) →
    ∃ filled rest, result = done ++ filled ∧ filled.map WideColumn.name = columns.map WideColumn.name ∧
      data.drop pos = (filled.map WideColumn.value).flatten ++ rest
  | pos, c :: cs, s :: ss, done, result, h, hempty => by
    rw [deserializeValuesLoop] at h
    split_ifs at h with hfit
    · simp at h
    obtain ⟨filled, rest, hres, hnames, hdrop⟩ :=
      deserializeValuesLoop_sound h fun x hx => hempty x (List.mem_cons_of_mem c hx)
    refine ⟨{ c with value := (data.drop pos).take s.toNat } :: filled, rest, ?_, ?_, ?_⟩
    · rw [hres, List.append_assoc, List.singleton_append]
    · rw [List.map_cons, List.map_cons, hnames]
    · -- the value taken, then the data from the next position
      rw [List.map_cons, List.flatten_cons, List.append_assoc, ← hdrop, ← List.drop_drop]
      exact (List.take_append_drop s.toNat (data.drop pos)).symm
  | pos, [], sizes, done, result, h, _ => by
    have hres : done ++ [] = result := by
      cases sizes <;> simpa [deserializeValuesLoop] using h
    exact ⟨[], data.drop pos, by rw [← hres], rfl, by simp⟩
  | pos, c :: cs, [], done, result, h, hempty => by
    -- columns left without a size keep their empty values
    have hres : done ++ c :: cs = result := by simpa [deserializeValuesLoop] using h
    have hflat : ((c :: cs).map WideColumn.value).flatten = [] := by
      rw [List.flatten_eq_nil_iff]
      intro v hv
      obtain ⟨x, hx, rfl⟩ := List.mem_map.mp hv
      exact hempty x hx
    exact ⟨c :: cs, data.drop pos, hres.symm, rfl, by rw [hflat, List.nil_append]⟩

/-- whatever `Deserialize` accepts has increasing names, and its values lie one after the other in its input -/
theorem deserialize_sound {input : List UInt8} {columns : List WideColumn} (h : deserialize input = (.ok, columns)) :
    NamesIncreasing columns ∧ ∃ header rest, input = header ++ (columns.map WideColumn.value).flatten ++ rest := by
  rw [deserialize] at h
  split at h
  · simp at h
  rename_i version input₁ hversion
  split_ifs at h with hnewer
  · simp at h
  split at h
  · simp at h
  rename_i numColumns input₂ hcount
  obtain ⟨pre₁, hpre₁⟩ := getVarint32_suffix hversion
  obtain ⟨pre₂, hpre₂⟩ := getVarint32_suffix hcount
  split_ifs at h with hzero
  · -- no columns
    simp only [Prod.mk.injEq] at h
    obtain ⟨-, rfl⟩ := h
    exact ⟨List.Pairwise.nil, input, [], by simp⟩
  split at h
  · rename_i data unfilledColumns sizes hnames
    obtain ⟨newColumns, header, hcols, hvals, hchain, hinput⟩ := deserializeNamesLoop_sound hnames List.IsChain.nil
    rw [List.nil_append] at hcols
    subst hcols
    obtain ⟨filled, rest, hres, hsame, hdrop⟩ := deserializeValuesLoop_sound h hvals
    rw [List.nil_append] at hres
    subst hres
    refine ⟨?_, pre₁ ++ pre₂ ++ header, rest, ?_⟩
    · rw [namesIncreasing_iff_isChain, hsame]
      exact hchain
    · rw [hpre₁, hpre₂, hinput, ← List.drop_zero (l := data), hdrop]
      simp only [List.append_assoc]
  · -- a failed read of the names returns its status, which is not OK
    rename_i hne _
    simp only [Prod.mk.injEq] at h
    exact absurd h.1 hne

/-! ## The round trip -/

/-- fewer than `2 ^ 32` columns whose names and values are shorter than `2 ^ 32` bytes are serialized when their names
are increasing, and read back whole from the bytes followed by anything, and are refused as out of order when they
are not; whatever `Deserialize` accepts has increasing names and values that lie in its input -/
theorem wideColumns_round_trip :
    (∀ columns : List WideColumn, columns.length < 2 ^ 32 → Fits columns →
      (NamesIncreasing columns → (serialize columns).1 = .ok ∧
          ∀ t, deserialize ((serialize columns).2 ++ t) = (.ok, columns)) ∧
        (¬ NamesIncreasing columns → (serialize columns).1 = .corruption "Wide columns out of order")) ∧
      ∀ input columns, deserialize input = (.ok, columns) →
        NamesIncreasing columns ∧ ∃ header rest, input = header ++ (columns.map WideColumn.value).flatten ++ rest := by
  refine ⟨fun columns hlen hfits => ⟨fun hinc => ?_, serialize_outOfOrder hlen hfits⟩,
    fun _ _ h => deserialize_sound h⟩
  refine ⟨?_, deserialize_serialize hlen hfits hinc⟩
  rw [serialize_ok hlen hfits hinc]

theorem wideColumns_round_trip_two :
    [(⟨[1], [7, 8]⟩ : WideColumn), ⟨[2], []⟩].length < 2 ^ 32 ∧ Fits [⟨[1], [7, 8]⟩, ⟨[2], []⟩] ∧
      NamesIncreasing [⟨[1], [7, 8]⟩, ⟨[2], []⟩] ∧
      deserialize ((serialize [⟨[1], [7, 8]⟩, ⟨[2], []⟩]).2 ++ [9]) = (.ok, [⟨[1], [7, 8]⟩, ⟨[2], []⟩]) := by
  have hlen : [(⟨[1], [7, 8]⟩ : WideColumn), ⟨[2], []⟩].length < 2 ^ 32 := by decide
  have hfits : Fits [⟨[1], [7, 8]⟩, ⟨[2], []⟩] := by decide
  have hinc : NamesIncreasing [⟨[1], [7, 8]⟩, ⟨[2], []⟩] := by decide
  exact ⟨hlen, hfits, hinc, ((wideColumns_round_trip.1 _ hlen hfits).1 hinc).2 [9]⟩

/-- a name of `2 ^ 32` bytes before one out of order: `Serialize` refuses the long name first -/
theorem wideColumns_round_trip_counterexample :
    ¬ NamesIncreasing [⟨List.replicate (2 ^ 32) 0, []⟩, ⟨[], []⟩] ∧
      (serialize [⟨List.replicate (2 ^ 32) 0, []⟩, ⟨[], []⟩]).1 = .invalidArgument "Wide column name too long" := by
  constructor
  · -- the long name is not below the empty one
    have hrep : List.replicate (2 ^ 32) (0 : UInt8) = 0 :: List.replicate (2 ^ 32 - 1) 0 := by
      obtain ⟨n, hn⟩ : ∃ n, n = 2 ^ 32 - 1 := ⟨_, rfl⟩
      have h : 2 ^ 32 = n + 1 := by omega
      rw [h, List.replicate_succ, Nat.add_sub_cancel]
    intro hinc
    rw [NamesIncreasing, List.map_cons, List.map_cons, List.map_nil, List.pairwise_cons] at hinc
    have hlt := hinc.1 [] (List.mem_singleton_self _)
    rw [NameLt, sliceCompare, hrep, List.compare_cons_nil] at hlt
    cases hlt
  · have hlong : (List.replicate (2 ^ 32) (0 : UInt8)).length > 2 ^ 32 - 1 := by
      rw [List.length_replicate]
      omega
    have hcount : [(⟨List.replicate (2 ^ 32) 0, []⟩ : WideColumn), ⟨[], []⟩].length < 2 ^ 32 := by
      rw [List.length_cons, List.length_cons, List.length_nil]
      omega
    have hloop : ∀ output, serializeLoop none [⟨List.replicate (2 ^ 32) 0, []⟩, ⟨[], []⟩] output =
        (.invalidArgument "Wide column name too long", output) := by
      intro output
      rw [serializeLoop, if_pos hlong]
    rw [serialize_of_serializeLoop_ne_ok hcount (by decide) (hloop _)]

end WideColumnSerialization

end ForSt
