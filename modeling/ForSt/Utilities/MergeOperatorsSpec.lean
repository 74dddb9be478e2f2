import ForSt.Lib.OptionFold
import ForSt.Utilities.MergeOperators
/-!
The built-in associative merge operators obey the partial-merge law compaction relies on.

An associative operator whose `Merge` always succeeds is an `OptionFold` of its `Merge`
(`associativeFullMergeLoop_eq_fold`, `defaultPartialMergeMulti_eq_combine`), and under `OptionFold.Assoc` a run of
two operands or more can be replaced by its partial merge (`associativeMergeOperator_partialMergeLaw`).
`StringAppendOperator` and `UInt64AddOperator` are such operators; `StringAppendTESTOperator` writes the same bytes
(`fullMergeV3_stringAppendTESTOperator`).
-/

namespace ForSt

open ForSt.Coding

/-- the partial-merge law: two operands or more merge partially, and their partial merge may stand for them in a
full merge -/
structure PartialMergeLaw (op : MergeOperator) : Prop where
  partialMergeMulti_isSome : ∀ ys : List (List UInt8), 2 ≤ ys.length → (op.partialMergeMulti ys).isSome
  fullMergeV2_partial : ∀ (existingValue : Option (List UInt8)) (xs ys zs : List (List UInt8)) (p : List UInt8),
    2 ≤ ys.length → op.partialMergeMulti ys = some p →
    op.fullMergeV2 existingValue (xs ++ [p] ++ zs) = op.fullMergeV2 existingValue (xs ++ ys ++ zs)

/-! ## Associative operators that always merge -/

section associative

variable {g : Option (List UInt8) → List UInt8 → List UInt8}

/-- merging a nonempty list of operands in one at a time is the fold of `Merge`, by induction on the operands after
the first -/
theorem associativeFullMergeLoop_cons (existingValue : Option (List UInt8)) (newValue operand : List UInt8)
    (rest : List (List UInt8)) :
    associativeFullMergeLoop (fun e v => some (g e v)) existingValue newValue (operand :: rest) =
      OptionFold.fold g existingValue (operand :: rest) := by
  induction rest generalizing existingValue newValue operand with
  | nil => rfl
  | cons next rest ih =>
    rw [associativeFullMergeLoop]
    exact ih _ _ next

theorem associativeFullMergeLoop_eq_fold (existingValue : Option (List UInt8)) (newValue : List UInt8)
    {operands : List (List UInt8)} (h : operands ≠ []) :
    associativeFullMergeLoop (fun e v => some (g e v)) existingValue newValue operands =
      OptionFold.fold g existingValue operands := by
  obtain ⟨operand, rest, rfl⟩ := List.exists_cons_of_ne_nil h
  exact associativeFullMergeLoop_cons existingValue newValue operand rest

/-- `PartialMerge` of the running value with each operand is the combination of the run -/
theorem partialMergeMultiLoop_cons (tempSlice newValue operand : List UInt8) (rest : List (List UInt8)) :
    partialMergeMultiLoop (fun l r => some (g (some l) r)) tempSlice newValue (operand :: rest) =
      some (OptionFold.combine g tempSlice (operand :: rest)) := by
  induction rest generalizing tempSlice newValue operand with
  | nil => rfl
  | cons next rest ih =>
    rw [partialMergeMultiLoop]
    exact ih _ _ next

/-- the default `PartialMergeMulti` of two operands or more combines them from the first -/
theorem defaultPartialMergeMulti_eq_combine {ys : List (List UInt8)} (h : 2 ≤ ys.length) :
    ∃ y ys', ys = y :: ys' ∧ ys' ≠ [] ∧
      defaultPartialMergeMulti (fun l r => some (g (some l) r)) ys = some (OptionFold.combine g y ys') := by
  match ys, h with
  | y :: y' :: rest, _ =>
    exact ⟨y, y' :: rest, rfl, List.cons_ne_nil _ _, partialMergeMultiLoop_cons y [] y' rest⟩

/-- an associative operator whose `Merge` always succeeds obeys the partial-merge law when stepping in a combined
pair is stepping in its operands one at a time -/
theorem associativeMergeOperator_partialMergeLaw (hassoc : OptionFold.Assoc g) :
    PartialMergeLaw (associativeMergeOperator fun e v => some (g e v)) where
  partialMergeMulti_isSome ys h := by
    obtain ⟨y, ys', -, -, hp⟩ := defaultPartialMergeMulti_eq_combine (g := g) h
    show (defaultPartialMergeMulti _ ys).isSome
    rw [hp]
    rfl
  fullMergeV2_partial existingValue xs ys zs p h hp := by
    obtain ⟨y, ys', rfl, -, hcomb⟩ := defaultPartialMergeMulti_eq_combine (g := g) h
    have hp' : p = OptionFold.combine g y ys' := by
      have : defaultPartialMergeMulti (fun l r => some (g (some l) r)) (y :: ys') = some p := hp
      rw [hcomb] at this
      exact (Option.some.inj this).symm
    -- both operand lists are nonempty, so both full merges are folds
    have hne₁ : xs ++ [p] ++ zs ≠ [] := by simp
    have hne₂ : xs ++ (y :: ys') ++ zs ≠ [] := by simp
    show Option.map _ (associativeFullMergeLoop _ existingValue [] _) =
      Option.map _ (associativeFullMergeLoop _ existingValue [] _)
    rw [associativeFullMergeLoop_eq_fold existingValue [] hne₁, associativeFullMergeLoop_eq_fold existingValue [] hne₂,
      hp', OptionFold.fold_combine hassoc]

end associative

/-! ## The built-in operators -/

theorem stringAppendMerge_assoc (delim : List UInt8) : OptionFold.Assoc (stringAppendMerge delim) := by
  intro a x y
  cases a <;> simp [stringAppendMerge]

theorem encodeFixed64_mod (v : ℕ) : encodeFixed64 (v % 2 ^ 64) = encodeFixed64 v := by
  have h := Bytes.leBytes_mod 8 v
  rw [show (256 : ℕ) ^ 8 = 2 ^ 64 by norm_num] at h
  exact h

@[simp] theorem decodeInteger_encodeFixed64 (v : ℕ) : decodeInteger (encodeFixed64 v) = v % 2 ^ 64 := by
  rw [decodeInteger, if_pos (length_encodeFixed64 v), ← List.append_nil (encodeFixed64 v),
    decodeFixed64_encodeFixed64]

/-- both ways of adding three operands write the fixed64 of their sum modulo `2 ^ 64` -/
theorem uint64AddMerge_assoc : OptionFold.Assoc uint64AddMerge := by
  intro a x y
  have hsum : ((a.map decodeInteger).getD 0 + (decodeInteger x + decodeInteger y) % 2 ^ 64) % 2 ^ 64 =
      (((a.map decodeInteger).getD 0 + decodeInteger x) % 2 ^ 64 + decodeInteger y) % 2 ^ 64 := by
    omega
  simp only [uint64AddMerge, Option.map_some, Option.getD_some, decodeInteger_encodeFixed64]
  rw [← encodeFixed64_mod, hsum, encodeFixed64_mod]

/-- `StringAppendTESTOperator`'s concatenation after something is printed is the fold of `StringAppendOperator`'s
`Merge` from it -/
theorem fold_stringAppendMerge (delim acc : List UInt8) (operands : List (List UInt8)) :
    OptionFold.fold (stringAppendMerge delim) (some acc) operands =
      some (stringAppendTESTConcat delim true acc operands) := by
  induction operands generalizing acc with
  | nil => rfl
  | cons operand rest ih =>
    rw [OptionFold.fold_cons, ih]
    rfl

/-- `FullMergeV2` of the associative string append over a nonempty list, with an existing value -/
theorem fullMergeV2_stringAppendOperator_some (delim existing : List UInt8) {operands : List (List UInt8)}
    (h : operands ≠ []) :
    (stringAppendOperator delim).fullMergeV2 (some existing) operands =
      some ⟨stringAppendTESTConcat delim true existing operands, none⟩ := by
  show Option.map _ (associativeFullMergeLoop _ _ [] operands) = _
  rw [associativeFullMergeLoop_eq_fold _ [] h, fold_stringAppendMerge]
  rfl

/-- and without one: the first operand, then the others after the delimiter -/
theorem fullMergeV2_stringAppendOperator_none (delim operand : List UInt8) (rest : List (List UInt8)) :
    (stringAppendOperator delim).fullMergeV2 none (operand :: rest) =
      some ⟨stringAppendTESTConcat delim true operand rest, none⟩ := by
  show Option.map _ (associativeFullMergeLoop _ _ [] (operand :: rest)) = _
  rw [associativeFullMergeLoop_cons, OptionFold.fold_cons, fold_stringAppendMerge]
  rfl

/-- the list-state operator gives the value the associative one gives, through `FullMergeV3`, for every existing
value and every nonempty list of operands -/
theorem fullMergeV3_stringAppendTESTOperator (delim : List UInt8) (existingValue : ExistingValue)
    {operands : List (List UInt8)} (h : operands ≠ []) :
    (stringAppendTESTOperator delim).fullMergeV3 existingValue operands =
      (stringAppendOperator delim).fullMergeV3 existingValue operands := by
  obtain ⟨operand, rest, rfl⟩ := List.exists_cons_of_ne_nil h
  cases existingValue with
  | none =>
    simp only [MergeOperator.fullMergeV3, fullMergeV2_stringAppendOperator_none]
    -- one operand is pointed at as it is; more are concatenated
    cases rest with
    | nil => rfl
    | cons next rest => rfl
  | value existing =>
    simp only [MergeOperator.fullMergeV3, fullMergeV2_stringAppendOperator_some delim existing h]
    rfl
  | columns existingColumns =>
    simp only [MergeOperator.fullMergeV3, fullMergeV2_stringAppendOperator_some _ _ h]
    rfl

theorem builtin_partial_merge_law (delim : List UInt8) :
    PartialMergeLaw (stringAppendOperator delim) ∧ PartialMergeLaw uint64AddOperator ∧
      ∀ (existingValue : ExistingValue) (operands : List (List UInt8)), operands ≠ [] →
        (stringAppendTESTOperator delim).fullMergeV3 existingValue operands =
          (stringAppendOperator delim).fullMergeV3 existingValue operands :=
  ⟨associativeMergeOperator_partialMergeLaw (stringAppendMerge_assoc delim),
    associativeMergeOperator_partialMergeLaw uint64AddMerge_assoc,
    fun existingValue _ h => fullMergeV3_stringAppendTESTOperator delim existingValue h⟩

/-- with `,` as the delimiter, `b` merged with `x`, `y` and `z`, the last two merged partially first -/
example : (stringAppendOperator [44]).partialMergeMulti [[121], [122]] = some [121, 44, 122] ∧
    (stringAppendOperator [44]).fullMergeV2 (some [98]) [[120], [121, 44, 122]] =
      some ⟨[98, 44, 120, 44, 121, 44, 122], none⟩ := by decide

end ForSt
