import ForSt.Db.VersionEdit
/-!
What `DecodeFrom` leaves of the edit it decodes into.

`Clear()` does not reset `has_persist_user_defined_timestamps_` or `persist_user_defined_timestamps_`, and no tag
but `kPersistUserDefinedTimestamps` touches them. So an edit that carried the flag keeps it through every
`DecodeFrom`, whatever it reads (`decodeFrom_keeps_hasPersistUserDefinedTimestamps`, from the step lemma
`decodeTag_hasPersist` and the run lemma `decodeLoop_hasPersist`). Decoding the empty edit's encoding into such an
edit then returns OK with the old flag, and encoding the result writes a `kPersistUserDefinedTimestamps` record the
empty edit does not have (`decodeFrom_reused_edit_keeps_persist_flag`).
-/

namespace ForSt

open ForSt.Coding

/-- the edit a turn of the tag loop leaves, whatever its outcome -/
def DecodeStep.edit : DecodeStep → VersionEdit
  | .next ve _ => ve
  | .fail ve _ => ve
  | .stop ve _ => ve

section flag

variable {α : Type} {ve : VersionEdit} {input : List UInt8}

theorem getLevel_hasPersist {level : Int32} {ve' : VersionEdit} {rest : List UInt8}
    (h : ve.getLevel input = some (level, ve', rest)) :
    ve'.hasPersistUserDefinedTimestamps = ve.hasPersistUserDefinedTimestamps := by
  rw [VersionEdit.getLevel] at h
  split at h
  · obtain ⟨-, rfl, -⟩ := h
    split_ifs <;> rfl
  · cases h

theorem decodeField_hasPersist (reader : List UInt8 → Option (α × List UInt8)) {set : VersionEdit → α → VersionEdit}
    (hset : ∀ ve a, (set ve a).hasPersistUserDefinedTimestamps = ve.hasPersistUserDefinedTimestamps) (msg : String) :
    (decodeField reader set msg ve input).edit.hasPersistUserDefinedTimestamps = ve.hasPersistUserDefinedTimestamps := by
  rw [decodeField]
  split
  · exact hset ve _
  · rfl

theorem decodeLevelled_hasPersist (reader : List UInt8 → Option (α × List UInt8))
    {add : VersionEdit → Int32 → α → VersionEdit}
    (hadd : ∀ ve level a, (add ve level a).hasPersistUserDefinedTimestamps = ve.hasPersistUserDefinedTimestamps)
    (msg : String) :
    (decodeLevelled reader add msg ve input).edit.hasPersistUserDefinedTimestamps =
      ve.hasPersistUserDefinedTimestamps := by
  rw [decodeLevelled]
  split
  · rename_i level ve' rest h
    rw [decodeField_hasPersist reader (fun ve a => hadd ve level a) msg]
    exact getLevel_hasPersist h
  · rfl

theorem decodeRecord_hasPersist (decode : List UInt8 → Except Status (α × List UInt8))
    {add : VersionEdit → α → VersionEdit}
    (hadd : ∀ ve a, (add ve a).hasPersistUserDefinedTimestamps = ve.hasPersistUserDefinedTimestamps) :
    (decodeRecord decode add ve input).edit.hasPersistUserDefinedTimestamps = ve.hasPersistUserDefinedTimestamps := by
  rw [decodeRecord]
  split
  · exact hadd ve _
  · rfl

theorem decodePrefixedRecord_hasPersist (decode : List UInt8 → Except Status (α × List UInt8))
    {add : VersionEdit → α → VersionEdit}
    (hadd : ∀ ve a, (add ve a).hasPersistUserDefinedTimestamps = ve.hasPersistUserDefinedTimestamps)
    (msg : String) :
    (decodePrefixedRecord decode add msg ve input).edit.hasPersistUserDefinedTimestamps =
      ve.hasPersistUserDefinedTimestamps := by
  rw [decodePrefixedRecord]
  split
  · split
    · exact hadd ve _
    · rfl
  · rfl

/-- the switch over a new file's custom field gives the edit back as it was, or with the min log number to keep
set (the `kMinLogNumberToKeepHack` case) -/
theorem applyNewFile4Field_edit {f f' : FileMetaData} {pathId pathId' tag : UInt32} {field : List UInt8}
    {ve' : VersionEdit} (h : applyNewFile4Field ve f pathId tag field = .ok (ve', f', pathId')) :
    ve' = ve ∨ ∃ v, ve' = { ve with minLogNumberToKeep := v, hasMinLogNumberToKeep := true } := by
  rw [applyNewFile4Field] at h
  repeat' split at h
  all_goals cases h
  -- every case but the hack's returns the edit it was given
  all_goals first
    | exact .inl rfl
    | exact .inr ⟨_, rfl⟩

/-- the edit the custom field loop leaves, whatever its outcome -/
def newFile4FieldsEdit : Except (VersionEdit × String) (VersionEdit × FileMetaData × UInt32 × List UInt8) →
    VersionEdit
  | .ok (ve, _, _, _) => ve
  | .error (ve, _) => ve

theorem newFile4CustomFields_hasPersist (f : FileMetaData) (pathId : UInt32) :
    (newFile4FieldsEdit (newFile4CustomFields ve f pathId input)).hasPersistUserDefinedTimestamps =
      ve.hasPersistUserDefinedTimestamps := by
  induction ve, f, pathId, input using newFile4CustomFields.induct with
  | case1 ve f pathId input hv =>
    rw [newFile4CustomFields, hv]
    rfl
  | case2 ve f pathId input r hv =>
    rw [newFile4CustomFields, hv]
    simp only [if_true]
    rfl
  | case3 ve f pathId input tag r hv hterm hs =>
    rw [newFile4CustomFields, hv]
    simp only [if_neg hterm]
    split
    · rfl
    · rename_i field r' hs'
      rw [hs] at hs'
      cases hs'
  | case4 ve f pathId input tag r hv hterm field r' hs msg happly =>
    rw [newFile4CustomFields, hv]
    simp only [if_neg hterm]
    split
    · rfl
    · rename_i field' r'' hs'
      rw [hs] at hs'
      obtain ⟨rfl, rfl⟩ := Prod.mk.inj (Option.some.inj hs')
      simp only [happly]
      rfl
  | case5 ve f pathId input tag r hv hterm field r' hs ve₁ f₁ pathId₁ happly ih =>
    rw [newFile4CustomFields, hv]
    simp only [if_neg hterm]
    split
    · rfl
    · rename_i field' r'' hs'
      rw [hs] at hs'
      obtain ⟨rfl, rfl⟩ := Prod.mk.inj (Option.some.inj hs')
      simp only [happly]
      rw [ih]
      -- the field gave the edit back, or set the min log number to keep, which is another member
      rcases applyNewFile4Field_edit happly with rfl | ⟨v, rfl⟩ <;> rfl

theorem decodeNewFile4From_hasPersist :
    (ve.decodeNewFile4From input).edit.hasPersistUserDefinedTimestamps = ve.hasPersistUserDefinedTimestamps := by
  rw [VersionEdit.decodeNewFile4From]
  split
  · rfl
  · rename_i level ve₁ r₁ h₁
    have hlevel := getLevel_hasPersist h₁
    split
    · exact hlevel
    · rename_i number fileSize smallest largest smallestSeqno largestSeqno r₂ h₂
      have hfields : (newFile4FieldsEdit (newFile4CustomFields ve₁ { smallest, largest } 0 r₂)).hasPersistUserDefinedTimestamps =
          ve₁.hasPersistUserDefinedTimestamps := newFile4CustomFields_hasPersist _ _
      split
      · rename_i ve₂ msg h₃
        rw [h₃] at hfields
        exact hfields.trans hlevel
      · rename_i ve₂ f pathId r₃ h₃
        rw [h₃] at hfields
        exact hfields.trans hlevel

theorem decodeUnknownTag_edit (tag : UInt32) : (decodeUnknownTag tag ve input).edit = ve := by
  rw [decodeUnknownTag]
  split_ifs
  · split
    · split_ifs <;> rfl
    · rfl
  · rfl

/-- one turn of the tag loop never clears the flag: only `kPersistUserDefinedTimestamps` writes it, and it sets it -/
theorem decodeTag_hasPersist (tag : UInt32) (h : ve.hasPersistUserDefinedTimestamps = true) :
    (decodeTag tag ve input).edit.hasPersistUserDefinedTimestamps = true := by
  rw [decodeTag]
  split
  -- each case names its helper; the member it sets is never the flag
  all_goals first
    | exact (decodeField_hasPersist _ (fun _ _ => by rfl) _).trans h
    | exact (decodeLevelled_hasPersist _ (fun _ _ _ => by rfl) _).trans h
    | exact (decodeRecord_hasPersist _ (fun _ _ => by rfl)).trans h
    | exact (decodePrefixedRecord_hasPersist _ (fun _ _ => by rfl) _).trans h
    | exact decodeNewFile4From_hasPersist.trans h
    | exact (congrArg VersionEdit.hasPersistUserDefinedTimestamps (decodeUnknownTag_edit tag)).trans h
    | exact h
    | skip
  -- the two cases that read their slice inline
  all_goals
    split
    all_goals first
      | exact h
      | rfl

/-- the run lemma: no input makes the tag loop clear the flag -/
theorem decodeLoop_hasPersist (h : ve.hasPersistUserDefinedTimestamps = true) :
    (decodeLoop ve input).2.hasPersistUserDefinedTimestamps = true := by
  induction ve, input using decodeLoop.induct with
  | case1 ve input hv hempty =>
    rw [decodeLoop, hv]
    simpa [hempty] using h
  | case2 ve input hv hempty =>
    rw [decodeLoop, hv]
    simpa [hempty] using h
  | case3 ve input tag rest hv ve' rest' hd ih =>
    have hstep : (decodeTag tag ve rest).edit.hasPersistUserDefinedTimestamps = true := decodeTag_hasPersist tag h
    rw [hd] at hstep
    rw [decodeLoop_next hv hd]
    exact ih hstep
  | case4 ve input tag rest hv ve' msg hd =>
    have hstep : (decodeTag tag ve rest).edit.hasPersistUserDefinedTimestamps = true := decodeTag_hasPersist tag h
    rw [hd] at hstep
    rw [decodeLoop_fail hv hd]
    exact hstep
  | case5 ve input tag rest hv ve' s hd =>
    have hstep : (decodeTag tag ve rest).edit.hasPersistUserDefinedTimestamps = true := decodeTag_hasPersist tag h
    rw [hd] at hstep
    rw [decodeLoop_stop hv hd]
    exact hstep

end flag

/-- an edit that carried the persist flag still carries it after any `DecodeFrom` -/
theorem decodeFrom_keeps_hasPersistUserDefinedTimestamps (d : VersionEdit) (src : List UInt8)
    (hd : d.hasPersistUserDefinedTimestamps = true) :
    (d.decodeFrom src).2.hasPersistUserDefinedTimestamps = true :=
  decodeLoop_hasPersist hd

theorem decodeFrom_keeps_hasPersistUserDefinedTimestamps_comparator :
    ({ hasPersistUserDefinedTimestamps := true } : VersionEdit).hasPersistUserDefinedTimestamps = true ∧
      (({ hasPersistUserDefinedTimestamps := true } : VersionEdit).decodeFrom
        (putTag .kComparator ++ putLengthPrefixedSlice [])).2.hasPersistUserDefinedTimestamps = true :=
  ⟨rfl, decodeFrom_keeps_hasPersistUserDefinedTimestamps _ _ rfl⟩

theorem decodeLoop_nil (ve : VersionEdit) : decodeLoop ve [] = (.ok, ve) := by
  rw [decodeLoop]
  rfl

/-- the bytes an edit that holds nothing but the persist flag encodes to -/
theorem encodeTo_clear_of_hasPersist {d : VersionEdit} (hd : d.hasPersistUserDefinedTimestamps = true) (tsSz : ℕ) :
    (d.clear.encodeTo tsSz).2 =
      putTag .kPersistUserDefinedTimestamps ++
        putLengthPrefixedSlice [if d.persistUserDefinedTimestamps then 1 else 0] := by
  simp [VersionEdit.encodeTo, VersionEdit.clear, VersionEdit.encodeHeader, VersionEdit.encodeTrailer,
    encodeNewFiles, hd]

theorem putTag_ne_nil (t : Tag) : putTag t ≠ [] := by
  rw [putTag, putVarint32, encodeVarint32_eq]
  exact Leb128.encode_ne_nil _

/-- decoding the empty edit's encoding into an edit that carried the persist flag returns OK, keeps the old flag and
its value, and the result encodes to bytes the empty edit does not -/
theorem decodeFrom_reused_edit_keeps_persist_flag (d : VersionEdit) (hd : d.hasPersistUserDefinedTimestamps = true)
    (tsSz : ℕ) :
    (({} : VersionEdit).encodeTo tsSz).1 = true ∧
      (d.decodeFrom (({} : VersionEdit).encodeTo tsSz).2).1 = .ok ∧
      (d.decodeFrom (({} : VersionEdit).encodeTo tsSz).2).2.persistUserDefinedTimestamps =
        d.persistUserDefinedTimestamps ∧
      ((d.decodeFrom (({} : VersionEdit).encodeTo tsSz).2).2.encodeTo tsSz).2 ≠
        (({} : VersionEdit).encodeTo tsSz).2 := by
  have hempty : ({} : VersionEdit).encodeTo tsSz = (true, []) := rfl
  have hdecode : d.decodeFrom [] = (.ok, d.clear) := decodeLoop_nil d.clear
  rw [hempty, hdecode]
  refine ⟨rfl, rfl, rfl, ?_⟩
  rw [encodeTo_clear_of_hasPersist hd]
  exact List.append_ne_nil_of_left_ne_nil (putTag_ne_nil _) _

theorem decodeFrom_reused_edit_keeps_persist_flag_of_false :
    ({ hasPersistUserDefinedTimestamps := true, persistUserDefinedTimestamps := false } : VersionEdit).hasPersistUserDefinedTimestamps = true ∧
      (({} : VersionEdit).encodeTo 0).1 = true ∧
      (({ hasPersistUserDefinedTimestamps := true, persistUserDefinedTimestamps := false } : VersionEdit).decodeFrom
        (({} : VersionEdit).encodeTo 0).2).1 = .ok ∧
      (({ hasPersistUserDefinedTimestamps := true, persistUserDefinedTimestamps := false } : VersionEdit).decodeFrom
        (({} : VersionEdit).encodeTo 0).2).2.persistUserDefinedTimestamps = false ∧
      ((({ hasPersistUserDefinedTimestamps := true, persistUserDefinedTimestamps := false } : VersionEdit).decodeFrom
        (({} : VersionEdit).encodeTo 0).2).2.encodeTo 0).2 ≠ (({} : VersionEdit).encodeTo 0).2 :=
  ⟨rfl, decodeFrom_reused_edit_keeps_persist_flag
    ({ hasPersistUserDefinedTimestamps := true, persistUserDefinedTimestamps := false } : VersionEdit) rfl 0⟩

end ForSt
