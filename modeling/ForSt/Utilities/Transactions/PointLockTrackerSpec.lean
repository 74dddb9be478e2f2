import Mathlib.Algebra.Group.Prod
import Mathlib.Data.UInt
import ForSt.Utilities.Transactions.PointLockTracker
/-!
What a point lock tracker keeps key by key, and how `Subtract`, `GetTrackedLocksSinceSavePoint` and `Merge` relate a
transaction's tracker to its last save point's.

Tracking requests leaves at each key what its own requests make of it (`find_trackAll`), and each of the three
operations reads at one key as a function of the two trackers there (`find_subtract`, `find_merge`,
`find_getTrackedLocksSinceSavePoint`). With `P` the requests before the save point and `S` those after
(`SavePointAlgebra`), `Subtract` leaves the counts of `P` and `GetTrackedLocksSinceSavePoint` the keys of `S` that `P`
lacks, when `P` has fewer than `2 ^ 32` requests; `Merge` keeps the sequence number of `P`'s tracker.
-/

namespace ForSt

open ForSt.Containers

/-! ## Reading a tracker at one key -/

/-- the info a tracker keeps for a key of a column family -/
def PointLockTracker.find (t : PointLockTracker) (cf : ColumnFamilyId) (key : List UInt8) : Option TrackedKeyInfo :=
  (t.trackedKeys.lookup cf).bind fun keys => keys.lookup key

/-- a key's read and write counts -/
def TrackedKeyInfo.counts (info : TrackedKeyInfo) : UInt32 × UInt32 := (info.numReads, info.numWrites)

/-- the counts of a key that may be untracked, zero when it is -/
def countsOf (o : Option TrackedKeyInfo) : UInt32 × UInt32 := (o.map TrackedKeyInfo.counts).getD 0

/-- whether a key that may be untracked is locked in exclusive mode -/
def exclusiveOf (o : Option TrackedKeyInfo) : Bool := (o.map TrackedKeyInfo.exclusive).getD false

/-- whether a request is for a key of a column family -/
def PointLockRequest.isFor (cf : ColumnFamilyId) (key : List UInt8) (r : PointLockRequest) : Bool :=
  r.columnFamilyId == cf && r.key == key

/-- what a key's requests make of its info, one after the other, from the info before them -/
def trackKeyInfos (old : Option TrackedKeyInfo) (rs : List PointLockRequest) : Option TrackedKeyInfo :=
  rs.foldl (fun o r => some (trackKeyInfo r o)) old

/-- the read and write counts of a sequence of requests, modulo `2 ^ 32` -/
def requestCounts (rs : List PointLockRequest) : UInt32 × UInt32 :=
  (UInt32.ofNat (rs.countP (·.readOnly)), UInt32.ofNat (rs.countP (!·.readOnly)))

theorem find_empty (cf : ColumnFamilyId) (key : List UInt8) : PointLockTracker.empty.find cf key = none := rfl

theorem locked_getPointLockStatus (t : PointLockTracker) (cf : ColumnFamilyId) (key : List UInt8) :
    (t.getPointLockStatus cf key).locked = (t.find cf key).isSome := by
  unfold PointLockTracker.getPointLockStatus PointLockTracker.find
  cases t.trackedKeys.lookup cf with
  | none => rfl
  | some keys =>
    cases hk : keys.lookup key <;> simp [hk]

/-! ## What one key's requests make of it -/

@[simp] theorem countsOf_none : countsOf none = 0 := rfl
@[simp] theorem countsOf_some (info : TrackedKeyInfo) : countsOf (some info) = info.counts := rfl
@[simp] theorem exclusiveOf_none : exclusiveOf none = false := rfl
@[simp] theorem exclusiveOf_some (info : TrackedKeyInfo) : exclusiveOf (some info) = info.exclusive := rfl

theorem requestCounts_nil : requestCounts [] = 0 := rfl

theorem requestCounts_cons (r : PointLockRequest) (rs : List PointLockRequest) :
    requestCounts (r :: rs) = requestCounts [r] + requestCounts rs := by
  simp [requestCounts, List.countP_cons, add_comm]

theorem counts_trackKeyInfo (r : PointLockRequest) (o : Option TrackedKeyInfo) :
    (trackKeyInfo r o).counts = countsOf o + requestCounts [r] := by
  cases o <;> cases hr : r.readOnly <;>
    simp [trackKeyInfo, requestCounts, TrackedKeyInfo.counts, TrackedKeyInfo.create, hr, apply_ite]

theorem exclusive_trackKeyInfo (r : PointLockRequest) (o : Option TrackedKeyInfo) :
    (trackKeyInfo r o).exclusive = (exclusiveOf o || r.exclusive) := by
  cases o <;> cases hr : r.readOnly <;>
    simp [trackKeyInfo, TrackedKeyInfo.create, hr, apply_ite]

theorem trackKeyInfos_cons (o : Option TrackedKeyInfo) (r : PointLockRequest) (rs : List PointLockRequest) :
    trackKeyInfos o (r :: rs) = trackKeyInfos (some (trackKeyInfo r o)) rs := rfl

/-- a key's counts are its requests' counts added to those before them, by induction on the requests -/
theorem countsOf_trackKeyInfos (o : Option TrackedKeyInfo) (rs : List PointLockRequest) :
    countsOf (trackKeyInfos o rs) = countsOf o + requestCounts rs := by
  induction rs generalizing o with
  | nil => rw [requestCounts_nil, add_zero]; rfl
  | cons r rs ih =>
    rw [trackKeyInfos_cons, ih, countsOf_some, counts_trackKeyInfo, requestCounts_cons r rs, add_assoc]

theorem exclusiveOf_trackKeyInfos (o : Option TrackedKeyInfo) (rs : List PointLockRequest) :
    exclusiveOf (trackKeyInfos o rs) = (exclusiveOf o || rs.any (·.exclusive)) := by
  induction rs generalizing o with
  | nil => simp [trackKeyInfos]
  | cons r rs ih =>
    rw [trackKeyInfos_cons, ih, exclusiveOf_some, exclusive_trackKeyInfo, List.any_cons, Bool.or_assoc]

theorem requestCounts_eq_zero_iff {rs : List PointLockRequest} (h : rs.length < 2 ^ 32) :
    requestCounts rs = 0 ↔ rs = [] := by
  constructor
  · intro hz
    -- neither count reaches the bound, so neither wraps to zero
    have hlen : rs.length = rs.countP (·.readOnly) + rs.countP (!·.readOnly) := by
      rw [List.length_eq_countP_add_countP (·.readOnly)]
      simp
    have hr : (UInt32.ofNat (rs.countP (·.readOnly))).toNat = rs.countP (·.readOnly) :=
      UInt32.toNat_ofNat_of_lt' (by rw [UInt32.size]; omega)
    have hw : (UInt32.ofNat (rs.countP (!·.readOnly))).toNat = rs.countP (!·.readOnly) :=
      UInt32.toNat_ofNat_of_lt' (by rw [UInt32.size]; omega)
    have hz1 : UInt32.ofNat (rs.countP (·.readOnly)) = 0 := congrArg Prod.fst hz
    have hz2 : UInt32.ofNat (rs.countP (!·.readOnly)) = 0 := congrArg Prod.snd hz
    rw [hz1] at hr
    rw [hz2] at hw
    apply List.eq_nil_of_length_eq_zero
    rw [hlen, ← hr, ← hw]
    rfl
  · rintro rfl
    rfl

theorem isSome_trackKeyInfos (o : Option TrackedKeyInfo) (rs : List PointLockRequest) :
    (trackKeyInfos o rs).isSome = (o.isSome || !rs.isEmpty) := by
  induction rs generalizing o with
  | nil => simp [trackKeyInfos]
  | cons r rs ih =>
    rw [trackKeyInfos_cons, ih]
    simp

/-! ## Tracking requests -/

theorem lookup_getD_empty (o : Option TrackedKeyInfos) (key : List UInt8) :
    (o.getD ∅).lookup key = o.bind fun keys => keys.lookup key := by
  cases o <;> rfl

/-- `Track` rewrites the info of the request's key, and only that -/
theorem find_track (t : PointLockTracker) (r : PointLockRequest) (cf : ColumnFamilyId) (key : List UInt8) :
    (t.track r).find cf key = if r.isFor cf key then some (trackKeyInfo r (t.find cf key)) else t.find cf key := by
  unfold PointLockTracker.track PointLockTracker.find PointLockRequest.isFor
  dsimp only
  by_cases hcf : cf = r.columnFamilyId
  · subst hcf
    rw [AList.lookup_insert, Option.bind_some]
    by_cases hk : key = r.key
    · subst hk
      rw [AList.lookup_insert, lookup_getD_empty]
      simp
    · rw [AList.lookup_insert_ne hk, lookup_getD_empty]
      simp [Ne.symm hk]
  · rw [AList.lookup_insert_ne hcf]
    simp [Ne.symm hcf]

theorem isSome_lookup_track (t : PointLockTracker) (r : PointLockRequest) (cf : ColumnFamilyId) :
    ((t.track r).trackedKeys.lookup cf).isSome = ((t.trackedKeys.lookup cf).isSome || r.columnFamilyId == cf) := by
  unfold PointLockTracker.track
  by_cases hcf : cf = r.columnFamilyId
  · subst hcf
    simp
  · simp [AList.lookup_insert_ne hcf, Ne.symm hcf]

/-- tracking a sequence of requests leaves at each key what its own requests make of it, by induction on the
requests -/
theorem find_trackAll (t : PointLockTracker) (rs : List PointLockRequest) (cf : ColumnFamilyId) (key : List UInt8) :
    (t.trackAll rs).find cf key = trackKeyInfos (t.find cf key) (rs.filter (·.isFor cf key)) := by
  induction rs generalizing t with
  | nil => rfl
  | cons r rs ih =>
    show ((t.track r).trackAll rs).find cf key = _
    rw [ih, find_track]
    by_cases hr : r.isFor cf key
    · rw [if_pos hr, List.filter_cons_of_pos hr]
      rfl
    · rw [if_neg hr, List.filter_cons_of_neg hr]

theorem isSome_lookup_trackAll (t : PointLockTracker) (rs : List PointLockRequest) (cf : ColumnFamilyId) :
    ((t.trackAll rs).trackedKeys.lookup cf).isSome =
      ((t.trackedKeys.lookup cf).isSome || rs.any (·.columnFamilyId == cf)) := by
  induction rs generalizing t with
  | nil => simp [PointLockTracker.trackAll]
  | cons r rs ih =>
    show (((t.track r).trackAll rs).trackedKeys.lookup cf).isSome = _
    rw [ih, isSome_lookup_track, List.any_cons, Bool.or_assoc]

theorem isSome_find_track (t : PointLockTracker) (r : PointLockRequest) (cf : ColumnFamilyId) (key : List UInt8) :
    ((t.track r).find cf key).isSome = ((t.find cf key).isSome || r.isFor cf key) := by
  rw [find_track]
  split_ifs with h <;> simp [h]

theorem trackAll_append (t : PointLockTracker) (P S : List PointLockRequest) :
    t.trackAll (P ++ S) = (t.trackAll P).trackAll S :=
  List.foldl_append

theorem find_trackAll_empty (rs : List PointLockRequest) (cf : ColumnFamilyId) (key : List UInt8) :
    (PointLockTracker.empty.trackAll rs).find cf key = trackKeyInfos none (rs.filter (·.isFor cf key)) :=
  find_trackAll _ rs cf key

/-- a tracker of requests tracks a key exactly when one of the requests is for it -/
theorem isSome_find_trackAll_empty (rs : List PointLockRequest) (cf : ColumnFamilyId) (key : List UInt8) :
    ((PointLockTracker.empty.trackAll rs).find cf key).isSome ↔ ∃ r ∈ rs, r.columnFamilyId = cf ∧ r.key = key := by
  rw [find_trackAll_empty, isSome_trackKeyInfos]
  simp [PointLockRequest.isFor, List.filter_eq_nil_iff]

/-- a tracker of requests, after another tracker, leaves a key as it was when none of them is for it -/
theorem find_trackAll_of_filter_eq_nil (t : PointLockTracker) {rs : List PointLockRequest} {cf : ColumnFamilyId}
    {key : List UInt8} (h : rs.filter (·.isFor cf key) = []) : (t.trackAll rs).find cf key = t.find cf key := by
  rw [find_trackAll, h]
  rfl

/-- and tracks it, with the requests' counts added to the counts before them, when one of them is for it -/
theorem find_trackAll_of_filter_ne_nil (t : PointLockTracker) {rs : List PointLockRequest} {cf : ColumnFamilyId}
    {key : List UInt8} (h : rs.filter (·.isFor cf key) ≠ []) :
    ∃ current, (t.trackAll rs).find cf key = some current ∧
      current.counts = countsOf (t.find cf key) + requestCounts (rs.filter (·.isFor cf key)) := by
  obtain ⟨current, hcur⟩ : ∃ current, (t.trackAll rs).find cf key = some current := by
    apply Option.isSome_iff_exists.mp
    rw [find_trackAll, isSome_trackKeyInfos, Bool.or_eq_true]
    exact Or.inr (by simpa using h)
  refine ⟨current, hcur, ?_⟩
  rw [← countsOf_some, ← hcur, find_trackAll, countsOf_trackKeyInfos]

/-- with fewer than `2 ^ 32` requests no count wraps, so a tracked key has a count that is not zero -/
theorem isSome_find_trackAll_iff_counts {rs : List PointLockRequest} (h : rs.length < 2 ^ 32) (cf : ColumnFamilyId)
    (key : List UInt8) :
    ((PointLockTracker.empty.trackAll rs).find cf key).isSome ↔
      countsOf ((PointLockTracker.empty.trackAll rs).find cf key) ≠ 0 := by
  have hlen : (rs.filter (·.isFor cf key)).length < 2 ^ 32 := lt_of_le_of_lt (List.length_filter_le _ _) h
  rw [find_trackAll_empty, isSome_trackKeyInfos, countsOf_trackKeyInfos, countsOf_none, zero_add, Ne,
    requestCounts_eq_zero_iff hlen]
  simp

/-! ## `Subtract` and `Merge` at one key -/

theorem subtractKeyInfo_eq (current info : TrackedKeyInfo) :
    subtractKeyInfo current info = if current.counts - info.counts = 0 then none
      else some { current with
        numReads := current.numReads - info.numReads, numWrites := current.numWrites - info.numWrites } := by
  -- a count that is zero is not taken away, and taking it away would change nothing
  have hr : ¬ info.numReads > 0 → info.numReads = 0 := by grind
  have hw : ¬ info.numWrites > 0 → info.numWrites = 0 := by grind
  unfold subtractKeyInfo TrackedKeyInfo.counts
  by_cases h₁ : info.numReads > 0 <;> by_cases h₂ : info.numWrites > 0 <;>
    simp [h₁, h₂, hr, hw, Prod.ext_iff]

theorem countsOf_subtractKeyInfo (current info : TrackedKeyInfo) :
    countsOf (subtractKeyInfo current info) = current.counts - info.counts := by
  rw [subtractKeyInfo_eq]
  split_ifs with h
  · rw [h]
    rfl
  · rfl

theorem isSome_subtractKeyInfo (current info : TrackedKeyInfo) :
    (subtractKeyInfo current info).isSome ↔ current.counts - info.counts ≠ 0 := by
  rw [subtractKeyInfo_eq]
  split_ifs with h <;> simp [h]

/-- `Subtract` reads at one key as the other tracker's counts taken from this one's, where both track it -/
theorem find_subtract (self t : PointLockTracker)
    (h : ∀ cf, (t.trackedKeys.lookup cf).isSome → (self.trackedKeys.lookup cf).isSome) :
    ∃ R, self.subtract t = some R ∧ ∀ cf key,
      R.find cf key = (t.find cf key).elim (self.find cf key) fun info =>
        (self.find cf key).bind (subtractKeyInfo · info) := by
  have hloop := foldlM_lookup_insert (fun _ keys currentKeys => subtractKeyInfos currentKeys keys)
    self.trackedKeys (l := t.trackedKeys.entries) fun s hs => h s.1 (isSome_lookup_of_mem hs)
  refine ⟨⟨rewriteEach (fun _ keys old => old.map (subtractKeyInfos · keys)) self.trackedKeys
    t.trackedKeys.entries⟩, ?_, ?_⟩
  · unfold PointLockTracker.subtract
    rw [hloop]
    rfl
  · intro cf key
    unfold PointLockTracker.find
    rw [lookup_rewriteEach]
    cases t.trackedKeys.lookup cf with
    | none => rfl
    | some keys =>
      cases self.trackedKeys.lookup cf with
      | none => cases hk : keys.lookup key <;> simp [hk]
      | some currentKeys =>
        show (subtractKeyInfos currentKeys keys).lookup key = _
        rw [subtractKeyInfos, lookup_rewriteEach]
        rfl

/-- `Merge` reads at one key as the other tracker's info merged into this one's -/
theorem find_merge (self t : PointLockTracker) (cf : ColumnFamilyId) (key : List UInt8) :
    (self.merge t).find cf key = (t.find cf key).elim (self.find cf key) fun info =>
      some ((self.find cf key).elim info (·.merge info)) := by
  unfold PointLockTracker.merge PointLockTracker.find
  rw [lookup_rewriteEach]
  cases t.trackedKeys.lookup cf with
  | none => rfl
  | some keys =>
    cases self.trackedKeys.lookup cf with
    | none => cases hk : keys.lookup key <;> simp [hk]
    | some currentKeys =>
      show (mergeKeyInfos currentKeys keys).lookup key = _
      rw [mergeKeyInfos, lookup_rewriteEach, Option.bind_some, Option.bind_some]
      cases keys.lookup key <;> cases currentKeys.lookup key <;> rfl

/-- merging a key locked at 3 into one locked at 5 keeps 5 and adds the writes -/
example : ((PointLockTracker.empty.track { key := [1], seq := 5 }).merge
    (PointLockTracker.empty.track { key := [1], seq := 3 })).find 0 [1] = some ⟨5, 2, 0, true⟩ := by decide

/-! ## `GetTrackedLocksSinceSavePoint` at one key -/

/-- this tracker counts a key of the save point's tracker as often as the save point's tracker does -/
def SinceSavePoint (currentKeys : TrackedKeyInfos) (key : List UInt8) (info : TrackedKeyInfo) : Prop :=
  ∃ current, currentKeys.lookup key = some current ∧ current.counts = info.counts

theorem isSome_find_trackKeySinceSavePoint (cf : ColumnFamilyId) (currentKeys : TrackedKeyInfos)
    (t : PointLockTracker) (key : List UInt8) (info : TrackedKeyInfo) (cf' : ColumnFamilyId) (key' : List UInt8) :
    ((trackKeySinceSavePoint cf currentKeys t ⟨key, info⟩).find cf' key').isSome ↔
      (t.find cf' key').isSome ∨ cf = cf' ∧ key = key' ∧ SinceSavePoint currentKeys key info := by
  unfold trackKeySinceSavePoint SinceSavePoint
  cases hc : currentKeys.lookup key with
  | none => simp
  | some current =>
    dsimp only
    split_ifs with heq
    · rw [isSome_find_track]
      simp [PointLockRequest.isFor, TrackedKeyInfo.counts, heq]
    · simp [TrackedKeyInfo.counts, Prod.ext_iff, heq]

/-- the key loop tracks again the keys counted as often here as at the save point, by induction on the keys -/
theorem isSome_find_trackSinceSavePoint (cf : ColumnFamilyId) (currentKeys : TrackedKeyInfos)
    (keyInfos : List (Σ _ : List UInt8, TrackedKeyInfo)) (t : PointLockTracker) (cf' : ColumnFamilyId)
    (key : List UInt8) :
    ((trackSinceSavePoint cf currentKeys keyInfos t).find cf' key).isSome ↔ (t.find cf' key).isSome ∨
      cf = cf' ∧ ∃ info, ⟨key, info⟩ ∈ keyInfos ∧ SinceSavePoint currentKeys key info := by
  induction keyInfos generalizing t with
  | nil => simp [trackSinceSavePoint]
  | cons s keyInfos ih =>
    obtain ⟨k, v⟩ := s
    show ((trackSinceSavePoint cf currentKeys keyInfos (trackKeySinceSavePoint cf currentKeys t ⟨k, v⟩)).find
      cf' key).isSome ↔ _
    rw [ih, isSome_find_trackKeySinceSavePoint]
    constructor
    · rintro ((h | ⟨hcf, rfl, hs⟩) | ⟨hcf, info, hmem, hs⟩)
      · exact Or.inl h
      · exact Or.inr ⟨hcf, v, List.mem_cons_self, hs⟩
      · exact Or.inr ⟨hcf, info, List.mem_cons_of_mem _ hmem, hs⟩
    · rintro (h | ⟨hcf, info, hmem, hs⟩)
      · exact Or.inl (Or.inl h)
      · rcases List.mem_cons.mp hmem with heq | hmem
        · cases heq
          exact Or.inl (Or.inr ⟨hcf, rfl, hs⟩)
        · exact Or.inr ⟨hcf, info, hmem, hs⟩

/-- one turn of the family loop of `GetTrackedLocksSinceSavePoint` where `at` succeeds -/
def trackFamilySinceSavePoint (self t : PointLockTracker) (cfKeys : Σ _ : ColumnFamilyId, TrackedKeyInfos) :
    PointLockTracker :=
  (self.trackedKeys.lookup cfKeys.1).elim t fun currentKeys =>
    trackSinceSavePoint cfKeys.1 currentKeys cfKeys.2.entries t

/-- the family loop, by induction on the families -/
theorem isSome_find_foldl_trackFamilySinceSavePoint (self : PointLockTracker)
    (families : List (Σ _ : ColumnFamilyId, TrackedKeyInfos)) (t : PointLockTracker) (cf : ColumnFamilyId)
    (key : List UInt8) :
    ((families.foldl (trackFamilySinceSavePoint self) t).find cf key).isSome ↔ (t.find cf key).isSome ∨
      ∃ keys, ⟨cf, keys⟩ ∈ families ∧ ∃ currentKeys, self.trackedKeys.lookup cf = some currentKeys ∧
        ∃ info, ⟨key, info⟩ ∈ keys.entries ∧ SinceSavePoint currentKeys key info := by
  induction families generalizing t with
  | nil => simp
  | cons s families ih =>
    obtain ⟨c, keys⟩ := s
    rw [List.foldl_cons, ih]
    -- the family's own turn, where `at` found it
    have hturn : ((trackFamilySinceSavePoint self t ⟨c, keys⟩).find cf key).isSome ↔ (t.find cf key).isSome ∨
        c = cf ∧ ∃ currentKeys, self.trackedKeys.lookup cf = some currentKeys ∧
          ∃ info, ⟨key, info⟩ ∈ keys.entries ∧ SinceSavePoint currentKeys key info := by
      unfold trackFamilySinceSavePoint
      cases hc : self.trackedKeys.lookup c with
      | none =>
        simp only [Option.elim_none]
        constructor
        · exact Or.inl
        · rintro (h | ⟨rfl, currentKeys, hcur, -⟩)
          · exact h
          · rw [hc] at hcur
            cases hcur
      | some currentKeys =>
        simp only [Option.elim_some]
        rw [isSome_find_trackSinceSavePoint]
        constructor
        · rintro (h | ⟨rfl, hinfo⟩)
          · exact Or.inl h
          · exact Or.inr ⟨rfl, currentKeys, hc, hinfo⟩
        · rintro (h | ⟨rfl, currentKeys', hcur, hinfo⟩)
          · exact Or.inl h
          · rw [hc] at hcur
            cases hcur
            exact Or.inr ⟨rfl, hinfo⟩
    rw [hturn]
    constructor
    · rintro ((h | ⟨rfl, hrest⟩) | ⟨keys', hmem, hrest⟩)
      · exact Or.inl h
      · exact Or.inr ⟨keys, List.mem_cons_self, hrest⟩
      · exact Or.inr ⟨keys', List.mem_cons_of_mem _ hmem, hrest⟩
    · rintro (h | ⟨keys', hmem, hrest⟩)
      · exact Or.inl (Or.inl h)
      · rcases List.mem_cons.mp hmem with heq | hmem
        · cases heq
          exact Or.inl (Or.inr ⟨rfl, hrest⟩)
        · exact Or.inr ⟨keys', hmem, hrest⟩

/-- `GetTrackedLocksSinceSavePoint` tracks the keys of the save point's tracker that this tracker counts as often,
when this tracker has each of its families -/
theorem find_getTrackedLocksSinceSavePoint (self savePointTracker : PointLockTracker)
    (h : ∀ cf, (savePointTracker.trackedKeys.lookup cf).isSome → (self.trackedKeys.lookup cf).isSome) :
    ∃ G, self.getTrackedLocksSinceSavePoint savePointTracker = some G ∧ ∀ cf key,
      (G.find cf key).isSome ↔ ∃ info current, savePointTracker.find cf key = some info ∧
        self.find cf key = some current ∧ current.counts = info.counts := by
  refine ⟨_, foldlM_bind_eq_some _ _ _ fun s hs => h s.1 (isSome_lookup_of_mem hs), ?_⟩
  intro cf key
  have hrun := isSome_find_foldl_trackFamilySinceSavePoint self savePointTracker.trackedKeys.entries
    PointLockTracker.empty cf key
  unfold trackFamilySinceSavePoint at hrun
  rw [hrun, find_empty]
  simp only [Option.isSome_none, Bool.false_eq_true, false_or, PointLockTracker.find, Option.bind_eq_some_iff,
    SinceSavePoint, ← AList.mem_lookup_iff]
  constructor
  · rintro ⟨keys, hkeys, currentKeys, hcur, info, hinfo, current, hc, heq⟩
    exact ⟨info, current, ⟨keys, hkeys, hinfo⟩, ⟨currentKeys, hcur, hc⟩, heq⟩
  · rintro ⟨info, current, ⟨keys, hkeys, hinfo⟩, ⟨currentKeys, hcur, hc⟩, heq⟩
    exact ⟨keys, hkeys, currentKeys, hcur, info, hinfo, current, hc, heq⟩

/-! ## The save-point algebra -/

/-- two keys with the same counts, each tracked exactly when its counts are not zero, agree on being tracked and
on their counts -/
theorem map_counts_eq {x y : Option TrackedKeyInfo} (hx : x.isSome ↔ countsOf x ≠ 0) (hy : y.isSome ↔ countsOf y ≠ 0)
    (h : countsOf x = countsOf y) : x.map TrackedKeyInfo.counts = y.map TrackedKeyInfo.counts := by
  cases x with
  | none =>
    cases y with
    | none => rfl
    | some b => exact absurd (h.trans (countsOf_some b)).symm (hy.mp rfl)
  | some a =>
    cases y with
    | none => exact absurd (h.trans countsOf_none) (hx.mp rfl)
    | some b => exact congrArg some h

section savePoint

variable {P S : List PointLockRequest}

/-- every family of the save point's tracker is one of the whole tracker's, so the lookups with `at` succeed -/
theorem isSome_lookup_trackAll_append (cf : ColumnFamilyId)
    (h : ((PointLockTracker.empty.trackAll S).trackedKeys.lookup cf).isSome) :
    (((PointLockTracker.empty.trackAll P).trackAll S).trackedKeys.lookup cf).isSome := by
  rw [isSome_lookup_trackAll, Bool.or_eq_true] at h ⊢
  exact Or.inr (h.resolve_left (by simp [PointLockTracker.empty]))

/-- after `Subtract` of the save point's tracker each key has the counts of the requests before the save point, and
is tracked exactly when one of them is for it -/
theorem subtract_trackAll (hP : P.length < 2 ^ 32) :
    ∃ R, (PointLockTracker.empty.trackAll (P ++ S)).subtract (PointLockTracker.empty.trackAll S) = some R ∧
      ∀ cf key, (R.find cf key).map TrackedKeyInfo.counts =
          ((PointLockTracker.empty.trackAll P).find cf key).map TrackedKeyInfo.counts ∧
        ∀ info, R.find cf key = some info → info.counts ≠ 0 := by
  rw [trackAll_append]
  obtain ⟨R, hR, hfind⟩ := find_subtract _ _ isSome_lookup_trackAll_append
  refine ⟨R, hR, fun cf key => ?_⟩
  have hTP := isSome_find_trackAll_iff_counts hP cf key
  -- at each key `R` has the counts of `P`'s tracker, and is tracked exactly when they are not zero
  have hkey : countsOf (R.find cf key) = countsOf ((PointLockTracker.empty.trackAll P).find cf key) ∧
      ((R.find cf key).isSome ↔ countsOf (R.find cf key) ≠ 0) := by
    rw [hfind cf key]
    by_cases hS : S.filter (·.isFor cf key) = []
    · rw [find_trackAll_of_filter_eq_nil _ hS, find_empty, Option.elim_none,
        find_trackAll_of_filter_eq_nil _ hS]
      exact ⟨rfl, hTP⟩
    · obtain ⟨info, hinfo, hcounts⟩ := find_trackAll_of_filter_ne_nil PointLockTracker.empty hS
      obtain ⟨current, hcur, hcurrent⟩ := find_trackAll_of_filter_ne_nil (PointLockTracker.empty.trackAll P) hS
      rw [find_empty, countsOf_none, zero_add] at hcounts
      rw [hinfo, Option.elim_some, hcur, Option.bind_some, countsOf_subtractKeyInfo, isSome_subtractKeyInfo,
        hcurrent, hcounts, add_sub_cancel_right]
      exact ⟨rfl, Iff.rfl⟩
  refine ⟨map_counts_eq hkey.2 hTP hkey.1, fun info hinfo => ?_⟩
  have := hkey.2.mp (by rw [hinfo]; rfl)
  rwa [hinfo, countsOf_some] at this

/-- `GetTrackedLocksSinceSavePoint` tracks the keys that requests after the save point are for and none before it -/
theorem getTrackedLocksSinceSavePoint_trackAll (hP : P.length < 2 ^ 32) :
    ∃ G, (PointLockTracker.empty.trackAll (P ++ S)).getTrackedLocksSinceSavePoint
        (PointLockTracker.empty.trackAll S) = some G ∧
      ∀ cf key, (G.getPointLockStatus cf key).locked = true ↔
        (∃ r ∈ S, r.columnFamilyId = cf ∧ r.key = key) ∧ ¬ ∃ r ∈ P, r.columnFamilyId = cf ∧ r.key = key := by
  rw [trackAll_append]
  obtain ⟨G, hG, hfind⟩ := find_getTrackedLocksSinceSavePoint _ _ isSome_lookup_trackAll_append
  refine ⟨G, hG, fun cf key => ?_⟩
  rw [locked_getPointLockStatus, hfind, ← isSome_find_trackAll_empty, ← isSome_find_trackAll_empty,
    isSome_find_trackAll_iff_counts hP, not_not]
  by_cases hS : S.filter (·.isFor cf key) = []
  · rw [find_trackAll_of_filter_eq_nil _ hS, find_empty]
    simp
  · obtain ⟨info, hinfo, hcounts⟩ := find_trackAll_of_filter_ne_nil PointLockTracker.empty hS
    obtain ⟨current, hcur, hcurrent⟩ := find_trackAll_of_filter_ne_nil (PointLockTracker.empty.trackAll P) hS
    rw [find_empty, countsOf_none, zero_add] at hcounts
    -- the key is counted as often as at the save point exactly when the requests before it counted nothing
    rw [hinfo, hcur]
    simp only [Option.some.injEq, exists_and_left, exists_eq_left', Option.isSome_some, true_and]
    rw [hcurrent, hcounts, add_eq_right]

/-- `Merge` of the save point's tracker tracks the keys of the requests before and after it with their counts and
modes, at the sequence number of the requests before it where there are some -/
theorem merge_trackAll (cf : ColumnFamilyId) (key : List UInt8) :
    (((PointLockTracker.empty.trackAll P).merge (PointLockTracker.empty.trackAll S)).find cf key).map
        (fun info => (info.counts, info.exclusive)) =
      ((PointLockTracker.empty.trackAll (P ++ S)).find cf key).map (fun info => (info.counts, info.exclusive)) ∧
    (((PointLockTracker.empty.trackAll P).merge (PointLockTracker.empty.trackAll S)).find cf key).map
        TrackedKeyInfo.seq =
      (((PointLockTracker.empty.trackAll P).find cf key).map TrackedKeyInfo.seq).or
        (((PointLockTracker.empty.trackAll S).find cf key).map TrackedKeyInfo.seq) := by
  rw [find_merge, trackAll_append]
  by_cases hS : S.filter (·.isFor cf key) = []
  · rw [find_trackAll_of_filter_eq_nil _ hS, find_empty, Option.elim_none, find_trackAll_of_filter_eq_nil _ hS]
    simp
  · obtain ⟨info, hinfo, hcounts⟩ := find_trackAll_of_filter_ne_nil PointLockTracker.empty hS
    rw [find_empty, countsOf_none, zero_add] at hcounts
    rw [hinfo, Option.elim_some]
    cases hp : (PointLockTracker.empty.trackAll P).find cf key with
    | none =>
      -- the key is new to `P`'s tracker, which takes the save point's info of it as it is
      rw [find_trackAll, hp, ← find_trackAll_empty, hinfo]
      simp
    | some p =>
      obtain ⟨current, hcur, hcurrent⟩ := find_trackAll_of_filter_ne_nil (PointLockTracker.empty.trackAll P) hS
      have hex : current.exclusive = (p.exclusive || info.exclusive) := by
        have hinfoex := exclusiveOf_trackKeyInfos none (S.filter (·.isFor cf key))
        rw [← find_trackAll_empty, hinfo, exclusiveOf_some, exclusiveOf_none, Bool.false_or] at hinfoex
        rw [← exclusiveOf_some, ← hcur, find_trackAll, hp, exclusiveOf_trackKeyInfos, exclusiveOf_some, hinfoex]
      rw [hp, countsOf_some] at hcurrent
      rw [hcur]
      simp only [Option.elim_some, Option.map_some, Option.some_or]
      rw [hcurrent, hex, ← hcounts]
      exact ⟨rfl, rfl⟩

/-- the save-point algebra of the trackers of requests `P` made before a save point and `S` made after it: the
transaction's tracker tracks `P` then `S`, and the save point's tracker `S` alone -/
structure SavePointAlgebra (P S : List PointLockRequest) : Prop where
  /-- `Subtract` leaves each key with the counts of `P`, tracked exactly when `P` tracks it, and no key with both
  counts zero -/
  subtract : ∃ R, (PointLockTracker.empty.trackAll (P ++ S)).subtract (PointLockTracker.empty.trackAll S) = some R ∧
    ∀ cf key, (R.find cf key).map TrackedKeyInfo.counts =
        ((PointLockTracker.empty.trackAll P).find cf key).map TrackedKeyInfo.counts ∧
      ∀ info, R.find cf key = some info → info.counts ≠ 0
  /-- `GetTrackedLocksSinceSavePoint` locks the keys that some request of `S` is for and none of `P` -/
  sinceSavePoint : ∃ G, (PointLockTracker.empty.trackAll (P ++ S)).getTrackedLocksSinceSavePoint
      (PointLockTracker.empty.trackAll S) = some G ∧
    ∀ cf key, (G.getPointLockStatus cf key).locked = true ↔
      (∃ r ∈ S, r.columnFamilyId = cf ∧ r.key = key) ∧ ¬ ∃ r ∈ P, r.columnFamilyId = cf ∧ r.key = key
  /-- `Merge` of the two trackers has the keys, counts and modes of the tracker of `P` then `S`, and the sequence
  number of `P`'s tracker where it tracks the key -/
  merge : ∀ cf key,
    (((PointLockTracker.empty.trackAll P).merge (PointLockTracker.empty.trackAll S)).find cf key).map
        (fun info => (info.counts, info.exclusive)) =
      ((PointLockTracker.empty.trackAll (P ++ S)).find cf key).map (fun info => (info.counts, info.exclusive)) ∧
    (((PointLockTracker.empty.trackAll P).merge (PointLockTracker.empty.trackAll S)).find cf key).map
        TrackedKeyInfo.seq =
      (((PointLockTracker.empty.trackAll P).find cf key).map TrackedKeyInfo.seq).or
        (((PointLockTracker.empty.trackAll S).find cf key).map TrackedKeyInfo.seq)

theorem savePoint_algebra (hP : P.length < 2 ^ 32) : SavePointAlgebra P S :=
  ⟨subtract_trackAll hP, getTrackedLocksSinceSavePoint_trackAll hP, merge_trackAll⟩

end savePoint

theorem savePoint_algebra_small :
    [({ key := [1], seq := 5 } : PointLockRequest)].length < 2 ^ 32 ∧
      SavePointAlgebra [{ key := [1], seq := 5 }] [{ key := [1], seq := 7, readOnly := true }, { key := [2] }] :=
  ⟨by decide, savePoint_algebra (by decide)⟩

/-- `n` reads of one key count `n` modulo `2 ^ 32` -/
theorem find_trackAll_replicate_reads {n : ℕ} (hn : 0 < n) (cf : ColumnFamilyId) (key : List UInt8) :
    ∃ info, (PointLockTracker.empty.trackAll
        (List.replicate n { columnFamilyId := cf, key := key, readOnly := true })).find cf key = some info ∧
      info.counts = (UInt32.ofNat n, 0) := by
  have hfilter : (List.replicate n ({ columnFamilyId := cf, key := key, readOnly := true } : PointLockRequest)).filter
      (·.isFor cf key) = List.replicate n { columnFamilyId := cf, key := key, readOnly := true } := by
    simp [PointLockRequest.isFor]
  have hne : List.replicate n ({ columnFamilyId := cf, key := key, readOnly := true } : PointLockRequest) ≠ [] := by
    simpa using Nat.pos_iff_ne_zero.mp hn
  obtain ⟨info, hinfo, hcounts⟩ := find_trackAll_of_filter_ne_nil PointLockTracker.empty (hfilter ▸ hne)
  refine ⟨info, hinfo, ?_⟩
  rw [hcounts, find_empty, countsOf_none, zero_add, hfilter]
  simp [requestCounts, List.countP_replicate]

theorem savePoint_algebra_counterexample :
    (((PointLockTracker.empty.trackAll [{ key := [1], seq := 5 }]).merge
        (PointLockTracker.empty.trackAll [{ key := [1], seq := 3 }])).find 0 [1]).map TrackedKeyInfo.seq = some 5 ∧
    ((PointLockTracker.empty.trackAll ([{ key := [1], seq := 5 }] ++ [{ key := [1], seq := 3 }])).find 0 [1]).map
        TrackedKeyInfo.seq = some 3 ∧
    (∃ R, (PointLockTracker.empty.trackAll (List.replicate (2 ^ 32) { key := [1], readOnly := true } ++ [])).subtract
        (PointLockTracker.empty.trackAll []) = some R ∧ ∃ info, R.find 0 [1] = some info ∧ info.counts = 0) ∧
    (∃ G, (PointLockTracker.empty.trackAll (List.replicate (2 ^ 32) { key := [1], readOnly := true } ++
        [{ key := [1], readOnly := true }])).getTrackedLocksSinceSavePoint
        (PointLockTracker.empty.trackAll [{ key := [1], readOnly := true }]) = some G ∧
      (G.getPointLockStatus 0 [1]).locked = true ∧
      ({ key := [1], readOnly := true } : PointLockRequest) ∈
        List.replicate (2 ^ 32) { key := [1], readOnly := true }) := by
  obtain ⟨i, hi, hicounts⟩ := find_trackAll_replicate_reads (n := 2 ^ 32) (by decide) 0 [1]
  have hwrap : i.counts = 0 := by
    rw [hicounts]
    decide
  refine ⟨by decide, by decide, ?_, ?_⟩
  · -- with no request after the save point the wrapped key stays, with both counts zero
    obtain ⟨R, hR, hfind⟩ := find_subtract
      (PointLockTracker.empty.trackAll (List.replicate (2 ^ 32) { key := [1], readOnly := true } ++ []))
      (PointLockTracker.empty.trackAll []) fun cf h => absurd h (by simp [PointLockTracker.trackAll,
        PointLockTracker.empty])
    refine ⟨R, hR, i, ?_, hwrap⟩
    rw [hfind, show (PointLockTracker.empty.trackAll []).find 0 [1] = none from rfl, Option.elim_none,
      List.append_nil]
    exact hi
  · -- the one read after the save point is counted as often as the whole transaction counts the key
    rw [trackAll_append]
    obtain ⟨G, hG, hfind⟩ := find_getTrackedLocksSinceSavePoint _ _ isSome_lookup_trackAll_append
    refine ⟨G, hG, ?_, List.mem_replicate.mpr ⟨by decide, rfl⟩⟩
    obtain ⟨info, hinfo, hcounts⟩ := find_trackAll_replicate_reads (n := 1) (by decide) 0 [1]
    have hone : [({ key := [1], readOnly := true } : PointLockRequest)].filter (·.isFor 0 [1]) ≠ [] := by decide
    obtain ⟨current, hcur, hcurrent⟩ := find_trackAll_of_filter_ne_nil
      (PointLockTracker.empty.trackAll (List.replicate (2 ^ 32) { key := [1], readOnly := true })) hone
    rw [locked_getPointLockStatus, hfind]
    refine ⟨info, current, hinfo, hcur, ?_⟩
    rw [hcurrent, hi, countsOf_some, hwrap, zero_add, hcounts]
    decide

end ForSt
