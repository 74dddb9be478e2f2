import ForSt.Db.VersionEditSpec
import ForSt.Db.VersionEditHandler
/-!
What `Iterate` applies of a manifest.

The abstract read (`groupStep`, `groupRun`) applies a normal edit when read and the members of a group together, in
order, once its last member is read; a member out of turn, or a normal edit inside a group, is a corruption. The read
buffer stands for the abstract state (`AtomicGroupReadBuffer.Holds`); a step of the loop keeps it
(`iterateEdit_of_groupStep_some`, `iterateEdit_of_groupStep_none`), and by induction over the records the loop
replays the abstract read (`iterateLoop_of_holds`), when every member leaves fewer than `2 ^ 32 - 1` entries to come.
-/

namespace ForSt

open ForSt.Coding

/-! ## The abstract read of a manifest -/

/-- where the abstract read of a manifest stands between two edits: outside every atomic group, or inside one with the
members read so far and the remaining entries its next member must leave -/
inductive GroupState where
  | outside
  | inside (members : List VersionEdit) (next : ℕ)
deriving DecidableEq, Repr

/-- one edit of the abstract read: the state after it and the edits it applies, or `none` for a corrupt manifest -/
def groupStep : GroupState → VersionEdit → Option (GroupState × List VersionEdit)
  | .outside, e =>
    if e.isInAtomicGroup then
      if e.remainingEntries.toNat = 0 then some (.outside, [e])
      else some (.inside [e] (e.remainingEntries.toNat - 1), [])
    else some (.outside, [e])
  | .inside members next, e =>
    if e.isInAtomicGroup ∧ e.remainingEntries.toNat = next then
      if next = 0 then some (.outside, members ++ [e]) else some (.inside (members ++ [e]) (next - 1), [])
    else none

/-- the abstract read of a sequence of edits: the edits it applies, in order, and whether it finds them corrupt -/
def groupRun : GroupState → List VersionEdit → List VersionEdit × Bool
  | _, [] => ([], false)
  | g, e :: es =>
    match groupStep g e with
    | none => ([], true)
    | some (g, applied) => ((applied ++ (groupRun g es).1), (groupRun g es).2)

@[simp] theorem groupRun_nil (g : GroupState) : groupRun g [] = ([], false) := rfl

theorem groupRun_of_groupStep_none {g : GroupState} {e : VersionEdit} (es : List VersionEdit)
    (h : groupStep g e = none) : groupRun g (e :: es) = ([], true) := by
  simp [groupRun, h]

theorem groupRun_of_groupStep_some {g g' : GroupState} {e : VersionEdit} {applied : List VersionEdit}
    (es : List VersionEdit) (h : groupStep g e = some (g', applied)) :
    groupRun g (e :: es) = (applied ++ (groupRun g' es).1, (groupRun g' es).2) := by
  simp [groupRun, h]

example : groupRun .outside [{}, { isInAtomicGroup := true, remainingEntries := 1 },
    { isInAtomicGroup := true, remainingEntries := 0 }, { isInAtomicGroup := true, remainingEntries := 3 }] =
    ([{}, { isInAtomicGroup := true, remainingEntries := 1 }, { isInAtomicGroup := true, remainingEntries := 0 }],
      false) := by
  decide

/-! ## The read buffer -/

namespace AtomicGroupReadBuffer

/-- the read buffer as it stands for an abstract state: empty outside a group; inside one, the members in its first
slots and a slot for each entry still to come, fewer than `2 ^ 32` in all -/
def Holds (buf : AtomicGroupReadBuffer) : GroupState → Prop
  | .outside => buf = {}
  | .inside members next =>
    members ≠ [] ∧ buf.readEditsInAtomicGroup = members.length ∧ buf.replayBuffer.take members.length = members ∧
      buf.replayBuffer.length = members.length + next + 1 ∧ buf.replayBuffer.length < 2 ^ 32

variable {buf : AtomicGroupReadBuffer} {e : VersionEdit} {members : List VersionEdit} {next : ℕ}

theorem addEdit_of_normal_outside (he : e.isInAtomicGroup = false) :
    ({} : AtomicGroupReadBuffer).addEdit e = (.ok, {}) := by
  simp [addEdit, he]

/-- inside a group the buffer has a slot for each member, so it is not empty -/
theorem isEmpty_of_holds_inside (hb : buf.Holds (.inside members next)) : buf.replayBuffer.isEmpty = false := by
  obtain ⟨-, -, -, hlen, -⟩ := hb
  rw [List.isEmpty_eq_false_iff]
  intro hnil
  rw [hnil] at hlen
  simp at hlen

theorem addEdit_of_normal_inside (hb : buf.Holds (.inside members next)) (he : e.isInAtomicGroup = false) :
    (buf.addEdit e).1 = .corruption "corrupted atomic group" := by
  simp [addEdit, he, isEmpty_of_holds_inside hb]

/-- the first member of a group sizes the buffer to its remaining entries and one more, and takes the first slot -/
theorem addEdit_of_first (he : e.isInAtomicGroup = true) (hr : e.remainingEntries.toNat + 1 < 2 ^ 32) :
    ({} : AtomicGroupReadBuffer).addEdit e =
      (.ok, ⟨1, e :: List.replicate e.remainingEntries.toNat {}⟩) := by
  have hsum : (e.remainingEntries + 1).toNat = e.remainingEntries.toNat + 1 := by
    rw [UInt32.toNat_add, UInt32.toNat_one]
    exact Nat.mod_eq_of_lt hr
  have hcheck : 0 + 1 + e.remainingEntries.toNat = (e.remainingEntries.toNat + 1) % 2 ^ 32 := by
    rw [Nat.mod_eq_of_lt hr]
    omega
  simp only [addEdit, he, if_true, List.isEmpty_nil, hsum, List.length_replicate]
  simp [hcheck, List.replicate_succ]

theorem addEdit_of_member_ne (hb : buf.Holds (.inside members next)) (he : e.isInAtomicGroup = true)
    (hr : e.remainingEntries.toNat ≠ next) : (buf.addEdit e).1 = .corruption "corrupted atomic group" := by
  have hne := isEmpty_of_holds_inside hb
  obtain ⟨-, hread, -, hlen, hlt⟩ := hb
  have hcheck : buf.readEditsInAtomicGroup + 1 + e.remainingEntries.toNat ≠ buf.replayBuffer.length % 2 ^ 32 := by
    rw [Nat.mod_eq_of_lt hlt]
    omega
  simp only [addEdit, he, hne, if_true, Bool.false_eq_true, if_false]
  rw [if_pos hcheck]

/-- a member in turn takes the slot after the members read so far -/
theorem addEdit_of_member (hb : buf.Holds (.inside members next)) (he : e.isInAtomicGroup = true)
    (hr : e.remainingEntries.toNat = next) :
    buf.addEdit e = (.ok, ⟨members.length + 1, buf.replayBuffer.set members.length e⟩) := by
  have hne := isEmpty_of_holds_inside hb
  obtain ⟨-, hread, -, hlen, hlt⟩ := hb
  have hcheck : ¬ buf.readEditsInAtomicGroup + 1 + e.remainingEntries.toNat ≠ buf.replayBuffer.length % 2 ^ 32 := by
    rw [Nat.mod_eq_of_lt hlt]
    omega
  simp only [addEdit, he, hne, if_true, Bool.false_eq_true, if_false]
  rw [if_neg hcheck, hread, Nat.add_sub_cancel]

theorem take_succ_set {l : List VersionEdit} {i : ℕ} (h : i < l.length) :
    (l.set i e).take (i + 1) = l.take i ++ [e] := by
  rw [List.set_eq_take_append_cons_drop, if_pos h, List.take_append, List.take_of_length_le (by simp)]
  simp [List.length_take, Nat.min_eq_left h.le]

theorem holds_of_member (hb : buf.Holds (.inside members next)) (hnext : 0 < next) :
    (⟨members.length + 1, buf.replayBuffer.set members.length e⟩ : AtomicGroupReadBuffer).Holds
      (.inside (members ++ [e]) (next - 1)) := by
  obtain ⟨-, -, htake, hlen, hlt⟩ := hb
  refine ⟨by simp, by simp, ?_, by simp; omega, by simpa using hlt⟩
  rw [List.length_append, List.length_singleton, take_succ_set (by omega), htake]

theorem set_of_last (hb : buf.Holds (.inside members 0)) : buf.replayBuffer.set members.length e = members ++ [e] := by
  obtain ⟨-, -, htake, hlen, -⟩ := hb
  rw [List.set_eq_take_append_cons_drop, if_pos (by omega), htake, List.drop_of_length_le (by omega)]

end AtomicGroupReadBuffer

/-! ## One turn of the loop -/

namespace VersionEditHandlerBase

variable {σ : Type} (h : VersionEditHandlerBase σ) {buf buf' : AtomicGroupReadBuffer} {st : σ} {e : VersionEdit}

@[simp] theorem replay_nil : h.replay st [] = (.ok, st) := rfl

theorem replay_singleton : h.replay st [e] = h.applyVersionEdit st e := by
  simp only [replay]
  split_ifs with hs
  · rw [← hs]
  · rfl

/-- replaying two runs one after the other: the second only when the first applies every edit -/
theorem replay_append (xs ys : List VersionEdit) :
    h.replay st (xs ++ ys) = if (h.replay st xs).1 = .ok then h.replay (h.replay st xs).2 ys else h.replay st xs := by
  induction xs generalizing st with
  | nil => simp
  | cons x xs ih =>
    by_cases hx : (h.applyVersionEdit st x).1 = .ok
    · simp only [List.cons_append, replay, hx, if_true]
      exact ih
    · simp only [List.cons_append, replay, hx, if_false]

theorem iterateEdit_of_addEdit_ne_ok (hs : (buf.addEdit e).1 ≠ .ok) :
    h.iterateEdit buf st e = ((buf.addEdit e).1, (buf.addEdit e).2, st) := by
  simp [iterateEdit, hs]

theorem iterateEdit_of_normal (he : e.isInAtomicGroup = false) (hs : buf.addEdit e = (.ok, buf')) :
    h.iterateEdit buf st e = ((h.applyVersionEdit st e).1, buf', (h.applyVersionEdit st e).2) := by
  simp [iterateEdit, hs, he]

theorem iterateEdit_of_not_full (he : e.isInAtomicGroup = true) (hs : buf.addEdit e = (.ok, buf'))
    (hf : buf'.isFull = false) : h.iterateEdit buf st e = (.ok, buf', st) := by
  simp [iterateEdit, hs, he, hf]

/-- a full buffer is replayed, and cleared once every edit of it is applied -/
theorem iterateEdit_of_full (he : e.isInAtomicGroup = true) (hs : buf.addEdit e = (.ok, buf'))
    (hf : buf'.isFull = true) :
    (h.iterateEdit buf st e).1 = (h.replay st buf'.replayBuffer).1 ∧
      (h.iterateEdit buf st e).2.2 = (h.replay st buf'.replayBuffer).2 ∧
      ((h.replay st buf'.replayBuffer).1 = .ok → (h.iterateEdit buf st e).2.1 = {}) := by
  by_cases hr : (h.replay st buf'.replayBuffer).1 = .ok
  · simp [iterateEdit, hs, he, hf, hr, AtomicGroupReadBuffer.clear]
  · simp [iterateEdit, hs, he, hf, hr]

/-- an edit the abstract read finds corrupt stops the loop with a corruption, nothing applied -/
theorem iterateEdit_of_groupStep_none {g : GroupState} (hb : buf.Holds g) (hstep : groupStep g e = none) :
    (h.iterateEdit buf st e).1 = .corruption "corrupted atomic group" ∧ (h.iterateEdit buf st e).2.2 = st := by
  cases g with
  | outside =>
    simp only [groupStep] at hstep
    split_ifs at hstep
  | inside members next =>
    have hs : (buf.addEdit e).1 = .corruption "corrupted atomic group" := by
      cases he : e.isInAtomicGroup
      · exact AtomicGroupReadBuffer.addEdit_of_normal_inside hb he
      · have hr : e.remainingEntries.toNat ≠ next := by
          intro hr
          by_cases hn : next = 0 <;> simp [groupStep, he, hr, hn] at hstep
        exact AtomicGroupReadBuffer.addEdit_of_member_ne hb he hr
    rw [iterateEdit_of_addEdit_ne_ok h (by rw [hs]; simp), hs]
    exact ⟨rfl, rfl⟩

/-- an edit the abstract read accepts: the loop applies what the abstract step applies, and once every one of those
edits succeeds the buffer stands for the abstract state after it -/
theorem iterateEdit_of_groupStep_some {g g' : GroupState} {applied : List VersionEdit} (hb : buf.Holds g)
    (hr : e.isInAtomicGroup = true → e.remainingEntries.toNat + 1 < 2 ^ 32)
    (hstep : groupStep g e = some (g', applied)) :
    (h.iterateEdit buf st e).1 = (h.replay st applied).1 ∧ (h.iterateEdit buf st e).2.2 = (h.replay st applied).2 ∧
      ((h.replay st applied).1 = .ok → (h.iterateEdit buf st e).2.1.Holds g') := by
  cases g with
  | outside =>
    have hbuf : buf = {} := hb
    subst hbuf
    cases he : e.isInAtomicGroup
    · -- a normal edit is applied as it is read
      simp only [groupStep, he, Bool.false_eq_true, if_false, Option.some.injEq, Prod.mk.injEq] at hstep
      obtain ⟨rfl, rfl⟩ := hstep
      rw [iterateEdit_of_normal h he (AtomicGroupReadBuffer.addEdit_of_normal_outside he), replay_singleton]
      exact ⟨rfl, rfl, fun _ => rfl⟩
    · have hadd := AtomicGroupReadBuffer.addEdit_of_first he (hr he)
      by_cases h0 : e.remainingEntries.toNat = 0
      · -- a group of one member is applied at once
        simp only [groupStep, he, h0, if_true, Option.some.injEq, Prod.mk.injEq] at hstep
        obtain ⟨rfl, rfl⟩ := hstep
        rw [h0, List.replicate_zero] at hadd
        exact iterateEdit_of_full h he hadd (by simp [AtomicGroupReadBuffer.isFull])
      · -- the first member opens the group
        simp only [groupStep, he, h0, if_true, if_false, Option.some.injEq, Prod.mk.injEq] at hstep
        obtain ⟨rfl, rfl⟩ := hstep
        have hlt := hr he
        rw [iterateEdit_of_not_full h he hadd (by simp [AtomicGroupReadBuffer.isFull]; omega)]
        refine ⟨rfl, rfl, fun _ => ⟨by simp, rfl, by simp, by simp; omega, by simpa using hlt⟩⟩
  | inside members next =>
    have hin : e.isInAtomicGroup = true ∧ e.remainingEntries.toNat = next := by
      by_contra hne
      simp [groupStep, hne] at hstep
    have hadd := AtomicGroupReadBuffer.addEdit_of_member hb hin.1 hin.2
    by_cases h0 : next = 0
    · -- the last member: the whole group is replayed
      subst h0
      simp only [groupStep, hin, and_self, if_true, Option.some.injEq, Prod.mk.injEq] at hstep
      obtain ⟨rfl, rfl⟩ := hstep
      rw [AtomicGroupReadBuffer.set_of_last hb] at hadd
      exact iterateEdit_of_full h hin.1 hadd (by simp [AtomicGroupReadBuffer.isFull])
    · simp only [groupStep, hin, and_self, if_true, h0, if_false, Option.some.injEq, Prod.mk.injEq] at hstep
      obtain ⟨rfl, rfl⟩ := hstep
      have hlen := hb.2.2.2.1
      rw [iterateEdit_of_not_full h hin.1 hadd (by simp [AtomicGroupReadBuffer.isFull]; omega)]
      exact ⟨rfl, rfl, fun _ => AtomicGroupReadBuffer.holds_of_member hb (Nat.pos_of_ne_zero h0)⟩

/-! ## The loop -/

variable {endStatus s : Status} {lastRecordEnd : ℕ} {r : ManifestRead} {reads : List ManifestRead}

theorem iterateLoop_of_ne_ok (hs : s ≠ .ok) :
    h.iterateLoop endStatus lastRecordEnd s buf st reads = ⟨s, .ok, buf, st⟩ := by
  rw [iterateLoop.eq_def, if_neg (fun hc => hs hc.2)]

theorem iterateLoop_nil :
    (h.iterateLoop endStatus lastRecordEnd s buf st []).s = s ∧
      (h.iterateLoop endStatus lastRecordEnd s buf st []).handler = st := by
  rw [iterateLoop.eq_def]
  split_ifs <;> exact ⟨rfl, rfl⟩

theorem iterateLoop_cons (hend : lastRecordEnd < h.maxManifestReadSize) (hlog : r.logReadStatus = .ok) :
    h.iterateLoop endStatus lastRecordEnd .ok buf st (r :: reads) =
      h.iterateLoop endStatus r.lastRecordEnd (h.iterateRecord buf st r.record).1
        (h.iterateRecord buf st r.record).2.1 (h.iterateRecord buf st r.record).2.2 reads := by
  rw [iterateLoop.eq_def, if_pos ⟨hend, rfl⟩]
  simp [hlog]

theorem iterateRecord_of_decodeFrom {record : List UInt8} (hd : ({} : VersionEdit).decodeFrom record = (.ok, e)) :
    h.iterateRecord buf st record = h.iterateEdit buf st e := by
  simp [iterateRecord, hd]

theorem mem_dropLast_cons {x a : ManifestRead} {l : List ManifestRead} (hx : x ∈ l.dropLast) :
    x ∈ (a :: l).dropLast := by
  cases l with
  | nil => simp at hx
  | cons b l => exact List.mem_cons_of_mem a hx

/-- the run lemma: from a buffer that stands for an abstract state, the loop leaves the handler as replaying the
abstract read's edits does, and stops with a corruption where the abstract read finds one, unless an edit fails
first -/
theorem iterateLoop_of_holds {g : GroupState} {edits : List VersionEdit}
    (hdecode : List.Forall₂ (fun r e => ({} : VersionEdit).decodeFrom r.record = (.ok, e)) reads edits)
    (hlog : ∀ r ∈ reads, r.logReadStatus = .ok)
    (hsize : ∀ r ∈ reads.dropLast, r.lastRecordEnd < h.maxManifestReadSize)
    (hwrap : ∀ e ∈ edits, e.isInAtomicGroup = true → e.remainingEntries.toNat + 1 < 2 ^ 32)
    (hb : buf.Holds g) (hend : reads ≠ [] → lastRecordEnd < h.maxManifestReadSize) :
    (h.iterateLoop endStatus lastRecordEnd .ok buf st reads).handler = (h.replay st (groupRun g edits).1).2 ∧
      (h.iterateLoop endStatus lastRecordEnd .ok buf st reads).s =
        if (h.replay st (groupRun g edits).1).1 = .ok ∧ (groupRun g edits).2 = true then
          .corruption "corrupted atomic group"
        else (h.replay st (groupRun g edits).1).1 := by
  induction hdecode generalizing g buf st lastRecordEnd with
  | nil =>
    obtain ⟨hs, hst⟩ : (h.iterateLoop endStatus lastRecordEnd .ok buf st []).s = .ok ∧
        (h.iterateLoop endStatus lastRecordEnd .ok buf st []).handler = st := iterateLoop_nil h
    simp [hs, hst]
  | @cons r e reads edits hd _ ih =>
    rw [iterateLoop_cons h (hend (List.cons_ne_nil _ _)) (hlog r (List.mem_cons_self ..)),
      iterateRecord_of_decodeFrom h hd]
    cases hstep : groupStep g e with
    | none =>
      obtain ⟨hs, hst⟩ : (h.iterateEdit buf st e).1 = _ ∧ (h.iterateEdit buf st e).2.2 = st :=
        iterateEdit_of_groupStep_none h hb hstep
      rw [groupRun_of_groupStep_none edits hstep, iterateLoop_of_ne_ok h (by rw [hs]; simp), hs, hst]
      simp
    | some p =>
      obtain ⟨g', applied⟩ := p
      obtain ⟨hs, hst, hholds⟩ : (h.iterateEdit buf st e).1 = (h.replay st applied).1 ∧
          (h.iterateEdit buf st e).2.2 = (h.replay st applied).2 ∧
          ((h.replay st applied).1 = .ok → (h.iterateEdit buf st e).2.1.Holds g') :=
        iterateEdit_of_groupStep_some h hb (hwrap e (List.mem_cons_self ..)) hstep
      rw [groupRun_of_groupStep_some edits hstep, replay_append, hs, hst]
      by_cases hok : (h.replay st applied).1 = .ok
      · -- the step's edits all succeed: the other records are read from the abstract state it leaves
        have hrest : reads ≠ [] → r.lastRecordEnd < h.maxManifestReadSize := by
          intro hne
          apply hsize r
          rw [List.dropLast_cons_of_ne_nil hne]
          exact List.mem_cons_self ..
        simp only [hok, if_true]
        exact ih (fun r' hr' => hlog r' (List.mem_cons_of_mem r hr')) (fun r' hr' => hsize r' (mem_dropLast_cons hr'))
          (fun e' he' => hwrap e' (List.mem_cons_of_mem e he')) (hholds hok) hrest
      · -- an edit fails: the loop stops there
        rw [iterateLoop_of_ne_ok h hok]
        simp [hok]

end VersionEditHandlerBase

/-! ## Manifests to read -/

/-- the record of an edit that only marks its place in an atomic group -/
def atomicGroupRecord (remainingEntries : UInt32) : List UInt8 :=
  putTag .kInAtomicGroup ++ putVarint32 remainingEntries

theorem decodeFrom_nil : ({} : VersionEdit).decodeFrom [] = (.ok, {}) := by
  rw [VersionEdit.decodeFrom, decodeLoop_nil]
  rfl

theorem decodeFrom_atomicGroupRecord (remainingEntries : UInt32) :
    ({} : VersionEdit).decodeFrom (atomicGroupRecord remainingEntries) =
      (.ok, { isInAtomicGroup := true, remainingEntries }) := by
  have htag : getVarint32 (atomicGroupRecord remainingEntries) =
      some (Tag.kInAtomicGroup.toUInt32, putVarint32 remainingEntries) :=
    getVarint32_putVarint32 _ _
  have hcount := getVarint32_putVarint32 remainingEntries []
  rw [List.append_nil] at hcount
  have hturn : decodeTag Tag.kInAtomicGroup.toUInt32 ({} : VersionEdit).clear (putVarint32 remainingEntries) =
      .next { isInAtomicGroup := true, remainingEntries } [] := by
    simp only [decodeTag, show Tag.ofUInt32? Tag.kInAtomicGroup.toUInt32 = some .kInAtomicGroup from rfl, decodeField,
      hcount]
    rfl
  rw [VersionEdit.decodeFrom, decodeLoop_next htag hturn, decodeLoop_nil]

/-- a handler that accepts every edit and keeps the edits it is passed, in order -/
def recordingEditHandler : VersionEditHandlerBase (List VersionEdit) where
  init st := (.ok, st)
  applyVersionEdit st e := (.ok, st ++ [e])
  checkIterationResult st s := (s, st)
  maxManifestReadSize := 2 ^ 64 - 1

/-! ## What `Iterate` applies -/

open VersionEditHandlerBase in
theorem iterateLoop_applies_groups {σ : Type} (h : VersionEditHandlerBase σ) (endStatus : Status) (st : σ)
    (reads : List ManifestRead) (edits : List VersionEdit)
    (hdecode : List.Forall₂ (fun r e => ({} : VersionEdit).decodeFrom r.record = (.ok, e)) reads edits)
    (hlog : ∀ r ∈ reads, r.logReadStatus = .ok) (hread : 0 < h.maxManifestReadSize)
    (hsize : ∀ r ∈ reads.dropLast, r.lastRecordEnd < h.maxManifestReadSize)
    (hwrap : ∀ e ∈ edits, e.isInAtomicGroup = true → e.remainingEntries.toNat + 1 < 2 ^ 32) :
    let result := h.iterateLoop endStatus 0 .ok {} st reads
    let expected := groupRun .outside edits
    result.handler = (h.replay st expected.1).2 ∧
      result.s = if (h.replay st expected.1).1 = .ok ∧ expected.2 = true then .corruption "corrupted atomic group"
        else (h.replay st expected.1).1 :=
  iterateLoop_of_holds h hdecode hlog hsize hwrap rfl (fun _ => hread)

/-- a normal edit, a group of two and the first member of a group of six: the normal edit and the group of two are
passed to the handler -/
theorem iterateLoop_applies_groups_manifest :
    let reads : List ManifestRead := [⟨[], 1, .ok⟩, ⟨atomicGroupRecord 1, 8, .ok⟩, ⟨atomicGroupRecord 0, 15, .ok⟩,
      ⟨atomicGroupRecord 5, 22, .ok⟩]
    let edits : List VersionEdit := [{}, { isInAtomicGroup := true, remainingEntries := 1 },
      { isInAtomicGroup := true, remainingEntries := 0 }, { isInAtomicGroup := true, remainingEntries := 5 }]
    List.Forall₂ (fun r e => ({} : VersionEdit).decodeFrom r.record = (.ok, e)) reads edits ∧
      (∀ r ∈ reads, r.logReadStatus = .ok) ∧ 0 < recordingEditHandler.maxManifestReadSize ∧
      (∀ r ∈ reads.dropLast, r.lastRecordEnd < recordingEditHandler.maxManifestReadSize) ∧
      (∀ e ∈ edits, e.isInAtomicGroup = true → e.remainingEntries.toNat + 1 < 2 ^ 32) ∧
      let result := recordingEditHandler.iterateLoop .ok 0 .ok {} [] reads
      let expected := groupRun .outside edits
      result.handler = (recordingEditHandler.replay [] expected.1).2 ∧
        result.s = if (recordingEditHandler.replay [] expected.1).1 = .ok ∧ expected.2 = true then
          .corruption "corrupted atomic group" else (recordingEditHandler.replay [] expected.1).1 := by
  intro reads edits
  have hdecode : List.Forall₂ (fun r e => ({} : VersionEdit).decodeFrom r.record = (.ok, e)) reads edits :=
    .cons decodeFrom_nil (.cons (decodeFrom_atomicGroupRecord 1) (.cons (decodeFrom_atomicGroupRecord 0)
      (.cons (decodeFrom_atomicGroupRecord 5) .nil)))
  have hlog : ∀ r ∈ reads, r.logReadStatus = .ok := by simp [reads]
  have hread : 0 < recordingEditHandler.maxManifestReadSize := by decide
  have hsize : ∀ r ∈ reads.dropLast, r.lastRecordEnd < recordingEditHandler.maxManifestReadSize := by
    simp [reads, recordingEditHandler]
  have hwrap : ∀ e ∈ edits, e.isInAtomicGroup = true → e.remainingEntries.toNat + 1 < 2 ^ 32 := by decide
  exact ⟨hdecode, hlog, hread, hsize, hwrap,
    iterateLoop_applies_groups recordingEditHandler .ok [] reads edits hdecode hlog hread hsize hwrap⟩

/-- an atomic group of `n + 1` members, each leaving one entry less to come, down to none -/
def countdownGroup (n : ℕ) : List VersionEdit :=
  (List.range (n + 1)).reverse.map fun i => { isInAtomicGroup := true, remainingEntries := UInt32.ofNat i }

theorem countdownGroup_succ (n : ℕ) :
    countdownGroup (n + 1) = { isInAtomicGroup := true, remainingEntries := UInt32.ofNat (n + 1) } ::
      countdownGroup n := by
  simp [countdownGroup, List.range_succ]

/-- the members of a group in turn, down to the last: the abstract read applies the whole group -/
theorem groupRun_inside_countdownGroup (members : List VersionEdit) {n : ℕ} (hn : n < 2 ^ 32) :
    groupRun (.inside members n) (countdownGroup n) = (members ++ countdownGroup n, false) := by
  induction n generalizing members with
  | zero => simp [countdownGroup, groupRun, groupStep]
  | succ n ih =>
    have hto : (UInt32.ofNat (n + 1)).toNat = n + 1 := UInt32.toNat_ofNat_of_lt' hn
    have hstep : groupStep (.inside members (n + 1)) { isInAtomicGroup := true, remainingEntries := UInt32.ofNat (n + 1) } =
        some (.inside (members ++ [{ isInAtomicGroup := true, remainingEntries := UInt32.ofNat (n + 1) }]) n, []) := by
      rw [groupStep, if_pos ⟨rfl, hto⟩, if_neg (Nat.succ_ne_zero n), Nat.add_sub_cancel]
    rw [countdownGroup_succ, groupRun_of_groupStep_some _ hstep, ih _ (by omega)]
    simp

theorem groupRun_countdownGroup {n : ℕ} (hn : n + 1 < 2 ^ 32) :
    groupRun .outside (countdownGroup (n + 1)) = (countdownGroup (n + 1), false) := by
  have hto : (UInt32.ofNat (n + 1)).toNat = n + 1 := UInt32.toNat_ofNat_of_lt' hn
  have hstep : groupStep .outside { isInAtomicGroup := true, remainingEntries := UInt32.ofNat (n + 1) } =
      some (.inside [{ isInAtomicGroup := true, remainingEntries := UInt32.ofNat (n + 1) }] n, []) := by
    rw [groupStep, if_pos rfl, hto, if_neg (Nat.succ_ne_zero n), Nat.add_sub_cancel]
  rw [countdownGroup_succ, groupRun_of_groupStep_some _ hstep, groupRun_inside_countdownGroup _ (by omega)]
  simp

/-- a first member that leaves `2 ^ 32 - 1` entries to come sizes the buffer to no slot at all, and so is corrupt -/
theorem AtomicGroupReadBuffer.addEdit_of_wrap {e : VersionEdit} (he : e.isInAtomicGroup = true)
    (hr : e.remainingEntries.toNat = 2 ^ 32 - 1) :
    ({} : AtomicGroupReadBuffer).addEdit e = (.corruption "corrupted atomic group", ⟨1, []⟩) := by
  have hsum : (e.remainingEntries + 1).toNat = 0 := by
    rw [UInt32.toNat_add, UInt32.toNat_one, hr]
    rfl
  simp [AtomicGroupReadBuffer.addEdit, he, hsum, hr]

/-- a complete group of `2 ^ 32` members, which the abstract read applies whole: the loop finds its first member
corrupt and applies none of it -/
theorem iterateLoop_applies_groups_counterexample :
    groupRun .outside (countdownGroup (2 ^ 32 - 1)) = (countdownGroup (2 ^ 32 - 1), false) ∧
      let result := recordingEditHandler.iterateLoop .ok 0 .ok {} []
        ((countdownGroup (2 ^ 32 - 1)).map fun e => ⟨atomicGroupRecord e.remainingEntries, 0, .ok⟩)
      result.s = .corruption "corrupted atomic group" ∧ result.handler = [] := by
  have hn : (2 ^ 32 - 1 : ℕ) = (2 ^ 32 - 2) + 1 := rfl
  refine ⟨by rw [hn]; exact groupRun_countdownGroup (by norm_num), ?_⟩
  let first : VersionEdit := { isInAtomicGroup := true, remainingEntries := UInt32.ofNat (2 ^ 32 - 2 + 1) }
  have hadd : ({} : AtomicGroupReadBuffer).addEdit first = (.corruption "corrupted atomic group", ⟨1, []⟩) :=
    AtomicGroupReadBuffer.addEdit_of_wrap rfl rfl
  rw [hn, countdownGroup_succ, List.map_cons,
    VersionEditHandlerBase.iterateLoop_cons recordingEditHandler (by decide) rfl,
    VersionEditHandlerBase.iterateRecord_of_decodeFrom recordingEditHandler (decodeFrom_atomicGroupRecord _),
    VersionEditHandlerBase.iterateEdit_of_addEdit_ne_ok recordingEditHandler (by rw [hadd]; simp), hadd,
    VersionEditHandlerBase.iterateLoop_of_ne_ok recordingEditHandler (by simp)]
  exact ⟨rfl, rfl⟩

end ForSt
