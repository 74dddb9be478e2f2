import ForSt.Db.VersionEdit
/-!
How a manifest is replayed (`VersionEditHandlerBase::Iterate` in `db/version_edit_handler.cc`, and
`AtomicGroupReadBuffer` in `db/version_set.cc`).

`Iterate` decodes each record into a fresh `VersionEdit` and applies it, except that the edits of an atomic group are
kept in `read_buffer_` until the last is read. The first edit of a group sizes the buffer to its remaining entries
plus one, a `uint32_t` sum. A handler is its virtual functions over a state of its own; the `log::Reader` is the
records it returns (`ManifestRead`), each with `LastRecordEnd()` and `*log_read_status` after it.
-/

namespace ForSt

/-- `AtomicGroupReadBuffer` -/
structure AtomicGroupReadBuffer where
  /-- `read_edits_in_atomic_group_`, a `uint64_t` that counts at most the `2 ^ 32` slots of the buffer -/
  readEditsInAtomicGroup : ℕ := 0
  replayBuffer : List VersionEdit := []
deriving DecidableEq, Repr

namespace AtomicGroupReadBuffer

/-- `AtomicGroupReadBuffer::AddEdit` -/
def addEdit (buf : AtomicGroupReadBuffer) (edit : VersionEdit) : Status × AtomicGroupReadBuffer :=
  if edit.isInAtomicGroup then
    -- `GetRemainingEntries() + 1` is a `uint32_t` sum, and `resize` of the empty buffer fills it with empty edits
    let replayBuffer :=
      if buf.replayBuffer.isEmpty then List.replicate (edit.remainingEntries + 1).toNat {} else buf.replayBuffer
    let readEdits := buf.readEditsInAtomicGroup + 1
    if readEdits + edit.remainingEntries.toNat ≠ replayBuffer.length % 2 ^ 32 then
      (.corruption "corrupted atomic group", ⟨readEdits, replayBuffer⟩)
    else (.ok, ⟨readEdits, replayBuffer.set (readEdits - 1) edit⟩)
  -- a normal edit
  else if !buf.replayBuffer.isEmpty then (.corruption "corrupted atomic group", buf)
  else (.ok, buf)

/-- `AtomicGroupReadBuffer::IsFull` -/
def isFull (buf : AtomicGroupReadBuffer) : Bool := buf.readEditsInAtomicGroup == buf.replayBuffer.length

/-- `AtomicGroupReadBuffer::Clear` -/
def clear (buf : AtomicGroupReadBuffer) : AtomicGroupReadBuffer :=
  { buf with readEditsInAtomicGroup := 0, replayBuffer := [] }

end AtomicGroupReadBuffer

/-- what `Iterate` calls of a handler, over the handler's own state `σ`: the virtual `Initialize`,
`ApplyVersionEdit` and `CheckIterationResult`, and `max_manifest_read_size_` -/
structure VersionEditHandlerBase (σ : Type) where
  init : σ → Status × σ
  applyVersionEdit : σ → VersionEdit → Status × σ
  checkIterationResult : σ → Status → Status × σ
  maxManifestReadSize : ℕ

/-- one record `ReadRecord` returns, with `LastRecordEnd()` and `*log_read_status` after it -/
structure ManifestRead where
  record : List UInt8
  lastRecordEnd : ℕ
  logReadStatus : Status
deriving DecidableEq, Repr

/-- the `log::Reader` of a manifest: its file, the records it returns, and `*log_read_status` once `ReadRecord`
returns false -/
structure ManifestReader where
  fileName : String
  reads : List ManifestRead
  endStatus : Status

/-- the variables the loop of `Iterate` leaves: `s`, `*log_read_status`, `read_buffer_` and the handler's state -/
structure IterateState (σ : Type) where
  s : Status
  logReadStatus : Status
  readBuffer : AtomicGroupReadBuffer
  handler : σ

namespace VersionEditHandlerBase

variable {σ : Type}

/-- the loop over `replay_buffer()`, which stops at the first edit `ApplyVersionEdit` fails -/
def replay (h : VersionEditHandlerBase σ) (st : σ) : List VersionEdit → Status × σ
  | [] => (.ok, st)
  | e :: es =>
    let (s, st) := h.applyVersionEdit st e
    if s = .ok then h.replay st es else (s, st)

/-- the body of the loop of `Iterate` once the record is decoded; a failed replay breaks out before `Clear` -/
def iterateEdit (h : VersionEditHandlerBase σ) (buf : AtomicGroupReadBuffer) (st : σ) (edit : VersionEdit) :
    Status × AtomicGroupReadBuffer × σ :=
  let (s, buf) := buf.addEdit edit
  if s ≠ .ok then (s, buf, st)
  else if edit.isInAtomicGroup then
    if buf.isFull then
      let (s, st) := h.replay st buf.replayBuffer
      if s ≠ .ok then (s, buf, st) else (s, buf.clear, st)
    else (s, buf, st)
  else
    let (s, st) := h.applyVersionEdit st edit
    (s, buf, st)

/-- the body of the loop of `Iterate`: the record is decoded into a fresh edit -/
def iterateRecord (h : VersionEditHandlerBase σ) (buf : AtomicGroupReadBuffer) (st : σ) (record : List UInt8) :
    Status × AtomicGroupReadBuffer × σ :=
  let (s, edit) := ({} : VersionEdit).decodeFrom record
  if s ≠ .ok then (s, buf, st) else h.iterateEdit buf st edit

/-- the loop of `Iterate`. Each `break` of its body leaves `s` not OK, so the loop's condition ends the loop where the
source breaks out of it. -/
def iterateLoop (h : VersionEditHandlerBase σ) (endStatus : Status) (lastRecordEnd : ℕ) (s : Status)
    (buf : AtomicGroupReadBuffer) (st : σ) (reads : List ManifestRead) : IterateState σ :=
  if lastRecordEnd < h.maxManifestReadSize ∧ s = .ok then
    match reads with
    | [] => ⟨s, endStatus, buf, st⟩
    | r :: reads =>
      if r.logReadStatus ≠ .ok then ⟨s, r.logReadStatus, buf, st⟩
      else
        let (s, buf, st) := h.iterateRecord buf st r.record
        h.iterateLoop endStatus r.lastRecordEnd s buf st reads
  else ⟨s, .ok, buf, st⟩

/-- the status `Iterate` keeps of a corruption: its message, then the manifest's file name -/
def withFileName (fileName : String) : Status → Status
  | .corruption msg => .corruption (msg ++ " " ++ " The file " ++ fileName ++ " may be corrupted.")
  | s => s

/-- `VersionEditHandlerBase::Iterate`, from the read buffer the handler holds: the status it leaves in `status_`
(which starts OK), `read_buffer_` and the handler's state -/
def iterate (h : VersionEditHandlerBase σ) (reader : ManifestReader) (buf : AtomicGroupReadBuffer) (st : σ) :
    Status × AtomicGroupReadBuffer × σ :=
  let (s, st) := h.init st
  let result := h.iterateLoop reader.endStatus 0 s buf st reader.reads
  let s := if result.logReadStatus ≠ .ok then result.logReadStatus else result.s
  let (s, st) := h.checkIterationResult result.handler s
  (withFileName reader.fileName s, result.readBuffer, st)

end VersionEditHandlerBase

end ForSt
