import Mathlib.Tactic
/-!
`Status` (`include/rocksdb/status.h`): the codes, with their messages, that the modelled functions return. A status
built with a subcode only (`Status::NotFound()`, `Status::MemoryLimit()`) has no message here; codes no modelled
function builds, which a caller-supplied handler may still return, are `other`.
-/

namespace ForSt

inductive Status where
  | ok
  | notFound
  | corruption (msg : String)
  | notSupported (msg : String)
  | invalidArgument (msg : String)
  /-- `Status::MemoryLimit()`: `kAborted` with subcode `kMemoryLimit` -/
  | memoryLimit
  | tryAgain (msg : String)
  /-- `Status::TimedOut(Status::SubCode::kLockTimeout)` -/
  | lockTimeout
  /-- `Status::Busy(Status::SubCode::kLockLimit)` -/
  | lockLimit
  /-- any other `Code`, by its number, with its message -/
  | other (code : ℕ) (msg : String)
deriving DecidableEq, Repr

/-- `Status::ok()` -/
def Status.isOk : Status → Bool
  | .ok => true
  | _ => false

/-- `Status::IsTryAgain()` -/
def Status.isTryAgain : Status → Bool
  | .tryAgain _ => true
  | _ => false

@[simp] theorem Status.isOk_iff (s : Status) : s.isOk = true ↔ s = .ok := by
  cases s <;> simp [isOk]

@[simp] theorem Status.isTryAgain_ok : Status.ok.isTryAgain = false := rfl

theorem Status.isOk_eq_false_of_isTryAgain {s : Status} (h : s.isTryAgain = true) : s.isOk = false := by
  cases s <;> simp_all [isTryAgain, isOk]

end ForSt
