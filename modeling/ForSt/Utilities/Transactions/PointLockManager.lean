import ForSt.Lib.Containers
import ForSt.Util.Status
/-!
The point lock table of pessimistic transactions (`utilities/transactions/lock/point/point_lock_manager.cc`):
`AcquireLocked` and `UnLockKey` on one column family's `LockMap`.

A call touches only its key's stripe, so in a sequential history the stripes are one `AList` from keys to their
`LockInfo`. Whether an expired holder's locks may be stolen is the parameter `tryStealing`, and `now` is
`Env::NowMicros`. `TryLock` is one `AcquireLocked`: the wait loop retries the same call. Deadlock detection keeps
`wait_txn_map_` and `rev_wait_txn_map_`; `IncrementWaiters` adds the waiter and searches breadth first, at most
`deadlock_detect_depth` turns, for the waiter itself; `DecrementWaiters` takes it out.
-/

namespace ForSt

open ForSt.Containers

/-- `TransactionID` -/
abbrev TransactionID := UInt64

structure LockInfo where
  exclusive : Bool
  txnIds : List TransactionID
  /-- transaction locks are not valid after this time in us -/
  expirationTime : UInt64
deriving DecidableEq, Repr

/-- the constructor `LockInfo(id, time, ex)` -/
def LockInfo.create (id : TransactionID) (time : UInt64) (ex : Bool) : LockInfo := ⟨ex, [id], time⟩

/-- `LockMap` with its stripes' maps joined -/
structure LockMap (κ : Type) where
  /-- count of keys that are currently locked in this column family (only maintained if `max_num_locks_` is
  positive) -/
  lockCnt : Int
  keys : AList (fun _ : κ => LockInfo)

/-- a fresh `LockMap` -/
def LockMap.empty (κ : Type) : LockMap κ := ⟨0, ∅⟩

variable {κ : Type} [DecidableEq κ]

/-- `PointLockManager::IsLockExpired`: whether the lock may be taken from its holders, and the `*expire_time` it
leaves (`0` when there is no expiration) -/
def isLockExpired (tryStealing : TransactionID → Bool) (now : UInt64) (txnId : TransactionID) (lockInfo : LockInfo)
    (expireTime : UInt64) : Bool × UInt64 :=
  if lockInfo.expirationTime = 0 then (false, 0)
  else if ¬lockInfo.expirationTime ≤ now then (false, lockInfo.expirationTime)
  -- every other holder's locks must be stolen; the first that cannot be stops the loop
  else if lockInfo.txnIds.all (fun id => id == txnId || tryStealing id) then (true, expireTime)
  else (false, 0)

/-- what `AcquireLocked` returns, with the lock map and the out parameters `*expire_time` and `*txn_ids` after it -/
structure AcquireResult (κ : Type) where
  status : Status
  lockMap : LockMap κ
  expireTime : UInt64
  txnIds : List TransactionID

/-- `PointLockManager::AcquireLocked`; `txn_lock_info` carries the one requesting id (`txn_ids[0]`) -/
def acquireLocked (maxNumLocks : Int) (tryStealing : TransactionID → Bool) (now : UInt64) (lockMap : LockMap κ)
    (key : κ) (txnLockInfo : LockInfo) (expireTime : UInt64) (txnIds : List TransactionID) : AcquireResult κ :=
  let txnId := txnLockInfo.txnIds.headD 0
  match lockMap.keys.lookup key with
  | some lockInfo =>
    if lockInfo.exclusive || txnLockInfo.exclusive then
      if lockInfo.txnIds = [txnId] then
        -- the list contains one txn and we're it, so just take it
        let lockInfo' := { lockInfo with exclusive := txnLockInfo.exclusive,
                                         expirationTime := txnLockInfo.expirationTime }
        ⟨.ok, { lockMap with keys := lockMap.keys.insert key lockInfo' }, expireTime, txnIds⟩
      else
        let (expired, expireTime') := isLockExpired tryStealing now txnId lockInfo expireTime
        if expired then
          -- steal the expired lock; `lock_cnt` does not change
          let lockInfo' := { txnIds := txnLockInfo.txnIds, exclusive := txnLockInfo.exclusive,
                             expirationTime := txnLockInfo.expirationTime : LockInfo }
          ⟨.ok, { lockMap with keys := lockMap.keys.insert key lockInfo' }, expireTime', txnIds⟩
        else ⟨.lockTimeout, lockMap, expireTime', lockInfo.txnIds⟩
    else
      -- shared access to a shared lock: granted, and the expiration time never goes down
      let lockInfo' := { lockInfo with txnIds := lockInfo.txnIds ++ [txnId],
                                       expirationTime := max lockInfo.expirationTime txnLockInfo.expirationTime }
      ⟨.ok, { lockMap with keys := lockMap.keys.insert key lockInfo' }, expireTime, txnIds⟩
  | none =>
    if maxNumLocks > 0 ∧ lockMap.lockCnt ≥ maxNumLocks then ⟨.lockLimit, lockMap, expireTime, txnIds⟩
    else
      -- the source counts the new key whenever `max_num_locks_` is nonzero
      let lockCnt := if maxNumLocks ≠ 0 then lockMap.lockCnt + 1 else lockMap.lockCnt
      ⟨.ok, ⟨lockCnt, lockMap.keys.insert key txnLockInfo⟩, expireTime, txnIds⟩

/-- `PointLockManager::UnLockKey`: the holder found by `std::find` is removed by swap-and-pop, and the key with it
when it was the only one; `lock_cnt` goes down on every removal -/
def unLockKey (maxNumLocks : Int) (txnId : TransactionID) (key : κ) (lockMap : LockMap κ) : LockMap κ :=
  match lockMap.keys.lookup key with
  | some lockInfo =>
    let txns := lockInfo.txnIds
    if txnId ∈ txns then
      let keys :=
        if txns.length = 1 then lockMap.keys.erase key
        else lockMap.keys.insert key { lockInfo with txnIds := swapPop txns (txns.idxOf txnId) }
      ⟨if maxNumLocks > 0 then lockMap.lockCnt - 1 else lockMap.lockCnt, keys⟩
    else lockMap
  | none => lockMap

/-- `PointLockManager::TryLock` of transaction `txnId` with expiration time `expirationTime`: the status, the map
after it and the ids it waits for -/
def tryLock (maxNumLocks : Int) (tryStealing : TransactionID → Bool) (now : UInt64) (lockMap : LockMap κ)
    (txnId : TransactionID) (expirationTime : UInt64) (key : κ) (exclusive : Bool) :
    Status × LockMap κ × List TransactionID :=
  let r := acquireLocked maxNumLocks tryStealing now lockMap key (LockInfo.create txnId expirationTime exclusive) 0 []
  (r.status, r.lockMap, r.txnIds)

/-- the calls of a history: `TryLock` (with the transaction's expiration time and the clock) and `UnLock` -/
inductive LockCall (κ : Type) where
  | tryLock (txnId : TransactionID) (expirationTime : UInt64) (key : κ) (exclusive : Bool) (now : UInt64)
  | unLock (txnId : TransactionID) (key : κ)
deriving DecidableEq, Repr

/-- one call: its status (`UnLock` returns nothing) and the map after it -/
def lockStep (maxNumLocks : Int) (tryStealing : TransactionID → Bool) (lockMap : LockMap κ) :
    LockCall κ → Status × LockMap κ
  | .tryLock txnId expirationTime key exclusive now =>
    let r := tryLock maxNumLocks tryStealing now lockMap txnId expirationTime key exclusive
    (r.1, r.2.1)
  | .unLock txnId key => (.ok, unLockKey maxNumLocks txnId key lockMap)

/-- a sequential history: the status of each call and the map at the end -/
def lockRun (maxNumLocks : Int) (tryStealing : TransactionID → Bool) :
    LockMap κ → List (LockCall κ) → List Status × LockMap κ
  | lockMap, [] => ([], lockMap)
  | lockMap, c :: cs =>
    let r := lockStep maxNumLocks tryStealing lockMap c
    let rest := lockRun maxNumLocks tryStealing r.2 cs
    (r.1 :: rest.1, rest.2)

/-! ## Deadlock detection -/

/-- `TrackedTrxInfo`: what a waiting transaction waits for -/
structure TrackedTrxInfo (κ : Type) where
  neighbors : List TransactionID
  cfId : UInt32
  exclusive : Bool
  waitingKey : κ
deriving DecidableEq, Repr

/-- `wait_txn_map_` and `rev_wait_txn_map_` -/
structure WaitGraph (κ : Type) where
  waitTxnMap : AList (fun _ : TransactionID => TrackedTrxInfo κ)
  revWaitTxnMap : AList (fun _ : TransactionID => ℤ)

/-- `DeadlockInfo` -/
structure DeadlockInfo (κ : Type) where
  txnId : TransactionID
  cfId : UInt32
  exclusive : Bool
  waitingKey : κ
deriving DecidableEq, Repr

/-- `DeadlockPath` -/
structure DeadlockPath (κ : Type) where
  path : List (DeadlockInfo κ)
  limitExceeded : Bool
  deadlockTime : ℤ
deriving DecidableEq, Repr

namespace WaitGraph

/-- one turn of the loop of `IncrementWaiters` over `wait_ids` on `rev_wait_txn_map_` -/
def incrementRev (rev : AList (fun _ : TransactionID => ℤ)) (waitId : TransactionID) :
    AList (fun _ : TransactionID => ℤ) :=
  match rev.lookup waitId with
  | some n => rev.insert waitId (n + 1)
  | none => rev.insert waitId 1

/-- one turn of the loop of `DecrementWaitersImpl`; `Get` of a missing entry is not defined, and leaves the map -/
def decrementRev (rev : AList (fun _ : TransactionID => ℤ)) (waitId : TransactionID) :
    AList (fun _ : TransactionID => ℤ) :=
  match rev.lookup waitId with
  | some n => if n - 1 = 0 then rev.erase waitId else rev.insert waitId (n - 1)
  | none => rev

/-- the first part of `IncrementWaiters`: `id` waits for the neighbours of `info`, and each of them has one more
waiter -/
def addWaiter (g : WaitGraph κ) (id : TransactionID) (info : TrackedTrxInfo κ) : WaitGraph κ :=
  ⟨g.waitTxnMap.insert id info, info.neighbors.foldl incrementRev g.revWaitTxnMap⟩

/-- `DecrementWaitersImpl` -/
def decrementWaitersImpl (g : WaitGraph κ) (id : TransactionID) (waitIds : List TransactionID) : WaitGraph κ :=
  ⟨g.waitTxnMap.erase id, waitIds.foldl decrementRev g.revWaitTxnMap⟩

/-- `DecrementWaiters`: `DecrementWaitersImpl` under `wait_txn_map_mutex_` -/
def decrementWaiters (g : WaitGraph κ) (id : TransactionID) (waitIds : List TransactionID) : WaitGraph κ :=
  g.decrementWaitersImpl id waitIds

end WaitGraph

/-- how the search of `IncrementWaiters` ends -/
inductive SearchOutcome where
  /-- `tail == head`: no more items in the queue, no deadlock -/
  | noDeadlock
  /-- `next == id` at `head`, with the queue as it is then -/
  | found (head : ℕ) (queueValues : List TransactionID) (queueParents : List ℤ)
  /-- the loop ran `deadlock_detect_depth` turns: the wait cycle is too big -/
  | limitExceeded
deriving DecidableEq, Repr

namespace WaitGraph

/-- the loop of `IncrementWaiters` from `head`, with `fuel` turns left before `deadlock_detect_depth`: it enqueues
`next_ids` while `tail + i < deadlock_detect_depth`, each with `parent`, and dequeues `queue_values[head]` -/
def searchLoop (g : WaitGraph κ) (id : TransactionID) (depth : ℕ) :
    ℕ → ℕ → List TransactionID → List ℤ → Option (List TransactionID) → ℤ → SearchOutcome
  | 0, _, _, _, _, _ => .limitExceeded
  | fuel + 1, head, queueValues, queueParents, nextIds, parent =>
    let added := match nextIds with
      | none => []
      | some ids => ids.take (depth - queueValues.length)
    let queueValues := queueValues ++ added
    let queueParents := queueParents ++ added.map fun _ => parent
    if queueValues.length = head then .noDeadlock
    else
      -- the vector is zero-initialised past `tail`
      let next := queueValues[head]?.getD 0
      if next = id then .found head queueValues queueParents
      else
        match g.waitTxnMap.lookup next with
        | none => searchLoop g id depth fuel (head + 1) queueValues queueParents none parent
        | some info => searchLoop g id depth fuel (head + 1) queueValues queueParents (some info.neighbors) head

/-- the loop of `IncrementWaiters` that walks `queue_parents` back from `head` until `-1`, for at most `fuel` turns;
every transaction on the way is waiting (`assert(wait_txn_map_.Contains(queue_values[head]))`) -/
def pathLoop (g : WaitGraph κ) (queueValues : List TransactionID) (queueParents : List ℤ) :
    ℕ → ℤ → List (DeadlockInfo κ)
  | 0, _ => []
  | fuel + 1, head =>
    if head = -1 then []
    else
      let v := queueValues[head.toNat]?.getD 0
      match g.waitTxnMap.lookup v with
      | none => []
      | some info =>
        ⟨v, info.cfId, info.exclusive, info.waitingKey⟩ ::
          pathLoop g queueValues queueParents fuel (queueParents[head.toNat]?.getD 0)

/-- `IncrementWaiters(txn, wait_ids, key, cf_id, exclusive, env)` of the transaction `id` with deadlock detect depth
`depth`: whether it reports a deadlock, the graph after it, and the path it adds to `dlock_buffer_` -/
def incrementWaiters (g : WaitGraph κ) (id : TransactionID) (waitIds : List TransactionID) (key : κ) (cfId : UInt32)
    (exclusive : Bool) (depth : ℕ) (currentTime : Option ℤ) : Bool × WaitGraph κ × Option (DeadlockPath κ) :=
  let g := g.addWaiter id ⟨waitIds, cfId, exclusive, key⟩
  -- no deadlock if nobody is waiting on self
  if (g.revWaitTxnMap.lookup id).isNone then (false, g, none)
  else
    match g.searchLoop id depth depth 0 [] [] (some waitIds) (-1) with
    | .noDeadlock => (false, g, none)
    | .found head queueValues queueParents =>
      (true, g.decrementWaitersImpl id waitIds,
        some ⟨(g.pathLoop queueValues queueParents (head + 1) head).reverse, false, currentTime.getD 0⟩)
    | .limitExceeded => (true, g.decrementWaitersImpl id waitIds, some ⟨[], true, currentTime.getD 0⟩)

end WaitGraph

end ForSt
