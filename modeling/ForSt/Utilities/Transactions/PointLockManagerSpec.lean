import ForSt.Utilities.Transactions.PointLockManager
/-!
What the point lock table is for, and how the code keeps to it.

The abstract table gives each key a `LockState`: free, shared by a multiset of holds, or exclusive (`LockState.request`,
`LockState.release`). With locks that never expire, every `LockInfo` keeps its shape (`LockMap.Inv`), and
`AcquireLocked` and `UnLockKey` move `LockMap.state` as the abstract table moves (`acquireLocked_state`,
`acquireLocked_of_request_none`, `unLockKey_state`). `lock_cnt` does not count the locked keys: a shared grant to a
second transaction leaves it, but each release decrements it (`shared_release_exceeds_max_num_locks`).
-/

namespace ForSt

open ForSt.Containers

/-! ## The abstract lock table -/

/-- the lock on one key -/
inductive LockState (τ : Type) where
  | free
  | shared (holds : Multiset τ)
  | exclusive (holder : τ)
deriving DecidableEq

namespace LockState

variable {τ : Type} [DecidableEq τ]

/-- the lock a request takes on a free key -/
def grant (t : τ) : Bool → LockState τ
  | true => .exclusive t
  | false => .shared {t}

/-- a request of transaction `t`, exclusive or shared: the new lock, or `none` when it has to wait -/
def request (t : τ) (exclusive : Bool) : LockState τ → Option (LockState τ)
  | .free => some (grant t exclusive)
  | .exclusive u => if u = t then some (grant t exclusive) else none
  | .shared s =>
    if exclusive then (if s = {t} then some (.exclusive t) else none) else some (.shared (s + {t}))

/-- the release of one hold of transaction `t` -/
def release (t : τ) : LockState τ → LockState τ
  | .free => .free
  | .exclusive u => if u = t then .free else .exclusive u
  | .shared s => if t ∈ s then (if s.erase t = 0 then .free else .shared (s.erase t)) else .shared s

def holds : LockState τ → Multiset τ
  | .free => 0
  | .shared s => s
  | .exclusive u => {u}

/-- an exclusive request is granted only on a key nobody holds or that the requester alone holds -/
theorem holds_of_request_exclusive {t : τ} {s s' : LockState τ} (h : s.request t true = some s') :
    s.holds = 0 ∨ s.holds = {t} := by
  cases s with
  | free => exact .inl rfl
  | exclusive u =>
    simp only [request] at h
    split_ifs at h with hu
    exact .inr (by rw [holds, hu])
  | shared s =>
    simp only [request, if_true] at h
    split_ifs at h with hs
    exact .inr hs

/-- a shared request is granted only on a key nobody holds, held shared, or held by the requester alone -/
theorem holds_of_request_shared {t : τ} {s s' : LockState τ} (h : s.request t false = some s') :
    s.holds = 0 ∨ (∃ holds, s = .shared holds) ∨ s.holds = {t} := by
  cases s with
  | free => exact .inl rfl
  | exclusive u =>
    simp only [request] at h
    split_ifs at h with hu
    exact .inr (.inr (by rw [holds, hu]))
  | shared s => exact .inr (.inl ⟨s, rfl⟩)

end LockState

/-! ## The abstraction of a lock map -/

variable {κ : Type} [DecidableEq κ]

/-- the lock a `LockInfo` stands for -/
def LockInfo.state (info : LockInfo) : LockState TransactionID :=
  if info.exclusive then .exclusive (info.txnIds.headD 0) else .shared info.txnIds

def LockMap.state (m : LockMap κ) (k : κ) : LockState TransactionID :=
  match m.keys.lookup k with
  | none => .free
  | some info => info.state

/-- the holders of a key, as its `txn_ids` lists them -/
def LockMap.holderIds (m : LockMap κ) (k : κ) : List TransactionID :=
  ((m.keys.lookup k).map LockInfo.txnIds).getD []

/-- the number of keys currently locked -/
def LockMap.lockedKeys (m : LockMap κ) : ℕ := m.keys.keys.length

/-- the shape every held lock keeps: at least one holder, and exactly one when exclusive -/
structure LockInfo.Valid (info : LockInfo) : Prop where
  held : info.txnIds ≠ []
  single : info.exclusive = true → info.txnIds.length = 1

/-- the invariant of a lock map in a history of transactions whose locks never expire -/
structure LockMap.Inv (maxNumLocks : Int) (m : LockMap κ) : Prop where
  valid : ∀ k info, m.keys.lookup k = some info → info.Valid
  neverExpires : ∀ k info, m.keys.lookup k = some info → info.expirationTime = 0
  /-- with a limit, the count stays at or below the locked keys -/
  countBelow : 0 < maxNumLocks → m.lockCnt ≤ m.lockedKeys

theorem LockInfo.valid_create (t : TransactionID) (time : UInt64) (ex : Bool) : (LockInfo.create t time ex).Valid :=
  ⟨List.cons_ne_nil _ _, fun _ => rfl⟩

theorem LockInfo.Valid.eq_singleton_of_exclusive {info : LockInfo} (hv : info.Valid) (hex : info.exclusive = true) :
    info.txnIds = [info.txnIds.headD 0] := by
  match hl : info.txnIds, hv.single hex with
  | [u], _ => rfl

/-- the holds of a valid lock are its `txn_ids` -/
theorem LockInfo.Valid.holds_state {info : LockInfo} (hv : info.Valid) :
    info.state.holds = (info.txnIds : Multiset TransactionID) := by
  unfold LockInfo.state
  split_ifs with hex
  · rw [LockState.holds, hv.eq_singleton_of_exclusive hex, List.headD_cons, Multiset.coe_singleton]
  · rfl


section state

variable {m m' : LockMap κ} {k : κ} {info : LockInfo}

theorem LockMap.state_of_keys_insert (h : m'.keys = m.keys.insert k info) :
    m'.state = Function.update m.state k info.state := by
  funext k'
  by_cases hkk : k' = k
  · subst hkk
    rw [Function.update_self, LockMap.state, h, AList.lookup_insert]
  · rw [Function.update_of_ne hkk, LockMap.state, LockMap.state, h, AList.lookup_insert_ne hkk]

theorem LockMap.state_of_keys_erase (h : m'.keys = m.keys.erase k) : m'.state = Function.update m.state k .free := by
  funext k'
  by_cases hkk : k' = k
  · subst hkk
    rw [Function.update_self, LockMap.state, h, AList.lookup_erase]
  · rw [Function.update_of_ne hkk, LockMap.state, LockMap.state, h, AList.lookup_erase_ne hkk]

theorem LockMap.state_of_lookup (h : m.keys.lookup k = some info) : m.state k = info.state := by
  rw [LockMap.state, h]

theorem LockMap.state_of_lookup_none (h : m.keys.lookup k = none) : m.state k = .free := by
  rw [LockMap.state, h]

end state

/-! ## What one call does

One lemma a branch of `AcquireLocked` and `UnLockKey`; the invariant and the refinement are case analyses over them.
-/

section outcomes

variable (maxNumLocks : Int) (tryStealing : TransactionID → Bool) (now : UInt64) (m : LockMap κ) (key : κ)
  (t : TransactionID) (time : UInt64) (excl : Bool) (e : UInt64) (w : List TransactionID) {info : LockInfo}

theorem isLockExpired_of_zero (txnId : TransactionID) (expireTime : UInt64) (h : info.expirationTime = 0) :
    isLockExpired tryStealing now txnId info expireTime = (false, 0) := by
  rw [isLockExpired, if_pos h]

theorem acquireLocked_of_limit (hl : m.keys.lookup key = none) (hlim : maxNumLocks > 0 ∧ m.lockCnt ≥ maxNumLocks) :
    acquireLocked maxNumLocks tryStealing now m key (LockInfo.create t time excl) e w = ⟨.lockLimit, m, e, w⟩ := by
  simp only [acquireLocked, hl, if_pos hlim]

theorem acquireLocked_of_new (hl : m.keys.lookup key = none) (hlim : ¬(maxNumLocks > 0 ∧ m.lockCnt ≥ maxNumLocks)) :
    acquireLocked maxNumLocks tryStealing now m key (LockInfo.create t time excl) e w =
      ⟨.ok, ⟨if maxNumLocks ≠ 0 then m.lockCnt + 1 else m.lockCnt, m.keys.insert key (LockInfo.create t time excl)⟩,
        e, w⟩ := by
  simp only [acquireLocked, hl, if_neg hlim]

/-- the requester holds the key alone: it takes the lock in the mode it asks for -/
theorem acquireLocked_of_sole_holder (hl : m.keys.lookup key = some info) (hex : (info.exclusive || excl) = true)
    (ht : info.txnIds = [t]) :
    acquireLocked maxNumLocks tryStealing now m key (LockInfo.create t time excl) e w =
      ⟨.ok, { m with keys := m.keys.insert key { info with exclusive := excl, expirationTime := time } }, e, w⟩ := by
  simp only [acquireLocked, hl, LockInfo.create, List.headD_cons, hex, ht, if_true]

theorem acquireLocked_of_conflict (hl : m.keys.lookup key = some info) (hex : (info.exclusive || excl) = true)
    (ht : info.txnIds ≠ [t]) (hexp : info.expirationTime = 0) :
    acquireLocked maxNumLocks tryStealing now m key (LockInfo.create t time excl) e w =
      ⟨.lockTimeout, m, 0, info.txnIds⟩ := by
  simp only [acquireLocked, hl, LockInfo.create, List.headD_cons, hex, ht, if_true, if_false,
    isLockExpired_of_zero tryStealing now t e hexp, Bool.false_eq_true]

theorem acquireLocked_of_shared (hl : m.keys.lookup key = some info) (hex : info.exclusive = false)
    (hexcl : excl = false) :
    acquireLocked maxNumLocks tryStealing now m key (LockInfo.create t time excl) e w =
      ⟨.ok, { m with keys := m.keys.insert key { info with txnIds := info.txnIds ++ [t],
                                                           expirationTime := max info.expirationTime time } },
        e, w⟩ := by
  subst hexcl
  simp only [acquireLocked, hl, LockInfo.create, List.headD_cons, hex, Bool.or_false, Bool.false_eq_true,
    if_false]

theorem unLockKey_of_lookup_none (hl : m.keys.lookup key = none) : unLockKey maxNumLocks t key m = m := by
  simp only [unLockKey, hl]

theorem unLockKey_of_not_mem (hl : m.keys.lookup key = some info) (ht : t ∉ info.txnIds) :
    unLockKey maxNumLocks t key m = m := by
  simp only [unLockKey, hl, if_neg ht]

/-- the last holder goes, and the key with it -/
theorem unLockKey_of_sole (hl : m.keys.lookup key = some info) (ht : t ∈ info.txnIds)
    (hlen : info.txnIds.length = 1) :
    unLockKey maxNumLocks t key m =
      ⟨if maxNumLocks > 0 then m.lockCnt - 1 else m.lockCnt, m.keys.erase key⟩ := by
  simp only [unLockKey, hl, if_pos ht, if_pos hlen]

/-- one of several holders goes; the count goes down all the same -/
theorem unLockKey_of_several (hl : m.keys.lookup key = some info) (ht : t ∈ info.txnIds)
    (hlen : info.txnIds.length ≠ 1) :
    unLockKey maxNumLocks t key m =
      ⟨if maxNumLocks > 0 then m.lockCnt - 1 else m.lockCnt,
        m.keys.insert key { info with txnIds := swapPop info.txnIds (info.txnIds.idxOf t) }⟩ := by
  simp only [unLockKey, hl, if_pos ht, if_neg hlen]

end outcomes

/-! ## The invariant over a history -/

/-- a call of a transaction whose locks never expire -/
def LockCall.neverExpires : LockCall κ → Bool
  | .tryLock _ expirationTime _ _ _ => expirationTime == 0
  | .unLock _ _ => true

section invariant

variable {maxNumLocks : Int} {m : LockMap κ}

theorem LockMap.inv_empty (maxNumLocks : Int) : (LockMap.empty κ).Inv maxNumLocks where
  valid k info h := by
    rw [LockMap.empty, AList.lookup_empty] at h
    cases h
  neverExpires k info h := by
    rw [LockMap.empty, AList.lookup_empty] at h
    cases h
  countBelow _ := le_refl 0

/-- a lock put at a key keeps the invariant when it has the shape, never expires, and the count stays below -/
theorem LockMap.Inv.insert (hinv : m.Inv maxNumLocks) {m' : LockMap κ} {key : κ} {info : LockInfo}
    (hkeys : m'.keys = m.keys.insert key info) (hv : info.Valid) (hexp : info.expirationTime = 0)
    (hcnt : 0 < maxNumLocks → m'.lockCnt ≤ m'.lockedKeys) : m'.Inv maxNumLocks where
  valid := by
    rw [hkeys]
    exact forall_lookup_insert hinv.valid hv
  neverExpires := by
    rw [hkeys]
    exact forall_lookup_insert hinv.neverExpires hexp
  countBelow := hcnt

/-- a held lock replaced in place: the keys, and so the count's bound, stay -/
theorem LockMap.Inv.replace (hinv : m.Inv maxNumLocks) {key : κ} {info info' : LockInfo}
    (hl : m.keys.lookup key = some info) (hv : info'.Valid) (hexp : info'.expirationTime = 0) :
    ({ m with keys := m.keys.insert key info' } : LockMap κ).Inv maxNumLocks := by
  refine hinv.insert rfl hv hexp fun hmax => ?_
  have hkeys : (m.keys.insert key info').keys.length = m.keys.keys.length := length_keys_insert_of_lookup_some hl
  have hcnt := hinv.countBelow hmax
  rw [LockMap.lockedKeys] at hcnt ⊢
  rw [hkeys]
  exact hcnt

/-- `AcquireLocked` keeps the invariant for a request that never expires -/
theorem acquireLocked_inv (tryStealing : TransactionID → Bool) (now : UInt64) (key : κ) (t : TransactionID)
    (excl : Bool) (e : UInt64) (w : List TransactionID) (hinv : m.Inv maxNumLocks) :
    (acquireLocked maxNumLocks tryStealing now m key (LockInfo.create t 0 excl) e w).lockMap.Inv maxNumLocks := by
  cases hl : m.keys.lookup key with
  | none =>
    by_cases hlim : maxNumLocks > 0 ∧ m.lockCnt ≥ maxNumLocks
    · rw [acquireLocked_of_limit maxNumLocks tryStealing now m key t 0 excl e w hl hlim]
      exact hinv
    · -- a new key: the count goes up with the keys
      rw [acquireLocked_of_new maxNumLocks tryStealing now m key t 0 excl e w hl hlim]
      refine hinv.insert rfl (LockInfo.valid_create t 0 excl) rfl fun hmax => ?_
      have hkeys : (m.keys.insert key (LockInfo.create t 0 excl)).keys.length = m.keys.keys.length + 1 :=
        length_keys_insert_of_lookup_none hl
      have hcnt := hinv.countBelow hmax
      rw [LockMap.lockedKeys] at hcnt ⊢
      rw [hkeys, if_pos (ne_of_gt hmax)]
      push_cast
      omega
  | some info =>
    have hv := hinv.valid key info hl
    have hexp := hinv.neverExpires key info hl
    by_cases hex : (info.exclusive || excl) = true
    · by_cases ht : info.txnIds = [t]
      · rw [acquireLocked_of_sole_holder maxNumLocks tryStealing now m key t 0 excl e w hl hex ht]
        refine hinv.replace hl ⟨?_, fun _ => ?_⟩ rfl
        · rw [ht]
          exact List.cons_ne_nil t []
        · rw [ht, List.length_singleton]
      · rw [acquireLocked_of_conflict maxNumLocks tryStealing now m key t 0 excl e w hl hex ht hexp]
        exact hinv
    · -- shared on shared: one more holder, still shared
      have hshared : info.exclusive = false ∧ excl = false := by simpa using hex
      rw [acquireLocked_of_shared maxNumLocks tryStealing now m key t 0 excl e w hl hshared.1 hshared.2]
      refine hinv.replace hl ⟨List.append_ne_nil_of_right_ne_nil _ (List.cons_ne_nil t []), fun hx => ?_⟩ ?_
      · rw [hshared.1] at hx
        cases hx
      · rw [hexp]
        rfl

/-- `UnLockKey` keeps the invariant: a key that loses its last holder leaves the map and takes one off the count,
a key that keeps holders stays shared -/
theorem unLockKey_inv (t : TransactionID) (key : κ) (hinv : m.Inv maxNumLocks) :
    (unLockKey maxNumLocks t key m).Inv maxNumLocks := by
  cases hl : m.keys.lookup key with
  | none =>
    rw [unLockKey_of_lookup_none maxNumLocks m key t hl]
    exact hinv
  | some info =>
    by_cases ht : t ∈ info.txnIds
    · have hv := hinv.valid key info hl
      by_cases hlen : info.txnIds.length = 1
      · rw [unLockKey_of_sole maxNumLocks m key t hl ht hlen]
        refine ⟨forall_lookup_erase hinv.valid, forall_lookup_erase hinv.neverExpires, fun hmax => ?_⟩
        have hkeys : (m.keys.erase key).keys.length + 1 = m.keys.keys.length := length_keys_erase_of_lookup_some hl
        have hcnt := hinv.countBelow hmax
        simp only [LockMap.lockedKeys] at hcnt ⊢
        rw [if_pos hmax]
        omega
      · -- the lock had several holders, so it is shared, and it keeps at least one
        have hshared : info.exclusive = false := by
          cases hx : info.exclusive with
          | false => rfl
          | true => exact absurd (hv.single hx) hlen
        have hpos : 0 < info.txnIds.length := List.length_pos_of_mem ht
        have hleft : 0 < (swapPop info.txnIds (info.txnIds.idxOf t)).length := by
          rw [length_swapPop _ (List.idxOf_lt_length_of_mem ht)]
          omega
        rw [unLockKey_of_several maxNumLocks m key t hl ht hlen]
        refine hinv.insert rfl ⟨List.ne_nil_of_length_pos hleft, fun hx => ?_⟩ (hinv.neverExpires key info hl)
          fun hmax => ?_
        · rw [hshared] at hx
          cases hx
        · have hkeys : (m.keys.insert key { info with txnIds := swapPop info.txnIds (info.txnIds.idxOf t) }).keys.length =
              m.keys.keys.length := length_keys_insert_of_lookup_some hl
          have hcnt := hinv.countBelow hmax
          simp only [LockMap.lockedKeys] at hcnt ⊢
          rw [hkeys, if_pos hmax]
          omega
    · rw [unLockKey_of_not_mem maxNumLocks m key t hl ht]
      exact hinv

/-- the step lemma: a call of a transaction whose locks never expire keeps the invariant -/
theorem lockStep_inv (tryStealing : TransactionID → Bool) {c : LockCall κ} (hc : c.neverExpires = true)
    (hinv : m.Inv maxNumLocks) : (lockStep maxNumLocks tryStealing m c).2.Inv maxNumLocks := by
  cases c with
  | tryLock t expirationTime key excl now =>
    have hzero : expirationTime = 0 := by simpa [LockCall.neverExpires] using hc
    subst hzero
    exact acquireLocked_inv tryStealing now key t excl 0 [] hinv
  | unLock t key => exact unLockKey_inv t key hinv

/-- the run lemma: the invariant holds after every call of a history of such transactions -/
theorem lockRun_inv (tryStealing : TransactionID → Bool) (cs : List (LockCall κ))
    (hcs : ∀ c ∈ cs, c.neverExpires = true) (hinv : m.Inv maxNumLocks) :
    (lockRun maxNumLocks tryStealing m cs).2.Inv maxNumLocks := by
  induction cs generalizing m with
  | nil => exact hinv
  | cons c cs ih =>
    have hc := hcs c (List.mem_cons_self ..)
    exact ih (fun c' hc' => hcs c' (List.mem_cons_of_mem c hc')) (lockStep_inv tryStealing hc hinv)

end invariant

/-! ## The refinement of the abstract table -/

section refinement

variable {maxNumLocks : Int} {m : LockMap κ} (tryStealing : TransactionID → Bool) (now : UInt64) (key : κ)
  (t : TransactionID) (excl : Bool) (e : UInt64) (w : List TransactionID)

theorem LockInfo.state_create (t : TransactionID) (time : UInt64) (excl : Bool) :
    (LockInfo.create t time excl).state = LockState.grant t excl := by
  cases excl with
  | true => rfl
  | false => exact congrArg LockState.shared (Multiset.coe_singleton t)

/-- a valid lock held shared stands for its holders as a multiset -/
theorem LockInfo.state_of_shared {info : LockInfo} (hex : info.exclusive = false) :
    info.state = .shared info.txnIds := by
  rw [LockInfo.state, hex, if_neg Bool.false_ne_true]

theorem LockInfo.state_of_exclusive {info : LockInfo} (hv : info.Valid) (hex : info.exclusive = true) :
    ∃ u, info.txnIds = [u] ∧ info.state = .exclusive u :=
  ⟨info.txnIds.headD 0, hv.eq_singleton_of_exclusive hex, by rw [LockInfo.state, if_pos hex]⟩

/-- a granted request moves the abstraction as the abstract table does -/
theorem acquireLocked_state (hinv : m.Inv maxNumLocks) {s' : LockState TransactionID}
    (hreq : (m.state key).request t excl = some s')
    (hlim : ¬(m.keys.lookup key = none ∧ maxNumLocks > 0 ∧ m.lockCnt ≥ maxNumLocks)) :
    (acquireLocked maxNumLocks tryStealing now m key (LockInfo.create t 0 excl) e w).status = .ok ∧
      (acquireLocked maxNumLocks tryStealing now m key (LockInfo.create t 0 excl) e w).lockMap.state =
        Function.update m.state key s' := by
  cases hl : m.keys.lookup key with
  | none =>
    rw [LockMap.state_of_lookup_none hl, LockState.request, Option.some.injEq] at hreq
    subst hreq
    have hlim' : ¬(maxNumLocks > 0 ∧ m.lockCnt ≥ maxNumLocks) := fun h => hlim ⟨hl, h⟩
    rw [acquireLocked_of_new maxNumLocks tryStealing now m key t 0 excl e w hl hlim']
    exact ⟨rfl, by rw [LockMap.state_of_keys_insert rfl, LockInfo.state_create]⟩
  | some info =>
    have hv := hinv.valid key info hl
    rw [LockMap.state_of_lookup hl] at hreq
    cases hex : info.exclusive with
    | true =>
      -- held exclusive by `u`: only `u` itself is granted, in the mode it asks for
      obtain ⟨u, hu, hstate⟩ := LockInfo.state_of_exclusive hv hex
      rw [hstate, LockState.request] at hreq
      split_ifs at hreq with hut
      rw [Option.some.injEq] at hreq
      subst hreq hut
      rw [acquireLocked_of_sole_holder maxNumLocks tryStealing now m key u 0 excl e w hl (by rw [hex]; rfl) hu]
      refine ⟨rfl, ?_⟩
      rw [LockMap.state_of_keys_insert rfl]
      cases excl with
      | true => simp only [LockInfo.state, hu, if_true, List.headD_cons, LockState.grant]
      | false =>
        simp only [LockInfo.state, Bool.false_eq_true, if_false, hu, LockState.grant, Multiset.coe_singleton]
    | false =>
      rw [LockInfo.state_of_shared hex, LockState.request] at hreq
      cases excl with
      | true =>
        -- an upgrade: granted to the one holder only
        rw [if_pos rfl] at hreq
        split_ifs at hreq with hone
        rw [Option.some.injEq] at hreq
        subst hreq
        have ht : info.txnIds = [t] := Multiset.coe_eq_singleton.mp hone
        rw [acquireLocked_of_sole_holder maxNumLocks tryStealing now m key t 0 true e w hl (Bool.or_true _) ht]
        refine ⟨rfl, ?_⟩
        rw [LockMap.state_of_keys_insert rfl]
        simp only [LockInfo.state, if_true, ht, List.headD_cons]
      | false =>
        -- shared on shared: one more hold
        rw [if_neg Bool.false_ne_true, Option.some.injEq] at hreq
        subst hreq
        rw [acquireLocked_of_shared maxNumLocks tryStealing now m key t 0 false e w hl hex rfl]
        have hnew : ({ info with txnIds := info.txnIds ++ [t], expirationTime := max info.expirationTime 0 } :
            LockInfo).state = .shared (info.txnIds ++ [t] : List TransactionID) := LockInfo.state_of_shared hex
        refine ⟨rfl, ?_⟩
        rw [LockMap.state_of_keys_insert rfl, hnew, ← Multiset.coe_add, Multiset.coe_singleton]

/-- a request the abstract table makes wait is refused with the current holders, and changes nothing -/
theorem acquireLocked_of_request_none (hinv : m.Inv maxNumLocks) (hreq : (m.state key).request t excl = none) :
    acquireLocked maxNumLocks tryStealing now m key (LockInfo.create t 0 excl) e w =
      ⟨.lockTimeout, m, 0, m.holderIds key⟩ := by
  cases hl : m.keys.lookup key with
  | none =>
    rw [LockMap.state_of_lookup_none hl, LockState.request] at hreq
    cases hreq
  | some info =>
    have hv := hinv.valid key info hl
    have hexp := hinv.neverExpires key info hl
    have hholders : m.holderIds key = info.txnIds := by rw [LockMap.holderIds, hl]; rfl
    rw [LockMap.state_of_lookup hl] at hreq
    rw [hholders]
    cases hex : info.exclusive with
    | true =>
      obtain ⟨u, hu, hstate⟩ := LockInfo.state_of_exclusive hv hex
      rw [hstate, LockState.request] at hreq
      split_ifs at hreq with hut
      have ht : info.txnIds ≠ [t] := by
        rw [hu]
        exact fun h => hut (List.singleton_inj.mp h)
      exact acquireLocked_of_conflict maxNumLocks tryStealing now m key t 0 excl e w hl (by rw [hex]; rfl) ht hexp
    | false =>
      rw [LockInfo.state_of_shared hex, LockState.request] at hreq
      cases excl with
      | true =>
        rw [if_pos rfl] at hreq
        split_ifs at hreq with hone
        have ht : info.txnIds ≠ [t] := fun h => hone (by rw [h, Multiset.coe_singleton])
        exact acquireLocked_of_conflict maxNumLocks tryStealing now m key t 0 true e w hl (Bool.or_true _) ht hexp
      | false =>
        rw [if_neg Bool.false_ne_true] at hreq
        cases hreq

/-- `UnLockKey` is the abstract release of one hold -/
theorem unLockKey_state (hinv : m.Inv maxNumLocks) :
    (unLockKey maxNumLocks t key m).state = Function.update m.state key ((m.state key).release t) := by
  cases hl : m.keys.lookup key with
  | none =>
    rw [unLockKey_of_lookup_none maxNumLocks m key t hl, LockMap.state_of_lookup_none hl, LockState.release,
      ← LockMap.state_of_lookup_none hl, Function.update_eq_self]
  | some info =>
    have hv := hinv.valid key info hl
    rw [LockMap.state_of_lookup hl]
    by_cases ht : t ∈ info.txnIds
    · by_cases hlen : info.txnIds.length = 1
      · -- the last hold: the key becomes free
        have hone : info.txnIds = [t] := by
          match hids : info.txnIds, hlen with
          | [u], _ =>
            rw [hids, List.mem_singleton] at ht
            rw [ht]
        rw [unLockKey_of_sole maxNumLocks m key t hl ht hlen, LockMap.state_of_keys_erase rfl]
        cases hex : info.exclusive with
        | true => simp only [LockInfo.state, hex, if_true, hone, List.headD_cons, LockState.release]
        | false =>
          rw [LockInfo.state_of_shared hex, hone, Multiset.coe_singleton, LockState.release,
            if_pos (Multiset.mem_singleton_self t), Multiset.erase_singleton, if_pos rfl]
      · -- one of several holds: the key stays shared by the others
        have hshared : info.exclusive = false := by
          cases hx : info.exclusive with
          | false => rfl
          | true => exact absurd (hv.single hx) hlen
        have hpos : 0 < info.txnIds.length := List.length_pos_of_mem ht
        have hrest : (info.txnIds : Multiset TransactionID).erase t ≠ 0 := by
          rw [Multiset.coe_erase, Ne, Multiset.coe_eq_zero, ← List.length_eq_zero_iff, List.length_erase_of_mem ht]
          omega
        have hnew : ({ info with txnIds := swapPop info.txnIds (info.txnIds.idxOf t) } : LockInfo).state =
            .shared (swapPop info.txnIds (info.txnIds.idxOf t) : List TransactionID) :=
          LockInfo.state_of_shared hshared
        rw [unLockKey_of_several maxNumLocks m key t hl ht hlen, LockMap.state_of_keys_insert rfl, hnew,
          LockInfo.state_of_shared hshared, coe_swapPop_idxOf _ ht, LockState.release,
          if_pos (Multiset.mem_coe.mpr ht), if_neg hrest]
    · -- not a holder: nothing changes, abstractly either
      have hsame : info.state.release t = info.state := by
        cases hex : info.exclusive with
        | true =>
          obtain ⟨u, hu, hstate⟩ := LockInfo.state_of_exclusive hv hex
          have hut : u ≠ t := fun h => ht (by rw [hu, h]; exact List.mem_singleton_self t)
          rw [hstate, LockState.release, if_neg hut]
        | false => rw [LockInfo.state_of_shared hex, LockState.release, if_neg (fun h => ht (Multiset.mem_coe.mp h))]
      rw [unLockKey_of_not_mem maxNumLocks m key t hl ht, hsame, ← LockMap.state_of_lookup hl, Function.update_eq_self]

end refinement

/-! ## Histories -/

section history

variable {maxNumLocks : Int} {m : LockMap κ}

/-- the holds of a key are the ids its lock lists -/
theorem LockMap.holds_state (hinv : m.Inv maxNumLocks) (k : κ) :
    (m.state k).holds = (m.holderIds k : Multiset TransactionID) := by
  cases hl : m.keys.lookup k with
  | none => rw [LockMap.state_of_lookup_none hl, LockMap.holderIds, hl]; rfl
  | some info => rw [LockMap.state_of_lookup hl, (hinv.valid k info hl).holds_state, LockMap.holderIds, hl]; rfl

theorem LockMap.lookup_of_state_shared {k : κ} {s : Multiset TransactionID} (h : m.state k = .shared s) :
    ∃ info, m.keys.lookup k = some info ∧ info.exclusive = false := by
  cases hl : m.keys.lookup k with
  | none =>
    rw [LockMap.state_of_lookup_none hl] at h
    cases h
  | some info =>
    refine ⟨info, rfl, ?_⟩
    rw [LockMap.state_of_lookup hl, LockInfo.state] at h
    cases hex : info.exclusive with
    | false => rfl
    | true =>
      rw [hex, if_pos rfl] at h
      cases h

/-- the grant rule read on the holder lists: an exclusive request is granted only on a key with no holder or held by
the requester alone, a shared one also on a key held shared -/
theorem holderIds_of_request_some (hinv : m.Inv maxNumLocks) {t : TransactionID} {k : κ} {excl : Bool}
    {s' : LockState TransactionID} (hreq : (m.state k).request t excl = some s') :
    m.holderIds k = [] ∨ m.holderIds k = [t] ∨
      (excl = false ∧ ∃ info, m.keys.lookup k = some info ∧ info.exclusive = false) := by
  have hholds := m.holds_state hinv k
  cases excl with
  | true =>
    rcases LockState.holds_of_request_exclusive hreq with h | h
    · rw [hholds, Multiset.coe_eq_zero] at h
      exact .inl h
    · rw [hholds, Multiset.coe_eq_singleton] at h
      exact .inr (.inl h)
  | false =>
    rcases LockState.holds_of_request_shared hreq with h | ⟨s, h⟩ | h
    · rw [hholds, Multiset.coe_eq_zero] at h
      exact .inl h
    · exact .inr (.inr ⟨rfl, LockMap.lookup_of_state_shared h⟩)
    · rw [hholds, Multiset.coe_eq_singleton] at h
      exact .inr (.inl h)

theorem holderIds_of_lookup_none {k : κ} (h : m.keys.lookup k = none) : m.holderIds k = [] := by
  rw [LockMap.holderIds, h]
  rfl

end history

/-! ## The lock table over any history -/

/-- after every history of transactions whose locks never expire: each held lock is exclusive with one holder or
shared with at least one; a granted request found the key free, held by the requester alone, or (shared on shared)
held shared; a refused request changes nothing and reports the current holders; and with a limit the count is at
most the number of locked keys -/
theorem lockRun_lock_table_invariant (maxNumLocks : Int) (tryStealing : TransactionID → Bool)
    (cs : List (LockCall κ)) (hcs : ∀ c ∈ cs, c.neverExpires = true) (m : LockMap κ)
    (hm : (lockRun maxNumLocks tryStealing (LockMap.empty κ) cs).2 = m) :
    (∀ k info, m.keys.lookup k = some info →
      (info.exclusive = true ∧ info.txnIds.length = 1) ∨ (info.exclusive = false ∧ info.txnIds ≠ [])) ∧
    (0 < maxNumLocks → m.lockCnt ≤ m.lockedKeys) ∧
    ∀ (t : TransactionID) (k : κ) (excl : Bool) (now : UInt64),
      ((tryLock maxNumLocks tryStealing now m t 0 k excl).1 = .ok →
        m.holderIds k = [] ∨ m.holderIds k = [t] ∨
          (excl = false ∧ ∃ info, m.keys.lookup k = some info ∧ info.exclusive = false)) ∧
      ((tryLock maxNumLocks tryStealing now m t 0 k excl).1 ≠ .ok →
        (tryLock maxNumLocks tryStealing now m t 0 k excl).2 = (m, m.holderIds k)) := by
  have hinv : m.Inv maxNumLocks := hm ▸ lockRun_inv tryStealing cs hcs (LockMap.inv_empty maxNumLocks)
  refine ⟨fun k info hl => ?_, hinv.countBelow, fun t k excl now => ⟨fun hok => ?_, fun hrefused => ?_⟩⟩
  · -- the shape of every held lock
    have hv := hinv.valid k info hl
    cases hex : info.exclusive with
    | true => exact .inl ⟨rfl, hv.single hex⟩
    | false => exact .inr ⟨rfl, hv.held⟩
  · -- a granted request: the abstract table granted it
    cases hreq : (m.state k).request t excl with
    | none =>
      rw [tryLock, acquireLocked_of_request_none tryStealing now k t excl 0 [] hinv hreq] at hok
      cases hok
    | some s' => exact holderIds_of_request_some hinv hreq
  · -- a refused request: the lock is held against it, or the key is new and the limit is reached
    cases hreq : (m.state k).request t excl with
    | none => rw [tryLock, acquireLocked_of_request_none tryStealing now k t excl 0 [] hinv hreq]
    | some s' =>
      by_cases hlim : m.keys.lookup k = none ∧ maxNumLocks > 0 ∧ m.lockCnt ≥ maxNumLocks
      · rw [tryLock, acquireLocked_of_limit maxNumLocks tryStealing now m k t 0 excl 0 [] hlim.1 hlim.2,
          holderIds_of_lookup_none hlim.1]
      · exact absurd (acquireLocked_state tryStealing now k t excl 0 [] hinv hreq hlim).1 hrefused

/-- the history of one shared lock, meeting the hypotheses of `lockRun_lock_table_invariant` -/
theorem lockRun_lock_table_invariant_one_shared :
    (∀ c ∈ [LockCall.tryLock 1 0 (0 : ℕ) false 0], c.neverExpires = true) ∧
    ((∀ k info, (lockRun 1 (fun _ => false) (LockMap.empty ℕ) [.tryLock 1 0 0 false 0]).2.keys.lookup k = some info →
      (info.exclusive = true ∧ info.txnIds.length = 1) ∨ (info.exclusive = false ∧ info.txnIds ≠ [])) ∧
    (0 < (1 : Int) → (lockRun 1 (fun _ => false) (LockMap.empty ℕ) [.tryLock 1 0 0 false 0]).2.lockCnt ≤
      (lockRun 1 (fun _ => false) (LockMap.empty ℕ) [.tryLock 1 0 0 false 0]).2.lockedKeys) ∧
    ∀ (t : TransactionID) (k : ℕ) (excl : Bool) (now : UInt64),
      ((tryLock 1 (fun _ => false) now (lockRun 1 (fun _ => false) (LockMap.empty ℕ) [.tryLock 1 0 0 false 0]).2
          t 0 k excl).1 = .ok →
        (lockRun 1 (fun _ => false) (LockMap.empty ℕ) [.tryLock 1 0 0 false 0]).2.holderIds k = [] ∨
        (lockRun 1 (fun _ => false) (LockMap.empty ℕ) [.tryLock 1 0 0 false 0]).2.holderIds k = [t] ∨
          (excl = false ∧ ∃ info, (lockRun 1 (fun _ => false) (LockMap.empty ℕ)
            [.tryLock 1 0 0 false 0]).2.keys.lookup k = some info ∧ info.exclusive = false)) ∧
      ((tryLock 1 (fun _ => false) now (lockRun 1 (fun _ => false) (LockMap.empty ℕ) [.tryLock 1 0 0 false 0]).2
          t 0 k excl).1 ≠ .ok →
        (tryLock 1 (fun _ => false) now (lockRun 1 (fun _ => false) (LockMap.empty ℕ) [.tryLock 1 0 0 false 0]).2
          t 0 k excl).2 =
          ((lockRun 1 (fun _ => false) (LockMap.empty ℕ) [.tryLock 1 0 0 false 0]).2,
            (lockRun 1 (fun _ => false) (LockMap.empty ℕ) [.tryLock 1 0 0 false 0]).2.holderIds k))) :=
  ⟨by decide, lockRun_lock_table_invariant 1 (fun _ => false) [.tryLock 1 0 0 false 0] (by decide) _ rfl⟩

/-- every history simulates the abstract table: a request it grants moves the map's abstraction as the abstract
table does (unless the key is new and the limit is reached), a request it makes wait is refused with the holders and
changes nothing, and `UnLockKey` is the abstract release -/
theorem lockRun_refines_lockState (maxNumLocks : Int) (tryStealing : TransactionID → Bool)
    (cs : List (LockCall κ)) (hcs : ∀ c ∈ cs, c.neverExpires = true) (m : LockMap κ)
    (hm : (lockRun maxNumLocks tryStealing (LockMap.empty κ) cs).2 = m) :
    (∀ (t : TransactionID) (k : κ) (excl : Bool) (now : UInt64) (s' : LockState TransactionID),
      (m.state k).request t excl = some s' → ¬(m.state k = .free ∧ maxNumLocks > 0 ∧ m.lockCnt ≥ maxNumLocks) →
        (tryLock maxNumLocks tryStealing now m t 0 k excl).1 = .ok ∧
          (tryLock maxNumLocks tryStealing now m t 0 k excl).2.1.state = Function.update m.state k s') ∧
    (∀ (t : TransactionID) (k : κ) (excl : Bool) (now : UInt64),
      (m.state k).request t excl = none →
        tryLock maxNumLocks tryStealing now m t 0 k excl = (.lockTimeout, m, m.holderIds k)) ∧
    (∀ (t : TransactionID) (k : κ),
      (unLockKey maxNumLocks t k m).state = Function.update m.state k ((m.state k).release t)) := by
  have hinv : m.Inv maxNumLocks := hm ▸ lockRun_inv tryStealing cs hcs (LockMap.inv_empty maxNumLocks)
  refine ⟨fun t k excl now s' hreq hlim => ?_, fun t k excl now hreq => ?_, fun t k => unLockKey_state k t hinv⟩
  · -- the limit refuses only a new key, and a new key is a free one
    have hlim' : ¬(m.keys.lookup k = none ∧ maxNumLocks > 0 ∧ m.lockCnt ≥ maxNumLocks) :=
      fun h => hlim ⟨LockMap.state_of_lookup_none h.1, h.2⟩
    exact acquireLocked_state tryStealing now k t excl 0 [] hinv hreq hlim'
  · rw [tryLock, acquireLocked_of_request_none tryStealing now k t excl 0 [] hinv hreq]

/-- the history of one shared lock, meeting the hypotheses of `lockRun_refines_lockState` -/
theorem lockRun_refines_lockState_one_shared :
    (∀ c ∈ [LockCall.tryLock 1 0 (0 : ℕ) false 0], c.neverExpires = true) ∧
    ((∀ (t : TransactionID) (k : ℕ) (excl : Bool) (now : UInt64) (s' : LockState TransactionID),
      ((lockRun 1 (fun _ => false) (LockMap.empty ℕ) [.tryLock 1 0 0 false 0]).2.state k).request t excl = some s' →
      ¬((lockRun 1 (fun _ => false) (LockMap.empty ℕ) [.tryLock 1 0 0 false 0]).2.state k = .free ∧ (1 : Int) > 0 ∧
        (lockRun 1 (fun _ => false) (LockMap.empty ℕ) [.tryLock 1 0 0 false 0]).2.lockCnt ≥ 1) →
        (tryLock 1 (fun _ => false) now (lockRun 1 (fun _ => false) (LockMap.empty ℕ) [.tryLock 1 0 0 false 0]).2
          t 0 k excl).1 = .ok ∧
        (tryLock 1 (fun _ => false) now (lockRun 1 (fun _ => false) (LockMap.empty ℕ) [.tryLock 1 0 0 false 0]).2
          t 0 k excl).2.1.state =
          Function.update (lockRun 1 (fun _ => false) (LockMap.empty ℕ) [.tryLock 1 0 0 false 0]).2.state k s') ∧
    (∀ (t : TransactionID) (k : ℕ) (excl : Bool) (now : UInt64),
      ((lockRun 1 (fun _ => false) (LockMap.empty ℕ) [.tryLock 1 0 0 false 0]).2.state k).request t excl = none →
        tryLock 1 (fun _ => false) now (lockRun 1 (fun _ => false) (LockMap.empty ℕ) [.tryLock 1 0 0 false 0]).2
          t 0 k excl =
          (.lockTimeout, (lockRun 1 (fun _ => false) (LockMap.empty ℕ) [.tryLock 1 0 0 false 0]).2,
            (lockRun 1 (fun _ => false) (LockMap.empty ℕ) [.tryLock 1 0 0 false 0]).2.holderIds k)) ∧
    (∀ (t : TransactionID) (k : ℕ),
      (unLockKey 1 t k (lockRun 1 (fun _ => false) (LockMap.empty ℕ) [.tryLock 1 0 0 false 0]).2).state =
        Function.update (lockRun 1 (fun _ => false) (LockMap.empty ℕ) [.tryLock 1 0 0 false 0]).2.state k
          (((lockRun 1 (fun _ => false) (LockMap.empty ℕ) [.tryLock 1 0 0 false 0]).2.state k).release t))) :=
  ⟨by decide, lockRun_refines_lockState 1 (fun _ => false) [.tryLock 1 0 0 false 0] (by decide) _ rfl⟩

/-! ## The lock count -/

theorem lockRun_cons {maxNumLocks : Int} {tryStealing : TransactionID → Bool} {m m' : LockMap κ} {c : LockCall κ}
    {st : Status} (h : lockStep maxNumLocks tryStealing m c = (st, m')) (cs : List (LockCall κ)) :
    lockRun maxNumLocks tryStealing m (c :: cs) =
      (st :: (lockRun maxNumLocks tryStealing m' cs).1, (lockRun maxNumLocks tryStealing m' cs).2) := by
  rw [lockRun, h]

/-- `lock_cnt` does not follow the locked keys: from any map with room under the limit, a free key is locked shared
twice (by two transactions, or twice by one), one hold is released (the key stays locked, the count goes back down),
and another free key is locked. All four calls succeed; the map then holds two more locked keys but a count only one
higher -/
theorem shared_release_exceeds_max_num_locks (maxNumLocks : Int) (hmax : 0 < maxNumLocks)
    (tryStealing : TransactionID → Bool) (m : LockMap κ) (k k' : κ) (hk : m.keys.lookup k = none)
    (hk' : m.keys.lookup k' = none) (hkk : k' ≠ k) (hroom : m.lockCnt < maxNumLocks) (t₁ t₂ t₃ : TransactionID)
    (n₁ n₂ n₃ : UInt64) :
    ∃ m', lockRun maxNumLocks tryStealing m
        [.tryLock t₁ 0 k false n₁, .tryLock t₂ 0 k false n₂, .unLock t₁ k, .tryLock t₃ 0 k' true n₃] =
          ([.ok, .ok, .ok, .ok], m') ∧
      m'.lockCnt = m.lockCnt + 1 ∧ m'.lockedKeys = m.lockedKeys + 2 := by
  have hne : maxNumLocks ≠ 0 := ne_of_gt hmax
  -- t₁ locks the free key shared: a new key, counted
  have hlim₁ : ¬(maxNumLocks > 0 ∧ m.lockCnt ≥ maxNumLocks) := fun h => absurd h.2 (not_le.mpr hroom)
  set info₁ := LockInfo.create t₁ 0 false
  set m₁ : LockMap κ := ⟨m.lockCnt + 1, m.keys.insert k info₁⟩
  have h₁ : lockStep maxNumLocks tryStealing m (.tryLock t₁ 0 k false n₁) = (.ok, m₁) := by
    rw [lockStep, tryLock, acquireLocked_of_new maxNumLocks tryStealing n₁ m k t₁ 0 false 0 [] hk hlim₁, if_pos hne]
  have hl₁ : m₁.keys.lookup k = some info₁ := AList.lookup_insert _
  -- t₂ shares it: the holder list grows, the count stays
  set info₂ : LockInfo := { info₁ with txnIds := info₁.txnIds ++ [t₂], expirationTime := max info₁.expirationTime 0 }
  set m₂ : LockMap κ := { m₁ with keys := m₁.keys.insert k info₂ }
  have h₂ : lockStep maxNumLocks tryStealing m₁ (.tryLock t₂ 0 k false n₂) = (.ok, m₂) := by
    rw [lockStep, tryLock, acquireLocked_of_shared maxNumLocks tryStealing n₂ m₁ k t₂ 0 false 0 [] hl₁ rfl rfl]
  have hl₂ : m₂.keys.lookup k = some info₂ := AList.lookup_insert _
  -- t₁ releases its hold: t₂ still holds the key, but the count goes down
  have hmem : t₁ ∈ info₂.txnIds := List.mem_cons_self ..
  have hlen : info₂.txnIds.length ≠ 1 := by simp [info₂, info₁, LockInfo.create]
  set m₃ : LockMap κ := ⟨if maxNumLocks > 0 then m₂.lockCnt - 1 else m₂.lockCnt,
    m₂.keys.insert k { info₂ with txnIds := swapPop info₂.txnIds (info₂.txnIds.idxOf t₁) }⟩
  have h₃ : lockStep maxNumLocks tryStealing m₂ (.unLock t₁ k) = (.ok, m₃) := by
    rw [lockStep, unLockKey_of_several maxNumLocks m₂ k t₁ hl₂ hmem hlen]
  have hcnt₃ : m₃.lockCnt = m.lockCnt := by
    change (if maxNumLocks > 0 then m.lockCnt + 1 - 1 else m.lockCnt + 1) = m.lockCnt
    rw [if_pos hmax]
    omega
  -- so t₃ finds room for another new key
  have hl₃ : m₃.keys.lookup k' = none := by
    change (((m.keys.insert k info₁).insert k info₂).insert k _).lookup k' = none
    rw [AList.lookup_insert_ne hkk, AList.lookup_insert_ne hkk, AList.lookup_insert_ne hkk, hk']
  have hlim₃ : ¬(maxNumLocks > 0 ∧ m₃.lockCnt ≥ maxNumLocks) := fun h => absurd (hcnt₃ ▸ h.2) (not_le.mpr hroom)
  set m₄ : LockMap κ := ⟨m₃.lockCnt + 1, m₃.keys.insert k' (LockInfo.create t₃ 0 true)⟩
  have h₄ : lockStep maxNumLocks tryStealing m₃ (.tryLock t₃ 0 k' true n₃) = (.ok, m₄) := by
    rw [lockStep, tryLock, acquireLocked_of_new maxNumLocks tryStealing n₃ m₃ k' t₃ 0 true 0 [] hl₃ hlim₃, if_pos hne]
  refine ⟨m₄, ?_, by rw [← hcnt₃], ?_⟩
  · rw [lockRun_cons h₁, lockRun_cons h₂, lockRun_cons h₃, lockRun_cons h₄, lockRun]
  · calc m₄.lockedKeys = m₃.lockedKeys + 1 := length_keys_insert_of_lookup_none hl₃
      _ = m₂.lockedKeys + 1 := by rw [LockMap.lockedKeys, LockMap.lockedKeys, length_keys_insert_of_lookup_some hl₂]
      _ = m₁.lockedKeys + 1 := by rw [LockMap.lockedKeys, LockMap.lockedKeys, length_keys_insert_of_lookup_some hl₁]
      _ = m.lockedKeys + 2 := by rw [LockMap.lockedKeys, LockMap.lockedKeys, length_keys_insert_of_lookup_none hk]

/-- with `max_num_locks_ = 1`, a fresh lock map ends with two keys locked -/
theorem shared_release_exceeds_max_num_locks_of_limit_one :
    (0 : Int) < 1 ∧ (LockMap.empty ℕ).keys.lookup 0 = none ∧ (LockMap.empty ℕ).keys.lookup 1 = none ∧
    (1 : ℕ) ≠ 0 ∧ (LockMap.empty ℕ).lockCnt < 1 ∧
    ∃ m', lockRun 1 (fun _ => false) (LockMap.empty ℕ)
        [.tryLock 1 0 0 false 0, .tryLock 2 0 0 false 0, .unLock 1 0, .tryLock 3 0 1 true 0] =
          ([.ok, .ok, .ok, .ok], m') ∧
      m'.lockCnt = (LockMap.empty ℕ).lockCnt + 1 ∧ m'.lockedKeys = (LockMap.empty ℕ).lockedKeys + 2 :=
  ⟨by decide, rfl, rfl, by decide, by decide,
    shared_release_exceeds_max_num_locks 1 (by decide) (fun _ => false) (LockMap.empty ℕ) 0 1 rfl rfl (by decide)
      (by decide) 1 2 3 0 0 0⟩

/-! ## Exclusive locks only: the count is exact -/

/-- a call that locks exclusively, or unlocks -/
def LockCall.exclusiveOnly : LockCall κ → Bool
  | .tryLock _ expirationTime _ exclusive _ => expirationTime == 0 && exclusive
  | .unLock _ _ => true

/-- the invariant of a history of exclusive locks: every held lock is exclusive, and with a limit the count is the
number of locked keys -/
structure LockMap.ExclusiveInv (maxNumLocks : Int) (m : LockMap κ) : Prop where
  inv : m.Inv maxNumLocks
  exclusive : ∀ k info, m.keys.lookup k = some info → info.exclusive = true
  countEq : 0 < maxNumLocks → m.lockCnt = m.lockedKeys

section exclusive

variable {maxNumLocks : Int} {m : LockMap κ}

theorem acquireLocked_exclusiveInv (tryStealing : TransactionID → Bool) (now : UInt64) (key : κ) (t : TransactionID)
    (hinv : m.ExclusiveInv maxNumLocks) :
    (acquireLocked maxNumLocks tryStealing now m key (LockInfo.create t 0 true) 0 []).lockMap.ExclusiveInv
      maxNumLocks := by
  have hstep := acquireLocked_inv tryStealing now key t true 0 [] hinv.inv
  cases hl : m.keys.lookup key with
  | none =>
    by_cases hlim : maxNumLocks > 0 ∧ m.lockCnt ≥ maxNumLocks
    · rw [acquireLocked_of_limit maxNumLocks tryStealing now m key t 0 true 0 [] hl hlim]
      exact hinv
    · -- a new key: counted with the keys
      rw [acquireLocked_of_new maxNumLocks tryStealing now m key t 0 true 0 [] hl hlim] at hstep ⊢
      refine ⟨hstep, forall_lookup_insert hinv.exclusive rfl, fun hmax => ?_⟩
      have hkeys : (m.keys.insert key (LockInfo.create t 0 true)).keys.length = m.keys.keys.length + 1 :=
        length_keys_insert_of_lookup_none hl
      have hcnt := hinv.countEq hmax
      rw [LockMap.lockedKeys] at hcnt ⊢
      rw [hkeys, if_pos (ne_of_gt hmax)]
      push_cast
      omega
  | some info =>
    have hexp := hinv.inv.neverExpires key info hl
    by_cases ht : info.txnIds = [t]
    · -- the requester holds the key alone: it keeps it, exclusive
      rw [acquireLocked_of_sole_holder maxNumLocks tryStealing now m key t 0 true 0 [] hl (Bool.or_true _) ht]
        at hstep ⊢
      refine ⟨hstep, forall_lookup_insert hinv.exclusive rfl, fun hmax => ?_⟩
      have hkeys : (m.keys.insert key { info with exclusive := true, expirationTime := 0 }).keys.length =
          m.keys.keys.length := length_keys_insert_of_lookup_some hl
      have hcnt := hinv.countEq hmax
      rw [LockMap.lockedKeys] at hcnt ⊢
      rw [hkeys]
      exact hcnt
    · rw [acquireLocked_of_conflict maxNumLocks tryStealing now m key t 0 true 0 [] hl (Bool.or_true _) ht hexp]
      exact hinv

theorem unLockKey_exclusiveInv (t : TransactionID) (key : κ) (hinv : m.ExclusiveInv maxNumLocks) :
    (unLockKey maxNumLocks t key m).ExclusiveInv maxNumLocks := by
  have hstep := unLockKey_inv t key hinv.inv
  cases hl : m.keys.lookup key with
  | none =>
    rw [unLockKey_of_lookup_none maxNumLocks m key t hl]
    exact hinv
  | some info =>
    by_cases ht : t ∈ info.txnIds
    · -- an exclusive lock has one holder, so its release frees the key
      have hlen : info.txnIds.length = 1 := (hinv.inv.valid key info hl).single (hinv.exclusive key info hl)
      rw [unLockKey_of_sole maxNumLocks m key t hl ht hlen] at hstep ⊢
      refine ⟨hstep, forall_lookup_erase hinv.exclusive, fun hmax => ?_⟩
      have hkeys : (m.keys.erase key).keys.length + 1 = m.keys.keys.length := length_keys_erase_of_lookup_some hl
      have hcnt := hinv.countEq hmax
      simp only [LockMap.lockedKeys] at hcnt ⊢
      rw [if_pos hmax]
      omega
    · rw [unLockKey_of_not_mem maxNumLocks m key t hl ht]
      exact hinv

/-- when every lock of a history is exclusive and never expires, `lock_cnt` is the number of locked keys after
every call -/
theorem lockRun_lockCnt_of_exclusive (maxNumLocks : Int) (hmax : 0 < maxNumLocks) (tryStealing : TransactionID → Bool)
    (cs : List (LockCall κ)) (hcs : ∀ c ∈ cs, c.exclusiveOnly = true) :
    (lockRun maxNumLocks tryStealing (LockMap.empty κ) cs).2.lockCnt =
      (lockRun maxNumLocks tryStealing (LockMap.empty κ) cs).2.lockedKeys := by
  suffices h : ∀ (m : LockMap κ), m.ExclusiveInv maxNumLocks →
      (lockRun maxNumLocks tryStealing m cs).2.ExclusiveInv maxNumLocks by
    refine (h _ ⟨LockMap.inv_empty maxNumLocks, fun k info hl => ?_, fun _ => rfl⟩).countEq hmax
    rw [LockMap.empty, AList.lookup_empty] at hl
    cases hl
  -- the run: induction on the history, one call at a time
  induction cs with
  | nil => exact fun m hinv => hinv
  | cons c cs ih =>
    intro m hinv
    have hc := hcs c (List.mem_cons_self ..)
    refine ih (fun c' hc' => hcs c' (List.mem_cons_of_mem c hc')) _ ?_
    cases c with
    | tryLock t expirationTime key excl now =>
      have hzero : expirationTime = 0 ∧ excl = true := by simpa [LockCall.exclusiveOnly] using hc
      obtain ⟨rfl, rfl⟩ := hzero
      exact acquireLocked_exclusiveInv tryStealing now key t hinv
    | unLock t key => exact unLockKey_exclusiveInv t key hinv

end exclusive

/-- an exclusive history, meeting the hypotheses of `lockRun_lockCnt_of_exclusive` -/
theorem lockRun_lockCnt_of_exclusive_two_keys :
    (0 : Int) < 1 ∧
    (∀ c ∈ [LockCall.tryLock 1 0 (0 : ℕ) true 0, .tryLock 2 0 1 true 0, .unLock 1 0], c.exclusiveOnly = true) ∧
    (lockRun 1 (fun _ => false) (LockMap.empty ℕ) [.tryLock 1 0 0 true 0, .tryLock 2 0 1 true 0, .unLock 1 0]).2.lockCnt =
      (lockRun 1 (fun _ => false) (LockMap.empty ℕ)
        [.tryLock 1 0 0 true 0, .tryLock 2 0 1 true 0, .unLock 1 0]).2.lockedKeys :=
  ⟨by decide, by decide,
    lockRun_lockCnt_of_exclusive 1 (by decide) (fun _ => false) [.tryLock 1 0 0 true 0, .tryLock 2 0 1 true 0,
      .unLock 1 0] (by decide)⟩

end ForSt
