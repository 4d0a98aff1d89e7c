import Catapult.Construction.Unconfirmed.ProcessingNotificationSubscriber

/-
This file models the cache of unconfirmed transactions and its updater.
-/

namespace Catapult.Unconfirmed

structure TransactionInfo (T : Type) where
  entity : T
  size : UInt32
  maxFee : Amount
  entityHash : Hash256

/-- The transactions are kept in the order in which they were added. -/
structure MemoryUtCache (T : Type) where
  maxCacheSize : UInt64
  cacheSize : UInt64
  transactions : List (TransactionInfo T)

variable {C N T : Type}

namespace MemoryUtCache

def contains (cache : MemoryUtCache T) (hash : Hash256) : Bool :=
  cache.transactions.any fun info => info.entityHash = hash

/-- A transaction that does not fit or is already there is refused. -/
def add (cache : MemoryUtCache T) (info : TransactionInfo T) : Option (MemoryUtCache T) :=
  if cache.maxCacheSize - cache.cacheSize < info.size.toUInt64 then none
  else if cache.contains info.entityHash then none
  else some { cache with
    cacheSize := cache.cacheSize + info.size.toUInt64
    transactions := cache.transactions ++ [info] }

def remove (cache : MemoryUtCache T) (hash : Hash256) : MemoryUtCache T :=
  match cache.transactions.find? fun info => info.entityHash = hash with
  | none => cache
  | some info => { cache with
      cacheSize := cache.cacheSize - info.size.toUInt64
      transactions := cache.transactions.eraseP fun info => info.entityHash = hash }

def removeAll (cache : MemoryUtCache T) : List (TransactionInfo T) × MemoryUtCache T :=
  (cache.transactions, { cache with cacheSize := 0, transactions := [] })

end MemoryUtCache

inductive TransactionSource where
  | new
  | reverted
  | existing
  deriving DecidableEq

structure ThrottleContext (C T : Type) where
  transactionSource : TransactionSource
  cacheHeight : Height
  unconfirmedCatapultCache : C
  transactionsCache : MemoryUtCache T

/-- The configuration of an updater. -/
structure UtConfiguration (C N T : Type) where
  minFeeMultiplier : UInt32
  validator : Validator C N
  observers : List (Observer C N)
  publish : TransactionInfo T → List (Notification N)
  throttle : TransactionInfo T → ThrottleContext C T → Bool

inductive UpdateType where
  | new
  | invalid
  | neutral
  deriving DecidableEq

def calculateTransactionFee (feeMultiplier : UInt32) (info : TransactionInfo T) : Amount :=
  feeMultiplier.toUInt64 * info.size.toUInt64

/-- The modifier of the transactions and the unconfirmed delta of the confirmed cache. -/
structure ApplyState (C T : Type) where
  modifier : MemoryUtCache T
  unconfirmedCatapultCache : C

/-- The notifications of one transaction are processed at the height after the cache height. -/
def process (config : UtConfiguration C N T) (cacheHeight : Height) (time : Timestamp) (info : TransactionInfo T)
    (cache : C) : ProcessingNotificationSubscriber C N :=
  let effectiveHeight := cacheHeight + 1
  (config.publish info).foldl ProcessingNotificationSubscriber.notify
    (ProcessingNotificationSubscriber.create config.validator ⟨effectiveHeight, time⟩ config.observers
      ⟨effectiveHeight, .commit⟩ cache)

/-- One round of the loop over the transactions. -/
def applyOne (config : UtConfiguration C N T) (cacheHeight : Height) (time : Timestamp)
    (source : TransactionSource) (filter : TransactionInfo T → Bool) (state : ApplyState C T)
    (info : TransactionInfo T) : ApplyState C T × UpdateType :=
  if !filter info then (state, .neutral)
  else if info.maxFee < calculateTransactionFee config.minFeeMultiplier info then (state, .neutral)
  else if config.throttle info ⟨source, cacheHeight, state.unconfirmedCatapultCache, state.modifier⟩ then
    (state, .neutral)
  else
    match state.modifier.add info with
    | none => (state, .neutral)
    | some modifier =>
      let subscriber := process config cacheHeight time info state.unconfirmedCatapultCache
      if isValidationResultSuccess subscriber.aggregateResult then (⟨modifier, subscriber.cache⟩, .new)
      else (⟨modifier.remove info.entityHash, subscriber.undo.cache⟩, .invalid)

def apply (config : UtConfiguration C N T) (cacheHeight : Height) (time : Timestamp)
    (source : TransactionSource) (filter : TransactionInfo T → Bool) :
    ApplyState C T → List (TransactionInfo T) → ApplyState C T × List UpdateType
  | state, [] => (state, [])
  | state, info :: infos =>
    let (next, result) := applyOne config cacheHeight time source filter state info
    let (final, results) := apply config cacheHeight time source filter next infos
    (final, result :: results)

/-- The confirmed cache counts its commits. -/
structure CatapultCache (C : Type) where
  state : C
  height : Height
  commitCounter : Nat

/-- A detached delta can be locked until the next commit. -/
structure DetachedCache (C : Type) where
  delta : C
  height : Height
  initialCommitCount : Nat

structure UtUpdater (C T : Type) where
  transactionsCache : MemoryUtCache T
  confirmedCatapultCache : CatapultCache C
  detachedCatapultCache : DetachedCache C

namespace UtUpdater

def rebaseAndLock (confirmed : CatapultCache C) : DetachedCache C :=
  ⟨confirmed.state, confirmed.height, confirmed.commitCounter⟩

def create (maxCacheSize : UInt64) (confirmed : CatapultCache C) : UtUpdater C T :=
  ⟨⟨maxCacheSize, 0, []⟩, confirmed, rebaseAndLock confirmed⟩

def canLock (updater : UtUpdater C T) : Bool :=
  updater.detachedCatapultCache.initialCommitCount = updater.confirmedCatapultCache.commitCounter

def addAll (cache : MemoryUtCache T) (infos : List (TransactionInfo T)) : MemoryUtCache T :=
  infos.foldl (fun cache info => (cache.add info).getD cache) cache

/-- Without a detached cache the transactions are added and validated later. -/
def updateNew (config : UtConfiguration C N T) (time : Timestamp) (updater : UtUpdater C T)
    (utInfos : List (TransactionInfo T)) : UtUpdater C T × List UpdateType :=
  if updater.canLock then
    let detached := updater.detachedCatapultCache
    let (state, results) := apply config detached.height time .new (fun _ => true)
      ⟨updater.transactionsCache, detached.delta⟩ utInfos
    ({ updater with
      transactionsCache := state.modifier
      detachedCatapultCache := { detached with delta := state.unconfirmedCatapultCache } },
      results)
  else
    ({ updater with transactionsCache := addAll updater.transactionsCache utInfos }, utInfos.map fun _ => .neutral)

/-- The reverted transactions are added back before the transactions that were there. -/
def updateConfirmed (config : UtConfiguration C N T) (times : Timestamp × Timestamp) (updater : UtUpdater C T)
    (confirmedTransactionHashes : List Hash256) (utInfos : List (TransactionInfo T)) : UtUpdater C T :=
  let (originalTransactionInfos, modifier) := updater.transactionsCache.removeAll
  let detached := rebaseAndLock updater.confirmedCatapultCache
  let (reverted, _) := apply config detached.height times.1 .reverted (fun _ => true)
    ⟨modifier, detached.delta⟩ utInfos
  let (final, _) := apply config detached.height times.2 .existing
    (fun info => info.entityHash ∉ confirmedTransactionHashes) reverted originalTransactionInfos
  { updater with
    transactionsCache := final.modifier
    detachedCatapultCache := { detached with delta := final.unconfirmedCatapultCache } }

/-- A commit makes the detached cache stale. -/
def commit (updater : UtUpdater C T) (state : C) (height : Height) : UtUpdater C T :=
  { updater with confirmedCatapultCache := ⟨state, height, updater.confirmedCatapultCache.commitCounter + 1⟩ }

end UtUpdater

/-- The calls of an updater and the commits of the confirmed cache in any order. -/
inductive UtAction (C T : Type) where
  | commit (state : C) (height : Height)
  | updateNew (time : Timestamp) (utInfos : List (TransactionInfo T))
  | updateConfirmed (times : Timestamp × Timestamp) (confirmedTransactionHashes : List Hash256)
      (utInfos : List (TransactionInfo T))

def step (config : UtConfiguration C N T) (updater : UtUpdater C T) : UtAction C T → UtUpdater C T
  | .commit state height => updater.commit state height
  | .updateNew time utInfos => (updater.updateNew config time utInfos).1
  | .updateConfirmed times hashes utInfos => updater.updateConfirmed config times hashes utInfos

def run (config : UtConfiguration C N T) (updater : UtUpdater C T) (actions : List (UtAction C T)) : UtUpdater C T :=
  actions.foldl (step config) updater

end Catapult.Unconfirmed
