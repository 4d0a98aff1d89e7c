import Catapult.Construction.Types

/-
This file models the cache of lock histories that hash locks and secret locks share.
-/

namespace Catapult.Lock

/-- A lock is unused until its funds are claimed. -/
inductive LockStatus where
  | unused
  | used
  deriving DecidableEq

/-- These fields are common to all locks. -/
structure LockInfo where
  ownerAddress : Address
  mosaicId : MosaicId
  amount : Amount
  endHeight : Height
  status : LockStatus

/-- A lock is active while it is unused and its end height lies ahead. -/
def LockInfo.isActive (lockInfo : LockInfo) (height : Height) : Bool :=
  height < lockInfo.endHeight && lockInfo.status = .unused

/-- The lock types have an identifier and a status that can be changed in place. -/
class IsLockInfo (L : Type) where
  lockIdentifier : L → Hash256
  lockInfo : L → LockInfo
  setStatus : LockStatus → L → L
  lockIdentifier_setStatus : ∀ status lock, lockIdentifier (setStatus status lock) = lockIdentifier lock
  lockInfo_setStatus : ∀ status lock, lockInfo (setStatus status lock) = { lockInfo lock with status }

open IsLockInfo

variable {L : Type} [IsLockInfo L]

/-- An operation throws an error or, if it reads the newest lock of an empty history, has no defined result. -/
inductive CacheError where
  | invalidArgument (message : String)
  | notInCache (id : Hash256)
  | undefined

/-- A history holds the locks of one identifier from the oldest to the newest. -/
structure LockInfoHistory (L : Type) where
  id : Hash256
  lockInfos : List L

namespace LockInfoHistory

def empty (history : LockInfoHistory L) : Bool := history.lockInfos.isEmpty

/-- A lock with another identifier is rejected. -/
def pushBack (history : LockInfoHistory L) (lock : L) : Except CacheError (LockInfoHistory L) :=
  if history.id ≠ lockIdentifier lock then
    .error (.invalidArgument "cannot add lock info with different identifier to history")
  else .ok { history with lockInfos := history.lockInfos ++ [lock] }

def popBack (history : LockInfoHistory L) : Except CacheError (LockInfoHistory L) :=
  if history.empty then .error (.invalidArgument "cannot pop lock info from empty history")
  else .ok { history with lockInfos := history.lockInfos.dropLast }

/-- The newest lock exists only if the history is not empty. -/
def back (history : LockInfoHistory L) : Option L := history.lockInfos.getLast?

/-- A write through the reference to the newest lock changes its status. -/
def setBackStatus (history : LockInfoHistory L) (status : LockStatus) : LockInfoHistory L :=
  { history with
    lockInfos := history.lockInfos.dropLast ++ (history.back.map (setStatus status)).toList }

def isActive (history : LockInfoHistory L) (height : Height) : Bool :=
  match history.back with
  | none => false
  | some lock => (lockInfo lock).isActive height

/-- The oldest locks are dropped while their end height is reached. -/
def prune (history : LockInfoHistory L) (height : Height) : LockInfoHistory L :=
  { history with lockInfos := history.lockInfos.dropWhile fun lock => (lockInfo lock).endHeight ≤ height }

end LockInfoHistory

/-- The cache maps identifiers to histories and end heights to groups of identifiers. -/
structure LockInfoCacheDelta (L : Type) where
  histories : Hash256 → Option (LockInfoHistory L)
  heightGrouping : Height → Option (List Hash256)

namespace LockInfoCacheDelta

def create : LockInfoCacheDelta L := ⟨fun _ => none, fun _ => none⟩

def find (cache : LockInfoCacheDelta L) (id : Hash256) : Option (LockInfoHistory L) := cache.histories id

def contains (cache : LockInfoCacheDelta L) (id : Hash256) : Bool := (cache.find id).isSome

def isActive (cache : LockInfoCacheDelta L) (id : Hash256) (height : Height) : Bool :=
  match cache.find id with
  | none => false
  | some history => history.isActive height

/-- A group is a set, so an identifier is added only once. -/
def addIdentifierWithGroup (cache : LockInfoCacheDelta L) (height : Height) (id : Hash256) : LockInfoCacheDelta L :=
  let identifiers := (cache.heightGrouping height).getD []
  { cache with
    heightGrouping := Function.update cache.heightGrouping height
      (some (if id ∈ identifiers then identifiers else id :: identifiers)) }

/-- A group that becomes empty is removed. -/
def removeIdentifierWithGroup (cache : LockInfoCacheDelta L) (height : Height) (id : Hash256) : LockInfoCacheDelta L :=
  match cache.heightGrouping height with
  | none => cache
  | some identifiers =>
    let remaining := identifiers.filter fun other => other ≠ id
    { cache with
      heightGrouping := Function.update cache.heightGrouping height
        (if remaining.isEmpty then none else some remaining) }

/-- These histories are visited for a height; identifiers without a history are skipped. -/
def identifiersWithGroup (cache : LockInfoCacheDelta L) (height : Height) : List (LockInfoHistory L) :=
  ((cache.heightGrouping height).getD []).filterMap cache.find

def insert (cache : LockInfoCacheDelta L) (lock : L) : Except CacheError (LockInfoCacheDelta L) := do
  let id := lockIdentifier lock
  let history ← ((cache.find id).getD ⟨id, []⟩).pushBack lock
  let inserted := { cache with histories := Function.update cache.histories id (some history) }
  return inserted.addIdentifierWithGroup (lockInfo lock).endHeight id

/-- The newest lock of the history is removed together with its entry in the height grouping. -/
def remove (cache : LockInfoCacheDelta L) (id : Hash256) : Except CacheError (LockInfoCacheDelta L) := do
  match cache.find id with
  | none => throw (.notInCache id)
  | some history =>
    match history.back with
    | none => throw .undefined
    | some lock =>
      let ungrouped := cache.removeIdentifierWithGroup (lockInfo lock).endHeight id
      let popped ← history.popBack
      return { ungrouped with
        histories := Function.update cache.histories id (if popped.empty then none else some popped) }

/-- The newest lock of every visited history is passed on if it is unused. -/
def processUnusedExpiredLocks (cache : LockInfoCacheDelta L) (height : Height) : List L :=
  (cache.identifiersWithGroup height).filterMap fun history =>
    history.back.filter fun lock => (lockInfo lock).status = .unused

/-- Histories that become empty are removed, and so is the group of the height. -/
def prune (cache : LockInfoCacheDelta L) (height : Height) : LockInfoCacheDelta L :=
  let visited := (cache.heightGrouping height).getD []
  { histories := fun id =>
      if id ∈ visited then
        (cache.find id).bind fun history =>
          let pruned := history.prune height
          if pruned.empty then none else some pruned
      else cache.find id
    heightGrouping := Function.update cache.heightGrouping height none }

/-- The status of the newest lock is changed through a mutable find. -/
def setStatus (cache : LockInfoCacheDelta L) (id : Hash256) (status : LockStatus) : Except CacheError (LockInfoCacheDelta L) :=
  match cache.find id with
  | none => .error (.notInCache id)
  | some history =>
    match history.back with
    | none => .error .undefined
    | some _ =>
      .ok { cache with
        histories := Function.update cache.histories id (some (history.setBackStatus status)) }

end LockInfoCacheDelta

/-- Executing and rolling back blocks changes the cache by these operations. -/
inductive LockOperation (L : Type) where
  | insert (lock : L)
  | remove (id : Hash256)
  | setStatus (id : Hash256) (status : LockStatus)
  | prune (height : Height)

/-- The cache is followed together with the last pruned height. -/
structure LockRun (L : Type) where
  cache : LockInfoCacheDelta L
  lastPruned : Height

def LockRun.apply (run : LockRun L) : LockOperation L → Except CacheError (LockRun L)
  | .insert lock => do return { run with cache := ← run.cache.insert lock }
  | .remove id => do return { run with cache := ← run.cache.remove id }
  | .setStatus id status => do return { run with cache := ← run.cache.setStatus id status }
  | .prune height => .ok ⟨run.cache.prune height, height⟩

end Catapult.Lock
