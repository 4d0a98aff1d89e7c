import Catapult.Construction.Importances.ImportanceCalculator

/-
This file models how blocks change activity buckets, recalculate importances and are rolled back.
-/

namespace Catapult.Importances

open State

/-- The rollback of an activity undoes its commit. -/
structure ActivityAction where
  commitAction : HeightDetachedActivityBucket → HeightDetachedActivityBucket
  rollbackAction : HeightDetachedActivityBucket → HeightDetachedActivityBucket
  undone : ∀ bucket, rollbackAction (commitAction bucket) = bucket

def transactionFeeActivity (fee : Amount) : ActivityAction where
  commitAction bucket := { bucket with totalFeesPaid := bucket.totalFeesPaid + fee }
  rollbackAction bucket := { bucket with totalFeesPaid := bucket.totalFeesPaid - fee }
  undone bucket := by
    dsimp only
    rw [UInt64.add_sub_cancel]

def beneficiaryActivity : ActivityAction where
  commitAction bucket := { bucket with beneficiaryCount := bucket.beneficiaryCount + 1 }
  rollbackAction bucket := { bucket with beneficiaryCount := bucket.beneficiaryCount - 1 }
  undone bucket := by
    dsimp only
    rw [UInt32.add_sub_cancel]

def withHistory (accountState : AccountState) (importanceSnapshots : AccountImportanceSnapshots) (activityBuckets : AccountActivityBuckets) :
    AccountState :=
  { accountState with importanceSnapshots, activityBuckets }

/-- All other observers leave the history and the first height of an account alone, and their rollback undoes their commit. -/
structure AccountChange where
  commitChange : AccountState → Except ImportanceError AccountState
  rollbackChange : AccountState → Except ImportanceError AccountState
  commit_withHistory : ∀ accountState snapshots buckets, commitChange (withHistory accountState snapshots buckets) =
    (commitChange accountState).map fun changed => withHistory changed snapshots buckets
  rollback_withHistory : ∀ accountState snapshots buckets, rollbackChange (withHistory accountState snapshots buckets) =
    (rollbackChange accountState).map fun changed => withHistory changed snapshots buckets
  addressHeight : ∀ accountState changed, commitChange accountState = .ok changed → changed.addressHeight = accountState.addressHeight
  undone : ∀ accountState changed, commitChange accountState = .ok changed → rollbackChange changed = .ok accountState

/-- A linked key is unset by a rollback. -/
def linkedKeyChange (key : Key) : AccountChange where
  commitChange accountState := do
    let linked ← liftAccount (AccountPublicKeys.setKey accountState.supplementalPublicKeys.linked key)
    return { accountState with supplementalPublicKeys := { accountState.supplementalPublicKeys with linked } }
  rollbackChange accountState :=
    return { accountState with supplementalPublicKeys := { accountState.supplementalPublicKeys with linked := none } }
  commit_withHistory accountState _ _ := by
    obtain ⟨_, _, _, _, _, ⟨linked, _, _, _⟩, _, _, _⟩ := accountState
    cases linked <;> rfl
  rollback_withHistory _ _ _ := rfl
  addressHeight accountState changed committed := by
    obtain ⟨_, _, _, _, _, ⟨linked, _, _, _⟩, _, _, _⟩ := accountState
    cases linked <;> cases committed
    rfl
  undone accountState changed committed := by
    obtain ⟨_, _, _, _, _, ⟨linked, _, _, _⟩, _, _, _⟩ := accountState
    cases linked <;> cases committed
    rfl

/-- What the observers of a block do to the accounts before the importances are recalculated. -/
inductive BlockChange where
  | addAccount (address : Address)
  | updateActivity (address : Address) (action : ActivityAction)
  | changeAccount (address : Address) (change : AccountChange)

/-- The addresses are those that the cache of the high value accounts shows at the end of the block. -/
structure Block where
  height : Height
  changes : List BlockChange
  highValueAddresses : List Address
  removedAddresses : List Address
  distinct : (highValueAddresses ++ removedAddresses).Nodup

structure ObserverState where
  cache : Cache
  lastRecalculationHeight : ImportanceHeight

def changeExisting (cache : Cache) (address : Address) (change : AccountState → Except ImportanceError AccountState) :
    Except ImportanceError Cache :=
  match cache address with
  | none => .error (.accountNotFound address)
  | some accountState => do return Function.update cache address (some (← change accountState))

/-- Only the newest bucket is changed, and only if it has the height of the group. -/
def updateActivity (importanceGrouping : UInt64) (height : Height)
    (action : HeightDetachedActivityBucket → HeightDetachedActivityBucket) (accountState : AccountState) : Except ImportanceError AccountState := do
  let importanceHeight ← calculateGroupedHeight height importanceGrouping
  let (_, activityBuckets) ← liftAccount (AccountActivityBuckets.tryUpdate accountState.activityBuckets importanceHeight action)
  return { accountState with activityBuckets }

def addAccount (cache : Cache) (address : Address) (height : Height) : Cache :=
  match cache address with
  | none => Function.update cache address (some (AccountState.create address height))
  | some _ => cache

def BlockChange.commit (importanceGrouping : UInt64) (height : Height) (cache : Cache) : BlockChange → Except ImportanceError Cache
  | .addAccount address => .ok (Importances.addAccount cache address height)
  | .updateActivity address action => changeExisting cache address (Importances.updateActivity importanceGrouping height action.commitAction)
  | .changeAccount address change => changeExisting cache address change.commitChange

/-- The removal of an account is queued. -/
def BlockChange.rollback (importanceGrouping : UInt64) (height : Height) (state : Cache × List Address) :
    BlockChange → Except ImportanceError (Cache × List Address)
  | .addAccount address => .ok (state.1, state.2 ++ [address])
  | .updateActivity address action => do
    return (← changeExisting state.1 address (Importances.updateActivity importanceGrouping height action.rollbackAction), state.2)
  | .changeAccount address change => do return (← changeExisting state.1 address change.rollbackChange, state.2)

/-- Only accounts of the rolled back height are removed. -/
def remove (height : Height) (cache : Cache) (address : Address) : Cache :=
  match cache address with
  | none => cache
  | some accountState => if height ≠ accountState.addressHeight then cache else Function.update cache address none

def commitRemovals (height : Height) (queued : List Address) (cache : Cache) : Cache := queued.foldl (remove height) cache

section Observer

variable (config : BlockchainConfiguration) (block : Block) (state : ObserverState)

/-- A block uses the importances that the last block of the previous group has triggered. -/
def recalculateOnCommit : Except ImportanceError ObserverState := do
  let importanceHeight ← calculateGroupedHeight (block.height + 1) config.importanceGrouping
  if importanceHeight = state.lastRecalculationHeight then return state
  let (cache, _) ← recalculate config importanceHeight block.highValueAddresses block.removedAddresses state.cache
  return ⟨cache, importanceHeight⟩

def recalculateOnRollback : Except ImportanceError ObserverState := do
  let importanceHeight ← calculateGroupedHeight block.height config.importanceGrouping
  if importanceHeight = state.lastRecalculationHeight then return state
  let cache ← restore block.highValueAddresses block.removedAddresses state.cache
  return ⟨cache, importanceHeight⟩

def executeBlock : Except ImportanceError ObserverState := do
  let cache ← block.changes.foldlM (BlockChange.commit config.importanceGrouping block.height) state.cache
  recalculateOnCommit config block { state with cache }

/-- The observers are notified in reverse order, and the queued accounts are removed at the end. -/
def rollbackBlock : Except ImportanceError ObserverState := do
  let restored ← recalculateOnRollback config block state
  let (cache, queued) ← block.changes.reverse.foldlM (BlockChange.rollback config.importanceGrouping block.height) (restored.cache, [])
  return { restored with cache := commitRemovals block.height queued cache }

end Observer

def executeBlocks (config : BlockchainConfiguration) (state : ObserverState) (blocks : List Block) : Except ImportanceError ObserverState :=
  blocks.foldlM (fun state block => executeBlock config block state) state

/-- The last block is rolled back first. -/
def rollbackBlocks (config : BlockchainConfiguration) (state : ObserverState) (blocks : List Block) : Except ImportanceError ObserverState :=
  blocks.reverse.foldlM (fun state block => rollbackBlock config block state) state

end Catapult.Importances
