import Catapult.Construction.Partial.MemoryPtCache

/-
This file models the updater of partial transactions as tasks that share a cache.
-/

namespace Catapult.Partial

open State (Key)
open Unconfirmed (Timestamp)

/-- The signature scheme comes from the linked crypto library. -/
class CosignatureVerifier where
  verify : Key → Hash256 → Signature → Bool

structure DetachedCosignature extends Cosignature where
  parentHash : Hash256

inductive CosignatoriesValidationResult where
  | missing
  | ineligible
  | success
  | failure
  deriving DecidableEq

inductive CosignatureUpdateResult where
  | error
  | ineligible
  | unverifiable
  | redundant
  | addedIncomplete
  | addedComplete
  deriving DecidableEq

/-- An aggregate transaction carries its cosignatures after its payload. -/
structure AggregateTransaction where
  isBonded : Bool
  size : UInt32
  deadline : Timestamp
  payloadSize : UInt32
  cosignatures : List Cosignature

structure AggregateTransactionInfo where
  aggregate : AggregateTransaction
  entityHash : Hash256
  extractedAddresses : Option (List Address)

namespace AggregateTransaction

def headerSize : UInt32 := 4 + 4 + 2420 + 1312 + 4 + 1 + 1 + 2 + 8 + 8 + 32 + 4 + 4

/-- A transaction without cosignatures is not copied. -/
def removeCosignatures (aggregate : AggregateTransaction) : Transaction :=
  if aggregate.cosignatures.isEmpty then ⟨aggregate.size, aggregate.deadline⟩
  else ⟨headerSize + aggregate.payloadSize, aggregate.deadline⟩

end AggregateTransaction

/-- The first cosignature of each signer is extracted unless the cache already has one. -/
def extractCosignatures (aggregateHash : Hash256) (transactionInfoFromCache : Option PtData) :
    List Key → List Cosignature → List DetachedCosignature
  | _, [] => []
  | cosignatories, cosignature :: cosignatures =>
    let cosignatory := cosignature.signerPublicKey
    let others := extractCosignatures aggregateHash transactionInfoFromCache (cosignatory :: cosignatories) cosignatures
    if !cosignatories.contains cosignatory && !transactionInfoFromCache.any (fun data => data.hasCosignatory cosignatory) then
      ⟨⟨0, cosignatory, cosignature.signature⟩, aggregateHash⟩ :: others
    else others

/-- The answers that the validator gives in one step. -/
structure ValidatorAnswers where
  validatePartial : Bool
  validateAll : CosignatoriesValidationResult
  validateNew : CosignatoriesValidationResult
  validateSingle : Cosignature → CosignatoriesValidationResult
  isComplete : CosignatoriesValidationResult

/-- The cosignatures that were checked are kept beside the eligible ones. -/
structure StaleTransactionInfo where
  aggregateHash : Hash256
  eligibleCosignatures : List Cosignature
  existingCosignatures : List Cosignature

structure CheckEligibilityResult where
  result : CosignatureUpdateResult
  validationResult : CosignatoriesValidationResult
  staleTransactionInfo : Option StaleTransactionInfo

namespace CheckEligibilityResult

def ofUpdateResult (result : CosignatureUpdateResult) : CheckEligibilityResult := ⟨result, .ineligible, none⟩

def ofValidationResult (validationResult : CosignatoriesValidationResult) : CheckEligibilityResult :=
  ⟨.ineligible, validationResult, none⟩

variable (eligibility : CheckEligibilityResult)

def updateResult : CosignatureUpdateResult :=
  if eligibility.validationResult = .failure then .error else eligibility.result

def isEligible : Bool := eligibility.validationResult = .missing || eligibility.validationResult = .success

def isPurgeRequired : Bool := eligibility.validationResult = .failure

end CheckEligibilityResult

/-- What can be observed; the events are listed from the newest to the oldest. -/
inductive PtEvent where
  | addedTransaction (hash : Hash256)
  | addedCosignature (hash : Hash256) (cosignature : Cosignature)
  | answered (hash : Hash256) (cosignatures : List Cosignature) (result : CosignatoriesValidationResult)
  | completed (hash : Hash256) (cosignatures : List Cosignature)
  | updated (cosignature : DetachedCosignature) (result : CosignatureUpdateResult)

structure TransactionUpdateContext where
  aggregate : AggregateTransaction
  aggregateHash : Hash256
  cosignatures : List DetachedCosignature
  extractedAddresses : Option (List Address)

/-- A task stops before each access to the cache. -/
inductive PtTask where
  | addTransaction (context : TransactionUpdateContext)
  | checkEligibility (cosignature : DetachedCosignature)
  | refreshStaleCacheEntry (cosignature : DetachedCosignature) (eligibility : CheckEligibilityResult) (stale : StaleTransactionInfo)
  | purge (cosignature : DetachedCosignature) (eligibility : CheckEligibilityResult)
  | addCosignature (cosignature : DetachedCosignature)
  | checkCompleteness (aggregateHash : Hash256) (cosignature : Option DetachedCosignature)
  | removeCompleted (aggregateHash : Hash256) (cosignature : Option DetachedCosignature) (completedCosignatures : List Cosignature)

/-- The cache after a step, the tasks that follow and what was observed. -/
structure TaskOutcome where
  cache : MemoryPtCache
  tasks : List PtTask
  events : List PtEvent

section Tasks

variable [Sha3] [CosignatureVerifier] (cache : MemoryPtCache) (answers : ValidatorAnswers)

def checkEligibility (cosignature : DetachedCosignature) : CheckEligibilityResult × List PtEvent :=
  match cache.find cosignature.parentHash with
  | none => (.ofUpdateResult .ineligible, [])
  | some data =>
    if data.hasCosignatory cosignature.signerPublicKey then (.ofUpdateResult .redundant, [])
    else
      let hash := cosignature.parentHash
      let allEvent := .answered hash (data.cosignatures ++ [⟨0, cosignature.signerPublicKey, cosignature.signature⟩])
        answers.validateAll
      if answers.validateAll ≠ .ineligible then (.ofValidationResult answers.validateAll, [allEvent])
      else
        let newEvent := .answered hash [cosignature.toCosignature] answers.validateNew
        if answers.validateNew = .ineligible then (.ofValidationResult answers.validateNew, [newEvent, allEvent])
        else
          let singleEvents := data.cosignatures.map fun existing => .answered hash [existing] (answers.validateSingle existing)
          let eligibleCosignatures := data.cosignatures.filter fun existing => answers.validateSingle existing ≠ .ineligible
          ({ CheckEligibilityResult.ofValidationResult answers.validateNew with
              staleTransactionInfo := some ⟨hash, eligibleCosignatures, data.cosignatures⟩ },
            singleEvents.reverse ++ [newEvent, allEvent])

/-- The entry is removed and repopulated while the cache is locked. -/
def refreshStaleCacheEntry (stale : StaleTransactionInfo) : MemoryPtCache :=
  match cache.remove stale.aggregateHash with
  | none => cache
  | some (removedInfo, removed) =>
    stale.eligibleCosignatures.foldl (fun cache cosignature =>
      ((cache.addCosignature stale.aggregateHash cosignature).map Prod.snd).getD cache) ((removed.add removedInfo).getD removed)

/-- What follows the check of a cosignature and the refresh. -/
def afterEligibility (cosignature : DetachedCosignature) (eligibility : CheckEligibilityResult) : List PtTask × List PtEvent :=
  if !eligibility.isEligible then
    if eligibility.isPurgeRequired then ([.purge cosignature eligibility], [])
    else ([], [.updated cosignature eligibility.updateResult])
  else if !CosignatureVerifier.verify cosignature.signerPublicKey cosignature.parentHash cosignature.signature then
    ([], [.updated cosignature .unverifiable])
  else ([.addCosignature cosignature], [])

def reported (cosignature : Option DetachedCosignature) (result : CosignatureUpdateResult) : List PtEvent :=
  match cosignature with
  | none => []
  | some cosignature => [.updated cosignature result]

/-- One access to the cache and the computations up to the next one. -/
def runTask : PtTask → TaskOutcome
  | .addTransaction context =>
    if !answers.validatePartial then ⟨cache, [], []⟩
    else
      match cache.add ⟨context.aggregate.removeCosignatures, context.aggregateHash, context.extractedAddresses⟩ with
      | none => ⟨cache, [], []⟩
      | some next =>
        ⟨next, if context.cosignatures.isEmpty then [.checkCompleteness context.aggregateHash none]
          else context.cosignatures.map .checkEligibility, [.addedTransaction context.aggregateHash]⟩
  | .checkEligibility cosignature =>
    let (eligibility, events) := checkEligibility cache answers cosignature
    match eligibility.staleTransactionInfo with
    | some stale =>
      if !eligibility.isPurgeRequired then ⟨cache, [.refreshStaleCacheEntry cosignature eligibility stale], events⟩
      else
        let (tasks, updates) := afterEligibility cosignature eligibility
        ⟨cache, tasks, updates ++ events⟩
    | none =>
      let (tasks, updates) := afterEligibility cosignature eligibility
      ⟨cache, tasks, updates ++ events⟩
  | .refreshStaleCacheEntry cosignature eligibility stale =>
    let (tasks, updates) := afterEligibility cosignature eligibility
    ⟨refreshStaleCacheEntry cache stale, tasks, updates⟩
  | .purge cosignature eligibility =>
    ⟨((cache.remove cosignature.parentHash).map Prod.snd).getD cache, [], [.updated cosignature eligibility.updateResult]⟩
  | .addCosignature cosignature =>
    match cache.addCosignature cosignature.parentHash cosignature.toCosignature with
    | none => ⟨cache, [], [.updated cosignature .redundant]⟩
    | some (_, next) => ⟨next, [.checkCompleteness cosignature.parentHash (some cosignature)],
        [.addedCosignature cosignature.parentHash cosignature.toCosignature]⟩
  | .checkCompleteness aggregateHash cosignature =>
    match cache.find aggregateHash with
    | none => ⟨cache, [], reported cosignature .redundant⟩
    | some data =>
      let event := .answered aggregateHash data.cosignatures answers.isComplete
      if answers.isComplete ≠ .success then ⟨cache, [], reported cosignature .addedIncomplete ++ [event]⟩
      else ⟨cache, [.removeCompleted aggregateHash cosignature data.cosignatures], [event]⟩
  | .removeCompleted aggregateHash cosignature completedCosignatures =>
    match cache.remove aggregateHash with
    | none => ⟨cache, [], reported cosignature .addedComplete⟩
    | some (_, next) => ⟨next, [], reported cosignature .addedComplete ++ [.completed aggregateHash completedCosignatures]⟩

end Tasks

/-- The posted tasks run concurrently. -/
structure PtUpdater where
  cache : MemoryPtCache
  tasks : List PtTask
  log : List PtEvent

/-- The cache is also pruned, and confirmed transactions are removed from it. -/
inductive PtUpdaterAction where
  | updateTransaction (info : AggregateTransactionInfo)
  | updateCosignature (cosignature : DetachedCosignature)
  | run (index : Nat) (answers : ValidatorAnswers)
  | remove (hash : Hash256)
  | prune (timestamp : Timestamp)
  | prunePredicate (hashPredicate : Hash256 → Bool)

namespace PtUpdater

def create (maxCacheSize : FileSize) : PtUpdater := ⟨.create maxCacheSize, [], []⟩

/-- An aggregate that is already in the cache only adds its cosignatures. -/
def updateTasks (cache : MemoryPtCache) (info : AggregateTransactionInfo) : List PtTask :=
  let transactionInfoFromCache := cache.find info.entityHash
  let cosignatures := extractCosignatures info.entityHash transactionInfoFromCache [] info.aggregate.cosignatures
  if !info.aggregate.isBonded then []
  else if transactionInfoFromCache.isSome then cosignatures.map .checkEligibility
  else [.addTransaction ⟨info.aggregate, info.entityHash, cosignatures, info.extractedAddresses⟩]

def step [Sha3] [CosignatureVerifier] (state : PtUpdater) : PtUpdaterAction → PtUpdater
  | .updateTransaction info => { state with tasks := state.tasks ++ updateTasks state.cache info }
  | .updateCosignature cosignature => { state with tasks := state.tasks ++ [.checkEligibility cosignature] }
  | .run index answers =>
    match state.tasks[index]? with
    | none => state
    | some task =>
      let outcome := runTask state.cache answers task
      ⟨outcome.cache, state.tasks.eraseIdx index ++ outcome.tasks, outcome.events ++ state.log⟩
  | .remove hash => { state with cache := ((state.cache.remove hash).map Prod.snd).getD state.cache }
  | .prune timestamp =>
    match state.cache.prune timestamp with
    | .ok (_, cache) => { state with cache }
    | .error _ => state
  | .prunePredicate hashPredicate => { state with cache := (state.cache.prunePredicate hashPredicate).2 }

end PtUpdater

end Catapult.Partial
