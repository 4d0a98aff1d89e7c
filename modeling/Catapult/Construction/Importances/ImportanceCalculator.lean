import Catapult.Construction.State.AccountState

/-
This file models how importances are calculated from balances and activity and how they are restored during a rollback.
-/

namespace Catapult.Importances

open State

structure BlockchainConfiguration where
  importanceGrouping : UInt64
  importanceActivityPercentage : UInt8
  harvestingMosaicId : MosaicId
  totalChainImportance : Importance
  minHarvesterBalance : Amount

inductive ImportanceError where
  | zeroGrouping
  | inconsistentHeight (message : String) (height grouping : UInt64)
  | laterBucket (bucketHeight height : ImportanceHeight)
  | accountNotFound (address : Address)
  | divisionByZero
  | account (error : AccountError)
  deriving DecidableEq

def liftAccount {T : Type} (action : Except AccountError T) : Except ImportanceError T := action.mapError .account

/-- The first height of a group, where the first group starts at one. -/
def calculateGroupedHeight (height : Height) (grouping : UInt64) : Except ImportanceError ImportanceHeight :=
  if grouping = 0 then .error .zeroGrouping
  else
    let previousHeight := height - 1
    let groupedHeight := previousHeight / grouping * grouping
    .ok (if groupedHeight < 1 then 1 else groupedHeight)

def checkHeight (grouping : UInt64) (groupedHeight : ImportanceHeight) (message : String) : Except ImportanceError Unit :=
  if groupedHeight = 1 ∨ groupedHeight ≠ 0 ∧ groupedHeight % grouping = 0 then .ok ()
  else .error (.inconsistentHeight message groupedHeight grouping)

structure HeightGroupingFacade where
  groupedHeight : ImportanceHeight
  grouping : UInt64

namespace HeightGroupingFacade

def create (groupedHeight : ImportanceHeight) (grouping : UInt64) (message : String) : Except ImportanceError HeightGroupingFacade := do
  if grouping = 0 then throw .zeroGrouping
  checkHeight grouping groupedHeight message
  return ⟨groupedHeight, grouping⟩

def previous (facade : HeightGroupingFacade) (count : UInt64) : ImportanceHeight :=
  let heightAdjustment := facade.grouping * count
  if heightAdjustment < facade.groupedHeight then facade.groupedHeight - heightAdjustment else 1

def checkBucketHeight (facade : HeightGroupingFacade) (bucketHeight : ImportanceHeight) : Except ImportanceError Unit := do
  checkHeight facade.grouping bucketHeight "importance bucket"
  if facade.groupedHeight < bucketHeight then throw (.laterBucket bucketHeight facade.groupedHeight)

end HeightGroupingFacade

structure AccountActivitySummary where
  totalFeesPaid : Amount
  beneficiaryCount : UInt32
  previousImportance : Importance

/-- The loop ends at the first bucket that is too old, and so at an empty bucket. -/
def summarizeBuckets (facade : HeightGroupingFacade) (previousHeight minHeight : ImportanceHeight) :
    AccountActivitySummary → List ActivityBucket → Except ImportanceError AccountActivitySummary
  | summary, [] => .ok summary
  | summary, bucket :: buckets =>
    if bucket.startHeight < minHeight then .ok summary
    else do
      facade.checkBucketHeight bucket.startHeight
      summarizeBuckets facade previousHeight minHeight
        ⟨summary.totalFeesPaid + bucket.totalFeesPaid, summary.beneficiaryCount + bucket.beneficiaryCount,
          if previousHeight = bucket.startHeight then bucket.rawScore else summary.previousImportance⟩
        buckets

def summarizeAccountActivity (height : ImportanceHeight) (importanceGrouping : UInt64) (buckets : AccountActivityBuckets) :
    Except ImportanceError AccountActivitySummary := do
  let facade ← HeightGroupingFacade.create height importanceGrouping "importance search"
  let previousHeight := if height = 1 then 0 else facade.previous 1
  let minHeight := facade.previous (UInt64.ofNat (activityBucketHistorySize - rollbackBufferSize - 1))
  summarizeBuckets facade previousHeight minHeight ⟨0, 0, 0⟩ buckets.toList

structure AccountSummary where
  address : Address
  activitySummary : AccountActivitySummary
  accountState : AccountState
  stakeImportance : Importance
  activityImportance : Importance

structure ImportanceCalculationContext where
  activeHarvestingMosaics : Amount
  totalBeneficiaryCount : UInt64
  totalFeesPaid : Amount

/-- An unchecked integer of 128 bits wraps around. -/
def uint128 (value : Nat) : Nat := value % 2 ^ 128

/-- A division of a wide integer by zero throws. -/
def divideWide (value : Nat) (divisor : UInt64) : Except ImportanceError Nat :=
  if divisor = 0 then .error .divisionByZero else .ok (value / divisor.toNat)

section Calculation

variable (config : BlockchainConfiguration)

def harvestingBalance (accountState : AccountState) : Amount := AccountBalances.get accountState.balances config.harvestingMosaicId

/-- The percentage is at most one hundred. -/
def calculateStakeImportance (balance activeHarvestingMosaics : Amount) : Except ImportanceError Importance := do
  let stakeImportance := config.totalChainImportance.toNat
  let stakeImportance := uint128 (stakeImportance * balance.toNat)
  let stakeImportance := uint128 (stakeImportance * (100 - config.importanceActivityPercentage.toNat))
  let stakeImportance ← divideWide stakeImportance (activeHarvestingMosaics * 100)
  return UInt64.ofNat stakeImportance

/-- The fees and the beneficiary counts are weighted alike, with weights of eight and two. -/
def calculateActivityPart (weight : UInt64) (activity total : UInt64) (balance : Amount) : Except ImportanceError Nat :=
  if 0 < config.importanceActivityPercentage ∧ 0 < total then do
    let importance := config.totalChainImportance.toNat
    let importance := uint128 (importance * activity.toNat)
    let importance := uint128 (importance * (config.importanceActivityPercentage.toUInt64 * config.minHarvesterBalance * weight).toNat)
    let importance ← divideWide importance (total * 1000)
    divideWide importance balance
  else .ok 0

def calculateImportances (context : ImportanceCalculationContext) (summary : AccountSummary) : Except ImportanceError AccountSummary := do
  let balance := harvestingBalance config summary.accountState
  let stakeImportance ← calculateStakeImportance config balance context.activeHarvestingMosaics
  let feeImportance ← calculateActivityPart config 8 summary.activitySummary.totalFeesPaid context.totalFeesPaid balance
  let beneficiaryCountImportance ← calculateActivityPart config 2 summary.activitySummary.beneficiaryCount.toUInt64 context.totalBeneficiaryCount balance
  let activityImportance := UInt64.ofNat (uint128 (feeImportance + beneficiaryCountImportance))
  return { summary with stakeImportance, activityImportance }

/-- Without any activity the stake is scaled up. -/
def calculateFinalImportance (summary : AccountSummary) (totalActivityImportance targetActivityImportance : Importance) : Importance :=
  if totalActivityImportance = 0 then
    if 0 < config.importanceActivityPercentage then
      summary.stakeImportance * 100 / (100 - config.importanceActivityPercentage.toUInt64)
    else summary.stakeImportance
  else
    let numerator := summary.activityImportance * targetActivityImportance
    summary.stakeImportance + numerator / totalActivityImportance

abbrev Cache := Address → Option AccountState

def summarizeAccount (importanceHeight : ImportanceHeight) (cache : Cache) (address : Address) : Except ImportanceError AccountSummary :=
  match cache address with
  | none => .error (.accountNotFound address)
  | some accountState => do
    let activitySummary ← summarizeAccountActivity importanceHeight config.importanceGrouping accountState.activityBuckets
    return ⟨address, activitySummary, accountState, 0, 0⟩

def addToContext (context : ImportanceCalculationContext) (summary : AccountSummary) : ImportanceCalculationContext :=
  ⟨context.activeHarvestingMosaics + harvestingBalance config summary.accountState,
    context.totalBeneficiaryCount + summary.activitySummary.beneficiaryCount.toUInt64,
    context.totalFeesPaid + summary.activitySummary.totalFeesPaid⟩

/-- The final importances of the accounts, before they are stored. -/
def finalImportances (importanceHeight : ImportanceHeight) (highValueAddresses : List Address) (cache : Cache) :
    Except ImportanceError (List (AccountSummary × Importance)) := do
  let summaries ← highValueAddresses.mapM (summarizeAccount config importanceHeight cache)
  let context := summaries.foldl (addToContext config) ⟨0, 0, 0⟩
  let summaries ← summaries.mapM (calculateImportances config context)
  let totalActivityImportance := summaries.foldl (fun total summary => total + summary.activityImportance) 0
  let targetActivityImportance := config.totalChainImportance * config.importanceActivityPercentage.toUInt64 / 100
  return summaries.map fun summary => (summary, calculateFinalImportance config summary totalActivityImportance targetActivityImportance)

end Calculation

/-- The bucket keeps the importance, and the snapshot is limited by the previous importance. -/
def storeImportance (importanceHeight : ImportanceHeight) (cache : Cache) (final : AccountSummary × Importance) : Except ImportanceError Cache := do
  let accountState := final.1.accountState
  let activityBuckets ← liftAccount (AccountActivityBuckets.update accountState.activityBuckets importanceHeight fun bucket =>
    { bucket with rawScore := final.2 })
  let previousImportance := final.1.activitySummary.previousImportance
  let effectiveImportance := if importanceHeight = 1 then final.2 else if previousImportance < final.2 then previousImportance else final.2
  let importanceSnapshots ← liftAccount (AccountImportanceSnapshots.set accountState.importanceSnapshots effectiveImportance importanceHeight)
  return Function.update cache final.1.address (some { accountState with activityBuckets, importanceSnapshots })

/-- The removed accounts without history are forgotten. -/
def processHighValueRemovedAccount (importanceHeight : ImportanceHeight) (state : Cache × List Address) (address : Address) :
    Except ImportanceError (Cache × List Address) :=
  match state.1 address with
  | none => .ok state
  | some accountState => do
    let activityBuckets := accountState.activityBuckets
    let activityBuckets ← if (AccountActivityBuckets.get activityBuckets importanceHeight).startHeight = importanceHeight then
        liftAccount activityBuckets.pop else pure activityBuckets
    let shifted := { accountState with
      activityBuckets := AccountActivityBuckets.pushEmpty activityBuckets
      importanceSnapshots := AccountImportanceSnapshots.pushEmpty accountState.importanceSnapshots }
    return (Function.update state.1 address (some shifted), if shifted.hasHistoricalInformation then state.2 ++ [address] else state.2)

/-- The importances of all high value accounts are calculated before the first one is stored. -/
def recalculate (config : BlockchainConfiguration) (importanceHeight : ImportanceHeight) (highValueAddresses removedAddresses : List Address)
    (cache : Cache) : Except ImportanceError (Cache × List Address) := do
  let finals ← finalImportances config importanceHeight highValueAddresses cache
  let cache ← finals.foldlM (storeImportance importanceHeight) cache
  removedAddresses.foldlM (processHighValueRemovedAccount importanceHeight) (cache, [])

/-- An account that does not exist is skipped. -/
def popAccount (cache : Cache) (address : Address) : Except ImportanceError Cache :=
  match cache address with
  | none => .ok cache
  | some accountState => do
    let importanceSnapshots ← liftAccount accountState.importanceSnapshots.pop
    let activityBuckets ← liftAccount accountState.activityBuckets.pop
    return Function.update cache address (some { accountState with importanceSnapshots, activityBuckets })

def restore (highValueAddresses removedAddresses : List Address) (cache : Cache) : Except ImportanceError Cache := do
  let cache ← highValueAddresses.foldlM popAccount cache
  removedAddresses.foldlM popAccount cache

end Catapult.Importances
