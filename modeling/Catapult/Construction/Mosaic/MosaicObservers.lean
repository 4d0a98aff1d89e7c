import Catapult.Construction.Lock.SecretLock
import Catapult.Construction.Mosaic.MosaicCache
import Catapult.Construction.State.AccountState
import Catapult.Library.ByteStream

/-
This file models the validators and observers of mosaic definitions and mosaic supply changes.
-/

namespace Catapult.Mosaics

open ByteStream
open Lock (NotifyMode ResolverContext)
open State (AccountState AccountError)

abbrev MosaicNonce := UInt32

/-- The high bit is left to namespaces. -/
def generateMosaicId [Sha3] (owner : Address) (nonce : MosaicNonce) : MosaicId :=
  Codec.word64.read ((Sha3.sha3_256 (Codec.word32.write nonce ++ owner.toList)).toList.take 8) &&& ~~~((1 : UInt64) <<< 63)

structure LedgerState where
  accounts : Finmap fun _ : Address => AccountState
  mosaics : MosaicCacheDelta

inductive LedgerError where
  | failure (failure : MosaicFailure)
  | mosaicException (exception : MosaicException)
  | accountException (exception : AccountError)
  deriving DecidableEq

def validated {α : Type} (result : Except MosaicFailure α) : Except LedgerError α := result.mapError .failure

def observed {α : Type} (result : Except MosaicException α) : Except LedgerError α := result.mapError .mosaicException

def findAccount (state : LedgerState) (address : Address) : Except LedgerError AccountState :=
  match state.accounts.lookup address with
  | none => .error (.mosaicException (.accountNotInCache address))
  | some account => .ok account

structure MosaicConfiguration where
  maxMosaicsPerAccount : UInt16
  maxMosaicDuration : BlockDuration
  maxMosaicDivisibility : UInt8
  maxMosaicAtomicUnits : Amount
  treasuryReissuance : Height

section Validators

def mosaicIdValidator [Sha3] (owner : Address) (nonce : MosaicNonce) (mosaicId : MosaicId) : Except MosaicFailure Unit :=
  if mosaicId = 0 then .error .invalidId
  else if mosaicId = generateMosaicId owner nonce then .ok () else .error .idMismatch

/-- Mosaics are revokable from the height of a fork on. -/
def mosaicFlagsValidator (revokableForkHeight height : Height) (properties : MosaicProperties) : Except MosaicFailure Unit :=
  if properties.flags ≤ (if height < revokableForkHeight then allFlags &&& ~~~revokable else allFlags) then .ok ()
  else .error .invalidFlags

variable (mosaics : MosaicCacheDelta) (mosaicId : MosaicId) (height : Height) (owner : Address)

def tryGetActive : Except MosaicFailure MosaicEntry :=
  match mosaics.find mosaicId with
  | none => .error .expired
  | some entry => if entry.definition.isActive height then .ok entry else .error .expired

def tryGetOwned : Except MosaicFailure MosaicEntry := do
  let entry ← tryGetActive mosaics mosaicId height
  if entry.definition.ownerAddress ≠ owner then .error .ownerConflict else .ok entry

/-- Durations of eternal mosaics do not change. -/
def containsAnyPropertyChange (definition : MosaicDefinition) (properties : MosaicProperties) : Bool :=
  properties.flags ≠ noFlags || properties.divisibility ≠ 0 || (!definition.isEternal && properties.duration ≠ 0)

/-- A new mosaic is always allowed, and a known one may only change without a supply. -/
def mosaicAvailabilityValidator (properties : MosaicProperties) : Except MosaicFailure Unit :=
  match tryGetOwned mosaics mosaicId height owner with
  | .error failure => if (mosaics.find mosaicId).isSome then .error failure else .ok ()
  | .ok entry =>
    if !containsAnyPropertyChange entry.definition properties then .error .modificationNoChanges
    else if entry.supply ≠ 0 then .error .modificationDisallowed
    else .ok ()

def mosaicDivisibilityValidator (maxDivisibility : UInt8) (properties : MosaicProperties) : Except MosaicFailure Unit :=
  let newDivisibility :=
    match mosaics.find mosaicId with
    | none => properties.divisibility
    | some entry => properties.divisibility ^^^ entry.definition.properties.divisibility
  if newDivisibility > maxDivisibility then .error .invalidDivisibility else .ok ()

def mosaicDurationValidator (maxMosaicDuration : BlockDuration) (properties : MosaicProperties) : Except MosaicFailure Unit :=
  if properties.duration = 0 then .ok ()
  else if maxMosaicDuration < properties.duration then .error .invalidDuration
  else
    match mosaics.find mosaicId with
    | none => .ok ()
    | some entry =>
      let currentDuration := entry.definition.properties.duration
      let resultingDuration := currentDuration + properties.duration
      if currentDuration = 0 then .error .invalidDuration
      else if maxMosaicDuration < resultingDuration || resultingDuration < currentDuration then .error .invalidDuration
      else .ok ()

/-- Every flag of the mask has to be set. -/
def requiredMosaicValidator (propertyFlagMask : UInt8) : Except MosaicFailure Unit := do
  let entry ← tryGetOwned mosaics mosaicId height owner
  if propertyFlagMask ≠ 0 &&
      [1, 2, 4, 8].any (fun flag => propertyFlagMask &&& flag ≠ 0 && !entry.definition.properties.is flag) then
    .error .requiredPropertyFlagUnset
  else .ok ()

end Validators

/-- An action is a byte, of which two are valid. -/
abbrev MosaicSupplyChangeAction := UInt8

def decreaseAction : MosaicSupplyChangeAction := 0

def increaseAction : MosaicSupplyChangeAction := 1

def mosaicSupplyChangeValidator (action : MosaicSupplyChangeAction) (delta : Amount) : Except MosaicFailure Unit :=
  if ¬(action ≤ increaseAction) then .error .invalidSupplyChangeAction
  else if delta = 0 then .error .invalidSupplyChangeAmount
  else .ok ()

/-- A mosaic that the account does not own yet needs a place. -/
def checkMaxMosaics (state : LedgerState) (maxMosaics : UInt16) (mosaicId : MosaicId) (address : Address) :
    Except LedgerError Unit := do
  let account ← findAccount state address
  if account.balances.get mosaicId ≠ 0 then return
  else if maxMosaics.toNat ≤ account.balances.size then throw (.failure .maxMosaicsExceeded)
  else return

def maxMosaicsSupplyChangeValidator (state : LedgerState) (maxMosaics : UInt16) (mosaicId : MosaicId) (owner : Address)
    (action : MosaicSupplyChangeAction) : Except LedgerError Unit :=
  if action = decreaseAction then .ok () else checkMaxMosaics state maxMosaics mosaicId owner

def mosaicSupplyChangeAllowedValidator (state : LedgerState) (maxAtomicUnits : Amount) (mosaicId : MosaicId) (owner : Address)
    (action : MosaicSupplyChangeAction) (delta : Amount) : Except LedgerError Unit :=
  match state.mosaics.find mosaicId with
  | none => .error (.mosaicException (.mosaicNotInCache mosaicId))
  | some entry => do
    let ownerAmount := (← findAccount state owner).balances.get mosaicId
    if !entry.definition.properties.is supplyMutable && ownerAmount ≠ entry.supply then throw (.failure .supplyImmutable)
    else if action = decreaseAction then
      if ownerAmount < delta then throw (.failure .supplyNegative) else return
    else if entry.supply + delta < entry.supply || entry.supply + delta > maxAtomicUnits then throw (.failure .supplyExceeded)
    else return

/-- The rollback of a change merges the same differences. -/
def mergeProperties (current notification : MosaicProperties) (mode : NotifyMode) : MosaicProperties :=
  ⟨current.flags ^^^ notification.flags, current.divisibility ^^^ notification.divisibility,
    match mode with
    | .commit => current.duration + notification.duration
    | .rollback => current.duration - notification.duration⟩

/-- The new entry has no supply. -/
def applyNotification (entry : MosaicEntry) (owner : Address) (mosaicId : MosaicId) (properties : MosaicProperties)
    (mode : NotifyMode) : MosaicEntry :=
  let revision :=
    match mode with
    | .commit => entry.definition.revision + 1
    | .rollback => entry.definition.revision - 1
  ⟨mosaicId, ⟨entry.definition.startHeight, owner, revision, mergeProperties entry.definition.properties properties mode⟩, 0⟩

/-- The rollback of the first revision removes the mosaic. -/
def mosaicDefinitionObserver (mode : NotifyMode) (height : Height) (mosaics : MosaicCacheDelta) (owner : Address)
    (mosaicId : MosaicId) (properties : MosaicProperties) : Except MosaicException MosaicCacheDelta :=
  match mosaics.find mosaicId with
  | some entry => do
    let removed ← mosaics.remove mosaicId
    if mode = .rollback ∧ entry.definition.revision = 1 then return removed
    else removed.insert (applyNotification entry owner mosaicId properties mode)
  | none => mosaics.insert ⟨mosaicId, ⟨height, owner, 1, properties⟩, 0⟩

def shouldIncrease (mode : NotifyMode) (action : MosaicSupplyChangeAction) : Bool :=
  (mode = .commit && action = increaseAction) || (mode = .rollback && action = decreaseAction)

/-- The supply and the balance of the owner change together. -/
def mosaicSupplyChangeObserver (mode : NotifyMode) (state : LedgerState) (owner : Address) (mosaicId : MosaicId)
    (action : MosaicSupplyChangeAction) (delta : Amount) : Except LedgerError LedgerState := do
  let account ← findAccount state owner
  if shouldIncrease mode action then
    let balances ← (account.balances.credit mosaicId delta).mapError .accountException
    let mosaics ← observed (state.mosaics.modify mosaicId fun entry => entry.increaseSupply delta)
    return ⟨state.accounts.insert owner { account with balances := balances }, mosaics⟩
  else
    let balances ← (account.balances.debit mosaicId delta).mapError .accountException
    let mosaics ← observed (state.mosaics.modify mosaicId fun entry => entry.decreaseSupply delta)
    return ⟨state.accounts.insert owner { account with balances := balances }, mosaics⟩

/-- The ids of supply changes may be aliases. -/
inductive MosaicNotification where
  | definition (owner : Address) (nonce : MosaicNonce) (mosaicId : MosaicId) (properties : MosaicProperties)
  | supplyChange (owner : Address) (mosaicId : MosaicId) (action : MosaicSupplyChangeAction) (delta : Amount)

/-- A notification is processed at the height of its block with the resolvers of its transaction. -/
structure MosaicDelivery where
  height : Height
  resolvers : ResolverContext
  notification : MosaicNotification

def validate [Sha3] (config : MosaicConfiguration) (state : LedgerState) (delivery : MosaicDelivery) : Except LedgerError Unit :=
  match delivery.notification with
  | .definition owner nonce mosaicId properties => validated do
      mosaicIdValidator owner nonce mosaicId
      mosaicFlagsValidator config.treasuryReissuance delivery.height properties
      mosaicAvailabilityValidator state.mosaics mosaicId delivery.height owner properties
      mosaicDivisibilityValidator state.mosaics mosaicId config.maxMosaicDivisibility properties
      mosaicDurationValidator state.mosaics mosaicId config.maxMosaicDuration properties
  | .supplyChange owner unresolvedId action delta => do
    let mosaicId := delivery.resolvers.resolveMosaic unresolvedId
    validated (mosaicSupplyChangeValidator action delta)
    validated (requiredMosaicValidator state.mosaics mosaicId delivery.height owner 0)
    maxMosaicsSupplyChangeValidator state config.maxMosaicsPerAccount mosaicId owner action
    mosaicSupplyChangeAllowedValidator state config.maxMosaicAtomicUnits mosaicId owner action delta

def observe (mode : NotifyMode) (state : LedgerState) (delivery : MosaicDelivery) : Except LedgerError LedgerState :=
  match delivery.notification with
  | .definition owner _ mosaicId properties =>
    (observed (mosaicDefinitionObserver mode delivery.height state.mosaics owner mosaicId properties)).map fun mosaics =>
      { state with mosaics := mosaics }
  | .supplyChange owner unresolvedId action delta =>
    mosaicSupplyChangeObserver mode state owner (delivery.resolvers.resolveMosaic unresolvedId) action delta

def execute [Sha3] (config : MosaicConfiguration) (state : LedgerState) (delivery : MosaicDelivery) :
    Except LedgerError LedgerState := do
  validate config state delivery
  observe .commit state delivery

end Catapult.Mosaics
