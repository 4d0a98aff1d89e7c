import Catapult.Construction.Lock.SecretLock
import Catapult.Library.ByteStream
import Mathlib.Data.Finmap
import Mathlib.Data.Fintype.Card

/-
This file models account restrictions: their values, their validators and the observer of their modifications.
-/

namespace Catapult.Restrictions

open ByteStream
open Lock (NotifyMode ResolverContext)

abbrev AccountRestrictionFlags := UInt16

def addressFlag : AccountRestrictionFlags := 0x0001

def mosaicIdFlag : AccountRestrictionFlags := 0x0002

def transactionTypeFlag : AccountRestrictionFlags := 0x0004

def outgoingFlag : AccountRestrictionFlags := 0x4000

def blockFlag : AccountRestrictionFlags := 0x8000

inductive AccountRestrictionOperationType where
  | allow
  | block
  deriving DecidableEq

section Descriptor

variable (flags : AccountRestrictionFlags)

def directionalRestrictionFlags : AccountRestrictionFlags := flags &&& ~~~blockFlag

def restrictionFlags : AccountRestrictionFlags := flags &&& ~~~(outgoingFlag ||| blockFlag)

def operationType : AccountRestrictionOperationType := if blockFlag = blockFlag &&& flags then .block else .allow

end Descriptor

inductive AccountRestrictionModificationAction where
  | del
  | add
  deriving DecidableEq

abbrev RawValue := List UInt8

structure AccountRestrictionModification where
  modificationAction : AccountRestrictionModificationAction
  value : RawValue

inductive RestrictionError where
  | invalidValueSize (expected actual : Nat)
  | unknownRestrictionFlags (flags : AccountRestrictionFlags)
  | invalidRestrictionFlags
  | noModifications
  | redundantModification
  | invalidModification
  | modificationCountExceeded
  | valuesCountExceeded
  | invalidModificationAddress
  | invalidValue
  deriving DecidableEq

/-- The values form an ordered set. -/
structure AccountRestriction where
  restrictionDescriptor : AccountRestrictionFlags
  restrictionValueSize : Nat
  values : Finset RawValue
  deriving DecidableEq

namespace AccountRestriction

def create (flags : AccountRestrictionFlags) (valueSize : Nat) : AccountRestriction := ⟨flags ||| blockFlag, valueSize, ∅⟩

variable (restriction : AccountRestriction) (modification : AccountRestrictionModification)

/-- The operation type of a restriction without values may change. -/
def isOperationAllowed (type : AccountRestrictionOperationType) : Except RestrictionError Bool :=
  if restriction.restrictionValueSize ≠ modification.value.length then
    .error (.invalidValueSize restriction.restrictionValueSize modification.value.length)
  else
    let validOperationType := type = operationType restriction.restrictionDescriptor
    let validContainment :=
      match modification.modificationAction with
      | .add => modification.value ∉ restriction.values
      | .del => modification.value ∈ restriction.values
    .ok ((restriction.values = ∅ || validOperationType) && validContainment)

def update : Except RestrictionError AccountRestriction :=
  if restriction.restrictionValueSize ≠ modification.value.length then
    .error (.invalidValueSize restriction.restrictionValueSize modification.value.length)
  else
    match modification.modificationAction with
    | .add => .ok { restriction with values := insert modification.value restriction.values }
    | .del => .ok { restriction with values := restriction.values.erase modification.value }

/-- A restriction without values is a blocking one. -/
def allow : Except RestrictionError AccountRestriction :=
  (restriction.update modification).map fun updated =>
    let flags := directionalRestrictionFlags updated.restrictionDescriptor
    { updated with restrictionDescriptor := if updated.values = ∅ then flags ||| blockFlag else flags }

def block : Except RestrictionError AccountRestriction :=
  update { restriction with
    restrictionDescriptor := directionalRestrictionFlags restriction.restrictionDescriptor ||| blockFlag } modification

end AccountRestriction

/-- The restrictions of an account have four keys. -/
inductive RestrictionKey where
  | incomingAddress
  | incomingMosaic
  | outgoingAddress
  | outgoingTransactionType
  deriving DecidableEq

namespace RestrictionKey

instance : Fintype RestrictionKey where
  elems := {incomingAddress, incomingMosaic, outgoingAddress, outgoingTransactionType}
  complete key := by cases key <;> simp

def flags : RestrictionKey → AccountRestrictionFlags
  | incomingAddress => addressFlag
  | incomingMosaic => mosaicIdFlag
  | outgoingAddress => addressFlag ||| outgoingFlag
  | outgoingTransactionType => transactionTypeFlag ||| outgoingFlag

def valueSize : RestrictionKey → Nat
  | incomingAddress => 24
  | incomingMosaic => 8
  | outgoingAddress => 24
  | outgoingTransactionType => 2

def find (flags : AccountRestrictionFlags) : Except RestrictionError RestrictionKey :=
  match [incomingAddress, incomingMosaic, outgoingAddress, outgoingTransactionType].find? fun key =>
      key.flags = directionalRestrictionFlags flags with
  | none => .error (.unknownRestrictionFlags flags)
  | some key => .ok key

end RestrictionKey

structure AccountRestrictions where
  address : Address
  restrictions : RestrictionKey → AccountRestriction
  deriving DecidableEq

namespace AccountRestrictions

def create (address : Address) : AccountRestrictions := ⟨address, fun key => .create key.flags key.valueSize⟩

def isEmpty (restrictions : AccountRestrictions) : Bool := decide (∀ key, (restrictions.restrictions key).values = ∅)

end AccountRestrictions

abbrev AccountRestrictionCache := Finmap fun _ : Address => AccountRestrictions

abbrev EntityType := UInt16

/-- Addresses and mosaics may be aliases. -/
inductive RestrictionValue where
  | address (unresolved : Address)
  | mosaic (unresolved : MosaicId)
  | operation (entityType : EntityType)
  deriving DecidableEq

def toVector (resolvers : ResolverContext) : RestrictionValue → RawValue
  | .address unresolved => (resolvers.resolveAddress unresolved).toList
  | .mosaic unresolved => Codec.word64.write (resolvers.resolveMosaic unresolved)
  | .operation entityType => Codec.word16.write entityType

structure ModifyValueNotification where
  address : Address
  flags : AccountRestrictionFlags
  restrictionValue : RestrictionValue
  action : AccountRestrictionModificationAction

def invertModificationAction : AccountRestrictionModificationAction → AccountRestrictionModificationAction
  | .add => .del
  | .del => .add

/-- An entry is created for the first value and removed with the last one. -/
def observeNotification (mode : NotifyMode) (resolvers : ResolverContext) (cache : AccountRestrictionCache)
    (notification : ModifyValueNotification) : Except RestrictionError AccountRestrictionCache := do
  let restrictions := (cache.lookup notification.address).getD (.create notification.address)
  let key ← RestrictionKey.find (directionalRestrictionFlags notification.flags)
  let action :=
    match mode with
    | .commit => notification.action
    | .rollback => invertModificationAction notification.action
  let modification : AccountRestrictionModification := ⟨action, toVector resolvers notification.restrictionValue⟩
  let restriction ←
    match operationType notification.flags with
    | .allow => (restrictions.restrictions key).allow modification
    | .block => (restrictions.restrictions key).block modification
  let updated := { restrictions with restrictions := Function.update restrictions.restrictions key restriction }
  return if updated.isEmpty then cache.erase notification.address else cache.insert notification.address updated

/-- Every modification is accepted if there is no entry. -/
def valueModificationValidator (resolvers : ResolverContext) (cache : AccountRestrictionCache)
    (notification : ModifyValueNotification) : Except RestrictionError Unit :=
  match cache.lookup notification.address with
  | none => .ok ()
  | some restrictions => do
    let key ← RestrictionKey.find (directionalRestrictionFlags notification.flags)
    let modification : AccountRestrictionModification := ⟨notification.action, toVector resolvers notification.restrictionValue⟩
    if ← (restrictions.restrictions key).isOperationAllowed modification (operationType notification.flags) then return
    else throw .invalidModification

def accountOperationRestrictionType : EntityType := 0x4350

/-- An account cannot take the operation restriction transaction from itself. -/
def isSelfBlocking (cache : AccountRestrictionCache) (notification : ModifyValueNotification) (entityType : EntityType) : Bool :=
  let isRelevantEntityType := entityType = accountOperationRestrictionType
  let isAllow := operationType notification.flags = .allow
  match notification.action with
  | .del => isAllow && isRelevantEntityType
  | .add =>
    let numRestrictionValues :=
      match cache.lookup notification.address with
      | none => 0
      | some restrictions => (restrictions.restrictions .outgoingTransactionType).values.card
    (isAllow && !isRelevantEntityType && numRestrictionValues = 0) || (!isAllow && isRelevantEntityType)

/-- The values of the different types are checked by validators of their own. -/
def valueValidator (resolvers : ResolverContext) (cache : AccountRestrictionCache) (notification : ModifyValueNotification) :
    Except RestrictionError Unit :=
  match notification.restrictionValue with
  | .address unresolved =>
    if notification.address = resolvers.resolveAddress unresolved then .error .invalidModificationAddress else .ok ()
  | .mosaic _ => .ok ()
  | .operation entityType => if isSelfBlocking cache notification entityType then .error .invalidModification else .ok ()

def executeNotification (resolvers : ResolverContext) (cache : AccountRestrictionCache) (notification : ModifyValueNotification) :
    Except RestrictionError AccountRestrictionCache := do
  valueModificationValidator resolvers cache notification
  valueValidator resolvers cache notification
  observeNotification .commit resolvers cache notification

/-- The counts of additions and deletions are bytes. -/
structure RestrictionTransactionBody (V : Type) where
  signerAddress : Address
  flags : AccountRestrictionFlags
  additions : List V
  deletions : List V
  additionsCount : additions.length < 256
  deletionsCount : deletions.length < 256

inductive AccountRestrictionTransaction where
  | addressRestriction (body : RestrictionTransactionBody Address)
  | mosaicRestriction (body : RestrictionTransactionBody MosaicId)
  | operationRestriction (body : RestrictionTransactionBody EntityType)

def hasSingleFlag (flags : AccountRestrictionFlags) : Bool := flags ≠ 0 && flags &&& (flags - 1) = 0

def accountRestrictionFlagsValidator (flags : AccountRestrictionFlags) : Except RestrictionError Unit :=
  let stripped := restrictionFlags flags
  let directional := directionalRestrictionFlags flags
  let isValid :=
    if stripped = addressFlag then true
    else if stripped = mosaicIdFlag then hasSingleFlag directional
    else if stripped = transactionTypeFlag then decide (outgoingFlag = outgoingFlag &&& directional)
    else false
  if isValid then .ok () else .error .invalidRestrictionFlags

section Body

variable {V : Type} [DecidableEq V] (body : RestrictionTransactionBody V)

def modificationPresentValidator : Except RestrictionError Unit :=
  if 0 < body.additions.length ∨ 0 < body.deletions.length then .ok () else .error .noModifications

/-- Modifications are compared before aliases are resolved. -/
def redundantModificationValidator (cache : AccountRestrictionCache) : Except RestrictionError Unit :=
  if (body.additions ++ body.deletions).toFinset.card ≠ body.additions.length + body.deletions.length then
    .error .redundantModification
  else if body.deletions.length ≠ 0 ∧ (cache.lookup body.signerAddress).isNone then .error .invalidModification
  else .ok ()

/-- The number of remaining values is computed with words of 64 bits. -/
def maxAccountRestrictionValuesValidator (maxAccountRestrictionValues : UInt16) (cache : AccountRestrictionCache) :
    Except RestrictionError Unit :=
  if maxAccountRestrictionValues.toNat < body.additions.length + body.deletions.length then .error .modificationCountExceeded
  else
    match cache.lookup body.signerAddress with
    | none => .ok ()
    | some restrictions => do
      let key ← RestrictionKey.find (directionalRestrictionFlags body.flags)
      let numValues := UInt64.ofNat (restrictions.restrictions key).values.card + UInt64.ofNat body.additions.length -
        UInt64.ofNat body.deletions.length
      if maxAccountRestrictionValues.toNat < numValues.toNat then throw .valuesCountExceeded else return

/-- Additions are published before deletions. -/
def valueNotifications (wrap : V → RestrictionValue) : List ModifyValueNotification :=
  body.additions.map (fun value => ⟨body.signerAddress, body.flags, wrap value, .add⟩) ++
    body.deletions.map fun value => ⟨body.signerAddress, body.flags, wrap value, .del⟩

def validateBody (maxAccountRestrictionValues : UInt16) (cache : AccountRestrictionCache) : Except RestrictionError Unit := do
  accountRestrictionFlagsValidator body.flags
  modificationPresentValidator body
  redundantModificationValidator body cache
  maxAccountRestrictionValuesValidator body maxAccountRestrictionValues cache

end Body

/-- The types of added operations are types of transactions. -/
def operationValuesValidator (body : RestrictionTransactionBody EntityType) : Except RestrictionError Unit :=
  if body.additions.all fun entityType => entityType &&& 0xC000 = 0x4000 then .ok () else .error .invalidValue

def validateTransaction (maxAccountRestrictionValues : UInt16) (cache : AccountRestrictionCache) :
    AccountRestrictionTransaction → Except RestrictionError Unit
  | .addressRestriction body => validateBody body maxAccountRestrictionValues cache
  | .mosaicRestriction body => validateBody body maxAccountRestrictionValues cache
  | .operationRestriction body => do
    operationValuesValidator body
    validateBody body maxAccountRestrictionValues cache

def notifications : AccountRestrictionTransaction → List ModifyValueNotification
  | .addressRestriction body => valueNotifications body .address
  | .mosaicRestriction body => valueNotifications body .mosaic
  | .operationRestriction body => valueNotifications body .operation

/-- A transaction is processed with its own resolvers. -/
structure RestrictionDelivery where
  resolvers : ResolverContext
  transaction : AccountRestrictionTransaction

def execute (maxAccountRestrictionValues : UInt16) (cache : AccountRestrictionCache) (delivery : RestrictionDelivery) :
    Except RestrictionError AccountRestrictionCache := do
  validateTransaction maxAccountRestrictionValues cache delivery.transaction
  (notifications delivery.transaction).foldlM (executeNotification delivery.resolvers) cache

def rollback (cache : AccountRestrictionCache) (delivery : RestrictionDelivery) : Except RestrictionError AccountRestrictionCache :=
  (notifications delivery.transaction).reverse.foldlM (observeNotification .rollback delivery.resolvers) cache

end Catapult.Restrictions
