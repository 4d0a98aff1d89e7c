import Catapult.Construction.Lock.SecretLock
import Catapult.Library.ByteStream
import Catapult.Library.SortedMap
import Mathlib.Data.Finmap

/-
This file models mosaic restrictions: their rules, their validators, their observers and their saved bytes.
-/

namespace Catapult.MosaicRestriction

open ByteStream
open Lock (NotifyMode ResolverContext)

/-- A restriction type is a byte, and zero means that there is no restriction. -/
abbrev MosaicRestrictionType := UInt8

def restrictionTypeNone : MosaicRestrictionType := 0

structure RestrictionRule where
  referenceMosaicId : MosaicId
  restrictionValue : UInt64
  restrictionType : MosaicRestrictionType
  deriving DecidableEq

/-- Pairs of keys and values are kept in the order in which the keys were added. -/
abbrev RestrictionValueMap (Rule : Type) := List (UInt64 × Rule)

namespace RestrictionValueMap

variable {Rule : Type}

/-- The keys form an ordered set. -/
def keys (map : RestrictionValueMap Rule) : List UInt64 :=
  (map.foldl (fun keys pair => SortedMap.insert (pair.1, ()) keys) []).map Prod.fst

def tryGet (map : RestrictionValueMap Rule) (key : UInt64) : Option Rule :=
  (map.find? fun pair => pair.1 = key).map Prod.snd

def set (key : UInt64) (value : Rule) : RestrictionValueMap Rule → RestrictionValueMap Rule
  | [] => [(key, value)]
  | pair :: pairs => if pair.1 = key then (key, value) :: pairs else pair :: set key value pairs

def remove (map : RestrictionValueMap Rule) (key : UInt64) : RestrictionValueMap Rule :=
  map.eraseP fun pair => pair.1 = key

end RestrictionValueMap

/-- Address restrictions are identified by a mosaic and an address, and global ones by a mosaic. -/
structure Restriction (Id Rule : Type) where
  id : Id
  rules : RestrictionValueMap Rule
  deriving DecidableEq

abbrev MosaicAddressRestriction := Restriction (MosaicId × Address) UInt64

abbrev MosaicGlobalRestriction := Restriction MosaicId RestrictionRule

inductive MosaicRestrictionEntry where
  | addressEntry (restriction : MosaicAddressRestriction)
  | globalEntry (restriction : MosaicGlobalRestriction)
  deriving DecidableEq

inductive RestrictionError where
  | notAnAddressRestriction
  | notAGlobalRestriction
  | previousValueMismatch
  | previousValueMustBeZero
  | cannotDeleteNonexistentRestriction
  | maxRestrictionsExceeded
  | unsupportedEntryType (entryType : UInt8)
  | endOfStream
  deriving DecidableEq

/-- The sentinel value of address restrictions triggers the removal of a value. -/
def sentinelRemovalValue : UInt64 := UInt64.ofNat (2 ^ 64 - 1)

def asAddressRestriction : MosaicRestrictionEntry → Except RestrictionError MosaicAddressRestriction
  | .addressEntry restriction => .ok restriction
  | .globalEntry _ => .error .notAnAddressRestriction

def asGlobalRestriction : MosaicRestrictionEntry → Except RestrictionError MosaicGlobalRestriction
  | .addressEntry _ => .error .notAGlobalRestriction
  | .globalEntry restriction => .ok restriction

/-- Global restrictions have the keys of address restrictions of the zero address. -/
def createMosaicRestrictionEntryKey [Sha3] (mosaicId : MosaicId) (address : Address) : Hash256 :=
  Sha3.sha3_256 (Codec.word64.write mosaicId ++ address.toList)

/-- What the two kinds of restrictions do differently. -/
structure RestrictionKind (Id Rule : Type) where
  wrap : Restriction Id Rule → MosaicRestrictionEntry
  unwrap : MosaicRestrictionEntry → Except RestrictionError (Restriction Id Rule)
  identity : Id → MosaicId × Address
  isRemoval : Rule → Bool
  isUnset : Rule → Bool
  isReadable : Rule → Bool
  unwrap_eq : ∀ entry restriction, unwrap entry = .ok restriction ↔ entry = wrap restriction
  removal_of_unset : ∀ rule, isUnset rule = true → isRemoval rule = true
  readable_of_stored : ∀ rule, isRemoval rule = false → isReadable rule = true

def addressKind : RestrictionKind (MosaicId × Address) UInt64 where
  wrap := .addressEntry
  unwrap := asAddressRestriction
  identity id := id
  isRemoval value := value = sentinelRemovalValue
  isUnset value := value = sentinelRemovalValue
  isReadable value := value ≠ sentinelRemovalValue
  unwrap_eq entry restriction := by cases entry <;> simp [asAddressRestriction]
  removal_of_unset _ unset := unset
  readable_of_stored value stored := by simpa using stored

def globalKind : RestrictionKind MosaicId RestrictionRule where
  wrap := .globalEntry
  unwrap := asGlobalRestriction
  identity id := (id, Vector.replicate 24 0)
  isRemoval rule := rule.restrictionType = restrictionTypeNone
  isUnset rule := rule.restrictionValue = 0 && rule.restrictionType = restrictionTypeNone
  isReadable _ := true
  unwrap_eq entry restriction := by cases entry <;> simp [asGlobalRestriction]
  removal_of_unset _ unset := (Bool.and_eq_true_iff.mp unset).2
  readable_of_stored _ _ := rfl

/-- A rule that encodes a removal removes the key. -/
def Restriction.set {Id Rule : Type} (kind : RestrictionKind Id Rule) (restriction : Restriction Id Rule) (key : UInt64)
    (rule : Rule) : Restriction Id Rule :=
  if kind.isRemoval rule then { restriction with rules := restriction.rules.remove key }
  else { restriction with rules := restriction.rules.set key rule }

/-- A notification names a restriction, a key and a rule. -/
structure NotificationFacade (Id Rule : Type) where
  kind : RestrictionKind Id Rule
  id : Id
  restrictionKey : UInt64
  rule : Rule

namespace NotificationFacade

variable {Id Rule : Type} (facade : NotificationFacade Id Rule)

def uniqueKey [Sha3] : Hash256 :=
  createMosaicRestrictionEntryKey (facade.kind.identity facade.id).1 (facade.kind.identity facade.id).2

def isDeleteAction : Bool := facade.kind.isRemoval facade.rule

def tryGet (entry : MosaicRestrictionEntry) : Except RestrictionError (Option Rule) :=
  (facade.kind.unwrap entry).map fun restriction =>
    (restriction.rules.tryGet facade.restrictionKey).filter facade.kind.isReadable

/-- The number of remaining rules is returned. -/
def update (entry : MosaicRestrictionEntry) : Except RestrictionError (MosaicRestrictionEntry × Nat) :=
  (facade.kind.unwrap entry).map fun restriction =>
    let updated := restriction.set facade.kind facade.restrictionKey facade.rule
    (facade.kind.wrap updated, updated.rules.length)

def isUnset : Bool := facade.kind.isUnset facade.rule

def isMatch [DecidableEq Rule] (rule : Rule) : Bool := rule = facade.rule

def toRestriction : MosaicRestrictionEntry := facade.kind.wrap ⟨facade.id, []⟩

end NotificationFacade

def getRestrictionCount : MosaicRestrictionEntry → Nat
  | .addressEntry restriction => restriction.rules.length
  | .globalEntry restriction => restriction.rules.length

abbrev MosaicRestrictionCache := Finmap fun _ : Hash256 => MosaicRestrictionEntry

section Processing

variable [Sha3] {Id Rule : Type} [DecidableEq Rule]

/-- The rule of the notification is read from the entry if there is one. -/
def findRule (cache : MosaicRestrictionCache) (facade : NotificationFacade Id Rule) : Except RestrictionError (Option Rule) :=
  match cache.lookup facade.uniqueKey with
  | none => .ok none
  | some entry => facade.tryGet entry

def mosaicRestrictionModificationValidator (cache : MosaicRestrictionCache) (facade : NotificationFacade Id Rule) :
    Except RestrictionError Unit := do
  match ← findRule cache facade with
  | some rule => if facade.isMatch rule then return else throw .previousValueMismatch
  | none => if facade.isUnset then return else throw .previousValueMustBeZero

def mosaicRestrictionMaxValuesValidator (maxMosaicRestrictionValues : UInt8) (cache : MosaicRestrictionCache)
    (facade : NotificationFacade Id Rule) : Except RestrictionError Unit :=
  match cache.lookup facade.uniqueKey with
  | none => if facade.isDeleteAction then throw .cannotDeleteNonexistentRestriction else return
  | some entry => do
    let isNewRule := (← facade.tryGet entry).isNone
    if facade.isDeleteAction && isNewRule then throw .cannotDeleteNonexistentRestriction
    else if facade.isDeleteAction || !isNewRule || getRestrictionCount entry < maxMosaicRestrictionValues.toNat then return
    else throw .maxRestrictionsExceeded

/-- An observer only reacts to its own mode, and an entry without rules is removed. -/
def observeNotification (requiredMode mode : NotifyMode) (cache : MosaicRestrictionCache)
    (facade : NotificationFacade Id Rule) : Except RestrictionError MosaicRestrictionCache :=
  if requiredMode ≠ mode then .ok cache
  else
    match cache.lookup facade.uniqueKey with
    | none => (facade.update facade.toRestriction).map fun updated => cache.insert facade.uniqueKey updated.1
    | some entry => (facade.update entry).map fun updated =>
      if updated.2 = 0 then cache.erase facade.uniqueKey else cache.insert facade.uniqueKey updated.1

end Processing

/-- The transactions carry the previous and the new value of a rule. -/
inductive RestrictionModification where
  | globalModification (mosaicId referenceMosaicId : MosaicId) (restrictionKey previousRestrictionValue newRestrictionValue : UInt64)
      (previousRestrictionType newRestrictionType : MosaicRestrictionType)
  | addressModification (mosaicId : MosaicId) (restrictionKey : UInt64) (targetAddress : Address)
      (previousRestrictionValue newRestrictionValue : UInt64)

/-- A transaction is processed with its own resolvers. -/
structure RestrictionDelivery where
  resolvers : ResolverContext
  modification : RestrictionModification

def globalFacade (resolvers : ResolverContext) (mosaicId referenceMosaicId : MosaicId) (restrictionKey restrictionValue : UInt64)
    (restrictionType : MosaicRestrictionType) : NotificationFacade MosaicId RestrictionRule :=
  ⟨globalKind, resolvers.resolveMosaic mosaicId, restrictionKey,
    ⟨resolvers.resolveMosaic referenceMosaicId, restrictionValue, restrictionType⟩⟩

def addressFacade (resolvers : ResolverContext) (mosaicId : MosaicId) (restrictionKey : UInt64) (targetAddress : Address)
    (restrictionValue : UInt64) : NotificationFacade (MosaicId × Address) UInt64 :=
  ⟨addressKind, (resolvers.resolveMosaic mosaicId, resolvers.resolveAddress targetAddress), restrictionKey, restrictionValue⟩

section Transactions

variable [Sha3]

/-- The notification of the previous value comes before the one of the new value. -/
def executeNotifications {Id Rule : Type} [DecidableEq Rule] (maxMosaicRestrictionValues : UInt8) (cache : MosaicRestrictionCache)
    (previous new : NotificationFacade Id Rule) : Except RestrictionError MosaicRestrictionCache := do
  mosaicRestrictionModificationValidator cache previous
  let observed ← observeNotification .rollback .commit cache previous
  mosaicRestrictionMaxValuesValidator maxMosaicRestrictionValues observed new
  observeNotification .commit .commit observed new

def rollbackNotifications {Id Rule : Type} (cache : MosaicRestrictionCache) (previous new : NotificationFacade Id Rule) :
    Except RestrictionError MosaicRestrictionCache := do
  let observed ← observeNotification .commit .rollback cache new
  observeNotification .rollback .rollback observed previous

def execute (maxMosaicRestrictionValues : UInt8) (cache : MosaicRestrictionCache) (delivery : RestrictionDelivery) :
    Except RestrictionError MosaicRestrictionCache :=
  match delivery.modification with
  | .globalModification mosaicId referenceMosaicId key previousValue newValue previousType newType =>
    executeNotifications maxMosaicRestrictionValues cache
      (globalFacade delivery.resolvers mosaicId referenceMosaicId key previousValue previousType)
      (globalFacade delivery.resolvers mosaicId referenceMosaicId key newValue newType)
  | .addressModification mosaicId key targetAddress previousValue newValue =>
    executeNotifications maxMosaicRestrictionValues cache
      (addressFacade delivery.resolvers mosaicId key targetAddress previousValue)
      (addressFacade delivery.resolvers mosaicId key targetAddress newValue)

def rollback (cache : MosaicRestrictionCache) (delivery : RestrictionDelivery) : Except RestrictionError MosaicRestrictionCache :=
  match delivery.modification with
  | .globalModification mosaicId referenceMosaicId key previousValue newValue previousType newType =>
    rollbackNotifications cache
      (globalFacade delivery.resolvers mosaicId referenceMosaicId key previousValue previousType)
      (globalFacade delivery.resolvers mosaicId referenceMosaicId key newValue newType)
  | .addressModification mosaicId key targetAddress previousValue newValue =>
    rollbackNotifications cache
      (addressFacade delivery.resolvers mosaicId key targetAddress previousValue)
      (addressFacade delivery.resolvers mosaicId key targetAddress newValue)

/-- The last transaction of the chain is rolled back first. -/
inductive ChainStep where
  | executed (delivery : RestrictionDelivery)
  | rolledBack

/-- The transactions of the chain are listed from the last to the first. -/
def advance (maxMosaicRestrictionValues : UInt8) : List RestrictionDelivery × MosaicRestrictionCache → ChainStep →
      Except RestrictionError (List RestrictionDelivery × MosaicRestrictionCache)
  | (chain, cache), .executed delivery =>
    (execute maxMosaicRestrictionValues cache delivery).map fun next => (delivery :: chain, next)
  | ([], cache), .rolledBack => .ok ([], cache)
  | (delivery :: chain, cache), .rolledBack => (rollback cache delivery).map fun next => (chain, next)

end Transactions

def ruleCodec : Codec RestrictionRule :=
  (Codec.pair .word64 (.pair .word64 .word8)).via
    (fun rule => (rule.referenceMosaicId, rule.restrictionValue, rule.restrictionType))
    (fun value => ⟨value.1, value.2.1, value.2.2⟩) fun _ => rfl

/-- The keys are written in their order, each with its payload. -/
def saveKeyValuePairs {Rule : Type} (codec : Codec Rule) (default : Rule) (map : RestrictionValueMap Rule) : List UInt8 :=
  Codec.word8.write (UInt8.ofNat map.keys.length) ++
    map.keys.flatMap fun key => Codec.word64.write key ++ codec.write ((map.tryGet key).getD default)

/-- A key without a rule would be written with a default rule. -/
def save : MosaicRestrictionEntry → List UInt8
  | .addressEntry restriction =>
    Codec.word8.write 0 ++ Codec.word64.write restriction.id.1 ++ (Codec.array 24).write restriction.id.2 ++
      saveKeyValuePairs .word64 sentinelRemovalValue restriction.rules
  | .globalEntry restriction =>
    Codec.word8.write 1 ++ Codec.word64.write restriction.id ++ saveKeyValuePairs ruleCodec ⟨0, 0, 0⟩ restriction.rules

abbrev Reader := ByteStream.Reader RestrictionError

def readValue {α : Type} (codec : Codec α) : Reader α := codec.take RestrictionError.endOfStream

def loadKeyValuePairs {Id Rule : Type} (kind : RestrictionKind Id Rule) (codec : Codec Rule) :
    Nat → Restriction Id Rule → Reader (Restriction Id Rule)
  | 0, restriction => pure restriction
  | count + 1, restriction => do
    let key ← readValue .word64
    let rule ← readValue codec
    loadKeyValuePairs kind codec count (restriction.set kind key rule)

def loadAddressRestriction : Reader MosaicAddressRestriction := do
  let mosaicId ← readValue .word64
  let address ← readValue (.array 24)
  let numKeys ← readValue .word8
  loadKeyValuePairs addressKind .word64 numKeys.toNat ⟨(mosaicId, address), []⟩

def loadGlobalRestriction : Reader MosaicGlobalRestriction := do
  let mosaicId ← readValue .word64
  let numKeys ← readValue .word8
  loadKeyValuePairs globalKind ruleCodec numKeys.toNat ⟨mosaicId, []⟩

def load : Reader MosaicRestrictionEntry := do
  let entryType ← readValue .word8
  if entryType = 0 then return .addressEntry (← loadAddressRestriction)
  else if entryType = 1 then return .globalEntry (← loadGlobalRestriction)
  else throw (.unsupportedEntryType entryType)

end Catapult.MosaicRestriction
