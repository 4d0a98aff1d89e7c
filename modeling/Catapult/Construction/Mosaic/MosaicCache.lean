import Catapult.Construction.Types
import Mathlib.Data.Finmap

/-
This file models mosaic definitions and the mosaic cache with its groups of expiry heights.
-/

namespace Catapult.Mosaics

/-- The flags of a mosaic are the bits of a byte. -/
abbrev MosaicFlags := UInt8

def noFlags : MosaicFlags := 0

def supplyMutable : MosaicFlags := 1

def revokable : MosaicFlags := 8

def allFlags : MosaicFlags := 15

structure MosaicProperties where
  flags : MosaicFlags
  divisibility : UInt8
  duration : BlockDuration
  deriving DecidableEq

def MosaicProperties.is (properties : MosaicProperties) (testedFlag : MosaicFlags) : Bool :=
  testedFlag = testedFlag &&& properties.flags

structure MosaicDefinition where
  startHeight : Height
  ownerAddress : Address
  revision : UInt32
  properties : MosaicProperties
  deriving DecidableEq

/-- A duration of zero is eternal. -/
def MosaicDefinition.isEternal (definition : MosaicDefinition) : Bool := definition.properties.duration = 0

def MosaicDefinition.isActive (definition : MosaicDefinition) (height : Height) : Bool :=
  definition.isEternal ||
    (height < definition.startHeight + definition.properties.duration && definition.startHeight ≤ height)

structure MosaicEntry where
  mosaicId : MosaicId
  definition : MosaicDefinition
  supply : Amount
  deriving DecidableEq

inductive MosaicFailure where
  | invalidId
  | idMismatch
  | invalidFlags
  | expired
  | ownerConflict
  | modificationNoChanges
  | modificationDisallowed
  | invalidDivisibility
  | invalidDuration
  | requiredPropertyFlagUnset
  | invalidSupplyChangeAction
  | invalidSupplyChangeAmount
  | maxMosaicsExceeded
  | supplyImmutable
  | supplyNegative
  | supplyExceeded
  | nonTransferable
  deriving DecidableEq

inductive MosaicException where
  | mosaicAlreadyInCache (mosaicId : MosaicId)
  | mosaicNotInCache (mosaicId : MosaicId)
  | accountNotInCache (address : Address)
  | supplyAboveMax (supply delta : Amount)
  | supplyBelowZero (supply delta : Amount)
  deriving DecidableEq

def MosaicEntry.increaseSupply (entry : MosaicEntry) (delta : Amount) : Except MosaicException MosaicEntry :=
  if entry.supply > UInt64.ofNat (2 ^ 64 - 1) - delta then .error (.supplyAboveMax entry.supply delta)
  else .ok { entry with supply := entry.supply + delta }

def MosaicEntry.decreaseSupply (entry : MosaicEntry) (delta : Amount) : Except MosaicException MosaicEntry :=
  if delta > entry.supply then .error (.supplyBelowZero entry.supply delta)
  else .ok { entry with supply := entry.supply - delta }

abbrev HeightGroups := Finmap fun _ : Height => Finset MosaicId

def addIdentifierWithGroup (groups : HeightGroups) (height : Height) (mosaicId : MosaicId) : HeightGroups :=
  groups.insert height (insert mosaicId ((groups.lookup height).getD ∅))

/-- A group that becomes empty is removed. -/
def removeIdentifierWithGroup (groups : HeightGroups) (height : Height) (mosaicId : MosaicId) : HeightGroups :=
  match groups.lookup height with
  | none => groups
  | some group =>
    if group.erase mosaicId = ∅ then groups.erase height else groups.insert height (group.erase mosaicId)

/-- Mosaics are found by their ids and grouped by their expiry heights. -/
structure MosaicCacheDelta where
  entryById : Finmap fun _ : MosaicId => MosaicEntry
  mosaicIdsByExpiryHeight : HeightGroups

namespace MosaicCacheDelta

def empty : MosaicCacheDelta := ⟨∅, ∅⟩

def getExpiryHeight (definition : MosaicDefinition) : Height := definition.startHeight + definition.properties.duration

def updateExpiryMap (groups : HeightGroups) (entry : MosaicEntry) : HeightGroups :=
  if entry.definition.isEternal then groups
  else addIdentifierWithGroup groups (getExpiryHeight entry.definition) entry.mosaicId

def find (cache : MosaicCacheDelta) (mosaicId : MosaicId) : Option MosaicEntry := cache.entryById.lookup mosaicId

/-- The exception keeps the cache from having two entries of one mosaic. -/
def insert (cache : MosaicCacheDelta) (entry : MosaicEntry) : Except MosaicException MosaicCacheDelta :=
  match cache.find entry.mosaicId with
  | some _ => .error (.mosaicAlreadyInCache entry.mosaicId)
  | none => .ok ⟨cache.entryById.insert entry.mosaicId entry, updateExpiryMap cache.mosaicIdsByExpiryHeight entry⟩

def remove (cache : MosaicCacheDelta) (mosaicId : MosaicId) : Except MosaicException MosaicCacheDelta :=
  match cache.find mosaicId with
  | none => .error (.mosaicNotInCache mosaicId)
  | some entry =>
    .ok ⟨cache.entryById.erase mosaicId,
      if entry.definition.isEternal then cache.mosaicIdsByExpiryHeight
      else removeIdentifierWithGroup cache.mosaicIdsByExpiryHeight (getExpiryHeight entry.definition) mosaicId⟩

/-- An entry is changed in place through a mutable find. -/
def modify (cache : MosaicCacheDelta) (mosaicId : MosaicId) (change : MosaicEntry → Except MosaicException MosaicEntry) :
    Except MosaicException MosaicCacheDelta :=
  match cache.find mosaicId with
  | none => .error (.mosaicNotInCache mosaicId)
  | some entry => (change entry).map fun changed => { cache with entryById := cache.entryById.insert mosaicId changed }

end MosaicCacheDelta

end Catapult.Mosaics
