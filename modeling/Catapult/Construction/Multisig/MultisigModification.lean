import Catapult.Construction.Multisig.MultisigCache

/-
This file models multisig account modifications: their notifications, validators and observers.
-/

namespace Catapult.Multisig

/-- An unresolved address is a plain address or an alias. -/
abbrev UnresolvedAddress := Vector UInt8 24

/-- The signer of a modification is the multisig account; its numbers of addresses are stored in one byte. -/
structure MultisigModification where
  multisig : Address
  minRemovalDelta : Int8
  minApprovalDelta : Int8
  addressAdditions : List UnresolvedAddress
  addressDeletions : List UnresolvedAddress
  resolve : UnresolvedAddress → Address
  additionsCount : addressAdditions.length < 2 ^ 8
  deletionsCount : addressDeletions.length < 2 ^ 8

namespace MultisigModification

def additions (modification : MultisigModification) : List Address :=
  modification.addressAdditions.map modification.resolve

def deletions (modification : MultisigModification) : List Address :=
  modification.addressDeletions.map modification.resolve

/-- The cosignatories notification is published only if there are additions or deletions. -/
def changesCosignatories (modification : MultisigModification) : Bool :=
  0 < modification.addressAdditions.length || 0 < modification.addressDeletions.length

end MultisigModification

structure MultisigConfiguration where
  maxMultisigDepth : UInt8
  maxCosignatoriesPerAccount : UInt32
  maxCosignedAccountsPerAccount : UInt32

/-- These are the failures of the multisig validators. -/
inductive MultisigFailure where
  | multipleDeletes
  | redundantModification
  | accountInBothSets
  | maxCosignatories
  | maxCosignedAccounts
  | unknownMultisigAccount
  | alreadyACosignatory
  | notACosignatory
  | maxMultisigDepth
  | loop
  | minSettingOutOfRange
  | minSettingLargerThanNumCosignatories

/-- A modification is rejected, an entry that must exist is missing, or a recursion exceeds its fuel. -/
inductive MultisigError where
  | validation (failure : MultisigFailure)
  | notInCache (address : Address)
  | outOfFuel

inductive NotifyMode where
  | commit
  | rollback
  deriving DecidableEq

section Validators

variable (config : MultisigConfiguration) (cache : MultisigCache) (modification : MultisigModification)

def reject {α : Type} (failure : MultisigFailure) : Except MultisigError α := .error (.validation failure)

/-- Only unresolved addresses are compared. -/
def validateMultisigCosignatories : Except MultisigError Unit :=
  if 1 < modification.addressDeletions.length then reject .multipleDeletes
  else if modification.addressAdditions.length ≠ modification.addressAdditions.toFinset.card then
    reject .redundantModification
  else if modification.addressAdditions.any fun address => address ∈ modification.addressDeletions then
    reject .accountInBothSets
  else .ok ()

def validateMultisigMaxCosignedAccounts (cosignatory : Address) : Except MultisigError Unit :=
  match cache cosignatory with
  | none => .ok ()
  | some entry =>
    if config.maxCosignedAccountsPerAccount.toNat ≤ entry.multisigAddresses.card then
      reject .maxCosignedAccounts
    else .ok ()

/-- The number of cosignatories after the modification is a machine word; duplicates are counted. -/
def validateMultisigMaxCosignatories : Except MultisigError Unit :=
  let current : Int := match cache modification.multisig with
    | none => 0
    | some entry => entry.cosignatoryAddresses.card
  let numCosignatories : Int :=
    (current + (modification.addressAdditions.length - modification.addressDeletions.length)) % 2 ^ 64
  if config.maxCosignatoriesPerAccount.toNat < numCosignatories then reject .maxCosignatories
  else .ok ()

def validateMultisigInvalidCosignatories : Except MultisigError Unit :=
  match cache modification.multisig with
  | none =>
    if modification.addressDeletions.length = 0 then .ok () else reject .unknownMultisigAccount
  | some entry =>
    if modification.additions.any entry.hasCosignatory then reject .alreadyACosignatory
    else if modification.deletions.any fun address => !entry.hasCosignatory address then
      reject .notACosignatory
    else .ok ()

/-- The new settings are compared as signed 64 bit values. -/
def validateMultisigInvalidSettings : Except MultisigError Unit :=
  match cache modification.multisig with
  | none =>
    if -1 ≠ modification.minRemovalDelta ∨ -1 ≠ modification.minApprovalDelta then
      reject .minSettingOutOfRange
    else .ok ()
  | some entry =>
    let newMinRemoval : Int := entry.minRemoval.toNat + modification.minRemovalDelta.toInt
    let newMinApproval : Int := entry.minApproval.toNat + modification.minApprovalDelta.toInt
    let maxValue : Int := entry.cosignatoryAddresses.card
    if newMinRemoval < 1 ∨ newMinApproval < 1 then reject .minSettingOutOfRange
    else if maxValue < newMinRemoval ∨ maxValue < newMinApproval then
      reject .minSettingLargerThanNumCosignatories
    else .ok ()

def requireFuel {α : Type} : Option α → Except MultisigError α
  | none => .error .outOfFuel
  | some value => .ok value

/-- A new edge must neither exceed the depth nor close a loop. -/
def validateMultisigLoopAndLevel (fuel : Nat) (top bottom : Address) : Except MultisigError Unit := do
  let (numTopLevels, ancestors) ← requireFuel (findAncestors cache fuel top {top})
  let (numBottomLevels, descendants) ← requireFuel (findDescendants cache fuel bottom {bottom})
  if config.maxMultisigDepth.toNat < numTopLevels + numBottomLevels + 1 then reject .maxMultisigDepth
  else if ¬ Disjoint ancestors descendants then reject .loop
  else .ok ()

end Validators

/-- A missing entry is created. -/
def getMultisigEntry (cache : MultisigCache) (address : Address) : MultisigCache :=
  if cache.contains address then cache
  else Function.update cache address (some (MultisigEntry.create address))

def removeIfEmpty (cache : MultisigCache) (address : Address) : MultisigCache :=
  match cache address with
  | none => cache
  | some entry => if entry.isEmpty then Function.update cache address none else cache

def addCosignatory (multisig : Address) (cache : MultisigCache) (cosignatory : Address) : MultisigCache :=
  ((getMultisigEntry cache cosignatory).modify cosignatory fun entry =>
    { entry with multisigAddresses := insert multisig entry.multisigAddresses }).modify multisig
      fun entry => { entry with cosignatoryAddresses := insert cosignatory entry.cosignatoryAddresses }

/-- The entry of the removed cosignatory must exist. -/
def removeCosignatory (multisig : Address) (cache : MultisigCache) (cosignatory : Address) : Except MultisigError MultisigCache :=
  let unlinked := cache.modify multisig fun entry =>
    { entry with cosignatoryAddresses := entry.cosignatoryAddresses.erase cosignatory }
  match unlinked cosignatory with
  | none => .error (.notInCache cosignatory)
  | some _ => .ok (removeIfEmpty (unlinked.modify cosignatory fun entry =>
    { entry with multisigAddresses := entry.multisigAddresses.erase multisig }) cosignatory)

def addAll (multisig : Address) (shouldAdd : Bool) (addresses : List Address) (cache : MultisigCache) :
    Except MultisigError MultisigCache :=
  addresses.foldlM (fun cache cosignatory =>
    if shouldAdd then .ok (addCosignatory multisig cache cosignatory)
    else removeCosignatory multisig cache cosignatory) cache

/-- The entry of the multisig account is created first and removed at the end if it has no links. -/
def multisigCosignatoriesObserver (modification : MultisigModification) (mode : NotifyMode)
    (cache : MultisigCache) : Except MultisigError MultisigCache := do
  let opened := getMultisigEntry cache modification.multisig
  let added ← addAll modification.multisig (mode = .commit) modification.additions opened
  let changed ← addAll modification.multisig (mode ≠ .commit) modification.deletions added
  return removeIfEmpty changed modification.multisig

/-- The sum is computed modulo the word size. -/
def addDelta (value : UInt32) (mode : NotifyMode) (delta : Int8) : UInt32 :=
  match mode with
  | .commit => UInt32.ofInt (value.toNat + delta.toInt)
  | .rollback => UInt32.ofInt (value.toNat - delta.toInt)

/-- A rollback restores a missing entry before it changes the settings. -/
def multisigSettingsObserver (modification : MultisigModification) (mode : NotifyMode) (cache : MultisigCache) : MultisigCache :=
  if !cache.contains modification.multisig && mode = .commit then cache
  else (getMultisigEntry cache modification.multisig).modify modification.multisig fun entry =>
    { entry with
      minApproval := addDelta entry.minApproval mode modification.minApprovalDelta
      minRemoval := addDelta entry.minRemoval mode modification.minRemovalDelta }

/-- Every new cosignatory is validated before any of them is added. -/
def validateNewCosignatories (config : MultisigConfiguration) (fuel : Nat) (cache : MultisigCache)
    (modification : MultisigModification) : Except MultisigError Unit :=
  modification.additions.forM fun cosignatory => do
    validateMultisigMaxCosignedAccounts config cache cosignatory
    validateMultisigLoopAndLevel config cache fuel modification.multisig cosignatory

/-- The notifications about cosignatories are published only if there are additions or deletions. -/
def commitCosignatories (config : MultisigConfiguration) (fuel : Nat) (cache : MultisigCache)
    (modification : MultisigModification) : Except MultisigError MultisigCache :=
  if modification.changesCosignatories then do
    validateNewCosignatories config fuel cache modification
    validateMultisigCosignatories modification
    validateMultisigMaxCosignatories config cache modification
    validateMultisigInvalidCosignatories cache modification
    multisigCosignatoriesObserver modification .commit cache
  else .ok cache

/-- The notifications are validated and observed in the order of their publication. -/
def commitModification (config : MultisigConfiguration) (fuel : Nat) (cache : MultisigCache)
    (modification : MultisigModification) : Except MultisigError MultisigCache := do
  let changed ← commitCosignatories config fuel cache modification
  validateMultisigInvalidSettings changed modification
  return multisigSettingsObserver modification .commit changed

/-- A rollback observes the notifications in reverse order. -/
def rollbackModification (cache : MultisigCache) (modification : MultisigModification) : Except MultisigError MultisigCache :=
  let restored := multisigSettingsObserver modification .rollback cache
  if modification.changesCosignatories then multisigCosignatoriesObserver modification .rollback restored
  else .ok restored

end Catapult.Multisig
