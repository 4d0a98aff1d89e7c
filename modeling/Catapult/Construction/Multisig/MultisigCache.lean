import Catapult.Construction.Types
import Catapult.Library.SortedMap
import Mathlib.Data.Finset.Sort

/-
This file models the multisig cache, the recursive functions that read it and the checks of the cosignatures of an aggregate.
-/

namespace Catapult.Multisig

instance addressTrans : IsTrans Address fun lhs rhs => lhs ≤ rhs := inferInstance

instance addressAntisymm : Std.Antisymm fun lhs rhs : Address => lhs ≤ rhs := inferInstance

instance addressTotal : Std.Total fun lhs rhs : Address => lhs ≤ rhs := inferInstance

/-- An entry links an account to its cosignatories and to the accounts that it can cosign. -/
@[ext]
structure MultisigEntry where
  address : Address
  cosignatoryAddresses : Finset Address
  minApproval : UInt32
  minRemoval : UInt32
  multisigAddresses : Finset Address
  deriving DecidableEq

namespace MultisigEntry

def create (address : Address) : MultisigEntry := ⟨address, ∅, 0, 0, ∅⟩

def hasCosignatory (entry : MultisigEntry) (address : Address) : Bool :=
  address ∈ entry.cosignatoryAddresses

/-- An entry without links is not kept. -/
def isEmpty (entry : MultisigEntry) : Bool :=
  entry.cosignatoryAddresses = ∅ && entry.multisigAddresses = ∅

end MultisigEntry

/-- The cache maps accounts to entries. -/
abbrev MultisigCache := Address → Option MultisigEntry

namespace MultisigCache

def create : MultisigCache := fun _ => none

def contains (cache : MultisigCache) (address : Address) : Bool := (cache address).isSome

/-- An entry is changed through a mutable find. -/
def modify (cache : MultisigCache) (address : Address) (change : MultisigEntry → MultisigEntry) :
    MultisigCache := Function.update cache address ((cache address).map change)

end MultisigCache

/-- The levels above or below an account are visited recursively; the fuel bounds the recursion. -/
def findAll (linkedAddresses : MultisigEntry → Finset Address) (cache : MultisigCache) :
    Nat → Address → Finset Address → Option (Nat × Finset Address)
  | 0, _, _ => none
  | fuel + 1, address, addresses =>
    match cache address with
    | none => some (0, addresses)
    | some entry =>
      (linkedAddresses entry).sort.foldlM (fun (numLevels, addresses) linkedAddress => do
        let (levels, addresses) ← findAll linkedAddresses cache fuel linkedAddress
          (insert linkedAddress addresses)
        return (max numLevels (levels + 1), addresses)) (0, addresses)

def findAncestors : MultisigCache → Nat → Address → Finset Address → Option (Nat × Finset Address) :=
  findAll MultisigEntry.multisigAddresses

def findDescendants : MultisigCache → Nat → Address → Finset Address → Option (Nat × Finset Address) :=
  findAll MultisigEntry.cosignatoryAddresses

/-- The number of required cosignatories depends on the kind of an embedded transaction. -/
inductive OperationType where
  | normal
  | removal
  | max
  deriving DecidableEq

def getMinRequiredCosignatories (entry : MultisigEntry) : OperationType → UInt32
  | .max => if entry.minRemoval < entry.minApproval then entry.minApproval else entry.minRemoval
  | .removal => entry.minRemoval
  | .normal => entry.minApproval

/-- An account is satisfied if it or enough of its cosignatories have signed. -/
def isSatisfied (cosignatories : Finset Address) (operationType : OperationType) (cache : MultisigCache) :
    Nat → Address → Option Bool
  | 0, _ => none
  | fuel + 1, address =>
    match cache address with
    | none => some (address ∈ cosignatories)
    | some entry =>
      if entry.cosignatoryAddresses = ∅ then some (address ∈ cosignatories)
      else do
        let numApprovers ← entry.cosignatoryAddresses.sort.foldlM
          (fun (numApprovers : UInt32) cosignatoryAddress => do
            let satisfied ← isSatisfied cosignatories operationType cache fuel cosignatoryAddress
            return numApprovers + if satisfied then 1 else 0) 0
        return getMinRequiredCosignatories entry operationType ≤ numApprovers

/-- A signer is marked if it is eligible; other accounts are not recorded. -/
def markEligible (cosignatories : Address → Option Bool) (address : Address) : Address → Option Bool :=
  Function.update cosignatories address ((cosignatories address).map fun _ => true)

/-- The accounts without cosignatories below an account are eligible. -/
def findEligibleCosignatories (cache : MultisigCache) : Nat → Address → (Address → Option Bool) → Option (Address → Option Bool)
  | 0, _, _ => none
  | fuel + 1, address, cosignatories =>
    match cache address with
    | none => some (markEligible cosignatories address)
    | some entry =>
      if entry.cosignatoryAddresses = ∅ then some (markEligible cosignatories address)
      else entry.cosignatoryAddresses.sort.foldlM (fun cosignatories cosignatoryAddress =>
        findEligibleCosignatories cache fuel cosignatoryAddress cosignatories) cosignatories

def entityTypeMultisigAccountModification : UInt16 := 0x4155

/-- The counts are read only from a multisig account modification. -/
structure EmbeddedTransaction (K : Type) where
  type : UInt16
  signerPublicKey : K
  addressAdditionsCount : UInt8
  addressDeletionsCount : UInt8

/-- The network derives addresses, the resolvers resolve them, and the plugins name further accounts. -/
structure CosignatureContext (K U : Type) where
  toAddress : K → Address
  resolve : U → Address
  additionalRequiredCosignatories : EmbeddedTransaction K → List U

def getOperationType {K : Type} (transaction : EmbeddedTransaction K) : OperationType :=
  if transaction.type ≠ entityTypeMultisigAccountModification then .normal
  else
    let hasAdds := transaction.addressAdditionsCount ≠ 0
    let hasDeletes := transaction.addressDeletionsCount ≠ 0
    if hasDeletes then if hasAdds then .max else .removal
    else .normal

variable {K U : Type} (context : CosignatureContext K U)

/-- The signer of the aggregate counts as a cosignatory. -/
def findCosignatories (signerPublicKey : K) (cosignatures : List K) : Finset Address :=
  insert (context.toAddress signerPublicKey) (cosignatures.map context.toAddress).toFinset

def findRequiredAddresses (transaction : EmbeddedTransaction K) : Finset Address :=
  insert (context.toAddress transaction.signerPublicKey)
    ((context.additionalRequiredCosignatories transaction).map context.resolve).toFinset

/-- All required accounts of an embedded transaction have to be satisfied. -/
def hasSufficientCosignatories (cache : MultisigCache) (fuel : Nat) (signerPublicKey : K) (cosignatures : List K)
    (transaction : EmbeddedTransaction K) : Option Bool :=
  (findRequiredAddresses context transaction).sort.allM
    (isSatisfied (findCosignatories context signerPublicKey cosignatures) (getOperationType transaction) cache fuel)

/-- The accounts that a transaction requires are visited one after the other. -/
def findTransactionCosignatories (cache : MultisigCache) (fuel : Nat) (cosignatories : Address → Option Bool)
    (transaction : EmbeddedTransaction K) : Option (Address → Option Bool) := do
  let marked ← findEligibleCosignatories cache fuel (context.toAddress transaction.signerPublicKey) cosignatories
  (context.additionalRequiredCosignatories transaction).foldlM (fun cosignatories requiredCosignatory =>
    findEligibleCosignatories cache fuel (context.resolve requiredCosignatory) cosignatories) marked

/-- A cosignatory that was not marked is ineligible. -/
def hasIneligibleCosignatories (cache : MultisigCache) (fuel : Nat) (signerPublicKey : K) (cosignatures : List K)
    (transactions : List (EmbeddedTransaction K)) : Option Bool := do
  let cosignatories := findCosignatories context signerPublicKey cosignatures
  let marked ← transactions.foldlM (findTransactionCosignatories context cache fuel)
    fun address => if address ∈ cosignatories then some false else none
  return cosignatories.sort.any fun address => marked address = some false

end Catapult.Multisig
