import Catapult.Construction.Lock.LockInfoCache

/-
This file models secret locks: their validators, their observers and the execution of blocks.
-/

namespace Catapult.Lock

/-- The serial number tells the locks of a run apart and is read by no function. -/
structure SecretLockInfo extends LockInfo where
  hashAlgorithm : UInt8
  secret : Hash256
  recipientAddress : Address
  compositeHash : Hash256
  serial : Nat

instance : IsLockInfo SecretLockInfo where
  lockIdentifier lock := lock.compositeHash
  lockInfo lock := lock.toLockInfo
  setStatus status lock := { lock with status }
  lockIdentifier_setStatus _ _ := rfl
  lockInfo_setStatus _ _ := rfl

/-- The hashers other than SHA3 come from the linked crypto library, too. -/
class LockHashers where
  bitcoin160 : List UInt8 → Vector UInt8 20
  sha256Double : List UInt8 → Hash256

/-- The composite hash identifies a lock by its secret and its recipient. -/
def calculateSecretLockInfoHash [Sha3] (secret : Hash256) (recipient : Address) : Hash256 :=
  Sha3.sha3_256 (secret.toList ++ recipient.toList)

/-- The algorithms are SHA3-256, the bitcoin hash of 160 bits and the double SHA-256. -/
def calculateHash [Sha3] [LockHashers] (hashAlgorithm : UInt8) (data : List UInt8) : Option Hash256 :=
  if hashAlgorithm = 0 then some (Sha3.sha3_256 data)
  else if hashAlgorithm = 1 then
    let hash := LockHashers.bitcoin160 data
    some (Vector.ofFn fun index => hash.toList.getD index 0)
  else if hashAlgorithm = 2 then some (LockHashers.sha256Double data)
  else none

/-- Aliases are resolved when a transaction is executed. -/
structure ResolverContext where
  resolveMosaic : MosaicId → MosaicId
  resolveAddress : Address → Address

inductive NotifyMode where
  | commit
  | rollback
  deriving DecidableEq

structure ObserverContext where
  mode : NotifyMode
  height : Height
  resolvers : ResolverContext

structure SecretLockTransaction where
  signerAddress : Address
  mosaicId : MosaicId
  amount : Amount
  duration : BlockDuration
  hashAlgorithm : UInt8
  secret : Hash256
  recipientAddress : Address

structure SecretProofTransaction where
  signerAddress : Address
  hashAlgorithm : UInt8
  secret : Hash256
  recipientAddress : Address
  proof : List UInt8

inductive LockTransaction where
  | secretLock (transaction : SecretLockTransaction)
  | secretProof (transaction : SecretProofTransaction)

/-- The heights are configured for forks that skip or force a rule. -/
structure SecretLockConfiguration where
  maxSecretLockDuration : BlockDuration
  minProofSize : UInt16
  maxProofSize : UInt16
  skipUniquenessHeights : List Height
  skipExpirationHeights : List Height
  forceExpirationHeights : List Height

inductive LockReceiptType where
  | completed
  | expired
  deriving DecidableEq

/-- A balance change credits or debits an account on behalf of a lock. -/
structure BalanceChange where
  mode : NotifyMode
  receiptType : LockReceiptType
  account : Address
  mosaicId : MosaicId
  amount : Amount
  height : Height
  serial : Nat
  deriving DecidableEq

/-- The state consists of the lock cache, the known accounts and a record of what has happened. -/
structure LockState where
  secretLockInfos : LockInfoCacheDelta SecretLockInfo
  accounts : List Address
  balanceChanges : List BalanceChange
  created : List SecretLockInfo
  proofs : List Nat

def LockState.create : LockState := ⟨.create, [], [], [], []⟩

/-- These are the failures of the secret lock validators. -/
inductive ValidationFailure where
  | invalidDuration
  | invalidHashAlgorithm
  | hashAlreadyExists
  | proofSizeOutOfBounds
  | secretMismatch
  | unknownCompositeKey
  | inactiveSecret
  | hashAlgorithmMismatch

inductive ExecutionError where
  | validation (failure : ValidationFailure)
  | cache (error : CacheError)
  | accountNotFound (account : Address)

section Validators

def validateDuration (config : SecretLockConfiguration) (transaction : SecretLockTransaction) : Except ValidationFailure Unit :=
  if 0 ≠ transaction.duration ∧ transaction.duration ≤ config.maxSecretLockDuration then .ok ()
  else .error .invalidDuration

def validateHashAlgorithm (hashAlgorithm : UInt8) : Except ValidationFailure Unit :=
  if hashAlgorithm ≤ 2 then .ok () else .error .invalidHashAlgorithm

variable [Sha3]

/-- A lock may be created again as soon as the previous lock is not active. -/
def validateCacheUnique (config : SecretLockConfiguration) (height : Height) (resolvers : ResolverContext)
    (state : LockState) (transaction : SecretLockTransaction) : Except ValidationFailure Unit :=
  if height ∈ config.skipUniquenessHeights then .ok ()
  else
    let key := calculateSecretLockInfoHash transaction.secret
      (resolvers.resolveAddress transaction.recipientAddress)
    if state.secretLockInfos.isActive key height then .error .hashAlreadyExists else .ok ()

def validateProofSecret [LockHashers] (config : SecretLockConfiguration)
    (transaction : SecretProofTransaction) : Except ValidationFailure Unit := do
  validateHashAlgorithm transaction.hashAlgorithm
  let size := transaction.proof.length
  if size < config.minProofSize.toNat ∨ config.maxProofSize.toNat < size then
    throw .proofSizeOutOfBounds
  if calculateHash transaction.hashAlgorithm transaction.proof = some transaction.secret then return ()
  else throw .secretMismatch

/-- A proof is accepted for the newest lock if that lock is active. -/
def validateProof (height : Height) (resolvers : ResolverContext) (state : LockState)
    (transaction : SecretProofTransaction) : Except ValidationFailure Unit :=
  let key := calculateSecretLockInfoHash transaction.secret
    (resolvers.resolveAddress transaction.recipientAddress)
  if !state.secretLockInfos.contains key then .error .unknownCompositeKey
  else if !state.secretLockInfos.isActive key height then .error .inactiveSecret
  else
    match (state.secretLockInfos.find key).bind LockInfoHistory.back with
    | some lock =>
      if lock.hashAlgorithm ≠ transaction.hashAlgorithm then .error .hashAlgorithmMismatch else .ok ()
    | none => .error .inactiveSecret

end Validators

section Observers

variable [Sha3]

/-- The account of a balance change must exist. -/
def changeBalance (state : LockState) (change : BalanceChange) : Except ExecutionError LockState :=
  if change.account ∈ state.accounts then
    .ok { state with balanceChanges := state.balanceChanges ++ [change] }
  else .error (.accountNotFound change.account)

/-- A lock ends a number of blocks after its creation; the sum of heights may wrap. -/
def createLockInfo (transaction : SecretLockTransaction) (context : ObserverContext) (serial : Nat) : SecretLockInfo where
  ownerAddress := transaction.signerAddress
  mosaicId := context.resolvers.resolveMosaic transaction.mosaicId
  amount := transaction.amount
  endHeight := context.height + transaction.duration
  status := .unused
  hashAlgorithm := transaction.hashAlgorithm
  secret := transaction.secret
  recipientAddress := context.resolvers.resolveAddress transaction.recipientAddress
  compositeHash := calculateSecretLockInfoHash transaction.secret
    (context.resolvers.resolveAddress transaction.recipientAddress)
  serial := serial

def liftCache {α : Type} (result : Except CacheError α) : Except ExecutionError α :=
  result.mapError .cache

/-- A rollback removes the newest lock of the composite hash. -/
def secretLockObserver (transaction : SecretLockTransaction) (context : ObserverContext)
    (state : LockState) : Except ExecutionError LockState :=
  match context.mode with
  | .commit => do
    let lockInfo := createLockInfo transaction context state.created.length
    let secretLockInfos ← liftCache (state.secretLockInfos.insert lockInfo)
    return { state with secretLockInfos, created := state.created ++ [lockInfo] }
  | .rollback => do
    let key := calculateSecretLockInfoHash transaction.secret
      (context.resolvers.resolveAddress transaction.recipientAddress)
    let secretLockInfos ← liftCache (state.secretLockInfos.remove key)
    return { state with secretLockInfos }

/-- A proof marks the newest lock as used and credits its recipient. -/
def proofObserver (transaction : SecretProofTransaction) (context : ObserverContext) (state : LockState) :
    Except ExecutionError LockState :=
  let key := calculateSecretLockInfoHash transaction.secret
    (context.resolvers.resolveAddress transaction.recipientAddress)
  match (state.secretLockInfos.find key).bind LockInfoHistory.back with
  | none => .error (.cache (.notInCache key))
  | some lock => do
    let status := match context.mode with
      | .commit => LockStatus.used
      | .rollback => LockStatus.unused
    let secretLockInfos ← liftCache (state.secretLockInfos.setStatus key status)
    let proofs := match context.mode with
      | .commit => lock.serial :: state.proofs
      | .rollback => state.proofs.erase lock.serial
    changeBalance { state with secretLockInfos, proofs } ⟨context.mode, .completed,
      lock.recipientAddress, lock.mosaicId, lock.amount, context.height, lock.serial⟩

/-- Only the newest lock of a history is refunded, and only if it ends at this height or by force. -/
def expiredSecretLockInfoObserver (config : SecretLockConfiguration) (context : ObserverContext)
    (state : LockState) : Except ExecutionError LockState :=
  if context.height ∈ config.skipExpirationHeights then .ok state
  else
    (state.secretLockInfos.processUnusedExpiredLocks context.height).foldlM (fun state lock =>
      if context.height = lock.endHeight ∨ context.height ∈ config.forceExpirationHeights then
        changeBalance state ⟨context.mode, .expired, lock.ownerAddress, lock.mosaicId, lock.amount, context.height, lock.serial⟩
      else .ok state) state

end Observers

variable [Sha3] [LockHashers]

def liftValidation (result : Except ValidationFailure Unit) : Except ExecutionError Unit :=
  result.mapError .validation

/-- The accounts of the signer and of the recipient exist once a transaction refers to them. -/
def executeTransaction (config : SecretLockConfiguration) (height : Height)
    (state : LockState) : LockTransaction × ResolverContext → Except ExecutionError LockState
  | (.secretLock transaction, resolvers) => do
    liftValidation (validateDuration config transaction)
    liftValidation (validateHashAlgorithm transaction.hashAlgorithm)
    liftValidation (validateCacheUnique config height resolvers state transaction)
    let accounts := resolvers.resolveAddress transaction.recipientAddress ::
      transaction.signerAddress :: state.accounts
    secretLockObserver transaction ⟨.commit, height, resolvers⟩ { state with accounts }
  | (.secretProof transaction, resolvers) => do
    liftValidation (validateHashAlgorithm transaction.hashAlgorithm)
    liftValidation (validateProofSecret config transaction)
    liftValidation (validateProof height resolvers state transaction)
    proofObserver transaction ⟨.commit, height, resolvers⟩
      { state with accounts := transaction.signerAddress :: state.accounts }

structure LockBlock where
  height : Height
  transactions : List (LockTransaction × ResolverContext)

/-- The block itself is executed after its transactions. -/
def executeBlock (config : SecretLockConfiguration) (state : LockState) (block : LockBlock) :
    Except ExecutionError LockState := do
  let executed ← block.transactions.foldlM (executeTransaction config block.height) state
  expiredSecretLockInfoObserver config ⟨.commit, block.height, ⟨id, id⟩⟩ executed

end Catapult.Lock
