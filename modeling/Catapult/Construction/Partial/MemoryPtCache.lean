import Catapult.Construction.State.AccountState
import Catapult.Construction.Unconfirmed.ProcessingNotificationSubscriber
import Catapult.Library.KeyedSet
import Mathlib.Data.Finset.Sort
import Mathlib.Data.Prod.Lex

/-
This file models the cache of partial transactions and their cosignatures.
-/

namespace Catapult.Partial

open State (Key)
open Unconfirmed (Timestamp)

abbrev FileSize := UInt64

abbrev Signature := Vector UInt8 2420

structure Cosignature where
  version : UInt64
  signerPublicKey : Key
  signature : Signature
  deriving DecidableEq

namespace Cosignature

/-- The fields of a cosignature are packed. -/
def size : Nat := 8 + 1312 + 2420

def toBytes (cosignature : Cosignature) : List UInt8 :=
  (List.range 8).map (fun index => UInt8.ofNat (cosignature.version.toNat >>> (8 * index))) ++
    cosignature.signerPublicKey.toList ++ cosignature.signature.toList

end Cosignature

/-- The cache reads only the size and the deadline of a transaction. -/
structure Transaction where
  size : UInt32
  deadline : Timestamp

structure DetachedTransactionInfo where
  entity : Transaction
  entityHash : Hash256
  extractedAddresses : Option (List Address)

structure TimestampedHash where
  time : Timestamp
  hash : Hash256

/-- Timestamped hashes are ordered by time and then by hash. -/
instance : LinearOrder TimestampedHash :=
  LinearOrder.lift' (fun timestampedHash => toLex (timestampedHash.time, timestampedHash.hash)) (by
    rintro ⟨time, hash⟩ ⟨otherTime, otherHash⟩ same
    obtain ⟨sameTime, sameHash⟩ := Prod.mk.inj (toLex_inj.mp same)
    exact congrArg₂ TimestampedHash.mk sameTime sameHash)

/-- The cosignatures are sorted by signer. -/
structure PtData where
  transactionInfo : DetachedTransactionInfo
  cosignaturesHash : Hash256
  cosignatures : List Cosignature

namespace PtData

def create (transactionInfo : DetachedTransactionInfo) : PtData := ⟨transactionInfo, zeroHash, []⟩

def entityHash (data : PtData) : Hash256 := data.transactionInfo.entityHash

def timestampedHash (data : PtData) : TimestampedHash := ⟨data.transactionInfo.entity.deadline, data.entityHash⟩

def hasCosignatory (data : PtData) (signer : Key) : Bool :=
  data.cosignatures.any fun cosignature => signer = cosignature.signerPublicKey

def calculateCosignaturesHash [Sha3] (cosignatures : List Cosignature) : Hash256 :=
  Sha3.sha3_256 (cosignatures.flatMap Cosignature.toBytes)

/-- A new cosignature is placed before the first one whose signer is not lower. -/
def add [Sha3] (data : PtData) (cosignature : Cosignature) : Option PtData :=
  if data.hasCosignatory cosignature.signerPublicKey then none
  else
    let cosignatures := data.cosignatures.orderedInsert
      (fun lhs rhs => lhs.signerPublicKey ≤ rhs.signerPublicKey) cosignature
    some { data with cosignatures, cosignaturesHash := calculateCosignaturesHash cosignatures }

/-- The bytes that the cache counts for a transaction and its cosignatures. -/
def numBytes (data : PtData) : UInt64 :=
  data.transactionInfo.entity.size.toUInt64 + UInt64.ofNat Cosignature.size * UInt64.ofNat data.cosignatures.length

end PtData

/-- The container holds one entry for each hash. -/
def ptDataKeying : Keying Hash256 PtData where
  toKey := PtData.entityHash
  place data others := others ++ [data]
  place_perm data others := List.perm_append_singleton data others

abbrev PtDataContainer := KeyedSet ptDataKeying

structure MemoryPtCache where
  maxCacheSize : FileSize
  cacheSize : FileSize
  transactionDataContainer : PtDataContainer
  timestampedHashes : Finset TimestampedHash

/-- Reading an entry that is missing has no defined behavior. -/
inductive PtCacheError where
  | missingEntry
  | endlessLoop

namespace MemoryPtCache

def create (maxCacheSize : FileSize) : MemoryPtCache := ⟨maxCacheSize, 0, .empty, ∅⟩

variable (cache : MemoryPtCache)

def find (hash : Hash256) : Option PtData := cache.transactionDataContainer.find hash

/-- A transaction that does not fit or is already there is refused; the difference is computed modulo the word size. -/
def add (transactionInfo : DetachedTransactionInfo) : Option MemoryPtCache :=
  let transactionSize := transactionInfo.entity.size.toUInt64
  if cache.maxCacheSize - cache.cacheSize < transactionSize then none
  else if (cache.find transactionInfo.entityHash).isSome then none
  else some { cache with
    transactionDataContainer := cache.transactionDataContainer.insert (.create transactionInfo)
    timestampedHashes := insert ⟨transactionInfo.entity.deadline, transactionInfo.entityHash⟩ cache.timestampedHashes
    cacheSize := cache.cacheSize + transactionSize }

/-- An entry is changed in place. -/
def replace (data : PtData) : PtDataContainer :=
  cache.transactionDataContainer.modify data.entityHash
    ⟨fun other => if other.entityHash = data.entityHash then data else other, fun other => by
      change PtData.entityHash (if other.entityHash = data.entityHash then data else other) = other.entityHash
      split
      · next same => exact same.symm
      · rfl⟩

/-- The size of the cache does not limit the cosignatures. -/
def addCosignature [Sha3] (parentHash : Hash256) (cosignature : Cosignature) : Option (DetachedTransactionInfo × MemoryPtCache) :=
  match cache.find parentHash with
  | none => none
  | some data =>
    match data.add cosignature with
    | none => none
    | some next => some (next.transactionInfo, { cache with
        transactionDataContainer := cache.replace next
        cacheSize := cache.cacheSize + UInt64.ofNat Cosignature.size })

def removeEntry (data : PtData) : MemoryPtCache :=
  { cache with
    timestampedHashes := cache.timestampedHashes.erase data.timestampedHash
    cacheSize := cache.cacheSize - data.numBytes
    transactionDataContainer := cache.transactionDataContainer.erase data.entityHash }

def remove (hash : Hash256) : Option (DetachedTransactionInfo × MemoryPtCache) :=
  match cache.find hash with
  | none => none
  | some data => some (data.transactionInfo, cache.removeEntry data)

/-- The timestamped hash that comes first. -/
def firstTimestampedHash : Option TimestampedHash := (cache.timestampedHashes.sort fun lhs rhs => lhs ≤ rhs).head?

/-- The loop ends at the first later timestamp; the fuel bounds its rounds. -/
def pruneLoop (timestamp : Timestamp) : Nat → MemoryPtCache → List DetachedTransactionInfo →
    Except PtCacheError (List DetachedTransactionInfo × MemoryPtCache)
  | fuel, cache, prunedInfos =>
    match cache.firstTimestampedHash with
    | none => .ok (prunedInfos, cache)
    | some first =>
      if timestamp < first.time then .ok (prunedInfos, cache)
      else
        match cache.find first.hash with
        | none => .error .missingEntry
        | some data =>
          match fuel with
          | 0 => .error .endlessLoop
          | fuel + 1 => pruneLoop timestamp fuel (cache.removeEntry data) (prunedInfos ++ [data.transactionInfo])

def prune (timestamp : Timestamp) : Except PtCacheError (List DetachedTransactionInfo × MemoryPtCache) :=
  pruneLoop timestamp cache.timestampedHashes.card cache []

/-- The entries are visited one after the other, and an entry is removed after the next one is known. -/
def prunePredicate (hashPredicate : Hash256 → Bool) : List DetachedTransactionInfo × MemoryPtCache :=
  cache.transactionDataContainer.elements.foldl (fun (prunedInfos, cache) data =>
    if hashPredicate data.entityHash then (prunedInfos ++ [data.transactionInfo], cache.removeEntry data)
    else (prunedInfos, cache)) ([], cache)

end MemoryPtCache

inductive PtCacheAction where
  | add (transactionInfo : DetachedTransactionInfo)
  | addCosignature (parentHash : Hash256) (cosignature : Cosignature)
  | remove (hash : Hash256)
  | prune (timestamp : Timestamp)
  | prunePredicate (hashPredicate : Hash256 → Bool)

/-- An operation that is refused leaves the cache as it was. -/
def MemoryPtCache.step [Sha3] (cache : MemoryPtCache) : PtCacheAction → Except PtCacheError MemoryPtCache
  | .add transactionInfo => .ok ((cache.add transactionInfo).getD cache)
  | .addCosignature parentHash cosignature => .ok (((cache.addCosignature parentHash cosignature).map Prod.snd).getD cache)
  | .remove hash => .ok (((cache.remove hash).map Prod.snd).getD cache)
  | .prune timestamp => (cache.prune timestamp).map Prod.snd
  | .prunePredicate hashPredicate => .ok (cache.prunePredicate hashPredicate).2

end Catapult.Partial
