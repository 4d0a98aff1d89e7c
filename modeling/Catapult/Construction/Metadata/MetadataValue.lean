import Catapult.Construction.Lock.SecretLock
import Catapult.Library.ByteStream
import Mathlib.Data.Finmap

/-
This file models metadata entries with the validators and the observer that change their values.
-/

namespace Catapult.Metadata

open Lock (NotifyMode ResolverContext)

inductive MetadataType where
  | accountMetadata
  | mosaicMetadata
  | namespaceMetadata
  deriving DecidableEq

def MetadataType.toByte : MetadataType → UInt8
  | accountMetadata => 0
  | mosaicMetadata => 1
  | namespaceMetadata => 2

structure MetadataKey where
  sourceAddress : Address
  targetAddress : Address
  scopedMetadataKey : UInt64
  targetId : UInt64
  metadataType : MetadataType
  deriving DecidableEq

/-- The cache finds an entry by the hash of its key. -/
def MetadataKey.uniqueKey [Sha3] (key : MetadataKey) : Hash256 :=
  Sha3.sha3_256 (key.sourceAddress.toList ++ key.targetAddress.toList ++
    ByteStream.Codec.word64.write key.scopedMetadataKey ++ ByteStream.Codec.word64.write key.targetId ++
    [key.metadataType.toByte])

structure MetadataEntry where
  key : MetadataKey
  value : List UInt8
  deriving DecidableEq

abbrev MetadataCache := Finmap fun _ : Hash256 => MetadataEntry

/-- The value points to as many bytes as its size tells. -/
structure MetadataValueNotification where
  sourceAddress : Address
  targetAddress : Address
  scopedMetadataKey : UInt64
  targetType : MetadataType
  targetId : UInt64
  valueSizeDelta : Int16
  valueSize : UInt16
  value : List UInt8
  valueLength : value.length = valueSize.toNat

/-- A notification is processed with the resolvers of its transaction. -/
structure MetadataDelivery where
  resolvers : ResolverContext
  notification : MetadataValueNotification

/-- Aliases of the target address and of a mosaic are resolved. -/
def resolveMetadataKey (delivery : MetadataDelivery) : MetadataKey where
  sourceAddress := delivery.notification.sourceAddress
  targetAddress := delivery.resolvers.resolveAddress delivery.notification.targetAddress
  scopedMetadataKey := delivery.notification.scopedMetadataKey
  targetId :=
    match delivery.notification.targetType with
    | .accountMetadata => 0
    | .mosaicMetadata => delivery.resolvers.resolveMosaic delivery.notification.targetId
    | .namespaceMetadata => delivery.notification.targetId
  metadataType := delivery.notification.targetType

inductive MetadataResult where
  | success
  | valueTooSmall
  | valueTooLarge
  | valueSizeDeltaTooLarge
  | valueSizeDeltaMismatch
  | valueChangeIrreversible
  deriving DecidableEq

def metadataSizes (maxValueSize : UInt16) (notification : MetadataValueNotification) : MetadataResult :=
  if notification.valueSize = 0 then .valueTooSmall
  else if notification.valueSize.toNat < notification.valueSizeDelta.toInt.natAbs then .valueSizeDeltaTooLarge
  else if maxValueSize < notification.valueSize then .valueTooLarge
  else .success

/-- The last bytes of the value are equal to those of a buffer of the same size. -/
def canTrim (value buffer : List UInt8) (count : Nat) : Bool :=
  value.length = buffer.length && count ≤ value.length &&
    value.drop (buffer.length - count) = buffer.drop (buffer.length - count)

/-- The value is resized to the size of the buffer, and new bytes are zero. -/
def resize (value : List UInt8) (size : Nat) : List UInt8 := value.take size ++ List.replicate (size - value.length) 0

/-- The value is changed by its difference to the buffer. -/
def update (value buffer : List UInt8) : List UInt8 := List.zipWith (· ^^^ ·) (resize value buffer.length) buffer

/-- The sizes are compared as 16 bit values. -/
def expectedCacheValueSize (notification : MetadataValueNotification) : UInt16 :=
  if 0 < notification.valueSizeDelta then
    UInt16.ofInt (notification.valueSize.toNat - notification.valueSizeDelta.toInt)
  else notification.valueSize

def metadataValue [Sha3] (cache : MetadataCache) (delivery : MetadataDelivery) : MetadataResult :=
  let notification := delivery.notification
  match cache.lookup (resolveMetadataKey delivery).uniqueKey with
  | none =>
    if notification.valueSizeDelta.toInt = notification.valueSize.toNat then .success else .valueSizeDeltaMismatch
  | some entry =>
    if (expectedCacheValueSize notification).toNat ≠ entry.value.length then .valueSizeDeltaMismatch
    else if 0 ≤ notification.valueSizeDelta then .success
    else if canTrim entry.value notification.value (UInt16.ofInt (-notification.valueSizeDelta.toInt)).toNat then .success
    else .valueChangeIrreversible

/-- The number of bytes that the observer takes from the value, as a signed value. -/
def observedValueSize (mode : NotifyMode) (notification : MetadataValueNotification) : Int :=
  match mode with
  | .commit =>
    if notification.valueSizeDelta < 0 then notification.valueSize.toNat + notification.valueSizeDelta.toInt
    else notification.valueSize.toNat
  | .rollback =>
    if 0 < notification.valueSizeDelta then notification.valueSize.toNat - notification.valueSizeDelta.toInt
    else notification.valueSize.toNat

def updateCache [Sha3] (cache : MetadataCache) (metadataKey : MetadataKey) (valueBuffer : List UInt8) : MetadataCache :=
  match cache.lookup metadataKey.uniqueKey with
  | none => cache.insert metadataKey.uniqueKey ⟨metadataKey, update [] valueBuffer⟩
  | some entry =>
    if valueBuffer.length = 0 then cache.erase metadataKey.uniqueKey
    else cache.insert metadataKey.uniqueKey { entry with value := update entry.value valueBuffer }

/-- A negative size would become a large one. -/
def observeMetadataValue [Sha3] (mode : NotifyMode) (cache : MetadataCache) (delivery : MetadataDelivery) : MetadataCache :=
  let valueSize := (observedValueSize mode delivery.notification % 2 ^ 64).toNat
  updateCache cache (resolveMetadataKey delivery) (delivery.notification.value.take valueSize)

/-- The observer runs if the validators accept the notification. -/
def execute [Sha3] (maxValueSize : UInt16) (cache : MetadataCache) (delivery : MetadataDelivery) :
    Except MetadataResult MetadataCache :=
  match metadataSizes maxValueSize delivery.notification with
  | .success =>
    match metadataValue cache delivery with
    | .success => .ok (observeMetadataValue .commit cache delivery)
    | failure => .error failure
  | failure => .error failure

end Catapult.Metadata
