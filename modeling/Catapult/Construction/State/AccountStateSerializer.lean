import Catapult.Construction.State.AccountState
import Catapult.Library.ByteStream

/-
This file models how account states are saved, loaded, copied and found in the account state cache, and how the users of the cache change them.
-/

namespace Catapult.State

open Finalization (PinnedVotingKey)
open ByteStream

namespace Codecs

def mosaic : Codec Mosaic := .pair .word64 .word64

def snapshot : Codec ImportanceSnapshot :=
  (Codec.pair .word64 .word64).via (fun snapshot => (snapshot.importance, snapshot.height))
    (fun value => ⟨value.1, value.2⟩) fun _ => rfl

def bucket : Codec ActivityBucket :=
  (Codec.pair .word64 (.pair .word64 (.pair .word32 .word64))).via
    (fun bucket => (bucket.startHeight, bucket.totalFeesPaid, bucket.beneficiaryCount, bucket.rawScore))
    (fun value => ⟨⟨value.2.1, value.2.2.1, value.2.2.2⟩, value.1⟩) fun _ => rfl

def pinnedVotingKey : Codec PinnedVotingKey :=
  (Codec.pair (.array 32) (.pair .word32 .word32)).via (fun key => (key.votingKey, key.startEpoch, key.endEpoch))
    (fun value => ⟨value.1, value.2.1, value.2.2⟩) fun _ => rfl

end Codecs

/-- High value accounts save their current importance before their mosaics. -/
def formatByte (state : AccountState) : UInt8 :=
  if AccountImportanceSnapshots.active state.importanceSnapshots then 1 else 0

def writeAll {α : Type} (codec : Codec α) (values : List α) : List UInt8 := values.flatMap codec.write

/-- Keys that are not set are left out. -/
def writeKey {size : Nat} (key : Option (Vector UInt8 size)) : List UInt8 :=
  if AccountPublicKeys.isSet key then (Codec.array size).write (AccountPublicKeys.getKey key) else []

def writeSupplementalPublicKeys (keys : AccountPublicKeys) : List UInt8 :=
  Codec.word8.write keys.mask ++ Codec.word8.write (UInt8.ofNat keys.voting.length) ++ writeKey keys.linked ++
    writeKey keys.node ++ writeKey keys.vrf ++ writeAll Codecs.pinnedVotingKey keys.voting

/-- The values of a range are written. -/
def writeRange {α : Type} (codec : Codec α) (values : List α) (start count : Nat) : List UInt8 :=
  writeAll codec ((values.drop start).take count)

/-- The patricia tree holds the hashes of these bytes. -/
def saveNonHistorical (state : AccountState) : List UInt8 :=
  (Codec.array 24).write state.address ++ Codec.word64.write state.addressHeight ++
    (Codec.array 1312).write state.publicKey ++ Codec.word64.write state.publicKeyHeight ++
    Codec.word8.write state.accountType.toByte ++ Codec.word8.write (formatByte state) ++
    writeSupplementalPublicKeys state.supplementalPublicKeys ++
    (if AccountImportanceSnapshots.active state.importanceSnapshots then
      writeRange Codecs.snapshot state.importanceSnapshots.toList 0 (importanceHistorySize - rollbackBufferSize) ++
        writeRange Codecs.bucket state.activityBuckets.toList 0 (activityBucketHistorySize - rollbackBufferSize)
    else []) ++
    Codec.word16.write (UInt16.ofNat state.balances.size) ++ writeAll Codecs.mosaic state.balances.toList

def save (state : AccountState) : List UInt8 :=
  saveNonHistorical state ++
    if AccountImportanceSnapshots.active state.importanceSnapshots then
      writeRange Codecs.snapshot state.importanceSnapshots.toList (importanceHistorySize - rollbackBufferSize) rollbackBufferSize ++
        writeRange Codecs.bucket state.activityBuckets.toList (activityBucketHistorySize - rollbackBufferSize) rollbackBufferSize
    else
      writeRange Codecs.snapshot state.importanceSnapshots.toList 0 importanceHistorySize ++
        writeRange Codecs.bucket state.activityBuckets.toList 0 activityBucketHistorySize

abbrev Reader := ByteStream.Reader AccountError

def readValue {α : Type} (codec : Codec α) : Reader α := codec.take AccountError.endOfStream

def readValues {α : Type} (codec : Codec α) : Nat → Reader (List α)
  | 0 => pure []
  | count + 1 => do
    let value ← readValue codec
    let values ← readValues codec count
    return value :: values

def readSupplementalPublicKey {size : Nat} (isPresent : Bool) : Reader (Option (Vector UInt8 size)) :=
  if isPresent then do return some (← readValue (.array size)) else return none

def readVotingKeys : Nat → List PinnedVotingKey → Reader (List PinnedVotingKey)
  | 0, keys => pure keys
  | count + 1, keys => do
    let key ← readValue Codecs.pinnedVotingKey
    readVotingKeys count (← AccountPublicKeys.addVotingKey keys key)

def readSupplementalPublicKeys : Reader AccountPublicKeys := do
  let mask ← readValue .word8
  let numVotingKeys ← readValue .word8
  let linked ← readSupplementalPublicKey (mask &&& 1 ≠ 0)
  let node ← readSupplementalPublicKey (mask &&& 2 ≠ 0)
  let vrf ← readSupplementalPublicKey (mask &&& 4 ≠ 0)
  let voting ← readVotingKeys numVotingKeys.toNat []
  return ⟨linked, node, vrf, voting⟩

/-- The first mosaic in the stream becomes the optimized one. -/
def readMosaics : Nat → Nat → AccountBalances → Reader AccountBalances
  | 0, _, balances => pure balances
  | count + 1, index, balances => do
    let mosaic ← readValue Codecs.mosaic
    let credited ← balances.credit mosaic.1 mosaic.2
    if index = 0 then
      let optimized ← credited.optimize mosaic.1
      readMosaics count (index + 1) optimized
    else readMosaics count (index + 1) credited

/-- The snapshots and buckets that were read, in the order of the stream. -/
structure ImportanceReader where
  snapshots : List ImportanceSnapshot
  buckets : List ActivityBucket

namespace ImportanceReader

def empty : ImportanceReader := ⟨[], []⟩

def hasSnapshots (reader : ImportanceReader) : Bool := !reader.snapshots.isEmpty

def read (reader : ImportanceReader) (numSnapshots numBuckets : Nat) : Reader ImportanceReader := do
  let snapshots ← readValues Codecs.snapshot numSnapshots
  let buckets ← readValues Codecs.bucket numBuckets
  return ⟨reader.snapshots ++ snapshots, reader.buckets ++ buckets⟩

def applySnapshot (snapshots : AccountImportanceSnapshots) (snapshot : ImportanceSnapshot) :
    Except AccountError AccountImportanceSnapshots :=
  if snapshot.height = 0 then .ok (AccountImportanceSnapshots.pushEmpty snapshots)
  else AccountImportanceSnapshots.set snapshots snapshot.importance snapshot.height

def applyBucket (buckets : AccountActivityBuckets) (bucket : ActivityBucket) : Except AccountError AccountActivityBuckets :=
  if bucket.startHeight = 0 then .ok (AccountActivityBuckets.pushEmpty buckets)
  else AccountActivityBuckets.update buckets bucket.startHeight fun _ => bucket.toHeightDetachedActivityBucket

/-- The array is filled from its end, and missing values are default ones. -/
def oldestFirst {α : Type} [Inhabited α] (size : Nat) (values : List α) : List α :=
  List.replicate (size - values.length) default ++ values.reverse

def apply (reader : ImportanceReader) (state : AccountState) : Except AccountError AccountState := do
  let snapshots ← (oldestFirst importanceHistorySize reader.snapshots).foldlM applySnapshot state.importanceSnapshots
  let buckets ← (oldestFirst activityBucketHistorySize reader.buckets).foldlM applyBucket state.activityBuckets
  return { state with importanceSnapshots := snapshots, activityBuckets := buckets }

end ImportanceReader

def readImportances (format : UInt8) : Reader ImportanceReader :=
  if format = 1 then
    ImportanceReader.empty.read (importanceHistorySize - rollbackBufferSize) (activityBucketHistorySize - rollbackBufferSize)
  else if format = 0 then return .empty
  else throw (.unsupportedFormat format)

def loadAccountStateWithoutHistory : Reader (AccountState × ImportanceReader) := do
  let address ← readValue (.array 24)
  let addressHeight ← readValue .word64
  let publicKey ← readValue (.array 1312)
  let publicKeyHeight ← readValue .word64
  let accountType ← readValue .word8
  let format ← readValue .word8
  let supplementalPublicKeys ← readSupplementalPublicKeys
  let importanceReader ← readImportances format
  let numMosaics ← readValue .word16
  let balances ← readMosaics numMosaics.toNat 0 .empty
  return ({ AccountState.create address addressHeight with
    publicKey := publicKey
    publicKeyHeight := publicKeyHeight
    accountType := .ofByte accountType
    supplementalPublicKeys := supplementalPublicKeys
    balances := balances }, importanceReader)

def readHistory (importanceReader : ImportanceReader) : Reader ImportanceReader :=
  if importanceReader.hasSnapshots then importanceReader.read rollbackBufferSize rollbackBufferSize
  else importanceReader.read importanceHistorySize activityBucketHistorySize

def load : Reader AccountState := do
  let loaded ← loadAccountStateWithoutHistory
  let completed ← readHistory loaded.2
  completed.apply loaded.1

/-- The state that a restart reads from the saved bytes. -/
def reload (state : AccountState) : Except AccountError AccountState := (load (save state)).map Prod.fst

namespace AccountState

def copy (state : AccountState) : Except AccountError AccountState := do
  return { state with balances := ← state.balances.copy }

def optimize (state : AccountState) (id : MosaicId) : Except AccountError AccountState := do
  return { state with balances := ← state.balances.optimize id }

end AccountState

/-- The currency mosaic is optimized before an account of the cache can be changed. -/
def prepareMutableIterator (currencyMosaicId : MosaicId) (state : AccountState) : Except AccountError AccountState :=
  state.optimize currencyMosaicId

/-- A copy of a new account is inserted. -/
def addAccount (currencyMosaicId : MosaicId) (state : AccountState) : Except AccountError AccountState := do
  let inserted ← state.copy
  inserted.optimize currencyMosaicId

/-- A consumer changes the values of a bucket, and a missing bucket is created if this is asked for. -/
inductive AccountOperation where
  | setPublicKey (publicKey : Key) (publicKeyHeight : Height)
  | setAccountType (accountType : UInt8)
  | setLinked (key : Key)
  | unsetLinked
  | setNode (key : Key)
  | unsetNode
  | setVrf (key : VrfPublicKey)
  | unsetVrf
  | addVotingKey (key : PinnedVotingKey)
  | removeVotingKey (key : PinnedVotingKey)
  | setSnapshot (importance : Importance) (height : ImportanceHeight)
  | pushSnapshot
  | popSnapshot
  | updateBucket (height : ImportanceHeight) (consumer : HeightDetachedActivityBucket → HeightDetachedActivityBucket)
      (shouldCreateNewBucket : Bool)
  | pushBucket
  | popBucket
  | clearHistory
  | credit (id : MosaicId) (amount : Amount)
  | debit (id : MosaicId) (amount : Amount)
  | optimize (id : MosaicId)
  | copy
  | reload

namespace AccountState

def setKeys (state : AccountState) (supplementalPublicKeys : AccountPublicKeys) : AccountState :=
  { state with supplementalPublicKeys }

def perform (state : AccountState) : AccountOperation → Except AccountError AccountState
  | .setPublicKey publicKey publicKeyHeight => .ok { state with publicKey, publicKeyHeight }
  | .setAccountType accountType => .ok { state with accountType := .ofByte accountType }
  | .setLinked key => do
    return state.setKeys { state.supplementalPublicKeys with
      linked := ← AccountPublicKeys.setKey state.supplementalPublicKeys.linked key }
  | .unsetLinked => .ok (state.setKeys { state.supplementalPublicKeys with linked := none })
  | .setNode key => do
    return state.setKeys { state.supplementalPublicKeys with
      node := ← AccountPublicKeys.setKey state.supplementalPublicKeys.node key }
  | .unsetNode => .ok (state.setKeys { state.supplementalPublicKeys with node := none })
  | .setVrf key => do
    return state.setKeys { state.supplementalPublicKeys with
      vrf := ← AccountPublicKeys.setKey state.supplementalPublicKeys.vrf key }
  | .unsetVrf => .ok (state.setKeys { state.supplementalPublicKeys with vrf := none })
  | .addVotingKey key => do
    return state.setKeys { state.supplementalPublicKeys with
      voting := ← AccountPublicKeys.addVotingKey state.supplementalPublicKeys.voting key }
  | .removeVotingKey key =>
    .ok (state.setKeys { state.supplementalPublicKeys with
      voting := AccountPublicKeys.removeVotingKey state.supplementalPublicKeys.voting key })
  | .setSnapshot importance height => do
    return { state with
      importanceSnapshots := ← AccountImportanceSnapshots.set state.importanceSnapshots importance height }
  | .pushSnapshot =>
    .ok { state with importanceSnapshots := AccountImportanceSnapshots.pushEmpty state.importanceSnapshots }
  | .popSnapshot => do return { state with importanceSnapshots := ← state.importanceSnapshots.pop }
  | .updateBucket height consumer shouldCreateNewBucket => do
    let updated ← AccountActivityBuckets.tryUpdateOrCreate state.activityBuckets height consumer shouldCreateNewBucket
    return { state with activityBuckets := updated.2 }
  | .pushBucket => .ok { state with activityBuckets := AccountActivityBuckets.pushEmpty state.activityBuckets }
  | .popBucket => do return { state with activityBuckets := ← state.activityBuckets.pop }
  | .clearHistory => .ok { state with importanceSnapshots := .empty, activityBuckets := .empty }
  | .credit id amount => do return { state with balances := ← state.balances.credit id amount }
  | .debit id amount => do return { state with balances := ← state.balances.debit id amount }
  | .optimize id => state.optimize id
  | .copy => state.copy
  | .reload => State.reload state

end AccountState

end Catapult.State
