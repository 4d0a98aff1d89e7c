import Catapult.Construction.Finalization.FinalizationContext
import Catapult.Construction.State.CompactMosaicMap

/-
This file models the state of an account with its balances, supplemental keys, importance snapshots and activity buckets, and the accessor of its voting keys.
-/

namespace Catapult.State

open Finalization (FinalizationEpoch VotingKey PinnedVotingKey)

deriving instance DecidableEq for PinnedVotingKey

abbrev Key := Vector UInt8 1312

abbrev VrfPublicKey := Vector UInt8 32

abbrev Importance := UInt64

abbrev ImportanceHeight := UInt64

def rollbackBufferSize : Nat := 2

def importanceHistorySize : Nat := 1 + rollbackBufferSize

def activityBucketHistorySize : Nat := 5 + rollbackBufferSize

inductive AccountError where
  | mosaicMap (error : MapError)
  | debitAboveBalance (id : MosaicId) (amount balance : Amount)
  | emptyStack
  | descendingImportances (last new : ImportanceHeight)
  | olderBucket (last new : ImportanceHeight)
  | keyAlreadySet
  | overlappingEpochs (key : PinnedVotingKey)
  | unsupportedFormat (format : UInt8)
  | endOfStream
  deriving DecidableEq

/-- The values that were pushed, from the newest to the oldest. -/
structure CompactArrayStack (T : Type) (size : Nat) where
  values : List T
  bounded : values.length ≤ size
  deriving DecidableEq

namespace CompactArrayStack

variable {T : Type} {size : Nat} [Inhabited T]

def empty : CompactArrayStack T size := ⟨[], Nat.zero_le _⟩

/-- An iteration always returns the same number of values. -/
def toList (stack : CompactArrayStack T size) : List T := stack.values ++ List.replicate (size - stack.values.length) default

def front (stack : CompactArrayStack T size) : T := stack.values.headD default

/-- The oldest value of a full stack is dropped. -/
def push (stack : CompactArrayStack T size) (value : T) : CompactArrayStack T size :=
  ⟨(value :: stack.values).take size, List.length_take_le _ _⟩

def pop (stack : CompactArrayStack T size) : Except AccountError (CompactArrayStack T size) :=
  if stack.values.isEmpty then .error .emptyStack
  else .ok ⟨stack.values.tail, (List.length_tail ▸ Nat.sub_le _ _).trans stack.bounded⟩

/-- The top value is changed in place. -/
def modifyTop (stack : CompactArrayStack T size) (change : T → T) : Except AccountError (CompactArrayStack T size) :=
  if stack.values.isEmpty then .error .emptyStack
  else .ok ⟨stack.values.modifyHead change, by rw [List.length_modifyHead]; exact stack.bounded⟩

end CompactArrayStack

structure ImportanceSnapshot where
  importance : Importance
  height : ImportanceHeight
  deriving DecidableEq, Inhabited

abbrev AccountImportanceSnapshots := CompactArrayStack ImportanceSnapshot importanceHistorySize

namespace AccountImportanceSnapshots

def isEmpty (snapshots : AccountImportanceSnapshots) : Bool := snapshots.toList.all fun snapshot => snapshot.height = 0

def height (snapshots : AccountImportanceSnapshots) : ImportanceHeight := snapshots.front.height

def active (snapshots : AccountImportanceSnapshots) : Bool := height snapshots ≠ 0

def current (snapshots : AccountImportanceSnapshots) : Importance := snapshots.front.importance

def get (snapshots : AccountImportanceSnapshots) (height : ImportanceHeight) : Importance :=
  match snapshots.toList.find? fun snapshot => snapshot.height = height with
  | some snapshot => snapshot.importance
  | none => 0

def set (snapshots : AccountImportanceSnapshots) (importance : Importance) (height : ImportanceHeight) :
    Except AccountError AccountImportanceSnapshots :=
  let lastHeight := AccountImportanceSnapshots.height snapshots
  if lastHeight ≠ 0 ∧ height ≤ lastHeight then .error (.descendingImportances lastHeight height)
  else .ok (snapshots.push ⟨importance, height⟩)

def pushEmpty (snapshots : AccountImportanceSnapshots) : AccountImportanceSnapshots := snapshots.push default

end AccountImportanceSnapshots

structure HeightDetachedActivityBucket where
  totalFeesPaid : Amount
  beneficiaryCount : UInt32
  rawScore : UInt64
  deriving DecidableEq, Inhabited

structure ActivityBucket extends HeightDetachedActivityBucket where
  startHeight : ImportanceHeight
  deriving DecidableEq, Inhabited

abbrev AccountActivityBuckets := CompactArrayStack ActivityBucket activityBucketHistorySize

namespace AccountActivityBuckets

def isEmpty (buckets : AccountActivityBuckets) : Bool := buckets.toList.all fun bucket => bucket.startHeight = 0

def get (buckets : AccountActivityBuckets) (height : ImportanceHeight) : ActivityBucket :=
  (buckets.toList.find? fun bucket => bucket.startHeight = height).getD default

/-- The outcome tells if there was a bucket to change. -/
def tryUpdateOrCreate (buckets : AccountActivityBuckets) (height : ImportanceHeight)
    (consumer : HeightDetachedActivityBucket → HeightDetachedActivityBucket) (shouldCreateNewBucket : Bool) :
    Except AccountError (Bool × AccountActivityBuckets) :=
  let lastHeight := buckets.front.startHeight
  let change := fun bucket : ActivityBucket =>
    { bucket with toHeightDetachedActivityBucket := consumer bucket.toHeightDetachedActivityBucket }
  if lastHeight ≠ 0 ∧ height < lastHeight then .error (.olderBucket lastHeight height)
  else if lastHeight < height then
    if shouldCreateNewBucket then
      ((buckets.push { (default : ActivityBucket) with startHeight := height }).modifyTop change).map fun updated =>
        (true, updated)
    else .ok (false, buckets)
  else (buckets.modifyTop change).map fun updated => (true, updated)

/-- A missing bucket is created. -/
def update (buckets : AccountActivityBuckets) (height : ImportanceHeight)
    (consumer : HeightDetachedActivityBucket → HeightDetachedActivityBucket) : Except AccountError AccountActivityBuckets :=
  (tryUpdateOrCreate buckets height consumer true).map Prod.snd

/-- A missing bucket is not created. -/
def tryUpdate (buckets : AccountActivityBuckets) (height : ImportanceHeight)
    (consumer : HeightDetachedActivityBucket → HeightDetachedActivityBucket) :
    Except AccountError (Bool × AccountActivityBuckets) :=
  tryUpdateOrCreate buckets height consumer false

def pushEmpty (buckets : AccountActivityBuckets) : AccountActivityBuckets := buckets.push default

end AccountActivityBuckets

structure AccountBalances where
  balances : CompactMosaicMap
  optimizedMosaicId : MosaicId
  deriving DecidableEq

namespace AccountBalances

def empty : AccountBalances := ⟨.empty, 0⟩

def size (balances : AccountBalances) : Nat := balances.balances.size

/-- The balances in the order of an iteration. -/
def toList (balances : AccountBalances) : List Mosaic :=
  balances.balances.iterateFrom balances.balances.size balances.balances.start

def get (balances : AccountBalances) (id : MosaicId) : Amount :=
  match balances.balances.find id with
  | none => 0
  | some mosaic => mosaic.2

/-- The amount may wrap around. -/
def credit (balances : AccountBalances) (id : MosaicId) (amount : Amount) : Except AccountError AccountBalances :=
  if amount = 0 then .ok balances
  else
    match balances.balances.find id with
    | none =>
      match balances.balances.insert (id, amount) with
      | .error error => .error (.mosaicMap error)
      | .ok map => .ok { balances with balances := map }
    | some mosaic => .ok { balances with balances := balances.balances.update id (mosaic.2 + amount) }

/-- An amount that becomes zero is erased. -/
def debit (balances : AccountBalances) (id : MosaicId) (amount : Amount) : Except AccountError AccountBalances :=
  if amount = 0 then .ok balances
  else
    match balances.balances.find id with
    | none => .error (.debitAboveBalance id amount 0)
    | some mosaic =>
      if mosaic.2 < amount then .error (.debitAboveBalance id amount mosaic.2)
      else
        let map := balances.balances.update id (mosaic.2 - amount)
        .ok { balances with balances := if mosaic.2 - amount = 0 then map.erase id else map }

def optimize (balances : AccountBalances) (id : MosaicId) : Except AccountError AccountBalances :=
  match balances.balances.optimize id with
  | .error error => .error (.mosaicMap error)
  | .ok map => .ok ⟨map, id⟩

def insertAll (map : CompactMosaicMap) (pairs : List Mosaic) : Except MapError CompactMosaicMap :=
  pairs.foldlM CompactMosaicMap.insert map

/-- The target is optimized before the balances of the source are inserted into it. -/
def assign (target source : AccountBalances) : Except AccountError AccountBalances :=
  match (do insertAll (← target.balances.optimize source.optimizedMosaicId) source.toList) with
  | .error error => .error (.mosaicMap error)
  | .ok map => .ok ⟨map, source.optimizedMosaicId⟩

/-- A copy optimizes an empty map before it inserts the balances. -/
def copy (balances : AccountBalances) : Except AccountError AccountBalances :=
  match (do insertAll (← CompactMosaicMap.empty.optimize balances.optimizedMosaicId) balances.toList) with
  | .error error => .error (.mosaicMap error)
  | .ok map => .ok ⟨map, balances.optimizedMosaicId⟩

end AccountBalances

structure AccountPublicKeys where
  linked : Option Key
  node : Option Key
  vrf : Option VrfPublicKey
  voting : List PinnedVotingKey
  deriving DecidableEq

namespace AccountPublicKeys

def empty : AccountPublicKeys := ⟨none, none, none, []⟩

/-- A key that is not set is zero. -/
def getKey {size : Nat} (key : Option (Vector UInt8 size)) : Vector UInt8 size := key.getD (Vector.replicate size 0)

/-- A zero key counts as not set. -/
def isSet {size : Nat} (key : Option (Vector UInt8 size)) : Bool := getKey key ≠ Vector.replicate size 0

/-- A key is unset before it is set again. -/
def setKey {size : Nat} (key : Option (Vector UInt8 size)) (value : Vector UInt8 size) :
    Except AccountError (Option (Vector UInt8 size)) :=
  if key.isSome then .error .keyAlreadySet else .ok (some value)

/-- The flags of the linked, node and VRF keys. -/
def mask (keys : AccountPublicKeys) : UInt8 :=
  (if isSet keys.linked then 1 else 0) + (if isSet keys.node then 2 else 0) + (if isSet keys.vrf then 4 else 0)

def containsEpoch (key : PinnedVotingKey) (epoch : FinalizationEpoch) : Bool :=
  key.startEpoch ≤ epoch && epoch ≤ key.endEpoch

def overlaps (key existing : PinnedVotingKey) : Bool :=
  containsEpoch key existing.startEpoch || containsEpoch key existing.endEpoch || containsEpoch existing key.startEpoch

/-- Keys are sorted by their epochs. -/
def insertVotingKey (key : PinnedVotingKey) : List PinnedVotingKey → List PinnedVotingKey
  | [] => [key]
  | existing :: keys =>
    if key.endEpoch < existing.startEpoch then key :: existing :: keys else existing :: insertVotingKey key keys

def addVotingKey (keys : List PinnedVotingKey) (key : PinnedVotingKey) : Except AccountError (List PinnedVotingKey) :=
  if keys.any (overlaps key) then .error (.overlappingEpochs key) else .ok (insertVotingKey key keys)

def removeVotingKey (keys : List PinnedVotingKey) (key : PinnedVotingKey) : List PinnedVotingKey := keys.erase key

end AccountPublicKeys

/-- A byte that names no account type is kept. -/
inductive AccountType where
  | unlinked
  | main
  | remote
  | remoteUnlinked
  | other (value : UInt8)
  deriving DecidableEq

namespace AccountType

def toByte : AccountType → UInt8
  | unlinked => 0
  | main => 1
  | remote => 2
  | remoteUnlinked => 3
  | other value => value

def ofByte (value : UInt8) : AccountType :=
  if value = 0 then unlinked
  else if value = 1 then main
  else if value = 2 then remote
  else if value = 3 then remoteUnlinked
  else other value

end AccountType

structure AccountState where
  address : Address
  addressHeight : Height
  publicKey : Key
  publicKeyHeight : Height
  accountType : AccountType
  supplementalPublicKeys : AccountPublicKeys
  importanceSnapshots : AccountImportanceSnapshots
  activityBuckets : AccountActivityBuckets
  balances : AccountBalances
  deriving DecidableEq

namespace AccountState

def create (address : Address) (addressHeight : Height) : AccountState :=
  ⟨address, addressHeight, Vector.replicate 1312 0, 0, .unlinked, .empty, .empty, .empty, .empty⟩

def hasHistoricalInformation (state : AccountState) : Bool :=
  !AccountImportanceSnapshots.isEmpty state.importanceSnapshots || !AccountActivityBuckets.isEmpty state.activityBuckets

end AccountState

open AccountPublicKeys

/-- The vector of the keys only exists while there are keys. -/
structure PublicKeysAccessor where
  keys : Option (List PinnedVotingKey)
  deriving DecidableEq

namespace PublicKeysAccessor

def create : PublicKeysAccessor := ⟨none⟩

def size (accessor : PublicKeysAccessor) : Nat :=
  match accessor.keys with
  | none => 0
  | some keys => keys.length

/-- The last element of an empty vector is undefined. -/
def upperBound (accessor : PublicKeysAccessor) : Option FinalizationEpoch :=
  match accessor.keys with
  | none => some 0
  | some keys => keys.getLast?.map PinnedVotingKey.endEpoch

def notFound : Nat × Bool := (2 ^ 64 - 1, false)

def contains (accessor : PublicKeysAccessor) (epoch : FinalizationEpoch) : Nat × Bool :=
  match accessor.keys with
  | none => notFound
  | some keys =>
    match keys.findIdx? fun key => containsEpoch key epoch with
    | none => notFound
    | some index => (index, true)

def containsExact (accessor : PublicKeysAccessor) (key : PinnedVotingKey) : Bool :=
  match accessor.keys with
  | none => false
  | some keys => key ∈ keys

def getAll (accessor : PublicKeysAccessor) : List PinnedVotingKey := accessor.keys.getD []

/-- The vector is created before the overlaps are checked. -/
def add (accessor : PublicKeysAccessor) (key : PinnedVotingKey) : PublicKeysAccessor × Except AccountError Unit :=
  let existing := accessor.keys.getD []
  match addVotingKey existing key with
  | .error error => (⟨some existing⟩, .error error)
  | .ok keys => (⟨some keys⟩, .ok ())

/-- The vector is deleted with its last key. -/
def remove (accessor : PublicKeysAccessor) (key : PinnedVotingKey) : PublicKeysAccessor × Bool :=
  match accessor.keys with
  | none => (accessor, false)
  | some keys =>
    if key ∈ keys then
      let remaining := removeVotingKey keys key
      (⟨if remaining.isEmpty then none else some remaining⟩, true)
    else (accessor, false)

/-- A key that is added covers at least one epoch. -/
inductive Call where
  | add (key : PinnedVotingKey) (range : key.startEpoch ≤ key.endEpoch)
  | remove (key : PinnedVotingKey)

/-- A call that throws leaves the accessor in use. -/
def Call.run (accessor : PublicKeysAccessor) : Call → PublicKeysAccessor
  | .add key _ => (accessor.add key).1
  | .remove key => (accessor.remove key).1

def runCalls (calls : List Call) : PublicKeysAccessor := calls.foldl Call.run create

end PublicKeysAccessor

end Catapult.State
