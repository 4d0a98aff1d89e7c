import Catapult.Construction.Finalization.RoundMessageAggregator

/-
This file models the factory that creates the messages of a voter from its chain, and the voting sets of the finalization epochs.
-/

namespace Catapult.Finalization

/-- The factory needs one setting more than the aggregators. -/
structure FactoryConfiguration extends FinalizationConfiguration where
  prevoteBlocksMultiple : UInt16

/-- A view of the chain gives the hash at each height. -/
structure ChainView where
  chainHeight : Height
  hashAt : Height → Hash256

/-- No hashes are returned if the height is not available. -/
def ChainView.loadHashesFrom (view : ChainView) (height : Height) (maxHashes : UInt64) : List Hash256 :=
  if height = 0 ∨ view.chainHeight < height then []
  else
    let numAvailableHashes := view.chainHeight - height + 1
    let numHashes := min maxHashes numAvailableHashes
    (List.range numHashes.toNat).map fun index => view.hashAt (height + UInt64.ofNat index)

/-- The private key trees sign with the key of an epoch. -/
structure MessageSigner where
  canSign : UInt64 → Bool
  sign : UInt64 → List UInt8 → BmTreeSignature

/-- Writing more hashes than the allocated message holds has no defined behavior. -/
inductive FactoryError where
  | votingSet (error : AddError)
  | invalidArgument (message : String)
  | bufferOverrun

def StepIdentifier.create (round : FinalizationRound) (stage : FinalizationStage) : StepIdentifier :=
  ⟨round.epoch, (round.point <<< 1) ||| (match stage with
    | .prevote => 0
    | .precommit => 1)⟩

def clamp (value : UInt64) (multiple adjustment : UInt16) : UInt64 :=
  if value % multiple.toUInt64 = 0 then value else (value / multiple.toUInt64 + adjustment.toUInt64) * multiple.toUInt64

variable (config : FactoryConfiguration) (signer : MessageSigner) (view : ChainView)

/-- The header of a message and its hashes are measured in 32 bits. -/
def messageSize (numHashes : UInt32) : UInt32 := 224 + numHashes * 32

theorem length_lt_of_fits {numHashes : Nat} {size : UInt32} (fits : 224 + numHashes * 32 ≤ size.toNat) : numHashes < 2 ^ 32 := by
  have bounded := size.toNat_lt
  omega

/-- The message is signed after its hashes are copied. -/
def prepareMessage (stepIdentifier : StepIdentifier) (height : Height) (hashes : List Hash256) :
    Except FactoryError (Option FinalizationMessage) :=
  let keyIdentifier := stepIdentifierToBmKeyIdentifier stepIdentifier
  if !signer.canSign keyIdentifier then .ok none
  else
    let size := messageSize (UInt32.ofNat hashes.length)
    if size < 224 then .error (.invalidArgument "size is insufficient")
    else if fits : 224 + hashes.length * 32 ≤ size.toNat then
      let unsigned : FinalizationMessage :=
        { reserved1 := 0
          signature := ⟨⟨zeroVotingKey, Vector.replicate 64 0⟩, ⟨zeroVotingKey, Vector.replicate 64 0⟩⟩
          version := FinalizationMessage.currentVersion
          stepIdentifier, height, hashes
          counted := length_lt_of_fits fits }
      .ok (some { unsigned with signature := signer.sign keyIdentifier unsigned.toBuffer })
    else .error .bufferOverrun

/-- The last prevoted height leaves some blocks and stays in the epoch. -/
def maxPrevoteHashHeight (chainHeight maxVotingSetHeight : Height) : Height :=
  let multiple := config.prevoteBlocksMultiple.toUInt64
  let lastHeight := if multiple ≤ chainHeight then chainHeight - multiple else chainHeight
  if maxVotingSetHeight < lastHeight then maxVotingSetHeight else lastHeight

/-- A chain with too many hashes is shortened by a multiple. -/
def numPrevoteHashes (chainHeight maxVotingSetHeight startHeight : Height) : UInt64 :=
  let clampedChainHeight := clamp (maxPrevoteHashHeight config chainHeight maxVotingSetHeight) config.prevoteBlocksMultiple 0
  let numHashes := if startHeight < clampedChainHeight then clampedChainHeight - startHeight + 1 else 1
  let maxHashes := config.maxHashesPerPoint.toUInt64
  if maxHashes < numHashes then numHashes - clamp (numHashes - maxHashes) config.prevoteBlocksMultiple 1 else numHashes

def loadPrevoteHashChain (round : FinalizationRound) (startHeight : Height) : Except FactoryError (List Hash256) :=
  match calculateVotingSetEndHeight round.epoch config.votingSetGrouping with
  | .error error => .error (.votingSet error)
  | .ok maxVotingSetHeight =>
    .ok (view.loadHashesFrom startHeight (numPrevoteHashes config view.chainHeight maxVotingSetHeight startHeight))

/-- The prevote starts at the finalized block. -/
def createPrevote (statistics : FinalizationStatistics) (round : FinalizationRound) :
    Except FactoryError (Option FinalizationMessage) := do
  let loaded ← loadPrevoteHashChain config view round statistics.height
  let hashes := if loaded.isEmpty then [statistics.hash] else loaded
  prepareMessage signer (.create round .prevote) statistics.height hashes

def createPrecommit (round : FinalizationRound) (height : Height) (hash : Hash256) :
    Except FactoryError (Option FinalizationMessage) :=
  prepareMessage signer (.create round .precommit) height [hash]

/-- The first set contains only the nemesis block. -/
def calculateVotingSetStartHeight (epoch : FinalizationEpoch) (grouping : UInt64) : Except AddError Height :=
  if grouping = 0 then .error (.invalidArgument "grouping zero is not supported")
  else if epoch = 0 then .error (.invalidArgument "epoch zero is not supported")
  else .ok (if epoch ≤ 2 then epoch.toUInt64 else (epoch - 2).toUInt64 * grouping + 1)

/-- The quotient is narrowed to the width of an epoch. -/
def calculateFinalizationEpochForHeight (height : Height) (grouping : UInt64) : Except AddError FinalizationEpoch :=
  if grouping = 0 then .error (.invalidArgument "grouping zero is not supported")
  else if height = 0 then .error (.invalidArgument "height zero is not supported")
  else if height ≤ 1 then .ok 1
  else
    let adjustment : UInt32 := if height % grouping = 0 then 0 else 1
    .ok (1 + adjustment + (height / grouping).toUInt32)

end Catapult.Finalization
