import Catapult.Construction.Finalization.FinalizationMessageFactory
import Catapult.Construction.Finalization.MultiRoundMessageAggregator
import Mathlib.Data.List.Lex
import Mathlib.Data.Prod.Lex

/-
This file models the proof of a finalized block: how it is created from the messages of a round and how it is verified.
-/

namespace Catapult.Finalization

/-- A group holds the signatures of messages that are otherwise equal. -/
structure FinalizationMessageGroup where
  stage : UInt32
  height : Height
  hashes : List Hash256
  counted : hashes.length < 2 ^ 32
  signatures : List BmTreeSignature

structure FinalizationProof where
  version : UInt32
  round : FinalizationRound
  height : Height
  hash : Hash256
  messageGroups : List FinalizationMessageGroup

def FinalizationStage.toUInt32 : FinalizationStage → UInt32
  | .prevote => 0
  | .precommit => 1

/-- Only the lowest bit of a stage is used. -/
def FinalizationStage.ofUInt32 (value : UInt32) : FinalizationStage := if value &&& 1 = 0 then .prevote else .precommit

def FinalizationMessageGroup.size (messageGroup : FinalizationMessageGroup) : Nat :=
  24 + messageGroup.hashes.length * 32 + messageGroup.signatures.length * 192

def createTemplateMessage (round : FinalizationRound) (messageGroup : FinalizationMessageGroup) (signature : BmTreeSignature) :
    FinalizationMessage where
  reserved1 := 0
  signature := signature
  version := FinalizationMessage.currentVersion
  stepIdentifier := .create round (.ofUInt32 messageGroup.stage)
  height := messageGroup.height
  hashes := messageGroup.hashes
  counted := messageGroup.counted

namespace FinalizationProof

def currentVersion : UInt32 := 1

/-- The header of a proof and its groups. -/
def size (proof : FinalizationProof) : Nat := 56 + (proof.messageGroups.map FinalizationMessageGroup.size).sum

/-- Every signature of a group stands for a message. -/
def messages (proof : FinalizationProof) : List FinalizationMessage :=
  proof.messageGroups.flatMap fun messageGroup => messageGroup.signatures.map (createTemplateMessage proof.round messageGroup)

end FinalizationProof

/-- Messages are ordered by their sizes and then by their signed bytes. -/
abbrev GroupKey := Nat ×ₗ List Nat

def groupKey (message : FinalizationMessage) : GroupKey :=
  toLex (message.size.toNat, message.toBuffer.map UInt8.toNat)

/-- The first message of a group is its template. -/
abbrev MessageSignatureGroup := FinalizationMessage × List BmTreeSignature

def canGroup (round : FinalizationRound) (message : FinalizationMessage) : Bool :=
  message.stepIdentifier.round = round && message.reserved1 = 0 && message.version = FinalizationMessage.currentVersion

/-- The signature of a message is appended to its group. -/
def groupMessage (groups : List (GroupKey × MessageSignatureGroup)) (message : FinalizationMessage) :
    List (GroupKey × MessageSignatureGroup) :=
  match SortedMap.find (groupKey message) groups with
  | some (key, template, signatures) => SortedMap.replace (key, template, signatures ++ [message.signature]) groups
  | none => SortedMap.insert (groupKey message, message, [message.signature]) groups

def createMessageGroup (group : MessageSignatureGroup) : FinalizationMessageGroup :=
  ⟨group.1.stepIdentifier.stage.toUInt32, group.1.height, group.1.hashes, group.1.counted, group.2⟩

/-- Messages of another round, padding or version are skipped. -/
def groupMessages (round : FinalizationRound) (messages : List FinalizationMessage) : List FinalizationMessageGroup :=
  ((messages.filter (canGroup round)).foldl groupMessage []).map fun entry => createMessageGroup entry.2

def assembleFinalizationProof (statistics : FinalizationStatistics) (messages : List FinalizationMessage) : FinalizationProof :=
  ⟨FinalizationProof.currentVersion, statistics.round, statistics.height, statistics.hash,
    groupMessages statistics.round messages⟩

inductive ProofError where
  | sizeOverflow

/-- The sizes of the groups and of the proof have 32 bits. If the size of the proof does not fit, one of them wraps around, and
the allocation throws or is overrun. -/
def createFinalizationProof (statistics : FinalizationStatistics) (messages : List FinalizationMessage) :
    Except ProofError FinalizationProof :=
  let proof := assembleFinalizationProof statistics messages
  if proof.size < 2 ^ 32 then .ok proof else .error .sizeOverflow

def BestPrecommitDescriptor.toFinalizationStatistics (descriptor : BestPrecommitDescriptor) : FinalizationStatistics :=
  ⟨descriptor.round, descriptor.target.height, descriptor.target.hash⟩

inductive VerifyFinalizationProofResult where
  | failureInvalidVersion
  | failureInvalidEpoch
  | failureInvalidHeight
  | failureInvalidHash
  | failureNoPrecommit
  | failureInvalidMesssage
  | success
  deriving DecidableEq

/-- All results up to the redundant one reject a proof. -/
def RoundMessageAggregatorAddResult.isSuccess : RoundMessageAggregatorAddResult → Bool
  | .successPrevote => true
  | .successPrecommit => true
  | _ => false

variable [Sha3] [VotingVerifier]

/-- The messages are added until one of them is rejected. -/
def RoundMessageAggregator.addProofMessages (aggregator : RoundMessageAggregator) :
    List FinalizationMessage → Except AddError (Option RoundMessageAggregator)
  | [] => .ok (some aggregator)
  | message :: messages =>
    aggregator.add message >>= fun outcome =>
      if outcome.1.isSuccess then outcome.2.addProofMessages messages else .ok none

def verifyBestPrecommit (proof : FinalizationProof) : Option HeightHashPair → VerifyFinalizationProofResult
  | none => .failureNoPrecommit
  | some bestPrecommit =>
    if bestPrecommit.height ≠ proof.height then .failureInvalidHeight
    else if bestPrecommit.hash ≠ proof.hash then .failureInvalidHash
    else .success

def verifyFinalizationProof (proof : FinalizationProof) (context : FinalizationContext) :
    Except AddError VerifyFinalizationProofResult :=
  if FinalizationProof.currentVersion ≠ proof.version then .ok .failureInvalidVersion
  else if proof.round.epoch ≠ context.epoch then .ok .failureInvalidEpoch
  else (RoundMessageAggregator.create context).addProofMessages proof.messages >>= fun added =>
    match added with
    | none => .ok .failureInvalidMesssage
    | some aggregator => .ok (verifyBestPrecommit proof aggregator.roundContext.tryFindBestPrecommit)

end Catapult.Finalization
