import Catapult.Construction.Finalization.FinalizationMessage
import Catapult.Construction.Finalization.RoundContext

/-
This file models the aggregator that checks the messages of a round and counts each of them once.
-/

namespace Catapult.Finalization

inductive RoundMessageAggregatorAddResult where
  | failureInvalidHashes
  | failureInvalidPoint
  | failureInvalidHeight
  | failureProcessing
  | failureConflicting
  | neutralRedundant
  | successPrevote
  | successPrecommit

/-- An exception leaves the aggregator as it was; a missing candidate has no defined behavior. -/
inductive AddError where
  | invalidArgument (message : String)
  | round (error : RoundError)

def calculateVotingSetEndHeight (epoch : FinalizationEpoch) (grouping : UInt64) : Except AddError Height :=
  if grouping = 0 then .error (.invalidArgument "grouping zero is not supported")
  else if epoch = 0 then .error (.invalidArgument "epoch zero is not supported")
  else .ok (if epoch = 1 then 1 else (epoch - 1).toUInt64 * grouping)

/-- A voter sends at most one message of each stage. -/
abbrev MessageKey := VotingKey × Bool

structure MessageDescriptor where
  message : FinalizationMessage
  hash : Hash256

def createMessageDescriptor [Sha3] (message : FinalizationMessage) : MessageDescriptor :=
  ⟨message, message.calculateMessageHash⟩

def calculateWeightedThreshold (context : FinalizationContext) : UInt64 :=
  context.weight * context.config.threshold / context.config.size

def isPrevote (message : FinalizationMessage) : Bool := message.stepIdentifier.stage = .prevote

def messageKey (message : FinalizationMessage) : MessageKey :=
  (message.signature.root.parentPublicKey, isPrevote message)

/-- The messages are kept in the order of their arrival. -/
structure RoundMessageAggregator where
  finalizationContext : FinalizationContext
  roundContext : RoundContext
  messages : List (MessageKey × MessageDescriptor)

namespace RoundMessageAggregator

def create (context : FinalizationContext) : RoundMessageAggregator :=
  ⟨context, .create context.weight (calculateWeightedThreshold context), []⟩

def find (aggregator : RoundMessageAggregator) (key : MessageKey) : Option MessageDescriptor :=
  aggregator.messages.lookup key

def lastHashHeight (message : FinalizationMessage) : Height :=
  message.height + (message.hashesCount - 1).toUInt64

/-- A prevote stays within its epoch and a precommit has one hash. -/
def hasValidHashes (aggregator : RoundMessageAggregator) (message : FinalizationMessage) : Except AddError Bool :=
  if isPrevote message then do
    let votingSetGrouping := aggregator.finalizationContext.config.votingSetGrouping
    let previousEpoch := message.stepIdentifier.epoch - 1
    let epochMinHeight ← calculateVotingSetEndHeight previousEpoch votingSetGrouping
    let epochMaxHeight ← calculateVotingSetEndHeight message.stepIdentifier.epoch votingSetGrouping
    return !(message.height < epochMinHeight || epochMaxHeight < lastHashHeight message)
  else .ok (message.hashesCount = 1)

/-- A message that passes the checks has a first hash. -/
def firstHash (message : FinalizationMessage) : Hash256 := message.hashes.headD zeroHash

/-- The vote of a message has the weight of its voter. -/
def acceptMessage (aggregator : RoundMessageAggregator) (message : FinalizationMessage) (weight : UInt64) :
    Except RoundError RoundContext :=
  if isPrevote message then aggregator.roundContext.acceptPrevote message.height message.hashes weight
  else aggregator.roundContext.acceptPrecommit message.height (firstHash message) weight

/-- A message with a new key is processed and stored. -/
def addNew [Sha3] [VotingVerifier] (aggregator : RoundMessageAggregator) (message : FinalizationMessage) :
    Except AddError (RoundMessageAggregatorAddResult × RoundMessageAggregator) :=
  match processMessage message aggregator.finalizationContext with
  | (.success, weight) =>
    let messages := aggregator.messages ++ [(messageKey message, createMessageDescriptor message)]
    match aggregator.acceptMessage message weight with
    | .ok roundContext =>
      .ok (if isPrevote message then .successPrevote else .successPrecommit,
        { aggregator with roundContext, messages })
    | .error error => .error (.round error)
  | _ => .ok (.failureProcessing, aggregator)

/-- A second message of a voter in a stage is never counted. -/
def addChecked [Sha3] [VotingVerifier] (aggregator : RoundMessageAggregator) (message : FinalizationMessage) :
    Except AddError (RoundMessageAggregatorAddResult × RoundMessageAggregator) :=
  match aggregator.find (messageKey message) with
  | some descriptor =>
    .ok (if descriptor.hash = message.calculateMessageHash then .neutralRedundant else .failureConflicting, aggregator)
  | none => aggregator.addNew message

def add [Sha3] [VotingVerifier] (aggregator : RoundMessageAggregator) (message : FinalizationMessage) :
    Except AddError (RoundMessageAggregatorAddResult × RoundMessageAggregator) :=
  let maxHashesPerPoint := aggregator.finalizationContext.config.maxHashesPerPoint
  if message.hashesCount = 0 || maxHashesPerPoint < message.hashesCount then
    .ok (.failureInvalidHashes, aggregator)
  else if lastHashHeight message < aggregator.finalizationContext.height then
    .ok (.failureInvalidHeight, aggregator)
  else
    aggregator.hasValidHashes message >>= fun valid =>
      if valid then aggregator.addChecked message else .ok (.failureInvalidHashes, aggregator)

/-- A message is offered to the aggregator, which survives an invalid argument. -/
def offer [Sha3] [VotingVerifier] (aggregator : RoundMessageAggregator) (message : FinalizationMessage) :
    Except RoundError RoundMessageAggregator :=
  match aggregator.add message with
  | .ok (_, next) => .ok next
  | .error (.invalidArgument _) => .ok aggregator
  | .error (.round error) => .error error

def offerAll [Sha3] [VotingVerifier] (aggregator : RoundMessageAggregator) (messages : List FinalizationMessage) :
    Except RoundError RoundMessageAggregator :=
  messages.foldlM offer aggregator

end RoundMessageAggregator

end Catapult.Finalization
