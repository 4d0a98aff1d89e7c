import Catapult.Construction.Finalization.RoundMessageAggregator
import Catapult.Library.SortedMap

/-
This file models the aggregator of the messages of several rounds and the finalizer that prunes it.
-/

namespace Catapult.Finalization

instance : LinearOrder FinalizationRound where
  le_refl := FinalizationRound.le_refl
  le_trans _ _ _ := FinalizationRound.le_trans
  le_antisymm lhs rhs := by
    rintro (below | same) (above | other)
    · exact absurd rfl (FinalizationRound.ne_of_lt (FinalizationRound.lt_trans below above))
    · exact other.symm
    · exact same
    · exact same
  le_total lhs rhs := by
    by_cases same : lhs = rhs
    · exact .inl (.inr same)
    · by_cases below : lhs < rhs
      · exact .inl (.inl below)
      · refine .inr (.inl ?_)
        rw [FinalizationRound.lt_iff] at below ⊢
        by_contra above
        apply same
        obtain ⟨lhsEpoch, lhsPoint⟩ := lhs
        obtain ⟨rhsEpoch, rhsPoint⟩ := rhs
        dsimp only at below above
        rw [FinalizationRound.mk.injEq, ← UInt32.toNat_inj, ← UInt32.toNat_inj]
        omega
  lt_iff_le_not_ge lhs rhs := by
    constructor
    · rintro below
      refine ⟨.inl below, ?_⟩
      rintro (above | same)
      · exact FinalizationRound.ne_of_lt (FinalizationRound.lt_trans below above) rfl
      · exact FinalizationRound.ne_of_lt below same.symm
    · rintro ⟨below | same, notAbove⟩
      · exact below
      · exact absurd (.inr same.symm) notAbove
  toDecidableLE := inferInstance
  toDecidableLT := inferInstance
  toDecidableEq := inferInstance

def StepIdentifier.round (step : StepIdentifier) : FinalizationRound := ⟨step.epoch, step.pointStage >>> 1⟩

/-- A short hash consists of the first bytes of a hash. -/
def toShortHash (hash : Hash256) : List UInt8 := hash.toList.take 4

/-- Messages are returned until their sizes exceed the maximum. -/
def takeMessages (maxResponseSize : Nat) : Nat → List FinalizationMessage → List FinalizationMessage
  | _, [] => []
  | totalSize, message :: messages =>
    if maxResponseSize < totalSize + message.size.toNat then []
    else message :: takeMessages maxResponseSize (totalSize + message.size.toNat) messages

def RoundMessageAggregator.unknownMessages (aggregator : RoundMessageAggregator) (maxResponseSize : Nat)
    (knownShortHashes : List (List UInt8)) : List FinalizationMessage :=
  takeMessages maxResponseSize 0 ((aggregator.messages.filter fun entry =>
    !knownShortHashes.contains (toShortHash entry.2.hash)).map fun entry => entry.2.message)

structure BestPrecommitDescriptor where
  round : FinalizationRound
  target : HeightHashPair
  proof : List FinalizationMessage

/-- The aggregators of the rounds are sorted. -/
structure MultiRoundMessageAggregator where
  maxResponseSize : Nat
  minFinalizationRound : FinalizationRound
  maxFinalizationRound : FinalizationRound
  previousFinalizedHeightHashPair : HeightHashPair
  roundMessageAggregators : List (FinalizationRound × RoundMessageAggregator)

/-- A context of an epoch needs the last block before the epoch. -/
def createFinalizationContext (config : FinalizationConfiguration) (accountsAtHeight : Height → Option HighValueAccounts)
    (epoch : FinalizationEpoch) : Except AddError FinalizationContext := do
  if epoch = 0 then throw (.invalidArgument "epoch zero is not supported")
  let votingSetHeight ← calculateVotingSetEndHeight (epoch - 1) config.votingSetGrouping
  match accountsAtHeight votingSetHeight with
  | none => throw (.invalidArgument "cannot load block element")
  | some highValueAccounts => return FinalizationContext.create epoch votingSetHeight config highValueAccounts

namespace MultiRoundMessageAggregator

def create (maxResponseSize : Nat) (round : FinalizationRound) (previousFinalizedHeightHashPair : HeightHashPair) :
    MultiRoundMessageAggregator :=
  ⟨maxResponseSize, round, round, previousFinalizedHeightHashPair, []⟩

variable (state : MultiRoundMessageAggregator)

/-- The rounds are searched from the last one to the first. -/
def findEstimate (round : FinalizationRound) : HeightHashPair :=
  (state.roundMessageAggregators.reverse.findSome? fun entry =>
    if round < entry.1 then none else entry.2.roundContext.tryFindEstimate).getD state.previousFinalizedHeightHashPair

def tryFindBestPrecommit : Option BestPrecommitDescriptor :=
  state.roundMessageAggregators.reverse.findSome? fun entry =>
    entry.2.roundContext.tryFindBestPrecommit.map fun target =>
      ⟨entry.1, target, entry.2.unknownMessages state.maxResponseSize []⟩

def setMaxFinalizationRound (round : FinalizationRound) : Except AddError MultiRoundMessageAggregator :=
  if round < state.minFinalizationRound then .error (.invalidArgument "cannot set max finalization round below min")
  else .ok { state with maxFinalizationRound := round }

/-- The aggregator of a round is changed in place. -/
def replace (round : FinalizationRound) (aggregator : RoundMessageAggregator) : MultiRoundMessageAggregator :=
  { state with
    roundMessageAggregators := state.roundMessageAggregators.map fun entry =>
      if entry.1 = round then (round, aggregator) else entry }

def addTo [Sha3] [VotingVerifier] (round : FinalizationRound) (aggregator : RoundMessageAggregator) (message : FinalizationMessage) :
    Except AddError RoundMessageAggregatorAddResult × MultiRoundMessageAggregator :=
  match aggregator.add message with
  | .error error => (.error error, state)
  | .ok (result, next) => (.ok result, state.replace round next)

/-- A round is created even if its message is rejected; the state after an exception is returned as well. -/
def add [Sha3] [VotingVerifier] (createContext : FinalizationEpoch → Except AddError FinalizationContext)
    (message : FinalizationMessage) : Except AddError RoundMessageAggregatorAddResult × MultiRoundMessageAggregator :=
  let messageRound := message.stepIdentifier.round
  if messageRound < state.minFinalizationRound ∨ state.maxFinalizationRound < messageRound then
    (.ok .failureInvalidPoint, state)
  else
    match SortedMap.find messageRound state.roundMessageAggregators with
    | some entry => state.addTo messageRound entry.2 message
    | none =>
      match createContext messageRound.epoch with
      | .error error => (.error error, state)
      | .ok context =>
        addTo { state with
          roundMessageAggregators :=
            SortedMap.insert (messageRound, .create context) state.roundMessageAggregators }
          messageRound (.create context) message

/-- The rounds before an epoch are erased. -/
def prune (epoch : FinalizationEpoch) : MultiRoundMessageAggregator :=
  let kept := state.roundMessageAggregators.dropWhile fun entry => entry.1 < ⟨epoch, 0⟩
  { state with
    roundMessageAggregators := kept
    minFinalizationRound := match kept with
      | [] => state.maxFinalizationRound
      | entry :: _ => entry.1 }

/-- The orchestrator service only raises the last round. -/
def raiseMaxFinalizationRound (round : FinalizationRound) : Except AddError MultiRoundMessageAggregator :=
  if state.maxFinalizationRound < round then state.setMaxFinalizationRound round else .ok state

/-- The finalizer saves a proof for a new block and prunes the epochs before the previous one. -/
def finalize (finalizedHeight : Height) : MultiRoundMessageAggregator :=
  match state.tryFindBestPrecommit with
  | none => state
  | some descriptor =>
    if descriptor.round = ⟨0, 0⟩ then state
    else if finalizedHeight = descriptor.target.height then state
    else state.prune (descriptor.round.epoch - 1)

end MultiRoundMessageAggregator

/-- The view of the accounts can be another one for each message. -/
inductive AggregatorAction where
  | add (accountsAtHeight : Height → Option HighValueAccounts) (message : FinalizationMessage)
  | raiseMaxFinalizationRound (round : FinalizationRound)
  | finalize (finalizedHeight : Height)

/-- An exception leaves the state that the action has reached. -/
def MultiRoundMessageAggregator.step [Sha3] [VotingVerifier] (config : FinalizationConfiguration)
    (state : MultiRoundMessageAggregator) : AggregatorAction → MultiRoundMessageAggregator
  | .add accountsAtHeight message => (state.add (createFinalizationContext config accountsAtHeight) message).2
  | .raiseMaxFinalizationRound round =>
    match state.raiseMaxFinalizationRound round with
    | .ok next => next
    | .error _ => state
  | .finalize finalizedHeight => state.finalize finalizedHeight

end Catapult.Finalization
