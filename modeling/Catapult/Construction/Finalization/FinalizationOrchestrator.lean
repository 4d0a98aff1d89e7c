import Catapult.Construction.Finalization.FinalizationMessage
import Catapult.Construction.Finalization.RoundContext

/-
This file models the orchestrator that votes in one round after the other.
-/

namespace Catapult.Finalization

abbrev Timestamp := UInt64

structure VotingStatus where
  round : FinalizationRound
  hasSentPrevote : Bool
  hasSentPrecommit : Bool

namespace VotingStatus

def clearFlags (votingStatus : VotingStatus) : VotingStatus :=
  { votingStatus with hasSentPrevote := false, hasSentPrecommit := false }

def hasSent (votingStatus : VotingStatus) : FinalizationStage → Bool
  | .prevote => votingStatus.hasSentPrevote
  | .precommit => votingStatus.hasSentPrecommit

end VotingStatus

/-- An advancer serves one round. -/
structure FinalizationStageAdvancer where
  round : FinalizationRound
  time : Timestamp

/-- The stage advancer, the message factory and the message predicate give any answers during a poll. -/
structure PollAnswers where
  canSendPrevote : Bool
  createPrevote : FinalizationRound → Option FinalizationMessage
  canSendPrecommit : Option HeightHashPair
  createPrecommit : FinalizationRound → Height → Hash256 → Option FinalizationMessage
  canStartNextRound : Bool
  messagePredicate : FinalizationMessage → Bool

/-- A processed stage passes a message to the sink or drops it. -/
inductive OrchestratorEvent where
  | processed (stage : FinalizationStage) (round : FinalizationRound) (message : Option FinalizationMessage)
  | left (round : FinalizationRound)

inductive OrchestratorError where
  | cannotDecreaseEpoch

structure FinalizationOrchestrator where
  votingStatus : VotingStatus
  stageAdvancer : Option FinalizationStageAdvancer

namespace FinalizationOrchestrator

def create (votingStatus : VotingStatus) : FinalizationOrchestrator := ⟨votingStatus, none⟩

/-- The state after an exception is returned as well. -/
def setEpoch (orchestrator : FinalizationOrchestrator) (epoch : FinalizationEpoch) :
    Except OrchestratorError Unit × FinalizationOrchestrator :=
  if epoch < orchestrator.votingStatus.round.epoch then (.error .cannotDecreaseEpoch, orchestrator)
  else if epoch = orchestrator.votingStatus.round.epoch then (.ok (), orchestrator)
  else
    (.ok (), {
      votingStatus := { orchestrator.votingStatus with round := ⟨epoch, 1⟩ }.clearFlags
      stageAdvancer := none })

def startRound (orchestrator : FinalizationOrchestrator) (time : Timestamp) : FinalizationOrchestrator :=
  { orchestrator with stageAdvancer := some ⟨orchestrator.votingStatus.round, time⟩ }

/-- The predicate decides whether a created message is sent. -/
def process (orchestrator : FinalizationOrchestrator) (answers : PollAnswers) (stage : FinalizationStage)
    (message : Option FinalizationMessage) : OrchestratorEvent :=
  .processed stage orchestrator.votingStatus.round (message.filter answers.messagePredicate)

def pollPrevote (orchestrator : FinalizationOrchestrator) (answers : PollAnswers) :
    FinalizationOrchestrator × List OrchestratorEvent :=
  if !orchestrator.votingStatus.hasSentPrevote && answers.canSendPrevote then
    ({ orchestrator with votingStatus := { orchestrator.votingStatus with hasSentPrevote := true } },
      [orchestrator.process answers .prevote (answers.createPrevote orchestrator.votingStatus.round)])
  else (orchestrator, [])

def pollPrecommit (orchestrator : FinalizationOrchestrator) (answers : PollAnswers) :
    FinalizationOrchestrator × List OrchestratorEvent :=
  match orchestrator.votingStatus.hasSentPrecommit, answers.canSendPrecommit with
  | false, some commitTarget =>
    ({ orchestrator with votingStatus := { orchestrator.votingStatus with hasSentPrecommit := true } },
      [orchestrator.process answers .precommit (answers.createPrecommit orchestrator.votingStatus.round
        commitTarget.height commitTarget.hash)])
  | _, _ => (orchestrator, [])

/-- The point is a 32 bit value, so the addition can wrap around. -/
def pollNextRound (orchestrator : FinalizationOrchestrator) (time : Timestamp) (answers : PollAnswers) :
    FinalizationOrchestrator × List OrchestratorEvent :=
  if orchestrator.votingStatus.hasSentPrecommit && answers.canStartNextRound then
    let round := orchestrator.votingStatus.round
    ({ orchestrator with
      votingStatus := { orchestrator.votingStatus with round := ⟨round.epoch, round.point + 1⟩ }.clearFlags
      }.startRound time, [.left round])
  else (orchestrator, [])

def poll (orchestrator : FinalizationOrchestrator) (time : Timestamp) (answers : PollAnswers) :
    FinalizationOrchestrator × List OrchestratorEvent :=
  let started := if orchestrator.stageAdvancer.isNone then orchestrator.startRound time else orchestrator
  let (prevoted, prevoteEvents) := started.pollPrevote answers
  let (precommitted, precommitEvents) := prevoted.pollPrecommit answers
  let (advanced, roundEvents) := precommitted.pollNextRound time answers
  (advanced, prevoteEvents ++ precommitEvents ++ roundEvents)

end FinalizationOrchestrator

/-- A restart creates an orchestrator from the last voting status. -/
inductive OrchestratorCall where
  | setEpoch (epoch : FinalizationEpoch)
  | poll (time : Timestamp) (answers : PollAnswers)
  | restart

namespace FinalizationOrchestrator

def call (orchestrator : FinalizationOrchestrator) : OrchestratorCall → FinalizationOrchestrator × List OrchestratorEvent
  | .setEpoch epoch => ((orchestrator.setEpoch epoch).2, [])
  | .poll time answers => orchestrator.poll time answers
  | .restart => (create orchestrator.votingStatus, [])

/-- The events of all calls are kept in their order. -/
def step (state : FinalizationOrchestrator × List OrchestratorEvent) (action : OrchestratorCall) :
    FinalizationOrchestrator × List OrchestratorEvent :=
  ((state.1.call action).1, state.2 ++ (state.1.call action).2)

def run (orchestrator : FinalizationOrchestrator) (calls : List OrchestratorCall) :
    FinalizationOrchestrator × List OrchestratorEvent :=
  calls.foldl step (orchestrator, [])

end FinalizationOrchestrator

end Catapult.Finalization
