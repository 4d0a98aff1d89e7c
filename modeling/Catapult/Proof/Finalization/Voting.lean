import Catapult.Construction.Finalization.FinalizationOrchestrator
import Catapult.Library.Runs

/-
This file shows that an orchestrator never votes twice as long as its points do not wrap around.
-/

namespace Catapult.Finalization

open Runs FinalizationOrchestrator

/-- The stages and rounds of the messages that were passed to the sink. -/
def emissions (journal : List OrchestratorEvent) : List (FinalizationStage × FinalizationRound) :=
  journal.filterMap fun event =>
    match event with
    | .processed stage round (some _) => some (stage, round)
    | .processed _ _ none => none
    | .left _ => none

/-- At most one message is sent in each stage of a round, and the rounds never go back. -/
structure NeverEquivocates (start : VotingStatus) (journal : List OrchestratorEvent) : Prop where
  once : (emissions journal).Nodup
  unsent : ∀ stage, start.hasSent stage = true → (stage, start.round) ∉ emissions journal
  ordered : (emissions journal).Pairwise fun earlier later => earlier.2 ≤ later.2
  completed : ∀ (index : Nat) (round : FinalizationRound), journal[index]? = some (OrchestratorEvent.left round) →
    start.round = round ∧ start.hasSentPrecommit = true ∨
      ∃ (earlier : Nat) (message : Option FinalizationMessage), earlier < index ∧
        journal[earlier]? = some (OrchestratorEvent.processed .precommit round message)

/-- The voting status records what the journal holds for the current round. -/
structure Recorded (start : VotingStatus) (status : VotingStatus) (journal : List OrchestratorEvent) : Prop
    extends NeverEquivocates start journal where
  started : start.round ≤ status.round
  kept : ∀ stage, start.round = status.round → start.hasSent stage = true → status.hasSent stage = true
  reached : ∀ stage round, (stage, round) ∈ emissions journal → round ≤ status.round
  current : ∀ stage, (stage, status.round) ∈ emissions journal → status.hasSent stage = true
  precommitted : status.hasSentPrecommit = true → start.round = status.round ∧ start.hasSentPrecommit = true ∨
      ∃ (index : Nat) (message : Option FinalizationMessage), journal[index]? = some (OrchestratorEvent.processed .precommit status.round message)

variable {start status next : VotingStatus} {journal : List OrchestratorEvent}

theorem recorded_start (start : VotingStatus) : Recorded start start [] where
  once := List.nodup_nil
  unsent := by simp [emissions]
  ordered := List.Pairwise.nil
  completed := by simp
  started := .inr rfl
  kept _ _ sent := sent
  reached := by simp [emissions]
  current := by simp [emissions]
  precommitted sent := .inl ⟨rfl, sent⟩

/-- An event of an older journal keeps its place. -/
theorem getElem?_append_some {events : List OrchestratorEvent} {index : Nat} {event : OrchestratorEvent}
    (found : journal[index]? = some event) : (journal ++ events)[index]? = some event := by
  rw [List.getElem?_append_left (List.getElem?_eq_some_iff.mp found).1, found]

/-- A new last event is old or in the last place. -/
theorem getElem?_concat_some {last event : OrchestratorEvent} {index : Nat} (found : (journal ++ [last])[index]? = some event) :
    journal[index]? = some event ∨ index = journal.length ∧ last = event := by
  rw [List.getElem?_append] at found
  split at found
  · exact .inl found
  · next outside =>
    rw [List.getElem?_singleton] at found
    split at found
    · next first => exact .inr ⟨by omega, Option.some.inj found⟩
    · cases found

/-- Earlier events complete the rounds that were left before. -/
theorem Recorded.completed_append (recorded : Recorded start status journal) {events : List OrchestratorEvent}
    {index : Nat} {round : FinalizationRound} (found : journal[index]? = some (.left round)) :
    start.round = round ∧ start.hasSentPrecommit = true ∨
      ∃ (earlier : Nat) (message : Option FinalizationMessage), earlier < index ∧
        (journal ++ events)[earlier]? = some (OrchestratorEvent.processed .precommit round message) := by
  rcases recorded.completed index round found with atStart | ⟨earlier, message, before, processed⟩
  · exact .inl atStart
  · exact .inr ⟨earlier, message, before, getElem?_append_some processed⟩

theorem emissions_processed (journal : List OrchestratorEvent) (stage : FinalizationStage)
    (round : FinalizationRound) (message : Option FinalizationMessage) : emissions (journal ++ [.processed stage round message]) =
      emissions journal ++ if message.isSome then [(stage, round)] else [] := by
  rw [emissions, List.filterMap_append]
  cases message with
  | none => rfl
  | some _ => rfl

theorem emissions_left (journal : List OrchestratorEvent) (round : FinalizationRound) :
    emissions (journal ++ [.left round]) = emissions journal := by
  rw [emissions, List.filterMap_append]
  exact List.append_nil _

/-- A stage that was not sent is processed once. -/
theorem Recorded.processed (recorded : Recorded start status journal) (stage : FinalizationStage)
    (unsent : status.hasSent stage = false) (round : next.round = status.round)
    (sent : ∀ other, next.hasSent other = true ↔ status.hasSent other = true ∨ other = stage)
    (message : Option FinalizationMessage) : Recorded start next (journal ++ [.processed stage status.round message]) := by
  have extended : ∀ other place, (other, place) ∈ emissions (journal ++ [.processed stage status.round message]) →
      (other, place) ∈ emissions journal ∨ (other, place) = (stage, status.round) := by
    intro other place emitted
    rw [emissions_processed, List.mem_append] at emitted
    refine emitted.imp_right fun new => ?_
    split at new
    · exact List.mem_singleton.mp new
    · cases new
  have fresh : (stage, status.round) ∉ emissions journal := by
    intro emitted
    rw [recorded.current stage emitted] at unsent
    cases unsent
  refine ⟨⟨?_, ?_, ?_, ?_⟩, ?_, ?_, ?_, ?_, ?_⟩
  · rw [emissions_processed]
    split
    · refine List.nodup_append.mpr ⟨recorded.once, List.pairwise_singleton _ _, ?_⟩
      rintro _ old _ new rfl
      rw [List.mem_singleton.mp new] at old
      exact fresh old
    · rw [List.append_nil]
      exact recorded.once
  · intro other startSent emitted
    rcases extended other _ emitted with old | new
    · exact recorded.unsent other startSent old
    · obtain ⟨rfl, sameRound⟩ := Prod.mk.inj new
      rw [recorded.kept other sameRound startSent] at unsent
      cases unsent
  · rw [emissions_processed]
    split
    · exact List.pairwise_append.mpr ⟨recorded.ordered, List.pairwise_singleton _ _, by
        rintro ⟨other, place⟩ old _ new
        rw [List.mem_singleton.mp new]
        exact recorded.reached other place old⟩
    · rw [List.append_nil]
      exact recorded.ordered
  · intro index left found
    rcases getElem?_concat_some found with old | ⟨_, new⟩
    · exact recorded.completed_append old
    · cases new
  · rw [round]
    exact recorded.started
  · intro other same startSent
    rw [round] at same
    exact (sent other).mpr (.inl (recorded.kept other same startSent))
  · intro other place emitted
    rw [round]
    rcases extended other place emitted with old | new
    · exact recorded.reached other place old
    · cases new
      exact FinalizationRound.le_refl _
  · intro other emitted
    rw [round] at emitted
    rw [sent]
    rcases extended other _ emitted with old | new
    · exact .inl (recorded.current other old)
    · cases new
      exact .inr rfl
  · intro nextSent
    rw [round]
    have cases := (sent .precommit).mp nextSent
    rcases cases with old | new
    · rcases recorded.precommitted old with atStart | ⟨index, message, processed⟩
      · exact .inl atStart
      · exact .inr ⟨index, message, getElem?_append_some processed⟩
    · exact .inr ⟨journal.length, message, by rw [new]; simp⟩

/-- A round is left after its precommit. -/
theorem Recorded.left (recorded : Recorded start status journal) (sent : status.hasSentPrecommit = true) :
    Recorded start status (journal ++ [.left status.round]) := by
  have same := emissions_left journal status.round
  refine ⟨⟨same ▸ recorded.once, same ▸ recorded.unsent, same ▸ recorded.ordered, ?_⟩, recorded.started,
    recorded.kept, same ▸ recorded.reached, same ▸ recorded.current, ?_⟩
  · intro index round found
    rcases getElem?_concat_some found with old | ⟨last, new⟩
    · exact recorded.completed_append old
    · cases new
      rcases recorded.precommitted sent with atStart | ⟨earlier, message, processed⟩
      · exact .inl atStart
      · refine .inr ⟨earlier, message, ?_, getElem?_append_some processed⟩
        rw [last]
        exact (List.getElem?_eq_some_iff.mp processed).1
  · intro _
    rcases recorded.precommitted sent with atStart | ⟨earlier, message, processed⟩
    · exact .inl atStart
    · exact .inr ⟨earlier, message, getElem?_append_some processed⟩

/-- A higher round starts without messages. -/
theorem Recorded.advanced (recorded : Recorded start status journal) (higher : status.round < next.round)
    (cleared : ∀ stage, next.hasSent stage = false) : Recorded start next journal := by
  have above : start.round < next.round := FinalizationRound.lt_of_le_of_lt recorded.started higher
  refine ⟨recorded.toNeverEquivocates, .inl above, ?_, ?_, ?_, ?_⟩
  · intro stage same
    exact absurd same (FinalizationRound.ne_of_lt above)
  · intro stage round emitted
    exact .inl (FinalizationRound.lt_of_le_of_lt (recorded.reached stage round emitted) higher)
  · intro stage emitted
    have below := FinalizationRound.lt_of_le_of_lt (recorded.reached stage _ emitted) higher
    exact absurd rfl (FinalizationRound.ne_of_lt below)
  · intro sent
    rw [show next.hasSentPrecommit = false from cleared .precommit] at sent
    cases sent

variable {orchestrator : FinalizationOrchestrator} {time : Timestamp} {answers : PollAnswers}

theorem Recorded.pollPrevote (recorded : Recorded start orchestrator.votingStatus journal) :
    Recorded start (orchestrator.pollPrevote answers).1.votingStatus
      (journal ++ (orchestrator.pollPrevote answers).2) := by
  unfold FinalizationOrchestrator.pollPrevote
  split
  · next sends =>
    simp only [Bool.and_eq_true, Bool.not_eq_true'] at sends
    refine recorded.processed .prevote sends.1 ?_ ?_ _
    · rfl
    · intro other
      cases other <;> simp [VotingStatus.hasSent]
  · rwa [List.append_nil]

theorem Recorded.pollPrecommit (recorded : Recorded start orchestrator.votingStatus journal) :
    Recorded start (orchestrator.pollPrecommit answers).1.votingStatus
      (journal ++ (orchestrator.pollPrecommit answers).2) := by
  unfold FinalizationOrchestrator.pollPrecommit
  split
  · next unsent _ =>
    refine recorded.processed .precommit unsent ?_ ?_ _
    · rfl
    · intro other
      cases other <;> simp [VotingStatus.hasSent]
  · rwa [List.append_nil]

/-- The stages of a poll do not change the round. -/
theorem pollPrevote_status (orchestrator : FinalizationOrchestrator) (answers : PollAnswers) :
    (orchestrator.pollPrevote answers).1.votingStatus.round = orchestrator.votingStatus.round ∧
      (orchestrator.pollPrevote answers).1.votingStatus.hasSentPrecommit = orchestrator.votingStatus.hasSentPrecommit := by
  unfold FinalizationOrchestrator.pollPrevote
  split
  · exact ⟨rfl, rfl⟩
  · exact ⟨rfl, rfl⟩

theorem pollPrecommit_status (orchestrator : FinalizationOrchestrator) (answers : PollAnswers) :
    (orchestrator.pollPrecommit answers).1.votingStatus.round = orchestrator.votingStatus.round ∧
      ((orchestrator.pollPrecommit answers).1.votingStatus.hasSentPrecommit = true →
        orchestrator.votingStatus.hasSentPrecommit = true ∨ answers.canSendPrecommit.isSome = true) := by
  unfold FinalizationOrchestrator.pollPrecommit
  split
  · next asked => exact ⟨rfl, fun _ => .inr (by rw [asked]; rfl)⟩
  · exact ⟨rfl, .inl⟩

/-- The point of a round is below its largest value. -/
theorem Recorded.pollNextRound (recorded : Recorded start orchestrator.votingStatus journal)
    (bounded : orchestrator.votingStatus.hasSentPrecommit = true → answers.canStartNextRound = true →
      orchestrator.votingStatus.round.point.toNat + 1 < 2 ^ 32) :
    Recorded start (orchestrator.pollNextRound time answers).1.votingStatus
      (journal ++ (orchestrator.pollNextRound time answers).2) := by
  unfold FinalizationOrchestrator.pollNextRound
  split
  · next starts =>
    rw [Bool.and_eq_true] at starts
    refine (recorded.left starts.1).advanced ?_ ?_
    · have below := bounded starts.1 starts.2
      rw [FinalizationRound.lt_iff]
      refine .inr ⟨rfl, ?_⟩
      change _ < (orchestrator.votingStatus.round.point + 1).toNat
      rw [UInt32.toNat_add, UInt32.toNat_one, Nat.mod_eq_of_lt below]
      exact Nat.lt_succ_self _
    · intro stage
      cases stage <;> rfl
  · rwa [List.append_nil]

/-- The poll leaves a round with the largest point. -/
def WrapsPoint (orchestrator : FinalizationOrchestrator) (answers : PollAnswers) : Prop :=
  orchestrator.votingStatus.round.point.toNat + 1 = 2 ^ 32 ∧
    (orchestrator.votingStatus.hasSentPrecommit = true ∨ answers.canSendPrecommit.isSome = true) ∧
    answers.canStartNextRound = true

/-- A call keeps the points of the rounds below their largest value. -/
def KeepsPoint (state : FinalizationOrchestrator × List OrchestratorEvent) : OrchestratorCall → Prop
  | .poll _ answers => ¬ WrapsPoint state.1 answers
  | .setEpoch _ => True
  | .restart => True

theorem Recorded.poll (recorded : Recorded start orchestrator.votingStatus journal)
    (keeps : ¬ WrapsPoint orchestrator answers) : Recorded start (orchestrator.poll time answers).1.votingStatus
      (journal ++ (orchestrator.poll time answers).2) := by
  unfold FinalizationOrchestrator.poll
  dsimp only
  generalize starting : (if orchestrator.stageAdvancer.isNone then orchestrator.startRound time else orchestrator) = started
  have sameStatus : started.votingStatus = orchestrator.votingStatus := by
    rw [← starting]
    split
    · rfl
    · rfl
  rw [← sameStatus] at recorded
  rw [← List.append_assoc, ← List.append_assoc]
  refine recorded.pollPrevote.pollPrecommit.pollNextRound ?_
  intro sent starts
  obtain ⟨prevoteRound, prevoteSent⟩ := pollPrevote_status started answers
  obtain ⟨precommitRound, precommitSent⟩ := pollPrecommit_status (started.pollPrevote answers).1 answers
  have sends := precommitSent sent
  rw [prevoteSent, sameStatus] at sends
  rw [precommitRound, prevoteRound, sameStatus]
  have small := orchestrator.votingStatus.round.point.toNat_lt
  have notLast : orchestrator.votingStatus.round.point.toNat + 1 ≠ 2 ^ 32 :=
    fun last => keeps ⟨last, sends, starts⟩
  omega

theorem Recorded.setEpoch (recorded : Recorded start orchestrator.votingStatus journal) (epoch : FinalizationEpoch) :
    Recorded start (orchestrator.setEpoch epoch).2.votingStatus journal := by
  unfold FinalizationOrchestrator.setEpoch
  split
  · exact recorded
  · next notSmaller =>
    split
    · exact recorded
    · next different =>
      refine recorded.advanced ?_ ?_
      · rw [← UInt32.toNat_inj] at different
        rw [UInt32.lt_iff_toNat_lt] at notSmaller
        rw [FinalizationRound.lt_iff]
        refine .inl ?_
        change _ < epoch.toNat
        omega
      · intro stage
        cases stage <;> rfl

theorem Recorded.step {state : FinalizationOrchestrator × List OrchestratorEvent}
    (recorded : Recorded start state.1.votingStatus state.2) (action : OrchestratorCall)
    (keeps : KeepsPoint state action) : Recorded start (FinalizationOrchestrator.step state action).1.votingStatus
      (FinalizationOrchestrator.step state action).2 := by
  cases action with
  | setEpoch epoch => simpa [FinalizationOrchestrator.step, call] using recorded.setEpoch epoch
  | poll time answers => exact recorded.poll keeps
  | restart => simpa [FinalizationOrchestrator.step, call, create] using recorded

/-- An epoch that is not larger leaves the orchestrator as it is. -/
theorem setEpoch_unchanged (orchestrator : FinalizationOrchestrator) (epoch : FinalizationEpoch) :
    (epoch < orchestrator.votingStatus.round.epoch → orchestrator.setEpoch epoch = (.error .cannotDecreaseEpoch, orchestrator)) ∧
    (epoch = orchestrator.votingStatus.round.epoch → orchestrator.setEpoch epoch = (.ok (), orchestrator)) := by
  unfold FinalizationOrchestrator.setEpoch
  constructor
  · intro smaller
    rw [if_pos smaller]
  · rintro rfl
    rw [if_neg (UInt32.lt_irrefl _), if_pos rfl]

/-- An orchestrator never votes twice in a run in which no point wraps around. -/
theorem run_never_equivocates (orchestrator : FinalizationOrchestrator) (calls : List OrchestratorCall)
    (keeps : Along FinalizationOrchestrator.step KeepsPoint (orchestrator, []) calls) :
    NeverEquivocates orchestrator.votingStatus (orchestrator.run calls).2 ∧ ∀ epoch,
        (epoch < (orchestrator.run calls).1.votingStatus.round.epoch →
          (orchestrator.run calls).1.setEpoch epoch = (.error .cannotDecreaseEpoch, (orchestrator.run calls).1)) ∧
        (epoch = (orchestrator.run calls).1.votingStatus.round.epoch →
          (orchestrator.run calls).1.setEpoch epoch = (.ok (), (orchestrator.run calls).1)) := by
  have recorded := keeps.invariant
    (fun state => Recorded orchestrator.votingStatus state.1.votingStatus state.2)
    (fun state action recorded keeps => recorded.step action keeps) (recorded_start orchestrator.votingStatus)
  exact ⟨recorded.toNeverEquivocates, fun epoch => setEpoch_unchanged _ epoch⟩

/-- Every answer lets the orchestrator go on with the given message. -/
def agreeingAnswers (message : FinalizationMessage) : PollAnswers where
  canSendPrevote := true
  createPrevote _ := some message
  canSendPrecommit := some ⟨1, zeroHash⟩
  createPrecommit _ _ _ := some message
  canStartNextRound := true
  messagePredicate _ := true

def emptyMessage : FinalizationMessage where
  reserved1 := 0
  signature := ⟨⟨zeroVotingKey, Vector.replicate 64 0⟩, ⟨zeroVotingKey, Vector.replicate 64 0⟩⟩
  version := 1
  stepIdentifier := ⟨1, 0⟩
  height := 1
  hashes := []
  counted := by decide

/-- The first round is voted for once although the process restarts. -/
theorem run_never_equivocates_first_round : NeverEquivocates ⟨⟨1, 1⟩, false, false⟩ ((create ⟨⟨1, 1⟩, false, false⟩).run
      [.poll 0 (agreeingAnswers emptyMessage), .restart, .setEpoch 2, .poll 5 (agreeingAnswers emptyMessage)]).2 := by
  refine (run_never_equivocates (create ⟨⟨1, 1⟩, false, false⟩) _ ?_).1
  refine ⟨?_, trivial, trivial, ?_, trivial⟩
  · rintro ⟨last, _⟩
    exact absurd last (by decide)
  · rintro ⟨last, _⟩
    exact absurd last (by decide)

/-- The round after the largest point is an earlier one. -/
theorem largest_point_equivocates :
    ¬ NeverEquivocates ⟨⟨1, 0xFFFFFFFF⟩, false, false⟩ ((create ⟨⟨1, 0xFFFFFFFF⟩, false, false⟩).run
      [.poll 0 (agreeingAnswers emptyMessage), .poll 5 (agreeingAnswers emptyMessage)]).2 := by
  intro safe
  have ordered := safe.ordered
  rw [show emissions _ = [(.prevote, ⟨1, 0xFFFFFFFF⟩), (.precommit, ⟨1, 0xFFFFFFFF⟩), (.prevote, ⟨1, 0⟩),
    (.precommit, ⟨1, 0⟩)] from rfl] at ordered
  rcases (List.pairwise_cons.mp ordered).1 (.prevote, ⟨1, 0⟩) (by simp) with less | same
  · rw [FinalizationRound.lt_iff] at less
    exact absurd less (by decide)
  · exact absurd (congrArg FinalizationRound.point same) (by decide)

end Catapult.Finalization
