import Catapult.Proof.Finalization.ProofCreation

/-
This file shows that two verified proofs cannot finalize different blocks unless voters contradict themselves.
-/

namespace Catapult.Finalization

open FinalizationHashTree Tally

variable {context : FinalizationContext} {aggregator : RoundMessageAggregator}

def voterOf (message : FinalizationMessage) : VotingKey := message.signature.root.parentPublicKey

def prevotesFor (key : HeightHashPair) (message : FinalizationMessage) : Bool :=
  isPrevote message && key ∈ branchKeys message.height message.hashes

/-- The voters whose prevotes contain a block. -/
def prevoters (messages : List FinalizationMessage) (key : HeightHashPair) : Finset VotingKey :=
  ((messages.filter (prevotesFor key)).map voterOf).toFinset

theorem mem_prevoters {messages : List FinalizationMessage} {key : HeightHashPair} {voter : VotingKey} :
    voter ∈ prevoters messages key ↔ ∃ message ∈ messages, PrevotesFor key message ∧ voterOf message = voter := by
  simp [prevoters, prevotesFor, PrevotesFor, and_assoc]

/-- The prevotes for a block weigh as much as their distinct voters. -/
theorem Aggregated.weightOf_prevotesFor (aggregated : Aggregated context aggregator) (key : HeightHashPair) :
    weightOf context (PrevotesFor key) aggregator =
      ∑ voter ∈ prevoters (stored aggregator) key, (context.lookup voter).weight.toNat := by
  have selected : ∀ message ∈ stored aggregator, PrevotesFor key message ↔ prevotesFor key message = true := fun message _ => by
    simp [PrevotesFor, prevotesFor]
  have within : (stored aggregator).filter (prevotesFor key) =
      ((stored aggregator).filter fun message => isPrevote message == true).filter (prevotesFor key) := by
    rw [List.filter_filter]
    refine List.filter_congr fun message _ => ?_
    cases prevoting : isPrevote message <;> simp [prevotesFor, prevoting]
  have distinct : (((stored aggregator).filter (prevotesFor key)).map voterOf).Nodup := by
    rw [within]
    exact (aggregated.voters_nodup true).sublist (List.filter_sublist.map _)
  rw [weightOf, tally_congr selected, tally_eq_sum_filter, prevoters, List.sum_toFinset _ distinct, List.map_map]
  rfl

/-- The best precommit has enough prevotes. -/
theorem Aggregated.bestPrecommit_weight (aggregated : Aggregated context aggregator) (bounded : Bounded context)
    {key : HeightHashPair} (found : aggregator.roundContext.tryFindBestPrecommit = some key) :
    (calculateWeightedThreshold context).toNat ≤
      ∑ voter ∈ prevoters (stored aggregator) key, (context.lookup voter).weight.toNat := by
  have reached := List.find?_some found
  simp only [Bool.and_eq_true, decide_eq_true_eq] at reached
  rw [← aggregated.weightOf_prevotesFor, ← aggregated.prevote_eq bounded, ← aggregated.threshold]
  exact UInt64.le_iff_toNat_le.mp reached.1

/-- Two groups of voters that both reach a threshold share all weight beyond the total. -/
theorem Bounded.shared (bounded : Bounded context) {first second : Finset VotingKey} {threshold : Nat}
    (firstReached : threshold ≤ ∑ voter ∈ first, (context.lookup voter).weight.toNat)
    (secondReached : threshold ≤ ∑ voter ∈ second, (context.lookup voter).weight.toNat) :
    2 * threshold ≤ context.weight.toNat + ∑ voter ∈ first ∩ second, (context.lookup voter).weight.toNat := by
  have both := @Finset.sum_union_inter _ _ first second _ (fun voter => (context.lookup voter).weight.toNat) _
  have together := bounded (first ∪ second)
  omega

theorem stage_create_precommit (round : FinalizationRound) : (StepIdentifier.create round .precommit).stage = .precommit := by
  have odd : (round.point <<< 1 ||| 1) &&& 1 = 1 := by
    rw [UInt32.eq_iff_toBitVec_eq]
    ext bit inside
    cases bit <;> simp
  have one : (1 : UInt32) ≠ 0 := by decide
  simp only [StepIdentifier.stage, StepIdentifier.create, odd, if_neg one]

theorem stepIdentifier_of_mem {proof : FinalizationProof} {message : FinalizationMessage} (inside : message ∈ proof.messages)
    (prevoting : isPrevote message = true) : message.stepIdentifier = .create proof.round .prevote := by
  obtain ⟨messageGroup, _, made⟩ := List.mem_flatMap.mp inside
  obtain ⟨signature, _, rfl⟩ := List.mem_map.mp made
  have stage : (StepIdentifier.create proof.round (.ofUInt32 messageGroup.stage)).stage = .prevote :=
    of_decide_eq_true prevoting
  rw [createTemplateMessage]
  cases sent : FinalizationStage.ofUInt32 messageGroup.stage with
  | prevote => rfl
  | precommit =>
    rw [sent, stage_create_precommit] at stage
    cases stage

section Agreement

variable [Sha3] [VotingVerifier]

/-- The voter has signed two different prevotes for one step. -/
structure Contradicts (first second : FinalizationProof) (voter : VotingKey) : Prop where
  signed : ∃ message ∈ first.messages, ∃ other ∈ second.messages,
    voterOf message = voter ∧ voterOf other = voter ∧ isPrevote message = true ∧ isPrevote other = true ∧
      message.stepIdentifier = other.stepIdentifier ∧
      (message.height, message.hashes) ≠ (other.height, other.hashes) ∧
      verify message.signature (stepIdentifierToBmKeyIdentifier message.stepIdentifier) message.toBuffer = true ∧
      verify other.signature (stepIdentifierToBmKeyIdentifier other.stepIdentifier) other.toBuffer = true

/-- The blocks of both proofs belong to the branch of one prevote. -/
structure OneBranch (first second : FinalizationProof) : Prop where
  contained : ∃ message ∈ first.messages, ∃ other ∈ second.messages, message.height = other.height ∧
    message.hashes = other.hashes ∧ PrevotesFor ⟨first.height, first.hash⟩ message ∧
    PrevotesFor ⟨second.height, second.hash⟩ message
  sameHeight : first.height = second.height → first.hash = second.hash

/-- Proofs of one round agree unless the voters who contradict themselves have the weight by which two quorums overlap. -/
theorem verified_proofs_agree (epoch : FinalizationEpoch) (height : Height) (config : FinalizationConfiguration)
    (highValueAccounts : HighValueAccounts) {context : FinalizationContext}
    (created : context = FinalizationContext.create epoch height config highValueAccounts)
    {first second : FinalizationProof} (sameRound : first.round = second.round)
    (firstVerified : verifyFinalizationProof first context = .ok .success)
    (secondVerified : verifyFinalizationProof second context = .ok .success) : OneBranch first second ∨
      ∃ voters : Finset VotingKey, (∀ voter ∈ voters, Contradicts first second voter) ∧
        2 * (calculateWeightedThreshold context).toNat ≤
          context.weight.toNat + ∑ voter ∈ voters, (context.lookup voter).weight.toNat := by
  have bounded : Bounded context := created ▸ bounded_create epoch height config highValueAccounts
  obtain ⟨_, _, firstAggregator, firstAdded, firstBest⟩ := verifyFinalizationProof_iff.mp firstVerified
  obtain ⟨_, _, secondAggregator, secondAdded, secondBest⟩ := verifyFinalizationProof_iff.mp secondVerified
  obtain ⟨firstReplayable, firstStored⟩ := (replayable_create context).addProofMessages firstAdded
  obtain ⟨secondReplayable, secondStored⟩ := (replayable_create context).addProofMessages secondAdded
  change stored firstAggregator = first.messages at firstStored
  change stored secondAggregator = second.messages at secondStored
  have firstReached := firstReplayable.aggregated.bestPrecommit_weight bounded firstBest
  have secondReached := secondReplayable.aggregated.bestPrecommit_weight bounded secondBest
  have overlap := bounded.shared firstReached secondReached
  rw [firstStored, secondStored] at overlap
  by_cases common : ∃ message ∈ first.messages, ∃ other ∈ second.messages, message.height = other.height ∧
      message.hashes = other.hashes ∧ PrevotesFor ⟨first.height, first.hash⟩ message ∧
      PrevotesFor ⟨second.height, second.hash⟩ message
  · refine .inl ⟨common, fun sameHeight => ?_⟩
    obtain ⟨message, _, _, _, _, _, containsFirst, containsSecond⟩ := common
    -- one prevote contains at most one block of a height
    have small : message.hashes.length ≤ 2 ^ 64 := message.counted.le.trans (by decide)
    exact congrArg HeightHashPair.hash
      (List.inj_on_of_nodup_map (branchKeys_heights small) containsFirst.2 containsSecond.2 sameHeight)
  · refine .inr ⟨_, fun voter inBoth => ?_, overlap⟩
    obtain ⟨inFirst, inSecond⟩ := Finset.mem_inter.mp inBoth
    obtain ⟨message, isMessage, containsFirst, isVoter⟩ := mem_prevoters.mp inFirst
    obtain ⟨other, isOther, containsSecond, isOtherVoter⟩ := mem_prevoters.mp inSecond
    have accepted := firstReplayable.accepted message (firstStored ▸ isMessage)
    have otherAccepted := secondReplayable.accepted other (secondStored ▸ isOther)
    refine ⟨message, isMessage, other, isOther, isVoter, isOtherVoter, containsFirst.1, containsSecond.1, ?_, fun same => ?_,
      accepted.checks.2.2, otherAccepted.checks.2.2⟩
    · rw [stepIdentifier_of_mem isMessage containsFirst.1, stepIdentifier_of_mem isOther containsSecond.1, sameRound]
    · obtain ⟨sameHeight, sameHashes⟩ := Prod.mk.inj same
      refine common ⟨message, isMessage, other, isOther, sameHeight, sameHashes, containsFirst, containsFirst.1, ?_⟩
      rw [sameHeight, sameHashes]
      exact containsSecond.2

end Agreement

namespace Samples

def heavyContext : FinalizationContext := .create 2 1 windowConfiguration votingAccounts

def heavyGroup (stage : FinalizationStage) : FinalizationMessageGroup :=
  ⟨stage.toUInt32, 5, [blockHash 5], one_hash, [(heavyMessage stage).signature]⟩

def heavyProof (stages : List FinalizationStage) : FinalizationProof :=
  ⟨FinalizationProof.currentVersion, ⟨2, 1⟩, 5, blockHash 5, stages.map heavyGroup⟩

def heavyAdded (stages : List FinalizationStage) : Option RoundMessageAggregator :=
  letI := sha3Digest
  letI := sampleVerifier
  match (RoundMessageAggregator.create heavyContext).addProofMessages (heavyProof stages).messages with
  | .ok (some aggregator) => some aggregator
  | _ => none

theorem heavyAdded_weights : ∀ stages ∈ [[FinalizationStage.prevote, .precommit], [.precommit, .prevote]],
    (heavyAdded stages).isSome = true ∧ ∀ aggregator ∈ (heavyAdded stages).toList,
      aggregator.roundContext.candidates.keys = {⟨5, blockHash 5⟩} ∧
        aggregator.roundContext.candidates.weights ⟨5, blockHash 5⟩ = ⟨9, 9⟩ ∧ aggregator.roundContext.threshold = 7 := by
  decide +kernel

theorem heavyProof_verified {stages : List FinalizationStage}
    (ordered : stages ∈ [[FinalizationStage.prevote, .precommit], [.precommit, .prevote]]) :
    letI := sha3Digest; letI := sampleVerifier
    verifyFinalizationProof (heavyProof stages) heavyContext = .ok .success := by
  let := sha3Digest
  let := sampleVerifier
  obtain ⟨isSome, weighted⟩ := heavyAdded_weights stages ordered
  obtain ⟨aggregator, added⟩ := Option.isSome_iff_exists.mp isSome
  obtain ⟨keys, weights, threshold⟩ := weighted aggregator (Option.mem_toList.mpr added)
  refine verifyFinalizationProof_iff.mpr ⟨rfl, (create_epoch 2 1 windowConfiguration votingAccounts).symm, aggregator, ?_,
    heavy_bestPrecommit keys weights threshold⟩
  unfold heavyAdded at added
  split at added
  · next other ran =>
    obtain rfl := Option.some.inj added
    exact ran
  · cases added

/-- The order of the groups makes no difference. -/
theorem verified_proofs_agree_heavy : letI := sha3Digest; letI := sampleVerifier
    OneBranch (heavyProof [.prevote, .precommit]) (heavyProof [.precommit, .prevote]) ∨ ∃ voters : Finset VotingKey,
        (∀ voter ∈ voters, Contradicts (heavyProof [.prevote, .precommit]) (heavyProof [.precommit, .prevote]) voter) ∧
          2 * (calculateWeightedThreshold heavyContext).toNat ≤
            heavyContext.weight.toNat + ∑ voter ∈ voters, (heavyContext.lookup voter).weight.toNat := by
  let := sha3Digest
  let := sampleVerifier
  exact verified_proofs_agree 2 1 windowConfiguration votingAccounts rfl rfl (heavyProof_verified List.mem_cons_self)
    (heavyProof_verified (List.mem_cons_of_mem _ List.mem_cons_self))

end Samples

end Catapult.Finalization
