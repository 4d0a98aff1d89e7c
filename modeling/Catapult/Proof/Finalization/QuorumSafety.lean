import Catapult.Construction.Finalization.RoundMessageAggregator
import Catapult.Proof.Finalization.Counting
import Mathlib.Algebra.BigOperators.Group.Finset.Piecewise
import Mathlib.Algebra.Order.BigOperators.Group.Finset

/-
This file shows that a round never counts a voter twice and that its quorums cannot contradict each other.
-/

namespace Catapult.Finalization

open FinalizationHashTree Tally RoundMessageAggregator

/-- The weights of distinct voters add up to at most the total weight. -/
def Bounded (context : FinalizationContext) : Prop :=
  ∀ voters : Finset VotingKey, ∑ voter ∈ voters, (context.lookup voter).weight.toNat ≤ context.weight.toNat

/-- An account adds its balance to the total weight and at most once to a voting key. -/
theorem Bounded.addAccount {context : FinalizationContext} (bounded : Bounded context) (accountHistory : Address × AccountHistory)
    (small : context.weight.toNat + (accountHistory.2.balance.get context.height).toNat < 2 ^ 64) :
    Bounded (context.addAccount accountHistory) ∧ (context.addAccount accountHistory).height = context.height ∧
      (context.addAccount accountHistory).weight.toNat ≤
        context.weight.toNat + (accountHistory.2.balance.get context.height).toNat := by
  unfold FinalizationContext.addAccount
  generalize accountHistory.2.balance.get context.height = balance at *
  generalize findVotingPublicKeyForEpoch _ context.epoch = votingKey
  have grown : (context.weight + balance).toNat = context.weight.toNat + balance.toNat := by
    rw [UInt64.toNat_add, Nat.mod_eq_of_lt small]
  dsimp only
  split_ifs
  · exact ⟨bounded, rfl, Nat.le_add_right _ _⟩
  · exact ⟨bounded, rfl, Nat.le_add_right _ _⟩
  · exact ⟨bounded, rfl, Nat.le_add_right _ _⟩
  · refine ⟨fun voters => ?_, rfl, grown.le⟩
    refine le_trans ?_ grown.ge
    -- the balance reaches only the voting key of the account, and only if the key is new
    have pointwise : ∀ voter ∈ voters,
        ((FinalizationContext.emplace context.accounts votingKey ⟨balance⟩ voter).getD .zero).weight.toNat ≤
          (context.lookup voter).weight.toNat + if voter = votingKey then balance.toNat else 0 := by
      intro voter _
      unfold FinalizationContext.emplace
      cases context.accounts votingKey with
      | some _ => exact Nat.le_add_right _ _
      | none =>
        by_cases same : voter = votingKey
        · simp [same]
        · simp [same, FinalizationContext.lookup]
    calc _ ≤ ∑ voter ∈ voters, ((context.lookup voter).weight.toNat +
          if voter = votingKey then balance.toNat else 0) := Finset.sum_le_sum pointwise
      _ = ∑ voter ∈ voters, (context.lookup voter).weight.toNat +
          if votingKey ∈ voters then balance.toNat else 0 := by
            rw [Finset.sum_add_distrib, Finset.sum_ite_eq']
      _ ≤ context.weight.toNat + balance.toNat := by
            refine Nat.add_le_add (bounded voters) ?_
            split
            · exact le_refl _
            · exact Nat.zero_le _

/-- The total weight is an exact sum because the balances add up to at most the supply. -/
theorem bounded_foldl {histories : List (Address × AccountHistory)} {context : FinalizationContext}
    (bounded : Bounded context) (small : context.weight.toNat +
      (histories.map fun history => (history.2.balance.get context.height).toNat).sum < 2 ^ 64) :
    Bounded (histories.foldl FinalizationContext.addAccount context) := by
  induction histories generalizing context with
  | nil => exact bounded
  | cons history histories ih =>
    rw [List.map_cons, List.sum_cons] at small
    obtain ⟨nextBounded, sameHeight, grown⟩ := bounded.addAccount history (by omega)
    refine ih nextBounded ?_
    rw [sameHeight]
    omega

theorem bounded_create (epoch : FinalizationEpoch) (height : Height) (config : FinalizationConfiguration)
    (highValueAccounts : HighValueAccounts) : Bounded (FinalizationContext.create epoch height config highValueAccounts) := by
  refine bounded_foldl (fun voters => ?_) ?_
  · simp [FinalizationContext.lookup, FinalizationAccountView.zero]
  · simpa using highValueAccounts.supplied height

section Messages

variable {context : FinalizationContext} {aggregator : RoundMessageAggregator}

/-- The messages that the aggregator has accepted. -/
def stored (aggregator : RoundMessageAggregator) : List FinalizationMessage :=
  aggregator.messages.map fun entry => entry.2.message

/-- A message has the weight of its voter. -/
def messageWeight (context : FinalizationContext) (message : FinalizationMessage) : UInt64 :=
  (context.lookup message.signature.root.parentPublicKey).weight

/-- A precommit names its first hash. -/
def precommitKey (message : FinalizationMessage) : HeightHashPair := ⟨message.height, firstHash message⟩

def voteOf (context : FinalizationContext) (message : FinalizationMessage) : Vote :=
  if isPrevote message then .prevote message.height message.hashes (messageWeight context message)
  else .precommit message.height (firstHash message) (messageWeight context message)

/-- The round counts exactly the stored messages, and every voter has at most one in each stage. -/
structure Aggregated (context : FinalizationContext) (aggregator : RoundMessageAggregator) : Prop where
  unchanged : aggregator.finalizationContext = context
  keyed : aggregator.messages.map Prod.fst = (stored aggregator).map messageKey
  distinct : ((stored aggregator).map messageKey).Nodup
  tallied : Tallied ((stored aggregator).map (voteOf context)) aggregator.roundContext
  total : aggregator.roundContext.totalWeight = context.weight
  threshold : aggregator.roundContext.threshold = calculateWeightedThreshold context

theorem aggregated_create (context : FinalizationContext) : Aggregated context (RoundMessageAggregator.create context) :=
  ⟨rfl, rfl, List.nodup_nil, tallied_create _ _, rfl, rfl⟩

/-- A message of a stage in which its voter has no message yet is counted. -/
theorem Aggregated.acceptMessage (aggregated : Aggregated context aggregator) (message : FinalizationMessage) :
    ∃ roundContext, aggregator.acceptMessage message (messageWeight context message) = .ok roundContext ∧
      Tallied ((stored aggregator).map (voteOf context) ++ [voteOf context message]) roundContext ∧
      roundContext.totalWeight = context.weight ∧
      roundContext.threshold = calculateWeightedThreshold context := by
  unfold RoundMessageAggregator.acceptMessage voteOf
  by_cases prevoting : isPrevote message = true
  · simp only [prevoting, if_true]
    have small : message.hashes.length ≤ 2 ^ 64 := message.counted.le.trans (by decide)
    obtain ⟨next, done, tallied, _, sameTotal, sameThreshold⟩ :=
      aggregated.tallied.acceptPrevote (branchKeys_nodup small) (messageWeight context message)
    exact ⟨next, done, tallied, sameTotal.trans aggregated.total, sameThreshold.trans aggregated.threshold⟩
  · simp only [prevoting]
    obtain ⟨next, done, tallied, _, sameTotal, sameThreshold⟩ :=
      aggregated.tallied.acceptPrecommit message.height (firstHash message) (messageWeight context message)
    exact ⟨next, done, tallied, sameTotal.trans aggregated.total, sameThreshold.trans aggregated.threshold⟩

/-- A processed message has the weight of its voter. -/
theorem processMessage_weight [VotingVerifier] {message : FinalizationMessage} {weight : UInt64}
    (processed : processMessage message context = (.success, weight)) : weight = messageWeight context message := by
  unfold processMessage at processed
  dsimp only at processed
  split_ifs at processed
  · simp at processed
  · simp at processed
  · simp at processed
  · simp at processed
  · simpa [messageWeight] using processed.symm

/-- The checks before the message is processed can only fail with an exception. -/
theorem hasValidHashes_yields (aggregator : RoundMessageAggregator) (message : FinalizationMessage) :
    Runs.Yields (fun _ => True) (fun error => ∃ text, error = .invalidArgument text)
      (aggregator.hasValidHashes message) := by
  have endHeight : ∀ epoch grouping, Runs.Yields (fun _ => True) (fun error => ∃ text, error = .invalidArgument text)
      (calculateVotingSetEndHeight epoch grouping) := by
    intro epoch grouping
    unfold calculateVotingSetEndHeight
    split_ifs
    · exact ⟨_, rfl⟩
    · exact ⟨_, rfl⟩
    · trivial
    · trivial
  unfold hasValidHashes
  split
  · exact (endHeight _ _).bind fun _ _ _ => (endHeight _ _).bind fun _ _ _ => trivial
  · trivial

variable [Sha3] [VotingVerifier]

/-- A message with a new key is counted once or not at all. -/
theorem Aggregated.addNew (aggregated : Aggregated context aggregator) {message : FinalizationMessage}
    (new : messageKey message ∉ (stored aggregator).map messageKey) :
    ∃ outcome, aggregator.addNew message = .ok outcome ∧ Aggregated context outcome.2 := by
  unfold RoundMessageAggregator.addNew
  rw [aggregated.unchanged]
  split
  · next weight processed =>
    obtain ⟨roundContext, done, tallied, total, threshold⟩ := aggregated.acceptMessage message
    rw [processMessage_weight processed, done]
    have extended : (aggregator.messages ++ [(messageKey message, createMessageDescriptor message)]).map
        (fun entry => entry.2.message) = stored aggregator ++ [message] := by
      simp [stored, createMessageDescriptor]
    refine ⟨_, rfl, rfl, ?_, ?_, ?_, total, threshold⟩
    · simp only [stored, extended]
      rw [List.map_append, List.map_append, aggregated.keyed]
      rfl
    · simp only [stored, extended]
      rw [List.map_append]
      exact aggregated.distinct.append (List.nodup_singleton _) (by simpa using new)
    · simp only [stored, extended]
      rw [List.map_append]
      exact tallied
  · exact ⟨_, rfl, aggregated⟩

/-- A second message of a voter in a stage changes nothing. -/
theorem Aggregated.addChecked (aggregated : Aggregated context aggregator) (message : FinalizationMessage) :
    ∃ outcome, aggregator.addChecked message = .ok outcome ∧ Aggregated context outcome.2 := by
  unfold RoundMessageAggregator.addChecked
  cases found : aggregator.find (messageKey message) with
  | some descriptor => exact ⟨_, rfl, aggregated⟩
  | none =>
    refine aggregated.addNew ?_
    rw [← aggregated.keyed]
    intro known
    obtain ⟨entry, isEntry, same⟩ := List.mem_map.mp known
    have different := List.lookup_eq_none_iff.mp found entry isEntry
    simp [same] at different

/-- Every message that is offered leaves a consistent aggregator behind. -/
theorem Aggregated.offer (aggregated : Aggregated context aggregator) (message : FinalizationMessage) :
    ∃ next, aggregator.offer message = .ok next ∧ Aggregated context next := by
  obtain ⟨outcome, checked, nextAggregated⟩ := aggregated.addChecked message
  unfold RoundMessageAggregator.offer RoundMessageAggregator.add
  dsimp only
  split_ifs
  · exact ⟨_, rfl, aggregated⟩
  · exact ⟨_, rfl, aggregated⟩
  · have thrown := hasValidHashes_yields aggregator message
    generalize aggregator.hasValidHashes message = validated at thrown
    cases validated with
    | error error =>
      obtain ⟨text, rfl⟩ := thrown
      exact ⟨_, rfl, aggregated⟩
    | ok valid =>
      cases valid with
      | false => exact ⟨_, rfl, aggregated⟩
      | true =>
        refine ⟨outcome.2, ?_, nextAggregated⟩
        rw [checked]
        rfl

/-- Every sequence of messages leaves a consistent aggregator behind. -/
theorem Aggregated.offerAll (aggregated : Aggregated context aggregator) (messages : List FinalizationMessage) :
    ∃ next, aggregator.offerAll messages = .ok next ∧ Aggregated context next := by
  induction messages generalizing aggregator with
  | nil => exact ⟨aggregator, rfl, aggregated⟩
  | cons message messages ih =>
    obtain ⟨middle, first, middleAggregated⟩ := aggregated.offer message
    obtain ⟨next, rest, nextAggregated⟩ := ih middleAggregated
    exact ⟨next, Runs.bind_eq_ok.mpr ⟨middle, first, rest⟩, nextAggregated⟩

end Messages

variable {context : FinalizationContext} {aggregator : RoundMessageAggregator}

/-- The weight of the stored messages with a property. -/
noncomputable def weightOf (context : FinalizationContext) (counts : FinalizationMessage → Prop)
    (aggregator : RoundMessageAggregator) : Nat :=
  tally (fun message => (messageWeight context message).toNat) counts (stored aggregator)

/-- A stored prevote contains the block. -/
def PrevotesFor (key : HeightHashPair) (message : FinalizationMessage) : Prop :=
  isPrevote message = true ∧ key ∈ branchKeys message.height message.hashes

/-- A stored precommit names a candidate. -/
def Precommits (roundContext : RoundContext) (message : FinalizationMessage) : Prop :=
  isPrevote message = false ∧ precommitKey message ∈ roundContext.candidates.keys

/-- A stored precommit names a candidate that descends from the block. -/
def PrecommitsTo (roundContext : RoundContext) (key : HeightHashPair) (message : FinalizationMessage) : Prop :=
  Precommits roundContext message ∧ key ∈ roundContext.tree.findAncestors (precommitKey message)

/-- The voters of one stage are distinct. -/
theorem Aggregated.voters_nodup (aggregated : Aggregated context aggregator) (stage : Bool) :
    (((stored aggregator).filter fun message => isPrevote message == stage).map
      fun message => message.signature.root.parentPublicKey).Nodup := by
  have selected : ((stored aggregator).filter fun message => isPrevote message == stage).Sublist
      (stored aggregator) := List.filter_sublist
  have keysDistinct := aggregated.distinct.sublist (selected.map messageKey)
  rw [List.Nodup, List.pairwise_map] at keysDistinct ⊢
  refine keysDistinct.imp_of_mem ?_
  intro first second inFirst inSecond different same
  have firstStage : isPrevote first = stage := by simpa using (List.mem_filter.mp inFirst).2
  have secondStage : isPrevote second = stage := by simpa using (List.mem_filter.mp inSecond).2
  exact different (Prod.ext same (firstStage.trans secondStage.symm))

/-- Messages of one stage never outweigh all voters. -/
theorem Aggregated.weightOf_le (aggregated : Aggregated context aggregator) (bounded : Bounded context)
    (stage : Bool) {counts : FinalizationMessage → Prop} (inStage : ∀ message, counts message → isPrevote message = stage) :
    weightOf context counts aggregator ≤ context.weight.toNat := by
  calc weightOf context counts aggregator
      ≤ weightOf context (fun message => (isPrevote message == stage) = true) aggregator :=
        tally_le_of_imp fun message _ counted => by simpa using inStage message counted
    _ = ((((stored aggregator).filter fun message => isPrevote message == stage).map
          fun message => message.signature.root.parentPublicKey).map
            fun voter => (context.lookup voter).weight.toNat).sum := by
        rw [weightOf, tally_eq_sum_filter, List.map_map]
        rfl
    _ ≤ context.weight.toNat := by
        rw [← List.sum_toFinset _ (aggregated.voters_nodup stage)]
        exact bounded _

/-- The prevotes of the round are the stored messages of the first stage. -/
theorem tally_prevotesOf (messages : List FinalizationMessage) (counts : List HeightHashPair × UInt64 → Prop) :
    tally Prod.snd counts (prevotesOf (messages.map (voteOf context))) =
      tally (messageWeight context) (fun message => isPrevote message = true ∧
        counts (branchKeys message.height message.hashes, messageWeight context message)) messages := by
  rw [prevotesOf, List.filterMap_map, tally_filterMap]
  · refine tally_congr fun message _ => ?_
    by_cases prevoting : isPrevote message = true <;> simp [voteOf, prevoting]
  · intro message vote derived
    by_cases prevoting : isPrevote message = true
    · simp only [Function.comp_apply, voteOf, prevoting, if_true, Option.some.injEq] at derived
      rw [← derived]
    · simp [voteOf, prevoting] at derived

/-- The precommits of the round are the stored messages of the second stage. -/
theorem tally_precommitsOf (messages : List FinalizationMessage) (counts : HeightHashPair × UInt64 → Prop) :
    tally Prod.snd counts (precommitsOf (messages.map (voteOf context))) =
      tally (messageWeight context) (fun message => isPrevote message = false ∧
        counts (precommitKey message, messageWeight context message)) messages := by
  rw [precommitsOf, List.filterMap_map, tally_filterMap]
  · refine tally_congr fun message _ => ?_
    by_cases prevoting : isPrevote message = true <;> simp [voteOf, prevoting, precommitKey]
  · intro message vote derived
    by_cases prevoting : isPrevote message = true
    · simp [voteOf, prevoting] at derived
    · simp only [Function.comp_apply, voteOf, prevoting, Bool.false_eq_true, if_false, Option.some.injEq] at derived
      rw [← derived]

/-- The sum of the weights of one stage never wraps. -/
theorem Aggregated.toNat_weight (aggregated : Aggregated context aggregator) (bounded : Bounded context)
    (stage : Bool) {counts : FinalizationMessage → Prop} (inStage : ∀ message, counts message → isPrevote message = stage) :
    (tally (messageWeight context) counts (stored aggregator)).toNat = weightOf context counts aggregator :=
  toNat_tally ((aggregated.weightOf_le bounded stage inStage).trans_lt context.weight.toNat_lt)

/-- The prevote weight of a block is the exact weight of the stored prevotes that contain it. -/
theorem Aggregated.prevote_eq (aggregated : Aggregated context aggregator) (bounded : Bounded context)
    (key : HeightHashPair) : (aggregator.roundContext.candidates.weights key).prevote.toNat =
      weightOf context (PrevotesFor key) aggregator := by
  rw [aggregated.tallied.counted.prevote, prevoteWeight, tally_prevotesOf]
  exact aggregated.toNat_weight bounded true fun message counted => counted.1

/-- The precommit weight of a block is the exact weight of the stored precommits to its descendants. -/
theorem Aggregated.precommit_eq (aggregated : Aggregated context aggregator) (bounded : Bounded context)
    (key : HeightHashPair) : (aggregator.roundContext.candidates.weights key).precommit.toNat =
      weightOf context (PrecommitsTo aggregator.roundContext key) aggregator := by
  have regrouped : ∀ message ∈ stored aggregator, isPrevote message = false ∧
      (precommitKey message ∈ aggregator.roundContext.candidates.keys ∧
        key ∈ aggregator.roundContext.tree.findAncestors (precommitKey message)) ↔
      PrecommitsTo aggregator.roundContext key message := fun message _ => and_assoc.symm
  rw [aggregated.tallied.counted.precommit, tally_precommitsOf, tally_congr regrouped]
  exact aggregated.toNat_weight bounded false fun message counted => counted.1.1

/-- The cumulative weight is the exact weight of the stored precommits to candidates. -/
theorem Aggregated.cumulative_eq (aggregated : Aggregated context aggregator) (bounded : Bounded context) :
    aggregator.roundContext.cumulativePrecommitWeight.toNat =
      weightOf context (Precommits aggregator.roundContext) aggregator := by
  rw [aggregated.tallied.counted.cumulative, tally_precommitsOf]
  exact aggregated.toNat_weight bounded false fun message counted => counted.1

/-- The properties of a round that hold after any sequence of messages. -/
structure QuorumSafe (context : FinalizationContext) (aggregator : RoundMessageAggregator) : Prop where
  totalWeight : aggregator.roundContext.totalWeight = context.weight
  threshold : aggregator.roundContext.threshold = calculateWeightedThreshold context
  onceInStage : ((stored aggregator).map messageKey).Nodup
  prevoteCounted : ∀ key ∈ aggregator.roundContext.candidates.keys,
    (aggregator.roundContext.weights key).prevote.toNat = weightOf context (PrevotesFor key) aggregator
  precommitCounted : ∀ key ∈ aggregator.roundContext.candidates.keys, (aggregator.roundContext.weights key).precommit.toNat =
      weightOf context (PrecommitsTo aggregator.roundContext key) aggregator
  cumulativeCounted : aggregator.roundContext.cumulativePrecommitWeight.toNat =
    weightOf context (Precommits aggregator.roundContext) aggregator
  ancestorsStored : ∀ key, ∀ ancestor ∈ aggregator.roundContext.tree.findAncestors key,
    ancestor ∈ aggregator.roundContext.candidates.keys
  prevoteBounded : ∀ key ∈ aggregator.roundContext.candidates.keys,
    (aggregator.roundContext.weights key).prevote.toNat ≤ context.weight.toNat
  precommitBounded : ∀ key ∈ aggregator.roundContext.candidates.keys,
    (aggregator.roundContext.weights key).precommit.toNat ≤ context.weight.toNat
  noUnderflow : aggregator.roundContext.cumulativePrecommitWeight.toNat ≤ aggregator.roundContext.totalWeight.toNat
  prevoteQuorum : context.weight.toNat < 2 * aggregator.roundContext.threshold.toNat →
    ∀ first ∈ aggregator.roundContext.candidates.keys, ∀ second ∈ aggregator.roundContext.candidates.keys,
      first.height = second.height →
      aggregator.roundContext.threshold ≤ (aggregator.roundContext.weights first).prevote →
      aggregator.roundContext.threshold ≤ (aggregator.roundContext.weights second).prevote → first = second
  precommitQuorum : context.weight.toNat < 2 * aggregator.roundContext.threshold.toNat →
    ∀ first ∈ aggregator.roundContext.candidates.keys, ∀ second ∈ aggregator.roundContext.candidates.keys,
      aggregator.roundContext.threshold ≤ (aggregator.roundContext.weights first).precommit →
      aggregator.roundContext.threshold ≤ (aggregator.roundContext.weights second).precommit →
      aggregator.roundContext.tree.isDescendant first second = true ∨
        aggregator.roundContext.tree.isDescendant second first = true

/-- Two groups of messages of one stage that both reach a majority share a message. -/
theorem Aggregated.exists_common_message (aggregated : Aggregated context aggregator) (bounded : Bounded context)
    (stage : Bool) {first second : FinalizationMessage → Prop}
    (firstInStage : ∀ message, first message → isPrevote message = stage)
    (secondInStage : ∀ message, second message → isPrevote message = stage) {threshold : UInt64}
    (majority : context.weight.toNat < 2 * threshold.toNat) (firstReached : threshold.toNat ≤ weightOf context first aggregator)
    (secondReached : threshold.toNat ≤ weightOf context second aggregator) :
    ∃ message ∈ stored aggregator, first message ∧ second message := by
  have together : weightOf context (fun message => first message ∨ second message) aggregator ≤ context.weight.toNat :=
    aggregated.weightOf_le bounded stage fun message either =>
      either.elim (firstInStage message) (secondInStage message)
  unfold weightOf at firstReached secondReached together
  exact exists_common_vote together (by omega)

theorem Aggregated.quorumSafe (aggregated : Aggregated context aggregator) (bounded : Bounded context) :
    QuorumSafe context aggregator := by
  have counted := aggregated.tallied.counted
  have known : ∀ key ∈ aggregator.roundContext.candidates.keys,
      aggregator.roundContext.weights key = aggregator.roundContext.candidates.weights key :=
    fun key isCandidate => if_pos isCandidate
  refine ⟨aggregated.total, aggregated.threshold, aggregated.distinct, ?_, ?_, aggregated.cumulative_eq bounded,
    ?_, ?_, ?_, ?_, ?_, ?_⟩
  · intro key isCandidate
    rw [known key isCandidate, aggregated.prevote_eq bounded]
  · intro key isCandidate
    rw [known key isCandidate, aggregated.precommit_eq bounded]
  · intro key ancestor isAncestor
    exact (aggregated.tallied.candidate ancestor).mpr (findAncestorsFrom_subset _ _ _ isAncestor)
  · intro key isCandidate
    rw [known key isCandidate, aggregated.prevote_eq bounded]
    exact aggregated.weightOf_le bounded true fun message prevotes => prevotes.1
  · intro key isCandidate
    rw [known key isCandidate, aggregated.precommit_eq bounded]
    exact aggregated.weightOf_le bounded false fun message precommits => precommits.1.1
  · rw [aggregated.cumulative_eq bounded, aggregated.total]
    exact aggregated.weightOf_le bounded false fun message precommits => precommits.1
  · intro majority first isFirst second isSecond sameHeight firstReached secondReached
    rw [UInt64.le_iff_toNat_le, known _ isFirst, aggregated.prevote_eq bounded] at firstReached
    rw [UInt64.le_iff_toNat_le, known _ isSecond, aggregated.prevote_eq bounded] at secondReached
    obtain ⟨message, _, prevotesFirst, prevotesSecond⟩ := aggregated.exists_common_message bounded true
      (fun message prevotes => prevotes.1) (fun message prevotes => prevotes.1) majority firstReached secondReached
    -- one prevote contains at most one block of a height
    have small : message.hashes.length ≤ 2 ^ 64 := message.counted.le.trans (by decide)
    exact List.inj_on_of_nodup_map (branchKeys_heights small) prevotesFirst.2 prevotesSecond.2 sameHeight
  · intro majority first isFirst second isSecond firstReached secondReached
    rw [UInt64.le_iff_toNat_le, known _ isFirst, aggregated.precommit_eq bounded] at firstReached
    rw [UInt64.le_iff_toNat_le, known _ isSecond, aggregated.precommit_eq bounded] at secondReached
    obtain ⟨message, _, toFirst, toSecond⟩ := aggregated.exists_common_message bounded false
      (fun message precommits => precommits.1.1) (fun message precommits => precommits.1.1) majority
      firstReached secondReached
    -- both blocks are ancestors of the block that the common precommit names
    rw [isDescendant_iff, isDescendant_iff]
    exact findAncestors_chain counted.rooted toFirst.2 toSecond.2

/-- Any sequence of messages leaves a round in which no voter counts twice and no quorums contradict. -/
theorem offerAll_quorumSafe [Sha3] [VotingVerifier] (epoch : FinalizationEpoch) (height : Height)
    (config : FinalizationConfiguration) (highValueAccounts : HighValueAccounts) (messages : List FinalizationMessage) :
    ∃ aggregator, (RoundMessageAggregator.create
        (FinalizationContext.create epoch height config highValueAccounts)).offerAll messages = .ok aggregator ∧
      QuorumSafe (FinalizationContext.create epoch height config highValueAccounts) aggregator := by
  obtain ⟨aggregator, offered, aggregated⟩ := (aggregated_create _).offerAll messages
  exact ⟨aggregator, offered, aggregated.quorumSafe (bounded_create epoch height config highValueAccounts)⟩

end Catapult.Finalization
