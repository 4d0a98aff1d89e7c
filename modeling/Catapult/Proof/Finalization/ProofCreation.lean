import Catapult.Construction.Finalization.FinalizationProof
import Catapult.Library.ByteStream
import Catapult.Proof.Finalization.DeliveryOrder
import Catapult.Proof.Finalization.QuorumSafety
import Catapult.Proof.Finalization.RoundWindow

/-
This file shows that a created proof holds exactly the messages of its round and that every node with the same context
verifies it.
-/

namespace Catapult.Finalization

open FinalizationHashTree RoundMessageAggregator

theorem toBytes_eq_littleEndian (size value : Nat) : toBytes size value = ByteStream.littleEndian size value := by
  induction size generalizing value with
  | zero => rfl
  | succ size ih =>
    rw [toBytes, List.range_succ_eq_map, List.map_cons, List.map_map, ByteStream.littleEndian, ← ih]
    refine congrArg₂ List.cons rfl (List.map_congr_left fun index _ => ?_)
    rw [Function.comp_apply, Nat.succ_eq_add_one, Nat.mul_add, Nat.mul_one, Nat.add_comm, Nat.shiftRight_add,
      Nat.shiftRight_eq_div_pow value 8]

theorem toBytes_inj {size first second : Nat} (firstSmall : first < 256 ^ size) (secondSmall : second < 256 ^ size)
    (same : toBytes size first = toBytes size second) : first = second := by
  rw [toBytes_eq_littleEndian, toBytes_eq_littleEndian] at same
  rw [← ByteStream.ofLittleEndian_littleEndian firstSmall, same, ByteStream.ofLittleEndian_littleEndian secondSmall]

@[simp] theorem length_toBytes (size value : Nat) : (toBytes size value).length = size := by
  rw [toBytes, List.length_map, List.length_range]

/-- Hashes have one length, so their bytes determine them. -/
theorem flatMap_toList_inj {first second : List Hash256}
    (same : first.flatMap Vector.toList = second.flatMap Vector.toList) : first = second := by
  induction first generalizing second with
  | nil =>
    cases second with
    | nil => rfl
    | cons hash second =>
      have lengths := congrArg List.length same
      simp at lengths
      omega
  | cons hash first ih =>
    cases second with
    | nil =>
      have lengths := congrArg List.length same
      simp at lengths
    | cons other second =>
      rw [List.flatMap_cons, List.flatMap_cons] at same
      obtain ⟨sameHash, sameRest⟩ := List.append_inj same (by rw [Vector.length_toList, Vector.length_toList])
      rw [ih sameRest, Vector.toList_inj.mp sameHash]

/-- The signed bytes determine everything but the padding and the signature. -/
theorem toBuffer_inj {message other : FinalizationMessage} (same : message.toBuffer = other.toBuffer) :
    message.version = other.version ∧ message.stepIdentifier = other.stepIdentifier ∧ message.height = other.height ∧
      message.hashes = other.hashes := by
  unfold FinalizationMessage.toBuffer at same
  obtain ⟨same, hashes⟩ := List.append_inj same (by simp)
  obtain ⟨same, height⟩ := List.append_inj same (by simp)
  obtain ⟨same, pointStage⟩ := List.append_inj same (by simp)
  obtain ⟨same, epoch⟩ := List.append_inj same (by simp)
  obtain ⟨version, _⟩ := List.append_inj same (by simp)
  have word (value : UInt32) : value.toNat < 256 ^ 4 := value.toNat_lt
  have word64 (value : UInt64) : value.toNat < 256 ^ 8 := value.toNat_lt
  refine ⟨UInt32.toNat_inj.mp (toBytes_inj (word _) (word _) version), ?_,
    UInt64.toNat_inj.mp (toBytes_inj (word64 _) (word64 _) height), flatMap_toList_inj hashes⟩
  have sameEpoch := UInt32.toNat_inj.mp (toBytes_inj (word _) (word _) epoch)
  have samePointStage := UInt32.toNat_inj.mp (toBytes_inj (word _) (word _) pointStage)
  generalize message.stepIdentifier = step at sameEpoch samePointStage
  generalize other.stepIdentifier = otherStep at sameEpoch samePointStage
  cases step
  cases otherStep
  exact congrArg₂ StepIdentifier.mk sameEpoch samePointStage

section Grouping

variable {round : FinalizationRound} {message template : FinalizationMessage}

/-- A step is determined by its round and its stage. -/
theorem create_round_stage (step : StepIdentifier) : StepIdentifier.create step.round step.stage = step := by
  have rejoined : ∀ value : UInt32, (value >>> 1) <<< 1 ||| (value &&& 1) = value := by
    intro value
    rw [UInt32.eq_iff_toBitVec_eq]
    ext bit inside
    cases bit with
    | zero => simp
    | succ bit => simp [Nat.add_comm 1 bit, BitVec.getLsbD_eq_getElem inside]
  obtain ⟨epoch, pointStage⟩ := step
  have low : pointStage &&& 1 = 0 ∨ pointStage &&& 1 = 1 := by
    rw [← UInt32.toNat_inj, ← UInt32.toNat_inj, UInt32.toNat_and]
    change pointStage.toNat &&& 1 = 0 ∨ pointStage.toNat &&& 1 = 1
    rw [Nat.and_one_is_mod]
    omega
  have whole := rejoined pointStage
  unfold StepIdentifier.create StepIdentifier.round StepIdentifier.stage
  rcases low with even | odd
  · rw [even] at whole
    simpa [even] using whole
  · rw [odd] at whole
    simpa [odd] using whole

theorem canGroup_iff : canGroup round message = true ↔ message.stepIdentifier.round = round ∧ message.reserved1 = 0 ∧
    message.version = FinalizationMessage.currentVersion := by
  simp [canGroup, and_assoc]

/-- Messages of one group differ only in their signatures. -/
theorem eq_of_groupKey (grouped : canGroup round message = true) (templateGrouped : canGroup round template = true)
    (same : groupKey template = groupKey message) : { template with signature := message.signature } = message := by
  have sameBytes : template.toBuffer.map UInt8.toNat = message.toBuffer.map UInt8.toNat := (Prod.mk.inj (toLex.injective same)).2
  obtain ⟨version, step, height, hashes⟩ := toBuffer_inj (List.map_injective_iff.mpr (fun _ _ => UInt8.toNat_inj.mp) sameBytes)
  have padding := (canGroup_iff.mp grouped).2.1
  have templatePadding := (canGroup_iff.mp templateGrouped).2.1
  cases template
  cases message
  dsimp only at *
  subst version step height hashes padding templatePadding
  rfl

/-- The messages that a group stands for. -/
def ungroup (group : MessageSignatureGroup) : List FinalizationMessage :=
  group.2.map fun signature => { group.1 with signature }

/-- The groups are sorted by the bytes of their templates, which can be grouped. -/
structure Grouped (round : FinalizationRound) (groups : List (GroupKey × MessageSignatureGroup)) : Prop where
  ascending : SortedMap.Ascending groups
  keyed : ∀ entry ∈ groups, entry.1 = groupKey entry.2.1
  templates : ∀ entry ∈ groups, canGroup round entry.2.1 = true
  filled : ∀ entry ∈ groups, 1 ≤ entry.2.2.length

variable {groups : List (GroupKey × MessageSignatureGroup)}

/-- A message is added to the groups and no other message changes. -/
theorem Grouped.groupMessage (grouped : Grouped round groups) (allowed : canGroup round message = true) :
    Grouped round (groupMessage groups message) ∧ ((groupMessage groups message).flatMap fun entry => ungroup entry.2).Perm
        ((groups.flatMap fun entry => ungroup entry.2) ++ [message]) := by
  unfold Finalization.groupMessage
  cases found : SortedMap.find (groupKey message) groups with
  | none =>
    have absent := SortedMap.find_eq_none.mp found
    dsimp only
    rw [SortedMap.insert_of_absent absent]
    refine ⟨⟨grouped.ascending.place absent, fun entry inside => ?_, fun entry inside => ?_, fun entry inside => ?_⟩, ?_⟩
    · rcases SortedMap.mem_place.mp inside with rfl | old
      · rfl
      · exact grouped.keyed entry old
    · rcases SortedMap.mem_place.mp inside with rfl | old
      · exact allowed
      · exact grouped.templates entry old
    · rcases SortedMap.mem_place.mp inside with rfl | old
      · exact Nat.le_refl 1
      · exact grouped.filled entry old
    · exact ((SortedMap.perm_place _ groups).flatMap_right _).trans (@List.perm_append_comm _ [message] _)
  | some entry =>
    obtain ⟨key, template, signatures⟩ := entry
    obtain ⟨member, sameKey⟩ := SortedMap.mem_of_find found
    dsimp only at sameKey ⊢
    have keyed := grouped.keyed _ member
    have templated := grouped.templates _ member
    refine ⟨⟨grouped.ascending.replace _, fun entry inside => ?_, fun entry inside => ?_, fun entry inside => ?_⟩, ?_⟩
    · rcases SortedMap.mem_replace inside with rfl | old
      · exact keyed
      · exact grouped.keyed entry old
    · rcases SortedMap.mem_replace inside with rfl | old
      · exact templated
      · exact grouped.templates entry old
    · rcases SortedMap.mem_replace inside with rfl | old
      · exact List.length_append ▸ Nat.le_add_left 1 _
      · exact grouped.filled entry old
    · obtain ⟨others, before, after⟩ := grouped.ascending.perm_replace member (template, signatures ++ [message.signature])
      have same : { template with signature := message.signature } = message :=
        eq_of_groupKey allowed templated (keyed.symm.trans sameKey)
      have extended : ungroup (template, signatures ++ [message.signature]) = ungroup (template, signatures) ++ [message] := by
        rw [ungroup, List.map_append, List.map_singleton, same]
        rfl
      have replaced := after.flatMap_right fun entry => ungroup entry.2
      have original := before.flatMap_right fun entry => ungroup entry.2
      rw [List.flatMap_cons] at replaced original
      dsimp only at replaced original
      have moved := (@List.perm_append_comm _ [message] (others.flatMap fun entry => ungroup entry.2)).append_left
        (ungroup (template, signatures))
      rw [extended, List.append_assoc] at replaced
      rw [← List.append_assoc _ _ [message]] at moved
      exact (replaced.trans moved).trans (original.symm.append_right _)

theorem Grouped.foldl (grouped : Grouped round groups) {messages : List FinalizationMessage}
    (allowed : ∀ message ∈ messages, canGroup round message = true) :
    Grouped round (messages.foldl Finalization.groupMessage groups) ∧
      ((messages.foldl Finalization.groupMessage groups).flatMap fun entry => ungroup entry.2).Perm
        ((groups.flatMap fun entry => ungroup entry.2) ++ messages) := by
  induction messages generalizing groups with
  | nil => exact ⟨grouped, by rw [List.append_nil]; exact .refl _⟩
  | cons message messages ih =>
    obtain ⟨middle, added⟩ := grouped.groupMessage (allowed message List.mem_cons_self)
    obtain ⟨last, rest⟩ := ih middle fun other inside => allowed other (.tail _ inside)
    refine ⟨last, rest.trans ?_⟩
    rw [← List.singleton_append, ← List.append_assoc]
    exact added.append_right _

/-- The signatures of a group give the messages back that it was made of. -/
theorem createTemplateMessage_createMessageGroup {group : MessageSignatureGroup} (templated : canGroup round group.1 = true) :
    (createMessageGroup group).signatures.map (createTemplateMessage round (createMessageGroup group)) = ungroup group := by
  obtain ⟨sameRound, padding, version⟩ := canGroup_iff.mp templated
  have stage : ∀ stage : FinalizationStage, FinalizationStage.ofUInt32 stage.toUInt32 = stage := by
    intro stage
    cases stage <;> rfl
  refine List.map_congr_left fun signature _ => ?_
  have step : StepIdentifier.create round (.ofUInt32 (createMessageGroup group).stage) = group.1.stepIdentifier := by
    rw [createMessageGroup, stage, ← sameRound, create_round_stage]
  rw [createTemplateMessage, step]
  simp only [createMessageGroup, ← padding, ← version]

/-- The size of a message without a wrap around. -/
def exactSize (message : FinalizationMessage) : Nat := FinalizationMessage.headerSize + message.toBuffer.length

theorem exactSize_eq (message : FinalizationMessage) : exactSize message = 224 + message.hashes.length * 32 := by
  rw [exactSize, FinalizationMessage.headerSize, FinalizationMessage.toBuffer]
  simp only [List.length_append, length_toBytes, List.length_flatMap, Vector.length_toList, List.map_const',
    List.sum_replicate_nat]
  omega

/-- A group is not larger than the messages that it stands for. -/
theorem createMessageGroup_size_le {group : MessageSignatureGroup} (filled : 1 ≤ group.2.length) :
    (createMessageGroup group).size ≤ ((ungroup group).map exactSize).sum := by
  have constant : (ungroup group).map exactSize = group.2.map fun _ => 224 + group.1.hashes.length * 32 := by
    rw [ungroup, List.map_map]
    exact List.map_congr_left fun signature _ => exactSize_eq _
  have least := Nat.mul_le_mul_right (32 + group.1.hashes.length * 32) filled
  rw [constant, List.map_const', List.sum_replicate_nat, FinalizationMessageGroup.size, createMessageGroup,
    show 224 + group.1.hashes.length * 32 = 192 + (32 + group.1.hashes.length * 32) by omega, Nat.mul_add]
  dsimp only
  omega

/-- A proof holds exactly the messages of its round, in another order, and is hardly larger than they are. -/
theorem assembleFinalizationProof_messages (statistics : FinalizationStatistics) (messages : List FinalizationMessage) :
    (assembleFinalizationProof statistics messages).messages.Perm (messages.filter (canGroup statistics.round)) ∧
      (assembleFinalizationProof statistics messages).size ≤
        56 + ((messages.filter (canGroup statistics.round)).map exactSize).sum := by
  have start : Grouped statistics.round [] := ⟨.nil, nofun, nofun, nofun⟩
  have allowed : ∀ message ∈ messages.filter (canGroup statistics.round), canGroup statistics.round message = true :=
    fun message inside => (List.mem_filter.mp inside).2
  obtain ⟨grouped, regrouped⟩ := start.foldl allowed
  rw [List.flatMap_nil, List.nil_append] at regrouped
  have expanded : (assembleFinalizationProof statistics messages).messages =
      (((messages.filter (canGroup statistics.round)).foldl groupMessage []).flatMap fun entry => ungroup entry.2) := by
    rw [FinalizationProof.messages, assembleFinalizationProof, groupMessages, List.flatMap_map]
    exact List.flatMap_congr fun entry inside => createTemplateMessage_createMessageGroup (grouped.templates entry inside)
  refine ⟨expanded ▸ regrouped, Nat.add_le_add_left ?_ 56⟩
  rw [← (regrouped.map exactSize).sum_nat, assembleFinalizationProof, groupMessages, List.map_map, List.map_flatMap,
    List.flatMap_def, List.sum_flatten, List.map_map]
  exact List.sum_le_sum fun entry inside => createMessageGroup_size_le (grouped.filled entry inside)

/-- A proof is created if its messages can be measured in 32 bits. -/
theorem createFinalizationProof_eq_ok {statistics : FinalizationStatistics} {messages : List FinalizationMessage}
    (small : 56 + (messages.map exactSize).sum < 2 ^ 32) :
    createFinalizationProof statistics messages = .ok (assembleFinalizationProof statistics messages) := by
  have bounded := (assembleFinalizationProof_messages statistics messages).2
  have fewer := List.Sublist.sum_le_sum ((List.filter_sublist (p := canGroup statistics.round) (l := messages)).map exactSize)
    fun _ _ => Nat.zero_le _
  exact if_pos (by omega)

end Grouping

section Acceptance

variable [VotingVerifier]

/-- A message passes all checks that depend only on the context. -/
structure Accepted (context : FinalizationContext) (message : FinalizationMessage) : Prop where
  counted : (message.hashesCount = 0 || context.config.maxHashesPerPoint < message.hashesCount) = false
  high : ¬ lastHashHeight message < context.height
  valid : (RoundMessageAggregator.create context).hasValidHashes message = .ok true
  processed : processMessage message context = (.success, messageWeight context message)

theorem Accepted.checks {context : FinalizationContext} {message : FinalizationMessage} (accepted : Accepted context message) :
    message.reserved1 = 0 ∧ message.version = FinalizationMessage.currentVersion ∧
      verify message.signature (stepIdentifierToBmKeyIdentifier message.stepIdentifier) message.toBuffer = true := by
  have processed := accepted.processed
  unfold processMessage at processed
  dsimp only at processed
  split_ifs at processed with weightless padded other unsigned
  · simp at processed
  · simp at processed
  · simp at processed
  · simp at processed
  · exact ⟨Decidable.not_not.mp padded, Decidable.not_not.mp other, by simpa using unsigned⟩

/-- A function names the block before each block of a prevote. -/
def Linked (link : HeightHashPair → Option HeightHashPair) (message : FinalizationMessage) : Prop :=
  isPrevote message = true → (∀ key, (branchKeys message.height message.hashes).head? = some key → link key = none) ∧
      (branchKeys message.height message.hashes).IsChain fun previous key => link key = some previous

/-- All stored messages were accepted, and the tree consists of the branches of their prevotes. -/
structure Replayable (context : FinalizationContext) (aggregator : RoundMessageAggregator) : Prop where
  aggregated : Aggregated context aggregator
  accepted : ∀ message ∈ stored aggregator, Accepted context message
  follows : ∀ link, (∀ message ∈ stored aggregator, Linked link message) → Follows link aggregator.roundContext.tree.nodes

variable {context : FinalizationContext} {aggregator : RoundMessageAggregator} {message : FinalizationMessage}

theorem replayable_create (context : FinalizationContext) : Replayable context (.create context) where
  aggregated := aggregated_create context
  accepted _ inside := absurd inside List.not_mem_nil
  follows _ _ _ inside := absurd inside List.not_mem_nil

omit [VotingVerifier] in
theorem isSuccess_of_stage (prevoting : Bool) :
    (if prevoting then RoundMessageAggregatorAddResult.successPrevote else .successPrecommit).isSuccess = true := by
  cases prevoting <;> rfl

omit [VotingVerifier] in
/-- The branch of a prevote is added to the tree, and a precommit leaves the tree as it is. -/
theorem Aggregated.acceptMessage_tree (aggregated : Aggregated context aggregator) {roundContext : RoundContext}
    (done : aggregator.acceptMessage message (messageWeight context message) = .ok roundContext) :
    roundContext.tree = if isPrevote message then aggregator.roundContext.tree.addBranch message.height message.hashes
      else aggregator.roundContext.tree := by
  unfold RoundMessageAggregator.acceptMessage at done
  by_cases prevoting : isPrevote message = true
  · rw [if_pos prevoting] at done ⊢
    have small : message.hashes.length ≤ 2 ^ 64 := message.counted.le.trans (by decide)
    obtain ⟨next, ran, _, grown, _⟩ := aggregated.tallied.acceptPrevote (branchKeys_nodup small) (messageWeight context message)
    rw [ran, Except.ok.injEq] at done
    rw [← done, grown]
  · rw [if_neg prevoting] at done ⊢
    obtain ⟨next, ran, _, same, _⟩ :=
      aggregated.tallied.acceptPrecommit message.height (firstHash message) (messageWeight context message)
    rw [ran, Except.ok.injEq] at done
    rw [← done, same]

variable [Sha3]

/-- A processed message with a new key is stored. -/
theorem Replayable.addNew (replayable : Replayable context aggregator) (accepted : Accepted context message)
    (new : messageKey message ∉ (stored aggregator).map messageKey) :
    ∃ outcome, aggregator.addNew message = .ok outcome ∧ outcome.1.isSuccess = true ∧ Replayable context outcome.2 ∧
      stored outcome.2 = stored aggregator ++ [message] := by
  obtain ⟨outcome, added, aggregated⟩ := replayable.aggregated.addNew new
  refine ⟨outcome, added, ?_⟩
  obtain ⟨roundContext, done, _⟩ := replayable.aggregated.acceptMessage message
  have grown := replayable.aggregated.acceptMessage_tree done
  unfold RoundMessageAggregator.addNew at added
  rw [replayable.aggregated.unchanged, accepted.processed] at added
  simp only [done, Except.ok.injEq] at added
  subst added
  have extended : stored ⟨context, roundContext, aggregator.messages ++ [(messageKey message, createMessageDescriptor message)]⟩ =
      stored aggregator ++ [message] := by
    simp [stored, createMessageDescriptor]
  refine ⟨isSuccess_of_stage _, ⟨aggregated, ?_, ?_⟩, extended⟩
  · intro other inside
    dsimp only at inside
    rw [extended, List.mem_append, List.mem_singleton] at inside
    rcases inside with old | rfl
    · exact replayable.accepted other old
    · exact accepted
  · intro link linked
    dsimp only at linked
    rw [extended] at linked
    have before := replayable.follows link fun other inside => linked other (List.mem_append_left _ inside)
    have current := linked message (List.mem_append_right _ List.mem_cons_self)
    dsimp only
    rw [grown]
    split
    · next prevoting => exact follows_addBranchAfter before (current prevoting).1 (current prevoting).2
    · exact before

omit [VotingVerifier] [Sha3] in
theorem find_eq_none (aggregated : Aggregated context aggregator) :
    aggregator.find (messageKey message) = none ↔ messageKey message ∉ (stored aggregator).map messageKey := by
  rw [← aggregated.keyed, RoundMessageAggregator.find, List.lookup_eq_none_iff]
  constructor
  · intro absent known
    obtain ⟨entry, inside, same⟩ := List.mem_map.mp known
    exact absurd (absent entry inside) (by simp [same])
  · intro absent entry inside
    rw [bne_iff_ne]
    intro same
    exact absent (same ▸ List.mem_map_of_mem inside)

/-- An accepted message of a new key is always added. -/
theorem Replayable.add_accepted (replayable : Replayable context aggregator) (accepted : Accepted context message)
    (new : messageKey message ∉ (stored aggregator).map messageKey) :
    ∃ outcome, aggregator.add message = .ok outcome ∧ outcome.1.isSuccess = true ∧ Replayable context outcome.2 ∧
      stored outcome.2 = stored aggregator ++ [message] := by
  obtain ⟨outcome, added, rest⟩ := replayable.addNew accepted new
  refine ⟨outcome, ?_, rest⟩
  have valid : aggregator.hasValidHashes message = .ok true := by
    rw [← accepted.valid, hasValidHashes, hasValidHashes, replayable.aggregated.unchanged]
    rfl
  unfold RoundMessageAggregator.add
  dsimp only
  rw [replayable.aggregated.unchanged, if_neg (by simp [accepted.counted]), if_neg accepted.high, valid]
  change aggregator.addChecked message = _
  rw [addChecked, (find_eq_none replayable.aggregated).mpr new]
  exact added

/-- A message is either accepted, new and stored, or it changes nothing. -/
theorem Replayable.add_cases (replayable : Replayable context aggregator)
    {outcome : RoundMessageAggregatorAddResult × RoundMessageAggregator} (added : aggregator.add message = .ok outcome) :
    (outcome.1.isSuccess = true ∧ Accepted context message ∧ messageKey message ∉ (stored aggregator).map messageKey) ∨
      (outcome.1.isSuccess = false ∧ outcome.2 = aggregator) := by
  unfold RoundMessageAggregator.add at added
  dsimp only at added
  rw [replayable.aggregated.unchanged] at added
  split_ifs at added with counted high
  · obtain rfl := Except.ok.inj added
    exact .inr ⟨rfl, rfl⟩
  · obtain rfl := Except.ok.inj added
    exact .inr ⟨rfl, rfl⟩
  · obtain ⟨valid, checked, rest⟩ := Runs.bind_eq_ok.mp added
    cases valid with
    | false =>
      obtain rfl := Except.ok.inj rest
      exact .inr ⟨rfl, rfl⟩
    | true =>
      change aggregator.addChecked message = .ok outcome at rest
      unfold addChecked at rest
      cases found : aggregator.find (messageKey message) with
      | some descriptor =>
        rw [found] at rest
        obtain rfl := Except.ok.inj rest
        refine .inr ⟨?_, rfl⟩
        dsimp only
        split <;> rfl
      | none =>
        rw [found] at rest
        have new := (find_eq_none replayable.aggregated).mp found
        dsimp only at rest
        unfold RoundMessageAggregator.addNew at rest
        rw [replayable.aggregated.unchanged] at rest
        split at rest
        · next weight processed =>
          split at rest
          · obtain rfl := Except.ok.inj rest
            rw [processMessage_weight processed] at processed
            refine .inl ⟨isSuccess_of_stage _, ⟨by simpa using counted, high, ?_, processed⟩, new⟩
            rw [← checked, hasValidHashes, hasValidHashes, replayable.aggregated.unchanged]
            rfl
          · cases rest
        · obtain rfl := Except.ok.inj rest
          exact .inr ⟨rfl, rfl⟩

/-- Exactly the accepted messages of new keys are stored. -/
theorem Replayable.add (replayable : Replayable context aggregator)
    {outcome : RoundMessageAggregatorAddResult × RoundMessageAggregator} (added : aggregator.add message = .ok outcome) :
    Replayable context outcome.2 ∧
      (outcome.1.isSuccess = true ∧ Accepted context message ∧ messageKey message ∉ (stored aggregator).map messageKey ∧
          stored outcome.2 = stored aggregator ++ [message] ∨
        outcome.1.isSuccess = false ∧ outcome.2 = aggregator) := by
  rcases replayable.add_cases added with ⟨succeeded, accepted, new⟩ | ⟨rejected, same⟩
  · obtain ⟨other, addedOther, _, nextReplayable, extended⟩ := replayable.add_accepted accepted new
    rw [added, Except.ok.injEq] at addedOther
    subst addedOther
    exact ⟨nextReplayable, .inl ⟨succeeded, accepted, new, extended⟩⟩
  · exact ⟨same ▸ replayable, .inr ⟨rejected, same⟩⟩

/-- The messages of a proof that is not rejected are all stored. -/
theorem Replayable.addProofMessages (replayable : Replayable context aggregator) {messages : List FinalizationMessage}
    {next : RoundMessageAggregator} (added : aggregator.addProofMessages messages = .ok (some next)) :
    Replayable context next ∧ stored next = stored aggregator ++ messages := by
  induction messages generalizing aggregator with
  | nil =>
    rw [RoundMessageAggregator.addProofMessages, Except.ok.injEq, Option.some.injEq] at added
    subst added
    exact ⟨replayable, (List.append_nil _).symm⟩
  | cons message messages ih =>
    obtain ⟨outcome, first, rest⟩ := Runs.bind_eq_ok.mp added
    obtain ⟨middleReplayable, ⟨succeeded, _, _, extended⟩ | ⟨rejected, _⟩⟩ := replayable.add first
    · rw [if_pos succeeded] at rest
      obtain ⟨nextReplayable, appended⟩ := ih middleReplayable rest
      refine ⟨nextReplayable, ?_⟩
      rw [appended, extended, List.append_assoc, List.singleton_append]
    · rw [rejected] at rest
      cases rest

/-- Accepted messages of distinct voters are all stored. -/
theorem Replayable.exists_addProofMessages (replayable : Replayable context aggregator) {messages : List FinalizationMessage}
    (accepted : ∀ message ∈ messages, Accepted context message)
    (distinct : ((stored aggregator ++ messages).map messageKey).Nodup) :
    ∃ next, aggregator.addProofMessages messages = .ok (some next) := by
  induction messages generalizing aggregator with
  | nil => exact ⟨aggregator, rfl⟩
  | cons message messages ih =>
    have new : messageKey message ∉ (stored aggregator).map messageKey := by
      rw [List.map_append, List.map_cons, List.nodup_append] at distinct
      exact fun known => distinct.2.2 _ known _ List.mem_cons_self rfl
    obtain ⟨outcome, first, succeeded, middleReplayable, extended⟩ :=
      replayable.add_accepted (accepted message List.mem_cons_self) new
    obtain ⟨next, rest⟩ := ih middleReplayable (fun other inside => accepted other (.tail _ inside)) (by
      rwa [extended, List.append_assoc, List.singleton_append])
    exact ⟨next, Runs.bind_eq_ok.mpr ⟨outcome, first, by rw [if_pos succeeded]; exact rest⟩⟩

end Acceptance

section Verification

variable [Sha3] [VotingVerifier] {context : FinalizationContext} {proof : FinalizationProof}

/-- A verified proof consists of accepted messages of distinct voters whose best precommit is the block of the proof. -/
theorem verifyFinalizationProof_iff : verifyFinalizationProof proof context = .ok .success ↔
      proof.version = FinalizationProof.currentVersion ∧ proof.round.epoch = context.epoch ∧
        ∃ aggregator, (RoundMessageAggregator.create context).addProofMessages proof.messages = .ok (some aggregator) ∧
          aggregator.roundContext.tryFindBestPrecommit = some ⟨proof.height, proof.hash⟩ := by
  have best : ∀ found, verifyBestPrecommit proof found = .success ↔ found = some ⟨proof.height, proof.hash⟩ := by
    intro found
    cases found with
    | none => simp [verifyBestPrecommit]
    | some bestPrecommit =>
      obtain ⟨height, hash⟩ := bestPrecommit
      rw [verifyBestPrecommit, Option.some.injEq, HeightHashPair.mk.injEq]
      split_ifs with otherHeight otherHash
      · exact ⟨nofun, fun same => absurd same.1 otherHeight⟩
      · exact ⟨nofun, fun same => absurd same.2 otherHash⟩
      · exact ⟨fun _ => ⟨Decidable.not_not.mp otherHeight, Decidable.not_not.mp otherHash⟩, fun _ => rfl⟩
  unfold verifyFinalizationProof
  split_ifs with version epoch
  · exact ⟨nofun, fun verified => absurd verified.1.symm version⟩
  · exact ⟨nofun, fun verified => absurd verified.2.1 epoch⟩
  · rw [Decidable.not_not] at version epoch
    rw [Runs.bind_eq_ok]
    constructor
    · rintro ⟨added, ran, verified⟩
      cases added with
      | none => cases verified
      | some aggregator => exact ⟨version.symm, epoch, aggregator, ran, (best _).mp (Except.ok.inj verified)⟩
    · rintro ⟨_, _, aggregator, ran, found⟩
      exact ⟨some aggregator, ran, congrArg Except.ok ((best _).mpr found)⟩

end Verification

section Rounds

variable [Sha3] [VotingVerifier] {config : FinalizationConfiguration} {state : MultiRoundMessageAggregator}

/-- The aggregator of a round has the context of its epoch and only messages of the round. -/
structure RoundReplayable (entry : FinalizationRound × RoundMessageAggregator) : Prop where
  replayable : Replayable entry.2.finalizationContext entry.2
  epoch : entry.2.finalizationContext.epoch = entry.1.epoch
  inRound : ∀ message ∈ stored entry.2, message.stepIdentifier.round = entry.1

def RoundsReplayable (state : MultiRoundMessageAggregator) : Prop := ∀ entry ∈ state.roundMessageAggregators, RoundReplayable entry

omit [Sha3] [VotingVerifier] in
theorem create_epoch (epoch : FinalizationEpoch) (height : Height) (config : FinalizationConfiguration)
    (highValueAccounts : HighValueAccounts) : (FinalizationContext.create epoch height config highValueAccounts).epoch = epoch := by
  refine @Runs.always_foldl FinalizationContext _ _ (fun context => context.epoch = epoch) (fun context accountHistory same => ?_) _ _ rfl
  unfold FinalizationContext.addAccount
  dsimp only
  split_ifs <;> exact same

omit [Sha3] [VotingVerifier] in
theorem createFinalizationContext_sameEpoch {accountsAtHeight : Height → Option HighValueAccounts} {epoch : FinalizationEpoch}
    {context : FinalizationContext} (created : createFinalizationContext config accountsAtHeight epoch = .ok context) :
    context.epoch = epoch := by
  unfold createFinalizationContext at created
  split_ifs at created
  · cases created
  · obtain ⟨votingSetHeight, _, rest⟩ := Runs.bind_eq_ok.mp created
    cases accounts : accountsAtHeight votingSetHeight with
    | none =>
      rw [accounts] at rest
      cases rest
    | some highValueAccounts =>
      rw [accounts] at rest
      obtain rfl := Except.ok.inj rest
      exact create_epoch _ _ _ _

/-- A message is added to the aggregator of its own round. -/
theorem RoundsReplayable.addTo (replayable : RoundsReplayable state) {round : FinalizationRound} {aggregator : RoundMessageAggregator}
    (roundReplayable : RoundReplayable (round, aggregator)) {message : FinalizationMessage}
    (inRound : message.stepIdentifier.round = round) : RoundsReplayable (state.addTo round aggregator message).2 := by
  unfold MultiRoundMessageAggregator.addTo
  cases added : aggregator.add message with
  | error _ => exact replayable
  | ok outcome =>
    obtain ⟨result, next⟩ := outcome
    obtain ⟨nextReplayable, grown⟩ := roundReplayable.replayable.add added
    have same := nextReplayable.aggregated.unchanged
    intro entry inside
    obtain ⟨old, oldInside, rfl⟩ := List.mem_map.mp inside
    split
    · refine ⟨?_, ?_, ?_⟩
      · rw [same]
        exact nextReplayable
      · rw [same]
        exact roundReplayable.epoch
      · intro other otherInside
        rcases grown with ⟨_, _, _, extended⟩ | ⟨_, unchanged⟩
        · rw [extended, List.mem_append, List.mem_singleton] at otherInside
          rcases otherInside with old | rfl
          · exact roundReplayable.inRound other old
          · exact inRound
        · rw [unchanged] at otherInside
          exact roundReplayable.inRound other otherInside
    · exact replayable old oldInside

theorem RoundsReplayable.step (replayable : RoundsReplayable state) (action : AggregatorAction) :
    RoundsReplayable (state.step config action) := by
  cases action with
  | add accountsAtHeight message =>
    rw [MultiRoundMessageAggregator.step, MultiRoundMessageAggregator.add]
    split_ifs
    · exact replayable
    · cases found : SortedMap.find message.stepIdentifier.round state.roundMessageAggregators with
      | some entry =>
        obtain ⟨member, sameRound⟩ := SortedMap.mem_of_find found
        exact replayable.addTo (sameRound ▸ replayable entry member) rfl
      | none =>
        dsimp only
        split
        · exact replayable
        · next context created =>
          have fresh : RoundReplayable (message.stepIdentifier.round, .create context) :=
            ⟨replayable_create context, createFinalizationContext_sameEpoch created, fun _ inside => absurd inside List.not_mem_nil⟩
          refine RoundsReplayable.addTo (fun entry inside => ?_) fresh rfl
          rcases SortedMap.mem_insert inside with rfl | old
          · exact fresh
          · exact replayable entry old
  | raiseMaxFinalizationRound round =>
    rw [MultiRoundMessageAggregator.step]
    split
    · next raised =>
      unfold MultiRoundMessageAggregator.raiseMaxFinalizationRound MultiRoundMessageAggregator.setMaxFinalizationRound at raised
      split_ifs at raised
      · obtain rfl := Except.ok.inj raised
        exact replayable
      · obtain rfl := Except.ok.inj raised
        exact replayable
    · exact replayable
  | finalize finalizedHeight =>
    rw [MultiRoundMessageAggregator.step, MultiRoundMessageAggregator.finalize]
    split
    · exact replayable
    · split_ifs
      · exact replayable
      · exact replayable
      · exact fun entry inside => replayable entry ((List.dropWhile_sublist _).subset inside)

end Rounds

section Completeness

variable [Sha3] [VotingVerifier]

omit [Sha3] [VotingVerifier] in
/-- All messages are returned if they fit into a response. -/
theorem takeMessages_eq {maxResponseSize totalSize : Nat} {messages : List FinalizationMessage}
    (fits : totalSize + (messages.map fun message => message.size.toNat).sum ≤ maxResponseSize) :
    takeMessages maxResponseSize totalSize messages = messages := by
  induction messages generalizing totalSize with
  | nil => rfl
  | cons message messages ih =>
    rw [List.map_cons, List.sum_cons] at fits
    rw [takeMessages, if_neg (by omega), ih (by omega)]

omit [Sha3] in
/-- Messages in another order are counted alike if the prevotes agree about the block before each block. -/
theorem Replayable.sameBestPrecommit {context : FinalizationContext} {first second : RoundMessageAggregator}
    (firstReplayable : Replayable context first) (secondReplayable : Replayable context second)
    (reordered : (stored first).Perm (stored second)) {link : HeightHashPair → Option HeightHashPair}
    (linked : ∀ message ∈ stored first, Linked link message) :
    first.roundContext.tryFindBestPrecommit = second.roundContext.tryFindBestPrecommit := by
  have firstFollows := firstReplayable.follows link linked
  have secondFollows := secondReplayable.follows link fun message inside => linked message (reordered.mem_iff.mpr inside)
  obtain ⟨_, _, firstSame, secondSame, _, _, bestPrecommit, _⟩ :=
    firstReplayable.aggregated.tallied.agree secondReplayable.aggregated.tallied (reordered.map _)
      (fun key inFirst inSecond => findAncestorsFrom_eq_of_follows firstReplayable.aggregated.tallied.counted.rooted
        secondReplayable.aggregated.tallied.counted.rooted firstFollows secondFollows inFirst inSecond)
      (firstReplayable.aggregated.total.trans secondReplayable.aggregated.total.symm)
      (firstReplayable.aggregated.threshold.trans secondReplayable.aggregated.threshold.symm)
  rw [Except.ok.inj firstSame, Except.ok.inj secondSame]
  exact bestPrecommit

/-- The proof of a replayable round is verified if it holds all messages and their prevotes agree. -/
theorem RoundReplayable.verified {round : FinalizationRound} {aggregator : RoundMessageAggregator}
    (replayable : RoundReplayable (round, aggregator)) {target : HeightHashPair}
    (found : aggregator.roundContext.tryFindBestPrecommit = some target) {messages : List FinalizationMessage}
    (reordered : messages.Perm (stored aggregator)) {link : HeightHashPair → Option HeightHashPair}
    (linked : ∀ message ∈ stored aggregator, Linked link message) :
    verifyFinalizationProof (assembleFinalizationProof ⟨round, target.height, target.hash⟩ messages)
      aggregator.finalizationContext = .ok .success := by
  have accepted := replayable.replayable.accepted
  have grouped : ∀ message ∈ messages, canGroup round message = true := by
    intro message inside
    have isStored := reordered.mem_iff.mp inside
    obtain ⟨padding, version, _⟩ := (accepted message isStored).checks
    exact canGroup_iff.mpr ⟨replayable.inRound message isStored, padding, version⟩
  have same : (assembleFinalizationProof ⟨round, target.height, target.hash⟩ messages).messages.Perm (stored aggregator) := by
    have created := (assembleFinalizationProof_messages ⟨round, target.height, target.hash⟩ messages).1
    rw [List.filter_eq_self.mpr grouped] at created
    exact created.trans reordered
  generalize proofIs : assembleFinalizationProof ⟨round, target.height, target.hash⟩ messages = proof at same
  subst proofIs
  obtain ⟨next, added⟩ := (replayable_create aggregator.finalizationContext).exists_addProofMessages
    (fun message inside => accepted message (same.mem_iff.mp inside))
    ((same.map messageKey).nodup_iff.mpr replayable.replayable.aggregated.distinct)
  obtain ⟨nextReplayable, nextStored⟩ := (replayable_create aggregator.finalizationContext).addProofMessages added
  refine verifyFinalizationProof_iff.mpr ⟨rfl, replayable.epoch.symm, next, added, ?_⟩
  rw [← replayable.replayable.sameBestPrecommit nextReplayable (nextStored ▸ same.symm) linked, found]
  rfl

/-- In every run, the finalizer's proof is created and verified if the messages fit into a response and into 32 bits and the
prevotes agree about the block before each block, in whatever order the messages are taken. -/
theorem created_proof_verified (config : FinalizationConfiguration) (maxResponseSize : Nat) (round : FinalizationRound)
    (pair : HeightHashPair) (actions : List AggregatorAction) {state : MultiRoundMessageAggregator}
    (ran : state = actions.foldl (MultiRoundMessageAggregator.step config) (.create maxResponseSize round pair))
    {descriptor : BestPrecommitDescriptor} (found : state.tryFindBestPrecommit = some descriptor)
    {aggregator : RoundMessageAggregator} (inRound : (descriptor.round, aggregator) ∈ state.roundMessageAggregators)
    (fits : ((stored aggregator).map fun message => message.size.toNat).sum ≤ state.maxResponseSize)
    (small : 56 + ((stored aggregator).map exactSize).sum < 2 ^ 32)
    {link : HeightHashPair → Option HeightHashPair} (linked : ∀ message ∈ stored aggregator, Linked link message)
    {messages : List FinalizationMessage} (reordered : messages.Perm descriptor.proof) :
    ∃ proof, createFinalizationProof descriptor.toFinalizationStatistics messages = .ok proof ∧
      verifyFinalizationProof proof aggregator.finalizationContext = .ok .success := by
  have replayable : RoundsReplayable state := by
    rw [ran]
    exact Runs.always_foldl (fun _ action replayable => replayable.step action) fun _ inside => absurd inside List.not_mem_nil
  have window : Window state := by
    rw [ran]
    exact Runs.always_foldl (fun _ action window => (window.step action).1) (window_create maxResponseSize round pair)
  obtain ⟨⟨bestRound, bestAggregator⟩, member, matched⟩ := List.exists_of_findSome?_eq_some found
  obtain ⟨target, best, rfl⟩ := Option.map_eq_some_iff.mp matched
  obtain rfl := (Prod.mk.inj (window.ascending.eq_of_key (List.mem_reverse.mp member) inRound rfl)).2
  have unknown : bestAggregator.messages.filter (fun entry => !List.contains [] (toShortHash entry.2.hash)) = bestAggregator.messages :=
    List.filter_eq_self.mpr fun _ _ => rfl
  have all : messages.Perm (stored bestAggregator) := by
    refine reordered.trans ?_
    dsimp only
    rw [unknownMessages, unknown, takeMessages_eq (by rw [Nat.zero_add]; exact fits)]
    exact .refl _
  refine ⟨_, createFinalizationProof_eq_ok ?_, (replayable _ inRound).verified best all linked⟩
  rw [(all.map exactSize).sum_nat]
  exact small

end Completeness

namespace Samples

theorem one_hash : [blockHash 5].length < 2 ^ 32 := by
  rw [List.length_singleton]
  decide

/-- The heavy voter alone is a quorum. -/
def heavyMessage (stage : FinalizationStage) : FinalizationMessage :=
  signMessage heavyKey (.create ⟨2, 1⟩ stage) 5 [blockHash 5] one_hash

theorem heavy_bestPrecommit {context : RoundContext} (keys : context.candidates.keys = {⟨5, blockHash 5⟩})
    (weights : context.candidates.weights ⟨5, blockHash 5⟩ = ⟨9, 9⟩) (threshold : context.threshold = 7) :
    context.tryFindBestPrecommit = some ⟨5, blockHash 5⟩ := by
  refine tryFindLastMatch_eq_some (by rw [keys]; exact Finset.mem_singleton_self _) (by rw [weights, threshold]; rfl) ?_
  intro other inside _
  exact .inr (Finset.mem_singleton.mp (keys ▸ inside))

def heavyActions : List AggregatorAction :=
  [.add (fun _ => some votingAccounts) (heavyMessage .precommit), .add (fun _ => some votingAccounts) (heavyMessage .prevote)]

def heavyState : MultiRoundMessageAggregator :=
  letI := sha3Digest
  letI := sampleVerifier
  heavyActions.foldl (MultiRoundMessageAggregator.step windowConfiguration) (.create 10000 ⟨2, 1⟩ ⟨1, zeroHash⟩)

theorem heavyState_round : heavyState.roundMessageAggregators.map Prod.fst = [⟨2, 1⟩] ∧
    ∀ entry ∈ heavyState.roundMessageAggregators, entry.2.roundContext.candidates.keys = {⟨5, blockHash 5⟩} ∧
      entry.2.roundContext.candidates.weights ⟨5, blockHash 5⟩ = ⟨9, 9⟩ ∧ entry.2.roundContext.threshold = 7 ∧
      ((stored entry.2).map fun message => message.size.toNat).sum ≤ heavyState.maxResponseSize ∧
      56 + ((stored entry.2).map exactSize).sum < 2 ^ 32 ∧
      ∀ message ∈ stored entry.2, message.hashes = [blockHash 5] := by decide +kernel

/-- The proof of the heavy voter is verified. -/
theorem created_proof_verified_heavy : letI := sha3Digest; letI := sampleVerifier
    ∃ descriptor aggregator proof, heavyState.tryFindBestPrecommit = some descriptor ∧
      createFinalizationProof descriptor.toFinalizationStatistics descriptor.proof.reverse = .ok proof ∧
      verifyFinalizationProof proof (RoundMessageAggregator.finalizationContext aggregator) = .ok .success := by
  let := sha3Digest
  let := sampleVerifier
  obtain ⟨rounds, weighted⟩ := heavyState_round
  obtain ⟨⟨_, aggregator⟩, others, entries, rfl, rest⟩ := List.map_eq_cons_iff.mp rounds
  obtain rfl := List.map_eq_nil_iff.mp rest
  have inRound : (⟨2, 1⟩, aggregator) ∈ heavyState.roundMessageAggregators := entries ▸ List.mem_cons_self
  obtain ⟨keys, weights, threshold, fits, small, hashes⟩ := weighted _ inRound
  have found : heavyState.tryFindBestPrecommit =
      some ⟨⟨2, 1⟩, ⟨5, blockHash 5⟩, aggregator.unknownMessages heavyState.maxResponseSize []⟩ := by
    rw [MultiRoundMessageAggregator.tryFindBestPrecommit, entries, List.reverse_singleton, List.findSome?_cons,
      heavy_bestPrecommit keys weights threshold]
    rfl
  have linked : ∀ message ∈ stored aggregator, Linked (fun _ => none) message := by
    intro message inside _
    rw [hashes message inside]
    exact ⟨fun _ _ => rfl, .singleton _⟩
  obtain ⟨proof, created⟩ := created_proof_verified windowConfiguration 10000 ⟨2, 1⟩ ⟨1, zeroHash⟩ heavyActions rfl found inRound
    fits small linked (List.reverse_perm _)
  exact ⟨_, aggregator, proof, found, created⟩

end Samples

end Catapult.Finalization
