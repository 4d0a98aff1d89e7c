import Catapult.Construction.Finalization.FinalizationMessageFactory
import Mathlib.Tactic.Ring

/-
This file shows that aggregators accept the prevotes of the message factory.
-/

namespace Catapult.Finalization

open RoundMessageAggregator

variable {value : UInt64} {multiple : UInt16}

/-- A value is rounded to a multiple without a wrap around. -/
theorem clamp_toNat (positive : 0 < multiple.toNat) (adjustment : UInt16) (small : adjustment.toNat ≤ 1)
    (fits : value.toNat + multiple.toNat ≤ 2 ^ 64) : (clamp value multiple adjustment).toNat =
      if value.toNat % multiple.toNat = 0 then value.toNat
      else (value.toNat / multiple.toNat + adjustment.toNat) * multiple.toNat := by
  have sameMultiple : multiple.toUInt64.toNat = multiple.toNat := UInt16.toNat_toUInt64 _
  have sameAdjustment : adjustment.toUInt64.toNat = adjustment.toNat := UInt16.toNat_toUInt64 _
  have remainder : (value % multiple.toUInt64 = 0) ↔ value.toNat % multiple.toNat = 0 := by
    rw [← UInt64.toNat_inj, UInt64.toNat_mod, sameMultiple]
    rfl
  unfold clamp
  by_cases divides : value.toNat % multiple.toNat = 0
  · rw [if_pos (remainder.mpr divides), if_pos divides]
  · rw [if_neg (mt remainder.mp divides), if_neg divides]
    have parts := Nat.div_add_mod' value.toNat multiple.toNat
    have below := Nat.mod_lt value.toNat positive
    have bound : (value.toNat / multiple.toNat + adjustment.toNat) * multiple.toNat < 2 ^ 64 := by
      have step : (value.toNat / multiple.toNat + adjustment.toNat) * multiple.toNat ≤
          value.toNat / multiple.toNat * multiple.toNat + multiple.toNat := by
        rw [Nat.add_mul]
        have := Nat.mul_le_mul_right multiple.toNat small
        omega
      omega
    have quotient : value.toNat / multiple.toNat + adjustment.toNat < 2 ^ 64 :=
      lt_of_le_of_lt (Nat.le_mul_of_pos_right _ positive) bound
    rw [UInt64.toNat_mul, UInt64.toNat_add, UInt64.toNat_div, sameMultiple, sameAdjustment, Nat.mod_eq_of_lt quotient,
      Nat.mod_eq_of_lt bound]

theorem clamp_down (positive : 0 < multiple.toNat) (fits : value.toNat + multiple.toNat ≤ 2 ^ 64) :
    (clamp value multiple 0).toNat = value.toNat / multiple.toNat * multiple.toNat := by
  rw [clamp_toNat positive 0 (by decide) fits]
  have parts := Nat.div_add_mod' value.toNat multiple.toNat
  split
  · omega
  · rfl

/-- The rounded up value is a multiple that is less than one multiple away. -/
theorem clamp_up (positive : 0 < multiple.toNat) (fits : value.toNat + multiple.toNat ≤ 2 ^ 64) :
    value.toNat ≤ (clamp value multiple 1).toNat ∧ (clamp value multiple 1).toNat < value.toNat + multiple.toNat ∧
      multiple.toNat ∣ (clamp value multiple 1).toNat := by
  rw [clamp_toNat positive 1 (by decide) fits]
  have parts := Nat.div_add_mod' value.toNat multiple.toNat
  have below := Nat.mod_lt value.toNat positive
  split
  · next divides => exact ⟨Nat.le_refl _, by omega, Nat.dvd_of_mod_eq_zero divides⟩
  · have expanded : (value.toNat / multiple.toNat + (1 : UInt16).toNat) * multiple.toNat =
        value.toNat / multiple.toNat * multiple.toNat + multiple.toNat := by
      rw [Nat.add_mul]
      congr 1
      exact Nat.one_mul _
    exact ⟨by omega, by omega, Nat.dvd_mul_left _ _⟩

section Counting

variable {config : FactoryConfiguration} {chainHeight maxVotingSetHeight startHeight : Height}

/-- An integer is rounded to a multiple. -/
def exactClamp (value multiple adjustment : Int) : Int :=
  if value % multiple = 0 then value else (value / multiple + adjustment) * multiple

def exactMaxPrevoteHashHeight (multiple chainHeight maxVotingSetHeight : Int) : Int :=
  let lastHeight := if multiple ≤ chainHeight then chainHeight - multiple else chainHeight
  if maxVotingSetHeight < lastHeight then maxVotingSetHeight else lastHeight

/-- The number of hashes in integers, where no difference can wrap around. -/
def exactNumPrevoteHashes (multiple maxHashes chainHeight maxVotingSetHeight startHeight : Int) : Int :=
  let clampedChainHeight := exactClamp (exactMaxPrevoteHashHeight multiple chainHeight maxVotingSetHeight) multiple 0
  let numHashes := if startHeight < clampedChainHeight then clampedChainHeight - startHeight + 1 else 1
  if maxHashes < numHashes then numHashes - exactClamp (numHashes - maxHashes) multiple 1 else numHashes

theorem clamp_exact {value : UInt64} {multiple adjustment : UInt16} (positive : 0 < multiple.toNat)
    (small : adjustment.toNat ≤ 1) (fits : value.toNat + multiple.toNat ≤ 2 ^ 64) :
    ((clamp value multiple adjustment).toNat : Int) = exactClamp value.toNat multiple.toNat adjustment.toNat := by
  rw [clamp_toNat positive adjustment small fits, exactClamp]
  by_cases divides : value.toNat % multiple.toNat = 0
  · rw [if_pos divides, if_pos (by exact_mod_cast divides)]
  · rw [if_neg divides, if_neg (by exact_mod_cast divides)]
    push_cast
    rfl

theorem maxPrevoteHashHeight_exact (chainHeight maxVotingSetHeight : Height) :
    ((maxPrevoteHashHeight config chainHeight maxVotingSetHeight).toNat : Int) =
      exactMaxPrevoteHashHeight config.prevoteBlocksMultiple.toNat chainHeight.toNat maxVotingSetHeight.toNat ∧
    (maxPrevoteHashHeight config chainHeight maxVotingSetHeight).toNat ≤ chainHeight.toNat ∧
    (maxPrevoteHashHeight config chainHeight maxVotingSetHeight).toNat ≤ maxVotingSetHeight.toNat ∧
    (maxPrevoteHashHeight config chainHeight maxVotingSetHeight).toNat + config.prevoteBlocksMultiple.toNat ≤ 2 ^ 64 := by
  have sameMultiple : config.prevoteBlocksMultiple.toUInt64.toNat = config.prevoteBlocksMultiple.toNat := UInt16.toNat_toUInt64 _
  have fewMultiple := config.prevoteBlocksMultiple.toNat_lt
  have smallChain := chainHeight.toNat_lt
  have last : ∃ lastHeight : Height, (if config.prevoteBlocksMultiple.toUInt64 ≤ chainHeight
        then chainHeight - config.prevoteBlocksMultiple.toUInt64 else chainHeight) = lastHeight ∧
      (lastHeight.toNat : Int) = (if (config.prevoteBlocksMultiple.toNat : Int) ≤ chainHeight.toNat
        then (chainHeight.toNat : Int) - config.prevoteBlocksMultiple.toNat else chainHeight.toNat) ∧
      lastHeight.toNat ≤ chainHeight.toNat ∧ lastHeight.toNat + config.prevoteBlocksMultiple.toNat ≤ 2 ^ 64 := by
    refine ⟨_, rfl, ?_⟩
    by_cases enough : config.prevoteBlocksMultiple.toUInt64 ≤ chainHeight
    · rw [if_pos enough, UInt64.toNat_sub_of_le _ _ enough, sameMultiple]
      rw [UInt64.le_iff_toNat_le, sameMultiple] at enough
      rw [if_pos (by exact_mod_cast enough)]
      omega
    · rw [if_neg enough]
      rw [UInt64.le_iff_toNat_le, sameMultiple] at enough
      rw [if_neg (by exact_mod_cast enough)]
      omega
  obtain ⟨lastHeight, computed, exact, belowChain, fits⟩ := last
  unfold maxPrevoteHashHeight exactMaxPrevoteHashHeight
  dsimp only
  rw [computed, ← exact]
  by_cases above : maxVotingSetHeight < lastHeight
  · rw [if_pos above]
    rw [UInt64.lt_iff_toNat_lt] at above
    rw [if_pos (by exact_mod_cast above)]
    omega
  · rw [if_neg above]
    rw [UInt64.lt_iff_toNat_lt] at above
    rw [if_neg (by exact_mod_cast above)]
    omega

/-- What the number of hashes of a prevote guarantees. -/
structure PrevoteCount (multiple maxHashes chainHeight maxVotingSetHeight startHeight count : Nat) : Prop where
  exact : (count : Int) = exactNumPrevoteHashes multiple maxHashes chainHeight maxVotingSetHeight startHeight
  positive : 1 ≤ count
  atMost : count ≤ maxHashes
  available : startHeight + count ≤ chainHeight + 1
  inEpoch : startHeight + count ≤ maxVotingSetHeight + 1
  rounded : count = 1 ∨ multiple ∣ startHeight + count - 1

/-- More hashes than the maximum are reduced by a multiple. -/
theorem clamp_removed {count : UInt64} (positive : 1 ≤ config.prevoteBlocksMultiple.toNat)
    (multiple : config.prevoteBlocksMultiple.toNat ≤ config.maxHashesPerPoint.toNat) (many : config.maxHashesPerPoint.toUInt64 < count) :
    ∃ removed : Nat, (count - clamp (count - config.maxHashesPerPoint.toUInt64) config.prevoteBlocksMultiple 1).toNat =
        count.toNat - removed ∧
      (removed : Int) = exactClamp ((count.toNat : Int) - config.maxHashesPerPoint.toNat) config.prevoteBlocksMultiple.toNat 1 ∧
      removed < count.toNat ∧ count.toNat - removed ≤ config.maxHashesPerPoint.toNat ∧ config.prevoteBlocksMultiple.toNat ∣ removed := by
  have sameMaximum : config.maxHashesPerPoint.toUInt64.toNat = config.maxHashesPerPoint.toNat := UInt32.toNat_toUInt64 _
  have manyNat := UInt64.lt_iff_toNat_lt.mp many
  rw [sameMaximum] at manyNat
  have smallCount := count.toNat_lt
  have excess : (count - config.maxHashesPerPoint.toUInt64).toNat = count.toNat - config.maxHashesPerPoint.toNat := by
    rw [UInt64.toNat_sub_of_le _ _ (UInt64.le_iff_toNat_le.mpr (by omega)), sameMaximum]
  have fits : (count - config.maxHashesPerPoint.toUInt64).toNat + config.prevoteBlocksMultiple.toNat ≤ 2 ^ 64 := by omega
  obtain ⟨atLeast, lessThan, divides⟩ := clamp_up positive fits
  have exactUp := @clamp_exact _ _ 1 positive (by decide) fits
  have exactExcess : ((count - config.maxHashesPerPoint.toUInt64).toNat : Int) =
      (count.toNat : Int) - config.maxHashesPerPoint.toNat := by omega
  rw [exactExcess] at exactUp
  generalize clamp (count - config.maxHashesPerPoint.toUInt64) config.prevoteBlocksMultiple 1 = removed at *
  have remaining := UInt64.toNat_sub_of_le count removed (UInt64.le_iff_toNat_le.mpr (by omega))
  exact ⟨_, remaining, exactUp, by omega, by omega, divides⟩

theorem numPrevoteHashes_count (positive : 1 ≤ config.prevoteBlocksMultiple.toNat)
    (multiple : config.prevoteBlocksMultiple.toNat ≤ config.maxHashesPerPoint.toNat) (started : 1 ≤ startHeight.toNat)
    (known : startHeight.toNat ≤ chainHeight.toNat) (inEpoch : startHeight.toNat ≤ maxVotingSetHeight.toNat) :
    PrevoteCount config.prevoteBlocksMultiple.toNat config.maxHashesPerPoint.toNat chainHeight.toNat maxVotingSetHeight.toNat
      startHeight.toNat (numPrevoteHashes config chainHeight maxVotingSetHeight startHeight).toNat := by
  obtain ⟨exactTop, belowChain, belowEnd, fits⟩ := @maxPrevoteHashHeight_exact config chainHeight maxVotingSetHeight
  have sameMaximum : config.maxHashesPerPoint.toUInt64.toNat = config.maxHashesPerPoint.toNat := UInt32.toNat_toUInt64 _
  have exactClamped := @clamp_exact _ _ 0 positive (by decide) fits
  rw [exactTop, show ((0 : UInt16).toNat : Int) = 0 from rfl] at exactClamped
  have clampedDown := clamp_down positive fits
  have smallChain := chainHeight.toNat_lt
  have clampedLe : (clamp (maxPrevoteHashHeight config chainHeight maxVotingSetHeight) config.prevoteBlocksMultiple 0).toNat ≤
      (maxPrevoteHashHeight config chainHeight maxVotingSetHeight).toNat := by
    rw [clampedDown]
    exact Nat.div_mul_le_self _ _
  have clampedDvd : config.prevoteBlocksMultiple.toNat ∣
      (clamp (maxPrevoteHashHeight config chainHeight maxVotingSetHeight) config.prevoteBlocksMultiple 0).toNat := by
    rw [clampedDown]
    exact Nat.dvd_mul_left _ _
  unfold numPrevoteHashes
  dsimp only
  generalize clamp (maxPrevoteHashHeight config chainHeight maxVotingSetHeight) config.prevoteBlocksMultiple 0 = clamped at *
  generalize maxPrevoteHashHeight config chainHeight maxVotingSetHeight = top at *
  have expanded : exactNumPrevoteHashes config.prevoteBlocksMultiple.toNat config.maxHashesPerPoint.toNat chainHeight.toNat
      maxVotingSetHeight.toNat startHeight.toNat =
      (let numHashes : Int := if (startHeight.toNat : Int) < clamped.toNat then clamped.toNat - startHeight.toNat + 1 else 1
      if config.maxHashesPerPoint.toNat < numHashes then numHashes -
        exactClamp (numHashes - config.maxHashesPerPoint.toNat) config.prevoteBlocksMultiple.toNat 1 else numHashes) := by
    rw [exactClamped]
    rfl
  dsimp only at expanded
  by_cases above : startHeight < clamped
  · -- the chain reaches the clamped height
    have aboveNat := UInt64.lt_iff_toNat_lt.mp above
    have counted : (clamped - startHeight + 1).toNat = clamped.toNat - startHeight.toNat + 1 := by
      rw [UInt64.toNat_add, UInt64.toNat_sub_of_le _ _ (UInt64.le_iff_toNat_le.mpr aboveNat.le), UInt64.toNat_one]
      exact Nat.mod_eq_of_lt (by omega)
    have exactCount : (clamped.toNat : Int) - startHeight.toNat + 1 = (clamped - startHeight + 1).toNat := by omega
    have aboveInt : (startHeight.toNat : Int) < clamped.toNat := by exact_mod_cast aboveNat
    rw [if_pos aboveInt, exactCount] at expanded
    rw [if_pos above]
    generalize clamped - startHeight + 1 = count at *
    by_cases many : config.maxHashesPerPoint.toUInt64 < count
    · obtain ⟨removed, remaining, exactRemoved, fewer, atMost, divides⟩ := clamp_removed positive multiple many
      rw [UInt64.lt_iff_toNat_lt, sameMaximum] at many
      have manyInt : (config.maxHashesPerPoint.toNat : Int) < count.toNat := by exact_mod_cast many
      rw [if_pos manyInt, ← exactRemoved] at expanded
      rw [if_pos (UInt64.lt_iff_toNat_lt.mpr (sameMaximum ▸ many)), remaining]
      refine ⟨by omega, by omega, atMost, by omega, by omega, .inr ?_⟩
      have last : startHeight.toNat + (count.toNat - removed) - 1 = clamped.toNat - removed := by omega
      rw [last]
      exact Nat.dvd_sub clampedDvd divides
    · rw [if_neg many]
      rw [UInt64.lt_iff_toNat_lt, sameMaximum] at many
      have fewInt : ¬ (config.maxHashesPerPoint.toNat : Int) < count.toNat := by exact_mod_cast many
      rw [if_neg fewInt] at expanded
      refine ⟨expanded.symm, by omega, by omega, by omega, by omega, .inr ?_⟩
      have last : startHeight.toNat + count.toNat - 1 = clamped.toNat := by omega
      rw [last]
      exact clampedDvd
  · have few : ¬ config.maxHashesPerPoint.toUInt64 < 1 := by
      rw [UInt64.lt_iff_toNat_lt, sameMaximum]
      change ¬ _ < 1
      omega
    rw [if_neg above, if_neg few]
    rw [UInt64.lt_iff_toNat_lt] at above
    have aboveInt : ¬ (startHeight.toNat : Int) < clamped.toNat := by exact_mod_cast above
    rw [if_neg aboveInt, if_neg (by omega)] at expanded
    have one : (1 : UInt64).toNat = 1 := rfl
    exact ⟨expanded.symm, by omega, by omega, by omega, by omega, .inl one⟩

end Counting

variable {config : FactoryConfiguration} {signer : MessageSigner} {view : ChainView} {statistics : FinalizationStatistics}
  {round : FinalizationRound} {minHeight maxHeight : Height} {message : FinalizationMessage}

theorem stage_create_prevote (round : FinalizationRound) : (StepIdentifier.create round .prevote).stage = .prevote := by
  have even : ((round.point <<< 1) ||| 0) &&& 1 = (0 : UInt32) := by
    rw [← UInt32.toNat_inj, UInt32.toNat_and, UInt32.toNat_or, UInt32.toNat_shiftLeft]
    change (round.point.toNat <<< 1 % 2 ^ 32 ||| 0) &&& 1 = 0
    rw [Nat.or_zero, Nat.and_one_is_mod, Nat.shiftLeft_eq]
    omega
  rw [StepIdentifier.stage, StepIdentifier.create]
  exact if_pos even

/-- All requested hashes are loaded if they are available. -/
theorem loadHashesFrom_available {count : UInt64} (started : 1 ≤ statistics.height.toNat)
    (known : statistics.height.toNat ≤ view.chainHeight.toNat)
    (available : statistics.height.toNat + count.toNat ≤ view.chainHeight.toNat + 1) :
    view.loadHashesFrom statistics.height count =
      (List.range count.toNat).map fun index => view.hashAt (statistics.height + UInt64.ofNat index) := by
  have nonzero : statistics.height ≠ 0 := by
    intro zero
    rw [zero] at started
    exact absurd started (by decide)
  have below : ¬ view.chainHeight < statistics.height := by
    rw [UInt64.lt_iff_toNat_lt]
    omega
  have smallChain := view.chainHeight.toNat_lt
  have numAvailable : (view.chainHeight - statistics.height + 1).toNat =
      view.chainHeight.toNat - statistics.height.toNat + 1 := by
    rw [UInt64.toNat_add, UInt64.toNat_sub_of_le _ _ (UInt64.le_iff_toNat_le.mpr known), UInt64.toNat_one]
    exact Nat.mod_eq_of_lt (by omega)
  have enough : min count (view.chainHeight - statistics.height + 1) = count := by
    refine if_pos (UInt64.le_iff_toNat_le.mpr ?_)
    omega
  unfold ChainView.loadHashesFrom
  rw [if_neg (not_or.mpr ⟨nonzero, below⟩)]
  dsimp only
  rw [enough]

/-- A prevote of the factory and the checks that it passes. -/
structure AcceptablePrevote [Sha3] [VotingVerifier] (config : FactoryConfiguration) (view : ChainView)
    (statistics : FinalizationStatistics) (minHeight maxHeight : Height) (message : FinalizationMessage) : Prop where
  prevotes : isPrevote message = true
  height : message.height = statistics.height
  hashes : message.hashes =
    (List.range message.hashes.length).map fun index => view.hashAt (statistics.height + UInt64.ofNat index)
  positive : 1 ≤ message.hashes.length
  atMost : message.hashes.length ≤ config.maxHashesPerPoint.toNat
  inEpoch : lastHashHeight message ≤ maxHeight
  rounded : lastHashHeight message = statistics.height ∨ config.prevoteBlocksMultiple.toNat ∣ (lastHashHeight message).toNat
  exact : (message.hashes.length : Int) = exactNumPrevoteHashes config.prevoteBlocksMultiple.toNat
    config.maxHashesPerPoint.toNat view.chainHeight.toNat maxHeight.toNat statistics.height.toNat
  accepted : ∀ aggregator : RoundMessageAggregator, aggregator.finalizationContext.config = config.toFinalizationConfiguration →
    aggregator.finalizationContext.height = minHeight → aggregator.add message = aggregator.addChecked message

/-- The aggregator has no objection to a prevote between the ends of two epochs. -/
theorem add_eq_addChecked [Sha3] [VotingVerifier] {aggregator : RoundMessageAggregator} (prevotes : isPrevote message = true)
    (counted : message.hashesCount ≠ 0) (atMost : message.hashesCount ≤ aggregator.finalizationContext.config.maxHashesPerPoint)
    (starts : calculateVotingSetEndHeight (message.stepIdentifier.epoch - 1)
      aggregator.finalizationContext.config.votingSetGrouping = .ok minHeight)
    (ends : calculateVotingSetEndHeight message.stepIdentifier.epoch
      aggregator.finalizationContext.config.votingSetGrouping = .ok maxHeight)
    (sameHeight : aggregator.finalizationContext.height = minHeight) (after : minHeight ≤ message.height)
    (later : minHeight ≤ lastHashHeight message) (inEpoch : lastHashHeight message ≤ maxHeight) :
    aggregator.add message = aggregator.addChecked message := by
  have valid : aggregator.hasValidHashes message = .ok true := by
    unfold RoundMessageAggregator.hasValidHashes
    rw [if_pos prevotes]
    dsimp only
    rw [starts, ends]
    have inside : (decide (message.height < minHeight) || decide (maxHeight < lastHashHeight message)) = false := by
      rw [Bool.or_eq_false_iff, decide_eq_false_iff_not, decide_eq_false_iff_not, UInt64.not_lt, UInt64.not_lt]
      exact ⟨after, inEpoch⟩
    change Except.ok (!(decide (message.height < minHeight) || decide (maxHeight < lastHashHeight message))) = _
    rw [inside]
    rfl
  unfold RoundMessageAggregator.add
  dsimp only
  have fewHashes : (decide (message.hashesCount = 0) ||
      decide (aggregator.finalizationContext.config.maxHashesPerPoint < message.hashesCount)) = false := by
    rw [Bool.or_eq_false_iff, decide_eq_false_iff_not, decide_eq_false_iff_not, UInt32.not_lt]
    exact ⟨counted, atMost⟩
  have notEarly : ¬ lastHashHeight message < aggregator.finalizationContext.height := by
    rw [sameHeight, UInt64.not_lt]
    exact later
  rw [fewHashes, if_neg Bool.false_ne_true, if_neg notEarly, valid]
  rfl

/-- The last height of a message without a wrap around. -/
theorem lastHashHeight_toNat (positive : 1 ≤ message.hashes.length)
    (fits : message.height.toNat + message.hashes.length ≤ 2 ^ 64) :
    (lastHashHeight message).toNat = message.height.toNat + message.hashes.length - 1 := by
  have count : message.hashesCount.toNat = message.hashes.length := by
    rw [FinalizationMessage.hashesCount, UInt32.toNat_ofNat']
    exact Nat.mod_eq_of_lt message.counted
  have atLeastOne : (1 : UInt32) ≤ message.hashesCount := by
    rw [UInt32.le_iff_toNat_le, count]
    exact positive
  have less : (message.hashesCount - 1).toUInt64.toNat = message.hashes.length - 1 := by
    rw [UInt32.toNat_toUInt64, UInt32.toNat_sub_of_le _ _ atLeastOne, count]
    rfl
  rw [lastHashHeight, UInt64.toNat_add, less, Nat.mod_eq_of_lt (by omega)]
  omega

theorem acceptable_of_count [Sha3] [VotingVerifier] {numHashes : Nat} (prevotes : isPrevote message = true)
    (sameHeight : message.height = statistics.height)
    (hashes : message.hashes = (List.range numHashes).map fun index => view.hashAt (statistics.height + UInt64.ofNat index))
    (length : message.hashes.length = numHashes)
    (starts : calculateVotingSetEndHeight (message.stepIdentifier.epoch - 1) config.votingSetGrouping = .ok minHeight)
    (ends : calculateVotingSetEndHeight message.stepIdentifier.epoch config.votingSetGrouping = .ok maxHeight)
    (after : minHeight ≤ statistics.height)
    (count : PrevoteCount config.prevoteBlocksMultiple.toNat config.maxHashesPerPoint.toNat view.chainHeight.toNat
      maxHeight.toNat statistics.height.toNat numHashes) :
    AcceptablePrevote config view statistics minHeight maxHeight message := by
  have smallEnd := maxHeight.toNat_lt
  have inEpoch := count.inEpoch
  have positive := count.positive
  subst length
  have last := lastHashHeight_toNat positive (by rw [sameHeight]; omega)
  rw [sameHeight] at last
  have inside : lastHashHeight message ≤ maxHeight := by
    rw [UInt64.le_iff_toNat_le, last]
    omega
  have later : minHeight ≤ lastHashHeight message := by
    rw [UInt64.le_iff_toNat_le] at after ⊢
    rw [last]
    omega
  have counted : message.hashesCount.toNat = message.hashes.length := by
    rw [FinalizationMessage.hashesCount, UInt32.toNat_ofNat']
    exact Nat.mod_eq_of_lt message.counted
  refine ⟨prevotes, sameHeight, hashes, positive, count.atMost, inside, ?_, count.exact, ?_⟩
  · rcases count.rounded with single | divides
    · refine .inl (UInt64.toNat_inj.mp ?_)
      rw [last]
      omega
    · exact .inr (last ▸ divides)
  · intro aggregator sameConfig contextHeight
    refine add_eq_addChecked prevotes ?_ ?_ ?_ ?_ contextHeight (sameHeight ▸ after) later inside
    · intro zero
      rw [← UInt32.toNat_inj, counted] at zero
      change message.hashes.length = 0 at zero
      omega
    · rw [UInt32.le_iff_toNat_le, counted, sameConfig]
      exact count.atMost
    · rw [sameConfig]
      exact starts
    · rw [sameConfig]
      exact ends

/-- So many hashes fit into a message whose size has 32 bits. -/
def maxMessageHashes : Nat := 134217720

theorem messageSize_toNat {numHashes : Nat} (few : numHashes ≤ maxMessageHashes) :
    (messageSize (UInt32.ofNat numHashes)).toNat = 224 + numHashes * 32 := by
  have header : (224 : UInt32).toNat = 224 := rfl
  have hashSize : (32 : UInt32).toNat = 32 := rfl
  rw [messageSize, UInt32.toNat_add, UInt32.toNat_mul, UInt32.toNat_ofNat', header, hashSize]
  unfold maxMessageHashes at few
  omega

/-- With one hash more than fits the size of the message is zero. -/
theorem prepareMessage_wraps {stepIdentifier : StepIdentifier} {height : Height} {hashes : List Hash256}
    (signs : signer.canSign (stepIdentifierToBmKeyIdentifier stepIdentifier) = true)
    (many : hashes.length = maxMessageHashes + 1) :
    prepareMessage signer stepIdentifier height hashes = .error (.invalidArgument "size is insufficient") := by
  have insufficient : messageSize (UInt32.ofNat hashes.length) < 224 := by
    rw [many]
    decide
  rw [prepareMessage, signs, if_neg (by decide)]
  exact if_pos insufficient

/-- The hashes of a prevote are those that the chain has from the finalized height on. -/
theorem createPrevote_eq (config : FactoryConfiguration) (signer : MessageSigner) (view : ChainView)
    (statistics : FinalizationStatistics) (round : FinalizationRound) (maxHeight : Height)
    (positive : 1 ≤ config.prevoteBlocksMultiple.toNat)
    (multiple : config.prevoteBlocksMultiple.toNat ≤ config.maxHashesPerPoint.toNat)
    (ends : calculateVotingSetEndHeight round.epoch config.votingSetGrouping = .ok maxHeight)
    (finalized : 1 ≤ statistics.height) (before : statistics.height ≤ maxHeight) (known : statistics.height ≤ view.chainHeight) :
    let numHashes := (numPrevoteHashes config view.chainHeight maxHeight statistics.height).toNat
    PrevoteCount config.prevoteBlocksMultiple.toNat config.maxHashesPerPoint.toNat view.chainHeight.toNat maxHeight.toNat
        statistics.height.toNat numHashes ∧
      createPrevote config signer view statistics round = prepareMessage signer (.create round .prevote) statistics.height
        ((List.range numHashes).map fun index => view.hashAt (statistics.height + UInt64.ofNat index)) := by
  have started : 1 ≤ statistics.height.toNat := UInt64.le_iff_toNat_le.mp finalized
  have knownNat := UInt64.le_iff_toNat_le.mp known
  have beforeNat := UInt64.le_iff_toNat_le.mp before
  have count := numPrevoteHashes_count positive multiple started knownNat beforeNat
  have loads := @loadHashesFrom_available view statistics _ started knownNat count.available
  have chain : loadPrevoteHashChain config view round statistics.height =
      .ok (view.loadHashesFrom statistics.height (numPrevoteHashes config view.chainHeight maxHeight statistics.height)) := by
    rw [loadPrevoteHashChain, ends]
  generalize numPrevoteHashes config view.chainHeight maxHeight statistics.height = numHashes at *
  have filled : (view.loadHashesFrom statistics.height numHashes).isEmpty = false := by
    rw [List.isEmpty_eq_false_iff, ← List.length_pos_iff, loads, List.length_map, List.length_range]
    exact count.positive
  refine ⟨count, ?_⟩
  rw [createPrevote, chain, ← loads]
  change prepareMessage _ _ _ (if (view.loadHashesFrom statistics.height numHashes).isEmpty then _ else _) = _
  rw [filled, if_neg Bool.false_ne_true]

/-- The prevote of a voter passes the checks of every aggregator of its round if its size can be computed in 32 bits. -/
theorem createPrevote_acceptable [Sha3] [VotingVerifier] (config : FactoryConfiguration) (signer : MessageSigner) (view : ChainView)
    (statistics : FinalizationStatistics) (round : FinalizationRound) (minHeight maxHeight : Height)
    (positive : 1 ≤ config.prevoteBlocksMultiple.toNat)
    (multiple : config.prevoteBlocksMultiple.toNat ≤ config.maxHashesPerPoint.toNat)
    (starts : calculateVotingSetEndHeight (round.epoch - 1) config.votingSetGrouping = .ok minHeight)
    (ends : calculateVotingSetEndHeight round.epoch config.votingSetGrouping = .ok maxHeight)
    (finalized : 1 ≤ statistics.height) (after : minHeight ≤ statistics.height) (before : statistics.height ≤ maxHeight)
    (known : statistics.height ≤ view.chainHeight)
    (few : (numPrevoteHashes config view.chainHeight maxHeight statistics.height).toNat ≤ maxMessageHashes) :
    ∃ prevote, createPrevote config signer view statistics round = .ok prevote ∧
      prevote.isSome = signer.canSign round.epoch.toUInt64 ∧
      ∀ message, prevote = some message → AcceptablePrevote config view statistics minHeight maxHeight message := by
  obtain ⟨count, created⟩ := createPrevote_eq config signer view statistics round maxHeight positive multiple ends finalized
    before known
  rw [created, prepareMessage]
  generalize (numPrevoteHashes config view.chainHeight maxHeight statistics.height).toNat = numHashes at *
  generalize loads : ((List.range numHashes).map fun index => view.hashAt (statistics.height + UInt64.ofNat index)) = hashes
  have length : hashes.length = numHashes := by rw [← loads, List.length_map, List.length_range]
  have sized : (messageSize (UInt32.ofNat hashes.length)).toNat = 224 + hashes.length * 32 := messageSize_toNat (length ▸ few)
  have sameKey : stepIdentifierToBmKeyIdentifier (.create round .prevote) = round.epoch.toUInt64 := rfl
  rw [sameKey]
  cases canSign : signer.canSign round.epoch.toUInt64 with
  | false => exact ⟨none, rfl, rfl, nofun⟩
  | true =>
    have sufficient : ¬ messageSize (UInt32.ofNat hashes.length) < 224 := by
      rw [UInt32.lt_iff_toNat_lt, sized]
      exact Nat.not_lt.mpr (Nat.le_add_right 224 _)
    dsimp only
    rw [if_neg (by decide), if_neg sufficient, dif_pos sized.ge]
    refine ⟨_, rfl, rfl, ?_⟩
    rintro message same
    obtain rfl := Option.some.inj same
    refine acceptable_of_count ?_ rfl loads.symm length starts ends after count
    rw [isPrevote, stage_create_prevote]
    rfl

namespace Samples

/-- A signature consists of the first bytes of the key and the data. -/
def signBytes (key : VotingKey) (data : List UInt8) : VotingSignature :=
  Vector.ofFn fun index => (key.toList ++ data).getD index 0

abbrev sampleVerifier : VotingVerifier := ⟨fun key data signature => signature = signBytes key data⟩

def sampleVotingKey : VotingKey := Vector.replicate 32 7

def sampleSigner : MessageSigner where
  canSign identifier := identifier ≤ 10
  sign identifier data :=
    ⟨⟨sampleVotingKey, signBytes sampleVotingKey (sampleVotingKey.toList ++ toBytes 8 identifier.toNat)⟩,
      ⟨sampleVotingKey, signBytes sampleVotingKey data⟩⟩

/-- A hundred blocks, and the block at the end of the second epoch is finalized. -/
def sampleView : ChainView := ⟨100, fun height => Vector.replicate 32 (UInt8.ofNat height.toNat)⟩

def sampleStatistics : FinalizationStatistics := ⟨⟨2, 1⟩, 78, Vector.replicate 32 78⟩

def sampleFactoryConfiguration : FactoryConfiguration := ⟨⟨10000, 6700, 256, 0, [], 78⟩, 4⟩

/-- The prevote of the third epoch is acceptable. -/
theorem createPrevote_acceptable_third_epoch : letI := sha3Digest; letI := sampleVerifier
    ∃ prevote, createPrevote sampleFactoryConfiguration sampleSigner sampleView sampleStatistics ⟨3, 1⟩ = .ok prevote ∧
      prevote.isSome = true ∧
      ∀ message, prevote = some message → AcceptablePrevote sampleFactoryConfiguration sampleView sampleStatistics 78 156 message :=
  @createPrevote_acceptable sha3Digest sampleVerifier sampleFactoryConfiguration sampleSigner sampleView sampleStatistics ⟨3, 1⟩ 78 156
    (by decide) (by decide) rfl rfl (by decide) (by decide) (by decide) (by decide) (by decide)

/-- A message with one hash more than fits has a size of zero. -/
def greatView : ChainView := ⟨134217722, fun height => Vector.replicate 32 (UInt8.ofNat height.toNat)⟩

def greatFactoryConfiguration : FactoryConfiguration := ⟨⟨10000, 6700, 134217721, 0, [], 134217728⟩, 1⟩

/-- The size of a message with 134217721 hashes wraps around. -/
theorem createPrevote_throws : calculateVotingSetEndHeight 1 greatFactoryConfiguration.votingSetGrouping = .ok 1 ∧
      calculateVotingSetEndHeight 2 greatFactoryConfiguration.votingSetGrouping = .ok 134217728 ∧
      createPrevote greatFactoryConfiguration sampleSigner greatView ⟨⟨1, 1⟩, 1, Vector.replicate 32 1⟩ ⟨2, 1⟩ =
        .error (.invalidArgument "size is insufficient") := by
  refine ⟨rfl, rfl, ?_⟩
  have created := (createPrevote_eq greatFactoryConfiguration sampleSigner greatView ⟨⟨1, 1⟩, 1, Vector.replicate 32 1⟩ ⟨2, 1⟩
    134217728 (by decide) (by decide) rfl (by decide) (by decide) (by decide)).2
  rw [created]
  exact prepareMessage_wraps (by decide) (by rw [List.length_map, List.length_range]; decide)

end Samples

end Catapult.Finalization
