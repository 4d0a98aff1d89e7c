import Catapult.Construction.Finalization.FinalizationMessageFactory

/-
This file shows that the voting sets divide the chain and that every height belongs to the set of its epoch.
-/

namespace Catapult.Finalization

/-- The end height of the epoch is a 64 bit value. -/
def EpochFits (grouping : UInt64) (epoch : FinalizationEpoch) : Prop := (epoch.toNat - 1) * grouping.toNat < 2 ^ 64

/-- The epoch of a height as a number without a bound. -/
def exactEpoch (grouping height : Nat) : Nat := if height ≤ 1 then 1 else 1 + (height + grouping - 1) / grouping

/-- The height lies between the start height and the end height of the epoch. -/
def InVotingSet (grouping : UInt64) (epoch : FinalizationEpoch) (height : Height) : Prop :=
  ∃ startHeight endHeight, calculateVotingSetStartHeight epoch grouping = .ok startHeight ∧
    calculateVotingSetEndHeight epoch grouping = .ok endHeight ∧ startHeight ≤ height ∧ height ≤ endHeight

section Heights

variable {grouping : UInt64} {epoch : FinalizationEpoch}

theorem grouping_ne_zero (great : 2 ≤ grouping.toNat) : grouping ≠ 0 := by
  rintro rfl
  exact absurd great (by decide)

theorem epoch_ne_zero (positive : 0 < epoch.toNat) : epoch ≠ 0 := by
  rintro rfl
  exact absurd positive (by decide)

/-- The start height of a set, without a bound. -/
def exactStart (grouping epoch : Nat) : Nat := if epoch ≤ 2 then epoch else (epoch - 2) * grouping + 1

/-- The end height of a set, without a bound. -/
def exactEnd (grouping epoch : Nat) : Nat := if epoch = 1 then 1 else (epoch - 1) * grouping

theorem startHeight_eq (great : 2 ≤ grouping.toNat) (positive : 0 < epoch.toNat) :
    calculateVotingSetStartHeight epoch grouping = .ok (UInt64.ofNat (exactStart grouping.toNat epoch.toNat)) := by
  rw [calculateVotingSetStartHeight, if_neg (grouping_ne_zero great), if_neg (epoch_ne_zero positive), exactStart]
  by_cases early : epoch ≤ 2
  · rw [if_pos early, if_pos (show epoch.toNat ≤ 2 from UInt32.le_iff_toNat_le.mp early)]
    congr 1
    apply UInt64.toNat.inj
    rw [UInt32.toNat_toUInt64, UInt64.toNat_ofNat', Nat.mod_eq_of_lt (Nat.lt_trans epoch.toNat_lt (by decide))]
  · have late : ¬ epoch.toNat ≤ 2 := fun less => early (UInt32.le_iff_toNat_le.mpr less)
    have less : (2 : UInt32) ≤ epoch := UInt32.le_iff_toNat_le.mpr (Nat.le_of_lt (Nat.not_le.mp late))
    have read : (epoch - 2).toUInt64 = UInt64.ofNat (epoch.toNat - 2) := by
      apply UInt64.toNat.inj
      rw [UInt32.toNat_toUInt64, UInt32.toNat_sub_of_le _ _ less, UInt64.toNat_ofNat',
        Nat.mod_eq_of_lt (Nat.lt_of_le_of_lt (Nat.sub_le _ _) (Nat.lt_trans epoch.toNat_lt (by decide)))]
      rfl
    rw [if_neg early, if_neg late, read, UInt64.ofNat_add, UInt64.ofNat_mul, UInt64.ofNat_toNat]
    rfl

theorem endHeight_eq (great : 2 ≤ grouping.toNat) (positive : 0 < epoch.toNat) :
    calculateVotingSetEndHeight epoch grouping = .ok (UInt64.ofNat (exactEnd grouping.toNat epoch.toNat)) := by
  rw [calculateVotingSetEndHeight, if_neg (grouping_ne_zero great), if_neg (epoch_ne_zero positive), exactEnd]
  by_cases first : epoch = 1
  · subst first
    rfl
  · have later : ¬ epoch.toNat = 1 := fun same => first (UInt32.toNat.inj same)
    have less : (1 : UInt32) ≤ epoch := UInt32.le_iff_toNat_le.mpr positive
    have read : (epoch - 1).toUInt64 = UInt64.ofNat (epoch.toNat - 1) := by
      apply UInt64.toNat.inj
      rw [UInt32.toNat_toUInt64, UInt32.toNat_sub_of_le _ _ less, UInt64.toNat_ofNat',
        Nat.mod_eq_of_lt (Nat.lt_of_le_of_lt (Nat.sub_le _ _) (Nat.lt_trans epoch.toNat_lt (by decide)))]
      rfl
    rw [if_neg first, if_neg later, read, UInt64.ofNat_mul, UInt64.ofNat_toNat]

/-- A division that rounds up. -/
theorem ceil_eq (great : 2 ≤ grouping.toNat) (height : Nat) (positive : 0 < height) :
    (height + grouping.toNat - 1) / grouping.toNat = height / grouping.toNat + if height % grouping.toNat = 0 then 0 else 1 := by
  have split := Nat.div_add_mod height grouping.toNat
  have bound := Nat.mod_lt height (show grouping.toNat > 0 by omega)
  rw [Nat.div_eq_iff (by omega)]
  generalize height / grouping.toNat = quotient at split ⊢
  generalize height % grouping.toNat = remainder at split bound ⊢
  split
  · have := Nat.add_mul quotient 0 grouping.toNat
    rw [Nat.mul_comm] at split
    omega
  · have := Nat.add_mul quotient 1 grouping.toNat
    rw [Nat.mul_comm] at split
    omega

theorem epochForHeight_eq {height : Height} (great : 2 ≤ grouping.toNat) (positive : 0 < height.toNat) :
    calculateFinalizationEpochForHeight height grouping = .ok (UInt32.ofNat (exactEpoch grouping.toNat height.toNat)) := by
  have nonzero : height ≠ 0 := by
    rintro rfl
    exact absurd positive (by decide)
  rw [calculateFinalizationEpochForHeight, if_neg (grouping_ne_zero great), if_neg nonzero, exactEpoch]
  by_cases first : height ≤ 1
  · rw [if_pos first, if_pos (show height.toNat ≤ 1 from UInt64.le_iff_toNat_le.mp first)]
    rfl
  · have later : ¬ height.toNat ≤ 1 := fun less => first (UInt64.le_iff_toNat_le.mpr less)
    have divisible : height % grouping = 0 ↔ height.toNat % grouping.toNat = 0 := by
      rw [← UInt64.toNat_inj, UInt64.toNat_mod]
      rfl
    have quotient : (height / grouping).toUInt32 = UInt32.ofNat (height.toNat / grouping.toNat) := by
      apply UInt32.toNat.inj
      rw [UInt64.toNat_toUInt32, UInt64.toNat_div, UInt32.toNat_ofNat']
    rw [if_neg first, if_neg later, ceil_eq great _ positive, quotient]
    by_cases aligned : height.toNat % grouping.toNat = 0
    · simp only [divisible, aligned, if_true, UInt32.ofNat_add]
      congr 1
      rw [UInt32.add_assoc, UInt32.add_comm 0 (UInt32.ofNat _)]
      rfl
    · simp only [divisible, aligned, if_false, UInt32.ofNat_add]
      congr 1
      rw [UInt32.add_assoc, UInt32.add_comm 1 (UInt32.ofNat _)]
      rfl

end Heights

section Exact

variable {grouping height epoch : Nat}

/-- The exact epoch is the only one whose set contains the height. -/
theorem exactEpoch_eq_iff (great : 2 ≤ grouping) (positive : 0 < height) (positive' : 0 < epoch) :
    exactEpoch grouping height = epoch ↔ exactStart grouping epoch ≤ height ∧ height ≤ exactEnd grouping epoch := by
  unfold exactEpoch exactStart exactEnd
  by_cases nemesis : height = 1
  · rw [if_pos (by omega)]
    constructor
    · intro first
      rw [if_pos (by omega), if_pos (by omega)]
      omega
    · rintro ⟨start, _⟩
      by_contra other
      split at start
      · omega
      · have := Nat.le_mul_of_pos_left grouping (show 0 < epoch - 2 by omega)
        omega
  · rw [if_neg (by omega)]
    obtain first | later := Nat.eq_or_lt_of_le positive'
    · subst first
      have := Nat.div_pos (show grouping ≤ height + grouping - 1 by omega) (by omega)
      generalize (height + grouping - 1) / grouping = quotient at this ⊢
      rw [if_pos (by decide), if_pos rfl]
      omega
    · obtain ⟨sets, rfl⟩ : ∃ sets, epoch = sets + 2 := ⟨epoch - 2, by omega⟩
      have divided : 1 + (height + grouping - 1) / grouping = sets + 2 ↔ (height + grouping - 1) / grouping = sets + 1 := by omega
      have next := Nat.add_mul sets 1 grouping
      rw [divided, Nat.div_eq_iff (by omega), if_neg (show ¬ sets + 2 = 1 by omega), show sets + 2 - 1 = sets + 1 by omega,
        show sets + 2 - 2 = sets by omega]
      by_cases second : sets = 0
      · subst second
        rw [if_pos (by decide)]
        omega
      · rw [if_neg (by omega)]
        omega

theorem exactEpoch_pos (height : Nat) : 0 < exactEpoch grouping height := by
  unfold exactEpoch
  split
  · exact Nat.one_pos
  · exact Nat.add_pos_left Nat.one_pos _

theorem exactStart_le_exactEnd (great : 2 ≤ grouping) (positive : 0 < epoch) : exactStart grouping epoch ≤ exactEnd grouping epoch := by
  unfold exactStart exactEnd
  obtain first | later := Nat.eq_or_lt_of_le positive
  · subst first
    exact Nat.le_refl 1
  · obtain ⟨sets, rfl⟩ : ∃ sets, epoch = sets + 2 := ⟨epoch - 2, by omega⟩
    have next := Nat.add_mul sets 1 grouping
    rw [if_neg (show ¬ sets + 2 = 1 by omega), show sets + 2 - 1 = sets + 1 by omega, show sets + 2 - 2 = sets by omega]
    split <;> omega

theorem exactStart_next (positive : 0 < epoch) : exactStart grouping (epoch + 1) = exactEnd grouping epoch + 1 := by
  unfold exactStart exactEnd
  obtain first | later := Nat.eq_or_lt_of_le positive
  · subst first
    rfl
  · rw [if_neg (by omega), if_neg (by omega), show epoch + 1 - 2 = epoch - 1 by omega]

end Exact

variable {grouping : UInt64} {epoch : FinalizationEpoch}

theorem exactEnd_lt (fits : EpochFits grouping epoch) : exactEnd grouping.toNat epoch.toNat < 2 ^ 64 := by
  unfold exactEnd
  split
  · decide
  · exact fits

/-- The heights of a set whose values fit are those between its exact bounds. -/
theorem inVotingSet_iff (great : 2 ≤ grouping.toNat) (positive : 0 < epoch.toNat) (fits : EpochFits grouping epoch) {height : Height} :
    InVotingSet grouping epoch height ↔
      exactStart grouping.toNat epoch.toNat ≤ height.toNat ∧ height.toNat ≤ exactEnd grouping.toNat epoch.toNat := by
  have last := exactEnd_lt fits
  have ordered := exactStart_le_exactEnd great positive
  have start : (UInt64.ofNat (exactStart grouping.toNat epoch.toNat)).toNat = exactStart grouping.toNat epoch.toNat :=
    UInt64.toNat_ofNat_of_lt' (Nat.lt_of_le_of_lt ordered last)
  have final : (UInt64.ofNat (exactEnd grouping.toNat epoch.toNat)).toNat = exactEnd grouping.toNat epoch.toNat :=
    UInt64.toNat_ofNat_of_lt' last
  unfold InVotingSet
  rw [startHeight_eq great positive, endHeight_eq great positive]
  constructor
  · rintro ⟨_, _, ⟨rfl⟩, ⟨rfl⟩, above, below⟩
    rw [UInt64.le_iff_toNat_le] at above below
    rw [start] at above
    rw [final] at below
    exact ⟨above, below⟩
  · rintro ⟨above, below⟩
    refine ⟨_, _, rfl, rfl, ?_, ?_⟩
    · rw [UInt64.le_iff_toNat_le, start]
      exact above
    · rw [UInt64.le_iff_toNat_le, final]
      exact below

/-- The voting sets follow each other without gaps, and the epoch of a height is the one whose set contains it. -/
theorem votingSets_partition (grouping : UInt64) (great : 2 ≤ grouping.toNat) :
    calculateVotingSetStartHeight 1 grouping = .ok 1 ∧ (∀ epoch, 0 < epoch.toNat → EpochFits grouping epoch →
        ∃ startHeight endHeight, calculateVotingSetStartHeight epoch grouping = .ok startHeight ∧
          calculateVotingSetEndHeight epoch grouping = .ok endHeight ∧ startHeight ≤ endHeight ∧
          ∀ next, next.toNat = epoch.toNat + 1 → endHeight.toNat + 1 < 2 ^ 64 →
            calculateVotingSetStartHeight next grouping = .ok (endHeight + 1)) ∧
      (∀ height, 0 < height.toNat → exactEpoch grouping.toNat height.toNat < 2 ^ 32 →
        (exactEpoch grouping.toNat height.toNat - 1) * grouping.toNat < 2 ^ 64 →
          ∃! epoch, 0 < epoch.toNat ∧ EpochFits grouping epoch ∧ InVotingSet grouping epoch height) ∧
      ∀ height epoch, 0 < height.toNat → 0 < epoch.toNat → exactEpoch grouping.toNat height.toNat < 2 ^ 32 → EpochFits grouping epoch →
        (calculateFinalizationEpochForHeight height grouping = .ok epoch ↔ InVotingSet grouping epoch height) := by
  refine ⟨startHeight_eq great (by decide), ?_, ?_, ?_⟩
  · intro epoch positive fits
    have last := exactEnd_lt fits
    have ordered := exactStart_le_exactEnd great positive
    refine ⟨_, _, startHeight_eq great positive, endHeight_eq great positive, ?_, ?_⟩
    · rw [UInt64.le_iff_toNat_le, UInt64.toNat_ofNat_of_lt' (Nat.lt_of_le_of_lt ordered last), UInt64.toNat_ofNat_of_lt' last]
      exact ordered
    · intro next successor _
      rw [startHeight_eq great (by omega), successor, exactStart_next positive, UInt64.ofNat_add]
      rfl
  · intro height positive fits bounded
    have exact : (UInt32.ofNat (exactEpoch grouping.toNat height.toNat)).toNat = exactEpoch grouping.toNat height.toNat :=
      UInt32.toNat_ofNat_of_lt' fits
    have positive' := @exactEpoch_pos grouping.toNat height.toNat
    have fits' : EpochFits grouping (UInt32.ofNat (exactEpoch grouping.toNat height.toNat)) := by
      unfold EpochFits
      rwa [exact]
    refine ⟨_, ⟨by rwa [exact], fits', ?_⟩, ?_⟩
    · rw [inVotingSet_iff great (by rwa [exact]) fits', exact]
      exact (exactEpoch_eq_iff great positive positive').mp rfl
    · rintro other ⟨otherPositive, otherFits, inside⟩
      rw [inVotingSet_iff great otherPositive otherFits, ← exactEpoch_eq_iff great positive otherPositive] at inside
      exact UInt32.toNat.inj (inside.symm.trans exact.symm)
  · intro height epoch positive positive' fits epochFits
    rw [inVotingSet_iff great positive' epochFits, ← exactEpoch_eq_iff great positive positive', epochForHeight_eq great positive,
      Except.ok.injEq, ← UInt32.toNat_inj, UInt32.toNat_ofNat_of_lt' fits]

namespace Samples

/-- Height 5 belongs to epoch 4 if voting sets have two heights. -/
theorem groups_of_two : calculateFinalizationEpochForHeight 5 2 = .ok 4 ↔ InVotingSet 2 4 5 :=
  (votingSets_partition 2 (by decide)).2.2.2 5 4 (by decide) (by decide) (by decide) (by unfold EpochFits; decide)

end Samples

end Catapult.Finalization
