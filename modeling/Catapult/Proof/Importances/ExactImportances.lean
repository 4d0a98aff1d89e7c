import Catapult.Construction.Importances.ImportanceCalculator
import Catapult.Library.Runs
import Catapult.Library.Shares
import Mathlib.Algebra.Order.BigOperators.Group.List
import Mathlib.Tactic.Ring

/-
This file shows when the importances are calculated without an overflow or a division by zero.
-/

namespace Catapult.Importances

open Runs State

section Exact

variable (config : BlockchainConfiguration)

def percentage : Nat := config.importanceActivityPercentage.toNat

/-- The share of the stake, calculated without a limit. -/
def exactStake (balance total : Nat) : Nat := config.totalChainImportance.toNat * balance * (100 - percentage config) / (total * 100)

/-- One part of the activity, calculated without a limit. -/
def exactPart (weight activity total balance : Nat) : Nat :=
  if 0 < percentage config ∧ 0 < total then
    config.totalChainImportance.toNat * activity * (percentage config * config.minHarvesterBalance.toNat * weight) / (total * 1000) / balance
  else 0

def targetActivity : Nat := config.totalChainImportance.toNat * percentage config / 100

/-- The final importance, calculated without a limit. -/
def exactFinal (stake activity totalActivity : Nat) : Nat :=
  if totalActivity = 0 then if 0 < percentage config then stake * 100 / (100 - percentage config) else stake
  else stake + activity * targetActivity config / totalActivity

end Exact

section Bounds

variable {config : BlockchainConfiguration}

theorem uint128_eq {value : Nat} (small : value < 2 ^ 128) : uint128 value = value := Nat.mod_eq_of_lt small

theorem words_mul_lt (first second : UInt64) : first.toNat * second.toNat < 2 ^ 128 := by
  have less := Nat.mul_lt_mul'' first.toNat_lt second.toNat_lt
  rwa [← Nat.pow_add] at less

theorem divideWide_eq {value : Nat} {divisor : UInt64} (positive : 0 < divisor.toNat) : divideWide value divisor = .ok (value / divisor.toNat) := by
  refine if_neg ?_
  rintro rfl
  exact Nat.lt_irrefl 0 positive

theorem toNat_mul_eq {first second : UInt64} (small : first.toNat * second.toNat < 2 ^ 64) : (first * second).toNat = first.toNat * second.toNat := by
  rw [UInt64.toNat_mul, Nat.mod_eq_of_lt small]

theorem percentage_toUInt64 (config : BlockchainConfiguration) : config.importanceActivityPercentage.toUInt64.toNat = percentage config := rfl

/-- A balance has at most the whole stake importance. -/
theorem exactStake_le {balance total : Nat} (part : balance ≤ total) : exactStake config balance total ≤ config.totalChainImportance.toNat * (100 - percentage config) / 100 := by
  unfold exactStake
  rw [Nat.mul_right_comm]
  rcases Nat.eq_zero_or_pos total with rfl | positive
  · rw [Nat.zero_mul, Nat.div_zero]
    exact Nat.zero_le _
  · calc config.totalChainImportance.toNat * (100 - percentage config) * balance / (total * 100)
        ≤ config.totalChainImportance.toNat * (100 - percentage config) * total / (total * 100) :=
          Nat.div_le_div_right (Nat.mul_le_mul_left _ part)
      _ = config.totalChainImportance.toNat * (100 - percentage config) / 100 := by
          rw [Nat.mul_comm _ total, Nat.mul_div_mul_left _ _ positive]

/-- The stake importance is exact if the total balance leaves room for the percentage. -/
theorem calculateStakeImportance_eq {balance total : UInt64} (positive : 0 < total.toNat) (part : balance.toNat ≤ total.toNat)
    (divisor : total.toNat * 100 < 2 ^ 64) :
    ∃ stake, calculateStakeImportance config balance total = .ok stake ∧ stake.toNat = exactStake config balance.toNat total.toNat := by
  have scaled : (total * 100).toNat = total.toNat * 100 := toNat_mul_eq divisor
  have product : config.totalChainImportance.toNat * balance.toNat * (100 - percentage config) < 2 ^ 128 := by
    rw [Nat.mul_assoc, show 2 ^ 128 = 2 ^ 64 * 2 ^ 64 from rfl]
    exact Nat.mul_lt_mul'' config.totalChainImportance.toNat_lt ((Nat.mul_le_mul part (Nat.sub_le _ _)).trans_lt divisor)
  refine ⟨UInt64.ofNat (exactStake config balance.toNat total.toNat), ?_, ?_⟩
  · unfold calculateStakeImportance
    dsimp only
    rw [uint128_eq (words_mul_lt _ _), ← percentage, uint128_eq product, divideWide_eq (by omega), scaled]
    rfl
  · rw [UInt64.toNat_ofNat']
    refine Nat.mod_eq_of_lt ((exactStake_le part).trans_lt ?_)
    have limit := config.totalChainImportance.toNat_lt
    refine Nat.lt_of_le_of_lt (Nat.div_le_of_le_mul ?_) limit
    rw [Nat.mul_comm]
    exact Nat.mul_le_mul_right _ (Nat.sub_le _ _)

/-- A part of the activity is exact if its products fit. -/
theorem calculateActivityPart_eq {weight activity total balance : UInt64} (positive : 0 < balance.toNat)
    (divisor : 0 < percentage config → total.toNat * 1000 < 2 ^ 64)
    (scale : 0 < percentage config → percentage config * config.minHarvesterBalance.toNat * weight.toNat < 2 ^ 64)
    (some : 0 < percentage config → 0 < weight.toNat) (product : 0 < percentage config →
      config.totalChainImportance.toNat * activity.toNat * (percentage config * config.minHarvesterBalance.toNat * weight.toNat) < 2 ^ 128) :
    calculateActivityPart config weight activity total balance = .ok (exactPart config weight.toNat activity.toNat total.toNat balance.toNat) := by
  unfold calculateActivityPart exactPart
  have same : (0 < config.importanceActivityPercentage ∧ 0 < total) ↔ 0 < percentage config ∧ 0 < total.toNat := by
    rw [UInt8.lt_iff_toNat_lt, UInt64.lt_iff_toNat_lt]
    rfl
  by_cases active : 0 < percentage config ∧ 0 < total.toNat
  · rw [if_pos (same.mpr active), if_pos active]
    have less : percentage config * config.minHarvesterBalance.toNat < 2 ^ 64 :=
      (Nat.le_mul_of_pos_right _ (some active.1)).trans_lt (scale active.1)
    have first : (config.importanceActivityPercentage.toUInt64 * config.minHarvesterBalance).toNat =
        percentage config * config.minHarvesterBalance.toNat := toNat_mul_eq less
    have factor : (config.importanceActivityPercentage.toUInt64 * config.minHarvesterBalance * weight).toNat =
        percentage config * config.minHarvesterBalance.toNat * weight.toNat := by
      rw [toNat_mul_eq (first ▸ scale active.1), first]
    have scaled : (total * 1000).toNat = total.toNat * 1000 := toNat_mul_eq (divisor active.1)
    dsimp only
    rw [uint128_eq (words_mul_lt _ _), factor, uint128_eq (product active.1), divideWide_eq (by omega), scaled]
    exact divideWide_eq positive
  · rw [if_neg (mt same.mp active), if_neg active]

/-- A part of the activity of an eligible account is a share of its weight. -/
theorem exactPart_le {weight activity total balance : Nat} (eligible : config.minHarvesterBalance.toNat ≤ balance) (positive : 0 < config.minHarvesterBalance.toNat) :
    exactPart config weight activity total balance ≤ config.totalChainImportance.toNat * percentage config * weight * activity / (total * 1000) := by
  unfold exactPart
  split
  · rw [Nat.div_div_eq_div_mul]
    refine (Nat.div_le_div_left (Nat.mul_le_mul_left _ eligible) ?_).trans ?_
    · next active => exact Nat.mul_pos (Nat.mul_pos active.2 (by decide)) positive
    · rw [show config.totalChainImportance.toNat * activity * (percentage config * config.minHarvesterBalance.toNat * weight) =
        config.totalChainImportance.toNat * percentage config * weight * activity * config.minHarvesterBalance.toNat by ring]
      rw [Nat.mul_div_mul_right _ _ positive]
  · exact Nat.zero_le _

end Bounds

variable {config : BlockchainConfiguration} {importanceHeight : ImportanceHeight}

/-- The buckets that count for a summary. -/
def countedBuckets (config : BlockchainConfiguration) (importanceHeight : ImportanceHeight) (buckets : AccountActivityBuckets) : List ActivityBucket :=
  buckets.toList.takeWhile fun bucket => (⟨importanceHeight, config.importanceGrouping⟩ : HeightGroupingFacade).previous 4 ≤ bucket.startHeight

def balanceOf (config : BlockchainConfiguration) (summary : AccountSummary) : Nat := (harvestingBalance config summary.accountState).toNat

/-- The fees of an account, added without a limit. -/
def feesOf (config : BlockchainConfiguration) (importanceHeight : ImportanceHeight) (summary : AccountSummary) : Nat :=
  ((countedBuckets config importanceHeight summary.accountState.activityBuckets).map fun bucket => bucket.totalFeesPaid.toNat).sum

def countOf (summary : AccountSummary) : Nat := summary.activitySummary.beneficiaryCount.toNat

theorem summarizeBuckets_fees {facade : HeightGroupingFacade} {previousHeight minHeight : ImportanceHeight} {buckets : List ActivityBucket}
    {summary result : AccountActivitySummary} (ran : summarizeBuckets facade previousHeight minHeight summary buckets = .ok result) :
    result.totalFeesPaid = summary.totalFeesPaid +
      UInt64.ofNat ((buckets.takeWhile fun bucket => minHeight ≤ bucket.startHeight).map fun bucket => bucket.totalFeesPaid.toNat).sum := by
  induction buckets generalizing summary with
  | nil =>
    cases ran
    exact (UInt64.add_zero _).symm
  | cons bucket buckets ih =>
    rw [summarizeBuckets] at ran
    by_cases old : bucket.startHeight < minHeight
    · rw [if_pos old] at ran
      cases ran
      rw [List.takeWhile_cons_of_neg (by simpa using old)]
      exact (UInt64.add_zero _).symm
    · rw [if_neg old] at ran
      cases checked : facade.checkBucketHeight bucket.startHeight with
      | error failure =>
        rw [checked] at ran
        cases ran
      | ok value =>
        rw [checked] at ran
        rw [ih ran, List.takeWhile_cons_of_pos (by simpa using old), List.map_cons, List.sum_cons, UInt64.ofNat_add, UInt64.ofNat_toNat]
        exact UInt64.add_assoc _ _ _

theorem create_ok {facade : HeightGroupingFacade} {groupedHeight : ImportanceHeight} {grouping : UInt64} {message : String}
    (created : HeightGroupingFacade.create groupedHeight grouping message = .ok facade) : facade = ⟨groupedHeight, grouping⟩ := by
  unfold HeightGroupingFacade.create at created
  dsimp only at created
  split at created
  · cases created
  · obtain ⟨_, _, last⟩ := bind_eq_ok.mp created
    cases last
    rfl

/-- A summary keeps the state of its account and the sum of its fees. -/
theorem summarizeAccount_ok {cache : Cache} {address : Address} {summary : AccountSummary}
    (summarized : summarizeAccount config importanceHeight cache address = .ok summary) :
    summary.address = address ∧ cache address = some summary.accountState ∧
      summary.activitySummary.totalFeesPaid = UInt64.ofNat (feesOf config importanceHeight summary) := by
  unfold summarizeAccount at summarized
  cases found : cache address with
  | none =>
    rw [found] at summarized
    cases summarized
  | some accountState =>
    rw [found] at summarized
    obtain ⟨activitySummary, result, rest⟩ := bind_eq_ok.mp summarized
    cases rest
    unfold summarizeAccountActivity at result
    obtain ⟨facade, created, ran⟩ := bind_eq_ok.mp result
    cases create_ok created
    exact ⟨rfl, rfl, (summarizeBuckets_fees ran).trans (UInt64.zero_add _)⟩

section Totals

variable (config : BlockchainConfiguration) (importanceHeight : ImportanceHeight) (summaries : List AccountSummary)

def totalBalance : Nat := (summaries.map (balanceOf config)).sum

def totalFees : Nat := (summaries.map (feesOf config importanceHeight)).sum

def totalCount : Nat := (summaries.map countOf).sum

/-- The activity importance of an account, calculated without a limit. -/
def exactActivity (summary : AccountSummary) : Nat :=
  exactPart config 8 (feesOf config importanceHeight summary) (totalFees config importanceHeight summaries) (balanceOf config summary) +
    exactPart config 2 (countOf summary) (totalCount summaries) (balanceOf config summary)

/-- The sums and the products of the calculation fit in their 64 and 128 bits. -/
structure WithinRange : Prop where
  stakeDivisor : totalBalance config summaries * 100 < 2 ^ 64
  fees : totalFees config importanceHeight summaries < 2 ^ 64
  count : totalCount summaries < 2 ^ 64
  feeDivisor : 0 < percentage config → totalFees config importanceHeight summaries * 1000 < 2 ^ 64
  countDivisor : 0 < percentage config → totalCount summaries * 1000 < 2 ^ 64
  scale : 0 < percentage config → percentage config * config.minHarvesterBalance.toNat * 8 < 2 ^ 64
  feeProduct : 0 < percentage config → ∀ summary ∈ summaries, config.totalChainImportance.toNat * feesOf config importanceHeight summary *
    (percentage config * config.minHarvesterBalance.toNat * 8) < 2 ^ 128
  countProduct : 0 < percentage config → ∀ summary ∈ summaries,
    config.totalChainImportance.toNat * countOf summary * (percentage config * config.minHarvesterBalance.toNat * 2) < 2 ^ 128

end Totals

variable {summaries : List AccountSummary} {summary : AccountSummary}

/-- The fees of all summaries come from the buckets of their accounts. -/
def FeesCounted (config : BlockchainConfiguration) (importanceHeight : ImportanceHeight) (summaries : List AccountSummary) : Prop :=
  ∀ summary ∈ summaries, summary.activitySummary.totalFeesPaid = UInt64.ofNat (feesOf config importanceHeight summary)

theorem toUInt64_eq (word : UInt32) : UInt64.ofNat word.toNat = word.toUInt64 := by
  rw [← UInt64.toNat_inj, UInt64.toNat_ofNat', UInt32.toNat_toUInt64]
  exact Nat.mod_eq_of_lt (word.toNat_lt.trans (by decide))

/-- The context holds the sums modulo 64 bits. -/
theorem context_eq (counted : FeesCounted config importanceHeight summaries) (context : ImportanceCalculationContext) :
    summaries.foldl (addToContext config) context =
      ⟨context.activeHarvestingMosaics + UInt64.ofNat (totalBalance config summaries),
        context.totalBeneficiaryCount + UInt64.ofNat (totalCount summaries),
        context.totalFeesPaid + UInt64.ofNat (totalFees config importanceHeight summaries)⟩ := by
  induction summaries generalizing context with
  | nil =>
    change context = ⟨_ + 0, _ + 0, _ + 0⟩
    rw [UInt64.add_zero, UInt64.add_zero, UInt64.add_zero]
  | cons summary summaries ih =>
    rw [List.foldl_cons, ih fun other member => counted other (List.mem_cons_of_mem _ member)]
    unfold totalBalance totalCount totalFees addToContext
    rw [counted summary List.mem_cons_self]
    simp only [List.map_cons, List.sum_cons, UInt64.ofNat_add, UInt64.add_assoc]
    rw [balanceOf, UInt64.ofNat_toNat, countOf, toUInt64_eq]

/-- The activity importances of eligible accounts add up to at most the target. -/
theorem sum_exactActivity_le (eligible : ∀ summary ∈ summaries, config.minHarvesterBalance.toNat ≤ balanceOf config summary)
    (positive : 0 < config.minHarvesterBalance.toNat) :
    (summaries.map (exactActivity config importanceHeight summaries)).sum ≤ targetActivity config := by
  have fees : (summaries.map fun summary => exactPart config 8 (feesOf config importanceHeight summary)
      (totalFees config importanceHeight summaries) (balanceOf config summary)).sum ≤ config.totalChainImportance.toNat * percentage config * 8 / 1000 := by
    refine (List.sum_le_sum fun summary member => exactPart_le (eligible summary member) positive).trans ?_
    have shares := Shares.sum_shares_le (config.totalChainImportance.toNat * percentage config * 8) 1000 (summaries.map (feesOf config importanceHeight))
    rwa [List.map_map] at shares
  have counts : (summaries.map fun summary => exactPart config 2 (countOf summary)
      (totalCount summaries) (balanceOf config summary)).sum ≤ config.totalChainImportance.toNat * percentage config * 2 / 1000 := by
    refine (List.sum_le_sum fun summary member => exactPart_le (eligible summary member) positive).trans ?_
    have shares := Shares.sum_shares_le (config.totalChainImportance.toNat * percentage config * 2) 1000 (summaries.map countOf)
    rwa [List.map_map] at shares
  unfold exactActivity
  rw [List.sum_map_add]
  refine (Nat.add_le_add fees counts).trans ?_
  unfold targetActivity
  generalize config.totalChainImportance.toNat * percentage config = product
  omega

theorem exactActivity_le (eligible : ∀ summary ∈ summaries, config.minHarvesterBalance.toNat ≤ balanceOf config summary)
    (positive : 0 < config.minHarvesterBalance.toNat) (member : summary ∈ summaries) :
    exactActivity config importanceHeight summaries summary ≤ targetActivity config :=
  (List.le_sum_of_mem (List.mem_map_of_mem member)).trans (sum_exactActivity_le eligible positive)

theorem balanceOf_le (member : summary ∈ summaries) : balanceOf config summary ≤ totalBalance config summaries :=
  List.le_sum_of_mem (List.mem_map_of_mem member)

/-- The values of the accounts are as the code expects them. -/
structure Eligible (config : BlockchainConfiguration) (summaries : List AccountSummary) : Prop where
  positive : 0 < config.minHarvesterBalance.toNat
  balances : ∀ summary ∈ summaries, config.minHarvesterBalance.toNat ≤ balanceOf config summary
  percentage : percentage config < 100
  target : targetActivity config < 2 ^ 32

/-- A summary with its exact importances. -/
def exactSummary (config : BlockchainConfiguration) (importanceHeight : ImportanceHeight) (summaries : List AccountSummary) (summary : AccountSummary) :
    AccountSummary :=
  { summary with
    stakeImportance := UInt64.ofNat (exactStake config (balanceOf config summary) (totalBalance config summaries))
    activityImportance := UInt64.ofNat (exactActivity config importanceHeight summaries summary) }

theorem exactStake_lt (member : summary ∈ summaries) : exactStake config (balanceOf config summary) (totalBalance config summaries) < 2 ^ 64 := by
  refine (exactStake_le (balanceOf_le member)).trans_lt (Nat.lt_of_le_of_lt (Nat.div_le_of_le_mul ?_) config.totalChainImportance.toNat_lt)
  rw [Nat.mul_comm]
  exact Nat.mul_le_mul_right _ (Nat.sub_le _ _)

theorem toNat_stakeImportance (member : summary ∈ summaries) : (exactSummary config importanceHeight summaries summary).stakeImportance.toNat =
    exactStake config (balanceOf config summary) (totalBalance config summaries) := by
  unfold exactSummary
  rw [UInt64.toNat_ofNat', Nat.mod_eq_of_lt (exactStake_lt member)]

theorem toNat_activityImportance (eligible : Eligible config summaries) (member : summary ∈ summaries) :
    (exactSummary config importanceHeight summaries summary).activityImportance.toNat = exactActivity config importanceHeight summaries summary := by
  have bounded : exactActivity config importanceHeight summaries summary ≤ targetActivity config :=
    exactActivity_le eligible.balances eligible.positive member
  have target := eligible.target
  unfold exactSummary
  rw [UInt64.toNat_ofNat', Nat.mod_eq_of_lt (by omega)]

/-- The importances of an account are calculated exactly. -/
theorem calculateImportances_eq (eligible : Eligible config summaries) (counted : FeesCounted config importanceHeight summaries)
    (range : WithinRange config importanceHeight summaries) (member : summary ∈ summaries) :
    calculateImportances config (summaries.foldl (addToContext config) ⟨0, 0, 0⟩) summary = .ok (exactSummary config importanceHeight summaries summary) := by
  have active : (0 + UInt64.ofNat (totalBalance config summaries)).toNat = totalBalance config summaries := by
    rw [UInt64.zero_add, UInt64.toNat_ofNat', Nat.mod_eq_of_lt (by have := range.stakeDivisor; omega)]
  have fees : (0 + UInt64.ofNat (totalFees config importanceHeight summaries)).toNat = totalFees config importanceHeight summaries := by
    rw [UInt64.zero_add, UInt64.toNat_ofNat', Nat.mod_eq_of_lt range.fees]
  have count : (0 + UInt64.ofNat (totalCount summaries)).toNat = totalCount summaries := by
    rw [UInt64.zero_add, UInt64.toNat_ofNat', Nat.mod_eq_of_lt range.count]
  have ownFees : summary.activitySummary.totalFeesPaid.toNat = feesOf config importanceHeight summary := by
    have part : feesOf config importanceHeight summary ≤ totalFees config importanceHeight summaries :=
      List.le_sum_of_mem (List.mem_map_of_mem member)
    rw [counted summary member, UInt64.toNat_ofNat', Nat.mod_eq_of_lt (part.trans_lt range.fees)]
  have ownCount : summary.activitySummary.beneficiaryCount.toUInt64.toNat = countOf summary := UInt32.toNat_toUInt64 _
  have balance : 0 < (harvestingBalance config summary.accountState).toNat := eligible.positive.trans_le (eligible.balances summary member)
  obtain ⟨stake, stakeOk, stakeExact⟩ := @calculateStakeImportance_eq config (harvestingBalance config summary.accountState)
    (0 + UInt64.ofNat (totalBalance config summaries)) (by rw [active]; exact balance.trans_le (balanceOf_le member))
    (by rw [active]; exact balanceOf_le member) (by rw [active]; exact range.stakeDivisor)
  have feePart := @calculateActivityPart_eq config 8 summary.activitySummary.totalFeesPaid (0 + UInt64.ofNat (totalFees config importanceHeight summaries))
    (harvestingBalance config summary.accountState) balance (by rw [fees]; exact range.feeDivisor) range.scale (fun _ => by decide)
    (by rw [ownFees]; exact fun some => range.feeProduct some summary member)
  have countPart := @calculateActivityPart_eq config 2 summary.activitySummary.beneficiaryCount.toUInt64 (0 + UInt64.ofNat (totalCount summaries))
    (harvestingBalance config summary.accountState) balance (by rw [count]; exact range.countDivisor)
    (fun some => by
      have scale := range.scale some
      rw [show (2 : UInt64).toNat = 2 from rfl]
      omega)
    (fun _ => by decide) (by rw [ownCount]; exact fun some => range.countProduct some summary member)
  rw [context_eq counted]
  unfold calculateImportances
  dsimp only
  rw [stakeOk, feePart, countPart]
  rw [fees, ownFees, count, ownCount]
  have stakeSame : stake = UInt64.ofNat (exactStake config (balanceOf config summary) (totalBalance config summaries)) := by
    rw [← UInt64.toNat_inj, stakeExact, active, UInt64.toNat_ofNat', Nat.mod_eq_of_lt (exactStake_lt member)]
    rfl
  have bounded : exactActivity config importanceHeight summaries summary ≤ targetActivity config :=
    exactActivity_le eligible.balances eligible.positive member
  have target := eligible.target
  have sum : uint128 (exactPart config 8 (feesOf config importanceHeight summary) (totalFees config importanceHeight summaries)
      (harvestingBalance config summary.accountState).toNat + exactPart config 2 (countOf summary) (totalCount summaries)
      (harvestingBalance config summary.accountState).toNat) = exactActivity config importanceHeight summaries summary :=
    uint128_eq (show exactActivity config importanceHeight summaries summary < 2 ^ 128 by omega)
  change Except.ok { summary with stakeImportance := stake, activityImportance := UInt64.ofNat (uint128 _) } = _
  rw [stakeSame, exactSummary, ← sum]
  rfl

/-- The activity importances, added without a limit. -/
def totalActivity (config : BlockchainConfiguration) (importanceHeight : ImportanceHeight) (summaries : List AccountSummary) : Nat :=
  (summaries.map (exactActivity config importanceHeight summaries)).sum

theorem foldl_activity (values : List AccountSummary) (start : Importance) :
    values.foldl (fun total summary => total + summary.activityImportance) start =
      start + UInt64.ofNat (values.map fun summary => summary.activityImportance.toNat).sum := by
  induction values generalizing start with
  | nil => exact (UInt64.add_zero _).symm
  | cons summary values ih =>
    rw [List.foldl_cons, ih, List.map_cons, List.sum_cons, UInt64.ofNat_add, UInt64.ofNat_toNat]
    exact UInt64.add_assoc _ _ _

theorem toNat_target (eligible : Eligible config summaries) :
    (config.totalChainImportance * config.importanceActivityPercentage.toUInt64 / 100).toNat = targetActivity config := by
  have bound := eligible.target
  unfold targetActivity at bound ⊢
  rw [UInt64.toNat_div, toNat_mul_eq, percentage_toUInt64]
  · rfl
  · rw [percentage_toUInt64]
    omega

/-- Scaling the stake up gives at most the share of the balance in the total. -/
theorem scaledStake_le (percentage_lt : percentage config < 100) (balance total : Nat) :
    exactStake config balance total * 100 / (100 - percentage config) ≤ config.totalChainImportance.toNat * balance / total := by
  have rest : 0 < 100 - percentage config := Nat.sub_pos_of_lt percentage_lt
  rcases Nat.eq_zero_or_pos total with rfl | positive
  · unfold exactStake
    rw [Nat.zero_mul, Nat.div_zero, Nat.zero_mul, Nat.zero_div]
    exact Nat.zero_le _
  · rw [Nat.le_div_iff_mul_le positive]
    refine Nat.le_of_mul_le_mul_right ?_ rest
    calc exactStake config balance total * 100 / (100 - percentage config) * total * (100 - percentage config)
        = exactStake config balance total * 100 / (100 - percentage config) * (100 - percentage config) * total := Nat.mul_right_comm _ _ _
      _ ≤ exactStake config balance total * 100 * total := Nat.mul_le_mul_right _ (Nat.div_mul_le_self _ _)
      _ = exactStake config balance total * (total * 100) := by rw [Nat.mul_assoc, Nat.mul_comm 100]
      _ ≤ config.totalChainImportance.toNat * balance * (100 - percentage config) := Nat.div_mul_le_self _ _

/-- The scaled stake fits in 64 bits, as the target limits the chain importance. -/
theorem stake_scaled_lt (eligible : Eligible config summaries) (some : 0 < percentage config) (member : summary ∈ summaries) :
    exactStake config (balanceOf config summary) (totalBalance config summaries) * 100 < 2 ^ 64 := by
  have target := eligible.target
  unfold targetActivity at target
  have chain : config.totalChainImportance.toNat < 2 ^ 32 * 100 :=
    (Nat.le_mul_of_pos_right _ some).trans_lt ((Nat.div_lt_iff_lt_mul (by decide)).mp target)
  have stake : exactStake config (balanceOf config summary) (totalBalance config summaries) ≤ config.totalChainImportance.toNat := by
    refine (exactStake_le (balanceOf_le member)).trans (Nat.div_le_of_le_mul ?_)
    rw [Nat.mul_comm]
    exact Nat.mul_le_mul_right _ (Nat.sub_le _ _)
  omega

/-- The parts of the stake and the activity fit together in the chain importance. -/
theorem stake_add_target_le : config.totalChainImportance.toNat * (100 - percentage config) / 100 + targetActivity config ≤
    config.totalChainImportance.toNat * (100 - percentage config + percentage config) / 100 := by
  rw [Nat.mul_add]
  exact Nat.div_add_div_le_add_div

theorem chain_eq (percentage_lt : percentage config < 100) :
    config.totalChainImportance.toNat * (100 - percentage config + percentage config) / 100 = config.totalChainImportance.toNat := by
  rw [Nat.sub_add_cancel percentage_lt.le, Nat.mul_div_cancel _ (by decide)]

/-- The share of one account in the target is at most the target. -/
theorem activityShare_le (member : summary ∈ summaries) :
    exactActivity config importanceHeight summaries summary * targetActivity config / totalActivity config importanceHeight summaries ≤
      targetActivity config := by
  have part : exactActivity config importanceHeight summaries summary ≤ totalActivity config importanceHeight summaries :=
    List.le_sum_of_mem (List.mem_map_of_mem member)
  exact Nat.div_le_of_le_mul (Nat.mul_le_mul_right _ part)

/-- The final importance of an account is calculated exactly. -/
theorem calculateFinalImportance_eq (eligible : Eligible config summaries) (member : summary ∈ summaries) {total target : Importance}
    (totalExact : total.toNat = totalActivity config importanceHeight summaries) (targetExact : target.toNat = targetActivity config) :
    (calculateFinalImportance config (exactSummary config importanceHeight summaries summary) total target).toNat =
      exactFinal config (exactStake config (balanceOf config summary) (totalBalance config summaries))
        (exactActivity config importanceHeight summaries summary) (totalActivity config importanceHeight summaries) := by
  have stake : (exactSummary config importanceHeight summaries summary).stakeImportance.toNat =
      exactStake config (balanceOf config summary) (totalBalance config summaries) := toNat_stakeImportance member
  have activity : (exactSummary config importanceHeight summaries summary).activityImportance.toNat =
      exactActivity config importanceHeight summaries summary := toNat_activityImportance eligible member
  unfold calculateFinalImportance exactFinal
  by_cases none : totalActivity config importanceHeight summaries = 0
  · have zero : total = 0 := UInt64.toNat_inj.mp (totalExact.trans none)
    rw [if_pos none, if_pos zero]
    by_cases some : 0 < percentage config
    · have scaled : ((exactSummary config importanceHeight summaries summary).stakeImportance * 100).toNat =
          exactStake config (balanceOf config summary) (totalBalance config summaries) * 100 := by
        rw [toNat_mul_eq (stake.symm ▸ stake_scaled_lt eligible some member), stake]
        rfl
      have rest : (100 - config.importanceActivityPercentage.toUInt64).toNat = 100 - percentage config :=
        UInt64.toNat_sub_of_le _ _ (UInt64.le_iff_toNat_le.mpr eligible.percentage.le)
      have positive : 0 < config.importanceActivityPercentage := UInt8.lt_iff_toNat_lt.mpr some
      rw [if_pos some, if_pos positive, UInt64.toNat_div, scaled, rest]
    · have zero : ¬0 < config.importanceActivityPercentage := fun more => some (UInt8.lt_iff_toNat_lt.mp more)
      rw [if_neg some, if_neg zero, stake]
  · have nonzero : total ≠ 0 := fun zero => none (totalExact.symm.trans (congrArg UInt64.toNat zero))
    have share := @activityShare_le config importanceHeight summaries summary member
    have activityPart : exactActivity config importanceHeight summaries summary < 2 ^ 32 :=
      (exactActivity_le eligible.balances eligible.positive member).trans_lt eligible.target
    have small : exactActivity config importanceHeight summaries summary * targetActivity config < 2 ^ 32 * 2 ^ 32 :=
      Nat.mul_lt_mul'' activityPart eligible.target
    have numerator : ((exactSummary config importanceHeight summaries summary).activityImportance * target).toNat =
        exactActivity config importanceHeight summaries summary * targetActivity config := by
      rw [toNat_mul_eq (by rwa [activity, targetExact]), activity, targetExact]
    have parts := (@stake_add_target_le config).trans_eq (chain_eq eligible.percentage)
    have stakePart : exactStake config (balanceOf config summary) (totalBalance config summaries) ≤
        config.totalChainImportance.toNat * (100 - percentage config) / 100 := exactStake_le (balanceOf_le member)
    have limit := config.totalChainImportance.toNat_lt
    rw [if_neg none, if_neg nonzero, UInt64.toNat_add, UInt64.toNat_div, stake, numerator, totalExact, Nat.mod_eq_of_lt (by omega)]

end Catapult.Importances
