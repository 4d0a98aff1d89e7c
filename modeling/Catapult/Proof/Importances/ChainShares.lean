import Catapult.Library.Reordering
import Catapult.Proof.Importances.ExactImportances

/-
This file shows that the importances stay within the importance of the chain and do not depend on the order of the accounts.
-/

namespace Catapult.Importances

open Reordering Runs State

variable {config : BlockchainConfiguration} {importanceHeight : ImportanceHeight} {summaries : List AccountSummary}

theorem sum_exactStake_le : (summaries.map fun summary => exactStake config (balanceOf config summary) (totalBalance config summaries)).sum ≤
    config.totalChainImportance.toNat * (100 - percentage config) / 100 := by
  have shares := Shares.sum_shares_le (config.totalChainImportance.toNat * (100 - percentage config)) 100 (summaries.map (balanceOf config))
  rw [List.map_map] at shares
  refine (List.sum_le_sum fun summary _ => ?_).trans shares
  rw [exactStake, Nat.mul_right_comm]
  exact Nat.le_refl _

theorem sum_scaledStake_le (percentage_lt : percentage config < 100) :
    (summaries.map fun summary => exactStake config (balanceOf config summary) (totalBalance config summaries) * 100 / (100 - percentage config)).sum ≤
      config.totalChainImportance.toNat := by
  have shares := Shares.sum_shares_le config.totalChainImportance.toNat 1 (summaries.map (balanceOf config))
  rw [List.map_map, Nat.div_one, Nat.mul_one] at shares
  exact (List.sum_le_sum fun summary _ => scaledStake_le percentage_lt _ _).trans shares

theorem sum_activityShare_le : (summaries.map fun summary =>
    exactActivity config importanceHeight summaries summary * targetActivity config / totalActivity config importanceHeight summaries).sum ≤
      targetActivity config := by
  have shares := Shares.sum_shares_le (targetActivity config) 1 (summaries.map (exactActivity config importanceHeight summaries))
  rw [List.map_map, Nat.div_one, Nat.mul_one] at shares
  refine (List.sum_le_sum fun summary _ => ?_).trans shares
  rw [Nat.mul_comm]
  exact Nat.le_refl _

/-- The exact importances add up to at most the importance of the chain. -/
theorem sum_exactFinal_le (percentage_lt : percentage config < 100) :
    (summaries.map fun summary => exactFinal config (exactStake config (balanceOf config summary) (totalBalance config summaries))
      (exactActivity config importanceHeight summaries summary) (totalActivity config importanceHeight summaries)).sum ≤
      config.totalChainImportance.toNat := by
  unfold exactFinal
  have stakes := @sum_exactStake_le config summaries
  have parts := (@stake_add_target_le config).trans_eq (chain_eq percentage_lt)
  by_cases none : totalActivity config importanceHeight summaries = 0
  · simp only [if_pos none]
    by_cases some : 0 < percentage config
    · simp only [if_pos some]
      exact sum_scaledStake_le percentage_lt
    · simp only [if_neg some]
      exact stakes.trans ((Nat.le_add_right _ _).trans parts)
  · simp only [if_neg none]
    rw [List.sum_map_add]
    exact (Nat.add_le_add stakes sum_activityShare_le).trans parts

section Calculated

/-- The importance that the code assigns to an account. -/
def assigned (config : BlockchainConfiguration) (importanceHeight : ImportanceHeight) (summaries : List AccountSummary) (summary : AccountSummary) :
    AccountSummary × Importance :=
  (exactSummary config importanceHeight summaries summary,
    UInt64.ofNat (exactFinal config (exactStake config (balanceOf config summary) (totalBalance config summaries))
      (exactActivity config importanceHeight summaries summary) (totalActivity config importanceHeight summaries)))

variable {highValueAddresses : List Address} {cache : Cache}

theorem summarized_members (summarized : highValueAddresses.mapM (summarizeAccount config importanceHeight cache) = .ok summaries) :
    summaries.map AccountSummary.address = highValueAddresses ∧ FeesCounted config importanceHeight summaries := by
  have each := mapM_eq_ok.mp summarized
  clear summarized
  induction each with
  | nil => exact ⟨rfl, fun _ member => (List.not_mem_nil member).elim⟩
  | cons first _ ih =>
    obtain ⟨address, -, fees⟩ := summarizeAccount_ok first
    refine ⟨by rw [List.map_cons, address, ih.1], ?_⟩
    exact List.forall_mem_cons.mpr ⟨fees, ih.2⟩

theorem toNat_totalActivity (eligible : Eligible config summaries) :
    ((summaries.map (exactSummary config importanceHeight summaries)).foldl (fun total summary => total + summary.activityImportance) (0 : Importance)).toNat =
      totalActivity config importanceHeight summaries := by
  have same : ((summaries.map (exactSummary config importanceHeight summaries)).map fun summary : AccountSummary => summary.activityImportance.toNat) =
      summaries.map (exactActivity config importanceHeight summaries) := by
    rw [List.map_map]
    exact List.map_congr_left fun summary member => toNat_activityImportance eligible member
  have bounded : totalActivity config importanceHeight summaries ≤ targetActivity config :=
    sum_exactActivity_le eligible.balances eligible.positive
  have target := eligible.target
  rw [foldl_activity, UInt64.zero_add, UInt64.toNat_ofNat', same]
  exact Nat.mod_eq_of_lt (show totalActivity config importanceHeight summaries < 2 ^ 64 by omega)

/-- The final importances are calculated without an error and without an overflow. -/
theorem finalImportances_eq (summarized : highValueAddresses.mapM (summarizeAccount config importanceHeight cache) = .ok summaries)
    (eligible : Eligible config summaries) (range : WithinRange config importanceHeight summaries) :
    finalImportances config importanceHeight highValueAddresses cache = .ok (summaries.map (assigned config importanceHeight summaries)) := by
  have counted : FeesCounted config importanceHeight summaries := (summarized_members summarized).2
  have calculated : summaries.mapM (calculateImportances config (summaries.foldl (addToContext config) ⟨0, 0, 0⟩)) =
      .ok (summaries.map (exactSummary config importanceHeight summaries)) := by
    rw [mapM_eq_ok, List.forall₂_map_right_iff, List.forall₂_same]
    exact fun summary member => calculateImportances_eq eligible counted range member
  unfold finalImportances
  refine bind_eq_ok.mpr ⟨summaries, summarized, bind_eq_ok.mpr ⟨_, calculated, congrArg Except.ok ?_⟩⟩
  rw [List.map_map]
  refine List.map_congr_left fun summary member => Prod.ext rfl ?_
  have final := calculateFinalImportance_eq eligible member (@toNat_totalActivity config importanceHeight summaries eligible)
    (toNat_target eligible)
  rw [assigned, ← final, UInt64.ofNat_toNat]
  rfl

/-- The assigned importance is exact, because the code calculates it in the same way. -/
theorem toNat_assigned (eligible : Eligible config summaries) {summary : AccountSummary} (member : summary ∈ summaries) :
    (assigned config importanceHeight summaries summary).2.toNat =
      exactFinal config (exactStake config (balanceOf config summary) (totalBalance config summaries))
        (exactActivity config importanceHeight summaries summary) (totalActivity config importanceHeight summaries) := by
  have final := calculateFinalImportance_eq eligible member (@toNat_totalActivity config importanceHeight summaries eligible)
    (toNat_target eligible)
  rw [assigned, ← final, UInt64.ofNat_toNat]

end Calculated

section Order

variable {others : List AccountSummary}

theorem exactActivity_perm (reorder : others.Perm summaries) :
    exactActivity config importanceHeight others = exactActivity config importanceHeight summaries := by
  funext summary
  have fees : totalFees config importanceHeight others = totalFees config importanceHeight summaries := (reorder.map _).sum_eq
  have count : totalCount others = totalCount summaries := (reorder.map _).sum_eq
  rw [exactActivity, exactActivity, fees, count]

/-- The importances depend only on the sums over all accounts. -/
theorem assigned_perm (reorder : others.Perm summaries) : assigned config importanceHeight others = assigned config importanceHeight summaries := by
  funext summary
  have balance : totalBalance config others = totalBalance config summaries := (reorder.map _).sum_eq
  have activity : totalActivity config importanceHeight others = totalActivity config importanceHeight summaries := by
    rw [totalActivity, exactActivity_perm reorder]
    exact (reorder.map _).sum_eq
  rw [assigned, assigned, exactSummary, exactSummary, balance, activity, exactActivity_perm reorder]

theorem Eligible.perm (eligible : Eligible config summaries) (reorder : others.Perm summaries) : Eligible config others where
  positive := eligible.positive
  balances summary member := eligible.balances summary (reorder.mem_iff.mp member)
  percentage := eligible.percentage
  target := eligible.target

theorem WithinRange.perm (range : WithinRange config importanceHeight summaries) (reorder : others.Perm summaries) :
    WithinRange config importanceHeight others := by
  have balance : totalBalance config others = totalBalance config summaries := (reorder.map _).sum_eq
  have fees : totalFees config importanceHeight others = totalFees config importanceHeight summaries := (reorder.map _).sum_eq
  have count : totalCount others = totalCount summaries := (reorder.map _).sum_eq
  constructor
  · rw [balance]
    exact range.stakeDivisor
  · rw [fees]
    exact range.fees
  · rw [count]
    exact range.count
  · rw [fees]
    exact range.feeDivisor
  · rw [count]
    exact range.countDivisor
  · exact range.scale
  · exact fun some summary member => range.feeProduct some summary (reorder.mem_iff.mp member)
  · exact fun some summary member => range.countProduct some summary (reorder.mem_iff.mp member)

/-- The account state that an importance is stored in. -/
def storedAccount (importanceHeight : ImportanceHeight) (final : AccountSummary × Importance) : Except ImportanceError AccountState := do
  let accountState := final.1.accountState
  let activityBuckets ← liftAccount (AccountActivityBuckets.update accountState.activityBuckets importanceHeight fun bucket =>
    { bucket with rawScore := final.2 })
  let previousImportance := final.1.activitySummary.previousImportance
  let effectiveImportance := if importanceHeight = 1 then final.2 else if previousImportance < final.2 then previousImportance else final.2
  let importanceSnapshots ← liftAccount (AccountImportanceSnapshots.set accountState.importanceSnapshots effectiveImportance importanceHeight)
  return { accountState with activityBuckets, importanceSnapshots }

/-- The state to store does not come from the cache. -/
theorem storeImportance_eq_ok {cache next : Cache} {final : AccountSummary × Importance} :
    storeImportance importanceHeight cache final = .ok next ↔
      ∃ accountState, storedAccount importanceHeight final = .ok accountState ∧ Function.update cache final.1.address (some accountState) = next := by
  unfold storeImportance storedAccount
  constructor
  · intro stored
    obtain ⟨activityBuckets, updated, stored⟩ := bind_eq_ok.mp stored
    obtain ⟨importanceSnapshots, set, stored⟩ := bind_eq_ok.mp stored
    exact ⟨_, bind_eq_ok.mpr ⟨activityBuckets, updated, bind_eq_ok.mpr ⟨importanceSnapshots, set, rfl⟩⟩, Except.ok.inj stored⟩
  · rintro ⟨accountState, stored, rfl⟩
    obtain ⟨activityBuckets, updated, stored⟩ := bind_eq_ok.mp stored
    obtain ⟨importanceSnapshots, set, stored⟩ := bind_eq_ok.mp stored
    cases stored
    exact bind_eq_ok.mpr ⟨activityBuckets, updated, bind_eq_ok.mpr ⟨importanceSnapshots, set, rfl⟩⟩

/-- The importances of two accounts can be stored in any order. -/
theorem storeImportance_comm {cache result : Cache} {first second : AccountSummary × Importance} (apart : first.1.address ≠ second.1.address)
    (stored : (storeImportance importanceHeight cache first >>= fun next => storeImportance importanceHeight next second) = .ok result) :
    (storeImportance importanceHeight cache second >>= fun next => storeImportance importanceHeight next first) = .ok result := by
  obtain ⟨next, firstStored, secondStored⟩ := bind_eq_ok.mp stored
  obtain ⟨firstState, firstExact, rfl⟩ := storeImportance_eq_ok.mp firstStored
  obtain ⟨secondState, secondExact, rfl⟩ := storeImportance_eq_ok.mp secondStored
  rw [Function.update_comm apart]
  exact bind_eq_ok.mpr ⟨_, storeImportance_eq_ok.mpr ⟨secondState, secondExact, rfl⟩, storeImportance_eq_ok.mpr ⟨firstState, firstExact, rfl⟩⟩

variable {highValueAddresses reordered : List Address} {cache : Cache}

/-- The accounts of another order have the same importances. -/
theorem finalImportances_perm (reorder : reordered.Perm highValueAddresses)
    (summarized : highValueAddresses.mapM (summarizeAccount config importanceHeight cache) = .ok summaries)
    (eligible : Eligible config summaries) (range : WithinRange config importanceHeight summaries) :
    ∃ finals, finalImportances config importanceHeight reordered cache = .ok finals ∧
      finals.Perm (summaries.map (assigned config importanceHeight summaries)) := by
  obtain ⟨others, summarizedOthers, same⟩ := mapM_perm reorder summarized
  refine ⟨_, finalImportances_eq summarizedOthers (eligible.perm same) (range.perm same), ?_⟩
  rw [assigned_perm same]
  exact same.map _

/-- A successful recalculation gives the same cache in every order of the accounts. -/
theorem recalculate_perm (distinct : highValueAddresses.Nodup) (reorder : reordered.Perm highValueAddresses)
    (summarized : highValueAddresses.mapM (summarizeAccount config importanceHeight cache) = .ok summaries)
    (eligible : Eligible config summaries) (range : WithinRange config importanceHeight summaries) {removedAddresses : List Address}
    {result : Cache × List Address} (ran : recalculate config importanceHeight highValueAddresses removedAddresses cache = .ok result) :
    recalculate config importanceHeight reordered removedAddresses cache = .ok result := by
  obtain ⟨finals, calculated, same⟩ := finalImportances_perm reorder summarized eligible range
  unfold recalculate at ran ⊢
  obtain ⟨originals, calculatedOriginals, rest⟩ := bind_eq_ok.mp ran
  obtain ⟨stored, storedOriginals, removed⟩ := bind_eq_ok.mp rest
  cases (finalImportances_eq summarized eligible range).symm.trans calculatedOriginals
  have apart : (summaries.map (assigned config importanceHeight summaries)).Pairwise fun first second => first.1.address ≠ second.1.address := by
    rw [List.pairwise_map]
    rw [← (summarized_members summarized).1] at distinct
    exact List.pairwise_map.mp distinct
  have storedFinals : finals.foldlM (storeImportance importanceHeight) cache = .ok stored :=
    @foldlM_perm _ _ _ (storeImportance importanceHeight) (fun first second => first.1.address ≠ second.1.address) Ne.symm storeImportance_comm
      _ _ same.symm apart _ _ storedOriginals
  exact bind_eq_ok.mpr ⟨finals, calculated, bind_eq_ok.mpr ⟨stored, storedFinals, removed⟩⟩

end Order

section Monotonicity

variable {highValueAddresses : List Address} {cache : Cache} {address : Address}

/-- The summary of one account is separated from the others. -/
theorem summarized_split (member : address ∈ highValueAddresses)
    (summarized : highValueAddresses.mapM (summarizeAccount config importanceHeight cache) = .ok summaries) :
    ∃ summary others, summarizeAccount config importanceHeight cache address = .ok summary ∧
      (highValueAddresses.erase address).mapM (summarizeAccount config importanceHeight cache) = .ok others ∧ (summary :: others).Perm summaries := by
  obtain ⟨separated, summarizedSeparated, same⟩ := mapM_perm (List.perm_cons_erase member).symm summarized
  rw [List.mapM_cons] at summarizedSeparated
  obtain ⟨summary, summarizedOne, rest⟩ := bind_eq_ok.mp summarizedSeparated
  obtain ⟨others, summarizedOthers, last⟩ := bind_eq_ok.mp rest
  cases last
  exact ⟨summary, others, summarizedOne, summarizedOthers, same⟩

/-- The summaries of the other accounts do not depend on the account. -/
theorem summarizeAll_update {addresses : List Address} (absent : address ∉ addresses) (accountState : Option AccountState) :
    addresses.mapM (summarizeAccount config importanceHeight (Function.update cache address accountState)) =
      addresses.mapM (summarizeAccount config importanceHeight cache) := by
  induction addresses with
  | nil => rfl
  | cons other addresses ih =>
    obtain ⟨different, others⟩ := not_or.mp (mt List.mem_cons.mpr absent)
    have same : summarizeAccount config importanceHeight (Function.update cache address accountState) other =
        summarizeAccount config importanceHeight cache other := by
      rw [summarizeAccount, summarizeAccount, Function.update_of_ne (Ne.symm different)]
    rw [List.mapM_cons, List.mapM_cons, ih others, same]

/-- The only summary with the address of an account is its own. -/
theorem eq_of_address {summary other : AccountSummary} {others : List AccountSummary} (distinct : highValueAddresses.Nodup)
    (summarizedOthers : (highValueAddresses.erase address).mapM (summarizeAccount config importanceHeight cache) = .ok others)
    (same : (summary :: others).Perm summaries) (member : other ∈ summaries) (ownAddress : other.address = address) : other = summary := by
  rcases List.mem_cons.mp (same.mem_iff.mpr member) with rfl | elsewhere
  · rfl
  · have erased : other.address ∈ highValueAddresses.erase address := (summarized_members summarizedOthers).1 ▸ List.mem_map_of_mem elsewhere
    rw [ownAddress] at erased
    exact absurd erased distinct.not_mem_erase

/-- A greater balance has a greater stake importance when the other accounts are the same. -/
theorem exactStake_mono {small large : AccountSummary} {others raisedSummaries : List AccountSummary} (smallSplit : (small :: others).Perm summaries)
    (largeSplit : (large :: others).Perm raisedSummaries) (positive : 0 < balanceOf config small) (more : balanceOf config small ≤ balanceOf config large) :
    exactStake config (balanceOf config small) (totalBalance config summaries) ≤
      exactStake config (balanceOf config large) (totalBalance config raisedSummaries) := by
  have smallTotal : totalBalance config summaries = (others.map (balanceOf config)).sum + balanceOf config small := by
    rw [totalBalance, ← (smallSplit.map _).sum_eq, List.map_cons, List.sum_cons, Nat.add_comm]
  have largeTotal : totalBalance config raisedSummaries = (others.map (balanceOf config)).sum + balanceOf config large := by
    rw [totalBalance, ← (largeSplit.map _).sum_eq, List.map_cons, List.sum_cons, Nat.add_comm]
  rw [smallTotal, largeTotal, exactStake, exactStake, Nat.mul_right_comm, Nat.mul_right_comm _ (balanceOf config large)]
  exact Shares.share_mono _ 100 _ more positive (by decide)

/-- A calculated importance belongs to a summary. -/
theorem mem_finals {final : AccountSummary × Importance} {finals : List (AccountSummary × Importance)}
    (summarized : highValueAddresses.mapM (summarizeAccount config importanceHeight cache) = .ok summaries) (eligible : Eligible config summaries)
    (range : WithinRange config importanceHeight summaries)
    (calculated : finalImportances config importanceHeight highValueAddresses cache = .ok finals) (member : final ∈ finals) :
    ∃ summary ∈ summaries, assigned config importanceHeight summaries summary = final := by
  rw [finalImportances_eq summarized eligible range] at calculated
  cases calculated
  exact List.mem_map.mp member

/-- The stake importance of an account does not fall when its balance is raised. -/
theorem stakeImportance_mono (distinct : highValueAddresses.Nodup) (member : address ∈ highValueAddresses) {accountState raised : AccountState}
    (found : cache address = some accountState) (more : harvestingBalance config accountState ≤ harvestingBalance config raised)
    (summarized : highValueAddresses.mapM (summarizeAccount config importanceHeight cache) = .ok summaries) (eligible : Eligible config summaries)
    {raisedSummaries : List AccountSummary}
    (summarizedRaised : highValueAddresses.mapM (summarizeAccount config importanceHeight (Function.update cache address (some raised))) =
      .ok raisedSummaries)
    {summary raisedSummary : AccountSummary} (inside : summary ∈ summaries) (insideRaised : raisedSummary ∈ raisedSummaries)
    (ownAddress : summary.address = address) (ownAddressRaised : raisedSummary.address = address) :
    (exactSummary config importanceHeight summaries summary).stakeImportance ≤
      (exactSummary config importanceHeight raisedSummaries raisedSummary).stakeImportance := by
  obtain ⟨small, others, smallSummarized, othersSummarized, smallSplit⟩ := summarized_split member summarized
  obtain ⟨large, raisedOthers, largeSummarized, raisedOthersSummarized, largeSplit⟩ := summarized_split member summarizedRaised
  cases eq_of_address distinct othersSummarized smallSplit inside ownAddress
  cases eq_of_address distinct raisedOthersSummarized largeSplit insideRaised ownAddressRaised
  rw [summarizeAll_update distinct.not_mem_erase] at raisedOthersSummarized
  cases othersSummarized.symm.trans raisedOthersSummarized
  have smallState := (summarizeAccount_ok smallSummarized).2.1
  have largeState := (summarizeAccount_ok largeSummarized).2.1
  rw [found] at smallState
  rw [Function.update_self] at largeState
  have balances : balanceOf config summary ≤ balanceOf config raisedSummary := by
    rw [balanceOf, balanceOf, ← Option.some.inj smallState, ← Option.some.inj largeState]
    exact UInt64.le_iff_toNat_le.mp more
  rw [UInt64.le_iff_toNat_le, toNat_stakeImportance inside, toNat_stakeImportance insideRaised]
  exact exactStake_mono smallSplit largeSplit (eligible.positive.trans_le (eligible.balances summary inside)) balances

end Monotonicity

/-- The importances of eligible accounts within the range are exact and stay within the importance of the chain, the order of the accounts does
not matter, and the stake importance does not fall with the balance. -/
theorem importances_withinChain (config : BlockchainConfiguration) (importanceHeight : ImportanceHeight) (highValueAddresses : List Address)
    (cache : Cache) (summaries : List AccountSummary) (distinct : highValueAddresses.Nodup)
    (summarized : highValueAddresses.mapM (summarizeAccount config importanceHeight cache) = .ok summaries)
    (eligible : Eligible config summaries) (range : WithinRange config importanceHeight summaries) :
    (∃ finals, finalImportances config importanceHeight highValueAddresses cache = .ok finals ∧
      finals.map (fun final => final.1.address) = highValueAddresses ∧
      (finals.map fun final => final.2.toNat).sum ≤ config.totalChainImportance.toNat ∧
      finals.map (fun final => (final.1.stakeImportance.toNat, final.1.activityImportance.toNat, final.2.toNat)) =
        summaries.map fun summary =>
          let stake := exactStake config (balanceOf config summary) (totalBalance config summaries)
          let activity := exactActivity config importanceHeight summaries summary
          (stake, activity, exactFinal config stake activity (totalActivity config importanceHeight summaries))) ∧
    (∀ reordered, reordered.Perm highValueAddresses → ∀ removedAddresses result,
      recalculate config importanceHeight highValueAddresses removedAddresses cache = .ok result →
        recalculate config importanceHeight reordered removedAddresses cache = .ok result) ∧
    ∀ address accountState raised raisedSummaries finals raisedFinals, address ∈ highValueAddresses → cache address = some accountState →
      harvestingBalance config accountState ≤ harvestingBalance config raised →
      highValueAddresses.mapM (summarizeAccount config importanceHeight (Function.update cache address (some raised))) = .ok raisedSummaries →
      Eligible config raisedSummaries → WithinRange config importanceHeight raisedSummaries →
      finalImportances config importanceHeight highValueAddresses cache = .ok finals →
      finalImportances config importanceHeight highValueAddresses (Function.update cache address (some raised)) = .ok raisedFinals →
      ∀ final ∈ finals, ∀ raisedFinal ∈ raisedFinals, final.1.address = address → raisedFinal.1.address = address →
        final.1.stakeImportance ≤ raisedFinal.1.stakeImportance := by
  have exactValues : (summaries.map (assigned config importanceHeight summaries)).map (fun final =>
      (final.1.stakeImportance.toNat, final.1.activityImportance.toNat, final.2.toNat)) = summaries.map fun summary =>
        (exactStake config (balanceOf config summary) (totalBalance config summaries), exactActivity config importanceHeight summaries summary,
          exactFinal config (exactStake config (balanceOf config summary) (totalBalance config summaries))
            (exactActivity config importanceHeight summaries summary) (totalActivity config importanceHeight summaries)) := by
    rw [List.map_map]
    refine List.map_congr_left fun summary member => Prod.ext (@toNat_stakeImportance config importanceHeight _ _ member) (Prod.ext (toNat_activityImportance eligible member) ?_)
    exact toNat_assigned eligible member
  refine ⟨⟨_, finalImportances_eq summarized eligible range, ?_, ?_, exactValues⟩, ?_, ?_⟩
  · rw [List.map_map]
    exact (summarized_members summarized).1
  · have values := congrArg (fun values => (values.map fun value => value.2.2).sum) exactValues
    simp only [List.map_map] at values
    rw [List.map_map]
    exact values.trans_le (sum_exactFinal_le eligible.percentage)
  · exact fun reordered reorder removedAddresses result ran => recalculate_perm distinct reorder summarized eligible range ran
  · intro address accountState raised raisedSummaries finals raisedFinals member found more summarizedRaised eligibleRaised rangeRaised
      calculated calculatedRaised final inside raisedFinal insideRaised ownAddress ownAddressRaised
    obtain ⟨summary, insideSummaries, rfl⟩ := mem_finals summarized eligible range calculated inside
    obtain ⟨raisedSummary, insideRaisedSummaries, rfl⟩ := mem_finals summarizedRaised eligibleRaised rangeRaised calculatedRaised insideRaised
    exact stakeImportance_mono distinct member found more summarized eligible summarizedRaised insideSummaries insideRaisedSummaries
      ownAddress ownAddressRaised

namespace Samples

def sampleConfig : BlockchainConfiguration := ⟨100, 5, 1, 17000000, 500⟩

/-- An account with one balance and one bucket. -/
def account (address : Address) (balance fees : Amount) : AccountState :=
  { AccountState.create address 1 with
    balances := ⟨⟨⟨(1, balance), none⟩, 0⟩, 0⟩
    activityBuckets := ⟨[⟨⟨fees, 1, 0⟩, 1⟩], show 1 ≤ activityBucketHistorySize by decide⟩ }

def alice : Address := Vector.replicate 24 1

def bob : Address := Vector.replicate 24 2

def cache (fees : Amount) (address : Address) : Option AccountState :=
  if address = alice then some (account alice 1000 fees) else if address = bob then some (account bob 3000 20) else none

def summary (address : Address) (balance fees : Amount) : AccountSummary := ⟨address, ⟨fees, 1, 0⟩, account address balance fees, 0, 0⟩

theorem summarized : [alice, bob].mapM (summarizeAccount sampleConfig 1 (cache 10)) = .ok [summary alice 1000 10, summary bob 3000 20] := by
  rfl

theorem eligible : Eligible sampleConfig [summary alice 1000 10, summary bob 3000 20] :=
  ⟨by decide, by decide, by decide, by decide⟩

theorem range : WithinRange sampleConfig 1 [summary alice 1000 10, summary bob 3000 20] :=
  ⟨by decide, by decide, by decide, by decide, by decide, by decide, by decide, by decide⟩

/-- The importances of two accounts stay within the total. -/
theorem importances_aliceBob : ∃ finals, finalImportances sampleConfig 1 [alice, bob] (cache 10) = .ok finals ∧
    (finals.map fun final => final.2.toNat).sum ≤ 17000000 := by
  obtain ⟨⟨finals, calculated, _, bounded, _⟩, _⟩ :=
    importances_withinChain sampleConfig 1 [alice, bob] (cache 10) _ (by decide) summarized eligible range
  exact ⟨finals, calculated, bounded⟩

/-- The divisor of the fees wraps around to zero. -/
theorem fees_wrapAround : [alice].mapM (summarizeAccount sampleConfig 1 (cache 0x2000000000000000)) = .ok [summary alice 1000 0x2000000000000000] ∧
    Eligible sampleConfig [summary alice 1000 0x2000000000000000] ∧
    finalImportances sampleConfig 1 [alice] (cache 0x2000000000000000) = .error .divisionByZero :=
  ⟨rfl, ⟨by decide, by decide, by decide, by decide⟩, rfl⟩

end Samples

end Catapult.Importances
