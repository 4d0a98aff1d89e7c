import Catapult.Construction.Importances.ImportanceObserver
import Catapult.Proof.Importances.ChainShares
import Catapult.Proof.Importances.HistoryAgreement

/-
This file shows that a recalculation is undone and repeated on accounts that miss their oldest history.
-/

namespace Catapult.Importances

open Reordering Runs State
open CompactArrayStack (Agrees)
open AccountActivityBuckets (Ordered)

section Accounts

/-- The accounts differ at most in the oldest values of their history. -/
structure AccountAgrees (lost : Nat) (whole other : AccountState) : Prop where
  same : other = withHistory whole other.importanceSnapshots other.activityBuckets
  snapshots : Agrees lost whole.importanceSnapshots other.importanceSnapshots
  buckets : Agrees lost whole.activityBuckets other.activityBuckets

def CacheAgrees (lost : Nat) (whole other : Cache) : Prop := ∀ address, Option.Rel (AccountAgrees lost) (whole address) (other address)

variable {lost : Nat} {whole other : AccountState} {cache others : Cache}

theorem AccountAgrees.refl (accountState : AccountState) : AccountAgrees 0 accountState accountState := ⟨rfl, .refl _, .refl _⟩

theorem AccountAgrees.mono {more : Nat} (agrees : AccountAgrees lost whole other) (le : lost ≤ more) : AccountAgrees more whole other :=
  ⟨agrees.same, agrees.snapshots.mono le, agrees.buckets.mono le⟩

theorem AccountAgrees.addressHeight (agrees : AccountAgrees lost whole other) : other.addressHeight = whole.addressHeight := by
  rw [agrees.same]
  rfl

theorem AccountAgrees.balances (agrees : AccountAgrees lost whole other) : other.balances = whole.balances := by
  rw [agrees.same]
  rfl

theorem CacheAgrees.refl (cache : Cache) : CacheAgrees 0 cache cache := by
  intro address
  cases cache address with
  | none => exact .none
  | some accountState => exact .some (.refl accountState)

theorem CacheAgrees.mono {more : Nat} (agrees : CacheAgrees lost cache others) (le : lost ≤ more) : CacheAgrees more cache others := by
  intro address
  have related := agrees address
  generalize cache address = account at related ⊢
  generalize others address = other at related ⊢
  cases related with
  | none => exact .none
  | some accounts => exact .some (accounts.mono le)

/-- An account that is found is found in both caches. -/
theorem CacheAgrees.found (agrees : CacheAgrees lost cache others) {address : Address} (found : cache address = some whole) :
    ∃ other, others address = some other ∧ AccountAgrees lost whole other :=
  rel_some_left.mp (found ▸ agrees address)

theorem CacheAgrees.found_other (agrees : CacheAgrees lost cache others) {address : Address} (found : others address = some other) :
    ∃ whole, cache address = some whole ∧ AccountAgrees lost whole other :=
  rel_some_right.mp (found ▸ agrees address)

theorem CacheAgrees.update (agrees : CacheAgrees lost cache others) (address : Address) (accounts : AccountAgrees lost whole other) :
    CacheAgrees lost (Function.update cache address (some whole)) (Function.update others address (some other)) := by
  intro each
  by_cases same : each = address
  · rw [same, Function.update_self, Function.update_self]
    exact .some accounts
  · rw [Function.update_of_ne same, Function.update_of_ne same]
    exact agrees each

end Accounts

/-- The height is the first one of a group. -/
def FirstOfGroup (grouping height : UInt64) : Prop := height = 1 ∨ height ≠ 0 ∧ height % grouping = 0

variable {grouping height earlier : UInt64}

theorem checkHeight_eq_ok {message : String} : checkHeight grouping height message = .ok () ↔ FirstOfGroup grouping height := by
  unfold checkHeight FirstOfGroup
  split
  · next first => exact ⟨fun _ => first, fun _ => rfl⟩
  · next other =>
    constructor
    · intro failed
      cases failed
    · intro first
      exact absurd first other

theorem FirstOfGroup.pos (first : FirstOfGroup grouping height) : height ≠ 0 := by
  rcases first with rfl | ⟨positive, -⟩
  · decide
  · exact positive

/-- Different groups have different numbers. -/
theorem FirstOfGroup.div_lt (first : FirstOfGroup grouping earlier) (second : FirstOfGroup grouping height) (less : earlier < height) :
    earlier.toNat / grouping.toNat < height.toNat / grouping.toNat := by
  have lessNat := UInt64.lt_iff_toNat_lt.mp less
  have positive : earlier.toNat ≠ 0 := fun zero => first.pos (UInt64.toNat_inj.mp zero)
  rcases second with rfl | ⟨-, multiple⟩
  · change earlier.toNat < 1 at lessNat
    omega
  · have divides : height.toNat % grouping.toNat = 0 := by
      rw [← UInt64.toNat_mod, multiple]
      rfl
    apply Nat.div_lt_of_lt_mul
    rw [Nat.mul_div_cancel' (Nat.dvd_of_mod_eq_zero divides)]
    exact lessNat

/-- At most four groups are searched for activity. -/
theorem previous_le_div (facade : HeightGroupingFacade) (least : facade.previous 4 ≤ height) :
    facade.groupedHeight.toNat / facade.grouping.toNat - 4 ≤ height.toNat / facade.grouping.toNat := by
  have adjustment : (facade.grouping * 4).toNat ≤ facade.grouping.toNat * 4 := by
    rw [UInt64.toNat_mul]
    exact Nat.mod_le _ _
  have leastNat := UInt64.le_iff_toNat_le.mp least
  unfold HeightGroupingFacade.previous at leastNat
  dsimp only at leastNat
  rw [← Nat.sub_mul_div, Nat.mul_comm]
  by_cases less : facade.grouping * 4 < facade.groupedHeight
  · rw [if_pos less, UInt64.toNat_sub_of_le _ _ (UInt64.le_of_lt less)] at leastNat
    exact Nat.div_le_div_right (by omega)
  · have notLess := UInt64.le_iff_toNat_le.mp (UInt64.not_lt.mp less)
    rw [Nat.sub_eq_zero_of_le (by omega), Nat.zero_div]
    exact Nat.zero_le _

section Summaries

variable {facade : HeightGroupingFacade} {previousHeight minHeight last importanceHeight : ImportanceHeight}

theorem checkBucketHeight_ok {height : ImportanceHeight} {value : Unit} (checked : facade.checkBucketHeight height = .ok value) :
    FirstOfGroup facade.grouping height := by
  obtain ⟨_, first, -⟩ := bind_eq_ok.mp checked
  exact checkHeight_eq_ok.mp first

theorem create_firstOfGroup {height : ImportanceHeight} {grouping : UInt64} {message : String}
    (created : HeightGroupingFacade.create height grouping message = .ok facade) : FirstOfGroup grouping height := by
  unfold HeightGroupingFacade.create at created
  dsimp only at created
  split at created
  · cases created
  · obtain ⟨_, first, -⟩ := bind_eq_ok.mp created
    exact checkHeight_eq_ok.mp first

/-- A summary reads no more buckets than there are groups to search. -/
theorem summarizeBuckets_take {lowest bound count : Nat} {buckets others : List ActivityBucket} {summary result : AccountActivitySummary}
    (least : ∀ height, minHeight ≤ height → lowest ≤ height.toNat / facade.grouping.toNat) (range : bound ≤ lowest + count)
    (below : ∀ bucket ∈ buckets, FirstOfGroup facade.grouping bucket.startHeight → bucket.startHeight.toNat / facade.grouping.toNat < bound)
    (descending : buckets.Pairwise fun newer older => newer.startHeight ≠ 0 → older.startHeight < newer.startHeight)
    (same : others.take (count + 1) = buckets.take (count + 1))
    (ran : summarizeBuckets facade previousHeight minHeight summary buckets = .ok result) :
    summarizeBuckets facade previousHeight minHeight summary others = .ok result := by
  induction buckets generalizing others summary bound count with
  | nil =>
    rw [List.take_nil, List.take_eq_nil_iff] at same
    rw [same.resolve_left (Nat.succ_ne_zero _)]
    exact ran
  | cons bucket buckets ih =>
    cases others with
    | nil => cases same
    | cons other others =>
      obtain ⟨rfl, rest⟩ := List.cons.inj same
      rw [summarizeBuckets] at ran ⊢
      by_cases old : other.startHeight < minHeight
      · rw [if_pos old] at ran ⊢
        exact ran
      · rw [if_neg old] at ran ⊢
        obtain ⟨_, checked, ranRest⟩ := bind_eq_ok.mp ran
        have first := checkBucketHeight_ok checked
        have small := below other List.mem_cons_self first
        have young := least other.startHeight (UInt64.not_lt.mp old)
        obtain ⟨fewer, rfl⟩ := Nat.exists_eq_succ_of_ne_zero (show count ≠ 0 by omega)
        obtain ⟨older, descending⟩ := List.pairwise_cons.mp descending
        refine bind_eq_ok.mpr ⟨_, checked, ih (show other.startHeight.toNat / facade.grouping.toNat ≤ lowest + fewer by omega) ?_ descending rest ranRest⟩
        exact fun later member firstLater => firstLater.div_lt first (older later member first.pos)

variable {config : BlockchainConfiguration} {lost : Nat}

/-- An iteration over ordered buckets ends with empty buckets. -/
theorem toList_ordered {buckets : AccountActivityBuckets} (ordered : Ordered last buckets) :
    (∀ bucket ∈ buckets.toList, bucket.startHeight ≤ last) ∧
      buckets.toList.Pairwise fun newer older => newer.startHeight ≠ 0 → older.startHeight < newer.startHeight := by
  have empty : ∀ bucket ∈ List.replicate (activityBucketHistorySize - buckets.values.length) (default : ActivityBucket), bucket.startHeight = 0 :=
    fun bucket member => congrArg ActivityBucket.startHeight (List.eq_of_mem_replicate member)
  constructor
  · intro bucket member
    rcases List.mem_append.mp member with member | member
    · exact ordered.notLater bucket member
    · rw [empty bucket member]
      exact UInt64.zero_le
  · refine List.pairwise_append.mpr ⟨ordered.descending, ?_, ?_⟩
    · exact List.pairwise_iff_forall_sublist.mpr fun sublist some => absurd (empty _ (sublist.subset List.mem_cons_self)) some
    · intro newer _ older member some
      rw [empty older member]
      exact UInt64.pos_iff_ne_zero.mpr some

/-- The activity of the newest five buckets is summarized. -/
theorem summarizeAccountActivity_agrees {grouping : UInt64} {whole other : AccountActivityBuckets} {summary : AccountActivitySummary}
    (ordered : Ordered last whole) (later : last < importanceHeight) (agrees : Agrees lost whole other) (few : lost ≤ rollbackBufferSize)
    (ran : summarizeAccountActivity importanceHeight grouping whole = .ok summary) :
    summarizeAccountActivity importanceHeight grouping other = .ok summary := by
  unfold summarizeAccountActivity at ran ⊢
  obtain ⟨facade, created, ran⟩ := bind_eq_ok.mp ran
  have first := create_firstOfGroup created
  cases create_ok created
  obtain ⟨notLater, descending⟩ := toList_ordered ordered
  refine bind_eq_ok.mpr ⟨⟨importanceHeight, grouping⟩, created, ?_⟩
  have newest := congrArg (List.take 5) (agrees.newest)
  rw [List.take_take, List.take_take, Nat.min_eq_left (by change 5 ≤ 7 - lost; change lost ≤ 2 at few; omega)] at newest
  refine summarizeBuckets_take (fun height least => previous_le_div ⟨importanceHeight, grouping⟩ least) (Nat.le_add_of_sub_le (Nat.le_refl _)) ?_ descending newest ran
  exact fun bucket member young => young.div_lt first (UInt64.lt_of_le_of_lt (notLater bucket member) later)

end Summaries

section Finals

variable {config : BlockchainConfiguration} {importanceHeight last : ImportanceHeight} {lost : Nat} {cache others : Cache} {address : Address}

/-- The summaries differ at most in the oldest history of their accounts. -/
structure SummaryAgrees (lost : Nat) (whole other : AccountSummary) : Prop where
  same : other = { whole with accountState := other.accountState }
  account : AccountAgrees lost whole.accountState other.accountState

variable {summary other result : AccountSummary}

theorem SummaryAgrees.harvestingBalance (config : BlockchainConfiguration) (agrees : SummaryAgrees lost summary other) :
    Importances.harvestingBalance config other.accountState = Importances.harvestingBalance config summary.accountState := by
  unfold Importances.harvestingBalance
  rw [agrees.account.balances]

theorem addToContext_agrees {context : ImportanceCalculationContext} (agrees : SummaryAgrees lost summary other) :
    addToContext config context other = addToContext config context summary := by
  unfold addToContext
  rw [agrees.harvestingBalance, agrees.same]

theorem summarizeAccount_eq_ok : summarizeAccount config importanceHeight cache address = .ok summary ↔ ∃ accountState activitySummary,
    cache address = some accountState ∧
      summarizeAccountActivity importanceHeight config.importanceGrouping accountState.activityBuckets = .ok activitySummary ∧
      ⟨address, activitySummary, accountState, 0, 0⟩ = summary := by
  unfold summarizeAccount
  cases cache address with
  | none =>
    constructor
    · intro failed
      cases failed
    · rintro ⟨_, _, impossible, -⟩
      cases impossible
  | some accountState =>
    constructor
    · intro summarized
      obtain ⟨activitySummary, ran, last⟩ := bind_eq_ok.mp summarized
      exact ⟨accountState, activitySummary, rfl, ran, Except.ok.inj last⟩
    · rintro ⟨_, activitySummary, same, ran, rfl⟩
      cases same
      exact bind_eq_ok.mpr ⟨activitySummary, ran, rfl⟩

def AllOrdered (last : ImportanceHeight) (cache : Cache) : Prop :=
  ∀ address accountState, cache address = some accountState → Ordered last accountState.activityBuckets

theorem summarizeAccount_agrees (ordered : AllOrdered last cache) (later : last < importanceHeight) (agrees : CacheAgrees lost cache others)
    (few : lost ≤ rollbackBufferSize) (ran : summarizeAccount config importanceHeight cache address = .ok summary) :
    ∃ other, summarizeAccount config importanceHeight others address = .ok other ∧ SummaryAgrees lost summary other := by
  obtain ⟨accountState, activitySummary, found, summarized, rfl⟩ := summarizeAccount_eq_ok.mp ran
  obtain ⟨otherState, foundOther, account⟩ := agrees.found found
  have summarizedOther := summarizeAccountActivity_agrees (ordered address accountState found) later account.buckets few summarized
  exact ⟨_, summarizeAccount_eq_ok.mpr ⟨otherState, activitySummary, foundOther, summarizedOther, rfl⟩, rfl, account⟩

theorem calculateImportances_agrees {context : ImportanceCalculationContext} (agrees : SummaryAgrees lost summary other)
    (ran : calculateImportances config context summary = .ok result) :
    ∃ otherResult, calculateImportances config context other = .ok otherResult ∧ SummaryAgrees lost result otherResult := by
  have balance := agrees.harvestingBalance config
  obtain ⟨same, account⟩ := agrees
  generalize other.accountState = accountState at same account balance
  subst same
  unfold calculateImportances at ran ⊢
  dsimp only at ran ⊢
  rw [balance]
  obtain ⟨stake, stakeCalculated, ran⟩ := bind_eq_ok.mp ran
  obtain ⟨fees, feesCalculated, ran⟩ := bind_eq_ok.mp ran
  obtain ⟨count, countCalculated, ran⟩ := bind_eq_ok.mp ran
  cases ran
  exact ⟨_, bind_eq_ok.mpr ⟨stake, stakeCalculated, bind_eq_ok.mpr ⟨fees, feesCalculated, bind_eq_ok.mpr ⟨count, countCalculated, rfl⟩⟩⟩, rfl, account⟩

/-- The final importances do not depend on the oldest history. -/
theorem finalImportances_agrees {highValueAddresses : List Address} {finals : List (AccountSummary × Importance)} (ordered : AllOrdered last cache)
    (later : last < importanceHeight) (agrees : CacheAgrees lost cache others) (few : lost ≤ rollbackBufferSize)
    (ran : finalImportances config importanceHeight highValueAddresses cache = .ok finals) :
    ∃ otherFinals, finalImportances config importanceHeight highValueAddresses others = .ok otherFinals ∧
      List.Forall₂ (fun final otherFinal => SummaryAgrees lost final.1 otherFinal.1 ∧ otherFinal.2 = final.2) finals otherFinals := by
  unfold finalImportances at ran ⊢
  obtain ⟨summaries, summarized, ran⟩ := bind_eq_ok.mp ran
  obtain ⟨calculated, calculatedAll, ran⟩ := bind_eq_ok.mp ran
  cases ran
  obtain ⟨otherSummaries, summarizedOther, related⟩ := mapM_simulates
    (fun address other _ (same : address = other) ran => same ▸ summarizeAccount_agrees ordered later agrees few ran) (List.forall₂_refl _) summarized
  have context : otherSummaries.foldl (addToContext config) ⟨0, 0, 0⟩ = summaries.foldl (addToContext config) ⟨0, 0, 0⟩ :=
    (List.rel_foldl (fun _ _ same _ _ agrees => same ▸ (addToContext_agrees agrees).symm) rfl related).symm
  generalize summaries.foldl (addToContext config) ⟨0, 0, 0⟩ = whole at context calculatedAll
  obtain ⟨otherCalculated, calculatedOther, relatedCalculated⟩ :=
    mapM_simulates (fun summary other result => @calculateImportances_agrees config lost summary other result whole) related calculatedAll
  have total : otherCalculated.foldl (fun total summary => total + summary.activityImportance) 0 =
      calculated.foldl (fun total summary => total + summary.activityImportance) 0 :=
    (List.rel_foldl (fun _ _ same _ _ agrees => by rw [same, agrees.same]) rfl relatedCalculated).symm
  refine ⟨_, bind_eq_ok.mpr ⟨otherSummaries, summarizedOther, bind_eq_ok.mpr ⟨otherCalculated, context ▸ calculatedOther, rfl⟩⟩, ?_⟩
  rw [total, List.forall₂_map_left_iff, List.forall₂_map_right_iff]
  refine relatedCalculated.imp fun summary other agrees => ⟨agrees, ?_⟩
  rw [agrees.same]
  rfl

end Finals

section Stores

variable {config : BlockchainConfiguration} {importanceHeight last : ImportanceHeight} {lost : Nat}

def pushHistory (snapshot : ImportanceSnapshot) (bucket : ActivityBucket) (accountState : AccountState) : AccountState :=
  withHistory accountState (accountState.importanceSnapshots.push snapshot) (accountState.activityBuckets.push bucket)

theorem AccountAgrees.pushHistory {whole other : AccountState} (agrees : AccountAgrees lost whole other) (snapshot : ImportanceSnapshot)
    (bucket : ActivityBucket) : AccountAgrees lost (Importances.pushHistory snapshot bucket whole) (Importances.pushHistory snapshot bucket other) := by
  refine ⟨?_, agrees.snapshots.push snapshot, agrees.buckets.push bucket⟩
  unfold Importances.pushHistory
  rw [agrees.same]
  rfl

theorem liftAccount_eq_ok {T : Type} {action : Except AccountError T} {result : T} : liftAccount action = .ok result ↔ action = .ok result := by
  cases action with
  | error failure =>
    constructor
    · intro failed
      cases failed
    · intro failed
      cases failed
  | ok value => exact ⟨fun same => congrArg Except.ok (Except.ok.inj same), fun same => congrArg Except.ok (Except.ok.inj same)⟩

def effectiveImportance (importanceHeight : ImportanceHeight) (previousImportance final : Importance) : Importance :=
  if importanceHeight = 1 then final else if previousImportance < final then previousImportance else final

/-- An importance is stored in a new bucket and a new snapshot. -/
theorem storedAccount_eq_ok {final : AccountSummary × Importance} {stored : AccountState}
    (below : final.1.accountState.activityBuckets.front.startHeight < importanceHeight) : storedAccount importanceHeight final = .ok stored ↔
      ¬(final.1.accountState.importanceSnapshots.front.height ≠ 0 ∧ importanceHeight ≤ final.1.accountState.importanceSnapshots.front.height) ∧
        pushHistory ⟨effectiveImportance importanceHeight final.1.activitySummary.previousImportance final.2, importanceHeight⟩
          { (default : ActivityBucket) with startHeight := importanceHeight, rawScore := final.2 } final.1.accountState = stored := by
  unfold storedAccount
  dsimp only
  rw [AccountActivityBuckets.update_push below]
  constructor
  · intro ran
    obtain ⟨buckets, updated, ran⟩ := bind_eq_ok.mp ran
    obtain ⟨snapshots, set, ran⟩ := bind_eq_ok.mp ran
    obtain ⟨notLater, rfl⟩ := AccountImportanceSnapshots.set_eq_ok.mp (liftAccount_eq_ok.mp set)
    cases liftAccount_eq_ok.mp updated
    exact ⟨notLater, Except.ok.inj ran⟩
  · rintro ⟨notLater, rfl⟩
    exact bind_eq_ok.mpr ⟨_, rfl, bind_eq_ok.mpr ⟨_, liftAccount_eq_ok.mpr (AccountImportanceSnapshots.set_eq_ok.mpr ⟨notLater, rfl⟩), rfl⟩⟩

/-- An importance is stored in the same way in accounts that agree. -/
theorem storedAccount_agrees {final other : AccountSummary × Importance} {stored : AccountState}
    (below : final.1.accountState.activityBuckets.front.startHeight < importanceHeight) (agrees : SummaryAgrees lost final.1 other.1)
    (importance : other.2 = final.2) (few : lost ≤ rollbackBufferSize) (ran : storedAccount importanceHeight final = .ok stored) :
    ∃ otherStored, storedAccount importanceHeight other = .ok otherStored ∧ AccountAgrees lost stored otherStored := by
  have activity : other.1.activitySummary = final.1.activitySummary := by rw [agrees.same]
  have snapshot := agrees.account.snapshots.front (Nat.lt_of_le_of_lt few (by decide))
  have bucket := agrees.account.buckets.front (Nat.lt_of_le_of_lt few (by decide))
  obtain ⟨notLater, rfl⟩ := (storedAccount_eq_ok below).mp ran
  refine ⟨_, (storedAccount_eq_ok (bucket ▸ below)).mpr ⟨snapshot ▸ notLater, rfl⟩, ?_⟩
  rw [activity, importance]
  exact agrees.account.pushHistory _ _

end Stores

section Recalculation

variable {config : BlockchainConfiguration} {importanceHeight last : ImportanceHeight} {lost : Nat} {cache next others : Cache}
  {highValueAddresses removedAddresses : List Address}

/-- The final importances belong to the accounts of the cache. -/
theorem finalImportances_accounts {finals : List (AccountSummary × Importance)}
    (ran : finalImportances config importanceHeight highValueAddresses cache = .ok finals) :
    (finals.map fun final => (final.1.address, some final.1.accountState)) = highValueAddresses.map fun address => (address, cache address) := by
  unfold finalImportances at ran
  obtain ⟨summaries, summarized, ran⟩ := bind_eq_ok.mp ran
  obtain ⟨calculated, calculatedAll, ran⟩ := bind_eq_ok.mp ran
  cases ran
  have kept : (calculated.map fun summary => (summary.address, some summary.accountState)) =
      summaries.map fun summary => (summary.address, some summary.accountState) := by
    refine map_of_mapM (fun summary result calculated => ?_) calculatedAll
    obtain ⟨_, _, ran⟩ := bind_eq_ok.mp calculated
    obtain ⟨_, _, ran⟩ := bind_eq_ok.mp ran
    obtain ⟨_, _, ran⟩ := bind_eq_ok.mp ran
    cases ran
    rfl
  rw [List.map_map]
  refine kept.trans (map_of_mapM (fun address summary ran => ?_) summarized)
  obtain ⟨accountState, _, found, -, rfl⟩ := summarizeAccount_eq_ok.mp ran
  rw [found]

theorem finalImportances_addresses {finals : List (AccountSummary × Importance)}
    (ran : finalImportances config importanceHeight highValueAddresses cache = .ok finals) :
    (finals.map fun final => final.1.address) = highValueAddresses := by
  have firsts := congrArg (List.map Prod.fst) (finalImportances_accounts ran)
  simpa only [List.map_map, Function.comp_def, List.map_id'] using firsts

/-- The history of a removed account is shifted. -/
def shiftHistory (importanceHeight : ImportanceHeight) (accountState : AccountState) : Except ImportanceError AccountState := do
  let activityBuckets ← if (AccountActivityBuckets.get accountState.activityBuckets importanceHeight).startHeight = importanceHeight then
      liftAccount accountState.activityBuckets.pop else pure accountState.activityBuckets
  return withHistory accountState (AccountImportanceSnapshots.pushEmpty accountState.importanceSnapshots)
    (AccountActivityBuckets.pushEmpty activityBuckets)

theorem shiftHistory_eq {accountState : AccountState} (ordered : Ordered last accountState.activityBuckets) (later : last < importanceHeight) :
    shiftHistory importanceHeight accountState = .ok (pushHistory default default accountState) := by
  unfold shiftHistory
  rw [if_neg (ordered.get_ne later)]
  rfl

theorem processRemovedAccount_simulates {state : Cache × List Address} {address : Address}
    (ran : changeAt (shiftHistory importanceHeight) state.1 address = .ok next) :
    ∃ result, processHighValueRemovedAccount importanceHeight state address = .ok result ∧ result.1 = next := by
  unfold changeAt at ran
  unfold processHighValueRemovedAccount
  cases found : state.1 address with
  | none =>
    rw [found] at ran
    cases ran
    exact ⟨state, rfl, rfl⟩
  | some accountState =>
    rw [found] at ran
    obtain ⟨shifted, shift, ran⟩ := bind_eq_ok.mp ran
    unfold shiftHistory at shift
    cases ran
    dsimp only at shift ⊢
    by_cases current : (AccountActivityBuckets.get accountState.activityBuckets importanceHeight).startHeight = importanceHeight
    · rw [if_pos current] at shift ⊢
      obtain ⟨buckets, popped, shift⟩ := bind_eq_ok.mp shift
      cases shift
      exact ⟨_, bind_eq_ok.mpr ⟨buckets, popped, rfl⟩, rfl⟩
    · rw [if_neg current] at shift ⊢
      cases shift
      exact ⟨_, rfl, rfl⟩

/-- The history of all removed accounts is shifted. -/
theorem processRemovedAccounts_eq (distinct : removedAddresses.Nodup) (later : last < importanceHeight)
    (ordered : ∀ address ∈ removedAddresses, ∀ accountState, cache address = some accountState → Ordered last accountState.activityBuckets)
    (remembered : List Address) : ∃ remaining, removedAddresses.foldlM (processHighValueRemovedAccount importanceHeight) (cache, remembered) =
      .ok (fun address => if address ∈ removedAddresses then (cache address).map (pushHistory default default) else cache address, remaining) := by
  have shifted := @foldlM_changeAt _ _ _ _ (shiftHistory importanceHeight) cache removedAddresses distinct fun address member accountState found =>
    ⟨_, shiftHistory_eq (ordered address member accountState found) later⟩
  have each : ∀ (state : Cache) (other : Cache × List Address) (address otherAddress : Address) (next : Cache), other.1 = state → address = otherAddress →
      changeAt (shiftHistory importanceHeight) state address = .ok next →
        ∃ result, processHighValueRemovedAccount importanceHeight other otherAddress = .ok result ∧ result.1 = next := by
    rintro _ other _ address next rfl rfl ran
    exact processRemovedAccount_simulates ran
  obtain ⟨⟨final, remaining⟩, ran, same⟩ := foldlM_simulates each (List.forall₂_refl _) (show (cache, remembered).1 = cache from rfl) shifted
  refine ⟨remaining, ran.trans (congrArg Except.ok (Prod.ext (same.trans (funext fun address => ?_)) rfl))⟩
  dsimp only
  by_cases member : address ∈ removedAddresses
  · rw [if_pos member, if_pos member]
    cases found : cache address with
    | none => rfl
    | some accountState =>
      rw [Option.bind_some, shiftHistory_eq (ordered address member accountState found) later]
      rfl
  · rw [if_neg member, if_neg member]

theorem storeAll_ok {finals : List (AccountSummary × Importance)} (distinct : (finals.map fun final => final.1.address).Nodup)
    (ran : finals.foldlM (storeImportance importanceHeight) cache = .ok next) :
    (∀ final ∈ finals, ∃ accountState, storedAccount importanceHeight final = .ok accountState ∧ next final.1.address = some accountState) ∧
      ∀ other, other ∉ finals.map (fun final => final.1.address) → next other = cache other :=
  foldlM_assign storeImportance_eq_ok distinct ran

/-- The importances of the high value accounts are stored before the history of the removed accounts is shifted. -/
theorem recalculate_ok {forgotten : List Address} (ordered : AllOrdered last cache) (later : last < importanceHeight)
    (distinct : (highValueAddresses ++ removedAddresses).Nodup)
    (ran : recalculate config importanceHeight highValueAddresses removedAddresses cache = .ok (next, forgotten)) : ∃ finals stored,
      finalImportances config importanceHeight highValueAddresses cache = .ok finals ∧ finals.foldlM (storeImportance importanceHeight) cache = .ok stored ∧
        (∀ address ∈ removedAddresses, stored address = cache address) ∧
        next = fun address => if address ∈ removedAddresses then (stored address).map (pushHistory default default) else stored address := by
  obtain ⟨finals, calculated, ran⟩ := bind_eq_ok.mp ran
  obtain ⟨stored, storedAll, ran⟩ := bind_eq_ok.mp ran
  have addresses := finalImportances_addresses calculated
  have apart := List.disjoint_of_nodup_append distinct
  have kept : ∀ address ∈ removedAddresses, stored address = cache address := fun address member =>
    (storeAll_ok (addresses.symm ▸ distinct.of_append_left) storedAll).2 address fun inside => apart (addresses ▸ inside) member
  obtain ⟨remaining, removed⟩ := processRemovedAccounts_eq distinct.of_append_right later
    (fun address member accountState found => ordered address accountState (kept address member ▸ found)) []
  exact ⟨finals, stored, calculated, storedAll, kept, congrArg Prod.fst (Except.ok.inj (ran.symm.trans removed))⟩

/-- A recalculation has pushed one snapshot and one bucket. -/
def Pushed (importanceHeight : ImportanceHeight) (before after : AccountState) : Prop :=
  ∃ snapshot bucket, (bucket.startHeight = 0 ∨ bucket.startHeight = importanceHeight) ∧ pushHistory snapshot bucket before = after

/-- The history of every high value account and of every removed account has one more value. -/
def AllPushed (importanceHeight : ImportanceHeight) (addresses : List Address) (before after : Cache) : Prop :=
  ∀ address, if address ∈ addresses then Option.Rel (Pushed importanceHeight) (before address) (after address) else after address = before address

theorem recalculate_pushes {forgotten : List Address} (ordered : AllOrdered last cache) (later : last < importanceHeight)
    (distinct : (highValueAddresses ++ removedAddresses).Nodup)
    (ran : recalculate config importanceHeight highValueAddresses removedAddresses cache = .ok (next, forgotten)) :
    AllPushed importanceHeight (highValueAddresses ++ removedAddresses) cache next := by
  obtain ⟨finals, stored, calculated, storedAll, kept, rfl⟩ := recalculate_ok ordered later distinct ran
  have accounts := finalImportances_accounts calculated
  have addresses := finalImportances_addresses calculated
  obtain ⟨members, unchanged⟩ := storeAll_ok (addresses.symm ▸ distinct.of_append_left) storedAll
  intro address
  dsimp only
  by_cases removed : address ∈ removedAddresses
  · rw [if_pos (List.mem_append_right _ removed), if_pos removed, kept address removed]
    cases cache address with
    | none => exact .none
    | some accountState => exact .some ⟨default, default, .inl rfl, rfl⟩
  · rw [if_neg removed]
    by_cases high : address ∈ highValueAddresses
    · rw [if_pos (List.mem_append_left _ high)]
      have member : (address, cache address) ∈ finals.map fun final => (final.1.address, some final.1.accountState) :=
        accounts ▸ List.mem_map_of_mem high
      obtain ⟨final, inside, same⟩ := List.mem_map.mp member
      obtain ⟨rfl, found⟩ := Prod.mk.inj same
      obtain ⟨accountState, storedOne, foundStored⟩ := members final inside
      obtain ⟨-, rfl⟩ := (storedAccount_eq_ok ((ordered _ _ found.symm).front_lt later)).mp storedOne
      rw [← found, foundStored]
      exact .some ⟨_, _, .inr rfl, rfl⟩
    · rw [if_neg fun member => (List.mem_append.mp member).elim high removed]
      exact unchanged address (addresses ▸ high)

/-- A recalculation is the same for caches that agree. -/
theorem recalculate_agrees {forgotten : List Address} (ordered : AllOrdered last cache) (later : last < importanceHeight)
    (distinct : (highValueAddresses ++ removedAddresses).Nodup) (agrees : CacheAgrees lost cache others) (few : lost ≤ rollbackBufferSize)
    (ran : recalculate config importanceHeight highValueAddresses removedAddresses cache = .ok (next, forgotten)) :
    ∃ result, recalculate config importanceHeight highValueAddresses removedAddresses others = .ok result ∧ CacheAgrees lost next result.1 := by
  obtain ⟨finals, stored, calculated, storedAll, kept, rfl⟩ := recalculate_ok ordered later distinct ran
  obtain ⟨otherFinals, calculatedOther, related⟩ := finalImportances_agrees ordered later agrees few calculated
  have below : ∀ final ∈ finals, final.1.accountState.activityBuckets.front.startHeight < importanceHeight := by
    intro final inside
    have member := List.mem_map_of_mem (f := fun final : AccountSummary × Importance => (final.1.address, some final.1.accountState)) inside
    rw [finalImportances_accounts calculated] at member
    obtain ⟨address, -, same⟩ := List.mem_map.mp member
    exact (ordered _ _ (Prod.mk.inj same).2).front_lt later
  have each : ∀ (state other : Cache) (final otherFinal : AccountSummary × Importance) (next : Cache), CacheAgrees lost state other →
      (final.1.accountState.activityBuckets.front.startHeight < importanceHeight ∧ SummaryAgrees lost final.1 otherFinal.1 ∧ otherFinal.2 = final.2) →
      storeImportance importanceHeight state final = .ok next →
        ∃ otherNext, storeImportance importanceHeight other otherFinal = .ok otherNext ∧ CacheAgrees lost next otherNext := by
    rintro state other final otherFinal _ agrees ⟨below, summary, importance⟩ ran
    obtain ⟨accountState, storedOne, rfl⟩ := storeImportance_eq_ok.mp ran
    obtain ⟨otherState, storedOther, accounts⟩ := storedAccount_agrees below summary importance few storedOne
    refine ⟨_, storeImportance_eq_ok.mpr ⟨otherState, storedOther, rfl⟩, ?_⟩
    rw [show otherFinal.1.address = final.1.address by rw [summary.same]]
    exact agrees.update _ accounts
  obtain ⟨otherStored, storedOther, agreesStored⟩ := foldlM_simulates each ((List.forall₂_and_left _ _).mpr ⟨below, related⟩) agrees storedAll
  obtain ⟨remaining, removed⟩ := @processRemovedAccounts_eq importanceHeight last otherStored removedAddresses distinct.of_append_right later
    (fun address member otherState found => by
      obtain ⟨accountState, foundStored, accounts⟩ := agreesStored.found_other found
      exact (ordered address accountState (kept address member ▸ foundStored)).agrees accounts.buckets) []
  refine ⟨_, bind_eq_ok.mpr ⟨otherFinals, calculatedOther, bind_eq_ok.mpr ⟨otherStored, storedOther, removed⟩⟩, fun address => ?_⟩
  have accounts := agreesStored address
  dsimp only
  by_cases member : address ∈ removedAddresses
  · rw [if_pos member, if_pos member]
    generalize stored address = account at accounts ⊢
    generalize otherStored address = other at accounts ⊢
    cases accounts with
    | none => exact .none
    | some agreesAccounts => exact .some (agreesAccounts.pushHistory default default)
  · rw [if_neg member, if_neg member]
    exact accounts

/-- Every account of the recalculated cache comes from an account of the cache before. -/
theorem AllPushed.origin {addresses : List Address} (pushed : AllPushed importanceHeight addresses cache next) {address : Address}
    {after : AccountState} (found : next address = some after) :
    ∃ before, cache address = some before ∧ (Pushed importanceHeight before after ∨ after = before) := by
  have related := pushed address
  by_cases member : address ∈ addresses
  · rw [if_pos member, found] at related
    obtain ⟨before, foundBefore, push⟩ := rel_some_right.mp related
    exact ⟨before, foundBefore, .inl push⟩
  · rw [if_neg member, found] at related
    exact ⟨after, related.symm, .inr rfl⟩

theorem AllPushed.ordered {addresses : List Address} (pushed : AllPushed importanceHeight addresses cache next) (later : last < importanceHeight)
    (ordered : AllOrdered last cache) : AllOrdered importanceHeight next := by
  intro address after found
  obtain ⟨before, foundBefore, ⟨snapshot, bucket, own, rfl⟩ | rfl⟩ := pushed.origin found
  · exact (ordered address before foundBefore).push later own
  · exact (ordered address after foundBefore).mono (UInt64.le_of_lt later)

end Recalculation

variable {importanceHeight : ImportanceHeight} {lost : Nat} {cache next others : Cache} {highValueAddresses removedAddresses : List Address}

/-- The newest snapshot and the newest bucket are popped. -/
def popHistory (accountState : AccountState) : Except ImportanceError AccountState := do
  let importanceSnapshots ← liftAccount accountState.importanceSnapshots.pop
  let activityBuckets ← liftAccount accountState.activityBuckets.pop
  return withHistory accountState importanceSnapshots activityBuckets

theorem popAccount_eq : popAccount = changeAt popHistory := by
  funext cache address
  unfold popAccount changeAt popHistory
  cases cache address with
  | none => rfl
  | some accountState =>
    dsimp only
    simp only [bind_assoc, pure_bind]
    rfl

/-- A pushed history is popped. -/
theorem popHistory_agrees {before after other : AccountState} (pushed : Pushed importanceHeight before after) (agrees : AccountAgrees lost after other)
    (few : lost < importanceHistorySize) : ∃ popped, popHistory other = .ok popped ∧ AccountAgrees (lost + 1) before popped := by
  obtain ⟨snapshot, bucket, -, rfl⟩ := pushed
  obtain ⟨snapshots, poppedSnapshots, agreesSnapshots⟩ := agrees.snapshots.pop few
  obtain ⟨buckets, poppedBuckets, agreesBuckets⟩ := agrees.buckets.pop (Nat.lt_trans few (by decide))
  refine ⟨withHistory before snapshots buckets, ?_, rfl, agreesSnapshots, agreesBuckets⟩
  refine bind_eq_ok.mpr ⟨snapshots, liftAccount_eq_ok.mpr poppedSnapshots, bind_eq_ok.mpr ⟨buckets, liftAccount_eq_ok.mpr poppedBuckets, ?_⟩⟩
  rw [agrees.same]
  rfl

/-- The history of all accounts is restored but for one more lost value. -/
theorem restore_agrees (pushed : AllPushed importanceHeight (highValueAddresses ++ removedAddresses) cache next)
    (distinct : (highValueAddresses ++ removedAddresses).Nodup) (agrees : CacheAgrees lost next others) (few : lost < importanceHistorySize) :
    ∃ restored, restore highValueAddresses removedAddresses others = .ok restored ∧ CacheAgrees (lost + 1) cache restored := by
  have popped : ∀ address ∈ highValueAddresses ++ removedAddresses, ∀ other, others address = some other → ∃ before popped,
      cache address = some before ∧ popHistory other = .ok popped ∧ AccountAgrees (lost + 1) before popped := by
    intro address member other found
    have related := pushed address
    obtain ⟨after, foundAfter, accounts⟩ := agrees.found_other found
    rw [if_pos member, foundAfter] at related
    obtain ⟨before, foundBefore, push⟩ := rel_some_right.mp related
    obtain ⟨popped, ran, agreesPopped⟩ := popHistory_agrees push accounts few
    exact ⟨before, popped, foundBefore, ran, agreesPopped⟩
  have succeeds : ∀ address ∈ highValueAddresses ++ removedAddresses, ∀ other, others address = some other → ∃ popped, popHistory other = .ok popped := by
    intro address member other found
    obtain ⟨before, popped, -, ran, -⟩ := popped address member other found
    exact ⟨popped, ran⟩
  have ran := foldlM_changeAt distinct succeeds
  have same : restore highValueAddresses removedAddresses others = (highValueAddresses ++ removedAddresses).foldlM (changeAt popHistory) others := by
    unfold restore
    rw [popAccount_eq, List.foldlM_append]
  refine ⟨_, same.trans ran, fun address => ?_⟩
  have related := pushed address
  have accounts := agrees.mono (Nat.le_succ lost) address
  by_cases member : address ∈ highValueAddresses ++ removedAddresses
  · rw [if_pos member] at related ⊢
    cases found : others address with
    | none =>
      rw [found, rel_none_right] at accounts
      rw [accounts, rel_none_right] at related
      rw [related]
      exact .none
    | some other =>
      obtain ⟨before, popped, foundBefore, ran, agreesPopped⟩ := popped address member other found
      rw [foundBefore, Option.bind_some, ran]
      exact .some agreesPopped
  · rw [if_neg member] at related ⊢
    rw [related] at accounts
    exact accounts

end Catapult.Importances
