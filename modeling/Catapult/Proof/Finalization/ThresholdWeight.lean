import Catapult.Library.FirstCome
import Catapult.Proof.Finalization.QuorumSafety

/-
This file compares the weights of a finalization context with its voting keys and determines when its threshold does not wrap around.
-/

namespace Catapult.Finalization

open FinalizationContext

section Entries

variable {epoch : FinalizationEpoch} {height : Height} {config : FinalizationConfiguration}
  {entries : List (VotingKey × Nat)} {context : FinalizationContext}

/-- The voting key and the balance of an account that counts. -/
def eligibleEntry (epoch : FinalizationEpoch) (height : Height) (config : FinalizationConfiguration)
    (accountHistory : Address × AccountHistory) : Option (VotingKey × Nat) :=
  let balance := accountHistory.2.balance.get height
  let effectiveVotingPublicKey := findVotingPublicKeyForEpoch (accountHistory.2.votingPublicKeys.get height) epoch
  let isIneligible := config.treasuryReissuanceEpoch ≤ epoch &&
    config.treasuryReissuanceEpochIneligibleVoterAddresses.contains accountHistory.1
  if balance = 0 ∨ effectiveVotingPublicKey = zeroVotingKey ∨ isIneligible then none
  else some (effectiveVotingPublicKey, balance.toNat)

def eligibleEntries (epoch : FinalizationEpoch) (height : Height) (config : FinalizationConfiguration)
    (accountHistories : List (Address × AccountHistory)) : List (VotingKey × Nat) :=
  accountHistories.filterMap (eligibleEntry epoch height config)

theorem eligibleEntry_balance {accountHistory : Address × AccountHistory} {entry : VotingKey × Nat}
    (eligible : eligibleEntry epoch height config accountHistory = some entry) :
    0 < entry.2 ∧ entry.2 = (accountHistory.2.balance.get height).toNat := by
  unfold eligibleEntry at eligible
  dsimp only at eligible
  split at eligible
  · cases eligible
  · next counts =>
    obtain rfl := Option.some.inj eligible
    refine ⟨Nat.pos_of_ne_zero fun zero => counts (.inl ?_), rfl⟩
    exact UInt64.toNat_inj.mp zero

theorem eligibleEntries_pos {accountHistories : List (Address × AccountHistory)} :
    ∀ entry ∈ eligibleEntries epoch height config accountHistories, 0 < entry.2 := by
  intro entry member
  obtain ⟨_, _, eligible⟩ := List.mem_filterMap.mp member
  exact (eligibleEntry_balance eligible).1

theorem total_eligibleEntries_le (accountHistories : List (Address × AccountHistory)) :
    FirstCome.total (eligibleEntries epoch height config accountHistories) ≤
      (accountHistories.map fun history => (history.2.balance.get height).toNat).sum := by
  induction accountHistories with
  | nil => exact Nat.le_refl _
  | cons accountHistory accountHistories ih =>
    rw [eligibleEntries, List.filterMap_cons, List.map_cons, List.sum_cons]
    cases eligible : eligibleEntry epoch height config accountHistory with
    | none => exact le_trans ih (Nat.le_add_left _ _)
    | some entry =>
      dsimp only
      rw [FirstCome.total, List.map_cons, List.sum_cons, (eligibleEntry_balance eligible).2]
      exact Nat.add_le_add_left ih _

/-- A context that has been built from eligible entries. -/
structure BuiltFrom (epoch : FinalizationEpoch) (height : Height) (config : FinalizationConfiguration)
    (entries : List (VotingKey × Nat)) (context : FinalizationContext) : Prop where
  epoch : context.epoch = epoch
  height : context.height = height
  config : context.config = config
  weight : context.weight.toNat = FirstCome.total entries
  accounts : ∀ key, (context.accounts key).map (fun view => view.weight.toNat) = FirstCome.first entries key

theorem total_concat (entry : VotingKey × Nat) : FirstCome.total (entries ++ [entry]) = FirstCome.total entries + entry.2 := by
  simp [FirstCome.total]

/-- An account is counted as its eligible entry. -/
theorem BuiltFrom.addAccount (built : BuiltFrom epoch height config entries context) (accountHistory : Address × AccountHistory)
    (small : FirstCome.total (entries ++ (eligibleEntry epoch height config accountHistory).toList) < 2 ^ 64) :
    BuiltFrom epoch height config (entries ++ (eligibleEntry epoch height config accountHistory).toList)
      (context.addAccount accountHistory) := by
  unfold FinalizationContext.addAccount
  unfold eligibleEntry at small ⊢
  rw [built.epoch, built.height, built.config]
  generalize accountHistory.2.balance.get height = balance at small ⊢
  generalize findVotingPublicKeyForEpoch _ epoch = votingKey at small ⊢
  generalize (decide (config.treasuryReissuanceEpoch ≤ epoch) && _) = isIneligible at small ⊢
  dsimp only at small ⊢
  by_cases empty : balance = 0
  · simpa [empty] using built
  by_cases missing : votingKey = zeroVotingKey
  · simpa [empty, missing] using built
  cases isIneligible with
  | true => simpa [empty, missing] using built
  | false =>
    rw [if_neg (by simp [empty, missing]), Option.toList_some] at small
    rw [if_neg empty, if_neg missing, if_neg Bool.false_ne_true, if_neg (by simp [empty, missing]), Option.toList_some]
    rw [total_concat] at small
    refine ⟨rfl, rfl, rfl, ?_, fun key => ?_⟩
    · rw [UInt64.toNat_add, total_concat, built.weight, Nat.mod_eq_of_lt small]
    · dsimp only
      rw [FirstCome.first_concat, ← built.accounts key, FinalizationContext.emplace]
      by_cases same : key = votingKey
      · subst same
        cases found : context.accounts key with
        | some view => simp [found]
        | none => simp
      · rw [if_neg same, Option.or_none]
        cases context.accounts votingKey with
        | some _ => rfl
        | none =>
          dsimp only
          rw [Function.update_of_ne same]

theorem BuiltFrom.foldl (built : BuiltFrom epoch height config entries context)
    (accountHistories : List (Address × AccountHistory))
    (small : FirstCome.total (entries ++ eligibleEntries epoch height config accountHistories) < 2 ^ 64) :
    BuiltFrom epoch height config (entries ++ eligibleEntries epoch height config accountHistories)
      (accountHistories.foldl FinalizationContext.addAccount context) := by
  induction accountHistories generalizing entries context with
  | nil => simpa [eligibleEntries] using built
  | cons accountHistory accountHistories ih =>
    have split : eligibleEntries epoch height config (accountHistory :: accountHistories) =
        (eligibleEntry epoch height config accountHistory).toList ++ eligibleEntries epoch height config accountHistories := by
      rw [eligibleEntries, List.filterMap_cons]
      cases eligibleEntry epoch height config accountHistory <;> rfl
    rw [split, ← List.append_assoc] at small ⊢
    refine ih (built.addAccount accountHistory ?_) small
    refine lt_of_le_of_lt ?_ small
    rw [FirstCome.total, FirstCome.total, @List.map_append _ _ _ (entries ++ _), List.sum_append]
    exact Nat.le_add_right _ _

theorem builtFrom_create (epoch : FinalizationEpoch) (height : Height) (config : FinalizationConfiguration)
    (highValueAccounts : HighValueAccounts) :
    BuiltFrom epoch height config (eligibleEntries epoch height config highValueAccounts.accountHistories)
      (create epoch height config highValueAccounts) := by
  have start : BuiltFrom epoch height config [] ⟨epoch, height, config, 0, fun _ => none⟩ :=
    ⟨rfl, rfl, rfl, rfl, fun _ => rfl⟩
  refine start.foldl highValueAccounts.accountHistories ?_
  exact lt_of_le_of_lt (total_eligibleEntries_le _) (highValueAccounts.supplied height)

theorem BuiltFrom.lookup (built : BuiltFrom epoch height config entries context) (key : VotingKey) :
    (context.lookup key).weight.toNat = FirstCome.amount entries key := by
  rw [FinalizationContext.lookup, FirstCome.amount, ← built.accounts key]
  cases context.accounts key <;> rfl

end Entries

variable {epoch : FinalizationEpoch} {height : Height} {config : FinalizationConfiguration}
  {highValueAccounts : HighValueAccounts}

/-- The total weight is the sum of the weights of all voting keys, and no value depends on the order of the accounts. -/
structure ConsistentWeights (epoch : FinalizationEpoch) (height : Height) (config : FinalizationConfiguration)
    (highValueAccounts : HighValueAccounts) : Prop where
  total : ∀ voters : Finset VotingKey,
    (∀ key, key ∈ voters ↔ ((create epoch height config highValueAccounts).lookup key).weight ≠ 0) →
    (create epoch height config highValueAccounts).weight.toNat =
      ∑ key ∈ voters, ((create epoch height config highValueAccounts).lookup key).weight.toNat
  order : ∀ others : HighValueAccounts, others.accountHistories.Perm highValueAccounts.accountHistories →
    (create epoch height config others).weight = (create epoch height config highValueAccounts).weight ∧
      ∀ key, (create epoch height config others).lookup key = (create epoch height config highValueAccounts).lookup key

/-- The voting keys of the accounts that count. -/
def eligibleKeys (epoch : FinalizationEpoch) (height : Height) (config : FinalizationConfiguration)
    (highValueAccounts : HighValueAccounts) : List VotingKey :=
  FirstCome.keys (eligibleEntries epoch height config highValueAccounts.accountHistories)

/-- A voting key has a weight exactly if an account that counts has it. -/
theorem lookup_ne_zero (key : VotingKey) : ((create epoch height config highValueAccounts).lookup key).weight ≠ 0 ↔
      key ∈ eligibleKeys epoch height config highValueAccounts := by
  have built := (builtFrom_create epoch height config highValueAccounts).lookup key
  rw [ne_eq, ← UInt64.toNat_inj, built]
  change FirstCome.amount _ key ≠ 0 ↔ _
  constructor
  · intro weighted
    rw [eligibleKeys, ← FirstCome.first_isSome]
    cases found : FirstCome.first _ key with
    | none =>
      rw [FirstCome.amount, found] at weighted
      exact absurd rfl weighted
    | some _ => rfl
  · exact fun member => (FirstCome.amount_pos eligibleEntries_pos member).ne'

/-- The weights of a context are consistent exactly when no two eligible accounts share a voting key. -/
theorem consistentWeights_iff_distinct_keys (epoch : FinalizationEpoch) (height : Height) (config : FinalizationConfiguration)
    (highValueAccounts : HighValueAccounts) :
    ConsistentWeights epoch height config highValueAccounts ↔ (eligibleKeys epoch height config highValueAccounts).Nodup := by
  have built := builtFrom_create epoch height config highValueAccounts
  have summed (voters : Finset VotingKey)
      (recognized : ∀ key, key ∈ voters ↔ ((create epoch height config highValueAccounts).lookup key).weight ≠ 0) :
      ∑ key ∈ voters, ((create epoch height config highValueAccounts).lookup key).weight.toNat =
        FirstCome.counted (eligibleEntries epoch height config highValueAccounts.accountHistories) := by
    have same : voters = (eligibleKeys epoch height config highValueAccounts).toFinset :=
      Finset.ext fun key => (recognized key).trans ((lookup_ne_zero key).trans List.mem_toFinset.symm)
    rw [same, FirstCome.counted]
    exact Finset.sum_congr rfl fun key _ => built.lookup key
  constructor
  · intro consistent
    have recognized : ∀ key, key ∈ (eligibleKeys epoch height config highValueAccounts).toFinset ↔
        ((create epoch height config highValueAccounts).lookup key).weight ≠ 0 :=
      fun key => List.mem_toFinset.trans (lookup_ne_zero key).symm
    have total := consistent.total _ recognized
    rw [summed _ recognized, built.weight] at total
    exact (FirstCome.counted_eq_total_iff eligibleEntries_pos).mp total.symm
  · intro distinct
    refine ⟨fun voters recognized => ?_, fun others same => ?_⟩
    · rw [summed voters recognized, built.weight]
      exact ((FirstCome.counted_eq_total_iff eligibleEntries_pos).mpr distinct).symm
    · have builtOthers := builtFrom_create epoch height config others
      have sameEntries : (eligibleEntries epoch height config highValueAccounts.accountHistories).Perm
          (eligibleEntries epoch height config others.accountHistories) := (same.filterMap _).symm
      refine ⟨?_, fun key => ?_⟩
      · rw [← UInt64.toNat_inj, builtOthers.weight, built.weight, FirstCome.total_perm sameEntries]
      · have sameAmount := FirstCome.first_perm distinct sameEntries key
        have equal : ((create epoch height config others).lookup key).weight =
            ((create epoch height config highValueAccounts).lookup key).weight := by
          rw [← UInt64.toNat_inj, builtOthers.lookup, built.lookup, FirstCome.amount, FirstCome.amount, sameAmount]
        exact congrArg FinalizationAccountView.mk equal

namespace Samples

def sharedKey : VotingKey := Vector.replicate 32 1

/-- An account with a balance and the shared voting key. -/
def sharingAccount (index : UInt8) (balance : Amount) : Address × AccountHistory :=
  (Vector.replicate 24 index, ⟨⟨[(1, balance)]⟩, ⟨[(1, [⟨sharedKey, 1, 100⟩])]⟩⟩)

def sharingAccounts : HighValueAccounts where
  accountHistories := [sharingAccount 1 3, sharingAccount 2 5]
  distinct := by decide
  supplied height := by
    have bounded (balance : Amount) (small : balance.toNat < 8) :
        ((⟨[(1, balance)]⟩ : HeightIndexedHistoryMap Amount).get height).toNat < 8 := by
      unfold HeightIndexedHistoryMap.get
      cases found : List.find? (fun entry : Height × Amount => decide (entry.1 ≤ height)) [(1, balance)] with
      | none => exact Nat.zero_lt_succ _
      | some entry =>
        have member := List.mem_of_find?_eq_some found
        rw [List.mem_singleton.mp member]
        exact small
    have first := bounded 3 (by decide)
    have second := bounded 5 (by decide)
    simp only [sharingAccount, List.map_cons, List.map_nil, List.sum_cons, List.sum_nil]
    omega

def plainConfiguration : FinalizationConfiguration := ⟨10000, 6700, 256, 0, [], 78⟩

/-- Two accounts share a voting key: their balances count 8, and the key has the weight 3. -/
theorem shared_key_counts_twice : ¬ ConsistentWeights 3 78 plainConfiguration sharingAccounts := by
  intro consistent
  have weights : ∀ key, ((create 3 78 plainConfiguration sharingAccounts).lookup key).weight =
      if key = sharedKey then 3 else 0 := by
    intro key
    by_cases same : key = sharedKey
    · rw [if_pos same, same]
      decide
    · rw [if_neg same]
      have accounts : (create 3 78 plainConfiguration sharingAccounts).accounts =
          Function.update (fun _ => none) sharedKey (some ⟨3⟩) := by
        rfl
      rw [FinalizationContext.lookup, accounts, Function.update_of_ne same]
      rfl
  have total := consistent.total {sharedKey} fun key => by
    rw [weights key, Finset.mem_singleton]
    split
    · next same => simp [same]
    · next different => simp [different]
  rw [Finset.sum_singleton, weights, if_pos rfl] at total
  exact absurd total (by decide)

end Samples

section Arithmetic

variable {weight threshold size : UInt64}

/-- The threshold is rounded down exactly if the product fits into a word. -/
theorem weighted_threshold_exact_iff (positive : 0 < size) :
    (weight * threshold / size).toNat = weight.toNat * threshold.toNat / size.toNat ↔
      weight.toNat * threshold.toNat < 2 ^ 64 := by
  have divisor : 0 < size.toNat := UInt64.lt_iff_toNat_lt.mp positive
  rw [UInt64.toNat_div, UInt64.toNat_mul]
  generalize weight.toNat * threshold.toNat = product
  constructor
  · intro equal
    by_contra large
    -- the lost multiple of the word size is at least the divisor
    have lost : product % 2 ^ 64 + size.toNat ≤ product := by
      have := size.toNat_lt
      omega
    have smaller : product % 2 ^ 64 / size.toNat + 1 ≤ product / size.toNat := by
      rw [← Nat.add_div_right _ divisor]
      exact Nat.div_le_div_right lost
    omega
  · intro small
    rw [Nat.mod_eq_of_lt small]

end Arithmetic

/-- The voters reach the threshold of the context. -/
def Reaches (context : FinalizationContext) (voters : Finset VotingKey) : Prop :=
  (calculateWeightedThreshold context).toNat ≤ ∑ voter ∈ voters, (context.lookup voter).weight.toNat

/-- The threshold is the exact quotient, and a threshold above one half is not reached by disjoint sets of voters. -/
structure ExactThreshold (context : FinalizationContext) : Prop where
  exact : (calculateWeightedThreshold context).toNat =
    context.weight.toNat * context.config.threshold.toNat / context.config.size.toNat
  disjoint : context.config.size.toNat < 2 * context.config.threshold.toNat →
    ∀ first second : Finset VotingKey, Disjoint first second → ¬ (Reaches context first ∧ Reaches context second)

/-- The product fits into a word, and rounding down leaves more than one half of the weight. -/
def FitsThreshold (weight threshold size : UInt64) : Prop :=
  weight.toNat * threshold.toNat < 2 ^ 64 ∧
    (size.toNat < 2 * threshold.toNat → weight.toNat < 2 * (weight.toNat * threshold.toNat / size.toNat))

theorem Bounded.exactThreshold {context : FinalizationContext} (bounded : Bounded context) (positive : 0 < context.config.size)
    (fits : FitsThreshold context.weight context.config.threshold context.config.size) : ExactThreshold context := by
  have exact : (calculateWeightedThreshold context).toNat =
      context.weight.toNat * context.config.threshold.toNat / context.config.size.toNat :=
    (weighted_threshold_exact_iff positive).mpr fits.1
  refine ⟨exact, fun majority first second apart reached => ?_⟩
  have sum := bounded (first ∪ second)
  rw [Finset.sum_union apart] at sum
  have large := fits.2 majority
  have reachedFirst := reached.1
  have reachedSecond := reached.2
  unfold Reaches at reachedFirst reachedSecond
  omega

/-- A voting account with one balance and one voting key from the first block on. -/
def votingAccount (index : UInt8) (balance : Amount) : Address × AccountHistory :=
  (Vector.replicate 24 index, ⟨⟨[(1, balance)]⟩, ⟨[(1, [⟨Vector.replicate 32 index, 1, 100⟩])]⟩⟩)

theorem votingAccount_get_le (balance : Amount) (height : Height) :
    ((⟨[(1, balance)]⟩ : HeightIndexedHistoryMap Amount).get height).toNat ≤ balance.toNat := by
  unfold HeightIndexedHistoryMap.get
  cases found : List.find? (fun entry : Height × Amount => decide (entry.1 ≤ height)) [(1, balance)] with
  | none => exact Nat.zero_le _
  | some entry => rw [List.mem_singleton.mp (List.mem_of_find?_eq_some found)]

/-- Two voting accounts share the weight. -/
def halfAccounts (first second : Amount) (supplied : first.toNat + second.toNat < 2 ^ 64) : HighValueAccounts where
  accountHistories := [votingAccount 1 first, votingAccount 2 second]
  distinct := by
    change ([Vector.replicate 24 1, Vector.replicate 24 2] : List Address).Nodup
    decide
  supplied height := by
    have firstLe := votingAccount_get_le first height
    have secondLe := votingAccount_get_le second height
    simp only [votingAccount, List.map_cons, List.map_nil, List.sum_cons, List.sum_nil]
    omega

def openConfiguration (threshold size : UInt64) : FinalizationConfiguration := ⟨size, threshold, 256, 0, [], 78⟩

variable {first second threshold size : UInt64} {supplied : first.toNat + second.toNat < 2 ^ 64}

theorem eligibleEntry_votingAccount (index : UInt8) (nonzero : index ≠ 0) (balance : Amount) :
    eligibleEntry 3 78 (openConfiguration threshold size) (votingAccount index balance) =
      if balance = 0 then none else some (Vector.replicate 32 index, balance.toNat) := by
  have known : (Vector.replicate 32 index : VotingKey) ≠ zeroVotingKey := by
    intro same
    have equal := congrArg (fun key : VotingKey => key[0]) same
    simp only [zeroVotingKey, Vector.getElem_replicate] at equal
    exact nonzero equal
  have key : findVotingPublicKeyForEpoch ((votingAccount index balance).2.votingPublicKeys.get 78) 3 = Vector.replicate 32 index := rfl
  have held : (votingAccount index balance).2.balance.get 78 = balance := rfl
  unfold eligibleEntry
  dsimp only
  rw [key, held]
  by_cases empty : balance = 0
  · rw [if_pos (.inl empty), if_pos empty]
  · rw [if_neg empty, if_neg]
    simp [empty, known, openConfiguration]

/-- The weight is divided between the two voting keys. -/
theorem create_halfAccounts : BuiltFrom 3 78 (openConfiguration threshold size)
    ((if first = 0 then [] else [(Vector.replicate 32 1, first.toNat)]) ++
      if second = 0 then [] else [(Vector.replicate 32 2, second.toNat)])
    (create 3 78 (openConfiguration threshold size) (halfAccounts first second supplied)) := by
  have built := builtFrom_create 3 78 (openConfiguration threshold size) (halfAccounts first second supplied)
  have entries : eligibleEntries 3 78 (openConfiguration threshold size) (halfAccounts first second supplied).accountHistories =
      (if first = 0 then [] else [(Vector.replicate 32 1, first.toNat)]) ++
        if second = 0 then [] else [(Vector.replicate 32 2, second.toNat)] := by
    rw [eligibleEntries, halfAccounts]
    dsimp only
    rw [List.filterMap_cons, List.filterMap_cons, List.filterMap_nil, eligibleEntry_votingAccount 1 (by decide),
      eligibleEntry_votingAccount 2 (by decide)]
    by_cases firstZero : first = 0 <;> by_cases secondZero : second = 0 <;> simp [firstZero, secondZero]
  rwa [entries] at built

theorem weight_halfAccounts : (create 3 78 (openConfiguration threshold size) (halfAccounts first second supplied)).weight.toNat =
      first.toNat + second.toNat := by
  rw [create_halfAccounts.weight]
  by_cases firstZero : first = 0 <;> by_cases secondZero : second = 0 <;> simp [FirstCome.total, firstZero, secondZero]

theorem lookup_halfAccounts : ((create 3 78 (openConfiguration threshold size) (halfAccounts first second supplied)).lookup
        (Vector.replicate 32 1)).weight.toNat = first.toNat ∧
      ((create 3 78 (openConfiguration threshold size) (halfAccounts first second supplied)).lookup
        (Vector.replicate 32 2)).weight.toNat = second.toNat := by
  have different : (Vector.replicate 32 2 : VotingKey) ≠ Vector.replicate 32 1 := by decide
  rw [create_halfAccounts.lookup, create_halfAccounts.lookup]
  by_cases firstZero : first = 0 <;> by_cases secondZero : second = 0 <;>
    simp [FirstCome.amount_cons_self, FirstCome.amount_cons_of_ne, FirstCome.amount_nil, firstZero, secondZero, different,
      different.symm]

/-- All contexts with a weight have exact thresholds if and only if the weight fits. -/
theorem exactThreshold_iff_fits (weight threshold size : UInt64) (positive : 0 < threshold) (admitted : threshold ≤ size) :
    (∀ epoch height config highValueAccounts, config.threshold = threshold → config.size = size →
      (create epoch height config highValueAccounts).weight = weight →
      ExactThreshold (create epoch height config highValueAccounts)) ↔ FitsThreshold weight threshold size := by
  have positiveSize : 0 < size := by
    rw [UInt64.lt_iff_toNat_lt] at positive ⊢
    rw [UInt64.le_iff_toNat_le] at admitted
    omega
  constructor
  · intro exact
    -- the weight is divided into two halves
    have small := weight.toNat_lt
    have half : (weight / 2).toNat = weight.toNat / 2 := UInt64.toNat_div _ _
    have below : weight / 2 ≤ weight := UInt64.le_iff_toNat_le.mpr (by omega)
    have rest : (weight - weight / 2).toNat = weight.toNat - weight.toNat / 2 := by
      rw [UInt64.toNat_sub_of_le _ _ below, half]
    have supplied : (weight / 2).toNat + (weight - weight / 2).toNat < 2 ^ 64 := by omega
    have total : (create 3 78 (openConfiguration threshold size)
        (halfAccounts (weight / 2) (weight - weight / 2) supplied)).weight = weight := by
      rw [← UInt64.toNat_inj, weight_halfAccounts]
      omega
    have sound := exact 3 78 (openConfiguration threshold size) (halfAccounts (weight / 2) (weight - weight / 2) supplied) rfl rfl total
    have config : (create 3 78 (openConfiguration threshold size)
        (halfAccounts (weight / 2) (weight - weight / 2) supplied)).config = openConfiguration threshold size :=
      create_halfAccounts.config
    obtain ⟨firstWeight, secondWeight⟩ := @lookup_halfAccounts (weight / 2) (weight - weight / 2) threshold size supplied
    generalize create 3 78 (openConfiguration threshold size)
      (halfAccounts (weight / 2) (weight - weight / 2) supplied) = context at *
    have equal := sound.exact
    rw [total, config] at equal
    have fits : weight.toNat * threshold.toNat < 2 ^ 64 := by
      refine (weighted_threshold_exact_iff positiveSize).mp (Eq.trans ?_ equal)
      rw [calculateWeightedThreshold, total, config]
      rfl
    refine ⟨fits, fun majority => ?_⟩
    by_contra rounded
    have apart : Disjoint ({Vector.replicate 32 1} : Finset VotingKey) {Vector.replicate 32 2} := by decide
    refine sound.disjoint (by rw [config]; exact majority) _ _ apart ⟨?_, ?_⟩
    · rw [Reaches, Finset.sum_singleton, firstWeight, half, equal]
      change weight.toNat * threshold.toNat / size.toNat ≤ _
      omega
    · rw [Reaches, Finset.sum_singleton, secondWeight, rest, equal]
      change weight.toNat * threshold.toNat / size.toNat ≤ _
      omega
  · rintro fits epoch height config highValueAccounts rfl rfl rfl
    have built := builtFrom_create epoch height config highValueAccounts
    have bounded := bounded_create epoch height config highValueAccounts
    refine bounded.exactThreshold ?_ ?_
    · rw [built.config]
      exact positiveSize
    · rw [built.config]
      exact fits

/-- A weight of 1000 units has the threshold 670 with the default configuration. -/
theorem exactThreshold_thousand : (create 3 78 (openConfiguration 6700 10000) (halfAccounts 500 500 (by decide))).weight = 1000 ∧
      ExactThreshold (create 3 78 (openConfiguration 6700 10000) (halfAccounts 500 500 (by decide))) := by
  have weight := @weight_halfAccounts 500 500 6700 10000 (by decide)
  have total : (create 3 78 (openConfiguration 6700 10000) (halfAccounts 500 500 (by decide))).weight = 1000 := by
    rw [← UInt64.toNat_inj, weight]
    decide
  refine ⟨total, ?_⟩
  exact (exactThreshold_iff_fits 1000 6700 10000 (by decide) (by decide)).mpr ⟨by decide, by decide⟩ 3 78
    (openConfiguration 6700 10000) (halfAccounts 500 500 (by decide)) rfl rfl total

/-- With the maximum of all atomic units the product wraps around, and less than six percent reach the threshold. -/
theorem largest_weight_wraps : ¬ ExactThreshold (create 3 78 (openConfiguration 6700 10000)
      (halfAccounts 500000000000000 8500000000000000 (by decide))) := by
  intro sound
  have config := (@create_halfAccounts 500000000000000 8500000000000000 6700 10000 (by decide)).config
  have weight := @weight_halfAccounts 500000000000000 8500000000000000 6700 10000 (by decide)
  have total : (create 3 78 (openConfiguration 6700 10000)
      (halfAccounts 500000000000000 8500000000000000 (by decide))).weight = 9000000000000000 := by
    rw [← UInt64.toNat_inj, weight]
    decide
  have exact := sound.exact
  rw [calculateWeightedThreshold, config, total] at exact
  exact absurd exact (by decide)

end Catapult.Finalization
