import Catapult.Construction.Harvesting.TransactionSelection

/-
This file shows when the selection prefers older transactions and that the selected transactions can pay the multiplier of their block.
-/

namespace Catapult.Harvesting

open Unconfirmed Sorting

variable {S T : Type}

/-- The filter remembers the transactions that it is asked about. -/
def logged (filter : SelectionFilter S T) : SelectionFilter (S × List (TransactionInfo T)) T := fun state info => do
  let filtered ← filter state.1 info
  return ((filtered.1, state.2 ++ [info]), filtered.2)

/-- The candidates are considered in the order of the comparer, and the older one of two equal candidates first. -/
def PrefersOlder {comparer : TransactionInfo T → TransactionInfo T → Bool} (sort : Sorter comparer) (view : MemoryUtCacheView T) : Prop :=
  ∀ (S : Type) (filter : SelectionFilter S T) state transactionLimit countRetriever outcome,
    getFirstSortedTransactionInfoPointers sort view transactionLimit countRetriever (logged filter) (state, []) = .ok outcome →
      (outcome.1.2.Pairwise fun first second => comparer second first = false) ∧ KeepsTies comparer view.transactions outcome.1.2

theorem MemoryUtCacheView.nodup (view : MemoryUtCacheView T) : view.transactions.Nodup := view.distinct.of_map

/-- The comparers of the strategies are strict weak orders. -/
theorem maxFeeMultiplierComparer_order (direction : SortDirection) :
    StrictWeakOrder (maxFeeMultiplierComparer (T := T) direction) := by
  cases direction with
  | ascending =>
    constructor
    · intro first second
      simp only [maxFeeMultiplierComparer, decide_eq_true_eq, decide_eq_false_iff_not]
      exact UInt32.lt_asymm
    · intro first middle last
      simp only [maxFeeMultiplierComparer, decide_eq_true_eq, UInt32.lt_iff_toNat_lt]
      omega
  | descending =>
    constructor
    · intro first second
      simp only [maxFeeMultiplierComparer, decide_eq_true_eq, decide_eq_false_iff_not]
      exact UInt32.lt_asymm
    · intro first middle last
      simp only [maxFeeMultiplierComparer, decide_eq_true_eq, UInt32.lt_iff_toNat_lt]
      omega

variable {transactionLimit : UInt32} {countRetriever : EmbeddedCountRetriever T}

/-- The transactions that are considered are the first ones. -/
theorem selectFrom_logged {filter : SelectionFilter S T} {state : S} {log infos : List (TransactionInfo T)} {total : UInt32}
    {outcome : (S × List (TransactionInfo T)) × List (TransactionInfo T)}
    (selected : selectFrom transactionLimit countRetriever (logged filter) (state, log) total infos = .ok outcome) :
    ∃ considered, considered <+: infos ∧ outcome.1.2 = log ++ considered := by
  induction infos generalizing state log total outcome with
  | nil =>
    cases selected
    exact ⟨[], List.prefix_refl _, (List.append_nil _).symm⟩
  | cons info infos ih =>
    rw [selectFrom] at selected
    split at selected
    · cases selected
      exact ⟨[], List.nil_prefix, (List.append_nil _).symm⟩
    · rw [logged] at selected
      cases ran : filter state info with
      | error error =>
        rw [ran] at selected
        cases selected
      | ok filtered =>
        rw [ran] at selected
        change (if filtered.2 = true then _ else _) = _ at selected
        split at selected
        · cases later : selectFrom transactionLimit countRetriever (logged filter) (filtered.1, log ++ [info])
            (total + countRetriever info) infos with
          | error error =>
            change (selectFrom _ _ _ _ _ _ >>= _) = _ at selected
            rw [later] at selected
            cases selected
          | ok rest =>
            change (selectFrom _ _ _ _ _ _ >>= _) = _ at selected
            rw [later] at selected
            cases selected
            obtain ⟨considered, first, same⟩ := ih later
            refine ⟨info :: considered, (List.prefix_cons_inj info).mpr first, ?_⟩
            rw [same, List.append_assoc, List.singleton_append]
        · obtain ⟨considered, first, same⟩ := ih selected
          refine ⟨info :: considered, (List.prefix_cons_inj info).mpr first, ?_⟩
          rw [same, List.append_assoc, List.singleton_append]

/-- Nothing is left out if every transaction counts zero. -/
theorem selectFrom_everything (log infos : List (TransactionInfo T)) :
    selectFrom 0 (fun _ => 0) (logged fun _ _ => .ok ((), true)) ((), log) 0 infos = .ok (((), log ++ infos), infos) := by
  induction infos generalizing log with
  | nil => rw [selectFrom, List.append_nil]
  | cons info infos ih =>
    rw [selectFrom, if_neg (by decide), logged]
    change (selectFrom 0 (fun _ => 0) (logged fun _ _ => .ok ((), true)) ((), log ++ [info]) 0 infos >>= _) = _
    rw [ih, List.append_assoc, List.singleton_append]
    rfl

/-- The sorted selection prefers older transactions exactly if no two transactions compare equal. -/
theorem prefersOlder_iff {comparer : TransactionInfo T → TransactionInfo T → Bool} (order : StrictWeakOrder comparer)
    (view : MemoryUtCacheView T) : (∀ sort : Sorter comparer, PrefersOlder sort view) ↔
      ∀ first ∈ view.transactions, ∀ second ∈ view.transactions, first ≠ second → ¬Ties comparer first second := by
  constructor
  · intro prefers
    rw [← keepsTies_iff order view.nodup]
    intro sort
    exact (prefers sort Unit _ () 0 _ _ (selectFrom_everything [] (sort.run view.transactions))).2
  · intro untied sort S filter state transactionLimit countRetriever outcome selected
    obtain ⟨considered, first, same⟩ := selectFrom_logged selected
    rw [List.nil_append] at same
    constructor
    · rw [same]
      exact (sort.sorts view.transactions).ordered.sublist first.sublist
    · exact keepsTies_of_untied view.nodup untied outcome.1.2

namespace Samples

/-- All of these transactions have the same multiplier. -/
def equalTransaction (index : Nat) : TransactionInfo Unit := ⟨(), 100, 1000, Vector.ofFn fun byte => UInt8.ofNat (byte.val + index)⟩

/-- The seventeen transactions are more than the sort treats by insertion. -/
def seventeen : MemoryUtCacheView Unit where
  transactions := (List.range 17).map equalTransaction
  distinct := by decide
  sized := by decide

/-- The order in which an introsort leaves seventeen elements that compare equal. -/
def introsorted : List Nat := [8, 16, 15, 14, 13, 12, 11, 10, 9, 0, 7, 6, 5, 4, 3, 2, 1]

theorem equalTransaction_ties (first second : Nat) :
    Ties (maxFeeMultiplierComparer .descending) (equalTransaction first) (equalTransaction second) := by
  have same (index : Nat) : calculateTransactionMaxFeeMultiplier (equalTransaction index) =
      calculateTransactionMaxFeeMultiplier (equalTransaction 0) := by
    rw [calculateTransactionMaxFeeMultiplier, calculateTransactionMaxFeeMultiplier, equalTransaction, equalTransaction]
  simp only [Ties, maxFeeMultiplierComparer, same first, same second, UInt32.lt_irrefl, decide_false, and_self]

theorem introsorted_sorts : Sorts (maxFeeMultiplierComparer .descending) seventeen.transactions (introsorted.map equalTransaction) where
  perm := List.Perm.map equalTransaction (by decide)
  ordered := by
    rw [List.pairwise_map]
    apply List.pairwise_of_forall
    intro first second
    exact (equalTransaction_ties first second).2

/-- The ninth transaction is considered before the first one, although both have the same multiplier. -/
theorem seventeen_reordered : ∃ sort : Sorter (maxFeeMultiplierComparer (T := Unit) .descending), ¬PrefersOlder sort seventeen := by
  classical
  let sort : Sorter (maxFeeMultiplierComparer (T := Unit) .descending) := ⟨fun list =>
    if list = seventeen.transactions then introsorted.map equalTransaction
    else list.mergeSort fun first second => !maxFeeMultiplierComparer .descending second first, by
    intro list
    split
    · next same => exact same ▸ introsorted_sorts
    · exact (maxFeeMultiplierComparer_order .descending).mergeSort_sorts list⟩
  refine ⟨sort, ?_⟩
  intro prefers
  have kept := (prefers Unit _ () 0 _ _ (selectFrom_everything [] (sort.run seventeen.transactions))).2
  rw [show sort.run seventeen.transactions = introsorted.map equalTransaction from if_pos rfl] at kept
  have arrival : List.Sublist [equalTransaction 0, equalTransaction 8] seventeen.transactions :=
    List.Sublist.map equalTransaction (by decide : List.Sublist [0, 8] (List.range 17))
  have backward : List.Sublist [equalTransaction 8, equalTransaction 0] (introsorted.map equalTransaction) :=
    List.Sublist.map equalTransaction (by decide : List.Sublist [8, 0] introsorted)
  have reached : equalTransaction 8 ∈ introsorted.map equalTransaction := backward.subset List.mem_cons_self
  exact not_pair_of_nodup (introsorted_sorts.perm.nodup_iff.mpr seventeen.nodup)
    (kept _ _ arrival (equalTransaction_ties 0 8) reached) backward

/-- Two transactions with different multipliers are never exchanged. -/
def descendingPair : MemoryUtCacheView Unit where
  transactions := [equalTransaction 0, ⟨(), 100, 500, equalTransaction 1 |>.entityHash⟩]
  distinct := by decide
  sized := by decide

/-- The pair keeps its order under every sorter exactly if it has no ties. -/
theorem descendingPair_prefersOlder : (∀ sort : Sorter (maxFeeMultiplierComparer (T := Unit) .descending), PrefersOlder sort descendingPair) ↔
    ∀ first ∈ descendingPair.transactions, ∀ second ∈ descendingPair.transactions, first ≠ second →
      ¬Ties (maxFeeMultiplierComparer .descending) first second :=
  prefersOlder_iff (maxFeeMultiplierComparer_order .descending) descendingPair

end Samples

/-- The transactions are applied one after the other up to the first one that exceeds the limit, and those that succeed are
kept. -/
inductive Applications (transactionLimit : UInt32) (countRetriever : EmbeddedCountRetriever T) (execution : Execution S T) :
    UInt32 → S → List (TransactionInfo T) → List (TransactionInfo T) → S → Prop where
  | nil (total : UInt32) (state : S) : Applications transactionLimit countRetriever execution total state [] [] state
  | full {total : UInt32} {info : TransactionInfo T} (exceeds : transactionLimit < total + countRetriever info) (state : S)
      (infos : List (TransactionInfo T)) :
      Applications transactionLimit countRetriever execution total state (info :: infos) [] state
  | accept {total : UInt32} {state next final : S} {info : TransactionInfo T} {infos candidates : List (TransactionInfo T)}
      (fits : ¬transactionLimit < total + countRetriever info) (applied : execution.apply state info = (next, true))
      (rest : Applications transactionLimit countRetriever execution (total + countRetriever info) next infos candidates final) :
      Applications transactionLimit countRetriever execution total state (info :: infos) (info :: candidates) final
  | reject {total : UInt32} {state next final : S} {info : TransactionInfo T} {infos candidates : List (TransactionInfo T)}
      (fits : ¬transactionLimit < total + countRetriever info) (failed : execution.apply state info = (next, false))
      (rest : Applications transactionLimit countRetriever execution total next infos candidates final) :
      Applications transactionLimit countRetriever execution total state (info :: infos) candidates final

theorem Applications.sublist {execution : Execution S T} {total : UInt32} {state final : S}
    {infos candidates : List (TransactionInfo T)}
    (applications : Applications transactionLimit countRetriever execution total state infos candidates final) :
    List.Sublist candidates infos := by
  induction applications with
  | nil total state => exact List.Sublist.slnil
  | @full total info exceeds state infos => exact List.nil_sublist _
  | @accept total state next final info infos candidates fits applied rest ih => exact ih.cons_cons info
  | @reject total state next final info infos candidates fits failed rest ih => exact ih.cons info

def totalCount (countRetriever : EmbeddedCountRetriever T) (infos : List (TransactionInfo T)) : Nat :=
  (infos.map fun info => (countRetriever info).toNat).sum

/-- Some choice of the counts makes the sum of 32 bits wrap around to a value within the limit. -/
def Overflows (limit : Nat) : Nat → List Nat → Prop
  | _, [] => False
  | total, count :: counts => (total + count) % 2 ^ 32 ≤ limit ∧
      (2 ^ 32 ≤ total + count ∨ Overflows limit (total + count) counts ∨ Overflows limit total counts)

/-- Small counts do not overflow. -/
theorem not_overflows_of_sum {limit total : Nat} {counts : List Nat} (small : total + counts.sum < 2 ^ 32) :
    ¬Overflows limit total counts := by
  induction counts generalizing total with
  | nil => exact id
  | cons count counts ih =>
    rw [List.sum_cons] at small
    rintro ⟨_, wrapped | accepted | rejected⟩
    · omega
    · exact ih (by omega) accepted
    · exact ih (by omega) rejected

/-- Under the greatest limit all counts are taken. -/
theorem overflows_of_sum {total : Nat} {counts : List Nat} (below : total < 2 ^ 32) (great : 2 ^ 32 ≤ total + counts.sum) :
    Overflows (2 ^ 32 - 1) total counts := by
  induction counts generalizing total with
  | nil => exact absurd below (Nat.not_lt.mpr great)
  | cons count counts ih =>
    rw [List.sum_cons] at great
    refine ⟨by omega, ?_⟩
    by_cases wrapped : 2 ^ 32 ≤ total + count
    · exact .inl wrapped
    · exact .inr (.inl (ih (by omega) (by omega)))

theorem not_overflows_zero {counts : List Nat} (bounded : ∀ count ∈ counts, count < 2 ^ 32) : ¬Overflows 0 0 counts := by
  induction counts with
  | nil => exact id
  | cons count counts ih =>
    have first := bounded count List.mem_cons_self
    have rest := ih fun other member => bounded other (List.mem_cons_of_mem _ member)
    rintro ⟨within, wrapped | accepted | rejected⟩
    · omega
    · have zero : 0 + count = 0 := by omega
      rw [zero] at accepted
      exact rest accepted
    · exact rest rejected

/-- The selection keeps the limit if no sum of counts overflows. -/
theorem selectFrom_counted {filter : SelectionFilter S T} {state : S} {infos : List (TransactionInfo T)} {total : UInt32}
    {outcome : S × List (TransactionInfo T)}
    (selected : selectFrom transactionLimit countRetriever filter state total infos = .ok outcome)
    (within : total.toNat ≤ transactionLimit.toNat)
    (safe : ¬Overflows transactionLimit.toNat total.toNat (infos.map fun info => (countRetriever info).toNat)) :
    total.toNat + totalCount countRetriever outcome.2 ≤ transactionLimit.toNat := by
  induction infos generalizing state total outcome with
  | nil =>
    cases selected
    exact within
  | cons info infos ih =>
    rw [selectFrom] at selected
    split at selected
    · cases selected
      exact within
    · next fits =>
      have sum : (total + countRetriever info).toNat = (total.toNat + (countRetriever info).toNat) % 2 ^ 32 :=
        UInt32.toNat_add total (countRetriever info)
      have bounded : (total + countRetriever info).toNat ≤ transactionLimit.toNat :=
        UInt32.le_iff_toNat_le.mp (UInt32.not_lt.mp fits)
      rw [List.map_cons, Overflows, not_and, not_or, not_or] at safe
      obtain ⟨small, accepted, rejected⟩ := safe (sum ▸ bounded)
      rw [Nat.mod_eq_of_lt (Nat.not_le.mp small)] at sum
      cases ran : filter state info with
      | error error =>
        rw [ran] at selected
        cases selected
      | ok filtered =>
        rw [ran] at selected
        change (if filtered.2 = true then _ else _) = _ at selected
        split at selected
        · change (selectFrom _ _ _ _ _ _ >>= _) = _ at selected
          cases later : selectFrom transactionLimit countRetriever filter filtered.1 (total + countRetriever info) infos with
          | error error =>
            rw [later] at selected
            cases selected
          | ok rest =>
            rw [later] at selected
            cases selected
            have counted := ih later bounded (sum ▸ accepted)
            change total.toNat + totalCount countRetriever (info :: rest.2) ≤ _
            rw [totalCount, List.map_cons, List.sum_cons, ← Nat.add_assoc, ← sum]
            exact counted
        · exact ih selected within rejected

namespace HarvestingUtFacade

variable {execution : Execution S T} {facade : HarvestingUtFacade S T} {info : TransactionInfo T} {next : S}

theorem apply_accepted (applied : execution.apply facade.state info = (next, true)) :
    facade.apply execution info = (⟨next, facade.transactionInfos ++ [info]⟩, true) := by
  rw [apply, applied]
  rfl

theorem apply_rejected (failed : execution.apply facade.state info = (next, false)) :
    facade.apply execution info = (⟨next, facade.transactionInfos⟩, false) := by
  rw [apply, failed]
  rfl

/-- The loop leaves the transactions that were applied first. -/
theorem unapplyTo_eq (execution : Execution S T) {num rounds : Nat} {facade : HarvestingUtFacade S T} (enough : facade.size ≤ num + rounds) :
    ∃ final, facade.unapplyTo execution num rounds = .ok final ∧ final.transactionInfos = facade.transactionInfos.take num := by
  induction rounds generalizing facade with
  | zero => exact ⟨facade, rfl, (List.take_of_length_le enough).symm⟩
  | succ rounds ih =>
    rw [unapplyTo]
    split
    · next great =>
      have some : facade.transactionInfos ≠ [] := by
        rintro empty
        rw [size, empty] at great
        exact absurd great (Nat.not_lt_zero num)
      have length : facade.transactionInfos.dropLast.length = facade.size - 1 := List.length_dropLast
      obtain ⟨final, ran, kept⟩ := @ih ⟨execution.unapply facade.state (facade.transactionInfos.getLast some),
        facade.transactionInfos.dropLast⟩ (by rw [size, length]; omega)
      refine ⟨final, ?_, ?_⟩
      · rw [unapply, List.getLast?_eq_some_getLast some]
        exact ran
      · rw [kept, List.dropLast_eq_take, List.take_take, Nat.min_eq_left]
        rw [size] at great
        omega
    · next small => exact ⟨facade, rfl, (List.take_of_length_le (Nat.not_lt.mp small)).symm⟩

end HarvestingUtFacade

section Runs

variable {transactionLimit : UInt32} {countRetriever : EmbeddedCountRetriever T} {input : SupplyInput S T}

/-- The facade applies the first transactions and keeps those that succeed. -/
theorem selectFrom_applied (facade : HarvestingUtFacade S T) (total : UInt32) (infos : List (TransactionInfo T)) :
    ∃ candidates final, selectFrom transactionLimit countRetriever input.applyFilter facade total infos =
        .ok (⟨final, facade.transactionInfos ++ candidates⟩, candidates) ∧
      Applications transactionLimit countRetriever input.execution total facade.state infos candidates final := by
  induction infos generalizing facade total with
  | nil =>
    refine ⟨[], facade.state, ?_, .nil total _⟩
    rw [selectFrom, List.append_nil]
  | cons info infos ih =>
    rw [selectFrom]
    split
    · next exceeds =>
      refine ⟨[], facade.state, ?_, .full exceeds _ _⟩
      rw [List.append_nil]
    · next fits =>
      rw [SupplyInput.applyFilter]
      change ∃ candidates final, (if (facade.apply input.execution info).2 = true then _ else _) = _ ∧ _
      cases applied : input.execution.apply facade.state info with
      | mk next succeeded =>
        cases succeeded with
        | true =>
          rw [facade.apply_accepted applied, if_pos rfl]
          obtain ⟨candidates, final, ran, applications⟩ :=
            ih ⟨next, facade.transactionInfos ++ [info]⟩ (total + countRetriever info)
          refine ⟨info :: candidates, final, ?_, .accept fits applied applications⟩
          rw [ran, List.append_assoc, List.singleton_append]
          rfl
        | false =>
          rw [facade.apply_rejected applied, if_neg Bool.false_ne_true]
          obtain ⟨candidates, final, ran, applications⟩ := ih ⟨next, facade.transactionInfos⟩ total
          exact ⟨candidates, final, ran, .reject fits applied applications⟩

/-- The answers of the execution are given beforehand. -/
def answering : Execution (List Bool) T where
  apply answers _ := match answers with
    | [] => ([], false)
    | answer :: answers => (answers, answer)
  unapply answers _ := answers

/-- If some choice of the counts overflows, some answers of the execution lead to a count above all limits. -/
theorem exists_uncounted {input : SupplyInput (List Bool) T} (answers : input.execution = answering) (total : UInt32)
    (infos : List (TransactionInfo T)) (overflows : Overflows transactionLimit.toNat total.toNat (infos.map fun info => (countRetriever info).toNat)) :
    ∃ state, ∀ applied, ∃ facade candidates,
      selectFrom transactionLimit countRetriever input.applyFilter ⟨state, applied⟩ total infos = .ok (facade, candidates) ∧
        2 ^ 32 ≤ total.toNat + totalCount countRetriever candidates := by
  induction infos generalizing total with
  | nil => exact overflows.elim
  | cons info infos ih =>
    obtain ⟨within, choice⟩ := overflows
    have sum : (total + countRetriever info).toNat = (total.toNat + (countRetriever info).toNat) % 2 ^ 32 :=
      UInt32.toNat_add total (countRetriever info)
    have fits : ¬transactionLimit < total + countRetriever info := by
      rw [UInt32.lt_iff_toNat_lt, sum]
      exact Nat.not_lt.mpr within
    have accepted (state : List Bool) (applied : List (TransactionInfo T)) :
        selectFrom transactionLimit countRetriever input.applyFilter ⟨true :: state, applied⟩ total (info :: infos) = (do
          let rest ← selectFrom transactionLimit countRetriever input.applyFilter ⟨state, applied ++ [info]⟩ (total + countRetriever info) infos
          return (rest.1, info :: rest.2)) := by
      rw [selectFrom, if_neg fits, SupplyInput.applyFilter, answers]
      rfl
    have rejected (state : List Bool) (applied : List (TransactionInfo T)) :
        selectFrom transactionLimit countRetriever input.applyFilter ⟨false :: state, applied⟩ total (info :: infos) =
          selectFrom transactionLimit countRetriever input.applyFilter ⟨state, applied⟩ total infos := by
      rw [selectFrom, if_neg fits, SupplyInput.applyFilter, answers]
      rfl
    by_cases wrapped : 2 ^ 32 ≤ total.toNat + (countRetriever info).toNat
    · refine ⟨[true], fun applied => ?_⟩
      obtain ⟨candidates, final, ran, _⟩ := @selectFrom_applied _ _ transactionLimit countRetriever input
        ⟨[], applied ++ [info]⟩ (total + countRetriever info) infos
      refine ⟨⟨final, applied ++ [info] ++ candidates⟩, info :: candidates, ?_, ?_⟩
      · rw [accepted, ran]
        rfl
      · rw [totalCount, List.map_cons, List.sum_cons]
        omega
    · rw [Nat.mod_eq_of_lt (Nat.not_le.mp wrapped)] at sum
      obtain great | later | later := choice
      · exact absurd great wrapped
      · obtain ⟨state, reached⟩ := ih (total + countRetriever info) (sum ▸ later)
        refine ⟨true :: state, fun applied => ?_⟩
        obtain ⟨facade, candidates, ran, great⟩ := reached (applied ++ [info])
        refine ⟨facade, info :: candidates, ?_, ?_⟩
        · rw [accepted, ran]
          rfl
        · rw [totalCount, List.map_cons, List.sum_cons, ← Nat.add_assoc, ← sum]
          exact great
      · obtain ⟨state, reached⟩ := ih total later
        refine ⟨false :: state, fun applied => ?_⟩
        obtain ⟨facade, candidates, ran, great⟩ := reached applied
        exact ⟨facade, candidates, (rejected state applied).trans ran, great⟩

end Runs

section Multipliers

variable (info : TransactionInfo T)

/-- A multiplier up to the greatest one can be paid. -/
theorem multiplier_mul_size_le : (calculateTransactionMaxFeeMultiplier info).toNat * info.size.toNat ≤ info.maxFee.toNat := by
  have below : (calculateTransactionMaxFeeMultiplier info).toNat ≤ info.maxFee.toNat / info.size.toNat := by
    have raw : (info.maxFee / info.size.toUInt64).toNat = info.maxFee.toNat / info.size.toNat := by
      rw [UInt64.toNat_div, UInt32.toNat_toUInt64]
    rw [calculateTransactionMaxFeeMultiplier]
    split
    · rw [UInt64.toNat_toUInt32, raw]
      exact Nat.mod_le _ _
    · next great =>
      rw [UInt64.lt_iff_toNat_lt, raw] at great
      exact Nat.not_lt.mp great
  exact Nat.le_trans (Nat.mul_le_mul_right _ below) (Nat.div_mul_le_self _ _)

/-- The chosen multiplier is the smallest one. -/
theorem foldl_smallest_le (smallest : TransactionInfo T) (infos : List (TransactionInfo T)) :
    ∀ other ∈ smallest :: infos, calculateTransactionMaxFeeMultiplier (infos.foldl (fun smallest info =>
      if maxFeeMultiplierComparer .ascending info smallest then info else smallest) smallest) ≤
        calculateTransactionMaxFeeMultiplier other := by
  induction infos generalizing smallest with
  | nil =>
    intro other member
    rw [List.mem_singleton.mp member]
    exact UInt32.le_refl _
  | cons info infos ih =>
    rw [List.foldl_cons]
    split
    · next less =>
      have below : calculateTransactionMaxFeeMultiplier info < calculateTransactionMaxFeeMultiplier smallest := of_decide_eq_true less
      intro other member
      obtain rfl | later := List.mem_cons.mp member
      · exact UInt32.le_trans (ih info info List.mem_cons_self) (UInt32.le_of_lt below)
      · exact ih info other later
    · next less =>
      have above : ¬calculateTransactionMaxFeeMultiplier info < calculateTransactionMaxFeeMultiplier smallest :=
        of_decide_eq_false (Bool.eq_false_iff.mpr less)
      intro other member
      obtain rfl | later := List.mem_cons.mp member
      · exact ih other other List.mem_cons_self
      · obtain rfl | rest := List.mem_cons.mp later
        · exact UInt32.le_trans (ih smallest smallest List.mem_cons_self) (UInt32.not_lt.mp above)
        · exact ih smallest other (List.mem_cons_of_mem _ rest)

end Multipliers

/-- Every transaction was applied successfully, the limit is kept, and every transaction can pay the multiplier. -/
structure Payable (input : SupplyInput S T) (initial : S) (order : List (TransactionInfo T)) (facade : HarvestingUtFacade S T)
    (info : TransactionsInfo T) : Prop where
  applied : ∃ candidates final, Applications input.transactionLimit input.embeddedCountRetriever input.execution 0 initial order
    candidates final ∧ info.transactions <+: candidates
  facade : facade.transactionInfos = info.transactions
  counted : totalCount input.embeddedCountRetriever info.transactions ≤ input.transactionLimit.toNat
  payable : ∀ transaction ∈ info.transactions, info.feeMultiplier.toNat * transaction.size.toNat ≤ transaction.maxFee.toNat

theorem payable_of_le {feeMultiplier : UInt32} {info : TransactionInfo T}
    (below : feeMultiplier ≤ calculateTransactionMaxFeeMultiplier info) :
    feeMultiplier.toNat * info.size.toNat ≤ info.maxFee.toNat :=
  Nat.le_trans (Nat.mul_le_mul_right _ (UInt32.le_iff_toNat_le.mp below)) (multiplier_mul_size_le info)

def totalSize (infos : List (TransactionInfo T)) : Nat := (infos.map fun info => info.size.toNat).sum

/-- The policy for all of some applied transactions has the multiplier of the last one. -/
def policyOf (applied : List (TransactionInfo T)) : FeePolicy :=
  ⟨UInt32.ofNat applied.length, (applied.getLast?.map calculateTransactionMaxFeeMultiplier).getD 0, UInt64.ofNat (totalSize applied)⟩

/-- The fee that the first transactions pay together. -/
def prefixFee (applied : List (TransactionInfo T)) (count : Nat) : Nat :=
  (policyOf (applied.take count)).feeMultiplier.toNat * totalSize (applied.take count)

/-- No prefix pays more than the best one, and no longer prefix pays as much. -/
def IsBest (applied : List (TransactionInfo T)) (count : Nat) : Prop :=
  ∀ other, other ≤ applied.length → prefixFee applied other ≤ prefixFee applied count ∧
    (prefixFee applied other = prefixFee applied count → other ≤ count)

/-- The maximizer knows the policy of the applied transactions and that of their best prefix. -/
structure Tracks (maximizer : TransactionFeeMaximizer) (applied : List (TransactionInfo T)) (count : Nat) : Prop where
  current : maximizer.current = policyOf applied
  best : maximizer.best = policyOf (applied.take count)
  bounded : count ≤ applied.length
  maximal : totalSize applied < 2 ^ 32 → IsBest applied count

variable {applied : List (TransactionInfo T)} {info : TransactionInfo T} {maximizer : TransactionFeeMaximizer} {count : Nat}

theorem totalSize_append (applied others : List (TransactionInfo T)) :
    totalSize (applied ++ others) = totalSize applied + totalSize others := by
  rw [totalSize, List.map_append, List.sum_append]
  rfl

theorem totalSize_take_le (applied : List (TransactionInfo T)) (count : Nat) : totalSize (applied.take count) ≤ totalSize applied := by
  have parts := totalSize_append (applied.take count) (applied.drop count)
  rw [List.take_append_drop] at parts
  omega

theorem policyOf_append (applied : List (TransactionInfo T)) (info : TransactionInfo T) : policyOf (applied ++ [info]) =
    ⟨(policyOf applied).numTransactions + 1, calculateTransactionMaxFeeMultiplier info,
      (policyOf applied).baseFee + calculateTransactionFee 1 info⟩ := by
  have size : totalSize [info] = info.size.toNat := Nat.add_zero _
  have fee : calculateTransactionFee 1 info = UInt64.ofNat info.size.toNat := by
    rw [calculateTransactionFee, ← UInt64.toNat_inj, UInt64.toNat_mul, UInt32.toNat_toUInt64, UInt32.toNat_toUInt64, UInt64.toNat_ofNat']
    rw [show (1 : UInt32).toNat = 1 from rfl, Nat.one_mul]
  rw [policyOf, policyOf, List.length_append, List.getLast?_concat, totalSize_append, size, UInt32.ofNat_add, UInt64.ofNat_add, fee]
  rfl

/-- The fee does not overflow while the sizes stay below 2^32. -/
theorem toNat_calculateTotalFee (small : totalSize applied < 2 ^ 32) :
    (calculateTotalFee (policyOf applied)).toNat = (policyOf applied).feeMultiplier.toNat * totalSize applied := by
  have base : (policyOf applied).baseFee.toNat = totalSize applied := UInt64.toNat_ofNat_of_lt' (show totalSize applied < 2 ^ 64 by omega)
  have product : (policyOf applied).feeMultiplier.toNat * totalSize applied < 2 ^ 64 := by
    have less := Nat.mul_lt_mul'' (policyOf applied).feeMultiplier.toNat_lt small
    exact less
  rw [calculateTotalFee, UInt64.toNat_mul, UInt32.toNat_toUInt64, base, Nat.mod_eq_of_lt product]

theorem prefixFee_append (bounded : count ≤ applied.length) (others : List (TransactionInfo T)) :
    prefixFee (applied ++ others) count = prefixFee applied count := by
  rw [prefixFee, prefixFee, List.take_append_of_le_length bounded]

theorem Tracks.create : Tracks TransactionFeeMaximizer.create ([] : List (TransactionInfo T)) 0 where
  current := rfl
  best := rfl
  bounded := Nat.le_refl 0
  maximal _ := by
    intro other none
    rw [Nat.le_zero.mp none]
    exact ⟨Nat.le_refl _, fun _ => Nat.le_refl _⟩

/-- Every transaction with a multiplier that is not greater than the last one is accepted. -/
theorem Tracks.apply (tracks : Tracks maximizer applied count)
    (sorted : ∀ earlier ∈ applied, maxFeeMultiplierComparer .descending info earlier = false) :
    ∃ next better, maximizer.apply info = .ok next ∧ Tracks next (applied ++ [info]) better := by
  have ordered : ¬(maximizer.best.numTransactions ≠ 0 ∧ maximizer.current.feeMultiplier < calculateTransactionMaxFeeMultiplier info) := by
    rw [tracks.current, tracks.best]
    rintro ⟨some, above⟩
    cases last : applied.getLast? with
    | none =>
      rw [List.getLast?_eq_none_iff.mp last, List.take_nil] at some
      exact some rfl
    | some earlier =>
      have below := of_decide_eq_false (sorted earlier (List.mem_of_getLast? last))
      rw [policyOf, last] at above
      exact below above
  have current : policyOf (applied ++ [info]) = ⟨maximizer.current.numTransactions + 1, calculateTransactionMaxFeeMultiplier info,
      maximizer.current.baseFee + calculateTransactionFee 1 info⟩ := by
    rw [policyOf_append, tracks.current]
  have full : (applied ++ [info]).take (applied.length + 1) = applied ++ [info] := List.take_of_length_le (by rw [List.length_append]; exact Nat.le_refl _)
  have kept : (applied ++ [info]).take count = applied.take count := List.take_append_of_le_length tracks.bounded
  have smaller (small : totalSize (applied ++ [info]) < 2 ^ 32) : totalSize applied < 2 ^ 32 := by
    rw [totalSize_append] at small
    omega
  have fees (small : totalSize (applied ++ [info]) < 2 ^ 32) :
      (calculateTotalFee maximizer.best ≤ calculateTotalFee (policyOf (applied ++ [info]))) ↔
        prefixFee applied count ≤ prefixFee (applied ++ [info]) (applied.length + 1) := by
    have best := toNat_calculateTotalFee (Nat.lt_of_le_of_lt (totalSize_take_le applied count) (smaller small))
    rw [UInt64.le_iff_toNat_le, tracks.best, best, toNat_calculateTotalFee small, prefixFee, prefixFee, full]
  have step (other : Nat) (within : other ≤ (applied ++ [info]).length) : other ≤ applied.length ∨ other = applied.length + 1 := by
    rw [List.length_append, List.length_singleton] at within
    omega
  rw [TransactionFeeMaximizer.apply]
  dsimp only
  rw [if_neg ordered, ← current]
  split
  · next preferred =>
    refine ⟨_, applied.length + 1, rfl, rfl, full.symm ▸ rfl, by rw [List.length_append]; exact Nat.le_refl _, ?_⟩
    intro small other within
    obtain before | rfl := step other within
    · rw [prefixFee_append before]
      have above := (fees small).mp preferred
      have below := (tracks.maximal (smaller small) other before).1
      exact ⟨Nat.le_trans below above, fun _ => Nat.le_succ_of_le before⟩
    · exact ⟨Nat.le_refl _, fun _ => Nat.le_refl _⟩
  · next refused =>
    refine ⟨_, count, rfl, rfl, kept.symm ▸ tracks.best, ?_, ?_⟩
    · rw [List.length_append]
      exact Nat.le_add_right_of_le tracks.bounded
    · intro small other within
      rw [prefixFee_append tracks.bounded]
      obtain before | rfl := step other within
      · rw [prefixFee_append before]
        exact tracks.maximal (smaller small) other before
      · have less := Nat.not_le.mp (mt (fees small).mpr refused)
        exact ⟨Nat.le_of_lt less, fun same => absurd same (Nat.ne_of_lt less)⟩

/-- The maximizer accepts all transactions in the order of descending multipliers. -/
theorem selectFrom_maximized {input : SupplyInput S T} {transactionLimit : UInt32} {countRetriever : EmbeddedCountRetriever T}
    (facade : HarvestingUtFacade S T) (maximizer : TransactionFeeMaximizer) (count : Nat) (total : UInt32) (infos : List (TransactionInfo T))
    (tracks : Tracks maximizer facade.transactionInfos count)
    (sorted : (facade.transactionInfos ++ infos).Pairwise fun first second => maxFeeMultiplierComparer .descending second first = false) :
    ∃ candidates final last best, selectFrom transactionLimit countRetriever input.maximizerFilter (facade, maximizer) total infos =
        .ok ((⟨final, facade.transactionInfos ++ candidates⟩, last), candidates) ∧
      Applications transactionLimit countRetriever input.execution total facade.state infos candidates final ∧
      Tracks last (facade.transactionInfos ++ candidates) best := by
  induction infos generalizing facade maximizer count total with
  | nil =>
    refine ⟨[], facade.state, maximizer, count, ?_, .nil total _, ?_⟩
    · rw [selectFrom, List.append_nil]
    · rwa [List.append_nil]
  | cons info infos ih =>
    rw [selectFrom]
    split
    · next exceeds =>
      refine ⟨[], facade.state, maximizer, count, ?_, .full exceeds _ _, ?_⟩
      · rw [List.append_nil]
      · rwa [List.append_nil]
    · next fits =>
      rw [SupplyInput.maximizerFilter]
      cases applied : input.execution.apply facade.state info with
      | mk next succeeded =>
        cases succeeded with
        | true =>
          have earlier : ∀ other ∈ facade.transactionInfos, maxFeeMultiplierComparer .descending info other = false := by
            intro other member
            exact (List.pairwise_append.mp sorted).2.2 other member info List.mem_cons_self
          obtain ⟨newer, better, accepted, tracked⟩ := tracks.apply earlier
          have later : ((facade.transactionInfos ++ [info]) ++ infos).Pairwise fun first second =>
              maxFeeMultiplierComparer .descending second first = false := by
            rwa [List.append_assoc, List.singleton_append]
          obtain ⟨candidates, final, last, best, ran, applications, known⟩ :=
            ih ⟨next, facade.transactionInfos ++ [info]⟩ newer better (total + countRetriever info) tracked later
          refine ⟨info :: candidates, final, last, best, ?_, .accept fits applied applications, ?_⟩
          · rw [facade.apply_accepted applied]
            change ((maximizer.apply info >>= _) >>= _) = _
            rw [accepted]
            change (selectFrom _ _ _ _ _ _ >>= _) = _
            rw [ran, List.append_assoc, List.singleton_append]
            rfl
          · rw [List.append_assoc, List.singleton_append] at known
            exact known
        | false =>
          have later : (facade.transactionInfos ++ infos).Pairwise fun first second =>
              maxFeeMultiplierComparer .descending second first = false :=
            sorted.sublist ((List.Sublist.refl _).append (List.sublist_cons_self info infos))
          obtain ⟨candidates, final, last, best, ran, applications, known⟩ :=
            ih ⟨next, facade.transactionInfos⟩ maximizer count total tracks later
          refine ⟨candidates, final, last, best, ?_, .reject fits applied applications, known⟩
          rw [facade.apply_rejected applied]
          exact ran

/-- Some choice of the transactions has a total count that wraps around to a value within the limit. -/
def CountsOverflow (transactionLimit : UInt32) (countRetriever : EmbeddedCountRetriever T) (infos : List (TransactionInfo T)) : Prop :=
  Overflows transactionLimit.toNat 0 (infos.map fun info => (countRetriever info).toNat)

/-- The result is that of the best prefix of the transactions that were applied. -/
def Maximal (input : SupplyInput S T) (initial : S) (order : List (TransactionInfo T)) (info : TransactionsInfo T) : Prop :=
  ∃ candidates final count, Applications input.transactionLimit input.embeddedCountRetriever input.execution 0 initial order
      candidates final ∧
    info.transactions = candidates.take count ∧
    (totalSize candidates < 2 ^ 32 → count ≤ candidates.length ∧ IsBest candidates count ∧
      info.feeMultiplier.toNat * totalSize info.transactions = prefixFee candidates count ∧
      ∀ other, other ≤ candidates.length →
        (calculateTotalFee (policyOf (candidates.take other))).toNat = prefixFee candidates other)

theorem policyOf_feeMultiplier_le {applied : List (TransactionInfo T)}
    (ordered : applied.Pairwise fun first second => maxFeeMultiplierComparer .descending second first = false) :
    ∀ info ∈ applied, (policyOf applied).feeMultiplier ≤ calculateTransactionMaxFeeMultiplier info := by
  obtain rfl | ⟨earlier, last, rfl⟩ := applied.eq_nil_or_concat
  · exact nofun
  · intro info member
    rw [List.concat_eq_append] at ordered member ⊢
    rw [policyOf_append]
    obtain before | same := List.mem_append.mp member
    · have below := (List.pairwise_append.mp ordered).2.2 info before last List.mem_cons_self
      exact UInt32.not_lt.mp (of_decide_eq_false below)
    · rw [List.mem_singleton.mp same]
      exact UInt32.le_refl _

theorem totalCount_take_le (countRetriever : EmbeddedCountRetriever T) (infos : List (TransactionInfo T)) (count : Nat) :
    totalCount countRetriever (infos.take count) ≤ totalCount countRetriever infos := by
  have parts : totalCount countRetriever (infos.take count ++ infos.drop count) =
      totalCount countRetriever (infos.take count) + totalCount countRetriever (infos.drop count) := by
    rw [totalCount, List.map_append, List.sum_append]
    rfl
  rw [List.take_append_drop] at parts
  omega

theorem length_le_totalSize {infos : List (TransactionInfo T)} (sized : ∀ info ∈ infos, 0 < info.size) :
    infos.length ≤ totalSize infos := by
  induction infos with
  | nil => exact Nat.zero_le _
  | cons info infos ih =>
    have positive : 0 < info.size.toNat := UInt32.lt_iff_toNat_lt.mp (sized info List.mem_cons_self)
    have rest := ih fun other member => sized other (List.mem_cons_of_mem _ member)
    rw [totalSize] at rest ⊢
    rw [List.length_cons, List.map_cons, List.sum_cons]
    omega

variable {input : SupplyInput S T} {initial : S}

theorem supplyOldest_payable (safe : ¬CountsOverflow input.transactionLimit input.embeddedCountRetriever input.utCacheView.transactions) :
    ∃ facade info, input.supplyOldest (.create initial) = .ok (facade, info) ∧
      Payable input initial input.utCacheView.transactions facade info := by
  rw [SupplyInput.supplyOldest, getFirstTransactionInfoPointers]
  obtain ⟨candidates, final, ran, applications⟩ := @selectFrom_applied _ _ input.transactionLimit
    input.embeddedCountRetriever input (.create initial) 0 input.utCacheView.transactions
  split
  · have counted := selectFrom_counted ran (Nat.zero_le _) safe
    rw [show (0 : UInt32).toNat = 0 from rfl, Nat.zero_add] at counted
    refine ⟨_, _, by rw [ran]; rfl, ⟨candidates, final, applications, List.prefix_refl _⟩, rfl, counted, ?_⟩
    cases candidates with
    | nil => exact nofun
    | cons candidate candidates =>
      intro transaction member
      exact payable_of_le (foldl_smallest_le candidate candidates transaction member)
  · refine ⟨_, _, rfl, ⟨candidates, final, applications, List.nil_prefix⟩, rfl, Nat.zero_le _, ?_⟩
    exact nofun

theorem supplyMinimumFee_payable (sort : Sorter (maxFeeMultiplierComparer (T := T) .ascending))
    (safe : ¬CountsOverflow input.transactionLimit input.embeddedCountRetriever (sort.run input.utCacheView.transactions)) :
    ∃ facade info, input.supplyMinimumFee sort (.create initial) = .ok (facade, info) ∧
      Payable input initial (sort.run input.utCacheView.transactions) facade info := by
  obtain ⟨candidates, final, ran, applications⟩ := @selectFrom_applied _ _ input.transactionLimit
    input.embeddedCountRetriever input (.create initial) 0 (sort.run input.utCacheView.transactions)
  have counted := selectFrom_counted ran (Nat.zero_le _) safe
  rw [show (0 : UInt32).toNat = 0 from rfl, Nat.zero_add] at counted
  have ordered := (sort.sorts input.utCacheView.transactions).ordered.sublist applications.sublist
  rw [SupplyInput.supplyMinimumFee, getFirstSortedTransactionInfoPointers]
  refine ⟨_, _, by rw [ran]; rfl, ⟨candidates, final, applications, List.prefix_refl _⟩, rfl, counted, ?_⟩
  cases candidates with
  | nil => exact nofun
  | cons candidate candidates =>
    intro transaction member
    apply payable_of_le
    obtain rfl | later := List.mem_cons.mp member
    · exact UInt32.le_refl _
    · exact UInt32.not_lt.mp (of_decide_eq_false ((List.pairwise_cons.mp ordered).1 transaction later))

theorem supplyMaximumFee_payable (sort : Sorter (maxFeeMultiplierComparer (T := T) .descending))
    (safe : ¬CountsOverflow input.transactionLimit input.embeddedCountRetriever (sort.run input.utCacheView.transactions)) :
    ∃ facade info, input.supplyMaximumFee sort (.create initial) = .ok (facade, info) ∧
      Payable input initial (sort.run input.utCacheView.transactions) facade info ∧
      Maximal input initial (sort.run input.utCacheView.transactions) info := by
  obtain ⟨candidates, final, last, best, ran, applications, tracks⟩ :=
    @selectFrom_maximized _ _ input input.transactionLimit input.embeddedCountRetriever (.create initial) .create 0 0
      (sort.run input.utCacheView.transactions) .create (sort.sorts input.utCacheView.transactions).ordered
  have counted := selectFrom_counted ran (Nat.zero_le _) safe
  rw [show (0 : UInt32).toNat = 0 from rfl, Nat.zero_add] at counted
  have tracks : Tracks last candidates best := tracks
  have order := sort.sorts input.utCacheView.transactions
  have within : List.Sublist candidates (sort.run input.utCacheView.transactions) := applications.sublist
  have bestLength : (candidates.take best).length = best := by rw [List.length_take, Nat.min_eq_left tracks.bounded]
  have kept : last.best.numTransactions.toNat = best % 2 ^ 32 := by
    rw [tracks.best, policyOf, bestLength]
    exact UInt32.toNat_ofNat'
  have shorter : best % 2 ^ 32 ≤ best := Nat.mod_le _ _
  obtain ⟨truncated, unapplied, remaining⟩ := HarvestingUtFacade.unapplyTo_eq input.execution
    (Nat.le_add_left (HarvestingUtFacade.size (S := S) ⟨final, candidates⟩) (best % 2 ^ 32))
  rw [SupplyInput.supplyMaximumFee, getFirstSortedTransactionInfoPointers]
  refine ⟨truncated, toTransactionsInfo input.calculateBlockTransactionsHash (candidates.take (best % 2 ^ 32))
    (policyOf (candidates.take best)).feeMultiplier, ?_, ?_, ?_⟩
  · rw [ran]
    change (HarvestingUtFacade.unapplyTo _ last.best.numTransactions.toNat _ _ >>= _) = _
    rw [kept]
    change (HarvestingUtFacade.unapplyTo input.execution (best % 2 ^ 32) (HarvestingUtFacade.size ⟨final, candidates⟩) ⟨final, candidates⟩ >>= _) = _
    rw [unapplied, ← tracks.best, ← kept]
    rfl
  · refine ⟨⟨candidates, final, applications, List.take_prefix _ _⟩, remaining,
      Nat.le_trans (totalCount_take_le _ _ _) counted, ?_⟩
    intro transaction member
    have ordered := order.ordered.sublist (((List.take_sublist best candidates)).trans within)
    have shown : transaction ∈ candidates.take best := (List.take_prefix_take_left shorter).subset member
    exact payable_of_le (policyOf_feeMultiplier_le ordered transaction shown)
  · refine ⟨candidates, final, best % 2 ^ 32, applications, rfl, ?_⟩
    intro small
    have sized : ∀ info ∈ candidates, 0 < info.size := by
      intro info member
      exact input.utCacheView.sized info (order.perm.subset (within.subset member))
    have length := length_le_totalSize sized
    have bounded := tracks.bounded
    have same : best % 2 ^ 32 = best := Nat.mod_eq_of_lt (by omega)
    rw [same]
    refine ⟨bounded, tracks.maximal small, rfl, ?_⟩
    intro other _
    exact toNat_calculateTotalFee (Nat.lt_of_le_of_lt (totalSize_take_le candidates other) small)

section Strategies

variable (view : MemoryUtCacheView T) (countRetriever : EmbeddedCountRetriever T) (transactionLimit : UInt32)
  (blockTransactionsHash : List (TransactionInfo T) → Hash256)

/-- The oldest transactions are payable whatever the execution answers. -/
def OldestPayable : Prop :=
  ∀ (S : Type) (execution : Execution S T) initial, ∃ facade info,
    (SupplyInput.mk view countRetriever execution transactionLimit blockTransactionsHash).supplyOldest (.create initial) = .ok (facade, info) ∧
      Payable (SupplyInput.mk view countRetriever execution transactionLimit blockTransactionsHash) initial view.transactions facade info

def MinimumFeePayable (sort : Sorter (maxFeeMultiplierComparer (T := T) .ascending)) : Prop :=
  ∀ (S : Type) (execution : Execution S T) initial, ∃ facade info,
    (SupplyInput.mk view countRetriever execution transactionLimit blockTransactionsHash).supplyMinimumFee sort (.create initial) =
      .ok (facade, info) ∧
    Payable (SupplyInput.mk view countRetriever execution transactionLimit blockTransactionsHash) initial (sort.run view.transactions) facade info

def MaximumFeePayable (sort : Sorter (maxFeeMultiplierComparer (T := T) .descending)) : Prop :=
  ∀ (S : Type) (execution : Execution S T) initial, ∃ facade info,
    (SupplyInput.mk view countRetriever execution transactionLimit blockTransactionsHash).supplyMaximumFee sort (.create initial) =
      .ok (facade, info) ∧
    Payable (SupplyInput.mk view countRetriever execution transactionLimit blockTransactionsHash) initial (sort.run view.transactions) facade info ∧
    Maximal (SupplyInput.mk view countRetriever execution transactionLimit blockTransactionsHash) initial (sort.run view.transactions) info

theorem oldestPayable_iff : OldestPayable view countRetriever transactionLimit blockTransactionsHash ↔
    ¬CountsOverflow transactionLimit countRetriever view.transactions := by
  constructor
  · intro payable overflows
    obtain ⟨state, reached⟩ := @exists_uncounted _ transactionLimit countRetriever
      ⟨view, countRetriever, answering, transactionLimit, blockTransactionsHash⟩ rfl 0 view.transactions overflows
    obtain ⟨selected, candidates, ran, great⟩ := reached []
    obtain ⟨facade, info, supplied, kept⟩ := payable (List Bool) answering state
    have unlimited : transactionLimit ≠ 0 := by
      rintro rfl
      refine not_overflows_zero ?_ overflows
      intro count member
      obtain ⟨info, _, rfl⟩ := List.mem_map.mp member
      exact (countRetriever info).toNat_lt
    rw [SupplyInput.supplyOldest, getFirstTransactionInfoPointers, if_pos unlimited, HarvestingUtFacade.create, ran] at supplied
    cases supplied
    have counted := kept.counted
    have bound := transactionLimit.toNat_lt
    rw [show (0 : UInt32).toNat = 0 from rfl, Nat.zero_add] at great
    exact absurd (Nat.le_trans great counted) (Nat.not_le.mpr bound)
  · intro safe S execution initial
    exact supplyOldest_payable safe

theorem minimumFeePayable_iff (sort : Sorter (maxFeeMultiplierComparer (T := T) .ascending)) :
    MinimumFeePayable view countRetriever transactionLimit blockTransactionsHash sort ↔
      ¬CountsOverflow transactionLimit countRetriever (sort.run view.transactions) := by
  constructor
  · intro payable overflows
    obtain ⟨state, reached⟩ := @exists_uncounted _ transactionLimit countRetriever
      ⟨view, countRetriever, answering, transactionLimit, blockTransactionsHash⟩ rfl 0 (sort.run view.transactions) overflows
    obtain ⟨selected, candidates, ran, great⟩ := reached []
    obtain ⟨facade, info, supplied, kept⟩ := payable (List Bool) answering state
    rw [SupplyInput.supplyMinimumFee, getFirstSortedTransactionInfoPointers, HarvestingUtFacade.create, ran] at supplied
    cases supplied
    have counted := kept.counted
    have bound := transactionLimit.toNat_lt
    rw [show (0 : UInt32).toNat = 0 from rfl, Nat.zero_add] at great
    exact absurd (Nat.le_trans great counted) (Nat.not_le.mpr bound)
  · intro safe S execution initial
    exact supplyMinimumFee_payable sort safe

/-- The selections are payable unless the 32-bit total count can wrap around. -/
theorem selection_payable_iff : (OldestPayable view countRetriever transactionLimit blockTransactionsHash ↔
      ¬CountsOverflow transactionLimit countRetriever view.transactions) ∧
    (∀ sort, MinimumFeePayable view countRetriever transactionLimit blockTransactionsHash sort ↔
      ¬CountsOverflow transactionLimit countRetriever (sort.run view.transactions)) ∧
    (∀ sort, ¬CountsOverflow transactionLimit countRetriever (sort.run view.transactions) →
      MaximumFeePayable view countRetriever transactionLimit blockTransactionsHash sort) ∧
    (totalCount countRetriever view.transactions < 2 ^ 32 →
      OldestPayable view countRetriever transactionLimit blockTransactionsHash ∧
      (∀ sort, MinimumFeePayable view countRetriever transactionLimit blockTransactionsHash sort) ∧
      ∀ sort, MaximumFeePayable view countRetriever transactionLimit blockTransactionsHash sort) := by
  have maximum (sort : Sorter (maxFeeMultiplierComparer (T := T) .descending))
      (safe : ¬CountsOverflow transactionLimit countRetriever (sort.run view.transactions)) :
      MaximumFeePayable view countRetriever transactionLimit blockTransactionsHash sort := by
    intro S execution initial
    exact supplyMaximumFee_payable sort safe
  have sum {order : List (TransactionInfo T)} (perm : order.Perm view.transactions)
      (small : totalCount countRetriever view.transactions < 2 ^ 32) : ¬CountsOverflow transactionLimit countRetriever order := by
    apply not_overflows_of_sum
    rw [Nat.zero_add, (perm.map _).sum_nat]
    exact small
  refine ⟨oldestPayable_iff view countRetriever transactionLimit blockTransactionsHash,
    minimumFeePayable_iff view countRetriever transactionLimit blockTransactionsHash, maximum, ?_⟩
  intro small
  refine ⟨(oldestPayable_iff view countRetriever transactionLimit blockTransactionsHash).mpr (sum (List.Perm.refl _) small), ?_, ?_⟩
  · intro sort
    exact (minimumFeePayable_iff view countRetriever transactionLimit blockTransactionsHash sort).mpr
      (sum (sort.sorts view.transactions).perm small)
  · intro sort
    exact maximum sort (sum (sort.sorts view.transactions).perm small)

end Strategies

namespace Samples

/-- An aggregate of nearly the greatest size with 3232999 embedded transactions of the smallest size. -/
def greatAggregate (index : Nat) : TransactionInfo Unit :=
  ⟨(), 4293427804, 0, Vector.ofFn fun byte => UInt8.ofNat (index / 256 ^ byte.val)⟩

theorem greatAggregate_injective {first second : Nat} (one : first < 2 ^ 16) (other : second < 2 ^ 16)
    (same : (greatAggregate first).entityHash = (greatAggregate second).entityHash) : first = second := by
  have byte (index : Nat) (inside : index < 32) : UInt8.ofNat (first / 256 ^ index) = UInt8.ofNat (second / 256 ^ index) := by
    have equal := congrArg (fun hash : Hash256 => hash[index]) same
    rwa [greatAggregate, greatAggregate, Vector.getElem_ofFn, Vector.getElem_ofFn] at equal
  have low := congrArg UInt8.toNat (byte 0 (by decide))
  have high := congrArg UInt8.toNat (byte 1 (by decide))
  rw [UInt8.toNat_ofNat', UInt8.toNat_ofNat'] at low high
  omega

/-- These aggregates have more than 2^32 transactions. -/
def greatView : MemoryUtCacheView Unit where
  transactions := (List.range 1329).map greatAggregate
  distinct := by
    rw [List.map_map]
    refine List.Nodup.map_on ?_ List.nodup_range
    intro first one second other same
    have bound := List.mem_range.mp one
    have limit := List.mem_range.mp other
    exact greatAggregate_injective (by omega) (by omega) same
  sized := by
    intro info member
    obtain ⟨index, _, rfl⟩ := List.mem_map.mp member
    exact show (0 : UInt32) < 4293427804 by decide

/-- The total count of the aggregates wraps around, so that too many transactions are selected. -/
theorem greatView_unpayable : ¬OldestPayable greatView (fun _ => 3233000) 0xFFFFFFFF fun _ => zeroHash := by
  rw [oldestPayable_iff, not_not]
  have counts : greatView.transactions.map (fun _ => (3233000 : UInt32).toNat) = List.replicate 1329 3233000 := by
    rw [List.map_const', greatView, List.length_map, List.length_range]
    rfl
  have great : 2 ^ 32 ≤ 0 + (greatView.transactions.map fun _ => (3233000 : UInt32).toNat).sum := by
    rw [counts, List.sum_replicate_nat]
    decide
  have limit : (0xFFFFFFFF : UInt32).toNat = 2 ^ 32 - 1 := by decide
  rw [CountsOverflow, limit]
  generalize greatView.transactions.map (fun _ => (3233000 : UInt32).toNat) = counts at great ⊢
  exact overflows_of_sum (Nat.two_pow_pos 32) great

end Samples

end Catapult.Harvesting
