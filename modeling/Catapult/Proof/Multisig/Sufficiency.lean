import Catapult.Proof.Multisig.Graph

/-
This file proves that the cosignatures of an aggregate are checked against the thresholds of the multisig graph.
-/

namespace Catapult.Multisig

open Depth

/-- An account without cosignatories signs for itself. -/
def NonMultisig (cache : MultisigCache) (address : Address) : Prop :=
  ∀ entry, cache address = some entry → entry.cosignatoryAddresses = ∅

/-- A multisig account is satisfied by enough of its direct cosignatories. -/
inductive Satisfied (cosignatories : Finset Address) (operationType : OperationType) (cache : MultisigCache) : Address → Prop where
  | signed {address : Address} (single : NonMultisig cache address) (signer : address ∈ cosignatories) :
      Satisfied cosignatories operationType cache address
  | approved {address : Address} {entry : MultisigEntry} (found : cache address = some entry)
      (multisig : entry.cosignatoryAddresses ≠ ∅) (approvers : Finset Address) (direct : approvers ⊆ entry.cosignatoryAddresses)
      (enough : (getMinRequiredCosignatories entry operationType).toNat ≤ approvers.card)
      (satisfied : ∀ approver ∈ approvers, Satisfied cosignatories operationType cache approver) :
      Satisfied cosignatories operationType cache address

/-- A state of the cache without cycles; the accounts keep the 32-bit limit of the number of cosignatories. -/
structure AcyclicMultisigCache where
  cache : MultisigCache
  acyclic : ∀ address, ¬Relation.TransGen (Cosigns cache) address address
  maxCosignatoriesPerAccount : UInt32
  limited : ∀ address entry, cache address = some entry → entry.cosignatoryAddresses.card ≤ maxCosignatoriesPerAccount.toNat

/-- Every reachable state of the cache is such a state. -/
def MultisigGraph.acyclicCache {config : MultisigConfiguration} {cache : MultisigCache} (graph : MultisigGraph config cache) :
    AcyclicMultisigCache where
  cache := cache
  acyclic := graph.shallow.acyclic
  maxCosignatoriesPerAccount := config.maxCosignatoriesPerAccount
  limited := graph.limited

section Policy

variable {cosignatories more : Finset Address} {operationType : OperationType} {cache : MultisigCache} {address : Address}

/-- More signatures satisfy all that fewer satisfy. -/
theorem Satisfied.mono (satisfied : Satisfied cosignatories operationType cache address) (included : cosignatories ⊆ more) :
    Satisfied more operationType cache address := by
  induction satisfied with
  | signed single signer => exact .signed single (included signer)
  | approved found multisig approvers direct enough _ ih => exact .approved found multisig approvers direct enough ih

theorem satisfied_single (single : NonMultisig cache address) :
    Satisfied cosignatories operationType cache address ↔ address ∈ cosignatories := by
  constructor
  · intro satisfied
    cases satisfied with
    | signed _ signer => exact signer
    | approved found multisig _ _ _ _ => exact absurd (single _ found) multisig
  · exact .signed single

/-- The number of satisfied cosignatories is compared with the required number. -/
theorem satisfied_multisig {entry : MultisigEntry} (found : cache address = some entry) (multisig : entry.cosignatoryAddresses ≠ ∅) :
    Satisfied cosignatories operationType cache address ↔ ∃ approvers ⊆ entry.cosignatoryAddresses,
      (getMinRequiredCosignatories entry operationType).toNat ≤ approvers.card ∧
      ∀ approver ∈ approvers, Satisfied cosignatories operationType cache approver := by
  constructor
  · intro satisfied
    cases satisfied with
    | signed single _ => exact absurd (single entry found) multisig
    | approved other _ approvers direct enough each =>
      obtain rfl := Option.some.inj (found.symm.trans other)
      exact ⟨approvers, direct, enough, each⟩
  · rintro ⟨approvers, direct, enough, each⟩
    exact .approved found multisig approvers direct enough each

end Policy

/-- The 32-bit counter counts the elements for which the answer is true. -/
theorem foldlM_count {A : Type} (answer : A → Option Bool) (value : A → Bool) (list : List A)
    (answers : ∀ element ∈ list, answer element = some (value element)) (start : UInt32) :
    list.foldlM (fun (count : UInt32) element => do
        let satisfied ← answer element
        return count + if satisfied then 1 else 0) start = some (start + UInt32.ofNat (list.countP value)) := by
  induction list generalizing start with
  | nil => exact congrArg some (UInt32.add_zero start).symm
  | cons element rest ih =>
    rw [List.foldlM_cons, answers element List.mem_cons_self]
    change rest.foldlM _ (start + if value element then 1 else 0) = _
    rw [ih (fun other member => answers other (List.mem_cons_of_mem _ member)), List.countP_cons, UInt32.add_assoc]
    congr 2
    cases value element with
    | true =>
      rw [if_pos rfl, if_pos rfl, UInt32.ofNat_add, UInt32.add_comm]
      rfl
    | false => rw [if_neg Bool.false_ne_true, if_neg Bool.false_ne_true, UInt32.zero_add, Nat.add_zero]

/-- Enough elements have the property if and only if some set of them is large enough. -/
theorem le_countP_iff (set : Finset Address) (property : Address → Prop) [DecidablePred property] (required : Nat) :
    required ≤ set.sort.countP property ↔ ∃ chosen ⊆ set, required ≤ chosen.card ∧ ∀ element ∈ chosen, property element := by
  have count : set.sort.countP property = (set.filter property).card := by
    rw [List.countP_eq_length_filter, ← List.toFinset_card_of_nodup ((Finset.sort_nodup set _).filter _), List.toFinset_filter,
      Finset.sort_toFinset]
    simp only [decide_eq_true_eq]
  rw [count]
  constructor
  · intro enough
    exact ⟨set.filter property, Finset.filter_subset _ _, enough, fun element member => (Finset.mem_filter.mp member).2⟩
  · rintro ⟨chosen, direct, enough, each⟩
    refine Nat.le_trans enough (Finset.card_le_card ?_)
    intro element member
    exact Finset.mem_filter.mpr ⟨direct member, each element member⟩

section Checks

variable {cache : MultisigCache} {fuel : Nat} {address : Address}

theorem nonMultisig_of_none (found : cache address = none) : NonMultisig cache address := by
  intro entry other
  rw [found] at other
  cases other

theorem nonMultisig_of_empty {entry : MultisigEntry} (found : cache address = some entry)
    (empty : entry.cosignatoryAddresses = ∅) : NonMultisig cache address := by
  intro other same
  rwa [← Option.some.inj (found.symm.trans same)]

/-- The recursion decides the policy. -/
theorem isSatisfied_iff (cosignatories : Finset Address) (operationType : OperationType)
    (limited : ∀ address entry, cache address = some entry → entry.cosignatoryAddresses.card < 2 ^ 32)
    (bounded : ∀ length b, Steps (Cosigns cache) length address b → length < fuel) :
    ∃ satisfied, isSatisfied cosignatories operationType cache fuel address = some satisfied ∧
      (satisfied = true ↔ Satisfied cosignatories operationType cache address) := by
  classical
  induction fuel generalizing address with
  | zero => exact absurd (bounded 0 address (.refl address)) (Nat.lt_irrefl 0)
  | succ fuel ih =>
    unfold isSatisfied
    cases found : cache address with
    | none => exact ⟨_, rfl, decide_eq_true_iff.trans (satisfied_single (nonMultisig_of_none found)).symm⟩
    | some entry =>
      by_cases empty : entry.cosignatoryAddresses = ∅
      · refine ⟨decide (address ∈ cosignatories), if_pos empty, ?_⟩
        exact decide_eq_true_iff.trans (satisfied_single (nonMultisig_of_empty found empty)).symm
      · have answers : ∀ linked ∈ entry.cosignatoryAddresses.sort, isSatisfied cosignatories operationType cache fuel linked =
            some (decide (Satisfied cosignatories operationType cache linked)) := by
          intro linked inside
          obtain ⟨satisfied, ran, sound⟩ := ih (shorter_of_linked bounded ⟨entry, found, (Finset.mem_sort _).mp inside⟩)
          rw [ran, ← Bool.decide_coe satisfied]
          exact congrArg some (decide_eq_decide.mpr sound)
        have counted := foldlM_count _ _ _ answers 0
        have few : entry.cosignatoryAddresses.sort.countP (fun linked => decide (Satisfied cosignatories operationType cache linked)) <
            2 ^ 32 := by
          refine Nat.lt_of_le_of_lt List.countP_le_length ?_
          rw [Finset.length_sort]
          exact limited address entry found
        refine ⟨_, (if_neg empty).trans (Option.bind_eq_some_iff.mpr ⟨_, counted, rfl⟩), ?_⟩
        rw [decide_eq_true_iff, UInt32.zero_add, UInt32.le_iff_toNat_le, UInt32.toNat_ofNat_of_lt' few, le_countP_iff,
          satisfied_multisig found empty]

/-- The accounts without cosignatories below an account, or the account itself. -/
def LeafBelow (cache : MultisigCache) (address leaf : Address) : Prop :=
  Relation.ReflTransGen (Cosigns cache) address leaf ∧ NonMultisig cache leaf

theorem leafBelow_single (single : NonMultisig cache address) (leaf : Address) : LeafBelow cache address leaf ↔ leaf = address := by
  constructor
  · intro ⟨path, _⟩
    cases path.cases_head with
    | inl same => exact same.symm
    | inr first =>
      obtain ⟨_, ⟨entry, found, inside⟩, _⟩ := first
      rw [single entry found] at inside
      exact absurd inside (Finset.notMem_empty _)
  · rintro rfl
    exact ⟨.refl, single⟩

theorem leafBelow_multisig {entry : MultisigEntry} (found : cache address = some entry) (multisig : entry.cosignatoryAddresses ≠ ∅)
    (leaf : Address) : LeafBelow cache address leaf ↔ ∃ linked ∈ entry.cosignatoryAddresses, LeafBelow cache linked leaf := by
  constructor
  · intro ⟨path, single⟩
    cases path.cases_head with
    | inl same => exact absurd (single entry (same ▸ found)) multisig
    | inr first =>
      obtain ⟨linked, ⟨other, same, inside⟩, rest⟩ := first
      obtain rfl := Option.some.inj (found.symm.trans same)
      exact ⟨linked, inside, rest, single⟩
  · intro ⟨linked, inside, rest, single⟩
    exact ⟨.head ⟨entry, found, inside⟩ rest, single⟩

/-- The signers among some accounts are marked, and nothing else is changed. -/
def Marks (accounts : Address → Prop) (before after : Address → Option Bool) : Prop :=
  ∀ account, (accounts account → after account = (before account).map fun _ => true) ∧
    (¬accounts account → after account = before account)

theorem Marks.trans {first second : Address → Prop} {before middle after : Address → Option Bool} (one : Marks first before middle)
    (other : Marks second middle after) : Marks (fun account => first account ∨ second account) before after := by
  intro account
  by_cases early : first account
  · by_cases late : second account
    · refine ⟨fun _ => ?_, fun neither => absurd (.inl early) neither⟩
      rw [(other account).1 late, (one account).1 early, Option.map_map]
      rfl
    · refine ⟨fun _ => ?_, fun neither => absurd (.inl early) neither⟩
      rw [(other account).2 late, (one account).1 early]
  · by_cases late : second account
    · refine ⟨fun _ => ?_, fun neither => absurd (.inr late) neither⟩
      rw [(other account).1 late, (one account).2 early]
    · refine ⟨fun either => absurd either (not_or.mpr ⟨early, late⟩), fun _ => ?_⟩
      rw [(other account).2 late, (one account).2 early]

theorem Marks.congr {first second : Address → Prop} {before after : Address → Option Bool} (marks : Marks first before after)
    (same : ∀ account, second account ↔ first account) : Marks second before after := by
  intro account
  rw [same account]
  exact marks account

/-- A loop marks what its rounds mark. -/
theorem foldlM_marks {A : Type} {step : (Address → Option Bool) → A → Option (Address → Option Bool)} (accounts : A → Address → Prop)
    (list : List A) (steps : ∀ element ∈ list, ∀ before, ∃ after, step before element = some after ∧ Marks (accounts element) before after)
    (before : Address → Option Bool) :
    ∃ after, list.foldlM step before = some after ∧ Marks (fun account => ∃ element ∈ list, accounts element account) before after := by
  induction list generalizing before with
  | nil =>
    refine ⟨before, rfl, ?_⟩
    intro account
    exact ⟨fun ⟨_, member, _⟩ => absurd member List.not_mem_nil, fun _ => rfl⟩
  | cons element rest ih =>
    obtain ⟨middle, stepped, first⟩ := steps element List.mem_cons_self before
    obtain ⟨after, ran, later⟩ := ih (fun other member => steps other (List.mem_cons_of_mem _ member)) middle
    refine ⟨after, ?_, (first.trans later).congr ?_⟩
    · rw [List.foldlM_cons, stepped]
      exact ran
    · intro account
      rw [List.exists_mem_cons_iff]

theorem markEligible_marks (before : Address → Option Bool) (address : Address) :
    Marks (fun account => account = address) before (markEligible before address) := by
  intro account
  constructor
  · rintro rfl
    exact Function.update_self ..
  · intro other
    exact Function.update_of_ne other ..

/-- The search marks the accounts without cosignatories below an account. -/
theorem findEligibleCosignatories_marks
    (bounded : ∀ length b, Steps (Cosigns cache) length address b → length < fuel) (before : Address → Option Bool) :
    ∃ after, findEligibleCosignatories cache fuel address before = some after ∧ Marks (LeafBelow cache address) before after := by
  induction fuel generalizing address before with
  | zero => exact absurd (bounded 0 address (.refl address)) (Nat.lt_irrefl 0)
  | succ fuel ih =>
    unfold findEligibleCosignatories
    cases found : cache address with
    | none =>
      exact ⟨_, rfl, (markEligible_marks before address).congr (leafBelow_single (nonMultisig_of_none found))⟩
    | some entry =>
      by_cases empty : entry.cosignatoryAddresses = ∅
      · exact ⟨_, if_pos empty, (markEligible_marks before address).congr (leafBelow_single (nonMultisig_of_empty found empty))⟩
      · obtain ⟨after, ran, marks⟩ := foldlM_marks (LeafBelow cache) entry.cosignatoryAddresses.sort (fun linked inside before =>
          ih (shorter_of_linked bounded ⟨entry, found, (Finset.mem_sort _).mp inside⟩) before) before
        refine ⟨after, (if_neg empty).trans ran, marks.congr ?_⟩
        intro account
        rw [leafBelow_multisig found empty]
        simp only [Finset.mem_sort]

end Checks

instance : Finite Address := by
  apply Finite.of_injective fun (address : Address) (index : Fin 24) => address[index].toFin
  intro first second same
  ext index inside
  exact congrArg UInt8.toNat (UInt8.toFin_inj.mp (congrFun same ⟨index, inside⟩))

namespace AcyclicMultisigCache

variable (state : AcyclicMultisigCache) {fuel : Nat} (enough : Nat.card Address < fuel)
include enough

theorem bounded (address : Address) : ∀ length b, Steps (Cosigns state.cache) length address b → length < fuel :=
  fun length b path => Nat.lt_of_le_of_lt (atMost_of_acyclic state.acyclic length address b path) enough

theorem isSatisfied_decides (cosignatories : Finset Address) (operationType : OperationType) (address : Address) :
    ∃ satisfied, isSatisfied cosignatories operationType state.cache fuel address = some satisfied ∧
      (satisfied = true ↔ Satisfied cosignatories operationType state.cache address) := by
  refine isSatisfied_iff cosignatories operationType ?_ (state.bounded enough address)
  intro account entry found
  exact Nat.lt_of_le_of_lt (state.limited account entry found) state.maxCosignatoriesPerAccount.toNat_lt

theorem isSatisfied_mono {cosignatories more : Finset Address} {operationType : OperationType} {address : Address}
    (included : cosignatories ⊆ more) (satisfied : isSatisfied cosignatories operationType state.cache fuel address = some true) :
    isSatisfied more operationType state.cache fuel address = some true := by
  obtain ⟨fewer, ran, sound⟩ := state.isSatisfied_decides enough cosignatories operationType address
  obtain ⟨larger, again, complete⟩ := state.isSatisfied_decides enough more operationType address
  rw [satisfied] at ran
  have policy := (sound.mp (Option.some.inj ran).symm).mono included
  rw [again, complete.mpr policy]

variable {K U : Type} (context : CosignatureContext K U) (signerPublicKey : K) (cosignatures : List K)

theorem hasSufficientCosignatories_decides (transaction : EmbeddedTransaction K) : ∃ sufficient,
    hasSufficientCosignatories context state.cache fuel signerPublicKey cosignatures transaction = some sufficient ∧
      (sufficient = true ↔ ∀ required ∈ findRequiredAddresses context transaction,
        Satisfied (findCosignatories context signerPublicKey cosignatures) (getOperationType transaction) state.cache required) := by
  rw [hasSufficientCosignatories]
  suffices decides : ∀ list : List Address, ∃ sufficient, list.allM (isSatisfied (findCosignatories context signerPublicKey cosignatures)
      (getOperationType transaction) state.cache fuel) = some sufficient ∧ (sufficient = true ↔ ∀ required ∈ list,
        Satisfied (findCosignatories context signerPublicKey cosignatures) (getOperationType transaction) state.cache required) by
    obtain ⟨sufficient, ran, sound⟩ := decides (findRequiredAddresses context transaction).sort
    refine ⟨sufficient, ran, sound.trans ?_⟩
    simp only [Finset.mem_sort]
  intro list
  induction list with
  | nil => exact ⟨true, rfl, iff_of_true rfl nofun⟩
  | cons required rest ih =>
    obtain ⟨satisfied, ran, sound⟩ := state.isSatisfied_decides enough
      (findCosignatories context signerPublicKey cosignatures) (getOperationType transaction) required
    rw [List.allM, ran]
    cases satisfied with
    | true =>
      obtain ⟨sufficient, others, complete⟩ := ih
      refine ⟨sufficient, others, complete.trans ?_⟩
      rw [List.forall_mem_cons, and_iff_right (sound.mp rfl)]
    | false =>
      refine ⟨false, rfl, iff_of_false Bool.false_ne_true ?_⟩
      intro each
      exact Bool.false_ne_true (sound.mpr (each required List.mem_cons_self))

theorem hasSufficientCosignatories_mono {more : List K} (included : cosignatures ⊆ more) (transaction : EmbeddedTransaction K)
    (sufficient : hasSufficientCosignatories context state.cache fuel signerPublicKey cosignatures transaction = some true) :
    hasSufficientCosignatories context state.cache fuel signerPublicKey more transaction = some true := by
  obtain ⟨fewer, ran, sound⟩ := state.hasSufficientCosignatories_decides enough context signerPublicKey cosignatures transaction
  obtain ⟨larger, again, complete⟩ := state.hasSufficientCosignatories_decides enough context signerPublicKey more transaction
  rw [sufficient] at ran
  have signers : findCosignatories context signerPublicKey cosignatures ⊆ findCosignatories context signerPublicKey more := by
    apply Finset.insert_subset_insert
    intro address member
    exact List.mem_toFinset.mpr ((List.map_subset context.toAddress included) (List.mem_toFinset.mp member))
  rw [again, complete.mpr fun required member => (sound.mp (Option.some.inj ran).symm required member).mono signers]

theorem hasIneligibleCosignatories_decides (transactions : List (EmbeddedTransaction K)) : ∃ ineligible,
    hasIneligibleCosignatories context state.cache fuel signerPublicKey cosignatures transactions = some ineligible ∧
      (ineligible = false ↔ ∀ cosignatory ∈ findCosignatories context signerPublicKey cosignatures,
        ∃ transaction ∈ transactions, ∃ required ∈ findRequiredAddresses context transaction, LeafBelow state.cache required cosignatory) := by
  have visits (address : Address) (before : Address → Option Bool) :=
    findEligibleCosignatories_marks (state.bounded enough address) before
  have steps (transaction : EmbeddedTransaction K) (before : Address → Option Bool) :
      ∃ after, findTransactionCosignatories context state.cache fuel before transaction = some after ∧
        Marks (fun account => ∃ required ∈ findRequiredAddresses context transaction, LeafBelow state.cache required account) before after := by
    obtain ⟨middle, first, marks⟩ := visits (context.toAddress transaction.signerPublicKey) before
    obtain ⟨after, ran, others⟩ := foldlM_marks (fun account => LeafBelow state.cache (context.resolve account))
      (context.additionalRequiredCosignatories transaction) (fun account _ before => visits (context.resolve account) before) middle
    refine ⟨after, ?_, (marks.trans others).congr ?_⟩
    · rw [findTransactionCosignatories, first]
      exact ran
    · intro account
      simp only [findRequiredAddresses, Finset.mem_insert, List.mem_toFinset, List.mem_map, exists_eq_or_imp, exists_exists_and_eq_and]
  obtain ⟨marked, ran, marks⟩ := foldlM_marks (fun transaction account => ∃ required ∈ findRequiredAddresses context transaction,
    LeafBelow state.cache required account) transactions (fun transaction _ before => steps transaction before)
    fun address => if address ∈ findCosignatories context signerPublicKey cosignatures then some false else none
  refine ⟨_, by rw [hasIneligibleCosignatories]; exact Option.bind_eq_some_iff.mpr ⟨marked, ran, rfl⟩, ?_⟩
  rw [List.any_eq_false]
  constructor
  · intro none cosignatory member
    by_contra unmarked
    apply none cosignatory ((Finset.mem_sort _).mpr member)
    rw [(marks cosignatory).2 unmarked]
    exact decide_eq_true (if_pos member)
  · intro each cosignatory member
    have signer := (Finset.mem_sort _).mp member
    rw [(marks cosignatory).1 (each cosignatory signer)]
    simp [signer]

end AcyclicMultisigCache

/-- The checks of the cosignatures agree with the thresholds of every acyclic multisig graph. -/
theorem cosignatures_match_policy {K U : Type} (state : AcyclicMultisigCache) : ∃ bound, ∀ fuel, bound < fuel →
    (∀ cosignatories operationType address, ∃ satisfied,
      isSatisfied cosignatories operationType state.cache fuel address = some satisfied ∧
        (satisfied = true ↔ Satisfied cosignatories operationType state.cache address)) ∧
    (∀ cosignatories more operationType address, cosignatories ⊆ more →
      isSatisfied cosignatories operationType state.cache fuel address = some true →
        isSatisfied more operationType state.cache fuel address = some true) ∧
    (∀ (context : CosignatureContext K U) signerPublicKey cosignatures transactions, ∃ ineligible,
      hasIneligibleCosignatories context state.cache fuel signerPublicKey cosignatures transactions = some ineligible ∧
        (ineligible = false ↔ ∀ cosignatory ∈ findCosignatories context signerPublicKey cosignatures,
          ∃ transaction ∈ transactions, ∃ required ∈ findRequiredAddresses context transaction,
            LeafBelow state.cache required cosignatory)) ∧
    (∀ (context : CosignatureContext K U) signerPublicKey cosignatures transaction, ∃ sufficient,
      hasSufficientCosignatories context state.cache fuel signerPublicKey cosignatures transaction = some sufficient ∧
        (sufficient = true ↔ ∀ required ∈ findRequiredAddresses context transaction,
          Satisfied (findCosignatories context signerPublicKey cosignatures) (getOperationType transaction) state.cache required)) ∧
    (∀ (context : CosignatureContext K U) signerPublicKey cosignatures cosignature transaction,
      hasSufficientCosignatories context state.cache fuel signerPublicKey cosignatures transaction = some true →
        hasSufficientCosignatories context state.cache fuel signerPublicKey (cosignatures ++ [cosignature]) transaction = some true) := by
  refine ⟨Nat.card Address, ?_⟩
  intro fuel enough
  refine ⟨state.isSatisfied_decides enough, ?_, ?_, ?_, ?_⟩
  · intro cosignatories more operationType address included
    exact state.isSatisfied_mono enough included
  · intro context signerPublicKey cosignatures transactions
    exact state.hasIneligibleCosignatories_decides enough context signerPublicKey cosignatures transactions
  · intro context signerPublicKey cosignatures transaction
    exact state.hasSufficientCosignatories_decides enough context signerPublicKey cosignatures transaction
  · intro context signerPublicKey cosignatures cosignature transaction
    exact state.hasSufficientCosignatories_mono enough context signerPublicKey cosignatures
      (List.subset_append_left cosignatures [cosignature]) transaction

end Catapult.Multisig
