import Catapult.Library.Depth
import Catapult.Proof.Multisig.Observers

/-
This file shows what the recursive functions compute and that modifications keep the multisig graph symmetric, acyclic and shallow.
-/

namespace Catapult.Multisig

open Depth

/-- One account is linked to another by its entry. -/
def Linked (linkedAddresses : MultisigEntry → Finset Address) (cache : MultisigCache) (a b : Address) :
    Prop := ∃ entry, cache a = some entry ∧ b ∈ linkedAddresses entry

/-- The cosignatories of an account are below it. -/
abbrev Cosigns : MultisigCache → Address → Address → Prop := Linked MultisigEntry.cosignatoryAddresses

/-- The accounts that an account can cosign are above it. -/
abbrev CosignatoryOf : MultisigCache → Address → Address → Prop := Linked MultisigEntry.multisigAddresses

section Termination

/-- A loop of optional steps ends if every step does. -/
theorem foldlM_isSome {S A : Type} {step : S → A → Option S} {actions : List A}
    (steps : ∀ action ∈ actions, ∀ state, ∃ next, step state action = some next) (state : S) :
    ∃ final, actions.foldlM step state = some final := by
  induction actions generalizing state with
  | nil => exact ⟨state, rfl⟩
  | cons action actions ih =>
    obtain ⟨next, stepped⟩ := steps action List.mem_cons_self state
    rw [List.foldlM_cons, stepped]
    exact ih (fun other inside => steps other (List.mem_cons_of_mem _ inside)) next

/-- The paths from a linked account are shorter. -/
theorem shorter_of_linked {r : Address → Address → Prop} {fuel : Nat} {address next : Address}
    (bounded : ∀ length b, Steps r length address b → length < fuel + 1) (linked : r address next) :
    ∀ length b, Steps r length next b → length < fuel := by
  intro length b path
  have longer := bounded (length + 1) b (.head linked path)
  omega

variable {cache : MultisigCache}

/-- The levels are found if the fuel exceeds the length of every path. -/
theorem findAll_terminates {linkedAddresses : MultisigEntry → Finset Address} {fuel : Nat} {address : Address}
    (bounded : ∀ length b, Steps (Linked linkedAddresses cache) length address b → length < fuel)
    (addresses : Finset Address) : ∃ result, findAll linkedAddresses cache fuel address addresses = some result := by
  induction fuel generalizing address addresses with
  | zero => exact absurd (bounded 0 address (.refl address)) (Nat.lt_irrefl 0)
  | succ fuel ih =>
    unfold findAll
    cases found : cache address with
    | none => exact ⟨_, rfl⟩
    | some entry =>
      apply foldlM_isSome
      rintro linked inside ⟨numLevels, visited⟩
      obtain ⟨result, ran⟩ := ih (shorter_of_linked bounded
        ⟨entry, found, (Finset.mem_sort _).mp inside⟩) (insert linked visited)
      exact ⟨_, Option.bind_eq_some_iff.mpr ⟨result, ran, rfl⟩⟩

theorem isSatisfied_terminates {cosignatories : Finset Address} {operationType : OperationType} {fuel : Nat}
    {address : Address} (bounded : ∀ length b, Steps (Cosigns cache) length address b → length < fuel) :
    ∃ result, isSatisfied cosignatories operationType cache fuel address = some result := by
  induction fuel generalizing address with
  | zero => exact absurd (bounded 0 address (.refl address)) (Nat.lt_irrefl 0)
  | succ fuel ih =>
    unfold isSatisfied
    cases found : cache address with
    | none => exact ⟨_, rfl⟩
    | some entry =>
      simp only
      split
      · exact ⟨_, rfl⟩
      · have counted : ∃ numApprovers, entry.cosignatoryAddresses.sort.foldlM
            (fun (numApprovers : UInt32) cosignatoryAddress => do
              let satisfied ← isSatisfied cosignatories operationType cache fuel cosignatoryAddress
              return numApprovers + if satisfied then 1 else 0) 0 = some numApprovers := by
          apply foldlM_isSome
          intro linked inside state
          obtain ⟨result, ran⟩ := ih (shorter_of_linked bounded
            ⟨entry, found, (Finset.mem_sort _).mp inside⟩)
          exact ⟨_, by rw [ran]; rfl⟩
        obtain ⟨numApprovers, ran⟩ := counted
        exact ⟨_, by rw [ran]; rfl⟩

theorem findEligibleCosignatories_terminates {fuel : Nat} {address : Address}
    (bounded : ∀ length b, Steps (Cosigns cache) length address b → length < fuel) (cosignatories : Address → Option Bool) :
    ∃ result, findEligibleCosignatories cache fuel address cosignatories = some result := by
  induction fuel generalizing address cosignatories with
  | zero => exact absurd (bounded 0 address (.refl address)) (Nat.lt_irrefl 0)
  | succ fuel ih =>
    unfold findEligibleCosignatories
    cases found : cache address with
    | none => exact ⟨_, rfl⟩
    | some entry =>
      simp only
      split
      · exact ⟨_, rfl⟩
      · apply foldlM_isSome
        intro linked inside state
        exact ih (shorter_of_linked bounded ⟨entry, found, (Finset.mem_sort _).mp inside⟩) state

end Termination

variable {linkedAddresses : MultisigEntry → Finset Address} {cache : MultisigCache}

/-- The levels bound every path and the visited accounts contain every account on a path. -/
structure Covers (linkedAddresses : MultisigEntry → Finset Address) (cache : MultisigCache)
    (address : Address) (numLevels : Nat) (addresses : Finset Address) : Prop where
  levels : ∀ length b, Steps (Linked linkedAddresses cache) length address b → length ≤ numLevels
  visited : ∀ b, Relation.TransGen (Linked linkedAddresses cache) address b → b ∈ addresses

/-- The loop covers every linked account one level below. -/
theorem findAll_loop {fuel : Nat} (covers : ∀ address addresses numLevels result,
      findAll linkedAddresses cache fuel address addresses = some (numLevels, result) →
        addresses ⊆ result ∧ Covers linkedAddresses cache address numLevels result)
    {linked : List Address} {numLevels final : Nat} {addresses result : Finset Address}
    (ran : linked.foldlM (fun (numLevels, addresses) linkedAddress => do
        let (levels, addresses) ← findAll linkedAddresses cache fuel linkedAddress
          (insert linkedAddress addresses)
        return (max numLevels (levels + 1), addresses)) (numLevels, addresses) = some (final, result)) :
    numLevels ≤ final ∧ addresses ⊆ result ∧ ∀ next ∈ linked, next ∈ result ∧
      ∃ levels, levels + 1 ≤ final ∧ Covers linkedAddresses cache next levels result := by
  induction linked generalizing numLevels addresses with
  | nil =>
    cases ran
    exact ⟨Nat.le_refl _, Finset.Subset.refl _, fun _ inside => by cases inside⟩
  | cons first rest ih =>
    obtain ⟨⟨state, visited⟩, stepped, continued⟩ := Option.bind_eq_some_iff.mp ran
    obtain ⟨⟨levels, inner⟩, called, same⟩ := Option.bind_eq_some_iff.mp stepped
    cases same
    obtain ⟨kept, covered⟩ := covers first _ levels visited called
    obtain ⟨grown, included, others⟩ := ih continued
    have inserted : insert first addresses ⊆ result := kept.trans included
    refine ⟨by omega, (Finset.subset_insert _ _).trans inserted, ?_⟩
    intro next inside
    rcases List.mem_cons.mp inside with rfl | later
    · refine ⟨inserted (Finset.mem_insert_self _ _), levels, by omega, covered.levels, ?_⟩
      exact fun b path => included (covered.visited b path)
    · exact others next later

/-- A successful search covers all paths from the account. -/
theorem findAll_covers {fuel : Nat} {address : Address} {addresses result : Finset Address}
    {numLevels : Nat} (ran : findAll linkedAddresses cache fuel address addresses = some (numLevels, result)) :
    addresses ⊆ result ∧ Covers linkedAddresses cache address numLevels result := by
  induction fuel generalizing address addresses numLevels result with
  | zero => cases ran
  | succ fuel ih =>
    unfold findAll at ran
    cases found : cache address with
    | none =>
      rw [found] at ran
      cases ran
      have unlinked : ∀ b, ¬ Linked linkedAddresses cache address b := by
        rintro b ⟨entry, present, _⟩
        rw [found] at present
        cases present
      refine ⟨Finset.Subset.refl _, ?_, ?_⟩
      · intro length b path
        cases path with
        | refl => exact Nat.le_refl 0
        | head step _ => exact absurd step (unlinked _)
      · intro b path
        obtain ⟨next, step, _⟩ := Relation.TransGen.head'_iff.mp path
        exact absurd step (unlinked next)
    | some entry =>
      rw [found] at ran
      obtain ⟨_, kept, each⟩ := findAll_loop (fun _ _ _ _ => ih) ran
      have covered : ∀ next, Linked linkedAddresses cache address next → next ∈ result ∧
          ∃ levels, levels + 1 ≤ numLevels ∧ Covers linkedAddresses cache next levels result := by
        rintro next ⟨other, present, inside⟩
        rw [found, Option.some.injEq] at present
        exact each next ((Finset.mem_sort _).mpr (present ▸ inside))
      refine ⟨kept, ?_, ?_⟩
      · intro length b path
        cases path with
        | refl => exact Nat.zero_le _
        | head step rest =>
          obtain ⟨_, levels, below, covers⟩ := covered _ step
          have bound := covers.levels _ _ rest
          omega
      · intro b path
        obtain ⟨next, step, rest⟩ := Relation.TransGen.head'_iff.mp path
        obtain ⟨present, levels, _, covers⟩ := covered next step
        rcases Relation.reflTransGen_iff_eq_or_transGen.mp rest with rfl | further
        · exact present
        · exact covers.visited b further

/-- The settings of an account fit the number of its cosignatories. -/
def SettingsFit (entry : MultisigEntry) : Prop :=
  if entry.cosignatoryAddresses = ∅ then entry.minApproval = 0 ∧ entry.minRemoval = 0
  else
    1 ≤ entry.minApproval.toNat ∧ entry.minApproval.toNat ≤ entry.cosignatoryAddresses.card ∧
      1 ≤ entry.minRemoval.toNat ∧ entry.minRemoval.toNat ≤ entry.cosignatoryAddresses.card

/-- The entries of the cache form a graph of bounded depth. -/
structure MultisigGraph (config : MultisigConfiguration) (cache : MultisigCache) : Prop where
  addressed : ∀ address entry, cache address = some entry → entry.address = address
  symmetric : ∀ multisig cosignatory, Cosigns cache multisig cosignatory ↔ CosignatoryOf cache cosignatory multisig
  shallow : AtMost (Cosigns cache) config.maxMultisigDepth.toNat
  linked : ∀ address entry, cache address = some entry → entry.isEmpty = false
  settings : ∀ address entry, cache address = some entry → SettingsFit entry
  limited : ∀ address entry, cache address = some entry →
    entry.cosignatoryAddresses.card ≤ config.maxCosignatoriesPerAccount.toNat

theorem multisigGraph_create (config : MultisigConfiguration) : MultisigGraph config MultisigCache.create where
  addressed _ _ found := by cases found
  symmetric _ _ := by
    constructor
    · rintro ⟨_, found, _⟩
      cases found
    · rintro ⟨_, found, _⟩
      cases found
  shallow length _ _ path := by
    cases path with
    | refl => exact Nat.zero_le _
    | head step _ =>
      obtain ⟨_, found, _⟩ := step
      cases found
  linked _ _ found := by cases found
  settings _ _ found := by cases found
  limited _ _ found := by cases found

section Validation

variable {config : MultisigConfiguration} {fuel : Nat} {cache : MultisigCache}
  {modification : MultisigModification}

theorem mem_entryOf_cosignatories (cache : MultisigCache) {multisig cosignatory : Address} :
    cosignatory ∈ (entryOf cache multisig).cosignatoryAddresses ↔ Cosigns cache multisig cosignatory := by
  cases found : cache multisig <;> simp [entryOf, Linked, MultisigEntry.create, found]

theorem mem_entryOf_multisigs (cache : MultisigCache) {multisig cosignatory : Address} :
    multisig ∈ (entryOf cache cosignatory).multisigAddresses ↔ CosignatoryOf cache cosignatory multisig := by
  cases found : cache cosignatory <;> simp [entryOf, Linked, MultisigEntry.create, found]

theorem MultisigGraph.card_entryOf (graph : MultisigGraph config cache) (address : Address) :
    (entryOf cache address).cosignatoryAddresses.card ≤ config.maxCosignatoriesPerAccount.toNat := by
  cases found : cache address with
  | none => simp [entryOf, found, MultisigEntry.create]
  | some entry =>
    rw [entryOf_of_some found]
    exact graph.limited address entry found

/-- A path to an account is followed upwards by its ancestors. -/
theorem MultisigGraph.ancestors (graph : MultisigGraph config cache) {length : Nat} {a b : Address}
    (path : Steps (Cosigns cache) length a b) : Steps (CosignatoryOf cache) length b a :=
  path.flip.mono fun _ _ => (graph.symmetric _ _).mp

/-- An accepted edge closes no cycle and keeps all paths through it short. -/
theorem validateMultisigLoopAndLevel_ok (graph : MultisigGraph config cache) {top bottom : Address}
    (valid : validateMultisigLoopAndLevel config cache fuel top bottom = .ok ()) :
    (∀ length, ¬ Steps (Cosigns cache) length bottom top) ∧
      ∀ up down a c, Steps (Cosigns cache) up a top → Steps (Cosigns cache) down bottom c →
        up + down + 1 ≤ config.maxMultisigDepth.toNat := by
  obtain ⟨⟨numTopLevels, ancestors⟩, above, rest⟩ := Runs.bind_eq_ok.mp valid
  obtain ⟨⟨numBottomLevels, descendants⟩, below, checked⟩ := Runs.bind_eq_ok.mp rest
  have found : ∀ {result : Option (Nat × Finset Address)} {value}, requireFuel result = .ok value → result = some value := by
    intro result value required
    cases result <;> cases required
    rfl
  obtain ⟨topKept, topCovers⟩ := findAll_covers (found above)
  obtain ⟨bottomKept, bottomCovers⟩ := findAll_covers (found below)
  by_cases deep : config.maxMultisigDepth.toNat < numTopLevels + numBottomLevels + 1
  · simp [deep, reject] at checked
  · by_cases apart : Disjoint ancestors descendants
    case neg => simp [deep, apart, reject] at checked
    · constructor
      · intro length path
        refine Finset.disjoint_left.mp apart (topKept (Finset.mem_singleton_self top)) ?_
        cases length with
        | zero =>
          cases path
          exact bottomKept (Finset.mem_singleton_self _)
        | succ length => exact bottomCovers.visited top path.transGen
      · intro up down a c before after
        have upper := topCovers.levels up a (graph.ancestors before)
        have lower := bottomCovers.levels down c after
        omega

/-- An accepted modification has these properties in the state before it is applied. -/
structure Admissible (config : MultisigConfiguration) (cache : MultisigCache) (modification : MultisigModification) : Prop where
  separate : Separate modification
  single : modification.deletions.length ≤ 1
  fresh : ∀ address ∈ modification.additions, ¬ Cosigns cache modification.multisig address
  deleted : ∀ address ∈ modification.deletions, Cosigns cache modification.multisig address
  apart : ∀ address ∈ modification.additions, ∀ length, ¬ Steps (Cosigns cache) length address modification.multisig
  through : ∀ address ∈ modification.additions, ∀ up down a c,
    Steps (Cosigns cache) up a modification.multisig → Steps (Cosigns cache) down address c →
      up + down + 1 ≤ config.maxMultisigDepth.toNat
  limited : (((entryOf cache modification.multisig).cosignatoryAddresses ∪
      modification.additions.toFinset) \ modification.deletions.toFinset).card ≤
    config.maxCosignatoriesPerAccount.toNat

/-- Every addition passes the loop and level check. -/
theorem validateNewCosignatories_ok (valid : validateNewCosignatories config fuel cache modification = .ok ()) :
    ∀ address ∈ modification.additions,
      validateMultisigLoopAndLevel config cache fuel modification.multisig address = .ok () := by
  unfold validateNewCosignatories at valid
  generalize modification.additions = additions at valid ⊢
  induction additions with
  | nil =>
    intro _ inside
    cases inside
  | cons first rest ih =>
    obtain ⟨_, firstValid, restValid⟩ := Runs.bind_eq_ok.mp valid
    obtain ⟨_, _, firstShallow⟩ := Runs.bind_eq_ok.mp firstValid
    intro address inside
    rcases List.mem_cons.mp inside with rfl | later
    · exact firstShallow
    · exact ih restValid address later

theorem validateMultisigCosignatories_ok (valid : validateMultisigCosignatories modification = .ok ()) :
    modification.deletions.length ≤ 1 := by
  unfold validateMultisigCosignatories at valid
  split at valid
  · cases valid
  · next single =>
    rw [MultisigModification.deletions, List.length_map]
    omega

/-- The additions are new and the deletions are known cosignatories. -/
theorem validateMultisigInvalidCosignatories_ok (valid : validateMultisigInvalidCosignatories cache modification = .ok ()) :
    (∀ address ∈ modification.additions, ¬ Cosigns cache modification.multisig address) ∧
      ∀ address ∈ modification.deletions, Cosigns cache modification.multisig address := by
  unfold validateMultisigInvalidCosignatories at valid
  cases found : cache modification.multisig with
  | none =>
    simp only [found] at valid
    split at valid
    · next none =>
      rw [List.length_eq_zero_iff] at none
      constructor
      · rintro address _ ⟨entry, present, _⟩
        cases found.symm.trans present
      · intro address inside
        simp [MultisigModification.deletions, none] at inside
    · cases valid
  | some entry =>
    simp only [found] at valid
    split at valid
    · cases valid
    · next fresh =>
      split at valid
      · cases valid
      · next known =>
        simp only [List.any_eq_true, MultisigEntry.hasCosignatory, decide_eq_true_eq, not_exists,
          not_and, Bool.not_eq_true', decide_eq_false_iff_not, not_not] at fresh known
        constructor
        · rintro address inside ⟨other, present, linked⟩
          cases found.symm.trans present
          exact fresh address inside linked
        · exact fun address inside => ⟨entry, found, known address inside⟩

/-- The number of cosignatories after the modification stays within the limit. -/
theorem validateMultisigMaxCosignatories_ok (graph : MultisigGraph config cache) (single : modification.deletions.length ≤ 1)
    (deleted : ∀ address ∈ modification.deletions, Cosigns cache modification.multisig address)
    (valid : validateMultisigMaxCosignatories config cache modification = .ok ()) :
    (((entryOf cache modification.multisig).cosignatoryAddresses ∪
        modification.additions.toFinset) \ modification.deletions.toFinset).card ≤
      config.maxCosignatoriesPerAccount.toNat := by
  have checked : (if (config.maxCosignatoriesPerAccount.toNat : Int) <
      (((entryOf cache modification.multisig).cosignatoryAddresses.card : Int) +
        (modification.addressAdditions.length - modification.addressDeletions.length)) % 2 ^ 64 then
      reject .maxCosignatories else .ok ()) = .ok () := by
    unfold validateMultisigMaxCosignatories at valid
    cases found : cache modification.multisig <;>
      simpa [found, entryOf, MultisigEntry.create] using valid
  have within := graph.card_entryOf modification.multisig
  have known : modification.deletions.toFinset ⊆
      (entryOf cache modification.multisig).cosignatoryAddresses := fun address inside =>
    (mem_entryOf_cosignatories cache).mpr (deleted address (List.mem_toFinset.mp inside))
  have knownOrAdded : modification.deletions.toFinset ⊆
      (entryOf cache modification.multisig).cosignatoryAddresses ∪ modification.additions.toFinset :=
    known.trans Finset.subset_union_left
  have removed := Finset.card_sdiff_of_subset knownOrAdded
  have added := (Finset.card_union_le (entryOf cache modification.multisig).cosignatoryAddresses
    modification.additions.toFinset).trans
      (Nat.add_le_add_left (List.toFinset_card_le modification.additions) _)
  have distinct : modification.deletions.toFinset.card = modification.deletions.length := by
    rcases Nat.le_one_iff_eq_zero_or_eq_one.mp single with none | one
    · rw [List.length_eq_zero_iff.mp none]
      rfl
    · obtain ⟨address, same⟩ := List.length_eq_one_iff.mp one
      rw [same]
      rfl
  have fewer := Finset.card_le_card known
  have additionsLength : modification.additions.length = modification.addressAdditions.length :=
    List.length_map _
  have deletionsLength : modification.deletions.length = modification.addressDeletions.length :=
    List.length_map _
  have few := modification.additionsCount
  have limit := config.maxCosignatoriesPerAccount.toNat_lt
  split at checked
  · cases checked
  · omega

/-- Without additions and deletions the links stay as they are. -/
theorem MultisigGraph.changeLinks_nil (graph : MultisigGraph config cache)
    (noAdditions : modification.additions = []) (noDeletions : modification.deletions = []) :
    changeLinks modification cache = cache := by
  funext address
  by_cases isMultisig : address = modification.multisig
  · subst isMultisig
    cases found : cache modification.multisig with
    | none => simp [changeLinks, noAdditions, noDeletions, entryOf, found, keepLinked,
        MultisigEntry.create, MultisigEntry.isEmpty]
    | some entry =>
      simp [changeLinks, noAdditions, noDeletions, entryOf, found, keepLinked, graph.linked _ entry found]
  · simp [changeLinks, noAdditions, noDeletions, isMultisig]

theorem changesCosignatories_eq_false :
    modification.changesCosignatories = false ↔ modification.additions = [] ∧ modification.deletions = [] := by
  simp [MultisigModification.changesCosignatories, MultisigModification.additions, MultisigModification.deletions]

/-- A modification without additions and deletions is admissible. -/
theorem MultisigGraph.admissible_nil (graph : MultisigGraph config cache)
    (noAdditions : modification.additions = []) (noDeletions : modification.deletions = []) :
    Admissible config cache modification where
  separate := by constructor <;> simp [noAdditions, noDeletions]
  single := by simp [noDeletions]
  fresh := by simp [noAdditions]
  deleted := by simp [noDeletions]
  apart := by simp [noAdditions]
  through := by simp [noAdditions]
  limited := by simpa [noAdditions, noDeletions] using graph.card_entryOf modification.multisig

/-- The validators of the cosignatories admit a modification only if it keeps the graph in shape. -/
theorem MultisigGraph.admissible (graph : MultisigGraph config cache)
    (validNew : validateNewCosignatories config fuel cache modification = .ok ())
    (validSets : validateMultisigCosignatories modification = .ok ())
    (validMax : validateMultisigMaxCosignatories config cache modification = .ok ())
    (validCosignatories : validateMultisigInvalidCosignatories cache modification = .ok ()) :
    Admissible config cache modification := by
  have checked := fun address inside =>
    validateMultisigLoopAndLevel_ok graph (validateNewCosignatories_ok validNew address inside)
  have single := validateMultisigCosignatories_ok validSets
  obtain ⟨fresh, deleted⟩ := validateMultisigInvalidCosignatories_ok validCosignatories
  refine ⟨⟨?_, ?_, ?_⟩, single, fresh, deleted, fun address inside => (checked address inside).1,
    fun address inside => (checked address inside).2,
    validateMultisigMaxCosignatories_ok graph single deleted validMax⟩
  · exact fun inside => (checked _ inside).1 0 (.refl _)
  · exact fun inside => graph.shallow.acyclic _ (.single (deleted _ inside))
  · exact fun address inside added => fresh address added (deleted address inside)

/-- An accepted modification is admissible; its observers change the links and then the settings. -/
theorem commitModification_ok (graph : MultisigGraph config cache) {next : MultisigCache}
    (ran : commitModification config fuel cache modification = .ok next) : Admissible config cache modification ∧
      validateMultisigInvalidSettings (changeLinks modification cache) modification = .ok () ∧
      next = multisigSettingsObserver modification .commit (changeLinks modification cache) := by
  obtain ⟨changed, observed, rest⟩ := Runs.bind_eq_ok.mp ran
  obtain ⟨_, validSettings, same⟩ := Runs.bind_eq_ok.mp rest
  cases same
  have result : Admissible config cache modification ∧ changed = changeLinks modification cache := by
    cases changes : modification.changesCosignatories with
    | false =>
      obtain ⟨noAdditions, noDeletions⟩ := changesCosignatories_eq_false.mp changes
      rw [commitCosignatories, changes] at observed
      cases observed
      exact ⟨graph.admissible_nil noAdditions noDeletions, (graph.changeLinks_nil noAdditions noDeletions).symm⟩
    | true =>
      rw [commitCosignatories, changes] at observed
      obtain ⟨_, validNew, afterNew⟩ := Runs.bind_eq_ok.mp observed
      obtain ⟨_, validSets, afterSets⟩ := Runs.bind_eq_ok.mp afterNew
      obtain ⟨_, validMax, afterMax⟩ := Runs.bind_eq_ok.mp afterSets
      obtain ⟨_, validCosignatories, applied⟩ := Runs.bind_eq_ok.mp afterMax
      have admissible := graph.admissible validNew validSets validMax validCosignatories
      have present : ∀ address ∈ modification.deletions, (cache address).isSome := by
        intro address inside
        obtain ⟨entry, found, _⟩ := (graph.symmetric _ _).mp (admissible.deleted address inside)
        simp [found]
      rw [multisigCosignatoriesObserver_commit admissible.separate admissible.single present] at applied
      exact ⟨admissible, (Except.ok.inj applied).symm⟩
  obtain ⟨admissible, rfl⟩ := result
  exact ⟨admissible, validSettings, rfl⟩

/-- The observers run if all validators succeed. -/
theorem commitModification_of_valid (changes : modification.changesCosignatories = true)
    (validNew : validateNewCosignatories config fuel cache modification = .ok ())
    (validSets : validateMultisigCosignatories modification = .ok ())
    (validMax : validateMultisigMaxCosignatories config cache modification = .ok ())
    (validCosignatories : validateMultisigInvalidCosignatories cache modification = .ok ())
    (separate : Separate modification) (single : modification.deletions.length ≤ 1)
    (present : ∀ address ∈ modification.deletions, (cache address).isSome)
    (validSettings : validateMultisigInvalidSettings (changeLinks modification cache) modification = .ok ()) :
    commitModification config fuel cache modification =
      .ok (multisigSettingsObserver modification .commit (changeLinks modification cache)) := by
  have observed : commitCosignatories config fuel cache modification = .ok (changeLinks modification cache) := by
    rw [commitCosignatories, changes]
    exact Runs.bind_eq_ok.mpr ⟨_, validNew, Runs.bind_eq_ok.mpr ⟨_, validSets,
      Runs.bind_eq_ok.mpr ⟨_, validMax, Runs.bind_eq_ok.mpr ⟨_, validCosignatories,
        multisigCosignatoriesObserver_commit separate single present⟩⟩⟩⟩
  exact Runs.bind_eq_ok.mpr ⟨_, observed, Runs.bind_eq_ok.mpr ⟨_, validSettings, rfl⟩⟩

end Validation

section Links

variable {modification : MultisigModification} {cache : MultisigCache}

/-- An entry with a cosignatory is not empty. -/
theorem mem_cosignatories_keepLinked {entry : MultisigEntry} {address : Address} :
    (∃ kept, keepLinked entry = some kept ∧ address ∈ kept.cosignatoryAddresses) ↔ address ∈ entry.cosignatoryAddresses := by
  constructor
  · rintro ⟨kept, found, inside⟩
    obtain ⟨_, rfl⟩ := keepLinked_eq_some.mp found
    exact inside
  · intro inside
    refine ⟨entry, keepLinked_eq_some.mpr ⟨?_, rfl⟩, inside⟩
    simp [MultisigEntry.isEmpty, Finset.ne_empty_of_mem inside]

theorem mem_multisigs_keepLinked {entry : MultisigEntry} {address : Address} :
    (∃ kept, keepLinked entry = some kept ∧ address ∈ kept.multisigAddresses) ↔ address ∈ entry.multisigAddresses := by
  constructor
  · rintro ⟨kept, found, inside⟩
    obtain ⟨_, rfl⟩ := keepLinked_eq_some.mp found
    exact inside
  · intro inside
    refine ⟨entry, keepLinked_eq_some.mpr ⟨?_, rfl⟩, inside⟩
    simp [MultisigEntry.isEmpty, Finset.ne_empty_of_mem inside]

/-- The multisig account gains the additions and loses the deletions. -/
theorem cosigns_changeLinks {multisig cosignatory : Address} : Cosigns (changeLinks modification cache) multisig cosignatory ↔
      if multisig = modification.multisig then
        (Cosigns cache multisig cosignatory ∨ cosignatory ∈ modification.additions) ∧ cosignatory ∉ modification.deletions
      else Cosigns cache multisig cosignatory := by
  by_cases isMultisig : multisig = modification.multisig
  · rw [if_pos isMultisig, isMultisig, ← mem_entryOf_cosignatories cache]
    simp only [Cosigns, Linked, changeLinks, if_true]
    rw [mem_cosignatories_keepLinked]
    simp
  · rw [if_neg isMultisig]
    by_cases deleted : multisig ∈ modification.deletions
    · simp only [Cosigns, Linked, changeLinks, isMultisig, deleted, if_true, if_false]
      cases cache multisig with
      | none => rfl
      | some entry =>
        simp only [Option.bind_some, mem_cosignatories_keepLinked]
        simp [unlinkEntry]
    · by_cases added : multisig ∈ modification.additions
      · rw [← mem_entryOf_cosignatories cache]
        simp [Linked, changeLinks, isMultisig, deleted, added, linkEntry]
      · simp [Linked, changeLinks, isMultisig, deleted, added]

/-- The additions gain the multisig account and the deletions lose it. -/
theorem cosignatoryOf_changeLinks (separate : Separate modification) {multisig cosignatory : Address} :
    CosignatoryOf (changeLinks modification cache) cosignatory multisig ↔
      if multisig = modification.multisig then
        (CosignatoryOf cache cosignatory multisig ∨ cosignatory ∈ modification.additions) ∧ cosignatory ∉ modification.deletions
      else CosignatoryOf cache cosignatory multisig := by
  by_cases isMultisig : cosignatory = modification.multisig
  · have notAdded := separate.additions
    have notDeleted := separate.deletions
    rw [isMultisig, ← mem_entryOf_multisigs cache]
    simp only [CosignatoryOf, Linked, changeLinks, if_true]
    rw [mem_multisigs_keepLinked]
    simp [notAdded, notDeleted]
  · by_cases deleted : cosignatory ∈ modification.deletions
    · simp only [CosignatoryOf, Linked, changeLinks, isMultisig, deleted, if_true, if_false]
      cases cache cosignatory with
      | none => simp
      | some entry =>
        simp only [Option.bind_some, mem_multisigs_keepLinked]
        simp [unlinkEntry, Finset.mem_erase]
    · by_cases added : cosignatory ∈ modification.additions
      · rw [← mem_entryOf_multisigs cache]
        simp [Linked, changeLinks, isMultisig, deleted, added, linkEntry, or_iff_not_imp_left]
      · simp [Linked, changeLinks, isMultisig, deleted, added]

/-- The settings are changed by the deltas. -/
def changeSettings (modification : MultisigModification) (mode : NotifyMode) (entry : MultisigEntry) : MultisigEntry :=
  { entry with
    minApproval := addDelta entry.minApproval mode modification.minApprovalDelta
    minRemoval := addDelta entry.minRemoval mode modification.minRemovalDelta }

theorem multisigSettingsObserver_commit (modification : MultisigModification) (cache : MultisigCache)
    (address : Address) : multisigSettingsObserver modification .commit cache address =
      if address = modification.multisig then
        (cache modification.multisig).map (changeSettings modification .commit)
      else cache address := by
  unfold multisigSettingsObserver
  cases found : cache modification.multisig with
  | none =>
    by_cases isMultisig : address = modification.multisig <;>
      simp [MultisigCache.contains, found, isMultisig]
  | some entry =>
    by_cases isMultisig : address = modification.multisig <;>
      simp [MultisigCache.contains, found, isMultisig, MultisigCache.modify, getMultisigEntry, changeSettings]

theorem multisigSettingsObserver_rollback (modification : MultisigModification) (cache : MultisigCache)
    (address : Address) : multisigSettingsObserver modification .rollback cache address =
      if address = modification.multisig then
        some (changeSettings modification .rollback (entryOf cache modification.multisig))
      else cache address := by
  by_cases isMultisig : address = modification.multisig <;>
    simp [multisigSettingsObserver, isMultisig, MultisigCache.modify, getMultisigEntry_apply, changeSettings]

/-- The settings have no influence on the links. -/
theorem linked_multisigSettingsObserver {linkedAddresses : MultisigEntry → Finset Address}
    (unchanged : ∀ entry, linkedAddresses (changeSettings modification .commit entry) = linkedAddresses entry)
    {a b : Address} : Linked linkedAddresses (multisigSettingsObserver modification .commit cache) a b ↔
      Linked linkedAddresses cache a b := by
  unfold Linked
  rw [multisigSettingsObserver_commit]
  by_cases isMultisig : a = modification.multisig
  · subst isMultisig
    cases cache modification.multisig <;> simp [unchanged]
  · simp [isMultisig]

end Links

section Steps

variable {config : MultisigConfiguration} {fuel : Nat} {cache next : MultisigCache}
  {modification : MultisigModification}

/-- A validated change of the settings does not wrap. -/
theorem toNat_addDelta {value : UInt32} {delta : Int8} {limit : Nat}
    (positive : 1 ≤ (value.toNat : Int) + delta.toInt) (below : (value.toNat : Int) + delta.toInt ≤ limit)
    (fits : limit < 2 ^ 32) : ((addDelta value .commit delta).toNat : Int) = value.toNat + delta.toInt := by
  simp only [addDelta, UInt32.ofInt, UInt32.toNat_ofNat']
  omega

/-- The settings validator leaves settings that fit the number of cosignatories. -/
theorem settingsFit_of_valid {entry : MultisigEntry} (found : cache modification.multisig = some entry)
    (limited : entry.cosignatoryAddresses.card < 2 ^ 32) (valid : validateMultisigInvalidSettings cache modification = .ok ()) :
    SettingsFit (changeSettings modification .commit entry) := by
  simp only [validateMultisigInvalidSettings, found] at valid
  split at valid
  · cases valid
  · next positive =>
    split at valid
    · cases valid
    · next below =>
      have approval : ((addDelta entry.minApproval .commit modification.minApprovalDelta).toNat : Int) =
          entry.minApproval.toNat + modification.minApprovalDelta.toInt :=
        toNat_addDelta (by omega) (by omega) limited
      have removal : ((addDelta entry.minRemoval .commit modification.minRemovalDelta).toNat : Int) =
          entry.minRemoval.toNat + modification.minRemovalDelta.toInt :=
        toNat_addDelta (by omega) (by omega) limited
      have nonempty : entry.cosignatoryAddresses ≠ ∅ := by
        intro empty
        rw [empty, Finset.card_empty] at below
        omega
      simp only [SettingsFit, changeSettings, nonempty, if_false]
      omega

theorem MultisigGraph.entryOf_address (graph : MultisigGraph config cache) (address : Address) :
    (entryOf cache address).address = address := by
  cases found : cache address with
  | none => simp [entryOf, found, MultisigEntry.create]
  | some entry =>
    rw [entryOf_of_some found]
    exact graph.addressed address entry found

theorem MultisigGraph.entryOf_settings (graph : MultisigGraph config cache) (address : Address) :
    SettingsFit (entryOf cache address) := by
  cases found : cache address with
  | none => simp [entryOf, found, MultisigEntry.create, SettingsFit]
  | some entry =>
    rw [entryOf_of_some found]
    exact graph.settings address entry found

/-- Every other account keeps its cosignatories and its settings. -/
theorem MultisigGraph.changeLinks_other (graph : MultisigGraph config cache) {address : Address}
    {entry : MultisigEntry} (other : address ≠ modification.multisig)
    (found : changeLinks modification cache address = some entry) : entry.isEmpty = false ∧
      ∃ multisigAddresses, entry = { entryOf cache address with multisigAddresses } := by
  simp only [changeLinks, other, if_false] at found
  split at found
  · obtain ⟨old, present, kept⟩ := Option.bind_eq_some_iff.mp found
    obtain ⟨linked, rfl⟩ := keepLinked_eq_some.mp kept
    exact ⟨linked, _, by rw [entryOf_of_some present]; rfl⟩
  · split at found
    · cases found
      exact ⟨by simp [MultisigEntry.isEmpty, linkEntry], _, rfl⟩
    · exact ⟨graph.linked address entry found, entry.multisigAddresses, by rw [entryOf_of_some found]⟩

/-- The multisig account keeps its address. -/
theorem changeLinks_multisig {entry : MultisigEntry} (found : changeLinks modification cache modification.multisig = some entry) :
    entry.isEmpty = false ∧ entry = { entryOf cache modification.multisig with
      cosignatoryAddresses := ((entryOf cache modification.multisig).cosignatoryAddresses ∪
        modification.additions.toFinset) \ modification.deletions.toFinset } := by
  simp only [changeLinks, if_true] at found
  obtain ⟨linked, same⟩ := keepLinked_eq_some.mp found
  exact ⟨same ▸ linked, same.symm⟩

/-- A property of all entries follows from the multisig account and from all other accounts. -/
theorem forall_commit {holds : Address → MultisigEntry → Prop}
    (multisig : ∀ entry, changeLinks modification cache modification.multisig = some entry →
      holds modification.multisig (changeSettings modification .commit entry))
    (others : ∀ address entry, address ≠ modification.multisig →
      changeLinks modification cache address = some entry → holds address entry)
    (address : Address) (entry : MultisigEntry)
    (found : multisigSettingsObserver modification .commit (changeLinks modification cache) address =
      some entry) : holds address entry := by
  rw [multisigSettingsObserver_commit] at found
  by_cases isMultisig : address = modification.multisig
  · rw [if_pos isMultisig] at found
    obtain ⟨old, present, rfl⟩ := Option.map_eq_some_iff.mp found
    exact isMultisig ▸ multisig old present
  · rw [if_neg isMultisig] at found
    exact others address entry isMultisig found

/-- Every accepted modification keeps the graph in shape. -/
theorem MultisigGraph.commit (graph : MultisigGraph config cache)
    (ran : commitModification config fuel cache modification = .ok next) : MultisigGraph config next := by
  obtain ⟨admissible, validSettings, rfl⟩ := commitModification_ok graph ran
  have cosigns : ∀ a b, Cosigns (multisigSettingsObserver modification .commit
      (changeLinks modification cache)) a b ↔ Cosigns (changeLinks modification cache) a b :=
    fun a b => linked_multisigSettingsObserver fun _ => rfl
  have cosignatoryOf : ∀ a b, CosignatoryOf (multisigSettingsObserver modification .commit
      (changeLinks modification cache)) a b ↔ CosignatoryOf (changeLinks modification cache) a b :=
    fun a b => linked_multisigSettingsObserver fun _ => rfl
  have limit := config.maxCosignatoriesPerAccount.toNat_lt
  have limited : ∀ entry, changeLinks modification cache modification.multisig = some entry →
      entry.cosignatoryAddresses.card ≤ config.maxCosignatoriesPerAccount.toNat := by
    intro entry found
    rw [(changeLinks_multisig found).2]
    exact admissible.limited
  constructor
  case addressed =>
    apply forall_commit
    · intro entry found
      rw [(changeLinks_multisig found).2]
      exact graph.entryOf_address modification.multisig
    · intro address entry other found
      obtain ⟨_, links, rfl⟩ := graph.changeLinks_other other found
      exact graph.entryOf_address address
  case symmetric =>
    intro multisig cosignatory
    rw [cosigns, cosignatoryOf, cosigns_changeLinks, cosignatoryOf_changeLinks admissible.separate, graph.symmetric]
  case shallow =>
    refine (graph.shallow.extend admissible.apart admissible.through).anti ?_
    intro multisig cosignatory linked
    rw [cosigns, cosigns_changeLinks] at linked
    split at linked
    · next isMultisig =>
      rcases linked.1 with old | new
      · exact .inl old
      · exact .inr ⟨isMultisig, new⟩
    · exact .inl linked
  case linked =>
    apply forall_commit
    · exact fun entry found => (changeLinks_multisig found).1
    · exact fun address entry other found => (graph.changeLinks_other other found).1
  case settings =>
    apply forall_commit
    · intro entry found
      exact settingsFit_of_valid found (Nat.lt_of_le_of_lt (limited entry found) limit) validSettings
    · intro address entry other found
      obtain ⟨_, links, rfl⟩ := graph.changeLinks_other other found
      exact graph.entryOf_settings address
  case limited =>
    apply forall_commit
    · exact fun entry found => limited entry found
    · intro address entry other found
      obtain ⟨_, links, rfl⟩ := graph.changeLinks_other other found
      exact graph.card_entryOf address

end Steps

section Fuel

variable {config : MultisigConfiguration} {fuel : Nat} {cache : MultisigCache}
  {modification : MultisigModification}

/-- A computation is decided if it does not run out of fuel. -/
def Decided {α : Type} (result : Except MultisigError α) : Prop := result ≠ .error .outOfFuel

theorem Decided.bind {α β : Type} {first : Except MultisigError α} {second : α → Except MultisigError β}
    (decided : Decided first) (continues : ∀ value, Decided (second value)) : Decided (first >>= second) := by
  cases first with
  | error error => exact fun same => decided (congrArg Except.error (Except.error.inj same))
  | ok value => exact continues value

theorem decided_ok {α : Type} (value : α) : Decided (.ok value : Except MultisigError α) :=
  fun same => by cases same

theorem decided_reject {α : Type} (failure : MultisigFailure) :
    Decided (reject failure : Except MultisigError α) := fun same => by cases same

theorem decided_addAll (multisig : Address) (shouldAdd : Bool) (addresses : List Address)
    (cache : MultisigCache) : Decided (addAll multisig shouldAdd addresses cache) := by
  induction addresses generalizing cache with
  | nil => exact decided_ok cache
  | cons cosignatory addresses ih =>
    refine Decided.bind ?_ ih
    cases shouldAdd with
    | true => exact decided_ok _
    | false =>
      change Decided (removeCosignatory multisig cache cosignatory)
      unfold removeCosignatory
      simp only
      split
      · exact fun same => by cases same
      · exact decided_ok _

/-- The loop and level check is decided if the search above and below is. -/
theorem decided_validateMultisigLoopAndLevel {top bottom : Address} {above below : Nat × Finset Address}
    (ancestors : findAncestors cache fuel top {top} = some above)
    (descendants : findDescendants cache fuel bottom {bottom} = some below) :
    Decided (validateMultisigLoopAndLevel config cache fuel top bottom) := by
  unfold validateMultisigLoopAndLevel
  rw [ancestors, descendants]
  obtain ⟨numTopLevels, topAddresses⟩ := above
  obtain ⟨numBottomLevels, bottomAddresses⟩ := below
  simp only [requireFuel, bind, Except.bind]
  split
  · exact decided_reject _
  · split
    · exact decided_reject _
    · exact decided_ok ()

/-- A modification is decided if the searches for its additions are. -/
theorem decided_commitModification (checked : ∀ address, Decided (validateMultisigLoopAndLevel config cache fuel
      modification.multisig address)) :
    Decided (commitModification config fuel cache modification) := by
  have newCosignatories : Decided (validateNewCosignatories config fuel cache modification) := by
    unfold validateNewCosignatories
    generalize modification.additions = additions
    induction additions with
    | nil => exact decided_ok ()
    | cons address additions ih =>
      refine Decided.bind (Decided.bind ?_ fun _ => checked address) fun _ => ih
      unfold validateMultisigMaxCosignedAccounts
      repeat' split
      all_goals first | exact decided_ok _ | exact decided_reject _
  have cosignatories : Decided (commitCosignatories config fuel cache modification) := by
    unfold commitCosignatories
    split
    · refine newCosignatories.bind fun _ => Decided.bind ?_ fun _ => Decided.bind ?_ fun _ =>
        Decided.bind ?_ fun _ => (decided_addAll _ _ _ _).bind fun _ =>
          (decided_addAll _ _ _ _).bind fun _ => decided_ok _
      · unfold validateMultisigCosignatories
        repeat' split
        all_goals first | exact decided_ok _ | exact decided_reject _
      · unfold validateMultisigMaxCosignatories
        simp only
        repeat' split
        all_goals first | exact decided_ok _ | exact decided_reject _
      · unfold validateMultisigInvalidCosignatories
        repeat' split
        all_goals first | exact decided_ok _ | exact decided_reject _
    · exact decided_ok cache
  refine cosignatories.bind fun _ => Decided.bind ?_ fun _ => decided_ok _
  unfold validateMultisigInvalidSettings
  simp only
  repeat' split
  all_goals first | exact decided_ok _ | exact decided_reject _

end Fuel

variable {config : MultisigConfiguration} {cache : MultisigCache}

/-- The graph is acyclic and every recursion over it ends within the maximum depth. -/
structure MultisigRecursions (config : MultisigConfiguration) (cache : MultisigCache) : Prop where
  acyclic : ∀ address, ¬ Relation.TransGen (Cosigns cache) address address
  ancestors : ∀ fuel address addresses, config.maxMultisigDepth.toNat < fuel →
    ∃ result, findAncestors cache fuel address addresses = some result
  descendants : ∀ fuel address addresses, config.maxMultisigDepth.toNat < fuel →
    ∃ result, findDescendants cache fuel address addresses = some result
  satisfied : ∀ cosignatories operationType fuel address, config.maxMultisigDepth.toNat < fuel →
    ∃ result, isSatisfied cosignatories operationType cache fuel address = some result
  eligible : ∀ fuel address cosignatories, config.maxMultisigDepth.toNat < fuel →
    ∃ result, findEligibleCosignatories cache fuel address cosignatories = some result
  decided : ∀ fuel modification, config.maxMultisigDepth.toNat < fuel →
    Decided (commitModification config fuel cache modification)

theorem MultisigGraph.recursions (graph : MultisigGraph config cache) : MultisigRecursions config cache := by
  have below : ∀ fuel address, config.maxMultisigDepth.toNat < fuel → ∀ length b,
      Steps (Cosigns cache) length address b → length < fuel :=
    fun fuel address enough length b path => Nat.lt_of_le_of_lt (graph.shallow length address b path) enough
  have above : ∀ fuel address, config.maxMultisigDepth.toNat < fuel → ∀ length b,
      Steps (CosignatoryOf cache) length address b → length < fuel := by
    intro fuel address enough length b path
    have upwards : Steps (Cosigns cache) length b address :=
      path.flip.mono fun _ _ => (graph.symmetric _ _).mpr
    exact below fuel b enough length address upwards
  have ancestors : ∀ fuel address addresses, config.maxMultisigDepth.toNat < fuel →
      ∃ result, findAncestors cache fuel address addresses = some result :=
    fun fuel address addresses enough => findAll_terminates (above fuel address enough) addresses
  have descendants : ∀ fuel address addresses, config.maxMultisigDepth.toNat < fuel →
      ∃ result, findDescendants cache fuel address addresses = some result :=
    fun fuel address addresses enough => findAll_terminates (below fuel address enough) addresses
  exact {
    acyclic := graph.shallow.acyclic
    ancestors := ancestors
    descendants := descendants
    satisfied := fun _ _ fuel address enough => isSatisfied_terminates (below fuel address enough)
    eligible := fun fuel address cosignatories enough =>
      findEligibleCosignatories_terminates (below fuel address enough) cosignatories
    decided := by
      intro fuel modification enough
      apply decided_commitModification
      intro address
      obtain ⟨_, upwards⟩ := ancestors fuel modification.multisig {modification.multisig} enough
      obtain ⟨_, downwards⟩ := descendants fuel address {address} enough
      exact decided_validateMultisigLoopAndLevel upwards downwards }

/-- Every run of accepted modifications leads to a graph in shape. -/
theorem multisigGraph_of_run {fuel : Nat} {modifications : List MultisigModification}
    (ran : modifications.foldlM (commitModification config fuel) MultisigCache.create = .ok cache) : MultisigGraph config cache :=
  Runs.always (fun _ _ _ graph committed => graph.commit committed) (multisigGraph_create config) ran

/-- In every reachable state the graph is in shape and all recursions over it terminate. -/
theorem reachable_multisigGraph (config : MultisigConfiguration) (fuel : Nat)
    (modifications : List MultisigModification) (cache : MultisigCache)
    (ran : modifications.foldlM (commitModification config fuel) MultisigCache.create = .ok cache) :
    MultisigGraph config cache ∧ MultisigRecursions config cache :=
  ⟨multisigGraph_of_run ran, (multisigGraph_of_run ran).recursions⟩

def sampleConfiguration : MultisigConfiguration := ⟨3, 25, 25⟩

def sampleAddress (byte : UInt8) : Address := Vector.replicate 24 byte

theorem none_counted : ([] : List Address).length < 2 ^ 8 := by decide

/-- The first account becomes a multisig account with the second as its cosignatory. -/
def sampleModification : MultisigModification :=
  ⟨sampleAddress 1, 1, 1, [sampleAddress 2], [], id, by decide, none_counted⟩

def firstCache : MultisigCache := multisigSettingsObserver sampleModification .commit (changeLinks sampleModification MultisigCache.create)

theorem commit_sampleModification :
    commitModification sampleConfiguration 4 MultisigCache.create sampleModification = .ok firstCache :=
  commitModification_of_valid rfl rfl rfl rfl rfl
    ⟨by decide, by decide, fun _ inside => (List.not_mem_nil inside).elim⟩ (by decide)
    (fun _ inside => (List.not_mem_nil inside).elim) rfl

/-- The multisig account becomes the only cosignatory of a third account. -/
def secondModification : MultisigModification :=
  ⟨sampleAddress 3, 1, 1, [sampleAddress 1], [], id, by decide, none_counted⟩

def secondCache : MultisigCache := multisigSettingsObserver secondModification .commit (changeLinks secondModification firstCache)

theorem descendants_firstCache : findDescendants firstCache 4 (sampleAddress 1) {sampleAddress 1} =
    some (1, {sampleAddress 2, sampleAddress 1}) := by
  have top : firstCache (sampleAddress 1) = some ⟨sampleAddress 1, {sampleAddress 2}, 1, 1, ∅⟩ := rfl
  have bottom : firstCache (sampleAddress 2) = some ⟨sampleAddress 2, ∅, 0, 0, {sampleAddress 1}⟩ := rfl
  simp [findDescendants, findAll, top, bottom]

theorem commit_secondModification : commitModification sampleConfiguration 4 firstCache secondModification = .ok secondCache := by
  have valid : validateMultisigLoopAndLevel sampleConfiguration firstCache 4 (sampleAddress 3) (sampleAddress 1) = .ok () := by
    rw [validateMultisigLoopAndLevel, descendants_firstCache]
    rfl
  exact commitModification_of_valid rfl (Runs.bind_eq_ok.mpr ⟨(), Runs.bind_eq_ok.mpr ⟨(), rfl, valid⟩, rfl⟩) rfl rfl rfl
    ⟨by decide, by decide, fun _ inside => (List.not_mem_nil inside).elim⟩ (by decide)
    (fun _ inside => (List.not_mem_nil inside).elim) rfl

theorem run_secondModification : [sampleModification, secondModification].foldlM (commitModification sampleConfiguration 4)
    MultisigCache.create = .ok secondCache :=
  Runs.bind_eq_ok.mpr ⟨_, commit_sampleModification, Runs.bind_eq_ok.mpr ⟨_, commit_secondModification, rfl⟩⟩

/-- The third account loses its only cosignatory. -/
def thirdModification : MultisigModification :=
  ⟨sampleAddress 3, -1, -1, [], [sampleAddress 1], id, none_counted, by decide⟩

def thirdCache : MultisigCache := multisigSettingsObserver thirdModification .commit (changeLinks thirdModification secondCache)

theorem commit_thirdModification : commitModification sampleConfiguration 4 secondCache thirdModification = .ok thirdCache :=
  commitModification_of_valid rfl rfl rfl rfl rfl
    ⟨by decide, by decide, fun _ _ => List.not_mem_nil⟩ (by decide)
    (fun _ inside => by cases List.mem_singleton.mp inside; rfl) rfl

/-- A graph of two levels loses its upper edge. -/
theorem reachable_multisigGraph_sample :
    ∃ cache, [sampleModification, secondModification, thirdModification].foldlM (commitModification sampleConfiguration 4)
        MultisigCache.create = .ok cache ∧
      Cosigns secondCache (sampleAddress 3) (sampleAddress 1) ∧ Cosigns cache (sampleAddress 1) (sampleAddress 2) ∧
      cache (sampleAddress 3) = none ∧ MultisigGraph sampleConfiguration cache ∧ MultisigRecursions sampleConfiguration cache := by
  have ran : [sampleModification, secondModification, thirdModification].foldlM (commitModification sampleConfiguration 4)
      MultisigCache.create = .ok thirdCache := Runs.bind_eq_ok.mpr ⟨_, commit_sampleModification,
    Runs.bind_eq_ok.mpr ⟨_, commit_secondModification, Runs.bind_eq_ok.mpr ⟨_, commit_thirdModification, rfl⟩⟩⟩
  exact ⟨_, ran, ⟨_, rfl, by decide⟩, ⟨_, rfl, by decide⟩, rfl, reachable_multisigGraph sampleConfiguration 4 _ _ ran⟩

end Catapult.Multisig
