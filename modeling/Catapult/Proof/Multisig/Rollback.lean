import Catapult.Proof.Multisig.Graph

/-
This file shows when a rollback restores the multisig cache.
-/

namespace Catapult.Multisig

open Depth

variable {config : MultisigConfiguration} {fuel : Nat} {cache committed : MultisigCache}
  {modification : MultisigModification}

/-- The sums are inverse because both are computed modulo the word size. -/
theorem addDelta_rollback_commit (value : UInt32) (delta : Int8) :
    addDelta (addDelta value .commit delta) .rollback delta = value := by
  apply UInt32.toNat_inj.mp
  have bound := value.toNat_lt
  simp only [addDelta, UInt32.ofInt, UInt32.toNat_ofNat']
  omega

theorem changeSettings_rollback_commit (entry : MultisigEntry) :
    changeSettings modification .rollback (changeSettings modification .commit entry) = entry := by
  simp [changeSettings, addDelta_rollback_commit]

/-- The settings are restored before the links are reverted. -/
theorem restoredSettings_apply (changed : MultisigCache) (address : Address) : multisigSettingsObserver modification .rollback
        (multisigSettingsObserver modification .commit changed) address =
      if address = modification.multisig then
        match changed modification.multisig with
        | none => some (changeSettings modification .rollback (MultisigEntry.create modification.multisig))
        | some entry => some entry
      else changed address := by
  rw [multisigSettingsObserver_rollback]
  by_cases isMultisig : address = modification.multisig
  · cases found : changed modification.multisig <;>
      simp [isMultisig, entryOf, multisigSettingsObserver_commit, found, changeSettings_rollback_commit]
  · simp [isMultisig, multisigSettingsObserver_commit]

theorem unlinkEntry_linkEntry {multisig : Address} {entry : MultisigEntry}
    (absent : multisig ∉ entry.multisigAddresses) : unlinkEntry multisig (linkEntry multisig entry) = entry := by
  simp [unlinkEntry, linkEntry, Finset.erase_insert absent]

theorem linkEntry_unlinkEntry {multisig : Address} {entry : MultisigEntry}
    (present : multisig ∈ entry.multisigAddresses) : linkEntry multisig (unlinkEntry multisig entry) = entry := by
  simp [unlinkEntry, linkEntry, Finset.insert_erase present]

/-- The cache holds exactly the entries with links. -/
theorem MultisigGraph.keepLinked_entryOf (graph : MultisigGraph config cache) (address : Address) :
    keepLinked (entryOf cache address) = cache address := by
  cases found : cache address with
  | none => simp [entryOf, found, keepLinked, MultisigEntry.create, MultisigEntry.isEmpty]
  | some entry =>
    rw [entryOf_of_some found]
    exact keepLinked_eq_some.mpr ⟨graph.linked address entry found, rfl⟩

/-- A new cosignatory is not yet linked to the multisig account. -/
theorem Admissible.unlinked (graph : MultisigGraph config cache)
    (admissible : Admissible config cache modification) {address : Address} (added : address ∈ modification.additions) :
    unlinkEntry modification.multisig (linkEntry modification.multisig (entryOf cache address)) = entryOf cache address := by
  apply unlinkEntry_linkEntry
  rw [mem_entryOf_multisigs, ← graph.symmetric]
  exact admissible.fresh address added

theorem changeLinks_addition (admissible : Admissible config cache modification) {address : Address}
    (added : address ∈ modification.additions) : changeLinks modification cache address =
      some (linkEntry modification.multisig (entryOf cache address)) := by
  have notMultisig : address ≠ modification.multisig :=
    fun same => admissible.separate.additions (same ▸ added)
  have kept : address ∉ modification.deletions :=
    fun deleted => admissible.separate.disjoint address deleted added
  simp [changeLinks, notMultisig, kept, added]

/-- The additions can be unlinked if those that occur twice had an entry before. -/
theorem removable_iff (graph : MultisigGraph config cache)
    (admissible : Admissible config cache modification) {restored : MultisigCache}
    (unchanged : ∀ address, address ≠ modification.multisig → restored address = changeLinks modification cache address) :
    Removable modification.multisig restored modification.additions ↔
      ∀ address, 1 < modification.additions.count address → (cache address).isSome := by
  have found : ∀ address ∈ modification.additions,
      restored address = some (linkEntry modification.multisig (entryOf cache address)) := by
    intro address added
    rw [unchanged address fun same => admissible.separate.additions (same ▸ added), changeLinks_addition admissible added]
  have linked : ∀ address ∈ modification.additions, (unlinkEntry modification.multisig
      (linkEntry modification.multisig (entryOf cache address))).isEmpty = false ↔ (cache address).isSome := by
    intro address added
    rw [admissible.unlinked graph added]
    have kept := graph.keepLinked_entryOf address
    rw [← kept]
    unfold keepLinked
    cases (entryOf cache address).isEmpty <;> simp
  constructor
  · intro removable address repeated
    have added : address ∈ modification.additions := List.count_pos_iff.mp (by omega)
    obtain ⟨entry, present, survives⟩ := removable address added
    rw [found address added, Option.some.injEq] at present
    exact (linked address added).mp (present ▸ survives repeated)
  · intro known address added
    exact ⟨_, found address added, fun repeated => (linked address added).mpr (known address repeated)⟩

/-- The changed sets of cosignatories are inverse to each other. -/
theorem cosignatories_restored {current added deleted : Finset Address} (fresh : Disjoint added current)
    (known : deleted ⊆ current) : ((current ∪ added) \ deleted) \ added ∪ deleted = current := by
  ext address
  have notBoth : address ∈ added → address ∉ current := fun inside => Finset.disjoint_left.mp fresh inside
  have subset : address ∈ deleted → address ∈ current := fun inside => known inside
  simp only [Finset.mem_union, Finset.mem_sdiff]
  tauto

/-- A cosignatory that is deleted and linked again has its old entry. -/
theorem revert_deletion (graph : MultisigGraph config cache)
    (admissible : Admissible config cache modification) {address : Address} {restored : MultisigCache}
    (deleted : address ∈ modification.deletions) (unchanged : restored address = changeLinks modification cache address) :
    some (linkEntry modification.multisig (entryOf restored address)) = cache address := by
  have notMultisig : address ≠ modification.multisig :=
    fun same => admissible.separate.deletions (same ▸ deleted)
  obtain ⟨entry, found, linked⟩ := (graph.symmetric _ _).mp (admissible.deleted address deleted)
  have changed : restored address = keepLinked (unlinkEntry modification.multisig entry) := by
    simp [unchanged, changeLinks, notMultisig, deleted, found]
  rw [found, Option.some.injEq]
  cases empty : (unlinkEntry modification.multisig entry).isEmpty with
  | false =>
    rw [entryOf, changed, keepLinked_eq_some.mpr ⟨empty, rfl⟩, Option.getD_some]
    exact linkEntry_unlinkEntry linked
  | true =>
    -- The entry was dropped, so it had no other link and no settings.
    rw [entryOf, changed, keepLinked, if_pos empty, Option.getD_none]
    obtain ⟨noCosignatories, noOthers⟩ := isEmpty_eq_true.mp empty
    have settings := graph.settings address entry found
    rw [SettingsFit, if_pos (show entry.cosignatoryAddresses = ∅ from noCosignatories)] at settings
    ext1
    · exact (graph.addressed address entry found).symm
    · exact noCosignatories.symm
    · exact settings.1.symm
    · exact settings.2.symm
    · have only : entry.multisigAddresses.erase modification.multisig = ∅ := noOthers
      simp only [linkEntry, MultisigEntry.create]
      rw [← Finset.insert_erase linked, only]

/-- An account that was turned back had the deleted account as its only cosignatory. -/
theorem revert_conversion (graph : MultisigGraph config cache) (admissible : Admissible config cache modification)
    (changes : modification.changesCosignatories = true)
    (valid : validateMultisigInvalidSettings (changeLinks modification cache) modification = .ok ())
    (converted : changeLinks modification cache modification.multisig = none) :
    keepLinked { changeSettings modification .rollback (MultisigEntry.create modification.multisig) with
      cosignatoryAddresses := (∅ \ modification.additions.toFinset) ∪ modification.deletions.toFinset } =
      cache modification.multisig := by
  have deltas : modification.minRemovalDelta = -1 ∧ modification.minApprovalDelta = -1 := by
    simp only [validateMultisigInvalidSettings, converted] at valid
    split at valid
    · cases valid
    · next same =>
      push Not at same
      exact ⟨same.1.symm, same.2.symm⟩
  simp only [changeLinks, if_true, keepLinked] at converted
  split at converted
  · next empty =>
    obtain ⟨noCosignatories, noMultisigs⟩ := isEmpty_eq_true.mp empty
    have removed : ∀ address, (Cosigns cache modification.multisig address ∨
        address ∈ modification.additions) → address ∈ modification.deletions := by
      intro address linked
      by_contra kept
      refine Finset.notMem_empty address (noCosignatories ▸ ?_)
      rw [Finset.mem_sdiff, Finset.mem_union, mem_entryOf_cosignatories, List.mem_toFinset, List.mem_toFinset]
      exact ⟨linked, kept⟩
    have noAdditions : modification.additions = [] := by
      refine List.eq_nil_iff_forall_not_mem.mpr fun address added => ?_
      exact admissible.separate.disjoint address (removed address (.inr added)) added
    have someDeletion : modification.deletions ≠ [] := by
      intro noDeletions
      rw [changesCosignatories_eq_false.mpr ⟨noAdditions, noDeletions⟩] at changes
      cases changes
    have onlyDeletions : (entryOf cache modification.multisig).cosignatoryAddresses = modification.deletions.toFinset := by
      ext address
      rw [mem_entryOf_cosignatories, List.mem_toFinset]
      exact ⟨fun linked => removed address (.inl linked), admissible.deleted address⟩
    have few : (entryOf cache modification.multisig).cosignatoryAddresses.card ≤ 1 :=
      onlyDeletions ▸ (List.toFinset_card_le _).trans admissible.single
    have nonempty : (entryOf cache modification.multisig).cosignatoryAddresses ≠ ∅ := by
      rw [onlyDeletions]
      exact fun empty => someDeletion (List.toFinset_eq_empty_iff _ |>.mp empty)
    -- With a single cosignatory both settings are one, which is what the deltas restore.
    have settings := graph.entryOf_settings modification.multisig
    rw [SettingsFit, if_neg nonempty] at settings
    have one : addDelta 0 .rollback (-1) = 1 := rfl
    rw [← graph.keepLinked_entryOf modification.multisig]
    refine congrArg keepLinked ?_
    ext1
    · exact (graph.entryOf_address modification.multisig).symm
    · simp [onlyDeletions]
    · simp only [changeSettings, MultisigEntry.create, deltas, one]
      exact UInt32.toNat_inj.mp (show 1 = _ by omega)
    · simp only [changeSettings, MultisigEntry.create, deltas, one]
      exact UInt32.toNat_inj.mp (show 1 = _ by omega)
    · exact noMultisigs.symm
  · cases converted

/-- The multisig account gets its old cosignatories and settings back. -/
theorem revert_multisig (graph : MultisigGraph config cache) (admissible : Admissible config cache modification)
    (changes : modification.changesCosignatories = true)
    (valid : validateMultisigInvalidSettings (changeLinks modification cache) modification = .ok ())
    {restored : MultisigCache} (restoredMultisig : restored modification.multisig =
      match changeLinks modification cache modification.multisig with
      | none => some (changeSettings modification .rollback (MultisigEntry.create modification.multisig))
      | some entry => some entry) :
    keepLinked { entryOf restored modification.multisig with
      cosignatoryAddresses := ((entryOf restored modification.multisig).cosignatoryAddresses \
        modification.additions.toFinset) ∪ modification.deletions.toFinset } =
      cache modification.multisig := by
  have fresh : Disjoint modification.additions.toFinset
      (entryOf cache modification.multisig).cosignatoryAddresses := by
    refine Finset.disjoint_left.mpr fun address added linked => ?_
    exact admissible.fresh address (List.mem_toFinset.mp added) ((mem_entryOf_cosignatories cache).mp linked)
  have known : modification.deletions.toFinset ⊆
      (entryOf cache modification.multisig).cosignatoryAddresses := fun address deleted =>
    (mem_entryOf_cosignatories cache).mpr (admissible.deleted address (List.mem_toFinset.mp deleted))
  have sets := cosignatories_restored fresh known
  cases changed : changeLinks modification cache modification.multisig with
  | some entry =>
    obtain ⟨_, same⟩ := changeLinks_multisig changed
    rw [changed] at restoredMultisig
    rw [entryOf_of_some restoredMultisig, same]
    simp only [sets]
    exact graph.keepLinked_entryOf modification.multisig
  | none =>
    rw [changed] at restoredMultisig
    rw [entryOf_of_some restoredMultisig]
    exact revert_conversion graph admissible changes valid changed

/-- Reverting the links restores every entry. -/
theorem revertLinks_restored (graph : MultisigGraph config cache) (admissible : Admissible config cache modification)
    (changes : modification.changesCosignatories = true)
    (valid : validateMultisigInvalidSettings (changeLinks modification cache) modification = .ok ()) :
    revertLinks modification (multisigSettingsObserver modification .rollback
      (multisigSettingsObserver modification .commit (changeLinks modification cache))) = cache := by
  have others : ∀ address, address ≠ modification.multisig →
      multisigSettingsObserver modification .rollback (multisigSettingsObserver modification .commit
        (changeLinks modification cache)) address = changeLinks modification cache address :=
    fun address other => (restoredSettings_apply _ address).trans (if_neg other)
  funext address
  unfold revertLinks
  by_cases isMultisig : address = modification.multisig
  · rw [if_pos isMultisig, isMultisig]
    exact revert_multisig graph admissible changes valid
      ((restoredSettings_apply _ _).trans (if_pos rfl))
  · rw [if_neg isMultisig]
    by_cases deleted : address ∈ modification.deletions
    · rw [if_pos deleted]
      exact revert_deletion graph admissible deleted (others address isMultisig)
    · rw [if_neg deleted, others address isMultisig]
      by_cases added : address ∈ modification.additions
      · rw [if_pos added, changeLinks_addition admissible added, Option.bind_some, admissible.unlinked graph added]
        exact graph.keepLinked_entryOf address
      · rw [if_neg added]
        simp [changeLinks, isMultisig, deleted, added]

/-- The multisig account is found again and no new account is listed twice. -/
def Restorable (cache : MultisigCache) (modification : MultisigModification) : Prop :=
  (modification.changesCosignatories = true ∨ (cache modification.multisig).isSome) ∧
    ∀ address, 1 < modification.additions.count address → (cache address).isSome

/-- The rollback of an accepted modification restores the cache just if the modification is restorable. -/
theorem rollback_restores_iff (modifications : List MultisigModification)
    (ran : modifications.foldlM (commitModification config fuel) MultisigCache.create = .ok cache)
    (accepted : commitModification config fuel cache modification = .ok committed) :
    rollbackModification committed modification = .ok cache ↔ Restorable cache modification := by
  have graph := multisigGraph_of_run ran
  obtain ⟨admissible, valid, rfl⟩ := commitModification_ok graph accepted
  unfold rollbackModification Restorable
  cases changes : modification.changesCosignatories with
  | true =>
    have removable := removable_iff graph admissible
      (fun address other => (restoredSettings_apply _ address).trans (if_neg other))
    rw [if_pos rfl, multisigCosignatoriesObserver_rollback admissible.separate, removable,
      revertLinks_restored graph admissible changes valid]
    simp
  | false =>
    obtain ⟨noAdditions, noDeletions⟩ := changesCosignatories_eq_false.mp changes
    rw [graph.changeLinks_nil noAdditions noDeletions, noAdditions]
    have restored : multisigSettingsObserver modification .rollback
        (multisigSettingsObserver modification .commit cache) = cache ↔ (cache modification.multisig).isSome := by
      rw [funext_iff]
      constructor
      · intro same
        rw [← same modification.multisig, restoredSettings_apply, if_pos rfl]
        cases cache modification.multisig <;> rfl
      · intro present address
        obtain ⟨entry, found⟩ := Option.isSome_iff_exists.mp present
        rw [restoredSettings_apply]
        by_cases isMultisig : address = modification.multisig <;> simp [isMultisig, found]
    simp [restored]

/-- A modification without changes is accepted for an account without an entry. -/
def emptyModification : MultisigModification :=
  ⟨sampleAddress 1, -1, -1, [], [], id, none_counted, none_counted⟩

/-- The alias of the second account is resolved when the modification is executed. -/
def aliasModification : MultisigModification :=
  ⟨sampleAddress 1, 1, 1, [sampleAddress 2, sampleAddress 3], [], fun _ => sampleAddress 2,
    by decide, none_counted⟩

theorem commit_emptyModification : commitModification sampleConfiguration 4 MultisigCache.create emptyModification =
      .ok MultisigCache.create := by
  rfl

theorem commit_aliasModification : commitModification sampleConfiguration 4 MultisigCache.create aliasModification =
      .ok (multisigSettingsObserver aliasModification .commit
        (changeLinks aliasModification MultisigCache.create)) :=
  commitModification_of_valid rfl rfl rfl rfl rfl
    ⟨by decide, by decide, fun _ inside => (List.not_mem_nil inside).elim⟩ (by decide)
    (fun _ inside => (List.not_mem_nil inside).elim) rfl

/-- A rollback invents an entry, and another one finds no entry for an account that is listed twice. -/
theorem rollback_not_restored :
    (∃ committed, commitModification sampleConfiguration 4 MultisigCache.create emptyModification = .ok committed ∧
      ∃ restored, rollbackModification committed emptyModification = .ok restored ∧ restored ≠ MultisigCache.create) ∧
    ∃ committed, commitModification sampleConfiguration 4 MultisigCache.create aliasModification = .ok committed ∧
      ∃ error, rollbackModification committed aliasModification = .error error := by
  refine ⟨⟨_, commit_emptyModification, _, rfl, fun same => ?_⟩, _, commit_aliasModification, ?_⟩
  · have invented := congrFun same emptyModification.multisig
    rw [multisigSettingsObserver_rollback, if_pos rfl] at invented
    cases invented
  · have graph := multisigGraph_create sampleConfiguration
    obtain ⟨admissible, _, _⟩ := commitModification_ok graph commit_aliasModification
    cases rolledBack : rollbackModification (multisigSettingsObserver aliasModification .commit
        (changeLinks aliasModification MultisigCache.create)) aliasModification with
    | error error => exact ⟨error, rfl⟩
    | ok restored =>
      have removable := ((multisigCosignatoriesObserver_rollback admissible.separate).mp rolledBack).1
      rw [removable_iff graph admissible fun address other =>
        (restoredSettings_apply _ address).trans (if_neg other)] at removable
      have known := removable (sampleAddress 2) (by decide)
      cases known

/-- The rollback of the deletion restores the upper edge of the graph. -/
theorem rollback_restores_sample :
    ∃ committed, commitModification sampleConfiguration 4 secondCache thirdModification = .ok committed ∧
      committed (sampleAddress 3) = none ∧ rollbackModification committed thirdModification = .ok secondCache :=
  ⟨_, commit_thirdModification, rfl, (rollback_restores_iff [sampleModification, secondModification] run_secondModification
    commit_thirdModification).mpr ⟨.inl rfl, fun _ repeated => absurd repeated (Nat.not_lt_zero 1)⟩⟩

end Catapult.Multisig
