import Catapult.Construction.Multisig.MultisigModification
import Catapult.Library.Runs

/-
This file says what the multisig observers do to every entry of the cache.
-/

namespace Catapult.Multisig

/-- An account without an entry is treated like an account with a new entry. -/
def entryOf (cache : MultisigCache) (address : Address) : MultisigEntry :=
  (cache address).getD (MultisigEntry.create address)

def linkEntry (multisig : Address) (entry : MultisigEntry) : MultisigEntry :=
  { entry with multisigAddresses := insert multisig entry.multisigAddresses }

def unlinkEntry (multisig : Address) (entry : MultisigEntry) : MultisigEntry :=
  { entry with multisigAddresses := entry.multisigAddresses.erase multisig }

/-- An entry is kept only if it has links. -/
def keepLinked (entry : MultisigEntry) : Option MultisigEntry :=
  if entry.isEmpty then none else some entry

theorem isEmpty_eq_true {entry : MultisigEntry} :
    entry.isEmpty = true ↔ entry.cosignatoryAddresses = ∅ ∧ entry.multisigAddresses = ∅ := by
  simp [MultisigEntry.isEmpty]

@[simp]
theorem linkEntry_linkEntry (multisig : Address) (entry : MultisigEntry) :
    linkEntry multisig (linkEntry multisig entry) = linkEntry multisig entry := by
  simp [linkEntry]

@[simp]
theorem unlinkEntry_unlinkEntry (multisig : Address) (entry : MultisigEntry) :
    unlinkEntry multisig (unlinkEntry multisig entry) = unlinkEntry multisig entry := by
  simp [unlinkEntry]

theorem keepLinked_eq_some {entry kept : MultisigEntry} :
    keepLinked entry = some kept ↔ entry.isEmpty = false ∧ entry = kept := by
  unfold keepLinked
  cases entry.isEmpty <;> simp

theorem entryOf_of_some {cache : MultisigCache} {address : Address} {entry : MultisigEntry}
    (found : cache address = some entry) : entryOf cache address = entry := by
  rw [entryOf, found, Option.getD_some]

theorem getMultisigEntry_apply (cache : MultisigCache) (address other : Address) : getMultisigEntry cache address other =
      if other = address then some (entryOf cache address) else cache other := by
  unfold getMultisigEntry MultisigCache.contains entryOf
  by_cases same : other = address
  · subst same
    cases found : cache other <;> simp [found]
  · cases found : cache address <;> simp [same]

theorem removeIfEmpty_apply (cache : MultisigCache) (address other : Address) : removeIfEmpty cache address other =
      if other = address then (cache address).bind keepLinked else cache other := by
  unfold removeIfEmpty keepLinked
  cases found : cache address with
  | none =>
    by_cases same : other = address
    · simp [same, found]
    · simp [same]
  | some entry =>
    by_cases same : other = address
    · subst same
      cases empty : entry.isEmpty <;> simp [found, empty]
    · cases empty : entry.isEmpty <;> simp [empty, same]

section Cosignatories

variable {cache : MultisigCache} {multisig : Address} {entry : MultisigEntry}

theorem addCosignatory_apply {cosignatory : Address} (different : cosignatory ≠ multisig)
    (found : cache multisig = some entry) (address : Address) : addCosignatory multisig cache cosignatory address =
      if address = multisig then
        some { entry with cosignatoryAddresses := insert cosignatory entry.cosignatoryAddresses }
      else if address = cosignatory then some (linkEntry multisig (entryOf cache cosignatory))
      else cache address := by
  unfold addCosignatory MultisigCache.modify
  by_cases isMultisig : address = multisig
  · subst isMultisig
    simp [different.symm, getMultisigEntry_apply, found]
  · by_cases isCosignatory : address = cosignatory
    · subst isCosignatory
      simp [isMultisig, getMultisigEntry_apply, linkEntry]
    · simp [isMultisig, isCosignatory, getMultisigEntry_apply]

/-- A list of accounts is linked to the multisig account, which has an entry. -/
def linkAll (multisig : Address) (entry : MultisigEntry) (addresses : List Address)
    (cache : MultisigCache) : MultisigCache := fun address =>
  if address = multisig then
    some { entry with cosignatoryAddresses := entry.cosignatoryAddresses ∪ addresses.toFinset }
  else if address ∈ addresses then some (linkEntry multisig (entryOf cache address))
  else cache address

/-- A list of accounts is unlinked from the multisig account, which has an entry. -/
def unlinkAll (multisig : Address) (entry : MultisigEntry) (addresses : List Address)
    (cache : MultisigCache) : MultisigCache := fun address =>
  if address = multisig then
    some { entry with cosignatoryAddresses := entry.cosignatoryAddresses \ addresses.toFinset }
  else if address ∈ addresses then
    (cache address).bind fun linked => keepLinked (unlinkEntry multisig linked)
  else cache address

/-- All additions are linked. -/
theorem addAll_true {addresses : List Address} (different : multisig ∉ addresses) (found : cache multisig = some entry) :
    addAll multisig true addresses cache = .ok (linkAll multisig entry addresses cache) := by
  induction addresses generalizing cache entry with
  | nil =>
    refine congrArg Except.ok (funext fun address => ?_)
    by_cases isMultisig : address = multisig <;> simp [linkAll, isMultisig, found]
  | cons cosignatory addresses ih =>
    obtain ⟨notFirst, notRest⟩ := List.ne_and_not_mem_of_not_mem_cons different
    have added := addCosignatory_apply notFirst.symm found
    have linked := ih notRest ((added multisig).trans (if_pos rfl))
    refine linked.trans (congrArg Except.ok (funext fun address => ?_))
    unfold linkAll
    by_cases isMultisig : address = multisig
    · simp [isMultisig, Finset.insert_union]
    · by_cases isFirst : address = cosignatory
      · subst isFirst
        simp [isMultisig, added, entryOf]
      · simp [isMultisig, isFirst, added, entryOf]

/-- A cosignatory with an entry is unlinked, and its entry is dropped if it has no other links. -/
theorem removeCosignatory_eq {cosignatory : Address} (different : cosignatory ≠ multisig)
    (found : cache multisig = some entry) : removeCosignatory multisig cache cosignatory =
      match cache cosignatory with
      | none => .error (.notInCache cosignatory)
      | some linked => .ok fun address =>
        if address = multisig then
          some { entry with cosignatoryAddresses := entry.cosignatoryAddresses.erase cosignatory }
        else if address = cosignatory then keepLinked (unlinkEntry multisig linked)
        else cache address := by
  unfold removeCosignatory MultisigCache.modify
  simp only [Function.update_of_ne different]
  cases linked : cache cosignatory with
  | none => rfl
  | some linkedEntry =>
    refine congrArg Except.ok (funext fun address => ?_)
    rw [removeIfEmpty_apply]
    by_cases isMultisig : address = multisig
    · subst isMultisig
      simp [different.symm, found]
    · by_cases isCosignatory : address = cosignatory
      · subst isCosignatory
        simp [isMultisig, unlinkEntry]
      · simp [isMultisig, isCosignatory]

/-- A list of accounts can be unlinked if each has an entry that survives until its last removal. -/
def Removable (multisig : Address) (cache : MultisigCache) (addresses : List Address) : Prop :=
  ∀ address ∈ addresses, ∃ linked, cache address = some linked ∧
    (1 < addresses.count address → (unlinkEntry multisig linked).isEmpty = false)

/-- After the first removal an account that occurs again must still have an entry. -/
theorem removable_cons {cosignatory : Address} {addresses : List Address} {linked : MultisigEntry}
    {removed : MultisigCache} (present : cache cosignatory = some linked)
    (first : removed cosignatory = keepLinked (unlinkEntry multisig linked))
    (others : ∀ address ∈ addresses, address ≠ cosignatory → removed address = cache address) :
    Removable multisig cache (cosignatory :: addresses) ↔ Removable multisig removed addresses := by
  constructor
  · intro removable address inside
    obtain ⟨entry, found, survives⟩ := removable address (List.mem_cons_of_mem _ inside)
    by_cases same : address = cosignatory
    · subst same
      cases present.symm.trans found
      have again : 1 < (address :: addresses).count address := by
        rw [List.count_cons_self]
        exact Nat.succ_lt_succ (List.count_pos_iff.mpr inside)
      refine ⟨unlinkEntry multisig linked, ?_, fun _ => ?_⟩
      · rw [first]
        exact keepLinked_eq_some.mpr ⟨survives again, rfl⟩
      · rw [unlinkEntry_unlinkEntry]
        exact survives again
    · refine ⟨entry, (others address inside same).trans found, fun repeated => survives ?_⟩
      rwa [List.count_cons_of_ne (Ne.symm same)]
  · intro removable address inside
    by_cases same : address = cosignatory
    · subst same
      refine ⟨linked, present, fun repeated => ?_⟩
      rw [List.count_cons_self] at repeated
      have again : address ∈ addresses := List.count_pos_iff.mp (by omega)
      obtain ⟨entry, found, _⟩ := removable address again
      rw [first] at found
      exact (keepLinked_eq_some.mp found).1
    · have later := (List.mem_cons.mp inside).resolve_left same
      obtain ⟨entry, found, survives⟩ := removable address later
      refine ⟨entry, (others address later same).symm.trans found, fun repeated => survives ?_⟩
      rwa [List.count_cons_of_ne (Ne.symm same)] at repeated

theorem keepLinked_bind_unlinkEntry (entry : MultisigEntry) : (keepLinked (unlinkEntry multisig entry)).bind
        (fun linked => keepLinked (unlinkEntry multisig linked)) =
      keepLinked (unlinkEntry multisig entry) := by
  cases kept : keepLinked (unlinkEntry multisig entry) with
  | none => rfl
  | some linked =>
    obtain ⟨linkedElsewhere, rfl⟩ := keepLinked_eq_some.mp kept
    rw [Option.bind_some, unlinkEntry_unlinkEntry, kept]

/-- All removable accounts are unlinked from the multisig account. -/
theorem addAll_false {addresses : List Address} {next : MultisigCache} (different : multisig ∉ addresses)
    (found : cache multisig = some entry) : addAll multisig false addresses cache = .ok next ↔
      Removable multisig cache addresses ∧ next = unlinkAll multisig entry addresses cache := by
  induction addresses generalizing cache entry with
  | nil =>
    have same : unlinkAll multisig entry [] cache = cache := by
      funext address
      by_cases isMultisig : address = multisig <;> simp [unlinkAll, isMultisig, found]
    rw [same]
    constructor
    · intro ran
      cases ran
      exact ⟨fun _ inside => (List.not_mem_nil inside).elim, rfl⟩
    · rintro ⟨_, rfl⟩
      rfl
  | cons cosignatory addresses ih =>
    obtain ⟨notFirst, notRest⟩ := List.ne_and_not_mem_of_not_mem_cons different
    have removed := removeCosignatory_eq notFirst.symm found
    cases present : cache cosignatory with
    | none =>
      rw [present] at removed
      constructor
      · intro ran
        obtain ⟨_, stepped, _⟩ := Runs.bind_eq_ok.mp ran
        cases removed.symm.trans stepped
      · rintro ⟨removable, _⟩
        obtain ⟨linked, linkedFound, _⟩ := removable cosignatory List.mem_cons_self
        cases present.symm.trans linkedFound
    | some linked =>
      rw [present] at removed
      have continued : addAll multisig false (cosignatory :: addresses) cache =
          (removeCosignatory multisig cache cosignatory >>= addAll multisig false addresses) := rfl
      rw [continued, removed]
      refine (ih notRest (if_pos rfl)).trans (and_congr ?_ ?_)
      · refine (removable_cons present ?_ ?_).symm
        · simp [notFirst.symm]
        · intro address inside other
          have notMultisig : address ≠ multisig := fun same => notRest (same ▸ inside)
          simp [notMultisig, other]
      · refine Eq.congr rfl (funext fun address => ?_)
        unfold unlinkAll
        by_cases isMultisig : address = multisig
        · have sets : entry.cosignatoryAddresses.erase cosignatory \ addresses.toFinset =
              entry.cosignatoryAddresses \ insert cosignatory addresses.toFinset := by
            ext other
            simp only [Finset.mem_sdiff, Finset.mem_erase, Finset.mem_insert]
            tauto
          simp [isMultisig, sets]
        · by_cases isFirst : address = cosignatory
          · subst isFirst
            by_cases again : address ∈ addresses <;>
              simp [isMultisig, again, present, keepLinked_bind_unlinkEntry]
          · simp [isMultisig, isFirst]

end Cosignatories

variable {modification : MultisigModification} {cache next : MultisigCache}

/-- The additions are linked and the deletions are unlinked. -/
def changeLinks (modification : MultisigModification) (cache : MultisigCache) : MultisigCache :=
  fun address =>
    if address = modification.multisig then
      keepLinked { entryOf cache modification.multisig with
        cosignatoryAddresses := ((entryOf cache modification.multisig).cosignatoryAddresses ∪
          modification.additions.toFinset) \ modification.deletions.toFinset }
    else if address ∈ modification.deletions then
      (cache address).bind fun linked => keepLinked (unlinkEntry modification.multisig linked)
    else if address ∈ modification.additions then
      some (linkEntry modification.multisig (entryOf cache address))
    else cache address

/-- The additions are unlinked and the deletions are linked again. -/
def revertLinks (modification : MultisigModification) (cache : MultisigCache) : MultisigCache :=
  fun address =>
    if address = modification.multisig then
      keepLinked { entryOf cache modification.multisig with
        cosignatoryAddresses := ((entryOf cache modification.multisig).cosignatoryAddresses \
          modification.additions.toFinset) ∪ modification.deletions.toFinset }
    else if address ∈ modification.deletions then
      some (linkEntry modification.multisig (entryOf cache address))
    else if address ∈ modification.additions then
      (cache address).bind fun linked => keepLinked (unlinkEntry modification.multisig linked)
    else cache address

/-- The changed accounts differ from each other and from the multisig account. -/
structure Separate (modification : MultisigModification) : Prop where
  additions : modification.multisig ∉ modification.additions
  deletions : modification.multisig ∉ modification.deletions
  disjoint : ∀ address ∈ modification.deletions, address ∉ modification.additions

theorem multisigCosignatoriesObserver_commit (separate : Separate modification) (single : modification.deletions.length ≤ 1)
    (present : ∀ address ∈ modification.deletions, (cache address).isSome) :
    multisigCosignatoriesObserver modification .commit cache = .ok (changeLinks modification cache) := by
  have opened : getMultisigEntry cache modification.multisig modification.multisig =
      some (entryOf cache modification.multisig) := (getMultisigEntry_apply _ _ _).trans (if_pos rfl)
  have added := addAll_true separate.additions opened
  have unchanged : ∀ address ∈ modification.deletions, linkAll modification.multisig
      (entryOf cache modification.multisig) modification.additions
      (getMultisigEntry cache modification.multisig) address = cache address := by
    intro address inside
    have notMultisig : address ≠ modification.multisig := fun same => separate.deletions (same ▸ inside)
    simp [linkAll, notMultisig, separate.disjoint address inside, getMultisigEntry_apply]
  have removable : Removable modification.multisig (linkAll modification.multisig
      (entryOf cache modification.multisig) modification.additions
      (getMultisigEntry cache modification.multisig)) modification.deletions := by
    intro address inside
    obtain ⟨linked, found⟩ := Option.isSome_iff_exists.mp (present address inside)
    refine ⟨linked, (unchanged address inside).trans found, fun repeated => ?_⟩
    have few : modification.deletions.count address ≤ modification.deletions.length :=
      List.count_le_length
    omega
  have removed := (addAll_false separate.deletions (if_pos rfl)).mpr ⟨removable, rfl⟩
  refine Runs.bind_eq_ok.mpr ⟨_, added, Runs.bind_eq_ok.mpr ⟨_, removed, congrArg Except.ok (funext fun address => ?_)⟩⟩
  rw [removeIfEmpty_apply]
  by_cases isMultisig : address = modification.multisig
  · simp [changeLinks, unlinkAll, isMultisig]
  · by_cases deleted : address ∈ modification.deletions
    · simp [changeLinks, unlinkAll, isMultisig, deleted, unchanged address deleted]
    · simp [changeLinks, unlinkAll, linkAll, isMultisig, deleted, getMultisigEntry_apply, entryOf]

theorem multisigCosignatoriesObserver_rollback (separate : Separate modification) :
    multisigCosignatoriesObserver modification .rollback cache = .ok next ↔
      Removable modification.multisig cache modification.additions ∧ next = revertLinks modification cache := by
  have opened : getMultisigEntry cache modification.multisig modification.multisig =
      some (entryOf cache modification.multisig) := (getMultisigEntry_apply _ _ _).trans (if_pos rfl)
  have sameEntries : ∀ address, address ≠ modification.multisig →
      getMultisigEntry cache modification.multisig address = cache address :=
    fun address different => (getMultisigEntry_apply _ _ _).trans (if_neg different)
  have sameRemovable : Removable modification.multisig (getMultisigEntry cache modification.multisig)
      modification.additions ↔ Removable modification.multisig cache modification.additions := by
    refine forall₂_congr fun address inside => ?_
    rw [sameEntries address fun same => separate.additions (same ▸ inside)]
  have reverted : removeIfEmpty (linkAll modification.multisig
      { entryOf cache modification.multisig with
        cosignatoryAddresses := (entryOf cache modification.multisig).cosignatoryAddresses \
          modification.additions.toFinset }
      modification.deletions (unlinkAll modification.multisig (entryOf cache modification.multisig)
        modification.additions (getMultisigEntry cache modification.multisig)))
      modification.multisig = revertLinks modification cache := by
    funext address
    rw [removeIfEmpty_apply]
    by_cases isMultisig : address = modification.multisig
    · simp [revertLinks, linkAll, isMultisig]
    · by_cases deleted : address ∈ modification.deletions
      · simp [revertLinks, linkAll, unlinkAll, isMultisig, deleted, entryOf, sameEntries, separate.disjoint address deleted]
      · simp [revertLinks, linkAll, unlinkAll, isMultisig, deleted, sameEntries]
  constructor
  · intro ran
    obtain ⟨removed, unlinked, rest⟩ := Runs.bind_eq_ok.mp ran
    obtain ⟨changed, linked, same⟩ := Runs.bind_eq_ok.mp rest
    obtain ⟨removable, rfl⟩ := (addAll_false separate.additions opened).mp unlinked
    cases (addAll_true separate.deletions (if_pos rfl)).symm.trans linked
    cases same
    exact ⟨sameRemovable.mp removable, reverted⟩
  · rintro ⟨removable, rfl⟩
    have removed := (addAll_false separate.additions opened).mpr ⟨sameRemovable.mpr removable, rfl⟩
    exact Runs.bind_eq_ok.mpr ⟨_, removed, Runs.bind_eq_ok.mpr
      ⟨_, addAll_true separate.deletions (if_pos rfl), congrArg Except.ok reverted⟩⟩

end Catapult.Multisig
