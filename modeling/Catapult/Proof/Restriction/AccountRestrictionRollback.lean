import Catapult.Construction.Restriction.AccountRestriction
import Catapult.Library.Runs
import Catapult.Library.Totals

/-
This file proves that account restrictions are restored by the rollback of the transactions that changed them.
-/

namespace Catapult.Restrictions

open Lock (NotifyMode ResolverContext)

namespace RestrictionKey

/-- The descriptor of a restriction with the given operation type. -/
def descriptor (key : RestrictionKey) : AccountRestrictionOperationType → AccountRestrictionFlags
  | .allow => key.flags
  | .block => key.flags ||| blockFlag

theorem directional_descriptor (key : RestrictionKey) (type : AccountRestrictionOperationType) :
    directionalRestrictionFlags (key.descriptor type) = key.flags := by
  cases key <;> cases type <;> decide

theorem operationType_descriptor (key : RestrictionKey) (type : AccountRestrictionOperationType) :
    operationType (key.descriptor type) = type := by
  cases key <;> cases type <;> decide

end RestrictionKey

/-- A restriction with an operation type and values. -/
def restrictionOf (key : RestrictionKey) (type : AccountRestrictionOperationType) (values : Finset RawValue) : AccountRestriction :=
  ⟨key.descriptor type, key.valueSize, values⟩

/-- Restrictions without values are blocking ones. -/
def settledType (type : AccountRestrictionOperationType) (values : Finset RawValue) : AccountRestrictionOperationType :=
  if values = ∅ then .block else type

def modifiedValues (values : Finset RawValue) (modification : AccountRestrictionModification) : Finset RawValue :=
  match modification.modificationAction with
  | .add => insert modification.value values
  | .del => values.erase modification.value

def applyModification (restriction : AccountRestriction) (type : AccountRestrictionOperationType)
    (modification : AccountRestrictionModification) : Except RestrictionError AccountRestriction :=
  match type with
  | .allow => restriction.allow modification
  | .block => restriction.block modification

section Values

variable {key : RestrictionKey} {current type : AccountRestrictionOperationType} {values : Finset RawValue}
  {modification : AccountRestrictionModification}

theorem update_restrictionOf (descriptor : AccountRestrictionFlags) (sized : modification.value.length = key.valueSize) :
    AccountRestriction.update ⟨descriptor, key.valueSize, values⟩ modification =
      .ok ⟨descriptor, key.valueSize, modifiedValues values modification⟩ := by
  rw [AccountRestriction.update, if_neg (not_not.mpr sized.symm), modifiedValues]
  cases modification.modificationAction <;> rfl

/-- The result of a modification only depends on the values and the operation type. -/
theorem applyModification_eq (sized : modification.value.length = key.valueSize) :
    applyModification (restrictionOf key current values) type modification =
      .ok (restrictionOf key (settledType type (modifiedValues values modification)) (modifiedValues values modification)) := by
  cases type with
  | allow =>
    rw [applyModification, restrictionOf, AccountRestriction.allow, update_restrictionOf _ sized, Except.map, settledType]
    dsimp only
    rw [key.directional_descriptor]
    split <;> rfl
  | block =>
    rw [applyModification, restrictionOf, AccountRestriction.block, settledType, ite_self]
    dsimp only
    rw [key.directional_descriptor]
    exact update_restrictionOf _ sized

theorem applyModification_sized {restriction changed : AccountRestriction}
    (applied : applyModification restriction type modification = .ok changed) :
    restriction.restrictionValueSize = modification.value.length := by
  by_contra other
  have fails (restriction : AccountRestriction) (differs : restriction.restrictionValueSize ≠ modification.value.length) :
      ∃ error, restriction.update modification = .error error := ⟨_, if_pos differs⟩
  cases type with
  | allow =>
    obtain ⟨error, failed⟩ := fails restriction other
    rw [applyModification, AccountRestriction.allow, failed] at applied
    cases applied
  | block =>
    obtain ⟨error, failed⟩ := fails { restriction with
      restrictionDescriptor := directionalRestrictionFlags restriction.restrictionDescriptor ||| blockFlag } other
    rw [applyModification, AccountRestriction.block, failed] at applied
    cases applied

/-- A modification changes the values. -/
def Changes (values : Finset RawValue) (modification : AccountRestrictionModification) : Prop :=
  match modification.modificationAction with
  | .add => modification.value ∉ values
  | .del => modification.value ∈ values

def invert (modification : AccountRestrictionModification) : AccountRestrictionModification :=
  { modification with modificationAction := invertModificationAction modification.modificationAction }

theorem modifiedValues_invert (changes : Changes values modification) :
    modifiedValues (modifiedValues values modification) (invert modification) = values := by
  obtain ⟨action, value⟩ := modification
  cases action with
  | add => exact Finset.erase_insert changes
  | del => exact Finset.insert_erase changes

theorem card_modifiedValues (changes : Changes values modification) : match modification.modificationAction with
    | .add => (modifiedValues values modification).card = values.card + 1
    | .del => (modifiedValues values modification).card + 1 = values.card := by
  obtain ⟨action, value⟩ := modification
  cases action with
  | add => exact Finset.card_insert_of_notMem changes
  | del => exact Finset.card_erase_add_one changes

theorem isOperationAllowed_eq : (restrictionOf key current values).isOperationAllowed modification type = .ok true ↔
      modification.value.length = key.valueSize ∧ (values = ∅ ∨ current = type) ∧ Changes values modification := by
  rw [AccountRestriction.isOperationAllowed, restrictionOf]
  dsimp only
  rw [key.operationType_descriptor]
  by_cases sized : key.valueSize = modification.value.length
  · rw [if_neg (not_not.mpr sized), Except.ok.injEq, Bool.and_eq_true, Bool.or_eq_true, decide_eq_true_iff, decide_eq_true_iff,
      eq_comm (a := type)]
    obtain ⟨action, value⟩ := modification
    cases action with
    | add =>
      rw [decide_eq_true_iff]
      exact ⟨fun allowed => ⟨sized.symm, allowed⟩, fun allowed => allowed.2⟩
    | del =>
      rw [decide_eq_true_iff]
      exact ⟨fun allowed => ⟨sized.symm, allowed⟩, fun allowed => allowed.2⟩
  · rw [if_pos sized]
    exact iff_of_false nofun fun allowed => sized allowed.1.symm

end Values

section Entries

variable {cache : AccountRestrictionCache} {address : Address} {restrictions : AccountRestrictions} {key : RestrictionKey}

/-- Every restriction has a settled operation type. -/
def Settled (restrictions : AccountRestrictions) : Prop :=
  ∀ key, ∃ type, restrictions.restrictions key =
    restrictionOf key (settledType type (restrictions.restrictions key).values) (restrictions.restrictions key).values

/-- Entries have values and settled restrictions. -/
def Sound (cache : AccountRestrictionCache) : Prop :=
  ∀ address restrictions, cache.lookup address = some restrictions →
    restrictions.address = address ∧ restrictions.isEmpty = false ∧ Settled restrictions

/-- The entry of an account, or a new one. -/
def entryOf (cache : AccountRestrictionCache) (address : Address) : AccountRestrictions :=
  (cache.lookup address).getD (.create address)

/-- An entry is stored if it has values. -/
def put (cache : AccountRestrictionCache) (address : Address) (restrictions : AccountRestrictions) : AccountRestrictionCache :=
  if restrictions.isEmpty then cache.erase address else cache.insert address restrictions

theorem create_isEmpty (address : Address) : (AccountRestrictions.create address).isEmpty = true :=
  decide_eq_true fun _ => rfl

theorem create_settled (address : Address) : Settled (.create address) := fun _ => ⟨.block, rfl⟩

theorem Settled.eq_create (settled : Settled restrictions) (empty : restrictions.isEmpty = true) :
    restrictions = .create restrictions.address := by
  obtain ⟨address, restrictionsByKey⟩ := restrictions
  have none := of_decide_eq_true empty
  refine congrArg (AccountRestrictions.mk address) (funext fun key => ?_)
  obtain ⟨type, eq⟩ := settled key
  dsimp only at eq none ⊢
  rw [eq, none key]
  rfl

theorem Sound.entryOf (sound : Sound cache) (address : Address) :
    (entryOf cache address).address = address ∧ Settled (entryOf cache address) := by
  unfold Restrictions.entryOf
  cases found : cache.lookup address with
  | none => exact ⟨rfl, create_settled address⟩
  | some restrictions =>
    obtain ⟨sameAddress, _, settled⟩ := sound address restrictions found
    exact ⟨sameAddress, settled⟩

theorem Sound.put_entryOf (sound : Sound cache) (address : Address) : put cache address (Restrictions.entryOf cache address) = cache := by
  unfold Restrictions.entryOf put
  cases found : cache.lookup address with
  | none =>
    rw [Option.getD_none, if_pos (create_isEmpty address)]
    refine Finmap.ext_lookup fun other => ?_
    by_cases same : other = address
    · rw [same, Finmap.lookup_erase, found]
    · rw [Finmap.lookup_erase_ne same]
  | some restrictions =>
    obtain ⟨_, filled, _⟩ := sound address restrictions found
    rw [Option.getD_some, filled, if_neg Bool.false_ne_true, Totals.insert_self found]

theorem entryOf_put (settled : Settled restrictions) (sameAddress : restrictions.address = address) :
    Restrictions.entryOf (put cache address restrictions) address = restrictions := by
  unfold Restrictions.entryOf put
  cases empty : restrictions.isEmpty with
  | true =>
    rw [if_pos rfl, Finmap.lookup_erase, Option.getD_none, settled.eq_create empty, sameAddress]
  | false => rw [if_neg Bool.false_ne_true, Finmap.lookup_insert, Option.getD_some]

theorem lookup_put_of_ne {other : Address} (different : other ≠ address) :
    (put cache address restrictions).lookup other = cache.lookup other := by
  unfold put
  split
  · exact Finmap.lookup_erase_ne different
  · exact Finmap.lookup_insert_of_ne _ different

theorem put_put (first : AccountRestrictions) : put (put cache address first) address restrictions = put cache address restrictions := by
  refine Finmap.ext_lookup fun other => ?_
  by_cases same : other = address
  · rw [same]
    unfold put
    split
    · rw [Finmap.lookup_erase, Finmap.lookup_erase]
    · rw [Finmap.lookup_insert, Finmap.lookup_insert]
  · rw [lookup_put_of_ne same, lookup_put_of_ne same, lookup_put_of_ne same]

theorem Sound.put (sound : Sound cache) (settled : Settled restrictions) (sameAddress : restrictions.address = address) :
    Sound (put cache address restrictions) := by
  intro other found foundOther
  by_cases same : other = address
  · rw [same] at foundOther ⊢
    unfold Restrictions.put at foundOther
    split at foundOther
    · rw [Finmap.lookup_erase] at foundOther
      cases foundOther
    · next filled =>
      rw [Finmap.lookup_insert] at foundOther
      obtain rfl := Option.some.inj foundOther
      exact ⟨sameAddress, Bool.eq_false_iff.mpr filled, settled⟩
  · rw [lookup_put_of_ne same] at foundOther
    exact sound other found foundOther

/-- One restriction of an entry is replaced. -/
def withRestriction (restrictions : AccountRestrictions) (key : RestrictionKey) (restriction : AccountRestriction) :
    AccountRestrictions :=
  { restrictions with restrictions := Function.update restrictions.restrictions key restriction }

theorem Settled.withRestriction (settled : Settled restrictions) (key : RestrictionKey) (type : AccountRestrictionOperationType)
    (values : Finset RawValue) :
    Settled (withRestriction restrictions key (restrictionOf key (settledType type values) values)) := by
  intro other
  unfold Restrictions.withRestriction
  dsimp only
  by_cases same : other = key
  · subst same
    rw [Function.update_self]
    exact ⟨type, rfl⟩
  · rw [Function.update_of_ne same]
    exact settled other

end Entries

section Steps

variable {resolvers : ResolverContext} {cache next : AccountRestrictionCache} {notification : ModifyValueNotification}
  {key : RestrictionKey}

/-- The values of the restriction that a notification modifies. -/
def valuesOf (cache : AccountRestrictionCache) (address : Address) (key : RestrictionKey) : Finset RawValue :=
  ((entryOf cache address).restrictions key).values

def modificationOf (resolvers : ResolverContext) (notification : ModifyValueNotification) : AccountRestrictionModification :=
  ⟨notification.action, toVector resolvers notification.restrictionValue⟩

def modificationIn (mode : NotifyMode) (resolvers : ResolverContext) (notification : ModifyValueNotification) :
    AccountRestrictionModification :=
  match mode with
  | .commit => modificationOf resolvers notification
  | .rollback => invert (modificationOf resolvers notification)

theorem observeNotification_eq (finds : RestrictionKey.find (directionalRestrictionFlags notification.flags) = .ok key)
    (mode : NotifyMode) (cache : AccountRestrictionCache) : observeNotification mode resolvers cache notification =
      (applyModification ((entryOf cache notification.address).restrictions key) (operationType notification.flags)
        (modificationIn mode resolvers notification)).map fun restriction =>
          put cache notification.address (withRestriction (entryOf cache notification.address) key restriction) := by
  unfold observeNotification
  rw [finds]
  cases mode <;> cases operationType notification.flags <;> rfl

theorem valueModificationValidator_ok (sound : Sound cache)
    (finds : RestrictionKey.find (directionalRestrictionFlags notification.flags) = .ok key)
    (accepted : valueModificationValidator resolvers cache notification = .ok ())
    (known : notification.action = .del → (cache.lookup notification.address).isSome) :
    (valuesOf cache notification.address key = ∅ ∨
      operationType ((entryOf cache notification.address).restrictions key).restrictionDescriptor = operationType notification.flags) ∧
    Changes (valuesOf cache notification.address key) (modificationOf resolvers notification) := by
  unfold valueModificationValidator at accepted
  unfold valuesOf entryOf
  cases found : cache.lookup notification.address with
  | none =>
    refine ⟨.inl rfl, ?_⟩
    unfold Changes modificationOf
    cases action : notification.action with
    | add => exact Finset.notMem_empty _
    | del =>
      have present := known action
      rw [found] at present
      cases present
  | some restrictions =>
    obtain ⟨_, _, settled⟩ := sound _ _ found
    rw [found] at accepted
    dsimp only at accepted
    rw [finds] at accepted
    obtain ⟨_, same, accepted⟩ := Runs.bind_eq_ok.mp accepted
    obtain rfl := Except.ok.inj same
    obtain ⟨allowed, isAllowed, accepted⟩ := Runs.bind_eq_ok.mp accepted
    cases allowed with
    | false => cases accepted
    | true =>
      obtain ⟨type, eq⟩ := settled key
      rw [Option.getD_some]
      rw [eq] at isAllowed ⊢
      obtain ⟨_, typed, changes⟩ := isOperationAllowed_eq.mp isAllowed
      refine ⟨typed.imp id fun same => ?_, changes⟩
      rw [restrictionOf]
      dsimp only
      rw [key.operationType_descriptor]
      exact same

theorem withRestriction_restored (restrictions : AccountRestrictions) (key : RestrictionKey) (restriction : AccountRestriction) :
    withRestriction (withRestriction restrictions key restriction) key (restrictions.restrictions key) = restrictions := by
  unfold withRestriction
  dsimp only
  rw [Function.update_idem, Function.update_eq_self]

/-- What an accepted notification does, and that its rollback restores the cache. -/
structure Transition (resolvers : ResolverContext) (cache : AccountRestrictionCache) (notification : ModifyValueNotification)
    (key : RestrictionKey) (next : AccountRestrictionCache) : Prop where
  changes : Changes (valuesOf cache notification.address key) (modificationOf resolvers notification)
  sound : Sound next
  values : valuesOf next notification.address key =
    modifiedValues (valuesOf cache notification.address key) (modificationOf resolvers notification)
  others : ∀ address other, address ≠ notification.address ∨ other ≠ key → valuesOf next address other = valuesOf cache address other
  restores : observeNotification .rollback resolvers next notification = .ok cache

theorem executeNotification_transition (sound : Sound cache)
    (finds : RestrictionKey.find (directionalRestrictionFlags notification.flags) = .ok key)
    (executed : executeNotification resolvers cache notification = .ok next)
    (known : notification.action = .del → (cache.lookup notification.address).isSome) :
    Transition resolvers cache notification key next := by
  obtain ⟨_, accepted, executed⟩ := Runs.bind_eq_ok.mp executed
  obtain ⟨_, _, observed⟩ := Runs.bind_eq_ok.mp executed
  obtain ⟨typed, changes⟩ := valueModificationValidator_ok sound finds accepted known
  obtain ⟨sameAddress, settled⟩ := sound.entryOf notification.address
  obtain ⟨current, eq⟩ := settled key
  have valuesEq : valuesOf cache notification.address key = ((entryOf cache notification.address).restrictions key).values := rfl
  rw [observeNotification_eq finds] at observed
  generalize type : operationType notification.flags = operation at observed typed
  generalize mod : modificationOf resolvers notification = modification at observed changes
  rw [← valuesEq] at eq
  generalize before : valuesOf cache notification.address key = values at changes eq typed
  have commits : modificationIn .commit resolvers notification = modification := mod
  rw [commits, eq] at observed
  have sized : modification.value.length = key.valueSize := by
    cases applied : applyModification (restrictionOf key (settledType current values) values) operation modification with
    | error _ =>
      rw [applied] at observed
      cases observed
    | ok changed => exact (applyModification_sized applied).symm
  rw [applyModification_eq sized] at observed
  have sameNext : next = put cache notification.address (withRestriction (entryOf cache notification.address) key
      (restrictionOf key (settledType operation (modifiedValues values modification)) (modifiedValues values modification))) :=
    (Except.ok.inj observed).symm
  have settledNext := settled.withRestriction key operation (modifiedValues values modification)
  have entryNext := @entryOf_put cache notification.address _ settledNext sameAddress
  rw [← sameNext] at entryNext
  have sameCurrent : settledType operation values = settledType current values := by
    unfold settledType
    split
    · rfl
    · next filled =>
      have same := typed.resolve_left filled
      rw [eq, restrictionOf] at same
      dsimp only at same
      rw [key.operationType_descriptor, settledType, if_neg filled] at same
      exact same.symm
  refine ⟨?_, ?_, ?_, ?_, ?_⟩
  · rw [before, mod]
    exact changes
  · rw [sameNext]
    exact sound.put settledNext sameAddress
  · rw [valuesOf, entryNext, before, mod, withRestriction]
    dsimp only
    rw [Function.update_self]
    rfl
  · rintro address other different
    unfold valuesOf
    by_cases same : address = notification.address
    · rw [same, entryNext, withRestriction]
      dsimp only
      rw [Function.update_of_ne (different.resolve_left (not_not.mpr same))]
    · unfold entryOf
      rw [sameNext, lookup_put_of_ne same]
  · have rolledBack : modificationIn .rollback resolvers notification = invert modification := congrArg invert mod
    rw [observeNotification_eq finds, entryNext, rolledBack, type]
    have restoredKey : (withRestriction (entryOf cache notification.address) key
        (restrictionOf key (settledType operation (modifiedValues values modification)) (modifiedValues values modification))).restrictions
          key = restrictionOf key (settledType operation (modifiedValues values modification)) (modifiedValues values modification) :=
      Function.update_self _ _ _
    have sizedBack : (invert modification).value.length = key.valueSize := sized
    rw [restoredKey, applyModification_eq sizedBack, modifiedValues_invert changes, sameCurrent, ← eq, Except.map,
      withRestriction_restored, sameNext, put_put, sound.put_entryOf]

/-- A notification adds an absent value to its restriction or removes a present one, and no other values change. -/
def Modifies (resolvers : ResolverContext) (cache : AccountRestrictionCache) (notification : ModifyValueNotification) : Prop :=
  ∃ key, RestrictionKey.find (directionalRestrictionFlags notification.flags) = .ok key ∧
    Changes (valuesOf cache notification.address key) (modificationOf resolvers notification) ∧
    ∀ next, executeNotification resolvers cache notification = .ok next → valuesOf next notification.address key =
          modifiedValues (valuesOf cache notification.address key) (modificationOf resolvers notification) ∧
        ∀ address other, address ≠ notification.address ∨ other ≠ key → valuesOf next address other = valuesOf cache address other

theorem Transition.modifies (transition : Transition resolvers cache notification key next)
    (finds : RestrictionKey.find (directionalRestrictionFlags notification.flags) = .ok key)
    (executed : executeNotification resolvers cache notification = .ok next) : Modifies resolvers cache notification := by
  refine ⟨key, finds, transition.changes, ?_⟩
  intro other executedOther
  obtain rfl := Except.ok.inj (executed.symm.trans executedOther)
  exact ⟨transition.values, transition.others⟩

/-- The notifications of a list modify the values of one restriction. -/
structure RunResult (resolvers : ResolverContext) (cache : AccountRestrictionCache) (address : Address) (key : RestrictionKey)
    (notifications : List ModifyValueNotification) (count : Nat) (next : AccountRestrictionCache) : Prop where
  meets : Runs.Meets (executeNotification resolvers) (Modifies resolvers) cache notifications
  sound : Sound next
  card : (valuesOf next address key).card = count
  others : ∀ account other, account ≠ address ∨ other ≠ key → valuesOf next account other = valuesOf cache account other

theorem RunResult.nil (sound : Sound cache) (address : Address) (key : RestrictionKey) :
    RunResult resolvers cache address key [] (valuesOf cache address key).card cache :=
  ⟨trivial, sound, rfl, fun _ _ _ => rfl⟩

theorem RunResult.cons {middle : AccountRestrictionCache} {notifications : List ModifyValueNotification} {count : Nat}
    (finds : RestrictionKey.find (directionalRestrictionFlags notification.flags) = .ok key)
    (executed : executeNotification resolvers cache notification = .ok middle)
    (transition : Transition resolvers cache notification key middle)
    {address : Address} (sameAddress : notification.address = address)
    (rest : RunResult resolvers middle address key notifications count next) :
    RunResult resolvers cache address key (notification :: notifications) count next := by
  subst sameAddress
  exact ⟨.cons (transition.modifies finds executed) executed rest.meets, rest.sound, rest.card,
    fun account other different => (rest.others account other different).trans (transition.others account other different)⟩

theorem isSome_of_card {address : Address} (some : (valuesOf cache address key).card ≠ 0) : (cache.lookup address).isSome := by
  cases found : cache.lookup address with
  | none =>
    rw [valuesOf, entryOf, found] at some
    exact absurd rfl some
  | some _ => rfl

variable {V : Type} {address : Address} {flags : AccountRestrictionFlags} {wrap : V → RestrictionValue} {values : List V}

/-- Every accepted addition adds a value. -/
theorem run_additions (sound : Sound cache) (finds : RestrictionKey.find (directionalRestrictionFlags flags) = .ok key)
    (ran : (values.map fun value => (⟨address, flags, wrap value, .add⟩ : ModifyValueNotification)).foldlM
      (executeNotification resolvers) cache = .ok next) :
    RunResult resolvers cache address key (values.map fun value => ⟨address, flags, wrap value, .add⟩)
      ((valuesOf cache address key).card + values.length) next := by
  induction values generalizing cache with
  | nil =>
    cases ran
    exact .nil sound address key
  | cons value values ih =>
    rw [List.map_cons, List.foldlM_cons] at ran
    obtain ⟨middle, executed, ran⟩ := Runs.bind_eq_ok.mp ran
    have transition := @executeNotification_transition resolvers cache middle ⟨address, flags, wrap value, .add⟩ key sound finds executed nofun
    have card := card_modifiedValues transition.changes
    rw [← transition.values] at card
    have rest := ih transition.sound ran
    have added : (valuesOf middle address key).card = (valuesOf cache address key).card + 1 := card
    rw [added, Nat.add_assoc, Nat.add_comm 1] at rest
    exact @RunResult.cons resolvers cache next ⟨address, flags, wrap value, .add⟩ key middle _ _ finds executed transition address rfl rest

/-- Every accepted deletion removes a value if there are enough values. -/
theorem run_deletions (sound : Sound cache) (finds : RestrictionKey.find (directionalRestrictionFlags flags) = .ok key)
    (enough : values.length ≤ (valuesOf cache address key).card)
    (ran : (values.map fun value => (⟨address, flags, wrap value, .del⟩ : ModifyValueNotification)).foldlM
      (executeNotification resolvers) cache = .ok next) :
    RunResult resolvers cache address key (values.map fun value => ⟨address, flags, wrap value, .del⟩)
      ((valuesOf cache address key).card - values.length) next := by
  induction values generalizing cache with
  | nil =>
    cases ran
    exact .nil sound address key
  | cons value values ih =>
    rw [List.length_cons] at enough
    rw [List.map_cons, List.foldlM_cons] at ran
    obtain ⟨middle, executed, ran⟩ := Runs.bind_eq_ok.mp ran
    have transition := @executeNotification_transition resolvers cache middle ⟨address, flags, wrap value, .del⟩ key sound finds executed
      fun _ => @isSome_of_card _ key address (by omega)
    have card := card_modifiedValues transition.changes
    rw [← transition.values] at card
    have removed : (valuesOf middle address key).card + 1 = (valuesOf cache address key).card := card
    have rest := ih transition.sound (by omega) ran
    have count : (valuesOf middle address key).card - values.length = (valuesOf cache address key).card - (values.length + 1) := by
      omega
    rw [count] at rest
    exact @RunResult.cons resolvers cache next ⟨address, flags, wrap value, .del⟩ key middle _ _ finds executed transition address rfl rest

/-- The flags of an executed notification are those of a restriction. -/
theorem find_of_executed (executed : executeNotification resolvers cache notification = .ok next) :
    ∃ key, RestrictionKey.find (directionalRestrictionFlags notification.flags) = .ok key := by
  obtain ⟨_, _, executed⟩ := Runs.bind_eq_ok.mp executed
  obtain ⟨_, _, observed⟩ := Runs.bind_eq_ok.mp executed
  obtain ⟨key, finds, _⟩ := Runs.bind_eq_ok.mp observed
  exact ⟨key, finds⟩

end Steps

section Bodies

variable {max : UInt16} {cache next : AccountRestrictionCache} {key : RestrictionKey} {V : Type} [DecidableEq V]
  {body : RestrictionTransactionBody V} {resolvers : ResolverContext} {wrap : V → RestrictionValue}

/-- No restriction has more values than the maximum. -/
def Bounded (max : UInt16) (cache : AccountRestrictionCache) : Prop :=
  ∀ address key, (valuesOf cache address key).card ≤ max.toNat

/-- A count of values that does not exceed the maximum has not wrapped. -/
theorem deletions_le_of_count {values additions deletions : Nat} (fewValues : values < 65536) (fewAdditions : additions < 256)
    (fewDeletions : deletions < 256)
    (count : (UInt64.ofNat values + UInt64.ofNat additions - UInt64.ofNat deletions).toNat < 65536) :
    deletions ≤ values + additions ∧
      (UInt64.ofNat values + UInt64.ofNat additions - UInt64.ofNat deletions).toNat = values + additions - deletions := by
  rw [UInt64.toNat_sub, UInt64.toNat_add, UInt64.toNat_ofNat', UInt64.toNat_ofNat', UInt64.toNat_ofNat'] at count ⊢
  omega

/-- The validators leave at least as many values as there are deletions. -/
theorem enough_values (bounded : Bounded max cache) (validated : validateBody body max cache = .ok ())
    (finds : RestrictionKey.find (directionalRestrictionFlags body.flags) = .ok key) :
    body.deletions.length ≤ (valuesOf cache body.signerAddress key).card + body.additions.length ∧
      (valuesOf cache body.signerAddress key).card + body.additions.length - body.deletions.length ≤ max.toNat := by
  obtain ⟨_, _, validated⟩ := Runs.bind_eq_ok.mp validated
  obtain ⟨_, _, validated⟩ := Runs.bind_eq_ok.mp validated
  obtain ⟨_, redundant, validated⟩ := Runs.bind_eq_ok.mp validated
  have fewValues := bounded body.signerAddress key
  have small := max.toNat_lt
  unfold redundantModificationValidator at redundant
  unfold maxAccountRestrictionValuesValidator at validated
  split at redundant
  · cases redundant
  split at redundant
  · cases redundant
  next accepted =>
    split at validated
    · cases validated
    next fewModifications =>
      cases found : cache.lookup body.signerAddress with
      | none =>
        have noDeletions : body.deletions.length = 0 := by
          by_contra deletions
          exact accepted ⟨deletions, by rw [found]; rfl⟩
        have noValues : (valuesOf cache body.signerAddress key).card = 0 := by
          rw [valuesOf, entryOf, found]
          rfl
        rw [noValues]
        omega
      | some restrictions =>
        rw [found] at validated
        dsimp only at validated
        rw [finds] at validated
        obtain ⟨_, same, validated⟩ := Runs.bind_eq_ok.mp validated
        obtain rfl := Except.ok.inj same
        have sameValues : valuesOf cache body.signerAddress key = (restrictions.restrictions key).values := by
          rw [valuesOf, entryOf, found, Option.getD_some]
        rw [← sameValues] at validated
        split at validated
        · cases validated
        next withinCount =>
          obtain ⟨enough, count⟩ := deletions_le_of_count (by omega) body.additionsCount body.deletionsCount
            (lt_of_le_of_lt (Nat.le_of_not_lt withinCount) small)
          rw [count] at withinCount
          omega

/-- The notifications of an accepted transaction modify values and leave a sound cache. -/
theorem body_run (sound : Sound cache) (bounded : Bounded max cache) (validated : validateBody body max cache = .ok ())
    (ran : (valueNotifications body wrap).foldlM (executeNotification resolvers) cache = .ok next) :
    Runs.Meets (executeNotification resolvers) (Modifies resolvers) cache (valueNotifications body wrap) ∧
      Sound next ∧ Bounded max next := by
  have finds : ∃ key, RestrictionKey.find (directionalRestrictionFlags body.flags) = .ok key := by
    obtain ⟨_, _, validated⟩ := Runs.bind_eq_ok.mp validated
    obtain ⟨_, present, _⟩ := Runs.bind_eq_ok.mp validated
    have member : ∃ notification ∈ valueNotifications body wrap, notification.flags = body.flags := by
      unfold modificationPresentValidator at present
      split at present
      next someValue =>
        rcases someValue with addition | deletion
        · obtain ⟨value, member⟩ := List.exists_mem_of_length_pos addition
          exact ⟨_, List.mem_append_left _ (List.mem_map_of_mem member), rfl⟩
        · obtain ⟨value, member⟩ := List.exists_mem_of_length_pos deletion
          exact ⟨_, List.mem_append_right _ (List.mem_map_of_mem member), rfl⟩
      · cases present
    obtain ⟨notification, member, sameFlags⟩ := member
    obtain ⟨before, after, executed⟩ := Runs.step_of_run ran notification member
    rw [← sameFlags]
    exact find_of_executed executed
  obtain ⟨key, finds⟩ := finds
  obtain ⟨enough, remaining⟩ := enough_values bounded validated finds
  unfold valueNotifications at ran ⊢
  rw [List.foldlM_append] at ran
  obtain ⟨middle, ranAdditions, ranDeletions⟩ := Runs.bind_eq_ok.mp ran
  have additions := run_additions sound finds ranAdditions
  have deletions := run_deletions additions.sound finds (additions.card ▸ enough) ranDeletions
  refine ⟨additions.meets.append fun other ranOther => ?_, deletions.sound, fun address other => ?_⟩
  · rw [ranAdditions] at ranOther
    exact Except.ok.inj ranOther ▸ deletions.meets
  · by_cases same : address = body.signerAddress ∧ other = key
    · obtain ⟨rfl, rfl⟩ := same
      rw [deletions.card, additions.card]
      exact remaining
    · have different : address ≠ body.signerAddress ∨ other ≠ key := not_and_or.mp same
      rw [deletions.others address other different, additions.others address other different]
      exact bounded address other

end Bodies

variable {max : UInt16} {cache next : AccountRestrictionCache} {resolvers : ResolverContext} {delivery : RestrictionDelivery}
  {notification : ModifyValueNotification}

/-- A notification that modifies values is taken back. -/
theorem Modifies.transition (sound : Sound cache) (modifies : Modifies resolvers cache notification)
    (executed : executeNotification resolvers cache notification = .ok next) : ∃ key, Transition resolvers cache notification key next := by
  obtain ⟨key, finds, changes, _⟩ := modifies
  refine ⟨key, executeNotification_transition sound finds executed fun deletes => ?_⟩
  apply @isSome_of_card cache key
  have member : toVector resolvers notification.restrictionValue ∈ valuesOf cache notification.address key := by
    rw [Changes, modificationOf, deletes] at changes
    exact changes
  exact (Finset.card_pos.mpr ⟨_, member⟩).ne'

/-- Between transactions the entries are sound and within the maximum. -/
def Between (max : UInt16) (cache : AccountRestrictionCache) : Prop :=
  Sound cache ∧ Bounded max cache

theorem between_empty (max : UInt16) : Between max ∅ := by
  refine ⟨fun address restrictions found => ?_, fun address key => ?_⟩
  · rw [Finmap.lookup_empty] at found
    cases found
  · rw [valuesOf, entryOf, Finmap.lookup_empty]
    exact Nat.zero_le _

theorem execute_modifies (between : Between max cache) (executed : execute max cache delivery = .ok next) :
    Runs.Meets (executeNotification delivery.resolvers) (Modifies delivery.resolvers) cache (notifications delivery.transaction) ∧
      Between max next := by
  obtain ⟨sound, bounded⟩ := between
  obtain ⟨_, validated, ran⟩ := Runs.bind_eq_ok.mp executed
  obtain ⟨resolvers, transaction⟩ := delivery
  cases transaction with
  | addressRestriction body => exact body_run sound bounded validated ran
  | mosaicRestriction body => exact body_run sound bounded validated ran
  | operationRestriction body =>
    obtain ⟨_, _, validated⟩ := Runs.bind_eq_ok.mp validated
    exact body_run sound bounded validated ran

theorem between_of_history {history : List RestrictionDelivery} (ran : history.foldlM (execute max) ∅ = .ok cache) :
    Between max cache :=
  Runs.always (fun _ _ _ between executed => (execute_modifies between executed).2) (between_empty max) ran

theorem execute_restores (between : Between max cache) (executed : execute max cache delivery = .ok next) :
    rollback next delivery = .ok cache := by
  obtain ⟨meets, _⟩ := execute_modifies between executed
  obtain ⟨_, _, ran⟩ := Runs.bind_eq_ok.mp executed
  have preserved : ∀ state notification next, Sound state → Modifies delivery.resolvers state notification →
      executeNotification delivery.resolvers state notification = .ok next → Sound next := by
    intro state notification next sound modifies executed
    obtain ⟨_, transition⟩ := modifies.transition sound executed
    exact transition.sound
  have undoes : ∀ state notification next, Sound state → Modifies delivery.resolvers state notification →
      executeNotification delivery.resolvers state notification = .ok next →
        observeNotification .rollback delivery.resolvers next notification = .ok state := by
    intro state notification next sound modifies executed
    obtain ⟨_, transition⟩ := modifies.transition sound executed
    exact transition.restores
  exact meets.restores preserved undoes between.1 ran

/-- The caches that are reached by executing transactions and rolling back the last ones. -/
inductive Reachable (max : UInt16) : List RestrictionDelivery → AccountRestrictionCache → Prop where
  | genesis : Reachable max [] ∅
  | executed {chain : List RestrictionDelivery} {cache next : AccountRestrictionCache} {delivery : RestrictionDelivery} :
      Reachable max chain cache → execute max cache delivery = .ok next → Reachable max (delivery :: chain) next
  | rolledBack {chain : List RestrictionDelivery} {cache previous : AccountRestrictionCache} {delivery : RestrictionDelivery} :
      Reachable max (delivery :: chain) cache → rollback cache delivery = .ok previous → Reachable max chain previous

/-- A reachable cache is the result of the transactions that have not been rolled back. -/
theorem Reachable.history {chain : List RestrictionDelivery} (reachable : Reachable max chain cache) :
    chain.reverse.foldlM (execute max) ∅ = .ok cache := by
  induction reachable with
  | genesis => rfl
  | executed _ executed ih =>
    rw [List.reverse_cons, List.foldlM_append, ih]
    exact Runs.bind_eq_ok.mpr ⟨_, rfl, Runs.bind_eq_ok.mpr ⟨_, executed, rfl⟩⟩
  | rolledBack _ rolledBack ih =>
    rw [List.reverse_cons, List.foldlM_append] at ih
    obtain ⟨before, reached, last⟩ := Runs.bind_eq_ok.mp ih
    obtain ⟨_, executed, same⟩ := Runs.bind_eq_ok.mp last
    obtain rfl := Except.ok.inj same
    rw [execute_restores (between_of_history reached) executed] at rolledBack
    exact Except.ok.inj rolledBack ▸ reached

/-- Every value notification of an accepted transaction modifies values, and the rollback restores the cache. -/
theorem rollback_restores_restrictions (max : UInt16) (chain : List RestrictionDelivery) (cache next : AccountRestrictionCache)
    (delivery : RestrictionDelivery) (reachable : Reachable max chain cache) (executed : execute max cache delivery = .ok next) :
    Runs.Meets (executeNotification delivery.resolvers) (Modifies delivery.resolvers) cache (notifications delivery.transaction) ∧
      rollback next delivery = .ok cache := by
  have between := between_of_history reachable.history
  exact ⟨(execute_modifies between executed).1, execute_restores between executed⟩

namespace Samples

/-- An account blocks a mosaic. -/
def blockMosaic : RestrictionDelivery :=
  ⟨⟨id, id⟩, .mosaicRestriction ⟨Vector.replicate 24 1, mosaicIdFlag ||| blockFlag, [5], [], by decide, by decide⟩⟩

/-- The account blocks two other mosaics, one of them by an alias, and releases the first one. -/
def exchangeMosaics : RestrictionDelivery :=
  ⟨⟨fun mosaicId => if mosaicId = 8 then 9 else mosaicId, id⟩,
    .mosaicRestriction ⟨Vector.replicate 24 1, mosaicIdFlag ||| blockFlag, [7, 8], [5], by decide, by decide⟩⟩

def after (cache : AccountRestrictionCache) (delivery : RestrictionDelivery) : AccountRestrictionCache :=
  match execute 3 cache delivery with
  | .ok next => next
  | .error _ => cache

theorem execute_after {cache : AccountRestrictionCache} {delivery : RestrictionDelivery}
    (succeeds : (execute 3 cache delivery).isOk = true) : execute 3 cache delivery = .ok (after cache delivery) := by
  unfold after
  split
  · assumption
  · next failed =>
    rw [failed] at succeeds
    cases succeeds

/-- A restriction is replaced by another one and both changes are rolled back. -/
theorem rollback_restores_restrictions_exchange :
    let blocked := after ∅ blockMosaic
    Runs.Meets (executeNotification exchangeMosaics.resolvers) (Modifies exchangeMosaics.resolvers) blocked
        (notifications exchangeMosaics.transaction) ∧
      rollback (after blocked exchangeMosaics) exchangeMosaics = .ok blocked := by
  have reachable : Reachable 3 [blockMosaic] (after ∅ blockMosaic) := .executed .genesis (execute_after (by decide +kernel))
  exact rollback_restores_restrictions 3 [blockMosaic] _ _ exchangeMosaics reachable (execute_after (by decide +kernel))

end Samples

end Catapult.Restrictions
