import Catapult.Library.Runs
import Catapult.Proof.Restriction.MosaicRestrictionBytes

/-
This file proves that mosaic restrictions are restored by the rollback of the transactions that changed them.
-/

namespace Catapult.MosaicRestriction

open Lock (NotifyMode ResolverContext)
open RestrictionValueMap

/-- The mosaic and the address from which the key of an entry is derived. -/
def entryIdentity : MosaicRestrictionEntry → MosaicId × Address
  | .addressEntry restriction => restriction.id
  | .globalEntry restriction => (restriction.id, Vector.replicate 24 0)

/-- The entries of a kind are described by the operations of the kind. -/
structure Describes {Id Rule : Type} (kind : RestrictionKind Id Rule) : Prop where
  identity : ∀ restriction, entryIdentity (kind.wrap restriction) = kind.identity restriction.id
  identity_injective : ∀ first second, kind.identity first = kind.identity second → first = second
  count : ∀ restriction, getRestrictionCount (kind.wrap restriction) = restriction.rules.length
  stored : ∀ maxValues restriction, StoredEntry maxValues (kind.wrap restriction) ↔ Stored kind maxValues restriction
  same : ∀ entry restriction, SameEntry entry (kind.wrap restriction) ↔
    ∃ rules, entry = kind.wrap ⟨restriction.id, rules⟩ ∧ SameRules rules restriction.rules

theorem addressKind_describes : Describes addressKind where
  identity _ := rfl
  identity_injective _ _ same := same
  count _ := rfl
  stored _ _ := Iff.rfl
  same entry restriction := by
    constructor
    · intro same
      cases entry with
      | addressEntry other => exact ⟨other.rules, by rw [← same.1]; rfl, same.2⟩
      | globalEntry _ => cases same
    · rintro ⟨rules, rfl, same⟩
      exact ⟨rfl, same⟩

theorem globalKind_describes : Describes globalKind where
  identity _ := rfl
  identity_injective _ _ same := (Prod.mk.inj same).1
  count _ := rfl
  stored _ _ := Iff.rfl
  same entry restriction := by
    constructor
    · intro same
      cases entry with
      | addressEntry _ => cases same
      | globalEntry other => exact ⟨other.rules, by rw [← same.1]; rfl, same.2⟩
    · rintro ⟨rules, rfl, same⟩
      exact ⟨rfl, same⟩

theorem SameEntry.refl (entry : MosaicRestrictionEntry) : SameEntry entry entry := by
  cases entry with
  | addressEntry _ => exact ⟨rfl, fun _ => rfl⟩
  | globalEntry _ => exact ⟨rfl, fun _ => rfl⟩

theorem SameEntry.trans : ∀ {first second third : MosaicRestrictionEntry},
    SameEntry first second → SameEntry second third → SameEntry first third
  | .addressEntry _, .addressEntry _, .addressEntry _, left, right => ⟨left.1.trans right.1, fun key => (left.2 key).trans (right.2 key)⟩
  | .globalEntry _, .globalEntry _, .globalEntry _, left, right => ⟨left.1.trans right.1, fun key => (left.2 key).trans (right.2 key)⟩

/-- Both caches have the same entries. -/
def SameEntries (cache other : MosaicRestrictionCache) : Prop :=
  ∀ hash, Option.Rel SameEntry (cache.lookup hash) (other.lookup hash)

theorem SameEntries.refl (cache : MosaicRestrictionCache) : SameEntries cache cache := by
  intro hash
  cases cache.lookup hash with
  | none => exact .none
  | some entry => exact .some (SameEntry.refl entry)

theorem SameEntries.trans {first second third : MosaicRestrictionCache} (left : SameEntries first second)
    (right : SameEntries second third) : SameEntries first third := by
  intro hash
  have leftHash := left hash
  have rightHash := right hash
  generalize first.lookup hash = a, second.lookup hash = b, third.lookup hash = c at *
  cases leftHash with
  | none =>
    cases rightHash
    exact .none
  | some leftEntry =>
    cases rightHash with
    | some rightEntry => exact .some (leftEntry.trans rightEntry)

section Rules

variable {Id Rule : Type} {facade : NotificationFacade Id Rule} {rules : RestrictionValueMap Rule}

/-- The rules after the notification. -/
def NotificationFacade.apply (facade : NotificationFacade Id Rule) (rules : RestrictionValueMap Rule) : RestrictionValueMap Rule :=
  (Restriction.set facade.kind ⟨facade.id, rules⟩ facade.restrictionKey facade.rule).rules

theorem update_wrap (facade : NotificationFacade Id Rule) (rules : RestrictionValueMap Rule) :
    facade.update (facade.kind.wrap ⟨facade.id, rules⟩) =
      .ok (facade.kind.wrap ⟨facade.id, facade.apply rules⟩, (facade.apply rules).length) := by
  have updated : Restriction.set facade.kind ⟨facade.id, rules⟩ facade.restrictionKey facade.rule = ⟨facade.id, facade.apply rules⟩ := by
    rw [NotificationFacade.apply, Restriction.set]
    split <;> rfl
  rw [NotificationFacade.update, (facade.kind.unwrap_eq _ _).mpr rfl, Except.map, updated]

theorem apply_eq : facade.apply rules =
    if facade.isDeleteAction then rules.remove facade.restrictionKey else set facade.restrictionKey facade.rule rules := by
  rw [NotificationFacade.apply, Restriction.set, NotificationFacade.isDeleteAction]
  split <;> rfl

theorem tryGet_apply (distinct : rules.Distinct) (key : UInt64) :
    (facade.apply rules).tryGet key = if key = facade.restrictionKey then
      (if facade.isDeleteAction then none else some facade.rule) else rules.tryGet key := by
  rw [apply_eq]
  split
  · exact tryGet_remove distinct _ _
  · exact tryGet_set _ _ _ _

theorem distinct_apply (distinct : rules.Distinct) : (facade.apply rules).Distinct := by
  rw [apply_eq]
  split
  · exact distinct.remove _
  · exact distinct.set _ _

theorem stored_apply (distinct : rules.Distinct) (stored : ∀ pair ∈ rules, facade.kind.isRemoval pair.2 = false) :
    ∀ pair ∈ facade.apply rules, facade.kind.isRemoval pair.2 = false := by
  rintro ⟨key, rule⟩ member
  have found := tryGet_of_mem (distinct_apply distinct) member
  rw [tryGet_apply distinct] at found
  split at found
  · split at found
    · cases found
    · next adds =>
      obtain rfl := Option.some.inj found
      exact Bool.eq_false_iff.mpr adds
  · exact stored _ (mem_of_tryGet found)

theorem length_apply_le {maxValues : Nat} (bounded : rules.length ≤ maxValues)
    (room : facade.isDeleteAction = false → rules.tryGet facade.restrictionKey = none → rules.length < maxValues) :
    (facade.apply rules).length ≤ maxValues := by
  rw [apply_eq]
  split
  · exact (List.length_eraseP_le).trans bounded
  · next adds =>
    by_cases absent : rules.tryGet facade.restrictionKey = none
    · rw [set_of_absent absent, List.length_append]
      exact room (Bool.eq_false_iff.mpr adds) absent
    · rw [← @List.length_map _ _ _ Prod.fst, fst_set_of_present absent, List.length_map]
      exact bounded

end Rules

section Steps

variable [Sha3] {Id Rule : Type}

def entryKey (entry : MosaicRestrictionEntry) : Hash256 :=
  createMosaicRestrictionEntryKey (entryIdentity entry).1 (entryIdentity entry).2

/-- Entries are stored under the hashes of known identities. -/
def Valid (known : MosaicId × Address → Prop) (maxValues : Nat) (cache : MosaicRestrictionCache) : Prop :=
  ∀ hash entry, cache.lookup hash = some entry → StoredEntry maxValues entry ∧ entryKey entry = hash ∧ known (entryIdentity entry)

/-- The hashes of known identities are different. -/
def Injective (known : MosaicId × Address → Prop) : Prop :=
  ∀ first second, known first → known second →
    createMosaicRestrictionEntryKey first.1 first.2 = createMosaicRestrictionEntryKey second.1 second.2 → first = second

/-- The cache has an entry with the rules, or none if there are no rules. -/
def Holds (cache : MosaicRestrictionCache) (facade : NotificationFacade Id Rule) : RestrictionValueMap Rule → Prop
  | [] => cache.lookup facade.uniqueKey = none
  | pair :: rules => cache.lookup facade.uniqueKey = some (facade.kind.wrap ⟨facade.id, pair :: rules⟩)

/-- The entry is replaced by one with the rules, or removed if there are no rules. -/
def put (cache : MosaicRestrictionCache) (facade : NotificationFacade Id Rule) : RestrictionValueMap Rule → MosaicRestrictionCache
  | [] => cache.erase facade.uniqueKey
  | pair :: rules => cache.insert facade.uniqueKey (facade.kind.wrap ⟨facade.id, pair :: rules⟩)

theorem put_of_ne_nil (cache : MosaicRestrictionCache) (facade : NotificationFacade Id Rule) {rules : RestrictionValueMap Rule}
    (filled : rules ≠ []) : put cache facade rules = cache.insert facade.uniqueKey (facade.kind.wrap ⟨facade.id, rules⟩) := by
  cases rules with
  | nil => exact absurd rfl filled
  | cons pair rules => rfl

theorem lookup_put_of_ne {cache : MosaicRestrictionCache} {facade : NotificationFacade Id Rule} {hash : Hash256}
    (other : hash ≠ facade.uniqueKey) (rules : RestrictionValueMap Rule) :
    (put cache facade rules).lookup hash = cache.lookup hash := by
  cases rules with
  | nil => exact Finmap.lookup_erase_ne other
  | cons pair rules => exact Finmap.lookup_insert_of_ne _ other

theorem holds_put (cache : MosaicRestrictionCache) (facade : NotificationFacade Id Rule) (rules : RestrictionValueMap Rule) :
    Holds (put cache facade rules) facade rules := by
  cases rules with
  | nil => exact Finmap.lookup_erase facade.uniqueKey cache
  | cons pair rules => exact Finmap.lookup_insert cache

/-- A notification in the mode of its observer changes the rules of its restriction. -/
theorem observeNotification_of_holds {cache : MosaicRestrictionCache} {facade : NotificationFacade Id Rule}
    {rules : RestrictionValueMap Rule} (holds : Holds cache facade rules) (proper : rules = [] → facade.isDeleteAction = false)
    (mode : NotifyMode) : observeNotification mode mode cache facade = .ok (put cache facade (facade.apply rules)) := by
  rw [observeNotification, if_neg (not_not.mpr rfl)]
  cases rules with
  | nil =>
    have stored := proper rfl
    have filled : facade.apply [] ≠ [] := by
      rw [NotificationFacade.apply, Restriction.set, if_neg (by rw [← NotificationFacade.isDeleteAction, stored]; exact Bool.false_ne_true)]
      exact List.cons_ne_nil _ _
    rw [holds, NotificationFacade.toRestriction, update_wrap, put_of_ne_nil _ _ filled]
    rfl
  | cons pair rules =>
    rw [holds]
    dsimp only
    rw [update_wrap]
    cases after : facade.apply (pair :: rules) with
    | nil => rfl
    | cons _ _ => rfl

/-- The entries of a valid cache are found by the notifications of their identities. -/
theorem exists_holds {known : MosaicId × Address → Prop} {maxValues : Nat} {cache : MosaicRestrictionCache}
    {facade : NotificationFacade Id Rule} (describes : Describes facade.kind) (valid : Valid known maxValues cache)
    (injective : Injective known) (isKnown : known (facade.kind.identity facade.id))
    (readable : ∀ entry, cache.lookup facade.uniqueKey = some entry → ∃ restriction, facade.kind.unwrap entry = .ok restriction) :
    ∃ rules, Holds cache facade rules ∧ rules.Distinct ∧ (∀ pair ∈ rules, facade.kind.isRemoval pair.2 = false) ∧
      rules.length ≤ maxValues := by
  cases found : cache.lookup facade.uniqueKey with
  | none => exact ⟨[], found, List.nodup_nil, nofun, Nat.zero_le _⟩
  | some entry =>
    obtain ⟨restriction, unwraps⟩ := readable entry found
    obtain rfl := (facade.kind.unwrap_eq _ _).mp unwraps
    obtain ⟨storedEntry, hash, knownEntry⟩ := valid _ _ found
    have stored := (describes.stored _ _).mp storedEntry
    have sameIdentity := injective _ _ knownEntry isKnown hash
    rw [describes.identity] at sameIdentity
    have sameId := describes.identity_injective _ _ sameIdentity
    refine ⟨restriction.rules, ?_, stored.distinct, stored.stored, stored.bounded⟩
    have filled := stored.filled
    have whole : restriction = ⟨facade.id, restriction.rules⟩ := by rw [← sameId]
    cases rules : restriction.rules with
    | nil => exact absurd rules filled
    | cons pair others =>
      rw [Holds, found, whole, rules]

variable {known : MosaicId × Address → Prop} {cache next : MosaicRestrictionCache} {facade : NotificationFacade Id Rule}
  {rules : RestrictionValueMap Rule}

/-- The rule of the restriction is found. -/
theorem findRule_of_holds (holds : Holds cache facade rules) (stored : ∀ pair ∈ rules, facade.kind.isRemoval pair.2 = false) :
    findRule cache facade = .ok (rules.tryGet facade.restrictionKey) := by
  unfold findRule
  cases rules with
  | nil =>
    rw [holds]
    rfl
  | cons pair rules =>
    rw [holds]
    dsimp only
    rw [NotificationFacade.tryGet, (facade.kind.unwrap_eq _ _).mpr rfl, Except.map]
    cases found : tryGet (pair :: rules) facade.restrictionKey with
    | none => rfl
    | some rule =>
      congr 1
      exact Option.filter_eq_some_iff.mpr ⟨rfl, facade.kind.readable_of_stored rule (stored _ (mem_of_tryGet found))⟩

theorem readable_of_findRule {rule : Option Rule} (finds : findRule cache facade = .ok rule) :
    ∀ entry, cache.lookup facade.uniqueKey = some entry → ∃ restriction, facade.kind.unwrap entry = .ok restriction := by
  intro entry found
  rw [findRule, found] at finds
  dsimp only at finds
  rw [NotificationFacade.tryGet] at finds
  cases unwraps : facade.kind.unwrap entry with
  | error error =>
    rw [unwraps] at finds
    cases finds
  | ok restriction => exact ⟨restriction, rfl⟩

/-- What an accepted transaction does to the rules of its restriction. -/
structure Transition (maxValues : Nat) (cache : MosaicRestrictionCache) (facade : NotificationFacade Id Rule) (rule : Rule)
    (rules : RestrictionValueMap Rule) (next : MosaicRestrictionCache) : Prop where
  holds : Holds cache facade rules
  distinct : rules.Distinct
  stored : ∀ pair ∈ rules, facade.kind.isRemoval pair.2 = false
  bounded : rules.length ≤ maxValues
  previous : rules.tryGet facade.restrictionKey = if facade.isDeleteAction then none else some facade.rule
  removes : facade.kind.isRemoval rule = true → rules.tryGet facade.restrictionKey ≠ none
  room : facade.kind.isRemoval rule = false → rules.tryGet facade.restrictionKey = none → rules ≠ [] → rules.length < maxValues
  next_eq : next = put cache facade (NotificationFacade.apply { facade with rule := rule } rules)

theorem previous_of_validator [DecidableEq Rule] (holds : Holds cache facade rules) (stored : ∀ pair ∈ rules, facade.kind.isRemoval pair.2 = false)
    (accepted : mosaicRestrictionModificationValidator cache facade = .ok ()) :
    rules.tryGet facade.restrictionKey = if facade.isDeleteAction then none else some facade.rule := by
  rw [mosaicRestrictionModificationValidator, findRule_of_holds holds stored] at accepted
  obtain ⟨found, finds, accepted⟩ := Runs.bind_eq_ok.mp accepted
  obtain rfl := Except.ok.inj finds
  cases found : rules.tryGet facade.restrictionKey with
  | none =>
    rw [found] at accepted
    dsimp only at accepted
    split at accepted
    · next unset => exact (if_pos (facade.kind.removal_of_unset _ unset)).symm
    · cases accepted
  | some rule =>
    rw [found] at accepted
    dsimp only at accepted
    split at accepted
    · next isMatch =>
      have same : rule = facade.rule := by simpa [NotificationFacade.isMatch] using isMatch
      have kept := stored _ (mem_of_tryGet found)
      rw [same] at kept
      rw [same, if_neg (by rw [NotificationFacade.isDeleteAction, kept]; exact Bool.false_ne_true)]
    · cases accepted

theorem room_of_validator (describes : Describes facade.kind) {maxMosaicRestrictionValues : UInt8}
    (holds : Holds cache facade rules) (stored : ∀ pair ∈ rules, facade.kind.isRemoval pair.2 = false)
    (accepted : mosaicRestrictionMaxValuesValidator maxMosaicRestrictionValues cache facade = .ok ()) :
    (facade.isDeleteAction = true → rules.tryGet facade.restrictionKey ≠ none) ∧
    (facade.isDeleteAction = false → rules.tryGet facade.restrictionKey = none → rules ≠ [] →
      rules.length < maxMosaicRestrictionValues.toNat) := by
  have finds := findRule_of_holds holds stored
  unfold mosaicRestrictionMaxValuesValidator at accepted
  cases rules with
  | nil =>
    rw [holds] at accepted
    dsimp only at accepted
    refine ⟨fun removes => ?_, fun _ _ filled => absurd rfl filled⟩
    rw [if_pos removes] at accepted
    cases accepted
  | cons pair rules =>
    rw [findRule, holds] at finds
    dsimp only at finds
    rw [holds] at accepted
    dsimp only at accepted
    rw [finds] at accepted
    obtain ⟨found, same, accepted⟩ := Runs.bind_eq_ok.mp accepted
    obtain rfl := Except.ok.inj same
    rw [describes.count] at accepted
    dsimp only at accepted
    constructor
    · intro removes absent
      rw [absent, removes] at accepted
      cases accepted
    · intro adds absent _
      rw [absent, adds, if_neg (by simp)] at accepted
      by_contra full
      rw [if_neg (by simpa using full)] at accepted
      cases accepted

theorem executeNotifications_cases [DecidableEq Rule] (describes : Describes facade.kind) {maxMosaicRestrictionValues : UInt8} {rule : Rule}
    (valid : Valid known maxMosaicRestrictionValues.toNat cache) (injective : Injective known)
    (isKnown : known (facade.kind.identity facade.id))
    (executed : executeNotifications maxMosaicRestrictionValues cache facade { facade with rule := rule } = .ok next) :
    ∃ rules, Transition maxMosaicRestrictionValues.toNat cache facade rule rules next := by
  obtain ⟨_, modification, executed⟩ := Runs.bind_eq_ok.mp executed
  obtain ⟨observed, unchanged, executed⟩ := Runs.bind_eq_ok.mp executed
  obtain ⟨_, maxValues, executed⟩ := Runs.bind_eq_ok.mp executed
  obtain rfl : cache = observed := Except.ok.inj unchanged
  obtain ⟨found, finds, _⟩ := Runs.bind_eq_ok.mp modification
  obtain ⟨rules, holds, distinct, stored, bounded⟩ :=
    exists_holds describes valid injective isKnown (readable_of_findRule finds)
  let new : NotificationFacade Id Rule := { facade with rule := rule }
  have holdsNew : Holds cache new rules := by cases rules <;> exact holds
  obtain ⟨removes, room⟩ := @room_of_validator _ _ _ _ new _ describes _ holdsNew stored maxValues
  refine ⟨rules, holds, distinct, stored, bounded, previous_of_validator holds stored modification, removes, room, ?_⟩
  have proper : rules = [] → new.isDeleteAction = false := by
    rintro rfl
    exact Bool.eq_false_iff.mpr fun deletes => removes deletes rfl
  rw [observeNotification_of_holds holdsNew proper] at executed
  exact (Except.ok.inj executed).symm

theorem valid_put (describes : Describes facade.kind) {maxValues : Nat} (valid : Valid known maxValues cache)
    (isKnown : known (facade.kind.identity facade.id)) (distinct : rules.Distinct)
    (stored : ∀ pair ∈ rules, facade.kind.isRemoval pair.2 = false) (bounded : rules.length ≤ maxValues) :
    Valid known maxValues (put cache facade rules) := by
  intro hash entry found
  by_cases same : hash = facade.uniqueKey
  · have holds := holds_put cache facade rules
    cases rules with
    | nil =>
      rw [same, holds] at found
      cases found
    | cons pair rules =>
      rw [same, holds] at found
      obtain rfl := Option.some.inj found
      rw [entryKey, describes.identity, describes.stored]
      exact ⟨⟨distinct, stored, List.cons_ne_nil _ _, bounded⟩, same.symm, isKnown⟩
  · rw [lookup_put_of_ne same] at found
    exact valid hash entry found

theorem Valid.of_holds (describes : Describes facade.kind) {maxValues : Nat} (valid : Valid known maxValues cache)
    (holds : Holds cache facade rules) : rules.Distinct ∧ ∀ pair ∈ rules, facade.kind.isRemoval pair.2 = false := by
  cases rules with
  | nil => exact ⟨List.nodup_nil, nofun⟩
  | cons pair rules =>
    have stored := (describes.stored _ _).mp (valid _ _ holds).1
    exact ⟨stored.distinct, stored.stored⟩

theorem Transition.valid_next (describes : Describes facade.kind) {maxValues : Nat} {rule : Rule} (positive : 0 < maxValues)
    (transition : Transition maxValues cache facade rule rules next) (valid : Valid known maxValues cache)
    (isKnown : known (facade.kind.identity facade.id)) : Valid known maxValues next := by
  rw [transition.next_eq]
  refine valid_put describes valid isKnown (distinct_apply transition.distinct)
    (stored_apply transition.distinct transition.stored) (length_apply_le transition.bounded fun adds absent => ?_)
  by_cases filled : rules = []
  · rw [filled]
    exact positive
  · exact transition.room adds absent filled

/-- Caches with the same entries hold the same rules. -/
theorem SameEntries.holds (describes : Describes facade.kind) {other : MosaicRestrictionCache}
    (same : SameEntries other cache) (holds : Holds cache facade rules) :
    ∃ others, Holds other facade others ∧ SameRules others rules := by
  have related := same facade.uniqueKey
  cases rules with
  | nil =>
    rw [holds] at related
    refine ⟨[], ?_, fun _ => rfl⟩
    cases found : other.lookup facade.uniqueKey with
    | none => exact found
    | some entry =>
      rw [found] at related
      cases related
  | cons pair rules =>
    rw [holds] at related
    cases found : other.lookup facade.uniqueKey with
    | none =>
      rw [found] at related
      cases related
    | some entry =>
      rw [found] at related
      cases related with
      | some sameEntry =>
        obtain ⟨others, rfl, sameRules⟩ := (describes.same _ _).mp sameEntry
        refine ⟨others, ?_, sameRules⟩
        cases others with
        | nil => cases sameRules.eq_nil_iff.mp rfl
        | cons _ _ => exact found

theorem SameEntries.put (describes : Describes facade.kind) {other : MosaicRestrictionCache} {others : RestrictionValueMap Rule}
    (same : ∀ hash, hash ≠ facade.uniqueKey → Option.Rel SameEntry (other.lookup hash) (cache.lookup hash))
    (sameRules : SameRules others rules) (holds : Holds cache facade rules) : SameEntries (put other facade others) cache := by
  intro hash
  by_cases sameHash : hash = facade.uniqueKey
  · have restored := holds_put other facade others
    rw [sameHash]
    cases rules with
    | nil =>
      obtain rfl := sameRules.eq_nil_iff.mpr rfl
      rw [restored, holds]
      exact .none
    | cons pair rules =>
      cases others with
      | nil => cases sameRules.eq_nil_iff.mp rfl
      | cons _ _ =>
        rw [restored, holds]
        exact .some ((describes.same _ _).mpr ⟨_, rfl, sameRules⟩)
  · rw [lookup_put_of_ne sameHash]
    exact same hash sameHash

/-- The notification of the previous value restores the entries. -/
theorem Transition.restores (describes : Describes facade.kind) {maxValues : Nat} {rule : Rule} {other : MosaicRestrictionCache}
    (transition : Transition maxValues cache facade rule rules next) (valid : Valid known maxValues other)
    (isKnown : known (facade.kind.identity facade.id)) (same : SameEntries other next) :
    ∃ restored, rollbackNotifications other facade { facade with rule := rule } = .ok restored ∧
      Valid known maxValues restored ∧ SameEntries restored cache := by
  let new : NotificationFacade Id Rule := { facade with rule := rule }
  have holdsNext : Holds next facade (new.apply rules) := transition.next_eq ▸ holds_put cache facade (new.apply rules)
  obtain ⟨others, holds, sameRules⟩ := same.holds describes holdsNext
  obtain ⟨distinct, stored⟩ := valid.of_holds describes holds
  have proper : others = [] → facade.isDeleteAction = false := by
    intro empty
    have absent := @tryGet_apply _ _ new _ transition.distinct facade.restrictionKey
    rw [sameRules.eq_nil_iff.mp empty, if_pos rfl] at absent
    have deletesNew : new.isDeleteAction = true := by
      by_contra adds
      rw [if_neg adds] at absent
      cases absent
    have present := transition.removes deletesNew
    rw [transition.previous] at present
    exact Bool.eq_false_iff.mpr fun deletes => present (if_pos deletes)
  have restoredRules : SameRules (facade.apply others) rules := by
    intro key
    rw [tryGet_apply distinct]
    split
    · next same => rw [same, transition.previous]
    · next different => rw [sameRules key, tryGet_apply transition.distinct, if_neg different]
  have distinctRestored := @distinct_apply _ _ facade _ distinct
  refine ⟨put other facade (facade.apply others), observeNotification_of_holds holds proper .rollback, ?_, ?_⟩
  · refine valid_put describes valid isKnown distinctRestored (stored_apply distinct stored) ?_
    rw [restoredRules.length_eq distinctRestored transition.distinct]
    exact transition.bounded
  · refine SameEntries.put describes (fun hash different => ?_) restoredRules transition.holds
    have related := same hash
    rwa [transition.next_eq, lookup_put_of_ne different] at related

end Steps

section Deliveries

variable [Sha3] {known : MosaicId × Address → Prop} {maxMosaicRestrictionValues : UInt8} {cache next : MosaicRestrictionCache}
  {delivery : RestrictionDelivery}

/-- The identity of the restriction that a transaction changes. -/
def deliveryIdentity (delivery : RestrictionDelivery) : MosaicId × Address :=
  match delivery.modification with
  | .globalModification mosaicId _ _ _ _ _ _ => (delivery.resolvers.resolveMosaic mosaicId, Vector.replicate 24 0)
  | .addressModification mosaicId _ targetAddress _ _ =>
    (delivery.resolvers.resolveMosaic mosaicId, delivery.resolvers.resolveAddress targetAddress)

theorem valid_execute (positive : 0 < maxMosaicRestrictionValues.toNat) (injective : Injective known)
    (valid : Valid known maxMosaicRestrictionValues.toNat cache) (isKnown : known (deliveryIdentity delivery))
    (executed : execute maxMosaicRestrictionValues cache delivery = .ok next) :
    Valid known maxMosaicRestrictionValues.toNat next := by
  obtain ⟨resolvers, modification⟩ := delivery
  cases modification with
  | globalModification mosaicId referenceMosaicId key previousValue newValue previousType newType =>
    obtain ⟨rules, transition⟩ := executeNotifications_cases globalKind_describes valid injective isKnown executed
    exact transition.valid_next globalKind_describes positive valid isKnown
  | addressModification mosaicId key targetAddress previousValue newValue =>
    obtain ⟨rules, transition⟩ := executeNotifications_cases addressKind_describes valid injective isKnown executed
    exact transition.valid_next addressKind_describes positive valid isKnown

/-- The rollback of an accepted transaction restores the entries. -/
theorem rollback_execute (injective : Injective known) (valid : Valid known maxMosaicRestrictionValues.toNat cache)
    (isKnown : known (deliveryIdentity delivery)) (executed : execute maxMosaicRestrictionValues cache delivery = .ok next)
    {other : MosaicRestrictionCache} (validOther : Valid known maxMosaicRestrictionValues.toNat other)
    (same : SameEntries other next) :
    ∃ restored, rollback other delivery = .ok restored ∧ Valid known maxMosaicRestrictionValues.toNat restored ∧
      SameEntries restored cache := by
  obtain ⟨resolvers, modification⟩ := delivery
  cases modification with
  | globalModification mosaicId referenceMosaicId key previousValue newValue previousType newType =>
    obtain ⟨rules, transition⟩ := executeNotifications_cases globalKind_describes valid injective isKnown executed
    exact transition.restores globalKind_describes validOther isKnown same
  | addressModification mosaicId key targetAddress previousValue newValue =>
    obtain ⟨rules, transition⟩ := executeNotifications_cases addressKind_describes valid injective isKnown executed
    exact transition.restores addressKind_describes validOther isKnown same

/-- Every transaction of the chain was executed on an earlier valid cache. -/
def Consistent (known : MosaicId × Address → Prop) (maxMosaicRestrictionValues : UInt8) :
    List RestrictionDelivery → MosaicRestrictionCache → Prop
  | [], cache => Valid known maxMosaicRestrictionValues.toNat cache
  | delivery :: chain, cache => Valid known maxMosaicRestrictionValues.toNat cache ∧ known (deliveryIdentity delivery) ∧
      ∃ before after, Consistent known maxMosaicRestrictionValues chain before ∧
        execute maxMosaicRestrictionValues before delivery = .ok after ∧ SameEntries cache after

theorem Consistent.valid {chain : List RestrictionDelivery} (consistent : Consistent known maxMosaicRestrictionValues chain cache) :
    Valid known maxMosaicRestrictionValues.toNat cache := by
  cases chain with
  | nil => exact consistent
  | cons _ _ => exact consistent.1

theorem Consistent.of_same {chain : List RestrictionDelivery} {other : MosaicRestrictionCache}
    (consistent : Consistent known maxMosaicRestrictionValues chain cache)
    (valid : Valid known maxMosaicRestrictionValues.toNat other) (same : SameEntries other cache) :
    Consistent known maxMosaicRestrictionValues chain other := by
  cases chain with
  | nil => exact valid
  | cons delivery chain =>
    obtain ⟨_, isKnown, before, after, earlier, executed, sameAfter⟩ := consistent
    exact ⟨valid, isKnown, before, after, earlier, executed, same.trans sameAfter⟩

theorem consistent_advance (positive : 0 < maxMosaicRestrictionValues.toNat) (injective : Injective known)
    {state result : List RestrictionDelivery × MosaicRestrictionCache} {step : ChainStep}
    (isKnown : ∀ delivery, step = .executed delivery → known (deliveryIdentity delivery))
    (consistent : Consistent known maxMosaicRestrictionValues state.1 state.2)
    (advanced : advance maxMosaicRestrictionValues state step = .ok result) :
    Consistent known maxMosaicRestrictionValues result.1 result.2 := by
  obtain ⟨chain, cache⟩ := state
  cases step with
  | executed delivery =>
    rw [advance] at advanced
    cases executed : execute maxMosaicRestrictionValues cache delivery with
    | error _ =>
      rw [executed] at advanced
      cases advanced
    | ok next =>
      rw [executed] at advanced
      obtain rfl := Except.ok.inj advanced
      have knownDelivery := isKnown delivery rfl
      exact ⟨valid_execute positive injective consistent.valid knownDelivery executed, knownDelivery, cache, next, consistent,
        executed, SameEntries.refl next⟩
  | rolledBack =>
    cases chain with
    | nil =>
      obtain rfl := Except.ok.inj advanced
      exact consistent
    | cons delivery chain =>
      obtain ⟨valid, knownDelivery, before, after, earlier, executed, same⟩ := consistent
      obtain ⟨restored, undone, validRestored, sameRestored⟩ :=
        rollback_execute injective earlier.valid knownDelivery executed valid same
      rw [advance, undone] at advanced
      obtain rfl := Except.ok.inj advanced
      exact earlier.of_same validRestored sameRestored

end Deliveries

/-- The identities of restrictions that transactions change have different hashes. -/
def CollisionFree [Sha3] (deliveries : List RestrictionDelivery) : Prop :=
  Injective fun identity => ∃ delivery ∈ deliveries, deliveryIdentity delivery = identity

def executedDeliveries (steps : List ChainStep) : List RestrictionDelivery :=
  steps.filterMap fun step =>
    match step with
    | .executed delivery => some delivery
    | .rolledBack => none

/-- Entries have between one and the maximum number of rules and are loaded from their saved bytes. -/
def WellStored (maxMosaicRestrictionValues : UInt8) (cache : MosaicRestrictionCache) : Prop :=
  ∀ hash entry, cache.lookup hash = some entry →
    (0 < getRestrictionCount entry ∧ getRestrictionCount entry ≤ maxMosaicRestrictionValues.toNat) ∧
    ∀ rest, ∃ loaded, load (save entry ++ rest) = .ok (loaded, rest) ∧ SameEntry loaded entry

/-- Transactions that any chain accepts are rolled back to the same entries, and what is stored is well formed. -/
def RestoresRestrictions [Sha3] (maxMosaicRestrictionValues : UInt8) : Prop :=
  (∀ first second, SameEntry first second → save first = save second) ∧
  ∀ steps deliveries chain cache final, CollisionFree (executedDeliveries steps ++ deliveries) →
    steps.foldlM (advance maxMosaicRestrictionValues) ([], ∅) = .ok (chain, cache) →
    deliveries.foldlM (execute maxMosaicRestrictionValues) cache = .ok final →
    WellStored maxMosaicRestrictionValues final ∧
    ∀ done undone, deliveries = done ++ undone → ∃ middle restored,
      done.foldlM (execute maxMosaicRestrictionValues) cache = .ok middle ∧ undone.reverse.foldlM rollback final = .ok restored ∧
        SameEntries restored middle ∧ WellStored maxMosaicRestrictionValues restored

theorem wellStored_of_valid [Sha3] {known : MosaicId × Address → Prop} {maxMosaicRestrictionValues : UInt8}
    {cache : MosaicRestrictionCache} (valid : Valid known maxMosaicRestrictionValues.toNat cache) :
    WellStored maxMosaicRestrictionValues cache := by
  intro hash entry found
  have stored := (valid hash entry found).1
  refine ⟨?_, load_save stored⟩
  cases entry with
  | addressEntry restriction => exact ⟨List.length_pos_iff.mpr stored.filled, stored.bounded⟩
  | globalEntry restriction => exact ⟨List.length_pos_iff.mpr stored.filled, stored.bounded⟩

theorem restoresRestrictions_of_positive [Sha3] {maxMosaicRestrictionValues : UInt8}
    (positive : 0 < maxMosaicRestrictionValues.toNat) : RestoresRestrictions maxMosaicRestrictionValues := by
  refine ⟨fun _ _ => save_eq, ?_⟩
  intro steps deliveries chain cache final injective reached committed
  let known := fun identity =>
    ∃ delivery ∈ executedDeliveries steps ++ deliveries, deliveryIdentity delivery = identity
  have consistent : Consistent known maxMosaicRestrictionValues chain cache := by
    refine @Runs.along_run _ _ _ (advance maxMosaicRestrictionValues)
      (fun state => Consistent known maxMosaicRestrictionValues state.1 state.2) steps ?_ ([], ∅) (chain, cache) nofun reached
    intro step member state next earlier advanced
    refine consistent_advance positive injective ?_ earlier advanced
    rintro delivery rfl
    exact ⟨delivery, List.mem_append_left _ (List.mem_filterMap.mpr ⟨_, member, rfl⟩), rfl⟩
  have preserved (part : List RestrictionDelivery) (included : part ⊆ deliveries) : ∀ delivery ∈ part, ∀ state next,
      Valid known maxMosaicRestrictionValues.toNat state → execute maxMosaicRestrictionValues state delivery = .ok next →
        Valid known maxMosaicRestrictionValues.toNat next := fun delivery member _ _ valid executed =>
    valid_execute positive injective valid ⟨delivery, List.mem_append_right _ (included member), rfl⟩ executed
  have validFinal := Runs.along_run (preserved deliveries (List.Subset.refl _)) consistent.valid committed
  refine ⟨wellStored_of_valid validFinal, ?_⟩
  rintro done undone rfl
  rw [List.foldlM_append] at committed
  obtain ⟨middle, first, second⟩ := Runs.bind_eq_ok.mp committed
  have validMiddle := Runs.along_run (preserved done (List.subset_append_left _ _)) consistent.valid first
  obtain ⟨restored, undoes, validRestored, same⟩ :=
    Runs.foldlM_reverse_restores (preserved undone (List.subset_append_right _ _))
      (fun delivery member _ _ _ valid executed validOther sameOther => rollback_execute injective valid
        ⟨delivery, List.mem_append_right _ (List.mem_append_right _ member), rfl⟩ executed validOther sameOther)
      validMiddle second validFinal (SameEntries.refl final)
  exact ⟨middle, restored, first, undoes, same, wellStored_of_valid validRestored⟩

namespace Samples

def resolvers : ResolverContext := ⟨fun id => id, fun address => address⟩

/-- The first rule of an address restriction. -/
def addition : RestrictionDelivery :=
  ⟨resolvers, .addressModification 1 2 (Vector.replicate 24 3) sentinelRemovalValue 4⟩

def added : MosaicRestrictionEntry := .addressEntry ⟨(1, Vector.replicate 24 3), [(2, 4)]⟩

theorem addition_executes [Sha3] (maxMosaicRestrictionValues : UInt8) :
    execute maxMosaicRestrictionValues ∅ addition = .ok ((∅ : MosaicRestrictionCache).insert (entryKey added) added) := rfl

theorem addition_collisionFree [Sha3] : CollisionFree (executedDeliveries [] ++ [addition]) := by
  rintro _ _ ⟨first, memberFirst, rfl⟩ ⟨second, memberSecond, rfl⟩ _
  rw [List.mem_singleton.mp memberFirst, List.mem_singleton.mp memberSecond]

end Samples

theorem not_restoresRestrictions_zero [Sha3] : ¬RestoresRestrictions 0 := by
  intro restores
  have executed : [Samples.addition].foldlM (execute 0) ∅ =
      .ok ((∅ : MosaicRestrictionCache).insert (entryKey Samples.added) Samples.added) := Samples.addition_executes 0
  have wellStored := (restores.2 [] [Samples.addition] [] ∅ _ Samples.addition_collisionFree rfl executed).1
  have bounded := (wellStored _ _ (Finmap.lookup_insert _)).1.2
  exact absurd bounded (by decide)

/-- Mosaic restrictions are restored and well stored exactly if the maximum number of rules is not zero. -/
theorem restoresRestrictions_iff [Sha3] (maxMosaicRestrictionValues : UInt8) :
    RestoresRestrictions maxMosaicRestrictionValues ↔ 0 < maxMosaicRestrictionValues := by
  constructor
  · intro restores
    by_contra zero
    have isZero : maxMosaicRestrictionValues = 0 := UInt8.le_antisymm (UInt8.not_lt.mp zero) (UInt8.zero_le)
    rw [isZero] at restores
    exact not_restoresRestrictions_zero restores
  · intro positive
    exact restoresRestrictions_of_positive (UInt8.lt_iff_toNat_lt.mp positive)

/-- Without room for rules the first rule is still stored. -/
theorem zero_maximum_stores_rule : letI := sha3Digest
    ∃ final, execute 0 ∅ Samples.addition = .ok final ∧ final.lookup (entryKey Samples.added) = some Samples.added ∧
      ¬(getRestrictionCount Samples.added ≤ (0 : UInt8).toNat) ∧ ¬RestoresRestrictions 0 := by
  let digest := sha3Digest
  exact ⟨_, Samples.addition_executes 0, Finmap.lookup_insert _, by decide, not_restoresRestrictions_zero⟩

end Catapult.MosaicRestriction
