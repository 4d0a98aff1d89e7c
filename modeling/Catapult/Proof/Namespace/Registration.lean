import Catapult.Proof.Namespace.Rollback

/-
This file proves that the validators and the observer of root registrations agree on the lifetimes.
-/

namespace Catapult.Namespaces

open NamespaceCache RootNamespaceHistory

/-- The heights of all lifetimes that can be requested at the height of a block fit. -/
structure Sensible (config : NamespaceConfiguration) (height : Height) : Prop where
  positive : 0 < config.maxNamespaceDuration
  fits : height.toNat + config.maxNamespaceDuration.toNat + config.gracePeriodDuration.toNat < 2 ^ 64

instance (config : NamespaceConfiguration) (height : Height) : Decidable (Sensible config height) :=
  decidable_of_iff (0 < config.maxNamespaceDuration ∧
    height.toNat + config.maxNamespaceDuration.toNat + config.gracePeriodDuration.toNat < 2 ^ 64)
    ⟨fun both => ⟨both.1, both.2⟩, fun sensible => ⟨sensible.positive, sensible.fits⟩⟩

/-- A chain grows by blocks at sensible heights only. -/
inductive ReachableSensibly (config : NamespaceConfiguration) (paths : NamespacePaths) : NamespaceChain → Prop where
  | nemesis : ReachableSensibly config paths ⟨NamespaceCache.create config.gracePeriodDuration, 0, []⟩
  | commit {chain : NamespaceChain} {block : Block} {accountExists : Address → Bool} {next : NamespaceCache} :
      ReachableSensibly config paths chain → chain.height < block.height → Sensible config block.height →
      (∀ notification ∈ block.notifications, paths.Names notification) →
      executeAll config accountExists block.height chain.cache block.notifications = .ok next →
      ReachableSensibly config paths { chain with cache := next, blocks := block :: chain.blocks }
  | rollback {chain : NamespaceChain} {block : Block} {older : List Block} {previous : NamespaceCache} :
      ReachableSensibly config paths chain → chain.blocks = block :: older →
      rollbackAll block.height chain.cache block.notifications = .ok previous →
      ReachableSensibly config paths { chain with cache := previous, blocks := older }
  | finalize {chain : NamespaceChain} {newer final : List Block} {height : Height} :
      ReachableSensibly config paths chain → chain.blocks = newer ++ final → chain.finalizedHeight ≤ height →
      (∀ block ∈ final, block.height ≤ height) → (∀ block ∈ newer, height < block.height) →
      ReachableSensibly config paths { chain with finalizedHeight := height, blocks := newer }
  | prune {chain : NamespaceChain} {height : Height} :
      ReachableSensibly config paths chain → height ≤ chain.finalizedHeight →
      ReachableSensibly config paths { chain with cache := (chain.cache.prune height).2 }

theorem ReachableSensibly.reachable {config : NamespaceConfiguration} {paths : NamespacePaths} {chain : NamespaceChain}
    (sensibly : ReachableSensibly config paths chain) : Reachable config paths chain := by
  induction sensibly with
  | nemesis => exact .nemesis
  | commit _ above _ named executed ih => exact .commit ih above named executed
  | rollback _ blocks undone ih => exact .rollback ih blocks undone
  | finalize _ blocks later covered above ih => exact .finalize ih blocks later covered above
  | prune _ final ih => exact .prune ih final

/-- The duration is in the range of the configuration or eternal in the nemesis block. -/
def Requested (config : NamespaceConfiguration) (height : Height) (duration : BlockDuration) : Prop :=
  (0 < duration ∧ duration ≤ config.maxNamespaceDuration) ∨ (duration = eternalArtifactDuration ∧ height = 1)

/-- A renewal finds an active root of the same owner. -/
def renewed (cache : NamespaceCache) (owner : Address) (id : NamespaceId) (height : Height) : Option NamespaceEntry :=
  (cache.find id).filter fun entry => isRenewal entry.root.newest owner height

/-- The end of the lifetime is computed without a wrap. -/
def exactEnd (cache : NamespaceCache) (owner : Address) (id : NamespaceId) (duration : BlockDuration) (height : Height) : Nat :=
  match renewed cache owner id height with
  | some entry => entry.root.newest.lifetime.endHeight.toNat + duration.toNat
  | none =>
    if duration = eternalArtifactDuration then 2 ^ 64 - 1
    else height.toNat + duration.toNat + cache.gracePeriodDuration.toNat

def startOf (cache : NamespaceCache) (owner : Address) (id : NamespaceId) (height : Height) : Height :=
  ((renewed cache owner id height).map fun entry => entry.root.newest.lifetime.start).getD height

section Lifetime

variable {config : NamespaceConfiguration} {cache : NamespaceCache} {height : Height} {owner : Address} {id : NamespaceId}
  {duration : BlockDuration}

/-- A lifetime whose end fits is created as requested. -/
theorem create_exact {start endHeight : Height} (gracePeriodDuration : BlockDuration) (positive : start < endHeight)
    (fits : endHeight = maxHeight ∨ endHeight.toNat + gracePeriodDuration.toNat < 2 ^ 64) :
    ∃ lifetime, NamespaceLifetime.create start endHeight gracePeriodDuration = .ok lifetime ∧ lifetime.start = start ∧
      lifetime.endHeight.toNat =
        if endHeight = maxHeight then 2 ^ 64 - 1 else endHeight.toNat + gracePeriodDuration.toNat := by
  by_cases last : endHeight = maxHeight
  · subst last
    refine ⟨⟨start, maxHeight, positive⟩, ?_, rfl, ?_⟩
    · rw [NamespaceLifetime.create, dif_pos positive]
      simp
    · rw [if_pos rfl]
      rfl
  · have sum : (endHeight + gracePeriodDuration).toNat = endHeight.toNat + gracePeriodDuration.toNat := by
      rw [UInt64.toNat_add, Nat.mod_eq_of_lt (fits.resolve_left last)]
    have above : ¬ endHeight + gracePeriodDuration < endHeight := by
      rw [UInt64.lt_iff_toNat_lt, sum]
      omega
    refine ⟨⟨start, endHeight + gracePeriodDuration, ?_⟩, ?_, rfl, ?_⟩
    · exact UInt64.lt_of_lt_of_le positive (UInt64.not_lt.mp above)
    · rw [NamespaceLifetime.create, dif_pos positive]
      simp [last, above]
    · rw [if_neg last, sum]

/-- The first lifetime of an owner ends after its duration and the grace period. -/
theorem calculateNewLifetime_exact (sensible : Sensible config height) (requested : Requested config height duration) :
    ∃ lifetime, calculateNewLifetime duration height config.gracePeriodDuration = .ok lifetime ∧
      lifetime.start = height ∧ lifetime.endHeight.toNat =
        if duration = eternalArtifactDuration then 2 ^ 64 - 1
        else height.toNat + duration.toNat + config.gracePeriodDuration.toNat := by
  have fits := sensible.fits
  obtain ⟨positive, limit⟩ | ⟨rfl, rfl⟩ := requested
  · have finite : duration ≠ eternalArtifactDuration := fun eternal => UInt64.ne_of_lt positive eternal.symm
    rw [UInt64.le_iff_toNat_le] at limit
    rw [UInt64.lt_iff_toNat_lt, UInt64.toNat_zero] at positive
    have sum : (height + duration).toNat = height.toNat + duration.toNat := by
      rw [UInt64.toNat_add, Nat.mod_eq_of_lt (by omega)]
    have later : height < height + duration := by
      rw [UInt64.lt_iff_toNat_lt, sum]
      omega
    obtain ⟨lifetime, created, start, ends⟩ := create_exact config.gracePeriodDuration later (.inr (by omega))
    refine ⟨lifetime, ?_, start, ?_⟩
    · rw [calculateNewLifetime, if_neg finite]
      exact created
    · rw [if_neg finite, ends, sum]
      split
      · next last =>
        -- a sum that is the greatest height leaves no room for a grace period
        have greatest : height.toNat + duration.toNat = 2 ^ 64 - 1 := sum.symm.trans (congrArg UInt64.toNat last)
        omega
      · rfl
  · obtain ⟨lifetime, created, start, ends⟩ := create_exact config.gracePeriodDuration
      (show (1 : Height) < maxHeight by decide) (.inl rfl)
    refine ⟨lifetime, created, start, ?_⟩
    rw [if_pos rfl, ends, if_pos rfl]

/-- The observer computes the lifetime that the validators have checked. -/
theorem calculateLifetime_exact (grace : cache.gracePeriodDuration = config.gracePeriodDuration)
    (sensible : Sensible config height) (requested : Requested config height duration)
    (fits : namespaceDurationOverflowValidator config cache height id duration = .ok .success) :
    ∃ lifetime, calculateLifetime cache owner id duration height = .ok lifetime ∧ lifetime.start = startOf cache owner id height ∧
      lifetime.endHeight.toNat = exactEnd cache owner id duration height := by
  obtain ⟨fresh, created, start, ends⟩ := calculateNewLifetime_exact sensible requested
  unfold calculateLifetime startOf exactEnd renewed
  rw [grace, created]
  cases found : cache.find id with
  | none => exact ⟨fresh, rfl, start, ends⟩
  | some entry =>
    cases renewal : isRenewal entry.root.newest owner height with
    | false =>
      refine ⟨fresh, ?_, ?_, ?_⟩
      · change (if isRenewal entry.root.newest owner height = true then _ else Except.ok fresh) = _
        rw [if_neg (Bool.not_eq_true _ ▸ renewal)]
      · simpa [Option.filter, renewal] using start
      · simpa [Option.filter, renewal] using ends
    | true =>
      have active : entry.root.newest.lifetime.isActive height = true := by
        rw [isRenewal, Bool.and_eq_true] at renewal
        exact renewal.1
      have bound := fits_of_success fits found active
      have above := of_decide_eq_false bound
      have sum : (entry.root.newest.lifetime.endHeight + duration).toNat =
          entry.root.newest.lifetime.endHeight.toNat + duration.toNat := by
        rw [UInt64.lt_iff_toNat_lt, UInt64.toNat_add] at above
        rw [UInt64.toNat_add]
        have small := duration.toNat_lt
        have large := entry.root.newest.lifetime.endHeight.toNat_lt
        omega
      have later : entry.root.newest.lifetime.start < entry.root.newest.lifetime.endHeight + duration :=
        UInt64.lt_of_lt_of_le entry.root.newest.lifetime.positive (UInt64.not_lt.mp above)
      obtain ⟨lifetime, extended, startLifetime, endsLifetime⟩ := create_exact 0 later
        (.inr ((entry.root.newest.lifetime.endHeight + duration).toNat_lt))
      refine ⟨lifetime, ?_, ?_, ?_⟩
      · change (if isRenewal entry.root.newest owner height = true then _ else Except.ok fresh) = _
        rw [if_pos renewal]
        exact extended
      · simpa [Option.filter, renewal] using startLifetime
      · have exact : lifetime.endHeight.toNat = entry.root.newest.lifetime.endHeight.toNat + duration.toNat := by
          rw [endsLifetime, ← sum]
          split
          · next last =>
            rw [last]
            rfl
          · rfl
        simpa [Option.filter, renewal] using exact

end Lifetime

namespace NamespaceCache

variable (cache : NamespaceCache)

theorem gracePeriodDuration_pruneHistory (height : Height) (ids : List NamespaceId) (id : NamespaceId) :
    (pruneHistory height (ids, cache) id).2.gracePeriodDuration = cache.gracePeriodDuration := by
  unfold pruneHistory
  dsimp only
  split <;> rfl

theorem gracePeriodDuration_prune (height : Height) : (cache.prune height).2.gracePeriodDuration = cache.gracePeriodDuration := by
  unfold prune
  generalize ([] : List NamespaceId) = ids
  generalize cache.rootNamespaceIdsByExpiryHeight.identifiers height = expiring
  induction expiring generalizing cache ids with
  | nil => rfl
  | cons id rest ih =>
    rw [List.foldl_cons]
    exact (ih _ _).trans (gracePeriodDuration_pruneHistory cache height ids id)

/-- No operation changes the grace period. -/
theorem gracePeriodDuration_perform (operation : Operation) :
    (cache.perform operation).2.gracePeriodDuration = cache.gracePeriodDuration := by
  cases operation with
  | insertRoot id ownerAddress lifetime =>
    simp only [NamespaceCache.perform, insertRoot]
    repeat' split
    all_goals rfl
  | insertChild ns =>
    simp only [NamespaceCache.perform, insertChild]
    repeat' split
    all_goals rfl
  | setAlias id namespaceAlias =>
    simp only [NamespaceCache.perform, setAlias]
    repeat' split
    all_goals rfl
  | remove id =>
    simp only [NamespaceCache.perform, remove, removeRoot, removeChild]
    repeat' split
    all_goals rfl
  | prune height => exact gracePeriodDuration_prune cache height

end NamespaceCache

/-- Every lifetime is longer than the grace period. -/
structure Graceful (config : NamespaceConfiguration) (cache : NamespaceCache) : Prop where
  grace : cache.gracePeriodDuration = config.gracePeriodDuration
  longer : ∀ id, ∀ lifetime ∈ lifetimes cache id,
    lifetime.start.toNat + config.gracePeriodDuration.toNat < lifetime.endHeight.toNat

section Graceful

variable {config : NamespaceConfiguration} {paths : NamespacePaths} {cache next previous : NamespaceCache}
  {finalizedHeight height : Height} {registrations : Registrations} {accountExists : Address → Bool} {owner : Address}
  {id : NamespaceId} {duration : BlockDuration}

theorem graceful_create (config : NamespaceConfiguration) :
    Graceful config (NamespaceCache.create config.gracePeriodDuration) := ⟨rfl, fun _ _ member => (nomatch member)⟩

theorem Graceful.of_subset (graceful : Graceful config cache) (grace : next.gracePeriodDuration = cache.gracePeriodDuration)
    (fewer : ∀ id, ∀ lifetime ∈ lifetimes next id, lifetime ∈ lifetimes cache id) : Graceful config next :=
  ⟨grace.trans graceful.grace, fun id lifetime member => graceful.longer id lifetime (fewer id lifetime member)⟩

/-- The grace period test has an outcome for every root. -/
theorem Graceful.isActiveExcludingGracePeriod (graceful : Graceful config cache) {lifetime : NamespaceLifetime}
    (member : lifetime ∈ lifetimes cache id) (height : Height) :
    ∃ active, lifetime.isActiveExcludingGracePeriod height cache.gracePeriodDuration = .ok active := by
  have longer := graceful.longer id lifetime member
  have ordered : lifetime.start ≤ lifetime.endHeight := UInt64.le_of_lt lifetime.positive
  have above : ¬ lifetime.endHeight - lifetime.start ≤ config.gracePeriodDuration := by
    rw [UInt64.le_iff_toNat_le, UInt64.toNat_sub_of_le _ _ ordered]
    omega
  rw [graceful.grace, NamespaceLifetime.isActiveExcludingGracePeriod, if_neg above]
  exact ⟨_, rfl⟩

theorem lifetimes_head (consistent : Consistent paths cache) {entry : NamespaceEntry} (rooted : paths.path id = [id])
    (found : cache.find id = some entry) : (lifetimes cache id).head? = some entry.root.newest.lifetime := by
  obtain ⟨visible, older, known⟩ := find_eq_some consistent found
  have root : entry.ns.rootId = id := by
    rw [consistent.rootId_of_lookup visible, Consistent.rootOf_self rooted]
  rw [root] at known
  rw [lifetimes_of_lookup known]
  rfl

/-- The new lifetime is longer than the grace period too. -/
theorem Graceful.exactEnd (graceful : Graceful config cache) (consistent : Consistent paths cache) (owner : Address)
    (rooted : paths.path id = [id]) (sensible : Sensible config height) (requested : Requested config height duration) :
    (startOf cache owner id height).toNat + config.gracePeriodDuration.toNat <
      Namespaces.exactEnd cache owner id duration height := by
  unfold startOf Namespaces.exactEnd
  cases found : renewed cache owner id height with
  | none =>
    have fits := sensible.fits
    have positive := UInt64.lt_iff_toNat_lt.mp sensible.positive
    rw [UInt64.toNat_zero] at positive
    rw [graceful.grace]
    simp only [Option.map_none, Option.getD_none]
    obtain ⟨some, _⟩ | ⟨rfl, rfl⟩ := requested
    · have finite : duration ≠ eternalArtifactDuration := fun eternal => UInt64.ne_of_lt some eternal.symm
      rw [UInt64.lt_iff_toNat_lt, UInt64.toNat_zero] at some
      rw [if_neg finite]
      omega
    · rw [if_pos rfl]
      omega
  | some entry =>
    have known : cache.find id = some entry := by
      unfold renewed at found
      exact (Option.filter_eq_some_iff.mp found).1
    have member := List.mem_of_mem_head? (lifetimes_head consistent rooted known)
    have longer := graceful.longer id _ member
    simp only [Option.map_some, Option.getD_some]
    omega

/-- A duration that the validators accept can be requested. -/
theorem requested_of_accepts (accepted : accepts config accountExists cache height (.rootNamespace owner id duration)) :
    Requested config height duration := by
  have ranged := accepted (rootNamespaceValidator config duration) (by simp [validators])
  have available := accepted (rootNamespaceAvailabilityValidator cache height owner id duration) (by simp [validators])
  by_cases eternal : duration = eternalArtifactDuration
  · refine .inr ⟨eternal, ?_⟩
    by_contra later
    rw [rootNamespaceAvailabilityValidator, if_pos ⟨later, eternal⟩] at available
    cases available
  · refine .inl ⟨UInt64.pos_iff_ne_zero.mpr eternal, ?_⟩
    by_contra above
    rw [rootNamespaceValidator, if_pos ⟨eternal, fun range => above range.2⟩] at ranged
    cases ranged

theorem Graceful.insertRoot (graceful : Graceful config cache) (consistent : Consistent paths cache) (id : NamespaceId)
    (owner : Address) {lifetime : NamespaceLifetime}
    (longer : lifetime.start.toNat + config.gracePeriodDuration.toNat < lifetime.endHeight.toNat) :
    Graceful config (cache.insertRoot id owner lifetime).2 := by
  refine ⟨(gracePeriodDuration_perform cache (.insertRoot id owner lifetime)).trans graceful.grace, ?_⟩
  intro other member listed
  rw [consistent.lifetimes_insertRoot] at listed
  split at listed
  · obtain rfl | before := List.mem_cons.mp listed
    · exact longer
    · exact graceful.longer id member before
  · exact graceful.longer other member listed

theorem Graceful.aliased (graceful : Graceful config cache) (consistent : Consistent paths cache) {mode : NotifyMode}
    {aliasAction : AliasAction} {aliased : NamespaceAlias}
    (observed : aliasedObserver cache mode id aliasAction aliased = (.ok (), next)) : Graceful config next := by
  have same := consistent.lifetimes_setAlias id (if shouldLink aliasAction mode then aliased else .none)
  have grace := gracePeriodDuration_perform cache (.setAlias id (if shouldLink aliasAction mode then aliased else .none))
  unfold aliasedObserver at observed
  rw [NamespaceCache.perform, observed] at grace
  rw [observed] at same
  exact graceful.of_subset grace fun other lifetime member => by rwa [same.1] at member

theorem Graceful.execute (graceful : Graceful config cache) (consistent : Consistent paths cache)
    (sensible : Sensible config height) {notification : Notification} (named : paths.Names notification)
    (executed : Namespaces.execute config accountExists height cache notification = .ok next) : Graceful config next := by
  obtain ⟨accepted, observed⟩ := execute_eq_ok executed
  cases notification with
  | rootNamespace owner id duration =>
    have fits := accepted (namespaceDurationOverflowValidator config cache height id duration) (by simp [validators])
    have requested := requested_of_accepts accepted
    obtain ⟨lifetime, calculated, start, ends⟩ := calculateLifetime_exact graceful.grace sensible requested fits
    rw [observe, rootNamespaceObserver, calculated] at observed
    dsimp only at observed
    have longer := graceful.exactEnd consistent owner named sensible requested
    rw [← start, ← ends] at longer
    have kept := graceful.insertRoot consistent id owner longer
    rw [observed] at kept
    exact kept
  | childNamespace owner id parentId =>
    simp only [observe, childNamespaceObserver] at observed
    split at observed
    · cases observed
    · next parent found =>
      have same := consistent.lifetimes_insertChild (parent.ns.createChild id)
      have grace := gracePeriodDuration_perform cache (.insertChild (parent.ns.createChild id))
      rw [NamespaceCache.perform, observed] at grace
      rw [observed] at same
      exact graceful.of_subset grace fun other lifetime member => by rwa [same.1] at member
  | namespaceRequired owner id =>
    cases observed
    exact graceful
  | aliasLink id aliasAction =>
    cases observed
    exact graceful
  | aliasedAddress id aliasAction aliasedData => exact graceful.aliased consistent observed
  | aliasedMosaicId id aliasAction aliasedData => exact graceful.aliased consistent observed

/-- A namespace is removed with at most one lifetime. -/
theorem Graceful.remove (graceful : Graceful config cache) (consistent : Consistent paths cache)
    (removed : cache.remove id = (.ok (), next)) : Graceful config next := by
  have grace := gracePeriodDuration_perform cache (.remove id)
  rw [NamespaceCache.perform, removed] at grace
  refine graceful.of_subset grace ?_
  intro other lifetime member
  cases visible : cache.namespaceById.lookup id with
  | none =>
    rw [NamespaceCache.remove, visible] at removed
    cases removed
  | some ns =>
    by_cases root : ns.rootId = id
    · rw [remove_of_root visible root] at removed
      have succeeded : (cache.removeRoot id).1 = .ok () := by rw [removed]
      obtain ⟨newest, older, listed, changed, _⟩ := consistent.lifetimes_removeRoot succeeded
      rw [removed] at changed
      rw [changed] at member
      split at member
      · next same =>
        rw [same, listed]
        exact List.mem_cons_of_mem _ member
      · exact member
    · rw [remove_of_child visible root] at removed
      have same := consistent.lifetimes_removeChild ns
      rw [removed] at same
      rwa [same.1] at member

theorem Graceful.rollback (graceful : Graceful config cache) (consistent : Consistent paths cache)
    {notification : Notification} (undone : Namespaces.rollback height cache notification = .ok previous) :
    Graceful config previous := by
  have observed := rollback_eq_ok undone
  cases notification with
  | rootNamespace owner id duration => exact graceful.remove consistent observed
  | childNamespace owner id parentId => exact graceful.remove consistent observed
  | namespaceRequired owner id =>
    cases observed
    exact graceful
  | aliasLink id aliasAction =>
    cases observed
    exact graceful
  | aliasedAddress id aliasAction aliasedData => exact graceful.aliased consistent observed
  | aliasedMosaicId id aliasAction aliasedData => exact graceful.aliased consistent observed

theorem Graceful.executeAll (graceful : Graceful config cache) (intact : Intact paths finalizedHeight registrations cache)
    (late : finalizedHeight ≤ height) (bounded : Bounded registrations height) (sensible : Sensible config height)
    {notifications : List Notification} (named : ∀ notification ∈ notifications, paths.Names notification)
    (executed : Namespaces.executeAll config accountExists height cache notifications = .ok next) : Graceful config next := by
  induction notifications generalizing cache registrations with
  | nil =>
    cases executed
    exact graceful
  | cons notification rest ih =>
    rw [Namespaces.executeAll, List.foldlM_cons] at executed
    obtain ⟨middle, first, later⟩ := Runs.bind_eq_ok.mp executed
    have names := named notification List.mem_cons_self
    exact ih (graceful.execute intact.consistent sensible names first) (intact.execute late bounded names first)
      (bounded.register notification) (fun other listed => named other (List.mem_cons_of_mem _ listed)) later

theorem Graceful.rollbackAll {notifications : List Notification} (graceful : Graceful config cache)
    (intact : Intact paths finalizedHeight (notifications.foldl (register height) registrations) cache)
    (named : ∀ notification ∈ notifications, paths.Names notification)
    (undone : Namespaces.rollbackAll height cache notifications = .ok previous) : Graceful config previous := by
  -- the last notification is undone first
  induction notifications using List.reverseRecOn generalizing cache with
  | nil =>
    cases undone
    exact graceful
  | append_singleton rest notification ih =>
    rw [Namespaces.rollbackAll, List.reverse_append, List.reverse_singleton, List.singleton_append, List.foldlM_cons] at undone
    obtain ⟨middle, first, later⟩ := Runs.bind_eq_ok.mp undone
    rw [List.foldl_append, List.foldl_cons, List.foldl_nil] at intact
    refine ih (graceful.rollback intact.consistent first) (intact.rollback (named notification (by simp)) first) ?_ later
    exact fun other listed => named other (List.mem_append_left _ listed)

theorem Graceful.prune (graceful : Graceful config cache) (consistent : Consistent paths cache) (height : Height) :
    Graceful config (cache.prune height).2 := by
  refine graceful.of_subset (gracePeriodDuration_prune cache height) ?_
  intro id lifetime member
  obtain same | filtered := (consistent.lifetimes_prune height id).2
  · rwa [same] at member
  · rw [filtered] at member
    exact List.mem_of_mem_filter member

end Graceful

variable {config : NamespaceConfiguration} {paths : NamespacePaths} {chain : NamespaceChain} {height : Height}

theorem ReachableSensibly.graceful (sensibly : ReachableSensibly config paths chain) : Graceful config chain.cache := by
  induction sensibly with
  | nemesis => exact graceful_create config
  | commit before above sensible named executed graceful =>
    have whole := before.reachable.intactChain
    obtain ⟨late, bounded⟩ := whole.bounded above
    exact graceful.executeAll whole.intact late bounded sensible named executed
  | @rollback chain block older previous before blocks undone graceful =>
    have whole := before.reachable.intactChain
    have intact := whole.intact
    rw [blocks] at intact
    exact graceful.rollbackAll intact (whole.named block (by rw [blocks]; exact List.mem_cons_self)) undone
  | finalize _ _ _ _ _ graceful => exact graceful
  | prune before _ graceful => exact graceful.prune before.reachable.intactChain.intact.consistent _

/-- The lifetime of a registration is stored as the validators expect it. -/
structure SoundRegistration (config : NamespaceConfiguration) (cache : NamespaceCache) (height : Height) (owner : Address)
    (id : NamespaceId) (duration : BlockDuration) (lifetime : NamespaceLifetime) : Prop where
  calculated : calculateLifetime cache owner id duration height = .ok lifetime
  observed : (rootNamespaceObserver cache .commit height owner id duration).1 = .ok ()
  stored : (lifetimes (rootNamespaceObserver cache .commit height owner id duration).2 id).head? = some lifetime
  unwrapped : lifetime.endHeight.toNat = exactEnd cache owner id duration height
  later : ∀ previous ∈ (lifetimes cache id).head?, previous.endHeight < lifetime.endHeight
  owned : ∀ entry, cache.find id = some entry → entry.root.newest.lifetime.isActive height = true →
    entry.root.newest.ownerAddress = owner
  agreed : ∀ entry, cache.find id = some entry → isRenewal entry.root.newest owner height = true →
    lifetime.endHeight = entry.root.newest.lifetime.endHeight + duration ∧
      lifetime.endHeight ≤ calculateMaxLifetimeEnd height (config.maxNamespaceDuration + config.gracePeriodDuration)

/-- The validator compares the end that a renewal gets with the greatest one. -/
theorem end_le_of_success {cache : NamespaceCache} {id : NamespaceId} {duration : BlockDuration} {entry : NamespaceEntry}
    (fits : namespaceDurationOverflowValidator config cache height id duration = .ok .success)
    (found : cache.find id = some entry) (active : entry.root.newest.lifetime.isActive height = true) :
    entry.root.newest.lifetime.endHeight + duration ≤
      calculateMaxLifetimeEnd height (config.maxNamespaceDuration + config.gracePeriodDuration) := by
  unfold namespaceDurationOverflowValidator at fits
  rw [found] at fits
  split at fits
  · cases fits
  · dsimp only at fits
    rw [if_neg (not_not.mpr active)] at fits
    split at fits
    · cases fits
    · split at fits
      · cases fits
      · next within => exact UInt64.not_lt.mp within

/-- Every accepted registration on a reachable cache is sound and no root is as short as the grace period. -/
theorem accepted_registration_sound {accountExists : Address → Bool} {notifications : List Notification}
    {cache : NamespaceCache} (sensibly : ReachableSensibly config paths chain) (above : chain.height < height)
    (sensible : Sensible config height) (named : ∀ notification ∈ notifications, paths.Names notification)
    (executed : executeAll config accountExists height chain.cache notifications = .ok cache) :
    (∀ rootId history, cache.historyById.lookup rootId = some history → ∀ root ∈ history.roots, ∀ tested,
      ∃ active, root.lifetime.isActiveExcludingGracePeriod tested cache.gracePeriodDuration = .ok active) ∧
    ∀ owner id duration, paths.path id = [id] → Requested config height duration →
      namespaceDurationOverflowValidator config cache height id duration = .ok .success →
      rootNamespaceAvailabilityValidator cache height owner id duration = .ok .success →
      ∃ lifetime, SoundRegistration config cache height owner id duration lifetime := by
  have whole := sensibly.reachable.intactChain
  obtain ⟨late, bounded⟩ := whole.bounded above
  obtain ⟨intact, boundedNext⟩ := whole.intact.executeAll late bounded named executed
  have graceful := sensibly.graceful.executeAll whole.intact late bounded sensible named executed
  constructor
  · intro rootId history found root member tested
    have listed : root.lifetime ∈ lifetimes cache rootId := by
      rw [lifetimes_of_lookup found]
      exact List.mem_map_of_mem member
    exact graceful.isActiveExcludingGracePeriod listed tested
  · intro owner id duration rooted requested fits available
    obtain ⟨lifetime, calculated, _, ends⟩ := calculateLifetime_exact graceful.grace sensible requested fits
    have later := (calculateLifetime_later intact.consistent rooted (intact.timely late boundedNext id) available fits
      calculated).1
    have observer : rootNamespaceObserver cache .commit height owner id duration = cache.insertRoot id owner lifetime := by
      rw [rootNamespaceObserver, calculated]
    refine ⟨lifetime, calculated, ?_, ?_, ends, later, ?_, ?_⟩
    · rw [observer]
      cases found : cache.historyById.lookup id with
      | none => rw [intact.consistent.insertRoot_new found]
      | some history =>
        obtain ⟨run, older, rfl⟩ := intact.consistent.exists_run found
        rw [intact.consistent.insertRoot_known found rfl]
    · rw [observer, intact.consistent.lifetimes_insertRoot, if_pos rfl, List.head?_cons]
    · exact fun entry found active => (available_of_success available found).2 active
    · intro entry found renewal
      have active : entry.root.newest.lifetime.isActive height = true := (Bool.and_eq_true_iff.mp renewal).1
      have same : lifetime.endHeight = entry.root.newest.lifetime.endHeight + duration := by
        have renews : renewed cache owner id height = some entry := by simp [renewed, found, Option.filter, renewal]
        have bound := of_decide_eq_false (fits_of_success fits found active)
        rw [exactEnd, renews] at ends
        dsimp only at ends
        rw [UInt64.lt_iff_toNat_lt, UInt64.toNat_add] at bound
        apply UInt64.toNat_inj.mp
        rw [ends, UInt64.toNat_add]
        have small := duration.toNat_lt
        have large := entry.root.newest.lifetime.endHeight.toNat_lt
        omega
      exact ⟨same, same ▸ end_le_of_success fits found active⟩

/-- The owner renews the root in the second block. -/
theorem accepted_registration_sound_renewal :
    let chain : NamespaceChain := ⟨executed (NamespaceCache.create 1) firstBlock, 0, [firstBlock]⟩
    ∃ lifetime, SoundRegistration shortLifetimes chain.cache 2 alice 1 5 lifetime ∧ lifetime.endHeight = 17 := by
  have sensibly : ReachableSensibly shortLifetimes twoPaths
      ⟨executed (NamespaceCache.create 1) firstBlock, 0, [firstBlock]⟩ :=
    .commit .nemesis (by decide) (by decide) (by decide) (executed_eq (by decide))
  have above : NamespaceChain.height ⟨executed (NamespaceCache.create 1) firstBlock, 0, [firstBlock]⟩ < 2 := by decide
  have named : ∀ notification ∈ ([] : List Notification), twoPaths.Names notification := by decide
  have unchanged : executeAll shortLifetimes (fun _ => true) 2 (executed (NamespaceCache.create 1) firstBlock) [] =
    .ok (executed (NamespaceCache.create 1) firstBlock) := rfl
  obtain ⟨lifetime, sound⟩ := (accepted_registration_sound sensibly above (by decide) named unchanged).2 alice 1 5
    (by decide) (.inl (by decide)) (by decide) (by decide)
  exact ⟨lifetime, sound, UInt64.toNat_inj.mp (sound.unwrapped.trans (by decide))⟩

def longLifetime : NamespaceLifetime := ⟨1, 87, by decide⟩

/-- The second root has the identifier of a child and disappears from the flat map with the children of the first one. -/
def hidingBlocks : List Block :=
  [⟨1, [.rootRegistration alice 1 5, .childRegistration alice 2 1]⟩, ⟨2, [.rootRegistration alice 2 80]⟩,
    ⟨10, [.rootRegistration bob 1 5]⟩]

/-- The validators accept that another owner takes over an active root that the flat map does not show. -/
theorem hidden_root_taken_over :
    let caches := hidingBlocks.scanl executed (NamespaceCache.create 1)
    let cache := hidingBlocks.foldl executed (NamespaceCache.create 1)
    (∀ step ∈ caches.zip hidingBlocks, (executeAll shortLifetimes (fun _ => true) step.2.height step.1
        step.2.notifications).isOk = true) ∧
      namespaceDurationOverflowValidator shortLifetimes cache 11 2 1 = .ok .success ∧
      rootNamespaceAvailabilityValidator cache 11 bob 2 1 = .ok .success ∧
      (cache.historyById.lookup 2).map RootNamespaceHistory.roots = some [⟨alice, longLifetime, .none⟩] ∧
      ¬ ∃ lifetime, SoundRegistration shortLifetimes cache 11 bob 2 1 lifetime := by
  refine ⟨by decide, by decide, by decide, by decide, ?_⟩
  rintro ⟨lifetime, sound⟩
  have later := sound.later longLifetime (by decide)
  have stored : some lifetime = some ⟨11, 13, by decide⟩ := sound.stored.symm.trans (by decide)
  obtain rfl := Option.some.inj stored
  exact absurd later (by decide)

end Catapult.Namespaces
