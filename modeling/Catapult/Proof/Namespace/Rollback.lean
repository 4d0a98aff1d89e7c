import Catapult.Construction.Namespace.NamespaceObservers
import Catapult.Proof.Namespace.Accounting

/-
This file proves that every operation has an exact inverse and that rolling back a block restores the namespace cache.
-/

namespace Catapult.Namespaces

open NamespaceCache RootNamespaceHistory

section Undo

variable {paths : NamespacePaths} {cache next : NamespaceCache} {id : NamespaceId}

/-- Inserting the value that is already there changes nothing. -/
theorem insert_lookup {V : Type} {map : Finmap fun _ : NamespaceId => V} {value other : V}
    (found : map.lookup id = some value) : (map.insert id other).insert id value = map := by
  apply Finmap.ext_lookup
  intro key
  by_cases same : key = id
  · subst same
    rw [Finmap.lookup_insert, found]
  · rw [Finmap.lookup_insert_of_ne _ same, Finmap.lookup_insert_of_ne _ same]

theorem remove_of_root {ns : Namespace} (visible : cache.namespaceById.lookup id = some ns) (root : ns.rootId = id) :
    cache.remove id = cache.removeRoot id := by
  rw [NamespaceCache.remove, visible]
  exact if_pos root

theorem remove_of_child {ns : Namespace} (visible : cache.namespaceById.lookup id = some ns) (child : ns.rootId ≠ id) :
    cache.remove id = cache.removeChild ns := by
  rw [NamespaceCache.remove, visible]
  exact if_neg child

namespace Consistent

theorem lookup_root (consistent : Consistent paths cache) (rooted : paths.path id = [id])
    {history : RootNamespaceHistory} (found : cache.historyById.lookup id = some history) :
    cache.namespaceById.lookup id = some ⟨[id], List.cons_ne_nil id []⟩ := by
  rw [consistent.lookup_inside found (rootOf_self rooted), resolve, (consistent.valid id history found).identified, if_pos rfl]

/-- A removed root is popped from its history. -/
theorem remove_root (consistent : Consistent paths cache) (rooted : paths.path id = [id])
    {history : RootNamespaceHistory} (found : cache.historyById.lookup id = some history) :
    cache.remove id = cache.removeRoot id :=
  remove_of_root (consistent.lookup_root rooted found) rfl

/-- Children that are hidden by a registration are shown again. -/
theorem addAll_removeAll (consistent : Consistent paths cache) {run : RootRun} {older : List RootRun}
    (found : cache.historyById.lookup id = some ⟨id, run :: older⟩) :
    addAll (removeAll cache.namespaceById run.children.ids) run.children = cache.namespaceById := by
  have valid := consistent.valid id _ found
  have listed := valid.children run List.mem_cons_self
  apply Finmap.ext_lookup
  intro other
  rw [lookup_addAll _ (fun child member => listed.id_eq member) listed.nodup, lookup_removeAll]
  by_cases child : other ∈ run.children.ids
  · obtain ⟨data, known⟩ := Option.isSome_iff_exists.mp (Children.isSome_find.mpr child)
    rw [known, consistent.lookup_inside found (rootOf_child listed child), resolve_cons,
      if_neg (ne_of_child valid.rooted listed child), known]
    rfl
  · rw [Children.find_eq_none.mpr child, if_neg child]
    rfl

theorem remove_insertRoot (consistent : Consistent paths cache) (rooted : paths.path id = [id])
    (ownerAddress : Address) {lifetime : NamespaceLifetime} (later : ∀ history, cache.historyById.lookup id = some history →
      ∀ newest ∈ history.roots.head?, newest.lifetime.endHeight < lifetime.endHeight)
    (new : id ∉ cache.rootNamespaceIdsByExpiryHeight.identifiers lifetime.endHeight)
    (nonempty : cache.rootNamespaceIdsByExpiryHeight lifetime.endHeight ≠ some []) :
    (cache.insertRoot id ownerAddress lifetime).2.remove id = (.ok (), cache) := by
  have kept : Consistent paths (cache.insertRoot id ownerAddress lifetime).2 := consistent.insertRoot rooted later
  have groups := Groups.remove_add new nonempty
  cases found : cache.historyById.lookup id with
  | none =>
    have hidden : cache.namespaceById.lookup id = none := by
      rw [consistent.resolved, rootOf_self rooted, found]
      rfl
    rw [consistent.insertRoot_new found] at kept ⊢
    have pushed := Finmap.lookup_insert (a := id)
      (b := RootNamespaceHistory.pushBack ⟨id, []⟩ ownerAddress lifetime) cache.historyById
    rw [kept.remove_root rooted pushed, kept.removeRoot_only pushed]
    dsimp only
    rw [Totals.erase_insert found, Totals.erase_insert hidden, groups]
    rfl
  | some history =>
    obtain ⟨run, older, rfl⟩ := consistent.exists_run found
    have active := consistent.activeWeight_le found
    rw [activeWeight_cons] at active
    rw [consistent.insertRoot_known found rfl] at kept ⊢
    by_cases extended : RootNamespace.canExtend ⟨ownerAddress, lifetime, .none⟩ run.newest
    · simp only [if_pos extended, pushBack_cons] at kept ⊢
      have pushed := Finmap.lookup_insert (a := id)
        (b := RootNamespaceHistory.mk id (⟨run.children, ⟨run.newest.ownerAddress, lifetime,
          run.newest.namespaceAlias⟩, run.roots⟩ :: older)) cache.historyById
      rw [kept.remove_root rooted pushed, kept.removeRoot_renewal pushed]
      dsimp only
      rw [insert_lookup found, groups, show cache.deepSize + run.children.length + 1 - (1 + run.children.length) =
        cache.deepSize by omega]
    · simp only [if_neg extended, pushBack_cons] at kept ⊢
      have pushed := Finmap.lookup_insert (a := id)
        (b := RootNamespaceHistory.mk id (⟨[], ⟨ownerAddress, lifetime, .none⟩, []⟩ :: run :: older))
        cache.historyById
      rw [kept.remove_root rooted pushed, kept.removeRoot_takeover pushed]
      dsimp only
      rw [insert_lookup found, groups, show removeAll (removeAll cache.namespaceById run.children.ids)
        (Children.ids []) = removeAll cache.namespaceById run.children.ids from rfl,
        consistent.addAll_removeAll found, List.length_nil, Nat.sub_zero, Nat.add_sub_cancel,
        Nat.sub_add_cancel (by omega)]

theorem remove_insertChild (consistent : Consistent paths cache) {ns : Namespace}
    (path : paths.path ns.id = ns.path) (deep : 2 ≤ ns.path.length)
    (hidden : cache.namespaceById.lookup ns.id = none) (inserted : cache.insertChild ns = (.ok (), next)) :
    next.remove ns.id = (.ok (), cache) := by
  obtain ⟨error, failed⟩ | ⟨run, older, added, found, succeeded⟩ := consistent.insertChild_cases ns
  · rw [failed] at inserted
    cases inserted
  · have kept : Consistent paths next := by
      have step := consistent.insertChild path deep
      rw [inserted] at step
      exact step
    have valid := consistent.valid _ _ found
    have listed := valid.children run List.mem_cons_self
    have removable := listed.remove_add deep succeeded
    have placed := listed.add valid.rooted path deep succeeded
    rw [consistent.insertChild_ok found succeeded, Prod.mk.injEq] at inserted
    obtain ⟨_, rfl⟩ := inserted
    have visible := Finmap.lookup_insert (a := ns.id) (b := ns) cache.namespaceById
    have pushed := Finmap.lookup_insert (a := ns.rootId)
      (b := RootNamespaceHistory.mk ns.rootId (added :: older)) cache.historyById
    obtain ⟨_, _, _, rfl⟩ := RootRun.add_eq_ok succeeded
    have apart : ns.id ≠ ns.rootId := ne_of_child valid.rooted placed (by simp [Children.ids])
    rw [remove_of_child visible apart.symm, kept.removeChild_ok pushed removable]
    dsimp only [RootRun.roots]
    rw [insert_lookup found, Totals.erase_insert hidden, Nat.add_sub_cancel, Nat.add_sub_cancel]

theorem setAlias_setAlias (consistent : Consistent paths cache) {before changed : NamespaceAlias} {ns : Namespace}
    {run : RootRun} {older : List RootRun} (visible : cache.namespaceById.lookup id = some ns)
    (found : cache.historyById.lookup ns.rootId = some ⟨ns.rootId, run :: older⟩)
    (earlier : run.aliasOf ns.rootId id = .ok before) (changes : cache.setAlias id changed = (.ok (), next)) :
    next.setAlias id before = (.ok (), cache) := by
  have kept : Consistent paths next := by
    have step := consistent.setAlias id changed
    rw [changes] at step
    exact step
  obtain ⟨error, failed⟩ | ⟨other, run', older', linked, shown, known, succeeded⟩ :=
    consistent.setAlias_cases id changed
  · rw [failed] at changes
    cases changes
  · rw [visible, Option.some.injEq] at shown
    subst shown
    rw [found] at known
    injection known with known
    injection known with _ known
    injection known with same rest
    subst same rest
    have restored := (consistent.valid _ _ found).children run List.mem_cons_self
      |>.setAlias_restore earlier succeeded
    rw [consistent.setAlias_ok visible found succeeded, Prod.mk.injEq] at changes
    obtain ⟨_, rfl⟩ := changes
    have pushed := Finmap.lookup_insert (a := ns.rootId)
      (b := RootNamespaceHistory.mk ns.rootId (linked :: older)) cache.historyById
    rw [kept.setAlias_ok visible pushed restored]
    dsimp only
    rw [insert_lookup found]

end Consistent

end Undo

/-- The lifetimes of a history are listed from the newest to the oldest root. -/
def lifetimes (cache : NamespaceCache) (id : NamespaceId) : List NamespaceLifetime :=
  (cache.historyById.lookup id).elim [] fun history => history.roots.map RootNamespace.lifetime

variable {paths : NamespacePaths} {cache next : NamespaceCache} {id : NamespaceId}

theorem lifetimes_of_lookup {history : RootNamespaceHistory} (found : cache.historyById.lookup id = some history) :
    lifetimes cache id = history.roots.map RootNamespace.lifetime := by
  rw [lifetimes, found, Option.elim_some]

theorem lifetimes_of_unknown (unknown : cache.historyById.lookup id = none) : lifetimes cache id = [] := by
  rw [lifetimes, unknown, Option.elim_none]

theorem lifetimes_of_insert {history : RootNamespaceHistory}
    (histories : next.historyById = cache.historyById.insert id history) (other : NamespaceId) : lifetimes next other =
      if other = id then history.roots.map RootNamespace.lifetime else lifetimes cache other := by
  rw [lifetimes, histories]
  split
  · next same => rw [same, Finmap.lookup_insert, Option.elim_some]
  · next apart =>
    rw [Finmap.lookup_insert_of_ne _ apart]
    rfl

/-- A history whose lifetimes stay the same is replaced. -/
theorem lifetimes_of_replace {history replaced : RootNamespaceHistory} (found : cache.historyById.lookup id = some history)
    (histories : next.historyById = cache.historyById.insert id replaced)
    (same : replaced.roots.map RootNamespace.lifetime = history.roots.map RootNamespace.lifetime) :
    lifetimes next = lifetimes cache := by
  funext other
  rw [lifetimes_of_insert histories]
  split
  · next equal =>
    rw [same, equal, lifetimes_of_lookup found]
  · rfl

theorem lifetimes_of_erase (histories : next.historyById = cache.historyById.erase id) (other : NamespaceId) :
    lifetimes next other = if other = id then [] else lifetimes cache other := by
  rw [lifetimes, histories]
  split
  · next same =>
    rw [same, Finmap.lookup_erase]
    rfl
  · next apart =>
    rw [Finmap.lookup_erase_ne apart]
    rfl

namespace Consistent

theorem lifetimes_pairwise (consistent : Consistent paths cache) (id : NamespaceId) :
    (lifetimes cache id).Pairwise fun newer lifetime => lifetime.endHeight < newer.endHeight := by
  cases found : cache.historyById.lookup id with
  | none =>
    rw [lifetimes_of_unknown found]
    exact List.Pairwise.nil
  | some history =>
    rw [lifetimes_of_lookup found]
    exact List.pairwise_map.mpr (consistent.valid id history found).ends

/-- A height after the end of the newest root lies after the ends of all roots. -/
theorem lifetimes_lt (consistent : Consistent paths cache) {height : Height}
    (later : ∀ newest ∈ (lifetimes cache id).head?, newest.endHeight < height) :
    ∀ lifetime ∈ lifetimes cache id, lifetime.endHeight < height := by
  have ends := consistent.lifetimes_pairwise id
  intro lifetime listed
  cases list : lifetimes cache id with
  | nil =>
    rw [list] at listed
    cases listed
  | cons newest older =>
    rw [list] at listed ends later
    have last := later newest (Option.mem_some_iff.mpr rfl)
    obtain rfl | before := List.mem_cons.mp listed
    · exact last
    · exact UInt64.lt_trans ((List.pairwise_cons.mp ends).1 lifetime before) last

theorem lifetimes_insertRoot (consistent : Consistent paths cache) (id : NamespaceId) (ownerAddress : Address)
    (lifetime : NamespaceLifetime) (other : NamespaceId) : lifetimes (cache.insertRoot id ownerAddress lifetime).2 other =
      if other = id then lifetime :: lifetimes cache id else lifetimes cache other := by
  cases found : cache.historyById.lookup id with
  | none =>
    rw [consistent.insertRoot_new found, lifetimes_of_insert rfl, lifetimes_of_unknown found]
    rfl
  | some history =>
    obtain ⟨root, same, roots⟩ := history.roots_pushBack ownerAddress lifetime
    obtain ⟨run, older, rfl⟩ := consistent.exists_run found
    rw [consistent.insertRoot_known found rfl, lifetimes_of_insert rfl, roots, List.map_cons, same, lifetimes_of_lookup found]

theorem groups_insertRoot (consistent : Consistent paths cache) (id : NamespaceId) (ownerAddress : Address)
    (lifetime : NamespaceLifetime) : (cache.insertRoot id ownerAddress lifetime).2.rootNamespaceIdsByExpiryHeight =
      cache.rootNamespaceIdsByExpiryHeight.add lifetime.endHeight id := by
  cases found : cache.historyById.lookup id with
  | none => rw [consistent.insertRoot_new found]
  | some history =>
    obtain ⟨run, older, rfl⟩ := consistent.exists_run found
    rw [consistent.insertRoot_known found rfl]

theorem lifetimes_insertChild (consistent : Consistent paths cache) (ns : Namespace) :
    lifetimes (cache.insertChild ns).2 = lifetimes cache ∧
      (cache.insertChild ns).2.rootNamespaceIdsByExpiryHeight = cache.rootNamespaceIdsByExpiryHeight := by
  obtain ⟨error, failed⟩ | ⟨run, older, added, found, succeeded⟩ := consistent.insertChild_cases ns
  · rw [failed]
    exact ⟨rfl, rfl⟩
  · rw [consistent.insertChild_ok found succeeded]
    obtain ⟨_, _, _, rfl⟩ := RootRun.add_eq_ok succeeded
    exact ⟨lifetimes_of_replace found rfl rfl, rfl⟩

theorem lifetimes_setAlias (consistent : Consistent paths cache) (id : NamespaceId) (namespaceAlias : NamespaceAlias) :
    lifetimes (cache.setAlias id namespaceAlias).2 = lifetimes cache ∧
      (cache.setAlias id namespaceAlias).2.rootNamespaceIdsByExpiryHeight = cache.rootNamespaceIdsByExpiryHeight := by
  obtain ⟨error, failed⟩ | ⟨ns, run, older, linked, visible, found, succeeded⟩ :=
    consistent.setAlias_cases id namespaceAlias
  · rw [failed]
    exact ⟨rfl, rfl⟩
  · rw [consistent.setAlias_ok visible found succeeded]
    obtain ⟨_, rfl⟩ | ⟨_, _, rfl⟩ := RootRun.setAlias_eq_ok succeeded
    · exact ⟨lifetimes_of_replace found rfl rfl, rfl⟩
    · exact ⟨lifetimes_of_replace found rfl rfl, rfl⟩

theorem lifetimes_removeChild (consistent : Consistent paths cache) (ns : Namespace) :
    lifetimes (cache.removeChild ns).2 = lifetimes cache ∧
      (cache.removeChild ns).2.rootNamespaceIdsByExpiryHeight = cache.rootNamespaceIdsByExpiryHeight := by
  obtain ⟨error, failed⟩ | ⟨run, older, removed, found, succeeded⟩ := consistent.removeChild_cases ns
  · rw [failed]
    exact ⟨rfl, rfl⟩
  · rw [consistent.removeChild_ok found succeeded]
    obtain ⟨_, _, _, rfl⟩ := RootRun.remove_eq_ok succeeded
    exact ⟨lifetimes_of_replace found rfl rfl, rfl⟩

/-- The newest lifetime disappears together with its entry in the height groups. -/
theorem lifetimes_removeRoot (consistent : Consistent paths cache) (removed : (cache.removeRoot id).1 = .ok ()) :
    ∃ lifetime older, lifetimes cache id = lifetime :: older ∧
      (∀ other, lifetimes (cache.removeRoot id).2 other = if other = id then older else lifetimes cache other) ∧
      (cache.removeRoot id).2.rootNamespaceIdsByExpiryHeight =
        cache.rootNamespaceIdsByExpiryHeight.remove lifetime.endHeight id := by
  obtain ⟨error, failed⟩ | ⟨newest, found⟩ | ⟨children, newest, next, rest, older, found⟩ |
    ⟨children, newest, current, older, found⟩ := consistent.removeRoot_cases id
  · rw [failed] at removed
    cases removed
  · rw [consistent.removeRoot_only found, lifetimes_of_lookup found]
    exact ⟨newest.lifetime, [], rfl, lifetimes_of_erase rfl, rfl⟩
  · rw [consistent.removeRoot_renewal found, lifetimes_of_lookup found]
    exact ⟨newest.lifetime, (RootNamespaceHistory.roots ⟨id, ⟨children, next, rest⟩ :: older⟩).map
      RootNamespace.lifetime, rfl, lifetimes_of_insert rfl, rfl⟩
  · rw [consistent.removeRoot_takeover found, lifetimes_of_lookup found]
    exact ⟨newest.lifetime, (RootNamespaceHistory.roots ⟨id, current :: older⟩).map RootNamespace.lifetime, rfl,
      lifetimes_of_insert rfl, rfl⟩

/-- Only lifetimes that ended are pruned. -/
theorem lifetimes_pruneHistory (consistent : Consistent paths cache) (height : Height) (ids : List NamespaceId)
    (id other : NamespaceId) : (NamespaceCache.pruneHistory height (ids, cache) id).2.rootNamespaceIdsByExpiryHeight =
        cache.rootNamespaceIdsByExpiryHeight ∧
      (lifetimes (NamespaceCache.pruneHistory height (ids, cache) id).2 other = lifetimes cache other ∨
        lifetimes (NamespaceCache.pruneHistory height (ids, cache) id).2 other =
          (lifetimes cache other).filter fun lifetime => height < lifetime.endHeight) := by
  unfold NamespaceCache.pruneHistory
  dsimp only
  rw [consistent.findHistory_eq]
  cases found : cache.historyById.lookup id with
  | none => exact ⟨rfl, .inl rfl⟩
  | some history =>
    refine ⟨rfl, ?_⟩
    have pruned : (history.prune height).2.roots.map RootNamespace.lifetime =
        (lifetimes cache id).filter fun lifetime => height < lifetime.endHeight := by
      rw [lifetimes_of_lookup found, roots_prune, List.filter_map]
      rfl
    by_cases same : other = id
    · subst same
      refine .inr (pruned ▸ ?_)
      dsimp only
      split
      · next empty =>
        rw [lifetimes_of_erase rfl, if_pos rfl, RootNamespaceHistory.roots,
          List.isEmpty_iff.mp empty, List.flatMap_nil, List.map_nil]
      · rw [lifetimes_of_insert rfl, if_pos rfl]
    · refine .inl ?_
      dsimp only
      split
      · rw [lifetimes_of_erase rfl, if_neg same]
      · rw [lifetimes_of_insert rfl, if_neg same]

theorem lifetimes_prune (consistent : Consistent paths cache) (height : Height) (other : NamespaceId) :
    (cache.prune height).2.rootNamespaceIdsByExpiryHeight = cache.rootNamespaceIdsByExpiryHeight ∧
      (lifetimes (cache.prune height).2 other = lifetimes cache other ∨ lifetimes (cache.prune height).2 other =
          (lifetimes cache other).filter fun lifetime => height < lifetime.endHeight) := by
  unfold NamespaceCache.prune
  generalize ([] : List NamespaceId) = ids
  generalize cache.rootNamespaceIdsByExpiryHeight.identifiers height = expiring
  induction expiring generalizing cache ids with
  | nil => exact ⟨rfl, .inl rfl⟩
  | cons id rest ih =>
    obtain ⟨groups, first⟩ := consistent.lifetimes_pruneHistory height ids id other
    obtain ⟨groupsRest, later⟩ := ih (consistent.pruneHistory height ids id) _
    refine ⟨groupsRest.trans groups, ?_⟩
    obtain same | filtered := first
    · rw [same] at later
      exact later
    · rw [filtered, List.filter_filter] at later
      simp only [Bool.and_self] at later
      exact .inr (or_self_iff.mp later)

end Consistent

/-- The identifier of a registration determines the path of the new namespace. -/
def NamespacePaths.Names (paths : NamespacePaths) : Notification → Prop
  | .rootNamespace _ namespaceId _ => paths.path namespaceId = [namespaceId]
  | .childNamespace _ namespaceId parentId => paths.path namespaceId = paths.path parentId ++ [namespaceId]
  | _ => True

instance (paths : NamespacePaths) : (notification : Notification) → Decidable (paths.Names notification)
  | .rootNamespace _ _ _ => inferInstanceAs (Decidable (_ = _))
  | .childNamespace _ _ _ => inferInstanceAs (Decidable (_ = _))
  | .namespaceRequired _ _ => inferInstanceAs (Decidable True)
  | .aliasLink _ _ => inferInstanceAs (Decidable True)
  | .aliasedAddress _ _ _ => inferInstanceAs (Decidable True)
  | .aliasedMosaicId _ _ _ => inferInstanceAs (Decidable True)

/-- Blocks are added, taken back and finalized, and the cache is pruned at finalized heights. -/
inductive Reachable (config : NamespaceConfiguration) (paths : NamespacePaths) : NamespaceChain → Prop where
  | nemesis : Reachable config paths ⟨NamespaceCache.create config.gracePeriodDuration, 0, []⟩
  | commit {chain : NamespaceChain} {block : Block} {accountExists : Address → Bool} {next : NamespaceCache} :
      Reachable config paths chain → chain.height < block.height →
      (∀ notification ∈ block.notifications, paths.Names notification) →
      executeAll config accountExists block.height chain.cache block.notifications = .ok next →
      Reachable config paths { chain with cache := next, blocks := block :: chain.blocks }
  | rollback {chain : NamespaceChain} {block : Block} {older : List Block} {previous : NamespaceCache} :
      Reachable config paths chain → chain.blocks = block :: older →
      rollbackAll block.height chain.cache block.notifications = .ok previous →
      Reachable config paths { chain with cache := previous, blocks := older }
  | finalize {chain : NamespaceChain} {newer final : List Block} {height : Height} :
      Reachable config paths chain → chain.blocks = newer ++ final → chain.finalizedHeight ≤ height →
      (∀ block ∈ final, block.height ≤ height) → (∀ block ∈ newer, height < block.height) →
      Reachable config paths { chain with finalizedHeight := height, blocks := newer }
  | prune {chain : NamespaceChain} {height : Height} :
      Reachable config paths chain → height ≤ chain.finalizedHeight →
      Reachable config paths { chain with cache := (chain.cache.prune height).2 }

/-- No lifetime starts after the registration that it belongs to. -/
def Started (finalizedHeight : Height) : List NamespaceLifetime → List Height → Prop
  | [], _ => True
  | lifetime :: older, [] => lifetime.start ≤ finalizedHeight ∧ Started finalizedHeight older []
  | lifetime :: older, height :: heights => lifetime.start ≤ height ∧ Started finalizedHeight older heights

/-- The heights of the registrations that can be rolled back are listed for every root. -/
abbrev Registrations := NamespaceId → List Height

def register (height : Height) (registrations : Registrations) : Notification → Registrations
  | .rootNamespace _ namespaceId _ =>
    Function.update registrations namespaceId (height :: registrations namespaceId)
  | _ => registrations

structure Intact (paths : NamespacePaths) (finalizedHeight : Height) (registrations : Registrations)
    (cache : NamespaceCache) : Prop where
  consistent : Consistent paths cache
  nonempty : ∀ key, cache.rootNamespaceIdsByExpiryHeight key ≠ some []
  expired : ∀ id key, id ∈ cache.rootNamespaceIdsByExpiryHeight.identifiers key →
    key ≤ finalizedHeight ∨ ∃ lifetime ∈ lifetimes cache id, lifetime.endHeight = key
  started : ∀ id, Started finalizedHeight (lifetimes cache id) (registrations id)

section Intact

variable {paths : NamespacePaths} {finalizedHeight height : Height} {registrations : Registrations}
  {cache next previous : NamespaceCache} {config : NamespaceConfiguration} {accountExists : Address → Bool}

theorem Started.start_le {lifetimes : List NamespaceLifetime} {heights : List Height}
    (started : Started finalizedHeight lifetimes heights) (late : finalizedHeight ≤ height)
    (bounded : ∀ earlier ∈ heights, earlier ≤ height) : ∀ lifetime ∈ lifetimes, lifetime.start ≤ height := by
  induction lifetimes generalizing heights with
  | nil => simp
  | cons lifetime older ih =>
    cases heights with
    | nil =>
      intro other member
      obtain rfl | before := List.mem_cons.mp member
      · exact UInt64.le_trans started.1 late
      · exact ih started.2 bounded other before
    | cons newest heights =>
      intro other member
      obtain rfl | before := List.mem_cons.mp member
      · exact UInt64.le_trans started.1 (bounded newest List.mem_cons_self)
      · exact ih started.2 (fun earlier listed => bounded earlier (List.mem_cons_of_mem _ listed)) other before

/-- A prefix of the lifetimes keeps its registrations. -/
theorem Started.filter {lifetimes : List NamespaceLifetime} {heights : List Height}
    (started : Started finalizedHeight lifetimes heights) (pruned : Height)
    (ends : lifetimes.Pairwise fun newer lifetime => lifetime.endHeight < newer.endHeight) :
    Started finalizedHeight (lifetimes.filter fun lifetime => pruned < lifetime.endHeight) heights := by
  induction lifetimes generalizing heights with
  | nil => exact started
  | cons lifetime older ih =>
    obtain ⟨first, rest⟩ := List.pairwise_cons.mp ends
    by_cases kept : pruned < lifetime.endHeight
    · rw [List.filter_cons_of_pos (by simpa using kept)]
      cases heights with
      | nil => exact ⟨started.1, ih started.2 rest⟩
      | cons newest heights => exact ⟨started.1, ih started.2 rest⟩
    · have gone : (lifetime :: older).filter (fun lifetime => pruned < lifetime.endHeight) = [] := by
        rw [List.filter_eq_nil_iff]
        intro other member
        rw [decide_eq_true_eq]
        obtain rfl | before := List.mem_cons.mp member
        · exact kept
        · exact fun later => kept (UInt64.lt_trans later (first other before))
      rw [gone]
      trivial

/-- The registrations at finalized heights are forgotten. -/
theorem Started.finalize {lifetimes : List NamespaceLifetime} {newer final : List Height}
    (started : Started finalizedHeight lifetimes (newer ++ final)) (later : finalizedHeight ≤ height)
    (covered : ∀ earlier ∈ final, earlier ≤ height) : Started height lifetimes newer := by
  induction lifetimes generalizing newer final with
  | nil => trivial
  | cons lifetime older ih =>
    cases newer with
    | cons newest newer => exact ⟨started.1, ih started.2 covered⟩
    | nil =>
      cases final with
      | nil => exact ⟨UInt64.le_trans started.1 later, ih started.2 covered⟩
      | cons first final =>
        have rest : Started finalizedHeight older ([] ++ final) := started.2
        exact ⟨UInt64.le_trans started.1 (covered first List.mem_cons_self),
          ih rest fun earlier listed => covered earlier (List.mem_cons_of_mem _ listed)⟩

namespace Intact

/-- Children and aliases do not matter for the lifetimes. -/
theorem of_same (intact : Intact paths finalizedHeight registrations cache) (consistent : Consistent paths next)
    (same : lifetimes next = lifetimes cache ∧ next.rootNamespaceIdsByExpiryHeight = cache.rootNamespaceIdsByExpiryHeight) :
    Intact paths finalizedHeight registrations next := by
  refine ⟨consistent, ?_, ?_, ?_⟩
  · rw [same.2]
    exact intact.nonempty
  · rw [same.1, same.2]
    exact intact.expired
  · rw [same.1]
    exact intact.started

theorem insertRoot {id : NamespaceId} {ownerAddress : Address} {lifetime : NamespaceLifetime}
    (intact : Intact paths finalizedHeight registrations cache)
    (kept : Consistent paths (cache.insertRoot id ownerAddress lifetime).2) (current : lifetime.start ≤ height) :
    Intact paths finalizedHeight (Function.update registrations id (height :: registrations id))
      (cache.insertRoot id ownerAddress lifetime).2 := by
  have lists := intact.consistent.lifetimes_insertRoot id ownerAddress lifetime
  have groups := intact.consistent.groups_insertRoot id ownerAddress lifetime
  refine ⟨kept, ?_, ?_, ?_⟩
  · intro key
    rw [groups]
    exact Groups.add_ne_empty intact.nonempty _ key id
  · intro other key member
    rw [groups, Groups.mem_add] at member
    rw [lists]
    obtain old | ⟨rfl, rfl⟩ := member
    · refine (intact.expired other key old).imp_right ?_
      rintro ⟨found, listed, ending⟩
      split
      · next same => exact ⟨found, List.mem_cons_of_mem _ (same ▸ listed), ending⟩
      · exact ⟨found, listed, ending⟩
    · rw [if_pos rfl]
      exact .inr ⟨lifetime, List.mem_cons_self, rfl⟩
  · intro other
    rw [lists]
    by_cases same : other = id
    · subst same
      rw [if_pos rfl, Function.update_self]
      exact ⟨current, intact.started other⟩
    · rw [if_neg same, Function.update_of_ne same]
      exact intact.started other

theorem removeRoot {id : NamespaceId}
    (intact : Intact paths finalizedHeight (Function.update registrations id (height :: registrations id)) cache)
    (removed : (cache.removeRoot id).1 = .ok ()) : Intact paths finalizedHeight registrations (cache.removeRoot id).2 := by
  obtain ⟨lifetime, older, before, lists, groups⟩ := intact.consistent.lifetimes_removeRoot removed
  refine ⟨intact.consistent.removeRoot id, ?_, ?_, ?_⟩
  · intro key
    rw [groups]
    exact Groups.remove_ne_empty intact.nonempty _ key id
  · intro other key member
    rw [groups, Groups.mem_remove] at member
    rw [lists]
    refine (intact.expired other key member.1).imp_right ?_
    rintro ⟨found, listed, ending⟩
    split
    · next same =>
      rw [same, before] at listed
      obtain rfl | rest := List.mem_cons.mp listed
      · exact (member.2 ⟨ending.symm, same⟩).elim
      · exact ⟨found, rest, ending⟩
    · exact ⟨found, listed, ending⟩
  · intro other
    have started := intact.started other
    rw [lists]
    by_cases same : other = id
    · subst same
      rw [before, Function.update_self] at started
      rw [if_pos rfl]
      exact started.2
    · rw [Function.update_of_ne same] at started
      rw [if_neg same]
      exact started

theorem prune (intact : Intact paths finalizedHeight registrations cache) (final : height ≤ finalizedHeight) :
    Intact paths finalizedHeight registrations (cache.prune height).2 := by
  refine ⟨intact.consistent.prune height, ?_, ?_, ?_⟩
  · intro key
    rw [(intact.consistent.lifetimes_prune height 0).1]
    exact intact.nonempty key
  · intro id key member
    obtain ⟨groups, lists⟩ := intact.consistent.lifetimes_prune height id
    rw [groups] at member
    obtain past | ⟨lifetime, listed, ending⟩ := intact.expired id key member
    · exact .inl past
    · by_cases kept : height < lifetime.endHeight
      · refine .inr ⟨lifetime, ?_, ending⟩
        obtain same | filtered := lists
        · exact same ▸ listed
        · rw [filtered]
          exact List.mem_filter.mpr ⟨listed, by simpa using kept⟩
      · exact .inl (ending ▸ UInt64.le_trans (UInt64.not_lt.mp kept) final)
  · intro id
    have started := intact.started id
    obtain same | filtered := (intact.consistent.lifetimes_prune height id).2
    · rw [same]
      exact started
    · rw [filtered]
      exact started.filter height (intact.consistent.lifetimes_pairwise id)

end Intact

theorem find_eq_some (consistent : Consistent paths cache) {id : NamespaceId} {entry : NamespaceEntry}
    (found : cache.find id = some entry) : cache.namespaceById.lookup id = some entry.ns ∧
      ∃ older, cache.historyById.lookup entry.ns.rootId = some ⟨entry.ns.rootId, entry.root :: older⟩ := by
  unfold NamespaceCache.find at found
  split at found
  · cases found
  · next ns visible =>
    split at found
    · next rootId run older known =>
      obtain rfl := Option.some.inj found
      refine ⟨visible, older, ?_⟩
      have identified : rootId = ns.rootId := (consistent.valid _ _ known).identified
      rw [known, identified]
    · cases found

theorem find_root (consistent : Consistent paths cache) {id : NamespaceId} (rooted : paths.path id = [id])
    {run : RootRun} {older : List RootRun} (found : cache.historyById.lookup id = some ⟨id, run :: older⟩) :
    cache.find id = some ⟨⟨[id], List.cons_ne_nil id []⟩, run⟩ := by
  rw [NamespaceCache.find, consistent.lookup_root rooted found]
  dsimp only
  rw [show Namespace.rootId ⟨[id], List.cons_ne_nil id []⟩ = id from rfl, found]

theorem create_eq_ok {start endHeight : Height} {gracePeriodDuration : BlockDuration} {lifetime : NamespaceLifetime}
    (created : NamespaceLifetime.create start endHeight gracePeriodDuration = .ok lifetime) :
    lifetime.start = start ∧ endHeight ≤ lifetime.endHeight := by
  unfold NamespaceLifetime.create at created
  by_cases positive : start < endHeight
  · rw [dif_pos positive] at created
    by_cases overflow : (if endHeight ≠ maxHeight then endHeight + gracePeriodDuration else endHeight) < endHeight
    · rw [dif_pos overflow] at created
      cases created
    · rw [dif_neg overflow, Except.ok.injEq] at created
      subst created
      exact ⟨rfl, UInt64.not_lt.mp overflow⟩
  · rw [dif_neg positive] at created
    cases created

theorem calculateNewLifetime_eq_ok {duration gracePeriodDuration : BlockDuration} {lifetime : NamespaceLifetime}
    (calculated : calculateNewLifetime duration height gracePeriodDuration = .ok lifetime) :
    lifetime.start = height := (create_eq_ok calculated).1

/-- The end of a sum without overflow lies behind its start. -/
theorem lt_add_of_not_overflows {duration : BlockDuration} (fits : addOverflows height duration = false)
    (positive : duration ≠ 0) : height < height + duration := by
  have above := UInt64.le_iff_toNat_le.mp (UInt64.not_lt.mp (of_decide_eq_false fits))
  have some : 0 < duration.toNat := UInt64.pos_iff_ne_zero.mpr positive
  have bounded := duration.toNat_lt
  have size := height.toNat_lt
  rw [UInt64.lt_iff_toNat_lt]
  rw [UInt64.toNat_add] at above ⊢
  omega

/-- Only the owner can renew an active root and no root can become eternal. -/
theorem available_of_success {owner : Address} {id : NamespaceId} {duration : BlockDuration} {entry : NamespaceEntry}
    (accepted : rootNamespaceAvailabilityValidator cache height owner id duration = .ok .success)
    (found : cache.find id = some entry) : duration ≠ 0 ∧
      (entry.root.newest.lifetime.isActive height = true → entry.root.newest.ownerAddress = owner) := by
  unfold rootNamespaceAvailabilityValidator at accepted
  rw [found] at accepted
  split at accepted
  · cases accepted
  · dsimp only at accepted
    split at accepted
    · cases accepted
    · next finite =>
      refine ⟨fun eternal => finite (.inr eternal), ?_⟩
      intro active
      rw [if_neg (not_not.mpr active)] at accepted
      split at accepted
      · assumption
      · cases accepted

theorem fits_of_success {id : NamespaceId} {duration : BlockDuration} {entry : NamespaceEntry}
    (accepted : namespaceDurationOverflowValidator config cache height id duration = .ok .success)
    (found : cache.find id = some entry) (active : entry.root.newest.lifetime.isActive height = true) :
    addOverflows entry.root.newest.lifetime.endHeight duration = false := by
  unfold namespaceDurationOverflowValidator at accepted
  rw [found] at accepted
  split at accepted
  · cases accepted
  · dsimp only at accepted
    rw [if_neg (not_not.mpr active)] at accepted
    split at accepted
    · cases accepted
    · next fits => simpa using fits

/-- An accepted registration ends after every earlier root and after the current height. -/
theorem calculateLifetime_later (consistent : Consistent paths cache) {owner : Address} {id : NamespaceId}
    {duration : BlockDuration} {lifetime : NamespaceLifetime} (rooted : paths.path id = [id])
    (timely : ∀ earlier ∈ lifetimes cache id, earlier.start ≤ height)
    (available : rootNamespaceAvailabilityValidator cache height owner id duration = .ok .success)
    (fits : namespaceDurationOverflowValidator config cache height id duration = .ok .success)
    (calculated : calculateLifetime cache owner id duration height = .ok lifetime) :
    (∀ newest ∈ (lifetimes cache id).head?, newest.endHeight < lifetime.endHeight) ∧
      lifetime.start ≤ height ∧ height < lifetime.endHeight := by
  obtain ⟨fresh, created, calculated⟩ := Runs.bind_eq_ok.mp calculated
  have begins := calculateNewLifetime_eq_ok created
  have future : height < fresh.endHeight := begins ▸ fresh.positive
  cases found : cache.historyById.lookup id with
  | none =>
    have missing : cache.find id = none := by
      have hidden : cache.namespaceById.lookup id = none := by
        rw [consistent.resolved, Consistent.rootOf_self rooted, found]
        rfl
      rw [NamespaceCache.find, hidden]
    rw [missing, Except.ok.injEq] at calculated
    subst calculated
    rw [lifetimes_of_unknown found]
    exact ⟨by simp, UInt64.le_of_eq begins, future⟩
  | some history =>
    obtain ⟨run, older, rfl⟩ := consistent.exists_run found
    have entry := find_root consistent rooted found
    rw [lifetimes_of_lookup found] at timely ⊢
    have begun : run.newest.lifetime.start ≤ height := timely _ List.mem_cons_self
    have last : ∀ newest ∈ (List.map RootNamespace.lifetime
        (RootNamespaceHistory.roots ⟨id, run :: older⟩)).head?, newest = run.newest.lifetime := by
      intro newest first
      exact (Option.mem_some_iff.mp first).symm
    obtain ⟨finite, owned⟩ := available_of_success available entry
    rw [entry] at calculated
    dsimp only at calculated
    by_cases active : run.newest.lifetime.isActive height = true
    · have same : run.newest.ownerAddress = owner := owned active
      have renewal : isRenewal run.newest owner height = true := by simp [isRenewal, active, same]
      rw [if_pos renewal] at calculated
      obtain ⟨continued, extended⟩ := create_eq_ok calculated
      have later := UInt64.lt_of_lt_of_le (lt_add_of_not_overflows (fits_of_success fits entry active) finite) extended
      simp only [NamespaceLifetime.isActive, Bool.and_eq_true, decide_eq_true_eq] at active
      refine ⟨?_, continued ▸ begun, UInt64.lt_trans active.2 later⟩
      intro newest first
      rw [last newest first]
      exact later
    · have expired : isRenewal run.newest owner height = false := by simp [isRenewal, active]
      rw [expired] at calculated
      obtain rfl := Except.ok.inj calculated
      have passed : run.newest.lifetime.endHeight ≤ height := by
        simp only [NamespaceLifetime.isActive, Bool.and_eq_true, decide_eq_true_eq, not_and] at active
        exact UInt64.not_lt.mp (active begun)
      refine ⟨?_, UInt64.le_of_eq begins, future⟩
      intro newest first
      rw [last newest first]
      exact UInt64.lt_of_le_of_lt passed future

theorem execute_eq_ok {notification : Notification}
    (executed : execute config accountExists height cache notification = .ok next) :
    accepts config accountExists cache height notification ∧ observe cache .commit height notification = (.ok (), next) := by
  unfold execute at executed
  split at executed
  · next accepted =>
    split at executed
    · next result observed => exact ⟨accepted, by rw [observed, Except.ok.inj executed]⟩
    · cases executed
  · cases executed

theorem rollback_eq_ok {notification : Notification} (undone : rollback height cache notification = .ok previous) :
    observe cache .rollback height notification = (.ok (), previous) := by
  unfold rollback at undone
  split at undone
  · next result observed => rw [observed, Except.ok.inj undone]
  · cases undone

theorem rollback_of_observe {notification : Notification}
    (observed : observe cache .rollback height notification = (.ok (), previous)) :
    rollback height cache notification = .ok previous := by
  rw [rollback, observed]

/-- The registrations end at or below the height of the block that is executed. -/
def Bounded (registrations : Registrations) (height : Height) : Prop :=
  ∀ id, ∀ earlier ∈ registrations id, earlier ≤ height

theorem Bounded.register (bounded : Bounded registrations height) (notification : Notification) :
    Bounded (register height registrations notification) height := by
  cases notification with
  | rootNamespace owner namespaceId duration =>
    intro id earlier listed
    by_cases same : id = namespaceId
    · subst same
      rw [Namespaces.register, Function.update_self] at listed
      obtain rfl | before := List.mem_cons.mp listed
      · exact UInt64.le_refl _
      · exact bounded id earlier before
    · rw [Namespaces.register, Function.update_of_ne same] at listed
      exact bounded id earlier listed
  | _ => exact bounded

theorem Intact.timely (intact : Intact paths finalizedHeight registrations cache) (late : finalizedHeight ≤ height)
    (bounded : Bounded registrations height) (id : NamespaceId) : ∀ lifetime ∈ lifetimes cache id, lifetime.start ≤ height :=
  (intact.started id).start_le late (bounded id)

/-- An executed root registration keeps the cache intact and is undone exactly. -/
theorem Intact.rootNamespace (intact : Intact paths finalizedHeight registrations cache)
    (late : finalizedHeight ≤ height) (bounded : Bounded registrations height) {owner : Address} {id : NamespaceId}
    {duration : BlockDuration} (rooted : paths.path id = [id])
    (executed : execute config accountExists height cache (.rootNamespace owner id duration) = .ok next) :
    Intact paths finalizedHeight (register height registrations (.rootNamespace owner id duration)) next ∧
      rollback height next (.rootNamespace owner id duration) = .ok cache := by
  obtain ⟨accepted, observed⟩ := execute_eq_ok executed
  have available := accepted (rootNamespaceAvailabilityValidator cache height owner id duration) (by simp [validators])
  have fits := accepted (namespaceDurationOverflowValidator config cache height id duration) (by simp [validators])
  simp only [observe, rootNamespaceObserver] at observed
  cases calculated : calculateLifetime cache owner id duration height with
  | error error =>
    rw [calculated] at observed
    cases observed
  | ok lifetime =>
    rw [calculated] at observed
    dsimp only at observed
    obtain ⟨later, current, future⟩ := calculateLifetime_later intact.consistent rooted
      (intact.timely late bounded id) available fits calculated
    have ends : ∀ history, cache.historyById.lookup id = some history →
        ∀ newest ∈ history.roots.head?, newest.lifetime.endHeight < lifetime.endHeight := by
      intro history found newest first
      refine later newest.lifetime ?_
      rw [lifetimes_of_lookup found, List.head?_map, Option.mem_def.mp first]
      rfl
    have new : id ∉ cache.rootNamespaceIdsByExpiryHeight.identifiers lifetime.endHeight := by
      intro member
      obtain past | ⟨earlier, listed, same⟩ := intact.expired id _ member
      · exact UInt64.not_lt.mpr (UInt64.le_trans past late) future
      · exact UInt64.ne_of_lt (intact.consistent.lifetimes_lt later earlier listed) same
    have kept : Consistent paths (cache.insertRoot id owner lifetime).2 :=
      intact.consistent.insertRoot rooted ends
    have restored := intact.consistent.remove_insertRoot rooted owner ends new (intact.nonempty _)
    have result : next = (cache.insertRoot id owner lifetime).2 := by rw [observed]
    rw [result]
    exact ⟨intact.insertRoot kept current, rollback_of_observe restored⟩

theorem Intact.childNamespace (intact : Intact paths finalizedHeight registrations cache) {owner : Address}
    {id parentId : NamespaceId} (named : paths.path id = paths.path parentId ++ [id])
    (executed : execute config accountExists height cache (.childNamespace owner id parentId) = .ok next) :
    Intact paths finalizedHeight registrations next ∧ rollback height next (.childNamespace owner id parentId) = .ok cache := by
  obtain ⟨accepted, observed⟩ := execute_eq_ok executed
  have available := accepted (childNamespaceAvailabilityValidator config cache height owner id parentId)
    (by simp [validators])
  simp only [observe, childNamespaceObserver] at observed
  split at observed
  · cases observed
  · next parent found =>
    have parentPath := intact.consistent.path_of_lookup (find_eq_some intact.consistent found).1
    have identifier : (parent.ns.createChild id).id = id := List.getLast_concat
    have path : paths.path (parent.ns.createChild id).id = (parent.ns.createChild id).path := by
      rw [identifier, named, ← parentPath]
      rfl
    have deep : 2 ≤ (parent.ns.createChild id).path.length := by
      have above := List.length_pos_iff.mpr parent.ns.nonempty
      rw [Namespace.createChild, List.length_append, List.length_singleton]
      omega
    have hidden : cache.namespaceById.lookup (parent.ns.createChild id).id = none := by
      rw [identifier]
      unfold childNamespaceAvailabilityValidator at available
      split at available
      · cases available
      · next absent => simpa using absent
    have kept := intact.consistent.insertChild path deep
    have same := intact.consistent.lifetimes_insertChild (parent.ns.createChild id)
    have restored := intact.consistent.remove_insertChild path deep hidden observed
    rw [observed] at kept same
    rw [identifier] at restored
    exact ⟨intact.of_same kept same, rollback_of_observe restored⟩

/-- The accepted change of an alias starts from the value that the rollback sets. -/
theorem aliasOf_of_success (consistent : Consistent paths cache) {id : NamespaceId} {aliasAction : AliasAction}
    {aliased : NamespaceAlias} (available : aliasAvailabilityValidator cache id aliasAction = .ok .success)
    (matching : unlinkAliasedDataConsistencyValidator cache id aliasAction aliased = .ok .success) :
    ∃ ns run older, cache.namespaceById.lookup id = some ns ∧
      cache.historyById.lookup ns.rootId = some ⟨ns.rootId, run :: older⟩ ∧
      run.aliasOf ns.rootId id = .ok (if shouldLink aliasAction .rollback then aliased else .none) := by
  unfold aliasAvailabilityValidator at available
  cases found : cache.find id with
  | none =>
    rw [found] at available
    cases available
  | some entry =>
    rw [found] at available
    obtain ⟨visible, older, known⟩ := find_eq_some consistent found
    obtain ⟨before, earlier, available⟩ := Runs.bind_eq_ok.mp available
    refine ⟨entry.ns, entry.root, older, visible, known, ?_⟩
    rw [earlier]
    cases aliasAction with
    | link =>
      have unset : before = .none := by
        by_contra linked
        rw [if_pos ⟨rfl, linked⟩] at available
        cases available
      rw [unset]
      rfl
    | unlink =>
      unfold unlinkAliasedDataConsistencyValidator at matching
      rw [if_neg (by simp), found] at matching
      obtain ⟨_, again, matching⟩ := Runs.bind_eq_ok.mp matching
      rw [earlier] at again
      obtain rfl := Except.ok.inj again
      have same : before = aliased := by
        split at matching
        · split at matching
          · cases matching
          · next equal => rw [not_not.mp equal]
        · split at matching
          · cases matching
          · next equal => rw [not_not.mp equal]
        · cases matching
      rw [same]
      rfl

/-- An alias that was linked or unlinked is restored. -/
theorem aliased_restored (consistent : Consistent paths cache) {id : NamespaceId} {aliasAction : AliasAction}
    {aliased : NamespaceAlias} (available : aliasAvailabilityValidator cache id aliasAction = .ok .success)
    (matching : unlinkAliasedDataConsistencyValidator cache id aliasAction aliased = .ok .success)
    (observed : aliasedObserver cache .commit id aliasAction aliased = (.ok (), next)) :
    aliasedObserver next .rollback id aliasAction aliased = (.ok (), cache) := by
  obtain ⟨ns, run, older, visible, found, earlier⟩ := aliasOf_of_success consistent available matching
  exact consistent.setAlias_setAlias visible found earlier observed

theorem Intact.aliased (intact : Intact paths finalizedHeight registrations cache) {mode : NotifyMode}
    {id : NamespaceId} {aliasAction : AliasAction} {aliased : NamespaceAlias}
    (observed : aliasedObserver cache mode id aliasAction aliased = (.ok (), next)) :
    Intact paths finalizedHeight registrations next := by
  have kept := intact.consistent.setAlias id (if shouldLink aliasAction mode then aliased else .none)
  have same := intact.consistent.lifetimes_setAlias id (if shouldLink aliasAction mode then aliased else .none)
  unfold aliasedObserver at observed
  rw [observed] at kept same
  exact intact.of_same kept same

theorem Intact.execute (intact : Intact paths finalizedHeight registrations cache) (late : finalizedHeight ≤ height)
    (bounded : Bounded registrations height) {notification : Notification} (named : paths.Names notification)
    (executed : Namespaces.execute config accountExists height cache notification = .ok next) :
    Intact paths finalizedHeight (register height registrations notification) next := by
  obtain ⟨_, observed⟩ := execute_eq_ok executed
  cases notification with
  | rootNamespace owner id duration => exact (intact.rootNamespace late bounded named executed).1
  | childNamespace owner id parentId => exact (intact.childNamespace named executed).1
  | namespaceRequired owner id =>
    cases observed
    exact intact
  | aliasLink id aliasAction =>
    cases observed
    exact intact
  | aliasedAddress id aliasAction aliasedData => exact intact.aliased observed
  | aliasedMosaicId id aliasAction aliasedData => exact intact.aliased observed

/-- A child is not its own root. -/
theorem rootOf_ne {id parentId : NamespaceId} (named : paths.path id = paths.path parentId ++ [id]) : paths.rootOf id ≠ id := by
  intro same
  have nonempty := paths.path_ne_nil parentId
  have first : (paths.path id)[0]? = some id := by
    rw [NamespacePaths.rootOf, List.headD_eq_head?_getD, List.head?_eq_getElem?] at same
    rw [named] at same ⊢
    have inside : 0 < (paths.path parentId ++ [id]).length := by simp
    rw [List.getElem?_eq_getElem inside, Option.getD_some] at same
    rw [List.getElem?_eq_getElem inside, same]
  have path := paths.path_of_mem first
  have size := congrArg List.length path
  rw [named, List.length_take, List.length_append, List.length_singleton] at size
  have above := List.length_pos_iff.mpr nonempty
  omega

theorem Intact.rollback {notification : Notification}
    (intact : Intact paths finalizedHeight (register height registrations notification) cache)
    (named : paths.Names notification) (undone : Namespaces.rollback height cache notification = .ok previous) :
    Intact paths finalizedHeight registrations previous := by
  have observed := rollback_eq_ok undone
  cases notification with
  | rootNamespace owner id duration =>
    change cache.remove id = (.ok (), previous) at observed
    cases visible : cache.namespaceById.lookup id with
    | none =>
      rw [NamespaceCache.remove, visible] at observed
      cases observed
    | some ns =>
      have root : ns.rootId = id := by
        rw [intact.consistent.rootId_of_lookup visible, Consistent.rootOf_self named]
      rw [remove_of_root visible root] at observed
      have removed := intact.removeRoot (by rw [observed])
      rw [observed] at removed
      exact removed
  | childNamespace owner id parentId =>
    change cache.remove id = (.ok (), previous) at observed
    cases visible : cache.namespaceById.lookup id with
    | none =>
      rw [NamespaceCache.remove, visible] at observed
      cases observed
    | some ns =>
      have child : ns.rootId ≠ id := by
        rw [intact.consistent.rootId_of_lookup visible]
        exact rootOf_ne named
      rw [remove_of_child visible child] at observed
      have kept := intact.consistent.removeChild ns
      have same := intact.consistent.lifetimes_removeChild ns
      rw [observed] at kept same
      exact intact.of_same kept same
  | namespaceRequired owner id =>
    cases observed
    exact intact
  | aliasLink id aliasAction =>
    cases observed
    exact intact
  | aliasedAddress id aliasAction aliasedData => exact intact.aliased observed
  | aliasedMosaicId id aliasAction aliasedData => exact intact.aliased observed

theorem Intact.executeAll (intact : Intact paths finalizedHeight registrations cache)
    (late : finalizedHeight ≤ height) (bounded : Bounded registrations height) {notifications : List Notification}
    (named : ∀ notification ∈ notifications, paths.Names notification)
    (executed : Namespaces.executeAll config accountExists height cache notifications = .ok next) :
    Intact paths finalizedHeight (notifications.foldl (register height) registrations) next ∧
      Bounded (notifications.foldl (register height) registrations) height := by
  induction notifications generalizing cache registrations with
  | nil =>
    cases executed
    exact ⟨intact, bounded⟩
  | cons notification rest ih =>
    rw [Namespaces.executeAll, List.foldlM_cons] at executed
    obtain ⟨middle, first, later⟩ := Runs.bind_eq_ok.mp executed
    exact ih (intact.execute late bounded (named notification List.mem_cons_self) first)
      (bounded.register notification) (fun other listed => named other (List.mem_cons_of_mem _ listed)) later

/-- A block that is rolled back takes its registrations with it. -/
theorem Intact.rollbackAll {notifications : List Notification}
    (intact : Intact paths finalizedHeight (notifications.foldl (register height) registrations) cache)
    (named : ∀ notification ∈ notifications, paths.Names notification)
    (undone : Namespaces.rollbackAll height cache notifications = .ok previous) :
    Intact paths finalizedHeight registrations previous := by
  -- the last notification is undone first
  induction notifications using List.reverseRecOn generalizing cache with
  | nil =>
    cases undone
    exact intact
  | append_singleton rest notification ih =>
    rw [Namespaces.rollbackAll, List.reverse_append, List.reverse_singleton, List.singleton_append, List.foldlM_cons] at undone
    obtain ⟨middle, first, later⟩ := Runs.bind_eq_ok.mp undone
    rw [List.foldl_append, List.foldl_cons, List.foldl_nil] at intact
    refine ih (intact.rollback (named notification (by simp)) first) ?_ later
    exact fun other listed => named other (List.mem_append_left _ listed)

theorem executeAll_append {first second : List Notification} : executeAll config accountExists height cache (first ++ second) =
      (executeAll config accountExists height cache first >>= fun middle =>
        executeAll config accountExists height middle second) := List.foldlM_append

theorem rollbackAll_append {first second : List Notification} : rollbackAll height cache (first ++ second) =
      (rollbackAll height cache second >>= fun middle => rollbackAll height middle first) := by
  rw [rollbackAll, List.reverse_append, List.foldlM_append]
  rfl

theorem executeAll_singleton {notification : Notification} : executeAll config accountExists height cache [notification] =
      execute config accountExists height cache notification := by
  rw [executeAll, List.foldlM_cons]
  exact bind_pure _

theorem rollbackAll_singleton {notification : Notification} :
    rollbackAll height cache [notification] = rollback height cache notification := by
  rw [rollbackAll, List.reverse_singleton, List.foldlM_cons]
  exact bind_pure _

/-- The validators of an alias transaction read the cache that its observer changes. -/
theorem aliasTransaction_restored (consistent : Consistent paths cache) {signer : Address} {id : NamespaceId}
    {aliasAction : AliasAction} {aliased : NamespaceAlias} {notification : Notification}
    (commits : ∀ cache mode, observe cache mode height notification = aliasedObserver cache mode id aliasAction aliased)
    (matching : accepts config accountExists cache height notification →
      unlinkAliasedDataConsistencyValidator cache id aliasAction aliased = .ok .success)
    (executed : executeAll config accountExists height cache
      [.namespaceRequired signer id, .aliasLink id aliasAction, notification] = .ok next) :
    rollbackAll height next [.namespaceRequired signer id, .aliasLink id aliasAction, notification] = .ok cache := by
  rw [executeAll, List.foldlM_cons] at executed
  obtain ⟨_, required, executed⟩ := Runs.bind_eq_ok.mp executed
  obtain ⟨_, unchanged⟩ := execute_eq_ok required
  cases unchanged
  obtain ⟨_, linked, executed⟩ := Runs.bind_eq_ok.mp executed
  obtain ⟨accepted, unchanged⟩ := execute_eq_ok linked
  cases unchanged
  obtain ⟨_, changed, executed⟩ := Runs.bind_eq_ok.mp executed
  cases executed
  obtain ⟨permitted, observed⟩ := execute_eq_ok changed
  rw [commits] at observed
  have available := accepted (aliasAvailabilityValidator cache id aliasAction) (by simp [validators])
  have restored := aliased_restored consistent available (matching permitted) observed
  have undone : rollback height next notification = .ok cache := rollback_of_observe (by rw [commits, restored])
  rw [rollbackAll, List.reverse_cons, List.reverse_cons, List.reverse_singleton, List.singleton_append,
    List.cons_append, List.foldlM_cons, undone]
  rfl

theorem Intact.transaction_restored (intact : Intact paths finalizedHeight registrations cache)
    (late : finalizedHeight ≤ height) (bounded : Bounded registrations height) {transaction : Transaction}
    (named : ∀ notification ∈ transaction.publish, paths.Names notification)
    (executed : Namespaces.executeAll config accountExists height cache transaction.publish = .ok next) :
    Namespaces.rollbackAll height next transaction.publish = .ok cache := by
  cases transaction with
  | rootRegistration signer id duration =>
    rw [Transaction.publish, executeAll_singleton] at executed
    rw [Transaction.publish, rollbackAll_singleton]
    exact (intact.rootNamespace late bounded (named _ List.mem_cons_self) executed).2
  | childRegistration signer id parentId =>
    rw [Transaction.publish, executeAll_singleton] at executed
    rw [Transaction.publish, rollbackAll_singleton]
    exact (intact.childNamespace (named _ List.mem_cons_self) executed).2
  | addressAlias signer id aliasAction address =>
    refine aliasTransaction_restored intact.consistent (fun _ _ => rfl) ?_ executed
    exact fun accepted => accepted _ (by simp [validators])
  | mosaicAlias signer id aliasAction mosaicId =>
    refine aliasTransaction_restored intact.consistent (fun _ _ => rfl) ?_ executed
    exact fun accepted => accepted _ (by simp [validators])

/-- The transactions of a block are undone one after the other. -/
theorem Intact.transactions_restored (intact : Intact paths finalizedHeight registrations cache)
    (late : finalizedHeight ≤ height) (bounded : Bounded registrations height) {transactions : List Transaction}
    (named : ∀ notification ∈ transactions.flatMap Transaction.publish, paths.Names notification)
    (executed : Namespaces.executeAll config accountExists height cache
      (transactions.flatMap Transaction.publish) = .ok next) :
    Namespaces.rollbackAll height next (transactions.flatMap Transaction.publish) = .ok cache := by
  induction transactions generalizing cache registrations with
  | nil =>
    cases executed
    rfl
  | cons transaction rest ih =>
    rw [List.flatMap_cons] at executed named ⊢
    have own : ∀ notification ∈ transaction.publish, paths.Names notification :=
      fun notification listed => named notification (List.mem_append_left _ listed)
    rw [executeAll_append] at executed
    obtain ⟨middle, first, later⟩ := Runs.bind_eq_ok.mp executed
    obtain ⟨kept, limited⟩ := intact.executeAll late bounded own first
    have undone := ih kept limited (fun notification listed => named notification (List.mem_append_right _ listed)) later
    rw [rollbackAll_append, undone]
    exact intact.transaction_restored late bounded own first

end Intact

/-- The registrations of the blocks are listed from the newest to the oldest. -/
def registered : List Block → Registrations
  | [] => fun _ => []
  | block :: older => block.notifications.foldl (register block.height) (registered older)

theorem foldl_register (height : Height) (notifications : List Notification) (registrations : Registrations)
    (id : NamespaceId) : notifications.foldl (register height) registrations id =
      notifications.foldl (register height) (fun _ => []) id ++ registrations id := by
  have once : ∀ registrations notification, register height registrations notification id =
      register height (fun _ => []) notification id ++ registrations id := by
    intro registrations notification
    cases notification with
    | rootNamespace owner namespaceId duration =>
      by_cases same : id = namespaceId
      · subst same
        rw [register, Function.update_self, register, Function.update_self]
        rfl
      · rw [register, Function.update_of_ne same, register, Function.update_of_ne same]
        rfl
    | _ => rfl
  induction notifications generalizing registrations with
  | nil => rfl
  | cons notification rest ih =>
    rw [List.foldl_cons, List.foldl_cons, ih, ih (register height (fun _ => []) notification), once registrations,
      List.append_assoc]

theorem registered_append (newer final : List Block) (id : NamespaceId) :
    registered (newer ++ final) id = registered newer id ++ registered final id := by
  induction newer with
  | nil => rfl
  | cons block newer ih =>
    rw [List.cons_append, registered, foldl_register, ih, registered, foldl_register _ _ (registered newer), List.append_assoc]

/-- Every registration is made at the height of one of the blocks. -/
theorem registered_le {blocks : List Block} {height : Height} (below : ∀ block ∈ blocks, block.height ≤ height) :
    Bounded (registered blocks) height := by
  induction blocks with
  | nil =>
    intro id earlier listed
    cases listed
  | cons block older ih =>
    have own := below block List.mem_cons_self
    have rest := ih fun other listed => below other (List.mem_cons_of_mem _ listed)
    intro id earlier listed
    rw [registered, foldl_register] at listed
    obtain now | before := List.mem_append.mp listed
    · have bounded : ∀ notifications : List Notification, ∀ registrations : Registrations, Bounded registrations block.height →
          Bounded (notifications.foldl (register block.height) registrations) block.height := by
        intro notifications
        induction notifications with
        | nil => exact fun _ bounded => bounded
        | cons notification later ih => exact fun _ bounded => ih _ (bounded.register notification)
      exact UInt64.le_trans (bounded _ _ (fun _ _ listed => by cases listed) id earlier now) own
    · exact rest id earlier before

/-- The cache is intact for the blocks that can be rolled back. -/
structure IntactChain (paths : NamespacePaths) (chain : NamespaceChain) : Prop where
  intact : Intact paths chain.finalizedHeight (registered chain.blocks) chain.cache
  named : ∀ block ∈ chain.blocks, ∀ notification ∈ block.notifications, paths.Names notification
  ordered : chain.blocks.Pairwise fun newer block => block.height < newer.height
  above : ∀ block ∈ chain.blocks, chain.finalizedHeight < block.height

variable {config : NamespaceConfiguration} {paths : NamespacePaths} {chain : NamespaceChain} {height : Height}

theorem IntactChain.finalizedHeight_le (whole : IntactChain paths chain) : chain.finalizedHeight ≤ chain.height := by
  have above := whole.above
  unfold NamespaceChain.height
  cases list : chain.blocks with
  | nil => exact UInt64.le_refl _
  | cons block older => exact UInt64.le_of_lt (above block (by rw [list]; exact List.mem_cons_self))

theorem IntactChain.height_le (whole : IntactChain paths chain) : ∀ block ∈ chain.blocks, block.height ≤ chain.height := by
  have ordered := whole.ordered
  unfold NamespaceChain.height
  cases list : chain.blocks with
  | nil => simp
  | cons newest older =>
    rw [list] at ordered
    intro block listed
    obtain rfl | before := List.mem_cons.mp listed
    · exact UInt64.le_refl _
    · exact UInt64.le_of_lt ((List.pairwise_cons.mp ordered).1 block before)

/-- A block above the chain comes after all registrations. -/
theorem IntactChain.bounded (whole : IntactChain paths chain) (above : chain.height < height) :
    chain.finalizedHeight ≤ height ∧ Bounded (registered chain.blocks) height :=
  ⟨UInt64.le_of_lt (UInt64.lt_of_le_of_lt whole.finalizedHeight_le above),
    registered_le fun other listed => UInt64.le_of_lt (UInt64.lt_of_le_of_lt (whole.height_le other listed) above)⟩

theorem Reachable.intactChain (reachable : Reachable config paths chain) : IntactChain paths chain := by
  induction reachable with
  | nemesis =>
    refine ⟨⟨.create paths _, ?_, ?_, ?_⟩, by simp, List.Pairwise.nil, by simp⟩
    · intro key
      simp [NamespaceCache.create]
    · intro id key member
      cases member
    · intro id
      trivial
  | @commit chain block accountExists next _ above named executed whole =>
    obtain ⟨late, bounded⟩ := whole.bounded above
    refine ⟨(whole.intact.executeAll late bounded named executed).1, ?_, ?_, ?_⟩
    · intro other listed
      obtain rfl | before := List.mem_cons.mp listed
      · exact named
      · exact whole.named other before
    · exact List.pairwise_cons.mpr
        ⟨fun other listed => UInt64.lt_of_le_of_lt (whole.height_le other listed) above, whole.ordered⟩
    · intro other listed
      obtain rfl | before := List.mem_cons.mp listed
      · exact UInt64.lt_of_le_of_lt whole.finalizedHeight_le above
      · exact whole.above other before
  | @rollback chain block older previous _ blocks undone whole =>
    have intact := whole.intact
    have named := whole.named
    have ordered := whole.ordered
    have above := whole.above
    rw [blocks] at intact named ordered above
    refine ⟨intact.rollbackAll (named block List.mem_cons_self) undone, ?_, (List.pairwise_cons.mp ordered).2, ?_⟩
    · exact fun other listed => named other (List.mem_cons_of_mem _ listed)
    · exact fun other listed => above other (List.mem_cons_of_mem _ listed)
  | @finalize chain newer final height _ blocks later covered above whole =>
    have intact := whole.intact
    have named := whole.named
    have ordered := whole.ordered
    rw [blocks] at intact named ordered
    refine ⟨⟨intact.consistent, intact.nonempty, ?_, ?_⟩, ?_, (List.pairwise_append.mp ordered).1, above⟩
    · intro id key member
      exact (intact.expired id key member).imp_left fun past => UInt64.le_trans past later
    · intro id
      have started := intact.started id
      rw [registered_append] at started
      exact started.finalize later fun earlier listed => registered_le covered id earlier listed
    · exact fun other listed => named other (List.mem_append_left _ listed)
  | prune _ final whole => exact ⟨whole.intact.prune final, whole.named, whole.ordered, whole.above⟩

/-- Executing a block on a reachable cache and rolling it back restores the cache. -/
theorem rollback_restores {block : Block} {accountExists : Address → Bool} {next : NamespaceCache}
    (reachable : Reachable config paths chain) (above : chain.height < block.height)
    (named : ∀ notification ∈ block.notifications, paths.Names notification)
    (executed : executeAll config accountExists block.height chain.cache block.notifications = .ok next) :
    rollbackAll block.height next block.notifications = .ok chain.cache := by
  have whole := reachable.intactChain
  obtain ⟨late, bounded⟩ := whole.bounded above
  exact whole.intact.transactions_restored late bounded named executed

/-- A root with a child is registered in the first block. -/
def firstBlock : Block := ⟨1, [.rootRegistration alice 1 10, .childRegistration alice 2 1]⟩

/-- The second block links the child, renews the root and changes the links. -/
def secondBlock : Block :=
  ⟨2, [.addressAlias alice 2 .link bob, .rootRegistration alice 1 5, .mosaicAlias alice 1 .link 7,
    .addressAlias alice 2 .unlink bob, .rootRegistration bob 3 20]⟩

def shortLifetimes : NamespaceConfiguration := ⟨1, 100, 1, 3, 10⟩

def executed (cache : NamespaceCache) (block : Block) : NamespaceCache :=
  match executeAll shortLifetimes (fun _ => true) block.height cache block.notifications with
  | .ok next => next
  | .error _ => cache

theorem executed_eq {cache : NamespaceCache} {block : Block}
    (succeeds : (executeAll shortLifetimes (fun _ => true) block.height cache block.notifications).isOk = true) :
    executeAll shortLifetimes (fun _ => true) block.height cache block.notifications = .ok (executed cache block) := by
  unfold executed
  split
  · assumption
  · next failed =>
    rw [failed] at succeeds
    cases succeeds

/-- The second block is rolled back to the state after the first one. -/
theorem rollback_restores_renewal :
    let chain : NamespaceChain := ⟨executed (NamespaceCache.create 1) firstBlock, 0, [firstBlock]⟩
    Reachable shortLifetimes twoPaths chain ∧ (executed chain.cache secondBlock).deepSize = 5 ∧
      rollbackAll 2 (executed chain.cache secondBlock) secondBlock.notifications = .ok chain.cache := by
  have reachable : Reachable shortLifetimes twoPaths
      ⟨executed (NamespaceCache.create 1) firstBlock, 0, [firstBlock]⟩ :=
    Reachable.commit .nemesis (by decide) (by decide) (executed_eq (by decide))
  refine ⟨reachable, by decide, rollback_restores reachable (by decide) (by decide) (executed_eq (by decide))⟩

/-- The root has the identifier of a child. -/
def collidingBlock : Block := ⟨2, [.rootRegistration alice 2 5]⟩

/-- The rollback of a root that took the identifier of a child removes the child from the flat map. -/
theorem rollback_loses_child :
    let chain : NamespaceChain := ⟨executed (NamespaceCache.create 1) firstBlock, 0, [firstBlock]⟩
    Reachable shortLifetimes twoPaths chain ∧ chain.cache.namespaceById.lookup 2 = some child ∧
      executeAll shortLifetimes (fun _ => true) collidingBlock.height chain.cache collidingBlock.notifications =
        .ok (executed chain.cache collidingBlock) ∧
      ∃ previous, rollbackAll collidingBlock.height (executed chain.cache collidingBlock) collidingBlock.notifications =
        .ok previous ∧ previous.namespaceById.lookup 2 = none := by
  have reachable : Reachable shortLifetimes twoPaths
      ⟨executed (NamespaceCache.create 1) firstBlock, 0, [firstBlock]⟩ :=
    Reachable.commit .nemesis (by decide) (by decide) (executed_eq (by decide))
  exact ⟨reachable, by decide, executed_eq (by decide), _, rfl, by decide⟩

end Catapult.Namespaces
