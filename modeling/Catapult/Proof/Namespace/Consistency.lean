import Catapult.Library.SortedMap
import Catapult.Library.Totals
import Catapult.Proof.Namespace.History
import Mathlib.Algebra.Order.BigOperators.Group.List

/-
This file proves that the flat map, the sizes and the height groups agree with the histories.
-/

namespace Catapult.Namespaces

open NamespaceCache RootNamespaceHistory

/-- A history resolves its own identifier and the children of its newest root. -/
def resolve (history : RootNamespaceHistory) (id : NamespaceId) : Option Namespace :=
  if id = history.id then some ⟨[id], singleton_nonempty id⟩
  else
    match history.runs with
    | [] => none
    | run :: _ => (run.children.find id).map ChildNamespaceData.ns

abbrev activeWeight (history : RootNamespaceHistory) : Nat := (namespaceSizes history).1

abbrev deepWeight (history : RootNamespaceHistory) : Nat := (namespaceSizes history).2

structure Consistent (paths : NamespacePaths) (cache : NamespaceCache) : Prop where
  valid : ∀ id history, cache.historyById.lookup id = some history → ValidHistory paths id history
  resolved : ∀ id, cache.namespaceById.lookup id =
    (cache.historyById.lookup (paths.rootOf id)).bind fun history => resolve history id
  active : cache.activeSize = Totals.total activeWeight cache.historyById
  grouped : ∀ id history, cache.historyById.lookup id = some history → ∀ root ∈ history.roots,
    id ∈ cache.rootNamespaceIdsByExpiryHeight.identifiers root.lifetime.endHeight

theorem resolve_cons (rootId id : NamespaceId) (run : RootRun) (older : List RootRun) : resolve ⟨rootId, run :: older⟩ id =
      if id = rootId then some ⟨[id], singleton_nonempty id⟩
      else (run.children.find id).map ChildNamespaceData.ns := rfl

theorem activeWeight_cons (id : NamespaceId) (run : RootRun) (older : List RootRun) :
    activeWeight ⟨id, run :: older⟩ = run.children.length + 1 := by
  rw [activeWeight, namespaceSizes, Nat.add_comm]
  rfl

theorem deepWeight_cons (id : NamespaceId) (run : RootRun) (older : List RootRun) :
    deepWeight ⟨id, run :: older⟩ = (run.older.length + 1) * (run.children.length + 1) + deepWeight ⟨id, older⟩ := by
  simp only [deepWeight, namespaceSizes, historyDepth_cons, numAllHistoricalChildren_cons, RootRun.roots, List.length_cons]
  ring

theorem lookup_removeAll (map : Finmap fun _ : NamespaceId => Namespace) (ids : List NamespaceId) (id : NamespaceId) :
    (removeAll map ids).lookup id = if id ∈ ids then none else map.lookup id := by
  induction ids generalizing map with
  | nil => simp [removeAll]
  | cons first rest ih =>
    change (removeAll (map.erase first) rest).lookup id = _
    rw [ih]
    by_cases same : id = first
    · subst same
      simp
    · by_cases later : id ∈ rest
      · rw [if_pos later, if_pos (List.mem_cons_of_mem _ later)]
      · rw [if_neg later, if_neg (by simp [same, later]), Finmap.lookup_erase_ne same]

theorem lookup_addAll {children : Children}
    (map : Finmap fun _ : NamespaceId => Namespace) (identified : ∀ child ∈ children, child.2.ns.id = child.1)
    (nodup : children.ids.Nodup) (id : NamespaceId) :
    (addAll map children).lookup id = ((children.find id).map ChildNamespaceData.ns).or (map.lookup id) := by
  induction children generalizing map with
  | nil => rfl
  | cons first rest ih =>
    obtain ⟨key, data⟩ := first
    have apart := List.nodup_cons.mp nodup
    have own : data.ns.id = key := identified (key, data) List.mem_cons_self
    change (addAll (map.insert data.ns.id data.ns) rest).lookup id = _
    rw [ih _ (fun child member => identified child (List.mem_cons_of_mem _ member)) apart.2, own, Children.find,
      Children.find, List.lookup_cons]
    by_cases same : id = key
    · subst same
      have absent : List.lookup id rest = none := Children.find_eq_none.mpr apart.1
      simp [absent]
    · rw [beq_eq_false_iff_ne.mpr same, Finmap.lookup_insert_of_ne _ same]

variable {paths : NamespacePaths} {cache next : NamespaceCache} {id : NamespaceId} {history : RootNamespaceHistory}

namespace Consistent

theorem findHistory_eq (consistent : Consistent paths cache) (id : NamespaceId) :
    cache.findHistory id = cache.historyById.lookup id := by
  unfold findHistory
  cases found : cache.historyById.lookup id with
  | none => rfl
  | some history => rw [Option.map_some, copy_eq_self (consistent.valid id history found).shared]

/-- One history is replaced and the rest of the cache follows it. -/
theorem update (consistent : Consistent paths cache) (valid : ValidHistory paths id history)
    (histories : next.historyById = cache.historyById.insert id history)
    (inside : ∀ other, paths.rootOf other = id → next.namespaceById.lookup other = resolve history other)
    (outside : ∀ other, paths.rootOf other ≠ id → next.namespaceById.lookup other = cache.namespaceById.lookup other)
    (active : next.activeSize + (cache.historyById.lookup id).elim 0 activeWeight = cache.activeSize + activeWeight history)
    (grouped : ∀ root ∈ history.roots, id ∈ next.rootNamespaceIdsByExpiryHeight.identifiers root.lifetime.endHeight)
    (others : ∀ other key, other ≠ id → other ∈ cache.rootNamespaceIdsByExpiryHeight.identifiers key →
      other ∈ next.rootNamespaceIdsByExpiryHeight.identifiers key) : Consistent paths next := by
  have lookups : ∀ other, next.historyById.lookup other =
      if other = id then some history else cache.historyById.lookup other := by
    intro other
    rw [histories]
    split
    · next same => rw [same, Finmap.lookup_insert]
    · next apart => rw [Finmap.lookup_insert_of_ne _ apart]
  refine ⟨?_, ?_, ?_, ?_⟩
  · intro other found known
    rw [lookups] at known
    split at known
    · next same => exact Option.some.inj known ▸ same ▸ valid
    · exact consistent.valid other found known
  · intro other
    rw [lookups]
    split
    · next same => rw [inside other same, Option.bind_some]
    · next apart => rw [outside other apart, consistent.resolved]
  · have changed := Totals.total_insert activeWeight cache.historyById id history
    rw [histories]
    have before := consistent.active
    omega
  · intro other found known root member
    rw [lookups] at known
    split at known
    · next same =>
      rw [same]
      exact grouped root (Option.some.inj known ▸ member)
    · next apart => exact others other _ apart (consistent.grouped other found known root member)

/-- One history is removed and the rest of the cache follows it. -/
theorem forget (consistent : Consistent paths cache) (histories : next.historyById = cache.historyById.erase id)
    (inside : ∀ other, paths.rootOf other = id → next.namespaceById.lookup other = none)
    (outside : ∀ other, paths.rootOf other ≠ id → next.namespaceById.lookup other = cache.namespaceById.lookup other)
    (active : next.activeSize + (cache.historyById.lookup id).elim 0 activeWeight = cache.activeSize)
    (others : ∀ other key, other ≠ id → other ∈ cache.rootNamespaceIdsByExpiryHeight.identifiers key →
      other ∈ next.rootNamespaceIdsByExpiryHeight.identifiers key) : Consistent paths next := by
  have lookups : ∀ other, next.historyById.lookup other =
      if other = id then none else cache.historyById.lookup other := by
    intro other
    rw [histories]
    split
    · next same => rw [same, Finmap.lookup_erase]
    · next apart => rw [Finmap.lookup_erase_ne apart]
  refine ⟨?_, ?_, ?_, ?_⟩
  · intro other found known
    rw [lookups] at known
    split at known
    · cases known
    · exact consistent.valid other found known
  · intro other
    rw [lookups]
    split
    · next same => rw [inside other same, Option.bind_none]
    · next apart => rw [outside other apart, consistent.resolved]
  · have changed := Totals.total_erase activeWeight cache.historyById id
    rw [histories]
    have before := consistent.active
    omega
  · intro other found known root member
    rw [lookups] at known
    split at known
    · cases known
    · next apart => exact others other _ apart (consistent.grouped other found known root member)

/-- A root namespace is the root of its own path. -/
theorem rootOf_self (rooted : paths.path id = [id]) : paths.rootOf id = id := by
  rw [NamespacePaths.rootOf, rooted]
  rfl

/-- No child has the identifier of its root. -/
theorem ne_of_child {children : Children} {other : NamespaceId} (rooted : paths.path id = [id])
    (valid : ValidChildren paths id children) (child : other ∈ children.ids) : other ≠ id := by
  rintro rfl
  obtain ⟨entry, listed, same⟩ := List.mem_map.mp child
  have deep := valid.deep entry listed
  rw [same, rooted] at deep
  simp at deep

theorem rootOf_child {children : Children} {other : NamespaceId} (valid : ValidChildren paths id children)
    (child : other ∈ children.ids) : paths.rootOf other = id := by
  obtain ⟨entry, listed, same⟩ := List.mem_map.mp child
  exact same ▸ valid.rooted entry listed

/-- The flat map shows what the history of a root resolves. -/
theorem lookup_inside (consistent : Consistent paths cache) (found : cache.historyById.lookup id = some history)
    {other : NamespaceId} (below : paths.rootOf other = id) : cache.namespaceById.lookup other = resolve history other := by
  rw [consistent.resolved, below, found, Option.bind_some]

theorem insertRoot_new (consistent : Consistent paths cache) (found : cache.historyById.lookup id = none)
    (ownerAddress : Address) (lifetime : NamespaceLifetime) : cache.insertRoot id ownerAddress lifetime = (.ok (), { cache with
      historyById := cache.historyById.insert id (RootNamespaceHistory.pushBack ⟨id, []⟩ ownerAddress lifetime)
      namespaceById := cache.namespaceById.insert id ⟨[id], singleton_nonempty id⟩
      rootNamespaceIdsByExpiryHeight := cache.rootNamespaceIdsByExpiryHeight.add lifetime.endHeight id
      activeSize := cache.activeSize + 1
      deepSize := cache.deepSize + 1 }) := by
  rw [NamespaceCache.insertRoot, consistent.findHistory_eq, found]

theorem insertRoot_known (consistent : Consistent paths cache) {run : RootRun} {older : List RootRun}
    (found : cache.historyById.lookup id = some history) (runs : history.runs = run :: older)
    (ownerAddress : Address) (lifetime : NamespaceLifetime) : cache.insertRoot id ownerAddress lifetime = (.ok (), { cache with
      historyById := cache.historyById.insert id (history.pushBack ownerAddress lifetime)
      namespaceById :=
        if RootNamespace.canExtend ⟨ownerAddress, lifetime, .none⟩ run.newest then cache.namespaceById
        else removeAll cache.namespaceById run.children.ids
      rootNamespaceIdsByExpiryHeight := cache.rootNamespaceIdsByExpiryHeight.add lifetime.endHeight id
      activeSize :=
        if RootNamespace.canExtend ⟨ownerAddress, lifetime, .none⟩ run.newest then cache.activeSize
        else cache.activeSize - run.children.length
      deepSize :=
        if RootNamespace.canExtend ⟨ownerAddress, lifetime, .none⟩ run.newest then
          cache.deepSize + run.children.length + 1
        else cache.deepSize + 1 }) := by
  rw [NamespaceCache.insertRoot, consistent.findHistory_eq, found]
  dsimp only
  rw [runs]
  dsimp only
  split <;> rfl

theorem exists_run (consistent : Consistent paths cache) (found : cache.historyById.lookup id = some history) :
    ∃ run older, history = ⟨id, run :: older⟩ := by
  have valid := consistent.valid id history found
  obtain ⟨rootId, runs⟩ := history
  obtain rfl : id = rootId := valid.identified.symm
  obtain ⟨run, older, rfl⟩ := List.exists_cons_of_ne_nil valid.nonempty
  exact ⟨run, older, rfl⟩

/-- The counter of active namespaces covers those of every history. -/
theorem activeWeight_le (consistent : Consistent paths cache) (found : cache.historyById.lookup id = some history) :
    activeWeight history ≤ cache.activeSize := by
  have erased := Totals.total_erase activeWeight cache.historyById id
  rw [found, Option.elim_some] at erased
  rw [consistent.active]
  omega

theorem pushBack_cons (run : RootRun) (older : List RootRun) (ownerAddress : Address) (lifetime : NamespaceLifetime) :
    RootNamespaceHistory.pushBack ⟨id, run :: older⟩ ownerAddress lifetime =
      if RootNamespace.canExtend ⟨ownerAddress, lifetime, .none⟩ run.newest then
        ⟨id, ⟨run.children, ⟨run.newest.ownerAddress, lifetime, run.newest.namespaceAlias⟩, run.roots⟩ :: older⟩
      else ⟨id, ⟨[], ⟨ownerAddress, lifetime, .none⟩, []⟩ :: run :: older⟩ := rfl

/-- A history that grows stays in the height groups of its roots. -/
theorem grouped_pushBack (lifetime : NamespaceLifetime) (ownerAddress : Address) (grouped : ∀ root ∈ history.roots,
      id ∈ cache.rootNamespaceIdsByExpiryHeight.identifiers root.lifetime.endHeight) :
    ∀ root ∈ (history.pushBack ownerAddress lifetime).roots,
      id ∈ (cache.rootNamespaceIdsByExpiryHeight.add lifetime.endHeight id).identifiers root.lifetime.endHeight := by
  intro root member
  obtain ⟨pushed, same, roots⟩ := history.roots_pushBack ownerAddress lifetime
  rw [roots] at member
  obtain rfl | old := List.mem_cons.mp member
  · exact Groups.mem_add.mpr (.inr ⟨by rw [same], rfl⟩)
  · exact Groups.mem_add.mpr (.inl (grouped root old))

theorem insertRoot (consistent : Consistent paths cache) {ownerAddress : Address} {lifetime : NamespaceLifetime}
    (rooted : paths.path id = [id]) (later : ∀ history, cache.historyById.lookup id = some history →
      ∀ newest ∈ history.roots.head?, newest.lifetime.endHeight < lifetime.endHeight) :
    Consistent paths (cache.insertRoot id ownerAddress lifetime).2 := by
  have others : ∀ other key, other ≠ id → other ∈ cache.rootNamespaceIdsByExpiryHeight.identifiers key →
      other ∈ (cache.rootNamespaceIdsByExpiryHeight.add lifetime.endHeight id).identifiers key :=
    fun other key _ member => Groups.mem_add.mpr (.inl member)
  cases found : cache.historyById.lookup id with
  | none =>
    rw [consistent.insertRoot_new found]
    refine consistent.update (.first rooted ownerAddress lifetime) rfl ?_ ?_ ?_
      (grouped_pushBack lifetime ownerAddress (by simp [roots])) others
    · intro other below
      by_cases same : other = id
      · subst same
        exact (Finmap.lookup_insert _).trans (if_pos rfl).symm
      · dsimp only
        rw [Finmap.lookup_insert_of_ne _ same, consistent.resolved, below, found]
        exact (if_neg same).symm
    · intro other apart
      refine Finmap.lookup_insert_of_ne _ ?_
      rintro rfl
      exact apart (rootOf_self rooted)
    · rw [found]
      rfl
  | some history =>
    have valid := consistent.valid id history found
    have known := consistent.grouped id history found
    obtain ⟨run, older, rfl⟩ := consistent.exists_run found
    have listed := valid.children run List.mem_cons_self
    have bound := consistent.activeWeight_le found
    rw [activeWeight_cons] at bound
    rw [consistent.insertRoot_known found rfl]
    refine consistent.update (valid.pushBack (later _ found)) rfl ?_ ?_ ?_
      (grouped_pushBack lifetime ownerAddress known) others
    · intro other below
      dsimp only
      rw [pushBack_cons]
      split
      · exact consistent.lookup_inside found below
      · rw [lookup_removeAll, consistent.lookup_inside found below, resolve_cons, resolve_cons]
        by_cases same : other = id
        · subst same
          rw [if_neg fun child => ne_of_child rooted listed child rfl, if_pos rfl, if_pos rfl]
        · rw [if_neg same, if_neg same]
          split
          · rfl
          · next absent =>
            rw [Children.find_eq_none.mpr absent]
            rfl
    · intro other apart
      dsimp only
      split
      · rfl
      · rw [lookup_removeAll, if_neg fun child => apart (rootOf_child listed child)]
    · dsimp only
      rw [found, pushBack_cons, Option.elim_some, activeWeight_cons]
      split
      · rw [activeWeight_cons]
      · rw [activeWeight_cons, List.length_nil]
        omega

/-- The depth counts the roots that share the changed children in 32 bits. -/
theorem activeOwnerHistoryDepth_replace (consistent : Consistent paths cache) {run : RootRun} {older : List RootRun}
    (found : cache.historyById.lookup id = some ⟨id, run :: older⟩) (children : Children) :
    activeOwnerHistoryDepth ⟨id, { run with children } :: older⟩ = (UInt32.ofNat run.roots.length).toNat := by
  have shared : Shared (RootNamespaceHistory.mk id ({ run with children } :: older)).runs :=
    (consistent.valid id _ found).shared.replace
  rw [activeOwnerHistoryDepth_eq rfl shared]
  rfl

theorem insertChild_ok (consistent : Consistent paths cache) {ns : Namespace} {run added : RootRun}
    {older : List RootRun} (found : cache.historyById.lookup ns.rootId = some ⟨ns.rootId, run :: older⟩)
    (succeeded : run.add ns.rootId ns = .ok added) : cache.insertChild ns = (.ok (), { cache with
      historyById := cache.historyById.insert ns.rootId ⟨ns.rootId, added :: older⟩
      namespaceById := cache.namespaceById.insert ns.id ns
      activeSize := cache.activeSize + 1
      deepSize := cache.deepSize + (UInt32.ofNat run.roots.length).toNat }) := by
  rw [NamespaceCache.insertChild, consistent.findHistory_eq, found]
  dsimp only
  rw [succeeded]
  obtain ⟨_, _, _, rfl⟩ := RootRun.add_eq_ok succeeded
  dsimp only
  rw [consistent.activeOwnerHistoryDepth_replace found]

/-- A child is added to the newest run of its root or nothing changes. -/
theorem insertChild_cases (consistent : Consistent paths cache) (ns : Namespace) :
    (∃ error, cache.insertChild ns = (.error error, cache)) ∨
      ∃ run older added, cache.historyById.lookup ns.rootId = some ⟨ns.rootId, run :: older⟩ ∧
        run.add ns.rootId ns = .ok added := by
  unfold NamespaceCache.insertChild
  rw [consistent.findHistory_eq]
  cases found : cache.historyById.lookup ns.rootId with
  | none => exact .inl ⟨_, rfl⟩
  | some history =>
    obtain ⟨run, older, rfl⟩ := consistent.exists_run found
    dsimp only
    cases result : run.add ns.rootId ns with
    | error error => exact .inl ⟨error, rfl⟩
    | ok added => exact .inr ⟨run, older, added, rfl, result⟩

theorem insertChild (consistent : Consistent paths cache) {ns : Namespace} (path : paths.path ns.id = ns.path)
    (deep : 2 ≤ ns.path.length) : Consistent paths (cache.insertChild ns).2 := by
  obtain ⟨error, failed⟩ | ⟨run, older, added, found, succeeded⟩ := consistent.insertChild_cases ns
  · rw [failed]
    exact consistent
  · rw [consistent.insertChild_ok found succeeded]
    have valid := consistent.valid _ _ found
    have placed := (valid.children run List.mem_cons_self).add valid.rooted path deep succeeded
    obtain ⟨new, _, below, rfl⟩ := RootRun.add_eq_ok succeeded
    have apart : ns.id ≠ ns.rootId :=
      ne_of_child valid.rooted placed (by simp [Children.ids])
    refine consistent.update (valid.replace rfl placed) rfl ?_ ?_ ?_ ?_ ?_
    · intro other inside
      dsimp only
      rw [resolve_cons]
      by_cases same : other = ns.id
      · subst same
        rw [Finmap.lookup_insert, if_neg apart, Children.find, List.lookup_append,
          show List.lookup ns.id run.children = none from Children.find_eq_none.mpr new]
        simp
      · rw [Finmap.lookup_insert_of_ne _ same, consistent.lookup_inside found inside, resolve_cons, Children.find,
          Children.find, List.lookup_append, List.lookup_cons, beq_eq_false_iff_ne.mpr same, List.lookup_nil,
          Option.or_none]
    · intro other outside
      refine Finmap.lookup_insert_of_ne _ ?_
      rintro rfl
      exact outside (rootOf_child placed (by simp [Children.ids]))
    · dsimp only
      rw [found, Option.elim_some, activeWeight_cons, activeWeight_cons, List.length_append, List.length_singleton]
      omega
    · exact consistent.grouped ns.rootId ⟨ns.rootId, run :: older⟩ found
    · exact fun _ _ _ member => member

theorem setAlias_ok (consistent : Consistent paths cache) {namespaceAlias : NamespaceAlias} {ns : Namespace}
    {run linked : RootRun} {older : List RootRun} (visible : cache.namespaceById.lookup id = some ns)
    (found : cache.historyById.lookup ns.rootId = some ⟨ns.rootId, run :: older⟩)
    (succeeded : run.setAlias ns.rootId id namespaceAlias = .ok linked) : cache.setAlias id namespaceAlias = (.ok (), { cache with
      historyById := cache.historyById.insert ns.rootId ⟨ns.rootId, linked :: older⟩ }) := by
  rw [NamespaceCache.setAlias, visible]
  dsimp only
  rw [consistent.findHistory_eq, found]
  dsimp only
  rw [succeeded]

/-- An alias is set in the newest run of the root or nothing changes. -/
theorem setAlias_cases (consistent : Consistent paths cache) (id : NamespaceId) (namespaceAlias : NamespaceAlias) :
    (∃ error, cache.setAlias id namespaceAlias = (.error error, cache)) ∨
      ∃ ns run older linked, cache.namespaceById.lookup id = some ns ∧
        cache.historyById.lookup ns.rootId = some ⟨ns.rootId, run :: older⟩ ∧
        run.setAlias ns.rootId id namespaceAlias = .ok linked := by
  unfold NamespaceCache.setAlias
  cases visible : cache.namespaceById.lookup id with
  | none => exact .inl ⟨_, rfl⟩
  | some ns =>
    dsimp only
    rw [consistent.findHistory_eq]
    cases found : cache.historyById.lookup ns.rootId with
    | none => exact .inl ⟨_, rfl⟩
    | some history =>
      obtain ⟨run, older, rfl⟩ := consistent.exists_run found
      dsimp only
      cases result : run.setAlias ns.rootId id namespaceAlias with
      | error error => exact .inl ⟨error, rfl⟩
      | ok linked => exact .inr ⟨ns, run, older, linked, rfl, found, result⟩

theorem setAlias (consistent : Consistent paths cache) (id : NamespaceId) (namespaceAlias : NamespaceAlias) :
    Consistent paths (cache.setAlias id namespaceAlias).2 := by
  obtain ⟨error, failed⟩ | ⟨ns, run, older, linked, visible, found, succeeded⟩ :=
    consistent.setAlias_cases id namespaceAlias
  · rw [failed]
    exact consistent
  · rw [consistent.setAlias_ok visible found succeeded]
    have valid := consistent.valid _ _ found
    obtain ⟨_, rfl⟩ | ⟨_, _, rfl⟩ := RootRun.setAlias_eq_ok succeeded
    · refine consistent.update (valid.relabel rfl namespaceAlias) rfl ?_ (fun _ _ => rfl) ?_ ?_
        (fun _ _ _ member => member)
      · exact fun other inside => consistent.lookup_inside found inside
      · rw [found]
        rfl
      · intro root member
        have grouped := consistent.grouped _ _ found
        rw [roots_cons] at member grouped
        obtain rfl | old := List.mem_cons.mp member
        · exact grouped run.newest List.mem_cons_self
        · exact grouped root (List.mem_cons_of_mem _ old)
    · have placed := (valid.children run List.mem_cons_self).setAlias id namespaceAlias
      have size : (run.children.setAlias id namespaceAlias).length = run.children.length := List.length_map _
      refine consistent.update (valid.replace rfl placed) rfl ?_ (fun _ _ => rfl) ?_
        (consistent.grouped ns.rootId ⟨ns.rootId, run :: older⟩ found) (fun _ _ _ member => member)
      · intro other inside
        rw [resolve_cons, Children.find_setAlias]
        exact consistent.lookup_inside found inside
      · rw [found, Option.elim_some, activeWeight_cons, activeWeight_cons, size]

/-- A visible namespace has the path of its identifier. -/
theorem path_of_lookup (consistent : Consistent paths cache) {ns : Namespace}
    (visible : cache.namespaceById.lookup id = some ns) : ns.path = paths.path id := by
  rw [consistent.resolved] at visible
  obtain ⟨history, found, shown⟩ := Option.bind_eq_some_iff.mp visible
  have valid := consistent.valid _ history found
  obtain ⟨run, older, rfl⟩ := consistent.exists_run found
  rw [resolve_cons] at shown
  split at shown
  · next same =>
    rw [← Option.some.inj shown, same, valid.rooted, ← same]
  · obtain ⟨child, listed, rfl⟩ := Option.map_eq_some_iff.mp shown
    exact (valid.children run List.mem_cons_self).path _ (Children.mem_of_find listed)

theorem rootId_of_lookup (consistent : Consistent paths cache) {ns : Namespace}
    (visible : cache.namespaceById.lookup id = some ns) : ns.rootId = paths.rootOf id := by
  rw [NamespacePaths.rootOf, ← consistent.path_of_lookup visible, List.headD_eq_head?_getD,
    List.head?_eq_some_head ns.nonempty, Option.getD_some]
  rfl

theorem removeRoot_only (consistent : Consistent paths cache) {newest : RootNamespace}
    (found : cache.historyById.lookup id = some ⟨id, [⟨[], newest, []⟩]⟩) : cache.removeRoot id = (.ok (), { cache with
      historyById := cache.historyById.erase id
      namespaceById := cache.namespaceById.erase id
      rootNamespaceIdsByExpiryHeight := cache.rootNamespaceIdsByExpiryHeight.remove newest.lifetime.endHeight id
      activeSize := cache.activeSize - 1
      deepSize := cache.deepSize - 1 }) := by
  rw [NamespaceCache.removeRoot, consistent.findHistory_eq, found]
  simp [popBack]

theorem removeRoot_renewal (consistent : Consistent paths cache) {children : Children}
    {newest next : RootNamespace} {rest : List RootNamespace} {older : List RootRun}
    (found : cache.historyById.lookup id = some ⟨id, ⟨children, newest, next :: rest⟩ :: older⟩) :
    cache.removeRoot id = (.ok (), { cache with
      historyById := cache.historyById.insert id ⟨id, ⟨children, next, rest⟩ :: older⟩
      rootNamespaceIdsByExpiryHeight := cache.rootNamespaceIdsByExpiryHeight.remove newest.lifetime.endHeight id
      deepSize := cache.deepSize - (1 + children.length) }) := by
  have extended : newest.canExtend next = true := by
    cases (consistent.valid id _ found).shared with
    | extend _ extended => exact extended
  rw [NamespaceCache.removeRoot, consistent.findHistory_eq, found]
  simp [popBack, extended, historyDepth, roots, RootRun.roots]

theorem removeRoot_takeover (consistent : Consistent paths cache) {children : Children} {newest : RootNamespace}
    {current : RootRun} {older : List RootRun}
    (found : cache.historyById.lookup id = some ⟨id, ⟨children, newest, []⟩ :: current :: older⟩) :
    cache.removeRoot id = (.ok (), { cache with
      historyById := cache.historyById.insert id ⟨id, current :: older⟩
      namespaceById := addAll (removeAll cache.namespaceById children.ids) current.children
      rootNamespaceIdsByExpiryHeight := cache.rootNamespaceIdsByExpiryHeight.remove newest.lifetime.endHeight id
      activeSize := cache.activeSize - children.length + current.children.length
      deepSize := cache.deepSize - (1 + children.length) }) := by
  have apart : newest.canExtend current.newest = false := by
    cases (consistent.valid id _ found).shared with
    | start _ fresh => exact fresh current rfl
  rw [NamespaceCache.removeRoot, consistent.findHistory_eq, found]
  simp [popBack, apart, historyDepth, roots, RootRun.roots]

/-- A removed root was the only one, a renewal or a registration by another owner. -/
theorem removeRoot_cases (consistent : Consistent paths cache) (id : NamespaceId) :
    (∃ error, cache.removeRoot id = (.error error, cache)) ∨
      (∃ newest, cache.historyById.lookup id = some ⟨id, [⟨[], newest, []⟩]⟩) ∨
      (∃ children newest next rest older, cache.historyById.lookup id = some ⟨id, ⟨children, newest, next :: rest⟩ :: older⟩) ∨
      ∃ children newest current older, cache.historyById.lookup id = some ⟨id, ⟨children, newest, []⟩ :: current :: older⟩ := by
  cases found : cache.historyById.lookup id with
  | none =>
    rw [NamespaceCache.removeRoot, consistent.findHistory_eq, found]
    exact .inl ⟨_, rfl⟩
  | some history =>
    obtain ⟨⟨children, newest, rest⟩, older, rfl⟩ := consistent.exists_run found
    cases rest with
    | cons next rest => exact .inr (.inr (.inl ⟨children, newest, next, rest, older, rfl⟩))
    | nil =>
      cases older with
      | cons current older => exact .inr (.inr (.inr ⟨children, newest, current, older, rfl⟩))
      | nil =>
        by_cases empty : children = []
        · subst empty
          exact .inr (.inl ⟨newest, rfl⟩)
        · rw [NamespaceCache.removeRoot, consistent.findHistory_eq, found]
          exact .inl ⟨_, if_pos ⟨rfl, empty⟩⟩

/-- The removed root ends last, so the other roots stay in their height groups. -/
theorem grouped_remove (consistent : Consistent paths cache) {newest : RootNamespace}
    (found : cache.historyById.lookup id = some history) (newer : history.roots.head? = some newest) :
    ∀ root ∈ history.roots.tail, id ∈ (cache.rootNamespaceIdsByExpiryHeight.remove newest.lifetime.endHeight id).identifiers
        root.lifetime.endHeight := by
  intro root member
  have ends := (consistent.valid id history found).ends
  have grouped := consistent.grouped id history found
  cases list : history.roots with
  | nil =>
    rw [list] at member
    cases member
  | cons first rest =>
    rw [list] at ends grouped newer member
    obtain rfl := Option.some.inj newer
    have earlier := (List.pairwise_cons.mp ends).1 root member
    refine Groups.mem_remove.mpr ⟨grouped root (List.mem_cons_of_mem _ member), ?_⟩
    rintro ⟨same, _⟩
    exact UInt64.ne_of_lt earlier same

theorem removeRoot (consistent : Consistent paths cache) (id : NamespaceId) : Consistent paths (cache.removeRoot id).2 := by
  have others : ∀ (key : Height) (other : NamespaceId) (group : Height), other ≠ id →
      other ∈ cache.rootNamespaceIdsByExpiryHeight.identifiers group →
      other ∈ (cache.rootNamespaceIdsByExpiryHeight.remove key id).identifiers group :=
    fun key other group apart member => Groups.mem_remove.mpr ⟨member, fun same => apart same.2⟩
  obtain ⟨error, failed⟩ | ⟨newest, found⟩ | ⟨children, newest, next, rest, older, found⟩ |
    ⟨children, newest, current, older, found⟩ := consistent.removeRoot_cases id
  · rw [failed]
    exact consistent
  · have valid := consistent.valid id _ found
    have active := consistent.activeWeight_le found
    rw [activeWeight_cons] at active
    rw [consistent.removeRoot_only found]
    refine consistent.forget rfl ?_ ?_ ?_ (others newest.lifetime.endHeight)
    · intro other inside
      dsimp only
      by_cases same : other = id
      · rw [same, Finmap.lookup_erase]
      · rw [Finmap.lookup_erase_ne same, consistent.lookup_inside found inside, resolve_cons, if_neg same]
        rfl
    · intro other outside
      refine Finmap.lookup_erase_ne ?_
      rintro rfl
      exact outside (rootOf_self valid.rooted)
    · dsimp only
      rw [found, Option.elim_some, activeWeight_cons, List.length_nil]
      omega
  · have valid := consistent.valid id _ found
    rw [consistent.removeRoot_renewal found]
    refine consistent.update (valid.popBack (List.cons_ne_nil _ _)) rfl ?_ (fun _ _ => rfl) ?_
      (consistent.grouped_remove found rfl) (others newest.lifetime.endHeight)
    · exact fun other inside => consistent.lookup_inside found inside
    · rw [found]
      rfl
  · have valid := consistent.valid id _ found
    have active := consistent.activeWeight_le found
    rw [activeWeight_cons] at active
    dsimp only at active
    have removed := valid.children _ List.mem_cons_self
    have restored := valid.children current (List.mem_cons_of_mem _ List.mem_cons_self)
    have shown : ∀ other, (addAll (removeAll cache.namespaceById children.ids) current.children).lookup other =
        ((current.children.find other).map ChildNamespaceData.ns).or
          (if other ∈ children.ids then none else cache.namespaceById.lookup other) := by
      intro other
      rw [lookup_addAll _ (fun child member => restored.id_eq member) restored.nodup, lookup_removeAll]
    rw [consistent.removeRoot_takeover found]
    refine consistent.update (valid.popBack (List.cons_ne_nil _ _)) rfl ?_ ?_ ?_
      (consistent.grouped_remove found rfl) (others newest.lifetime.endHeight)
    · intro other inside
      dsimp only [popBack]
      rw [shown, consistent.lookup_inside found inside, resolve_cons, resolve_cons]
      by_cases same : other = id
      · subst same
        rw [Children.find_eq_none.mpr fun child => ne_of_child valid.rooted restored child rfl,
          if_neg fun child => ne_of_child valid.rooted removed child rfl, if_pos rfl, if_pos rfl]
        rfl
      · rw [if_neg same, if_neg same]
        by_cases child : other ∈ children.ids
        · rw [if_pos child, Option.or_none]
        · rw [if_neg child, Children.find_eq_none.mpr child, Option.map_none, Option.or_none]
    · intro other outside
      dsimp only
      rw [shown, Children.find_eq_none.mpr fun child => outside (rootOf_child restored child),
        if_neg fun child => outside (rootOf_child removed child)]
      rfl
    · dsimp only [popBack]
      rw [found, Option.elim_some, activeWeight_cons, activeWeight_cons]
      dsimp only
      omega

theorem removeChild_ok (consistent : Consistent paths cache) {ns : Namespace} {run removed : RootRun}
    {older : List RootRun} (found : cache.historyById.lookup ns.rootId = some ⟨ns.rootId, run :: older⟩)
    (succeeded : run.remove ns.id = .ok removed) : cache.removeChild ns = (.ok (), { cache with
      historyById := cache.historyById.insert ns.rootId ⟨ns.rootId, removed :: older⟩
      namespaceById := cache.namespaceById.erase ns.id
      activeSize := cache.activeSize - 1
      deepSize := cache.deepSize - (UInt32.ofNat run.roots.length).toNat }) := by
  rw [NamespaceCache.removeChild, consistent.findHistory_eq, found]
  dsimp only
  rw [succeeded]
  obtain ⟨_, _, _, rfl⟩ := RootRun.remove_eq_ok succeeded
  dsimp only
  rw [consistent.activeOwnerHistoryDepth_replace found]

/-- A child is removed from the newest run of its root or nothing changes. -/
theorem removeChild_cases (consistent : Consistent paths cache) (ns : Namespace) :
    (∃ error, cache.removeChild ns = (.error error, cache)) ∨
      ∃ run older removed, cache.historyById.lookup ns.rootId = some ⟨ns.rootId, run :: older⟩ ∧
        run.remove ns.id = .ok removed := by
  unfold NamespaceCache.removeChild
  rw [consistent.findHistory_eq]
  cases found : cache.historyById.lookup ns.rootId with
  | none => exact .inl ⟨_, rfl⟩
  | some history =>
    obtain ⟨run, older, rfl⟩ := consistent.exists_run found
    dsimp only
    cases result : run.remove ns.id with
    | error error => exact .inl ⟨error, rfl⟩
    | ok removed => exact .inr ⟨run, older, removed, rfl, result⟩

theorem removeChild (consistent : Consistent paths cache) (ns : Namespace) : Consistent paths (cache.removeChild ns).2 := by
  obtain ⟨error, failed⟩ | ⟨run, older, removed, found, succeeded⟩ := consistent.removeChild_cases ns
  · rw [failed]
    exact consistent
  · rw [consistent.removeChild_ok found succeeded]
    have valid := consistent.valid _ _ found
    have listed := valid.children run List.mem_cons_self
    have placed := listed.remove succeeded
    have active := consistent.activeWeight_le found
    rw [activeWeight_cons] at active
    obtain ⟨child, known, _, rfl⟩ := RootRun.remove_eq_ok succeeded
    have member := Children.mem_ids_of_find known
    have apart := ne_of_child valid.rooted listed member
    have size := Children.length_filter_ne listed.nodup member
    refine consistent.update (valid.replace rfl placed) rfl ?_ ?_ ?_
      (consistent.grouped ns.rootId ⟨ns.rootId, run :: older⟩ found) (fun _ _ _ member => member)
    · intro other inside
      dsimp only
      rw [resolve_cons]
      by_cases same : other = ns.id
      · subst same
        rw [Finmap.lookup_erase, if_neg apart, Children.find_filter_self]
        rfl
      · rw [Finmap.lookup_erase_ne same, consistent.lookup_inside found inside, resolve_cons, Children.find_filter_ne _ same]
    · intro other outside
      refine Finmap.lookup_erase_ne ?_
      rintro rfl
      exact outside (rootOf_child listed member)
    · dsimp only
      rw [found, Option.elim_some, activeWeight_cons, activeWeight_cons]
      dsimp only
      omega

theorem remove (consistent : Consistent paths cache) (id : NamespaceId) : Consistent paths (cache.remove id).2 := by
  unfold NamespaceCache.remove
  split
  · exact consistent
  · split
    · exact consistent.removeRoot id
    · exact consistent.removeChild _

/-- The collected identifiers all lie below the pruned root. -/
theorem rootOf_prunedIds (valid : ValidHistory paths id history) {height : Height} {other : NamespaceId}
    (removed : other ∈ (history.prune height).1) : paths.rootOf other = id := by
  have child : ∀ {found}, found ∈ prunedIds height history.runs → paths.rootOf found = id := by
    intro found collected
    obtain ⟨run, known, child⟩ := mem_children_of_mem_prunedIds collected
    exact rootOf_child (valid.children run known) child
  unfold RootNamespaceHistory.prune at removed
  dsimp only at removed
  split at removed
  · obtain own | collected := List.mem_insert_iff.mp removed
    · rw [own, valid.identified, rootOf_self valid.rooted]
    · exact child collected
  · exact child removed

theorem pruneHistory (consistent : Consistent paths cache) (height : Height) (ids : List NamespaceId)
    (id : NamespaceId) : Consistent paths (NamespaceCache.pruneHistory height (ids, cache) id).2 := by
  unfold NamespaceCache.pruneHistory
  dsimp only
  rw [consistent.findHistory_eq]
  cases found : cache.historyById.lookup id with
  | none => exact consistent
  | some history =>
    have valid := consistent.valid id history found
    have active := consistent.activeWeight_le found
    have below : ∀ other ∈ (history.prune height).1, paths.rootOf other = id :=
      fun other removed => rootOf_prunedIds valid removed
    obtain ⟨run, older, rfl⟩ := consistent.exists_run found
    have listed := valid.children run List.mem_cons_self
    have outside : ∀ other, paths.rootOf other ≠ id →
        (removeAll cache.namespaceById (RootNamespaceHistory.prune ⟨id, run :: older⟩ height).1).lookup other =
          cache.namespaceById.lookup other := by
      intro other apart
      rw [lookup_removeAll, if_neg fun removed => apart (below other removed)]
    obtain ⟨last, gone⟩ | ⟨kept, stays⟩ := prune_cons height valid.ends
    · have empty : (RootNamespaceHistory.prune ⟨id, run :: older⟩ height).2 = ⟨id, []⟩ := by
        rw [RootNamespaceHistory.prune, gone]
      have ids : (RootNamespaceHistory.prune ⟨id, run :: older⟩ height).1 = (prunedIds height (run :: older)).insert id := by
        rw [RootNamespaceHistory.prune, gone]
        rfl
      have none : namespaceSizes ⟨id, []⟩ = (0, 0) := rfl
      dsimp only
      rw [empty]
      refine consistent.forget rfl ?_ outside ?_ (fun _ _ _ member => member)
      · intro other inside
        dsimp only
        rw [lookup_removeAll, consistent.lookup_inside found inside, ids, resolve_cons]
        by_cases same : other = id
        · rw [if_pos (List.mem_insert_iff.mpr (.inl same))]
        · rw [if_neg same]
          by_cases child : other ∈ run.children.ids
          · rw [if_pos (List.mem_insert_iff.mpr (.inr ((mem_prunedIds child).mpr last)))]
          · rw [Children.find_eq_none.mpr child, Option.map_none, ite_self]
      · rw [found, Option.elim_some]
        dsimp only [activeWeight] at active ⊢
        rw [none]
        omega
    · have pruned : (RootNamespaceHistory.prune ⟨id, run :: older⟩ height).2 =
          ⟨id, { run with older := run.older.filter fun root => height < root.lifetime.endHeight } ::
            older.filterMap (RootRun.prune height)⟩ := by
        rw [RootNamespaceHistory.prune, stays]
      have ids : (RootNamespaceHistory.prune ⟨id, run :: older⟩ height).1 = prunedIds height (run :: older) := by
        rw [RootNamespaceHistory.prune, stays]
        rfl
      have remaining : (RootNamespaceHistory.prune ⟨id, run :: older⟩ height).2.runs ≠ [] := by
        rw [pruned]
        exact List.cons_ne_nil _ _
      have nonempty : (RootNamespaceHistory.prune ⟨id, run :: older⟩ height).2.empty = false := by
        rw [pruned]
        rfl
      have same : activeWeight (RootNamespaceHistory.prune ⟨id, run :: older⟩ height).2 = activeWeight ⟨id, run :: older⟩ := by
        rw [pruned, activeWeight_cons, activeWeight_cons]
      dsimp only
      rw [nonempty]
      refine consistent.update (valid.prune remaining) rfl ?_ outside ?_ ?_ (fun _ _ _ member => member)
      · intro other inside
        dsimp only
        rw [lookup_removeAll, consistent.lookup_inside found inside, ids, pruned, resolve_cons, resolve_cons]
        split
        · next removed =>
          obtain ⟨owner, known, child⟩ := mem_children_of_mem_prunedIds removed
          have absent : other ∉ run.children.ids :=
            fun own => UInt64.not_le.mpr kept ((mem_prunedIds own).mp removed)
          rw [if_neg (ne_of_child valid.rooted (valid.children owner known) child),
            Children.find_eq_none.mpr absent, Option.map_none]
        · rfl
      · rw [found, Option.elim_some]
        dsimp only [activeWeight] at active same ⊢
        omega
      · intro root member
        rw [roots_prune] at member
        exact consistent.grouped id _ found root (List.mem_filter.mp member).1

theorem prune (consistent : Consistent paths cache) (height : Height) : Consistent paths (cache.prune height).2 := by
  unfold NamespaceCache.prune
  generalize ([] : List NamespaceId) = ids
  generalize cache.rootNamespaceIdsByExpiryHeight.identifiers height = expiring
  induction expiring generalizing cache ids with
  | nil => exact consistent
  | cons id rest ih => exact ih (consistent.pruneHistory height ids id) _

end Consistent

end Catapult.Namespaces
