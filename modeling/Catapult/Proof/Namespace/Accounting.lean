import Catapult.Proof.Namespace.Consistency

/-
This file proves that every run of operations keeps the cache consistent with its histories.
-/

namespace Catapult.Namespaces

open NamespaceCache RootNamespaceHistory

/-- The history shows its root and the children of its newest root. -/
def visibleIds (history : RootNamespaceHistory) : List NamespaceId :=
  history.id ::
    match history.runs with
    | [] => []
    | run :: _ => run.children.ids

/-- The flat map, the sizes and the height groups account for all histories. -/
structure Accounted (cache : NamespaceCache) : Prop where
  identified : ∀ rootId history, cache.historyById.lookup rootId = some history → history.id = rootId
  visible : ∀ id, id ∈ cache.namespaceById ↔
    ∃ rootId history, cache.historyById.lookup rootId = some history ∧ id ∈ visibleIds history
  active : cache.activeSize = cache.namespaceById.keys.card
  deep : cache.deepSize = ∑ rootId ∈ cache.historyById.keys, (cache.historyById.lookup rootId).elim 0
    fun history => history.historyDepth + history.numAllHistoricalChildren
  grouped : ∀ rootId history, cache.historyById.lookup rootId = some history → ∀ root ∈ history.roots,
    rootId ∈ cache.rootNamespaceIdsByExpiryHeight.identifiers root.lifetime.endHeight

theorem deepWeight_eq_sum (history : RootNamespaceHistory) :
    deepWeight history = ((entries history.runs).map fun entry => entry.2.length + 1).sum := by
  rw [deepWeight, namespaceSizes, historyDepth, roots_eq_entries, numAllHistoricalChildren, List.length_map]
  induction entries history.runs with
  | nil => rfl
  | cons entry rest ih =>
    simp only [List.length_cons, List.map_cons, List.sum_cons] at ih ⊢
    omega

/-- A history never grows when it is pruned. -/
theorem deepWeight_prune_le (history : RootNamespaceHistory) (height : Height) :
    deepWeight (history.prune height).2 ≤ deepWeight history := by
  rw [deepWeight_eq_sum, deepWeight_eq_sum]
  refine List.Sublist.sum_le_sum (List.Sublist.map _ ?_) (by simp)
  exact entries_prune height history.runs ▸ List.filter_sublist

/-- The deep size is the sum over all histories. -/
def Balanced (cache : NamespaceCache) : Prop := cache.deepSize = Totals.total deepWeight cache.historyById

/-- The roots that share the children of the newest root can be counted in 32 bits. -/
def SharedRootsFit (cache : NamespaceCache) (rootId : NamespaceId) : Prop :=
  ∀ history ∈ cache.historyById.lookup rootId, ∀ run ∈ history.runs.head?, run.roots.length < 2 ^ 32

theorem SharedRootsFit.toNat_length {cache : NamespaceCache} {rootId : NamespaceId} (fits : SharedRootsFit cache rootId)
    {run : RootRun} {older : List RootRun} (found : cache.historyById.lookup rootId = some ⟨rootId, run :: older⟩) :
    (UInt32.ofNat run.roots.length).toNat = run.roots.length :=
  UInt32.toNat_ofNat_of_lt' (fits _ found run rfl)

namespace Balanced

variable {paths : NamespacePaths} {cache next : NamespaceCache} {id : NamespaceId} {history : RootNamespaceHistory}

/-- The deep size covers every history. -/
theorem deepWeight_le (balanced : Balanced cache) (found : cache.historyById.lookup id = some history) :
    deepWeight history ≤ cache.deepSize := by
  have erased := Totals.total_erase deepWeight cache.historyById id
  rw [found, Option.elim_some] at erased
  rw [balanced]
  omega

/-- The deep size follows the history that is replaced. -/
theorem update (balanced : Balanced cache) (histories : next.historyById = cache.historyById.insert id history)
    (deep : next.deepSize + (cache.historyById.lookup id).elim 0 deepWeight = cache.deepSize + deepWeight history) :
    Balanced next := by
  have changed := Totals.total_insert deepWeight cache.historyById id history
  rw [← histories] at changed
  unfold Balanced at balanced ⊢
  omega

/-- The deep size follows the history that is removed. -/
theorem forget (balanced : Balanced cache) (histories : next.historyById = cache.historyById.erase id)
    (deep : next.deepSize + (cache.historyById.lookup id).elim 0 deepWeight = cache.deepSize) : Balanced next := by
  have changed := Totals.total_erase deepWeight cache.historyById id
  rw [← histories] at changed
  unfold Balanced at balanced ⊢
  omega

theorem insertRoot (balanced : Balanced cache) (consistent : Consistent paths cache) (id : NamespaceId)
    (ownerAddress : Address) (lifetime : NamespaceLifetime) : Balanced (cache.insertRoot id ownerAddress lifetime).2 := by
  cases found : cache.historyById.lookup id with
  | none =>
    rw [consistent.insertRoot_new found]
    refine balanced.update rfl ?_
    rw [found]
    rfl
  | some history =>
    obtain ⟨run, older, rfl⟩ := consistent.exists_run found
    rw [consistent.insertRoot_known found rfl]
    refine balanced.update rfl ?_
    dsimp only
    rw [found, Consistent.pushBack_cons, Option.elim_some, deepWeight_cons]
    split
    · rw [deepWeight_cons, RootRun.roots, List.length_cons]
      ring
    · rw [deepWeight_cons, deepWeight_cons, List.length_nil, List.length_nil]
      omega

/-- A new child counts once for every root that shares it. -/
theorem insertChild (balanced : Balanced cache) (consistent : Consistent paths cache) {ns : Namespace}
    (fits : SharedRootsFit cache ns.rootId) : Balanced (cache.insertChild ns).2 := by
  obtain ⟨error, failed⟩ | ⟨run, older, added, found, succeeded⟩ := consistent.insertChild_cases ns
  · rw [failed]
    exact balanced
  · rw [consistent.insertChild_ok found succeeded]
    obtain ⟨_, _, _, rfl⟩ := RootRun.add_eq_ok succeeded
    refine balanced.update rfl ?_
    dsimp only
    rw [found, Option.elim_some, fits.toNat_length found, deepWeight_cons, deepWeight_cons, RootRun.roots,
      List.length_cons, List.length_append, List.length_singleton]
    ring

theorem setAlias (balanced : Balanced cache) (consistent : Consistent paths cache) (id : NamespaceId)
    (namespaceAlias : NamespaceAlias) : Balanced (cache.setAlias id namespaceAlias).2 := by
  obtain ⟨error, failed⟩ | ⟨ns, run, older, linked, visible, found, succeeded⟩ :=
    consistent.setAlias_cases id namespaceAlias
  · rw [failed]
    exact balanced
  · rw [consistent.setAlias_ok visible found succeeded]
    refine balanced.update rfl ?_
    obtain ⟨_, rfl⟩ | ⟨_, _, rfl⟩ := RootRun.setAlias_eq_ok succeeded
    · rw [found]
      rfl
    · have size : (run.children.setAlias id namespaceAlias).length = run.children.length := List.length_map _
      rw [found, Option.elim_some, deepWeight_cons, deepWeight_cons, size]

theorem removeRoot (balanced : Balanced cache) (consistent : Consistent paths cache) (id : NamespaceId) :
    Balanced (cache.removeRoot id).2 := by
  obtain ⟨error, failed⟩ | ⟨newest, found⟩ | ⟨children, newest, next, rest, older, found⟩ |
    ⟨children, newest, current, older, found⟩ := consistent.removeRoot_cases id
  · rw [failed]
    exact balanced
  · have deep := balanced.deepWeight_le found
    have none : deepWeight ⟨id, []⟩ = 0 := rfl
    rw [deepWeight_cons, List.length_nil, List.length_nil] at deep
    rw [consistent.removeRoot_only found]
    refine balanced.forget rfl ?_
    dsimp only
    rw [found, Option.elim_some, deepWeight_cons, List.length_nil, List.length_nil]
    omega
  · have deep := balanced.deepWeight_le found
    have product : (rest.length + 1 + 1) * (children.length + 1) =
        (rest.length + 1) * (children.length + 1) + (children.length + 1) := by ring
    rw [deepWeight_cons] at deep
    rw [consistent.removeRoot_renewal found]
    refine balanced.update rfl ?_
    dsimp only [popBack]
    rw [found, Option.elim_some, deepWeight_cons, deepWeight_cons]
    dsimp only [List.length_cons] at deep ⊢
    omega
  · have deep := balanced.deepWeight_le found
    rw [deepWeight_cons] at deep
    rw [consistent.removeRoot_takeover found]
    refine balanced.update rfl ?_
    dsimp only [popBack]
    rw [found, Option.elim_some, deepWeight_cons]
    dsimp only [List.length_nil] at deep ⊢
    omega

/-- A removed child counted once for every root that shared it. -/
theorem removeChild (balanced : Balanced cache) (consistent : Consistent paths cache) {ns : Namespace}
    (fits : SharedRootsFit cache ns.rootId) : Balanced (cache.removeChild ns).2 := by
  obtain ⟨error, failed⟩ | ⟨run, older, removed, found, succeeded⟩ := consistent.removeChild_cases ns
  · rw [failed]
    exact balanced
  · have listed := (consistent.valid _ _ found).children run List.mem_cons_self
    have deep := balanced.deepWeight_le found
    rw [deepWeight_cons] at deep
    rw [consistent.removeChild_ok found succeeded]
    obtain ⟨child, known, _, rfl⟩ := RootRun.remove_eq_ok succeeded
    have size := Children.length_filter_ne listed.nodup (Children.mem_ids_of_find known)
    refine balanced.update rfl ?_
    dsimp only
    rw [found, Option.elim_some, fits.toNat_length found, deepWeight_cons, deepWeight_cons, RootRun.roots, List.length_cons]
    rw [← size] at deep ⊢
    dsimp only
    have product := Nat.mul_succ (run.older.length + 1)
      ((run.children.filter fun other => other.1 ≠ ns.id).length + 1)
    dsimp only [Nat.succ_eq_add_one] at product
    omega

theorem remove (balanced : Balanced cache) (consistent : Consistent paths cache) {id : NamespaceId}
    (fits : ∀ ns ∈ cache.namespaceById.lookup id, ns.rootId ≠ id → SharedRootsFit cache ns.rootId) :
    Balanced (cache.remove id).2 := by
  unfold NamespaceCache.remove
  split
  · exact balanced
  · next ns visible =>
    split
    · exact balanced.removeRoot consistent id
    · next child => exact balanced.removeChild consistent (fits ns visible child)

theorem pruneHistory (balanced : Balanced cache) (consistent : Consistent paths cache) (height : Height)
    (ids : List NamespaceId) (id : NamespaceId) : Balanced (NamespaceCache.pruneHistory height (ids, cache) id).2 := by
  unfold NamespaceCache.pruneHistory
  dsimp only
  rw [consistent.findHistory_eq]
  cases found : cache.historyById.lookup id with
  | none => exact balanced
  | some history =>
    have deep := balanced.deepWeight_le found
    have fewer := deepWeight_prune_le history height
    dsimp only [deepWeight] at deep fewer
    dsimp only
    cases empty : (history.prune height).2.empty with
    | true =>
      rw [if_pos rfl]
      refine balanced.forget rfl ?_
      have none : deepWeight (history.prune height).2 = 0 := by
        rw [deepWeight_eq_sum, List.isEmpty_iff.mp empty]
        rfl
      rw [found, Option.elim_some]
      dsimp only [deepWeight] at none ⊢
      omega
    | false =>
      rw [if_neg Bool.false_ne_true]
      refine balanced.update rfl ?_
      rw [found, Option.elim_some]
      dsimp only [deepWeight]
      omega

theorem prune (balanced : Balanced cache) (consistent : Consistent paths cache) (height : Height) :
    Balanced (cache.prune height).2 := by
  unfold NamespaceCache.prune
  generalize ([] : List NamespaceId) = ids
  generalize cache.rootNamespaceIdsByExpiryHeight.identifiers height = expiring
  induction expiring generalizing cache ids with
  | nil => exact balanced
  | cons id rest ih =>
    exact ih (balanced.pruneHistory consistent height ids id) (consistent.pruneHistory height ids id) _

end Balanced

namespace Consistent

variable {paths : NamespacePaths} {cache : NamespaceCache}

theorem mem_visibleIds (consistent : Consistent paths cache) {rootId id : NamespaceId}
    {history : RootNamespaceHistory} (found : cache.historyById.lookup rootId = some history) :
    id ∈ visibleIds history ↔ paths.rootOf id = rootId ∧ (resolve history id).isSome := by
  have valid := consistent.valid rootId history found
  obtain ⟨run, older, rfl⟩ := consistent.exists_run found
  have listed := valid.children run List.mem_cons_self
  rw [resolve_cons, visibleIds, List.mem_cons]
  constructor
  · rintro (rfl | child)
    · exact ⟨rootOf_self valid.rooted, by simp⟩
    · rw [if_neg (ne_of_child valid.rooted listed child), Option.isSome_map]
      exact ⟨rootOf_child listed child, Children.isSome_find.mpr child⟩
  · rintro ⟨_, shown⟩
    split at shown
    · next same => exact .inl same
    · rw [Option.isSome_map] at shown
      exact .inr (Children.isSome_find.mp shown)

theorem mem_namespaceById (consistent : Consistent paths cache) (id : NamespaceId) : id ∈ cache.namespaceById ↔
      ∃ rootId history, cache.historyById.lookup rootId = some history ∧ id ∈ visibleIds history := by
  rw [← Finmap.lookup_isSome, consistent.resolved]
  constructor
  · intro visible
    cases found : cache.historyById.lookup (paths.rootOf id) with
    | none =>
      rw [found] at visible
      cases visible
    | some history =>
      rw [found, Option.bind_some] at visible
      exact ⟨_, history, found, (consistent.mem_visibleIds found).mpr ⟨rfl, visible⟩⟩
  · rintro ⟨rootId, history, found, member⟩
    obtain ⟨rfl, visible⟩ := (consistent.mem_visibleIds found).mp member
    rw [found, Option.bind_some]
    exact visible

/-- Different histories show different namespaces, so the entries of the flat map can be counted by history. -/
theorem card_namespaceById (consistent : Consistent paths cache) :
    cache.namespaceById.keys.card = Totals.total activeWeight cache.historyById := by
  have union : cache.namespaceById.keys = cache.historyById.keys.biUnion fun rootId =>
      (cache.historyById.lookup rootId).elim ∅ fun history => (visibleIds history).toFinset := by
    ext id
    rw [Finmap.mem_keys, consistent.mem_namespaceById, Finset.mem_biUnion]
    constructor
    · rintro ⟨rootId, history, found, member⟩
      exact ⟨rootId, Finmap.mem_keys.mpr (Finmap.mem_of_lookup_eq_some found), by simpa [found] using member⟩
    · rintro ⟨rootId, known, member⟩
      obtain ⟨history, found⟩ := Finmap.mem_iff.mp (Finmap.mem_keys.mp known)
      exact ⟨rootId, history, found, by simpa [found] using member⟩
  rw [union, Finset.card_biUnion, Totals.total]
  · refine Finset.sum_congr rfl ?_
    intro rootId known
    obtain ⟨history, found⟩ := Finmap.mem_iff.mp (Finmap.mem_keys.mp known)
    have valid := consistent.valid rootId history found
    obtain ⟨run, older, rfl⟩ := consistent.exists_run found
    have listed := valid.children run List.mem_cons_self
    have nodup : (visibleIds ⟨rootId, run :: older⟩).Nodup :=
      List.nodup_cons.mpr ⟨fun child => ne_of_child valid.rooted listed child rfl, listed.nodup⟩
    rw [found, Option.elim_some, Option.elim_some, List.toFinset_card_of_nodup nodup, activeWeight_cons]
    simp [visibleIds, Children.ids]
  · intro rootId _ other _ apart
    simp only [Function.onFun]
    cases found : cache.historyById.lookup rootId with
    | none => exact Finset.disjoint_empty_left _
    | some history =>
      cases foundOther : cache.historyById.lookup other with
      | none => exact Finset.disjoint_empty_right _
      | some otherHistory =>
        rw [Option.elim_some, Option.elim_some, Finset.disjoint_left]
        intro id member memberOther
        have first := ((consistent.mem_visibleIds found).mp (List.mem_toFinset.mp member)).1
        have second := ((consistent.mem_visibleIds foundOther).mp (List.mem_toFinset.mp memberOther)).1
        exact apart (first.symm.trans second)

theorem accounted (consistent : Consistent paths cache) (balanced : Balanced cache) : Accounted cache where
  identified := fun rootId history found => (consistent.valid rootId history found).identified
  visible := consistent.mem_namespaceById
  active := consistent.active.trans consistent.card_namespaceById.symm
  deep := balanced
  grouped := consistent.grouped

/-- An operation changes nothing before it throws. -/
theorem unchanged_of_error (consistent : Consistent paths cache) {operation : Operation} {error : NamespaceError}
    (failed : (cache.perform operation).1 = .error error) : (cache.perform operation).2 = cache := by
  cases operation with
  | insertRoot id ownerAddress lifetime =>
    cases found : cache.historyById.lookup id with
    | none =>
      rw [NamespaceCache.perform, consistent.insertRoot_new found] at failed
      cases failed
    | some history =>
      obtain ⟨run, older, rfl⟩ := consistent.exists_run found
      rw [NamespaceCache.perform, consistent.insertRoot_known found rfl] at failed
      cases failed
  | insertChild ns =>
    obtain ⟨_, unchanged⟩ | ⟨_, _, _, found, succeeded⟩ := consistent.insertChild_cases ns
    · rw [NamespaceCache.perform, unchanged]
    · rw [NamespaceCache.perform, consistent.insertChild_ok found succeeded] at failed
      cases failed
  | setAlias id namespaceAlias =>
    obtain ⟨_, unchanged⟩ | ⟨_, _, _, _, visible, found, succeeded⟩ := consistent.setAlias_cases id namespaceAlias
    · rw [NamespaceCache.perform, unchanged]
    · rw [NamespaceCache.perform, consistent.setAlias_ok visible found succeeded] at failed
      cases failed
  | remove id =>
    cases visible : cache.namespaceById.lookup id with
    | none =>
      rw [NamespaceCache.perform, NamespaceCache.remove, visible]
    | some ns =>
      by_cases root : ns.rootId = id
      · have same : cache.perform (.remove id) = cache.removeRoot id := by
          rw [NamespaceCache.perform, NamespaceCache.remove, visible]
          exact if_pos root
        rw [same] at failed ⊢
        obtain ⟨_, unchanged⟩ | ⟨_, found⟩ | ⟨_, _, _, _, _, found⟩ | ⟨_, _, _, _, found⟩ :=
          consistent.removeRoot_cases id
        · rw [unchanged]
        · rw [consistent.removeRoot_only found] at failed
          cases failed
        · rw [consistent.removeRoot_renewal found] at failed
          cases failed
        · rw [consistent.removeRoot_takeover found] at failed
          cases failed
      · have same : cache.perform (.remove id) = cache.removeChild ns := by
          rw [NamespaceCache.perform, NamespaceCache.remove, visible]
          exact if_neg root
        rw [same] at failed ⊢
        obtain ⟨_, unchanged⟩ | ⟨_, _, _, found, succeeded⟩ := consistent.removeChild_cases ns
        · rw [unchanged]
        · rw [consistent.removeChild_ok found succeeded] at failed
          cases failed
  | prune height => cases failed

end Consistent

/-- The callers know the path of a namespace and let the roots of a history end in order. -/
def Issued (paths : NamespacePaths) (cache : NamespaceCache) : Operation → Prop
  | .insertRoot rootId _ lifetime =>
    paths.path rootId = [rootId] ∧ ∀ history ∈ cache.historyById.lookup rootId, ∀ newest ∈ history.roots.head?,
      newest.lifetime.endHeight < lifetime.endHeight
  | .insertChild ns => paths.path ns.id = ns.path ∧ 2 ≤ ns.path.length
  | .setAlias _ _ => True
  | .remove _ => True
  | .prune _ => True

instance (paths : NamespacePaths) (cache : NamespaceCache) : (operation : Operation) → Decidable (Issued paths cache operation)
  | .insertRoot _ _ _ => inferInstanceAs (Decidable (_ ∧ _))
  | .insertChild _ => inferInstanceAs (Decidable (_ ∧ _))
  | .setAlias _ _ => inferInstanceAs (Decidable True)
  | .remove _ => inferInstanceAs (Decidable True)
  | .prune _ => inferInstanceAs (Decidable True)

theorem Consistent.step {paths : NamespacePaths} {cache : NamespaceCache} (consistent : Consistent paths cache)
    {operation : Operation} (issued : Issued paths cache operation) : Consistent paths (cache.step operation) := by
  cases operation with
  | insertRoot id ownerAddress lifetime =>
    exact consistent.insertRoot issued.1 fun history found => issued.2 history found
  | insertChild ns => exact consistent.insertChild issued.1 issued.2
  | setAlias id namespaceAlias => exact consistent.setAlias id namespaceAlias
  | remove id => exact consistent.remove id
  | prune height => exact consistent.prune height

/-- An operation on a child finds a number of roots that the 32-bit counter can hold. -/
def Counted (cache : NamespaceCache) : Operation → Prop
  | .insertRoot _ _ _ => True
  | .insertChild ns => SharedRootsFit cache ns.rootId
  | .setAlias _ _ => True
  | .remove namespaceId =>
    ∀ ns ∈ cache.namespaceById.lookup namespaceId, ns.rootId ≠ namespaceId → SharedRootsFit cache ns.rootId
  | .prune _ => True

instance (cache : NamespaceCache) (rootId : NamespaceId) : Decidable (SharedRootsFit cache rootId) :=
  inferInstanceAs (Decidable (∀ history ∈ cache.historyById.lookup rootId, ∀ run ∈ history.runs.head?, run.roots.length < 2 ^ 32))

instance (cache : NamespaceCache) : (operation : Operation) → Decidable (Counted cache operation)
  | .insertRoot _ _ _ => inferInstanceAs (Decidable True)
  | .insertChild ns => inferInstanceAs (Decidable (SharedRootsFit cache ns.rootId))
  | .setAlias _ _ => inferInstanceAs (Decidable True)
  | .remove namespaceId => inferInstanceAs (Decidable (∀ ns ∈ cache.namespaceById.lookup namespaceId,
      ns.rootId ≠ namespaceId → SharedRootsFit cache ns.rootId))
  | .prune _ => inferInstanceAs (Decidable True)

theorem Balanced.step {paths : NamespacePaths} {cache : NamespaceCache} (balanced : Balanced cache)
    (consistent : Consistent paths cache) {operation : Operation} (counted : Counted cache operation) :
    Balanced (cache.step operation) := by
  cases operation with
  | insertRoot id ownerAddress lifetime => exact balanced.insertRoot consistent id ownerAddress lifetime
  | insertChild ns => exact balanced.insertChild consistent counted
  | setAlias id namespaceAlias => exact balanced.setAlias consistent id namespaceAlias
  | remove id => exact balanced.remove consistent counted
  | prune height => exact balanced.prune consistent height

theorem Consistent.create (paths : NamespacePaths) (gracePeriodDuration : BlockDuration) :
    Consistent paths (NamespaceCache.create gracePeriodDuration) := by
  refine ⟨?_, fun id => rfl, ?_, ?_⟩
  · intro id history found
    cases found
  · exact (Totals.total_empty _).symm
  · intro id history found
    cases found

theorem run_consistent {paths : NamespacePaths} {gracePeriodDuration : BlockDuration} {operations : List Operation}
    (issued : Runs.Along NamespaceCache.step (Issued paths) (NamespaceCache.create gracePeriodDuration) operations) :
    Consistent paths (operations.foldl NamespaceCache.step (NamespaceCache.create gracePeriodDuration)) :=
  issued.invariant (Consistent paths) (fun _ _ consistent condition => consistent.step condition)
    (.create paths gracePeriodDuration)

theorem Balanced.create (gracePeriodDuration : BlockDuration) : Balanced (NamespaceCache.create gracePeriodDuration) :=
  (Totals.total_empty _).symm

/-- A run whose operations on children can be counted leaves a cache that accounts for its histories, and an operation that
throws changes nothing. -/
theorem run_accounted (paths : NamespacePaths) (gracePeriodDuration : BlockDuration) (operations : List Operation)
    (issued : Runs.Along NamespaceCache.step (fun cache operation => Issued paths cache operation ∧ Counted cache operation)
      (NamespaceCache.create gracePeriodDuration) operations) :
    let cache := operations.foldl NamespaceCache.step (NamespaceCache.create gracePeriodDuration)
    Accounted cache ∧ ∀ operation error, (cache.perform operation).1 = .error error → (cache.perform operation).2 = cache := by
  have kept := issued.invariant (fun cache => Consistent paths cache ∧ Balanced cache)
    (fun _ _ kept condition => ⟨kept.1.step condition.1, kept.2.step kept.1 condition.2⟩)
    ⟨.create paths gracePeriodDuration, .create gracePeriodDuration⟩
  exact ⟨kept.1.accounted kept.2, fun _ _ failed => kept.1.unchanged_of_error failed⟩

/-- The second namespace is the child of the first. -/
def twoPaths : NamespacePaths where
  path := fun id => if id = 2 then [1, 2] else [id]
  derived := by
    intro id
    by_cases same : id = 2
    · subst same
      exact .inr ⟨1, by decide⟩
    · exact .inl (if_neg same)

def alice : Address := Vector.replicate 24 1

def bob : Address := Vector.replicate 24 2

def child : Namespace := ⟨[1, 2], by decide⟩

def firstLifetime : NamespaceLifetime := ⟨1, 10, by decide⟩

def renewedLifetime : NamespaceLifetime := ⟨1, 20, by decide⟩

def laterLifetime : NamespaceLifetime := ⟨20, 40, by decide⟩

/-- The root is renewed, expires, is taken over and given back. -/
def takeover : List Operation :=
  [.insertRoot 1 alice firstLifetime, .insertChild child, .insertRoot 1 alice renewedLifetime, .setAlias 2 (.address bob),
    .insertRoot 1 bob laterLifetime, .insertChild child, .remove 2, .remove 1, .prune 10]

/-- The sizes stay right when another owner takes over an expired root. -/
theorem run_accounted_takeover :
    Runs.Along NamespaceCache.step (fun cache operation => Issued twoPaths cache operation ∧ Counted cache operation)
        (NamespaceCache.create 0) takeover ∧
      Accounted (takeover.foldl NamespaceCache.step (NamespaceCache.create 0)) ∧
      (takeover.foldl NamespaceCache.step (NamespaceCache.create 0)).deepSize = 2 := by
  have issued : Runs.Along NamespaceCache.step
      (fun cache operation => Issued twoPaths cache operation ∧ Counted cache operation) (NamespaceCache.create 0) takeover := by
    decide
  exact ⟨issued, (run_accounted twoPaths 0 takeover issued).1, by decide⟩

def lifetimeTo (endHeight : Height) : NamespaceLifetime :=
  if positive : 1 < endHeight then ⟨1, endHeight, positive⟩ else ⟨1, 2, by decide⟩

/-- The same owner renews the root again and again. -/
def repeatedRenewals (count : Nat) : List Operation :=
  (List.range count).map fun index => .insertRoot 1 alice (lifetimeTo (UInt64.ofNat (index + 2)))

theorem endHeight_lifetimeTo {count : Nat} (bounded : count + 2 < 2 ^ 64) :
    (lifetimeTo (UInt64.ofNat (count + 2))).endHeight.toNat = count + 2 := by
  have value : (UInt64.ofNat (count + 2)).toNat = count + 2 := UInt64.toNat_ofNat_of_lt' bounded
  have positive : 1 < UInt64.ofNat (count + 2) := by
    rw [UInt64.lt_iff_toNat_lt, value]
    exact Nat.lt_add_left count (by decide)
  rw [lifetimeTo, dif_pos positive]
  exact value

theorem start_lifetimeTo (endHeight : Height) : (lifetimeTo endHeight).start = 1 := by
  unfold lifetimeTo
  split <;> rfl

theorem canExtend_lifetimeTo (endHeight previous : Height) : RootNamespace.canExtend
    ⟨alice, lifetimeTo endHeight, .none⟩ ⟨alice, lifetimeTo previous, .none⟩ = true := by
  have positive := (lifetimeTo previous).positive
  rw [start_lifetimeTo] at positive
  simp [RootNamespace.canExtend, NamespaceLifetime.isActive, start_lifetimeTo, positive]

/-- Every renewal adds a root that ends later. -/
theorem renewals_shared (count : Nat) (bounded : count + 2 < 2 ^ 64) :
    let cache := (repeatedRenewals (count + 1)).foldl NamespaceCache.step (NamespaceCache.create 0)
    Runs.Along NamespaceCache.step (Issued twoPaths) (NamespaceCache.create 0) (repeatedRenewals (count + 1)) ∧
      Balanced cache ∧ ∃ older, older.length = count ∧
        cache.historyById.lookup 1 = some ⟨1, [⟨[], ⟨alice, lifetimeTo (UInt64.ofNat (count + 2)), .none⟩, older⟩]⟩ := by
  induction count with
  | zero => exact ⟨by decide, (Balanced.create 0).insertRoot (.create twoPaths 0) 1 alice (lifetimeTo 2), [], rfl, by decide⟩
  | succ count ih =>
    obtain ⟨issued, balanced, older, size, found⟩ := ih (by omega)
    have consistent := run_consistent issued
    have again : repeatedRenewals (count + 1 + 1) =
        repeatedRenewals (count + 1) ++ [.insertRoot 1 alice (lifetimeTo (UInt64.ofNat (count + 1 + 2)))] := by
      rw [repeatedRenewals, List.range_succ, List.map_append]
      rfl
    rw [again, List.foldl_append]
    refine ⟨Runs.Along.append.mpr ⟨issued, ⟨⟨rfl, ?_⟩, trivial⟩⟩, balanced.insertRoot consistent 1 alice _,
      ⟨alice, lifetimeTo (UInt64.ofNat (count + 2)), .none⟩ :: older, congrArg (· + 1) size, ?_⟩
    · intro other known newest first
      obtain rfl := Option.some.inj (found.symm.trans known)
      obtain rfl : _ = newest := Option.some.inj first
      rw [UInt64.lt_iff_toNat_lt, endHeight_lifetimeTo (by omega), endHeight_lifetimeTo bounded]
      omega
    · change (NamespaceCache.insertRoot _ 1 alice _).2.historyById.lookup 1 = _
      rw [consistent.insertRoot_known found rfl, Consistent.pushBack_cons, if_pos (canExtend_lifetimeTo _ _)]
      exact Finmap.lookup_insert _

/-- The number of roots wraps around and the child is not added to the deep size. -/
theorem insertChild_uncounted {cache : NamespaceCache} (consistent : Consistent twoPaths cache) (balanced : Balanced cache)
    {newest : RootNamespace} {older : List RootNamespace} (full : older.length + 1 = 2 ^ 32)
    (found : cache.historyById.lookup 1 = some ⟨1, [⟨[], newest, older⟩]⟩) : ¬ Balanced (cache.insertChild child).2 := by
  have added : RootRun.add ⟨[], newest, older⟩ child.rootId child = .ok ⟨[(2, ⟨child, .none⟩)], newest, older⟩ := rfl
  have known : cache.historyById.lookup child.rootId = some ⟨child.rootId, [⟨[], newest, older⟩]⟩ := found
  have wrapped : (UInt32.ofNat (RootRun.roots ⟨[], newest, older⟩).length).toNat = 0 := by
    rw [RootRun.roots, List.length_cons, full]
    rfl
  have changed := Totals.total_insert deepWeight cache.historyById child.rootId
    ⟨child.rootId, [⟨[(2, ⟨child, .none⟩)], newest, older⟩]⟩
  rw [known, Option.elim_some, deepWeight_cons, deepWeight_cons, List.length_singleton, List.length_nil, full] at changed
  intro deep
  rw [consistent.insertChild_ok known added, wrapped] at deep
  unfold Balanced at balanced deep
  dsimp only at deep
  omega

/-- After so many renewals that their number wraps around a child is not accounted for. -/
theorem renewals_unaccounted {count : Nat} (full : count + 1 = 2 ^ 32) :
    Runs.Along NamespaceCache.step (Issued twoPaths) (NamespaceCache.create 0)
        (repeatedRenewals (count + 1) ++ [Operation.insertChild child]) ∧
      ¬ Accounted ((repeatedRenewals (count + 1) ++ [Operation.insertChild child]).foldl NamespaceCache.step
        (NamespaceCache.create 0)) := by
  obtain ⟨issued, balanced, older, size, found⟩ := renewals_shared count (by omega)
  refine ⟨Runs.Along.append.mpr ⟨issued, ⟨⟨rfl, by decide⟩, trivial⟩⟩, ?_⟩
  rw [List.foldl_append]
  intro accounted
  exact insertChild_uncounted (run_consistent issued) balanced (size ▸ full) found accounted.deep

/-- After 2^32 renewals a new child is not counted. -/
theorem run_unaccounted : Runs.Along NamespaceCache.step (Issued twoPaths) (NamespaceCache.create 0)
        (repeatedRenewals (2 ^ 32) ++ [Operation.insertChild child]) ∧
      ¬ Accounted ((repeatedRenewals (2 ^ 32) ++ [Operation.insertChild child]).foldl NamespaceCache.step
        (NamespaceCache.create 0)) :=
  renewals_unaccounted rfl

end Catapult.Namespaces
