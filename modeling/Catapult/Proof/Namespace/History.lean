import Catapult.Construction.Namespace.NamespaceCache
import Catapult.Library.Runs
import Mathlib.Tactic.Ring

/-
This file proves how the operations on the children and the roots of a history keep them valid.
-/

namespace Catapult.Namespaces

/-- An identifier determines the path of its namespace. -/
structure NamespacePaths where
  path : NamespaceId → List NamespaceId
  derived : ∀ id, path id = [id] ∨ ∃ parent, path id = path parent ++ [id]

namespace NamespacePaths

variable (paths : NamespacePaths)

def rootOf (id : NamespaceId) : NamespaceId := (paths.path id).headD id

theorem getLast_path (id : NamespaceId) : (paths.path id).getLast? = some id := by
  obtain root | ⟨parent, child⟩ := paths.derived id
  · rw [root, List.getLast?_singleton]
  · rw [child, List.getLast?_concat]

/-- Every namespace on a path has the path up to itself. -/
theorem path_of_mem {id ancestor : NamespaceId} {index : Nat} (found : (paths.path id)[index]? = some ancestor) :
    paths.path ancestor = (paths.path id).take (index + 1) := by
  induction size : (paths.path id).length generalizing id with
  | zero =>
    rw [List.length_eq_zero_iff.mp size] at found
    simp at found
  | succ count ih =>
    obtain root | ⟨parent, child⟩ := paths.derived id
    · rw [root] at found ⊢
      obtain ⟨rfl, rfl⟩ : index = 0 ∧ ancestor = id := by
        cases index with
        | zero => simpa [eq_comm] using found
        | succ index => simp at found
      exact root
    · rw [child, List.length_append, List.length_singleton, Nat.add_right_cancel_iff] at size
      rw [child, List.getElem?_append] at found
      split at found
      · next inside =>
        rw [ih found size, child, List.take_append_of_le_length inside]
      · next outside =>
        obtain ⟨first, rfl⟩ : index = (paths.path parent).length ∧ id = ancestor := by
          cases gap : index - (paths.path parent).length with
          | zero =>
            rw [gap] at found
            exact ⟨by omega, by simpa using found⟩
          | succ rest =>
            rw [gap] at found
            simp at found
        rw [first, child, List.take_of_length_le (by simp)]

end NamespacePaths

/-- The children of a run have distinct identifiers and their ancestors are children too. -/
structure ValidChildren (paths : NamespacePaths) (rootId : NamespaceId) (children : Children) : Prop where
  nodup : children.ids.Nodup
  path : ∀ child ∈ children, child.2.ns.path = paths.path child.1
  deep : ∀ child ∈ children, 2 ≤ (paths.path child.1).length
  rooted : ∀ child ∈ children, paths.rootOf child.1 = rootId
  closed : ∀ child ∈ children, ∀ ancestor ∈ (paths.path child.1).tail, ancestor ∈ children.ids

namespace Children

theorem find_eq_none {children : Children} {id : NamespaceId} : children.find id = none ↔ id ∉ children.ids := by
  rw [find, List.lookup_eq_none_iff, ids, List.mem_map]
  constructor
  · rintro apart ⟨child, member, rfl⟩
    simpa using apart child member
  · intro unknown child member
    rw [bne_iff_ne]
    rintro rfl
    exact unknown ⟨child, member, rfl⟩

theorem isSome_find {children : Children} {id : NamespaceId} : (children.find id).isSome = true ↔ id ∈ children.ids := by
  rw [Option.isSome_iff_ne_none, ne_eq, find_eq_none, not_not]

theorem mem_of_find {children : Children} {id : NamespaceId} {child : ChildNamespaceData}
    (found : children.find id = some child) : (id, child) ∈ children := by
  obtain ⟨before, after, rfl, _⟩ := List.lookup_eq_some_iff.mp found
  simp

theorem mem_ids_of_find {children : Children} {id : NamespaceId} {child : ChildNamespaceData}
    (found : children.find id = some child) : id ∈ children.ids :=
  List.mem_map_of_mem (mem_of_find found)

theorem find_of_mem {children : Children} {id : NamespaceId} {child : ChildNamespaceData}
    (nodup : children.ids.Nodup) (member : (id, child) ∈ children) : children.find id = some child := by
  induction children with
  | nil => cases member
  | cons first rest ih =>
    have apart := List.nodup_cons.mp nodup
    obtain same | later := List.mem_cons.mp member
    · subst same
      exact List.lookup_cons_self
    · have other : id ≠ first.1 := by
        rintro rfl
        exact apart.1 (List.mem_map.mpr ⟨_, later, rfl⟩)
      rw [find, List.lookup_cons, beq_eq_false_iff_ne.mpr other]
      exact ih apart.2 later

theorem ids_setAlias (children : Children) (id : NamespaceId) (namespaceAlias : NamespaceAlias) :
    (children.setAlias id namespaceAlias).ids = children.ids := by
  rw [ids, setAlias, ids, List.map_map]
  apply List.map_congr_left
  intro child _
  simp only [Function.comp_apply]
  split
  · next same => exact same.symm
  · rfl

theorem find_setAlias (children : Children) (id other : NamespaceId) (namespaceAlias : NamespaceAlias) :
    ((children.setAlias id namespaceAlias).find other).map ChildNamespaceData.ns =
      (children.find other).map ChildNamespaceData.ns := by
  induction children with
  | nil => rfl
  | cons child rest ih =>
    obtain ⟨key, data⟩ := child
    simp only [find, setAlias, List.map_cons] at ih ⊢
    by_cases same : key = id
    · rw [if_pos same, List.lookup_cons, List.lookup_cons, same]
      cases other == id with
      | true => rfl
      | false => exact ih
    · rw [if_neg same, List.lookup_cons, List.lookup_cons]
      cases other == key with
      | true => rfl
      | false => exact ih

theorem find_filter_ne (children : Children) {id other : NamespaceId} (apart : other ≠ id) :
    Children.find (children.filter fun child => child.1 ≠ id) other = children.find other := by
  induction children with
  | nil => rfl
  | cons child rest ih =>
    obtain ⟨key, data⟩ := child
    by_cases same : key = id
    · subst same
      rw [List.filter_cons_of_neg (by simp), ih, find, find, List.lookup_cons, beq_eq_false_iff_ne.mpr apart]
    · rw [List.filter_cons_of_pos (by simpa using same), find, find, List.lookup_cons, List.lookup_cons]
      cases other == key with
      | true => rfl
      | false => exact ih

theorem find_filter_self (children : Children) (id : NamespaceId) :
    Children.find (children.filter fun child => child.1 ≠ id) id = none := by
  rw [find_eq_none, ids, List.mem_map]
  rintro ⟨child, kept, same⟩
  have apart := (List.mem_filter.mp kept).2
  simp [same] at apart

theorem length_filter_ne {children : Children} {id : NamespaceId} (nodup : children.ids.Nodup)
    (known : id ∈ children.ids) : (children.filter fun child => child.1 ≠ id).length + 1 = children.length := by
  induction children with
  | nil => cases known
  | cons child rest ih =>
    have apart := List.nodup_cons.mp nodup
    by_cases same : child.1 = id
    · subst same
      rw [List.filter_cons_of_neg (by simp), List.length_cons, List.filter_eq_self.mpr]
      intro other member
      rw [decide_eq_true_eq]
      intro equal
      exact apart.1 (List.mem_map.mpr ⟨other, member, equal⟩)
    · rw [List.filter_cons_of_pos (by simpa using same), List.length_cons, List.length_cons]
      have later : id ∈ Children.ids rest := (List.mem_cons.mp known).resolve_left fun equal => same equal.symm
      rw [ih apart.2 later]

end Children

theorem ValidChildren.nil (paths : NamespacePaths) (rootId : NamespaceId) : ValidChildren paths rootId [] :=
  ⟨List.nodup_nil, by simp, by simp, by simp, by simp⟩

/-- A child resolves to the namespace with its own identifier. -/
theorem ValidChildren.id_eq {paths : NamespacePaths} {rootId : NamespaceId} {children : Children}
    (valid : ValidChildren paths rootId children) {child : NamespaceId × ChildNamespaceData}
    (member : child ∈ children) : child.2.ns.id = child.1 := by
  have last := paths.getLast_path child.1
  rw [← valid.path child member, List.getLast?_eq_some_getLast child.2.ns.nonempty, Option.some.injEq] at last
  exact last

namespace RootRun

theorem add_eq_ok {run added : RootRun} {rootId : NamespaceId} {ns : Namespace} (succeeded : run.add rootId ns = .ok added) :
    ns.id ∉ run.children.ids ∧ (rootId = ns.parentId ∨ ns.parentId ∈ run.children.ids) ∧ rootId = ns.rootId ∧
      added = { run with children := run.children ++ [(ns.id, ⟨ns, .none⟩)] } := by
  unfold add at succeeded
  split at succeeded
  · cases succeeded
  · next new =>
    rw [Children.isSome_find] at new
    split at succeeded
    · cases succeeded
    · next placed =>
      split at succeeded
      · cases succeeded
      · next root =>
        refine ⟨new, ?_, not_not.mp root, (Except.ok.inj succeeded).symm⟩
        unfold checkParent at placed
        split at placed
        · next top => exact .inl top
        · split at placed
          · cases placed
          · next parent found => exact .inr (Children.mem_ids_of_find found)

theorem remove_eq_ok {run removed : RootRun} {id : NamespaceId} (succeeded : run.remove id = .ok removed) :
    ∃ child, run.children.find id = some child ∧ hasDescendents run.children id child.ns.path.length = false ∧
      removed = { run with children := run.children.filter fun other => other.1 ≠ id } := by
  unfold remove at succeeded
  split at succeeded
  · cases succeeded
  · next child found =>
    split at succeeded
    · cases succeeded
    · next childless => exact ⟨child, found, by simpa using childless, (Except.ok.inj succeeded).symm⟩

theorem setAlias_eq_ok {run linked : RootRun} {rootId id : NamespaceId} {namespaceAlias : NamespaceAlias}
    (succeeded : run.setAlias rootId id namespaceAlias = .ok linked) :
    (rootId = id ∧ linked = { run with newest := { run.newest with namespaceAlias } }) ∨ (rootId ≠ id ∧ id ∈ run.children.ids ∧
        linked = { run with children := run.children.setAlias id namespaceAlias }) := by
  unfold setAlias at succeeded
  split at succeeded
  · next root => exact .inl ⟨root, (Except.ok.inj succeeded).symm⟩
  · next child =>
    split at succeeded
    · next known => exact .inr ⟨child, Children.isSome_find.mp known, (Except.ok.inj succeeded).symm⟩
    · cases succeeded

end RootRun

/-- The path of a child extends the path of its parent. -/
theorem NamespacePaths.path_parentId (paths : NamespacePaths) {ns : Namespace} (path : paths.path ns.id = ns.path)
    (deep : 2 ≤ ns.path.length) : ns.path = paths.path ns.parentId ++ [ns.id] := by
  obtain root | ⟨parent, child⟩ := paths.derived ns.id
  · rw [← path, root] at deep
    simp at deep
  · have above : ns.parentId = parent := by
      rw [path] at child
      rw [Namespace.parentId, child, List.dropLast_concat, List.getLastD_eq_getLast?, paths.getLast_path, Option.getD_some]
    rw [above, ← child, path]

theorem NamespacePaths.path_ne_nil (paths : NamespacePaths) (id : NamespaceId) : paths.path id ≠ [] := by
  intro empty
  have last := paths.getLast_path id
  rw [empty] at last
  cases last

namespace ValidChildren

variable {paths : NamespacePaths} {rootId : NamespaceId}

theorem add {run added : RootRun} {ns : Namespace} (valid : ValidChildren paths rootId run.children)
    (root : paths.path rootId = [rootId]) (path : paths.path ns.id = ns.path) (deep : 2 ≤ ns.path.length)
    (succeeded : run.add rootId ns = .ok added) : ValidChildren paths rootId added.children := by
  obtain ⟨new, parent, below, rfl⟩ := RootRun.add_eq_ok succeeded
  have member : ∀ {child : NamespaceId × ChildNamespaceData},
      child ∈ run.children ++ [(ns.id, ⟨ns, .none⟩)] → child ∈ run.children ∨ child = (ns.id, ⟨ns, .none⟩) := by
    intro child listed
    simpa using listed
  have ids : Children.ids (run.children ++ [(ns.id, ⟨ns, .none⟩)]) = run.children.ids ++ [ns.id] := by
    simp [Children.ids]
  refine ⟨?_, ?_, ?_, ?_, ?_⟩
  · rw [ids]
    exact List.nodup_append.mpr ⟨valid.nodup, List.nodup_singleton _, by
      rintro id known other last rfl
      exact new (List.mem_singleton.mp last ▸ known)⟩
  · intro child listed
    obtain old | rfl := member listed
    · exact valid.path child old
    · exact path.symm
  · intro child listed
    obtain old | rfl := member listed
    · exact valid.deep child old
    · exact path ▸ deep
  · intro child listed
    obtain old | rfl := member listed
    · exact valid.rooted child old
    · rw [NamespacePaths.rootOf, path, below, Namespace.rootId, List.headD_eq_head?_getD,
        List.head?_eq_some_head ns.nonempty, Option.getD_some]
  · intro child listed ancestor above
    rw [ids, List.mem_append]
    obtain old | rfl := member listed
    · exact .inl (valid.closed child old ancestor above)
    · dsimp only at above
      rw [path, paths.path_parentId path deep, List.tail_append_of_ne_nil (paths.path_ne_nil _), List.mem_append] at above
      refine above.imp ?_ id
      intro higher
      obtain top | known := parent
      · rw [← top, root] at higher
        cases higher
      · obtain ⟨child, listed, same⟩ := List.mem_map.mp known
        exact valid.closed child listed ancestor (same ▸ higher)

/-- A namespace on the path of another child has descendents. -/
theorem hasDescendents {children : Children} (valid : ValidChildren paths rootId children)
    {other : NamespaceId × ChildNamespaceData} {ancestor : NamespaceId} (listed : other ∈ children)
    (above : ancestor ∈ (paths.path other.1).tail) (apart : other.1 ≠ ancestor) :
    RootRun.hasDescendents children ancestor (paths.path ancestor).length = true := by
  obtain ⟨index, found⟩ := List.mem_iff_getElem?.mp above
  rw [List.getElem?_tail] at found
  obtain ⟨inside, _⟩ := List.getElem?_eq_some_iff.mp found
  have level : (paths.path ancestor).length = index + 2 := by
    rw [paths.path_of_mem found, List.length_take]
    omega
  have below : index + 2 < (paths.path other.1).length := by
    refine Nat.lt_of_le_of_ne inside ?_
    intro last
    have final := paths.getLast_path other.1
    rw [List.getLast?_eq_getElem?, ← last, show index + 2 - 1 = index + 1 from rfl, found, Option.some.injEq] at final
    exact apart final.symm
  rw [RootRun.hasDescendents, List.any_eq_true]
  refine ⟨other, listed, ?_⟩
  rw [valid.path other listed, level]
  simpa [found] using below

/-- A namespace that is no child has no descendents. -/
theorem hasDescendents_eq_false {children : Children} (valid : ValidChildren paths rootId children)
    {id : NamespaceId} {level : Nat} (unknown : id ∉ children.ids) (deep : 2 ≤ level) :
    RootRun.hasDescendents children id level = false := by
  rw [Bool.eq_false_iff]
  intro some
  obtain ⟨other, listed, descends⟩ := List.any_eq_true.mp some
  simp only [Bool.and_eq_true, decide_eq_true_eq] at descends
  rw [valid.path other listed] at descends
  refine unknown (valid.closed other listed id (List.mem_iff_getElem?.mpr ⟨level - 2, ?_⟩))
  rw [List.getElem?_tail, show level - 2 + 1 = level - 1 by omega]
  exact descends.2

/-- A removed child is on the path of no other child. -/
theorem remove {run removed : RootRun} {id : NamespaceId} (valid : ValidChildren paths rootId run.children)
    (succeeded : run.remove id = .ok removed) : ValidChildren paths rootId removed.children := by
  obtain ⟨child, found, childless, rfl⟩ := RootRun.remove_eq_ok succeeded
  have old : ∀ {other : NamespaceId × ChildNamespaceData},
      other ∈ run.children.filter (fun other => other.1 ≠ id) → other ∈ run.children ∧ other.1 ≠ id := by
    intro other listed
    simpa using listed
  refine ⟨?_, fun other listed => valid.path other (old listed).1, fun other listed => valid.deep other (old listed).1,
    fun other listed => valid.rooted other (old listed).1, ?_⟩
  · exact valid.nodup.sublist (List.filter_sublist.map _)
  · intro other listed ancestor above
    obtain ⟨known, apart⟩ := old listed
    obtain ⟨parent, present, same⟩ := List.mem_map.mp (valid.closed other known ancestor above)
    refine List.mem_map.mpr ⟨parent, ?_, same⟩
    rw [List.mem_filter]
    refine ⟨present, ?_⟩
    rw [decide_eq_true_eq, same]
    rintro rfl
    have path := valid.path _ (Children.mem_of_find found)
    dsimp only at path
    rw [path, valid.hasDescendents known above apart] at childless
    cases childless

theorem setAlias {children : Children} (valid : ValidChildren paths rootId children) (id : NamespaceId)
    (namespaceAlias : NamespaceAlias) : ValidChildren paths rootId (children.setAlias id namespaceAlias) := by
  have old : ∀ child ∈ children.setAlias id namespaceAlias,
      ∃ before ∈ children, child.1 = before.1 ∧ child.2.ns = before.2.ns := by
    intro child listed
    obtain ⟨before, known, rfl⟩ := List.mem_map.mp listed
    refine ⟨before, known, ?_⟩
    split
    · next same => exact ⟨same.symm, rfl⟩
    · exact ⟨rfl, rfl⟩
  have ids := Children.ids_setAlias children id namespaceAlias
  refine ⟨ids ▸ valid.nodup, ?_, ?_, ?_, ?_⟩
  · intro child listed
    obtain ⟨before, known, same, kept⟩ := old child listed
    rw [kept, same]
    exact valid.path before known
  · intro child listed
    obtain ⟨before, known, same, _⟩ := old child listed
    exact same ▸ valid.deep before known
  · intro child listed
    obtain ⟨before, known, same, _⟩ := old child listed
    exact same ▸ valid.rooted before known
  · intro child listed ancestor above
    obtain ⟨before, known, same, _⟩ := old child listed
    exact ids ▸ valid.closed before known ancestor (same ▸ above)

/-- A child that was just added has no descendents and can be removed. -/
theorem remove_add {run added : RootRun} {ns : Namespace} (valid : ValidChildren paths rootId run.children)
    (deep : 2 ≤ ns.path.length) (succeeded : run.add rootId ns = .ok added) : added.remove ns.id = .ok run := by
  obtain ⟨new, _, _, rfl⟩ := RootRun.add_eq_ok succeeded
  have found : Children.find (run.children ++ [(ns.id, ⟨ns, .none⟩)]) ns.id = some ⟨ns, .none⟩ := by
    rw [Children.find, List.lookup_append, show List.lookup ns.id run.children = none from Children.find_eq_none.mpr new]
    simp
  have childless : RootRun.hasDescendents (run.children ++ [(ns.id, ⟨ns, .none⟩)]) ns.id ns.path.length = false := by
    have before := valid.hasDescendents_eq_false new deep
    rw [RootRun.hasDescendents] at before ⊢
    rw [List.any_append, before]
    simp
  have kept : List.filter (fun other => other.1 ≠ ns.id)
      (run.children ++ [(ns.id, (⟨ns, .none⟩ : ChildNamespaceData))]) = run.children := by
    rw [List.filter_append, List.filter_eq_self.mpr, List.filter_cons_of_neg (by simp), List.filter_nil, List.append_nil]
    intro other member
    rw [decide_eq_true_eq]
    intro same
    exact new (List.mem_map.mpr ⟨other, member, same⟩)
  rw [RootRun.remove]
  dsimp only
  rw [found]
  dsimp only
  rw [childless, kept]
  rfl

/-- Setting the earlier alias undoes the change of an alias. -/
theorem setAlias_restore {run linked : RootRun} {id : NamespaceId} {before changed : NamespaceAlias}
    (valid : ValidChildren paths rootId run.children) (earlier : run.aliasOf rootId id = .ok before)
    (succeeded : run.setAlias rootId id changed = .ok linked) : linked.setAlias rootId id before = .ok run := by
  obtain ⟨root, rfl⟩ | ⟨child, known, rfl⟩ := RootRun.setAlias_eq_ok succeeded
  · rw [RootRun.aliasOf, if_pos root, Except.ok.injEq] at earlier
    rw [RootRun.setAlias, if_pos root, ← earlier]
  · obtain ⟨data, found⟩ := Option.isSome_iff_exists.mp (Children.isSome_find.mpr known)
    rw [RootRun.aliasOf, if_neg child, found, Except.ok.injEq] at earlier
    have restored : (run.children.setAlias id changed).setAlias id before = run.children := by
      rw [Children.setAlias, Children.setAlias, List.map_map]
      refine (List.map_congr_left ?_).trans (List.map_id _)
      rintro ⟨key, other⟩ member
      by_cases same : key = id
      · subst same
        have own := Children.find_of_mem valid.nodup member
        rw [found, Option.some.injEq] at own
        simp [← own, ← earlier]
      · simp [same]
    rw [RootRun.setAlias, if_neg child]
    dsimp only
    rw [if_pos (Children.isSome_find.mpr (by rwa [Children.ids_setAlias])), restored]

end ValidChildren

/-- Roots share their children exactly if each can extend the one before it. -/
inductive Shared : List RootRun → Prop where
  | nil : Shared []
  | start {children : Children} {root : RootNamespace} {older : List RootRun} :
      Shared older → (∀ run ∈ older.head?, root.canExtend run.newest = false) →
      Shared (⟨children, root, []⟩ :: older)
  | extend {children : Children} {root newest : RootNamespace} {rest : List RootNamespace} {older : List RootRun} :
      Shared (⟨children, newest, rest⟩ :: older) → root.canExtend newest = true →
      Shared (⟨children, root, newest :: rest⟩ :: older)

/-- The lifetimes of a valid history end at strictly increasing heights. -/
structure ValidHistory (paths : NamespacePaths) (id : NamespaceId) (history : RootNamespaceHistory) : Prop where
  identified : history.id = id
  rooted : paths.path id = [id]
  nonempty : history.runs ≠ []
  shared : Shared history.runs
  ends : history.roots.Pairwise fun newer root => root.lifetime.endHeight < newer.lifetime.endHeight
  children : ∀ run ∈ history.runs, ValidChildren paths id run.children

theorem RootNamespace.canExtend_self (root : RootNamespace) : root.canExtend root = true := by
  simp [canExtend, NamespaceLifetime.isActive, root.lifetime.positive]

/-- The children do not matter for the sharing. -/
theorem Shared.replace {children replaced : Children} {newest : RootNamespace} {rest : List RootNamespace}
    {older : List RootRun} (shared : Shared (⟨children, newest, rest⟩ :: older)) :
    Shared (⟨replaced, newest, rest⟩ :: older) := by
  induction rest generalizing newest with
  | nil =>
    cases shared with
    | start before fresh => exact .start before fresh
  | cons root rest ih =>
    cases shared with
    | extend before extended => exact .extend (ih before) extended

/-- The alias of the newest root does not matter for the sharing. -/
theorem Shared.relabel {children : Children} {newest : RootNamespace} {rest : List RootNamespace}
    {older : List RootRun} (shared : Shared (⟨children, newest, rest⟩ :: older)) (namespaceAlias : NamespaceAlias) :
    Shared (⟨children, { newest with namespaceAlias }, rest⟩ :: older) := by
  cases shared with
  | start before fresh => exact .start before fresh
  | extend before extended => exact .extend before extended

namespace RootNamespaceHistory

theorem entries_cons (run : RootRun) (older : List RootRun) :
    entries (run :: older) = (run.roots.map fun root => (root, run.children)) ++ entries older := rfl

/-- A copy of a history shares the children of the same roots. -/
theorem copy_eq_self {history : RootNamespaceHistory} (shared : Shared history.runs) : history.copy = history := by
  obtain ⟨id, runs⟩ := history
  suffices rebuilt : (entries runs).foldr (fun entry runs => share runs entry.1 entry.2) [] = runs by
    rw [copy, rebuilt]
  change Shared runs at shared
  induction shared with
  | nil => rfl
  | @start children root older before fresh ih =>
    rw [entries_cons, List.foldr_append, ih]
    cases older with
    | nil => rfl
    | cons run rest =>
      have apart := fresh run rfl
      simp [RootRun.roots, share, apart]
  | @extend children root newest rest older before extended ih =>
    have split : entries (⟨children, root, newest :: rest⟩ :: older) =
        (root, children) :: entries (⟨children, newest, rest⟩ :: older) := rfl
    rw [split, List.foldr_cons, ih]
    simp [share, extended, RootRun.roots]

/-- Every root of the newest run belongs to the active owner and the counter wraps around. -/
theorem activeOwnerHistoryDepth_eq {history : RootNamespaceHistory} {run : RootRun} {older : List RootRun}
    (runs : history.runs = run :: older) (shared : Shared history.runs) :
    history.activeOwnerHistoryDepth = (UInt32.ofNat run.roots.length).toNat := by
  suffices counted : ∀ next : RootNamespace, next.canExtend run.newest = true →
      extendedBy next ((run :: older).flatMap RootRun.roots) = UInt32.ofNat run.roots.length by
    unfold activeOwnerHistoryDepth roots
    rw [runs]
    exact congrArg UInt32.toNat (counted run.newest run.newest.canExtend_self)
  rw [runs] at shared
  obtain ⟨children, newest, rest⟩ := run
  clear runs
  induction rest generalizing newest with
  | nil =>
    intro next extended
    cases shared with
    | start before fresh =>
      cases older with
      | nil => simp [RootRun.roots, extendedBy, extended]
      | cons run rest =>
        have apart := fresh run rfl
        simp [RootRun.roots, extendedBy, extended, apart]
  | cons root rest ih =>
    intro next extended
    cases shared with
    | extend before following =>
      have counted := ih root before newest following
      simp only [RootRun.roots, List.flatMap_cons, List.cons_append, List.length_cons] at counted ⊢
      rw [extendedBy, if_pos extended, counted, ← UInt32.ofNat_one, ← UInt32.ofNat_add]

theorem historyDepth_cons (id : NamespaceId) (run : RootRun) (older : List RootRun) :
    historyDepth ⟨id, run :: older⟩ = run.roots.length + historyDepth ⟨id, older⟩ := by
  simp [historyDepth, roots]

theorem numAllHistoricalChildren_cons (id : NamespaceId) (run : RootRun) (older : List RootRun) :
    numAllHistoricalChildren ⟨id, run :: older⟩ =
      run.roots.length * run.children.length + numAllHistoricalChildren ⟨id, older⟩ := by
  simp [numAllHistoricalChildren, entries_cons, Function.comp_def]

theorem roots_cons (id : NamespaceId) (run : RootRun) (older : List RootRun) :
    roots ⟨id, run :: older⟩ = run.newest :: (run.older ++ roots ⟨id, older⟩) := rfl

/-- A pushed root is put before the other roots. -/
theorem roots_pushBack (history : RootNamespaceHistory) (ownerAddress : Address) (lifetime : NamespaceLifetime) :
    ∃ root : RootNamespace, root.lifetime = lifetime ∧
      (history.pushBack ownerAddress lifetime).roots = root :: history.roots := by
  obtain ⟨id, runs⟩ := history
  cases runs with
  | nil => exact ⟨_, rfl, rfl⟩
  | cons run older =>
    simp only [pushBack]
    split
    · exact ⟨⟨run.newest.ownerAddress, lifetime, run.newest.namespaceAlias⟩, rfl, rfl⟩
    · exact ⟨⟨ownerAddress, lifetime, .none⟩, rfl, rfl⟩

theorem roots_popBack (history : RootNamespaceHistory) : history.popBack.roots = history.roots.tail := by
  obtain ⟨id, runs⟩ := history
  cases runs with
  | nil => rfl
  | cons run older =>
    obtain ⟨children, newest, rest⟩ := run
    cases rest <;> rfl

theorem Shared.pushBack {history : RootNamespaceHistory} (shared : Shared history.runs) (ownerAddress : Address)
    (lifetime : NamespaceLifetime) : Shared (history.pushBack ownerAddress lifetime).runs := by
  obtain ⟨id, runs⟩ := history
  cases runs with
  | nil => exact .start .nil (by simp)
  | cons run older =>
    simp only [RootNamespaceHistory.pushBack]
    split
    · next extended =>
      have same : ownerAddress = run.newest.ownerAddress := by
        simp only [RootNamespace.canExtend, Bool.and_eq_true, decide_eq_true_eq] at extended
        exact extended.1
      subst same
      exact .extend shared extended
    · next apart => exact .start shared (by simpa using apart)

theorem Shared.popBack {history : RootNamespaceHistory} (shared : Shared history.runs) : Shared history.popBack.runs := by
  obtain ⟨id, runs⟩ := history
  cases shared with
  | nil => exact .nil
  | start before fresh => exact before
  | extend before extended => exact before

theorem entries_prune (height : Height) (runs : List RootRun) : entries (runs.filterMap (RootRun.prune height)) =
      (entries runs).filter fun entry => height < entry.1.lifetime.endHeight := by
  induction runs with
  | nil => rfl
  | cons run older ih =>
    rw [entries_cons, List.filter_append, List.filter_map]
    simp only [Function.comp_def]
    cases kept : run.roots.filter fun root => height < root.lifetime.endHeight with
    | nil =>
      have gone : RootRun.prune height run = none := by rw [RootRun.prune, kept]
      rw [List.filterMap_cons_none gone, ih, List.map_nil, List.nil_append]
    | cons newest rest =>
      have stays : RootRun.prune height run = some { run with newest := newest, older := rest } := by
        rw [RootRun.prune, kept]
      rw [List.filterMap_cons_some stays, entries_cons, ih]
      rfl

theorem roots_eq_entries (history : RootNamespaceHistory) : history.roots = (entries history.runs).map Prod.fst := by
  obtain ⟨id, runs⟩ := history
  induction runs with
  | nil => rfl
  | cons run older ih =>
    rw [entries_cons, List.map_append, ← ih, List.map_map]
    simp [roots, Function.comp_def]

theorem roots_prune (history : RootNamespaceHistory) (height : Height) :
    (history.prune height).2.roots = history.roots.filter fun root => height < root.lifetime.endHeight := by
  rw [roots_eq_entries, roots_eq_entries, List.filter_map]
  exact congrArg _ (entries_prune height history.runs)

/-- The newest root ends last, so it is the last one to be pruned. -/
theorem prune_cons (height : Height) {run : RootRun} {older : List RootRun}
    (ends : (roots ⟨0, run :: older⟩).Pairwise fun newer root => root.lifetime.endHeight < newer.lifetime.endHeight) :
    (run.newest.lifetime.endHeight ≤ height ∧ (run :: older).filterMap (RootRun.prune height) = []) ∨
      (height < run.newest.lifetime.endHeight ∧ (run :: older).filterMap (RootRun.prune height) =
          { run with older := run.older.filter fun root => height < root.lifetime.endHeight } ::
            older.filterMap (RootRun.prune height)) := by
  by_cases kept : height < run.newest.lifetime.endHeight
  · have pruned : RootRun.prune height run =
        some { run with older := run.older.filter fun root => height < root.lifetime.endHeight } := by
      rw [RootRun.prune, RootRun.roots, List.filter_cons_of_pos (by simpa using kept)]
    exact .inr ⟨kept, List.filterMap_cons_some pruned⟩
  · have last := UInt64.not_lt.mp kept
    refine .inl ⟨last, ?_⟩
    have gone : (entries ((run :: older).filterMap (RootRun.prune height))) = [] := by
      rw [entries_prune, List.filter_eq_nil_iff]
      intro entry member
      have listed : entry.1 ∈ roots ⟨0, run :: older⟩ := by
        rw [roots_eq_entries]
        exact List.mem_map_of_mem member
      rw [roots_cons] at ends listed
      obtain newest | before := List.mem_cons.mp listed
      · rw [newest]
        simpa using last
      · have below := (List.pairwise_cons.mp ends).1 entry.1 before
        simpa using UInt64.le_trans (UInt64.le_of_lt below) last
    cases result : (run :: older).filterMap (RootRun.prune height) with
    | nil => rfl
    | cons first rest =>
      rw [result] at gone
      cases gone

theorem prune_eq_none {height : Height} {run : RootRun} (gone : RootRun.prune height run = none) :
    (run.roots.filter fun root => height < root.lifetime.endHeight) = [] := by
  unfold RootRun.prune at gone
  split at gone
  · assumption
  · cases gone

theorem Shared.prune {runs : List RootRun} (height : Height) (shared : Shared runs)
    (ends : (roots ⟨0, runs⟩).Pairwise fun newer root => root.lifetime.endHeight < newer.lifetime.endHeight) :
    Shared (runs.filterMap (RootRun.prune height)) := by
  induction shared with
  | nil => exact .nil
  | @start children root older before fresh ih =>
    have rest := (List.pairwise_cons.mp ends).2
    obtain ⟨_, gone⟩ | ⟨_, kept⟩ := prune_cons height ends
    · rw [gone]
      exact .nil
    · rw [kept]
      refine .start (ih rest) ?_
      intro run first
      cases older with
      | nil => cases first
      | cons next others =>
        obtain ⟨_, gone⟩ | ⟨_, stays⟩ := prune_cons height rest
        · rw [gone] at first
          cases first
        · rw [stays, List.head?_cons, Option.mem_some_iff] at first
          subst first
          exact fresh next rfl
  | @extend children root newest rest older before extended ih =>
    have ended : (roots ⟨0, ⟨children, newest, rest⟩ :: older⟩).Pairwise fun newer root =>
        root.lifetime.endHeight < newer.lifetime.endHeight := (List.pairwise_cons.mp ends).2
    have fewer := ih ended
    obtain ⟨_, gone⟩ | ⟨_, kept⟩ := prune_cons height ends
    · rw [gone]
      exact .nil
    · rw [kept]
      obtain ⟨last, gone⟩ | ⟨stays, others⟩ := prune_cons height ended
      · have none := List.filterMap_eq_nil_iff.mp gone
        have first : ((newest :: rest).filter fun root => height < root.lifetime.endHeight) = [] :=
          prune_eq_none (none ⟨children, newest, rest⟩ List.mem_cons_self)
        have empty : older.filterMap (RootRun.prune height) = [] :=
          List.filterMap_eq_nil_iff.mpr fun run member => none run (List.mem_cons_of_mem _ member)
        dsimp only
        rw [first, empty]
        exact .start .nil (by simp)
      · rw [others] at fewer
        dsimp only
        rw [List.filter_cons_of_pos (by simpa using stays)]
        exact .extend fewer extended

/-- Every collected identifier belongs to a child. -/
theorem mem_children_of_mem_prunedIds {height : Height} {runs : List RootRun} {id : NamespaceId}
    (member : id ∈ prunedIds height runs) : ∃ run ∈ runs, id ∈ run.children.ids := by
  suffices inside : ∀ list : List (RootNamespace × Children), id ∈ list.foldr (fun entry ids =>
      if entry.1.lifetime.endHeight ≤ height then entry.2.ids ∪ ids
      else ids.filter fun id => id ∉ entry.2.ids) [] → ∃ entry ∈ list, id ∈ entry.2.ids by
    obtain ⟨entry, listed, child⟩ := inside (entries runs) member
    obtain ⟨run, known, root⟩ := List.mem_flatMap.mp listed
    obtain ⟨_, _, rfl⟩ := List.mem_map.mp root
    exact ⟨run, known, child⟩
  intro list collected
  induction list with
  | nil => cases collected
  | cons entry list ih =>
    rw [List.foldr_cons] at collected
    split at collected
    · obtain own | before := List.mem_union_iff.mp collected
      · exact ⟨entry, List.mem_cons_self, own⟩
      · obtain ⟨other, listed, child⟩ := ih before
        exact ⟨other, List.mem_cons_of_mem _ listed, child⟩
    · obtain ⟨other, listed, child⟩ := ih (List.mem_filter.mp collected).1
      exact ⟨other, List.mem_cons_of_mem _ listed, child⟩

/-- A kept newest root keeps its children and a pruned one gives them up. -/
theorem mem_prunedIds {height : Height} {run : RootRun} {older : List RootRun} {id : NamespaceId}
    (child : id ∈ run.children.ids) : id ∈ prunedIds height (run :: older) ↔ run.newest.lifetime.endHeight ≤ height := by
  have first : entries (run :: older) = (run.newest, run.children) ::
      ((run.older.map fun root => (root, run.children)) ++ entries older) := rfl
  rw [prunedIds, first, List.foldr_cons]
  split
  · next last => exact iff_of_true (List.mem_union_iff.mpr (.inl child)) last
  · next stays =>
    refine iff_of_false ?_ stays
    simp [child]

end RootNamespaceHistory

namespace ValidHistory

variable {paths : NamespacePaths} {id : NamespaceId} {history : RootNamespaceHistory}

theorem pushBack_children {ownerAddress : Address} {lifetime : NamespaceLifetime} {run : RootRun}
    (member : run ∈ (history.pushBack ownerAddress lifetime).runs) :
    run.children = [] ∨ ∃ old ∈ history.runs, run.children = old.children := by
  obtain ⟨_, runs⟩ := history
  cases runs with
  | nil => exact .inl (by rw [List.mem_singleton.mp member])
  | cons first older =>
    simp only [RootNamespaceHistory.pushBack] at member
    split at member
    · obtain rfl | old := List.mem_cons.mp member
      · exact .inr ⟨first, List.mem_cons_self, rfl⟩
      · exact .inr ⟨run, List.mem_cons_of_mem _ old, rfl⟩
    · obtain rfl | old := List.mem_cons.mp member
      · exact .inl rfl
      · exact .inr ⟨run, old, rfl⟩

theorem first (rooted : paths.path id = [id]) (ownerAddress : Address) (lifetime : NamespaceLifetime) :
    ValidHistory paths id (RootNamespaceHistory.pushBack ⟨id, []⟩ ownerAddress lifetime) := by
  refine ⟨rfl, rooted, List.cons_ne_nil _ _, .start .nil (by simp), List.pairwise_singleton _ _, ?_⟩
  intro run member
  rw [List.mem_singleton.mp member]
  exact .nil paths id

theorem pushBack (valid : ValidHistory paths id history) {ownerAddress : Address} {lifetime : NamespaceLifetime}
    (later : ∀ newest ∈ history.roots.head?, newest.lifetime.endHeight < lifetime.endHeight) :
    ValidHistory paths id (history.pushBack ownerAddress lifetime) := by
  obtain ⟨root, same, roots⟩ := history.roots_pushBack ownerAddress lifetime
  refine ⟨?_, valid.rooted, ?_, RootNamespaceHistory.Shared.pushBack valid.shared _ _, ?_, ?_⟩
  · rw [← valid.identified]
    unfold RootNamespaceHistory.pushBack
    split
    · rfl
    · dsimp only
      split <;> rfl
  · intro empty
    have none : (history.pushBack ownerAddress lifetime).roots = [] := by
      rw [RootNamespaceHistory.roots, empty, List.flatMap_nil]
    rw [roots] at none
    cases none
  · rw [roots, List.pairwise_cons]
    refine ⟨?_, valid.ends⟩
    intro other member
    rw [same]
    have ends := valid.ends
    cases list : history.roots with
    | nil =>
      rw [list] at member
      cases member
    | cons newest older =>
      rw [list] at member ends
      have last := later newest (by rw [list, List.head?_cons, Option.mem_some_iff])
      obtain rfl | before := List.mem_cons.mp member
      · exact last
      · exact UInt64.lt_trans ((List.pairwise_cons.mp ends).1 other before) last
  · intro run member
    obtain empty | ⟨old, known, inherited⟩ := pushBack_children member
    · rw [empty]
      exact .nil paths id
    · rw [inherited]
      exact valid.children old known

theorem popBack (valid : ValidHistory paths id history) (remaining : history.popBack.runs ≠ []) :
    ValidHistory paths id history.popBack := by
  refine ⟨?_, valid.rooted, remaining, RootNamespaceHistory.Shared.popBack valid.shared, ?_, ?_⟩
  · rw [← valid.identified]
    unfold RootNamespaceHistory.popBack
    split
    · rfl
    · split <;> rfl
  · rw [history.roots_popBack]
    exact valid.ends.tail
  · obtain ⟨_, runs⟩ := history
    intro run member
    cases runs with
    | nil => cases member
    | cons first older =>
      obtain ⟨children, newest, rest⟩ := first
      cases rest with
      | nil => exact valid.children run (List.mem_cons_of_mem _ member)
      | cons next others =>
        obtain rfl | old := List.mem_cons.mp member
        · exact valid.children ⟨children, newest, next :: others⟩ List.mem_cons_self
        · exact valid.children run (List.mem_cons_of_mem _ old)

theorem prune (valid : ValidHistory paths id history) {height : Height}
    (remaining : (history.prune height).2.runs ≠ []) : ValidHistory paths id (history.prune height).2 := by
  refine ⟨valid.identified, valid.rooted, remaining, RootNamespaceHistory.Shared.prune height valid.shared valid.ends, ?_, ?_⟩
  · rw [history.roots_prune height]
    exact valid.ends.filter _
  · intro run member
    obtain ⟨old, known, pruned⟩ := List.mem_filterMap.mp member
    have kept : run.children = old.children := by
      unfold RootRun.prune at pruned
      split at pruned
      · cases pruned
      · rw [← Option.some.inj pruned]
    rw [kept]
    exact valid.children old known

/-- The newest run may get other children or another alias. -/
theorem replace {run : RootRun} {older : List RootRun} (valid : ValidHistory paths id history)
    (runs : history.runs = run :: older) {children : Children} (placed : ValidChildren paths id children) :
    ValidHistory paths id { history with runs := { run with children } :: older } := by
  obtain ⟨_, _⟩ := history
  subst runs
  refine ⟨valid.identified, valid.rooted, List.cons_ne_nil _ _, valid.shared.replace, valid.ends, ?_⟩
  intro other member
  obtain rfl | old := List.mem_cons.mp member
  · exact placed
  · exact valid.children other (List.mem_cons_of_mem _ old)

theorem relabel {run : RootRun} {older : List RootRun} (valid : ValidHistory paths id history)
    (runs : history.runs = run :: older) (namespaceAlias : NamespaceAlias) : ValidHistory paths id
      { history with runs := { run with newest := { run.newest with namespaceAlias } } :: older } := by
  obtain ⟨_, _⟩ := history
  subst runs
  refine ⟨valid.identified, valid.rooted, List.cons_ne_nil _ _, valid.shared.relabel namespaceAlias, ?_, ?_⟩
  · have ends := valid.ends
    rw [RootNamespaceHistory.roots_cons, List.pairwise_cons] at ends ⊢
    exact ends
  · intro other member
    obtain rfl | old := List.mem_cons.mp member
    · exact valid.children run List.mem_cons_self
    · exact valid.children other (List.mem_cons_of_mem _ old)

end ValidHistory

end Catapult.Namespaces
