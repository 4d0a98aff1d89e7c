import Catapult.Construction.Namespace.RootNamespaceHistorySerializer
import Catapult.Proof.Namespace.SharedChildren

/-
This file decides when a saved root namespace history is loaded as it was.
-/

namespace Catapult.Namespaces

open ByteStream RootNamespaceHistory

/-- A loaded history lists the children in the order of their paths. -/
def sortedChildren (children : Children) : Children :=
  children.mergeSort fun first second => first.2.ns.path ≤ second.2.ns.path

section Sorting

variable {children other : Children} {rootId : NamespaceId}

theorem sortedChildren_perm (children : Children) : (sortedChildren children).Perm children := List.mergeSort_perm _ _

theorem sortedChildPaths_ordered (children : Children) : (sortedChildPaths children).Pairwise (· < ·) := by
  have empty : SortedMap.Ascending ([] : List (List NamespaceId × Unit)) := List.Pairwise.nil
  have ascending := empty.foldl_insert (children.map fun child => (child.2.ns.path, ()))
  exact List.pairwise_map.mpr ascending

theorem mem_sortedChildPaths {path : List NamespaceId} :
    path ∈ sortedChildPaths children ↔ ∃ child ∈ children, child.2.ns.path = path := by
  rw [sortedChildPaths, SortedMap.mem_keys_foldl_insert]
  simp

/-- Children in another order have the same sorted paths. -/
theorem sortedChildPaths_perm (same : children.Perm other) : sortedChildPaths children = sortedChildPaths other := by
  refine SortedMap.pairwise_unique (fun _ _ less => lt_asymm less) (sortedChildPaths_ordered _)
    (sortedChildPaths_ordered _) ?_
  intro path
  rw [mem_sortedChildPaths, mem_sortedChildPaths]
  constructor
  · rintro ⟨child, member, rfl⟩
    exact ⟨child, same.mem_iff.mp member, rfl⟩
  · rintro ⟨child, member, rfl⟩
    exact ⟨child, same.mem_iff.mpr member, rfl⟩

/-- The children of a root can be loaded if every parent comes before its children. -/
structure Loadable (rootId : NamespaceId) (children : Children) : Prop where
  nodup : children.ids.Nodup
  identified : ∀ child ∈ children, child.2.ns.id = child.1
  rooted : ∀ child ∈ children, child.2.ns.rootId = rootId
  inner : ∀ child ∈ children, child.1 ≠ rootId
  parent : ∀ child ∈ children, child.2.ns.parentId = rootId ∨
    ∃ parent ∈ children, parent.1 = child.2.ns.parentId ∧ parent.2.ns.path = child.2.ns.path.dropLast
  shallow : ∀ child ∈ children, child.2.ns.path.length ≤ 256

theorem Loadable.perm (loadable : Loadable rootId children) (same : other.Perm children) : Loadable rootId other where
  nodup := (same.map Prod.fst).nodup_iff.mpr loadable.nodup
  identified := fun child member => loadable.identified child (same.mem_iff.mp member)
  rooted := fun child member => loadable.rooted child (same.mem_iff.mp member)
  inner := fun child member => loadable.inner child (same.mem_iff.mp member)
  parent := fun child member => (loadable.parent child (same.mem_iff.mp member)).imp_right
    fun ⟨parent, known, above⟩ => ⟨parent, same.mem_iff.mpr known, above⟩
  shallow := fun child member => loadable.shallow child (same.mem_iff.mp member)

/-- Different children have different paths. -/
theorem Loadable.paths_nodup (loadable : Loadable rootId children) : (children.map fun child => child.2.ns.path).Nodup := by
  have ids : children.ids = children.map fun child => child.2.ns.id :=
    List.map_congr_left fun child member => (loadable.identified child member).symm
  have distinct := loadable.nodup
  rw [ids] at distinct
  have last : (children.map fun child => child.2.ns.id) =
      (children.map fun child => child.2.ns.path).map fun path => path.getLastD 0 := by
    rw [List.map_map]
    refine List.map_congr_left fun child member => ?_
    rw [Function.comp_apply, Namespace.id, List.getLastD_eq_getLast?, List.getLast?_eq_some_getLast child.2.ns.nonempty]
    rfl
  rw [last] at distinct
  exact distinct.of_map _

theorem Loadable.sorted_paths (loadable : Loadable rootId children) :
    (sortedChildren children).map (fun child => child.2.ns.path) = sortedChildPaths children := by
  have perm : ((sortedChildren children).map fun child => child.2.ns.path).Perm
      (children.map fun child => child.2.ns.path) := (sortedChildren_perm children).map _
  have sorted : ((sortedChildren children).map fun child => child.2.ns.path).Pairwise (· ≤ ·) := by
    refine List.pairwise_map.mpr ?_
    have ordered : (children.mergeSort fun first second => decide (first.2.ns.path ≤ second.2.ns.path)).Pairwise
        fun first second => decide (first.2.ns.path ≤ second.2.ns.path) = true := by
      refine List.pairwise_mergeSort ?_ ?_ children
      · intro first second third below above
        exact decide_eq_true (le_trans (of_decide_eq_true below) (of_decide_eq_true above))
      · intro first second
        rw [Bool.or_eq_true, decide_eq_true_eq, decide_eq_true_eq]
        exact le_total _ _
    exact ordered.imp of_decide_eq_true
  have strict : ((sortedChildren children).map fun child => child.2.ns.path).Pairwise (· < ·) := by
    refine (List.pairwise_and_iff.mpr ⟨sorted, perm.nodup_iff.mpr loadable.paths_nodup⟩).imp ?_
    exact fun both => lt_of_le_of_ne both.1 both.2
  refine SortedMap.pairwise_unique (fun _ _ less => lt_asymm less) strict (sortedChildPaths_ordered _) ?_
  intro path
  rw [mem_sortedChildPaths, perm.mem_iff, List.mem_map]

end Sorting

theorem readValue_reads {α : Type} (codec : Codec α) (value : α) : Reads (readValue codec) (codec.write value) value :=
  codec.reads LoadError.endOfStream value

theorem loadAlias_reads (namespaceAlias : NamespaceAlias) : Reads loadAlias (saveAlias namespaceAlias) namespaceAlias := by
  cases namespaceAlias with
  | none =>
    rw [saveAlias, ← List.append_nil (Codec.word8.write 0)]
    exact (readValue_reads Codec.word8 0).bind (.pure _)
  | mosaic mosaicId =>
    refine (readValue_reads Codec.word8 1).bind ?_
    rw [if_pos rfl, ← List.append_nil (Codec.word64.write mosaicId)]
    exact (readValue_reads Codec.word64 mosaicId).bind (.pure _)
  | address address =>
    refine (readValue_reads Codec.word8 2).bind ?_
    rw [if_neg (by decide), if_pos rfl, ← List.append_nil ((Codec.array 24).write address)]
    exact (readValue_reads (Codec.array 24) address).bind (.pure _)

theorem loadParts_reads (ids : List NamespaceId) : Reads (loadParts ids.length) (ids.flatMap Codec.word64.write) ids := by
  induction ids with
  | nil => exact .pure []
  | cons id ids ih =>
    rw [List.flatMap_cons, List.length_cons, loadParts]
    refine (readValue_reads Codec.word64 id).bind ?_
    rw [← List.append_nil (ids.flatMap Codec.word64.write)]
    exact ih.bind (.pure _)

/-- The bytes of a child with its alias. -/
def childBytes (child : NamespaceId × ChildNamespaceData) : List UInt8 :=
  Codec.word8.write (UInt8.ofNat (child.2.ns.path.length - 1)) ++ child.2.ns.path.tail.flatMap Codec.word64.write ++
    saveAlias child.2.namespaceAlias

theorem childBytes_ne_nil (child : NamespaceId × ChildNamespaceData) : childBytes child ≠ [] := by
  intro empty
  have length := congrArg List.length empty
  rw [childBytes, List.length_append, List.length_append, Codec.word8.length_write, List.length_nil] at length
  have one : Codec.word8.size = 1 := rfl
  omega

theorem loadChild_reads {rootId : NamespaceId} {child : NamespaceId × ChildNamespaceData}
    (rooted : child.2.ns.rootId = rootId) (shallow : child.2.ns.path.length ≤ 256) (pairs : ChildDataPairs) :
    Reads (loadChild rootId pairs) (childBytes child) (pairs ++ [(child.2.ns, child.2.namespaceAlias)]) := by
  obtain ⟨id, ⟨path, nonempty⟩, namespaceAlias⟩ := child
  obtain ⟨first, rest, rfl⟩ := List.exists_cons_of_ne_nil nonempty
  obtain rfl : first = rootId := rooted
  have depth : (UInt8.ofNat ((first :: rest).length - 1)).toNat = rest.length := by
    simp only [List.length_cons, Nat.add_sub_cancel] at shallow ⊢
    rw [UInt8.toNat_ofNat_of_lt']
    exact Nat.lt_of_succ_le shallow
  have path : Reads (loadPath first) (Codec.word8.write (UInt8.ofNat ((first :: rest).length - 1)) ++
      rest.flatMap Codec.word64.write) ⟨first :: rest, nonempty⟩ := by
    refine (readValue_reads Codec.word8 _).bind ?_
    rw [depth, ← List.append_nil (rest.flatMap Codec.word64.write)]
    exact (loadParts_reads rest).bind (.pure _)
  refine path.bind ?_
  rw [← List.append_nil (saveAlias _)]
  exact (loadAlias_reads namespaceAlias).bind (.pure _)

/-- Every child takes one round of the loop. -/
theorem loadChildren_passes {rootId : NamespaceId} {children : Children} (loadable : Loadable rootId children) :
    Passes (loadChild rootId) [] (children.flatMap childBytes) children.length
      (children.map fun child => (child.2.ns, child.2.namespaceAlias)) := by
  have rooted := loadable.rooted
  have shallow := loadable.shallow
  clear loadable
  induction children using List.reverseRecOn with
  | nil => exact .start
  | append_singleton children child ih =>
    have before := ih (fun other member => rooted other (List.mem_append_left _ member))
      (fun other member => shallow other (List.mem_append_left _ member))
    have last : child ∈ children ++ [child] := List.mem_append_right _ (List.mem_singleton_self child)
    rw [List.flatMap_append, List.length_append, List.map_append]
    refine .round before ?_ ?_
    · rw [List.flatMap_singleton]
      exact loadChild_reads (rooted child last) (shallow child last) _
    · rw [List.flatMap_singleton]
      exact childBytes_ne_nil child

/-- A computation that succeeds on all values of a list succeeds on the list. -/
theorem mapM_eq_ok {α β ε : Type} {values : List α} {change : α → Except ε β} {result : α → β}
    (succeeds : ∀ value ∈ values, change value = .ok (result value)) : values.mapM change = .ok (values.map result) := by
  induction values with
  | nil => rfl
  | cons value values ih =>
    rw [List.mapM_cons, succeeds value List.mem_cons_self, ih fun other member => succeeds other (.tail _ member)]
    rfl

theorem saveChild_eq {rootId : NamespaceId} {children : Children} (loadable : Loadable rootId children)
    (root : RootNamespace) {child : NamespaceId × ChildNamespaceData} (member : child ∈ children) :
    saveChild rootId ⟨children, root, []⟩ child.2.ns.path = .ok (childBytes child) := by
  have shallow := loadable.shallow child member
  have last : child.2.ns.path.getLastD rootId = child.1 := by
    rw [← loadable.identified child member, Namespace.id, List.getLastD_eq_getLast?,
      List.getLast?_eq_some_getLast child.2.ns.nonempty]
    rfl
  have found : children.find child.1 = some child.2 := Children.find_of_mem loadable.nodup member
  rw [saveChild, if_neg (by omega), last, RootRun.aliasOf, if_neg (Ne.symm (loadable.inner child member)), found]
  rfl

theorem saveChildren_eq {rootId : NamespaceId} {children : Children} (loadable : Loadable rootId children)
    (root : RootNamespace) : saveChildren rootId ⟨children, root, []⟩ = .ok (Codec.word64.write (UInt64.ofNat children.length) ++
      (sortedChildren children).flatMap childBytes) := by
  have saved : ((sortedChildren children).map fun child => child.2.ns.path).mapM (saveChild rootId ⟨children, root, []⟩) =
      .ok ((sortedChildren children).map childBytes) := by
    rw [List.mapM_map]
    refine mapM_eq_ok ?_
    intro child member
    exact saveChild_eq loadable root ((sortedChildren_perm children).mem_iff.mp member)
  rw [saveChildren, ← loadable.sorted_paths, saved, List.length_map, (sortedChildren_perm children).length_eq]
  rfl

section Adding

variable {rootId : NamespaceId} {root : RootNamespace} {older : List RootNamespace} {others : List RootRun}
  {done rest : Children} {child : NamespaceId × ChildNamespaceData}

/-- A proper beginning of a path is below it. -/
theorem dropLast_lt {path : List NamespaceId} (nonempty : path ≠ []) : path.dropLast < path := by
  induction path with
  | nil => exact absurd rfl nonempty
  | cons id path ih =>
    cases path with
    | nil => exact List.Lex.nil
    | cons next path => exact List.Lex.cons (ih (List.cons_ne_nil _ _))

theorem setAlias_concat (absent : child.1 ∉ Children.ids done) :
    Children.setAlias (done ++ [(child.1, ⟨child.2.ns, .none⟩)]) child.1 child.2.namespaceAlias = done ++ [child] := by
  have untouched : Children.setAlias done child.1 child.2.namespaceAlias = done := by
    refine List.map_congr_left (fun other member => ?_) |>.trans (List.map_id done)
    have different : other.1 ≠ child.1 := fun same => absent (same ▸ List.mem_map_of_mem member)
    rw [if_neg different]
    rfl
  rw [Children.setAlias, List.map_append]
  change Children.setAlias done child.1 child.2.namespaceAlias ++ _ = _
  rw [untouched]
  simp

/-- A child is added after its parent. -/
theorem addChild_next (loadable : Loadable rootId (done ++ child :: rest))
    (ordered : ((done ++ child :: rest).map fun other => other.2.ns.path).Pairwise (· < ·)) :
    addChild ⟨rootId, ⟨done, root, older⟩ :: others⟩ (child.2.ns, child.2.namespaceAlias) =
      .ok ⟨rootId, ⟨done ++ [child], root, older⟩ :: others⟩ := by
  have listed : child ∈ done ++ child :: rest := List.mem_append_right _ List.mem_cons_self
  have id := loadable.identified child listed
  have inner := loadable.inner child listed
  have absent : child.1 ∉ Children.ids done := by
    have distinct := loadable.nodup
    rw [Children.ids, List.map_append, List.map_cons] at distinct
    intro member
    exact (List.nodup_append.mp distinct).2.2 child.1 member child.1 List.mem_cons_self rfl
  have parent : RootRun.checkParent ⟨done, root, older⟩ rootId child.2.ns = .ok () := by
    rw [RootRun.checkParent]
    obtain top | ⟨parent, member, same, path⟩ := loadable.parent child listed
    · rw [if_pos top.symm]
    · split
      · rfl
      · have below : parent.2.ns.path < child.2.ns.path := path ▸ dropLast_lt child.2.ns.nonempty
        have before : parent ∈ done := by
          obtain known | later := List.mem_append.mp member
          · exact known
          · rw [List.map_append, List.pairwise_append, List.map_cons, List.pairwise_cons] at ordered
            obtain rfl | after := List.mem_cons.mp later
            · exact absurd below (lt_irrefl _)
            · exact absurd below (lt_asymm (ordered.2.1.1 _ (List.mem_map_of_mem after)))
        have distinct : (Children.ids done).Nodup := by
          have whole := loadable.nodup
          rw [Children.ids, List.map_append] at whole
          exact (List.nodup_append.mp whole).1
        have found : Children.find done child.2.ns.parentId = some parent.2 :=
          same ▸ Children.find_of_mem distinct before
        rw [found]
        dsimp only
        rw [if_neg]
        rw [path, List.length_dropLast]
        exact fun different => different rfl
  have added : RootRun.add ⟨done, root, older⟩ rootId child.2.ns =
      .ok ⟨done ++ [(child.1, ⟨child.2.ns, .none⟩)], root, older⟩ := by
    have missing : Children.find done child.2.ns.id = none := by
      rw [id]
      exact Children.find_eq_none.mpr absent
    rw [RootRun.add, missing, parent]
    simp [loadable.rooted child listed, id]
  have known : (Children.find (done ++ [(child.1, (⟨child.2.ns, .none⟩ : ChildNamespaceData))]) child.1).isSome := by
    rw [Children.isSome_find]
    simp [Children.ids]
  have linked : RootRun.setAlias ⟨done ++ [(child.1, ⟨child.2.ns, .none⟩)], root, older⟩ rootId child.2.ns.id
      child.2.namespaceAlias = .ok ⟨done ++ [child], root, older⟩ := by
    rw [RootRun.setAlias, id, if_neg (Ne.symm inner), if_pos known, setAlias_concat absent]
  exact Runs.bind_eq_ok.mpr ⟨⟨rootId, ⟨done ++ [(child.1, ⟨child.2.ns, .none⟩)], root, older⟩ :: others⟩,
    Runs.bind_eq_ok.mpr ⟨_, added, rfl⟩, Runs.bind_eq_ok.mpr ⟨_, linked, rfl⟩⟩

theorem addChildren_eq (done : Children) (loadable : Loadable rootId (done ++ rest))
    (ordered : ((done ++ rest).map fun other => other.2.ns.path).Pairwise (· < ·)) :
    (rest.map fun child => (child.2.ns, child.2.namespaceAlias)).foldlM addChild
        ⟨rootId, ⟨done, root, older⟩ :: others⟩ = .ok ⟨rootId, ⟨done ++ rest, root, older⟩ :: others⟩ := by
  induction rest generalizing done with
  | nil =>
    rw [List.append_nil]
    rfl
  | cons child rest ih =>
    rw [List.map_cons, List.foldlM_cons, addChild_next loadable ordered]
    rw [List.append_cons] at loadable ordered
    exact (ih _ loadable ordered).trans (by rw [← List.append_cons])

end Adding

section Roots

variable {rootId : NamespaceId} {root newest : RootNamespace} {runs : List RootRun} {children : Children}
  {rest : List RootNamespace}

/-- The bytes of a root without its children. -/
def rootBytes (root : RootNamespace) : List UInt8 :=
  (Codec.array 24).write root.ownerAddress ++ Codec.word64.write root.lifetime.start ++
    Codec.word64.write root.lifetime.endHeight ++ saveAlias root.namespaceAlias

theorem create_saved (lifetime : NamespaceLifetime) :
    NamespaceLifetime.create lifetime.start lifetime.endHeight 0 = .ok lifetime := by
  rw [NamespaceLifetime.create, dif_pos lifetime.positive]
  simp

/-- A root that is pushed with its alias shares the children of a root that it extends. -/
theorem pushBack_linked (history : RootNamespaceHistory) (root : RootNamespace) :
    (history.pushBack root.ownerAddress root.lifetime).changeBack
        (fun run => run.setAlias history.id history.id root.namespaceAlias) =
      .ok ⟨history.id, share history.runs root []⟩ := by
  obtain ⟨id, runs⟩ := history
  cases runs with
  | nil => exact Runs.bind_eq_ok.mpr ⟨_, if_pos rfl, rfl⟩
  | cons run older =>
    rw [RootNamespaceHistory.pushBack, share]
    dsimp only
    have same : RootNamespace.canExtend ⟨root.ownerAddress, root.lifetime, .none⟩ run.newest = root.canExtend run.newest := rfl
    rw [same]
    by_cases extended : root.canExtend run.newest = true
    · have owner : run.newest.ownerAddress = root.ownerAddress := by
        rw [RootNamespace.canExtend, Bool.and_eq_true, decide_eq_true_eq] at extended
        exact extended.1.symm
      rw [if_pos extended, if_pos extended, owner]
      exact Runs.bind_eq_ok.mpr ⟨_, if_pos rfl, rfl⟩
    · rw [if_neg extended, if_neg extended]
      exact Runs.bind_eq_ok.mpr ⟨_, if_pos rfl, rfl⟩

theorem liftHistory_ok {α β : Type} (value : α) (next : α → HistoryReader β) (bytes : List UInt8) :
    (liftHistory (.ok value) >>= next) bytes = next value bytes := rfl

/-- What is left of loading a root after its own data was read. -/
theorem loadRootNamespace_head (history : RootNamespaceHistory) (root : RootNamespace) (count : UInt64)
    (tail : List UInt8) : loadRootNamespace history (rootBytes root ++ (Codec.word64.write count ++ tail)) =
      (loadChildren history.id count >>= fun pairs =>
        liftHistory (pairs.foldlM addChild ⟨history.id, share history.runs root []⟩)) tail := by
  rw [rootBytes, List.append_assoc, List.append_assoc, List.append_assoc, loadRootNamespace,
    (readValue_reads (Codec.array 24) _).followed, (readValue_reads Codec.word64 _).followed,
    (readValue_reads Codec.word64 _).followed, create_saved, liftHistory_ok, (loadAlias_reads _).followed,
    pushBack_linked, liftHistory_ok, (readValue_reads Codec.word64 _).followed]

theorem toNat_length {count : Nat} (sized : count < 2 ^ 64) : (UInt64.ofNat count).toNat = count :=
  UInt64.toNat_ofNat_of_lt' sized

/-- A root that extends nothing is loaded with its own children. -/
theorem loadRoot_fresh (loadable : Loadable rootId children) (small : children.length < 2 ^ 32)
    (fresh : ∀ run ∈ runs.head?, root.canExtend run.newest = false) : Reads (loadRootNamespace ⟨rootId, runs⟩)
      (rootBytes root ++ (Codec.word64.write (UInt64.ofNat children.length) ++ (sortedChildren children).flatMap childBytes))
      ⟨rootId, ⟨sortedChildren children, root, []⟩ :: runs⟩ := by
  intro tail
  have sorted := loadable.perm (sortedChildren_perm children)
  have length := (sortedChildren_perm children).length_eq
  have counted := toNat_length (show children.length < 2 ^ 64 by omega)
  have alone : share runs root [] = ⟨[], root, []⟩ :: runs := by
    cases runs with
    | nil => rfl
    | cons run older => exact if_neg (by rw [fresh run rfl]; exact Bool.false_ne_true)
  have loaded : Reads (loadChildren rootId (UInt64.ofNat children.length)) ((sortedChildren children).flatMap childBytes)
      ((sortedChildren children).map fun child => (child.2.ns, child.2.namespaceAlias)) :=
    (loadChildren_passes sorted).reads (counted.trans length.symm) (by omega)
  have ordered : ((([] : Children) ++ sortedChildren children).map fun child => child.2.ns.path).Pairwise (· < ·) := by
    rw [List.nil_append, loadable.sorted_paths]
    exact sortedChildPaths_ordered children
  rw [List.append_assoc, List.append_assoc, loadRootNamespace_head, loaded.followed, alone,
    addChildren_eq [] (by rw [List.nil_append]; exact sorted) ordered]
  rfl

/-- A root that extends the one before it is loaded with the same children. -/
theorem loadRoot_extend (extended : root.canExtend newest = true) :
    Reads (loadRootNamespace ⟨rootId, ⟨children, newest, rest⟩ :: runs⟩) (rootBytes root ++ Codec.word64.write 0)
      ⟨rootId, ⟨children, root, newest :: rest⟩ :: runs⟩ := by
  intro tail
  have joined : share (⟨children, newest, rest⟩ :: runs) root [] = ⟨children, root, newest :: rest⟩ :: runs :=
    if_pos extended
  have none : Reads (loadChildren rootId 0) [] [] := Passes.start.reads rfl (by decide)
  rw [List.append_assoc, loadRootNamespace_head, ← List.nil_append tail, none.followed, joined]
  rfl

/-- The children of a root are never counted if there are too many. -/
theorem loadRoot_endless {count : Nat} (great : 2 ^ 32 ≤ count) (sized : count < 2 ^ 64) (history : RootNamespaceHistory)
    (root : RootNamespace) (tail : List UInt8) (result : RootNamespaceHistory × List UInt8) :
    loadRootNamespace history (rootBytes root ++ (Codec.word64.write (UInt64.ofNat count) ++ tail)) ≠ .ok result := by
  rw [loadRootNamespace_head]
  change (loadChildren history.id (UInt64.ofNat count) tail >>= fun taken => _) ≠ _
  cases ran : loadChildren history.id (UInt64.ofNat count) tail with
  | error error => exact fun returned => nomatch returned
  | ok taken => exact absurd ran (loop_endless (by rw [toNat_length sized]; exact great) [] tail taken)

/-- The runs of a loaded history list their children in order. -/
def sortRun (run : RootRun) : RootRun := { run with children := sortedChildren run.children }

/-- A saved root cannot be loaded after all the roots before it. -/
def Stuck (rootId : NamespaceId) (bytes : List UInt8) (depth : Nat) : Prop :=
  ∃ front back loaded state, bytes = front ++ back ∧ Passes loadRootNamespace ⟨rootId, []⟩ front loaded state ∧
    loaded < depth ∧ ∀ more result, loadRootNamespace state (back ++ more) ≠ .ok result

theorem Stuck.extend {bytes more : List UInt8} {depth : Nat} (stuck : Stuck rootId bytes depth) :
    Stuck rootId (bytes ++ more) (depth + 1) := by
  obtain ⟨front, back, loaded, state, rfl, passes, below, fails⟩ := stuck
  refine ⟨front, back ++ more, loaded, state, List.append_assoc _ _ _, passes, Nat.lt_succ_of_lt below, ?_⟩
  intro later result
  rw [List.append_assoc]
  exact fails (more ++ later) result

theorem rootBytes_ne_nil (root : RootNamespace) (more : List UInt8) : rootBytes root ++ more ≠ [] := by
  intro empty
  have length := congrArg List.length empty
  rw [rootBytes, List.append_assoc, List.append_assoc, List.append_assoc, List.length_append,
    (Codec.array 24).length_write, List.length_nil] at length
  have size : (Codec.array 24).size = 24 := rfl
  omega

theorem saveRootNamespace_extend (extended : root.canExtend newest = true) :
    saveRootNamespace rootId root children (some newest) = .ok (rootBytes root ++ Codec.word64.write 0) := by
  rw [saveRootNamespace, Option.elim_some, if_pos extended]
  rfl

theorem saveRootNamespace_fresh {previous : Option RootNamespace} (loadable : Loadable rootId children)
    (fresh : ∀ other ∈ previous, root.canExtend other = false) :
    saveRootNamespace rootId root children previous = .ok (rootBytes root ++
      (Codec.word64.write (UInt64.ofNat children.length) ++ (sortedChildren children).flatMap childBytes)) := by
  have apart : ¬ (previous.elim false root.canExtend) = true := by
    cases previous with
    | none => exact Bool.false_ne_true
    | some other => rw [Option.elim_some, fresh other rfl]; exact Bool.false_ne_true
  rw [saveRootNamespace, if_neg apart, saveChildren_eq loadable]
  rfl

/-- The newest entry belongs to the newest run. -/
theorem entries_head (runs : List RootRun) : (entries runs).head?.map Prod.fst = runs.head?.map RootRun.newest := by
  cases runs with
  | nil => rfl
  | cons run runs => rfl

/-- The roots are saved, and they are loaded exactly if none of them has too many children. -/
theorem roots_saved (shared : Shared runs) (loadable : ∀ run ∈ runs, Loadable rootId run.children)
    (sized : ∀ run ∈ runs, run.children.length < 2 ^ 64) : ∃ bytes, saveRoots rootId (entries runs) = .ok bytes ∧
      ((∀ run ∈ runs, run.children.length < 2 ^ 32) →
        Passes loadRootNamespace ⟨rootId, []⟩ bytes (entries runs).length ⟨rootId, runs.map sortRun⟩) ∧
      ((∃ run ∈ runs, 2 ^ 32 ≤ run.children.length) → Stuck rootId bytes (entries runs).length) := by
  induction shared with
  | nil => exact ⟨[], rfl, fun _ => .start, fun ⟨_, member, _⟩ => nomatch member⟩
  | @start children root older before fresh ih =>
    obtain ⟨bytes, saved, passes, stuck⟩ := ih (fun run member => loadable run (.tail _ member))
      (fun run member => sized run (.tail _ member))
    have own : Loadable rootId children := loadable ⟨children, root, []⟩ List.mem_cons_self
    have bounded : children.length < 2 ^ 64 := sized ⟨children, root, []⟩ List.mem_cons_self
    have previous : ∀ other ∈ (entries older).head?.map Prod.fst, root.canExtend other = false := by
      rw [entries_head]
      intro other member
      obtain ⟨run, first, rfl⟩ := Option.map_eq_some_iff.mp member
      exact fresh run first
    refine ⟨bytes ++ (rootBytes root ++ (Codec.word64.write (UInt64.ofNat children.length) ++
      (sortedChildren children).flatMap childBytes)), ?_, ?_, ?_⟩
    · exact Runs.bind_eq_ok.mpr ⟨bytes, saved, Runs.bind_eq_ok.mpr ⟨_, saveRootNamespace_fresh own previous, rfl⟩⟩
    · intro small
      refine .round (passes fun run member => small run (.tail _ member)) ?_ (rootBytes_ne_nil root _)
      refine loadRoot_fresh own (small ⟨children, root, []⟩ List.mem_cons_self) ?_
      intro run first
      rw [List.head?_map] at first
      obtain ⟨earlier, known, rfl⟩ := Option.map_eq_some_iff.mp first
      exact fresh earlier known
    · rintro ⟨run, member, great⟩
      by_cases before : ∃ run ∈ older, 2 ^ 32 ≤ run.children.length
      · exact (stuck before).extend
      · have small : ∀ run ∈ older, run.children.length < 2 ^ 32 :=
          fun run member => Nat.lt_of_not_le fun great => before ⟨run, member, great⟩
        obtain rfl | later := List.mem_cons.mp member
        · refine ⟨bytes, _, _, _, rfl, passes small, Nat.lt_succ_self _, ?_⟩
          intro more result
          rw [List.append_assoc, List.append_assoc]
          exact loadRoot_endless great bounded _ root _ result
        · exact absurd ⟨run, later, great⟩ before
  | @extend children root newest rest older before extended ih =>
    obtain ⟨bytes, saved, passes, stuck⟩ := ih
      (fun run member => by
        obtain rfl | later := List.mem_cons.mp member
        · exact loadable ⟨children, root, newest :: rest⟩ List.mem_cons_self
        · exact loadable run (.tail _ later))
      (fun run member => by
        obtain rfl | later := List.mem_cons.mp member
        · exact sized ⟨children, root, newest :: rest⟩ List.mem_cons_self
        · exact sized run (.tail _ later))
    refine ⟨bytes ++ (rootBytes root ++ Codec.word64.write 0), ?_, ?_, ?_⟩
    · exact Runs.bind_eq_ok.mpr ⟨bytes, saved, Runs.bind_eq_ok.mpr ⟨_, saveRootNamespace_extend extended, rfl⟩⟩
    · intro small
      refine .round (passes ?_) (loadRoot_extend extended) (rootBytes_ne_nil root _)
      intro run member
      obtain rfl | later := List.mem_cons.mp member
      · exact small ⟨children, root, newest :: rest⟩ List.mem_cons_self
      · exact small run (.tail _ later)
    · rintro ⟨run, member, great⟩
      refine (stuck ?_).extend
      obtain rfl | later := List.mem_cons.mp member
      · exact ⟨_, List.mem_cons_self, great⟩
      · exact ⟨run, .tail _ later, great⟩

end Roots

/-- Two runs have the same roots and the same map of children. -/
structure SameRun (run other : RootRun) : Prop where
  newest : run.newest = other.newest
  older : run.older = other.older
  children : run.children.Perm other.children
  distinct : run.children.ids.Nodup

/-- Two histories have the same roots, the same children and share them between the same roots. -/
structure SameHistory (history other : RootNamespaceHistory) : Prop where
  identified : history.id = other.id
  runs : List.Forall₂ SameRun history.runs other.runs

/-- A history is loaded from its bytes, and it cannot be told from the saved one by further operations. -/
def RoundTrips (history : RootNamespaceHistory) : Prop :=
  ∃ bytes reloaded, history.save = .ok bytes ∧ RootNamespaceHistory.load bytes = .ok (reloaded, []) ∧
    SameHistory history reloaded ∧ ∀ operations : List HistoryOperation,
      (operations.foldl RootNamespaceHistory.step history).save = (operations.foldl RootNamespaceHistory.step reloaded).save

/-- Two computations fail with the same error or have related results. -/
inductive Agree {ε α : Type} (related : α → α → Prop) : Except ε α → Except ε α → Prop where
  | ok {first second : α} (results : related first second) : Agree related (.ok first) (.ok second)
  | error (error : ε) : Agree related (.error error) (.error error)

section Same

variable {run other : RootRun} {history reloaded : RootNamespaceHistory} {rootId : NamespaceId}

theorem find_perm {children listed : Children} (distinct : children.ids.Nodup) (same : children.Perm listed)
    (id : NamespaceId) : children.find id = listed.find id := by
  have distinctListed : listed.ids.Nodup := (same.map Prod.fst).nodup_iff.mp distinct
  cases found : children.find id with
  | none =>
    rw [Children.find_eq_none] at found
    exact (Children.find_eq_none.mpr fun member => found ((same.map Prod.fst).mem_iff.mpr member)).symm
  | some child =>
    exact (Children.find_of_mem distinctListed (same.mem_iff.mp (Children.mem_of_find found))).symm

theorem SameRun.roots (same : SameRun run other) : run.roots = other.roots := by
  rw [RootRun.roots, RootRun.roots, same.newest, same.older]

theorem SameRun.find (same : SameRun run other) (id : NamespaceId) : run.children.find id = other.children.find id :=
  find_perm same.distinct same.children id

theorem SameRun.add (same : SameRun run other) (rootId : NamespaceId) (ns : Namespace) :
    Agree SameRun (run.add rootId ns) (other.add rootId ns) := by
  have parents : run.checkParent rootId ns = other.checkParent rootId ns := by
    rw [RootRun.checkParent, RootRun.checkParent, same.find]
  rw [RootRun.add, RootRun.add, same.find, parents]
  split
  · exact .error _
  · next absent =>
    split
    · exact .error _
    · split
      · exact .error _
      · refine .ok ⟨same.newest, same.older, same.children.append_right _, ?_⟩
        have unknown : ns.id ∉ run.children.ids := by
          rw [← Children.isSome_find, same.find]
          exact absent
        rw [Children.ids, List.map_append, List.nodup_append]
        refine ⟨same.distinct, List.nodup_singleton _, ?_⟩
        intro id member other added same
        have named : other = ns.id := List.mem_singleton.mp added
        rw [same, named] at member
        exact unknown member

theorem SameRun.remove (same : SameRun run other) (id : NamespaceId) : Agree SameRun (run.remove id) (other.remove id) := by
  rw [RootRun.remove, RootRun.remove, same.find]
  split
  · exact .error _
  · next child found =>
    have descendents : RootRun.hasDescendents run.children id child.ns.path.length =
      RootRun.hasDescendents other.children id child.ns.path.length := same.children.any_eq
    rw [descendents]
    split
    · exact .error _
    · exact .ok ⟨same.newest, same.older, same.children.filter _, same.distinct.sublist (List.filter_sublist.map Prod.fst)⟩

theorem SameRun.setAlias (same : SameRun run other) (rootId id : NamespaceId) (namespaceAlias : NamespaceAlias) :
    Agree SameRun (run.setAlias rootId id namespaceAlias) (other.setAlias rootId id namespaceAlias) := by
  rw [RootRun.setAlias, RootRun.setAlias, same.find, same.newest]
  split
  · exact .ok ⟨rfl, same.older, same.children, same.distinct⟩
  · split
    · refine .ok ⟨rfl, same.older, same.children.map _, ?_⟩
      rw [Children.ids_setAlias]
      exact same.distinct
    · exact .error _

theorem SameHistory.changeBack (same : SameHistory history reloaded) {method : RootRun → Except NamespaceError RootRun}
    (agrees : ∀ run other, SameRun run other → Agree SameRun (method run) (method other)) :
    Agree SameHistory (history.changeBack method) (reloaded.changeBack method) := by
  obtain ⟨id, runs⟩ := history
  obtain ⟨otherId, otherRuns⟩ := reloaded
  obtain ⟨rfl, related⟩ := same
  cases related with
  | nil => exact .error _
  | @cons run other older others first rest =>
    rw [RootNamespaceHistory.changeBack, RootNamespaceHistory.changeBack]
    dsimp only
    have changed := agrees run other first
    generalize method run = result at changed ⊢
    generalize method other = otherResult at changed ⊢
    cases changed with
    | ok results => exact .ok ⟨rfl, .cons results rest⟩
    | error error => exact .error error

theorem SameHistory.pushBack (same : SameHistory history reloaded) (ownerAddress : Address) (lifetime : NamespaceLifetime) :
    SameHistory (history.pushBack ownerAddress lifetime) (reloaded.pushBack ownerAddress lifetime) := by
  obtain ⟨id, runs⟩ := history
  obtain ⟨otherId, otherRuns⟩ := reloaded
  obtain ⟨rfl, related⟩ := same
  have alone : SameRun ⟨[], ⟨ownerAddress, lifetime, .none⟩, []⟩ ⟨[], ⟨ownerAddress, lifetime, .none⟩, []⟩ :=
    ⟨rfl, rfl, .refl _, List.nodup_nil⟩
  cases related with
  | nil => exact ⟨rfl, .cons alone .nil⟩
  | @cons run other older others first rest =>
    rw [RootNamespaceHistory.pushBack, RootNamespaceHistory.pushBack]
    dsimp only
    rw [first.newest]
    split
    · exact ⟨rfl, .cons ⟨rfl, first.roots, first.children, first.distinct⟩ rest⟩
    · exact ⟨rfl, .cons alone (.cons first rest)⟩

theorem SameHistory.popBack (same : SameHistory history reloaded) : SameHistory history.popBack reloaded.popBack := by
  obtain ⟨id, runs⟩ := history
  obtain ⟨otherId, otherRuns⟩ := reloaded
  obtain ⟨rfl, related⟩ := same
  cases related with
  | nil => exact ⟨rfl, .nil⟩
  | @cons run other older others first rest =>
    obtain ⟨children, newest, before⟩ := run
    obtain ⟨otherChildren, otherNewest, otherBefore⟩ := other
    obtain rfl : before = otherBefore := first.older
    cases before with
    | nil => exact ⟨rfl, rest⟩
    | cons next before => exact ⟨rfl, .cons ⟨rfl, rfl, first.children, first.distinct⟩ rest⟩

theorem SameHistory.prune (same : SameHistory history reloaded) (height : Height) :
    SameHistory (history.prune height).2 (reloaded.prune height).2 := by
  obtain ⟨id, runs⟩ := history
  obtain ⟨otherId, otherRuns⟩ := reloaded
  obtain ⟨rfl, related⟩ := same
  refine ⟨rfl, ?_⟩
  change List.Forall₂ SameRun (runs.filterMap (RootRun.prune height)) (otherRuns.filterMap (RootRun.prune height))
  dsimp only at related
  induction related with
  | nil => exact .nil
  | @cons run other older others first rest ih =>
    cases kept : other.roots.filter fun root => height < root.lifetime.endHeight with
    | nil =>
      have gone : RootRun.prune height run = none := by simp [RootRun.prune, first.roots, kept]
      have goneOther : RootRun.prune height other = none := by simp [RootRun.prune, kept]
      rw [List.filterMap_cons_none gone, List.filterMap_cons_none goneOther]
      exact ih
    | cons newest before =>
      have stays : RootRun.prune height run = some ⟨run.children, newest, before⟩ := by
        simp [RootRun.prune, first.roots, kept]
      have staysOther : RootRun.prune height other = some ⟨other.children, newest, before⟩ := by
        simp [RootRun.prune, kept]
      rw [List.filterMap_cons_some stays, List.filterMap_cons_some staysOther]
      exact .cons ⟨rfl, rfl, first.children, first.distinct⟩ ih

theorem SameHistory.step (same : SameHistory history reloaded) (operation : HistoryOperation) :
    SameHistory (history.step operation) (reloaded.step operation) := by
  have agrees : Agree SameHistory (history.perform operation) (reloaded.perform operation) := by
    cases operation with
    | pushBack ownerAddress lifetime => exact .ok (same.pushBack ownerAddress lifetime)
    | popBack =>
      have empty : history.runs = [] ↔ reloaded.runs = [] := by
        rw [← List.length_eq_zero_iff, ← List.length_eq_zero_iff, same.runs.length_eq]
      rw [RootNamespaceHistory.perform, RootNamespaceHistory.perform]
      by_cases none : reloaded.runs = []
      · rw [if_pos none, if_pos (empty.mpr none)]
        exact .error _
      · rw [if_neg none, if_neg (none ∘ empty.mp)]
        exact .ok same.popBack
    | add ns =>
      rw [RootNamespaceHistory.perform, RootNamespaceHistory.perform, same.identified]
      exact same.changeBack fun run other first => first.add _ ns
    | remove id => exact same.changeBack fun run other first => first.remove id
    | setAlias id namespaceAlias =>
      rw [RootNamespaceHistory.perform, RootNamespaceHistory.perform, same.identified]
      exact same.changeBack fun run other first => first.setAlias _ id namespaceAlias
    | prune height => exact .ok (same.prune height)
  rw [RootNamespaceHistory.step, RootNamespaceHistory.step]
  generalize history.perform operation = result at agrees ⊢
  generalize reloaded.perform operation = otherResult at agrees ⊢
  cases agrees with
  | ok results => exact results
  | error error => exact same

theorem SameHistory.foldl_step (same : SameHistory history reloaded) (operations : List HistoryOperation) :
    SameHistory (operations.foldl RootNamespaceHistory.step history) (operations.foldl RootNamespaceHistory.step reloaded) := by
  induction operations generalizing history reloaded with
  | nil => exact same
  | cons operation operations ih => exact ih (same.step operation)

theorem saveRootNamespace_perm {children listed : Children} (distinct : children.ids.Nodup) (same : children.Perm listed)
    (root : RootNamespace) (previousRoot : Option RootNamespace) :
    saveRootNamespace rootId root children previousRoot = saveRootNamespace rootId root listed previousRoot := by
  have child : saveChild rootId ⟨children, root, []⟩ = saveChild rootId ⟨listed, root, []⟩ := by
    funext path
    rw [saveChild, saveChild, RootRun.aliasOf, RootRun.aliasOf, find_perm distinct same]
  have saved : saveChildren rootId ⟨children, root, []⟩ = saveChildren rootId ⟨listed, root, []⟩ := by
    rw [saveChildren, saveChildren, sortedChildPaths_perm same, child]
  rw [saveRootNamespace, saveRootNamespace, saved]

theorem roots_perm (rootId : NamespaceId) {runs others : List RootRun} (same : List.Forall₂ SameRun runs others) :
    (entries runs).map Prod.fst = (entries others).map Prod.fst ∧
      saveRoots rootId (entries runs) = saveRoots rootId (entries others) := by
  induction same with
  | nil => exact ⟨rfl, rfl⟩
  | @cons run other older others first rest ih =>
    rw [entries_cons, entries_cons, first.roots]
    induction other.roots with
    | nil => exact ih
    | cons root roots inner =>
      have head : ∀ {entries listed : List (RootNamespace × Children)}, entries.map Prod.fst = listed.map Prod.fst →
          entries.head?.map Prod.fst = listed.head?.map Prod.fst := by
        intro entries listed equal
        rw [← List.head?_map, ← List.head?_map, equal]
      simp only [List.map_cons, List.cons_append]
      refine ⟨congrArg _ inner.1, ?_⟩
      rw [saveRoots, saveRoots, inner.2]
      dsimp only
      rw [head inner.1, saveRootNamespace_perm first.distinct first.children]

theorem SameHistory.save (same : SameHistory history reloaded) : history.save = reloaded.save := by
  have depth : history.historyDepth = reloaded.historyDepth := by
    rw [historyDepth, historyDepth, roots_eq_entries, roots_eq_entries, (roots_perm history.id same.runs).1]
  rw [RootNamespaceHistory.save, RootNamespaceHistory.save, same.identified, (roots_perm _ same.runs).2, depth]

end Same

variable {paths : NamespacePaths} {rootId : NamespaceId} {children : Children} {history : RootNamespaceHistory}

/-- Valid children can be loaded in the order of their paths. -/
theorem ValidChildren.loadable (valid : ValidChildren paths rootId children) (rooted : paths.path rootId = [rootId])
    (shallow : ∀ child ∈ children, child.2.ns.path.length ≤ 256) : Loadable rootId children where
  nodup := valid.nodup
  identified := fun child member => valid.id_eq member
  rooted := by
    intro child member
    have root := valid.rooted child member
    rw [NamespacePaths.rootOf, ← valid.path child member] at root
    obtain ⟨first, rest, path⟩ := List.exists_cons_of_ne_nil child.2.ns.nonempty
    rw [path] at root
    rw [Namespace.rootId]
    simp only [path]
    exact root
  inner := fun child member => Consistent.ne_of_child rooted valid (List.mem_map_of_mem member)
  parent := by
    intro child member
    have named : paths.path child.2.ns.id = child.2.ns.path := by rw [valid.id_eq member, valid.path child member]
    have deep := valid.deep child member
    rw [← valid.path child member] at deep
    have extended := paths.path_parentId named deep
    have above : paths.path child.2.ns.parentId = child.2.ns.path.dropLast := by
      rw [extended, List.dropLast_concat]
    have last := paths.getLast_path child.2.ns.parentId
    have root := valid.rooted child member
    rw [NamespacePaths.rootOf, ← valid.path child member, extended] at root
    obtain ⟨first, rest, path⟩ := List.exists_cons_of_ne_nil (paths.path_ne_nil child.2.ns.parentId)
    rw [path] at last root
    obtain rfl : first = rootId := root
    cases rest with
    | nil => exact .inl (Option.some.inj last).symm
    | cons second rest =>
      have inside : child.2.ns.parentId ∈ (paths.path child.1).tail := by
        rw [← valid.path child member, extended, path]
        rw [List.getLast?_cons_cons] at last
        exact List.mem_append_left _ (List.mem_of_getLast? last)
      obtain ⟨parent, known, same⟩ := List.mem_map.mp (valid.closed child member _ inside)
      refine .inr ⟨parent, known, same, ?_⟩
      rw [valid.path parent known, same, above]
  shallow := shallow

/-- There are not more distinct numbers than a word has values. -/
theorem length_lt_of_nodup {values : List UInt64} {missing : UInt64} (distinct : values.Nodup) (absent : missing ∉ values) :
    values.length < 2 ^ 64 := by
  have numbers : ((missing :: values).map UInt64.toNat).Nodup :=
    (List.nodup_cons.mpr ⟨absent, distinct⟩).map fun _ _ same => UInt64.toNat_inj.mp same
  have below : (missing :: values).map UInt64.toNat ⊆ List.range (2 ^ 64) := by
    intro number member
    obtain ⟨value, _, rfl⟩ := List.mem_map.mp member
    exact List.mem_range.mpr value.toNat_lt
  have bounded := (numbers.subperm below).length_le
  rw [List.length_map, List.length_cons, List.length_range] at bounded
  exact bounded

theorem Loadable.length_lt (loadable : Loadable rootId children) : children.length < 2 ^ 64 := by
  have absent : rootId ∉ children.ids := by
    intro member
    obtain ⟨child, listed, same⟩ := List.mem_map.mp member
    exact loadable.inner child listed same
  have bounded := length_lt_of_nodup loadable.nodup absent
  rwa [Children.ids, List.length_map] at bounded

/-- No lifetime ends at the first height. -/
theorem ValidHistory.historyDepth_lt (valid : ValidHistory paths rootId history) : history.historyDepth < 2 ^ 64 := by
  have distinct : (history.roots.map fun root => root.lifetime.endHeight).Nodup :=
    List.pairwise_map.mpr (valid.ends.imp fun less => (ne_of_lt less).symm)
  have absent : (0 : UInt64) ∉ history.roots.map fun root => root.lifetime.endHeight := by
    intro member
    obtain ⟨root, _, same⟩ := List.mem_map.mp member
    have positive := root.lifetime.positive
    rw [same] at positive
    exact absurd positive (Nat.not_lt_zero _)
  have bounded := length_lt_of_nodup distinct absent
  rwa [List.length_map] at bounded

/-- A loaded history differs from the saved one only in the order of the children. -/
theorem sameHistory_sortRun {runs : List RootRun} (loadable : ∀ run ∈ runs, Loadable rootId run.children) :
    SameHistory ⟨rootId, runs⟩ ⟨rootId, runs.map sortRun⟩ := by
  refine ⟨rfl, ?_⟩
  dsimp only
  rw [List.forall₂_map_right_iff, List.forall₂_same]
  intro run member
  exact ⟨rfl, rfl, (sortedChildren_perm run.children).symm, (loadable run member).nodup⟩

theorem load_append (depth id : UInt64) (roots : List UInt8) :
    RootNamespaceHistory.load (Codec.word64.write depth ++ Codec.word64.write id ++ roots) =
      loop LoadError.endOfStream depth loadRootNamespace ⟨id, []⟩ roots := by
  rw [RootNamespaceHistory.load, List.append_assoc, (readValue_reads Codec.word64 _).followed,
    (readValue_reads Codec.word64 _).followed]

theorem historyDepth_eq_entries (history : RootNamespaceHistory) : history.historyDepth = (entries history.runs).length := by
  rw [historyDepth, roots_eq_entries, List.length_map]

theorem save_eq_ok {bytes : List UInt8} (saved : history.save = .ok bytes) :
    ∃ roots, saveRoots history.id (entries history.runs) = .ok roots ∧
      bytes = Codec.word64.write (UInt64.ofNat history.historyDepth) ++ Codec.word64.write history.id ++ roots := by
  obtain ⟨roots, saved, returned⟩ := Runs.bind_eq_ok.mp saved
  exact ⟨roots, saved, (Except.ok.inj returned).symm⟩

/-- A history with too many roots is never loaded. -/
theorem not_roundTrips_of_depth (great : 2 ^ 32 ≤ history.historyDepth) (sized : history.historyDepth < 2 ^ 64) :
    ¬ RoundTrips history := by
  rintro ⟨bytes, reloaded, saved, loaded, _⟩
  obtain ⟨roots, _, rfl⟩ := save_eq_ok saved
  rw [load_append] at loaded
  exact loop_endless (by rw [toNat_length sized]; exact great) _ _ _ loaded

theorem ValidHistory.roundTrips_iff (valid : ValidHistory paths rootId history)
    (shallow : ∀ run ∈ history.runs, ∀ child ∈ run.children, child.2.ns.path.length ≤ 256) :
    RoundTrips history ↔ history.historyDepth < 2 ^ 32 ∧ ∀ run ∈ history.runs, run.children.length < 2 ^ 32 := by
  have loadable : ∀ run ∈ history.runs, Loadable history.id run.children := by
    intro run member
    rw [valid.identified]
    exact (valid.children run member).loadable valid.rooted (shallow run member)
  have sized := valid.historyDepth_lt
  obtain ⟨roots, saved, passes, stuck⟩ := roots_saved valid.shared loadable fun run member => (loadable run member).length_lt
  rw [← historyDepth_eq_entries] at passes stuck
  constructor
  · intro roundTrips
    have depth : history.historyDepth < 2 ^ 32 := by
      by_contra great
      exact not_roundTrips_of_depth (Nat.le_of_not_lt great) sized roundTrips
    refine ⟨depth, ?_⟩
    intro run member
    by_contra great
    obtain ⟨front, back, loaded, state, rfl, before, below, fails⟩ := stuck ⟨run, member, Nat.le_of_not_lt great⟩
    obtain ⟨bytes, reloaded, written, returned, _⟩ := roundTrips
    obtain ⟨again, same, rfl⟩ := save_eq_ok written
    obtain rfl : front ++ back = again := Except.ok.inj (saved.symm.trans same)
    rw [load_append] at returned
    refine before.loop_ne (by rw [toNat_length sized]; exact below) (by omega) ?_ _ returned
    intro result
    rw [← List.append_nil back]
    exact fails [] result
  · rintro ⟨depth, small⟩
    have same : SameHistory history ⟨history.id, history.runs.map sortRun⟩ := sameHistory_sortRun loadable
    refine ⟨_, ⟨history.id, history.runs.map sortRun⟩, Runs.bind_eq_ok.mpr ⟨roots, saved, rfl⟩, ?_, same, ?_⟩
    · rw [load_append]
      have reads : Reads (loop LoadError.endOfStream (UInt64.ofNat history.historyDepth) loadRootNamespace ⟨history.id, []⟩)
          roots ⟨history.id, history.runs.map sortRun⟩ := (passes small).reads (toNat_length sized) depth
      have whole := reads []
      rwa [List.append_nil] at whole
    · intro operations
      exact (same.foldl_step operations).save

/-- In every run whose identifiers determine their paths and whose roots end in order, the histories that are loaded as they
were saved are those that a 32-bit counter can count. -/
theorem reachable_roundTrips_iff (paths : NamespacePaths) (gracePeriodDuration : BlockDuration) (operations : List Operation)
    (issued : Runs.Along NamespaceCache.step (Issued paths) (NamespaceCache.create gracePeriodDuration) operations)
    (rootId : NamespaceId) (history : RootNamespaceHistory)
    (found : (operations.foldl NamespaceCache.step (NamespaceCache.create gracePeriodDuration)).historyById.lookup rootId =
      some history)
    (shallow : ∀ run ∈ history.runs, ∀ child ∈ run.children, child.2.ns.path.length ≤ 256) :
    RoundTrips history ↔ history.historyDepth < 2 ^ 32 ∧ ∀ run ∈ history.runs, run.children.length < 2 ^ 32 :=
  ((run_consistent issued).valid rootId history found).roundTrips_iff shallow

namespace Samples

/-- A renewed root with a linked child is followed by a root of another owner. -/
def sequel : RootNamespaceHistory :=
  ⟨1, [⟨[(2, ⟨child, .none⟩)], ⟨bob, laterLifetime, .none⟩, []⟩,
    ⟨[(2, ⟨child, .address bob⟩)], ⟨alice, renewedLifetime, .none⟩, [⟨alice, firstLifetime, .none⟩]⟩]⟩

/-- A history that took over an expired root is saved and loaded. -/
theorem sequel_roundTrips : Runs.Along NamespaceCache.step (Issued twoPaths) (NamespaceCache.create 0) (takeover.take 6) ∧
      ((takeover.take 6).foldl NamespaceCache.step (NamespaceCache.create 0)).historyById.lookup 1 = some sequel ∧
      RoundTrips sequel := by
  have issued : Runs.Along NamespaceCache.step (Issued twoPaths) (NamespaceCache.create 0) (takeover.take 6) := by decide
  have found : ((takeover.take 6).foldl NamespaceCache.step (NamespaceCache.create 0)).historyById.lookup 1 =
      some sequel := by decide
  exact ⟨issued, found, (reachable_roundTrips_iff twoPaths 0 (takeover.take 6) issued 1 sequel found (by decide)).mpr
    (by decide)⟩

/-- The root between two roots of one owner ends first and is pruned. -/
def prunedBetween : List Operation :=
  [.insertRoot 1 alice renewedLifetime, .insertRoot 1 bob firstLifetime, .insertRoot 1 alice (lifetimeTo 40), .prune 10]

def unshared : RootNamespaceHistory :=
  ⟨1, [⟨[], ⟨alice, lifetimeTo 40, .none⟩, []⟩, ⟨[], ⟨alice, renewedLifetime, .none⟩, []⟩]⟩

def rejoined : RootNamespaceHistory :=
  ⟨1, [⟨[], ⟨alice, lifetimeTo 40, .none⟩, [⟨alice, renewedLifetime, .none⟩]⟩]⟩

/-- The two roots do not share their children until the history is loaded. -/
theorem prunedBetween_not_roundTrips :
    (prunedBetween.foldl NamespaceCache.step (NamespaceCache.create 0)).historyById.lookup 1 = some unshared ∧
      ¬ RoundTrips unshared := by
  refine ⟨by decide, ?_⟩
  rintro ⟨bytes, reloaded, saved, loaded, same, _⟩
  have joined : (unshared.save.toOption.bind fun bytes => (RootNamespaceHistory.load bytes).toOption) = some (rejoined, []) := by
    rfl
  have returned : some (reloaded, []) = some (rejoined, ([] : List UInt8)) := by
    rw [← joined, saved]
    exact (congrArg Except.toOption loaded).symm
  have reloads : reloaded = rejoined := congrArg Prod.fst (Option.some.inj returned)
  rw [reloads] at same
  exact absurd same.runs.length_eq (by decide)

theorem renewals_not_roundTrips {count : Nat} (great : 2 ^ 32 ≤ count) (bounded : count + 1 < 2 ^ 64) :
    ∃ history, Runs.Along NamespaceCache.step (Issued twoPaths) (NamespaceCache.create 0) (repeatedRenewals count) ∧
      ((repeatedRenewals count).foldl NamespaceCache.step (NamespaceCache.create 0)).historyById.lookup 1 = some history ∧
      (∀ run ∈ history.runs, run.children = []) ∧ ¬ RoundTrips history := by
  obtain ⟨before, rfl⟩ := Nat.exists_eq_succ_of_ne_zero (show count ≠ 0 by omega)
  obtain ⟨issued, _, older, size, found⟩ := renewals_shared before (by omega)
  have depth : historyDepth ⟨1, [⟨[], ⟨alice, lifetimeTo (UInt64.ofNat (before + 2)), .none⟩, older⟩]⟩ = before + 1 := by
    rw [historyDepth_cons, RootRun.roots, List.length_cons, size]
    rfl
  exact ⟨_, issued, found, by simp, not_roundTrips_of_depth (by omega) (by omega)⟩

/-- A root that was renewed too often is saved but never loaded. -/
theorem renewed_too_often :
    ∃ history, Runs.Along NamespaceCache.step (Issued twoPaths) (NamespaceCache.create 0) (repeatedRenewals (2 ^ 32)) ∧
      ((repeatedRenewals (2 ^ 32)).foldl NamespaceCache.step (NamespaceCache.create 0)).historyById.lookup 1 =
        some history ∧ (∀ run ∈ history.runs, run.children = []) ∧ ¬ RoundTrips history :=
  renewals_not_roundTrips (Nat.le_refl _) (by decide)

end Samples

end Catapult.Namespaces
