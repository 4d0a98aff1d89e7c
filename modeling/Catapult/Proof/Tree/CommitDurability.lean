import Catapult.Construction.Tree.BasePatriciaTree
import Catapult.Library.Reordering
import Catapult.Proof.Tree.Canonicity

/-
This file shows that a committed tree can be loaded from its data source.
-/

namespace Catapult.Tree

section Transfer

variable [Sha3] {D E : Type} [DataSource D] [DataSource E] {source : D} {other : E}

/-- A stored trie depends only on what the data source returns. -/
theorem Stored.transfer (same : ∀ hash, DataSource.get other hash = DataSource.get source hash) {trie : NodeTrie}
    (stored : Stored source trie) : Stored other trie := by
  induction trie with
  | empty => trivial
  | leaf path value => exact (same _).trans stored
  | branch path children ih => exact ⟨(same _).trans stored.1, fun index => ih index (stored.2 index)⟩

theorem SourceClosed.transfer (same : ∀ hash, DataSource.get other hash = DataSource.get source hash) (closed : SourceClosed source) :
    SourceClosed other := by
  intro hash
  rw [same hash]
  rcases closed hash with absent | ⟨trie, nonempty, hashed, found, stored⟩
  · exact .inl absent
  · exact .inr ⟨trie, nonempty, hashed, found, stored.transfer same⟩

end Transfer

section Copying

variable [Sha3] {D : Type} [DataSource D] [LawfulDataSource D]

/-- Nodes that are copied do not disturb each other if they agree with one view of all hashes. -/
theorem get_copied {view : Hash256 → TreeNode} {nodes : List TreeNode} {source : D}
    (agree : ∀ node ∈ nodes, node ≠ .empty ∧ view node.hash = node)
    (compatible : ∀ node ∈ nodes, DataSource.get source node.hash = .empty ∨ DataSource.get source node.hash = node) (hash : Hash256) :
    ((∃ node ∈ nodes, node.hash = hash) → DataSource.get (nodes.foldl DataSource.set source) hash = view hash) ∧
      ((∀ node ∈ nodes, node.hash ≠ hash) → DataSource.get (nodes.foldl DataSource.set source) hash = DataSource.get source hash) := by
  induction nodes generalizing source with
  | nil =>
    constructor
    · rintro ⟨node, inside, -⟩
      exact absurd inside List.not_mem_nil
    · intro _
      rfl
  | cons first nodes ih =>
    obtain ⟨firstNonempty, firstAgrees⟩ := agree first List.mem_cons_self
    have own : DataSource.get (DataSource.set source first) first.hash = first := by
      rcases LawfulDataSource.get_set_same source first firstNonempty with saved | ⟨present, kept⟩
      · exact saved
      · rw [kept]
        exact (compatible first List.mem_cons_self).resolve_left present
    have others : ∀ {hash}, hash ≠ first.hash → DataSource.get (DataSource.set source first) hash = DataSource.get source hash :=
      fun different => LawfulDataSource.get_set_other source first _ different
    have later := @ih (DataSource.set source first) (fun node inside => agree node (List.mem_cons_of_mem _ inside)) fun node inside => by
      by_cases same : node.hash = first.hash
      · right
        rw [same, own, ← firstAgrees, ← same]
        exact (agree node (List.mem_cons_of_mem _ inside)).2
      · rw [others same]
        exact compatible node (List.mem_cons_of_mem _ inside)
    rw [List.foldl_cons]
    by_cases below : ∃ node ∈ nodes, node.hash = hash
    · constructor
      · intro _
        exact later.1 below
      · intro absent
        obtain ⟨node, inside, same⟩ := below
        exact absurd same (absent node (List.mem_cons_of_mem _ inside))
    · have absent : ∀ node ∈ nodes, node.hash ≠ hash := fun node inside same => below ⟨node, inside, same⟩
      rw [later.2 absent]
      constructor
      · rintro ⟨node, inside, rfl⟩
        rcases List.mem_cons.mp inside with rfl | inside
        · rw [own, firstAgrees]
        · exact absurd rfl (absent node inside)
      · intro different
        exact others (different first List.mem_cons_self).symm

end Copying

section Saving

variable [Sha3] {D : Type} [DataSource D]

/-- Saving a represented node only sets saved forms of its subtries. -/
theorem saveAllNode_invariant {holds : D → Prop} {source : D} {trie : NodeTrie}
    (step : ∀ current below, below ≠ .empty → trieMessages below ⊆ trieMessages trie → holds current →
      holds (DataSource.set current (compactNode below)))
    {node : TreeNode} {current saved : D} (represented : Represents source trie node) (nonempty : trie ≠ .empty) (start : holds current)
    (ran : saveAllNode node current = some saved) : holds saved := by
  induction trie generalizing node current saved with
  | empty => exact absurd rfl nonempty
  | leaf path value =>
    rw [show node = _ from represented] at ran
    cases ran
    exact step current _ nonempty Set.Subset.rfl start
  | branch path children ih =>
    obtain ⟨branchNode, rfl, rfl, linked⟩ := represented.exists_branch
    have inChildren : ∀ index, trieMessages (children index) ⊆ trieMessages (.branch branchNode.path children) :=
      childMessages_subset Set.Subset.rfl
    have loop : ∀ (indexes : List (Fin 16)) (current saved : D), holds current →
        indexes.foldlM (fun current index => saveLinked (branchNode.linkedNodes index) current) current = some saved → holds saved := by
      intro indexes
      induction indexes with
      | nil =>
        intro current saved start ran
        cases ran
        exact start
      | cons index indexes rest =>
        intro current saved start ran
        rw [List.foldlM_cons] at ran
        obtain ⟨next, first, ran⟩ := Option.bind_eq_some_iff.mp ran
        refine rest next saved ?_ ran
        cases pointer : branchNode.linkedNodes index with
        | none =>
          rw [pointer] at first
          cases first
          exact start
        | some child =>
          rw [pointer] at first
          obtain ⟨present, below⟩ := linked.pointer index child pointer
          exact ih index (fun current below some included => step current below some (included.trans (inChildren index))) below present start first
    obtain ⟨middle, linkedSaved, ran⟩ := Option.bind_eq_some_iff.mp ran
    cases ran
    have last := step middle _ nonempty Set.Subset.rfl (loop _ _ _ start linkedSaved)
    rwa [← linked.compactLinks] at last

end Saving

section Memory

namespace MemoryDataSource

theorem mem_emplace {N : Type} {nodes : List (Hash256 × N)} {hash : Hash256} {node : N} {entry : Hash256 × N}
    (inside : entry ∈ emplace nodes hash node) : entry ∈ nodes ∨ entry.2 = node := by
  unfold emplace at inside
  split at inside
  · exact .inl inside
  · rcases List.mem_append.mp inside with inside | inside
    · exact .inl inside
    · rw [List.mem_singleton.mp inside]
      exact .inr rfl

/-- Setting a node adds at most this node. -/
theorem mem_nodes_set [Sha3] {source : MemoryDataSource} {node other : TreeNode} (inside : other ∈ (source.set node).nodes) :
    other ∈ source.nodes ∨ other = node := by
  cases node with
  | empty => exact .inl inside
  | leaf leafNode =>
    rcases List.mem_append.mp inside with inside | inside
    · obtain ⟨entry, member, rfl⟩ := List.mem_map.mp inside
      rcases mem_emplace member with old | same
      · exact .inl (List.mem_append_left _ (List.mem_map_of_mem old))
      · exact .inr (congrArg TreeNode.leaf same)
    · exact .inl (List.mem_append_right _ inside)
  | branch path links linkedNodes linkSet =>
    rcases List.mem_append.mp inside with inside | inside
    · exact .inl (List.mem_append_left _ inside)
    · obtain ⟨entry, member, rfl⟩ := List.mem_map.mp inside
      rcases mem_emplace member with old | same
      · exact .inl (List.mem_append_right _ (List.mem_map_of_mem old))
      · exact .inr (congrArg TreeNode.ofBranch same)

/-- A node that is found is one of the nodes. -/
theorem mem_nodes_of_get {source : MemoryDataSource} {hash : Hash256} (found : source.get hash ≠ .empty) : source.get hash ∈ source.nodes := by
  unfold get at found ⊢
  cases leaf : source.leafNodes.lookup hash with
  | some leafNode =>
    obtain ⟨before, after, same, -⟩ := List.lookup_eq_some_iff.mp leaf
    refine List.mem_append_left _ (List.mem_map.mpr ⟨(hash, leafNode), ?_, rfl⟩)
    rw [same]
    exact List.mem_append_right _ List.mem_cons_self
  | none =>
    cases branch : source.branchNodes.lookup hash with
    | some branchNode =>
      obtain ⟨before, after, same, -⟩ := List.lookup_eq_some_iff.mp branch
      refine List.mem_append_right _ (List.mem_map.mpr ⟨(hash, branchNode), ?_, rfl⟩)
      rw [same]
      exact List.mem_append_right _ List.mem_cons_self
    | none =>
      rw [leaf, branch] at found
      exact absurd rfl found

/-- A node that was found is still found after another node was set. -/
theorem get_set_ne_empty [Sha3] {source : MemoryDataSource} {node : TreeNode} {hash : Hash256} (nonempty : node ≠ .empty)
    (found : hash = node.hash ∨ source.get hash ≠ .empty) : (source.set node).get hash ≠ .empty := by
  by_cases same : hash = node.hash
  · rw [same]
    rcases LawfulDataSource.get_set_same source node nonempty with saved | ⟨present, kept⟩
    · exact saved.trans_ne nonempty
    · exact kept.trans_ne present
  · exact (LawfulDataSource.get_set_other source node hash same).trans_ne (found.resolve_left same)

end MemoryDataSource

variable {D : Type} [DataSource D]

theorem ReadThroughMemoryDataSource.get_of_memory {source : ReadThroughMemoryDataSource D} {hash : Hash256} (found : source.memory.get hash ≠ .empty) :
    DataSource.get source hash = source.memory.get hash := by
  change ReadThroughMemoryDataSource.get source hash = _
  unfold ReadThroughMemoryDataSource.get
  cases node : source.memory.get hash with
  | empty => exact absurd node found
  | leaf _ => rfl
  | branch _ _ _ _ => rfl

theorem ReadThroughMemoryDataSource.get_of_backing {source : ReadThroughMemoryDataSource D} {hash : Hash256} (absent : source.memory.get hash = .empty) :
    DataSource.get source hash = DataSource.get source.backing hash := by
  change ReadThroughMemoryDataSource.get source hash = _
  unfold ReadThroughMemoryDataSource.get
  rw [absent]
  rfl

variable [Sha3]

/-- All nodes in memory are saved forms of stored tries and are found under their hashes. -/
structure Remembered (source : ReadThroughMemoryDataSource D) : Prop where
  stored : ∀ node ∈ source.memory.nodes, ∃ trie : NodeTrie, trie ≠ .empty ∧ node = compactNode trie ∧ Stored source trie
  found : ∀ node ∈ source.memory.nodes, source.memory.get node.hash ≠ .empty

/-- All nodes in memory are saved forms of tries with known messages. -/
structure Known (messages : Set (List UInt8)) (backing : D) (source : ReadThroughMemoryDataSource D) : Prop where
  backing : source.backing = backing
  saved : ∀ node ∈ source.memory.nodes, ∃ trie : NodeTrie, trie ≠ .empty ∧ node = compactNode trie ∧ trieMessages trie ⊆ messages
  found : ∀ node ∈ source.memory.nodes, source.memory.get node.hash ≠ .empty

theorem compactNode_ne_empty {trie : NodeTrie} (nonempty : trie ≠ .empty) : compactNode trie ≠ .empty := by
  cases trie with
  | empty => exact absurd rfl nonempty
  | leaf path value => exact TreeNode.noConfusion
  | branch path children => exact TreeNode.noConfusion

theorem Known.set {messages : Set (List UInt8)} {backing : D} {source : ReadThroughMemoryDataSource D} (known : Known messages backing source)
    {trie : NodeTrie} (nonempty : trie ≠ .empty) (inTrie : trieMessages trie ⊆ messages) :
    Known messages backing (DataSource.set source (compactNode trie)) := by
  constructor
  · exact known.backing
  · intro node inside
    rcases MemoryDataSource.mem_nodes_set inside with old | rfl
    · exact known.saved node old
    · exact ⟨trie, nonempty, rfl, inTrie⟩
  · intro node inside
    rcases MemoryDataSource.mem_nodes_set inside with old | rfl
    · exact MemoryDataSource.get_set_ne_empty (compactNode_ne_empty nonempty) (.inr (known.found node old))
    · exact MemoryDataSource.get_set_ne_empty (compactNode_ne_empty nonempty) (.inl rfl)

/-- A checkpoint remembers the whole tree and writes nothing to the backing data source. -/
theorem saveAllNode_remembers {messages : Set (List UInt8)} (free : CollisionFree messages) {source : ReadThroughMemoryDataSource D}
    {trie : NodeTrie} {node : TreeNode} (represented : Represents source trie node) (nonempty : trie ≠ .empty) (closed : SourceClosed source)
    (included : sourceMessages source ⊆ messages) (inNode : node.messages ⊆ messages) (remembered : Remembered source) :
    ∃ saved, saveAllNode node source = some saved ∧ saved.backing = source.backing ∧ Extends messages source saved ∧ Stored saved trie ∧
      Remembered saved := by
  obtain ⟨saved, ran, extended, stored⟩ := saveAllNode_represents free represented nonempty closed included inNode
  have inTrie := represented.messages_subset.trans (Set.union_subset included inNode)
  have start : Known messages source.backing source := by
    refine ⟨rfl, fun other inside => ?_, remembered.found⟩
    obtain ⟨below, some, same, storedBelow⟩ := remembered.stored other inside
    exact ⟨below, some, same, storedBelow.messages_subset.trans included⟩
  have known := saveAllNode_invariant (fun _ below some inBelow known => known.set some (inBelow.trans inTrie)) represented nonempty start ran
  refine ⟨saved, ran, known.backing, extended, stored, fun other inside => ?_, known.found⟩
  obtain ⟨below, some, rfl, inBelow⟩ := known.saved other inside
  refine ⟨below, some, rfl, ?_⟩
  have found := known.found _ inside
  have present := (ReadThroughMemoryDataSource.get_of_memory found).trans_ne found
  rcases extended.closed (compactNode below).hash with absent | ⟨own, _, hashed, _, storedOwn⟩
  · exact absurd absent present
  · rw [compactNode_hash] at hashed
    rw [← free.trieHash_injective (storedOwn.messages_subset.trans extended.included) inBelow hashed]
    exact storedOwn

end Memory

section Pending

variable [Sha3] {D : Type} [DataSource D] [LawfulDataSource D]

/-- After the copy the data source returns what the delta returns. -/
theorem get_copyPendingChangesTo {dataSource : D} {delta : BasePatriciaTreeDelta}
    (free : CollisionFree (sourceMessages dataSource ∪ sourceMessages (delta.tree dataSource).dataSource)) (closedBase : SourceClosed dataSource)
    (closed : SourceClosed (delta.tree dataSource).dataSource) (remembered : Remembered (delta.tree dataSource).dataSource) (hash : Hash256) :
    DataSource.get (delta.copyPendingChangesTo dataSource) hash = DataSource.get (delta.tree dataSource).dataSource hash := by
  have agree : ∀ node ∈ delta.memory.nodes, node ≠ .empty ∧ DataSource.get (delta.tree dataSource).dataSource node.hash = node := by
    intro node inside
    obtain ⟨trie, nonempty, rfl, stored⟩ := remembered.stored node inside
    refine ⟨compactNode_ne_empty nonempty, ?_⟩
    rw [compactNode_hash]
    exact stored.get_eq nonempty
  have compatible : ∀ node ∈ delta.memory.nodes, DataSource.get dataSource node.hash = .empty ∨ DataSource.get dataSource node.hash = node := by
    intro node inside
    obtain ⟨trie, nonempty, rfl, stored⟩ := remembered.stored node inside
    rcases closedBase (compactNode trie).hash with absent | ⟨old, _, hashed, found, storedOld⟩
    · exact .inl absent
    · right
      rw [compactNode_hash] at hashed
      have same := free.trieHash_injective (storedOld.messages_subset.trans Set.subset_union_left)
        (stored.messages_subset.trans Set.subset_union_right) hashed
      rw [found, same]
  obtain ⟨copied, kept⟩ := get_copied agree compatible hash
  by_cases inMemory : delta.memory.get hash = .empty
  · by_cases own : ∃ node ∈ delta.memory.nodes, node.hash = hash
    · exact copied own
    · have below : DataSource.get (delta.tree dataSource).dataSource hash = DataSource.get dataSource hash :=
        ReadThroughMemoryDataSource.get_of_backing inMemory
      rw [below]
      exact kept fun node inside same => own ⟨node, inside, same⟩
  · have found : DataSource.get (delta.tree dataSource).dataSource hash = delta.memory.get hash :=
      ReadThroughMemoryDataSource.get_of_memory inMemory
    refine copied ⟨_, MemoryDataSource.mem_nodes_of_get inMemory, ?_⟩
    rcases closed hash with absent | ⟨trie, nonempty, hashed, present, -⟩
    · exact absurd (found.symm.trans absent) inMemory
    · rw [← found, present, compactNode_hash, hashed]

end Pending

section Commits

variable [Sha3] {D : Type} [DataSource D] {dataSource : D} {delta : BasePatriciaTreeDelta} {tree : BasePatriciaTree D} {depth : Nat}
  {entries : TreeNodePath → Option Hash256}

theorem tryLoad_stored {E : Type} [DataSource E] (tree : PatriciaTree E) {trie : NodeTrie} (stored : Stored tree.dataSource trie)
    (nonempty : trie ≠ .empty) : tree.tryLoad (trieHash trie) = (true, { tree with rootNode := compactNode trie }) := by
  have occupied : trie.isEmpty = false := by simpa using nonempty
  unfold PatriciaTree.tryLoad
  rw [stored.get_eq nonempty]
  dsimp only
  rw [compactNode_isEmpty, occupied]
  rfl

omit [Sha3] in
theorem tryLoad_zero {E : Type} [DataSource E] (tree : PatriciaTree E) (zero : DataSource.get tree.dataSource zeroHash = .empty) :
    tree.tryLoad zeroHash = (false, tree) := by
  unfold PatriciaTree.tryLoad
  rw [zero]
  rfl

/-- The tree of a delta holds a map, and its memory belongs to the tree. -/
structure DeltaSound (dataSource : D) (delta : BasePatriciaTreeDelta) (depth : Nat) (entries : TreeNodePath → Option Hash256) : Prop where
  sound : Sound (delta.tree dataSource) depth entries
  remembered : Remembered (delta.tree dataSource).dataSource

/-- The data source has stored the whole tree of a map. -/
structure TreeSound (tree : BasePatriciaTree D) (depth : Nat) (entries : TreeNodePath → Option Hash256) : Prop where
  closed : SourceClosed tree.dataSource
  zero : DataSource.get tree.dataSource zeroHash = .empty
  stored : ∃ trie : NodeTrie, Stored tree.dataSource trie ∧ tree.rootNode = compactNode trie ∧ trie.Canonical depth ∧ trie.find = entries

/-- A delta with a stored root is sound. -/
theorem deltaSound_of_stored (closed : SourceClosed (delta.tree dataSource).dataSource)
    (zero : DataSource.get (delta.tree dataSource).dataSource zeroHash = .empty) (remembered : Remembered (delta.tree dataSource).dataSource)
    {trie : NodeTrie} (stored : Stored (delta.tree dataSource).dataSource trie) (root : delta.rootNode = compactNode trie)
    (shape : trie.Canonical depth) (found : trie.find = entries) : DeltaSound dataSource delta depth entries := by
  refine ⟨⟨closed, zero, trie, ?_, shape, found⟩, remembered⟩
  change Represents (delta.tree dataSource).dataSource trie delta.rootNode
  rw [root]
  exact stored.represents

/-- A checkpoint keeps the root and saves every node of the tree. -/
theorem DeltaSound.setCheckpoint (sound : DeltaSound dataSource delta depth entries) (free : CollisionFree (treeMessages (delta.tree dataSource))) :
    ∃ saved, delta.setCheckpoint dataSource = some saved ∧ saved.rootNode = delta.rootNode ∧ DeltaSound dataSource saved depth entries ∧
      sourceMessages (saved.tree dataSource).dataSource ⊆ treeMessages (delta.tree dataSource) ∧ ∃ trie : NodeTrie,
        trieHash trie = saved.root ∧ Stored (saved.tree dataSource).dataSource trie ∧ trie.Canonical depth ∧ trie.find = entries := by
  obtain ⟨⟨closed, zero, trie, represented, shape, found⟩, remembered⟩ := sound
  have hashed : delta.root = trieHash trie := represented.hash_eq
  by_cases empty : trie = .empty
  · subst empty
    have same : delta.setCheckpoint dataSource = some delta := by
      unfold BasePatriciaTreeDelta.setCheckpoint PatriciaTree.saveAll
      rw [represented.isEmpty]
      rfl
    exact ⟨delta, same, rfl, ⟨⟨closed, zero, .empty, represented, shape, found⟩, remembered⟩, Set.subset_union_left,
      .empty, hashed.symm, trivial, shape, found⟩
  · obtain ⟨source, ran, backing, extended, stored, remembers⟩ := saveAllNode_remembers free represented empty closed
      Set.subset_union_left Set.subset_union_right remembered
    have view : (⟨dataSource, source.memory⟩ : ReadThroughMemoryDataSource D) = source := by
      rw [← show source.backing = dataSource from backing]
    have occupied : trie.isEmpty = false := by simpa using empty
    have same : delta.setCheckpoint dataSource = some { delta with memory := source.memory } := by
      unfold BasePatriciaTreeDelta.setCheckpoint PatriciaTree.saveAll
      rw [represented.isEmpty, occupied, ran]
      rfl
    refine ⟨_, same, rfl, ⟨⟨?_, ?_, trie, ?_, shape, found⟩, ?_⟩, ?_, trie, hashed.symm, ?_, shape, found⟩
    · exact view ▸ extended.closed
    · exact view ▸ extended.closed.get_zero (free.mono extended.included)
    · exact view ▸ represented.mono extended.keeps
    · exact view ▸ remembers
    · exact view ▸ extended.included
    · exact view ▸ stored

variable [LawfulDataSource D]

/-- A commit stores the tree of the delta, and both trees have its root. -/
theorem DeltaSound.commit {depthBase : Nat} {entriesBase : TreeNodePath → Option Hash256} (attached : tree.delta = some delta)
    (base : TreeSound tree depthBase entriesBase) (sound : DeltaSound tree.dataSource delta depth entries)
    (free : CollisionFree (sourceMessages tree.dataSource ∪ treeMessages (delta.tree tree.dataSource))) :
    ∃ committed last, tree.commit = some committed ∧ committed.delta = some last ∧ committed.root = delta.root ∧ last.root = delta.root ∧
      TreeSound committed depth entries ∧ DeltaSound committed.dataSource last depth entries := by
  obtain ⟨saved, checkpoint, sameRoot, savedSound, known, trie, hashed, stored, shape, found⟩ := sound.setCheckpoint (free.mono Set.subset_union_right)
  have copied := get_copyPendingChangesTo (free.mono (Set.union_subset_union_right _ known)) base.closed savedSound.sound.closed savedSound.remembered
  generalize destination : saved.copyPendingChangesTo tree.dataSource = dataSource at copied
  -- The delta reads the same nodes before and after the copy.
  have above : ∀ hash, DataSource.get (saved.tree dataSource).dataSource hash = DataSource.get (saved.tree tree.dataSource).dataSource hash := by
    intro hash
    by_cases inMemory : saved.memory.get hash = .empty
    · exact (ReadThroughMemoryDataSource.get_of_backing inMemory).trans (copied hash)
    · have before : DataSource.get (saved.tree tree.dataSource).dataSource hash = saved.memory.get hash :=
        ReadThroughMemoryDataSource.get_of_memory inMemory
      exact (ReadThroughMemoryDataSource.get_of_memory inMemory).trans before.symm
  have storedBelow : Stored dataSource trie := stored.transfer copied
  have storedAbove : Stored (saved.tree dataSource).dataSource trie := stored.transfer above
  have closedAbove := savedSound.sound.closed.transfer above
  have zeroAbove : DataSource.get (saved.tree dataSource).dataSource zeroHash = .empty := (above _).trans savedSound.sound.holds.zero
  have remembered : Remembered (saved.tree dataSource).dataSource := by
    refine ⟨fun node inside => ?_, savedSound.remembered.found⟩
    obtain ⟨below, nonempty, same, storedNode⟩ := savedSound.remembered.stored node inside
    exact ⟨below, nonempty, same, storedNode.transfer above⟩
  have rootNode : saved.copyRootTo dataSource = compactNode trie ∧
      saved.reset dataSource saved.root = some { saved with rootNode := compactNode trie, baseRootHash := saved.root } := by
    unfold BasePatriciaTreeDelta.copyRootTo BasePatriciaTreeDelta.reset
    rw [← hashed]
    by_cases empty : trie = .empty
    · subst empty
      exact ⟨if_pos rfl, if_pos rfl⟩
    · have nonzero : zeroHash ≠ trieHash trie :=
        (free.trieHash_ne_zero ((stored.messages_subset.trans known).trans Set.subset_union_right) empty).symm
      rw [if_neg nonzero, if_neg nonzero, tryLoad_stored _ storedAbove empty]
      exact ⟨storedAbove.get_eq empty, rfl⟩
  have ran : tree.commit = some ⟨dataSource, compactNode trie, some { saved with rootNode := compactNode trie, baseRootHash := saved.root }⟩ := by
    unfold BasePatriciaTree.commit
    rw [attached]
    refine Option.bind_eq_some_iff.mpr ⟨delta, rfl, Option.bind_eq_some_iff.mpr ⟨saved, checkpoint, ?_⟩⟩
    dsimp only
    rw [destination, rootNode.1, rootNode.2]
    rfl
  have root : (compactNode trie).hash = delta.root := by
    rw [compactNode_hash, hashed]
    exact congrArg TreeNode.hash sameRoot
  exact ⟨_, _, ran, rfl, root, root, ⟨savedSound.sound.closed.transfer copied,
    (copied _).trans savedSound.sound.holds.zero, trie, storedBelow, rfl, shape, found⟩,
    deltaSound_of_stored closedAbove zeroAbove remembered storedAbove rfl shape found⟩

end Commits

section BaseRuns

variable [Sha3] {D : Type} [DataSource D] {K V : Type} {encoder : Encoder K V} {keys : Set K} {bytes : Nat}
  {tree : BasePatriciaTree D} {maps next : CommittedMaps K V}

/-- These messages are hashed for a tree and its attached delta. -/
def baseTreeMessages (tree : BasePatriciaTree D) : Set (List UInt8) :=
  sourceMessages tree.dataSource ∪
    match tree.delta with
    | none => ∅
    | some delta => treeMessages (delta.tree tree.dataSource)

/-- These messages are hashed for all trees and deltas of a run. -/
def baseRunMessages (encoder : Encoder K V) (tree : BasePatriciaTree D) : List (BaseOperation K V) → Set (List UInt8)
  | [] => baseTreeMessages tree
  | operation :: operations =>
    baseTreeMessages tree ∪
      match tree.apply encoder operation with
      | some next => baseRunMessages encoder next operations
      | none => ∅

/-- The committed map is stored, and the attached delta holds the pending map. -/
structure BaseSound (encoder : Encoder K V) (keys : Set K) (bytes : Nat) (tree : BasePatriciaTree D) (maps : CommittedMaps K V) : Prop where
  committed : ∃ entries, Encodes encoder keys entries maps.committed ∧ TreeSound tree (2 * bytes) entries
  pending : Option.Rel (fun delta pending => ∃ entries, Encodes encoder keys entries pending ∧ DeltaSound tree.dataSource delta (2 * bytes) entries)
    tree.delta maps.pending

/-- A pending map belongs to an attached delta. -/
theorem BaseSound.attached {pending : K → Option V} (sound : BaseSound encoder keys bytes tree maps) (some : maps.pending = some pending) :
    ∃ delta entries, tree.delta = Option.some delta ∧ Encodes encoder keys entries pending ∧ DeltaSound tree.dataSource delta (2 * bytes) entries := by
  obtain ⟨delta, attached, entries, encodes, deltaSound⟩ := Reordering.rel_some_right.mp (some ▸ sound.pending)
  exact ⟨delta, entries, attached, encodes, deltaSound⟩

theorem baseTreeMessages_attached {delta : BasePatriciaTreeDelta} (attached : tree.delta = some delta) :
    baseTreeMessages tree = sourceMessages tree.dataSource ∪ treeMessages (delta.tree tree.dataSource) := by
  unfold baseTreeMessages
  rw [attached]

/-- A new delta stands for the committed map. -/
theorem TreeSound.rebase {depth : Nat} {entries : TreeNodePath → Option Hash256} (sound : TreeSound tree depth entries) :
    DeltaSound tree.dataSource (.create tree.dataSource tree.root) depth entries := by
  obtain ⟨closed, zeroBelow, trie, stored, root, shape, found⟩ := sound
  have same : ∀ hash, DataSource.get (⟨tree.dataSource, .empty⟩ : ReadThroughMemoryDataSource D) hash = DataSource.get tree.dataSource hash :=
    fun hash => ReadThroughMemoryDataSource.get_of_backing rfl
  have zero := (same zeroHash).trans zeroBelow
  have loaded : (BasePatriciaTreeDelta.create tree.dataSource tree.root).rootNode = compactNode trie := by
    unfold BasePatriciaTreeDelta.create BasePatriciaTree.root
    dsimp only
    rw [root, compactNode_hash]
    by_cases empty : trie = .empty
    · subst empty
      rw [trieHash, tryLoad_zero _ zero]
      rfl
    · rw [tryLoad_stored _ (stored.transfer same) empty]
  refine deltaSound_of_stored (closed.transfer same) zero ⟨?_, ?_⟩ (stored.transfer same) loaded shape found
  · intro node inside
    exact absurd inside List.not_mem_nil
  · intro node inside
    exact absurd inside List.not_mem_nil

/-- A restart loads the committed tree. -/
theorem TreeSound.restart {depth : Nat} {entries : TreeNodePath → Option Hash256} (sound : TreeSound tree depth entries)
    (free : CollisionFree (sourceMessages tree.dataSource)) : tree.restart = some ⟨tree.dataSource, tree.rootNode, none⟩ := by
  obtain ⟨closed, zero, trie, stored, root, shape, found⟩ := sound
  unfold BasePatriciaTree.restart BasePatriciaTree.createAt BasePatriciaTree.root
  rw [root, compactNode_hash]
  by_cases empty : trie = .empty
  · subst empty
    exact if_pos rfl
  · have nonzero := (free.trieHash_ne_zero stored.messages_subset empty).symm
    rw [if_neg nonzero, tryLoad_stored _ stored empty]
    rfl

theorem baseRunMessages_cons {operation : BaseOperation K V} {result : BasePatriciaTree D} (ran : tree.apply encoder operation = some result)
    (operations : List (BaseOperation K V)) :
    baseRunMessages encoder tree (operation :: operations) = baseTreeMessages tree ∪ baseRunMessages encoder result operations := by
  simp only [baseRunMessages, ran]

theorem baseTreeMessages_subset (encoder : Encoder K V) (tree : BasePatriciaTree D) (operations : List (BaseOperation K V)) :
    baseTreeMessages tree ⊆ baseRunMessages encoder tree operations := by
  cases operations with
  | nil => exact Set.Subset.rfl
  | cons operation operations => exact Set.subset_union_left

variable [DecidableEq K] [LawfulDataSource D]

/-- Every operation acts on the committed map and on the pending map. -/
theorem BaseSound.apply (sound : BaseSound encoder keys bytes tree maps) (fixed : encoder.FixedLength bytes) (apart : Set.InjOn encoder.encodeKey keys)
    (free : CollisionFree (baseTreeMessages tree)) {operation : BaseOperation K V} (touched : ∀ change, operation = .update change → change.key ∈ keys)
    (valid : operation.applyMaps maps = some next) :
    ∃ result, tree.apply encoder operation = some result ∧ BaseSound encoder keys bytes result next := by
  obtain ⟨entries, encodes, treeSound⟩ := sound.committed
  have freeBase : CollisionFree (sourceMessages tree.dataSource) := free.mono Set.subset_union_left
  cases operation with
  | rebase =>
    cases pending : maps.pending with
    | some _ =>
      unfold BaseOperation.applyMaps at valid
      rw [pending] at valid
      cases valid
    | none =>
      have detached : tree.delta = none := Reordering.rel_none_right.mp (pending ▸ sound.pending)
      unfold BaseOperation.applyMaps at valid
      rw [pending] at valid
      cases valid
      refine ⟨{ tree with delta := some (.create tree.dataSource tree.root) }, ?_, ⟨entries, encodes, treeSound.closed, treeSound.zero, treeSound.stored⟩,
        .some ⟨entries, encodes, treeSound.rebase⟩⟩
      change tree.rebase = _
      unfold BasePatriciaTree.rebase
      rw [detached]
  | update change =>
    obtain ⟨pending, some, valid⟩ := Option.bind_eq_some_iff.mp valid
    cases valid
    obtain ⟨delta, deltaEntries, attached, deltaEncodes, deltaSound⟩ := sound.attached some
    obtain ⟨changed, ran, source, holds⟩ := deltaSound.sound.holds.applyUpdate fixed change
    obtain ⟨changedSource, rootNode⟩ := changed
    cases source
    exact ⟨{ tree with delta := Option.some { delta with rootNode } },
      Option.bind_eq_some_iff.mpr ⟨delta, attached, Option.bind_eq_some_iff.mpr ⟨_, Option.bind_eq_some_iff.mpr ⟨_, ran, rfl⟩, rfl⟩⟩,
      ⟨entries, encodes, treeSound.closed, treeSound.zero, treeSound.stored⟩,
      .some ⟨_, deltaEncodes.update apart (touched change rfl), ⟨deltaSound.sound.closed, holds⟩, deltaSound.remembered⟩⟩
  | setCheckpoint =>
    obtain ⟨pending, some, valid⟩ := Option.bind_eq_some_iff.mp valid
    cases valid
    obtain ⟨delta, deltaEntries, attached, deltaEncodes, deltaSound⟩ := sound.attached some
    rw [baseTreeMessages_attached attached] at free
    obtain ⟨saved, checkpoint, -, savedSound, -⟩ := deltaSound.setCheckpoint (free.mono Set.subset_union_right)
    exact ⟨{ tree with delta := Option.some saved }, Option.bind_eq_some_iff.mpr ⟨delta, attached, Option.bind_eq_some_iff.mpr ⟨saved, checkpoint, rfl⟩⟩,
      ⟨entries, encodes, treeSound.closed, treeSound.zero, treeSound.stored⟩, .some ⟨deltaEntries, deltaEncodes, savedSound⟩⟩
  | commit =>
    obtain ⟨pending, some, valid⟩ := Option.bind_eq_some_iff.mp valid
    cases valid
    obtain ⟨delta, deltaEntries, attached, deltaEncodes, deltaSound⟩ := sound.attached some
    rw [baseTreeMessages_attached attached] at free
    obtain ⟨committed, last, ran, attachedLast, -, -, committedSound, lastSound⟩ := deltaSound.commit attached treeSound free
    exact ⟨committed, ran, ⟨deltaEntries, deltaEncodes, committedSound⟩, attachedLast ▸ .some ⟨deltaEntries, deltaEncodes, lastSound⟩⟩
  | release =>
    cases valid
    exact ⟨_, rfl, ⟨entries, encodes, treeSound.closed, treeSound.zero, treeSound.stored⟩, .none⟩
  | restart =>
    cases valid
    exact ⟨_, treeSound.restart freeBase, ⟨entries, encodes, treeSound.closed, treeSound.zero, treeSound.stored⟩, .none⟩

/-- A run acts on the committed map and on the pending map. -/
theorem BaseSound.run (sound : BaseSound encoder keys bytes tree maps) (fixed : encoder.FixedLength bytes) (apart : Set.InjOn encoder.encodeKey keys)
    (operations : List (BaseOperation K V)) (touched : ∀ key ∈ BaseOperation.touchedKeys operations, key ∈ keys)
    (free : CollisionFree (baseRunMessages encoder tree operations)) (valid : operations.foldlM BaseOperation.applyMaps maps = some next) :
    ∃ result, tree.run encoder operations = some result ∧ BaseSound encoder keys bytes result next ∧ CollisionFree (baseTreeMessages result) := by
  induction operations generalizing tree maps with
  | nil =>
    cases valid
    exact ⟨tree, rfl, sound, free⟩
  | cons operation operations ih =>
    obtain ⟨middle, first, valid⟩ := Option.bind_eq_some_iff.mp valid
    have own : ∀ change, operation = .update change → change.key ∈ keys := by
      rintro change rfl
      exact touched change.key List.mem_cons_self
    have rest : ∀ key ∈ BaseOperation.touchedKeys operations, key ∈ keys := by
      intro key inside
      refine touched key ?_
      unfold BaseOperation.touchedKeys at inside ⊢
      rw [List.filterMap_cons]
      split
      · exact inside
      · exact List.mem_cons_of_mem _ inside
    obtain ⟨after, ran, afterSound⟩ := sound.apply fixed apart (free.mono (baseTreeMessages_subset encoder tree _)) own first
    rw [baseRunMessages_cons ran] at free
    obtain ⟨result, ranRest, resultSound, freeResult⟩ := ih afterSound rest (free.mono Set.subset_union_right) valid
    refine ⟨result, ?_, resultSound, freeResult⟩
    unfold BasePatriciaTree.run
    rw [List.foldlM_cons, ran]
    exact ranRest

end BaseRuns

section Durability

variable [Sha3] {D : Type} [DataSource D] {K V : Type}

/-- Every node that is reached from a saved root is the saved form of a stored trie. -/
theorem PartOf.stored {source : D} (zero : DataSource.get source zeroHash = .empty) {trie : NodeTrie} (stored : Stored source trie) {node : TreeNode}
    (part : PartOf source (compactNode trie) node) : ∃ below : NodeTrie, Stored source below ∧ node = compactNode below := by
  induction part with
  | root => exact ⟨trie, stored, rfl⟩
  | @link branchNode part index ih =>
    obtain ⟨below, storedBelow, same⟩ := ih
    cases below with
    | empty => cases same
    | leaf path value => cases same
    | branch path children =>
      cases branchNode
      cases same
      refine ⟨children index, storedBelow.2 index, ?_⟩
      change DataSource.get source (trieHash (children index)) = compactNode (children index)
      by_cases empty : children index = .empty
      · rw [empty]
        exact zero
      · exact (storedBelow.2 index).get_eq empty

theorem TreeSound.holds {tree : BasePatriciaTree D} {depth : Nat} {entries : TreeNodePath → Option Hash256} (sound : TreeSound tree depth entries) :
    Holds ⟨tree.dataSource, tree.rootNode⟩ depth entries := by
  obtain ⟨-, zero, trie, stored, root, shape, found⟩ := sound
  refine ⟨zero, trie, ?_, shape, found⟩
  dsimp only
  rw [root]
  exact stored.represents

/-- The root that was committed is loaded from the data source. -/
theorem TreeSound.tryLoad {tree : BasePatriciaTree D} {depth : Nat} {entries : TreeNodePath → Option Hash256} (sound : TreeSound tree depth entries) :
    (PatriciaTree.empty tree.dataSource).tryLoad tree.root = (!tree.rootNode.isEmpty, ⟨tree.dataSource, tree.rootNode⟩) := by
  obtain ⟨-, zero, trie, stored, root, -, -⟩ := sound
  unfold BasePatriciaTree.root
  rw [root, compactNode_hash, compactNode_isEmpty]
  by_cases empty : trie = .empty
  · subst empty
    exact tryLoad_zero _ zero
  · have occupied : trie.isEmpty = false := by simpa using empty
    rw [occupied]
    exact tryLoad_stored _ stored empty

/-- A commit gives the tree the map and the root of its delta, and the data source alone gives this map again. -/
theorem commit_durable [DecidableEq K] [LawfulDataSource D] {source : D} (closed : SourceClosed source) {encoder : Encoder K V} {bytes : Nat}
    (fixed : encoder.FixedLength bytes) (operations : List (BaseOperation K V)) {keys : Set K}
    (touched : ∀ key ∈ BaseOperation.touchedKeys operations, key ∈ keys) (apart : Set.InjOn encoder.encodeKey keys)
    (free : CollisionFree (baseRunMessages encoder (BasePatriciaTree.create source) operations)) {maps : CommittedMaps K V}
    (valid : BaseOperation.runMaps operations = some maps) {pending : K → Option V} (attached : maps.pending = some pending) :
    ∃ tree delta committed, (BasePatriciaTree.create source).run encoder operations = some tree ∧ tree.delta = some delta ∧
      tree.commit = some committed ∧ committed.root = delta.root ∧
      (∀ key ∈ keys, ∃ visited visitedDelta,
        committed.lookup encoder key = some (lookupAnswer ((pending key).map encoder.encodeValue), visited) ∧
          (delta.tree tree.dataSource).lookup encoder key = some (lookupAnswer ((pending key).map encoder.encodeValue), visitedDelta)) ∧
      (∀ node, PartOf committed.dataSource committed.rootNode node → node ≠ .empty → DataSource.get committed.dataSource node.hash = node) ∧
      ∃ reloaded, (PatriciaTree.empty committed.dataSource).tryLoad delta.root = (!committed.rootNode.isEmpty, reloaded) ∧
        reloaded.root = delta.root ∧
        ∀ key ∈ keys, ∃ visited, reloaded.lookup encoder key = some (lookupAnswer ((pending key).map encoder.encodeValue), visited) := by
  have freeSource : CollisionFree (sourceMessages source) := free.mono
    ((show sourceMessages source ⊆ baseTreeMessages (BasePatriciaTree.create source) from Set.subset_union_left).trans
      (baseTreeMessages_subset encoder _ _))
  have start : BaseSound encoder keys bytes (BasePatriciaTree.create source) ⟨fun _ => none, none⟩ :=
    ⟨⟨fun _ => none, .empty encoder keys, closed, closed.get_zero freeSource, .empty, trivial, rfl, trivial, rfl⟩, .none⟩
  obtain ⟨tree, ran, sound, freeTree⟩ := start.run fixed apart operations touched free valid
  obtain ⟨delta, entries, attachedDelta, encodes, deltaSound⟩ := sound.attached attached
  obtain ⟨_, _, treeSound⟩ := sound.committed
  rw [baseTreeMessages_attached attachedDelta] at freeTree
  obtain ⟨committed, last, committing, -, root, -, committedSound, -⟩ := deltaSound.commit attachedDelta treeSound freeTree
  have loaded := committedSound.tryLoad
  rw [root] at loaded
  refine ⟨tree, delta, committed, ran, attachedDelta, committing, root, fun key inside => ?_, fun node part nonempty => ?_,
    ⟨committed.dataSource, committed.rootNode⟩, loaded, root, fun key inside => ?_⟩
  · obtain ⟨visited, looked⟩ := committedSound.holds.lookup fixed key
    obtain ⟨visitedDelta, lookedDelta⟩ := deltaSound.sound.holds.lookup fixed key
    rw [encodes.inside key inside] at looked lookedDelta
    exact ⟨visited, visitedDelta, looked, lookedDelta⟩
  · obtain ⟨-, zero, trie, stored, rootNode, -, -⟩ := committedSound
    obtain ⟨below, storedBelow, rfl⟩ := (rootNode ▸ part).stored zero stored
    rw [compactNode_hash]
    refine storedBelow.get_eq fun empty => nonempty ?_
    rw [empty]
    rfl
  · obtain ⟨visited, looked⟩ := committedSound.holds.lookup fixed key
    rw [encodes.inside key inside] at looked
    exact ⟨visited, looked⟩

end Durability

/-- Every message of a tree and its attached delta is known. -/
def baseTreeWithin [Sha3] {D : Type} [DataSource D] [Listed D] (known : List (List UInt8)) (tree : BasePatriciaTree D) : Bool :=
  treeWithin known ⟨tree.dataSource, .empty⟩ && tree.delta.all fun delta => treeWithin known (delta.tree tree.dataSource)

section Listings

variable [Sha3] {D : Type} [DataSource D] [Listed D] {K V : Type} {known : List (List UInt8)} {encoder : Encoder K V} {tree : BasePatriciaTree D}

def baseRunWithin (known : List (List UInt8)) (encoder : Encoder K V) (tree : BasePatriciaTree D) : List (BaseOperation K V) → Bool
  | [] => baseTreeWithin known tree
  | operation :: operations =>
    baseTreeWithin known tree && (tree.apply encoder operation).all fun next => baseRunWithin known encoder next operations

theorem baseTreeMessages_within (within : baseTreeWithin known tree = true) : baseTreeMessages tree ⊆ {message | message ∈ known} := by
  obtain ⟨below, above⟩ := Bool.and_eq_true_iff.mp within
  refine Set.union_subset (Set.subset_union_left.trans (treeMessages_within below)) ?_
  cases attached : tree.delta with
  | none => exact Set.empty_subset _
  | some delta =>
    rw [attached] at above
    exact treeMessages_within above

theorem baseRunMessages_within {operations : List (BaseOperation K V)} (within : baseRunWithin known encoder tree operations = true) :
    baseRunMessages encoder tree operations ⊆ {message | message ∈ known} := by
  induction operations generalizing tree with
  | nil => exact baseTreeMessages_within within
  | cons operation operations ih =>
    obtain ⟨here, later⟩ := Bool.and_eq_true_iff.mp within
    refine Set.union_subset (baseTreeMessages_within here) ?_
    cases applied : tree.apply encoder operation with
    | none => exact Set.empty_subset _
    | some next =>
      rw [applied] at later
      exact ih later

end Listings

/-- A removal after a checkpoint, a commit and a restart is committed as well. -/
theorem commit_durable_removed : letI := sha3Digest
    ∃ tree delta committed, (BasePatriciaTree.create MemoryDataSource.empty).run byteEncoder
        [.rebase, .update (.set 0x12 (Vector.replicate 32 1)), .setCheckpoint, .update (.set 0x13 (Vector.replicate 32 2)), .commit, .restart,
          .rebase, .update (.unset 0x12)] = some tree ∧
      tree.delta = some delta ∧ tree.commit = some committed ∧
      ∃ reloaded, (PatriciaTree.empty committed.dataSource).tryLoad delta.root = (!committed.rootNode.isEmpty, reloaded) ∧
        (∃ visited, reloaded.lookup byteEncoder 0x12 = some ((zeroHash, false), visited)) ∧
        ∃ visited, reloaded.lookup byteEncoder 0x13 = some ((Vector.replicate 32 2, true), visited) := by
  rw [← recordedDigest_eq]
  let := recordedDigest
  obtain ⟨tree, delta, committed, ran, attached, committing, _, _, _, reloaded, loaded, _, looked⟩ :=
    commit_durable memoryDataSource_empty_closed byteEncoder_fixedLength
      [.rebase, .update (.set 0x12 (Vector.replicate 32 1)), .setCheckpoint, .update (.set 0x13 (Vector.replicate 32 2)), .commit, .restart,
        .rebase, .update (.unset 0x12)]
      (fun _ _ => Set.mem_univ _) (byteEncoder_injOn Set.univ)
      (recordedDigest_collisionFree.mono (baseRunMessages_within (by decide +kernel))) rfl rfl
  exact ⟨tree, delta, committed, ran, attached, committing, reloaded, loaded, looked 0x12 (Set.mem_univ _), looked 0x13 (Set.mem_univ _)⟩

end Catapult.Tree
