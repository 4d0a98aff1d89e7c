import Catapult.Construction.Tree.TreeHistory
import Catapult.Proof.Tree.Lookup

/-
This file shows that every operation acts on the map that a tree holds and that the map determines the tree and its root.
-/

namespace Catapult.Tree

/-- A lawful data source returns what was saved or keeps an older node with the same hash. -/
class LawfulDataSource (D : Type) [DataSource D] : Prop where
  get_set_other : ∀ [Sha3] (source : D) (node : TreeNode) (hash : Hash256), hash ≠ node.hash →
    DataSource.get (DataSource.set source node) hash = DataSource.get source hash
  get_set_same : ∀ [Sha3] (source : D) (node : TreeNode), node ≠ .empty →
    DataSource.get (DataSource.set source node) node.hash = node ∨ DataSource.get source node.hash ≠ .empty ∧
        DataSource.get (DataSource.set source node) node.hash = DataSource.get source node.hash

namespace MemoryDataSource

theorem lookup_emplace_other {N : Type} (nodes : List (Hash256 × N)) {hash other : Hash256} (node : N)
    (different : other ≠ hash) : (emplace nodes hash node).lookup other = nodes.lookup other := by
  unfold emplace
  split
  · rfl
  · have apart : (other == hash) = false := by simpa using different
    rw [List.lookup_append, List.lookup_cons, apart, List.lookup_nil]
    exact Option.or_none

theorem lookup_emplace_same {N : Type} (nodes : List (Hash256 × N)) (hash : Hash256) (node : N) :
    (emplace nodes hash node).lookup hash = some ((nodes.lookup hash).getD node) := by
  unfold emplace
  split
  · next old found => rw [found]; rfl
  · next absent =>
    rw [List.lookup_append, absent, List.lookup_cons, beq_self_eq_true]
    rfl

/-- The maps of the memory data source are lawful because an emplace never overwrites. -/
instance : LawfulDataSource MemoryDataSource where
  get_set_other source node hash different := by
    cases node with
    | empty => rfl
    | leaf node => simp [DataSource.get, DataSource.set, get, set, lookup_emplace_other _ _ different]
    | branch path links linkedNodes linkSet =>
      simp [DataSource.get, DataSource.set, get, set, lookup_emplace_other _ _ different]
  get_set_same source node nonempty := by
    cases node with
    | empty => exact absurd rfl nonempty
    | leaf node =>
      simp only [DataSource.get, DataSource.set, get, set, lookup_emplace_same]
      cases found : source.leafNodes.lookup (TreeNode.leaf node).hash with
      | none => left; rfl
      | some old => right; exact ⟨by simp, rfl⟩
    | branch path links linkedNodes linkSet =>
      simp only [DataSource.get, DataSource.set, get, set, lookup_emplace_same]
      cases source.leafNodes.lookup (TreeNode.branch path links linkedNodes linkSet).hash with
      | some leaf => right; exact ⟨by simp, rfl⟩
      | none =>
        cases source.branchNodes.lookup (TreeNode.branch path links linkedNodes linkSet).hash with
        | none => left; rfl
        | some old => right; exact ⟨by simp [TreeNode.ofBranch], rfl⟩

end MemoryDataSource

/-- A read through data source is lawful over any backing source. -/
instance {B : Type} [DataSource B] : LawfulDataSource (ReadThroughMemoryDataSource B) where
  get_set_other source node hash different := by
    have same := LawfulDataSource.get_set_other source.memory node hash different
    simp only [DataSource.get, DataSource.set] at same
    simp only [DataSource.get, DataSource.set, ReadThroughMemoryDataSource.get, ReadThroughMemoryDataSource.set, same]
  get_set_same source node nonempty := by
    have occupied : ∀ node : TreeNode, node ≠ .empty → node.isEmpty = false := by
      intro node nonempty
      cases node with
      | empty => exact absurd rfl nonempty
      | leaf _ => rfl
      | branch _ _ _ _ => rfl
    rcases LawfulDataSource.get_set_same source.memory node nonempty with saved | ⟨present, kept⟩
    · left
      simp only [DataSource.get, DataSource.set] at saved
      simp [DataSource.get, DataSource.set, ReadThroughMemoryDataSource.get,
        ReadThroughMemoryDataSource.set, saved, occupied node nonempty]
    · right
      simp only [DataSource.get, DataSource.set] at present kept
      have full := occupied _ present
      simp [DataSource.get, DataSource.set, ReadThroughMemoryDataSource.get, ReadThroughMemoryDataSource.set, kept, full, present]

section Saving

variable [Sha3] {D : Type} [DataSource D]

@[simp] theorem compactNode_hash (trie : NodeTrie) : (compactNode trie).hash = trieHash trie := by
  cases trie <;> rfl

/-- A compacted node hashes only the message of its own trie node. -/
theorem compactNode_messages (trie : NodeTrie) : (compactNode trie).messages ⊆ trieMessages trie := by
  cases trie with
  | empty => exact Set.Subset.rfl
  | leaf path value => exact Set.Subset.rfl
  | branch path children =>
    intro message inside
    rcases Set.mem_insert_iff.mp inside with same | below
    · exact Set.mem_insert_iff.mpr (.inl same)
    · obtain ⟨_, impossible⟩ := Set.mem_iUnion.mp below
      exact absurd impossible (Set.notMem_empty _)

/-- An extension is closed, keeps every stored trie and adds only known messages. -/
structure Extends (messages : Set (List UInt8)) (source saved : D) : Prop where
  closed : SourceClosed saved
  keeps : ∀ trie, Stored source trie → Stored saved trie
  included : sourceMessages saved ⊆ messages

theorem Extends.trans {messages : Set (List UInt8)} {source middle saved : D}
    (first : Extends messages source middle) (second : Extends messages middle saved) : Extends messages source saved :=
  ⟨second.closed, fun trie stored => second.keeps trie (first.keeps trie stored), second.included⟩

/-- A represented trie stays represented if the data source keeps its stored tries. -/
theorem Represents.mono {source saved : D} (keeps : ∀ trie, Stored source trie → Stored saved trie)
    {trie : NodeTrie} {node : TreeNode} (represented : Represents source trie node) : Represents saved trie node := by
  induction trie generalizing node with
  | empty => exact represented
  | leaf path value => exact represented
  | branch path children ih =>
    obtain ⟨links, linkedNodes, linkSet, rfl, linked⟩ := represented
    refine ⟨links, linkedNodes, linkSet, rfl, fun index => ?_⟩
    obtain ⟨marked, pointer, stored⟩ := linked index
    exact ⟨marked, fun child present => ⟨(pointer child present).1, ih index (pointer child present).2⟩,
      fun absent => ⟨(stored absent).1, keeps _ (stored absent).2⟩⟩

variable [LawfulDataSource D]

/-- A saved node is found under its hash even if an older node was kept. -/
theorem get_set_compactNode {messages : Set (List UInt8)} (free : CollisionFree messages) {source : D}
    (closed : SourceClosed source) (included : sourceMessages source ⊆ messages) {trie : NodeTrie}
    (nonempty : trie ≠ .empty) (inTrie : trieMessages trie ⊆ messages) :
    DataSource.get (DataSource.set source (compactNode trie)) (trieHash trie) = compactNode trie := by
  have occupied : compactNode trie ≠ .empty := by
    cases trie <;> simp_all [compactNode]
  rcases LawfulDataSource.get_set_same source _ occupied with saved | ⟨present, kept⟩
  · simpa using saved
  · rw [compactNode_hash] at present kept
    rcases closed (trieHash trie) with absent | ⟨old, _, hashed, found, stored⟩
    · exact absurd absent present
    · have same := free.trieHash_injective (stored.messages_subset.trans included) inTrie hashed
      rw [kept, found, same]

/-- Saving a node whose children are stored extends the data source by its trie. -/
theorem extends_set_compactNode {messages : Set (List UInt8)} (free : CollisionFree messages) {source : D}
    (closed : SourceClosed source) (included : sourceMessages source ⊆ messages) {trie : NodeTrie}
    (nonempty : trie ≠ .empty) (inTrie : trieMessages trie ⊆ messages)
    (children : ∀ saved : D, (∀ below, Stored source below → Stored saved below) →
      DataSource.get saved (trieHash trie) = compactNode trie → Stored saved trie) :
    Extends messages source (DataSource.set source (compactNode trie)) ∧
      Stored (DataSource.set source (compactNode trie)) trie := by
  have found := get_set_compactNode free closed included nonempty inTrie
  have other : ∀ hash, hash ≠ trieHash trie →
      DataSource.get (DataSource.set source (compactNode trie)) hash = DataSource.get source hash :=
    fun hash different => LawfulDataSource.get_set_other _ _ _ (by simpa using different)
  have lookup : ∀ below, below ≠ .empty → Stored source below →
      DataSource.get (DataSource.set source (compactNode trie)) (trieHash below) = compactNode below := by
    intro below present stored
    by_cases same : trieHash below = trieHash trie
    · have equal := free.trieHash_injective (stored.messages_subset.trans included) inTrie same
      rw [equal, found]
    · rw [other _ same, stored.get_eq present]
  have keeps : ∀ below, Stored source below → Stored (DataSource.set source (compactNode trie)) below := by
    intro below
    induction below with
    | empty => exact fun _ => trivial
    | leaf path value => exact fun stored => lookup (.leaf path value) (by simp) stored
    | branch path children ih =>
      exact fun stored => ⟨lookup _ (by simp) stored, fun index => ih index (stored.2 index)⟩
  have saved := children _ keeps found
  refine ⟨⟨fun hash => ?_, keeps, fun message inside => ?_⟩, saved⟩
  · by_cases same : hash = trieHash trie
    · exact .inr ⟨trie, nonempty, same.symm, same ▸ found, saved⟩
    · rw [other _ same]
      rcases closed hash with absent | ⟨old, present, hashed, loaded, stored⟩
      · exact .inl absent
      · exact .inr ⟨old, present, hashed, loaded, keeps _ stored⟩
  · obtain ⟨hash, inNode⟩ := Set.mem_iUnion.mp inside
    by_cases same : hash = trieHash trie
    · rw [same, found] at inNode
      exact inTrie (compactNode_messages trie inNode)
    · rw [other _ same] at inNode
      exact included (Set.mem_iUnion.mpr ⟨hash, inNode⟩)

omit [LawfulDataSource D] in
/-- Compacting a represented branch gives the saved form of its trie. -/
theorem LinksRepresent.compactLinks {source : D} {children : Nibble → NodeTrie}
    {branchNode : BranchTreeNode} (linked : LinksRepresent source children branchNode) :
    TreeNode.ofBranch branchNode.compactLinks = compactNode (.branch branchNode.path children) := by
  have marked : branchNode.linkSet = fun index => !(children index).isEmpty := funext linked.linkSet
  simp [TreeNode.ofBranch, BranchTreeNode.compactLinks, compactNode, linked.link_eq, marked]

omit [LawfulDataSource D] in
/-- The loop over the links stores every child of a represented branch. -/
theorem foldlM_saveLinked {messages : Set (List UInt8)} {children : Nibble → NodeTrie}
    {branchNode : BranchTreeNode} {source : D} (linked : LinksRepresent source children branchNode)
    (closed : SourceClosed source) (included : sourceMessages source ⊆ messages)
    (saves : ∀ index child (current : D), branchNode.linkedNodes index = some child →
      Extends messages source current → ∃ saved, saveAllNode child current = some saved ∧
        Extends messages current saved ∧ Stored saved (children index))
    (indexes : List (Fin 16)) :
    ∃ saved, indexes.foldlM (fun current index => saveLinked (branchNode.linkedNodes index) current)
        source = some saved ∧
      Extends messages source saved ∧ ∀ index ∈ indexes, Stored saved (children index) := by
  induction indexes using List.reverseRecOn with
  | nil => exact ⟨source, rfl, ⟨closed, fun _ stored => stored, included⟩, by simp⟩
  | append_singleton indexes index ih =>
    obtain ⟨middle, ran, extended, stored⟩ := ih
    rw [List.foldlM_append, ran]
    cases pointer : branchNode.linkedNodes index with
    | none =>
      refine ⟨middle, by simp [pointer, saveLinked], extended, fun other inside => ?_⟩
      rcases List.mem_append.mp inside with before | last
      · exact stored other before
      · rw [List.mem_singleton.mp last]
        exact extended.keeps _ (linked.stored index pointer).2
    | some child =>
      obtain ⟨saved, savedRun, further, childStored⟩ := saves index child middle pointer extended
      refine ⟨saved, by simp [pointer, saveLinked, savedRun], extended.trans further,
        fun other inside => ?_⟩
      rcases List.mem_append.mp inside with before | last
      · exact further.keeps _ (stored other before)
      · rw [List.mem_singleton.mp last]
        exact childStored

/-- Saving a represented node stores its whole trie. -/
theorem saveAllNode_represents {messages : Set (List UInt8)} (free : CollisionFree messages)
    {source : D} {trie : NodeTrie} {node : TreeNode} (represented : Represents source trie node)
    (nonempty : trie ≠ .empty) (closed : SourceClosed source)
    (included : sourceMessages source ⊆ messages) (inNode : node.messages ⊆ messages) :
    ∃ saved, saveAllNode node source = some saved ∧ Extends messages source saved ∧ Stored saved trie := by
  induction trie generalizing source node with
  | empty => exact absurd rfl nonempty
  | leaf path value =>
    rw [show node = _ from represented] at inNode ⊢
    exact ⟨_, rfl, extends_set_compactNode free closed included nonempty inNode
      fun saved _ found => found⟩
  | branch path children ih =>
    have inTrie := represented.messages_subset.trans (Set.union_subset included inNode)
    obtain ⟨branchNode, rfl, rfl, linked⟩ := represented.exists_branch
    obtain ⟨middle, ran, extended, stored⟩ := foldlM_saveLinked linked closed included
      (fun index child current pointer kept => by
        obtain ⟨present, below⟩ := linked.pointer index child pointer
        refine ih index (below.mono kept.keeps) present kept.closed kept.included ?_
        intro message inside
        refine inNode (Set.mem_insert_of_mem _ (Set.mem_iUnion.mpr ⟨index, ?_⟩))
        rw [pointer]
        exact inside)
      (List.finRange 16)
    obtain ⟨further, saved⟩ := extends_set_compactNode free extended.closed extended.included
      nonempty inTrie fun saved keeps found =>
        ⟨found, fun index => keeps _ (stored index (List.mem_finRange index))⟩
    refine ⟨DataSource.set middle (compactNode (.branch branchNode.path children)), ?_, extended.trans further, saved⟩
    simp [saveAllNode, TreeNode.ofBranch, ran, ← linked.compactLinks]

end Saving

/-- A key is found at the path of its encoded bytes. -/
def Encoder.path {K V : Type} (encoder : Encoder K V) (key : K) : TreeNodePath :=
  TreeNodePath.ofKey (encoder.encodeKey key)

/-- Every encoded key has the same number of bytes. -/
def Encoder.FixedLength {K V : Type} (encoder : Encoder K V) (bytes : Nat) : Prop :=
  ∀ key, (encoder.encodeKey key).length = bytes

theorem TreeNodePath.length_ofKey (key : List UInt8) : (ofKey key).length = 2 * key.length := by
  induction key with
  | nil => rfl
  | cons byte key ih =>
    change (ofKey key).length + 2 = _
    rw [ih, List.length_cons]
    omega

/-- The two nibbles of a byte determine the byte. -/
theorem nibbles_injective {first second : UInt8} (high : Fin.ofNat 16 (first.toNat >>> 4) = Fin.ofNat 16 (second.toNat >>> 4))
    (low : Fin.ofNat 16 first.toNat = Fin.ofNat 16 second.toNat) : first = second := by
  have highValue : first.toNat >>> 4 % 16 = second.toNat >>> 4 % 16 := congrArg Fin.val high
  have lowValue : first.toNat % 16 = second.toNat % 16 := congrArg Fin.val low
  have firstBound := first.toNat_lt
  have secondBound := second.toNat_lt
  apply UInt8.toNat_inj.mp
  simp only [Nat.shiftRight_eq_div_pow] at highValue
  omega

theorem TreeNodePath.ofKey_injective : Function.Injective ofKey := by
  intro first second same
  induction first generalizing second with
  | nil =>
    cases second with
    | nil => rfl
    | cons byte rest => cases same
  | cons byte rest ih =>
    cases second with
    | nil => cases same
    | cons other rest' =>
      obtain ⟨high, tail⟩ := List.cons.inj same
      obtain ⟨low, below⟩ := List.cons.inj tail
      rw [nibbles_injective high low, ih below]

theorem Encoder.FixedLength.length_path {K V : Type} {encoder : Encoder K V} {bytes : Nat}
    (fixed : encoder.FixedLength bytes) (key : K) : (encoder.path key).length = 2 * bytes := by
  rw [Encoder.path, TreeNodePath.length_ofKey, fixed key]

section Holding

variable [Sha3] {D : Type} [DataSource D] {K V : Type}

/-- A tree holds a map if its root stands for the canonical trie of the map. -/
structure Holds (tree : PatriciaTree D) (depth : Nat) (entries : TreeNodePath → Option Hash256) : Prop where
  zero : DataSource.get tree.dataSource zeroHash = .empty
  represented : ∃ trie : NodeTrie, Represents tree.dataSource trie tree.rootNode ∧ trie.Canonical depth ∧ trie.find = entries

theorem holds_empty {source : D} (zero : DataSource.get source zeroHash = .empty) (depth : Nat) :
    Holds (PatriciaTree.empty source) depth fun _ => none :=
  ⟨zero, .empty, rfl, trivial, rfl⟩

namespace Holds

variable {tree : PatriciaTree D} {bytes : Nat} {entries : TreeNodePath → Option Hash256}
  {encoder : Encoder K V}

/-- Setting a key changes the map at one path. -/
theorem set (holds : Holds tree (2 * bytes) entries) (fixed : encoder.FixedLength bytes) (key : K) (value : V) :
    ∃ tree', tree.set encoder key value = some tree' ∧ tree'.dataSource = tree.dataSource ∧
      Holds tree' (2 * bytes) (Function.update entries (encoder.path key)
        (some (encoder.encodeValue value))) := by
  obtain ⟨zero, trie, represented, shape, rfl⟩ := holds
  have length := fixed.length_path key
  obtain ⟨node, trie', ran, represented', shape', _, found⟩ := setNode_represents zero
    (2 * bytes + 1) represented shape
    (show (PathValuePair.mk (encoder.path key) (encoder.encodeValue value)).path.length = _ from length)
    (Nat.lt_succ_self _)
  refine ⟨{ tree with rootNode := node }, ?_, rfl, zero, trie', represented', shape', found⟩
  change (setNode tree.dataSource ((encoder.path key).length + 1) tree.rootNode
    ⟨encoder.path key, encoder.encodeValue value⟩ >>= _) = _
  rw [length, ran]
  rfl

/-- Unsetting a key reports whether the key was present and leaves the tree alone if it was not. -/
theorem unset (holds : Holds tree (2 * bytes) entries) (fixed : encoder.FixedLength bytes) (key : K) :
    ∃ found tree', tree.unset encoder key = some (found, tree') ∧ tree'.dataSource = tree.dataSource ∧
      found = (entries (encoder.path key)).isSome ∧ (found = false → tree' = tree) ∧
      Holds tree' (2 * bytes) (Function.update entries (encoder.path key) none) := by
  obtain ⟨zero, trie, represented, shape, rfl⟩ := holds
  have length := fixed.length_path key
  obtain ⟨result, ran, absent, present⟩ := unsetNode_represents zero (2 * bytes + 1) represented shape
    length (Nat.lt_succ_self _) tree.rootNode
  have unset : tree.unset encoder key = some (result.found, { tree with rootNode := result.updatedNode }) := by
    change (unsetNode tree.dataSource ((encoder.path key).length + 1) tree.rootNode (encoder.path key)
      tree.rootNode true >>= _) = _
    rw [length, ran]
    rfl
  refine ⟨_, _, unset, rfl, ?_⟩
  by_cases missing : trie.find (encoder.path key) = none
  · rw [absent missing, missing]
    refine ⟨rfl, fun _ => rfl, zero, trie, represented, shape, ?_⟩
    rw [← missing, Function.update_eq_self]
  · obtain ⟨found, trie', represented', shape', removed, _⟩ := present missing
    have some := Option.isSome_iff_ne_none.mpr missing
    rw [found, some]
    exact ⟨rfl, fun impossible => absurd impossible (by simp), zero, trie', represented', shape', removed⟩

/-- A lookup answers from the map. -/
theorem lookup (holds : Holds tree (2 * bytes) entries) (fixed : encoder.FixedLength bytes) (key : K) :
    ∃ visited, tree.lookup encoder key = some (lookupAnswer (entries (encoder.path key)), visited) := by
  obtain ⟨zero, trie, represented, shape, rfl⟩ := holds
  have length := fixed.length_path key
  obtain ⟨visited, ran⟩ := lookupNode_represents zero (2 * bytes + 1) represented shape length
    (Nat.lt_succ_self _) []
  refine ⟨visited, ?_⟩
  change lookupNode tree.dataSource ((encoder.path key).length + 1) tree.rootNode (encoder.path key) [] = _
  rw [length, ran]

/-- The map determines the root hash. -/
theorem root_eq {other : PatriciaTree D} {depth : Nat} (holds : Holds tree depth entries)
    (otherHolds : Holds other depth entries) : tree.root = other.root := by
  obtain ⟨_, trie, represented, shape, found⟩ := holds
  obtain ⟨_, trie', represented', shape', found'⟩ := otherHolds
  have same := shape.ext shape' (found.trans found'.symm)
  unfold PatriciaTree.root
  rw [represented.hash_eq, represented'.hash_eq, same]

end Holds

/-- The shape of a node depends only on the trie that it stands for. -/
theorem resolve_eq {source other : D} (zero : DataSource.get source zeroHash = .empty)
    (otherZero : DataSource.get other zeroHash = .empty) (fuel : Nat) {trie : NodeTrie}
    {node otherNode : TreeNode} (represented : Represents source trie node)
    (otherRepresented : Represents other trie otherNode) : resolve source fuel node = resolve other fuel otherNode := by
  induction fuel generalizing trie node otherNode with
  | zero => rfl
  | succ fuel ih =>
    cases trie with
    | empty => rw [show node = _ from represented, show otherNode = _ from otherRepresented]; rfl
    | leaf path value =>
      rw [show node = _ from represented, show otherNode = _ from otherRepresented]; rfl
    | branch path children =>
      obtain ⟨branchNode, rfl, rfl, linked⟩ := represented.exists_branch
      obtain ⟨otherBranch, rfl, same, otherLinked⟩ := otherRepresented.exists_branch
      have below : ∀ index, resolve source fuel (getLinkedNode source branchNode index) =
          resolve other fuel (getLinkedNode other otherBranch index) := fun index =>
        ih (linked.getLinkedNode zero index) (otherLinked.getLinkedNode otherZero index)
      change RadixTrie.branch branchNode.path _ = RadixTrie.branch otherBranch.path _
      rw [same]
      exact congrArg _ (funext below)

/-- Every node of a represented tree stands for a canonical trie. -/
theorem PartOf.represents {source : D} (zero : DataSource.get source zeroHash = .empty)
    {trie : NodeTrie} {root node : TreeNode} {depth : Nat} (represented : Represents source trie root)
    (shape : trie.Canonical depth) (part : PartOf source root node) :
    ∃ (below : NodeTrie) (height : Nat), Represents source below node ∧ below.Canonical height := by
  induction part with
  | root => exact ⟨trie, depth, represented, shape⟩
  | @link branchNode part index ih =>
    obtain ⟨below, height, nodeRepresented, nodeShape⟩ := ih
    cases below with
    | empty => cases nodeRepresented
    | leaf path value => cases nodeRepresented
    | branch path children =>
      obtain ⟨_, linked⟩ := represents_ofBranch.mp nodeRepresented
      exact ⟨_, _, linked.getLinkedNode zero index, nodeShape.2.1 index⟩

/-- A branch that stands for a canonical trie has at least two links. -/
theorem LinksRepresent.two_le_numLinks {source : D} {path : TreeNodePath}
    {children : Nibble → NodeTrie} {branchNode : BranchTreeNode} {depth : Nat}
    (linked : LinksRepresent source children branchNode)
    (shape : (RadixTrie.branch path children).Canonical depth) : 2 ≤ branchNode.numLinks := by
  obtain ⟨_, _, left, right, different, presentLeft, presentRight⟩ := shape
  have marked : ∀ index, children index ≠ .empty → branchNode.linkSet index = true := by
    intro index present
    rw [linked.linkSet index]
    simpa using present
  unfold BranchTreeNode.numLinks
  rw [List.countP_eq_length_filter]
  have nodup : ([left, right] : List (Fin 16)).Nodup := by simp [different]
  have inside : [left, right] ⊆ (List.finRange 16).filter branchNode.linkSet := by
    intro index chosen
    simp only [List.mem_cons, List.not_mem_nil, or_false] at chosen
    rcases chosen with rfl | rfl
    · simp [marked _ presentLeft]
    · simp [marked _ presentRight]
  exact (nodup.subperm inside).length_le

end Holding

section Histories

variable {K V : Type}

/-- An encoded history acts on paths and hashes. -/
def TreeUpdate.encode (encoder : Encoder K V) : TreeUpdate K V → TreeUpdate TreeNodePath Hash256
  | .set key value => .set (encoder.path key) (encoder.encodeValue value)
  | .unset key => .unset (encoder.path key)

def TreeOperation.encode (encoder : Encoder K V) : TreeOperation K V → TreeOperation TreeNodePath Hash256
  | .update change => .update (change.encode encoder)
  | .saveAll => .saveAll
  | .reload => .reload

theorem TreeUpdate.key_encode (encoder : Encoder K V) (change : TreeUpdate K V) :
    (change.encode encoder).key = encoder.path change.key := by
  cases change <;> rfl

theorem TreeUpdate.value_encode (encoder : Encoder K V) (change : TreeUpdate K V) :
    (change.encode encoder).value = change.value.map encoder.encodeValue := by
  cases change <;> rfl

/-- Entries encode a map if they hold the values of its keys at their paths and nothing else. -/
structure Encodes (encoder : Encoder K V) (keys : Set K) (entries : TreeNodePath → Option Hash256)
    (map : K → Option V) : Prop where
  inside : ∀ key ∈ keys, entries (encoder.path key) = (map key).map encoder.encodeValue
  outside : ∀ path, path ∉ encoder.path '' keys → entries path = none

namespace Encodes

variable {encoder : Encoder K V} {keys : Set K} {entries : TreeNodePath → Option Hash256}
  {map : K → Option V}

theorem empty (encoder : Encoder K V) (keys : Set K) : Encodes encoder keys (fun _ => none) fun _ => none :=
  ⟨fun _ _ => rfl, fun _ _ => rfl⟩

/-- A map has only one encoding. -/
theorem unique {other : TreeNodePath → Option Hash256} (first : Encodes encoder keys entries map)
    (second : Encodes encoder keys other map) : entries = other := by
  funext path
  by_cases touched : path ∈ encoder.path '' keys
  · obtain ⟨key, inside, rfl⟩ := touched
    rw [first.inside key inside, second.inside key inside]
  · rw [first.outside path touched, second.outside path touched]

variable [DecidableEq K]

/-- An update changes the map and its encoding alike. -/
theorem update (encodes : Encodes encoder keys entries map) (apart : Set.InjOn encoder.encodeKey keys)
    {change : TreeUpdate K V} (touched : change.key ∈ keys) :
    Encodes encoder keys ((change.encode encoder).applyMap entries) (change.applyMap map) := by
  unfold TreeUpdate.applyMap
  rw [TreeUpdate.key_encode, TreeUpdate.value_encode]
  constructor
  · intro key inside
    by_cases same : key = change.key
    · rw [same, Function.update_self, Function.update_self]
    · have paths : encoder.path key ≠ encoder.path change.key := fun equal =>
        same (apart inside touched (TreeNodePath.ofKey_injective equal))
      rw [Function.update_of_ne paths, Function.update_of_ne same, encodes.inside key inside]
  · intro path missing
    have different : path ≠ encoder.path change.key := by
      rintro rfl
      exact missing ⟨change.key, touched, rfl⟩
    rw [Function.update_of_ne different, encodes.outside path missing]

/-- A history changes the map and its encoding alike. -/
theorem foldl (encodes : Encodes encoder keys entries map) (apart : Set.InjOn encoder.encodeKey keys)
    (operations : List (TreeOperation K V)) (touched : ∀ key ∈ TreeOperation.touchedKeys operations, key ∈ keys) :
    Encodes encoder keys
      ((operations.map (TreeOperation.encode encoder)).foldl TreeOperation.applyMap entries)
      (operations.foldl TreeOperation.applyMap map) := by
  induction operations generalizing entries map with
  | nil => exact encodes
  | cons operation operations ih =>
    cases operation with
    | saveAll => exact ih encodes touched
    | reload => exact ih encodes touched
    | update change =>
      exact ih (encodes.update apart (touched change.key List.mem_cons_self))
        fun key inside => touched key (List.mem_cons_of_mem change.key inside)

end Encodes

end Histories

section Runs

variable [Sha3] {D : Type} [DataSource D] {K V : Type}

/-- An update of a tree updates the map that the tree holds. -/
theorem Holds.applyUpdate {tree : PatriciaTree D} {bytes : Nat} {entries : TreeNodePath → Option Hash256} {encoder : Encoder K V}
    (holds : Holds tree (2 * bytes) entries) (fixed : encoder.FixedLength bytes) (change : TreeUpdate K V) :
    ∃ tree', tree.applyUpdate encoder change = some tree' ∧ tree'.dataSource = tree.dataSource ∧
      Holds tree' (2 * bytes) ((change.encode encoder).applyMap entries) := by
  cases change with
  | set key value => exact holds.set fixed key value
  | unset key =>
    obtain ⟨found, tree', ran, source, _, _, holds'⟩ := holds.unset fixed key
    exact ⟨tree', by simp [PatriciaTree.applyUpdate, ran], source, holds'⟩

/-- A run of updates needs no assumption about the digest. -/
theorem Holds.run_updates {tree : PatriciaTree D} {bytes : Nat} {entries : TreeNodePath → Option Hash256} {encoder : Encoder K V}
    (holds : Holds tree (2 * bytes) entries) (fixed : encoder.FixedLength bytes) (changes : List (TreeUpdate K V)) :
    ∃ tree', tree.run encoder (changes.map .update) = some tree' ∧
      Holds tree' (2 * bytes) (((changes.map TreeOperation.update).map (TreeOperation.encode encoder)).foldl
        TreeOperation.applyMap entries) := by
  induction changes generalizing tree entries with
  | nil => exact ⟨tree, rfl, holds⟩
  | cons change changes ih =>
    obtain ⟨next, ran, _, nextHolds⟩ := holds.applyUpdate fixed change
    obtain ⟨tree', rest, finalHolds⟩ := ih nextHolds
    refine ⟨tree', ?_, finalHolds⟩
    simp only [PatriciaTree.run, List.map_cons, List.foldlM_cons, PatriciaTree.apply, ran] at rest ⊢
    exact rest

/-- These messages are hashed for a tree and for its data source. -/
def treeMessages (tree : PatriciaTree D) : Set (List UInt8) :=
  sourceMessages tree.dataSource ∪ tree.rootNode.messages

/-- These messages are hashed for all trees of a run. -/
def runMessages (encoder : Encoder K V) (tree : PatriciaTree D) : List (TreeOperation K V) → Set (List UInt8)
  | [] => treeMessages tree
  | operation :: operations =>
    treeMessages tree ∪
      match tree.apply encoder operation with
      | some next => runMessages encoder next operations
      | none => ∅

theorem runMessages_cons {encoder : Encoder K V} {tree next : PatriciaTree D}
    {operation : TreeOperation K V} (ran : tree.apply encoder operation = some next)
    (operations : List (TreeOperation K V)) : runMessages encoder tree (operation :: operations) =
      treeMessages tree ∪ runMessages encoder next operations := by
  simp only [runMessages, ran]

theorem treeMessages_subset_run (encoder : Encoder K V) (tree : PatriciaTree D)
    (operations : List (TreeOperation K V)) : treeMessages tree ⊆ runMessages encoder tree operations := by
  cases operations with
  | nil => exact Set.Subset.rfl
  | cons operation operations => exact Set.subset_union_left

/-- A sound tree holds a map over a closed data source. -/
structure Sound (tree : PatriciaTree D) (depth : Nat) (entries : TreeNodePath → Option Hash256) : Prop where
  closed : SourceClosed tree.dataSource
  holds : Holds tree depth entries

/-- Saving changes neither the root nor the map. -/
theorem Sound.saveAll [LawfulDataSource D] {tree : PatriciaTree D} {depth : Nat}
    {entries : TreeNodePath → Option Hash256} (sound : Sound tree depth entries)
    (free : CollisionFree (treeMessages tree)) : ∃ tree', tree.saveAll = some tree' ∧ Sound tree' depth entries := by
  obtain ⟨closed, zero, trie, represented, shape, found⟩ := sound
  unfold PatriciaTree.saveAll
  rw [represented.isEmpty]
  by_cases empty : trie = .empty
  · exact ⟨tree, by simp [empty, RadixTrie.isEmpty], closed, zero, trie, represented, shape, found⟩
  · obtain ⟨saved, ran, extended, _⟩ := saveAllNode_represents free represented empty closed
      Set.subset_union_left Set.subset_union_right
    refine ⟨{ tree with dataSource := saved }, ?_, extended.closed,
      extended.closed.get_zero (free.mono extended.included), trie, represented.mono extended.keeps,
      shape, found⟩
    have nonempty : trie.isEmpty = false := by simpa using empty
    simp [nonempty, ran]

/-- A reloaded root stands for the same map because the hash determines the trie. -/
theorem Sound.reload {tree : PatriciaTree D} {depth : Nat}
    {entries : TreeNodePath → Option Hash256} (sound : Sound tree depth entries)
    (free : CollisionFree (treeMessages tree)) : Sound (tree.tryLoad tree.root).2 depth entries := by
  obtain ⟨closed, zero, trie, represented, shape, found⟩ := sound
  have hashed : tree.root = trieHash trie := represented.hash_eq
  unfold PatriciaTree.tryLoad
  rcases closed tree.root with absent | ⟨stored, nonempty, same, loaded, inSource⟩
  · simp only [absent, TreeNode.isEmpty, if_true]
    exact ⟨closed, zero, trie, represented, shape, found⟩
  · have equal := free.trieHash_injective (inSource.messages_subset.trans Set.subset_union_left)
      represented.messages_subset (same.trans hashed)
    subst equal
    have occupied : (compactNode stored).isEmpty = false := by
      rw [compactNode_isEmpty]
      simpa using nonempty
    simp only [loaded, occupied]
    exact ⟨closed, zero, stored, inSource.represents, shape, found⟩

/-- One operation changes the map only by its update. -/
theorem Sound.apply [LawfulDataSource D] {tree : PatriciaTree D} {bytes : Nat}
    {entries : TreeNodePath → Option Hash256} {encoder : Encoder K V}
    (sound : Sound tree (2 * bytes) entries) (fixed : encoder.FixedLength bytes)
    (free : CollisionFree (treeMessages tree)) (operation : TreeOperation K V) :
    ∃ tree', tree.apply encoder operation = some tree' ∧
      Sound tree' (2 * bytes) (TreeOperation.applyMap entries (operation.encode encoder)) := by
  cases operation with
  | update change =>
    obtain ⟨tree', ran, source, holds⟩ := sound.holds.applyUpdate fixed change
    exact ⟨tree', ran, source ▸ sound.closed, holds⟩
  | saveAll => exact sound.saveAll free
  | reload => exact ⟨_, rfl, sound.reload free⟩

/-- A run leads to a sound tree for the final map. -/
theorem Sound.run [LawfulDataSource D] {tree : PatriciaTree D} {bytes : Nat}
    {entries : TreeNodePath → Option Hash256} {encoder : Encoder K V}
    (sound : Sound tree (2 * bytes) entries) (fixed : encoder.FixedLength bytes)
    (operations : List (TreeOperation K V)) (free : CollisionFree (runMessages encoder tree operations)) :
    ∃ tree', tree.run encoder operations = some tree' ∧
      Sound tree' (2 * bytes) ((operations.map (TreeOperation.encode encoder)).foldl
        TreeOperation.applyMap entries) := by
  induction operations generalizing tree entries with
  | nil => exact ⟨tree, rfl, sound⟩
  | cons operation operations ih =>
    obtain ⟨next, ran, nextSound⟩ := sound.apply fixed
      (free.mono (treeMessages_subset_run encoder tree _)) operation
    have inRun : runMessages encoder next operations ⊆
        runMessages encoder tree (operation :: operations) := by
      rw [runMessages_cons ran]
      exact Set.subset_union_right
    obtain ⟨tree', rest, finalSound⟩ := ih nextSound (free.mono inRun)
    refine ⟨tree', ?_, finalSound⟩
    simp only [PatriciaTree.run, List.foldlM_cons, ran] at rest ⊢
    exact rest

/-- The empty tree over a closed data source is sound. -/
theorem sound_empty {source : D} (closed : SourceClosed source) {encoder : Encoder K V} (depth : Nat)
    {operations : List (TreeOperation K V)} (free : CollisionFree (runMessages encoder (PatriciaTree.empty source) operations)) :
    Sound (PatriciaTree.empty source) depth fun _ => none := by
  refine ⟨closed, holds_empty (closed.get_zero (free.mono ?_)) depth⟩
  exact Set.subset_union_left.trans (treeMessages_subset_run encoder (PatriciaTree.empty source) operations)

/-- Histories with one final map end in trees of one shape in which every branch forks. -/
theorem run_canonical [DecidableEq K] [LawfulDataSource D] {source other : D} (closed : SourceClosed source)
    (otherClosed : SourceClosed other) {encoder : Encoder K V} {bytes : Nat}
    (fixed : encoder.FixedLength bytes) (first second : List (TreeOperation K V)) (apart : Set.InjOn encoder.encodeKey
      {key | key ∈ TreeOperation.touchedKeys first ∨ key ∈ TreeOperation.touchedKeys second})
    (free : CollisionFree (runMessages encoder (PatriciaTree.empty source) first))
    (otherFree : CollisionFree (runMessages encoder (PatriciaTree.empty other) second))
    (same : TreeOperation.finalMap first = TreeOperation.finalMap second) :
    ∃ tree tree' : PatriciaTree D, (PatriciaTree.empty source).run encoder first = some tree ∧
      (PatriciaTree.empty other).run encoder second = some tree' ∧
      (∀ depth, resolve tree.dataSource depth tree.rootNode = resolve tree'.dataSource depth tree'.rootNode) ∧
      tree.root = tree'.root ∧
      (∀ branchNode, PartOf tree.dataSource tree.rootNode (.ofBranch branchNode) → 2 ≤ branchNode.numLinks) ∧
      ∀ branchNode, PartOf tree'.dataSource tree'.rootNode (.ofBranch branchNode) → 2 ≤ branchNode.numLinks := by
  have forks : ∀ (tree : PatriciaTree D) (depth : Nat) entries, Holds tree depth entries →
      ∀ branchNode, PartOf tree.dataSource tree.rootNode (.ofBranch branchNode) → 2 ≤ branchNode.numLinks := by
    rintro tree depth entries ⟨zero, trie, represented, shape, _⟩ branchNode part
    obtain ⟨below, height, nodeRepresented, nodeShape⟩ := part.represents zero represented shape
    cases below with
    | empty => cases nodeRepresented
    | leaf path value => cases nodeRepresented
    | branch path children =>
      exact (represents_ofBranch.mp nodeRepresented).2.two_le_numLinks nodeShape
  obtain ⟨tree, ran, sound⟩ := (sound_empty closed _ free).run fixed first free
  obtain ⟨tree', ran', sound'⟩ := (sound_empty otherClosed _ otherFree).run fixed second otherFree
  have encoded := (Encodes.empty encoder _).foldl apart first fun _ => .inl
  have encoded' := (Encodes.empty encoder _).foldl apart second fun _ => .inr
  unfold TreeOperation.finalMap at same
  rw [← same] at encoded'
  rw [encoded'.unique encoded] at sound'
  refine ⟨tree, tree', ran, ran', ?_, sound.holds.root_eq sound'.holds, forks _ _ _ sound.holds, forks _ _ _ sound'.holds⟩
  obtain ⟨zero, trie, represented, shape, found⟩ := sound.holds
  obtain ⟨zero', trie', represented', shape', found'⟩ := sound'.holds
  have equal := shape.ext shape' (found.trans found'.symm)
  subst equal
  exact fun depth => resolve_eq zero zero' depth represented represented'

end Runs

section Leaves

/-- This encoder uses one byte as key and stores hashes. -/
def byteEncoder : Encoder UInt8 Hash256 := ⟨fun key => [key], id⟩

theorem byteEncoder_fixedLength : byteEncoder.FixedLength 1 := fun _ => rfl

theorem byteEncoder_injOn (keys : Set UInt8) : Set.InjOn byteEncoder.encodeKey keys :=
  fun _ _ _ _ same => List.singleton_inj.mp same

theorem memoryDataSource_empty_closed [Sha3] : SourceClosed MemoryDataSource.empty := fun _ => .inl rfl

end Leaves

section Listings

/-- The nodes of a source in memory can be listed. -/
class Listed (D : Type) [DataSource D] where
  nodes : D → List TreeNode
  get_mem : ∀ source hash, DataSource.get source hash = .empty ∨ DataSource.get source hash ∈ nodes source

theorem mem_of_lookup {N : Type} {nodes : List (Hash256 × N)} {hash : Hash256} {node : N}
    (found : nodes.lookup hash = some node) : ∃ entry ∈ nodes, entry.2 = node := by
  obtain ⟨before, after, rfl, _⟩ := List.lookup_eq_some_iff.mp found
  exact ⟨_, List.mem_append_right _ List.mem_cons_self, rfl⟩

theorem MemoryDataSource.get_mem (source : MemoryDataSource) (hash : Hash256) : source.get hash = .empty ∨
    source.get hash ∈ source.leafNodes.map (TreeNode.leaf ·.2) ++ source.branchNodes.map (TreeNode.ofBranch ·.2) := by
  rw [MemoryDataSource.get]
  cases leaf : source.leafNodes.lookup hash with
  | some node =>
    obtain ⟨entry, inside, rfl⟩ := mem_of_lookup leaf
    exact .inr (List.mem_append_left _ (List.mem_map_of_mem inside))
  | none =>
    cases branch : source.branchNodes.lookup hash with
    | none => exact .inl rfl
    | some node =>
      obtain ⟨entry, inside, rfl⟩ := mem_of_lookup branch
      exact .inr (List.mem_append_right _ (List.mem_map_of_mem inside))

instance : Listed MemoryDataSource := ⟨_, MemoryDataSource.get_mem⟩

variable {D : Type} [DataSource D] [Listed D]

theorem ReadThroughMemoryDataSource.get_mem (source : ReadThroughMemoryDataSource D) (hash : Hash256) : source.get hash = .empty ∨
    source.get hash ∈ Listed.nodes source.memory ++ Listed.nodes source.backing := by
  by_cases missing : (source.memory.get hash).isEmpty = true
  · rw [show source.get hash = DataSource.get source.backing hash from if_pos missing]
    exact (Listed.get_mem source.backing hash).imp_right (List.mem_append_right _)
  · rw [show source.get hash = source.memory.get hash from if_neg missing]
    exact (Listed.get_mem source.memory hash).imp_right (List.mem_append_left _)

instance : Listed (ReadThroughMemoryDataSource D) := ⟨_, ReadThroughMemoryDataSource.get_mem⟩

variable [Sha3]

mutual

/-- The messages of a node are listed in the order of its links. -/
def TreeNode.listed : TreeNode → List (List UInt8)
  | .empty => []
  | .leaf node => [leafMessage node]
  | .branch path links linkedNodes _ =>
    branchMessage path (fun index => linkHash (links index) (linkedNodes index)) ::
      (List.finRange 16).flatMap fun index => linkedListed (linkedNodes index)
  termination_by structural node => node

def linkedListed : Option TreeNode → List (List UInt8)
  | none => []
  | some node => node.listed
  termination_by structural linkedNode => linkedNode

end

mutual

theorem TreeNode.mem_listed : ∀ (node : TreeNode) (message : List UInt8), message ∈ node.messages → message ∈ node.listed
  | .empty, _, inside => inside.elim
  | .leaf _, _, inside => List.mem_singleton.mpr inside
  | .branch _ _ linkedNodes _, message, inside => by
    rcases inside with rfl | inside
    · exact List.mem_cons_self
    · obtain ⟨index, inLink⟩ := Set.mem_iUnion.mp inside
      exact List.mem_cons_of_mem _ (List.mem_flatMap.mpr
        ⟨index, List.mem_finRange _, mem_linkedListed (linkedNodes index) message inLink⟩)

theorem mem_linkedListed : ∀ (linkedNode : Option TreeNode) (message : List UInt8),
    message ∈ linkedMessages linkedNode → message ∈ linkedListed linkedNode
  | none, _, inside => inside.elim
  | some node, message, inside => node.mem_listed message inside

end

variable {K V : Type} {known : List (List UInt8)} {encoder : Encoder K V}

/-- Every message of a source and of a node above it is known. -/
def treeWithin (known : List (List UInt8)) (tree : PatriciaTree D) : Bool :=
  (tree.rootNode :: Listed.nodes tree.dataSource).all fun node => node.listed.all known.contains

theorem treeMessages_within {tree : PatriciaTree D} (within : treeWithin known tree = true) :
    treeMessages tree ⊆ {message | message ∈ known} := by
  have each : ∀ node ∈ tree.rootNode :: Listed.nodes tree.dataSource, ∀ message ∈ node.messages, message ∈ known := by
    intro node inside message inNode
    have checked := List.all_eq_true.mp (List.all_eq_true.mp within node inside) message (node.mem_listed message inNode)
    exact List.contains_iff_mem.mp checked
  rintro message (inSource | inRoot)
  · obtain ⟨hash, inNode⟩ := Set.mem_iUnion.mp inSource
    rcases Listed.get_mem tree.dataSource hash with empty | inside
    · rw [empty] at inNode
      exact inNode.elim
    · exact each _ (List.mem_cons_of_mem _ inside) message inNode
  · exact each _ List.mem_cons_self message inRoot

def runWithin (known : List (List UInt8)) (encoder : Encoder K V) (tree : PatriciaTree D) : List (TreeOperation K V) → Bool
  | [] => treeWithin known tree
  | operation :: operations =>
    treeWithin known tree && (tree.apply encoder operation).all fun next => runWithin known encoder next operations

theorem runMessages_within {tree : PatriciaTree D} {operations : List (TreeOperation K V)}
    (within : runWithin known encoder tree operations = true) : runMessages encoder tree operations ⊆ {message | message ∈ known} := by
  induction operations generalizing tree with
  | nil => exact treeMessages_within within
  | cons operation operations ih =>
    obtain ⟨here, later⟩ := Bool.and_eq_true_iff.mp within
    refine Set.union_subset (treeMessages_within here) ?_
    cases applied : tree.apply encoder operation with
    | none => exact Set.empty_subset _
    | some next =>
      rw [applied] at later
      exact ih later

end Listings

/-- The digests of the messages that the histories below hash. -/
def digests : List (List UInt8 × Hash256) :=
  let first := Keccak.ofNat 0xa32a4ed58ae6c6b50f4cc28be7e9eef7b820ef5bb543bcf85ed84125a520f378
  let second := Keccak.ofNat 0x15bc9903af6b74c5e0e7317181e66e75b83a6fa887214cc1ca0ca41860a6b1ea
  [(leafMessage ⟨[1, 2], Vector.replicate 32 1⟩, Keccak.ofNat 0x366b3364be64aed2d60898c36d6446f781589d3555dd1a12ca549e38b6fab3b7),
    (leafMessage ⟨[1, 3], Vector.replicate 32 2⟩, Keccak.ofNat 0xd1ec5a2530bb6d8f1529edb439ff8fb8221387cc3a59548f12bdc6781f8e1ae5),
    (leafMessage ⟨[], Vector.replicate 32 1⟩, first), (leafMessage ⟨[], Vector.replicate 32 2⟩, second),
    (branchMessage [1] (Function.update (Function.update (fun _ => zeroHash) 2 first) 3 second),
      Keccak.ofNat 0x10d88af2e0dc46ad7d68ea02310a09f06f1f36f6dc1e93429e90f4cc2886aa34)]

abbrev recordedDigest : Sha3 := ⟨Keccak.recorded digests⟩

theorem recordedDigest_eq : recordedDigest = sha3Digest := congrArg Sha3.mk (Keccak.recorded_eq (by decide +kernel))

theorem recordedDigest_collisionFree : letI := recordedDigest
    CollisionFree {message | message ∈ digests.map Prod.fst} := by
  let := recordedDigest
  have apart : ∀ message ∈ digests.map Prod.fst, Sha3.sha3_256 message ≠ zeroHash ∧
      ∀ other ∈ digests.map Prod.fst, Sha3.sha3_256 message = Sha3.sha3_256 other → message = other := by decide +kernel
  exact ⟨fun message inside other inside' => (apart message inside).2 other inside', fun message inside => (apart message inside).1⟩

/-- Siblings are saved, removed and set again. -/
def siblings : List (TreeOperation UInt8 Hash256) :=
  [.update (.set 0x12 (Vector.replicate 32 1)), .update (.set 0x13 (Vector.replicate 32 2)), .saveAll, .reload,
    .update (.unset 0x12), .update (.set 0x12 (Vector.replicate 32 1))]

/-- Siblings that were saved, loaded and set again equal siblings that were set in another order. -/
theorem run_canonical_siblings : letI := sha3Digest
    ∃ tree tree' : PatriciaTree MemoryDataSource, (PatriciaTree.empty MemoryDataSource.empty).run byteEncoder siblings = some tree ∧
      (PatriciaTree.empty MemoryDataSource.empty).run byteEncoder
        [.update (.set 0x13 (Vector.replicate 32 2)), .update (.set 0x12 (Vector.replicate 32 1))] = some tree' ∧
      tree.root = tree'.root := by
  rw [← recordedDigest_eq]
  let := recordedDigest
  obtain ⟨tree, tree', ran, ran', _, root, _⟩ := run_canonical memoryDataSource_empty_closed
    memoryDataSource_empty_closed byteEncoder_fixedLength siblings
    [.update (.set 0x13 (Vector.replicate 32 2)), .update (.set 0x12 (Vector.replicate 32 1))] (byteEncoder_injOn _)
    (recordedDigest_collisionFree.mono (runMessages_within (by decide +kernel)))
    (recordedDigest_collisionFree.mono (runMessages_within (by decide +kernel))) (by
      funext key
      by_cases first : key = 0x12 <;> by_cases second : key = 0x13 <;>
        simp [siblings, TreeOperation.finalMap, TreeOperation.applyMap, TreeUpdate.applyMap, TreeUpdate.key, TreeUpdate.value, first, second])
  exact ⟨tree, tree', ran, ran', root⟩

section Commitments

variable [Sha3] {D : Type} [DataSource D] {K V : Type}

/-- The messages of the last tree are hashed in the run. -/
theorem treeMessages_subset_last {encoder : Encoder K V} {tree last : PatriciaTree D} {operations : List (TreeOperation K V)}
    (ran : tree.run encoder operations = some last) : treeMessages last ⊆ runMessages encoder tree operations := by
  induction operations generalizing tree with
  | nil =>
    obtain rfl := Option.some.inj ran
    exact Set.Subset.rfl
  | cons operation operations ih =>
    rw [PatriciaTree.run, List.foldlM_cons] at ran
    obtain ⟨next, applied, rest⟩ := Option.bind_eq_some_iff.mp ran
    rw [runMessages_cons applied]
    exact (ih rest).trans Set.subset_union_right

/-- The root after any history commits to the values of all keys. -/
theorem root_eq_iff [DecidableEq K] [LawfulDataSource D] {source other : D} (closed : SourceClosed source)
    (otherClosed : SourceClosed other) {encoder : Encoder K V} {bytes : Nat}
    (fixed : encoder.FixedLength bytes) (first second : List (TreeOperation K V)) (apart : Set.InjOn encoder.encodeKey
      {key | key ∈ TreeOperation.touchedKeys first ∨ key ∈ TreeOperation.touchedKeys second})
    (free : CollisionFree (runMessages encoder (PatriciaTree.empty source) first ∪
      runMessages encoder (PatriciaTree.empty other) second)) :
    ∃ tree tree' : PatriciaTree D, (PatriciaTree.empty source).run encoder first = some tree ∧
      (PatriciaTree.empty other).run encoder second = some tree' ∧
      (tree.root = tree'.root ↔ ∀ key, key ∈ TreeOperation.touchedKeys first ∨ key ∈ TreeOperation.touchedKeys second →
          (TreeOperation.finalMap first key).map encoder.encodeValue =
            (TreeOperation.finalMap second key).map encoder.encodeValue) := by
  have firstFree := free.mono Set.subset_union_left
  have secondFree := free.mono Set.subset_union_right
  obtain ⟨tree, ran, sound⟩ := (sound_empty closed _ firstFree).run fixed first firstFree
  obtain ⟨tree', ran', sound'⟩ := (sound_empty otherClosed _ secondFree).run fixed second secondFree
  have encoded := (Encodes.empty encoder _).foldl apart first fun _ => .inl
  have encoded' := (Encodes.empty encoder _).foldl apart second fun _ => .inr
  refine ⟨tree, tree', ran, ran', fun same key touched => ?_, fun same => ?_⟩
  · obtain ⟨_, trie, represented, _, found⟩ := sound.holds
    obtain ⟨_, trie', represented', _, found'⟩ := sound'.holds
    have equal : trie = trie' := free.trieHash_injective
      (represented.messages_subset.trans ((treeMessages_subset_last ran).trans Set.subset_union_left))
      (represented'.messages_subset.trans ((treeMessages_subset_last ran').trans Set.subset_union_right))
      (represented.hash_eq.symm.trans (same.trans represented'.hash_eq))
    rw [← found] at encoded
    rw [← found', ← equal] at encoded'
    exact (encoded.inside key touched).symm.trans (encoded'.inside key touched)
  · have entries := encoded.unique (.mk (fun key touched => (encoded'.inside key touched).trans (same key touched).symm)
      encoded'.outside)
    rw [entries] at sound
    exact sound.holds.root_eq sound'.holds

end Commitments

/-- The root shows that a sibling was removed. -/
theorem root_eq_iff_removed : letI := sha3Digest
    ∃ tree tree' : PatriciaTree MemoryDataSource, (PatriciaTree.empty MemoryDataSource.empty).run byteEncoder siblings = some tree ∧
      (PatriciaTree.empty MemoryDataSource.empty).run byteEncoder (siblings ++ [.update (.unset 0x12)]) = some tree' ∧
      tree.root ≠ tree'.root := by
  rw [← recordedDigest_eq]
  let := recordedDigest
  obtain ⟨tree, tree', ran, ran', commits⟩ := root_eq_iff memoryDataSource_empty_closed
    memoryDataSource_empty_closed byteEncoder_fixedLength siblings (siblings ++ [.update (.unset 0x12)]) (byteEncoder_injOn _)
    (recordedDigest_collisionFree.mono (Set.union_subset (runMessages_within (by decide +kernel)) (runMessages_within (by decide +kernel))))
  refine ⟨tree, tree', ran, ran', fun same => ?_⟩
  have equal := commits.mp same 0x12 (.inl List.mem_cons_self)
  exact absurd equal (by decide)

section Lookups

variable [Sha3] {D : Type} [DataSource D] {K V : Type}

/-- A tree that was changed by updates answers lookups and removals like its final map. -/
theorem lookup_unset_finalMap [DecidableEq K] {source : D}
    (zero : DataSource.get source zeroHash = .empty) {encoder : Encoder K V} {bytes : Nat}
    (fixed : encoder.FixedLength bytes) (changes : List (TreeUpdate K V)) (key : K)
    (apart : Set.InjOn encoder.encodeKey {other | other = key ∨ other ∈ changes.map TreeUpdate.key}) :
    ∃ tree : PatriciaTree D, (PatriciaTree.empty source).run encoder (changes.map .update) = some tree ∧
      (∃ visited, tree.lookup encoder key = some
        (match TreeOperation.finalMap (changes.map .update) key with
          | some value => (encoder.encodeValue value, true)
          | none => (zeroHash, false), visited)) ∧
      ∃ found tree', tree.unset encoder key = some (found, tree') ∧
        (found = true ↔ ∃ value, TreeOperation.finalMap (changes.map .update) key = some value) ∧
        (found = false → tree' = tree) := by
  obtain ⟨tree, ran, holds⟩ := (holds_empty zero (2 * bytes)).run_updates fixed changes
  have touched : ∀ other ∈ TreeOperation.touchedKeys (changes.map .update), other = key ∨ other ∈ changes.map TreeUpdate.key := by
    intro other present
    simp only [TreeOperation.touchedKeys, List.filterMap_map] at present
    obtain ⟨change, inside, equal⟩ := List.mem_filterMap.mp present
    exact .inr (List.mem_map.mpr ⟨change, inside, by simpa using equal⟩)
  have entry := ((Encodes.empty encoder _).foldl apart _ touched).inside key (.inl rfl)
  obtain ⟨visited, looked⟩ := holds.lookup fixed key
  obtain ⟨found, tree', removed, _, answer, unchanged, _⟩ := holds.unset fixed key
  rw [entry] at looked answer
  refine ⟨tree, ran, ⟨visited, ?_⟩, found, tree', removed, ?_, unchanged⟩
  · rw [looked]
    unfold TreeOperation.finalMap
    cases List.foldl TreeOperation.applyMap (fun _ => none) (changes.map TreeOperation.update) key <;> rfl
  · rw [answer, Option.isSome_map, Option.isSome_iff_exists]
    rfl

end Lookups

/-- A key that was set and unset is no longer found, and its sibling is. -/
theorem lookup_unset_finalMap_siblings : letI := sha3Digest
    ∃ tree : PatriciaTree MemoryDataSource, (PatriciaTree.empty MemoryDataSource.empty).run byteEncoder
        ([TreeUpdate.set 0x12 (Vector.replicate 32 1), .set 0x13 (Vector.replicate 32 2), .unset 0x12].map .update) = some tree ∧
      ∃ visited, tree.lookup byteEncoder 0x13 = some ((Vector.replicate 32 2, true), visited) := by
  let := sha3Digest
  obtain ⟨tree, ran, ⟨visited, looked⟩, _⟩ := lookup_unset_finalMap
    (show DataSource.get MemoryDataSource.empty zeroHash = .empty from rfl) byteEncoder_fixedLength
    [TreeUpdate.set 0x12 (Vector.replicate 32 1), .set 0x13 (Vector.replicate 32 2), .unset 0x12] 0x13
    (byteEncoder_injOn _)
  exact ⟨tree, ran, visited, looked⟩

end Catapult.Tree
