import Catapult.Library.RadixTrie
import Catapult.Construction.Tree.PatriciaTree
import Catapult.Proof.Tree.NodeEncoding
import Mathlib.Data.Set.Lattice

/-
This file relates nodes, whose links may be hashes, to the tries that they stand for.
-/

namespace Catapult.Tree

/-- The resolved form of a tree has no hash links. -/
abbrev NodeTrie := RadixTrie Nibble Hash256

section Digest

variable [Sha3]

/-- The hash of a trie is the hash of every node that stands for it. -/
def trieHash : NodeTrie → Hash256
  | .empty => zeroHash
  | .leaf path value => Sha3.sha3_256 (leafMessage ⟨path, value⟩)
  | .branch path children => Sha3.sha3_256 (branchMessage path fun index => trieHash (children index))

/-- These messages are hashed for the nodes of a trie. -/
def trieMessages : NodeTrie → Set (List UInt8)
  | .empty => ∅
  | .leaf path value => {leafMessage ⟨path, value⟩}
  | .branch path children =>
    insert (branchMessage path fun index => trieHash (children index))
      (⋃ index, trieMessages (children index))

/-- The digest is collision free on a set of messages and never zero there. -/
structure CollisionFree (messages : Set (List UInt8)) : Prop where
  injective : Set.InjOn Sha3.sha3_256 messages
  nonzero : ∀ message ∈ messages, Sha3.sha3_256 message ≠ zeroHash

theorem CollisionFree.mono {messages larger : Set (List UInt8)} (free : CollisionFree larger)
    (included : messages ⊆ larger) : CollisionFree messages :=
  ⟨free.injective.mono included, fun message inside => free.nonzero message (included inside)⟩

/-- Every nonempty trie hashes a message of its own. -/
theorem exists_trieMessage (trie : NodeTrie) (nonempty : trie ≠ .empty) :
    ∃ message ∈ trieMessages trie, trieHash trie = Sha3.sha3_256 message := by
  cases trie with
  | empty => exact absurd rfl nonempty
  | leaf path value => exact ⟨_, rfl, rfl⟩
  | branch path children => exact ⟨_, Set.mem_insert _ _, rfl⟩

theorem CollisionFree.trieHash_ne_zero {messages : Set (List UInt8)} (free : CollisionFree messages)
    {trie : NodeTrie} (included : trieMessages trie ⊆ messages) (nonempty : trie ≠ .empty) : trieHash trie ≠ zeroHash := by
  obtain ⟨message, inside, equal⟩ := exists_trieMessage trie nonempty
  rw [equal]
  exact free.nonzero message (included inside)

theorem childMessages_subset {path : TreeNodePath} {children : Nibble → NodeTrie}
    {messages : Set (List UInt8)} (included : trieMessages (.branch path children) ⊆ messages)
    (index : Nibble) : trieMessages (children index) ⊆ messages :=
  fun _ inside => included (Set.mem_insert_of_mem _ (Set.mem_iUnion.mpr ⟨index, inside⟩))

/-- The root hash determines the whole trie if the digest has no collision. -/
theorem CollisionFree.trieHash_injective {messages : Set (List UInt8)} (free : CollisionFree messages)
    {first second : NodeTrie} (firstIncluded : trieMessages first ⊆ messages)
    (secondIncluded : trieMessages second ⊆ messages) (same : trieHash first = trieHash second) : first = second := by
  induction first generalizing second with
  | empty =>
    by_contra different
    exact free.trieHash_ne_zero secondIncluded (Ne.symm different) same.symm
  | leaf path value =>
    have inside : leafMessage ⟨path, value⟩ ∈ messages := firstIncluded rfl
    cases second with
    | empty => exact absurd same (free.trieHash_ne_zero firstIncluded (by simp))
    | leaf path' value' =>
      have equal := leafMessage_injective (free.injective inside (secondIncluded rfl) same)
      rw [LeafTreeNode.mk.injEq] at equal
      rw [equal.1, equal.2]
    | branch path' children' =>
      have equal := free.injective inside (secondIncluded (Set.mem_insert _ _)) same
      exact absurd equal (leafMessage_ne_branchMessage _ _ _)
  | branch path children ih =>
    have inside := firstIncluded (Set.mem_insert _ _)
    cases second with
    | empty => exact absurd same (free.trieHash_ne_zero firstIncluded (by simp))
    | leaf path' value' =>
      have equal := free.injective (secondIncluded rfl) inside same.symm
      exact absurd equal (leafMessage_ne_branchMessage _ _ _)
    | branch path' children' =>
      have equal := free.injective inside (secondIncluded (Set.mem_insert _ _)) same
      obtain ⟨paths, links⟩ := branchMessage_injective equal
      have childrenSame : children = children' := by
        funext index
        exact ih index (childMessages_subset firstIncluded index)
          (childMessages_subset secondIncluded index) (congrFun links index)
      rw [paths, childrenSame]

mutual

/-- These messages are hashed for a node and for the nodes that it holds in memory. -/
def TreeNode.messages : TreeNode → Set (List UInt8)
  | .empty => ∅
  | .leaf node => {leafMessage node}
  | .branch path links linkedNodes _ =>
    insert (branchMessage path fun index => linkHash (links index) (linkedNodes index))
      (⋃ index, linkedMessages (linkedNodes index))
  termination_by structural node => node

def linkedMessages : Option TreeNode → Set (List UInt8)
  | none => ∅
  | some node => node.messages
  termination_by structural linkedNode => linkedNode

end

/-- The saved form of a trie links every child by its hash. -/
def compactNode : NodeTrie → TreeNode
  | .empty => .empty
  | .leaf path value => .leaf ⟨path, value⟩
  | .branch path children =>
    .branch path (fun index => trieHash (children index)) (fun _ => none)
      (fun index => !(children index).isEmpty)

theorem compactNode_isEmpty (trie : NodeTrie) : (compactNode trie).isEmpty = trie.isEmpty := by
  cases trie <;> rfl

end Digest

variable [Sha3] {D : Type} [DataSource D]

/-- These messages are hashed for the nodes of a data source. -/
def sourceMessages (source : D) : Set (List UInt8) := ⋃ hash, (DataSource.get source hash).messages

/-- A stored trie can be loaded node by node from its root hash. -/
def Stored (source : D) : NodeTrie → Prop
  | .empty => True
  | .leaf path value =>
    DataSource.get source (trieHash (.leaf path value)) = compactNode (.leaf path value)
  | .branch path children =>
    DataSource.get source (trieHash (.branch path children)) = compactNode (.branch path children) ∧
      ∀ index, Stored source (children index)

/-- A node represents a trie if its links lead to the children of the trie. -/
def Represents (source : D) : NodeTrie → TreeNode → Prop
  | .empty, node => node = .empty
  | .leaf path value, node => node = .leaf ⟨path, value⟩
  | .branch path children, node =>
    ∃ links linkedNodes linkSet, node = .branch path links linkedNodes linkSet ∧
      ∀ index, linkSet index = !(children index).isEmpty ∧ (∀ child, linkedNodes index = some child →
          children index ≠ .empty ∧ Represents source (children index) child) ∧
        (linkedNodes index = none → links index = trieHash (children index) ∧ Stored source (children index))

/-- Every node of a well formed data source belongs to a stored trie. -/
def SourceClosed (source : D) : Prop :=
  ∀ hash, DataSource.get source hash = .empty ∨ ∃ trie : NodeTrie, trie ≠ .empty ∧ trieHash trie = hash ∧
      DataSource.get source hash = compactNode trie ∧ Stored source trie

/-- The links of a branch node lead to the children of a trie. -/
structure LinksRepresent (source : D) (children : Nibble → NodeTrie) (branchNode : BranchTreeNode) : Prop where
  linkSet : ∀ index, branchNode.linkSet index = !(children index).isEmpty
  pointer : ∀ index child, branchNode.linkedNodes index = some child →
    children index ≠ .empty ∧ Represents source (children index) child
  stored : ∀ index, branchNode.linkedNodes index = none →
    branchNode.links index = trieHash (children index) ∧ Stored source (children index)

theorem represents_ofBranch {source : D} {path : TreeNodePath} {children : Nibble → NodeTrie}
    {branchNode : BranchTreeNode} : Represents source (.branch path children) (.ofBranch branchNode) ↔
      branchNode.path = path ∧ LinksRepresent source children branchNode := by
  constructor
  · rintro ⟨links, linkedNodes, linkSet, same, linked⟩
    simp only [TreeNode.ofBranch, TreeNode.branch.injEq] at same
    obtain ⟨rfl, rfl, rfl, rfl⟩ := same
    exact ⟨rfl, fun index => (linked index).1, fun index => (linked index).2.1,
      fun index => (linked index).2.2⟩
  · rintro ⟨rfl, linked⟩
    exact ⟨_, _, _, rfl, fun index => ⟨linked.linkSet index, linked.pointer index, linked.stored index⟩⟩

/-- Only branch nodes represent branches. -/
theorem Represents.exists_branch {source : D} {path : TreeNodePath} {children : Nibble → NodeTrie}
    {node : TreeNode} (represented : Represents source (.branch path children) node) :
    ∃ branchNode : BranchTreeNode, node = .ofBranch branchNode ∧ branchNode.path = path ∧
      LinksRepresent source children branchNode := by
  obtain ⟨links, linkedNodes, linkSet, rfl, linked⟩ := represented
  exact ⟨⟨path, links, linkedNodes, linkSet⟩, rfl, rfl, fun index => (linked index).1,
    fun index => (linked index).2.1, fun index => (linked index).2.2⟩

/-- A represented node is empty exactly if its trie is. -/
theorem Represents.isEmpty {source : D} {trie : NodeTrie} {node : TreeNode}
    (represented : Represents source trie node) : node.isEmpty = trie.isEmpty := by
  cases trie with
  | empty => rw [show node = .empty from represented]; rfl
  | leaf path value => rw [show node = _ from represented]; rfl
  | branch path children =>
    obtain ⟨branchNode, rfl, _⟩ := represented.exists_branch
    rfl

/-- A represented node has the hash of its trie. -/
theorem Represents.hash_eq {source : D} {trie : NodeTrie} {node : TreeNode}
    (represented : Represents source trie node) : node.hash = trieHash trie := by
  induction trie generalizing node with
  | empty => rw [show node = .empty from represented]; rfl
  | leaf path value => rw [show node = _ from represented]; rfl
  | branch path children ih =>
    obtain ⟨branchNode, rfl, rfl, linked⟩ := represented.exists_branch
    have same : branchNode.link = fun index => trieHash (children index) := by
      funext index
      unfold BranchTreeNode.link
      cases pointer : branchNode.linkedNodes index with
      | none => exact (linked.stored index pointer).1
      | some child => exact ih index (linked.pointer index child pointer).2
    change Sha3.sha3_256 (branchMessage branchNode.path branchNode.link) = _
    rw [trieHash, same]

/-- Every link of a represented branch is the hash of its child. -/
theorem LinksRepresent.link_eq {source : D} {children : Nibble → NodeTrie} {branchNode : BranchTreeNode}
    (linked : LinksRepresent source children branchNode) : branchNode.link = fun index => trieHash (children index) := by
  funext index
  unfold BranchTreeNode.link
  cases pointer : branchNode.linkedNodes index with
  | none => exact (linked.stored index pointer).1
  | some child => exact (linked.pointer index child pointer).2.hash_eq

/-- A stored trie is found under its hash. -/
theorem Stored.get_eq {source : D} {trie : NodeTrie} (stored : Stored source trie)
    (nonempty : trie ≠ .empty) : DataSource.get source (trieHash trie) = compactNode trie := by
  cases trie with
  | empty => exact absurd rfl nonempty
  | leaf path value => exact stored
  | branch path children => exact stored.1

/-- The saved form of a stored trie represents the trie. -/
theorem Stored.represents {source : D} {trie : NodeTrie} (stored : Stored source trie) :
    Represents source trie (compactNode trie) := by
  cases trie with
  | empty => rfl
  | leaf path value => rfl
  | branch path children =>
    refine ⟨_, _, _, rfl, fun index => ⟨rfl, ?_, fun _ => ⟨rfl, stored.2 index⟩⟩⟩
    intro child impossible
    cases impossible

/-- The messages of a stored trie are messages of its data source. -/
theorem Stored.messages_subset {source : D} {trie : NodeTrie} (stored : Stored source trie) :
    trieMessages trie ⊆ sourceMessages source := by
  induction trie with
  | empty => exact Set.empty_subset _
  | leaf path value =>
    intro message inside
    refine Set.mem_iUnion.mpr ⟨trieHash (.leaf path value), ?_⟩
    rw [stored.get_eq (by simp)]
    exact inside
  | branch path children ih =>
    intro message inside
    rcases Set.mem_insert_iff.mp inside with same | below
    · refine Set.mem_iUnion.mpr ⟨trieHash (.branch path children), ?_⟩
      rw [stored.get_eq (by simp), same]
      exact Set.mem_insert _ _
    · obtain ⟨index, inChild⟩ := Set.mem_iUnion.mp below
      exact ih index (stored.2 index) inChild

/-- The messages of a represented trie belong to its data source or to its nodes in memory. -/
theorem Represents.messages_subset {source : D} {trie : NodeTrie} {node : TreeNode}
    (represented : Represents source trie node) : trieMessages trie ⊆ sourceMessages source ∪ node.messages := by
  induction trie generalizing node with
  | empty => exact Set.empty_subset _
  | leaf path value =>
    rw [show node = _ from represented]
    exact Set.subset_union_right
  | branch path children ih =>
    obtain ⟨branchNode, rfl, rfl, linked⟩ := represented.exists_branch
    intro message inside
    rcases Set.mem_insert_iff.mp inside with same | below
    · right
      rw [same, ← linked.link_eq]
      exact Set.mem_insert _ _
    · obtain ⟨index, inChild⟩ := Set.mem_iUnion.mp below
      cases pointer : branchNode.linkedNodes index with
      | none => exact Or.inl ((linked.stored index pointer).2.messages_subset inChild)
      | some child =>
        rcases ih index (linked.pointer index child pointer).2 inChild with atSource | inMemory
        · exact Or.inl atSource
        · refine Or.inr (Set.mem_insert_of_mem _ (Set.mem_iUnion.mpr ⟨index, ?_⟩))
          rw [pointer]
          exact inMemory

/-- A collision free data source has no node under the zero hash. -/
theorem SourceClosed.get_zero {source : D} (closed : SourceClosed source)
    (free : CollisionFree (sourceMessages source)) : DataSource.get source zeroHash = .empty := by
  rcases closed zeroHash with empty | ⟨trie, nonempty, hashed, _, stored⟩
  · exact empty
  · exact absurd hashed (free.trieHash_ne_zero stored.messages_subset nonempty)

/-- Following a link of a represented branch gives a node for the linked child. -/
theorem LinksRepresent.getLinkedNode {source : D} {children : Nibble → NodeTrie}
    {branchNode : BranchTreeNode} (linked : LinksRepresent source children branchNode)
    (zero : DataSource.get source zeroHash = .empty) (index : Fin 16) :
    Represents source (children index) (getLinkedNode source branchNode index) := by
  unfold Tree.getLinkedNode BranchTreeNode.linkedNode
  cases pointer : branchNode.linkedNodes index with
  | some child =>
    obtain ⟨nonempty, below⟩ := linked.pointer index child pointer
    have occupied : child.isEmpty = false := by
      rw [below.isEmpty]
      exact Bool.eq_false_iff.mpr (by simpa using nonempty)
    simpa [occupied] using below
  | none =>
    obtain ⟨_, stored⟩ := linked.stored index pointer
    simp only [Option.getD_none, TreeNode.isEmpty, if_true, linked.link_eq]
    by_cases nonempty : children index = .empty
    · rw [nonempty]
      exact zero
    · rw [stored.get_eq nonempty]
      exact stored.represents

end Catapult.Tree
