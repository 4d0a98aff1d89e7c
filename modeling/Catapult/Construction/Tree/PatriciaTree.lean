import Catapult.Construction.Tree.TreeNode

/-
This file models the compact patricia tree and the data sources that hold its nodes.
-/

namespace Catapult.Tree

/-- A data source stores nodes under their hashes. -/
class DataSource (D : Type) where
  get : D → Hash256 → TreeNode
  set : [Sha3] → D → TreeNode → D

/-- The memory data source keeps leaves and branches in separate maps. -/
structure MemoryDataSource where
  leafNodes : List (Hash256 × LeafTreeNode)
  branchNodes : List (Hash256 × BranchTreeNode)

namespace MemoryDataSource

def empty : MemoryDataSource := ⟨[], []⟩

/-- Leaves are searched before branches. -/
def get (source : MemoryDataSource) (hash : Hash256) : TreeNode :=
  match source.leafNodes.lookup hash with
  | some node => .leaf node
  | none =>
    match source.branchNodes.lookup hash with
    | some node => .ofBranch node
    | none => .empty

/-- An emplace keeps the node that is already stored under the same hash. -/
def emplace {N : Type} (nodes : List (Hash256 × N)) (hash : Hash256) (node : N) : List (Hash256 × N) :=
  match nodes.lookup hash with
  | some _ => nodes
  | none => nodes ++ [(hash, node)]

/-- The two overloads of `set` save a leaf or a branch. -/
def set [Sha3] (source : MemoryDataSource) : TreeNode → MemoryDataSource
  | .empty => source
  | .leaf node =>
    { source with leafNodes := emplace source.leafNodes (TreeNode.leaf node).hash node }
  | .branch path links linkedNodes linkSet =>
    { source with
      branchNodes := emplace source.branchNodes
        (TreeNode.branch path links linkedNodes linkSet).hash ⟨path, links, linkedNodes, linkSet⟩ }

instance : DataSource MemoryDataSource := ⟨get, set⟩

end MemoryDataSource

/-- The read through data source never writes to its backing source. -/
structure ReadThroughMemoryDataSource (B : Type) where
  backing : B
  memory : MemoryDataSource

namespace ReadThroughMemoryDataSource

variable {B : Type} [DataSource B]

def get (source : ReadThroughMemoryDataSource B) (hash : Hash256) : TreeNode :=
  let node := source.memory.get hash
  if node.isEmpty then DataSource.get source.backing hash else node

def set [Sha3] (source : ReadThroughMemoryDataSource B) (node : TreeNode) : ReadThroughMemoryDataSource B :=
  { source with memory := source.memory.set node }

instance : DataSource (ReadThroughMemoryDataSource B) := ⟨get, set⟩

end ReadThroughMemoryDataSource

/-- An encoder turns keys into bytes of a path and values into hashes. -/
structure Encoder (K V : Type) where
  encodeKey : K → List UInt8
  encodeValue : V → Hash256

/-- A pair of the remaining path and the encoded value is passed down the tree. -/
structure PathValuePair where
  path : TreeNodePath
  value : Hash256

section Operations

variable [Sha3] {D : Type} [DataSource D]

def createLeaf (pair : PathValuePair) : LeafTreeNode := ⟨pair.path, pair.value⟩

/-- A child in memory is preferred to the stored child. -/
def getLinkedNode (source : D) (branchNode : BranchTreeNode) (index : Fin 16) : TreeNode :=
  let linkedNode := branchNode.linkedNode index
  if linkedNode.isEmpty then DataSource.get source (branchNode.link index) else linkedNode

/-- A leaf is split at the first nibble at which the two paths differ. -/
def branchLeafNode (leafNode : LeafTreeNode) (newPair : PathValuePair) : Option BranchTreeNode := do
  let differenceIndex := findFirstDifferenceIndex leafNode.path newPair.path
  let sharedPath := leafNode.path.take differenceIndex
  let leafNibble ← leafNode.path[differenceIndex]?
  let newNibble ← newPair.path[differenceIndex]?
  let node1 : LeafTreeNode := ⟨leafNode.path.drop (differenceIndex + 1), leafNode.value⟩
  let node2 : LeafTreeNode := ⟨newPair.path.drop (differenceIndex + 1), newPair.value⟩
  let branchNode := BranchTreeNode.ofPath sharedPath
  return (branchNode.setLink (.leaf node1) leafNibble).setLink (.leaf node2) newNibble

/-- A new pair descends below a consumed branch path and splits any other branch path. -/
def insertNewPairIntoBranch (source : D) (set : TreeNode → PathValuePair → Option TreeNode)
    (branchNode : BranchTreeNode) (branchPath : TreeNodePath) (differenceIndex : Nat)
    (newPair : PathValuePair) : Option BranchTreeNode := do
  if branchPath.isEmpty then
    let firstNibble ← newPair.path[0]?
    let nextNode := getLinkedNode source branchNode firstNibble
    let updatedNextNode ← set nextNode ⟨newPair.path.drop (differenceIndex + 1), newPair.value⟩
    return branchNode.setLink updatedNextNode firstNibble
  else
    let newNibble ← newPair.path[differenceIndex]?
    let updatedNextNode ← set .empty ⟨newPair.path.drop (differenceIndex + 1), newPair.value⟩
    let newBranchNode := (BranchTreeNode.ofPath (branchPath.take differenceIndex)).setLink
      updatedNextNode newNibble
    let branchLinkIndex ← branchPath[differenceIndex]?
    let truncated := { branchNode with path := branchPath.drop (differenceIndex + 1) }
    return newBranchNode.setLink (.ofBranch truncated) branchLinkIndex

/-- A branch whose nonempty path is fully shared passes on the rest of the new path. -/
def updateBranchLink (source : D) (set : TreeNode → PathValuePair → Option TreeNode)
    (branchNode : BranchTreeNode) (newPair : PathValuePair) : Option BranchTreeNode :=
  let branchPath := branchNode.path
  let differenceIndex := findFirstDifferenceIndex branchPath newPair.path
  if !branchPath.isEmpty && differenceIndex == branchPath.length then
    insertNewPairIntoBranch source set branchNode [] 0
      ⟨newPair.path.drop differenceIndex, newPair.value⟩
  else
    insertNewPairIntoBranch source set branchNode branchPath differenceIndex newPair

/-- Every recursive call of `set` consumes a nibble, so the path length bounds the depth. -/
def setNode (source : D) : Nat → TreeNode → PathValuePair → Option TreeNode
  | 0, _, _ => none
  | _ + 1, .empty, newPair => some (.leaf (createLeaf newPair))
  | _ + 1, .leaf leafNode, newPair =>
    if leafNode.path = newPair.path then some (.leaf (createLeaf newPair))
    else (branchLeafNode leafNode newPair).map .ofBranch
  | fuel + 1, .branch path links linkedNodes linkSet, newPair =>
    (updateBranchLink source (setNode source fuel) ⟨path, links, linkedNodes, linkSet⟩ newPair).map
      .ofBranch

/-- A branch that keeps one link is merged with the node behind that link. -/
def unsetBranchLink (source : D) (branchNode : BranchTreeNode) (linkIndex : Fin 16) : Option TreeNode := do
  let cleared := branchNode.clearLink linkIndex
  if 1 ≠ cleared.numLinks then
    return .ofBranch cleared
  else
    let lastLinkIndex ← cleared.highestLinkIndex
    let referencedNode := getLinkedNode source cleared lastLinkIndex
    referencedNode.setPath (cleared.path ++ lastLinkIndex :: referencedNode.path)

/-- The result of `unset` is its return value with both reference parameters. -/
structure UnsetResult where
  found : Bool
  updatedNode : TreeNode
  canMerge : Bool

/-- Removal merges the parent of the removed node and only relinks higher branches. -/
def unsetNode (source : D) : Nat → TreeNode → TreeNodePath → TreeNode → Bool → Option UnsetResult
  | 0, _, _, _, _ => none
  | fuel + 1, node, keyPath, updatedNode, canMerge =>
    let differenceIndex := findFirstDifferenceIndex node.path keyPath
    match node with
    | .empty => some ⟨false, updatedNode, canMerge⟩
    | .leaf _ =>
      if differenceIndex = keyPath.length then some ⟨true, .empty, canMerge⟩
      else some ⟨false, updatedNode, canMerge⟩
    | .branch path links linkedNodes linkSet =>
      if differenceIndex = keyPath.length then some ⟨true, .empty, canMerge⟩
      else do
        let branchNode : BranchTreeNode := ⟨path, links, linkedNodes, linkSet⟩
        let nodeLinkIndex ← keyPath[differenceIndex]?
        let nextNode := getLinkedNode source branchNode nodeLinkIndex
        if nextNode.isEmpty then
          return ⟨false, updatedNode, canMerge⟩
        else
          let below ← unsetNode source fuel nextNode (keyPath.drop (differenceIndex + 1)) .empty
            canMerge
          if !below.found then
            return ⟨false, updatedNode, below.canMerge⟩
          else if below.canMerge then
            return ⟨true, ← unsetBranchLink source branchNode nodeLinkIndex, false⟩
          else
            return ⟨true, .ofBranch (branchNode.setLink below.updatedNode nodeLinkIndex), false⟩

/-- An unsuccessful lookup returns a zero hash. -/
def lookupNotFoundResult : Hash256 × Bool := (zeroHash, false)

/-- A lookup follows the first differing nibble without comparing the whole branch path. -/
def lookupNode (source : D) : Nat → TreeNode → TreeNodePath → List TreeNode → Option ((Hash256 × Bool) × List TreeNode)
  | 0, _, _, _ => none
  | fuel + 1, node, keyPath, nodePath =>
    let differenceIndex := findFirstDifferenceIndex node.path keyPath
    match node with
    | .empty => some (lookupNotFoundResult, nodePath)
    | .leaf leafNode =>
      if differenceIndex = keyPath.length then
        some ((leafNode.value, true), nodePath ++ [.leaf leafNode])
      else some (lookupNotFoundResult, nodePath ++ [.leaf leafNode])
    | .branch path links linkedNodes linkSet => do
      let branchNode : BranchTreeNode := ⟨path, links, linkedNodes, linkSet⟩
      let nodeLinkIndex ← keyPath[differenceIndex]?
      let nextNode := getLinkedNode source branchNode nodeLinkIndex
      let visited := nodePath ++ [.ofBranch branchNode]
      if nextNode.isEmpty then
        return (lookupNotFoundResult, visited)
      else
        lookupNode source fuel nextNode (keyPath.drop (differenceIndex + 1)) visited

mutual

/-- Saving a branch saves its nodes in memory first and then its compacted copy. -/
def saveAllNode : TreeNode → D → Option D
  | .empty, _ => none
  | .leaf node, source => some (DataSource.set source (.leaf node))
  | .branch path links linkedNodes linkSet, source => do
    let saved ← (List.finRange 16).foldlM (fun source index => saveLinked (linkedNodes index) source)
      source
    let branchNode : BranchTreeNode := ⟨path, links, linkedNodes, linkSet⟩
    return DataSource.set saved (.ofBranch branchNode.compactLinks)
  termination_by structural node => node

/-- A link without a node in memory has nothing to save. -/
def saveLinked : Option TreeNode → D → Option D
  | none, source => some source
  | some node, source => saveAllNode node source
  termination_by structural linkedNode => linkedNode

end

end Operations

/-- A patricia tree consists of a data source and a root node. -/
structure PatriciaTree (D : Type) where
  dataSource : D
  rootNode : TreeNode

namespace PatriciaTree

variable [Sha3] {D : Type} [DataSource D] {K V : Type}

def root (tree : PatriciaTree D) : Hash256 := tree.rootNode.hash

/-- A failed memory access or a thrown exception gives no result. -/
def set (encoder : Encoder K V) (tree : PatriciaTree D) (key : K) (value : V) : Option (PatriciaTree D) := do
  let keyPath := TreeNodePath.ofKey (encoder.encodeKey key)
  let rootNode ← setNode tree.dataSource (keyPath.length + 1) tree.rootNode
    ⟨keyPath, encoder.encodeValue value⟩
  return { tree with rootNode }

def unset (encoder : Encoder K V) (tree : PatriciaTree D) (key : K) : Option (Bool × PatriciaTree D) := do
  let keyPath := TreeNodePath.ofKey (encoder.encodeKey key)
  let result ← unsetNode tree.dataSource (keyPath.length + 1) tree.rootNode keyPath tree.rootNode true
  return (result.found, { tree with rootNode := result.updatedNode })

def lookup (encoder : Encoder K V) (tree : PatriciaTree D) (key : K) : Option ((Hash256 × Bool) × List TreeNode) :=
  let keyPath := TreeNodePath.ofKey (encoder.encodeKey key)
  lookupNode tree.dataSource (keyPath.length + 1) tree.rootNode keyPath []

/-- Loading fails if no node is stored under the hash. -/
def tryLoad (tree : PatriciaTree D) (rootHash : Hash256) : Bool × PatriciaTree D :=
  let rootNode := DataSource.get tree.dataSource rootHash
  if rootNode.isEmpty then (false, tree) else (true, { tree with rootNode })

def clear (tree : PatriciaTree D) : PatriciaTree D := { tree with rootNode := .empty }

/-- An empty tree has nothing to save. -/
def saveAll (tree : PatriciaTree D) : Option (PatriciaTree D) :=
  if tree.rootNode.isEmpty then some tree
  else do
    let dataSource ← saveAllNode tree.rootNode tree.dataSource
    return { tree with dataSource }

end PatriciaTree

end Catapult.Tree
