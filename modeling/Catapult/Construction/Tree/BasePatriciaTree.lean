import Catapult.Construction.Tree.TreeHistory

/-
This file models a patricia tree with a delta that collects changes until they are committed to the data source.
-/

namespace Catapult.Tree

namespace MemoryDataSource

/-- Leaves are passed on before branches. -/
def nodes (source : MemoryDataSource) : List TreeNode :=
  source.leafNodes.map (fun entry => .leaf entry.2) ++ source.branchNodes.map fun entry => .ofBranch entry.2

end MemoryDataSource

/-- The data source of a delta reads through to the data source of its tree. -/
structure BasePatriciaTreeDelta where
  baseRootHash : Hash256
  memory : MemoryDataSource
  rootNode : TreeNode

/-- At most one delta is attached to a tree. -/
structure BasePatriciaTree (D : Type) where
  dataSource : D
  rootNode : TreeNode
  delta : Option BasePatriciaTreeDelta

section Deltas

variable [Sha3] {D : Type} [DataSource D] {K V : Type}

namespace BasePatriciaTreeDelta

/-- The tree of a delta above the current data source. -/
def tree (delta : BasePatriciaTreeDelta) (dataSource : D) : PatriciaTree (ReadThroughMemoryDataSource D) :=
  ⟨⟨dataSource, delta.memory⟩, delta.rootNode⟩

def root (delta : BasePatriciaTreeDelta) : Hash256 := delta.rootNode.hash

/-- The tree stays empty if the root hash cannot be loaded. -/
def create (dataSource : D) (rootHash : Hash256) : BasePatriciaTreeDelta :=
  let source : ReadThroughMemoryDataSource D := ⟨dataSource, .empty⟩
  ⟨rootHash, .empty, ((PatriciaTree.empty source).tryLoad rootHash).2.rootNode⟩

def reset (delta : BasePatriciaTreeDelta) (dataSource : D) (rootHash : Hash256) : Option BasePatriciaTreeDelta :=
  if zeroHash = rootHash then some { delta with rootNode := .empty, baseRootHash := rootHash }
  else
    let loaded := (delta.tree dataSource).tryLoad rootHash
    if loaded.1 then some { delta with rootNode := loaded.2.rootNode, baseRootHash := rootHash } else none

def applyUpdate (encoder : Encoder K V) (delta : BasePatriciaTreeDelta) (dataSource : D) (change : TreeUpdate K V) :
    Option BasePatriciaTreeDelta := do
  let tree ← (delta.tree dataSource).applyUpdate encoder change
  return { delta with memory := tree.dataSource.memory, rootNode := tree.rootNode }

def setCheckpoint (delta : BasePatriciaTreeDelta) (dataSource : D) : Option BasePatriciaTreeDelta := do
  let tree ← (delta.tree dataSource).saveAll
  return { delta with memory := tree.dataSource.memory, rootNode := tree.rootNode }

def copyPendingChangesTo (delta : BasePatriciaTreeDelta) (dataSource : D) : D := delta.memory.nodes.foldl DataSource.set dataSource

/-- The root is read from memory because the data source may write with a delay. -/
def copyRootTo (delta : BasePatriciaTreeDelta) (dataSource : D) : TreeNode :=
  if zeroHash = delta.root then .empty else DataSource.get (delta.tree dataSource).dataSource delta.root

end BasePatriciaTreeDelta

namespace BasePatriciaTree

def create (dataSource : D) : BasePatriciaTree D := ⟨dataSource, .empty, none⟩

/-- Creating a tree around an unknown root hash throws. -/
def createAt (dataSource : D) (rootHash : Hash256) : Option (BasePatriciaTree D) :=
  let loaded := (PatriciaTree.empty dataSource).tryLoad rootHash
  if loaded.1 then some ⟨dataSource, loaded.2.rootNode, none⟩ else none

def root (tree : BasePatriciaTree D) : Hash256 := tree.rootNode.hash

def lookup (encoder : Encoder K V) (tree : BasePatriciaTree D) (key : K) : Option ((Hash256 × Bool) × List TreeNode) :=
  PatriciaTree.lookup encoder ⟨tree.dataSource, tree.rootNode⟩ key

/-- Only a single attached delta is allowed at a time. -/
def rebase (tree : BasePatriciaTree D) : Option (BasePatriciaTree D) :=
  match tree.delta with
  | some _ => none
  | none => some { tree with delta := some (.create tree.dataSource tree.root) }

/-- A commit creates a checkpoint, copies the pending changes and the root, and resets the delta. -/
def commit (tree : BasePatriciaTree D) : Option (BasePatriciaTree D) := do
  let delta ← tree.delta
  let delta ← delta.setCheckpoint tree.dataSource
  let dataSource := delta.copyPendingChangesTo tree.dataSource
  let rootNode := delta.copyRootTo dataSource
  let delta ← delta.reset dataSource delta.root
  return ⟨dataSource, rootNode, some delta⟩

/-- The root hash is stored next to the data source, and a zero hash stands for an empty tree. -/
def restart (tree : BasePatriciaTree D) : Option (BasePatriciaTree D) :=
  if zeroHash = tree.root then some (create tree.dataSource) else createAt tree.dataSource tree.root

end BasePatriciaTree

end Deltas

/-- A delta is attached, changed, saved, committed and released, and the tree is reopened after a restart. -/
inductive BaseOperation (K V : Type) where
  | rebase
  | update (change : TreeUpdate K V)
  | setCheckpoint
  | commit
  | release
  | restart

/-- The committed map and the map of the attached delta. -/
structure CommittedMaps (K V : Type) where
  committed : K → Option V
  pending : Option (K → Option V)

namespace BaseOperation

variable {K V : Type}

def touchedKeys (operations : List (BaseOperation K V)) : List K :=
  operations.filterMap fun
    | .update change => some change.key
    | _ => none

/-- An operation on a delta needs an attached delta. -/
def applyMaps [DecidableEq K] (maps : CommittedMaps K V) : BaseOperation K V → Option (CommittedMaps K V)
  | .rebase =>
    match maps.pending with
    | some _ => none
    | none => some ⟨maps.committed, some maps.committed⟩
  | .update change => do return ⟨maps.committed, some (change.applyMap (← maps.pending))⟩
  | .setCheckpoint => do return ⟨maps.committed, some (← maps.pending)⟩
  | .commit => do
    let pending ← maps.pending
    return ⟨pending, some pending⟩
  | .release => some ⟨maps.committed, none⟩
  | .restart => some ⟨maps.committed, none⟩

/-- The maps of a history start without any key. -/
def runMaps [DecidableEq K] (operations : List (BaseOperation K V)) : Option (CommittedMaps K V) :=
  operations.foldlM applyMaps ⟨fun _ => none, none⟩

end BaseOperation

namespace BasePatriciaTree

variable [Sha3] {D : Type} [DataSource D] {K V : Type}

def apply (encoder : Encoder K V) (tree : BasePatriciaTree D) : BaseOperation K V → Option (BasePatriciaTree D)
  | .rebase => tree.rebase
  | .update change => do
    let delta ← tree.delta
    return { tree with delta := some (← delta.applyUpdate encoder tree.dataSource change) }
  | .setCheckpoint => do
    let delta ← tree.delta
    return { tree with delta := some (← delta.setCheckpoint tree.dataSource) }
  | .commit => tree.commit
  | .release => some { tree with delta := none }
  | .restart => tree.restart

def run (encoder : Encoder K V) (tree : BasePatriciaTree D) (operations : List (BaseOperation K V)) : Option (BasePatriciaTree D) :=
  operations.foldlM (apply encoder) tree

end BasePatriciaTree

end Catapult.Tree
