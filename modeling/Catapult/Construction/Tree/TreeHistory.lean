import Catapult.Construction.Tree.PatriciaTree
import Catapult.Library.RadixTrie

/-
This file defines the histories of a patricia tree and the shape that a reader of the tree sees.
-/

namespace Catapult.Tree

/-- A tree is changed by setting or by unsetting a key. -/
inductive TreeUpdate (K V : Type) where
  | set (key : K) (value : V)
  | unset (key : K)

/-- A tree may also be saved to its data source or be reloaded from it. -/
inductive TreeOperation (K V : Type) where
  | update (change : TreeUpdate K V)
  | saveAll
  | reload

namespace TreeUpdate

variable {K V : Type}

def key : TreeUpdate K V → K
  | set key _ => key
  | unset key => key

/-- A key that is unset has no value. -/
def value : TreeUpdate K V → Option V
  | set _ value => some value
  | unset _ => none

/-- A plain map is changed in the same way. -/
def applyMap [DecidableEq K] (map : K → Option V) (change : TreeUpdate K V) : K → Option V :=
  Function.update map change.key change.value

end TreeUpdate

namespace TreeOperation

variable {K V : Type}

/-- Saving and reloading do not change the map. -/
def applyMap [DecidableEq K] (map : K → Option V) : TreeOperation K V → K → Option V
  | .update change => change.applyMap map
  | .saveAll => map
  | .reload => map

/-- These keys are set or unset by a history. -/
def touchedKeys (operations : List (TreeOperation K V)) : List K :=
  operations.filterMap fun
    | .update change => some change.key
    | _ => none

/-- The final map of a history starts without any key. -/
def finalMap [DecidableEq K] (operations : List (TreeOperation K V)) : K → Option V :=
  operations.foldl applyMap fun _ => none

end TreeOperation

section Resolution

variable [Sha3] {D : Type} [DataSource D]

/-- The shape of a tree down to a depth replaces every hash link by the node behind it. -/
def resolve (source : D) : Nat → TreeNode → RadixTrie Nibble Hash256
  | 0, _ => .empty
  | _ + 1, .empty => .empty
  | _ + 1, .leaf leafNode => .leaf leafNode.path leafNode.value
  | fuel + 1, .branch path links linkedNodes linkSet =>
    .branch path fun index =>
      resolve source fuel (getLinkedNode source ⟨path, links, linkedNodes, linkSet⟩ index)

/-- A node is part of a tree if it can be reached by following links. -/
inductive PartOf (source : D) (root : TreeNode) : TreeNode → Prop where
  | root : PartOf source root root
  | link {branchNode : BranchTreeNode} (part : PartOf source root (.ofBranch branchNode))
      (index : Fin 16) : PartOf source root (getLinkedNode source branchNode index)

end Resolution

namespace PatriciaTree

variable [Sha3] {D : Type} [DataSource D] {K V : Type}

def empty (dataSource : D) : PatriciaTree D := ⟨dataSource, .empty⟩

/-- An update discards the return value of `unset`. -/
def applyUpdate (encoder : Encoder K V) (tree : PatriciaTree D) : TreeUpdate K V → Option (PatriciaTree D)
  | .set key value => tree.set encoder key value
  | .unset key => (tree.unset encoder key).map Prod.snd

/-- A reload loads the current root and leaves the tree alone if the root was never saved. -/
def apply (encoder : Encoder K V) (tree : PatriciaTree D) : TreeOperation K V → Option (PatriciaTree D)
  | .update change => tree.applyUpdate encoder change
  | .saveAll => tree.saveAll
  | .reload => some (tree.tryLoad tree.root).2

/-- A history is run from left to right. -/
def run (encoder : Encoder K V) (tree : PatriciaTree D) (operations : List (TreeOperation K V)) : Option (PatriciaTree D) :=
  operations.foldlM (apply encoder) tree

end PatriciaTree

end Catapult.Tree
