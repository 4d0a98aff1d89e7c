import Catapult.Construction.Types
import Mathlib.Data.Fintype.Basic

/-
This file models the nodes of the state tree and their hashes.
-/

namespace Catapult.Tree

/-- A path element is one half of a key byte. -/
abbrev Nibble := Fin 16

instance nibbleNeZero : NeZero 16 := inferInstance

/-- A `TreeNodePath` is read only through its nibbles. -/
abbrev TreeNodePath := List Nibble

/-- A path of a key lists the high nibble of each byte before the low nibble. -/
def TreeNodePath.ofKey (key : List UInt8) : TreeNodePath :=
  key.flatMap fun byte => [Fin.ofNat 16 (byte.toNat >>> 4), Fin.ofNat 16 byte.toNat]

/-- The comparison stops at the first difference or at the end of a path. -/
def findFirstDifferenceIndex : TreeNodePath → TreeNodePath → Nat
  | left :: lhs, right :: rhs => if left = right then findFirstDifferenceIndex lhs rhs + 1 else 0
  | _, _ => 0

/-- The first byte carries the leaf flag, the odd flag and the first nibble of an odd path. -/
def encodedKeyFlag (path : TreeNodePath) (isLeaf : Bool) : UInt8 :=
  let flag : UInt8 := if isLeaf then 0x20 else 0
  match path with
  | nibble :: _ => if path.length % 2 = 1 then flag ||| 0x10 ||| UInt8.ofNat nibble.val else flag
  | [] => flag

/-- Two nibbles are packed into one byte. -/
def packNibbles (high low : Nibble) : UInt8 := UInt8.ofNat ((high.val <<< 4) + low.val)

/-- The loop of `UpdateEncodedKey` flushes its working buffer after every eighth byte. -/
def encodedKeyLoop (buffer fed : List UInt8) : TreeNodePath → List UInt8
  | high :: low :: rest =>
    let filled := buffer ++ [packNibbles high low]
    if filled.length = 8 then encodedKeyLoop [] (fed ++ filled) rest
    else encodedKeyLoop filled fed rest
  | _ => if buffer.length ≠ 0 then fed ++ buffer else fed

/-- `UpdateEncodedKey` feeds these bytes to the hash builder. -/
def updateEncodedKey (path : TreeNodePath) (isLeaf : Bool) : List UInt8 :=
  encodedKeyLoop [encodedKeyFlag path isLeaf] [] (path.drop (path.length % 2))

/-- A leaf holds the rest of a key and the hash of its value. -/
structure LeafTreeNode where
  path : TreeNodePath
  value : Hash256
  deriving DecidableEq

/-- A branch links a child by hash, and by pointer if the child is in memory. -/
inductive TreeNode where
  | empty
  | leaf (node : LeafTreeNode)
  | branch (path : TreeNodePath) (links : Fin 16 → Hash256)
      (linkedNodes : Fin 16 → Option TreeNode) (linkSet : Fin 16 → Bool)

/-- The branch class is the payload of a branch node. -/
structure BranchTreeNode where
  path : TreeNodePath
  links : Fin 16 → Hash256
  linkedNodes : Fin 16 → Option TreeNode
  linkSet : Fin 16 → Bool

namespace TreeNode

/-- A tree node is created from a branch node. -/
def ofBranch (node : BranchTreeNode) : TreeNode :=
  .branch node.path node.links node.linkedNodes node.linkSet

/-- An empty node marks a missing subtree. -/
def isEmpty : TreeNode → Bool
  | .empty => true
  | _ => false

def path : TreeNode → TreeNodePath
  | .empty => []
  | .leaf node => node.path
  | .branch path _ _ _ => path

/-- Changing the path of an empty node throws. -/
def setPath (path : TreeNodePath) : TreeNode → Option TreeNode
  | .empty => none
  | .leaf node => some (.leaf ⟨path, node.value⟩)
  | .branch _ links linkedNodes linkSet => some (.branch path links linkedNodes linkSet)

end TreeNode

/-- The message of a leaf is its encoded path followed by its value. -/
def leafMessage (node : LeafTreeNode) : List UInt8 :=
  updateEncodedKey node.path true ++ node.value.toList

/-- The message of a branch is its encoded path followed by all sixteen links. -/
def branchMessage (path : TreeNodePath) (links : Fin 16 → Hash256) : List UInt8 :=
  updateEncodedKey path false ++ (List.ofFn fun index => (links index).toList).flatten

section Hash

variable [Sha3]

mutual

/-- The hash of a node commits to its whole subtree. -/
def TreeNode.hash : TreeNode → Hash256
  | .empty => zeroHash
  | .leaf node => Sha3.sha3_256 (leafMessage node)
  | .branch path links linkedNodes _ =>
    Sha3.sha3_256 (branchMessage path fun index => linkHash (links index) (linkedNodes index))
  termination_by structural node => node

/-- A node in memory takes precedence over the stored link. -/
def linkHash (link : Hash256) : Option TreeNode → Hash256
  | none => link
  | some node => node.hash
  termination_by structural linkedNode => linkedNode

end

namespace BranchTreeNode

/-- A new branch node has no links. -/
def ofPath (path : TreeNodePath) : BranchTreeNode :=
  ⟨path, fun _ => zeroHash, fun _ => none, fun _ => false⟩

def numLinks (node : BranchTreeNode) : Nat := (List.finRange 16).countP node.linkSet

def link (node : BranchTreeNode) (index : Fin 16) : Hash256 :=
  linkHash (node.links index) (node.linkedNodes index)

/-- A missing pointer reads as an empty node. -/
def linkedNode (node : BranchTreeNode) (index : Fin 16) : TreeNode :=
  (node.linkedNodes index).getD .empty

/-- The highest set bit does not exist if no link is set. -/
def highestLinkIndex (node : BranchTreeNode) : Option (Fin 16) :=
  (List.finRange 16).reverse.find? node.linkSet

/-- Linking a node keeps the stored hash because the pointer takes precedence. -/
def setLink (node : BranchTreeNode) (child : TreeNode) (index : Fin 16) : BranchTreeNode :=
  { node with
    linkedNodes := Function.update node.linkedNodes index (some child)
    linkSet := Function.update node.linkSet index true }

/-- Clearing a link resets its hash, its pointer and its bit. -/
def clearLink (node : BranchTreeNode) (index : Fin 16) : BranchTreeNode :=
  { node with
    links := Function.update node.links index zeroHash
    linkedNodes := Function.update node.linkedNodes index none
    linkSet := Function.update node.linkSet index false }

/-- Compaction replaces every pointer with the hash of its node. -/
def compactLinks (node : BranchTreeNode) : BranchTreeNode :=
  { node with links := node.link, linkedNodes := fun _ => none }

end BranchTreeNode

end Hash

end Catapult.Tree
