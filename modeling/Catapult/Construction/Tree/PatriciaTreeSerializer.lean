import Catapult.Construction.Tree.TreeNode
import Catapult.Library.ByteStream

/-
This file models paths that share their bytes and the serialization of tree nodes.
-/

namespace Catapult.Tree

open ByteStream

/-- A path beginning at an odd nibble needs the whole first byte. -/
def calculateByteSize (offset size : Nat) : Nat := size / 2 + if offset % 2 = 0 ∧ size % 2 = 0 then 0 else 1

/-- The nibbles of a path are packed into bytes, the first of which can be skipped. -/
structure PackedTreeNodePath where
  size : Nat
  adjustment : Nat
  path : List UInt8
  aligned : adjustment < 2
  covered : adjustment + size ≤ 2 * path.length

namespace PackedTreeNodePath

def empty : PackedTreeNodePath := ⟨0, 0, [], by decide, by decide⟩

def ofKey (key : List UInt8) : PackedTreeNodePath := ⟨2 * key.length, 0, key, by decide, Nat.le_of_eq (Nat.zero_add _)⟩

/-- The bytes of an empty path are not copied. -/
def ofRange (path : List UInt8) (offset size : Nat) (inside : offset + size ≤ 2 * path.length) : PackedTreeNodePath where
  size := size
  adjustment := offset % 2
  path :=
    if size = 0 then List.replicate (calculateByteSize offset size) 0
    else (path.drop (offset / 2)).take (calculateByteSize offset size)
  aligned := Nat.mod_lt _ (by decide)
  covered := by
    unfold calculateByteSize
    split
    · rw [List.length_replicate]
      split <;> omega
    · rw [List.length_take, List.length_drop]
      split <;> omega

/-- The high nibble of a byte comes before the low nibble. -/
def nibbleAt (path : PackedTreeNodePath) (index : Nat) : Nibble :=
  let adjusted := index + path.adjustment
  let byte := path.path.getD (adjusted / 2) 0
  if adjusted % 2 = 0 then Fin.ofNat 16 ((byte &&& 0xF0) >>> 4).toNat else Fin.ofNat 16 (byte &&& 0x0F).toNat

def subpath (path : PackedTreeNodePath) (offset size : Nat) (inside : offset + size ≤ path.size) : PackedTreeNodePath :=
  ofRange path.path (offset + path.adjustment) size (by
    have covered := path.covered
    omega)

/-- The rest of the model reads a path only through its nibbles. -/
def toTreeNodePath (path : PackedTreeNodePath) : TreeNodePath := (List.range path.size).map path.nibbleAt

end PackedTreeNodePath

structure PackedLeafTreeNode where
  path : PackedTreeNodePath
  value : Hash256

/-- A link that is not set has been cleared. -/
structure PackedBranchTreeNode where
  path : PackedTreeNodePath
  links : Fin 16 → Hash256
  linkedNodes : Fin 16 → Option TreeNode
  linkSet : Fin 16 → Bool
  cleared : ∀ index, linkSet index = false → links index = zeroHash ∧ linkedNodes index = none

inductive PackedTreeNode where
  | empty
  | leaf (node : PackedLeafTreeNode)
  | branch (node : PackedBranchTreeNode)

namespace PackedBranchTreeNode

def ofPath (path : PackedTreeNodePath) : PackedBranchTreeNode where
  path := path
  links _ := zeroHash
  linkedNodes _ := none
  linkSet _ := false
  cleared _ _ := ⟨rfl, rfl⟩

/-- The hash replaces the linked node. -/
def setLink (node : PackedBranchTreeNode) (link : Hash256) (index : Fin 16) : PackedBranchTreeNode where
  path := node.path
  links := Function.update node.links index link
  linkedNodes := Function.update node.linkedNodes index none
  linkSet := Function.update node.linkSet index true
  cleared := by
    intro other unset
    by_cases same : other = index
    · subst same
      rw [Function.update_self] at unset
      cases unset
    · rw [Function.update_of_ne same] at unset ⊢
      rw [Function.update_of_ne same]
      exact node.cleared other unset

def link [Sha3] (node : PackedBranchTreeNode) (index : Fin 16) : Hash256 := linkHash (node.links index) (node.linkedNodes index)

end PackedBranchTreeNode

namespace PackedTreeNode

def toTreeNode : PackedTreeNode → TreeNode
  | .empty => .empty
  | .leaf node => .leaf ⟨node.path.toTreeNodePath, node.value⟩
  | .branch node => .branch node.path.toTreeNodePath node.links node.linkedNodes node.linkSet

def hash [Sha3] (node : PackedTreeNode) : Hash256 := node.toTreeNode.hash

end PackedTreeNode

namespace PatriciaTreeSerializer

/-- Every second nibble completes a byte. -/
def serializeNibble (path : PackedTreeNodePath) (state : UInt8 × List UInt8) (index : Nat) : UInt8 × List UInt8 :=
  if index % 2 = 0 then (UInt8.ofNat ((path.nibbleAt index).val <<< 4), state.2)
  else
    let byte := state.1 ||| UInt8.ofNat (path.nibbleAt index).val
    (byte, state.2 ++ [byte])

/-- The last nibble of an odd path fills only half of its byte. -/
def serializePath (path : PackedTreeNodePath) : List UInt8 :=
  let written := (List.range path.size).foldl (serializeNibble path) (0, [])
  UInt8.ofNat path.size :: written.2 ++ if path.size % 2 = 1 then [written.1] else []

def serializeLeaf (node : PackedLeafTreeNode) : List UInt8 := 0xFF :: serializePath node.path ++ node.value.toList

def linksMask (node : PackedBranchTreeNode) : UInt16 :=
  (List.finRange 16).foldl (fun mask index => mask ||| (if node.linkSet index then 1 else 0) <<< UInt16.ofNat index.val) 0

/-- Only the links that are set are written. -/
def serializeBranch [Sha3] (node : PackedBranchTreeNode) : List UInt8 :=
  0x00 :: serializePath node.path ++ Codec.word16.write (linksMask node) ++
    (List.finRange 16).flatMap fun index => if node.linkSet index then (node.link index).toList else []

inductive SerializerError where
  | fileIoError
  | runtimeError (message : String)
  | invalidArgument (message : String) (marker : Option UInt8)
  deriving DecidableEq

abbrev NodeReader := Reader SerializerError

def readValue {α : Type} (codec : Codec α) : NodeReader α := codec.take SerializerError.fileIoError

/-- The filler nibble of an odd path has to be zero. -/
def deserializePath : NodeReader PackedTreeNodePath := do
  let numNibbles ← readValue .word8
  if (numNibbles.toNat + 1) / 2 = 0 then return .empty
  else do
    let alignedPath ← readValue (.array ((numNibbles.toNat + 1) / 2))
    let path := PackedTreeNodePath.ofKey alignedPath.toList
    if numNibbles.toNat % 2 = 1 ∧ path.nibbleAt (path.size - 1) ≠ 0 then
      throw (.runtimeError "filler nibble in path must be 0")
    else
      return path.subpath 0 numNibbles.toNat (by
        change 0 + _ ≤ 2 * alignedPath.toList.length
        rw [Vector.length_toList]
        omega)

def deserializeLeaf : NodeReader PackedLeafTreeNode := do
  let path ← deserializePath
  let value ← readValue (.array 32)
  return ⟨path, value⟩

/-- One round of the loop over the bits of the mask. -/
def deserializeLink (links : UInt16) (branch : PackedBranchTreeNode) (index : Fin 16) : NodeReader PackedBranchTreeNode := do
  if links &&& 1 <<< UInt16.ofNat index.val ≠ 0 then
    let link ← readValue (.array 32)
    return branch.setLink link index
  else return branch

def deserializeBranch : NodeReader PackedBranchTreeNode := do
  let path ← deserializePath
  let links ← readValue .word16
  (List.finRange 16).foldlM (deserializeLink links) (PackedBranchTreeNode.ofPath path)

/-- An empty node is not serialized. -/
def serializeValue [Sha3] : PackedTreeNode → Except SerializerError (List UInt8)
  | .empty => .error (.invalidArgument "invalid node passed to serializer" none)
  | .leaf node => .ok (serializeLeaf node)
  | .branch node => .ok (serializeBranch node)

/-- The first byte tells the kind of the node. -/
def deserializeValue : NodeReader PackedTreeNode := do
  let nodeMarker ← readValue .word8
  if nodeMarker = 0xFF then return .leaf (← deserializeLeaf)
  else if nodeMarker = 0x00 then return .branch (← deserializeBranch)
  else throw (.invalidArgument "invalid marker of serialized node" nodeMarker)

end PatriciaTreeSerializer

end Catapult.Tree
