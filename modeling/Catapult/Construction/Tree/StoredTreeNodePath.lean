import Catapult.Construction.Tree.PatriciaTreeSerializer
import Catapult.Library.CountedLoop

/-
This file models the operations on paths with every access to their bytes, and how the hash builder receives the encoded key of a path.
-/

namespace Catapult.Tree

inductive PathError where
  | outOfBounds
  | endless
  deriving DecidableEq

/-- The fields of a path do not restrict each other. -/
structure StoredTreeNodePath where
  size : Nat
  adjustment : Nat
  path : List UInt8

def byteAt (bytes : List UInt8) (index : Nat) : Except PathError UInt8 :=
  match bytes[index]? with
  | none => .error .outOfBounds
  | some byte => .ok byte

namespace StoredTreeNodePath

def ofKey (key : List UInt8) : StoredTreeNodePath := ⟨2 * key.length, 0, key⟩

/-- The bytes of a scalar are copied in big endian order. -/
def ofScalar (key : List UInt8) : StoredTreeNodePath := ofKey key.reverse

def ofRange (path : List UInt8) (offset size : Nat) : Except PathError StoredTreeNodePath :=
  let byteSize := calculateByteSize offset size
  if size = 0 then return ⟨size, offset % 2, List.replicate byteSize 0⟩
  else if offset / 2 + byteSize ≤ path.length then return ⟨size, offset % 2, (path.drop (offset / 2)).take byteSize⟩
  else throw .outOfBounds

def nibbleAt (path : StoredTreeNodePath) (index : Nat) : Except PathError UInt8 := do
  let adjusted := index + path.adjustment
  let byte ← byteAt path.path (adjusted / 2)
  return if adjusted % 2 = 0 then (byte &&& 0xF0) >>> 4 else byte &&& 0x0F

def subpath (path : StoredTreeNodePath) (offset size : Nat) : Except PathError StoredTreeNodePath :=
  ofRange path.path (offset + path.adjustment) size

def subpathFrom (path : StoredTreeNodePath) (offset : Nat) : Except PathError StoredTreeNodePath := path.subpath offset (path.size - offset)

/-- The comparison goes on while both paths have nibbles. -/
def firstDifferenceFrom (lhs rhs : StoredTreeNodePath) : Nat → Nat → Except PathError Nat
  | 0, index => return index
  | remaining + 1, index => do
    if (← lhs.nibbleAt index) = (← rhs.nibbleAt index) then firstDifferenceFrom lhs rhs remaining (index + 1) else return index

def findFirstDifferenceIndex (lhs rhs : StoredTreeNodePath) : Except PathError Nat := firstDifferenceFrom lhs rhs (min lhs.size rhs.size) 0

def equals (lhs rhs : StoredTreeNodePath) : Except PathError Bool :=
  if lhs.size = rhs.size then do return lhs.size == (← findFirstDifferenceIndex lhs rhs) else return false

end StoredTreeNodePath

/-- The bytes of a joined path are zero at first. -/
structure JoinBuilder where
  index : Nat
  path : List UInt8

namespace JoinBuilder

def ofSize (size : Nat) : JoinBuilder := ⟨0, List.replicate size 0⟩

def addNibble (builder : JoinBuilder) (nibble : UInt8) : Except PathError JoinBuilder := do
  let byte ← byteAt builder.path (builder.index / 2)
  let added := if builder.index % 2 ≠ 0 then nibble &&& 0x0F else nibble <<< 4
  return ⟨builder.index + 1, builder.path.set (builder.index / 2) (byte ||| added)⟩

/-- The nibbles are counted with 32 bits. -/
def addNibbles (builder : JoinBuilder) (path : StoredTreeNodePath) : Except PathError JoinBuilder :=
  CountedLoop.run .endless path.size 1 (fun index builder => do builder.addNibble (← path.nibbleAt index.toNat)) 0 builder

end JoinBuilder

namespace StoredTreeNodePath

def join (lhs rhs : StoredTreeNodePath) : Except PathError StoredTreeNodePath := do
  let joinedPathSize := lhs.size + rhs.size
  let builder ← (JoinBuilder.ofSize ((joinedPathSize + 1) / 2)).addNibbles lhs
  let builder ← builder.addNibbles rhs
  ofRange builder.path 0 joinedPathSize

def joinWith (lhs : StoredTreeNodePath) (nibble : UInt8) (rhs : StoredTreeNodePath) : Except PathError StoredTreeNodePath := do
  let joinedPathSize := lhs.size + 1 + rhs.size
  let builder ← (JoinBuilder.ofSize ((joinedPathSize + 1) / 2)).addNibbles lhs
  let builder ← builder.addNibble nibble
  let builder ← builder.addNibbles rhs
  ofRange builder.path 0 joinedPathSize

end StoredTreeNodePath

/-- A path is built from keys in any order of operations. -/
inductive PathTerm where
  | key (bytes : List UInt8)
  | scalar (bytes : List UInt8)
  | subpath (path : PathTerm) (offset size : Nat)
  | subpathFrom (path : PathTerm) (offset : Nat)
  | join (lhs rhs : PathTerm)
  | joinWith (lhs : PathTerm) (nibble : UInt8) (rhs : PathTerm)

namespace PathTerm

def build : PathTerm → Except PathError StoredTreeNodePath
  | .key bytes => return .ofKey bytes
  | .scalar bytes => return .ofScalar bytes
  | .subpath path offset size => do (← path.build).subpath offset size
  | .subpathFrom path offset => do (← path.build).subpathFrom offset
  | .join lhs rhs => do (← lhs.build).join (← rhs.build)
  | .joinWith lhs nibble rhs => do (← lhs.build).joinWith nibble (← rhs.build)

/-- The same operations on lists of nibbles. -/
def nibbles : PathTerm → TreeNodePath
  | .key bytes => TreeNodePath.ofKey bytes
  | .scalar bytes => TreeNodePath.ofKey bytes.reverse
  | .subpath path offset size => (path.nibbles.drop offset).take size
  | .subpathFrom path offset => path.nibbles.drop offset
  | .join lhs rhs => lhs.nibbles ++ rhs.nibbles
  | .joinWith lhs nibble rhs => lhs.nibbles ++ Fin.ofNat 16 nibble.toNat :: rhs.nibbles

/-- Every part of a path lies within the path. -/
def InRange : PathTerm → Prop
  | .key _ => True
  | .scalar _ => True
  | .subpath path offset size => path.InRange ∧ offset + size ≤ path.nibbles.length
  | .subpathFrom path offset => path.InRange ∧ offset ≤ path.nibbles.length
  | .join lhs rhs => lhs.InRange ∧ rhs.InRange
  | .joinWith lhs _ rhs => lhs.InRange ∧ rhs.InRange

/-- The nibbles of joined paths are counted with 32 bits. -/
def Countable : PathTerm → Prop
  | .key _ => True
  | .scalar _ => True
  | .subpath path _ _ => path.Countable
  | .subpathFrom path _ => path.Countable
  | .join lhs rhs => lhs.Countable ∧ rhs.Countable ∧ lhs.nibbles.length < 2 ^ 32 ∧ rhs.nibbles.length < 2 ^ 32
  | .joinWith lhs _ rhs => lhs.Countable ∧ rhs.Countable ∧ lhs.nibbles.length < 2 ^ 32 ∧ rhs.nibbles.length < 2 ^ 32

end PathTerm

/-- The hash builder has received some bytes. -/
structure EncodedKeyState where
  buffer : Vector UInt8 8
  counter : UInt32
  fed : List UInt8

def setBuffer (buffer : Vector UInt8 8) (position : UInt32) (byte : UInt8) : Except PathError (Vector UInt8 8) :=
  if inside : position.toNat < 8 then return buffer.set position.toNat byte inside else throw .outOfBounds

theorem buffer_nonempty : 0 < 8 := by decide

/-- The first byte is not read before it is set. -/
def encodedKeyStart (path : StoredTreeNodePath) (isLeaf : Bool) (uninitialized : Vector UInt8 8) :
    Except PathError (UInt32 × EncodedKeyState) := do
  let flag : UInt8 := if isLeaf then 0x20 else 0
  if path.size % 2 = 1 then
    let nibble ← path.nibbleAt 0
    return (1, ⟨uninitialized.set 0 (flag ||| 0x10 ||| nibble) buffer_nonempty, 1, []⟩)
  else
    return (0, ⟨uninitialized.set 0 flag buffer_nonempty, 1, []⟩)

/-- The working buffer is flushed when it is full. -/
def encodedKeyRound (path : StoredTreeNodePath) (index : UInt32) (state : EncodedKeyState) : Except PathError EncodedKeyState := do
  let high ← path.nibbleAt index.toNat
  let low ← path.nibbleAt (index + 1).toNat
  let buffer ← setBuffer state.buffer state.counter ((high <<< 4) + low)
  let counter := state.counter + 1
  return if counter.toNat = 8 then ⟨buffer, 0, state.fed ++ buffer.toList⟩ else ⟨buffer, counter, state.fed⟩

/-- The rest of the buffer is flushed at the end. -/
def feedEncodedKey (path : StoredTreeNodePath) (isLeaf : Bool) (uninitialized : Vector UInt8 8) : Except PathError (List UInt8) := do
  let (start, state) ← encodedKeyStart path isLeaf uninitialized
  let state ← CountedLoop.run .endless path.size 2 (encodedKeyRound path) start state
  return if state.counter ≠ 0 then state.fed ++ state.buffer.toList.take state.counter.toNat else state.fed

/-- Leaves and branches are hashed with their encoded key. -/
inductive HashedNode where
  | leaf (path : StoredTreeNodePath) (value : Hash256)
  | branch (path : StoredTreeNodePath) (links : Fin 16 → Hash256)

namespace HashedNode

def path : HashedNode → StoredTreeNodePath
  | .leaf path _ => path
  | .branch path _ => path

def message (uninitialized : Vector UInt8 8) : HashedNode → Except PathError (List UInt8)
  | .leaf path value => do return (← feedEncodedKey path true uninitialized) ++ value.toList
  | .branch path links => do
    return (← feedEncodedKey path false uninitialized) ++ (List.ofFn fun index => (links index).toList).flatten

def hash [Sha3] (uninitialized : Vector UInt8 8) (node : HashedNode) : Except PathError Hash256 :=
  Sha3.sha3_256 <$> node.message uninitialized

end HashedNode

end Catapult.Tree
