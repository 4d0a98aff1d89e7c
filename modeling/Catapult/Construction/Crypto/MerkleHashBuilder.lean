import Catapult.Construction.Types

/-
This file models the merkle hash builder, which overwrites its hashes in place.
-/

namespace Catapult.Crypto

/-- The hash of a node is the digest of the hashes of its two children. -/
def merge [Sha3] (lhs rhs : Hash256) : Hash256 := Sha3.sha3_256 (lhs.toList ++ rhs.toList)

/-- A consumer is called with the hashes at a pointer, and it adds some hashes to the tree. -/
abbrev HashConsumer := List Hash256 → List Hash256 → Option (List Hash256)

/-- The consumer of the root hash does nothing. -/
def ignoreHashes : HashConsumer := fun _ tree => some tree

/-- The counter of the loop has 32 bits, and the hashes that are left are those at the pointer. -/
def pushFrom (count : Nat) : Nat → UInt32 → HashConsumer
  | 0, _, _, _ => none
  | rounds + 1, index, hashes, tree =>
    if index.toNat < count then
      match hashes with
      | [] => none
      | hash :: rest => pushFrom count rounds (index + 1) rest (tree ++ [hash])
    else some tree

/-- The consumer of the tree copies all hashes. -/
def pushHashes (limit : Nat) : HashConsumer := fun hashes tree => pushFrom hashes.length limit 0 hashes tree

/-- The tree holds the hashes that were consumed. -/
structure FinalState where
  hashes : List Hash256
  numRemainingHashes : Nat
  tree : List Hash256

section Final

variable [Sha3] (hashConsumer : HashConsumer)

/-- The counter of the loop has 32 bits, and the last hash of an odd level is duplicated. -/
def pairHashes : Nat → UInt32 → FinalState → Option FinalState
  | 0, _, _ => none
  | rounds + 1, index, state =>
    if index.toNat < state.numRemainingHashes then do
      let first ← state.hashes[index.toNat]?
      if (index + 1).toNat < state.numRemainingHashes then
        let second ← state.hashes[index.toNat + 1]?
        let hash := merge first second
        let tree ← hashConsumer [hash] state.tree
        pairHashes rounds (index + 2) ⟨state.hashes.set (index / 2).toNat hash, state.numRemainingHashes, tree⟩
      else
        let hash := merge first first
        let tree ← hashConsumer [hash] state.tree
        pairHashes rounds (index + 2) ⟨state.hashes.set (index / 2).toNat hash, state.numRemainingHashes + 1, tree⟩
    else some state

/-- The duplicate of an odd level is consumed before the next level. -/
def consumePadding (state : FinalState) : Option FinalState :=
  if state.numRemainingHashes % 2 = 1 then do
    let last ← state.hashes[state.numRemainingHashes - 1]?
    let tree ← hashConsumer [last] state.tree
    return { state with tree }
  else some state

/-- Every loop ends after the limit at the latest. -/
def buildLevels (limit : Nat) : Nat → FinalState → Option FinalState
  | 0, _ => none
  | rounds + 1, state =>
    if 1 < state.numRemainingHashes then do
      let padded ← consumePadding hashConsumer state
      let paired ← pairHashes hashConsumer limit 0 padded
      buildLevels limit rounds { paired with numRemainingHashes := paired.numRemainingHashes / 2 }
    else some state

/-- The outcome is the root hash with the hashes that were consumed. -/
def final (limit : Nat) (hashes : List Hash256) : Option (Hash256 × List Hash256) :=
  if hashes.isEmpty then do
    let tree ← hashConsumer [zeroHash] []
    return (zeroHash, tree)
  else do
    let tree ← hashConsumer hashes []
    let built ← buildLevels hashConsumer limit limit ⟨hashes, hashes.length, tree⟩
    let hash ← built.hashes[0]?
    return (hash, built.tree)

end Final

structure MerkleHashBuilder where
  hashes : List Hash256

namespace MerkleHashBuilder

def create : MerkleHashBuilder := ⟨[]⟩

def update (builder : MerkleHashBuilder) (hash : Hash256) : MerkleHashBuilder := ⟨builder.hashes ++ [hash]⟩

def finalHash [Sha3] (builder : MerkleHashBuilder) (limit : Nat) : Option Hash256 := do
  let outcome ← final ignoreHashes limit builder.hashes
  return outcome.1

def finalTree [Sha3] (builder : MerkleHashBuilder) (limit : Nat) : Option (List Hash256) := do
  let outcome ← final (pushHashes limit) limit builder.hashes
  return outcome.2

theorem halved_lt {size : UInt64} (great : 1 < size) : ((size + 1) >>> 1).toNat < size.toNat := by
  have above := UInt64.lt_iff_toNat_lt.mp great
  have bound := size.toNat_lt
  rw [UInt64.toNat_shiftRight, UInt64.toNat_add, show (1 : UInt64).toNat = 1 from rfl, Nat.mod_eq_of_lt (show 1 < 64 by decide),
    Nat.shiftRight_eq_div_pow, show (2 : Nat) ^ 1 = 2 from rfl]
  rw [show (1 : UInt64).toNat = 1 from rfl] at above
  omega

/-- The sizes of the levels are added up in 64 bits. -/
def treeSizeFrom (levelSize size : UInt64) : UInt64 :=
  if 1 < levelSize then treeSizeFrom ((levelSize + 1) >>> 1) (size + levelSize) else size
  termination_by levelSize.toNat
  decreasing_by exact halved_lt ‹_›

def treeSize (leafCount : UInt64) : UInt64 :=
  let adjustedLeafCount := if leafCount = 1 then 1 else if leafCount % 2 = 0 then leafCount else leafCount + 1
  let size := treeSizeFrom adjustedLeafCount 0
  if 2 ≤ size then size + 1 else 1

end MerkleHashBuilder

end Catapult.Crypto
