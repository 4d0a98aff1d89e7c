import Catapult.Construction.Delta.BaseSetDelta
import Catapult.Construction.Tree.TreeHistory

/-
This file models how the changes of a delta are applied to its state tree.
-/

namespace Catapult.Delta

open Catapult.Tree

variable {K E : Type} {keying : Keying K E}

/-- A value type may support activity, and its deactivation may be destructive. -/
structure ActivityTraits (E : Type) where
  isDeactivationDestructive : Bool
  isActive : E → Height → Bool

/-- A deactivation that is not destructive does not trigger any change in state. -/
def isActiveAdapter (traits : Option (ActivityTraits E)) (value : E) (height : Height) : Bool :=
  match traits with
  | none => true
  | some traits => !traits.isDeactivationDestructive || traits.isActive value height

/-- The delta, the tree and the next generation are updated together; a cache may have no tree. -/
structure PatriciaTreeDeltaMixin (keying : Keying K E) (D : Type) where
  set : BaseSetDelta keying
  tree : Option (PatriciaTree D)
  nextGenerationId : UInt32

/-- A new mixin starts at the current generation of its delta. -/
def PatriciaTreeDeltaMixin.create {D : Type} (set : BaseSetDelta keying) (tree : Option (PatriciaTree D)) :
    PatriciaTreeDeltaMixin keying D :=
  ⟨set, tree, set.generationId⟩

/-- Only keys of the generations from the given one to the current one are applied. -/
def needsApplication (set : BaseSetDelta keying) (minGenerationId : UInt32) (key : K) : Bool :=
  minGenerationId ≤ set.keyGenerationId key && set.keyGenerationId key ≤ set.generationId

/-- A value can be added and deactivated during the processing of a single chain part. -/
def handleModification (keying : Keying K E) (traits : Option (ActivityTraits E)) (height : Height)
    (element : E) : TreeUpdate K E :=
  if isActiveAdapter traits element height then .set (keying.toKey element) element
  else .unset (keying.toKey element)

section Tree

variable [Sha3] {D : Type} [DataSource D]

/-- One loop of `ApplyDeltasToTree` updates the tree for the elements that need it. -/
def applyElements (encoder : Encoder K E) (needs : K → Bool) (update : E → TreeUpdate K E)
    (elements : KeyedSet keying) (tree : PatriciaTree D) : Option (PatriciaTree D) :=
  elements.elements.foldlM (fun tree element =>
    if needs (keying.toKey element) then tree.applyUpdate encoder (update element) else some tree) tree

/-- The added, the copied and the removed elements are applied in this order. -/
def applyDeltasToTree (encoder : Encoder K E) (traits : Option (ActivityTraits E)) (tree : PatriciaTree D)
    (set : BaseSetDelta keying) (minGenerationId : UInt32) (height : Height) : Option (PatriciaTree D) := do
  let needs := needsApplication set minGenerationId
  let tree ← applyElements encoder needs (handleModification keying traits height) set.deltas.added tree
  let tree ← applyElements encoder needs (handleModification keying traits height) set.deltas.copied tree
  applyElements encoder needs (fun element => .unset (keying.toKey element)) set.deltas.removed tree

/-- An update saves the tree and starts the next generation. -/
def PatriciaTreeDeltaMixin.updateMerkleRoot (encoder : Encoder K E) (traits : Option (ActivityTraits E))
    (mixin : PatriciaTreeDeltaMixin keying D) (height : Height) : Option (PatriciaTreeDeltaMixin keying D) :=
  match mixin.tree with
  | none => some mixin
  | some tree => do
    let tree ← applyDeltasToTree encoder traits tree mixin.set mixin.nextGenerationId height
    let set := mixin.set.incrementGenerationId
    let tree ← tree.saveAll
    return ⟨set, some tree, set.generationId⟩

end Tree

/-- The operations of the delta are interleaved with updates of the merkle root. -/
inductive MixinOperation (keying : Keying K E) where
  | delta (operation : DeltaOperation keying)
  | updateMerkleRoot (height : Height)

/-- A run of operations gives no result if an operation on the tree throws. -/
def PatriciaTreeDeltaMixin.apply [DecidableEq K] [Sha3] {D : Type} [DataSource D] (encoder : Encoder K E)
    (traits : Option (ActivityTraits E)) (mixin : PatriciaTreeDeltaMixin keying D) :
    MixinOperation keying → Option (PatriciaTreeDeltaMixin keying D)
  | .delta operation => some { mixin with set := mixin.set.apply operation }
  | .updateMerkleRoot height => mixin.updateMerkleRoot encoder traits height

end Catapult.Delta
