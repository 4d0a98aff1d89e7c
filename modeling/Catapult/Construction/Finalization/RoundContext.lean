import Catapult.Construction.Types
import Mathlib.Data.Finset.Sort

/-
This file models the tree of hashes that the votes of a finalization round refer to, and the counting of these votes.
-/

namespace Catapult.Finalization

/-- A block is identified by its height and its hash. -/
structure HeightHashPair where
  height : Height
  hash : Hash256
  deriving DecidableEq

namespace HeightHashPair

/-- Pairs are ordered by height and then by hash. -/
instance : LE HeightHashPair where
  le lhs rhs := lhs.height < rhs.height ∨ lhs.height = rhs.height ∧ lhs.hash ≤ rhs.hash

instance : DecidableRel fun lhs rhs : HeightHashPair => lhs ≤ rhs := fun lhs rhs =>
  inferInstanceAs (Decidable (lhs.height < rhs.height ∨ lhs.height = rhs.height ∧ lhs.hash ≤ rhs.hash))

/-- The descending order is total. -/
instance : Std.Total fun lhs rhs : HeightHashPair => rhs ≤ lhs where
  total lhs rhs := by
    by_cases same : lhs.height = rhs.height
    · rcases Vector.le_total rhs.hash lhs.hash with below | above
      · exact .inl (.inr ⟨same.symm, below⟩)
      · exact .inr (.inr ⟨same, above⟩)
    · rcases UInt64.lt_or_lt_of_ne same with below | above
      · exact .inr (.inl below)
      · exact .inl (.inl above)

instance : Std.Antisymm fun lhs rhs : HeightHashPair => rhs ≤ lhs where
  antisymm lhs rhs := by
    obtain ⟨lhsHeight, lhsHash⟩ := lhs
    obtain ⟨rhsHeight, rhsHash⟩ := rhs
    rintro (below | ⟨same, below⟩) (above | ⟨other, above⟩)
    · exact absurd (UInt64.lt_trans below above) (UInt64.lt_irrefl _)
    · exact absurd (other ▸ below) (UInt64.lt_irrefl _)
    · exact absurd (same ▸ above) (UInt64.lt_irrefl _)
    · simp only [HeightHashPair.mk.injEq]
      exact ⟨other, Vector.le_antisymm above below⟩

instance : IsTrans HeightHashPair fun lhs rhs => rhs ≤ lhs where
  trans first second third := by
    rintro (below | ⟨same, below⟩) (further | ⟨other, further⟩)
    · exact .inl (UInt64.lt_trans further below)
    · exact .inl (other ▸ below)
    · exact .inl (same ▸ further)
    · exact .inr ⟨other.trans same, Vector.le_trans further below⟩

end HeightHashPair

/-- A node points to the node that preceded it when it was added. -/
structure TreeNode where
  key : HeightHashPair
  parent : Option HeightHashPair

/-- The nodes are listed from the newest to the oldest; a parent is always older than its child. -/
structure FinalizationHashTree where
  nodes : List TreeNode

namespace FinalizationHashTree

def create : FinalizationHashTree := ⟨[]⟩

/-- The keys of the nodes are distinct. -/
def keys (tree : FinalizationHashTree) : List HeightHashPair := tree.nodes.map TreeNode.key

def contains (tree : FinalizationHashTree) (key : HeightHashPair) : Bool := key ∈ tree.keys

/-- The pointers are followed from a node to the root of its branch. -/
def findAncestorsFrom : List TreeNode → Option HeightHashPair → List HeightHashPair
  | [], _ => []
  | _, none => []
  | node :: nodes, some key =>
    if node.key = key then key :: findAncestorsFrom nodes node.parent
    else findAncestorsFrom nodes (some key)

def findAncestors (tree : FinalizationHashTree) (key : HeightHashPair) : List HeightHashPair :=
  findAncestorsFrom tree.nodes (some key)

def isDescendantFrom (parentKey : HeightHashPair) : List TreeNode → Option HeightHashPair → Bool
  | [], _ => false
  | _, none => false
  | node :: nodes, some key =>
    if node.key = key then key = parentKey || isDescendantFrom parentKey nodes node.parent
    else isDescendantFrom parentKey nodes (some key)

def isDescendant (tree : FinalizationHashTree) (parentKey childKey : HeightHashPair) : Bool :=
  isDescendantFrom parentKey tree.nodes (some childKey)

/-- A node that is already present keeps its parent. -/
def insert (tree : FinalizationHashTree) (node : TreeNode) : FinalizationHashTree :=
  if tree.contains node.key then tree else ⟨node :: tree.nodes⟩

/-- Every key of a branch follows the previous one. -/
def addBranchAfter (parent : Option HeightHashPair) : List HeightHashPair → FinalizationHashTree → FinalizationHashTree
  | [], tree => tree
  | key :: keys, tree => addBranchAfter (some key) keys (tree.insert ⟨key, parent⟩)

/-- The keys of a branch have ascending heights. -/
def branchKeys (height : Height) (hashes : List Hash256) : List HeightHashPair :=
  hashes.mapIdx fun index hash => ⟨height + UInt64.ofNat index, hash⟩

def addBranch (tree : FinalizationHashTree) (height : Height) (hashes : List Hash256) :
    FinalizationHashTree := addBranchAfter none (branchKeys height hashes) tree

end FinalizationHashTree

open FinalizationHashTree

/-- These weights are associated with a finalization candidate. -/
structure Weights where
  prevote : UInt64
  precommit : UInt64
  deriving DecidableEq

def Weights.zero : Weights := ⟨0, 0⟩

/-- The candidates are kept in the order of their keys; an unknown key has no weights. -/
structure Candidates where
  keys : Finset HeightHashPair
  weights : HeightHashPair → Weights

namespace Candidates

def create : Candidates := ⟨∅, fun _ => Weights.zero⟩

/-- A new candidate starts without weights. -/
def emplace (candidates : Candidates) (key : HeightHashPair) : Candidates :=
  if key ∈ candidates.keys then candidates
  else ⟨insert key candidates.keys, Function.update candidates.weights key Weights.zero⟩

def addPrevote (candidates : Candidates) (key : HeightHashPair) (weight : UInt64) : Candidates :=
  { candidates with
    weights := Function.update candidates.weights key { candidates.weights key with
      prevote := (candidates.weights key).prevote + weight } }

def addPrecommit (candidates : Candidates) (key : HeightHashPair) (weight : UInt64) : Candidates :=
  { candidates with
    weights := Function.update candidates.weights key { candidates.weights key with
      precommit := (candidates.weights key).precommit + weight } }

end Candidates

/-- A key that is looked up for a change has no candidate. -/
inductive RoundError where
  | candidateNotFound (key : HeightHashPair)

structure RoundContext where
  totalWeight : UInt64
  threshold : UInt64
  cumulativePrecommitWeight : UInt64
  tree : FinalizationHashTree
  candidates : Candidates
  pendingPrecommitWeights : HeightHashPair → Option UInt64

namespace RoundContext

def create (weight threshold : UInt64) : RoundContext :=
  ⟨weight, threshold, 0, .create, .create, fun _ => none⟩

def weights (context : RoundContext) (key : HeightHashPair) : Weights :=
  if key ∈ context.candidates.keys then context.candidates.weights key else Weights.zero

/-- The sum and the difference are computed modulo the word size. -/
def canReachPrecommitThreshold (context : RoundContext) (weights : Weights) : Bool :=
  context.threshold ≤ weights.precommit + (context.totalWeight - context.cumulativePrecommitWeight)

/-- The candidates are searched from the last key to the first. -/
def reverseKeys (context : RoundContext) : List HeightHashPair :=
  context.candidates.keys.sort fun lhs rhs => rhs ≤ lhs

def tryFindLastMatch (context : RoundContext) (predicate : HeightHashPair → Weights → Bool) : Option HeightHashPair :=
  context.reverseKeys.find? fun key => predicate key (context.candidates.weights key)

def tryFindBestPrevote (context : RoundContext) : Option HeightHashPair :=
  context.tryFindLastMatch fun _ weights => context.threshold ≤ weights.prevote

def tryFindBestPrecommit (context : RoundContext) : Option HeightHashPair :=
  context.tryFindLastMatch fun _ weights =>
    context.threshold ≤ weights.prevote && context.threshold ≤ weights.precommit

def tryFindEstimateFor (context : RoundContext) (bestPrevote : HeightHashPair) : Option HeightHashPair :=
  context.tryFindLastMatch fun key weights =>
    context.tree.isDescendant key bestPrevote && context.canReachPrecommitThreshold weights

def tryFindEstimate (context : RoundContext) : Option HeightHashPair :=
  context.tryFindBestPrevote.bind context.tryFindEstimateFor

/-- A round with an estimate at the best prevote is completable if no descendant can be precommitted. -/
def isCompletable (context : RoundContext) : Bool :=
  match context.tryFindBestPrevote with
  | none => false
  | some bestPrevote =>
    let estimate := context.tryFindEstimateFor bestPrevote
    if estimate.isSome && estimate ≠ some bestPrevote then true
    else if context.canReachPrecommitThreshold Weights.zero then false
    else !context.reverseKeys.any fun key =>
      key ≠ bestPrevote && (context.tree.isDescendant bestPrevote key &&
        context.canReachPrecommitThreshold (context.candidates.weights key))

/-- The weight of a precommit is added to all ancestors, which must be candidates. -/
def addPrecommitWeight (candidates : Candidates) (ancestorKeys : List HeightHashPair) (weight : UInt64) :
    Except RoundError Candidates :=
  ancestorKeys.foldlM (fun candidates ancestorKey =>
    if ancestorKey ∈ candidates.keys then .ok (candidates.addPrecommit ancestorKey weight)
    else .error (.candidateNotFound ancestorKey)) candidates

/-- A key of a prevote becomes a candidate and releases the precommits that wait for it. -/
def acceptPrevoteKey (weight : UInt64) (context : RoundContext) (key : HeightHashPair) : Except RoundError RoundContext :=
  let candidates := (context.candidates.emplace key).addPrevote key weight
  match context.pendingPrecommitWeights key with
  | none => .ok { context with candidates }
  | some pendingWeight => do
    let candidates ← addPrecommitWeight candidates (context.tree.findAncestors key) pendingWeight
    return { context with
      candidates
      cumulativePrecommitWeight := context.cumulativePrecommitWeight + pendingWeight
      pendingPrecommitWeights := Function.update context.pendingPrecommitWeights key none }

def acceptPrevote (context : RoundContext) (height : Height) (hashes : List Hash256) (weight : UInt64) :
    Except RoundError RoundContext :=
  (branchKeys height hashes).foldlM (acceptPrevoteKey weight)
    { context with tree := context.tree.addBranch height hashes }

/-- A precommit for an unknown key waits for a prevote. -/
def acceptPrecommit (context : RoundContext) (height : Height) (hash : Hash256) (weight : UInt64) :
    Except RoundError RoundContext :=
  let key := ⟨height, hash⟩
  let ancestorKeys := context.tree.findAncestors key
  if ancestorKeys.isEmpty then
    .ok { context with
      pendingPrecommitWeights := Function.update context.pendingPrecommitWeights key
        (some ((context.pendingPrecommitWeights key).getD 0 + weight)) }
  else do
    let candidates ← addPrecommitWeight context.candidates ancestorKeys weight
    return { context with
      candidates
      cumulativePrecommitWeight := context.cumulativePrecommitWeight + weight }

end RoundContext

/-- A vote is a prevote for a branch or a precommit for a block. -/
inductive Vote where
  | prevote (height : Height) (hashes : List Hash256) (weight : UInt64)
  | precommit (height : Height) (hash : Hash256) (weight : UInt64)

def RoundContext.accept (context : RoundContext) : Vote → Except RoundError RoundContext
  | .prevote height hashes weight => context.acceptPrevote height hashes weight
  | .precommit height hash weight => context.acceptPrecommit height hash weight

/-- The votes are delivered one after the other. -/
def RoundContext.acceptAll (context : RoundContext) (votes : List Vote) : Except RoundError RoundContext :=
  votes.foldlM RoundContext.accept context

end Catapult.Finalization
