import Catapult.Construction.Types
import Catapult.Library.Rounds

/-
This file models the comparison of the local chain with the chain of a remote node.
-/

namespace Catapult.Chain

open Rounds

inductive ChainComparisonCode where
  | remoteReportedEqualChainScore
  | remoteReportedLowerChainScore
  | localScoreUpdated
  | remoteIsTooFarBehind
  | remoteIsNotSynced
  | remoteReturnedTooManyHashes
  | remoteIsForked
  | remoteLiedAboutChainScore
  deriving DecidableEq

structure ChainStatistics where
  height : Height
  score : ChainScore

/-- The hash of the first block comes first; the hashes of a whole chain fit into memory. -/
structure LocalChain where
  hashes : List Hash256
  score : ChainScore
  stored : hashes.length < 2 ^ 63

inductive ChainApiError where
  | unableToGetHashes (height : Height)

namespace LocalChain

def chainHeight (chain : LocalChain) : Height := UInt64.ofNat chain.hashes.length

def chainStatistics (chain : LocalChain) : ChainStatistics := ⟨chain.chainHeight, chain.score⟩

/-- The range is empty if the height is not available. -/
def loadHashesFrom (chain : LocalChain) (height : Height) (maxHashes : Nat) : List Hash256 :=
  if height = 0 || chain.chainHeight < height then []
  else
    let numAvailableHashes := (chain.chainHeight - height).toNat + 1
    (chain.hashes.drop (height.toNat - 1)).take (min maxHashes numAvailableHashes)

def hashesFrom (chain : LocalChain) (height : Height) (maxHashes : UInt32) : Except ChainApiError (List Hash256) :=
  let hashes := chain.loadHashesFrom height maxHashes.toNat
  if hashes.isEmpty then .error (.unableToGetHashes height) else .ok hashes

end LocalChain

/-- A remote node reports any statistics and answers each request with any hashes. -/
structure RemoteChain where
  chainStatistics : ChainStatistics
  hashesFrom : Nat → Height → UInt32 → List Hash256

structure CompareChainsOptions where
  hashesPerBatch : UInt32
  finalizedHeight : Height

structure CompareChainsResult where
  code : ChainComparisonCode
  commonBlockHeight : Height
  forkDepth : UInt64

inductive Stage where
  | statistics
  | hashesFirst
  | hashesNext
  | scoreLocal
  deriving DecidableEq

structure CompareChainsContext where
  stage : Stage
  lowerBoundHeight : Height
  startingHashesHeight : Height
  upperBoundHeight : Height
  localHeight : Height
  remoteHeight : Height
  originalLocalScore : ChainScore
  commonBlockHeight : Height

def findFirstDifferenceIndex : List Hash256 → List Hash256 → Nat
  | lhs :: lhsRest, rhs :: rhsRest => if lhs ≠ rhs then 0 else findFirstDifferenceIndex lhsRest rhsRest + 1
  | _, _ => 0

namespace CompareChainsContext

def create : CompareChainsContext := ⟨.statistics, 0, 0, 0, 0, 0, 0, 0⟩

/-- A comparison without a code is incomplete. -/
abbrev Comparison := CompareChainsContext × Option ChainComparisonCode

def compareChainStatistics (options : CompareChainsOptions) (context : CompareChainsContext)
    (localStatistics remoteStatistics : ChainStatistics) : Comparison :=
  if remoteStatistics.height ≤ options.finalizedHeight then (context, some .remoteIsTooFarBehind)
  else if localStatistics.score < remoteStatistics.score then
    ({ context with
      originalLocalScore := localStatistics.score
      localHeight := localStatistics.height
      remoteHeight := remoteStatistics.height
      upperBoundHeight := localStatistics.height
      stage := .hashesFirst }, none)
  else if localStatistics.score = remoteStatistics.score then (context, some .remoteReportedEqualChainScore)
  else (context, some .remoteReportedLowerChainScore)

/-- A starting height that does not change ends the search. -/
def tryContinue (context : CompareChainsContext) (nextStartingHashesHeight : Height) : Comparison :=
  if context.startingHashesHeight = nextStartingHashesHeight then (context, some .remoteLiedAboutChainScore)
  else ({ context with startingHashesHeight := nextStartingHashesHeight, stage := .hashesNext }, none)

/-- All hashes of the remote node agree with the local ones. -/
def continueAfterMatch (context : CompareChainsContext) (localHeightDerivedFromHashes : Height) : Comparison :=
  if context.localHeight ≤ localHeightDerivedFromHashes then
    if localHeightDerivedFromHashes < context.remoteHeight then
      context.tryContinue (localHeightDerivedFromHashes - 1)
    else ({ context with stage := .scoreLocal }, none)
  else
    { context with lowerBoundHeight := context.startingHashesHeight }.tryContinue
      ((context.startingHashesHeight + context.upperBoundHeight) / 2)

def compareHashes (options : CompareChainsOptions) (context : CompareChainsContext)
    (localHashes remoteHashes : List Hash256) : Comparison :=
  if options.hashesPerBatch.toNat < remoteHashes.length || remoteHashes.length = 0 then
    (context, some .remoteReturnedTooManyHashes)
  else
    let firstDifferenceIndex := findFirstDifferenceIndex localHashes remoteHashes
    let commonBlockHeight := context.startingHashesHeight + (UInt64.ofNat firstDifferenceIndex - 1)
    let localHeightDerivedFromHashes := context.startingHashesHeight +
      (UInt64.ofNat (min localHashes.length remoteHashes.length) - 1)
    if context.stage = .hashesFirst && firstDifferenceIndex = 0 then (context, some .remoteIsForked)
    else if firstDifferenceIndex = 0 then
      { context with upperBoundHeight := context.startingHashesHeight }.tryContinue
        ((context.lowerBoundHeight + context.startingHashesHeight) / 2)
    else if remoteHashes.length = firstDifferenceIndex then
      context.continueAfterMatch localHeightDerivedFromHashes
    else
      ({ context with
        commonBlockHeight
        localHeight := if context.localHeight < localHeightDerivedFromHashes then localHeightDerivedFromHashes
          else context.localHeight }, some .remoteIsNotSynced)

def compareLocalScore (context : CompareChainsContext) (currentLocalScore : ChainScore) : Comparison :=
  if context.originalLocalScore < currentLocalScore then (context, some .localScoreUpdated)
  else (context, some .remoteLiedAboutChainScore)

/-- The promise is fulfilled with a result or with an exception. -/
abbrev Fulfillment := CompareChainsContext × Except ChainApiError CompareChainsResult

def isFutureChainComplete : Comparison → Progress CompareChainsContext Fulfillment
  | (context, none) => .incomplete context
  | (context, some code) =>
    .complete (context, .ok (if code = .remoteIsNotSynced then
        ⟨code, context.commonBlockHeight, context.localHeight - context.commonBlockHeight⟩
      else ⟨code, -1, 0⟩))

def startNextCompare (chain : LocalChain) (remote : RemoteChain) (options : CompareChainsOptions) (round : Nat)
    (context : CompareChainsContext) : Progress CompareChainsContext Fulfillment :=
  match context.stage with
  | .statistics =>
    isFutureChainComplete (compareChainStatistics options { context with
      lowerBoundHeight := options.finalizedHeight
      startingHashesHeight := options.finalizedHeight } chain.chainStatistics remote.chainStatistics)
  | .hashesFirst | .hashesNext =>
    match chain.hashesFrom context.startingHashesHeight options.hashesPerBatch with
    | .error error => .complete (context, .error error)
    | .ok localHashes =>
      isFutureChainComplete (compareHashes options context localHashes
        (remote.hashesFrom round context.startingHashesHeight options.hashesPerBatch))
  | .scoreLocal => isFutureChainComplete (context.compareLocalScore chain.score)

end CompareChainsContext

/-- The comparison after a number of rounds. -/
def compareChains (chain : LocalChain) (remote : RemoteChain) (options : CompareChainsOptions) :
    Nat → Progress CompareChainsContext CompareChainsContext.Fulfillment :=
  after (CompareChainsContext.startNextCompare chain remote options) .create

end Catapult.Chain
