import Catapult.Construction.Chain.BlockScorer
import Catapult.Construction.Delta.BaseSetDelta
import Catapult.Library.ByteStream
import Catapult.Library.Median

/-
This file models the cache of block statistics, its observer and the fee multiplier that the observer derives.
-/

namespace Catapult.Cache

open Catapult.Delta ByteStream

abbrev BlockFeeMultiplier := UInt32

structure BlockStatistic where
  height : Height
  timestamp : UInt64
  difficulty : Chain.Difficulty
  feeMultiplier : BlockFeeMultiplier

/-- A statistic of a height alone is used for comparisons. -/
def BlockStatistic.ofHeight (height : Height) : BlockStatistic := ⟨height, 0, .ofValue 0, 0⟩

/-- An ordered set lists its statistics by height. -/
def statisticKeying : Keying Height BlockStatistic where
  toKey := BlockStatistic.height
  place := List.orderedInsert fun first second => first.height ≤ second.height
  place_perm _ _ := List.perm_orderedInsert _ _ _

abbrev StatisticSet := KeyedSet statisticKeying

abbrev StatisticDelta := BaseSetDelta statisticKeying

/-- The use of an iterator or of a delta that does not exist is undefined. -/
inductive CacheError where
  | runtimeError (message : String)
  | invalidArgument (message : String)
  | invalidHeight (operation : String) (elementHeight cacheHeight : Height)
  | heightNotFound (message : String) (height : Height)
  | undefinedBehavior
  | fileIoError
  deriving DecidableEq

/-- The iteration over a delta takes one step for each element and one to notice the end. -/
def iterableStatistics (delta : StatisticDelta) : Option (List BlockStatistic) :=
  (makeIterableView delta).collect (delta.originalElements.length + delta.addedElements.length + 1)

/-- The range ends behind the height and starts at the first element of the set or at most `count - 1` heights before. -/
def rangeOf (elements : List BlockStatistic) (height : Height) (count : UInt64) : Except CacheError (List BlockStatistic) :=
  match elements.findIdx? fun statistic => statistic.height = height with
  | none => .error (.heightNotFound "element with specified height not found" height)
  | some last =>
    match elements.head? with
    | none => .error .undefinedBehavior
    | some firstSetElement =>
      let first := if height - firstSetElement.height < count - 1 then firstSetElement.height else height - (count - 1)
      match elements.findIdx? fun statistic => statistic.height = first with
      | none => .error .undefinedBehavior
      | some start => if start ≤ last + 1 then .ok ((elements.take (last + 1)).drop start) else .error .undefinedBehavior

/-- The sets that a range is taken from differ only in their iteration. -/
def statisticsOf (empty : Bool) (elements : Option (List BlockStatistic)) (height : Height) (count : UInt64) :
    Except CacheError (List BlockStatistic) :=
  if empty then .error (.runtimeError "block statistic cache is empty")
  else if height = 0 ∨ count = 0 then .error (.invalidArgument "specified height or count out of range")
  else
    match elements with
    | none => .error .undefinedBehavior
    | some elements => rangeOf elements height count

/-- The pruning boundary is applied when the delta is committed. -/
structure BlockStatisticCacheDelta where
  orderedDelta : StatisticDelta
  historySize : UInt64
  startHeight : Height
  pruningBoundary : Option BlockStatistic

namespace BlockStatisticCacheDelta

/-- An empty set indicates the initial seeding of the cache. -/
def ofSet (elements : StatisticSet) (historySize : UInt64) : BlockStatisticCacheDelta where
  orderedDelta := .ofSet elements
  historySize := historySize
  startHeight :=
    if (BaseSetDelta.ofSet elements).empty then 1
    else (((makeIterableView (BaseSetDelta.ofSet elements)).iteratorAt 0).iter.head?.map BlockStatistic.height).getD 1
  pruningBoundary := none

def nextHeight (delta : BlockStatisticCacheDelta) : Height := delta.startHeight + delta.orderedDelta.size

def throwInvalidHeightError {α : Type} (operation : String) (nextCacheHeight elementHeight : Height) : Except CacheError α :=
  .error (.invalidHeight operation elementHeight (nextCacheHeight - 1))

/-- The first inserted statistic determines the start of an empty set. -/
def checkInsert (delta : BlockStatisticCacheDelta) (height : Height) : Except CacheError BlockStatisticCacheDelta :=
  if delta.orderedDelta.empty then .ok { delta with startHeight := height }
  else if delta.nextHeight ≠ height then throwInvalidHeightError "insert" delta.nextHeight height
  else .ok delta

def checkRemove (delta : BlockStatisticCacheDelta) (height : Height) : Except CacheError Unit :=
  if delta.orderedDelta.empty then .error (.runtimeError "remove called on empty cache")
  else if delta.nextHeight ≠ height + 1 then throwInvalidHeightError "remove" delta.nextHeight height
  else .ok ()

def insert (delta : BlockStatisticCacheDelta) (statistic : BlockStatistic) : Except CacheError BlockStatisticCacheDelta := do
  let checked ← delta.checkInsert statistic.height
  return { checked with orderedDelta := (checked.orderedDelta.insert statistic).2 }

def removeAt (delta : BlockStatisticCacheDelta) (height : Height) : Except CacheError BlockStatisticCacheDelta := do
  delta.checkRemove height
  return { delta with orderedDelta := (delta.orderedDelta.remove height).2 }

/-- The height is checked twice. -/
def remove (delta : BlockStatisticCacheDelta) (statistic : BlockStatistic) : Except CacheError BlockStatisticCacheDelta := do
  delta.checkRemove statistic.height
  delta.removeAt statistic.height

/-- The boundary keeps one statistic more than the history needs. -/
def prune (delta : BlockStatisticCacheDelta) (height : Height) : BlockStatisticCacheDelta :=
  if height > delta.historySize then { delta with pruningBoundary := some (.ofHeight (height - delta.historySize)) } else delta

def statistics (delta : BlockStatisticCacheDelta) (height : Height) (count : UInt64) : Except CacheError (List BlockStatistic) :=
  statisticsOf delta.orderedDelta.empty (iterableStatistics delta.orderedDelta) height count

end BlockStatisticCacheDelta

/-- The elements before the lower bound of the boundary are erased. -/
def pruneBaseSet (elements : StatisticSet) (boundary : BlockStatistic) : StatisticSet where
  elements := elements.elements.dropWhile fun statistic => statistic.height < boundary.height
  distinct := elements.distinct.sublist ((List.dropWhile_sublist _).map _)

/-- A reset delta refers to the committed elements. -/
def commitDelta (elements : StatisticSet) (delta : BlockStatisticCacheDelta) :
    Except CacheError (StatisticSet × BlockStatisticCacheDelta) :=
  match updateSet elements delta.orderedDelta.deltas with
  | .error message => .error (.invalidArgument message)
  | .ok updated =>
    let pruned := match delta.pruningBoundary with
      | some boundary => pruneBaseSet updated boundary
      | none => updated
    .ok (pruned, { delta with orderedDelta := .ofSet pruned })

/-- A view of the committed elements finds statistics in the same way. -/
def viewStatistics (elements : StatisticSet) (height : Height) (count : UInt64) : Except CacheError (List BlockStatistic) :=
  statisticsOf elements.elements.isEmpty (some elements.elements) height count

/-- Statistics without a fee multiplier are skipped. -/
def collectFeeMultipliers (count : Nat) : List BlockStatistic → List BlockFeeMultiplier → List BlockFeeMultiplier
  | [], feeMultipliers => feeMultipliers
  | statistic :: statistics, feeMultipliers =>
    if feeMultipliers.length < count then
      collectFeeMultipliers count statistics
        (if statistic.feeMultiplier ≠ 0 then feeMultipliers ++ [statistic.feeMultiplier] else feeMultipliers)
    else feeMultipliers

def calculateDynamicFeeMultiplier (statistics : List BlockStatistic) (count : Nat) (defaultFeeMultiplier : BlockFeeMultiplier) :
    BlockFeeMultiplier :=
  if count = 0 then defaultFeeMultiplier
  else
    let feeMultipliers := collectFeeMultipliers count statistics []
    let padded := feeMultipliers ++ List.replicate (count - feeMultipliers.length) defaultFeeMultiplier
    (Median.nthElement UInt32.toNat padded (count / 2)).getD defaultFeeMultiplier

def statisticCodec : Codec BlockStatistic :=
  (Codec.word64.pair (Codec.word64.pair (Codec.word64.pair Codec.word32))).via
    (fun statistic => (statistic.height, statistic.timestamp, statistic.difficulty.value, statistic.feeMultiplier))
    (fun fields => ⟨fields.1, fields.2.1, .ofValue fields.2.2.1, fields.2.2.2⟩)
    (fun statistic => by
      have clamped : Chain.Difficulty.clamp statistic.difficulty.value = statistic.difficulty.value := by
        rw [Chain.Difficulty.clamp, if_neg (UInt64.not_lt.mpr statistic.difficulty.min_le),
          if_neg (UInt64.not_lt.mpr statistic.difficulty.le_max)]
      obtain ⟨height, timestamp, ⟨value, min_le, le_max⟩, feeMultiplier⟩ := statistic
      simp only [Chain.Difficulty.ofValue]
      congr)

/-- A cache is saved as its size and its elements in the order of iteration. -/
def saveStatistics (size : UInt64) (elements : List BlockStatistic) : List UInt8 :=
  Codec.word64.write size ++ elements.flatMap statisticCodec.write

def saveAll (elements : StatisticSet) : List UInt8 := saveStatistics (UInt64.ofNat elements.length) elements.elements

/-- The summary contains the elements of the delta before they are pruned. -/
def saveSummary (delta : BlockStatisticCacheDelta) : Option (List UInt8) :=
  (iterableStatistics delta.orderedDelta).map (saveStatistics delta.orderedDelta.size)

/-- A chunk is inserted into the delta element by element. -/
def loadChunk : Nat → BlockStatisticCacheDelta → Reader CacheError BlockStatisticCacheDelta
  | 0, delta => return delta
  | numRequestedEntries + 1, delta => do
    let statistic ← statisticCodec.take .fileIoError
    loadChunk numRequestedEntries (← (delta.insert statistic : Except CacheError _))

/-- Every chunk is committed through the same delta; the loop does not end if chunks are empty. -/
def loadChunks (batchSize : Nat) : Nat → Nat → StatisticSet × BlockStatisticCacheDelta →
    Reader CacheError (StatisticSet × BlockStatisticCacheDelta)
  | _, 0, cache => return cache
  | 0, _ + 1, _ => throw .undefinedBehavior
  | rounds + 1, numRemainingEntries + 1, (elements, delta) => do
    let numRequestedEntries := min batchSize (numRemainingEntries + 1)
    let loaded ← loadChunk numRequestedEntries delta
    let cache ← (commitDelta elements loaded : Except CacheError _)
    loadChunks batchSize rounds (numRemainingEntries + 1 - numRequestedEntries) cache

def loadAll (historySize : UInt64) (batchSize : Nat) : Reader CacheError StatisticSet := do
  let numRemainingEntries ← Codec.word64.take .fileIoError
  let cache ← loadChunks batchSize numRemainingEntries.toNat numRemainingEntries.toNat (.empty, .ofSet .empty historySize)
  return cache.1

/-- The history size of the cache is the number of blocks for the difficulty. -/
structure StatisticConfiguration where
  maxDifficultyBlocks : UInt32
  defaultDynamicFeeMultiplier : BlockFeeMultiplier

inductive NotifyMode where
  | commit
  | rollback

/-- A catapult cache delta carries the dependent state along with its sub cache. -/
structure CatapultCacheDelta where
  statistics : BlockStatisticCacheDelta
  dynamicFeeMultiplier : BlockFeeMultiplier

/-- The observer changes the statistics and recomputes the fee multiplier. -/
def blockStatisticObserver (config : StatisticConfiguration) (mode : NotifyMode) (statistic : BlockStatistic)
    (cache : CatapultCacheDelta) : Except CacheError CatapultCacheDelta := do
  let (changed, effectiveHeight) ← match mode with
    | .commit => do
      let changed ← cache.statistics.insert statistic
      pure (changed, statistic.height)
    | .rollback => do
      let changed ← cache.statistics.remove statistic
      pure (changed, statistic.height - 1)
  let statistics ← changed.statistics effectiveHeight config.maxDifficultyBlocks.toUInt64
  return ⟨changed, calculateDynamicFeeMultiplier statistics config.maxDifficultyBlocks.toNat config.defaultDynamicFeeMultiplier⟩

/-- The cache of a node with its dependent state and the delta that is attached to it. -/
structure StatisticNode where
  elements : StatisticSet
  dynamicFeeMultiplier : BlockFeeMultiplier
  delta : Option CatapultCacheDelta

/-- A restart loads what was saved from the cache or from the delta of the last state change. -/
inductive NodeEvent where
  | createDelta
  | execute (statistic : BlockStatistic)
  | undo (statistic : BlockStatistic)
  | prune (height : Height)
  | commit
  | discard
  | restart (batchSize : Nat)
  | restartFromSummary (batchSize : Nat)

def StatisticNode.withDelta {α : Type} (node : StatisticNode) (use : CatapultCacheDelta → Except CacheError α) : Except CacheError α :=
  match node.delta with
  | none => .error .undefinedBehavior
  | some delta => use delta

def StatisticNode.load (config : StatisticConfiguration) (batchSize : Nat) (dynamicFeeMultiplier : BlockFeeMultiplier)
    (bytes : List UInt8) : Except CacheError StatisticNode := do
  let loaded ← loadAll config.maxDifficultyBlocks.toUInt64 batchSize bytes
  return ⟨loaded.1, dynamicFeeMultiplier, none⟩

/-- The delta is released after it was committed. -/
def StatisticNode.perform (config : StatisticConfiguration) (node : StatisticNode) : NodeEvent → Except CacheError StatisticNode
  | .createDelta =>
    match node.delta with
    | some _ => .error (.runtimeError "only a single attached delta is allowed at a time")
    | none =>
      .ok { node with delta := some ⟨.ofSet node.elements config.maxDifficultyBlocks.toUInt64, node.dynamicFeeMultiplier⟩ }
  | .execute statistic => node.withDelta fun delta => do
    return { node with delta := some (← blockStatisticObserver config .commit statistic delta) }
  | .undo statistic => node.withDelta fun delta => do
    return { node with delta := some (← blockStatisticObserver config .rollback statistic delta) }
  | .prune height => node.withDelta fun delta =>
    .ok { node with delta := some { delta with statistics := delta.statistics.prune height } }
  | .commit => node.withDelta fun delta => do
    let committed ← commitDelta node.elements delta.statistics
    return ⟨committed.1, delta.dynamicFeeMultiplier, none⟩
  | .discard => .ok { node with delta := none }
  | .restart batchSize => StatisticNode.load config batchSize node.dynamicFeeMultiplier (saveAll node.elements)
  | .restartFromSummary batchSize => node.withDelta fun delta =>
    match saveSummary delta.statistics with
    | none => .error .undefinedBehavior
    | some bytes => StatisticNode.load config batchSize delta.dynamicFeeMultiplier bytes

/-- A node starts with an empty cache. -/
def StatisticNode.initial : StatisticNode := ⟨.empty, 0, none⟩

end Catapult.Cache
