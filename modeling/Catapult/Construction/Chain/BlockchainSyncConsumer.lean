import Catapult.Construction.Chain.BlockScorer

/-
This file models the consumer that switches the local chain to a better remote chain.
-/

namespace Catapult.Sync

/-- The heights of a chain stay below the width of the source type. -/
structure Block where
  height : Nat
  timestamp : UInt64
  difficulty : UInt64
  isImportanceBlock : Bool
  previousImportanceBlockHash : Hash256
  deriving DecidableEq

structure BlockElement where
  block : Block
  entityHash : Hash256
  transactions : List Hash256
  deriving DecidableEq

structure HeightHashPair where
  height : Nat
  hash : Hash256
  deriving DecidableEq

inductive InputSource where
  | unknown
  | loc
  | remotePull
  | remotePush
  deriving DecidableEq

/-- The heights of an input are consecutive. -/
structure ConsumerInput where
  elements : List BlockElement
  source : InputSource
  consecutive : ∀ first ∈ elements.head?, ∀ (index : Nat) (element : BlockElement),
    elements[index]? = some element → element.block.height = first.block.height + index

inductive FailureCode where
  | emptyInput
  | remoteChainUnlinked
  | remoteChainTooFarBehind
  | remoteChainDifficultiesMismatch
  | remoteChainScoreNotBetter
  | remoteChainImproperImportanceLink
  | processing (code : UInt32)
  deriving DecidableEq

inductive SyncError where
  | invalidArgument (message : String) (height storageHeight : Nat)
  | rangeError (message : String)
  | handler (code : UInt32)
  deriving DecidableEq

/-- A sync is aborted or an exception leaves the consumer. -/
inductive Stop where
  | abort (code : FailureCode)
  | thrown (error : SyncError)
  deriving DecidableEq

def require (condition : Bool) (stop : Stop) : Except Stop Unit := if condition then .ok () else .error stop

/-- The first element is the nemesis block. -/
structure BlockStorage where
  elements : List BlockElement
  numbered : ∀ (index : Nat) (element : BlockElement), elements[index]? = some element → element.block.height = index + 1

namespace BlockStorage

def chainHeight (storage : BlockStorage) : Nat := storage.elements.length

def loadBlockElement (storage : BlockStorage) (height : Nat) : Except Stop BlockElement :=
  match height with
  | 0 => .error (.thrown (.invalidArgument "cannot load block element" 0 storage.chainHeight))
  | index + 1 =>
    match storage.elements[index]? with
    | none => .error (.thrown (.invalidArgument "cannot load block element" height storage.chainHeight))
    | some element => .ok element

/-- No hash is loaded when the height is unavailable. -/
def contains (storage : BlockStorage) (pair : HeightHashPair) : Bool :=
  match pair.height with
  | 0 => false
  | index + 1 =>
    match storage.elements[index]? with
    | none => false
    | some element => pair.hash = element.entityHash

def dropBlocksAfter (storage : BlockStorage) (height : Nat) : BlockStorage where
  elements := storage.elements.take height
  numbered := by
    intro index element found
    rw [List.getElem?_take] at found
    split at found
    · exact storage.numbered index element found
    · cases found

def saveBlock (storage : BlockStorage) (element : BlockElement) : Except Stop BlockStorage :=
  if next : element.block.height = storage.chainHeight + 1 then
    .ok ⟨storage.elements ++ [element], by
      intro index other found
      rw [List.getElem?_append] at found
      split at found
      · exact storage.numbered index other found
      · next outside =>
        obtain ⟨last, rfl⟩ : index = storage.elements.length ∧ element = other := by
          cases gap : index - storage.elements.length with
          | zero =>
            rw [gap] at found
            exact ⟨by omega, by simpa using found⟩
          | succ rest =>
            rw [gap] at found
            simp at found
        rw [last]
        exact next⟩
  else .error (.thrown (.invalidArgument "cannot save block" element.block.height storage.chainHeight))

def saveBlocks (storage : BlockStorage) (elements : List BlockElement) : Except Stop BlockStorage :=
  elements.foldlM saveBlock storage

end BlockStorage

/-- The subtraction of the elapsed seconds wraps around. -/
def calculateScore (parent block : Block) : UInt64 :=
  if block.timestamp ≤ parent.timestamp then 0
  else block.difficulty - (Chain.TimeSpan.fromDifference block.timestamp parent.timestamp).seconds

/-- A chain score has more bits than the sum of all block scores needs. -/
def calculatePartialChainScore (parent : Block) : List Block → Nat
  | [] => 0
  | block :: blocks => (calculateScore parent block).toNat + calculatePartialChainScore block blocks

/-- Scores that are too far apart cannot be subtracted. -/
def subtractScores (score other : Nat) : Except Stop Int :=
  if 2 ^ 63 ≤ Int.natAbs ((score : Int) - other) then
    .error (.thrown (.rangeError "subtraction failed because chain scores are too far apart"))
  else .ok ((score : Int) - other)

inductive UndoBlockType where
  | rollback
  | common
  deriving DecidableEq

inductive ValidationResult where
  | success
  | failure (code : UInt32)
  deriving DecidableEq

variable {C : Type}

/-- The handlers give any answers, also exceptions. -/
structure BlockchainSyncHandlers (C : Type) where
  localFinalizedHeightHashPair : HeightHashPair
  networkFinalizedHeightHashPair : HeightHashPair
  difficultyChecker : List Block → C → Bool
  undoBlock : BlockElement → UndoBlockType → C → Except SyncError C
  processor : BlockElement → List BlockElement → C → Except SyncError (ValidationResult × C)

/-- The caches are pruned by finalized times and heights. -/
structure CachePruning (C : Type) where
  pruneTime : UInt64 → C → C
  pruneHeight : Nat → C → C

/-- The last finalized height is part of the state that belongs to the cache. -/
structure Node (C : Type) where
  storage : BlockStorage
  cache : C
  lastFinalizedHeight : Nat
  cacheHeight : Nat

/-- The undone blocks are recorded in the order of the handler calls. -/
structure UnwindResult (C : Type) where
  score : Nat
  transactionInfos : List Hash256
  cache : C
  undone : List (BlockElement × UndoBlockType)

def isLinked (peerStartHeight localChainHeight : Nat) (source : InputSource) : Bool :=
  2 ≤ peerStartHeight && peerStartHeight ≤ localChainHeight + 1 &&
    (source = .remotePull || localChainHeight ≤ peerStartHeight)

def containsElement (elements : List BlockElement) (pair : HeightHashPair) : Bool :=
  match elements with
  | [] => false
  | first :: _ =>
    if first.block.height ≤ pair.height then
      match elements[pair.height - first.block.height]? with
      | none => false
      | some element => pair.hash = element.entityHash
    else false

def callUndo (handlers : BlockchainSyncHandlers C) (element : BlockElement) (undoBlockType : UndoBlockType)
    (result : UnwindResult C) : Except Stop (UnwindResult C) :=
  match handlers.undoBlock element undoBlockType result.cache with
  | .error error => .error (.thrown error)
  | .ok cache => .ok { result with cache, undone := result.undone ++ [(element, undoBlockType)] }

/-- The score and the transactions of a block are added when its parent is loaded. -/
def addChild (parent : BlockElement) (child : Option BlockElement) (result : UnwindResult C) : UnwindResult C :=
  match child with
  | none => result
  | some child => { result with
      score := result.score + (calculateScore parent.block child.block).toNat
      transactionInfos := child.transactions ++ result.transactionInfos }

def unwindFrom (handlers : BlockchainSyncHandlers C) (storage : BlockStorage) (commonBlockHeight : Nat) :
    Nat → Option BlockElement → UnwindResult C → Except Stop (UnwindResult C)
  | 0, _, _ => .error (.thrown (.invalidArgument "cannot load block element" 0 storage.chainHeight))
  | index + 1, child, result => do
    let parent ← storage.loadBlockElement (index + 1)
    let extended := addChild parent child result
    if index + 1 = commonBlockHeight then callUndo handlers parent .common extended
    else
      let undone ← callUndo handlers parent .rollback extended
      unwindFrom handlers storage commonBlockHeight index (some parent) undone

def unwindLocalChain (handlers : BlockchainSyncHandlers C) (storage : BlockStorage) (commonBlockHeight : Nat)
    (cache : C) : Except Stop (UnwindResult C) :=
  if storage.chainHeight = commonBlockHeight then .ok ⟨0, [], cache, []⟩
  else unwindFrom handlers storage commonBlockHeight storage.chainHeight none ⟨0, [], cache, []⟩

structure SyncState (C : Type) where
  localFinalizedHeight : Nat
  localFinalizedTime : UInt64
  commonBlockElement : BlockElement
  scoreDelta : Int
  unwound : UnwindResult C

/-- A finalized block that is missing locally comes with the remote chain. -/
def isFinalizedBlockUpdate (handlers : BlockchainSyncHandlers C) (storage : BlockStorage) (elements : List BlockElement) : Bool :=
  !storage.contains handlers.networkFinalizedHeightHashPair &&
    containsElement elements handlers.networkFinalizedHeightHashPair

def preprocess (handlers : BlockchainSyncHandlers C) (node : Node C) (first : BlockElement)
    (elements : List BlockElement) (source : InputSource) : Except Stop (SyncState C) := do
  let peerStartHeight := first.block.height
  let update := isFinalizedBlockUpdate handlers node.storage elements
  let localFinalizedHeight := handlers.localFinalizedHeightHashPair.height
  require (isLinked peerStartHeight node.storage.chainHeight source) (.abort .remoteChainUnlinked)
  require (localFinalizedHeight < peerStartHeight || update) (.abort .remoteChainTooFarBehind)
  let blocks := elements.map BlockElement.block
  require (handlers.difficultyChecker blocks node.cache) (.abort .remoteChainDifficultiesMismatch)
  let finalized ← node.storage.loadBlockElement localFinalizedHeight
  let unwound ← unwindLocalChain handlers node.storage (peerStartHeight - 1) node.cache
  let commonBlockElement ← node.storage.loadBlockElement (peerStartHeight - 1)
  let peerScore := calculatePartialChainScore commonBlockElement.block blocks
  require (unwound.score < peerScore || update) (.abort .remoteChainScoreNotBetter)
  let scoreDelta ← subtractScores peerScore unwound.score
  return ⟨localFinalizedHeight, finalized.block.timestamp, commonBlockElement, scoreDelta, unwound⟩

/-- The previous importance block is one grouping below. -/
def previousImportanceHeight (height importanceGrouping : Nat) : Except Stop Nat :=
  if importanceGrouping = 0 then .error (.thrown (.invalidArgument "grouping must be non-zero" height 0))
  else if height = 1 ∨ (height ≠ 0 ∧ height % importanceGrouping = 0) then
    .ok (if importanceGrouping < height then height - importanceGrouping else 1)
  else .error (.thrown (.invalidArgument "grouped height is inconsistent with grouping" height importanceGrouping))

/-- The first importance block is linked to the one before it. -/
def checkImportanceLink (importanceGrouping : Nat) (storage : BlockStorage) (elements : List BlockElement) : Except Stop Unit :=
  match elements.find? fun element => element.block.isImportanceBlock with
  | none => .ok ()
  | some element => do
    let height ← previousImportanceHeight element.block.height importanceGrouping
    let previous ← storage.loadBlockElement height
    require (previous.entityHash = element.block.previousImportanceBlockHash)
      (.abort .remoteChainImproperImportanceLink)

def process (importanceGrouping : Nat) (handlers : BlockchainSyncHandlers C) (storage : BlockStorage)
    (elements : List BlockElement) (state : SyncState C) : Except Stop C :=
  match handlers.processor state.commonBlockElement elements state.unwound.cache with
  | .error error => .error (.thrown error)
  | .ok (.failure code, _) => .error (.abort (.processing code))
  | .ok (.success, cache) => do
    checkImportanceLink importanceGrouping storage elements
    return cache

/-- The heights above the first up to the second are pruned in ascending order. -/
def prunedRange (startHeight endHeight : Nat) : List Nat :=
  (List.range (endHeight - startHeight)).map fun index => startHeight + 1 + index

/-- A successful sync reports what the handlers and the cache were called with. -/
structure SyncReport where
  undone : List (BlockElement × UndoBlockType)
  prunedTime : UInt64
  prunedHeights : List Nat
  scoreDelta : Int
  revertedTransactionInfos : List Hash256

def collectRevertedTransactionInfos (elements : List BlockElement) (removed : List Hash256) : List Hash256 :=
  removed.filter fun hash => hash ∉ elements.flatMap BlockElement.transactions

def commitAll (pruning : CachePruning C) (node : Node C) (elements : List BlockElement) (last : BlockElement)
    (state : SyncState C) (cache : C) : Except Stop (Node C × SyncReport) := do
  let storage ← (node.storage.dropBlocksAfter state.commonBlockElement.block.height).saveBlocks elements
  let heights := prunedRange node.lastFinalizedHeight state.localFinalizedHeight
  let pruned := heights.foldl (fun cache height => pruning.pruneHeight height cache)
    (pruning.pruneTime state.localFinalizedTime cache)
  return (⟨storage, pruned, state.localFinalizedHeight, last.block.height⟩,
    ⟨state.unwound.undone, state.localFinalizedTime, heights, state.scoreDelta,
      collectRevertedTransactionInfos elements state.unwound.transactionInfos⟩)

def sync (importanceGrouping : Nat) (pruning : CachePruning C) (handlers : BlockchainSyncHandlers C)
    (node : Node C) (input : ConsumerInput) : Except Stop (Node C × SyncReport) :=
  match input.elements with
  | [] => .error (.abort .emptyInput)
  | first :: rest => do
    let state ← preprocess handlers node first (first :: rest) input.source
    let cache ← process importanceGrouping handlers node.storage (first :: rest) state
    commitAll pruning node (first :: rest) ((first :: rest).getLast (List.cons_ne_nil first rest)) state cache

/-- The storage and the original cache are only changed by a committed sync. -/
def consume (importanceGrouping : Nat) (pruning : CachePruning C) (node : Node C)
    (action : BlockchainSyncHandlers C × ConsumerInput) : Node C × Except Stop SyncReport :=
  match sync importanceGrouping pruning action.1 node action.2 with
  | .error stop => (node, .error stop)
  | .ok (next, report) => (next, .ok report)

/-- The reports of the accepted syncs are collected. -/
def consumeAll (importanceGrouping : Nat) (pruning : CachePruning C) :
    Node C → List (BlockchainSyncHandlers C × ConsumerInput) → Node C × List SyncReport
  | node, [] => (node, [])
  | node, action :: actions =>
    let (next, result) := consume importanceGrouping pruning node action
    let (final, reports) := consumeAll importanceGrouping pruning next actions
    match result with
    | .error _ => (final, reports)
    | .ok report => (final, report :: reports)

/-- Without finalization proofs a fixed number of blocks can be rolled back. -/
def localFinalizedHeight (maxRollbackBlocks : Nat) (storage : BlockStorage) : Nat :=
  if storage.chainHeight ≤ maxRollbackBlocks then 1 else storage.chainHeight - maxRollbackBlocks

end Catapult.Sync
