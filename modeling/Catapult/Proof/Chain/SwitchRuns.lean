import Catapult.Construction.Chain.BlockchainSyncConsumer
import Catapult.Library.Runs

/-
This file proves when the consumer switches chains, what it keeps and that every sync of a run is safe.
-/

namespace Catapult.Sync

variable {C : Type}

/-- The score of a chain is the sum of the scores of its blocks. -/
def chainScore : List BlockElement → Nat
  | [] => 0
  | first :: rest => calculatePartialChainScore first.block (rest.map BlockElement.block)

/-- The score of a chain is split at any block. -/
theorem calculatePartialChainScore_split (parent block : Block) (blocks more : List Block) :
    calculatePartialChainScore parent (blocks ++ block :: more) =
      calculatePartialChainScore parent (blocks ++ [block]) + calculatePartialChainScore block more := by
  induction blocks generalizing parent with
  | nil => simp [calculatePartialChainScore]
  | cons other blocks ih =>
    rw [List.cons_append, List.cons_append, calculatePartialChainScore, calculatePartialChainScore, ih, Nat.add_assoc]

theorem chainScore_split (front above : List BlockElement) (common : BlockElement) :
    chainScore (front ++ common :: above) = chainScore (front ++ [common]) +
        calculatePartialChainScore common.block (above.map BlockElement.block) := by
  cases front with
  | nil => simp [chainScore, calculatePartialChainScore]
  | cons first rest =>
    rw [List.cons_append, List.cons_append, chainScore, chainScore, List.map_append, List.map_append,
      List.map_cons, List.map_cons, List.map_nil, calculatePartialChainScore_split]

theorem require_eq_ok {condition : Bool} {stop : Stop} {answer : Unit} :
    require condition stop = .ok answer ↔ condition = true := by
  cases condition <;> simp [require]

theorem loadBlockElement_eq_ok {storage : BlockStorage} {height : Nat} {element : BlockElement}
    (loaded : storage.loadBlockElement height = .ok element) :
    ∃ index, height = index + 1 ∧ storage.elements[index]? = some element := by
  unfold BlockStorage.loadBlockElement at loaded
  split at loaded
  · cases loaded
  · next index =>
    split at loaded
    · cases loaded
    · next found => exact ⟨index, rfl, Except.ok.inj loaded ▸ found⟩

theorem callUndo_eq_ok {handlers : BlockchainSyncHandlers C} {element : BlockElement}
    {undoBlockType : UndoBlockType} {result next : UnwindResult C}
    (called : callUndo handlers element undoBlockType result = .ok next) :
    next.score = result.score ∧ next.transactionInfos = result.transactionInfos ∧
      next.undone = result.undone ++ [(element, undoBlockType)] := by
  unfold callUndo at called
  split at called
  · cases called
  · obtain rfl := Except.ok.inj called
    exact ⟨rfl, rfl, rfl⟩

/-- The blocks between two heights, and the block above them if there is one. -/
def unwoundBlocks (storage : BlockStorage) (commonBlockHeight height : Nat) (child : Option BlockElement) : List BlockElement :=
  (storage.elements.take height).drop commonBlockHeight ++ child.toList

theorem unwoundBlocks_succ {storage : BlockStorage} {commonBlockHeight index : Nat} {parent : BlockElement}
    (found : storage.elements[index]? = some parent) (above : commonBlockHeight ≤ index) (child : Option BlockElement) :
    unwoundBlocks storage commonBlockHeight (index + 1) child =
      (storage.elements.take index).drop commonBlockHeight ++ parent :: child.toList := by
  obtain ⟨inside, rfl⟩ := List.getElem?_eq_some_iff.mp found
  rw [unwoundBlocks, List.take_add_one, found, Option.toList_some, List.drop_append_of_le_length]
  · rw [List.append_assoc, List.singleton_append]
  · rw [List.length_take]
    omega

/-- The score that is added for a child belongs to the blocks above its parent. -/
theorem addChild_eq (parent : BlockElement) (child : Option BlockElement) (result : UnwindResult C) :
    addChild parent child result = { result with
      score := result.score + calculatePartialChainScore parent.block (child.toList.map BlockElement.block)
      transactionInfos := child.toList.flatMap BlockElement.transactions ++ result.transactionInfos } := by
  cases child with
  | none => rfl
  | some child => simp [addChild, calculatePartialChainScore]

/-- The unwinding reaches the common block with the score of all blocks above it. -/
structure Unwinds (storage : BlockStorage) (commonBlockHeight height : Nat) (common : BlockElement)
    (child : Option BlockElement) (result final : UnwindResult C) : Prop where
  score : final.score = result.score + calculatePartialChainScore common.block
    ((unwoundBlocks storage commonBlockHeight height child).map BlockElement.block)
  transactionInfos : final.transactionInfos =
    (unwoundBlocks storage commonBlockHeight height child).flatMap BlockElement.transactions ++ result.transactionInfos
  undone : final.undone = result.undone ++
    (unwoundBlocks storage commonBlockHeight height none).reverse.map (fun element => (element, .rollback)) ++
    [(common, .common)]

theorem unwoundBlocks_self (storage : BlockStorage) (height : Nat) (child : Option BlockElement) :
    unwoundBlocks storage height height child = child.toList := by
  rw [unwoundBlocks, List.drop_eq_nil_of_le (List.length_take_le _ _), List.nil_append]

theorem unwindFrom_eq_ok {handlers : BlockchainSyncHandlers C} {storage : BlockStorage}
    {commonBlockHeight height : Nat} {child : Option BlockElement} {result final : UnwindResult C}
    {common : BlockElement} (loaded : storage.loadBlockElement commonBlockHeight = .ok common)
    (above : commonBlockHeight ≤ height)
    (unwound : unwindFrom handlers storage commonBlockHeight height child result = .ok final) :
    Unwinds storage commonBlockHeight height common child result final := by
  induction height generalizing child result with
  | zero => cases unwound
  | succ index ih =>
    unfold unwindFrom at unwound
    obtain ⟨parent, parentLoaded, unwound⟩ := Runs.bind_eq_ok.mp unwound
    rw [addChild_eq] at unwound
    by_cases last : index + 1 = commonBlockHeight
    · rw [if_pos last] at unwound
      obtain ⟨score, transactions, calls⟩ := callUndo_eq_ok unwound
      subst last
      obtain rfl : parent = common := Except.ok.inj (parentLoaded.symm.trans loaded)
      refine ⟨?_, ?_, ?_⟩
      · rw [score, unwoundBlocks_self]
      · rw [transactions, unwoundBlocks_self]
      · rw [calls, unwoundBlocks_self]
        simp
    · rw [if_neg last] at unwound
      obtain ⟨undone, called, unwound⟩ := Runs.bind_eq_ok.mp unwound
      obtain ⟨score, transactions, calls⟩ := callUndo_eq_ok called
      obtain ⟨position, same, found⟩ := loadBlockElement_eq_ok parentLoaded
      obtain rfl : index = position := by omega
      have step := unwoundBlocks_succ found (by omega : commonBlockHeight ≤ index)
      obtain ⟨finalScore, finalTransactions, finalUndone⟩ := ih (by omega) unwound
      refine ⟨?_, ?_, ?_⟩
      · rw [finalScore, score, step, unwoundBlocks, Option.toList_some, List.map_append, List.map_append,
          List.map_cons, List.map_cons, List.map_nil,
          calculatePartialChainScore_split _ _ _ (child.toList.map BlockElement.block)]
        dsimp only
        omega
      · rw [finalTransactions, transactions, step, unwoundBlocks]
        simp
      · rw [finalUndone, calls, step, unwoundBlocks]
        simp

/-- The common block is passed to the undo handler last and only if blocks are rolled back. -/
def undoCalls (storage : BlockStorage) (commonBlockHeight : Nat) (common : BlockElement) : List (BlockElement × UndoBlockType) :=
  if storage.chainHeight = commonBlockHeight then []
  else (storage.elements.drop commonBlockHeight).reverse.map (fun element => (element, .rollback)) ++ [(common, .common)]

theorem unwoundBlocks_chainHeight (storage : BlockStorage) (commonBlockHeight : Nat) :
    unwoundBlocks storage commonBlockHeight storage.chainHeight none = storage.elements.drop commonBlockHeight := by
  rw [unwoundBlocks, BlockStorage.chainHeight, List.take_length, Option.toList_none, List.append_nil]

theorem unwindLocalChain_eq_ok {handlers : BlockchainSyncHandlers C} {storage : BlockStorage}
    {commonBlockHeight : Nat} {cache : C} {final : UnwindResult C} {common : BlockElement}
    (loaded : storage.loadBlockElement commonBlockHeight = .ok common) (below : commonBlockHeight ≤ storage.chainHeight)
    (unwound : unwindLocalChain handlers storage commonBlockHeight cache = .ok final) :
    final.score = calculatePartialChainScore common.block
        ((storage.elements.drop commonBlockHeight).map BlockElement.block) ∧
      final.undone = undoCalls storage commonBlockHeight common := by
  unfold unwindLocalChain at unwound
  by_cases last : storage.chainHeight = commonBlockHeight
  · rw [if_pos last] at unwound
    obtain rfl := Except.ok.inj unwound
    have nothing : storage.elements.drop commonBlockHeight = [] := by
      rw [← last]
      exact List.drop_length
    rw [nothing, undoCalls, if_pos last]
    exact ⟨rfl, rfl⟩
  · rw [if_neg last] at unwound
    obtain ⟨score, -, undone⟩ := unwindFrom_eq_ok loaded below unwound
    rw [unwoundBlocks_chainHeight] at score undone
    rw [undoCalls, if_neg last]
    exact ⟨score.trans (Nat.zero_add _), undone⟩

/-- Blocks that continue the chain are saved. -/
theorem saveBlocks_consecutive {elements : List BlockElement} {storage : BlockStorage}
    (continues : ∀ (index : Nat) (element : BlockElement), elements[index]? = some element →
      element.block.height = storage.chainHeight + 1 + index) :
    ∃ saved, storage.saveBlocks elements = .ok saved ∧ saved.elements = storage.elements ++ elements := by
  induction elements generalizing storage with
  | nil => exact ⟨storage, rfl, (List.append_nil _).symm⟩
  | cons element elements ih =>
    have next : element.block.height = storage.chainHeight + 1 := continues 0 element rfl
    obtain ⟨extended, stepped, appended⟩ : ∃ extended, storage.saveBlock element = .ok extended ∧
          extended.elements = storage.elements ++ [element] := by
      rw [BlockStorage.saveBlock, dif_pos next]
      exact ⟨_, rfl, rfl⟩
    have longer : extended.chainHeight = storage.chainHeight + 1 := by
      rw [BlockStorage.chainHeight, appended, List.length_append]
      rfl
    obtain ⟨saved, ran, all⟩ := @ih extended (by
      intro index other found
      rw [continues (index + 1) other found, longer]
      omega)
    refine ⟨saved, ?_, ?_⟩
    · rw [BlockStorage.saveBlocks, List.foldlM_cons]
      exact Runs.bind_eq_ok.mpr ⟨extended, stepped, ran⟩
    · rw [all, appended, List.append_assoc, List.singleton_append]

/-- The checks that a chain has passed before it is processed. -/
structure Preprocessed (handlers : BlockchainSyncHandlers C) (node : Node C) (first : BlockElement)
    (elements : List BlockElement) (source : InputSource) (state : SyncState C) : Prop where
  linked : isLinked first.block.height node.storage.chainHeight source = true
  notBehind : handlers.localFinalizedHeightHashPair.height < first.block.height ∨
    isFinalizedBlockUpdate handlers node.storage elements = true
  unwound : unwindLocalChain handlers node.storage (first.block.height - 1) node.cache = .ok state.unwound
  loaded : node.storage.loadBlockElement (first.block.height - 1) = .ok state.commonBlockElement
  better : state.unwound.score < calculatePartialChainScore state.commonBlockElement.block (elements.map BlockElement.block) ∨
    isFinalizedBlockUpdate handlers node.storage elements = true
  scoreDelta : state.scoreDelta =
    (calculatePartialChainScore state.commonBlockElement.block (elements.map BlockElement.block) : Int) -
      state.unwound.score
  localFinalizedHeight : state.localFinalizedHeight = handlers.localFinalizedHeightHashPair.height

theorem subtractScores_eq_ok {score other : Nat} {delta : Int}
    (subtracted : subtractScores score other = .ok delta) : delta = (score : Int) - other := by
  unfold subtractScores at subtracted
  split at subtracted
  · cases subtracted
  · exact (Except.ok.inj subtracted).symm

theorem preprocess_eq_ok {handlers : BlockchainSyncHandlers C} {node : Node C} {first : BlockElement}
    {elements : List BlockElement} {source : InputSource} {state : SyncState C}
    (ran : preprocess handlers node first elements source = .ok state) :
    Preprocessed handlers node first elements source state := by
  unfold preprocess at ran
  obtain ⟨_, linked, ran⟩ := Runs.bind_eq_ok.mp ran
  obtain ⟨_, notBehind, ran⟩ := Runs.bind_eq_ok.mp ran
  obtain ⟨_, -, ran⟩ := Runs.bind_eq_ok.mp ran
  obtain ⟨finalized, -, ran⟩ := Runs.bind_eq_ok.mp ran
  obtain ⟨unwound, unwinds, ran⟩ := Runs.bind_eq_ok.mp ran
  obtain ⟨common, loaded, ran⟩ := Runs.bind_eq_ok.mp ran
  obtain ⟨_, better, ran⟩ := Runs.bind_eq_ok.mp ran
  obtain ⟨delta, subtracted, ran⟩ := Runs.bind_eq_ok.mp ran
  obtain rfl := Except.ok.inj ran
  exact {
    linked := require_eq_ok.mp linked
    notBehind := by simpa using require_eq_ok.mp notBehind
    unwound := unwinds
    loaded := loaded
    better := by simpa using require_eq_ok.mp better
    scoreDelta := subtractScores_eq_ok subtracted
    localFinalizedHeight := rfl }

/-- The first block of a linked chain is above a stored block and at most one above the last. -/
theorem Preprocessed.bounds {handlers : BlockchainSyncHandlers C} {node : Node C} {first : BlockElement}
    {elements : List BlockElement} {source : InputSource} {state : SyncState C}
    (passed : Preprocessed handlers node first elements source state) :
    2 ≤ first.block.height ∧ first.block.height ≤ node.storage.chainHeight + 1 ∧
      (source = .remotePull ∨ node.storage.chainHeight ≤ first.block.height) := by
  have linked := passed.linked
  simp only [isLinked, Bool.and_eq_true, Bool.or_eq_true, decide_eq_true_eq] at linked
  exact ⟨linked.1.1, linked.1.2, linked.2⟩

/-- The local chain is the chain below the common block, the common block and the blocks above it. -/
theorem Preprocessed.exists_split {handlers : BlockchainSyncHandlers C} {node : Node C} {first : BlockElement}
    {elements : List BlockElement} {source : InputSource} {state : SyncState C}
    (passed : Preprocessed handlers node first elements source state) :
    ∃ front, node.storage.elements.take (first.block.height - 1) = front ++ [state.commonBlockElement] ∧
      state.commonBlockElement.block.height = first.block.height - 1 := by
  obtain ⟨index, height, found⟩ := loadBlockElement_eq_ok passed.loaded
  refine ⟨node.storage.elements.take index, ?_, ?_⟩
  · rw [height, List.take_add_one, found, Option.toList_some]
  · rw [height]
    exact node.storage.numbered index _ found

/-- A chain that has passed the checks is committed without an error. -/
theorem commitAll_eq_ok (pruning : CachePruning C) {handlers : BlockchainSyncHandlers C} {node : Node C}
    {first last : BlockElement} {elements : List BlockElement} {source : InputSource} {state : SyncState C}
    (cache : C) (passed : Preprocessed handlers node first elements source state)
    (consecutive : ∀ (index : Nat) (element : BlockElement),
      elements[index]? = some element → element.block.height = first.block.height + index) :
    ∃ next report, commitAll pruning node elements last state cache = .ok (next, report) ∧
      next.storage.elements = node.storage.elements.take (first.block.height - 1) ++ elements ∧
      next.lastFinalizedHeight = handlers.localFinalizedHeightHashPair.height ∧
      report.undone = state.unwound.undone ∧ report.scoreDelta = state.scoreDelta ∧
      report.prunedHeights = prunedRange node.lastFinalizedHeight handlers.localFinalizedHeightHashPair.height := by
  obtain ⟨two, linked, -⟩ := passed.bounds
  obtain ⟨front, -, height⟩ := passed.exists_split
  have dropped : (node.storage.dropBlocksAfter state.commonBlockElement.block.height).chainHeight = first.block.height - 1 := by
    rw [BlockStorage.chainHeight, BlockStorage.dropBlocksAfter, height, List.length_take]
    exact Nat.min_eq_left (by rw [← BlockStorage.chainHeight]; omega)
  obtain ⟨saved, ran, all⟩ := @saveBlocks_consecutive elements
    (node.storage.dropBlocksAfter state.commonBlockElement.block.height) (by
      intro index element found
      rw [consecutive index element found, dropped]
      omega)
  rw [BlockStorage.dropBlocksAfter, height] at all
  refine ⟨_, _, Runs.bind_eq_ok.mpr ⟨saved, ran, rfl⟩, all, passed.localFinalizedHeight, rfl, rfl, ?_⟩
  rw [passed.localFinalizedHeight]

/-- The height below the first block of an input. -/
def ConsumerInput.commonBlockHeight (input : ConsumerInput) : Nat :=
  match input.elements with
  | [] => 0
  | first :: _ => first.block.height - 1

/-- The blocks that were rolled back, in the order in which they were undone. -/
def SyncReport.rolledBack (report : SyncReport) : List BlockElement :=
  (report.undone.filter fun call => call.2 = .rollback).map Prod.fst

/-- An accepted sync improves the chain or brings in the finalized block, and replaces only what it may. -/
structure SafeSwitch (handlers : BlockchainSyncHandlers C) (input : ConsumerInput) (node next : Node C)
    (report : SyncReport) : Prop where
  scored : (chainScore next.storage.elements : Int) = chainScore node.storage.elements + report.scoreDelta
  better : 0 < report.scoreDelta ∨ (node.storage.contains handlers.networkFinalizedHeightHashPair = false ∧
      next.storage.contains handlers.networkFinalizedHeightHashPair = true)
  keepsFinalized : (node.storage.contains handlers.networkFinalizedHeightHashPair = true →
      handlers.localFinalizedHeightHashPair = handlers.networkFinalizedHeightHashPair) →
    node.storage.contains handlers.networkFinalizedHeightHashPair = true →
      next.storage.contains handlers.networkFinalizedHeightHashPair = true ∧
        node.storage.elements.take handlers.networkFinalizedHeightHashPair.height <+: next.storage.elements
  keepsAllButLast : input.source ≠ .remotePull →
    node.storage.elements.take (node.storage.chainHeight - 1) <+: next.storage.elements
  linked : 1 ≤ input.commonBlockHeight ∧ input.commonBlockHeight ≤ node.storage.chainHeight
  stored : next.storage.elements = node.storage.elements.take input.commonBlockHeight ++ input.elements
  rolledBack : report.rolledBack = (node.storage.elements.drop input.commonBlockHeight).reverse
  descending : report.rolledBack.Pairwise fun upper lower => lower.block.height < upper.block.height
  pruned : report.prunedHeights = prunedRange node.lastFinalizedHeight handlers.localFinalizedHeightHashPair.height
  finalized : next.lastFinalizedHeight = handlers.localFinalizedHeightHashPair.height

/-- Whether a block is in a chain depends on the block at its height. -/
theorem contains_iff {storage : BlockStorage} {pair : HeightHashPair} : storage.contains pair = true ↔
      ∃ (index : Nat) (element : BlockElement), pair.height = index + 1 ∧
        storage.elements[index]? = some element ∧ element.entityHash = pair.hash := by
  unfold BlockStorage.contains
  constructor
  · intro contained
    split at contained
    · cases contained
    · next index height =>
      split at contained
      · cases contained
      · next element found => exact ⟨index, element, height, found, (of_decide_eq_true contained).symm⟩
  · rintro ⟨index, element, height, found, hash⟩
    rw [height]
    simp only [found]
    exact decide_eq_true hash.symm

theorem containsElement_cons {first : BlockElement} {rest : List BlockElement} {pair : HeightHashPair}
    (contained : containsElement (first :: rest) pair = true) : ∃ (element : BlockElement), first.block.height ≤ pair.height ∧
      (first :: rest)[pair.height - first.block.height]? = some element ∧ element.entityHash = pair.hash := by
  unfold containsElement at contained
  dsimp only at contained
  split at contained
  · next above =>
    split at contained
    · cases contained
    · next element found => exact ⟨element, above, found, (of_decide_eq_true contained).symm⟩
  · cases contained

/-- The blocks up to the common height stay in the chain. -/
theorem getElem?_common {elements more : List BlockElement} {commonBlockHeight index : Nat}
    (below : index < commonBlockHeight) (inside : commonBlockHeight ≤ elements.length) :
    (elements.take commonBlockHeight ++ more)[index]? = elements[index]? := by
  rw [List.getElem?_append_left (by rw [List.length_take]; omega), List.getElem?_take_of_lt below]

theorem take_prefix_common {elements more : List BlockElement} {height commonBlockHeight : Nat}
    (below : height ≤ commonBlockHeight) : elements.take height <+: elements.take commonBlockHeight ++ more :=
  (List.take_prefix_take_left below).trans (List.prefix_append _ _)

/-- A finalized block that comes with the remote chain is in the new chain. -/
theorem contains_of_update {handlers : BlockchainSyncHandlers C} {node next : Node C} {first : BlockElement}
    {rest : List BlockElement} (updates : isFinalizedBlockUpdate handlers node.storage (first :: rest) = true)
    (two : 2 ≤ first.block.height) (linked : first.block.height ≤ node.storage.chainHeight + 1)
    (stored : next.storage.elements = node.storage.elements.take (first.block.height - 1) ++ first :: rest) :
    node.storage.contains handlers.networkFinalizedHeightHashPair = false ∧
      next.storage.contains handlers.networkFinalizedHeightHashPair = true := by
  simp only [isFinalizedBlockUpdate, Bool.and_eq_true, Bool.not_eq_true'] at updates
  obtain ⟨missing, contained⟩ := updates
  obtain ⟨element, above, found, hash⟩ := containsElement_cons contained
  refine ⟨missing, contains_iff.mpr ⟨handlers.networkFinalizedHeightHashPair.height - 1, element, ?_, ?_, hash⟩⟩
  · omega
  · have common : (node.storage.elements.take (first.block.height - 1)).length = first.block.height - 1 := by
      rw [List.length_take]
      exact Nat.min_eq_left (by rw [← BlockStorage.chainHeight]; omega)
    rw [stored, List.getElem?_append_right (by rw [common]; omega), common, ← found]
    congr 1
    omega

/-- The finalized block of the network stays if it is the local finalized block. -/
theorem contains_of_finalized {handlers : BlockchainSyncHandlers C} {node next : Node C} {first : BlockElement}
    {elements : List BlockElement} {source : InputSource} {state : SyncState C}
    (passed : Preprocessed handlers node first elements source state)
    (stored : next.storage.elements = node.storage.elements.take (first.block.height - 1) ++ elements)
    (same : handlers.localFinalizedHeightHashPair = handlers.networkFinalizedHeightHashPair)
    (contained : node.storage.contains handlers.networkFinalizedHeightHashPair = true) :
    next.storage.contains handlers.networkFinalizedHeightHashPair = true ∧
      node.storage.elements.take handlers.networkFinalizedHeightHashPair.height <+: next.storage.elements := by
  have above : handlers.networkFinalizedHeightHashPair.height < first.block.height := by
    rw [← same]
    refine passed.notBehind.resolve_right ?_
    rw [isFinalizedBlockUpdate, contained]
    exact Bool.false_ne_true
  have linked : first.block.height - 1 ≤ node.storage.elements.length := by
    have bounds := passed.bounds
    rw [BlockStorage.chainHeight] at bounds
    omega
  obtain ⟨index, element, height, found, hash⟩ := contains_iff.mp contained
  constructor
  · refine contains_iff.mpr ⟨index, element, height, ?_, hash⟩
    rw [stored, getElem?_common (by omega) linked, found]
  · rw [stored]
    exact take_prefix_common (by omega)

/-- The rolled back blocks are the calls before the call with the common block. -/
theorem rolledBack_undoCalls (storage : BlockStorage) (commonBlockHeight : Nat) (common : BlockElement) :
    ((undoCalls storage commonBlockHeight common).filter fun call => call.2 = .rollback).map Prod.fst =
      (storage.elements.drop commonBlockHeight).reverse := by
  unfold undoCalls
  split
  · next last =>
    rw [← last, BlockStorage.chainHeight, List.drop_length]
    rfl
  · rw [List.filter_append, List.filter_map, List.map_append]
    simp [Function.comp_def]

theorem descending_drop (storage : BlockStorage) (height : Nat) :
    (storage.elements.drop height).reverse.Pairwise fun upper lower =>
      lower.block.height < upper.block.height := by
  rw [List.pairwise_reverse, List.pairwise_iff_getElem]
  intro lower upper insideLower insideUpper ordered
  have lowerHeight := storage.numbered (height + lower) _
    (by rw [← List.getElem?_drop]; exact List.getElem?_eq_getElem insideLower)
  have upperHeight := storage.numbered (height + upper) _
    (by rw [← List.getElem?_drop]; exact List.getElem?_eq_getElem insideUpper)
  omega

/-- The score of the chain changes by the difference of the scores above the common block. -/
theorem chainScore_switch {handlers : BlockchainSyncHandlers C} {node : Node C} {first : BlockElement}
    {elements : List BlockElement} {source : InputSource} {state : SyncState C}
    (passed : Preprocessed handlers node first elements source state) :
    (chainScore (node.storage.elements.take (first.block.height - 1) ++ elements) : Int) =
      chainScore node.storage.elements + state.scoreDelta := by
  obtain ⟨front, taken, -⟩ := passed.exists_split
  obtain ⟨-, linked, -⟩ := passed.bounds
  obtain ⟨score, -⟩ := unwindLocalChain_eq_ok passed.loaded (by omega) passed.unwound
  have before : chainScore node.storage.elements = chainScore (front ++ [state.commonBlockElement]) + state.unwound.score := by
    rw [score, ← chainScore_split, ← List.singleton_append, ← List.append_assoc, ← taken, List.take_append_drop]
  have after : chainScore (node.storage.elements.take (first.block.height - 1) ++ elements) =
      chainScore (front ++ [state.commonBlockElement]) +
        calculatePartialChainScore state.commonBlockElement.block (elements.map BlockElement.block) := by
    rw [← chainScore_split, taken, List.append_assoc, List.singleton_append]
  rw [before, after, passed.scoreDelta]
  omega

/-- A sync stops before anything is written. -/
def StopsEarly (importanceGrouping : Nat) (handlers : BlockchainSyncHandlers C) (node : Node C)
    (input : ConsumerInput) (stop : Stop) : Prop :=
  match input.elements with
  | [] => stop = .abort .emptyInput
  | first :: rest =>
    preprocess handlers node first (first :: rest) input.source = .error stop ∨
      ∃ state, preprocess handlers node first (first :: rest) input.source = .ok state ∧
        process importanceGrouping handlers node.storage (first :: rest) state = .error stop

theorem sync_eq_error {importanceGrouping : Nat} {pruning : CachePruning C}
    {handlers : BlockchainSyncHandlers C} {node : Node C} {input : ConsumerInput} {stop : Stop}
    (stopped : sync importanceGrouping pruning handlers node input = .error stop) :
    StopsEarly importanceGrouping handlers node input stop := by
  have consecutive := input.consecutive
  unfold sync at stopped
  unfold StopsEarly
  cases split : input.elements with
  | nil =>
    rw [split] at stopped
    exact (Except.error.inj stopped).symm
  | cons first rest =>
    rw [split] at stopped consecutive
    rcases Runs.bind_eq_error.mp stopped with failed | ⟨state, preprocessed, stopped⟩
    · exact .inl failed
    · refine .inr ⟨state, preprocessed, ?_⟩
      rcases Runs.bind_eq_error.mp stopped with failed | ⟨cache, -, stopped⟩
      · exact failed
      · -- a chain that was processed is always committed
        obtain ⟨next, report, committed, -⟩ := commitAll_eq_ok pruning cache
          (preprocess_eq_ok preprocessed) (consecutive first rfl)
        cases committed.symm.trans stopped

theorem sync_eq_ok {importanceGrouping : Nat} {pruning : CachePruning C}
    {handlers : BlockchainSyncHandlers C} {node next : Node C} {input : ConsumerInput} {report : SyncReport}
    (synced : sync importanceGrouping pruning handlers node input = .ok (next, report)) :
    SafeSwitch handlers input node next report := by
  have consecutive := input.consecutive
  unfold sync at synced
  cases split : input.elements with
  | nil =>
    rw [split] at synced
    cases synced
  | cons first rest =>
    rw [split] at synced consecutive
    obtain ⟨state, preprocessed, synced⟩ := Runs.bind_eq_ok.mp synced
    obtain ⟨cache, -, synced⟩ := Runs.bind_eq_ok.mp synced
    have passed := preprocess_eq_ok preprocessed
    obtain ⟨two, linked, source⟩ := passed.bounds
    obtain ⟨other, otherReport, committed, stored, finalized, undone, delta, pruned⟩ :=
      commitAll_eq_ok pruning cache passed (consecutive first rfl)
    obtain ⟨rfl, rfl⟩ := Prod.mk.inj (Except.ok.inj (synced.symm.trans committed))
    have height : input.commonBlockHeight = first.block.height - 1 := by
      rw [ConsumerInput.commonBlockHeight, split]
    obtain ⟨-, calls⟩ := unwindLocalChain_eq_ok passed.loaded (by omega) passed.unwound
    have rolledBack : report.rolledBack = (node.storage.elements.drop input.commonBlockHeight).reverse := by
      rw [SyncReport.rolledBack, undone, calls, rolledBack_undoCalls, height]
    exact {
      scored := by
        rw [stored, delta]
        exact chainScore_switch passed
      better := by
        rcases passed.better with better | updates
        · have positive := passed.scoreDelta
          rw [delta]
          exact .inl (by omega)
        · exact .inr (contains_of_update updates two linked stored)
      keepsFinalized := fun agrees contained =>
        contains_of_finalized passed stored (agrees contained) contained
      keepsAllButLast := by
        intro pushed
        rw [stored]
        exact take_prefix_common (by have := source.resolve_left pushed; omega)
      linked := by omega
      stored := by rw [stored, height, split]
      rolledBack := rolledBack
      descending := by
        rw [rolledBack]
        exact descending_drop _ _
      pruned := pruned
      finalized := finalized }

/-- The result of a sync is an abort that changes nothing or a safe switch. -/
def SafeSync (importanceGrouping : Nat) (pruning : CachePruning C) (node : Node C)
    (action : BlockchainSyncHandlers C × ConsumerInput) : Prop :=
  match consume importanceGrouping pruning node action with
  | (next, .error stop) => next = node ∧ StopsEarly importanceGrouping action.1 node action.2 stop
  | (next, .ok report) => SafeSwitch action.1 action.2 node next report

theorem consume_safe (importanceGrouping : Nat) (pruning : CachePruning C) (node : Node C)
    (action : BlockchainSyncHandlers C × ConsumerInput) : SafeSync importanceGrouping pruning node action := by
  unfold SafeSync consume
  cases synced : sync importanceGrouping pruning action.1 node action.2 with
  | error stop => exact ⟨rfl, sync_eq_error synced⟩
  | ok result =>
    obtain ⟨next, report⟩ := result
    exact sync_eq_ok synced

/-- The local finalized height of an accepted sync is not below the one of the accepted sync before it. -/
def NeverFalls (importanceGrouping : Nat) (pruning : CachePruning C) (node : Node C)
    (action : BlockchainSyncHandlers C × ConsumerInput) : Prop :=
  node.lastFinalizedHeight ≤ (consume importanceGrouping pruning node action).1.lastFinalizedHeight

instance NeverFalls.decidable (importanceGrouping : Nat) (pruning : CachePruning C) (node : Node C)
    (action : BlockchainSyncHandlers C × ConsumerInput) : Decidable (NeverFalls importanceGrouping pruning node action) :=
  inferInstanceAs (Decidable (_ ≤ _))

theorem prunedRange_eq_range' (startHeight endHeight : Nat) :
    prunedRange startHeight endHeight = List.range' (startHeight + 1) (endHeight - startHeight) := by
  rw [prunedRange, List.range'_eq_map_range]

theorem prunedRange_append {startHeight middle endHeight : Nat} (rises : startHeight ≤ middle) (continues : middle ≤ endHeight) :
    prunedRange startHeight middle ++ prunedRange middle endHeight = prunedRange startHeight endHeight := by
  obtain ⟨first, rfl⟩ := Nat.exists_eq_add_of_le rises
  obtain ⟨second, rfl⟩ := Nat.exists_eq_add_of_le continues
  rw [prunedRange_eq_range', prunedRange_eq_range', prunedRange_eq_range',
    show startHeight + first - startHeight = first by omega,
    show startHeight + first + second - (startHeight + first) = second by omega,
    show startHeight + first + second - startHeight = first + second by omega,
    show startHeight + first + 1 = startHeight + 1 + first by omega]
  exact List.range'_append_1 ..

/-- Every height of the range is pruned once. -/
theorem count_prunedRange (startHeight endHeight height : Nat) : (prunedRange startHeight endHeight).count height =
      if startHeight < height ∧ height ≤ endHeight then 1 else 0 := by
  rw [prunedRange_eq_range', (List.nodup_range').count]
  congr 1
  rw [List.mem_range'_1]
  apply propext
  omega

/-- All heights that the accepted syncs of a run pruned, in order. -/
def prunedHeights (importanceGrouping : Nat) (pruning : CachePruning C) (node : Node C)
    (actions : List (BlockchainSyncHandlers C × ConsumerInput)) : List Nat :=
  (consumeAll importanceGrouping pruning node actions).2.flatMap SyncReport.prunedHeights

theorem prunedHeights_cons (importanceGrouping : Nat) (pruning : CachePruning C) (node : Node C)
    (action : BlockchainSyncHandlers C × ConsumerInput) (actions : List (BlockchainSyncHandlers C × ConsumerInput)) :
    let next := (consume importanceGrouping pruning node action).1
    (consumeAll importanceGrouping pruning node (action :: actions)).1 = (consumeAll importanceGrouping pruning next actions).1 ∧
      prunedHeights importanceGrouping pruning node (action :: actions) =
        prunedRange node.lastFinalizedHeight next.lastFinalizedHeight ++
          prunedHeights importanceGrouping pruning next actions := by
  have safe := consume_safe importanceGrouping pruning node action
  unfold SafeSync at safe
  rw [prunedHeights, consumeAll]
  cases consumed : consume importanceGrouping pruning node action with
  | mk next result =>
    rw [consumed] at safe
    cases result with
    | error stop =>
      refine ⟨rfl, ?_⟩
      rw [show next = node from safe.1, prunedRange, Nat.sub_self]
      rfl
    | ok report =>
      refine ⟨rfl, ?_⟩
      dsimp only
      rw [safe.finalized, ← safe.pruned]
      rfl

/-- If the local finalized heights never fall, then every height between the first and the last is pruned. -/
theorem prunedHeights_eq_range {importanceGrouping : Nat} {pruning : CachePruning C} {node : Node C}
    {actions : List (BlockchainSyncHandlers C × ConsumerInput)}
    (rises : Runs.Along (fun node action => (consume importanceGrouping pruning node action).1)
      (NeverFalls importanceGrouping pruning) node actions) :
    node.lastFinalizedHeight ≤ (consumeAll importanceGrouping pruning node actions).1.lastFinalizedHeight ∧
      prunedHeights importanceGrouping pruning node actions = prunedRange node.lastFinalizedHeight
        (consumeAll importanceGrouping pruning node actions).1.lastFinalizedHeight := by
  induction actions generalizing node with
  | nil =>
    refine ⟨Nat.le_refl _, ?_⟩
    rw [prunedHeights, consumeAll, prunedRange, Nat.sub_self]
    rfl
  | cons action actions ih =>
    obtain ⟨final, pruned⟩ := prunedHeights_cons importanceGrouping pruning node action actions
    obtain ⟨first, rest⟩ := rises
    obtain ⟨above, continued⟩ := ih rest
    have rising : node.lastFinalizedHeight ≤ (consume importanceGrouping pruning node action).1.lastFinalizedHeight := first
    refine ⟨?_, ?_⟩
    · rw [final]
      exact Nat.le_trans rising above
    · rw [final, pruned, continued, prunedRange_append rising above]

/-- Every sync of a run is an abort that changes nothing or a safe switch, and a run prunes every height once. -/
theorem consumeAll_safe (importanceGrouping : Nat) (pruning : CachePruning C) (node : Node C)
    (actions : List (BlockchainSyncHandlers C × ConsumerInput)) :
    Runs.Along (fun node action => (consume importanceGrouping pruning node action).1)
        (SafeSync importanceGrouping pruning) node actions ∧
      (Runs.Along (fun node action => (consume importanceGrouping pruning node action).1)
          (NeverFalls importanceGrouping pruning) node actions →
        ∀ height, (prunedHeights importanceGrouping pruning node actions).count height =
          if node.lastFinalizedHeight < height ∧
            height ≤ (consumeAll importanceGrouping pruning node actions).1.lastFinalizedHeight then 1 else 0) := by
  constructor
  · induction actions generalizing node with
    | nil => trivial
    | cons action actions ih => exact ⟨consume_safe importanceGrouping pruning node action, ih _⟩
  · intro rises height
    rw [(prunedHeights_eq_range rises).2, count_prunedRange]

namespace Samples

def nemesis : BlockElement := ⟨⟨1, 0, 100, false, zeroHash⟩, zeroHash, []⟩

def start : Node Unit where
  storage := {
    elements := [nemesis]
    numbered := by
      intro index element found
      rw [List.getElem?_singleton] at found
      split at found
      · next zero => rw [← Option.some.inj found, zero]; rfl
      · cases found }
  cache := ()
  lastFinalizedHeight := 1
  cacheHeight := 1

def element (height : Nat) (difficulty : UInt64) (marker : UInt8) : BlockElement :=
  ⟨⟨height, 1000 * height.toUInt64, difficulty, false, zeroHash⟩, Vector.replicate 32 marker, []⟩

def input (startHeight count : Nat) (difficulty : UInt64) (marker : UInt8) : ConsumerInput where
  elements := (List.range count).map fun index => element (startHeight + index) difficulty marker
  source := .remotePull
  consecutive := by
    intro first head index other found
    have inside : index < count := by simpa using (List.getElem?_eq_some_iff.mp found).1
    rw [List.getElem?_map, List.getElem?_range inside] at found
    rw [List.head?_map, List.head?_range, if_neg (by omega)] at head
    rw [← Option.some.inj found, ← Option.some.inj head]
    rfl

def pruning : CachePruning Unit := ⟨fun _ _ => (), fun _ _ => ()⟩

def handlers (finalized : HeightHashPair) : BlockchainSyncHandlers Unit where
  localFinalizedHeightHashPair := finalized
  networkFinalizedHeightHashPair := finalized
  difficultyChecker _ _ := true
  undoBlock _ _ _ := .ok ()
  processor _ _ _ := .ok (.success, ())

/-- Two blocks are replaced by a better one, and two more blocks follow. -/
def actions : List (BlockchainSyncHandlers Unit × ConsumerInput) :=
  [ (handlers ⟨1, zeroHash⟩, input 2 3 100 1), (handlers ⟨2, Vector.replicate 32 1⟩, input 3 1 500 2),
    (handlers ⟨1, zeroHash⟩, input 4 1 100 3),
    (handlers ⟨2, Vector.replicate 32 1⟩, input 5 1 100 4)]

/-- Without finalization both suppliers return the block that many blocks below the last block. -/
def AnswersRollback (maxRollbackBlocks : Nat) (node : Node Unit) (action : BlockchainSyncHandlers Unit × ConsumerInput) : Prop :=
  action.1.localFinalizedHeightHashPair.height = localFinalizedHeight maxRollbackBlocks node.storage ∧
    node.storage.contains action.1.localFinalizedHeightHashPair = true ∧
    action.1.networkFinalizedHeightHashPair = action.1.localFinalizedHeightHashPair

instance AnswersRollback.decidable (maxRollbackBlocks : Nat) (node : Node Unit)
    (action : BlockchainSyncHandlers Unit × ConsumerInput) : Decidable (AnswersRollback maxRollbackBlocks node action) :=
  inferInstanceAs (Decidable (_ ∧ _ ∧ _))

end Samples

/-- The same height is pruned twice when a better chain is shorter. -/
theorem consumeAll_prunes_twice :
    Runs.Along (fun node action => (consume 10 Samples.pruning node action).1) (Samples.AnswersRollback 2)
        Samples.start Samples.actions ∧
      (consumeAll 10 Samples.pruning Samples.start Samples.actions).1.lastFinalizedHeight = 2 ∧
      prunedHeights 10 Samples.pruning Samples.start Samples.actions = [2, 2] := by
  decide +kernel

/-- The run up to the better chain prunes the height once. -/
theorem consumeAll_safe_rollback : Runs.Along (fun node action => (consume 10 Samples.pruning node action).1)
        (NeverFalls 10 Samples.pruning) Samples.start (Samples.actions.take 2) ∧
      (prunedHeights 10 Samples.pruning Samples.start (Samples.actions.take 2)).count 2 = 1 := by
  have rises : Runs.Along (fun node action => (consume 10 Samples.pruning node action).1)
      (NeverFalls 10 Samples.pruning) Samples.start (Samples.actions.take 2) := by
    decide +kernel
  refine ⟨rises, ?_⟩
  rw [(consumeAll_safe 10 Samples.pruning Samples.start (Samples.actions.take 2)).2 rises 2]
  decide +kernel

end Catapult.Sync
