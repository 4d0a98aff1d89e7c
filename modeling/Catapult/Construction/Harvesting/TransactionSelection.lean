import Catapult.Construction.Unconfirmed.UtUpdater
import Catapult.Library.Sorting

/-
This file models how a harvester selects the unconfirmed transactions of a block and their fee multiplier.
-/

namespace Catapult.Harvesting

open Unconfirmed

variable {S T : Type}

/-- The transactions of the cache are visited in the order in which they were added. -/
structure MemoryUtCacheView (T : Type) where
  transactions : List (TransactionInfo T)
  distinct : (transactions.map TransactionInfo.entityHash).Nodup
  sized : ∀ info ∈ transactions, 0 < info.size

/-- The number of transactions in a top-level transaction. -/
abbrev EmbeddedCountRetriever (T : Type) := TransactionInfo T → UInt32

/-- A filter can change its state, and it can throw. -/
abbrev SelectionFilter (S T : Type) := S → TransactionInfo T → Except String (S × Bool)

/-- The total count has 32 bits, and the first transaction that exceeds the limit ends the selection. -/
def selectFrom (transactionLimit : UInt32) (countRetriever : EmbeddedCountRetriever T) (filter : SelectionFilter S T) :
    S → UInt32 → List (TransactionInfo T) → Except String (S × List (TransactionInfo T))
  | state, _, [] => .ok (state, [])
  | state, totalTransactionsCount, info :: infos =>
    let currentTransactionsCount := countRetriever info
    if transactionLimit < totalTransactionsCount + currentTransactionsCount then .ok (state, [])
    else do
      let filtered ← filter state info
      if filtered.2 then
        let rest ← selectFrom transactionLimit countRetriever filter filtered.1
          (totalTransactionsCount + currentTransactionsCount) infos
        return (rest.1, info :: rest.2)
      else selectFrom transactionLimit countRetriever filter filtered.1 totalTransactionsCount infos

def getFirstTransactionInfoPointers (view : MemoryUtCacheView T) (transactionLimit : UInt32)
    (countRetriever : EmbeddedCountRetriever T) (filter : SelectionFilter S T) (state : S) :
    Except String (S × List (TransactionInfo T)) :=
  if transactionLimit ≠ 0 then selectFrom transactionLimit countRetriever filter state 0 view.transactions
  else .ok (state, [])

/-- All transactions are sorted before the selection, and the sort is not stable. -/
def getFirstSortedTransactionInfoPointers {sortComparer : TransactionInfo T → TransactionInfo T → Bool}
    (sort : Sorting.Sorter sortComparer) (view : MemoryUtCacheView T) (transactionLimit : UInt32)
    (countRetriever : EmbeddedCountRetriever T) (filter : SelectionFilter S T) (state : S) :
    Except String (S × List (TransactionInfo T)) :=
  selectFrom transactionLimit countRetriever filter state 0 (sort.run view.transactions)

/-- The multiplier is limited to 32 bits. -/
def calculateTransactionMaxFeeMultiplier (info : TransactionInfo T) : UInt32 :=
  let rawMultiplier := info.maxFee / info.size.toUInt64
  if rawMultiplier < 0xFFFFFFFF then rawMultiplier.toUInt32 else 0xFFFFFFFF

inductive SortDirection where
  | ascending
  | descending
  deriving DecidableEq

def maxFeeMultiplierComparer (direction : SortDirection) (lhs rhs : TransactionInfo T) : Bool :=
  match direction with
  | .ascending => calculateTransactionMaxFeeMultiplier lhs < calculateTransactionMaxFeeMultiplier rhs
  | .descending => calculateTransactionMaxFeeMultiplier rhs < calculateTransactionMaxFeeMultiplier lhs

/-- The execution of a transaction changes a cache, and it can fail. -/
structure Execution (S T : Type) where
  apply : S → TransactionInfo T → S × Bool
  unapply : S → TransactionInfo T → S

/-- The facade remembers the transactions that were applied. -/
structure HarvestingUtFacade (S T : Type) where
  state : S
  transactionInfos : List (TransactionInfo T)

namespace HarvestingUtFacade

variable (execution : Execution S T)

def create (state : S) : HarvestingUtFacade S T := ⟨state, []⟩

def size (facade : HarvestingUtFacade S T) : Nat := facade.transactionInfos.length

def apply (facade : HarvestingUtFacade S T) (info : TransactionInfo T) : HarvestingUtFacade S T × Bool :=
  let applied := execution.apply facade.state info
  if applied.2 then (⟨applied.1, facade.transactionInfos ++ [info]⟩, true)
  else (⟨applied.1, facade.transactionInfos⟩, false)

def unapply (facade : HarvestingUtFacade S T) : Except String (HarvestingUtFacade S T) :=
  match facade.transactionInfos.getLast? with
  | none => .error "cannot call unapply when no transactions have been applied"
  | some info => .ok ⟨execution.unapply facade.state info, facade.transactionInfos.dropLast⟩

/-- Every round takes back one transaction. -/
def unapplyTo (numTransactions : Nat) : Nat → HarvestingUtFacade S T → Except String (HarvestingUtFacade S T)
  | 0, facade => .ok facade
  | rounds + 1, facade =>
    if numTransactions < facade.size then do unapplyTo numTransactions rounds (← facade.unapply execution)
    else .ok facade

end HarvestingUtFacade

structure FeePolicy where
  numTransactions : UInt32
  feeMultiplier : UInt32
  baseFee : Amount
  deriving DecidableEq

def calculateTotalFee (policy : FeePolicy) : Amount := policy.feeMultiplier.toUInt64 * policy.baseFee

structure TransactionFeeMaximizer where
  current : FeePolicy
  best : FeePolicy

namespace TransactionFeeMaximizer

def create : TransactionFeeMaximizer := ⟨⟨0, 0, 0⟩, ⟨0, 0, 0⟩⟩

/-- When total fee amounts are equal, more transactions are preferred. -/
def apply (maximizer : TransactionFeeMaximizer) (info : TransactionInfo T) : Except String TransactionFeeMaximizer :=
  let lastFeeMultiplier := maximizer.current.feeMultiplier
  let current : FeePolicy := {
    numTransactions := maximizer.current.numTransactions + 1
    feeMultiplier := calculateTransactionMaxFeeMultiplier info
    baseFee := maximizer.current.baseFee + calculateTransactionFee 1 info }
  if maximizer.best.numTransactions ≠ 0 ∧ lastFeeMultiplier < current.feeMultiplier then
    .error "applied transactions must be sorted by fee multiplier"
  else if calculateTotalFee maximizer.best ≤ calculateTotalFee current then .ok ⟨current, current⟩
  else .ok ⟨current, maximizer.best⟩

end TransactionFeeMaximizer

/-- The hash of the transactions is calculated from their infos. -/
structure TransactionsInfo (T : Type) where
  feeMultiplier : UInt32
  transactions : List (TransactionInfo T)
  transactionHashes : List Hash256
  transactionsHash : Hash256

def toTransactionsInfo (calculateBlockTransactionsHash : List (TransactionInfo T) → Hash256)
    (infos : List (TransactionInfo T)) (feeMultiplier : UInt32) : TransactionsInfo T :=
  ⟨feeMultiplier, infos, infos.map TransactionInfo.entityHash, calculateBlockTransactionsHash infos⟩

structure SupplyInput (S T : Type) where
  utCacheView : MemoryUtCacheView T
  embeddedCountRetriever : EmbeddedCountRetriever T
  execution : Execution S T
  transactionLimit : UInt32
  calculateBlockTransactionsHash : List (TransactionInfo T) → Hash256

namespace SupplyInput

variable (input : SupplyInput S T)

def applyFilter : SelectionFilter (HarvestingUtFacade S T) T := fun facade info => .ok (facade.apply input.execution info)

/-- The first of the smallest multipliers is chosen, so that all transactions pass validation. -/
def minFeeMultiplier : List (TransactionInfo T) → UInt32
  | [] => 0
  | candidate :: candidates => calculateTransactionMaxFeeMultiplier (candidates.foldl (fun smallest info =>
    if maxFeeMultiplierComparer .ascending info smallest then info else smallest) candidate)

def supplyOldest (facade : HarvestingUtFacade S T) : Except String (HarvestingUtFacade S T × TransactionsInfo T) := do
  let selected ← getFirstTransactionInfoPointers input.utCacheView input.transactionLimit input.embeddedCountRetriever
    input.applyFilter facade
  return (selected.1, toTransactionsInfo input.calculateBlockTransactionsHash selected.2 (minFeeMultiplier selected.2))

def supplyMinimumFee (sort : Sorting.Sorter (maxFeeMultiplierComparer (T := T) .ascending)) (facade : HarvestingUtFacade S T) :
    Except String (HarvestingUtFacade S T × TransactionsInfo T) := do
  let selected ← getFirstSortedTransactionInfoPointers sort input.utCacheView input.transactionLimit
    input.embeddedCountRetriever input.applyFilter facade
  let feeMultiplier := match selected.2 with
    | [] => 0
    | candidate :: _ => calculateTransactionMaxFeeMultiplier candidate
  return (selected.1, toTransactionsInfo input.calculateBlockTransactionsHash selected.2 feeMultiplier)

/-- The maximizer is told about the transactions that were applied. -/
def maximizerFilter : SelectionFilter (HarvestingUtFacade S T × TransactionFeeMaximizer) T := fun state info => do
  let applied := state.1.apply input.execution info
  if applied.2 then
    let maximizer ← state.2.apply info
    return ((applied.1, maximizer), true)
  else return ((applied.1, state.2), false)

def supplyMaximumFee (sort : Sorting.Sorter (maxFeeMultiplierComparer (T := T) .descending)) (facade : HarvestingUtFacade S T) :
    Except String (HarvestingUtFacade S T × TransactionsInfo T) := do
  let selected ← getFirstSortedTransactionInfoPointers sort input.utCacheView input.transactionLimit
    input.embeddedCountRetriever input.maximizerFilter (facade, .create)
  let bestFeePolicy := selected.1.2.best
  let candidates := selected.2.take bestFeePolicy.numTransactions.toNat
  let truncated ← selected.1.1.unapplyTo input.execution bestFeePolicy.numTransactions.toNat selected.1.1.size
  return (truncated, toTransactionsInfo input.calculateBlockTransactionsHash candidates bestFeePolicy.feeMultiplier)

end SupplyInput

end Catapult.Harvesting
