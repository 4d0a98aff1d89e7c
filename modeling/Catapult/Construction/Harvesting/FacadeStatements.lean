import Catapult.Construction.Model.BlockStatementBuilder
import Catapult.Construction.Unconfirmed.ProcessingNotificationSubscriber

/-
This file models how a harvesting facade applies and unapplies transactions while their observers fill a block statement.
-/

namespace Catapult.Harvesting

open Io Model Unconfirmed

inductive SourceChangeType where
  | absolute
  | relative
  deriving DecidableEq

structure SourceChangeNotification where
  primaryChangeType : SourceChangeType
  primaryId : UInt32
  secondaryChangeType : SourceChangeType
  secondaryId : UInt32

/-- The source is only changed during a commit, and its identifiers have 32 bits. -/
def observeSourceChange (mode : NotifyMode) (notification : SourceChangeNotification) (builder : BlockStatementBuilder) :
    BlockStatementBuilder :=
  if mode ≠ .commit then builder
  else
    let currentSource := builder.activeSource
    let primaryId := if notification.primaryChangeType = .relative then notification.primaryId + currentSource.primaryId
      else notification.primaryId
    let secondaryId := if notification.secondaryChangeType = .relative then notification.secondaryId + currentSource.secondaryId
      else notification.secondaryId
    builder.setSource ⟨primaryId, secondaryId⟩

/-- The first notification of a transaction. -/
def transactionSourceChange : SourceChangeNotification := ⟨.relative, 1, .absolute, 0⟩

/-- The first notification of an embedded transaction. -/
def embeddedSourceChange : SourceChangeNotification := ⟨.relative, 0, .relative, 1⟩

/-- What the later notifications of a transaction ask of the builder. -/
inductive ExecutionCall where
  | embeddedTransaction
  | receipt (receipt : Receipt)
  | addressResolution (unresolved resolved : Address)
  | mosaicResolution (unresolved : UInt64) (resolved : MosaicId)

def ExecutionCall.run (builder : BlockStatementBuilder) : ExecutionCall → Except BuilderError BlockStatementBuilder
  | .embeddedTransaction => .ok (observeSourceChange .commit embeddedSourceChange builder)
  | .receipt added => builder.addReceipt added
  | .addressResolution unresolved resolved => builder.addAddressResolution unresolved resolved
  | .mosaicResolution unresolved resolved => builder.addMosaicResolution unresolved resolved

def executeCalls (calls : List ExecutionCall) (builder : BlockStatementBuilder) : Except BuilderError BlockStatementBuilder :=
  calls.foldlM ExecutionCall.run (observeSourceChange .commit transactionSourceChange builder)

/-- A transaction succeeds, fails after some calls, or is rejected before its source is observed. -/
inductive Attempt where
  | succeeds (calls : List ExecutionCall)
  | fails (calls : List ExecutionCall)
  | rejected

/-- The undo of a transaction that fails does not reach the builder. -/
def Attempt.process (builder : BlockStatementBuilder) : Attempt → Except BuilderError (BlockStatementBuilder × Bool)
  | .succeeds calls => do return (← executeCalls calls builder, true)
  | .fails calls => do return (← executeCalls calls builder, false)
  | .rejected => .ok (builder, false)

def applyAttempt (builder : BlockStatementBuilder) (attempt : Attempt) : Except BuilderError BlockStatementBuilder := do
  let originalSource := builder.activeSource
  let processed ← attempt.process builder
  if processed.2 then return processed.1
  else
    let finalSource := processed.1.activeSource
    if originalSource.primaryId ≠ finalSource.primaryId then processed.1.popSource else return processed.1

inductive FacadeStep where
  | apply (attempt : Attempt)
  | unapply

/-- The observers of an undone transaction do not reach the builder. -/
def FacadeStep.run (builder : BlockStatementBuilder) : FacadeStep → Except BuilderError BlockStatementBuilder
  | .apply attempt => applyAttempt builder attempt
  | .unapply => builder.popSource

def runSteps (steps : List FacadeStep) : Except BuilderError BlockStatementBuilder := steps.foldlM FacadeStep.run .create

/-- The last transaction is the one that is unapplied. -/
def FacadeStep.survivors (survivors : List (List ExecutionCall)) : FacadeStep → List (List ExecutionCall)
  | .apply (.succeeds calls) => survivors ++ [calls]
  | .apply (.fails _) => survivors
  | .apply .rejected => survivors
  | .unapply => survivors.dropLast

def survivingTransactions (steps : List FacadeStep) : List (List ExecutionCall) := steps.foldl FacadeStep.survivors []

/-- The transactions are applied with a new builder. -/
def applyAll (transactions : List (List ExecutionCall)) : Except BuilderError BlockStatementBuilder :=
  runSteps (transactions.map fun calls => .apply (.succeeds calls))

variable {K V : Type}

def ExecutionCall.addressPair : ExecutionCall → Option (Address × Address)
  | .addressResolution unresolved resolved => some (unresolved, resolved)
  | _ => none

def ExecutionCall.mosaicPair : ExecutionCall → Option (UInt64 × MosaicId)
  | .mosaicResolution unresolved resolved => some (unresolved, resolved)
  | _ => none

def ExecutionCall.nextSource (source : ReceiptSource) : ExecutionCall → ReceiptSource
  | .embeddedTransaction => ⟨source.primaryId, source.secondaryId + 1⟩
  | _ => source

/-- The resolutions that calls make, with the sources at which they are made. -/
def callResolutions (pair : ExecutionCall → Option (K × V)) : ReceiptSource → List ExecutionCall → List (ReceiptSource × K × V)
  | _, [] => []
  | source, call :: calls =>
    (pair call).toList.map (fun resolution => (source, resolution)) ++ callResolutions pair (call.nextSource source) calls

/-- The transactions are numbered from one. -/
def resolutions (pair : ExecutionCall → Option (K × V)) : UInt32 → List (List ExecutionCall) → List (ReceiptSource × K × V)
  | _, [] => []
  | primaryId, calls :: transactions =>
    callResolutions pair ⟨primaryId + 1, 0⟩ calls ++ resolutions pair (primaryId + 1) transactions

/-- The value to which an unresolved value was last resolved at a source. -/
def lastResolution [DecidableEq K] (log : List (ReceiptSource × K × V)) (source : ReceiptSource) (unresolved : K) : Option V :=
  ((log.filter fun resolution => resolution.1 = source ∧ resolution.2.1 = unresolved).getLast?).map fun resolution => resolution.2.2

/-- The value of the last entry whose source is not later. -/
def lookup [LinearOrder K] (statements : List (K × List (ResolutionEntry V))) (source : ReceiptSource) (unresolved : K) : Option V := do
  let statement ← SortedMap.find unresolved statements
  let entry ← (statement.2.filter fun entry => entry.source ≤ source).getLast?
  return entry.resolvedValue

/-- The identifiers of the transactions and of their embedded transactions fit in 32 bits. -/
def Numbered (transactions : List (List ExecutionCall)) : Prop :=
  transactions.length < 2 ^ 32 ∧
    ∀ calls ∈ transactions, (calls.filter fun call => call matches .embeddedTransaction).length < 2 ^ 32

instance (transactions : List (List ExecutionCall)) : Decidable (Numbered transactions) := inferInstanceAs (Decidable (_ ∧ _))

/-- A copy up to a source counts its receipts and the entries of every statement in 32 bits. -/
def Copyable (maxSourcePrimaryId : UInt32) (statement : BlockStatement) : Prop :=
  (∀ pair ∈ statement.transactionStatements, pair.1.primaryId ≤ maxSourcePrimaryId → pair.2.length < 2 ^ 32) ∧
    (∀ pair ∈ statement.addressResolutionStatements, pair.2.length < 2 ^ 32) ∧
    ∀ pair ∈ statement.mosaicResolutionStatements, pair.2.length < 2 ^ 32

/-- The last of the transactions can be dropped. -/
def Droppable (transactions : List (List ExecutionCall)) : Prop :=
  ∀ builder, applyAll transactions = .ok builder → Copyable (builder.activeSource.primaryId - 1) builder.statement

/-- The counters of 32 bits suffice for every step. -/
def WithinCounters : List (List ExecutionCall) → List FacadeStep → Prop
  | _, [] => True
  | survivors, step :: steps =>
    (match step with
      | .apply (.succeeds calls) => Numbered (survivors ++ [calls])
      | .apply (.fails calls) => Numbered (survivors ++ [calls]) ∧ Droppable (survivors ++ [calls])
      | .apply .rejected => True
      | .unapply => Droppable survivors) ∧
    WithinCounters (step.survivors survivors) steps

end Catapult.Harvesting
