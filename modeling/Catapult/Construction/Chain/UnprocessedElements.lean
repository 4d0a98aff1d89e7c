import Catapult.Construction.Disruptor.ConsumerDispatcher

/-
This file models the block ranges that the chain synchronizer has passed on and that are not processed yet.
-/

namespace Catapult.Chain

open Disruptor

abbrev DisruptorElementId := UInt64

structure ElementInfo where
  id : DisruptorElementId
  endHeight : Height
  numBytes : Nat
  deriving DecidableEq

/-- A range holds at least one block. -/
structure AnnotatedBlockRange where
  endHeight : Height
  totalSize : Nat
  nonempty : 0 < totalSize

inductive UnprocessedError where
  | invalidArgument (message : String) (id : DisruptorElementId)
  | emptyQueue
  deriving DecidableEq

/-- The oldest element comes first; the sizes of all elements fit into memory. -/
structure UnprocessedElements where
  elements : List ElementInfo
  maxSize : Nat
  numBytes : Nat
  hasPendingSync : Bool
  dirty : Bool
  deriving DecidableEq

namespace UnprocessedElements

def create (maxSize : Nat) : UnprocessedElements := ⟨[], maxSize, 0, false, false⟩

variable (unprocessed : UnprocessedElements)

def hasPendingOperation : Bool := unprocessed.numBytes ≠ 0 || unprocessed.hasPendingSync

def shouldStartSync : Bool × UnprocessedElements :=
  if unprocessed.numBytes ≥ unprocessed.maxSize || unprocessed.hasPendingSync || unprocessed.dirty then (false, unprocessed)
  else (true, { unprocessed with hasPendingSync := true })

def maxHeight : Height :=
  match unprocessed.elements.getLast? with
  | none => 0
  | some info => info.endHeight

/-- The consumer answers with the id of the new element, or with zero if it does not accept the range. -/
def add (range : AnnotatedBlockRange) (newId : DisruptorElementId) : Bool × UnprocessedElements :=
  if unprocessed.dirty then (false, unprocessed)
  else if newId = 0 then (false, unprocessed)
  else
    let info : ElementInfo := ⟨newId, range.endHeight, range.totalSize⟩
    (true, { unprocessed with
      numBytes := unprocessed.numBytes + info.numBytes
      elements := unprocessed.elements ++ [info] })

/-- Removing from an empty queue is undefined. -/
def remove (id : DisruptorElementId) (status : CompletionStatus) : Except UnprocessedError UnprocessedElements :=
  match unprocessed.elements with
  | [] => .error .emptyQueue
  | info :: elements =>
    if info.id ≠ id then .error (.invalidArgument "unexpected element id" id)
    else
      let removed := { unprocessed with numBytes := unprocessed.numBytes - info.numBytes, elements }
      .ok { removed with dirty := removed.hasPendingOperation && status ≠ .normal }

def clearPendingSync : UnprocessedElements :=
  let cleared := { unprocessed with hasPendingSync := false }
  if cleared.dirty then { cleared with dirty := cleared.hasPendingOperation } else cleared

/-- The lock lets one operation run at a time. -/
inductive Operation where
  | shouldStartSync
  | add (range : AnnotatedBlockRange) (newId : DisruptorElementId)
  | remove (id : DisruptorElementId) (status : CompletionStatus)
  | clearPendingSync

def perform : Operation → Except UnprocessedError UnprocessedElements
  | .shouldStartSync => .ok unprocessed.shouldStartSync.2
  | .add range newId => .ok (unprocessed.add range newId).2
  | .remove id status => unprocessed.remove id status
  | .clearPendingSync => .ok unprocessed.clearPendingSync

end UnprocessedElements

end Catapult.Chain
