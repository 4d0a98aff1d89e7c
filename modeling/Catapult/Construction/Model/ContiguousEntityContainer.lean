import Catapult.Library.ByteStream

/-
This file models the iteration over size prefixed entities that lie one after the other in a buffer.
-/

namespace Catapult.Model

open ByteStream

/-- A read outside of the buffer is undefined in the source. -/
inductive IterationError where
  | outOfBounds (offset : Nat)
  | outOfRange (message : String)
  | runtimeError (message : String)
  | endless
  deriving DecidableEq

inductive EntityContainerErrorPolicy where
  | throw
  | suppress
  deriving DecidableEq

/-- The pointers of the source are offsets from the start of the buffer. -/
structure ContiguousEntityContainer where
  buffer : List UInt8
  errorPolicy : EntityContainerErrorPolicy

/-- The current position of an iterator with the error flag of its container. -/
structure EntityIterator where
  current : Nat
  hasError : Bool
  deriving DecidableEq

def getPaddingSize (size alignment : Nat) : Nat := if size % alignment = 0 then 0 else alignment - size % alignment

/-- The size of an entity is its first field. -/
def readSize (buffer : List UInt8) (offset : Nat) : Except IterationError Nat :=
  if offset + 4 ≤ buffer.length then .ok (Codec.word32.read ((buffer.drop offset).take 4)).toNat
  else .error (.outOfBounds offset)

def isEnd (buffer : List UInt8) (offset : Nat) : Bool := offset = buffer.length

/-- The size is read after it was found to be readable. -/
def isEntityInBuffer (buffer : List UInt8) (offset : Nat) : Except IterationError Bool :=
  if offset ≤ buffer.length ∧ offset + 4 ≤ buffer.length then do
    let size ← readSize buffer offset
    return offset + size ≤ buffer.length
  else return false

/-- A valid entity is at least as large as its type. -/
def isEntityValid (sizeofEntity : Nat) (buffer : List UInt8) (offset : Nat) : Except IterationError Bool := do
  let inBuffer ← isEntityInBuffer buffer offset
  if inBuffer then
    let size ← readSize buffer offset
    return sizeofEntity ≤ size
  else return false

/-- The last entity is not padded. -/
def advance (buffer : List UInt8) (offset numBytes : Nat) : Nat :=
  if offset + numBytes = buffer.length then offset + numBytes else offset + numBytes + getPaddingSize numBytes 8

namespace ContiguousEntityContainer

/-- An iterator that finds no valid entity goes to the end. -/
def checkError (sizeofEntity : Nat) (container : ContiguousEntityContainer) (iterator : EntityIterator) :
    Except IterationError EntityIterator :=
  if isEnd container.buffer iterator.current then .ok iterator
  else do
    let isValid ← isEntityValid sizeofEntity container.buffer iterator.current
    if isValid then return iterator
    else
      match container.errorPolicy with
      | .throw => throw (.runtimeError "error encountered while iterating")
      | .suppress => return ⟨container.buffer.length, true⟩

def begin (sizeofEntity : Nat) (container : ContiguousEntityContainer) : Except IterationError EntityIterator :=
  container.checkError sizeofEntity ⟨0, false⟩

def endOffset (container : ContiguousEntityContainer) : Nat := advance container.buffer 0 container.buffer.length

def increment (sizeofEntity : Nat) (container : ContiguousEntityContainer) (iterator : EntityIterator) :
    Except IterationError EntityIterator :=
  if isEnd container.buffer iterator.current then .error (.outOfRange "cannot advance iterator beyond end")
  else do
    let size ← readSize container.buffer iterator.current
    let next := advance container.buffer iterator.current size
    if isEnd container.buffer next then return { iterator with current := next }
    else container.checkError sizeofEntity { iterator with current := next }

/-- The loop ends when a consumer returns false, and the outcome tells if all entities were consumed. -/
def allOfFrom (sizeofEntity : Nat) (container : ContiguousEntityContainer) (consumer : Nat → Bool) :
    Nat → EntityIterator → Except IterationError (Bool × List Nat × EntityIterator)
  | 0, _ => .error .endless
  | rounds + 1, iterator =>
    if iterator.current = container.endOffset then .ok (true, [], iterator)
    else if isEnd container.buffer iterator.current then .error (.outOfRange "cannot dereference at end")
    else if consumer iterator.current then do
      let next ← container.increment sizeofEntity iterator
      let rest ← allOfFrom sizeofEntity container consumer rounds next
      return (rest.1, iterator.current :: rest.2.1, rest.2.2)
    else .ok (false, [iterator.current], iterator)

/-- The entities are visited in their order, and every round takes some bytes. -/
def allOf (sizeofEntity : Nat) (container : ContiguousEntityContainer) (consumer : Nat → Bool) :
    Except IterationError (Bool × List Nat × EntityIterator) := do
  let first ← container.begin sizeofEntity
  container.allOfFrom sizeofEntity consumer (container.buffer.length + 1) first

/-- An iteration over all entities yields the offsets of the entities and the state at its end. -/
def iterate (sizeofEntity : Nat) (container : ContiguousEntityContainer) : Except IterationError (List Nat × EntityIterator) := do
  let visited ← container.allOf sizeofEntity fun _ => true
  return visited.2

end ContiguousEntityContainer

def sizeofEmbeddedTransaction : Nat := 1328

def sizeofAggregateTransaction : Nat := 3804

def sizeofCosignature : Nat := 3740

/-- The payload is what follows the header of the aggregate, whose size is that of all its bytes. -/
structure AggregateTransaction where
  size : UInt32
  payloadSize : UInt32
  payload : List UInt8
  complete : size.toNat ≤ sizeofAggregateTransaction + payload.length

namespace AggregateTransaction

/-- A container without transactions has no start. -/
def transactions (aggregate : AggregateTransaction) (errorPolicy : EntityContainerErrorPolicy) : ContiguousEntityContainer :=
  ⟨aggregate.payload.take aggregate.payloadSize.toNat, errorPolicy⟩

def isPayloadSizeValid (aggregate : AggregateTransaction) : Bool :=
  sizeofAggregateTransaction ≤ aggregate.size.toNat && aggregate.payloadSize.toNat % 8 = 0 &&
    aggregate.payloadSize.toNat ≤ aggregate.size.toNat - sizeofAggregateTransaction &&
    (aggregate.size.toNat - sizeofAggregateTransaction - aggregate.payloadSize.toNat) % sizeofCosignature = 0

/-- The registry decides about the size of a transaction at an offset of the payload. -/
def isSizeValid (registry : List UInt8 → Nat → Bool) (aggregate : AggregateTransaction) : Except IterationError Bool :=
  if aggregate.isPayloadSizeValid then do
    let transactions := aggregate.transactions .suppress
    let checked ← transactions.allOf sizeofEmbeddedTransaction (registry transactions.buffer)
    return checked.1 && !checked.2.2.hasError
  else return false

end AggregateTransaction

end Catapult.Model
