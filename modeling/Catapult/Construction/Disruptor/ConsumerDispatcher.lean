import Catapult.Construction.Types

/-
This file models the dispatcher that passes elements of a ring buffer through a line of consumers.
-/

namespace Catapult.Disruptor

inductive CompletionStatus where
  | aborted
  | normal
  | consumed
  deriving DecidableEq

inductive ConsumerResultSeverity where
  | neutral
  | success
  | failure
  | fatal
  deriving DecidableEq

structure ConsumerResult where
  completionStatus : CompletionStatus
  completionCode : UInt32
  resultSeverity : ConsumerResultSeverity
  deriving DecidableEq

/-- The position is the largest word if no consumer has aborted the element. -/
structure ConsumerCompletionResult extends ConsumerResult where
  finalConsumerPosition : UInt64
  deriving DecidableEq

def ConsumerCompletionResult.create : ConsumerCompletionResult := ⟨⟨.normal, 0, .success⟩, UInt64.ofNat (2 ^ 64 - 1)⟩

/-- A fixed number of slots is filled round and round, and the position of the next one stays below 64 bits. -/
structure CircularBuffer (T : Type) where
  capacity : Nat
  buffer : Nat → T
  next : Nat

namespace CircularBuffer

variable {T : Type} (circular : CircularBuffer T)

def get (index : Nat) : T := circular.buffer (index % circular.capacity)

def set (index : Nat) (element : T) : CircularBuffer T :=
  { circular with buffer := Function.update circular.buffer (index % circular.capacity) element }

/-- An older element is possibly overwritten. -/
def pushBack (element : T) : CircularBuffer T := { circular.set circular.next element with next := circular.next + 1 }

end CircularBuffer

/-- The completion handler has captured the size that the input had when it was added. -/
structure DisruptorElement (I : Type) where
  input : I
  id : Nat
  inputMemorySize : UInt64
  result : ConsumerCompletionResult

namespace DisruptorElement

variable {I : Type} (element : DisruptorElement I)

def isSkipped : Bool := element.result.completionStatus = .aborted

def markSkipped (position : Nat) (result : ConsumerResult) : DisruptorElement I :=
  { element with
    result := ⟨⟨.aborted, result.completionCode, result.resultSeverity⟩, UInt64.ofNat position⟩ }

end DisruptorElement

/-- The options, the number of consumers and what the dispatcher reads of its inputs. -/
structure ConsumerDispatcherOptions (I : Type) where
  disruptorSlotCount : Nat
  disruptorMaxMemorySize : UInt64
  shouldThrowWhenFull : Bool
  numConsumers : Nat
  memorySize : I → UInt64
  isEmpty : I → Bool

/-- Where a consumer thread stands between two accesses to shared data. -/
inductive ConsumerStage where
  | polling
  | testing
  | entering
  | consuming
  | marking (result : ConsumerResult)
  | advancing
  | inspecting
  | completing
  | releasing
  deriving DecidableEq

structure ConsumerEntry where
  position : Nat
  stage : ConsumerStage

/-- Where the caller that holds the lock stands in the addition of its input. -/
inductive ProducerStage (I : Type) where
  | idle
  | readingMin (input : I)
  | readingMax (input : I) (minPosition : Nat)
  | checkingMemory (input : I) (isFull : Bool)
  | reserving (input : I)
  | adding (input : I)
  | advancing

/-- What can be observed; the events are listed from the newest to the oldest. -/
inductive DispatcherEvent (I : Type) where
  | refused (input : I) (thrown : Bool)
  | accepted (position : Nat) (input : I)
  | started (level position : Nat) (input : I)
  | finished (level position : Nat) (result : ConsumerResult) (output : I)
  | inspected (position : Nat) (input : I) (result : ConsumerCompletionResult)
  | completed (position id : Nat) (result : ConsumerCompletionResult)

/-- Positions are counted without a bound. -/
structure ConsumerDispatcher (I : Type) where
  barriers : Nat → Nat
  consumers : Nat → ConsumerEntry
  container : CircularBuffer (DisruptorElement I)
  allElementsCount : Nat
  memorySize : UInt64
  numActiveElements : Nat
  producer : ProducerStage I
  log : List (DispatcherEvent I)

inductive DispatcherAction (I : Type) where
  | processElement (input : I)
  | produce
  | consume (level : Nat) (result : ConsumerResult) (output : I)

namespace ConsumerDispatcher

variable {I : Type} (options : ConsumerDispatcherOptions I) (state : ConsumerDispatcher I)

/-- The slots hold default elements. -/
def create [Inhabited I] : ConsumerDispatcher I where
  barriers _ := 0
  consumers _ := ⟨0, .polling⟩
  container := ⟨options.disruptorSlotCount, fun _ => ⟨default, 2 ^ 64 - 1, 0, .create⟩, 0⟩
  allElementsCount := 0
  memorySize := 0
  numActiveElements := 0
  producer := .idle
  log := []

/-- There must be space for the next element and one spare slot. -/
def canProcessNextElement (minPosition maxPosition : Nat) : Bool :=
  maxPosition - minPosition + 1 + 1 ≤ options.disruptorSlotCount

/-- The lock lets one caller in at a time; an empty input is ignored. -/
def processElement (input : I) : ConsumerDispatcher I :=
  if options.isEmpty input then state
  else match state.producer with
    | .idle => { state with producer := .readingMin input }
    | _ => state

/-- One step of the caller that holds the lock. -/
def produce : ConsumerDispatcher I :=
  match state.producer with
  | .idle => state
  | .readingMin input => { state with producer := .readingMax input (state.barriers options.numConsumers) }
  | .readingMax input minPosition =>
    { state with producer := .checkingMemory input (!canProcessNextElement options minPosition (state.barriers 0)) }
  | .checkingMemory input isFull =>
    if options.disruptorMaxMemorySize - state.memorySize < options.memorySize input || isFull then
      { state with producer := .idle, log := .refused input options.shouldThrowWhenFull :: state.log }
    else { state with producer := .reserving input }
  | .reserving input =>
    { state with
      producer := .adding input
      memorySize := state.memorySize + options.memorySize input
      numActiveElements := state.numActiveElements + 1 }
  | .adding input =>
    { state with
      producer := .advancing
      allElementsCount := state.allElementsCount + 1
      container := state.container.pushBack ⟨input, state.allElementsCount + 1, options.memorySize input, .create⟩
      log := .accepted state.container.next input :: state.log }
  | .advancing => { state with producer := .idle, barriers := Function.update state.barriers 0 (state.barriers 0 + 1) }

/-- A consumer thread moves to its next stage. -/
def enter (level : Nat) (stage : ConsumerStage) : ConsumerDispatcher I :=
  { state with consumers := Function.update state.consumers level ⟨(state.consumers level).position, stage⟩ }

/-- The barrier behind a consumer moves with it. -/
def advance (level : Nat) : ConsumerDispatcher I :=
  { state with
    consumers := Function.update state.consumers level
      ⟨(state.consumers level).position + 1, if level + 1 = options.numConsumers then .inspecting else .polling⟩
    barriers := Function.update state.barriers (level + 1) (state.barriers (level + 1) + 1) }

/-- One step of the thread of a consumer; the result and the output are those of a consumer that returns in this step. -/
def consume (level : Nat) (result : ConsumerResult) (output : I) : ConsumerDispatcher I :=
  let position := (state.consumers level).position
  match (state.consumers level).stage with
  | .polling => if position = state.barriers level then state else state.enter level .testing
  | .testing => state.enter level (if (state.container.get position).isSkipped then .advancing else .entering)
  | .entering =>
    { state.enter level .consuming with
      log := .started level position (state.container.get position).input :: state.log }
  | .consuming =>
    { state.enter level (if result.completionStatus = .aborted then .marking result else .advancing) with
      container := state.container.set position { state.container.get position with input := output }
      log := .finished level position result output :: state.log }
  | .marking aborted =>
    { state.enter level .advancing with
      container := state.container.set position ((state.container.get position).markSkipped position aborted) }
  | .advancing => state.advance options level
  | .inspecting =>
    let element := state.container.get (position - 1)
    { state.enter level .completing with log := .inspected (position - 1) element.input element.result :: state.log }
  | .completing =>
    let element := state.container.get (position - 1)
    { state.enter level .releasing with log := .completed (position - 1) element.id element.result :: state.log }
  | .releasing =>
    { state.enter level .polling with
      memorySize := state.memorySize - (state.container.get (position - 1)).inputMemorySize
      numActiveElements := state.numActiveElements - 1 }

def step : DispatcherAction I → ConsumerDispatcher I
  | .processElement input => state.processElement options input
  | .produce => state.produce options
  | .consume level result output => if level < options.numConsumers then state.consume options level result output else state

end ConsumerDispatcher

end Catapult.Disruptor
