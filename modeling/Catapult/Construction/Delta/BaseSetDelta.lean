import Catapult.Library.KeyedSet

/-
This file models base sets, their deltas, the commit of a delta and the iteration over the elements of a delta.
-/

namespace Catapult.Delta

/-- Possible results of an insert into a base set delta. -/
inductive InsertResult where
  | unremoved
  | updated
  | redundant
  | inserted
  deriving DecidableEq

/-- Possible results of a remove from a base set delta. -/
inductive RemoveResult where
  | none
  | unmodifiedAndRemoved
  | uninserted
  | redundant
  | removed
  deriving DecidableEq

variable {K E : Type}

/-- A delta keeps its changes apart from the original elements. -/
structure BaseSetDelta (keying : Keying K E) where
  originalElements : KeyedSet keying
  addedElements : KeyedSet keying
  removedElements : KeyedSet keying
  copiedElements : KeyedSet keying
  generationId : UInt32
  keyGenerationIdMap : K → Option UInt32

/-- The pending modifications of a delta. -/
structure DeltaElements (keying : Keying K E) where
  added : KeyedSet keying
  removed : KeyedSet keying
  copied : KeyedSet keying

/-- A set of changes is empty if all its containers are. -/
def DeltaElements.hasChanges {keying : Keying K E} (deltas : DeltaElements keying) : Bool :=
  !(deltas.added.elements.isEmpty && deltas.copied.elements.isEmpty && deltas.removed.elements.isEmpty)

/-- A found element lies in one of the two containers that a caller may modify. -/
inductive FoundIn where
  | copied
  | added

namespace BaseSetDelta

variable {keying : Keying K E}

/-- A new delta starts with the first generation. -/
def ofSet (originalElements : KeyedSet keying) : BaseSetDelta keying :=
  ⟨originalElements, .empty, .empty, .empty, 1, fun _ => none⟩

/-- The difference of the sizes may wrap before the added elements are counted. -/
def size (delta : BaseSetDelta keying) : UInt64 :=
  UInt64.ofNat delta.originalElements.length - UInt64.ofNat delta.removedElements.length + UInt64.ofNat delta.addedElements.length

def empty (delta : BaseSetDelta keying) : Bool := 0 == delta.size

def deltas (delta : BaseSetDelta keying) : DeltaElements keying :=
  ⟨delta.addedElements, delta.removedElements, delta.copiedElements⟩

/-- A key that was never marked belongs to generation zero. -/
def keyGenerationId (delta : BaseSetDelta keying) (key : K) : UInt32 :=
  (delta.keyGenerationIdMap key).getD 0

def incrementGenerationId (delta : BaseSetDelta keying) : BaseSetDelta keying :=
  { delta with generationId := delta.generationId + 1 }

/-- A reset keeps only the reference to the original elements. -/
def reset (delta : BaseSetDelta keying) : BaseSetDelta keying := ofSet delta.originalElements

variable [DecidableEq K]

/-- The latest generation of a key is stored. -/
def markKey (delta : BaseSetDelta keying) (key : K) : BaseSetDelta keying :=
  { delta with keyGenerationIdMap := Function.update delta.keyGenerationIdMap key (some delta.generationId) }

/-- A copy hides the original element. -/
def findOriginal (delta : BaseSetDelta keying) (key : K) : Option E :=
  match delta.copiedElements.find key with
  | some element => some element
  | none => delta.originalElements.find key

/-- The constant search does not copy the original element. -/
def find (delta : BaseSetDelta keying) (key : K) : Option E :=
  if delta.removedElements.contains key then none
  else
    match delta.findOriginal key with
    | some element => some element
    | none => delta.addedElements.find key

/-- The mutable search copies the original element before it hands it out. -/
def copyOriginal (delta : BaseSetDelta keying) (key : K) : Option E × BaseSetDelta keying :=
  match delta.copiedElements.find key with
  | some element => (some element, delta)
  | none =>
    match delta.originalElements.find key with
    | none => (none, delta)
    | some element =>
      (some element, { delta with copiedElements := delta.copiedElements.insert element })

/-- The mutable search marks the key of a found element. -/
def findMutable (delta : BaseSetDelta keying) (key : K) : Option (FoundIn × E) × BaseSetDelta keying :=
  if delta.removedElements.contains key then (none, delta)
  else
    match delta.copyOriginal key with
    | (some element, copied) => (some (.copied, element), copied.markKey key)
    | (none, copied) =>
      match copied.addedElements.find key with
      | some element => (some (.added, element), copied.markKey key)
      | none => (none, copied)

/-- A write through a found pointer changes the element in its container. -/
def write (delta : BaseSetDelta keying) (key : K) (changed : KeyedSet.KeyedChange keying) : FoundIn → BaseSetDelta keying
  | .copied => { delta with copiedElements := delta.copiedElements.modify key changed }
  | .added => { delta with addedElements := delta.addedElements.modify key changed }

/-- A caller searches for an element and changes it in place if it was found. -/
def change (delta : BaseSetDelta keying) (key : K) (changed : KeyedSet.KeyedChange keying) : BaseSetDelta keying :=
  match delta.findMutable key with
  | (some (location, _), found) => found.write key changed location
  | (none, found) => found

def contains (delta : BaseSetDelta keying) (key : K) : Bool :=
  !delta.removedElements.contains key &&
    (delta.addedElements.contains key || delta.originalElements.contains key)

/-- The target container is cleared of the key because an insertion does not replace elements. -/
def replaceAdded (delta : BaseSetDelta keying) (element : E) : BaseSetDelta keying :=
  { delta with
    addedElements := (delta.addedElements.erase (keying.toKey element)).insert element }

def replaceCopied (delta : BaseSetDelta keying) (element : E) : BaseSetDelta keying :=
  { delta with
    copiedElements := (delta.copiedElements.erase (keying.toKey element)).insert element }

/-- This is the insertion of a mutable element. -/
def insert (delta : BaseSetDelta keying) (element : E) : InsertResult × BaseSetDelta keying :=
  let key := keying.toKey element
  let marked := delta.markKey key
  if delta.removedElements.contains key then
    let unremoved := { marked with removedElements := delta.removedElements.erase key }
    if delta.addedElements.contains key then (.unremoved, unremoved.replaceAdded element)
    else (.unremoved, unremoved.replaceCopied element)
  else if delta.originalElements.contains key then (.updated, marked.replaceCopied element)
  else if delta.addedElements.contains key then (.updated, marked.replaceAdded element)
  else (.inserted, marked.replaceAdded element)

/-- A removal of a mutable element discards its copy; a removed addition stays in the added elements. -/
def remove (delta : BaseSetDelta keying) (key : K) : RemoveResult × BaseSetDelta keying :=
  if delta.removedElements.contains key then (.redundant, delta)
  else
    match delta.copiedElements.find key with
    | some element =>
      (.unmodifiedAndRemoved,
        { delta.markKey key with
          removedElements := delta.removedElements.insert element
          copiedElements := delta.copiedElements.erase key })
    | none =>
      match delta.addedElements.find key with
      | some element =>
        (.uninserted,
          { delta.markKey key with removedElements := delta.removedElements.insert element })
      | none =>
        match delta.originalElements.find key with
        | some element =>
          (.removed,
            { delta.markKey key with removedElements := delta.removedElements.insert element })
        | none => (.none, delta)

end BaseSetDelta

section Commit

variable {keying : Keying K E} [DecidableEq K]

/-- A copied element must replace an existing element. -/
def updateCopied (elements : KeyedSet keying) (element : E) : Except String (KeyedSet keying) :=
  match elements.find (keying.toKey element) with
  | none => .error "element not found, cannot update"
  | some _ => .ok ((elements.erase (keying.toKey element)).insert element)

/-- Additions come first, then copies and then removals. -/
def updateSet (elements : KeyedSet keying) (deltas : DeltaElements keying) : Except String (KeyedSet keying) := do
  let inserted := deltas.added.elements.foldl KeyedSet.insert elements
  let updated ← deltas.copied.elements.foldlM updateCopied inserted
  return deltas.removed.elements.foldl (fun elements element => elements.erase (keying.toKey element)) updated

/-- A base set knows its attached delta while a caller holds it. -/
structure BaseSet (keying : Keying K E) where
  elements : KeyedSet keying
  delta : Option (BaseSetDelta keying)

namespace BaseSet

def rebase (set : BaseSet keying) : Except String (BaseSet keying) :=
  match set.delta with
  | some _ => .error "only a single attached delta is allowed at a time"
  | none => .ok { set with delta := some (.ofSet set.elements) }

/-- The reset delta refers to the updated elements. -/
def commit (set : BaseSet keying) : Except String (BaseSet keying) :=
  match set.delta with
  | none =>
    .error "attempting to commit changes to a set without any outstanding attached deltas"
  | some delta => do
    let elements ← updateSet set.elements delta.deltas
    return ⟨elements, some ({ delta with originalElements := elements }).reset⟩

end BaseSet

end Commit

/-- A caller changes a delta by these operations; the constant ones leave it alone. -/
inductive DeltaOperation (keying : Keying K E) where
  | insert (element : E)
  | remove (key : K)
  | find (key : K)
  | change (key : K) (changed : KeyedSet.KeyedChange keying)
  | contains (key : K)

/-- A mutable find that changes nothing is a change by the identity. -/
def BaseSetDelta.apply {keying : Keying K E} [DecidableEq K] (delta : BaseSetDelta keying) :
    DeltaOperation keying → BaseSetDelta keying
  | .insert element => (delta.insert element).2
  | .remove key => (delta.remove key).2
  | .find _ => delta
  | .change key changed => delta.change key changed
  | .contains _ => delta

variable {K E : Type} {keying : Keying K E}

/-- The original elements are visited before the added elements. -/
inductive IterationStage where
  | original
  | added
  deriving DecidableEq

/-- A view refers to the original elements, to the pending modifications and to the size of a delta. -/
structure BaseSetDeltaIterationView (keying : Keying K E) where
  originalElements : KeyedSet keying
  deltas : DeltaElements keying
  size : UInt64

/-- A container iterator is the list of elements from its position to the end. -/
structure ViewIterator (E : Type) where
  position : UInt64
  stage : IterationStage
  iter : List E
  originalIter : List E

def makeIterableView (delta : BaseSetDelta keying) : BaseSetDeltaIterationView keying :=
  ⟨delta.originalElements, delta.deltas, delta.size⟩

namespace BaseSetDeltaIterationView

variable [DecidableEq K]

/-- Removed elements are skipped and copied elements take precedence. -/
def handleOriginalStage (view : BaseSetDeltaIterationView keying) : List E → Option (List E × List E)
  | [] => none
  | element :: rest =>
    if view.deltas.removed.contains (keying.toKey element) then view.handleOriginalStage rest
    else
      match view.deltas.copied.find (keying.toKey element) with
      | none => some (element :: rest, element :: rest)
      | some copied => some ([copied], element :: rest)

/-- Added elements that were removed again are skipped. -/
def handleAddedStage (view : BaseSetDeltaIterationView keying) : List E → List E
  | [] => []
  | element :: rest =>
    if view.deltas.removed.contains (keying.toKey element) then view.handleAddedStage rest
    else element :: rest

/-- The added stage starts when all original elements have been iterated. -/
def moveToValidElement (view : BaseSetDeltaIterationView keying) (iterator : ViewIterator E) : ViewIterator E :=
  match iterator.stage with
  | .original =>
    match view.handleOriginalStage iterator.originalIter with
    | some (iter, originalIter) => { iterator with iter, originalIter }
    | none =>
      { iterator with
        stage := .added
        iter := view.handleAddedStage view.deltas.added.elements
        originalIter := [] }
  | .added => { iterator with iter := view.handleAddedStage iterator.iter }

def incrementIterator (iterator : ViewIterator E) : ViewIterator E :=
  match iterator.stage with
  | .original => { iterator with originalIter := iterator.originalIter.tail }
  | .added => { iterator with iter := iterator.iter.tail }

/-- The iterator at the end of the view has the size of the view as its position. -/
def iteratorAt (view : BaseSetDeltaIterationView keying) (position : UInt64) : ViewIterator E :=
  let iterator : ViewIterator E :=
    ⟨position, .original, view.originalElements.elements, view.originalElements.elements⟩
  if position = view.size then { iterator with iter := [] }
  else view.moveToValidElement iterator

/-- Advancing the iterator beyond the end throws. -/
def next (view : BaseSetDeltaIterationView keying) (iterator : ViewIterator E) : Except String (ViewIterator E) :=
  if iterator.position = view.size then .error "cannot advance iterator beyond end"
  else
    .ok (view.moveToValidElement
      (incrementIterator { iterator with position := iterator.position + 1 }))

/-- Dereferencing throws at the end and finds no element behind the last one. -/
def dereference (view : BaseSetDeltaIterationView keying) (iterator : ViewIterator E) : Except String (Option E) :=
  if iterator.position = view.size then .error "cannot dereference at end"
  else .ok iterator.iter.head?

/-- A range loop runs from an iterator to the end and gives no result if it takes too many steps. -/
def collectFrom (view : BaseSetDeltaIterationView keying) : Nat → ViewIterator E → Option (List E)
  | 0, _ => none
  | fuel + 1, iterator =>
    if iterator.position = view.size then some []
    else
      match view.dereference iterator, view.next iterator with
      | .ok (some element), .ok following => (view.collectFrom fuel following).map (element :: ·)
      | _, _ => none

/-- The elements that a range loop over the view visits within a number of steps. -/
def collect (view : BaseSetDeltaIterationView keying) (fuel : Nat) : Option (List E) :=
  view.collectFrom fuel (view.iteratorAt 0)

end BaseSetDeltaIterationView

end Catapult.Delta
