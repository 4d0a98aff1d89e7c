import Catapult.Construction.Namespace.RootNamespaceHistory
import Catapult.Library.Heap

/-
This file models root namespace histories whose roots point to the children that they share.
-/

namespace Catapult.Namespaces

structure SharedRoot where
  root : RootNamespace
  children : Nat
  deriving DecidableEq

/-- The roots are listed from the newest to the oldest. -/
structure SharedHistory where
  id : NamespaceId
  roots : List SharedRoot
  deriving DecidableEq

/-- Only the newest root of a history can be changed. -/
inductive HistoryOperation where
  | pushBack (ownerAddress : Address) (lifetime : NamespaceLifetime)
  | popBack
  | add (ns : Namespace)
  | remove (id : NamespaceId)
  | setAlias (id : NamespaceId) (namespaceAlias : NamespaceAlias)
  | prune (height : Height)

namespace SharedHistory

/-- A renewal points to the children of the root before it and drops the map that was made for it. -/
def pushBack (heap : Heap Children) (history : SharedHistory) (ownerAddress : Address) (lifetime : NamespaceLifetime) :
    Heap Children × SharedHistory :=
  let root : RootNamespace := ⟨ownerAddress, lifetime, .none⟩
  let newRootNamespace : SharedRoot := ⟨root, heap.next⟩
  match history.roots with
  | [] => (heap.allocate [], { history with roots := [newRootNamespace] })
  | previous :: _ =>
    if root.canExtend previous.root then
      let renewed : RootNamespace := ⟨previous.root.ownerAddress, lifetime, previous.root.namespaceAlias⟩
      (heap.allocate [], { history with roots := ⟨renewed, previous.children⟩ :: history.roots })
    else (heap.allocate [], { history with roots := newRootNamespace :: history.roots })

/-- There has to be a root to remove. -/
def popBack (history : SharedHistory) : Except NamespaceError SharedHistory :=
  match history.roots with
  | [] => .error .undefined
  | _ :: older => .ok { history with roots := older }

/-- A method of the newest root changes its alias or the children that it points to. -/
def changeBack (heap : Heap Children) (history : SharedHistory) (method : RootRun → Except NamespaceError RootRun) :
    Except NamespaceError (Heap Children × SharedHistory) :=
  match history.roots with
  | [] => .error .undefined
  | newest :: older =>
    match heap.read newest.children with
    | none => .error .undefined
    | some children => do
      let run ← method ⟨children, newest.root, []⟩
      return (heap.write newest.children run.children,
        { history with roots := ⟨run.newest, newest.children⟩ :: older })

def prune (history : SharedHistory) (height : Height) : SharedHistory :=
  { history with roots := history.roots.filter fun shared => height < shared.root.lifetime.endHeight }

def perform (heap : Heap Children) (history : SharedHistory) :
    HistoryOperation → Except NamespaceError (Heap Children × SharedHistory)
  | .pushBack ownerAddress lifetime => .ok (history.pushBack heap ownerAddress lifetime)
  | .popBack => do return (heap, ← history.popBack)
  | .add ns => history.changeBack heap fun run => run.add history.id ns
  | .remove id => history.changeBack heap fun run => run.remove id
  | .setAlias id namespaceAlias => history.changeBack heap fun run => run.setAlias history.id id namespaceAlias
  | .prune height => .ok (heap, history.prune height)

/-- An operation that throws has changed nothing before. -/
def step (state : Heap Children × SharedHistory) (operation : HistoryOperation) : Heap Children × SharedHistory :=
  match state.2.perform state.1 operation with
  | .ok next => next
  | .error _ => state

/-- The children are copied for every root that cannot extend the root before it. -/
def copyRoots (heap : Heap Children) : List SharedRoot → Heap Children × List SharedRoot
  | [] => (heap, [])
  | shared :: older =>
    let copied := copyRoots heap older
    let fresh := (copied.1.allocate ((copied.1.read shared.children).getD []), ⟨shared.root, copied.1.next⟩ :: copied.2)
    match (older.zip copied.2).head? with
    | none => fresh
    | some (previous, previousCopy) =>
      if shared.root.canExtend previous.root then (copied.1, ⟨shared.root, previousCopy.children⟩ :: copied.2)
      else fresh

def copy (heap : Heap Children) (history : SharedHistory) : Heap Children × SharedHistory :=
  let copied := copyRoots heap history.roots
  (copied.1, ⟨history.id, copied.2⟩)

end SharedHistory

namespace RootNamespaceHistory

def changeBack (history : RootNamespaceHistory) (method : RootRun → Except NamespaceError RootRun) :
    Except NamespaceError RootNamespaceHistory :=
  match history.runs with
  | [] => .error .undefined
  | run :: older => do return { history with runs := (← method run) :: older }

def perform (history : RootNamespaceHistory) : HistoryOperation → Except NamespaceError RootNamespaceHistory
  | .pushBack ownerAddress lifetime => .ok (history.pushBack ownerAddress lifetime)
  | .popBack => if history.runs = [] then .error .undefined else .ok history.popBack
  | .add ns => history.changeBack fun run => run.add history.id ns
  | .remove id => history.changeBack fun run => run.remove id
  | .setAlias id namespaceAlias => history.changeBack fun run => run.setAlias history.id id namespaceAlias
  | .prune height => .ok (history.prune height).2

def step (history : RootNamespaceHistory) (operation : HistoryOperation) : RootNamespaceHistory :=
  match history.perform operation with
  | .ok next => next
  | .error _ => history

end RootNamespaceHistory

/-- Two histories lie in one heap. -/
structure HistoryPair where
  heap : Heap Children
  original : SharedHistory
  copied : SharedHistory

inductive HistorySide where
  | original
  | copied
  deriving DecidableEq

namespace HistoryPair

def history (pair : HistoryPair) : HistorySide → SharedHistory
  | .original => pair.original
  | .copied => pair.copied

def step (pair : HistoryPair) (action : HistorySide × HistoryOperation) : HistoryPair :=
  match action.1 with
  | .original =>
    let next := SharedHistory.step (pair.heap, pair.original) action.2
    { pair with heap := next.1, original := next.2 }
  | .copied =>
    let next := SharedHistory.step (pair.heap, pair.copied) action.2
    { pair with heap := next.1, copied := next.2 }

end HistoryPair

end Catapult.Namespaces
