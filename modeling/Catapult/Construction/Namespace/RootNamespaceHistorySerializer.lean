import Catapult.Construction.Namespace.SharedHistory
import Catapult.Library.ByteStream
import Catapult.Library.SortedMap
import Mathlib.Data.List.Lex

/-
This file models how root namespace histories are saved to streams and loaded from them.
-/

namespace Catapult.Namespaces

open ByteStream

/-- The type of the alias comes before its data. -/
def saveAlias : NamespaceAlias → List UInt8
  | .none => Codec.word8.write 0
  | .mosaic mosaicId => Codec.word8.write 1 ++ Codec.word64.write mosaicId
  | .address address => Codec.word8.write 2 ++ (Codec.array 24).write address

/-- The paths of the children are ordered lexicographically. -/
def sortedChildPaths (children : Children) : List (List NamespaceId) :=
  ((children.map fun child => (child.2.ns.path, ())).foldl (fun paths path => SortedMap.insert path paths) []).map Prod.fst

/-- The first part of a path is the root and is not written. -/
def saveChild (rootId : NamespaceId) (root : RootRun) (path : List NamespaceId) : Except NamespaceError (List UInt8) :=
  if 255 < path.length - 1 then
    .error (.runtimeError "checked_cast detected data truncation" [UInt64.ofNat (path.length - 1)])
  else do
    let namespaceAlias ← root.aliasOf rootId (path.getLastD rootId)
    return Codec.word8.write (UInt8.ofNat (path.length - 1)) ++ path.tail.flatMap Codec.word64.write ++ saveAlias namespaceAlias

def saveChildren (rootId : NamespaceId) (root : RootRun) : Except NamespaceError (List UInt8) := do
  let paths := sortedChildPaths root.children
  let children ← paths.mapM (saveChild rootId root)
  return Codec.word64.write (UInt64.ofNat paths.length) ++ children.flatten

/-- The children of a root that extends the one before it are not written again. -/
def saveRootNamespace (rootId : NamespaceId) (root : RootNamespace) (children : Children)
    (previousRoot : Option RootNamespace) : Except NamespaceError (List UInt8) := do
  let data := (Codec.array 24).write root.ownerAddress ++ Codec.word64.write root.lifetime.start ++
    Codec.word64.write root.lifetime.endHeight ++ saveAlias root.namespaceAlias
  if (previousRoot.elim false root.canExtend) = true then return data ++ Codec.word64.write 0
  else return data ++ (← saveChildren rootId ⟨children, root, []⟩)

/-- The roots are listed from the newest to the oldest and are saved from the oldest on. -/
def saveRoots (rootId : NamespaceId) : List (RootNamespace × Children) → Except NamespaceError (List UInt8)
  | [] => .ok []
  | entry :: older => do
    let before ← saveRoots rootId older
    let bytes ← saveRootNamespace rootId entry.1 entry.2 (older.head?.map Prod.fst)
    return before ++ bytes

def RootNamespaceHistory.save (history : RootNamespaceHistory) : Except NamespaceError (List UInt8) := do
  let roots ← saveRoots history.id (RootNamespaceHistory.entries history.runs)
  return Codec.word64.write (UInt64.ofNat history.historyDepth) ++ Codec.word64.write history.id ++ roots

inductive LoadError where
  | endOfStream
  | history (error : NamespaceError)
  deriving DecidableEq

abbrev HistoryReader := ByteStream.Reader LoadError

def readValue {α : Type} (codec : Codec α) : HistoryReader α := codec.take LoadError.endOfStream

/-- The methods of a history throw their own errors. -/
def liftHistory {α : Type} (result : Except NamespaceError α) : HistoryReader α := liftM (result.mapError LoadError.history)

def loadAlias : HistoryReader NamespaceAlias := do
  let aliasType ← readValue .word8
  if aliasType = 1 then return .mosaic (← readValue .word64)
  else if aliasType = 2 then return .address (← readValue (.array 24))
  else return .none

def loadParts : Nat → HistoryReader (List NamespaceId)
  | 0 => return []
  | count + 1 => do
    let id ← readValue .word64
    let ids ← loadParts count
    return id :: ids

/-- A loaded path starts with the root. -/
def loadPath (rootId : NamespaceId) : HistoryReader Namespace := do
  let childDepth ← readValue .word8
  let ids ← loadParts childDepth.toNat
  return ⟨rootId :: ids, List.cons_ne_nil _ _⟩

/-- The children that were read, in the order of the stream. -/
abbrev ChildDataPairs := List (Namespace × NamespaceAlias)

def loadChild (rootId : NamespaceId) (childDataPairs : ChildDataPairs) : HistoryReader ChildDataPairs := do
  let path ← loadPath rootId
  let namespaceAlias ← loadAlias
  return childDataPairs ++ [(path, namespaceAlias)]

def loadChildren (rootId : NamespaceId) (numChildren : UInt64) : HistoryReader ChildDataPairs :=
  loop LoadError.endOfStream numChildren (loadChild rootId) []

def addChild (history : RootNamespaceHistory) (pair : Namespace × NamespaceAlias) :
    Except NamespaceError RootNamespaceHistory := do
  let added ← history.changeBack fun root => root.add history.id pair.1
  added.changeBack fun root => root.setAlias history.id pair.1.id pair.2

def loadRootNamespace (history : RootNamespaceHistory) : HistoryReader RootNamespaceHistory := do
  let owner ← readValue (.array 24)
  let lifetimeStart ← readValue .word64
  let lifetimeEnd ← readValue .word64
  let lifetime ← liftHistory (NamespaceLifetime.create lifetimeStart lifetimeEnd 0)
  let pushed := history.pushBack owner lifetime
  let namespaceAlias ← loadAlias
  let linked ← liftHistory (pushed.changeBack fun root => root.setAlias history.id history.id namespaceAlias)
  let numChildren ← readValue .word64
  let childDataPairs ← loadChildren history.id numChildren
  liftHistory (childDataPairs.foldlM addChild linked)

def RootNamespaceHistory.load : HistoryReader RootNamespaceHistory := do
  let historyDepth ← readValue .word64
  let id ← readValue .word64
  loop LoadError.endOfStream historyDepth loadRootNamespace ⟨id, []⟩

end Catapult.Namespaces
