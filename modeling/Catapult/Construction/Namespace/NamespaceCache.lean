import Catapult.Construction.Namespace.RootNamespaceHistory
import Catapult.Library.Groups
import Mathlib.Data.Finmap

/-
This file models the namespace cache with its flat map, its sizes and its height groups.
-/

namespace Catapult.Namespaces

/-- The flat map resolves every visible namespace. -/
structure NamespaceCache where
  historyById : Finmap fun _ : NamespaceId => RootNamespaceHistory
  namespaceById : Finmap fun _ : NamespaceId => Namespace
  rootNamespaceIdsByExpiryHeight : Groups Height NamespaceId
  activeSize : Nat
  deepSize : Nat
  gracePeriodDuration : BlockDuration

namespace NamespaceCache

def create (gracePeriodDuration : BlockDuration) : NamespaceCache := ⟨∅, ∅, fun _ => none, 0, 0, gracePeriodDuration⟩

/-- An operation that throws keeps the changes that it made before. -/
abbrev Outcome := Except NamespaceError Unit × NamespaceCache

/-- A history that is changed is copied first. -/
def findHistory (cache : NamespaceCache) (id : NamespaceId) : Option RootNamespaceHistory :=
  (cache.historyById.lookup id).map RootNamespaceHistory.copy

def addAll (namespaceById : Finmap fun _ : NamespaceId => Namespace) (children : Children) :
    Finmap fun _ : NamespaceId => Namespace :=
  children.foldl (fun map child => map.insert child.2.ns.id child.2.ns) namespaceById

def removeAll (namespaceById : Finmap fun _ : NamespaceId => Namespace) (ids : List NamespaceId) :
    Finmap fun _ : NamespaceId => Namespace :=
  ids.foldl (fun map id => map.erase id) namespaceById

/-- The root of a new registration is described by its identifier, owner and lifetime. -/
def insertRoot (cache : NamespaceCache) (id : NamespaceId) (ownerAddress : Address) (lifetime : NamespaceLifetime) : Outcome :=
  let grouped := { cache with
    rootNamespaceIdsByExpiryHeight := cache.rootNamespaceIdsByExpiryHeight.add lifetime.endHeight id }
  match cache.findHistory id with
  | some history =>
    match history.runs with
    | [] => (.error .undefined, grouped)
    | run :: _ =>
      let pushed := grouped.historyById.insert id (history.pushBack ownerAddress lifetime)
      if RootNamespace.canExtend ⟨ownerAddress, lifetime, .none⟩ run.newest then
        (.ok (), { grouped with
          historyById := pushed
          deepSize := grouped.deepSize + run.children.length + 1 })
      else
        -- the children of the previous owner can no longer be resolved
        (.ok (), { grouped with
          historyById := pushed
          namespaceById := removeAll grouped.namespaceById run.children.ids
          activeSize := grouped.activeSize - run.children.length
          deepSize := grouped.deepSize + 1 })
  | none =>
    (.ok (), { grouped with
      historyById := grouped.historyById.insert id (RootNamespaceHistory.pushBack ⟨id, []⟩ ownerAddress lifetime)
      namespaceById := grouped.namespaceById.insert id ⟨[id], singleton_nonempty id⟩
      activeSize := grouped.activeSize + 1
      deepSize := grouped.deepSize + 1 })

def insertChild (cache : NamespaceCache) (ns : Namespace) : Outcome :=
  match cache.findHistory ns.rootId with
  | none => (.error (.invalidArgument "no root namespace exists for namespace" [ns.id]), cache)
  | some history =>
    match history.runs with
    | [] => (.error .undefined, cache)
    | run :: older =>
      match run.add history.id ns with
      | .error error => (.error error, cache)
      | .ok added =>
        let extended : RootNamespaceHistory := { history with runs := added :: older }
        (.ok (), { cache with
          historyById := cache.historyById.insert ns.rootId extended
          namespaceById := cache.namespaceById.insert ns.id ns
          activeSize := cache.activeSize + 1
          deepSize := cache.deepSize + extended.activeOwnerHistoryDepth })

def setAlias (cache : NamespaceCache) (id : NamespaceId) (namespaceAlias : NamespaceAlias) : Outcome :=
  match cache.namespaceById.lookup id with
  | none => (.error (.invalidArgument "no namespace exists" [id]), cache)
  | some ns =>
    match cache.findHistory ns.rootId with
    | none => (.error .undefined, cache)
    | some history =>
      match history.runs with
      | [] => (.error .undefined, cache)
      | run :: older =>
        match run.setAlias history.id id namespaceAlias with
        | .error error => (.error error, cache)
        | .ok linked =>
          (.ok (), { cache with
            historyById := cache.historyById.insert ns.rootId { history with runs := linked :: older } })

def removeRoot (cache : NamespaceCache) (id : NamespaceId) : Outcome :=
  match cache.findHistory id with
  | none => (.error .undefined, cache)
  | some history =>
    match history.runs with
    | [] => (.error .undefined, cache)
    | run :: _ =>
      if history.historyDepth = 1 ∧ run.children ≠ [] then
        (.error (.runtimeError "cannot remove root namespace with children" [id]), cache)
      else
        let popped := history.popBack
        let ungrouped := { cache with
          rootNamespaceIdsByExpiryHeight :=
            cache.rootNamespaceIdsByExpiryHeight.remove run.newest.lifetime.endHeight id }
        match popped.runs with
        | [] =>
          (.ok (), { ungrouped with
            historyById := ungrouped.historyById.erase id
            namespaceById := ungrouped.namespaceById.erase id
            activeSize := ungrouped.activeSize - 1
            deepSize := ungrouped.deepSize - 1 })
        | current :: _ =>
          let shrunk := { ungrouped with
            historyById := ungrouped.historyById.insert id popped
            deepSize := ungrouped.deepSize - (1 + run.children.length) }
          if run.newest.canExtend current.newest then (.ok (), shrunk)
          else
            -- the children of the previous owner can be resolved again
            (.ok (), { shrunk with
              namespaceById := addAll (removeAll shrunk.namespaceById run.children.ids) current.children
              activeSize := shrunk.activeSize - run.children.length + current.children.length })

def removeChild (cache : NamespaceCache) (ns : Namespace) : Outcome :=
  match cache.findHistory ns.rootId with
  | none => (.error .undefined, cache)
  | some history =>
    match history.runs with
    | [] => (.error .undefined, cache)
    | run :: older =>
      match run.remove ns.id with
      | .error error => (.error error, cache)
      | .ok removed =>
        let shrunk : RootNamespaceHistory := { history with runs := removed :: older }
        (.ok (), { cache with
          historyById := cache.historyById.insert ns.rootId shrunk
          namespaceById := cache.namespaceById.erase ns.id
          activeSize := cache.activeSize - 1
          deepSize := cache.deepSize - shrunk.activeOwnerHistoryDepth })

def remove (cache : NamespaceCache) (id : NamespaceId) : Outcome :=
  match cache.namespaceById.lookup id with
  | none => (.error (.invalidArgument "no namespace exists" [id]), cache)
  | some ns => if ns.rootId = id then cache.removeRoot id else cache.removeChild ns

/-- The active and the deep size of one history are computed from its roots. -/
def namespaceSizes (history : RootNamespaceHistory) : Nat × Nat :=
  ((if history.empty then 0 else 1) + history.numActiveRootChildren, history.historyDepth + history.numAllHistoricalChildren)

def pruneHistory (height : Height) (result : List NamespaceId × NamespaceCache) (id : NamespaceId) :
    List NamespaceId × NamespaceCache :=
  let cache := result.2
  match cache.findHistory id with
  | none => result
  | some history =>
    let removedIds := (history.prune height).1
    let pruned := (history.prune height).2
    (result.1 ∪ removedIds, { cache with
      historyById :=
        if pruned.empty then cache.historyById.erase id else cache.historyById.insert id pruned
      namespaceById := removeAll cache.namespaceById removedIds
      activeSize := cache.activeSize - ((namespaceSizes history).1 - (namespaceSizes pruned).1)
      deepSize := cache.deepSize - ((namespaceSizes history).2 - (namespaceSizes pruned).2) })

/-- The height groups stay as they are. -/
def prune (cache : NamespaceCache) (height : Height) : List NamespaceId × NamespaceCache :=
  (cache.rootNamespaceIdsByExpiryHeight.identifiers height).foldl (pruneHistory height) ([], cache)

end NamespaceCache

/-- These operations change the cache. -/
inductive Operation where
  | insertRoot (id : NamespaceId) (ownerAddress : Address) (lifetime : NamespaceLifetime)
  | insertChild (ns : Namespace)
  | setAlias (id : NamespaceId) (namespaceAlias : NamespaceAlias)
  | remove (id : NamespaceId)
  | prune (height : Height)

def NamespaceCache.perform (cache : NamespaceCache) : Operation → NamespaceCache.Outcome
  | .insertRoot id ownerAddress lifetime => cache.insertRoot id ownerAddress lifetime
  | .insertChild ns => cache.insertChild ns
  | .setAlias id namespaceAlias => cache.setAlias id namespaceAlias
  | .remove id => cache.remove id
  | .prune height => (.ok (), (cache.prune height).2)

/-- A caller that catches an error goes on with what the operation left. -/
def NamespaceCache.step (cache : NamespaceCache) (operation : Operation) : NamespaceCache := (cache.perform operation).2

end Catapult.Namespaces
