import Catapult.Construction.Types
import Mathlib.Algebra.BigOperators.Group.List.Basic

/-
This file models namespaces and the histories of root namespaces.
-/

namespace Catapult.Namespaces

abbrev NamespaceId := UInt64

/-- The parent of every root namespace. -/
def namespaceBaseId : NamespaceId := 0

def maxHeight : Height := 0xFFFFFFFFFFFFFFFF

/-- An error carries the values that the source prints after its message. -/
inductive NamespaceError where
  | invalidArgument (message : String) (values : List UInt64)
  | runtimeError (message : String) (values : List UInt64)
  | undefined
  deriving DecidableEq

theorem singleton_nonempty (id : NamespaceId) : [id] ≠ [] := List.cons_ne_nil id []

/-- A path leads from the root to the namespace. -/
structure Namespace where
  path : List NamespaceId
  nonempty : path ≠ []
  deriving DecidableEq

namespace Namespace

def id (ns : Namespace) : NamespaceId := ns.path.getLast ns.nonempty

def parentId (ns : Namespace) : NamespaceId := ns.path.dropLast.getLastD namespaceBaseId

def rootId (ns : Namespace) : NamespaceId := ns.path.head ns.nonempty

def createChild (ns : Namespace) (id : NamespaceId) : Namespace := ⟨ns.path ++ [id], by simp⟩

end Namespace

/-- The end height includes the grace period. -/
structure NamespaceLifetime where
  start : Height
  endHeight : Height
  positive : start < endHeight
  deriving DecidableEq

namespace NamespaceLifetime

/-- A lifetime that ends at the maximum height has no grace period. -/
def create (start endHeight : Height) (gracePeriodDuration : BlockDuration) : Except NamespaceError NamespaceLifetime :=
  if positive : start < endHeight then
    let extended := if endHeight ≠ maxHeight then endHeight + gracePeriodDuration else endHeight
    if overflow : extended < endHeight then
      .error (.invalidArgument "namespace grace period end overflow detected" [start, endHeight, gracePeriodDuration])
    else .ok ⟨start, extended, UInt64.lt_of_lt_of_le positive (UInt64.not_lt.mp overflow)⟩
  else .error (.invalidArgument "namespace lifetime must be positive" [start, endHeight, gracePeriodDuration])

def isActive (lifetime : NamespaceLifetime) (height : Height) : Bool :=
  lifetime.start ≤ height && height < lifetime.endHeight

def isActiveExcludingGracePeriod (lifetime : NamespaceLifetime) (height : Height)
    (gracePeriodDuration : BlockDuration) : Except NamespaceError Bool :=
  if lifetime.endHeight - lifetime.start ≤ gracePeriodDuration then
    .error (.invalidArgument "grace period duration cannot be larger than lifetime" [gracePeriodDuration])
  else .ok (lifetime.start ≤ height && height < lifetime.endHeight - gracePeriodDuration)

end NamespaceLifetime

inductive NamespaceAlias where
  | none
  | mosaic (mosaicId : MosaicId)
  | address (address : Address)
  deriving DecidableEq

/-- The path of a child is held as its namespace. -/
structure ChildNamespaceData where
  ns : Namespace
  namespaceAlias : NamespaceAlias
  deriving DecidableEq

/-- The children are listed from the first to the last added. -/
abbrev Children := List (NamespaceId × ChildNamespaceData)

/-- The data of a child is found under its identifier. -/
def Children.find (children : Children) (id : NamespaceId) : Option ChildNamespaceData := children.lookup id

def Children.ids (children : Children) : List NamespaceId := children.map Prod.fst

def Children.setAlias (children : Children) (id : NamespaceId) (namespaceAlias : NamespaceAlias) : Children :=
  children.map fun child => if child.1 = id then (id, { child.2 with namespaceAlias }) else child

/-- The identifier and the children of a root are held by its history. -/
structure RootNamespace where
  ownerAddress : Address
  lifetime : NamespaceLifetime
  namespaceAlias : NamespaceAlias
  deriving DecidableEq

/-- A root extends an active root of its owner and inherits the children. -/
def RootNamespace.canExtend (root previous : RootNamespace) : Bool :=
  root.ownerAddress = previous.ownerAddress && previous.lifetime.isActive root.lifetime.start

/-- These consecutive roots of a history share one map of children. -/
structure RootRun where
  children : Children
  newest : RootNamespace
  older : List RootNamespace
  deriving DecidableEq

namespace RootRun

/-- The roots are listed from the newest to the oldest. -/
def roots (run : RootRun) : List RootNamespace := run.newest :: run.older

def aliasOf (run : RootRun) (rootId id : NamespaceId) : Except NamespaceError NamespaceAlias :=
  if rootId = id then .ok run.newest.namespaceAlias
  else
    match run.children.find id with
    | none => .error (.invalidArgument "unknown child namespace (id) " [id])
    | some child => .ok child.namespaceAlias

/-- The parent is known and lies one level above. -/
def checkParent (run : RootRun) (rootId : NamespaceId) (ns : Namespace) : Except NamespaceError Unit :=
  if rootId = ns.parentId then .ok ()
  else
    match run.children.find ns.parentId with
    | none => .error (.invalidArgument "child namespace has no parent, (child id, parent id)" [ns.id, ns.parentId])
    | some parent =>
      if parent.ns.path.length ≠ ns.path.length - 1 then
        .error (.invalidArgument "child has incorrect path (id)" [ns.id])
      else .ok ()

def add (run : RootRun) (rootId : NamespaceId) (ns : Namespace) : Except NamespaceError RootRun :=
  if (run.children.find ns.id).isSome then
    .error (.invalidArgument "child namespace already exists (id)" [ns.id])
  else
    match run.checkParent rootId ns with
    | .error error => .error error
    | .ok () =>
      if rootId ≠ ns.rootId then
        .error (.invalidArgument "child namespace has incorrect root, (child id, root id)" [ns.id, ns.rootId])
      else .ok { run with children := run.children ++ [(ns.id, ⟨ns, .none⟩)] }

/-- A path below the removed namespace has its identifier at the same level. -/
def hasDescendents (children : Children) (id : NamespaceId) (level : Nat) : Bool :=
  children.any fun child =>
    level < child.2.ns.path.length && child.2.ns.path[level - 1]? = some id

def remove (run : RootRun) (id : NamespaceId) : Except NamespaceError RootRun :=
  match run.children.find id with
  | none => .error (.invalidArgument "cannot remove child namespace (id)" [id])
  | some child =>
    if hasDescendents run.children id child.ns.path.length then
      .error (.invalidArgument "cannot remove child namespace because it has decendents (id)" [id])
    else .ok { run with children := run.children.filter fun other => other.1 ≠ id }

def setAlias (run : RootRun) (rootId id : NamespaceId) (namespaceAlias : NamespaceAlias) : Except NamespaceError RootRun :=
  if rootId = id then .ok { run with newest := { run.newest with namespaceAlias } }
  else if (run.children.find id).isSome then
    .ok { run with children := run.children.setAlias id namespaceAlias }
  else .error (.invalidArgument "namespace (id) being linked is not under (root)" [id, rootId])

/-- The roots that end after the height are kept. -/
def prune (height : Height) (run : RootRun) : Option RootRun :=
  match run.roots.filter fun root => height < root.lifetime.endHeight with
  | [] => none
  | newest :: older => some { run with newest, older }

end RootRun

/-- A history lists its runs from the newest to the oldest. -/
structure RootNamespaceHistory where
  id : NamespaceId
  runs : List RootRun
  deriving DecidableEq

namespace RootNamespaceHistory

/-- A root joins the run of the root before it if it can extend that root. -/
def share (runs : List RootRun) (root : RootNamespace) (children : Children) : List RootRun :=
  match runs with
  | [] => [⟨children, root, []⟩]
  | run :: older =>
    if root.canExtend run.newest then ⟨run.children, root, run.roots⟩ :: older
    else ⟨children, root, []⟩ :: run :: older

/-- Every root is paired with its children. -/
def entries (runs : List RootRun) : List (RootNamespace × Children) :=
  runs.flatMap fun run => run.roots.map fun root => (root, run.children)

/-- The copy constructor decides again which roots share their children. -/
def copy (history : RootNamespaceHistory) : RootNamespaceHistory :=
  ⟨history.id, (entries history.runs).foldr (fun entry runs => share runs entry.1 entry.2) []⟩

def empty (history : RootNamespaceHistory) : Bool := history.runs.isEmpty

/-- The roots are listed from the newest to the oldest. -/
def roots (history : RootNamespaceHistory) : List RootNamespace := history.runs.flatMap RootRun.roots

def historyDepth (history : RootNamespaceHistory) : Nat := history.roots.length

/-- The roots are counted in 32 bits as long as each can be extended by the one after it. -/
def extendedBy (next : RootNamespace) : List RootNamespace → UInt32
  | [] => 0
  | root :: older => if next.canExtend root then extendedBy root older + 1 else 0

def activeOwnerHistoryDepth (history : RootNamespaceHistory) : Nat :=
  match history.roots with
  | [] => 0
  | newest :: older => (extendedBy newest (newest :: older)).toNat

def numActiveRootChildren (history : RootNamespaceHistory) : Nat :=
  match history.runs with
  | [] => 0
  | run :: _ => run.children.length

def numAllHistoricalChildren (history : RootNamespaceHistory) : Nat :=
  ((entries history.runs).map fun entry => entry.2.length).sum

/-- A renewal inherits the children and the alias of the root before it. -/
def pushBack (history : RootNamespaceHistory) (ownerAddress : Address) (lifetime : NamespaceLifetime) : RootNamespaceHistory :=
  let root : RootNamespace := ⟨ownerAddress, lifetime, .none⟩
  match history.runs with
  | [] => { history with runs := [⟨[], root, []⟩] }
  | run :: older =>
    if root.canExtend run.newest then
      { history with runs := ⟨run.children, ⟨run.newest.ownerAddress, lifetime, run.newest.namespaceAlias⟩, run.roots⟩ :: older }
    else { history with runs := ⟨[], root, []⟩ :: run :: older }

def popBack (history : RootNamespaceHistory) : RootNamespaceHistory :=
  match history.runs with
  | [] => history
  | run :: older =>
    match run.older with
    | [] => { history with runs := older }
    | newest :: rest => { history with runs := ⟨run.children, newest, rest⟩ :: older }

/-- The children of removed roots are collected unless a later root has them. -/
def prunedIds (height : Height) (runs : List RootRun) : List NamespaceId :=
  (entries runs).foldr (fun entry ids =>
    if entry.1.lifetime.endHeight ≤ height then entry.2.ids ∪ ids
    else ids.filter fun id => id ∉ entry.2.ids) []

def prune (history : RootNamespaceHistory) (height : Height) : List NamespaceId × RootNamespaceHistory :=
  let pruned : RootNamespaceHistory := { history with runs := history.runs.filterMap (RootRun.prune height) }
  let ids := prunedIds height history.runs
  (if pruned.empty then ids.insert history.id else ids, pruned)

end RootNamespaceHistory

end Catapult.Namespaces
