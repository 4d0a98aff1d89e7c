import Catapult.Construction.Namespace.NamespaceCache

/-
This file models the validators and observers of the namespace notifications.
-/

namespace Catapult.Namespaces

/-- A registration with this duration never expires. -/
def eternalArtifactDuration : BlockDuration := 0

structure NamespaceConfiguration where
  minNamespaceDuration : BlockDuration
  maxNamespaceDuration : BlockDuration
  gracePeriodDuration : BlockDuration
  maxNamespaceDepth : UInt8
  maxChildNamespaces : UInt16

inductive AliasAction where
  | unlink
  | link
  deriving DecidableEq

inductive Notification where
  | rootNamespace (owner : Address) (namespaceId : NamespaceId) (duration : BlockDuration)
  | childNamespace (owner : Address) (namespaceId parentId : NamespaceId)
  | namespaceRequired (owner : Address) (namespaceId : NamespaceId)
  | aliasLink (namespaceId : NamespaceId) (aliasAction : AliasAction)
  | aliasedAddress (namespaceId : NamespaceId) (aliasAction : AliasAction) (aliasedData : Address)
  | aliasedMosaicId (namespaceId : NamespaceId) (aliasAction : AliasAction) (aliasedData : MosaicId)
  deriving DecidableEq

inductive Transaction where
  | rootRegistration (signer : Address) (id : NamespaceId) (duration : BlockDuration)
  | childRegistration (signer : Address) (id parentId : NamespaceId)
  | addressAlias (signer : Address) (namespaceId : NamespaceId) (aliasAction : AliasAction) (address : Address)
  | mosaicAlias (signer : Address) (namespaceId : NamespaceId) (aliasAction : AliasAction) (mosaicId : MosaicId)
  deriving DecidableEq

def Transaction.publish : Transaction → List Notification
  | .rootRegistration signer id duration => [.rootNamespace signer id duration]
  | .childRegistration signer id parentId => [.childNamespace signer id parentId]
  | .addressAlias signer namespaceId aliasAction address =>
    [.namespaceRequired signer namespaceId, .aliasLink namespaceId aliasAction, .aliasedAddress namespaceId aliasAction address]
  | .mosaicAlias signer namespaceId aliasAction mosaicId =>
    [.namespaceRequired signer namespaceId, .aliasLink namespaceId aliasAction, .aliasedMosaicId namespaceId aliasAction mosaicId]

/-- A visible namespace is found together with the newest root above it. -/
structure NamespaceEntry where
  ns : Namespace
  root : RootRun

def NamespaceCache.find (cache : NamespaceCache) (id : NamespaceId) : Option NamespaceEntry :=
  match cache.namespaceById.lookup id with
  | none => none
  | some ns =>
    match cache.historyById.lookup ns.rootId with
    | some ⟨_, run :: _⟩ => some ⟨ns, run⟩
    | _ => none

inductive ValidationResult where
  | success
  | failureInvalidDuration
  | failureEternalAfterNemesisBlock
  | failureOwnerConflict
  | failureAlreadyExists
  | failureUnknownParent
  | failureTooDeep
  | failureExpired
  | failureMaxChildrenExceeded
  | failureUnknown
  | failureAliasAlreadyExists
  | failureUnknownAlias
  | failureAliasInconsistentUnlinkType
  | failureAliasInconsistentUnlinkData
  | failureAliasInvalidAddress
  deriving DecidableEq

/-- A validator may throw like the code that it calls. -/
abbrev Validation := Except NamespaceError ValidationResult

def rootNamespaceValidator (config : NamespaceConfiguration) (duration : BlockDuration) : Validation :=
  if duration ≠ eternalArtifactDuration ∧ ¬ (config.minNamespaceDuration ≤ duration ∧ duration ≤ config.maxNamespaceDuration) then
    .ok .failureInvalidDuration
  else .ok .success

def rootNamespaceAvailabilityValidator (cache : NamespaceCache) (height : Height) (owner : Address)
    (id : NamespaceId) (duration : BlockDuration) : Validation :=
  if height ≠ 1 ∧ duration = eternalArtifactDuration then .ok .failureEternalAfterNemesisBlock
  else
    match cache.find id with
    | none => .ok .success
    | some entry =>
      if entry.root.newest.lifetime.endHeight = maxHeight ∨ duration = eternalArtifactDuration then
        .ok .failureInvalidDuration
      else if ¬ entry.root.newest.lifetime.isActive height then .ok .success
      else if entry.root.newest.ownerAddress = owner then .ok .success
      else .ok .failureOwnerConflict

/-- The sum of two heights wraps around. -/
def addOverflows (height : Height) (duration : BlockDuration) : Bool := height + duration < height

def calculateMaxLifetimeEnd (height : Height) (duration : BlockDuration) : Height :=
  if addOverflows height duration then maxHeight else height + duration

def namespaceDurationOverflowValidator (config : NamespaceConfiguration) (cache : NamespaceCache) (height : Height)
    (id : NamespaceId) (duration : BlockDuration) : Validation :=
  if addOverflows height duration then .ok .failureInvalidDuration
  else
    match cache.find id with
    | none => .ok .success
    | some entry =>
      if ¬ entry.root.newest.lifetime.isActive height then .ok .success
      else if addOverflows entry.root.newest.lifetime.endHeight duration then .ok .failureInvalidDuration
      else if calculateMaxLifetimeEnd height (config.maxNamespaceDuration + config.gracePeriodDuration) <
          entry.root.newest.lifetime.endHeight + duration then
        .ok .failureInvalidDuration
      else .ok .success

def childNamespaceAvailabilityValidator (config : NamespaceConfiguration) (cache : NamespaceCache) (height : Height)
    (owner : Address) (id parentId : NamespaceId) : Validation :=
  if (cache.namespaceById.lookup id).isSome then .ok .failureAlreadyExists
  else
    match cache.find parentId with
    | none => .ok .failureUnknownParent
    | some parent =>
      if config.maxNamespaceDepth.toNat = parent.ns.path.length then .ok .failureTooDeep
      else do
        let active ← parent.root.newest.lifetime.isActiveExcludingGracePeriod height cache.gracePeriodDuration
        if ¬ active then .ok .failureExpired
        else if parent.root.newest.ownerAddress ≠ owner then .ok .failureOwnerConflict
        else .ok .success

def rootNamespaceMaxChildrenValidator (config : NamespaceConfiguration) (cache : NamespaceCache)
    (parentId : NamespaceId) : Validation :=
  match cache.find parentId with
  | none => .error (.invalidArgument "unknown namespace" [parentId])
  | some parent =>
    if config.maxChildNamespaces.toNat ≤ parent.root.children.length then .ok .failureMaxChildrenExceeded
    else .ok .success

def requiredNamespaceValidator (cache : NamespaceCache) (height : Height) (owner : Address) (id : NamespaceId) : Validation :=
  match cache.find id with
  | none => .ok .failureUnknown
  | some entry => do
    let active ← entry.root.newest.lifetime.isActiveExcludingGracePeriod height cache.gracePeriodDuration
    if ¬ active then .ok .failureExpired
    else if entry.root.newest.ownerAddress = owner then .ok .success
    else .ok .failureOwnerConflict

def aliasAvailabilityValidator (cache : NamespaceCache) (id : NamespaceId) (aliasAction : AliasAction) : Validation :=
  match cache.find id with
  | none => .ok .failureUnknown
  | some entry => do
    let namespaceAlias ← entry.root.aliasOf entry.ns.rootId id
    if aliasAction = .link ∧ namespaceAlias ≠ .none then .ok .failureAliasAlreadyExists
    else if aliasAction = .unlink ∧ namespaceAlias = .none then .ok .failureUnknownAlias
    else .ok .success

/-- The type and the data of an unlinked alias are those of the link. -/
def unlinkAliasedDataConsistencyValidator (cache : NamespaceCache) (id : NamespaceId) (aliasAction : AliasAction)
    (aliased : NamespaceAlias) : Validation :=
  if aliasAction ≠ .unlink then .ok .success
  else
    match cache.find id with
    | none => .ok .failureUnknown
    | some entry => do
      let namespaceAlias ← entry.root.aliasOf entry.ns.rootId id
      match namespaceAlias, aliased with
      | .address linked, .address unlinked =>
        if linked ≠ unlinked then .ok .failureAliasInconsistentUnlinkData else .ok .success
      | .mosaic linked, .mosaic unlinked =>
        if linked ≠ unlinked then .ok .failureAliasInconsistentUnlinkData else .ok .success
      | _, _ => .ok .failureAliasInconsistentUnlinkType

/-- The accounts are held by another cache. -/
def addressAliasValidator (accountExists : Address → Bool) (address : Address) : Validation :=
  if accountExists address then .ok .success else .ok .failureAliasInvalidAddress

/-- The validators of a notification run in the order of their registration. -/
def validators (config : NamespaceConfiguration) (accountExists : Address → Bool) (cache : NamespaceCache)
    (height : Height) : Notification → List Validation
  | .rootNamespace owner id duration =>
    [rootNamespaceValidator config duration, rootNamespaceAvailabilityValidator cache height owner id duration,
      namespaceDurationOverflowValidator config cache height id duration]
  | .childNamespace owner id parentId =>
    [childNamespaceAvailabilityValidator config cache height owner id parentId,
      rootNamespaceMaxChildrenValidator config cache parentId]
  | .namespaceRequired owner id => [requiredNamespaceValidator cache height owner id]
  | .aliasLink id aliasAction => [aliasAvailabilityValidator cache id aliasAction]
  | .aliasedAddress id aliasAction aliasedData =>
    [unlinkAliasedDataConsistencyValidator cache id aliasAction (.address aliasedData),
      addressAliasValidator accountExists aliasedData]
  | .aliasedMosaicId id aliasAction aliasedData =>
    [unlinkAliasedDataConsistencyValidator cache id aliasAction (.mosaic aliasedData)]

def accepts (config : NamespaceConfiguration) (accountExists : Address → Bool) (cache : NamespaceCache)
    (height : Height) (notification : Notification) : Prop :=
  ∀ validation ∈ validators config accountExists cache height notification, validation = .ok .success

instance (config : NamespaceConfiguration) (accountExists : Address → Bool) (cache : NamespaceCache)
    (height : Height) (notification : Notification) : Decidable (accepts config accountExists cache height notification) :=
  inferInstanceAs (Decidable (∀ _ ∈ _, _))

inductive NotifyMode where
  | commit
  | rollback
  deriving DecidableEq

def isRenewal (root : RootNamespace) (owner : Address) (height : Height) : Bool :=
  root.lifetime.isActive height && root.ownerAddress = owner

def calculateNewLifetime (duration : BlockDuration) (height : Height) (gracePeriodDuration : BlockDuration) :
    Except NamespaceError NamespaceLifetime :=
  let lifetimeEnd := if duration = eternalArtifactDuration then maxHeight else height + duration
  NamespaceLifetime.create height lifetimeEnd gracePeriodDuration

/-- The duration of a renewal adds onto the current expiry. -/
def calculateLifetime (cache : NamespaceCache) (owner : Address) (id : NamespaceId) (duration : BlockDuration)
    (height : Height) : Except NamespaceError NamespaceLifetime := do
  let newLifetime ← calculateNewLifetime duration height cache.gracePeriodDuration
  match cache.find id with
  | none => .ok newLifetime
  | some entry =>
    if isRenewal entry.root.newest owner height then
      let currentLifetime := entry.root.newest.lifetime
      NamespaceLifetime.create currentLifetime.start (currentLifetime.endHeight + duration) 0
    else .ok newLifetime

def shouldLink (aliasAction : AliasAction) (mode : NotifyMode) : Bool :=
  match mode with
  | .commit => aliasAction = .link
  | .rollback => aliasAction = .unlink

def rootNamespaceObserver (cache : NamespaceCache) (mode : NotifyMode) (height : Height) (owner : Address)
    (id : NamespaceId) (duration : BlockDuration) : NamespaceCache.Outcome :=
  match mode with
  | .rollback => cache.remove id
  | .commit =>
    match calculateLifetime cache owner id duration height with
    | .error error => (.error error, cache)
    | .ok lifetime => cache.insertRoot id owner lifetime

def childNamespaceObserver (cache : NamespaceCache) (mode : NotifyMode) (id parentId : NamespaceId) : NamespaceCache.Outcome :=
  match mode with
  | .rollback => cache.remove id
  | .commit =>
    match cache.find parentId with
    | none => (.error (.invalidArgument "unknown namespace" [parentId]), cache)
    | some parent => cache.insertChild (parent.ns.createChild id)

def aliasedObserver (cache : NamespaceCache) (mode : NotifyMode) (id : NamespaceId) (aliasAction : AliasAction)
    (aliased : NamespaceAlias) : NamespaceCache.Outcome :=
  cache.setAlias id (if shouldLink aliasAction mode then aliased else .none)

def observe (cache : NamespaceCache) (mode : NotifyMode) (height : Height) : Notification → NamespaceCache.Outcome
  | .rootNamespace owner id duration => rootNamespaceObserver cache mode height owner id duration
  | .childNamespace _ id parentId => childNamespaceObserver cache mode id parentId
  | .namespaceRequired _ _ => (.ok (), cache)
  | .aliasLink _ _ => (.ok (), cache)
  | .aliasedAddress id aliasAction aliasedData => aliasedObserver cache mode id aliasAction (.address aliasedData)
  | .aliasedMosaicId id aliasAction aliasedData => aliasedObserver cache mode id aliasAction (.mosaic aliasedData)

/-- A notification is rejected by a validator or its observer throws. -/
inductive Failure where
  | rejected (notification : Notification)
  | thrown (error : NamespaceError)

/-- The observer of a notification runs after its validators accepted it. -/
def execute (config : NamespaceConfiguration) (accountExists : Address → Bool) (height : Height)
    (cache : NamespaceCache) (notification : Notification) : Except Failure NamespaceCache :=
  if accepts config accountExists cache height notification then
    match observe cache .commit height notification with
    | (.ok (), next) => .ok next
    | (.error error, _) => .error (.thrown error)
  else .error (.rejected notification)

def rollback (height : Height) (cache : NamespaceCache) (notification : Notification) : Except Failure NamespaceCache :=
  match observe cache .rollback height notification with
  | (.ok (), next) => .ok next
  | (.error error, _) => .error (.thrown error)

def executeAll (config : NamespaceConfiguration) (accountExists : Address → Bool) (height : Height)
    (cache : NamespaceCache) (notifications : List Notification) : Except Failure NamespaceCache :=
  notifications.foldlM (execute config accountExists height) cache

/-- The notifications are undone from the last to the first. -/
def rollbackAll (height : Height) (cache : NamespaceCache) (notifications : List Notification) : Except Failure NamespaceCache :=
  notifications.reverse.foldlM (rollback height) cache

structure Block where
  height : Height
  transactions : List Transaction

def Block.notifications (block : Block) : List Notification := block.transactions.flatMap Transaction.publish

/-- The blocks above the finalized height can be rolled back from the newest to the oldest. -/
structure NamespaceChain where
  cache : NamespaceCache
  finalizedHeight : Height
  blocks : List Block

def NamespaceChain.height (chain : NamespaceChain) : Height :=
  match chain.blocks with
  | [] => chain.finalizedHeight
  | block :: _ => block.height

end Catapult.Namespaces
