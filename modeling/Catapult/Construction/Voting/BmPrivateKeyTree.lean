import Catapult.Construction.Finalization.FinalizationMessage

/-
This file models the voting keys of a tree in memory and in its storage, and the sequence of such trees.
-/

namespace Catapult.Voting

open Finalization

/-- A private key for votes holds 32 bytes. -/
abbrev VotingPrivateKey := Vector UInt8 32

def zeroPrivateKey : VotingPrivateKey := Vector.replicate 32 0

/-- The curve signatures come from the linked crypto library and are assumed correct. -/
class VotingSigner extends VotingVerifier where
  extractPublicKey : VotingPrivateKey → VotingKey
  sign : VotingPrivateKey → VotingKey → List UInt8 → VotingSignature
  verify_sign : ∀ privateKey data,
    verify (extractPublicKey privateKey) data (sign privateKey (extractPublicKey privateKey) data) = true

structure VotingKeyPair where
  privateKey : VotingPrivateKey
  publicKey : VotingKey

def VotingKeyPair.fromPrivate [VotingSigner] (privateKey : VotingPrivateKey) : VotingKeyPair :=
  ⟨privateKey, VotingSigner.extractPublicKey privateKey⟩

/-- A key identifier is a 64 bit value, and the highest value stands for no identifier. -/
def invalidId : Nat := 2 ^ 64 - 1

/-- The invalid identifier is below all others. -/
def isIdLessThan (lhs rhs : Nat) : Bool :=
  if lhs = rhs || rhs = invalidId then false else lhs = invalidId || lhs < rhs

structure BmOptions where
  startKeyIdentifier : Nat
  endKeyIdentifier : Nat
  ordered : startKeyIdentifier ≤ endKeyIdentifier
  valid : endKeyIdentifier < invalidId

/-- A private key that the root key has signed, as it is stored. -/
structure StoredKey where
  privateKey : VotingPrivateKey
  signature : VotingSignature

/-- The keys are stored from the last identifier to the first, and fewer than 2^32 of them can be counted. -/
structure KeyTreeStorage where
  options : BmOptions
  lastKeyIdentifier : Nat
  lastWipeKeyIdentifier : Nat
  parentPublicKey : VotingKey
  entries : List StoredKey
  full : entries.length = options.endKeyIdentifier - options.startKeyIdentifier + 1

structure SignedPrivateKey where
  keyPair : VotingKeyPair
  signature : VotingSignature

structure Level where
  parentPublicKey : VotingKey
  startIdentifier : Nat
  endIdentifier : Nat
  levelSignedPrivateKeys : List SignedPrivateKey

namespace Level

def fromStream [VotingSigner] (storage : KeyTreeStorage) : Level where
  parentPublicKey := storage.parentPublicKey
  startIdentifier := storage.options.startKeyIdentifier
  endIdentifier := storage.options.endKeyIdentifier
  levelSignedPrivateKeys := storage.entries.map fun entry => ⟨.fromPrivate entry.privateKey, entry.signature⟩

/-- An index outside the level has no defined behavior. -/
def keyAt (level : Level) (identifier : Nat) : Option SignedPrivateKey :=
  level.levelSignedPrivateKeys[level.endIdentifier - identifier]?

/-- A key pair that was moved away keeps its public key and a zeroed private key. -/
def detachKeyPair (key : SignedPrivateKey) : SignedPrivateKey :=
  { key with keyPair := { key.keyPair with privateKey := zeroPrivateKey } }

def wipe (level : Level) (identifier : Nat) : Level :=
  { level with
    levelSignedPrivateKeys :=
      (List.range' level.startIdentifier (identifier + 1 - level.startIdentifier)).foldl
        (fun keys current => keys.modify (level.endIdentifier - current) detachKeyPair)
        level.levelSignedPrivateKeys }

end Level

def wipeSignedPrivateKey (entry : StoredKey) : StoredKey := { entry with privateKey := zeroPrivateKey }

def KeyTreeStorage.wipeIndex (storage : KeyTreeStorage) (index : Nat) : KeyTreeStorage :=
  { storage with
    entries := storage.entries.modify index wipeSignedPrivateKey
    full := by rw [List.length_modify, storage.full] }

inductive KeyError where
  | invalidArgument (message : String) (keyIdentifier : Nat)
  | overlappingTree (previousEnd newStart : Nat)
  | indexOutOfRange

/-- A tree in memory with its storage. -/
structure BmPrivateKeyTree where
  options : BmOptions
  lastKeyIdentifier : Nat
  lastWipeKeyIdentifier : Nat
  level : Level
  storage : KeyTreeStorage

namespace BmPrivateKeyTree

def fromStream [VotingSigner] (storage : KeyTreeStorage) : BmPrivateKeyTree where
  options := storage.options
  lastKeyIdentifier := storage.lastKeyIdentifier
  lastWipeKeyIdentifier := storage.lastWipeKeyIdentifier
  level := .fromStream storage
  storage := storage

def check (options : BmOptions) (keyIdentifier referenceKeyIdentifier : Nat) : Bool :=
  if isIdLessThan keyIdentifier referenceKeyIdentifier then false
  else if isIdLessThan keyIdentifier options.startKeyIdentifier ||
      !(isIdLessThan keyIdentifier options.endKeyIdentifier || keyIdentifier = options.endKeyIdentifier) then false
  else true

def canSign (tree : BmPrivateKeyTree) (keyIdentifier : Nat) : Bool :=
  check tree.options keyIdentifier tree.lastKeyIdentifier

/-- The last used identifier is saved. -/
def sign [VotingSigner] (tree : BmPrivateKeyTree) (keyIdentifier : Nat) (data : List UInt8) :
    Except KeyError (BmPrivateKeyTree × BmTreeSignature) :=
  if !tree.canSign keyIdentifier then
    .error (.invalidArgument "sign called with invalid key identifier" keyIdentifier)
  else
    match tree.level.keyAt keyIdentifier with
    | none => .error .indexOutOfRange
    | some key =>
      let msgSignature := VotingSigner.sign key.keyPair.privateKey key.keyPair.publicKey data
      .ok ({ tree with
        lastKeyIdentifier := keyIdentifier
        storage := { tree.storage with lastKeyIdentifier := keyIdentifier } },
        ⟨⟨tree.level.parentPublicKey, key.signature⟩, ⟨key.keyPair.publicKey, msgSignature⟩⟩)

/-- The keys below the identifier are wiped in the storage, then in memory, then the key itself in the storage. -/
def wipeKey (tree : BmPrivateKeyTree) (identifier : Nat) : BmPrivateKeyTree :=
  let index := tree.level.endIdentifier - identifier
  let size := tree.level.levelSignedPrivateKeys.length
  let below := (List.range' (index + 1) (size - (index + 1))).foldl KeyTreeStorage.wipeIndex tree.storage
  { tree with
    level := tree.level.wipe identifier
    storage := below.wipeIndex index }

/-- The last wiped identifier is not saved. -/
def wipe (tree : BmPrivateKeyTree) (keyIdentifier : Nat) : Except KeyError BmPrivateKeyTree :=
  if !check tree.options keyIdentifier tree.lastWipeKeyIdentifier then
    .error (.invalidArgument "wipe called with invalid key identifier" keyIdentifier)
  else
    let startWipeKeyId :=
      if tree.lastWipeKeyIdentifier = invalidId then tree.options.startKeyIdentifier
      else tree.lastWipeKeyIdentifier + 1
    let wiped := (List.range' startWipeKeyId (keyIdentifier + 1 - startWipeKeyId)).foldl wipeKey tree
    .ok { wiped with lastWipeKeyIdentifier := keyIdentifier }

end BmPrivateKeyTree

/-- The storages of the trees that were left, the tree in use and the storages that the factory loads next. -/
structure AggregateBmPrivateKeyTree where
  passed : List KeyTreeStorage
  tree : Option BmPrivateKeyTree
  remaining : List KeyTreeStorage

namespace AggregateBmPrivateKeyTree

def create [VotingSigner] : List KeyTreeStorage → AggregateBmPrivateKeyTree
  | [] => ⟨[], none, []⟩
  | storage :: storages => ⟨[], some (.fromStream storage), storages⟩

def storages (aggregate : AggregateBmPrivateKeyTree) : List KeyTreeStorage :=
  aggregate.passed ++ (aggregate.tree.map BmPrivateKeyTree.storage).toList ++ aggregate.remaining

/-- Trees that end before the identifier are wiped and left. -/
def advance [VotingSigner] (keyIdentifier : Nat) (passed : List KeyTreeStorage)
    (tree : BmPrivateKeyTree) : List KeyTreeStorage → AggregateBmPrivateKeyTree × Except KeyError Unit
  | [] =>
    if isIdLessThan tree.options.endKeyIdentifier keyIdentifier then
      match tree.wipe tree.options.endKeyIdentifier with
      | .error error => (⟨passed, some tree, []⟩, .error error)
      | .ok wiped => (⟨passed ++ [wiped.storage], none, []⟩, .ok ())
    else (⟨passed, some tree, []⟩, .ok ())
  | storage :: storages =>
    if isIdLessThan tree.options.endKeyIdentifier keyIdentifier then
      match tree.wipe tree.options.endKeyIdentifier with
      | .error error => (⟨passed, some tree, storage :: storages⟩, .error error)
      | .ok wiped =>
        let next := BmPrivateKeyTree.fromStream storage
        if isIdLessThan tree.options.endKeyIdentifier next.options.startKeyIdentifier then
          advance keyIdentifier (passed ++ [wiped.storage]) next storages
        else (⟨passed ++ [wiped.storage], some next, storages⟩,
          .error (.overlappingTree tree.options.endKeyIdentifier next.options.startKeyIdentifier))
    else (⟨passed, some tree, storage :: storages⟩, .ok ())

def canSign [VotingSigner] (aggregate : AggregateBmPrivateKeyTree) (keyIdentifier : Nat) :
    AggregateBmPrivateKeyTree × Except KeyError Bool :=
  match aggregate.tree with
  | none => (aggregate, .ok false)
  | some tree =>
    match advance keyIdentifier aggregate.passed tree aggregate.remaining with
    | (next, .error error) => (next, .error error)
    | (next, .ok ()) => (next, .ok (next.tree.any fun tree => tree.canSign keyIdentifier))

/-- All keys below the identifier are wiped after it was used. -/
def sign [VotingSigner] (aggregate : AggregateBmPrivateKeyTree) (keyIdentifier : Nat)
    (data : List UInt8) : AggregateBmPrivateKeyTree × Except KeyError BmTreeSignature :=
  match aggregate.canSign keyIdentifier with
  | (next, .error error) => (next, .error error)
  | (next, .ok false) => (next, .error (.invalidArgument "sign called with invalid key identifier" keyIdentifier))
  | (next, .ok true) =>
    match next.tree with
    | none => (next, .error .indexOutOfRange)
    | some tree =>
      match tree.sign keyIdentifier data with
      | .error error => (next, .error error)
      | .ok (signed, signature) =>
        if keyIdentifier = signed.options.startKeyIdentifier then
          ({ next with tree := some signed }, .ok signature)
        else
          match signed.wipe (keyIdentifier - 1) with
          | .error error => ({ next with tree := some signed }, .error error)
          | .ok wiped => ({ next with tree := some wiped }, .ok signature)

/-- A restarted process loads the same storages in the same order. -/
def restart [VotingSigner] (aggregate : AggregateBmPrivateKeyTree) : AggregateBmPrivateKeyTree :=
  create aggregate.storages

end AggregateBmPrivateKeyTree

inductive KeyAction where
  | canSign (keyIdentifier : Nat)
  | sign (keyIdentifier : Nat) (data : List UInt8)
  | restart

def step [VotingSigner] (aggregate : AggregateBmPrivateKeyTree) : KeyAction → AggregateBmPrivateKeyTree
  | .canSign keyIdentifier => (aggregate.canSign keyIdentifier).1
  | .sign keyIdentifier data => (aggregate.sign keyIdentifier data).1
  | .restart => aggregate.restart

def run [VotingSigner] (aggregate : AggregateBmPrivateKeyTree) (actions : List KeyAction) : AggregateBmPrivateKeyTree :=
  actions.foldl step aggregate

/-- The random keys of a new tree, from the last identifier to the first. -/
structure TreeSeed where
  options : BmOptions
  rootPrivateKey : VotingPrivateKey
  privateKeys : List VotingPrivateKey
  full : privateKeys.length = options.endKeyIdentifier - options.startKeyIdentifier + 1

/-- A new tree has signed the public key of every identifier with its root key. -/
def TreeSeed.create [VotingSigner] (seed : TreeSeed) : KeyTreeStorage where
  options := seed.options
  lastKeyIdentifier := invalidId
  lastWipeKeyIdentifier := invalidId
  parentPublicKey := VotingSigner.extractPublicKey seed.rootPrivateKey
  entries := seed.privateKeys.mapIdx fun index privateKey =>
    ⟨privateKey, VotingSigner.sign seed.rootPrivateKey (VotingSigner.extractPublicKey seed.rootPrivateKey)
      ((VotingSigner.extractPublicKey privateKey).toList ++ toBytes 8 (seed.options.endKeyIdentifier - index))⟩
  full := by rw [List.length_mapIdx, seed.full]

end Catapult.Voting
