import Catapult.Construction.Types
import Catapult.Construction.Io.FileDatabase
import Catapult.Library.ByteStream
import Catapult.Library.SortedMap
import Mathlib.Data.Prod.Lex

/-
This file models how block elements and block statements are written to streams and read from them.
-/

namespace Catapult.Io

open ByteStream

/-- Where the height and the transactions of a block lie in its bytes. -/
structure BlockFormat where
  height : List UInt8 → Nat
  numTransactions : List UInt8 → Nat

/-- An entity starts with its size, which counts a header of a fixed size. -/
structure SizePrefixedEntity (headerSize : Nat) where
  bytes : List UInt8
  sized : ofLittleEndian (bytes.take 4) = bytes.length
  complete : headerSize ≤ bytes.length
  deriving DecidableEq

abbrev Block := SizePrefixedEntity 4

/-- A receipt has a version and a type. -/
abbrev Receipt := SizePrefixedEntity 8

def Receipt.type (receipt : Receipt) : Nat := ofLittleEndian ((receipt.bytes.drop 6).take 2)

structure ReceiptSource where
  primaryId : UInt32
  secondaryId : UInt32
  deriving DecidableEq

namespace ReceiptSource

def key (source : ReceiptSource) : ℕ ×ₗ ℕ := toLex (source.primaryId.toNat, source.secondaryId.toNat)

theorem key_injective : Function.Injective key := by
  intro first second same
  have both := Prod.mk.inj (toLex_inj.mp same)
  cases first
  cases second
  exact congrArg₂ ReceiptSource.mk (UInt32.toNat.inj both.1) (UInt32.toNat.inj both.2)

/-- Sources are compared by their primary identifiers first. -/
instance : LinearOrder ReceiptSource := LinearOrder.lift' key key_injective

def codec : Codec ReceiptSource :=
  (Codec.pair .word32 .word32).via (fun source => (source.primaryId, source.secondaryId)) (fun value => ⟨value.1, value.2⟩) fun _ => rfl

end ReceiptSource

structure ResolutionEntry (V : Type) where
  source : ReceiptSource
  resolvedValue : V
  deriving DecidableEq

def ResolutionEntry.codec {V : Type} (value : Codec V) : Codec (ResolutionEntry V) :=
  (Codec.pair ReceiptSource.codec value).via (fun entry => (entry.source, entry.resolvedValue)) (fun pair => ⟨pair.1, pair.2⟩) fun _ => rfl

abbrev StreamReader := Reader FileError

def readBytes (size : Nat) : StreamReader (List UInt8) := fun bytes =>
  if bytes.length < size then .error .couldNotRead else .ok (bytes.take size, bytes.drop size)

/-- The size of the entity says how many bytes are read. -/
def readEntity (headerSize : Nat) : StreamReader (SizePrefixedEntity headerSize) := fun bytes =>
  let size := ofLittleEndian (bytes.take 4)
  if available : headerSize ≤ size ∧ 4 ≤ size ∧ size ≤ bytes.length then
    .ok (⟨bytes.take size, by
      rw [List.take_take, Nat.min_eq_left available.2.1, List.length_take, Nat.min_eq_left available.2.2], by
      rw [List.length_take, Nat.min_eq_left available.2.2]
      exact available.1⟩, bytes.drop size)
  else .error .couldNotRead

/-- A receipt is inserted before the receipts with greater types. -/
def addReceipt (receipts : List Receipt) (receipt : Receipt) : Except FileError (List Receipt) :=
  .ok (receipts.takeWhile (fun other => other.type ≤ receipt.type) ++ receipt ::
    receipts.dropWhile fun other => other.type ≤ receipt.type)

/-- Sources do not descend, and consecutive resolutions of the same value are collapsed. -/
def addResolution {V : Type} [DecidableEq V] (entries : List (ResolutionEntry V)) (entry : ResolutionEntry V) :
    Except FileError (List (ResolutionEntry V)) :=
  match entries.getLast? with
  | none => .ok [entry]
  | some last =>
    if entry.source < last.source then .error .couldNotRead
    else if entry.resolvedValue = last.resolvedValue then .ok entries
    else .ok (entries ++ [entry])

/-- How the statements of one kind are written, read and filled. -/
structure StatementKind (K E : Type) where
  key : Codec K
  writeItem : E → List UInt8
  readItem : StreamReader E
  addItem : List E → E → Except FileError (List E)

namespace StatementKind

def transaction : StatementKind ReceiptSource Receipt where
  key := ReceiptSource.codec
  writeItem receipt := receipt.bytes
  readItem := readEntity 8
  addItem := addReceipt

def resolution {K V : Type} [DecidableEq V] (key : Codec K) (value : Codec V) : StatementKind K (ResolutionEntry V) where
  key := key
  writeItem := (ResolutionEntry.codec value).write
  readItem := (ResolutionEntry.codec value).take .couldNotRead
  addItem := addResolution

def addressResolution : StatementKind Address (ResolutionEntry Address) := resolution (.array 24) (.array 24)

def mosaicResolution : StatementKind UInt64 (ResolutionEntry MosaicId) := resolution .word64 .word64

variable {K E : Type} [LinearOrder K] (kind : StatementKind K E)

/-- The keys are ascending, and every statement was filled by adding items. -/
structure WellFormed (statements : List (K × List E)) : Prop where
  ascending : SortedMap.Ascending statements
  numStatements : statements.length < 2 ^ 32
  numItems : ∀ statement ∈ statements, statement.2.length < 2 ^ 32
  filled : ∀ statement ∈ statements, ∃ items : List E, items.foldlM kind.addItem [] = .ok statement.2

def writeStatement (entry : K × List E) : List UInt8 :=
  kind.key.write entry.1 ++ Codec.word32.write (UInt32.ofNat entry.2.length) ++ entry.2.flatMap kind.writeItem

def writeStatements (statements : List (K × List E)) : List UInt8 :=
  Codec.word32.write (UInt32.ofNat statements.length) ++ statements.flatMap kind.writeStatement

def readItems : Nat → List E → StreamReader (List E)
  | 0, items => pure items
  | count + 1, items => do
    let item ← kind.readItem
    readItems count (← kind.addItem items item)

def readStatement (statements : List (K × List E)) : StreamReader (List (K × List E)) := do
  let key ← kind.key.take .couldNotRead
  let numItems ← Codec.word32.take .couldNotRead
  let items ← kind.readItems numItems.toNat []
  return SortedMap.insert (key, items) statements

def readAll : Nat → List (K × List E) → StreamReader (List (K × List E))
  | 0, statements => pure statements
  | count + 1, statements => do readAll count (← kind.readStatement statements)

def readStatements : StreamReader (List (K × List E)) := do
  let numStatements ← Codec.word32.take .couldNotRead
  kind.readAll numStatements.toNat []

end StatementKind

/-- The statements of a block are maps from their keys to their items. -/
structure BlockStatement where
  transactionStatements : List (ReceiptSource × List Receipt)
  addressResolutionStatements : List (Address × List (ResolutionEntry Address))
  mosaicResolutionStatements : List (UInt64 × List (ResolutionEntry MosaicId))
  deriving DecidableEq

structure BlockStatement.WellFormed (statement : BlockStatement) : Prop where
  transactionStatements : StatementKind.transaction.WellFormed statement.transactionStatements
  addressResolutionStatements : StatementKind.addressResolution.WellFormed statement.addressResolutionStatements
  mosaicResolutionStatements : StatementKind.mosaicResolution.WellFormed statement.mosaicResolutionStatements

def writeBlockStatement (statement : BlockStatement) : List UInt8 :=
  StatementKind.transaction.writeStatements statement.transactionStatements ++
    StatementKind.addressResolution.writeStatements statement.addressResolutionStatements ++
    StatementKind.mosaicResolution.writeStatements statement.mosaicResolutionStatements

def readBlockStatement : StreamReader BlockStatement := do
  let transactionStatements ← StatementKind.transaction.readStatements
  let addressResolutionStatements ← StatementKind.addressResolution.readStatements
  let mosaicResolutionStatements ← StatementKind.mosaicResolution.readStatements
  return ⟨transactionStatements, addressResolutionStatements, mosaicResolutionStatements⟩

/-- A transaction element holds the entity hash and the merkle component hash of a transaction of the block. -/
structure BlockElement where
  block : Block
  entityHash : Hash256
  generationHash : Hash256
  transactions : List (Hash256 × Hash256)
  subCacheMerkleRoots : List Hash256
  optionalStatement : Option BlockStatement
  deriving DecidableEq

/-- The element has one transaction element for each transaction of its block. -/
structure BlockElement.WellFormed (format : BlockFormat) (element : BlockElement) : Prop where
  transactions : element.transactions.length = format.numTransactions element.block.bytes
  numTransactions : element.transactions.length < 2 ^ 31
  numRoots : element.subCacheMerkleRoots.length < 2 ^ 32
  statement : ∀ statement, element.optionalStatement = some statement → statement.WellFormed

def writeTransactionHashes (transactions : List (Hash256 × Hash256)) : List UInt8 :=
  Codec.word32.write (UInt32.ofNat transactions.length) ++ transactions.flatMap (Codec.pair (.array 32) (.array 32)).write

def writeSubCacheMerkleRoots (roots : List Hash256) : List UInt8 :=
  Codec.word32.write (UInt32.ofNat roots.length) ++ roots.flatMap (Codec.array 32).write

/-- The statement is written elsewhere. -/
def writeBlockElement (element : BlockElement) : List UInt8 :=
  element.block.bytes ++ (Codec.array 32).write element.entityHash ++ (Codec.array 32).write element.generationHash ++
    writeTransactionHashes element.transactions ++ writeSubCacheMerkleRoots element.subCacheMerkleRoots

def readHashes {α : Type} (codec : Codec α) : Nat → StreamReader (List α)
  | 0 => pure []
  | count + 1 => do
    let value ← codec.take .couldNotRead
    let values ← readHashes codec count
    return value :: values

/-- All hashes are read, and each transaction of the block takes the next two. -/
def readTransactionHashes (format : BlockFormat) (block : Block) : StreamReader (List (Hash256 × Hash256)) := do
  let numTransactions ← Codec.word32.take .couldNotRead
  let hashes ← readHashes (Codec.pair (.array 32) (.array 32)) numTransactions.toNat
  return hashes.take (format.numTransactions block.bytes)

def readSubCacheMerkleRoots : StreamReader (List Hash256) := do
  let numHashes ← Codec.word32.take .couldNotRead
  readHashes (Codec.array 32) numHashes.toNat

def readBlockElement (format : BlockFormat) : StreamReader BlockElement := do
  let block ← readEntity 4
  let entityHash ← (Codec.array 32).take .couldNotRead
  let generationHash ← (Codec.array 32).take .couldNotRead
  let transactions ← readTransactionHashes format block
  let subCacheMerkleRoots ← readSubCacheMerkleRoots
  return ⟨block, entityHash, generationHash, transactions, subCacheMerkleRoots, none⟩

end Catapult.Io
