import Catapult.Construction.Crypto.MerkleHashBuilder
import Catapult.Construction.Io.BlockSerializers
import Catapult.Library.CountedLoop

/-
This file models the builder of block statements, which drops the statements of a source again, and the merkle hash of its statement.
-/

namespace Catapult.Model

open ByteStream Crypto Io

/-- An item that cannot be added throws, and a copy of too many items does not end. -/
inductive BuilderError where
  | thrown (error : FileError)
  | outOfRange
  | endless

variable {K E : Type} [LinearOrder K] (kind : StatementKind K E)

omit [LinearOrder K] in
/-- A statement is filled like a statement that is read from a stream. -/
def addItem (items : List E) (item : E) : Except BuilderError (List E) := (kind.addItem items item).mapError .thrown

/-- The first item of a key creates its statement. -/
def addTo (statements : List (K × List E)) (key : K) (item : E) : Except BuilderError (List (K × List E)) :=
  match SortedMap.find key statements with
  | none => do return SortedMap.insert (key, ← addItem kind [] item) statements
  | some statement => do return SortedMap.replace (key, ← addItem kind statement.2 item) statements

omit [LinearOrder K] in
/-- The counter of the loop has 32 bits, and the copy is filled item by item. -/
def copyItems (skip : E → Bool) (items : List E) : Except BuilderError (List E) :=
  CountedLoop.run .endless items.length 1 (fun index copy => match items[index.toNat]? with
    | none => .error .outOfRange
    | some item => if skip item then .ok copy else addItem kind copy item) 0 []

/-- The statements of later sources are skipped. -/
def copyTransactionStatements (maxSourcePrimaryId : UInt32) (source : List (ReceiptSource × List Receipt)) :
    Except BuilderError (List (ReceiptSource × List Receipt)) :=
  source.foldlM (fun destination pair =>
    if maxSourcePrimaryId < pair.1.primaryId then .ok destination
    else do return SortedMap.insert (pair.1, ← copyItems .transaction (fun _ => false) pair.2) destination) []

/-- The entries of later sources are skipped, and a statement without entries is not copied. -/
def copyResolutionStatements {V : Type} (kind : StatementKind K (ResolutionEntry V)) (maxSourcePrimaryId : UInt32)
    (source : List (K × List (ResolutionEntry V))) : Except BuilderError (List (K × List (ResolutionEntry V))) :=
  source.foldlM (fun destination pair => do
    let statement ← copyItems kind (fun entry => maxSourcePrimaryId < entry.source.primaryId) pair.2
    if statement.isEmpty then return destination else return SortedMap.insert (pair.1, statement) destination) []

def deepCopy (maxSourcePrimaryId : UInt32) (statement : BlockStatement) : Except BuilderError BlockStatement := do
  let transactionStatements ← copyTransactionStatements maxSourcePrimaryId statement.transactionStatements
  let addressResolutionStatements ← copyResolutionStatements .addressResolution maxSourcePrimaryId statement.addressResolutionStatements
  let mosaicResolutionStatements ← copyResolutionStatements .mosaicResolution maxSourcePrimaryId statement.mosaicResolutionStatements
  return ⟨transactionStatements, addressResolutionStatements, mosaicResolutionStatements⟩

structure BlockStatementBuilder where
  activeSource : ReceiptSource
  statement : BlockStatement

namespace BlockStatementBuilder

def create : BlockStatementBuilder := ⟨⟨0, 0⟩, ⟨[], [], []⟩⟩

def setSource (builder : BlockStatementBuilder) (source : ReceiptSource) : BlockStatementBuilder := { builder with activeSource := source }

/-- The secondary identifier is reset, not restored. -/
def popSource (builder : BlockStatementBuilder) : Except BuilderError BlockStatementBuilder :=
  if builder.activeSource.primaryId = 0 then .ok builder
  else do
    let source : ReceiptSource := ⟨builder.activeSource.primaryId - 1, 0⟩
    return ⟨source, ← deepCopy source.primaryId builder.statement⟩

def addReceipt (builder : BlockStatementBuilder) (receipt : Receipt) : Except BuilderError BlockStatementBuilder := do
  let statements ← addTo .transaction builder.statement.transactionStatements builder.activeSource receipt
  return { builder with statement := { builder.statement with transactionStatements := statements } }

def addAddressResolution (builder : BlockStatementBuilder) (unresolved resolved : Address) : Except BuilderError BlockStatementBuilder := do
  let statements ← addTo .addressResolution builder.statement.addressResolutionStatements unresolved ⟨builder.activeSource, resolved⟩
  return { builder with statement := { builder.statement with addressResolutionStatements := statements } }

def addMosaicResolution (builder : BlockStatementBuilder) (unresolved : UInt64) (resolved : MosaicId) :
    Except BuilderError BlockStatementBuilder := do
  let statements ← addTo .mosaicResolution builder.statement.mosaicResolutionStatements unresolved ⟨builder.activeSource, resolved⟩
  return { builder with statement := { builder.statement with mosaicResolutionStatements := statements } }

end BlockStatementBuilder

variable [Sha3]

omit [LinearOrder K] in
/-- A statement is hashed behind its version and its type. -/
def statementHash (type : UInt16) (key : List UInt8) (items : List UInt8) : Hash256 :=
  Sha3.sha3_256 (Codec.word16.write 1 ++ Codec.word16.write type ++ key ++ items)

/-- The sizes of the receipts are not hashed. -/
def transactionStatementHash (statement : ReceiptSource × List Receipt) : Hash256 :=
  statementHash 0xE143 (ReceiptSource.codec.write statement.1) (statement.2.flatMap fun receipt => receipt.bytes.drop 4)

def addressResolutionStatementHash (statement : Address × List (ResolutionEntry Address)) : Hash256 :=
  statementHash 0xF143 (StatementKind.addressResolution.key.write statement.1) (statement.2.flatMap StatementKind.addressResolution.writeItem)

def mosaicResolutionStatementHash (statement : UInt64 × List (ResolutionEntry MosaicId)) : Hash256 :=
  statementHash 0xF243 (StatementKind.mosaicResolution.key.write statement.1) (statement.2.flatMap StatementKind.mosaicResolution.writeItem)

def addAll {T : Type} (hash : T → Hash256) (builder : MerkleHashBuilder) (statements : List T) : MerkleHashBuilder :=
  statements.foldl (fun builder statement => builder.update (hash statement)) builder

/-- Every loop of the merkle hash builder ends after the limit at the latest. -/
def calculateMerkleHash (limit : Nat) (statement : BlockStatement) : Option Hash256 :=
  let builder := addAll transactionStatementHash .create statement.transactionStatements
  let builder := addAll addressResolutionStatementHash builder statement.addressResolutionStatements
  let builder := addAll mosaicResolutionStatementHash builder statement.mosaicResolutionStatements
  builder.finalHash limit

end Catapult.Model
