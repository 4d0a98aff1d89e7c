import Catapult.Construction.Model.ContiguousEntityContainer
import Catapult.Construction.State.AccountState
import Catapult.Library.CountedLoop

/-
This file models how blocks are created from transactions.
-/

namespace Catapult.Model

open ByteStream
open State (Key)

inductive BlockError where
  | outOfBounds
  | nullPointer
  | insufficientSize
  | endless
  deriving DecidableEq

abbrev EntityType := UInt16

def makeEntityType (basicEntityType : UInt16) (facilityCode code : UInt8) : EntityType :=
  (basicEntityType &&& 0x03) <<< 14 ||| (code &&& 0xF).toUInt16 <<< 8 ||| facilityCode.toUInt16

def entityTypeBlockNemesis : EntityType := makeEntityType 2 0x43 0

def entityTypeBlockImportance : EntityType := makeEntityType 2 0x43 2

structure BlockHeader where
  size : UInt32
  verifiableEntityHeaderReserved : UInt32
  signature : Vector UInt8 2420
  signerPublicKey : Key
  entityBodyReserved : UInt32
  version : UInt8
  network : UInt8
  type : EntityType
  height : Height
  timestamp : UInt64
  difficulty : UInt64
  generationHashProof : Vector UInt8 80
  previousBlockHash : Hash256
  transactionsHash : Hash256
  receiptsHash : Hash256
  stateHash : Hash256
  beneficiaryAddress : Address
  feeMultiplier : UInt32

def BlockHeader.zero : BlockHeader where
  size := 0
  verifiableEntityHeaderReserved := 0
  signature := Vector.replicate 2420 0
  signerPublicKey := Vector.replicate 1312 0
  entityBodyReserved := 0
  version := 0
  network := 0
  type := 0
  height := 0
  timestamp := 0
  difficulty := 0
  generationHashProof := Vector.replicate 80 0
  previousBlockHash := zeroHash
  transactionsHash := zeroHash
  receiptsHash := zeroHash
  stateHash := zeroHash
  beneficiaryAddress := Vector.replicate 24 0
  feeMultiplier := 0

def sizeofBlockHeader : UInt32 := 4008

def sizeofImportanceBlockFooter : UInt32 := 52

def sizeofPaddedBlockFooter : UInt32 := 4

def sizeofTransaction : Nat := 3764

def isImportanceBlock (type : EntityType) : Bool := entityTypeBlockNemesis == type || entityTypeBlockImportance == type

def getBlockHeaderSize (type : EntityType) : UInt32 :=
  sizeofBlockHeader + if isImportanceBlock type then sizeofImportanceBlockFooter else sizeofPaddedBlockFooter

/-- The bytes of a transaction begin with its size. -/
structure Transaction where
  size : UInt32
  bytes : List UInt8
  complete : bytes.length = size.toNat
  sized : bytes.take 4 = Codec.word32.write size
  wide : sizeofTransaction ≤ size.toNat

/-- Memory that was not written has no contents. -/
abbrev Memory := List (Option UInt8)

def writeMemory (memory : Memory) (destination : Option Nat) (bytes : List UInt8) : Except BlockError Memory :=
  match destination with
  | none => .error .nullPointer
  | some start =>
    if start + bytes.length ≤ memory.length then
      .ok (memory.take start ++ bytes.map some ++ memory.drop (start + bytes.length))
    else .error .outOfBounds

/-- All transactions but the last one are padded. -/
def copyRound (transactions : List Transaction) (index : UInt32) (state : Memory × Option Nat) : Except BlockError (Memory × Option Nat) :=
  match transactions[index.toNat]? with
  | none => .error .outOfBounds
  | some transaction => do
    let memory ← writeMemory state.1 state.2 transaction.bytes
    let destination := state.2.map (· + transaction.size.toNat)
    if index.toNat < transactions.length - 1 then
      let paddingSize := getPaddingSize transaction.size.toNat 8
      return (← writeMemory memory destination (List.replicate paddingSize 0), destination.map (· + paddingSize))
    else return (memory, destination)

def copyTransactions (memory : Memory) (destination : Option Nat) (transactions : List Transaction) : Except BlockError Memory := do
  return (← CountedLoop.run .endless transactions.length 1 (copyRound transactions) 0 (memory, destination)).1

/-- The sizes are added with 32 bits. -/
def addSize (sizes : UInt32 × UInt32) (transaction : Transaction) : UInt32 × UInt32 :=
  let lastPaddingSize := UInt32.ofNat (getPaddingSize transaction.size.toNat 8)
  (sizes.1 + (transaction.size + lastPaddingSize), lastPaddingSize)

def calculateTotalSize (transactions : List Transaction) : UInt32 :=
  let sizes := transactions.foldl addSize (0, 0)
  sizes.1 - sizes.2

/-- The payload is the memory behind the header and its footer. -/
structure Block where
  header : BlockHeader
  footer : List UInt8
  payload : Memory

def getTransactionPayloadSize (header : BlockHeader) : Nat := (header.size - getBlockHeaderSize header.type).toNat

/-- The pointer to the transactions is an offset in the payload. -/
def transactionsPtr (header : BlockHeader) : Option Nat :=
  if header.size ≤ getBlockHeaderSize header.type ∨ getTransactionPayloadSize header = 0 then none else some 0

/-- The iteration over a null pointer is at its end. -/
def Block.transactions (block : Block) (errorPolicy : EntityContainerErrorPolicy) : Option ContiguousEntityContainer :=
  match transactionsPtr block.header with
  | none => some ⟨[], errorPolicy⟩
  | some start => do
    let buffer ← ((block.payload.drop start).take (getTransactionPayloadSize block.header)).mapM id
    return ⟨buffer, errorPolicy⟩

/-- The memory of a new block is not initialized. -/
def fillBlock (header : BlockHeader) (headerSize : UInt32) (transactions : List Transaction) : Except BlockError Block :=
  if header.size < sizeofBlockHeader then .error .insufficientSize
  else if header.size < headerSize then .error .outOfBounds
  else do
    let memory := List.replicate (header.size.toNat - headerSize.toNat) none
    let payload ← copyTransactions memory (transactionsPtr header) transactions
    return ⟨header, List.replicate (headerSize - sizeofBlockHeader).toNat 0, payload⟩

structure PreviousBlockContext where
  blockHash : Hash256
  generationHash : Hash256
  blockHeight : Height
  timestamp : UInt64

def defaultDifficulty : UInt64 := 100000000000000

/-- The address of the signer is calculated from its public key. -/
def createBlock (publicKeyToAddress : Key → UInt8 → Address) (blockType : EntityType) (context : PreviousBlockContext)
    (networkIdentifier : UInt8) (signerPublicKey : Key) (transactions : List Transaction) : Except BlockError Block :=
  let headerSize := getBlockHeaderSize blockType
  let header : BlockHeader :=
    { BlockHeader.zero with
      size := headerSize + calculateTotalSize transactions
      signerPublicKey := signerPublicKey
      version := 1
      network := networkIdentifier
      type := blockType
      height := context.blockHeight + 1
      difficulty := defaultDifficulty
      previousBlockHash := context.blockHash
      beneficiaryAddress := publicKeyToAddress signerPublicKey networkIdentifier }
  fillBlock header headerSize transactions

def stitchBlock (blockHeader : BlockHeader) (transactions : List Transaction) : Except BlockError Block :=
  let headerSize := getBlockHeaderSize blockHeader.type
  fillBlock { blockHeader with size := headerSize + calculateTotalSize transactions } headerSize transactions

end Catapult.Model
