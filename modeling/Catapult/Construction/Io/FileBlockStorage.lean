import Catapult.Construction.Io.BlockSerializers

/-
This file models the storage of blocks in files and the modifier that stages blocks before they are moved to the storage.
-/

namespace Catapult.Io

inductive StorageError where
  | saveHeight (height currentHeight : Nat)
  | loadHeight (description : String) (height chainHeight : Nat)
  | additionalData (height : Nat)
  | invalidHeight (height : Nat)
  | hashIndexDisabled
  | invalidSize (size : Nat)
  | seekOutside
  | file (error : FileError)

namespace FileDatabase

variable (database : FileDatabase) (id : Nat)

/-- A file with one payload is there if the payload is. -/
def contains : Bool :=
  match database.files (database.groupId id) with
  | none => false
  | some file => database.bypassHeader || file.header (database.headerIndex id) ≠ 0

/-- The whole payload is read; a payload cannot end before it starts or after the end of its file. -/
def readAll : Except FileError (List UInt8) := do
  let payload ← database.inputStream id
  match database.files (database.groupId id) with
  | none => .error .couldNotOpen
  | some file =>
    let bodyStartOffset := file.header (database.headerIndex id)
    let bodyEndOffset := database.bodyEndOffset file id
    if database.bypassHeader || bodyStartOffset ≤ bodyEndOffset && bodyEndOffset ≤ database.headerSize + file.body.length then
      .ok payload
    else .error .couldNotRead

end FileDatabase

def filesPerStorageDirectory : Nat := 10000

/-- Each directory has one file with the hashes of its heights. -/
structure HashFile where
  files : Nat → List Hash256

namespace HashFile

variable (hashFile : HashFile)

/-- The first file has at least two hashes. -/
def openStorageFile (key : Nat) : Except StorageError (List Hash256) :=
  let values := hashFile.files (key / filesPerStorageDirectory)
  if key < filesPerStorageDirectory ∧ values.length < 2 then .error (.invalidSize values.length)
  else if values.length < key % filesPerStorageDirectory then .error .seekOutside
  else .ok values

def save (key : Nat) (value : Hash256) : Except StorageError HashFile := do
  let values ← hashFile.openStorageFile key
  let index := key % filesPerStorageDirectory
  return ⟨Function.update hashFile.files (key / filesPerStorageDirectory) (values.take index ++ value :: values.drop (index + 1))⟩

/-- The hashes are read file by file; a read past the end of a file fails. -/
def loadRange : Nat → Nat → Nat → Except StorageError (List Hash256)
  | 0, _, _ => .ok []
  | fuel + 1, key, numValues =>
    if numValues = 0 then .ok []
    else do
      let values ← hashFile.openStorageFile key
      let index := key % filesPerStorageDirectory
      let count := min numValues (filesPerStorageDirectory - index)
      if values.length < index + count then .error (.file .couldNotRead)
      else do
        let rest ← loadRange fuel (key + count) (numValues - count)
        return (values.drop index).take count ++ rest

/-- Every file yields a hash, so that there are at most as many files as hashes. -/
def loadRangeFrom (key numValues : Nat) : Except StorageError (List Hash256) := hashFile.loadRange numValues key numValues

end HashFile

inductive FileBlockStorageMode where
  | hashIndex
  | none
  deriving DecidableEq

structure FileBlockStorage where
  mode : FileBlockStorageMode
  blockDatabase : FileDatabase
  statementDatabase : FileDatabase
  hashFile : HashFile
  indexFile : Option Nat

namespace FileBlockStorage

variable (format : BlockFormat) (storage : FileBlockStorage)

def chainHeight : Nat := storage.indexFile.getD 0

def loadHashesFrom (height maxHashes : Nat) : Except StorageError (List Hash256) :=
  if storage.mode ≠ .hashIndex then .error .hashIndexDisabled
  else if height = 0 ∨ storage.chainHeight < height then .ok []
  else storage.hashFile.loadRangeFrom height (min maxHashes (storage.chainHeight - height + 1))

/-- The statement of a block without one is left as it is. -/
def saveBlock (element : BlockElement) : Except StorageError FileBlockStorage := do
  let height := format.height element.block.bytes
  if height ≠ storage.chainHeight + 1 then .error (.saveHeight height storage.chainHeight)
  else
    let blockDatabase := storage.blockDatabase.write height (writeBlockElement element)
    let statementDatabase := match element.optionalStatement with
      | none => storage.statementDatabase
      | some statement => storage.statementDatabase.write height (writeBlockStatement statement)
    let hashFile ← if storage.mode = .hashIndex then storage.hashFile.save height element.entityHash else .ok storage.hashFile
    return ⟨storage.mode, blockDatabase, statementDatabase, hashFile, some height⟩

/-- Only the index is changed. -/
def dropBlocksAfter (height : Nat) : FileBlockStorage := { storage with indexFile := some height }

def requireHeight (height : Nat) (description : String) : Except StorageError Unit :=
  if height ≤ storage.chainHeight then .ok () else .error (.loadHeight description height storage.chainHeight)

/-- The rest of the stream is ignored. -/
def loadBlock (height : Nat) : Except StorageError Block := do
  storage.requireHeight height "block"
  let stream ← (storage.blockDatabase.inputStream height).mapError .file
  let (block, _) ← (readEntity 4 stream).mapError .file
  return block

def loadBlockElement (height : Nat) : Except StorageError BlockElement := do
  storage.requireHeight height "block element"
  let stream ← (storage.blockDatabase.inputStream height).mapError .file
  let (element, rest) ← (readBlockElement format stream).mapError .file
  if rest = [] then return element else .error (.additionalData height)

/-- There are no data if the database does not contain the height. -/
def loadBlockStatementData (height : Nat) : Except StorageError (Option (List UInt8)) := do
  storage.requireHeight height "block statement data"
  if storage.statementDatabase.contains height then
    return some (← (storage.statementDatabase.readAll height).mapError .file)
  else return none

/-- All files are removed. -/
def purge : FileBlockStorage :=
  { storage with
    blockDatabase := .create storage.blockDatabase.batchSize storage.blockDatabase.nonzero
    statementDatabase := .create storage.statementDatabase.batchSize storage.statementDatabase.nonzero
    hashFile := ⟨fun _ => []⟩
    indexFile := none }

end FileBlockStorage

/-- One block is moved together with its statement; bytes behind the statement are ignored. -/
def moveBlock (format : BlockFormat) (source destination : FileBlockStorage) (height : Nat) : Except StorageError FileBlockStorage := do
  let element ← source.loadBlockElement format height
  match ← source.loadBlockStatementData height with
  | none => destination.saveBlock format element
  | some data => do
    let (statement, _) ← (readBlockStatement data).mapError .file
    destination.saveBlock format { element with optionalStatement := some statement }

/-- The destination is cut before the first block that is moved. -/
def moveBlockFiles (format : BlockFormat) (source destination : FileBlockStorage) (startHeight : Nat) :
    Except StorageError (FileBlockStorage × FileBlockStorage) := do
  if startHeight < 1 then .error (.invalidHeight startHeight)
  else
    let shortened := if startHeight ≤ destination.chainHeight then destination.dropBlocksAfter (startHeight - 1) else destination
    let heights := (List.range (source.chainHeight + 1 - startHeight)).map (startHeight + ·)
    let moved ← heights.foldlM (moveBlock format source) shortened
    return (source.purge, moved)

inductive ModifierCall where
  | saveBlock (element : BlockElement)
  | dropBlocksAfter (height : Nat)

structure BlockStorageModifier where
  storage : FileBlockStorage
  stagingStorage : FileBlockStorage
  saveStartHeight : Nat

namespace BlockStorageModifier

variable (format : BlockFormat)

def create (storage stagingStorage : FileBlockStorage) : BlockStorageModifier :=
  ⟨storage, stagingStorage.dropBlocksAfter storage.chainHeight, storage.chainHeight⟩

def call (modifier : BlockStorageModifier) : ModifierCall → Except StorageError BlockStorageModifier
  | .saveBlock element => do return { modifier with stagingStorage := ← modifier.stagingStorage.saveBlock format element }
  | .dropBlocksAfter height =>
    .ok { modifier with
      stagingStorage := modifier.stagingStorage.dropBlocksAfter height
      saveStartHeight := height }

def commit (modifier : BlockStorageModifier) : Except StorageError (FileBlockStorage × FileBlockStorage) :=
  moveBlockFiles format modifier.stagingStorage modifier.storage (modifier.saveStartHeight + 1)

end BlockStorageModifier

/-- The blocks of a node are kept in the storage, new ones are staged, and the last one is cached. -/
structure BlockStorageCache where
  stagingStorage : FileBlockStorage
  storage : FileBlockStorage
  cachedData : Option BlockElement

inductive StorageAction where
  | saveBlock (element : BlockElement)
  | dropBlocksAfter (height : Nat)
  | commit (calls : List ModifierCall)

namespace BlockStorageCache

/-- The first hash file is seeded with two hashes. -/
def create (batchSize : Nat) (nonzero : batchSize ≠ 0) : BlockStorageCache where
  stagingStorage := ⟨.none, .create batchSize nonzero, .create batchSize nonzero, ⟨fun _ => []⟩, none⟩
  storage := ⟨.hashIndex, .create batchSize nonzero, .create batchSize nonzero,
    ⟨fun directory => if directory = 0 then [zeroHash, zeroHash] else []⟩, none⟩
  cachedData := none

def step (format : BlockFormat) (cache : BlockStorageCache) : StorageAction → Except StorageError BlockStorageCache
  | .saveBlock element => do return { cache with storage := ← cache.storage.saveBlock format element }
  | .dropBlocksAfter height => .ok { cache with storage := cache.storage.dropBlocksAfter height }
  | .commit calls => do
    let modifier ← calls.foldlM (BlockStorageModifier.call format) (.create cache.storage cache.stagingStorage)
    let (stagingStorage, storage) ← modifier.commit format
    if 0 < storage.chainHeight then
      return ⟨stagingStorage, storage, some (← storage.loadBlockElement format storage.chainHeight)⟩
    else return ⟨stagingStorage, storage, none⟩

end BlockStorageCache

end Catapult.Io
