import Mathlib.Tactic.Common

/-
This file models a database that stores payloads in files of several payloads.
-/

namespace Catapult.Io

inductive FileError where
  | couldNotOpen
  | payloadNotWritten (id : Nat)
  | couldNotRead

/-- The header holds the offset of each payload inside the file; zero marks a payload that was not written. -/
structure BatchFile where
  header : Nat → Nat
  body : List UInt8

def BatchFile.empty : BatchFile := ⟨fun _ => 0, []⟩

/-- The files are found by the identifier of their first payload. -/
structure FileDatabase where
  batchSize : Nat
  nonzero : batchSize ≠ 0
  files : Nat → Option BatchFile

namespace FileDatabase

def create (batchSize : Nat) (nonzero : batchSize ≠ 0) : FileDatabase := ⟨batchSize, nonzero, fun _ => none⟩

/-- A file with one payload has no header. -/
def bypassHeader (database : FileDatabase) : Bool := database.batchSize = 1

def groupId (database : FileDatabase) (id : Nat) : Nat := id / database.batchSize * database.batchSize

def headerIndex (database : FileDatabase) (id : Nat) : Nat := id % database.batchSize

def headerSize (database : FileDatabase) : Nat := database.batchSize * 8

/-- A payload ends where the next one starts or at the end of the file. -/
def bodyEndOffset (database : FileDatabase) (file : BatchFile) (id : Nat) : Nat :=
  let nextOffset := if database.batchSize - 1 ≠ database.headerIndex id then
    file.header (database.headerIndex id + 1) else 0
  if nextOffset = 0 then database.headerSize + file.body.length else nextOffset

def inputStream (database : FileDatabase) (id : Nat) : Except FileError (List UInt8) :=
  match database.files (database.groupId id) with
  | none => .error .couldNotOpen
  | some file =>
    if database.bypassHeader then .ok file.body
    else
      let bodyStartOffset := file.header (database.headerIndex id)
      if bodyStartOffset = 0 then .error (.payloadNotWritten id)
      else .ok ((file.body.drop (bodyStartOffset - database.headerSize)).take
        (database.bodyEndOffset file id - bodyStartOffset))

/-- A payload that has already been written is removed together with all payloads after it. -/
def truncate (database : FileDatabase) (file : BatchFile) (id : Nat) : BatchFile :=
  let bodyStartOffset := file.header (database.headerIndex id)
  if bodyStartOffset = 0 then file
  else
    { header := fun index => if database.headerIndex id ≤ index then 0 else file.header index
      body := file.body.take (bodyStartOffset - database.headerSize) }

/-- The payload is written to the output stream of its identifier. -/
def write (database : FileDatabase) (id : Nat) (payload : List UInt8) : FileDatabase :=
  let groupId := database.groupId id
  if database.bypassHeader then
    { database with files := Function.update database.files groupId (some ⟨fun _ => 0, payload⟩) }
  else
    let file := database.truncate ((database.files groupId).getD .empty) id
    { database with files := Function.update database.files groupId (some {
        header := Function.update file.header (database.headerIndex id) (database.headerSize + file.body.length)
        body := file.body ++ payload }) }

end FileDatabase

end Catapult.Io
