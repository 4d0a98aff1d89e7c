import Catapult.Construction.Finalization.FinalizationMessage
import Catapult.Construction.Io.FileDatabase

/-
This file models the storage of finalization proofs in files.
-/

namespace Catapult.Finalization

open Io

/-- The bytes of a number start with the least significant one. -/
def fromBytes : List UInt8 → Nat
  | [] => 0
  | byte :: bytes => byte.toNat + 256 * fromBytes bytes

/-- A proof starts with its size, version, round, height and hash. -/
structure FinalizationProofBuffer where
  bytes : List UInt8
  sized : fromBytes (bytes.take 4) = bytes.length
  complete : 56 ≤ bytes.length

namespace FinalizationProofBuffer

def round (proof : FinalizationProofBuffer) : FinalizationRound :=
  ⟨UInt32.ofNat (fromBytes ((proof.bytes.drop 8).take 4)), UInt32.ofNat (fromBytes ((proof.bytes.drop 12).take 4))⟩

def height (proof : FinalizationProofBuffer) : Height := UInt64.ofNat (fromBytes ((proof.bytes.drop 16).take 8))

def hash (proof : FinalizationProofBuffer) : Hash256 :=
  ⟨((proof.bytes.drop 24).take 32).toArray, by
    have complete := proof.complete
    rw [List.size_toArray, List.length_take, List.length_drop]
    omega⟩

end FinalizationProofBuffer

inductive ProofStorageError where
  | loadEpochZero
  | loadEpoch (epoch currentEpoch : FinalizationEpoch)
  | loadHeightZero
  | loadHeight (height currentHeight : Height)
  | saveRound (round currentRound : FinalizationRound)
  | saveHeight (height currentHeight : Height)
  | divisionByZero
  | file (error : FileError)

structure FileProofStorage where
  database : FileDatabase
  indexFile : Option FinalizationStatistics

/-- The size of a proof says how many bytes are read. -/
def readFinalizationProof (payload : List UInt8) : Except ProofStorageError FinalizationProofBuffer :=
  let size := fromBytes (payload.take 4)
  if available : 56 ≤ size ∧ size ≤ payload.length then
    .ok ⟨payload.take size, by
      rw [List.take_take, Nat.min_eq_left (by omega), List.length_take]
      omega, by
      rw [List.length_take]
      omega⟩
  else .error (.file .couldNotRead)

namespace FileProofStorage

def create (database : FileDatabase) : FileProofStorage := ⟨database, none⟩

def statistics (storage : FileProofStorage) : FinalizationStatistics := storage.indexFile.getD .empty

def loadProof (storage : FileProofStorage) (epoch : FinalizationEpoch) : Except ProofStorageError FinalizationProofBuffer :=
  if epoch = 0 then .error .loadEpochZero
  else
    let currentEpoch := storage.statistics.round.epoch
    if currentEpoch < epoch then .error (.loadEpoch epoch currentEpoch)
    else
      match storage.database.inputStream epoch.toNat with
      | .error error => .error (.file error)
      | .ok payload => readFinalizationProof payload

/-- The height of the second epoch is taken for the voting set grouping. -/
def loadClosestProof (storage : FileProofStorage) (height : Height) : Except ProofStorageError FinalizationProofBuffer :=
  if storage.statistics.round.epoch < 2 then storage.loadProof 1
  else do
    let proof ← storage.loadProof 2
    let votingSetGrouping := proof.height
    if votingSetGrouping = 0 then .error .divisionByZero
    else storage.loadProof (height / votingSetGrouping + 1).toUInt32

/-- No proof is returned if the closest one has another height. -/
def loadProofAtHeight (storage : FileProofStorage) (height : Height) :
    Except ProofStorageError (Option FinalizationProofBuffer) :=
  if height = 0 then .error .loadHeightZero
  else
    let currentHeight := storage.statistics.height
    if currentHeight < height then .error (.loadHeight height currentHeight)
    else do
      let proof ← storage.loadClosestProof height
      return if proof.height ≠ height then none else some proof

def saveProof (storage : FileProofStorage) (proof : FinalizationProofBuffer) : Except ProofStorageError FileProofStorage :=
  let currentStatistics := storage.statistics
  if ¬ currentStatistics.round ≤ proof.round || currentStatistics.round.epoch + 1 < proof.round.epoch then
    .error (.saveRound proof.round currentStatistics.round)
  else if proof.height < currentStatistics.height then
    .error (.saveHeight proof.height currentStatistics.height)
  else
    .ok {
      database := storage.database.write proof.round.epoch.toNat proof.bytes
      indexFile := some ⟨proof.round, proof.height, proof.hash⟩ }

end FileProofStorage

end Catapult.Finalization
