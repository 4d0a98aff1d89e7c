import Catapult.Library.CountedLoop
import Catapult.Library.ListBlocks

/-
This file models the Base32 encoding.
-/

namespace Catapult.Utils

open ListBlocks

def allowedChars : List Char :=
  ['A', 'B', 'C', 'D', 'E', 'F', 'G', 'H', 'I', 'J', 'K', 'L', 'M', 'N', 'O', 'P', 'Q', 'R', 'S', 'T', 'U', 'V', 'W', 'X', 'Y', 'Z',
    '2', '3', '4', '5', '6', '7']

def allowedChar (index : UInt8) : Char := allowedChars.getD index.toNat (Char.ofNat 0)

def tryDecodeChar (c : Char) : Option UInt8 :=
  if 'A' ≤ c ∧ c ≤ 'Z' then some (UInt8.ofNat (c.toNat - 'A'.toNat))
  else if '2' ≤ c ∧ c ≤ '7' then some (UInt8.ofNat (c.toNat - '2'.toNat + 26))
  else none

/-- Five bytes are divided into eight groups of five bits. -/
def splitBytes (data : Vector UInt8 5) : Vector UInt8 8 :=
  #v[data[0] >>> 3, (data[0] &&& 0x07) <<< 2 ||| data[1] >>> 6, (data[1] &&& 0x3E) >>> 1,
    (data[1] &&& 0x01) <<< 4 ||| data[2] >>> 4,
    (data[2] &&& 0x0F) <<< 1 ||| data[3] >>> 7,
    (data[3] &&& 0x7F) >>> 2,
    (data[3] &&& 0x03) <<< 3 ||| data[4] >>> 5,
    data[4] &&& 0x1F]

def encodeBlock (data : Vector UInt8 5) : Vector Char 8 := (splitBytes data).map allowedChar

/-- The groups of five bits are packed into bytes. -/
def packGroups (bytes : Vector UInt8 8) : Vector UInt8 5 :=
  #v[bytes[0] <<< 3 ||| bytes[1] >>> 2, (bytes[1] &&& 0x03) <<< 6 ||| bytes[2] <<< 1 ||| bytes[3] >>> 4,
    (bytes[3] &&& 0x0F) <<< 4 ||| bytes[4] >>> 1,
    (bytes[4] &&& 0x01) <<< 7 ||| bytes[5] <<< 2 ||| bytes[6] >>> 3,
    (bytes[6] &&& 0x07) <<< 5 ||| bytes[7]]

/-- All characters of a block are decoded first. -/
def tryDecodeBlock (encodedData : Vector Char 8) : Option (Vector UInt8 5) :=
  if encodedData.all fun c => (tryDecodeChar c).isSome then some (packGroups (encodedData.map fun c => (tryDecodeChar c).getD 0)) else none

def decodedBlockSize : UInt32 := 5

def encodedBlockSize : UInt32 := 8

def getEncodedDataSize (decodedSize : Nat) : Nat := decodedSize / 5 * 8

def getDecodedDataSize (encodedSize : Nat) : Nat := encodedSize / 8 * 5

/-- A loop over too many blocks does not end. -/
inductive EncodeError where
  | outputBufferTooSmall
  | invalidSize
  | endless
  deriving DecidableEq

inductive DecodeError where
  | illegalCharacter
  | outputBufferTooSmall
  | invalidSize
  | endless
  deriving DecidableEq

/-- The positions of a block are calculated with 32 bits. -/
def encodeRound (data : List UInt8) (index : UInt32) (encodedData : List Char) : Except EncodeError (List Char) :=
  .ok (writeBlock encodedData (index * encodedBlockSize).toNat (encodeBlock (readBlock 5 0 data (index * decodedBlockSize).toNat)))

def tryBase32EncodeInternal (data : List UInt8) (encodedData : List Char) : Except EncodeError (List Char) :=
  if encodedData.length < getEncodedDataSize data.length then .error .outputBufferTooSmall
  else if data.length % 5 ≠ 0 then .error .invalidSize
  else CountedLoop.run .endless (data.length / 5) 1 (encodeRound data) 0 encodedData

/-- A string is resized with null characters. -/
def base32Encode (data : List UInt8) : Except EncodeError (List Char) :=
  tryBase32EncodeInternal data (List.replicate (getEncodedDataSize data.length) (Char.ofNat 0))

def decodeRound (encodedData : List Char) (index : UInt32) (data : List UInt8) : Except DecodeError (List UInt8) :=
  match tryDecodeBlock (readBlock 8 (Char.ofNat 0) encodedData (index * encodedBlockSize).toNat) with
  | none => .error .illegalCharacter
  | some block => .ok (writeBlock data (index * decodedBlockSize).toNat block)

def tryBase32DecodeInternal (encodedData : List Char) (data : List UInt8) : Except DecodeError (List UInt8) :=
  if data.length < getDecodedDataSize encodedData.length then .error .outputBufferTooSmall
  else if encodedData.length % 8 ≠ 0 then .error .invalidSize
  else CountedLoop.run .endless (encodedData.length / 8) 1 (decodeRound encodedData) 0 data

end Catapult.Utils
