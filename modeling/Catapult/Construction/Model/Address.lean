import Catapult.Construction.Types
import Catapult.Construction.Utils.Base32

/-
This file models the conversion between addresses and strings.
-/

namespace Catapult.Model

open Utils

inductive AddressError where
  | wrongSize
  | decode (error : DecodeError)
  deriving DecidableEq

def checksumSize : Nat := 3

abbrev addressSize : Nat := 24

def addressEncodedSize : Nat := 39

/-- The encoding only supports decoded data of whole blocks. -/
abbrev paddedAddressSize : Nat := 25

/-- A byte array is copied into another size. -/
def copyTo (size : Nat) (bytes : List UInt8) : Vector UInt8 size := Vector.ofFn fun index => bytes.getD index.val 0

def padAddressString (str : List Char) : List Char := str ++ ['A']

/-- A byte array is initialized with zeros. -/
def decodePadded (str : List Char) : Except DecodeError (List UInt8) :=
  tryBase32DecodeInternal (padAddressString str) (List.replicate paddedAddressSize 0)

def stringToAddress (str : List Char) : Except AddressError Address :=
  if addressEncodedSize ≠ str.length then .error .wrongSize
  else match decodePadded str with
    | .error error => .error (.decode error)
    | .ok paddedAddress => .ok (copyTo addressSize paddedAddress)

def addressToString (address : Address) : Except EncodeError (List Char) := do
  let str ← base32Encode (copyTo paddedAddressSize address.toList).toList
  return str.dropLast

variable [Sha3]

def isValidAddress (address : Address) (networkIdentifier : UInt8) : Bool :=
  let checksumBegin := addressSize - checksumSize
  networkIdentifier == address[0] &&
    (Sha3.sha3_256 (address.toList.take checksumBegin)).toList.take checksumSize == address.toList.drop checksumBegin

/-- The last bytes of a valid address are the beginning of a hash. -/
theorem isValidAddress_iff {address : Address} (networkIdentifier : UInt8) : isValidAddress address networkIdentifier = true ↔
    networkIdentifier = address[0] ∧ (Sha3.sha3_256 (address.toList.take 21)).toList.take 3 = address.toList.drop 21 := by
  rw [isValidAddress, Bool.and_eq_true, beq_iff_eq, beq_iff_eq]
  rfl

def isValidEncodedAddress (encoded : List Char) (networkIdentifierAccessor : UInt8 → UInt8) : Bool :=
  if addressEncodedSize ≠ encoded.length then false
  else match decodePadded encoded with
    | .error _ => false
    | .ok decoded =>
      isValidAddress (copyTo addressSize decoded) (networkIdentifierAccessor (decoded.getD 0 0)) && decoded.getD (paddedAddressSize - 1) 0 == 0

def tryParseValue (str : List Char) : Except AddressError (Option Address) :=
  if isValidEncodedAddress str id then some <$> stringToAddress str else return none

end Catapult.Model
