import Mathlib.Data.Nat.Digits.Defs

/-
This file models the parsers of unsigned integers in configuration files.
-/

namespace Catapult.Utils

/-- The digits of a base with their values. -/
structure DigitTraits where
  base : Nat
  isDigit : Char → Bool
  getByteValue : Char → UInt8

def decimalTraits : DigitTraits where
  base := 10
  isDigit ch := '0' ≤ ch && ch ≤ '9'
  getByteValue ch := UInt8.ofNat (ch.toNat - '0'.toNat)

/-- Only upper case letters are digits. -/
def hexTraits : DigitTraits where
  base := 16
  isDigit ch := ('0' ≤ ch && ch ≤ '9') || ('A' ≤ ch && ch ≤ 'F')
  getByteValue ch := UInt8.ofNat (if ch ≤ '9' then ch.toNat - '0'.toNat else ch.toNat - 'A'.toNat + 10)

def digitSeparator : Char := '\''

/-- The parsed value is an unsigned integer of some width. -/
structure ParseState (width : Nat) where
  result : BitVec width
  isLastCharSeparator : Bool

/-- A digit is rejected if the wrapped result is smaller than the result before it. -/
def parseChar (traits : DigitTraits) {width : Nat} (state : ParseState width) (ch : Char) : Option (ParseState width) :=
  let isCharSeparator := ch = digitSeparator
  let isValidChar := traits.isDigit ch || (isCharSeparator && !state.isLastCharSeparator)
  if ¬ isValidChar then none
  else if isCharSeparator then some { state with isLastCharSeparator := true }
  else
    let next := state.result * BitVec.ofNat width traits.base + BitVec.ofNat width (traits.getByteValue ch).toNat
    if next < state.result then none else some ⟨next, false⟩

/-- The start counts as a separator, so that a string cannot begin with one. -/
def tryParseUnsignedIntValue (traits : DigitTraits) (width : Nat) (str : List Char) : Option (BitVec width) :=
  if str.isEmpty then none
  else do
    let state ← str.foldlM (parseChar traits) ⟨0, true⟩
    if state.isLastCharSeparator then none else some state.result

def tryParseUnsignedIntDecimalValue (width : Nat) (str : List Char) : Option (BitVec width) :=
  tryParseUnsignedIntValue decimalTraits width str

def tryParseUnsignedIntHexValue (width : Nat) (str : List Char) : Option (BitVec width) :=
  if str.length < 2 ∨ str.take 2 ≠ ['0', 'x'] then none else tryParseUnsignedIntValue hexTraits width (str.drop 2)

/-- Integers of all widths are parsed as decimal numbers, identifiers of mosaics as hexadecimal ones. -/
inductive NumberBase where
  | decimal
  | hex

namespace NumberBase

def traits : NumberBase → DigitTraits
  | .decimal => decimalTraits
  | .hex => hexTraits

def tryParseValue : NumberBase → (width : Nat) → List Char → Option (BitVec width)
  | .decimal => tryParseUnsignedIntDecimalValue
  | .hex => tryParseUnsignedIntHexValue

end NumberBase

end Catapult.Utils
