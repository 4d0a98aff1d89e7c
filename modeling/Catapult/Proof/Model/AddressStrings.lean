import Catapult.Construction.Model.Address
import Catapult.Proof.Utils.Base32Canonical

/-
This file shows that addresses and their strings determine each other.
-/

namespace Catapult.Model

open ListBlocks
open Utils

section Padding

theorem getElem_copyTo {size : Nat} (bytes : List UInt8) {index : Nat} (inside : index < size) : (copyTo size bytes)[index] = bytes.getD index 0 := by
  rw [copyTo, Vector.getElem_ofFn]

theorem getD_copyTo {size : Nat} (bytes : List UInt8) {index : Nat} (inside : index < size) :
    (copyTo size bytes).toList.getD index 0 = bytes.getD index 0 := by
  rw [List.getD_eq_getElem _ _ (by rwa [Vector.length_toList]), Vector.getElem_toList, getElem_copyTo _ inside]

/-- The padding of an address is removed again. -/
theorem copyTo_padded (address : Address) : copyTo addressSize (copyTo paddedAddressSize address.toList).toList = address := by
  apply Vector.ext
  intro index inside
  have within : index < paddedAddressSize := Nat.lt_trans inside (by decide)
  rw [getElem_copyTo _ inside, getD_copyTo _ within, List.getD_eq_getElem _ _ (by rwa [Vector.length_toList]), Vector.getElem_toList]

/-- An address whose last byte was zero is padded again. -/
theorem copyTo_truncated {decoded : List UInt8} (size : decoded.length = paddedAddressSize) (last : decoded.getD (paddedAddressSize - 1) 0 = 0) :
    (copyTo paddedAddressSize (copyTo addressSize decoded).toList).toList = decoded := by
  apply List.ext_getElem
  · rw [Vector.length_toList, size]
  · intro index left right
    have inside : index < paddedAddressSize := size ▸ right
    rw [Vector.getElem_toList, getElem_copyTo _ inside]
    by_cases within : index < addressSize
    · rw [getD_copyTo _ within, List.getD_eq_getElem _ _ right]
    · have final : index = paddedAddressSize - 1 := by
        unfold addressSize at within
        unfold paddedAddressSize at inside ⊢
        omega
      rw [List.getD_eq_default _ _ (by rw [Vector.length_toList]; omega), ← List.getD_eq_getElem _ 0 right, final, last]

variable (address : Address)

theorem padded_last : (copyTo paddedAddressSize address.toList).toList.getD (paddedAddressSize - 1) 0 = 0 := by
  rw [getD_copyTo _ (by decide), List.getD_eq_default]
  rw [Vector.length_toList]
  decide

/-- The unused bits of a padded address are the character of the padding. -/
theorem addressToString_padded : ∃ str, addressToString address = .ok str ∧ str.length = addressEncodedSize ∧
      base32Encode (copyTo paddedAddressSize address.toList).toList = .ok (padAddressString str) := by
  have blocks : (copyTo paddedAddressSize address.toList).toList.length = 5 * 5 := Vector.length_toList
  have encoded := base32Encode_eq blocks (by decide)
  obtain ⟨str, size⟩ : ∃ str, joinBlocks 5 (encodedBlock (copyTo paddedAddressSize address.toList).toList) = str ∧ str.length = 5 * 8 :=
    ⟨_, rfl, length_joinBlocks _ _⟩
  rw [size.1] at encoded
  have last : str.getD 39 (Char.ofNat 0) = 'A' := by
    have group : (readBlock 5 (0 : UInt8) (copyTo paddedAddressSize address.toList).toList (4 * 5))[4] = 0 := by
      rw [getElem_readBlock]
      exact padded_last address
    calc str.getD (4 * 8 + 7) (Char.ofNat 0) = (readBlock 8 (Char.ofNat 0) str (4 * 8))[7] := (getElem_readBlock _ _ _ (by decide)).symm
      _ = (encodedBlock (copyTo paddedAddressSize address.toList).toList 4)[7] := by
          rw [← size.1, readBlock_joinBlocks _ _ (by decide)]
      _ = allowedChar ((readBlock 5 (0 : UInt8) (copyTo paddedAddressSize address.toList).toList (4 * 5))[4] &&& 0x1F) :=
          Vector.getElem_map _ (by decide)
      _ = 'A' := by
          rw [group]
          rfl
  have nonempty : str ≠ [] := List.ne_nil_of_length_pos (by omega)
  have final : str.getLast nonempty = 'A' := by
    have position : 39 = str.length - 1 := by omega
    rw [List.getLast_eq_getElem, ← last, position, List.getD_eq_getElem _ _ (by omega)]
  have joined : padAddressString str.dropLast = str := by
    rw [padAddressString, ← final, List.dropLast_append_getLast]
  refine ⟨str.dropLast, ?_, ?_, ?_⟩
  · rw [addressToString, encoded]
    rfl
  · rw [List.length_dropLast, size.2]
    rfl
  · rw [encoded, joined]

end Padding

section Parsing

variable {str : List Char} {address : Address}

theorem padded_size (size : str.length = addressEncodedSize) : (padAddressString str).length = 5 * 8 := by
  rw [padAddressString, List.length_append, size]
  rfl

/-- The string of an address is decoded into its padded bytes. -/
theorem decodePadded_of_addressToString (text : addressToString address = .ok str) :
    str.length = addressEncodedSize ∧ decodePadded str = .ok (copyTo paddedAddressSize address.toList).toList := by
  obtain ⟨own, converted, size, encoded⟩ := addressToString_padded address
  have bytes : (copyTo paddedAddressSize address.toList).toList.length = 25 := Vector.length_toList
  obtain ⟨characters, again, -, decoded⟩ := @decode_encode (copyTo paddedAddressSize address.toList).toList (by rw [bytes])
    (by rw [bytes]; decide)
  cases encoded.symm.trans again
  cases text.symm.trans converted
  exact ⟨size, decoded _ (by rw [bytes, List.length_replicate])⟩

/-- Padded bytes with a final zero are the address of their string. -/
theorem addressToString_of_decodePadded {decoded : List UInt8} (size : str.length = addressEncodedSize) (accepted : decodePadded str = .ok decoded)
    (last : decoded.getD (paddedAddressSize - 1) 0 = 0) : addressToString (copyTo addressSize decoded) = .ok str := by
  have length := padded_size size
  obtain ⟨bytes, encoded⟩ := encode_decode (by rw [length]; decide) (by rw [length, List.length_replicate]; rfl) accepted
  rw [List.length_replicate] at bytes
  rw [addressToString, copyTo_truncated bytes last, encoded, padAddressString]
  exact congrArg Except.ok List.dropLast_concat

variable [Sha3]

/-- The last bytes of an address are the beginning of a hash. -/
def HasValidChecksum (address : Address) : Prop := (Sha3.sha3_256 (address.toList.take 21)).toList.take 3 = address.toList.drop 21

theorem tryParseValue_eq_some :
    tryParseValue str = .ok (some address) ↔ addressToString address = .ok str ∧ HasValidChecksum address := by
  constructor
  · intro parsed
    unfold tryParseValue at parsed
    split at parsed
    · next valid =>
      unfold isValidEncodedAddress at valid
      split at valid
      · cases valid
      next size =>
      cases accepted : decodePadded str with
      | error error =>
        rw [accepted] at valid
        cases valid
      | ok decoded =>
        rw [accepted, Bool.and_eq_true, isValidAddress_iff, beq_iff_eq] at valid
        rw [stringToAddress, if_neg size, accepted] at parsed
        have same : copyTo addressSize decoded = address := Option.some.inj (Except.ok.inj parsed)
        rw [← same]
        exact ⟨addressToString_of_decodePadded (not_not.mp size).symm accepted valid.2, valid.1.2⟩
    · cases parsed
  · rintro ⟨text, valid⟩
    obtain ⟨size, decoded⟩ := decodePadded_of_addressToString text
    have first : (copyTo paddedAddressSize address.toList).toList.getD 0 0 = address[0] := by
      rw [getD_copyTo _ (by decide), List.getD_eq_getElem _ _ (by rw [Vector.length_toList]; decide), Vector.getElem_toList]
    have accepted : isValidEncodedAddress str id = true := by
      rw [isValidEncodedAddress, if_neg (not_not_intro size.symm), decoded, Bool.and_eq_true, copyTo_padded, isValidAddress_iff, beq_iff_eq, first]
      exact ⟨⟨rfl, valid⟩, padded_last address⟩
    rw [tryParseValue, if_pos accepted, stringToAddress, if_neg (not_not_intro size.symm), decoded]
    exact congrArg (fun parsed => Except.ok (some parsed)) (copyTo_padded address)

/-- A string that is not parsed is no error. -/
theorem tryParseValue_ok (str : List Char) : ∃ parsed, tryParseValue str = .ok parsed := by
  unfold tryParseValue
  split
  · next valid =>
    unfold isValidEncodedAddress at valid
    split at valid
    · cases valid
    next size =>
    cases accepted : decodePadded str with
    | error error =>
      rw [accepted] at valid
      cases valid
    | ok decoded =>
      rw [stringToAddress, if_neg size, accepted]
      exact ⟨_, rfl⟩
  · exact ⟨_, rfl⟩

/-- Parsing inverts the conversion of valid addresses, and the conversion of blocks with 32 bit positions loses nothing. -/
theorem addressStrings_canonical :
    (∀ str : List Char, ∀ address : Address, tryParseValue str = .ok (some address) ↔ addressToString address = .ok str ∧ HasValidChecksum address) ∧
      (∀ str : List Char, ∃ parsed, tryParseValue str = .ok parsed) ∧
      (∀ address : Address, ∃ str, addressToString address = .ok str) ∧
      (∀ first second : List Char, ∀ address : Address,
        tryParseValue first = .ok (some address) → tryParseValue second = .ok (some address) → first = second) ∧
      (∀ data : List UInt8, data.length % 5 = 0 → data.length ≤ maxBlocks * 5 →
        ∃ encodedData, base32Encode data = .ok encodedData ∧
          ∀ buffer : List UInt8, buffer.length = data.length → tryBase32DecodeInternal encodedData buffer = .ok data) ∧
      ∀ encodedData : List Char, ∀ buffer data : List UInt8, encodedData.length ≤ maxBlocks * 8 →
        buffer.length = getDecodedDataSize encodedData.length → tryBase32DecodeInternal encodedData buffer = .ok data →
        base32Encode data = .ok encodedData := by
  refine ⟨fun _ _ => tryParseValue_eq_some, tryParseValue_ok, fun address => ?_, fun first second address left right => ?_, ?_, ?_⟩
  · obtain ⟨str, converted, -⟩ := addressToString_padded address
    exact ⟨str, converted⟩
  · exact Except.ok.inj ((tryParseValue_eq_some.mp left).1.symm.trans (tryParseValue_eq_some.mp right).1)
  · intro data multiple small
    obtain ⟨encodedData, encoded, -, decoded⟩ := decode_encode multiple small
    exact ⟨encodedData, encoded, decoded⟩
  · exact fun encodedData buffer data small size decoded => (encode_decode small size decoded).2

end Parsing

namespace Samples

/-- The position of the last block wraps around to the first one. -/
def wrappedData : List UInt8 := List.replicate (maxBlocks * 5) 0 ++ [1, 0, 0, 0, 0]

theorem wrappedData_length : wrappedData.length = (maxBlocks + 1) * 5 := by
  rw [wrappedData, List.length_append, List.length_replicate]
  rfl

theorem wrappedData_last : readBlock 5 0 wrappedData (maxBlocks * 5) = #v[1, 0, 0, 0, 0] := by
  apply Vector.toList_inj.mp
  rw [toList_readBlock (by rw [wrappedData_length]; decide), wrappedData, List.drop_left' List.length_replicate]
  rfl

/-- The last block is written over the first one. -/
theorem wrappedData_encoded {encodedData : List Char} (encoded : base32Encode wrappedData = .ok encodedData) :
    encodedData.length = (maxBlocks + 1) * 8 ∧ encodedBlockAt encodedData 0 = encodeBlock #v[1, 0, 0, 0, 0] := by
  have divided : wrappedData.length / 5 = maxBlocks + 1 := by
    rw [wrappedData_length, Nat.mul_div_cancel _ (by decide)]
  have size : getEncodedDataSize wrappedData.length = (maxBlocks + 1) * 8 := by rw [getEncodedDataSize, divided]
  rw [base32Encode, tryBase32EncodeInternal, if_neg (by rw [List.length_replicate]; exact Nat.lt_irrefl _),
    if_neg (by rw [wrappedData_length]; decide), divided, size] at encoded
  obtain ⟨position, outside, length, written⟩ :=
    @CountedLoop.invariant_of_run _ _ EncodeError.endless (maxBlocks + 1) 1 (encodeRound wrappedData)
      (fun position state => state.length = (maxBlocks + 1) * 8 ∧
        (position = maxBlocks + 1 → readBlock 8 (Char.ofNat 0) state 0 = encodeBlock #v[1, 0, 0, 0, 0]) ∧ position ≤ maxBlocks + 1)
      (fun index state next below invariant round => by
        obtain ⟨length, _, _⟩ := invariant
        have following : index.toNat + (1 : UInt32).toNat = index.toNat + 1 := rfl
        have bound : maxBlocks = 2 ^ 29 := rfl
        have inside : (index * encodedBlockSize).toNat + 8 ≤ state.length := by
          have wrapped : (index * encodedBlockSize).toNat ≤ index.toNat * 8 := by
            rw [UInt32.toNat_mul]
            exact Nat.mod_le _ _
          omega
        cases round
        refine ⟨by omega, by rw [length_writeBlock inside, length], fun last => ?_, by omega⟩
        have final : index.toNat = maxBlocks := by omega
        have start : (index * encodedBlockSize).toNat = 0 := by
          rw [UInt32.toNat_mul, final]
          rfl
        rw [decodedPosition (by omega), final, wrappedData_last, ← start, readBlock_writeBlock inside])
      0 _ encodedData ⟨by rw [List.length_replicate], fun none => absurd none (by decide), Nat.zero_le _⟩ encoded
  exact ⟨length, written.1 (Nat.le_antisymm written.2 outside)⟩

/-- The first block is decoded from the characters of the last one. -/
theorem wrappedData_changed {encodedData : List Char} {buffer : List UInt8} (encoded : base32Encode wrappedData = .ok encodedData)
    (size : buffer.length = wrappedData.length) : tryBase32DecodeInternal encodedData buffer ≠ .ok wrappedData := by
  intro decoded
  obtain ⟨length, overwritten⟩ := wrappedData_encoded encoded
  rw [wrappedData_length] at size
  have divided : encodedData.length / 8 = maxBlocks + 1 := by rw [length, Nat.mul_div_cancel _ (by decide)]
  rw [tryBase32DecodeInternal, if_neg (by rw [getDecodedDataSize, divided]; omega), if_neg (by rw [length, Nat.mul_mod_left]; decide), divided] at decoded
  obtain ⟨position, outside, kept, first⟩ :=
    @CountedLoop.invariant_of_run _ _ DecodeError.endless (maxBlocks + 1) 1 (decodeRound encodedData)
      (fun position state => state.length = (maxBlocks + 1) * 5 ∧ (0 < position → state.getD 0 0 = 1))
      (fun index state next below invariant round => by
        obtain ⟨kept, first⟩ := invariant
        have following : index.toNat + (1 : UInt32).toNat = index.toNat + 1 := rfl
        have bound : maxBlocks = 2 ^ 29 := rfl
        have position := @decodedPosition index (by omega)
        have inside : (index * decodedBlockSize).toNat + 5 ≤ state.length := by omega
        unfold decodeRound at round
        split at round
        · cases round
        next block accepted =>
        cases round
        refine ⟨by omega, by rw [length_writeBlock inside, kept], fun _ => ?_⟩
        by_cases start : index.toNat = 0
        · have zero : index = 0 := UInt32.toNat.inj start
          subst zero
          change tryDecodeBlock (encodedBlockAt encodedData 0) = some block at accepted
          rw [overwritten, tryDecodeBlock_encodeBlock] at accepted
          cases accepted
          have again := readBlock_writeBlock inside #v[1, 0, 0, 0, 0] 0
          have byte := @getElem_readBlock _ 5 (0 : UInt8) (writeBlock state (0 * decodedBlockSize : UInt32).toNat #v[1, 0, 0, 0, 0]) 0 0 (by decide)
          exact byte.symm.trans (congrArg (fun read : Vector UInt8 5 => read[0]) again)
        · rw [getD_writeBlock inside block (by omega)]
          exact first (by omega))
      0 buffer wrappedData ⟨size, fun none => absurd none (Nat.lt_irrefl _)⟩ decoded
  have zero : wrappedData.getD 0 0 = 0 := rfl
  rw [zero] at first
  exact absurd (first (by omega)) (by decide)

/-- Data of one more block is not decoded from its encoding. -/
theorem base32_wraps : ¬ ∀ data : List UInt8, data.length % 5 = 0 → ∃ encodedData, base32Encode data = .ok encodedData ∧
      ∀ buffer : List UInt8, buffer.length = data.length → tryBase32DecodeInternal encodedData buffer = .ok data := by
  intro lossless
  obtain ⟨encodedData, encoded, decoded⟩ := lossless wrappedData (by rw [wrappedData_length, Nat.mul_mod_left])
  have size : (List.replicate wrappedData.length (0 : UInt8)).length = wrappedData.length := List.length_replicate
  exact wrappedData_changed encoded size (decoded _ size)

end Samples

end Catapult.Model
