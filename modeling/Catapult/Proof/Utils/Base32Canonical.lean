import Catapult.Construction.Utils.Base32
import Mathlib.Tactic.IntervalCases

/-
This file shows that the Base32 encoding is lossless and canonical while all positions fit 32 bits.
-/

namespace Catapult.Utils

theorem tryDecodeChar_allowedChar {index : UInt8} (small : index.toNat < 32) : tryDecodeChar (allowedChar index) = some index := by
  have all : ∀ value : Fin 32, tryDecodeChar (allowedChar (UInt8.ofNat value.val)) = some (UInt8.ofNat value.val) := by decide
  have one := all ⟨index.toNat, small⟩
  rwa [UInt8.ofNat_toNat] at one

/-- Every legal character belongs to one group of five bits. -/
theorem allowedChar_of_tryDecodeChar {c : Char} {index : UInt8} (decoded : tryDecodeChar c = some index) :
    index.toNat < 32 ∧ allowedChar index = c := by
  have all : ∀ value : Fin 128, ∀ index ∈ tryDecodeChar (Char.ofNat value.val), index.toNat < 32 ∧ allowedChar index = Char.ofNat value.val := by
    decide +kernel
  have ascii : c.toNat < 128 := by
    unfold tryDecodeChar at decoded
    split at decoded
    · next letter => exact Nat.lt_of_le_of_lt (show c.toNat ≤ 'Z'.toNat from letter.2) (by decide)
    · split at decoded
      · next digit => exact Nat.lt_of_le_of_lt (show c.toNat ≤ '7'.toNat from digit.2) (by decide)
      · cases decoded
  have one := all ⟨c.toNat, ascii⟩ index
  rw [Char.ofNat_toNat] at one
  exact one decoded

variable {high low : UInt8}

/-- Bits that do not overlap are added. -/
theorem toNat_shift_or {shift : UInt8} (inside : shift.toNat < 8) (fits : high.toNat * 2 ^ shift.toNat < 2 ^ 8) (below : low.toNat < 2 ^ shift.toNat) :
    (high <<< shift ||| low).toNat = high.toNat * 2 ^ shift.toNat + low.toNat := by
  rw [UInt8.toNat_or, UInt8.toNat_shiftLeft, Nat.mod_eq_of_lt inside, Nat.mod_eq_of_lt (by rwa [Nat.shiftLeft_eq]),
    ← Nat.shiftLeft_add_eq_or_of_lt below, Nat.shiftLeft_eq]

theorem toNat_shiftRight {shift : UInt8} (inside : shift.toNat < 8) : (high >>> shift).toNat = high.toNat / 2 ^ shift.toNat := by
  rw [UInt8.toNat_shiftRight, Nat.mod_eq_of_lt inside, Nat.shiftRight_eq_div_pow]

theorem toNat_mask (width : Nat) (inside : width ≤ 8) : (high &&& UInt8.ofNat (2 ^ width - 1)).toNat = high.toNat % 2 ^ width := by
  have fits : 2 ^ width - 1 < 2 ^ 8 := by
    have := Nat.pow_le_pow_right (show 0 < 2 by decide) inside
    have := Nat.two_pow_pos width
    omega
  rw [UInt8.toNat_and, UInt8.toNat_ofNat_of_lt' fits, Nat.and_two_pow_sub_one_eq_mod]

/-- The parts of a byte are numbers. -/
theorem mask_shift_or {shift : UInt8} (width : Nat) (inside : shift.toNat < 8) (whole : width + shift.toNat ≤ 8) (below : low.toNat < 2 ^ shift.toNat) :
    ((high &&& UInt8.ofNat (2 ^ width - 1)) <<< shift ||| low).toNat = high.toNat % 2 ^ width * 2 ^ shift.toNat + low.toNat := by
  have masked := @toNat_mask high width (by omega)
  rw [toNat_shift_or inside ?_ below, masked]
  rw [masked]
  calc high.toNat % 2 ^ width * 2 ^ shift.toNat < 2 ^ width * 2 ^ shift.toNat :=
        Nat.mul_lt_mul_of_pos_right (Nat.mod_lt _ (Nat.two_pow_pos _)) (Nat.two_pow_pos _)
    _ = 2 ^ (width + shift.toNat) := (Nat.pow_add _ _ _).symm
    _ ≤ 2 ^ 8 := Nat.pow_le_pow_right (by decide) whole

section Groups

/-- A byte of a block as a number. -/
def number {size : Nat} (bytes : Vector UInt8 size) (position : Nat) : Nat := (bytes.toList.getD position 0).toNat

theorem toNat_getElem {size position : Nat} {bytes : Vector UInt8 size} (inside : position < size) : bytes[position].toNat = number bytes position := by
  rw [number, List.getD_eq_getElem _ _ (by rwa [Vector.length_toList]), Vector.getElem_toList]

theorem number_lt {size : Nat} (bytes : Vector UInt8 size) (position : Nat) : number bytes position < 256 := (bytes.toList.getD position 0).toNat_lt

variable (data : Vector UInt8 5)

theorem joined_toNat (high low : UInt8) (width : Nat) (shift rest : UInt8) (whole : width + shift.toNat ≤ 8) (divided : rest.toNat + shift.toNat = 8)
    (nonzero : 0 < rest.toNat ∧ 0 < shift.toNat) : ((high &&& UInt8.ofNat (2 ^ width - 1)) <<< shift ||| low >>> rest).toNat =
      high.toNat % 2 ^ width * 2 ^ shift.toNat + low.toNat / 2 ^ rest.toNat := by
  have lower : (low >>> rest).toNat = low.toNat / 2 ^ rest.toNat := toNat_shiftRight (by omega)
  rw [← lower]
  refine mask_shift_or width (by omega) whole ?_
  rw [lower, Nat.div_lt_iff_lt_mul (Nat.two_pow_pos _), ← Nat.pow_add, Nat.add_comm, divided]
  exact low.toNat_lt

/-- The groups of a block as numbers. -/
theorem splitBytes_toNat :
    number (splitBytes data) 0 = number data 0 / 8 ∧ number (splitBytes data) 1 = number data 0 % 8 * 4 + number data 1 / 64 ∧
      number (splitBytes data) 2 = number data 1 / 2 % 32 ∧ number (splitBytes data) 3 = number data 1 % 2 * 16 + number data 2 / 16 ∧
      number (splitBytes data) 4 = number data 2 % 16 * 2 + number data 3 / 128 ∧ number (splitBytes data) 5 = number data 3 / 4 % 32 ∧
      number (splitBytes data) 6 = number data 3 % 4 * 8 + number data 4 / 32 ∧ number (splitBytes data) 7 = number data 4 % 32 := by
  simp (disch := decide) only [← toNat_getElem]
  refine ⟨toNat_shiftRight (by decide), joined_toNat _ _ 3 2 6 (by decide) (by decide) (by decide), ?_,
    joined_toNat _ _ 1 4 4 (by decide) (by decide) (by decide), joined_toNat _ _ 4 1 7 (by decide) (by decide) (by decide), ?_,
    joined_toNat _ _ 2 3 5 (by decide) (by decide) (by decide), toNat_mask 5 (by decide)⟩
  · have shifted : ((data[1] &&& 0x3E) >>> 1).toNat = (data[1] &&& 0x3E).toNat / 2 := toNat_shiftRight (by decide)
    have masked : (data[1] &&& 0x3E).toNat / 2 = (data[1].toNat &&& 62) >>> 1 := by
      rw [UInt8.toNat_and, Nat.shiftRight_eq_div_pow]
      rfl
    change ((data[1] &&& 0x3E) >>> 1).toNat = _
    rw [shifted, masked, Nat.shiftRight_and_distrib, Nat.shiftRight_eq_div_pow]
    exact Nat.and_two_pow_sub_one_eq_mod _ 5
  · have masked : (data[3] &&& 0x7F).toNat = data[3].toNat % 128 := toNat_mask 7 (by decide)
    have shifted : ((data[3] &&& 0x7F) >>> 2).toNat = (data[3] &&& 0x7F).toNat / 4 := toNat_shiftRight (by decide)
    change ((data[3] &&& 0x7F) >>> 2).toNat = _
    omega

/-- All groups are below the number of characters. -/
def Small (bytes : Vector UInt8 8) : Prop :=
  number bytes 0 < 32 ∧ number bytes 1 < 32 ∧ number bytes 2 < 32 ∧ number bytes 3 < 32 ∧
    number bytes 4 < 32 ∧ number bytes 5 < 32 ∧ number bytes 6 < 32 ∧ number bytes 7 < 32

variable {bytes : Vector UInt8 8}

/-- Groups below 32 fill the bytes of a block. -/
theorem packGroups_toNat (small : Small bytes) : number (packGroups bytes) 0 = number bytes 0 * 8 + number bytes 1 / 4 ∧
      number (packGroups bytes) 1 = number bytes 1 % 4 * 64 + (number bytes 2 * 2 + number bytes 3 / 16) ∧
      number (packGroups bytes) 2 = number bytes 3 % 16 * 16 + number bytes 4 / 2 ∧
      number (packGroups bytes) 3 = number bytes 4 % 2 * 128 + (number bytes 5 * 4 + number bytes 6 / 8) ∧
      number (packGroups bytes) 4 = number bytes 6 % 8 * 32 + number bytes 7 := by
  unfold Small at small
  simp (disch := decide) only [← toNat_getElem] at small ⊢
  obtain ⟨bound0, bound1, bound2, bound3, bound4, bound5, bound6, bound7⟩ := small
  have lower1 : (bytes[1] >>> 2).toNat = bytes[1].toNat / 4 := toNat_shiftRight (by decide)
  have lower3 : (bytes[3] >>> 4).toNat = bytes[3].toNat / 16 := toNat_shiftRight (by decide)
  have lower4 : (bytes[4] >>> 1).toNat = bytes[4].toNat / 2 := toNat_shiftRight (by decide)
  have lower6 : (bytes[6] >>> 3).toNat = bytes[6].toNat / 8 := toNat_shiftRight (by decide)
  have middle2 : (bytes[2] <<< 1 ||| bytes[3] >>> 4).toNat = bytes[2].toNat * 2 + bytes[3].toNat / 16 := by
    rw [← lower3]
    exact toNat_shift_or (by decide) (by change _ * 2 < 256; omega) (by change _ < 2; omega)
  have middle5 : (bytes[5] <<< 2 ||| bytes[6] >>> 3).toNat = bytes[5].toNat * 4 + bytes[6].toNat / 8 := by
    rw [← lower6]
    exact toNat_shift_or (by decide) (by change _ * 4 < 256; omega) (by change _ < 4; omega)
  refine ⟨?_, ?_, ?_, ?_, mask_shift_or 3 (by decide) (by decide) bound7⟩
  · rw [← lower1]
    exact toNat_shift_or (by decide) (by change _ * 8 < 256; omega) (by change _ < 8; omega)
  · change ((bytes[1] &&& 0x03) <<< 6 ||| bytes[2] <<< 1 ||| bytes[3] >>> 4).toNat = _
    rw [UInt8.or_assoc, ← middle2]
    exact mask_shift_or 2 (by decide) (by decide) (by change _ < 64; omega)
  · rw [← lower4]
    exact mask_shift_or 4 (by decide) (by decide) (by change _ < 16; omega)
  · change ((bytes[4] &&& 0x01) <<< 7 ||| bytes[5] <<< 2 ||| bytes[6] >>> 3).toNat = _
    rw [UInt8.or_assoc, ← middle5]
    exact mask_shift_or 1 (by decide) (by decide) (by change _ < 128; omega)

theorem splitBytes_small : Small (splitBytes data) := by
  obtain ⟨group0, group1, group2, group3, group4, group5, group6, group7⟩ := splitBytes_toNat data
  have bound0 := number_lt data 0
  have bound1 := number_lt data 1
  have bound2 := number_lt data 2
  have bound3 := number_lt data 3
  have bound4 := number_lt data 4
  unfold Small
  omega

/-- Vectors of bytes with the same numbers are equal. -/
theorem eq_of_toNat {size : Nat} {first second : Vector UInt8 size} (same : ∀ index < size, number first index = number second index) :
    first = second := by
  apply Vector.ext
  intro index inside
  exact UInt8.toNat.inj ((toNat_getElem inside).trans ((same index inside).trans (toNat_getElem inside).symm))

theorem bytes_of_groups {a b c d e : Nat} (belowB : b < 256) (belowC : c < 256) (belowD : d < 256) (belowE : e < 256) :
    a / 8 * 8 + (a % 8 * 4 + b / 64) / 4 = a ∧ (a % 8 * 4 + b / 64) % 4 * 64 + (b / 2 % 32 * 2 + (b % 2 * 16 + c / 16) / 16) = b ∧
      (b % 2 * 16 + c / 16) % 16 * 16 + (c % 16 * 2 + d / 128) / 2 = c ∧
      (c % 16 * 2 + d / 128) % 2 * 128 + (d / 4 % 32 * 4 + (d % 4 * 8 + e / 32) / 8) = d ∧ (d % 4 * 8 + e / 32) % 8 * 32 + e % 32 = e := by
  refine ⟨?_, ?_, ?_, ?_, ?_⟩ <;> omega

/-- The groups of a block determine it. -/
theorem packGroups_splitBytes : packGroups (splitBytes data) = data := by
  obtain ⟨group0, group1, group2, group3, group4, group5, group6, group7⟩ := splitBytes_toNat data
  obtain ⟨byte0, byte1, byte2, byte3, byte4⟩ := packGroups_toNat (splitBytes_small data)
  simp only [group0, group1, group2, group3, group4, group5, group6, group7] at byte0 byte1 byte2 byte3 byte4
  obtain ⟨same0, same1, same2, same3, same4⟩ :=
    @bytes_of_groups (number data 0) _ _ _ _ (number_lt data 1) (number_lt data 2) (number_lt data 3) (number_lt data 4)
  apply eq_of_toNat
  intro index inside
  interval_cases index
  · exact byte0.trans same0
  · exact byte1.trans same1
  · exact byte2.trans same2
  · exact byte3.trans same3
  · exact byte4.trans same4

theorem groups_of_bytes {a b c d e f g h : Nat} (belowB : b < 32) (belowC : c < 32) (belowD : d < 32) (belowE : e < 32) (belowF : f < 32)
    (belowG : g < 32) (belowH : h < 32) :
    (a * 8 + b / 4) / 8 = a ∧ (a * 8 + b / 4) % 8 * 4 + (b % 4 * 64 + (c * 2 + d / 16)) / 64 = b ∧
      (b % 4 * 64 + (c * 2 + d / 16)) / 2 % 32 = c ∧ (b % 4 * 64 + (c * 2 + d / 16)) % 2 * 16 + (d % 16 * 16 + e / 2) / 16 = d ∧
      (d % 16 * 16 + e / 2) % 16 * 2 + (e % 2 * 128 + (f * 4 + g / 8)) / 128 = e ∧ (e % 2 * 128 + (f * 4 + g / 8)) / 4 % 32 = f ∧
      (e % 2 * 128 + (f * 4 + g / 8)) % 4 * 8 + (g % 8 * 32 + h) / 32 = g ∧ (g % 8 * 32 + h) % 32 = h := by
  refine ⟨?_, ?_, ?_, ?_, ?_, ?_, ?_, ?_⟩ <;> omega

/-- Groups below 32 are found again in their bytes. -/
theorem splitBytes_packGroups (small : Small bytes) : splitBytes (packGroups bytes) = bytes := by
  obtain ⟨group0, group1, group2, group3, group4, group5, group6, group7⟩ := splitBytes_toNat (packGroups bytes)
  obtain ⟨byte0, byte1, byte2, byte3, byte4⟩ := packGroups_toNat small
  obtain ⟨_, below1, below2, below3, below4, below5, below6, below7⟩ := small
  simp only [byte0, byte1, byte2, byte3, byte4] at group0 group1 group2 group3 group4 group5 group6 group7
  obtain ⟨same0, same1, same2, same3, same4, same5, same6, same7⟩ :=
    @groups_of_bytes (number bytes 0) _ _ _ _ _ _ _ below1 below2 below3 below4 below5 below6 below7
  apply eq_of_toNat
  intro index inside
  interval_cases index
  · exact group0.trans same0
  · exact group1.trans same1
  · exact group2.trans same2
  · exact group3.trans same3
  · exact group4.trans same4
  · exact group5.trans same5
  · exact group6.trans same6
  · exact group7.trans same7

end Groups

theorem splitBytes_lt (data : Vector UInt8 5) (index : Fin 8) : (splitBytes data)[index].toNat < 32 := by
  obtain ⟨bound0, bound1, bound2, bound3, bound4, bound5, bound6, bound7⟩ := splitBytes_small data
  obtain ⟨index, inside⟩ := index
  rw [Fin.getElem_fin, toNat_getElem]
  dsimp only
  interval_cases index <;> assumption

/-- An encoded block is decoded. -/
theorem tryDecodeBlock_encodeBlock (data : Vector UInt8 5) : tryDecodeBlock (encodeBlock data) = some data := by
  have legal : ∀ index : Fin 8, tryDecodeChar (encodeBlock data)[index] = some (splitBytes data)[index] := by
    intro index
    have character : (encodeBlock data)[index] = allowedChar (splitBytes data)[index] := Vector.getElem_map _ index.isLt
    rw [character, tryDecodeChar_allowedChar (splitBytes_lt data index)]
  have accepted : ((encodeBlock data).all fun c => (tryDecodeChar c).isSome) = true := by
    refine Vector.all_eq_true.mpr fun index inside => ?_
    exact Option.isSome_of_eq_some (legal ⟨index, inside⟩)
  have groups : (encodeBlock data).map (fun c => (tryDecodeChar c).getD 0) = splitBytes data := by
    apply Vector.ext
    intro index inside
    have decoded := legal ⟨index, inside⟩
    simp only [Fin.getElem_fin] at decoded
    rw [Vector.getElem_map, decoded, Option.getD_some]
  rw [tryDecodeBlock, if_pos accepted, groups, packGroups_splitBytes]

/-- A decoded block is encoded in the same way. -/
theorem encodeBlock_of_tryDecodeBlock {encodedData : Vector Char 8} {block : Vector UInt8 5} (decoded : tryDecodeBlock encodedData = some block) :
    encodeBlock block = encodedData := by
  unfold tryDecodeBlock at decoded
  split at decoded
  · next accepted =>
    have legal : ∀ index : Fin 8, tryDecodeChar encodedData[index] = some ((tryDecodeChar encodedData[index]).getD 0) := by
      intro index
      obtain ⟨value, character⟩ := Option.isSome_iff_exists.mp (Vector.all_eq_true.mp accepted index.val index.isLt)
      have found : tryDecodeChar encodedData[index] = some value := character
      rw [found, Option.getD_some]
    have small : Small (encodedData.map fun c => (tryDecodeChar c).getD 0) := by
      have group : ∀ index : Fin 8, ((tryDecodeChar encodedData[index]).getD 0).toNat < 32 := fun index =>
        (allowedChar_of_tryDecodeChar (legal index)).1
      unfold Small
      simp (disch := decide) only [← toNat_getElem, Vector.getElem_map]
      exact ⟨group 0, group 1, group 2, group 3, group 4, group 5, group 6, group 7⟩
    cases decoded
    apply Vector.ext
    intro index inside
    rw [encodeBlock, splitBytes_packGroups small, Vector.map_map, Vector.getElem_map]
    exact (allowedChar_of_tryDecodeChar (legal ⟨index, inside⟩)).2
  · cases decoded

open ListBlocks

/-- Blocks up to this number have positions with 32 bits. -/
def maxBlocks : Nat := 2 ^ 29

theorem encodedPosition {index : UInt32} (small : index.toNat < maxBlocks) : (index * encodedBlockSize).toNat = index.toNat * 8 := by
  unfold maxBlocks at small
  rw [UInt32.toNat_mul]
  exact Nat.mod_eq_of_lt (by change index.toNat * 8 < _; omega)

theorem decodedPosition {index : UInt32} (small : index.toNat ≤ maxBlocks) : (index * decodedBlockSize).toNat = index.toNat * 5 := by
  unfold maxBlocks at small
  rw [UInt32.toNat_mul]
  exact Nat.mod_eq_of_lt (by change index.toNat * 5 < _; omega)

def encodedBlock (data : List UInt8) (index : Nat) : Vector Char 8 := encodeBlock (readBlock 5 0 data (index * 5))

theorem tryBase32EncodeInternal_eq {data : List UInt8} {buffer : List Char} {count : Nat} (blocks : data.length = count * 5)
    (enough : count * 8 ≤ buffer.length) (small : count ≤ maxBlocks) :
    tryBase32EncodeInternal data buffer = .ok (joinBlocks count (encodedBlock data) ++ buffer.drop (count * 8)) := by
  have divided : data.length / 5 = count := by rw [blocks, Nat.mul_div_cancel _ (by decide)]
  have whole : data.length % 5 = 0 := by rw [blocks, Nat.mul_mod_left]
  have size : ¬ buffer.length < getEncodedDataSize data.length := by rwa [getEncodedDataSize, divided, Nat.not_lt]
  rw [tryBase32EncodeInternal, if_neg size, if_neg (not_not_intro whole), divided]
  obtain ⟨final, position, ran, outside, inside, joined⟩ :=
    @CountedLoop.run_invariant _ _ .endless count 1 (encodeRound data)
      (fun position state => position ≤ count ∧ state = joinBlocks position (encodedBlock data) ++ buffer.drop (position * 8)) (by decide)
      (fun index state below ⟨_, joined⟩ => by
        have next : index.toNat + (1 : UInt32).toNat = index.toNat + 1 := rfl
        unfold maxBlocks at small
        refine ⟨by omega, _, rfl, by omega, ?_⟩
        rw [encodedPosition (by unfold maxBlocks; omega), decodedPosition (by unfold maxBlocks; omega), next, joined]
        exact writeBlock_joinBlocks buffer index.toNat (encodedBlock data))
      0 buffer ⟨Nat.zero_le _, by simp [joinBlocks]⟩
  rw [ran, joined, Nat.le_antisymm inside outside]

/-- The string is as long as all blocks. -/
theorem base32Encode_eq {data : List UInt8} {count : Nat} (blocks : data.length = count * 5) (small : count ≤ maxBlocks) :
    base32Encode data = .ok (joinBlocks count (encodedBlock data)) := by
  have size : getEncodedDataSize data.length = count * 8 := by rw [getEncodedDataSize, blocks, Nat.mul_div_cancel _ (by decide)]
  rw [base32Encode, tryBase32EncodeInternal_eq blocks (by rw [List.length_replicate, size]) small, size,
    List.drop_eq_nil_of_le (by rw [List.length_replicate]), List.append_nil]

/-- The positions are read one block at a time. -/
def encodedBlockAt (encodedData : List Char) (index : Nat) : Vector Char 8 := readBlock 8 (Char.ofNat 0) encodedData (index * 8)

theorem tryBase32DecodeInternal_eq {encodedData : List Char} {buffer : List UInt8} {count : Nat} {block : Nat → Vector UInt8 5}
    (blocks : encodedData.length = count * 8) (enough : count * 5 ≤ buffer.length) (small : count ≤ maxBlocks)
    (decoded : ∀ index < count, tryDecodeBlock (encodedBlockAt encodedData index) = some (block index)) :
    tryBase32DecodeInternal encodedData buffer = .ok (joinBlocks count block ++ buffer.drop (count * 5)) := by
  have divided : encodedData.length / 8 = count := by rw [blocks, Nat.mul_div_cancel _ (by decide)]
  have whole : encodedData.length % 8 = 0 := by rw [blocks, Nat.mul_mod_left]
  have size : ¬ buffer.length < getDecodedDataSize encodedData.length := by rwa [getDecodedDataSize, divided, Nat.not_lt]
  rw [tryBase32DecodeInternal, if_neg size, if_neg (not_not_intro whole), divided]
  obtain ⟨final, position, ran, outside, inside, joined⟩ :=
    @CountedLoop.run_invariant _ _ .endless count 1 (decodeRound encodedData)
      (fun position state => position ≤ count ∧ state = joinBlocks position block ++ buffer.drop (position * 5)) (by decide)
      (fun index state below ⟨_, joined⟩ => by
        have next : index.toNat + (1 : UInt32).toNat = index.toNat + 1 := rfl
        have found := decoded index.toNat below
        unfold maxBlocks at small
        rw [encodedBlockAt, ← encodedPosition (by unfold maxBlocks; omega)] at found
        refine ⟨by omega, _, by rw [decodeRound, found], by omega, ?_⟩
        rw [decodedPosition (by unfold maxBlocks; omega), next, joined]
        exact writeBlock_joinBlocks buffer index.toNat block)
      0 buffer ⟨Nat.zero_le _, by simp [joinBlocks]⟩
  rw [ran, joined, Nat.le_antisymm inside outside]

/-- All blocks of a decoded string are legal. -/
theorem legal_of_tryBase32DecodeInternal {encodedData : List Char} {buffer data : List UInt8} (small : encodedData.length ≤ maxBlocks * 8)
    (decoded : tryBase32DecodeInternal encodedData buffer = .ok data) :
    encodedData.length % 8 = 0 ∧ getDecodedDataSize encodedData.length ≤ buffer.length ∧
      ∀ index < encodedData.length / 8, (tryDecodeBlock (encodedBlockAt encodedData index)).isSome := by
  unfold tryBase32DecodeInternal at decoded
  split at decoded
  · cases decoded
  next size =>
  split at decoded
  · cases decoded
  next whole =>
  refine ⟨not_not.mp whole, Nat.not_lt.mp size, ?_⟩
  obtain ⟨position, outside, legal⟩ :=
    @CountedLoop.invariant_of_run _ _ .endless _ 1 (decodeRound encodedData)
      (fun position _ => ∀ index < position, (tryDecodeBlock (encodedBlockAt encodedData index)).isSome)
      (fun index state next below legal round => by
        have following : index.toNat + (1 : UInt32).toNat = index.toNat + 1 := rfl
        unfold maxBlocks at small
        have found : (tryDecodeBlock (encodedBlockAt encodedData index.toNat)).isSome := by
          rw [encodedBlockAt, ← encodedPosition (by unfold maxBlocks; omega)]
          unfold decodeRound at round
          split at round
          · cases round
          · next accepted => exact Option.isSome_of_eq_some accepted
        refine ⟨by omega, fun other before => ?_⟩
        rcases Nat.lt_succ_iff_lt_or_eq.mp (following ▸ before) with earlier | same
        · exact legal other earlier
        · exact same ▸ found)
      0 buffer data (fun _ none => absurd none (Nat.not_lt_zero _)) decoded
  exact fun index inside => legal index (by omega)

/-- Encoded bytes are decoded into every buffer of their size. -/
theorem decode_encode {data : List UInt8} (multiple : data.length % 5 = 0) (small : data.length ≤ maxBlocks * 5) :
    ∃ encodedData, base32Encode data = .ok encodedData ∧ encodedData.length = getEncodedDataSize data.length ∧
      ∀ buffer : List UInt8, buffer.length = data.length → tryBase32DecodeInternal encodedData buffer = .ok data := by
  obtain ⟨count, blocks⟩ : ∃ count, data.length = count * 5 := ⟨data.length / 5, by omega⟩
  have fits : count ≤ maxBlocks := by omega
  have joined : (joinBlocks count (encodedBlock data)).length = count * 8 := length_joinBlocks _ _
  refine ⟨_, base32Encode_eq blocks fits, ?_, ?_⟩
  · rw [joined, getEncodedDataSize, blocks, Nat.mul_div_cancel _ (by decide)]
  · intro buffer size
    have legal : ∀ index < count, tryDecodeBlock (encodedBlockAt (joinBlocks count (encodedBlock data)) index) =
        some (readBlock 5 0 data (index * 5)) := by
      intro index inside
      rw [encodedBlockAt, readBlock_joinBlocks _ _ inside]
      exact tryDecodeBlock_encodeBlock _
    rw [tryBase32DecodeInternal_eq joined (by omega) fits legal, joinBlocks_readBlock 0 data (by omega),
      List.take_of_length_le (by omega), List.drop_eq_nil_of_le (by omega), List.append_nil]

/-- Decoded strings are encoded again. -/
theorem encode_decode {encodedData : List Char} {buffer data : List UInt8} (small : encodedData.length ≤ maxBlocks * 8)
    (size : buffer.length = getDecodedDataSize encodedData.length) (decoded : tryBase32DecodeInternal encodedData buffer = .ok data) :
    data.length = buffer.length ∧ base32Encode data = .ok encodedData := by
  obtain ⟨whole, enough, legal⟩ := legal_of_tryBase32DecodeInternal small decoded
  obtain ⟨count, blocks⟩ : ∃ count, encodedData.length = count * 8 := ⟨encodedData.length / 8, by omega⟩
  have fits : count ≤ maxBlocks := by omega
  have divided : encodedData.length / 8 = count := by omega
  have room : buffer.length = count * 5 := by rw [size, getDecodedDataSize, divided]
  let block := fun index => (tryDecodeBlock (encodedBlockAt encodedData index)).getD (Vector.replicate 5 0)
  have found : ∀ index < count, tryDecodeBlock (encodedBlockAt encodedData index) = some (block index) := by
    intro index inside
    obtain ⟨value, accepted⟩ := Option.isSome_iff_exists.mp (legal index (divided ▸ inside))
    change _ = some ((tryDecodeBlock (encodedBlockAt encodedData index)).getD _)
    rw [accepted, Option.getD_some]
  rw [tryBase32DecodeInternal_eq blocks (by omega) fits found, List.drop_eq_nil_of_le (by omega), List.append_nil] at decoded
  cases decoded
  have joined : (joinBlocks count block).length = count * 5 := length_joinBlocks _ _
  refine ⟨by omega, ?_⟩
  rw [base32Encode_eq joined fits]
  calc Except.ok (joinBlocks count (encodedBlock (joinBlocks count block)))
      = .ok (joinBlocks count fun index => readBlock 8 (Char.ofNat 0) encodedData (index * 8)) := by
        refine congrArg Except.ok (joinBlocks_congr fun index inside => ?_)
        rw [encodedBlock, readBlock_joinBlocks _ _ inside]
        exact encodeBlock_of_tryDecodeBlock (found index inside)
    _ = .ok encodedData := by rw [joinBlocks_readBlock _ _ (by omega), List.take_of_length_le (by omega)]

end Catapult.Utils
