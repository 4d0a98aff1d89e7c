import Catapult.Library.FixedPointLog
import Catapult.Proof.Chain.Difficulty

/-
This file shows when the hit of a generation hash falls as the hash grows.
-/

namespace Catapult.Chain

theorem bigEndian_append (front back : List UInt8) :
    bigEndian (front ++ back) = bigEndian front * 256 ^ back.length + bigEndian back := by
  simp only [bigEndian, List.reverse_append, List.map_append, Nat.ofDigits_append, List.length_map, List.length_reverse]
  ring

theorem bigEndian_singleton (byte : UInt8) : bigEndian [byte] = byte.toNat :=
  Nat.ofDigits_singleton

theorem bigEndian_cons (byte : UInt8) (bytes : List UInt8) :
    bigEndian (byte :: bytes) = byte.toNat * 256 ^ bytes.length + bigEndian bytes := by
  rw [← bigEndian_singleton byte, ← bigEndian_append, List.singleton_append]

theorem bigEndian_lt (bytes : List UInt8) : bigEndian bytes < 256 ^ bytes.length := by
  have bound : bigEndian bytes < 256 ^ (bytes.reverse.map UInt8.toNat).length := by
    apply Nat.ofDigits_lt_base_pow_length (by decide)
    intro digit member
    obtain ⟨byte, _, rfl⟩ := List.mem_map.mp member
    exact byte.toNat_lt
  simpa only [List.length_map, List.length_reverse] using bound

theorem bigEndian_take (bytes : List UInt8) (count : Nat) :
    bigEndian (bytes.take count) = bigEndian bytes / 256 ^ (bytes.length - count) := by
  have split := bigEndian_append (bytes.take count) (bytes.drop count)
  have small := bigEndian_lt (bytes.drop count)
  rw [List.take_append_drop] at split
  rw [split, ← List.length_drop, Nat.mul_comm, Nat.mul_add_div (Nat.pow_pos (by decide)), Nat.div_eq_of_lt small, Nat.add_zero]

/-- Leading bytes that are zero do not change the value. -/
theorem bigEndian_drop {bytes : List UInt8} {count : Nat} (small : bigEndian bytes < 256 ^ (bytes.length - count)) :
    bigEndian (bytes.drop count) = bigEndian bytes := by
  have split := bigEndian_append (bytes.take count) (bytes.drop count)
  rw [bigEndian_take, Nat.div_eq_of_lt small, Nat.zero_mul, Nat.zero_add, List.take_append_drop] at split
  exact split.symm

/-- The first byte other than zero decides the number of digits. -/
theorem log_bigEndian_cons {byte : UInt8} (nonzero : byte ≠ 0) (bytes : List UInt8) :
    Nat.log 2 (bigEndian (byte :: bytes)) = Nat.log 2 byte.toNat + 8 * bytes.length := by
  have positive : byte.toNat ≠ 0 := fun zero => nonzero (UInt8.toNat_inj.mp zero)
  have lower := Nat.pow_log_le_self 2 positive
  have upper := Nat.lt_pow_succ_log_self Nat.one_lt_two byte.toNat
  have rest := bigEndian_lt bytes
  have width : 256 ^ bytes.length = 2 ^ (8 * bytes.length) := by rw [Nat.pow_mul]
  rw [width] at rest
  rw [bigEndian_cons, width]
  apply Nat.log_eq_of_pow_le_of_lt_pow
  · rw [Nat.pow_add]
    exact Nat.le_add_right_of_le (Nat.mul_le_mul_right _ lower)
  · calc byte.toNat * 2 ^ (8 * bytes.length) + bigEndian bytes
        < byte.toNat * 2 ^ (8 * bytes.length) + 2 ^ (8 * bytes.length) := Nat.add_lt_add_left rest _
      _ = (byte.toNat + 1) * 2 ^ (8 * bytes.length) := (Nat.add_one_mul _ _).symm
      _ ≤ 2 ^ (Nat.log 2 byte.toNat + 1) * 2 ^ (8 * bytes.length) := Nat.mul_le_mul_right _ upper
      _ = 2 ^ (Nat.log 2 byte.toNat + 8 * bytes.length + 1) := by ring

/-- The window holds the 32 bits from the first set bit on, or all bits if there are fewer. -/
def window (value : Nat) : Nat := value / 2 ^ (Nat.log 2 value - 31)

theorem log2_toNat (byte : UInt8) : byte.log2.toNat = Nat.log 2 byte.toNat :=
  Nat.log2_eq_log_two

theorem toNat_numLeadingZerosFrom (bytes : List UInt8) (index : UInt32) (counted : index.toNat + bytes.length = 32) :
    (numLeadingZerosFrom index bytes).toNat =
      if bigEndian bytes = 0 then 256 else 255 - Nat.log 2 (bigEndian bytes) := by
  induction bytes generalizing index with
  | nil => rfl
  | cons byte bytes ih =>
    rw [List.length_cons] at counted
    unfold numLeadingZerosFrom
    by_cases zero : byte = 0
    · subst zero
      have next : (index + 1).toNat = index.toNat + 1 := by
        rw [UInt32.toNat_add]
        exact Nat.mod_eq_of_lt (by simp; omega)
      rw [if_neg (by simp), ih (index + 1) (by omega), bigEndian_cons]
      simp
    · have positive : 0 < byte.toNat := Nat.pos_of_ne_zero fun none => zero (UInt8.toNat_inj.mp none)
      have digits : Nat.log 2 byte.toNat < 8 := Nat.log_lt_of_lt_pow (Nat.ne_of_gt positive) byte.toNat_lt
      have some : bigEndian (byte :: bytes) ≠ 0 := by
        rw [bigEndian_cons]
        have := Nat.mul_pos positive (Nat.pow_pos (n := bytes.length) (show 0 < 256 by decide))
        omega
      rw [if_pos zero, if_neg some, log_bigEndian_cons zero]
      have size : (8 * index + 7).toNat = 8 * index.toNat + 7 := by
        simp only [UInt32.toNat_add, UInt32.toNat_mul, UInt32.reduceToNat]
        omega
      rw [UInt32.toNat_sub_of_le, size, UInt8.toNat_toUInt32, log2_toNat]
      · omega
      · rw [UInt32.le_iff_toNat_le, size, UInt8.toNat_toUInt32, log2_toNat]
        omega

/-- The five bytes from the first byte other than zero hold the window. -/
theorem window_straddles {bytes : List UInt8} {index remainder : Nat} (sized : bytes.length = 32)
    (low : index + 5 ≤ 32) (rest : remainder ≤ 8) (small : bigEndian bytes < 256 ^ (32 - index)) :
    bigEndian ((bytes.drop index).take 4) * 2 ^ remainder + (bytes.getD (index + 4) 0).toNat / 2 ^ (8 - remainder) =
        bigEndian bytes / 2 ^ (224 - (8 * index + remainder)) := by
  have dropped : bigEndian (bytes.drop index) = bigEndian bytes := bigEndian_drop (by rwa [sized])
  have length : (bytes.drop index).length = 32 - index := by rw [List.length_drop, sized]
  have fifth : (bytes.drop index).take 5 = (bytes.drop index).take 4 ++ [bytes.getD (index + 4) 0] := by
    have inside : 4 < (bytes.drop index).length := by omega
    rw [← List.take_concat_get inside, List.concat_eq_append, List.getElem_drop, List.getD_eq_getElem?_getD, List.getElem?_eq_getElem (by omega), Option.getD_some]
  have five := bigEndian_take (bytes.drop index) 5
  rw [fifth, bigEndian_append, bigEndian_singleton, dropped, length, List.length_singleton, Nat.pow_one] at five
  have width : 2 ^ (224 - (8 * index + remainder)) = 256 ^ (32 - index - 5) * 2 ^ (8 - remainder) := by
    rw [show 256 = 2 ^ 8 from rfl, ← Nat.pow_mul, ← Nat.pow_add]
    congr 1
    omega
  have byte (front : Nat) : front * 256 = 2 ^ (8 - remainder) * (front * 2 ^ remainder) := by
    rw [Nat.mul_left_comm, ← Nat.pow_add, Nat.sub_add_cancel rest]
  rw [width, ← Nat.div_div_eq_div_mul, ← five, byte, Nat.mul_add_div (Nat.two_pow_pos _)]

theorem toNat_straddle {front : Nat} {next : UInt8} {remainder : UInt32} (below : remainder.toNat < 8)
    (fits : front * 2 ^ remainder.toNat + next.toNat / 2 ^ (8 - remainder.toNat) < 2 ^ 32) :
    (UInt32.ofNat front <<< remainder + next.toUInt32 >>> (8 - remainder)).toNat =
      front * 2 ^ remainder.toNat + next.toNat / 2 ^ (8 - remainder.toNat) := by
  have fitsShifted : front * 2 ^ remainder.toNat < 2 ^ 32 := lt_of_le_of_lt (Nat.le_add_right _ _) fits
  have fitsFront : front < 2 ^ 32 := lt_of_le_of_lt (Nat.le_mul_of_pos_right _ (Nat.two_pow_pos _)) fitsShifted
  have complement : (8 - remainder).toNat = 8 - remainder.toNat :=
    UInt32.toNat_sub_of_le _ _ (UInt32.le_iff_toNat_le.mpr (Nat.le_of_lt below))
  have shifted : (UInt32.ofNat front <<< remainder).toNat = front * 2 ^ remainder.toNat := by
    rw [UInt32.toNat_shiftLeft, UInt32.toNat_ofNat_of_lt' fitsFront, Nat.mod_eq_of_lt (by omega : remainder.toNat < 32),
      Nat.shiftLeft_eq, Nat.mod_eq_of_lt fitsShifted]
  have filled : (next.toUInt32 >>> (8 - remainder)).toNat = next.toNat / 2 ^ (8 - remainder.toNat) := by
    rw [UInt32.toNat_shiftRight, complement, Nat.mod_eq_of_lt (by omega : 8 - remainder.toNat < 32),
      Nat.shiftRight_eq_div_pow, UInt8.toNat_toUInt32]
  rw [UInt32.toNat_add, shifted, filled, Nat.mod_eq_of_lt fits]

theorem window_lt (value : Nat) : window value < 2 ^ 32 := by
  apply Nat.div_lt_of_lt_mul
  calc value < 2 ^ (Nat.log 2 value + 1) := Nat.lt_pow_succ_log_self Nat.one_lt_two value
    _ ≤ 2 ^ (Nat.log 2 value - 31 + 32) := Nat.pow_le_pow_right (by decide) (by omega)
    _ = 2 ^ (Nat.log 2 value - 31) * 2 ^ 32 := Nat.pow_add _ _ _

theorem toNat_extracted (generationHash : GenerationHash) :
    (extractGenerationHashInfo generationHash).value.toNat = window (bigEndian generationHash.toList) ∧
      (extractGenerationHashInfo generationHash).numLeadingZeros.toNat =
        224 - (Nat.log 2 (bigEndian generationHash.toList) - 31) := by
  have sized : generationHash.toList.length = 32 := generationHash.length_toList
  have zeros := toNat_numLeadingZerosFrom generationHash.toList 0 (by rw [sized]; rfl)
  have bounded := bigEndian_lt generationHash.toList
  have inWindow := window_lt (bigEndian generationHash.toList)
  unfold extractGenerationHashInfo numLeadingZeros extractFromHashAtPosition
  generalize numLeadingZerosFrom 0 generationHash.toList = count at zeros ⊢
  generalize generationHash.toList = bytes at *
  rw [sized] at bounded
  dsimp only
  by_cases few : 224 ≤ count
  · -- at most the last four bytes differ from zero
    rw [if_pos few]
    have manyZeros : 224 ≤ count.toNat := UInt32.le_iff_toNat_le.mp few
    have digits : Nat.log 2 (bigEndian bytes) ≤ 31 := by
      by_cases none : bigEndian bytes = 0
      · rw [none]
        decide
      · rw [if_neg none] at zeros
        omega
    have small : bigEndian bytes < 2 ^ 32 :=
      lt_of_lt_of_le (Nat.lt_pow_succ_log_self Nat.one_lt_two _) (Nat.pow_le_pow_right (by decide) (by omega))
    have shift : Nat.log 2 (bigEndian bytes) - 31 = 0 := by omega
    have last : bigEndian ((bytes.drop 28).take 4) = bigEndian bytes := by
      rw [List.take_of_length_le (by rw [List.length_drop, sized])]
      exact bigEndian_drop (by rw [sized]; exact small)
    rw [window, shift, last]
    exact ⟨by rw [UInt32.toNat_ofNat_of_lt' small]; simp, rfl⟩
  · rw [if_neg few]
    have fewZeros : count.toNat < 224 := by
      rw [UInt32.le_iff_toNat_le, Nat.not_le] at few
      exact few
    have some : bigEndian bytes ≠ 0 := by
      intro none
      rw [if_pos none] at zeros
      omega
    rw [if_neg some] at zeros
    have digits : Nat.log 2 (bigEndian bytes) < 256 := by
      apply Nat.log_lt_of_lt_pow some
      exact bounded
    have remainder : (count % 8).toNat = count.toNat % 8 := UInt32.toNat_mod _ _
    have small : bigEndian bytes < 256 ^ (32 - count.toNat / 8) := by
      rw [show 256 = 2 ^ 8 from rfl, ← Nat.pow_mul]
      exact lt_of_lt_of_le (Nat.lt_pow_succ_log_self Nat.one_lt_two _) (Nat.pow_le_pow_right (by decide) (by omega))
    have straddles := window_straddles sized (by omega : count.toNat / 8 + 5 ≤ 32)
      (Nat.le_of_lt (Nat.mod_lt count.toNat (by decide : 0 < 8))) small
    rw [Nat.div_add_mod, show 224 - count.toNat = Nat.log 2 (bigEndian bytes) - 31 from by omega, ← window,
      ← remainder] at straddles
    have below : (count % 8).toNat < 8 := by omega
    refine ⟨?_, by dsimp only; omega⟩
    change (UInt32.ofNat (bigEndian ((bytes.drop (count.toNat / 8)).take 4)) <<< (count % 8) +
      (bytes.getD (count.toNat / 8 + 4) 0).toUInt32 >>> (8 - count % 8)).toNat = _
    rw [toNat_straddle below (straddles ▸ inWindow), straddles]

section Logarithm

open FixedPointLog

/-- The state of the loop is read as unbounded integers. -/
def extraction (state : UInt64 × UInt64) : Extraction := ⟨state.1.toNat, state.2.toNat⟩

theorem extraction_normalize (rounds : Nat) (x y : UInt64) (positive : 0 < x.toNat) (small : x.toNat < 2 ^ 32)
    (enough : 31 - Nat.log 2 x.toNat ≤ rounds) (large : 31 - Nat.log 2 x.toNat ≤ y.toNat) : extraction (normalize rounds (x, y)) =
      ⟨x.toNat * 2 ^ (31 - Nat.log 2 x.toNat), y.toNat - (31 - Nat.log 2 x.toNat)⟩ := by
  induction rounds generalizing x y with
  | zero =>
    have none : 31 - Nat.log 2 x.toNat = 0 := Nat.le_zero.mp enough
    rw [none, Nat.pow_zero, Nat.mul_one, Nat.sub_zero]
    rfl
  | succ rounds ih =>
    rw [normalize]
    by_cases below : x < powerOfTwo
    · have bound : x.toNat < 2 ^ 31 := UInt64.lt_iff_toNat_lt.mp below
      have doubled : (x <<< 1).toNat = x.toNat * 2 := by
        rw [UInt64.toNat_shiftLeft]
        change x.toNat <<< 1 % 2 ^ 64 = x.toNat * 2
        rw [Nat.shiftLeft_eq]
        exact Nat.mod_eq_of_lt (by omega)
      have digits : Nat.log 2 (x.toNat * 2) = Nat.log 2 x.toNat + 1 :=
        Nat.log_mul_base Nat.one_lt_two (Nat.ne_of_gt positive)
      have fewer : Nat.log 2 x.toNat < 31 := Nat.log_lt_of_lt_pow (Nat.ne_of_gt positive) bound
      have decreased : (y - 1).toNat = y.toNat - 1 :=
        UInt64.toNat_sub_of_le _ _ (UInt64.le_iff_toNat_le.mpr (by change 1 ≤ y.toNat; omega))
      rw [if_pos below, ih (x <<< 1) (y - 1) (by omega) (by omega) (by rw [doubled, digits]; omega)
        (by rw [doubled, digits, decreased]; omega)]
      have exponent : 31 - Nat.log 2 x.toNat = 31 - (Nat.log 2 x.toNat + 1) + 1 := by omega
      rw [doubled, digits, decreased, exponent, Nat.pow_succ', Nat.mul_assoc]
      congr 1
      omega
    · have bound : 2 ^ 31 ≤ x.toNat := UInt64.le_iff_toNat_le.mp (UInt64.not_lt.mp below)
      have digits : Nat.log 2 x.toNat = 31 := Nat.log_eq_of_pow_le_of_lt_pow bound small
      rw [if_neg below, digits]
      simp [extraction]

theorem extraction_extractCoefficient {state : UInt64 × UInt64} (normal : Normal 31 (extraction state))
    (small : state.2.toNat < 2 ^ 63) : extraction (extractCoefficient state) = square 31 (extraction state) := by
  obtain ⟨x, y⟩ := state
  have bound : x.toNat < 2 ^ 32 := normal.lt_two
  have squared : (x * x).toNat = x.toNat * x.toNat := by
    rw [UInt64.toNat_mul]
    exact Nat.mod_eq_of_lt (Nat.mul_self_lt_mul_self bound)
  have shifted : ((x * x) >>> precision).toNat = x.toNat * x.toNat / 2 ^ 31 := by
    rw [UInt64.toNat_shiftRight, squared]
    exact Nat.shiftRight_eq_div_pow _ 31
  have halved : (((x * x) >>> precision) >>> 1).toNat = x.toNat * x.toNat / 2 ^ 31 / 2 := by
    rw [UInt64.toNat_shiftRight, shifted]
    exact Nat.shiftRight_eq_div_pow _ 1
  have doubled : (y <<< 1).toNat = 2 * y.toNat := by
    rw [UInt64.toNat_shiftLeft]
    change y.toNat <<< 1 % 2 ^ 64 = 2 * y.toNat
    rw [Nat.shiftLeft_eq, Nat.pow_one, Nat.mul_comm]
    exact Nat.mod_eq_of_lt (by dsimp only at small; omega)
  have raised : ((y <<< 1) + 1).toNat = 2 * y.toNat + 1 := by
    rw [UInt64.toNat_add, doubled]
    exact Nat.mod_eq_of_lt (by change 2 * y.toNat + 1 < 2 ^ 64; dsimp only at small; omega)
  have reaches : (x * x) >>> precision ≥ 2 * powerOfTwo ↔ 2 ^ (31 + 1) ≤ x.toNat * x.toNat / 2 ^ 31 := by
    rw [ge_iff_le, UInt64.le_iff_toNat_le, shifted]
    rfl
  by_cases large : 2 ^ (31 + 1) ≤ x.toNat * x.toNat / 2 ^ 31
  · have computed : extractCoefficient (x, y) = (((x * x) >>> precision) >>> 1, (y <<< 1) + 1) :=
      if_pos (reaches.mpr large)
    have specified : square 31 (extraction (x, y)) = ⟨x.toNat * x.toNat / 2 ^ 31 / 2, 2 * y.toNat + 1⟩ := if_pos large
    rw [computed, specified, extraction, halved, raised]
  · have computed : extractCoefficient (x, y) = ((x * x) >>> precision, y <<< 1) := if_neg (mt reaches.mp large)
    have specified : square 31 (extraction (x, y)) = ⟨x.toNat * x.toNat / 2 ^ 31, 2 * y.toNat⟩ := if_neg large
    rw [computed, specified, extraction, shifted, doubled]

theorem extraction_iterate {state : UInt64 × UInt64} (normal : Normal 31 (extraction state))
    (small : state.2.toNat ≤ 31) {rounds : Nat} (few : rounds ≤ 58) :
    extraction (extractCoefficient^[rounds] state) = (square 31)^[rounds] (extraction state) := by
  induction rounds with
  | zero => rfl
  | succ rounds ih =>
    have same := ih (Nat.le_of_succ_le few)
    have bound := (iterate_coefficients 31 (extraction state) rounds).2
    have limit : ((extraction state).coefficients + 1) * 2 ^ rounds ≤ 32 * 2 ^ 58 :=
      Nat.mul_le_mul (Nat.succ_le_succ small) (Nat.pow_le_pow_right (by decide) (by omega))
    rw [Function.iterate_succ_apply', Function.iterate_succ_apply', extraction_extractCoefficient, same]
    · rw [same]
      exact normal.iterate rounds
    · change (extraction (extractCoefficient^[rounds] state)).coefficients < 2 ^ 63
      rw [same]
      omega

/-- The logarithm of a 32 bit value is computed without overflow. -/
theorem log2TimesPowerOfTwo_exact {value : UInt64} (positive : 0 < value.toNat) (small : value.toNat < 2 ^ 32)
    {n : Nat} (few : n ≤ 58) : ∃ result, log2TimesPowerOfTwo value n = .ok result ∧ result.toNat = log 31 n value.toNat := by
  have digits : Nat.log 2 value.toNat ≤ 31 := log_two_le small
  have normalized : extraction (normalize precision.toNat (value, precision)) = start 31 value.toNat := by
    have width : precision.toNat = 31 := rfl
    rw [extraction_normalize precision.toNat value precision positive small (by omega) (by omega), start, width]
    congr 1
    omega
  have normal : Normal 31 (extraction (normalize precision.toNat (value, precision))) :=
    normalized ▸ normal_start positive small
  have nonzero : value ≠ 0 := by
    intro zero
    rw [zero] at positive
    exact absurd positive (by decide)
  refine ⟨_, if_neg nonzero, ?_⟩
  have iterated := extraction_iterate normal (by change (extraction _).coefficients ≤ 31; rwa [normalized]) few
  rw [normalized] at iterated
  exact congrArg Extraction.coefficients iterated

/-- The hit is computed over unbounded integers. -/
def exactHit (value : Nat) : Int :=
  if window value = 0 then 0xFFFFFFFFFFFFFFFF
  else if window value = 0xFFFFFFFF then 0
  else ((256 - (Nat.log 2 value - 31 : Nat) : Int) * 2 ^ 54 - log 31 54 (window value)) * 10000000000000000 /
    14426950408889634

/-- The first 32 bits from the first set bit on are ones. -/
def StartsWithOnes (value : Nat) : Prop := ∃ shift, value / 2 ^ shift = 0xFFFFFFFF

theorem log_window_lt (value : Nat) : log 31 54 (window value) < 32 * 2 ^ 54 := by
  have bound := (log_bounds 31 54 (window value)).2
  have digits : Nat.log 2 (window value) ≤ 31 := log_two_le (window_lt value)
  exact lt_of_lt_of_le bound (Nat.mul_le_mul_right _ (Nat.succ_le_succ digits))

theorem shift_le {value : Nat} (bounded : value < 2 ^ 256) : Nat.log 2 value - 31 ≤ 224 := by
  have digits : Nat.log 2 value ≤ 255 := log_two_le bounded
  omega

theorem toNat_dividedByLog (result : UInt64) :
    (UInt64.ofBitVec ((result.toBitVec.setWidth 128 * 10000000000000000 / 14426950408889634).setWidth 64)).toNat =
      result.toNat * 10000000000000000 / 14426950408889634 := by
  have limit := result.toNat_lt
  have product : result.toNat * 10000000000000000 < 2 ^ 128 := by omega
  change (BitVec.setWidth 64 _).toNat = _
  rw [BitVec.toNat_setWidth, BitVec.toNat_udiv, BitVec.toNat_mul, toNat_widen]
  change result.toNat * 10000000000000000 % 2 ^ 128 / 14426950408889634 % 2 ^ 64 = _
  rw [Nat.mod_eq_of_lt product]
  apply Nat.mod_eq_of_lt
  apply Nat.div_lt_of_lt_mul
  omega

theorem calculateHit_exact (generationHash : GenerationHash) :
    ∃ hit, calculateHit generationHash = .ok hit ∧ (hit.toNat : Int) = exactHit (bigEndian generationHash.toList) := by
  obtain ⟨value, zeros⟩ := toNat_extracted generationHash
  have bounded : bigEndian generationHash.toList < 2 ^ 256 := by
    have small := bigEndian_lt generationHash.toList
    rwa [generationHash.length_toList] at small
  have shifted := shift_le bounded
  have logged := log_window_lt (bigEndian generationHash.toList)
  have small := window_lt (bigEndian generationHash.toList)
  unfold calculateHit exactHit
  generalize extractGenerationHashInfo generationHash = info at *
  generalize bigEndian generationHash.toList = number at *
  obtain ⟨extracted, numLeadingZeros⟩ := info
  dsimp only at value zeros ⊢
  rw [← value] at logged small ⊢
  by_cases none : extracted = 0
  · subst none
    exact ⟨0xFFFFFFFFFFFFFFFF, rfl, rfl⟩
  by_cases ones : extracted = 0xFFFFFFFF
  · subst ones
    exact ⟨0, rfl, rfl⟩
  have positive : 0 < extracted.toNat := Nat.pos_of_ne_zero fun zero => none (UInt32.toNat_inj.mp zero)
  have notOnes : extracted.toNat ≠ 0xFFFFFFFF := fun full => ones (UInt32.toNat_inj.mp full)
  obtain ⟨logValue, computed, exact⟩ := @log2TimesPowerOfTwo_exact extracted.toUInt64 positive small 54 (by decide)
  rw [UInt32.toNat_toUInt64] at exact
  rw [if_neg none, if_neg ones, computed, if_neg (Nat.ne_of_gt positive), if_neg notOnes, ← exact]
  rw [← exact] at logged
  refine ⟨_, rfl, ?_⟩
  have factor : ((32 + numLeadingZeros).toUInt64 * twoTo54).toNat = (32 + numLeadingZeros.toNat) * 2 ^ 54 := by
    rw [UInt64.toNat_mul, UInt32.toNat_toUInt64, UInt32.toNat_add]
    change (32 + numLeadingZeros.toNat) % 2 ^ 32 * 2 ^ 54 % 2 ^ 64 = _
    omega
  have difference : ((32 + numLeadingZeros).toUInt64 * twoTo54 - logValue).toNat =
      (32 + numLeadingZeros.toNat) * 2 ^ 54 - logValue.toNat := by
    rw [UInt64.toNat_sub_of_le, factor]
    rw [UInt64.le_iff_toNat_le, factor]
    omega
  generalize (32 + numLeadingZeros).toUInt64 * twoTo54 - logValue = result at difference
  change ((UInt64.ofBitVec ((result.toBitVec.setWidth 128 * 10000000000000000 / 14426950408889634).setWidth 64)).toNat : Int) = _
  rw [toNat_dividedByLog, difference, zeros]
  push_cast
  omega

theorem window_ones_iff (value : Nat) : window value = 0xFFFFFFFF ↔ StartsWithOnes value := by
  constructor
  · intro ones
    exact ⟨Nat.log 2 value - 31, ones⟩
  · rintro ⟨shift, ones⟩
    have positive : 0 < 2 ^ shift := Nat.two_pow_pos shift
    have lower : 0xFFFFFFFF * 2 ^ shift ≤ value := (Nat.le_div_iff_mul_le positive).mp (Nat.le_of_eq ones.symm)
    have upper : value < (0xFFFFFFFF + 1) * 2 ^ shift := by
      rw [← Nat.div_lt_iff_lt_mul positive, ones]
      decide
    have digits : Nat.log 2 value = 31 + shift := by
      apply Nat.log_eq_of_pow_le_of_lt_pow
      · rw [Nat.pow_add]
        exact Nat.le_trans (Nat.mul_le_mul_right _ (by decide)) lower
      · rw [show 31 + shift + 1 = 32 + shift from by omega, Nat.pow_add]
        exact upper
    rw [window, digits, Nat.add_sub_cancel_left, ones]

theorem window_eq_zero_iff (value : Nat) : window value = 0 ↔ value = 0 := by
  constructor
  · intro none
    obtain below | divisor := Nat.div_eq_zero_iff.mp none
    · exact absurd below (Nat.ne_of_gt (Nat.two_pow_pos _))
    · by_contra nonzero
      have lower := Nat.pow_log_le_self 2 nonzero
      exact absurd divisor (Nat.not_lt.mpr (Nat.le_trans (Nat.pow_le_pow_right (by decide) (Nat.sub_le _ _)) lower))
  · rintro rfl
    exact Nat.zero_div _

/-- A window that does not hold all bits has its first bit set. -/
theorem log_window {value : Nat} (cut : 31 < Nat.log 2 value) : Nat.log 2 (window value) = 31 := by
  have positive : 0 < 2 ^ (Nat.log 2 value - 31) := Nat.two_pow_pos _
  have nonzero : value ≠ 0 := by
    rintro rfl
    exact absurd cut (by decide)
  apply Nat.log_eq_of_pow_le_of_lt_pow
  · rw [window, Nat.le_div_iff_mul_le positive, ← Nat.pow_add, show 31 + (Nat.log 2 value - 31) = Nat.log 2 value from by omega]
    exact Nat.pow_log_le_self 2 nonzero
  · exact window_lt value

/-- The logarithm of the whole value grows with the value. -/
theorem scaled_log_mono {first second : Nat} (ordered : first ≤ second) :
    (Nat.log 2 first - 31) * 2 ^ 54 + log 31 54 (window first) ≤
      (Nat.log 2 second - 31) * 2 ^ 54 + log 31 54 (window second) := by
  have digits : Nat.log 2 first ≤ Nat.log 2 second := Nat.log_mono_right ordered
  by_cases same : Nat.log 2 first - 31 = Nat.log 2 second - 31
  · have windows : window first ≤ window second := by
      rw [window, window, same]
      exact Nat.div_le_div_right ordered
    have logs := log_mono 31 54 windows
    rw [same]
    omega
  · have upper := log_window_lt first
    have lower := (log_bounds 31 54 (window second)).1
    rw [log_window (by omega)] at lower
    omega

theorem log_largest_le : log 31 54 0xFFFFFFFE + 2 ≤ 32 * 2 ^ 54 := by
  have digits : Nat.log 2 0xFFFFFFFE = 31 := Nat.log_eq_of_pow_le_of_lt_pow (by decide) (by decide)
  have started : start 31 0xFFFFFFFE = ⟨0xFFFFFFFE, 31⟩ := by
    rw [start, digits, Nat.sub_self, Nat.pow_zero, Nat.mul_one]
  rw [log, started]
  decide +kernel

/-- Only a window of ones has the hit zero. -/
theorem exactHit_pos {value : Nat} (bounded : value < 2 ^ 256) (notOnes : window value ≠ 0xFFFFFFFF) : 0 < exactHit value := by
  unfold exactHit
  by_cases none : window value = 0
  · rw [if_pos none]
    decide
  · have small := window_lt value
    have logs := log_mono 31 54 (show window value ≤ 0xFFFFFFFE by omega)
    have largest := log_largest_le
    have shifted := shift_le bounded
    rw [if_neg none, if_neg notOnes]
    omega

theorem exactHit_le {value : Nat} (bounded : value < 2 ^ 256) : exactHit value ≤ 0xFFFFFFFFFFFFFFFF := by
  unfold exactHit
  split
  · exact Int.le_refl _
  · split
    · decide
    · have shifted := shift_le bounded
      omega

theorem exactHit_anti {first second : Nat} (ordered : first ≤ second) (bounded : second < 2 ^ 256)
    (notOnes : window first ≠ 0xFFFFFFFF) : exactHit second ≤ exactHit first := by
  by_cases none : window first = 0
  · have largest : exactHit first = 0xFFFFFFFFFFFFFFFF := if_pos none
    rw [largest]
    exact exactHit_le bounded
  by_cases ones : window second = 0xFFFFFFFF
  · have zero : exactHit second = 0 := by
      rw [exactHit, ones]
      rfl
    rw [zero]
    exact Int.le_of_lt (exactHit_pos (lt_of_le_of_lt ordered bounded) notOnes)
  · have some : window second ≠ 0 := by
      intro zero
      rw [window_eq_zero_iff] at none zero
      omega
    have logs := scaled_log_mono ordered
    unfold exactHit
    rw [if_neg none, if_neg notOnes, if_neg some, if_neg ones]
    omega

/-- The hits do not overflow, and the larger generation hash is at no disadvantage. -/
def SoundHits (first second : GenerationHash) : Prop :=
  ∃ firstHit secondHit, calculateHit first = .ok firstHit ∧ calculateHit second = .ok secondHit ∧
    (firstHit.toNat : Int) = exactHit (bigEndian first.toList) ∧
    (secondHit.toNat : Int) = exactHit (bigEndian second.toList) ∧ secondHit ≤ firstHit

/-- A larger hash has no larger hit unless the smaller hash alone starts with 32 ones. -/
theorem soundHits_iff (first second : GenerationHash) (ordered : bigEndian first.toList ≤ bigEndian second.toList) :
    SoundHits first second ↔ (StartsWithOnes (bigEndian first.toList) → StartsWithOnes (bigEndian second.toList)) := by
  obtain ⟨firstHit, firstComputed, firstExact⟩ := calculateHit_exact first
  obtain ⟨secondHit, secondComputed, secondExact⟩ := calculateHit_exact second
  have bounded : bigEndian second.toList < 2 ^ 256 := by
    have small := bigEndian_lt second.toList
    rwa [second.length_toList] at small
  rw [← window_ones_iff, ← window_ones_iff]
  have zero {hash : GenerationHash} (ones : window (bigEndian hash.toList) = 0xFFFFFFFF) :
      exactHit (bigEndian hash.toList) = 0 := by
    rw [exactHit, ones]
    rfl
  constructor
  · rintro ⟨firstOther, secondOther, firstSame, secondSame, firstHits, secondHits, smaller⟩ firstOnes
    by_contra secondOnes
    have positive := exactHit_pos bounded secondOnes
    have hits := UInt64.le_iff_toNat_le.mp smaller
    rw [zero firstOnes] at firstHits
    omega
  · intro follows
    refine ⟨firstHit, secondHit, firstComputed, secondComputed, firstExact, secondExact, UInt64.le_iff_toNat_le.mpr ?_⟩
    by_cases firstOnes : window (bigEndian first.toList) = 0xFFFFFFFF
    · rw [zero (follows firstOnes)] at secondExact
      omega
    · have smaller := exactHit_anti ordered bounded firstOnes
      omega

end Logarithm

namespace Samples

def firstBytes (byte second : UInt8) : GenerationHash :=
  ⟨#[byte, second, second, second, second, 0, 0, 0, 0, 0, 0, 0, 0, 0, 0, 0, 0, 0, 0, 0, 0, 0, 0, 0, 0, 0, 0, 0, 0, 0, 0, 0], rfl⟩

/-- The hash with four bytes of ones behind a byte of zeros hits at once; the next larger one does not. -/
theorem ones_overtake : bigEndian (firstBytes 0 0xFF).toList ≤ bigEndian (firstBytes 1 0).toList ∧
    ¬ SoundHits (firstBytes 0 0xFF) (firstBytes 1 0) := by
  refine ⟨by decide +kernel, ?_⟩
  rintro ⟨firstHit, secondHit, firstComputed, secondComputed, _, _, smaller⟩
  have firstZero : calculateHit (firstBytes 0 0xFF) = .ok 0 := by decide +kernel
  have secondHits : calculateHit (firstBytes 1 0) = .ok 99893036290645747 := by decide +kernel
  rw [firstZero] at firstComputed
  rw [secondHits] at secondComputed
  cases firstComputed
  cases secondComputed
  exact absurd smaller (by decide)

/-- The hits of small hashes are sound. -/
theorem zero_sound : SoundHits (firstBytes 0 0) (firstBytes 1 0) := by
  refine (soundHits_iff (firstBytes 0 0) (firstBytes 1 0) (by decide +kernel)).mpr ?_
  rintro ⟨shift, ones⟩
  rw [show bigEndian (firstBytes 0 0).toList = 0 from by decide +kernel, Nat.zero_div] at ones
  exact absurd ones (by decide)

end Samples

end Catapult.Chain
