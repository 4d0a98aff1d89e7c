import Catapult.Construction.Chain.BlockScorer
import Mathlib.Data.UInt

/-
This file shows how the power of two is approximated and for which elapsed times the target of a block does not fall.
-/

namespace Catapult.Chain

/-- The quotient of a value that is not negative is rounded down. -/
theorem tdiv_bounds {value divisor : Int} (nonneg : 0 ≤ value) (positive : 0 < divisor) :
    divisor * value.tdiv divisor ≤ value ∧ value < divisor * value.tdiv divisor + divisor := by
  rw [Int.tdiv_eq_ediv_of_nonneg nonneg]
  exact ⟨Int.mul_ediv_self_le (Int.ne_of_gt positive), Int.lt_mul_ediv_self_add positive⟩

section Approximation

def firstQuotient (f : Int) : Int := (0x00000E20 * f + 0x3E1CC333).tdiv 131072

def secondQuotient (f : Int) : Int := (firstQuotient f * f + 0x58BD46A6).tdiv 65536

theorem approximation_eq (f : Int) : approximation f = secondQuotient f * f + 0x7FFDE4A3 := rfl

variable {f g : Int} (low : -32768 ≤ f) (high : f ≤ 32767)

include low high

theorem firstQuotient_spec :
    131072 * firstQuotient f ≤ 0x00000E20 * f + 0x3E1CC333 ∧ 0x00000E20 * f + 0x3E1CC333 < 131072 * firstQuotient f + 131072 :=
  tdiv_bounds (by omega) (by decide)

theorem firstQuotient_bounds : 7046 ≤ firstQuotient f ∧ firstQuotient f ≤ 8854 := by
  have spec := firstQuotient_spec low high
  omega

theorem firstQuotient_mul_bounds : -290127872 ≤ firstQuotient f * f ∧ firstQuotient f * f ≤ 290119018 := by
  have bounds := firstQuotient_bounds low high
  constructor <;> nlinarith

theorem secondQuotient_spec :
    65536 * secondQuotient f ≤ firstQuotient f * f + 0x58BD46A6 ∧ firstQuotient f * f + 0x58BD46A6 < 65536 * secondQuotient f + 65536 := by
  have bounds := firstQuotient_mul_bounds low high
  exact tdiv_bounds (by omega) (by decide)

theorem secondQuotient_bounds : 18290 ≤ secondQuotient f ∧ secondQuotient f ≤ 27144 := by
  have bounds := firstQuotient_mul_bounds low high
  have spec := secondQuotient_spec low high
  omega

theorem approximation_bounds : 1257890979 ≤ approximation f ∧ approximation f ≤ 3036773019 := by
  have bounds := secondQuotient_bounds low high
  rw [approximation_eq]
  constructor <;> nlinarith

end Approximation

/-- The truncated quotients let the approximation fall by at most this amount. -/
def slack : Int := 65536

/-- A product with a fraction is bounded by the other factor. -/
theorem mul_fraction_bounds {f factor bound : Int} (low : -32768 ≤ f) (high : f ≤ 32767) (above : factor ≤ bound)
    (below : -bound ≤ factor) : -(32768 * bound) ≤ factor * f ∧ factor * f ≤ 32768 * bound := by
  constructor
  · rcases Int.le_total 0 factor with nonneg | negative
    · nlinarith
    · nlinarith
  · rcases Int.le_total 0 factor with nonneg | negative
    · nlinarith
    · nlinarith

/-- The approximation grows with its argument except for the truncation of its quotients. -/
theorem approximation_almost_mono {f g : Int} (low : -32768 ≤ f) (le : f ≤ g) (high : g ≤ 32767) :
    approximation f ≤ approximation g + slack := by
  have f_high : f ≤ 32767 := by omega
  have g_low : -32768 ≤ g := by omega
  have first := firstQuotient_spec low f_high
  have first' := firstQuotient_spec g_low high
  have bounds := firstQuotient_bounds g_low high
  have second := secondQuotient_spec low f_high
  have second' := secondQuotient_spec g_low high
  have bounds' := secondQuotient_bounds g_low high
  obtain ⟨gap, rfl⟩ : ∃ gap, g = f + gap := ⟨g - f, by omega⟩
  have nonneg : 0 ≤ gap := by omega
  obtain ⟨growth, grown⟩ : ∃ growth, firstQuotient (f + gap) = firstQuotient f + growth := ⟨_, (add_sub_cancel _ _).symm⟩
  obtain ⟨growth', grown'⟩ : ∃ growth, secondQuotient (f + gap) = secondQuotient f + growth := ⟨_, (add_sub_cancel _ _).symm⟩
  -- the product of the first quotient grows by the gap and by the growth of the quotient
  have split : firstQuotient (f + gap) * (f + gap) = firstQuotient f * f + firstQuotient (f + gap) * gap + growth * f := by
    rw [grown]
    ring
  have steep : 7046 * gap ≤ firstQuotient (f + gap) * gap ∧ firstQuotient (f + gap) * gap ≤ 8854 * gap :=
    ⟨Int.mul_le_mul_of_nonneg_right bounds.1 nonneg, Int.mul_le_mul_of_nonneg_right bounds.2 nonneg⟩
  have growth_nonneg : 0 ≤ growth := by omega
  have turned := mul_fraction_bounds low f_high (Int.le_refl growth) (by omega)
  -- the second quotient follows this product, and the same split gives the whole approximation
  have split' : secondQuotient (f + gap) * (f + gap) = secondQuotient f * f + secondQuotient (f + gap) * gap + growth' * f := by
    rw [grown']
    ring
  have steep' : 18290 * gap ≤ secondQuotient (f + gap) * gap := Int.mul_le_mul_of_nonneg_right bounds'.1 nonneg
  have turned' := @mul_fraction_bounds f growth' ((39032 * gap + 393211) / 262144) low f_high (by omega) (by omega)
  rw [approximation_eq, approximation_eq, split', slack]
  omega

theorem integerPart_spec (value : Int) : ∃ whole, integerPart value = 65536 * whole ∧ fraction value = value - 65536 * whole ∧
    -32768 ≤ fraction value ∧ fraction value ≤ 32767 ∧ (whole ≤ 15 → shiftAmount value = 15 - whole) := by
  have part : integerPart value = 65536 * ((value + 0x8000) / 65536) := by
    unfold integerPart
    omega
  refine ⟨(value + 0x8000) / 65536, part, ?_, ?_, ?_, fun small => ?_⟩
  · rw [fraction, part]
  · rw [fraction, part]
    omega
  · rw [fraction, part]
    omega
  · rw [shiftAmount, part, Int.tdiv_eq_ediv_of_nonneg (by omega)]
    omega

/-- The arguments between both caps shift by a small amount. -/
theorem shiftAmount_bounds {value : Int} (low : -(5 * 65536) ≤ value) (high : value ≤ fixedPointLog2Of100) :
    8 ≤ shiftAmount value ∧ shiftAmount value ≤ 20 := by
  obtain ⟨whole, _, fraction_eq, above, below, shift⟩ := integerPart_spec value
  unfold fixedPointLog2Of100 at high
  have := shift (by omega)
  omega

/-- A shifted value does not depend on the cast to 32 bits. -/
theorem fixedPointPowerOfTwo_eq (value : Int) :
    fixedPointPowerOfTwo value = (approximation (fraction value)).toNat / 2 ^ (shiftAmount value).toNat := by
  obtain ⟨_, _, _, low, high, _⟩ := integerPart_spec value
  have bounds := approximation_bounds low high
  rw [fixedPointPowerOfTwo, Nat.shiftRight_eq_div_pow, Int.emod_eq_of_lt (by omega) (by omega)]

/-- A greater argument has a smaller shift or the same shift and a greater fraction. -/
theorem approximation_scaled {value greater : Int} (low : -(5 * 65536) ≤ value) (le : value ≤ greater)
    (high : greater ≤ fixedPointLog2Of100) : ∃ shift, (shiftAmount value).toNat = (shiftAmount greater).toNat + shift ∧
      (approximation (fraction value)).toNat ≤ 2 ^ shift * ((approximation (fraction greater)).toNat + slack.toNat) := by
  obtain ⟨whole, _, fraction_eq, above, below, shift⟩ := integerPart_spec value
  obtain ⟨whole', _, fraction_eq', above', below', shift'⟩ := integerPart_spec greater
  unfold fixedPointLog2Of100 at high
  have shift := shift (by omega)
  have shift' := shift' (by omega)
  have bounds := approximation_bounds above below
  have bounds' := approximation_bounds above' below'
  have slack_eq : slack = 65536 := rfl
  rcases Int.lt_or_le whole whole' with less | same
  · -- the greater part of a doubling is the approximation at the lowest fraction
    have start := approximation_almost_mono (Int.le_refl (-32768)) above' below'
    have lowest : approximation (-32768) = 1518396579 := by decide
    have doubled : 2 ^ 1 ≤ 2 ^ (shiftAmount value - shiftAmount greater).toNat :=
      Nat.pow_le_pow_right (by decide) (by omega)
    refine ⟨(shiftAmount value - shiftAmount greater).toNat, by omega, ?_⟩
    calc (approximation (fraction value)).toNat
        ≤ 2 ^ 1 * ((approximation (fraction greater)).toNat + slack.toNat) := by omega
      _ ≤ _ := Nat.mul_le_mul_right _ doubled
  · have equal : whole = whole' := by omega
    have almost := approximation_almost_mono above (show fraction value ≤ fraction greater by omega) below'
    refine ⟨0, by omega, ?_⟩
    omega

/-- A power of two that is weighted with a growing time does not fall. -/
theorem weighted_powerOfTwo_le {value greater : Int} {time later : Nat} (low : -(5 * 65536) ≤ value) (le : value ≤ greater)
    (high : greater ≤ fixedPointLog2Of100) (before : time < later) (early : time ≤ 3400) (negative : greater < 0 → time ≤ 600) :
    time * fixedPointPowerOfTwo value ≤ later * fixedPointPowerOfTwo greater := by
  obtain ⟨shift, shifted, scaled⟩ := approximation_scaled low le high
  obtain ⟨whole, _, fraction_eq, above, below, shift_eq⟩ := integerPart_spec greater
  have range := shiftAmount_bounds (Int.le_trans low le) high
  have bounds := approximation_bounds above below
  have slack_eq : slack.toNat = 65536 := rfl
  rw [fixedPointPowerOfTwo_eq, fixedPointPowerOfTwo_eq, shifted, Nat.pow_add, Nat.mul_comm (2 ^ _) (2 ^ shift)]
  generalize power_eq : 2 ^ (shiftAmount greater).toNat = power
  have positive : 0 < power := power_eq ▸ Nat.two_pow_pos _
  have quotient : (approximation (fraction value)).toNat / (2 ^ shift * power) ≤
      (approximation (fraction greater)).toNat / power + 65536 / power + 1 := by
    calc (approximation (fraction value)).toNat / (2 ^ shift * power)
        ≤ 2 ^ shift * ((approximation (fraction greater)).toNat + slack.toNat) / (2 ^ shift * power) := Nat.div_le_div_right scaled
      _ = ((approximation (fraction greater)).toNat + 65536) / power := Nat.mul_div_mul_left _ _ (Nat.two_pow_pos shift)
      _ ≤ _ := by
        rw [Nat.add_div positive]
        split <;> omega
  -- the fall is less than what the next second adds
  have gain : time * (65536 / power + 1) ≤ (approximation (fraction greater)).toNat / power := by
    rw [Nat.le_div_iff_mul_le positive, Nat.mul_assoc, Nat.add_mul, Nat.one_mul]
    have multiple : 65536 / power * power ≤ 65536 := Nat.div_mul_le_self _ _
    rcases Int.lt_or_le greater 0 with below_zero | nonneg
    · have small : power ≤ 2 ^ 20 := power_eq ▸ Nat.pow_le_pow_right (by decide) (by omega)
      have product := Nat.mul_le_mul (negative below_zero) (Nat.add_le_add multiple small)
      omega
    · have shift_eq := shift_eq (by unfold fixedPointLog2Of100 at high; omega)
      have small : power ≤ 2 ^ 15 := power_eq ▸ Nat.pow_le_pow_right (by decide) (by omega)
      have product := Nat.mul_le_mul early (Nat.add_le_add multiple small)
      omega
  calc time * ((approximation (fraction value)).toNat / (2 ^ shift * power))
      ≤ time * ((approximation (fraction greater)).toNat / power + 65536 / power + 1) := Nat.mul_le_mul_left _ quotient
    _ = time * ((approximation (fraction greater)).toNat / power) + time * (65536 / power + 1) := by ring
    _ ≤ time * ((approximation (fraction greater)).toNat / power) + (approximation (fraction greater)).toNat / power :=
        Nat.add_le_add_left gain _
    _ = (time + 1) * ((approximation (fraction greater)).toNat / power) := by ring
    _ ≤ _ := Nat.mul_le_mul_right _ before

/-- The approximation is only a little above the upper cap. -/
theorem powerOfTwo_le {value : Int} (low : -(5 * 65536) ≤ value) (high : value ≤ fixedPointLog2Of100) :
    fixedPointPowerOfTwo value ≤ 6555000 := by
  obtain ⟨whole, _, fraction_eq, above, below, shift⟩ := integerPart_spec value
  have bounds := approximation_bounds above below
  unfold fixedPointLog2Of100 at high
  have shift := shift (by omega)
  rw [fixedPointPowerOfTwo_eq, Nat.div_le_iff_le_mul_add_pred (Nat.two_pow_pos _)]
  rcases Int.lt_or_le whole 7 with less | last
  · have great : 2 ^ 9 ≤ 2 ^ (shiftAmount value).toNat := Nat.pow_le_pow_right (by decide) (by omega)
    omega
  · have eight : 2 ^ (shiftAmount value).toNat = 256 := by
      rw [show shiftAmount value = 8 by omega]
      rfl
    have almost := approximation_almost_mono above (show fraction value ≤ -23341 by omega) (by decide)
    have limit : approximation (-23341) ≤ 1678000000 := by decide
    have slack_eq : slack = 65536 := rfl
    rw [eight]
    omega

/-- Negative powers have a greater shift. -/
theorem powerOfTwo_negative_le {value : Int} (low : -(5 * 65536) ≤ value) (negative : value < 0) :
    fixedPointPowerOfTwo value ≤ 92675 := by
  obtain ⟨whole, _, fraction_eq, above, below, shift⟩ := integerPart_spec value
  have bounds := approximation_bounds above below
  have shift := shift (by omega)
  have great : 2 ^ 15 ≤ 2 ^ (shiftAmount value).toNat := Nat.pow_le_pow_right (by decide) (by omega)
  rw [fixedPointPowerOfTwo_eq]
  calc (approximation (fraction value)).toNat / 2 ^ (shiftAmount value).toNat
      ≤ (approximation (fraction value)).toNat / 2 ^ 15 := Nat.div_le_div_left great (by decide)
    _ ≤ 92675 := by omega

/-- The target time lies between one second and ten minutes, and the smoothing factor is off or between one and ten. -/
structure TargetConfiguration.Bounded (config : TargetConfiguration) : Prop where
  second_le : 1000 ≤ config.blockGenerationTargetTime.millis.toInt
  le_minutes : config.blockGenerationTargetTime.millis.toInt ≤ 600000
  smoothing : config.blockTimeSmoothingFactor = 0 ∨
    (1000 ≤ config.blockTimeSmoothingFactor.toNat ∧ config.blockTimeSmoothingFactor.toNat ≤ 10000)

/-- Both targets exist and are ordered. -/
def NotAbove (lower upper : Except ArithmeticError BlockTarget) : Prop :=
  ∃ target greater, lower = .ok target ∧ upper = .ok greater ∧ target ≤ greater

/-- A hit is compared with the target as a wide value. -/
def Hits (hit : UInt64) (result : Except ArithmeticError BlockTarget) : Prop :=
  ∃ target, result = .ok target ∧ BitVec.ofNat 256 hit.toNat < target

theorem Hits.mono {hit : UInt64} {lower upper : Except ArithmeticError BlockTarget} (hits : Hits hit lower) (above : NotAbove lower upper) :
    Hits hit upper := by
  obtain ⟨target, ran, less⟩ := hits
  obtain ⟨_, greater, same, reached, le⟩ := above
  cases ran.symm.trans same
  exact ⟨greater, reached, BitVec.lt_def.mpr (Nat.lt_of_lt_of_le (BitVec.lt_def.mp less) (BitVec.le_def.mp le))⟩

/-- The values of a smoothing power stay in the ranges of their types. -/
structure InRange (power : Int) : Prop where
  fits : -2 ^ 127 ≤ power ∧ power < 2 ^ 127
  narrowed : -(5 * 65536) ≤ power → power ≤ fixedPointLog2Of100 → -2 ^ 31 ≤ power ∧ power < 2 ^ 31 ∧ 0 ≤ shiftAmount power ∧
    shiftAmount power < 32 ∧ 0 ≤ approximation (fraction power) ∧ approximation (fraction power) < 2 ^ 32
  capped : smootherOf power < 2 ^ 32

/-- The target behaves monotonously as long as no elapsed time is beyond a horizon. -/
structure TargetMonotone (config : TargetConfiguration) (horizon : TimeSpan) : Prop where
  inTime : ∀ (first second : TimeSpan) (difficulty : Difficulty) (importance : UInt64), first.seconds ≤ second.seconds →
    second.seconds ≤ horizon.seconds →
    NotAbove (calculateTarget first difficulty importance config) (calculateTarget second difficulty importance config)
  hitStays : ∀ (hit : UInt64) (first second : TimeSpan) (difficulty : Difficulty) (importance : UInt64), first.seconds ≤ second.seconds →
    second.seconds ≤ horizon.seconds → Hits hit (calculateTarget first difficulty importance config) →
    Hits hit (calculateTarget second difficulty importance config)
  inImportance : ∀ (elapsed : TimeSpan) (difficulty : Difficulty) (lower upper : UInt64), lower ≤ upper →
    elapsed.seconds ≤ horizon.seconds →
    NotAbove (calculateTarget elapsed difficulty lower config) (calculateTarget elapsed difficulty upper config)
  inDifficulty : ∀ (elapsed : TimeSpan) (lower upper : Difficulty) (importance : UInt64), lower.value ≤ upper.value →
    elapsed.seconds ≤ horizon.seconds →
    NotAbove (calculateTarget elapsed upper importance config) (calculateTarget elapsed lower importance config)
  inRange : ∀ elapsed : TimeSpan, elapsed.seconds ≤ horizon.seconds → config.blockTimeSmoothingFactor ≠ 0 →
    ∃ power, smoothingPower elapsed.seconds config = .ok power ∧ InRange power

section Power

/-- The power at a time, with the common factor of both times removed. -/
def powerAt (factor target time : Int) : Int := ((factor * (time - target)).tdiv target * 14426950408).tdiv 10000000000

variable {factor target time : Int} (positive : 0 < target)

include positive

theorem powerAt_mono {later : Int} (nonneg : 0 ≤ factor) (le : time ≤ later) :
    powerAt factor target time ≤ powerAt factor target later := by
  have product : factor * (time - target) ≤ factor * (later - target) := Int.mul_le_mul_of_nonneg_left (by omega) nonneg
  have quotient := Int.tdiv_le_tdiv positive product
  exact Int.tdiv_le_tdiv (by decide) (by omega)

theorem powerAt_nonneg (nonneg : 0 ≤ factor) (late : target ≤ time) : 0 ≤ powerAt factor target time := by
  have product : 0 ≤ factor * (time - target) := Int.mul_nonneg nonneg (by omega)
  have quotient := Int.tdiv_nonneg product (Int.le_of_lt positive)
  exact Int.tdiv_nonneg (by omega) (by decide)

/-- The power is below the upper cap only for a few target times. -/
theorem time_le_of_powerAt_le (great : 65536 ≤ factor) (short : target ≤ 600) (capped : powerAt factor target time ≤ fixedPointLog2Of100) :
    time ≤ 3400 := by
  by_contra late
  have product : 65536 * (time - target) ≤ factor * (time - target) := Int.mul_le_mul_of_nonneg_right great (by omega)
  have bounds := tdiv_bounds (show 0 ≤ factor * (time - target) by omega) positive
  have quotient := Int.tdiv_nonneg (show 0 ≤ factor * (time - target) by omega) (Int.le_of_lt positive)
  unfold powerAt fixedPointLog2Of100 at capped
  generalize (factor * (time - target)).tdiv target = power at *
  have scaled := tdiv_bounds (show 0 ≤ power * 14426950408 by omega) (show (0 : Int) < 10000000000 by decide)
  have small : power ≤ 301806 := by omega
  have multiple : target * power ≤ target * 301806 := Int.mul_le_mul_of_nonneg_left small (Int.le_of_lt positive)
  omega

theorem powerAt_zero_neg (great : 65536 ≤ factor) : powerAt factor target 0 < 0 := by
  have product : factor * (0 - target) = -(factor * target) := by ring
  have scaled := tdiv_bounds (show 0 ≤ factor * 14426950408 by omega) (show (0 : Int) < 10000000000 by decide)
  rw [powerAt, product, Int.neg_tdiv, Int.mul_tdiv_cancel _ (Int.ne_of_gt positive), Int.neg_mul, Int.neg_tdiv]
  omega

end Power

/-- The smoother is at most a little above its cap. -/
theorem smootherOf_le (power : Int) : smootherOf power ≤ 6555000 := by
  unfold smootherOf
  split
  · decide
  · split
    · decide
    · exact powerOfTwo_le (by omega) (by omega)

theorem smootherOf_negative_le {power : Int} (negative : power < 0) : smootherOf power ≤ 92675 := by
  unfold smootherOf
  split
  · decide
  · rw [if_neg (show ¬ fixedPointLog2Of100 < power by unfold fixedPointLog2Of100; omega)]
    exact powerOfTwo_negative_le (by omega) negative

theorem inRange_of_bounds {power : Int} (low : -2 ^ 127 ≤ power) (high : power < 2 ^ 127) : InRange power where
  fits := ⟨low, high⟩
  narrowed above below := by
    obtain ⟨_, _, _, left, right, _⟩ := integerPart_spec power
    have shift := shiftAmount_bounds above below
    have bounds := approximation_bounds left right
    unfold fixedPointLog2Of100 at below
    refine ⟨?_, ?_, ?_, ?_, ?_, ?_⟩ <;> omega
  capped := Nat.lt_of_le_of_lt (smootherOf_le power) (by decide)

theorem powerAt_inRange {factor target time : Int} (nonneg : 0 ≤ factor) (small : factor ≤ 2 ^ 20) (start : 0 ≤ time)
    (early : time < 2 ^ 48) (positive : 0 < target) (short : target ≤ 600) : InRange (powerAt factor target time) := by
  have low : -(2 ^ 20 * 600) ≤ factor * (time - target) := by nlinarith
  have high : factor * (time - target) ≤ 2 ^ 20 * 2 ^ 48 := by nlinarith
  have quotient := Int.natAbs_tdiv_le_natAbs (factor * (time - target)) target
  have scaled := Int.natAbs_tdiv_le_natAbs ((factor * (time - target)).tdiv target * 14426950408) 10000000000
  apply inRange_of_bounds
  · unfold powerAt
    omega
  · unfold powerAt
    omega

/-- The target grows with the time even where the smoother falls a little. -/
theorem weighted_smoother_le {factor target : Int} {time later : Nat} (positive : 0 < target) (short : target ≤ 600)
    (great : 65536 ≤ factor) (before : time < later) :
    time * smootherOf (powerAt factor target time) ≤ later * smootherOf (powerAt factor target later) := by
  have grown : powerAt factor target time ≤ powerAt factor target later :=
    powerAt_mono positive (by omega) (Int.ofNat_le.mpr (Nat.le_of_lt before))
  unfold smootherOf
  by_cases low : -(5 * 65536) > powerAt factor target time
  · rw [if_pos low, Nat.mul_zero]
    exact Nat.zero_le _
  · rw [if_neg low, if_neg (show ¬ -(5 * 65536) > powerAt factor target later by omega)]
    by_cases capped : fixedPointLog2Of100 < powerAt factor target time
    · rw [if_pos capped, if_pos (by omega)]
      exact Nat.mul_le_mul_right _ (Nat.le_of_lt before)
    · rw [if_neg capped]
      have early := time_le_of_powerAt_le positive great short (Int.not_lt.mp capped)
      by_cases above : fixedPointLog2Of100 < powerAt factor target later
      · -- the cap is a little lower than the approximation below it
        rw [if_pos above]
        have limit := powerOfTwo_le (Int.not_lt.mp low) (Int.not_lt.mp capped)
        calc time * fixedPointPowerOfTwo (powerAt factor target time)
            ≤ time * 6555000 := Nat.mul_le_mul_left _ limit
          _ ≤ later * (100 * 65536) := by omega
      · rw [if_neg above]
        refine weighted_powerOfTwo_le (Int.not_lt.mp low) grown (Int.not_lt.mp above) before (by omega) fun negative => ?_
        by_contra late
        have nonneg := @powerAt_nonneg factor target later positive (show 0 ≤ factor by omega) (by omega)
        omega

section Words

theorem ofInt_natCast (value : Nat) : UInt64.ofInt value = UInt64.ofNat value := by
  apply UInt64.toNat_inj.mp
  rw [UInt64.ofInt, UInt64.toNat_ofNat', UInt64.toNat_ofNat']
  omega

theorem seconds_fromSeconds {seconds : UInt64} (fits : seconds.toNat < 2 ^ 53) : (TimeSpan.fromSeconds seconds).seconds = seconds := by
  have widened : (Int64.ofInt (seconds.toNat * 1000)).toInt = seconds.toNat * 1000 :=
    Int64.toInt_ofInt_of_le (by omega) (by omega)
  rw [TimeSpan.seconds, TimeSpan.fromSeconds, widened, Int.mul_tdiv_cancel _ (by decide), ofInt_natCast, UInt64.ofNat_toNat]

theorem fixedPointTime_eq (seconds : UInt64) : fixedPointTime seconds = ((seconds.toNat % 2 ^ 48 : Nat) : Int) * 65536 := by
  have shifted : (seconds <<< 16).toNat = seconds.toNat % 2 ^ 48 * 65536 := by
    rw [UInt64.toNat_shiftLeft, Nat.shiftLeft_eq]
    change seconds.toNat * 2 ^ 16 % 2 ^ 64 = _
    omega
  rw [fixedPointTime, shifted]
  rfl

variable {config : TargetConfiguration} (bounded : config.Bounded)

include bounded

theorem targetSeconds_bounds :
    1 ≤ config.blockGenerationTargetTime.seconds.toNat ∧ config.blockGenerationTargetTime.seconds.toNat ≤ 600 := by
  have low := bounded.second_le
  have high := bounded.le_minutes
  have quotient := tdiv_bounds (show 0 ≤ config.blockGenerationTargetTime.millis.toInt by omega) (show (0 : Int) < 1000 by decide)
  obtain ⟨seconds, whole⟩ : ∃ seconds : Nat, config.blockGenerationTargetTime.millis.toInt.tdiv 1000 = seconds :=
    ⟨_, (Int.toNat_of_nonneg (by omega)).symm⟩
  rw [TimeSpan.seconds, whole, ofInt_natCast, UInt64.toNat_ofNat_of_lt' (by change _ < 2 ^ 64; omega)]
  omega

theorem smoothingFactor_bounds (smoothed : config.blockTimeSmoothingFactor ≠ 0) :
    65536 ≤ smoothingFactor config ∧ smoothingFactor config ≤ 2 ^ 20 := by
  obtain off | range := bounded.smoothing
  · exact absurd off smoothed
  · have shifted : (config.blockTimeSmoothingFactor <<< 16).toNat = config.blockTimeSmoothingFactor.toNat * 65536 := by
      rw [UInt32.toNat_shiftLeft, Nat.shiftLeft_eq]
      change config.blockTimeSmoothingFactor.toNat * 2 ^ 16 % 2 ^ 32 = _
      omega
    rw [smoothingFactor, shifted]
    change 65536 ≤ _ / 65536000 ∧ _ / 65536000 ≤ _
    omega

/-- The power depends on the elapsed seconds that are left after the shift. -/
theorem smoothingPower_eq (timeDiff : UInt64) : smoothingPower timeDiff config =
    .ok (powerAt (smoothingFactor config) config.blockGenerationTargetTime.seconds.toNat (timeDiff.toNat % 2 ^ 48 : Nat)) := by
  obtain ⟨positive, short⟩ := targetSeconds_bounds bounded
  have target : fixedPointTime config.blockGenerationTargetTime.seconds = config.blockGenerationTargetTime.seconds.toNat * 65536 := by
    rw [fixedPointTime_eq, Nat.mod_eq_of_lt (by omega)]
  have difference : (smoothingFactor config : Int) * ((timeDiff.toNat % 2 ^ 48 : Nat) * 65536 -
      config.blockGenerationTargetTime.seconds.toNat * 65536) =
      smoothingFactor config * ((timeDiff.toNat % 2 ^ 48 : Nat) - config.blockGenerationTargetTime.seconds.toNat) * 65536 := by
    ring
  unfold smoothingPower
  rw [target, fixedPointTime_eq timeDiff, if_neg (by omega)]
  dsimp only
  rw [difference, Int.mul_tdiv_mul_of_pos_left _ _ (by decide)]
  rfl

/-- The smoother is that of the power, unless smoothing is off. -/
theorem smoother_eq (timeDiff : UInt64) : smoother timeDiff config = .ok (if config.blockTimeSmoothingFactor = 0 then 65536
      else smootherOf (powerAt (smoothingFactor config) config.blockGenerationTargetTime.seconds.toNat (timeDiff.toNat % 2 ^ 48 : Nat))) := by
  unfold smoother
  by_cases off : config.blockTimeSmoothingFactor = 0
  · rw [if_neg (not_not.mpr off), if_pos off]
  · rw [if_pos off, if_neg off, smoothingPower_eq bounded]
    rfl

end Words

/-- The target as an unbounded number. -/
def exactTarget (seconds importance smoother total difficulty : Nat) : Nat :=
  seconds * importance * (smoother * 2 ^ 48) * 8999999998 / total / difficulty

theorem toNat_word (value : UInt64) : (BitVec.ofNat 256 value.toNat).toNat = value.toNat := by
  have small := value.toNat_lt
  rw [BitVec.toNat_ofNat, Nat.mod_eq_of_lt (by omega)]

/-- No product leaves the range of a target. -/
theorem calculateTarget_eq {config : TargetConfiguration} {elapsed : TimeSpan} {multiplier : Nat} (difficulty : Difficulty)
    (importance : UInt64) (positive : config.totalChainImportance ≠ 0) (smoothed : smoother elapsed.seconds config = .ok multiplier)
    (small : multiplier ≤ 6555000) : ∃ target, calculateTarget elapsed difficulty importance config = .ok target ∧
      target.toNat = exactTarget elapsed.seconds.toNat importance.toNat multiplier config.totalChainImportance.toNat difficulty.value.toNat := by
  have seconds_lt := elapsed.seconds.toNat_lt
  have importance_lt := importance.toNat_lt
  have shifted : (UInt64.ofNat multiplier <<< 38).toNat = multiplier * 2 ^ 38 := by
    rw [UInt64.toNat_shiftLeft, Nat.shiftLeft_eq, UInt64.toNat_ofNat_of_lt' (by change _ < 2 ^ 64; omega)]
    change multiplier * 2 ^ 38 % 2 ^ 64 = _
    omega
  have multiplied : ((BitVec.ofNat 256 (UInt64.ofNat multiplier <<< 38).toNat) <<< 10).toNat = multiplier * 2 ^ 48 := by
    rw [shifted, BitVec.toNat_shiftLeft, Nat.shiftLeft_eq, BitVec.toNat_ofNat]
    omega
  have first : elapsed.seconds.toNat * importance.toNat ≤ 2 ^ 64 * 2 ^ 64 :=
    Nat.mul_le_mul (Nat.le_of_lt seconds_lt) (Nat.le_of_lt importance_lt)
  have second : elapsed.seconds.toNat * importance.toNat * (multiplier * 2 ^ 48) ≤ 2 ^ 64 * 2 ^ 64 * (6555000 * 2 ^ 48) :=
    Nat.mul_le_mul first (Nat.mul_le_mul_right _ small)
  have one : (BitVec.ofNat 256 elapsed.seconds.toNat * BitVec.ofNat 256 importance.toNat).toNat = elapsed.seconds.toNat * importance.toNat := by
    rw [BitVec.toNat_mul_of_lt, toNat_word, toNat_word]
    rw [toNat_word, toNat_word]
    omega
  have two : (BitVec.ofNat 256 elapsed.seconds.toNat * BitVec.ofNat 256 importance.toNat *
      (BitVec.ofNat 256 (UInt64.ofNat multiplier <<< 38).toNat) <<< 10).toNat =
      elapsed.seconds.toNat * importance.toNat * (multiplier * 2 ^ 48) := by
    rw [BitVec.toNat_mul_of_lt, one, multiplied]
    rw [one, multiplied]
    omega
  have three : (scaledTarget elapsed.seconds importance ((BitVec.ofNat 256 (UInt64.ofNat multiplier <<< 38).toNat) <<< 10)).toNat =
      elapsed.seconds.toNat * importance.toNat * (multiplier * 2 ^ 48) * 8999999998 := by
    rw [scaledTarget, BitVec.toNat_mul_of_lt, two]
    · rfl
    · rw [two]
      change _ * 8999999998 < _
      omega
  refine ⟨scaledTarget elapsed.seconds importance ((BitVec.ofNat 256 (UInt64.ofNat multiplier <<< 38).toNat) <<< 10) /
    BitVec.ofNat 256 config.totalChainImportance.toNat / BitVec.ofNat 256 difficulty.value.toNat, ?_, ?_⟩
  · unfold calculateTarget getMultiplier
    rw [smoothed]
    exact if_neg positive
  · rw [BitVec.toNat_udiv, BitVec.toNat_udiv, toNat_word, toNat_word, three, exactTarget]

theorem exactTarget_mono {seconds later importance greater smoother higher : Nat} (total difficulty : Nat)
    (weighted : seconds * smoother ≤ later * higher) (le : importance ≤ greater) :
    exactTarget seconds importance smoother total difficulty ≤ exactTarget later greater higher total difficulty := by
  have product : seconds * importance * (smoother * 2 ^ 48) * 8999999998 ≤ later * greater * (higher * 2 ^ 48) * 8999999998 := by
    calc seconds * importance * (smoother * 2 ^ 48) * 8999999998
        = seconds * smoother * (importance * (2 ^ 48 * 8999999998)) := by ring
      _ ≤ later * higher * (greater * (2 ^ 48 * 8999999998)) := Nat.mul_le_mul weighted (Nat.mul_le_mul_right _ le)
      _ = _ := by ring
  exact Nat.div_le_div_right (Nat.div_le_div_right product)

theorem exactTarget_anti {lower upper : Nat} (seconds importance smoother total : Nat) (positive : 0 < lower) (le : lower ≤ upper) :
    exactTarget seconds importance smoother total upper ≤ exactTarget seconds importance smoother total lower :=
  Nat.div_le_div_left le positive

theorem exactTarget_wrapped_lt {total smoother : Nat} (positive : 0 < total) (fits : total < 2 ^ 64) (small : smoother ≤ 92675) :
    exactTarget (2 ^ 48) 1 smoother total 10000000000000 < exactTarget (2 ^ 48 - 1) 1 (100 * 65536) total 10000000000000 := by
  unfold exactTarget
  rw [Nat.div_div_eq_div_mul, Nat.div_div_eq_div_mul]
  have divisor : 0 < total * 10000000000000 := by omega
  calc 2 ^ 48 * 1 * (smoother * 2 ^ 48) * 8999999998 / (total * 10000000000000)
      < 2 ^ 48 * 1 * (smoother * 2 ^ 48) * 8999999998 / (total * 10000000000000) + 1 := Nat.lt_succ_self _
    _ = (2 ^ 48 * 1 * (smoother * 2 ^ 48) * 8999999998 + total * 10000000000000) / (total * 10000000000000) :=
        (Nat.add_div_right _ divisor).symm
    _ ≤ _ := Nat.div_le_div_right (by omega)

section Monotonicity

variable {config : TargetConfiguration} (bounded : config.Bounded)

include bounded

/-- The smoother that belongs to a number of elapsed seconds. -/
def smootherAt (config : TargetConfiguration) (seconds : Nat) : Nat :=
  if config.blockTimeSmoothingFactor = 0 then 65536
  else smootherOf (powerAt (smoothingFactor config) config.blockGenerationTargetTime.seconds.toNat (seconds % 2 ^ 48 : Nat))

omit bounded in
theorem smootherAt_le (config : TargetConfiguration) (seconds : Nat) : smootherAt config seconds ≤ 6555000 := by
  unfold smootherAt
  split
  · decide
  · exact smootherOf_le _

theorem exists_target (positive : config.totalChainImportance ≠ 0) (elapsed : TimeSpan) (difficulty : Difficulty) (importance : UInt64) :
    ∃ target, calculateTarget elapsed difficulty importance config = .ok target ∧
      target.toNat = exactTarget elapsed.seconds.toNat importance.toNat (smootherAt config elapsed.seconds.toNat)
        config.totalChainImportance.toNat difficulty.value.toNat :=
  calculateTarget_eq difficulty importance positive (smoother_eq bounded _) (smootherAt_le config _)

/-- The weighted smoother grows as long as the shifted times fit into 64 bits. -/
theorem weighted_smootherAt_le {seconds later : Nat} (le : seconds ≤ later)
    (fits : config.blockTimeSmoothingFactor = 0 ∨ later < 2 ^ 48) :
    seconds * smootherAt config seconds ≤ later * smootherAt config later := by
  obtain rfl | before := Nat.eq_or_lt_of_le le
  · exact Nat.le_refl _
  · unfold smootherAt
    by_cases off : config.blockTimeSmoothingFactor = 0
    · rw [if_pos off, if_pos off]
      exact Nat.mul_le_mul_right _ le
    · have short := fits.resolve_left off
      obtain ⟨positive, limit⟩ := targetSeconds_bounds bounded
      obtain ⟨great, _⟩ := smoothingFactor_bounds bounded off
      rw [if_neg off, if_neg off, Nat.mod_eq_of_lt (Nat.lt_trans before short), Nat.mod_eq_of_lt short]
      exact weighted_smoother_le (by omega) (by omega) (by omega) before

/-- A later target is not lower as long as the shift can represent its time. -/
theorem notAbove_later (positive : config.totalChainImportance ≠ 0) {horizon first second : TimeSpan}
    (fits : config.blockTimeSmoothingFactor = 0 ∨ horizon.seconds.toNat < 2 ^ 48) (difficulty : Difficulty) (importance : UInt64)
    (le : first.seconds ≤ second.seconds) (early : second.seconds ≤ horizon.seconds) :
    NotAbove (calculateTarget first difficulty importance config) (calculateTarget second difficulty importance config) := by
  obtain ⟨target, ran, exact⟩ := exists_target bounded positive first difficulty importance
  obtain ⟨greater, ran', exact'⟩ := exists_target bounded positive second difficulty importance
  have before : second.seconds.toNat ≤ horizon.seconds.toNat := UInt64.le_iff_toNat_le.mp early
  have weighted := weighted_smootherAt_le bounded (UInt64.le_iff_toNat_le.mp le)
    (fits.imp_right fun short => Nat.lt_of_le_of_lt before short)
  refine ⟨target, greater, ran, ran', BitVec.le_def.mpr ?_⟩
  rw [exact, exact']
  exact exactTarget_mono _ _ weighted (Nat.le_refl _)

/-- The target behaves monotonously up to a horizon that the shift of the elapsed time can represent. -/
theorem targetMonotone_of_fits (positive : config.totalChainImportance ≠ 0) {horizon : TimeSpan}
    (fits : config.blockTimeSmoothingFactor = 0 ∨ horizon.seconds.toNat < 2 ^ 48) : TargetMonotone config horizon where
  inTime first second difficulty importance le early := notAbove_later bounded positive fits difficulty importance le early
  hitStays hit first second difficulty importance le early hits :=
    hits.mono (notAbove_later bounded positive fits difficulty importance le early)
  inImportance elapsed difficulty lower upper le _ := by
    obtain ⟨target, ran, exact⟩ := exists_target bounded positive elapsed difficulty lower
    obtain ⟨greater, ran', exact'⟩ := exists_target bounded positive elapsed difficulty upper
    refine ⟨target, greater, ran, ran', BitVec.le_def.mpr ?_⟩
    rw [exact, exact']
    exact exactTarget_mono _ _ (Nat.le_refl _) (UInt64.le_iff_toNat_le.mp le)
  inDifficulty elapsed lower upper importance le _ := by
    obtain ⟨target, ran, exact⟩ := exists_target bounded positive elapsed upper importance
    obtain ⟨greater, ran', exact'⟩ := exists_target bounded positive elapsed lower importance
    have minimum := UInt64.le_iff_toNat_le.mp lower.min_le
    refine ⟨target, greater, ran, ran', BitVec.le_def.mpr ?_⟩
    rw [exact, exact']
    exact exactTarget_anti _ _ _ _ (Nat.lt_of_lt_of_le (by decide) minimum) (UInt64.le_iff_toNat_le.mp le)
  inRange elapsed early smoothed := by
    obtain ⟨one_le, limit⟩ := targetSeconds_bounds bounded
    obtain ⟨great, small⟩ := smoothingFactor_bounds bounded smoothed
    exact ⟨_, smoothingPower_eq bounded _, powerAt_inRange (by omega) (by omega) (by omega) (by omega) (by omega) (by omega)⟩

/-- The last second before the shift overflows reaches the cap. -/
theorem smootherAt_last (smoothed : config.blockTimeSmoothingFactor ≠ 0) : smootherAt config (2 ^ 48 - 1) = 100 * 65536 := by
  obtain ⟨positive, limit⟩ := targetSeconds_bounds bounded
  obtain ⟨great, _⟩ := smoothingFactor_bounds bounded smoothed
  have capped : fixedPointLog2Of100 <
      powerAt (smoothingFactor config) config.blockGenerationTargetTime.seconds.toNat ((2 ^ 48 - 1) % 2 ^ 48 : Nat) := by
    by_contra below
    have early := time_le_of_powerAt_le (by omega) (by omega) (by omega) (Int.not_lt.mp below)
    omega
  rw [smootherAt, if_neg smoothed, smootherOf, if_neg (show ¬ -(5 * 65536) > _ by unfold fixedPointLog2Of100 at capped; omega), if_pos capped]

/-- The shift makes the elapsed time start again from zero. -/
theorem smootherAt_wrapped_le (smoothed : config.blockTimeSmoothingFactor ≠ 0) : smootherAt config (2 ^ 48) ≤ 92675 := by
  obtain ⟨positive, limit⟩ := targetSeconds_bounds bounded
  obtain ⟨great, _⟩ := smoothingFactor_bounds bounded smoothed
  rw [smootherAt, if_neg smoothed]
  exact smootherOf_negative_le (powerAt_zero_neg (by omega) (by omega))

/-- The target of the first second that the shift cannot represent is lower than the one before. -/
theorem target_falls (positive : config.totalChainImportance ≠ 0) (smoothed : config.blockTimeSmoothingFactor ≠ 0) :
    ¬ NotAbove (calculateTarget (.fromSeconds (2 ^ 48 - 1)) (.ofValue 0) 1 config)
      (calculateTarget (.fromSeconds (2 ^ 48)) (.ofValue 0) 1 config) := by
  rintro ⟨target, greater, ran, ran', le⟩
  obtain ⟨_, same, exact⟩ := exists_target bounded positive (.fromSeconds (2 ^ 48 - 1)) (.ofValue 0) 1
  obtain ⟨_, same', exact'⟩ := exists_target bounded positive (.fromSeconds (2 ^ 48)) (.ofValue 0) 1
  cases ran.symm.trans same
  cases ran'.symm.trans same'
  have before : (TimeSpan.fromSeconds (2 ^ 48 - 1)).seconds.toNat = 2 ^ 48 - 1 := by
    rw [seconds_fromSeconds (by decide)]
    rfl
  have wrapped : (TimeSpan.fromSeconds (2 ^ 48)).seconds.toNat = 2 ^ 48 := by
    rw [seconds_fromSeconds (by decide)]
    rfl
  have total : 0 < config.totalChainImportance.toNat := Nat.pos_of_ne_zero fun zero => positive (UInt64.toNat_inj.mp zero)
  have falls := exactTarget_wrapped_lt total config.totalChainImportance.toNat_lt (smootherAt_wrapped_le bounded smoothed)
  rw [before, smootherAt_last bounded smoothed] at exact
  rw [wrapped] at exact'
  have order := BitVec.le_def.mp le
  rw [exact, exact'] at order
  exact Nat.not_lt.mpr order falls

/-- The target behaves monotonously exactly up to the horizons that the shift of the elapsed time can represent. -/
theorem targetMonotone_iff (horizon : TimeSpan) : TargetMonotone config horizon ↔
    config.totalChainImportance ≠ 0 ∧ (config.blockTimeSmoothingFactor = 0 ∨ horizon.seconds.toNat < 2 ^ 48) := by
  constructor
  · intro monotone
    have positive : config.totalChainImportance ≠ 0 := by
      intro zero
      obtain ⟨target, _, ran, _⟩ := monotone.inTime horizon horizon (.ofValue 0) 1 (UInt64.le_refl _) (UInt64.le_refl _)
      unfold calculateTarget getMultiplier at ran
      rw [smoother_eq bounded] at ran
      change (if config.totalChainImportance = 0 then _ else _) = _ at ran
      rw [if_pos zero] at ran
      cases ran
    refine ⟨positive, ?_⟩
    by_contra neither
    rw [not_or, Nat.not_lt] at neither
    obtain ⟨smoothed, late⟩ := neither
    have seconds : (TimeSpan.fromSeconds (2 ^ 48)).seconds = 2 ^ 48 := seconds_fromSeconds (by decide)
    refine target_falls bounded positive smoothed (monotone.inTime _ _ _ _ ?_ ?_)
    · rw [seconds, seconds_fromSeconds (by decide)]
      decide
    · rw [seconds, UInt64.le_iff_toNat_le]
      exact late
  · rintro ⟨positive, fits⟩
    exact targetMonotone_of_fits bounded positive fits

end Monotonicity

namespace Samples

def smoothedConfiguration : TargetConfiguration := ⟨⟨15000⟩, 3000, 9000000000⟩

theorem smoothedConfiguration_bounded : smoothedConfiguration.Bounded := ⟨by decide, by decide, .inr (by decide)⟩

/-- For one hour the condition concerns the importance and the smoothing. -/
theorem targetMonotone_iff_smoothed : TargetMonotone smoothedConfiguration (.fromSeconds 3600) ↔
    smoothedConfiguration.totalChainImportance ≠ 0 ∧
      (smoothedConfiguration.blockTimeSmoothingFactor = 0 ∨ (TimeSpan.fromSeconds 3600).seconds.toNat < 2 ^ 48) :=
  targetMonotone_iff smoothedConfiguration_bounded (.fromSeconds 3600)

/-- One second after the last second that the shift can represent the target is lower. -/
theorem smoothed_target_falls : smoothedConfiguration.Bounded ∧ ∃ (difficulty : Difficulty) (importance : UInt64),
    ¬ NotAbove (calculateTarget (.fromSeconds 281474976710655) difficulty importance smoothedConfiguration)
      (calculateTarget (.fromSeconds 281474976710656) difficulty importance smoothedConfiguration) :=
  ⟨smoothedConfiguration_bounded, .ofValue 0, 1, target_falls smoothedConfiguration_bounded (by decide) (by decide)⟩

end Samples

end Catapult.Chain
