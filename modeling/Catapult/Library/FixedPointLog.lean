import Mathlib.Data.Nat.Log
import Mathlib.Tactic.Linarith
import Mathlib.Tactic.Ring

/-
This file develops the binary logarithm that squares a fixed point value once for each coefficient.
-/

namespace FixedPointLog

/-- The coefficients found so far stand before the value that is still to be squared. -/
structure Extraction where
  rest : Nat
  coefficients : Nat
  deriving DecidableEq

/-- The rest lies between one and two. -/
structure Normal (precision : Nat) (extraction : Extraction) : Prop where
  one_le : 2 ^ precision ≤ extraction.rest
  lt_two : extraction.rest < 2 ^ (precision + 1)

def square (precision : Nat) (extraction : Extraction) : Extraction :=
  let squared := extraction.rest * extraction.rest / 2 ^ precision
  if 2 ^ (precision + 1) ≤ squared then ⟨squared / 2, 2 * extraction.coefficients + 1⟩
  else ⟨squared, 2 * extraction.coefficients⟩

def start (precision value : Nat) : Extraction :=
  ⟨value * 2 ^ (precision - Nat.log 2 value), Nat.log 2 value⟩

/-- The logarithm is scaled by a power of two. -/
def log (precision rounds value : Nat) : Nat :=
  ((square precision)^[rounds] (start precision value)).coefficients

/-- The extractions are ordered by the coefficients and then by the rest. -/
def Before (earlier later : Extraction) : Prop :=
  earlier.coefficients < later.coefficients ∨ (earlier.coefficients = later.coefficients ∧ earlier.rest ≤ later.rest)

section Rounds

variable {precision : Nat} {extraction earlier later : Extraction}

theorem Normal.squared_lt (normal : Normal precision extraction) :
    extraction.rest * extraction.rest / 2 ^ precision < 2 ^ (precision + 2) := by
  have positive : 0 < 2 ^ precision := Nat.two_pow_pos precision
  apply Nat.div_lt_of_lt_mul
  calc extraction.rest * extraction.rest
      < 2 ^ (precision + 1) * 2 ^ (precision + 1) := Nat.mul_self_lt_mul_self normal.lt_two
    _ = 2 ^ precision * 2 ^ (precision + 2) := by ring

theorem Normal.le_squared (normal : Normal precision extraction) :
    2 ^ precision ≤ extraction.rest * extraction.rest / 2 ^ precision := by
  rw [Nat.le_div_iff_mul_le (Nat.two_pow_pos precision)]
  exact Nat.mul_self_le_mul_self normal.one_le

theorem Normal.square (normal : Normal precision extraction) : Normal precision (square precision extraction) := by
  have upper := normal.squared_lt
  have lower := normal.le_squared
  have double : 2 ^ (precision + 1) = 2 * 2 ^ precision := by ring
  have quadruple : 2 ^ (precision + 2) = 4 * 2 ^ precision := by ring
  unfold FixedPointLog.square
  dsimp only
  split
  · exact ⟨by dsimp only; omega, by dsimp only; omega⟩
  · exact ⟨lower, by dsimp only; omega⟩

theorem square_coefficients_le (precision : Nat) (extraction : Extraction) :
    2 * extraction.coefficients ≤ (square precision extraction).coefficients ∧
      (square precision extraction).coefficients ≤ 2 * extraction.coefficients + 1 := by
  unfold square
  dsimp only
  split
  · exact ⟨Nat.le_succ _, Nat.le_refl _⟩
  · exact ⟨Nat.le_refl _, Nat.le_succ _⟩

theorem Before.square (before : Before earlier later) : Before (square precision earlier) (square precision later) := by
  obtain smaller | ⟨same, rests⟩ := before
  · have upper := (square_coefficients_le precision earlier).2
    have lower := (square_coefficients_le precision later).1
    exact .inl (by omega)
  · have squares : earlier.rest * earlier.rest / 2 ^ precision ≤ later.rest * later.rest / 2 ^ precision :=
      Nat.div_le_div_right (Nat.mul_self_le_mul_self rests)
    unfold FixedPointLog.square
    dsimp only
    split
    · rw [if_pos (Nat.le_trans ‹_› squares)]
      exact .inr ⟨by dsimp only; omega, Nat.div_le_div_right squares⟩
    · split
      · exact .inl (by dsimp only; omega)
      · exact .inr ⟨by dsimp only; omega, squares⟩

theorem Normal.iterate (normal : Normal precision extraction) (rounds : Nat) :
    Normal precision ((FixedPointLog.square precision)^[rounds] extraction) := by
  induction rounds with
  | zero => exact normal
  | succ rounds ih =>
    rw [Function.iterate_succ_apply']
    exact ih.square

theorem Before.iterate (before : Before earlier later) (precision rounds : Nat) :
    Before ((FixedPointLog.square precision)^[rounds] earlier)
      ((FixedPointLog.square precision)^[rounds] later) := by
  induction rounds with
  | zero => exact before
  | succ rounds ih =>
    rw [Function.iterate_succ_apply', Function.iterate_succ_apply']
    exact ih.square

theorem iterate_coefficients (precision : Nat) (extraction : Extraction) (rounds : Nat) :
    extraction.coefficients * 2 ^ rounds ≤ ((square precision)^[rounds] extraction).coefficients ∧
      ((square precision)^[rounds] extraction).coefficients < (extraction.coefficients + 1) * 2 ^ rounds := by
  induction rounds with
  | zero => simp
  | succ rounds ih =>
    have bounds := square_coefficients_le precision ((square precision)^[rounds] extraction)
    rw [Function.iterate_succ_apply', Nat.pow_succ]
    constructor
    · linarith
    · linarith

end Rounds

variable {precision value larger : Nat}

theorem log_two_le (small : value < 2 ^ (precision + 1)) : Nat.log 2 value ≤ precision := by
  obtain rfl | positive := Nat.eq_zero_or_pos value
  · simp
  · exact Nat.lt_succ_iff.mp (Nat.log_lt_of_lt_pow (Nat.ne_of_gt positive) small)

theorem normal_start (positive : 0 < value) (small : value < 2 ^ (precision + 1)) : Normal precision (start precision value) := by
  have digits := log_two_le small
  have lower := Nat.pow_log_le_self 2 (Nat.ne_of_gt positive)
  have upper := Nat.lt_pow_succ_log_self (Nat.one_lt_two) value
  constructor
  · calc 2 ^ precision = 2 ^ Nat.log 2 value * 2 ^ (precision - Nat.log 2 value) := by
          rw [← Nat.pow_add, Nat.add_sub_cancel' digits]
      _ ≤ value * 2 ^ (precision - Nat.log 2 value) := Nat.mul_le_mul_right _ lower
  · calc value * 2 ^ (precision - Nat.log 2 value)
        < 2 ^ (Nat.log 2 value + 1) * 2 ^ (precision - Nat.log 2 value) :=
          Nat.mul_lt_mul_of_pos_right upper (Nat.two_pow_pos _)
      _ = 2 ^ (precision + 1) := by
          rw [← Nat.pow_add]
          congr 1
          omega

theorem before_start (ordered : value ≤ larger) : Before (start precision value) (start precision larger) := by
  obtain smaller | same := Nat.lt_or_eq_of_le (Nat.log_mono_right (b := 2) ordered)
  · exact .inl smaller
  · refine .inr ⟨same, ?_⟩
    rw [start, start, same]
    exact Nat.mul_le_mul_right _ ordered

theorem log_mono (precision rounds : Nat) (ordered : value ≤ larger) :
    log precision rounds value ≤ log precision rounds larger := by
  obtain smaller | ⟨same, _⟩ := (before_start ordered).iterate precision rounds
  · exact Nat.le_of_lt smaller
  · exact Nat.le_of_eq same

/-- The integral part of the logarithm stands before the coefficients. -/
theorem log_bounds (precision rounds value : Nat) : Nat.log 2 value * 2 ^ rounds ≤ log precision rounds value ∧
      log precision rounds value < (Nat.log 2 value + 1) * 2 ^ rounds :=
  iterate_coefficients precision (start precision value) rounds

end FixedPointLog
