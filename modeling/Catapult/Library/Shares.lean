import Mathlib.Algebra.BigOperators.Ring.List
import Mathlib.Algebra.Ring.Nat

/-
This file develops shares of a total in proportion to weights that are rounded down.
-/

namespace Shares

/-- Rounding the parts down loses at least as much as rounding the sum down. -/
theorem sum_div_le (divisor : Nat) (parts : List Nat) : (parts.map fun part => part / divisor).sum ≤ parts.sum / divisor := by
  induction parts with
  | nil => exact Nat.zero_le _
  | cons part parts ih =>
    rw [List.map_cons, List.sum_cons, List.sum_cons]
    exact (Nat.add_le_add_left ih _).trans Nat.div_add_div_le_add_div

/-- The shares of all weights are at most the total. -/
theorem sum_shares_le (total scale : Nat) (weights : List Nat) :
    (weights.map fun weight => total * weight / (weights.sum * scale)).sum ≤ total / scale := by
  have together := sum_div_le (weights.sum * scale) (weights.map fun weight => total * weight)
  rw [List.map_map, List.sum_map_mul_left, List.map_id'] at together
  refine together.trans ?_
  rcases Nat.eq_zero_or_pos weights.sum with zero | positive
  · rw [zero, Nat.mul_zero, Nat.zero_div]
    exact Nat.zero_le _
  · rw [Nat.mul_comm total, Nat.mul_div_mul_left _ _ positive]

/-- A greater weight has a greater share when the other weights are fixed. -/
theorem share_mono (total scale rest : Nat) {small large : Nat} (le : small ≤ large) (positive : 0 < small) (scaled : 0 < scale) :
    total * small / ((rest + small) * scale) ≤ total * large / ((rest + large) * scale) := by
  have smallDivisor : 0 < (rest + small) * scale := Nat.mul_pos (Nat.add_pos_right _ positive) scaled
  have largeDivisor : 0 < (rest + large) * scale := Nat.mul_pos (Nat.add_pos_right _ (positive.trans_le le)) scaled
  rw [Nat.le_div_iff_mul_le largeDivisor]
  refine Nat.le_of_mul_le_mul_right ?_ smallDivisor
  calc total * small / ((rest + small) * scale) * ((rest + large) * scale) * ((rest + small) * scale)
      = total * small / ((rest + small) * scale) * ((rest + small) * scale) * ((rest + large) * scale) := Nat.mul_right_comm _ _ _
    _ ≤ total * small * ((rest + large) * scale) := Nat.mul_le_mul_right _ (Nat.div_mul_le_self _ _)
    _ ≤ total * large * ((rest + small) * scale) := by
        rw [← Nat.mul_assoc, ← Nat.mul_assoc]
        refine Nat.mul_le_mul_right _ ?_
        rw [Nat.mul_assoc, Nat.mul_assoc]
        refine Nat.mul_le_mul_left _ ?_
        rw [Nat.mul_add, Nat.mul_add, Nat.mul_comm large small]
        exact Nat.add_le_add_right (Nat.mul_le_mul_right _ le) _

end Shares
