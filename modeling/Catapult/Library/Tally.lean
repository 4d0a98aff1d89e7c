import Mathlib.Algebra.Order.BigOperators.Group.List
import Mathlib.Data.UInt

/-
This file develops sums of weights over the votes with a property.
-/

namespace Tally

open scoped Classical in
/-- The weights of all votes with a property are added up. -/
noncomputable def tally {V M : Type} [AddCommMonoid M] (weight : V → M) (counts : V → Prop)
    (votes : List V) : M := (votes.map fun vote => if counts vote then weight vote else 0).sum

section Monoid

variable {V M : Type} [AddCommMonoid M] {weight : V → M} {counts other : V → Prop} {votes : List V}

@[simp]
theorem tally_nil : tally weight counts [] = 0 := rfl

theorem tally_append (first second : List V) :
    tally weight counts (first ++ second) = tally weight counts first + tally weight counts second := by
  simp [tally]

open scoped Classical in
theorem tally_singleton (vote : V) : tally weight counts [vote] = if counts vote then weight vote else 0 := by
  simp [tally]

open scoped Classical in
theorem tally_cons (vote : V) (votes : List V) : tally weight counts (vote :: votes) =
    (if counts vote then weight vote else 0) + tally weight counts votes := by
  simp [tally]

/-- The order of the votes does not matter. -/
theorem tally_perm {first second : List V} (same : first.Perm second) :
    tally weight counts first = tally weight counts second := (same.map _).sum_eq

theorem tally_congr (same : ∀ vote ∈ votes, counts vote ↔ other vote) : tally weight counts votes = tally weight other votes := by
  induction votes with
  | nil => rfl
  | cons vote votes ih =>
    rw [tally_cons, tally_cons, ih fun rest inside => same rest (List.mem_cons_of_mem _ inside)]
    have here := same vote List.mem_cons_self
    by_cases holds : counts vote
    · rw [if_pos holds, if_pos (here.mp holds)]
    · rw [if_neg holds, if_neg fun holdsOther => holds (here.mpr holdsOther)]

theorem tally_eq_zero (none : ∀ vote ∈ votes, ¬ counts vote) : tally weight counts votes = 0 := by
  induction votes with
  | nil => rfl
  | cons vote votes ih =>
    rw [tally_cons, ih fun rest inside => none rest (List.mem_cons_of_mem _ inside),
      if_neg (none vote List.mem_cons_self), add_zero]

/-- Votes with one of two exclusive properties are counted separately. -/
theorem tally_or (exclusive : ∀ vote ∈ votes, counts vote → ¬ other vote) :
    tally weight (fun vote => counts vote ∨ other vote) votes = tally weight counts votes + tally weight other votes := by
  induction votes with
  | nil => simp
  | cons vote votes ih =>
    rw [tally_cons, tally_cons, tally_cons, ih fun rest inside => exclusive rest (List.mem_cons_of_mem _ inside)]
    have apart := exclusive vote List.mem_cons_self
    by_cases first : counts vote
    · simp [first, apart first, add_assoc]
    · by_cases second : other vote
      · simp [first, second, add_left_comm]
      · simp [first, second]

/-- A property that does not depend on the vote selects all votes or none. -/
theorem tally_and_const {condition : Prop} : tally weight (fun vote => counts vote ∧ condition) votes =
      open scoped Classical in if condition then tally weight counts votes else 0 := by
  split
  · next holds => exact tally_congr fun vote _ => by simp [holds]
  · next fails => exact tally_eq_zero fun vote _ => by simp [fails]

/-- Votes that are derived from other votes with the same weight are counted there. -/
theorem tally_filterMap {W : Type} {derive : W → Option V} {original : W → M} {sources : List W}
    (same : ∀ source vote, derive source = some vote → weight vote = original source) :
    tally weight counts (sources.filterMap derive) =
      tally original (fun source => ∃ vote, derive source = some vote ∧ counts vote) sources := by
  induction sources with
  | nil => rfl
  | cons source sources ih =>
    rw [tally_cons, ← ih]
    cases derived : derive source with
    | none =>
      rw [List.filterMap_cons_none derived]
      simp
    | some vote =>
      rw [List.filterMap_cons_some derived, tally_cons, same source vote derived]
      by_cases holds : counts vote
      · rw [if_pos holds, if_pos ⟨vote, rfl, holds⟩]
      · rw [if_neg holds, if_neg]
        rintro ⟨other, ⟨⟩, holdsOther⟩
        exact holds holdsOther

end Monoid

section Words

variable {V : Type} {weight : V → UInt64} {counts : V → Prop} {votes : List V}

/-- The sum of words does not wrap if the sum of their values is small. -/
theorem toNat_tally (small : tally (fun vote => (weight vote).toNat) counts votes < 2 ^ 64) :
    (tally weight counts votes).toNat = tally (fun vote => (weight vote).toNat) counts votes := by
  induction votes with
  | nil => rfl
  | cons vote votes ih =>
    rw [tally_cons] at small ⊢
    rw [tally_cons, UInt64.toNat_add, ih (by omega)]
    by_cases holds : counts vote
    · simp only [holds, if_true] at small ⊢
      exact Nat.mod_eq_of_lt small
    · simp only [holds, if_false] at small ⊢
      exact Nat.mod_eq_of_lt small

end Words

variable {V : Type} {weight : V → Nat} {first second counts : V → Prop} {votes : List V}

theorem tally_le_of_imp (implies : ∀ vote ∈ votes, first vote → second vote) :
    tally weight first votes ≤ tally weight second votes := by
  induction votes with
  | nil => simp
  | cons vote votes ih =>
    rw [tally_cons, tally_cons]
    have rest := ih fun other inside => implies other (List.mem_cons_of_mem _ inside)
    have here := implies vote List.mem_cons_self
    by_cases holds : first vote
    · simp only [holds, here holds, if_true]
      omega
    · simp only [holds, if_false]
      omega

/-- The votes that a test selects are added up. -/
theorem tally_eq_sum_filter (test : V → Bool) :
    tally weight (fun vote => test vote = true) votes = ((votes.filter test).map weight).sum := by
  induction votes with
  | nil => rfl
  | cons vote votes ih =>
    rw [tally_cons, ih]
    by_cases holds : test vote = true
    · rw [if_pos holds, List.filter_cons_of_pos holds, List.map_cons, List.sum_cons]
    · rw [if_neg holds, List.filter_cons_of_neg holds, Nat.zero_add]

/-- Two quorums that together outweigh all votes share a vote. -/
theorem exists_common_vote {total : Nat} (bounded : tally weight (fun vote => first vote ∨ second vote) votes ≤ total)
    (outweigh : total < tally weight first votes + tally weight second votes) : ∃ vote ∈ votes, first vote ∧ second vote := by
  by_contra none
  push Not at none
  rw [tally_or none] at bounded
  omega

end Tally
