import Mathlib.Data.List.Sort

/-
This file develops the upper median of values that are ordered by a key.
-/

namespace Median

variable {α κ : Type} [LinearOrder κ] (key : α → κ)

/-- At most half of the values lie below an upper median, and more than half do not lie above it. -/
structure IsUpperMedian (values : List α) (median : α) : Prop where
  mem : median ∈ values
  below : values.countP (fun value => decide (key value < key median)) ≤ values.length / 2
  not_above : values.length / 2 < values.countP fun value => decide (key value ≤ key median)

def ordered (values : List α) : List α := values.mergeSort fun first second => decide (key first ≤ key second)

/-- The element at a position of the ordered values. -/
def nthElement (values : List α) (position : Nat) : Option α := (ordered key values)[position]?

theorem ordered_perm (values : List α) : (ordered key values).Perm values := List.mergeSort_perm _ _

theorem ordered_pairwise (values : List α) : (ordered key values).Pairwise fun first second => key first ≤ key second := by
  have pairwise := @List.pairwise_mergeSort α (fun first second => decide (key first ≤ key second))
    (fun first middle last early late => by
      rw [decide_eq_true_iff] at early late ⊢
      exact le_trans early late)
    (fun first second => by
      rw [Bool.or_eq_true, decide_eq_true_iff, decide_eq_true_iff]
      exact le_total _ _) values
  exact pairwise.imp fun related => of_decide_eq_true related

/-- The element in the middle of the ordered values is an upper median. -/
theorem isUpperMedian_of_nthElement {values : List α} {median : α} (found : nthElement key values (values.length / 2) = some median) :
    IsUpperMedian key values median := by
  have perm := ordered_perm key values
  have pairwise := ordered_pairwise key values
  obtain ⟨inside, middle⟩ := List.getElem?_eq_some_iff.mp found
  have split := List.take_append_drop (values.length / 2) (ordered key values)
  refine ⟨perm.mem_iff.mp (middle ▸ List.getElem_mem inside), ?_, ?_⟩
  · -- no value from the middle on lies below the middle
    have late : ((ordered key values).drop (values.length / 2)).countP (fun value => decide (key value < key median)) = 0 := by
      rw [List.countP_eq_zero]
      intro value member
      obtain ⟨index, bound, rfl⟩ := List.getElem_of_mem member
      rw [List.getElem_drop, decide_eq_true_iff, not_lt, ← middle]
      obtain zero | positive := Nat.eq_zero_or_pos index
      · subst zero
        exact le_refl _
      · exact List.pairwise_iff_getElem.mp pairwise _ _ _ _ (by omega)
    rw [← perm.countP_eq, ← split, List.countP_append, late, Nat.add_zero]
    exact Nat.le_trans List.countP_le_length (by rw [List.length_take]; omega)
  · -- every value up to the middle does not lie above the middle
    have early : ((ordered key values).take (values.length / 2 + 1)).countP (fun value => decide (key value ≤ key median)) =
        values.length / 2 + 1 := by
      rw [List.countP_eq_length.mpr, List.length_take]
      · omega
      · intro value member
        obtain ⟨index, bound, rfl⟩ := List.getElem_of_mem member
        rw [List.length_take] at bound
        rw [List.getElem_take, decide_eq_true_iff, ← middle]
        obtain last | before := Nat.eq_or_lt_of_le (show index ≤ values.length / 2 by omega)
        · subst last
          exact le_refl _
        · exact List.pairwise_iff_getElem.mp pairwise _ _ _ _ before
    have sublist : _ ≤ (ordered key values).countP fun value => decide (key value ≤ key median) :=
      (List.take_sublist (values.length / 2 + 1) (ordered key values)).countP_le
    rw [← perm.countP_eq]
    omega

variable {key}

/-- Upper medians of the same values have the same key. -/
theorem IsUpperMedian.key_eq {values : List α} {first second : α} (left : IsUpperMedian key values first)
    (right : IsUpperMedian key values second) : key first = key second := by
  have incomparable {lower upper : α} (low : IsUpperMedian key values lower) (high : IsUpperMedian key values upper) :
      ¬ key lower < key upper := by
    intro less
    have count := List.countP_mono_left (l := values) (p := fun value => decide (key value ≤ key lower))
      (q := fun value => decide (key value < key upper)) fun value _ included =>
        decide_eq_true (lt_of_le_of_lt (of_decide_eq_true included) less)
    have := low.not_above
    have := high.below
    omega
  exact le_antisymm (not_lt.mp (incomparable right left)) (not_lt.mp (incomparable left right))

end Median
