import Mathlib.Data.List.Perm.Basic
import Mathlib.Data.List.Nodup
import Mathlib.Logic.Equiv.Basic

/-
This file develops sorts that may put elements that compare equal in any order.
-/

namespace Sorting

variable {α : Type}

/-- A comparer is a strict weak order. -/
structure StrictWeakOrder (less : α → α → Bool) : Prop where
  asymm : ∀ first second, less first second = true → less second first = false
  cotrans : ∀ first middle last, less first last = true → less first middle = true ∨ less middle last = true

/-- A result of a sort is any permutation without an inversion. -/
structure Sorts (less : α → α → Bool) (input output : List α) : Prop where
  perm : output.Perm input
  ordered : output.Pairwise fun first second => less second first = false

/-- A sorter chooses one result for every input. -/
structure Sorter (less : α → α → Bool) where
  run : List α → List α
  sorts : ∀ input, Sorts less input (run input)

/-- Elements that compare equal. -/
def Ties (less : α → α → Bool) (first second : α) : Prop := less first second = false ∧ less second first = false

/-- Elements that compare equal keep their order if the later one is in the output. -/
def KeepsTies (less : α → α → Bool) (input output : List α) : Prop :=
  ∀ first second, List.Sublist [first, second] input → Ties less first second → second ∈ output →
    List.Sublist [first, second] output

namespace StrictWeakOrder

variable {less : α → α → Bool} (order : StrictWeakOrder less)
include order

theorem not_less_trans {first middle last : α} (below : less middle first = false) (above : less last middle = false) :
    less last first = false := by
  cases compared : less last first with
  | false => rfl
  | true =>
    obtain early | late := order.cotrans last middle first compared
    · rw [above] at early
      cases early
    · rw [below] at late
      cases late

/-- An element can be replaced by one that compares equal. -/
theorem less_of_ties {first second other : α} (ties : Ties less first second) :
    (less first other = true → less second other = true) ∧ (less other first = true → less other second = true) := by
  constructor
  · intro below
    obtain early | late := order.cotrans first second other below
    · rw [ties.1] at early
      cases early
    · exact late
  · intro below
    obtain early | late := order.cotrans other second first below
    · exact early
    · rw [ties.2] at late
      cases late

/-- A stable sort is one of the sorts. -/
theorem mergeSort_sorts (input : List α) : Sorts less input (input.mergeSort fun first second => !less second first) where
  perm := List.mergeSort_perm input _
  ordered := by
    refine (List.pairwise_mergeSort ?_ ?_ input).imp ?_
    · intro first middle last
      simp only [Bool.not_eq_true']
      exact order.not_less_trans
    · intro first second
      rw [Bool.or_eq_true, Bool.not_eq_true', Bool.not_eq_true']
      cases compared : less second first with
      | false => exact .inl rfl
      | true => exact .inr (order.asymm second first compared)
    · intro first second
      exact (Bool.not_eq_true' _).mp

end StrictWeakOrder

section Pairs

variable {first second : α} {list : List α}

theorem pair_or_pair (one : first ∈ list) (other : second ∈ list) (different : first ≠ second) :
    List.Sublist [first, second] list ∨ List.Sublist [second, first] list := by
  induction list with
  | nil => cases one
  | cons head tail ih =>
    obtain rfl | early := List.mem_cons.mp one
    · obtain same | late := List.mem_cons.mp other
      · exact absurd same.symm different
      · exact .inl ((List.singleton_sublist.mpr late).cons_cons first)
    · obtain rfl | late := List.mem_cons.mp other
      · exact .inr ((List.singleton_sublist.mpr early).cons_cons second)
      · exact (ih early late).imp (·.cons head) (·.cons head)

theorem not_pair_of_nodup (distinct : list.Nodup) (forward : List.Sublist [first, second] list) :
    ¬List.Sublist [second, first] list := by
  intro backward
  have one := distinct.sublist forward
  induction list with
  | nil => cases forward
  | cons head tail ih =>
    obtain ⟨fresh, rest⟩ := List.nodup_cons.mp distinct
    cases forward with
    | cons _ later =>
      cases backward with
      | cons _ earlier => exact ih rest later earlier
      | cons_cons _ earlier => exact fresh (later.subset (List.mem_cons_of_mem _ List.mem_cons_self))
    | cons_cons _ later =>
      cases backward with
      | cons _ earlier => exact fresh (earlier.subset (List.mem_cons_of_mem _ List.mem_cons_self))
      | cons_cons _ earlier => exact fresh (List.singleton_sublist.mp later)

end Pairs

section Swap

variable [DecidableEq α] {less : α → α → Bool} (order : StrictWeakOrder less) {first second : α} (ties : Ties less first second)
include order ties

theorem less_swap (lhs rhs : α) : less (Equiv.swap first second lhs) (Equiv.swap first second rhs) = less lhs rhs := by
  have back : Ties less second first := ⟨ties.2, ties.1⟩
  have moved (element : α) : element = Equiv.swap first second element ∨ Ties less element (Equiv.swap first second element) := by
    by_cases one : element = first
    · subst one
      rw [Equiv.swap_apply_left]
      exact .inr ties
    · by_cases other : element = second
      · subst other
        rw [Equiv.swap_apply_right]
        exact .inr back
      · exact .inl (Equiv.swap_apply_of_ne_of_ne one other).symm
  have left (element other : α) : less element other = less (Equiv.swap first second element) other := by
    obtain same | tied := moved element
    · rw [← same]
    · rw [Bool.eq_iff_iff]
      exact ⟨(order.less_of_ties tied).1, (order.less_of_ties ⟨tied.2, tied.1⟩).1⟩
  have right (other element : α) : less other element = less other (Equiv.swap first second element) := by
    obtain same | tied := moved element
    · rw [← same]
    · rw [Bool.eq_iff_iff]
      exact ⟨(order.less_of_ties tied).2, (order.less_of_ties ⟨tied.2, tied.1⟩).2⟩
  rw [← left, ← right]

/-- Two elements that compare equal can be exchanged in a result of a sort. -/
theorem Sorts.swap {input output : List α} (sorts : Sorts less input output) (distinct : input.Nodup)
    (one : first ∈ input) (other : second ∈ input) : Sorts less input (output.map (Equiv.swap first second)) where
  perm := by
    have unique : output.Nodup := sorts.perm.nodup_iff.mpr distinct
    have closed : ∀ element ∈ output, Equiv.swap first second element ∈ output := by
      intro element member
      by_cases left : element = first
      · rw [left, Equiv.swap_apply_left]
        exact sorts.perm.mem_iff.mpr other
      · by_cases right : element = second
        · rw [right, Equiv.swap_apply_right]
          exact sorts.perm.mem_iff.mpr one
        · rwa [Equiv.swap_apply_of_ne_of_ne left right]
    have same : (output.map (Equiv.swap first second)).Perm output := by
      rw [List.perm_ext_iff_of_nodup (unique.map (Equiv.injective _)) unique]
      intro element
      rw [List.mem_map]
      constructor
      · rintro ⟨origin, member, rfl⟩
        exact closed origin member
      · intro member
        exact ⟨Equiv.swap first second element, closed element member, Equiv.swap_apply_self first second element⟩
    exact same.trans sorts.perm
  ordered := by
    rw [List.pairwise_map]
    refine sorts.ordered.imp ?_
    intro lhs rhs below
    rw [less_swap order ties]
    exact below

end Swap

/-- Nothing has to be kept if no elements compare equal. -/
theorem keepsTies_of_untied {less : α → α → Bool} {input : List α} (distinct : input.Nodup)
    (untied : ∀ first ∈ input, ∀ second ∈ input, first ≠ second → ¬Ties less first second) (output : List α) :
    KeepsTies less input output := by
  intro first second pair ties _
  have one : first ∈ input := pair.subset List.mem_cons_self
  have other : second ∈ input := pair.subset (List.mem_cons_of_mem _ List.mem_cons_self)
  have unequal : first ≠ second := by
    rintro rfl
    exact absurd (distinct.sublist pair) (by simp)
  exact absurd ties (untied first one second other unequal)

/-- Some result of a sort exchanges two elements that compare equal. -/
theorem StrictWeakOrder.exists_reversed {less : α → α → Bool} (order : StrictWeakOrder less) {input : List α} (distinct : input.Nodup)
    {first second : α} (one : first ∈ input) (other : second ∈ input) (different : first ≠ second) (ties : Ties less first second) :
    ∃ output, Sorts less input output ∧ List.Sublist [second, first] output := by
  classical
  have stable := order.mergeSort_sorts input
  obtain forward | backward := pair_or_pair (stable.perm.mem_iff.mpr one) (stable.perm.mem_iff.mpr other) different
  · have swapped := forward.map (Equiv.swap first second)
    rw [List.map_cons, List.map_cons, List.map_nil, Equiv.swap_apply_left, Equiv.swap_apply_right] at swapped
    exact ⟨_, stable.swap order ties distinct one other, swapped⟩
  · exact ⟨_, stable, backward⟩

/-- All sorts keep the order of elements that compare equal exactly if there are no such elements. -/
theorem keepsTies_iff {less : α → α → Bool} (order : StrictWeakOrder less) {input : List α} (distinct : input.Nodup) :
    (∀ sorter : Sorter less, KeepsTies less input (sorter.run input)) ↔
      ∀ first ∈ input, ∀ second ∈ input, first ≠ second → ¬Ties less first second := by
  classical
  constructor
  · intro keeps
    suffices sorted : ∀ first second, List.Sublist [first, second] input → first ≠ second → ¬Ties less first second by
      intro first one second other different ties
      obtain forward | backward := pair_or_pair one other different
      · exact sorted first second forward different ties
      · exact sorted second first backward different.symm ⟨ties.2, ties.1⟩
    intro first second pair different ties
    have one : first ∈ input := pair.subset List.mem_cons_self
    have other : second ∈ input := pair.subset (List.mem_cons_of_mem _ List.mem_cons_self)
    obtain ⟨output, sorts, backward⟩ := order.exists_reversed distinct one other different ties
    have unique : output.Nodup := sorts.perm.nodup_iff.mpr distinct
    have reached : second ∈ output := sorts.perm.mem_iff.mpr other
    -- one input has an unstable result, and all others have a stable one
    let chosen : Sorter less :=
      ⟨fun list => if list = input then output else list.mergeSort fun first second => !less second first, by
        intro list
        split
        · next same => exact same ▸ sorts
        · exact order.mergeSort_sorts list⟩
    have kept := keeps chosen first second pair ties
    rw [show chosen.run input = output from if_pos rfl] at kept
    exact not_pair_of_nodup unique (kept reached) backward
  · intro untied sorter
    exact keepsTies_of_untied distinct untied (sorter.run input)

end Sorting
