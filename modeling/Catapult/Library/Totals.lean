import Mathlib.Data.Finmap
import Mathlib.Algebra.BigOperators.Group.Finset.Basic

/-
This file develops totals of weights over the values of a finite map.
-/

namespace Totals

variable {K V : Type} [DecidableEq K]

/-- The values of a finite map are weighed and summed. -/
def total (weight : V → Nat) (map : Finmap fun _ : K => V) : Nat :=
  ∑ key ∈ map.keys, (map.lookup key).elim 0 weight

theorem total_erase (weight : V → Nat) (map : Finmap fun _ : K => V) (key : K) :
    total weight (map.erase key) + (map.lookup key).elim 0 weight = total weight map := by
  have kept : ∀ other ∈ map.keys.erase key, ((map.erase key).lookup other).elim 0 weight = (map.lookup other).elim 0 weight := by
    intro other member
    rw [Finmap.lookup_erase_ne (Finset.ne_of_mem_erase member)]
  rw [total, Finmap.keys_erase, Finset.sum_congr rfl kept, total]
  by_cases known : key ∈ map.keys
  · exact Finset.sum_erase_add _ _ known
  · rw [Finset.erase_eq_of_notMem known, Finmap.lookup_eq_none.mpr (known ∘ Finmap.mem_keys.mpr)]
    rfl

/-- The erased key does not matter for an insertion at that key. -/
theorem insert_erase (map : Finmap fun _ : K => V) (key : K) (value : V) :
    (map.erase key).insert key value = map.insert key value := by
  apply Finmap.ext_lookup
  intro other
  by_cases same : other = key
  · subst same
    rw [Finmap.lookup_insert, Finmap.lookup_insert]
  · rw [Finmap.lookup_insert_of_ne _ same, Finmap.lookup_insert_of_ne _ same, Finmap.lookup_erase_ne same]

/-- The insertion of a value that is already there changes nothing. -/
theorem insert_self {map : Finmap fun _ : K => V} {key : K} {value : V} (known : map.lookup key = some value) :
    map.insert key value = map := by
  apply Finmap.ext_lookup
  intro other
  by_cases same : other = key
  · subst same
    rw [Finmap.lookup_insert, known]
  · rw [Finmap.lookup_insert_of_ne _ same]

/-- An insertion at a new key is undone by erasing the key. -/
theorem erase_insert {map : Finmap fun _ : K => V} {key : K} {value : V} (new : map.lookup key = none) :
    (map.insert key value).erase key = map := by
  apply Finmap.ext_lookup
  intro other
  by_cases same : other = key
  · subst same
    rw [Finmap.lookup_erase, new]
  · rw [Finmap.lookup_erase_ne same, Finmap.lookup_insert_of_ne _ same]

theorem total_insert (weight : V → Nat) (map : Finmap fun _ : K => V) (key : K) (value : V) :
    total weight (map.insert key value) + (map.lookup key).elim 0 weight = total weight map + weight value := by
  have erased := total_erase weight (map.insert key value) key
  have restored : (map.insert key value).erase key = map.erase key := by
    rw [← insert_erase, erase_insert (Finmap.lookup_erase key map)]
  rw [restored, Finmap.lookup_insert] at erased
  have original := total_erase weight map key
  simp only [Option.elim_some] at erased
  omega

theorem total_empty (weight : V → Nat) : total weight (∅ : Finmap fun _ : K => V) = 0 := by
  rw [total, Finmap.keys_empty, Finset.sum_empty]

end Totals
