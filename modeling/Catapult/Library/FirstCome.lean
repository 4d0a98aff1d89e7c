import Mathlib.Algebra.Order.BigOperators.Group.Finset
import Mathlib.Algebra.Order.Ring.Nat

/-
This file develops tables in which the first entry of a key counts and all later ones are ignored.
-/

namespace FirstCome

variable {K : Type} [DecidableEq K] {entries others : List (K × Nat)}

/-- The first entry of a key. -/
def first (entries : List (K × Nat)) (key : K) : Option Nat := entries.lookup key

def amount (entries : List (K × Nat)) (key : K) : Nat := (first entries key).getD 0

def keys (entries : List (K × Nat)) : List K := entries.map Prod.fst

/-- The amounts of all entries, also of those that are ignored. -/
def total (entries : List (K × Nat)) : Nat := (entries.map Prod.snd).sum

/-- The amounts of the first entries. -/
def counted (entries : List (K × Nat)) : Nat := ∑ key ∈ (keys entries).toFinset, amount entries key

theorem first_isSome {key : K} : (first entries key).isSome ↔ key ∈ keys entries := by
  unfold first
  induction entries with
  | nil => simp [keys]
  | cons entry entries ih =>
    rw [List.lookup_cons, keys, List.map_cons, List.mem_cons]
    by_cases same : key = entry.1
    · simp [same]
    · simp only [beq_eq_false_iff_ne.mpr same, same, false_or]
      exact ih

theorem amount_nil (key : K) : amount [] key = 0 := rfl

theorem amount_cons_self (key : K) (value : Nat) : amount ((key, value) :: entries) key = value := by
  simp [amount, first]

theorem amount_cons_of_ne {key other : K} (different : other ≠ key) (value : Nat) :
    amount ((key, value) :: entries) other = amount entries other := by
  simp [amount, first, List.lookup_cons, beq_eq_false_iff_ne.mpr different]

/-- The first entry of a key has a positive amount if all entries have. -/
theorem amount_pos (positive : ∀ entry ∈ entries, 0 < entry.2) {key : K} (member : key ∈ keys entries) :
    0 < amount entries key := by
  induction entries with
  | nil => cases member
  | cons entry entries ih =>
    by_cases same : key = entry.1
    · rw [same, amount_cons_self]
      exact positive entry List.mem_cons_self
    · rw [amount_cons_of_ne same]
      refine ih (fun other inside => positive other (List.mem_cons_of_mem _ inside)) ?_
      exact (List.mem_cons.mp member).resolve_left same

/-- An entry at the end counts if its key is new. -/
theorem first_concat (entries : List (K × Nat)) (entry : K × Nat) (key : K) :
    first (entries ++ [entry]) key = (first entries key).or (if key = entry.1 then some entry.2 else none) := by
  rw [first, List.lookup_append, first, List.lookup_cons, List.lookup_nil]
  by_cases same : key = entry.1
  · simp [same]
  · simp [same, beq_eq_false_iff_ne.mpr same]

/-- A new entry replaces the amount of its key. -/
theorem counted_cons (key : K) (value : Nat) :
    counted ((key, value) :: entries) = value + ∑ other ∈ (keys entries).toFinset.erase key, amount entries other := by
  have split : (keys ((key, value) :: entries)).toFinset = insert key ((keys entries).toFinset.erase key) := by
    rw [keys, List.map_cons, List.toFinset_cons]
    ext other
    by_cases same : other = key
    · simp [same]
    · simp [same, keys]
  rw [counted, split, Finset.sum_insert (Finset.notMem_erase _ _), amount_cons_self]
  congr 1
  exact Finset.sum_congr rfl fun other inside => amount_cons_of_ne (Finset.ne_of_mem_erase inside) value

theorem counted_le_total : counted entries ≤ total entries := by
  induction entries with
  | nil => exact Nat.le_refl _
  | cons entry entries ih =>
    obtain ⟨key, value⟩ := entry
    rw [counted_cons, total, List.map_cons, List.sum_cons]
    refine Nat.add_le_add_left (le_trans ?_ ih) _
    exact Finset.sum_le_sum_of_subset (Finset.erase_subset _ _)

/-- All amounts count exactly if no key occurs twice. -/
theorem counted_eq_total_iff (positive : ∀ entry ∈ entries, 0 < entry.2) :
    counted entries = total entries ↔ (keys entries).Nodup := by
  induction entries with
  | nil => simp [counted, total, keys]
  | cons entry entries ih =>
    obtain ⟨key, value⟩ := entry
    have positiveRest : ∀ entry ∈ entries, 0 < entry.2 := fun other inside => positive other (List.mem_cons_of_mem _ inside)
    have expanded : total ((key, value) :: entries) = value + total entries := by
      rw [total, List.map_cons, List.sum_cons, total]
    have bound := @counted_le_total K _ entries
    have expandedKeys : keys ((key, value) :: entries) = key :: keys entries := rfl
    rw [counted_cons, expanded, Nat.add_left_cancel_iff, expandedKeys, List.nodup_cons]
    by_cases repeated : key ∈ keys entries
    · -- the ignored amount is missing
      refine iff_of_false ?_ fun distinct => distinct.1 repeated
      have missing := Finset.add_sum_erase (keys entries).toFinset (amount entries) (List.mem_toFinset.mpr repeated)
      have lost := amount_pos positiveRest repeated
      unfold counted at bound
      omega
    · rw [Finset.erase_eq_of_notMem (mt List.mem_toFinset.mp repeated)]
      exact (ih positiveRest).trans ⟨fun distinct => ⟨repeated, distinct⟩, fun distinct => distinct.2⟩

/-- The order of the entries does not matter if no key occurs twice. -/
theorem first_perm (distinct : (keys entries).Nodup) (same : entries.Perm others) (key : K) :
    first entries key = first others key := by
  unfold first
  induction same with
  | nil => rfl
  | cons entry _ ih =>
    rw [List.lookup_cons, List.lookup_cons, ih (List.nodup_cons.mp distinct).2]
  | swap first second rest =>
    rw [keys, List.map_cons, List.map_cons, List.nodup_cons, List.mem_cons, not_or] at distinct
    rw [List.lookup_cons, List.lookup_cons, List.lookup_cons, List.lookup_cons]
    by_cases same : key = first.1
    · simp [same, beq_eq_false_iff_ne.mpr (Ne.symm distinct.1.1)]
    · simp [beq_eq_false_iff_ne.mpr same]
  | trans first _ ihFirst ihSecond =>
    exact (ihFirst distinct).trans (ihSecond ((first.map Prod.fst).nodup_iff.mp distinct))

omit [DecidableEq K] in
theorem total_perm (same : entries.Perm others) : total entries = total others := (same.map Prod.snd).sum_eq

end FirstCome
