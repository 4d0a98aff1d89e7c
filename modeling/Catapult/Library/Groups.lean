import Mathlib.Tactic.Common

/-
This file develops sets of identifiers that are grouped by a key.
-/

/-- A key without identifiers has no group. -/
abbrev Groups (K I : Type) := K → Option (List I)

namespace Groups

variable {K I : Type}

def identifiers (groups : Groups K I) (key : K) : List I := (groups key).getD []

variable [DecidableEq K] [DecidableEq I]

/-- A group is a set, so an identifier is added only once. -/
def add (groups : Groups K I) (key : K) (identifier : I) : Groups K I :=
  Function.update groups key (some (if identifier ∈ groups.identifiers key then groups.identifiers key
    else identifier :: groups.identifiers key))

/-- A group that becomes empty is removed. -/
def remove (groups : Groups K I) (key : K) (identifier : I) : Groups K I :=
  match groups key with
  | none => groups
  | some members =>
    let remaining := members.filter fun other => other ≠ identifier
    Function.update groups key (if remaining.isEmpty then none else some remaining)

theorem identifiers_add {groups : Groups K I} {key : K} {identifier : I} : (groups.add key identifier).identifiers key =
      if identifier ∈ groups.identifiers key then groups.identifiers key
      else identifier :: groups.identifiers key := by
  unfold add
  rw [identifiers.eq_1 (Function.update _ _ _), Function.update_self, Option.getD_some]

theorem mem_add {groups : Groups K I} {key other : K} {identifier member : I} :
    member ∈ (groups.add key identifier).identifiers other ↔
      member ∈ groups.identifiers other ∨ other = key ∧ member = identifier := by
  by_cases same : other = key
  · subst same
    rw [identifiers_add]
    by_cases known : identifier ∈ groups.identifiers other
    · rw [if_pos known]
      refine ⟨.inl, fun found => found.elim id ?_⟩
      rintro ⟨_, rfl⟩
      exact known
    · rw [if_neg known, List.mem_cons]
      simp [or_comm]
  · simp [add, identifiers, same]

theorem mem_remove {groups : Groups K I} {key other : K} {identifier member : I} :
    member ∈ (groups.remove key identifier).identifiers other ↔
      member ∈ groups.identifiers other ∧ ¬ (other = key ∧ member = identifier) := by
  unfold remove
  by_cases same : other = key
  · subst same
    cases found : groups other with
    | none => simp [identifiers, found]
    | some members =>
      have kept : (Function.update groups other (if (members.filter fun next => next ≠ identifier).isEmpty then none
          else some (members.filter fun next => next ≠ identifier)) other).getD [] =
            members.filter fun next => next ≠ identifier := by
        rw [Function.update_self]
        split
        · next empty => exact (List.isEmpty_iff.mp empty).symm
        · rfl
      dsimp only
      rw [identifiers, kept, identifiers, found]
      simp
  · cases found : groups key with
    | none => simp [same]
    | some members => simp [identifiers, same]

/-- Removing a new identifier restores groups without empty lists. -/
theorem remove_add {groups : Groups K I} {key : K} {identifier : I} (new : identifier ∉ groups.identifiers key)
    (nonempty : groups key ≠ some []) : (groups.add key identifier).remove key identifier = groups := by
  funext other
  unfold add remove
  rw [if_neg new, Function.update_self]
  have kept : (identifier :: groups.identifiers key).filter (fun next => next ≠ identifier) = groups.identifiers key := by
    rw [List.filter_cons_of_neg (by simp), List.filter_eq_self]
    intro next member
    simp only [ne_eq, decide_not, Bool.not_eq_eq_eq_not, Bool.not_true, decide_eq_false_iff_not]
    rintro rfl
    exact new member
  dsimp only
  rw [kept, Function.update_idem]
  by_cases same : other = key
  · subst same
    rw [Function.update_self]
    unfold identifiers
    cases found : groups other with
    | none => rfl
    | some members =>
      rw [found] at nonempty
      rw [Option.getD_some, if_neg (by simpa using nonempty)]
  · rw [Function.update_of_ne same]

theorem add_ne_empty {groups : Groups K I} (nonempty : ∀ key, groups key ≠ some []) (key other : K) (identifier : I) :
    groups.add key identifier other ≠ some [] := by
  unfold add
  by_cases same : other = key
  · subst same
    rw [Function.update_self]
    split
    · next known =>
      intro empty
      rw [Option.some.injEq] at empty
      rw [empty] at known
      cases known
    · simp
  · rw [Function.update_of_ne same]
    exact nonempty other

theorem remove_ne_empty {groups : Groups K I} (nonempty : ∀ key, groups key ≠ some []) (key other : K)
    (identifier : I) : groups.remove key identifier other ≠ some [] := by
  unfold remove
  cases found : groups key with
  | none => exact nonempty other
  | some members =>
    dsimp only
    by_cases same : other = key
    · subst same
      rw [Function.update_self]
      split
      · simp
      · next remaining => simpa using remaining
    · rw [Function.update_of_ne same]
      exact nonempty other

end Groups
