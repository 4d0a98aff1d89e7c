import Mathlib.Data.List.Basic

/-
This file develops heaps of cells with pointers and the rule by which the owner of a pointer leaves all other cells alone.
-/

/-- A cell that was released is empty. -/
structure Heap (α : Type) where
  cells : List (Option α)
  deriving DecidableEq

namespace Heap

variable {α : Type}

def empty : Heap α := ⟨[]⟩

def read (heap : Heap α) (pointer : Nat) : Option α := heap.cells[pointer]?.join

/-- The pointer to the next cell that is allocated. -/
def next (heap : Heap α) : Nat := heap.cells.length

def allocate (heap : Heap α) (value : α) : Heap α := ⟨heap.cells ++ [some value]⟩

def write (heap : Heap α) (pointer : Nat) (value : α) : Heap α := ⟨heap.cells.set pointer (some value)⟩

def release (heap : Heap α) (pointer : Nat) : Heap α := ⟨heap.cells.set pointer none⟩

theorem lt_next_of_read {heap : Heap α} {pointer : Nat} (live : (heap.read pointer).isSome) : pointer < heap.next := by
  by_contra beyond
  rw [read, List.getElem?_eq_none (Nat.le_of_not_lt beyond)] at live
  cases live

theorem read_next (heap : Heap α) : heap.read heap.next = none := by
  rw [read, next, List.getElem?_eq_none (Nat.le_refl _)]
  rfl

@[simp]
theorem read_allocate_next (heap : Heap α) (value : α) : (heap.allocate value).read heap.next = some value := by
  rw [read, allocate, next, List.getElem?_concat_length]
  rfl

theorem read_allocate_of_live {heap : Heap α} {pointer : Nat} (live : (heap.read pointer).isSome) (value : α) :
    (heap.allocate value).read pointer = heap.read pointer := by
  rw [read, read, allocate, List.getElem?_append_left (lt_next_of_read live)]

theorem read_write_self {heap : Heap α} {pointer : Nat} (live : (heap.read pointer).isSome) (value : α) :
    (heap.write pointer value).read pointer = some value := by
  rw [read, write, List.getElem?_set_self (lt_next_of_read live)]
  rfl

theorem read_write_of_ne {heap : Heap α} {pointer other : Nat} (apart : pointer ≠ other) (value : α) :
    (heap.write pointer value).read other = heap.read other := by
  rw [read, read, write, List.getElem?_set_ne apart]

theorem read_release_of_ne {heap : Heap α} {pointer other : Nat} (apart : pointer ≠ other) :
    (heap.release pointer).read other = heap.read other := by
  rw [read, read, release, List.getElem?_set_ne apart]

/-- An owner changes its own cell only and replaces its pointer by a fresh one or by none. -/
structure Replaces (heap later : Heap α) (before after : Option Nat) : Prop where
  kept : ∀ pointer, before ≠ some pointer → (heap.read pointer).isSome → later.read pointer = heap.read pointer
  live : ∀ pointer, after = some pointer → (later.read pointer).isSome
  owned : ∀ pointer, after = some pointer → before = some pointer ∨ heap.read pointer = none

namespace Replaces

variable {heap middle later : Heap α} {before between after : Option Nat}

/-- The owner of a released cell points to nothing. -/
theorem forget (heap : Heap α) (pointer : Nat) : Replaces heap (heap.release pointer) (some pointer) none :=
  ⟨fun _ apart _ => read_release_of_ne fun same => apart (congrArg some same), fun _ none => (nomatch none),
    fun _ none => (nomatch none)⟩

theorem write {pointer : Nat} (live : (heap.read pointer).isSome) (value : α) :
    Replaces heap (heap.write pointer value) (some pointer) (some pointer) := by
  refine ⟨?_, ?_, fun _ same => .inl same⟩
  · intro other apart _
    exact read_write_of_ne (fun same => apart (congrArg some same)) value
  · intro other same
    obtain rfl := Option.some.inj same
    rw [read_write_self live]
    rfl

theorem allocate (heap : Heap α) (value : α) : Replaces heap (heap.allocate value) none (some heap.next) := by
  refine ⟨fun _ _ live => read_allocate_of_live live value, ?_, ?_⟩
  · intro other same
    obtain rfl := Option.some.inj same
    rw [read_allocate_next]
    rfl
  · intro other same
    obtain rfl := Option.some.inj same
    exact .inr heap.read_next

/-- The old cell is released after the new one was allocated. -/
theorem reallocate {pointer : Nat} (live : (heap.read pointer).isSome) (value : α) :
    Replaces heap ((heap.allocate value).release pointer) (some pointer) (some heap.next) := by
  have fresh : pointer ≠ heap.next := Nat.ne_of_lt (lt_next_of_read live)
  refine ⟨?_, ?_, ?_⟩
  · intro other apart liveOther
    rw [read_release_of_ne fun same => apart (congrArg some same), read_allocate_of_live liveOther]
  · intro other same
    obtain rfl := Option.some.inj same
    rw [read_release_of_ne fresh, read_allocate_next]
    rfl
  · intro other same
    obtain rfl := Option.some.inj same
    exact .inr heap.read_next

theorem refl (live : ∀ pointer, before = some pointer → (heap.read pointer).isSome) : Replaces heap heap before before :=
  ⟨fun _ _ _ => rfl, live, fun _ same => .inl same⟩

end Replaces

/-- Every pointer of the list leads to a cell of its own. -/
structure Owned (heap : Heap α) (pointers : List (Option Nat)) : Prop where
  live : ∀ index pointer : Nat, pointers[index]? = some (some pointer) → (heap.read pointer).isSome
  apart : ∀ first second pointer : Nat, pointers[first]? = some (some pointer) → pointers[second]? = some (some pointer) →
    first = second

namespace Owned

variable {heap later : Heap α} {pointers : List (Option Nat)} {before after : Option Nat} {index : Nat}

theorem empty : Owned (Heap.empty : Heap α) [] := ⟨fun _ _ found => (nomatch found), fun _ _ _ found => (nomatch found)⟩

theorem concat (owned : Owned heap pointers) : Owned heap (pointers ++ [none]) := by
  have inside : ∀ index pointer : Nat, (pointers ++ [none])[index]? = some (some pointer) →
      pointers[index]? = some (some pointer) := by
    intro index pointer found
    rw [List.getElem?_append] at found
    split at found
    · exact found
    · rw [List.getElem?_singleton] at found
      split at found <;> cases found
  exact ⟨fun index pointer found => owned.live index pointer (inside index pointer found),
    fun first second pointer foundFirst foundSecond =>
      owned.apart first second pointer (inside _ _ foundFirst) (inside _ _ foundSecond)⟩

/-- The cells of all other owners stay as they are. -/
theorem kept (owned : Owned heap pointers) (replaces : Replaces heap later before after)
    (found : pointers[index]? = some before) {other pointer : Nat} (different : other ≠ index)
    (foundOther : pointers[other]? = some (some pointer)) : later.read pointer = heap.read pointer := by
  refine replaces.kept pointer ?_ (owned.live other pointer foundOther)
  rintro rfl
  exact different (owned.apart other index pointer foundOther found)

theorem set (owned : Owned heap pointers) (replaces : Replaces heap later before after)
    (found : pointers[index]? = some before) : Owned later (pointers.set index after) := by
  have inside : index < pointers.length := (List.getElem?_eq_some_iff.mp found).1
  -- another owner has its old pointer, which is neither the one of this owner nor fresh
  have apart : ∀ other pointer : Nat, other ≠ index → pointers[other]? = some (some pointer) → after ≠ some pointer := by
    rintro other pointer different foundOther rfl
    obtain rfl | fresh := replaces.owned pointer rfl
    · exact different (owned.apart other index pointer foundOther found)
    · have live := owned.live other pointer foundOther
      rw [fresh] at live
      cases live
  constructor
  · intro other pointer foundOther
    by_cases same : other = index
    · subst same
      rw [List.getElem?_set_self inside] at foundOther
      exact replaces.live pointer (Option.some.inj foundOther)
    · rw [List.getElem?_set_ne (Ne.symm same)] at foundOther
      rw [owned.kept replaces found same foundOther]
      exact owned.live other pointer foundOther
  · intro first second pointer foundFirst foundSecond
    by_cases sameFirst : first = index
    · subst sameFirst
      by_contra different
      rw [List.getElem?_set_self inside] at foundFirst
      rw [List.getElem?_set_ne different] at foundSecond
      exact apart second pointer (Ne.symm different) foundSecond (Option.some.inj foundFirst)
    · rw [List.getElem?_set_ne (Ne.symm sameFirst)] at foundFirst
      by_cases sameSecond : second = index
      · subst sameSecond
        rw [List.getElem?_set_self inside] at foundSecond
        exact absurd (Option.some.inj foundSecond) (apart first pointer sameFirst foundFirst)
      · rw [List.getElem?_set_ne (Ne.symm sameSecond)] at foundSecond
        exact owned.apart first second pointer foundFirst foundSecond

end Owned

end Heap
