import Mathlib.Algebra.BigOperators.Group.List.Basic
import Mathlib.Algebra.Order.Ring.Nat
import Mathlib.Data.Finset.Card

/-
This file develops finite containers whose elements carry distinct keys.
-/

/-- A keying reads the key of an element and chooses where a container places a new element. -/
structure Keying (K E : Type*) where
  toKey : E → K
  place : E → List E → List E
  place_perm : ∀ element elements, (place element elements).Perm (element :: elements)

/-- The elements of a container are listed in the order of iteration. -/
structure KeyedSet {K E : Type*} (keying : Keying K E) where
  elements : List E
  distinct : (elements.map keying.toKey).Nodup

namespace KeyedSet

variable {K E : Type*} {keying : Keying K E}

def empty : KeyedSet keying := ⟨[], List.nodup_nil⟩

def length (set : KeyedSet keying) : Nat := set.elements.length

variable [DecidableEq K]

def find (set : KeyedSet keying) (key : K) : Option E :=
  set.elements.find? fun element => keying.toKey element = key

def contains (set : KeyedSet keying) (key : K) : Bool := (set.find key).isSome

/-- The order of the remaining elements does not change. -/
def erase (set : KeyedSet keying) (key : K) : KeyedSet keying where
  elements := set.elements.filter fun element => keying.toKey element ≠ key
  distinct := set.distinct.sublist (List.filter_sublist.map _)

theorem find_eq_some_iff {set : KeyedSet keying} {key : K} {element : E} :
    set.find key = some element ↔ element ∈ set.elements ∧ keying.toKey element = key := by
  constructor
  · intro found
    exact ⟨List.mem_of_find?_eq_some found, by simpa using List.find?_some found⟩
  · rintro ⟨inside, rfl⟩
    cases found : set.find (keying.toKey element) with
    | none =>
      have absent := List.find?_eq_none.mp found element inside
      simp at absent
    | some other =>
      have present := List.mem_of_find?_eq_some found
      have same : keying.toKey other = keying.toKey element := by simpa using List.find?_some found
      rw [List.inj_on_of_nodup_map set.distinct present inside same]

theorem find_eq_none_iff {set : KeyedSet keying} {key : K} :
    set.find key = none ↔ ∀ element ∈ set.elements, keying.toKey element ≠ key := by
  simp [find]

theorem toKey_of_find {set : KeyedSet keying} {key : K} {element : E}
    (found : set.find key = some element) : keying.toKey element = key :=
  (find_eq_some_iff.mp found).2

theorem contains_eq_false_iff {set : KeyedSet keying} {key : K} : set.contains key = false ↔ set.find key = none := by
  simp [contains]

theorem contains_eq_true_iff {set : KeyedSet keying} {key : K} :
    set.contains key = true ↔ ∃ element, set.find key = some element :=
  Option.isSome_iff_exists

theorem not_mem_keys_of_find {set : KeyedSet keying} {key : K} (absent : set.find key = none) :
    key ∉ set.elements.map keying.toKey := by
  intro inside
  obtain ⟨element, present, same⟩ := List.mem_map.mp inside
  exact find_eq_none_iff.mp absent element present same

/-- An insertion does not replace an element with the same key. -/
def insert (set : KeyedSet keying) (element : E) : KeyedSet keying :=
  if absent : set.find (keying.toKey element) = none then
    { elements := keying.place element set.elements
      distinct := by
        have placed := (keying.place_perm element set.elements).map keying.toKey
        rw [placed.nodup_iff, List.map_cons, List.nodup_cons]
        exact ⟨not_mem_keys_of_find absent, set.distinct⟩ }
  else set

/-- A change of elements in place keeps their keys. -/
structure KeyedChange (keying : Keying K E) where
  change : E → E
  keeps : ∀ element, keying.toKey (change element) = keying.toKey element

/-- A pointer to an element allows a change in place. -/
def modify (set : KeyedSet keying) (key : K) (changed : KeyedChange keying) : KeyedSet keying where
  elements := set.elements.map fun element =>
    if keying.toKey element = key then changed.change element else element
  distinct := by
    have same : (keying.toKey ∘ fun element =>
        if keying.toKey element = key then changed.change element else element) = keying.toKey := by
      funext element
      simp only [Function.comp_apply]
      split
      · exact changed.keeps element
      · rfl
    rw [List.map_map, same]
    exact set.distinct

/-- The keys of a container form a finite set. -/
def keys (set : KeyedSet keying) : Finset K := (set.elements.map keying.toKey).toFinset

theorem mem_keys {set : KeyedSet keying} {key : K} : key ∈ set.keys ↔ set.contains key = true := by
  simp [keys, contains_eq_true_iff, find_eq_some_iff]

theorem card_keys (set : KeyedSet keying) : set.keys.card = set.length := by
  rw [keys, List.toFinset_card_of_nodup set.distinct, List.length_map, length]

@[simp] theorem find_empty (key : K) : (empty : KeyedSet keying).find key = none := rfl

theorem find_erase (set : KeyedSet keying) (key other : K) :
    (set.erase key).find other = if other = key then none else set.find other := by
  apply Option.ext
  intro element
  rw [find_eq_some_iff]
  simp only [erase, List.mem_filter, decide_eq_true_eq]
  split
  · next same =>
    subst same
    simp
  · next different =>
    rw [find_eq_some_iff]
    constructor
    · exact fun found => ⟨found.1.1, found.2⟩
    · exact fun found => ⟨⟨found.1, found.2 ▸ different⟩, found.2⟩

theorem find_insert (set : KeyedSet keying) (element : E) (key : K) : (set.insert element).find key =
      if key = keying.toKey element then some ((set.find key).getD element) else set.find key := by
  unfold insert
  split
  · next absent =>
    apply Option.ext
    intro other
    rw [find_eq_some_iff]
    simp only [(keying.place_perm element set.elements).mem_iff, List.mem_cons]
    split
    · next same =>
      subst same
      rw [absent, Option.getD_none, Option.some.injEq]
      constructor
      · rintro ⟨rfl | inside, equal⟩
        · rfl
        · exact absurd equal (find_eq_none_iff.mp absent other inside)
      · rintro rfl
        exact ⟨.inl rfl, rfl⟩
    · next different =>
      rw [find_eq_some_iff]
      constructor
      · rintro ⟨rfl | inside, rfl⟩
        · exact absurd rfl different
        · exact ⟨inside, rfl⟩
      · exact fun found => ⟨.inr found.1, found.2⟩
  · next present =>
    split
    · next same =>
      subst same
      obtain ⟨old, found⟩ := Option.ne_none_iff_exists'.mp present
      rw [found]
      rfl
    · rfl

/-- A replaced element is found under its key. -/
theorem find_erase_insert (set : KeyedSet keying) (element : E) (key : K) :
    ((set.erase (keying.toKey element)).insert element).find key =
      if key = keying.toKey element then some element else set.find key := by
  rw [find_insert, find_erase]
  split <;> rfl

theorem find_modify (set : KeyedSet keying) (key : K) (changed : KeyedChange keying) (other : K) :
    (set.modify key changed).find other =
      if other = key then (set.find other).map changed.change else set.find other := by
  have keysSame : ∀ element, keying.toKey
      (if keying.toKey element = key then changed.change element else element) = keying.toKey element := by
    intro element
    split
    · exact changed.keeps element
    · rfl
  simp only [find, modify, List.find?_map, Function.comp_def, keysSame]
  split
  · next same =>
    subst same
    cases found : set.elements.find? fun element => keying.toKey element = other with
    | none => rfl
    | some element =>
      have equal : keying.toKey element = other := by simpa using List.find?_some found
      simp [equal]
  · next different =>
    cases found : set.elements.find? fun element => keying.toKey element = other with
    | none => rfl
    | some element =>
      have equal : keying.toKey element = other := by simpa using List.find?_some found
      simp [equal, different]

@[simp] theorem contains_empty (key : K) : (empty : KeyedSet keying).contains key = false := rfl

@[simp] theorem contains_insert (set : KeyedSet keying) (element : E) (key : K) :
    (set.insert element).contains key = (decide (key = keying.toKey element) || set.contains key) := by
  unfold contains
  rw [find_insert]
  split
  · next same => simp [same]
  · next different => simp [different]

@[simp] theorem contains_erase (set : KeyedSet keying) (key other : K) :
    (set.erase key).contains other = (!decide (other = key) && set.contains other) := by
  unfold contains
  rw [find_erase]
  split
  · next same => simp [same]
  · next different => simp [different]

@[simp] theorem contains_modify (set : KeyedSet keying) (key : K) (changed : KeyedChange keying)
    (other : K) : (set.modify key changed).contains other = set.contains other := by
  unfold contains
  rw [find_modify]
  split
  · exact Option.isSome_map
  · rfl

/-- Insertions in sequence keep the elements that were there and add the first new ones. -/
theorem find_foldl_insert (set : KeyedSet keying) (elements : List E) (key : K) : (elements.foldl insert set).find key =
      (set.find key).or (elements.find? fun element => keying.toKey element = key) := by
  induction elements generalizing set with
  | nil => simp
  | cons element elements ih =>
    rw [List.foldl_cons, ih, find_insert, List.find?_cons]
    by_cases same : key = keying.toKey element
    · subst same
      cases set.find (keying.toKey element) <;> simp
    · have apart : ¬keying.toKey element = key := fun equal => same equal.symm
      simp [same, apart]

/-- Removals in sequence remove exactly the keys of the removed elements. -/
theorem find_foldl_erase (set removed : KeyedSet keying) (key : K) :
    (removed.elements.foldl (fun set element => set.erase (keying.toKey element)) set).find key =
      if removed.contains key then none else set.find key := by
  have general : ∀ (elements : List E) (set : KeyedSet keying),
      (elements.foldl (fun set element => set.erase (keying.toKey element)) set).find key =
        if key ∈ elements.map keying.toKey then none else set.find key := by
    intro elements
    induction elements with
    | nil => intro set; rfl
    | cons element elements ih =>
      intro set
      rw [List.foldl_cons, ih, find_erase, List.map_cons]
      by_cases same : key = keying.toKey element <;> simp [same]
  rw [general]
  have member : key ∈ removed.elements.map keying.toKey ↔ removed.contains key = true := by
    rw [← mem_keys, keys, List.mem_toFinset]
  simp only [member]

/-- The elements are weighed and summed. -/
def total (weight : E → Nat) (set : KeyedSet keying) : Nat := (set.elements.map weight).sum

/-- An element is found, and the others remain when it is erased. -/
theorem elements_perm_erase {set : KeyedSet keying} {key : K} {element : E} (found : set.find key = some element) :
    set.elements.Perm (element :: (set.erase key).elements) := by
  obtain ⟨inside, same⟩ := find_eq_some_iff.mp found
  have notErased : element ∉ (set.erase key).elements := by
    intro member
    exact of_decide_eq_true (List.mem_filter.mp member).2 same
  rw [List.perm_ext_iff_of_nodup set.distinct.of_map (List.nodup_cons.mpr ⟨notErased, (set.erase key).distinct.of_map⟩)]
  intro other
  rw [List.mem_cons]
  constructor
  · intro member
    by_cases equal : keying.toKey other = key
    · exact .inl (List.inj_on_of_nodup_map set.distinct member inside (equal.trans same.symm))
    · exact .inr (List.mem_filter.mpr ⟨member, decide_eq_true equal⟩)
  · rintro (rfl | member)
    · exact inside
    · exact List.mem_of_mem_filter member

theorem total_erase (weight : E → Nat) {set : KeyedSet keying} {key : K} {element : E} (found : set.find key = some element) :
    (set.erase key).total weight + weight element = set.total weight := by
  rw [total, total, ((elements_perm_erase found).map weight).sum_eq, List.map_cons, List.sum_cons, Nat.add_comm]

theorem elements_insert {set : KeyedSet keying} {element : E} (absent : set.find (keying.toKey element) = none) :
    (set.insert element).elements = keying.place element set.elements := by
  rw [insert, dif_pos absent]

theorem total_insert (weight : E → Nat) {set : KeyedSet keying} {element : E} (absent : set.find (keying.toKey element) = none) :
    (set.insert element).total weight = set.total weight + weight element := by
  rw [total, elements_insert absent, ((keying.place_perm element set.elements).map weight).sum_eq, List.map_cons,
    List.sum_cons, Nat.add_comm]
  rfl

theorem total_modify (weight : E → Nat) {set : KeyedSet keying} {key : K} {element : E} (changed : KeyedChange keying)
    (found : set.find key = some element) :
    (set.modify key changed).total weight + weight element = set.total weight + weight (changed.change element) := by
  have kept : ∀ other ∈ (set.erase key).elements, (if keying.toKey other = key then changed.change other else other) = other :=
    fun other member => if_neg (of_decide_eq_true (List.mem_filter.mp member).2)
  have perm := (elements_perm_erase found).map fun other =>
    if keying.toKey other = key then changed.change other else other
  rw [List.map_cons, if_pos (toKey_of_find found), List.map_congr_left kept, List.map_id_fun'] at perm
  have modified : (set.modify key changed).total weight = weight (changed.change element) + (set.erase key).total weight :=
    (perm.map weight).sum_eq
  have erased := total_erase weight found
  omega

end KeyedSet
