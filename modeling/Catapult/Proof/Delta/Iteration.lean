import Catapult.Construction.Delta.BaseSetDelta
import Mathlib.Data.Finmap

/-
This file shows that a delta behaves like a plain map and that an iteration visits the elements of its view once each.
-/

namespace Catapult.Delta

variable {K E : Type} {keying : Keying K E} [DecidableEq K]

/-- The containers of a delta overlap only in these ways. -/
structure Consistent (delta : BaseSetDelta keying) : Prop where
  added : ∀ key, delta.addedElements.contains key = true → delta.originalElements.contains key = false
  copied : ∀ key, delta.copiedElements.contains key = true → delta.originalElements.contains key = true
  removed : ∀ key, delta.removedElements.contains key = true →
    delta.originalElements.contains key = true ∨ delta.addedElements.contains key = true

theorem consistent_ofSet (base : KeyedSet keying) : Consistent (BaseSetDelta.ofSet base) := by
  constructor <;> intro _ present <;> cases present

/-- A new delta shows the original elements. -/
theorem find_ofSet (base : KeyedSet keying) (key : K) : (BaseSetDelta.ofSet base).find key = base.find key := by
  cases found : base.find key <;>
    simp [BaseSetDelta.find, BaseSetDelta.findOriginal, BaseSetDelta.ofSet, found]

namespace BaseSetDelta

/-- A search reads the copies, the original elements and the added elements in this order. -/
theorem find_eq (delta : BaseSetDelta keying) (key : K) : delta.find key =
      if delta.removedElements.contains key then none
      else ((delta.copiedElements.find key).or (delta.originalElements.find key)).or
        (delta.addedElements.find key) := by
  unfold find findOriginal
  split
  · rfl
  · cases delta.copiedElements.find key <;> cases delta.originalElements.find key <;> rfl

/-- A search finds an element with the searched key. -/
theorem toKey_of_find {delta : BaseSetDelta keying} {key : K} {element : E}
    (found : delta.find key = some element) : keying.toKey element = key := by
  rw [find_eq] at found
  split at found
  · cases found
  · rcases Option.or_eq_some_iff.mp found with either | ⟨_, added⟩
    · rcases Option.or_eq_some_iff.mp either with copied | ⟨_, original⟩
      · exact KeyedSet.toKey_of_find copied
      · exact KeyedSet.toKey_of_find original
    · exact KeyedSet.toKey_of_find added

/-- An insertion takes the key out of the removed elements. -/
def unremove (delta : BaseSetDelta keying) (key : K) : BaseSetDelta keying :=
  if delta.removedElements.contains key then
    { delta with removedElements := delta.removedElements.erase key }
  else delta

@[simp] theorem unremove_original (delta : BaseSetDelta keying) (key : K) :
    (delta.unremove key).originalElements = delta.originalElements := by
  unfold unremove; split <;> rfl

@[simp] theorem unremove_added (delta : BaseSetDelta keying) (key : K) :
    (delta.unremove key).addedElements = delta.addedElements := by
  unfold unremove; split <;> rfl

@[simp] theorem unremove_copied (delta : BaseSetDelta keying) (key : K) :
    (delta.unremove key).copiedElements = delta.copiedElements := by
  unfold unremove; split <;> rfl

@[simp] theorem unremove_removed (delta : BaseSetDelta keying) (key other : K) :
    (delta.unremove key).removedElements.contains other = (!decide (other = key) && delta.removedElements.contains other) := by
  unfold unremove
  split
  · simp
  · next absent =>
    by_cases same : other = key
    · simp [same, absent]
    · simp [same]

/-- A consistent delta inserts into the copies if and only if the key is original. -/
theorem insert_eq {delta : BaseSetDelta keying} (consistent : Consistent delta) (element : E) : (delta.insert element).2 =
      if delta.originalElements.contains (keying.toKey element) then
        ((delta.unremove (keying.toKey element)).markKey (keying.toKey element)).replaceCopied element
      else
        ((delta.unremove (keying.toKey element)).markKey (keying.toKey element)).replaceAdded element := by
  have overlap := consistent.added (keying.toKey element)
  have known := consistent.removed (keying.toKey element)
  unfold insert unremove
  cases removed : delta.removedElements.contains (keying.toKey element) <;>
    cases original : delta.originalElements.contains (keying.toKey element) <;>
    cases added : delta.addedElements.contains (keying.toKey element) <;>
    simp_all <;> rfl

/-- A removal of a missing key changes nothing, and any other removal marks the key. -/
theorem remove_cases (delta : BaseSetDelta keying) (key : K) : (delta.find key = none ∧ (delta.remove key).2 = delta) ∨
    ∃ element copied, keying.toKey element = key ∧
      (delta.originalElements.contains key = true ∨ delta.copiedElements.contains key = true ∨
        delta.addedElements.contains key = true) ∧
      (∀ other, copied.find other = if other = key then none else delta.copiedElements.find other) ∧
      (delta.remove key).2 = { delta.markKey key with
        removedElements := delta.removedElements.insert element
        copiedElements := copied } := by
  rw [find_eq]
  unfold remove
  cases removed : delta.removedElements.contains key with
  | true => exact .inl ⟨rfl, rfl⟩
  | false =>
    cases copied : delta.copiedElements.find key with
    | some element =>
      refine .inr ⟨element, delta.copiedElements.erase key, KeyedSet.toKey_of_find copied, ?_, ?_, rfl⟩
      · exact .inr (.inl (KeyedSet.contains_eq_true_iff.mpr ⟨element, copied⟩))
      · exact KeyedSet.find_erase _ _
    | none =>
      have kept : ∀ other, delta.copiedElements.find other =
          if other = key then none else delta.copiedElements.find other := by
        intro other
        split
        · next same => rw [same, copied]
        · rfl
      cases added : delta.addedElements.find key with
      | some element =>
        refine .inr ⟨element, _, KeyedSet.toKey_of_find added, ?_, kept, rfl⟩
        exact .inr (.inr (KeyedSet.contains_eq_true_iff.mpr ⟨element, added⟩))
      | none =>
        cases original : delta.originalElements.find key with
        | some element =>
          refine .inr ⟨element, _, KeyedSet.toKey_of_find original, ?_, kept, rfl⟩
          exact .inl (KeyedSet.contains_eq_true_iff.mpr ⟨element, original⟩)
        | none => exact .inl ⟨rfl, rfl⟩

/-- A change in place affects a copy of an original element or an added element. -/
theorem change_cases (delta : BaseSetDelta keying) (key : K) (changed : KeyedSet.KeyedChange keying) :
    (delta.find key = none ∧ delta.change key changed = delta) ∨ (∃ element copied, delta.removedElements.contains key = false ∧
      (delta.copiedElements.find key).or (delta.originalElements.find key) = some element ∧
      (∀ other, copied.find other =
        if other = key then some (changed.change element) else delta.copiedElements.find other) ∧
      delta.change key changed = { delta.markKey key with copiedElements := copied }) ∨
    (delta.removedElements.contains key = false ∧ delta.copiedElements.find key = none ∧
      delta.originalElements.find key = none ∧ delta.addedElements.contains key = true ∧
      delta.change key changed =
        { delta.markKey key with addedElements := delta.addedElements.modify key changed }) := by
  rw [find_eq]
  unfold change findMutable copyOriginal
  cases removed : delta.removedElements.contains key with
  | true => exact .inl ⟨rfl, rfl⟩
  | false =>
    cases copied : delta.copiedElements.find key with
    | some element =>
      refine .inr (.inl ⟨element, delta.copiedElements.modify key changed, rfl, rfl, ?_, rfl⟩)
      intro other
      rw [KeyedSet.find_modify]
      split
      · next same => rw [same, copied]; rfl
      · rfl
    | none =>
      cases original : delta.originalElements.find key with
      | some element =>
        refine .inr (.inl ⟨element, (delta.copiedElements.insert element).modify key changed, rfl, rfl, ?_, rfl⟩)
        have same := KeyedSet.toKey_of_find original
        intro other
        rw [KeyedSet.find_modify, KeyedSet.find_insert, same]
        split
        · next equal => rw [equal, copied]; rfl
        · rfl
      | none =>
        cases added : delta.addedElements.find key with
        | some element =>
          refine .inr (.inr ⟨rfl, rfl, rfl, ?_, ?_⟩)
          · exact KeyedSet.contains_eq_true_iff.mpr ⟨element, added⟩
          · simp only [added]; rfl
        | none => exact .inl ⟨rfl, by simp only [added]; rfl⟩

theorem replaceCopied_find (delta : BaseSetDelta keying) (element : E) (key : K) :
    (delta.replaceCopied element).copiedElements.find key =
      if key = keying.toKey element then some element else delta.copiedElements.find key :=
  KeyedSet.find_erase_insert _ _ _

theorem replaceAdded_find (delta : BaseSetDelta keying) (element : E) (key : K) :
    (delta.replaceAdded element).addedElements.find key =
      if key = keying.toKey element then some element else delta.addedElements.find key :=
  KeyedSet.find_erase_insert _ _ _

end BaseSetDelta

theorem contains_of_find_eq {first second : KeyedSet keying} {key : K}
    (same : first.find key = second.find key) : first.contains key = second.contains key := by
  rw [KeyedSet.contains, KeyedSet.contains, same]

namespace Consistent

variable {delta : BaseSetDelta keying}

/-- An insertion keeps the containers consistent. -/
theorem insert (consistent : Consistent delta) (element : E) : Consistent (delta.insert element).2 := by
  rw [BaseSetDelta.insert_eq consistent]
  split
  · next original =>
    refine ⟨fun key => ?_, fun key => ?_, fun key => ?_⟩
    · simpa [BaseSetDelta.replaceCopied, BaseSetDelta.markKey] using consistent.added key
    · intro present
      simp only [BaseSetDelta.replaceCopied, BaseSetDelta.markKey, BaseSetDelta.unremove_copied,
        BaseSetDelta.unremove_original, KeyedSet.contains_insert, KeyedSet.contains_erase] at present ⊢
      by_cases same : key = keying.toKey element
      · rw [same, original]
      · exact consistent.copied key (by simpa [same] using present)
    · intro present
      have before : delta.removedElements.contains key = true := by
        simp only [BaseSetDelta.replaceCopied, BaseSetDelta.markKey, BaseSetDelta.unremove_removed, Bool.and_eq_true] at present
        exact present.2
      simpa [BaseSetDelta.replaceCopied, BaseSetDelta.markKey] using consistent.removed key before
  · next missing =>
    refine ⟨fun key => ?_, fun key => ?_, fun key => ?_⟩
    · intro present
      simp only [BaseSetDelta.replaceAdded, BaseSetDelta.markKey, BaseSetDelta.unremove_added,
        BaseSetDelta.unremove_original, KeyedSet.contains_insert, KeyedSet.contains_erase] at present ⊢
      by_cases same : key = keying.toKey element
      · rw [same]
        simpa using missing
      · exact consistent.added key (by simpa [same] using present)
    · simpa [BaseSetDelta.replaceAdded, BaseSetDelta.markKey] using consistent.copied key
    · intro present
      simp only [BaseSetDelta.replaceAdded, BaseSetDelta.markKey, BaseSetDelta.unremove_removed,
        BaseSetDelta.unremove_original, BaseSetDelta.unremove_added, Bool.and_eq_true,
        KeyedSet.contains_insert, KeyedSet.contains_erase] at present ⊢
      have different : key ≠ keying.toKey element := by simpa using present.1
      simpa [different] using consistent.removed key present.2

/-- An inserted element is found under its key and no other key is affected. -/
theorem find_insert (consistent : Consistent delta) (element : E) (key : K) : (delta.insert element).2.find key =
      if key = keying.toKey element then some element else delta.find key := by
  rw [BaseSetDelta.insert_eq consistent, BaseSetDelta.find_eq, BaseSetDelta.find_eq]
  split
  · rw [BaseSetDelta.replaceCopied_find]
    simp only [BaseSetDelta.replaceCopied, BaseSetDelta.markKey, BaseSetDelta.unremove_removed,
      BaseSetDelta.unremove_copied, BaseSetDelta.unremove_original, BaseSetDelta.unremove_added]
    by_cases same : key = keying.toKey element <;> simp [same]
  · next missing =>
    rw [BaseSetDelta.replaceAdded_find]
    simp only [BaseSetDelta.replaceAdded, BaseSetDelta.markKey, BaseSetDelta.unremove_removed,
      BaseSetDelta.unremove_copied, BaseSetDelta.unremove_original, BaseSetDelta.unremove_added]
    by_cases same : key = keying.toKey element
    · -- A key that is not original has no copy either.
      have original : delta.originalElements.find (keying.toKey element) = none :=
        KeyedSet.contains_eq_false_iff.mp (by simpa using missing)
      have copied : delta.copiedElements.find (keying.toKey element) = none := by
        rw [← KeyedSet.contains_eq_false_iff]
        by_contra present
        exact missing (consistent.copied _ (by simpa using present))
      simp [same, original, copied]
    · simp [same]

/-- A removal keeps the containers consistent. -/
theorem remove (consistent : Consistent delta) (key : K) : Consistent (delta.remove key).2 := by
  rcases delta.remove_cases key with ⟨_, same⟩ | ⟨element, copied, keyed, present, kept, same⟩
  · rw [same]
    exact consistent
  · rw [same]
    refine ⟨consistent.added, fun other => ?_, fun other => ?_⟩
    · intro found
      apply consistent.copied other
      unfold KeyedSet.contains at found ⊢
      rw [kept] at found
      split at found
      · cases found
      · exact found
    · intro found
      rw [KeyedSet.contains_insert, keyed, Bool.or_eq_true, decide_eq_true_eq] at found
      rcases found with rfl | before
      · rcases present with original | copy | added
        · exact .inl original
        · exact .inl (consistent.copied other copy)
        · exact .inr added
      · exact consistent.removed other before

/-- A removed key is missing and no other key is affected. -/
theorem find_remove (delta : BaseSetDelta keying) (key other : K) :
    (delta.remove key).2.find other = if other = key then none else delta.find other := by
  rcases delta.remove_cases key with ⟨missing, same⟩ | ⟨element, copied, keyed, _, kept, same⟩
  · rw [same]
    split
    · next equal => rw [equal, missing]
    · rfl
  · rw [same, BaseSetDelta.find_eq, BaseSetDelta.find_eq]
    simp only [BaseSetDelta.markKey, KeyedSet.contains_insert, keyed, kept]
    by_cases equal : other = key <;> simp [equal]

/-- A change in place keeps the containers consistent. -/
theorem change (consistent : Consistent delta) (key : K) (changed : KeyedSet.KeyedChange keying) :
    Consistent (delta.change key changed) := by
  rcases delta.change_cases key changed with ⟨_, same⟩ |
    ⟨element, copied, _, found, kept, same⟩ | ⟨_, _, _, _, same⟩
  · rw [same]
    exact consistent
  · rw [same]
    refine ⟨consistent.added, fun other => ?_, consistent.removed⟩
    intro present
    by_cases equal : other = key
    · subst equal
      cases copy : delta.copiedElements.find other with
      | some _ => exact consistent.copied other (KeyedSet.contains_eq_true_iff.mpr ⟨_, copy⟩)
      | none =>
        rw [copy, Option.none_or] at found
        exact KeyedSet.contains_eq_true_iff.mpr ⟨_, found⟩
    · apply consistent.copied other
      rwa [← contains_of_find_eq ((kept other).trans (if_neg equal))]
  · rw [same]
    refine ⟨fun other => ?_, consistent.copied, fun other => ?_⟩
    · simpa [BaseSetDelta.markKey] using consistent.added other
    · simpa [BaseSetDelta.markKey] using consistent.removed other

/-- A change in place affects the element of its key and no other key. -/
theorem find_change (delta : BaseSetDelta keying) (key : K) (changed : KeyedSet.KeyedChange keying) (other : K) :
    (delta.change key changed).find other =
      if other = key then (delta.find other).map changed.change else delta.find other := by
  rcases delta.change_cases key changed with ⟨missing, same⟩ |
    ⟨element, copied, removed, found, kept, same⟩ | ⟨removed, copy, original, _, same⟩
  · rw [same]
    split
    · next equal => rw [equal, missing]; rfl
    · rfl
  · rw [same, BaseSetDelta.find_eq, BaseSetDelta.find_eq]
    simp only [BaseSetDelta.markKey, kept]
    by_cases equal : other = key
    · simp [equal, removed, found]
    · simp [equal]
  · rw [same, BaseSetDelta.find_eq, BaseSetDelta.find_eq]
    simp only [BaseSetDelta.markKey, KeyedSet.find_modify]
    by_cases equal : other = key
    · simp [equal, removed, copy, original]
    · simp [equal]

/-- Every operation keeps the containers consistent. -/
theorem apply (consistent : Consistent delta) (operation : DeltaOperation keying) : Consistent (delta.apply operation) := by
  cases operation with
  | insert element => exact consistent.insert element
  | remove key => exact consistent.remove key
  | find key => exact consistent
  | change key changed => exact consistent.change key changed
  | contains key => exact consistent

/-- The containment test agrees with the search. -/
theorem contains_eq (consistent : Consistent delta) (key : K) : delta.contains key = (delta.find key).isSome := by
  rw [BaseSetDelta.find_eq, BaseSetDelta.contains]
  cases removed : delta.removedElements.contains key with
  | true => rfl
  | false =>
    have copied := consistent.copied key
    unfold KeyedSet.contains at copied ⊢
    cases copy : delta.copiedElements.find key with
    | none =>
      cases delta.originalElements.find key <;> cases delta.addedElements.find key <;> rfl
    | some element =>
      rw [copy] at copied
      simp [copied rfl]

/-- The mutable search finds what the constant search finds. -/
theorem findMutable_eq (delta : BaseSetDelta keying) (key : K) : (delta.findMutable key).1.map Prod.snd = delta.find key := by
  rw [BaseSetDelta.find_eq]
  unfold BaseSetDelta.findMutable BaseSetDelta.copyOriginal
  cases delta.removedElements.contains key with
  | true => rfl
  | false =>
    cases delta.copiedElements.find key with
    | some element => rfl
    | none =>
      cases delta.originalElements.find key with
      | some element => rfl
      | none => cases added : delta.addedElements.find key <;> simp [added]

/-- A key is visible if it is known and not removed. -/
theorem contains_iff_keys (delta : BaseSetDelta keying) (key : K) : delta.contains key = true ↔ key ∈
      (delta.originalElements.keys ∪ delta.addedElements.keys) \ delta.removedElements.keys := by
  simp only [Finset.mem_sdiff, Finset.mem_union, KeyedSet.mem_keys, BaseSetDelta.contains, Bool.and_eq_true,
    Bool.or_eq_true, Bool.not_eq_true', Bool.not_eq_true]
  rw [and_comm, or_comm]

/-- The arithmetic over the sizes of the containers counts the visible keys. -/
theorem size_eq (consistent : Consistent delta) : delta.size = UInt64.ofNat
      ((delta.originalElements.keys ∪ delta.addedElements.keys) \ delta.removedElements.keys).card := by
  have apart : Disjoint delta.originalElements.keys delta.addedElements.keys := by
    rw [Finset.disjoint_left]
    intro key original added
    rw [KeyedSet.mem_keys] at original added
    rw [consistent.added key added] at original
    cases original
  have known : delta.removedElements.keys ⊆ delta.originalElements.keys ∪ delta.addedElements.keys := by
    intro key removed
    simpa [KeyedSet.mem_keys] using consistent.removed key (KeyedSet.mem_keys.mp removed)
  have count := Finset.card_sdiff_add_card_eq_card known
  rw [Finset.card_union_of_disjoint apart] at count
  simp only [KeyedSet.card_keys] at count
  have wrapped := congrArg UInt64.ofNat count
  rw [UInt64.ofNat_add, UInt64.ofNat_add] at wrapped
  unfold BaseSetDelta.size
  grind

end Consistent

/-- Updating copies succeeds if every key exists and replaces the elements of these keys. -/
theorem foldlM_updateCopied (set : KeyedSet keying) (elements : List E) (distinct : (elements.map keying.toKey).Nodup)
    (known : ∀ element ∈ elements, set.contains (keying.toKey element) = true) :
    ∃ updated, elements.foldlM updateCopied set = .ok updated ∧ ∀ key, updated.find key =
        (elements.find? fun element => keying.toKey element = key).or (set.find key) := by
  induction elements generalizing set with
  | nil => exact ⟨set, rfl, fun key => rfl⟩
  | cons element elements ih =>
    obtain ⟨old, present⟩ := KeyedSet.contains_eq_true_iff.mp (known element List.mem_cons_self)
    rw [List.map_cons, List.nodup_cons] at distinct
    have replaced := KeyedSet.find_erase_insert set element
    obtain ⟨updated, ran, found⟩ := ih ((set.erase (keying.toKey element)).insert element) distinct.2
      (fun other inside => by
        rw [KeyedSet.contains_insert, KeyedSet.contains_erase]
        have before := known other (List.mem_cons_of_mem _ inside)
        by_cases same : keying.toKey other = keying.toKey element <;> simp [same, before])
    have stepped : updateCopied set element = .ok ((set.erase (keying.toKey element)).insert element) := by
      simp only [updateCopied, present]
    refine ⟨updated, ?_, fun key => ?_⟩
    · rw [List.foldlM_cons, stepped]
      exact ran
    · rw [found, replaced, List.find?_cons]
      by_cases same : key = keying.toKey element
      · have absent : (elements.find? fun other => keying.toKey other = key) = none := by
          rw [List.find?_eq_none]
          intro other inside equal
          refine distinct.1 (List.mem_map.mpr ⟨other, inside, ?_⟩)
          rw [← same]
          simpa using equal
        rw [absent]
        simp [same]
      · have apart : ¬keying.toKey element = key := fun equal => same equal.symm
        simp [same, apart]

/-- A commit never throws, gives the elements of the view and clears the delta. -/
theorem Consistent.commit {delta : BaseSetDelta keying} (consistent : Consistent delta) :
    ∃ elements, (BaseSet.mk delta.originalElements (some delta)).commit = .ok ⟨elements, some (BaseSetDelta.ofSet elements)⟩ ∧
      ∀ key, elements.find key = delta.find key := by
  obtain ⟨updated, ran, found⟩ := foldlM_updateCopied
    (delta.addedElements.elements.foldl KeyedSet.insert delta.originalElements)
    delta.copiedElements.elements delta.copiedElements.distinct (fun element inside => by
      have copy : delta.copiedElements.contains (keying.toKey element) = true :=
        KeyedSet.contains_eq_true_iff.mpr ⟨element, KeyedSet.find_eq_some_iff.mpr ⟨inside, rfl⟩⟩
      obtain ⟨original, present⟩ := KeyedSet.contains_eq_true_iff.mp (consistent.copied _ copy)
      rw [KeyedSet.contains, KeyedSet.find_foldl_insert, present]
      rfl)
  refine ⟨delta.removedElements.elements.foldl
    (fun elements element => elements.erase (keying.toKey element)) updated, ?_, fun key => ?_⟩
  · simp only [BaseSet.commit, updateSet, BaseSetDelta.deltas]
    rw [ran]
    rfl
  · rw [KeyedSet.find_foldl_erase, found, KeyedSet.find_foldl_insert, BaseSetDelta.find_eq, Option.or_assoc]
    rfl

namespace BaseSetDeltaIterationView

/-- The visible form of an original element is its copy if there is one. -/
def visibleOriginal (view : BaseSetDeltaIterationView keying) (element : E) : Option E :=
  if view.deltas.removed.contains (keying.toKey element) then none
  else some ((view.deltas.copied.find (keying.toKey element)).getD element)

def visibleAdded (view : BaseSetDeltaIterationView keying) (element : E) : Bool :=
  !view.deltas.removed.contains (keying.toKey element)

/-- An iterator has these elements before it, wherever the next valid element is. -/
def pending (view : BaseSetDeltaIterationView keying) (iterator : ViewIterator E) : List E :=
  match iterator.stage with
  | .original =>
    iterator.originalIter.filterMap view.visibleOriginal ++ view.deltas.added.elements.filter view.visibleAdded
  | .added => iterator.iter.filter view.visibleAdded

/-- The original stage stops at the first visible element. -/
theorem handleOriginalStage_cases (view : BaseSetDeltaIterationView keying) (elements : List E) :
    (view.handleOriginalStage elements = none ∧ elements.filterMap view.visibleOriginal = []) ∨
    ∃ element visible rest iter, view.handleOriginalStage elements = some (iter, element :: rest) ∧ iter.head? = some visible ∧
      elements.filterMap view.visibleOriginal = visible :: rest.filterMap view.visibleOriginal := by
  induction elements with
  | nil => exact .inl ⟨rfl, rfl⟩
  | cons element elements ih =>
    cases removed : view.deltas.removed.contains (keying.toKey element) with
    | true =>
      have hidden : view.visibleOriginal element = none := by simp [visibleOriginal, removed]
      simpa [handleOriginalStage, removed, List.filterMap_cons, hidden] using ih
    | false =>
      right
      cases copied : view.deltas.copied.find (keying.toKey element) with
      | none =>
        refine ⟨element, element, elements, element :: elements, ?_, rfl, ?_⟩
        · simp [handleOriginalStage, removed, copied]
        · simp [visibleOriginal, removed, copied]
      | some copy =>
        refine ⟨element, copy, elements, [copy], ?_, rfl, ?_⟩
        · simp [handleOriginalStage, removed, copied]
        · simp [visibleOriginal, removed, copied]

/-- The added stage stops at the first visible element. -/
theorem handleAddedStage_cons {view : BaseSetDeltaIterationView keying} {elements : List E} {visible : E}
    {rest : List E} (filtered : elements.filter view.visibleAdded = visible :: rest) :
    (view.handleAddedStage elements).head? = some visible ∧
      (view.handleAddedStage elements).tail.filter view.visibleAdded = rest := by
  induction elements with
  | nil => cases filtered
  | cons element elements ih =>
    cases removed : view.deltas.removed.contains (keying.toKey element) with
    | true =>
      have hidden : view.visibleAdded element = false := by simp [visibleAdded, removed]
      rw [List.filter_cons_of_neg (by simp [hidden])] at filtered
      simpa [handleAddedStage, removed] using ih filtered
    | false =>
      have shown : view.visibleAdded element = true := by simp [visibleAdded, removed]
      rw [List.filter_cons_of_pos shown, List.cons.injEq] at filtered
      obtain ⟨rfl, others⟩ := filtered
      simp [handleAddedStage, removed, others]

@[simp] theorem moveToValidElement_position (view : BaseSetDeltaIterationView keying)
    (iterator : ViewIterator E) : (view.moveToValidElement iterator).position = iterator.position := by
  unfold moveToValidElement
  split
  · split <;> rfl
  · rfl

omit [DecidableEq K] in
@[simp] theorem incrementIterator_position (iterator : ViewIterator E) :
    (incrementIterator iterator).position = iterator.position := by
  unfold incrementIterator
  split <;> rfl

/-- A moved iterator points to its first pending element. -/
theorem moveToValidElement_cons {view : BaseSetDeltaIterationView keying} {iterator : ViewIterator E}
    {visible : E} {rest : List E} (next : view.pending iterator = visible :: rest) (position : UInt64) :
    (view.moveToValidElement iterator).iter.head? = some visible ∧
      view.pending (incrementIterator { view.moveToValidElement iterator with position }) = rest := by
  unfold pending at next
  unfold moveToValidElement
  cases stage : iterator.stage with
  | original =>
    rw [stage] at next
    rcases view.handleOriginalStage_cases iterator.originalIter with
      ⟨finished, none⟩ | ⟨element, first, others, iter, moved, head, visibles⟩
    · rw [none, List.nil_append] at next
      obtain ⟨head, tail⟩ := handleAddedStage_cons next
      simp only [finished]
      exact ⟨head, by simpa [pending, incrementIterator] using tail⟩
    · rw [visibles, List.cons_append, List.cons.injEq] at next
      obtain ⟨rfl, others⟩ := next
      simp only [moved]
      exact ⟨head, by simpa [pending, incrementIterator, stage] using others⟩
  | added =>
    rw [stage] at next
    obtain ⟨head, tail⟩ := handleAddedStage_cons next
    exact ⟨head, by simpa [pending, incrementIterator, stage] using tail⟩

/-- A loop from a moved iterator visits exactly the pending elements. -/
theorem collectFrom_eq {view : BaseSetDeltaIterationView keying} {visible : List E} (fuel : Nat)
    {iterator : ViewIterator E} (next : view.pending iterator = visible)
    (distance : iterator.position + UInt64.ofNat visible.length = view.size)
    (fits : visible.length < 2 ^ 64) (enough : visible.length < fuel) :
    view.collectFrom fuel (view.moveToValidElement iterator) = some visible := by
  induction visible generalizing iterator fuel with
  | nil =>
    obtain ⟨fuel, rfl⟩ := Nat.exists_eq_succ_of_ne_zero (Nat.ne_of_gt enough)
    have arrived : iterator.position = view.size := by simpa using distance
    simp [collectFrom, arrived]
  | cons element visible ih =>
    obtain ⟨fuel, rfl⟩ := Nat.exists_eq_succ_of_ne_zero (Nat.ne_of_gt (Nat.zero_lt_of_lt enough))
    rw [List.length_cons] at distance fits enough
    have before : iterator.position ≠ view.size := by
      intro arrived
      have zero : UInt64.ofNat (visible.length + 1) = 0 := by grind
      have value := congrArg UInt64.toNat zero
      rw [UInt64.toNat_ofNat_of_lt' fits] at value
      exact Nat.succ_ne_zero _ value
    obtain ⟨head, rest⟩ := moveToValidElement_cons next (iterator.position + 1)
    have tail := ih fuel rest (by
      rw [UInt64.ofNat_add] at distance
      rw [incrementIterator_position, ← distance]
      grind) (by omega) (by omega)
    simp [collectFrom, dereference, BaseSetDeltaIterationView.next, before, head, tail]

/-- The visible elements of a view in the order of iteration. -/
def visibleElements (view : BaseSetDeltaIterationView keying) : List E :=
  view.originalElements.elements.filterMap view.visibleOriginal ++ view.deltas.added.elements.filter view.visibleAdded

/-- A range loop over a view visits its visible elements. -/
theorem collect_eq {view : BaseSetDeltaIterationView keying} {fuel : Nat}
    (size : view.size = UInt64.ofNat view.visibleElements.length)
    (fits : view.visibleElements.length < 2 ^ 64) (enough : view.visibleElements.length < fuel) :
    view.collect fuel = some view.visibleElements := by
  unfold collect iteratorAt
  by_cases none : (0 : UInt64) = view.size
  · have empty : view.visibleElements = [] := by
      rw [size] at none
      have value := congrArg UInt64.toNat none
      rw [UInt64.toNat_ofNat_of_lt' fits] at value
      exact List.eq_nil_of_length_eq_zero value.symm
    obtain ⟨fuel, rfl⟩ := Nat.exists_eq_succ_of_ne_zero (Nat.ne_of_gt (Nat.zero_lt_of_lt enough))
    simp [collectFrom, empty, ← none]
  · rw [if_neg none]
    exact collectFrom_eq fuel rfl (by simpa using size.symm) fits enough

end BaseSetDeltaIterationView

variable {delta : BaseSetDelta keying}

/-- A visible original element keeps the key of the element that it may be a copy of. -/
theorem toKey_visibleOriginal (delta : BaseSetDelta keying) (elements : List E) :
    (elements.filterMap (makeIterableView delta).visibleOriginal).map keying.toKey =
      (elements.filter (makeIterableView delta).visibleAdded).map keying.toKey := by
  induction elements with
  | nil => rfl
  | cons element elements ih =>
    cases removed : (makeIterableView delta).deltas.removed.contains (keying.toKey element) with
    | true =>
      simpa [BaseSetDeltaIterationView.visibleOriginal, BaseSetDeltaIterationView.visibleAdded, removed] using ih
    | false =>
      have keyed : keying.toKey (((makeIterableView delta).deltas.copied.find
          (keying.toKey element)).getD element) = keying.toKey element := by
        cases copied : (makeIterableView delta).deltas.copied.find (keying.toKey element) with
        | none => rfl
        | some copy => exact KeyedSet.toKey_of_find copied
      simpa [BaseSetDeltaIterationView.visibleOriginal, BaseSetDeltaIterationView.visibleAdded, removed, keyed] using ih

theorem keys_visibleElements (delta : BaseSetDelta keying) : (makeIterableView delta).visibleElements.map keying.toKey =
      ((delta.originalElements.elements ++ delta.addedElements.elements).filter
        (makeIterableView delta).visibleAdded).map keying.toKey := by
  rw [BaseSetDeltaIterationView.visibleElements, List.map_append, toKey_visibleOriginal, List.filter_append, List.map_append]
  rfl

/-- The iteration never visits a key twice. -/
theorem Consistent.nodup_visibleElements (consistent : Consistent delta) :
    ((makeIterableView delta).visibleElements.map keying.toKey).Nodup := by
  rw [keys_visibleElements]
  refine List.Nodup.sublist (List.filter_sublist.map _) ?_
  rw [List.map_append]
  refine delta.originalElements.distinct.append delta.addedElements.distinct ?_
  intro key original added
  have inOriginal : delta.originalElements.contains key = true :=
    KeyedSet.mem_keys.mp (List.mem_toFinset.mpr original)
  have inAdded := consistent.added key (KeyedSet.mem_keys.mp (List.mem_toFinset.mpr added))
  rw [inOriginal] at inAdded
  cases inAdded

/-- The iteration visits exactly the elements that a search finds. -/
theorem Consistent.mem_visibleElements (consistent : Consistent delta) (element : E) :
    element ∈ (makeIterableView delta).visibleElements ↔ delta.find (keying.toKey element) = some element := by
  rw [BaseSetDelta.find_eq]
  simp only [BaseSetDeltaIterationView.visibleElements, List.mem_append, List.mem_filterMap,
    List.mem_filter, BaseSetDeltaIterationView.visibleOriginal, BaseSetDeltaIterationView.visibleAdded,
    makeIterableView, BaseSetDelta.deltas]
  constructor
  · rintro (⟨original, inside, shown⟩ | ⟨inside, shown⟩)
    · split at shown
      · cases shown
      · next kept =>
        have found : delta.originalElements.find (keying.toKey original) = some original :=
          KeyedSet.find_eq_some_iff.mpr ⟨inside, rfl⟩
        cases copied : delta.copiedElements.find (keying.toKey original) with
        | none =>
          rw [copied, Option.getD_none, Option.some.injEq] at shown
          subst shown
          simp [kept, copied, found]
        | some copy =>
          rw [copied, Option.getD_some, Option.some.injEq] at shown
          subst shown
          rw [KeyedSet.toKey_of_find copied]
          simp [kept, copied]
    · have found : delta.addedElements.find (keying.toKey element) = some element :=
        KeyedSet.find_eq_some_iff.mpr ⟨inside, rfl⟩
      have missing := KeyedSet.contains_eq_false_iff.mp
        (consistent.added _ (KeyedSet.contains_eq_true_iff.mpr ⟨element, found⟩))
      have uncopied : delta.copiedElements.find (keying.toKey element) = none := by
        cases copied : delta.copiedElements.find (keying.toKey element) with
        | none => rfl
        | some copy =>
          have original := consistent.copied _ (KeyedSet.contains_eq_true_iff.mpr ⟨copy, copied⟩)
          rw [KeyedSet.contains, missing] at original
          cases original
      have kept : delta.removedElements.contains (keying.toKey element) = false := by simpa using shown
      simp [kept, missing, uncopied, found]
  · intro found
    split at found
    · cases found
    · next kept =>
      cases copied : delta.copiedElements.find (keying.toKey element) with
      | some copy =>
        obtain ⟨original, present⟩ := KeyedSet.contains_eq_true_iff.mp
          (consistent.copied _ (KeyedSet.contains_eq_true_iff.mpr ⟨copy, copied⟩))
        obtain ⟨inside, keyed⟩ := KeyedSet.find_eq_some_iff.mp present
        have same : copy = element := by simpa [copied] using found
        exact .inl ⟨original, inside, by simp [keyed, kept, copied, same]⟩
      | none =>
        cases original : delta.originalElements.find (keying.toKey element) with
        | some other =>
          have same : other = element := by simpa [copied, original] using found
          subst same
          exact .inl ⟨other, (KeyedSet.find_eq_some_iff.mp original).1, by simp [kept, copied]⟩
        | none =>
          have added : delta.addedElements.find (keying.toKey element) = some element := by
            simpa [copied, original] using found
          exact .inr ⟨(KeyedSet.find_eq_some_iff.mp added).1, by simpa using kept⟩

/-- The iteration visits exactly the keys that a search finds. -/
theorem Consistent.mem_keys_visibleElements (consistent : Consistent delta) (key : K) :
    key ∈ (makeIterableView delta).visibleElements.map keying.toKey ↔ (delta.find key).isSome = true := by
  rw [Option.isSome_iff_exists, List.mem_map]
  constructor
  · rintro ⟨element, inside, rfl⟩
    exact ⟨element, (consistent.mem_visibleElements element).mp inside⟩
  · rintro ⟨element, found⟩
    have keyed := BaseSetDelta.toKey_of_find found
    exact ⟨element, (consistent.mem_visibleElements element).mpr (by rw [keyed]; exact found), keyed⟩

/-- The size of a delta is the number of visited elements. -/
theorem Consistent.size_visibleElements (consistent : Consistent delta) :
    delta.size = UInt64.ofNat (makeIterableView delta).visibleElements.length := by
  rw [consistent.size_eq, ← List.length_map keying.toKey, ← List.toFinset_card_of_nodup consistent.nodup_visibleElements]
  congr 2
  ext key
  rw [← Consistent.contains_iff_keys, consistent.contains_eq, List.mem_toFinset, consistent.mem_keys_visibleElements]

/-- A plain map is changed by the same operations. -/
def DeltaOperation.applyMap (map : Finmap fun _ : K => E) : DeltaOperation keying → Finmap fun _ : K => E
  | .insert element => map.insert (keying.toKey element) element
  | .remove key => map.erase key
  | .find _ => map
  | .change key changed =>
    match map.lookup key with
    | some element => map.insert key (changed.change element)
    | none => map
  | .contains _ => map

/-- The entries of a container form a plain map. -/
def toMap (set : KeyedSet keying) : Finmap fun _ : K => E :=
  (set.elements.map fun element => (⟨keying.toKey element, element⟩ : Sigma fun _ : K => E)).toFinmap

theorem lookup_toMap (set : KeyedSet keying) (key : K) : (toMap set).lookup key = set.find key := by
  rw [toMap, Finmap.dlookup_list_toFinmap, KeyedSet.find]
  induction set.elements with
  | nil => rfl
  | cons element elements ih =>
    rw [List.map_cons, List.find?_cons]
    by_cases same : keying.toKey element = key
    · subst same
      simp
    · rw [List.dlookup_cons_ne _ _ (fun equal => same equal.symm), ih]
      simp [same]

/-- One operation changes the delta and the plain map alike. -/
theorem Consistent.find_apply {delta : BaseSetDelta keying} (consistent : Consistent delta)
    {map : Finmap fun _ : K => E} (same : ∀ key, delta.find key = map.lookup key) (operation : DeltaOperation keying) (key : K) :
    (delta.apply operation).find key = (operation.applyMap map).lookup key := by
  cases operation with
  | insert element =>
    rw [DeltaOperation.applyMap, BaseSetDelta.apply, consistent.find_insert]
    by_cases equal : key = keying.toKey element
    · rw [if_pos equal, equal, Finmap.lookup_insert]
    · rw [if_neg equal, Finmap.lookup_insert_of_ne _ equal, same]
  | remove other =>
    rw [DeltaOperation.applyMap, BaseSetDelta.apply, Consistent.find_remove]
    by_cases equal : key = other
    · rw [if_pos equal, equal, Finmap.lookup_erase]
    · rw [if_neg equal, Finmap.lookup_erase_ne equal, same]
  | find other => exact same key
  | change other changed =>
    rw [DeltaOperation.applyMap, BaseSetDelta.apply, Consistent.find_change, same]
    by_cases equal : key = other
    · subst equal
      cases found : map.lookup key <;> simp [found]
    · rw [if_neg equal]
      cases found : map.lookup other with
      | none => rfl
      | some element => simp [Finmap.lookup_insert_of_ne _ equal]
  | contains other => exact same key

/-- A run of operations changes the delta and the plain map alike. -/
theorem Consistent.run {delta : BaseSetDelta keying} (consistent : Consistent delta)
    {map : Finmap fun _ : K => E} (same : ∀ key, delta.find key = map.lookup key)
    (operations : List (DeltaOperation keying)) : Consistent (operations.foldl BaseSetDelta.apply delta) ∧
      ∀ key, (operations.foldl BaseSetDelta.apply delta).find key =
        (operations.foldl (fun map operation => operation.applyMap map) map).lookup key := by
  induction operations generalizing delta map with
  | nil => exact ⟨consistent, same⟩
  | cons operation operations ih =>
    exact ih (consistent.apply operation) (consistent.find_apply same operation)

/-- No operation changes the original elements. -/
theorem originalElements_run (delta : BaseSetDelta keying) (operations : List (DeltaOperation keying)) :
    (operations.foldl BaseSetDelta.apply delta).originalElements = delta.originalElements := by
  induction operations generalizing delta with
  | nil => rfl
  | cons operation operations ih =>
    rw [List.foldl_cons, ih]
    cases operation with
    | insert element =>
      simp only [BaseSetDelta.apply, BaseSetDelta.insert]
      split
      · split <;> rfl
      · split
        · rfl
        · split <;> rfl
    | remove key =>
      rcases delta.remove_cases key with ⟨_, same⟩ | ⟨_, _, _, _, _, same⟩ <;>
        simp only [BaseSetDelta.apply, same, BaseSetDelta.markKey]
    | find key => rfl
    | change key changed =>
      rcases delta.change_cases key changed with
        ⟨_, same⟩ | ⟨_, _, _, _, _, same⟩ | ⟨_, _, _, _, same⟩ <;>
        simp only [BaseSetDelta.apply, same, BaseSetDelta.markKey]
    | contains key => rfl

/-- The keys of the plain map are the visited keys. -/
theorem Consistent.keys_map {delta : BaseSetDelta keying} (consistent : Consistent delta)
    {map : Finmap fun _ : K => E} (same : ∀ key, delta.find key = map.lookup key) :
    map.keys = ((makeIterableView delta).visibleElements.map keying.toKey).toFinset := by
  ext key
  rw [Finmap.mem_keys, ← Finmap.lookup_isSome, ← same, List.mem_toFinset, consistent.mem_keys_visibleElements]

/-- A delta and its commit behave like a plain map on which the same operations were performed. -/
theorem delta_refines_map (base : KeyedSet keying) (operations : List (DeltaOperation keying))
    (fits : (operations.foldl (fun map operation => operation.applyMap map)
      (toMap base)).keys.card < 2 ^ 64) :
    let delta := operations.foldl BaseSetDelta.apply (BaseSetDelta.ofSet base)
    let map := operations.foldl (fun map operation => operation.applyMap map) (toMap base)
    (∀ key, delta.find key = map.lookup key) ∧ (∀ key, (delta.findMutable key).1.map Prod.snd = map.lookup key) ∧
      (∀ key, delta.contains key = true ↔ key ∈ map) ∧
      delta.size = UInt64.ofNat map.keys.card ∧
      (∃ visited, (∀ fuel, map.keys.card < fuel → (makeIterableView delta).collect fuel = some visited) ∧
        (visited.map keying.toKey).Nodup ∧
        ∀ element, element ∈ visited ↔ map.lookup (keying.toKey element) = some element) ∧
      (∃ elements reset, (BaseSet.mk base (some delta)).commit = .ok ⟨elements, some reset⟩ ∧
        toMap elements = map ∧ reset.originalElements = elements ∧ reset.deltas.hasChanges = false) ∧
      (∀ key, delta.addedElements.contains key = true → base.contains key = false) ∧
      (∀ key, delta.copiedElements.contains key = true → base.contains key = true) ∧
      ∀ key, delta.removedElements.contains key = true → base.contains key = true ∨ delta.addedElements.contains key = true := by
  intro delta map
  obtain ⟨consistent, same⟩ : Consistent delta ∧ ∀ key, delta.find key = map.lookup key :=
    (consistent_ofSet base).run (fun key => by rw [find_ofSet, lookup_toMap]) operations
  have original : delta.originalElements = base := originalElements_run _ operations
  have keys := consistent.keys_map same
  have count : map.keys.card = (makeIterableView delta).visibleElements.length := by
    rw [keys, List.toFinset_card_of_nodup consistent.nodup_visibleElements, List.length_map]
  refine ⟨same, fun key => ?_, fun key => ?_, ?_, ?_, ?_, ?_, ?_, ?_⟩
  · rw [Consistent.findMutable_eq, same]
  · rw [consistent.contains_eq, same, Finmap.lookup_isSome]
  · rw [count, consistent.size_visibleElements]
  · refine ⟨_, fun fuel enough => BaseSetDeltaIterationView.collect_eq ?_ (count ▸ fits) (count ▸ enough),
      consistent.nodup_visibleElements, fun element => ?_⟩
    · exact consistent.size_visibleElements
    · rw [consistent.mem_visibleElements, same]
  · obtain ⟨elements, committed, found⟩ := consistent.commit
    rw [original] at committed
    refine ⟨elements, _, committed, ?_, rfl, rfl⟩
    apply Finmap.ext_lookup
    intro key
    rw [lookup_toMap, found, same]
  · rw [← original]
    exact consistent.added
  · rw [← original]
    exact consistent.copied
  · rw [← original]
    exact consistent.removed

/-- A pair of numbers has its first number as key and is placed before the other pairs. -/
def pairKeying : Keying Nat (Nat × Nat) :=
  ⟨Prod.fst, List.cons, fun _ _ => List.Perm.refl _⟩

/-- A removed original element that is inserted again is counted once. -/
theorem delta_refines_map_reinserted : ([.insert (2, 20), .remove 1, .insert (1, 11)].foldl BaseSetDelta.apply
      (BaseSetDelta.ofSet (⟨[(1, 10)], by decide⟩ : KeyedSet pairKeying))).size = 2 := by
  obtain ⟨_, _, _, size, _⟩ := delta_refines_map (⟨[(1, 10)], by decide⟩ : KeyedSet pairKeying)
    [.insert (2, 20), .remove 1, .insert (1, 11)] (by decide)
  rw [size]
  decide

end Catapult.Delta
