import Catapult.Construction.Delta.PatriciaTreeDeltaMixin
import Catapult.Proof.Delta.Iteration
import Catapult.Proof.Tree.Canonicity

/-
This file shows that incremental updates of a state tree agree with its full recomputation.
-/

namespace Catapult.Delta

open Catapult.Tree

variable {K E : Type} {keying : Keying K E}

section Loops

variable [DecidableEq K] [Sha3] {D : Type} [DataSource D]

/-- A loop over elements changes the held map at the keys that need it. -/
def appliedMap (needs : K → Bool) (update : E → TreeUpdate K E) (elements : KeyedSet keying)
    (held : K → Option E) (key : K) : Option E :=
  match elements.find key with
  | some element => if needs key then (update element).value else held key
  | none => held key

/-- A tree over the data source of another tree holds an encoding of a map. -/
def HoldsOver (encoder : Encoder K E) (bytes : Nat) (keys : Set K) (source : D) (held : K → Option E)
    (tree : PatriciaTree D) : Prop :=
  tree.dataSource = source ∧ ∃ entries, Holds tree (2 * bytes) entries ∧ Encodes encoder keys entries held

theorem HoldsOver.applyUpdate {encoder : Encoder K E} {bytes : Nat} {keys : Set K} {source : D}
    {held : K → Option E} {tree : PatriciaTree D} (holds : HoldsOver encoder bytes keys source held tree)
    (fixed : encoder.FixedLength bytes) (apart : Set.InjOn encoder.encodeKey keys)
    (change : TreeUpdate K E) (touched : change.key ∈ keys) : ∃ tree', tree.applyUpdate encoder change = some tree' ∧
      HoldsOver encoder bytes keys source (change.applyMap held) tree' := by
  obtain ⟨rfl, entries, holds, encodes⟩ := holds
  obtain ⟨tree', ran, same, holds'⟩ := holds.applyUpdate fixed change
  exact ⟨tree', ran, same, _, holds', encodes.update apart touched⟩

/-- A loop over elements with distinct keys updates the tree once for each key that needs it. -/
theorem HoldsOver.applyElements {encoder : Encoder K E} {bytes : Nat} {keys : Set K} {source : D}
    {held : K → Option E} {tree : PatriciaTree D} (holds : HoldsOver encoder bytes keys source held tree)
    (fixed : encoder.FixedLength bytes) (apart : Set.InjOn encoder.encodeKey keys) (needs : K → Bool)
    {update : E → TreeUpdate K E} (keyed : ∀ element, (update element).key = keying.toKey element)
    (elements : KeyedSet keying) (touched : ∀ element ∈ elements.elements, keying.toKey element ∈ keys) :
    ∃ tree', applyElements encoder needs update elements tree = some tree' ∧
      HoldsOver encoder bytes keys source (appliedMap needs update elements held) tree' := by
  have general : ∀ (list : List E) (held : K → Option E) (tree : PatriciaTree D),
      (list.map keying.toKey).Nodup → (∀ element ∈ list, keying.toKey element ∈ keys) →
      HoldsOver encoder bytes keys source held tree →
      ∃ tree', list.foldlM (fun tree element => if needs (keying.toKey element) then
          tree.applyUpdate encoder (update element) else some tree) tree = some tree' ∧
        HoldsOver encoder bytes keys source (fun key =>
          match list.find? (fun element => keying.toKey element = key) with
          | some element => if needs key then (update element).value else held key
          | none => held key) tree' := by
    intro list
    induction list with
    | nil => exact fun held tree _ _ holds => ⟨tree, rfl, holds⟩
    | cons element list ih =>
      intro held tree distinct inside holds
      rw [List.map_cons, List.nodup_cons] at distinct
      have later := fun other present => inside other (List.mem_cons_of_mem element present)
      have absent : (list.find? fun other => keying.toKey other = keying.toKey element) = none := by
        rw [List.find?_eq_none]
        intro other present equal
        exact distinct.1 (List.mem_map.mpr ⟨other, present, by simpa using equal⟩)
      by_cases needed : needs (keying.toKey element) = true
      · obtain ⟨next, ran, nextHolds⟩ := holds.applyUpdate fixed apart (update element)
          (by rw [keyed]; exact inside element List.mem_cons_self)
        obtain ⟨tree', rest, finalHolds⟩ := ih _ next distinct.2 later nextHolds
        refine ⟨tree', by simp only [List.foldlM_cons, needed, if_true, ran]; exact rest, ?_⟩
        convert finalHolds using 2 with key
        rw [List.find?_cons, TreeUpdate.applyMap, keyed]
        by_cases same : key = keying.toKey element
        · subst same
          simp [absent, needed]
        · have different : ¬keying.toKey element = key := fun equal => same equal.symm
          simp [different, Function.update_of_ne same]
      · obtain ⟨tree', rest, finalHolds⟩ := ih held tree distinct.2 later holds
        refine ⟨tree', by simp only [List.foldlM_cons, needed]; exact rest, ?_⟩
        convert finalHolds using 2 with key
        rw [List.find?_cons]
        by_cases same : key = keying.toKey element
        · subst same
          simp [absent, needed]
        · have different : ¬keying.toKey element = key := fun equal => same equal.symm
          simp [different]
  exact general elements.elements held tree elements.distinct touched holds

end Loops

section Generations

variable [DecidableEq K]

/-- The active view of a delta at a height hides inactive elements. -/
def activeView (traits : Option (ActivityTraits E)) (set : BaseSetDelta keying) (height : Height) (key : K) : Option E :=
  (set.find key).filter fun element => isActiveAdapter traits element height

/-- A key has a pending change if it was marked in the current generation and is part of the changes. -/
def PendingChange (set : BaseSetDelta keying) (key : K) : Prop :=
  set.keyGenerationId key = set.generationId ∧ (set.addedElements.contains key = true ∨ set.copiedElements.contains key = true ∨
      set.removedElements.contains key = true)

/-- Every operation concerns one key. -/
def DeltaOperation.key : DeltaOperation keying → K
  | .insert element => keying.toKey element
  | .remove key => key
  | .find key => key
  | .change key _ => key
  | .contains key => key

/-- A caller touches an element by an insertion or by a mutable find. -/
def DeltaOperation.touches : DeltaOperation keying → Bool
  | .insert _ => true
  | .change _ _ => true
  | _ => false

/-- A step that marks a key leaves a pending change there and affects no other key. -/
structure Marks (before after : BaseSetDelta keying) (key : K) : Prop where
  original : after.originalElements = before.originalElements
  generation : after.generationId = before.generationId
  pending : PendingChange after key
  find_other : ∀ other, other ≠ key → after.find other = before.find other
  pending_other : ∀ other, other ≠ key → (PendingChange after other ↔ PendingChange before other)
  known : ∀ other, other ≠ key → after.addedElements.contains other = before.addedElements.contains other

theorem markKey_keyGenerationId (set : BaseSetDelta keying) (key other : K) : (set.markKey key).keyGenerationId other =
      if other = key then set.generationId else set.keyGenerationId other := by
  unfold BaseSetDelta.keyGenerationId BaseSetDelta.markKey
  by_cases same : other = key <;> simp [same]

/-- Changes at one key mark this key. -/
theorem marks_of_changes (set : BaseSetDelta keying) (key : K) (added removed copied : KeyedSet keying)
    (addedOther : ∀ other, other ≠ key → added.find other = set.addedElements.find other)
    (removedOther : ∀ other, other ≠ key → removed.contains other = set.removedElements.contains other)
    (copiedOther : ∀ other, other ≠ key → copied.find other = set.copiedElements.find other)
    (present : added.contains key = true ∨ copied.contains key = true ∨ removed.contains key = true) :
    Marks set { set.markKey key with
      addedElements := added, removedElements := removed, copiedElements := copied } key where
  original := rfl
  generation := rfl
  pending := by
    refine ⟨?_, present⟩
    have marked := markKey_keyGenerationId set key key
    rw [if_pos rfl] at marked
    exact marked
  find_other other different := by
    rw [BaseSetDelta.find_eq, BaseSetDelta.find_eq, addedOther other different,
      removedOther other different, copiedOther other different]
    rfl
  pending_other other different := by
    have marked := markKey_keyGenerationId set key other
    rw [if_neg different] at marked
    unfold PendingChange
    rw [contains_of_find_eq (addedOther other different), removedOther other different,
      contains_of_find_eq (copiedOther other different)]
    exact and_congr_left fun _ => ⟨fun same => marked.symm.trans same, fun same => marked.trans same⟩
  known other different := contains_of_find_eq (addedOther other different)

theorem marks_insert {set : BaseSetDelta keying} (consistent : Consistent set) (element : E) :
    Marks set (set.insert element).2 (keying.toKey element) := by
  have removedOther : ∀ other, other ≠ keying.toKey element →
      (set.unremove (keying.toKey element)).removedElements.contains other = set.removedElements.contains other := by
    intro other different
    simp [different]
  have unmarked : (set.unremove (keying.toKey element)).markKey (keying.toKey element) =
      { set.markKey (keying.toKey element) with
        removedElements := (set.unremove (keying.toKey element)).removedElements } := by
    unfold BaseSetDelta.unremove
    split <;> rfl
  rw [BaseSetDelta.insert_eq consistent, unmarked]
  split
  · refine marks_of_changes set (keying.toKey element) _ _ _ (fun _ _ => rfl) removedOther ?_ ?_
    · intro other different
      rw [KeyedSet.find_erase_insert, if_neg different]
      rfl
    · exact .inr (.inl (by simp))
  · refine marks_of_changes set (keying.toKey element) _ _ _ ?_ removedOther (fun _ _ => rfl) ?_
    · intro other different
      rw [KeyedSet.find_erase_insert, if_neg different]
      rfl
    · exact .inl (by simp)

/-- Every operation marks its key unless it has no effect. -/
theorem apply_marks {set : BaseSetDelta keying} (consistent : Consistent set) (operation : DeltaOperation keying) :
    (set.apply operation = set ∧ (operation.touches = true → set.find operation.key = none)) ∨
      Marks set (set.apply operation) operation.key := by
  cases operation with
  | insert element => exact .inr (marks_insert consistent element)
  | remove key =>
    rcases set.remove_cases key with ⟨_, same⟩ | ⟨element, copied, keyed, _, kept, same⟩
    · exact .inl ⟨same, fun impossible => by cases impossible⟩
    · right
      rw [BaseSetDelta.apply, same]
      refine marks_of_changes set key _ _ _ (fun _ _ => rfl) ?_ ?_ (.inr (.inr (by simp [keyed])))
      · intro other different
        simp [keyed, different]
      · exact fun other different => (kept other).trans (if_neg different)
  | find key => exact .inl ⟨rfl, fun impossible => by cases impossible⟩
  | change key changed =>
    rcases set.change_cases key changed with ⟨missing, same⟩ |
      ⟨element, copied, _, _, kept, same⟩ | ⟨_, _, _, present, same⟩
    · exact .inl ⟨same, fun _ => missing⟩
    · right
      rw [BaseSetDelta.apply, same]
      refine marks_of_changes set key _ _ _ (fun _ _ => rfl) (fun _ _ => rfl) ?_ (.inr (.inl ?_))
      · exact fun other different => (kept other).trans (if_neg different)
      · rw [KeyedSet.contains, kept, if_pos rfl]
        rfl
    · right
      rw [BaseSetDelta.apply, same]
      refine marks_of_changes set key _ _ _ ?_ (fun _ _ => rfl) (fun _ _ => rfl) (.inl (by simpa))
      intro other different
      rw [KeyedSet.find_modify, if_neg different]
  | contains key => exact .inl ⟨rfl, fun impossible => by cases impossible⟩

omit [DecidableEq K] in
/-- Only marked keys are applied if the first applied generation is the current one. -/
theorem needsApplication_iff (set : BaseSetDelta keying) (key : K) :
    needsApplication set set.generationId key = true ↔ set.keyGenerationId key = set.generationId := by
  simp only [needsApplication, Bool.and_eq_true, decide_eq_true_eq]
  constructor
  · rintro ⟨lower, upper⟩
    exact UInt32.le_antisymm upper lower
  · intro same
    rw [same]
    exact ⟨UInt32.le_refl _, UInt32.le_refl _⟩

omit [DecidableEq K] in
theorem handleModification_key (traits : Option (ActivityTraits E)) (height : Height) (element : E) :
    (handleModification keying traits height element).key = keying.toKey element := by
  unfold handleModification
  split <;> rfl

omit [DecidableEq K] in
theorem handleModification_value (traits : Option (ActivityTraits E)) (height : Height) (element : E) :
    (handleModification keying traits height element).value =
      (some element).filter fun element => isActiveAdapter traits element height := by
  unfold handleModification
  split <;> simp_all [TreeUpdate.value, Option.filter]

/-- The three loops of an update change the held map in this way. -/
def updatedMap (traits : Option (ActivityTraits E)) (set : BaseSetDelta keying) (height : Height)
    (held : K → Option E) : K → Option E :=
  let needs := needsApplication set set.generationId
  appliedMap needs (fun element => .unset (keying.toKey element)) set.removedElements
    (appliedMap needs (handleModification keying traits height) set.copiedElements
      (appliedMap needs (handleModification keying traits height) set.addedElements held))

/-- The loops bring the held map to the active view of the new height. -/
theorem updatedMap_eq {traits : Option (ActivityTraits E)} {set : BaseSetDelta keying}
    {lastHeight height : Height} {held : K → Option E} (consistent : Consistent set)
    (current : ∀ key, ¬PendingChange set key → held key = activeView traits set lastHeight key)
    (unchanged : ∀ key element, set.find key = some element → ¬PendingChange set key →
      isActiveAdapter traits element lastHeight = isActiveAdapter traits element height) :
    updatedMap traits set height held = activeView traits set height := by
  funext key
  by_cases pending : PendingChange set key
  · obtain ⟨marked, part⟩ := pending
    have needed := (needsApplication_iff set key).mpr marked
    have overlap := consistent.added key
    unfold updatedMap appliedMap activeView
    rw [BaseSetDelta.find_eq]
    unfold KeyedSet.contains at part overlap ⊢
    cases removed : set.removedElements.find key with
    | some element => simp [needed, TreeUpdate.value]
    | none =>
      cases copied : set.copiedElements.find key with
      | some element => simp [needed, handleModification_value]
      | none =>
        cases added : set.addedElements.find key with
        | some element =>
          rw [added] at overlap
          have original : set.originalElements.find key = none := by simpa using overlap rfl
          simp [needed, handleModification_value, original]
        | none => simp [removed, copied, added] at part
  · have untouched : updatedMap traits set height held key = held key := by
      unfold updatedMap appliedMap
      by_cases marked : set.keyGenerationId key = set.generationId
      · have part : ¬(set.addedElements.contains key = true ∨ set.copiedElements.contains key = true ∨
            set.removedElements.contains key = true) := fun part => pending ⟨marked, part⟩
        push Not at part
        simp only [ne_eq, Bool.not_eq_true, KeyedSet.contains_eq_false_iff] at part
        simp [part]
      · have needless : needsApplication set set.generationId key = false := by
          rw [← Bool.not_eq_true, needsApplication_iff]
          exact marked
        cases set.removedElements.find key <;> cases set.copiedElements.find key <;>
          cases set.addedElements.find key <;> simp [needless]
    rw [untouched, current key pending]
    unfold activeView
    cases found : set.find key with
    | none => rfl
    | some element => simp [Option.filter, unchanged key element found pending]

/-- Elements whose activity changes with the height are touched before the next update. -/
def ActivityTouched (traits : Option (ActivityTraits E)) :
    BaseSetDelta keying → Height → List K → List (MixinOperation keying) → Prop
  | _, _, _, [] => True
  | set, lastHeight, touched, .delta operation :: operations =>
    ActivityTouched traits (set.apply operation) lastHeight
      (if operation.touches then operation.key :: touched else touched) operations
  | set, lastHeight, touched, .updateMerkleRoot height :: operations =>
    (∀ key element, set.find key = some element → key ∉ touched →
      isActiveAdapter traits element lastHeight = isActiveAdapter traits element height) ∧
      ActivityTouched traits set.incrementGenerationId height [] operations

variable [Sha3] {D : Type} [DataSource D]

/-- These messages are hashed when an update of the merkle root saves the tree. -/
def checkpointMessages (encoder : Encoder K E) (traits : Option (ActivityTraits E))
    (mixin : PatriciaTreeDeltaMixin keying D) (height : Height) : Set (List UInt8) :=
  match mixin.tree with
  | none => ∅
  | some tree =>
    match applyDeltasToTree encoder traits tree mixin.set mixin.nextGenerationId height with
    | some applied => treeMessages applied
    | none => ∅

/-- These messages are hashed by all updates of a run. -/
def mixinMessages (encoder : Encoder K E) (traits : Option (ActivityTraits E)) :
    PatriciaTreeDeltaMixin keying D → List (MixinOperation keying) → Set (List UInt8)
  | _, [] => ∅
  | mixin, operation :: operations =>
    (match operation with
      | .delta _ => ∅
      | .updateMerkleRoot height => checkpointMessages encoder traits mixin height) ∪
    match mixin.apply encoder traits operation with
    | some next => mixinMessages encoder traits next operations
    | none => ∅

/-- A tree tracks a delta if it agrees with the last active view wherever no change is pending. -/
structure Tracks (encoder : Encoder K E) (traits : Option (ActivityTraits E)) (bytes : Nat) (keys : Set K)
    (mixin : PatriciaTreeDeltaMixin keying D) (tree : PatriciaTree D) (lastHeight : Height) (touched : List K) : Prop where
  attached : mixin.tree = some tree
  next : mixin.nextGenerationId = mixin.set.generationId
  consistent : Consistent mixin.set
  original : ∀ key, mixin.set.originalElements.contains key = true → key ∈ keys
  added : ∀ key, mixin.set.addedElements.contains key = true → key ∈ keys
  closed : SourceClosed tree.dataSource
  held : ∃ entries held, Holds tree (2 * bytes) entries ∧ Encodes encoder keys entries held ∧
    ∀ key, ¬PendingChange mixin.set key → held key = activeView traits mixin.set lastHeight key
  pending : ∀ key ∈ touched, (mixin.set.find key).isSome = true → PendingChange mixin.set key

namespace Tracks

variable {encoder : Encoder K E} {traits : Option (ActivityTraits E)} {bytes : Nat} {keys : Set K}
  {mixin : PatriciaTreeDeltaMixin keying D} {tree : PatriciaTree D} {lastHeight : Height}
  {touched : List K}

/-- An operation of the delta leaves the tree behind only at its own key. -/
theorem delta (tracks : Tracks encoder traits bytes keys mixin tree lastHeight touched)
    (operation : DeltaOperation keying) (inside : operation.key ∈ keys) :
    Tracks encoder traits bytes keys { mixin with set := mixin.set.apply operation } tree lastHeight
      (if operation.touches then operation.key :: touched else touched) := by
  have consistent := tracks.consistent.apply operation
  rcases apply_marks tracks.consistent operation with ⟨same, missing⟩ | marks
  · simp only [same]
    refine { tracks with pending := fun key listed found => ?_ }
    split at listed
    · next touches =>
      rcases List.mem_cons.mp listed with rfl | before
      · rw [missing touches] at found
        cases found
      · exact tracks.pending key before found
    · exact tracks.pending key listed found
  · obtain ⟨entries, held, holds, encodes, current⟩ := tracks.held
    refine ⟨tracks.attached, tracks.next.trans marks.generation.symm, consistent, ?_, ?_, tracks.closed,
      ⟨entries, held, holds, encodes, fun key unmarked => ?_⟩, fun key listed found => ?_⟩
    · rw [marks.original]
      exact tracks.original
    · intro key present
      by_cases same : key = operation.key
      · rw [same]
        exact inside
      · exact tracks.added key (by rw [← marks.known key same]; exact present)
    · have different : key ≠ operation.key := fun same => unmarked (same ▸ marks.pending)
      rw [current key (fun before => unmarked ((marks.pending_other key different).mpr before))]
      unfold activeView
      rw [marks.find_other key different]
    · by_cases same : key = operation.key
      · rw [same]
        exact marks.pending
      · have before : key ∈ touched := by
          split at listed
          · exact (List.mem_cons.mp listed).resolve_left same
          · exact listed
        refine (marks.pending_other key same).mpr (tracks.pending key before ?_)
        rw [← marks.find_other key same]
        exact found

/-- The loops of an update succeed and bring the tree to the active view of the new height. -/
theorem applyDeltas (tracks : Tracks encoder traits bytes keys mixin tree lastHeight touched)
    (fixed : encoder.FixedLength bytes) (apart : Set.InjOn encoder.encodeKey keys) {height : Height}
    (changed : ∀ key element, mixin.set.find key = some element → key ∉ touched →
      isActiveAdapter traits element lastHeight = isActiveAdapter traits element height) :
    ∃ applied, applyDeltasToTree encoder traits tree mixin.set mixin.nextGenerationId height = some applied ∧
      HoldsOver encoder bytes keys tree.dataSource (activeView traits mixin.set height) applied := by
  obtain ⟨entries, held, holds, encodes, current⟩ := tracks.held
  have inside : ∀ (elements : KeyedSet keying), (∀ key, elements.contains key = true → key ∈ keys) →
      ∀ element ∈ elements.elements, keying.toKey element ∈ keys := fun elements known element present =>
    known _ (KeyedSet.contains_eq_true_iff.mpr ⟨element, KeyedSet.find_eq_some_iff.mpr ⟨present, rfl⟩⟩)
  have start : HoldsOver encoder bytes keys tree.dataSource held tree := ⟨rfl, entries, holds, encodes⟩
  obtain ⟨first, firstRun, firstHolds⟩ := start.applyElements fixed apart
    (needsApplication mixin.set mixin.set.generationId) (handleModification_key traits height)
    mixin.set.addedElements (inside _ tracks.added)
  obtain ⟨second, secondRun, secondHolds⟩ := firstHolds.applyElements fixed apart
    (needsApplication mixin.set mixin.set.generationId) (handleModification_key traits height)
    mixin.set.copiedElements
    (inside _ fun key copied => tracks.original key (tracks.consistent.copied key copied))
  obtain ⟨third, thirdRun, thirdHolds⟩ := secondHolds.applyElements fixed apart
    (needsApplication mixin.set mixin.set.generationId)
    (show ∀ element, (TreeUpdate.unset (keying.toKey element) : TreeUpdate K E).key = keying.toKey element from fun _ => rfl)
    mixin.set.removedElements
    (inside _ fun key removed =>
      (tracks.consistent.removed key removed).elim (tracks.original key) (tracks.added key))
  have updated := updatedMap_eq tracks.consistent current fun key element found unmarked =>
    changed key element found fun listed =>
      unmarked (tracks.pending key listed (by rw [found]; rfl))
  refine ⟨third, ?_, ?_⟩
  · simp only [applyDeltasToTree, BaseSetDelta.deltas, tracks.next, firstRun, secondRun, thirdRun,
      Option.bind_eq_bind, Option.bind_some]
  · rw [← updated]
    exact thirdHolds

/-- An update brings the tree to the active view and starts without pending changes. -/
theorem updateMerkleRoot [LawfulDataSource D] (tracks : Tracks encoder traits bytes keys mixin tree lastHeight touched)
    (fixed : encoder.FixedLength bytes) (apart : Set.InjOn encoder.encodeKey keys) {height : Height}
    (changed : ∀ key element, mixin.set.find key = some element → key ∉ touched →
      isActiveAdapter traits element lastHeight = isActiveAdapter traits element height)
    (free : CollisionFree (checkpointMessages encoder traits mixin height)) :
    ∃ tree' : PatriciaTree D, mixin.updateMerkleRoot encoder traits height = some ⟨mixin.set.incrementGenerationId, some tree',
        mixin.set.incrementGenerationId.generationId⟩ ∧
      (∃ entries, Holds tree' (2 * bytes) entries ∧ Encodes encoder keys entries (activeView traits mixin.set height)) ∧
      Tracks encoder traits bytes keys ⟨mixin.set.incrementGenerationId, some tree',
        mixin.set.incrementGenerationId.generationId⟩ tree' height [] := by
  obtain ⟨applied, ran, source, entries, holds, encodes⟩ := tracks.applyDeltas fixed apart changed
  have messages : checkpointMessages encoder traits mixin height = treeMessages applied := by
    simp only [checkpointMessages, tracks.attached, ran]
  have sound : Sound applied (2 * bytes) entries := ⟨source ▸ tracks.closed, holds⟩
  obtain ⟨saved, savedRun, savedSound⟩ := sound.saveAll (messages ▸ free)
  refine ⟨saved, ?_, ⟨entries, savedSound.holds, encodes⟩, rfl, rfl, ?_, tracks.original, tracks.added,
    savedSound.closed, ⟨entries, _, savedSound.holds, encodes, fun _ _ => rfl⟩, fun key listed => ?_⟩
  · simp only [PatriciaTreeDeltaMixin.updateMerkleRoot, tracks.attached, ran, Option.bind_eq_bind, Option.bind_some, savedRun]
    rfl
  · exact ⟨tracks.consistent.added, tracks.consistent.copied, tracks.consistent.removed⟩
  · cases listed

/-- After a run that ends with an update the tree holds the active view. -/
theorem run [LawfulDataSource D] (tracks : Tracks encoder traits bytes keys mixin tree lastHeight touched)
    (fixed : encoder.FixedLength bytes) (apart : Set.InjOn encoder.encodeKey keys) (operations : List (MixinOperation keying))
    (inside : ∀ operation, .delta operation ∈ operations → operation.key ∈ keys) (height : Height)
    (activity : ActivityTouched traits mixin.set lastHeight touched
      (operations ++ [.updateMerkleRoot height]))
    (free : CollisionFree (mixinMessages encoder traits mixin (operations ++ [.updateMerkleRoot height]))) :
    ∃ (mixin' : PatriciaTreeDeltaMixin keying D) (tree' : PatriciaTree D),
      (operations ++ [MixinOperation.updateMerkleRoot height]).foldlM
        (PatriciaTreeDeltaMixin.apply encoder traits) mixin = some mixin' ∧
      mixin'.tree = some tree' ∧ Consistent mixin'.set ∧
      (∀ key, (mixin'.set.find key).isSome = true → key ∈ keys) ∧
      ∃ entries, Holds tree' (2 * bytes) entries ∧ Encodes encoder keys entries (activeView traits mixin'.set height) := by
  induction operations generalizing mixin tree lastHeight touched with
  | nil =>
    obtain ⟨tree', ran, held, tracks'⟩ := tracks.updateMerkleRoot fixed apart activity.1
      (free.mono Set.subset_union_left)
    have stepped : mixin.apply encoder traits (.updateMerkleRoot height) = some _ := ran
    refine ⟨_, tree', by simp [stepped], rfl, tracks'.consistent, ?_, held⟩
    intro key found
    rw [← tracks'.consistent.contains_eq, BaseSetDelta.contains, Bool.and_eq_true, Bool.or_eq_true] at found
    exact found.2.elim (tracks'.added key) (tracks'.original key)
  | cons operation operations ih =>
    have later : ∀ operation, .delta operation ∈ operations → operation.key ∈ keys :=
      fun operation present => inside operation (List.mem_cons_of_mem _ present)
    cases operation with
    | delta operation =>
      have rest := ih (tracks.delta operation (inside operation List.mem_cons_self)) later activity
        (free.mono Set.subset_union_right)
      simpa [PatriciaTreeDeltaMixin.apply] using rest
    | updateMerkleRoot middle =>
      obtain ⟨tree', ran, _, tracks'⟩ := tracks.updateMerkleRoot fixed apart activity.1
        (free.mono Set.subset_union_left)
      have stepped : mixin.apply encoder traits (.updateMerkleRoot middle) = some _ := ran
      have following := free
      rw [List.cons_append, mixinMessages, stepped] at following
      have rest := ih tracks' later activity.2 (following.mono Set.subset_union_right)
      simpa [stepped] using rest

end Tracks

/-- A full recomputation sets every active element of the view in a new tree. -/
def recomputation (traits : Option (ActivityTraits E)) (set : BaseSetDelta keying) (height : Height) : List (TreeUpdate K E) :=
  ((makeIterableView set).visibleElements.filter fun element =>
    isActiveAdapter traits element height).map fun element => .set (keying.toKey element) element

omit [Sha3] in
/-- Setting elements with distinct keys gives the map of these elements. -/
theorem finalMap_set (elements : List E) (map : K → Option E) (distinct : (elements.map keying.toKey).Nodup) (key : K) :
    (elements.map fun element => TreeOperation.update (.set (keying.toKey element) element)).foldl
        TreeOperation.applyMap map key =
      (elements.find? fun element => keying.toKey element = key).or (map key) := by
  induction elements generalizing map with
  | nil => rfl
  | cons element elements ih =>
    rw [List.map_cons, List.nodup_cons] at distinct
    rw [List.map_cons, List.foldl_cons, ih _ distinct.2, List.find?_cons]
    by_cases same : key = keying.toKey element
    · have absent : (elements.find? fun other => keying.toKey other = key) = none := by
        rw [List.find?_eq_none]
        intro other inside equal
        exact distinct.1 (List.mem_map.mpr ⟨other, inside, by rw [← same]; simpa using equal⟩)
      rw [absent]
      simp [same, TreeOperation.applyMap, TreeUpdate.applyMap, TreeUpdate.key, TreeUpdate.value]
    · have different : ¬keying.toKey element = key := fun equal => same equal.symm
      simp [different, TreeOperation.applyMap, TreeUpdate.applyMap, TreeUpdate.key, Function.update_of_ne same]

omit [Sha3] in
/-- The recomputed map is the active view. -/
theorem Consistent.finalMap_recomputation {set : BaseSetDelta keying} (consistent : Consistent set)
    (traits : Option (ActivityTraits E)) (height : Height) :
    TreeOperation.finalMap ((recomputation traits set height).map .update) = activeView traits set height := by
  funext key
  have distinct : (((makeIterableView set).visibleElements.filter fun element =>
      isActiveAdapter traits element height).map keying.toKey).Nodup :=
    consistent.nodup_visibleElements.sublist (List.filter_sublist.map _)
  unfold TreeOperation.finalMap recomputation
  rw [List.map_map]
  refine (finalMap_set _ _ distinct key).trans ?_
  rw [Option.or_none]
  apply Option.ext
  intro element
  let active : KeyedSet keying := ⟨_, distinct⟩
  change active.find key = some element ↔ _
  rw [KeyedSet.find_eq_some_iff, List.mem_filter, consistent.mem_visibleElements]
  unfold activeView
  rw [Option.filter_eq_some_iff]
  constructor
  · rintro ⟨⟨found, activity⟩, rfl⟩
    exact ⟨found, activity⟩
  · rintro ⟨found, activity⟩
    have keyed := BaseSetDelta.toKey_of_find found
    exact ⟨⟨by rw [keyed]; exact found, activity⟩, keyed⟩

omit [Sha3] in
/-- The recomputation touches only keys of the view. -/
theorem Consistent.touchedKeys_recomputation {set : BaseSetDelta keying} (consistent : Consistent set)
    (traits : Option (ActivityTraits E)) (height : Height) {key : K}
    (touched : key ∈ TreeOperation.touchedKeys ((recomputation traits set height).map .update)) :
    (set.find key).isSome = true := by
  rw [TreeOperation.touchedKeys, List.filterMap_map, List.mem_filterMap] at touched
  obtain ⟨change, inside, keyed⟩ := touched
  obtain ⟨element, listed, rfl⟩ := List.mem_map.mp inside
  have same : keying.toKey element = key := by simpa [TreeUpdate.key] using keyed
  rw [← consistent.mem_keys_visibleElements, ← same]
  exact List.mem_map_of_mem (List.mem_of_mem_filter listed)

/-- A delta whose tree holds its active elements is tracked by the tree. -/
theorem tracks_create {encoder : Encoder K E} {traits : Option (ActivityTraits E)} {bytes : Nat}
    {keys : Set K} {base : KeyedSet keying} {tree : PatriciaTree D} {height : Height}
    (known : ∀ element ∈ base.elements, keying.toKey element ∈ keys) (closed : SourceClosed tree.dataSource)
    (initial : ∃ entries, Holds tree (2 * bytes) entries ∧
      Encodes encoder keys entries (activeView traits (BaseSetDelta.ofSet base) height)) :
    Tracks encoder traits bytes keys (.create (.ofSet base) (some tree)) tree height [] := by
  obtain ⟨entries, holds, encodes⟩ := initial
  refine ⟨rfl, rfl, consistent_ofSet base, fun key present => ?_, fun key present => (by cases present),
    closed, ⟨entries, _, holds, encodes, fun _ _ => rfl⟩, fun key listed => (by cases listed)⟩
  obtain ⟨element, found⟩ := KeyedSet.contains_eq_true_iff.mp present
  obtain ⟨inside, rfl⟩ := KeyedSet.find_eq_some_iff.mp found
  exact known element inside

/-- After every update the tree holds exactly the active view and has the recomputed root. -/
theorem updateMerkleRoot_eq_recomputation [LawfulDataSource D] {encoder : Encoder K E} {bytes : Nat}
    (fixed : encoder.FixedLength bytes) {keys : Set K} (apart : Set.InjOn encoder.encodeKey keys)
    (traits : Option (ActivityTraits E)) (base : KeyedSet keying) (tree : PatriciaTree D)
    (baseHeight : Height) (known : ∀ element ∈ base.elements, keying.toKey element ∈ keys)
    (closed : SourceClosed tree.dataSource) (initial : ∃ entries, Holds tree (2 * bytes) entries ∧
      Encodes encoder keys entries (activeView traits (BaseSetDelta.ofSet base) baseHeight))
    (operations : List (MixinOperation keying))
    (inside : ∀ operation, .delta operation ∈ operations → operation.key ∈ keys) (height : Height)
    (activity : ActivityTouched traits (BaseSetDelta.ofSet base) baseHeight []
      (operations ++ [.updateMerkleRoot height]))
    (free : CollisionFree (mixinMessages encoder traits (.create (.ofSet base) (some tree))
      (operations ++ [.updateMerkleRoot height]))) :
    ∃ (mixin : PatriciaTreeDeltaMixin keying D) (tree' : PatriciaTree D),
      (operations ++ [MixinOperation.updateMerkleRoot height]).foldlM
        (PatriciaTreeDeltaMixin.apply encoder traits) (.create (.ofSet base) (some tree)) = some mixin ∧
      mixin.tree = some tree' ∧
      (∀ key ∈ keys, ∃ visited, tree'.lookup encoder key = some
        (match activeView traits mixin.set height key with
          | some element => (encoder.encodeValue element, true)
          | none => (zeroHash, false), visited)) ∧
      ∀ source : D, DataSource.get source zeroHash = .empty → ∃ fresh, (PatriciaTree.empty source).run encoder
            ((recomputation traits mixin.set height).map .update) = some fresh ∧
          tree'.root = fresh.root := by
  obtain ⟨mixin, tree', ran, attached, consistent, visible, entries, holds, encodes⟩ :=
    (tracks_create known closed initial).run fixed apart operations inside height activity free
  refine ⟨mixin, tree', ran, attached, fun key inKeys => ?_, fun source zero => ?_⟩
  · obtain ⟨visited, looked⟩ := holds.lookup fixed key
    rw [encodes.inside key inKeys] at looked
    refine ⟨visited, looked.trans ?_⟩
    cases activeView traits mixin.set height key <;> rfl
  · obtain ⟨fresh, freshRun, freshHolds⟩ := (holds_empty zero (2 * bytes)).run_updates fixed
      (recomputation traits mixin.set height)
    have recomputed := (Encodes.empty encoder keys).foldl apart
      ((recomputation traits mixin.set height).map .update)
      fun key touched => visible key (consistent.touchedKeys_recomputation traits height touched)
    have final := consistent.finalMap_recomputation traits height
    unfold TreeOperation.finalMap at final
    rw [final] at recomputed
    rw [recomputed.unique encodes] at freshHolds
    exact ⟨fresh, freshRun, holds.root_eq freshHolds⟩

end Generations

section Listings

variable {K E : Type} [DecidableEq K] {keying : Keying K E} [Sha3] {D : Type} [DataSource D] [Listed D]

/-- Every message that an update hashes is known. -/
def mixinWithin (known : List (List UInt8)) (encoder : Encoder K E) (traits : Option (ActivityTraits E)) :
    PatriciaTreeDeltaMixin keying D → List (MixinOperation keying) → Bool
  | _, [] => true
  | mixin, operation :: operations =>
    (match operation with
      | .delta _ => true
      | .updateMerkleRoot height => mixin.tree.all fun tree =>
        (applyDeltasToTree encoder traits tree mixin.set mixin.nextGenerationId height).all (treeWithin known)) &&
      (mixin.apply encoder traits operation).all fun next => mixinWithin known encoder traits next operations

theorem mixinMessages_within {known : List (List UInt8)} {encoder : Encoder K E} {traits : Option (ActivityTraits E)}
    {mixin : PatriciaTreeDeltaMixin keying D} {operations : List (MixinOperation keying)}
    (within : mixinWithin known encoder traits mixin operations = true) :
    mixinMessages encoder traits mixin operations ⊆ {message | message ∈ known} := by
  induction operations generalizing mixin with
  | nil => exact Set.empty_subset _
  | cons operation operations ih =>
    obtain ⟨here, later⟩ := Bool.and_eq_true_iff.mp within
    refine Set.union_subset ?_ ?_
    · cases operation with
      | delta operation => exact Set.empty_subset _
      | updateMerkleRoot height =>
        dsimp only [checkpointMessages]
        cases attached : mixin.tree with
        | none => exact Set.empty_subset _
        | some tree =>
          rw [attached] at here
          dsimp only
          cases applied : applyDeltasToTree encoder traits tree mixin.set mixin.nextGenerationId height with
          | none => exact Set.empty_subset _
          | some next =>
            dsimp only [Option.all_some] at here
            rw [applied] at here
            exact treeMessages_within here
    · cases applied : mixin.apply encoder traits operation with
      | none => exact Set.empty_subset _
      | some next =>
        rw [applied] at later
        exact ih later

end Listings

/-- An account of one byte has a hash as its value. -/
def accountKeying : Keying UInt8 (UInt8 × Hash256) :=
  ⟨Prod.fst, List.cons, fun _ _ => List.Perm.refl _⟩

def accountEncoder : Encoder UInt8 (UInt8 × Hash256) := ⟨fun key => [key], Prod.snd⟩

/-- The account 0x13 is active below height 5. -/
def expiry : ActivityTraits (UInt8 × Hash256) := ⟨true, fun account height => decide (height < 5) || decide (account.1 ≠ 0x13)⟩

def firstAccount : UInt8 × Hash256 := (0x12, Vector.replicate 32 1)

def secondAccount : UInt8 × Hash256 := (0x13, Vector.replicate 32 2)

/-- The base holds the first account. -/
def firstBase : KeyedSet accountKeying := KeyedSet.empty.insert firstAccount

/-- Accounts are inserted, removed, inserted again and deactivated in three generations. -/
def expiringOperations : List (MixinOperation accountKeying) :=
  [.delta (.insert secondAccount), .updateMerkleRoot 1, .delta (.remove 0x12), .updateMerkleRoot 2,
    .delta (.insert firstAccount), .delta (.insert secondAccount)]

/-- The tree after the third generation has the root of its recomputation. -/
theorem updateMerkleRoot_eq_recomputation_expired : letI := sha3Digest
    ∃ (mixin : PatriciaTreeDeltaMixin accountKeying MemoryDataSource) (tree : PatriciaTree MemoryDataSource),
      (expiringOperations ++ [MixinOperation.updateMerkleRoot 5]).foldlM (PatriciaTreeDeltaMixin.apply accountEncoder (some expiry))
        (.create (.ofSet firstBase) (some ⟨.empty, .leaf ⟨[1, 2], Vector.replicate 32 1⟩⟩)) = some mixin ∧
      mixin.tree = some tree ∧
      ∃ fresh, (PatriciaTree.empty MemoryDataSource.empty).run accountEncoder ((recomputation (some expiry) mixin.set 5).map .update) = some fresh ∧
        tree.root = fresh.root := by
  rw [← recordedDigest_eq]
  let := recordedDigest
  have apart : Set.InjOn accountEncoder.encodeKey Set.univ := fun _ _ _ _ same => List.singleton_inj.mp same
  have fixed : accountEncoder.FixedLength 1 := fun _ => rfl
  obtain ⟨base, built, _, holds⟩ :=
    (holds_empty (show DataSource.get MemoryDataSource.empty zeroHash = .empty from rfl) 2).applyUpdate fixed (.set 0x12 firstAccount)
  obtain rfl : base = ⟨.empty, .leaf ⟨[1, 2], Vector.replicate 32 1⟩⟩ := Option.some.inj (built.symm.trans rfl)
  have view : (TreeUpdate.set 0x12 firstAccount).applyMap (fun _ => none) = activeView (some expiry) (BaseSetDelta.ofSet firstBase) 0 := by
    funext key
    by_cases first : key = 0x12
    · subst first
      rfl
    · have missing : (BaseSetDelta.ofSet firstBase).find key = none := by
        rw [find_ofSet, firstBase, KeyedSet.find_insert]
        simp [accountKeying, firstAccount, KeyedSet.find, KeyedSet.empty, first]
      rw [activeView, missing, TreeUpdate.applyMap]
      exact Function.update_of_ne first _ _
  obtain ⟨mixin, tree, ran, attached, _, recomputed⟩ := updateMerkleRoot_eq_recomputation fixed apart (some expiry) firstBase _ 0
    (fun _ _ => Set.mem_univ _) memoryDataSource_empty_closed
    ⟨_, holds, view ▸ (Encodes.empty _ _).update apart (Set.mem_univ _)⟩ expiringOperations (fun _ _ => Set.mem_univ _) 5
    ⟨fun _ _ _ _ => rfl, fun _ _ _ _ => rfl, fun key account found untouched => by
      have keyed : account.1 = key := BaseSetDelta.toKey_of_find found
      have other : account.1 ≠ 0x13 := fun same => untouched (keyed.symm.trans same ▸ List.mem_cons_self)
      simp [isActiveAdapter, expiry, other], trivial⟩
    (recordedDigest_collisionFree.mono (mixinMessages_within (by decide +kernel)))
  exact ⟨mixin, tree, ran, attached, recomputed _ rfl⟩

end Catapult.Delta
