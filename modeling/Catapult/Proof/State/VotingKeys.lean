import Catapult.Proof.State.AccountBytes
import Mathlib.Order.CompletePartialOrder

/-
This file shows that the voting keys of an account are disjoint ranges in an order that their set determines.
-/

namespace Catapult.State

open Finalization (FinalizationEpoch PinnedVotingKey)
open AccountPublicKeys

section Keys

variable {keys : List PinnedVotingKey} {key existing : PinnedVotingKey} {epoch : FinalizationEpoch}

/-- The epochs from the start to the end of a key. -/
def covered (key : PinnedVotingKey) : Set FinalizationEpoch := fun epoch => key.startEpoch ≤ epoch ∧ epoch ≤ key.endEpoch

theorem containsEpoch_iff : containsEpoch key epoch = true ↔ epoch ∈ covered key := by
  unfold containsEpoch
  rw [Bool.and_eq_true, decide_eq_true_eq, decide_eq_true_eq]
  rfl

/-- The three endpoint conditions find every common epoch. -/
theorem overlaps_iff (range : key.startEpoch ≤ key.endEpoch) (rangeExisting : existing.startEpoch ≤ existing.endEpoch) :
    overlaps key existing = true ↔ ∃ epoch, epoch ∈ covered key ∧ epoch ∈ covered existing := by
  constructor
  · intro overlap
    unfold overlaps at overlap
    rw [Bool.or_eq_true, Bool.or_eq_true, containsEpoch_iff, containsEpoch_iff, containsEpoch_iff] at overlap
    rcases overlap with (start | last) | own
    · exact ⟨existing.startEpoch, start, UInt32.le_refl _, rangeExisting⟩
    · exact ⟨existing.endEpoch, last, rangeExisting, UInt32.le_refl _⟩
    · exact ⟨key.startEpoch, ⟨UInt32.le_refl _, range⟩, own⟩
  · rintro ⟨epoch, ⟨afterStart, beforeEnd⟩, afterOther, beforeOther⟩
    by_contra apart
    rcases follows_of_not_overlaps range rangeExisting (Bool.eq_false_iff.mpr apart) with before | after
    · exact absurd (UInt32.le_trans afterOther beforeEnd) (UInt32.not_le.mpr before)
    · exact absurd (UInt32.le_trans afterStart beforeOther) (UInt32.not_le.mpr after)

/-- Keys that follow each other have no common epoch. -/
theorem VotingOrdered.disjoint (ordered : VotingOrdered keys) : keys.Pairwise fun lower upper => Disjoint (covered lower) (covered upper) := by
  refine ordered.order.imp fun {lower upper} before => Set.disjoint_left.mpr fun epoch inLower inUpper => ?_
  exact absurd (UInt32.le_trans inUpper.1 inLower.2) (UInt32.not_le.mpr before)

/-- A key that was just inserted is the one that is removed. -/
theorem removeVotingKey_insertVotingKey (absent : key ∉ keys) : removeVotingKey (insertVotingKey key keys) key = keys := by
  unfold removeVotingKey
  induction keys with
  | nil => exact List.erase_cons_head _ _
  | cons first keys ih =>
    rw [insertVotingKey]
    split
    · exact List.erase_cons_head _ _
    · have different : first ≠ key := fun same => absent (same ▸ List.mem_cons_self)
      rw [List.erase_cons_tail (by simpa using different), ih fun member => absent (List.mem_cons_of_mem _ member)]

/-- An ordered key before all others has the last epoch of them. -/
theorem VotingOrdered.endEpoch_le (ordered : VotingOrdered (keys ++ [key])) : ∀ other ∈ keys ++ [key], other.endEpoch ≤ key.endEpoch := by
  intro other member
  rcases List.mem_append.mp member with earlier | last
  · have before := (List.pairwise_append.mp ordered.order).2.2 other earlier key List.mem_cons_self
    have range := ordered.ranges key (List.mem_append_right _ List.mem_cons_self)
    exact UInt32.le_trans (UInt32.le_of_lt before) range
  · rw [List.mem_singleton.mp last]
    exact UInt32.le_refl _

/-- The first key that contains an epoch is the only one. -/
theorem VotingOrdered.findIdx_eq (ordered : VotingOrdered keys) {index : Nat} (here : keys[index]? = some key) (inside : epoch ∈ covered key) :
    keys.findIdx? (fun other => containsEpoch other epoch) = some index := by
  obtain ⟨within, rfl⟩ := List.getElem?_eq_some_iff.mp here
  refine List.findIdx?_eq_some_iff_getElem.mpr ⟨within, containsEpoch_iff.mpr inside, fun earlier before => ?_⟩
  have apart := List.pairwise_iff_getElem.mp ordered.disjoint earlier index (before.trans within) within before
  exact fun holds => Set.disjoint_left.mp apart (containsEpoch_iff.mp holds) inside

end Keys

namespace PublicKeysAccessor

variable {accessor : PublicKeysAccessor} {key : PinnedVotingKey}

/-- The keys are ordered, and an accessor without keys has no vector. -/
structure Valid (accessor : PublicKeysAccessor) : Prop where
  ordered : VotingOrdered accessor.getAll
  allocated : accessor.keys ≠ some []

theorem valid_create : Valid create := ⟨⟨nofun, .nil⟩, nofun⟩

/-- The keys determine a valid accessor. -/
theorem Valid.ext {first second : PublicKeysAccessor} (validFirst : Valid first) (validSecond : Valid second) (same : first.getAll = second.getAll) :
    first = second := by
  obtain ⟨none | keys⟩ := first
  · obtain ⟨none | others⟩ := second
    · rfl
    · cases (same : [] = others)
      exact absurd rfl validSecond.allocated
  · obtain ⟨none | others⟩ := second
    · cases (same : keys = [])
      exact absurd rfl validFirst.allocated
    · cases (same : keys = others)
      rfl

/-- An addition throws for an overlap, and otherwise it inserts the key. -/
theorem Valid.add_cases (valid : Valid accessor) (range : key.startEpoch ≤ key.endEpoch) :
    (∃ existing ∈ accessor.getAll, ∃ epoch, epoch ∈ covered key ∧ epoch ∈ covered existing) ∧
        accessor.add key = (accessor, .error (.overlappingEpochs key)) ∨
      (¬∃ existing ∈ accessor.getAll, ∃ epoch, epoch ∈ covered key ∧ epoch ∈ covered existing) ∧
        accessor.add key = (⟨some (insertVotingKey key accessor.getAll)⟩, .ok ()) := by
  have overlapping : accessor.getAll.any (overlaps key) = true ↔
      ∃ existing ∈ accessor.getAll, ∃ epoch, epoch ∈ covered key ∧ epoch ∈ covered existing := by
    rw [List.any_eq_true]
    exact exists_congr fun existing => and_congr_right fun member => overlaps_iff range (valid.ordered.ranges existing member)
  unfold add addVotingKey
  dsimp only
  by_cases overlap : accessor.getAll.any (overlaps key) = true
  · refine .inl ⟨overlapping.mp overlap, ?_⟩
    rw [← getAll, if_pos overlap]
    obtain ⟨none | keys⟩ := accessor
    · cases overlap
    · rfl
  · refine .inr ⟨mt overlapping.mpr overlap, ?_⟩
    rw [← getAll, if_neg overlap]

theorem Valid.add (valid : Valid accessor) (range : key.startEpoch ≤ key.endEpoch) : Valid (accessor.add key).1 := by
  rcases valid.add_cases range with ⟨-, threw⟩ | ⟨apart, added⟩
  · rw [threw]
    exact valid
  · rw [added]
    have accepted : addVotingKey accessor.getAll key = .ok (insertVotingKey key accessor.getAll) := by
      refine if_neg fun overlap => apart ?_
      obtain ⟨existing, member, common⟩ := List.any_eq_true.mp overlap
      exact ⟨existing, member, (overlaps_iff range (valid.ordered.ranges existing member)).mp common⟩
    obtain ⟨ordered, length⟩ := addVotingKey_ordered valid.ordered range accepted
    refine ⟨ordered, fun empty => ?_⟩
    cases (congrArg List.length (Option.some.inj empty)).symm.trans length

theorem getAll_remove (accessor : PublicKeysAccessor) (key : PinnedVotingKey) :
    (accessor.remove key).1.getAll = removeVotingKey accessor.getAll key := by
  obtain ⟨none | keys⟩ := accessor
  · rfl
  · change (if key ∈ keys then _ else _ : PublicKeysAccessor × Bool).1.getAll = removeVotingKey keys key
    split
    · cases remaining : removeVotingKey keys key with
      | nil => rfl
      | cons first others => rfl
    · next absent => exact (List.erase_of_not_mem absent).symm

theorem remove_found (member : key ∈ accessor.getAll) : (accessor.remove key).2 = true := by
  obtain ⟨none | keys⟩ := accessor
  · cases member
  · exact congrArg Prod.snd (if_pos member)

theorem Valid.remove (valid : Valid accessor) (key : PinnedVotingKey) : Valid (accessor.remove key).1 where
  ordered := by
    rw [getAll_remove]
    exact valid.ordered.sublist List.erase_sublist
  allocated := by
    obtain ⟨none | keys⟩ := accessor
    · exact nofun
    · change (if key ∈ keys then _ else _ : PublicKeysAccessor × Bool).1.keys ≠ some []
      split
      · cases remaining : removeVotingKey keys key with
        | nil => exact nofun
        | cons first others => exact nofun
      · exact valid.allocated

theorem Valid.run (valid : Valid accessor) (call : Call) : Valid (call.run accessor) := by
  cases call with
  | add key range => exact valid.add range
  | remove key => exact valid.remove key

/-- Every sequence of calls leaves a valid accessor. -/
theorem valid_runCalls (calls : List Call) : Valid (runCalls calls) := by
  unfold runCalls
  induction calls using List.reverseRecOn with
  | nil => exact valid_create
  | append_singleton calls call ih =>
    rw [List.foldl_append]
    exact ih.run call

theorem Valid.contains_eq (valid : Valid accessor) {index : Nat} {epoch : FinalizationEpoch} (here : accessor.getAll[index]? = some key)
    (inside : epoch ∈ covered key) : accessor.contains epoch = (index, true) := by
  have ordered := valid.ordered
  obtain ⟨none | keys⟩ := accessor
  · cases here
  · unfold contains
    have found : keys.findIdx? (fun other => containsEpoch other epoch) = some index := ordered.findIdx_eq here inside
    dsimp only
    rw [found]

theorem contains_notFound {epoch : FinalizationEpoch} (none : ∀ key ∈ accessor.getAll, epoch ∉ covered key) : accessor.contains epoch = notFound := by
  obtain ⟨_ | keys⟩ := accessor
  · rfl
  · have missing : keys.findIdx? (fun key => containsEpoch key epoch) = Option.none :=
      List.findIdx?_eq_none_iff.mpr fun key member => Bool.eq_false_iff.mpr fun holds => none key member (containsEpoch_iff.mp holds)
    unfold contains
    dsimp only
    rw [missing]

/-- The last of the ordered keys ends last. -/
theorem Valid.upperBound_eq (valid : Valid accessor) : ∃ bound, accessor.upperBound = some bound ∧
    (∀ key ∈ accessor.getAll, key.endEpoch ≤ bound) ∧ (accessor.getAll = [] ∧ bound = 0 ∨ ∃ key ∈ accessor.getAll, key.endEpoch = bound) := by
  have ordered := valid.ordered
  obtain ⟨none | keys⟩ := accessor
  · exact ⟨0, rfl, nofun, .inl ⟨rfl, rfl⟩⟩
  · rcases List.eq_nil_or_concat keys with rfl | ⟨front, last, rfl⟩
    · exact absurd rfl valid.allocated
    · rw [List.concat_eq_append] at ordered ⊢
      refine ⟨last.endEpoch, ?_, ordered.endEpoch_le, .inr ⟨last, List.mem_append_right _ List.mem_cons_self, rfl⟩⟩
      unfold upperBound
      dsimp only
      rw [List.getLast?_concat]
      rfl

/-- Removing a key that was just added restores the accessor. -/
theorem Valid.remove_add (valid : Valid accessor) (range : key.startEpoch ≤ key.endEpoch) (added : (accessor.add key).2 = .ok ()) :
    (accessor.add key).1.remove key = (accessor, true) := by
  rcases valid.add_cases range with ⟨-, threw⟩ | ⟨apart, inserted⟩
  · rw [threw] at added
    cases added
  · have absent : key ∉ accessor.getAll := fun member => apart ⟨key, member, key.startEpoch, ⟨UInt32.le_refl _, range⟩, UInt32.le_refl _, range⟩
    rw [inserted]
    refine Prod.ext ?_ (remove_found (mem_insertVotingKey.mpr (.inl rfl)))
    have next := valid.add range
    rw [inserted] at next
    refine (next.remove key).ext valid ?_
    rw [getAll_remove]
    exact removeVotingKey_insertVotingKey absent

end PublicKeysAccessor

/-- The keys are disjoint and ordered, their set determines the accessor, and every call and query meets its purpose. -/
theorem votingKeys_canonical (calls : List PublicKeysAccessor.Call) :
    let accessor := PublicKeysAccessor.runCalls calls
    (accessor.getAll.Pairwise fun lower upper => lower.endEpoch < upper.startEpoch ∧ Disjoint (covered lower) (covered upper)) ∧
      (∀ others, (∀ key, key ∈ (PublicKeysAccessor.runCalls others).getAll ↔ key ∈ accessor.getAll) →
        PublicKeysAccessor.runCalls others = accessor) ∧
      (∀ key : PinnedVotingKey, key.startEpoch ≤ key.endEpoch → ((∃ error, (accessor.add key).2 = .error error) ↔
            ∃ existing ∈ accessor.getAll, ∃ epoch, epoch ∈ covered key ∧ epoch ∈ covered existing) ∧
          (∀ error, (accessor.add key).2 = .error error → (accessor.add key).1 = accessor) ∧
          ((accessor.add key).2 = .ok () →
            (∀ other, other ∈ (accessor.add key).1.getAll ↔ other = key ∨ other ∈ accessor.getAll) ∧
              (accessor.add key).1.remove key = (accessor, true))) ∧
      (∀ epoch,
        (∀ index key, accessor.getAll[index]? = some key → epoch ∈ covered key → accessor.contains epoch = (index, true)) ∧
          ((∀ key ∈ accessor.getAll, epoch ∉ covered key) → accessor.contains epoch = PublicKeysAccessor.notFound)) ∧
      ∃ bound, accessor.upperBound = some bound ∧ (∀ key ∈ accessor.getAll, key.endEpoch ≤ bound) ∧
        (accessor.getAll = [] ∧ bound = 0 ∨ ∃ key ∈ accessor.getAll, key.endEpoch = bound) := by
  intro accessor
  have valid : accessor.Valid := PublicKeysAccessor.valid_runCalls calls
  refine ⟨valid.ordered.order.and valid.ordered.disjoint, fun others same => ?_, fun key range => ⟨?_, ?_, fun added => ⟨?_, ?_⟩⟩, fun epoch => ?_,
    valid.upperBound_eq⟩
  · have validOthers := PublicKeysAccessor.valid_runCalls others
    exact validOthers.ext valid (validOthers.ordered.unique valid.ordered same)
  · rcases valid.add_cases range with ⟨overlap, threw⟩ | ⟨apart, added⟩
    · rw [threw]
      exact ⟨fun _ => overlap, fun _ => ⟨_, rfl⟩⟩
    · rw [added]
      exact ⟨fun ⟨_, failed⟩ => (nomatch failed), fun overlap => absurd overlap apart⟩
  · intro error failed
    rcases valid.add_cases range with ⟨-, threw⟩ | ⟨-, added⟩
    · rw [threw]
    · rw [added] at failed
      cases failed
  · rcases valid.add_cases range with ⟨-, threw⟩ | ⟨-, inserted⟩
    · rw [threw] at added
      cases added
    · rw [inserted]
      exact fun other => mem_insertVotingKey
  · exact valid.remove_add range added
  · exact ⟨fun _ _ here inside => valid.contains_eq here inside, PublicKeysAccessor.contains_notFound⟩

end Catapult.State
