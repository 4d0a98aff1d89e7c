import Catapult.Construction.Model.ContiguousEntityContainer
import Catapult.Library.Runs

/-
This file proves that the iteration over a buffer with any contents stays inside the buffer and finds its tiling.
-/

namespace Catapult.Model

/-- The entity lies inside the buffer and is as large as its type. -/
structure EntityAt (sizeofEntity : Nat) (buffer : List UInt8) (offset size : Nat) : Prop where
  readable : offset + 4 ≤ buffer.length
  read : readSize buffer offset = .ok size
  wide : sizeofEntity ≤ size
  inside : offset + size ≤ buffer.length

/-- Every entity starts at the padded end of the one before it. -/
inductive Visits (sizeofEntity : Nat) (buffer : List UInt8) : Nat → List Nat → Prop where
  | nil (offset : Nat) : Visits sizeofEntity buffer offset []
  | cons {offset size : Nat} {offsets : List Nat} (entity : EntityAt sizeofEntity buffer offset size)
      (rest : Visits sizeofEntity buffer (offset + size + getPaddingSize size 8) offsets) :
      Visits sizeofEntity buffer offset (offset :: offsets)

/-- The entities fill the rest of the buffer, and the last one can be padded. -/
inductive Tiles (sizeofEntity : Nat) (buffer : List UInt8) : Nat → List Nat → Prop where
  | finish : Tiles sizeofEntity buffer buffer.length []
  | last {offset size : Nat} (entity : EntityAt sizeofEntity buffer offset size) (exact : offset + size = buffer.length) :
      Tiles sizeofEntity buffer offset [offset]
  | next {offset size : Nat} {offsets : List Nat} (entity : EntityAt sizeofEntity buffer offset size)
      (rest : Tiles sizeofEntity buffer (offset + size + getPaddingSize size 8) offsets) :
      Tiles sizeofEntity buffer offset (offset :: offsets)

section Entities

variable {sizeofEntity : Nat} {buffer : List UInt8} {offset size other : Nat} {offsets : List Nat}

theorem EntityAt.size_eq (entity : EntityAt sizeofEntity buffer offset size)
    (again : EntityAt sizeofEntity buffer offset other) : other = size := Except.ok.inj (again.read.symm.trans entity.read)

theorem padded_aligned (size : Nat) : 8 ∣ size + getPaddingSize size 8 := by
  unfold getPaddingSize
  split
  · next aligned => exact Nat.dvd_of_mod_eq_zero aligned
  · omega

theorem Visits.aligned (visits : Visits sizeofEntity buffer offset offsets) (start : 8 ∣ offset) :
    ∀ visited ∈ offsets, 8 ∣ visited ∧ ∃ size, EntityAt sizeofEntity buffer visited size := by
  induction visits with
  | nil offset => exact nofun
  | @cons offset size offsets entity rest ih =>
    intro visited member
    obtain rfl | later := List.mem_cons.mp member
    · exact ⟨start, size, entity⟩
    · refine ih ?_ visited later
      rw [Nat.add_assoc]
      exact Nat.dvd_add start (padded_aligned size)

theorem Visits.le (visits : Visits sizeofEntity buffer offset offsets) : ∀ visited ∈ offsets, offset ≤ visited := by
  induction visits with
  | nil offset => exact nofun
  | @cons offset size offsets entity rest ih =>
    intro visited member
    obtain rfl | later := List.mem_cons.mp member
    · exact Nat.le_refl _
    · have below := ih visited later
      omega

/-- No entity overlaps with a later one. -/
theorem Visits.disjoint (visits : Visits sizeofEntity buffer offset offsets) :
    offsets.Pairwise fun first second => ∀ size, EntityAt sizeofEntity buffer first size → first + size ≤ second := by
  induction visits with
  | nil offset => exact List.Pairwise.nil
  | @cons offset size offsets entity rest ih =>
    refine List.pairwise_cons.mpr ⟨fun second later length first => ?_, ih⟩
    have below := rest.le second later
    obtain rfl := entity.size_eq first
    omega

theorem Tiles.le (tiles : Tiles sizeofEntity buffer offset offsets) : offset ≤ buffer.length := by
  cases tiles with
  | finish => exact Nat.le_refl _
  | last entity exact =>
    have inside := entity.inside
    omega
  | next entity rest =>
    have inside := entity.inside
    omega

variable (positive : 0 < sizeofEntity)
include positive

theorem EntityAt.lt (entity : EntityAt sizeofEntity buffer offset size) : offset < buffer.length := by
  have wide := entity.wide
  have inside := entity.inside
  omega

theorem Tiles.eq_nil (tiles : Tiles sizeofEntity buffer buffer.length offsets) : offsets = [] := by
  generalize position : buffer.length = offset at tiles
  cases tiles with
  | finish => rfl
  | last entity _ => exact absurd (entity.lt positive) (by omega)
  | next entity _ => exact absurd (entity.lt positive) (by omega)

/-- Nothing is visited after an entity that ends with the buffer. -/
theorem Visits.padded (visits : Visits sizeofEntity buffer (advance buffer offset size) offsets) :
    Visits sizeofEntity buffer (offset + size + getPaddingSize size 8) offsets := by
  unfold advance at visits
  split at visits
  · next exact =>
    cases visits with
    | nil => exact .nil _
    | cons later _ => exact absurd (later.lt positive) (by omega)
  · exact visits

/-- A tiling goes on where the iterator advances to. -/
theorem tiles_iff (entity : EntityAt sizeofEntity buffer offset size) : Tiles sizeofEntity buffer offset offsets ↔
      ∃ rest, offsets = offset :: rest ∧ Tiles sizeofEntity buffer (advance buffer offset size) rest := by
  unfold advance
  constructor
  · intro tiles
    cases tiles with
    | finish => exact absurd (entity.lt positive) (Nat.lt_irrefl _)
    | last again exact =>
      obtain rfl := entity.size_eq again
      rw [if_pos exact, exact]
      exact ⟨[], rfl, .finish⟩
    | @next _ _ rest again tiles =>
      obtain rfl := entity.size_eq again
      refine ⟨rest, rfl, ?_⟩
      split
      · next exact =>
        have padded := tiles.le
        have none : getPaddingSize _ 8 = 0 := Nat.le_zero.mp (Nat.le_of_add_le_add_left (exact ▸ padded))
        rwa [none, Nat.add_zero] at tiles
      · exact tiles
  · rintro ⟨rest, rfl, tiles⟩
    split at tiles
    · next exact =>
      rw [exact] at tiles
      rw [tiles.eq_nil positive]
      exact .last entity exact
    · exact .next entity tiles

end Entities

theorem le_advance (buffer : List UInt8) (offset size : Nat) : offset + size ≤ advance buffer offset size := by
  unfold advance
  split
  · exact Nat.le_refl _
  · exact Nat.le_add_right _ _

section Checks

variable (sizeofEntity : Nat) (buffer : List UInt8) (offset : Nat)

theorem readSize_readable (readable : offset + 4 ≤ buffer.length) : ∃ size, readSize buffer offset = .ok size :=
  ⟨_, if_pos readable⟩

/-- The check reads no byte outside of the buffer. -/
theorem isEntityInBuffer_eq (size : Nat) (readable : offset + 4 ≤ buffer.length) (read : readSize buffer offset = .ok size) :
    isEntityInBuffer buffer offset = .ok (decide (offset + size ≤ buffer.length)) := by
  have bounded : offset ≤ buffer.length ∧ offset + 4 ≤ buffer.length := ⟨by omega, readable⟩
  rw [isEntityInBuffer, if_pos bounded, read]
  rfl

theorem isEntityInBuffer_cut (cut : ¬offset + 4 ≤ buffer.length) : isEntityInBuffer buffer offset = .ok false := by
  rw [isEntityInBuffer, if_neg fun bounded => cut bounded.2]
  rfl

theorem isEntityValid_iff : ∃ valid, isEntityValid sizeofEntity buffer offset = .ok valid ∧
      (valid = true ↔ ∃ size, EntityAt sizeofEntity buffer offset size) := by
  by_cases readable : offset + 4 ≤ buffer.length
  · obtain ⟨size, read⟩ := readSize_readable buffer offset readable
    by_cases inside : offset + size ≤ buffer.length
    · refine ⟨decide (sizeofEntity ≤ size), ?_, ?_⟩
      · rw [isEntityValid, isEntityInBuffer_eq buffer offset size readable read, decide_eq_true inside, read]
        rfl
      · rw [decide_eq_true_iff]
        constructor
        · intro wide
          exact ⟨size, readable, read, wide, inside⟩
        · intro ⟨other, entity⟩
          obtain rfl := Except.ok.inj (read.symm.trans entity.read)
          exact entity.wide
    · refine ⟨false, ?_, ?_⟩
      · rw [isEntityValid, isEntityInBuffer_eq buffer offset size readable read, decide_eq_false inside]
        rfl
      · constructor
        · exact nofun
        · intro ⟨other, entity⟩
          obtain rfl := Except.ok.inj (read.symm.trans entity.read)
          exact absurd entity.inside inside
  · refine ⟨false, ?_, ?_⟩
    · rw [isEntityValid, isEntityInBuffer_cut buffer offset readable]
      rfl
    · constructor
      · exact nofun
      · intro ⟨size, entity⟩
        exact absurd entity.readable readable

end Checks

namespace ContiguousEntityContainer

variable {sizeofEntity : Nat} {buffer : List UInt8} {policy : EntityContainerErrorPolicy} {offset size : Nat}

theorem checkError_end (hasError : Bool) :
    (mk buffer policy).checkError sizeofEntity ⟨buffer.length, hasError⟩ = .ok ⟨buffer.length, hasError⟩ :=
  if_pos (decide_eq_true rfl)

theorem checkError_entity (entity : EntityAt sizeofEntity buffer offset size) (hasError : Bool) :
    (mk buffer policy).checkError sizeofEntity ⟨offset, hasError⟩ = .ok ⟨offset, hasError⟩ := by
  rw [checkError]
  split
  · rfl
  · obtain ⟨valid, checked, sound⟩ := isEntityValid_iff sizeofEntity buffer offset
    obtain rfl := sound.mpr ⟨size, entity⟩
    rw [checked]
    rfl

theorem checkError_suppressed (unfinished : offset ≠ buffer.length)
    (missing : ¬∃ size, EntityAt sizeofEntity buffer offset size) (hasError : Bool) :
    (mk buffer .suppress).checkError sizeofEntity ⟨offset, hasError⟩ = .ok ⟨buffer.length, true⟩ := by
  obtain ⟨valid, checked, sound⟩ := isEntityValid_iff sizeofEntity buffer offset
  obtain rfl := Bool.eq_false_iff.mpr (mt sound.mp missing)
  rw [checkError, isEnd, decide_eq_false unfinished, checked]
  rfl

theorem endOffset_eq : (mk buffer policy).endOffset = buffer.length := by
  rw [endOffset, advance, if_pos (Nat.zero_add _), Nat.zero_add]

section Rounds

variable (positive : 0 < sizeofEntity)
include positive

theorem increment_entity (entity : EntityAt sizeofEntity buffer offset size) (hasError : Bool) :
    (mk buffer policy).increment sizeofEntity ⟨offset, hasError⟩ =
      (mk buffer policy).checkError sizeofEntity ⟨advance buffer offset size, hasError⟩ := by
  have unfinished : offset ≠ buffer.length := Nat.ne_of_lt (entity.lt positive)
  rw [increment, isEnd, decide_eq_false unfinished, entity.read]
  by_cases finished : advance buffer offset size = buffer.length
  · rw [finished, checkError_end]
    simp [bind, Except.bind, isEnd, finished, pure, Except.pure]
  · simp [bind, Except.bind, isEnd, finished]

/-- One round of the loop at an entity. -/
theorem allOfFrom_entity (consumer : Nat → Bool) (rounds : Nat) (entity : EntityAt sizeofEntity buffer offset size) (hasError : Bool) :
    (mk buffer policy).allOfFrom sizeofEntity consumer (rounds + 1) ⟨offset, hasError⟩ =
      if consumer offset then do
        let next ← (mk buffer policy).checkError sizeofEntity ⟨advance buffer offset size, hasError⟩
        let rest ← (mk buffer policy).allOfFrom sizeofEntity consumer rounds next
        return (rest.1, offset :: rest.2.1, rest.2.2)
      else .ok (false, [offset], ⟨offset, hasError⟩) := by
  have unfinished : offset ≠ buffer.length := Nat.ne_of_lt (entity.lt positive)
  rw [allOfFrom, endOffset_eq, if_neg unfinished, isEnd, decide_eq_false unfinished, increment_entity positive entity]
  rfl

/-- The suppressed iteration ends at the end of the buffer, and its error flag tells that there is no tiling. -/
theorem allOfFrom_suppressed (rounds offset : Nat) (hasError : Bool) (enough : buffer.length - offset < rounds) :
    ∃ first offsets failed, (mk buffer .suppress).checkError sizeofEntity ⟨offset, hasError⟩ = .ok first ∧
      (mk buffer .suppress).allOfFrom sizeofEntity (fun _ => true) rounds first = .ok (true, offsets, ⟨buffer.length, failed⟩) ∧
      Visits sizeofEntity buffer offset offsets ∧
      (failed = true ↔ hasError = true ∨ ¬∃ entities, Tiles sizeofEntity buffer offset entities) := by
  induction rounds generalizing offset with
  | zero => exact absurd enough (Nat.not_lt_zero _)
  | succ rounds ih =>
    have stops (failed : Bool) : (mk buffer .suppress).allOfFrom sizeofEntity (fun _ => true) (rounds + 1) ⟨buffer.length, failed⟩ =
        .ok (true, [], ⟨buffer.length, failed⟩) := if_pos endOffset_eq.symm
    by_cases finished : offset = buffer.length
    · obtain rfl := finished
      refine ⟨_, _, _, checkError_end hasError, stops hasError, .nil _, ?_⟩
      constructor
      · exact .inl
      · intro reason
        obtain failed | missing := reason
        · exact failed
        · exact absurd ⟨[], .finish⟩ missing
    · by_cases starts : ∃ size, EntityAt sizeofEntity buffer offset size
      · obtain ⟨size, entity⟩ := starts
        have wide := entity.wide
        have inside := entity.inside
        have farther := le_advance buffer offset size
        obtain ⟨first, offsets, failed, checked, ran, visits, exact⟩ := ih (advance buffer offset size) (by omega)
        refine ⟨_, offset :: offsets, failed, checkError_entity entity hasError, ?_, .cons entity ?_, exact.trans ?_⟩
        · rw [allOfFrom_entity positive _ _ entity, if_pos rfl, checked]
          change (allOfFrom _ _ _ _ _ >>= _) = _
          rw [ran]
          rfl
        · exact visits.padded positive
        · refine or_congr_right (not_congr ?_)
          constructor
          · intro ⟨entities, tiles⟩
            exact ⟨offset :: entities, (tiles_iff positive entity).mpr ⟨entities, rfl, tiles⟩⟩
          · intro ⟨entities, tiles⟩
            obtain ⟨rest, _, tiles⟩ := (tiles_iff positive entity).mp tiles
            exact ⟨rest, tiles⟩
      · refine ⟨_, _, _, checkError_suppressed finished starts hasError, stops true, .nil _, ?_⟩
        have untiled : ¬∃ entities, Tiles sizeofEntity buffer offset entities := by
          intro ⟨entities, tiles⟩
          cases tiles with
          | finish => exact finished rfl
          | last entity _ => exact starts ⟨_, entity⟩
          | next entity _ => exact starts ⟨_, entity⟩
        exact iff_of_true rfl (.inr untiled)

/-- The iteration over a tiled buffer is the same for all policies. -/
theorem allOfFrom_tiles (consumer : Nat → Bool) {entities : List Nat} (hasError : Bool)
    (tiles : Tiles sizeofEntity buffer offset entities) (rounds : Nat) (enough : buffer.length - offset < rounds) :
    ∃ first outcome, (∀ policy, (mk buffer policy).checkError sizeofEntity ⟨offset, hasError⟩ = .ok first ∧
      (mk buffer policy).allOfFrom sizeofEntity consumer rounds first = .ok outcome) ∧
      outcome.2.2.hasError = hasError ∧
      ((∀ visited, consumer visited = true) → outcome = (true, entities, ⟨buffer.length, hasError⟩)) := by
  induction rounds generalizing offset entities with
  | zero => exact absurd enough (Nat.not_lt_zero _)
  | succ rounds ih =>
    by_cases starts : ∃ size, EntityAt sizeofEntity buffer offset size
    · obtain ⟨size, entity⟩ := starts
      have wide := entity.wide
      have inside := entity.inside
      have farther := le_advance buffer offset size
      obtain ⟨rest, rfl, later⟩ := (tiles_iff positive entity).mp tiles
      obtain ⟨next, outcome, runs, flag, all⟩ := ih later (by omega)
      by_cases consumed : consumer offset = true
      · refine ⟨⟨offset, hasError⟩, (outcome.1, offset :: outcome.2.1, outcome.2.2), ?_, flag, ?_⟩
        · intro policy
          refine ⟨checkError_entity entity hasError, ?_⟩
          rw [allOfFrom_entity positive _ _ entity, if_pos consumed, (runs policy).1]
          change (allOfFrom _ _ _ _ _ >>= _) = _
          rw [(runs policy).2]
          rfl
        · intro every
          rw [all every]
      · refine ⟨⟨offset, hasError⟩, (false, [offset], ⟨offset, hasError⟩), ?_, rfl, ?_⟩
        · intro policy
          refine ⟨checkError_entity entity hasError, ?_⟩
          rw [allOfFrom_entity positive _ _ entity, if_neg consumed]
        · intro every
          exact absurd (every offset) consumed
    · cases tiles with
      | finish =>
        refine ⟨⟨buffer.length, hasError⟩, (true, [], ⟨buffer.length, hasError⟩), ?_, rfl, fun _ => rfl⟩
        intro policy
        exact ⟨checkError_end hasError, if_pos endOffset_eq.symm⟩
      | last entity _ => exact absurd ⟨_, entity⟩ starts
      | next entity _ => exact absurd ⟨_, entity⟩ starts

end Rounds

/-- A consumer that accepts all entities does not change the iteration. -/
theorem allOfFrom_accepted {container : ContiguousEntityContainer} {consumer : Nat → Bool} {rounds : Nat}
    {first final : EntityIterator} {entities : List Nat}
    (accepted : container.allOfFrom sizeofEntity consumer rounds first = .ok (true, entities, final)) :
    container.allOfFrom sizeofEntity (fun _ => true) rounds first = .ok (true, entities, final) := by
  induction rounds generalizing first entities with
  | zero => cases accepted
  | succ rounds ih =>
    rw [allOfFrom] at accepted ⊢
    split
    · next finished => rwa [if_pos finished] at accepted
    · next unfinished =>
      rw [if_neg unfinished] at accepted
      split
      · next finished => rwa [if_pos finished] at accepted
      · next inside =>
        rw [if_neg inside] at accepted
        split at accepted
        · rw [if_pos rfl]
          cases moved : container.increment sizeofEntity first with
          | error error =>
            rw [moved] at accepted
            cases accepted
          | ok next =>
            rw [moved] at accepted
            change (allOfFrom _ _ _ _ _ >>= _) = _ at accepted
            change (allOfFrom _ _ _ _ _ >>= _) = _
            cases ran : container.allOfFrom sizeofEntity consumer rounds next with
            | error error =>
              rw [ran] at accepted
              cases accepted
            | ok rest =>
              rw [ran] at accepted
              obtain ⟨answer, visited, last⟩ := rest
              cases accepted
              rw [ih ran]
              rfl
        · cases accepted

end ContiguousEntityContainer

variable {sizeofEntity : Nat} {buffer : List UInt8}

theorem allOf_accepted {container : ContiguousEntityContainer} {consumer : Nat → Bool} {entities : List Nat} {final : EntityIterator}
    (accepted : container.allOf sizeofEntity consumer = .ok (true, entities, final)) :
    container.allOf sizeofEntity (fun _ => true) = .ok (true, entities, final) := by
  rw [ContiguousEntityContainer.allOf] at accepted ⊢
  cases started : container.begin sizeofEntity with
  | error error =>
    rw [started] at accepted
    cases accepted
  | ok first =>
    rw [started] at accepted
    exact ContiguousEntityContainer.allOfFrom_accepted accepted

/-- The iteration with all its rounds starts at the front of the buffer. -/
theorem allOf_tiles (positive : 0 < sizeofEntity) {entities : List Nat} (tiles : Tiles sizeofEntity buffer 0 entities)
    (consumer : Nat → Bool) : ∃ outcome, (∀ policy, (ContiguousEntityContainer.mk buffer policy).allOf sizeofEntity consumer = .ok outcome) ∧
      outcome.2.2.hasError = false ∧ ((∀ visited, consumer visited = true) → outcome = (true, entities, ⟨buffer.length, false⟩)) := by
  obtain ⟨first, outcome, runs, flag, all⟩ :=
    ContiguousEntityContainer.allOfFrom_tiles positive consumer false tiles (buffer.length + 1) (Nat.lt_succ_self _)
  refine ⟨outcome, ?_, flag, all⟩
  intro policy
  rw [ContiguousEntityContainer.allOf, ContiguousEntityContainer.begin, (runs policy).1]
  exact (runs policy).2

theorem iterate_suppressed (positive : 0 < sizeofEntity) (buffer : List UInt8) :
    ∃ offsets hasError, (ContiguousEntityContainer.mk buffer .suppress).allOf sizeofEntity (fun _ => true) =
        .ok (true, offsets, ⟨buffer.length, hasError⟩) ∧
      Visits sizeofEntity buffer 0 offsets ∧ (hasError = true ↔ ¬∃ entities, Tiles sizeofEntity buffer 0 entities) := by
  obtain ⟨first, offsets, failed, checked, ran, visits, reason⟩ :=
    ContiguousEntityContainer.allOfFrom_suppressed positive (buffer.length + 1) 0 false (Nat.lt_succ_self _)
  refine ⟨offsets, failed, ?_, visits, ?_⟩
  · rw [ContiguousEntityContainer.allOf, ContiguousEntityContainer.begin, checked]
    exact ran
  · rw [reason]
    exact or_iff_right Bool.false_ne_true

/-- The transactions of an aggregate with a valid size tile its payload. -/
theorem AggregateTransaction.tiles_of_isSizeValid {registry : List UInt8 → Nat → Bool} {aggregate : AggregateTransaction}
    (valid : aggregate.isSizeValid registry = .ok true) :
    ∃ entities, Tiles sizeofEmbeddedTransaction (aggregate.transactions .suppress).buffer 0 entities := by
  have positive : 0 < sizeofEmbeddedTransaction := by decide
  obtain ⟨offsets, hasError, ran, _, reason⟩ := iterate_suppressed positive (aggregate.transactions .suppress).buffer
  rw [isSizeValid] at valid
  split at valid
  · change (ContiguousEntityContainer.allOf _ _ _ >>= _) = _ at valid
    cases checked : (aggregate.transactions .suppress).allOf sizeofEmbeddedTransaction
      (registry (aggregate.transactions .suppress).buffer) with
    | error error =>
      rw [checked] at valid
      cases valid
    | ok outcome =>
      rw [checked] at valid
      obtain ⟨accepted, entities, final⟩ := outcome
      have both : (accepted && !final.hasError) = true := Except.ok.inj valid
      rw [Bool.and_eq_true, Bool.not_eq_true'] at both
      obtain ⟨rfl, sound⟩ := both
      have same := (allOf_accepted checked).symm.trans ran
      cases same
      have untrue : ¬hasError = true := Bool.eq_false_iff.mp sound
      exact not_not.mp (mt reason.mpr untrue)
  · cases valid

/-- Any bytes are iterated safely, and an aggregate with a valid size is iterated without an error afterwards. -/
theorem iteration_safe_and_exact (sizeofEntity : Nat) (positive : 0 < sizeofEntity) : (∀ buffer, ∃ offsets hasError,
      (ContiguousEntityContainer.mk buffer .suppress).iterate sizeofEntity = .ok (offsets, ⟨buffer.length, hasError⟩) ∧
      Visits sizeofEntity buffer 0 offsets ∧
      (∀ offset ∈ offsets, 8 ∣ offset ∧ ∃ size, EntityAt sizeofEntity buffer offset size) ∧
      (offsets.Pairwise fun first second => ∀ size, EntityAt sizeofEntity buffer first size → first + size ≤ second) ∧
      (hasError = true ↔ ¬∃ entities, Tiles sizeofEntity buffer 0 entities) ∧
      (hasError = false → Tiles sizeofEntity buffer 0 offsets)) ∧
    ∀ registry (aggregate : AggregateTransaction), aggregate.isSizeValid registry = .ok true → ∃ entities,
      Tiles sizeofEmbeddedTransaction (aggregate.transactions .throw).buffer 0 entities ∧
      (∀ policy, (aggregate.transactions policy).iterate sizeofEmbeddedTransaction =
        .ok (entities, ⟨(aggregate.transactions policy).buffer.length, false⟩)) ∧
      ∀ consumer, ∃ outcome, outcome.2.2.hasError = false ∧
        ∀ policy, (aggregate.transactions policy).allOf sizeofEmbeddedTransaction consumer = .ok outcome := by
  constructor
  · intro buffer
    obtain ⟨offsets, hasError, ran, visits, reason⟩ := iterate_suppressed positive buffer
    refine ⟨offsets, hasError, ?_, visits, visits.aligned (Nat.dvd_zero 8), visits.disjoint, reason, ?_⟩
    · rw [ContiguousEntityContainer.iterate, ran]
      rfl
    · intro sound
      have untrue : ¬hasError = true := Bool.eq_false_iff.mp sound
      obtain ⟨entities, tiles⟩ := not_not.mp (mt reason.mpr untrue)
      obtain ⟨outcome, runs, _, all⟩ := allOf_tiles positive tiles fun _ => true
      have same := (runs .suppress).symm.trans ran
      rw [all fun _ => rfl] at same
      cases same
      exact tiles
  · intro registry aggregate valid
    obtain ⟨entities, tiles⟩ := aggregate.tiles_of_isSizeValid valid
    have sized : 0 < sizeofEmbeddedTransaction := by decide
    refine ⟨entities, tiles, ?_, ?_⟩
    · intro policy
      obtain ⟨outcome, runs, _, all⟩ := allOf_tiles sized tiles fun _ => true
      have ran : (aggregate.transactions policy).allOf sizeofEmbeddedTransaction (fun _ => true) = .ok outcome := runs policy
      rw [ContiguousEntityContainer.iterate, ran, all fun _ => rfl]
      rfl
    · intro consumer
      obtain ⟨outcome, runs, flag, _⟩ := allOf_tiles sized tiles consumer
      exact ⟨outcome, flag, runs⟩

namespace Samples

/-- Two entities of eight and nine bytes are followed by three bytes that hold no size. -/
def cutBuffer : List UInt8 := [8, 0, 0, 0, 1, 1, 1, 1, 9, 0, 0, 0, 2, 2, 2, 2, 2, 0, 0, 0, 0, 0, 0, 0, 8, 0, 0]

/-- An aggregate with one embedded transaction that has no more than its header. -/
def smallAggregate : AggregateTransaction where
  size := 5132
  payloadSize := 1328
  payload := [0x30, 5, 0, 0] ++ List.replicate 1324 0
  complete := by
    rw [List.length_append, List.length_replicate]
    decide

/-- A cut buffer is iterated up to its error, and an aggregate to its end. -/
theorem cutBuffer_iterated :
    (∃ offsets hasError, (ContiguousEntityContainer.mk cutBuffer .suppress).iterate 8 = .ok (offsets, ⟨27, hasError⟩) ∧
      Visits 8 cutBuffer 0 offsets) ∧
    ∃ entities, (smallAggregate.transactions .throw).iterate sizeofEmbeddedTransaction =
      .ok (entities, ⟨(smallAggregate.transactions .throw).buffer.length, false⟩) := by
  obtain ⟨safe, exact⟩ := iteration_safe_and_exact 8 (by decide)
  constructor
  · obtain ⟨offsets, hasError, ran, visits, _⟩ := safe cutBuffer
    exact ⟨offsets, hasError, ran, visits⟩
  · obtain ⟨entities, _, ran, _⟩ := exact (fun _ _ => true) smallAggregate (by decide +kernel)
    exact ⟨entities, ran .throw⟩

example : (ContiguousEntityContainer.mk cutBuffer .suppress).iterate 8 = .ok ([0, 8], ⟨27, true⟩) := by decide

end Samples

end Catapult.Model
