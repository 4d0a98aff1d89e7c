import Catapult.Proof.Disruptor.Pipeline

/-
This file shows that elements pass the consumers in the order in which they were added and that the memory is accounted for.
-/

namespace Catapult.Disruptor

open ConsumerDispatcher

section Events

variable {I : Type} {options : ConsumerDispatcherOptions I} {state : ConsumerDispatcher I} {level position : Nat}
  {events : List (DispatcherEvent I)} {phase : Phase I}

/-- A consumer has started on the element in the phase. -/
def HasStarted (level : Nat) : Phase I → Prop
  | .ready next _ _ => level < next
  | .running current _ => level ≤ current
  | .inspected _ | .finished => True

/-- A consumer has returned from the element in the phase. -/
def HasReturned (level : Nat) : Phase I → Prop
  | .ready next _ _ => level < next
  | .running current _ => level < current
  | .inspected _ | .finished => True

theorem Lives.hasStarted (lives : Lives options position events phase) {other : Nat} {input : I}
    (member : .started level other input ∈ events) : HasStarted level phase := by
  induction lives with
  | accepted => cases member with | tail _ none => cases none
  | started lives inside notAborted ih =>
    cases member with
    | head => exact Nat.le_refl _
    | tail _ older => exact Nat.le_of_lt (ih older)
  | finished result output lives ih =>
    cases member with
    | tail _ older => exact Nat.lt_succ_of_le (ih older)
  | inspected lives ends ih => trivial
  | completed lives ih => trivial

theorem Lives.hasReturned (lives : Lives options position events phase) {other : Nat} {result : ConsumerResult} {output : I}
    (member : .finished level other result output ∈ events) : HasReturned level phase := by
  induction lives with
  | accepted => cases member with | tail _ none => cases none
  | started lives inside notAborted ih =>
    cases member with
    | tail _ older => exact ih older
  | finished result output lives ih =>
    cases member with
    | head => exact Nat.lt_succ_self _
    | tail _ older => exact Nat.lt_succ_of_lt (ih older)
  | inspected lives ends ih => trivial
  | completed lives ih => trivial

theorem Lives.hasInspected (lives : Lives options position events phase) {other : Nat} {input : I} {result : ConsumerCompletionResult}
    (member : .inspected other input result ∈ events) : (∃ final, phase = .inspected final) ∨ phase = .finished := by
  induction lives with
  | accepted => cases member with | tail _ none => cases none
  | started lives inside notAborted ih =>
    cases member with
    | tail _ older => rcases ih older with ⟨_, equal⟩ | equal <;> cases equal
  | finished result output lives ih =>
    cases member with
    | tail _ older => rcases ih older with ⟨_, equal⟩ | equal <;> cases equal
  | inspected lives ends ih => exact .inl ⟨_, rfl⟩
  | completed lives ih => exact .inr rfl

theorem Lives.hasCompleted (lives : Lives options position events phase) {other id : Nat} {result : ConsumerCompletionResult}
    (member : .completed other id result ∈ events) : phase = .finished := by
  induction lives with
  | accepted => cases member with | tail _ none => cases none
  | started lives inside notAborted ih =>
    cases member with
    | tail _ older => cases ih older
  | finished result output lives ih =>
    cases member with
    | tail _ older => cases ih older
  | inspected lives ends ih =>
    cases member with
    | tail _ older => cases ih older
  | completed lives ih => rfl

/-- The element was handed to the consumer, or an earlier consumer has aborted it. -/
def HandedOrAborted (events : List (DispatcherEvent I)) (level position : Nat) : Prop :=
  (∃ input, .started level position input ∈ events) ∨
    ∃ earlier < level, ∃ result output, .finished earlier position result output ∈ events ∧ result.completionStatus = .aborted

theorem HandedOrAborted.cons {event : DispatcherEvent I} (handed : HandedOrAborted events level position) :
    HandedOrAborted (event :: events) level position := by
  rcases handed with ⟨input, member⟩ | ⟨earlier, before, result, output, member, aborted⟩
  · exact .inl ⟨input, .tail _ member⟩
  · exact .inr ⟨earlier, before, result, output, .tail _ member, aborted⟩

/-- The consumer has started on the element in the phase or does not start on it any more. -/
def IsPast (level : Nat) : Phase I → Prop
  | .ready next _ result => level < next ∨ result.completionStatus = .aborted
  | .running current _ => level ≤ current
  | .inspected _ | .finished => True

theorem Lives.handed (lives : Lives options position events phase) (inside : level < options.numConsumers) (past : IsPast level phase) :
    HandedOrAborted events level position := by
  induction lives with
  | accepted =>
    rcases past with before | aborted
    · exact absurd before (Nat.not_lt_zero _)
    · cases aborted
  | @started events current input result lives insideCurrent notAborted ih =>
    by_cases same : level = current
    · exact .inl ⟨input, same ▸ .head _⟩
    · exact (ih (.inl (lt_of_le_of_ne past same))).cons
  | @finished events current input result output lives ih =>
    by_cases before : level ≤ current
    · exact (ih before).cons
    · refine .inr ⟨current, Nat.lt_of_not_le before, result, output, .head _, ?_⟩
      rcases past with less | aborted
      · exact absurd (Nat.le_of_lt_succ less) before
      · by_contra normal
        rw [resultAfter, if_neg normal] at aborted
        cases aborted
  | inspected lives ends ih =>
    refine (ih ?_).cons
    rcases ends with last | aborted
    · exact .inl (last ▸ inside)
    · exact .inr aborted
  | completed lives ih => exact (ih trivial).cons

end Events

section Reached

variable {I : Type} {options : ConsumerDispatcherOptions I} {state : ConsumerDispatcher I} {level position : Nat} {phase : Phase I}

/-- An event about an element is in the life of the element. -/
theorem mem_life {event : DispatcherEvent I} (concerned : concerns position event = true) :
    event ∈ life position state.log ↔ event ∈ state.log := by
  rw [life, List.mem_filter]
  exact and_iff_left concerned

/-- Every event is about an element that was added. -/
theorem Living.phase_of_mem (living : Living options state) {event : DispatcherEvent I} (concerned : concerns position event = true)
    (member : event ∈ state.log) : position < state.container.next ∧
      ∃ phase, Lives options position (life position state.log) phase ∧ Matches options state position phase := by
  have lived := living position
  split at lived
  · next added => exact ⟨added, lived⟩
  · have inside := (mem_life concerned).mpr member
    rw [lived] at inside
    cases inside

theorem Structured.pos_of_exit (structured : Structured options state) (inside : level < options.numConsumers)
    (exit : exitOf options state position ≠ .waiting) : position < pos state level := by
  by_contra above
  have order := structured.pos_le (show level ≤ options.numConsumers - 1 by omega) (by omega)
  exact exit (exitOf_waiting (by omega))

/-- A consumer that has returned from an element has handled it. -/
theorem Matches.handled (matched : Matches options state position phase) (structured : Structured options state)
    (inside : level < options.numConsumers) (returned : HasReturned level phase) : Handled state level position := by
  cases phase with
  | ready next input result =>
    obtain ⟨-, -, -, -, -, content⟩ := matched
    split at content
    · exact content.2.1 level returned
    · exact (content.2.2.2 level inside).mpr returned
  | running current input =>
    obtain ⟨insideCurrent, ⟨there, consuming⟩, -⟩ := matched
    have before := (structured.busy_between insideCurrent (by rw [consuming]; trivial)).1 level returned
    exact .inl (there ▸ before)
  | inspected result => exact .inl (structured.pos_of_exit inside (by rw [matched.1]; decide))
  | finished => exact .inl (structured.pos_of_exit inside (by rw [show exitOf options state position = .gone from matched]; decide))

/-- A consumer that has started on an element has handled it or runs on it. -/
theorem Matches.started (matched : Matches options state position phase) (structured : Structured options state)
    (inside : level < options.numConsumers) (started : HasStarted level phase) :
    Handled state level position ∨ Running state level position := by
  cases phase with
  | ready next input result => exact .inl (matched.handled structured inside started)
  | running current input =>
    by_cases same : level = current
    · exact .inr (same ▸ matched.2.1)
    · exact .inl (matched.handled structured inside (lt_of_le_of_ne started same))
  | inspected result => exact .inl (matched.handled structured inside trivial)
  | finished => exact .inl (matched.handled structured inside trivial)

/-- A consumer that has passed an element has started on it, or the element is aborted. -/
theorem Matches.past (matched : Matches options state position phase) (structured : Structured options state)
    (inside : level < options.numConsumers) (passed : position < pos state level) : IsPast level phase := by
  cases phase with
  | ready next input result =>
    obtain ⟨-, -, -, -, -, content⟩ := matched
    split at content
    · next aborted => exact .inr aborted
    · exact .inl ((content.2.2.2 level inside).mp (.inl passed))
  | running current input =>
    obtain ⟨insideCurrent, ⟨there, -⟩, -⟩ := matched
    by_contra above
    have order := structured.pos_le (show current ≤ level from Nat.le_of_not_le above) inside
    omega
  | inspected result => trivial
  | finished => trivial

end Reached

section Order

variable {I : Type} {options : ConsumerDispatcherOptions I} {state : ConsumerDispatcher I} {level : Nat}

/-- What an element can pass once. -/
inductive Station where
  | entry
  | start (level : Nat)
  | end (level : Nat)
  | inspection
  | completion
  deriving DecidableEq

def passes : DispatcherEvent I → Option (Station × Nat)
  | .refused _ _ => none
  | .accepted position _ => some (.entry, position)
  | .started level position _ => some (.start level, position)
  | .finished level position _ _ => some (.end level, position)
  | .inspected position _ _ => some (.inspection, position)
  | .completed position _ _ => some (.completion, position)

/-- No older element passes the same station. -/
def Follows (newer older : DispatcherEvent I) : Prop :=
  ∀ station first second, passes newer = some (station, first) → passes older = some (station, second) → second < first

/-- Elements pass every station once and in the order in which they were added. -/
def Ordered (log : List (DispatcherEvent I)) : Prop := log.Pairwise Follows

/-- The event that a step of a consumer adds to the log. -/
theorem consume_log (state : ConsumerDispatcher I) (options : ConsumerDispatcherOptions I) (level : Nat) (result : ConsumerResult) (output : I) :
    (state.consume options level result output).log = state.log ∨ ∃ event,
      (state.consume options level result output).log = event :: state.log ∧
      (stage state level = .entering ∧ passes event = some (.start level, pos state level) ∨
        stage state level = .consuming ∧ passes event = some (.end level, pos state level) ∨
        stage state level = .inspecting ∧ passes event = some (.inspection, pos state level - 1) ∨
        stage state level = .completing ∧ passes event = some (.completion, pos state level - 1)) := by
  unfold ConsumerDispatcher.consume
  dsimp only
  cases current : stage state level with
  | polling =>
    rw [stage] at current
    rw [current]
    dsimp only
    split <;> exact .inl rfl
  | testing => rw [stage] at current; rw [current]; exact .inl rfl
  | entering => rw [stage] at current; rw [current]; exact .inr ⟨_, rfl, .inl ⟨rfl, rfl⟩⟩
  | consuming => rw [stage] at current; rw [current]; exact .inr ⟨_, rfl, .inr (.inl ⟨rfl, rfl⟩)⟩
  | marking aborted => rw [stage] at current; rw [current]; exact .inl rfl
  | advancing => rw [stage] at current; rw [current]; exact .inl rfl
  | inspecting => rw [stage] at current; rw [current]; exact .inr ⟨_, rfl, .inr (.inr (.inl ⟨rfl, rfl⟩))⟩
  | completing => rw [stage] at current; rw [current]; exact .inr ⟨_, rfl, .inr (.inr (.inr ⟨rfl, rfl⟩))⟩
  | releasing => rw [stage] at current; rw [current]; exact .inl rfl

/-- The element at a position has passed the station. -/
def HasPassed (options : ConsumerDispatcherOptions I) (state : ConsumerDispatcher I) (position : Nat) : Station → Prop
  | .entry => position < state.container.next
  | .start level => level < options.numConsumers → Handled state level position ∨ Running state level position
  | .end level => level < options.numConsumers → Handled state level position
  | .inspection => exitOf options state position = .completing ∨ exitOf options state position = .gone
  | .completion => exitOf options state position = .gone

theorem Tracked.hasPassed (tracked : Tracked options state) {event : DispatcherEvent I} {station : Station} {position : Nat}
    (member : event ∈ state.log) (passed : passes event = some (station, position)) : HasPassed options state position station := by
  have concerned : concerns position event = true := by
    cases event <;> cases passed <;> exact decide_eq_true rfl
  obtain ⟨added, phase, lives, matched⟩ := tracked.living.phase_of_mem concerned member
  have own := (mem_life concerned).mpr member
  cases event with
  | refused input thrown => cases passed
  | accepted position input =>
    cases passed
    exact added
  | started level position input =>
    cases passed
    exact fun inside => matched.started tracked.structured inside (lives.hasStarted own)
  | finished level position result output =>
    cases passed
    exact fun inside => matched.handled tracked.structured inside (lives.hasReturned own)
  | inspected position input result =>
    cases passed
    rcases lives.hasInspected own with ⟨final, rfl⟩ | rfl
    · exact .inl matched.1
    · exact .inr matched
  | completed position id result =>
    cases passed
    obtain rfl := lives.hasCompleted own
    exact matched

theorem Ordered.cons {log : List (DispatcherEvent I)} (ordered : Ordered log) {event : DispatcherEvent I} {station : Station}
    {position : Nat} (passed : passes event = some (station, position))
    (later : ∀ older ∈ log, ∀ other, passes older = some (station, other) → other < position) : Ordered (event :: log) := by
  refine List.pairwise_cons.mpr ⟨fun older member third first second newer before => ?_, ordered⟩
  rw [passed, Option.some.injEq, Prod.mk.injEq] at newer
  obtain ⟨rfl, rfl⟩ := newer
  exact later older member second before

/-- A closing consumer is the last one, and its element has not passed what comes next. -/
theorem Structured.exit_lt (structured : Structured options state) (inside : level < options.numConsumers)
    (closing : Closing (stage state level)) {position : Nat} (exit : exitOf options state position ≠ .waiting)
    (different : exitOf options state position ≠ exitStage (stage state level)) : position < pos state level - 1 := by
  obtain ⟨last, positive, -⟩ := structured.closing_added inside closing
  have below := structured.pos_of_exit inside exit
  by_contra above
  exact different (by rw [exitOf_last (by rw [last]; omega), last])

theorem Ordered.consume (ordered : Ordered state.log) (tracked : Tracked options state) (inside : level < options.numConsumers)
    (result : ConsumerResult) (output : I) : Ordered (state.consume options level result output).log := by
  rcases consume_log state options level result output with same | ⟨event, extended, cases⟩
  · rwa [same]
  · rw [extended]
    rcases cases with ⟨current, passed⟩ | ⟨current, passed⟩ | ⟨current, passed⟩ | ⟨current, passed⟩
    · refine ordered.cons passed fun older member other before => ?_
      rcases tracked.hasPassed member before inside with (less | ⟨-, returned⟩) | ⟨-, consuming⟩
      · exact less
      · rw [current] at returned
        rcases returned with equal | ⟨_, equal⟩ <;> cases equal
      · rw [current] at consuming
        cases consuming
    · refine ordered.cons passed fun older member other before => ?_
      rcases tracked.hasPassed member before inside with less | ⟨-, returned⟩
      · exact less
      · rw [current] at returned
        rcases returned with equal | ⟨_, equal⟩ <;> cases equal
    · refine ordered.cons passed fun older member other before => ?_
      have closing : Closing (stage state level) := by rw [current]; trivial
      rcases tracked.hasPassed member before with exit | exit
      · exact tracked.structured.exit_lt inside closing (by rw [exit]; decide) (by rw [exit, current]; decide)
      · exact tracked.structured.exit_lt inside closing (by rw [exit]; decide) (by rw [exit, current]; decide)
    · refine ordered.cons passed fun older member other before => ?_
      have exit : exitOf options state other = .gone := tracked.hasPassed member before
      exact tracked.structured.exit_lt inside (by rw [current]; trivial) (by rw [exit]; decide) (by rw [exit, current]; decide)

theorem Ordered.produce (ordered : Ordered state.log) (tracked : Tracked options state) : Ordered (state.produce options).log := by
  unfold ConsumerDispatcher.produce
  split
  · exact ordered
  · exact ordered
  · exact ordered
  · split
    · exact List.pairwise_cons.mpr ⟨fun older _ station first second newer => (nomatch newer), ordered⟩
    · exact ordered
  · exact ordered
  · exact ordered.cons rfl fun older member other before => tracked.hasPassed member before
  · exact ordered

theorem processElement_log (input : I) : (state.processElement options input).log = state.log := by
  unfold ConsumerDispatcher.processElement
  split
  · rfl
  · split <;> rfl

end Order

variable {I : Type} {options : ConsumerDispatcherOptions I} {state : ConsumerDispatcher I} {level position : Nat}

/-- The size of the element that was accepted at a position. -/
def acceptedSize (options : ConsumerDispatcherOptions I) (position : Nat) : List (DispatcherEvent I) → Nat
  | [] => 0
  | .accepted other input :: log => if other = position then (options.memorySize input).toNat else acceptedSize options position log
  | _ :: log => acceptedSize options position log

/-- The number of elements whose completion handler has returned. -/
def releasedCount (options : ConsumerDispatcherOptions I) (state : ConsumerDispatcher I) : Nat :=
  pos state (options.numConsumers - 1) - if Closing (stage state (options.numConsumers - 1)) then 1 else 0

/-- The size and the number of inputs that are reserved, but not yet added. -/
def reserved (options : ConsumerDispatcherOptions I) : ProducerStage I → Nat × Nat
  | .adding input => ((options.memorySize input).toNat, 1)
  | _ => (0, 0)

/-- The memory is the sum of the sizes of the active elements. -/
structure Accounted (options : ConsumerDispatcherOptions I) (state : ConsumerDispatcher I) : Prop where
  sized : ∀ position < state.container.next, releasedCount options state ≤ position →
    (state.container.get position).inputMemorySize.toNat = acceptedSize options position state.log
  memory : state.memorySize.toNat =
    ∑ position ∈ Finset.Ico (releasedCount options state) state.container.next, acceptedSize options position state.log +
      (reserved options state.producer).1
  active : state.numActiveElements = state.container.next - releasedCount options state + (reserved options state.producer).2
  bounded : state.memorySize ≤ options.disruptorMaxMemorySize
  room : ∀ input, state.producer = .reserving input →
    state.memorySize.toNat + (options.memorySize input).toNat ≤ options.disruptorMaxMemorySize.toNat

theorem Structured.released_le (structured : Structured options state) (consumers : 1 ≤ options.numConsumers) :
    releasedCount options state ≤ state.container.next ∧ pos state (options.numConsumers - 1) ≤ releasedCount options state + 1 := by
  have top := structured.pos_le_barrier (show options.numConsumers - 1 < options.numConsumers by omega)
  have next := structured.next
  unfold releasedCount
  split <;> omega

theorem acceptedSize_cons {event : DispatcherEvent I} {log : List (DispatcherEvent I)}
    (other : passes event ≠ some (.entry, position)) :
    acceptedSize options position (event :: log) = acceptedSize options position log := by
  cases event with
  | accepted added input =>
    have different : added ≠ position := by
      rintro rfl
      exact other rfl
    rw [acceptedSize, if_neg different]
  | refused _ _ => rfl
  | started _ _ _ => rfl
  | finished _ _ _ _ => rfl
  | inspected _ _ _ => rfl
  | completed _ _ _ => rfl

theorem consume_acceptedSize (result : ConsumerResult) (output : I) (position : Nat) :
    acceptedSize options position (state.consume options level result output).log = acceptedSize options position state.log := by
  rcases consume_log state options level result output with same | ⟨event, extended, cases⟩
  · rw [same]
  · rw [extended]
    refine acceptedSize_cons ?_
    rcases cases with ⟨-, passed⟩ | ⟨-, passed⟩ | ⟨-, passed⟩ | ⟨-, passed⟩ <;> rw [passed] <;> exact nofun

/-- A slot that is written with the size that it has keeps all sizes. -/
theorem size_set {container : CircularBuffer (DisruptorElement I)} {index : Nat} {element : DisruptorElement I}
    (same : element.inputMemorySize = (container.get index).inputMemorySize) (position : Nat) :
    ((container.set index element).get position).inputMemorySize = (container.get position).inputMemorySize := by
  by_cases slot : position % container.capacity = index % container.capacity
  · rw [CircularBuffer.get, CircularBuffer.get, CircularBuffer.set]
    dsimp only
    rw [slot, Function.update_self]
    exact same
  · rw [get_set_of_ne slot]

/-- A consumer keeps the sizes in the slots. -/
theorem consume_size (result : ConsumerResult) (output : I) (position : Nat) :
    ((state.consume options level result output).container.get position).inputMemorySize =
      (state.container.get position).inputMemorySize := by
  unfold ConsumerDispatcher.consume
  dsimp only
  split
  · split <;> rfl
  · rfl
  · rfl
  · refine size_set ?_ position
    rfl
  · refine size_set ?_ position
    rfl
  · rfl
  · rfl
  · rfl
  · rfl

/-- A consumer keeps the number of elements and the stage of the producer. -/
theorem consume_producer (result : ConsumerResult) (output : I) :
    (state.consume options level result output).container.next = state.container.next ∧
      (state.consume options level result output).producer = state.producer := by
  unfold ConsumerDispatcher.consume
  dsimp only
  split
  · split <;> exact ⟨rfl, rfl⟩
  · exact ⟨rfl, rfl⟩
  · exact ⟨rfl, rfl⟩
  · exact ⟨rfl, rfl⟩
  · exact ⟨rfl, rfl⟩
  · exact ⟨rfl, rfl⟩
  · exact ⟨rfl, rfl⟩
  · exact ⟨rfl, rfl⟩
  · exact ⟨rfl, rfl⟩

/-- How a step of a consumer moves it and what it does to the counters. -/
theorem consume_moves (state : ConsumerDispatcher I) (options : ConsumerDispatcherOptions I) (level : Nat) (result : ConsumerResult)
    (output : I) (after : ConsumerDispatcher I) (stepped : state.consume options level result output = after) :
    after = state ∨ (after.memorySize = state.memorySize ∧ after.numActiveElements = state.numActiveElements ∧
        ((∃ next, Entered state after level next ∧ (Closing next ↔ Closing (stage state level))) ∨
          stage state level = .advancing ∧ Advanced options state after level)) ∨
      stage state level = .releasing ∧ Entered state after level .polling ∧
        after.memorySize = state.memorySize - (state.container.get (pos state level - 1)).inputMemorySize ∧
        after.numActiveElements = state.numActiveElements - 1 := by
  unfold ConsumerDispatcher.consume at stepped
  have read : (state.consumers level).stage = stage state level := rfl
  rw [read] at stepped
  revert stepped
  cases stage state level with
  | polling =>
    dsimp only
    split
    · exact fun stepped => .inl stepped.symm
    · rintro rfl
      exact .inr (.inl ⟨rfl, rfl, .inl ⟨_, entered rfl rfl rfl rfl rfl rfl, Iff.rfl⟩⟩)
  | testing =>
    rintro rfl
    refine .inr (.inl ⟨rfl, rfl, .inl ⟨_, entered rfl rfl rfl rfl rfl rfl, ?_⟩⟩)
    split <;> exact Iff.rfl
  | entering =>
    rintro rfl
    exact .inr (.inl ⟨rfl, rfl, .inl ⟨_, entered rfl rfl rfl rfl rfl rfl, Iff.rfl⟩⟩)
  | consuming =>
    rintro rfl
    refine .inr (.inl ⟨rfl, rfl, .inl ⟨_, entered rfl rfl rfl rfl rfl rfl, ?_⟩⟩)
    split <;> exact Iff.rfl
  | marking aborted =>
    rintro rfl
    exact .inr (.inl ⟨rfl, rfl, .inl ⟨_, entered rfl rfl rfl rfl rfl rfl, Iff.rfl⟩⟩)
  | advancing =>
    rintro rfl
    exact .inr (.inl ⟨rfl, rfl, .inr ⟨rfl, advanced options state level⟩⟩)
  | inspecting =>
    rintro rfl
    exact .inr (.inl ⟨rfl, rfl, .inl ⟨_, entered rfl rfl rfl rfl rfl rfl, Iff.rfl⟩⟩)
  | completing =>
    rintro rfl
    exact .inr (.inl ⟨rfl, rfl, .inl ⟨_, entered rfl rfl rfl rfl rfl rfl, Iff.rfl⟩⟩)
  | releasing =>
    rintro rfl
    exact .inr (.inr ⟨rfl, entered rfl rfl rfl rfl rfl rfl, rfl, rfl⟩)

theorem released_entered {after : ConsumerDispatcher I} {next : ConsumerStage} (entered : Entered state after level next)
    (closing : Closing next ↔ Closing (stage state level)) : releasedCount options after = releasedCount options state := by
  unfold releasedCount
  rw [entered.position, entered.stage]
  by_cases same : options.numConsumers - 1 = level
  · rw [if_pos same, same, if_congr closing rfl rfl]
  · rw [if_neg same]

theorem released_advanced {after : ConsumerDispatcher I} (inside : level < options.numConsumers)
    (advancing : stage state level = .advancing) (advanced : Advanced options state after level) :
    releasedCount options after = releasedCount options state := by
  unfold releasedCount
  rw [advanced.position, advanced.stage]
  by_cases same : options.numConsumers - 1 = level
  · have last : level + 1 = options.numConsumers := by omega
    rw [if_pos same, if_pos same, if_pos last, same, advancing, if_pos (show Closing .inspecting from trivial),
      if_neg (show ¬ Closing .advancing from id)]
    rfl
  · rw [if_neg same, if_neg same]

/-- The completion of an element releases it. -/
theorem Structured.released_releasing (structured : Structured options state) {after : ConsumerDispatcher I}
    (inside : level < options.numConsumers) (releasing : stage state level = .releasing) (entered : Entered state after level .polling) :
    releasedCount options after = releasedCount options state + 1 ∧ pos state level - 1 = releasedCount options state := by
  have closing : Closing (stage state level) := by rw [releasing]; trivial
  obtain ⟨last, positive, -⟩ := structured.closing_added inside closing
  unfold releasedCount
  rw [entered.position, entered.stage, if_pos last, last, if_pos closing, if_neg (show ¬ Closing .polling from id)]
  omega

/-- A step that does not release an element and changes no size keeps the account. -/
theorem Accounted.keep (accounted : Accounted options state) {after : ConsumerDispatcher I}
    (next : after.container.next = state.container.next) (released : releasedCount options after = releasedCount options state)
    (slots : ∀ position, (after.container.get position).inputMemorySize = (state.container.get position).inputMemorySize)
    (log : ∀ position, acceptedSize options position after.log = acceptedSize options position state.log)
    (memory : after.memorySize = state.memorySize) (active : after.numActiveElements = state.numActiveElements)
    (producer : reserved options after.producer = reserved options state.producer)
    (room : ∀ input, after.producer = .reserving input →
      state.memorySize.toNat + (options.memorySize input).toNat ≤ options.disruptorMaxMemorySize.toNat) : Accounted options after := by
  refine ⟨fun position => ?_, ?_, ?_, ?_, ?_⟩
  · rw [next, released, slots, log]
    exact accounted.sized position
  · rw [next, released, producer, memory, accounted.memory]
    exact congrArg (· + _) (Finset.sum_congr rfl fun position _ => (log position).symm)
  · rw [next, released, producer, active]
    exact accounted.active
  · rw [memory]
    exact accounted.bounded
  · rw [memory]
    exact room

theorem Accounted.consume (accounted : Accounted options state) (structured : Structured options state)
    (inside : level < options.numConsumers) (result : ConsumerResult) (output : I) :
    Accounted options (state.consume options level result output) := by
  obtain ⟨next, producer⟩ := @consume_producer I options state level result output
  have slots := @consume_size I options state level result output
  have log := @consume_acceptedSize I options state level result output
  have room : ∀ input, (state.consume options level result output).producer = .reserving input →
      state.memorySize.toNat + (options.memorySize input).toNat ≤ options.disruptorMaxMemorySize.toNat := by
    rw [producer]
    exact accounted.room
  rcases consume_moves state options level result output _ rfl with same | ⟨memory, active, moved⟩ | ⟨releasing, entered, memory, active⟩
  · rwa [same]
  · refine accounted.keep next ?_ slots log memory active (by rw [producer]) room
    rcases moved with ⟨_, entered, closing⟩ | ⟨advancing, advanced⟩
    · exact released_entered entered closing
    · exact released_advanced inside advancing advanced
  · obtain ⟨released, there⟩ := structured.released_releasing inside releasing entered
    have added := (structured.closing_added inside (by rw [releasing]; trivial)).2.2
    rw [there] at added memory
    have size := accounted.sized _ added (Nat.le_refl _)
    have total := accounted.memory
    rw [Finset.sum_eq_sum_Ico_succ_bot added] at total
    have fits : (state.container.get (releasedCount options state)).inputMemorySize ≤ state.memorySize := by
      rw [UInt64.le_iff_toNat_le]
      omega
    have less : (state.memorySize - (state.container.get (releasedCount options state)).inputMemorySize).toNat =
        state.memorySize.toNat - (state.container.get (releasedCount options state)).inputMemorySize.toNat :=
      UInt64.toNat_sub_of_le _ _ fits
    refine ⟨fun position below above => ?_, ?_, ?_, ?_, fun input reserving => ?_⟩
    · rw [next] at below
      rw [slots, log]
      exact accounted.sized position below (by omega)
    · rw [next, released, producer, memory, less, Finset.sum_congr rfl fun position _ => log position]
      omega
    · have count := accounted.active
      rw [next, released, producer, active]
      omega
    · have bounded := accounted.bounded
      rw [UInt64.le_iff_toNat_le] at bounded ⊢
      rw [memory]
      omega
    · have fitsInput := room input reserving
      rw [memory]
      omega

/-- The producer reserves only memory that is free, so that the capacity never wraps. -/
theorem Accounted.produce (accounted : Accounted options state) (tracked : Tracked options state) (consumers : 1 ≤ options.numConsumers) :
    Accounted options (state.produce options) := by
  have structured := tracked.structured
  have memory := accounted.memory
  have active := accounted.active
  have bounded := accounted.bounded
  cases producer : state.producer with
  | idle =>
    rw [ConsumerDispatcher.produce, producer]
    exact accounted
  | readingMin input =>
    rw [ConsumerDispatcher.produce, producer]
    exact accounted.keep rfl rfl (fun _ => rfl) (fun _ => rfl) rfl rfl (by rw [producer]; rfl) (by rintro _ ⟨⟩)
  | readingMax input minPosition =>
    rw [ConsumerDispatcher.produce, producer]
    exact accounted.keep rfl rfl (fun _ => rfl) (fun _ => rfl) rfl rfl (by rw [producer]; rfl) (by rintro _ ⟨⟩)
  | checkingMemory input isFull =>
    rw [ConsumerDispatcher.produce, producer]
    dsimp only
    split
    · exact accounted.keep rfl rfl (fun _ => rfl) (fun _ => rfl) rfl rfl (by rw [producer]; rfl) (by rintro _ ⟨⟩)
    · next free =>
      refine accounted.keep rfl rfl (fun _ => rfl) (fun _ => rfl) rfl rfl (by rw [producer]; rfl) fun other same => ?_
      obtain rfl : input = other := ProducerStage.reserving.inj same
      rw [Bool.or_eq_true, not_or, decide_eq_true_eq, UInt64.not_lt, UInt64.le_iff_toNat_le,
        UInt64.toNat_sub_of_le _ _ bounded] at free
      rw [UInt64.le_iff_toNat_le] at bounded
      omega
  | reserving input =>
    have room := accounted.room input producer
    have small := options.disruptorMaxMemorySize.toNat_lt
    have sum : (state.memorySize + options.memorySize input).toNat =
        state.memorySize.toNat + (options.memorySize input).toNat := by
      rw [UInt64.toNat_add, Nat.mod_eq_of_lt (by omega)]
    rw [producer] at memory active
    rw [ConsumerDispatcher.produce, producer]
    refine ⟨accounted.sized, ?_, ?_, ?_, (by rintro _ ⟨⟩)⟩
    · change (state.memorySize + options.memorySize input).toNat = _ + (options.memorySize input).toNat
      rw [sum, memory]
      rfl
    · change state.numActiveElements + 1 = _ + 1
      rw [active]
      rfl
    · change state.memorySize + options.memorySize input ≤ options.disruptorMaxMemorySize
      rw [UInt64.le_iff_toNat_le, sum]
      exact room
  | adding input =>
    obtain ⟨low, last⟩ := structured.released_le consumers
    have old : ∀ position, position < state.container.next →
        acceptedSize options position (.accepted state.container.next input :: state.log) =
          acceptedSize options position state.log := by
      intro position below
      rw [acceptedSize, if_neg (by omega)]
    have new : acceptedSize options state.container.next (.accepted state.container.next input :: state.log) =
        (options.memorySize input).toNat := by
      rw [acceptedSize, if_pos rfl]
    rw [producer] at memory active
    rw [ConsumerDispatcher.produce, producer]
    refine ⟨fun position below above => ?_, ?_, ?_, bounded, (by rintro _ ⟨⟩)⟩
    · change position < state.container.next + 1 at below
      dsimp only
      by_cases same : position = state.container.next
      · subst same
        rw [new, get_pushBack_self]
      · have added : position < state.container.next := by omega
        have kept := structured.next_slot consumers producer added (Nat.le_trans last (Nat.succ_le_succ above))
        rw [old position added, ← accounted.sized position added above, get_pushBack_of_ne kept]
    · change state.memorySize.toNat = ∑ position ∈ Finset.Ico (releasedCount options state) (state.container.next + 1),
        acceptedSize options position (.accepted state.container.next input :: state.log) + 0
      rw [Finset.sum_Ico_succ_top low, new, memory, Finset.sum_congr rfl fun position member => old position (Finset.mem_Ico.mp member).2]
      rfl
    · change state.numActiveElements = state.container.next + 1 - releasedCount options state + 0
      rw [active]
      change _ - _ + 1 = _
      omega
  | advancing =>
    rw [ConsumerDispatcher.produce, producer]
    exact accounted.keep rfl rfl (fun _ => rfl) (fun _ => rfl) rfl rfl (by rw [producer]; rfl) (by rintro _ ⟨⟩)

theorem Accounted.processElement (accounted : Accounted options state) (input : I) :
    Accounted options (state.processElement options input) := by
  unfold ConsumerDispatcher.processElement
  split
  · exact accounted
  · split
    · next idle => exact accounted.keep rfl rfl (fun _ => rfl) (fun _ => rfl) rfl rfl (by rw [idle]; rfl) nofun
    · exact accounted

theorem accounted_create [Inhabited I] : Accounted options (ConsumerDispatcher.create options) :=
  ⟨nofun, rfl, rfl, UInt64.zero_le, nofun⟩

/-- No thread can take a step that has an effect. -/
def Quiescent (options : ConsumerDispatcherOptions I) (state : ConsumerDispatcher I) : Prop :=
  state.step options .produce = state ∧ ∀ level result output, state.step options (.consume level result output) = state

theorem Quiescent.idle (quiescent : Quiescent options state) : state.producer = .idle := by
  have same := congrArg ConsumerDispatcher.producer quiescent.1
  rw [ConsumerDispatcher.step, ConsumerDispatcher.produce] at same
  cases producer : state.producer with
  | idle => rfl
  | checkingMemory input isFull =>
    rw [producer] at same
    dsimp only at same
    split at same
    · cases same
    · cases same
  | readingMin input => rw [producer] at same; cases same
  | readingMax input minPosition => rw [producer] at same; cases same
  | reserving input => rw [producer] at same; cases same
  | adding input => rw [producer] at same; cases same
  | advancing => rw [producer] at same; cases same

theorem stage_enter (state : ConsumerDispatcher I) (level : Nat) (next : ConsumerStage) : stage (state.enter level next) level = next := by
  exact ((@entered I state (state.enter level next) level next rfl rfl rfl rfl rfl rfl).stage level).trans (if_pos rfl)

/-- A consumer that cannot take a step waits for its barrier. -/
theorem Quiescent.waits (quiescent : Quiescent options state) (inside : level < options.numConsumers) (output : I) :
    stage state level = .polling ∧ pos state level = state.barriers level := by
  have unchanged := quiescent.2 level ⟨.normal, 0, .neutral⟩ output
  rw [ConsumerDispatcher.step, if_pos inside] at unchanged
  have same := congrArg (fun after => stage after level) unchanged
  unfold ConsumerDispatcher.consume at same
  have read : (state.consumers level).stage = stage state level := rfl
  dsimp only at same
  rw [read] at same
  revert same
  cases stage state level with
  | polling =>
    intro same
    dsimp only at same
    split at same
    · next there => exact ⟨rfl, there⟩
    · cases (stage_enter state level .testing).symm.trans same
  | testing =>
    intro same
    have moved := (stage_enter state level _).symm.trans same
    split at moved <;> cases moved
  | entering =>
    intro same
    cases (stage_enter state level .consuming).symm.trans same
  | consuming =>
    intro same
    cases (stage_enter state level .advancing).symm.trans same
  | marking aborted =>
    intro same
    cases (stage_enter state level .advancing).symm.trans same
  | advancing =>
    intro same
    have moved := ((advanced options state level).stage level).symm.trans same
    rw [if_pos rfl] at moved
    split at moved <;> cases moved
  | inspecting =>
    intro same
    cases (stage_enter state level .completing).symm.trans same
  | completing =>
    intro same
    cases (stage_enter state level .releasing).symm.trans same
  | releasing =>
    intro same
    cases (stage_enter state level .polling).symm.trans same

/-- What holds of the dispatcher in every state that it reaches. -/
structure SoundDispatcher (options : ConsumerDispatcherOptions I) (state : ConsumerDispatcher I) : Prop where
  /-- An element is handed to the consumers in order, up to the first one that aborts it; then it is inspected and completed. -/
  lives : ∀ position < state.container.next, ∃ phase, Lives options position (life position state.log) phase
  absent : ∀ position, state.container.next ≤ position → life position state.log = []
  /-- A consumer passes only elements that it was handed or that were aborted before. -/
  handed : ∀ level < options.numConsumers, ∀ position < (state.consumers level).position, HandedOrAborted state.log level position
  ordered : Ordered state.log
  /-- If nothing is left to do, then every element is completed. -/
  finished : Quiescent options state → ∀ position < state.container.next, Lives options position (life position state.log) .finished
  /-- The next element is never written to the slot of an element whose completion handler has not returned. -/
  kept : ∀ input, state.producer = .adding input → ∀ position < state.container.next, releasedCount options state ≤ position →
    position % state.container.capacity ≠ state.container.next % state.container.capacity
  memory : state.memorySize.toNat =
    ∑ position ∈ Finset.Ico (releasedCount options state) state.container.next, acceptedSize options position state.log +
      (reserved options state.producer).1
  active : state.numActiveElements = state.container.next - releasedCount options state + (reserved options state.producer).2
  bounded : state.memorySize ≤ options.disruptorMaxMemorySize
  /-- The subtraction that yields the free memory does not wrap. -/
  free : (options.disruptorMaxMemorySize - state.memorySize).toNat = options.disruptorMaxMemorySize.toNat - state.memorySize.toNat

theorem HandedOrAborted.of_life (handed : HandedOrAborted (life position state.log) level position) :
    HandedOrAborted state.log level position := by
  rcases handed with ⟨input, member⟩ | ⟨earlier, before, result, output, member, aborted⟩
  · exact .inl ⟨input, (List.mem_filter.mp member).1⟩
  · exact .inr ⟨earlier, before, result, output, (List.mem_filter.mp member).1, aborted⟩

theorem Tracked.phase (tracked : Tracked options state) (added : position < state.container.next) :
    ∃ phase, Lives options position (life position state.log) phase ∧ Matches options state position phase := by
  have lived := tracked.living position
  rwa [if_pos added] at lived

/-- When nothing is left to do, all consumers have passed all elements. -/
theorem Tracked.finished (tracked : Tracked options state) (consumers : 1 ≤ options.numConsumers) (quiescent : Quiescent options state)
    (added : position < state.container.next) : Lives options position (life position state.log) .finished := by
  obtain ⟨phase, lives, matched⟩ := tracked.phase added
  have structured := tracked.structured
  have next := structured.next
  rw [quiescent.idle] at next
  dsimp only [pendingAdvance] at next
  have output := (state.container.get position).input
  have equal : ∀ level < options.numConsumers, pos state level = state.barriers 0 := by
    intro level inside
    induction level with
    | zero => exact (quiescent.waits inside output).2
    | succ level ih =>
      rw [(quiescent.waits inside output).2, structured.behind level (by omega)]
      exact ih (by omega)
  have gone : exitOf options state position = .gone := by
    have last := equal (options.numConsumers - 1) (by omega)
    by_cases before : position + 1 = pos state (options.numConsumers - 1)
    · rw [exitOf_last before, (quiescent.waits (by omega) output).1]
      rfl
    · exact exitOf_gone (by omega)
  cases phase with
  | ready next input result =>
    rcases matched.2.1 with exit | exit
    · exact absurd (gone.symm.trans exit) (by decide)
    · exact absurd (gone.symm.trans exit) (by decide)
  | running current input => exact absurd (gone.symm.trans matched.2.2.1) (by decide)
  | inspected result => exact absurd (gone.symm.trans matched.1) (by decide)
  | finished => exact lives

/-- The invariants of a run. -/
structure Safe (options : ConsumerDispatcherOptions I) (state : ConsumerDispatcher I) : Prop where
  tracked : Tracked options state
  ordered : Ordered state.log
  accounted : Accounted options state

theorem Safe.step (safe : Safe options state) (consumers : 1 ≤ options.numConsumers) (action : DispatcherAction I) :
    Safe options (state.step options action) := by
  refine ⟨safe.tracked.step consumers action, ?_, ?_⟩
  · cases action with
    | processElement input =>
      rw [ConsumerDispatcher.step, processElement_log]
      exact safe.ordered
    | produce => exact safe.ordered.produce safe.tracked
    | consume level result output =>
      rw [ConsumerDispatcher.step]
      split
      · next inside => exact safe.ordered.consume safe.tracked inside result output
      · exact safe.ordered
  · cases action with
    | processElement input => exact safe.accounted.processElement input
    | produce => exact safe.accounted.produce safe.tracked consumers
    | consume level result output =>
      rw [ConsumerDispatcher.step]
      split
      · next inside => exact safe.accounted.consume safe.tracked.structured inside result output
      · exact safe.accounted

theorem safe_create [Inhabited I] (slots : 2 ≤ options.disruptorSlotCount) : Safe options (ConsumerDispatcher.create options) :=
  ⟨tracked_create (by omega), .nil, accounted_create⟩

theorem Safe.sound (safe : Safe options state) (consumers : 1 ≤ options.numConsumers) : SoundDispatcher options state where
  lives position added := by
    obtain ⟨phase, lives, -⟩ := safe.tracked.phase added
    exact ⟨phase, lives⟩
  absent position above := by
    have lived := safe.tracked.living position
    rwa [if_neg (Nat.not_lt.mpr above)] at lived
  handed level inside position passed := by
    have added : position < state.container.next := by
      have top := safe.tracked.structured.pos_le_barrier inside
      have next := safe.tracked.structured.next
      change position < pos state level at passed
      omega
    obtain ⟨phase, lives, matched⟩ := safe.tracked.phase added
    exact (lives.handed inside (matched.past safe.tracked.structured inside passed)).of_life
  ordered := safe.ordered
  finished quiescent position added := safe.tracked.finished consumers quiescent added
  kept input adding position added above := by
    have last := (safe.tracked.structured.released_le consumers).2
    exact safe.tracked.structured.next_slot consumers adding added (by omega)
  memory := safe.accounted.memory
  active := safe.accounted.active
  bounded := safe.accounted.bounded
  free := UInt64.toNat_sub_of_le _ _ safe.accounted.bounded

/-- Under every interleaving of the callers and the consumers, the dispatcher is sound. -/
theorem dispatcher_run_sound [Inhabited I] (options : ConsumerDispatcherOptions I) (consumers : 1 ≤ options.numConsumers)
    (slots : 2 ≤ options.disruptorSlotCount) (actions : List (DispatcherAction I)) :
    SoundDispatcher options (actions.foldl (ConsumerDispatcher.step options) (ConsumerDispatcher.create options)) := by
  have safe := @Runs.always_foldl _ _ (ConsumerDispatcher.step options) (Safe options)
    (fun _ action safe => safe.step consumers action) actions _ (safe_create slots)
  exact safe.sound consumers

namespace Samples

/-- Two consumers share two slots; an input is its size. -/
def dispatcherOptions : ConsumerDispatcherOptions UInt64 := ⟨2, 100, true, 2, id, (· = 0)⟩

/-- The first consumer aborts the only element, so the second one skips it. -/
def abortingRun : List (DispatcherAction UInt64) :=
  .processElement 7 :: List.replicate 6 .produce ++ List.replicate 6 (.consume 0 ⟨.aborted, 9, .failure⟩ 8) ++
    List.replicate 6 (.consume 1 ⟨.normal, 0, .success⟩ 3)

/-- An aborted element is completed and inspected. -/
theorem aborting_run_sound : 1 ≤ dispatcherOptions.numConsumers ∧ 2 ≤ dispatcherOptions.disruptorSlotCount ∧
    (abortingRun.foldl (ConsumerDispatcher.step dispatcherOptions) (ConsumerDispatcher.create dispatcherOptions)).log.map passes =
      [some (.completion, 0), some (.inspection, 0), some (.end 0, 0), some (.start 0, 0), some (.entry, 0)] ∧
    SoundDispatcher dispatcherOptions
      (abortingRun.foldl (ConsumerDispatcher.step dispatcherOptions) (ConsumerDispatcher.create dispatcherOptions)) :=
  ⟨by decide, by decide, by decide, dispatcher_run_sound dispatcherOptions (by decide) (by decide) abortingRun⟩

end Samples

end Catapult.Disruptor
