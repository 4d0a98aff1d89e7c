import Catapult.Construction.Disruptor.ConsumerDispatcher
import Catapult.Library.Runs
import Mathlib.Algebra.BigOperators.Intervals
import Mathlib.Data.Nat.ModEq

/-
This file shows that the dispatcher passes every element through its consumers in order and never reuses a slot too early.
-/

namespace Catapult.Disruptor

open ConsumerDispatcher

variable {T : Type} {circular : CircularBuffer T} {index other : Nat}

/-- Positions that are less than one round apart have different slots. -/
theorem eq_of_slot {low capacity : Nat} (lowIndex : low ≤ index) (lowOther : low ≤ other) (highIndex : index < low + capacity)
    (highOther : other < low + capacity) (same : index % capacity = other % capacity) : index = other := by
  have general : ∀ first second, first ≤ second → second < first + capacity → first % capacity = second % capacity → first = second := by
    intro first second before near equal
    have divides : capacity ∣ second - first := (Nat.modEq_iff_dvd' before).mp equal
    have zero := Nat.eq_zero_of_dvd_of_lt divides (by omega)
    omega
  rcases Nat.le_total index other with before | after
  · exact general index other before (by omega) same
  · exact (general other index after (by omega) same.symm).symm

theorem get_set_self (element : T) : (circular.set index element).get index = element := Function.update_self _ _ _

theorem get_set_of_ne {element : T} (different : other % circular.capacity ≠ index % circular.capacity) :
    (circular.set index element).get other = circular.get other := Function.update_of_ne different _ _

theorem get_pushBack_self (element : T) : (circular.pushBack element).get circular.next = element := Function.update_self _ _ _

theorem get_pushBack_of_ne {element : T} (different : other % circular.capacity ≠ circular.next % circular.capacity) :
    (circular.pushBack element).get other = circular.get other := Function.update_of_ne different _ _

section Structure

variable {I : Type} {options : ConsumerDispatcherOptions I} {state : ConsumerDispatcher I} {level : Nat}

def pos (state : ConsumerDispatcher I) (level : Nat) : Nat := (state.consumers level).position

def stage (state : ConsumerDispatcher I) (level : Nat) : ConsumerStage := (state.consumers level).stage

/-- The consumer works on the element at its position. -/
def Busy : ConsumerStage → Prop
  | .testing | .entering | .consuming | .marking _ | .advancing => True
  | _ => False

/-- The last consumer finishes the element before its position. -/
def Closing : ConsumerStage → Prop
  | .inspecting | .completing | .releasing => True
  | _ => False

instance (stage : ConsumerStage) : Decidable (Closing stage) := by
  cases stage <;> first | exact isTrue trivial | exact isFalse id

/-- What the caller that holds the lock has found out stays true, since the consumers only advance. -/
def Permitted (options : ConsumerDispatcherOptions I) (state : ConsumerDispatcher I) : Prop :=
  match state.producer with
  | .readingMax _ minPosition => minPosition ≤ state.barriers options.numConsumers
  | .checkingMemory _ isFull => isFull = false →
      state.barriers 0 + 2 ≤ options.disruptorSlotCount + state.barriers options.numConsumers
  | .reserving _ | .adding _ => state.barriers 0 + 2 ≤ options.disruptorSlotCount + state.barriers options.numConsumers
  | _ => True

/-- An element has been written, but its barrier has not been advanced yet. -/
def pendingAdvance : ProducerStage I → Nat
  | .advancing => 1
  | _ => 0

/-- The consumers follow each other, and the producer keeps one spare slot. -/
structure Structured (options : ConsumerDispatcherOptions I) (state : ConsumerDispatcher I) : Prop where
  capacity : state.container.capacity = options.disruptorSlotCount
  behind : ∀ level < options.numConsumers, state.barriers (level + 1) = pos state level
  ahead : ∀ level < options.numConsumers, pos state level ≤ state.barriers level
  busy : ∀ level < options.numConsumers, Busy (stage state level) → pos state level < state.barriers level
  closing : ∀ level < options.numConsumers, Closing (stage state level) → level + 1 = options.numConsumers ∧ 0 < pos state level
  next : state.container.next = state.barriers 0 + pendingAdvance state.producer
  counted : state.allElementsCount = state.container.next
  window : state.container.next + 1 ≤ options.disruptorSlotCount + state.barriers options.numConsumers
  permitted : Permitted options state

theorem structured_create [Inhabited I] (slots : 1 ≤ options.disruptorSlotCount) :
    Structured options (ConsumerDispatcher.create options) where
  capacity := rfl
  behind _ _ := rfl
  ahead _ _ := Nat.le_refl _
  busy _ _ := False.elim
  closing _ _ := False.elim
  next := rfl
  counted := rfl
  window := by
    change 0 + 1 ≤ options.disruptorSlotCount + 0
    omega
  permitted := trivial

/-- Later consumers are not ahead of earlier ones. -/
theorem Structured.pos_le (structured : Structured options state) {first second : Nat} (before : first ≤ second)
    (inside : second < options.numConsumers) : pos state second ≤ pos state first := by
  induction second, before using Nat.le_induction with
  | base => exact Nat.le_refl _
  | succ second _ ih =>
    have ahead := structured.ahead (second + 1) inside
    rw [structured.behind second (by omega)] at ahead
    exact Nat.le_trans ahead (ih (by omega))

theorem Structured.pos_le_barrier (structured : Structured options state) (inside : level < options.numConsumers) :
    pos state level ≤ state.barriers 0 :=
  Nat.le_trans (structured.pos_le (Nat.zero_le _) inside) (structured.ahead 0 (by omega))

/-- The barrier behind the last consumer. -/
theorem Structured.barrier_last (structured : Structured options state) (consumers : 1 ≤ options.numConsumers) :
    state.barriers options.numConsumers = pos state (options.numConsumers - 1) := by
  have behind := structured.behind (options.numConsumers - 1) (by omega)
  rwa [Nat.sub_add_cancel consumers] at behind

/-- An element at which a consumer is busy has passed the consumers before it and has not reached those after it. -/
theorem Structured.busy_between (structured : Structured options state) (inside : level < options.numConsumers)
    (busy : Busy (stage state level)) : (∀ earlier < level, pos state level < pos state earlier) ∧
      ∀ later, level < later → later < options.numConsumers → pos state later ≤ pos state level ∧
        (pos state later = pos state level → ¬ Busy (stage state later)) := by
  have below := structured.busy level inside busy
  constructor
  · intro earlier before
    have behind := structured.behind (level - 1) (by omega)
    rw [Nat.sub_add_cancel (by omega)] at behind
    have order := structured.pos_le (show earlier ≤ level - 1 by omega) (by omega)
    omega
  · intro later after insideLater
    refine ⟨structured.pos_le after.le insideLater, fun same busyLater => ?_⟩
    have belowLater := structured.busy later insideLater busyLater
    have behind := structured.behind (later - 1) (by omega)
    rw [Nat.sub_add_cancel (by omega)] at behind
    have order := structured.pos_le (show level ≤ later - 1 by omega) (by omega)
    omega

end Structure

section StructureSteps

variable {I : Type} {options : ConsumerDispatcherOptions I} {state after : ConsumerDispatcher I} {level : Nat}

/-- A consumer changes its stage; the contents of the slots, the memory and the log may change as well. -/
structure Entered (state after : ConsumerDispatcher I) (level : Nat) (next : ConsumerStage) : Prop where
  position : ∀ other, pos after other = pos state other
  stage : ∀ other, stage after other = if other = level then next else stage state other
  barriers : after.barriers = state.barriers
  capacity : after.container.capacity = state.container.capacity
  next : after.container.next = state.container.next
  count : after.allElementsCount = state.allElementsCount
  producer : after.producer = state.producer

/-- A consumer moves to another stage and stays at its position. -/
theorem entered {next : ConsumerStage} (moved : after.consumers = Function.update state.consumers level ⟨pos state level, next⟩)
    (barriers : after.barriers = state.barriers) (capacity : after.container.capacity = state.container.capacity)
    (sameNext : after.container.next = state.container.next) (count : after.allElementsCount = state.allElementsCount)
    (producer : after.producer = state.producer) : Entered state after level next := by
  refine ⟨fun other => ?_, fun other => ?_, barriers, capacity, sameNext, count, producer⟩
  · rw [pos, moved]
    by_cases same : other = level
    · rw [same, Function.update_self]
    · rw [Function.update_of_ne same]
      rfl
  · rw [stage, moved]
    by_cases same : other = level
    · rw [same, Function.update_self, if_pos rfl]
    · rw [Function.update_of_ne same, if_neg same]
      rfl

theorem Structured.enter (structured : Structured options state) {next : ConsumerStage} (entered : Entered state after level next)
    (busy : Busy next → pos state level < state.barriers level)
    (closing : Closing next → level + 1 = options.numConsumers ∧ 0 < pos state level) : Structured options after := by
  refine ⟨entered.capacity.trans structured.capacity, fun other inside => ?_, fun other inside => ?_,
    fun other inside => ?_, fun other inside => ?_, ?_, ?_, ?_, ?_⟩
  · rw [entered.barriers, entered.position]
    exact structured.behind other inside
  · rw [entered.barriers, entered.position]
    exact structured.ahead other inside
  · rw [entered.barriers, entered.position, entered.stage]
    split
    · next same => exact same ▸ busy
    · exact structured.busy other inside
  · rw [entered.position, entered.stage]
    split
    · next same => exact same ▸ closing
    · exact structured.closing other inside
  · rw [entered.next, entered.barriers, entered.producer]
    exact structured.next
  · rw [entered.count, entered.next]
    exact structured.counted
  · rw [entered.next, entered.barriers]
    exact structured.window
  · unfold Permitted
    rw [entered.producer, entered.barriers]
    exact structured.permitted

/-- The position and the barrier of a consumer advance together. -/
structure Advanced (options : ConsumerDispatcherOptions I) (state after : ConsumerDispatcher I) (level : Nat) : Prop where
  position : ∀ other, pos after other = if other = level then pos state level + 1 else pos state other
  stage : ∀ other, stage after other =
    if other = level then (if level + 1 = options.numConsumers then .inspecting else .polling) else stage state other
  barriers : ∀ other, after.barriers other = if other = level + 1 then state.barriers (level + 1) + 1 else state.barriers other
  container : after.container = state.container
  count : after.allElementsCount = state.allElementsCount
  producer : after.producer = state.producer

theorem advanced (options : ConsumerDispatcherOptions I) (state : ConsumerDispatcher I) (level : Nat) :
    Advanced options state (state.advance options level) level := by
  refine ⟨fun other => ?_, fun other => ?_, fun other => ?_, rfl, rfl, rfl⟩
  · change (Function.update state.consumers level ⟨_, _⟩ other).position =
      if other = level then pos state level + 1 else (state.consumers other).position
    by_cases same : other = level
    · rw [same, Function.update_self, if_pos rfl]
      rfl
    · rw [Function.update_of_ne same, if_neg same]
  · change (Function.update state.consumers level ⟨_, _⟩ other).stage = if other = level then _ else (state.consumers other).stage
    by_cases same : other = level
    · rw [same, Function.update_self, if_pos rfl]
    · rw [Function.update_of_ne same, if_neg same]
  · exact Function.update_apply _ _ _ _

theorem Structured.advance (structured : Structured options state) (inside : level < options.numConsumers)
    (busy : Busy (Disruptor.stage state level)) (advanced : Advanced options state after level) : Structured options after := by
  have below := structured.busy level inside busy
  have behind := structured.behind level inside
  have grows : state.barriers options.numConsumers ≤ after.barriers options.numConsumers := by
    rw [advanced.barriers]
    split
    · next same => rw [same]; omega
    · exact Nat.le_refl _
  have first : after.barriers 0 = state.barriers 0 := by rw [advanced.barriers, if_neg (by omega)]
  refine ⟨by rw [advanced.container]; exact structured.capacity, fun other insideOther => ?_, fun other insideOther => ?_,
    fun other insideOther => ?_, fun other insideOther => ?_, ?_, ?_, ?_, ?_⟩
  · rw [advanced.barriers, advanced.position]
    by_cases same : other = level
    · rw [if_pos (by omega), if_pos same, behind]
    · rw [if_neg (by omega), if_neg same]
      exact structured.behind other insideOther
  · have ahead := structured.ahead other insideOther
    rw [advanced.barriers, advanced.position]
    by_cases same : other = level
    · rw [if_pos same, if_neg (by omega), same]
      omega
    · rw [if_neg same]
      split
      · next after => rw [after] at ahead ⊢; omega
      · exact ahead
  · rw [advanced.barriers, advanced.position, advanced.stage]
    by_cases same : other = level
    · rw [if_pos same]
      split
      · exact False.elim
      · exact False.elim
    · rw [if_neg same, if_neg same]
      intro busyOther
      have belowOther := structured.busy other insideOther busyOther
      split
      · next after => rw [after] at belowOther ⊢; omega
      · exact belowOther
  · rw [advanced.position, advanced.stage]
    by_cases same : other = level
    · rw [if_pos same, if_pos same]
      intro closing
      split at closing
      · next last => exact ⟨same ▸ last, Nat.succ_pos _⟩
      · exact closing.elim
    · rw [if_neg same, if_neg same]
      exact structured.closing other insideOther
  · rw [advanced.container, first, advanced.producer]
    exact structured.next
  · rw [advanced.count, advanced.container]
    exact structured.counted
  · rw [advanced.container]
    exact Nat.le_trans structured.window (by omega)
  · have permitted := structured.permitted
    unfold Permitted at permitted ⊢
    rw [advanced.producer, first]
    split
    · next same => rw [same] at permitted; exact Nat.le_trans permitted grows
    · next same => rw [same] at permitted; exact fun free => Nat.le_trans (permitted free) (by omega)
    · next same => rw [same] at permitted; exact Nat.le_trans permitted (by omega)
    · next same => rw [same] at permitted; exact Nat.le_trans permitted (by omega)
    · trivial

/-- Only the last two steps of the producer change more than its stage and the memory. -/
theorem Structured.produce (structured : Structured options state) (consumers : 1 ≤ options.numConsumers) :
    Structured options (state.produce options) := by
  have next := structured.next
  have window := structured.window
  have permitted := structured.permitted
  unfold Permitted at permitted
  cases producer : state.producer with
  | idle =>
    rw [ConsumerDispatcher.produce, producer]
    exact structured
  | readingMin input =>
    rw [producer] at next
    rw [ConsumerDispatcher.produce, producer]
    exact ⟨structured.capacity, structured.behind, structured.ahead, structured.busy, structured.closing, next, structured.counted,
      window, Nat.le_refl _⟩
  | readingMax input minPosition =>
    rw [producer] at next permitted
    rw [ConsumerDispatcher.produce, producer]
    refine ⟨structured.capacity, structured.behind, structured.ahead, structured.busy, structured.closing, next, structured.counted,
      window, fun free => ?_⟩
    have fits : ConsumerDispatcher.canProcessNextElement options minPosition (state.barriers 0) = true := by simpa using free
    have required := of_decide_eq_true fits
    dsimp only at permitted ⊢
    omega
  | checkingMemory input isFull =>
    rw [producer] at next permitted
    rw [ConsumerDispatcher.produce, producer]
    dsimp only
    split
    · exact ⟨structured.capacity, structured.behind, structured.ahead, structured.busy, structured.closing, next,
        structured.counted, window, trivial⟩
    · next free =>
      rw [Bool.or_eq_true, not_or] at free
      exact ⟨structured.capacity, structured.behind, structured.ahead, structured.busy, structured.closing, next,
        structured.counted, window, permitted (Bool.eq_false_of_not_eq_true free.2)⟩
  | reserving input =>
    rw [producer] at next permitted
    rw [ConsumerDispatcher.produce, producer]
    exact ⟨structured.capacity, structured.behind, structured.ahead, structured.busy, structured.closing, next, structured.counted,
      window, permitted⟩
  | adding input =>
    rw [producer] at next permitted
    rw [ConsumerDispatcher.produce, producer]
    refine ⟨structured.capacity, structured.behind, structured.ahead, structured.busy, structured.closing,
      congrArg (· + 1) next, congrArg (· + 1) structured.counted, ?_, trivial⟩
    change state.container.next + 1 + 1 ≤ options.disruptorSlotCount + state.barriers options.numConsumers
    dsimp only [pendingAdvance] at next permitted
    omega
  | advancing =>
    rw [producer] at next
    rw [ConsumerDispatcher.produce, producer]
    have barriers : ∀ other, Function.update state.barriers 0 (state.barriers 0 + 1) other =
        if other = 0 then state.barriers 0 + 1 else state.barriers other := fun other => Function.update_apply _ _ _ _
    refine ⟨structured.capacity, fun other inside => ?_, fun other inside => ?_, fun other inside busy => ?_, structured.closing,
      ?_, structured.counted, ?_, trivial⟩
    · dsimp only
      rw [barriers, if_neg (Nat.succ_ne_zero _)]
      exact structured.behind other inside
    · have ahead := structured.ahead other inside
      dsimp only
      rw [barriers]
      split
      · next same => rw [same] at ahead ⊢; exact Nat.le_succ_of_le ahead
      · exact ahead
    · have below := structured.busy other inside busy
      dsimp only
      rw [barriers]
      split
      · next same => rw [same] at below ⊢; exact Nat.lt_succ_of_lt below
      · exact below
    · dsimp only
      rw [barriers, if_pos rfl, next]
      rfl
    · dsimp only
      rw [barriers, if_neg (by omega)]
      exact window

end StructureSteps

section Lives

variable {I : Type} {options : ConsumerDispatcherOptions I} {state after : ConsumerDispatcher I} {level position : Nat}

/-- How far an element has come. -/
inductive Phase (I : Type) where
  | ready (level : Nat) (input : I) (result : ConsumerCompletionResult)
  | running (level : Nat) (input : I)
  | inspected (result : ConsumerCompletionResult)
  | finished

/-- The result after a consumer has returned. -/
def resultAfter (position : Nat) (result : ConsumerResult) : ConsumerCompletionResult :=
  if result.completionStatus = .aborted then
    ⟨⟨.aborted, result.completionCode, result.resultSeverity⟩, UInt64.ofNat position⟩
  else .create

/-- The life of an element: it is handed to one consumer after the other, each with what the one before it has left, until all
have returned or one has aborted it; then it is inspected and completed once with its own input and result. -/
inductive Lives (options : ConsumerDispatcherOptions I) (position : Nat) : List (DispatcherEvent I) → Phase I → Prop where
  | accepted (input : I) : Lives options position [.accepted position input] (.ready 0 input .create)
  | started {events : List (DispatcherEvent I)} {level : Nat} {input : I} {result : ConsumerCompletionResult}
      (lives : Lives options position events (.ready level input result)) (inside : level < options.numConsumers)
      (notAborted : result.completionStatus ≠ .aborted) :
      Lives options position (.started level position input :: events) (.running level input)
  | finished {events : List (DispatcherEvent I)} {level : Nat} {input : I} (result : ConsumerResult) (output : I)
      (lives : Lives options position events (.running level input)) :
      Lives options position (.finished level position result output :: events)
        (.ready (level + 1) output (resultAfter position result))
  | inspected {events : List (DispatcherEvent I)} {level : Nat} {input : I} {result : ConsumerCompletionResult}
      (lives : Lives options position events (.ready level input result))
      (ends : level = options.numConsumers ∨ result.completionStatus = .aborted) :
      Lives options position (.inspected position input result :: events) (.inspected result)
  | completed {events : List (DispatcherEvent I)} {result : ConsumerCompletionResult}
      (lives : Lives options position events (.inspected result)) :
      Lives options position (.completed position (position + 1) result :: events) .finished

/-- The event is about the element at a position. -/
def concerns (position : Nat) : DispatcherEvent I → Bool
  | .refused _ _ => false
  | .accepted other _ => other = position
  | .started _ other _ => other = position
  | .finished _ other _ _ => other = position
  | .inspected other _ _ => other = position
  | .completed other _ _ => other = position

def life (position : Nat) (log : List (DispatcherEvent I)) : List (DispatcherEvent I) := log.filter (concerns position)

/-- Where an element stands behind the last consumer. -/
inductive Exit where
  | waiting
  | inspecting
  | completing
  | gone
  deriving DecidableEq

def exitStage : ConsumerStage → Exit
  | .inspecting => .inspecting
  | .completing => .completing
  | _ => .gone

def exitOf (options : ConsumerDispatcherOptions I) (state : ConsumerDispatcher I) (position : Nat) : Exit :=
  let last := options.numConsumers - 1
  if pos state last ≤ position then .waiting
  else if position + 1 = pos state last then exitStage (stage state last)
  else .gone

/-- The stage after the consumer has returned and before it advances. -/
def Returned (stage : ConsumerStage) : Prop := stage = .advancing ∨ ∃ result, stage = .marking result

/-- The consumer has returned from the element or has skipped it. -/
def Handled (state : ConsumerDispatcher I) (level position : Nat) : Prop :=
  position < pos state level ∨ pos state level = position ∧ Returned (stage state level)

/-- The consumer will mark the element. -/
def Marks (state : ConsumerDispatcher I) (level position : Nat) (result : ConsumerResult) : Prop :=
  pos state level = position ∧ stage state level = .marking result

def Running (state : ConsumerDispatcher I) (level position : Nat) : Prop :=
  pos state level = position ∧ stage state level = .consuming

/-- The slot has the result of the element, or the result will be marked. -/
def Carries (state : ConsumerDispatcher I) (options : ConsumerDispatcherOptions I) (level position : Nat)
    (result : ConsumerCompletionResult) : Prop :=
  (state.container.get position).result = result ∧ (∀ other < options.numConsumers, ∀ aborted, ¬ Marks state other position aborted) ∨
    (state.container.get position).result = .create ∧ ∃ aborted, Marks state (level - 1) position aborted ∧
      result = resultAfter position aborted

/-- The slot of an element and the stages of the consumers agree with its life. -/
def Matches (options : ConsumerDispatcherOptions I) (state : ConsumerDispatcher I) (position : Nat) : Phase I → Prop
  | .ready level input result => level ≤ options.numConsumers ∧
      (exitOf options state position = .waiting ∨ exitOf options state position = .inspecting) ∧
      (∀ other < options.numConsumers, ¬ Running state other position) ∧
      (state.container.get position).input = input ∧ (state.container.get position).id = position + 1 ∧
      (if result.completionStatus = .aborted then
        0 < level ∧ (∀ other < level, Handled state other position) ∧ Carries state options level position result
      else (state.container.get position).result = .create ∧ result = .create ∧
        (∀ other < options.numConsumers, ∀ aborted, ¬ Marks state other position aborted) ∧
        ∀ other < options.numConsumers, Handled state other position ↔ other < level)
  | .running level input => level < options.numConsumers ∧ Running state level position ∧
      exitOf options state position = .waiting ∧
      (state.container.get position).input = input ∧ (state.container.get position).id = position + 1 ∧
      (state.container.get position).result = .create
  | .inspected result => exitOf options state position = .completing ∧ (state.container.get position).id = position + 1 ∧
      (state.container.get position).result = result
  | .finished => exitOf options state position = .gone

/-- A step that looks the same from an element. -/
structure Unseen (options : ConsumerDispatcherOptions I) (state after : ConsumerDispatcher I) (position : Nat) : Prop where
  grows : ∀ level < options.numConsumers, Handled state level position → Handled after level position
  back : (state.container.get position).isSkipped = false →
    ∀ level < options.numConsumers, Handled after level position → Handled state level position
  running : ∀ level < options.numConsumers, Running after level position ↔ Running state level position
  marks : ∀ level < options.numConsumers, ∀ result, Marks after level position result ↔ Marks state level position result
  exit : exitOf options after position = exitOf options state position ∨
    exitOf options state position = .waiting ∧ exitOf options after position = .inspecting ∧
      ∀ level < options.numConsumers, ¬ Running state level position
  slot : exitOf options state position ≠ .gone → after.container.get position = state.container.get position

theorem Matches.unseen {phase : Phase I} (matched : Matches options state position phase)
    (unseen : Unseen options state after position) : Matches options after position phase := by
  cases phase with
  | ready level input result =>
    obtain ⟨inside, exit, idle, sameInput, sameId, content⟩ := matched
    have slot := unseen.slot (by rcases exit with exit | exit <;> rw [exit] <;> decide)
    refine ⟨inside, ?_, fun other insideOther => mt (unseen.running other insideOther).mp (idle other insideOther),
      by rw [slot, sameInput], by rw [slot, sameId], ?_⟩
    · rcases unseen.exit with same | ⟨-, inspecting, -⟩
      · rwa [same]
      · exact .inr inspecting
    · split at content
      · next aborted =>
        obtain ⟨positive, handled, carries⟩ := content
        rw [if_pos aborted]
        refine ⟨positive, fun other before => unseen.grows other (by omega) (handled other before), ?_⟩
        unfold Carries at carries ⊢
        rw [slot]
        rcases carries with ⟨same, unmarked⟩ | ⟨initial, pending, marks, same⟩
        · exact .inl ⟨same, fun other insideOther result => mt (unseen.marks other insideOther result).mp
            (unmarked other insideOther result)⟩
        · exact .inr ⟨initial, pending, (unseen.marks (level - 1) (by omega) pending).mpr marks, same⟩
      · next normal =>
        obtain ⟨initial, same, unmarked, handled⟩ := content
        rw [if_neg normal, slot]
        refine ⟨initial, same, fun other insideOther result => mt (unseen.marks other insideOther result).mp
          (unmarked other insideOther result), fun other insideOther => Iff.trans
            ⟨unseen.back ?_ other insideOther, unseen.grows other insideOther⟩ (handled other insideOther)⟩
        rw [DisruptorElement.isSkipped, initial]
        rfl
  | running level input =>
    obtain ⟨inside, runs, exit, sameInput, sameId, initial⟩ := matched
    have slot := unseen.slot (by rw [exit]; decide)
    refine ⟨inside, (unseen.running level inside).mpr runs, ?_, by rw [slot, sameInput], by rw [slot, sameId], by rw [slot, initial]⟩
    rcases unseen.exit with same | ⟨-, -, none⟩
    · rwa [same]
    · exact absurd runs (none level inside)
  | inspected result =>
    obtain ⟨exit, sameId, same⟩ := matched
    have slot := unseen.slot (by rw [exit]; decide)
    refine ⟨?_, by rw [slot, sameId], by rw [slot, same]⟩
    rcases unseen.exit with equal | ⟨waiting, -⟩
    · rwa [equal]
    · rw [exit] at waiting
      cases waiting
  | finished =>
    rcases unseen.exit with equal | ⟨waiting, -⟩
    · exact equal.trans matched
    · exact absurd (waiting.symm.trans matched) (by decide)

/-- Every element that was added lives, and its slot agrees with its life. -/
def Living (options : ConsumerDispatcherOptions I) (state : ConsumerDispatcher I) : Prop :=
  ∀ position, if position < state.container.next
    then ∃ phase, Lives options position (life position state.log) phase ∧ Matches options state position phase
    else life position state.log = []

theorem exitOf_waiting (above : pos state (options.numConsumers - 1) ≤ position) : exitOf options state position = .waiting :=
  if_pos above

theorem exitOf_last (last : position + 1 = pos state (options.numConsumers - 1)) :
    exitOf options state position = exitStage (stage state (options.numConsumers - 1)) := by
  unfold exitOf
  dsimp only
  rw [if_neg (by omega), if_pos last]

theorem exitOf_gone (below : position + 1 < pos state (options.numConsumers - 1)) : exitOf options state position = .gone := by
  unfold exitOf
  dsimp only
  rw [if_neg (by omega), if_neg (by omega)]

theorem pos_le_of_exit (exit : exitOf options state position ≠ .gone) : pos state (options.numConsumers - 1) ≤ position + 1 := by
  by_contra above
  exact exit (exitOf_gone (by omega))

/-- Elements that are not gone have different slots. -/
theorem Structured.slots_differ (structured : Structured options state) (consumers : 1 ≤ options.numConsumers) {other : Nat}
    (added : position < state.container.next) (addedOther : other < state.container.next)
    (low : pos state (options.numConsumers - 1) ≤ position + 1) (lowOther : pos state (options.numConsumers - 1) ≤ other + 1)
    (different : position ≠ other) : position % state.container.capacity ≠ other % state.container.capacity := by
  intro same
  have window := structured.window
  rw [structured.barrier_last consumers] at window
  rw [structured.capacity] at same
  exact different (@eq_of_slot position other (pos state (options.numConsumers - 1) - 1) options.disruptorSlotCount (by omega) (by omega)
    (by omega) (by omega) same)

/-- A consumer that changes its stage is not seen by elements at other positions. -/
theorem unseen_of_entered (consumers : 1 ≤ options.numConsumers) {next : ConsumerStage} (entered : Entered state after level next)
    (here : pos state level = position → (Returned (stage state level) → Returned next) ∧
      ((state.container.get position).isSkipped = false → Returned next → Returned (stage state level)) ∧
      (next = .consuming ↔ stage state level = .consuming) ∧ ∀ result, next = .marking result ↔ stage state level = .marking result)
    (exits : level + 1 = options.numConsumers → position + 1 = pos state level → exitStage next = exitStage (stage state level))
    (slot : exitOf options state position ≠ .gone → after.container.get position = state.container.get position) :
    Unseen options state after position where
  grows other _ := by
    unfold Handled
    rw [entered.position, entered.stage]
    by_cases same : other = level
    · rw [if_pos same, same]
      exact Or.imp_right fun both => ⟨both.1, (here both.1).1 both.2⟩
    · rw [if_neg same]
      exact id
  back unskipped other _ := by
    unfold Handled
    rw [entered.position, entered.stage]
    by_cases same : other = level
    · rw [if_pos same, same]
      exact Or.imp_right fun both => ⟨both.1, (here both.1).2.1 unskipped both.2⟩
    · rw [if_neg same]
      exact id
  running other _ := by
    unfold Running
    rw [entered.position, entered.stage]
    by_cases same : other = level
    · rw [if_pos same, same]
      exact and_congr_right fun there => (here there).2.2.1
    · rw [if_neg same]
  marks other _ result := by
    unfold Marks
    rw [entered.position, entered.stage]
    by_cases same : other = level
    · rw [if_pos same, same]
      exact and_congr_right fun there => (here there).2.2.2 result
    · rw [if_neg same]
  exit := by
    left
    unfold exitOf
    dsimp only
    rw [entered.position, entered.stage]
    by_cases same : options.numConsumers - 1 = level
    · rw [if_pos same]
      split
      · rfl
      · split
        · next last =>
          rw [same] at last ⊢
          exact exits (by omega) last
        · rfl
    · rw [if_neg same]
  slot := slot

/-- A consumer that advances is not seen by any element, except that the last one takes its element to the inspector. -/
theorem unseen_of_advanced (structured : Structured options state) (inside : level < options.numConsumers)
    (advancing : stage state level = .advancing) (advanced : Advanced options state after level) (position : Nat) :
    Unseen options state after position where
  grows other _ := by
    unfold Handled
    rw [advanced.position, advanced.stage]
    by_cases same : other = level
    · rw [if_pos same, if_pos same, same]
      exact fun handled => .inl (by rcases handled with before | ⟨there, -⟩ <;> omega)
    · rw [if_neg same, if_neg same]
      exact id
  back _ other _ := by
    unfold Handled
    rw [advanced.position, advanced.stage]
    by_cases same : other = level
    · rw [if_pos same, if_pos same, same]
      rintro (before | ⟨-, returned⟩)
      · rcases Nat.lt_succ_iff_lt_or_eq.mp before with less | equal
        · exact .inl less
        · exact .inr ⟨equal.symm, .inl advancing⟩
      · split at returned
        · rcases returned with equal | ⟨_, equal⟩ <;> cases equal
        · rcases returned with equal | ⟨_, equal⟩ <;> cases equal
    · rw [if_neg same, if_neg same]
      exact id
  running other _ := by
    unfold Running
    rw [advanced.position, advanced.stage]
    by_cases same : other = level
    · rw [if_pos same, if_pos same, same, advancing]
      refine ⟨fun both => ?_, fun both => nomatch both.2⟩
      obtain ⟨-, equal⟩ := both
      split at equal <;> cases equal
    · rw [if_neg same, if_neg same]
  marks other _ result := by
    unfold Marks
    rw [advanced.position, advanced.stage]
    by_cases same : other = level
    · rw [if_pos same, if_pos same, same, advancing]
      refine ⟨fun both => ?_, fun both => nomatch both.2⟩
      obtain ⟨-, equal⟩ := both
      split at equal <;> cases equal
    · rw [if_neg same, if_neg same]
  exit := by
    have positionLast := advanced.position (options.numConsumers - 1)
    have stageLast := advanced.stage (options.numConsumers - 1)
    by_cases last : options.numConsumers - 1 = level
    · have atLast : level + 1 = options.numConsumers := by omega
      rw [if_pos last] at positionLast stageLast
      rw [if_pos atLast] at stageLast
      by_cases here : position = pos state level
      · refine .inr ⟨exitOf_waiting (by rw [last]; omega), ?_, fun other insideOther runs => ?_⟩
        · rw [exitOf_last (by omega), stageLast]
          rfl
        · have busy : Busy (stage state level) := by rw [advancing]; trivial
          obtain ⟨there, consuming⟩ := runs
          by_cases same : other = level
          · rw [same, advancing] at consuming
            cases consuming
          · have before := (structured.busy_between inside busy).1 other (by omega)
            omega
      · left
        by_cases above : pos state level ≤ position
        · rw [exitOf_waiting (by omega), exitOf_waiting (by rw [last]; exact above)]
        · rw [exitOf_gone (by omega)]
          by_cases before : position + 1 = pos state level
          · rw [exitOf_last (by rw [last]; exact before), last, advancing]
            rfl
          · exact (exitOf_gone (by rw [last]; omega)).symm
    · left
      rw [if_neg last] at positionLast stageLast
      unfold exitOf
      dsimp only
      rw [positionLast, stageLast]
  slot _ := by rw [advanced.container]

/-- A step of the producer is not seen by an element whose slot stays as it is. -/
theorem unseen_of_consumers (same : after.consumers = state.consumers)
    (slot : exitOf options state position ≠ .gone → after.container.get position = state.container.get position) :
    Unseen options state after position := by
  have samePos : ∀ other, pos after other = pos state other := fun other => by rw [pos, same]; rfl
  have sameStage : ∀ other, stage after other = stage state other := fun other => by rw [stage, same]; rfl
  refine ⟨fun other _ => ?_, fun _ other _ => ?_, fun other _ => ?_, fun other _ result => ?_, .inl ?_, slot⟩
  · unfold Handled
    rw [samePos, sameStage]
    exact id
  · unfold Handled
    rw [samePos, sameStage]
    exact id
  · unfold Running
    rw [samePos, sameStage]
  · unfold Marks
    rw [samePos, sameStage]
  · unfold exitOf
    dsimp only
    rw [samePos, sameStage]

end Lives

section BusyElements

variable {I : Type} {options : ConsumerDispatcherOptions I} {state after : ConsumerDispatcher I} {level : Nat}

theorem Returned.busy {stage : ConsumerStage} (returned : Returned stage) : Busy stage := by
  rcases returned with rfl | ⟨result, rfl⟩ <;> trivial

variable (structured : Structured options state) (inside : level < options.numConsumers) (busy : Busy (stage state level))
include structured inside busy

/-- An element at which a consumer is busy was added and waits for the last consumer. -/
theorem Structured.busy_added : pos state level < state.container.next ∧ exitOf options state (pos state level) = .waiting := by
  have below := structured.busy level inside busy
  have next := structured.next
  have order := structured.pos_le (show level ≤ options.numConsumers - 1 by omega) (by omega)
  refine ⟨?_, exitOf_waiting order⟩
  by_cases first : level = 0
  · subst first
    omega
  · have behind := structured.behind (level - 1) (by omega)
    rw [Nat.sub_add_cancel (by omega)] at behind
    have top := structured.pos_le_barrier (show level - 1 < options.numConsumers by omega)
    omega

/-- Only one consumer is busy at an element. -/
theorem Structured.busy_unique {other : Nat} (insideOther : other < options.numConsumers) (same : pos state other = pos state level)
    (busyOther : Busy (stage state other)) : other = level := by
  obtain ⟨earlier, later⟩ := structured.busy_between inside busy
  rcases Nat.lt_trichotomy other level with before | equal | behind
  · have := earlier other before
    omega
  · exact equal
  · exact absurd busyOther ((later other behind insideOther).2 same)

theorem Structured.handled_iff (notReturned : ¬ Returned (stage state level)) {other : Nat}
    (insideOther : other < options.numConsumers) : Handled state other (pos state level) ↔ other < level := by
  obtain ⟨earlier, later⟩ := structured.busy_between inside busy
  rcases Nat.lt_trichotomy other level with before | equal | behind
  · exact ⟨fun _ => before, fun _ => .inl (earlier other before)⟩
  · subst equal
    refine ⟨fun handled => ?_, fun less => absurd less (Nat.lt_irrefl _)⟩
    rcases handled with less | ⟨-, returned⟩
    · exact absurd less (Nat.lt_irrefl _)
    · exact absurd returned notReturned
  · obtain ⟨lower, idle⟩ := later other behind insideOther
    refine ⟨fun handled => ?_, fun less => by omega⟩
    rcases handled with less | ⟨same, returned⟩
    · omega
    · exact absurd returned.busy (idle same)

end BusyElements

section Living

variable {I : Type} {options : ConsumerDispatcherOptions I} {state after : ConsumerDispatcher I} {level : Nat}

/-- A step that no element sees keeps all elements alive. -/
theorem Living.unseen (living : Living options state) (next : after.container.next = state.container.next)
    (log : ∀ position, life position after.log = life position state.log)
    (unseen : ∀ position < state.container.next, Unseen options state after position) : Living options after := by
  intro position
  have lived := living position
  rw [next, log]
  split at lived
  · next added =>
    obtain ⟨phase, lives, matched⟩ := lived
    rw [if_pos added]
    exact ⟨phase, lives, matched.unseen (unseen position added)⟩
  · next absent =>
    rw [if_neg absent]
    exact lived

/-- A step that one element sees changes the life of this element. -/
theorem Living.change (living : Living options state) (next : after.container.next = state.container.next) {here : Nat}
    (added : here < state.container.next) (log : ∀ position, position ≠ here → life position after.log = life position state.log)
    (unseen : ∀ position < state.container.next, position ≠ here → Unseen options state after position)
    (changed : ∀ phase, Lives options here (life here state.log) phase → Matches options state here phase →
      ∃ changed, Lives options here (life here after.log) changed ∧ Matches options after here changed) : Living options after := by
  intro position
  have lived := living position
  by_cases same : position = here
  · subst same
    rw [if_pos added] at lived
    rw [next, if_pos added]
    obtain ⟨phase, lives, matched⟩ := lived
    exact changed phase lives matched
  · rw [next, log position same]
    split at lived
    · next addedOther =>
      obtain ⟨phase, lives, matched⟩ := lived
      rw [if_pos addedOther]
      exact ⟨phase, lives, matched.unseen (unseen position addedOther same)⟩
    · next absent =>
      rw [if_neg absent]
      exact lived

theorem life_cons_of_ne {position : Nat} {event : DispatcherEvent I} {log : List (DispatcherEvent I)}
    (other : concerns position event = false) : life position (event :: log) = life position log := by
  rw [life, List.filter_cons_of_neg (by rw [other]; exact Bool.false_ne_true)]
  rfl

theorem life_cons_self {position : Nat} {event : DispatcherEvent I} {log : List (DispatcherEvent I)}
    (own : concerns position event = true) : life position (event :: log) = event :: life position log := by
  rw [life, List.filter_cons_of_pos own]
  rfl

theorem Structured.entered_waiting (structured : Structured options state) (inside : level < options.numConsumers)
    {next : ConsumerStage} (entered : Entered state after level next) : exitOf options after (pos state level) = .waiting := by
  refine exitOf_waiting ?_
  rw [entered.position]
  exact structured.pos_le (by omega) (by omega)

end Living

section Consuming

variable {I : Type} {options : ConsumerDispatcherOptions I} {state after : ConsumerDispatcher I} {level : Nat}
  (structured : Structured options state) (inside : level < options.numConsumers)
include structured inside

/-- No other consumer is busy with the element. -/
theorem not_busy_elsewhere (busy : Busy (stage state level)) {next : ConsumerStage} (entered : Entered state after level next) :
    ∀ other < options.numConsumers, other ≠ level → pos after other = pos state level → ¬ Busy (stage after other) := by
  intro other insideOther different there
  rw [entered.position] at there
  rw [entered.stage, if_neg different]
  exact fun busyOther => different (structured.busy_unique inside busy insideOther there busyOther)

/-- A consumer that has tested the element starts on it. -/
theorem start_lives (entering : stage state level = .entering) (unskipped : (state.container.get (pos state level)).isSkipped = false)
    (entered : Entered state after level .consuming) (sameContainer : after.container = state.container)
    (sameLog : after.log = .started level (pos state level) (state.container.get (pos state level)).input :: state.log)
    (living : Living options state) : Living options after := by
  have consumers : 1 ≤ options.numConsumers := by omega
  have busy : Busy (stage state level) := by rw [entering]; trivial
  obtain ⟨added, waiting⟩ := structured.busy_added inside busy
  have notReturned : ¬ Returned (stage state level) := by
    rw [entering]
    rintro (equal | ⟨_, equal⟩) <;> cases equal
  refine living.change (by rw [sameContainer]) added (fun position different => ?_) (fun position _ different => ?_) ?_
  · rw [sameLog]
    exact life_cons_of_ne (decide_eq_false (Ne.symm different))
  · refine unseen_of_entered consumers entered (fun same => absurd same.symm different) (fun _ _ => ?_) fun _ => by rw [sameContainer]
    rw [entering]
    rfl
  · intro phase lives matched
    have recorded : life (pos state level) after.log =
        .started level (pos state level) (state.container.get (pos state level)).input :: life (pos state level) state.log := by
      rw [sameLog]
      exact life_cons_self (decide_eq_true rfl)
    rw [recorded]
    cases phase with
    | ready ready input result =>
      obtain ⟨insideReady, exit, idle, sameInput, sameId, content⟩ := matched
      have normal : result.completionStatus ≠ .aborted := by
        intro aborted
        rw [if_pos aborted] at content
        obtain ⟨positive, handled, carries⟩ := content
        rcases carries with ⟨same, -⟩ | ⟨-, pending, ⟨there, marking⟩, -⟩
        · rw [DisruptorElement.isSkipped, same, aborted] at unskipped
          cases unskipped
        · have before := (structured.handled_iff inside busy notReturned (by omega)).mp (handled (ready - 1) (by omega))
          have unique := structured.busy_unique inside busy (by omega) there (by rw [marking]; trivial)
          omega
      rw [if_neg normal] at content
      obtain ⟨initial, -, -, handled⟩ := content
      have same : ready = level := by
        have notHere := mt (structured.handled_iff inside busy notReturned inside).mp (Nat.lt_irrefl level)
        have upper : ¬ level < ready := fun less => notHere ((handled level inside).mpr less)
        by_contra different
        have less : ready < level := by omega
        have handledReady := (structured.handled_iff inside busy notReturned (show ready < options.numConsumers by omega)).mpr less
        exact Nat.lt_irrefl _ ((handled ready (by omega)).mp handledReady)
      subst same
      rw [sameInput]
      refine ⟨_, .started lives inside normal, inside, ⟨?_, ?_⟩, ?_, ?_, ?_, ?_⟩
      · rw [entered.position]
      · rw [entered.stage, if_pos rfl]
      · exact structured.entered_waiting inside entered
      · rw [sameContainer, sameInput]
      · rw [sameContainer, sameId]
      · rw [sameContainer, initial]
    | running other input =>
      obtain ⟨insideOther, ⟨there, consuming⟩, -⟩ := matched
      have unique := structured.busy_unique inside busy insideOther there (by rw [consuming]; trivial)
      rw [unique, entering] at consuming
      cases consuming
    | inspected result => exact absurd (waiting.symm.trans matched.1) (by decide)
    | finished => exact absurd (waiting.symm.trans matched) (by decide)

/-- The slots of other elements stay as they are when the element of a busy consumer is changed. -/
theorem get_other (busy : Busy (stage state level)) {element : DisruptorElement I}
    (sameContainer : after.container = state.container.set (pos state level) element) {position : Nat}
    (added : position < state.container.next) (different : position ≠ pos state level)
    (exit : exitOf options state position ≠ .gone) : after.container.get position = state.container.get position := by
  rw [sameContainer]
  have own := structured.busy_added inside busy
  refine get_set_of_ne (structured.slots_differ (by omega) added own.1 (pos_le_of_exit exit) (pos_le_of_exit ?_) different)
  rw [own.2]
  decide

/-- A consumer returns from the element. -/
theorem finish_lives (consuming : stage state level = .consuming) (result : ConsumerResult) (output : I)
    (entered : Entered state after level (if result.completionStatus = .aborted then .marking result else .advancing))
    (sameContainer : after.container = state.container.set (pos state level)
      { state.container.get (pos state level) with input := output })
    (sameLog : after.log = .finished level (pos state level) result output :: state.log) (living : Living options state) :
    Living options after := by
  have busy : Busy (stage state level) := by rw [consuming]; trivial
  obtain ⟨added, waiting⟩ := structured.busy_added inside busy
  have notReturned : ¬ Returned (stage state level) := by
    rw [consuming]
    rintro (equal | ⟨_, equal⟩) <;> cases equal
  have slot : after.container.get (pos state level) = { state.container.get (pos state level) with input := output } := by
    rw [sameContainer]
    exact get_set_self _
  have returns : Returned (stage after level) := by
    rw [entered.stage, if_pos rfl]
    split
    · exact .inr ⟨_, rfl⟩
    · exact .inl rfl
  have handledAfter : ∀ other < options.numConsumers, Handled after other (pos state level) ↔ other < level + 1 := by
    intro other insideOther
    have before := structured.handled_iff inside busy notReturned insideOther
    unfold Handled at before ⊢
    by_cases same : other = level
    · subst same
      exact ⟨fun _ => Nat.lt_succ_self _, fun _ => .inr ⟨entered.position _, returns⟩⟩
    · rw [entered.position, entered.stage, if_neg same, before]
      omega
  have elsewhere := not_busy_elsewhere structured inside busy entered
  refine living.change (by rw [sameContainer]; rfl) added (fun position different => ?_) (fun position addedOther different => ?_) ?_
  · rw [sameLog]
    exact life_cons_of_ne (decide_eq_false (Ne.symm different))
  · refine unseen_of_entered (by omega) entered (fun same => absurd same.symm different) (fun _ _ => ?_)
      (get_other structured inside busy sameContainer addedOther different)
    rw [consuming]
    split <;> rfl
  · intro phase lives matched
    have recorded : life (pos state level) after.log =
        .finished level (pos state level) result output :: life (pos state level) state.log := by
      rw [sameLog]
      exact life_cons_self (decide_eq_true rfl)
    rw [recorded]
    cases phase with
    | running other input =>
      obtain ⟨insideOther, ⟨there, consumes⟩, -, sameInput, sameId, initial⟩ := matched
      obtain rfl := structured.busy_unique inside busy insideOther there (by rw [consumes]; trivial)
      refine ⟨_, .finished result output lives, inside, .inl (structured.entered_waiting inside entered), ?_, ?_, ?_, ?_⟩
      · rintro third insideThird ⟨at_, runs⟩
        by_cases same : third = other
        · rw [same, entered.stage, if_pos rfl] at runs
          split at runs <;> cases runs
        · exact elsewhere third insideThird same at_ (by rw [runs]; trivial)
      · rw [slot]
      · rw [slot]
        exact sameId
      · by_cases aborted : result.completionStatus = .aborted
        · have status : (resultAfter (pos state other) result).completionStatus = .aborted := by
            rw [resultAfter, if_pos aborted]
          rw [if_pos status]
          refine ⟨Nat.succ_pos _, fun third before => (handledAfter third (by omega)).mpr before, .inr ⟨?_, result, ⟨?_, ?_⟩, rfl⟩⟩
          · rw [slot]
            exact initial
          · exact entered.position _
          · rw [Nat.add_sub_cancel, entered.stage, if_pos rfl, if_pos aborted]
        · have created : resultAfter (pos state other) result = .create := if_neg aborted
          rw [created, if_neg (by decide)]
          refine ⟨?_, rfl, ?_, handledAfter⟩
          · rw [slot]
            exact initial
          · rintro third insideThird pending ⟨at_, marking⟩
            by_cases same : third = other
            · rw [same, entered.stage, if_pos rfl, if_neg aborted] at marking
              cases marking
            · exact elsewhere third insideThird same at_ (by rw [marking]; trivial)
    | ready ready input previous => exact absurd ⟨rfl, consuming⟩ (matched.2.2.1 level inside)
    | inspected previous => exact absurd (waiting.symm.trans matched.1) (by decide)
    | finished => exact absurd (waiting.symm.trans matched) (by decide)

/-- A consumer marks the element that it has aborted. -/
theorem mark_lives {aborted : ConsumerResult} (marking : stage state level = .marking aborted)
    (entered : Entered state after level .advancing) (sameContainer : after.container = state.container.set (pos state level)
      ((state.container.get (pos state level)).markSkipped (pos state level) aborted))
    (sameLog : after.log = state.log) (living : Living options state) : Living options after := by
  have busy : Busy (stage state level) := by rw [marking]; trivial
  obtain ⟨added, waiting⟩ := structured.busy_added inside busy
  have slot : after.container.get (pos state level) =
      (state.container.get (pos state level)).markSkipped (pos state level) aborted := by
    rw [sameContainer]
    exact get_set_self _
  have elsewhere := not_busy_elsewhere structured inside busy entered
  refine living.change (by rw [sameContainer]; rfl) added (fun position _ => by rw [sameLog])
    (fun position addedOther different => ?_) ?_
  · refine unseen_of_entered (by omega) entered (fun same => absurd same.symm different) (fun _ _ => ?_)
      (get_other structured inside busy sameContainer addedOther different)
    rw [marking]
    rfl
  · intro phase lives matched
    rw [sameLog]
    cases phase with
    | ready ready input result =>
      obtain ⟨insideReady, -, idle, sameInput, sameId, content⟩ := matched
      split at content
      · next isAborted =>
        obtain ⟨positive, handled, carries⟩ := content
        rcases carries with ⟨-, unmarked⟩ | ⟨initial, pending, ⟨there, marks⟩, same⟩
        · exact absurd ⟨rfl, marking⟩ (unmarked level inside aborted)
        · have unique := structured.busy_unique inside busy (by omega) there (by rw [marks]; trivial)
          rw [unique, marking, ConsumerStage.marking.injEq] at marks
          subst marks
          have status : aborted.completionStatus = .aborted := by
            by_contra normal
            rw [same, resultAfter, if_neg normal] at isAborted
            cases isAborted
          refine ⟨_, lives, insideReady, .inl (structured.entered_waiting inside entered), ?_, ?_, ?_, ?_⟩
          · rintro third insideThird ⟨at_, runs⟩
            by_cases equal : third = level
            · rw [equal, entered.stage, if_pos rfl] at runs
              cases runs
            · exact elsewhere third insideThird equal at_ (by rw [runs]; trivial)
          · rw [slot]
            exact sameInput
          · rw [slot]
            exact sameId
          · rw [if_pos isAborted]
            refine ⟨positive, fun other before => ?_, .inl ⟨?_, ?_⟩⟩
            · have old := handled other before
              unfold Handled at old ⊢
              rw [entered.position, entered.stage]
              by_cases equal : other = level
              · rw [if_pos equal, equal]
                exact .inr ⟨rfl, .inl rfl⟩
              · rwa [if_neg equal]
            · rw [slot, same, resultAfter, if_pos status]
              rfl
            · rintro third insideThird pending ⟨at_, marks⟩
              by_cases equal : third = level
              · rw [equal, entered.stage, if_pos rfl] at marks
                cases marks
              · exact elsewhere third insideThird equal at_ (by rw [marks]; trivial)
      · next normal =>
        obtain ⟨-, -, unmarked, -⟩ := content
        exact absurd ⟨rfl, marking⟩ (unmarked level inside aborted)
    | running other input =>
      obtain ⟨insideOther, ⟨there, consumes⟩, -⟩ := matched
      have unique := structured.busy_unique inside busy insideOther there (by rw [consumes]; trivial)
      rw [unique, marking] at consumes
      cases consumes
    | inspected previous => exact absurd (waiting.symm.trans matched.1) (by decide)
    | finished => exact absurd (waiting.symm.trans matched) (by decide)

/-- The element before the position of a closing consumer was added, and it is the one behind the last consumer. -/
theorem Structured.closing_added (closing : Closing (stage state level)) :
    options.numConsumers - 1 = level ∧ 0 < pos state level ∧ pos state level - 1 < state.container.next := by
  obtain ⟨last, positive⟩ := structured.closing level inside closing
  have top := structured.pos_le_barrier inside
  have next := structured.next
  omega

/-- The inspector runs on the element. -/
theorem inspect_lives (inspecting : stage state level = .inspecting) (entered : Entered state after level .completing)
    (sameContainer : after.container = state.container)
    (sameLog : after.log = .inspected (pos state level - 1) (state.container.get (pos state level - 1)).input
      (state.container.get (pos state level - 1)).result :: state.log) (living : Living options state) : Living options after := by
  obtain ⟨last, positive, added⟩ := structured.closing_added inside (by rw [inspecting]; trivial)
  have atEnd : exitOf options state (pos state level - 1) = .inspecting := by
    rw [exitOf_last (by rw [last]; omega), last, inspecting]
    rfl
  have atEndAfter : exitOf options after (pos state level - 1) = .completing := by
    rw [exitOf_last (by rw [last, entered.position]; omega), last, entered.stage, if_pos rfl]
    rfl
  have allHandled : ∀ other < options.numConsumers, pos state level - 1 < pos state other := by
    intro other insideOther
    have order := structured.pos_le (show other ≤ level by omega) inside
    omega
  refine living.change (by rw [sameContainer]) added (fun position different => ?_) (fun position _ different => ?_) ?_
  · rw [sameLog]
    exact life_cons_of_ne (decide_eq_false (Ne.symm different))
  · refine unseen_of_entered (by omega) entered (fun _ => ?_) (fun _ before => absurd before (by omega)) fun _ => by rw [sameContainer]
    rw [inspecting]
    refine ⟨?_, fun _ => ?_, ?_, fun result => ?_⟩
    · rintro (equal | ⟨_, equal⟩) <;> cases equal
    · rintro (equal | ⟨_, equal⟩) <;> cases equal
    · exact ⟨nofun, nofun⟩
    · exact ⟨nofun, nofun⟩
  · intro phase lives matched
    have recorded : life (pos state level - 1) after.log = .inspected (pos state level - 1)
        (state.container.get (pos state level - 1)).input (state.container.get (pos state level - 1)).result ::
          life (pos state level - 1) state.log := by
      rw [sameLog]
      exact life_cons_self (decide_eq_true rfl)
    rw [recorded]
    cases phase with
    | ready ready input result =>
      obtain ⟨insideReady, -, -, sameInput, sameId, content⟩ := matched
      have ends : (state.container.get (pos state level - 1)).result = result ∧
          (ready = options.numConsumers ∨ result.completionStatus = .aborted) := by
        split at content
        · next aborted =>
          obtain ⟨ahead, -, carries⟩ := content
          rcases carries with ⟨same, -⟩ | ⟨-, pending, ⟨there, -⟩, -⟩
          · exact ⟨same, .inr aborted⟩
          · have := allHandled (ready - 1) (by omega)
            omega
        · obtain ⟨initial, same, -, handled⟩ := content
          refine ⟨initial.trans same.symm, .inl ?_⟩
          by_contra different
          exact Nat.lt_irrefl _ ((handled ready (by omega)).mp (.inl (allHandled ready (by omega))))
      rw [sameInput, ends.1]
      exact ⟨_, .inspected lives ends.2, atEndAfter, by rw [sameContainer, sameId], by rw [sameContainer]; exact ends.1⟩
    | running other input => exact absurd (atEnd.symm.trans matched.2.2.1) (by decide)
    | inspected previous => exact absurd (atEnd.symm.trans matched.1) (by decide)
    | finished => exact absurd (atEnd.symm.trans matched) (by decide)

/-- The completion handler runs for the element. -/
theorem complete_lives (completing : stage state level = .completing) (entered : Entered state after level .releasing)
    (sameContainer : after.container = state.container)
    (sameLog : after.log = .completed (pos state level - 1) (state.container.get (pos state level - 1)).id
      (state.container.get (pos state level - 1)).result :: state.log) (living : Living options state) : Living options after := by
  obtain ⟨last, positive, added⟩ := structured.closing_added inside (by rw [completing]; trivial)
  have atEnd : exitOf options state (pos state level - 1) = .completing := by
    rw [exitOf_last (by rw [last]; omega), last, completing]
    rfl
  have atEndAfter : exitOf options after (pos state level - 1) = .gone := by
    rw [exitOf_last (by rw [last, entered.position]; omega), last, entered.stage, if_pos rfl]
    rfl
  refine living.change (by rw [sameContainer]) added (fun position different => ?_) (fun position _ different => ?_) ?_
  · rw [sameLog]
    exact life_cons_of_ne (decide_eq_false (Ne.symm different))
  · refine unseen_of_entered (by omega) entered (fun _ => ?_) (fun _ before => absurd before (by omega)) fun _ => by rw [sameContainer]
    rw [completing]
    refine ⟨?_, fun _ => ?_, ?_, fun result => ?_⟩
    · rintro (equal | ⟨_, equal⟩) <;> cases equal
    · rintro (equal | ⟨_, equal⟩) <;> cases equal
    · exact ⟨nofun, nofun⟩
    · exact ⟨nofun, nofun⟩
  · intro phase lives matched
    have recorded : life (pos state level - 1) after.log = .completed (pos state level - 1)
        (state.container.get (pos state level - 1)).id (state.container.get (pos state level - 1)).result ::
          life (pos state level - 1) state.log := by
      rw [sameLog]
      exact life_cons_self (decide_eq_true rfl)
    rw [recorded]
    cases phase with
    | inspected result =>
      obtain ⟨-, sameId, same⟩ := matched
      rw [sameId, same]
      exact ⟨_, .completed lives, atEndAfter⟩
    | ready ready input result =>
      rcases matched.2.1 with exit | exit
      · exact absurd (atEnd.symm.trans exit) (by decide)
      · exact absurd (atEnd.symm.trans exit) (by decide)
    | running other input => exact absurd (atEnd.symm.trans matched.2.2.1) (by decide)
    | finished => exact absurd (atEnd.symm.trans matched) (by decide)

omit structured in
/-- A consumer changes its stage without an effect on any element. -/
theorem quiet_lives {next : ConsumerStage} (entered : Entered state after level next)
    (returned : Returned (stage state level) → Returned next)
    (skipped : (state.container.get (pos state level)).isSkipped = false → Returned next → Returned (stage state level))
    (running : next = .consuming ↔ stage state level = .consuming)
    (marking : ∀ result, next = .marking result ↔ stage state level = .marking result)
    (exits : exitStage next = exitStage (stage state level)) (sameContainer : after.container = state.container)
    (sameLog : after.log = state.log) (living : Living options state) : Living options after := by
  refine living.unseen (by rw [sameContainer]) (fun _ => by rw [sameLog]) fun position _ => ?_
  refine unseen_of_entered (by omega) entered (fun same => ?_) (fun _ _ => exits) fun _ => by rw [sameContainer]
  subst same
  exact ⟨returned, skipped, running, marking⟩

end Consuming

variable {I : Type} {options : ConsumerDispatcherOptions I} {state after : ConsumerDispatcher I} {level : Nat}

/-- A consumer that has tested an element finds it unskipped when it starts. -/
def Tested (options : ConsumerDispatcherOptions I) (state : ConsumerDispatcher I) : Prop :=
  ∀ level < options.numConsumers, stage state level = .entering → (state.container.get (pos state level)).isSkipped = false

structure Tracked (options : ConsumerDispatcherOptions I) (state : ConsumerDispatcher I) : Prop where
  structured : Structured options state
  living : Living options state
  tested : Tested options state

theorem Tested.entered (tested : Tested options state) {next : ConsumerStage} (entered : Entered state after level next)
    (own : next = .entering → (after.container.get (pos state level)).isSkipped = false)
    (slots : ∀ other < options.numConsumers, other ≠ level → stage state other = .entering →
      after.container.get (pos state other) = state.container.get (pos state other)) : Tested options after := by
  intro other inside entering
  rw [entered.stage] at entering
  rw [entered.position]
  by_cases same : other = level
  · rw [if_pos same] at entering
    exact same ▸ own entering
  · rw [if_neg same] at entering
    rw [slots other inside same entering]
    exact tested other inside entering

/-- The element that another consumer has tested is not changed by a busy consumer. -/
theorem Structured.tested_slot (structured : Structured options state) (inside : level < options.numConsumers)
    (busy : Busy (stage state level)) {element : DisruptorElement I}
    (sameContainer : after.container = state.container.set (pos state level) element) {other : Nat}
    (insideOther : other < options.numConsumers) (different : other ≠ level) (entering : stage state other = .entering) :
    after.container.get (pos state other) = state.container.get (pos state other) := by
  have busyOther : Busy (stage state other) := by rw [entering]; trivial
  have own := structured.busy_added insideOther busyOther
  refine get_other structured inside busy sameContainer own.1 (fun same => different ?_) (by rw [own.2]; decide)
  exact structured.busy_unique inside busy insideOther same busyOther

/-- A consumer in this stage has not taken up an element. -/
def Idle (stage : ConsumerStage) : Prop := ¬ Returned stage ∧ stage ≠ .consuming ∧ ∀ result, stage ≠ .marking result

theorem idle_polling : Idle .polling := ⟨by simp [Returned], nofun, nofun⟩

theorem idle_testing : Idle .testing := ⟨by simp [Returned], nofun, nofun⟩

theorem idle_releasing : Idle .releasing := ⟨by simp [Returned], nofun, nofun⟩

theorem Living.idle (living : Living options state) (inside : level < options.numConsumers) {next : ConsumerStage}
    (entered : Entered state after level next) (before : Idle (stage state level)) (later : Idle next)
    (exits : exitStage next = exitStage (stage state level)) (sameContainer : after.container = state.container)
    (sameLog : after.log = state.log) : Living options after :=
  quiet_lives inside entered (fun returned => absurd returned before.1) (fun _ returned => absurd returned later.1)
    (iff_of_false later.2.1 before.2.1) (fun result => iff_of_false (later.2.2 result) (before.2.2 result)) exits
    sameContainer sameLog living

namespace Tracked

variable (tracked : Tracked options state) (inside : level < options.numConsumers)
include tracked inside

theorem poll (current : stage state level = .polling) (behind : pos state level ≠ state.barriers level)
    (entered : Entered state after level .testing) (sameContainer : after.container = state.container) (sameLog : after.log = state.log) :
    Tracked options after where
  structured := tracked.structured.enter entered (fun _ => lt_of_le_of_ne (tracked.structured.ahead level inside) behind) False.elim
  living := tracked.living.idle inside entered (current ▸ idle_polling) idle_testing (current ▸ rfl) sameContainer sameLog
  tested := tracked.tested.entered entered nofun fun _ _ _ _ => by rw [sameContainer]

theorem test (current : stage state level = .testing)
    (entered : Entered state after level (if (state.container.get (pos state level)).isSkipped then .advancing else .entering))
    (sameContainer : after.container = state.container) (sameLog : after.log = state.log) : Tracked options after := by
  have busy : Busy (stage state level) := by rw [current]; trivial
  refine ⟨tracked.structured.enter entered (fun _ => tracked.structured.busy level inside busy) (fun closing => ?_), ?_,
    tracked.tested.entered entered (fun entering => ?_) fun _ _ _ _ => by rw [sameContainer]⟩
  · split at closing <;> exact closing.elim
  · refine quiet_lives inside entered ?_ (fun unskipped => ?_) ?_ (fun _ => ?_) ?_ sameContainer sameLog tracked.living
    · rw [current]
      rintro (equal | ⟨_, equal⟩) <;> cases equal
    · rw [unskipped, current]
      rintro (equal | ⟨_, equal⟩) <;> cases equal
    · rw [current]
      split <;> exact ⟨by rintro ⟨⟩, by rintro ⟨⟩⟩
    · rw [current]
      split <;> exact ⟨by rintro ⟨⟩, by rintro ⟨⟩⟩
    · rw [current]
      split <;> rfl
  · rw [sameContainer]
    split at entering
    · cases entering
    · next unskipped => exact Bool.eq_false_of_not_eq_true unskipped

theorem start (current : stage state level = .entering) (entered : Entered state after level .consuming)
    (sameContainer : after.container = state.container)
    (sameLog : after.log = .started level (pos state level) (state.container.get (pos state level)).input :: state.log) :
    Tracked options after where
  structured := tracked.structured.enter entered (fun _ => tracked.structured.busy level inside (current ▸ trivial)) False.elim
  living := start_lives tracked.structured inside current (tracked.tested level inside current) entered sameContainer sameLog tracked.living
  tested := tracked.tested.entered entered nofun fun _ _ _ _ => by rw [sameContainer]

theorem finish (current : stage state level = .consuming) (result : ConsumerResult) (output : I)
    (entered : Entered state after level (if result.completionStatus = .aborted then .marking result else .advancing))
    (sameContainer : after.container = state.container.set (pos state level) { state.container.get (pos state level) with input := output })
    (sameLog : after.log = .finished level (pos state level) result output :: state.log) : Tracked options after := by
  have busy : Busy (stage state level) := by rw [current]; trivial
  refine ⟨tracked.structured.enter entered (fun _ => tracked.structured.busy level inside busy) (fun closing => ?_),
    finish_lives tracked.structured inside current result output entered sameContainer sameLog tracked.living,
    tracked.tested.entered entered (fun entering => ?_) fun _ insideOther different entering =>
      tracked.structured.tested_slot inside busy sameContainer insideOther different entering⟩
  · split at closing <;> exact closing.elim
  · split at entering <;> cases entering

theorem mark {aborted : ConsumerResult} (current : stage state level = .marking aborted) (entered : Entered state after level .advancing)
    (sameContainer : after.container = state.container.set (pos state level)
      ((state.container.get (pos state level)).markSkipped (pos state level) aborted))
    (sameLog : after.log = state.log) : Tracked options after := by
  have busy : Busy (stage state level) := by rw [current]; trivial
  exact ⟨tracked.structured.enter entered (fun _ => tracked.structured.busy level inside busy) False.elim,
    mark_lives tracked.structured inside current entered sameContainer sameLog tracked.living,
    tracked.tested.entered entered nofun fun _ insideOther different entering =>
      tracked.structured.tested_slot inside busy sameContainer insideOther different entering⟩

theorem advance (current : stage state level = .advancing) (advanced : Advanced options state after level)
    (sameLog : after.log = state.log) : Tracked options after := by
  have busy : Busy (stage state level) := by rw [current]; trivial
  refine ⟨tracked.structured.advance inside busy advanced, tracked.living.unseen (by rw [advanced.container]) (fun _ => by rw [sameLog])
    fun position _ => unseen_of_advanced tracked.structured inside current advanced position, ?_⟩
  intro other insideOther entering
  rw [advanced.stage] at entering
  rw [advanced.position, advanced.container]
  by_cases same : other = level
  · rw [if_pos same] at entering
    split at entering <;> cases entering
  · rw [if_neg same] at entering ⊢
    exact tracked.tested other insideOther entering

theorem inspect (current : stage state level = .inspecting) (entered : Entered state after level .completing)
    (sameContainer : after.container = state.container)
    (sameLog : after.log = .inspected (pos state level - 1) (state.container.get (pos state level - 1)).input
      (state.container.get (pos state level - 1)).result :: state.log) : Tracked options after where
  structured := tracked.structured.enter entered False.elim fun _ => tracked.structured.closing level inside (current ▸ trivial)
  living := inspect_lives tracked.structured inside current entered sameContainer sameLog tracked.living
  tested := tracked.tested.entered entered nofun fun _ _ _ _ => by rw [sameContainer]

theorem complete (current : stage state level = .completing) (entered : Entered state after level .releasing)
    (sameContainer : after.container = state.container)
    (sameLog : after.log = .completed (pos state level - 1) (state.container.get (pos state level - 1)).id
      (state.container.get (pos state level - 1)).result :: state.log) : Tracked options after where
  structured := tracked.structured.enter entered False.elim fun _ => tracked.structured.closing level inside (current ▸ trivial)
  living := complete_lives tracked.structured inside current entered sameContainer sameLog tracked.living
  tested := tracked.tested.entered entered nofun fun _ _ _ _ => by rw [sameContainer]

theorem release (current : stage state level = .releasing) (entered : Entered state after level .polling)
    (sameContainer : after.container = state.container) (sameLog : after.log = state.log) : Tracked options after where
  structured := tracked.structured.enter entered False.elim False.elim
  living := tracked.living.idle inside entered (current ▸ idle_releasing) idle_polling (current ▸ rfl) sameContainer sameLog
  tested := tracked.tested.entered entered nofun fun _ _ _ _ => by rw [sameContainer]

/-- A step of a consumer changes its stage or advances it. -/
theorem consume (result : ConsumerResult) (output : I) : Tracked options (state.consume options level result output) := by
  unfold ConsumerDispatcher.consume
  have read : (state.consumers level).stage = stage state level := rfl
  rw [read]
  cases current : stage state level with
  | polling =>
    dsimp only
    split
    · exact tracked
    · next behind => exact tracked.poll inside current behind (entered rfl rfl rfl rfl rfl rfl) rfl rfl
  | testing => exact tracked.test inside current (entered rfl rfl rfl rfl rfl rfl) rfl rfl
  | entering => exact tracked.start inside current (entered rfl rfl rfl rfl rfl rfl) rfl rfl
  | consuming => exact tracked.finish inside current result output (entered rfl rfl rfl rfl rfl rfl) rfl rfl
  | marking aborted => exact tracked.mark inside current (entered rfl rfl rfl rfl rfl rfl) rfl rfl
  | advancing => exact tracked.advance inside current (advanced options state level) rfl
  | inspecting => exact tracked.inspect inside current (entered rfl rfl rfl rfl rfl rfl) rfl rfl
  | completing => exact tracked.complete inside current (entered rfl rfl rfl rfl rfl rfl) rfl rfl
  | releasing => exact tracked.release inside current (entered rfl rfl rfl rfl rfl rfl) rfl rfl

end Tracked

/-- A step of the producer that leaves the slots as they are. -/
theorem Tracked.keep_slots (tracked : Tracked options state) (structured : Structured options after)
    (sameConsumers : after.consumers = state.consumers) (sameContainer : after.container = state.container)
    (log : ∀ position, life position after.log = life position state.log) : Tracked options after := by
  refine ⟨structured, tracked.living.unseen (by rw [sameContainer]) log fun position _ =>
    unseen_of_consumers sameConsumers fun _ => by rw [sameContainer], fun other inside entering => ?_⟩
  unfold stage at entering
  rw [sameConsumers] at entering
  unfold pos
  rw [sameContainer, sameConsumers]
  exact tracked.tested other inside entering

/-- No consumer has reached the position of the next element. -/
theorem Structured.next_unreached (structured : Structured options state) {input : I} (adding : state.producer = .adding input)
    (inside : level < options.numConsumers) :
    pos state level ≤ state.container.next ∧ (pos state level = state.container.next → ¬ Busy (stage state level)) := by
  have next := structured.next
  rw [adding] at next
  dsimp only [pendingAdvance] at next
  have top := structured.pos_le_barrier inside
  refine ⟨by omega, fun same busy => ?_⟩
  have own := structured.busy_added inside busy
  omega

/-- The slot of the next element is not the slot of an element that is not gone. -/
theorem Structured.next_slot (structured : Structured options state) (consumers : 1 ≤ options.numConsumers) {input : I}
    (adding : state.producer = .adding input) {position : Nat} (added : position < state.container.next)
    (low : pos state (options.numConsumers - 1) ≤ position + 1) :
    position % state.container.capacity ≠ state.container.next % state.container.capacity := by
  have permitted := structured.permitted
  unfold Permitted at permitted
  rw [adding, structured.barrier_last consumers] at permitted
  dsimp only at permitted
  have next := structured.next
  rw [adding] at next
  dsimp only [pendingAdvance] at next
  intro same
  rw [structured.capacity] at same
  have equal := @eq_of_slot position state.container.next position options.disruptorSlotCount (Nat.le_refl _) (by omega) (by omega)
    (by omega) same
  omega

/-- A new element is ready for the first consumer. -/
theorem Tracked.add (tracked : Tracked options state) (consumers : 1 ≤ options.numConsumers) {input : I}
    (adding : state.producer = .adding input) : Tracked options (state.produce options) := by
  obtain ⟨structured, living, tested⟩ := tracked
  have after := structured.produce consumers
  rw [ConsumerDispatcher.produce, adding] at after ⊢
  dsimp only at after ⊢
  refine ⟨after, fun position => ?_, fun other inside entering => ?_⟩
  · change if position < state.container.next + 1 then _ else _
    have lived := living position
    by_cases new : position = state.container.next
    · subst new
      rw [if_neg (Nat.lt_irrefl _)] at lived
      rw [if_pos (Nat.lt_succ_self _)]
      have recorded : life state.container.next (.accepted state.container.next input :: state.log) =
          [.accepted state.container.next input] := by
        have extended : life state.container.next (.accepted state.container.next input :: state.log) =
            .accepted state.container.next input :: life state.container.next state.log := life_cons_self (decide_eq_true rfl)
        rw [extended, lived]
      have unreached : ∀ other < options.numConsumers, pos state other ≤ state.container.next ∧
          (pos state other = state.container.next → ¬ Busy (stage state other)) := fun other inside =>
        structured.next_unreached adding inside
      refine ⟨.ready 0 input .create, ?_, Nat.zero_le _, .inl (exitOf_waiting (unreached _ (by omega)).1), ?_, ?_, ?_, ?_⟩
      · rw [recorded]
        exact .accepted input
      · rintro other inside ⟨there, runs⟩
        exact (unreached other inside).2 there (by rw [show stage state other = _ from runs]; trivial)
      · rw [get_pushBack_self]
      · rw [get_pushBack_self, structured.counted]
      · rw [if_neg (by decide), get_pushBack_self]
        refine ⟨rfl, rfl, ?_, fun other inside => ⟨fun handled => ?_, fun less => absurd less (Nat.not_lt_zero _)⟩⟩
        · rintro other inside aborted ⟨there, marking⟩
          exact (unreached other inside).2 there (by rw [show stage state other = _ from marking]; trivial)
        · rcases handled with less | ⟨there, returned⟩
          · exact absurd (unreached other inside).1 (Nat.not_le.mpr less)
          · exact absurd returned.busy ((unreached other inside).2 there)
    · have same : life position (.accepted state.container.next input :: state.log) = life position state.log :=
        life_cons_of_ne (decide_eq_false (Ne.symm new))
      rw [same]
      by_cases added : position < state.container.next
      · rw [if_pos added] at lived
        rw [if_pos (by omega)]
        obtain ⟨phase, lives, matched⟩ := lived
        refine ⟨phase, lives, matched.unseen (unseen_of_consumers rfl fun exit => ?_)⟩
        exact get_pushBack_of_ne (structured.next_slot consumers adding added (pos_le_of_exit exit))
      · rw [if_neg added] at lived
        rw [if_neg (by omega)]
        exact lived
  · have own := structured.busy_added inside (show Busy (stage state other) by rw [show stage state other = _ from entering]; trivial)
    have low := pos_le_of_exit (show exitOf options state (pos state other) ≠ .gone by rw [own.2]; decide)
    change DisruptorElement.isSkipped (CircularBuffer.get _ (pos state other)) = false
    rw [get_pushBack_of_ne (structured.next_slot consumers adding own.1 low)]
    exact tested other inside entering

theorem Tracked.produce (tracked : Tracked options state) (consumers : 1 ≤ options.numConsumers) :
    Tracked options (state.produce options) := by
  have structured := tracked.structured.produce consumers
  cases producer : state.producer with
  | adding input => exact tracked.add consumers producer
  | idle => refine tracked.keep_slots structured ?_ ?_ fun _ => ?_ <;> rw [ConsumerDispatcher.produce, producer]
  | readingMin input => refine tracked.keep_slots structured ?_ ?_ fun _ => ?_ <;> rw [ConsumerDispatcher.produce, producer]
  | readingMax input minPosition => refine tracked.keep_slots structured ?_ ?_ fun _ => ?_ <;> rw [ConsumerDispatcher.produce, producer]
  | reserving input => refine tracked.keep_slots structured ?_ ?_ fun _ => ?_ <;> rw [ConsumerDispatcher.produce, producer]
  | advancing => refine tracked.keep_slots structured ?_ ?_ fun _ => ?_ <;> rw [ConsumerDispatcher.produce, producer]
  | checkingMemory input isFull =>
    refine tracked.keep_slots structured ?_ ?_ fun position => ?_
    · rw [ConsumerDispatcher.produce, producer]
      dsimp only
      split <;> rfl
    · rw [ConsumerDispatcher.produce, producer]
      dsimp only
      split <;> rfl
    · rw [ConsumerDispatcher.produce, producer]
      dsimp only
      split
      · exact life_cons_of_ne rfl
      · rfl

theorem Tracked.processElement (tracked : Tracked options state) (input : I) :
    Tracked options (state.processElement options input) := by
  unfold ConsumerDispatcher.processElement
  split
  · exact tracked
  · split
    · next idle =>
      have structured := tracked.structured
      have next := structured.next
      rw [idle] at next
      refine tracked.keep_slots ⟨structured.capacity, structured.behind, structured.ahead, structured.busy, structured.closing, next,
        structured.counted, structured.window, trivial⟩ rfl rfl fun _ => rfl
    · exact tracked

theorem Tracked.step (tracked : Tracked options state) (consumers : 1 ≤ options.numConsumers) (action : DispatcherAction I) :
    Tracked options (state.step options action) := by
  cases action with
  | processElement input => exact tracked.processElement input
  | produce => exact tracked.produce consumers
  | consume level result output =>
    rw [ConsumerDispatcher.step]
    split
    · next inside => exact tracked.consume inside result output
    · exact tracked

theorem tracked_create [Inhabited I] (slots : 1 ≤ options.disruptorSlotCount) : Tracked options (ConsumerDispatcher.create options) :=
  ⟨structured_create slots, fun _ => rfl, fun _ _ entering => nomatch entering⟩

end Catapult.Disruptor
