import Catapult.Construction.Chain.UnprocessedElements
import Catapult.Library.Runs

/-
This file shows when block ranges behind a failed one are discarded.
-/

namespace Catapult.Chain

open Disruptor

/-- The syncs that were started and the failure that waits for its followers are counted beside the container. -/
structure TracedElements where
  unprocessed : UnprocessedElements
  pendingSyncs : Nat
  discarding : Bool

namespace TracedElements

def start (maxSize : Nat) : TracedElements := ⟨.create maxSize, 0, false⟩

/-- Elements are queued or a sync is pending. -/
def busy (traced : TracedElements) : Bool := !traced.unprocessed.elements.isEmpty || traced.pendingSyncs ≠ 0

def pendingAfter (traced : TracedElements) : UnprocessedElements.Operation → Nat
  | .shouldStartSync => traced.pendingSyncs + traced.unprocessed.shouldStartSync.1.toNat
  | .clearPendingSync => traced.pendingSyncs - 1
  | _ => traced.pendingSyncs

def fails : UnprocessedElements.Operation → Bool
  | .remove _ status => status ≠ .normal
  | _ => false

/-- A failure discards until the queue is empty and no sync is pending. -/
def step (traced : TracedElements) (operation : UnprocessedElements.Operation) : Except UnprocessedError TracedElements := do
  let unprocessed ← traced.unprocessed.perform operation
  let next : TracedElements := ⟨unprocessed, traced.pendingAfter operation, traced.discarding || fails operation⟩
  return { next with discarding := next.discarding && next.busy }

/-- While ranges are discarded, no range is added and no sync is started. -/
structure Sound (traced : TracedElements) : Prop where
  numBytes : traced.unprocessed.numBytes = (traced.unprocessed.elements.map ElementInfo.numBytes).sum
  single : traced.pendingSyncs ≤ 1
  discards : traced.discarding = true → traced.unprocessed.shouldStartSync.1 = false ∧
    ∀ range newId, (traced.unprocessed.add range newId).1 = false

/-- No element of a dirty container completes normally while others follow it or a sync is pending. -/
def KeepsDirty (traced : TracedElements) : UnprocessedElements.Operation → Prop
  | .remove _ .normal => traced.unprocessed.dirty = true →
      traced.unprocessed.elements.length ≤ 1 ∧ traced.unprocessed.hasPendingSync = false
  | _ => True

/-- The flag of the container follows the failures. -/
structure Tracked (traced : TracedElements) : Prop where
  numBytes : traced.unprocessed.numBytes = (traced.unprocessed.elements.map ElementInfo.numBytes).sum
  nonempty : ∀ info ∈ traced.unprocessed.elements, 0 < info.numBytes
  pending : traced.pendingSyncs = traced.unprocessed.hasPendingSync.toNat
  dirty : traced.unprocessed.dirty = traced.discarding
  busy : traced.discarding = true → traced.busy = true

variable {traced next : TracedElements}

theorem sum_numBytes_eq_zero {elements : List ElementInfo} (nonempty : ∀ info ∈ elements, 0 < info.numBytes) :
    (elements.map ElementInfo.numBytes).sum = 0 ↔ elements = [] := by
  cases elements with
  | nil => simp
  | cons info elements =>
    have positive := nonempty info List.mem_cons_self
    simp only [List.map_cons, List.sum_cons, reduceCtorEq, iff_false]
    omega

/-- Where the sizes are accounted, the pending operations of the source are the queued elements and the sync. -/
theorem hasPendingOperation_eq {unprocessed : UnprocessedElements} {pendingSyncs : Nat} {discarding : Bool}
    (numBytes : unprocessed.numBytes = (unprocessed.elements.map ElementInfo.numBytes).sum)
    (nonempty : ∀ info ∈ unprocessed.elements, 0 < info.numBytes) (pending : pendingSyncs = unprocessed.hasPendingSync.toNat) :
    unprocessed.hasPendingOperation = TracedElements.busy ⟨unprocessed, pendingSyncs, discarding⟩ := by
  have empty := sum_numBytes_eq_zero nonempty
  rw [← numBytes] at empty
  unfold UnprocessedElements.hasPendingOperation TracedElements.busy
  rw [pending]
  cases unprocessed.hasPendingSync <;> cases elements : unprocessed.elements <;> simp_all

theorem Tracked.sound (tracked : Tracked traced) : Sound traced := by
  refine ⟨tracked.numBytes, ?_, ?_⟩
  · rw [tracked.pending]
    exact Bool.toNat_le _
  · intro discarding
    have dirty : traced.unprocessed.dirty = true := tracked.dirty.trans discarding
    constructor
    · rw [UnprocessedElements.shouldStartSync, dirty, Bool.or_true, if_pos rfl]
    · intro range newId
      rw [UnprocessedElements.add, dirty, if_pos rfl]

theorem tracked_start (maxSize : Nat) : Tracked (start maxSize) :=
  ⟨rfl, fun _ member => (nomatch member), rfl, rfl, fun discarding => (nomatch discarding)⟩

theorem step_eq_ok {operation : UnprocessedElements.Operation} : traced.step operation = .ok next ↔
      ∃ unprocessed, traced.unprocessed.perform operation = .ok unprocessed ∧
        next = ⟨unprocessed, traced.pendingAfter operation, (traced.discarding || fails operation) &&
          TracedElements.busy ⟨unprocessed, traced.pendingAfter operation, false⟩⟩ := by
  rw [step, Runs.bind_eq_ok]
  refine exists_congr fun unprocessed => and_congr_right fun _ => ?_
  constructor
  · intro same
    exact (Except.ok.inj same).symm
  · rintro rfl
    rfl

/-- An operation that is refused changes nothing. -/
theorem Tracked.unchanged (tracked : Tracked traced) {flag : Bool} (same : flag = traced.discarding) :
    Tracked ⟨traced.unprocessed, traced.pendingSyncs,
      flag && TracedElements.busy ⟨traced.unprocessed, traced.pendingSyncs, false⟩⟩ := by
  have kept : (flag && TracedElements.busy ⟨traced.unprocessed, traced.pendingSyncs, false⟩) = traced.discarding := by
    rw [same]
    cases discarding : traced.discarding with
    | false => rfl
    | true => exact tracked.busy discarding
  rw [kept]
  exact tracked

theorem Tracked.shouldStartSync (tracked : Tracked traced) (stepped : traced.step .shouldStartSync = .ok next) :
    Tracked next := by
  obtain ⟨unprocessed, performed, rfl⟩ := step_eq_ok.mp stepped
  cases performed
  unfold pendingAfter UnprocessedElements.shouldStartSync
  split
  · exact tracked.unchanged (Bool.or_false _)
  · rename_i idle
    simp only [ge_iff_le, Bool.or_eq_true, decide_eq_true_eq, not_or, Bool.not_eq_true] at idle
    obtain ⟨⟨_, notPending⟩, clean⟩ := idle
    have keeps : traced.discarding = false := tracked.dirty.symm.trans clean
    have noSync := tracked.pending
    rw [notPending] at noSync
    refine ⟨tracked.numBytes, tracked.nonempty, ?_, ?_, ?_⟩
    · rw [noSync]
      rfl
    · rw [keeps]
      exact clean
    · rw [keeps]
      exact fun discarding => (nomatch discarding)

theorem Tracked.add (tracked : Tracked traced) {range : AnnotatedBlockRange} {newId : DisruptorElementId}
    (stepped : traced.step (.add range newId) = .ok next) : Tracked next := by
  obtain ⟨unprocessed, performed, rfl⟩ := step_eq_ok.mp stepped
  cases performed
  unfold pendingAfter UnprocessedElements.add
  split
  · exact tracked.unchanged (Bool.or_false _)
  · split
    · exact tracked.unchanged (Bool.or_false _)
    · rename_i clean _
      have keeps : traced.discarding = false := tracked.dirty.symm.trans (Bool.eq_false_iff.mpr clean)
      refine ⟨?_, ?_, tracked.pending, ?_, ?_⟩
      · simp [tracked.numBytes]
      · intro info member
        rcases List.mem_append.mp member with old | new
        · exact tracked.nonempty info old
        · rw [List.mem_singleton.mp new]
          exact range.nonempty
      · rw [keeps]
        exact Bool.eq_false_iff.mpr clean
      · rw [keeps]
        exact fun discarding => (nomatch discarding)

theorem Tracked.clearPendingSync (tracked : Tracked traced) (stepped : traced.step .clearPendingSync = .ok next) :
    Tracked next := by
  obtain ⟨unprocessed, performed, rfl⟩ := step_eq_ok.mp stepped
  cases performed
  have cleared : traced.pendingSyncs - 1 = 0 := by
    rw [tracked.pending]
    cases traced.unprocessed.hasPendingSync <;> rfl
  have pending := @hasPendingOperation_eq { traced.unprocessed with hasPendingSync := false } 0 false
    tracked.numBytes tracked.nonempty rfl
  unfold pendingAfter UnprocessedElements.clearPendingSync
  rw [cleared]
  dsimp only
  by_cases dirty : traced.unprocessed.dirty = true
  · have discarding : traced.discarding = true := tracked.dirty.symm.trans dirty
    rw [if_pos dirty, discarding]
    exact ⟨tracked.numBytes, tracked.nonempty, rfl, pending, id⟩
  · have clean : traced.unprocessed.dirty = false := Bool.eq_false_iff.mpr dirty
    have keeps : traced.discarding = false := tracked.dirty.symm.trans clean
    rw [if_neg dirty, keeps]
    exact ⟨tracked.numBytes, tracked.nonempty, rfl, clean, fun discarding => (nomatch discarding)⟩

/-- A completed element leaves the queue, and the flag depends on its status alone. -/
theorem Tracked.removed (tracked : Tracked traced) {id : DisruptorElementId} {status : CompletionStatus}
    (stepped : traced.step (.remove id status) = .ok next) :
    ∃ info elements, traced.unprocessed.elements = info :: elements ∧ next.unprocessed.elements = elements ∧
      next.unprocessed.numBytes = (elements.map ElementInfo.numBytes).sum ∧
      next.unprocessed.hasPendingSync = traced.unprocessed.hasPendingSync ∧ next.pendingSyncs = traced.pendingSyncs ∧
      next.unprocessed.dirty = (next.busy && status ≠ .normal) ∧
      next.discarding = ((traced.discarding || status ≠ .normal) && next.busy) := by
  obtain ⟨unprocessed, performed, rfl⟩ := step_eq_ok.mp stepped
  simp only [UnprocessedElements.perform, UnprocessedElements.remove] at performed
  split at performed
  · cases performed
  · rename_i info elements queue
    split at performed
    · cases performed
    · cases performed
      have sum := tracked.numBytes
      rw [queue, List.map_cons, List.sum_cons] at sum
      have numBytes : traced.unprocessed.numBytes - info.numBytes = (elements.map ElementInfo.numBytes).sum := by omega
      have nonempty : ∀ other ∈ elements, 0 < other.numBytes := fun other member =>
        tracked.nonempty other (queue ▸ List.mem_cons_of_mem _ member)
      have pending := @hasPendingOperation_eq
        { traced.unprocessed with numBytes := traced.unprocessed.numBytes - info.numBytes, elements } traced.pendingSyncs false
        numBytes nonempty tracked.pending
      exact ⟨info, elements, queue, rfl, numBytes, rfl, rfl, congrArg (· && _) pending, rfl⟩

theorem Tracked.remove (tracked : Tracked traced) {id : DisruptorElementId} {status : CompletionStatus}
    (keeps : KeepsDirty traced (.remove id status)) (stepped : traced.step (.remove id status) = .ok next) : Tracked next := by
  obtain ⟨info, elements, queue, rest, numBytes, sync, pendingSyncs, dirty, discarding⟩ := tracked.removed stepped
  refine ⟨by rw [rest]; exact numBytes, ?_, by rw [pendingSyncs, sync]; exact tracked.pending, ?_, ?_⟩
  · intro other member
    rw [rest] at member
    exact tracked.nonempty other (queue ▸ List.mem_cons_of_mem _ member)
  · rw [dirty, discarding, Bool.and_comm]
    cases status with
    | normal =>
      cases before : traced.discarding with
      | false => rfl
      | true =>
        -- the last element of a dirty container leaves nothing behind
        obtain ⟨last, noSync⟩ := keeps (tracked.dirty.trans before)
        rw [queue, List.length_cons] at last
        have empty : elements = [] := List.eq_nil_of_length_eq_zero (by omega)
        have idle : next.busy = false := by
          rw [TracedElements.busy, rest, empty, pendingSyncs, tracked.pending, noSync]
          rfl
        rw [idle]
        rfl
    | aborted => simp
    | consumed => simp
  · rw [discarding, Bool.and_eq_true]
    exact And.right

theorem Tracked.step (tracked : Tracked traced) {operation : UnprocessedElements.Operation}
    (keeps : KeepsDirty traced operation) (stepped : traced.step operation = .ok next) : Tracked next := by
  cases operation with
  | shouldStartSync => exact tracked.shouldStartSync stepped
  | add range newId => exact tracked.add stepped
  | remove id status => exact tracked.remove keeps stepped
  | clearPendingSync => exact tracked.clearPendingSync stepped

/-- An element that completes normally in a dirty container lets the next range in. -/
theorem Tracked.keepsDirty (tracked : Tracked traced) {operation : UnprocessedElements.Operation}
    (stepped : traced.step operation = .ok next) (sound : Sound next) : KeepsDirty traced operation := by
  cases operation with
  | shouldStartSync => trivial
  | add _ _ => trivial
  | clearPendingSync => trivial
  | remove id status =>
    obtain ⟨info, elements, queue, rest, _, sync, pendingSyncs, dirty, discarding⟩ := tracked.removed stepped
    cases status with
    | aborted => trivial
    | consumed => trivial
    | normal =>
      intro wasDirty
      have clean : next.unprocessed.dirty = false := by
        rw [dirty]
        exact Bool.and_false _
      have accepts : (next.unprocessed.add ⟨0, 1, Nat.one_pos⟩ 1).1 = true := by
        rw [UnprocessedElements.add, clean, if_neg Bool.false_ne_true, if_neg (by decide)]
      have idle : next.busy = false := by
        by_contra busy
        rw [Bool.not_eq_false] at busy
        have discards : next.discarding = true := by
          rw [discarding, ← tracked.dirty, wasDirty, busy]
          rfl
        have refuses := (sound.discards discards).2 ⟨0, 1, Nat.one_pos⟩ 1
        rw [accepts] at refuses
        cases refuses
      rw [TracedElements.busy, Bool.or_eq_false_iff, rest, pendingSyncs, tracked.pending] at idle
      obtain ⟨noElements, noSync⟩ := idle
      have empty : elements = [] := by simpa using noElements
      refine ⟨?_, ?_⟩
      · rw [queue, empty]
        exact Nat.le_refl 1
      · cases pending : traced.unprocessed.hasPendingSync with
        | false => rfl
        | true =>
          rw [pending] at noSync
          cases noSync

/-- All states of a run are sound exactly if no element of a dirty container completes normally while others follow it or a
sync is pending. -/
theorem discarding_run_iff (maxSize : Nat) (operations : List UnprocessedElements.Operation) (final : TracedElements)
    (ran : operations.foldlM step (start maxSize) = .ok final) :
    (∀ done rest reached, operations = done ++ rest → done.foldlM step (start maxSize) = .ok reached → Sound reached) ↔
      Runs.Meets step KeepsDirty (start maxSize) operations := by
  refine Runs.sound_iff_meets (fun _ _ _ tracked keeps stepped => tracked.step keeps stepped) ?_
    (tracked_start maxSize) (tracked_start maxSize).sound ran
  intro traced operation next tracked stepped
  exact ⟨tracked.keepsDirty stepped, fun keeps => (tracked.step keeps stepped).sound⟩

namespace Samples

def kilobyteRange : AnnotatedBlockRange := ⟨10, 1000, by decide⟩

/-- The first of three elements is aborted, and the second one completes normally. -/
def recoveringOperations : List UnprocessedElements.Operation :=
  [.add kilobyteRange 1, .add kilobyteRange 2, .add kilobyteRange 3, .remove 1 .aborted, .remove 2 .normal]

/-- The third element is still queued when the next range is added. -/
theorem normal_completion_cleans : ∃ reached, recoveringOperations.foldlM step (start 5000) = .ok reached ∧
    reached.discarding = true ∧ reached.unprocessed.elements.length = 1 ∧
    (reached.unprocessed.add kilobyteRange 4).1 = true ∧ ¬ Sound reached := by
  refine ⟨_, rfl, by decide, by decide, by decide, fun sound => ?_⟩
  exact absurd ((sound.discards (by decide)).2 kilobyteRange 4) (by decide)

/-- All elements behind an aborted one are aborted too. -/
def abortedOperations : List UnprocessedElements.Operation :=
  [.add kilobyteRange 1, .add kilobyteRange 2, .remove 1 .aborted, .remove 2 .aborted]

/-- The state stays sound when an element is aborted. -/
theorem aborted_run_sound : ∃ final, abortedOperations.foldlM step (start 5000) = .ok final ∧ Sound final := by
  refine ⟨_, rfl, ?_⟩
  refine (discarding_run_iff 5000 abortedOperations _ rfl).mpr ?_ abortedOperations [] _ rfl rfl
  exact .cons trivial rfl (.cons trivial rfl (.cons trivial rfl ⟨trivial, fun _ _ => trivial⟩))

end Samples

end TracedElements

end Catapult.Chain
