import Mathlib.Tactic.Common

/-
This file develops protocols that run in rounds against an arbitrary counterpart.
-/

namespace Rounds

/-- A protocol continues with a state or ends with a result. -/
inductive Progress (S R : Type) where
  | incomplete (state : S)
  | complete (result : R)

variable {S R : Type}

/-- The rounds are numbered because the counterpart may answer each one differently. -/
def after (step : Nat → S → Progress S R) (start : S) : Nat → Progress S R
  | 0 => .incomplete start
  | round + 1 =>
    match after step start round with
    | .incomplete state => step round state
    | .complete result => .complete result

/-- The protocol ends after finitely many rounds. -/
def Ends (step : Nat → S → Progress S R) (start : S) : Prop :=
  ∃ rounds result, after step start rounds = .complete result

theorem after_succ {step : Nat → S → Progress S R} {start state : S} {round : Nat}
    (reached : after step start round = .incomplete state) : after step start (round + 1) = step round state := by
  rw [after, reached]

/-- A property that every round preserves holds as long as the protocol continues. -/
theorem invariant {step : Nat → S → Progress S R} {holds : S → Prop}
    (preserved : ∀ round state next, holds state → step round state = .incomplete next → holds next)
    {start : S} (initially : holds start) {round : Nat} {state : S}
    (reached : after step start round = .incomplete state) : holds state := by
  induction round generalizing state with
  | zero =>
    cases reached
    exact initially
  | succ round ih =>
    cases previous : after step start round with
    | incomplete before =>
      rw [after_succ previous] at reached
      exact preserved round before state (ih previous) reached
    | complete result =>
      rw [after, previous] at reached
      cases reached

/-- A result comes from one round in a state with the property. -/
theorem invariant_result {step : Nat → S → Progress S R} (holds : S → Prop)
    (preserved : ∀ round state next, holds state → step round state = .incomplete next → holds next)
    {start : S} (initially : holds start) {rounds : Nat} {result : R} (ended : after step start rounds = .complete result) :
    ∃ round < rounds, ∃ state, holds state ∧ step round state = .complete result := by
  induction rounds with
  | zero => cases ended
  | succ round ih =>
    cases previous : after step start round with
    | incomplete before =>
      rw [after_succ previous] at ended
      exact ⟨round, Nat.lt_succ_self round, before, invariant preserved initially previous, ended⟩
    | complete earlier =>
      rw [after, previous] at ended
      cases ended
      obtain ⟨earlierRound, before, found⟩ := ih previous
      exact ⟨earlierRound, Nat.lt_succ_of_lt before, found⟩

/-- If every round that continues decreases a measure, then the protocol ends. -/
theorem ends_of_measure {step : Nat → S → Progress S R} (holds : S → Prop) (measure : S → Nat)
    (decreases : ∀ round state next, holds state → step round state = .incomplete next →
      holds next ∧ measure next < measure state)
    {start state : S} {round : Nat} (reached : after step start round = .incomplete state)
    (initially : holds state) : Ends step start := by
  induction bound : measure state using Nat.strongRecOn generalizing state round with
  | ind bound ih =>
    have continued := after_succ reached
    cases stepped : step round state with
    | incomplete next =>
      obtain ⟨nextHolds, smaller⟩ := decreases round state next initially stepped
      exact ih (measure next) (bound ▸ smaller) (continued.trans stepped) nextHolds rfl
    | complete result => exact ⟨round + 1, result, continued.trans stepped⟩

/-- If every round continues with the property, then the protocol never ends. -/
theorem never_ends {step : Nat → S → Progress S R} (holds : S → Prop)
    (continues : ∀ round state, holds state → ∃ next, step round state = .incomplete next ∧ holds next)
    {start : S} (initially : holds start) : ¬ Ends step start := by
  have always : ∀ round, ∃ state, after step start round = .incomplete state ∧ holds state := by
    intro round
    induction round with
    | zero => exact ⟨start, rfl, initially⟩
    | succ round ih =>
      obtain ⟨state, reached, stateHolds⟩ := ih
      obtain ⟨next, stepped, nextHolds⟩ := continues round state stateHolds
      exact ⟨next, (after_succ reached).trans stepped, nextHolds⟩
  rintro ⟨rounds, result, ended⟩
  obtain ⟨state, reached, _⟩ := always rounds
  rw [reached] at ended
  cases ended

/-- A protocol has one result. -/
theorem complete_unique {step : Nat → S → Progress S R} {start : S} {rounds others : Nat} {result other : R}
    (ended : after step start rounds = .complete result) (endedOther : after step start others = .complete other) :
    result = other := by
  have stays (extra : Nat) {rounds : Nat} {result : R} (ended : after step start rounds = .complete result) :
      after step start (rounds + extra) = .complete result := by
    induction extra with
    | zero => exact ended
    | succ extra ih =>
      rw [← Nat.add_assoc, after, ih]
  have first := stays others ended
  have second := stays rounds endedOther
  rw [Nat.add_comm, first] at second
  exact Progress.complete.inj second

end Rounds
