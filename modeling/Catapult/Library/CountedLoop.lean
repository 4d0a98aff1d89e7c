import Mathlib.Algebra.Order.Ring.Nat

/-
This file develops loops whose counter has 32 bits while their bound has more.
-/

namespace CountedLoop

variable {S ε : Type}

/-- The counter wraps around, so that a loop need not end. -/
def loop (endless : ε) (bound : Nat) (stride : UInt32) (body : UInt32 → S → Except ε S) : Nat → UInt32 → S → Except ε S
  | 0, _, _ => .error endless
  | rounds + 1, index, state =>
    if index.toNat < bound then do loop endless bound stride body rounds (index + stride) (← body index state) else return state

/-- A loop that ends has at most as many rounds as its bound. -/
def run (endless : ε) (bound : Nat) (stride : UInt32) (body : UInt32 → S → Except ε S) (start : UInt32) (state : S) : Except ε S :=
  loop endless bound stride body (bound + 1) start state

variable {endless : ε} {bound : Nat} {stride : UInt32} {body : UInt32 → S → Except ε S} {invariant : Nat → S → Prop}

theorem loop_succ {rounds : Nat} {index : UInt32} (below : index.toNat < bound) (state : S) :
    loop endless bound stride body (rounds + 1) index state = body index state >>= loop endless bound stride body rounds (index + stride) := by
  rw [loop, if_pos below]

/-- The invariant holds when the loop ends. -/
theorem run_invariant (positive : 0 < stride.toNat) (step : ∀ index state, index.toNat < bound → invariant index.toNat state →
      index.toNat + stride.toNat < 2 ^ 32 ∧ ∃ next, body index state = .ok next ∧ invariant (index.toNat + stride.toNat) next)
    {start : UInt32} {state : S} (initial : invariant start.toNat state) :
    ∃ final position, run endless bound stride body start state = .ok final ∧ bound ≤ position ∧ invariant position final := by
  suffices rounds : ∀ count index state, bound < index.toNat + count → 0 < count → invariant index.toNat state →
      ∃ final position, loop endless bound stride body count index state = .ok final ∧ bound ≤ position ∧ invariant position final from
    rounds (bound + 1) start state (by omega) (Nat.succ_pos _) initial
  intro count
  induction count with
  | zero => exact fun _ _ _ none => absurd none (Nat.lt_irrefl _)
  | succ count ih =>
    intro index state enough _ holds
    by_cases below : index.toNat < bound
    · obtain ⟨fits, next, stepped, following⟩ := step index state below holds
      have position : (index + stride).toNat = index.toNat + stride.toNat := by
        rw [UInt32.toNat_add, Nat.mod_eq_of_lt fits]
      obtain ⟨final, last, ran, outside, kept⟩ := ih (index + stride) next (by omega) (by omega) (position ▸ following)
      refine ⟨final, last, ?_, outside, kept⟩
      rw [loop_succ below, stepped]
      exact ran
    · refine ⟨state, index.toNat, ?_, Nat.not_lt.mp below, holds⟩
      rw [loop, if_neg below]
      rfl

/-- The invariant holds when a loop whose rounds can fail has ended. -/
theorem invariant_of_run
    (step : ∀ index state next, index.toNat < bound → invariant index.toNat state → body index state = .ok next →
      index.toNat + stride.toNat < 2 ^ 32 ∧ invariant (index.toNat + stride.toNat) next)
    {start : UInt32} {state final : S} (initial : invariant start.toNat state) (ran : run endless bound stride body start state = .ok final) :
    ∃ position, bound ≤ position ∧ invariant position final := by
  suffices rounds : ∀ count index state, invariant index.toNat state → loop endless bound stride body count index state = .ok final →
      ∃ position, bound ≤ position ∧ invariant position final from
    rounds (bound + 1) start state initial ran
  intro count
  induction count with
  | zero =>
    intro index state _ ran
    cases ran
  | succ count ih =>
    intro index state holds ran
    by_cases below : index.toNat < bound
    · rw [loop_succ below] at ran
      cases stepped : body index state with
      | error error =>
        rw [stepped] at ran
        cases ran
      | ok next =>
        rw [stepped] at ran
        obtain ⟨fits, following⟩ := step index state next below holds stepped
        have position : (index + stride).toNat = index.toNat + stride.toNat := by
          rw [UInt32.toNat_add, Nat.mod_eq_of_lt fits]
        exact ih (index + stride) next (position ▸ following) ran
    · rw [loop, if_neg below] at ran
      cases ran
      exact ⟨index.toNat, Nat.not_lt.mp below, holds⟩

/-- A loop whose bound the counter cannot reach does not end. -/
theorem run_ne_ok (great : 2 ^ 32 ≤ bound) (start : UInt32) (state final : S) : run endless bound stride body start state ≠ .ok final := by
  suffices rounds : ∀ count index state, loop endless bound stride body count index state ≠ .ok final from rounds _ _ _
  intro count
  induction count with
  | zero => exact fun _ _ ran => nomatch ran
  | succ count ih =>
    intro index state
    rw [loop_succ (Nat.lt_of_lt_of_le index.toNat_lt great)]
    cases body index state with
    | error error => exact fun ran => nomatch ran
    | ok next => exact ih (index + stride) next

/-- A loop over a list whose length fits the counter visits its items in order. -/
theorem run_items {T : Type} {items : List T} (small : items.length < 2 ^ 32) (missing : ε) (visit : S → T → Except ε S) (state : S) :
    run endless items.length 1 (fun index state => match items[index.toNat]? with
      | none => .error missing
      | some item => visit state item) 0 state = items.foldlM visit state := by
  suffices rounds : ∀ count (index : UInt32) state, items.length < index.toNat + count → index.toNat ≤ items.length →
      loop endless items.length 1 (fun index state => match items[index.toNat]? with
        | none => .error missing
        | some item => visit state item) count index state = (items.drop index.toNat).foldlM visit state from
    rounds (items.length + 1) 0 state (by rw [show (0 : UInt32).toNat = 0 from rfl]; omega) (Nat.zero_le _)
  intro count
  induction count with
  | zero => exact fun _ _ more within => absurd more (Nat.not_lt.mpr within)
  | succ count ih =>
    intro index state enough within
    by_cases below : index.toNat < items.length
    · have position : (index + 1).toNat = index.toNat + 1 := by
        rw [UInt32.toNat_add, show (1 : UInt32).toNat = 1 from rfl, Nat.mod_eq_of_lt (by omega)]
      rw [loop_succ below, List.getElem?_eq_getElem below, List.drop_eq_getElem_cons below, List.foldlM_cons]
      refine bind_congr fun next => ?_
      rw [ih (index + 1) next (by omega) (by omega), position]
    · rw [loop, if_neg below, List.drop_eq_nil_of_le (Nat.not_lt.mp below)]
      rfl

end CountedLoop
