import Mathlib.Data.List.Basic

/-
This file develops runs of fallible steps and the rule by which invariants hold along them.
-/

namespace Runs

variable {S A ε : Type}

/-- All steps of a run meet a condition in the state before the step. -/
def Meets (step : S → A → Except ε S) (condition : S → A → Prop) (state : S) : List A → Prop
  | [] => True
  | action :: actions =>
    condition state action ∧ ∀ next, step state action = .ok next → Meets step condition next actions

/-- A sequence of two computations succeeds if both do. -/
theorem bind_eq_ok {α β : Type} {first : Except ε α} {second : α → Except ε β} {result : β} :
    (first >>= second) = .ok result ↔ ∃ value, first = .ok value ∧ second value = .ok result := by
  constructor
  · intro ran
    cases first with
    | error _ => cases ran
    | ok value => exact ⟨value, rfl, ran⟩
  · rintro ⟨value, rfl, ran⟩
    exact ran

/-- A sequence of two computations fails if one of them does. -/
theorem bind_eq_error {α β : Type} {first : Except ε α} {second : α → Except ε β} {error : ε} :
    (first >>= second) = .error error ↔ first = .error error ∨ ∃ value, first = .ok value ∧ second value = .error error := by
  constructor
  · intro ran
    cases first with
    | error other => exact .inl (congrArg _ (Except.error.inj ran))
    | ok value => exact .inr ⟨value, rfl, ran⟩
  · rintro (rfl | ⟨value, rfl, ran⟩)
    · rfl
    · exact ran

/-- A run that meets the condition is extended at its start. -/
theorem Meets.cons {step : S → A → Except ε S} {condition : S → A → Prop} {state next : S} {action : A}
    {actions : List A} (first : condition state action) (stepped : step state action = .ok next)
    (rest : Meets step condition next actions) : Meets step condition state (action :: actions) := by
  refine ⟨first, ?_⟩
  intro other steppedOther
  rw [stepped, Except.ok.injEq] at steppedOther
  exact steppedOther ▸ rest

/-- A checked result exists. -/
theorem exists_ok {result : Except ε S} {check : S → Bool} (checked : result.toOption.any check = true) :
    ∃ value, result = .ok value ∧ check value = true := by
  cases result with
  | error _ => cases checked
  | ok value => exact ⟨value, rfl, checked⟩

instance Meets.decidable {step : S → A → Except ε S} {condition : S → A → Prop} [∀ state action, Decidable (condition state action)]
    (state : S) : (actions : List A) → Decidable (Meets step condition state actions)
  | [] => inferInstanceAs (Decidable True)
  | action :: actions =>
    have : Decidable (∀ next, step state action = .ok next → Meets step condition next actions) :=
      match step state action with
      | .error _ => .isTrue nofun
      | .ok next =>
        have := @Meets.decidable step condition _ next actions
        decidable_of_iff (Meets step condition next actions)
          ⟨fun meets _ same => Except.ok.inj same ▸ meets, fun meets => meets next rfl⟩
    inferInstanceAs (Decidable (_ ∧ _))

theorem Meets.append {step : S → A → Except ε S} {condition : S → A → Prop} {state : S} {first second : List A}
    (meets : Meets step condition state first)
    (later : ∀ middle, first.foldlM step state = .ok middle → Meets step condition middle second) :
    Meets step condition state (first ++ second) := by
  induction first generalizing state with
  | nil => exact later state rfl
  | cons action first ih =>
    refine ⟨meets.1, fun next stepped => ih (meets.2 next stepped) fun middle ran => later middle ?_⟩
    rw [List.foldlM_cons, stepped]
    exact ran

/-- A property that every step with the condition preserves holds after the run. -/
theorem invariant {step : S → A → Except ε S} {condition : S → A → Prop} {holds : S → Prop}
    (preserved : ∀ state action next, holds state → condition state action → step state action = .ok next → holds next)
    {actions : List A} {state final : S} (initially : holds state)
    (meets : Meets step condition state actions) (ran : actions.foldlM step state = .ok final) : holds final := by
  induction actions generalizing state with
  | nil =>
    cases ran
    exact initially
  | cons action actions ih =>
    obtain ⟨next, stepped, rest⟩ := bind_eq_ok.mp ran
    exact ih (preserved state action next initially meets.1 stepped) (meets.2 next stepped) rest

/-- A property that the steps of a run preserve holds after the run. -/
theorem along_run {step : S → A → Except ε S} {holds : S → Prop} {actions : List A}
    (preserved : ∀ action ∈ actions, ∀ state next, holds state → step state action = .ok next → holds next)
    {state final : S} (initially : holds state) (ran : actions.foldlM step state = .ok final) : holds final := by
  induction actions generalizing state with
  | nil =>
    cases ran
    exact initially
  | cons action actions ih =>
    obtain ⟨next, stepped, rest⟩ := bind_eq_ok.mp ran
    exact ih (fun other member => preserved other (.tail _ member))
      (preserved action List.mem_cons_self state next initially stepped) rest

/-- A property that every step preserves holds after the run. -/
theorem always {step : S → A → Except ε S} {holds : S → Prop}
    (preserved : ∀ state action next, holds state → step state action = .ok next → holds next)
    {actions : List A} {state final : S} (initially : holds state) (ran : actions.foldlM step state = .ok final) : holds final :=
  along_run (fun action _ state next => preserved state action next) initially ran

/-- Steps that keep an invariant and never fail where it holds make a run that succeeds. -/
theorem exists_run {step : S → A → Except ε S} {holds : S → Prop}
    (succeeds : ∀ state action, holds state → ∃ next, step state action = .ok next ∧ holds next) {state : S}
    (initially : holds state) (actions : List A) : ∃ final, actions.foldlM step state = .ok final ∧ holds final := by
  induction actions generalizing state with
  | nil => exact ⟨state, rfl, initially⟩
  | cons action actions ih =>
    obtain ⟨next, stepped, kept⟩ := succeeds state action initially
    obtain ⟨final, ran, held⟩ := ih kept
    exact ⟨final, by rw [List.foldlM_cons, stepped]; exact ran, held⟩

/-- Conditions that agree where an invariant holds are met by the same runs. -/
theorem Meets.congr {step : S → A → Except ε S} {condition other : S → A → Prop} {holds : S → Prop}
    (preserved : ∀ state action next, holds state → step state action = .ok next → holds next)
    (same : ∀ state action, holds state → (condition state action ↔ other state action)) {actions : List A} {state : S}
    (initially : holds state) : Meets step condition state actions ↔ Meets step other state actions := by
  induction actions generalizing state with
  | nil => exact Iff.rfl
  | cons action actions ih =>
    exact and_congr (same state action initially) (forall_congr' fun next =>
      forall_congr' fun stepped => ih (preserved state action next initially stepped))

/-- All states of a run are sound exactly if all steps meet the condition under which the next state is. -/
theorem sound_iff_meets {step : S → A → Except ε S} {condition : S → A → Prop} {holds sound : S → Prop}
    (preserved : ∀ state action next, holds state → condition state action → step state action = .ok next → holds next)
    (decides : ∀ state action next, holds state → step state action = .ok next → (sound next ↔ condition state action))
    {actions : List A} {state final : S} (initially : holds state) (soundly : sound state)
    (ran : actions.foldlM step state = .ok final) :
    (∀ done rest reached, actions = done ++ rest → done.foldlM step state = .ok reached → sound reached) ↔
      Meets step condition state actions := by
  induction actions generalizing state with
  | nil =>
    refine iff_of_true (fun done rest reached empty ranDone => ?_) trivial
    obtain ⟨rfl, rfl⟩ := List.append_eq_nil_iff.mp empty.symm
    cases ranDone
    exact soundly
  | cons action actions ih =>
    obtain ⟨next, stepped, rest⟩ := bind_eq_ok.mp ran
    constructor
    · intro sounds
      have soundNext : sound next := sounds [action] actions next rfl (by rw [List.foldlM_cons, stepped]; rfl)
      have met := (decides state action next initially stepped).mp soundNext
      refine .cons met stepped ((ih (preserved state action next initially met stepped) soundNext rest).mp ?_)
      intro done others reached split ranDone
      refine sounds (action :: done) others reached (by rw [split, List.cons_append]) ?_
      rw [List.foldlM_cons, stepped]
      exact ranDone
    · rintro ⟨met, meets⟩ done others reached split ranDone
      have soundNext := (decides state action next initially stepped).mpr met
      cases done with
      | nil =>
        cases ranDone
        exact soundly
      | cons first done =>
        obtain ⟨rfl, rfl⟩ := List.cons.inj split
        rw [List.foldlM_cons, stepped] at ranDone
        exact (ih (preserved state action next initially met stepped) soundNext rest).mpr (meets next stepped)
          done others reached rfl ranDone

/-- All steps of a run that cannot fail meet a condition in the state before the step. -/
def Along (step : S → A → S) (condition : S → A → Prop) (state : S) : List A → Prop
  | [] => True
  | action :: actions => condition state action ∧ Along step condition (step state action) actions

instance Along.decidable {step : S → A → S} {condition : S → A → Prop}
    [∀ state action, Decidable (condition state action)] (state : S) :
    (actions : List A) → Decidable (Along step condition state actions)
  | [] => inferInstanceAs (Decidable True)
  | action :: actions =>
    have := @Along.decidable step condition _ (step state action) actions
    inferInstanceAs (Decidable (_ ∧ _))

/-- The steps of a run that is continued meet the condition if the steps of both parts do. -/
theorem Along.append {step : S → A → S} {condition : S → A → Prop} {state : S} {first second : List A} :
    Along step condition state (first ++ second) ↔
      Along step condition state first ∧ Along step condition (first.foldl step state) second := by
  induction first generalizing state with
  | nil => simp [Along]
  | cons action actions ih => simp [Along, ih, and_assoc]

/-- A property that every step with the condition preserves holds after a run that cannot fail. -/
theorem Along.invariant {step : S → A → S} {condition : S → A → Prop} (holds : S → Prop)
    (preserved : ∀ state action, holds state → condition state action → holds (step state action))
    {actions : List A} {state : S} (initially : holds state) (along : Along step condition state actions) :
    holds (actions.foldl step state) := by
  induction actions generalizing state with
  | nil => exact initially
  | cons action actions ih => exact ih (preserved state action initially along.1) along.2

/-- A property that every step preserves holds after a run that cannot fail. -/
theorem always_foldl {step : S → A → S} {holds : S → Prop}
    (preserved : ∀ state action, holds state → holds (step state action)) {actions : List A} {state : S}
    (initially : holds state) : holds (actions.foldl step state) := by
  induction actions generalizing state with
  | nil => exact initially
  | cons action actions ih => exact ih (preserved state action initially)

/-- Conditions that agree where an invariant holds are met by the same runs. -/
theorem Along.congr {step : S → A → S} {condition other : S → A → Prop} {holds : S → Prop}
    (preserved : ∀ state action, holds state → holds (step state action))
    (same : ∀ state action, holds state → (condition state action ↔ other state action)) {actions : List A} {state : S}
    (initially : holds state) : Along step condition state actions ↔ Along step other state actions := by
  induction actions generalizing state with
  | nil => exact Iff.rfl
  | cons action actions ih => exact and_congr (same state action initially) (ih (preserved state action initially))

/-- Steps that are taken back in reverse order leave the state as it was. -/
theorem foldl_reverse_undo {step back : S → A → S} {actions : List A}
    (undoes : ∀ action ∈ actions, ∀ state, back (step state action) action = state) (state : S) :
    actions.reverse.foldl back (actions.foldl step state) = state := by
  induction actions generalizing state with
  | nil => rfl
  | cons action actions ih =>
    rw [List.foldl_cons, List.reverse_cons, List.foldl_append,
      ih (fun other member => undoes other (List.mem_cons_of_mem _ member)), List.foldl_cons, List.foldl_nil]
    exact undoes action List.mem_cons_self state

/-- Every step of a run that succeeds has succeeded. -/
theorem step_of_run {step : S → A → Except ε S} {actions : List A} {state final : S}
    (ran : actions.foldlM step state = .ok final) : ∀ action ∈ actions, ∃ before after, step before action = .ok after := by
  induction actions generalizing state with
  | nil => exact fun _ member => nomatch member
  | cons action actions ih =>
    obtain ⟨next, stepped, rest⟩ := bind_eq_ok.mp ran
    rintro other (_ | ⟨_, member⟩)
    · exact ⟨state, next, stepped⟩
    · exact ih rest other member

/-- A run of steps that succeed is taken back in reverse order if every step is. -/
theorem foldlM_reverse_undo {step : S → A → Except ε S} {back : S → A → S} {holds : S → Prop} {actions : List A}
    (preserved : ∀ action ∈ actions, ∀ state next, holds state → step state action = .ok next → holds next)
    (undoes : ∀ action ∈ actions, ∀ state next, holds state → step state action = .ok next → back next action = state)
    {state final : S} (initially : holds state) (ran : actions.foldlM step state = .ok final) :
    actions.reverse.foldl back final = state := by
  induction actions generalizing state with
  | nil =>
    cases ran
    rfl
  | cons action actions ih =>
    obtain ⟨next, stepped, rest⟩ := bind_eq_ok.mp ran
    rw [List.reverse_cons, List.foldl_append,
      ih (fun other member => preserved other (.tail _ member)) (fun other member => undoes other (.tail _ member))
        (preserved action List.mem_cons_self state next initially stepped) rest]
    exact undoes action List.mem_cons_self state next initially stepped

/-- A run is taken back in reverse order up to a relation if every step is. -/
theorem foldlM_reverse_restores {step back : S → A → Except ε S} {holds : S → Prop} {same : S → S → Prop} {actions : List A}
    (preserved : ∀ action ∈ actions, ∀ state next, holds state → step state action = .ok next → holds next)
    (undoes : ∀ action ∈ actions, ∀ state next other, holds state → step state action = .ok next → holds other →
      same other next → ∃ restored, back other action = .ok restored ∧ holds restored ∧ same restored state)
    {state final other : S} (initially : holds state) (ran : actions.foldlM step state = .ok final) (holdsOther : holds other)
    (sameFinal : same other final) :
    ∃ restored, actions.reverse.foldlM back other = .ok restored ∧ holds restored ∧ same restored state := by
  induction actions generalizing state with
  | nil =>
    cases ran
    exact ⟨other, rfl, holdsOther, sameFinal⟩
  | cons action actions ih =>
    obtain ⟨next, stepped, rest⟩ := bind_eq_ok.mp ran
    obtain ⟨middle, undone, holdsMiddle, sameNext⟩ :=
      ih (fun other member => preserved other (.tail _ member)) (fun other member => undoes other (.tail _ member))
        (preserved action List.mem_cons_self state next initially stepped) rest
    obtain ⟨restored, last, result⟩ := undoes action List.mem_cons_self state next middle initially stepped holdsMiddle sameNext
    refine ⟨restored, ?_, result⟩
    rw [List.reverse_cons, List.foldlM_append]
    refine bind_eq_ok.mpr ⟨middle, undone, ?_⟩
    rw [List.foldlM_cons, last]
    rfl

/-- A run whose steps meet a condition is taken back in reverse order if every such step is. -/
theorem Meets.restores {step back : S → A → Except ε S} {holds : S → Prop} {condition : S → A → Prop}
    (preserved : ∀ state action next, holds state → condition state action → step state action = .ok next → holds next)
    (undoes : ∀ state action next, holds state → condition state action → step state action = .ok next →
      back next action = .ok state)
    {actions : List A} {state final : S} (initially : holds state) (meets : Meets step condition state actions)
    (ran : actions.foldlM step state = .ok final) : actions.reverse.foldlM back final = .ok state := by
  induction actions generalizing state with
  | nil =>
    cases ran
    rfl
  | cons action actions ih =>
    obtain ⟨next, stepped, rest⟩ := bind_eq_ok.mp ran
    rw [List.reverse_cons, List.foldlM_append,
      ih (preserved state action next initially meets.1 stepped) (meets.2 next stepped) rest]
    change ([action].foldlM back next) = _
    rw [List.foldlM_cons, undoes state action next initially meets.1 stepped]
    rfl

/-- Every part of a run is taken back exactly if all steps meet the condition under which they are. -/
theorem restores_iff_meets {step back : S → A → Except ε S} {holds : S → Prop} {condition : S → A → Prop}
    (preserved : ∀ state action next, holds state → step state action = .ok next → holds next)
    (undoes : ∀ state action next, holds state → step state action = .ok next →
      (back next action = .ok state ↔ condition state action))
    {actions : List A} {state final : S} (initially : holds state) (ran : actions.foldlM step state = .ok final) :
    (∀ done undone, actions = done ++ undone →
      ∃ middle, done.foldlM step state = .ok middle ∧ undone.reverse.foldlM back final = .ok middle) ↔
    Meets step condition state actions := by
  induction actions generalizing state with
  | nil =>
    cases ran
    refine iff_of_true (fun done undone empty => ?_) trivial
    obtain ⟨rfl, rfl⟩ := List.append_eq_nil_iff.mp empty.symm
    exact ⟨_, rfl, rfl⟩
  | cons action actions ih =>
    obtain ⟨next, stepped, rest⟩ := bind_eq_ok.mp ran
    have later := ih (preserved state action next initially stepped) rest
    have undone : (action :: actions).reverse.foldlM back final =
        actions.reverse.foldlM back final >>= fun middle => back middle action := by
      rw [List.reverse_cons, List.foldlM_append]
      congr 1
      funext middle
      rw [List.foldlM_cons]
      cases back middle action <;> rfl
    constructor
    · intro restores
      have shifted : ∀ done undone, actions = done ++ undone →
          ∃ middle, done.foldlM step next = .ok middle ∧ undone.reverse.foldlM back final = .ok middle := by
        rintro done others rfl
        obtain ⟨middle, first, second⟩ := restores (action :: done) others rfl
        rw [List.foldlM_cons, stepped] at first
        exact ⟨middle, first, second⟩
      obtain ⟨middle, reached, restored⟩ := shifted [] actions rfl
      cases reached
      obtain ⟨first, started, all⟩ := restores [] (action :: actions) rfl
      cases started
      rw [undone, restored] at all
      refine Meets.cons ((undoes state action next initially stepped).mp all) stepped (later.mp shifted)
    · rintro ⟨meets, rests⟩ done undoneActions split
      have restores := later.mpr (rests next stepped)
      cases done with
      | nil =>
        obtain rfl : action :: actions = undoneActions := split
        obtain ⟨middle, reached, restored⟩ := restores [] actions rfl
        cases reached
        refine ⟨state, rfl, ?_⟩
        rw [undone, restored]
        exact (undoes state action next initially stepped).mpr meets
      | cons first done =>
        obtain ⟨rfl, rfl⟩ := List.cons.inj split
        obtain ⟨middle, reached, restored⟩ := restores done undoneActions rfl
        refine ⟨middle, ?_, restored⟩
        rw [List.foldlM_cons, stepped]
        exact reached

/-- A computation yields a value with a property or fails with an allowed error. -/
def Yields {α : Type} (holds : α → Prop) (allowed : ε → Prop) : Except ε α → Prop
  | .ok value => holds value
  | .error error => allowed error

theorem Yields.bind {α β : Type} {holds : α → Prop} {result : β → Prop} {allowed : ε → Prop}
    {first : Except ε α} {second : α → Except ε β} (yields : Yields holds allowed first)
    (continues : ∀ value, first = .ok value → holds value → Yields result allowed (second value)) :
    Yields result allowed (first >>= second) := by
  cases first with
  | error _ => exact yields
  | ok value => exact continues value rfl yields

theorem Yields.mono {α : Type} {holds weaker : α → Prop} {allowed : ε → Prop} {first : Except ε α}
    (yields : Yields holds allowed first) (implies : ∀ value, holds value → weaker value) : Yields weaker allowed first := by
  cases first with
  | error _ => exact yields
  | ok value => exact implies value yields

/-- If every step with the condition yields the property, then the run does. -/
theorem Yields.foldlM {step : S → A → Except ε S} {condition : S → A → Prop} {holds : S → Prop} {allowed : ε → Prop}
    (preserved : ∀ state action, holds state → condition state action → Yields holds allowed (step state action))
    {actions : List A} {state : S} (initially : holds state) (meets : Meets step condition state actions) :
    Yields holds allowed (actions.foldlM step state) := by
  induction actions generalizing state with
  | nil => exact initially
  | cons action actions ih =>
    rw [List.foldlM_cons]
    apply (preserved state action initially meets.1).bind
    intro next stepped continued
    exact ih continued (meets.2 next stepped)

/-- A computation succeeds with a related value if the specification does, and fails otherwise. -/
def Follows {T : Type} (related : S → T → Prop) (computation : Except ε S) : Option T → Prop
  | some value => ∃ state, computation = .ok state ∧ related state value
  | none => ∃ error, computation = .error error

/-- If every step with the condition follows the specification, then the run does. -/
theorem Follows.foldlM {T : Type} {step : S → A → Except ε S} {spec : T → A → Option T} {condition : S → A → Prop}
    {related : S → T → Prop} {actions : List A}
    (follows : ∀ action ∈ actions, ∀ state value, related state value → condition state action →
      Follows related (step state action) (spec value action))
    {state : S} {value : T} (initially : related state value) (meets : Meets step condition state actions) :
    Follows related (actions.foldlM step state) (actions.foldlM spec value) := by
  induction actions generalizing state value with
  | nil => exact ⟨state, rfl, initially⟩
  | cons action actions ih =>
    have first := follows action List.mem_cons_self state value initially meets.1
    rw [List.foldlM_cons, List.foldlM_cons]
    cases computed : spec value action with
    | none =>
      rw [computed] at first
      obtain ⟨error, failed⟩ := first
      exact ⟨error, by rw [failed]; rfl⟩
    | some next =>
      rw [computed] at first
      obtain ⟨reached, stepped, kept⟩ := first
      rw [stepped]
      exact ih (fun other member => follows other (.tail _ member)) kept (meets.2 reached stepped)

end Runs
