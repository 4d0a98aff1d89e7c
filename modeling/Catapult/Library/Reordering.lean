import Catapult.Library.Runs
import Mathlib.Data.List.Perm.Basic

/-
This file develops fallible calculations over lists: their order, their simulation and their changes of single keys.
-/

namespace Reordering

open Runs

variable {S A B ε : Type}

/-- A calculation succeeds on a list if it succeeds on each value. -/
theorem mapM_eq_ok {calculate : A → Except ε B} {values : List A} {results : List B} :
    values.mapM calculate = .ok results ↔ List.Forall₂ (fun value result => calculate value = .ok result) values results := by
  induction values generalizing results with
  | nil =>
    rw [List.mapM_nil, List.forall₂_nil_left_iff]
    exact ⟨fun same => (Except.ok.inj same).symm, fun same => congrArg _ same.symm⟩
  | cons value values ih =>
    rw [List.mapM_cons, bind_eq_ok, List.forall₂_cons_left_iff]
    constructor
    · rintro ⟨result, calculated, rest⟩
      obtain ⟨others, calculatedOthers, last⟩ := bind_eq_ok.mp rest
      cases last
      exact ⟨result, others, calculated, ih.mp calculatedOthers, rfl⟩
    · rintro ⟨result, others, calculated, calculatedOthers, rfl⟩
      exact ⟨result, calculated, bind_eq_ok.mpr ⟨others, ih.mpr calculatedOthers, rfl⟩⟩

/-- The results of a reordered list are the reordered results. -/
theorem mapM_perm {calculate : A → Except ε B} {values reordered : List A} {results : List B} (reorder : reordered.Perm values)
    (calculated : values.mapM calculate = .ok results) :
    ∃ others, reordered.mapM calculate = .ok others ∧ others.Perm results := by
  obtain ⟨others, each, same⟩ := List.perm_comp_forall₂ reorder (mapM_eq_ok.mp calculated)
  exact ⟨others, mapM_eq_ok.mpr each, same⟩

/-- A successful run of steps that commute pairwise can be reordered. -/
theorem foldlM_perm {step : S → A → Except ε S} {apart : A → A → Prop} (symmetric : ∀ {first second}, apart first second → apart second first)
    (commutes : ∀ {state result first second}, apart first second →
      (step state first >>= fun next => step next second) = .ok result → (step state second >>= fun next => step next first) = .ok result)
    {actions reordered : List A} (reorder : actions.Perm reordered) (pairwise : actions.Pairwise apart) {state result : S}
    (ran : actions.foldlM step state = .ok result) : reordered.foldlM step state = .ok result := by
  induction reorder generalizing state with
  | nil => exact ran
  | cons action _ ih =>
    rw [List.foldlM_cons, bind_eq_ok] at ran ⊢
    obtain ⟨next, stepped, rest⟩ := ran
    exact ⟨next, stepped, ih (List.pairwise_cons.mp pairwise).2 rest⟩
  | swap first second actions =>
    rw [List.foldlM_cons, bind_eq_ok] at ran ⊢
    obtain ⟨next, stepped, rest⟩ := ran
    rw [List.foldlM_cons, bind_eq_ok] at rest
    obtain ⟨last, steppedLast, rest⟩ := rest
    have apart := (List.pairwise_cons.mp pairwise).1 first List.mem_cons_self
    obtain ⟨other, steppedOther, again⟩ := bind_eq_ok.mp (commutes apart (bind_eq_ok.mpr ⟨next, stepped, steppedLast⟩))
    refine ⟨other, steppedOther, ?_⟩
    rw [List.foldlM_cons, again]
    exact rest
  | trans firstReorder _ first second => exact second (firstReorder.pairwise pairwise symmetric) (first pairwise ran)

theorem rel_some_left {related : A → B → Prop} {value : A} {other : Option B} :
    Option.Rel related (some value) other ↔ ∃ otherValue, other = some otherValue ∧ related value otherValue := by
  cases other with
  | none => simp
  | some otherValue => simp

theorem rel_some_right {related : A → B → Prop} {value : Option A} {other : B} :
    Option.Rel related value (some other) ↔ ∃ ownValue, value = some ownValue ∧ related ownValue other := by
  cases value with
  | none => simp
  | some ownValue => simp

theorem rel_none_right {related : A → B → Prop} {value : Option A} : Option.Rel related value none ↔ value = none := by
  cases value with
  | none => simp
  | some ownValue => simp

variable {T C D : Type} {related : S → T → Prop} {relatedItems : A → B → Prop} {relatedResults : C → D → Prop}

/-- A calculation over a list is simulated if each of its calculations is. -/
theorem mapM_simulates {calculate : A → Except ε C} {simulate : B → Except ε D} {items : List A} {others : List B} {results : List C}
    (each : ∀ item other result, relatedItems item other → calculate item = .ok result →
      ∃ otherResult, simulate other = .ok otherResult ∧ relatedResults result otherResult)
    (lists : List.Forall₂ relatedItems items others) (ran : items.mapM calculate = .ok results) :
    ∃ otherResults, others.mapM simulate = .ok otherResults ∧ List.Forall₂ relatedResults results otherResults := by
  induction lists generalizing results with
  | nil =>
    cases ran
    exact ⟨[], rfl, .nil⟩
  | cons relatedItem _ ih =>
    rw [List.mapM_cons] at ran
    obtain ⟨result, calculated, rest⟩ := bind_eq_ok.mp ran
    obtain ⟨remaining, calculatedRemaining, last⟩ := bind_eq_ok.mp rest
    cases last
    obtain ⟨otherResult, simulated, relatedResult⟩ := each _ _ _ relatedItem calculated
    obtain ⟨otherResults, simulatedRemaining, relatedRemaining⟩ := ih calculatedRemaining
    refine ⟨otherResult :: otherResults, ?_, .cons relatedResult relatedRemaining⟩
    rw [List.mapM_cons]
    exact bind_eq_ok.mpr ⟨otherResult, simulated, bind_eq_ok.mpr ⟨otherResults, simulatedRemaining, rfl⟩⟩

/-- A calculation that keeps a value keeps it for the whole list. -/
theorem map_of_mapM {calculate : A → Except ε C} {before : A → D} {after : C → D} {items : List A} {results : List C}
    (each : ∀ item result, calculate item = .ok result → after result = before item) (ran : items.mapM calculate = .ok results) :
    results.map after = items.map before := by
  have related := mapM_eq_ok.mp ran
  clear ran
  induction related with
  | nil => rfl
  | cons calculated _ ih => rw [List.map_cons, List.map_cons, each _ _ calculated, ih]

/-- A run is simulated if each of its steps is. -/
theorem foldlM_simulates {step : S → A → Except ε S} {simulate : T → B → Except ε T} {items : List A} {others : List B}
    (each : ∀ state other item otherItem next, related state other → relatedItems item otherItem → step state item = .ok next →
      ∃ otherNext, simulate other otherItem = .ok otherNext ∧ related next otherNext)
    (lists : List.Forall₂ relatedItems items others) {state result : S} {other : T} (start : related state other)
    (ran : items.foldlM step state = .ok result) :
    ∃ otherResult, others.foldlM simulate other = .ok otherResult ∧ related result otherResult := by
  induction lists generalizing state other with
  | nil =>
    cases ran
    exact ⟨other, rfl, start⟩
  | cons relatedItem _ ih =>
    obtain ⟨next, stepped, rest⟩ := bind_eq_ok.mp ran
    obtain ⟨otherNext, simulated, relatedNext⟩ := each _ _ _ _ _ start relatedItem stepped
    obtain ⟨otherResult, ranOther, relatedResult⟩ := ih relatedNext rest
    refine ⟨otherResult, ?_, relatedResult⟩
    rw [List.foldlM_cons]
    exact bind_eq_ok.mpr ⟨otherNext, simulated, ranOther⟩

variable {K V : Type} [DecidableEq K]

/-- The value of a key is changed if there is one. -/
def changeAt (change : V → Except ε V) (values : K → Option V) (key : K) : Except ε (K → Option V) :=
  match values key with
  | none => .ok values
  | some value => do return Function.update values key (some (← change value))

variable {change : V → Except ε V} {values result : K → Option V} {keys : List K}

/-- Changes of distinct keys do not depend on each other. -/
theorem foldlM_changeAt (distinct : keys.Nodup)
    (succeeds : ∀ key ∈ keys, ∀ value, values key = some value → ∃ changed, change value = .ok changed) :
    keys.foldlM (changeAt change) values =
      .ok fun key => if key ∈ keys then (values key).bind fun value => (change value).toOption else values key := by
  induction keys generalizing values with
  | nil => simp only [List.foldlM_nil, List.not_mem_nil, if_false]; rfl
  | cons first keys ih =>
    obtain ⟨absent, rest⟩ := List.nodup_cons.mp distinct
    rw [List.foldlM_cons]
    cases found : values first with
    | none =>
      have same : changeAt change values first = .ok values := by rw [changeAt, found]
      refine bind_eq_ok.mpr ⟨values, same, (ih rest fun key member => succeeds key (List.mem_cons_of_mem _ member)).trans ?_⟩
      refine congrArg Except.ok (funext fun key => ?_)
      by_cases own : key = first
      · rw [own, if_neg absent, if_pos List.mem_cons_self, found, Option.bind_none]
      · simp only [List.mem_cons, own, false_or]
    | some value =>
      obtain ⟨changed, ran⟩ := succeeds first List.mem_cons_self value found
      have updated : changeAt change values first = .ok (Function.update values first (some changed)) := by
        rw [changeAt, found]
        exact bind_eq_ok.mpr ⟨changed, ran, rfl⟩
      refine bind_eq_ok.mpr ⟨_, updated, (ih rest fun key member other held => ?_).trans ?_⟩
      · rw [Function.update_of_ne (ne_of_mem_of_not_mem member absent)] at held
        exact succeeds key (List.mem_cons_of_mem _ member) other held
      · refine congrArg Except.ok (funext fun key => ?_)
        by_cases own : key = first
        · rw [own, if_neg absent, if_pos List.mem_cons_self, Function.update_self, found, Option.bind_some, ran, Except.toOption]
        · rw [Function.update_of_ne own]
          simp only [List.mem_cons, own, false_or]

/-- Items with distinct keys give their values to these keys. -/
theorem foldlM_assign {step : (K → Option V) → A → Except ε (K → Option V)} {key : A → K} {calculate : A → Except ε V} {items : List A}
    (assigns : ∀ {values item next}, step values item = .ok next ↔ ∃ value, calculate item = .ok value ∧ Function.update values (key item) (some value) = next)
    (distinct : (items.map key).Nodup) (ran : items.foldlM step values = .ok result) :
    (∀ item ∈ items, ∃ value, calculate item = .ok value ∧ result (key item) = some value) ∧
      ∀ other, other ∉ items.map key → result other = values other := by
  induction items generalizing values with
  | nil =>
    cases ran
    exact ⟨fun _ member => absurd member List.not_mem_nil, fun _ _ => rfl⟩
  | cons first items ih =>
    rw [List.map_cons] at distinct ⊢
    obtain ⟨absent, rest⟩ := List.nodup_cons.mp distinct
    obtain ⟨next, stepped, later⟩ := bind_eq_ok.mp ran
    obtain ⟨value, calculated, rfl⟩ := assigns.mp stepped
    obtain ⟨members, others⟩ := ih rest later
    constructor
    · intro item member
      rcases List.mem_cons.mp member with rfl | member
      · exact ⟨value, calculated, (others _ absent).trans (Function.update_self ..)⟩
      · exact members item member
    · intro other missing
      obtain ⟨different, missing⟩ := not_or.mp (List.mem_cons.not.mp missing)
      exact (others other missing).trans (Function.update_of_ne different ..)

end Reordering
