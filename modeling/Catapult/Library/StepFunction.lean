import Mathlib.Data.List.Chain
import Mathlib.Order.Lattice

/-
This file develops step functions that are represented by their changes, from the highest key to the lowest.
-/

namespace StepFunction

variable {κ α : Type} [LinearOrder κ]

/-- The value at a key is that of the last change that is not above the key. -/
def lookup (fallback : α) (entries : List (κ × α)) (key : κ) : α :=
  match entries.find? fun entry => entry.1 ≤ key with
  | some entry => entry.2
  | none => fallback

/-- The value behind all changes. -/
def latest (fallback : α) : List (κ × α) → α
  | [] => fallback
  | entry :: _ => entry.2

/-- Every entry is a change. -/
structure Steps (entries : List (κ × α)) : Prop where
  descending : entries.Pairwise fun upper lower => lower.1 < upper.1
  neighbours : entries.IsChain fun upper lower => upper.2 ≠ lower.2

/-- The lowest entry is a change as well. -/
structure Canonical (fallback : α) (entries : List (κ × α)) : Prop extends Steps entries where
  lowest : ∀ entry, entries.getLast? = some entry → entry.2 ≠ fallback

open Classical in
/-- A function takes a value from a key up to its next change. -/
noncomputable def setFrom (f : κ → α) (key : κ) (value : α) (other : κ) : α :=
  if key ≤ other ∧ ∀ between, key ≤ between → between ≤ other → f between = f key then value else f other

section Lookup

variable {fallback : α} {above below : List (κ × α)} {key : κ}

theorem lookup_nil : lookup fallback [] key = fallback := rfl

theorem lookup_append_of_above (high : ∀ entry ∈ above, key < entry.1) : lookup fallback (above ++ below) key = lookup fallback below key := by
  have none : above.find? (fun entry => decide (entry.1 ≤ key)) = none := by
    rw [List.find?_eq_none]
    intro entry member
    simpa using high entry member
  rw [lookup, List.find?_append, none, Option.none_or, lookup]

theorem lookup_cons_of_lt {entry : κ × α} (less : key < entry.1) : lookup fallback (entry :: below) key = lookup fallback below key := by
  rw [← List.singleton_append, lookup_append_of_above (by simpa using less)]

theorem lookup_append_of_mem {entry : κ × α} (member : entry ∈ above) (low : entry.1 ≤ key) :
    lookup fallback (above ++ below) key = lookup fallback above key := by
  have some : (above.find? fun entry => decide (entry.1 ≤ key)).isSome := by
    rw [List.find?_isSome]
    exact ⟨entry, member, decide_eq_true low⟩
  obtain ⟨found, search⟩ := Option.isSome_iff_exists.mp some
  rw [lookup, List.find?_append, search, Option.some_or, lookup, search]

theorem lookup_eq_latest (low : ∀ entry ∈ below, entry.1 ≤ key) : lookup fallback below key = latest fallback below := by
  cases below with
  | nil => rfl
  | cons entry below =>
    have found : (entry :: below).find? (fun entry => decide (entry.1 ≤ key)) = some entry :=
      List.find?_cons_of_pos (decide_eq_true (low entry List.mem_cons_self))
    rw [lookup, found]
    rfl

end Lookup

variable {fallback : α} {above below : List (κ × α)}

theorem canonical_nil : Canonical fallback ([] : List (κ × α)) :=
  ⟨⟨List.Pairwise.nil, List.IsChain.nil⟩, nofun⟩

/-- A canonical list ends with a canonical list whose latest value is changed next. -/
theorem canonical_append : Canonical fallback (above ++ below) ↔
    Steps above ∧ Canonical fallback below ∧ (∀ upper ∈ above, ∀ lower ∈ below, lower.1 < upper.1) ∧
      ∀ entry, above.getLast? = some entry → entry.2 ≠ latest fallback below := by
  constructor
  · rintro ⟨⟨descending, neighbours⟩, lowest⟩
    obtain ⟨first, second, across⟩ := List.pairwise_append.mp descending
    obtain ⟨first', second', joined⟩ := List.isChain_append.mp neighbours
    cases below with
    | nil => exact ⟨⟨first, first'⟩, canonical_nil, across, by simpa [latest] using lowest⟩
    | cons entry below =>
      refine ⟨⟨first, first'⟩, ⟨⟨second, second'⟩, ?_⟩, across, ?_⟩
      · rw [List.getLast?_append_cons] at lowest
        exact lowest
      · intro last final
        exact joined last final entry rfl
  · rintro ⟨⟨first, first'⟩, ⟨⟨second, second'⟩, lowest⟩, across, joined⟩
    refine ⟨⟨List.pairwise_append.mpr ⟨first, second, across⟩, List.isChain_append.mpr ⟨first', second', ?_⟩⟩, ?_⟩
    · intro last final entry head
      cases below with
      | nil => cases head
      | cons _ below =>
        cases head
        exact joined last final
    · cases below with
      | nil => simpa [latest] using joined
      | cons entry below =>
        rw [List.getLast?_append_cons]
        exact lowest

theorem canonical_cons {entry : κ × α} : Canonical fallback (entry :: below) ↔
    Canonical fallback below ∧ (∀ lower ∈ below, lower.1 < entry.1) ∧ entry.2 ≠ latest fallback below := by
  rw [← List.singleton_append, canonical_append]
  constructor
  · rintro ⟨_, canonical, across, joined⟩
    exact ⟨canonical, across entry List.mem_cons_self, joined entry rfl⟩
  · rintro ⟨canonical, across, joined⟩
    refine ⟨⟨List.pairwise_singleton _ _, List.IsChain.singleton _⟩, canonical, ?_, ?_⟩
    · intro upper member
      rwa [List.mem_singleton.mp member]
    · rintro _ ⟨rfl⟩
      exact joined

/-- All entries lie at or below the first one. -/
theorem Canonical.le_head {entry : κ × α} (canonical : Canonical fallback (entry :: below)) : ∀ lower ∈ entry :: below, lower.1 ≤ entry.1 := by
  intro lower member
  obtain same | rest := List.mem_cons.mp member
  · exact le_of_eq (congrArg Prod.fst same)
  · exact le_of_lt ((canonical_cons.mp canonical).2.1 lower rest)

/-- The function of a list with entries is not constant. -/
theorem Canonical.exists_ne (canonical : Canonical fallback below) (nonempty : below ≠ []) :
    ∃ entry ∈ below, lookup fallback below entry.1 ≠ fallback := by
  obtain ⟨front, last, rfl⟩ := List.eq_nil_or_concat below |>.resolve_left nonempty
  rw [List.concat_eq_append] at canonical ⊢
  obtain ⟨_, single, across, _⟩ := canonical_append.mp canonical
  refine ⟨last, by simp, ?_⟩
  rw [lookup_append_of_above fun upper member => across upper member last List.mem_cons_self, lookup_eq_latest single.le_head]
  exact (canonical_cons.mp single).2.2

/-- Of two lists with the same function neither begins below the other. -/
theorem Canonical.not_head_lt {first second : κ × α} {rest rest' : List (κ × α)} {inside : κ → Prop}
    (closed : ∀ {lower upper}, lower ≤ upper → inside upper → inside lower) (canonical : Canonical fallback (first :: rest))
    (canonical' : Canonical fallback (second :: rest')) (key' : inside second.1)
    (same : ∀ key, inside key → lookup fallback (first :: rest) key = lookup fallback (second :: rest') key) : ¬ first.1 < second.1 := by
  intro less
  obtain ⟨canonicalRest, below, changed⟩ := canonical_cons.mp canonical'
  -- the values at the second key and right below its change are equal
  obtain ⟨key, above, before, high⟩ : ∃ key, first.1 ≤ key ∧ key < second.1 ∧ ∀ entry ∈ rest', entry.1 ≤ key := by
    cases rest' with
    | nil => exact ⟨first.1, le_refl _, less, nofun⟩
    | cons next rest' =>
      refine ⟨max first.1 next.1, le_max_left _ _, max_lt less (below next List.mem_cons_self), ?_⟩
      intro entry member
      exact le_trans (canonicalRest.le_head entry member) (le_max_right _ _)
  have upper := same second.1 key'
  have lower := same key (closed (le_of_lt before) key')
  rw [lookup_eq_latest fun entry member => le_trans (canonical.le_head entry member) (le_of_lt less),
    lookup_eq_latest canonical'.le_head] at upper
  rw [lookup_eq_latest fun entry member => le_trans (canonical.le_head entry member) above,
    lookup_cons_of_lt before, lookup_eq_latest high] at lower
  exact changed (upper.symm.trans lower)

/-- A canonical list is determined by the function below its keys. -/
theorem Canonical.eq_of_lookup {inside : κ → Prop} (closed : ∀ {lower upper}, lower ≤ upper → inside upper → inside lower)
    {first second : List (κ × α)} (canonical : Canonical fallback first) (canonical' : Canonical fallback second)
    (keys : ∀ entry ∈ first, inside entry.1) (keys' : ∀ entry ∈ second, inside entry.1)
    (same : ∀ key, inside key → lookup fallback first key = lookup fallback second key) : first = second := by
  induction first generalizing second inside with
  | nil =>
    by_contra other
    obtain ⟨entry, member, changed⟩ := canonical'.exists_ne (Ne.symm other)
    exact changed (same entry.1 (keys' entry member)).symm
  | cons entry rest ih =>
    cases second with
    | nil =>
      obtain ⟨other, member, changed⟩ := canonical.exists_ne (List.cons_ne_nil _ _)
      exact absurd (same other.1 (keys other member)) changed
    | cons entry' rest' =>
      have key := keys entry List.mem_cons_self
      have key' := keys' entry' List.mem_cons_self
      have equal : entry.1 = entry'.1 := le_antisymm
        (not_lt.mp (canonical'.not_head_lt closed canonical key fun other member => (same other member).symm))
        (not_lt.mp (canonical.not_head_lt closed canonical' key' same))
      have value := same entry.1 key
      rw [lookup_eq_latest canonical.le_head, equal, lookup_eq_latest canonical'.le_head] at value
      have pair : entry = entry' := Prod.ext equal value
      subst pair
      obtain ⟨canonicalRest, below, _⟩ := canonical_cons.mp canonical
      obtain ⟨canonicalRest', below', _⟩ := canonical_cons.mp canonical'
      have agreed (other : κ) (less : other < entry.1) : lookup fallback rest other = lookup fallback rest' other := by
        have whole := same other (closed (le_of_lt less) key)
        rwa [lookup_cons_of_lt less, lookup_cons_of_lt less] at whole
      rw [@ih (· < entry.1) (fun le less => lt_of_le_of_lt le less) rest' canonicalRest canonicalRest' below below' agreed]

/-- Canonical lists that represent the same function are equal. -/
theorem Canonical.ext {first second : List (κ × α)} (canonical : Canonical fallback first) (canonical' : Canonical fallback second)
    (same : ∀ key, lookup fallback first key = lookup fallback second key) : first = second :=
  @Canonical.eq_of_lookup _ _ _ _ (fun _ => True) (fun _ _ => trivial) _ _ canonical canonical' (fun _ _ => trivial) (fun _ _ => trivial) fun key _ => same key

end StepFunction
