import Catapult.Construction.Finalization.FinalizationContext
import Catapult.Library.SortedMap
import Catapult.Library.StepFunction
import Mathlib.Data.List.TakeWhile

/-
This file shows that a history is the canonical representation of a step function.
-/

namespace Catapult.Finalization.HeightIndexedHistoryMap

open StepFunction

section Histories

variable {α : Type} [Inhabited α]

/-- The first block has the height one. -/
structure Valid (history : HeightIndexedHistoryMap α) : Prop where
  canonical : Canonical default history.entries
  positive : ∀ entry ∈ history.entries, 0 < entry.1.toNat

theorem get_eq_lookup (history : HeightIndexedHistoryMap α) (height : Height) : history.get height = lookup default history.entries height := by
  unfold HeightIndexedHistoryMap.get lookup
  cases history.entries.find? fun entry => decide (entry.1 ≤ height) with
  | none => rfl
  | some entry => rfl

end Histories

section Splitting

variable {α : Type} {entries : List (Height × α)} {height : Height}

theorem upperEntries_append_lowerBound : upperEntries entries height ++ lowerBound entries height = entries := List.takeWhile_append_dropWhile

theorem lt_of_mem_upperEntries {entry : Height × α} (member : entry ∈ upperEntries entries height) : height < entry.1 :=
  of_decide_eq_true (List.mem_takeWhile_imp (p := fun entry : Height × α => decide (height < entry.1)) member)

theorem le_of_mem_lowerBound (descending : entries.Pairwise fun upper lower => lower.1 < upper.1) {entry : Height × α}
    (member : entry ∈ lowerBound entries height) : entry.1 ≤ height := by
  induction entries with
  | nil => cases member
  | cons first rest ih =>
    obtain ⟨below, descending'⟩ := List.pairwise_cons.mp descending
    unfold lowerBound at member
    rw [List.dropWhile_cons] at member
    split at member
    · exact ih descending' member
    · next low =>
      have low' : first.1 ≤ height := not_lt.mp (by simpa using low)
      obtain same | later := List.mem_cons.mp member
      · rwa [same]
      · exact le_trans (le_of_lt (below entry later)) low'

/-- The upper entries are found in front of the other ones. -/
theorem upperEntries_append {above below : List (Height × α)} (high : ∀ entry ∈ above, height < entry.1) (low : ∀ entry ∈ below, entry.1 ≤ height) :
    upperEntries (above ++ below) height = above := by
  have none : below.takeWhile (fun entry => decide (height < entry.1)) = [] := by
    cases below with
    | nil => rfl
    | cons entry below => exact List.takeWhile_cons_of_neg (by simpa using low entry List.mem_cons_self)
  rw [upperEntries, List.takeWhile_append_of_pos fun entry member => decide_eq_true (high entry member), none, List.append_nil]

theorem lowerBound_append {above below : List (Height × α)} (high : ∀ entry ∈ above, height < entry.1) (low : ∀ entry ∈ below, entry.1 ≤ height) :
    lowerBound (above ++ below) height = below := by
  have split := @upperEntries_append_lowerBound _ (above ++ below) height
  rw [upperEntries_append high low] at split
  exact List.append_cancel_left split

end Splitting

section Erasing

variable {α : Type} {entries others : List (Height × α)} {height : Height}

theorem erase_append : erase (entries ++ others) height = erase entries height ++ erase others height := List.filter_append _ _

theorem erase_of_absent (absent : ∀ entry ∈ entries, entry.1 ≠ height) : erase entries height = entries :=
  List.filter_eq_self.mpr fun entry member => decide_eq_true (absent entry member)

theorem erase_cons_self {value : α} (absent : ∀ entry ∈ entries, entry.1 ≠ height) : erase ((height, value) :: entries) height = entries := by
  rw [erase, List.filter_cons_of_neg (by simp)]
  exact erase_of_absent absent

end Erasing

section Adding

variable {α : Type} {above below : List (Height × α)} {height : Height} {value : α}

/-- The entry above the added one is merged with it if their values agree. -/
def Merges (above : List (Height × α)) (value : α) (kept : List (Height × α)) : Prop :=
  (kept = above ∧ ∀ larger, above.getLast? = some larger → larger.2 ≠ value) ∨ ∃ larger, above = kept ++ [larger] ∧ larger.2 = value

/-- The added entry is kept if it changes the value. -/
def added [Inhabited α] [DecidableEq α] (below : List (Height × α)) (height : Height) (value : α) : List (Height × α) :=
  if latest default below = value then below else (height, value) :: below

/-- An entry with the same height is replaced. -/
theorem insertOrAssign_eq (high : ∀ entry ∈ above, height < entry.1) {lower : List (Height × α)} (descending : lower.Pairwise fun upper lower => lower.1 < upper.1)
    (low : ∀ entry ∈ lower, entry.1 ≤ height) :
    ∃ below, insertOrAssign (above ++ lower) height value = above ++ (height, value) :: below ∧ (below = lower ∨ ∃ replaced, lower = replaced :: below ∧ replaced.1 = height) ∧
      ∀ entry ∈ below, entry.1 < height := by
  unfold insertOrAssign
  rw [upperEntries_append high low, lowerBound_append high low]
  cases lower with
  | nil => exact ⟨[], rfl, .inl rfl, nofun⟩
  | cons entry rest =>
    have later := (List.pairwise_cons.mp descending).1
    have first := low entry List.mem_cons_self
    dsimp only
    split
    · next same => exact ⟨rest, rfl, .inr ⟨entry, rfl, same⟩, fun other member => same ▸ later other member⟩
    · next other =>
      refine ⟨entry :: rest, rfl, .inl rfl, ?_⟩
      intro next member
      obtain same | member := List.mem_cons.mp member
      · exact same ▸ lt_of_le_of_ne first other
      · exact lt_of_lt_of_le (later next member) first

theorem eraseLarger_eq [DecidableEq α] (steps : Steps above) (high : ∀ entry ∈ above, height < entry.1) (low : ∀ entry ∈ below, entry.1 < height) :
    ∃ kept, Merges above value kept ∧
      eraseLarger (above ++ (height, value) :: below) height value = kept ++ (height, value) :: below := by
  have low' : ∀ entry ∈ (height, value) :: below, entry.1 ≤ height := by
    rw [List.forall_mem_cons]
    exact ⟨le_refl _, fun entry member => le_of_lt (low entry member)⟩
  unfold eraseLarger
  rw [upperEntries_append high low']
  obtain none | ⟨front, last, rfl⟩ := List.eq_nil_or_concat above
  · subst none
    exact ⟨[], .inl ⟨rfl, nofun⟩, rfl⟩
  · rw [List.concat_eq_append] at high steps ⊢
    have descending := List.pairwise_append.mp steps.descending
    rw [List.getLast?_concat]
    dsimp only
    by_cases same : last.2 = value
    · refine ⟨front, .inr ⟨last, rfl, same⟩, ?_⟩
      rw [if_pos same, erase_append, erase_append, erase_of_absent fun entry member => ne_of_gt (descending.2.2 entry member last (List.mem_singleton_self _)),
        erase_of_absent fun entry member => ne_of_lt (lt_of_le_of_lt (low' entry member) (high last (by simp)))]
      have gone : erase [last] last.1 = [] := List.filter_cons_of_neg (by simp)
      rw [gone, List.append_nil]
    · refine ⟨front ++ [last], .inl ⟨rfl, ?_⟩, if_neg same⟩
      intro larger final
      rw [List.getLast?_concat] at final
      cases final
      exact same

/-- The history consists of the merged upper entries and the added entry with those below it. -/
theorem add_eq [Inhabited α] [DecidableEq α] (positive : 0 < height.toNat) (steps : Steps above) (high : ∀ entry ∈ above, height < entry.1)
    {lower : List (Height × α)} (descending : lower.Pairwise fun upper lower => lower.1 < upper.1) (low : ∀ entry ∈ lower, entry.1 ≤ height) :
    ∃ kept below, add ⟨above ++ lower⟩ height value = ⟨kept ++ added below height value⟩ ∧ Merges above value kept ∧
      (below = lower ∨ ∃ replaced, lower = replaced :: below ∧ replaced.1 = height) ∧ ∀ entry ∈ below, entry.1 < height := by
  obtain ⟨below, inserted, replaced, under⟩ := @insertOrAssign_eq _ _ _ value high _ descending low
  obtain ⟨kept, merges, merged⟩ := @eraseLarger_eq _ _ _ _ value _ steps high under
  refine ⟨kept, below, ?_, merges, replaced, under⟩
  have high' : ∀ entry ∈ kept, height < entry.1 := by
    intro entry member
    obtain ⟨rfl, _⟩ | ⟨larger, rfl, _⟩ := merges
    · exact high entry member
    · exact high entry (List.mem_append_left _ member)
  have first : (1 : Height) ≤ height := UInt64.le_iff_toNat_le.mpr (show 1 ≤ height.toNat from positive)
  have before (entry : Height × α) (member : entry ∈ below) : entry.1 ≤ height - 1 := by
    have less := UInt64.lt_iff_toNat_lt.mp (under entry member)
    rw [UInt64.le_iff_toNat_le, UInt64.toNat_sub_of_le _ _ first]
    change _ ≤ height.toNat - 1
    omega
  have smaller : height - 1 < height := by
    rw [UInt64.lt_iff_toNat_lt, UInt64.toNat_sub_of_le _ _ first]
    change height.toNat - 1 < _
    omega
  have read : HeightIndexedHistoryMap.get ⟨kept ++ (height, value) :: below⟩ (height - 1) = latest default below := by
    rw [get_eq_lookup, lookup_append_of_above fun entry member => lt_trans smaller (high' entry member), lookup_cons_of_lt smaller,
      lookup_eq_latest before]
  unfold add
  dsimp only
  rw [inserted, merged, read, added]
  split
  · rw [erase_append, erase_of_absent fun entry member => ne_of_gt (high' entry member), erase_cons_self fun entry member => ne_of_lt (under entry member)]
  · rfl

theorem Merges.subset {kept : List (Height × α)} (merges : Merges above value kept) : ∀ entry ∈ kept, entry ∈ above := by
  obtain ⟨rfl, _⟩ | ⟨larger, rfl, _⟩ := merges
  · exact fun _ member => member
  · exact fun _ member => List.mem_append_left _ member

theorem Merges.steps {kept : List (Height × α)} (merges : Merges above value kept) (steps : Steps above) :
    Steps kept ∧ ∀ entry, kept.getLast? = some entry → entry.2 ≠ value := by
  obtain ⟨rfl, changed⟩ | ⟨larger, rfl, rfl⟩ := merges
  · exact ⟨steps, changed⟩
  · obtain ⟨descending, _⟩ := List.pairwise_append.mp steps.descending
    obtain ⟨neighbours, _, joined⟩ := List.isChain_append.mp steps.neighbours
    exact ⟨⟨descending, neighbours⟩, fun entry final => joined entry final larger rfl⟩

/-- Without the merged entry the value below it reaches up to the next entry. -/
theorem Merges.lookup_eq {kept rest : List (Height × α)} {fallback : α} (merges : Merges above value kept) (steps : Steps above)
    (latest_eq : latest fallback rest = value) {other : Height} (low : ∀ entry ∈ rest, entry.1 ≤ other) :
    (∃ entry ∈ above, entry.1 ≤ other) → lookup fallback (kept ++ rest) other = lookup fallback above other := by
  rintro ⟨entry, member, below⟩
  obtain ⟨rfl, _⟩ | ⟨larger, rfl, same⟩ := merges
  · exact lookup_append_of_mem member below
  · by_cases found : ∃ entry ∈ kept, entry.1 ≤ other
    · obtain ⟨first, inside, lower⟩ := found
      rw [lookup_append_of_mem inside lower, lookup_append_of_mem inside lower]
    · have high : ∀ entry ∈ kept, other < entry.1 := fun entry inside => not_le.mp fun lower => found ⟨entry, inside, lower⟩
      have final : larger.1 ≤ other := by
        obtain inside | single := List.mem_append.mp member
        · exact absurd ⟨entry, inside, below⟩ found
        · rwa [← List.mem_singleton.mp single]
      rw [lookup_append_of_above high, lookup_append_of_above high, lookup_eq_latest low, latest_eq, lookup_eq_latest (by simpa using final)]
      exact same.symm

/-- An addition gives a canonical list, keeps the values below the height and changes those from the height up to the next entry. -/
theorem add_spec [Inhabited α] [DecidableEq α] (positive : 0 < height.toNat) (steps : Steps above) (high : ∀ entry ∈ above, height < entry.1)
    {lower : List (Height × α)} (canonical : Canonical default lower) (low : ∀ entry ∈ lower, entry.1 ≤ height) :
    Canonical default (add ⟨above ++ lower⟩ height value).entries ∧
      (∀ entry ∈ (add ⟨above ++ lower⟩ height value).entries, entry.1 = height ∨ entry ∈ above ++ lower) ∧
      ∀ other, lookup default (add ⟨above ++ lower⟩ height value).entries other =
        if other < height then lookup default lower other
        else if ∃ entry ∈ above, entry.1 ≤ other then lookup default above other else value := by
  obtain ⟨kept, below, same, merges, replaced, under⟩ := @add_eq _ _ _ value _ _ positive steps high _ canonical.descending low
  rw [same]
  dsimp only
  have canonicalBelow : Canonical default below := by
    obtain same | ⟨entry, rfl, _⟩ := replaced
    · exact same ▸ canonical
    · exact (canonical_cons.mp canonical).1
  have subset : ∀ entry ∈ below, entry ∈ lower := by
    obtain same | ⟨entry, rfl, _⟩ := replaced
    · exact fun entry member => same ▸ member
    · exact fun _ member => List.mem_cons_of_mem _ member
  have agrees : ∀ other < height, lookup default below other = lookup default lower other := by
    intro other less
    obtain same | ⟨entry, rfl, equal⟩ := replaced
    · rw [same]
    · rw [lookup_cons_of_lt (equal ▸ less)]
  have latest_eq : latest default (added below height value) = value := by
    unfold added
    split
    · assumption
    · rfl
  have canonicalAdded : Canonical default (added below height value) := by
    unfold added
    split
    · exact canonicalBelow
    · next changed => exact canonical_cons.mpr ⟨canonicalBelow, under, Ne.symm changed⟩
  have lowAdded : ∀ entry ∈ added below height value, entry.1 ≤ height ∧ (entry.1 = height ∨ entry ∈ lower) := by
    intro entry member
    unfold added at member
    split at member
    · exact ⟨le_of_lt (under entry member), .inr (subset entry member)⟩
    · obtain same | member := List.mem_cons.mp member
      · exact ⟨le_of_eq (congrArg Prod.fst same), .inl (congrArg Prod.fst same)⟩
      · exact ⟨le_of_lt (under entry member), .inr (subset entry member)⟩
  have highKept : ∀ entry ∈ kept, height < entry.1 := fun entry member => high entry (merges.subset entry member)
  obtain ⟨stepsKept, joined⟩ := merges.steps steps
  refine ⟨canonical_append.mpr ⟨stepsKept, canonicalAdded, ?_, ?_⟩, ?_, ?_⟩
  · exact fun upper member lower inside => lt_of_le_of_lt (lowAdded lower inside).1 (highKept upper member)
  · rwa [latest_eq]
  · intro entry member
    obtain inside | inside := List.mem_append.mp member
    · exact .inr (List.mem_append_left _ (merges.subset entry inside))
    · exact (lowAdded entry inside).2.imp_right (List.mem_append_right _)
  · intro other
    split
    · next less =>
      rw [lookup_append_of_above fun entry member => lt_trans less (highKept entry member), ← agrees other less]
      unfold added
      split
      · rfl
      · exact lookup_cons_of_lt less
    · next great =>
      have low' : ∀ entry ∈ added below height value, entry.1 ≤ other := fun entry member => le_trans (lowAdded entry member).1 (not_lt.mp great)
      split
      · next found => exact merges.lookup_eq steps latest_eq low' found
      · next none =>
        have above' : ∀ entry ∈ kept, other < entry.1 := fun entry member => not_le.mp fun lower => none ⟨entry, merges.subset entry member, lower⟩
        rw [lookup_append_of_above above', lookup_eq_latest low', latest_eq]

end Adding

section Operations

variable {α : Type} [Inhabited α] [DecidableEq α] {history : HeightIndexedHistoryMap α} {height : Height}

omit [DecidableEq α] in
/-- A valid history is divided by a height. -/
theorem Valid.split (valid : Valid history) (height : Height) :
    ∃ above lower, history = ⟨above ++ lower⟩ ∧ upperEntries history.entries height = above ∧ lowerBound history.entries height = lower ∧
      (∀ entry ∈ above, height < entry.1) ∧ (∀ entry ∈ lower, entry.1 ≤ height) ∧ Steps above ∧ Canonical default lower ∧
      ∀ entry, above.getLast? = some entry → entry.2 ≠ latest default lower := by
  have canonical := valid.canonical
  rw [← @upperEntries_append_lowerBound _ history.entries height] at canonical
  obtain ⟨steps, canonicalLower, _, joined⟩ := canonical_append.mp canonical
  refine ⟨_, _, ?_, rfl, rfl, fun _ => lt_of_mem_upperEntries, fun _ => le_of_mem_lowerBound valid.canonical.descending, steps, canonicalLower, joined⟩
  rw [upperEntries_append_lowerBound]

omit [DecidableEq α] in
/-- The function is constant between the height and another one if there is no entry between them. -/
theorem constant_iff {above lower : List (Height × α)} (canonical : Canonical default (above ++ lower)) (high : ∀ entry ∈ above, height < entry.1)
    (low : ∀ entry ∈ lower, entry.1 ≤ height) (other : Height) :
    (∀ between, height ≤ between → between ≤ other → lookup default (above ++ lower) between = lookup default (above ++ lower) height) ↔
      ¬ ∃ entry ∈ above, entry.1 ≤ other := by
  have start : lookup default (above ++ lower) height = latest default lower := by
    rw [lookup_append_of_above high, lookup_eq_latest low]
  rw [start]
  constructor
  · rintro constant ⟨entry, member, below⟩
    obtain none | ⟨front, last, rfl⟩ := List.eq_nil_or_concat above
    · subst none
      cases member
    · rw [List.concat_eq_append] at canonical high constant member
      obtain ⟨steps, _, _, joined⟩ := canonical_append.mp canonical
      have descending := (List.pairwise_append.mp steps.descending).2.2
      have final : last.1 ≤ other := by
        obtain inside | single := List.mem_append.mp member
        · exact le_trans (le_of_lt (descending entry inside last List.mem_cons_self)) below
        · rwa [← List.mem_singleton.mp single]
      have value := constant last.1 (le_of_lt (high last (by simp))) final
      rw [List.append_assoc, lookup_append_of_above fun upper inside => descending upper inside last List.mem_cons_self,
        lookup_append_of_mem List.mem_cons_self (le_refl _), lookup_eq_latest (by simp)] at value
      exact joined last List.getLast?_concat value
  · rintro none between above' below
    have high' : ∀ entry ∈ above, between < entry.1 := fun entry member =>
      not_le.mp fun lower => none ⟨entry, member, le_trans lower below⟩
    rw [lookup_append_of_above high', lookup_eq_latest fun entry member => le_trans (low entry member) above']

/-- The value is set from the height up to the next change. -/
theorem Valid.add (valid : Valid history) (positive : 0 < height.toNat) (value : α) :
    Valid (history.add height value) ∧ (history.add height value).get = setFrom history.get height value := by
  obtain ⟨above, lower, rfl, _, _, high, low, steps, canonical, _⟩ := valid.split height
  obtain ⟨canonical', subset, looked⟩ := @add_spec _ _ _ value _ _ positive steps high _ canonical low
  refine ⟨⟨canonical', ?_⟩, ?_⟩
  · intro entry member
    obtain same | inside := subset entry member
    · rwa [same]
    · exact valid.positive entry inside
  · have function : HeightIndexedHistoryMap.get ⟨above ++ lower⟩ = lookup default (above ++ lower) := funext fun other => get_eq_lookup _ other
    funext other
    rw [get_eq_lookup, looked, setFrom, function]
    have constant := constant_iff valid.canonical high low other
    by_cases less : other < height
    · rw [if_pos less, if_neg fun both => not_le.mpr less both.1, lookup_append_of_above fun entry member => lt_trans less (high entry member)]
    · rw [if_neg less]
      by_cases found : ∃ entry ∈ above, entry.1 ≤ other
      · rw [if_pos found, if_neg fun both => constant.mp both.2 found]
        obtain ⟨entry, member, below⟩ := found
        rw [lookup_append_of_mem member below]
      · rw [if_neg found, if_pos ⟨not_lt.mp less, constant.mpr found⟩]

/-- Queries below the height return the default and the other ones do not change. -/
theorem Valid.pruneLess (valid : Valid history) (height : Height) :
    Valid (history.pruneLess height) ∧ (history.pruneLess height).get = fun other => if other < height then default else history.get other := by
  obtain ⟨above, lower, same, upper, bound, high, low, steps, canonical, joined⟩ := valid.split height
  unfold HeightIndexedHistoryMap.pruneLess
  rw [upper, bound]
  cases lower with
  | nil =>
    refine ⟨valid, ?_⟩
    funext other
    dsimp only
    split
    · next less =>
      rw [same, get_eq_lookup, lookup_append_of_above fun entry member => lt_trans less (high entry member)]
      rfl
    · rfl
  | cons entry rest =>
    have inside : entry ∈ history.entries := by
      rw [same]
      exact List.mem_append_right _ List.mem_cons_self
    have positive : 0 < height.toNat := Nat.lt_of_lt_of_le (valid.positive entry inside) (UInt64.le_iff_toNat_le.mp (low entry List.mem_cons_self))
    obtain ⟨canonical', subset, looked⟩ := @add_spec _ _ _ entry.2 _ _ positive steps high _ canonical_nil nofun
    rw [List.append_nil] at canonical' subset looked
    refine ⟨⟨canonical', ?_⟩, ?_⟩
    · intro other member
      obtain equal | kept := subset other member
      · rwa [equal]
      · refine valid.positive other ?_
        rw [same]
        exact List.mem_append_left _ kept
    · funext other
      dsimp only
      rw [get_eq_lookup, looked, same, get_eq_lookup]
      by_cases less : other < height
      · rw [if_pos less, if_pos less]
        rfl
      · rw [if_neg less, if_neg less]
        split
        · next found =>
          obtain ⟨upper, member, below⟩ := found
          rw [lookup_append_of_mem member below]
        · next none =>
          rw [lookup_append_of_above fun upper member => not_le.mp fun below => none ⟨upper, member, below⟩,
            lookup_eq_latest fun lower member => le_trans (low lower member) (not_lt.mp less)]
          rfl

omit [DecidableEq α] in
/-- The value at the height is extended upwards. -/
theorem Valid.pruneGreater (valid : Valid history) (height : Height) :
    Valid (history.pruneGreater height) ∧ (history.pruneGreater height).get = fun other => history.get (min other height) := by
  obtain ⟨above, lower, same, _, bound, high, low, _, canonical, _⟩ := valid.split height
  unfold HeightIndexedHistoryMap.pruneGreater
  rw [bound]
  refine ⟨⟨canonical, ?_⟩, ?_⟩
  · intro entry member
    refine valid.positive entry ?_
    rw [same]
    exact List.mem_append_right _ member
  · funext other
    rw [same, get_eq_lookup, get_eq_lookup,
      lookup_append_of_above fun entry member => lt_of_le_of_lt (min_le_right other height) (high entry member)]
    obtain below | above' := le_total other height
    · rw [min_eq_left below]
    · rw [min_eq_right above', lookup_eq_latest low, lookup_eq_latest fun entry member => le_trans (low entry member) above']

end Operations

/-- The operations that change a history. -/
inductive HistoryOperation (α : Type) where
  | add (height : Height) (value : α)
  | pruneLess (height : Height)
  | pruneGreater (height : Height)

namespace HistoryOperation

variable {α : Type} [Inhabited α] [DecidableEq α]

def apply (history : HeightIndexedHistoryMap α) : HistoryOperation α → HeightIndexedHistoryMap α
  | .add height value => history.add height value
  | .pruneLess height => history.pruneLess height
  | .pruneGreater height => history.pruneGreater height

/-- What an operation does to the function of a history. -/
noncomputable def change (f : Height → α) : HistoryOperation α → Height → α
  | .add height value => setFrom f height value
  | .pruneLess height => fun other => if other < height then default else f other
  | .pruneGreater height => fun other => f (min other height)

/-- Values are added at the heights of blocks. -/
def IsPositive : HistoryOperation α → Prop
  | .add height _ => 0 < height.toNat
  | _ => True

theorem apply_valid {history : HeightIndexedHistoryMap α} (valid : Valid history) {operation : HistoryOperation α} (positive : operation.IsPositive) :
    Valid (apply history operation) ∧ (apply history operation).get = change history.get operation := by
  cases operation with
  | add height value => exact valid.add positive value
  | pruneLess height => exact valid.pruneLess height
  | pruneGreater height => exact valid.pruneGreater height

theorem foldl_valid {history : HeightIndexedHistoryMap α} (valid : Valid history) {operations : List (HistoryOperation α)}
    (positive : ∀ operation ∈ operations, operation.IsPositive) :
    Valid (operations.foldl apply history) ∧ (operations.foldl apply history).get = operations.foldl change history.get := by
  induction operations generalizing history with
  | nil => exact ⟨valid, rfl⟩
  | cons operation operations ih =>
    obtain ⟨next, function⟩ := apply_valid valid (positive operation List.mem_cons_self)
    obtain ⟨last, functions⟩ := ih next fun other member => positive other (List.mem_cons_of_mem _ member)
    refine ⟨last, functions.trans ?_⟩
    rw [function, List.foldl_cons]

end HistoryOperation

theorem valid_empty {α : Type} [Inhabited α] : Valid (⟨[]⟩ : HeightIndexedHistoryMap α) := ⟨canonical_nil, nofun⟩

/-- Every sequence of operations gives the canonical representation of its step function. -/
theorem history_canonical (α : Type) [Inhabited α] [DecidableEq α] (operations : List (HistoryOperation α))
    (positive : ∀ operation ∈ operations, operation.IsPositive) :
    (operations.foldl HistoryOperation.apply ⟨[]⟩).get = operations.foldl HistoryOperation.change (fun _ => default) ∧
      Canonical default (operations.foldl HistoryOperation.apply ⟨[]⟩).entries ∧
      ∀ others : List (HistoryOperation α), (∀ operation ∈ others, operation.IsPositive) →
        (others.foldl HistoryOperation.apply ⟨[]⟩).get = (operations.foldl HistoryOperation.apply ⟨[]⟩).get →
        others.foldl HistoryOperation.apply ⟨[]⟩ = operations.foldl HistoryOperation.apply ⟨[]⟩ := by
  obtain ⟨valid, function⟩ := HistoryOperation.foldl_valid valid_empty positive
  refine ⟨function, valid.canonical, ?_⟩
  intro others positive' same
  obtain ⟨valid', _⟩ := HistoryOperation.foldl_valid valid_empty positive'
  have entries := valid'.canonical.ext valid.canonical fun height => by
    rw [← get_eq_lookup, ← get_eq_lookup, same]
  exact congrArg HeightIndexedHistoryMap.mk entries

namespace Samples

/-- The second addition swallows the first one. -/
theorem swallowed : (⟨[(3, 7)]⟩ : HeightIndexedHistoryMap Nat).get = [.add 5 7, .add 3 7].foldl HistoryOperation.change (fun _ => 0) :=
  (history_canonical Nat [.add 5 7, .add 3 7] (by
    intro operation member
    obtain rfl | rfl : operation = .add 5 7 ∨ operation = .add 3 7 := by simpa using member
    · exact (by decide : 0 < (5 : UInt64).toNat)
    · exact (by decide : 0 < (3 : UInt64).toNat))).1

end Samples

end Catapult.Finalization.HeightIndexedHistoryMap
