import Catapult.Construction.Cache.BlockStatisticCache
import Catapult.Proof.Delta.Iteration

/-
This file shows that the cache of block statistics and its deltas follow their chain through all operations and reloads.
-/

namespace Catapult.Cache

open Catapult.Delta ByteStream

section Chains

/-- The blocks of a chain are numbered from one. -/
def Numbered (chain : List BlockStatistic) : Prop :=
  ∀ index statistic, chain[index]? = some statistic → statistic.height.toNat = index + 1

variable {chain : List BlockStatistic}

theorem Numbered.height_getElem (numbered : Numbered chain) {index : Nat} (inside : index < chain.length) :
    chain[index].height.toNat = index + 1 :=
  numbered index _ (List.getElem?_eq_getElem inside)

theorem Numbered.length_lt (numbered : Numbered chain) : chain.length < 2 ^ 64 := by
  obtain none | some := Nat.eq_zero_or_pos chain.length
  · omega
  · have last := numbered.height_getElem (show chain.length - 1 < chain.length by omega)
    have small := chain[chain.length - 1].height.toNat_lt
    omega

theorem numbered_nil : Numbered [] := by
  intro index statistic found
  cases found

theorem Numbered.append (numbered : Numbered chain) {statistic : BlockStatistic} (next : statistic.height.toNat = chain.length + 1) :
    Numbered (chain ++ [statistic]) := by
  intro index other found
  rw [List.getElem?_append] at found
  split at found
  · exact numbered index other found
  · next beyond =>
    obtain ⟨zero, same⟩ := List.getElem?_eq_some_iff.mp found
    rw [List.length_singleton] at zero
    simp only [show index - chain.length = 0 by omega, List.getElem_cons_zero] at same
    rw [← same, next]
    omega

theorem Numbered.take (numbered : Numbered chain) (count : Nat) : Numbered (chain.take count) := by
  intro index statistic found
  rw [List.getElem?_take] at found
  split at found
  · exact numbered index statistic found
  · cases found

theorem Numbered.of_append {last : List BlockStatistic} (numbered : Numbered (chain ++ last)) : Numbered chain := by
  have first := numbered.take chain.length
  rwa [List.take_left] at first

def Before (first second : BlockStatistic) : Prop := first.height < second.height

instance : Std.Irrefl Before := ⟨fun statistic => UInt64.lt_irrefl statistic.height⟩

instance : Std.Antisymm Before := ⟨fun _ _ less greater => absurd (UInt64.lt_trans less greater) (UInt64.lt_irrefl _)⟩

theorem Numbered.pairwise (numbered : Numbered chain) (dropped : Nat) : (chain.drop dropped).Pairwise Before := by
  refine List.Pairwise.sublist (List.drop_sublist _ _) (List.pairwise_iff_getElem.mpr fun first second inside inside' less => ?_)
  rw [Before, UInt64.lt_iff_toNat_lt, numbered.height_getElem, numbered.height_getElem]
  omega

/-- The elements behind a number of dropped blocks have greater heights. -/
theorem Numbered.mem_drop (numbered : Numbered chain) {dropped : Nat} {statistic : BlockStatistic} :
    statistic ∈ chain.drop dropped ↔ dropped < statistic.height.toNat ∧ chain[statistic.height.toNat - 1]? = some statistic := by
  constructor
  · intro member
    obtain ⟨index, inside, same⟩ := List.getElem_of_mem member
    rw [List.length_drop] at inside
    rw [List.getElem_drop] at same
    have height := numbered.height_getElem (show dropped + index < chain.length by omega)
    rw [same] at height
    refine ⟨by omega, ?_⟩
    rw [height, Nat.add_sub_cancel, ← same]
    exact List.getElem?_eq_getElem _
  · rintro ⟨great, found⟩
    obtain ⟨inside, same⟩ := List.getElem?_eq_some_iff.mp found
    refine List.mem_iff_getElem.mpr ⟨statistic.height.toNat - 1 - dropped, ?_, ?_⟩
    · rw [List.length_drop]
      omega
    · simp only [List.getElem_drop, show dropped + (statistic.height.toNat - 1 - dropped) = statistic.height.toNat - 1 by omega, same]

end Chains

/-- An ordered set lists its elements by height. -/
def Ascending (set : StatisticSet) : Prop := set.elements.Pairwise fun first second => first.height ≤ second.height

theorem ascending_empty : Ascending .empty := List.Pairwise.nil

theorem Ascending.erase {set : StatisticSet} (ascending : Ascending set) (height : Height) : Ascending (set.erase height) :=
  ascending.sublist List.filter_sublist

instance : Std.Total fun first second : BlockStatistic => first.height ≤ second.height := ⟨fun _ _ => UInt64.le_total _ _⟩

instance : IsTrans BlockStatistic fun first second => first.height ≤ second.height := ⟨fun _ _ _ => UInt64.le_trans⟩

theorem Ascending.insert {set : StatisticSet} (ascending : Ascending set) (statistic : BlockStatistic) : Ascending (set.insert statistic) := by
  unfold KeyedSet.insert
  split
  · exact List.Pairwise.orderedInsert statistic set.elements ascending
  · exact ascending

/-- The heights of an ordered set are distinct. -/
theorem Ascending.strict {set : StatisticSet} (ascending : Ascending set) : set.elements.Pairwise Before := by
  have distinct := List.pairwise_map.mp set.distinct
  refine (ascending.and distinct).imp fun related => ?_
  exact UInt64.lt_of_le_of_ne related.1 related.2

/-- The delta shows the blocks of the chain behind the dropped ones; its base shows those of another chain. -/
structure Shows (delta : StatisticDelta) (base chain : List BlockStatistic) (dropped : Nat) : Prop where
  originals : delta.originalElements.elements = base.drop dropped
  consistent : Consistent delta
  ascending : Ascending delta.addedElements
  above : ∀ statistic ∈ delta.addedElements.elements, base.length < statistic.height.toNat
  found : ∀ height, delta.find height = if dropped < height.toNat then chain[height.toNat - 1]? else none

namespace Shows

variable {delta : StatisticDelta} {base chain : List BlockStatistic} {dropped : Nat}

theorem ofSet {elements : StatisticSet} (numbered : Numbered base) (same : elements.elements = base.drop dropped) :
    Shows (.ofSet elements) base base dropped where
  originals := same
  consistent := consistent_ofSet elements
  ascending := ascending_empty
  above _ member := absurd member List.not_mem_nil
  found height := by
    rw [find_ofSet]
    apply Option.ext
    intro statistic
    rw [KeyedSet.find_eq_some_iff, same, numbered.mem_drop]
    constructor
    · rintro ⟨⟨great, inside⟩, rfl⟩
      rw [← inside]
      exact if_pos great
    · intro found
      split at found
      · next great =>
        have keyed : statistic.height = height := by
          apply UInt64.toNat_inj.mp
          rw [numbered _ _ found]
          omega
        subst keyed
        exact ⟨⟨great, found⟩, rfl⟩
      · cases found

/-- The iteration visits the blocks behind the dropped ones in order. -/
theorem visibleElements_eq (shows : Shows delta base chain dropped) (numberedBase : Numbered base) (numbered : Numbered chain) :
    (makeIterableView delta).visibleElements = chain.drop dropped := by
  refine List.Pairwise.eq_of_mem_iff (r := Before) ?_ (numbered.pairwise dropped) fun statistic => ?_
  · have all : (delta.originalElements.elements ++ delta.addedElements.elements).Pairwise Before := by
      rw [shows.originals]
      refine List.pairwise_append.mpr ⟨numberedBase.pairwise dropped, shows.ascending.strict, fun original member added inside => ?_⟩
      have great := shows.above added inside
      obtain ⟨_, found⟩ := numberedBase.mem_drop.mp member
      obtain ⟨below, _⟩ := List.getElem?_eq_some_iff.mp found
      rw [Before, UInt64.lt_iff_toNat_lt]
      omega
    have heights := (List.pairwise_map (f := statisticKeying.toKey) (R := (· < ·))).mpr
      (all.sublist (List.filter_sublist (p := (makeIterableView delta).visibleAdded)))
    rw [← keys_visibleElements delta] at heights
    exact (List.pairwise_map (f := statisticKeying.toKey)).mp heights
  · rw [shows.consistent.mem_visibleElements, shows.found, numbered.mem_drop]
    change (if dropped < statistic.height.toNat then chain[statistic.height.toNat - 1]? else none) = some statistic ↔ _
    split
    · next great => simp [great]
    · next small => simp [small]

theorem size_eq (shows : Shows delta base chain dropped) (numberedBase : Numbered base) (numbered : Numbered chain) :
    delta.size = UInt64.ofNat (chain.length - dropped) := by
  rw [shows.consistent.size_visibleElements, shows.visibleElements_eq numberedBase numbered, List.length_drop]

theorem empty_iff (shows : Shows delta base chain dropped) (numberedBase : Numbered base) (numbered : Numbered chain) :
    delta.empty = true ↔ chain.length ≤ dropped := by
  have fits := numbered.length_lt
  rw [BaseSetDelta.empty, shows.size_eq numberedBase numbered, beq_iff_eq, ← UInt64.toNat_inj,
    UInt64.toNat_ofNat_of_lt' (show chain.length - dropped < 2 ^ 64 by omega)]
  change 0 = _ ↔ _
  omega

theorem iterableStatistics_eq (shows : Shows delta base chain dropped) (numberedBase : Numbered base) (numbered : Numbered chain) :
    iterableStatistics delta = some (chain.drop dropped) := by
  have visible := shows.visibleElements_eq numberedBase numbered
  have fits := numbered.length_lt
  have count : (makeIterableView delta).visibleElements.length ≤ delta.originalElements.length + delta.addedElements.length := by
    rw [BaseSetDeltaIterationView.visibleElements, List.length_append]
    exact Nat.add_le_add (List.length_filterMap_le _ _) (List.length_filter_le _ _)
  rw [iterableStatistics, BaseSetDeltaIterationView.collect_eq shows.consistent.size_visibleElements
    (by rw [visible, List.length_drop]; omega) (by omega), visible]

/-- Blocks of the base that are not dropped are original elements of the delta. -/
theorem contains_original (shows : Shows delta base chain dropped) (numberedBase : Numbered base) {height : Height}
    (great : dropped < height.toNat) (inside : height.toNat ≤ base.length) : delta.originalElements.contains height = true := by
  have bound : height.toNat - 1 < base.length := by omega
  have keyed : base[height.toNat - 1].height = height := by
    apply UInt64.toNat_inj.mp
    rw [numberedBase.height_getElem]
    omega
  refine KeyedSet.contains_eq_true_iff.mpr ⟨base[height.toNat - 1], KeyedSet.find_eq_some_iff.mpr ⟨?_, keyed⟩⟩
  rw [shows.originals, numberedBase.mem_drop, keyed]
  exact ⟨great, List.getElem?_eq_getElem bound⟩

/-- The next block of the chain is inserted behind the last one. -/
theorem insert (shows : Shows delta base chain dropped) (numberedBase : Numbered base) {statistic : BlockStatistic}
    (next : statistic.height.toNat = chain.length + 1) (le : dropped ≤ chain.length) :
    Shows (delta.insert statistic).2 base (chain ++ [statistic]) dropped := by
  have inserted := BaseSetDelta.insert_eq shows.consistent statistic
  change _ = if delta.originalElements.contains statistic.height = true then _ else _ at inserted
  refine ⟨?_, shows.consistent.insert statistic, ?_, ?_, fun height => ?_⟩
  · rw [inserted]
    split <;> simp [BaseSetDelta.replaceCopied, BaseSetDelta.replaceAdded, BaseSetDelta.markKey, shows.originals]
  · rw [inserted]
    split
    · simpa [BaseSetDelta.replaceCopied, BaseSetDelta.markKey] using shows.ascending
    · simpa [BaseSetDelta.replaceAdded, BaseSetDelta.markKey] using (shows.ascending.erase _).insert statistic
  · intro other member
    rw [inserted] at member
    split at member
    · exact shows.above other (by simpa [BaseSetDelta.replaceCopied, BaseSetDelta.markKey] using member)
    · next missing =>
      -- a block that is not among the original elements has a number behind the base
      have beyond : base.length < statistic.height.toNat := by
        by_contra within
        exact missing (shows.contains_original numberedBase (by omega) (Nat.not_lt.mp within))
      have listed : other ∈ ((delta.addedElements.erase statistic.height).insert statistic).elements := by
        rw [← BaseSetDelta.unremove_added delta statistic.height]
        exact member
      have found := KeyedSet.find_eq_some_iff.mpr ⟨listed, rfl⟩
      rw [show statistic.height = statisticKeying.toKey statistic from rfl, KeyedSet.find_erase_insert] at found
      split at found
      · cases found
        exact beyond
      · exact shows.above other (KeyedSet.find_eq_some_iff.mp found).1
  · rw [shows.consistent.find_insert, shows.found]
    change (if height = statistic.height then _ else _) = _
    by_cases same : height = statistic.height
    · subst same
      rw [if_pos rfl, if_pos (by omega), next, Nat.add_sub_cancel, List.getElem?_concat_length]
    · rw [if_neg same]
      have different : height.toNat ≠ chain.length + 1 := fun equal => same (UInt64.toNat_inj.mp (equal.trans next.symm))
      split
      · rw [List.getElem?_append]
        split
        · rfl
        · next great =>
          rw [List.getElem?_eq_none (by omega), List.getElem?_eq_none (by rw [List.length_singleton]; omega)]
      · rfl

/-- The last block of the chain is removed. -/
theorem remove {statistic : BlockStatistic} (shows : Shows delta base (chain ++ [statistic]) dropped)
    (last : statistic.height.toNat = chain.length + 1) : Shows (delta.remove statistic.height).2 base chain dropped := by
  have kept : (delta.remove statistic.height).2.originalElements = delta.originalElements ∧
      (delta.remove statistic.height).2.addedElements = delta.addedElements := by
    obtain ⟨_, same⟩ | ⟨element, copied, _, _, _, same⟩ := delta.remove_cases statistic.height
    · rw [same]
      exact ⟨rfl, rfl⟩
    · rw [same]
      exact ⟨rfl, rfl⟩
  refine ⟨?_, shows.consistent.remove _, ?_, ?_, fun height => ?_⟩
  · rw [kept.1]
    exact shows.originals
  · rw [kept.2]
    exact shows.ascending
  · rw [kept.2]
    exact shows.above
  · rw [Consistent.find_remove, shows.found]
    by_cases same : height = statistic.height
    · subst same
      rw [if_pos rfl, last, Nat.add_sub_cancel, List.getElem?_eq_none (Nat.le_refl _), ite_self]
    · rw [if_neg same]
      have different : height.toNat ≠ chain.length + 1 := fun equal => same (UInt64.toNat_inj.mp (equal.trans last.symm))
      split
      · rw [List.getElem?_append]
        split
        · rfl
        · next great =>
          rw [List.getElem?_eq_none (show chain.length ≤ height.toNat - 1 by omega),
            List.getElem?_eq_none (by rw [List.length_singleton]; omega)]
      · rfl

end Shows

variable {chain : List BlockStatistic} {dropped : Nat}

/-- A block behind the dropped ones is found at its position. -/
theorem findIdx?_drop (numbered : Numbered chain) {height : Height} (great : dropped < height.toNat) (inside : height.toNat ≤ chain.length) :
    (chain.drop dropped).findIdx? (fun statistic => statistic.height = height) = some (height.toNat - 1 - dropped) := by
  rw [List.findIdx?_eq_some_iff_getElem]
  have position : height.toNat - 1 - dropped < (chain.drop dropped).length := by
    rw [List.length_drop]
    omega
  refine ⟨position, ?_, fun index less => ?_⟩
  · rw [decide_eq_true_iff, List.getElem_drop, ← UInt64.toNat_inj, numbered.height_getElem]
    omega
  · rw [decide_eq_true_iff, List.getElem_drop, ← UInt64.toNat_inj, numbered.height_getElem]
    omega

/-- The last blocks of a chain, or all of them if there are fewer. -/
def lastBlocks (count : Nat) (chain : List BlockStatistic) : List BlockStatistic := chain.drop (chain.length - count)

/-- The range that ends at the last block consists of the last blocks as long as they have not been dropped. -/
theorem rangeOf_eq (numbered : Numbered chain) {height : Height} {count : UInt64} (last : height.toNat = chain.length)
    (some : dropped < chain.length) (positive : 0 < count.toNat) (kept : dropped = 0 ∨ dropped + count.toNat ≤ chain.length) :
    rangeOf (chain.drop dropped) height count = .ok (lastBlocks count.toNat chain) := by
  have head : (chain.drop dropped).head? = .some chain[dropped] := by
    rw [List.head?_drop, List.getElem?_eq_getElem some]
  have start := numbered.height_getElem some
  have difference : (height - chain[dropped].height).toNat = chain.length - (dropped + 1) := by
    rw [UInt64.toNat_sub_of_le _ _ (by rw [UInt64.le_iff_toNat_le]; omega), last, start]
  have others : (count - 1).toNat = count.toNat - 1 := UInt64.toNat_sub_of_le _ _ (by rw [UInt64.le_iff_toNat_le]; exact positive)
  -- the first height of the range is the greater one of two lower bounds
  obtain ⟨first, chosen, great, inside, position⟩ : ∃ first : Height,
      (if height - chain[dropped].height < count - 1 then chain[dropped].height else height - (count - 1)) = first ∧
        dropped < first.toNat ∧ first.toNat ≤ chain.length ∧ first.toNat - 1 = chain.length - count.toNat := by
    by_cases less : height - chain[dropped].height < count - 1
    · rw [UInt64.lt_iff_toNat_lt] at less
      exact ⟨_, if_pos (UInt64.lt_iff_toNat_lt.mpr less), by omega, by omega, by omega⟩
    · have great : (count - 1).toNat ≤ (height - chain[dropped].height).toNat := UInt64.le_iff_toNat_le.mp (UInt64.not_lt.mp less)
      have shifted : (height - (count - 1)).toNat = chain.length - (count.toNat - 1) := by
        rw [UInt64.toNat_sub_of_le _ _ (by rw [UInt64.le_iff_toNat_le]; omega), last, others]
      exact ⟨_, if_neg less, by omega, by omega, by omega⟩
  unfold rangeOf
  rw [findIdx?_drop numbered (by omega) (by omega), head]
  dsimp only
  rw [chosen, findIdx?_drop numbered great inside]
  dsimp only
  rw [if_pos (by omega), List.take_of_length_le (by rw [List.length_drop]; omega), List.drop_drop, lastBlocks, ← position]
  congr 2
  omega

/-- The cache delta holds the blocks of the chain behind the dropped ones. -/
structure Holds (delta : BlockStatisticCacheDelta) (base chain : List BlockStatistic) (dropped : Nat) : Prop where
  shows : Shows delta.orderedDelta base chain dropped
  numberedBase : Numbered base
  numbered : Numbered chain
  le : dropped ≤ chain.length
  started : dropped < chain.length → delta.startHeight.toNat = dropped + 1

namespace Holds

variable {delta : BlockStatisticCacheDelta} {base chain : List BlockStatistic} {dropped : Nat}

/-- The first visited element of a new delta is the first original element. -/
theorem head_iteratorAt {elements : StatisticSet} {first : BlockStatistic} {rest : List BlockStatistic} (listed : elements.elements = first :: rest)
    (some : (BaseSetDelta.ofSet elements).empty = false) :
    ((makeIterableView (BaseSetDelta.ofSet elements)).iteratorAt 0).iter.head? = .some first := by
  have size : ¬ (0 : UInt64) = (makeIterableView (BaseSetDelta.ofSet elements)).size := by
    intro zero
    rw [BaseSetDelta.empty] at some
    exact Bool.false_ne_true (some.symm.trans (beq_iff_eq.mpr zero))
  unfold BaseSetDeltaIterationView.iteratorAt
  rw [if_neg size]
  simp only [makeIterableView, BaseSetDelta.ofSet, BaseSetDelta.deltas, BaseSetDeltaIterationView.moveToValidElement, listed,
    BaseSetDeltaIterationView.handleOriginalStage, KeyedSet.contains_empty, KeyedSet.find_empty]
  rfl

theorem ofSet {elements : StatisticSet} (historySize : UInt64) (numbered : Numbered base) (same : elements.elements = base.drop dropped)
    (le : dropped ≤ base.length) : Holds (.ofSet elements historySize) base base dropped where
  shows := Shows.ofSet numbered same
  numberedBase := numbered
  numbered := numbered
  le := le
  started some := by
    have nonempty : (BaseSetDelta.ofSet elements).empty = false := by
      rw [Bool.eq_false_iff, ne_eq, (Shows.ofSet numbered same).empty_iff numbered numbered]
      omega
    have listed : elements.elements = base[dropped] :: base.drop (dropped + 1) := by
      rw [same, List.drop_eq_getElem_cons some]
    change (if (BaseSetDelta.ofSet elements).empty then 1 else _ : Height).toNat = _
    rw [nonempty, head_iteratorAt listed nonempty]
    exact numbered.height_getElem some

theorem empty_eq (holds : Holds delta base chain dropped) : delta.orderedDelta.empty = decide (chain.length ≤ dropped) := by
  rw [Bool.eq_iff_iff, decide_eq_true_iff]
  exact holds.shows.empty_iff holds.numberedBase holds.numbered

/-- The next height follows the last block. -/
theorem nextHeight_eq (holds : Holds delta base chain dropped) (some : dropped < chain.length) :
    delta.nextHeight = UInt64.ofNat (chain.length + 1) := by
  have start : delta.startHeight = UInt64.ofNat (dropped + 1) := by
    rw [← holds.started some, UInt64.ofNat_toNat]
  rw [BlockStatisticCacheDelta.nextHeight, start, holds.shows.size_eq holds.numberedBase holds.numbered, ← UInt64.ofNat_add]
  congr 1
  omega

theorem checkInsert_eq (holds : Holds delta base chain dropped) {height : Height} (next : height.toNat = chain.length + 1) :
    delta.checkInsert height = .ok (if chain.length ≤ dropped then { delta with startHeight := height } else delta) := by
  rw [BlockStatisticCacheDelta.checkInsert, holds.empty_eq]
  by_cases none : chain.length ≤ dropped
  · rw [if_pos (decide_eq_true none), if_pos none]
  · have same : height = UInt64.ofNat (chain.length + 1) := by rw [← next, UInt64.ofNat_toNat]
    rw [if_neg (by simpa using none), if_neg none, holds.nextHeight_eq (Nat.not_le.mp none), same, if_neg (not_not.mpr rfl)]

/-- The next block of the chain is inserted without an error. -/
theorem insert (holds : Holds delta base chain dropped) {statistic : BlockStatistic} (next : statistic.height.toNat = chain.length + 1) :
    ∃ inserted, delta.insert statistic = .ok inserted ∧ Holds inserted base (chain ++ [statistic]) dropped ∧
      inserted.historySize = delta.historySize ∧ inserted.pruningBoundary = delta.pruningBoundary := by
  have shows := holds.shows.insert holds.numberedBase next holds.le
  have numbered := holds.numbered.append next
  have le := holds.le
  have longer : dropped ≤ (chain ++ [statistic]).length := by
    rw [List.length_append]
    omega
  unfold BlockStatisticCacheDelta.insert
  rw [holds.checkInsert_eq next]
  by_cases none : chain.length ≤ dropped
  · rw [if_pos none]
    exact ⟨_, rfl, ⟨shows, holds.numberedBase, numbered, longer, fun _ => by rw [next]; omega⟩, rfl, rfl⟩
  · rw [if_neg none]
    exact ⟨_, rfl, ⟨shows, holds.numberedBase, numbered, longer, fun _ => holds.started (Nat.not_le.mp none)⟩, rfl, rfl⟩

/-- The last block of the chain is removed without an error. -/
theorem remove {statistic : BlockStatistic} (holds : Holds delta base (chain ++ [statistic]) dropped)
    (last : statistic.height.toNat = chain.length + 1) (le : dropped ≤ chain.length) :
    ∃ removed, delta.remove statistic = .ok removed ∧ Holds removed base chain dropped ∧
      removed.historySize = delta.historySize ∧ removed.pruningBoundary = delta.pruningBoundary := by
  have length : (chain ++ [statistic]).length = chain.length + 1 := List.length_append
  have checked : delta.checkRemove statistic.height = .ok () := by
    have next : delta.nextHeight = statistic.height + 1 := by
      rw [holds.nextHeight_eq (by omega), length, ← last, UInt64.ofNat_add, UInt64.ofNat_toNat]
      rfl
    rw [BlockStatisticCacheDelta.checkRemove, holds.empty_eq, if_neg (by simp only [decide_eq_true_eq]; omega), next,
      if_neg (not_not.mpr rfl)]
  refine ⟨{ delta with orderedDelta := (delta.orderedDelta.remove statistic.height).2 }, ?_, ⟨holds.shows.remove last,
    holds.numberedBase, holds.numbered.of_append, le, fun some => holds.started (by omega)⟩, rfl, rfl⟩
  unfold BlockStatisticCacheDelta.remove BlockStatisticCacheDelta.removeAt
  rw [checked]
  rfl

/-- The range that ends at the last block consists of the last blocks as long as they have not been dropped. -/
theorem statistics_eq (holds : Holds delta base chain dropped) {height : Height} {count : UInt64} (last : height.toNat = chain.length)
    (some : dropped < chain.length) (positive : 0 < count.toNat) (kept : dropped = 0 ∨ dropped + count.toNat ≤ chain.length) :
    delta.statistics height count = .ok (lastBlocks count.toNat chain) := by
  have nonzero : ¬ (height = 0 ∨ count = 0) := by
    rintro (zero | zero)
    · subst zero
      change 0 = chain.length at last
      omega
    · subst zero
      exact absurd positive (by decide)
  unfold BlockStatisticCacheDelta.statistics statisticsOf
  rw [holds.empty_eq, if_neg (by simp only [decide_eq_true_eq]; omega),
    if_neg nonzero, holds.shows.iterableStatistics_eq holds.numberedBase holds.numbered]
  exact rangeOf_eq holds.numbered last some positive kept

end Holds

section Views

variable {chain : List BlockStatistic} {dropped : Nat} {elements : StatisticSet}

/-- The view finds the same range in the committed elements. -/
theorem viewStatistics_eq (numbered : Numbered chain) (same : elements.elements = chain.drop dropped) {height : Height} {count : UInt64}
    (last : height.toNat = chain.length) (some : dropped < chain.length) (positive : 0 < count.toNat)
    (kept : dropped = 0 ∨ dropped + count.toNat ≤ chain.length) :
    viewStatistics elements height count = .ok (lastBlocks count.toNat chain) := by
  have nonempty : elements.elements.isEmpty = false := by
    rw [same, List.isEmpty_eq_false_iff, ne_eq, List.drop_eq_nil_iff]
    omega
  have nonzero : ¬ (height = 0 ∨ count = 0) := by
    rintro (zero | zero)
    · subst zero
      change 0 = chain.length at last
      omega
    · subst zero
      exact absurd positive (by decide)
  rw [viewStatistics, statisticsOf, nonempty, if_neg Bool.false_ne_true, if_neg nonzero, same]
  exact rangeOf_eq numbered last some positive kept

end Views

section Commit

theorem ascending_foldl_insert {set : StatisticSet} (ascending : Ascending set) (added : List BlockStatistic) :
    Ascending (added.foldl KeyedSet.insert set) := by
  induction added generalizing set with
  | nil => exact ascending
  | cons statistic added ih => exact ih (ascending.insert statistic)

theorem ascending_foldl_erase {set : StatisticSet} (ascending : Ascending set) (removed : List BlockStatistic) :
    Ascending (removed.foldl (fun elements statistic => elements.erase (statisticKeying.toKey statistic)) set) := by
  induction removed generalizing set with
  | nil => exact ascending
  | cons statistic removed ih => exact ih (ascending.erase _)

theorem ascending_foldlM_updateCopied {set updated : StatisticSet} (ascending : Ascending set) {copied : List BlockStatistic}
    (ran : copied.foldlM updateCopied set = .ok updated) : Ascending updated := by
  induction copied generalizing set with
  | nil =>
    cases ran
    exact ascending
  | cons statistic copied ih =>
    rw [List.foldlM_cons] at ran
    unfold updateCopied at ran
    split at ran
    · cases ran
    · exact ih ((ascending.erase _).insert statistic) ran

/-- The order of the elements survives a commit. -/
theorem ascending_updateSet {set updated : StatisticSet} (ascending : Ascending set) {deltas : DeltaElements statisticKeying}
    (ran : updateSet set deltas = .ok updated) : Ascending updated := by
  unfold updateSet at ran
  dsimp only at ran
  cases copied : deltas.copied.elements.foldlM updateCopied (deltas.added.elements.foldl KeyedSet.insert set) with
  | error message =>
    rw [copied] at ran
    cases ran
  | ok merged =>
    rw [copied] at ran
    cases ran
    exact ascending_foldl_erase (ascending_foldlM_updateCopied (ascending_foldl_insert ascending _) copied) _

variable {delta : BlockStatisticCacheDelta} {base chain : List BlockStatistic} {dropped : Nat}

theorem Numbered.ascending (numbered : Numbered chain) {set : StatisticSet} (same : set.elements = chain.drop dropped) : Ascending set := by
  unfold Ascending
  rw [same]
  exact (numbered.pairwise dropped).imp fun related => UInt64.le_of_lt related

/-- The updated set lists the blocks of the chain behind the dropped ones. -/
theorem Holds.updateSet_eq (holds : Holds delta base chain dropped) {elements : StatisticSet} (same : elements.elements = base.drop dropped) :
    ∃ updated, updateSet elements delta.orderedDelta.deltas = .ok updated ∧ updated.elements = chain.drop dropped := by
  have original : elements = delta.orderedDelta.originalElements := by
    have listed := same.trans holds.shows.originals.symm
    obtain ⟨_, _⟩ := elements
    cases listed
    rfl
  obtain ⟨updated, committed, found⟩ := holds.shows.consistent.commit
  have ran : updateSet elements delta.orderedDelta.deltas = .ok updated := by
    rw [original]
    unfold BaseSet.commit at committed
    dsimp only at committed
    cases applied : updateSet delta.orderedDelta.originalElements delta.orderedDelta.deltas with
    | error message =>
      rw [applied] at committed
      cases committed
    | ok set =>
      rw [applied] at committed
      cases committed
      rfl
  refine ⟨updated, ran, ?_⟩
  have strict := (ascending_updateSet (holds.numberedBase.ascending same) ran).strict
  refine List.Pairwise.eq_of_mem_iff (r := Before) strict (holds.numbered.pairwise dropped) fun statistic => ?_
  have search := found statistic.height
  rw [holds.shows.found] at search
  rw [holds.numbered.mem_drop]
  constructor
  · intro member
    have present : updated.find statistic.height = some statistic := KeyedSet.find_eq_some_iff.mpr ⟨member, rfl⟩
    rw [search] at present
    split at present
    · exact ⟨‹_›, present⟩
    · cases present
  · rintro ⟨great, inside⟩
    rw [if_pos great, inside] at search
    exact (KeyedSet.find_eq_some_iff.mp search).1

/-- The blocks below the boundary are dropped. -/
theorem dropWhile_drop (numbered : Numbered chain) (dropped : Nat) {boundary : Height} (positive : 1 ≤ boundary.toNat) :
    (chain.drop dropped).dropWhile (fun statistic => decide (statistic.height < boundary)) = chain.drop (max dropped (boundary.toNat - 1)) := by
  induction remaining : chain.length - dropped generalizing dropped with
  | zero =>
    rw [List.drop_eq_nil_of_le (by omega), List.drop_eq_nil_of_le (by omega)]
    rfl
  | succ count ih =>
    have some : dropped < chain.length := by omega
    have height := numbered.height_getElem some
    rw [List.drop_eq_getElem_cons some, List.dropWhile_cons]
    by_cases less : chain[dropped].height < boundary
    · rw [if_pos (decide_eq_true less), ih (dropped + 1) (by omega)]
      rw [UInt64.lt_iff_toNat_lt] at less
      congr 1
      omega
    · rw [if_neg (by simpa using less), ← List.drop_eq_getElem_cons some]
      rw [UInt64.lt_iff_toNat_lt] at less
      congr 1
      omega

/-- The number of dropped blocks after a commit. -/
def droppedAfter (delta : BlockStatisticCacheDelta) (dropped : Nat) : Nat :=
  match delta.pruningBoundary with
  | none => dropped
  | some boundary => max dropped (boundary.height.toNat - 1)

theorem Holds.commitDelta_eq (holds : Holds delta base chain dropped) {elements : StatisticSet} (same : elements.elements = base.drop dropped)
    (positive : ∀ boundary, delta.pruningBoundary = some boundary → 1 ≤ boundary.height.toNat) :
    ∃ pruned, commitDelta elements delta = .ok (pruned, { delta with orderedDelta := .ofSet pruned }) ∧
      pruned.elements = chain.drop (droppedAfter delta dropped) := by
  obtain ⟨updated, ran, listed⟩ := holds.updateSet_eq same
  unfold commitDelta droppedAfter
  rw [ran]
  cases boundary : delta.pruningBoundary with
  | none => exact ⟨_, rfl, listed⟩
  | some boundary' =>
    refine ⟨_, rfl, ?_⟩
    change updated.elements.dropWhile _ = _
    rw [listed]
    exact dropWhile_drop holds.numbered dropped (positive boundary' boundary)

end Commit

variable {delta : BlockStatisticCacheDelta} {base chain : List BlockStatistic} {dropped : Nat}

/-- A chunk appends its blocks to the chain. -/
theorem loadChunk_reads (holds : Holds delta base chain dropped) {added : List BlockStatistic} (numbered : Numbered (chain ++ added)) :
    ∃ loaded, Reads (loadChunk added.length delta) (added.flatMap statisticCodec.write) loaded ∧
      Holds loaded base (chain ++ added) dropped ∧ loaded.historySize = delta.historySize ∧
      loaded.pruningBoundary = delta.pruningBoundary := by
  induction added generalizing delta chain with
  | nil =>
    rw [List.append_nil]
    exact ⟨delta, Reads.pure delta, holds, rfl, rfl⟩
  | cons statistic added ih =>
    rw [List.append_cons] at numbered ⊢
    have next : statistic.height.toNat = chain.length + 1 :=
      numbered.of_append chain.length statistic (by rw [List.getElem?_concat_length])
    obtain ⟨inserted, ran, following, history, boundary⟩ := holds.insert next
    obtain ⟨loaded, reads, last, history', boundary'⟩ := ih following numbered
    refine ⟨loaded, ?_, last, history'.trans history, boundary'.trans boundary⟩
    rw [List.length_cons, loadChunk, List.flatMap_cons]
    exact (statisticCodec.reads _ statistic).bind (Reads.lift ran reads)

/-- The chunks follow each other until all blocks are loaded. -/
theorem loadChunks_reads {batchSize : Nat} (positive : 0 < batchSize) (rounds : Nat) {added : List BlockStatistic}
    (enough : added.length ≤ rounds) (numbered : Numbered (chain ++ added)) {elements : StatisticSet}
    (holds : Holds delta chain chain dropped) (same : elements.elements = chain.drop dropped) (unset : delta.pruningBoundary = none) :
    ∃ cache, Reads (loadChunks batchSize rounds added.length (elements, delta)) (added.flatMap statisticCodec.write) cache ∧
      cache.1.elements = (chain ++ added).drop dropped := by
  induction rounds generalizing delta chain added elements with
  | zero =>
    have none : added = [] := List.length_eq_zero_iff.mp (by omega)
    subst none
    rw [List.append_nil, List.length_nil, loadChunks]
    exact ⟨_, Reads.pure _, same⟩
  | succ rounds ih =>
    cases added with
    | nil =>
      rw [List.append_nil, List.length_nil, loadChunks]
      exact ⟨_, Reads.pure _, same⟩
    | cons statistic rest =>
      generalize listed : statistic :: rest = added at *
      have count : added.length = rest.length + 1 := by rw [← listed, List.length_cons]
      have chunk : (added.take batchSize).length = min batchSize (rest.length + 1) := by rw [List.length_take, count]
      have split : added.take batchSize ++ added.drop batchSize = added := List.take_append_drop _ _
      rw [← split, ← List.append_assoc] at numbered
      obtain ⟨loaded, reads, following, _, boundary⟩ := loadChunk_reads holds numbered.of_append
      obtain ⟨pruned, committed, kept⟩ := following.commitDelta_eq same fun _ set => by
        rw [boundary, unset] at set
        cases set
      have dropped_eq : droppedAfter loaded dropped = dropped := by rw [droppedAfter, boundary, unset]
      rw [dropped_eq] at kept
      have le := following.le
      have remaining : (added.drop batchSize).length = rest.length + 1 - min batchSize (rest.length + 1) := by
        rw [List.length_drop, count]
        omega
      -- the delta keeps its start height although its base has changed
      have renewed : Holds { loaded with orderedDelta := .ofSet pruned } (chain ++ added.take batchSize)
          (chain ++ added.take batchSize) dropped :=
        ⟨Shows.ofSet numbered.of_append kept, numbered.of_append, numbered.of_append, le, following.started⟩
      obtain ⟨cache, rereads, final⟩ := ih (by rw [remaining]; omega) numbered renewed kept (boundary.trans unset)
      refine ⟨cache, ?_, ?_⟩
      · rw [count, loadChunks, ← split, List.flatMap_append, ← chunk]
        refine reads.bind (Reads.lift committed ?_)
        rwa [chunk, ← remaining]
      · rw [final, List.append_assoc, split]

/-- A saved cache is loaded with the same elements. -/
theorem loadAll_eq {batchSize : Nat} (positive : 0 < batchSize) (historySize : UInt64) (numbered : Numbered chain) (le : dropped ≤ chain.length) :
    ∃ elements : StatisticSet, elements.elements = chain.drop dropped ∧
      loadAll historySize batchSize (saveStatistics (UInt64.ofNat (chain.length - dropped)) (chain.drop dropped)) = .ok (elements, []) := by
  have split : chain.take dropped ++ chain.drop dropped = chain := List.take_append_drop _ _
  have start : (chain.take dropped).length = dropped := by
    rw [List.length_take]
    omega
  have nothing : (KeyedSet.empty : StatisticSet).elements = (chain.take dropped).drop dropped := by
    rw [List.drop_eq_nil_of_le (by omega)]
    rfl
  have fits := numbered.length_lt
  have count : (UInt64.ofNat (chain.length - dropped)).toNat = (chain.drop dropped).length := by
    rw [UInt64.toNat_ofNat_of_lt' (by change _ < 2 ^ 64; omega), List.length_drop]
  obtain ⟨cache, reads, same⟩ := loadChunks_reads positive (chain.drop dropped).length (Nat.le_refl _) (by rwa [split])
    (Holds.ofSet historySize (numbered.take dropped) nothing (by omega)) nothing rfl
  rw [split] at same
  refine ⟨cache.1, same, ?_⟩
  have body : Reads (do
      let cache ← loadChunks batchSize (UInt64.ofNat (chain.length - dropped)).toNat (UInt64.ofNat (chain.length - dropped)).toNat
        (.empty, .ofSet .empty historySize)
      return cache.1) ((chain.drop dropped).flatMap statisticCodec.write) cache.1 := by
    rw [count]
    exact reads.mapped Prod.fst
  have all : Reads (loadAll historySize batchSize) _ _ := (Codec.word64.reads CacheError.fileIoError _).bind body
  have loaded := all []
  rwa [List.append_nil] at loaded

end Catapult.Cache
