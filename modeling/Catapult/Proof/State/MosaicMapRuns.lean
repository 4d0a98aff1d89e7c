import Catapult.Proof.State.CompactMosaicMap
import Mathlib.Data.List.TakeWhile
import Mathlib.Data.Set.Card

/-
This file proves that a mosaic map behaves as a finite map that is iterated with the optimized mosaic first.
-/

namespace Catapult.State

open SecondLevelStorage (insertIntoMap insertIntoArray)
open CompactMosaicMap

variable {map : CompactMosaicMap} {entries : List Mosaic} {id : MosaicId}

/-- The entries of the array that are passed by the search for the index of a new entry. -/
theorem takeWhile_lower {array : List Mosaic} {pair : Mosaic} (absent : ∀ entry ∈ array, entry.1 ≠ pair.1) :
    array.takeWhile (fun entry => !decide (pair.1 < entry.1)) = array.takeWhile fun entry => decide (entry.1 < pair.1) := by
  induction array with
  | nil => rfl
  | cons first array ih =>
    have same : (!decide (pair.1 < first.1)) = decide (first.1 < pair.1) := by
      rw [Bool.eq_iff_iff, Bool.not_eq_true', decide_eq_false_iff_not, decide_eq_true_iff, not_lt]
      exact ⟨fun le => lt_of_le_of_ne le (absent first List.mem_cons_self), le_of_lt⟩
    rw [List.takeWhile_cons, List.takeWhile_cons, same, ih fun entry member => absent entry (.tail _ member)]

/-- The second level takes an entry in the array or in the map. -/
theorem insertSecond_eq {rest : List Mosaic} {pair : Mosaic} (ascending : SortedMap.Ascending rest)
    (absent : ∀ entry ∈ rest, entry.1 ≠ pair.1) :
    (if ((secondOf rest).arrayStorage.takeWhile fun entry => !(pair.1 < entry.1)).length < arrayCapacity then
      (secondOf rest).insertIntoArray ((secondOf rest).arrayStorage.takeWhile fun entry => !(pair.1 < entry.1)).length pair
    else (secondOf rest).insertIntoMap pair) = secondOf (SortedMap.place pair rest) := by
  have array : (secondOf rest).arrayStorage = rest.take arrayCapacity := rfl
  have parts := List.take_append_drop arrayCapacity rest
  rw [array, takeWhile_lower fun entry member => absent entry (List.mem_of_mem_take member)]
  generalize lowerEq : (rest.take arrayCapacity).takeWhile (fun entry => decide (entry.1 < pair.1)) = lower
  have part : lower.Sublist (rest.take arrayCapacity) := lowerEq ▸ List.takeWhile_sublist _
  have whole := @List.takeWhile_append _ (fun entry : Mosaic => decide (entry.1 < pair.1))
    (rest.take arrayCapacity) (rest.drop arrayCapacity)
  rw [parts, lowerEq] at whole
  split
  · next inside =>
    have lowerAll : rest.takeWhile (fun entry => decide (entry.1 < pair.1)) = lower := by
      rw [whole]
      split
      · next complete =>
        -- every entry of an array with room is lower, so there is no map
        have short : rest.length ≤ arrayCapacity := by
          rw [List.length_take] at complete
          omega
        rw [List.drop_eq_nil_of_le short, List.takeWhile_nil, List.append_nil, part.eq_of_length complete]
      · rfl
    rw [insertIntoArray_eq ascending inside (part.length_le.trans (List.length_take_le' _ _)),
      SortedMap.place_eq_insertIdx, lowerAll]
  · next beyond =>
    have length := List.length_take_le arrayCapacity rest
    have shorter := part.length_le
    have full : (rest.take arrayCapacity).length = arrayCapacity := by omega
    have same : lower = rest.take arrayCapacity := part.eq_of_length (by omega)
    have above : ∀ entry ∈ rest.take arrayCapacity, entry.1 < pair.1 := by
      intro entry member
      rw [← same, ← lowerEq] at member
      have lower := List.mem_takeWhile_imp member
      exact of_decide_eq_true lower
    have placed : SortedMap.place pair rest = rest.take arrayCapacity ++ SortedMap.place pair (rest.drop arrayCapacity) := by
      rw [← SortedMap.place_append above, parts]
    have more : SortedMap.place pair (rest.drop arrayCapacity) ≠ [] :=
      List.ne_nil_of_mem (SortedMap.mem_place.mpr (.inl rfl))
    rw [placed, secondOf_append full more, insertIntoMap, secondOf_map,
      SortedMap.insert_of_absent fun entry member => absent entry (List.mem_of_mem_drop member)]
    rfl

/-- The order of mosaic ids with an optimized one. -/
theorem isLessThan_iff {optimized lhs rhs : MosaicId} :
    isLessThan optimized lhs rhs = true ↔ lhs ≠ rhs ∧ (optimized = lhs ∨ optimized ≠ rhs ∧ lhs < rhs) := by
  unfold isLessThan
  split
  · next same => simp [same]
  · next differ =>
    split
    · next either =>
      rw [Bool.or_eq_true, decide_eq_true_iff, decide_eq_true_iff] at either
      rw [decide_eq_true_iff]
      constructor
      · exact fun first => ⟨differ, .inl first⟩
      · rintro ⟨_, first | ⟨notSecond, _⟩⟩
        · exact first
        · exact either.resolve_right notSecond
    · next neither =>
      rw [Bool.or_eq_true, decide_eq_true_iff, decide_eq_true_iff, not_or] at neither
      rw [decide_eq_true_iff]
      constructor
      · exact fun less => ⟨differ, .inr ⟨neither.2, less⟩⟩
      · rintro ⟨_, first | ⟨_, less⟩⟩
        · exact absurd first neither.1
        · exact less

/-- A new entry goes to the first place if the other entries are ascending. -/
theorem ascending_of_isLessThan {optimized : MosaicId} {pair first : Mosaic} {rest : List Mosaic}
    (layered : Layered (first :: rest)) (inPlace : HeadInPlace optimized (first :: rest))
    (less : isLessThan optimized pair.1 first.1 = true) : SortedMap.Ascending (first :: rest) := by
  refine List.pairwise_cons.mpr ⟨?_, layered.2.2⟩
  rcases inPlace with isOptimized | lowest
  · obtain ⟨differ, same | ⟨other, _⟩⟩ := isLessThan_iff.mp less
    · exact absurd (same.symm.trans isOptimized.symm) differ
    · exact absurd isOptimized.symm other
  · exact lowest

theorem arrange_layered {optimized : MosaicId} {pair : Mosaic} (layered : Layered entries)
    (inPlace : HeadInPlace optimized entries) (valid : pair.1 ≠ 0) (absent : ∀ entry ∈ entries, entry.1 ≠ pair.1) :
    Layered (arrange optimized pair entries) := by
  cases entries with
  | nil => exact Layered.of_ascending (List.pairwise_singleton _ _) fun entry member => by rwa [List.mem_singleton.mp member]
  | cons first rest =>
    by_cases less : isLessThan optimized pair.1 first.1
    · rw [arrange, if_pos less]
      refine ⟨valid, ?_, ascending_of_isLessThan layered inPlace less⟩
      rintro entry (_ | ⟨_, member⟩)
      · exact ⟨layered.1, absent first List.mem_cons_self⟩
      · exact ⟨(layered.2.1 entry member).1, absent entry (.tail _ member)⟩
    · rw [arrange, if_neg less]
      refine ⟨layered.1, ?_, layered.2.2.place fun entry member => absent entry (.tail _ member)⟩
      intro entry member
      rcases SortedMap.mem_place.mp member with rfl | member
      · exact ⟨valid, Ne.symm (absent first List.mem_cons_self)⟩
      · exact layered.2.1 entry member

/-- A new mosaic is arranged among the entries. -/
theorem insert_holds {pair : Mosaic} (holds : Holds map entries) (inPlace : HeadInPlace map.optimizedMosaicId entries)
    (valid : pair.1 ≠ 0) (absent : ∀ entry ∈ entries, entry.1 ≠ pair.1) :
    ∃ inserted, map.insert pair = .ok inserted ∧ inserted.optimizedMosaicId = map.optimizedMosaicId ∧
      Holds inserted (arrange map.optimizedMosaicId pair entries) := by
  have notFound : (map.find pair.1).isSome = false := by
    rw [find_eq holds, Option.isSome_eq_false_iff, Option.isNone_iff_eq_none]
    exact List.find?_eq_none.mpr fun entry member => by simpa using absent entry member
  have layered := arrange_layered holds.layered inPlace valid absent
  unfold CompactMosaicMap.insert
  rw [if_neg valid, notFound, if_neg Bool.false_ne_true, isEmpty_eq holds, holds.storage]
  cases entries with
  | nil => exact ⟨_, rfl, rfl, rfl, layered⟩
  | cons first rest =>
    rw [List.isEmpty_cons, if_neg Bool.false_ne_true, storageOf]
    dsimp only
    rw [nextOf_getD]
    split
    · next less =>
      refine ⟨_, rfl, rfl, ?_, layered⟩
      dsimp only
      rw [arrange, if_pos less, insertIntoArray_eq holds.layered.2.2 (by decide) (Nat.zero_le _), storageOf]
      rfl
    · next notLess =>
      have second := insertSecond_eq holds.layered.2.2 fun entry member => absent entry (.tail _ member)
      have more : nextOf (SortedMap.place pair rest) = some (secondOf (SortedMap.place pair rest)) :=
        if_neg (List.ne_nil_of_mem (SortedMap.mem_place.mpr (.inl rfl)))
      have storage : storageOf (arrange map.optimizedMosaicId pair (first :: rest)) =
          ⟨first, some (secondOf (SortedMap.place pair rest))⟩ := by
        rw [arrange, if_neg notLess, storageOf, more]
      rw [← second] at storage
      split
      · next inside =>
        rw [if_pos inside] at storage
        exact ⟨_, rfl, rfl, storage.symm, layered⟩
      · next beyond =>
        rw [if_neg beyond] at storage
        exact ⟨_, rfl, rfl, storage.symm, layered⟩

theorem isLessThan_trans {optimized first second third : MosaicId} (lower : isLessThan optimized first second = true)
    (upper : isLessThan optimized second third = true) : isLessThan optimized first third = true := by
  rw [isLessThan_iff] at *
  obtain ⟨differ, rfl | ⟨notSecond, less⟩⟩ := lower
  · refine ⟨?_, .inl rfl⟩
    rintro rfl
    obtain ⟨_, same | ⟨other, _⟩⟩ := upper
    · exact differ same
    · exact other rfl
  · obtain ⟨_, same | ⟨notThird, more⟩⟩ := upper
    · exact absurd same notSecond
    · exact ⟨ne_of_lt (less.trans more), .inr ⟨notThird, less.trans more⟩⟩

theorem isLessThan_of_not {optimized first second : MosaicId} (differ : first ≠ second)
    (notLess : ¬isLessThan optimized first second = true) : isLessThan optimized second first = true := by
  rw [isLessThan_iff, not_and, not_or] at *
  obtain ⟨notFirst, rest⟩ := notLess differ
  refine ⟨Ne.symm differ, ?_⟩
  by_cases isSecond : optimized = second
  · exact .inl isSecond
  · exact .inr ⟨notFirst, lt_of_le_of_ne (not_lt.mp fun less => rest ⟨isSecond, less⟩) (Ne.symm differ)⟩

theorem Sorted.of_ascending {optimized : MosaicId} (ascending : SortedMap.Ascending entries)
    (absent : ∀ entry ∈ entries, entry.1 ≠ optimized) : Sorted optimized entries :=
  List.Pairwise.imp_of_mem (fun _ memberUpper less =>
    isLessThan_iff.mpr ⟨ne_of_lt less, .inr ⟨Ne.symm (absent _ memberUpper), less⟩⟩) ascending

/-- The optimized mosaic is not after the first entry. -/
theorem Sorted.absent_rest {optimized : MosaicId} {first : Mosaic} {rest : List Mosaic}
    (sorted : Sorted optimized (first :: rest)) : ∀ entry ∈ rest, entry.1 ≠ optimized := by
  intro entry member
  obtain ⟨differ, same | ⟨other, _⟩⟩ := isLessThan_iff.mp ((List.pairwise_cons.mp sorted).1 entry member)
  · exact same.symm ▸ Ne.symm differ
  · exact Ne.symm other

theorem Sorted.headInPlace {optimized : MosaicId} (sorted : Sorted optimized entries) : HeadInPlace optimized entries := by
  cases entries with
  | nil => trivial
  | cons first rest =>
    by_cases same : first.1 = optimized
    · exact .inl same
    · refine .inr fun entry member => ?_
      obtain ⟨_, isFirst | ⟨_, less⟩⟩ := isLessThan_iff.mp ((List.pairwise_cons.mp sorted).1 entry member)
      · exact absurd isFirst.symm same
      · exact less

theorem mem_arrange {optimized : MosaicId} {pair other : Mosaic} :
    other ∈ arrange optimized pair entries ↔ other = pair ∨ other ∈ entries := by
  cases entries with
  | nil => exact List.mem_singleton.trans ⟨.inl, fun either => either.resolve_right fun member => nomatch member⟩
  | cons first rest =>
    rw [arrange]
    split
    · exact List.mem_cons
    · rw [List.mem_cons, SortedMap.mem_place, List.mem_cons]
      tauto

theorem Sorted.arrange {optimized : MosaicId} {pair : Mosaic} (sorted : Sorted optimized entries)
    (layered : Layered entries) (absent : ∀ entry ∈ entries, entry.1 ≠ pair.1) :
    Sorted optimized (arrange optimized pair entries) := by
  cases entries with
  | nil => exact List.pairwise_singleton _ _
  | cons first rest =>
    obtain ⟨below, _⟩ := List.pairwise_cons.mp sorted
    by_cases less : isLessThan optimized pair.1 first.1
    · rw [State.arrange, if_pos less]
      refine List.pairwise_cons.mpr ⟨?_, sorted⟩
      rintro entry (_ | ⟨_, member⟩)
      · exact less
      · exact isLessThan_trans less (below entry member)
    · rw [State.arrange, if_neg less]
      have differ := Ne.symm (absent first List.mem_cons_self)
      have notOptimized : pair.1 ≠ optimized := fun same => less (isLessThan_iff.mpr ⟨differ, .inl same.symm⟩)
      refine List.pairwise_cons.mpr ⟨?_, Sorted.of_ascending
        (layered.2.2.place fun entry member => absent entry (.tail _ member)) ?_⟩
      · intro entry member
        rcases SortedMap.mem_place.mp member with rfl | member
        · exact isLessThan_of_not differ less
        · exact below entry member
      · intro entry member
        rcases SortedMap.mem_place.mp member with rfl | member
        · exact notOptimized
        · exact sorted.absent_rest entry member

/-- The entries besides the optimized one are ascending. -/
theorem ascending_of_headInPlace {optimized : MosaicId} (layered : Layered entries) (inPlace : HeadInPlace optimized entries) :
    SortedMap.Ascending (entries.filter fun entry => entry.1 ≠ optimized) := by
  cases entries with
  | nil => exact List.Pairwise.nil
  | cons first rest =>
    rcases inPlace with same | lowest
    · rw [List.filter_cons_of_neg (by simpa using same)]
      exact layered.2.2.sublist List.filter_sublist
    · exact List.Pairwise.sublist List.filter_sublist (List.pairwise_cons.mpr ⟨lowest, layered.2.2⟩)

theorem HeadInPlace.of_ascending {optimized : MosaicId} (ascending : SortedMap.Ascending entries) :
    HeadInPlace optimized entries := by
  cases entries with
  | nil => trivial
  | cons first rest => exact .inr (List.pairwise_cons.mp ascending).1

theorem HeadInPlace.arrange {optimized : MosaicId} {pair : Mosaic} (ascending : SortedMap.Ascending entries)
    (absent : ∀ entry ∈ entries, entry.1 ≠ pair.1) : HeadInPlace optimized (arrange optimized pair entries) := by
  cases entries with
  | nil => exact .inr fun _ member => nomatch member
  | cons first rest =>
    obtain ⟨below, _⟩ := List.pairwise_cons.mp ascending
    by_cases less : isLessThan optimized pair.1 first.1
    · rw [State.arrange, if_pos less]
      obtain ⟨_, same | ⟨_, lower⟩⟩ := isLessThan_iff.mp less
      · exact .inl same.symm
      · refine .inr ?_
        rintro entry (_ | ⟨_, member⟩)
        · exact lower
        · exact lower.trans (below entry member)
    · rw [State.arrange, if_neg less]
      obtain ⟨_, same | ⟨_, lower⟩⟩ :=
        isLessThan_iff.mp (isLessThan_of_not (Ne.symm (absent first List.mem_cons_self)) less)
      · exact .inl same.symm
      · refine .inr fun entry member => ?_
        rcases SortedMap.mem_place.mp member with rfl | member
        · exact lower
        · exact below entry member

theorem absent_filter (entries : List Mosaic) (id : MosaicId) :
    ∀ entry ∈ entries.filter fun entry => entry.1 ≠ id, entry.1 ≠ id :=
  fun _ member => of_decide_eq_true (List.mem_filter.mp member).2

/-- In a layered list every mosaic id has one entry. -/
theorem Layered.eq_of_key {entries : List Mosaic} (layered : Layered entries) {lhs rhs : Mosaic} (memberLhs : lhs ∈ entries)
    (memberRhs : rhs ∈ entries) (same : lhs.1 = rhs.1) : lhs = rhs := by
  cases entries with
  | nil => cases memberLhs
  | cons first rest =>
    rcases List.mem_cons.mp memberLhs with rfl | laterLhs
    · rcases List.mem_cons.mp memberRhs with rfl | laterRhs
      · rfl
      · exact absurd same.symm (layered.differ laterRhs)
    · rcases List.mem_cons.mp memberRhs with rfl | laterRhs
      · exact absurd same (layered.differ laterLhs)
      · exact layered.2.2.eq_of_key laterLhs laterRhs same

/-- A mosaic that is erased and inserted again keeps its entry. -/
theorem mem_arrange_filter {entries : List Mosaic} (layered : Layered entries) {optimized : MosaicId} {entry other : Mosaic}
    (member : entry ∈ entries) :
    other ∈ arrange optimized entry (entries.filter fun kept => kept.1 ≠ entry.1) ↔ other ∈ entries := by
  rw [mem_arrange, List.mem_filter, decide_eq_true_iff]
  constructor
  · rintro (rfl | ⟨kept, _⟩)
    · exact member
    · exact kept
  · intro present
    by_cases same : other.1 = entry.1
    · exact .inl (layered.eq_of_key present member same)
    · exact .inr ⟨present, same⟩

theorem Layered.valid {entries : List Mosaic} (layered : Layered entries) {entry : Mosaic} (member : entry ∈ entries) :
    entry.1 ≠ 0 := by
  cases member with
  | head => exact layered.1
  | tail _ later => exact (layered.2.1 entry later).1

theorem erase_optimized (map : CompactMosaicMap) (id : MosaicId) : (map.erase id).optimizedMosaicId = map.optimizedMosaicId := by
  unfold erase
  split <;> rfl

theorem update_optimized (map : CompactMosaicMap) (id : MosaicId) (amount : Amount) :
    (map.update id amount).optimizedMosaicId = map.optimizedMosaicId := by
  unfold update
  split <;> rfl

/-- The two outcomes of the reinsertion of a mosaic. -/
theorem reinsert_cases (holds : Holds map entries) (id : MosaicId)
    (inPlace : HeadInPlace map.optimizedMosaicId (entries.filter fun entry => entry.1 ≠ id)) :
    (map.reinsert id = .ok map ∧ ∀ entry ∈ entries, entry.1 ≠ id) ∨
    ∃ entry ∈ entries, entry.1 = id ∧ ∃ inserted, map.reinsert id = .ok inserted ∧
      inserted.optimizedMosaicId = map.optimizedMosaicId ∧
      Holds inserted (arrange map.optimizedMosaicId entry (entries.filter fun kept => kept.1 ≠ entry.1)) := by
  unfold reinsert
  rw [find_eq holds]
  cases found : entries.find? fun entry => entry.1 = id with
  | none => exact .inl ⟨rfl, fun entry member => by simpa using List.find?_eq_none.mp found entry member⟩
  | some entry =>
    have member := List.mem_of_find?_eq_some found
    have key : entry.1 = id := by simpa using List.find?_some found
    subst key
    have optimizedKept := erase_optimized map entry.1
    obtain ⟨inserted, result, optimized, held⟩ :=
      insert_holds (erase_holds holds entry.1) (optimizedKept.symm ▸ inPlace) (holds.layered.valid member) (absent_filter _ entry.1)
    rw [optimizedKept] at optimized held
    exact .inr ⟨entry, member, rfl, inserted, result, optimized, held⟩

/-- An optimization never fails, and it keeps the entries. -/
theorem optimize_holds (holds : Holds map entries) (sorted : Sorted map.optimizedMosaicId entries) (id : MosaicId) :
    ∃ optimized arranged, map.optimize id = .ok optimized ∧ optimized.optimizedMosaicId = id ∧
      Holds optimized arranged ∧ Sorted id arranged ∧ ∀ entry, entry ∈ arranged ↔ entry ∈ entries := by
  unfold optimize
  split
  · next same => exact ⟨map, entries, rfl, same.symm, holds, same ▸ sorted, fun _ => Iff.rfl⟩
  · have moved : Holds { map with optimizedMosaicId := id } entries := ⟨holds.storage, holds.layered⟩
    have ascending := ascending_of_headInPlace holds.layered sorted.headInPlace
    -- the previously optimized mosaic returns to its place
    obtain ⟨previous, placed, first, optimizedFirst, held, inPlace, members⟩ :
        ∃ previous placed, ({ map with optimizedMosaicId := id } : CompactMosaicMap).reinsert map.optimizedMosaicId =
            .ok previous ∧ previous.optimizedMosaicId = id ∧ Holds previous placed ∧ HeadInPlace id placed ∧
            ∀ entry, entry ∈ placed ↔ entry ∈ entries := by
      rcases reinsert_cases moved map.optimizedMosaicId (.of_ascending ascending) with
        ⟨result, absent⟩ | ⟨entry, member, key, inserted, result, optimized, held⟩
      · rw [filter_absent absent] at ascending
        exact ⟨_, entries, result, rfl, moved, .of_ascending ascending, fun _ => Iff.rfl⟩
      · rw [← key] at ascending
        exact ⟨inserted, _, result, optimized, held, .arrange ascending (absent_filter _ entry.1),
          fun _ => mem_arrange_filter holds.layered member⟩
    rw [first]
    have others := ascending_of_headInPlace held.layered inPlace
    rcases reinsert_cases held id (.of_ascending others) with
      ⟨result, absent⟩ | ⟨entry, member, key, inserted, result, optimized, heldNew⟩
    · rw [filter_absent absent] at others
      exact ⟨previous, placed, result, optimizedFirst, held, .of_ascending others absent, members⟩
    · subst key
      rw [optimizedFirst] at optimized heldNew
      have absent := absent_filter placed entry.1
      refine ⟨inserted, _, result, optimized, heldNew, ?_, fun _ => (mem_arrange_filter held.layered member).trans (members _)⟩
      exact (Sorted.of_ascending others absent).arrange (held.layered.sublist List.filter_sublist) absent

/-- The position of an iterator after a number of steps. -/
def positionAt (entries : List Mosaic) (step : Nat) : Position :=
  if entries.length ≤ step then .finished
  else if step = 0 then .value
  else if step ≤ arrayCapacity then .array (step - 1)
  else .map (step - 1 - arrayCapacity)

theorem start_eq (holds : Holds map entries) : map.start = positionAt entries 0 := by
  have empty := isEmpty_eq holds
  unfold isEmpty at empty
  unfold start
  cases entries with
  | nil => rw [if_neg (by simpa using empty)]; rfl
  | cons first rest => rw [if_pos (by simpa using empty)]; rfl

/-- An iterator points to the entries one after the other. -/
theorem current_eq (holds : Holds map entries) (step : Nat) : map.current (positionAt entries step) = entries[step]? := by
  unfold positionAt
  split
  · next beyond => exact (List.getElem?_eq_none beyond).symm
  · next inside =>
    cases entries with
    | nil => exact absurd (Nat.zero_le _) inside
    | cons first rest =>
      rw [List.length_cons, not_le] at inside
      split
      · next zero =>
        subst zero
        rw [current, holds.storage]
        rfl
      · next positive =>
        obtain ⟨index, rfl⟩ := Nat.exists_eq_succ_of_ne_zero positive
        have more : rest ≠ [] := List.ne_nil_of_length_pos (by omega)
        rw [Nat.succ_sub_one, List.getElem?_cons_succ]
        split
        · next inArray =>
          rw [current, holds.storage, storageOf, nextOf, if_neg more]
          exact List.getElem?_take_of_lt inArray
        · next inMap =>
          rw [current, holds.storage, storageOf, nextOf, if_neg more]
          dsimp only
          rw [Option.bind_some, secondOf_map, List.getElem?_drop]
          congr 1
          omega

theorem advance_value {first : Mosaic} {rest : List Mosaic} (next : map.storage.nextStorage = nextOf rest) :
    map.advance .value = positionAt (first :: rest) 1 := by
  rw [advance, next]
  cases rest with
  | nil => rfl
  | cons second rest => rfl

theorem advance_array {first : Mosaic} {rest : List Mosaic} {index : Nat} (next : map.storage.nextStorage = nextOf rest)
    (inside : index + 1 ≤ rest.length) (inArray : index + 1 ≤ arrayCapacity) :
    map.advance (.array index) = positionAt (first :: rest) (index + 1 + 1) := by
  have more : rest ≠ [] := List.ne_nil_of_length_pos (by omega)
  have length : (secondOf rest).arrayStorage.length = min arrayCapacity rest.length := List.length_take
  have entries : (first :: rest).length = rest.length + 1 := rfl
  rw [advance, next, nextOf, if_neg more]
  dsimp only
  rw [positionAt]
  split
  · next within =>
    rw [if_neg (by omega), if_neg (Nat.succ_ne_zero _), if_pos (by omega)]
    rfl
  · next last =>
    by_cases full : rest.length ≤ arrayCapacity
    · have none : (secondOf rest).mapStorage = none := if_pos full
      rw [none, Option.isSome_none, if_neg Bool.false_ne_true, if_pos (by omega)]
    · have some : (secondOf rest).mapStorage = some (rest.drop arrayCapacity) := if_neg full
      rw [some, Option.isSome_some, if_pos rfl, if_neg (by omega), if_neg (Nat.succ_ne_zero _), if_neg (by omega)]
      congr 1
      omega

theorem advance_map {first : Mosaic} {rest : List Mosaic} {index : Nat} (next : map.storage.nextStorage = nextOf rest)
    (inside : index + 1 ≤ rest.length) (inMap : arrayCapacity ≤ index) :
    map.advance (.map (index - arrayCapacity)) = positionAt (first :: rest) (index + 1 + 1) := by
  have more : rest ≠ [] := List.ne_nil_of_length_pos (by omega)
  have length : (rest.drop arrayCapacity).length = rest.length - arrayCapacity := List.length_drop
  have entries : (first :: rest).length = rest.length + 1 := rfl
  rw [advance, next, nextOf, if_neg more]
  dsimp only
  rw [secondOf_map, positionAt]
  split
  · next within =>
    rw [if_neg (by omega), if_neg (Nat.succ_ne_zero _), if_neg (by omega)]
    congr 1
    omega
  · next last => rw [if_pos (by omega)]

theorem advance_eq (holds : Holds map entries) (step : Nat) :
    map.advance (positionAt entries step) = positionAt entries (step + 1) := by
  by_cases beyond : entries.length ≤ step
  · rw [positionAt, if_pos beyond, positionAt, if_pos (by omega)]
    rfl
  · cases entries with
    | nil => exact absurd (Nat.zero_le _) beyond
    | cons first rest =>
      have next : map.storage.nextStorage = nextOf rest := congrArg FirstLevelStorage.nextStorage holds.storage
      have inside : step ≤ rest.length := by
        rw [List.length_cons] at beyond
        omega
      rw [positionAt, if_neg beyond]
      cases step with
      | zero => exact advance_value next
      | succ index =>
        rw [if_neg (Nat.succ_ne_zero _), Nat.succ_sub_one]
        split
        · next inArray => exact advance_array next inside inArray
        · next inMap => exact advance_map next inside (by omega)

/-- An iterator reaches its end after all entries. -/
theorem advance_iterate (holds : Holds map entries) (steps : Nat) : map.advance^[steps] map.start = positionAt entries steps := by
  induction steps with
  | zero => exact start_eq holds
  | succ steps ih => rw [Function.iterate_succ_apply', ih, advance_eq holds]

theorem iterateFrom_eq (holds : Holds map entries) (steps step : Nat) :
    map.iterateFrom steps (positionAt entries step) = (entries.drop step).take steps := by
  induction steps generalizing step with
  | zero => rfl
  | succ steps ih =>
    rw [iterateFrom, current_eq holds, advance_eq holds, ih]
    rcases Nat.lt_or_ge step entries.length with inside | beyond
    · rw [List.drop_eq_getElem_cons inside, List.take_succ_cons, List.getElem?_eq_getElem inside]
      rfl
    · rw [List.getElem?_eq_none beyond, List.drop_eq_nil_of_le beyond, List.drop_eq_nil_of_le (by omega),
        List.take_nil, List.take_nil]
      rfl

/-- The amounts of a finite map, and the mosaic that is iterated first. -/
structure MosaicContents where
  amounts : MosaicId → Option Amount
  optimized : MosaicId

inductive MapOperation where
  | insert (pair : Mosaic)
  | erase (id : MosaicId)
  | optimize (id : MosaicId)
  | update (id : MosaicId) (amount : Amount)

/-- A failed insertion changes nothing. -/
def MosaicContents.apply (contents : MosaicContents) : MapOperation → MosaicContents
  | .insert (id, amount) =>
    if id = 0 ∨ (contents.amounts id).isSome then contents
    else { contents with amounts := Function.update contents.amounts id (some amount) }
  | .erase id => { contents with amounts := Function.update contents.amounts id none }
  | .optimize id => { contents with optimized := id }
  | .update id amount =>
    if (contents.amounts id).isSome then
      { contents with amounts := Function.update contents.amounts id (some amount) }
    else contents

/-- An operation that throws leaves the map. -/
def applyOperation (map : CompactMosaicMap) : MapOperation → CompactMosaicMap
  | .insert pair => (map.insert pair).toOption.getD map
  | .erase id => map.erase id
  | .optimize id => (map.optimize id).toOption.getD map
  | .update id amount => map.update id amount

/-- The entries of a map are those of a finite map. -/
structure Represents (map : CompactMosaicMap) (contents : MosaicContents) (entries : List Mosaic) : Prop where
  holds : Holds map entries
  optimized : map.optimizedMosaicId = contents.optimized
  sorted : Sorted contents.optimized entries
  members : ∀ id amount, (id, amount) ∈ entries ↔ contents.amounts id = some amount

section Steps

variable {contents : MosaicContents}

theorem Represents.find (represents : Represents map contents entries) (id : MosaicId) :
    map.find id = (contents.amounts id).map fun amount => (id, amount) := by
  rw [find_eq represents.holds]
  cases found : entries.find? fun entry => entry.1 = id with
  | none =>
    cases known : contents.amounts id with
    | none => rfl
    | some amount =>
      have absent := List.find?_eq_none.mp found _ ((represents.members id amount).mpr known)
      exact absurd (decide_eq_true rfl) absent
  | some entry =>
    obtain ⟨key, amount⟩ := entry
    obtain rfl : key = id := by simpa using List.find?_some found
    rw [(represents.members key amount).mp (List.mem_of_find?_eq_some found)]
    rfl

theorem Represents.absent (represents : Represents map contents entries) {id : MosaicId}
    (none : contents.amounts id = none) : ∀ entry ∈ entries, entry.1 ≠ id := by
  rintro ⟨key, amount⟩ member rfl
  have known := (represents.members key amount).mp member
  rw [none] at known
  cases known

theorem Represents.insert_refused (represents : Represents map contents entries) {pair : Mosaic}
    (refused : pair.1 = 0 ∨ (contents.amounts pair.1).isSome) : ∃ error, map.insert pair = .error error := by
  unfold CompactMosaicMap.insert
  rw [represents.find]
  split
  · exact ⟨_, rfl⟩
  · next valid =>
    have present := refused.resolve_left valid
    exact ⟨_, if_pos (by rwa [Option.isSome_map])⟩

theorem Represents.insert_accepted (represents : Represents map contents entries) {id : MosaicId} {amount : Amount}
    (valid : id ≠ 0) (none : contents.amounts id = none) : ∃ inserted arranged, map.insert (id, amount) = .ok inserted ∧
      Represents inserted { contents with amounts := Function.update contents.amounts id (some amount) } arranged := by
  have absent := represents.absent none
  obtain ⟨inserted, result, optimized, held⟩ := @insert_holds _ _ (id, amount) represents.holds
    (represents.optimized ▸ represents.sorted.headInPlace) valid absent
  rw [represents.optimized] at optimized held
  refine ⟨inserted, _, result, held, optimized, represents.sorted.arrange represents.holds.layered absent, ?_⟩
  intro key value
  dsimp only
  rw [mem_arrange, represents.members, Function.update_apply]
  split
  · next same =>
    subst same
    rw [none]
    simp [eq_comm]
  · next other => simp [other]

theorem Represents.insert (represents : Represents map contents entries) (pair : Mosaic) :
    ∃ arranged, Represents (applyOperation map (.insert pair)) (contents.apply (.insert pair)) arranged := by
  rw [applyOperation, MosaicContents.apply]
  split
  · next refused =>
    obtain ⟨error, result⟩ := represents.insert_refused refused
    rw [result]
    exact ⟨entries, represents⟩
  · next accepted =>
    rw [not_or, Option.not_isSome_iff_eq_none] at accepted
    obtain ⟨inserted, arranged, result, represented⟩ := represents.insert_accepted accepted.1 accepted.2
    rw [result]
    exact ⟨arranged, represented⟩

theorem Represents.erase (represents : Represents map contents entries) (id : MosaicId) :
    Represents (map.erase id) (contents.apply (.erase id)) (entries.filter fun entry => entry.1 ≠ id) := by
  refine ⟨erase_holds represents.holds id, (erase_optimized map id).trans represents.optimized,
    represents.sorted.sublist List.filter_sublist, fun key amount => ?_⟩
  rw [MosaicContents.apply, List.mem_filter, represents.members, decide_eq_true_iff]
  dsimp only
  rw [Function.update_apply]
  split
  · next same => simp [same]
  · next other => simp [other]

theorem Sorted.setAt {optimized : MosaicId} (sorted : Sorted optimized entries) (id : MosaicId) (amount : Amount) :
    Sorted optimized (setAt entries id amount) := by
  refine List.pairwise_map.mpr (sorted.imp fun {lower upper} less => ?_)
  rw [setAt_key, setAt_key]
  exact less

theorem mem_setAt {id key : MosaicId} {amount value : Amount} : (key, value) ∈ setAt entries id amount ↔
      if key = id then value = amount ∧ ∃ entry ∈ entries, entry.1 = id else (key, value) ∈ entries := by
  rw [setAt, List.mem_map]
  constructor
  · rintro ⟨entry, member, changed⟩
    split at changed
    · next same =>
      obtain ⟨rfl, rfl⟩ := Prod.mk.inj changed
      rw [if_pos rfl]
      exact ⟨rfl, entry, member, same⟩
    · next other =>
      subst changed
      rw [if_neg other]
      exact member
  · split
    · next same =>
      rintro ⟨rfl, entry, member, key⟩
      exact ⟨entry, member, by rw [if_pos key, same]⟩
    · next other => exact fun member => ⟨_, member, if_neg other⟩

theorem Represents.update (represents : Represents map contents entries) (id : MosaicId) (amount : Amount) :
    Represents (map.update id amount) (contents.apply (.update id amount)) (setAt entries id amount) := by
  have kept : (contents.apply (.update id amount)).optimized = contents.optimized := by
    rw [MosaicContents.apply]
    split <;> rfl
  refine ⟨update_holds represents.holds id amount, (update_optimized map id amount).trans (represents.optimized.trans kept.symm),
    kept ▸ represents.sorted.setAt id amount, fun key value => ?_⟩
  rw [mem_setAt, MosaicContents.apply]
  by_cases same : key = id
  · subst same
    rw [if_pos rfl]
    cases known : contents.amounts key with
    | none =>
      rw [if_neg (by simp), known]
      refine iff_of_false ?_ (by simp)
      rintro ⟨_, entry, member, key⟩
      exact represents.absent known entry member key
    | some old =>
      have present : ∃ entry ∈ entries, entry.1 = key := ⟨(key, old), (represents.members key old).mpr known, rfl⟩
      rw [Option.isSome_some, if_pos rfl]
      dsimp only
      rw [Function.update_self, Option.some_inj]
      exact ⟨fun changed => changed.1.symm, fun same => ⟨same.symm, present⟩⟩
  · rw [if_neg same, represents.members]
    split
    · dsimp only
      rw [Function.update_of_ne same]
    · rfl

theorem Represents.optimize (represents : Represents map contents entries) (id : MosaicId) :
    ∃ optimized arranged, map.optimize id = .ok optimized ∧ Represents optimized (contents.apply (.optimize id)) arranged := by
  obtain ⟨optimized, arranged, result, isOptimized, held, sorted, members⟩ :=
    optimize_holds represents.holds (represents.optimized ▸ represents.sorted) id
  exact ⟨optimized, arranged, result, held, isOptimized, sorted,
    fun key amount => (members (key, amount)).trans (represents.members key amount)⟩

theorem Represents.step (represents : Represents map contents entries) (operation : MapOperation) :
    ∃ arranged, Represents (applyOperation map operation) (contents.apply operation) arranged := by
  cases operation with
  | insert pair => exact represents.insert pair
  | erase id => exact ⟨_, represents.erase id⟩
  | optimize id =>
    obtain ⟨optimized, arranged, result, represented⟩ := represents.optimize id
    rw [applyOperation, result]
    exact ⟨arranged, represented⟩
  | update id amount => exact ⟨_, represents.update id amount⟩

theorem Represents.run (represents : Represents map contents entries) (operations : List MapOperation) :
    ∃ arranged, Represents (operations.foldl applyOperation map) (operations.foldl MosaicContents.apply contents) arranged :=
  @List.foldl_rel _ _ _ operations applyOperation MosaicContents.apply map contents
    (fun map contents => ∃ entries, Represents map contents entries) ⟨entries, represents⟩
    fun operation _ _ _ ⟨_, represented⟩ => represented.step operation

end Steps

/-- The entries of a finite map with the optimized one first and the others ascending. -/
structure IteratedAs (contents : MosaicContents) (entries : List Mosaic) : Prop where
  members : ∀ id amount, (id, amount) ∈ entries ↔ contents.amounts id = some amount
  order : ∃ others, entries = ((contents.amounts contents.optimized).map fun amount => (contents.optimized, amount)).toList ++
    others ∧ SortedMap.Ascending others ∧ ∀ entry ∈ others, entry.1 ≠ contents.optimized

/-- The finite map without entries. -/
def MosaicContents.empty : MosaicContents := ⟨fun _ => none, 0⟩

theorem empty_represents : Represents .empty .empty [] where
  holds := ⟨rfl, trivial⟩
  optimized := rfl
  sorted := List.Pairwise.nil
  members _ _ := ⟨nofun, nofun⟩

variable {contents : MosaicContents}

theorem Represents.iteratedAs (represents : Represents map contents entries) : IteratedAs contents entries := by
  refine ⟨represents.members, ?_⟩
  cases known : contents.amounts contents.optimized with
  | none =>
    have absent := represents.absent known
    have ascending := ascending_of_headInPlace represents.holds.layered represents.sorted.headInPlace
    rw [filter_absent absent] at ascending
    exact ⟨entries, rfl, ascending, absent⟩
  | some amount =>
    have member := (represents.members _ _).mpr known
    cases entries with
    | nil => cases member
    | cons first rest =>
      refine ⟨rest, ?_, represents.holds.layered.2.2, represents.sorted.absent_rest⟩
      cases member with
      | head => rfl
      | tail _ later => exact absurd rfl (represents.sorted.absent_rest _ later)

theorem Represents.isEmpty (represents : Represents map contents entries) :
    map.isEmpty = true ↔ ∀ id, contents.amounts id = none := by
  rw [isEmpty_eq represents.holds, List.isEmpty_iff]
  constructor
  · rintro rfl id
    cases known : contents.amounts id with
    | none => rfl
    | some amount => cases (represents.members id amount).mpr known
  · intro none
    refine List.eq_nil_iff_forall_not_mem.mpr fun entry member => ?_
    have known := (represents.members entry.1 entry.2).mp member
    rw [none] at known
    cases known

theorem Represents.size (represents : Represents map contents entries) :
    map.size = Set.ncard { id | (contents.amounts id).isSome } := by
  have distinct : (entries.map Prod.fst).Nodup :=
    List.pairwise_map.mpr (represents.sorted.imp fun less => (isLessThan_iff.mp less).1)
  have ids : { id | (contents.amounts id).isSome } = ((entries.map Prod.fst).toFinset : Set MosaicId) := by
    ext id
    rw [Set.mem_ofPred_eq, Option.isSome_iff_exists, Finset.mem_coe, List.mem_toFinset, List.mem_map]
    constructor
    · rintro ⟨amount, known⟩
      exact ⟨(id, amount), (represents.members id amount).mpr known, rfl⟩
    · rintro ⟨⟨key, amount⟩, member, rfl⟩
      exact ⟨amount, (represents.members key amount).mp member⟩
  rw [ids, Set.ncard_coe_finset, List.toFinset_card_of_nodup distinct, List.length_map, size_eq represents.holds]

theorem Represents.insert_succeeds (represents : Represents map contents entries) (pair : Mosaic) :
    (map.insert pair).isOk = true ↔ pair.1 ≠ 0 ∧ contents.amounts pair.1 = none := by
  constructor
  · intro succeeds
    rw [← Option.not_isSome_iff_eq_none, ← not_or]
    intro refused
    obtain ⟨error, result⟩ := represents.insert_refused refused
    rw [result] at succeeds
    cases succeeds
  · rintro ⟨valid, none⟩
    obtain ⟨inserted, _, result, _⟩ := represents.insert_accepted valid none
    rw [result]
    rfl

/-- A mosaic map is a finite map that is iterated with the optimized mosaic first, after any operations. -/
theorem run_refines_contents (operations : List MapOperation) :
    let map := operations.foldl applyOperation CompactMosaicMap.empty
    let contents := operations.foldl MosaicContents.apply MosaicContents.empty
    (∀ id, map.find id = (contents.amounts id).map fun amount => (id, amount)) ∧
    (map.isEmpty = true ↔ ∀ id, contents.amounts id = none) ∧ map.size = Set.ncard { id | (contents.amounts id).isSome } ∧
    (∀ pair, (map.insert pair).isOk = true ↔ pair.1 ≠ 0 ∧ contents.amounts pair.1 = none) ∧
    (∀ id, (map.optimize id).isOk = true) ∧
    ∃ entries, IteratedAs contents entries ∧ ∀ steps, map.iterateFrom steps map.start = entries.take steps ∧
      (map.advance^[steps] map.start = .finished ↔ map.size ≤ steps) := by
  intro map contents
  obtain ⟨entries, represents⟩ := empty_represents.run operations
  refine ⟨represents.find, represents.isEmpty, represents.size, represents.insert_succeeds, ?_, entries,
    represents.iteratedAs, fun steps => ⟨?_, ?_⟩⟩
  · intro id
    obtain ⟨optimized, _, result, _⟩ := represents.optimize id
    rw [result]
    rfl
  · rw [start_eq represents.holds, iterateFrom_eq represents.holds, List.drop_zero]
  · rw [advance_iterate represents.holds, positionAt, size_eq represents.holds]
    constructor
    · intro finished
      by_contra inside
      rw [if_neg inside] at finished
      split at finished
      · cases finished
      · split at finished <;> cases finished
    · exact fun beyond => if_pos beyond

end Catapult.State
