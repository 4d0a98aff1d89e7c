import Catapult.Construction.State.CompactMosaicMap
import Catapult.Library.Runs

/-
This file proves that the storage levels of a mosaic map hold one list of entries with the optimized mosaic first.
-/

namespace Catapult.State

open SecondLevelStorage (insertIntoMap insertIntoArray eraseFromArray fillArray)
open CompactMosaicMap

/-- The array holds the first entries, and the map holds the others if there are any. -/
def secondOf (rest : List Mosaic) : SecondLevelStorage :=
  ⟨rest.take arrayCapacity, if rest.length ≤ arrayCapacity then none else some (rest.drop arrayCapacity)⟩

def nextOf (rest : List Mosaic) : Option SecondLevelStorage := if rest = [] then none else some (secondOf rest)

/-- The storage levels of a list of entries. -/
def storageOf : List Mosaic → FirstLevelStorage
  | [] => ⟨(0, 0), none⟩
  | first :: rest => ⟨first, nextOf rest⟩

/-- Mosaic ids are not reserved and differ, and those after the first are ascending. -/
def Layered : List Mosaic → Prop
  | [] => True
  | first :: rest => first.1 ≠ 0 ∧ (∀ entry ∈ rest, entry.1 ≠ 0 ∧ entry.1 ≠ first.1) ∧ SortedMap.Ascending rest

/-- A map holds a list of entries. -/
structure Holds (map : CompactMosaicMap) (entries : List Mosaic) : Prop where
  storage : map.storage = storageOf entries
  layered : Layered entries

/-- The first entry is optimized or the lowest. -/
def HeadInPlace (optimizedMosaicId : MosaicId) : List Mosaic → Prop
  | [] => True
  | first :: rest => first.1 = optimizedMosaicId ∨ ∀ entry ∈ rest, first.1 < entry.1

/-- The optimized mosaic is first and the others are ascending. -/
def Sorted (optimizedMosaicId : MosaicId) (entries : List Mosaic) : Prop :=
  entries.Pairwise fun lower upper => isLessThan optimizedMosaicId lower.1 upper.1

/-- The place of a new entry. -/
def arrange (optimizedMosaicId : MosaicId) (pair : Mosaic) : List Mosaic → List Mosaic
  | [] => [pair]
  | first :: rest =>
    if isLessThan optimizedMosaicId pair.1 first.1 then pair :: first :: rest
    else first :: SortedMap.place pair rest

theorem secondOf_map (rest : List Mosaic) : (secondOf rest).mapStorage.getD [] = rest.drop arrayCapacity := by
  unfold secondOf
  split
  · next small => exact (List.drop_eq_nil_of_le small).symm
  · rfl

theorem secondOf_entries (rest : List Mosaic) : (secondOf rest).arrayStorage ++ (secondOf rest).mapStorage.getD [] = rest := by
  rw [secondOf_map]
  exact List.take_append_drop _ _

theorem nextOf_getD (rest : List Mosaic) : (nextOf rest).getD ⟨[], none⟩ = secondOf rest := by
  unfold nextOf
  split
  · next none => rw [none]; rfl
  · rfl

/-- Entries that move up from the map fill the array. -/
theorem fillArray_eq {array entries : List Mosaic} (small : array.length ≤ arrayCapacity) :
    fillArray array entries = secondOf (array ++ entries) := by
  induction entries generalizing array with
  | nil =>
    rw [fillArray, List.append_nil, secondOf, if_pos small, List.take_of_length_le small]
  | cons first entries ih =>
    unfold fillArray
    split
    · next room =>
      rw [ih (by rw [List.length_append]; exact room), List.append_assoc, List.singleton_append]
    · next full =>
      have exact : array.length = arrayCapacity := by omega
      rw [secondOf, if_neg (by rw [List.length_append, List.length_cons]; omega), ← exact, List.take_left, List.drop_left]

theorem compact_eq {value : Mosaic} {second : SecondLevelStorage} {rest : List Mosaic}
    (small : second.arrayStorage.length ≤ arrayCapacity) (total : second.arrayStorage ++ second.mapStorage.getD [] = rest) :
    compact ⟨value, some second⟩ = ⟨value, nextOf rest⟩ := by
  unfold compact nextOf
  dsimp only
  rw [fillArray_eq small, total]
  congr 1
  cases rest with
  | nil => rfl
  | cons first rest => rfl

theorem secondOf_append {array entries : List Mosaic} (full : array.length = arrayCapacity) (more : entries ≠ []) :
    secondOf (array ++ entries) = ⟨array, some entries⟩ := by
  have positive := List.length_pos_iff.mpr more
  rw [secondOf, if_neg (by rw [List.length_append]; omega), ← full, List.take_left, List.drop_left]

/-- A list that fills the array has a last entry in the array. -/
theorem splitFull {rest : List Mosaic} (full : arrayCapacity ≤ rest.length) :
    ∃ front last back, rest = front ++ last :: back ∧ front.length + 1 = arrayCapacity := by
  refine ⟨rest.take 4, ?_⟩
  cases later : rest.drop 4 with
  | nil =>
    have short := List.drop_eq_nil_iff.mp later
    unfold arrayCapacity at full
    omega
  | cons last back =>
    refine ⟨last, back, ?_, ?_⟩
    · rw [← later, List.take_append_drop]
    · rw [List.length_take]
      unfold arrayCapacity at *
      omega

/-- The array takes an entry at an index, and its last entry moves down if there is no room. -/
theorem insertIntoArray_eq {rest : List Mosaic} {index : Nat} {pair : Mosaic}
    (ascending : SortedMap.Ascending rest) (inside : index < arrayCapacity) (bounded : index ≤ rest.length) :
    (secondOf rest).insertIntoArray index pair = secondOf (rest.insertIdx index pair) := by
  have length := List.length_insertIdx_of_le_length bounded pair
  unfold insertIntoArray
  by_cases small : rest.length < arrayCapacity
  · have all : rest.take arrayCapacity = rest := List.take_of_length_le (by omega)
    have allNew : (rest.insertIdx index pair).take arrayCapacity = rest.insertIdx index pair :=
      List.take_of_length_le (by omega)
    have new : secondOf (rest.insertIdx index pair) = ⟨rest.insertIdx index pair, none⟩ := by
      rw [secondOf, allNew, if_pos (by omega)]
    have old : secondOf rest = ⟨rest, none⟩ := by rw [secondOf, all, if_pos (by omega)]
    rw [new, old]
    dsimp only
    split
    · rw [if_neg (by omega)]
    · rfl
  · obtain ⟨front, last, back, rfl, frontLength⟩ := splitFull (not_lt.mp small)
    have below : ∀ entry ∈ back, last.1 < entry.1 :=
      (List.pairwise_cons.mp (List.pairwise_append.mp ascending).2.1).1
    have arrayFull : (front ++ [last]).length = arrayCapacity := by
      rw [List.length_append, List.length_singleton]; omega
    have newFull : (front.insertIdx index pair).length = arrayCapacity := by
      rw [List.length_insertIdx_of_le_length (by omega)]; omega
    have new : secondOf ((front ++ last :: back).insertIdx index pair) = ⟨front.insertIdx index pair, some (last :: back)⟩ := by
      rw [SortedMap.insertIdx_append (by omega), secondOf_append newFull (List.cons_ne_nil _ _)]
    have array : (secondOf (front ++ last :: back)).arrayStorage = front ++ [last] := by
      rw [← List.singleton_append, ← List.append_assoc]
      exact List.take_left' arrayFull
    have entries : (secondOf (front ++ last :: back)).mapStorage.getD [] = back := by
      rw [secondOf_map, ← List.singleton_append, ← List.append_assoc]
      exact List.drop_left' arrayFull
    have moved : (secondOf (front ++ last :: back)).insertIntoMap last = ⟨front ++ [last], some (last :: back)⟩ := by
      rw [insertIntoMap, entries, SortedMap.insert_of_absent fun entry member => ne_of_gt (below entry member),
        SortedMap.place_of_lt below, ← array]
    rw [new, array, List.getLast?_concat]
    dsimp only
    rw [if_pos arrayFull, moved, List.dropLast_concat]

variable {map : CompactMosaicMap} {entries : List Mosaic} {id : MosaicId}

theorem isEmpty_eq (holds : Holds map entries) : map.isEmpty = entries.isEmpty := by
  unfold isEmpty FirstLevelStorage.hasValue
  rw [holds.storage]
  cases entries with
  | nil => rfl
  | cons first rest =>
    have value : first.1 ≠ 0 := holds.layered.1
    rw [storageOf, decide_eq_true value]
    rfl

theorem size_eq (holds : Holds map entries) : map.size = entries.length := by
  unfold size
  rw [isEmpty_eq holds, holds.storage]
  cases entries with
  | nil => rfl
  | cons first rest =>
    unfold storageOf nextOf
    cases rest with
    | nil => rfl
    | cons second rest =>
      have both := congrArg List.length (secondOf_entries (second :: rest))
      rw [List.length_append] at both
      simp only [List.isEmpty_cons, Bool.false_eq_true, if_false, reduceCtorEq]
      rw [List.length_cons, Nat.add_assoc, both, Nat.add_comm]

/-- A present mosaic id has a first entry. -/
theorem firstWithKey {rest : List Mosaic} (present : ¬∀ entry ∈ rest, entry.1 ≠ id) :
    ∃ front entry back, rest = front ++ entry :: back ∧ entry.1 = id ∧ ∀ other ∈ front, other.1 ≠ id := by
  cases found : rest.find? fun entry => entry.1 = id with
  | none =>
    refine absurd ?_ present
    intro entry member
    simpa using List.find?_eq_none.mp found entry member
  | some entry =>
    obtain ⟨key, front, back, split, others⟩ := List.find?_eq_some_iff_append.mp found
    exact ⟨front, entry, back, split, of_decide_eq_true key, fun other member => by simpa using others other member⟩

theorem findIdx_front {front back : List Mosaic} {entry : Mosaic} (key : entry.1 = id) (others : ∀ other ∈ front, other.1 ≠ id) :
    (front ++ entry :: back).findIdx? (fun other => other.1 = id) = some front.length := by
  have none : front.findIdx? (fun other => decide (other.1 = id)) = none :=
    List.findIdx?_eq_none_iff.mpr fun other member => decide_eq_false (others other member)
  rw [List.findIdx?_append, none, List.findIdx?_cons, if_pos (decide_eq_true key)]
  simp

theorem locate_absent {rest : List Mosaic} (absent : ∀ entry ∈ rest, entry.1 ≠ id) :
    (nextOf rest).bind (fun second => second.locate id) = none := by
  unfold nextOf
  split
  · rfl
  · have array : (secondOf rest).arrayStorage.findIdx? (fun entry => decide (entry.1 = id)) = none :=
      List.findIdx?_eq_none_iff.mpr fun entry member => decide_eq_false (absent entry (List.mem_of_mem_take member))
    have map : SortedMap.find id ((secondOf rest).mapStorage.getD []) = none := by
      rw [secondOf_map]
      refine List.find?_eq_none.mpr fun entry member => ?_
      simpa using absent entry (List.mem_of_mem_drop member)
    rw [Option.bind_some, SecondLevelStorage.locate, array, map]
    rfl

theorem secondOf_array {front back : List Mosaic} {entry : Mosaic} (inside : front.length < arrayCapacity) :
    (secondOf (front ++ entry :: back)).arrayStorage = front ++ entry :: back.take (arrayCapacity - front.length - 1) := by
  obtain ⟨more, eq⟩ : ∃ more, arrayCapacity - front.length = more + 1 :=
    ⟨arrayCapacity - front.length - 1, by omega⟩
  rw [secondOf, List.take_append, List.take_of_length_le (Nat.le_of_lt inside), eq, List.take_succ_cons, Nat.add_sub_cancel]

theorem locate_array {front back : List Mosaic} {entry : Mosaic} (key : entry.1 = id)
    (others : ∀ other ∈ front, other.1 ≠ id) (inside : front.length < arrayCapacity) :
    (nextOf (front ++ entry :: back)).bind (fun second => second.locate id) = some (.array front.length) := by
  rw [nextOf, if_neg (by simp), Option.bind_some, SecondLevelStorage.locate, secondOf_array inside, findIdx_front key others]

theorem locate_map {front back : List Mosaic} {entry : Mosaic} (key : entry.1 = id)
    (others : ∀ other ∈ front, other.1 ≠ id) (beyond : arrayCapacity ≤ front.length) :
    (nextOf (front ++ entry :: back)).bind (fun second => second.locate id) = some .map := by
  have array : (secondOf (front ++ entry :: back)).arrayStorage.findIdx? (fun other => decide (other.1 = id)) = none := by
    rw [secondOf, List.take_append_of_le_length beyond]
    exact List.findIdx?_eq_none_iff.mpr fun other member => decide_eq_false (others other (List.mem_of_mem_take member))
  have found : (SortedMap.find id ((secondOf (front ++ entry :: back)).mapStorage.getD [])).isSome := by
    rw [secondOf_map, List.drop_append_of_le_length beyond]
    exact List.find?_isSome.mpr ⟨entry, List.mem_append_right _ List.mem_cons_self, decide_eq_true key⟩
  rw [nextOf, if_neg (by simp), Option.bind_some, SecondLevelStorage.locate, array]
  exact if_pos found

/-- A mosaic id is searched in the levels of the storage. -/
theorem locate_cases (holds : Holds map entries) (id : MosaicId) : (map.locate id = none ∧ ∀ entry ∈ entries, entry.1 ≠ id) ∨
    (∃ first rest, entries = first :: rest ∧ first.1 = id ∧ map.locate id = some .value) ∨
    (∃ first front entry back, entries = first :: (front ++ entry :: back) ∧ entry.1 = id ∧
      front.length < arrayCapacity ∧ map.locate id = some (.array front.length)) ∨
    (∃ first front entry back, entries = first :: (front ++ entry :: back) ∧ entry.1 = id ∧
      arrayCapacity ≤ front.length ∧ map.locate id = some .map) := by
  unfold locate
  rw [isEmpty_eq holds, holds.storage]
  cases entries with
  | nil => exact .inl ⟨rfl, fun _ member => nomatch member⟩
  | cons first rest =>
    simp only [List.isEmpty_cons, Bool.false_eq_true, if_false]
    by_cases same : id = first.1
    · exact .inr (.inl ⟨first, rest, rfl, same.symm, if_pos same⟩)
    · rw [storageOf]
      dsimp only
      rw [if_neg same]
      by_cases absent : ∀ entry ∈ rest, entry.1 ≠ id
      · refine .inl ⟨locate_absent absent, ?_⟩
        rintro entry (_ | ⟨_, member⟩)
        · exact Ne.symm same
        · exact absent entry member
      · obtain ⟨front, entry, back, rfl, key, others⟩ := firstWithKey absent
        right; right
        rcases Nat.lt_or_ge front.length arrayCapacity with inside | beyond
        · exact .inl ⟨first, front, entry, back, rfl, key, inside, locate_array key others inside⟩
        · exact .inr ⟨first, front, entry, back, rfl, key, beyond, locate_map key others beyond⟩

theorem Layered.differ {first : Mosaic} {rest : List Mosaic} (layered : Layered (first :: rest)) {entry : Mosaic}
    (member : entry ∈ rest) : entry.1 ≠ first.1 := (layered.2.1 entry member).2

/-- An entry of the ascending part has another mosaic id than those around it. -/
theorem Layered.differ_middle {first entry : Mosaic} {front back : List Mosaic}
    (layered : Layered (first :: (front ++ entry :: back))) :
    (∀ other ∈ front, other.1 ≠ entry.1) ∧ (∀ other ∈ back, other.1 ≠ entry.1) := by
  obtain ⟨_, later, across⟩ := List.pairwise_append.mp layered.2.2
  exact ⟨fun other member => ne_of_lt (across other member entry List.mem_cons_self),
    fun other member => ne_of_gt ((List.pairwise_cons.mp later).1 other member)⟩

theorem find_middle {first entry : Mosaic} {front back : List Mosaic} (layered : Layered (first :: (front ++ entry :: back))) :
    (first :: (front ++ entry :: back)).find? (fun other => other.1 = entry.1) = some entry := by
  refine List.find?_eq_some_iff_append.mpr ⟨decide_eq_true rfl, first :: front, back, rfl, fun other member => ?_⟩
  have differ : other.1 ≠ entry.1 := by
    rcases List.mem_cons.mp member with rfl | member
    · exact Ne.symm (layered.differ (List.mem_append_right _ List.mem_cons_self))
    · exact layered.differ_middle.1 other member
  rw [decide_eq_false differ]
  rfl

theorem nextOf_middle (front : List Mosaic) (entry : Mosaic) (back : List Mosaic) :
    nextOf (front ++ entry :: back) = some (secondOf (front ++ entry :: back)) :=
  if_neg (List.append_ne_nil_of_right_ne_nil _ (List.cons_ne_nil _ _))

theorem find_eq (holds : Holds map entries) (id : MosaicId) : map.find id = entries.find? fun entry => entry.1 = id := by
  rcases locate_cases holds id with ⟨location, absent⟩ | ⟨first, rest, rfl, key, location⟩ |
    ⟨first, front, entry, back, rfl, rfl, inside, location⟩ | ⟨first, front, entry, back, rfl, rfl, beyond, location⟩
  · rw [find, location]
    exact (List.find?_eq_none.mpr fun entry member => by simpa using absent entry member).symm
  · rw [find, location, holds.storage, List.find?_cons_of_pos (by simpa using key)]
    rfl
  · have atIndex : (secondOf (front ++ entry :: back)).arrayStorage[front.length]? = some entry := by
      rw [secondOf, List.getElem?_take_of_lt inside, List.getElem?_append_right (Nat.le_refl _), Nat.sub_self]
      rfl
    rw [find, location, holds.storage, storageOf]
    dsimp only
    rw [nextOf_middle, Option.bind_some, atIndex, find_middle holds.layered]
  · have others := (Layered.differ_middle holds.layered).1
    have inMap : SortedMap.find entry.1 ((secondOf (front ++ entry :: back)).mapStorage.getD []) = some entry := by
      rw [secondOf_map, List.drop_append_of_le_length beyond]
      refine List.find?_eq_some_iff_append.mpr ⟨decide_eq_true rfl, _, _, rfl, fun other member => ?_⟩
      rw [decide_eq_false (others other (List.mem_of_mem_drop member))]
      rfl
    rw [find, location, holds.storage, storageOf]
    dsimp only
    rw [nextOf_middle, Option.bind_some, inMap, find_middle holds.layered]

theorem Layered.of_ascending {entries : List Mosaic} (ascending : SortedMap.Ascending entries)
    (valid : ∀ entry ∈ entries, entry.1 ≠ 0) : Layered entries := by
  cases entries with
  | nil => trivial
  | cons first rest =>
    obtain ⟨below, ascending⟩ := List.pairwise_cons.mp ascending
    exact ⟨valid first List.mem_cons_self, fun entry member =>
      ⟨valid entry (.tail _ member), ne_of_gt (below entry member)⟩, ascending⟩

theorem Layered.sublist {entries kept : List Mosaic} (layered : Layered entries) (part : kept.Sublist entries) :
    Layered kept := by
  cases part with
  | slnil => trivial
  | cons first part =>
    exact Layered.of_ascending (layered.2.2.sublist part) fun entry member => (layered.2.1 entry (part.subset member)).1
  | cons_cons first part =>
    exact ⟨layered.1, fun entry member => layered.2.1 entry (part.subset member), layered.2.2.sublist part⟩

theorem filter_absent {entries : List Mosaic} (absent : ∀ entry ∈ entries, entry.1 ≠ id) :
    entries.filter (fun entry => entry.1 ≠ id) = entries :=
  List.filter_eq_self.mpr fun entry member => decide_eq_true (absent entry member)

theorem filter_middle {first entry : Mosaic} {front back : List Mosaic} (layered : Layered (first :: (front ++ entry :: back))) :
    (first :: (front ++ entry :: back)).filter (fun other => other.1 ≠ entry.1) = first :: (front ++ back) := by
  have other := Ne.symm (layered.differ (List.mem_append_right _ List.mem_cons_self))
  rw [List.filter_cons_of_pos (by simpa using other), List.filter_append,
    List.filter_cons_of_neg (by simp), filter_absent layered.differ_middle.1, filter_absent layered.differ_middle.2]

/-- Entries that are erased leave the storage levels of the others. -/
theorem erase_storage (holds : Holds map entries) (id : MosaicId) :
    (map.erase id).storage = storageOf (entries.filter fun entry => entry.1 ≠ id) := by
  have capacity (rest : List Mosaic) : (secondOf rest).arrayStorage.length ≤ arrayCapacity := List.length_take_le _ _
  rcases locate_cases holds id with ⟨location, absent⟩ | ⟨first, rest, rfl, rfl, location⟩ |
    ⟨first, front, entry, back, rfl, rfl, inside, location⟩ | ⟨first, front, entry, back, rfl, rfl, beyond, location⟩
  · rw [erase, location, filter_absent absent]
    exact holds.storage
  · have kept : (first :: rest).filter (fun entry => entry.1 ≠ first.1) = rest := by
      rw [List.filter_cons_of_neg (by simp), filter_absent fun entry member => holds.layered.differ member]
    have next : map.storage.nextStorage = nextOf rest := congrArg FirstLevelStorage.nextStorage holds.storage
    rw [erase, location, kept, next]
    cases rest with
    | nil => rfl
    | cons second rest =>
      refine compact_eq (List.length_eraseIdx_le _ _ |>.trans (capacity (second :: rest))) ?_
      exact congrArg List.tail (secondOf_entries (second :: rest))
  · have erased : (secondOf (front ++ entry :: back)).arrayStorage.eraseIdx front.length ++
        (secondOf (front ++ entry :: back)).mapStorage.getD [] = front ++ back := by
      have bound : front.length < (secondOf (front ++ entry :: back)).arrayStorage.length := by
        rw [secondOf, List.length_take, List.length_append, List.length_cons]
        omega
      rw [← List.eraseIdx_append_of_lt_length bound, secondOf_entries,
        List.eraseIdx_append_of_length_le (Nat.le_refl _), Nat.sub_self]
      rfl
    rw [erase, location, filter_middle holds.layered, holds.storage, storageOf]
    dsimp only
    rw [nextOf_middle]
    exact compact_eq (List.length_eraseIdx_le _ _ |>.trans (capacity _)) erased
  · have others := holds.layered.differ_middle
    have array : (secondOf (front ++ entry :: back)).arrayStorage = front.take arrayCapacity :=
      List.take_append_of_le_length beyond
    have remaining : SortedMap.erase entry.1 ((secondOf (front ++ entry :: back)).mapStorage.getD []) =
        front.drop arrayCapacity ++ back := by
      rw [secondOf_map, List.drop_append_of_le_length beyond, SortedMap.erase, List.filter_append,
        List.filter_cons_of_neg (by simp), filter_absent others.2,
        filter_absent fun other member => others.1 other (List.mem_of_mem_drop member)]
    rw [erase, location, filter_middle holds.layered, holds.storage, storageOf]
    dsimp only
    rw [nextOf_middle]
    refine compact_eq (capacity (front ++ entry :: back)) ?_
    dsimp only
    have getD := Option.getD_map (SortedMap.erase entry.1) [] (secondOf (front ++ entry :: back)).mapStorage
    rw [remaining] at getD
    rw [show ([] : List Mosaic) = SortedMap.erase entry.1 [] from rfl, getD, array, ← List.append_assoc, List.take_append_drop]

theorem erase_holds (holds : Holds map entries) (id : MosaicId) :
    Holds (map.erase id) (entries.filter fun entry => entry.1 ≠ id) :=
  ⟨erase_storage holds id, holds.layered.sublist List.filter_sublist⟩

theorem setAt_key (id : MosaicId) (amount : Amount) (entry : Mosaic) :
    (if entry.1 = id then (id, amount) else entry).1 = entry.1 := by
  split
  · next same => exact same.symm
  · rfl

theorem setAt_absent {entries : List Mosaic} (absent : ∀ entry ∈ entries, entry.1 ≠ id) (amount : Amount) :
    setAt entries id amount = entries := by
  refine (List.map_congr_left fun entry member => ?_).trans (List.map_id entries)
  exact if_neg (absent entry member)

theorem Layered.setAt {entries : List Mosaic} (layered : Layered entries) (id : MosaicId) (amount : Amount) :
    Layered (setAt entries id amount) := by
  cases entries with
  | nil => trivial
  | cons first rest =>
    obtain ⟨valid, differ, ascending⟩ := layered
    refine ⟨(setAt_key id amount first).symm ▸ valid, ?_, ?_⟩
    · intro entry member
      obtain ⟨old, memberOld, rfl⟩ := List.mem_map.mp member
      rw [setAt_key, setAt_key]
      exact differ old memberOld
    · refine List.pairwise_map.mpr (ascending.imp fun {lower upper} less => ?_)
      rw [setAt_key, setAt_key]
      exact less

theorem secondOf_setAt (rest : List Mosaic) (id : MosaicId) (amount : Amount) :
    secondOf (setAt rest id amount) = ⟨setAt (secondOf rest).arrayStorage id amount,
      (secondOf rest).mapStorage.map fun entries => setAt entries id amount⟩ := by
  unfold secondOf setAt
  rw [List.length_map, List.map_take]
  split
  · rfl
  · rw [Option.map_some, List.map_drop]

/-- Only the first entry with a mosaic id is changed. -/
theorem setAt_modify {front back : List Mosaic} {entry : Mosaic} (before : ∀ other ∈ front, other.1 ≠ entry.1)
    (after : ∀ other ∈ back, other.1 ≠ entry.1) (amount : Amount) :
    (front ++ entry :: back).modify front.length (fun other => (other.1, amount)) =
      setAt (front ++ entry :: back) entry.1 amount := by
  induction front with
  | nil => exact (congrArg₂ List.cons (if_pos rfl) (setAt_absent after amount)).symm
  | cons first front ih =>
    rw [List.cons_append, List.length_cons, List.modify_succ_cons, ih fun other member => before other (.tail _ member)]
    exact congrArg₂ List.cons (if_neg (before first List.mem_cons_self)).symm rfl

/-- A mosaic id after the first entry is changed in the array and in the map. -/
theorem storageOf_setAt {first : Mosaic} {rest : List Mosaic} (other : first.1 ≠ id) (more : rest ≠ [])
    (amount : Amount) : storageOf (setAt (first :: rest) id amount) = ⟨first, some ⟨setAt (secondOf rest).arrayStorage id amount,
        (secondOf rest).mapStorage.map fun entries => setAt entries id amount⟩⟩ := by
  have some : nextOf (setAt rest id amount) = some (secondOf (setAt rest id amount)) :=
    if_neg fun none => more (List.map_eq_nil_iff.mp none)
  rw [setAt, List.map_cons, if_neg other, ← setAt, storageOf, some, secondOf_setAt]

theorem update_storage (holds : Holds map entries) (id : MosaicId) (amount : Amount) :
    (map.update id amount).storage = storageOf (setAt entries id amount) := by
  rcases locate_cases holds id with ⟨location, absent⟩ | ⟨first, rest, rfl, rfl, location⟩ |
    ⟨first, front, entry, back, rfl, rfl, inside, location⟩ | ⟨first, front, entry, back, rfl, rfl, beyond, location⟩
  · rw [update, location, setAt_absent absent]
    exact holds.storage
  · have rest := setAt_absent (fun entry member => holds.layered.differ member) amount
    rw [update, location, holds.storage, setAt, List.map_cons, if_pos rfl, ← setAt, rest]
    rfl
  · have others := holds.layered.differ_middle
    have other := Ne.symm (holds.layered.differ (List.mem_append_right front List.mem_cons_self))
    have after : ∀ other ∈ back.take (arrayCapacity - front.length - 1), other.1 ≠ entry.1 :=
      fun other member => others.2 other (List.mem_of_mem_take member)
    have array := setAt_modify others.1 after amount
    have entries : (secondOf (front ++ entry :: back)).mapStorage.map (fun entries => setAt entries entry.1 amount) =
        (secondOf (front ++ entry :: back)).mapStorage := by
      unfold secondOf
      split
      · rfl
      · rw [Option.map_some, setAt_absent]
        intro other member
        have beyond : (front ++ [entry]).length ≤ arrayCapacity := by
          rw [List.length_append, List.length_singleton]
          exact inside
        rw [List.append_cons, List.drop_append, List.drop_eq_nil_of_le beyond] at member
        exact others.2 other (List.mem_of_mem_drop member)
    rw [update, location, holds.storage, storageOf_setAt other (by simp), entries, secondOf_array inside, ← array, storageOf]
    dsimp only
    rw [nextOf_middle, Option.map_some, secondOf_array inside]
  · have others := holds.layered.differ_middle
    have other := Ne.symm (holds.layered.differ (List.mem_append_right front List.mem_cons_self))
    have array : setAt (secondOf (front ++ entry :: back)).arrayStorage entry.1 amount =
        (secondOf (front ++ entry :: back)).arrayStorage := by
      rw [secondOf, List.take_append_of_le_length beyond]
      exact setAt_absent (fun other member => others.1 other (List.mem_of_mem_take member)) amount
    rw [update, location, holds.storage, storageOf_setAt other (by simp), array, storageOf]
    dsimp only
    rw [nextOf_middle, Option.map_some]

theorem update_holds (holds : Holds map entries) (id : MosaicId) (amount : Amount) :
    Holds (map.update id amount) (setAt entries id amount) :=
  ⟨update_storage holds id amount, holds.layered.setAt id amount⟩

end Catapult.State
