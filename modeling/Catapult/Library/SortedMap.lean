import Mathlib.Data.List.Sort

/-
This file develops maps as lists of entries in ascending order of their keys.
-/

/-- The unsigned words of 64 bits are linearly ordered. -/
instance linearOrderUInt64 : LinearOrder UInt64 where
  le_refl _ := UInt64.le_refl _
  le_trans _ _ _ := UInt64.le_trans
  le_antisymm _ _ := UInt64.le_antisymm
  le_total := UInt64.le_total
  lt_iff_le_not_ge lhs rhs := by
    rw [UInt64.not_le]
    exact ⟨fun less => ⟨UInt64.le_of_lt less, less⟩, fun both => both.2⟩
  toDecidableLE := inferInstance
  toDecidableLT := inferInstance
  toDecidableEq := inferInstance

/-- Byte strings of one length are compared byte by byte. -/
instance linearOrderVector (n : Nat) : LinearOrder (Vector UInt8 n) where
  le_refl := Vector.le_refl
  le_trans _ _ _ := Vector.le_trans
  le_antisymm _ _ := Vector.le_antisymm
  le_total := Vector.le_total
  lt_iff_le_not_ge lhs rhs := by
    rw [Vector.not_le]
    exact ⟨fun less => ⟨Vector.le_of_lt less, less⟩, fun both => both.2⟩
  toDecidableLE := inferInstance
  toDecidableLT := inferInstance
  toDecidableEq := inferInstance
  compare lhs rhs := compareOfLessAndEq lhs rhs
  compare_eq_compareOfLessAndEq _ _ := rfl

namespace SortedMap

variable {K V : Type} [LinearOrder K]

/-- An entry is placed before the first entry without a lower key. -/
def place (entry : K × V) : List (K × V) → List (K × V)
  | [] => [entry]
  | other :: entries => if other.1 < entry.1 then other :: place entry entries else entry :: other :: entries

/-- An insertion does not replace an entry with the same key. -/
def insert (entry : K × V) (entries : List (K × V)) : List (K × V) :=
  if entries.any fun other => other.1 = entry.1 then entries else place entry entries

def find (key : K) (entries : List (K × V)) : Option (K × V) := entries.find? fun entry => entry.1 = key

/-- The value of a key that is already there is replaced. -/
def replace (entry : K × V) (entries : List (K × V)) : List (K × V) := entries.map fun other => if other.1 = entry.1 then entry else other

def erase (key : K) (entries : List (K × V)) : List (K × V) := entries.filter fun entry => entry.1 ≠ key

/-- The keys are strictly ascending. -/
def Ascending (entries : List (K × V)) : Prop := entries.Pairwise fun lower upper => lower.1 < upper.1

theorem mem_place {entry other : K × V} {entries : List (K × V)} :
    other ∈ place entry entries ↔ other = entry ∨ other ∈ entries := by
  induction entries with
  | nil => simp [place]
  | cons first entries ih =>
    unfold place
    split
    · rw [List.mem_cons, ih, List.mem_cons]
      tauto
    · rw [List.mem_cons]

theorem perm_place (entry : K × V) (entries : List (K × V)) : (place entry entries).Perm (entry :: entries) := by
  induction entries with
  | nil => exact .refl _
  | cons first entries ih =>
    unfold place
    split
    · exact (ih.cons first).trans (.swap entry first entries)
    · exact .refl _

theorem Ascending.place {entry : K × V} {entries : List (K × V)} (ascending : Ascending entries)
    (absent : ∀ other ∈ entries, other.1 ≠ entry.1) : Ascending (place entry entries) := by
  induction entries with
  | nil => exact List.pairwise_singleton _ _
  | cons first entries ih =>
    obtain ⟨below, rest⟩ := List.pairwise_cons.mp ascending
    unfold SortedMap.place
    split
    · next less =>
      refine List.pairwise_cons.mpr ⟨?_, ih rest fun other member => absent other (.tail _ member)⟩
      intro other member
      rcases mem_place.mp member with rfl | member
      · exact less
      · exact below other member
    · next notLess =>
      have less : entry.1 < first.1 :=
        lt_of_le_of_ne (not_lt.mp notLess) (Ne.symm (absent first List.mem_cons_self))
      refine List.pairwise_cons.mpr ⟨?_, ascending⟩
      intro other member
      rcases List.mem_cons.mp member with rfl | member
      · exact less
      · exact less.trans (below other member)

/-- An entry below all others is placed first. -/
theorem place_of_lt {entry : K × V} {entries : List (K × V)} (below : ∀ other ∈ entries, entry.1 < other.1) :
    place entry entries = entry :: entries := by
  cases entries with
  | nil => rfl
  | cons first entries => exact if_neg (not_lt_of_gt (below first List.mem_cons_self))

/-- An entry above the first part of the entries is placed in the second part. -/
theorem place_append {entry : K × V} {front back : List (K × V)} (above : ∀ other ∈ front, other.1 < entry.1) :
    place entry (front ++ back) = front ++ place entry back := by
  induction front with
  | nil => rfl
  | cons first front ih =>
    rw [List.cons_append, place, if_pos (above first List.mem_cons_self),
      ih fun other member => above other (.tail _ member), List.cons_append]

/-- The place of an entry is the number of entries with lower keys. -/
theorem place_eq_insertIdx (entry : K × V) (entries : List (K × V)) : place entry entries =
      entries.insertIdx (entries.takeWhile fun other => decide (other.1 < entry.1)).length entry := by
  induction entries with
  | nil => rfl
  | cons first entries ih =>
    unfold place
    split
    · next less => rw [List.takeWhile_cons_of_pos (by simpa using less), List.length_cons, List.insertIdx_succ_cons, ih]
    · next notLess => rw [List.takeWhile_cons_of_neg (by simpa using notLess), List.length_nil, List.insertIdx_zero]

theorem insertIdx_append {T : Type} {value : T} {front back : List T} {index : Nat} (inside : index ≤ front.length) :
    (front ++ back).insertIdx index value = front.insertIdx index value ++ back := by
  induction front generalizing index with
  | nil =>
    obtain rfl := Nat.le_zero.mp inside
    rfl
  | cons first front ih =>
    cases index with
    | zero => rfl
    | succ index =>
      rw [List.cons_append, List.insertIdx_succ_cons, ih (Nat.le_of_succ_le_succ inside),
        List.insertIdx_succ_cons, List.cons_append]

theorem insert_of_absent {entry : K × V} {entries : List (K × V)} (absent : ∀ other ∈ entries, other.1 ≠ entry.1) :
    insert entry entries = place entry entries := by
  refine if_neg ?_
  rw [List.any_eq_true]
  rintro ⟨other, member, same⟩
  exact absent other member (of_decide_eq_true same)

theorem mem_keys_insert {entry : K × V} {entries : List (K × V)} {key : K} :
    key ∈ (insert entry entries).map Prod.fst ↔ key = entry.1 ∨ key ∈ entries.map Prod.fst := by
  unfold insert
  split
  · next present =>
    obtain ⟨other, member, same⟩ := List.any_eq_true.mp present
    refine ⟨.inr, fun either => either.elim ?_ id⟩
    rintro rfl
    exact List.mem_map.mpr ⟨other, member, of_decide_eq_true same⟩
  · simp only [List.mem_map, mem_place]
    constructor
    · rintro ⟨other, rfl | member, rfl⟩
      · exact .inl rfl
      · exact .inr ⟨other, member, rfl⟩
    · rintro (rfl | ⟨other, member, rfl⟩)
      · exact ⟨entry, .inl rfl, rfl⟩
      · exact ⟨other, .inr member, rfl⟩

theorem Ascending.insert {entry : K × V} {entries : List (K × V)} (ascending : Ascending entries) :
    Ascending (insert entry entries) := by
  unfold SortedMap.insert
  split
  · exact ascending
  · next absent =>
    refine ascending.place fun other member same => absent ?_
    exact List.any_eq_true.mpr ⟨other, member, decide_eq_true same⟩

/-- Entries that are inserted one after another are in ascending order. -/
theorem Ascending.foldl_insert {entries : List (K × V)} (ascending : Ascending entries) (others : List (K × V)) :
    Ascending (others.foldl (fun entries other => SortedMap.insert other entries) entries) := by
  induction others generalizing entries with
  | nil => exact ascending
  | cons other others ih => exact ih ascending.insert

theorem mem_keys_foldl_insert {entries others : List (K × V)} {key : K} :
    key ∈ (others.foldl (fun entries other => insert other entries) entries).map Prod.fst ↔
      key ∈ entries.map Prod.fst ∨ key ∈ others.map Prod.fst := by
  induction others generalizing entries with
  | nil => simp
  | cons other others ih =>
    rw [List.foldl_cons, ih, mem_keys_insert, List.map_cons, List.mem_cons]
    tauto

theorem mem_insert {entry other : K × V} {entries : List (K × V)} (member : other ∈ insert entry entries) :
    other = entry ∨ other ∈ entries := by
  unfold insert at member
  split at member
  · exact .inr member
  · exact mem_place.mp member

/-- In an ascending list every key has one entry. -/
theorem Ascending.eq_of_key {entries : List (K × V)} (ascending : Ascending entries) {first second : K × V}
    (memberFirst : first ∈ entries) (memberSecond : second ∈ entries) (same : first.1 = second.1) : first = second := by
  induction entries with
  | nil => cases memberFirst
  | cons entry entries ih =>
    obtain ⟨below, rest⟩ := List.pairwise_cons.mp ascending
    rcases List.mem_cons.mp memberFirst with rfl | laterFirst
    · rcases List.mem_cons.mp memberSecond with rfl | laterSecond
      · rfl
      · exact absurd same (ne_of_lt (below second laterSecond))
    · rcases List.mem_cons.mp memberSecond with rfl | laterSecond
      · exact absurd same.symm (ne_of_lt (below first laterFirst))
      · exact ih rest laterFirst laterSecond

theorem find_eq_none {key : K} {entries : List (K × V)} : find key entries = none ↔ ∀ entry ∈ entries, entry.1 ≠ key := by
  unfold find
  simp

theorem mem_of_find {key : K} {entries : List (K × V)} {entry : K × V} (found : find key entries = some entry) :
    entry ∈ entries ∧ entry.1 = key :=
  ⟨List.mem_of_find?_eq_some found, by simpa using List.find?_some found⟩

theorem Ascending.find_of_mem {entries : List (K × V)} (ascending : Ascending entries) {entry : K × V} (member : entry ∈ entries) :
    find entry.1 entries = some entry := by
  cases found : find entry.1 entries with
  | none => exact absurd rfl (find_eq_none.mp found entry member)
  | some other =>
    obtain ⟨otherMember, same⟩ := mem_of_find found
    rw [ascending.eq_of_key otherMember member same]

theorem keys_replace (entry : K × V) (entries : List (K × V)) : (replace entry entries).map Prod.fst = entries.map Prod.fst := by
  rw [replace, List.map_map]
  refine List.map_congr_left fun other _ => ?_
  rw [Function.comp_apply]
  split
  · next same => exact same.symm
  · rfl

theorem ascending_iff_keys {entries : List (K × V)} : Ascending entries ↔ (entries.map Prod.fst).Pairwise (· < ·) :=
  List.pairwise_map.symm

theorem Ascending.replace {entries : List (K × V)} (ascending : Ascending entries) (entry : K × V) :
    Ascending (SortedMap.replace entry entries) := by
  rw [ascending_iff_keys, keys_replace]
  exact ascending_iff_keys.mp ascending

theorem mem_replace {entry other : K × V} {entries : List (K × V)} (member : other ∈ replace entry entries) :
    other = entry ∨ other ∈ entries := by
  obtain ⟨old, oldMember, rfl⟩ := List.mem_map.mp member
  split
  · exact .inl rfl
  · exact .inr oldMember

theorem replace_of_absent {entry : K × V} {entries : List (K × V)} (absent : ∀ other ∈ entries, other.1 ≠ entry.1) :
    replace entry entries = entries := by
  calc replace entry entries = entries.map id := List.map_congr_left fun other inside => if_neg (absent other inside)
    _ = entries := List.map_id entries

/-- Only one entry is replaced. -/
theorem Ascending.perm_replace {entries : List (K × V)} (ascending : Ascending entries) {key : K} {old : V}
    (member : (key, old) ∈ entries) (new : V) :
    ∃ others, entries.Perm ((key, old) :: others) ∧ (SortedMap.replace (key, new) entries).Perm ((key, new) :: others) := by
  obtain ⟨front, back, rfl⟩ := List.append_of_mem member
  have distinct := (ascending_iff_keys.mp ascending).imp fun below => below.ne
  rw [List.map_append, List.map_cons, List.pairwise_append, List.pairwise_cons] at distinct
  obtain ⟨_, ⟨after, _⟩, before⟩ := distinct
  have frontKept : SortedMap.replace (key, new) front = front :=
    replace_of_absent fun other inside => before _ (List.mem_map_of_mem inside) _ List.mem_cons_self
  have backKept : SortedMap.replace (key, new) back = back :=
    replace_of_absent fun other inside => (after _ (List.mem_map_of_mem inside)).symm
  refine ⟨front ++ back, List.perm_middle, ?_⟩
  unfold SortedMap.replace at frontKept backKept ⊢
  rw [List.map_append, List.map_cons, frontKept, backKept, if_pos rfl]
  exact List.perm_middle

theorem find_place_self {entry : K × V} {entries : List (K × V)} (absent : find entry.1 entries = none) :
    find entry.1 (place entry entries) = some entry := by
  induction entries with
  | nil => exact List.find?_cons_of_pos (decide_eq_true rfl)
  | cons first entries ih =>
    have others := find_eq_none.mp absent
    have rest := find_eq_none.mpr fun other member => others other (List.mem_cons_of_mem _ member)
    unfold place
    split
    · rw [find, List.find?_cons_of_neg (by simpa using others first List.mem_cons_self)]
      exact ih rest
    · exact List.find?_cons_of_pos (decide_eq_true rfl)

theorem find_place_other {entry : K × V} {entries : List (K × V)} {key : K} (different : entry.1 ≠ key) :
    find key (place entry entries) = find key entries := by
  induction entries with
  | nil => exact List.find?_cons_of_neg (by simpa using different)
  | cons first entries ih =>
    unfold place
    split
    · unfold find at ih ⊢
      rw [List.find?_cons, List.find?_cons, ih]
    · exact List.find?_cons_of_neg (by simpa using different)

theorem find_replace_self {entry present : K × V} {entries : List (K × V)} (found : find entry.1 entries = some present) :
    find entry.1 (replace entry entries) = some entry := by
  induction entries with
  | nil => cases found
  | cons first entries ih =>
    unfold find replace at ih ⊢
    rw [List.map_cons]
    by_cases same : first.1 = entry.1
    · rw [if_pos same]
      exact List.find?_cons_of_pos (decide_eq_true rfl)
    · rw [if_neg same, List.find?_cons_of_neg (by simpa using same)]
      refine ih ?_
      rwa [find, List.find?_cons_of_neg (by simpa using same)] at found

theorem find_replace_other {entry : K × V} {entries : List (K × V)} {key : K} (different : entry.1 ≠ key) :
    find key (replace entry entries) = find key entries := by
  induction entries with
  | nil => rfl
  | cons first entries ih =>
    unfold find replace at ih ⊢
    rw [List.map_cons]
    by_cases same : first.1 = entry.1
    · rw [if_pos same, List.find?_cons_of_neg (by simpa using different), List.find?_cons_of_neg (by simpa using same ▸ different)]
      exact ih
    · rw [if_neg same, List.find?_cons, List.find?_cons, ih]

/-- An entry whose step changes no state can be placed anywhere. -/
theorem foldlM_place {m : Type → Type} [Monad m] [LawfulMonad m] {S : Type} {step : S → K × V → m S} {entry : K × V}
    (idle : ∀ state, step state entry = pure state) (entries : List (K × V)) (state : S) :
    (place entry entries).foldlM step state = entries.foldlM step state := by
  induction entries generalizing state with
  | nil => rw [place, List.foldlM_cons, idle, pure_bind]
  | cons first entries ih =>
    unfold place
    split
    · rw [List.foldlM_cons, List.foldlM_cons]
      exact bind_congr fun next => ih next
    · rw [List.foldlM_cons, idle, pure_bind]

/-- Steps that agree on the members of a list run alike. -/
theorem foldlM_congr {m : Type → Type} [Monad m] {S T : Type} {first second : S → T → m S} {items : List T}
    (same : ∀ state, ∀ item ∈ items, first state item = second state item) (state : S) :
    items.foldlM first state = items.foldlM second state := by
  induction items generalizing state with
  | nil => rfl
  | cons item items ih =>
    rw [List.foldlM_cons, List.foldlM_cons, same state item List.mem_cons_self]
    exact bind_congr fun next => ih (fun state other member => same state other (List.mem_cons_of_mem _ member)) next

/-- An entry can be replaced if its step stays the same. -/
theorem foldlM_replace {m : Type → Type} [Monad m] {S : Type} {step : S → K × V → m S} {entry : K × V} {entries : List (K × V)}
    (same : ∀ state, ∀ other ∈ entries, other.1 = entry.1 → step state entry = step state other) (state : S) :
    (replace entry entries).foldlM step state = entries.foldlM step state := by
  rw [replace, List.foldlM_map]
  refine foldlM_congr (fun state other member => ?_) state
  split
  · next key => exact same state other member key
  · rfl

/-- Lists that are ordered by an asymmetric relation are equal if they have the same members. -/
theorem pairwise_unique {T : Type} {r : T → T → Prop} (asymmetric : ∀ lhs rhs, r lhs rhs → ¬r rhs lhs) {first second : List T}
    (orderedFirst : first.Pairwise r) (orderedSecond : second.Pairwise r) (members : ∀ value, value ∈ first ↔ value ∈ second) :
    first = second := by
  have : Std.Irrefl r := ⟨fun value related => asymmetric value value related related⟩
  have : Std.Antisymm r := ⟨fun lhs rhs forth back => absurd back (asymmetric lhs rhs forth)⟩
  exact orderedFirst.eq_of_mem_iff orderedSecond members

end SortedMap
