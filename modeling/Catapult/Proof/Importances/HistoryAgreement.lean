import Catapult.Construction.State.AccountState
import Catapult.Library.Runs

/-
This file compares the stacks of an account before and after old values were dropped.
-/

namespace Catapult.State

open Runs

namespace CompactArrayStack

variable {T : Type} {size : Nat}

/-- The second stack has at least the newest values of the first one, up to a number of lost values. -/
def Agrees (lost : Nat) (whole other : CompactArrayStack T size) : Prop := ∃ kept, size - lost ≤ kept ∧ other.values = whole.values.take kept

variable {lost : Nat} {whole other : CompactArrayStack T size}

theorem Agrees.refl (stack : CompactArrayStack T size) : Agrees 0 stack stack :=
  ⟨size, Nat.sub_le _ _, (List.take_of_length_le stack.bounded).symm⟩

theorem Agrees.mono {more : Nat} (agrees : Agrees lost whole other) (le : lost ≤ more) : Agrees more whole other := by
  obtain ⟨kept, enough, values⟩ := agrees
  exact ⟨kept, by omega, values⟩

theorem Agrees.push (agrees : Agrees lost whole other) (value : T) : Agrees lost (whole.push value) (other.push value) := by
  obtain ⟨kept, enough, values⟩ := agrees
  refine ⟨kept + 1, by omega, ?_⟩
  change (value :: other.values).take size = ((value :: whole.values).take size).take (kept + 1)
  rw [values, List.take_take, Nat.min_comm, ← List.take_take, List.take_succ_cons]

/-- A value that was pushed is popped, and one more value may be lost. -/
theorem Agrees.pop {value : T} (agrees : Agrees lost (whole.push value) other) (few : lost < size) :
    ∃ popped, other.pop = .ok popped ∧ Agrees (lost + 1) whole popped := by
  obtain ⟨kept, enough, values⟩ := agrees
  obtain ⟨count, rfl⟩ := Nat.exists_eq_succ_of_ne_zero (show kept ≠ 0 by omega)
  obtain ⟨capacity, rfl⟩ := Nat.exists_eq_succ_of_ne_zero (show size ≠ 0 by omega)
  change other.values = ((value :: whole.values).take (capacity + 1)).take (count + 1) at values
  rw [List.take_succ_cons, List.take_succ_cons, List.take_take] at values
  unfold CompactArrayStack.pop
  rw [if_neg (by rw [values]; exact Bool.false_ne_true)]
  refine ⟨_, rfl, min count capacity, by omega, ?_⟩
  dsimp only
  rw [values, List.tail_cons]

theorem modifyHead_take (change : T → T) (values : List T) (count : Nat) :
    (values.take count).modifyHead change = (values.modifyHead change).take count := by
  cases values with
  | nil => rw [List.take_nil, List.modifyHead_nil, List.take_nil]
  | cons value values =>
    cases count with
    | zero => rfl
    | succ count => rfl

/-- A change of the newest value is the same for both stacks. -/
theorem Agrees.modifyTop {change : T → T} {changed : CompactArrayStack T size} (agrees : Agrees lost whole other) (few : lost < size)
    (ran : whole.modifyTop change = .ok changed) : ∃ others, other.modifyTop change = .ok others ∧ Agrees lost changed others := by
  obtain ⟨kept, enough, values⟩ := agrees
  unfold CompactArrayStack.modifyTop at ran ⊢
  cases equal : whole.values with
  | nil =>
    rw [if_pos (by rw [equal]; rfl)] at ran
    cases ran
  | cons value rest =>
    obtain ⟨count, rfl⟩ := Nat.exists_eq_succ_of_ne_zero (show kept ≠ 0 by omega)
    rw [if_neg (by rw [equal]; exact Bool.false_ne_true)] at ran
    rw [if_neg (by rw [values, equal]; exact Bool.false_ne_true)]
    cases ran
    refine ⟨_, rfl, count + 1, enough, ?_⟩
    dsimp only
    rw [values, modifyHead_take]

/-- A change of the newest value is undone on both stacks. -/
theorem Agrees.undoTop {change undo : T → T} {changed : CompactArrayStack T size} (undone : ∀ value, undo (change value) = value)
    (ran : whole.modifyTop change = .ok changed) (agrees : Agrees lost changed other) (few : lost < size) :
    ∃ others, other.modifyTop undo = .ok others ∧ Agrees lost whole others := by
  have back : changed.modifyTop undo = .ok whole := by
    unfold CompactArrayStack.modifyTop at ran ⊢
    cases equal : whole.values with
    | nil =>
      rw [if_pos (by rw [equal]; rfl)] at ran
      cases ran
    | cons value rest =>
      rw [if_neg (by rw [equal]; exact Bool.false_ne_true)] at ran
      cases ran
      dsimp only
      rw [if_neg (by rw [equal]; exact Bool.false_ne_true)]
      obtain ⟨values, bounded⟩ := whole
      cases equal
      simp only [List.modifyHead_cons, undone]
  exact agrees.modifyTop few back

/-- A pushed value can be changed at once. -/
theorem modifyTop_push {change : T → T} (stack : CompactArrayStack T size) (value : T) (positive : 0 < size) :
    (stack.push value).modifyTop change = .ok (stack.push (change value)) := by
  obtain ⟨capacity, rfl⟩ := Nat.exists_eq_succ_of_ne_zero (Nat.ne_of_gt positive)
  rfl

variable [Inhabited T]

theorem getElem?_toList (stack : CompactArrayStack T size) {index : Nat} (inside : index < size) :
    stack.toList[index]? = some (stack.values.getD index default) := by
  unfold toList
  by_cases held : index < stack.values.length
  · rw [List.getElem?_append_left held, List.getElem?_eq_getElem held, List.getD_eq_getElem?_getD, List.getElem?_eq_getElem held, Option.getD_some]
  · rw [List.getElem?_append_right (Nat.le_of_not_lt held), List.getElem?_replicate_of_lt (by omega),
      List.getD_eq_getElem?_getD, List.getElem?_eq_none (Nat.le_of_not_lt held), Option.getD_none]

/-- An iteration shows the same newest values. -/
theorem Agrees.newest (agrees : Agrees lost whole other) : other.toList.take (size - lost) = whole.toList.take (size - lost) := by
  obtain ⟨kept, enough, values⟩ := agrees
  apply List.ext_getElem?
  intro index
  by_cases inside : index < size - lost
  · rw [List.getElem?_take_of_lt inside, List.getElem?_take_of_lt inside, getElem?_toList _ (by omega), getElem?_toList _ (by omega), values,
      List.getD_eq_getElem?_getD, List.getD_eq_getElem?_getD, List.getElem?_take_of_lt (by omega)]
  · rw [List.getElem?_eq_none (by rw [List.length_take]; omega), List.getElem?_eq_none (by rw [List.length_take]; omega)]

theorem Agrees.front (agrees : Agrees lost whole other) (few : lost < size) : other.front = whole.front := by
  obtain ⟨kept, enough, values⟩ := agrees
  rw [CompactArrayStack.front, CompactArrayStack.front, values]
  cases whole.values with
  | nil => rw [List.take_nil]
  | cons value values =>
    obtain ⟨count, rfl⟩ := Nat.exists_eq_succ_of_ne_zero (show kept ≠ 0 by omega)
    rfl

end CompactArrayStack

/-- A snapshot is pushed unless there is a later one. -/
theorem AccountImportanceSnapshots.set_eq_ok {snapshots next : AccountImportanceSnapshots} {importance : Importance} {height : ImportanceHeight} :
    set snapshots importance height = .ok next ↔
      ¬(snapshots.front.height ≠ 0 ∧ height ≤ snapshots.front.height) ∧ snapshots.push ⟨importance, height⟩ = next := by
  unfold set
  dsimp only
  by_cases later : AccountImportanceSnapshots.height snapshots ≠ 0 ∧ height ≤ AccountImportanceSnapshots.height snapshots
  · rw [if_pos later]
    constructor
    · intro failed
      cases failed
    · intro pushed
      exact absurd later pushed.1
  · rw [if_neg later, Except.ok.injEq]
    exact (and_iff_right later).symm

namespace AccountActivityBuckets

open CompactArrayStack (Agrees)

variable {buckets other changed : AccountActivityBuckets} {height : ImportanceHeight} {lost : Nat}
  {action undo : HeightDetachedActivityBucket → HeightDetachedActivityBucket}

/-- The action on a bucket with its height. -/
def onBucket (action : HeightDetachedActivityBucket → HeightDetachedActivityBucket) (bucket : ActivityBucket) : ActivityBucket :=
  { bucket with toHeightDetachedActivityBucket := action bucket.toHeightDetachedActivityBucket }

theorem tryUpdate_below (below : buckets.front.startHeight < height) : tryUpdate buckets height action = .ok (false, buckets) := by
  unfold tryUpdate tryUpdateOrCreate
  dsimp only
  rw [if_neg fun later => UInt64.lt_asymm later.2 below, if_pos below, if_neg Bool.false_ne_true]

/-- Either the newest bucket is too old and nothing is done, or it is changed. -/
theorem tryUpdate_eq_ok {updated : Bool} : tryUpdate buckets height action = .ok (updated, changed) ↔
    (buckets.front.startHeight < height ∧ updated = false ∧ changed = buckets) ∨
      (¬buckets.front.startHeight < height ∧ ¬(buckets.front.startHeight ≠ 0 ∧ height < buckets.front.startHeight) ∧ updated = true ∧
        buckets.modifyTop (onBucket action) = .ok changed) := by
  by_cases below : buckets.front.startHeight < height
  · rw [tryUpdate_below below]
    constructor
    · intro same
      cases same
      exact .inl ⟨below, rfl, rfl⟩
    · rintro (⟨-, rfl, rfl⟩ | ⟨notBelow, -⟩)
      · rfl
      · exact absurd below notBelow
  · unfold tryUpdate tryUpdateOrCreate
    dsimp only
    by_cases later : buckets.front.startHeight ≠ 0 ∧ height < buckets.front.startHeight
    · rw [if_pos later]
      constructor
      · intro failed
        cases failed
      · rintro (⟨isBelow, -⟩ | ⟨-, notLater, -⟩)
        · exact absurd isBelow below
        · exact absurd later notLater
    · rw [if_neg later, if_neg below]
      constructor
      · intro ran
        refine .inr ⟨below, later, ?_⟩
        change (buckets.modifyTop (onBucket action)).map _ = _ at ran
        cases modified : buckets.modifyTop (onBucket action) with
        | error failure =>
          rw [modified] at ran
          cases ran
        | ok next =>
          rw [modified] at ran
          cases ran
          exact ⟨rfl, rfl⟩
      · rintro (⟨isBelow, -⟩ | ⟨-, -, rfl, modified⟩)
        · exact absurd isBelow below
        · change (buckets.modifyTop (onBucket action)).map _ = _
          rw [modified]
          rfl

theorem front_modifyTop {change : ActivityBucket → ActivityBucket} (modified : buckets.modifyTop change = .ok changed) :
    changed.front = change buckets.front := by
  unfold CompactArrayStack.modifyTop at modified
  unfold CompactArrayStack.front
  cases equal : buckets.values with
  | nil =>
    rw [if_pos (by rw [equal]; rfl)] at modified
    cases modified
  | cons value rest =>
    rw [if_neg (by rw [equal]; exact Bool.false_ne_true)] at modified
    cases modified
    dsimp only
    rw [equal]
    rfl

/-- An update is the same for stacks that agree. -/
theorem tryUpdate_agrees {updated : Bool} (agrees : Agrees lost buckets other) (few : lost < activityBucketHistorySize)
    (ran : tryUpdate buckets height action = .ok (updated, changed)) :
    ∃ others, tryUpdate other height action = .ok (updated, others) ∧ Agrees lost changed others := by
  have front := agrees.front few
  rcases tryUpdate_eq_ok.mp ran with ⟨below, rfl, rfl⟩ | ⟨notBelow, notLater, rfl, modified⟩
  · exact ⟨other, tryUpdate_below (front ▸ below), agrees⟩
  · obtain ⟨others, modifiedOther, same⟩ := agrees.modifyTop few modified
    exact ⟨others, tryUpdate_eq_ok.mpr (.inr ⟨front.symm ▸ notBelow, front.symm ▸ notLater, rfl, modifiedOther⟩), same⟩

/-- An update is undone on a stack that agrees with the updated one. -/
theorem tryUpdate_undone {updated : Bool} (undone : ∀ bucket, undo (action bucket) = bucket)
    (ran : tryUpdate buckets height action = .ok (updated, changed)) (agrees : Agrees lost changed other)
    (few : lost < activityBucketHistorySize) :
    ∃ others, tryUpdate other height undo = .ok (updated, others) ∧ Agrees lost buckets others := by
  have front := agrees.front few
  rcases tryUpdate_eq_ok.mp ran with ⟨below, rfl, rfl⟩ | ⟨notBelow, notLater, rfl, modified⟩
  · exact ⟨other, tryUpdate_below (front ▸ below), agrees⟩
  · have height_eq : other.front.startHeight = buckets.front.startHeight := by rw [front, front_modifyTop modified, onBucket]
    have undoneBucket : ∀ bucket, onBucket undo (onBucket action bucket) = bucket := fun bucket => by rw [onBucket, onBucket, undone]
    obtain ⟨others, modifiedOther, same⟩ := Agrees.undoTop undoneBucket modified agrees few
    exact ⟨others, tryUpdate_eq_ok.mpr (.inr ⟨height_eq.symm ▸ notBelow, height_eq.symm ▸ notLater, rfl, modifiedOther⟩), same⟩

/-- A missing bucket is pushed with its change. -/
theorem update_push (below : buckets.front.startHeight < height) :
    update buckets height action = .ok (buckets.push (onBucket action { (default : ActivityBucket) with startHeight := height })) := by
  unfold update tryUpdateOrCreate
  dsimp only
  rw [if_neg fun later => UInt64.lt_asymm later.2 below, if_pos below, if_pos rfl, CompactArrayStack.modifyTop_push _ _ (by decide)]
  rfl

/-- The buckets become older, and only empty buckets may stand between them. -/
structure Ordered (last : ImportanceHeight) (buckets : AccountActivityBuckets) : Prop where
  notLater : ∀ bucket ∈ buckets.values, bucket.startHeight ≤ last
  descending : buckets.values.Pairwise fun newer older => newer.startHeight ≠ 0 → older.startHeight < newer.startHeight

variable {last : ImportanceHeight}

theorem Ordered.empty : Ordered last CompactArrayStack.empty := ⟨fun _ member => absurd member List.not_mem_nil, .nil⟩

theorem Ordered.agrees (ordered : Ordered last buckets) (agrees : Agrees lost buckets other) : Ordered last other := by
  obtain ⟨kept, -, values⟩ := agrees
  constructor
  · intro bucket member
    rw [values] at member
    exact ordered.notLater bucket (List.mem_of_mem_take member)
  · rw [values]
    exact ordered.descending.sublist (List.take_sublist _ _)

theorem Ordered.mono {next : ImportanceHeight} (ordered : Ordered last buckets) (le : last ≤ next) : Ordered next buckets :=
  ⟨fun bucket member => UInt64.le_trans (ordered.notLater bucket member) le, ordered.descending⟩

/-- A change of the newest bucket keeps its height. -/
theorem Ordered.tryUpdate {updated : Bool} (ordered : Ordered last buckets) (ran : tryUpdate buckets height action = .ok (updated, changed)) :
    Ordered last changed := by
  rcases tryUpdate_eq_ok.mp ran with ⟨-, -, rfl⟩ | ⟨-, -, -, modified⟩
  · exact ordered
  · unfold CompactArrayStack.modifyTop at modified
    cases equal : buckets.values with
    | nil =>
      rw [if_pos (by rw [equal]; rfl)] at modified
      cases modified
    | cons bucket rest =>
      rw [if_neg (by rw [equal]; exact Bool.false_ne_true)] at modified
      cases modified
      obtain ⟨notLater, descending⟩ := ordered
      rw [equal] at notLater descending
      constructor
      · intro changedBucket member
        dsimp only at member
        rw [equal, List.modifyHead_cons] at member
        rcases List.mem_cons.mp member with rfl | member
        · exact notLater bucket List.mem_cons_self
        · exact notLater changedBucket (List.mem_cons_of_mem _ member)
      · dsimp only
        rw [equal, List.modifyHead_cons]
        exact .cons (List.pairwise_cons.mp descending).1 (List.pairwise_cons.mp descending).2

/-- A recalculation pushes either a bucket of its own height or an empty one. -/
theorem Ordered.push {next : ImportanceHeight} (ordered : Ordered last buckets) (later : last < next) {bucket : ActivityBucket}
    (own : bucket.startHeight = 0 ∨ bucket.startHeight = next) : Ordered next (buckets.push bucket) := by
  have older : ∀ other ∈ buckets.values, other.startHeight < next := fun other member => UInt64.lt_of_le_of_lt (ordered.notLater other member) later
  constructor
  · intro other member
    rcases List.mem_cons.mp (List.mem_of_mem_take member) with rfl | member
    · rcases own with own | own
      · rw [own]
        exact UInt64.zero_le
      · exact UInt64.le_of_eq own
    · exact UInt64.le_of_lt (older other member)
  · refine List.Pairwise.sublist (List.take_sublist _ _) (.cons ?_ ordered.descending)
    intro other member some
    rcases own with own | own
    · exact absurd own some
    · rw [own]
      exact older other member

theorem Ordered.front_lt {next : ImportanceHeight} (ordered : Ordered last buckets) (later : last < next) : buckets.front.startHeight < next := by
  unfold CompactArrayStack.front
  cases equal : buckets.values with
  | nil => exact UInt64.lt_of_le_of_lt UInt64.zero_le later
  | cons bucket rest => exact UInt64.lt_of_le_of_lt (ordered.notLater bucket (equal ▸ List.mem_cons_self)) later

/-- There is no bucket of a later height. -/
theorem Ordered.get_ne {next : ImportanceHeight} (ordered : Ordered last buckets) (later : last < next) : (get buckets next).startHeight ≠ next := by
  have positive : (default : ActivityBucket).startHeight ≠ next := fun same =>
    UInt64.not_lt.mpr UInt64.zero_le (same ▸ later : last < (default : ActivityBucket).startHeight)
  unfold get
  cases found : buckets.toList.find? fun bucket => bucket.startHeight = next with
  | none => exact positive
  | some bucket =>
    intro same
    rcases List.mem_append.mp (List.mem_of_find?_eq_some found) with member | member
    · exact UInt64.not_lt.mpr (ordered.notLater bucket member) ((same : bucket.startHeight = next) ▸ later)
    · rw [Option.getD_some, List.eq_of_mem_replicate member] at same
      exact positive same

end AccountActivityBuckets

end Catapult.State
