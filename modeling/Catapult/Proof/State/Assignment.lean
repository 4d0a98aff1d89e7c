import Catapult.Construction.State.AccountAssignment
import Catapult.Proof.State.AccountBalances

/-
This file decides when an assignment of account states copies the source.
-/

namespace Catapult.State

/-- Balances are changed, optimized and assigned any number of times. -/
inductive BuiltBalances : AccountBalances → Prop where
  | empty : BuiltBalances .empty
  | credit {balances next : AccountBalances} {id : MosaicId} {amount : Amount} (built : BuiltBalances balances)
      (credited : balances.credit id amount = .ok next) : BuiltBalances next
  | debit {balances next : AccountBalances} {id : MosaicId} {amount : Amount} (built : BuiltBalances balances)
      (debited : balances.debit id amount = .ok next) : BuiltBalances next
  | optimize {balances next : AccountBalances} {id : MosaicId} (built : BuiltBalances balances)
      (optimized : balances.optimize id = .ok next) : BuiltBalances next
  | assign {target source next : AccountBalances} (builtTarget : BuiltBalances target) (builtSource : BuiltBalances source)
      (assigned : target.assign source = .ok next) : BuiltBalances next

section Balances

variable {optimized other : MosaicId} {balances target source next : AccountBalances} {entries targetEntries : List Mosaic}

/-- Only a mosaic that is not held is inserted. -/
theorem Shows.insert_absent (shows : Shows optimized balances entries) {pair : Mosaic} {map : CompactMosaicMap}
    (inserted : balances.balances.insert pair = .ok map) : pair.1 ≠ 0 ∧ ∀ entry ∈ entries, entry.1 ≠ pair.1 := by
  unfold CompactMosaicMap.insert at inserted
  split at inserted
  · cases inserted
  · next valid =>
    refine ⟨valid, ?_⟩
    split at inserted
    · cases inserted
    · next notFound =>
      intro entry member same
      apply notFound
      rw [find_eq shows.holds, List.find?_isSome]
      exact ⟨entry, member, decide_eq_true same⟩

/-- Entries that were inserted one after the other have joined the others. -/
theorem Shows.of_insertAll (shows : Shows optimized balances entries) {pairs : List Mosaic} {map : CompactMosaicMap}
    (inserted : AccountBalances.insertAll balances.balances pairs = .ok map) :
    ∃ arranged, Shows optimized { balances with balances := map } arranged ∧
      (∀ entry, entry ∈ arranged ↔ entry ∈ pairs ∨ entry ∈ entries) ∧
      ∀ pair ∈ pairs, ∀ entry ∈ entries, entry.1 ≠ pair.1 := by
  induction pairs generalizing balances entries with
  | nil =>
    cases inserted
    exact ⟨entries, shows, by simp, fun pair member => (nomatch member)⟩
  | cons pair pairs ih =>
    rw [AccountBalances.insertAll, List.foldlM_cons] at inserted
    obtain ⟨first, insertedFirst, rest⟩ := Runs.bind_eq_ok.mp inserted
    obtain ⟨valid, absent⟩ := shows.insert_absent insertedFirst
    obtain ⟨same, arranged, insertedSame, showsFirst, members⟩ := shows.insert valid absent
    obtain rfl : first = same := Except.ok.inj (insertedFirst.symm.trans insertedSame)
    obtain ⟨final, showsFinal, membersFinal, absentFinal⟩ := ih showsFirst rest
    refine ⟨final, showsFinal, ?_, ?_⟩
    · intro entry
      rw [membersFinal, members, List.mem_cons]
      tauto
    · rintro other (_ | ⟨_, member⟩) entry known
      · exact absent entry known
      · exact absentFinal other member entry ((members entry).mpr (.inr known))

/-- An assignment that succeeds keeps the entries of the target. -/
theorem Shows.of_assign (shows : Shows optimized source entries) (showsTarget : Shows other target targetEntries)
    (assigned : target.assign source = .ok next) :
    ∃ arranged, Shows optimized next arranged ∧ (∀ entry, entry ∈ arranged ↔ entry ∈ entries ∨ entry ∈ targetEntries) ∧
      ∀ pair ∈ entries, ∀ entry ∈ targetEntries, entry.1 ≠ pair.1 := by
  obtain ⟨start, startEntries, result, showsStart, members⟩ := showsTarget.optimized_map optimized
  unfold AccountBalances.assign at assigned
  rw [shows.optimized, shows.toList, result] at assigned
  split at assigned
  · cases assigned
  · next map inserted =>
    cases assigned
    obtain ⟨arranged, showsNext, joined, absent⟩ := showsStart.of_insertAll inserted
    refine ⟨arranged, showsNext, ?_, ?_⟩
    · intro entry
      rw [joined, members]
    · intro pair member entry known
      exact absent pair member entry ((members entry).mpr known)

theorem BuiltBalances.shows (built : BuiltBalances balances) : ∃ optimized entries, Shows optimized balances entries := by
  induction built with
  | empty => exact ⟨0, [], shows_empty⟩
  | credit _ credited ih =>
    obtain ⟨optimized, _, shows⟩ := ih
    exact ⟨optimized, shows.credit credited⟩
  | debit _ debited ih =>
    obtain ⟨optimized, _, shows⟩ := ih
    exact ⟨optimized, shows.debit debited⟩
  | optimize _ ran ih =>
    obtain ⟨_, _, shows⟩ := ih
    obtain ⟨arranged, showsNext, _⟩ := shows.optimize ran
    exact ⟨_, arranged, showsNext⟩
  | assign _ _ assigned ihTarget ihSource =>
    obtain ⟨_, _, showsTarget⟩ := ihTarget
    obtain ⟨optimized, _, showsSource⟩ := ihSource
    obtain ⟨arranged, showsNext, _⟩ := showsSource.of_assign showsTarget assigned
    exact ⟨optimized, arranged, showsNext⟩

/-- Balances are copied exactly if the target has none. -/
theorem assign_balances_iff (builtTarget : BuiltBalances target) (builtSource : BuiltBalances source) :
    (∃ next, target.assign source = .ok next ∧ next.toList = source.toList ∧
      next.optimizedMosaicId = source.optimizedMosaicId) ↔ target.size = 0 := by
  obtain ⟨other, targetEntries, showsTarget⟩ := builtTarget.shows
  obtain ⟨optimized, entries, showsSource⟩ := builtSource.shows
  rw [showsTarget.size, List.length_eq_zero_iff]
  constructor
  · rintro ⟨next, assigned, same, _⟩
    obtain ⟨arranged, showsNext, members, absent⟩ := showsSource.of_assign showsTarget assigned
    rw [showsNext.toList, showsSource.toList] at same
    refine List.eq_nil_iff_forall_not_mem.mpr fun entry member => ?_
    have kept : entry ∈ entries := same ▸ (members entry).mpr (.inr member)
    exact absent entry kept entry member rfl
  · rintro rfl
    exact ⟨source, showsSource.assign showsTarget, rfl, rfl⟩

end Balances

section Stacks

variable {T : Type} {size : Nat} [Inhabited T]

/-- A stack without an array keeps the values of the target. -/
theorem toList_assign_iff (target source : ArrayStack T size) : (target.assign source).toList = source.toList ↔
      source.array.isSome = true ∨ target.toList = List.replicate size default := by
  obtain ⟨array, count⟩ := source
  cases array with
  | some array => exact iff_of_true rfl (.inl rfl)
  | none =>
    have default : (ArrayStack.mk (none : Option (Vector T size)) count).toList = List.replicate size default :=
      Vector.toList_replicate
    rw [default]
    exact ⟨.inr, fun same => same.resolve_left Bool.false_ne_true⟩

theorem toList_shiftRight (array : Vector T size) (value : T) :
    (ArrayStack.shiftRight array value).toList = (value :: array.toList).take size := by
  apply List.ext_getElem
  · simp
  · intro index inside _
    cases index with
    | zero => simp [ArrayStack.shiftRight]
    | succ index =>
      have bound : index < size := by simp at inside; omega
      simp [ArrayStack.shiftRight, bound]

theorem toList_shiftLeft (array : Vector T size) (positive : 0 < size) :
    (ArrayStack.shiftLeft array).toList = array.toList.tail ++ [default] := by
  apply List.ext_getElem
  · simp
    omega
  · intro index inside _
    have bound : index < size := by simpa using inside
    by_cases last : index + 1 < size
    · have before : index < array.toList.tail.length := by simp; omega
      rw [List.getElem_append_left before]
      simp [ArrayStack.shiftLeft, last]
    · have after : array.toList.tail.length ≤ index := by simp; omega
      rw [List.getElem_append_right after]
      simp [ArrayStack.shiftLeft, last]

/-- The array holds the pushed values and is allocated exactly if there are some. -/
structure Agrees (stack : ArrayStack T size) (values : CompactArrayStack T size) : Prop where
  toList : stack.toList = values.toList
  count : stack.count.toNat = values.values.length
  allocated : stack.array = none ↔ values.values = []

theorem agrees_empty : Agrees (ArrayStack.empty : ArrayStack T size) CompactArrayStack.empty :=
  ⟨by simp [ArrayStack.empty, ArrayStack.toList, CompactArrayStack.empty, CompactArrayStack.toList], rfl, iff_of_true rfl rfl⟩

variable {stack : ArrayStack T size} {values : CompactArrayStack T size}

theorem Agrees.push (agrees : Agrees stack values) (positive : 0 < size) (fits : size < 2 ^ 64) (value : T) :
    Agrees (stack.push value) (values.push value) := by
  have bounded := values.bounded
  refine ⟨?_, ?_, ?_⟩
  · have shifted : (stack.push value).toList = (value :: stack.toList).take size := toList_shiftRight _ value
    obtain ⟨count, rfl⟩ := Nat.exists_eq_add_of_lt positive
    rw [shifted, agrees.toList]
    simp only [CompactArrayStack.toList, CompactArrayStack.push, Nat.zero_add, List.take_succ_cons, List.take_append,
      List.length_cons, List.length_take, List.cons_append, List.take_replicate]
    congr 3
    omega
  · have limit : (UInt64.ofNat size).toNat = size := by simp; omega
    simp only [ArrayStack.push, CompactArrayStack.push, UInt64.lt_iff_toNat_lt, limit, agrees.count, List.length_take,
      List.length_cons]
    split
    · next room =>
      rw [UInt64.toNat_add, agrees.count]
      simp
      omega
    · rw [agrees.count]
      omega
  · have nonempty : (values.push value).values ≠ [] := by
      simp [CompactArrayStack.push]
      omega
    exact iff_of_false (Option.some_ne_none _) nonempty

theorem Agrees.pop (agrees : Agrees stack values) (positive : 0 < size) {result : CompactArrayStack T size}
    (popped : values.pop = .ok result) : ∃ next, stack.pop = .ok next ∧ Agrees next result := by
  obtain ⟨array, count⟩ := stack
  obtain ⟨contents, bounded⟩ := values
  cases contents with
  | nil => cases popped
  | cons value contents =>
    cases popped
    cases array with
    | none => exact absurd (agrees.allocated.mp rfl) (List.cons_ne_nil _ _)
    | some array =>
      have counted : count.toNat = contents.length + 1 := agrees.count
      have shown : array.toList = value :: contents ++ List.replicate (size - (contents.length + 1)) default :=
        agrees.toList
      have one : (1 : UInt64) ≤ count := by
        rw [UInt64.le_iff_toNat_le, counted]
        simp
      have left : (count - 1).toNat = contents.length := by
        rw [UInt64.toNat_sub_of_le _ _ one, counted]
        simp
      have last : count - 1 = 0 ↔ contents = [] := by
        rw [← UInt64.toNat_inj, left, ← List.length_eq_zero_iff]
        rfl
      refine ⟨_, rfl, ?_, left, ?_⟩
      · by_cases none : contents = []
        · subst none
          rw [if_pos (last.mpr rfl)]
          simp [ArrayStack.toList, CompactArrayStack.toList]
        · rw [if_neg (none ∘ last.mp)]
          have length : contents.length + 1 ≤ size := bounded
          have rest : size - contents.length = size - (contents.length + 1) + 1 := by omega
          change (ArrayStack.shiftLeft array).toList = contents ++ List.replicate (size - contents.length) default
          rw [toList_shiftLeft array positive, shown, rest, List.replicate_succ']
          simp
      · change (if count - 1 = 0 then none else some (ArrayStack.shiftLeft array)) = none ↔ contents = []
        rw [← last]
        split
        · next empty => exact iff_of_true rfl empty
        · next filled => exact iff_of_false (Option.some_ne_none _) filled

inductive StackChange (T : Type) where
  | push (value : T)
  | pop

def ArrayStack.apply (stack : ArrayStack T size) : StackChange T → Except AccountError (ArrayStack T size)
  | .push value => .ok (stack.push value)
  | .pop => stack.pop

def CompactArrayStack.apply (values : CompactArrayStack T size) : StackChange T → Except AccountError (CompactArrayStack T size)
  | .push value => .ok (values.push value)
  | .pop => values.pop

/-- A stack that is never assigned holds the values of the abstract one, and so does a fresh copy of it. -/
theorem agrees_run (positive : 0 < size) (fits : size < 2 ^ 64) {changes : List (StackChange T)}
    {values : CompactArrayStack T size} (ran : changes.foldlM CompactArrayStack.apply .empty = .ok values) :
    ∃ stack : ArrayStack T size, changes.foldlM ArrayStack.apply .empty = .ok stack ∧ Agrees stack values ∧
      Agrees (ArrayStack.empty.assign stack) values := by
  suffices reached : ∀ (changes : List (StackChange T)) (stack : ArrayStack T size) (initial : CompactArrayStack T size),
      Agrees stack initial → changes.foldlM CompactArrayStack.apply initial = .ok values →
      ∃ final : ArrayStack T size, changes.foldlM ArrayStack.apply stack = .ok final ∧ Agrees final values by
    obtain ⟨final, ranFinal, agrees⟩ := reached changes .empty .empty agrees_empty ran
    refine ⟨final, ranFinal, agrees, ?_⟩
    obtain ⟨array, count⟩ := final
    cases array with
    | none => exact agrees
    | some array => exact agrees
  intro changes
  induction changes with
  | nil =>
    intro stack initial agrees ran
    cases ran
    exact ⟨stack, rfl, agrees⟩
  | cons change changes ih =>
    intro stack initial agrees ran
    obtain ⟨next, applied, rest⟩ := Runs.bind_eq_ok.mp ran
    cases change with
    | push value =>
      cases applied
      obtain ⟨final, ranFinal, agreesFinal⟩ := ih _ _ (agrees.push positive fits value) rest
      exact ⟨final, ranFinal, agreesFinal⟩
    | pop =>
      obtain ⟨popped, poppedStack, agreesPopped⟩ := agrees.pop positive applied
      obtain ⟨final, ranFinal, agreesFinal⟩ := ih _ _ agreesPopped rest
      refine ⟨final, ?_, agreesFinal⟩
      rw [List.foldlM_cons, ArrayStack.apply, poppedStack]
      exact ranFinal

/-- A full stack drops its oldest value. -/
theorem agrees_run_full : ∃ stack : ArrayStack Nat 2,
    [StackChange.push 1, .push 2, .push 3, .pop].foldlM ArrayStack.apply .empty = .ok stack ∧ Agrees stack ⟨[2], by decide⟩ ∧
      Agrees (ArrayStack.empty.assign stack) ⟨[2], by decide⟩ := agrees_run (by decide) (by decide) rfl

end Stacks

namespace StackReference

variable {T : Type} {size : Nat} {heap later : Heap (Vector T size)} {stack next : StackReference T size}

def Live (heap : Heap (Vector T size)) (stack : StackReference T size) : Prop :=
  ∀ pointer, stack.pointer = some pointer → (heap.read pointer).isSome

/-- The owner changes its own array only and then sees the result. -/
structure Performs (heap later : Heap (Vector T size)) (stack next : StackReference T size) (result : ArrayStack T size) :
    Prop where
  replaces : heap.Replaces later stack.pointer next.pointer
  seen : next.view later = result

/-- The array is changed in place. -/
theorem Performs.write {pointer : Nat} (live : (heap.read pointer).isSome) (array : Vector T size)
    (count changed : UInt64) : Performs heap (heap.write pointer array) ⟨some pointer, count⟩ ⟨some pointer, changed⟩
      ⟨some array, changed⟩ := by
  refine ⟨.write live array, ?_⟩
  rw [view, Option.bind_some, Heap.read_write_self live]

variable [Inhabited T]

theorem Performs.push (live : Live heap stack) (value : T) :
    Performs heap (stack.push heap value).1 stack (stack.push heap value).2 ((stack.view heap).push value) := by
  obtain ⟨pointer, count⟩ := stack
  cases pointer with
  | none =>
    refine ⟨.allocate heap _, ?_⟩
    rw [StackReference.push, view, Option.bind_some, Heap.read_allocate_next]
    rfl
  | some pointer =>
    obtain ⟨array, found⟩ := Option.isSome_iff_exists.mp (live pointer rfl)
    have performs := Performs.write (live pointer rfl) (ArrayStack.shiftRight array value) count
      (if count < UInt64.ofNat size then count + 1 else count)
    simpa [StackReference.push, view, ArrayStack.push, found] using performs

theorem Performs.pop (live : Live heap stack) (popped : stack.pop heap = .ok (later, next)) :
    ∃ result, (stack.view heap).pop = .ok result ∧ Performs heap later stack next result := by
  obtain ⟨pointer, count⟩ := stack
  cases pointer with
  | none => cases popped
  | some pointer =>
    obtain ⟨array, found⟩ := Option.isSome_iff_exists.mp (live pointer rfl)
    refine ⟨⟨if count - 1 = 0 then none else some (ArrayStack.shiftLeft array), count - 1⟩, ?_, ?_⟩
    · simp [ArrayStack.pop, view, found]
    · simp only [StackReference.pop, found, Option.getD_some] at popped
      split at popped
      · next last =>
        cases popped
        rw [if_pos last]
        exact ⟨.forget heap pointer, rfl⟩
      · next remaining =>
        cases popped
        rw [if_neg remaining]
        exact .write (live pointer rfl) _ _ _

theorem Performs.modifyTop (live : Live heap stack) {change : T → T}
    (modified : stack.modifyTop heap change = .ok (later, next)) :
    ∃ result, (stack.view heap).modifyTop change = .ok result ∧ Performs heap later stack next result := by
  obtain ⟨pointer, count⟩ := stack
  unfold StackReference.modifyTop at modified
  split at modified
  · cases modified
  · next filled =>
    cases pointer with
    | none => cases modified
    | some pointer =>
      obtain ⟨array, found⟩ := Option.isSome_iff_exists.mp (live pointer rfl)
      refine ⟨⟨some (ArrayStack.modifyFront array change), count⟩, ?_, ?_⟩
      · have counted : count ≠ 0 := filled
        simp [ArrayStack.modifyTop, view, found, counted]
      · simp only [found, Option.getD_some] at modified
        cases modified
        exact .write (live pointer rfl) _ _ _

/-- The target gets an array of its own. -/
theorem Performs.assign {target source : StackReference T size} (liveTarget : Live heap target)
    (liveSource : Live heap source) : Performs heap (target.assign heap source).1 target (target.assign heap source).2
      ((target.view heap).assign (source.view heap)) := by
  obtain ⟨pointer, count⟩ := source
  cases pointer with
  | none => exact ⟨.refl liveTarget, rfl⟩
  | some pointer =>
    obtain ⟨array, found⟩ := Option.isSome_iff_exists.mp (liveSource pointer rfl)
    obtain ⟨old, oldCount⟩ := target
    cases old with
    | none =>
      refine ⟨.allocate heap _, ?_⟩
      simp [StackReference.assign, view, ArrayStack.assign, found]
    | some old =>
      have replaces := Heap.Replaces.reallocate (liveTarget old rfl) array
      have fresh : old ≠ heap.next := Nat.ne_of_lt (Heap.lt_next_of_read (liveTarget old rfl))
      refine ⟨by simpa [StackReference.assign, found] using replaces, ?_⟩
      simp [StackReference.assign, view, ArrayStack.assign, found, Heap.read_release_of_ne fresh]

end StackReference

namespace AccountStore

variable {store later final : AccountStore} {index : Nat} {account : StoredAccountState StackReference}

/-- No two accounts point to the same array. -/
structure Separate (store : AccountStore) : Prop where
  snapshots : store.snapshots.Owned (store.accounts.map fun account => account.importanceSnapshots.pointer)
  buckets : store.buckets.Owned (store.accounts.map fun account => account.activityBuckets.pointer)
  built : ∀ account ∈ store.accounts, BuiltBalances account.balances

/-- One account is replaced and all others are seen as before. -/
structure Updates (store later : AccountStore) (index : Nat) (seen : StoredAccountState ArrayStack) : Prop where
  separate : Separate later
  shown : later.shows index = some seen
  others : ∀ other, other ≠ index → later.shows other = store.shows other

theorem pointer_of_found {T : Type} {size : Nat} {accounts : List (StoredAccountState StackReference)}
    (stack : StoredAccountState StackReference → StackReference T size) (found : accounts[index]? = some account) :
    (accounts.map fun account => (stack account).pointer)[index]? = some (stack account).pointer := by
  rw [List.getElem?_map, found, Option.map_some]

/-- The view of a stack that others leave alone does not change. -/
theorem view_kept {T : Type} {size : Nat} {heap changed : Heap (Vector T size)}
    {accounts : List (StoredAccountState StackReference)} {before after : Option Nat} {other : Nat}
    {untouched : StoredAccountState StackReference} (stack : StoredAccountState StackReference → StackReference T size)
    (owned : heap.Owned (accounts.map fun account => (stack account).pointer)) (replaces : heap.Replaces changed before after)
    (found : (accounts.map fun account => (stack account).pointer)[index]? = some before) (different : other ≠ index)
    (foundOther : accounts[other]? = some untouched) : (stack untouched).view changed = (stack untouched).view heap := by
  unfold StackReference.view
  have listed := pointer_of_found stack foundOther
  cases points : (stack untouched).pointer with
  | none => rfl
  | some pointer =>
    rw [points] at listed
    rw [Option.bind_some, Option.bind_some, owned.kept replaces found different listed]

theorem Separate.updates (separate : Separate store) (next : StoredAccountState StackReference) (found : store.accounts[index]? = some account)
    {snapshots : Heap (Vector ImportanceSnapshot importanceHistorySize)}
    {buckets : Heap (Vector ActivityBucket activityBucketHistorySize)}
    (replacesSnapshots : store.snapshots.Replaces snapshots account.importanceSnapshots.pointer
      next.importanceSnapshots.pointer)
    (replacesBuckets : store.buckets.Replaces buckets account.activityBuckets.pointer next.activityBuckets.pointer)
    (built : BuiltBalances next.balances) :
    Updates store ⟨snapshots, buckets, store.accounts.set index next⟩ index
      { next with
        importanceSnapshots := next.importanceSnapshots.view snapshots
        activityBuckets := next.activityBuckets.view buckets } := by
  have foundSnapshots := pointer_of_found StoredAccountState.importanceSnapshots found
  have foundBuckets := pointer_of_found StoredAccountState.activityBuckets found
  refine ⟨⟨?_, ?_, ?_⟩, ?_, ?_⟩
  · have owned := separate.snapshots.set replacesSnapshots foundSnapshots
    rwa [← List.map_set] at owned
  · have owned := separate.buckets.set replacesBuckets foundBuckets
    rwa [← List.map_set] at owned
  · intro other member
    obtain known | rfl := List.mem_or_eq_of_mem_set member
    · exact separate.built other known
    · exact built
  · rw [shows, List.getElem?_set_self (List.getElem?_eq_some_iff.mp found).1]
    rfl
  · intro other different
    rw [shows, shows, List.getElem?_set_ne (Ne.symm different)]
    cases foundOther : store.accounts[other]? with
    | none => rfl
    | some untouched =>
      have seenSnapshots := view_kept StoredAccountState.importanceSnapshots separate.snapshots replacesSnapshots
        foundSnapshots different foundOther
      have seenBuckets := view_kept StoredAccountState.activityBuckets separate.buckets replacesBuckets foundBuckets
        different foundOther
      simp [AccountStore.view, seenSnapshots, seenBuckets]

theorem Separate.liveSnapshots (separate : Separate store) (found : store.accounts[index]? = some account) :
    account.importanceSnapshots.Live store.snapshots := by
  intro pointer points
  refine separate.snapshots.live index pointer ?_
  rw [pointer_of_found StoredAccountState.importanceSnapshots found, points]

theorem Separate.liveBuckets (separate : Separate store) (found : store.accounts[index]? = some account) :
    account.activityBuckets.Live store.buckets := by
  intro pointer points
  refine separate.buckets.live index pointer ?_
  rw [pointer_of_found StoredAccountState.activityBuckets found, points]

/-- Only the balances of the account change. -/
theorem Separate.updates_balances (separate : Separate store) (found : store.accounts[index]? = some account)
    {balances : AccountBalances} (built : BuiltBalances balances) :
    Updates store (store.replace index { account with balances }) index { store.view account with balances } :=
  separate.updates _ found (.refl (separate.liveSnapshots found)) (.refl (separate.liveBuckets found)) built

theorem Separate.updates_snapshots (separate : Separate store) (found : store.accounts[index]? = some account)
    {snapshots : Heap (Vector ImportanceSnapshot importanceHistorySize)}
    {importanceSnapshots : StackReference ImportanceSnapshot importanceHistorySize}
    {result : ArrayStack ImportanceSnapshot importanceHistorySize}
    (performs : StackReference.Performs store.snapshots snapshots account.importanceSnapshots importanceSnapshots result) :
    Updates store { store.replace index { account with importanceSnapshots } with snapshots } index
      { store.view account with importanceSnapshots := result } := by
  rw [← performs.seen]
  exact separate.updates _ found performs.replaces (.refl (separate.liveBuckets found))
    (separate.built account (List.mem_of_getElem? found))

theorem Separate.updates_buckets (separate : Separate store) (found : store.accounts[index]? = some account)
    {buckets : Heap (Vector ActivityBucket activityBucketHistorySize)}
    {activityBuckets : StackReference ActivityBucket activityBucketHistorySize}
    {result : ArrayStack ActivityBucket activityBucketHistorySize}
    (performs : StackReference.Performs store.buckets buckets account.activityBuckets activityBuckets result) :
    Updates store { store.replace index { account with activityBuckets } with buckets } index
      { store.view account with activityBuckets := result } := by
  rw [← performs.seen]
  exact separate.updates _ found (.refl (separate.liveSnapshots found)) performs.replaces
    (separate.built account (List.mem_of_getElem? found))

/-- A change of one account is seen by this account only. -/
theorem Separate.changeAccount (separate : Separate store) (found : store.accounts[index]? = some account)
    {change : AccountChange} (changed : store.changeAccount index account change = .ok later) :
    ∃ seen, (store.view account).change change = .ok seen ∧ Updates store later index seen := by
  have built := separate.built account (List.mem_of_getElem? found)
  cases change with
  | credit id amount =>
    obtain ⟨balances, credited, done⟩ := Runs.bind_eq_ok.mp changed
    cases done
    exact ⟨{ store.view account with balances }, Runs.bind_eq_ok.mpr ⟨balances, credited, rfl⟩,
      separate.updates_balances found (.credit built credited)⟩
  | debit id amount =>
    obtain ⟨balances, debited, done⟩ := Runs.bind_eq_ok.mp changed
    cases done
    exact ⟨{ store.view account with balances }, Runs.bind_eq_ok.mpr ⟨balances, debited, rfl⟩,
      separate.updates_balances found (.debit built debited)⟩
  | optimize id =>
    obtain ⟨balances, optimized, done⟩ := Runs.bind_eq_ok.mp changed
    cases done
    exact ⟨{ store.view account with balances }, Runs.bind_eq_ok.mpr ⟨balances, optimized, rfl⟩,
      separate.updates_balances found (.optimize built optimized)⟩
  | pushSnapshot snapshot =>
    cases changed
    exact ⟨_, rfl, separate.updates_snapshots found (.push (separate.liveSnapshots found) snapshot)⟩
  | popSnapshot =>
    obtain ⟨⟨snapshots, importanceSnapshots⟩, popped, done⟩ := Runs.bind_eq_ok.mp changed
    cases done
    obtain ⟨result, same, performs⟩ := StackReference.Performs.pop (separate.liveSnapshots found) popped
    exact ⟨_, Runs.bind_eq_ok.mpr ⟨result, same, rfl⟩, separate.updates_snapshots found performs⟩
  | pushBucket bucket =>
    cases changed
    exact ⟨_, rfl, separate.updates_buckets found (.push (separate.liveBuckets found) bucket)⟩
  | changeBucket change =>
    obtain ⟨⟨buckets, activityBuckets⟩, modified, done⟩ := Runs.bind_eq_ok.mp changed
    cases done
    obtain ⟨result, same, performs⟩ := StackReference.Performs.modifyTop (separate.liveBuckets found) modified
    exact ⟨_, Runs.bind_eq_ok.mpr ⟨result, same, rfl⟩, separate.updates_buckets found performs⟩
  | popBucket =>
    obtain ⟨⟨buckets, activityBuckets⟩, popped, done⟩ := Runs.bind_eq_ok.mp changed
    cases done
    obtain ⟨result, same, performs⟩ := StackReference.Performs.pop (separate.liveBuckets found) popped
    exact ⟨_, Runs.bind_eq_ok.mpr ⟨result, same, rfl⟩, separate.updates_buckets found performs⟩

/-- The changes that are made to one account. -/
def ownChanges (index : Nat) (changes : List (Nat × AccountChange)) : List AccountChange :=
  changes.filterMap fun change => if change.1 = index then some change.2 else none

/-- Every account is changed by its own changes only. -/
def Isolated (store : AccountStore) : Prop :=
  ∀ (changes : List (Nat × AccountChange)) (final : AccountStore),
    changes.foldlM (fun store change => store.change change.1 change.2) store = .ok final →
    ∀ index seen, store.shows index = some seen →
      ∃ changed, (ownChanges index changes).foldlM StoredAccountState.change seen = .ok changed ∧ final.shows index = some changed

theorem Separate.isolated (separate : Separate store) : Isolated store := by
  intro changes
  induction changes generalizing store with
  | nil =>
    intro final ran index seen shown
    cases ran
    exact ⟨seen, rfl, shown⟩
  | cons change changes ih =>
    intro final ran index seen shown
    rw [List.foldlM_cons] at ran
    obtain ⟨next, changed, rest⟩ := Runs.bind_eq_ok.mp ran
    unfold AccountStore.change at changed
    cases found : store.accounts[change.1]? with
    | none =>
      rw [found] at changed
      cases changed
      have other : change.1 ≠ index := by
        rintro rfl
        rw [shows, found] at shown
        cases shown
      have skipped : ownChanges index (change :: changes) = ownChanges index changes := by
        simp [ownChanges, other]
      rw [skipped]
      exact ih separate final rest index seen shown
    | some account =>
      rw [found] at changed
      obtain ⟨result, ran, updates⟩ := separate.changeAccount found changed
      by_cases own : change.1 = index
      · subst own
        have first : seen = store.view account := by
          rw [shows, found, Option.map_some] at shown
          exact (Option.some.inj shown).symm
        have kept : ownChanges change.1 (change :: changes) = change.2 :: ownChanges change.1 changes := by
          simp [ownChanges]
        obtain ⟨last, ranRest, shownLast⟩ := ih updates.separate final rest change.1 result updates.shown
        refine ⟨last, ?_, shownLast⟩
        rw [kept, List.foldlM_cons, first, ran]
        exact ranRest
      · have skipped : ownChanges index (change :: changes) = ownChanges index changes := by
          simp [ownChanges, own]
        rw [skipped]
        exact ih updates.separate final rest index seen ((updates.others index (Ne.symm own)).trans shown)

/-- The target is assigned in its own arrays only. -/
theorem Separate.assign (separate : Separate store) {target source : Nat} {old new : StoredAccountState StackReference}
    (foundTarget : store.accounts[target]? = some old) (foundSource : store.accounts[source]? = some new)
    (assigned : store.assign target source = .ok later) :
    ∃ seen, (store.view old).assign (store.view new) = .ok seen ∧ Updates store later target seen := by
  have snapshots := StackReference.Performs.assign (separate.liveSnapshots foundTarget)
    (separate.liveSnapshots foundSource)
  have buckets := StackReference.Performs.assign (separate.liveBuckets foundTarget) (separate.liveBuckets foundSource)
  unfold AccountStore.assign at assigned
  rw [foundTarget, foundSource] at assigned
  obtain ⟨balances, copied, done⟩ := Runs.bind_eq_ok.mp assigned
  cases done
  refine ⟨_, Runs.bind_eq_ok.mpr ⟨balances, copied, rfl⟩, ?_⟩
  have built := BuiltBalances.assign (separate.built old (List.mem_of_getElem? foundTarget))
    (separate.built new (List.mem_of_getElem? foundSource)) copied
  have updates := separate.updates { new with
      importanceSnapshots := (old.importanceSnapshots.assign store.snapshots new.importanceSnapshots).2
      activityBuckets := (old.activityBuckets.assign store.buckets new.activityBuckets).2
      balances := balances } foundTarget snapshots.replaces buckets.replaces built
  dsimp only at updates
  rw [snapshots.seen, buckets.seen] at updates
  exact updates

/-- The assignment throws only if the one of the balances does. -/
theorem exists_assign {target source : Nat} {old new : StoredAccountState StackReference}
    (foundTarget : store.accounts[target]? = some old) (foundSource : store.accounts[source]? = some new)
    {balances : AccountBalances} (copied : old.balances.assign new.balances = .ok balances) :
    ∃ later, store.assign target source = .ok later := by
  unfold AccountStore.assign
  rw [foundTarget, foundSource]
  exact ⟨_, Runs.bind_eq_ok.mpr ⟨balances, copied, rfl⟩⟩

theorem Separate.step (separate : Separate store) {step : AccountStep} (stepped : store.step step = .ok later) :
    Separate later := by
  cases step with
  | create address addressHeight =>
    cases stepped
    refine ⟨?_, ?_, ?_⟩
    · simpa [AccountStore.create, StackReference.empty] using separate.snapshots.concat
    · simpa [AccountStore.create, StackReference.empty] using separate.buckets.concat
    · intro account member
      obtain known | created := List.mem_append.mp member
      · exact separate.built account known
      · rw [List.mem_singleton.mp created]
        exact .empty
  | change index change =>
    simp only [AccountStore.step, AccountStore.change] at stepped
    split at stepped
    · cases stepped
      exact separate
    · next account found =>
      obtain ⟨_, _, updates⟩ := separate.changeAccount found stepped
      exact updates.separate
  | assign target source =>
    change store.assign target source = .ok later at stepped
    cases foundTarget : store.accounts[target]? with
    | none =>
      rw [AccountStore.assign, foundTarget] at stepped
      cases stepped
      exact separate
    | some old =>
      cases foundSource : store.accounts[source]? with
      | none =>
        rw [AccountStore.assign, foundTarget, foundSource] at stepped
        cases stepped
        exact separate
      | some new =>
        obtain ⟨_, _, updates⟩ := separate.assign foundTarget foundSource stepped
        exact updates.separate

theorem separate_empty : Separate empty := ⟨.empty, .empty, fun _ member => (nomatch member)⟩

/-- Both accounts show the same balances, tracked mosaic, snapshots and buckets. -/
structure SameData (copy original : StoredAccountState ArrayStack) : Prop where
  balances : copy.balances.toList = original.balances.toList
  tracked : copy.balances.optimizedMosaicId = original.balances.optimizedMosaicId
  snapshots : copy.importanceSnapshots.toList = original.importanceSnapshots.toList
  snapshotCount : copy.importanceSnapshots.count = original.importanceSnapshots.count
  buckets : copy.activityBuckets.toList = original.activityBuckets.toList
  bucketCount : copy.activityBuckets.count = original.activityBuckets.count

/-- The target becomes a copy of the source and later changes affect only one of them. -/
def AssignsCopy (store : AccountStore) (target source : Nat) : Prop :=
  ∃ later copy original, store.assign target source = .ok later ∧ later.shows target = some copy ∧
    later.shows source = some original ∧ store.shows source = some original ∧ SameData copy original ∧ Isolated later

/-- The target has no balances, and every stack of it holds defaults or is replaced by an array of the source. -/
structure Copyable (target source : StoredAccountState ArrayStack) : Prop where
  balances : target.balances.size = 0
  snapshots : source.importanceSnapshots.array.isSome = true ∨
    target.importanceSnapshots.toList = List.replicate importanceHistorySize default
  buckets : source.activityBuckets.array.isSome = true ∨
    target.activityBuckets.toList = List.replicate activityBucketHistorySize default

variable {target source : Nat} {old new : StoredAccountState StackReference}

theorem Separate.copyable (separate : Separate store) (foundTarget : store.accounts[target]? = some old)
    (foundSource : store.accounts[source]? = some new) (copies : AssignsCopy store target source) :
    Copyable (store.view old) (store.view new) := by
  obtain ⟨later, copy, original, assigned, shownTarget, _, shownSource, same, _⟩ := copies
  obtain ⟨seen, ran, updates⟩ := separate.assign foundTarget foundSource assigned
  obtain rfl : seen = copy := Option.some.inj (updates.shown.symm.trans shownTarget)
  rw [shows, foundSource, Option.map_some, Option.some.injEq] at shownSource
  subst shownSource
  obtain ⟨balances, copied, done⟩ := Runs.bind_eq_ok.mp ran
  cases done
  have builtOld := separate.built old (List.mem_of_getElem? foundTarget)
  have builtNew := separate.built new (List.mem_of_getElem? foundSource)
  exact ⟨(assign_balances_iff builtOld builtNew).mp ⟨balances, copied, same.balances, same.tracked⟩,
    (toList_assign_iff _ _).mp same.snapshots, (toList_assign_iff _ _).mp same.buckets⟩

theorem Separate.assignsCopy (separate : Separate store) (foundTarget : store.accounts[target]? = some old)
    (foundSource : store.accounts[source]? = some new) (apart : target ≠ source)
    (copyable : Copyable (store.view old) (store.view new)) : AssignsCopy store target source := by
  have builtOld := separate.built old (List.mem_of_getElem? foundTarget)
  have builtNew := separate.built new (List.mem_of_getElem? foundSource)
  obtain ⟨balances, copied, same, tracked⟩ := (assign_balances_iff builtOld builtNew).mpr copyable.balances
  obtain ⟨later, assigned⟩ := exists_assign foundTarget foundSource copied
  obtain ⟨seen, ran, updates⟩ := separate.assign foundTarget foundSource assigned
  have shownSource : store.shows source = some (store.view new) := by rw [shows, foundSource, Option.map_some]
  refine ⟨later, seen, store.view new, assigned, updates.shown, (updates.others source (Ne.symm apart)).trans shownSource,
    shownSource, ?_, updates.separate.isolated⟩
  obtain ⟨other, copiedOther, done⟩ := Runs.bind_eq_ok.mp ran
  obtain rfl : balances = other := Except.ok.inj (copied.symm.trans copiedOther)
  cases done
  exact ⟨same, tracked, (toList_assign_iff _ _).mpr copyable.snapshots, rfl, (toList_assign_iff _ _).mpr copyable.buckets, rfl⟩

theorem separate_run (steps : List AccountStep) (ran : steps.foldlM step empty = .ok store) : Separate store :=
  Runs.always (fun _ _ _ separate stepped => separate.step stepped) separate_empty ran

/-- An assignment makes a copy exactly if nothing of the target survives it. -/
theorem assignsCopy_iff (steps : List AccountStep) (ran : steps.foldlM step empty = .ok store) {target source : Nat}
    (apart : target ≠ source) {targetSeen sourceSeen : StoredAccountState ArrayStack}
    (shownTarget : store.shows target = some targetSeen) (shownSource : store.shows source = some sourceSeen) :
    AssignsCopy store target source ↔ Copyable targetSeen sourceSeen := by
  obtain ⟨old, foundTarget, rfl⟩ := Option.map_eq_some_iff.mp shownTarget
  obtain ⟨new, foundSource, rfl⟩ := Option.map_eq_some_iff.mp shownSource
  have separate := separate_run steps ran
  exact ⟨separate.copyable foundTarget foundSource, separate.assignsCopy foundTarget foundSource apart⟩

namespace Samples

/-- The first account has a balance and a snapshot and the second one is fresh. -/
def steps : List AccountStep :=
  [.create (Vector.replicate 24 1) 1, .create (Vector.replicate 24 2) 1, .change 0 (.credit 7 10),
    .change 0 (.pushSnapshot ⟨3, 5⟩)]

/-- The fresh account does not replace the balance and the snapshot. -/
theorem stale_values_survive : ∃ store, steps.foldlM step empty = .ok store ∧ ¬ AssignsCopy store 0 1 := by
  refine ⟨_, rfl, ?_⟩
  intro copies
  have copyable := (separate_run steps rfl).copyable rfl rfl copies
  exact absurd copyable.balances (by decide)

/-- A fresh target becomes a copy. -/
theorem fresh_target_copies : ∃ store, steps.foldlM step empty = .ok store ∧ AssignsCopy store 1 0 :=
  ⟨_, rfl, (assignsCopy_iff steps rfl (by decide) rfl rfl).mpr ⟨by decide, .inl rfl, .inr (by decide)⟩⟩

end Samples

end AccountStore

end Catapult.State
