import Catapult.Proof.State.AccountBytes
import Catapult.Proof.State.BalanceAmounts

/-
This file proves that a saved account state is loaded as it was, besides the optimized mosaic.
-/

namespace Catapult.State

open ByteStream

section Stacks

variable {T : Type} [Inhabited T] {size : Nat}

/-- Values without a height are default ones, and heights decrease from a value to the older one after it. -/
def Climbing (height : T → UInt64) : List T → Prop
  | [] => True
  | value :: older =>
    (height value = 0 → value = default) ∧ (height value ≠ 0 → height (older.headD default) < height value) ∧
      Climbing height older

variable {height : T → UInt64} {values : List T}

theorem Climbing.tail (climbing : Climbing height values) : Climbing height values.tail := by
  cases values with
  | nil => exact trivial
  | cons value older => exact climbing.2.2

theorem Climbing.take (blank : height default = 0) (climbing : Climbing height values) (count : Nat) :
    Climbing height (values.take count) := by
  induction values generalizing count with
  | nil => rw [List.take_nil]; exact trivial
  | cons value older ih =>
    cases count with
    | zero => exact trivial
    | succ count =>
      refine ⟨climbing.1, ?_, ih climbing.2.2 count⟩
      intro present
      cases count with
      | zero =>
        rw [List.take_zero, List.headD_nil, blank]
        exact UInt64.pos_iff_ne_zero.mpr present
      | succ count =>
        have below := climbing.2.1 present
        cases older with
        | nil => exact below
        | cons next rest => exact below

/-- The missing values of a stack are default ones. -/
theorem Climbing.pad (blank : height default = 0) (climbing : Climbing height values) (count : Nat) :
    Climbing height (values ++ List.replicate count default) := by
  induction values with
  | nil =>
    induction count with
    | zero => exact trivial
    | succ count ih => exact ⟨fun _ => rfl, fun present => absurd blank present, ih⟩
  | cons value older ih =>
    refine ⟨climbing.1, ?_, ih climbing.2.2⟩
    intro present
    have below := climbing.2.1 present
    cases older with
    | nil =>
      rw [List.headD_nil] at below
      cases count with
      | zero => exact below
      | succ count => exact below
    | cons next rest => exact below

theorem climbing_push (blank : height default = 0) {stack : CompactArrayStack T size} {value : T}
    (climbing : Climbing height (value :: stack.values)) : Climbing height (stack.push value).values :=
  climbing.take blank size

theorem climbing_default (blank : height default = 0) (climbing : Climbing height values) : Climbing height (default :: values) :=
  ⟨fun _ => rfl, fun present => absurd blank present, climbing⟩

theorem climbing_pop {stack popped : CompactArrayStack T size} (climbing : Climbing height stack.values)
    (ran : stack.pop = .ok popped) : Climbing height popped.values := by
  unfold CompactArrayStack.pop at ran
  split at ran
  · cases ran
  · cases ran
    exact climbing.tail

/-- The top value can be changed as long as it keeps its height. -/
theorem climbing_modifyTop {stack changed : CompactArrayStack T size} {change : T → T}
    (climbing : Climbing height stack.values) (ran : stack.modifyTop change = .ok changed)
    (same : ∀ value, height (change value) = height value) (present : height stack.front ≠ 0) :
    Climbing height changed.values := by
  unfold CompactArrayStack.modifyTop at ran
  split at ran
  · cases ran
  · cases ran
    obtain ⟨values, bounded⟩ := stack
    cases values with
    | nil => exact trivial
    | cons value older =>
      have unchanged := same value
      refine ⟨fun absent => absurd (unchanged ▸ absent) present, ?_, climbing.2.2⟩
      rw [unchanged]
      exact climbing.2.1

theorem climbing_toList (blank : height default = 0) {stack : CompactArrayStack T size}
    (climbing : Climbing height stack.values) : Climbing height stack.toList :=
  climbing.pad blank _

/-- The values of a full stack are pushed from the oldest to the newest. -/
theorem foldlM_reverse {apply : CompactArrayStack T size → T → Except AccountError (CompactArrayStack T size)}
    (pushes : ∀ stack value, Climbing height (value :: stack.values) → apply stack value = .ok (stack.push value))
    (climbing : Climbing height values) (bounded : values.length ≤ size) :
    values.reverse.foldlM apply .empty = .ok ⟨values, bounded⟩ := by
  induction values with
  | nil => rfl
  | cons value older ih =>
    have fits : older.length ≤ size := Nat.le_of_succ_le bounded
    rw [List.reverse_cons, List.foldlM_append, ih climbing.2.2 fits]
    change (List.foldlM apply ⟨older, fits⟩ [value]) = _
    rw [List.foldlM_cons, pushes ⟨older, fits⟩ value climbing]
    refine congrArg Except.ok ?_
    rw [CompactArrayStack.push, CompactArrayStack.mk.injEq]
    exact List.take_of_length_le bounded

/-- A value that is applied is pushed. -/
theorem foldlM_climbing {apply : CompactArrayStack T size → T → Except AccountError (CompactArrayStack T size)}
    (keeps : ∀ stack value next, Climbing height stack.values → apply stack value = .ok next → Climbing height next.values)
    {stack : CompactArrayStack T size} {applied : List T} {final : CompactArrayStack T size}
    (climbing : Climbing height stack.values) (ran : applied.foldlM apply stack = .ok final) : Climbing height final.values :=
  @Runs.always _ _ _ apply (fun stack => Climbing height stack.values) keeps _ _ _ climbing ran

end Stacks

section Importances

open ImportanceReader

variable {snapshots changed : AccountImportanceSnapshots} {buckets next : AccountActivityBuckets}

theorem snapshot_blank : ImportanceSnapshot.height default = 0 := rfl

theorem bucket_blank : ActivityBucket.startHeight default = 0 := rfl

theorem climbing_set {importance : Importance} {height : ImportanceHeight}
    (climbing : Climbing ImportanceSnapshot.height snapshots.values) (present : height ≠ 0)
    (ran : AccountImportanceSnapshots.set snapshots importance height = .ok changed) :
    Climbing ImportanceSnapshot.height changed.values := by
  unfold AccountImportanceSnapshots.set at ran
  dsimp only at ran
  split at ran
  · cases ran
  · next ascends =>
    cases ran
    refine climbing_push snapshot_blank ⟨fun absent => absurd absent present, fun _ => ?_, climbing⟩
    by_contra above
    have reached : height ≤ AccountImportanceSnapshots.height snapshots := UInt64.not_lt.mp above
    refine ascends ⟨fun zero => ?_, reached⟩
    rw [zero] at reached
    exact present (UInt64.le_zero_iff.mp reached)

theorem applySnapshot_push (snapshots : AccountImportanceSnapshots) (snapshot : ImportanceSnapshot)
    (climbing : Climbing ImportanceSnapshot.height (snapshot :: snapshots.values)) :
    applySnapshot snapshots snapshot = .ok (snapshots.push snapshot) := by
  rw [applySnapshot]
  split
  · next absent => rw [AccountImportanceSnapshots.pushEmpty, climbing.1 absent]
  · next present =>
    rw [AccountImportanceSnapshots.set, if_neg]
    rintro ⟨_, above⟩
    exact absurd (climbing.2.1 present) (UInt64.not_lt.mpr above)

theorem applySnapshot_climbing (snapshots : AccountImportanceSnapshots) (snapshot : ImportanceSnapshot)
    (changed : AccountImportanceSnapshots) (climbing : Climbing ImportanceSnapshot.height snapshots.values)
    (ran : applySnapshot snapshots snapshot = .ok changed) : Climbing ImportanceSnapshot.height changed.values := by
  rw [applySnapshot] at ran
  split at ran
  · cases ran
    exact climbing_push snapshot_blank (climbing_default snapshot_blank climbing)
  · next present => exact climbing_set climbing present ran

/-- The top bucket is the one of the height after an update. -/
theorem climbing_update {height : ImportanceHeight}
    {consumer : HeightDetachedActivityBucket → HeightDetachedActivityBucket} {shouldCreateNewBucket : Bool}
    {updated : Bool × AccountActivityBuckets} (climbing : Climbing ActivityBucket.startHeight buckets.values)
    (present : height ≠ 0)
    (ran : AccountActivityBuckets.tryUpdateOrCreate buckets height consumer shouldCreateNewBucket = .ok updated) :
    Climbing ActivityBucket.startHeight updated.2.values := by
  unfold AccountActivityBuckets.tryUpdateOrCreate at ran
  dsimp only at ran
  split at ran
  · cases ran
  · next newer =>
    split at ran
    · next later =>
      split at ran
      · obtain ⟨changed, modified, rfl⟩ := map_eq_ok ran
        have pushed : Climbing ActivityBucket.startHeight
            (buckets.push { (default : ActivityBucket) with startHeight := height }).values :=
          climbing_push bucket_blank ⟨fun absent => absurd absent present, fun _ => later, climbing⟩
        exact climbing_modifyTop pushed modified (fun _ => rfl) present
      · cases ran
        exact climbing
    · next reached =>
      obtain ⟨changed, modified, rfl⟩ := map_eq_ok ran
      refine climbing_modifyTop climbing modified (fun _ => rfl) fun absent => reached ?_
      rw [absent]
      exact UInt64.pos_iff_ne_zero.mpr present

theorem applyBucket_push (buckets : AccountActivityBuckets) (bucket : ActivityBucket)
    (climbing : Climbing ActivityBucket.startHeight (bucket :: buckets.values)) :
    applyBucket buckets bucket = .ok (buckets.push bucket) := by
  rw [applyBucket]
  split
  · next absent => rw [AccountActivityBuckets.pushEmpty, climbing.1 absent]
  · next present =>
    have below : buckets.front.startHeight < bucket.startHeight := climbing.2.1 present
    rw [AccountActivityBuckets.update, AccountActivityBuckets.tryUpdateOrCreate]
    dsimp only
    rw [if_neg (fun older => absurd older.2 (UInt64.not_lt.mpr (UInt64.le_of_lt below))), if_pos below, if_pos rfl]
    rfl

theorem applyBucket_climbing (buckets : AccountActivityBuckets) (bucket : ActivityBucket) (next : AccountActivityBuckets)
    (climbing : Climbing ActivityBucket.startHeight buckets.values) (ran : applyBucket buckets bucket = .ok next) :
    Climbing ActivityBucket.startHeight next.values := by
  rw [applyBucket] at ran
  split at ran
  · cases ran
    exact climbing_push bucket_blank (climbing_default bucket_blank climbing)
  · next present =>
    rw [AccountActivityBuckets.update] at ran
    obtain ⟨updated, tried, rfl⟩ := map_eq_ok ran
    exact climbing_update climbing present tried

end Importances

section Loading

variable {state : AccountState} {entries : List Mosaic}

/-- A loaded stack holds as many values as it has room for. -/
def CompactArrayStack.filled {T : Type} {size : Nat} [Inhabited T] (stack : CompactArrayStack T size) :
    CompactArrayStack T size := ⟨stack.toList, (length_toList stack).le⟩

theorem CompactArrayStack.toList_filled {T : Type} {size : Nat} [Inhabited T] (stack : CompactArrayStack T size) :
    stack.filled.toList = stack.toList := by
  rw [CompactArrayStack.toList, CompactArrayStack.filled]
  simp [length_toList]

theorem readRange_drop {α : Type} (codec : Codec α) {values : List α} {start count : Nat}
    (length : values.length = start + count) (rest : List UInt8) :
    readValues codec count (writeRange codec values start count ++ rest) = .ok (values.drop start, rest) := by
  have remaining : (values.drop start).length = count := by rw [List.length_drop]; omega
  have written := readValues_write codec (values.drop start) rest
  rw [remaining] at written
  rwa [writeRange, List.take_of_length_le remaining.le]

/-- All snapshots and buckets are read in both formats. -/
theorem readHistory_save (state : AccountState) (rest : List UInt8) : readHistory (savedImportances state)
      ((if AccountImportanceSnapshots.active state.importanceSnapshots then
        writeRange Codecs.snapshot state.importanceSnapshots.toList (importanceHistorySize - rollbackBufferSize) rollbackBufferSize ++
          writeRange Codecs.bucket state.activityBuckets.toList (activityBucketHistorySize - rollbackBufferSize) rollbackBufferSize
      else
        writeRange Codecs.snapshot state.importanceSnapshots.toList 0 importanceHistorySize ++
          writeRange Codecs.bucket state.activityBuckets.toList 0 activityBucketHistorySize) ++ rest) =
      .ok (⟨state.importanceSnapshots.toList, state.activityBuckets.toList⟩, rest) := by
  have snapshots := length_toList state.importanceSnapshots
  have buckets := length_toList state.activityBuckets
  unfold readHistory savedImportances
  cases AccountImportanceSnapshots.active state.importanceSnapshots with
  | false =>
    rw [if_neg Bool.false_ne_true, if_neg Bool.false_ne_true, List.append_assoc]
    change ImportanceReader.empty.read importanceHistorySize activityBucketHistorySize _ = _
    rw [ImportanceReader.read, bind_apply, readRange_drop _ (by rw [snapshots]; rfl), ok_bind, bind_apply,
      readRange_drop _ (by rw [buckets]; rfl)]
    rfl
  | true =>
    rw [if_pos rfl, if_pos rfl, List.append_assoc]
    have some : ImportanceReader.hasSnapshots
        ⟨state.importanceSnapshots.toList.take (importanceHistorySize - rollbackBufferSize),
          state.activityBuckets.toList.take (activityBucketHistorySize - rollbackBufferSize)⟩ = true := by
      have nonempty : state.importanceSnapshots.toList.take (importanceHistorySize - rollbackBufferSize) ≠ [] := by
        rw [← List.length_pos_iff, List.length_take, snapshots]
        decide
      rw [ImportanceReader.hasSnapshots, Bool.not_eq_true', List.isEmpty_eq_false_iff]
      exact nonempty
    rw [if_pos some, ImportanceReader.read, bind_apply, readRange_drop _ (by rw [snapshots]; rfl), ok_bind, bind_apply,
      readRange_drop _ (by rw [buckets]; rfl)]
    dsimp only
    rw [ok_bind, List.take_append_drop, List.take_append_drop]
    rfl

/-- The default values of a new account are replaced by those that were read. -/
theorem apply_stored {base : AccountState} (snapshots : AccountImportanceSnapshots) (buckets : AccountActivityBuckets)
    (climbingSnapshots : Climbing ImportanceSnapshot.height snapshots.values)
    (climbingBuckets : Climbing ActivityBucket.startHeight buckets.values)
    (emptySnapshots : base.importanceSnapshots = .empty) (emptyBuckets : base.activityBuckets = .empty) :
    ImportanceReader.apply ⟨snapshots.toList, buckets.toList⟩ base =
      .ok { base with importanceSnapshots := snapshots.filled, activityBuckets := buckets.filled } := by
  have readSnapshots := foldlM_reverse applySnapshot_push (climbing_toList snapshot_blank climbingSnapshots)
    (length_toList snapshots).le
  have readBuckets := foldlM_reverse applyBucket_push (climbing_toList bucket_blank climbingBuckets)
    (length_toList buckets).le
  have oldestSnapshots : ImportanceReader.oldestFirst importanceHistorySize snapshots.toList = snapshots.toList.reverse := by
    rw [ImportanceReader.oldestFirst, length_toList, Nat.sub_self]
    rfl
  have oldestBuckets : ImportanceReader.oldestFirst activityBucketHistorySize buckets.toList = buckets.toList.reverse := by
    rw [ImportanceReader.oldestFirst, length_toList, Nat.sub_self]
    rfl
  rw [ImportanceReader.apply, oldestSnapshots, oldestBuckets, emptySnapshots, emptyBuckets, readSnapshots, ok_bind,
    readBuckets, ok_bind]
  rfl

/-- The first mosaic of an account is the optimized one if it is held at all. -/
theorem Sorted.firstMosaicId {optimized : MosaicId} (sorted : Sorted optimized entries) {entry : Mosaic}
    (member : entry ∈ entries) (held : entry.1 = optimized) : firstMosaicId entries = optimized := by
  cases entries with
  | nil => cases member
  | cons first rest =>
    obtain rfl | later := List.mem_cons.mp member
    · exact held
    · have less := isLessThan_iff.mp ((List.pairwise_cons.mp sorted).1 entry later)
      rw [held] at less
      obtain same | ⟨different, _⟩ := less.2
      · exact same.symm
      · exact absurd rfl different

theorem SoundBalances.shows {balances : AccountBalances} (sound : SoundBalances balances) :
    ∃ entries, Shows balances.optimizedMosaicId balances entries ∧ ∀ entry ∈ entries, entry.2 ≠ 0 := by
  obtain ⟨contents, entries, holds⟩ := sound
  exact ⟨entries, ⟨⟨contents, holds.optimized, holds.represents⟩, rfl⟩,
    fun entry member => holds.positive entry.1 entry.2 ((holds.represents.members _ _).mp member)⟩

theorem Shows.sound {optimized : MosaicId} {balances : AccountBalances} (shows : Shows optimized balances entries)
    (positive : ∀ entry ∈ entries, entry.2 ≠ 0) : SoundBalances balances := by
  obtain ⟨contents, isOptimized, represents⟩ := shows.represents
  exact ⟨contents, entries, represents, isOptimized.trans shows.optimized.symm,
    fun id amount found => positive (id, amount) ((represents.members id amount).mpr found)⟩

theorem optimizedMosaicId_of_optimize {balances changed : AccountBalances} {id : MosaicId}
    (optimized : balances.optimize id = .ok changed) : changed.optimizedMosaicId = id := by
  unfold AccountBalances.optimize at optimized
  split at optimized
  · cases optimized
  · cases optimized
    rfl

/-- What an account needs to be loaded as it was saved. -/
structure Storable (state : AccountState) : Prop where
  balances : SoundBalances state.balances
  voting : VotingOrdered state.supplementalPublicKeys.voting
  few : state.supplementalPublicKeys.voting.length < 256
  snapshots : Climbing ImportanceSnapshot.height state.importanceSnapshots.values
  buckets : Climbing ActivityBucket.startHeight state.activityBuckets.values
  accountType : AccountType.ofByte state.accountType.toByte = state.accountType

/-- A loaded account differs from the saved one only in the optimized mosaic, which is the first that is held. -/
structure Restores (state loaded : AccountState) : Prop where
  logical : loaded.logical = state.logical
  voting : loaded.supplementalPublicKeys.voting = state.supplementalPublicKeys.voting
  mosaics : loaded.balances.toList = state.balances.toList
  optimized : state.balances.optimize (firstMosaicId state.balances.toList) = .ok loaded.balances
  held : (state.balances.balances.find state.balances.optimizedMosaicId).isSome → loaded.balances = state.balances

theorem getKey_storedKey {size : Nat} (key : Option (Vector UInt8 size)) :
    AccountPublicKeys.getKey (storedKey key) = AccountPublicKeys.getKey key := by
  unfold storedKey AccountPublicKeys.isSet
  split
  · rfl
  · next unset =>
    rw [decide_eq_true_iff, not_not] at unset
    exact unset.symm

theorem Storable.load_save (storable : Storable state) (fits : state.balances.size < 2 ^ 16) :
    ∃ loaded, load (save state) = .ok (loaded, []) ∧ Restores state loaded := by
  obtain ⟨entries, shows, positive⟩ := storable.balances.shows
  rw [shows.size] at fits
  have count : readCount entries = entries.length := UInt16.toNat_ofNat_of_lt' fits
  obtain ⟨balances, credited, showsLoaded⟩ := creditAll_order shows.holds.layered
  have all : (entries.filter fun entry => entry.2 ≠ 0) = entries :=
    List.filter_eq_self.mpr fun entry member => decide_eq_true (positive entry member)
  rw [all] at showsLoaded
  refine ⟨{ storedState state with
    balances := balances
    importanceSnapshots := state.importanceSnapshots.filled
    activityBuckets := state.activityBuckets.filled }, ?_, ?_⟩
  · have history := readHistory_save state []
    rw [List.append_nil] at history
    have withoutHistory := loadAccountStateWithoutHistory_save shows storable.voting storable.few
      (if AccountImportanceSnapshots.active state.importanceSnapshots then
        writeRange Codecs.snapshot state.importanceSnapshots.toList (importanceHistorySize - rollbackBufferSize) rollbackBufferSize ++
          writeRange Codecs.bucket state.activityBuckets.toList (activityBucketHistorySize - rollbackBufferSize) rollbackBufferSize
      else
        writeRange Codecs.snapshot state.importanceSnapshots.toList 0 importanceHistorySize ++
          writeRange Codecs.bucket state.activityBuckets.toList 0 activityBucketHistorySize)
    rw [count, List.take_length, List.drop_length, credited] at withoutHistory
    unfold load save
    rw [bind_apply, withoutHistory]
    change (readHistory (savedImportances state) _ >>= fun read =>
      (liftM (ImportanceReader.apply read.1 { storedState state with balances := balances }) : Reader AccountState) read.2) = _
    refine Runs.bind_eq_ok.mpr ⟨_, history, ?_⟩
    dsimp only
    rw [apply_stored state.importanceSnapshots state.activityBuckets storable.snapshots storable.buckets rfl rfl]
    rfl
  · have mosaics : balances.toList = state.balances.toList := by rw [showsLoaded.toList, shows.toList]
    have found : balances.balances.find = state.balances.balances.find := by
      funext id
      rw [find_eq showsLoaded.holds, find_eq shows.holds]
    refine ⟨?_, rfl, mosaics, ?_, ?_⟩
    · unfold AccountState.logical
      rw [LogicalState.mk.injEq]
      exact ⟨rfl, rfl, rfl, rfl, storable.accountType, getKey_storedKey _, getKey_storedKey _, getKey_storedKey _, rfl,
        CompactArrayStack.toList_filled _, CompactArrayStack.toList_filled _, found⟩
    · obtain ⟨map, arranged, optimizes, showsOptimized, members⟩ := shows.optimized_map (firstMosaicId entries)
      have same : arranged = entries := showsOptimized.sorted.unique shows.holds.layered.sorted_firstMosaicId members
      rw [shows.toList, AccountBalances.optimize, optimizes]
      exact congrArg Except.ok ((same ▸ showsOptimized).unique showsLoaded)
    · intro held
      obtain ⟨entry, isHeld⟩ := Option.isSome_iff_exists.mp held
      rw [find_eq shows.holds] at isHeld
      have first := shows.sorted.firstMosaicId (List.mem_of_find?_eq_some isHeld) (by simpa using List.find?_some isHeld)
      exact (first ▸ showsLoaded).unique shows

/-- The bytes of a loaded account are those that it was loaded from. -/
theorem Restores.save_eq {loaded : AccountState} (restores : Restores state loaded) (storable : Storable state) :
    save loaded = save state := by
  obtain ⟨entries, shows, _⟩ := storable.balances.shows
  obtain ⟨map, arranged, optimizes, showsOptimized, members⟩ := shows.optimized_map (firstMosaicId state.balances.toList)
  have optimized := restores.optimized
  rw [AccountBalances.optimize, optimizes] at optimized
  have same := restores.mosaics
  rw [← Except.ok.inj optimized, showsOptimized.toList, shows.toList] at same
  have sizes : loaded.balances.size = state.balances.size := by
    rw [← Except.ok.inj optimized, showsOptimized.size, shows.size, same]
  exact (save_congr restores.logical restores.voting sizes restores.mosaics).1

end Loading

/-- The callers add voting keys as long as there is room, importances have heights and balances do not overflow. -/
def Admitted (maxVotingKeysPerAccount : UInt8) (state : AccountState) : AccountOperation → Prop
  | .addVotingKey key =>
    key.startEpoch ≤ key.endEpoch ∧ state.supplementalPublicKeys.voting.length < maxVotingKeysPerAccount.toNat
  | .setSnapshot _ height => height ≠ 0
  | .updateBucket height _ _ => height ≠ 0
  | .credit id amount => (state.balances.get id).toNat + amount.toNat < 2 ^ 64
  | _ => True

variable {maxVotingKeysPerAccount : UInt8} {state next : AccountState}

theorem ofByte_toByte_ofByte (value : UInt8) : AccountType.ofByte (AccountType.ofByte value).toByte = AccountType.ofByte value := by
  unfold AccountType.ofByte
  split
  · rfl
  · split
    · rfl
    · split
      · rfl
      · split
        · rfl
        · next unlinked main remote remoteUnlinked =>
          exact (if_neg unlinked).trans ((if_neg main).trans ((if_neg remote).trans (if_neg remoteUnlinked)))

theorem Storable.create (address : Address) (height : Height) : Storable (.create address height) :=
  ⟨soundBalances_empty, ⟨nofun, List.Pairwise.nil⟩, Nat.zero_lt_succ 255, trivial, trivial, rfl⟩

/-- A change of the keys that are no voting keys. -/
theorem Storable.setKeys (storable : Storable state) {keys : AccountPublicKeys}
    (voting : keys.voting = state.supplementalPublicKeys.voting) : Storable (state.setKeys keys) :=
  ⟨storable.balances, voting ▸ storable.voting, voting ▸ storable.few, storable.snapshots, storable.buckets, storable.accountType⟩

theorem Storable.orderly (storable : Storable state) : ∃ optimized entries, Orderly optimized state entries := by
  obtain ⟨entries, shows, _⟩ := storable.balances.shows
  exact ⟨_, entries, shows, storable.voting, storable.few⟩

theorem Storable.optimize (storable : Storable state) {id : MosaicId} (ran : state.optimize id = .ok next) : Storable next := by
  obtain ⟨entries, shows, positive⟩ := storable.balances.shows
  obtain ⟨balances, optimized, rfl⟩ := map_eq_ok ran
  obtain ⟨arranged, showsNext, members⟩ := shows.optimize optimized
  exact { storable with balances := showsNext.sound fun entry member => positive entry ((members entry).mp member) }

/-- A load rebuilds the account with the methods that built it. -/
theorem Storable.reload (storable : Storable state) (reloaded : State.reload state = .ok next) : Storable next := by
  obtain ⟨entries, shows, _⟩ := storable.balances.shows
  obtain ⟨balances, completed, credited, applies⟩ := reload_applies shows storable.voting storable.few reloaded
  have part := List.take_sublist (readCount entries) entries
  obtain ⟨read, creditedAll, showsNext⟩ := creditAll_order (shows.holds.layered.sublist part)
  obtain rfl : read = balances := Except.ok.inj (creditedAll.symm.trans credited)
  unfold ImportanceReader.apply at applies
  obtain ⟨snapshots, ranSnapshots, applies⟩ := Runs.bind_eq_ok.mp applies
  obtain ⟨buckets, ranBuckets, applies⟩ := Runs.bind_eq_ok.mp applies
  cases applies
  have emptySnapshots : Climbing ImportanceSnapshot.height (CompactArrayStack.empty : AccountImportanceSnapshots).values := trivial
  have emptyBuckets : Climbing ActivityBucket.startHeight (CompactArrayStack.empty : AccountActivityBuckets).values := trivial
  refine ⟨showsNext.sound ?_, storable.voting, storable.few, foldlM_climbing applySnapshot_climbing emptySnapshots ranSnapshots,
    foldlM_climbing applyBucket_climbing emptyBuckets ranBuckets, ofByte_toByte_ofByte _⟩
  intro entry member
  exact of_decide_eq_true (List.mem_filter.mp member).2

theorem Storable.perform (storable : Storable state) {operation : AccountOperation}
    (admitted : Admitted maxVotingKeysPerAccount state operation) (performed : state.perform operation = .ok next) :
    Storable next := by
  cases operation with
  | setPublicKey publicKey publicKeyHeight =>
    cases performed
    exact { storable with }
  | setAccountType accountType =>
    cases performed
    exact { storable with accountType := ofByte_toByte_ofByte accountType }
  | setLinked key =>
    obtain ⟨linked, _, rfl⟩ := map_eq_ok performed
    exact storable.setKeys rfl
  | unsetLinked =>
    cases performed
    exact storable.setKeys rfl
  | setNode key =>
    obtain ⟨node, _, rfl⟩ := map_eq_ok performed
    exact storable.setKeys rfl
  | unsetNode =>
    cases performed
    exact storable.setKeys rfl
  | setVrf key =>
    obtain ⟨vrf, _, rfl⟩ := map_eq_ok performed
    exact storable.setKeys rfl
  | unsetVrf =>
    cases performed
    exact storable.setKeys rfl
  | addVotingKey key =>
    obtain ⟨voting, added, rfl⟩ := map_eq_ok performed
    obtain ⟨ordered, length⟩ := addVotingKey_ordered storable.voting admitted.1 added
    have room := admitted.2
    have bound := maxVotingKeysPerAccount.toNat_lt
    have few : voting.length < 256 := by omega
    exact { storable with voting := ordered, few := few }
  | removeVotingKey key =>
    cases performed
    exact { storable with
      voting := storable.voting.sublist List.erase_sublist
      few := (List.erase_sublist.length_le).trans_lt storable.few }
  | setSnapshot importance height =>
    obtain ⟨snapshots, set, rfl⟩ := map_eq_ok performed
    exact { storable with snapshots := climbing_set storable.snapshots admitted set }
  | pushSnapshot =>
    cases performed
    exact { storable with snapshots := climbing_push snapshot_blank (climbing_default snapshot_blank storable.snapshots) }
  | popSnapshot =>
    obtain ⟨snapshots, popped, rfl⟩ := map_eq_ok performed
    exact { storable with snapshots := climbing_pop storable.snapshots popped }
  | updateBucket height consumer shouldCreateNewBucket =>
    obtain ⟨updated, tried, rfl⟩ := map_eq_ok performed
    exact { storable with buckets := climbing_update storable.buckets admitted tried }
  | pushBucket =>
    cases performed
    exact { storable with buckets := climbing_push bucket_blank (climbing_default bucket_blank storable.buckets) }
  | popBucket =>
    obtain ⟨buckets, popped, rfl⟩ := map_eq_ok performed
    exact { storable with buckets := climbing_pop storable.buckets popped }
  | clearHistory =>
    cases performed
    exact { storable with snapshots := trivial, buckets := trivial }
  | credit id amount =>
    obtain ⟨balances, credited, rfl⟩ := map_eq_ok performed
    exact { storable with balances := (storable.balances.of_credit credited admitted).sound }
  | debit id amount =>
    obtain ⟨balances, debited, rfl⟩ := map_eq_ok performed
    exact { storable with balances := (storable.balances.of_debit debited).2.sound }
  | optimize id => exact storable.optimize performed
  | copy =>
    obtain ⟨optimized, entries, orderly⟩ := storable.orderly
    rwa [orderly_copy orderly performed]
  | reload => exact storable.reload performed

theorem run_storable {address : Address} {addressHeight : Height} {operations : List AccountOperation}
    (admitted : Runs.Meets AccountState.perform (Admitted maxVotingKeysPerAccount) (.create address addressHeight) operations)
    (reached : operations.foldlM AccountState.perform (.create address addressHeight) = .ok state) : Storable state :=
  Runs.invariant (fun _ _ _ storable permitted performed => Storable.perform storable permitted performed)
    (.create address addressHeight) admitted reached

/-- In every run an account is loaded as it was saved, with the first mosaic that it holds as the optimized one. -/
theorem run_account_restored (maxVotingKeysPerAccount : UInt8) (address : Address) (addressHeight : Height)
    (operations : List AccountOperation) (state : AccountState)
    (admitted : Runs.Meets AccountState.perform (Admitted maxVotingKeysPerAccount) (.create address addressHeight) operations)
    (reached : operations.foldlM AccountState.perform (.create address addressHeight) = .ok state)
    (fits : state.balances.size < 2 ^ 16) :
    ∃ loaded, load (save state) = .ok (loaded, []) ∧ Restores state loaded ∧ save loaded = save state := by
  have storable := run_storable admitted reached
  obtain ⟨loaded, read, restores⟩ := storable.load_save fits
  exact ⟨loaded, read, restores, restores.save_eq storable⟩

namespace Samples

/-- The account gets two mosaics and a snapshot, which another snapshot follows. -/
def deposits : List AccountOperation :=
  [.optimize 5, .credit 7 10, .credit 5 3, .setSnapshot 9 100, .pushSnapshot]

def depositor : AccountState :=
  { account with
    balances := ⟨⟨⟨(5, 3), some ⟨[(7, 10)], none⟩⟩, 5⟩, 5⟩
    importanceSnapshots := ⟨[⟨0, 0⟩, ⟨9, 100⟩], by decide⟩ }

theorem credit_small : (AccountBalances.get ⟨⟨⟨(0, 0), none⟩, 5⟩, 5⟩ 7).toNat + (10 : Amount).toNat < 2 ^ 64 := by decide

/-- An account with deposits is restored. -/
theorem depositor_restored :
    ∃ loaded, load (save depositor) = .ok (loaded, []) ∧ Restores depositor loaded ∧ save loaded = save depositor := by
  have admitted : Runs.Meets AccountState.perform (Admitted 3) (.create (Vector.replicate 24 7) 1) deposits :=
    ⟨trivial, fun _ optimized => by
      cases optimized
      exact ⟨credit_small, fun _ credited => by
        cases credited
        exact ⟨show (AccountBalances.get ⟨⟨⟨(7, 10), none⟩, 5⟩, 5⟩ 5).toNat + (3 : Amount).toNat < 2 ^ 64 by decide,
          fun _ _ => ⟨show (100 : ImportanceHeight) ≠ 0 by decide, fun _ _ => ⟨trivial, fun _ _ => trivial⟩⟩⟩⟩⟩
  exact run_account_restored 3 (Vector.replicate 24 7) 1 deposits depositor admitted rfl (by decide)

/-- The account holds a mosaic that is not the currency mosaic. -/
def spender : AccountState := { account with balances := ⟨⟨⟨(7, 10), none⟩, 5⟩, 5⟩ }

theorem spender_cached : Cached 5 3 spender :=
  have added : Cached 5 3 { account with balances := ⟨⟨⟨(0, 0), none⟩, 5⟩, 5⟩ } := .add (.create (Vector.replicate 24 7) 1) rfl
  have credits : Runs.Meets modify (Permitted 3) _ [.credit 7 10] := ⟨trivial, fun _ _ => trivial⟩
  .find added rfl credits rfl

/-- The mosaic that is held becomes the optimized one. -/
theorem spender_reoptimized :
    Cached 5 3 spender ∧ ∃ loaded, load (save spender) = .ok (loaded, []) ∧ loaded.balances.optimizedMosaicId = 7 ∧
      spender.balances.optimizedMosaicId = 5 := by
  have credits : Runs.Meets AccountState.perform (Admitted 3) (.create (Vector.replicate 24 7) 1) [.optimize 5, .credit 7 10] :=
    ⟨trivial, fun _ optimized => by
      cases optimized
      exact ⟨credit_small, fun _ _ => trivial⟩⟩
  have storable : Storable spender := run_storable credits rfl
  obtain ⟨loaded, read, restores⟩ := storable.load_save (by decide)
  have optimized := restores.optimized
  have first : firstMosaicId spender.balances.toList = 7 := by decide
  rw [first] at optimized
  exact ⟨spender_cached, loaded, read, optimizedMosaicId_of_optimize optimized, rfl⟩

end Samples

end Catapult.State
