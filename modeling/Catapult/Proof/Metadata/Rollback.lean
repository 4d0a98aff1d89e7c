import Catapult.Construction.Metadata.MetadataValue
import Catapult.Library.Runs
import Catapult.Library.Totals

/-
This file proves that metadata values are restored by the rollback of the notifications that changed them.
-/

namespace Catapult.Metadata

open Lock (NotifyMode)

theorem length_resize (value : List UInt8) (size : Nat) : (resize value size).length = size := by
  rw [resize, List.length_append, List.length_take, List.length_replicate]
  omega

theorem length_update (value buffer : List UInt8) : (update value buffer).length = buffer.length := by
  rw [update, List.length_zipWith, length_resize, Nat.min_self]

/-- A difference that is applied twice cancels. -/
theorem xor_xor {value buffer : List UInt8} (same : value.length = buffer.length) :
    List.zipWith (· ^^^ ·) (List.zipWith (· ^^^ ·) value buffer) buffer = value := by
  induction value generalizing buffer with
  | nil => rfl
  | cons byte value ih =>
    cases buffer with
    | nil => cases same
    | cons other buffer =>
      rw [List.zipWith_cons_cons, List.zipWith_cons_cons, ih (Nat.succ.inj same), UInt8.xor_assoc, UInt8.xor_self, UInt8.xor_zero]

theorem zero_xor (buffer : List UInt8) : List.zipWith (· ^^^ ·) (List.replicate buffer.length 0) buffer = buffer := by
  induction buffer with
  | nil => rfl
  | cons byte buffer ih =>
    rw [List.length_cons, List.replicate_succ, List.zipWith_cons_cons, ih, UInt8.zero_xor]

/-- A value is trimmed to a shorter buffer. -/
theorem update_of_ge {value buffer : List UInt8} (shorter : buffer.length ≤ value.length) :
    update value buffer = List.zipWith (· ^^^ ·) (value.take buffer.length) buffer := by
  rw [update, resize, Nat.sub_eq_zero_of_le shorter, List.replicate_zero, List.append_nil]

/-- A value grows by the last bytes of a longer buffer. -/
theorem update_of_le {value buffer : List UInt8} (longer : value.length ≤ buffer.length) : update value buffer =
      List.zipWith (· ^^^ ·) value (buffer.take value.length) ++ buffer.drop value.length := by
  have front : (buffer.take value.length).length = value.length := by rw [List.length_take]; omega
  have zeros := zero_xor (buffer.drop value.length)
  rw [List.length_drop] at zeros
  rw [update, resize, List.take_of_length_le longer]
  nth_rewrite 2 [← List.take_append_drop value.length buffer]
  rw [List.zipWith_append front.symm, zeros]

theorem update_nil (buffer : List UInt8) : update [] buffer = buffer := by
  rw [update_of_le (Nat.zero_le _)]
  rfl

/-- A value that grew is trimmed to its previous bytes. -/
theorem update_grown {value buffer : List UInt8} (longer : value.length ≤ buffer.length) :
    update (update value buffer) (buffer.take value.length) = value := by
  have front : (buffer.take value.length).length = value.length := by rw [List.length_take]; omega
  have zipped : (List.zipWith (· ^^^ ·) value (buffer.take value.length)).length = value.length := by
    rw [List.length_zipWith, front, Nat.min_self]
  rw [update_of_ge (by rw [length_update, front]; exact longer), update_of_le longer, front, List.take_left' zipped,
    xor_xor front.symm]

/-- A value that was trimmed grows by its previous bytes. -/
theorem update_trimmed {value buffer : List UInt8} {size : Nat} (same : value.length = buffer.length)
    (inside : size ≤ buffer.length) (trims : value.drop size = buffer.drop size) :
    update (update value (buffer.take size)) buffer = value := by
  have front : (buffer.take size).length = size := by rw [List.length_take]; omega
  have frontValue : (value.take size).length = size := by rw [List.length_take]; omega
  have shorter : (update value (buffer.take size)).length = size := by rw [length_update, front]
  rw [update_of_le (by omega), shorter, update_of_ge (by omega), front, xor_xor (by omega), ← trims, List.take_append_drop]

section Sizes

variable {notification : MetadataValueNotification} {maxValueSize : UInt16}

/-- The sizes that the validator accepts. -/
theorem metadataSizes_success (accepted : metadataSizes maxValueSize notification = .success) :
    0 < notification.valueSize.toNat ∧ notification.valueSizeDelta.toInt.natAbs ≤ notification.valueSize.toNat := by
  unfold metadataSizes at accepted
  split at accepted
  · cases accepted
  · next positive =>
    split at accepted
    · cases accepted
    · next small =>
      refine ⟨?_, not_lt.mp small⟩
      exact Nat.pos_of_ne_zero fun zero => positive (UInt16.toNat_inj.mp zero)

/-- The observer never takes more bytes than there are. -/
theorem observedValueSize_bounds (accepted : metadataSizes maxValueSize notification = .success) (mode : NotifyMode) :
    0 ≤ observedValueSize mode notification ∧ observedValueSize mode notification ≤ notification.valueSize.toNat := by
  obtain ⟨_, small⟩ := metadataSizes_success accepted
  unfold observedValueSize
  cases mode with
  | commit =>
    dsimp only
    split
    · next negative =>
      rw [Int16.lt_iff_toInt_lt, Int16.toInt_zero] at negative
      omega
    · omega
  | rollback =>
    dsimp only
    split
    · next positive =>
      rw [Int16.lt_iff_toInt_lt, Int16.toInt_zero] at positive
      omega
    · omega

/-- The sizes that the observer takes for a change of the size. -/
theorem observedValueSize_eq (accepted : metadataSizes maxValueSize notification = .success) :
    (∃ growth : Nat, notification.valueSizeDelta.toInt = growth ∧ growth ≤ notification.value.length ∧
      (observedValueSize .commit notification).toNat = notification.value.length ∧
      (observedValueSize .rollback notification).toNat = notification.value.length - growth) ∨
    (∃ trim : Nat, 0 < trim ∧ notification.valueSizeDelta.toInt = -trim ∧ trim ≤ notification.value.length ∧
      (observedValueSize .commit notification).toNat = notification.value.length - trim ∧
      (observedValueSize .rollback notification).toNat = notification.value.length) := by
  obtain ⟨_, small⟩ := metadataSizes_success accepted
  have length := notification.valueLength
  unfold observedValueSize
  simp only [Int16.lt_iff_toInt_lt, Int16.toInt_zero]
  rcases lt_or_ge notification.valueSizeDelta.toInt 0 with negative | positive
  · refine .inr ⟨notification.valueSizeDelta.toInt.natAbs, by omega, by omega, by omega, ?_, ?_⟩
    · rw [if_pos negative]
      omega
    · rw [if_neg (by omega)]
      omega
  · refine .inl ⟨notification.valueSizeDelta.toInt.toNat, by omega, by omega, ?_, ?_⟩
    · rw [if_neg (by omega)]
      omega
    · split
      · omega
      · omega

theorem toNat_ofInt {value : Int} (positive : 0 ≤ value) (small : value < 2 ^ 16) : (UInt16.ofInt value).toNat = value.toNat := by
  rw [UInt16.ofInt, UInt16.toNat_ofNat']
  omega

theorem expectedCacheValueSize_growth (accepted : metadataSizes maxValueSize notification = .success) {growth : Nat}
    (grows : notification.valueSizeDelta.toInt = growth) :
    (expectedCacheValueSize notification).toNat = notification.valueSize.toNat - growth := by
  obtain ⟨_, small⟩ := metadataSizes_success accepted
  have bound := notification.valueSize.toNat_lt
  unfold expectedCacheValueSize
  split
  · rw [toNat_ofInt (by omega) (by omega)]
    omega
  · next notPositive =>
    rw [Int16.lt_iff_toInt_lt, Int16.toInt_zero] at notPositive
    omega

theorem expectedCacheValueSize_trim {trim : Nat} (some : 0 < trim) (trims : notification.valueSizeDelta.toInt = -trim) :
    (expectedCacheValueSize notification).toNat = notification.valueSize.toNat := by
  have notPositive : ¬(0 < notification.valueSizeDelta) := by
    rw [Int16.lt_iff_toInt_lt, Int16.toInt_zero]
    omega
  rw [expectedCacheValueSize, if_neg notPositive]

/-- The bytes that are trimmed are those of the notification. -/
theorem canTrim_drop (accepted : metadataSizes maxValueSize notification = .success) {trim : Nat} {value : List UInt8}
    (trims : notification.valueSizeDelta.toInt = -trim)
    (reversible : canTrim value notification.value (UInt16.ofInt (-notification.valueSizeDelta.toInt)).toNat = true) :
    value.drop (notification.value.length - trim) = notification.value.drop (notification.value.length - trim) := by
  obtain ⟨_, small⟩ := metadataSizes_success accepted
  have bound := notification.valueSize.toNat_lt
  have count : (UInt16.ofInt (-notification.valueSizeDelta.toInt)).toNat = trim := by
    rw [toNat_ofInt (by omega) (by omega)]
    omega
  unfold canTrim at reversible
  rw [count, Bool.and_eq_true, decide_eq_true_iff] at reversible
  exact reversible.2

end Sizes

section Steps

variable [Sha3] {maxValueSize : UInt16} {cache next : MetadataCache} {delivery : MetadataDelivery}

theorem observe_eq (accepted : metadataSizes maxValueSize delivery.notification = .success) (mode : NotifyMode)
    (cache : MetadataCache) : observeMetadataValue mode cache delivery = updateCache cache (resolveMetadataKey delivery)
      (delivery.notification.value.take (observedValueSize mode delivery.notification).toNat) := by
  obtain ⟨positive, bounded⟩ := observedValueSize_bounds accepted mode
  have small := delivery.notification.valueSize.toNat_lt
  rw [observeMetadataValue, Int.emod_eq_of_lt positive (by omega)]

theorem execute_ok (executed : execute maxValueSize cache delivery = .ok next) :
    metadataSizes maxValueSize delivery.notification = .success ∧ metadataValue cache delivery = .success ∧
      next = observeMetadataValue .commit cache delivery := by
  unfold execute at executed
  split at executed
  · next sizes =>
    split at executed
    · next value => exact ⟨sizes, value, (Except.ok.inj executed).symm⟩
    · cases executed
  · cases executed

theorem metadataValue_new (accepted : metadataValue cache delivery = .success)
    (new : cache.lookup (resolveMetadataKey delivery).uniqueKey = none) :
    delivery.notification.valueSizeDelta.toInt = delivery.notification.valueSize.toNat := by
  unfold metadataValue at accepted
  rw [new] at accepted
  dsimp only at accepted
  by_contra other
  rw [if_neg other] at accepted
  cases accepted

theorem metadataValue_known {entry : MetadataEntry} (accepted : metadataValue cache delivery = .success)
    (known : cache.lookup (resolveMetadataKey delivery).uniqueKey = some entry) :
    (expectedCacheValueSize delivery.notification).toNat = entry.value.length ∧
      (delivery.notification.valueSizeDelta.toInt < 0 → canTrim entry.value delivery.notification.value
        (UInt16.ofInt (-delivery.notification.valueSizeDelta.toInt)).toNat = true) := by
  unfold metadataValue at accepted
  rw [known] at accepted
  dsimp only at accepted
  by_cases expected : (expectedCacheValueSize delivery.notification).toNat ≠ entry.value.length
  · rw [if_pos expected] at accepted
    cases accepted
  · refine ⟨not_not.mp expected, fun negative => ?_⟩
    have notPositive : ¬(0 ≤ delivery.notification.valueSizeDelta) := by
      rw [Int16.le_iff_toInt_le, Int16.toInt_zero]
      omega
    rw [if_neg expected, if_neg notPositive] at accepted
    by_contra irreversible
    rw [if_neg irreversible] at accepted
    cases accepted

/-- The number of bytes that a rollback takes from the value. -/
def restoredSize (delivery : MetadataDelivery) : Nat := (observedValueSize .rollback delivery.notification).toNat

/-- What an accepted notification can do. -/
theorem execute_cases (executed : execute maxValueSize cache delivery = .ok next) {key : MetadataKey} {value : List UInt8}
    (hasKey : resolveMetadataKey delivery = key) (hasValue : delivery.notification.value = value) : value ≠ [] ∧
    ((cache.lookup key.uniqueKey = none ∧ restoredSize delivery = 0 ∧ next = cache.insert key.uniqueKey ⟨key, value⟩) ∨
    (∃ entry, cache.lookup key.uniqueKey = some entry ∧ entry.value.length ≤ value.length ∧
      restoredSize delivery = entry.value.length ∧
      next = cache.insert key.uniqueKey { entry with value := update entry.value value }) ∨
    (∃ entry, cache.lookup key.uniqueKey = some entry ∧ entry.value = value ∧ restoredSize delivery = value.length ∧
      next = cache.erase key.uniqueKey) ∨
    (∃ entry size, cache.lookup key.uniqueKey = some entry ∧ entry.value.length = value.length ∧ 0 < size ∧
      size < value.length ∧ entry.value.drop size = value.drop size ∧ restoredSize delivery = value.length ∧
      next = cache.insert key.uniqueKey { entry with value := update entry.value (value.take size) })) := by
  obtain ⟨sizes, accepted, rfl⟩ := execute_ok executed
  have positive := (metadataSizes_success sizes).1
  have length := delivery.notification.valueLength
  have outcomes := observedValueSize_eq sizes
  rw [observe_eq sizes, updateCache, hasKey]
  rw [hasValue] at length outcomes ⊢
  refine ⟨List.ne_nil_of_length_pos (by omega), ?_⟩
  cases known : cache.lookup key.uniqueKey with
  | none =>
    have delta := metadataValue_new accepted (hasKey ▸ known)
    rcases outcomes with ⟨growth, grows, _, commits, restores⟩ | ⟨trim, some, trims, _, _, _⟩
    · rw [commits, List.take_length, update_nil]
      exact .inl ⟨rfl, restores.trans (by omega), rfl⟩
    · omega
  | some entry =>
    obtain ⟨expected, reversible⟩ := metadataValue_known accepted (hasKey ▸ known)
    dsimp only
    rcases outcomes with ⟨growth, grows, bounded, commits, restores⟩ | ⟨trim, some, trims, bounded, commits, restores⟩
    · have size := expectedCacheValueSize_growth sizes grows
      rw [commits, List.take_length, if_neg (by omega)]
      exact .inr (.inl ⟨entry, rfl, by omega, restores.trans (by omega), rfl⟩)
    · have size := expectedCacheValueSize_trim (by omega) trims
      have same : entry.value.length = value.length := by omega
      have kept := hasValue ▸ canTrim_drop sizes trims (reversible (by omega))
      rw [commits]
      by_cases all : trim = value.length
      · rw [if_pos (by rw [List.length_take]; omega)]
        rw [all, Nat.sub_self, List.drop_zero, List.drop_zero] at kept
        exact .inr (.inr (.inl ⟨entry, rfl, kept, restores, rfl⟩))
      · rw [if_neg (by rw [List.length_take]; omega)]
        exact .inr (.inr (.inr ⟨entry, value.length - trim, rfl, same, by omega, by omega, kept, restores, rfl⟩))

/-- Entries have a value and are found by the hash of their keys. -/
structure WellFormed (keys : MetadataKey → Prop) (cache : MetadataCache) : Prop where
  values : ∀ hash entry, cache.lookup hash = some entry → entry.value ≠ []
  hashes : ∀ hash entry, cache.lookup hash = some entry → entry.key.uniqueKey = hash
  known : ∀ hash entry, cache.lookup hash = some entry → keys entry.key

theorem wellFormed_insert {keys : MetadataKey → Prop} (wellFormed : WellFormed keys cache) {key : MetadataKey}
    {hash : Hash256} {value : List UInt8} (hasHash : key.uniqueKey = hash) (known : keys key) (filled : value ≠ []) :
    WellFormed keys (cache.insert hash ⟨key, value⟩) := by
  have split (other : Hash256) (entry : MetadataEntry) (found : (cache.insert hash ⟨key, value⟩).lookup other = some entry) :
      (other = hash ∧ entry = ⟨key, value⟩) ∨ cache.lookup other = some entry := by
    by_cases same : other = hash
    · rw [same, Finmap.lookup_insert] at found
      exact .inl ⟨same, (Option.some.inj found).symm⟩
    · rw [Finmap.lookup_insert_of_ne _ same] at found
      exact .inr found
  refine ⟨fun other entry found => ?_, fun other entry found => ?_, fun other entry found => ?_⟩
  · rcases split other entry found with ⟨_, rfl⟩ | old
    · exact filled
    · exact wellFormed.values other entry old
  · rcases split other entry found with ⟨rfl, rfl⟩ | old
    · exact hasHash
    · exact wellFormed.hashes other entry old
  · rcases split other entry found with ⟨_, rfl⟩ | old
    · exact known
    · exact wellFormed.known other entry old

theorem wellFormed_erase {keys : MetadataKey → Prop} (wellFormed : WellFormed keys cache) (hash : Hash256) :
    WellFormed keys (cache.erase hash) := by
  have old (other : Hash256) (entry : MetadataEntry) (found : (cache.erase hash).lookup other = some entry) :
      cache.lookup other = some entry := by
    by_cases same : other = hash
    · rw [same, Finmap.lookup_erase] at found
      cases found
    · rwa [Finmap.lookup_erase_ne same] at found
  exact ⟨fun other entry found => wellFormed.values other entry (old other entry found),
    fun other entry found => wellFormed.hashes other entry (old other entry found),
    fun other entry found => wellFormed.known other entry (old other entry found)⟩

theorem wellFormed_execute {keys : MetadataKey → Prop} (wellFormed : WellFormed keys cache)
    (known : keys (resolveMetadataKey delivery)) (executed : execute maxValueSize cache delivery = .ok next) :
    WellFormed keys next := by
  obtain ⟨some, ⟨_, _, rfl⟩ | ⟨entry, found, _, _, rfl⟩ | ⟨_, _, _, _, rfl⟩ | ⟨entry, size, found, _, positive, inside, _, _, rfl⟩⟩ :=
    execute_cases executed rfl rfl
  · exact wellFormed_insert wellFormed rfl known some
  · refine wellFormed_insert wellFormed (wellFormed.hashes _ _ found) (wellFormed.known _ _ found) ?_
    exact List.ne_nil_of_length_pos (by rw [length_update]; exact List.length_pos_iff.mpr some)
  · exact wellFormed_erase wellFormed _
  · refine wellFormed_insert wellFormed (wellFormed.hashes _ _ found) (wellFormed.known _ _ found) ?_
    exact List.ne_nil_of_length_pos (by rw [length_update, List.length_take]; omega)

/-- The rollback of an accepted notification restores the cache. -/
theorem rollback_execute {keys : MetadataKey → Prop} (wellFormed : WellFormed keys cache)
    (known : keys (resolveMetadataKey delivery))
    (distinct : ∀ first second, keys first → keys second → first.uniqueKey = second.uniqueKey → first = second)
    (executed : execute maxValueSize cache delivery = .ok next) : observeMetadataValue .rollback next delivery = cache := by
  have sizes := (execute_ok executed).1
  rw [observe_eq sizes, ← restoredSize, updateCache]
  obtain ⟨some, ⟨new, size, rfl⟩ | ⟨entry, found, longer, size, rfl⟩ | ⟨entry, found, same, size, rfl⟩ |
    ⟨entry, kept, found, same, positive, inside, trims, size, rfl⟩⟩ := execute_cases executed rfl rfl
  · rw [Finmap.lookup_insert, size, List.take_zero]
    exact Totals.erase_insert new
  · have value := wellFormed.values _ _ found
    have front : (delivery.notification.value.take entry.value.length).length = entry.value.length := by
      rw [List.length_take]
      omega
    rw [Finmap.lookup_insert, size]
    dsimp only
    rw [if_neg (by rw [front]; exact fun zero => value (List.eq_nil_of_length_eq_zero zero)), Finmap.insert_insert,
      update_grown longer]
    exact Totals.insert_self found
  · have key := distinct _ _ (wellFormed.known _ _ found) known (wellFormed.hashes _ _ found)
    rw [Finmap.lookup_erase, size, List.take_length]
    dsimp only
    have whole : (⟨resolveMetadataKey delivery, delivery.notification.value⟩ : MetadataEntry) = entry := by rw [← key, ← same]
    rw [update_nil, Totals.insert_erase, whole]
    exact Totals.insert_self found
  · rw [Finmap.lookup_insert, size, List.take_length]
    dsimp only
    rw [if_neg (by omega), Finmap.insert_insert, update_trimmed same inside.le trims]
    exact Totals.insert_self found

end Steps

/-- The metadata keys of a history have different hashes. -/
def CollisionFree [Sha3] (deliveries : List MetadataDelivery) : Prop :=
  ∀ first ∈ deliveries, ∀ second ∈ deliveries, (resolveMetadataKey first).uniqueKey = (resolveMetadataKey second).uniqueKey →
      resolveMetadataKey first = resolveMetadataKey second

/-- Metadata values that notifications changed are restored by their rollback in reverse order. -/
theorem rollback_restores_metadata [Sha3] {maxValueSize : UInt16} {history deliveries : List MetadataDelivery}
    {cache final : MetadataCache} (collisionFree : CollisionFree (history ++ deliveries))
    (reached : history.foldlM (execute maxValueSize) ∅ = .ok cache)
    (committed : deliveries.foldlM (execute maxValueSize) cache = .ok final) :
    deliveries.reverse.foldl (observeMetadataValue .rollback) final = cache ∧
    (∀ done undone, deliveries = done ++ undone → ∃ middle, done.foldlM (execute maxValueSize) cache = .ok middle ∧
      undone.reverse.foldl (observeMetadataValue .rollback) final = middle ∧
      ∀ hash entry, middle.lookup hash = some entry → entry.value ≠ []) ∧
    ∀ delivery ∈ deliveries, ∀ mode, 0 ≤ observedValueSize mode delivery.notification ∧
      observedValueSize mode delivery.notification ≤ delivery.notification.value.length := by
  let keys := fun key => ∃ delivery ∈ history ++ deliveries, resolveMetadataKey delivery = key
  have distinct : ∀ first second, keys first → keys second → first.uniqueKey = second.uniqueKey → first = second := by
    rintro _ _ ⟨first, memberFirst, rfl⟩ ⟨second, memberSecond, rfl⟩ same
    exact collisionFree first memberFirst second memberSecond same
  have preserved (part : List MetadataDelivery) (included : part ⊆ history ++ deliveries) :
      ∀ delivery ∈ part, ∀ state next, WellFormed keys state → execute maxValueSize state delivery = .ok next →
        WellFormed keys next := fun delivery member _ _ wellFormed executed =>
    wellFormed_execute wellFormed ⟨delivery, included member, rfl⟩ executed
  have empty : WellFormed keys ∅ := ⟨nofun, nofun, nofun⟩
  have wellFormed := Runs.along_run (preserved history (List.subset_append_left _ _)) empty reached
  have included := List.subset_append_right history deliveries
  have undo (part : List MetadataDelivery) (within : part ⊆ deliveries) {start stop : MetadataCache}
      (initially : WellFormed keys start) (ran : part.foldlM (execute maxValueSize) start = .ok stop) :
      part.reverse.foldl (observeMetadataValue .rollback) stop = start :=
    Runs.foldlM_reverse_undo (preserved part (List.Subset.trans within included)) (fun delivery member _ _ wellFormed executed =>
      rollback_execute wellFormed ⟨delivery, included (within member), rfl⟩ distinct executed) initially ran
  refine ⟨undo deliveries (List.Subset.refl _) wellFormed committed, ?_, ?_⟩
  · rintro done undone rfl
    rw [List.foldlM_append] at committed
    obtain ⟨middle, first, second⟩ := Runs.bind_eq_ok.mp committed
    have reachedMiddle := Runs.along_run
      (preserved done (List.Subset.trans (List.subset_append_left _ _) included)) wellFormed first
    exact ⟨middle, first, undo undone (List.subset_append_right _ _) reachedMiddle second, reachedMiddle.values⟩
  · intro delivery member mode
    obtain ⟨before, after, executed⟩ := Runs.step_of_run committed delivery member
    rw [delivery.notification.valueLength]
    exact observedValueSize_bounds (execute_ok executed).1 mode

namespace Samples

def resolvers : Lock.ResolverContext := ⟨fun id => id, fun address => address⟩

/-- Account metadata with one scoped key. -/
def deliver (valueSizeDelta : Int16) (valueSize : UInt16) (value : List UInt8) (valueLength : value.length = valueSize.toNat) :
    MetadataDelivery :=
  ⟨resolvers, ⟨Vector.replicate 24 1, Vector.replicate 24 2, 3, .accountMetadata, 0, valueSizeDelta, valueSize, value, valueLength⟩⟩

/-- The value is created and removed. -/
def create : MetadataDelivery := deliver 2 2 [5, 6] rfl

def remove : MetadataDelivery := deliver (-2) 2 [5, 6] rfl

def key : MetadataKey := ⟨Vector.replicate 24 1, Vector.replicate 24 2, 3, 0, .accountMetadata⟩

theorem create_runs [Sha3] : [create].foldlM (execute 1024) ∅ = .ok ((∅ : MetadataCache).insert key.uniqueKey ⟨key, [5, 6]⟩) := rfl

theorem remove_runs [Sha3] (cache : MetadataCache) : [remove].foldlM (execute 1024) (cache.insert key.uniqueKey ⟨key, [5, 6]⟩) =
      .ok ((cache.insert key.uniqueKey ⟨key, [5, 6]⟩).erase key.uniqueKey) := by
  have sizes : metadataSizes 1024 remove.notification = .success := by decide
  have known : (cache.insert key.uniqueKey ⟨key, [5, 6]⟩).lookup (resolveMetadataKey remove).uniqueKey = some ⟨key, [5, 6]⟩ :=
    Finmap.lookup_insert _
  have value : metadataValue (cache.insert key.uniqueKey ⟨key, [5, 6]⟩) remove = .success := by
    unfold metadataValue
    rw [known]
    rfl
  rw [List.foldlM_cons, execute, sizes, value]
  dsimp only
  rw [observe_eq sizes, updateCache, known]
  rfl

end Samples

/-- A value that was removed is restored. -/
theorem rollback_restores_metadata_removal : letI := sha3Digest
    ∃ cache final : MetadataCache, cache ≠ final ∧ [Samples.remove].foldlM (execute 1024) cache = .ok final ∧
      [Samples.remove].reverse.foldl (observeMetadataValue .rollback) final = cache := by
  let digest := sha3Digest
  have collisionFree : CollisionFree ([Samples.create] ++ [Samples.remove]) := by
    intro first memberFirst second memberSecond _
    rcases List.mem_pair.mp memberFirst with rfl | rfl <;> rcases List.mem_pair.mp memberSecond with rfl | rfl <;> rfl
  refine ⟨_, _, ?_, Samples.remove_runs ∅,
    (rollback_restores_metadata collisionFree Samples.create_runs (Samples.remove_runs ∅)).1⟩
  intro same
  have found := congrArg (Finmap.lookup Samples.key.uniqueKey) same
  rw [Finmap.lookup_insert, Finmap.lookup_erase] at found
  cases found

end Catapult.Metadata
