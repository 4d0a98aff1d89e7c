import Catapult.Construction.Unconfirmed.UtUpdater
import Catapult.Library.Runs
import Mathlib.Data.List.Nodup

/-
This file proves that transactions are applied and undone as a whole and that the unconfirmed cache has all of them applied.
-/

namespace Catapult.Unconfirmed

variable {C N T : Type}

/-- The rollback of an observer takes back its commit. -/
def Reversible (observer : Observer C N) : Prop :=
  ∀ height notification cache, observer ⟨height, .rollback⟩ notification (observer ⟨height, .commit⟩ notification cache) = cache

/-- All observers get a notification in the order of the commit. -/
def commitNotification (observers : List (Observer C N)) (height : Height) (cache : C) (notification : Notification N) : C :=
  notifyObservers observers ⟨height, .commit⟩ notification cache

theorem notifyObservers_undoes {observers : List (Observer C N)}
    (reversible : ∀ observer ∈ observers, Reversible observer) (height : Height)
    (notification : Notification N) (cache : C) : notifyObservers observers ⟨height, .rollback⟩ notification
      (commitNotification observers height cache notification) = cache := by
  unfold commitNotification notifyObservers
  apply Runs.foldl_reverse_undo
  intro observer member state
  exact reversible observer member height notification state

namespace ProcessingNotificationSubscriber

/-- A subscriber has executed the stored notifications on a cache. -/
structure Executed (config : UtConfiguration C N T) (height : Height) (cache : C)
    (subscriber : ProcessingNotificationSubscriber C N) : Prop where
  observers : subscriber.observers = config.observers
  context : subscriber.observerContext = ⟨height, .commit⟩
  executed : subscriber.cache = subscriber.notificationBuffers.foldl (commitNotification config.observers height) cache

theorem Executed.validate {config : UtConfiguration C N T} {height : Height} {cache : C}
    {subscriber : ProcessingNotificationSubscriber C N} (executed : Executed config height cache subscriber)
    (notification : Notification N) : Executed config height cache (subscriber.validate notification) := by
  unfold ProcessingNotificationSubscriber.validate
  split
  · exact ⟨executed.observers, executed.context, executed.executed⟩
  · exact executed

theorem Executed.observe {config : UtConfiguration C N T} {height : Height} {cache : C}
    {subscriber : ProcessingNotificationSubscriber C N} (executed : Executed config height cache subscriber)
    (notification : Notification N) : Executed config height cache (subscriber.observe notification) := by
  unfold ProcessingNotificationSubscriber.observe
  split
  · refine ⟨executed.observers, executed.context, ?_⟩
    rw [List.foldl_append, ← executed.executed, executed.observers, executed.context]
    rfl
  · exact executed

theorem Executed.notify {config : UtConfiguration C N T} {height : Height} {cache : C}
    {subscriber : ProcessingNotificationSubscriber C N} (executed : Executed config height cache subscriber)
    (notification : Notification N) : Executed config height cache (subscriber.notify notification) := by
  unfold ProcessingNotificationSubscriber.notify
  split
  · dsimp only
    split
    · exact (executed.validate notification).observe notification
    · exact executed.validate notification
  · exact executed

/-- Undo restores the cache from before the first notification. -/
theorem Executed.undo {config : UtConfiguration C N T} {height : Height} {cache : C}
    {subscriber : ProcessingNotificationSubscriber C N} (executed : Executed config height cache subscriber)
    (reversible : ∀ observer ∈ config.observers, Reversible observer) : subscriber.undo.cache = cache := by
  unfold ProcessingNotificationSubscriber.undo
  dsimp only
  rw [executed.context, executed.observers, executed.executed]
  apply Runs.foldl_reverse_undo
  intro notification _ state
  exact notifyObservers_undoes reversible height notification state

theorem validate_notificationBuffers (subscriber : ProcessingNotificationSubscriber C N) (notification : Notification N) :
    (subscriber.validate notification).notificationBuffers = subscriber.notificationBuffers := by
  unfold validate
  split <;> rfl

/-- If the notification was valid, then it is stored for the observers that get it. -/
theorem notify_notificationBuffers {subscriber : ProcessingNotificationSubscriber C N} {notification : Notification N}
    (success : isValidationResultSuccess (subscriber.notify notification).aggregateResult = true) :
    isValidationResultSuccess subscriber.aggregateResult = true ∧ (subscriber.notify notification).notificationBuffers =
        subscriber.notificationBuffers ++ [notification].filter Notification.isObserverSet := by
  unfold notify at success ⊢
  split at success
  · next before =>
    refine ⟨before, ?_⟩
    rw [if_pos before]
    dsimp only at success ⊢
    split at success
    · next valid =>
      rw [if_pos valid]
      unfold observe
      by_cases isSet : notification.isObserverSet = true
      · rw [if_pos isSet, List.filter_cons_of_pos isSet]
        dsimp only
        rw [validate_notificationBuffers]
        rfl
      · rw [if_neg isSet, List.filter_cons_of_neg isSet, validate_notificationBuffers, List.filter_nil, List.append_nil]
    · next invalid => exact absurd success invalid
  · next failed => exact absurd success failed

/-- If all notifications were valid, then all of them were executed. -/
theorem foldl_notify_notificationBuffers {notifications : List (Notification N)}
    {subscriber : ProcessingNotificationSubscriber C N}
    (success : isValidationResultSuccess (notifications.foldl notify subscriber).aggregateResult = true) :
    isValidationResultSuccess subscriber.aggregateResult = true ∧ (notifications.foldl notify subscriber).notificationBuffers =
        subscriber.notificationBuffers ++ notifications.filter Notification.isObserverSet := by
  induction notifications generalizing subscriber with
  | nil => exact ⟨success, (List.append_nil _).symm⟩
  | cons notification notifications ih =>
    obtain ⟨next, rest⟩ := ih success
    obtain ⟨before, stored⟩ := notify_notificationBuffers next
    refine ⟨before, ?_⟩
    rw [List.foldl_cons, rest, stored, List.append_assoc, ← List.filter_append, List.singleton_append]

end ProcessingNotificationSubscriber

/-- A transaction is applied when the observers get all its notifications. -/
def execute (config : UtConfiguration C N T) (cacheHeight : Height) (cache : C) (info : TransactionInfo T) : C :=
  ((config.publish info).filter Notification.isObserverSet).foldl
    (commitNotification config.observers (cacheHeight + 1)) cache

theorem process_executed (config : UtConfiguration C N T) (cacheHeight : Height) (time : Timestamp)
    (info : TransactionInfo T) (cache : C) :
    (process config cacheHeight time info cache).Executed config (cacheHeight + 1) cache := by
  unfold process
  generalize config.publish info = notifications
  dsimp only
  generalize started : ProcessingNotificationSubscriber.create config.validator ⟨cacheHeight + 1, time⟩
    config.observers ⟨cacheHeight + 1, .commit⟩ cache = subscriber
  have initially : subscriber.Executed config (cacheHeight + 1) cache := by
    rw [← started]
    exact ⟨rfl, rfl, rfl⟩
  clear started
  induction notifications generalizing subscriber with
  | nil => exact initially
  | cons notification notifications ih => exact ih _ (initially.notify notification)

/-- A valid transaction is applied as a whole. -/
theorem process_success {config : UtConfiguration C N T} {cacheHeight : Height} {time : Timestamp}
    {info : TransactionInfo T} {cache : C}
    (success : isValidationResultSuccess (process config cacheHeight time info cache).aggregateResult = true) :
    (process config cacheHeight time info cache).cache = execute config cacheHeight cache info := by
  have stored := (ProcessingNotificationSubscriber.foldl_notify_notificationBuffers success).2
  rw [(process_executed config cacheHeight time info cache).executed, execute]
  exact congrArg _ stored

/-- The hashes in a cache of unconfirmed transactions. -/
def MemoryUtCache.hashes (cache : MemoryUtCache T) : List Hash256 :=
  cache.transactions.map TransactionInfo.entityHash

theorem contains_eq_true {cache : MemoryUtCache T} {hash : Hash256} : cache.contains hash = true ↔ hash ∈ cache.hashes := by
  simp [MemoryUtCache.contains, MemoryUtCache.hashes]

theorem add_eq_some {cache added : MemoryUtCache T} {info : TransactionInfo T} (adds : cache.add info = some added) :
    info.entityHash ∉ cache.hashes ∧ added = { cache with
        cacheSize := cache.cacheSize + info.size.toUInt64
        transactions := cache.transactions ++ [info] } := by
  unfold MemoryUtCache.add at adds
  split at adds
  · cases adds
  · split at adds
    · cases adds
    · next absent => exact ⟨fun member => absent (contains_eq_true.mpr member), (Option.some.inj adds).symm⟩

theorem add_nodup {cache added : MemoryUtCache T} {info : TransactionInfo T} (adds : cache.add info = some added)
    (distinct : cache.hashes.Nodup) : added.hashes.Nodup := by
  obtain ⟨absent, rfl⟩ := add_eq_some adds
  rw [MemoryUtCache.hashes, List.map_append]
  refine List.nodup_append.mpr ⟨distinct, List.nodup_singleton _, ?_⟩
  intro hash member other single same
  exact absent (same.trans (List.mem_singleton.mp single) ▸ member)

/-- A transaction that was just added is removed without a trace. -/
theorem remove_add {cache added : MemoryUtCache T} {info : TransactionInfo T} (adds : cache.add info = some added) :
    added.remove info.entityHash = cache := by
  obtain ⟨absent, rfl⟩ := add_eq_some adds
  have missing : ∀ other ∈ cache.transactions, ¬ decide (other.entityHash = info.entityHash) = true := by
    intro other member same
    exact absent (of_decide_eq_true same ▸ List.mem_map_of_mem member)
  have found : (cache.transactions ++ [info]).find? (fun other => decide (other.entityHash = info.entityHash)) = some info := by
    rw [List.find?_append, List.find?_eq_none.mpr missing]
    simp
  unfold MemoryUtCache.remove
  rw [found]
  dsimp only
  rw [List.eraseP_append_right _ missing, UInt64.add_sub_cancel]
  simp

/-- The cache with more transactions at the end. -/
def MemoryUtCache.withMore (cache : MemoryUtCache T) (more : List (TransactionInfo T)) : MemoryUtCache T :=
  { cache with
    cacheSize := more.foldl (fun size info => size + info.size.toUInt64) cache.cacheSize
    transactions := cache.transactions ++ more }

/-- More transactions were added at the end and applied. -/
structure Extends (config : UtConfiguration C N T) (cacheHeight : Height) (state final : ApplyState C T)
    (more : List (TransactionInfo T)) : Prop where
  modifier : final.modifier = state.modifier.withMore more
  delta : final.unconfirmedCatapultCache = more.foldl (execute config cacheHeight) state.unconfirmedCatapultCache
  nodup : state.modifier.hashes.Nodup → final.modifier.hashes.Nodup

theorem Extends.refl (config : UtConfiguration C N T) (cacheHeight : Height) (state : ApplyState C T) :
    Extends config cacheHeight state state [] := by
  refine ⟨?_, rfl, id⟩
  rw [MemoryUtCache.withMore, List.append_nil, List.foldl_nil]

theorem Extends.transactions {config : UtConfiguration C N T} {cacheHeight : Height} {state final : ApplyState C T}
    {more : List (TransactionInfo T)} (extended : Extends config cacheHeight state final more) :
    final.modifier.transactions = state.modifier.transactions ++ more :=
  congrArg MemoryUtCache.transactions extended.modifier

theorem Extends.trans {config : UtConfiguration C N T} {cacheHeight : Height} {state next final : ApplyState C T}
    {more rest : List (TransactionInfo T)} (first : Extends config cacheHeight state next more)
    (second : Extends config cacheHeight next final rest) : Extends config cacheHeight state final (more ++ rest) := by
  refine ⟨?_, ?_, fun distinct => second.nodup (first.nodup distinct)⟩
  · rw [second.modifier, first.modifier]
    simp only [MemoryUtCache.withMore, List.foldl_append, List.append_assoc]
  · rw [second.delta, first.delta, List.foldl_append]

theorem Extends.mem_hashes {config : UtConfiguration C N T} {cacheHeight : Height} {state final : ApplyState C T}
    {more : List (TransactionInfo T)} (extended : Extends config cacheHeight state final more) {hash : Hash256}
    (member : hash ∈ state.modifier.hashes) : hash ∈ final.modifier.hashes := by
  rw [MemoryUtCache.hashes, extended.transactions, List.map_append]
  exact List.mem_append_left _ member

theorem extends_add {config : UtConfiguration C N T} {cacheHeight : Height} {state : ApplyState C T}
    {info : TransactionInfo T} {modifier : MemoryUtCache T} (adds : state.modifier.add info = some modifier) :
    Extends config cacheHeight state
      ⟨modifier, execute config cacheHeight state.unconfirmedCatapultCache info⟩ [info] := by
  refine ⟨?_, rfl, add_nodup adds⟩
  rw [(add_eq_some adds).2]
  rfl

/-- Why a transaction is not in the cache after it was offered in a state. -/
inductive Dropped (config : UtConfiguration C N T) (cacheHeight : Height) (time : Timestamp)
    (source : TransactionSource) (filter : TransactionInfo T → Bool) (state : ApplyState C T)
    (info : TransactionInfo T) : Prop
  | filtered (excluded : filter info = false)
  | belowMinFee (below : info.maxFee < calculateTransactionFee config.minFeeMultiplier info)
  | throttled (throttles : config.throttle info
      ⟨source, cacheHeight, state.unconfirmedCatapultCache, state.modifier⟩ = true)
  | refused (full : state.modifier.maxCacheSize - state.modifier.cacheSize < info.size.toUInt64)
  | failed (invalid : isValidationResultSuccess
      (process config cacheHeight time info state.unconfirmedCatapultCache).aggregateResult = false)

/-- A transaction is refused if there is no room or if it is already there. -/
theorem add_eq_none {cache : MemoryUtCache T} {info : TransactionInfo T} (refuses : cache.add info = none) :
    cache.maxCacheSize - cache.cacheSize < info.size.toUInt64 ∨ info.entityHash ∈ cache.hashes := by
  unfold MemoryUtCache.add at refuses
  split at refuses
  · next full => exact .inl full
  · split at refuses
    · next member => exact .inr (contains_eq_true.mp member)
    · cases refuses

/-- A transaction is added and applied, or it changes nothing and is dropped or was already there. -/
theorem applyOne_cases {config : UtConfiguration C N T}
    (reversible : ∀ observer ∈ config.observers, Reversible observer) (cacheHeight : Height) (time : Timestamp)
    (source : TransactionSource) (filter : TransactionInfo T → Bool) (state : ApplyState C T) (info : TransactionInfo T) :
    let result := applyOne config cacheHeight time source filter state info
    (result.2 = .new ∧ Extends config cacheHeight state result.1 [info]) ∨ (result.2 ≠ .new ∧ result.1 = state ∧
        (Dropped config cacheHeight time source filter state info ∨ info.entityHash ∈ state.modifier.hashes)) := by
  dsimp only
  unfold applyOne
  split
  · next excluded => exact .inr ⟨by simp, rfl, .inl (.filtered (by simpa using excluded))⟩
  · split
    · next below => exact .inr ⟨by simp, rfl, .inl (.belowMinFee below)⟩
    · split
      · next throttles => exact .inr ⟨by simp, rfl, .inl (.throttled throttles)⟩
      · split
        · next refuses => exact .inr ⟨by simp, rfl, (add_eq_none refuses).imp_left .refused⟩
        · next modifier adds =>
          dsimp only
          split
          · next success =>
            refine .inl ⟨rfl, ?_⟩
            rw [process_success success]
            exact extends_add adds
          · next invalid =>
            refine .inr ⟨by simp, ?_, .inl (.failed (by simpa using invalid))⟩
            rw [remove_add adds, (process_executed config cacheHeight time info _).undo reversible]

/-- A loop over transactions adds and applies some of them in order. -/
theorem apply_extends {config : UtConfiguration C N T}
    (reversible : ∀ observer ∈ config.observers, Reversible observer) (cacheHeight : Height) (time : Timestamp)
    (source : TransactionSource) (filter : TransactionInfo T → Bool) (infos : List (TransactionInfo T))
    (state : ApplyState C T) : ∃ more, more.Sublist infos ∧
      Extends config cacheHeight state (apply config cacheHeight time source filter state infos).1 more := by
  induction infos generalizing state with
  | nil => exact ⟨[], List.Sublist.refl _, Extends.refl config cacheHeight state⟩
  | cons info infos ih =>
    obtain ⟨rest, sublist, extended⟩ := ih (applyOne config cacheHeight time source filter state info).1
    rcases applyOne_cases reversible cacheHeight time source filter state info with
      ⟨-, added⟩ | ⟨-, same, -⟩
    · exact ⟨info :: rest, sublist.cons_cons info, added.trans extended⟩
    · have continued : Extends config cacheHeight (applyOne config cacheHeight time source filter state info).1
          (apply config cacheHeight time source filter state (info :: infos)).1 rest := extended
      rw [same] at continued
      exact ⟨rest, sublist.cons info, continued⟩

theorem apply_append (config : UtConfiguration C N T) (cacheHeight : Height) (time : Timestamp) (source : TransactionSource)
    (filter : TransactionInfo T → Bool) (first second : List (TransactionInfo T)) (state : ApplyState C T) :
    (apply config cacheHeight time source filter state (first ++ second)).1 =
      (apply config cacheHeight time source filter (apply config cacheHeight time source filter state first).1 second).1 := by
  induction first generalizing state with
  | nil => rfl
  | cons info first ih => exact ih _

/-- A transaction is in the cache afterwards, or it was dropped in the state that the transactions before it led to. -/
theorem apply_keeps {config : UtConfiguration C N T}
    (reversible : ∀ observer ∈ config.observers, Reversible observer) (cacheHeight : Height) (time : Timestamp)
    (source : TransactionSource) (filter : TransactionInfo T → Bool) (preceding following : List (TransactionInfo T))
    (state : ApplyState C T) (info : TransactionInfo T) :
    let final := (apply config cacheHeight time source filter state (preceding ++ info :: following)).1
    info.entityHash ∈ final.modifier.hashes ∨ ∃ kept later earlier, kept.Sublist preceding ∧ later.Sublist following ∧
        Extends config cacheHeight state earlier kept ∧ Extends config cacheHeight earlier final later ∧
        Dropped config cacheHeight time source filter earlier info := by
  intro final
  let earlier := (apply config cacheHeight time source filter state preceding).1
  obtain ⟨kept, fromPreceding, reached⟩ : ∃ kept, kept.Sublist preceding ∧ Extends config cacheHeight state earlier kept :=
    apply_extends reversible cacheHeight time source filter preceding state
  obtain ⟨later, fromFollowing, continued⟩ := apply_extends reversible cacheHeight time source filter following
    (applyOne config cacheHeight time source filter earlier info).1
  have final_eq : final = (apply config cacheHeight time source filter
      (applyOne config cacheHeight time source filter earlier info).1 following).1 :=
    apply_append config cacheHeight time source filter preceding (info :: following) state
  rw [← final_eq] at continued
  rcases applyOne_cases reversible cacheHeight time source filter earlier info with
    ⟨-, added⟩ | ⟨-, same, dropped | member⟩
  · left
    apply continued.mem_hashes
    rw [MemoryUtCache.hashes, added.transactions, List.map_append]
    exact List.mem_append_right _ List.mem_cons_self
  · rw [same] at continued
    exact .inr ⟨kept, later, earlier, fromPreceding, fromFollowing, reached, continued, dropped⟩
  · left
    apply continued.mem_hashes
    rw [same]
    exact member

/-- The confirmed state with the given transactions applied in order. -/
def applyAll (config : UtConfiguration C N T) (confirmed : CatapultCache C) (infos : List (TransactionInfo T)) : C :=
  infos.foldl (execute config confirmed.height) confirmed.state

/-- No transaction is twice in the cache, and a delta that can be locked holds exactly the transactions. -/
structure Consistent (config : UtConfiguration C N T) (updater : UtUpdater C T) : Prop where
  nodup : updater.transactionsCache.hashes.Nodup
  current : updater.detachedCatapultCache.initialCommitCount ≤ updater.confirmedCatapultCache.commitCounter
  height : updater.canLock = true → updater.detachedCatapultCache.height = updater.confirmedCatapultCache.height
  delta : updater.canLock = true → updater.detachedCatapultCache.delta =
    applyAll config updater.confirmedCatapultCache updater.transactionsCache.transactions

theorem create_consistent (config : UtConfiguration C N T) (maxCacheSize : UInt64) (confirmed : CatapultCache C) :
    Consistent config (UtUpdater.create maxCacheSize confirmed) :=
  ⟨List.nodup_nil, Nat.le_refl _, fun _ => rfl, fun _ => rfl⟩

theorem addAll_nodup (infos : List (TransactionInfo T)) {cache : MemoryUtCache T}
    (distinct : cache.hashes.Nodup) : (UtUpdater.addAll cache infos).hashes.Nodup := by
  unfold UtUpdater.addAll
  induction infos generalizing cache with
  | nil => exact distinct
  | cons info infos ih =>
    rw [List.foldl_cons]
    cases adds : cache.add info with
    | none => exact ih distinct
    | some added => exact ih (add_nodup adds distinct)

theorem commit_consistent {config : UtConfiguration C N T} {updater : UtUpdater C T}
    (consistent : Consistent config updater) (state : C) (height : Height) : Consistent config (updater.commit state height) := by
  have stale : (updater.commit state height).canLock = false := by
    have current := consistent.current
    apply decide_eq_false
    dsimp only [UtUpdater.commit]
    omega
  refine ⟨consistent.nodup, Nat.le_succ_of_le consistent.current, ?_, ?_⟩
  · intro locks
    rw [stale] at locks
    cases locks
  · intro locks
    rw [stale] at locks
    cases locks

theorem updateNew_consistent {config : UtConfiguration C N T}
    (reversible : ∀ observer ∈ config.observers, Reversible observer) {updater : UtUpdater C T}
    (consistent : Consistent config updater) (time : Timestamp) (utInfos : List (TransactionInfo T)) :
    Consistent config (updater.updateNew config time utInfos).1 := by
  unfold UtUpdater.updateNew
  split
  · next locks =>
    obtain ⟨more, -, extended⟩ := apply_extends reversible updater.detachedCatapultCache.height time .new
      (fun _ => true) utInfos ⟨updater.transactionsCache, updater.detachedCatapultCache.delta⟩
    refine ⟨extended.nodup consistent.nodup, consistent.current, consistent.height, ?_⟩
    intro _
    refine extended.delta.trans ?_
    dsimp only
    rw [extended.transactions, consistent.delta locks, consistent.height locks]
    exact (List.foldl_append ..).symm
  · next stale =>
    exact ⟨addAll_nodup utInfos consistent.nodup, consistent.current, fun locks => absurd locks stale,
      fun locks => absurd locks stale⟩

/-- The state of the loops that rebuild the cache once they have added the given transactions. -/
def rebuiltState (config : UtConfiguration C N T) (before : UtUpdater C T) (infos : List (TransactionInfo T)) : ApplyState C T :=
  ⟨before.transactionsCache.removeAll.2.withMore infos, applyAll config before.confirmedCatapultCache infos⟩

/-- What is in the cache after it was rebuilt for a new block. A transaction is missing only if it was dropped in the state
that the transactions before it led to. -/
structure Rebuilt (config : UtConfiguration C N T) (time : Timestamp) (confirmedTransactionHashes : List Hash256)
    (utInfos : List (TransactionInfo T)) (before after : UtUpdater C T) : Prop where
  canLock : after.canLock = true
  contents : ∃ reverted existing, reverted.Sublist utInfos ∧ existing.Sublist before.transactionsCache.transactions ∧
    after.transactionsCache.transactions = reverted ++ existing ∧
    ∀ preceding info following, before.transactionsCache.transactions = preceding ++ info :: following →
      after.transactionsCache.hashes.count info.entityHash = 1 ∨
        ∃ kept later, existing = kept ++ later ∧ kept.Sublist preceding ∧ later.Sublist following ∧
          Dropped config before.confirmedCatapultCache.height time .existing
            (fun info => info.entityHash ∉ confirmedTransactionHashes) (rebuiltState config before (reverted ++ kept)) info

theorem updateConfirmed_rebuilt {config : UtConfiguration C N T}
    (reversible : ∀ observer ∈ config.observers, Reversible observer) (updater : UtUpdater C T)
    (times : Timestamp × Timestamp) (confirmedTransactionHashes : List Hash256) (utInfos : List (TransactionInfo T)) :
    let next := updater.updateConfirmed config times confirmedTransactionHashes utInfos
    Consistent config next ∧ Rebuilt config times.2 confirmedTransactionHashes utInfos updater next := by
  intro next
  let empty : ApplyState C T := ⟨updater.transactionsCache.removeAll.2, updater.confirmedCatapultCache.state⟩
  let filter := fun info : TransactionInfo T => decide (info.entityHash ∉ confirmedTransactionHashes)
  let reverted := (apply config updater.confirmedCatapultCache.height times.1 .reverted (fun _ => true)
    empty utInfos).1
  obtain ⟨first, fromReverted, extendedReverted⟩ : ∃ more, more.Sublist utInfos ∧
      Extends config updater.confirmedCatapultCache.height empty reverted more :=
    apply_extends reversible _ times.1 .reverted (fun _ => true) utInfos empty
  obtain ⟨second, fromExisting, extendedExisting⟩ := apply_extends reversible
    updater.confirmedCatapultCache.height times.2 .existing filter updater.transactionsCache.transactions reverted
  have extended := extendedReverted.trans extendedExisting
  have distinct : next.transactionsCache.hashes.Nodup := extended.nodup List.nodup_nil
  have contents : next.transactionsCache.transactions = first ++ second := extended.transactions
  have delta : next.detachedCatapultCache.delta =
      applyAll config updater.confirmedCatapultCache (first ++ second) := extended.delta
  refine ⟨⟨distinct, Nat.le_refl _, fun _ => rfl, ?_⟩,
    ⟨decide_eq_true rfl, first, second, fromReverted, fromExisting, contents, fun preceding info following split => ?_⟩⟩
  · intro _
    rw [contents]
    exact delta
  · have found := apply_keeps reversible updater.confirmedCatapultCache.height times.2 .existing filter preceding following
      reverted info
    rw [← split] at found
    rcases found with there | ⟨kept, later, earlier, fromPreceding, fromFollowing, reached, continued, dropped⟩
    · exact .inl (List.count_eq_one_of_mem distinct there)
    · have parts : second = kept ++ later :=
        List.append_cancel_left (extendedExisting.transactions.symm.trans (reached.trans continued).transactions)
      have whole := extendedReverted.trans reached
      have state : earlier = rebuiltState config updater (first ++ kept) := congrArg₂ ApplyState.mk whole.modifier whole.delta
      exact .inr ⟨kept, later, parts, fromPreceding, fromFollowing, state ▸ dropped⟩

theorem step_consistent {config : UtConfiguration C N T}
    (reversible : ∀ observer ∈ config.observers, Reversible observer) {updater : UtUpdater C T}
    (consistent : Consistent config updater) (action : UtAction C T) : Consistent config (step config updater action) := by
  cases action with
  | commit state height => exact commit_consistent consistent state height
  | updateNew time utInfos => exact updateNew_consistent reversible consistent time utInfos
  | updateConfirmed times hashes utInfos => exact (updateConfirmed_rebuilt reversible updater times hashes utInfos).1

theorem run_consistent {config : UtConfiguration C N T}
    (reversible : ∀ observer ∈ config.observers, Reversible observer) (actions : List (UtAction C T))
    {updater : UtUpdater C T} (consistent : Consistent config updater) : Consistent config (run config updater actions) := by
  unfold run
  induction actions generalizing updater with
  | nil => exact consistent
  | cons action actions ih => exact ih (step_consistent reversible consistent action)

/-- In every run the unconfirmed cache is the confirmed cache with the unconfirmed transactions applied. -/
theorem run_unconfirmed_state {config : UtConfiguration C N T}
    (reversible : ∀ observer ∈ config.observers, Reversible observer) (maxCacheSize : UInt64)
    (confirmed : CatapultCache C) (actions : List (UtAction C T)) :
    let updater := run config (UtUpdater.create maxCacheSize confirmed) actions
    (updater.canLock = true → updater.detachedCatapultCache.delta =
        applyAll config updater.confirmedCatapultCache updater.transactionsCache.transactions) ∧
      (∀ cacheHeight time source filter state info, (applyOne config cacheHeight time source filter state info).2 = .invalid →
          (applyOne config cacheHeight time source filter state info).1 = state) ∧
      (∀ times confirmedTransactionHashes utInfos, Rebuilt config times.2 confirmedTransactionHashes utInfos updater
          (updater.updateConfirmed config times confirmedTransactionHashes utInfos)) := by
  intro updater
  have consistent : Consistent config updater :=
    run_consistent reversible actions (create_consistent config maxCacheSize confirmed)
  refine ⟨consistent.delta, ?_, ?_⟩
  · intro cacheHeight time source filter state info invalid
    rcases applyOne_cases reversible cacheHeight time source filter state info with ⟨added, -⟩ | ⟨-, same, -⟩
    · rw [invalid] at added
      cases added
    · exact same
  · intro times hashes utInfos
    exact (updateConfirmed_rebuilt reversible updater times hashes utInfos).2

namespace Samples

/-- Amounts are added up to a limit, and the second notification of a transaction can fail. -/
def config : UtConfiguration Int Int Int where
  minFeeMultiplier := 0
  validator _ notification cache := if 10 < cache + notification.content then 0x80000001 else 0
  observers := [fun context notification cache =>
    match context.mode with
    | .commit => cache + notification.content
    | .rollback => cache - notification.content]
  publish info := [⟨1, false, true⟩, ⟨info.entity, true, true⟩]
  throttle _ _ := false

def info (amount : Int) (marker : UInt8) : TransactionInfo Int := ⟨amount, 100, 0, Vector.replicate 32 marker⟩

/-- A transaction is offered while the detached cache is stale, and one fails when the cache is rebuilt. -/
def actions : List (UtAction Int Int) :=
  [ .updateNew 0 [info 3 1, info 20 2, info 4 3], .commit 5 2, .updateNew 0 [info 1 4],
    .updateConfirmed (0, 0) [Vector.replicate 32 1] [info 1 5]]

theorem config_reversible : ∀ observer ∈ config.observers, Reversible observer := by
  intro observer member
  obtain rfl := List.mem_singleton.mp member
  intro height notification cache
  exact Int.add_sub_cancel cache notification.content

end Samples

/-- A rebuild keeps two transactions and the state that they lead to. -/
theorem run_unconfirmed_state_rebuild :
    (run Samples.config (UtUpdater.create 1000 ⟨0, 1, 0⟩) Samples.actions).transactionsCache.hashes =
        [Vector.replicate 32 5, Vector.replicate 32 4] ∧
      (run Samples.config (UtUpdater.create 1000 ⟨0, 1, 0⟩) Samples.actions).detachedCatapultCache.delta = 9 := by
  refine ⟨by decide +kernel, ?_⟩
  have locks : (run Samples.config (UtUpdater.create 1000 ⟨0, 1, 0⟩) Samples.actions).canLock = true := by
    decide +kernel
  rw [(run_unconfirmed_state Samples.config_reversible 1000 ⟨0, 1, 0⟩ Samples.actions).1 locks]
  decide +kernel

end Catapult.Unconfirmed
