import Catapult.Construction.Lock.SecretLock
import Catapult.Library.Runs

/-
This file says what each operation on locks does and when every lock that has yet to expire is indexed under its end height.
-/

namespace Catapult.Lock

open IsLockInfo

section Cache

variable {L : Type} [IsLockInfo L]

/-- An insertion extends the history of its identifier and the group of its end height. -/
theorem insert_ok {cache cache' : LockInfoCacheDelta L} {lock : L} (ran : cache.insert lock = .ok cache') :
    ∃ history, history = (cache.find (lockIdentifier lock)).getD ⟨lockIdentifier lock, []⟩ ∧ history.id = lockIdentifier lock ∧
      cache' = (LockInfoCacheDelta.mk (Function.update cache.histories (lockIdentifier lock)
          (some { history with lockInfos := history.lockInfos ++ [lock] }))
        cache.heightGrouping).addIdentifierWithGroup (lockInfo lock).endHeight (lockIdentifier lock) := by
  refine ⟨_, rfl, ?_⟩
  simp only [LockInfoCacheDelta.insert, LockInfoHistory.pushBack] at ran
  by_cases same : ((cache.find (lockIdentifier lock)).getD ⟨lockIdentifier lock, []⟩).id = lockIdentifier lock
  · rw [if_neg (fun different => different same)] at ran
    exact ⟨same, (Except.ok.inj ran).symm⟩
  · rw [if_pos same] at ran
    cases ran

/-- A removal pops the newest lock and removes its identifier from the group of its end height. -/
theorem remove_ok {cache cache' : LockInfoCacheDelta L} {id : Hash256} (ran : cache.remove id = .ok cache') :
    ∃ history newest, cache.find id = some history ∧ history.back = some newest ∧
      cache' = { cache.removeIdentifierWithGroup (lockInfo newest).endHeight id with
        histories := Function.update cache.histories id
          (if history.lockInfos.dropLast.isEmpty then none
            else some { history with lockInfos := history.lockInfos.dropLast }) } := by
  unfold LockInfoCacheDelta.remove LockInfoHistory.popBack at ran
  cases found : cache.find id with
  | none => rw [found] at ran; cases ran
  | some history =>
    cases newest : history.back with
    | none => simp only [found, newest] at ran; cases ran
    | some lock =>
      have nonempty : history.empty = false := by
        unfold LockInfoHistory.empty
        rw [List.isEmpty_eq_false_iff]
        rintro empty
        simp [LockInfoHistory.back, empty] at newest
      simp only [found, newest, nonempty] at ran
      exact ⟨history, lock, rfl, newest, (Except.ok.inj ran).symm⟩

/-- A change of status affects only the newest lock of one history. -/
theorem setStatus_ok {cache cache' : LockInfoCacheDelta L} {id : Hash256} {status : LockStatus}
    (ran : cache.setStatus id status = .ok cache') :
    ∃ history newest, cache.find id = some history ∧ history.back = some newest ∧ cache' = { cache with
        histories := Function.update cache.histories id (some { history with
          lockInfos := history.lockInfos.dropLast ++ [setStatus status newest] }) } := by
  unfold LockInfoCacheDelta.setStatus at ran
  cases found : cache.find id with
  | none => rw [found] at ran; cases ran
  | some history =>
    cases newest : history.back with
    | none => simp only [found, newest] at ran; cases ran
    | some lock =>
      simp only [found, newest] at ran
      refine ⟨history, lock, rfl, newest, (Except.ok.inj ran).symm.trans ?_⟩
      simp [LockInfoHistory.setBackStatus, newest]

/-- An insertion succeeds if the histories carry their own identifiers. -/
theorem insert_total {cache : LockInfoCacheDelta L} {lock : L}
    (identifiers : ∀ history, cache.find (lockIdentifier lock) = some history →
      history.id = lockIdentifier lock) : ∃ cache', cache.insert lock = .ok cache' := by
  have same : ((cache.find (lockIdentifier lock)).getD ⟨lockIdentifier lock, []⟩).id = lockIdentifier lock := by
    cases found : cache.find (lockIdentifier lock) with
    | none => rfl
    | some history => exact identifiers history found
  simp only [LockInfoCacheDelta.insert, LockInfoHistory.pushBack]
  rw [if_neg (fun different => different same)]
  exact ⟨_, rfl⟩

/-- The status of a newest lock can be changed. -/
theorem setStatus_total {cache : LockInfoCacheDelta L} {id : Hash256} {newest : L} {status : LockStatus}
    (back : (cache.find id).bind LockInfoHistory.back = some newest) : ∃ cache', cache.setStatus id status = .ok cache' := by
  obtain ⟨history, found, last⟩ := Option.bind_eq_some_iff.mp back
  simp only [LockInfoCacheDelta.setStatus, found, last]
  exact ⟨_, rfl⟩

end Cache

section Transactions

/-- The outcome of a cache operation is kept and only its error is wrapped. -/
theorem liftCache_ok {α : Type} {result : Except CacheError α} {value : α} :
    liftCache result = .ok value ↔ result = .ok value := by
  cases result <;> simp [liftCache, Except.mapError]

theorem liftValidation_ok {result : Except ValidationFailure Unit} {value : Unit} :
    liftValidation result = .ok value ↔ result = .ok () := by
  cases result <;> simp [liftValidation, Except.mapError]

theorem changeBalance_ok {state next : LockState} {change : BalanceChange} :
    changeBalance state change = .ok next ↔ change.account ∈ state.accounts ∧
      next = { state with balanceChanges := state.balanceChanges ++ [change] } := by
  unfold changeBalance
  by_cases known : change.account ∈ state.accounts
  · simp [known, eq_comm]
  · simp [known]

variable [Sha3] [LockHashers]

/-- An accepted lock transaction inserts its lock and makes both accounts known. -/
theorem executeTransaction_secretLock {config : SecretLockConfiguration} {height : Height}
    {state next : LockState} {transaction : SecretLockTransaction} {resolvers : ResolverContext} :
    executeTransaction config height state (.secretLock transaction, resolvers) = .ok next ↔
      validateDuration config transaction = .ok () ∧
      validateHashAlgorithm transaction.hashAlgorithm = .ok () ∧
      validateCacheUnique config height resolvers state transaction = .ok () ∧
      ∃ cache, state.secretLockInfos.insert
          (createLockInfo transaction ⟨.commit, height, resolvers⟩ state.created.length) = .ok cache ∧
        next = { state with
          secretLockInfos := cache
          accounts := resolvers.resolveAddress transaction.recipientAddress ::
            transaction.signerAddress :: state.accounts
          created := state.created ++ [createLockInfo transaction ⟨.commit, height, resolvers⟩ state.created.length] } := by
  simp only [executeTransaction, secretLockObserver, Runs.bind_eq_ok, liftValidation_ok, liftCache_ok,
    exists_const, pure, Except.pure, Except.ok.injEq]
  constructor
  · rintro ⟨duration, algorithm, unique, cache, inserted, same⟩
    exact ⟨duration, algorithm, unique, cache, inserted, same.symm⟩
  · rintro ⟨duration, algorithm, unique, cache, inserted, same⟩
    exact ⟨duration, algorithm, unique, cache, inserted, same.symm⟩

/-- An accepted proof marks the newest lock as used and credits its recipient. -/
theorem executeTransaction_secretProof {config : SecretLockConfiguration} {height : Height}
    {state next : LockState} {transaction : SecretProofTransaction} {resolvers : ResolverContext} :
    executeTransaction config height state (.secretProof transaction, resolvers) = .ok next ↔
      validateHashAlgorithm transaction.hashAlgorithm = .ok () ∧
      validateProofSecret config transaction = .ok () ∧
      validateProof height resolvers state transaction = .ok () ∧
      ∃ lock cache, (state.secretLockInfos.find (calculateSecretLockInfoHash transaction.secret
          (resolvers.resolveAddress transaction.recipientAddress))).bind LockInfoHistory.back = some lock ∧
        state.secretLockInfos.setStatus (calculateSecretLockInfoHash transaction.secret
          (resolvers.resolveAddress transaction.recipientAddress)) .used = .ok cache ∧
        lock.recipientAddress ∈ transaction.signerAddress :: state.accounts ∧
        next = { state with
          secretLockInfos := cache
          accounts := transaction.signerAddress :: state.accounts
          proofs := lock.serial :: state.proofs
          balanceChanges := state.balanceChanges ++ [⟨.commit, .completed, lock.recipientAddress,
            lock.mosaicId, lock.amount, height, lock.serial⟩] } := by
  simp only [executeTransaction, proofObserver, Runs.bind_eq_ok, liftValidation_ok, exists_const]
  cases back : (state.secretLockInfos.find (calculateSecretLockInfoHash transaction.secret
    (resolvers.resolveAddress transaction.recipientAddress))).bind LockInfoHistory.back with
  | none => simp
  | some lock => simp [Runs.bind_eq_ok, liftCache_ok, changeBalance_ok]

end Transactions

section Groups

variable {L : Type}

/-- A lock is indexed if its identifier is in the group of its end height. -/
def Grouped (cache : LockInfoCacheDelta L) (height : Height) (id : Hash256) : Prop :=
  ∃ identifiers, cache.heightGrouping height = some identifiers ∧ id ∈ identifiers

/-- An indexed history is visited at the end heights of its locks. -/
theorem mem_identifiersWithGroup {cache : LockInfoCacheDelta L} {height : Height} {id : Hash256}
    {history : LockInfoHistory L} (grouped : Grouped cache height id)
    (found : cache.find id = some history) : history ∈ cache.identifiersWithGroup height := by
  obtain ⟨identifiers, group, inside⟩ := grouped
  unfold LockInfoCacheDelta.identifiersWithGroup
  rw [group]
  exact List.mem_filterMap.mpr ⟨id, inside, found⟩

/-- Adding an identifier keeps all others. -/
theorem grouped_addIdentifier {cache : LockInfoCacheDelta L} {height other : Height} {id otherId : Hash256} :
    Grouped (cache.addIdentifierWithGroup height id) other otherId ↔
      Grouped cache other otherId ∨ other = height ∧ otherId = id := by
  unfold Grouped LockInfoCacheDelta.addIdentifierWithGroup
  by_cases same : other = height
  · subst same
    cases group : cache.heightGrouping other with
    | none => simp
    | some identifiers =>
      by_cases inside : id ∈ identifiers
      · simp only [Function.update_self, Option.getD_some, inside, if_true, Option.some.injEq, exists_eq_left', true_and]
        constructor
        · exact .inl
        · rintro (present | rfl)
          · exact present
          · exact inside
      · simp [inside, or_comm]
  · simp [same]

/-- Removing an identifier keeps all other identifiers and all other groups. -/
theorem grouped_removeIdentifier {cache : LockInfoCacheDelta L} {height other : Height}
    {id otherId : Hash256} (grouped : Grouped cache other otherId) (apart : other ≠ height ∨ otherId ≠ id) :
    Grouped (cache.removeIdentifierWithGroup height id) other otherId := by
  obtain ⟨identifiers, group, inside⟩ := grouped
  unfold LockInfoCacheDelta.removeIdentifierWithGroup
  by_cases same : other = height
  · subst same
    have different : otherId ≠ id := apart.resolve_left fun impossible => impossible rfl
    have kept : otherId ∈ identifiers.filter fun other => other ≠ id := by
      simp [inside, different]
    rw [group]
    refine ⟨_, ?_, kept⟩
    have nonempty : (identifiers.filter fun other => other ≠ id).isEmpty = false :=
      List.isEmpty_eq_false_iff.mpr (List.ne_nil_of_mem kept)
    simp only [Function.update_self, nonempty]
    rfl
  · cases cache.heightGrouping height with
    | none => exact ⟨identifiers, group, inside⟩
    | some _ => exact ⟨identifiers, by simpa [Function.update_of_ne same] using group, inside⟩

end Groups

section Runs

variable {L : Type} [IsLockInfo L]

/-- Every present lock that ends after the last pruned height is indexed and will be visited. -/
def Indexed (run : LockRun L) : Prop :=
  ∀ id history lock, run.cache.find id = some history → lock ∈ history.lockInfos → run.lastPruned < (lockInfo lock).endHeight →
    Grouped run.cache (lockInfo lock).endHeight id ∧ history ∈ run.cache.identifiersWithGroup (lockInfo lock).endHeight

/-- Only the index matters for the visits. -/
theorem indexed_of_grouped {run : LockRun L}
    (grouped : ∀ id history lock, run.cache.find id = some history → lock ∈ history.lockInfos →
      run.lastPruned < (lockInfo lock).endHeight → Grouped run.cache (lockInfo lock).endHeight id) :
    Indexed run := fun id history lock found inside later =>
  ⟨grouped id history lock found inside later, mem_identifiersWithGroup (grouped id history lock found inside later) found⟩

/-- The newest lock of a removal must not share its end height with an older lock of its history. -/
def RemovesUniqueEnd (cache : LockInfoCacheDelta L) : LockOperation L → Prop
  | .remove id => ∀ history newest, cache.find id = some history → history.back = some newest →
      ∀ lock ∈ history.lockInfos.dropLast, (lockInfo lock).endHeight ≠ (lockInfo newest).endHeight
  | _ => True

/-- Pruning proceeds to ascending heights. -/
def PrunesAscending (run : LockRun L) : LockOperation L → Prop
  | .prune height => run.lastPruned ≤ height
  | _ => True

theorem Indexed.grouped {run : LockRun L} (indexed : Indexed run) {id : Hash256}
    {history : LockInfoHistory L} (found : run.cache.find id = some history) {lock : L}
    (inside : lock ∈ history.lockInfos) (later : run.lastPruned < (lockInfo lock).endHeight) :
    Grouped run.cache (lockInfo lock).endHeight id :=
  (indexed id history lock found inside later).1

/-- An inserted lock is indexed at once. -/
theorem Indexed.insert {run : LockRun L} (indexed : Indexed run) {lock : L} {cache : LockInfoCacheDelta L}
    (ran : run.cache.insert lock = .ok cache) : Indexed { run with cache } := by
  obtain ⟨history, old, _, rfl⟩ := insert_ok ran
  apply indexed_of_grouped
  intro id found other present inside later
  rw [grouped_addIdentifier]
  simp only [LockInfoCacheDelta.addIdentifierWithGroup, LockInfoCacheDelta.find] at present
  by_cases same : id = lockIdentifier lock
  · rw [same, Function.update_self, Option.some.injEq] at present
    rw [← present, List.mem_append, List.mem_singleton] at inside
    rcases inside with before | rfl
    · cases oldFound : run.cache.find (lockIdentifier lock) with
      | none => simp [old, oldFound] at before
      | some oldHistory =>
        rw [old, oldFound] at before
        rw [same]
        exact .inl (indexed.grouped oldFound before later)
    · exact .inr ⟨rfl, same⟩
  · rw [Function.update_of_ne same] at present
    exact .inl (indexed.grouped present inside later)

/-- A removal keeps the other locks indexed if none of them shares the removed entry. -/
theorem Indexed.remove {run : LockRun L} (indexed : Indexed run) {id : Hash256}
    {cache : LockInfoCacheDelta L} (ran : run.cache.remove id = .ok cache)
    (unique : RemovesUniqueEnd run.cache (.remove id)) : Indexed { run with cache } := by
  obtain ⟨history, newest, found, back, rfl⟩ := remove_ok ran
  apply indexed_of_grouped
  intro otherId other lock present inside later
  simp only [LockInfoCacheDelta.find] at present
  by_cases same : otherId = id
  · subst same
    rw [Function.update_self] at present
    split at present
    · cases present
    · rw [Option.some.injEq] at present
      subst present
      have grouped := indexed.grouped found (List.dropLast_subset _ inside) later
      exact grouped_removeIdentifier grouped (.inl (unique history newest found back lock inside))
  · rw [Function.update_of_ne same] at present
    exact grouped_removeIdentifier (indexed.grouped present inside later) (.inr same)

/-- A change of status keeps the end heights. -/
theorem Indexed.setStatus {run : LockRun L} (indexed : Indexed run) {id : Hash256} {status : LockStatus}
    {cache : LockInfoCacheDelta L} (ran : run.cache.setStatus id status = .ok cache) : Indexed { run with cache } := by
  obtain ⟨history, newest, found, back, rfl⟩ := setStatus_ok ran
  apply indexed_of_grouped
  intro otherId other lock present inside later
  simp only [LockInfoCacheDelta.find] at present
  by_cases same : otherId = id
  · subst same
    rw [Function.update_self, Option.some.injEq] at present
    rw [← present, List.mem_append, List.mem_singleton] at inside
    rcases inside with before | rfl
    · exact indexed.grouped found (List.dropLast_subset _ before) later
    · rw [lockInfo_setStatus] at later ⊢
      exact indexed.grouped found (List.mem_of_getLast? back) later
  · rw [Function.update_of_ne same] at present
    exact indexed.grouped present inside later

/-- Pruning at an ascending height removes only the group of that height. -/
theorem Indexed.prune {run : LockRun L} (indexed : Indexed run) {height : Height}
    (ascending : run.lastPruned ≤ height) : Indexed ⟨run.cache.prune height, height⟩ := by
  apply indexed_of_grouped
  intro id history lock found inside later
  have before : run.lastPruned < (lockInfo lock).endHeight := UInt64.lt_of_le_of_lt ascending later
  have different : (lockInfo lock).endHeight ≠ height := (UInt64.ne_of_lt later).symm
  have kept : ∃ old, run.cache.find id = some old ∧ lock ∈ old.lockInfos := by
    simp only [LockInfoCacheDelta.prune, LockInfoCacheDelta.find] at found ⊢
    split at found
    · obtain ⟨old, present, pruned⟩ := Option.bind_eq_some_iff.mp found
      split at pruned
      · cases pruned
      · rw [← Option.some.inj pruned] at inside
        exact ⟨old, present, (List.dropWhile_sublist _).subset inside⟩
    · exact ⟨history, found, inside⟩
  obtain ⟨old, present, inOld⟩ := kept
  obtain ⟨identifiers, group, grouped⟩ := indexed.grouped present inOld before
  refine ⟨identifiers, ?_, grouped⟩
  simpa [LockInfoCacheDelta.prune, Function.update_of_ne different] using group

/-- One step keeps every later lock indexed. -/
theorem Indexed.apply {run next : LockRun L} (indexed : Indexed run) {operation : LockOperation L}
    (ascending : PrunesAscending run operation) (unique : RemovesUniqueEnd run.cache operation)
    (ran : run.apply operation = .ok next) : Indexed next := by
  cases operation with
  | insert lock =>
    obtain ⟨cache, inserted, same⟩ := Runs.bind_eq_ok.mp ran
    cases same
    exact indexed.insert inserted
  | remove id =>
    obtain ⟨cache, removed, same⟩ := Runs.bind_eq_ok.mp ran
    cases same
    exact indexed.remove removed unique
  | setStatus id status =>
    obtain ⟨cache, changed, same⟩ := Runs.bind_eq_ok.mp ran
    cases same
    exact indexed.setStatus changed
  | prune height =>
    cases ran
    exact indexed.prune ascending

/-- In every run whose removals pop locks with a unique end height every later lock is indexed. -/
theorem run_indexed (operations : List (LockOperation L)) (run : LockRun L) (steps : Runs.Meets LockRun.apply
      (fun run operation => PrunesAscending run operation ∧ RemovesUniqueEnd run.cache operation)
      ⟨LockInfoCacheDelta.create, 0⟩ operations)
    (ran : operations.foldlM LockRun.apply ⟨LockInfoCacheDelta.create, 0⟩ = .ok run) : Indexed run := by
  have initially : Indexed (⟨LockInfoCacheDelta.create, 0⟩ : LockRun L) :=
    fun _ _ _ found => by cases found
  exact Runs.invariant (fun _ _ _ indexed conditions stepped =>
    indexed.apply conditions.1 conditions.2 stepped) initially steps ran

end Runs

section Samples

variable [Sha3]

def sampleConfiguration : SecretLockConfiguration := ⟨100, 1, 100, [], [], []⟩

def plainResolvers : ResolverContext := ⟨id, id⟩

def sampleAddress (byte : UInt8) : Address := Vector.replicate 24 byte

/-- The first account locks an amount for the second account. -/
def sampleLock (duration : BlockDuration) : SecretLockTransaction :=
  ⟨sampleAddress 1, 7, 5, duration, 0, Sha3.sha3_256 [3], sampleAddress 2⟩

def sampleProof : SecretProofTransaction :=
  ⟨sampleAddress 2, 0, Sha3.sha3_256 [3], sampleAddress 2, [3]⟩

def sampleKey : Hash256 := calculateSecretLockInfoHash (Sha3.sha3_256 [3]) (sampleAddress 2)

/-- This lock is created from the sample transaction. -/
def sampleInfo (height : Height) (duration : BlockDuration) (serial : Nat) : SecretLockInfo :=
  createLockInfo (sampleLock duration) ⟨.commit, height, plainResolvers⟩ serial

/-- The digests of the proof and of the identifier. -/
abbrev lockDigest : Sha3 :=
  let secret := Keccak.ofNat 0xe3ed56bd086d8958483a12734fa0ae7f5c8bb160ef9092c67e82ed9b19e4c7b2
  ⟨Keccak.recorded [([3], secret),
    (secret.toList ++ (sampleAddress 2).toList, Keccak.ofNat 0x7df7c77a483b326da1c96f256edb223564a69e1f0b6c8e863ae6e19817dc3530)]⟩

omit [Sha3] in
theorem lockDigest_eq : lockDigest = sha3Digest := congrArg Sha3.mk (Keccak.recorded_eq (by decide +kernel))

/-- A lock ends at height 20, is used at height 12 and is created again with the same end. -/
def lockAndRollback [LockHashers] : Except ExecutionError LockState := do
  let locked ← executeTransaction sampleConfiguration 10 .create
    (.secretLock (sampleLock 10), plainResolvers)
  let proved ← executeTransaction sampleConfiguration 12 locked (.secretProof sampleProof, plainResolvers)
  let again ← executeTransaction sampleConfiguration 15 proved
    (.secretLock (sampleLock 5), plainResolvers)
  secretLockObserver (sampleLock 5) ⟨.rollback, 15, plainResolvers⟩ again

/-- The cache of this run is changed by these operations. -/
def lockAndRollbackOperations : List (LockOperation SecretLockInfo) :=
  [.insert (sampleInfo 10 10 0), .setStatus sampleKey .used, .insert (sampleInfo 15 5 1), .remove sampleKey]

theorem lockAndRollbackOperations_ok [LockHashers] {state : LockState} (ran : lockAndRollback = .ok state) :
    lockAndRollbackOperations.foldlM LockRun.apply ⟨LockInfoCacheDelta.create, 0⟩ = .ok ⟨state.secretLockInfos, 0⟩ := by
  obtain ⟨_, locks, ran⟩ := Runs.bind_eq_ok.mp ran
  obtain ⟨_, proves, ran⟩ := Runs.bind_eq_ok.mp ran
  obtain ⟨_, locksAgain, ran⟩ := Runs.bind_eq_ok.mp ran
  obtain ⟨_, removed, same⟩ := Runs.bind_eq_ok.mp ran
  obtain ⟨_, _, _, _, inserted, rfl⟩ := executeTransaction_secretLock.mp locks
  obtain ⟨_, _, _, _, _, _, used, _, rfl⟩ := executeTransaction_secretProof.mp proves
  obtain ⟨_, _, _, _, again, rfl⟩ := executeTransaction_secretLock.mp locksAgain
  cases same
  simp only [lockAndRollbackOperations, List.foldlM_cons, LockRun.apply, Runs.bind_eq_ok]
  exact ⟨_, ⟨_, inserted, rfl⟩, _, ⟨_, used, rfl⟩, _, ⟨_, again, rfl⟩, _, ⟨_, liftCache_ok.mp removed, rfl⟩, rfl⟩

/-- Here the second lock ends one block after the first. -/
def reopenedOperations : List (LockOperation SecretLockInfo) :=
  [.insert (sampleInfo 10 10 0), .setStatus sampleKey .used, .insert (sampleInfo 15 6 1), .remove sampleKey]

instance : (operation : LockOperation SecretLockInfo) → (run : LockRun SecretLockInfo) →
    Decidable (PrunesAscending run operation ∧ RemovesUniqueEnd run.cache operation)
  | .insert _, _ => inferInstanceAs (Decidable (True ∧ True))
  | .setStatus _ _, _ => inferInstanceAs (Decidable (True ∧ True))
  | .prune height, run => inferInstanceAs (Decidable (run.lastPruned ≤ height ∧ True))
  | .remove id, run =>
    decidable_of_iff (∀ history ∈ run.cache.find id, ∀ newest ∈ history.back,
      ∀ lock ∈ history.lockInfos.dropLast, (lockInfo lock).endHeight ≠ (lockInfo newest).endHeight)
      ⟨fun unique => ⟨trivial, fun history newest found back => unique history found newest back⟩,
        fun holds history found newest back => holds.2 history newest found back⟩

end Samples

/-- After a rollback a used lock that has yet to expire is no longer indexed. -/
theorem rollback_not_indexed : letI : Sha3 := sha3Digest
    letI : LockHashers := ⟨fun _ => Vector.replicate 20 0, fun _ => zeroHash⟩
    ∃ state, lockAndRollback = .ok state ∧
      lockAndRollbackOperations.foldlM LockRun.apply ⟨LockInfoCacheDelta.create, 0⟩ = .ok ⟨state.secretLockInfos, 0⟩ ∧
      ¬ Indexed ⟨state.secretLockInfos, 0⟩ := by
  have followed : ∀ [Sha3] [LockHashers], (lockAndRollback.toOption.any fun state =>
      (state.secretLockInfos.find sampleKey).any fun history => history.lockInfos.any fun lock =>
        0 < lock.endHeight && (state.secretLockInfos.heightGrouping lock.endHeight).isNone) = true →
      ∃ state, lockAndRollback = .ok state ∧
        lockAndRollbackOperations.foldlM LockRun.apply ⟨LockInfoCacheDelta.create, 0⟩ = .ok ⟨state.secretLockInfos, 0⟩ ∧
        ¬ Indexed ⟨state.secretLockInfos, 0⟩ := by
    intro _ _ checked
    obtain ⟨state, ran, kept⟩ := Runs.exists_ok checked
    obtain ⟨history, found, kept⟩ := (Option.any_eq_true _ _).mp kept
    obtain ⟨lock, inside, kept⟩ := List.any_eq_true.mp kept
    obtain ⟨later, missing⟩ := Bool.and_eq_true_iff.mp kept
    refine ⟨state, ran, lockAndRollbackOperations_ok ran, fun indexed => ?_⟩
    obtain ⟨_, group, _⟩ := indexed.grouped found inside (of_decide_eq_true later)
    cases (Option.isNone_iff_eq_none.mp missing).symm.trans group
  exact lockDigest_eq ▸ @followed lockDigest ⟨fun _ => Vector.replicate 20 0, fun _ => zeroHash⟩ (by decide +kernel)

/-- A later lock with another end is rolled back without harm. -/
theorem run_indexed_reopened : letI : Sha3 := sha3Digest
    ∃ run, reopenedOperations.foldlM LockRun.apply ⟨LockInfoCacheDelta.create, 0⟩ = .ok run ∧
      run.cache.contains sampleKey ∧ Indexed run := by
  have followed : ∀ [Sha3], Runs.Meets LockRun.apply (fun run operation => PrunesAscending run operation ∧ RemovesUniqueEnd run.cache operation)
        ⟨LockInfoCacheDelta.create, 0⟩ reopenedOperations ∧
      ((reopenedOperations.foldlM LockRun.apply ⟨LockInfoCacheDelta.create, 0⟩).toOption.any fun run => run.cache.contains sampleKey) = true →
      ∃ run, reopenedOperations.foldlM LockRun.apply ⟨LockInfoCacheDelta.create, 0⟩ = .ok run ∧
        run.cache.contains sampleKey ∧ Indexed run := by
    rintro _ ⟨meets, checked⟩
    obtain ⟨run, ran, present⟩ := Runs.exists_ok checked
    exact ⟨run, ran, present, run_indexed reopenedOperations run meets ran⟩
  exact lockDigest_eq ▸ @followed lockDigest (by decide +kernel)

end Catapult.Lock
