import Catapult.Library.SortedMap
import Catapult.Proof.Lock.HeightGrouping

/-
This file shows when the funds of every secret lock are paid out exactly once.
-/

namespace Catapult.Lock

open IsLockInfo

/-- The history of an identifier is empty if the cache has no entry for it. -/
def historyOf (state : LockState) (id : Hash256) : List SecretLockInfo :=
  ((state.secretLockInfos.find id).map LockInfoHistory.lockInfos).getD []

/-- These locks were created under an identifier. -/
def lockedUnder (state : LockState) (id : Hash256) : List SecretLockInfo :=
  state.created.filter fun lock => lock.compositeHash = id

/-- A lock is used as soon as a proof for it was accepted. -/
def marked (proofs : List Nat) (lock : SecretLockInfo) : SecretLockInfo :=
  if lock.serial ∈ proofs then setStatus .used lock else lock

/-- These balance changes were made on behalf of a lock. -/
def paymentsOf (state : LockState) (serial : Nat) : List BalanceChange :=
  state.balanceChanges.filter fun change => change.serial = serial

/-- A proof credits the recipient before the lock ends. -/
def completed (lock : SecretLockInfo) (height : Height) : BalanceChange :=
  ⟨.commit, .completed, lock.recipientAddress, lock.mosaicId, lock.amount, height, lock.serial⟩

/-- An expiry credits the owner. -/
def expired (lock : SecretLockInfo) (height : Height) : BalanceChange :=
  ⟨.commit, .expired, lock.ownerAddress, lock.mosaicId, lock.amount, height, lock.serial⟩

/-- A lock is paid out once, to the recipient if it was proved in time and else to the owner at its end. -/
def PaidOnce (state : LockState) (lock : SecretLockInfo) : Prop :=
  if lock.serial ∈ state.proofs then
    ∃ height, height < lock.endHeight ∧ paymentsOf state lock.serial = [completed lock height]
  else paymentsOf state lock.serial = [expired lock lock.endHeight]

/-- Every lock that ends before the next height is paid out once. -/
def PaidOut (next : Nat) (state : LockState) : Prop :=
  ∀ lock ∈ state.created, lock.endHeight.toNat < next → PaidOnce state lock

/-- The heights of a run of blocks ascend by one. -/
def Consecutive (next : Nat) : List LockBlock → Prop
  | [] => True
  | block :: blocks => block.height.toNat = next ∧ Consecutive (next + 1) blocks

/-- A lock with a known end is created only if the newest lock of its identifier does not wait for this block. -/
def RecreatesSettled [Sha3] (height : Height) (state : LockState) : LockTransaction × ResolverContext → Prop
  | (.secretLock transaction, resolvers) =>
    height.toNat + transaction.duration.toNat < 2 ^ 64 ∧
      ∀ newest, (historyOf state (calculateSecretLockInfoHash transaction.secret
          (resolvers.resolveAddress transaction.recipientAddress))).getLast? = some newest →
        ¬ (newest.status = .unused ∧ newest.endHeight = height)
  | (.secretProof _, _) => True

/-- No height is configured to skip or to force a rule. -/
structure NoForkHeights (config : SecretLockConfiguration) : Prop where
  uniqueness : config.skipUniquenessHeights = []
  skipExpiration : config.skipExpirationHeights = []
  forceExpiration : config.forceExpirationHeights = []

/-- The records of a state account for all locks when the blocks below the next height are executed. -/
structure Accounted (next : Nat) (state : LockState) : Prop where
  serials : ∀ (index : Nat) lock, state.created[index]? = some lock → lock.serial = index
  fresh : ∀ lock ∈ state.created, lock.status = .unused
  identifiers : ∀ id history, state.secretLockInfos.find id = some history → history.id = id
  histories : ∀ id, historyOf state id = (lockedUnder state id).map (marked state.proofs)
  known : ∀ lock ∈ state.created, lock.ownerAddress ∈ state.accounts ∧ lock.recipientAddress ∈ state.accounts
  groups : ∀ height identifiers, state.secretLockInfos.heightGrouping height = some identifiers → identifiers.Nodup
  proofsCreated : ∀ serial ∈ state.proofs, serial < state.created.length
  recorded : ∀ change ∈ state.balanceChanges, change.serial < state.created.length
  proved : ∀ lock ∈ state.created, lock.serial ∈ state.proofs →
    ∃ height, height < lock.endHeight ∧ paymentsOf state lock.serial = [completed lock height]
  refunded : ∀ lock ∈ state.created, lock.serial ∉ state.proofs → lock.endHeight.toNat < next →
    paymentsOf state lock.serial = [expired lock lock.endHeight]
  waiting : ∀ lock ∈ state.created, lock.serial ∉ state.proofs → next ≤ lock.endHeight.toNat →
    paymentsOf state lock.serial = [] ∧ (lockedUnder state lock.compositeHash).getLast? = some lock ∧
      Grouped state.secretLockInfos lock.endHeight lock.compositeHash

/-- In an accounted state every ended lock is paid out. -/
theorem Accounted.paidOut {next : Nat} {state : LockState} (accounted : Accounted next state) : PaidOut next state := by
  intro lock inside ended
  unfold PaidOnce
  split
  · next proved => exact accounted.proved lock inside proved
  · next unproved => exact accounted.refunded lock inside unproved ended

theorem accounted_create (next : Nat) : Accounted next LockState.create where
  serials _ _ found := by cases found
  fresh _ inside := by cases inside
  identifiers _ _ found := by cases found
  histories _ := rfl
  known _ inside := by cases inside
  groups _ _ found := by cases found
  proofsCreated _ inside := by cases inside
  recorded _ inside := by cases inside
  proved _ inside := by cases inside
  refunded _ inside := by cases inside
  waiting _ inside := by cases inside

section Records

variable {next : Nat} {state : LockState}

/-- Two created locks with the same serial number are equal. -/
theorem Accounted.eq_of_serial (accounted : Accounted next state) {lock other : SecretLockInfo}
    (inside : lock ∈ state.created) (otherInside : other ∈ state.created) (same : lock.serial = other.serial) : lock = other := by
  obtain ⟨index, found⟩ := List.mem_iff_getElem?.mp inside
  obtain ⟨otherIndex, otherFound⟩ := List.mem_iff_getElem?.mp otherInside
  have indices : index = otherIndex := by
    rw [← accounted.serials index lock found, ← accounted.serials otherIndex other otherFound, same]
  rw [indices, otherFound] at found
  exact (Option.some.inj found).symm

theorem Accounted.serial_lt (accounted : Accounted next state) {lock : SecretLockInfo}
    (inside : lock ∈ state.created) : lock.serial < state.created.length := by
  obtain ⟨index, found⟩ := List.mem_iff_getElem?.mp inside
  rw [accounted.serials index lock found]
  exact (List.getElem?_eq_some_iff.mp found).1

/-- The newest lock of a history is the last lock that was created under the identifier. -/
theorem Accounted.getLast?_historyOf (accounted : Accounted next state) (id : Hash256) :
    (historyOf state id).getLast? = (lockedUnder state id).getLast?.map (marked state.proofs) := by
  rw [accounted.histories id, List.getLast?_map]

theorem mem_lockedUnder {id : Hash256} {lock : SecretLockInfo} :
    lock ∈ lockedUnder state id ↔ lock ∈ state.created ∧ lock.compositeHash = id := by
  simp [lockedUnder]

@[simp]
theorem marked_of_notMem {proofs : List Nat} {lock : SecretLockInfo} (unproved : lock.serial ∉ proofs) :
    marked proofs lock = lock := by
  simp [marked, unproved]

/-- An unused newest lock is a created lock without an accepted proof. -/
theorem Accounted.newest_unused (accounted : Accounted next state) {id : Hash256} {lock : SecretLockInfo}
    (newest : (historyOf state id).getLast? = some lock) (unused : lock.status = .unused) :
    lock ∈ state.created ∧ lock.compositeHash = id ∧ lock.serial ∉ state.proofs ∧
      (lockedUnder state id).getLast? = some lock := by
  rw [accounted.getLast?_historyOf, Option.map_eq_some_iff] at newest
  obtain ⟨original, last, same⟩ := newest
  obtain ⟨inside, identifier⟩ := mem_lockedUnder.mp (List.mem_of_getLast? last)
  by_cases proved : original.serial ∈ state.proofs
  · rw [marked, if_pos proved] at same
    rw [← same] at unused
    cases unused
  · rw [marked_of_notMem proved] at same
    subst same
    exact ⟨inside, identifier, proved, last⟩

/-- The created locks differ in their serial numbers. -/
theorem Accounted.nodup (accounted : Accounted next state) : state.created.Nodup := by
  rw [List.nodup_iff_getElem?_ne_getElem?]
  intro first second less bound same
  have found : state.created[first]? = some state.created[first] := List.getElem?_eq_getElem (by omega)
  have firstSerial := accounted.serials first _ found
  have secondSerial := accounted.serials second _ (same ▸ found)
  omega

end Records

section Steps

variable {height : Height} {state : LockState}

/-- The new lock is appended to the history of its identifier. -/
theorem historyOf_insert {lock : SecretLockInfo} {cache : LockInfoCacheDelta SecretLockInfo}
    {accounts : List Address} {created : List SecretLockInfo}
    (inserted : state.secretLockInfos.insert lock = .ok cache) (id : Hash256) :
    historyOf { state with secretLockInfos := cache, accounts, created } id =
      historyOf state id ++ if lock.compositeHash = id then [lock] else [] := by
  obtain ⟨history, old, _, rfl⟩ := insert_ok inserted
  unfold historyOf LockInfoCacheDelta.find LockInfoCacheDelta.addIdentifierWithGroup
  have identifier : lockIdentifier lock = lock.compositeHash := rfl
  simp only [identifier, LockInfoCacheDelta.find] at old ⊢
  by_cases same : lock.compositeHash = id
  · subst same
    rw [Function.update_self, if_pos rfl, old]
    cases state.secretLockInfos.histories lock.compositeHash <;> rfl
  · rw [Function.update_of_ne (Ne.symm same), if_neg same, List.append_nil]

theorem lockedUnder_append {lock : SecretLockInfo} {cache : LockInfoCacheDelta SecretLockInfo}
    {accounts : List Address} (id : Hash256) :
    lockedUnder { state with secretLockInfos := cache, accounts, created := state.created ++ [lock] } id =
      lockedUnder state id ++ if lock.compositeHash = id then [lock] else [] := by
  by_cases same : lock.compositeHash = id <;> simp [lockedUnder, same]

/-- An insertion keeps the groups free of duplicates. -/
theorem groups_insert {lock : SecretLockInfo} {cache : LockInfoCacheDelta SecretLockInfo}
    (groups : ∀ height identifiers, state.secretLockInfos.heightGrouping height = some identifiers → identifiers.Nodup)
    (inserted : state.secretLockInfos.insert lock = .ok cache) (height : Height)
    (identifiers : List Hash256) (group : cache.heightGrouping height = some identifiers) : identifiers.Nodup := by
  obtain ⟨history, _, _, rfl⟩ := insert_ok inserted
  simp only [LockInfoCacheDelta.addIdentifierWithGroup] at group
  by_cases same : height = (lockInfo lock).endHeight
  · subst same
    rw [Function.update_self, Option.some.injEq] at group
    have nodup : ((state.secretLockInfos.heightGrouping (lockInfo lock).endHeight).getD []).Nodup := by
      cases old : state.secretLockInfos.heightGrouping (lockInfo lock).endHeight with
      | none => exact List.nodup_nil
      | some identifiers => exact groups _ _ old
    split at group
    · exact group ▸ nodup
    · next absent => exact group ▸ List.nodup_cons.mpr ⟨absent, nodup⟩
  · rw [Function.update_of_ne same] at group
    exact groups height identifiers group

/-- A lock may be created if all unproved locks of its identifier are refunded. -/
theorem Accounted.create (accounted : Accounted height.toNat state) {lock : SecretLockInfo}
    {cache : LockInfoCacheDelta SecretLockInfo} {accounts : List Address}
    (inserted : state.secretLockInfos.insert lock = .ok cache)
    (serial : lock.serial = state.created.length) (fresh : lock.status = .unused) (later : height.toNat < lock.endHeight.toNat)
    (settled : ∀ older ∈ lockedUnder state lock.compositeHash, older.serial ∉ state.proofs → older.endHeight.toNat < height.toNat)
    (owner : lock.ownerAddress ∈ accounts) (recipient : lock.recipientAddress ∈ accounts)
    (extended : state.accounts ⊆ accounts) :
    Accounted height.toNat
      { state with secretLockInfos := cache, accounts, created := state.created ++ [lock] } where
  serials index other found := by
    rw [List.getElem?_append] at found
    split at found
    · exact accounted.serials index other found
    · next beyond =>
      obtain ⟨zero, same⟩ := List.getElem?_eq_some_iff.mp found
      simp only [List.length_singleton] at zero
      have last : index = state.created.length := by omega
      subst last
      simp only [Nat.sub_self, List.getElem_cons_zero] at same
      rw [← same, serial]
  fresh other inside := by
    rcases List.mem_append.mp inside with before | new
    · exact accounted.fresh other before
    · rw [List.mem_singleton.mp new]
      exact fresh
  identifiers id history found := by
    obtain ⟨old, getD, identifier, rfl⟩ := insert_ok inserted
    simp only [LockInfoCacheDelta.find, LockInfoCacheDelta.addIdentifierWithGroup] at found
    by_cases same : id = lockIdentifier lock
    · rw [same, Function.update_self, Option.some.injEq] at found
      rw [← found, same]
      exact identifier
    · rw [Function.update_of_ne same] at found
      exact accounted.identifiers id history found
  histories id := by
    have unproved : lock.serial ∉ state.proofs := by
      intro proved
      have bound := accounted.proofsCreated lock.serial proved
      omega
    rw [historyOf_insert inserted, lockedUnder_append, List.map_append, accounted.histories id]
    by_cases same : lock.compositeHash = id <;> simp [same, unproved]
  known other inside := by
    rcases List.mem_append.mp inside with before | new
    · exact ⟨extended (accounted.known other before).1, extended (accounted.known other before).2⟩
    · rw [List.mem_singleton.mp new]
      exact ⟨owner, recipient⟩
  groups := groups_insert accounted.groups inserted
  proofsCreated other proved := by
    have bound := accounted.proofsCreated other proved
    simp only [List.length_append, List.length_singleton]
    omega
  recorded change inside := by
    have bound := accounted.recorded change inside
    simp only [List.length_append, List.length_singleton]
    omega
  proved other inside proved := by
    rcases List.mem_append.mp inside with before | new
    · exact accounted.proved other before proved
    · rw [List.mem_singleton.mp new, serial] at proved
      have bound := accounted.proofsCreated _ proved
      omega
  refunded other inside unproved ended := by
    rcases List.mem_append.mp inside with before | new
    · exact accounted.refunded other before unproved ended
    · rw [List.mem_singleton.mp new] at ended
      omega
  waiting other inside unproved open' := by
    have kept : ∀ id ending, Grouped state.secretLockInfos ending id ∨
        ending = lock.endHeight ∧ id = lock.compositeHash → Grouped cache ending id := by
      obtain ⟨old, _, _, rfl⟩ := insert_ok inserted
      exact fun id ending => grouped_addIdentifier.mpr
    rw [lockedUnder_append]
    rcases List.mem_append.mp inside with before | new
    · obtain ⟨unpaid, newest, grouped⟩ := accounted.waiting other before unproved open'
      have different : lock.compositeHash ≠ other.compositeHash := by
        intro same
        have ended := settled other (mem_lockedUnder.mpr ⟨before, same.symm⟩) unproved
        omega
      refine ⟨unpaid, ?_, kept _ _ (.inl grouped)⟩
      rw [if_neg different, List.append_nil]
      exact newest
    · rw [List.mem_singleton.mp new]
      refine ⟨?_, ?_, kept _ _ (.inr ⟨rfl, rfl⟩)⟩
      · refine List.filter_eq_nil_iff.mpr ?_
        intro change recorded
        have bound := accounted.recorded change recorded
        simp only [decide_eq_true_eq]
        omega
      · rw [if_pos rfl, List.getLast?_concat]

/-- A change of status is made to the newest lock of one history. -/
theorem historyOf_setStatus {id : Hash256} {status : LockStatus} {accounts : List Address}
    {changes : List BalanceChange} {proofs : List Nat} {newest : SecretLockInfo}
    {cache : LockInfoCacheDelta SecretLockInfo} (last : (historyOf state id).getLast? = some newest)
    (changed : state.secretLockInfos.setStatus id status = .ok cache) (other : Hash256) :
    historyOf ⟨cache, accounts, changes, state.created, proofs⟩ other =
      if other = id then (historyOf state id).dropLast ++ [setStatus status newest]
      else historyOf state other := by
  obtain ⟨history, lock, found, back, rfl⟩ := setStatus_ok changed
  have same : lock = newest := by
    rw [historyOf, found] at last
    exact Option.some.inj (back.symm.trans last)
  subst same
  unfold historyOf
  rw [found]
  simp only [LockInfoCacheDelta.find]
  split
  · next same =>
    subst same
    rw [Function.update_self]
    rfl
  · next different => rw [Function.update_of_ne different]

/-- A proof marks just the lock with its serial number. -/
theorem marked_cons {proofs : List Nat} {serial : Nat} {lock : SecretLockInfo}
    (different : lock.serial ≠ serial) : marked (serial :: proofs) lock = marked proofs lock := by
  simp [marked, different]

/-- A proof pays out the newest lock, which is not paid out yet. -/
theorem Accounted.prove (accounted : Accounted height.toNat state) {id : Hash256} {lock : SecretLockInfo}
    {cache : LockInfoCacheDelta SecretLockInfo} {accounts : List Address}
    (last : (historyOf state id).getLast? = some lock) (active : lock.isActive height = true)
    (changed : state.secretLockInfos.setStatus id .used = .ok cache) (extended : state.accounts ⊆ accounts) :
    Accounted height.toNat ⟨cache, accounts, state.balanceChanges ++ [completed lock height],
      state.created, lock.serial :: state.proofs⟩ := by
  simp only [LockInfo.isActive, Bool.and_eq_true, decide_eq_true_eq] at active
  obtain ⟨early, unused⟩ := active
  obtain ⟨inside, identifier, unproved, newest⟩ := accounted.newest_unused last unused
  have later : height.toNat < lock.endHeight.toNat := UInt64.lt_iff_toNat_lt.mp early
  have apart : ∀ other ∈ state.created, other.serial ≠ lock.serial →
      paymentsOf ⟨cache, accounts, state.balanceChanges ++ [completed lock height], state.created,
        lock.serial :: state.proofs⟩ other.serial = paymentsOf state other.serial := by
    intro other _ different
    simp [paymentsOf, completed, Ne.symm different]
  have sameGroups : cache.heightGrouping = state.secretLockInfos.heightGrouping := by
    obtain ⟨_, _, _, _, rfl⟩ := setStatus_ok changed
    rfl
  exact {
    serials := accounted.serials
    fresh := accounted.fresh
    identifiers := by
      intro otherId history found
      obtain ⟨old, newestOld, oldFound, _, rfl⟩ := setStatus_ok changed
      simp only [LockInfoCacheDelta.find] at found
      by_cases same : otherId = id
      · rw [same, Function.update_self, Option.some.injEq] at found
        rw [← found, same]
        exact accounted.identifiers id old oldFound
      · rw [Function.update_of_ne same] at found
        exact accounted.identifiers otherId history found
    histories := by
      intro otherId
      rw [historyOf_setStatus last changed]
      change _ = (lockedUnder state otherId).map _
      split
      · next same =>
        subst same
        obtain ⟨older, parts⟩ := List.getLast?_eq_some_iff.mp newest
        have nodup : (lockedUnder state otherId).Nodup := accounted.nodup.filter _
        rw [accounted.histories otherId, parts, List.map_append, List.map_append, List.map_singleton, List.dropLast_concat]
        have kept : ∀ other ∈ older, marked (lock.serial :: state.proofs) other = marked state.proofs other := by
          intro other otherInside
          apply marked_cons
          intro same
          have created : other ∈ state.created :=
            (mem_lockedUnder.mp (parts ▸ List.mem_append_left _ otherInside)).1
          rw [parts] at nodup
          exact (List.nodup_append.mp nodup).2.2 other otherInside lock (List.mem_singleton_self lock)
            (accounted.eq_of_serial created inside same)
        rw [List.map_congr_left kept]
        simp [marked]
      · next different =>
        rw [accounted.histories otherId]
        apply List.map_congr_left
        intro other otherInside
        obtain ⟨created, hash⟩ := mem_lockedUnder.mp otherInside
        refine (marked_cons ?_).symm
        intro same
        rw [accounted.eq_of_serial created inside same] at hash
        exact different (hash.symm.trans identifier)
    known := fun other created =>
      ⟨extended (accounted.known other created).1, extended (accounted.known other created).2⟩
    groups := by
      intro endHeight identifiers group
      exact accounted.groups endHeight identifiers (sameGroups ▸ group)
    proofsCreated := by
      intro serial proved
      rcases List.mem_cons.mp proved with rfl | before
      · exact accounted.serial_lt inside
      · exact accounted.proofsCreated serial before
    recorded := by
      intro change recorded
      rcases List.mem_append.mp recorded with before | new
      · exact accounted.recorded change before
      · rw [List.mem_singleton.mp new]
        exact accounted.serial_lt inside
    proved := by
      intro other created proved
      by_cases same : other.serial = lock.serial
      · cases accounted.eq_of_serial created inside same
        refine ⟨height, early, ?_⟩
        have unpaid := (accounted.waiting lock inside unproved (by omega)).1
        simp only [paymentsOf] at unpaid ⊢
        simp [List.filter_append, unpaid, completed]
      · rw [apart other created same]
        exact accounted.proved other created ((List.mem_cons.mp proved).resolve_left same)
    refunded := by
      intro other created stillUnproved ended
      rw [List.mem_cons, not_or] at stillUnproved
      rw [apart other created stillUnproved.1]
      exact accounted.refunded other created stillUnproved.2 ended
    waiting := by
      intro other created stillUnproved waits
      rw [List.mem_cons, not_or] at stillUnproved
      rw [apart other created stillUnproved.1]
      obtain ⟨unpaid, stillNewest, identifiers, group, grouped⟩ :=
        accounted.waiting other created stillUnproved.2 waits
      exact ⟨unpaid, stillNewest, identifiers, sameGroups ▸ group, grouped⟩ }

/-- These locks are refunded at a height. -/
def refundedAt (state : LockState) (height : Height) : List SecretLockInfo :=
  (state.secretLockInfos.processUnusedExpiredLocks height).filter fun lock => height = lock.endHeight

/-- The visited newest locks belong to the identifiers in the group. -/
theorem processUnused_eq : state.secretLockInfos.processUnusedExpiredLocks height =
    ((state.secretLockInfos.heightGrouping height).getD []).filterMap fun id =>
      (historyOf state id).getLast?.filter fun lock => lock.status = .unused := by
  unfold LockInfoCacheDelta.processUnusedExpiredLocks LockInfoCacheDelta.identifiersWithGroup
  rw [List.filterMap_filterMap]
  apply List.filterMap_congr
  intro id _
  unfold historyOf
  cases state.secretLockInfos.find id <;> rfl

theorem mem_processUnused {lock : SecretLockInfo} : lock ∈ state.secretLockInfos.processUnusedExpiredLocks height ↔
      ∃ id, Grouped state.secretLockInfos height id ∧ (historyOf state id).getLast? = some lock ∧ lock.status = .unused := by
  rw [processUnused_eq, List.mem_filterMap]
  cases group : state.secretLockInfos.heightGrouping height <;>
    simp [Grouped, group, Option.filter_eq_some_iff]

theorem Accounted.processUnused_nodup (accounted : Accounted height.toNat state) :
    (state.secretLockInfos.processUnusedExpiredLocks height).Nodup := by
  rw [processUnused_eq]
  apply List.Nodup.filterMap
  · intro id otherId lock inside otherInside
    obtain ⟨newest, unused⟩ := Option.filter_eq_some_iff.mp inside
    obtain ⟨otherNewest, _⟩ := Option.filter_eq_some_iff.mp otherInside
    have isUnused : lock.status = .unused := by simpa using unused
    exact (accounted.newest_unused newest isUnused).2.1.symm.trans
      (accounted.newest_unused otherNewest isUnused).2.1
  · cases group : state.secretLockInfos.heightGrouping height with
    | none => exact List.nodup_nil
    | some identifiers => exact accounted.groups height identifiers group

/-- At its end a lock is refunded if it has no accepted proof. -/
theorem Accounted.mem_refundedAt (accounted : Accounted height.toNat state) {lock : SecretLockInfo} :
    lock ∈ refundedAt state height ↔ lock ∈ state.created ∧ lock.serial ∉ state.proofs ∧ lock.endHeight = height := by
  rw [refundedAt, List.mem_filter, mem_processUnused, decide_eq_true_eq]
  constructor
  · rintro ⟨⟨id, _, newest, unused⟩, ends⟩
    obtain ⟨inside, _, unproved, _⟩ := accounted.newest_unused newest unused
    exact ⟨inside, unproved, ends.symm⟩
  · rintro ⟨inside, unproved, rfl⟩
    obtain ⟨_, newest, grouped⟩ := accounted.waiting lock inside unproved (Nat.le_refl _)
    refine ⟨⟨lock.compositeHash, grouped, ?_, accounted.fresh lock inside⟩, rfl⟩
    rw [accounted.getLast?_historyOf, newest, Option.map_some, marked_of_notMem unproved]

/-- A refund needs the account of the owner. -/
theorem refund_foldlM {config : SecretLockConfiguration} (forks : NoForkHeights config)
    (locks : List SecretLockInfo) (state : LockState) (known : ∀ lock ∈ locks, lock.ownerAddress ∈ state.accounts) :
    locks.foldlM (fun state lock =>
        if height = lock.endHeight ∨ height ∈ config.forceExpirationHeights then
          changeBalance state (expired lock height)
        else .ok state) state =
      .ok { state with
        balanceChanges := state.balanceChanges ++
          (locks.filter fun lock => height = lock.endHeight).map fun lock => expired lock height } := by
  induction locks generalizing state with
  | nil => simp [pure, Except.pure]
  | cons lock locks ih =>
    have rest : ∀ other ∈ locks, other.ownerAddress ∈ state.accounts := fun other inside =>
      known other (List.mem_cons_of_mem _ inside)
    rw [List.foldlM_cons]
    by_cases ends : height = lock.endHeight
    · have changed : changeBalance state (expired lock height) = .ok _ :=
        changeBalance_ok.mpr ⟨known lock List.mem_cons_self, rfl⟩
      rw [if_pos (.inl ends)]
      have refunded := ih { state with balanceChanges := state.balanceChanges ++ [expired lock height] } rest
      refine Runs.bind_eq_ok.mpr ⟨_, changed, refunded.trans ?_⟩
      simp [ends]
    · have skipped : ¬ (height = lock.endHeight ∨ height ∈ config.forceExpirationHeights) := by
        simp [ends, forks.forceExpiration]
      rw [if_neg skipped]
      refine Runs.bind_eq_ok.mpr ⟨state, rfl, (ih state rest).trans ?_⟩
      simp [ends]

/-- The refunds of a height are recorded one after the other. -/
theorem refund_ok {config : SecretLockConfiguration} (forks : NoForkHeights config) (accounted : Accounted height.toNat state) :
    expiredSecretLockInfoObserver config ⟨.commit, height, ⟨id, id⟩⟩ state = .ok { state with
        balanceChanges := state.balanceChanges ++ (refundedAt state height).map fun lock => expired lock height } := by
  unfold expiredSecretLockInfoObserver
  rw [forks.skipExpiration, if_neg List.not_mem_nil]
  apply refund_foldlM forks
  intro lock visited
  obtain ⟨id, _, newest, unused⟩ := mem_processUnused.mp visited
  exact (accounted.known lock (accounted.newest_unused newest unused).1).1

/-- The payments of a lock grow just by its refund. -/
theorem Accounted.paymentsOf_refund (accounted : Accounted height.toNat state) {lock : SecretLockInfo}
    (inside : lock ∈ state.created) : paymentsOf { state with
        balanceChanges := state.balanceChanges ++ (refundedAt state height).map fun lock => expired lock height } lock.serial =
      paymentsOf state lock.serial ++
        if lock.serial ∉ state.proofs ∧ lock.endHeight = height then [expired lock height] else [] := by
  have refunds : (refundedAt state height).filter (fun other => other.serial = lock.serial) =
      if lock.serial ∉ state.proofs ∧ lock.endHeight = height then [lock] else [] := by
    split
    · next due =>
      apply List.perm_singleton.mp
      apply (List.perm_ext_iff_of_nodup ((accounted.processUnused_nodup.filter _).filter _)
        (List.nodup_singleton lock)).mpr
      intro other
      rw [List.mem_singleton]
      constructor
      · intro present
        obtain ⟨refunded, same⟩ := List.mem_filter.mp present
        have created := (accounted.mem_refundedAt.mp refunded).1
        exact accounted.eq_of_serial created inside (of_decide_eq_true same)
      · rintro rfl
        exact List.mem_filter.mpr ⟨accounted.mem_refundedAt.mpr ⟨inside, due⟩, decide_eq_true rfl⟩
    · next notDue =>
      apply List.filter_eq_nil_iff.mpr
      intro other refunded same
      obtain ⟨created, unproved, ends⟩ := accounted.mem_refundedAt.mp refunded
      cases accounted.eq_of_serial created inside (of_decide_eq_true same)
      exact notDue ⟨unproved, ends⟩
  have filtered : ((refundedAt state height).map fun lock => expired lock height).filter
      (fun change => change.serial = lock.serial) = ((refundedAt state height).filter fun other => other.serial = lock.serial).map
          fun lock => expired lock height := by
    rw [List.filter_map]
    rfl
  unfold paymentsOf
  rw [List.filter_append, filtered, refunds]
  split <;> rfl

/-- A block is completed by the refunds of its height. -/
theorem Accounted.expire (accounted : Accounted height.toNat state) : Accounted (height.toNat + 1) { state with
      balanceChanges := state.balanceChanges ++ (refundedAt state height).map fun lock => expired lock height } where
  serials := accounted.serials
  fresh := accounted.fresh
  identifiers := accounted.identifiers
  histories := accounted.histories
  known := accounted.known
  groups := accounted.groups
  proofsCreated := accounted.proofsCreated
  recorded change recorded := by
    rcases List.mem_append.mp recorded with before | new
    · exact accounted.recorded change before
    · obtain ⟨lock, refunded, rfl⟩ := List.mem_map.mp new
      exact accounted.serial_lt (accounted.mem_refundedAt.mp refunded).1
  proved lock inside proved := by
    rw [accounted.paymentsOf_refund inside, if_neg (fun due => due.1 proved), List.append_nil]
    exact accounted.proved lock inside proved
  refunded lock inside unproved ended := by
    rw [accounted.paymentsOf_refund inside]
    by_cases now : lock.endHeight = height
    · subst now
      rw [if_pos ⟨unproved, rfl⟩, (accounted.waiting lock inside unproved (Nat.le_refl _)).1, List.nil_append]
    · have before : lock.endHeight.toNat ≠ height.toNat := fun same => now (UInt64.toNat_inj.mp same)
      rw [if_neg (fun due => now due.2), List.append_nil]
      exact accounted.refunded lock inside unproved (by omega)
  waiting lock inside unproved waits := by
    have later : lock.endHeight ≠ height := by
      intro same
      rw [same] at waits
      omega
    rw [accounted.paymentsOf_refund inside, if_neg (fun due => later due.2), List.append_nil]
    exact accounted.waiting lock inside unproved (by omega)

end Steps

section Runs

/-- A run may be stopped only by a validator. -/
def IsValidation : ExecutionError → Prop
  | .validation _ => True
  | _ => False

theorem yields_liftValidation (result : Except ValidationFailure Unit) :
    Runs.Yields (fun _ => result = .ok ()) IsValidation (liftValidation result) := by
  cases result with
  | error failure => exact trivial
  | ok value => rfl

/-- The newest lock of an identifier determines whether the identifier is active. -/
theorem isActive_eq (state : LockState) (id : Hash256) (height : Height) : state.secretLockInfos.isActive id height =
      (historyOf state id).getLast?.any fun lock => lock.isActive height := by
  unfold LockInfoCacheDelta.isActive historyOf LockInfoHistory.isActive LockInfoHistory.back
  cases state.secretLockInfos.find id with
  | none => rfl
  | some history => cases last : history.lockInfos.getLast? <;> simp [last, lockInfo]

theorem find_back (state : LockState) (id : Hash256) :
    (state.secretLockInfos.find id).bind LockInfoHistory.back = (historyOf state id).getLast? := by
  unfold historyOf
  cases state.secretLockInfos.find id <;> rfl

variable [Sha3] {config : SecretLockConfiguration} {height : Height} {state : LockState}

/-- If a lock may be created, then all unproved locks of its identifier are refunded. -/
theorem Accounted.settled (forks : NoForkHeights config) (accounted : Accounted height.toNat state)
    {transaction : SecretLockTransaction} {resolvers : ResolverContext}
    (unique : validateCacheUnique config height resolvers state transaction = .ok ())
    (condition : RecreatesSettled height state (.secretLock transaction, resolvers)) :
    ∀ older ∈ lockedUnder state (calculateSecretLockInfoHash transaction.secret
        (resolvers.resolveAddress transaction.recipientAddress)),
      older.serial ∉ state.proofs → older.endHeight.toNat < height.toNat := by
  intro older inside unproved
  by_contra notEnded
  have open' := Nat.not_lt.mp notEnded
  obtain ⟨created, identifier⟩ := mem_lockedUnder.mp inside
  obtain ⟨_, last, _⟩ := accounted.waiting older created unproved open'
  have newest : (historyOf state older.compositeHash).getLast? = some older := by
    rw [accounted.getLast?_historyOf, last, Option.map_some, marked_of_notMem unproved]
  have fresh := accounted.fresh older created
  have inactive : older.isActive height = false := by
    simp only [validateCacheUnique, forks.uniqueness, List.not_mem_nil, if_false, ← identifier,
      isActive_eq, newest, Option.any_some] at unique
    by_contra active
    simp [active] at unique
  have reached : ¬ height < older.endHeight := by
    intro early
    simp [LockInfo.isActive, early, fresh] at inactive
  have ends : older.endHeight = height := by
    apply UInt64.toNat_inj.mp
    rw [UInt64.lt_iff_toNat_lt] at reached
    omega
  exact condition.2 older (identifier ▸ newest) ⟨fresh, ends⟩

/-- An accepted duration is positive, so the lock ends after the block that creates it. -/
theorem endHeight_later {transaction : SecretLockTransaction} {resolvers : ResolverContext} {serial : Nat}
    (valid : validateDuration config transaction = .ok ())
    (bound : height.toNat + transaction.duration.toNat < 2 ^ 64) : height.toNat <
      (createLockInfo transaction ⟨.commit, height, resolvers⟩ serial).endHeight.toNat := by
  have positive : 0 ≠ transaction.duration.toNat := by
    intro zero
    have none : 0 = transaction.duration := UInt64.toNat_inj.mp zero
    simp [validateDuration, ← none] at valid
  change height.toNat < (height + transaction.duration).toNat
  rw [UInt64.toNat_add, Nat.mod_eq_of_lt bound]
  omega

/-- An accepted proof refers to a newest lock that is active. -/
theorem validateProof_ok {resolvers : ResolverContext} {transaction : SecretProofTransaction}
    (valid : validateProof height resolvers state transaction = .ok ()) :
    ∃ lock, (historyOf state (calculateSecretLockInfoHash transaction.secret
        (resolvers.resolveAddress transaction.recipientAddress))).getLast? = some lock ∧
      lock.isActive height = true := by
  simp only [validateProof, isActive_eq] at valid
  split at valid
  · cases valid
  · split at valid
    · cases valid
    · next inactive =>
      simp only [Bool.not_eq_true', Bool.not_eq_false] at inactive
      exact (Option.any_eq_true _ _).mp inactive

variable [LockHashers]

/-- An accepted transaction keeps the accounts of all locks. -/
theorem Accounted.transaction (forks : NoForkHeights config)
    (accounted : Accounted height.toNat state) {transaction : LockTransaction × ResolverContext}
    (condition : RecreatesSettled height state transaction) : Runs.Yields (Accounted height.toNat) IsValidation
      (executeTransaction config height state transaction) := by
  obtain ⟨transaction, resolvers⟩ := transaction
  cases transaction with
  | secretLock transaction =>
    apply (yields_liftValidation _).bind
    intro _ _ validDuration
    apply (yields_liftValidation _).bind
    intro _ _ _
    apply (yields_liftValidation _).bind
    intro _ _ unique
    let lock := createLockInfo transaction ⟨.commit, height, resolvers⟩ state.created.length
    obtain ⟨cache, inserted⟩ := insert_total (accounted.identifiers (lockIdentifier lock))
    have observed : secretLockObserver transaction ⟨.commit, height, resolvers⟩ { state with
        accounts := resolvers.resolveAddress transaction.recipientAddress ::
          transaction.signerAddress :: state.accounts } = .ok _ :=
      Runs.bind_eq_ok.mpr ⟨cache, liftCache_ok.mpr inserted, rfl⟩
    rw [observed]
    have later : height.toNat < lock.endHeight.toNat :=
      endHeight_later validDuration condition.1
    exact accounted.create inserted rfl rfl later (accounted.settled forks unique condition)
      (by simp [createLockInfo]) (by simp [createLockInfo])
      (List.subset_cons_of_subset _ (List.subset_cons_self _ _))
  | secretProof transaction =>
    apply (yields_liftValidation _).bind
    intro _ _ _
    apply (yields_liftValidation _).bind
    intro _ _ _
    apply (yields_liftValidation _).bind
    intro _ _ valid
    obtain ⟨lock, newest, active⟩ := validateProof_ok valid
    have back := (find_back state _).trans newest
    obtain ⟨cache, changed⟩ := setStatus_total back
    have isUnused : lock.status = .unused := by
      simp only [LockInfo.isActive, Bool.and_eq_true, decide_eq_true_eq] at active
      exact active.2
    have recipient := (accounted.known lock (accounted.newest_unused newest isUnused).1).2
    have observed : proofObserver transaction ⟨.commit, height, resolvers⟩
        { state with accounts := transaction.signerAddress :: state.accounts } =
          .ok ⟨cache, transaction.signerAddress :: state.accounts, state.balanceChanges ++ [completed lock height], state.created,
            lock.serial :: state.proofs⟩ := by
      unfold proofObserver
      simp only [back]
      exact Runs.bind_eq_ok.mpr ⟨cache, liftCache_ok.mpr changed, changeBalance_ok.mpr ⟨List.mem_cons_of_mem _ recipient, rfl⟩⟩
    rw [observed]
    exact accounted.prove newest active changed (List.subset_cons_self _ _)

/-- A block pays out the locks that end at its height. -/
theorem Accounted.block (forks : NoForkHeights config) {block : LockBlock} (accounted : Accounted block.height.toNat state)
    (condition : Runs.Meets (executeTransaction config block.height) (RecreatesSettled block.height)
      state block.transactions) :
    Runs.Yields (Accounted (block.height.toNat + 1)) IsValidation (executeBlock config state block) := by
  have executed := Runs.Yields.foldlM
    (fun _ _ held settles => Accounted.transaction forks held settles) accounted condition
  apply executed.bind
  intro final _ accountedFinal
  rw [refund_ok forks accountedFinal]
  exact accountedFinal.expire

/-- The re-creation of locks is settled along a whole run. -/
def RunRecreatesSettled (config : SecretLockConfiguration) : LockState → List LockBlock → Prop :=
  Runs.Meets (executeBlock config) fun state block =>
    Runs.Meets (executeTransaction config block.height) (RecreatesSettled block.height) state
      block.transactions

/-- The heights ascend, so the next height is carried along with the state. -/
theorem Accounted.run (forks : NoForkHeights config) {first : Nat} {blocks : List LockBlock}
    (accounted : Accounted first state) (consecutive : Consecutive first blocks)
    (steps : RunRecreatesSettled config state blocks) : Runs.Yields (Accounted (first + blocks.length)) IsValidation
      (blocks.foldlM (executeBlock config) state) := by
  induction blocks generalizing first state with
  | nil => exact accounted
  | cons block blocks ih =>
    obtain ⟨rfl, ascending⟩ := consecutive
    rw [List.foldlM_cons]
    apply (accounted.block forks steps.1).bind
    intro next executed accountedNext
    have rest := ih accountedNext ascending (steps.2 next executed)
    rwa [List.length_cons, Nat.add_comm blocks.length, ← Nat.add_assoc]

/-- In every run of blocks that re-creates only settled locks every ended lock is paid out once. -/
theorem run_paidOut (forks : NoForkHeights config) (first : Nat) (blocks : List LockBlock)
    (consecutive : Consecutive first blocks) (steps : RunRecreatesSettled config LockState.create blocks) :
    Runs.Yields (PaidOut (first + blocks.length)) IsValidation
      (blocks.foldlM (executeBlock config) LockState.create) :=
  ((accounted_create first).run forks consecutive steps).mono fun _ => Accounted.paidOut

end Runs

section Samples

theorem sampleConfiguration_noForkHeights : NoForkHeights sampleConfiguration := ⟨rfl, rfl, rfl⟩

variable [Sha3] [LockHashers]

/-- A lock that ends at height 2 is created again in the block at that height. -/
def recreatedBlocks : List LockBlock :=
  [⟨1, [(.secretLock (sampleLock 1), plainResolvers)]⟩, ⟨2, [(.secretLock (sampleLock 3), plainResolvers)]⟩]

omit [LockHashers] in
/-- The newest lock decides whether a lock may be created. -/
instance settledDecidable (height : Height) (state : LockState) : (action : LockTransaction × ResolverContext) →
    Decidable (RecreatesSettled height state action)
  | (.secretLock transaction, resolvers) =>
    decidable_of_iff (height.toNat + transaction.duration.toNat < 2 ^ 64 ∧
      ∀ newest ∈ (historyOf state (calculateSecretLockInfoHash transaction.secret
        (resolvers.resolveAddress transaction.recipientAddress))).getLast?, ¬ (newest.status = .unused ∧ newest.endHeight = height)) Iff.rfl
  | (.secretProof _, _) => inferInstanceAs (Decidable True)

instance runSettledDecidable (config : SecretLockConfiguration) (state : LockState) (blocks : List LockBlock) :
    Decidable (RunRecreatesSettled config state blocks) := Runs.Meets.decidable state blocks

/-- A lock is refunded at its end, created again and proved. -/
def provedBlocks : List LockBlock :=
  [⟨1, [(.secretLock (sampleLock 1), plainResolvers)]⟩, ⟨2, []⟩, ⟨3, [(.secretLock (sampleLock 2), plainResolvers)]⟩,
    ⟨4, [(.secretProof sampleProof, plainResolvers)]⟩, ⟨5, []⟩]

def payments : List BalanceChange := [expired (sampleInfo 1 1 0) 2, completed (sampleInfo 3 2 1) 4]

end Samples

/-- The owner of a lock that is created again at its end is never refunded. -/
theorem recreated_not_paidOut : letI : Sha3 := sha3Digest
    letI : LockHashers := ⟨fun _ => Vector.replicate 20 0, fun _ => zeroHash⟩
    NoForkHeights sampleConfiguration ∧ Consecutive 1 recreatedBlocks ∧
      ∃ state, recreatedBlocks.foldlM (executeBlock sampleConfiguration) LockState.create = .ok state ∧
        ¬ PaidOut (1 + recreatedBlocks.length) state := by
  have followed : ∀ [Sha3] [LockHashers], ((recreatedBlocks.foldlM (executeBlock sampleConfiguration) LockState.create).toOption.any
      fun state => state.created.any fun lock => lock.endHeight.toNat < 3 ∧ lock.serial ∉ state.proofs ∧ paymentsOf state lock.serial = []) = true →
      NoForkHeights sampleConfiguration ∧ Consecutive 1 recreatedBlocks ∧
        ∃ state, recreatedBlocks.foldlM (executeBlock sampleConfiguration) LockState.create = .ok state ∧
          ¬ PaidOut (1 + recreatedBlocks.length) state := by
    intro _ _ checked
    obtain ⟨state, ran, unpaid⟩ := Runs.exists_ok checked
    obtain ⟨lock, inside, unpaid⟩ := List.any_eq_true.mp unpaid
    obtain ⟨ended, unproved, unpaid⟩ := of_decide_eq_true unpaid
    refine ⟨sampleConfiguration_noForkHeights, ⟨rfl, rfl, trivial⟩, state, ran, fun paidOut => ?_⟩
    have paid := paidOut lock inside ended
    simp [PaidOnce, unproved, unpaid] at paid
  exact lockDigest_eq ▸ @followed lockDigest ⟨fun _ => Vector.replicate 20 0, fun _ => zeroHash⟩ (by decide +kernel)

/-- The owner is refunded once, and the recipient is paid once for the lock that was created again. -/
theorem run_paidOut_proved : letI : Sha3 := sha3Digest
    letI : LockHashers := ⟨fun _ => Vector.replicate 20 0, fun _ => zeroHash⟩
    ∃ state, provedBlocks.foldlM (executeBlock sampleConfiguration) LockState.create = .ok state ∧
      state.balanceChanges = payments ∧ PaidOut (1 + provedBlocks.length) state := by
  have followed : ∀ [Sha3] [LockHashers], RunRecreatesSettled sampleConfiguration LockState.create provedBlocks ∧
      ((provedBlocks.foldlM (executeBlock sampleConfiguration) LockState.create).toOption.any fun state => state.balanceChanges = payments) = true →
      ∃ state, provedBlocks.foldlM (executeBlock sampleConfiguration) LockState.create = .ok state ∧
        state.balanceChanges = payments ∧ PaidOut (1 + provedBlocks.length) state := by
    rintro _ _ ⟨settled, checked⟩
    obtain ⟨state, ran, paid⟩ := Runs.exists_ok checked
    have yields := run_paidOut sampleConfiguration_noForkHeights 1 provedBlocks ⟨rfl, rfl, rfl, rfl, rfl, trivial⟩ settled
    rw [ran] at yields
    exact ⟨state, ran, of_decide_eq_true paid, yields⟩
  exact lockDigest_eq ▸ @followed lockDigest ⟨fun _ => Vector.replicate 20 0, fun _ => zeroHash⟩ (by decide +kernel)

end Catapult.Lock
