import Catapult.Construction.Partial.MemoryPtCache
import Catapult.Library.Runs

/-
This file shows that the cache of partial transactions keeps its accounts and determines when it keeps its limit.
-/

namespace Catapult.Partial

open Unconfirmed (Timestamp)

section Entries

variable {cache : MemoryPtCache} {data : PtData} {cosignature : Cosignature}

/-- The signers ascend, so no signer occurs twice. -/
def Sorted (cosignatures : List Cosignature) : Prop :=
  cosignatures.Pairwise fun lhs rhs => lhs.signerPublicKey < rhs.signerPublicKey

theorem hasCosignatory_iff {signer : State.Key} :
    data.hasCosignatory signer ↔ ∃ cosignature ∈ data.cosignatures, cosignature.signerPublicKey = signer := by
  rw [PtData.hasCosignatory, List.any_eq_true]
  exact exists_congr fun other => and_congr_right fun _ => by rw [decide_eq_true_eq, eq_comm]

/-- A cosignature of a new signer keeps the order. -/
theorem Sorted.orderedInsert {cosignatures : List Cosignature} (sorted : Sorted cosignatures)
    (new : ∀ other ∈ cosignatures, other.signerPublicKey ≠ cosignature.signerPublicKey) :
    Sorted (cosignatures.orderedInsert (fun lhs rhs => lhs.signerPublicKey ≤ rhs.signerPublicKey) cosignature) := by
  induction cosignatures with
  | nil => exact List.pairwise_singleton _ _
  | cons first others ih =>
    obtain ⟨below, rest⟩ := List.pairwise_cons.mp sorted
    rw [List.orderedInsert_cons]
    split
    · next notAbove =>
      have less := lt_of_le_of_ne notAbove (new first List.mem_cons_self).symm
      refine List.pairwise_cons.mpr ⟨fun other member => ?_, sorted⟩
      rcases List.mem_cons.mp member with rfl | later
      · exact less
      · exact less.trans (below other later)
    · next above =>
      refine List.pairwise_cons.mpr ⟨fun other member => ?_, ih rest fun other member => new other (List.mem_cons_of_mem _ member)⟩
      rcases List.mem_cons.mp ((List.perm_orderedInsert _ _ _).mem_iff.mp member) with rfl | later
      · exact not_le.mp above
      · exact below other later

/-- The size of a transaction and of its cosignatures. -/
def PtData.byteCount (data : PtData) : Nat :=
  data.transactionInfo.entity.size.toNat + data.cosignatures.length * Cosignature.size

theorem ofNat_toNat (size : UInt32) : UInt64.ofNat size.toNat = size.toUInt64 := by
  rw [← UInt64.toNat_inj, UInt32.toNat_toUInt64, UInt64.toNat_ofNat']
  exact Nat.mod_eq_of_lt (lt_trans size.toNat_lt (by decide))

theorem numBytes_eq (data : PtData) : data.numBytes = UInt64.ofNat data.byteCount := by
  rw [PtData.numBytes, PtData.byteCount, UInt64.ofNat_add, UInt64.ofNat_mul, UInt64.mul_comm, ofNat_toNat]

/-- What the addition of a transaction does. -/
theorem add_cases {next : MemoryPtCache} {transactionInfo : DetachedTransactionInfo}
    (added : cache.add transactionInfo = some next) :
    ¬ cache.maxCacheSize - cache.cacheSize < transactionInfo.entity.size.toUInt64 ∧ cache.find transactionInfo.entityHash = none ∧
      next = { cache with
        transactionDataContainer := cache.transactionDataContainer.insert (.create transactionInfo)
        timestampedHashes := insert ⟨transactionInfo.entity.deadline, transactionInfo.entityHash⟩ cache.timestampedHashes
        cacheSize := cache.cacheSize + transactionInfo.entity.size.toUInt64 } := by
  unfold MemoryPtCache.add at added
  dsimp only at added
  split at added
  · cases added
  · next fits =>
    split at added
    · cases added
    · next absent =>
      rw [Option.not_isSome_iff_eq_none] at absent
      exact ⟨fits, absent, (Option.some.inj added).symm⟩

theorem mem_of_find {hash : Hash256} (found : cache.find hash = some data) :
    data ∈ cache.transactionDataContainer.elements ∧ data.entityHash = hash := KeyedSet.find_eq_some_iff.mp found

theorem find_of_mem (member : data ∈ cache.transactionDataContainer.elements) : cache.find data.entityHash = some data :=
  KeyedSet.find_eq_some_iff.mpr ⟨member, rfl⟩

theorem find_removeEntry (hash : Hash256) :
    (cache.removeEntry data).find hash = if hash = data.entityHash then none else cache.find hash :=
  KeyedSet.find_erase _ _ _

theorem mem_removeEntry {other : PtData} : other ∈ (cache.removeEntry data).transactionDataContainer.elements ↔
      other ∈ cache.transactionDataContainer.elements ∧ other.entityHash ≠ data.entityHash := by
  change other ∈ cache.transactionDataContainer.elements.filter (fun other => ptDataKeying.toKey other ≠ data.entityHash) ↔ _
  rw [List.mem_filter, decide_eq_true_eq]
  rfl

variable {next : PtData} (found : cache.find next.entityHash = some data)
include found

theorem find_replace (hash : Hash256) :
    (cache.replace next).find hash = if hash = next.entityHash then some next else cache.find hash := by
  have sameHash := (mem_of_find found).2
  rw [MemoryPtCache.replace, KeyedSet.find_modify]
  split
  · next same =>
    subst same
    change (cache.find next.entityHash).map _ = _
    rw [found, Option.map_some]
    exact congrArg some (if_pos sameHash)
  · rfl

theorem total_replace (weight : PtData → Nat) :
    (cache.replace next).total weight + weight data = cache.transactionDataContainer.total weight + weight next := by
  have sameHash := (mem_of_find found).2
  rw [MemoryPtCache.replace, KeyedSet.total_modify weight _ found]
  exact congrArg (fun changed => _ + weight changed) (if_pos sameHash)

theorem mem_replace {other : PtData} : other ∈ (cache.replace next).elements ↔
      other = next ∨ other.entityHash ≠ next.entityHash ∧ other ∈ cache.transactionDataContainer.elements := by
  have replaced : (cache.replace next).find other.entityHash = some other ↔ other ∈ (cache.replace next).elements :=
    KeyedSet.find_eq_some_iff.trans (and_iff_left rfl)
  have old : cache.find other.entityHash = some other ↔ other ∈ cache.transactionDataContainer.elements :=
    KeyedSet.find_eq_some_iff.trans (and_iff_left rfl)
  rw [← replaced, ← old, find_replace found]
  by_cases same : other.entityHash = next.entityHash
  · rw [if_pos same, Option.some.injEq]
    exact ⟨fun equal => .inl equal.symm, fun either => either.elim Eq.symm fun apart => absurd same apart.1⟩
  · rw [if_neg same]
    exact ⟨fun kept => .inr ⟨same, kept⟩, fun either =>
      either.elim (fun equal => absurd (congrArg PtData.entityHash equal) same) And.right⟩

end Entries

section Cosignatures

variable [Sha3] {data next : PtData} {cosignature : Cosignature}

/-- The cosignatures are sorted, and the hash is the one of the sorted cosignatures. -/
structure WellCosigned (data : PtData) : Prop where
  sorted : Sorted data.cosignatures
  hashed : data.cosignaturesHash =
    if data.cosignatures = [] then zeroHash else PtData.calculateCosignaturesHash data.cosignatures

/-- What the addition of a cosignature changes. -/
theorem add_cosignature_cases (added : data.add cosignature = some next) :
    (∀ other ∈ data.cosignatures, other.signerPublicKey ≠ cosignature.signerPublicKey) ∧
      next.transactionInfo = data.transactionInfo ∧ next.cosignatures.Perm (cosignature :: data.cosignatures) ∧
      (Sorted data.cosignatures → WellCosigned next) := by
  unfold PtData.add at added
  split at added
  · cases added
  · next absent =>
    obtain rfl := Option.some.inj added
    have new : ∀ other ∈ data.cosignatures, other.signerPublicKey ≠ cosignature.signerPublicKey :=
      fun other member same => absent (hasCosignatory_iff.mpr ⟨other, member, same⟩)
    refine ⟨new, rfl, List.perm_orderedInsert _ _ _, fun sorted => ⟨sorted.orderedInsert new, ?_⟩⟩
    have filled : data.cosignatures.orderedInsert
        (fun lhs rhs => lhs.signerPublicKey ≤ rhs.signerPublicKey) cosignature ≠ [] := by
      intro empty
      have length := (List.perm_orderedInsert
        (fun lhs rhs : Cosignature => lhs.signerPublicKey ≤ rhs.signerPublicKey) cosignature data.cosignatures).length_eq
      rw [empty] at length
      cases length
    exact (if_neg filled).symm

/-- The hash depends only on the set of the cosignatures. -/
theorem WellCosigned.hash_eq {other : PtData} (first : WellCosigned data) (second : WellCosigned other)
    (same : ∀ cosignature, cosignature ∈ data.cosignatures ↔ cosignature ∈ other.cosignatures) :
    data.cosignaturesHash = other.cosignaturesHash := by
  have equal : data.cosignatures = other.cosignatures :=
    SortedMap.pairwise_unique (fun _ _ => lt_asymm) first.sorted second.sorted same
  rw [first.hashed, second.hashed, equal]

end Cosignatures

section Accounts

variable [Sha3] {cache next : MemoryPtCache} {data : PtData}

/-- The memory size is the sum of the sizes as a 64 bit number, the timestamped hashes are those of the transactions, and the
cosignatures are in order. -/
structure Accounted (cache : MemoryPtCache) : Prop where
  memory : cache.cacheSize = UInt64.ofNat (cache.transactionDataContainer.total PtData.byteCount)
  timestamps : ∀ timestampedHash, timestampedHash ∈ cache.timestampedHashes ↔
    ∃ data ∈ cache.transactionDataContainer.elements, data.timestampedHash = timestampedHash
  cosigned : ∀ data ∈ cache.transactionDataContainer.elements, WellCosigned data

theorem accounted_create (maxCacheSize : FileSize) : Accounted (.create maxCacheSize) where
  memory := rfl
  timestamps _ := ⟨fun member => absurd member (Finset.notMem_empty _), fun ⟨_, member, _⟩ => absurd member List.not_mem_nil⟩
  cosigned _ member := absurd member List.not_mem_nil

theorem wellCosigned_create (transactionInfo : DetachedTransactionInfo) : WellCosigned (.create transactionInfo) :=
  ⟨List.Pairwise.nil, (if_pos rfl).symm⟩

theorem Accounted.add (accounted : Accounted cache) {transactionInfo : DetachedTransactionInfo}
    (added : cache.add transactionInfo = some next) : Accounted next := by
  obtain ⟨_, missing, rfl⟩ := add_cases added
  have absent : cache.transactionDataContainer.find (ptDataKeying.toKey (.create transactionInfo)) = none := missing
  have elements : (cache.transactionDataContainer.insert (.create transactionInfo)).elements =
      cache.transactionDataContainer.elements ++ [.create transactionInfo] := KeyedSet.elements_insert absent
  refine ⟨?_, fun timestampedHash => ?_, fun data member => ?_⟩
  · rw [KeyedSet.total_insert _ absent, UInt64.ofNat_add, accounted.memory]
    have bytes : (PtData.create transactionInfo).byteCount = transactionInfo.entity.size.toNat + 0 * Cosignature.size := rfl
    rw [bytes, Nat.zero_mul, Nat.add_zero, ofNat_toNat]
  · dsimp only
    rw [Finset.mem_insert, elements, accounted.timestamps]
    constructor
    · rintro (rfl | ⟨data, member, same⟩)
      · exact ⟨.create transactionInfo, List.mem_append_right _ (List.mem_singleton_self _), rfl⟩
      · exact ⟨data, List.mem_append_left _ member, same⟩
    · rintro ⟨data, member, rfl⟩
      rcases List.mem_append.mp member with old | new
      · exact .inr ⟨data, old, rfl⟩
      · rw [List.mem_singleton.mp new]
        exact .inl rfl
  · dsimp only at member
    rw [elements] at member
    rcases List.mem_append.mp member with old | new
    · exact accounted.cosigned data old
    · rw [List.mem_singleton.mp new]
      exact wellCosigned_create transactionInfo

theorem Accounted.removeEntry (accounted : Accounted cache) (member : data ∈ cache.transactionDataContainer.elements) :
    Accounted (cache.removeEntry data) := by
  refine ⟨?_, fun timestampedHash => ?_, fun other inside => accounted.cosigned other (mem_removeEntry.mp inside).1⟩
  · have erased := KeyedSet.total_erase PtData.byteCount (find_of_mem member)
    change cache.cacheSize - data.numBytes = UInt64.ofNat ((cache.transactionDataContainer.erase data.entityHash).total _)
    rw [accounted.memory, ← erased, UInt64.ofNat_add, numBytes_eq, UInt64.add_sub_cancel]
  · change timestampedHash ∈ cache.timestampedHashes.erase data.timestampedHash ↔ _
    rw [Finset.mem_erase, accounted.timestamps]
    constructor
    · rintro ⟨different, other, inside, rfl⟩
      refine ⟨other, mem_removeEntry.mpr ⟨inside, fun same => different ?_⟩, rfl⟩
      have equal := find_of_mem inside
      rw [same, find_of_mem member] at equal
      rw [Option.some.inj equal]
    · rintro ⟨other, inside, rfl⟩
      obtain ⟨kept, different⟩ := mem_removeEntry.mp inside
      exact ⟨fun same => different (congrArg TimestampedHash.hash same), other, kept, rfl⟩

/-- An accepted cosignature changes one entry. -/
theorem addCosignature_cases {parentHash : Hash256} {cosignature : Cosignature} {info : DetachedTransactionInfo}
    (added : cache.addCosignature parentHash cosignature = some (info, next)) :
    ∃ data changed, cache.find parentHash = some data ∧ data.add cosignature = some changed ∧
      changed.entityHash = parentHash ∧ info = data.transactionInfo ∧
      next = { cache with
        transactionDataContainer := cache.replace changed
        cacheSize := cache.cacheSize + UInt64.ofNat Cosignature.size } := by
  unfold MemoryPtCache.addCosignature at added
  split at added
  · cases added
  · next data found =>
    split at added
    · cases added
    · next changed accepted =>
      obtain ⟨rfl, rfl⟩ := Prod.mk.inj (Option.some.inj added)
      have sameInfo := (add_cosignature_cases accepted).2.1
      refine ⟨data, changed, found, accepted, ?_, sameInfo, rfl⟩
      rw [← (mem_of_find found).2, PtData.entityHash, sameInfo]
      rfl

theorem Accounted.addCosignature (accounted : Accounted cache) {parentHash : Hash256} {cosignature : Cosignature}
    {info : DetachedTransactionInfo} (added : cache.addCosignature parentHash cosignature = some (info, next)) :
    Accounted next := by
  obtain ⟨data, changed, found, accepted, sameHash, -, rfl⟩ := addCosignature_cases added
  obtain ⟨-, sameInfo, perm, cosigned⟩ := add_cosignature_cases accepted
  subst sameHash
  have member := (mem_of_find found).1
  have sameStamp : changed.timestampedHash = data.timestampedHash := by
    rw [PtData.timestampedHash, PtData.timestampedHash, PtData.entityHash, PtData.entityHash, sameInfo]
  refine ⟨?_, fun timestampedHash => ?_, fun other inside => ?_⟩
  · have total := total_replace found PtData.byteCount
    have larger : changed.byteCount = data.byteCount + Cosignature.size := by
      rw [PtData.byteCount, PtData.byteCount, sameInfo, perm.length_eq, List.length_cons, Nat.succ_mul]
      omega
    have grown : (cache.replace changed).total PtData.byteCount =
        cache.transactionDataContainer.total PtData.byteCount + Cosignature.size := by omega
    change cache.cacheSize + _ = UInt64.ofNat ((cache.replace changed).total PtData.byteCount)
    rw [grown, UInt64.ofNat_add, accounted.memory]
  · refine (accounted.timestamps timestampedHash).trans ⟨?_, ?_⟩
    · rintro ⟨other, inside, rfl⟩
      by_cases same : other.entityHash = changed.entityHash
      · have equal := find_of_mem inside
        rw [same, found] at equal
        exact ⟨changed, (mem_replace found).mpr (.inl rfl), by rw [sameStamp, Option.some.inj equal]⟩
      · exact ⟨other, (mem_replace found).mpr (.inr ⟨same, inside⟩), rfl⟩
    · rintro ⟨other, inside, rfl⟩
      rcases (mem_replace found).mp inside with rfl | ⟨-, old⟩
      · exact ⟨data, member, sameStamp.symm⟩
      · exact ⟨other, old, rfl⟩
  · rcases (mem_replace found).mp inside with rfl | ⟨-, old⟩
    · exact cosigned (accounted.cosigned data member).sorted
    · exact accounted.cosigned other old

end Accounts

section Pruning

variable {cache : MemoryPtCache}

/-- The first timestamped hash is the lowest one. -/
theorem firstTimestampedHash_cases (cache : MemoryPtCache) : (cache.firstTimestampedHash = none ∧ cache.timestampedHashes = ∅) ∨
      ∃ first ∈ cache.timestampedHashes, cache.firstTimestampedHash = some first ∧
        ∀ other ∈ cache.timestampedHashes, first ≤ other := by
  have listed : ∀ other, other ∈ cache.timestampedHashes.sort (fun lhs rhs => lhs ≤ rhs) ↔ other ∈ cache.timestampedHashes :=
    fun other => Finset.mem_sort _
  have sorted : (cache.timestampedHashes.sort fun lhs rhs => lhs ≤ rhs).Pairwise fun lhs rhs => lhs ≤ rhs :=
    Finset.pairwise_sort _ _
  unfold MemoryPtCache.firstTimestampedHash
  cases split : cache.timestampedHashes.sort fun lhs rhs => lhs ≤ rhs with
  | nil =>
    rw [split] at listed
    exact .inl ⟨rfl, Finset.eq_empty_of_forall_notMem fun other member => List.not_mem_nil ((listed other).mpr member)⟩
  | cons first others =>
    rw [split] at listed sorted
    refine .inr ⟨first, (listed first).mp List.mem_cons_self, rfl, fun other member => ?_⟩
    rcases List.mem_cons.mp ((listed other).mpr member) with rfl | later
    · exact le_refl _
    · exact (List.pairwise_cons.mp sorted).1 other later

theorem time_le_of_le {first other : TimestampedHash} (before : first ≤ other) : first.time ≤ other.time := by
  have ordered : toLex (first.time, first.hash) ≤ toLex (other.time, other.hash) := before
  rcases Prod.Lex.le_iff.mp ordered with less | ⟨same, -⟩
  · exact le_of_lt less
  · exact le_of_eq same

/-- A transaction is kept exactly if its deadline is later than the timestamp. -/
def keptAfter (timestamp : Timestamp) (data : PtData) : Bool := timestamp < data.transactionInfo.entity.deadline

/-- Pruning ends and removes exactly the transactions with a deadline up to the timestamp. -/
def PrunedTo (timestamp : Timestamp) (cache next : MemoryPtCache) : Prop :=
  next.maxCacheSize = cache.maxCacheSize ∧ ∀ hash, next.find hash = (cache.find hash).filter (keptAfter timestamp)

theorem prunedTo_self {timestamp : Timestamp}
    (later : ∀ data ∈ cache.transactionDataContainer.elements, keptAfter timestamp data) : PrunedTo timestamp cache cache := by
  refine ⟨rfl, fun hash => ?_⟩
  cases found : cache.find hash with
  | none => rfl
  | some data => rw [Option.filter_some, if_pos (later data (mem_of_find found).1)]

variable [Sha3]

theorem Accounted.prunedTo_of_empty (accounted : Accounted cache) (empty : cache.timestampedHashes = ∅) (timestamp : Timestamp) :
    PrunedTo timestamp cache cache := by
  refine prunedTo_self fun data member => ?_
  have stamped := (accounted.timestamps data.timestampedHash).mpr ⟨data, member, rfl⟩
  rw [empty] at stamped
  exact absurd stamped (Finset.notMem_empty _)

theorem Accounted.pruneLoop (accounted : Accounted cache) (timestamp : Timestamp) {fuel : Nat}
    (enough : cache.timestampedHashes.card ≤ fuel) (prunedInfos : List DetachedTransactionInfo) :
    ∃ infos next, MemoryPtCache.pruneLoop timestamp fuel cache prunedInfos = .ok (infos, next) ∧ Accounted next ∧
      PrunedTo timestamp cache next := by
  -- every round removes one entry, so the number of timestamped hashes bounds the rounds
  induction fuel generalizing cache prunedInfos with
  | zero =>
    have empty : cache.timestampedHashes = ∅ := Finset.card_eq_zero.mp (Nat.le_zero.mp enough)
    rcases firstTimestampedHash_cases cache with ⟨found, -⟩ | ⟨first, member, -⟩
    · exact ⟨prunedInfos, cache, by rw [MemoryPtCache.pruneLoop, found], accounted, accounted.prunedTo_of_empty empty timestamp⟩
    · rw [empty] at member
      exact absurd member (Finset.notMem_empty _)
  | succ fuel ih =>
    rcases firstTimestampedHash_cases cache with ⟨found, empty⟩ | ⟨first, member, found, lowest⟩
    · exact ⟨prunedInfos, cache, by rw [MemoryPtCache.pruneLoop, found], accounted, accounted.prunedTo_of_empty empty timestamp⟩
    · by_cases later : timestamp < first.time
      · refine ⟨prunedInfos, cache, ?_, accounted, prunedTo_self fun data inside => ?_⟩
        · rw [MemoryPtCache.pruneLoop, found]
          exact if_pos later
        · have stamped := (accounted.timestamps data.timestampedHash).mpr ⟨data, inside, rfl⟩
          exact decide_eq_true (lt_of_lt_of_le later (time_le_of_le (lowest _ stamped)))
      · obtain ⟨data, inside, rfl⟩ := (accounted.timestamps first).mp member
        have fewer : (cache.removeEntry data).timestampedHashes.card ≤ fuel := by
          change (cache.timestampedHashes.erase data.timestampedHash).card ≤ fuel
          rw [Finset.card_erase_of_mem member]
          omega
        obtain ⟨infos, next, ran, kept, sameMaximum, pruned⟩ :=
          ih (accounted.removeEntry inside) fewer (prunedInfos ++ [data.transactionInfo])
        refine ⟨infos, next, ?_, kept, sameMaximum, fun hash => ?_⟩
        · rw [MemoryPtCache.pruneLoop, found]
          dsimp only
          rw [if_neg later]
          have entry : cache.find data.timestampedHash.hash = some data := find_of_mem inside
          rw [entry]
          exact ran
        · rw [pruned, find_removeEntry]
          split
          · next same =>
            have early : keptAfter timestamp data = false := decide_eq_false later
            rw [same, find_of_mem inside, Option.filter_some, early]
            rfl
          · rfl

theorem Accounted.prune (accounted : Accounted cache) (timestamp : Timestamp) :
    ∃ infos next, cache.prune timestamp = .ok (infos, next) ∧ Accounted next ∧ PrunedTo timestamp cache next :=
  accounted.pruneLoop timestamp (Nat.le_refl _) []

/-- The entries that are still to be visited are in the cache. -/
theorem Accounted.prunePredicate (accounted : Accounted cache) (hashPredicate : Hash256 → Bool) :
    Accounted (cache.prunePredicate hashPredicate).2 := by
  have general : ∀ (entries : List PtData) (prunedInfos : List DetachedTransactionInfo) (cache : MemoryPtCache), Accounted cache →
      (entries.map PtData.entityHash).Nodup → (∀ data ∈ entries, data ∈ cache.transactionDataContainer.elements) →
      Accounted (entries.foldl (fun state data =>
        if hashPredicate data.entityHash then (state.1 ++ [data.transactionInfo], state.2.removeEntry data)
        else (state.1, state.2)) (prunedInfos, cache)).2 := by
    intro entries
    induction entries with
    | nil => exact fun _ _ accounted _ _ => accounted
    | cons data entries ih =>
      intro prunedInfos cache accounted distinct inside
      rw [List.map_cons, List.nodup_cons] at distinct
      rw [List.foldl_cons]
      dsimp only
      split
      · refine ih _ _ (accounted.removeEntry (inside data List.mem_cons_self)) distinct.2 fun other member => ?_
        refine mem_removeEntry.mpr ⟨inside other (List.mem_cons_of_mem _ member), fun same => distinct.1 ?_⟩
        rw [← same]
        exact List.mem_map_of_mem member
      · exact ih _ _ accounted distinct.2 fun other member => inside other (List.mem_cons_of_mem _ member)
  exact general _ [] cache accounted cache.transactionDataContainer.distinct fun _ member => member

end Pruning

section Runs

variable [Sha3] {cache : MemoryPtCache}

theorem Accounted.step (accounted : Accounted cache) (action : PtCacheAction) :
    ∃ next, cache.step action = .ok next ∧ Accounted next := by
  cases action with
  | add transactionInfo =>
    refine ⟨_, rfl, ?_⟩
    cases added : cache.add transactionInfo with
    | none => exact accounted
    | some next => exact accounted.add added
  | addCosignature parentHash cosignature =>
    refine ⟨_, rfl, ?_⟩
    cases added : cache.addCosignature parentHash cosignature with
    | none => exact accounted
    | some result => exact accounted.addCosignature added
  | remove hash =>
    refine ⟨_, rfl, ?_⟩
    unfold MemoryPtCache.remove
    cases found : cache.find hash with
    | none => exact accounted
    | some data => exact accounted.removeEntry (mem_of_find found).1
  | prune timestamp =>
    obtain ⟨infos, next, ran, kept, -⟩ := accounted.prune timestamp
    exact ⟨next, by rw [MemoryPtCache.step, ran]; rfl, kept⟩
  | prunePredicate hashPredicate => exact ⟨_, rfl, accounted.prunePredicate hashPredicate⟩

/-- Pruning is exact, and no transaction is added above the maximum size. -/
def SoundStep (cache : MemoryPtCache) : PtCacheAction → Prop
  | .add transactionInfo => ∀ next, cache.add transactionInfo = some next → next.cacheSize ≤ cache.maxCacheSize
  | .prune timestamp => ∃ infos next, cache.prune timestamp = .ok (infos, next) ∧ PrunedTo timestamp cache next
  | _ => True

/-- A transaction is already there, or the memory size is not above the maximum size, or the new one has more than 64 bits. -/
def WithinLimit (cache : MemoryPtCache) : PtCacheAction → Prop
  | .add transactionInfo => (cache.find transactionInfo.entityHash).isSome ∨ cache.cacheSize ≤ cache.maxCacheSize ∨
      2 ^ 64 ≤ cache.cacheSize.toNat + transactionInfo.entity.size.toNat
  | _ => True

omit [Sha3] in
theorem add_limit_iff (transactionInfo : DetachedTransactionInfo) :
    SoundStep cache (.add transactionInfo) ↔ WithinLimit cache (.add transactionInfo) := by
  have sizeSmall := transactionInfo.entity.size.toNat_lt
  have cacheSmall := cache.cacheSize.toNat_lt
  have maximumSmall := cache.maxCacheSize.toNat_lt
  have sizeWord : transactionInfo.entity.size.toUInt64.toNat = transactionInfo.entity.size.toNat := UInt32.toNat_toUInt64 _
  have refused : cache.maxCacheSize - cache.cacheSize < transactionInfo.entity.size.toUInt64 ↔
      (2 ^ 64 - cache.cacheSize.toNat + cache.maxCacheSize.toNat) % 2 ^ 64 < transactionInfo.entity.size.toNat := by
    rw [UInt64.lt_iff_toNat_lt, UInt64.toNat_sub, sizeWord]
  have bounded : cache.cacheSize + transactionInfo.entity.size.toUInt64 ≤ cache.maxCacheSize ↔
      (cache.cacheSize.toNat + transactionInfo.entity.size.toNat) % 2 ^ 64 ≤ cache.maxCacheSize.toNat := by
    rw [UInt64.le_iff_toNat_le, UInt64.toNat_add, sizeWord]
  rw [WithinLimit, UInt64.le_iff_toNat_le]
  constructor
  · intro sound
    by_contra outside
    rw [not_or, not_or, Option.not_isSome_iff_eq_none] at outside
    obtain ⟨absent, above, small⟩ := outside
    have accepted : ¬ cache.maxCacheSize - cache.cacheSize < transactionInfo.entity.size.toUInt64 := by
      rw [refused]
      omega
    have added := sound _ (by rw [MemoryPtCache.add, if_neg accepted, absent]; rfl)
    have fits := bounded.mp added
    omega
  · rintro within next added
    obtain ⟨accepted, absent, rfl⟩ := add_cases added
    rw [refused] at accepted
    rw [absent] at within
    refine bounded.mpr ?_
    rcases within with stored | below | overflow
    · cases stored
    · omega
    · omega

theorem Accounted.soundStep_iff (accounted : Accounted cache) (action : PtCacheAction) :
    SoundStep cache action ↔ WithinLimit cache action := by
  cases action with
  | add transactionInfo => exact add_limit_iff transactionInfo
  | addCosignature _ _ => exact Iff.rfl
  | remove _ => exact Iff.rfl
  | prune timestamp =>
    refine iff_of_true ?_ trivial
    obtain ⟨infos, next, ran, -, pruned⟩ := accounted.prune timestamp
    exact ⟨infos, next, ran, pruned⟩
  | prunePredicate _ => exact Iff.rfl

/-- Every run succeeds and keeps its accounts, equal sets of cosignatures have equal hashes in all runs, and all steps are sound
exactly if no transaction is added while the memory size is above the maximum size. -/
theorem cache_accounting_run_iff (maxCacheSize : FileSize) (actions : List PtCacheAction) :
    (∃ final, actions.foldlM MemoryPtCache.step (.create maxCacheSize) = .ok final ∧ Accounted final ∧
      ∀ (otherMaximum : FileSize) (others : List PtCacheAction) (otherFinal : MemoryPtCache),
        others.foldlM MemoryPtCache.step (.create otherMaximum) = .ok otherFinal →
        ∀ data ∈ final.transactionDataContainer.elements, ∀ other ∈ otherFinal.transactionDataContainer.elements,
          (∀ cosignature, cosignature ∈ data.cosignatures ↔ cosignature ∈ other.cosignatures) →
            data.cosignaturesHash = other.cosignaturesHash) ∧
      (Runs.Meets MemoryPtCache.step SoundStep (.create maxCacheSize) actions ↔
        Runs.Meets MemoryPtCache.step WithinLimit (.create maxCacheSize) actions) := by
  have preserved : ∀ (cache : MemoryPtCache) (action : PtCacheAction) (next : MemoryPtCache), Accounted cache →
      cache.step action = .ok next → Accounted next := by
    intro cache action next accounted stepped
    obtain ⟨other, same, kept⟩ := accounted.step action
    rw [stepped] at same
    exact Except.ok.inj same ▸ kept
  obtain ⟨final, ran, accounted⟩ := Runs.exists_run (fun _ action accounted => accounted.step action)
    (accounted_create maxCacheSize) actions
  refine ⟨⟨final, ran, accounted, ?_⟩, ?_⟩
  · intro otherMaximum others otherFinal otherRan data member other otherMember same
    have otherAccounted := Runs.always preserved (accounted_create otherMaximum) otherRan
    exact (accounted.cosigned data member).hash_eq (otherAccounted.cosigned other otherMember) same
  · exact Runs.Meets.congr preserved (fun _ action accounted => accounted.soundStep_iff action) (accounted_create maxCacheSize)

end Runs

namespace Samples

def sampleInfo (index : UInt8) (size : UInt32) (deadline : Timestamp) : DetachedTransactionInfo :=
  ⟨⟨size, deadline⟩, Vector.replicate 32 index, none⟩

def sampleCosignature (index : UInt8) : Cosignature := ⟨0, Vector.replicate 1312 index, Vector.replicate 2420 index⟩

/-- A transaction fills the cache, and its cosignature exceeds the maximum size. -/
def fillingActions : List PtCacheAction :=
  [.add (sampleInfo 1 5000 10), .addCosignature (Vector.replicate 32 1) (sampleCosignature 7)]

/-- A transaction of 4000 bytes is added to a cache of 8740 bytes although its maximum size is 5000 bytes. -/
theorem cosignature_lifts_limit : letI := sha3Digest
    ∃ cache, fillingActions.foldlM MemoryPtCache.step (.create 5000) = .ok cache ∧ cache.cacheSize = 8740 ∧
      ¬ SoundStep cache (.add (sampleInfo 2 4000 10)) := by
  let := sha3Digest
  refine ⟨_, rfl, by decide +kernel, fun sound => ?_⟩
  rcases (add_limit_iff _).mp sound with stored | below | overflow
  · revert stored
    decide +kernel
  · revert below
    decide +kernel
  · revert overflow
    decide +kernel

end Samples

end Catapult.Partial
