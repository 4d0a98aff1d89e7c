import Catapult.Proof.State.AccountBalances

/-
This file proves that the bytes of an account in the cache are determined by its logical state.
-/

namespace Catapult.State

open Finalization (PinnedVotingKey)
open AccountPublicKeys ByteStream

/-- The epochs of voting keys are valid ranges that follow each other. -/
structure VotingOrdered (keys : List PinnedVotingKey) : Prop where
  ranges : ∀ key ∈ keys, key.startEpoch ≤ key.endEpoch
  order : keys.Pairwise fun lower upper => lower.endEpoch < upper.startEpoch

theorem VotingOrdered.sublist {keys kept : List PinnedVotingKey} (ordered : VotingOrdered keys) (part : kept.Sublist keys) :
    VotingOrdered kept := ⟨fun key member => ordered.ranges key (part.subset member), ordered.order.sublist part⟩

theorem VotingOrdered.unique {first second : List PinnedVotingKey} (orderedFirst : VotingOrdered first)
    (orderedSecond : VotingOrdered second) (members : ∀ key, key ∈ first ↔ key ∈ second) : first = second := by
  have ranged {keys : List PinnedVotingKey} (ordered : VotingOrdered keys) : keys.Pairwise fun lower upper =>
      lower.startEpoch ≤ lower.endEpoch ∧ upper.startEpoch ≤ upper.endEpoch ∧ lower.endEpoch < upper.startEpoch :=
    List.Pairwise.imp_of_mem (fun memberLower memberUpper less =>
      ⟨ordered.ranges _ memberLower, ordered.ranges _ memberUpper, less⟩) ordered.order
  refine SortedMap.pairwise_unique ?_ (ranged orderedFirst) (ranged orderedSecond) members
  rintro lhs rhs ⟨rangeLhs, rangeRhs, forth⟩ ⟨_, _, back⟩
  rw [UInt32.le_iff_toNat_le] at rangeLhs rangeRhs
  rw [UInt32.lt_iff_toNat_lt] at forth back
  omega

theorem mem_insertVotingKey {key other : PinnedVotingKey} {keys : List PinnedVotingKey} :
    other ∈ insertVotingKey key keys ↔ other = key ∨ other ∈ keys := by
  induction keys with
  | nil => exact List.mem_singleton.trans (by simp)
  | cons first keys ih =>
    rw [insertVotingKey]
    split
    · exact List.mem_cons
    · rw [List.mem_cons, ih, List.mem_cons]
      tauto

theorem length_insertVotingKey (key : PinnedVotingKey) (keys : List PinnedVotingKey) :
    (insertVotingKey key keys).length = keys.length + 1 := by
  induction keys with
  | nil => rfl
  | cons first keys ih =>
    rw [insertVotingKey]
    split
    · rfl
    · rw [List.length_cons, ih, List.length_cons]

/-- Ranges that do not overlap follow each other. -/
theorem follows_of_not_overlaps {key existing : PinnedVotingKey} (range : key.startEpoch ≤ key.endEpoch)
    (rangeExisting : existing.startEpoch ≤ existing.endEpoch) (apart : overlaps key existing = false) :
    key.endEpoch < existing.startEpoch ∨ existing.endEpoch < key.startEpoch := by
  unfold overlaps containsEpoch at apart
  simp only [Bool.or_eq_false_iff, Bool.and_eq_false_iff, decide_eq_false_iff_not, UInt32.not_le] at apart
  have first := UInt32.le_iff_toNat_le.mp range
  have second := UInt32.le_iff_toNat_le.mp rangeExisting
  simp only [UInt32.lt_iff_toNat_lt] at *
  omega

theorem insertVotingKey_ordered {keys : List PinnedVotingKey} {key : PinnedVotingKey} (ordered : VotingOrdered keys)
    (range : key.startEpoch ≤ key.endEpoch)
    (apart : ∀ existing ∈ keys, key.endEpoch < existing.startEpoch ∨ existing.endEpoch < key.startEpoch) :
    (insertVotingKey key keys).Pairwise fun lower upper => lower.endEpoch < upper.startEpoch := by
  induction keys with
  | nil => exact List.pairwise_singleton _ _
  | cons first keys ih =>
    obtain ⟨below, orderedRest⟩ := List.pairwise_cons.mp ordered.order
    rw [insertVotingKey]
    split
    · next before =>
      refine List.pairwise_cons.mpr ⟨?_, ordered.order⟩
      rintro other (_ | ⟨_, member⟩)
      · exact before
      · have less := below other member
        have rangeFirst := ordered.ranges first List.mem_cons_self
        rw [UInt32.le_iff_toNat_le] at rangeFirst
        rw [UInt32.lt_iff_toNat_lt] at before less ⊢
        omega
    · next notBefore =>
      have after := (apart first List.mem_cons_self).resolve_left notBefore
      refine List.pairwise_cons.mpr ⟨?_, ih (ordered.sublist (List.sublist_cons_self _ _))
        fun existing member => apart existing (.tail _ member)⟩
      intro other member
      rcases mem_insertVotingKey.mp member with rfl | member
      · exact after
      · exact below other member

theorem addVotingKey_ordered {keys changed : List PinnedVotingKey} {key : PinnedVotingKey} (ordered : VotingOrdered keys)
    (range : key.startEpoch ≤ key.endEpoch) (added : addVotingKey keys key = .ok changed) :
    VotingOrdered changed ∧ changed.length = keys.length + 1 := by
  unfold addVotingKey at added
  split at added
  · cases added
  · next apart =>
    cases added
    have follows : ∀ existing ∈ keys, key.endEpoch < existing.startEpoch ∨ existing.endEpoch < key.startEpoch := by
      intro existing member
      refine follows_of_not_overlaps range (ordered.ranges existing member) ?_
      rw [List.any_eq_true, not_exists] at apart
      exact Bool.eq_false_iff.mpr fun overlap => apart existing ⟨member, overlap⟩
    refine ⟨⟨?_, insertVotingKey_ordered ordered range follows⟩, length_insertVotingKey key keys⟩
    intro other member
    rcases mem_insertVotingKey.mp member with rfl | member
    · exact range
    · exact ordered.ranges other member

theorem insertVotingKey_last {keys : List PinnedVotingKey} {key : PinnedVotingKey}
    (after : ∀ existing ∈ keys, ¬key.endEpoch < existing.startEpoch) : insertVotingKey key keys = keys ++ [key] := by
  induction keys with
  | nil => rfl
  | cons first keys ih =>
    rw [insertVotingKey, if_neg (after first List.mem_cons_self), ih fun other member => after other (.tail _ member),
      List.cons_append]

/-- A key after all others is added at the end. -/
theorem addVotingKey_last {keys : List PinnedVotingKey} {key : PinnedVotingKey} (ordered : VotingOrdered (keys ++ [key])) :
    addVotingKey keys key = .ok (keys ++ [key]) := by
  have below : ∀ existing ∈ keys, existing.endEpoch < key.startEpoch := fun existing member =>
    (List.pairwise_append.mp ordered.order).2.2 existing member key (List.mem_singleton_self key)
  have range := ordered.ranges key (List.mem_append_right _ (List.mem_singleton_self key))
  have rangeExisting : ∀ existing ∈ keys, existing.startEpoch ≤ existing.endEpoch :=
    fun existing member => ordered.ranges existing (List.mem_append_left _ member)
  have apart : ¬keys.any (overlaps key) = true := by
    rw [List.any_eq_true]
    rintro ⟨existing, member, overlap⟩
    have less := below existing member
    have rangeOther := rangeExisting existing member
    simp only [overlaps, containsEpoch, Bool.or_eq_true, Bool.and_eq_true, decide_eq_true_eq, UInt32.le_iff_toNat_le,
      UInt32.lt_iff_toNat_lt] at *
    omega
  rw [addVotingKey, if_neg apart, insertVotingKey_last]
  intro existing member
  have less := below existing member
  have rangeOther := rangeExisting existing member
  rw [UInt32.le_iff_toNat_le] at range rangeOther
  rw [UInt32.lt_iff_toNat_lt] at less ⊢
  omega

theorem readVotingKeys_write {known keys : List PinnedVotingKey} (ordered : VotingOrdered (known ++ keys)) (rest : List UInt8) :
    readVotingKeys keys.length known (writeAll Codecs.pinnedVotingKey keys ++ rest) = .ok (known ++ keys, rest) := by
  induction keys generalizing known with
  | nil => rw [List.append_nil]; rfl
  | cons key keys ih =>
    rw [List.append_cons] at ordered
    rw [writeAll, List.flatMap_cons, List.append_assoc, List.length_cons, readVotingKeys, bind_apply, readValue_write,
      ok_bind, lift_bind, addVotingKey_last (ordered.sublist (List.sublist_append_left _ _)), ok_bind,
      List.append_cons known key keys]
    exact ih ordered

theorem readValues_write {α : Type} (codec : Codec α) (values : List α) (rest : List UInt8) :
    readValues codec values.length (writeAll codec values ++ rest) = .ok (values, rest) := by
  induction values with
  | nil => rfl
  | cons value values ih =>
    rw [writeAll, List.flatMap_cons, List.append_assoc, List.length_cons, readValues, bind_apply, readValue_write, ok_bind,
      bind_apply, ← writeAll, ih]
    rfl

/-- The flags of the mask tell which keys are set. -/
theorem mask_flags (keys : AccountPublicKeys) :
    decide (keys.mask &&& 1 ≠ 0) = isSet keys.linked ∧ decide (keys.mask &&& 2 ≠ 0) = isSet keys.node ∧
      decide (keys.mask &&& 4 ≠ 0) = isSet keys.vrf := by
  unfold mask
  cases isSet keys.linked <;> cases isSet keys.node <;> cases isSet keys.vrf <;> decide

/-- A zero key is loaded as one that is not set. -/
def storedKey {size : Nat} (key : Option (Vector UInt8 size)) : Option (Vector UInt8 size) :=
  if isSet key then some (getKey key) else none

theorem readSupplementalPublicKey_write {size : Nat} (key : Option (Vector UInt8 size)) (rest : List UInt8) :
    readSupplementalPublicKey (isSet key) (writeKey key ++ rest) = .ok (storedKey key, rest) := by
  unfold readSupplementalPublicKey writeKey storedKey
  cases isSet key with
  | false => rfl
  | true =>
    rw [if_pos rfl, if_pos rfl, bind_apply, readValue_write]
    rfl

def storedKeys (keys : AccountPublicKeys) : AccountPublicKeys :=
  ⟨storedKey keys.linked, storedKey keys.node, storedKey keys.vrf, keys.voting⟩

theorem readSupplementalPublicKeys_write {keys : AccountPublicKeys} (ordered : VotingOrdered keys.voting)
    (few : keys.voting.length < 256) (rest : List UInt8) :
    readSupplementalPublicKeys (writeSupplementalPublicKeys keys ++ rest) = .ok (storedKeys keys, rest) := by
  obtain ⟨flagLinked, flagNode, flagVrf⟩ := mask_flags keys
  have count : (UInt8.ofNat keys.voting.length).toNat = keys.voting.length := UInt8.toNat_ofNat_of_lt' few
  have voting := @readVotingKeys_write [] keys.voting ordered rest
  unfold readSupplementalPublicKeys writeSupplementalPublicKeys
  simp only [List.append_assoc]
  rw [bind_apply, readValue_write, ok_bind, bind_apply, readValue_write, ok_bind, bind_apply]
  dsimp only
  rw [flagLinked, readSupplementalPublicKey_write, ok_bind, bind_apply]
  dsimp only
  rw [flagNode, readSupplementalPublicKey_write, ok_bind, bind_apply]
  dsimp only
  rw [flagVrf, readSupplementalPublicKey_write, ok_bind, bind_apply, count]
  dsimp only
  rw [voting]
  rfl

theorem length_toList {T : Type} {size : Nat} [Inhabited T] (stack : CompactArrayStack T size) : stack.toList.length = size := by
  have bounded := stack.bounded
  rw [CompactArrayStack.toList, List.length_append, List.length_replicate]
  omega

theorem readRange_write {α : Type} (codec : Codec α) {values : List α} {count : Nat} (enough : count ≤ values.length)
    (rest : List UInt8) : readValues codec count (writeRange codec values 0 count ++ rest) = .ok (values.take count, rest) := by
  have written := readValues_write codec (values.take count) rest
  rwa [List.length_take, Nat.min_eq_left enough] at written

/-- The importances of a high value account are read before its mosaics. -/
def savedImportances (state : AccountState) : ImportanceReader :=
  if AccountImportanceSnapshots.active state.importanceSnapshots then
    ⟨state.importanceSnapshots.toList.take (importanceHistorySize - rollbackBufferSize),
      state.activityBuckets.toList.take (activityBucketHistorySize - rollbackBufferSize)⟩
  else .empty

theorem readImportances_write (state : AccountState) (rest : List UInt8) : readImportances (formatByte state)
      ((if AccountImportanceSnapshots.active state.importanceSnapshots then
        writeRange Codecs.snapshot state.importanceSnapshots.toList 0 (importanceHistorySize - rollbackBufferSize) ++
          writeRange Codecs.bucket state.activityBuckets.toList 0 (activityBucketHistorySize - rollbackBufferSize)
      else []) ++ rest) = .ok (savedImportances state, rest) := by
  unfold readImportances formatByte savedImportances
  cases AccountImportanceSnapshots.active state.importanceSnapshots with
  | false => rfl
  | true =>
    rw [if_pos rfl, if_pos rfl, if_pos rfl, if_pos rfl, List.append_assoc, ImportanceReader.read, bind_apply,
      readRange_write _ (by rw [length_toList]; decide), ok_bind, bind_apply,
      readRange_write _ (by rw [length_toList]; decide)]
    rfl

/-- The number of mosaics that are read is the 16 bit count. -/
def readCount (entries : List Mosaic) : Nat := (UInt16.ofNat entries.length).toNat

theorem readMosaics_count (entries : List Mosaic) (rest : List UInt8) :
    readMosaics (readCount entries) 0 .empty (writeAll Codecs.mosaic entries ++ rest) =
      (creditAll 0 .empty (entries.take (readCount entries))).map fun balances =>
        (balances, writeAll Codecs.mosaic (entries.drop (readCount entries)) ++ rest) := by
  have few : readCount entries ≤ entries.length := by
    rw [readCount, UInt16.toNat_ofNat']
    exact Nat.mod_le _ _
  have parts : writeAll Codecs.mosaic entries = writeAll Codecs.mosaic (entries.take (readCount entries)) ++
      writeAll Codecs.mosaic (entries.drop (readCount entries)) := by
    unfold writeAll
    rw [← List.flatMap_append, List.take_append_drop]
  have read := readMosaics_write 0 .empty (entries.take (readCount entries))
    (writeAll Codecs.mosaic (entries.drop (readCount entries)) ++ rest)
  rwa [List.length_take, Nat.min_eq_left few, ← List.append_assoc, ← parts] at read

/-- The state that is loaded before its balances and its history. -/
def storedState (state : AccountState) : AccountState :=
  { AccountState.create state.address state.addressHeight with
    publicKey := state.publicKey
    publicKeyHeight := state.publicKeyHeight
    accountType := .ofByte state.accountType.toByte
    supplementalPublicKeys := storedKeys state.supplementalPublicKeys }

theorem loadAccountStateWithoutHistory_save {state : AccountState} {optimized : MosaicId} {entries : List Mosaic}
    (shows : Shows optimized state.balances entries) (ordered : VotingOrdered state.supplementalPublicKeys.voting)
    (few : state.supplementalPublicKeys.voting.length < 256) (rest : List UInt8) :
    loadAccountStateWithoutHistory (saveNonHistorical state ++ rest) =
      (creditAll 0 .empty (entries.take (readCount entries))).map fun balances =>
        (({ storedState state with balances := balances }, savedImportances state),
          writeAll Codecs.mosaic (entries.drop (readCount entries)) ++ rest) := by
  unfold saveNonHistorical loadAccountStateWithoutHistory
  rw [shows.size, shows.toList]
  simp only [List.append_assoc]
  rw [bind_apply, readValue_write, ok_bind, bind_apply, readValue_write, ok_bind, bind_apply, readValue_write, ok_bind,
    bind_apply, readValue_write, ok_bind, bind_apply, readValue_write, ok_bind, bind_apply, readValue_write, ok_bind,
    bind_apply, readSupplementalPublicKeys_write ordered few, ok_bind, bind_apply, readImportances_write, ok_bind,
    bind_apply, readValue_write, ok_bind, bind_apply]
  have mosaics := readMosaics_count entries rest
  unfold readCount at mosaics ⊢
  rw [mosaics]
  cases creditAll 0 .empty (entries.take (UInt16.ofNat entries.length).toNat) with
  | error error => rfl
  | ok balances => rfl

theorem apply_keeps {reader : ImportanceReader} {state applied : AccountState} (ran : reader.apply state = .ok applied) :
    applied.balances = state.balances ∧ applied.supplementalPublicKeys = state.supplementalPublicKeys := by
  unfold ImportanceReader.apply at ran
  obtain ⟨snapshots, _, ran⟩ := Runs.bind_eq_ok.mp ran
  obtain ⟨buckets, _, ran⟩ := Runs.bind_eq_ok.mp ran
  cases ran
  exact ⟨rfl, rfl⟩

theorem map_eq_ok {α β ε : Type} {first : Except ε α} {change : α → β} {result : β} (mapped : first.map change = .ok result) :
    ∃ value, first = .ok value ∧ change value = result := by
  cases first with
  | error error => cases mapped
  | ok value => exact ⟨value, rfl, Except.ok.inj mapped⟩

/-- A loaded account has the mosaics that were credited and the history that was applied. -/
theorem reload_applies {state loaded : AccountState} {optimized : MosaicId} {entries : List Mosaic}
    (shows : Shows optimized state.balances entries) (ordered : VotingOrdered state.supplementalPublicKeys.voting)
    (few : state.supplementalPublicKeys.voting.length < 256) (reloaded : reload state = .ok loaded) :
    ∃ balances completed, creditAll 0 .empty (entries.take (readCount entries)) = .ok balances ∧
      ImportanceReader.apply completed { storedState state with balances := balances } = .ok loaded := by
  unfold reload load save at reloaded
  rw [bind_apply, loadAccountStateWithoutHistory_save shows ordered few] at reloaded
  cases credited : creditAll 0 .empty (entries.take (readCount entries)) with
  | error error =>
    rw [credited] at reloaded
    cases reloaded
  | ok balances =>
    rw [credited] at reloaded
    obtain ⟨result, ran, rfl⟩ := map_eq_ok reloaded
    obtain ⟨_, first, ran⟩ := Runs.bind_eq_ok.mp ran
    cases first
    obtain ⟨⟨completed, more⟩, _, applied⟩ := Runs.bind_eq_ok.mp ran
    cases applies : completed.apply { storedState state with balances := balances } with
    | error error =>
      dsimp only at applied
      rw [applies] at applied
      cases applied
    | ok final =>
      dsimp only at applied
      rw [applies] at applied
      cases applied
      exact ⟨balances, completed, rfl, applies⟩

/-- A loaded account has the voting keys and the first mosaics of the saved one. -/
theorem reload_keeps {state loaded : AccountState} {optimized : MosaicId} {entries : List Mosaic}
    (shows : Shows optimized state.balances entries) (ordered : VotingOrdered state.supplementalPublicKeys.voting)
    (few : state.supplementalPublicKeys.voting.length < 256) (reloaded : reload state = .ok loaded) :
    loaded.supplementalPublicKeys.voting = state.supplementalPublicKeys.voting ∧
      creditAll 0 .empty (entries.take (readCount entries)) = .ok loaded.balances := by
  obtain ⟨balances, completed, credited, applies⟩ := reload_applies shows ordered few reloaded
  obtain ⟨sameBalances, sameKeys⟩ := apply_keeps applies
  exact ⟨(congrArg AccountPublicKeys.voting sameKeys).trans rfl, credited.trans (congrArg Except.ok sameBalances.symm)⟩

/-- A replacement changes everything besides the balances and the voting keys. -/
inductive Modification where
  | credit (id : MosaicId) (amount : Amount)
  | debit (id : MosaicId) (amount : Amount)
  | addVotingKey (key : PinnedVotingKey)
  | removeVotingKey (key : PinnedVotingKey)
  | replace (other : AccountState)

def AccountState.setVoting (state : AccountState) (voting : List PinnedVotingKey) : AccountState :=
  { state with supplementalPublicKeys := { state.supplementalPublicKeys with voting := voting } }

def modify (state : AccountState) : Modification → Except AccountError AccountState
  | .credit id amount => do return { state with balances := ← state.balances.credit id amount }
  | .debit id amount => do return { state with balances := ← state.balances.debit id amount }
  | .addVotingKey key => do
    return state.setVoting (← AccountPublicKeys.addVotingKey state.supplementalPublicKeys.voting key)
  | .removeVotingKey key =>
    .ok (state.setVoting (AccountPublicKeys.removeVotingKey state.supplementalPublicKeys.voting key))
  | .replace other =>
    let replaced := { other with balances := state.balances }
    .ok (replaced.setVoting state.supplementalPublicKeys.voting)

/-- Validators accept links with a valid range of epochs as long as there is room. -/
def Permitted (maxVotingKeysPerAccount : UInt8) (state : AccountState) : Modification → Prop
  | .addVotingKey key =>
    key.startEpoch ≤ key.endEpoch ∧ state.supplementalPublicKeys.voting.length < maxVotingKeysPerAccount.toNat
  | _ => True

/-- An account that is built outside of the cache can be optimized for any mosaic. -/
inductive Built (maxVotingKeysPerAccount : UInt8) : AccountState → Prop where
  | create (address : Address) (height : Height) : Built maxVotingKeysPerAccount (.create address height)
  | change {state next : AccountState} {modification : Modification} (built : Built maxVotingKeysPerAccount state)
      (permitted : Permitted maxVotingKeysPerAccount state modification) (changed : modify state modification = .ok next) :
      Built maxVotingKeysPerAccount next
  | optimize {state next : AccountState} {id : MosaicId} (built : Built maxVotingKeysPerAccount state)
      (optimized : state.optimize id = .ok next) : Built maxVotingKeysPerAccount next
  | copy {state next : AccountState} (built : Built maxVotingKeysPerAccount state) (copied : state.copy = .ok next) :
      Built maxVotingKeysPerAccount next
  | reload {state next : AccountState} (built : Built maxVotingKeysPerAccount state) (reloaded : reload state = .ok next) :
      Built maxVotingKeysPerAccount next

/-- An account of the cache is added, found for changes, copied and reloaded any number of times. -/
inductive Cached (currencyMosaicId : MosaicId) (maxVotingKeysPerAccount : UInt8) : AccountState → Prop where
  | add {state next : AccountState} (built : Built maxVotingKeysPerAccount state)
      (added : addAccount currencyMosaicId state = .ok next) : Cached currencyMosaicId maxVotingKeysPerAccount next
  | find {state found next : AccountState} {modifications : List Modification}
      (cached : Cached currencyMosaicId maxVotingKeysPerAccount state)
      (prepared : prepareMutableIterator currencyMosaicId state = .ok found)
      (permitted : Runs.Meets modify (Permitted maxVotingKeysPerAccount) found modifications)
      (changed : modifications.foldlM modify found = .ok next) : Cached currencyMosaicId maxVotingKeysPerAccount next
  | copy {state next : AccountState} (cached : Cached currencyMosaicId maxVotingKeysPerAccount state)
      (copied : state.copy = .ok next) : Cached currencyMosaicId maxVotingKeysPerAccount next
  | reload {state next : AccountState} (cached : Cached currencyMosaicId maxVotingKeysPerAccount state)
      (reloaded : reload state = .ok next) : Cached currencyMosaicId maxVotingKeysPerAccount next

/-- The keys of an account as a set, its balances as a finite map, and its values in their order. -/
structure LogicalState where
  address : Address
  addressHeight : Height
  publicKey : Key
  publicKeyHeight : Height
  accountType : AccountType
  linked : Key
  node : Key
  vrf : VrfPublicKey
  voting : Set PinnedVotingKey
  snapshots : List ImportanceSnapshot
  buckets : List ActivityBucket
  balances : MosaicId → Option Mosaic

def AccountState.logical (state : AccountState) : LogicalState where
  address := state.address
  addressHeight := state.addressHeight
  publicKey := state.publicKey
  publicKeyHeight := state.publicKeyHeight
  accountType := state.accountType
  linked := getKey state.supplementalPublicKeys.linked
  node := getKey state.supplementalPublicKeys.node
  vrf := getKey state.supplementalPublicKeys.vrf
  voting := { key | key ∈ state.supplementalPublicKeys.voting }
  snapshots := state.importanceSnapshots.toList
  buckets := state.activityBuckets.toList
  balances := state.balances.balances.find

/-- The keys of an account are ordered and few, and its balances show entries. -/
structure Orderly (optimized : MosaicId) (state : AccountState) (entries : List Mosaic) : Prop where
  shows : Shows optimized state.balances entries
  voting : VotingOrdered state.supplementalPublicKeys.voting
  few : state.supplementalPublicKeys.voting.length < 256

variable {optimized : MosaicId} {maxVotingKeysPerAccount : UInt8} {state next : AccountState} {entries : List Mosaic}

theorem orderly_modify {modification : Modification} (orderly : Orderly optimized state entries)
    (permitted : Permitted maxVotingKeysPerAccount state modification) (changed : modify state modification = .ok next) :
    ∃ arranged, Orderly optimized next arranged := by
  cases modification with
  | credit id amount =>
    obtain ⟨balances, credited, rfl⟩ := map_eq_ok changed
    obtain ⟨arranged, shows⟩ := orderly.shows.credit credited
    exact ⟨arranged, shows, orderly.voting, orderly.few⟩
  | debit id amount =>
    obtain ⟨balances, debited, rfl⟩ := map_eq_ok changed
    obtain ⟨arranged, shows⟩ := orderly.shows.debit debited
    exact ⟨arranged, shows, orderly.voting, orderly.few⟩
  | addVotingKey key =>
    obtain ⟨voting, added, rfl⟩ := map_eq_ok changed
    obtain ⟨ordered, length⟩ := addVotingKey_ordered orderly.voting permitted.1 added
    have room := permitted.2
    have bound := maxVotingKeysPerAccount.toNat_lt
    exact ⟨entries, orderly.shows, ordered, by
      change voting.length < 256
      omega⟩
  | removeVotingKey key =>
    cases changed
    exact ⟨entries, orderly.shows, orderly.voting.sublist List.erase_sublist, (List.erase_sublist.length_le).trans_lt orderly.few⟩
  | replace other =>
    cases changed
    exact ⟨entries, orderly.shows, orderly.voting, orderly.few⟩

theorem orderly_optimize {id : MosaicId} (orderly : Orderly optimized state entries) (ran : state.optimize id = .ok next) :
    ∃ arranged, Orderly id next arranged := by
  obtain ⟨balances, optimizedNow, rfl⟩ := map_eq_ok ran
  obtain ⟨arranged, shows, _⟩ := orderly.shows.optimize optimizedNow
  exact ⟨arranged, shows, orderly.voting, orderly.few⟩

theorem orderly_copy (orderly : Orderly optimized state entries) (copied : state.copy = .ok next) : next = state := by
  obtain ⟨balances, copiedBalances, rfl⟩ := map_eq_ok copied
  rw [orderly.shows.copy] at copiedBalances
  cases copiedBalances
  rfl

/-- A reload keeps the order of the mosaics. -/
theorem orderly_reload (orderly : Orderly optimized state entries) (reloaded : reload state = .ok next) :
    ∃ first kept, Orderly first next kept ∧ kept.Sublist entries := by
  obtain ⟨voting, credited⟩ := reload_keeps orderly.shows orderly.voting orderly.few reloaded
  have part := List.take_sublist (readCount entries) entries
  obtain ⟨balances, read, shows⟩ := creditAll_order (orderly.shows.holds.layered.sublist part)
  obtain rfl : balances = next.balances := Except.ok.inj (read.symm.trans credited)
  exact ⟨_, _, ⟨shows, voting ▸ orderly.voting, voting ▸ orderly.few⟩, List.filter_sublist.trans part⟩

theorem Built.orderly (built : Built maxVotingKeysPerAccount state) : ∃ optimized entries, Orderly optimized state entries := by
  induction built with
  | create address height => exact ⟨0, [], shows_empty, ⟨nofun, List.Pairwise.nil⟩, Nat.zero_lt_succ 255⟩
  | change _ permitted changed ih =>
    obtain ⟨optimized, entries, orderly⟩ := ih
    exact ⟨optimized, orderly_modify orderly permitted changed⟩
  | optimize _ ran ih =>
    obtain ⟨optimized, entries, orderly⟩ := ih
    exact ⟨_, orderly_optimize orderly ran⟩
  | copy _ copied ih =>
    obtain ⟨optimized, entries, orderly⟩ := ih
    exact ⟨optimized, entries, orderly_copy orderly copied ▸ orderly⟩
  | reload _ reloaded ih =>
    obtain ⟨optimized, entries, orderly⟩ := ih
    obtain ⟨first, kept, orderlyNext, _⟩ := orderly_reload orderly reloaded
    exact ⟨first, kept, orderlyNext⟩

/-- The mosaics of an account in the cache have the currency mosaic first, also if another one is optimized. -/
theorem Cached.orderly {currencyMosaicId : MosaicId} (cached : Cached currencyMosaicId maxVotingKeysPerAccount state) :
    ∃ optimized entries, Orderly optimized state entries ∧ Sorted currencyMosaicId entries := by
  induction cached with
  | add built added =>
    obtain ⟨optimized, entries, orderly⟩ := built.orderly
    obtain ⟨inserted, copied, ran⟩ := Runs.bind_eq_ok.mp added
    obtain ⟨arranged, orderlyNext⟩ := orderly_optimize (orderly_copy orderly copied ▸ orderly) ran
    exact ⟨currencyMosaicId, arranged, orderlyNext, orderlyNext.shows.sorted⟩
  | find _ prepared permitted changed ih =>
    obtain ⟨optimized, entries, orderly, _⟩ := ih
    obtain ⟨arranged, orderlyNext⟩ := @Runs.invariant _ _ _ modify (Permitted maxVotingKeysPerAccount)
      (fun state => ∃ arranged, Orderly currencyMosaicId state arranged)
      (fun _ _ _ ⟨_, orderly⟩ permitted stepped => orderly_modify orderly permitted stepped) _ _ _
      (orderly_optimize orderly prepared) permitted changed
    exact ⟨currencyMosaicId, arranged, orderlyNext, orderlyNext.shows.sorted⟩
  | copy _ copied ih =>
    obtain ⟨optimized, entries, orderly, sorted⟩ := ih
    exact ⟨optimized, entries, orderly_copy orderly copied ▸ orderly, sorted⟩
  | reload _ reloaded ih =>
    obtain ⟨optimized, entries, orderly, sorted⟩ := ih
    obtain ⟨first, kept, orderlyNext, part⟩ := orderly_reload orderly reloaded
    exact ⟨first, kept, orderlyNext, sorted.sublist part⟩

/-- The entries of balances are those that are found. -/
theorem Shows.mem_iff {optimized : MosaicId} {balances : AccountBalances} {entries : List Mosaic}
    (shows : Shows optimized balances entries) (entry : Mosaic) :
    entry ∈ entries ↔ balances.balances.find entry.1 = some entry := by
  rw [find_eq shows.holds]
  constructor
  · intro member
    cases found : entries.find? fun other => other.1 = entry.1 with
    | none => exact absurd (decide_eq_true rfl) (List.find?_eq_none.mp found entry member)
    | some other =>
      have same : other.1 = entry.1 := by simpa using List.find?_some found
      rw [shows.holds.layered.eq_of_key (List.mem_of_find?_eq_some found) member same]
  · exact fun found => List.mem_of_find?_eq_some found

theorem front_eq {T : Type} {size : Nat} [Inhabited T] (stack : CompactArrayStack T size) :
    stack.front = stack.toList.headD default := by
  unfold CompactArrayStack.front CompactArrayStack.toList
  cases stack.values with
  | cons top values => rfl
  | nil => cases size <;> rfl

theorem writeSupplementalPublicKeys_congr {lhs rhs : AccountPublicKeys} (linked : getKey lhs.linked = getKey rhs.linked)
    (node : getKey lhs.node = getKey rhs.node) (vrf : getKey lhs.vrf = getKey rhs.vrf) (voting : lhs.voting = rhs.voting) :
    writeSupplementalPublicKeys lhs = writeSupplementalPublicKeys rhs := by
  unfold writeSupplementalPublicKeys writeKey AccountPublicKeys.mask isSet
  rw [linked, node, vrf, voting]

/-- The bytes of an account are read off its logical state and the order of its keys and mosaics. -/
theorem save_congr {lhs rhs : AccountState} (same : lhs.logical = rhs.logical)
    (sameVoting : lhs.supplementalPublicKeys.voting = rhs.supplementalPublicKeys.voting)
    (sameSize : lhs.balances.size = rhs.balances.size) (sameOrder : lhs.balances.toList = rhs.balances.toList) :
    save lhs = save rhs ∧ saveNonHistorical lhs = saveNonHistorical rhs := by
  have snapshots : lhs.importanceSnapshots.toList = rhs.importanceSnapshots.toList := congrArg LogicalState.snapshots same
  have buckets : lhs.activityBuckets.toList = rhs.activityBuckets.toList := congrArg LogicalState.buckets same
  have active : AccountImportanceSnapshots.active lhs.importanceSnapshots =
      AccountImportanceSnapshots.active rhs.importanceSnapshots := by
    unfold AccountImportanceSnapshots.active AccountImportanceSnapshots.height
    rw [front_eq, front_eq, snapshots]
  have keys := writeSupplementalPublicKeys_congr (congrArg LogicalState.linked same) (congrArg LogicalState.node same)
    (congrArg LogicalState.vrf same) sameVoting
  have address : lhs.address = rhs.address := congrArg LogicalState.address same
  have addressHeight : lhs.addressHeight = rhs.addressHeight := congrArg LogicalState.addressHeight same
  have publicKey : lhs.publicKey = rhs.publicKey := congrArg LogicalState.publicKey same
  have publicKeyHeight : lhs.publicKeyHeight = rhs.publicKeyHeight := congrArg LogicalState.publicKeyHeight same
  have accountType : lhs.accountType = rhs.accountType := congrArg LogicalState.accountType same
  have nonHistorical : saveNonHistorical lhs = saveNonHistorical rhs := by
    unfold saveNonHistorical formatByte
    rw [address, addressHeight, publicKey, publicKeyHeight, accountType, active, keys, snapshots, buckets, sameSize, sameOrder]
  refine ⟨?_, nonHistorical⟩
  unfold save
  rw [nonHistorical, active, snapshots, buckets]

/-- Accounts of the cache with the same logical state have the same bytes. -/
theorem cached_bytes_canonical {currencyMosaicId : MosaicId} {maxVotingKeysPerAccount : UInt8} {lhs rhs : AccountState}
    (cachedLhs : Cached currencyMosaicId maxVotingKeysPerAccount lhs)
    (cachedRhs : Cached currencyMosaicId maxVotingKeysPerAccount rhs) (same : lhs.logical = rhs.logical) :
    save lhs = save rhs ∧ saveNonHistorical lhs = saveNonHistorical rhs := by
  obtain ⟨_, entriesLhs, orderlyLhs, sortedLhs⟩ := cachedLhs.orderly
  obtain ⟨_, entriesRhs, orderlyRhs, sortedRhs⟩ := cachedRhs.orderly
  have voting : lhs.supplementalPublicKeys.voting = rhs.supplementalPublicKeys.voting :=
    orderlyLhs.voting.unique orderlyRhs.voting fun key => Set.ext_iff.mp (congrArg LogicalState.voting same) key
  have entries : entriesLhs = entriesRhs := by
    refine sortedLhs.unique sortedRhs fun entry => ?_
    have found : lhs.balances.balances.find entry.1 = rhs.balances.balances.find entry.1 :=
      congrFun (congrArg LogicalState.balances same) entry.1
    rw [orderlyLhs.shows.mem_iff, orderlyRhs.shows.mem_iff, found]
  refine save_congr same voting ?_ ?_
  · rw [orderlyLhs.shows.size, orderlyRhs.shows.size, entries]
  · rw [orderlyLhs.shows.toList, orderlyRhs.shows.toList, entries]

namespace Samples

def account : AccountState := .create (Vector.replicate 24 7) 1

/-- The account holds two mosaics and optimizes the currency mosaic. -/
def holder : AccountState := { account with balances := ⟨⟨⟨(5, 3), some ⟨[(7, 10)], none⟩⟩, 5⟩, 5⟩ }

/-- An empty bucket was pushed. -/
def shifted : AccountState := { holder with activityBuckets := AccountActivityBuckets.pushEmpty holder.activityBuckets }

theorem holder_cached : Cached 5 3 holder :=
  have added : Cached 5 3 { account with balances := ⟨⟨⟨(0, 0), none⟩, 5⟩, 5⟩ } := .add (.create (Vector.replicate 24 7) 1) rfl
  have credits : Runs.Meets modify (Permitted 3) _ [.credit 7 10, .credit 5 3] :=
    ⟨trivial, fun _ _ => ⟨trivial, fun _ _ => trivial⟩⟩
  .find added rfl credits rfl

theorem shifted_cached : Cached 5 3 shifted :=
  have credited : Built 3 { account with balances := ⟨⟨⟨(7, 10), none⟩, 0⟩, 0⟩ } :=
    @Built.change _ _ _ (.credit 7 10) (.create (Vector.replicate 24 7) 1) trivial rfl
  have optimized : Built 3 { account with balances := ⟨⟨⟨(7, 10), none⟩, 7⟩, 7⟩ } := @Built.optimize _ _ _ 7 credited rfl
  have added : Cached 5 3 { account with balances := ⟨⟨⟨(7, 10), none⟩, 5⟩, 5⟩ } := .add optimized rfl
  have changes : Runs.Meets modify (Permitted 3) _ [.credit 5 3, .replace shifted] :=
    ⟨trivial, fun _ _ => ⟨trivial, fun _ _ => trivial⟩⟩
  .find added rfl changes rfl

theorem holder_ne_shifted : holder ≠ shifted := fun same =>
  absurd (congrArg (fun state : AccountState => state.activityBuckets.values.length) same) (by decide)

end Samples

/-- Two histories of an account lead to the same bytes. -/
theorem cached_bytes_canonical_orders : Samples.holder ≠ Samples.shifted ∧ save Samples.holder = save Samples.shifted :=
  ⟨Samples.holder_ne_shifted, (cached_bytes_canonical Samples.holder_cached Samples.shifted_cached rfl).1⟩

end Catapult.State
