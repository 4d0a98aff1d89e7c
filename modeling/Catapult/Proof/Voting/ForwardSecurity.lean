import Catapult.Construction.Voting.BmPrivateKeyTree
import Catapult.Library.Runs

/-
This file proves which keys a tree wipes in memory and in its storage, that votes verify and that no key below a used one is left.
-/

namespace Catapult.Voting

open Finalization

theorem isIdLessThan_eq_true {lhs rhs : Nat} (valid : rhs < invalidId) :
    isIdLessThan lhs rhs = true ↔ lhs = invalidId ∨ lhs < rhs := by
  unfold isIdLessThan
  simp only [Bool.or_eq_true, decide_eq_true_eq]
  split
  · constructor
    · intro impossible
      cases impossible
    · omega
  · simp

theorem isIdLessThan_of_le {lhs rhs : Nat} (valid : lhs < invalidId) (above : rhs ≤ lhs) : isIdLessThan lhs rhs = false := by
  rw [← Bool.not_eq_true, isIdLessThan_eq_true (by omega)]
  omega

theorem isIdLessThan_invalidId (lhs : Nat) : isIdLessThan lhs invalidId = false := by
  simp [isIdLessThan]

/-- An identifier of the tree is allowed if it is not below the reference. -/
theorem check_eq_true {options : BmOptions} {keyIdentifier reference : Nat} :
    BmPrivateKeyTree.check options keyIdentifier reference = true ↔
      isIdLessThan keyIdentifier reference = false ∧ options.startKeyIdentifier ≤ keyIdentifier ∧
        keyIdentifier ≤ options.endKeyIdentifier := by
  have valid := options.valid
  have ordered := options.ordered
  have start := @isIdLessThan_eq_true keyIdentifier options.startKeyIdentifier (by omega)
  have last := @isIdLessThan_eq_true keyIdentifier options.endKeyIdentifier valid
  unfold BmPrivateKeyTree.check
  cases less : isIdLessThan keyIdentifier reference with
  | true => simp
  | false =>
    cases below : isIdLessThan keyIdentifier options.startKeyIdentifier with
    | true =>
      rw [below] at start
      have := start.mp rfl
      simp
      omega
    | false =>
      rw [below] at start
      simp only [Bool.false_eq_true, false_iff] at start
      cases inside : isIdLessThan keyIdentifier options.endKeyIdentifier with
      | true =>
        rw [inside] at last
        have := last.mp rfl
        simp
        omega
      | false =>
        rw [inside] at last
        simp only [Bool.false_eq_true, false_iff] at last
        simp
        omega

/-- Entries that are changed several times are changed once if the change has no further effect. -/
theorem getElem?_foldl_modify {α β : Type} {change : α → α} (idempotent : ∀ entry, change (change entry) = change entry)
    (place : β → Nat) (places : List β) (entries : List α) (index : Nat) :
    (places.foldl (fun entries current => entries.modify (place current) change) entries)[index]? =
      if index ∈ places.map place then entries[index]?.map change else entries[index]? := by
  induction places generalizing entries with
  | nil => simp
  | cons current places ih =>
    rw [List.foldl_cons, ih, List.getElem?_modify, List.map_cons]
    by_cases here : place current = index
    · subst here
      cases entries[place current]? with
      | none => simp
      | some entry => simp [idempotent entry]
    · simp [here, Ne.symm here]

theorem length_foldl_modify {α β : Type} (change : α → α) (place : β → Nat) (places : List β) (entries : List α) :
    (places.foldl (fun entries current => entries.modify (place current) change) entries).length = entries.length := by
  induction places generalizing entries with
  | nil => rfl
  | cons current places ih => rw [List.foldl_cons, ih, List.length_modify]

/-- The stored key of an identifier. -/
def KeyTreeStorage.keyAt (storage : KeyTreeStorage) (identifier : Nat) : Option StoredKey :=
  storage.entries[storage.options.endKeyIdentifier - identifier]?

theorem wipe_keyAt {level : Level} {identifier other : Nat} (inside : identifier ≤ level.endIdentifier)
    (start : level.startIdentifier ≤ other) (last : other ≤ level.endIdentifier) : (level.wipe identifier).keyAt other =
      if other ≤ identifier then (level.keyAt other).map Level.detachKeyPair else level.keyAt other := by
  unfold Level.wipe Level.keyAt
  dsimp only
  rw [@getElem?_foldl_modify _ _ Level.detachKeyPair (fun _ => rfl) (fun current => level.endIdentifier - current)]
  refine if_congr ?_ rfl rfl
  rw [List.mem_map]
  constructor
  · rintro ⟨current, member, same⟩
    rw [List.mem_range'_1] at member
    omega
  · intro below
    refine ⟨other, ?_, rfl⟩
    rw [List.mem_range'_1]
    omega

theorem foldl_wipeIndex_entries (places : List Nat) (storage : KeyTreeStorage) :
    (places.foldl KeyTreeStorage.wipeIndex storage).entries =
        places.foldl (fun entries index => entries.modify index wipeSignedPrivateKey) storage.entries ∧
      (places.foldl KeyTreeStorage.wipeIndex storage).options = storage.options ∧
      (places.foldl KeyTreeStorage.wipeIndex storage).lastKeyIdentifier = storage.lastKeyIdentifier ∧
      (places.foldl KeyTreeStorage.wipeIndex storage).lastWipeKeyIdentifier = storage.lastWipeKeyIdentifier ∧
      (places.foldl KeyTreeStorage.wipeIndex storage).parentPublicKey = storage.parentPublicKey := by
  induction places generalizing storage with
  | nil => exact ⟨rfl, rfl, rfl, rfl, rfl⟩
  | cons index places ih => exact ih (storage.wipeIndex index)

/-- The size of the level in memory is the number of the stored keys. -/
structure Sized (tree : BmPrivateKeyTree) : Prop where
  startIdentifier : tree.level.startIdentifier = tree.options.startKeyIdentifier
  endIdentifier : tree.level.endIdentifier = tree.options.endKeyIdentifier
  storage : tree.storage.options = tree.options
  length : tree.level.levelSignedPrivateKeys.length = tree.storage.entries.length

/-- What a wipe up to an identifier leaves of a tree. -/
structure WipedTo (identifier : Nat) (before after : BmPrivateKeyTree) : Prop where
  options : after.options = before.options
  lastKeyIdentifier : after.lastKeyIdentifier = before.lastKeyIdentifier
  storedLastKeyIdentifier : after.storage.lastKeyIdentifier = before.storage.lastKeyIdentifier
  storedLastWipeKeyIdentifier : after.storage.lastWipeKeyIdentifier = before.storage.lastWipeKeyIdentifier
  parentPublicKey : after.level.parentPublicKey = before.level.parentPublicKey
  storedParentPublicKey : after.storage.parentPublicKey = before.storage.parentPublicKey
  sized : Sized after
  keys : ∀ other, before.options.startKeyIdentifier ≤ other → other ≤ before.options.endKeyIdentifier → after.level.keyAt other =
      if other ≤ identifier then (before.level.keyAt other).map Level.detachKeyPair else before.level.keyAt other
  entries : ∀ other, before.options.startKeyIdentifier ≤ other → other ≤ before.options.endKeyIdentifier →
    after.storage.keyAt other =
      if other ≤ identifier then (before.storage.keyAt other).map wipeSignedPrivateKey
      else before.storage.keyAt other

theorem wipeKey_wipedTo {tree : BmPrivateKeyTree} (sized : Sized tree) {identifier : Nat}
    (inside : identifier ≤ tree.options.endKeyIdentifier) : WipedTo identifier tree (tree.wipeKey identifier) := by
  obtain ⟨startIdentifier, endIdentifier, stored, length⟩ := sized
  let index := tree.level.endIdentifier - identifier
  let size := tree.level.levelSignedPrivateKeys.length
  obtain ⟨entries, options, lastKey, lastWipe, parent⟩ :=
    foldl_wipeIndex_entries (List.range' (index + 1) (size - (index + 1)) ++ [index]) tree.storage
  rw [List.foldl_append] at entries options lastKey lastWipe parent
  have count := tree.storage.full
  refine ⟨rfl, rfl, lastKey, lastWipe, rfl, parent, ⟨startIdentifier, endIdentifier, options.trans stored, ?_⟩, ?_, ?_⟩
  · refine (length_foldl_modify _ _ _ _).trans ?_
    rw [length]
    refine Eq.trans ?_ (congrArg List.length entries).symm
    exact (length_foldl_modify _ id _ _).symm
  · intro other start last
    exact wipe_keyAt (by omega) (by omega) (by omega)
  · intro other start last
    have whole : (tree.wipeKey identifier).storage.entries = _ := entries
    have same : (tree.wipeKey identifier).storage.options = tree.storage.options := options
    unfold KeyTreeStorage.keyAt
    rw [whole, same]
    refine (@getElem?_foldl_modify _ _ wipeSignedPrivateKey (fun _ => rfl) id _ _ _).trans ?_
    refine if_congr ?_ rfl rfl
    rw [List.map_id, List.mem_append, List.mem_range'_1, List.mem_singleton, stored]
    rw [stored] at count
    omega

theorem map_detachKeyPair_twice (key : Option SignedPrivateKey) :
    (key.map Level.detachKeyPair).map Level.detachKeyPair = key.map Level.detachKeyPair := by
  cases key with
  | none => rfl
  | some key => rfl

theorem map_wipeSignedPrivateKey_twice (entry : Option StoredKey) :
    (entry.map wipeSignedPrivateKey).map wipeSignedPrivateKey = entry.map wipeSignedPrivateKey := by
  cases entry with
  | none => rfl
  | some entry => rfl

theorem WipedTo.trans {lower upper : Nat} {before middle after : BmPrivateKeyTree}
    (first : WipedTo lower before middle) (second : WipedTo upper middle after) (rises : lower ≤ upper) :
    WipedTo upper before after where
  options := second.options.trans first.options
  lastKeyIdentifier := second.lastKeyIdentifier.trans first.lastKeyIdentifier
  storedLastKeyIdentifier := second.storedLastKeyIdentifier.trans first.storedLastKeyIdentifier
  storedLastWipeKeyIdentifier := second.storedLastWipeKeyIdentifier.trans first.storedLastWipeKeyIdentifier
  parentPublicKey := second.parentPublicKey.trans first.parentPublicKey
  storedParentPublicKey := second.storedParentPublicKey.trans first.storedParentPublicKey
  sized := second.sized
  keys := by
    intro other start last
    rw [second.keys other (first.options ▸ start) (first.options ▸ last), first.keys other start last]
    by_cases below : other ≤ lower
    · have upTo := Nat.le_trans below rises
      rw [if_pos below, if_pos upTo, if_pos upTo, map_detachKeyPair_twice]
    · rw [if_neg below]
  entries := by
    intro other start last
    rw [second.entries other (first.options ▸ start) (first.options ▸ last), first.entries other start last]
    by_cases below : other ≤ lower
    · have upTo := Nat.le_trans below rises
      rw [if_pos below, if_pos upTo, if_pos upTo, map_wipeSignedPrivateKey_twice]
    · rw [if_neg below]

/-- A loop over identifiers wipes all keys up to the last one. -/
theorem foldl_wipeKey_wipedTo {tree : BmPrivateKeyTree} (sized : Sized tree) {start count : Nat}
    (inside : start + count ≤ tree.options.endKeyIdentifier) :
    WipedTo (start + count) tree ((List.range' start (count + 1)).foldl BmPrivateKeyTree.wipeKey tree) := by
  induction count with
  | zero => exact wipeKey_wipedTo sized inside
  | succ count ih =>
    have before := ih (by omega)
    rw [List.range'_1_concat, List.foldl_append]
    refine before.trans (wipeKey_wipedTo before.sized ?_) (by omega)
    rw [before.options]
    omega

/-- An identifier belongs to a tree. -/
def BmOptions.Covers (options : BmOptions) (identifier : Nat) : Prop :=
  options.startKeyIdentifier ≤ identifier ∧ identifier ≤ options.endKeyIdentifier

/-- The key of an identifier is wiped in a storage. -/
def ZeroAt (storage : KeyTreeStorage) (identifier : Nat) : Prop :=
  ∀ entry, storage.keyAt identifier = some entry → entry.privateKey = zeroPrivateKey

/-- A storage keeps its keys or loses them. -/
structure Shrinks (before after : KeyTreeStorage) : Prop where
  options : after.options = before.options
  entries : ∀ identifier, before.options.Covers identifier → after.keyAt identifier = before.keyAt identifier ∨
      after.keyAt identifier = (before.keyAt identifier).map wipeSignedPrivateKey

theorem Shrinks.refl (storage : KeyTreeStorage) : Shrinks storage storage :=
  ⟨rfl, fun _ _ => .inl rfl⟩

theorem zeroAt_map_wipe {before after : KeyTreeStorage} {identifier : Nat}
    (wiped : after.keyAt identifier = (before.keyAt identifier).map wipeSignedPrivateKey) : ZeroAt after identifier := by
  intro entry found
  rw [wiped, Option.map_eq_some_iff] at found
  obtain ⟨old, -, rfl⟩ := found
  rfl

theorem Shrinks.zeroAt {before after : KeyTreeStorage} (shrinks : Shrinks before after) {identifier : Nat}
    (covered : before.options.Covers identifier) (zero : ZeroAt before identifier) : ZeroAt after identifier := by
  rcases shrinks.entries identifier covered with same | wiped
  · intro entry found
    exact zero entry (same ▸ found)
  · exact zeroAt_map_wipe wiped

theorem Shrinks.trans {first second third : KeyTreeStorage} (lower : Shrinks first second)
    (upper : Shrinks second third) : Shrinks first third := by
  refine ⟨upper.options.trans lower.options, ?_⟩
  intro identifier covered
  rcases lower.entries identifier covered with same | wiped
  · rcases upper.entries identifier (lower.options ▸ covered) with sameAgain | wiped
    · exact .inl (sameAgain.trans same)
    · exact .inr (by rw [wiped, same])
  · rcases upper.entries identifier (lower.options ▸ covered) with same | wipedAgain
    · exact .inr (same.trans wiped)
    · exact .inr (by rw [wipedAgain, wiped, map_wipeSignedPrivateKey_twice])

/-- No storage gets a key that it did not have. -/
def AllShrink (before after : List KeyTreeStorage) : Prop :=
  ∀ storage ∈ after, ∃ old ∈ before, Shrinks old storage

theorem AllShrink.refl (storages : List KeyTreeStorage) : AllShrink storages storages :=
  fun storage member => ⟨storage, member, Shrinks.refl storage⟩

theorem AllShrink.trans {first second third : List KeyTreeStorage} (lower : AllShrink first second)
    (upper : AllShrink second third) : AllShrink first third := by
  intro storage member
  obtain ⟨middle, memberMiddle, shrinksAgain⟩ := upper storage member
  obtain ⟨old, memberOld, shrinks⟩ := lower middle memberMiddle
  exact ⟨old, memberOld, shrinks.trans shrinksAgain⟩

theorem AllShrink.replace {front back : List KeyTreeStorage} {old new : KeyTreeStorage} (shrinks : Shrinks old new) :
    AllShrink (front ++ [old] ++ back) (front ++ [new] ++ back) := by
  intro storage member
  rw [List.mem_append, List.mem_append, List.mem_singleton] at member
  rcases member with (early | rfl) | late
  · exact ⟨storage, by simp [early], Shrinks.refl storage⟩
  · exact ⟨old, by simp, shrinks⟩
  · exact ⟨storage, by simp [late], Shrinks.refl storage⟩

section Trees

variable [VotingSigner]

def TreeSeed.keyOf (seed : TreeSeed) (identifier : Nat) : VotingPrivateKey :=
  seed.privateKeys.getD (seed.options.endKeyIdentifier - identifier) zeroPrivateKey

/-- The root key has signed the public key of an identifier. -/
def TreeSeed.signatureOf (seed : TreeSeed) (identifier : Nat) : VotingSignature :=
  VotingSigner.sign seed.rootPrivateKey (VotingSigner.extractPublicKey seed.rootPrivateKey)
    ((VotingSigner.extractPublicKey (seed.keyOf identifier)).toList ++ toBytes 8 identifier)

/-- A stored key is the key of the tree or it is wiped. -/
structure EntryOk (seed : TreeSeed) (identifier : Nat) (entry : StoredKey) : Prop where
  signature : entry.signature = seed.signatureOf identifier
  privateKey : entry.privateKey = zeroPrivateKey ∨ entry.privateKey = seed.keyOf identifier

structure StorageOk (seed : TreeSeed) (storage : KeyTreeStorage) : Prop where
  options : storage.options = seed.options
  parentPublicKey : storage.parentPublicKey = VotingSigner.extractPublicKey seed.rootPrivateKey
  lastWipeKeyIdentifier : storage.lastWipeKeyIdentifier = invalidId
  lastKeyIdentifier : storage.lastKeyIdentifier = invalidId ∨ seed.options.Covers storage.lastKeyIdentifier
  entries : ∀ identifier, seed.options.Covers identifier →
    ∃ entry, storage.keyAt identifier = some entry ∧ EntryOk seed identifier entry

/-- The keys in memory and in the storage are the same. -/
structure TreeOk (seed : TreeSeed) (tree : BmPrivateKeyTree) : Prop where
  options : tree.options = seed.options
  sized : Sized tree
  stored : StorageOk seed tree.storage
  lastKeyIdentifier : tree.lastKeyIdentifier = tree.storage.lastKeyIdentifier
  parentPublicKey : tree.level.parentPublicKey = VotingSigner.extractPublicKey seed.rootPrivateKey
  keys : ∀ identifier entry, seed.options.Covers identifier → tree.storage.keyAt identifier = some entry →
    ∃ key, tree.level.keyAt identifier = some key ∧ key.signature = entry.signature ∧ key.keyPair.privateKey = entry.privateKey ∧
      (entry.privateKey ≠ zeroPrivateKey → key.keyPair.publicKey = VotingSigner.extractPublicKey entry.privateKey)
  lastWipe : tree.lastWipeKeyIdentifier = invalidId ∨ seed.options.Covers tree.lastWipeKeyIdentifier
  wiped : tree.lastWipeKeyIdentifier ≠ invalidId → ∀ identifier, seed.options.Covers identifier →
    identifier ≤ tree.lastWipeKeyIdentifier → ZeroAt tree.storage identifier

/-- Only keys below the last used one are wiped in the tree in use. -/
def WipesBelowLast (tree : BmPrivateKeyTree) : Prop :=
  tree.lastWipeKeyIdentifier = invalidId ∨
    (tree.lastKeyIdentifier ≠ invalidId ∧ tree.lastWipeKeyIdentifier < tree.lastKeyIdentifier)

/-- Loading a storage gives a tree with the same keys. -/
theorem fromStream_ok {seed : TreeSeed} {storage : KeyTreeStorage} (ok : StorageOk seed storage) :
    TreeOk seed (.fromStream storage) ∧ WipesBelowLast (.fromStream storage) := by
  refine ⟨?_, .inl ok.lastWipeKeyIdentifier⟩
  exact {
    options := ok.options
    sized := ⟨rfl, rfl, rfl, List.length_map _⟩
    stored := ok
    lastKeyIdentifier := rfl
    parentPublicKey := ok.parentPublicKey
    keys := by
      intro identifier entry covered found
      refine ⟨⟨.fromPrivate entry.privateKey, entry.signature⟩, ?_, rfl, rfl, fun _ => rfl⟩
      have found : storage.entries[storage.options.endKeyIdentifier - identifier]? = some entry := found
      simp [BmPrivateKeyTree.fromStream, Level.fromStream, Level.keyAt, found]
    lastWipe := .inl ok.lastWipeKeyIdentifier
    wiped := fun used => absurd ok.lastWipeKeyIdentifier used }

/-- A new tree holds all its keys. -/
theorem create_ok (seed : TreeSeed) : StorageOk seed seed.create where
  options := rfl
  parentPublicKey := rfl
  lastWipeKeyIdentifier := rfl
  lastKeyIdentifier := .inl rfl
  entries := by
    intro identifier covered
    have inside : seed.options.endKeyIdentifier - identifier < seed.privateKeys.length := by
      rw [seed.full]
      have := covered.1
      have := covered.2
      omega
    have key : seed.keyOf identifier = seed.privateKeys[seed.options.endKeyIdentifier - identifier] := by
      rw [TreeSeed.keyOf, List.getD_eq_getElem?_getD, List.getElem?_eq_getElem inside]
      rfl
    have back : seed.options.endKeyIdentifier - (seed.options.endKeyIdentifier - identifier) = identifier := by
      have := covered.2
      omega
    refine ⟨⟨seed.keyOf identifier, seed.signatureOf identifier⟩, ?_, rfl, .inr rfl⟩
    unfold KeyTreeStorage.keyAt TreeSeed.create
    dsimp only
    rw [List.getElem?_mapIdx, List.getElem?_eq_getElem inside, Option.map_some, back, ← key]
    rfl

theorem StorageOk.wipedTo {seed : TreeSeed} {before after : BmPrivateKeyTree} {identifier : Nat}
    (ok : StorageOk seed before.storage) (options : before.options = seed.options)
    (wiped : WipedTo identifier before after) : StorageOk seed after.storage where
  options := (wiped.sized.storage.trans wiped.options).trans options
  parentPublicKey := wiped.storedParentPublicKey.trans ok.parentPublicKey
  lastWipeKeyIdentifier := wiped.storedLastWipeKeyIdentifier.trans ok.lastWipeKeyIdentifier
  lastKeyIdentifier := by
    rw [wiped.storedLastKeyIdentifier]
    exact ok.lastKeyIdentifier
  entries := by
    intro other covered
    obtain ⟨entry, found, entryOk⟩ := ok.entries other covered
    rw [wiped.entries other (options ▸ covered.1) (options ▸ covered.2), found]
    split
    · exact ⟨wipeSignedPrivateKey entry, rfl, entryOk.signature, .inl rfl⟩
    · exact ⟨entry, rfl, entryOk⟩

/-- The keys in memory and in the storage are wiped alike. -/
theorem TreeOk.wipedTo {seed : TreeSeed} {before after : BmPrivateKeyTree} {identifier : Nat}
    (ok : TreeOk seed before) (wiped : WipedTo identifier before after) (covered : seed.options.Covers identifier) :
    TreeOk seed { after with lastWipeKeyIdentifier := identifier } := by
  have entryOf (other : Nat) (inside : seed.options.Covers other) :=
    wiped.entries other (ok.options ▸ inside.1) (ok.options ▸ inside.2)
  exact {
    options := wiped.options.trans ok.options
    sized := ⟨wiped.sized.startIdentifier, wiped.sized.endIdentifier, wiped.sized.storage, wiped.sized.length⟩
    stored := (ok.stored.wipedTo ok.options wiped : StorageOk seed after.storage)
    lastKeyIdentifier := by
      dsimp only
      rw [wiped.lastKeyIdentifier, wiped.storedLastKeyIdentifier, ok.lastKeyIdentifier]
    parentPublicKey := wiped.parentPublicKey.trans ok.parentPublicKey
    keys := by
      intro other entry inside found
      dsimp only at found ⊢
      rw [entryOf other inside] at found
      rw [wiped.keys other (ok.options ▸ inside.1) (ok.options ▸ inside.2)]
      split at found
      · next below =>
        rw [if_pos below]
        obtain ⟨old, foundOld, rfl⟩ := Option.map_eq_some_iff.mp found
        obtain ⟨key, foundKey, signature, -, -⟩ := ok.keys other old inside foundOld
        rw [foundKey]
        exact ⟨Level.detachKeyPair key, rfl, signature, rfl, fun used => absurd rfl used⟩
      · next above =>
        rw [if_neg above]
        exact ok.keys other entry inside found
    lastWipe := .inr covered
    wiped := by
      intro _ other inside below
      exact zeroAt_map_wipe ((entryOf other inside).trans (if_pos below)) }

/-- A wipe up to an identifier of the tree succeeds and leaves no key up to it. -/
theorem wipe_ok {seed : TreeSeed} {tree : BmPrivateKeyTree} (ok : TreeOk seed tree) {identifier : Nat}
    (covered : seed.options.Covers identifier)
    (later : tree.lastWipeKeyIdentifier = invalidId ∨ tree.lastWipeKeyIdentifier ≤ identifier) :
    ∃ wiped, tree.wipe identifier = .ok wiped ∧ TreeOk seed wiped ∧ Shrinks tree.storage wiped.storage ∧
      wiped.lastKeyIdentifier = tree.lastKeyIdentifier ∧ wiped.lastWipeKeyIdentifier = identifier := by
  have allowed : BmPrivateKeyTree.check tree.options identifier tree.lastWipeKeyIdentifier = true := by
    rw [check_eq_true, ok.options]
    refine ⟨?_, covered.1, covered.2⟩
    rcases later with unused | later
    · rw [unused]
      exact isIdLessThan_invalidId identifier
    · exact isIdLessThan_of_le (Nat.lt_of_le_of_lt covered.2 seed.options.valid) later
  have shrinks {after : BmPrivateKeyTree} (wiped : WipedTo identifier tree after) : Shrinks tree.storage after.storage := by
    refine ⟨(wiped.sized.storage.trans wiped.options).trans ok.sized.storage.symm, ?_⟩
    intro other inside
    rw [ok.sized.storage] at inside
    rw [wiped.entries other inside.1 inside.2]
    split
    · exact .inr rfl
    · exact .inl rfl
  have looped {start : Nat} (below : start ≤ identifier) : WipedTo identifier tree
        ((List.range' start (identifier + 1 - start)).foldl BmPrivateKeyTree.wipeKey tree) := by
    have wiped := @foldl_wipeKey_wipedTo tree ok.sized start (identifier - start) (by
      rw [ok.options]
      have := covered.2
      omega)
    rw [show start + (identifier - start) = identifier by omega,
      show identifier - start + 1 = identifier + 1 - start by omega] at wiped
    exact wiped
  unfold BmPrivateKeyTree.wipe
  rw [allowed]
  dsimp only [Bool.not_true, Bool.false_eq_true, if_false]
  by_cases unused : tree.lastWipeKeyIdentifier = invalidId
  · rw [if_pos unused]
    have wiped := looped (ok.options ▸ covered.1)
    have fewer := shrinks wiped
    exact ⟨_, rfl, ok.wipedTo wiped covered, fewer, wiped.lastKeyIdentifier, rfl⟩
  · rw [if_neg unused]
    by_cases again : tree.lastWipeKeyIdentifier = identifier
    · -- nothing is left to wipe
      rw [again, Nat.sub_self]
      refine ⟨_, rfl, ?_, Shrinks.refl _, rfl, rfl⟩
      rw [← again]
      exact ok
    · have wiped := looped (show tree.lastWipeKeyIdentifier + 1 ≤ identifier by
        have := later.resolve_left unused
        omega)
      have fewer := shrinks wiped
      exact ⟨_, rfl, ok.wipedTo wiped covered, fewer, wiped.lastKeyIdentifier, rfl⟩

/-- The signature of an intact key is accepted under the root key of the tree. -/
def Verified (seed : TreeSeed) (identifier : Nat) (data : List UInt8) (signature : BmTreeSignature) : Prop :=
  signature.root.parentPublicKey = VotingSigner.extractPublicKey seed.rootPrivateKey ∧
    verify signature (UInt64.ofNat identifier) data = true

theorem canSign_eq_true {seed : TreeSeed} {tree : BmPrivateKeyTree} (ok : TreeOk seed tree) {identifier : Nat} :
    tree.canSign identifier = true ↔ isIdLessThan identifier tree.lastKeyIdentifier = false ∧ seed.options.Covers identifier := by
  rw [BmPrivateKeyTree.canSign, check_eq_true, ok.options, BmOptions.Covers]

/-- A tree signs for an allowed identifier, and the signature verifies if the key is not wiped. -/
theorem sign_ok {seed : TreeSeed} {tree : BmPrivateKeyTree} (ok : TreeOk seed tree) (below : WipesBelowLast tree)
    {identifier : Nat} (data : List UInt8) (allowed : tree.canSign identifier = true) :
    ∃ signed signature, tree.sign identifier data = .ok (signed, signature) ∧ TreeOk seed signed ∧
      signed.lastKeyIdentifier = identifier ∧
      (signed.lastWipeKeyIdentifier = invalidId ∨ signed.lastWipeKeyIdentifier < identifier) ∧
      Shrinks tree.storage signed.storage ∧
      (¬ ZeroAt tree.storage identifier → Verified seed identifier data signature) := by
  obtain ⟨notLess, covered⟩ := (canSign_eq_true ok).mp allowed
  have valid : identifier < invalidId := Nat.lt_of_le_of_lt covered.2 seed.options.valid
  obtain ⟨entry, found, entryOk⟩ := ok.stored.entries identifier covered
  obtain ⟨key, foundKey, signature, privateKey, publicKey⟩ := ok.keys identifier entry covered found
  have signs : tree.sign identifier data = .ok ({ tree with
      lastKeyIdentifier := identifier
      storage := { tree.storage with lastKeyIdentifier := identifier } },
      ⟨⟨tree.level.parentPublicKey, key.signature⟩, ⟨key.keyPair.publicKey,
        VotingSigner.sign key.keyPair.privateKey key.keyPair.publicKey data⟩⟩) := by
    rw [BmPrivateKeyTree.sign, allowed, foundKey]
    rfl
  refine ⟨_, _, signs, ?_, rfl, ?_, ⟨rfl, fun _ _ => .inl rfl⟩, ?_⟩
  · exact { ok with
      stored := { ok.stored with lastKeyIdentifier := .inr covered }
      lastKeyIdentifier := rfl
      sized := ⟨ok.sized.startIdentifier, ok.sized.endIdentifier, ok.sized.storage, ok.sized.length⟩ }
  · rcases below with unused | ⟨used, below⟩
    · exact .inl unused
    · right
      dsimp only
      rw [← Bool.not_eq_true] at notLess
      rcases ok.stored.lastKeyIdentifier with unused | inside
      · exact absurd (ok.lastKeyIdentifier.trans unused) used
      · rw [← ok.lastKeyIdentifier] at inside
        rw [isIdLessThan_eq_true (Nat.lt_of_le_of_lt inside.2 seed.options.valid)] at notLess
        omega
  · intro intact
    have nonzero : entry.privateKey ≠ zeroPrivateKey := by
      intro zero
      apply intact
      intro other foundOther
      rw [found, Option.some.injEq] at foundOther
      exact foundOther ▸ zero
    have genuine := entryOk.privateKey.resolve_left nonzero
    have number : (UInt64.ofNat identifier).toNat = identifier := by
      exact UInt64.toNat_ofNat_of_lt' (Nat.lt_of_lt_of_le valid (by decide))
    refine ⟨ok.parentPublicKey, ?_⟩
    unfold verify verifyBoundSignature
    dsimp only
    rw [signature, entryOk.signature, privateKey, publicKey nonzero, genuine, number, ok.parentPublicKey,
      TreeSeed.signatureOf, VotingSigner.verify_sign, VotingSigner.verify_sign]
    rfl

/-- The trees follow each other without overlap. -/
def Ascending (seeds : List TreeSeed) : Prop :=
  (seeds.map TreeSeed.options).Pairwise fun lower upper => lower.endKeyIdentifier < upper.startKeyIdentifier

/-- The storages belong to the seeds in order, and the trees that were left are wiped. -/
structure Ok (seeds : List TreeSeed) (aggregate : AggregateBmPrivateKeyTree) : Prop where
  stored : ∀ storage ∈ aggregate.storages, ∃ seed ∈ seeds, StorageOk seed storage
  options : aggregate.storages.map KeyTreeStorage.options = seeds.map TreeSeed.options
  passed : ∀ storage ∈ aggregate.passed, ∀ identifier, storage.options.Covers identifier → ZeroAt storage identifier
  tree : ∀ tree, aggregate.tree = some tree → ∃ seed ∈ seeds, TreeOk seed tree ∧ WipesBelowLast tree

/-- A changed tree with the same options takes the place of the tree in use. -/
theorem Ok.replace {seeds : List TreeSeed} {passed remaining : List KeyTreeStorage} {tree next : BmPrivateKeyTree}
    (ok : Ok seeds ⟨passed, some tree, remaining⟩) {seed : TreeSeed} (member : seed ∈ seeds)
    (treeOk : TreeOk seed next) (below : WipesBelowLast next) (shrinks : Shrinks tree.storage next.storage) :
    Ok seeds ⟨passed, some next, remaining⟩ where
  stored := by
    intro storage inside
    simp only [AggregateBmPrivateKeyTree.storages, Option.map_some, Option.toList_some, List.mem_append,
      List.mem_singleton] at inside
    rcases inside with (early | rfl) | late
    · exact ok.stored storage (by simp [AggregateBmPrivateKeyTree.storages, early])
    · exact ⟨seed, member, treeOk.stored⟩
    · exact ok.stored storage (by simp [AggregateBmPrivateKeyTree.storages, late])
  options := by
    rw [← ok.options]
    simp [AggregateBmPrivateKeyTree.storages, shrinks.options]
  passed := ok.passed
  tree := by
    intro other same
    obtain rfl := Option.some.inj same
    exact ⟨seed, member, treeOk, below⟩

/-- The tree in use is wiped to its end, and the next one is loaded if there is one. -/
theorem Ok.leave {seeds : List TreeSeed} {passed remaining : List KeyTreeStorage} {tree : BmPrivateKeyTree}
    (ok : Ok seeds ⟨passed, some tree, remaining⟩) : ∃ wiped, tree.wipe tree.options.endKeyIdentifier = .ok wiped ∧
      ∀ next rest, (next.map BmPrivateKeyTree.storage).toList ++ rest = remaining →
        (∀ loaded, next = some loaded → loaded = .fromStream loaded.storage) →
        Ok seeds ⟨passed ++ [wiped.storage], next, rest⟩ ∧
          AllShrink (AggregateBmPrivateKeyTree.mk passed (some tree) remaining).storages
            (AggregateBmPrivateKeyTree.mk (passed ++ [wiped.storage]) next rest).storages := by
  obtain ⟨seed, member, treeOk, below⟩ := ok.tree tree rfl
  have last : seed.options.Covers tree.options.endKeyIdentifier := by
    rw [treeOk.options]
    exact ⟨seed.options.ordered, Nat.le_refl _⟩
  obtain ⟨wiped, wipes, wipedOk, shrinks, -, wipedTo⟩ := wipe_ok treeOk last (by
    rcases treeOk.lastWipe with unused | inside
    · exact .inl unused
    · rw [treeOk.options]
      exact .inr inside.2)
  refine ⟨wiped, wipes, ?_⟩
  rintro next rest rfl loads
  have same : (AggregateBmPrivateKeyTree.mk (passed ++ [wiped.storage]) next rest).storages =
      passed ++ [wiped.storage] ++ ((next.map BmPrivateKeyTree.storage).toList ++ rest) := by
    rw [AggregateBmPrivateKeyTree.storages, List.append_assoc]
  have zero : ∀ identifier, wiped.storage.options.Covers identifier → ZeroAt wiped.storage identifier := by
    intro identifier covered
    rw [wipedOk.stored.options] at covered
    refine wipedOk.wiped ?_ identifier covered ?_
    · rw [wipedTo]
      exact Nat.ne_of_lt tree.options.valid
    · rw [wipedTo, treeOk.options]
      exact covered.2
  refine ⟨⟨?_, ?_, ?_, ?_⟩, ?_⟩
  · intro storage inside
    rw [same, List.mem_append, List.mem_append, List.mem_singleton] at inside
    rcases inside with (early | rfl) | late
    · exact ok.stored storage (List.mem_append_left _ (List.mem_append_left _ early))
    · exact ⟨seed, member, wipedOk.stored⟩
    · exact ok.stored storage (List.mem_append_right _ late)
  · rw [same, ← ok.options]
    simp [AggregateBmPrivateKeyTree.storages, shrinks.options]
  · intro storage inside
    rcases List.mem_append.mp inside with early | single
    · exact ok.passed storage early
    · rw [List.mem_singleton.mp single]
      exact zero
  · rintro loaded rfl
    obtain ⟨other, memberOther, storedOther⟩ := ok.stored loaded.storage
      (List.mem_append_right _ (List.mem_append_left _ List.mem_cons_self))
    refine ⟨other, memberOther, ?_⟩
    rw [loads loaded rfl]
    exact fromStream_ok storedOther
  · rw [same]
    exact AllShrink.replace shrinks

/-- Neighboring trees do not overlap. -/
theorem Ok.follows {seeds : List TreeSeed} {passed storages : List KeyTreeStorage} {storage : KeyTreeStorage}
    {tree : BmPrivateKeyTree} (ascending : Ascending seeds) (ok : Ok seeds ⟨passed, some tree, storage :: storages⟩) :
    tree.options.endKeyIdentifier < storage.options.startKeyIdentifier := by
  obtain ⟨seed, -, treeOk, -⟩ := ok.tree tree rfl
  have pairs := ascending
  rw [Ascending, ← ok.options] at pairs
  simp only [AggregateBmPrivateKeyTree.storages, Option.map_some, Option.toList_some, List.append_assoc,
    List.singleton_append, List.map_append, List.map_cons, List.pairwise_append, List.pairwise_cons] at pairs
  have next := pairs.2.1.1 storage.options List.mem_cons_self
  rw [treeOk.sized.storage] at next
  exact next

/-- What the loop over the trees has done. -/
structure Advanced (seeds : List TreeSeed) (identifier : Nat) (passed : List KeyTreeStorage)
    (tree : BmPrivateKeyTree) (remaining : List KeyTreeStorage) (next : AggregateBmPrivateKeyTree) : Prop where
  ok : Ok seeds next
  shrinks : AllShrink (AggregateBmPrivateKeyTree.mk passed (some tree) remaining).storages next.storages
  reached : ∀ current, next.tree = some current → current.storage ∈ tree.storage :: remaining

theorem Advanced.stays {seeds : List TreeSeed} (identifier : Nat) {passed remaining : List KeyTreeStorage}
    {tree : BmPrivateKeyTree} (ok : Ok seeds ⟨passed, some tree, remaining⟩) :
    Advanced seeds identifier passed tree remaining ⟨passed, some tree, remaining⟩ := by
  refine ⟨ok, AllShrink.refl _, ?_⟩
  intro current same
  rw [← Option.some.inj same]
  exact List.mem_cons_self

theorem advance_ok {seeds : List TreeSeed} (ascending : Ascending seeds) (identifier : Nat)
    {remaining passed : List KeyTreeStorage} {tree : BmPrivateKeyTree} (ok : Ok seeds ⟨passed, some tree, remaining⟩) :
    ∃ next, AggregateBmPrivateKeyTree.advance identifier passed tree remaining = (next, .ok ()) ∧
      Advanced seeds identifier passed tree remaining next := by
  induction remaining generalizing passed tree with
  | nil =>
    unfold AggregateBmPrivateKeyTree.advance
    split
    · obtain ⟨wiped, wipes, leaves⟩ := ok.leave
      rw [wipes]
      obtain ⟨leftOk, shrinks⟩ := leaves none [] rfl (by rintro loaded ⟨⟩)
      exact ⟨_, rfl, leftOk, shrinks, by rintro current ⟨⟩⟩
    · exact ⟨_, rfl, .stays identifier ok⟩
  | cons storage storages ih =>
    unfold AggregateBmPrivateKeyTree.advance
    split
    · obtain ⟨wiped, wipes, leaves⟩ := ok.leave
      rw [wipes]
      obtain ⟨leftOk, shrinks⟩ := leaves (some (.fromStream storage)) storages rfl (by
        intro loaded same
        rw [← Option.some.inj same]
        rfl)
      have follows : isIdLessThan tree.options.endKeyIdentifier
          (BmPrivateKeyTree.fromStream storage).options.startKeyIdentifier = true := by
        apply (isIdLessThan_eq_true (Nat.lt_of_le_of_lt storage.options.ordered storage.options.valid)).mpr
        exact .inr (ok.follows ascending)
      dsimp only
      rw [if_pos follows]
      obtain ⟨next, ran, advanced⟩ := ih leftOk
      refine ⟨next, ran, advanced.ok, shrinks.trans advanced.shrinks, ?_⟩
      intro current same
      exact List.mem_cons_of_mem _ (advanced.reached current same)
    · exact ⟨_, rfl, .stays identifier ok⟩

/-- The storages that can still be used in this run. -/
def AggregateBmPrivateKeyTree.usable (aggregate : AggregateBmPrivateKeyTree) : List KeyTreeStorage :=
  (aggregate.tree.map BmPrivateKeyTree.storage).toList ++ aggregate.remaining

/-- The key that a call would use is wiped although its identifier is not below the last one that was used. -/
def ReusesWipedKey (aggregate : AggregateBmPrivateKeyTree) (identifier : Nat) : Prop :=
  ∃ storage ∈ aggregate.usable, BmPrivateKeyTree.check storage.options identifier storage.lastKeyIdentifier = true ∧
      ZeroAt storage identifier

/-- No key below an identifier is left in memory or in a storage. -/
structure WipedBelow (identifier : Nat) (aggregate : AggregateBmPrivateKeyTree) : Prop where
  stored : ∀ storage ∈ aggregate.storages, ∀ other, storage.options.Covers other → other < identifier → ZeroAt storage other
  memory : ∀ tree, aggregate.tree = some tree → ∀ other key, tree.options.Covers other → other < identifier →
    tree.level.keyAt other = some key → key.keyPair.privateKey = zeroPrivateKey

/-- The keys in memory are those in the storage. -/
theorem WipedBelow.of_stored {seeds : List TreeSeed} {aggregate : AggregateBmPrivateKeyTree} (ok : Ok seeds aggregate)
    {identifier : Nat} (stored : ∀ storage ∈ aggregate.storages, ∀ other, storage.options.Covers other → other < identifier →
      ZeroAt storage other) : WipedBelow identifier aggregate := by
  refine ⟨stored, ?_⟩
  intro tree same other key covered below found
  obtain ⟨seed, -, treeOk, -⟩ := ok.tree tree same
  have inside : tree.storage ∈ aggregate.storages := by
    simp [AggregateBmPrivateKeyTree.storages, same]
  have zero := stored tree.storage inside other (treeOk.sized.storage.symm ▸ covered) below
  rw [treeOk.options] at covered
  obtain ⟨entry, foundEntry, -⟩ := treeOk.stored.entries other covered
  obtain ⟨same, foundKey, -, privateKey, -⟩ := treeOk.keys other entry covered foundEntry
  rw [found, Option.some.injEq] at foundKey
  rw [foundKey, privateKey]
  exact zero entry foundEntry

/-- Keys that are wiped stay wiped. -/
theorem WipedBelow.shrink {seeds : List TreeSeed} {before after : AggregateBmPrivateKeyTree} {identifier : Nat}
    (wiped : WipedBelow identifier before) (ok : Ok seeds after)
    (shrinks : AllShrink before.storages after.storages) : WipedBelow identifier after := by
  apply WipedBelow.of_stored ok
  intro storage member other covered below
  obtain ⟨old, memberOld, shrink⟩ := shrinks storage member
  rw [shrink.options] at covered
  exact shrink.zeroAt covered (wiped.stored old memberOld other covered below)

theorem canSign_ok {seeds : List TreeSeed} (ascending : Ascending seeds) {aggregate : AggregateBmPrivateKeyTree}
    (ok : Ok seeds aggregate) (identifier : Nat) :
    ∃ next answer, aggregate.canSign identifier = (next, .ok answer) ∧ Ok seeds next ∧
      AllShrink aggregate.storages next.storages ∧
      (answer = true → ∃ tree, next.tree = some tree ∧ tree.canSign identifier = true ∧ tree.storage ∈ aggregate.usable) := by
  obtain ⟨passed, current, remaining⟩ := aggregate
  cases current with
  | none => exact ⟨_, _, rfl, ok, AllShrink.refl _, by rintro ⟨⟩⟩
  | some tree =>
    obtain ⟨next, ran, advanced⟩ := advance_ok ascending identifier ok
    refine ⟨next, next.tree.any fun tree => tree.canSign identifier, ?_, advanced.ok, advanced.shrinks, ?_⟩
    · unfold AggregateBmPrivateKeyTree.canSign
      dsimp only
      rw [ran]
    · intro answer
      cases reached : next.tree with
      | none =>
        rw [reached] at answer
        cases answer
      | some last =>
        rw [reached] at answer
        exact ⟨last, rfl, answer, advanced.reached last reached⟩

/-- After a signature all keys below its identifier are wiped. -/
theorem wipedBelow_of_tree {seeds : List TreeSeed} (ascending : Ascending seeds)
    {aggregate : AggregateBmPrivateKeyTree} (ok : Ok seeds aggregate) {tree : BmPrivateKeyTree}
    (current : aggregate.tree = some tree) {identifier : Nat} (covered : tree.options.Covers identifier)
    (wiped : ∀ other, tree.options.Covers other → other < identifier → ZeroAt tree.storage other) :
    WipedBelow identifier aggregate := by
  apply WipedBelow.of_stored ok
  obtain ⟨seed, -, treeOk, -⟩ := ok.tree tree current
  have pairs := ascending
  rw [Ascending, ← ok.options] at pairs
  intro storage member other inside below
  simp only [AggregateBmPrivateKeyTree.storages, current, Option.map_some, Option.toList_some, List.append_assoc,
    List.singleton_append, List.mem_append, List.mem_cons, List.map_append, List.map_cons,
    List.pairwise_append, List.pairwise_cons] at member pairs
  rcases member with early | rfl | late
  · exact ok.passed storage early other inside
  · exact wiped other (treeOk.sized.storage ▸ inside) below
  · have above := pairs.2.1.1 storage.options (List.mem_map_of_mem late)
    rw [treeOk.sized.storage] at above
    have := inside.1
    have := covered.2
    omega

/-- What a successful signature means. -/
structure Signed (seeds : List TreeSeed) (aggregate next : AggregateBmPrivateKeyTree) (identifier : Nat)
    (data : List UInt8) (signature : BmTreeSignature) : Prop where
  allowed : ∃ storage ∈ aggregate.usable, storage.options.Covers identifier ∧
    BmPrivateKeyTree.check storage.options identifier storage.lastKeyIdentifier = true
  wiped : WipedBelow identifier next
  verified : ¬ ReusesWipedKey aggregate identifier →
    ∃ seed ∈ seeds, seed.options.Covers identifier ∧ Verified seed identifier data signature

theorem aggregate_sign_ok {seeds : List TreeSeed} (ascending : Ascending seeds)
    {aggregate : AggregateBmPrivateKeyTree} (ok : Ok seeds aggregate) (identifier : Nat) (data : List UInt8) :
    Ok seeds (aggregate.sign identifier data).1 ∧ AllShrink aggregate.storages (aggregate.sign identifier data).1.storages ∧
      ∀ signature, (aggregate.sign identifier data).2 = .ok signature →
        Signed seeds aggregate (aggregate.sign identifier data).1 identifier data signature := by
  obtain ⟨next, answer, asks, nextOk, shrinks, reached⟩ := canSign_ok ascending ok identifier
  unfold AggregateBmPrivateKeyTree.sign
  rw [asks]
  cases answer with
  | false => exact ⟨nextOk, shrinks, by rintro signature ⟨⟩⟩
  | true =>
    obtain ⟨tree, current, allowed, usable⟩ := reached rfl
    obtain ⟨passed, _, remaining⟩ := next
    obtain rfl : _ = some tree := current
    obtain ⟨seed, member, treeOk, below⟩ := nextOk.tree tree rfl
    obtain ⟨notLess, covered⟩ := (canSign_eq_true treeOk).mp allowed
    obtain ⟨signed, signature, signs, signedOk, last, lastWipe, fewer, verified⟩ :=
      sign_ok treeOk below data allowed
    have used : ∃ storage ∈ aggregate.usable, storage.options.Covers identifier ∧
        BmPrivateKeyTree.check storage.options identifier storage.lastKeyIdentifier = true := by
      refine ⟨tree.storage, usable, ?_, ?_⟩
      · rw [treeOk.stored.options]
        exact covered
      · rw [check_eq_true, ← treeOk.lastKeyIdentifier, treeOk.stored.options]
        exact ⟨notLess, covered.1, covered.2⟩
    have verifies : ¬ ReusesWipedKey aggregate identifier →
        ∃ seed ∈ seeds, seed.options.Covers identifier ∧ Verified seed identifier data signature := by
      intro intact
      refine ⟨seed, member, covered, verified ?_⟩
      intro zero
      apply intact
      refine ⟨tree.storage, usable, ?_, zero⟩
      rw [check_eq_true, ← treeOk.lastKeyIdentifier, treeOk.stored.options]
      exact ⟨notLess, covered.1, covered.2⟩
    have valid : identifier < invalidId := Nat.lt_of_le_of_lt covered.2 seed.options.valid
    have finish {final : BmPrivateKeyTree} (finalOk : TreeOk seed final)
        (lastFinal : final.lastKeyIdentifier = identifier)
        (order : final.lastWipeKeyIdentifier = invalidId ∨ final.lastWipeKeyIdentifier < identifier)
        (fewerFinal : Shrinks tree.storage final.storage)
        (zero : ∀ other, seed.options.Covers other → other < identifier → ZeroAt final.storage other) :
        Ok seeds ⟨passed, some final, remaining⟩ ∧
          AllShrink aggregate.storages (AggregateBmPrivateKeyTree.mk passed (some final) remaining).storages ∧
          Signed seeds aggregate ⟨passed, some final, remaining⟩ identifier data signature := by
      have wipes : WipesBelowLast final := by
        rw [WipesBelowLast, lastFinal]
        exact order.imp_right fun less => ⟨Nat.ne_of_lt valid, less⟩
      have replaced := nextOk.replace member finalOk wipes fewerFinal
      refine ⟨replaced, shrinks.trans (AllShrink.replace fewerFinal), used, ?_, verifies⟩
      refine wipedBelow_of_tree ascending replaced rfl ?_ ?_
      · rw [finalOk.options]
        exact covered
      · rw [finalOk.options]
        exact zero
    dsimp only
    rw [signs]
    dsimp only
    split
    · next first =>
      rw [signedOk.options] at first
      obtain ⟨doneOk, doneShrinks, done⟩ := finish signedOk last lastWipe fewer (by
        intro other inside less
        have := inside.1
        omega)
      exact ⟨doneOk, doneShrinks, fun other same => Except.ok.inj same ▸ done⟩
    · next later =>
      rw [signedOk.options] at later
      have above := covered.1
      obtain ⟨wiped, wipes, wipedOk, fewerAgain, lastWiped, wipedTo⟩ :=
        @wipe_ok _ seed signed signedOk (identifier - 1) ⟨by omega, by have := covered.2; omega⟩ (by omega)
      rw [wipes]
      obtain ⟨doneOk, doneShrinks, done⟩ := finish wipedOk (lastWiped.trans last) (by omega)
        (fewer.trans fewerAgain) (by
          intro other inside less
          refine wipedOk.wiped ?_ other inside ?_
          · omega
          · omega)
      exact ⟨doneOk, doneShrinks, fun other same => Except.ok.inj same ▸ done⟩

/-- A process that starts loads the first tree. -/
theorem create_aggregate_ok {seeds : List TreeSeed} {storages : List KeyTreeStorage}
    (stored : ∀ storage ∈ storages, ∃ seed ∈ seeds, StorageOk seed storage)
    (options : storages.map KeyTreeStorage.options = seeds.map TreeSeed.options) :
    Ok seeds (.create storages) ∧ (AggregateBmPrivateKeyTree.create storages).storages = storages := by
  cases storages with
  | nil => exact ⟨⟨by rintro storage ⟨⟩, options, by rintro storage ⟨⟩, by rintro tree ⟨⟩⟩, rfl⟩
  | cons storage storages =>
    refine ⟨⟨stored, options, by rintro storage ⟨⟩, ?_⟩, rfl⟩
    intro tree same
    obtain ⟨seed, member, storageOk⟩ := stored storage List.mem_cons_self
    rw [← Option.some.inj same]
    exact ⟨seed, member, fromStream_ok storageOk⟩

theorem step_ok {seeds : List TreeSeed} (ascending : Ascending seeds) {aggregate : AggregateBmPrivateKeyTree}
    (ok : Ok seeds aggregate) (action : KeyAction) :
    Ok seeds (step aggregate action) ∧ AllShrink aggregate.storages (step aggregate action).storages := by
  cases action with
  | canSign identifier =>
    obtain ⟨next, answer, asks, nextOk, shrinks, -⟩ := canSign_ok ascending ok identifier
    rw [step, asks]
    exact ⟨nextOk, shrinks⟩
  | sign identifier data =>
    obtain ⟨nextOk, shrinks, -⟩ := aggregate_sign_ok ascending ok identifier data
    exact ⟨nextOk, shrinks⟩
  | restart =>
    obtain ⟨nextOk, same⟩ := create_aggregate_ok ok.stored ok.options
    refine ⟨nextOk, ?_⟩
    rw [step, AggregateBmPrivateKeyTree.restart, same]
    exact AllShrink.refl _

theorem run_ok {seeds : List TreeSeed} (ascending : Ascending seeds) (actions : List KeyAction)
    {aggregate : AggregateBmPrivateKeyTree} (ok : Ok seeds aggregate) :
    Ok seeds (run aggregate actions) ∧ AllShrink aggregate.storages (run aggregate actions).storages := by
  induction actions generalizing aggregate with
  | nil => exact ⟨ok, AllShrink.refl _⟩
  | cons action actions ih =>
    obtain ⟨nextOk, shrinks⟩ := step_ok ascending ok action
    obtain ⟨finalOk, shrinksAgain⟩ := ih nextOk
    exact ⟨finalOk, shrinks.trans shrinksAgain⟩

/-- The first process starts with new trees. -/
def start (seeds : List TreeSeed) : AggregateBmPrivateKeyTree := .create (seeds.map TreeSeed.create)

theorem start_ok (seeds : List TreeSeed) : Ok seeds (start seeds) := by
  refine (create_aggregate_ok ?_ ?_).1
  · intro storage member
    obtain ⟨seed, inside, rfl⟩ := List.mem_map.mp member
    exact ⟨seed, inside, create_ok seed⟩
  · rw [List.map_map]
    rfl

/-- A vote does not ask for a key that an earlier process has wiped. -/
def AsksForIntactKey (aggregate : AggregateBmPrivateKeyTree) : KeyAction → Prop
  | .sign identifier _ => ¬ ReusesWipedKey aggregate identifier
  | _ => True

/-- Signatures verify, later signatures are not for lower identifiers, and lower keys are wiped for good. -/
theorem run_forward_secure {seeds : List TreeSeed} (ascending : Ascending seeds) {actions : List KeyAction}
    (intact : Runs.Along step AsksForIntactKey (start seeds) actions) (before after : List KeyAction)
    (identifier : Nat) (data : List UInt8) (signature : BmTreeSignature)
    (splits : actions = before ++ .sign identifier data :: after)
    (signs : ((run (start seeds) before).sign identifier data).2 = .ok signature) :
    (∃ seed ∈ seeds, seed.options.Covers identifier ∧ Verified seed identifier data signature) ∧
      (∀ middle rest other otherData, after = middle ++ .sign other otherData :: rest → other < identifier →
        ∀ otherSignature, ((run (start seeds) (before ++ .sign identifier data :: middle)).sign other otherData).2 ≠
            .ok otherSignature) ∧
      (∀ middle rest, after = middle ++ rest →
        WipedBelow identifier (run (start seeds) (before ++ .sign identifier data :: middle))) := by
  subst splits
  obtain ⟨-, here, later⟩ := Runs.Along.append.mp intact
  obtain ⟨beforeOk, -⟩ := run_ok ascending before (start_ok seeds)
  obtain ⟨nextOk, -, signed⟩ := aggregate_sign_ok ascending beforeOk identifier data
  have done := signed signature signs
  have continued (middle : List KeyAction) : run (start seeds) (before ++ .sign identifier data :: middle) =
        run ((run (start seeds) before).sign identifier data).1 middle := by
    rw [run, List.foldl_append]
    rfl
  have kept (middle : List KeyAction) :
      WipedBelow identifier (run (start seeds) (before ++ .sign identifier data :: middle)) := by
    rw [continued]
    obtain ⟨finalOk, shrinks⟩ := run_ok ascending middle nextOk
    exact done.wiped.shrink finalOk shrinks
  refine ⟨done.verified here, ?_, fun middle _ _ => kept middle⟩
  rintro middle rest other otherData rfl less otherSignature signsAgain
  obtain ⟨-, againIntact, -⟩ := Runs.Along.append.mp later
  obtain ⟨middleOk, -⟩ := run_ok ascending middle nextOk
  rw [continued] at signsAgain
  obtain ⟨-, -, again⟩ := aggregate_sign_ok ascending middleOk other otherData
  obtain ⟨storage, usable, covered, allowed⟩ := (again otherSignature signsAgain).allowed
  -- the lower key was wiped, so this call would reuse it
  apply againIntact
  refine ⟨storage, usable, allowed, ?_⟩
  have wiped := kept middle
  rw [continued] at wiped
  refine wiped.stored storage ?_ other covered less
  rw [AggregateBmPrivateKeyTree.storages, List.append_assoc]
  exact List.mem_append_right _ usable

end Trees

instance ZeroAt.decidable (storage : KeyTreeStorage) (identifier : Nat) : Decidable (ZeroAt storage identifier) :=
  match found : storage.keyAt identifier with
  | none => .isTrue (by simp [ZeroAt, found])
  | some entry => decidable_of_iff (entry.privateKey = zeroPrivateKey) (by simp [ZeroAt, found])

instance AsksForIntactKey.decidable (aggregate : AggregateBmPrivateKeyTree) :
    (action : KeyAction) → Decidable (AsksForIntactKey aggregate action)
  | .sign identifier _ => inferInstanceAs (Decidable (¬ ∃ storage ∈ aggregate.usable,
      BmPrivateKeyTree.check storage.options identifier storage.lastKeyIdentifier = true ∧ ZeroAt storage identifier))
  | .canSign _ => .isTrue trivial
  | .restart => .isTrue trivial

instance Ascending.decidable (seeds : List TreeSeed) : Decidable (Ascending seeds) :=
  inferInstanceAs (Decidable (List.Pairwise _ _))

namespace Samples

/-- A signature holds the key and the start of the data. -/
def signBytes (key : VotingPrivateKey) (data : List UInt8) : VotingSignature :=
  Vector.ofFn fun index => (key.toList ++ data).getD index 0

abbrev signer : VotingSigner where
  verify key data signature := signature = signBytes key data
  extractPublicKey key := key
  sign privateKey _ data := signBytes privateKey data
  verify_sign _ _ := decide_eq_true rfl

def key (marker : UInt8) : VotingPrivateKey := Vector.replicate 32 marker

def seeds : List TreeSeed :=
  [ ⟨⟨1, 2, by decide, by decide⟩, key 10, [key 12, key 11], rfl⟩, ⟨⟨3, 4, by decide, by decide⟩, key 20, [key 24, key 23], rfl⟩]

def runSeeds (actions : List KeyAction) : AggregateBmPrivateKeyTree :=
  @run signer (@start signer seeds) actions

/-- Whether the signature of a vote verifies, if there is one. -/
def vote (aggregate : AggregateBmPrivateKeyTree) (identifier : Nat) (data : List UInt8) : Option Bool :=
  match (@AggregateBmPrivateKeyTree.sign signer aggregate identifier data).2 with
  | .error _ => none
  | .ok signature => some (@verify signer.toVotingVerifier signature (UInt64.ofNat identifier) data)

/-- The second tree is used before and after a restart. -/
def laterActions : List KeyAction := [.sign 1 [1], .sign 3 [2], .restart, .sign 3 [3]]

end Samples

/-- After a restart a wiped tree signs for a lower identifier, and the signature does not verify. -/
theorem restart_signs_with_wiped_key : Ascending Samples.seeds ∧ Samples.vote (Samples.runSeeds []) 3 [1] = some true ∧
      Samples.vote (Samples.runSeeds [.sign 3 [1], .restart]) 1 [2] = some false := by
  decide +kernel

/-- The signature of a later key is verified. -/
theorem run_forward_secure_restart : Samples.vote (Samples.runSeeds (Samples.laterActions.take 3)) 3 [3] = some true := by
  have accepted : (Samples.vote (Samples.runSeeds (Samples.laterActions.take 3)) 3 [3]).isSome = true := by
    decide +kernel
  unfold Samples.vote at accepted ⊢
  cases signed : (@AggregateBmPrivateKeyTree.sign Samples.signer
      (Samples.runSeeds (Samples.laterActions.take 3)) 3 [3]).2 with
  | error error =>
    rw [signed] at accepted
    cases accepted
  | ok signature =>
    obtain ⟨⟨seed, -, -, verified⟩, -⟩ := @run_forward_secure Samples.signer Samples.seeds (by decide +kernel)
      Samples.laterActions (by decide +kernel) (Samples.laterActions.take 3) [] 3 [3] signature rfl signed
    exact congrArg some verified.2

end Catapult.Voting
