import Catapult.Construction.Mosaic.MosaicObservers
import Catapult.Proof.Mosaic.MosaicCache
import Catapult.Proof.State.BalanceAmounts

/-
This file proves that mosaic definitions and supplies are restored by the rollback of the notifications that changed them.
-/

namespace Catapult.Mosaics

open Lock (NotifyMode ResolverContext)
open State (AccountState AccountBalances SoundBalances ChangesAmount)
open MosaicCacheDelta

/-- The total of a mosaic in all accounts. -/
def totalOf (accounts : Finmap fun _ : Address => AccountState) (mosaicId : MosaicId) : Nat :=
  Totals.total (fun account => (account.balances.get mosaicId).toNat) accounts

def supplyOf (mosaics : MosaicCacheDelta) (mosaicId : MosaicId) : Nat :=
  (mosaics.find mosaicId).elim 0 fun entry => entry.supply.toNat

/-- The accounts do not hold more of a mosaic than its supply. -/
structure SoundLedger (state : LedgerState) : Prop where
  mosaics : state.mosaics.Sound
  balances : ∀ address account, state.accounts.lookup address = some account → SoundBalances account.balances
  backed : ∀ mosaicId, totalOf state.accounts mosaicId ≤ supplyOf state.mosaics mosaicId

section Supplies

variable {state : LedgerState} {account : AccountState} {address : Address} {mosaicId : MosaicId} {amount : Amount}

theorem get_le_total {accounts : Finmap fun _ : Address => AccountState} (known : accounts.lookup address = some account) :
    (account.balances.get mosaicId).toNat ≤ totalOf accounts mosaicId := by
  have erased := Totals.total_erase (fun account => (account.balances.get mosaicId).toNat) accounts address
  rw [known, Option.elim_some] at erased
  rw [totalOf]
  omega

theorem totalOf_insert {accounts : Finmap fun _ : Address => AccountState} (known : accounts.lookup address = some account)
    {changed : AccountBalances} {value : Amount} (changes : ChangesAmount account.balances changed mosaicId value) (key : MosaicId) :
    totalOf (accounts.insert address { account with balances := changed }) key + (account.balances.get key).toNat =
      totalOf accounts key + if key = mosaicId then value.toNat else (account.balances.get key).toNat := by
  have inserted := Totals.total_insert (fun account => (account.balances.get key).toNat) accounts address
    { account with balances := changed }
  rw [known, Option.elim_some] at inserted
  dsimp only at inserted
  rw [changes.get] at inserted
  rw [totalOf, totalOf, inserted]
  split <;> rfl

theorem soundBalances_insert {accounts : Finmap fun _ : Address => AccountState} {changed : AccountState}
    (sound : ∀ address account, accounts.lookup address = some account → SoundBalances account.balances)
    (soundChanged : SoundBalances changed.balances) (key : Address) (account : AccountState)
    (known : (accounts.insert address changed).lookup key = some account) : SoundBalances account.balances := by
  by_cases same : key = address
  · rw [same, Finmap.lookup_insert] at known
    obtain rfl := Option.some.inj known
    exact soundChanged
  · rw [Finmap.lookup_insert_of_ne _ same] at known
    exact sound key account known

theorem supplyOf_insert {mosaics next : MosaicCacheDelta} {entry : MosaicEntry}
    (entries : next.entryById = mosaics.entryById.insert mosaicId entry) (key : MosaicId) :
    supplyOf next key = if key = mosaicId then entry.supply.toNat else supplyOf mosaics key := by
  unfold supplyOf find
  rw [entries]
  split
  · next same =>
    rw [same, Finmap.lookup_insert]
    rfl
  · next different => rw [Finmap.lookup_insert_of_ne _ different]

/-- A supply increases if the sum does not wrap around. -/
theorem increaseSupply_eq {entry : MosaicEntry} {delta : Amount} (small : entry.supply.toNat + delta.toNat < 2 ^ 64) :
    entry.increaseSupply delta = .ok { entry with supply := entry.supply + delta } := by
  refine if_neg ?_
  rw [gt_iff_lt, UInt64.lt_iff_toNat_lt, UInt64.toNat_sub_of_le _ _ (by rw [UInt64.le_iff_toNat_le, UInt64.toNat_ofNat']; omega),
    UInt64.toNat_ofNat']
  omega

theorem decreaseSupply_eq {entry : MosaicEntry} {delta : Amount} (covered : delta.toNat ≤ entry.supply.toNat) :
    entry.decreaseSupply delta = .ok { entry with supply := entry.supply - delta } := by
  refine if_neg ?_
  rw [gt_iff_lt, UInt64.lt_iff_toNat_lt]
  omega

theorem find_insert (mosaics : MosaicCacheDelta) (entry : MosaicEntry) :
    find { mosaics with entryById := mosaics.entryById.insert mosaicId entry } mosaicId = some entry := Finmap.lookup_insert _

theorem modify_eq {mosaics : MosaicCacheDelta} {entry changed : MosaicEntry} {change : MosaicEntry → Except MosaicException MosaicEntry}
    (found : mosaics.find mosaicId = some entry) (changes : change entry = .ok changed) :
    mosaics.modify mosaicId change = .ok { mosaics with entryById := mosaics.entryById.insert mosaicId changed } := by
  rw [MosaicCacheDelta.modify, found]
  dsimp only
  rw [changes]
  rfl

/-- The amount is added to the balance of the owner and to the supply. -/
def raise (state : LedgerState) (owner : Address) (mosaicId : MosaicId) (delta : Amount) : Except LedgerError LedgerState := do
  let account ← findAccount state owner
  let balances ← (account.balances.credit mosaicId delta).mapError .accountException
  let mosaics ← observed (state.mosaics.modify mosaicId fun entry => entry.increaseSupply delta)
  return ⟨state.accounts.insert owner { account with balances := balances }, mosaics⟩

/-- The amount is taken from the balance of the owner and from the supply. -/
def lower (state : LedgerState) (owner : Address) (mosaicId : MosaicId) (delta : Amount) : Except LedgerError LedgerState := do
  let account ← findAccount state owner
  let balances ← (account.balances.debit mosaicId delta).mapError .accountException
  let mosaics ← observed (state.mosaics.modify mosaicId fun entry => entry.decreaseSupply delta)
  return ⟨state.accounts.insert owner { account with balances := balances }, mosaics⟩

theorem mosaicSupplyChangeObserver_eq (mode : NotifyMode) (state : LedgerState) (owner : Address) (mosaicId : MosaicId)
    (action : MosaicSupplyChangeAction) (delta : Amount) : mosaicSupplyChangeObserver mode state owner mosaicId action delta =
      if shouldIncrease mode action then raise state owner mosaicId delta else lower state owner mosaicId delta := by
  unfold mosaicSupplyChangeObserver raise lower
  split <;> rfl

variable {entry : MosaicEntry} {delta : Amount} {changed : AccountBalances}

theorem raise_eq {increased : MosaicEntry} (known : state.accounts.lookup address = some account)
    (credited : account.balances.credit mosaicId delta = .ok changed) (found : state.mosaics.find mosaicId = some entry)
    (increases : entry.increaseSupply delta = .ok increased) :
    raise state address mosaicId delta = .ok ⟨state.accounts.insert address { account with balances := changed },
      { state.mosaics with entryById := state.mosaics.entryById.insert mosaicId increased }⟩ := by
  have modified := @modify_eq _ _ _ _ (fun entry => entry.increaseSupply delta) found increases
  rw [raise, findAccount, known]
  change ((account.balances.credit mosaicId delta).mapError LedgerError.accountException >>= _) = _
  rw [credited, modified]
  rfl

theorem lower_eq {decreased : MosaicEntry} (known : state.accounts.lookup address = some account)
    (debited : account.balances.debit mosaicId delta = .ok changed) (found : state.mosaics.find mosaicId = some entry)
    (decreases : entry.decreaseSupply delta = .ok decreased) :
    lower state address mosaicId delta = .ok ⟨state.accounts.insert address { account with balances := changed },
      { state.mosaics with entryById := state.mosaics.entryById.insert mosaicId decreased }⟩ := by
  have modified := @modify_eq _ _ _ _ (fun entry => entry.decreaseSupply delta) found decreases
  rw [lower, findAccount, known]
  change ((account.balances.debit mosaicId delta).mapError LedgerError.accountException >>= _) = _
  rw [debited, modified]
  rfl

/-- The balance of an account and the supply of a mosaic change by the same amount. -/
theorem SoundLedger.change (sound : SoundLedger state) (known : state.accounts.lookup address = some account)
    (found : state.mosaics.find mosaicId = some entry) {value supply : Amount}
    (changes : ChangesAmount account.balances changed mosaicId value)
    (balanced : value.toNat + entry.supply.toNat = (account.balances.get mosaicId).toNat + supply.toNat) :
    SoundLedger ⟨state.accounts.insert address { account with balances := changed },
      { state.mosaics with entryById := state.mosaics.entryById.insert mosaicId { entry with supply := supply } }⟩ := by
  refine ⟨sound.mosaics.modify found rfl rfl, soundBalances_insert sound.balances changes.sound, fun key => ?_⟩
  have total := totalOf_insert known changes key
  have backed := sound.backed key
  have covered := @get_le_total _ _ key _ known
  rw [supplyOf_insert rfl]
  split
  · next same =>
    rw [if_pos same, same] at total
    rw [same] at backed covered ⊢
    rw [supplyOf, found, Option.elim_some] at backed
    dsimp only at total ⊢
    omega
  · next different =>
    rw [if_neg different] at total
    dsimp only at total ⊢
    omega

/-- Two changes of an account and an entry restore the state. -/
theorem restored_state {middleAccount restoredAccount : AccountState} {middle : MosaicEntry}
    (known : state.accounts.lookup address = some account) (found : state.mosaics.find mosaicId = some entry)
    (same : restoredAccount = account) : (⟨(state.accounts.insert address middleAccount).insert address restoredAccount,
      { state.mosaics with
        entryById := (state.mosaics.entryById.insert mosaicId middle).insert mosaicId entry }⟩ : LedgerState) = state := by
  rw [same, Finmap.insert_insert, Finmap.insert_insert, Totals.insert_self known, Totals.insert_self found]

/-- What the owner and the supply gained is taken back. -/
theorem SoundLedger.raise_lowered (sound : SoundLedger state) (known : state.accounts.lookup address = some account)
    (found : state.mosaics.find mosaicId = some entry) (small : entry.supply.toNat + delta.toNat < 2 ^ 64) :
    ∃ next, raise state address mosaicId delta = .ok next ∧ SoundLedger next ∧ lower next address mosaicId delta = .ok state := by
  have covered := (@get_le_total _ _ mosaicId _ known).trans (sound.backed mosaicId)
  rw [supplyOf, found, Option.elim_some] at covered
  have soundAccount := sound.balances address account known
  have smallBalance : (account.balances.get mosaicId).toNat + delta.toNat < 2 ^ 64 := by omega
  obtain ⟨credited, credits, changes⟩ := soundAccount.credit (sound.mosaics.ids _ _ found).2 smallBalance
  have sumBalance : (account.balances.get mosaicId + delta).toNat = (account.balances.get mosaicId).toNat + delta.toNat := by
    rw [UInt64.toNat_add, Nat.mod_eq_of_lt smallBalance]
  have sumSupply : (entry.supply + delta).toNat = entry.supply.toNat + delta.toNat := by
    rw [UInt64.toNat_add, Nat.mod_eq_of_lt small]
  refine ⟨_, raise_eq known credits found (increaseSupply_eq small), sound.change known found changes (by omega), ?_⟩
  have creditedAmount := changes.get mosaicId
  rw [if_pos rfl] at creditedAmount
  obtain ⟨restored, debits, restores⟩ := @SoundBalances.debit _ mosaicId delta changes.sound
    (by rw [creditedAmount, UInt64.le_iff_toNat_le]; omega)
  have sameBalances : restored = account.balances := by
    refine restores.sound.ext soundAccount (restores.optimized.trans changes.optimized) fun key => ?_
    rw [restores.get, creditedAmount, changes.get]
    split
    · next same => rw [same, UInt64.add_sub_cancel]
    · rfl
  have decreases : MosaicEntry.decreaseSupply { entry with supply := entry.supply + delta } delta = .ok entry := by
    rw [decreaseSupply_eq (by dsimp only; omega), UInt64.add_sub_cancel]
  rw [lower_eq (Finmap.lookup_insert _) debits (find_insert _ _) decreases]
  exact congrArg _ (restored_state known found (by rw [sameBalances]))

/-- What the owner and the supply lost is given back. -/
theorem SoundLedger.lower_raised (sound : SoundLedger state) (known : state.accounts.lookup address = some account)
    (found : state.mosaics.find mosaicId = some entry) (enough : delta ≤ account.balances.get mosaicId) :
    ∃ next, lower state address mosaicId delta = .ok next ∧ SoundLedger next ∧ raise next address mosaicId delta = .ok state := by
  have covered := (@get_le_total _ _ mosaicId _ known).trans (sound.backed mosaicId)
  rw [supplyOf, found, Option.elim_some] at covered
  have soundAccount := sound.balances address account known
  obtain ⟨debited, debits, changes⟩ := soundAccount.debit enough
  have differenceBalance := UInt64.toNat_sub_of_le _ _ enough
  rw [UInt64.le_iff_toNat_le] at enough
  have differenceSupply : (entry.supply - delta).toNat = entry.supply.toNat - delta.toNat :=
    UInt64.toNat_sub_of_le _ _ (by rw [UInt64.le_iff_toNat_le]; omega)
  have bounded := entry.supply.toNat_lt
  refine ⟨_, lower_eq known debits found (decreaseSupply_eq (by omega)), sound.change known found changes (by omega), ?_⟩
  have debitedAmount := changes.get mosaicId
  rw [if_pos rfl] at debitedAmount
  obtain ⟨restored, credits, restores⟩ := @SoundBalances.credit _ mosaicId delta changes.sound (sound.mosaics.ids _ _ found).2
    (by rw [debitedAmount]; omega)
  have sameBalances : restored = account.balances := by
    refine restores.sound.ext soundAccount (restores.optimized.trans changes.optimized) fun key => ?_
    rw [restores.get, debitedAmount, changes.get]
    split
    · next same => rw [same, UInt64.sub_add_cancel]
    · rfl
  have increases : MosaicEntry.increaseSupply { entry with supply := entry.supply - delta } delta = .ok entry := by
    rw [increaseSupply_eq (by dsimp only; omega), UInt64.sub_add_cancel]
  rw [raise_eq (Finmap.lookup_insert _) credits (find_insert _ _) increases]
  exact congrArg _ (restored_state known found (by rw [sameBalances]))

end Supplies

section Definitions

variable {mosaics : MosaicCacheDelta} {owner : Address} {mosaicId : MosaicId} {properties : MosaicProperties} {height : Height}

/-- Merged properties are separated again. -/
theorem mergeProperties_rollback (current notification : MosaicProperties) :
    mergeProperties (mergeProperties current notification .commit) notification .rollback = current := by
  unfold mergeProperties
  dsimp only
  rw [UInt8.xor_assoc, UInt8.xor_self, UInt8.xor_zero, UInt8.xor_assoc, UInt8.xor_self, UInt8.xor_zero, UInt64.add_sub_cancel]

theorem mosaicDefinitionObserver_rollback {removed : MosaicCacheDelta} {entry : MosaicEntry}
    (found : mosaics.find mosaicId = some entry) (removes : mosaics.remove mosaicId = .ok removed) :
    mosaicDefinitionObserver .rollback height mosaics owner mosaicId properties =
      if entry.definition.revision = 1 then .ok removed
      else removed.insert (applyNotification entry owner mosaicId properties .rollback) := by
  rw [mosaicDefinitionObserver, found]
  dsimp only
  rw [removes]
  by_cases first : entry.definition.revision = 1
  · rw [if_pos first]
    exact if_pos ⟨rfl, first⟩
  · rw [if_neg first]
    exact if_neg fun both => first both.2

/-- A new mosaic is removed by the rollback of its definition. -/
theorem definition_created (sound : mosaics.Sound) (valid : mosaicId ≠ 0) (new : mosaics.find mosaicId = none) :
    ∃ next, mosaicDefinitionObserver .commit height mosaics owner mosaicId properties = .ok next ∧ next.Sound ∧
      next.entryById = mosaics.entryById.insert mosaicId ⟨mosaicId, ⟨height, owner, 1, properties⟩, 0⟩ ∧
      mosaicDefinitionObserver .rollback height next owner mosaicId properties = .ok mosaics := by
  obtain ⟨next, inserted, soundNext, entries, removed⟩ :=
    @Sound.insert_undone _ ⟨mosaicId, ⟨height, owner, 1, properties⟩, 0⟩ sound new valid
  refine ⟨next, ?_, soundNext, entries, ?_⟩
  · rw [mosaicDefinitionObserver, new]
    exact inserted
  · have found : next.find mosaicId = some ⟨mosaicId, ⟨height, owner, 1, properties⟩, 0⟩ := by
      rw [find, entries, Finmap.lookup_insert]
    exact (mosaicDefinitionObserver_rollback found removed).trans (if_pos rfl)

/-- The modification of a mosaic without a supply replaces its entry. -/
theorem definition_modified (sound : mosaics.Sound) {entry : MosaicEntry} (found : mosaics.find mosaicId = some entry) :
    ∃ removed next, mosaics.remove mosaicId = .ok removed ∧ removed.insert entry = .ok mosaics ∧
      mosaicDefinitionObserver .commit height mosaics owner mosaicId properties = .ok next ∧ next.Sound ∧
      next.entryById = mosaics.entryById.insert mosaicId (applyNotification entry owner mosaicId properties .commit) ∧
      next.remove mosaicId = .ok removed := by
  obtain ⟨removed, removes, soundRemoved, entriesRemoved, reinserts⟩ := sound.remove_undone found
  have absent : removed.find (applyNotification entry owner mosaicId properties .commit).mosaicId = none := by
    rw [find, entriesRemoved]
    exact Finmap.lookup_erase _ _
  obtain ⟨next, inserted, soundNext, entries, undone⟩ := soundRemoved.insert_undone absent (sound.ids _ _ found).2
  refine ⟨removed, next, removes, reinserts, ?_, soundNext, ?_, undone⟩
  · rw [mosaicDefinitionObserver, found]
    dsimp only
    rw [removes]
    exact inserted
  · rw [entries, entriesRemoved]
    exact Totals.insert_erase _ _ _

theorem removed_find {removed : MosaicCacheDelta} (removes : mosaics.remove mosaicId = .ok removed) : removed.find mosaicId = none := by
  unfold MosaicCacheDelta.remove at removes
  split at removes
  · cases removes
  · rw [← Except.ok.inj removes]
    exact Finmap.lookup_erase _ _

/-- The rollback restores an entry that has no supply and whose revision does not wrap around. -/
theorem applyNotification_rollback {entry : MosaicEntry} (sameId : entry.mosaicId = mosaicId)
    (sameOwner : entry.definition.ownerAddress = owner) (empty : entry.supply = 0) :
    applyNotification (applyNotification entry owner mosaicId properties .commit) owner mosaicId properties .rollback = entry := by
  obtain ⟨id, ⟨startHeight, ownerAddress, revision, current⟩, supply⟩ := entry
  dsimp only at sameId sameOwner empty
  unfold applyNotification
  dsimp only
  rw [mergeProperties_rollback, UInt32.add_sub_cancel, sameId, sameOwner, empty]

end Definitions

section Steps

variable {config : MosaicConfiguration} {state : LedgerState}

theorem mapError_ok {α ε δ : Type} {result : Except ε α} {value : α} {wrap : ε → δ} (ok : result.mapError wrap = .ok value) :
    result = .ok value := by
  cases result with
  | error _ => cases ok
  | ok other => exact congrArg _ (Except.ok.inj ok)

theorem tryGetOwned_ok {mosaics : MosaicCacheDelta} {mosaicId : MosaicId} {height : Height} {owner : Address} {entry : MosaicEntry}
    (gets : tryGetOwned mosaics mosaicId height owner = .ok entry) :
    mosaics.find mosaicId = some entry ∧ entry.definition.ownerAddress = owner := by
  obtain ⟨active, getsActive, gets⟩ := Runs.bind_eq_ok.mp gets
  split at gets
  · cases gets
  · next sameOwner =>
    obtain rfl := Except.ok.inj gets
    refine ⟨?_, not_not.mp sameOwner⟩
    unfold tryGetActive at getsActive
    split at getsActive
    · cases getsActive
    · next found =>
      split at getsActive
      · rw [found, Except.ok.inj getsActive]
      · cases getsActive

/-- A mosaic that is modified belongs to its owner and has no supply. -/
theorem mosaicAvailabilityValidator_ok {mosaics : MosaicCacheDelta} {mosaicId : MosaicId} {height : Height} {owner : Address}
    {properties : MosaicProperties} {entry : MosaicEntry}
    (accepted : mosaicAvailabilityValidator mosaics mosaicId height owner properties = .ok ())
    (found : mosaics.find mosaicId = some entry) : entry.definition.ownerAddress = owner ∧ entry.supply = 0 := by
  unfold mosaicAvailabilityValidator at accepted
  split at accepted
  · rw [found] at accepted
    cases accepted
  · next gets =>
    obtain ⟨foundOther, sameOwner⟩ := tryGetOwned_ok gets
    obtain rfl := Option.some.inj (found.symm.trans foundOther)
    split at accepted
    · cases accepted
    · split at accepted
      · cases accepted
      · next empty => exact ⟨sameOwner, not_not.mp empty⟩

theorem observe_definition (mode : NotifyMode) (height : Height) (resolvers : ResolverContext) (owner : Address)
    (nonce : MosaicNonce) (mosaicId : MosaicId) (properties : MosaicProperties) :
    observe mode state ⟨height, resolvers, .definition owner nonce mosaicId properties⟩ =
      (observed (mosaicDefinitionObserver mode height state.mosaics owner mosaicId properties)).map fun mosaics =>
        { state with mosaics := mosaics } := rfl

theorem observe_supplyChange (mode : NotifyMode) (height : Height) (resolvers : ResolverContext) (owner : Address)
    (unresolvedId : MosaicId) (action : MosaicSupplyChangeAction) (delta : Amount) :
    observe mode state ⟨height, resolvers, .supplyChange owner unresolvedId action delta⟩ =
      if shouldIncrease mode action then raise state owner (resolvers.resolveMosaic unresolvedId) delta
      else lower state owner (resolvers.resolveMosaic unresolvedId) delta :=
  mosaicSupplyChangeObserver_eq ..

/-- A definition without a supply in place of one without a supply keeps the ledger sound. -/
theorem SoundLedger.define (sound : SoundLedger state) {next : MosaicCacheDelta} {mosaicId : MosaicId} {entry : MosaicEntry}
    (soundNext : next.Sound) (entries : next.entryById = state.mosaics.entryById.insert mosaicId entry)
    (empty : entry.supply = 0) (none : supplyOf state.mosaics mosaicId = 0) : SoundLedger { state with mosaics := next } := by
  refine ⟨soundNext, sound.balances, fun key => ?_⟩
  have backed := sound.backed key
  rw [supplyOf_insert entries]
  split
  · next same =>
    rw [same, none] at backed
    rw [same, empty]
    exact backed
  · exact backed

variable [Sha3]

/-- What the validators check of a supply change. -/
theorem supplyChange_accepted {height : Height} {resolvers : ResolverContext} {owner : Address} {unresolvedId : MosaicId}
    {action : MosaicSupplyChangeAction} {delta : Amount}
    (accepted : validate config state ⟨height, resolvers, .supplyChange owner unresolvedId action delta⟩ = .ok ()) :
    ∃ entry account, state.mosaics.find (resolvers.resolveMosaic unresolvedId) = some entry ∧
      state.accounts.lookup owner = some account ∧
      ((action = decreaseAction ∧ delta ≤ account.balances.get (resolvers.resolveMosaic unresolvedId)) ∨
        (action = increaseAction ∧ entry.supply.toNat + delta.toNat < 2 ^ 64)) := by
  obtain ⟨_, change, accepted⟩ := Runs.bind_eq_ok.mp accepted
  obtain ⟨_, _, accepted⟩ := Runs.bind_eq_ok.mp accepted
  obtain ⟨_, _, allowed⟩ := Runs.bind_eq_ok.mp accepted
  have validAction : action ≤ increaseAction := by
    have changeOk := mapError_ok change
    unfold mosaicSupplyChangeValidator at changeOk
    by_contra invalid
    rw [if_pos invalid] at changeOk
    cases changeOk
  unfold mosaicSupplyChangeAllowedValidator at allowed
  split at allowed
  · cases allowed
  · next entry found =>
    obtain ⟨account, finds, allowed⟩ := Runs.bind_eq_ok.mp allowed
    have known : state.accounts.lookup owner = some account := by
      unfold findAccount at finds
      split at finds
      · cases finds
      · next known => rw [known, Except.ok.inj finds]
    refine ⟨entry, account, found, known, ?_⟩
    dsimp only at allowed
    split at allowed
    · cases allowed
    · split at allowed
      · next decreases =>
        split at allowed
        · cases allowed
        · next enough => exact .inl ⟨decreases, UInt64.not_lt.mp enough⟩
      · next notDecrease =>
        split at allowed
        · cases allowed
        · next small =>
          refine .inr ⟨?_, ?_⟩
          · rw [UInt8.le_iff_toNat_le] at validAction
            have positive : action.toNat ≠ 0 := fun zero => notDecrease (UInt8.toNat_inj.mp zero)
            refine UInt8.toNat_inj.mp ?_
            have one : increaseAction.toNat = 1 := rfl
            omega
          · rw [Bool.or_eq_true, not_or, decide_eq_true_iff, decide_eq_true_iff, UInt64.not_lt, UInt64.le_iff_toNat_le,
              UInt64.toNat_add] at small
            have bound := entry.supply.toNat_lt
            have boundDelta := delta.toNat_lt
            omega

/-- The modified definition has a revision that did not wrap around. -/
def RevisionKept (state : LedgerState) (delivery : MosaicDelivery) : Prop :=
  match delivery.notification with
  | .definition _ _ mosaicId _ => ∀ entry, state.mosaics.find mosaicId = some entry → entry.definition.revision ≠ 0
  | .supplyChange _ _ _ _ => True

/-- An accepted definition is observed, and its rollback restores the state unless a revision wrapped around. -/
theorem definition_observed (sound : SoundLedger state) {height : Height} {resolvers : ResolverContext} {owner : Address}
    {nonce : MosaicNonce} {mosaicId : MosaicId} {properties : MosaicProperties}
    (accepted : validate config state ⟨height, resolvers, .definition owner nonce mosaicId properties⟩ = .ok ()) :
    ∃ next, observe .commit state ⟨height, resolvers, .definition owner nonce mosaicId properties⟩ = .ok next ∧ SoundLedger next ∧
      (observe .rollback next ⟨height, resolvers, .definition owner nonce mosaicId properties⟩ = .ok state ↔
        RevisionKept state ⟨height, resolvers, .definition owner nonce mosaicId properties⟩) := by
  obtain ⟨_, idAccepted, accepted⟩ := Runs.bind_eq_ok.mp (mapError_ok accepted)
  obtain ⟨_, _, accepted⟩ := Runs.bind_eq_ok.mp accepted
  obtain ⟨_, available, _⟩ := Runs.bind_eq_ok.mp accepted
  have valid : mosaicId ≠ 0 := by
    rintro rfl
    cases idAccepted
  cases found : state.mosaics.find mosaicId with
  | none =>
    obtain ⟨next, observes, soundNext, entries, restores⟩ := definition_created sound.mosaics valid found
    refine ⟨{ state with mosaics := next }, ?_, sound.define soundNext entries rfl (by rw [supplyOf, found]; rfl),
      iff_of_true ?_ ?_⟩
    · rw [observe_definition, observes]
      rfl
    · rw [observe_definition, restores]
      rfl
    · intro entry foundEntry
      rw [found] at foundEntry
      cases foundEntry
  | some entry =>
    obtain ⟨sameOwner, empty⟩ := mosaicAvailabilityValidator_ok available found
    obtain ⟨removed, next, removes, reinserts, observes, soundNext, entries, undone⟩ :=
      @definition_modified state.mosaics owner mosaicId properties height sound.mosaics entry found
    have foundNext : next.find mosaicId = some (applyNotification entry owner mosaicId properties .commit) := by
      rw [find, entries, Finmap.lookup_insert]
    refine ⟨{ state with mosaics := next }, ?_,
      sound.define soundNext entries rfl (by rw [supplyOf, found, Option.elim_some, empty]; rfl), ?_⟩
    · rw [observe_definition, observes]
      rfl
    · rw [observe_definition, mosaicDefinitionObserver_rollback foundNext undone]
      by_cases wrapped : entry.definition.revision = 0
      · refine iff_of_false (fun restores => ?_) fun kept => kept entry found wrapped
        have revision : (applyNotification entry owner mosaicId properties .commit).definition.revision = 1 := by
          rw [applyNotification, wrapped]
          rfl
        rw [if_pos revision] at restores
        have same : removed = state.mosaics := congrArg LedgerState.mosaics (Except.ok.inj restores)
        have absent := removed_find removes
        rw [same, found] at absent
        cases absent
      · refine iff_of_true ?_ fun other foundOther => Option.some.inj (found.symm.trans foundOther) ▸ wrapped
        have revision : (applyNotification entry owner mosaicId properties .commit).definition.revision ≠ 1 := by
          intro one
          refine wrapped ?_
          rw [← @UInt32.add_sub_cancel entry.definition.revision 1]
          exact congrArg (· - 1) one
        rw [if_neg revision, applyNotification_rollback (sound.mosaics.ids _ _ found).1 sameOwner empty, reinserts]
        rfl

/-- An accepted notification is observed, and its rollback restores the state unless a revision wrapped around. -/
theorem observe_accepted (sound : SoundLedger state) {delivery : MosaicDelivery} (accepted : validate config state delivery = .ok ()) :
    ∃ next, observe .commit state delivery = .ok next ∧ SoundLedger next ∧
      (observe .rollback next delivery = .ok state ↔ RevisionKept state delivery) := by
  obtain ⟨height, resolvers, notification⟩ := delivery
  cases notification with
  | definition owner nonce mosaicId properties => exact definition_observed sound accepted
  | supplyChange owner unresolvedId action delta =>
    obtain ⟨entry, account, found, known, ⟨rfl, enough⟩ | ⟨rfl, small⟩⟩ := supplyChange_accepted accepted
    · obtain ⟨next, lowers, soundNext, raises⟩ := sound.lower_raised known found enough
      refine ⟨next, ?_, soundNext, iff_of_true ?_ trivial⟩
      · rw [observe_supplyChange]
        exact lowers
      · rw [observe_supplyChange]
        exact raises
    · obtain ⟨next, raises, soundNext, lowers⟩ := sound.raise_lowered known found small
      refine ⟨next, ?_, soundNext, iff_of_true ?_ trivial⟩
      · rw [observe_supplyChange]
        exact raises
      · rw [observe_supplyChange]
        exact lowers

theorem execute_ok {next : LedgerState} {delivery : MosaicDelivery} (executed : execute config state delivery = .ok next) :
    validate config state delivery = .ok () ∧ observe .commit state delivery = .ok next := by
  obtain ⟨_, accepted, observes⟩ := Runs.bind_eq_ok.mp executed
  exact ⟨accepted, observes⟩

theorem SoundLedger.execute (sound : SoundLedger state) {next : LedgerState} {delivery : MosaicDelivery}
    (executed : execute config state delivery = .ok next) : SoundLedger next := by
  obtain ⟨accepted, observes⟩ := execute_ok executed
  obtain ⟨other, observesOther, soundOther, _⟩ := observe_accepted sound accepted
  obtain rfl := Except.ok.inj (observes.symm.trans observesOther)
  exact soundOther

end Steps

/-- Other parts of the program open accounts, inflate supplies and move amounts that the supplies cover. -/
inductive Reachable [Sha3] (config : MosaicConfiguration) : LedgerState → Prop
  | empty : Reachable config ⟨∅, .empty⟩
  | executed {state next : LedgerState} {delivery : MosaicDelivery} (earlier : Reachable config state)
      (executes : execute config state delivery = .ok next) : Reachable config next
  | opened {state : LedgerState} {address : Address} {account : AccountState} (earlier : Reachable config state)
      (new : state.accounts.lookup address = none) (empty : account.balances = .empty) :
      Reachable config { state with accounts := state.accounts.insert address account }
  | inflated {state : LedgerState} {mosaicId : MosaicId} {amount : Amount} {mosaics : MosaicCacheDelta}
      (earlier : Reachable config state)
      (increases : state.mosaics.modify mosaicId (fun entry => entry.increaseSupply amount) = .ok mosaics) :
      Reachable config { state with mosaics := mosaics }
  | credited {state : LedgerState} {address : Address} {account : AccountState} {mosaicId : MosaicId} {amount : Amount}
      {balances : AccountBalances} (earlier : Reachable config state) (known : state.accounts.lookup address = some account)
      (covered : totalOf state.accounts mosaicId + amount.toNat ≤ supplyOf state.mosaics mosaicId)
      (credits : account.balances.credit mosaicId amount = .ok balances) :
      Reachable config { state with accounts := state.accounts.insert address { account with balances := balances } }
  | debited {state : LedgerState} {address : Address} {account : AccountState} {mosaicId : MosaicId} {amount : Amount}
      {balances : AccountBalances} (earlier : Reachable config state) (known : state.accounts.lookup address = some account)
      (debits : account.balances.debit mosaicId amount = .ok balances) :
      Reachable config { state with accounts := state.accounts.insert address { account with balances := balances } }

variable {state : LedgerState} {address : Address} {account : AccountState} {mosaicId : MosaicId} {amount : Amount}
  {balances : AccountBalances}

theorem SoundLedger.empty : SoundLedger ⟨∅, .empty⟩ := by
  refine ⟨sound_empty, nofun, fun key => ?_⟩
  rw [totalOf, Totals.total_empty]
  exact Nat.zero_le _

theorem SoundLedger.opened (sound : SoundLedger state) (new : state.accounts.lookup address = none)
    (empty : account.balances = .empty) : SoundLedger { state with accounts := state.accounts.insert address account } := by
  refine ⟨sound.mosaics, soundBalances_insert sound.balances (empty ▸ State.soundBalances_empty), fun key => ?_⟩
  have inserted := Totals.total_insert (fun account => (account.balances.get key).toNat) state.accounts address account
  have backed := sound.backed key
  have none : account.balances.get key = 0 := by rw [empty]; rfl
  rw [new, Option.elim_none, none, UInt64.toNat_zero] at inserted
  dsimp only
  rw [totalOf] at backed ⊢
  omega

theorem SoundLedger.inflated (sound : SoundLedger state) {mosaics : MosaicCacheDelta}
    (increases : state.mosaics.modify mosaicId (fun entry => entry.increaseSupply amount) = .ok mosaics) :
    SoundLedger { state with mosaics := mosaics } := by
  unfold MosaicCacheDelta.modify at increases
  split at increases
  · cases increases
  · next entry found =>
    dsimp only at increases
    unfold MosaicEntry.increaseSupply at increases
    split at increases
    · cases increases
    · next small =>
      obtain rfl := Except.ok.inj increases
      have sum : (entry.supply + amount).toNat = entry.supply.toNat + amount.toNat := by
        have bound := amount.toNat_lt
        rw [gt_iff_lt, UInt64.not_lt, UInt64.le_iff_toNat_le,
          UInt64.toNat_sub_of_le _ _ (by rw [UInt64.le_iff_toNat_le, UInt64.toNat_ofNat']; omega), UInt64.toNat_ofNat'] at small
        rw [UInt64.toNat_add]
        omega
      refine ⟨sound.mosaics.modify found rfl rfl, sound.balances, fun key => ?_⟩
      have backed := sound.backed key
      rw [supplyOf_insert rfl]
      split
      · next same =>
        rw [same, supplyOf, found, Option.elim_some] at backed
        rw [same]
        dsimp only
        omega
      · exact backed

theorem SoundLedger.insert (sound : SoundLedger state) (known : state.accounts.lookup address = some account) {value : Amount}
    (changes : ChangesAmount account.balances balances mosaicId value) (covered : totalOf state.accounts mosaicId + value.toNat ≤
      supplyOf state.mosaics mosaicId + (account.balances.get mosaicId).toNat) :
    SoundLedger { state with accounts := state.accounts.insert address { account with balances := balances } } := by
  refine ⟨sound.mosaics, soundBalances_insert sound.balances changes.sound, fun key => ?_⟩
  have total := totalOf_insert known changes key
  have backed := sound.backed key
  dsimp only at total ⊢
  by_cases same : key = mosaicId
  · rw [if_pos same] at total
    rw [same] at total ⊢
    omega
  · rw [if_neg same] at total
    omega

theorem SoundLedger.credited (sound : SoundLedger state) (known : state.accounts.lookup address = some account)
    (covered : totalOf state.accounts mosaicId + amount.toNat ≤ supplyOf state.mosaics mosaicId)
    (credits : account.balances.credit mosaicId amount = .ok balances) :
    SoundLedger { state with accounts := state.accounts.insert address { account with balances := balances } } := by
  have inside := @get_le_total _ _ mosaicId _ known
  have bounded : supplyOf state.mosaics mosaicId < 2 ^ 64 := by
    unfold supplyOf
    cases state.mosaics.find mosaicId with
    | none => exact Nat.two_pow_pos 64
    | some entry => exact entry.supply.toNat_lt
  have small : (account.balances.get mosaicId).toNat + amount.toNat < 2 ^ 64 := by omega
  refine sound.insert known ((sound.balances _ _ known).of_credit credits small) ?_
  rw [UInt64.toNat_add, Nat.mod_eq_of_lt small]
  omega

theorem SoundLedger.debited (sound : SoundLedger state) (known : state.accounts.lookup address = some account)
    (debits : account.balances.debit mosaicId amount = .ok balances) :
    SoundLedger { state with accounts := state.accounts.insert address { account with balances := balances } } := by
  obtain ⟨enough, changes⟩ := (sound.balances _ _ known).of_debit debits
  have backed := sound.backed mosaicId
  refine sound.insert known changes ?_
  rw [UInt64.toNat_sub_of_le _ _ enough]
  omega

theorem soundLedger_of_reachable [Sha3] {config : MosaicConfiguration} (reachable : Reachable config state) : SoundLedger state := by
  induction reachable with
  | empty => exact .empty
  | executed _ executes sound => exact sound.execute executes
  | opened _ new empty sound => exact sound.opened new empty
  | inflated _ increases sound => exact sound.inflated increases
  | credited _ known covered credits sound => exact sound.credited known covered credits
  | debited _ known debits sound => exact sound.debited known debits

/-- Accepted notifications never throw, and they are rolled back exactly if no modified revision wrapped around. -/
theorem rollback_restores_mosaics_iff [Sha3] {config : MosaicConfiguration} {state final : LedgerState} {deliveries : List MosaicDelivery}
    (reachable : Reachable config state) (committed : deliveries.foldlM (execute config) state = .ok final) :
    (∀ delivery, validate config final delivery = .ok () → ∃ next, observe .commit final delivery = .ok next) ∧
    ((∀ done undone, deliveries = done ++ undone → ∃ middle, done.foldlM (execute config) state = .ok middle ∧
      undone.reverse.foldlM (observe .rollback) final = .ok middle) ↔
      Runs.Meets (execute config) RevisionKept state deliveries) := by
  have sound := soundLedger_of_reachable reachable
  have preserved (state : LedgerState) (delivery : MosaicDelivery) (next : LedgerState) (sound : SoundLedger state)
      (executed : execute config state delivery = .ok next) : SoundLedger next := sound.execute executed
  refine ⟨fun delivery accepted => ?_, ?_⟩
  · obtain ⟨next, observes, _⟩ := observe_accepted (Runs.always preserved sound committed) accepted
    exact ⟨next, observes⟩
  · refine Runs.restores_iff_meets preserved (fun state delivery next sound executed => ?_) sound committed
    obtain ⟨accepted, observes⟩ := execute_ok executed
    obtain ⟨other, observesOther, _, restores⟩ := observe_accepted sound accepted
    obtain rfl := Except.ok.inj (observes.symm.trans observesOther)
    exact restores

namespace Samples

def config : MosaicConfiguration := ⟨0, 0, 0, 0, 0⟩

def owner : Address := Vector.replicate 24 1

/-- The definition of the first mosaic of the owner, with the given flags. -/
def define [Sha3] (flags : MosaicFlags) : MosaicDelivery :=
  ⟨1, ⟨fun id => id, fun address => address⟩, .definition owner 0 (generateMosaicId owner 0) ⟨flags, 0, 0⟩⟩

variable [Sha3]

/-- The mosaic is eternal and has a revision and no supply. -/
def HasRevision (state : LedgerState) (revision : UInt32) : Prop :=
  ∃ entry, state.mosaics.find (generateMosaicId owner 0) = some entry ∧ entry.definition.revision = revision ∧
    entry.definition.properties.duration = 0 ∧ entry.definition.properties.divisibility = 0 ∧
    entry.definition.ownerAddress = owner ∧ entry.supply = 0

theorem validate_define (valid : generateMosaicId owner 0 ≠ 0) {flags : MosaicFlags} (known : flags ≤ 15) {state : LedgerState}
    (available : mosaicAvailabilityValidator state.mosaics (generateMosaicId owner 0) 1 owner ⟨flags, 0, 0⟩ = .ok ())
    (divisible : mosaicDivisibilityValidator state.mosaics (generateMosaicId owner 0) 0 ⟨flags, 0, 0⟩ = .ok ()) :
    validate config state (define flags) = .ok () := by
  have idAccepted : mosaicIdValidator owner 0 (generateMosaicId owner 0) = .ok () := by
    rw [mosaicIdValidator, if_neg valid, if_pos rfl]
  have flagsAccepted : mosaicFlagsValidator 0 1 ⟨flags, 0, 0⟩ = .ok () := if_pos known
  change validated (do
    mosaicIdValidator owner 0 (generateMosaicId owner 0)
    mosaicFlagsValidator 0 1 ⟨flags, 0, 0⟩
    mosaicAvailabilityValidator state.mosaics (generateMosaicId owner 0) 1 owner ⟨flags, 0, 0⟩
    mosaicDivisibilityValidator state.mosaics (generateMosaicId owner 0) 0 ⟨flags, 0, 0⟩
    mosaicDurationValidator state.mosaics (generateMosaicId owner 0) 0 ⟨flags, 0, 0⟩) = _
  rw [idAccepted, flagsAccepted, available, divisible]
  rfl

theorem define_executes (valid : generateMosaicId owner 0 ≠ 0) :
    ∃ state, execute config ⟨∅, .empty⟩ (define 0) = .ok state ∧ HasRevision state 1 := by
  have accepted : validate config ⟨∅, .empty⟩ (define 0) = .ok () := validate_define valid (by decide) rfl rfl
  obtain ⟨next, observes, _, entries, _⟩ := @definition_created .empty owner _ ⟨0, 0, 0⟩ 1 sound_empty valid rfl
  refine ⟨⟨∅, next⟩, ?_, _, by rw [find, entries, Finmap.lookup_insert], rfl, rfl, rfl, rfl, rfl⟩
  rw [execute, accepted]
  change observe .commit ⟨∅, .empty⟩ (define 0) = _
  rw [define, observe_definition, observes]
  rfl

/-- Every change of a flag takes the next revision. -/
theorem modify_executes (valid : generateMosaicId owner 0 ≠ 0) {state : LedgerState} {revision : UInt32} (sound : SoundLedger state)
    (has : HasRevision state revision) :
    ∃ next, execute config state (define 1) = .ok next ∧ HasRevision next (revision + 1) := by
  obtain ⟨entry, found, rfl, eternal, divisibility, sameOwner, empty⟩ := has
  have active : entry.definition.isActive 1 = true := by
    rw [MosaicDefinition.isActive, MosaicDefinition.isEternal, eternal]
    rfl
  have gets : tryGetOwned state.mosaics (generateMosaicId owner 0) 1 owner = .ok entry := by
    rw [tryGetOwned, tryGetActive, found]
    dsimp only
    rw [if_pos active]
    exact if_neg (not_not.mpr sameOwner)
  have available : mosaicAvailabilityValidator state.mosaics (generateMosaicId owner 0) 1 owner ⟨1, 0, 0⟩ = .ok () := by
    rw [mosaicAvailabilityValidator, gets]
    dsimp only
    rw [if_neg (by simp [containsAnyPropertyChange, noFlags]), if_neg (not_not.mpr empty)]
  have divisible : mosaicDivisibilityValidator state.mosaics (generateMosaicId owner 0) 0 ⟨1, 0, 0⟩ = .ok () := by
    rw [mosaicDivisibilityValidator, found]
    exact if_neg (by dsimp only; rw [divisibility]; decide)
  have accepted := validate_define valid (by decide) available divisible
  obtain ⟨removed, next, _, _, observes, _, entries, _⟩ :=
    @definition_modified state.mosaics owner _ ⟨1, 0, 0⟩ 1 sound.mosaics entry found
  refine ⟨{ state with mosaics := next }, ?_, _, by rw [find, entries, Finmap.lookup_insert], rfl, ?_, ?_, rfl, rfl⟩
  · rw [execute, accepted]
    change observe .commit state (define 1) = _
    rw [define, observe_definition, observes]
    rfl
  · rw [applyNotification, mergeProperties]
    dsimp only
    rw [eternal]
    rfl
  · rw [applyNotification, mergeProperties]
    dsimp only
    rw [divisibility]
    rfl

theorem modifications_execute (valid : generateMosaicId owner 0 ≠ 0) (count : Nat) :
    ∃ state, Reachable config state ∧ HasRevision state (UInt32.ofNat (count + 1)) := by
  induction count with
  | zero =>
    obtain ⟨state, executes, has⟩ := define_executes valid
    exact ⟨state, .executed .empty executes, has⟩
  | succ count ih =>
    obtain ⟨state, reachable, has⟩ := ih
    obtain ⟨next, executes, hasNext⟩ := modify_executes valid (soundLedger_of_reachable reachable) has
    refine ⟨next, .executed reachable executes, ?_⟩
    rwa [UInt32.ofNat_add (count + 1) 1]

end Samples

/-- The mosaic is lost if the revision that is rolled back is the first one after a wrap around. -/
theorem wrapped_revision_loses_mosaic : letI := sha3Digest
    ∃ state next, Reachable Samples.config state ∧ execute Samples.config state (Samples.define 1) = .ok next ∧
      observe .rollback next (Samples.define 1) ≠ .ok state := by
  let digest := sha3Digest
  have valid : generateMosaicId Samples.owner 0 ≠ 0 := by decide +kernel
  obtain ⟨state, reachable, has⟩ := Samples.modifications_execute valid (2 ^ 32 - 1)
  have sound := soundLedger_of_reachable reachable
  obtain ⟨next, executes, _⟩ := Samples.modify_executes valid sound has
  refine ⟨state, next, reachable, executes, fun restores => ?_⟩
  obtain ⟨accepted, observes⟩ := execute_ok executes
  obtain ⟨other, observesOther, _, iff⟩ := observe_accepted sound accepted
  obtain rfl := Except.ok.inj (observes.symm.trans observesOther)
  obtain ⟨entry, found, revision, _⟩ := has
  exact iff.mp restores entry found revision

namespace Samples

instance (state : LedgerState) : (delivery : MosaicDelivery) → Decidable (RevisionKept state delivery)
  | ⟨_, _, .definition _ _ mosaicId _⟩ =>
    decidable_of_iff (∀ entry ∈ state.mosaics.find mosaicId, entry.definition.revision ≠ 0) Iff.rfl
  | ⟨_, _, .supplyChange _ _ _ _⟩ => inferInstanceAs (Decidable True)

def minting : MosaicConfiguration := ⟨1, 0, 0, 10, 0⟩

/-- The owner has an account without mosaics. -/
def opened : LedgerState := ⟨(∅ : Finmap fun _ : Address => AccountState).insert owner (.create owner 1), .empty⟩

/-- A mosaic is defined, modified and minted. -/
def mint [Sha3] : List MosaicDelivery :=
  [define 0, define 1, ⟨1, ⟨fun id => id, fun address => address⟩, .supplyChange owner (generateMosaicId owner 0) increaseAction 5⟩]

end Samples

/-- Supply, modification and definition are rolled back in reverse order. -/
theorem rollback_restores_mosaics_iff_mint : letI := sha3Digest
    ∃ final, Samples.mint.foldlM (execute Samples.minting) Samples.opened = .ok final ∧
      Samples.mint.reverse.foldlM (observe .rollback) final = .ok Samples.opened := by
  have followed : ∀ [Sha3], Runs.Meets (execute Samples.minting) RevisionKept Samples.opened Samples.mint ∧
      ((Samples.mint.foldlM (execute Samples.minting) Samples.opened).toOption.any fun _ => true) = true →
      ∃ final, Samples.mint.foldlM (execute Samples.minting) Samples.opened = .ok final ∧
        Samples.mint.reverse.foldlM (observe .rollback) final = .ok Samples.opened := by
    rintro _ ⟨kept, checked⟩
    obtain ⟨final, ran, _⟩ := Runs.exists_ok checked
    obtain ⟨middle, started, undone⟩ := (rollback_restores_mosaics_iff (.opened .empty rfl rfl) ran).2.mpr kept [] _ rfl
    cases started
    exact ⟨final, ran, undone⟩
  exact @followed sha3Digest (by decide +kernel)

end Catapult.Mosaics
