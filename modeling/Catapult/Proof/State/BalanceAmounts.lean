import Catapult.Proof.State.AccountBalances

/-
This file describes the balances of an account by their amounts.
-/

namespace Catapult.State

/-- Balances hold the amounts of a finite map, and none of them is zero. -/
structure HoldsAmounts (balances : AccountBalances) (contents : MosaicContents) (entries : List Mosaic) : Prop where
  represents : Represents balances.balances contents entries
  optimized : contents.optimized = balances.optimizedMosaicId
  positive : ∀ id amount, contents.amounts id = some amount → amount ≠ 0

def SoundBalances (balances : AccountBalances) : Prop := ∃ contents entries, HoldsAmounts balances contents entries

theorem soundBalances_empty : SoundBalances .empty := ⟨.empty, [], empty_represents, rfl, nofun⟩

variable {balances other : AccountBalances} {contents : MosaicContents} {entries : List Mosaic} {id : MosaicId} {amount : Amount}

theorem HoldsAmounts.get_eq (holds : HoldsAmounts balances contents entries) (id : MosaicId) :
    balances.get id = (contents.amounts id).getD 0 := by
  rw [AccountBalances.get, holds.represents.find]
  cases contents.amounts id with
  | none => rfl
  | some amount => rfl

theorem HoldsAmounts.amounts_eq (holds : HoldsAmounts balances contents entries) (id : MosaicId) :
    contents.amounts id = if balances.get id = 0 then none else some (balances.get id) := by
  rw [holds.get_eq]
  cases found : contents.amounts id with
  | none => rfl
  | some amount => exact (if_neg (holds.positive id amount found)).symm

/-- Balances are determined by their amounts. -/
theorem SoundBalances.ext (sound : SoundBalances balances) (soundOther : SoundBalances other)
    (optimized : balances.optimizedMosaicId = other.optimizedMosaicId) (same : ∀ id, balances.get id = other.get id) :
    balances = other := by
  obtain ⟨contents, entries, holds⟩ := sound
  obtain ⟨contentsOther, entriesOther, holdsOther⟩ := soundOther
  have sameAmounts : contents.amounts = contentsOther.amounts := by
    funext id
    rw [holds.amounts_eq, holdsOther.amounts_eq, same]
  have sameOptimized : contents.optimized = contentsOther.optimized := by
    rw [holds.optimized, holdsOther.optimized, optimized]
  have sameEntries : entries = entriesOther := by
    refine Sorted.unique holds.represents.sorted (sameOptimized ▸ holdsOther.represents.sorted) ?_
    rintro ⟨key, amount⟩
    rw [holds.represents.members, holdsOther.represents.members, sameAmounts]
  obtain ⟨⟨storage, optimizedMap⟩, optimizedId⟩ := balances
  obtain ⟨⟨storageOther, optimizedMapOther⟩, optimizedIdOther⟩ := other
  have storages := holds.represents.holds.storage
  have storagesOther := holdsOther.represents.holds.storage
  have maps := holds.represents.optimized
  have mapsOther := holdsOther.represents.optimized
  dsimp only at storages storagesOther maps mapsOther optimized
  rw [storages, storagesOther, maps, mapsOther, sameEntries, sameOptimized, optimized]

/-- The amounts after a change of one of them. -/
structure ChangesAmount (balances changed : AccountBalances) (id : MosaicId) (amount : Amount) : Prop where
  sound : SoundBalances changed
  optimized : changed.optimizedMosaicId = balances.optimizedMosaicId
  get : ∀ key, changed.get key = if key = id then amount else balances.get key

theorem HoldsAmounts.changes (holds : HoldsAmounts balances contents entries) {map : CompactMosaicMap} {arranged : List Mosaic}
    {value : Option Amount} (represents : Represents map { contents with amounts := Function.update contents.amounts id value } arranged)
    (positive : ∀ amount, value = some amount → amount ≠ 0) :
    ChangesAmount balances { balances with balances := map } id (value.getD 0) := by
  have held : HoldsAmounts { balances with balances := map } { contents with amounts := Function.update contents.amounts id value }
      arranged := by
    refine ⟨represents, holds.optimized, fun key amount found => ?_⟩
    dsimp only at found
    rw [Function.update_apply] at found
    split at found
    · exact positive amount found
    · exact holds.positive key amount found
  refine ⟨⟨_, _, held⟩, rfl, fun key => ?_⟩
  rw [held.get_eq, holds.get_eq]
  dsimp only
  rw [Function.update_apply]
  split <;> rfl

theorem ChangesAmount.refl (sound : SoundBalances balances) (id : MosaicId) : ChangesAmount balances balances id (balances.get id) := by
  refine ⟨sound, rfl, fun key => ?_⟩
  split
  · next same => rw [same]
  · rfl

/-- An amount is credited if the sum does not wrap around. -/
theorem SoundBalances.credit (sound : SoundBalances balances) (valid : id ≠ 0)
    (small : (balances.get id).toNat + amount.toNat < 2 ^ 64) :
    ∃ credited, balances.credit id amount = .ok credited ∧ ChangesAmount balances credited id (balances.get id + amount) := by
  unfold AccountBalances.credit
  split
  · next zero =>
    refine ⟨balances, rfl, ?_⟩
    rw [zero, UInt64.add_zero]
    exact .refl sound id
  · next nonzero =>
    obtain ⟨contents, entries, holds⟩ := sound
    have get := holds.get_eq id
    rw [holds.represents.find]
    cases found : contents.amounts id with
    | none =>
      obtain ⟨map, arranged, inserted, represents⟩ := @Represents.insert_accepted _ _ _ holds.represents id amount valid found
      rw [Option.map_none]
      dsimp only
      rw [inserted]
      rw [found] at get
      refine ⟨_, rfl, ?_⟩
      rw [get, Option.getD_none, UInt64.zero_add]
      exact holds.changes represents fun value same => Option.some.inj same ▸ nonzero
    | some known =>
      have represents := holds.represents.update id (known + amount)
      rw [MosaicContents.apply, found, if_pos Option.isSome_some] at represents
      rw [found] at get
      refine ⟨_, rfl, ?_⟩
      rw [get, Option.getD_some]
      refine holds.changes represents fun value same => ?_
      obtain rfl := Option.some.inj same
      rw [get, Option.getD_some] at small
      intro zero
      have wrapped := congrArg UInt64.toNat zero
      have positive : amount.toNat ≠ 0 := fun none => nonzero (UInt64.toNat_inj.mp none)
      rw [UInt64.toNat_add, UInt64.toNat_zero, Nat.mod_eq_of_lt small] at wrapped
      omega

/-- An amount is debited if the balance covers it. -/
theorem SoundBalances.debit (sound : SoundBalances balances) (covered : amount ≤ balances.get id) :
    ∃ debited, balances.debit id amount = .ok debited ∧ ChangesAmount balances debited id (balances.get id - amount) := by
  unfold AccountBalances.debit
  split
  · next zero =>
    refine ⟨balances, rfl, ?_⟩
    rw [zero, UInt64.sub_zero]
    exact .refl sound id
  · next nonzero =>
    obtain ⟨contents, entries, holds⟩ := sound
    have get := holds.get_eq id
    rw [holds.represents.find]
    cases found : contents.amounts id with
    | none =>
      rw [found] at get
      rw [get] at covered
      exact absurd (UInt64.le_antisymm covered UInt64.zero_le) nonzero
    | some known =>
      rw [found] at get
      rw [get] at covered ⊢
      rw [Option.getD_some] at covered ⊢
      rw [Option.map_some]
      dsimp only
      rw [if_neg (UInt64.not_lt.mpr covered)]
      have represents := holds.represents.update id (known - amount)
      rw [MosaicContents.apply, found, if_pos Option.isSome_some] at represents
      refine ⟨_, rfl, ?_⟩
      split
      · next zero =>
        have erased := represents.erase id
        rw [MosaicContents.apply] at erased
        dsimp only at erased
        rw [Function.update_idem] at erased
        rw [zero] at erased ⊢
        exact holds.changes erased (by rintro _ ⟨⟩)
      · next positive => exact holds.changes represents fun value same => Option.some.inj same ▸ positive

theorem debit_uncovered (uncovered : balances.get id < amount) : ∃ error, balances.debit id amount = .error error := by
  have nonzero : amount ≠ 0 := by
    rintro rfl
    exact absurd uncovered (UInt64.not_lt.mpr UInt64.zero_le)
  rw [AccountBalances.debit, if_neg nonzero]
  rw [AccountBalances.get] at uncovered
  split
  · exact ⟨_, rfl⟩
  · next mosaic found =>
    rw [found] at uncovered
    rw [if_pos uncovered]
    exact ⟨_, rfl⟩

/-- The reserved mosaic is never credited. -/
theorem SoundBalances.of_credit {credited : AccountBalances} (sound : SoundBalances balances)
    (credits : balances.credit id amount = .ok credited) (small : (balances.get id).toNat + amount.toNat < 2 ^ 64) :
    ChangesAmount balances credited id (balances.get id + amount) := by
  by_cases valid : id = 0
  · obtain ⟨contents, entries, holds⟩ := sound
    have absent : contents.amounts id = none := by
      cases found : contents.amounts id with
      | none => rfl
      | some known =>
        exact absurd valid (holds.represents.holds.layered.valid ((holds.represents.members id known).mpr found))
    unfold AccountBalances.credit at credits
    split at credits
    · next zero =>
      obtain rfl := Except.ok.inj credits
      rw [zero, UInt64.add_zero]
      exact .refl ⟨contents, entries, holds⟩ id
    · obtain ⟨error, refused⟩ := @Represents.insert_refused _ _ _ holds.represents (id, amount) (.inl valid)
      rw [holds.represents.find, absent, Option.map_none] at credits
      dsimp only at credits
      rw [refused] at credits
      cases credits
  · obtain ⟨other, creditsOther, changes⟩ := sound.credit valid small
    exact Except.ok.inj (credits.symm.trans creditsOther) ▸ changes

theorem SoundBalances.of_debit {debited : AccountBalances} (sound : SoundBalances balances)
    (debits : balances.debit id amount = .ok debited) :
    amount ≤ balances.get id ∧ ChangesAmount balances debited id (balances.get id - amount) := by
  by_cases covered : amount ≤ balances.get id
  · obtain ⟨other, debitsOther, changes⟩ := sound.debit covered
    exact ⟨covered, Except.ok.inj (debits.symm.trans debitsOther) ▸ changes⟩
  · obtain ⟨error, fails⟩ := debit_uncovered (UInt64.not_le.mp covered)
    rw [fails] at debits
    cases debits

end Catapult.State
