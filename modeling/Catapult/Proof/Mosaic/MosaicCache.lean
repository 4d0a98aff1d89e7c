import Catapult.Construction.Mosaic.MosaicCache
import Catapult.Library.Totals

/-
This file proves that insertions and removals of mosaics undo each other, together with their groups.
-/

namespace Catapult.Mosaics

section Groups

variable {groups : HeightGroups} {height other : Height} {mosaicId key : MosaicId}

/-- The mosaics of a height. -/
def groupAt (groups : HeightGroups) (height : Height) : Finset MosaicId := (groups.lookup height).getD ∅

/-- There are no empty groups. -/
def Filled (groups : HeightGroups) : Prop := ∀ height, groups.lookup height ≠ some ∅

/-- Groups that are not empty are determined by their members. -/
theorem Filled.ext {others : HeightGroups} (filled : Filled groups) (filledOthers : Filled others)
    (same : ∀ height, groupAt groups height = groupAt others height) : groups = others := by
  refine Finmap.ext_lookup fun height => ?_
  have sameHeight := same height
  unfold groupAt at sameHeight
  cases found : groups.lookup height with
  | none =>
    cases foundOther : others.lookup height with
    | none => rfl
    | some group =>
      rw [found, foundOther] at sameHeight
      exact absurd (foundOther.trans (congrArg some sameHeight.symm)) (filledOthers height)
  | some group =>
    cases foundOther : others.lookup height with
    | none =>
      rw [found, foundOther] at sameHeight
      exact absurd (found.trans (congrArg some sameHeight)) (filled height)
    | some groupOther =>
      rw [found, foundOther] at sameHeight
      exact congrArg some sameHeight

theorem groupAt_add (groups : HeightGroups) (height other : Height) (mosaicId : MosaicId) :
    groupAt (addIdentifierWithGroup groups height mosaicId) other =
      if other = height then insert mosaicId (groupAt groups height) else groupAt groups other := by
  unfold addIdentifierWithGroup groupAt
  split
  · next same =>
    rw [same, Finmap.lookup_insert]
    rfl
  · next different => rw [Finmap.lookup_insert_of_ne _ different]

theorem groupAt_remove (groups : HeightGroups) (height other : Height) (mosaicId : MosaicId) :
    groupAt (removeIdentifierWithGroup groups height mosaicId) other =
      if other = height then (groupAt groups height).erase mosaicId else groupAt groups other := by
  unfold removeIdentifierWithGroup
  cases found : groups.lookup height with
  | none =>
    dsimp only
    split
    · next same =>
      rw [same, groupAt, found]
      rfl
    · rfl
  | some group =>
    have known : groupAt groups height = group := by rw [groupAt, found]; rfl
    dsimp only
    rw [known]
    unfold groupAt
    split
    · next emptied =>
      split
      · next same =>
        rw [same, Finmap.lookup_erase, emptied]
        rfl
      · next different => rw [Finmap.lookup_erase_ne different]
    · split
      · next same =>
        rw [same, Finmap.lookup_insert]
        rfl
      · next different => rw [Finmap.lookup_insert_of_ne _ different]

theorem Filled.add (filled : Filled groups) (height : Height) (mosaicId : MosaicId) :
    Filled (addIdentifierWithGroup groups height mosaicId) := by
  intro other
  unfold addIdentifierWithGroup
  by_cases same : other = height
  · rw [same, Finmap.lookup_insert]
    exact fun none => Finset.insert_ne_empty _ _ (Option.some.inj none)
  · rw [Finmap.lookup_insert_of_ne _ same]
    exact filled other

theorem Filled.remove (filled : Filled groups) (height : Height) (mosaicId : MosaicId) :
    Filled (removeIdentifierWithGroup groups height mosaicId) := by
  intro other
  unfold removeIdentifierWithGroup
  split
  · exact filled other
  · next group found =>
    by_cases same : other = height
    · split
      · rw [same, Finmap.lookup_erase]
        nofun
      · next remaining =>
        rw [same, Finmap.lookup_insert]
        exact fun none => remaining (Option.some.inj none)
    · split
      · rw [Finmap.lookup_erase_ne same]
        exact filled other
      · rw [Finmap.lookup_insert_of_ne _ same]
        exact filled other

end Groups

namespace MosaicCacheDelta

/-- A mosaic expires at a height. -/
def Expires (cache : MosaicCacheDelta) (mosaicId : MosaicId) (height : Height) : Prop :=
  ∃ entry, cache.find mosaicId = some entry ∧ entry.definition.isEternal = false ∧ getExpiryHeight entry.definition = height

/-- Entries are found by their ids, and the groups are those of their expiry heights. -/
structure Sound (cache : MosaicCacheDelta) : Prop where
  ids : ∀ mosaicId entry, cache.find mosaicId = some entry → entry.mosaicId = mosaicId ∧ mosaicId ≠ 0
  filled : Filled cache.mosaicIdsByExpiryHeight
  groups : ∀ height mosaicId, mosaicId ∈ groupAt cache.mosaicIdsByExpiryHeight height ↔ cache.Expires mosaicId height

theorem sound_empty : Sound empty := by
  refine ⟨nofun, nofun, fun height mosaicId => ⟨?_, ?_⟩⟩
  · intro member
    cases Finset.notMem_empty _ member
  · rintro ⟨_, found, _⟩
    cases found

variable {cache : MosaicCacheDelta} {entry : MosaicEntry} {mosaicId : MosaicId}

/-- A sound cache is determined by its entries. -/
theorem Sound.ext {other : MosaicCacheDelta} (sound : Sound cache) (soundOther : Sound other)
    (same : cache.entryById = other.entryById) : cache = other := by
  have sameGroups : cache.mosaicIdsByExpiryHeight = other.mosaicIdsByExpiryHeight := by
    refine sound.filled.ext soundOther.filled fun height => Finset.ext fun mosaicId => ?_
    rw [sound.groups, soundOther.groups, Expires, Expires, find, find, same]
  obtain ⟨entries, groups⟩ := cache
  obtain ⟨entriesOther, groupsOther⟩ := other
  dsimp only at same sameGroups
  rw [same, sameGroups]

theorem mem_updateExpiryMap {groups : HeightGroups} {height : Height} : mosaicId ∈ groupAt (updateExpiryMap groups entry) height ↔
      (mosaicId = entry.mosaicId ∧ entry.definition.isEternal = false ∧ getExpiryHeight entry.definition = height) ∨
        mosaicId ∈ groupAt groups height := by
  unfold updateExpiryMap
  cases eternal : entry.definition.isEternal with
  | true =>
    rw [if_pos rfl]
    exact ⟨.inr, fun either => either.elim (fun expires => nomatch expires.2.1) id⟩
  | false =>
    rw [if_neg Bool.false_ne_true, groupAt_add]
    split
    · next same =>
      rw [Finset.mem_insert, same]
      tauto
    · next different =>
      refine ⟨.inr, fun either => either.elim (fun expires => absurd expires.2.2.symm different) id⟩

theorem Sound.insert (sound : Sound cache) (absent : cache.find entry.mosaicId = none) (valid : entry.mosaicId ≠ 0) :
    Sound ⟨cache.entryById.insert entry.mosaicId entry, updateExpiryMap cache.mosaicIdsByExpiryHeight entry⟩ := by
  have known (key : MosaicId) :
      find ⟨cache.entryById.insert entry.mosaicId entry, updateExpiryMap cache.mosaicIdsByExpiryHeight entry⟩ key =
        if key = entry.mosaicId then some entry else cache.find key := by
    unfold find
    split
    · next same => rw [same, Finmap.lookup_insert]
    · next different => rw [Finmap.lookup_insert_of_ne _ different]
  refine ⟨fun key other found => ?_, ?_, fun height key => ?_⟩
  · rw [known] at found
    split at found
    · next same =>
      obtain rfl := Option.some.inj found
      exact ⟨same.symm, same ▸ valid⟩
    · exact sound.ids key other found
  · dsimp only
    unfold updateExpiryMap
    split
    · exact sound.filled
    · exact sound.filled.add _ _
  · rw [mem_updateExpiryMap, sound.groups, Expires, Expires, known]
    split
    · next same =>
      rw [same, absent]
      constructor
      · rintro (⟨_, notEternal, expires⟩ | ⟨_, found, _⟩)
        · exact ⟨entry, rfl, notEternal, expires⟩
        · cases found
      · rintro ⟨other, found, notEternal, expires⟩
        obtain rfl := Option.some.inj found
        exact .inl ⟨rfl, notEternal, expires⟩
    · next different => exact ⟨fun either => either.elim (fun expires => absurd expires.1 different) id, .inr⟩

theorem Sound.remove (sound : Sound cache) (found : cache.find mosaicId = some entry) :
    Sound ⟨cache.entryById.erase mosaicId, if entry.definition.isEternal then cache.mosaicIdsByExpiryHeight
      else removeIdentifierWithGroup cache.mosaicIdsByExpiryHeight (getExpiryHeight entry.definition) mosaicId⟩ := by
  have known (key : MosaicId) : Finmap.lookup key (cache.entryById.erase mosaicId) =
      if key = mosaicId then none else cache.find key := by
    split
    · next same => rw [same, Finmap.lookup_erase]
    · next different => rw [Finmap.lookup_erase_ne different, find]
  refine ⟨fun key other foundOther => ?_, ?_, fun height key => ?_⟩
  · rw [find, known] at foundOther
    split at foundOther
    · cases foundOther
    · exact sound.ids key other foundOther
  · dsimp only
    split
    · exact sound.filled
    · exact sound.filled.remove _ _
  · have members : key ∈ groupAt (if entry.definition.isEternal then cache.mosaicIdsByExpiryHeight
        else removeIdentifierWithGroup cache.mosaicIdsByExpiryHeight (getExpiryHeight entry.definition) mosaicId) height ↔
        key ≠ mosaicId ∧ cache.Expires key height := by
      have only : cache.Expires mosaicId height ↔
          entry.definition.isEternal = false ∧ getExpiryHeight entry.definition = height := by
        constructor
        · rintro ⟨other, foundOther, expires⟩
          obtain rfl := Option.some.inj (found.symm.trans foundOther)
          exact expires
        · exact fun expires => ⟨entry, found, expires⟩
      have member := sound.groups height key
      by_cases same : key = mosaicId
      · refine ⟨fun remains => ?_, fun kept => absurd same kept.1⟩
        rw [same] at remains member
        rw [only] at member
        split at remains
        · next eternal => exact absurd (member.mp remains).1 (by rw [eternal]; exact Bool.noConfusion)
        · next notEternal =>
          rw [groupAt_remove] at remains
          split at remains
          · exact absurd rfl (Finset.ne_of_mem_erase remains)
          · next different => exact absurd (member.mp remains).2.symm different
      · split
        · exact ⟨fun remains => ⟨same, member.mp remains⟩, fun kept => member.mpr kept.2⟩
        · rw [groupAt_remove]
          split
          · next sameHeight =>
            rw [Finset.mem_erase, ← sameHeight, member]
          · exact ⟨fun remains => ⟨same, member.mp remains⟩, fun kept => member.mpr kept.2⟩
    dsimp only
    rw [members, Expires, Expires, find, find, known]
    split
    · next same => exact ⟨fun kept => absurd same kept.1, fun ⟨_, absent, _⟩ => nomatch absent⟩
    · next different => exact ⟨fun kept => kept.2, fun expires => ⟨different, expires⟩⟩

/-- The supply of an entry does not matter for its group. -/
theorem Sound.modify {changed : MosaicEntry} (sound : Sound cache) (found : cache.find mosaicId = some entry)
    (sameId : changed.mosaicId = entry.mosaicId) (sameDefinition : changed.definition = entry.definition) :
    Sound { cache with entryById := cache.entryById.insert mosaicId changed } := by
  have known (key : MosaicId) : find { cache with entryById := cache.entryById.insert mosaicId changed } key =
      if key = mosaicId then some changed else cache.find key := by
    unfold find
    split
    · next same => rw [same, Finmap.lookup_insert]
    · next different => rw [Finmap.lookup_insert_of_ne _ different]
  refine ⟨fun key other foundOther => ?_, sound.filled, fun height key => ?_⟩
  · rw [known] at foundOther
    split at foundOther
    · next same =>
      obtain rfl := Option.some.inj foundOther
      rw [sameId, same]
      exact sound.ids mosaicId entry found
    · exact sound.ids key other foundOther
  · rw [sound.groups, Expires, Expires, known]
    split
    · next same =>
      rw [same, found]
      constructor
      · rintro ⟨other, foundOther, expires⟩
        obtain rfl := Option.some.inj foundOther
        exact ⟨changed, rfl, sameDefinition ▸ expires⟩
      · rintro ⟨other, foundOther, expires⟩
        obtain rfl := Option.some.inj foundOther
        exact ⟨entry, rfl, sameDefinition ▸ expires⟩
    · rfl

/-- An insertion is undone by a removal. -/
theorem Sound.insert_undone (sound : Sound cache) (absent : cache.find entry.mosaicId = none) (valid : entry.mosaicId ≠ 0) :
    ∃ inserted, cache.insert entry = .ok inserted ∧ Sound inserted ∧ inserted.entryById = cache.entryById.insert entry.mosaicId entry ∧
      inserted.remove entry.mosaicId = .ok cache := by
  have soundInserted := sound.insert absent valid
  have found : Finmap.lookup entry.mosaicId (cache.entryById.insert entry.mosaicId entry) = some entry := Finmap.lookup_insert _
  refine ⟨_, ?_, soundInserted, rfl, ?_⟩
  · rw [MosaicCacheDelta.insert, absent]
  · rw [MosaicCacheDelta.remove, find, found]
    exact congrArg _ ((soundInserted.remove found).ext sound (Totals.erase_insert absent))

/-- A removal is undone by an insertion. -/
theorem Sound.remove_undone (sound : Sound cache) (found : cache.find mosaicId = some entry) :
    ∃ removed, cache.remove mosaicId = .ok removed ∧ Sound removed ∧ removed.entryById = cache.entryById.erase mosaicId ∧
      removed.insert entry = .ok cache := by
  have soundRemoved := sound.remove found
  obtain ⟨sameId, valid⟩ := sound.ids mosaicId entry found
  have absent : Finmap.lookup entry.mosaicId (cache.entryById.erase mosaicId) = none := sameId ▸ Finmap.lookup_erase _ _
  refine ⟨_, ?_, soundRemoved, rfl, ?_⟩
  · rw [MosaicCacheDelta.remove, found]
  · rw [MosaicCacheDelta.insert, find, absent]
    refine congrArg _ ((soundRemoved.insert absent (sameId ▸ valid)).ext sound ?_)
    dsimp only
    rw [sameId, Totals.insert_erase, Totals.insert_self found]

end MosaicCacheDelta

end Catapult.Mosaics
