import Catapult.Construction.Restriction.MosaicRestriction

/-
This file proves that the saved bytes of a mosaic restriction only depend on its rules and that the rules are loaded from them.
-/

namespace Catapult.MosaicRestriction

open ByteStream

namespace RestrictionValueMap

variable {Rule : Type} {map other : RestrictionValueMap Rule} {key : UInt64}

/-- Every key has one rule. -/
def Distinct (map : RestrictionValueMap Rule) : Prop := (map.map Prod.fst).Nodup

/-- Both maps have the same rules, in any order. -/
def SameRules (map other : RestrictionValueMap Rule) : Prop := ∀ key, map.tryGet key = other.tryGet key

theorem tryGet_eq_none : map.tryGet key = none ↔ key ∉ map.map Prod.fst := by
  rw [tryGet, Option.map_eq_none_iff, List.find?_eq_none, List.mem_map]
  simp only [decide_eq_true_eq]
  exact ⟨fun absent ⟨pair, member, same⟩ => absent pair member same, fun absent pair member same => absent ⟨pair, member, same⟩⟩

theorem tryGet_of_mem (distinct : map.Distinct) {rule : Rule} (member : (key, rule) ∈ map) : map.tryGet key = some rule := by
  unfold tryGet
  cases found : map.find? fun pair => pair.1 = key with
  | none =>
    have absent := List.find?_eq_none.mp found _ member
    simp at absent
  | some pair =>
    have same : pair.1 = key := by simpa using List.find?_some found
    rw [List.inj_on_of_nodup_map distinct (List.mem_of_find?_eq_some found) member same]
    rfl

theorem mem_of_tryGet {rule : Rule} (found : map.tryGet key = some rule) : (key, rule) ∈ map := by
  obtain ⟨pair, foundPair, rfl⟩ := Option.map_eq_some_iff.mp found
  have same : pair.1 = key := by simpa using List.find?_some foundPair
  exact same ▸ List.mem_of_find?_eq_some foundPair

theorem SameRules.eq_nil_iff (same : map.SameRules other) : map = [] ↔ other = [] := by
  have nil (map : RestrictionValueMap Rule) : map = [] ↔ ∀ key, map.tryGet key = none := by
    constructor
    · rintro rfl _
      rfl
    · intro absent
      refine List.eq_nil_iff_forall_not_mem.mpr fun pair member => ?_
      exact tryGet_eq_none.mp (absent pair.1) (List.mem_map_of_mem member)
  rw [nil, nil]
  exact forall_congr' fun key => by rw [same key]

theorem tryGet_set (map : RestrictionValueMap Rule) (key other : UInt64) (rule : Rule) :
    tryGet (set key rule map) other = if other = key then some rule else map.tryGet other := by
  induction map with
  | nil =>
    unfold set tryGet
    by_cases same : other = key
    · simp [same]
    · simp [same, Ne.symm same]
  | cons pair map ih =>
    unfold tryGet at ih ⊢
    unfold set
    split
    · next first =>
      by_cases same : other = key
      · simp [same]
      · simp [same, Ne.symm same, first]
    · next first =>
      rw [List.find?_cons, List.find?_cons]
      by_cases same : pair.1 = other
      · simp [same, same ▸ first]
      · simpa [same] using ih

theorem set_of_absent (absent : map.tryGet key = none) (rule : Rule) : set key rule map = map ++ [(key, rule)] := by
  rw [tryGet_eq_none] at absent
  induction map with
  | nil => rfl
  | cons pair map ih =>
    rw [List.map_cons, List.mem_cons, not_or] at absent
    rw [set, if_neg (Ne.symm absent.1), ih absent.2, List.cons_append]

theorem fst_set_of_present (present : map.tryGet key ≠ none) (rule : Rule) :
    (set key rule map).map Prod.fst = map.map Prod.fst := by
  rw [ne_eq, tryGet_eq_none, not_not] at present
  induction map with
  | nil => cases present
  | cons pair map ih =>
    unfold set
    split
    · next same => rw [List.map_cons, List.map_cons, same]
    · next other =>
      rw [List.map_cons, List.mem_cons] at present
      rw [List.map_cons, List.map_cons, ih (present.resolve_left (Ne.symm other))]

theorem Distinct.set (distinct : map.Distinct) (key : UInt64) (rule : Rule) :
    Distinct (RestrictionValueMap.set key rule map) := by
  by_cases absent : map.tryGet key = none
  · rw [set_of_absent absent, Distinct, List.map_append, List.nodup_append]
    refine ⟨distinct, List.nodup_singleton _, ?_⟩
    rintro other member _ (_ | ⟨_, ⟨⟩⟩) rfl
    exact tryGet_eq_none.mp absent member
  · rw [Distinct, fst_set_of_present absent]
    exact distinct

theorem Distinct.remove (distinct : map.Distinct) (key : UInt64) : Distinct (map.remove key) :=
  distinct.sublist (List.eraseP_sublist.map Prod.fst)

theorem tryGet_remove (distinct : map.Distinct) (key other : UInt64) :
    tryGet (map.remove key) other = if other = key then none else map.tryGet other := by
  induction map with
  | nil => exact (ite_self none).symm
  | cons pair map ih =>
    have rest : Distinct map := (List.nodup_cons.mp distinct).2
    have new := (List.nodup_cons.mp distinct).1
    unfold RestrictionValueMap.remove at ih ⊢
    by_cases first : pair.1 = key
    · rw [List.eraseP_cons_of_pos (by simpa using first)]
      split
      · next same => exact tryGet_eq_none.mpr (same ▸ first ▸ new)
      · next different =>
        unfold tryGet
        rw [List.find?_cons_of_neg (by simpa [first] using Ne.symm different)]
    · rw [List.eraseP_cons_of_neg (by simpa using first)]
      unfold tryGet at ih ⊢
      rw [List.find?_cons, List.find?_cons]
      by_cases same : pair.1 = other
      · simp [same, same ▸ first]
      · simpa [same] using ih rest

theorem keys_eq (map : RestrictionValueMap Rule) :
    map.keys = ((map.map fun pair => (pair.1, ())).foldl (fun keys pair => SortedMap.insert pair keys) []).map Prod.fst := by
  rw [keys, List.foldl_map]

theorem mem_keys : key ∈ map.keys ↔ key ∈ map.map Prod.fst := by
  rw [keys_eq, SortedMap.mem_keys_foldl_insert, List.map_map]
  simp

theorem keys_ascending (map : RestrictionValueMap Rule) : map.keys.Pairwise (· < ·) := by
  rw [keys_eq, List.pairwise_map]
  exact SortedMap.Ascending.foldl_insert List.Pairwise.nil _

theorem tryGet_ne_none_of_mem_keys (member : key ∈ map.keys) : map.tryGet key ≠ none := fun absent =>
  tryGet_eq_none.mp absent (mem_keys.mp member)

/-- The order of the keys does not depend on the order of the rules. -/
theorem SameRules.keys_eq (same : map.SameRules other) : map.keys = other.keys := by
  refine SortedMap.pairwise_unique (fun _ _ => not_lt_of_gt) map.keys_ascending other.keys_ascending fun key => ?_
  rw [mem_keys, mem_keys, ← not_iff_not, ← tryGet_eq_none, ← tryGet_eq_none, same key]

theorem Distinct.length_keys (distinct : map.Distinct) : map.keys.length = map.length := by
  have unique : map.keys.Nodup := map.keys_ascending.imp fun less => ne_of_lt less
  rw [((List.perm_ext_iff_of_nodup unique distinct).mpr fun _ => mem_keys).length_eq, List.length_map]

theorem SameRules.length_eq (same : map.SameRules other) (distinct : map.Distinct) (distinctOther : other.Distinct) :
    map.length = other.length := by
  rw [← distinct.length_keys, same.keys_eq, distinctOther.length_keys]

/-- New keys are set behind the others. -/
theorem foldl_set_of_distinct (distinct : Distinct (map ++ other)) :
    other.foldl (fun map pair => set pair.1 pair.2 map) map = map ++ other := by
  induction other generalizing map with
  | nil => exact (List.append_nil map).symm
  | cons pair other ih =>
    have new : map.tryGet pair.1 = none := by
      rw [Distinct, List.map_append, List.map_cons] at distinct
      exact tryGet_eq_none.mpr fun member => List.disjoint_of_nodup_append distinct member List.mem_cons_self
    rw [List.foldl_cons, set_of_absent new, ih (by rwa [List.append_assoc]), List.append_assoc]
    rfl

/-- The rules in the order of their keys. -/
def ordered (map : RestrictionValueMap Rule) (default : Rule) : RestrictionValueMap Rule :=
  map.keys.map fun key => (key, (map.tryGet key).getD default)

theorem ordered_distinct (map : RestrictionValueMap Rule) (default : Rule) : Distinct (map.ordered default) := by
  rw [Distinct, ordered, List.map_map]
  exact (List.map_id map.keys).symm ▸ map.keys_ascending.imp fun less => ne_of_lt less

theorem ordered_sameRules (map : RestrictionValueMap Rule) (default : Rule) : SameRules (map.ordered default) map := by
  intro key
  cases found : map.tryGet key with
  | none =>
    rw [tryGet_eq_none, ordered, List.map_map, List.mem_map]
    rintro ⟨other, member, rfl⟩
    exact tryGet_ne_none_of_mem_keys member found
  | some rule =>
    refine tryGet_of_mem (map.ordered_distinct default) (List.mem_map.mpr ⟨key, ?_, by rw [found]; rfl⟩)
    rw [mem_keys]
    exact List.mem_map_of_mem (mem_of_tryGet found)

end RestrictionValueMap

open RestrictionValueMap

/-- Both entries are of the same kind and have the same rules. -/
def SameEntry : MosaicRestrictionEntry → MosaicRestrictionEntry → Prop
  | .addressEntry first, .addressEntry second => first.id = second.id ∧ SameRules first.rules second.rules
  | .globalEntry first, .globalEntry second => first.id = second.id ∧ SameRules first.rules second.rules
  | _, _ => False

theorem saveKeyValuePairs_eq {Rule : Type} {map other : RestrictionValueMap Rule} (codec : Codec Rule) (default : Rule)
    (same : SameRules map other) : saveKeyValuePairs codec default map = saveKeyValuePairs codec default other := by
  rw [saveKeyValuePairs, saveKeyValuePairs, same.keys_eq]
  congr 2
  funext key
  rw [same key]

/-- The bytes of an entry do not depend on the order in which its rules were added. -/
theorem save_eq {first second : MosaicRestrictionEntry} (same : SameEntry first second) : save first = save second := by
  cases first with
  | addressEntry first =>
    cases second with
    | addressEntry second => rw [save, save, same.1, saveKeyValuePairs_eq _ _ same.2]
    | globalEntry _ => cases same
  | globalEntry first =>
    cases second with
    | addressEntry _ => cases same
    | globalEntry second => rw [save, save, same.1, saveKeyValuePairs_eq _ _ same.2]

theorem readValue_bind {α β : Type} (codec : Codec α) (next : α → Reader β) (value : α) (rest : List UInt8) :
    (readValue codec >>= next) (codec.write value ++ rest) = next value rest :=
  codec.take_bind next value rest

variable {Id Rule : Type} {kind : RestrictionKind Id Rule} {codec : Codec Rule}

/-- Rules that do not encode removals are loaded one after another. -/
theorem loadKeyValuePairs_write {pairs : RestrictionValueMap Rule} (stored : ∀ pair ∈ pairs, kind.isRemoval pair.2 = false)
    (restriction : Restriction Id Rule) (rest : List UInt8) : loadKeyValuePairs kind codec pairs.length restriction
        ((pairs.flatMap fun pair => Codec.word64.write pair.1 ++ codec.write pair.2) ++ rest) =
      .ok ({ restriction with rules := pairs.foldl (fun map pair => set pair.1 pair.2 map) restriction.rules }, rest) := by
  induction pairs generalizing restriction with
  | nil => rfl
  | cons pair pairs ih =>
    rw [List.length_cons, loadKeyValuePairs, List.flatMap_cons, List.append_assoc, List.append_assoc, readValue_bind,
      readValue_bind, ih fun other member => stored other (.tail _ member)]
    rw [Restriction.set, if_neg (by rw [stored pair List.mem_cons_self]; exact Bool.false_ne_true)]
    rfl

/-- The rules of a restriction are loaded from the bytes that were saved for them. -/
theorem loadKeyValuePairs_save {map : RestrictionValueMap Rule} (default : Rule) (distinct : map.Distinct)
    (stored : ∀ pair ∈ map, kind.isRemoval pair.2 = false) (few : map.length < 256) (id : Id) (rest : List UInt8) :
    (readValue .word8 >>= fun numKeys => loadKeyValuePairs kind codec numKeys.toNat ⟨id, []⟩)
      (saveKeyValuePairs codec default map ++ rest) = .ok (⟨id, map.ordered default⟩, rest) := by
  have count : (UInt8.ofNat map.keys.length).toNat = (map.ordered default).length := by
    rw [UInt8.toNat_ofNat', distinct.length_keys, ordered, List.length_map, distinct.length_keys]
    exact Nat.mod_eq_of_lt few
  have written : (map.keys.flatMap fun key => Codec.word64.write key ++ codec.write ((map.tryGet key).getD default)) =
      (map.ordered default).flatMap fun pair => Codec.word64.write pair.1 ++ codec.write pair.2 := by
    rw [ordered, List.flatMap_map]
  have storedOrdered : ∀ pair ∈ map.ordered default, kind.isRemoval pair.2 = false := by
    rintro ⟨key, rule⟩ member
    have found := tryGet_of_mem (map.ordered_distinct default) member
    rw [map.ordered_sameRules default key] at found
    exact stored _ (mem_of_tryGet found)
  have loaded : (map.ordered default).foldl (fun map pair => set pair.1 pair.2 map) [] = [] ++ map.ordered default :=
    foldl_set_of_distinct (map.ordered_distinct default)
  rw [saveKeyValuePairs, List.append_assoc, readValue_bind, count, written, loadKeyValuePairs_write storedOrdered]
  dsimp only
  rw [loaded, List.nil_append]

/-- A restriction has rules, at most the given number, and none of them encodes a removal. -/
structure Stored {Id Rule : Type} (kind : RestrictionKind Id Rule) (maxValues : Nat) (restriction : Restriction Id Rule) :
    Prop where
  distinct : restriction.rules.Distinct
  stored : ∀ pair ∈ restriction.rules, kind.isRemoval pair.2 = false
  filled : restriction.rules ≠ []
  bounded : restriction.rules.length ≤ maxValues

def StoredEntry (maxValues : Nat) : MosaicRestrictionEntry → Prop
  | .addressEntry restriction => Stored addressKind maxValues restriction
  | .globalEntry restriction => Stored globalKind maxValues restriction

/-- What a reader returned is passed on. -/
theorem bind_of_ok {α β : Type} {first : Reader α} {next : α → Reader β} {bytes rest : List UInt8} {value : α}
    (loads : first bytes = .ok (value, rest)) : (first >>= next) bytes = next value rest := by
  change (first bytes >>= fun result => next result.1 result.2) = _
  rw [loads]
  rfl

/-- An entry is loaded from its saved bytes. -/
theorem load_save {maxValues : UInt8} {entry : MosaicRestrictionEntry} (stored : StoredEntry maxValues.toNat entry)
    (rest : List UInt8) : ∃ loaded, load (save entry ++ rest) = .ok (loaded, rest) ∧ SameEntry loaded entry := by
  have few := maxValues.toNat_lt
  cases entry with
  | addressEntry restriction =>
    have loads := @loadKeyValuePairs_save _ _ addressKind .word64 _ sentinelRemovalValue stored.distinct stored.stored
      (lt_of_le_of_lt stored.bounded few) restriction.id rest
    refine ⟨.addressEntry ⟨restriction.id, restriction.rules.ordered sentinelRemovalValue⟩, ?_, rfl,
      restriction.rules.ordered_sameRules _⟩
    rw [save, load, List.append_assoc, List.append_assoc, List.append_assoc, readValue_bind, if_pos rfl]
    refine bind_of_ok ?_
    rw [loadAddressRestriction, readValue_bind, readValue_bind]
    exact loads
  | globalEntry restriction =>
    have loads := @loadKeyValuePairs_save _ _ globalKind ruleCodec _ ⟨0, 0, 0⟩ stored.distinct stored.stored
      (lt_of_le_of_lt stored.bounded few) restriction.id rest
    refine ⟨.globalEntry ⟨restriction.id, restriction.rules.ordered ⟨0, 0, 0⟩⟩, ?_, rfl, restriction.rules.ordered_sameRules _⟩
    rw [save, load, List.append_assoc, List.append_assoc, readValue_bind, if_neg (by decide), if_pos rfl]
    refine bind_of_ok ?_
    rw [loadGlobalRestriction, readValue_bind]
    exact loads

end Catapult.MosaicRestriction
