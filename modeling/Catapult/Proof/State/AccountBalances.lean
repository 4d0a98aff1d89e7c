import Catapult.Construction.State.AccountStateSerializer
import Catapult.Proof.State.MosaicMapRuns

/-
This file proves that account balances keep one order of their mosaics, and that it survives copies and loads.
-/

namespace Catapult.State

open ByteStream

/-- Balances show their entries with the optimized mosaic first. -/
structure Shows (optimized : MosaicId) (balances : AccountBalances) (entries : List Mosaic) : Prop where
  represents : ∃ contents : MosaicContents, contents.optimized = optimized ∧ Represents balances.balances contents entries
  optimized : balances.optimizedMosaicId = optimized

variable {optimized : MosaicId} {balances changed : AccountBalances} {entries : List Mosaic}

theorem Shows.holds (shows : Shows optimized balances entries) : Holds balances.balances entries :=
  shows.represents.choose_spec.2.holds

theorem Shows.sorted (shows : Shows optimized balances entries) : Sorted optimized entries := by
  obtain ⟨contents, rfl, represents⟩ := shows.represents
  exact represents.sorted

theorem Shows.toList (shows : Shows optimized balances entries) : balances.toList = entries := by
  rw [AccountBalances.toList, start_eq shows.holds, iterateFrom_eq shows.holds, size_eq shows.holds, List.drop_zero,
    List.take_length]

theorem Shows.size (shows : Shows optimized balances entries) : balances.size = entries.length := size_eq shows.holds

theorem shows_empty : Shows 0 .empty [] := ⟨⟨.empty, rfl, empty_represents⟩, rfl⟩

/-- An operation on the map of balances keeps the optimized mosaic. -/
theorem Shows.operation (shows : Shows optimized balances entries) {operation : MapOperation} {map : CompactMosaicMap}
    (applied : applyOperation balances.balances operation = map) (keeps : ∀ id, operation ≠ .optimize id) :
    ∃ arranged, Shows optimized { balances with balances := map } arranged := by
  obtain ⟨contents, isOptimized, represents⟩ := shows.represents
  obtain ⟨arranged, represented⟩ := represents.step operation
  have kept : (contents.apply operation).optimized = contents.optimized := by
    cases operation with
    | insert pair => rw [MosaicContents.apply]; split <;> rfl
    | erase id => rfl
    | optimize id => exact absurd rfl (keeps id)
    | update id amount => rw [MosaicContents.apply]; split <;> rfl
  exact ⟨arranged, ⟨_, kept.trans isOptimized, applied ▸ represented⟩, shows.optimized⟩

theorem Shows.credit (shows : Shows optimized balances entries) {id : MosaicId} {amount : Amount}
    (credited : balances.credit id amount = .ok changed) : ∃ arranged, Shows optimized changed arranged := by
  unfold AccountBalances.credit at credited
  split at credited
  · cases credited
    exact ⟨entries, shows⟩
  · split at credited
    · split at credited
      · cases credited
      · next map inserted =>
        cases credited
        refine @Shows.operation _ _ _ shows (.insert (id, amount)) map ?_ (by rintro _ ⟨⟩)
        rw [applyOperation, inserted]
        rfl
    · cases credited
      exact @Shows.operation _ _ _ shows (.update id _) _ rfl (by rintro _ ⟨⟩)

theorem Shows.debit (shows : Shows optimized balances entries) {id : MosaicId} {amount : Amount}
    (debited : balances.debit id amount = .ok changed) : ∃ arranged, Shows optimized changed arranged := by
  unfold AccountBalances.debit at debited
  split at debited
  · cases debited
    exact ⟨entries, shows⟩
  · split at debited
    · cases debited
    · split at debited
      · cases debited
      · next mosaic _ _ =>
        cases debited
        obtain ⟨_, updated⟩ := @Shows.operation _ _ _ shows (.update id (mosaic.2 - amount)) _ rfl nofun
        split
        · exact @Shows.operation _ _ _ updated (.erase id) _ rfl nofun
        · exact ⟨_, updated⟩

theorem Shows.optimize (shows : Shows optimized balances entries) {id : MosaicId}
    (optimizedNow : balances.optimize id = .ok changed) :
    ∃ arranged, Shows id changed arranged ∧ ∀ entry, entry ∈ arranged ↔ entry ∈ entries := by
  obtain ⟨contents, _, represents⟩ := shows.represents
  obtain ⟨map, arranged, result, represented⟩ := represents.optimize id
  unfold AccountBalances.optimize at optimizedNow
  rw [result] at optimizedNow
  cases optimizedNow
  refine ⟨arranged, ⟨⟨_, rfl, represented⟩, rfl⟩, ?_⟩
  rintro ⟨key, amount⟩
  rw [represented.members, represents.members]
  rfl

theorem Shows.ids_valid (shows : Shows optimized balances entries) {entry : Mosaic} (member : entry ∈ entries) :
    entry.1 ≠ 0 := shows.holds.layered.valid member

theorem isLessThan_asymm {first second : MosaicId} (less : CompactMosaicMap.isLessThan optimized first second = true) :
    ¬CompactMosaicMap.isLessThan optimized second first = true :=
  fun other => (isLessThan_iff.mp (isLessThan_trans less other)).1 rfl

/-- A sorted list of entries is determined by its members. -/
theorem Sorted.unique {first second : List Mosaic} (sortedFirst : Sorted optimized first)
    (sortedSecond : Sorted optimized second) (members : ∀ entry, entry ∈ first ↔ entry ∈ second) : first = second :=
  SortedMap.pairwise_unique (fun _ _ => isLessThan_asymm) sortedFirst sortedSecond members

/-- The new entry of balances with its amount. -/
theorem Shows.insert (shows : Shows optimized balances entries) {pair : Mosaic} (valid : pair.1 ≠ 0)
    (absent : ∀ entry ∈ entries, entry.1 ≠ pair.1) :
    ∃ map arranged, balances.balances.insert pair = .ok map ∧ Shows optimized { balances with balances := map } arranged ∧
      ∀ entry, entry ∈ arranged ↔ entry = pair ∨ entry ∈ entries := by
  obtain ⟨contents, isOptimized, represents⟩ := shows.represents
  have none : contents.amounts pair.1 = none := by
    cases known : contents.amounts pair.1 with
    | none => rfl
    | some amount => exact absurd rfl (absent (pair.1, amount) ((represents.members _ _).mpr known))
  obtain ⟨map, arranged, result, represented⟩ := @Represents.insert_accepted _ _ _ represents pair.1 pair.2 valid none
  refine ⟨map, arranged, result,
    ⟨⟨{ contents with amounts := Function.update contents.amounts pair.1 (some pair.2) }, isOptimized, represented⟩,
      shows.optimized⟩, ?_⟩
  rintro ⟨key, amount⟩
  rw [represented.members, represents.members]
  dsimp only
  rw [Function.update_apply]
  split
  · next same =>
    subst same
    rw [none, Option.some_inj]
    exact ⟨fun same => .inl (by rw [← same]), fun either => by
      rcases either with same | impossible
      · rw [← same]
      · cases impossible⟩
  · next other =>
    exact ⟨.inr, fun either => either.resolve_left fun same => other (congrArg Prod.fst same)⟩

/-- A mosaic that is not held is inserted if it has an amount. -/
theorem Shows.credit_new (shows : Shows optimized balances entries) {mosaic : Mosaic} (valid : mosaic.1 ≠ 0)
    (absent : ∀ entry ∈ entries, entry.1 ≠ mosaic.1) :
    ∃ credited arranged, balances.credit mosaic.1 mosaic.2 = .ok credited ∧ Shows optimized credited arranged ∧
      ∀ entry, entry ∈ arranged ↔ (entry = mosaic ∧ mosaic.2 ≠ 0) ∨ entry ∈ entries := by
  unfold AccountBalances.credit
  split
  · next zero => exact ⟨balances, entries, rfl, shows, by simp [zero]⟩
  · next amount =>
    have notFound : balances.balances.find mosaic.1 = none := by
      rw [find_eq shows.holds]
      exact List.find?_eq_none.mpr fun entry member => by simpa using absent entry member
    obtain ⟨map, arranged, inserted, showsNext, members⟩ := shows.insert valid absent
    rw [notFound]
    dsimp only
    rw [inserted]
    exact ⟨_, arranged, rfl, showsNext, by simp [members, amount]⟩

/-- New entries are inserted one after the other. -/
theorem Shows.insertAll (shows : Shows optimized balances entries) {pairs : List Mosaic} (valid : ∀ pair ∈ pairs, pair.1 ≠ 0)
    (distinct : pairs.Pairwise fun first second => first.1 ≠ second.1)
    (absent : ∀ pair ∈ pairs, ∀ entry ∈ entries, entry.1 ≠ pair.1) :
    ∃ map arranged, AccountBalances.insertAll balances.balances pairs = .ok map ∧
      Shows optimized { balances with balances := map } arranged ∧
      ∀ entry, entry ∈ arranged ↔ entry ∈ pairs ∨ entry ∈ entries := by
  induction pairs generalizing balances entries with
  | nil => exact ⟨balances.balances, entries, rfl, shows, by simp⟩
  | cons pair pairs ih =>
    obtain ⟨map, arranged, inserted, showsNext, members⟩ :=
      shows.insert (valid pair List.mem_cons_self) (absent pair List.mem_cons_self)
    obtain ⟨differ, distinctRest⟩ := List.pairwise_cons.mp distinct
    obtain ⟨final, arrangedFinal, rest, showsFinal, membersFinal⟩ :=
      ih showsNext (fun other member => valid other (.tail _ member)) distinctRest (by
        intro other member entry memberEntry
        rcases (members entry).mp memberEntry with rfl | old
        · exact differ other member
        · exact absent other (.tail _ member) entry old)
    refine ⟨final, arrangedFinal, ?_, showsFinal, ?_⟩
    · rw [AccountBalances.insertAll, List.foldlM_cons, inserted]
      exact rest
    · intro entry
      rw [membersFinal, members, List.mem_cons]
      tauto

theorem Sorted.distinct {entries : List Mosaic} (sorted : Sorted optimized entries) :
    entries.Pairwise fun first second => first.1 ≠ second.1 :=
  sorted.imp fun less => (isLessThan_iff.mp less).1

/-- Balances with the same optimized mosaic and the same entries have the same storage levels. -/
theorem Shows.unique {other : AccountBalances} (shows : Shows optimized balances entries)
    (showsOther : Shows optimized other entries) : balances = other := by
  obtain ⟨_, isOptimized, represents⟩ := shows.represents
  obtain ⟨_, isOptimizedOther, representsOther⟩ := showsOther.represents
  have storage : balances.balances.storage = other.balances.storage := by
    rw [shows.holds.storage, showsOther.holds.storage]
  have optimizedMap : balances.balances.optimizedMosaicId = other.balances.optimizedMosaicId := by
    rw [represents.optimized, representsOther.optimized, isOptimized, isOptimizedOther]
  have map : balances.balances = other.balances := by
    rw [show balances.balances = ⟨balances.balances.storage, balances.balances.optimizedMosaicId⟩ from rfl, storage, optimizedMap]
  rw [show balances = ⟨balances.balances, balances.optimizedMosaicId⟩ from rfl, map, shows.optimized, ← showsOther.optimized]

theorem Shows.optimized_map (shows : Shows optimized balances entries) (id : MosaicId) :
    ∃ map arranged, balances.balances.optimize id = .ok map ∧ Shows id ⟨map, id⟩ arranged ∧
      ∀ entry, entry ∈ arranged ↔ entry ∈ entries := by
  obtain ⟨contents, _, represents⟩ := shows.represents
  obtain ⟨map, arranged, result, _⟩ := represents.optimize id
  have ran : balances.optimize id = .ok ⟨map, id⟩ := by rw [AccountBalances.optimize, result]
  obtain ⟨kept, showsNext, members⟩ := shows.optimize ran
  exact ⟨map, kept, result, showsNext, members⟩

/-- An assignment to balances without entries yields the balances of the source. -/
theorem Shows.assign {target : AccountBalances} {other : MosaicId} (shows : Shows optimized balances entries)
    (empty : Shows other target []) : target.assign balances = .ok balances := by
  obtain ⟨start, arranged, result, showsStart, none⟩ := empty.optimized_map optimized
  have noEntries : ∀ entry, entry ∉ arranged := fun entry member => nomatch (none entry).mp member
  obtain ⟨map, copied, inserted, showsCopy, members⟩ := showsStart.insertAll (fun _ => shows.ids_valid)
    shows.sorted.distinct (fun _ _ entry member => absurd member (noEntries entry))
  have same : copied = entries := showsCopy.sorted.unique shows.sorted fun entry => by simp [members, noEntries]
  have run : (target.balances.optimize optimized >>= fun map => AccountBalances.insertAll map entries) = .ok map := by
    rw [result]
    exact inserted
  unfold AccountBalances.assign
  rw [shows.optimized, shows.toList, run]
  exact congrArg Except.ok ((same ▸ showsCopy).unique shows)

/-- A copy has the same storage levels. -/
theorem Shows.copy (shows : Shows optimized balances entries) : balances.copy = .ok balances :=
  shows.assign shows_empty

variable {α : Type}

theorem readValue_write (codec : Codec α) (value : α) (rest : List UInt8) :
    readValue codec (codec.write value ++ rest) = .ok (value, rest) := codec.take_write _ value rest

/-- The balances that result from the mosaics of a stream. -/
def creditAll : Nat → AccountBalances → List Mosaic → Except AccountError AccountBalances
  | _, balances, [] => .ok balances
  | index, balances, mosaic :: mosaics => do
    let credited ← balances.credit mosaic.1 mosaic.2
    if index = 0 then
      let optimized ← credited.optimize mosaic.1
      creditAll (index + 1) optimized mosaics
    else creditAll (index + 1) credited mosaics

theorem bind_apply {β : Type} (first : Reader α) (next : α → Reader β) (bytes : List UInt8) :
    (first >>= next) bytes = (first bytes >>= fun result => next result.1 result.2) := rfl

theorem ok_bind {ε β : Type} (value : α) (next : α → Except ε β) : (Except.ok value >>= next) = next value := rfl

theorem lift_bind {β : Type} (first : Except AccountError α) (next : α → Reader β) (bytes : List UInt8) :
    ((liftM first : Reader α) >>= next) bytes = (first >>= fun value => next value bytes) := by
  cases first <;> rfl

theorem readMosaics_write (index : Nat) (balances : AccountBalances) (mosaics : List Mosaic) (rest : List UInt8) :
    readMosaics mosaics.length index balances (writeAll Codecs.mosaic mosaics ++ rest) =
      (creditAll index balances mosaics).map fun read => (read, rest) := by
  induction mosaics generalizing index balances with
  | nil => rfl
  | cons mosaic mosaics ih =>
    rw [writeAll, List.flatMap_cons, List.append_assoc, List.length_cons, readMosaics, bind_apply, readValue_write,
      creditAll, ok_bind, lift_bind]
    dsimp only
    cases balances.credit mosaic.1 mosaic.2 with
    | error error => rfl
    | ok credited =>
      rw [ok_bind, ok_bind]
      split
      · rw [lift_bind]
        cases credited.optimize mosaic.1 with
        | error error => rfl
        | ok optimized => exact ih (index + 1) optimized
      · exact ih (index + 1) credited

/-- Mosaics without an amount are skipped. -/
theorem Shows.creditAll (shows : Shows optimized balances entries) {index : Nat} {mosaics : List Mosaic}
    (later : index ≠ 0) (valid : ∀ mosaic ∈ mosaics, mosaic.1 ≠ 0)
    (distinct : mosaics.Pairwise fun first second => first.1 ≠ second.1)
    (absent : ∀ mosaic ∈ mosaics, ∀ entry ∈ entries, entry.1 ≠ mosaic.1) :
    ∃ changed arranged, State.creditAll index balances mosaics = .ok changed ∧ Shows optimized changed arranged ∧
      ∀ entry, entry ∈ arranged ↔ (entry ∈ mosaics ∧ entry.2 ≠ 0) ∨ entry ∈ entries := by
  induction mosaics generalizing index balances entries with
  | nil => exact ⟨balances, entries, rfl, shows, by simp⟩
  | cons mosaic mosaics ih =>
    obtain ⟨differ, distinctRest⟩ := List.pairwise_cons.mp distinct
    obtain ⟨credited, arranged, creditedNow, showsNext, members⟩ :=
      shows.credit_new (valid mosaic List.mem_cons_self) (absent mosaic List.mem_cons_self)
    obtain ⟨changed, final, read, showsFinal, membersFinal⟩ := ih showsNext (Nat.succ_ne_zero index)
      (fun other member => valid other (.tail _ member)) distinctRest (by
        intro other member entry memberEntry
        rcases (members entry).mp memberEntry with ⟨rfl, _⟩ | old
        · exact differ other member
        · exact absent other (.tail _ member) entry old)
    refine ⟨changed, final, by rw [State.creditAll, creditedNow, ok_bind, if_neg later, read], showsFinal, fun entry => ?_⟩
    rw [membersFinal, members, List.mem_cons]
    constructor
    · rintro (⟨member, amount⟩ | ⟨rfl, amount⟩ | old)
      · exact .inl ⟨.inr member, amount⟩
      · exact .inl ⟨.inl rfl, amount⟩
      · exact .inr old
    · rintro (⟨rfl | member, amount⟩ | old)
      · exact .inr (.inl ⟨rfl, amount⟩)
      · exact .inl ⟨member, amount⟩
      · exact .inr (.inr old)

theorem Layered.sorted_first {first : Mosaic} {rest : List Mosaic} (layered : Layered (first :: rest)) :
    Sorted first.1 (first :: rest) :=
  List.pairwise_cons.mpr ⟨fun _ member => isLessThan_iff.mpr ⟨Ne.symm (layered.differ member), .inl rfl⟩,
    Sorted.of_ascending layered.2.2 fun _ member => layered.differ member⟩

/-- The mosaic that is read first becomes the optimized one. -/
def firstMosaicId (mosaics : List Mosaic) : MosaicId := (mosaics.headD (0, 0)).1

theorem Layered.sorted_firstMosaicId {mosaics : List Mosaic} (layered : Layered mosaics) :
    Sorted (firstMosaicId mosaics) mosaics := by
  cases mosaics with
  | nil => exact List.Pairwise.nil
  | cons first rest => exact layered.sorted_first

/-- Mosaics keep the order in which they are read. -/
theorem creditAll_order {mosaics : List Mosaic} (layered : Layered mosaics) :
    ∃ changed, creditAll 0 .empty mosaics = .ok changed ∧
      Shows (firstMosaicId mosaics) changed (mosaics.filter fun mosaic => mosaic.2 ≠ 0) := by
  cases mosaics with
  | nil => exact ⟨.empty, rfl, shows_empty⟩
  | cons mosaic mosaics =>
    obtain ⟨credited, arranged, creditedNow, showsNext, members⟩ :=
      shows_empty.credit_new (layered.valid List.mem_cons_self) (fun _ member => nomatch member)
    obtain ⟨map, arrangedFirst, optimizedNow, showsFirst, membersFirst⟩ := showsNext.optimized_map mosaic.1
    have single : ∀ entry, entry ∈ arrangedFirst ↔ entry = mosaic ∧ mosaic.2 ≠ 0 := by
      intro entry
      rw [membersFirst, members]
      simp
    have sorted := layered.sorted_first
    obtain ⟨changed, final, read, showsFinal, membersFinal⟩ := showsFirst.creditAll (Nat.succ_ne_zero 0)
      (fun other member => layered.valid (.tail _ member)) (List.pairwise_cons.mp sorted.distinct).2 (by
        intro other member entry memberEntry
        obtain ⟨rfl, _⟩ := (single entry).mp memberEntry
        exact Ne.symm (layered.differ member))
    have same : final = (mosaic :: mosaics).filter fun mosaic => mosaic.2 ≠ 0 := by
      refine showsFinal.sorted.unique (sorted.sublist List.filter_sublist) fun entry => ?_
      rw [membersFinal, single, List.mem_filter, List.mem_cons, decide_eq_true_iff]
      constructor
      · rintro (⟨member, amount⟩ | ⟨rfl, amount⟩)
        · exact ⟨.inr member, amount⟩
        · exact ⟨.inl rfl, amount⟩
      · rintro ⟨rfl | member, amount⟩
        · exact .inr ⟨rfl, amount⟩
        · exact .inl ⟨member, amount⟩
    refine ⟨changed, ?_, same ▸ showsFinal⟩
    rw [State.creditAll, creditedNow, ok_bind, if_pos rfl, AccountBalances.optimize, optimizedNow]
    exact read

end Catapult.State
