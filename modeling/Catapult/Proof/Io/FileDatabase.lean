import Catapult.Construction.Io.FileDatabase
import Mathlib.Data.Nat.Init

/-
This file shows that a file database returns the payloads that were written in ascending order.
-/

namespace Catapult.Io

namespace FileDatabase

/-- The payloads of a group before a position follow one another. -/
def layout (batchSize : Nat) (payloads : Nat → List UInt8) (group count : Nat) : List UInt8 :=
  (List.range count).flatMap fun index => payloads (group * batchSize + index)

/-- Consecutive payloads are stored in the files of their groups. -/
structure Stores (database : FileDatabase) (payloads : Nat → List UInt8) : Prop where
  consecutive : ∀ id later, 1 ≤ id → id ≤ later → payloads id = [] → payloads later = []
  missing : ∀ group, database.files (group * database.batchSize) = none →
    ∀ index < database.batchSize, payloads (group * database.batchSize + index) = []
  body : ∀ group file, database.files (group * database.batchSize) = some file →
    file.body = layout database.batchSize payloads group database.batchSize
  header : ∀ group file, database.files (group * database.batchSize) = some file → database.batchSize ≠ 1 →
    ∀ index < database.batchSize, file.header index =
      if payloads (group * database.batchSize + index) = [] then 0
      else database.headerSize + (layout database.batchSize payloads group index).length

theorem stores_create (batchSize : Nat) (nonzero : batchSize ≠ 0) : Stores (create batchSize nonzero) fun _ => [] where
  consecutive _ _ _ _ _ := rfl
  missing _ _ _ _ := rfl
  body _ _ found := by cases found
  header _ _ found := by cases found

variable {database : FileDatabase} {payloads : Nat → List UInt8} {id : Nat}

theorem layout_succ (batchSize : Nat) (payloads : Nat → List UInt8) (group count : Nat) :
    layout batchSize payloads group (count + 1) =
      layout batchSize payloads group count ++ payloads (group * batchSize + count) := by
  rw [layout, List.range_succ, List.flatMap_append]
  simp [layout]

theorem layout_congr {batchSize group count : Nat} {first second : Nat → List UInt8}
    (equal : ∀ index < count, first (group * batchSize + index) = second (group * batchSize + index)) :
    layout batchSize first group count = layout batchSize second group count := by
  unfold layout
  rw [List.flatMap_def, List.flatMap_def]
  congr 1
  exact List.map_congr_left fun index inside => equal index (List.mem_range.mp inside)

/-- Empty payloads take no space. -/
theorem layout_eq_of_empty {batchSize group first : Nat} {payloads : Nat → List UInt8}
    (empty : ∀ index, first ≤ index → payloads (group * batchSize + index) = []) {count : Nat} (inside : first ≤ count) :
    layout batchSize payloads group count = layout batchSize payloads group first := by
  induction count, inside using Nat.le_induction with
  | base => rfl
  | succ count inside ih => rw [layout_succ, empty count inside, List.append_nil, ih]

/-- The layout of a group starts with the layout of its first payloads. -/
theorem layout_prefix (batchSize : Nat) (payloads : Nat → List UInt8) (group : Nat) {first count : Nat} (inside : first ≤ count) :
    ∃ rest, layout batchSize payloads group count = layout batchSize payloads group first ++ rest := by
  induction count, inside using Nat.le_induction with
  | base => exact ⟨[], (List.append_nil _).symm⟩
  | succ count inside ih =>
    obtain ⟨rest, equal⟩ := ih
    exact ⟨rest ++ payloads (group * batchSize + count), by rw [layout_succ, equal, List.append_assoc]⟩

theorem groupId_add (database : FileDatabase) (id : Nat) : database.groupId id + database.headerIndex id = id := by
  rw [groupId, headerIndex, Nat.mul_comm]
  exact Nat.div_add_mod id database.batchSize

theorem headerIndex_lt (database : FileDatabase) (id : Nat) : database.headerIndex id < database.batchSize :=
  Nat.mod_lt id (Nat.pos_of_ne_zero database.nonzero)

/-- The offsets of two neighbours enclose a payload. -/
theorem drop_layout (batchSize : Nat) (payloads : Nat → List UInt8) (group : Nat) {index count : Nat} (inside : index < count) :
    ∃ rest, (layout batchSize payloads group count).drop (layout batchSize payloads group index).length =
      payloads (group * batchSize + index) ++ rest := by
  obtain ⟨rest, equal⟩ := layout_prefix batchSize payloads group (Nat.succ_le_of_lt inside)
  refine ⟨rest, ?_⟩
  rw [equal, layout_succ, List.append_assoc, List.drop_left]

/-- A stored payload ends after its bytes. -/
theorem Stores.bodyEndOffset_eq (stores : Stores database payloads) (positive : 1 ≤ id) {file : BatchFile}
    (found : database.files (database.groupId id) = some file) (several : database.batchSize ≠ 1) :
    database.bodyEndOffset file id = database.headerSize +
      (layout database.batchSize payloads (id / database.batchSize) (database.headerIndex id + 1)).length := by
  have identifier := database.groupId_add id
  have inside := database.headerIndex_lt id
  have body := stores.body _ file found
  have size : 0 < database.headerSize := Nat.mul_pos (Nat.pos_of_ne_zero database.nonzero) (by decide)
  unfold bodyEndOffset
  by_cases last : database.headerIndex id + 1 = database.batchSize
  · have notInside : ¬ database.batchSize - 1 ≠ database.headerIndex id := by omega
    rw [if_neg notInside, if_pos rfl, body, last]
  · have next := stores.header _ file found several (database.headerIndex id + 1) (by omega)
    rw [← groupId, ← Nat.add_assoc, identifier] at next
    have notLast : database.batchSize - 1 ≠ database.headerIndex id := by omega
    rw [if_pos notLast, next]
    by_cases empty : payloads (id + 1) = []
    · have later : ∀ index, database.headerIndex id + 1 ≤ index →
          payloads (id / database.batchSize * database.batchSize + index) = [] := by
        intro index after
        rw [← groupId]
        exact stores.consecutive (id + 1) _ (by omega) (by omega) empty
      rw [if_pos empty, if_pos rfl, body, layout_eq_of_empty later (by omega)]
    · rw [if_neg empty, if_neg (by omega)]

/-- A stored payload is read back. -/
theorem Stores.inputStream_eq (stores : Stores database payloads) (positive : 1 ≤ id) (written : payloads id ≠ []) :
    database.inputStream id = .ok (payloads id) := by
  have identifier := database.groupId_add id
  have inside := database.headerIndex_lt id
  unfold inputStream
  cases found : database.files (database.groupId id) with
  | none =>
    have empty := stores.missing _ found _ inside
    rw [← groupId, identifier] at empty
    exact absurd empty written
  | some file =>
    have body := stores.body _ file found
    dsimp only
    by_cases single : database.batchSize = 1
    · rw [if_pos (by simp [bypassHeader, single]), body, single]
      have whole : layout 1 payloads (id / 1) 1 = payloads id := by simp [layout]
      rw [whole]
    · have header := stores.header _ file found single
      have start := header _ inside
      rw [← groupId, identifier, if_neg written] at start
      have size : 0 < database.headerSize := Nat.mul_pos (Nat.pos_of_ne_zero database.nonzero) (by decide)
      rw [if_neg (by simp [bypassHeader, single]), start, if_neg (by omega)]
      obtain ⟨rest, dropped⟩ := drop_layout database.batchSize payloads (id / database.batchSize) inside
      rw [← groupId, identifier] at dropped
      rw [stores.bodyEndOffset_eq positive found single, layout_succ, ← groupId, identifier, List.length_append,
        body, Nat.add_sub_cancel_left, dropped]
      congr 1
      rw [show database.headerSize + _ - _ = (payloads id).length by omega, List.take_left]

/-- The payloads before the written one stay in its file. -/
theorem Stores.truncate_body (stores : Stores database payloads) (last : ∀ later, id < later → payloads later = [])
    (several : database.batchSize ≠ 1) : (database.truncate ((database.files (database.groupId id)).getD .empty) id).body =
      layout database.batchSize payloads (id / database.batchSize) (database.headerIndex id) := by
  have identifier := database.groupId_add id
  have inside := database.headerIndex_lt id
  have size : 0 < database.headerSize := Nat.mul_pos (Nat.pos_of_ne_zero database.nonzero) (by decide)
  have later : payloads id = [] → ∀ index, database.headerIndex id ≤ index →
      payloads (id / database.batchSize * database.batchSize + index) = [] := by
    intro empty index after
    rw [← groupId]
    by_cases same : index = database.headerIndex id
    · rw [same, identifier, empty]
    · exact last _ (by omega)
  cases found : database.files (database.groupId id) with
  | none =>
    have missing := stores.missing _ found
    rw [show (database.truncate (Option.getD none .empty) id).body = [] from rfl]
    have empty : payloads id = [] := by
      have own := missing _ inside
      rwa [← groupId, identifier] at own
    have all : ∀ index, 0 ≤ index → payloads (id / database.batchSize * database.batchSize + index) = [] := by
      intro index _
      by_cases before : index < database.batchSize
      · exact missing index before
      · exact later empty index (by omega)
    rw [layout_eq_of_empty all (Nat.zero_le _)]
    rfl
  | some file =>
    have body := stores.body _ file found
    have start := stores.header _ file found several _ inside
    rw [← groupId, identifier] at start
    unfold truncate
    dsimp only [Option.getD_some]
    rw [start]
    by_cases empty : payloads id = []
    · rw [if_pos empty, if_pos rfl, body]
      exact layout_eq_of_empty (later empty) (by omega)
    · rw [if_neg empty, if_neg (by omega)]
      dsimp only
      obtain ⟨rest, equal⟩ := layout_prefix database.batchSize payloads (id / database.batchSize)
        (Nat.le_of_lt inside)
      rw [body, equal, Nat.add_sub_cancel_left, List.take_left]

/-- The offsets before the written payload stay in the header and no offset follows it. -/
theorem Stores.truncate_header (stores : Stores database payloads)
    (last : ∀ later, id < later → payloads later = []) (several : database.batchSize ≠ 1) {index : Nat}
    (inside : index < database.batchSize) (other : index ≠ database.headerIndex id) :
    (database.truncate ((database.files (database.groupId id)).getD .empty) id).header index =
      if payloads (database.groupId id + index) = [] then 0
      else database.headerSize + (layout database.batchSize payloads (id / database.batchSize) index).length := by
  have identifier := database.groupId_add id
  have after : database.headerIndex id ≤ index → payloads (database.groupId id + index) = [] := by
    intro above
    exact last _ (by omega)
  cases found : database.files (database.groupId id) with
  | none =>
    have empty : payloads (database.groupId id + index) = [] := stores.missing _ found index inside
    rw [show (database.truncate (Option.getD none .empty) id).header index = 0 from rfl, if_pos empty]
  | some file =>
    have header := stores.header _ file found several index inside
    unfold truncate
    dsimp only [Option.getD_some]
    split
    · exact header
    · dsimp only
      split
      · next above => rw [if_pos (after above)]
      · exact header

theorem batchSize_write (database : FileDatabase) (id : Nat) (payload : List UInt8) :
    (database.write id payload).batchSize = database.batchSize := by
  unfold FileDatabase.write
  dsimp only
  split
  · rfl
  · rfl

/-- The files of other groups are not written. -/
theorem files_write_other {group : Nat} (other : group ≠ id / database.batchSize) (payload : List UInt8) :
    (database.write id payload).files (group * database.batchSize) = database.files (group * database.batchSize) := by
  have different : group * database.batchSize ≠ database.groupId id :=
    fun same => other (Nat.eq_of_mul_eq_mul_right (Nat.pos_of_ne_zero database.nonzero) same)
  unfold FileDatabase.write
  dsimp only
  split
  · exact Function.update_of_ne different _ _
  · exact Function.update_of_ne different _ _

/-- The written file ends with the payload. -/
theorem Stores.write_own (stores : Stores database payloads) (last : ∀ later, id < later → payloads later = [])
    (payload : List UInt8) :
    ∃ file, (database.write id payload).files (id / database.batchSize * database.batchSize) = some file ∧
      file.body = layout database.batchSize payloads (id / database.batchSize) (database.headerIndex id) ++ payload ∧
      (database.batchSize ≠ 1 → ∀ index < database.batchSize, file.header index =
        if index = database.headerIndex id then database.headerSize +
          (layout database.batchSize payloads (id / database.batchSize) index).length
        else if payloads (database.groupId id + index) = [] then 0
        else database.headerSize + (layout database.batchSize payloads (id / database.batchSize) index).length) := by
  unfold FileDatabase.write
  dsimp only
  by_cases single : database.batchSize = 1
  · rw [if_pos (by simp [bypassHeader, single])]
    refine ⟨_, Function.update_self .., ?_, absurd single⟩
    have first : database.headerIndex id = 0 := by rw [headerIndex, single, Nat.mod_one]
    rw [first]
    rfl
  · rw [if_neg (by simp [bypassHeader, single])]
    refine ⟨_, Function.update_self .., ?_, ?_⟩
    · rw [stores.truncate_body last single]
    · intro _ index inside
      dsimp only
      by_cases own : index = database.headerIndex id
      · rw [if_pos own, own, Function.update_self, stores.truncate_body last single]
      · rw [if_neg own, Function.update_of_ne own]
        exact stores.truncate_header last single inside own

/-- A payload after all others or in place of the last one keeps the others. -/
theorem Stores.write (stores : Stores database payloads) (positive : 1 ≤ id)
    (previous : id = 1 ∨ payloads (id - 1) ≠ []) (last : ∀ later, id < later → payloads later = [])
    {payload : List UInt8} (nonempty : payload ≠ []) :
    Stores (database.write id payload) (Function.update payloads id payload) := by
  have identifier := database.groupId_add id
  have inside := database.headerIndex_lt id
  have size := database.batchSize_write id payload
  obtain ⟨written, found, body, header⟩ := stores.write_own last payload
  have otherGroup : ∀ group, group ≠ id / database.batchSize → ∀ index < database.batchSize,
      Function.update payloads id payload (group * database.batchSize + index) =
        payloads (group * database.batchSize + index) := by
    intro group other index below
    refine Function.update_of_ne ?_ _ _
    intro same
    refine other ?_
    rw [← same, Nat.mul_comm, Nat.mul_add_div (Nat.pos_of_ne_zero database.nonzero), Nat.div_eq_of_lt below, Nat.add_zero]
  have ownGroup : ∀ index, index ≠ database.headerIndex id →
      Function.update payloads id payload (database.groupId id + index) = payloads (database.groupId id + index) := by
    intro index other
    refine Function.update_of_ne ?_ _ _
    omega
  have ownLayout : ∀ count ≤ database.headerIndex id,
      layout database.batchSize (Function.update payloads id payload) (id / database.batchSize) count =
        layout database.batchSize payloads (id / database.batchSize) count := by
    intro count below
    exact layout_congr fun index before => ownGroup index (by omega)
  have sameHeader : (database.write id payload).headerSize = database.headerSize := by rw [headerSize, size, headerSize]
  refine ⟨?_, ?_, ?_, ?_⟩
  · intro first later one before empty
    have different : first ≠ id := by
      rintro rfl
      rw [Function.update_self] at empty
      exact nonempty empty
    rw [Function.update_of_ne different] at empty
    rw [Function.update_of_ne, stores.consecutive first later one before empty]
    rintro rfl
    rcases previous with rfl | filled
    · omega
    · exact filled (stores.consecutive first _ one (by omega) empty)
  · intro group missing index below
    rw [size] at missing below ⊢
    by_cases own : group = id / database.batchSize
    · subst own
      rw [found] at missing
      cases missing
    · rw [files_write_other own] at missing
      rw [otherGroup group own index below]
      exact stores.missing group missing index below
  · intro group file present
    rw [size] at present ⊢
    by_cases own : group = id / database.batchSize
    · subst own
      rw [found] at present
      cases present
      have later : ∀ index, database.headerIndex id + 1 ≤ index →
          Function.update payloads id payload (id / database.batchSize * database.batchSize + index) = [] := by
        intro index after
        rw [← groupId, ownGroup index (by omega)]
        exact last _ (by omega)
      rw [body, layout_eq_of_empty later inside, layout_succ, ownLayout _ (Nat.le_refl _), ← groupId, identifier,
        Function.update_self]
    · rw [files_write_other own] at present
      rw [stores.body group file present]
      exact layout_congr fun index below => (otherGroup group own index below).symm
  · intro group file present several index below
    rw [size] at present several below
    rw [size, sameHeader]
    by_cases own : group = id / database.batchSize
    · subst own
      rw [found] at present
      cases present
      rw [header several index below, ← groupId]
      by_cases self : index = database.headerIndex id
      · rw [if_pos self, self, identifier, Function.update_self, if_neg nonempty, ownLayout _ (Nat.le_refl _)]
      · rw [if_neg self, ownGroup index self]
        by_cases empty : payloads (database.groupId id + index) = []
        · rw [if_pos empty, if_pos empty]
        · have before : index < database.headerIndex id := by
            by_contra after
            exact empty (last _ (by omega))
          rw [if_neg empty, if_neg empty, ownLayout _ (Nat.le_of_lt before)]
    · rw [files_write_other own] at present
      rw [stores.header group file present several index below, otherGroup group own index below,
        layout_congr fun earlier before => (otherGroup group own earlier (Nat.lt_trans before below)).symm]

end FileDatabase

end Catapult.Io
