import Catapult.Construction.Io.FileBlockStorage
import Catapult.Proof.Io.FileDatabase

/-
This file shows which payloads of a file database survive when another payload is written.
-/

namespace Catapult.Io

namespace FileDatabase

variable {database : FileDatabase} {id other : Nat} {payload : List UInt8}

theorem groupId_write (database : FileDatabase) (id : Nat) (payload : List UInt8) (other : Nat) :
    (database.write id payload).groupId other = database.groupId other := by
  rw [groupId, groupId, batchSize_write]

theorem headerIndex_write (database : FileDatabase) (id : Nat) (payload : List UInt8) (other : Nat) :
    (database.write id payload).headerIndex other = database.headerIndex other := by
  rw [headerIndex, headerIndex, batchSize_write]

theorem headerSize_write (database : FileDatabase) (id : Nat) (payload : List UInt8) :
    (database.write id payload).headerSize = database.headerSize := by
  rw [headerSize, headerSize, batchSize_write]

theorem bypassHeader_write (database : FileDatabase) (id : Nat) (payload : List UInt8) :
    (database.write id payload).bypassHeader = database.bypassHeader := by
  rw [bypassHeader, bypassHeader, batchSize_write]

/-- Two payloads are stored in one file. -/
def SameFile (database : FileDatabase) (first second : Nat) : Prop := database.groupId first = database.groupId second

instance (first second : Nat) : Decidable (database.SameFile first second) := inferInstanceAs (Decidable (_ = _))

/-- The file of a payload after it was written. -/
def writtenFile (database : FileDatabase) (id : Nat) (payload : List UInt8) : BatchFile :=
  if database.bypassHeader then ⟨fun _ => 0, payload⟩
  else
    let file := database.truncate ((database.files (database.groupId id)).getD .empty) id
    ⟨Function.update file.header (database.headerIndex id) (database.headerSize + file.body.length), file.body ++ payload⟩

theorem files_write (database : FileDatabase) (id : Nat) (payload : List UInt8) (group : Nat) :
    (database.write id payload).files group =
      if group = database.groupId id then some (database.writtenFile id payload) else database.files group := by
  unfold FileDatabase.write writtenFile
  dsimp only
  split
  · exact Function.update_apply _ _ _ _
  · exact Function.update_apply _ _ _ _

theorem SameFile.headerIndex_lt_iff (same : database.SameFile id other) :
    database.headerIndex id < database.headerIndex other ↔ id < other := by
  have first := database.groupId_add id
  have second := database.groupId_add other
  unfold SameFile at same
  omega

theorem SameFile.headerIndex_eq_iff (same : database.SameFile id other) :
    database.headerIndex id = database.headerIndex other ↔ id = other := by
  have first := database.groupId_add id
  have second := database.groupId_add other
  unfold SameFile at same
  omega

/-- A file without a header has one payload. -/
theorem SameFile.eq_of_bypass (same : database.SameFile id other) (bypass : database.bypassHeader = true) : id = other := by
  have first := database.groupId_add id
  have second := database.groupId_add other
  have firstIndex := database.headerIndex_lt id
  have secondIndex := database.headerIndex_lt other
  have one : database.batchSize = 1 := of_decide_eq_true bypass
  unfold SameFile at same
  omega

/-- The next payload is in the same file unless the payload is the last one of its file. -/
theorem sameFile_succ : database.SameFile (id + 1) id ↔ database.batchSize - 1 ≠ database.headerIndex id := by
  have inside := database.headerIndex_lt id
  have identifier := database.groupId_add id
  have nextIdentifier := database.groupId_add (id + 1)
  have nextInside := database.headerIndex_lt (id + 1)
  constructor
  · intro same
    unfold SameFile at same
    omega
  · intro notLast
    unfold SameFile groupId
    have split : id + 1 = database.batchSize * (id / database.batchSize) + (database.headerIndex id + 1) := by
      have sum := Nat.div_add_mod id database.batchSize
      rw [headerIndex]
      omega
    have small : (database.headerIndex id + 1) / database.batchSize = 0 := Nat.div_eq_of_lt (by omega)
    have quotient : (id + 1) / database.batchSize = id / database.batchSize :=
      calc (id + 1) / database.batchSize
          = (database.batchSize * (id / database.batchSize) + (database.headerIndex id + 1)) / database.batchSize := by rw [← split]
        _ = id / database.batchSize + (database.headerIndex id + 1) / database.batchSize :=
            Nat.mul_add_div (Nat.pos_of_ne_zero database.nonzero) _ _
        _ = id / database.batchSize := by rw [small, Nat.add_zero]
    rw [quotient]

theorem SameFile.headerIndex_succ (same : database.SameFile (id + 1) id) : database.headerIndex (id + 1) = database.headerIndex id + 1 := by
  have first := database.groupId_add id
  have second := database.groupId_add (id + 1)
  unfold SameFile at same
  omega

/-- The offset in the header of a file; a file that is not there has no offsets. -/
def offset (database : FileDatabase) (id : Nat) : Nat :=
  ((database.files (database.groupId id)).getD .empty).header (database.headerIndex id)

theorem contains_iff_offset (several : database.bypassHeader = false) : database.contains id = true ↔ database.offset id ≠ 0 := by
  unfold contains offset
  rw [several]
  cases database.files (database.groupId id) with
  | none => exact ⟨nofun, fun nonzero => absurd rfl nonzero⟩
  | some file => exact decide_eq_true_iff

theorem offset_write (several : database.bypassHeader = false) (payload : List UInt8) : (database.write id payload).offset other =
      if database.SameFile other id then
        if other = id then
          database.headerSize + (database.truncate ((database.files (database.groupId id)).getD .empty) id).body.length
        else if id < other ∧ database.contains id = true then 0 else database.offset other
      else database.offset other := by
  unfold offset
  rw [groupId_write, headerIndex_write, files_write]
  by_cases same : database.SameFile other id
  · rw [if_pos (show database.groupId other = database.groupId id from same), if_pos same, Option.getD_some, writtenFile, several,
      if_neg Bool.false_ne_true]
    dsimp only
    rw [Function.update_apply, if_congr same.headerIndex_eq_iff rfl rfl]
    by_cases equal : other = id
    · rw [if_pos equal, if_pos equal]
    · rw [if_neg equal, if_neg equal]
      have contained := @contains_iff_offset database id several
      unfold truncate
      dsimp only
      rw [show ((database.files (database.groupId id)).getD .empty).header (database.headerIndex id) = database.offset id from rfl]
      have order : database.headerIndex id ≤ database.headerIndex other ↔ id < other := by
        have lt := same.headerIndex_lt_iff
        have eq := same.headerIndex_eq_iff
        omega
      have files : (database.files (database.groupId other)).getD .empty = (database.files (database.groupId id)).getD .empty := by
        rw [show database.groupId other = database.groupId id from same]
      split
      · next zero => rw [if_neg (fun both => contained.mp both.2 zero), files]
      · next nonzero =>
        dsimp only
        rw [if_congr order rfl rfl, files]
        by_cases after : id < other
        · rw [if_pos after, if_pos ⟨after, contained.mpr nonzero⟩]
        · rw [if_neg after, if_neg fun both => after both.1]
  · rw [if_neg (show ¬ database.groupId other = database.groupId id from same), if_neg same]

/-- The body of the file of a payload. -/
def bodyOf (database : FileDatabase) (id : Nat) : List UInt8 := ((database.files (database.groupId id)).getD .empty).body

/-- The offset of the next payload in the same file; zero if there is none. -/
def nextOffset (database : FileDatabase) (id : Nat) : Nat :=
  if database.SameFile (id + 1) id then database.offset (id + 1) else 0

/-- The payload is at its offset; where it ends can be told only if the payloads of its file have no gaps. -/
structure Holds (database : FileDatabase) (exactly : Prop) (id : Nat) (payload : List UInt8) : Prop where
  contained : database.contains id = true
  whole : database.bypassHeader = true → database.bodyOf id = payload
  start : database.bypassHeader = false → database.headerSize ≤ database.offset id
  begins : database.bypassHeader = false → payload <+: (database.bodyOf id).drop (database.offset id - database.headerSize)
  inside : database.bypassHeader = false → database.offset id + payload.length ≤ database.headerSize + (database.bodyOf id).length
  next : database.bypassHeader = false → database.nextOffset id ≠ 0 →
    database.offset id + payload.length ≤ database.nextOffset id ∧ database.nextOffset id ≤ database.headerSize + (database.bodyOf id).length
  ends : exactly → database.bypassHeader = false → database.offset id + payload.length =
      if database.nextOffset id = 0 then database.headerSize + (database.bodyOf id).length else database.nextOffset id

theorem headerSize_pos (database : FileDatabase) : 0 < database.headerSize :=
  Nat.mul_pos (Nat.pos_of_ne_zero database.nonzero) (by decide)

theorem files_of_contains (contained : database.contains id = true) : ∃ file, database.files (database.groupId id) = some file := by
  unfold contains at contained
  cases found : database.files (database.groupId id) with
  | none =>
    rw [found] at contained
    cases contained
  | some file => exact ⟨file, rfl⟩

theorem bodyEndOffset_eq {file : BatchFile} (found : database.files (database.groupId id) = some file) :
    database.bodyEndOffset file id =
      if database.nextOffset id = 0 then database.headerSize + (database.bodyOf id).length else database.nextOffset id := by
  have next : database.nextOffset id =
      if database.batchSize - 1 ≠ database.headerIndex id then file.header (database.headerIndex id + 1) else 0 := by
    unfold nextOffset
    by_cases same : database.SameFile (id + 1) id
    · rw [if_pos same, if_pos (sameFile_succ.mp same), offset, show database.groupId (id + 1) = database.groupId id from same, found,
        same.headerIndex_succ]
      rfl
    · rw [if_neg same, if_neg (mt sameFile_succ.mpr same)]
  unfold bodyEndOffset bodyOf
  rw [next, found]
  rfl

/-- A payload is read from its offset to its end. -/
theorem readAll_eq (contained : database.contains id = true) (several : database.bypassHeader = false) {last : Nat}
    (ends : last = if database.nextOffset id = 0 then database.headerSize + (database.bodyOf id).length else database.nextOffset id)
    (start : database.offset id ≤ last) (inside : last ≤ database.headerSize + (database.bodyOf id).length) :
    database.inputStream id = .ok (((database.bodyOf id).drop (database.offset id - database.headerSize)).take (last - database.offset id)) ∧
      database.readAll id = .ok (((database.bodyOf id).drop (database.offset id - database.headerSize)).take (last - database.offset id)) := by
  obtain ⟨file, found⟩ := files_of_contains contained
  have nonzero := (contains_iff_offset several).mp contained
  have header : file.header (database.headerIndex id) = database.offset id := by rw [offset, found]; rfl
  have body : file.body = database.bodyOf id := by rw [bodyOf, found]; rfl
  have stream : database.inputStream id =
      .ok (((database.bodyOf id).drop (database.offset id - database.headerSize)).take (last - database.offset id)) := by
    unfold inputStream
    rw [found]
    dsimp only
    rw [several, if_neg Bool.false_ne_true, header, if_neg nonzero, bodyEndOffset_eq found, ← ends, body]
  refine ⟨stream, ?_⟩
  unfold readAll
  rw [stream, found]
  change (if _ then _ else _) = _
  rw [if_pos]
  rw [header, bodyEndOffset_eq found, ← ends, body]
  simp [start, inside]

theorem Holds.read {exactly : Prop} (holds : Holds database exactly id payload) : ∃ rest, database.readAll id = .ok (payload ++ rest) ∧
    (exactly → database.inputStream id = .ok payload ∧ rest = []) := by
  cases several : database.bypassHeader with
  | true =>
    obtain ⟨file, found⟩ := files_of_contains holds.contained
    have body : file.body = payload := by
      have whole := holds.whole several
      rw [bodyOf, found] at whole
      exact whole
    have stream : database.inputStream id = .ok payload := by
      unfold inputStream
      rw [found]
      dsimp only
      rw [several, if_pos rfl, body]
    refine ⟨[], ?_, fun _ => ⟨stream, rfl⟩⟩
    unfold readAll
    rw [stream, found, List.append_nil]
    change (if _ then _ else _) = _
    rw [several, if_pos (Bool.true_or _)]
  | false =>
    have start := holds.start several
    have inside := holds.inside several
    obtain ⟨rest, begins⟩ := holds.begins several
    have bounds : ∃ last, (last = if database.nextOffset id = 0 then database.headerSize + (database.bodyOf id).length
          else database.nextOffset id) ∧ database.offset id + payload.length ≤ last ∧
        last ≤ database.headerSize + (database.bodyOf id).length := by
      refine ⟨_, rfl, ?_⟩
      split
      · exact ⟨inside, Nat.le_refl _⟩
      · next nonzero => exact holds.next several nonzero
    obtain ⟨last, ends, lower, upper⟩ := bounds
    obtain ⟨stream, read⟩ := readAll_eq holds.contained several ends (by omega) upper
    have split : ((database.bodyOf id).drop (database.offset id - database.headerSize)).take (last - database.offset id) =
        payload ++ rest.take (last - database.offset id - payload.length) := by
      rw [← begins, List.take_append, List.take_of_length_le (by omega)]
    rw [split] at stream read
    refine ⟨_, read, fun exact_ => ?_⟩
    have equal := holds.ends exact_ several
    rw [← ends] at equal
    have none : rest.take (last - database.offset id - payload.length) = [] := by
      rw [show last - database.offset id - payload.length = 0 by omega, List.take_zero]
    rw [none, List.append_nil] at stream
    exact ⟨stream, none⟩

theorem contains_write_self (payload : List UInt8) : (database.write id payload).contains id = true := by
  cases several : database.bypassHeader with
  | true =>
    unfold contains
    rw [groupId_write, files_write, if_pos rfl, bypassHeader_write, several]
    rfl
  | false =>
    rw [contains_iff_offset (by rw [bypassHeader_write, several]), offset_write several, if_pos (show database.SameFile id id from rfl),
      if_pos rfl]
    have positive := database.headerSize_pos
    omega

/-- Payloads after the written one are lost if it was there before. -/
theorem contains_write_other (different : other ≠ id) (payload : List UInt8) : (database.write id payload).contains other = true ↔
      database.contains other = true ∧ ¬ (database.SameFile other id ∧ id < other ∧ database.contains id = true) := by
  cases several : database.bypassHeader with
  | true =>
    have apart : ¬ database.SameFile other id := fun same => different (same.eq_of_bypass several)
    have equal : (database.write id payload).contains other = database.contains other := by
      unfold contains
      rw [groupId_write, files_write, if_neg (show ¬ database.groupId other = database.groupId id from apart), bypassHeader_write,
        headerIndex_write]
    rw [equal, and_iff_left fun both => apart both.1]
  | false =>
    rw [contains_iff_offset (by rw [bypassHeader_write, several]), offset_write several, @contains_iff_offset database other several]
    by_cases same : database.SameFile other id
    · rw [if_pos same, if_neg different]
      split
      · next both => exact ⟨fun nonzero => absurd rfl nonzero, fun kept => absurd ⟨same, both⟩ kept.2⟩
      · next kept => exact ⟨fun nonzero => ⟨nonzero, fun all => kept all.2⟩, fun both => both.1⟩
    · rw [if_neg same, and_iff_left fun all => same all.1]

theorem bodyOf_write (several : database.bypassHeader = false) (payload : List UInt8) :
    (database.write id payload).bodyOf other = if database.SameFile other id then
      (database.truncate ((database.files (database.groupId id)).getD .empty) id).body ++ payload else database.bodyOf other := by
  unfold bodyOf
  rw [groupId_write, files_write]
  by_cases same : database.SameFile other id
  · rw [if_pos (show database.groupId other = database.groupId id from same), if_pos same, Option.getD_some, writtenFile, several,
      if_neg Bool.false_ne_true]
  · rw [if_neg (show ¬ database.groupId other = database.groupId id from same), if_neg same]

theorem sameFile_write (first second : Nat) (payload : List UInt8) :
    (database.write id payload).SameFile first second ↔ database.SameFile first second := by
  unfold SameFile
  rw [groupId_write, groupId_write]

/-- The payloads between two payloads of a file are in this file. -/
theorem SameFile.between {first middle last : Nat} (same : database.SameFile first last) (lower : first ≤ middle) (upper : middle ≤ last) :
    database.SameFile middle last := by
  have mono : ∀ {low high : Nat}, low ≤ high → database.groupId low ≤ database.groupId high := fun below =>
    Nat.mul_le_mul_right _ (Nat.div_le_div_right below)
  exact Nat.le_antisymm (mono upper) (show database.groupId last ≤ _ from same ▸ mono lower)

theorem bodyOf_congr (same : database.SameFile id other) : database.bodyOf id = database.bodyOf other := by
  rw [bodyOf, bodyOf, show database.groupId id = database.groupId other from same]

/-- The body of the file before the payload is written. -/
theorem truncate_body_eq (several : database.bypassHeader = false) :
    (database.truncate ((database.files (database.groupId id)).getD .empty) id).body =
      if database.contains id = true then (database.bodyOf id).take (database.offset id - database.headerSize) else database.bodyOf id := by
  unfold truncate
  dsimp only
  rw [show ((database.files (database.groupId id)).getD .empty).header (database.headerIndex id) = database.offset id from rfl]
  split
  · next zero => rw [if_neg fun contained => (contains_iff_offset several).mp contained zero, bodyOf]
  · next nonzero => rw [if_pos ((contains_iff_offset several).mpr nonzero), bodyOf]

/-- No payload follows the written one in its file. -/
theorem nextOffset_write_self (payload : List UInt8)
    (follower : database.contains id = false → database.SameFile (id + 1) id → database.contains (id + 1) = false)
    (several : (database.write id payload).bypassHeader = false) : (database.write id payload).nextOffset id = 0 := by
  rw [bypassHeader_write] at several
  unfold nextOffset
  by_cases same : database.SameFile (id + 1) id
  · rw [if_pos ((sameFile_write _ _ _).mpr same), offset_write several, if_pos same, if_neg (Nat.succ_ne_self id)]
    split
    · rfl
    · next kept =>
      have absent : database.contains id = false := Bool.eq_false_of_not_eq_true fun contained => kept ⟨Nat.lt_succ_self _, contained⟩
      by_contra nonzero
      exact absurd (follower absent same) (by rw [(contains_iff_offset several).mpr nonzero]; decide)
  · rw [if_neg (mt (sameFile_write _ _ _).mp same)]

/-- The written payload is at the end of its file. -/
theorem holds_write_self (exactly : Prop) (payload : List UInt8)
    (follower : database.contains id = false → database.SameFile (id + 1) id → database.contains (id + 1) = false) :
    Holds (database.write id payload) exactly id payload := by
  have self : database.SameFile id id := rfl
  refine ⟨contains_write_self payload, fun bypass => ?_, fun several => ?_, fun several => ?_, fun several => ?_,
    fun several nonzero => ?_, fun _ several => ?_⟩
  · rw [bypassHeader_write] at bypass
    unfold bodyOf
    rw [groupId_write, files_write, if_pos rfl, Option.getD_some, writtenFile, if_pos bypass]
  · rw [bypassHeader_write] at several
    rw [headerSize_write, offset_write several, if_pos self, if_pos rfl]
    omega
  · rw [bypassHeader_write] at several
    refine ⟨[], ?_⟩
    rw [headerSize_write, offset_write several, if_pos self, if_pos rfl, bodyOf_write several, if_pos self, Nat.add_sub_cancel_left,
      List.drop_left, List.append_nil]
  · rw [bypassHeader_write] at several
    rw [headerSize_write, offset_write several, if_pos self, if_pos rfl, bodyOf_write several, if_pos self, List.length_append]
    omega
  · exact absurd (nextOffset_write_self payload follower several) nonzero
  · have none := nextOffset_write_self payload follower several
    rw [bypassHeader_write] at several
    rw [if_pos none, headerSize_write, offset_write several, if_pos self, if_pos rfl, bodyOf_write several, if_pos self,
      List.length_append, Nat.add_assoc]

/-- A payload of another file stays as it is. -/
theorem Holds.write_apart {exactly : Prop} {held : List UInt8} (holds : Holds database exactly other held) (different : other ≠ id)
    (apart : ¬ database.SameFile other id) (payload : List UInt8) : Holds (database.write id payload) exactly other held := by
  have files : (database.write id payload).files (database.groupId other) = database.files (database.groupId other) := by
    rw [files_write, if_neg (show ¬ database.groupId other = database.groupId id from apart)]
  have offset : (database.write id payload).offset other = database.offset other := by
    rw [FileDatabase.offset, FileDatabase.offset, groupId_write, headerIndex_write, files]
  have body : (database.write id payload).bodyOf other = database.bodyOf other := by rw [bodyOf, bodyOf, groupId_write, files]
  have next : (database.write id payload).nextOffset other = database.nextOffset other := by
    unfold nextOffset
    by_cases same : database.SameFile (other + 1) other
    · rw [if_pos ((sameFile_write _ _ _).mpr same), if_pos same, FileDatabase.offset, FileDatabase.offset, groupId_write, headerIndex_write,
        show database.groupId (other + 1) = database.groupId other from same, files]
    · rw [if_neg (mt (sameFile_write _ _ _).mp same), if_neg same]
  refine ⟨(contains_write_other different payload).mpr ⟨holds.contained, fun all => apart all.1⟩, ?_, ?_, ?_, ?_, ?_, ?_⟩
  · rw [bypassHeader_write, body]
    exact holds.whole
  · rw [bypassHeader_write, offset, headerSize_write]
    exact holds.start
  · rw [bypassHeader_write, offset, headerSize_write, body]
    exact holds.begins
  · rw [bypassHeader_write, offset, headerSize_write, body]
    exact holds.inside
  · rw [bypassHeader_write, offset, headerSize_write, body, next]
    exact holds.next
  · rw [bypassHeader_write, offset, headerSize_write, body, next]
    exact holds.ends

/-- A payload before the written one stays as it is, unless the payload that tells its end is missing. -/
theorem Holds.write_before {exactly : Prop} {held : List UInt8} (holds : Holds database exactly other held) (before : other < id)
    (gapless : exactly → database.SameFile other id → other + 1 = id ∨ database.nextOffset other ≠ 0)
    (kept : database.SameFile other id → database.contains id = true →
      exactly ∧ database.offset other + held.length ≤ database.offset id) (payload : List UInt8) :
    Holds (database.write id payload) exactly other held := by
  by_cases same : database.SameFile other id
  · cases several : database.bypassHeader with
    | true => exact absurd (same.eq_of_bypass several) (Nat.ne_of_lt before)
    | false =>
      have start := holds.start several
      have begins := holds.begins several
      have inside := holds.inside several
      have next := holds.next several
      have body := bodyOf_congr same
      have follows : database.SameFile (other + 1) other :=
        (same.between (Nat.le_succ other) before).trans (show database.groupId id = database.groupId other from same.symm)
      have nextOld : database.nextOffset other = database.offset (other + 1) := if_pos follows
      have offsetNew : (database.write id payload).offset other = database.offset other := by
        rw [offset_write several, if_pos same, if_neg (Nat.ne_of_lt before), if_neg fun both => Nat.lt_asymm before both.1]
      have nextNew : (database.write id payload).nextOffset other = if other + 1 = id then
          database.headerSize + (database.truncate ((database.files (database.groupId id)).getD .empty) id).body.length
          else database.nextOffset other := by
        rw [nextOffset, if_pos ((sameFile_write _ _ _).mpr follows), offset_write several,
          if_pos (same.between (Nat.le_succ other) before), nextOld]
        split
        · rfl
        · rw [if_neg fun both => Nat.not_lt.mpr before both.1]
      have bodyNew := @bodyOf_write database id other several payload
      rw [if_pos same] at bodyNew
      have cut := @truncate_body_eq database id several
      generalize (database.truncate ((database.files (database.groupId id)).getD .empty) id).body = front at cut nextNew bodyNew
      rw [← body] at cut
      -- what is left of the body reaches at least to the end of the payload
      have reaches : held <+: front.drop (database.offset other - database.headerSize) ∧
          database.offset other + held.length ≤ database.headerSize + front.length := by
        by_cases contained : database.contains id = true
        · have below := (kept same contained).2
          rw [cut, if_pos contained, List.drop_take, List.length_take]
          refine ⟨List.prefix_take_iff.mpr ⟨begins, by omega⟩, by omega⟩
        · rw [cut, if_neg contained]
          exact ⟨begins, inside⟩
      obtain ⟨beginsFront, insideFront⟩ := reaches
      refine ⟨(contains_write_other (Nat.ne_of_lt before) payload).mpr ⟨holds.contained, fun all => Nat.lt_asymm before all.2.1⟩,
        fun bypass => ?_, fun _ => ?_, fun _ => ?_, fun _ => ?_, fun _ nonzero => ?_, fun exact_ _ => ?_⟩
      · rw [bypassHeader_write, several] at bypass
        cases bypass
      · rw [headerSize_write, offsetNew]
        exact start
      · rw [headerSize_write, offsetNew, bodyNew, List.drop_append]
        exact beginsFront.trans (List.prefix_append _ _)
      · rw [headerSize_write, offsetNew, bodyNew, List.length_append]
        omega
      · rw [nextNew] at nonzero
        rw [headerSize_write, offsetNew, bodyNew, nextNew, List.length_append]
        split
        · omega
        · next notNext =>
          rw [if_neg notNext] at nonzero
          have bounds := next nonzero
          refine ⟨bounds.1, ?_⟩
          by_cases contained : database.contains id = true
          · have equal := holds.ends (kept same contained).1 several
            rw [if_neg nonzero] at equal
            omega
          · rw [cut, if_neg contained]
            omega
      · have equal := holds.ends exact_ several
        rw [headerSize_write, offsetNew, bodyNew, nextNew]
        by_cases isNext : other + 1 = id
        · have positive := database.headerSize_pos
          rw [if_pos isNext, if_neg (by omega)]
          rw [nextOld, isNext] at equal next
          by_cases contained : database.contains id = true
          · have nonzero := (contains_iff_offset several).mp contained
            have bounds := next nonzero
            rw [if_neg nonzero] at equal
            rw [cut, if_pos contained, List.length_take, equal]
            omega
          · have zero : database.offset id = 0 := by
              by_contra nonzero
              exact contained ((contains_iff_offset several).mpr nonzero)
            rw [if_pos zero] at equal
            rw [cut, if_neg contained, equal]
        · have nonzero : database.nextOffset other ≠ 0 := by
            rcases gapless exact_ same with next | nonzero
            · exact absurd next isNext
            · exact nonzero
          rw [if_neg isNext, if_neg nonzero]
          rwa [if_neg nonzero] at equal
  · exact holds.write_apart (Nat.ne_of_lt before) same payload

/-- The payload of an identifier is stored, or the identifier has none. -/
def HoldsOptional (database : FileDatabase) (exactly : Prop) (id : Nat) : Option (List UInt8) → Prop
  | none => database.contains id = false
  | some payload => Holds database exactly id payload

/-- The optional payloads of consecutive identifiers are stored. -/
def Serves (database : FileDatabase) (exactly : Prop) (start : Nat) (payloads : List (Option (List UInt8))) : Prop :=
  ∀ index payload, payloads[index]? = some payload → HoldsOptional database exactly (start + index) payload

/-- Every payload of the file before an identifier is directly followed by the next one. -/
def Gapless (database : FileDatabase) (start id : Nat) : Prop :=
  ∀ earlier < id, start ≤ earlier → database.SameFile earlier id → database.contains earlier = true →
    earlier + 1 = id ∨ database.contains (earlier + 1) = true

/-- A payload that was not there is not followed by an older one. -/
def Unfollowed (database : FileDatabase) (id : Nat) : Prop :=
  database.contains id = false → database.SameFile (id + 1) id → database.contains (id + 1) = false

variable {exactly : Prop} {start : Nat} {payloads : List (Option (List UInt8))}

theorem Serves.take (serves : Serves database exactly start payloads) (count : Nat) : Serves database exactly start (payloads.take count) := by
  intro index payload found
  rw [List.getElem?_take] at found
  split at found
  · exact serves index payload found
  · cases found

theorem Serves.append (serves : Serves database exactly start payloads) {payload : Option (List UInt8)}
    (holds : HoldsOptional database exactly (start + payloads.length) payload) : Serves database exactly start (payloads ++ [payload]) := by
  intro index other found
  rcases Nat.lt_trichotomy index payloads.length with before | equal | after
  · rw [List.getElem?_append_left before] at found
    exact serves index other found
  · rw [equal, List.getElem?_concat_length] at found
    cases found
    exact equal ▸ holds
  · rw [List.getElem?_eq_none (by rw [List.length_append, List.length_singleton]; omega)] at found
    cases found

theorem nextOffset_ne_zero (several : database.bypassHeader = false) (follows : database.SameFile (id + 1) id)
    (contained : database.contains (id + 1) = true) : database.nextOffset id ≠ 0 := by
  rw [nextOffset, if_pos follows]
  exact (contains_iff_offset several).mp contained

/-- The payloads before an identifier end before its payload starts. -/
theorem Serves.ends_before (serves : Serves database exactly start payloads) (several : database.bypassHeader = false)
    (gapless : database.Gapless start (start + payloads.length)) (contained : database.contains (start + payloads.length) = true)
    {distance index : Nat} (split : index + distance + 1 = payloads.length) (same : database.SameFile (start + index) (start + payloads.length))
    {payload : List UInt8} (holds : Holds database exactly (start + index) payload) :
    database.offset (start + index) + payload.length ≤ database.offset (start + payloads.length) := by
  induction distance generalizing index payload with
  | zero =>
    have equal : start + index + 1 = start + payloads.length := by omega
    have follows : database.SameFile (start + index + 1) (start + index) := by
      rw [equal]
      exact Eq.symm same
    have nonzero := nextOffset_ne_zero several follows (by rw [equal]; exact contained)
    have bound := (holds.next several nonzero).1
    rwa [nextOffset, if_pos follows, equal] at bound
  | succ distance ih =>
    have sameNext := same.between (Nat.le_succ (start + index)) (by omega)
    have follows : database.SameFile (start + index + 1) (start + index) := sameNext.trans (Eq.symm same)
    rcases gapless (start + index) (by omega) (by omega) same holds.contained with last | containedNext
    · omega
    · have bound := (holds.next several (nextOffset_ne_zero several follows containedNext)).1
      rw [nextOffset, if_pos follows] at bound
      have found := List.getElem?_eq_getElem (show index + 1 < payloads.length by omega)
      have held := serves (index + 1) _ found
      cases stored : payloads[index + 1] with
      | none =>
        rw [stored] at held
        exact absurd (show database.contains (start + index + 1) = false from held) (by rw [containedNext]; decide)
      | some next =>
        rw [stored] at held
        have later := ih (by omega) (show database.SameFile (start + (index + 1)) _ from sameNext) held
        rw [← Nat.add_assoc] at later
        omega

/-- A payload that is written after the others is stored with them. -/
theorem Serves.write (serves : Serves database exactly start payloads) (payload : List UInt8)
    (gapless : exactly → database.Gapless start (start + payloads.length)) (unfollowed : database.Unfollowed (start + payloads.length))
    (fresh : ¬ exactly → database.contains (start + payloads.length) = false) :
    Serves (database.write (start + payloads.length) payload) exactly start (payloads ++ [some payload]) := by
  have exact_of : database.contains (start + payloads.length) = true → exactly := by
    intro contained
    by_contra inexact
    rw [fresh inexact] at contained
    cases contained
  have others : Serves (database.write (start + payloads.length) payload) exactly start payloads := by
    intro index other found
    have inside : index < payloads.length := (List.getElem?_eq_some_iff.mp found).1
    have held := serves index other found
    cases other with
    | none =>
      refine Bool.eq_false_of_not_eq_true fun contained => ?_
      have before := ((contains_write_other (by omega) payload).mp contained).1
      exact absurd (show database.contains (start + index) = false from held) (by rw [before]; decide)
    | some other =>
      have holds : Holds database exactly (start + index) other := held
      refine holds.write_before (by omega) (fun exact_ same => ?_) (fun same contained => ?_) payload
      · cases several : database.bypassHeader with
        | true =>
          have equal := same.eq_of_bypass several
          omega
        | false =>
          refine (gapless exact_ _ (by omega) (by omega) same holds.contained).imp_right fun containedNext => ?_
          refine nextOffset_ne_zero several ?_ containedNext
          exact (same.between (Nat.le_succ _) (by omega)).trans (Eq.symm same)
      · refine ⟨exact_of contained, ?_⟩
        cases several : database.bypassHeader with
        | true =>
          have equal := same.eq_of_bypass several
          omega
        | false =>
          exact serves.ends_before several (gapless (exact_of contained)) contained
            (show index + (payloads.length - index - 1) + 1 = payloads.length by omega) same holds
  exact others.append (holds_write_self exactly payload unfollowed)

/-- The payloads of a file are not behind a gap. -/
def Packed (database : FileDatabase) (start : Nat) : Prop :=
  ∀ id, start ≤ id → database.SameFile (id + 1) id → database.contains (id + 1) = true → database.contains id = true

theorem Packed.unfollowed (packed : Packed database start) (above : start ≤ id) : database.Unfollowed id := by
  intro absent same
  refine Bool.eq_false_of_not_eq_true fun contained => ?_
  rw [packed id above same contained] at absent
  cases absent

theorem Packed.write (packed : Packed database start) (payload : List UInt8)
    (previous : ∀ earlier, start ≤ earlier → earlier + 1 = id → database.contains earlier = true) :
    Packed (database.write id payload) start := by
  intro earlier above same contained
  rw [sameFile_write] at same
  by_cases own : earlier = id
  · rw [own]
    exact contains_write_self payload
  · refine (contains_write_other own payload).mpr ?_
    by_cases next : earlier + 1 = id
    · exact ⟨previous earlier above next, fun all => by omega⟩
    · obtain ⟨before, kept⟩ := (contains_write_other next payload).mp contained
      refine ⟨packed earlier above same before, fun all => kept ⟨same.trans all.1, by omega, all.2.2⟩⟩

end FileDatabase

end Catapult.Io
