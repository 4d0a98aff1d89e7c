import Catapult.Library.Runs
import Catapult.Proof.Io.BlockSerialization
import Catapult.Proof.Io.PayloadSlots

/-
This file shows when the block storage returns what was saved and where stale statements are returned instead.
-/

namespace Catapult.Io

open ByteStream

variable {hashFile : HashFile} {hashes : List Hash256}

/-- The hashes of all heights from one on are in their files. -/
structure HashFile.Keeps (hashFile : HashFile) (hashes : List Hash256) : Prop where
  seeded : 2 ≤ (hashFile.files 0).length
  found : ∀ index hash, hashes[index]? = some hash →
    (hashFile.files ((index + 1) / filesPerStorageDirectory))[(index + 1) % filesPerStorageDirectory]? = some hash

/-- A key and the position of its value in the file determine each other. -/
theorem key_split (key : Nat) : key = filesPerStorageDirectory * (key / filesPerStorageDirectory) + key % filesPerStorageDirectory ∧
    key % filesPerStorageDirectory < filesPerStorageDirectory :=
  ⟨(Nat.div_add_mod _ _).symm, Nat.mod_lt _ (by decide)⟩

theorem HashFile.Keeps.take (keeps : hashFile.Keeps hashes) (count : Nat) : hashFile.Keeps (hashes.take count) where
  seeded := keeps.seeded
  found index hash found := by
    rw [List.getElem?_take] at found
    split at found
    · exact keeps.found index hash found
    · cases found

/-- The file of the next hash or of an older one can be opened. -/
theorem HashFile.Keeps.openStorageFile (keeps : hashFile.Keeps hashes) {key : Nat} (positive : 1 ≤ key) (near : key ≤ hashes.length + 1) :
    hashFile.openStorageFile key = .ok (hashFile.files (key / filesPerStorageDirectory)) ∧
      key % filesPerStorageDirectory ≤ (hashFile.files (key / filesPerStorageDirectory)).length := by
  obtain ⟨split, small⟩ := key_split key
  have seeded := keeps.seeded
  have notShort : ¬ (key < filesPerStorageDirectory ∧ (hashFile.files (key / filesPerStorageDirectory)).length < 2) := by
    rintro ⟨first, short⟩
    rw [Nat.div_eq_of_lt first] at short
    omega
  have inside : ¬ (hashFile.files (key / filesPerStorageDirectory)).length < key % filesPerStorageDirectory := by
    intro outside
    by_cases one : key = 1
    · subst one
      rw [show 1 / filesPerStorageDirectory = 0 from rfl, show 1 % filesPerStorageDirectory = 1 from rfl] at outside
      omega
    · obtain ⟨splitBefore, smallBefore⟩ := key_split (key - 1)
      have found := keeps.found (key - 2) _ (List.getElem?_eq_getElem (show key - 2 < hashes.length by omega))
      rw [show key - 2 + 1 = key - 1 by omega] at found
      have present := (List.getElem?_eq_some_iff.mp found).1
      have sameFile : (key - 1) / filesPerStorageDirectory = key / filesPerStorageDirectory := by
        refine Nat.div_eq_of_lt_le ?_ ?_
        · rw [Nat.mul_comm]
          omega
        · rw [Nat.mul_comm, Nat.mul_succ]
          omega
      rw [sameFile] at present splitBefore
      omega
  refine ⟨?_, Nat.not_lt.mp inside⟩
  rw [HashFile.openStorageFile, if_neg notShort, if_neg inside]

theorem getElem?_overwrite {α : Type} {values : List α} {index : Nat} (near : index ≤ values.length) (value : α) (other : Nat) :
    (values.take index ++ value :: values.drop (index + 1))[other]? = if other = index then some value else values[other]? := by
  rcases Nat.lt_trichotomy other index with before | equal | after
  · rw [if_neg (by omega), List.getElem?_append_left (by rw [List.length_take]; omega), List.getElem?_take_of_lt before]
  · rw [if_pos equal, List.getElem?_append_right (by rw [List.length_take]; omega), List.length_take, Nat.min_eq_left near, equal,
      Nat.sub_self]
    rfl
  · rw [if_neg (by omega), List.getElem?_append_right (by rw [List.length_take]; omega), List.length_take, Nat.min_eq_left near,
      List.getElem?_cons, if_neg (by omega), List.getElem?_drop]
    congr 1
    omega

theorem HashFile.Keeps.save (keeps : hashFile.Keeps hashes) (hash : Hash256) :
    ∃ next, hashFile.save (hashes.length + 1) hash = .ok next ∧ next.Keeps (hashes ++ [hash]) := by
  obtain ⟨opened, near⟩ := keeps.openStorageFile (show 1 ≤ hashes.length + 1 by omega) (Nat.le_refl _)
  have overwrite := getElem?_overwrite near hash
  refine ⟨_, by rw [HashFile.save, opened]; rfl, ?_, fun index other found => ?_⟩
  · have seeded := keeps.seeded
    dsimp only
    rw [Function.update_apply]
    split
    · next first =>
      rw [first] at seeded
      rw [List.length_append, List.length_take, List.length_cons, List.length_drop]
      omega
    · exact seeded
  · dsimp only
    rw [Function.update_apply]
    by_cases new : index = hashes.length
    · subst new
      rw [List.getElem?_concat_length] at found
      rw [if_pos rfl, overwrite, if_pos rfl]
      exact found
    · have inside : index < hashes.length := by
        have bound := (List.getElem?_eq_some_iff.mp found).1
        rw [List.length_append, List.length_singleton] at bound
        omega
      rw [List.getElem?_append_left inside] at found
      have kept := keeps.found index other found
      split
      · next sameFile =>
        obtain ⟨split, -⟩ := key_split (index + 1)
        obtain ⟨splitNew, -⟩ := key_split (hashes.length + 1)
        rw [sameFile] at split kept
        rw [overwrite, if_neg (by omega)]
        exact kept
      · exact kept

/-- The hashes are read across the files. -/
theorem HashFile.Keeps.loadRange (keeps : hashFile.Keeps hashes) {fuel key numValues : Nat} (enough : numValues ≤ fuel)
    (positive : 1 ≤ key) (inside : key - 1 + numValues ≤ hashes.length) :
    hashFile.loadRange fuel key numValues = .ok ((hashes.drop (key - 1)).take numValues) := by
  induction fuel generalizing key numValues with
  | zero =>
    rw [Nat.le_zero.mp enough, List.take_zero]
    rfl
  | succ fuel ih =>
    rw [HashFile.loadRange]
    by_cases zero : numValues = 0
    · rw [if_pos zero, zero, List.take_zero]
    · obtain ⟨split, small⟩ := key_split key
      rw [if_neg zero, (keeps.openStorageFile positive (by omega)).1]
      dsimp only [bind, Except.bind, Except.mapError]
      generalize counted : min numValues (filesPerStorageDirectory - key % filesPerStorageDirectory) = count
      -- the values of the file are the hashes from the key on
      have sameValues : ∀ offset < count,
          (hashFile.files (key / filesPerStorageDirectory))[key % filesPerStorageDirectory + offset]? = hashes[key - 1 + offset]? := by
        intro offset below
        have present := List.getElem?_eq_getElem (show key - 1 + offset < hashes.length by omega)
        have found := keeps.found _ _ present
        obtain ⟨splitOther, smallOther⟩ := key_split (key - 1 + offset + 1)
        have sameFile : (key - 1 + offset + 1) / filesPerStorageDirectory = key / filesPerStorageDirectory := by
          refine Nat.div_eq_of_lt_le ?_ ?_
          · rw [Nat.mul_comm]
            omega
          · rw [Nat.mul_comm, Nat.mul_succ]
            omega
        rw [sameFile] at found splitOther
        rw [present, show key % filesPerStorageDirectory + offset = (key - 1 + offset + 1) % filesPerStorageDirectory by omega]
        exact found
      have long : ¬ (hashFile.files (key / filesPerStorageDirectory)).length < key % filesPerStorageDirectory + count := by
        have last := sameValues (count - 1) (by omega)
        rw [List.getElem?_eq_getElem (show key - 1 + (count - 1) < hashes.length by omega)] at last
        have bound := (List.getElem?_eq_some_iff.mp last).1
        omega
      rw [if_neg long, ih (by omega) (by omega) (by omega)]
      have front : ((hashFile.files (key / filesPerStorageDirectory)).drop (key % filesPerStorageDirectory)).take count =
          (hashes.drop (key - 1)).take count := by
        refine List.ext_getElem? fun offset => ?_
        rw [List.getElem?_take, List.getElem?_take]
        split
        · next below => rw [List.getElem?_drop, List.getElem?_drop, sameValues offset below]
        · rfl
      change Except.ok _ = Except.ok _
      rw [front, show key + count - 1 = key - 1 + count by omega, ← List.drop_drop, ← List.take_add, Nat.add_sub_cancel' (by omega)]

section Storage

variable {format : BlockFormat} {storage : FileBlockStorage} {start : Nat} {exactly : Prop} {elements : List BlockElement} {element : BlockElement}

/-- The elements of consecutive heights are stored; the ends of the statements are known if the storage keeps them exactly. -/
structure Keeps (format : BlockFormat) (storage : FileBlockStorage) (start : Nat) (exactly : Prop) (elements : List BlockElement) : Prop where
  height : storage.chainHeight = start + elements.length
  wellFormed : ∀ element ∈ elements, element.WellFormed format
  blocks : storage.blockDatabase.Serves True (start + 1) (elements.map fun element => some (writeBlockElement element))
  packed : storage.blockDatabase.Packed (start + 1)
  statements : storage.statementDatabase.Serves exactly (start + 1)
    (elements.map fun element => element.optionalStatement.map writeBlockStatement)
  fresh : ¬ exactly → ∀ id, start + elements.length < id → storage.statementDatabase.contains id = false
  hashes : storage.mode = .hashIndex → start = 0 ∧ storage.hashFile.Keeps (elements.map BlockElement.entityHash)

/-- The statement of a block must not meet the remains of an older chain or follow a gap in its file. -/
def StatementFits (storage : FileBlockStorage) (height : Nat) (element : BlockElement) : Prop :=
  match element.optionalStatement with
  | none => storage.statementDatabase.contains height = false
  | some _ => storage.statementDatabase.Gapless 1 height ∧ storage.statementDatabase.Unfollowed height

theorem Keeps.block_contained (keeps : Keeps format storage start exactly elements) {index : Nat} (inside : index < elements.length) :
    ∃ element, elements[index]? = some element ∧ element.WellFormed format ∧
      storage.blockDatabase.Holds True (start + 1 + index) (writeBlockElement element) := by
  have found := List.getElem?_eq_getElem inside
  refine ⟨elements[index], found, keeps.wellFormed _ (List.getElem_mem inside), ?_⟩
  exact keeps.blocks index _ (by rw [List.getElem?_map, found]; rfl)

theorem Keeps.blocks_gapless (keeps : Keeps format storage start exactly elements) :
    storage.blockDatabase.Gapless (start + 1) (start + 1 + elements.length) := by
  intro earlier before above _ _
  by_cases last : earlier + 1 = start + 1 + elements.length
  · exact .inl last
  · obtain ⟨_, -, -, holds⟩ := keeps.block_contained (show earlier + 1 - (start + 1) < elements.length by omega)
    rw [show start + 1 + (earlier + 1 - (start + 1)) = earlier + 1 by omega] at holds
    exact .inr holds.contained

/-- The block and its hash are stored after the others. -/
theorem Keeps.save_block (keeps : Keeps format storage start exactly elements) (element : BlockElement) :
    (storage.blockDatabase.write (start + 1 + elements.length) (writeBlockElement element)).Serves True (start + 1)
        ((elements ++ [element]).map fun element => some (writeBlockElement element)) ∧
      (storage.blockDatabase.write (start + 1 + elements.length) (writeBlockElement element)).Packed (start + 1) := by
  have unfollowed := keeps.packed.unfollowed (show start + 1 ≤ start + 1 + elements.length by omega)
  constructor
  · have written := @FileDatabase.Serves.write _ _ _ _ keeps.blocks (writeBlockElement element) (by
      rw [List.length_map]
      exact fun _ => keeps.blocks_gapless) (by rwa [List.length_map]) (fun inexact => absurd trivial inexact)
    rw [List.length_map] at written
    rwa [List.map_append]
  · refine keeps.packed.write _ fun earlier above next => ?_
    obtain ⟨_, -, -, holds⟩ := keeps.block_contained (show earlier - (start + 1) < elements.length by omega)
    rw [show start + 1 + (earlier - (start + 1)) = earlier by omega] at holds
    exact holds.contained

/-- The database of the statements after a block was saved. -/
def savedStatements (database : FileDatabase) (height : Nat) (element : BlockElement) : FileDatabase :=
  match element.optionalStatement with
  | none => database
  | some statement => database.write height (writeBlockStatement statement)

/-- The statement is stored after the others if it fits. -/
theorem Keeps.save_statement (keeps : Keeps format storage start exactly elements) (low : exactly → start = 0)
    (fits : exactly → StatementFits storage (start + 1 + elements.length) element) :
    (savedStatements storage.statementDatabase (start + 1 + elements.length) element).Serves exactly (start + 1)
        ((elements ++ [element]).map fun element => element.optionalStatement.map writeBlockStatement) ∧
      (¬ exactly → ∀ id, start + (elements ++ [element]).length < id →
        (savedStatements storage.statementDatabase (start + 1 + elements.length) element).contains id = false) := by
  have fresh := keeps.fresh
  unfold savedStatements
  unfold StatementFits at fits
  rw [List.map_append, List.map_singleton, List.length_append, List.length_singleton]
  cases present : element.optionalStatement with
  | none =>
    rw [present] at fits
    dsimp only at fits ⊢
    refine ⟨keeps.statements.append ?_, fun inexact id above => fresh inexact id (by omega)⟩
    rw [List.length_map]
    change storage.statementDatabase.contains _ = false
    by_cases exact_ : exactly
    · exact fits exact_
    · exact fresh exact_ _ (by omega)
  | some statement =>
    rw [present] at fits
    dsimp only at fits ⊢
    constructor
    · have written := @FileDatabase.Serves.write _ _ _ _ keeps.statements (writeBlockStatement statement) (by
        rw [List.length_map]
        intro exact_
        have gapless := (fits exact_).1
        rw [low exact_] at gapless ⊢
        exact gapless) (by
        rw [List.length_map]
        by_cases exact_ : exactly
        · exact (fits exact_).2
        · exact fun _ _ => fresh exact_ _ (by omega)) (by
        rw [List.length_map]
        exact fun inexact => fresh inexact _ (by omega))
      rw [List.length_map] at written
      exact written
    · intro inexact id above
      refine Bool.eq_false_of_not_eq_true fun contained => ?_
      have before := ((FileDatabase.contains_write_other (by omega) _).mp contained).1
      rw [fresh inexact id (by omega)] at before
      cases before

theorem Keeps.saveBlock (keeps : Keeps format storage start exactly elements) (wellFormed : element.WellFormed format)
    (low : exactly → start = 0) (fits : exactly → StatementFits storage (start + 1 + elements.length) element)
    (next : format.height element.block.bytes = start + 1 + elements.length) :
    ∃ saved, storage.saveBlock format element = .ok saved ∧ saved.mode = storage.mode ∧
      Keeps format saved start exactly (elements ++ [element]) := by
  have height := keeps.height
  obtain ⟨blocks, packed⟩ := keeps.save_block element
  obtain ⟨statements, fresh⟩ := keeps.save_statement low fits
  have hashed : ∃ hashFile, (if storage.mode = .hashIndex then storage.hashFile.save (start + 1 + elements.length) element.entityHash
      else .ok storage.hashFile) = .ok hashFile ∧
      (storage.mode = .hashIndex → start = 0 ∧ hashFile.Keeps ((elements ++ [element]).map BlockElement.entityHash)) := by
    by_cases indexed : storage.mode = .hashIndex
    · obtain ⟨zero, hashes⟩ := keeps.hashes indexed
      obtain ⟨hashFile, saved, kept⟩ := hashes.save element.entityHash
      rw [List.length_map] at saved
      refine ⟨hashFile, ?_, fun _ => ⟨zero, ?_⟩⟩
      · rw [if_pos indexed, zero, show 0 + 1 + elements.length = elements.length + 1 by omega]
        exact saved
      · rw [List.map_append]
        exact kept
    · exact ⟨storage.hashFile, if_neg indexed, fun contrary => absurd contrary indexed⟩
  obtain ⟨hashFile, saved, hashes⟩ := hashed
  refine ⟨⟨storage.mode, storage.blockDatabase.write (start + 1 + elements.length) (writeBlockElement element),
    savedStatements storage.statementDatabase (start + 1 + elements.length) element, hashFile, some (start + 1 + elements.length)⟩,
    ?_, rfl, ?_, ?_, blocks, packed, statements, fresh, hashes⟩
  · unfold FileBlockStorage.saveBlock
    dsimp only
    rw [next, if_neg (by omega)]
    by_cases indexed : storage.mode = .hashIndex
    · rw [if_pos indexed] at saved ⊢
      rw [saved]
      rfl
    · rw [if_neg indexed] at saved ⊢
      cases saved
      rfl
  · change start + 1 + elements.length = _
    rw [List.length_append, List.length_singleton]
    omega
  · intro other member
    rcases List.mem_append.mp member with old | new
    · exact keeps.wellFormed other old
    · rw [List.mem_singleton.mp new]
      exact wellFormed

theorem Keeps.drop (keeps : Keeps format storage 0 True elements) {height : Nat} (inside : height ≤ elements.length) :
    Keeps format (storage.dropBlocksAfter height) 0 True (elements.take height) where
  height := by
    rw [List.length_take, Nat.min_eq_left inside]
    exact (Nat.zero_add height).symm
  wellFormed element member := keeps.wellFormed element (List.mem_of_mem_take member)
  blocks := by
    rw [List.map_take]
    exact keeps.blocks.take height
  packed := keeps.packed
  statements := by
    rw [List.map_take]
    exact keeps.statements.take height
  fresh inexact := absurd trivial inexact
  hashes indexed := by
    obtain ⟨zero, hashes⟩ := keeps.hashes indexed
    rw [List.map_take]
    exact ⟨zero, hashes.take height⟩

theorem Keeps.requireHeight (keeps : Keeps format storage start exactly elements) {index : Nat} (inside : index < elements.length)
    (description : String) : storage.requireHeight (start + 1 + index) description = .ok () := by
  rw [FileBlockStorage.requireHeight, keeps.height, if_pos (by omega)]

/-- Blocks are loaded as they were saved. -/
theorem Keeps.loadBlock (keeps : Keeps format storage start exactly elements) {index : Nat} (inside : index < elements.length) :
    storage.loadBlock (start + 1 + index) = .ok elements[index].block ∧
      storage.loadBlockElement format (start + 1 + index) = .ok { elements[index] with optionalStatement := none } := by
  obtain ⟨element, found, wellFormed, holds⟩ := keeps.block_contained inside
  rw [List.getElem?_eq_getElem inside, Option.some.injEq] at found
  subst found
  obtain ⟨rest, -, exact_⟩ := holds.read
  obtain ⟨stream, -⟩ := exact_ trivial
  constructor
  · have read : ∃ rest, readEntity 4 (writeBlockElement elements[index]) = .ok (elements[index].block, rest) := by
      unfold writeBlockElement
      simp only [List.append_assoc]
      exact ⟨_, readEntity_reads (Nat.le_refl 4) elements[index].block _⟩
    obtain ⟨_, read⟩ := read
    unfold FileBlockStorage.loadBlock
    rw [keeps.requireHeight inside, stream]
    dsimp only [bind, Except.bind, Except.mapError]
    rw [read]
    rfl
  · have read := readBlockElement_reads wellFormed []
    rw [List.append_nil] at read
    unfold FileBlockStorage.loadBlockElement
    rw [keeps.requireHeight inside, stream]
    dsimp only [bind, Except.bind, Except.mapError]
    rw [read]
    rfl

/-- The data of a statement start with the statement, and they end with it if statements are kept exactly. -/
theorem Keeps.loadBlockStatementData (keeps : Keeps format storage start exactly elements) {index : Nat} (inside : index < elements.length) :
    match elements[index].optionalStatement with
    | none => storage.loadBlockStatementData (start + 1 + index) = .ok none
    | some statement => ∃ rest, storage.loadBlockStatementData (start + 1 + index) = .ok (some (writeBlockStatement statement ++ rest)) ∧
        (exactly → rest = []) := by
  have held : storage.statementDatabase.HoldsOptional exactly (start + 1 + index)
      (elements[index].optionalStatement.map writeBlockStatement) :=
    keeps.statements index _ (by rw [List.getElem?_map, List.getElem?_eq_getElem inside]; rfl)
  cases present : elements[index].optionalStatement with
  | none =>
    rw [present] at held
    have absent : storage.statementDatabase.contains (start + 1 + index) = false := held
    dsimp only
    unfold FileBlockStorage.loadBlockStatementData
    rw [keeps.requireHeight inside, absent]
    rfl
  | some statement =>
    rw [present] at held
    have holds : storage.statementDatabase.Holds exactly (start + 1 + index) (writeBlockStatement statement) := held
    obtain ⟨rest, read, exact_⟩ := holds.read
    refine ⟨rest, ?_, fun isExact => (exact_ isExact).2⟩
    unfold FileBlockStorage.loadBlockStatementData
    rw [keeps.requireHeight inside, holds.contained, read]
    rfl

/-- A block is moved as it was saved. -/
theorem Keeps.moveBlock (keeps : Keeps format storage start exactly elements) {index : Nat} (inside : index < elements.length)
    (destination : FileBlockStorage) :
    moveBlock format storage destination (start + 1 + index) = destination.saveBlock format elements[index] := by
  have loaded := (keeps.loadBlock inside).2
  have data := keeps.loadBlockStatementData inside
  have wellFormed := keeps.wellFormed _ (List.getElem_mem inside)
  generalize elements[index] = element at *
  obtain ⟨block, entityHash, generationHash, transactions, subCacheMerkleRoots, optionalStatement⟩ := element
  unfold Io.moveBlock
  rw [loaded]
  dsimp only [bind, Except.bind]
  cases optionalStatement with
  | none => rw [show storage.loadBlockStatementData (start + 1 + index) = .ok none from data]
  | some statement =>
    obtain ⟨rest, data, -⟩ := data
    have read := readBlockStatement_reads (wellFormed.statement statement rfl) rest
    rw [data]
    dsimp only
    rw [read]
    rfl

/-- Moving all blocks saves them one after the other. -/
theorem foldlM_moveBlock {source destination : FileBlockStorage} {first : Nat}
    (moves : ∀ index (inside : index < elements.length) destination,
      Io.moveBlock format source destination (first + index) = destination.saveBlock format elements[index]) :
    ((List.range elements.length).map (first + ·)).foldlM (Io.moveBlock format source) destination =
      elements.foldlM (FileBlockStorage.saveBlock format) destination := by
  induction elements generalizing first destination with
  | nil => rfl
  | cons element elements ih =>
    have head := moves 0 (Nat.zero_lt_succ _) destination
    rw [List.length_cons, List.range_succ_eq_map, List.map_cons, List.map_map, List.foldlM_cons, List.foldlM_cons, head]
    congr 1
    funext saved
    have shifted : (first + ·) ∘ Nat.succ = (first + 1 + ·) := by
      funext index
      change first + (index + 1) = first + 1 + index
      omega
    rw [shifted]
    refine ih fun index inside destination => ?_
    have move := moves (index + 1) (Nat.succ_lt_succ inside) destination
    rw [show first + 1 + index = first + (index + 1) by omega]
    exact move

/-- Elements that fit are saved one after the other. -/
theorem Keeps.saveBlocks (keeps : Keeps format storage start exactly elements) (low : exactly → start = 0) {added : List BlockElement}
    (wellFormed : ∀ element ∈ added, element.WellFormed format)
    (heights : ∀ index (inside : index < added.length), format.height added[index].block.bytes = start + 1 + elements.length + index)
    (fits : exactly → Runs.Meets (FileBlockStorage.saveBlock format)
      (fun storage element => StatementFits storage (format.height element.block.bytes) element) storage added) :
    ∃ saved, added.foldlM (FileBlockStorage.saveBlock format) storage = .ok saved ∧ Keeps format saved start exactly (elements ++ added) := by
  induction added generalizing storage elements with
  | nil => exact ⟨storage, rfl, by rwa [List.append_nil]⟩
  | cons element added ih =>
    have height := heights 0 (Nat.zero_lt_succ _)
    obtain ⟨next, saved, -, kept⟩ := keeps.saveBlock (wellFormed element List.mem_cons_self) low
      (fun exact_ => by
        have first := (fits exact_).1
        dsimp only at first
        rwa [show format.height element.block.bytes = _ from height] at first) height
    obtain ⟨final, ran, keepsFinal⟩ := ih kept (fun other member => wellFormed other (.tail _ member)) (fun index inside => by
      have later := heights (index + 1) (Nat.succ_lt_succ inside)
      rw [List.length_append, List.length_singleton]
      rw [List.getElem_cons_succ] at later
      omega) (fun exact_ => (fits exact_).2 next saved)
    refine ⟨final, ?_, ?_⟩
    · rw [List.foldlM_cons, saved]
      exact ran
    · rwa [List.append_assoc] at keepsFinal

end Storage

section Runs

variable {format : BlockFormat}

/-- Nothing was written to the files. -/
structure Blank (storage : FileBlockStorage) : Prop where
  mode : storage.mode = .none
  blocks : ∀ id, storage.blockDatabase.contains id = false
  statements : ∀ id, storage.statementDatabase.contains id = false

theorem Blank.keeps {storage : FileBlockStorage} (blank : Blank storage) (height : Nat) :
    Keeps format (storage.dropBlocksAfter height) height False [] where
  height := rfl
  wellFormed _ member := nomatch member
  blocks _ _ found := nomatch found
  packed id _ _ contained := by
    rw [show (storage.dropBlocksAfter height).blockDatabase.contains (id + 1) = false from blank.blocks _] at contained
    cases contained
  statements _ _ found := nomatch found
  fresh _ id _ := blank.statements id
  hashes indexed := by
    rw [show (storage.dropBlocksAfter height).mode = .none from blank.mode] at indexed
    cases indexed

/-- What a modifier has to do to a chain of blocks. -/
def applyCall (format : BlockFormat) (chain : List BlockElement) : ModifierCall → Option (List BlockElement)
  | .saveBlock element => if format.height element.block.bytes = chain.length + 1 then some (chain ++ [element]) else none
  | .dropBlocksAfter height => some (chain.take height)

/-- What an action has to do to a chain of blocks. -/
def applyAction (format : BlockFormat) (chain : List BlockElement) : StorageAction → Option (List BlockElement)
  | .saveBlock element => applyCall format chain (.saveBlock element)
  | .dropBlocksAfter height => applyCall format chain (.dropBlocksAfter height)
  | .commit calls => calls.foldlM (applyCall format) chain

/-- Blocks are dropped before others are saved, and only blocks that are there. -/
def DropsFirst (height : Nat) : List ModifierCall → Prop
  | [] => True
  | .dropBlocksAfter lower :: calls => lower ≤ height ∧ DropsFirst lower calls
  | .saveBlock _ :: calls => ∀ call ∈ calls, ∃ element, call = .saveBlock element

/-- The height to which the modifier drops blocks. -/
def dropHeight (height : Nat) : List ModifierCall → Nat
  | [] => height
  | .dropBlocksAfter lower :: calls => dropHeight lower calls
  | .saveBlock _ :: calls => dropHeight height calls

def savedElements (calls : List ModifierCall) : List BlockElement :=
  calls.filterMap fun
    | .saveBlock element => some element
    | .dropBlocksAfter _ => none

/-- The destination of moved blocks is cut only if it is too long. -/
def shorten (storage : FileBlockStorage) (height : Nat) : FileBlockStorage :=
  if height + 1 ≤ storage.chainHeight then storage.dropBlocksAfter height else storage

/-- The condition under which an action does what it has to do. -/
def Permits (format : BlockFormat) (cache : BlockStorageCache) : StorageAction → Prop
  | .saveBlock element => StatementFits cache.storage (format.height element.block.bytes) element
  | .dropBlocksAfter height => height ≤ cache.storage.chainHeight
  | .commit calls => DropsFirst cache.storage.chainHeight calls ∧
      Runs.Meets (FileBlockStorage.saveBlock format) (fun storage element => StatementFits storage (format.height element.block.bytes) element)
        (shorten cache.storage (dropHeight cache.storage.chainHeight calls)) (savedElements calls)

/-- The elements of the action correspond to their blocks. -/
def StorageAction.WellFormed (format : BlockFormat) : StorageAction → Prop
  | .saveBlock element => element.WellFormed format
  | .dropBlocksAfter _ => True
  | .commit calls => ∀ element ∈ savedElements calls, element.WellFormed format

/-- Every load returns what was saved last at the height. -/
structure Faithful (format : BlockFormat) (storage : FileBlockStorage) (chain : List BlockElement) : Prop where
  height : storage.chainHeight = chain.length
  blocks : ∀ index (inside : index < chain.length), storage.loadBlock (index + 1) = .ok chain[index].block
  elements : ∀ index (inside : index < chain.length),
    storage.loadBlockElement format (index + 1) = .ok { chain[index] with optionalStatement := none }
  statements : ∀ index (inside : index < chain.length),
    storage.loadBlockStatementData (index + 1) = .ok (chain[index].optionalStatement.map writeBlockStatement)
  hashes : ∀ height maxHashes, storage.loadHashesFrom height maxHashes =
    .ok (if height = 0 then [] else ((chain.drop (height - 1)).take maxHashes).map BlockElement.entityHash)

theorem Keeps.faithful {storage : FileBlockStorage} {chain : List BlockElement} (keeps : Keeps format storage 0 True chain)
    (indexed : storage.mode = .hashIndex) : Faithful format storage chain where
  height := by rw [keeps.height, Nat.zero_add]
  blocks index inside := by
    have loaded := (keeps.loadBlock inside).1
    rwa [show 0 + 1 + index = index + 1 by omega] at loaded
  elements index inside := by
    have loaded := (keeps.loadBlock inside).2
    rwa [show 0 + 1 + index = index + 1 by omega] at loaded
  statements index inside := by
    have data := keeps.loadBlockStatementData inside
    rw [show 0 + 1 + index = index + 1 by omega] at data
    cases present : chain[index].optionalStatement with
    | none =>
      rw [present] at data
      exact data
    | some statement =>
      rw [present] at data
      obtain ⟨rest, data, exact_⟩ := data
      rw [data, exact_ trivial, List.append_nil]
      rfl
  hashes height maxHashes := by
    obtain ⟨-, hashes⟩ := keeps.hashes indexed
    have total := keeps.height
    unfold FileBlockStorage.loadHashesFrom
    rw [if_neg (not_not.mpr indexed)]
    by_cases zero : height = 0
    · rw [if_pos (.inl zero), if_pos zero]
    · rw [if_neg zero]
      by_cases above : storage.chainHeight < height
      · rw [if_pos (.inr above), List.drop_eq_nil_of_le (by omega), List.take_nil]
        rfl
      · rw [if_neg (by omega), HashFile.loadRangeFrom,
          hashes.loadRange (Nat.le_refl _) (by omega) (by rw [List.length_map]; omega), total, List.map_take, List.map_drop]
        congr 1
        exact List.take_eq_take_iff.mpr (by rw [List.length_drop, List.length_map]; omega)

/-- The storage keeps its chain, and the elements of a modifier are staged. -/
structure Stages (format : BlockFormat) (modifier : BlockStorageModifier) (chain elements : List BlockElement) : Prop where
  storage : Keeps format modifier.storage 0 True chain
  inside : modifier.saveStartHeight ≤ chain.length
  mode : modifier.stagingStorage.mode = .none
  staged : Keeps format modifier.stagingStorage modifier.saveStartHeight False elements
  heights : ∀ index (inside : index < elements.length),
    format.height elements[index].block.bytes = modifier.saveStartHeight + 1 + index

variable {modifier : BlockStorageModifier} {chain elements : List BlockElement}

/-- The chain that the modifier has built. -/
def visible (modifier : BlockStorageModifier) (chain elements : List BlockElement) : List BlockElement :=
  chain.take modifier.saveStartHeight ++ elements

theorem Stages.length_visible (stages : Stages format modifier chain elements) :
    (visible modifier chain elements).length = modifier.saveStartHeight + elements.length := by
  have inside := stages.inside
  rw [visible, List.length_append, List.length_take]
  omega

theorem saveBlock_wrong_height {storage : FileBlockStorage} {element : BlockElement}
    (wrong : format.height element.block.bytes ≠ storage.chainHeight + 1) :
    storage.saveBlock format element = .error (.saveHeight (format.height element.block.bytes) storage.chainHeight) := by
  unfold FileBlockStorage.saveBlock
  dsimp only
  rw [if_pos wrong]

/-- A saved block is staged if its height is the next one; otherwise both fail. -/
theorem Stages.saveBlock (stages : Stages format modifier chain elements) {element : BlockElement} (wellFormed : element.WellFormed format) :
    if format.height element.block.bytes = modifier.saveStartHeight + elements.length + 1 then
      ∃ next, modifier.call format (.saveBlock element) = .ok next ∧ next.storage = modifier.storage ∧
        next.saveStartHeight = modifier.saveStartHeight ∧ Stages format next chain (elements ++ [element])
    else ∃ failure, modifier.call format (.saveBlock element) = .error failure := by
  split
  · next height =>
    have fits : False → StatementFits modifier.stagingStorage (modifier.saveStartHeight + 1 + elements.length) element := False.elim
    obtain ⟨saved, ran, mode, kept⟩ := stages.staged.saveBlock wellFormed False.elim fits (by omega)
    refine ⟨{ modifier with stagingStorage := saved }, ?_, rfl, rfl, stages.storage, stages.inside, mode.trans stages.mode, kept,
      fun index inside => ?_⟩
    · unfold BlockStorageModifier.call
      dsimp only
      rw [ran]
      rfl
    · by_cases old : index < elements.length
      · rw [List.getElem_append_left old]
        exact stages.heights index old
      · rw [List.length_append, List.length_singleton] at inside
        rw [List.getElem_append_right (by omega)]
        simp only [List.getElem_singleton]
        omega
  · next height =>
    refine ⟨.saveHeight (format.height element.block.bytes) modifier.stagingStorage.chainHeight, ?_⟩
    unfold BlockStorageModifier.call
    dsimp only
    rw [saveBlock_wrong_height (by rw [stages.staged.height]; exact height)]
    rfl

/-- Blocks are staged one after the other. -/
theorem Stages.saveBlocks (stages : Stages format modifier chain elements) {added : List BlockElement}
    (wellFormed : ∀ element ∈ added, element.WellFormed format) :
    match (added.map ModifierCall.saveBlock).foldlM (applyCall format) (visible modifier chain elements) with
    | some result => ∃ next, (added.map ModifierCall.saveBlock).foldlM (BlockStorageModifier.call format) modifier = .ok next ∧
        next.storage = modifier.storage ∧ next.saveStartHeight = modifier.saveStartHeight ∧
        Stages format next chain (elements ++ added) ∧ result = visible next chain (elements ++ added)
    | none => ∃ failure, (added.map ModifierCall.saveBlock).foldlM (BlockStorageModifier.call format) modifier = .error failure := by
  induction added generalizing modifier elements with
  | nil => exact ⟨modifier, rfl, rfl, rfl, by rwa [List.append_nil], by rw [List.append_nil]⟩
  | cons element added ih =>
    have first := stages.saveBlock (wellFormed element List.mem_cons_self)
    rw [List.map_cons, List.foldlM_cons, List.foldlM_cons, applyCall, stages.length_visible]
    split at first
    · next height =>
      obtain ⟨next, ran, sameStorage, sameStart, staged⟩ := first
      have grown : visible modifier chain elements ++ [element] = visible next chain (elements ++ [element]) := by
        rw [visible, visible, sameStart, List.append_assoc]
      have later := ih staged fun other member => wellFormed other (.tail _ member)
      rw [if_pos height, ran, grown]
      change match (added.map ModifierCall.saveBlock).foldlM (applyCall format) (visible next chain (elements ++ [element])) with
        | some result => ∃ final, (added.map ModifierCall.saveBlock).foldlM (BlockStorageModifier.call format) next = .ok final ∧ _
        | none => ∃ failure, (added.map ModifierCall.saveBlock).foldlM (BlockStorageModifier.call format) next = .error failure
      split at later
      · next result _ =>
        obtain ⟨final, ranLater, storageLater, startLater, stagedLater, resultLater⟩ := later
        rw [List.append_assoc] at stagedLater resultLater
        exact ⟨final, ranLater, storageLater.trans sameStorage, startLater.trans sameStart, stagedLater, resultLater⟩
      · exact later
    · next height =>
      obtain ⟨failure, failed⟩ := first
      rw [if_neg height, failed]
      exact ⟨failure, rfl⟩

theorem savedElements_of_saves {calls : List ModifierCall} (saves : ∀ call ∈ calls, ∃ element, call = .saveBlock element) :
    (savedElements calls).map ModifierCall.saveBlock = calls ∧ ∀ height, dropHeight height calls = height := by
  induction calls with
  | nil => exact ⟨rfl, fun _ => rfl⟩
  | cons call calls ih =>
    obtain ⟨element, rfl⟩ := saves call List.mem_cons_self
    obtain ⟨same, height⟩ := ih fun other member => saves other (.tail _ member)
    exact ⟨congrArg (ModifierCall.saveBlock element :: ·) same, height⟩

/-- A modifier that drops blocks before it saves others stages the blocks that it saves. -/
theorem Stages.calls (stages : Stages format modifier chain []) (blank : Blank modifier.stagingStorage) {calls : List ModifierCall}
    (dropsFirst : DropsFirst modifier.saveStartHeight calls) (wellFormed : ∀ element ∈ savedElements calls, element.WellFormed format) :
    match calls.foldlM (applyCall format) (visible modifier chain []) with
    | some result => ∃ next, calls.foldlM (BlockStorageModifier.call format) modifier = .ok next ∧ next.storage = modifier.storage ∧
        next.saveStartHeight = dropHeight modifier.saveStartHeight calls ∧ Stages format next chain (savedElements calls) ∧
        result = visible next chain (savedElements calls)
    | none => ∃ failure, calls.foldlM (BlockStorageModifier.call format) modifier = .error failure := by
  induction calls generalizing modifier with
  | nil => exact ⟨modifier, rfl, rfl, rfl, stages, rfl⟩
  | cons call calls ih =>
    cases call with
    | saveBlock element =>
      have saves : ∀ call ∈ ModifierCall.saveBlock element :: calls, ∃ element, call = .saveBlock element := by
        intro call member
        rcases List.mem_cons.mp member with rfl | later
        · exact ⟨element, rfl⟩
        · exact dropsFirst call later
      obtain ⟨same, height⟩ := savedElements_of_saves saves
      have saved := stages.saveBlocks wellFormed
      rwa [same, List.nil_append, ← height modifier.saveStartHeight] at saved
    | dropBlocksAfter lower =>
      obtain ⟨below, rest⟩ := dropsFirst
      have inside := stages.inside
      rw [List.foldlM_cons, List.foldlM_cons]
      have next : Stages format
          { modifier with
            stagingStorage := modifier.stagingStorage.dropBlocksAfter lower
            saveStartHeight := lower } chain [] :=
        ⟨stages.storage, Nat.le_trans below inside, blank.mode, blank.keeps lower, fun _ outside => nomatch outside⟩
      have later := ih next ⟨blank.mode, blank.blocks, blank.statements⟩ rest wellFormed
      have shortened : (visible modifier chain []).take lower = chain.take lower ++ [] := by
        rw [visible, List.append_nil, List.append_nil, List.take_take, Nat.min_eq_left below]
      rw [applyCall, shortened]
      exact later

theorem Keeps.shorten {storage : FileBlockStorage} (keeps : Keeps format storage 0 True chain) {height : Nat} (inside : height ≤ chain.length) :
    Keeps format (shorten storage height) 0 True (chain.take height) ∧ (Io.shorten storage height).mode = storage.mode := by
  unfold Io.shorten
  split
  · exact ⟨keeps.drop inside, rfl⟩
  · next long =>
    rw [keeps.height] at long
    rw [List.take_of_length_le (by omega)]
    exact ⟨keeps, rfl⟩

theorem blank_purge {storage : FileBlockStorage} (mode : storage.mode = .none) : Blank storage.purge :=
  ⟨mode, fun _ => rfl, fun _ => rfl⟩

/-- The storage of a node keeps a chain, and nothing is staged. -/
structure Represents (format : BlockFormat) (cache : BlockStorageCache) (chain : List BlockElement) : Prop where
  storage : Keeps format cache.storage 0 True chain
  indexed : cache.storage.mode = .hashIndex
  blank : Blank cache.stagingStorage

theorem saveBlock_mode {storage saved : FileBlockStorage} {element : BlockElement} (ran : storage.saveBlock format element = .ok saved) :
    saved.mode = storage.mode := by
  unfold FileBlockStorage.saveBlock at ran
  dsimp only at ran
  split at ran
  · cases ran
  · split at ran
    · obtain ⟨hashFile, -, rest⟩ := Runs.bind_eq_ok.mp ran
      cases rest
      rfl
    · cases ran
      rfl

theorem foldlM_saveBlock_mode {storage saved : FileBlockStorage} {elements : List BlockElement}
    (ran : elements.foldlM (FileBlockStorage.saveBlock format) storage = .ok saved) : saved.mode = storage.mode :=
  Runs.along_run (fun _ _ _ _ same stepped => (saveBlock_mode stepped).trans same) rfl ran

theorem Represents.saveBlock {cache : BlockStorageCache} (represents : Represents format cache chain) {element : BlockElement}
    (wellFormed : element.WellFormed format) (fits : StatementFits cache.storage (format.height element.block.bytes) element) :
    Runs.Follows (Represents format) (cache.step format (.saveBlock element)) (applyAction format chain (.saveBlock element)) := by
  have height := represents.storage.height
  unfold BlockStorageCache.step applyAction applyCall
  dsimp only
  split
  · next isNext =>
    have next : format.height element.block.bytes = 0 + 1 + chain.length := by omega
    rw [next] at fits
    obtain ⟨saved, ran, mode, kept⟩ := represents.storage.saveBlock wellFormed (fun _ => rfl) (fun _ => fits) next
    exact ⟨{ cache with storage := saved }, by rw [ran]; rfl, kept, mode.trans represents.indexed, represents.blank⟩
  · next wrong =>
    refine ⟨.saveHeight (format.height element.block.bytes) cache.storage.chainHeight, ?_⟩
    rw [saveBlock_wrong_height (by omega)]
    rfl

theorem Represents.dropBlocksAfter {cache : BlockStorageCache} (represents : Represents format cache chain) {height : Nat}
    (inside : height ≤ cache.storage.chainHeight) :
    Runs.Follows (Represents format) (cache.step format (.dropBlocksAfter height)) (applyAction format chain (.dropBlocksAfter height)) := by
  rw [represents.storage.height] at inside
  exact ⟨{ cache with storage := cache.storage.dropBlocksAfter height }, rfl, represents.storage.drop (by omega), represents.indexed,
    represents.blank⟩

/-- A commit moves the staged blocks behind the blocks that were not dropped. -/
theorem Stages.commit (stages : Stages format modifier chain elements) (fits : Runs.Meets (FileBlockStorage.saveBlock format)
      (fun storage element => StatementFits storage (format.height element.block.bytes) element)
      (shorten modifier.storage modifier.saveStartHeight) elements) :
    ∃ moved, modifier.commit format = .ok (modifier.stagingStorage.purge, moved) ∧ moved.mode = modifier.storage.mode ∧
      Keeps format moved 0 True (visible modifier chain elements) := by
  have inside := stages.inside
  obtain ⟨shortened, mode⟩ := stages.storage.shorten inside
  have length : (chain.take modifier.saveStartHeight).length = modifier.saveStartHeight := by
    rw [List.length_take, Nat.min_eq_left inside]
  obtain ⟨moved, ran, kept⟩ := shortened.saveBlocks (fun _ => rfl) stages.staged.wellFormed (fun index below => by
    rw [length, stages.heights index below]
    omega) (fun _ => fits)
  refine ⟨moved, ?_, (foldlM_saveBlock_mode ran).trans mode, kept⟩
  have count : modifier.stagingStorage.chainHeight + 1 - (modifier.saveStartHeight + 1) = elements.length := by
    rw [stages.staged.height]
    omega
  have all := @foldlM_moveBlock format elements modifier.stagingStorage (Io.shorten modifier.storage modifier.saveStartHeight)
    (modifier.saveStartHeight + 1) fun index below destination => stages.staged.moveBlock below destination
  unfold BlockStorageModifier.commit moveBlockFiles
  rw [if_neg (by omega)]
  dsimp only
  rw [count, Nat.add_sub_cancel]
  change (do
    let moved ← ((List.range elements.length).map (modifier.saveStartHeight + 1 + ·)).foldlM (Io.moveBlock format modifier.stagingStorage)
      (Io.shorten modifier.storage modifier.saveStartHeight)
    return (modifier.stagingStorage.purge, moved)) = _
  rw [all, ran]
  rfl

theorem Represents.stages {cache : BlockStorageCache} (represents : Represents format cache chain) :
    Stages format (.create cache.storage cache.stagingStorage) chain [] := by
  have height := represents.storage.height
  rw [Nat.zero_add] at height
  exact ⟨represents.storage, Nat.le_of_eq height, represents.blank.mode, represents.blank.keeps _, fun _ outside => nomatch outside⟩

theorem Represents.commit {cache : BlockStorageCache} (represents : Represents format cache chain) {calls : List ModifierCall}
    (wellFormed : ∀ element ∈ savedElements calls, element.WellFormed format) (permits : Permits format cache (.commit calls)) :
    Runs.Follows (Represents format) (cache.step format (.commit calls)) (applyAction format chain (.commit calls)) := by
  obtain ⟨dropsFirst, fits⟩ := permits
  have height := represents.storage.height
  rw [Nat.zero_add] at height
  have stages := represents.stages
  have start : visible (.create cache.storage cache.stagingStorage) chain [] = chain := by
    rw [visible, List.append_nil]
    exact List.take_of_length_le (Nat.le_of_eq height.symm)
  have called := stages.calls ⟨represents.blank.mode, represents.blank.blocks, represents.blank.statements⟩ dropsFirst wellFormed
  rw [start] at called
  unfold BlockStorageCache.step applyAction
  dsimp only
  cases computed : calls.foldlM (applyCall format) chain with
  | none =>
    rw [computed] at called
    obtain ⟨failure, failed⟩ := called
    exact ⟨failure, by rw [failed]; rfl⟩
  | some result =>
    rw [computed] at called
    obtain ⟨modifier, ran, sameStorage, sameStart, staged, rfl⟩ := called
    have sameShort : Io.shorten modifier.storage modifier.saveStartHeight =
        Io.shorten cache.storage (dropHeight cache.storage.chainHeight calls) := by
      rw [sameStorage, sameStart]
      rfl
    rw [← sameShort] at fits
    obtain ⟨moved, committed, mode, kept⟩ := staged.commit fits
    have total := kept.height
    have keptMode : moved.mode = .hashIndex := mode.trans ((congrArg FileBlockStorage.mode sameStorage).trans represents.indexed)
    rw [ran]
    dsimp only [bind, Except.bind, Except.mapError]
    rw [committed]
    dsimp only
    by_cases positive : 0 < moved.chainHeight
    · have inside : (visible modifier chain (savedElements calls)).length - 1 < (visible modifier chain (savedElements calls)).length := by
        omega
      have loaded := (kept.loadBlock inside).2
      rw [show 0 + 1 + ((visible modifier chain (savedElements calls)).length - 1) = moved.chainHeight by omega] at loaded
      rw [if_pos positive, loaded]
      exact ⟨_, rfl, kept, keptMode, blank_purge staged.mode⟩
    · rw [if_neg positive]
      exact ⟨_, rfl, kept, keptMode, blank_purge staged.mode⟩

theorem represents_create (format : BlockFormat) (batchSize : Nat) (nonzero : batchSize ≠ 0) :
    Represents format (.create batchSize nonzero) [] where
  storage := {
    height := rfl
    wellFormed := fun _ member => nomatch member
    blocks := fun _ _ found => nomatch found
    packed := fun _ _ _ contained => nomatch contained
    statements := fun _ _ found => nomatch found
    fresh := fun inexact => absurd trivial inexact
    hashes := fun _ => ⟨rfl, Nat.le_refl 2, fun _ _ found => nomatch found⟩ }
  indexed := rfl
  blank := ⟨rfl, fun _ => rfl, fun _ => rfl⟩

/-- In every run whose steps meet the condition, the storage returns what was saved on the current chain. -/
theorem storage_run_faithful (format : BlockFormat) (batchSize : Nat) (nonzero : batchSize ≠ 0) (actions : List StorageAction)
    (wellFormed : ∀ action ∈ actions, action.WellFormed format)
    (meets : Runs.Meets (BlockStorageCache.step format) (Permits format) (.create batchSize nonzero) actions) :
    match actions.foldlM (applyAction format) [] with
    | some chain => ∃ final, actions.foldlM (BlockStorageCache.step format) (.create batchSize nonzero) = .ok final ∧
        Faithful format final.storage chain
    | none => ∃ failure, actions.foldlM (BlockStorageCache.step format) (.create batchSize nonzero) = .error failure := by
  have follows := Runs.Follows.foldlM (fun action member cache chain (represents : Represents format cache chain) permits => by
    cases action with
    | saveBlock element => exact represents.saveBlock (wellFormed _ member) permits
    | dropBlocksAfter height => exact represents.dropBlocksAfter permits
    | commit calls => exact represents.commit (wellFormed _ member) permits) (represents_create format batchSize nonzero) meets
  cases computed : actions.foldlM (applyAction format) [] with
  | none =>
    rw [computed] at follows
    exact follows
  | some chain =>
    rw [computed] at follows
    obtain ⟨final, ran, represents⟩ := follows
    exact ⟨final, ran, represents.storage.faithful represents.indexed⟩

end Runs

namespace Samples

/-- A block without transactions has its height in its fifth byte. -/
def format : BlockFormat := ⟨fun bytes => (bytes.getD 4 0).toNat, fun _ => 0⟩

def block (height : UInt8) : Block := ⟨[5, 0, 0, 0, height], rfl, Nat.le_succ 4⟩

def element (height : UInt8) (statement : Option BlockStatement) : BlockElement :=
  ⟨block height, zeroHash, zeroHash, [], [], statement⟩

def statement : BlockStatement := ⟨[], [], []⟩

theorem statement_wellFormed : statement.WellFormed :=
  ⟨⟨.nil, by decide, nofun, nofun⟩, ⟨.nil, by decide, nofun, nofun⟩, ⟨.nil, by decide, nofun, nofun⟩⟩

theorem element_wellFormed (height : UInt8) {optional : Option BlockStatement} (empty : ∀ other, optional = some other → other = statement) :
    (element height optional).WellFormed format :=
  ⟨rfl, Nat.two_pow_pos 31, Nat.two_pow_pos 32, fun other present => empty other present ▸ statement_wellFormed⟩

/-- The first block is replaced by one without a statement. -/
def replacingRun : List StorageAction :=
  [.saveBlock (element 1 (some statement)), .dropBlocksAfter 0, .saveBlock (element 1 none)]

/-- The statement of the dropped block is returned for its successor. -/
theorem dropped_statement_returned : ∃ final,
    replacingRun.foldlM (BlockStorageCache.step format) (.create 1 (by decide)) = .ok final ∧
      replacingRun.foldlM (applyAction format) [] = some [element 1 none] ∧
      final.storage.loadBlockStatementData 1 = .ok (some (List.replicate 12 0)) ∧
      ¬ Faithful format final.storage [element 1 none] := by
  refine ⟨_, rfl, rfl, rfl, fun faithful => ?_⟩
  have loaded := faithful.statements 0 (by decide)
  cases loaded

/-- The second block is staged and moved behind the first one. -/
def committingRun : List StorageAction := [.saveBlock (element 1 none), .commit [.saveBlock (element 2 (some statement))]]

/-- Both blocks are loaded after the commit. -/
theorem committing_run_faithful : ∃ final,
    committingRun.foldlM (BlockStorageCache.step format) (.create 2 (by decide)) = .ok final ∧
      Faithful format final.storage [element 1 none, element 2 (some statement)] := by
  refine storage_run_faithful format 2 (by decide) committingRun (fun action member => ?_) (.cons ?_ rfl ⟨⟨?_, ?_⟩, fun _ _ => trivial⟩)
  · rcases List.mem_cons.mp member with rfl | later
    · exact element_wellFormed 1 nofun
    · rw [List.mem_singleton.mp later]
      intro other saved
      rw [List.mem_singleton.mp saved]
      exact element_wellFormed 2 fun _ same => (Option.some.inj same).symm
  · change FileDatabase.contains (.create 2 (by decide)) 1 = false
    rfl
  · exact fun _ none => nomatch none
  · refine ⟨⟨fun earlier before above same => ?_, fun _ _ => rfl⟩, fun _ _ => trivial⟩
    obtain rfl : earlier = 1 := by
      change earlier < 2 at before
      omega
    cases same

end Samples

end Catapult.Io
