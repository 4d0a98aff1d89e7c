import Mathlib.Data.List.Basic
import Mathlib.Data.List.GetD

/-
This file develops lists that consist of blocks of one size.
-/

namespace ListBlocks

variable {α : Type} {size : Nat}

/-- A block is read behind a pointer. -/
def readBlock (size : Nat) (fallback : α) (buffer : List α) (position : Nat) : Vector α size :=
  Vector.ofFn fun offset => buffer.getD (position + offset.val) fallback

def writeBlock (buffer : List α) (position : Nat) (block : Vector α size) : List α :=
  buffer.take position ++ block.toList ++ buffer.drop (position + size)

def joinBlocks (count : Nat) (block : Nat → Vector α size) : List α := (List.range count).flatMap fun index => (block index).toList

theorem joinBlocks_succ (count : Nat) (block : Nat → Vector α size) :
    joinBlocks (count + 1) block = joinBlocks count block ++ (block count).toList := by
  unfold joinBlocks
  rw [List.range_succ, List.flatMap_append, List.flatMap_singleton]

@[simp]
theorem length_joinBlocks (count : Nat) (block : Nat → Vector α size) : (joinBlocks count block).length = count * size := by
  induction count with
  | zero => simp [joinBlocks]
  | succ count ih => rw [joinBlocks_succ, List.length_append, ih, Vector.length_toList, Nat.succ_mul]

@[simp]
theorem length_writeBlock {buffer : List α} {position : Nat} (inside : position + size ≤ buffer.length) (block : Vector α size) :
    (writeBlock buffer position block).length = buffer.length := by
  simp only [writeBlock, List.length_append, List.length_take, List.length_drop, Vector.length_toList]
  omega

/-- Only the block itself changes. -/
theorem getD_writeBlock {buffer : List α} {position : Nat} (inside : position + size ≤ buffer.length) (block : Vector α size)
    {other : Nat} (outside : other < position) (fallback : α) :
    (writeBlock buffer position block).getD other fallback = buffer.getD other fallback := by
  have reached : other < (buffer.take position).length := by
    rw [List.length_take]
    omega
  unfold writeBlock
  rw [List.append_assoc, List.getD_append _ _ _ _ reached]
  simp [List.getD_eq_getElem?_getD, outside]

theorem getElem_readBlock (fallback : α) (buffer : List α) (position : Nat) {offset : Nat} (inside : offset < size) :
    (readBlock size fallback buffer position)[offset] = buffer.getD (position + offset) fallback := by
  rw [readBlock, Vector.getElem_ofFn]

/-- A block inside the buffer does not use the fallback. -/
theorem toList_readBlock {buffer : List α} {position : Nat} (inside : position + size ≤ buffer.length) (fallback : α) :
    (readBlock size fallback buffer position).toList = (buffer.drop position).take size := by
  apply List.ext_getElem
  · rw [Vector.length_toList, List.length_take, List.length_drop]
    omega
  · intro offset left right
    rw [Vector.length_toList] at left
    rw [Vector.getElem_toList, getElem_readBlock, List.getElem_take, List.getElem_drop, List.getD_eq_getElem _ _ (by omega)]

/-- A block that was written is read again. -/
theorem readBlock_writeBlock {buffer : List α} {position : Nat} (inside : position + size ≤ buffer.length) (block : Vector α size) (fallback : α) :
    readBlock size fallback (writeBlock buffer position block) position = block := by
  apply Vector.toList_inj.mp
  have start : (buffer.take position).length = position := List.length_take_of_le (by omega)
  rw [toList_readBlock (by rwa [length_writeBlock inside]), writeBlock, List.append_assoc, List.drop_left' start,
    List.take_left' (Vector.length_toList)]

/-- The next block is written behind the blocks that are joined. -/
theorem writeBlock_joinBlocks (original : List α) (count : Nat) (block : Nat → Vector α size) :
    writeBlock (joinBlocks count block ++ original.drop (count * size)) (count * size) (block count) =
      joinBlocks (count + 1) block ++ original.drop ((count + 1) * size) := by
  have joined := length_joinBlocks count block
  unfold writeBlock
  have last : (joinBlocks count block ++ original.drop (count * size)).drop (count * size + size) = original.drop (count * size + size) := by
    calc (joinBlocks count block ++ original.drop (count * size)).drop (count * size + size)
        = (joinBlocks count block ++ original.drop (count * size)).drop ((joinBlocks count block).length + size) := by rw [joined]
      _ = original.drop (count * size + size) := by rw [List.drop_length_add_append, List.drop_drop]
  rw [List.take_left' joined, joinBlocks_succ, Nat.succ_mul, last]

theorem readBlock_joinBlocks (fallback : α) (block : Nat → Vector α size) {count index : Nat} (inside : index < count) :
    readBlock size fallback (joinBlocks count block) (index * size) = block index := by
  induction count with
  | zero => exact absurd inside (Nat.not_lt_zero index)
  | succ count ih =>
    apply Vector.ext
    intro offset small
    have joined := length_joinBlocks count block
    rw [getElem_readBlock, joinBlocks_succ]
    rcases Nat.lt_succ_iff_lt_or_eq.mp inside with earlier | rfl
    · have reached : index * size + offset < (joinBlocks count block).length := by
        have := Nat.mul_le_mul_right size (Nat.succ_le_of_lt earlier)
        rw [Nat.succ_mul] at this
        omega
      rw [List.getD_append _ _ _ _ reached, ← getElem_readBlock, ih earlier]
    · rw [List.getD_append_right _ _ _ _ (by omega), joined, Nat.add_sub_cancel_left,
        List.getD_eq_getElem _ _ (by rwa [Vector.length_toList]), Vector.getElem_toList]

theorem joinBlocks_readBlock (fallback : α) (buffer : List α) {count : Nat} (inside : count * size ≤ buffer.length) :
    joinBlocks count (fun index => readBlock size fallback buffer (index * size)) = buffer.take (count * size) := by
  induction count with
  | zero => simp [joinBlocks]
  | succ count ih =>
    rw [Nat.succ_mul] at inside ⊢
    rw [joinBlocks_succ, ih (by omega), toList_readBlock inside, List.take_add]

theorem joinBlocks_congr {count : Nat} {first second : Nat → Vector α size} (same : ∀ index < count, first index = second index) :
    joinBlocks count first = joinBlocks count second := by
  unfold joinBlocks
  refine List.flatMap_congr fun index member => ?_
  rw [same index (List.mem_range.mp member)]

end ListBlocks
