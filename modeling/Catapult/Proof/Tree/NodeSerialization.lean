import Catapult.Construction.Tree.PatriciaTreeSerializer
import Catapult.Proof.Tree.NodeEncoding
import Mathlib.Data.Nat.Bitwise

/-
This file shows that a serialized node is read back with the same hash, and that no other node has its bytes.
-/

namespace Catapult.Tree

open ByteStream

theorem ofKey_cons (byte : UInt8) (key : List UInt8) :
    TreeNodePath.ofKey (byte :: key) = Fin.ofNat 16 (byte.toNat >>> 4) :: Fin.ofNat 16 byte.toNat :: TreeNodePath.ofKey key := rfl

theorem length_ofKey (key : List UInt8) : (TreeNodePath.ofKey key).length = 2 * key.length := by
  induction key with
  | nil => rfl
  | cons byte key ih =>
    rw [ofKey_cons, List.length_cons, List.length_cons, ih, List.length_cons]
    omega

/-- A byte is packed from its own nibbles. -/
theorem packNibbles_ofNat (byte : UInt8) : packNibbles (Fin.ofNat 16 (byte.toNat >>> 4)) (Fin.ofNat 16 byte.toNat) = byte := by
  have small := byte.toNat_lt
  apply UInt8.toNat_inj.mp
  simp only [packNibbles, Fin.val_ofNat, Nat.shiftLeft_eq, Nat.shiftRight_eq_div_pow, UInt8.toNat_ofNat']
  omega

theorem toNat_packNibbles (high low : Nibble) : (packNibbles high low).toNat = 16 * high.val + low.val := by
  have := high.isLt
  have := low.isLt
  simp only [packNibbles, Nat.shiftLeft_eq, UInt8.toNat_ofNat']
  omega

/-- The nibbles of a packed byte are those it was packed from. -/
theorem ofKey_packNibbles (high low : Nibble) (key : List UInt8) :
    TreeNodePath.ofKey (packNibbles high low :: key) = high :: low :: TreeNodePath.ofKey key := by
  have := high.isLt
  have := low.isLt
  have first : Fin.ofNat 16 ((packNibbles high low).toNat >>> 4) = high := by
    apply Fin.ext
    rw [toNat_packNibbles, Nat.shiftRight_eq_div_pow, Fin.val_ofNat]
    omega
  have second : Fin.ofNat 16 (packNibbles high low).toNat = low := by
    apply Fin.ext
    rw [toNat_packNibbles, Fin.val_ofNat]
    omega
  rw [ofKey_cons, first, second]

/-- Half a byte at the end of an odd path is filled with zero. -/
def packPath : TreeNodePath → List UInt8
  | high :: low :: rest => packNibbles high low :: packPath rest
  | [last] => [packNibbles last 0]
  | [] => []

theorem length_packPath (path : TreeNodePath) : (packPath path).length = (path.length + 1) / 2 := by
  induction path using packPath.induct with
  | case1 high low rest ih =>
    rw [packPath, List.length_cons, ih, List.length_cons, List.length_cons]
    omega
  | case2 last => rw [packPath, List.length_singleton, List.length_singleton]
  | case3 => rfl

theorem packPath_append {first : TreeNodePath} (even : first.length % 2 = 0) (second : TreeNodePath) :
    packPath (first ++ second) = packPath first ++ packPath second := by
  induction first using packPath.induct with
  | case1 high low rest ih =>
    rw [List.length_cons, List.length_cons] at even
    rw [List.cons_append, List.cons_append, packPath, packPath, List.cons_append, ih (by omega)]
  | case2 last => cases even
  | case3 => rfl

/-- A filler nibble does not change the packed bytes. -/
theorem packPath_filler {path : TreeNodePath} (odd : path.length % 2 = 1) : packPath (path ++ [0]) = packPath path := by
  induction path using packPath.induct with
  | case1 high low rest ih =>
    rw [List.length_cons, List.length_cons] at odd
    rw [List.cons_append, List.cons_append, packPath, packPath, ih (by omega)]
  | case2 last => rfl
  | case3 => cases odd

theorem packPath_ofKey (key : List UInt8) : packPath (TreeNodePath.ofKey key) = key := by
  induction key with
  | nil => rfl
  | cons byte key ih => rw [ofKey_cons, packPath, packNibbles_ofNat, ih]

/-- The packed bytes of an odd path have one nibble more than the path. -/
theorem ofKey_packPath (path : TreeNodePath) :
    TreeNodePath.ofKey (packPath path) = path ++ if path.length % 2 = 1 then [0] else [] := by
  induction path using packPath.induct with
  | case1 high low rest ih =>
    have parity : (high :: low :: rest).length % 2 = rest.length % 2 := by
      rw [List.length_cons, List.length_cons]
      omega
    rw [packPath, ofKey_packNibbles, ih, parity, List.cons_append, List.cons_append]
  | case2 last => exact ofKey_packNibbles last 0 []
  | case3 => rfl

namespace PackedTreeNodePath

theorem length_toTreeNodePath (path : PackedTreeNodePath) : path.toTreeNodePath.length = path.size := by
  rw [toTreeNodePath, List.length_map, List.length_range]

theorem getElem_toTreeNodePath (path : PackedTreeNodePath) {index : Nat} (below : index < path.toTreeNodePath.length) :
    path.toTreeNodePath[index] = path.nibbleAt index := by
  simp only [toTreeNodePath, List.getElem_map, List.getElem_range]

theorem getElem?_toTreeNodePath (path : PackedTreeNodePath) {index : Nat} (below : index < path.size) :
    path.toTreeNodePath[index]? = some (path.nibbleAt index) := by
  rw [List.getElem?_eq_getElem (by rwa [length_toTreeNodePath]), getElem_toTreeNodePath]

/-- The byte of a nibble lies inside the bytes of its path. -/
theorem nibble_inside (path : PackedTreeNodePath) {index : Nat} (below : index < path.size) :
    (index + path.adjustment) / 2 < path.path.length := by
  have covered := path.covered
  omega

theorem nibbleAt_even (path : PackedTreeNodePath) {index : Nat} {byte : UInt8} (even : (index + path.adjustment) % 2 = 0)
    (read : path.path.getD ((index + path.adjustment) / 2) 0 = byte) : path.nibbleAt index = Fin.ofNat 16 (byte.toNat >>> 4) := by
  have masked (byte : Nat) : Fin.ofNat 16 ((byte &&& 0xF0) >>> 4) = Fin.ofNat 16 (byte >>> 4) := by
    apply Fin.ext
    rw [Nat.shiftRight_and_distrib, Fin.val_ofNat, Fin.val_ofNat]
    change ((byte >>> 4) &&& (2 ^ 4 - 1)) % 16 = _
    rw [Nat.and_two_pow_sub_one_eq_mod, Nat.mod_mod]
  rw [nibbleAt, if_pos even, read, UInt8.toNat_shiftRight, UInt8.toNat_and]
  exact masked _

theorem nibbleAt_odd (path : PackedTreeNodePath) {index : Nat} {byte : UInt8} (odd : (index + path.adjustment) % 2 = 1)
    (read : path.path.getD ((index + path.adjustment) / 2) 0 = byte) : path.nibbleAt index = Fin.ofNat 16 byte.toNat := by
  have masked (byte : Nat) : Fin.ofNat 16 (byte &&& 0x0F) = Fin.ofNat 16 byte := by
    apply Fin.ext
    rw [Fin.val_ofNat, Fin.val_ofNat]
    change (byte &&& (2 ^ 4 - 1)) % 16 = _
    rw [Nat.and_two_pow_sub_one_eq_mod, Nat.mod_mod]
  rw [nibbleAt, if_neg (by omega), read, UInt8.toNat_and]
  exact masked _

/-- A path of a whole key has two nibbles for each byte. -/
theorem toTreeNodePath_ofKey (key : List UInt8) : (ofKey key).toTreeNodePath = TreeNodePath.ofKey key := by
  induction key with
  | nil => rfl
  | cons byte key ih =>
    have shifted (index : Nat) : (ofKey (byte :: key)).nibbleAt (index + 2) = (ofKey key).nibbleAt index := by
      have half : (index + 2) / 2 = index / 2 + 1 := by omega
      have parity : (index + 2) % 2 = index % 2 := by omega
      change (if (index + 2) % 2 = 0 then Fin.ofNat 16 (((byte :: key).getD ((index + 2) / 2) 0 &&& 0xF0) >>> 4).toNat
        else Fin.ofNat 16 ((byte :: key).getD ((index + 2) / 2) 0 &&& 0x0F).toNat) = _
      rw [half, parity, List.getD_cons_succ]
      rfl
    have high : (ofKey (byte :: key)).nibbleAt 0 = Fin.ofNat 16 (byte.toNat >>> 4) :=
      nibbleAt_even _ rfl (show (byte :: key).getD ((0 + 0) / 2) 0 = byte from rfl)
    have low : (ofKey (byte :: key)).nibbleAt 1 = Fin.ofNat 16 byte.toNat :=
      nibbleAt_odd _ rfl (show (byte :: key).getD ((1 + 0) / 2) 0 = byte from rfl)
    have size : (ofKey (byte :: key)).size = 2 * key.length + 1 + 1 := Nat.mul_succ 2 _
    rw [toTreeNodePath, size, List.range_succ_eq_map, List.range_succ_eq_map, List.map_cons, List.map_cons, List.map_cons,
      List.map_map, List.map_map, ofKey_cons, ← ih, high, low]
    exact congrArg (Fin.ofNat 16 (byte.toNat >>> 4) :: Fin.ofNat 16 byte.toNat :: ·)
      (List.map_congr_left fun index _ => shifted index)

/-- A part of a path starts at its offset wherever the path starts in its bytes. -/
theorem nibbleAt_subpath (path : PackedTreeNodePath) {offset size : Nat} (inside : offset + size ≤ path.size) {index : Nat}
    (below : index < size) : (path.subpath offset size inside).nibbleAt index = path.nibbleAt (offset + index) := by
  let start := offset + path.adjustment
  have byte : ((path.subpath offset size inside).path.getD ((index + start % 2) / 2) 0) =
      path.path.getD ((offset + index + path.adjustment) / 2) 0 := by
    have position : start / 2 + (index + start % 2) / 2 = (offset + index + path.adjustment) / 2 := by
      change (offset + path.adjustment) / 2 + (index + (offset + path.adjustment) % 2) / 2 = _
      omega
    have taken : (index + start % 2) / 2 < calculateByteSize start size := by
      unfold calculateByteSize
      split <;> omega
    have some : size ≠ 0 := by omega
    change (if size = 0 then _ else _ : List UInt8).getD _ _ = _
    rw [if_neg some, List.getD_eq_getElem?_getD, List.getElem?_take_of_lt taken, List.getElem?_drop, position,
      ← List.getD_eq_getElem?_getD]
  have parity : (index + start % 2) % 2 = (offset + index + path.adjustment) % 2 := by
    change (index + (offset + path.adjustment) % 2) % 2 = _
    omega
  change (if (index + start % 2) % 2 = 0 then _ else _) = _
  rw [parity]
  change (if _ then Fin.ofNat 16 ((((path.subpath offset size inside).path.getD ((index + start % 2) / 2) 0) &&& _) >>> _).toNat
    else Fin.ofNat 16 (((path.subpath offset size inside).path.getD ((index + start % 2) / 2) 0) &&& _).toNat) = _
  rw [byte]
  rfl

theorem toTreeNodePath_subpath (path : PackedTreeNodePath) {offset size : Nat} (inside : offset + size ≤ path.size) :
    (path.subpath offset size inside).toTreeNodePath = (path.toTreeNodePath.drop offset).take size := by
  apply List.ext_getElem
  · have enough : size ≤ path.size - offset := by omega
    rw [List.length_take, List.length_drop, length_toTreeNodePath, length_toTreeNodePath, Nat.min_eq_left enough]
    rfl
  · intro index below _
    have below : index < size := by rwa [length_toTreeNodePath] at below
    rw [List.getElem_take, List.getElem_drop, getElem_toTreeNodePath, getElem_toTreeNodePath]
    exact path.nibbleAt_subpath inside below

end PackedTreeNodePath

namespace PatriciaTreeSerializer

/-- The working byte and the written bytes after a number of nibbles. -/
def written (path : PackedTreeNodePath) (count : Nat) : UInt8 × List UInt8 := (List.range count).foldl (serializeNibble path) (0, [])

theorem written_succ (path : PackedTreeNodePath) (count : Nat) :
    written path (count + 1) = serializeNibble path (written path count) count := by
  rw [written, List.range_succ, List.foldl_append]
  rfl

theorem serializeNibble_even (path : PackedTreeNodePath) (state : UInt8 × List UInt8) {index : Nat} (even : index % 2 = 0) :
    serializeNibble path state index = (packNibbles (path.nibbleAt index) 0, state.2) := if_pos even

/-- The second nibble of a pair is merged into the byte of the first one. -/
theorem packNibbles_merge : ∀ high low : Nibble, packNibbles high 0 ||| UInt8.ofNat low.val = packNibbles high low := by decide

theorem serializeNibble_odd (path : PackedTreeNodePath) (high : Nibble) (bytes : List UInt8) {index : Nat} (odd : index % 2 = 1) :
    (serializeNibble path (packNibbles high 0, bytes) index).2 = bytes ++ [packNibbles high (path.nibbleAt index)] := by
  rw [serializeNibble, if_neg (by omega)]
  exact congrArg (bytes ++ [·]) (packNibbles_merge _ _)

/-- After an even number of nibbles all their bytes are written. -/
theorem written_even (path : PackedTreeNodePath) (pairs : Nat) :
    (written path (2 * pairs)).2 = packPath ((List.range (2 * pairs)).map path.nibbleAt) := by
  induction pairs with
  | zero => rfl
  | succ pairs ih =>
    have parity : ((List.range (2 * pairs)).map path.nibbleAt).length % 2 = 0 := by
      rw [List.length_map, List.length_range]
      omega
    have next : 2 * (pairs + 1) = 2 * pairs + 1 + 1 := by omega
    have even : 2 * pairs % 2 = 0 := by omega
    have odd : (2 * pairs + 1) % 2 = 1 := by omega
    rw [next, written_succ, written_succ, serializeNibble_even path _ even, serializeNibble_odd path _ _ odd,
      List.range_succ, List.range_succ, List.append_assoc, List.map_append, packPath_append parity, ih]
    rfl

/-- A path is written as its size and its packed nibbles, wherever it starts in its bytes. -/
theorem serializePath_eq (path : PackedTreeNodePath) :
    serializePath path = UInt8.ofNat path.size :: packPath path.toTreeNodePath := by
  have pairs := Nat.div_add_mod path.size 2
  rcases Nat.mod_two_eq_zero_or_one path.size with even | odd
  · have size : path.size = 2 * (path.size / 2) := by omega
    have tail := written_even path (path.size / 2)
    rw [← size] at tail
    rw [serializePath, if_neg (by omega), List.append_nil]
    exact congrArg (_ :: ·) tail
  · have size : path.size = 2 * (path.size / 2) + 1 := by omega
    have parity : ((List.range (2 * (path.size / 2))).map path.nibbleAt).length % 2 = 0 := by
      rw [List.length_map, List.length_range]
      omega
    have last := written_succ path (2 * (path.size / 2))
    rw [serializeNibble_even path _ (by omega), ← size] at last
    rw [serializePath, if_pos odd]
    change _ :: (written path path.size).2 ++ [(written path path.size).1] = _
    rw [last, written_even, PackedTreeNodePath.toTreeNodePath]
    nth_rewrite 6 [size]
    rw [List.range_succ, List.map_append, packPath_append parity]
    rfl

/-- The last nibble of a path of bytes can be read off its nibbles. -/
theorem ofKey_last {key : List UInt8} {nibbles : TreeNodePath} {last : Nibble} (split : TreeNodePath.ofKey key = nibbles ++ [last]) :
    (PackedTreeNodePath.ofKey key).nibbleAt ((PackedTreeNodePath.ofKey key).size - 1) = last := by
  have size : (PackedTreeNodePath.ofKey key).size = nibbles.length + 1 := by
    rw [← PackedTreeNodePath.length_toTreeNodePath, PackedTreeNodePath.toTreeNodePath_ofKey, split, List.length_append]
    rfl
  have read := (PackedTreeNodePath.ofKey key).getElem?_toTreeNodePath (show nibbles.length < _ by omega)
  rw [PackedTreeNodePath.toTreeNodePath_ofKey, split, List.getElem?_concat_length, Option.some_inj] at read
  rw [size, Nat.add_sub_cancel, ← read]

/-- A byte that was written is the next one that is read. -/
theorem readValue_word8 {α : Type} (byte : UInt8) (next : UInt8 → NodeReader α) {bytes : List UInt8} {result : α}
    (following : Reads (next byte) bytes result) : Reads (readValue .word8 >>= next) (byte :: bytes) result := by
  have both := (Codec.word8.reads SerializerError.fileIoError byte).bind following
  rwa [Codec.word8_write] at both

/-- A path that was written is read back with the same nibbles. -/
theorem deserializePath_reads {nibbles : TreeNodePath} (short : nibbles.length ≤ 255) :
    ∃ path, Reads deserializePath (UInt8.ofNat nibbles.length :: packPath nibbles) path ∧ path.toTreeNodePath = nibbles := by
  have count : (UInt8.ofNat nibbles.length).toNat = nibbles.length := UInt8.toNat_ofNat_of_lt' (by change _ < 256; omega)
  have sized : (packPath nibbles).length = ((UInt8.ofNat nibbles.length).toNat + 1) / 2 := by rw [count, length_packPath]
  by_cases none : (nibbles.length + 1) / 2 = 0
  · have empty : nibbles = [] := List.length_eq_zero_iff.mp (by omega)
    subst empty
    exact ⟨.empty, readValue_word8 _ _ (Reads.pure _), rfl⟩
  · let aligned : Vector UInt8 (((UInt8.ofNat nibbles.length).toNat + 1) / 2) := ⟨(packPath nibbles).toArray, sized⟩
    have inside : 0 + (UInt8.ofNat nibbles.length).toNat ≤ (PackedTreeNodePath.ofKey aligned.toList).size := by
      change _ ≤ 2 * aligned.toList.length
      rw [Vector.length_toList]
      omega
    refine ⟨(PackedTreeNodePath.ofKey aligned.toList).subpath 0 _ inside, readValue_word8 _ _ ?_, ?_⟩
    · rw [if_neg (by rwa [count])]
      have read := (Codec.array _).reads SerializerError.fileIoError aligned
      refine (List.append_nil (packPath nibbles)) ▸ read.bind ?_
      have filler : ¬ ((UInt8.ofNat nibbles.length).toNat % 2 = 1 ∧
          (PackedTreeNodePath.ofKey aligned.toList).nibbleAt ((PackedTreeNodePath.ofKey aligned.toList).size - 1) ≠ 0) := by
        rintro ⟨odd, different⟩
        rw [count] at odd
        have split := ofKey_packPath nibbles
        rw [if_pos odd] at split
        exact different (ofKey_last split)
      exact (if_neg filler).symm ▸ Reads.pure _
    · rw [PackedTreeNodePath.toTreeNodePath_subpath, PackedTreeNodePath.toTreeNodePath_ofKey, List.drop_zero]
      change (TreeNodePath.ofKey (packPath nibbles)).take _ = nibbles
      rw [count, ofKey_packPath, List.take_left]

theorem readValue_inverts : Inverts (readValue .word8) fun byte => [byte] := by
  intro bytes byte rest read
  have inverts := Codec.word8_exact.inverts _ bytes byte rest read
  rwa [Codec.word8_write] at inverts

/-- Bytes with a zero filler are packed from the nibbles before the filler. -/
theorem packPath_take {key : List UInt8} {count : Nat} (length : key.length = (count + 1) / 2)
    (filled : count % 2 = 1 → (PackedTreeNodePath.ofKey key).nibbleAt ((PackedTreeNodePath.ofKey key).size - 1) = 0) :
    packPath ((TreeNodePath.ofKey key).take count) = key := by
  have total := length_ofKey key
  rcases Nat.mod_two_eq_zero_or_one count with even | odd
  · rw [List.take_of_length_le (by omega), packPath_ofKey]
  · have shortened : ((TreeNodePath.ofKey key).take count).length = count := by
      rw [List.length_take]
      omega
    obtain ⟨last, single⟩ := List.length_eq_one_iff.mp (show ((TreeNodePath.ofKey key).drop count).length = 1 by
      rw [List.length_drop]
      omega)
    have split := (List.take_append_drop count (TreeNodePath.ofKey key)).symm
    rw [single] at split
    have zero : last = 0 := (ofKey_last split).symm.trans (filled odd)
    rw [← packPath_filler (by rwa [shortened]), ← zero, ← split, packPath_ofKey]

/-- The bytes of a path that was read are those that are written for it. -/
theorem deserializePath_inverts : Inverts deserializePath serializePath := by
  intro bytes path rest read
  obtain ⟨count, middle, first, second⟩ := bind_eq_ok read
  have bytes_eq := readValue_inverts bytes count middle first
  by_cases none : (count.toNat + 1) / 2 = 0
  · rw [if_pos none] at second
    cases second
    have zero : count = 0 := UInt8.toNat_inj.mp (show count.toNat = 0 by omega)
    rw [bytes_eq, zero]
    rfl
  · rw [if_neg none] at second
    obtain ⟨aligned, last, third, fourth⟩ := bind_eq_ok second
    have middle_eq := (Codec.array_exact _).inverts _ middle aligned last third
    dsimp only at fourth
    split at fourth
    · cases fourth
    · next filled =>
      cases fourth
      have packed := packPath_take aligned.length_toList fun odd => of_not_not fun different => filled ⟨odd, different⟩
      have size : UInt8.ofNat count.toNat = count := UInt8.ofNat_toNat
      rw [bytes_eq, middle_eq, serializePath_eq, PackedTreeNodePath.toTreeNodePath_subpath,
        PackedTreeNodePath.toTreeNodePath_ofKey, List.drop_zero, packed]
      change _ = UInt8.ofNat count.toNat :: _ ++ _
      rw [size]
      rfl

/-- A leaf that was written is read back with the same nibbles and the same value. -/
theorem deserializeLeaf_reads {leaf : PackedLeafTreeNode} (short : leaf.path.size ≤ 255) :
    ∃ path, Reads deserializeLeaf (serializePath leaf.path ++ leaf.value.toList) ⟨path, leaf.value⟩ ∧
      path.toTreeNodePath = leaf.path.toTreeNodePath := by
  rw [← leaf.path.length_toTreeNodePath] at short
  obtain ⟨path, reads, nibbles⟩ := deserializePath_reads short
  refine ⟨path, ?_, nibbles⟩
  rw [serializePath_eq, ← leaf.path.length_toTreeNodePath]
  refine reads.bind ?_
  exact ((Codec.array 32).reads SerializerError.fileIoError leaf.value).mapped (PackedLeafTreeNode.mk path)

theorem deserializeLeaf_inverts : Inverts deserializeLeaf fun leaf => serializePath leaf.path ++ leaf.value.toList := by
  intro bytes leaf rest read
  obtain ⟨path, middle, first, second⟩ := bind_eq_ok read
  obtain ⟨value, last, third, fourth⟩ := bind_eq_ok second
  cases fourth
  rw [deserializePath_inverts bytes path middle first, (Codec.array_exact 32).inverts _ middle value rest third,
    List.append_assoc]
  rfl

def bit (mask : UInt16) (index : Fin 16) : Prop := mask &&& 1 <<< UInt16.ofNat index.val ≠ 0

instance (mask : UInt16) (index : Fin 16) : Decidable (bit mask index) := inferInstanceAs (Decidable (_ ≠ _))

theorem bit_iff (mask : UInt16) (index : Fin 16) : bit mask index ↔ mask.toNat.testBit index.val = true := by
  have single : ∀ index : Fin 16, ((1 : UInt16) <<< UInt16.ofNat index.val).toNat = 2 ^ index.val := by decide
  rw [bit, ne_eq, ← UInt16.toNat_inj, UInt16.toNat_and, single, Nat.and_two_pow]
  cases mask.toNat.testBit index.val with
  | false => simp
  | true => simp

theorem testBit_foldl (linkSet : Fin 16 → Bool) (indexes : List (Fin 16)) (mask : UInt16) (position : Nat) :
    (indexes.foldl (fun mask index => mask ||| (if linkSet index then 1 else 0) <<< UInt16.ofNat index.val) mask).toNat.testBit position =
      (mask.toNat.testBit position || decide (∃ index ∈ indexes, linkSet index = true ∧ index.val = position)) := by
  have single : ∀ (set : Bool) (index : Fin 16),
      ((if set then 1 else 0 : UInt16) <<< UInt16.ofNat index.val).toNat = if set then 2 ^ index.val else 0 := by decide
  induction indexes generalizing mask with
  | nil => simp
  | cons index indexes ih =>
    rw [List.foldl_cons, ih, UInt16.toNat_or, Nat.testBit_or, single]
    cases set : linkSet index with
    | false => simp [set]
    | true => simp [set, Nat.testBit_two_pow, Bool.or_assoc]

/-- The mask has the bits of the links that are set. -/
theorem bit_linksMask (node : PackedBranchTreeNode) (index : Fin 16) : bit (linksMask node) index ↔ node.linkSet index = true := by
  rw [bit_iff, linksMask, testBit_foldl]
  simp [Fin.val_inj]

/-- A mask is determined by its bits. -/
theorem linksMask_eq {node : PackedBranchTreeNode} {mask : UInt16} (same : ∀ index, node.linkSet index = decide (bit mask index)) :
    linksMask node = mask := by
  apply UInt16.toNat_inj.mp
  apply Nat.eq_of_testBit_eq
  intro position
  by_cases below : position < 16
  · have bits := (bit_linksMask node ⟨position, below⟩).symm
    rw [same, decide_eq_true_iff, bit_iff, bit_iff] at bits
    exact (Bool.eq_iff_iff.mpr bits).symm
  · have great : 2 ^ 16 ≤ 2 ^ position := Nat.pow_le_pow_right (by decide) (by omega)
    rw [Nat.testBit_lt_two_pow (Nat.lt_of_lt_of_le (linksMask node).toNat_lt great),
      Nat.testBit_lt_two_pow (Nat.lt_of_lt_of_le mask.toNat_lt great)]

variable [Sha3]

theorem link_setLink (branch : PackedBranchTreeNode) (link : Hash256) (index other : Fin 16) :
    (branch.setLink link index).link other = if other = index then link else branch.link other := by
  change linkHash (Function.update branch.links index link other) (Function.update branch.linkedNodes index none other) = _
  by_cases same : other = index
  · subst same
    rw [if_pos rfl, Function.update_self, Function.update_self, linkHash]
  · rw [if_neg same, Function.update_of_ne same, Function.update_of_ne same]
    rfl

omit [Sha3] in
theorem linkSet_setLink (branch : PackedBranchTreeNode) (link : Hash256) (index other : Fin 16) :
    (branch.setLink link index).linkSet other = if other = index then true else branch.linkSet other :=
  Function.update_apply _ _ _ _

/-- The hash of a branch is that of its nibbles and of all its links. -/
theorem link_cleared {branch : PackedBranchTreeNode} {index : Fin 16} (unset : branch.linkSet index = false) :
    branch.link index = zeroHash := by
  obtain ⟨hash, pointer⟩ := branch.cleared index unset
  rw [PackedBranchTreeNode.link, hash, pointer, linkHash]

def writeLinks (node : PackedBranchTreeNode) (indexes : List (Fin 16)) : List UInt8 :=
  indexes.flatMap fun index => if node.linkSet index then (node.link index).toList else []

/-- The links of a node are set one after the other. -/
def copyLinks (node : PackedBranchTreeNode) (start : PackedBranchTreeNode) (indexes : List (Fin 16)) : PackedBranchTreeNode :=
  indexes.foldl (fun branch index => if node.linkSet index then branch.setLink (node.link index) index else branch) start

theorem copyLinks_path (node start : PackedBranchTreeNode) (indexes : List (Fin 16)) :
    (copyLinks node start indexes).path = start.path := by
  induction indexes generalizing start with
  | nil => rfl
  | cons index indexes ih =>
    rw [copyLinks, List.foldl_cons]
    refine (ih _).trans ?_
    split <;> rfl

theorem copyLinks_link (node start : PackedBranchTreeNode) (indexes : List (Fin 16)) (other : Fin 16) :
    (copyLinks node start indexes).link other = if other ∈ indexes ∧ node.linkSet other then node.link other else start.link other := by
  induction indexes generalizing start with
  | nil => simp [copyLinks]
  | cons index indexes ih =>
    rw [copyLinks, List.foldl_cons]
    refine (ih _).trans ?_
    by_cases member : other ∈ indexes
    · cases set : node.linkSet index <;> by_cases same : other = index <;> simp_all [link_setLink]
    · cases set : node.linkSet index <;> by_cases same : other = index <;> simp_all [link_setLink]

theorem copyLinks_linkSet (node start : PackedBranchTreeNode) (indexes : List (Fin 16)) (other : Fin 16) :
    (copyLinks node start indexes).linkSet other = (start.linkSet other || (decide (other ∈ indexes) && node.linkSet other)) := by
  induction indexes generalizing start with
  | nil => simp [copyLinks]
  | cons index indexes ih =>
    rw [copyLinks, List.foldl_cons]
    refine (ih _).trans ?_
    by_cases same : other = index <;> cases set : node.linkSet index <;> simp_all [linkSet_setLink]

omit [Sha3] in
theorem deserializeLink_set {mask : UInt16} {index : Fin 16} (set : bit mask index) (branch : PackedBranchTreeNode) :
    deserializeLink mask branch index = do return branch.setLink (← readValue (.array 32)) index := if_pos set

omit [Sha3] in
theorem deserializeLink_unset {mask : UInt16} {index : Fin 16} (unset : ¬ bit mask index) (branch : PackedBranchTreeNode) :
    deserializeLink mask branch index = pure branch := if_neg unset

/-- The written links are read back in their order. -/
theorem deserializeLinks_reads (node start : PackedBranchTreeNode) (indexes : List (Fin 16)) :
    Reads (indexes.foldlM (deserializeLink (linksMask node)) start) (writeLinks node indexes) (copyLinks node start indexes) := by
  induction indexes generalizing start with
  | nil => exact Reads.pure start
  | cons index indexes ih =>
    rw [List.foldlM_cons, writeLinks, List.flatMap_cons]
    refine Reads.bind ?_ (ih (if node.linkSet index then start.setLink (node.link index) index else start))
    by_cases set : node.linkSet index = true
    · rw [deserializeLink_set ((bit_linksMask node index).mpr set), if_pos set, if_pos set]
      exact ((Codec.array 32).reads SerializerError.fileIoError (node.link index)).mapped (start.setLink · index)
    · rw [deserializeLink_unset (mt (bit_linksMask node index).mp set), if_neg set, if_neg set]
      exact Reads.pure start

/-- The links that are read are those of the loaded node, which has no other links. -/
theorem deserializeLinks_inverts {mask : UInt16} {indexes : List (Fin 16)} (nodup : indexes.Nodup) (start : PackedBranchTreeNode)
    {bytes rest : List UInt8} {loaded : PackedBranchTreeNode}
    (read : indexes.foldlM (deserializeLink mask) start bytes = .ok (loaded, rest)) :
    bytes = (indexes.flatMap fun index => if bit mask index then (loaded.link index).toList else []) ++ rest ∧
      loaded.path = start.path ∧ (∀ index, loaded.linkSet index = (start.linkSet index || decide (index ∈ indexes ∧ bit mask index))) ∧
      ∀ index, index ∉ indexes → loaded.link index = start.link index := by
  induction indexes generalizing start bytes with
  | nil =>
    cases read
    simp
  | cons index indexes ih =>
    rw [List.foldlM_cons] at read
    obtain ⟨next, middle, first, second⟩ := bind_eq_ok read
    rw [List.nodup_cons] at nodup
    obtain ⟨remaining, path, sets, others⟩ := ih nodup.2 next second
    by_cases set : bit mask index
    · rw [deserializeLink_set set] at first
      obtain ⟨link, after, third, fourth⟩ := bind_eq_ok first
      cases fourth
      have own := others index nodup.1
      rw [link_setLink, if_pos rfl] at own
      refine ⟨?_, path, fun other => ?_, fun other absent => ?_⟩
      · rw [(Codec.array_exact 32).inverts _ bytes link middle third, remaining, List.flatMap_cons, if_pos set, own,
          List.append_assoc]
        rfl
      · rw [sets, linkSet_setLink]
        by_cases same : other = index
        · subst same
          simp [set]
        · simp [same]
      · rw [List.mem_cons, not_or] at absent
        rw [others other absent.2, link_setLink, if_neg absent.1]
    · rw [deserializeLink_unset set] at first
      cases first
      refine ⟨?_, path, fun other => ?_, fun other absent => others other (List.not_mem_of_not_mem_cons absent)⟩
      · rw [List.flatMap_cons, if_neg set]
        exact remaining
      · rw [sets]
        by_cases same : other = index
        · subst same
          simp [set, nodup.1]
        · simp [same]

/-- A branch that was written is read back with the same nibbles, links and bits. -/
theorem deserializeBranch_reads {branch : PackedBranchTreeNode} (short : branch.path.size ≤ 255) :
    ∃ loaded, Reads deserializeBranch
        (serializePath branch.path ++ Codec.word16.write (linksMask branch) ++ writeLinks branch (List.finRange 16)) loaded ∧
      loaded.path.toTreeNodePath = branch.path.toTreeNodePath ∧ loaded.linkSet = branch.linkSet ∧
        ∀ index, loaded.link index = branch.link index := by
  rw [← branch.path.length_toTreeNodePath] at short
  obtain ⟨path, reads, nibbles⟩ := deserializePath_reads short
  refine ⟨copyLinks branch (.ofPath path) (List.finRange 16), ?_, ?_, ?_, ?_⟩
  · rw [serializePath_eq, ← branch.path.length_toTreeNodePath, List.append_assoc]
    exact reads.bind ((Codec.word16.reads _ (linksMask branch)).bind (deserializeLinks_reads branch _ _))
  · rw [copyLinks_path]
    exact nibbles
  · funext index
    rw [copyLinks_linkSet, decide_eq_true (List.mem_finRange index), Bool.true_and]
    exact Bool.false_or _
  · intro index
    rw [copyLinks_link]
    split
    · rfl
    · next unset =>
      have cleared : branch.linkSet index = false := Bool.eq_false_iff.mpr fun set => unset ⟨List.mem_finRange index, set⟩
      rw [link_cleared cleared]
      exact link_cleared rfl

theorem deserializeBranch_inverts : Inverts deserializeBranch fun branch =>
    serializePath branch.path ++ Codec.word16.write (linksMask branch) ++ writeLinks branch (List.finRange 16) := by
  intro bytes branch rest read
  obtain ⟨path, middle, first, second⟩ := bind_eq_ok read
  obtain ⟨mask, links, third, fourth⟩ := bind_eq_ok second
  obtain ⟨remaining, same, sets, _⟩ := deserializeLinks_inverts (List.nodup_finRange 16) (.ofPath path) fourth
  have bits (index : Fin 16) : branch.linkSet index = decide (bit mask index) := by
    rw [sets, decide_eq_decide.mpr (and_iff_right (List.mem_finRange index))]
    exact Bool.false_or _
  have written : (List.finRange 16).flatMap (fun index => if bit mask index then (branch.link index).toList else []) =
      writeLinks branch (List.finRange 16) := by
    unfold writeLinks
    congr 1
    funext index
    rw [bits]
    simp only [decide_eq_true_eq]
  change bytes = serializePath branch.path ++ Codec.word16.write (linksMask branch) ++ writeLinks branch (List.finRange 16) ++ rest
  rw [deserializePath_inverts bytes path middle first, Codec.word16_exact.inverts _ middle mask links third, remaining, written,
    same, linksMask_eq bits, List.append_assoc, List.append_assoc]
  rfl

/-- Two nodes agree in what can be read from them. -/
def SameNode : PackedTreeNode → PackedTreeNode → Prop
  | .empty, .empty => True
  | .leaf first, .leaf second => first.path.toTreeNodePath = second.path.toTreeNodePath ∧ first.value = second.value
  | .branch first, .branch second =>
    first.path.toTreeNodePath = second.path.toTreeNodePath ∧ first.linkSet = second.linkSet ∧
      ∀ index, first.link index = second.link index
  | _, _ => False

/-- The paths of keys have at most this many nibbles. -/
def Short : PackedTreeNode → Prop
  | .empty => True
  | .leaf node => node.path.size ≤ 255
  | .branch node => node.path.size ≤ 255

theorem SameNode.symm {first second : PackedTreeNode} (same : SameNode first second) : SameNode second first := by
  cases first <;> cases second <;> simp_all [SameNode]

theorem SameNode.trans {first second third : PackedTreeNode} (left : SameNode first second) (right : SameNode second third) :
    SameNode first third := by
  cases first <;> cases second <;> cases third <;> simp_all [SameNode]

/-- The hash of a node does not depend on how its path is packed. -/
theorem SameNode.hash_eq {first second : PackedTreeNode} (same : SameNode first second) : first.hash = second.hash := by
  unfold PackedTreeNode.hash
  match first, second, same with
  | .empty, .empty, _ => rfl
  | .leaf first, .leaf second, ⟨path, value⟩ => rw [PackedTreeNode.toTreeNode, PackedTreeNode.toTreeNode, path, value]
  | .branch first, .branch second, ⟨path, _, links⟩ =>
    rw [PackedTreeNode.toTreeNode, PackedTreeNode.toTreeNode, TreeNode.hash, TreeNode.hash, path]
    exact congrArg (fun links => Sha3.sha3_256 (branchMessage _ links)) (funext links)

/-- A node that was written is read back as the same node, and the bytes behind it are not read. -/
theorem deserializeValue_reads {node : PackedTreeNode} (short : Short node) {bytes : List UInt8} (written : serializeValue node = .ok bytes) :
    ∃ loaded, Reads deserializeValue bytes loaded ∧ SameNode loaded node := by
  cases node with
  | empty => cases written
  | leaf leaf =>
    cases written
    obtain ⟨path, reads, nibbles⟩ := deserializeLeaf_reads short
    exact ⟨.leaf ⟨path, leaf.value⟩, readValue_word8 _ _ (reads.mapped PackedTreeNode.leaf), nibbles, rfl⟩
  | branch branch =>
    cases written
    obtain ⟨loaded, reads, nibbles, sets, links⟩ := deserializeBranch_reads short
    exact ⟨.branch loaded, readValue_word8 _ _ (reads.mapped PackedTreeNode.branch), nibbles, sets, links⟩

/-- The bytes of a node that was read are those that are written for it. -/
theorem deserializeValue_inverts {bytes rest : List UInt8} {loaded : PackedTreeNode}
    (read : deserializeValue bytes = .ok (loaded, rest)) : ∃ taken, serializeValue loaded = .ok taken ∧ bytes = taken ++ rest := by
  obtain ⟨nodeMarker, middle, first, second⟩ := bind_eq_ok read
  have marked := readValue_inverts bytes nodeMarker middle first
  by_cases isLeaf : nodeMarker = 0xFF
  · rw [if_pos isLeaf] at second
    obtain ⟨leaf, last, third, fourth⟩ := bind_eq_ok second
    cases fourth
    refine ⟨_, rfl, ?_⟩
    rw [marked, isLeaf, deserializeLeaf_inverts middle leaf rest third]
    rfl
  · rw [if_neg isLeaf] at second
    by_cases isBranch : nodeMarker = 0x00
    · rw [if_pos isBranch] at second
      obtain ⟨branch, last, third, fourth⟩ := bind_eq_ok second
      cases fourth
      refine ⟨_, rfl, ?_⟩
      rw [marked, isBranch, deserializeBranch_inverts middle branch rest third]
      rfl
    · rw [if_neg isBranch] at second
      cases second

/-- Every node except the empty one is written, read back with the same hash and determined by its bytes. -/
theorem serialized_nodes_round_trip : (∀ node, Short node → node ≠ .empty → ∃ bytes loaded, serializeValue node = .ok bytes ∧
      (∀ rest, deserializeValue (bytes ++ rest) = .ok (loaded, rest)) ∧ SameNode loaded node ∧ loaded.hash = node.hash) ∧
    (∀ bytes rest loaded, deserializeValue bytes = .ok (loaded, rest) →
      ∃ taken, serializeValue loaded = .ok taken ∧ bytes = taken ++ rest) ∧
    (∀ first second bytes, Short first → Short second → serializeValue first = .ok bytes → serializeValue second = .ok bytes →
      SameNode first second) := by
  refine ⟨fun node short some => ?_, fun bytes rest loaded => deserializeValue_inverts, fun first second bytes left right => ?_⟩
  · obtain ⟨bytes, written⟩ : ∃ bytes, serializeValue node = .ok bytes := by
      cases node with
      | empty => exact absurd rfl some
      | leaf leaf => exact ⟨_, rfl⟩
      | branch branch => exact ⟨_, rfl⟩
    obtain ⟨loaded, reads, same⟩ := deserializeValue_reads short written
    exact ⟨bytes, loaded, written, reads, same, same.hash_eq⟩
  · intro one other
    obtain ⟨loaded, reads, same⟩ := deserializeValue_reads left one
    obtain ⟨again, rereads, equal⟩ := deserializeValue_reads right other
    have unique := (reads []).symm.trans (rereads [])
    cases unique
    exact same.symm.trans equal

end PatriciaTreeSerializer

end Catapult.Tree
