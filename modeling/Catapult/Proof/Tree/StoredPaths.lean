import Catapult.Construction.Tree.StoredTreeNodePath
import Catapult.Proof.Tree.NodeSerialization

/-
This file shows that paths with shared bytes are lists of nibbles.
-/

namespace Catapult.Tree

theorem byteAt_eq {bytes : List UInt8} {index : Nat} (inside : index < bytes.length) : byteAt bytes index = .ok (bytes.getD index 0) := by
  rw [byteAt, List.getElem?_eq_getElem inside, List.getD_eq_getElem _ _ inside]

theorem byteAt_append (front : List UInt8) (byte : UInt8) (rest : List UInt8) : byteAt (front ++ byte :: rest) front.length = .ok byte := by
  rw [byteAt, List.getElem?_append_right (Nat.le_refl _), Nat.sub_self, List.getElem?_cons_zero]

theorem packNibbles_first : ∀ nibble : UInt8, (0 : UInt8) ||| nibble <<< 4 = packNibbles (Fin.ofNat 16 nibble.toNat) 0 := by
  intro nibble
  apply UInt8.toNat.inj
  rw [UInt8.zero_or, toNat_packNibbles, UInt8.toNat_shiftLeft, Nat.shiftLeft_eq, Fin.val_ofNat]
  change nibble.toNat * 16 % 256 = 16 * (nibble.toNat % 16) + 0
  omega

theorem packNibbles_second (high : Nibble) (nibble : UInt8) :
    packNibbles high 0 ||| (nibble &&& 0x0F) = packNibbles high (Fin.ofNat 16 nibble.toNat) := by
  have masked : nibble &&& 0x0F = UInt8.ofNat (Fin.ofNat 16 nibble.toNat).val := by
    apply UInt8.toNat.inj
    rw [UInt8.toNat_and, UInt8.toNat_ofNat', Fin.val_ofNat]
    change nibble.toNat &&& (2 ^ 4 - 1) = nibble.toNat % 16 % 256
    rw [Nat.and_two_pow_sub_one_eq_mod]
    omega
  rw [masked]
  exact PatriciaTreeSerializer.packNibbles_merge _ _

/-- The nibble of a byte is returned as a byte. -/
theorem ofNat_nibble (nibble : Nibble) : Fin.ofNat 16 (UInt8.ofNat nibble.val).toNat = nibble := by
  have small := nibble.isLt
  apply Fin.ext
  rw [Fin.val_ofNat, UInt8.toNat_ofNat']
  omega

theorem highNibble (byte : UInt8) : (byte &&& 0xF0) >>> 4 = UInt8.ofNat (Fin.ofNat 16 ((byte &&& 0xF0) >>> 4).toNat).val := by
  have small : ((byte &&& 0xF0) >>> 4).toNat < 16 := by
    rw [UInt8.toNat_shiftRight]
    change (byte &&& 0xF0).toNat >>> 4 < 16
    rw [Nat.shiftRight_eq_div_pow]
    have := (byte &&& 0xF0).toNat_lt
    omega
  rw [Fin.val_ofNat, Nat.mod_eq_of_lt small, UInt8.ofNat_toNat]

theorem lowNibble (byte : UInt8) : byte &&& 0x0F = UInt8.ofNat (Fin.ofNat 16 (byte &&& 0x0F).toNat).val := by
  have small : (byte &&& 0x0F).toNat < 16 := by
    rw [UInt8.toNat_and]
    exact Nat.lt_succ_of_le Nat.and_le_right
  rw [Fin.val_ofNat, Nat.mod_eq_of_lt small, UInt8.ofNat_toNat]

section Paths

/-- A path with covered nibbles is stored without its proofs. -/
def PackedTreeNodePath.stored (path : PackedTreeNodePath) : StoredTreeNodePath := ⟨path.size, path.adjustment, path.path⟩

/-- Foreign nibbles in the first and the last byte are not represented. -/
def HasNibbles (path : StoredTreeNodePath) (nibbles : TreeNodePath) : Prop :=
  ∃ packed : PackedTreeNodePath, packed.stored = path ∧ packed.toTreeNodePath = nibbles

variable {path lhs rhs : StoredTreeNodePath} {nibbles left right : TreeNodePath}

theorem hasNibbles_ofKey (key : List UInt8) : HasNibbles (.ofKey key) (TreeNodePath.ofKey key) :=
  ⟨PackedTreeNodePath.ofKey key, rfl, PackedTreeNodePath.toTreeNodePath_ofKey key⟩

namespace HasNibbles

theorem size (represents : HasNibbles path nibbles) : path.size = nibbles.length := by
  obtain ⟨packed, rfl, rfl⟩ := represents
  exact packed.length_toTreeNodePath.symm

theorem nibbleAt (represents : HasNibbles path nibbles) {index : Nat} (inside : index < nibbles.length) :
    path.nibbleAt index = .ok (UInt8.ofNat nibbles[index].val) := by
  obtain ⟨packed, rfl, rfl⟩ := represents
  have below : index < packed.size := by rwa [packed.length_toTreeNodePath] at inside
  rw [PackedTreeNodePath.getElem_toTreeNodePath]
  change byteAt packed.path ((index + packed.adjustment) / 2) >>= _ = _
  rw [byteAt_eq (packed.nibble_inside below), PackedTreeNodePath.nibbleAt]
  by_cases even : (index + packed.adjustment) % 2 = 0
  · rw [if_pos even]
    change Except.ok (if (index + packed.adjustment) % 2 = 0 then _ else _) = _
    rw [if_pos even]
    exact congrArg Except.ok (highNibble _)
  · rw [if_neg even]
    change Except.ok (if (index + packed.adjustment) % 2 = 0 then _ else _) = _
    rw [if_neg even]
    exact congrArg Except.ok (lowNibble _)

/-- The bytes of a part of a path lie inside the bytes of the path. -/
theorem ofRange {bytes : List UInt8} {offset size : Nat} (inside : offset + size ≤ 2 * bytes.length) :
    StoredTreeNodePath.ofRange bytes offset size = .ok (PackedTreeNodePath.ofRange bytes offset size inside).stored := by
  unfold StoredTreeNodePath.ofRange PackedTreeNodePath.ofRange PackedTreeNodePath.stored
  by_cases empty : size = 0
  · simp only [empty, if_true]
    rfl
  · have enough : offset / 2 + calculateByteSize offset size ≤ bytes.length := by
      unfold calculateByteSize
      split <;> omega
    simp only [if_neg empty, if_pos enough]
    rfl

theorem subpath (represents : HasNibbles path nibbles) {offset size : Nat} (inside : offset + size ≤ nibbles.length) :
    ∃ part, path.subpath offset size = .ok part ∧ HasNibbles part ((nibbles.drop offset).take size) := by
  obtain ⟨packed, rfl, rfl⟩ := represents
  rw [packed.length_toTreeNodePath] at inside
  have covered := packed.covered
  exact ⟨_, ofRange (show offset + packed.adjustment + size ≤ 2 * packed.path.length by omega), packed.subpath offset size inside, rfl, packed.toTreeNodePath_subpath inside⟩

theorem subpathFrom (represents : HasNibbles path nibbles) {offset : Nat} (inside : offset ≤ nibbles.length) :
    ∃ part, path.subpathFrom offset = .ok part ∧ HasNibbles part (nibbles.drop offset) := by
  obtain ⟨part, split, rest⟩ := represents.subpath (show offset + (path.size - offset) ≤ nibbles.length by
    rw [represents.size]
    omega)
  rw [represents.size, List.take_of_length_le (by rw [List.length_drop])] at rest
  exact ⟨part, split, rest⟩

/-- Only the nibbles of a path matter, whatever else its bytes hold. -/
theorem congr (represents : HasNibbles path nibbles) {bytes : List UInt8} (length : bytes.length = path.path.length)
    (same : ∀ index < path.size, StoredTreeNodePath.nibbleAt { path with path := bytes } index = path.nibbleAt index) :
    HasNibbles { path with path := bytes } nibbles := by
  obtain ⟨packed, rfl, rfl⟩ := represents
  let changed : PackedTreeNodePath := ⟨packed.size, packed.adjustment, bytes, packed.aligned, by rw [length]; exact packed.covered⟩
  have own : HasNibbles packed.stored packed.toTreeNodePath := ⟨packed, rfl, rfl⟩
  have other : HasNibbles changed.stored changed.toTreeNodePath := ⟨changed, rfl, rfl⟩
  refine ⟨changed, rfl, List.ext_getElem ?_ fun index left right => ?_⟩
  · rw [changed.length_toTreeNodePath, packed.length_toTreeNodePath]
  · have read := same index (by rwa [packed.length_toTreeNodePath] at right)
    have values := (other.nibbleAt left).symm.trans (read.trans (own.nibbleAt right))
    rw [← ofNat_nibble changed.toTreeNodePath[index], Except.ok.inj values, ofNat_nibble]

end HasNibbles

end Paths

section Joins

/-- The added nibbles are packed in front of zeros. -/
def Packs (builder : JoinBuilder) (nibbles : TreeNodePath) (size : Nat) : Prop :=
  builder.index = nibbles.length ∧ builder.path.length = size ∧ ∃ rest, builder.path = packPath nibbles ++ List.replicate rest 0

theorem packs_ofSize (size : Nat) : Packs (JoinBuilder.ofSize size) [] size := ⟨rfl, List.length_replicate, size, rfl⟩

/-- The byte at the front is replaced. -/
theorem set_append (front : List UInt8) (byte value : UInt8) (rest : List UInt8) :
    (front ++ byte :: rest).set front.length value = front ++ value :: rest := by
  rw [List.set_append_right _ _ (Nat.le_refl _), Nat.sub_self, List.set_cons_zero]

theorem addNibble_eq {front rest : List UInt8} {index : Nat} (position : index / 2 = front.length) (byte nibble : UInt8) :
    JoinBuilder.addNibble ⟨index, front ++ byte :: rest⟩ nibble =
      .ok ⟨index + 1, front ++ (byte ||| if index % 2 ≠ 0 then nibble &&& 0x0F else nibble <<< 4) :: rest⟩ := by
  unfold JoinBuilder.addNibble
  simp only [position, byteAt_append, set_append]
  rfl

theorem Packs.addNibble {builder : JoinBuilder} {nibbles : TreeNodePath} {size : Nat} (packs : Packs builder nibbles size)
    (room : nibbles.length < 2 * size) (nibble : UInt8) :
    ∃ next, builder.addNibble nibble = .ok next ∧ Packs next (nibbles ++ [Fin.ofNat 16 nibble.toNat]) size := by
  obtain ⟨index, path⟩ := builder
  obtain ⟨counted, length, rest, packed⟩ := packs
  simp only at counted length packed
  subst counted packed
  have bytes := length_packPath nibbles
  rcases Nat.mod_two_eq_zero_or_one nibbles.length with even | odd
  · have position : nibbles.length / 2 = (packPath nibbles).length := by omega
    cases rest with
    | zero =>
      rw [List.length_append, List.length_replicate] at length
      omega
    | succ rest =>
      rw [List.replicate_succ] at length ⊢
      refine ⟨⟨nibbles.length + 1, packPath nibbles ++ packNibbles (Fin.ofNat 16 nibble.toNat) 0 :: List.replicate rest 0⟩, ?_, ?_, ?_, rest, ?_⟩
      · rw [addNibble_eq position, if_neg (not_not_intro even), packNibbles_first]
      · rw [List.length_append, List.length_singleton]
      · rw [← length, List.length_append, List.length_append, List.length_cons, List.length_cons]
      · rw [packPath_append even, List.append_assoc]
        rfl
  · obtain ⟨front, last, rfl⟩ : ∃ front last, nibbles = front ++ [last] :=
      ⟨nibbles.dropLast, nibbles.getLast (List.ne_nil_of_length_pos (by omega)), (List.dropLast_append_getLast _).symm⟩
    rw [List.length_append, List.length_singleton] at odd
    have even : front.length % 2 = 0 := by omega
    have position : (front ++ [last]).length / 2 = (packPath front).length := by
      rw [length_packPath, List.length_append, List.length_singleton]
    have bytes : packPath (front ++ [last]) ++ List.replicate rest 0 = packPath front ++ packNibbles last 0 :: List.replicate rest 0 := by
      rw [packPath_append even, List.append_assoc]
      rfl
    have parity : (front ++ [last]).length % 2 ≠ 0 := by
      rw [List.length_append, List.length_singleton]
      omega
    rw [bytes] at length ⊢
    refine ⟨⟨(front ++ [last]).length + 1, packPath front ++ packNibbles last (Fin.ofNat 16 nibble.toNat) :: List.replicate rest 0⟩, ?_, ?_, ?_,
      rest, ?_⟩
    · rw [addNibble_eq position, if_pos parity, packNibbles_second]
    · rw [@List.length_append _ (front ++ [last])]
      rfl
    · rw [← length, List.length_append, List.length_append, List.length_cons, List.length_cons]
    · rw [List.append_assoc, packPath_append even, List.append_assoc]
      rfl

theorem Packs.addNibbles {builder : JoinBuilder} {front nibbles : TreeNodePath} {size : Nat} (packs : Packs builder front size)
    {path : StoredTreeNodePath} (represents : HasNibbles path nibbles) (countable : nibbles.length < 2 ^ 32)
    (room : front.length + nibbles.length ≤ 2 * size) :
    ∃ next, builder.addNibbles path = .ok next ∧ Packs next (front ++ nibbles) size := by
  obtain ⟨final, position, ran, outside, inside, joined⟩ :=
    @CountedLoop.run_invariant _ _ .endless path.size 1 (fun index builder => do builder.addNibble (← path.nibbleAt index.toNat))
      (fun position state => position ≤ nibbles.length ∧ Packs state (front ++ nibbles.take position) size) (by decide)
      (fun index state below ⟨_, joined⟩ => by
        have following : index.toNat + (1 : UInt32).toNat = index.toNat + 1 := rfl
        rw [represents.size] at below
        obtain ⟨next, added, packs⟩ := joined.addNibble (by
          rw [List.length_append, List.length_take]
          omega) (UInt8.ofNat nibbles[index.toNat].val)
        refine ⟨by omega, next, ?_, by omega, ?_⟩
        · rw [represents.nibbleAt below]
          exact added
        · rwa [following, List.take_succ_eq_append_getElem below, ← List.append_assoc, ← ofNat_nibble nibbles[index.toNat]])
      0 builder ⟨Nat.zero_le _, by rwa [UInt32.toNat_zero, List.take_zero, List.append_nil]⟩
  rw [represents.size] at outside
  exact ⟨final, ran, by rwa [List.take_of_length_le outside] at joined⟩

/-- A builder that is full holds the path. -/
theorem Packs.ofRange {builder : JoinBuilder} {nibbles : TreeNodePath} (packs : Packs builder nibbles ((nibbles.length + 1) / 2)) :
    ∃ path, StoredTreeNodePath.ofRange builder.path 0 nibbles.length = .ok path ∧ HasNibbles path nibbles := by
  obtain ⟨-, length, rest, packed⟩ := packs
  have full : builder.path = packPath nibbles := by
    rw [packed, List.length_append, length_packPath, List.length_replicate] at length
    rw [packed, show rest = 0 by omega, List.replicate_zero, List.append_nil]
  have represents := hasNibbles_ofKey builder.path
  obtain ⟨path, whole, part⟩ := @HasNibbles.subpath _ _ represents 0 nibbles.length (by
    rw [length_ofKey]
    omega)
  refine ⟨path, whole, ?_⟩
  rwa [full, ofKey_packPath, List.drop_zero, List.take_left] at part

variable {lhs rhs : StoredTreeNodePath} {left right : TreeNodePath}

theorem HasNibbles.join (first : HasNibbles lhs left) (second : HasNibbles rhs right) (leftCountable : left.length < 2 ^ 32)
    (rightCountable : right.length < 2 ^ 32) : ∃ path, lhs.join rhs = .ok path ∧ HasNibbles path (left ++ right) := by
  have length : (left ++ right).length = left.length + right.length := List.length_append
  obtain ⟨middle, addedLeft, packsLeft⟩ := (packs_ofSize ((lhs.size + rhs.size + 1) / 2)).addNibbles first leftCountable (by
    rw [first.size, second.size, List.length_nil]
    omega)
  obtain ⟨builder, addedRight, packs⟩ := packsLeft.addNibbles second rightCountable (by
    rw [first.size, second.size, List.length_append, List.length_nil]
    omega)
  rw [List.nil_append, first.size, second.size, ← length] at packs
  obtain ⟨path, whole, represents⟩ := packs.ofRange
  refine ⟨path, ?_, represents⟩
  rw [length, ← first.size, ← second.size] at whole
  change (_ >>= fun builder : JoinBuilder => builder.addNibbles rhs >>= fun builder : JoinBuilder => StoredTreeNodePath.ofRange builder.path 0 _) = _
  rw [addedLeft]
  change (middle.addNibbles rhs >>= _) = _
  rw [addedRight]
  exact whole

theorem HasNibbles.joinWith (first : HasNibbles lhs left) (second : HasNibbles rhs right) (leftCountable : left.length < 2 ^ 32)
    (rightCountable : right.length < 2 ^ 32) (nibble : UInt8) :
    ∃ path, lhs.joinWith nibble rhs = .ok path ∧ HasNibbles path (left ++ Fin.ofNat 16 nibble.toNat :: right) := by
  have length : (left ++ Fin.ofNat 16 nibble.toNat :: right).length = left.length + 1 + right.length := by
    rw [List.length_append, List.length_cons]
    omega
  obtain ⟨start, addedLeft, packsLeft⟩ := (packs_ofSize ((lhs.size + 1 + rhs.size + 1) / 2)).addNibbles first leftCountable (by
    rw [first.size, second.size, List.length_nil]
    omega)
  obtain ⟨middle, addedNibble, packsMiddle⟩ := packsLeft.addNibble (by
    rw [first.size, second.size, List.length_append, List.length_nil]
    omega) nibble
  obtain ⟨builder, addedRight, packs⟩ := packsMiddle.addNibbles second rightCountable (by
    rw [first.size, second.size, List.length_append, List.length_append, List.length_nil, List.length_singleton]
    omega)
  rw [List.nil_append, List.append_assoc, List.singleton_append, first.size, second.size, ← length] at packs
  obtain ⟨path, whole, represents⟩ := packs.ofRange
  refine ⟨path, ?_, represents⟩
  rw [length, ← first.size, ← second.size] at whole
  change (_ >>= fun builder : JoinBuilder => builder.addNibble nibble >>= fun builder => builder.addNibbles rhs >>= fun builder =>
    StoredTreeNodePath.ofRange builder.path 0 _) = _
  rw [addedLeft]
  change (start.addNibble nibble >>= _) = _
  rw [addedNibble]
  change (middle.addNibbles rhs >>= _) = _
  rw [addedRight]
  exact whole

end Joins

variable {lhs rhs : StoredTreeNodePath} {left right : TreeNodePath}

/-- The length of the longest common prefix of two paths. -/
def IsCommonPrefixLength (left right : TreeNodePath) (length : Nat) : Prop :=
  length ≤ left.length ∧ length ≤ right.length ∧ left.take length = right.take length ∧
    ∀ longer, longer ≤ left.length → longer ≤ right.length → left.take longer = right.take longer → longer ≤ length

theorem findFirstDifferenceIndex_common (left right : TreeNodePath) :
    IsCommonPrefixLength left right (findFirstDifferenceIndex left right) := by
  induction left, right using findFirstDifferenceIndex.induct with
  | case1 left nibble right ih =>
    obtain ⟨leftInside, rightInside, shared, longest⟩ := ih
    rw [findFirstDifferenceIndex, if_pos rfl]
    refine ⟨Nat.succ_le_succ leftInside, Nat.succ_le_succ rightInside, congrArg (nibble :: ·) shared, fun longer first second same => ?_⟩
    cases longer with
    | zero => exact Nat.zero_le _
    | succ longer =>
      exact Nat.succ_le_succ (longest longer (Nat.le_of_succ_le_succ first) (Nat.le_of_succ_le_succ second) (List.cons.inj same).2)
  | case2 first left second right apart =>
    rw [findFirstDifferenceIndex, if_neg apart]
    refine ⟨Nat.zero_le _, Nat.zero_le _, rfl, fun longer _ _ same => ?_⟩
    cases longer with
    | zero => exact Nat.le_refl _
    | succ longer => exact absurd (List.cons.inj same).1 apart
  | case3 left right short =>
    rw [findFirstDifferenceIndex]
    · refine ⟨Nat.zero_le _, Nat.zero_le _, rfl, fun longer first second _ => ?_⟩
      cases left with
      | nil => exact first
      | cons nibble rest =>
        cases right with
        | nil => exact second
        | cons other others => exact (short nibble rest other others rfl rfl).elim
    · exact short

/-- The comparison goes on behind the nibbles that are equal. -/
theorem HasNibbles.firstDifferenceFrom (first : HasNibbles lhs left) (second : HasNibbles rhs right) (remaining index : Nat)
    (last : index + remaining = min left.length right.length) : StoredTreeNodePath.firstDifferenceFrom lhs rhs remaining index =
      .ok (index + findFirstDifferenceIndex (left.drop index) (right.drop index)) := by
  induction remaining generalizing index with
  | zero =>
    have ended : left.drop index = [] ∨ right.drop index = [] := by
      rw [List.drop_eq_nil_iff, List.drop_eq_nil_iff]
      omega
    have none : findFirstDifferenceIndex (left.drop index) (right.drop index) = 0 := by
      rcases ended with ended | ended
      · rw [ended]
        rfl
      · rw [ended]
        cases left.drop index <;> rfl
    rw [none]
    rfl
  | succ remaining ih =>
    have leftInside : index < left.length := by omega
    have rightInside : index < right.length := by omega
    rw [List.drop_eq_getElem_cons leftInside, List.drop_eq_getElem_cons rightInside, findFirstDifferenceIndex]
    have compared : (UInt8.ofNat left[index].val = UInt8.ofNat right[index].val) ↔ left[index] = right[index] :=
      ⟨fun same => by rw [← ofNat_nibble left[index], same, ofNat_nibble], fun same => by rw [same]⟩
    change (lhs.nibbleAt index >>= fun leftNibble => rhs.nibbleAt index >>= fun rightNibble =>
      if leftNibble = rightNibble then StoredTreeNodePath.firstDifferenceFrom lhs rhs remaining (index + 1) else return index) = _
    rw [first.nibbleAt leftInside, second.nibbleAt rightInside]
    change (if _ then _ else _) = _
    by_cases same : left[index] = right[index]
    · rw [if_pos (compared.mpr same), if_pos same, ih (index + 1) (by omega), Nat.add_assoc, Nat.add_comm 1]
    · rw [if_neg (mt compared.mp same), if_neg same]
      rfl

theorem HasNibbles.findFirstDifferenceIndex (first : HasNibbles lhs left) (second : HasNibbles rhs right) :
    StoredTreeNodePath.findFirstDifferenceIndex lhs rhs = .ok (Tree.findFirstDifferenceIndex left right) := by
  rw [StoredTreeNodePath.findFirstDifferenceIndex, first.size, second.size, first.firstDifferenceFrom second _ 0 (Nat.zero_add _),
    List.drop_zero, List.drop_zero, Nat.zero_add]

/-- Paths are equal if their nibbles are. -/
theorem HasNibbles.equals (first : HasNibbles lhs left) (second : HasNibbles rhs right) :
    StoredTreeNodePath.equals lhs rhs = .ok (decide (left = right)) := by
  obtain ⟨leftInside, rightInside, shared, longest⟩ := findFirstDifferenceIndex_common left right
  rw [StoredTreeNodePath.equals, first.size, second.size, first.findFirstDifferenceIndex second]
  by_cases size : left.length = right.length
  · rw [if_pos size]
    refine congrArg Except.ok (Bool.eq_iff_iff.mpr ?_)
    rw [beq_iff_eq, decide_eq_true_iff]
    constructor
    · intro whole
      rwa [← whole, List.take_of_length_le (Nat.le_refl _), List.take_of_length_le (Nat.le_of_eq size.symm)] at shared
    · rintro rfl
      exact Nat.le_antisymm (longest _ (Nat.le_refl _) (Nat.le_refl _) rfl) leftInside
  · rw [if_neg size, decide_eq_false (fun same => size (congrArg List.length same))]
    rfl

/-- Every path in range is built without an access outside its bytes. -/
theorem build_hasNibbles (term : PathTerm) (inRange : term.InRange) (countable : term.Countable) :
    ∃ path, term.build = .ok path ∧ HasNibbles path term.nibbles := by
  induction term with
  | key bytes => exact ⟨_, rfl, hasNibbles_ofKey bytes⟩
  | scalar bytes => exact ⟨_, rfl, hasNibbles_ofKey bytes.reverse⟩
  | subpath term offset size ih =>
    obtain ⟨path, built, represents⟩ := ih inRange.1 countable
    obtain ⟨part, divided, rest⟩ := represents.subpath inRange.2
    exact ⟨part, by rw [PathTerm.build, built]; exact divided, rest⟩
  | subpathFrom term offset ih =>
    obtain ⟨path, built, represents⟩ := ih inRange.1 countable
    obtain ⟨part, divided, rest⟩ := represents.subpathFrom inRange.2
    exact ⟨part, by rw [PathTerm.build, built]; exact divided, rest⟩
  | join lhs rhs leftIh rightIh =>
    obtain ⟨leftCountable, rightCountable, leftShort, rightShort⟩ := countable
    obtain ⟨left, leftBuilt, first⟩ := leftIh inRange.1 leftCountable
    obtain ⟨right, rightBuilt, second⟩ := rightIh inRange.2 rightCountable
    obtain ⟨path, joined, represents⟩ := first.join second leftShort rightShort
    exact ⟨path, by rw [PathTerm.build, leftBuilt, rightBuilt]; exact joined, represents⟩
  | joinWith lhs nibble rhs leftIh rightIh =>
    obtain ⟨leftCountable, rightCountable, leftShort, rightShort⟩ := countable
    obtain ⟨left, leftBuilt, first⟩ := leftIh inRange.1 leftCountable
    obtain ⟨right, rightBuilt, second⟩ := rightIh inRange.2 rightCountable
    obtain ⟨path, joined, represents⟩ := first.joinWith second leftShort rightShort nibble
    exact ⟨path, by rw [PathTerm.build, leftBuilt, rightBuilt]; exact joined, represents⟩

/-- Paths are lists of nibbles as long as the nibbles of joined paths are counted with 32 bits. -/
theorem treeNodePath_nibbles :
    (∀ term : PathTerm, term.InRange → term.Countable → ∃ path, term.build = .ok path ∧ HasNibbles path term.nibbles) ∧
      (∀ path nibbles, HasNibbles path nibbles → path.size = nibbles.length ∧
        (∀ index : Fin nibbles.length, path.nibbleAt index.val = .ok (UInt8.ofNat nibbles[index].val)) ∧
        (∀ offset size, offset + size ≤ nibbles.length →
          ∃ part, path.subpath offset size = .ok part ∧ HasNibbles part ((nibbles.drop offset).take size)) ∧
        (∀ offset, offset ≤ nibbles.length → ∃ part, path.subpathFrom offset = .ok part ∧ HasNibbles part (nibbles.drop offset)) ∧
        ∀ bytes : List UInt8, bytes.length = path.path.length →
          (∀ index < path.size, StoredTreeNodePath.nibbleAt { path with path := bytes } index = path.nibbleAt index) →
          HasNibbles { path with path := bytes } nibbles) ∧
      ∀ lhs rhs left right, HasNibbles lhs left → HasNibbles rhs right → lhs.equals rhs = .ok (decide (left = right)) ∧
        (∃ length, lhs.findFirstDifferenceIndex rhs = .ok length ∧ IsCommonPrefixLength left right length) ∧
        (left.length < 2 ^ 32 → right.length < 2 ^ 32 → (∃ path, lhs.join rhs = .ok path ∧ HasNibbles path (left ++ right)) ∧
          ∀ nibble, ∃ path, lhs.joinWith nibble rhs = .ok path ∧ HasNibbles path (left ++ Fin.ofNat 16 nibble.toNat :: right)) := by
  refine ⟨build_hasNibbles, fun path nibbles represents => ?_, fun lhs rhs left right first second => ?_⟩
  · exact ⟨represents.size, fun index => represents.nibbleAt index.isLt, fun _ _ => represents.subpath, fun _ => represents.subpathFrom,
      fun _ => represents.congr⟩
  · exact ⟨first.equals second, ⟨_, first.findFirstDifferenceIndex second, findFirstDifferenceIndex_common left right⟩,
      fun leftShort rightShort => ⟨first.join second leftShort rightShort, first.joinWith second leftShort rightShort⟩⟩

/-- A path with more nibbles is not joined. -/
theorem join_ne_ok {lhs : StoredTreeNodePath} (long : 2 ^ 32 ≤ lhs.size) (rhs path : StoredTreeNodePath) : lhs.join rhs ≠ .ok path := by
  intro joined
  change ((JoinBuilder.ofSize ((lhs.size + rhs.size + 1) / 2)).addNibbles lhs >>= _) = _ at joined
  cases added : (JoinBuilder.ofSize ((lhs.size + rhs.size + 1) / 2)).addNibbles lhs with
  | error error =>
    rw [added] at joined
    cases joined
  | ok builder => exact CountedLoop.run_ne_ok long _ _ _ added

theorem build_join_ne_ok {key : List UInt8} (long : 2 ^ 32 ≤ 2 * key.length) (rhs : List UInt8) (path : StoredTreeNodePath) :
    (PathTerm.join (.key key) (.key rhs)).build ≠ .ok path := join_ne_ok long _ path

namespace Samples

/-- The nibbles of this key cannot be counted with 32 bits. -/
def longKey : List UInt8 := List.replicate (2 ^ 31) 0

theorem longKey_length : longKey.length = 2 ^ 31 := List.length_replicate

/-- The join of a path with 2^32 nibbles does not end. -/
theorem longKey_endless : ¬ ∀ term : PathTerm, term.InRange → ∃ path, term.build = .ok path ∧ HasNibbles path term.nibbles := by
  intro all
  obtain ⟨path, built, -⟩ := all (.join (.key longKey) (.key [])) ⟨trivial, trivial⟩
  have long : 2 ^ 32 ≤ 2 * longKey.length := by
    rw [longKey_length]
    decide
  exact build_join_ne_ok long [] path built

end Samples

end Catapult.Tree
