import Catapult.Construction.Tree.TreeNode

/-
This file shows that the message of a node determines the node.
-/

namespace Catapult.Tree

/-- The plain encoding packs the nibbles pairwise. -/
def packed : TreeNodePath → List UInt8
  | high :: low :: rest => packNibbles high low :: packed rest
  | _ => []

/-- The working buffer does not change the bytes that reach the hash builder. -/
theorem encodedKeyLoop_eq (buffer fed : List UInt8) (path : TreeNodePath) :
    encodedKeyLoop buffer fed path = fed ++ buffer ++ packed path := by
  induction path using packed.induct generalizing buffer fed with
  | case1 high low rest ih =>
    simp only [encodedKeyLoop, packed]
    split
    · simp [ih]
    · simp [ih]
  | case2 path short =>
    rw [encodedKeyLoop, packed]
    · by_cases empty : buffer = [] <;> simp [empty]
    · exact short
    · exact short

/-- The encoded key is the flag byte followed by the packed nibbles. -/
theorem updateEncodedKey_eq (path : TreeNodePath) (isLeaf : Bool) : updateEncodedKey path isLeaf =
      encodedKeyFlag path isLeaf :: packed (path.drop (path.length % 2)) := by
  simp [updateEncodedKey, encodedKeyLoop_eq]

/-- A packed byte determines both of its nibbles. -/
theorem packNibbles_injective {high low high' low' : Nibble}
    (same : packNibbles high low = packNibbles high' low') : high = high' ∧ low = low' := by
  have read (first second : Nibble) : (packNibbles first second).toNat = 16 * first.val + second.val := by
    have bound := first.isLt
    have bound' := second.isLt
    simp only [packNibbles, Nat.shiftLeft_eq, UInt8.toNat_ofNat']
    omega
  have equal := congrArg UInt8.toNat same
  rw [read, read] at equal
  have := low.isLt
  have := low'.isLt
  constructor <;> apply Fin.ext <;> omega

/-- Packing is injective on paths of even length. -/
theorem packed_injective {path path' : TreeNodePath} (even : path.length % 2 = 0)
    (even' : path'.length % 2 = 0) (same : packed path = packed path') : path = path' := by
  induction path using packed.induct generalizing path' with
  | case1 high low rest ih =>
    match path', even', same with
    | [], _, same => simp [packed] at same
    | [_], even', _ => simp at even'
    | high' :: low' :: rest', even', same =>
      simp only [packed, List.cons.injEq] at same
      obtain ⟨rfl, rfl⟩ := packNibbles_injective same.1
      simp only [List.length_cons] at even even'
      rw [ih (by omega) (by omega) same.2]
  | case2 path short =>
    match path, even, short with
    | [], _, _ =>
      match path', even', same with
      | [], _, _ => rfl
      | [_], even', _ => simp at even'
      | _ :: _ :: _, _, same => simp [packed] at same
    | [_], even, _ => simp at even
    | high :: low :: rest, _, short => exact absurd rfl (short high low rest)

/-- The flag byte determines the node type, the parity and the first nibble of an odd path. -/
theorem flagByte_injective : ∀ (isLeaf isLeaf' : Bool) (nibble nibble' : Nibble),
    ((if isLeaf then 0x20 else 0 : UInt8) ||| 0x10 ||| UInt8.ofNat nibble.val =
        (if isLeaf' then 0x20 else 0) ||| 0x10 ||| UInt8.ofNat nibble'.val →
      isLeaf = isLeaf' ∧ nibble = nibble') ∧
    ((if isLeaf then 0x20 else 0 : UInt8) ||| 0x10 ||| UInt8.ofNat nibble.val ≠
        if isLeaf' then 0x20 else 0) ∧
    ((if isLeaf then 0x20 else 0 : UInt8) = (if isLeaf' then 0x20 else 0) → isLeaf = isLeaf') := by
  decide

/-- The flag byte of an odd path merges in the first nibble. -/
theorem encodedKeyFlag_odd (nibble : Nibble) (rest : TreeNodePath) (isLeaf : Bool)
    (odd : (nibble :: rest).length % 2 = 1) : encodedKeyFlag (nibble :: rest) isLeaf =
      (if isLeaf then 0x20 else 0) ||| 0x10 ||| UInt8.ofNat nibble.val := by
  rw [encodedKeyFlag]
  exact if_pos odd

/-- The flag byte of an even path holds only the leaf flag. -/
theorem encodedKeyFlag_even (path : TreeNodePath) (isLeaf : Bool) (even : path.length % 2 = 0) :
    encodedKeyFlag path isLeaf = if isLeaf then 0x20 else 0 := by
  cases path with
  | nil => rfl
  | cons nibble rest =>
    rw [encodedKeyFlag]
    exact if_neg (by omega)

/-- Equal flag bytes belong to paths of the same parity with the same odd nibble. -/
theorem encodedKeyFlag_injective {path path' : TreeNodePath} {isLeaf isLeaf' : Bool}
    (same : encodedKeyFlag path isLeaf = encodedKeyFlag path' isLeaf') :
    isLeaf = isLeaf' ∧ path.take (path.length % 2) = path'.take (path'.length % 2) := by
  rcases Nat.mod_two_eq_zero_or_one path.length with even | odd <;>
    rcases Nat.mod_two_eq_zero_or_one path'.length with even' | odd'
  · rw [encodedKeyFlag_even _ _ even, encodedKeyFlag_even _ _ even'] at same
    exact ⟨(flagByte_injective _ _ 0 0).2.2 same, by rw [even, even', List.take_zero, List.take_zero]⟩
  · cases path' with
    | nil => simp at odd'
    | cons nibble' rest' =>
      rw [encodedKeyFlag_even _ _ even, encodedKeyFlag_odd _ _ _ odd'] at same
      exact absurd same.symm (flagByte_injective _ _ _ nibble').2.1
  · cases path with
    | nil => simp at odd
    | cons nibble rest =>
      rw [encodedKeyFlag_odd _ _ _ odd, encodedKeyFlag_even _ _ even'] at same
      exact absurd same (flagByte_injective _ _ _ nibble).2.1
  · cases path with
    | nil => simp at odd
    | cons nibble rest =>
      cases path' with
      | nil => simp at odd'
      | cons nibble' rest' =>
        rw [encodedKeyFlag_odd _ _ _ odd, encodedKeyFlag_odd _ _ _ odd'] at same
        obtain ⟨types, nibbles⟩ := (flagByte_injective _ _ _ _).1 same
        exact ⟨types, by rw [odd, odd', nibbles]; rfl⟩

/-- The encoded key determines the path and the node type. -/
theorem updateEncodedKey_injective {path path' : TreeNodePath} {isLeaf isLeaf' : Bool}
    (same : updateEncodedKey path isLeaf = updateEncodedKey path' isLeaf') : path = path' ∧ isLeaf = isLeaf' := by
  rw [updateEncodedKey_eq, updateEncodedKey_eq, List.cons.injEq] at same
  obtain ⟨types, heads⟩ := encodedKeyFlag_injective same.1
  have dropEven (list : TreeNodePath) : (list.drop (list.length % 2)).length % 2 = 0 := by
    rw [List.length_drop]; omega
  have tails := packed_injective (dropEven path) (dropEven path') same.2
  refine ⟨?_, types⟩
  rw [← List.take_append_drop (path.length % 2) path, heads, tails, List.take_append_drop]

/-- The message of a leaf determines the leaf. -/
theorem leafMessage_injective {node node' : LeafTreeNode} (same : leafMessage node = leafMessage node') : node = node' := by
  obtain ⟨keys, values⟩ := List.append_inj' same (by simp)
  obtain ⟨paths, _⟩ := updateEncodedKey_injective keys
  cases node
  cases node'
  simp_all [Vector.toList_inj]

/-- The message of a branch determines its path and all links. -/
theorem branchMessage_injective {path path' : TreeNodePath} {links links' : Fin 16 → Hash256}
    (same : branchMessage path links = branchMessage path' links') : path = path' ∧ links = links' := by
  obtain ⟨keys, tails⟩ := List.append_inj' same (by simp)
  refine ⟨(updateEncodedKey_injective keys).1, ?_⟩
  have lists := List.eq_iff_flatten_eq.mpr ⟨tails, by simp⟩
  funext index
  exact Vector.toList_inj.mp (congrFun (List.ofFn_injective lists) index)

/-- No leaf has the message of a branch. -/
theorem leafMessage_ne_branchMessage (node : LeafTreeNode) (path : TreeNodePath)
    (links : Fin 16 → Hash256) : leafMessage node ≠ branchMessage path links := by
  intro same
  rw [leafMessage, branchMessage, updateEncodedKey_eq, updateEncodedKey_eq, List.cons_append,
    List.cons_append, List.cons.injEq] at same
  exact absurd (encodedKeyFlag_injective same.1).1 (by decide)

end Catapult.Tree
