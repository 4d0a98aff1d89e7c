import Catapult.Proof.Tree.StoredPaths

/-
This file shows that the working buffer feeds the plain encoding of a key, which determines the node.
-/

namespace Catapult.Tree

/-- The flag byte is followed by the remaining nibbles, two in each byte. -/
def hexPrefix (nibbles : TreeNodePath) (isLeaf : Bool) : List UInt8 :=
  let flag := if isLeaf then 32 else 0
  if nibbles.length % 2 = 1 then UInt8.ofNat (flag + 16 + (nibbles.headD 0).val) :: packed nibbles.tail
  else UInt8.ofNat flag :: packed nibbles

theorem flag_odd : ∀ (isLeaf : Bool) (nibble : Nibble),
    (if isLeaf then 0x20 else 0 : UInt8) ||| 0x10 ||| UInt8.ofNat nibble.val = UInt8.ofNat ((if isLeaf then 32 else 0) + 16 + nibble.val) := by
  decide

theorem hexPrefix_eq (nibbles : TreeNodePath) (isLeaf : Bool) :
    hexPrefix nibbles isLeaf = encodedKeyFlag nibbles isLeaf :: packed (nibbles.drop (nibbles.length % 2)) := by
  unfold hexPrefix
  by_cases odd : nibbles.length % 2 = 1
  · cases nibbles with
    | nil => cases odd
    | cons nibble rest =>
      rw [if_pos odd, encodedKeyFlag_odd nibble rest isLeaf odd, odd, flag_odd]
      rfl
  · have even : nibbles.length % 2 = 0 := by omega
    rw [if_neg odd, encodedKeyFlag_even nibbles isLeaf even, even, List.drop_zero]
    cases isLeaf <;> rfl

theorem hexPrefix_injective {first second : TreeNodePath} {isLeaf isLeaf' : Bool} (same : hexPrefix first isLeaf = hexPrefix second isLeaf') :
    first = second ∧ isLeaf = isLeaf' := by
  rw [hexPrefix_eq, hexPrefix_eq, ← updateEncodedKey_eq, ← updateEncodedKey_eq] at same
  exact updateEncodedKey_injective same

theorem packed_append {front : TreeNodePath} (even : front.length % 2 = 0) (high low : Nibble) :
    packed (front ++ [high, low]) = packed front ++ [packNibbles high low] := by
  induction front using packed.induct with
  | case1 first second rest ih =>
    rw [List.length_cons, List.length_cons] at even
    rw [List.cons_append, List.cons_append, packed, packed, ih (by omega), List.cons_append]
  | case2 short none =>
    cases short with
    | nil => rfl
    | cons first rest =>
      cases rest with
      | nil => cases even
      | cons second rest => exact absurd rfl (none first second rest)

theorem packed_byte : ∀ high low : Nibble, UInt8.ofNat high.val <<< 4 + UInt8.ofNat low.val = packNibbles high low := by
  decide

section Buffer

variable {path : StoredTreeNodePath} {nibbles : TreeNodePath}

/-- The fed bytes and the front of the buffer are the encoding of the nibbles up to the position. -/
def Buffers (nibbles : TreeNodePath) (isLeaf : Bool) (position : Nat) (state : EncodedKeyState) : Prop :=
  position ≤ nibbles.length ∧ position % 2 = nibbles.length % 2 ∧ state.counter.toNat < 8 ∧
    state.fed ++ state.buffer.toList.take state.counter.toNat =
      encodedKeyFlag nibbles isLeaf :: packed ((nibbles.take position).drop (nibbles.length % 2))

theorem take_set {size : Nat} (buffer : Vector UInt8 size) {position : Nat} (inside : position < size) (byte : UInt8) :
    (buffer.set position byte inside).toList.take (position + 1) = buffer.toList.take position ++ [byte] := by
  have length : position < (buffer.toList.set position byte).length := by
    rwa [List.length_set, Vector.length_toList]
  rw [Vector.toList_set, List.take_succ_eq_append_getElem length, List.getElem_set_self, List.take_set_of_le (Nat.le_refl _)]

theorem encodedKeyStart_buffers (represents : HasNibbles path nibbles) (isLeaf : Bool) (uninitialized : Vector UInt8 8) :
    ∃ start state, encodedKeyStart path isLeaf uninitialized = .ok (start, state) ∧ Buffers nibbles isLeaf start.toNat state := by
  have first (byte : UInt8) : (uninitialized.set 0 byte (by decide)).toList.take 1 = [byte] := take_set uninitialized (by decide) byte
  rw [encodedKeyStart, represents.size]
  by_cases odd : nibbles.length % 2 = 1
  · cases nibbles with
    | nil => cases odd
    | cons nibble rest =>
      rw [if_pos odd, represents.nibbleAt (Nat.succ_pos _)]
      refine ⟨1, _, rfl, Nat.succ_pos _, odd.symm, (by decide : (1 : UInt32).toNat < 8), ?_⟩
      rw [encodedKeyFlag_odd nibble rest isLeaf odd, odd]
      exact first _
  · have even : nibbles.length % 2 = 0 := by omega
    rw [if_neg odd]
    refine ⟨0, _, rfl, Nat.zero_le _, even.symm, (by decide : (1 : UInt32).toNat < 8), ?_⟩
    rw [encodedKeyFlag_even nibbles isLeaf even, even]
    exact first _

theorem Buffers.round {isLeaf : Bool} {index : UInt32} {state : EncodedKeyState} (represents : HasNibbles path nibbles)
    (encodes : Buffers nibbles isLeaf index.toNat state) (below : index.toNat < nibbles.length) (short : nibbles.length < 2 ^ 32) :
    ∃ next, encodedKeyRound path index state = .ok next ∧ Buffers nibbles isLeaf (index.toNat + 2) next := by
  obtain ⟨inside, parity, room, content⟩ := encodes
  have pair : index.toNat + 1 < nibbles.length := by omega
  have second : (index + 1).toNat = index.toNat + 1 := by
    rw [UInt32.toNat_add]
    exact Nat.mod_eq_of_lt (by change index.toNat + 1 < _; omega)
  have counted : (state.counter + 1).toNat = state.counter.toNat + 1 := by
    rw [UInt32.toNat_add]
    exact Nat.mod_eq_of_lt (by change state.counter.toNat + 1 < _; omega)
  let byte := packNibbles nibbles[index.toNat] nibbles[index.toNat + 1]
  let buffer := state.buffer.set state.counter.toNat byte room
  have stepped : encodedKeyRound path index state =
      .ok (if (state.counter + 1).toNat = 8 then ⟨buffer, 0, state.fed ++ buffer.toList⟩ else ⟨buffer, state.counter + 1, state.fed⟩) := by
    unfold encodedKeyRound
    rw [represents.nibbleAt below, second, represents.nibbleAt pair]
    change (setBuffer state.buffer state.counter (UInt8.ofNat _ <<< 4 + UInt8.ofNat _) >>= _) = _
    rw [packed_byte, setBuffer, dif_pos room]
    rfl
  have written : state.fed ++ buffer.toList.take (state.counter.toNat + 1) =
      encodedKeyFlag nibbles isLeaf :: packed ((nibbles.take (index.toNat + 2)).drop (nibbles.length % 2)) := by
    have front : (nibbles.take index.toNat).length = index.toNat := List.length_take_of_le inside
    have longer : nibbles.take (index.toNat + 2) = nibbles.take index.toNat ++ [nibbles[index.toNat], nibbles[index.toNat + 1]] := by
      rw [List.take_succ_eq_append_getElem pair, List.take_succ_eq_append_getElem below, List.append_assoc]
      rfl
    have even : ((nibbles.take index.toNat).drop (nibbles.length % 2)).length % 2 = 0 := by
      rw [List.length_drop, front]
      omega
    rw [take_set, ← List.append_assoc, content, longer, List.drop_append_of_le_length (by rw [front]; omega), packed_append even]
    rfl
  rw [stepped]
  by_cases full : (state.counter + 1).toNat = 8
  · have whole : buffer.toList.take (state.counter.toNat + 1) = buffer.toList :=
      List.take_of_length_le (by rw [Vector.length_toList]; omega)
    refine ⟨_, by rw [if_pos full], by omega, by omega, (by decide : (0 : UInt32).toNat < 8), ?_⟩
    rw [whole] at written
    exact (List.append_nil _).trans written
  · refine ⟨_, by rw [if_neg full], by omega, by omega, by change (state.counter + 1).toNat < 8; omega, ?_⟩
    change state.fed ++ buffer.toList.take (state.counter + 1).toNat = _
    rw [counted]
    exact written

/-- No byte is dropped, repeated or stale where the buffer is flushed. -/
theorem feedEncodedKey_eq (represents : HasNibbles path nibbles) (short : nibbles.length < 2 ^ 32) (isLeaf : Bool)
    (uninitialized : Vector UInt8 8) : feedEncodedKey path isLeaf uninitialized = .ok (hexPrefix nibbles isLeaf) := by
  obtain ⟨start, initial, started, encodes⟩ := encodedKeyStart_buffers represents isLeaf uninitialized
  obtain ⟨final, position, ran, outside, inside, -, room, content⟩ :=
    @CountedLoop.run_invariant _ _ .endless path.size 2 (encodedKeyRound path) (Buffers nibbles isLeaf) (by decide)
      (fun index state below encodes => by
        rw [represents.size] at below
        obtain ⟨next, stepped, following⟩ := encodes.round represents below short
        have bound := following.1
        exact ⟨by change index.toNat + 2 < _; omega, next, stepped, following⟩)
      start initial encodes
  rw [represents.size] at outside
  have whole : nibbles.take position = nibbles := List.take_of_length_le outside
  rw [whole, ← hexPrefix_eq] at content
  rw [feedEncodedKey, started]
  change (CountedLoop.run .endless path.size 2 (encodedKeyRound path) start initial >>= _) = _
  rw [ran]
  refine congrArg Except.ok ?_
  by_cases empty : final.counter = 0
  · rw [if_neg (not_not_intro empty)]
    rw [empty] at content
    exact (List.append_nil _).symm.trans content
  · rw [if_pos empty]
    exact content

/-- Longer paths are not fed at all. -/
theorem feedEncodedKey_ne_ok (long : 2 ^ 32 ≤ path.size) (isLeaf : Bool) (uninitialized : Vector UInt8 8) (fed : List UInt8) :
    feedEncodedKey path isLeaf uninitialized ≠ .ok fed := by
  intro ended
  unfold feedEncodedKey at ended
  cases started : encodedKeyStart path isLeaf uninitialized with
  | error error =>
    rw [started] at ended
    cases ended
  | ok start =>
    rw [started] at ended
    change (CountedLoop.run .endless path.size 2 (encodedKeyRound path) start.1 start.2 >>= _) = _ at ended
    cases ran : CountedLoop.run .endless path.size 2 (encodedKeyRound path) start.1 start.2 with
    | error error =>
      rw [ran] at ended
      cases ended
    | ok final => exact CountedLoop.run_ne_ok long _ _ _ ran

end Buffer

section Nodes

/-- A node consists of its nibbles and its hashes. -/
inductive PlainNode where
  | leaf (nibbles : TreeNodePath) (value : Hash256)
  | branch (nibbles : TreeNodePath) (links : Fin 16 → Hash256)

namespace PlainNode

def nibbles : PlainNode → TreeNodePath
  | .leaf nibbles _ => nibbles
  | .branch nibbles _ => nibbles

def message : PlainNode → List UInt8
  | .leaf nibbles value => hexPrefix nibbles true ++ value.toList
  | .branch nibbles links => hexPrefix nibbles false ++ (List.ofFn fun index => (links index).toList).flatten

theorem message_injective {first second : PlainNode} (same : first.message = second.message) : first = second := by
  cases first with
  | leaf nibbles value =>
    cases second with
    | leaf nibbles' value' =>
      obtain ⟨keys, values⟩ := List.append_inj' same (by rw [Vector.length_toList, Vector.length_toList])
      rw [(hexPrefix_injective keys).1, Vector.toList_inj.mp values]
    | branch nibbles' links =>
      rw [message, message, hexPrefix_eq, hexPrefix_eq, List.cons_append, List.cons_append, List.cons.injEq] at same
      exact absurd (encodedKeyFlag_injective same.1).1 (by decide)
  | branch nibbles links =>
    cases second with
    | leaf nibbles' value =>
      rw [message, message, hexPrefix_eq, hexPrefix_eq, List.cons_append, List.cons_append, List.cons.injEq] at same
      exact absurd (encodedKeyFlag_injective same.1).1 (by decide)
    | branch nibbles' links' =>
      rw [message, message, hexPrefix_eq, hexPrefix_eq, ← updateEncodedKey_eq, ← updateEncodedKey_eq] at same
      obtain ⟨keys, tails⟩ := branchMessage_injective same
      rw [keys, tails]

end PlainNode

/-- The path of a node is read as nibbles. -/
def HashedNode.Means : HashedNode → PlainNode → Prop
  | .leaf path value, .leaf nibbles plainValue => HasNibbles path nibbles ∧ value = plainValue
  | .branch path links, .branch nibbles plainLinks => HasNibbles path nibbles ∧ links = plainLinks
  | _, _ => False

theorem HashedNode.Means.message {node : HashedNode} {plain : PlainNode} (means : node.Means plain) (short : plain.nibbles.length < 2 ^ 32)
    (uninitialized : Vector UInt8 8) : node.message uninitialized = .ok plain.message := by
  cases node with
  | leaf path value =>
    cases plain with
    | leaf nibbles plainValue =>
      obtain ⟨represents, rfl⟩ := means
      rw [HashedNode.message, feedEncodedKey_eq represents short]
      rfl
    | branch nibbles links => exact means.elim
  | branch path links =>
    cases plain with
    | leaf nibbles value => exact means.elim
    | branch nibbles plainLinks =>
      obtain ⟨represents, rfl⟩ := means
      rw [HashedNode.message, feedEncodedKey_eq represents short]
      rfl

variable [Sha3]

/-- Keys are fed in the plain encoding, which is injective, as long as their nibbles are counted with 32 bits. -/
theorem encodedKeys_plain : (∀ path nibbles isLeaf, HasNibbles path nibbles → nibbles.length < 2 ^ 32 → ∀ uninitialized,
      feedEncodedKey path isLeaf uninitialized = .ok (hexPrefix nibbles isLeaf)) ∧
      (∀ first second isLeaf isLeaf', hexPrefix first isLeaf = hexPrefix second isLeaf' → first = second ∧ isLeaf = isLeaf') ∧
      ∀ messages : Set (List UInt8), Set.InjOn Sha3.sha3_256 messages → ∀ (node node' : HashedNode) (plain plain' : PlainNode),
        node.Means plain → node'.Means plain' → plain.nibbles.length < 2 ^ 32 → plain'.nibbles.length < 2 ^ 32 →
        plain.message ∈ messages → plain'.message ∈ messages → ∀ uninitialized uninitialized',
        (∃ hash, node.hash uninitialized = .ok hash) ∧ (node.hash uninitialized = node'.hash uninitialized' → plain = plain') := by
  refine ⟨fun path nibbles isLeaf represents short => feedEncodedKey_eq represents short isLeaf, fun _ _ _ _ => hexPrefix_injective, ?_⟩
  intro messages injective node node' plain plain' means means' short short' member member' uninitialized uninitialized'
  have hashed : node.hash uninitialized = .ok (Sha3.sha3_256 plain.message) := by
    rw [HashedNode.hash, means.message short]
    rfl
  have hashed' : node'.hash uninitialized' = .ok (Sha3.sha3_256 plain'.message) := by
    rw [HashedNode.hash, means'.message short']
    rfl
  refine ⟨⟨_, hashed⟩, fun same => ?_⟩
  rw [hashed, hashed'] at same
  exact PlainNode.message_injective (injective member member' (Except.ok.inj same))

end Nodes

/-- A key with more nibbles has no hash. -/
theorem feedEncodedKey_ofKey {key : List UInt8} (long : 2 ^ 32 ≤ 2 * key.length) :
    ¬ ∀ path nibbles isLeaf, HasNibbles path nibbles → ∀ uninitialized, feedEncodedKey path isLeaf uninitialized = .ok (hexPrefix nibbles isLeaf) :=
  fun all => feedEncodedKey_ne_ok long true (Vector.replicate 8 0) _ (all _ _ true (hasNibbles_ofKey key) _)

namespace Samples

/-- A path with 2^32 nibbles is not fed completely. -/
theorem longKey_notFed :
    ¬ ∀ path nibbles isLeaf, HasNibbles path nibbles → ∀ uninitialized, feedEncodedKey path isLeaf uninitialized = .ok (hexPrefix nibbles isLeaf) := by
  refine @feedEncodedKey_ofKey longKey ?_
  rw [longKey_length]
  decide

end Samples

end Catapult.Tree
