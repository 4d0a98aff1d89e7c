import Catapult.Construction.Crypto.MerkleHashBuilder
import Catapult.Library.MerkleTree

/-
This file proves for which numbers of leaves the builder computes the merkle tree and its size.
-/

namespace Catapult.Crypto

open MerkleTree

/-- A consumer adds what it collects from a list of hashes, which can be nothing. -/
structure Collects (hashConsumer : HashConsumer) (limit : Nat) (collected : List Hash256 → List Hash256) : Prop where
  append : ∀ first second, collected (first ++ second) = collected first ++ collected second
  consumed : ∀ hashes tree, hashes.length < 2 ^ 32 → hashes.length < limit →
    hashConsumer hashes tree = some (tree ++ collected hashes)

theorem Collects.nil {hashConsumer : HashConsumer} {limit : Nat} {collected : List Hash256 → List Hash256}
    (collects : Collects hashConsumer limit collected) : collected [] = [] := by
  have twice := collects.append [] []
  rw [List.nil_append] at twice
  exact List.self_eq_append_left.mp twice

theorem Collects.single {hashConsumer : HashConsumer} {limit : Nat} {collected : List Hash256 → List Hash256}
    (collects : Collects hashConsumer limit collected) (several : 1 < limit) (hash : Hash256) (tree : List Hash256) :
    hashConsumer [hash] tree = some (tree ++ collected [hash]) :=
  collects.consumed [hash] tree (show 1 < 2 ^ 32 by decide) several

theorem ignoreHashes_collects (limit : Nat) : Collects ignoreHashes limit fun _ => [] where
  append _ _ := rfl
  consumed hashes tree _ _ := by rw [List.append_nil, ignoreHashes]

/-- The loop copies the hashes if its counter can reach their number. -/
theorem pushFrom_eq (hashes tree : List Hash256) (index rounds count : Nat) (reached : index + hashes.length = count)
    (fits : count < 2 ^ 32) (enough : hashes.length < rounds) :
    pushFrom count rounds (UInt32.ofNat index) hashes tree = some (tree ++ hashes) := by
  induction hashes generalizing tree index rounds with
  | nil =>
    obtain ⟨rounds, rfl⟩ := Nat.exists_eq_succ_of_ne_zero (Nat.ne_of_gt enough)
    rw [List.length_nil, Nat.add_zero] at reached
    rw [pushFrom, UInt32.toNat_ofNat_of_lt' (show index < 2 ^ 32 by omega), if_neg (by omega), List.append_nil]
  | cons hash rest ih =>
    obtain ⟨rounds, rfl⟩ := Nat.exists_eq_succ_of_ne_zero (Nat.ne_of_gt (Nat.lt_of_le_of_lt (Nat.zero_le _) enough))
    rw [List.length_cons] at reached enough
    have following : UInt32.ofNat index + 1 = UInt32.ofNat (index + 1) := by
      rw [UInt32.ofNat_add]
      rfl
    rw [pushFrom, UInt32.toNat_ofNat_of_lt' (show index < 2 ^ 32 by omega), if_pos (by omega), following]
    change pushFrom count rounds (UInt32.ofNat (index + 1)) rest (tree ++ [hash]) = _
    rw [ih (tree ++ [hash]) (index + 1) rounds (by omega) (by omega), List.append_assoc, List.singleton_append]

theorem pushHashes_collects (limit : Nat) : Collects (pushHashes limit) limit id where
  append _ _ := rfl
  consumed hashes tree fits enough := pushFrom_eq hashes tree 0 limit hashes.length (Nat.zero_add _) fits enough

/-- The slots that were already paired are behind the parents. -/
theorem set_parent {done junk rest : List Hash256} {size : Nat} (parent last : Hash256) (first : done.length = size) :
    (done ++ (junk ++ last :: rest)).set size parent = done ++ parent :: (junk ++ last :: rest).tail := by
  rw [← first, List.set_append_right _ _ (Nat.le_refl _), Nat.sub_self]
  cases junk with
  | nil => rfl
  | cons head tail => rfl

theorem getElem?_junk (done junk rest : List Hash256) (index : Nat) :
    (done ++ (junk ++ rest))[done.length + junk.length + index]? = rest[index]? := by
  rw [List.getElem?_append_right (by omega), List.getElem?_append_right (by omega)]
  congr 1
  omega

section PairIndex

variable {size : Nat}

theorem toNat_pair (small : 2 * size < 2 ^ 32) : (UInt32.ofNat (2 * size)).toNat = 2 * size := UInt32.toNat_ofNat_of_lt' small

theorem toNat_half (small : 2 * size < 2 ^ 32) : (UInt32.ofNat (2 * size) / 2).toNat = size := by
  rw [UInt32.toNat_div, toNat_pair small]
  exact Nat.mul_div_cancel_left size (by decide)

theorem toNat_second (small : 2 * size < 2 ^ 32) : (UInt32.ofNat (2 * size) + 1).toNat = 2 * size + 1 := by
  rw [UInt32.toNat_add, toNat_pair small]
  exact Nat.mod_eq_of_lt (show 2 * size + 1 < 2 ^ 32 by omega)

theorem pair_succ : UInt32.ofNat (2 * size) + 2 = UInt32.ofNat (2 * (size + 1)) := by
  rw [Nat.mul_add, UInt32.ofNat_add]
  rfl

end PairIndex

section Pairs

variable [Sha3] {hashConsumer : HashConsumer} {limit : Nat} {collected : List Hash256 → List Hash256}

theorem pairHashes_done (rounds : Nat) {index : Nat} {state : FinalState} (reached : state.numRemainingHashes ≤ index)
    (fits : index < 2 ^ 32) : pairHashes hashConsumer (rounds + 1) (UInt32.ofNat index) state = some state := by
  rw [pairHashes, UInt32.toNat_ofNat_of_lt' fits, if_neg (Nat.not_lt.mpr reached)]

variable (collects : Collects hashConsumer limit collected) (several : 1 < limit) (rounds : Nat) {size count : Nat}
  {hashes tree : List Hash256} {left right : Hash256}
include collects several

/-- One round of the loop with two hashes. -/
theorem pairHashes_two (below : 2 * size + 1 < count) (fits : 2 * size + 2 < 2 ^ 32) (firstRead : hashes[2 * size]? = some left)
    (secondRead : hashes[2 * size + 1]? = some right) :
    pairHashes hashConsumer (rounds + 1) (UInt32.ofNat (2 * size)) ⟨hashes, count, tree⟩ =
      pairHashes hashConsumer rounds (UInt32.ofNat (2 * (size + 1)))
        ⟨hashes.set size (merge left right), count, tree ++ collected [merge left right]⟩ := by
  have small : 2 * size < 2 ^ 32 := by omega
  simp only [pairHashes, toNat_pair small, toNat_half small, toNat_second small, pair_succ, firstRead, secondRead, if_pos below, if_pos (Nat.lt_of_succ_lt below),
    collects.single several, Option.bind_eq_bind, Option.bind_some]

/-- One round of the loop with the last hash of an odd level. -/
theorem pairHashes_one (last : 2 * size + 1 = count) (fits : 2 * size + 2 < 2 ^ 32) (read : hashes[2 * size]? = some left) :
    pairHashes hashConsumer (rounds + 1) (UInt32.ofNat (2 * size)) ⟨hashes, count, tree⟩ =
      pairHashes hashConsumer rounds (UInt32.ofNat (2 * (size + 1)))
        ⟨hashes.set size (merge left left), count + 1, tree ++ collected [merge left left]⟩ := by
  have small : 2 * size < 2 ^ 32 := by omega
  have below : 2 * size < count := by omega
  have single : ¬2 * size + 1 < count := by omega
  simp only [pairHashes, toNat_pair small, toNat_half small, toNat_second small, pair_succ, read, if_pos below, if_neg single, collects.single several,
    Option.bind_eq_bind, Option.bind_some]

/-- The pairs of a level are merged in place, and the parents are collected. -/
theorem pairHashes_eq (size : Nat) (rest beyond done junk tree : List Hash256) (first : done.length = size)
    (second : junk.length = size) (fits : 2 * size + rest.length + 1 < 2 ^ 32) (enough : rest.length + 1 < rounds) :
    ∃ remains, pairHashes hashConsumer rounds (UInt32.ofNat (2 * size))
        ⟨done ++ (junk ++ (rest ++ beyond)), 2 * size + rest.length, tree⟩ =
      some ⟨done ++ (parents merge rest ++ remains), 2 * (size + (parents merge rest).length),
        tree ++ collected (parents merge rest)⟩ := by
  obtain ⟨rounds, rfl⟩ := Nat.exists_eq_succ_of_ne_zero (Nat.ne_of_gt (Nat.lt_of_le_of_lt (Nat.zero_le _) enough))
  have position : done.length + junk.length = 2 * size := by omega
  induction rest using parents.induct generalizing rounds size done junk tree with
  | case1 left right rest ih =>
    rw [List.length_cons, List.length_cons] at fits enough
    have leftRead := getElem?_junk done junk (left :: right :: rest ++ beyond) 0
    have rightRead := getElem?_junk done junk (left :: right :: rest ++ beyond) 1
    rw [position] at leftRead rightRead
    have moved : (done ++ (junk ++ (left :: right :: rest ++ beyond))).set size (merge left right) =
        done ++ [merge left right] ++ ((junk ++ [left, right]).tail ++ (rest ++ beyond)) := by
      rw [List.cons_append, set_parent _ _ first]
      cases junk with
      | nil => simp
      | cons head tail => simp
    have total : 2 * size + (left :: right :: rest).length = 2 * (size + 1) + rest.length := by
      rw [List.length_cons, List.length_cons]
      omega
    have below : 2 * size + 1 < 2 * (size + 1) + rest.length := by omega
    obtain ⟨rounds, rfl⟩ := Nat.exists_eq_succ_of_ne_zero (show rounds ≠ 0 by omega)
    have firstNext : (done ++ [merge left right]).length = size + 1 := by rw [List.length_append, first, List.length_singleton]
    have secondNext : (junk ++ [left, right]).tail.length = size + 1 := by
      rw [List.length_tail, List.length_append, second]
      rfl
    obtain ⟨remains, ran⟩ := ih (size + 1) (done ++ [merge left right]) (junk ++ [left, right]).tail
      (tree ++ collected [merge left right]) firstNext secondNext (by omega) rounds (by omega) (by omega)
    have children : collected (merge left right :: parents merge rest) =
        collected [merge left right] ++ collected (parents merge rest) := collects.append [merge left right] _
    have counted : size + 1 + (parents merge rest).length = size + (merge left right :: parents merge rest).length := by
      rw [List.length_cons]
      omega
    refine ⟨remains, ?_⟩
    rw [total, pairHashes_two collects several _ below (by omega) leftRead rightRead, moved, ran, parents, children, counted]
    simp only [List.append_assoc, List.cons_append, List.nil_append]
  | case2 last =>
    rw [List.length_singleton] at fits enough ⊢
    have read := getElem?_junk done junk ([last] ++ beyond) 0
    rw [position] at read
    obtain ⟨rounds, rfl⟩ := Nat.exists_eq_succ_of_ne_zero (show rounds ≠ 0 by omega)
    refine ⟨(junk ++ last :: beyond).tail, ?_⟩
    rw [pairHashes_one collects several _ rfl (by omega) read, pairHashes_done rounds (Nat.le_refl (2 * (size + 1))) (by omega),
      List.singleton_append, set_parent _ _ first, parents, List.length_singleton, List.singleton_append]
    rfl
  | case3 =>
    refine ⟨junk ++ beyond, ?_⟩
    rw [List.length_nil, Nat.add_zero, pairHashes_done rounds (Nat.le_refl (2 * size)) (by omega), parents, collects.nil,
      List.append_nil, List.nil_append, List.nil_append, List.length_nil, Nat.add_zero]

omit [Sha3] in
/-- A level with a duplicate of its last hash is consumed with this duplicate. -/
theorem consumePadding_eq (level beyond base : List Hash256) (some : level ≠ []) :
    consumePadding hashConsumer ⟨level ++ beyond, level.length, base ++ collected level⟩ =
      .some ⟨level ++ beyond, level.length, base ++ collected (padded level)⟩ := by
  unfold consumePadding padded
  split
  · have positive := List.length_pos_iff.mpr some
    have last : (level ++ beyond)[level.length - 1]? = level.getLast? := by
      rw [List.getElem?_append_left (by omega), List.getLast?_eq_getElem?]
    rw [last, List.getLast?_eq_some_getLast some, collects.append, ← List.append_assoc]
    simp only [Option.toList_some, Option.bind_eq_bind, Option.bind_some, collects.single several]
    rfl
  · rfl

/-- The levels are built until the root is left. -/
theorem buildLevels_eq (level beyond base : List Hash256) (some : level ≠ []) (fits : level.length + 1 < 2 ^ 32)
    (enough : level.length + 1 < limit) (bounded : level.length < rounds) :
    ∃ remains, buildLevels hashConsumer limit rounds ⟨level ++ beyond, level.length, base ++ collected level⟩ =
      .some ⟨root merge zeroHash level :: remains, 1, base ++ collected (nodes merge zeroHash level)⟩ := by
  obtain ⟨rounds, rfl⟩ := Nat.exists_eq_succ_of_ne_zero (Nat.ne_of_gt (Nat.lt_of_le_of_lt (Nat.zero_le _) bounded))
  induction level using root.induct merge generalizing beyond base rounds with
  | case1 => exact absurd rfl some
  | case2 single =>
    refine ⟨beyond, ?_⟩
    rw [buildLevels, root, nodes]
    exact if_neg (Nat.lt_irrefl 1)
  | case3 first second rest ih =>
    have halved := length_parents merge (first :: second :: rest)
    have great : 1 < (first :: second :: rest).length := by
      rw [List.length_cons, List.length_cons]
      omega
    have filled : parents merge (first :: second :: rest) ≠ [] := by
      apply List.ne_nil_of_length_pos
      omega
    obtain ⟨remains, paired⟩ := pairHashes_eq collects several limit 0 (first :: second :: rest) beyond [] []
      (base ++ collected (padded (first :: second :: rest))) rfl rfl (by omega) enough
    obtain ⟨rounds, rfl⟩ := Nat.exists_eq_succ_of_ne_zero (show rounds ≠ 0 by omega)
    obtain ⟨left, built⟩ := ih remains (base ++ collected (padded (first :: second :: rest))) filled (by omega) (by omega) rounds
      (by omega)
    refine ⟨left, ?_⟩
    have quotient : 2 * (0 + (parents merge (first :: second :: rest)).length) / 2 = (parents merge (first :: second :: rest)).length := by
      omega
    rw [buildLevels]
    change (if 1 < (first :: second :: rest).length then _ else _) = _
    rw [if_pos great, consumePadding_eq collects several _ _ _ some]
    change (pairHashes hashConsumer limit (UInt32.ofNat (2 * 0)) _ >>= _) = _
    rw [Nat.mul_zero, Nat.zero_add] at paired
    rw [Nat.mul_zero]
    rw [List.nil_append, List.nil_append] at paired
    rw [paired]
    change buildLevels hashConsumer limit (rounds + 1) ⟨_, _ / 2, _⟩ = _
    rw [List.nil_append, quotient, built, root_cons_cons, nodes_cons_cons, collects.append, List.append_assoc]

end Pairs

section Final

variable [Sha3] {hashConsumer : HashConsumer} {limit : Nat} {collected : List Hash256 → List Hash256} {leaves : List Hash256}

theorem final_eq (collects : Collects hashConsumer limit collected) (fits : leaves.length + 1 < 2 ^ 32)
    (enough : leaves.length + 1 < limit) :
    final hashConsumer limit leaves = some (root merge zeroHash leaves, collected (nodes merge zeroHash leaves)) := by
  have several : 1 < limit := by omega
  cases leaves with
  | nil =>
    rw [final, List.isEmpty_nil, if_pos rfl, collects.single several, root, nodes]
    rfl
  | cons leaf rest =>
    have consumed := collects.consumed (leaf :: rest) [] (Nat.lt_of_succ_lt fits) (Nat.lt_of_succ_lt enough)
    obtain ⟨remains, built⟩ := buildLevels_eq collects several limit (leaf :: rest) [] [] (List.cons_ne_nil _ _) fits enough
      (Nat.lt_of_succ_lt enough)
    rw [List.append_nil] at built
    rw [final, List.isEmpty_cons, if_neg Bool.false_ne_true, consumed]
    change (buildLevels _ _ _ _ >>= _) = _
    rw [built]
    rfl

/-- A counter of 32 bits stays below such a number of hashes. -/
theorem pairHashes_endless (rounds : Nat) (index : UInt32) {state : FinalState} (great : 2 ^ 32 ≤ state.numRemainingHashes) :
    pairHashes hashConsumer rounds index state = none := by
  induction rounds generalizing index state with
  | zero => rfl
  | succ rounds ih =>
    have below : index.toNat < state.numRemainingHashes := Nat.lt_of_lt_of_le index.toNat_lt great
    have next : (index + 1).toNat < state.numRemainingHashes := Nat.lt_of_lt_of_le (index + 1).toNat_lt great
    have later (hashes tree : List Hash256) : pairHashes hashConsumer rounds (index + 2) ⟨hashes, state.numRemainingHashes, tree⟩ = none :=
      ih (index + 2) great
    rw [pairHashes, if_pos below]
    simp only [if_pos next, later, Option.bind_eq_bind, Option.bind_fun_none]

/-- The duplicate of the last hash makes the counter wrap around. -/
theorem pairHashes_wraps (rounds size : Nat) {state : FinalState} (full : state.numRemainingHashes = 2 ^ 32 - 1)
    (below : 2 * size < 2 ^ 32) : pairHashes hashConsumer rounds (UInt32.ofNat (2 * size)) state = none := by
  induction rounds generalizing size state with
  | zero => rfl
  | succ rounds ih =>
    rw [pairHashes, toNat_pair below, if_pos (by omega), toNat_second below, pair_succ]
    by_cases last : 2 * size + 1 < state.numRemainingHashes
    · have later (hashes tree : List Hash256) :
          pairHashes hashConsumer rounds (UInt32.ofNat (2 * (size + 1))) ⟨hashes, state.numRemainingHashes, tree⟩ = none :=
        ih (size + 1) full (by omega)
      simp only [if_pos last, later, Option.bind_eq_bind, Option.bind_fun_none]
    · have later (hashes tree : List Hash256) :
          pairHashes hashConsumer rounds (UInt32.ofNat (2 * (size + 1))) ⟨hashes, state.numRemainingHashes + 1, tree⟩ = none :=
        pairHashes_endless rounds _ (show 2 ^ 32 ≤ state.numRemainingHashes + 1 by omega)
      simp only [if_neg last, later, Option.bind_eq_bind, Option.bind_fun_none]

theorem pairHashes_stuck (rounds : Nat) {state : FinalState} (great : 2 ^ 32 ≤ state.numRemainingHashes + 1) :
    pairHashes hashConsumer rounds 0 state = none := by
  by_cases full : state.numRemainingHashes = 2 ^ 32 - 1
  · exact pairHashes_wraps rounds 0 full (by omega)
  · exact pairHashes_endless rounds 0 (by omega)

omit [Sha3] in
theorem consumePadding_numRemainingHashes {state padded : FinalState} (consumed : consumePadding hashConsumer state = some padded) :
    padded.numRemainingHashes = state.numRemainingHashes := by
  unfold consumePadding at consumed
  split at consumed
  · simp only [Option.bind_eq_bind, Option.bind_eq_some_iff] at consumed
    obtain ⟨last, _, tree, _, same⟩ := consumed
    cases same
    rfl
  · cases consumed
    rfl

/-- The builder does not return for so many leaves. -/
theorem final_endless (great : 2 ^ 32 ≤ leaves.length + 1) : final hashConsumer limit leaves = none := by
  have stuck (rounds : Nat) (tree : List Hash256) : buildLevels hashConsumer limit rounds ⟨leaves, leaves.length, tree⟩ = none := by
    cases rounds with
    | zero => rfl
    | succ rounds =>
      rw [buildLevels]
      change (if 1 < leaves.length then _ else _) = _
      rw [if_pos (by omega)]
      cases consumed : consumePadding hashConsumer ⟨leaves, leaves.length, tree⟩ with
      | none => rfl
      | some padded =>
        have same := consumePadding_numRemainingHashes consumed
        change (pairHashes hashConsumer limit 0 padded >>= _) = _
        rw [pairHashes_stuck limit (same ▸ great)]
        rfl
  have some : leaves.isEmpty = false := by
    rw [List.isEmpty_eq_false_iff, ← List.length_pos_iff]
    omega
  rw [final, some, if_neg Bool.false_ne_true]
  simp only [stuck, Option.bind_eq_bind, Option.bind_none, Option.bind_fun_none]

end Final

namespace MerkleHashBuilder

/-- No sum of sizes overflows. -/
theorem toNat_treeSizeFrom (levelSize size : UInt64) (fits : size.toNat + 3 * levelSize.toNat < 2 ^ 64) :
    (treeSizeFrom levelSize size).toNat = size.toNat + levelSum levelSize.toNat := by
  have one : (1 : UInt64).toNat = 1 := rfl
  induction levelSize, size using treeSizeFrom.induct with
  | case1 levelSize size great ih =>
    have above : 1 < levelSize.toNat := UInt64.lt_iff_toNat_lt.mp great
    have next : (levelSize + 1).toNat = levelSize.toNat + 1 := by
      rw [UInt64.toNat_add, one]
      exact Nat.mod_eq_of_lt (by omega)
    have half : ((levelSize + 1) >>> 1).toNat = (levelSize.toNat + 1) / 2 := by
      rw [UInt64.toNat_shiftRight, next, one, Nat.mod_eq_of_lt (show 1 < 64 by decide), Nat.shiftRight_eq_div_pow, Nat.pow_one]
    have sum : (size + levelSize).toNat = size.toNat + levelSize.toNat := by
      rw [UInt64.toNat_add]
      exact Nat.mod_eq_of_lt (by omega)
    rw [treeSizeFrom, if_pos great, ih (by omega), half, sum, levelSum_great above, Nat.add_assoc]
  | case2 levelSize size small =>
    have below : levelSize.toNat ≤ 1 := UInt64.le_iff_toNat_le.mp (UInt64.not_lt.mp small)
    rw [treeSizeFrom, if_neg small, levelSum_small below, Nat.add_zero]

theorem toNat_treeSize_small {leafCount : UInt64} (small : leafCount.toNat ≤ 1) : (treeSize leafCount).toNat = 1 := by
  have cases : leafCount = 0 ∨ leafCount = 1 := by
    rw [← UInt64.toNat_inj, ← UInt64.toNat_inj]
    change leafCount.toNat = 0 ∨ leafCount.toNat = 1
    omega
  obtain rfl | rfl := cases
  · simp [treeSize, treeSizeFrom]
  · simp [treeSize, treeSizeFrom]

/-- The size of the first level is adjusted, but that of no other level. -/
theorem toNat_treeSize {leafCount : UInt64} (great : 1 < leafCount.toNat) (fits : leafCount.toNat < 2 ^ 32) :
    (treeSize leafCount).toNat = levelSum (2 * ((leafCount.toNat + 1) / 2)) + 1 := by
  have one : (1 : UInt64).toNat = 1 := rfl
  have several : leafCount ≠ 1 := fun same => absurd great (by rw [same, one]; exact Nat.lt_irrefl 1)
  have adjusted : (if leafCount = 1 then 1 else if leafCount % 2 = 0 then leafCount else leafCount + 1).toNat =
      2 * ((leafCount.toNat + 1) / 2) := by
    have parity : leafCount % 2 = 0 ↔ leafCount.toNat % 2 = 0 := by
      rw [← UInt64.toNat_inj, UInt64.toNat_mod]
      rfl
    rw [if_neg several]
    split
    · next even =>
      have even := parity.mp even
      omega
    · next odd =>
      have odd := mt parity.mpr odd
      rw [UInt64.toNat_add, one, Nat.mod_eq_of_lt (by omega)]
      omega
  have bound := levelSum_le (2 * ((leafCount.toNat + 1) / 2))
  have least : 2 ≤ levelSum (2 * ((leafCount.toNat + 1) / 2)) := by
    rw [levelSum_great (by omega)]
    omega
  have sum := toNat_treeSizeFrom (if leafCount = 1 then 1 else if leafCount % 2 = 0 then leafCount else leafCount + 1) 0 (by
    rw [adjusted]
    change 0 + _ < _
    omega)
  rw [adjusted] at sum
  change _ = 0 + _ at sum
  rw [Nat.zero_add] at sum
  have counted : 2 ≤ treeSizeFrom (if leafCount = 1 then 1 else if leafCount % 2 = 0 then leafCount else leafCount + 1) 0 := by
    rw [UInt64.le_iff_toNat_le, sum]
    exact least
  rw [treeSize]
  change UInt64.toNat (if 2 ≤ treeSizeFrom _ 0 then _ else _) = _
  rw [if_pos counted, UInt64.toNat_add, sum, one, Nat.mod_eq_of_lt (by omega)]

/-- The number of nodes is counted right if no level above the leaves has an odd size. -/
theorem treeSize_eq_iff {leafCount : UInt64} (fits : leafCount.toNat < 2 ^ 32) :
    (treeSize leafCount).toNat = padSum leafCount.toNat + 1 ↔
      ∃ exponent, leafCount.toNat = 2 ^ exponent ∨ leafCount.toNat + 1 = 2 ^ exponent := by
  by_cases small : leafCount.toNat ≤ 1
  · rw [toNat_treeSize_small small, padSum_small small]
    refine iff_of_true rfl ⟨0, ?_⟩
    rw [Nat.pow_zero]
    omega
  · have great := Nat.not_le.mp small
    have half : (2 * ((leafCount.toNat + 1) / 2) + 1) / 2 = (leafCount.toNat + 1) / 2 := by omega
    rw [toNat_treeSize great fits, levelSum_great (by omega), half, padSum_great great, Nat.add_right_cancel_iff,
      Nat.add_left_cancel_iff, eq_comm, padSum_eq_levelSum_iff (by omega)]
    constructor
    · rintro ⟨exponent, power⟩
      refine ⟨exponent + 1, ?_⟩
      rw [Nat.pow_succ]
      omega
    · rintro ⟨exponent, power⟩
      cases exponent with
      | zero =>
        rw [Nat.pow_zero] at power
        omega
      | succ exponent =>
        refine ⟨exponent, ?_⟩
        rw [Nat.pow_succ] at power
        omega

def ofHashes (hashes : List Hash256) : MerkleHashBuilder := hashes.foldl update create

theorem hashes_foldl (builder : MerkleHashBuilder) (hashes : List Hash256) :
    (hashes.foldl update builder).hashes = builder.hashes ++ hashes := by
  induction hashes generalizing builder with
  | nil => exact (List.append_nil _).symm
  | cons hash rest ih =>
    rw [List.foldl_cons, ih, update, List.append_assoc, List.singleton_append]

theorem hashes_ofHashes (hashes : List Hash256) : (ofHashes hashes).hashes = hashes := hashes_foldl create hashes

end MerkleHashBuilder

open MerkleHashBuilder

/-- All loops end with this value if the limit is large enough. -/
def Returns {α : Type} (run : Nat → Option α) (value : α) : Prop := ∃ least, ∀ limit, least ≤ limit → run limit = some value

theorem Returns.unique {α : Type} {run : Nat → Option α} {first second : α} (one : Returns run first) (other : Returns run second) :
    first = second := by
  obtain ⟨least, one⟩ := one
  obtain ⟨bound, other⟩ := other
  have same := (one (max least bound) (Nat.le_max_left _ _)).symm.trans (other (max least bound) (Nat.le_max_right _ _))
  exact Option.some.inj same

/-- The builder returns the root and the nodes of the merkle tree. -/
structure Finalizes [Sha3] (leaves : List Hash256) : Prop where
  hash : Returns (ofHashes leaves).finalHash (root merge zeroHash leaves)
  tree : Returns (ofHashes leaves).finalTree (nodes merge zeroHash leaves)

/-- The number of emitted nodes is the calculated size. -/
def SizeMatches [Sha3] (leaves : List Hash256) : Prop :=
  ∃ tree, Returns (ofHashes leaves).finalTree tree ∧ tree.length = (treeSize (UInt64.ofNat leaves.length)).toNat

section Leaves

variable [Sha3] (leaves : List Hash256)

theorem finalHash_returns (fits : leaves.length + 1 < 2 ^ 32) :
    Returns (ofHashes leaves).finalHash (root merge zeroHash leaves) := by
  refine ⟨leaves.length + 2, ?_⟩
  intro limit enough
  rw [finalHash, hashes_ofHashes, final_eq (ignoreHashes_collects limit) fits enough]
  rfl

theorem finalTree_returns (fits : leaves.length + 1 < 2 ^ 32) :
    Returns (ofHashes leaves).finalTree (nodes merge zeroHash leaves) := by
  refine ⟨leaves.length + 2, ?_⟩
  intro limit enough
  rw [finalTree, hashes_ofHashes, final_eq (pushHashes_collects limit) fits enough]
  rfl

theorem fits_of_returns {tree : List Hash256} (returns : Returns (ofHashes leaves).finalTree tree) : leaves.length + 1 < 2 ^ 32 := by
  obtain ⟨least, returned⟩ := returns
  have outcome := returned least (Nat.le_refl _)
  by_contra great
  rw [finalTree, hashes_ofHashes, final_endless (Nat.not_lt.mp great)] at outcome
  cases outcome

theorem finalizes_iff : Finalizes leaves ↔ leaves.length + 1 < 2 ^ 32 := by
  constructor
  · intro finalizes
    exact fits_of_returns leaves finalizes.tree
  · intro fits
    exact ⟨finalHash_returns leaves fits, finalTree_returns leaves fits⟩

/-- The calculated size leaves out the duplicates of the levels above the leaves. -/
theorem sizeMatches_iff : SizeMatches leaves ↔
    leaves.length + 1 < 2 ^ 32 ∧ ∃ exponent, leaves.length = 2 ^ exponent ∨ leaves.length + 1 = 2 ^ exponent := by
  have counted (fits : leaves.length + 1 < 2 ^ 32) :
      (nodes merge zeroHash leaves).length = (treeSize (UInt64.ofNat leaves.length)).toNat ↔
        ∃ exponent, leaves.length = 2 ^ exponent ∨ leaves.length + 1 = 2 ^ exponent := by
    have count : (UInt64.ofNat leaves.length).toNat = leaves.length :=
      UInt64.toNat_ofNat_of_lt' (show leaves.length < 2 ^ 64 by omega)
    have below : (UInt64.ofNat leaves.length).toNat < 2 ^ 32 := by omega
    have matched := treeSize_eq_iff below
    rw [count] at matched
    rw [length_nodes, eq_comm, matched]
  constructor
  · intro ⟨tree, returned, matched⟩
    have fits := fits_of_returns leaves returned
    obtain rfl := returned.unique (finalTree_returns leaves fits)
    exact ⟨fits, (counted fits).mp matched⟩
  · intro ⟨fits, powers⟩
    exact ⟨_, finalTree_returns leaves fits, (counted fits).mpr powers⟩

/-- The builder meets its description exactly for the numbers of leaves that are powers of two or one less. -/
theorem merkleTree_correct_iff : (Finalizes leaves ↔ leaves.length + 1 < 2 ^ 32) ∧ (Finalizes leaves ∧ SizeMatches leaves ↔
      ∃ exponent, exponent ≤ 31 ∧ (leaves.length = 2 ^ exponent ∨ leaves.length + 1 = 2 ^ exponent)) := by
  refine ⟨finalizes_iff leaves, ?_⟩
  rw [finalizes_iff, sizeMatches_iff]
  constructor
  · intro ⟨fits, _, exponent, powers⟩
    have below : 2 ^ exponent < 2 ^ 32 := by omega
    exact ⟨exponent, Nat.le_of_lt_succ ((Nat.pow_lt_pow_iff_right (by decide)).mp below), powers⟩
  · intro ⟨exponent, small, powers⟩
    have below : 2 ^ exponent ≤ 2 ^ 31 := Nat.pow_le_pow_right (by decide) small
    have fits : leaves.length + 1 < 2 ^ 32 := by omega
    exact ⟨fits, fits, exponent, powers⟩

end Leaves

namespace Samples

/-- Five leaves have three parents, the last of which is duplicated. -/
def fiveLeaves : List Hash256 := List.replicate 5 zeroHash

/-- The tree of five leaves has 13 nodes, but the calculated size is 12. -/
theorem fiveLeaves_size : letI := sha3Digest
    (treeSize 5).toNat = 12 ∧ (nodes merge zeroHash fiveLeaves).length = 13 ∧
      Returns (ofHashes fiveLeaves).finalTree (nodes merge zeroHash fiveLeaves) ∧ ¬SizeMatches fiveLeaves := by
  let _ := sha3Digest
  have size : (treeSize 5).toNat = 12 := by
    rw [toNat_treeSize (by decide) (by decide)]
    change levelSum 6 + 1 = 12
    simp [levelSum]
  have length : (nodes merge zeroHash fiveLeaves).length = 13 := by
    rw [length_nodes]
    simp [fiveLeaves, padSum]
  have returns := finalTree_returns fiveLeaves (by decide)
  refine ⟨size, length, returns, ?_⟩
  rintro ⟨tree, returned, matched⟩
  obtain rfl := returned.unique returns
  rw [length] at matched
  exact absurd (matched.trans size) (by decide)

end Samples

end Catapult.Crypto
