import Mathlib.Algebra.Order.Ring.Nat

/-
This file develops binary hash trees in which the last node of an odd level is paired with itself.
-/

namespace MerkleTree

variable {α : Type} (merge : α → α → α) (empty : α)

/-- The nodes of a level are merged in pairs. -/
def parents : List α → List α
  | first :: second :: rest => merge first second :: parents rest
  | [last] => [merge last last]
  | [] => []

theorem length_parents (level : List α) : (parents merge level).length = (level.length + 1) / 2 := by
  induction level using parents.induct with
  | case1 first second rest ih =>
    rw [parents, List.length_cons, ih, List.length_cons, List.length_cons]
    omega
  | case2 last => simp [parents]
  | case3 => simp [parents]

/-- The last node of an odd level appears twice. -/
def padded (level : List α) : List α := if level.length % 2 = 1 then level ++ level.getLast?.toList else level

theorem length_padded (level : List α) : (padded level).length = 2 * ((level.length + 1) / 2) := by
  unfold padded
  split
  · next odd =>
    have some : level ≠ [] := by
      rintro rfl
      simp at odd
    rw [List.getLast?_eq_some_getLast some, List.length_append]
    change level.length + 1 = _
    omega
  · omega

/-- The root of no nodes is a value of its own. -/
def root : List α → α
  | [] => empty
  | [single] => single
  | first :: second :: rest => root (parents merge (first :: second :: rest))
  termination_by level => level.length
  decreasing_by
    rw [length_parents, List.length_cons, List.length_cons]
    omega

/-- The levels follow one another from the leaves to the root. -/
def nodes : List α → List α
  | [] => [empty]
  | [single] => [single]
  | first :: second :: rest => padded (first :: second :: rest) ++ nodes (parents merge (first :: second :: rest))
  termination_by level => level.length
  decreasing_by
    rw [length_parents, List.length_cons, List.length_cons]
    omega

/-- The number of nodes above and at a level of more than one node. -/
def padSum (size : Nat) : Nat := if size ≤ 1 then 0 else 2 * ((size + 1) / 2) + padSum ((size + 1) / 2)

/-- The sum of the sizes of the levels without the nodes that appear twice. -/
def levelSum (size : Nat) : Nat := if size ≤ 1 then 0 else size + levelSum ((size + 1) / 2)

variable {merge empty}

theorem root_cons_cons (first second : α) (rest : List α) :
    root merge empty (first :: second :: rest) = root merge empty (parents merge (first :: second :: rest)) := by
  rw [root]

theorem nodes_cons_cons (first second : α) (rest : List α) : nodes merge empty (first :: second :: rest) =
    padded (first :: second :: rest) ++ nodes merge empty (parents merge (first :: second :: rest)) := by
  rw [nodes]

theorem padSum_small {size : Nat} (small : size ≤ 1) : padSum size = 0 := by
  rw [padSum, if_pos small]

theorem padSum_great {size : Nat} (great : 1 < size) : padSum size = 2 * ((size + 1) / 2) + padSum ((size + 1) / 2) := by
  rw [padSum, if_neg (Nat.not_le.mpr great)]

theorem levelSum_small {size : Nat} (small : size ≤ 1) : levelSum size = 0 := by
  rw [levelSum, if_pos small]

theorem levelSum_great {size : Nat} (great : 1 < size) : levelSum size = size + levelSum ((size + 1) / 2) := by
  rw [levelSum, if_neg (Nat.not_le.mpr great)]

theorem length_nodes (level : List α) : (nodes merge empty level).length = padSum level.length + 1 := by
  induction level using nodes.induct merge with
  | case1 => simp [nodes, padSum_small]
  | case2 single => simp [nodes, padSum_small]
  | case3 first second rest ih =>
    have great : 1 < (first :: second :: rest).length := by
      rw [List.length_cons, List.length_cons]
      omega
    rw [nodes_cons_cons, List.length_append, length_padded, ih, length_parents, padSum_great great, Nat.add_assoc]

/-- The sum of the sizes is at most three times the first size. -/
theorem levelSum_le (size : Nat) : levelSum size ≤ 3 * size := by
  induction size using levelSum.induct with
  | case1 size small =>
    rw [levelSum_small small]
    exact Nat.zero_le _
  | case2 size great ih =>
    rw [levelSum_great (Nat.not_le.mp great)]
    by_cases two : size = 2
    · subst two
      rw [levelSum_small (by decide)]
      decide
    · omega

theorem levelSum_le_padSum (size : Nat) : levelSum size ≤ padSum size := by
  induction size using levelSum.induct with
  | case1 size small =>
    rw [levelSum_small small]
    exact Nat.zero_le _
  | case2 size great ih =>
    rw [levelSum_great (Nat.not_le.mp great), padSum_great (Nat.not_le.mp great)]
    omega

/-- No node appears twice above a level if and only if its size is a power of two. -/
theorem padSum_eq_levelSum_iff {size : Nat} (positive : 0 < size) :
    padSum size = levelSum size ↔ ∃ exponent, size = 2 ^ exponent := by
  induction size using levelSum.induct with
  | case1 size small =>
    have one : size = 1 := by omega
    rw [padSum_small small, levelSum_small small]
    exact iff_of_true rfl ⟨0, one⟩
  | case2 size great ih =>
    have below := levelSum_le_padSum ((size + 1) / 2)
    rw [levelSum_great (Nat.not_le.mp great), padSum_great (Nat.not_le.mp great)]
    constructor
    · intro same
      obtain ⟨exponent, half⟩ := (ih (by omega)).mp (by omega)
      refine ⟨exponent + 1, ?_⟩
      rw [Nat.pow_succ]
      omega
    · rintro ⟨exponent, rfl⟩
      cases exponent with
      | zero => exact absurd (Nat.le_refl 1) great
      | succ exponent =>
        have half : (2 ^ (exponent + 1) + 1) / 2 = 2 ^ exponent := by
          rw [Nat.pow_succ]
          omega
        rw [half] at ih ⊢
        rw [(ih (Nat.two_pow_pos exponent)).mpr ⟨exponent, rfl⟩, Nat.pow_succ, Nat.mul_comm]

end MerkleTree
