import Catapult.Proof.Tree.Representation

/-
This file shows that setting and unsetting a key act on the represented map at that key and that a lookup reads the map.
-/

namespace Catapult.Tree

/-- The comparison of two paths ends inside one of them or at a difference. -/
theorem findFirstDifferenceIndex_cases (lhs rhs : TreeNodePath) :
    (∃ rest, rhs = lhs ++ rest ∧ findFirstDifferenceIndex lhs rhs = lhs.length) ∨
    (∃ nibble rest, lhs = rhs ++ nibble :: rest ∧ findFirstDifferenceIndex lhs rhs = rhs.length) ∨
    (∃ shared left restLeft right restRight, left ≠ right ∧ lhs = shared ++ left :: restLeft ∧
      rhs = shared ++ right :: restRight ∧ findFirstDifferenceIndex lhs rhs = shared.length) := by
  induction lhs, rhs using findFirstDifferenceIndex.induct with
  | case1 lhs nibble rhs ih =>
    simp only [findFirstDifferenceIndex, if_true]
    rcases ih with ⟨rest, rfl, same⟩ | ⟨other, rest, rfl, same⟩ | ⟨shared, a, restA, b, restB, apart, rfl, rfl, same⟩
    · exact Or.inl ⟨rest, rfl, by simp [same]⟩
    · exact Or.inr (Or.inl ⟨other, rest, rfl, by simp [same]⟩)
    · exact Or.inr (Or.inr ⟨nibble :: shared, a, restA, b, restB, apart, rfl, rfl, by simp [same]⟩)
  | case2 left lhs right rhs apart =>
    exact Or.inr (Or.inr ⟨[], left, lhs, right, rhs, apart, rfl, rfl, by simp [findFirstDifferenceIndex, apart]⟩)
  | case3 lhs rhs short =>
    match lhs, rhs, short with
    | [], rhs, _ => exact Or.inl ⟨rhs, rfl, by simp [findFirstDifferenceIndex]⟩
    | left :: lhs, [], _ => exact Or.inr (Or.inl ⟨left, lhs, rfl, by simp [findFirstDifferenceIndex]⟩)
    | left :: lhs, right :: rhs, short => exact absurd rfl (short left lhs right rhs rfl)

/-- Paths that differ after a shared part have the length of that part as difference index. -/
theorem findFirstDifferenceIndex_shared (shared : TreeNodePath) {left right : Nibble}
    (apart : left ≠ right) (restLeft restRight : TreeNodePath) :
    findFirstDifferenceIndex (shared ++ left :: restLeft) (shared ++ right :: restRight) = shared.length := by
  induction shared with
  | nil => simp [findFirstDifferenceIndex, apart]
  | cons nibble shared ih => simp [findFirstDifferenceIndex, ih]

/-- A path that is continued by another path is matched as a whole. -/
theorem findFirstDifferenceIndex_append (path rest : TreeNodePath) :
    findFirstDifferenceIndex path (path ++ rest) = path.length := by
  induction path with
  | nil => simp [findFirstDifferenceIndex]
  | cons nibble path ih => simp [findFirstDifferenceIndex, ih]

section Links

variable [Sha3] {D : Type} [DataSource D]

/-- A new branch node has only empty children. -/
theorem LinksRepresent.ofPath (source : D) (path : TreeNodePath) :
    LinksRepresent source (fun _ => .empty) (BranchTreeNode.ofPath path) :=
  ⟨fun _ => rfl, fun _ _ impossible => (nomatch impossible), fun _ _ => ⟨rfl, trivial⟩⟩

/-- Linking a represented node replaces one child. -/
theorem LinksRepresent.setLink {source : D} {children : Nibble → NodeTrie} {branchNode : BranchTreeNode}
    (linked : LinksRepresent source children branchNode) {child : NodeTrie} {node : TreeNode}
    (represented : Represents source child node) (nonempty : child ≠ .empty) (index : Fin 16) :
    LinksRepresent source (Function.update children index child) (branchNode.setLink node index) := by
  refine ⟨fun other => ?_, fun other below pointer => ?_, fun other missing => ?_⟩
  · by_cases same : other = index
    · subst same
      have occupied : child.isEmpty = false := Bool.eq_false_iff.mpr (by simpa using nonempty)
      simp [BranchTreeNode.setLink, occupied]
    · simp only [BranchTreeNode.setLink, Function.update_of_ne same]
      exact linked.linkSet other
  · by_cases same : other = index
    · subst same
      simp only [BranchTreeNode.setLink, Function.update_self, Option.some.injEq] at pointer ⊢
      subst pointer
      exact ⟨nonempty, represented⟩
    · simp only [BranchTreeNode.setLink, Function.update_of_ne same] at pointer ⊢
      exact linked.pointer other below pointer
  · by_cases same : other = index
    · subst same
      simp [BranchTreeNode.setLink] at missing
    · simp only [BranchTreeNode.setLink, Function.update_of_ne same] at missing ⊢
      exact linked.stored other missing

/-- Changing the path keeps the links. -/
theorem LinksRepresent.withPath {source : D} {children : Nibble → NodeTrie} {branchNode : BranchTreeNode}
    (linked : LinksRepresent source children branchNode) (path : TreeNodePath) :
    LinksRepresent source children { branchNode with path } :=
  ⟨linked.linkSet, linked.pointer, linked.stored⟩

omit [Sha3] in
/-- Two different leaves are joined by a fork at their first difference. -/
theorem branchLeafNode_shared (shared : TreeNodePath) {left right : Nibble} (apart : left ≠ right)
    (restLeft restRight : TreeNodePath) (oldValue newValue : Hash256) :
    branchLeafNode ⟨shared ++ left :: restLeft, oldValue⟩ ⟨shared ++ right :: restRight, newValue⟩ =
      some (((BranchTreeNode.ofPath shared).setLink (.leaf ⟨restLeft, oldValue⟩) left).setLink
        (.leaf ⟨restRight, newValue⟩) right) := by
  simp [branchLeafNode, findFirstDifferenceIndex_shared shared apart]

/-- A pair that continues the branch path is set below the linked child. -/
theorem updateBranchLink_descend (source : D) (set : TreeNode → PathValuePair → Option TreeNode)
    (branchNode : BranchTreeNode) (nibble : Nibble) (rest : TreeNodePath) (value : Hash256) :
    updateBranchLink source set branchNode ⟨branchNode.path ++ nibble :: rest, value⟩ =
      (set (getLinkedNode source branchNode nibble) ⟨rest, value⟩).map
        fun node => branchNode.setLink node nibble := by
  by_cases consumed : branchNode.path = []
  · simp only [updateBranchLink, findFirstDifferenceIndex_append, consumed]
    simp only [insertNewPairIntoBranch]
    simp [Option.map_eq_bind]
  · simp only [updateBranchLink, findFirstDifferenceIndex_append]
    simp [consumed, insertNewPairIntoBranch, Option.map_eq_bind]

/-- A pair that leaves the branch path splits the branch. -/
theorem updateBranchLink_split (source : D) (set : TreeNode → PathValuePair → Option TreeNode)
    (branchNode : BranchTreeNode) (shared : TreeNodePath) {left right : Nibble} (apart : left ≠ right)
    (restLeft restRight : TreeNodePath) (value : Hash256) (path : branchNode.path = shared ++ left :: restLeft) :
    updateBranchLink source set branchNode ⟨shared ++ right :: restRight, value⟩ = (set .empty ⟨restRight, value⟩).map fun node =>
        ((BranchTreeNode.ofPath shared).setLink node right).setLink
          (.ofBranch { branchNode with path := restLeft }) left := by
  simp only [updateBranchLink, path, findFirstDifferenceIndex_shared shared apart]
  simp [insertNewPairIntoBranch, Option.map_eq_bind]

/-- A fork represents the trie that a split creates. -/
theorem represents_fork {source : D} {shared : TreeNodePath} {left right : Nibble}
    {first second : NodeTrie} {node1 node2 : TreeNode} (firstRepresented : Represents source first node1)
    (secondRepresented : Represents source second node2) (firstPresent : first ≠ .empty)
    (secondPresent : second ≠ .empty) : Represents source (.fork shared left first right second)
      (.ofBranch (((BranchTreeNode.ofPath shared).setLink node1 left).setLink node2 right)) :=
  represents_ofBranch.mpr ⟨rfl, ((LinksRepresent.ofPath source shared).setLink firstRepresented
    firstPresent left).setLink secondRepresented secondPresent right⟩

/-- The result of setting a key stands for the updated map. -/
def SetsKey (source : D) (trie : NodeTrie) (depth : Nat) (pair : PathValuePair) (result : Option TreeNode) : Prop :=
  ∃ node trie', result = some node ∧ Represents source trie' node ∧ trie'.Canonical depth ∧
    trie' ≠ .empty ∧ trie'.find = Function.update trie.find pair.path (some pair.value)

/-- Setting a key in a leaf replaces the leaf or splits it. -/
theorem setNode_leaf (source : D) (fuel : Nat) (leafNode : LeafTreeNode) (pair : PathValuePair)
    (length : leafNode.path.length = pair.path.length) : SetsKey source (.leaf leafNode.path leafNode.value) pair.path.length pair
      (setNode source (fuel + 1) (.leaf leafNode) pair) := by
  obtain ⟨leafPath, oldValue⟩ := leafNode
  obtain ⟨newPath, newValue⟩ := pair
  rcases findFirstDifferenceIndex_cases leafPath newPath with
    ⟨rest, rfl, _⟩ | ⟨nibble, rest, rfl, _⟩ | ⟨shared, left, restLeft, right, restRight, apart, rfl, rfl, _⟩
  · have none : rest = [] := List.eq_nil_of_length_eq_zero (by simpa using length)
    subst none
    refine ⟨_, .leaf leafPath newValue, by simp [setNode, createLeaf], rfl, by simp [RadixTrie.Canonical],
      by simp, ?_⟩
    funext key
    by_cases same : key = leafPath <;> simp [same]
  · simp at length
  · have different : shared ++ left :: restLeft ≠ shared ++ right :: restRight := by simp [apart]
    refine ⟨_, .fork shared left (.leaf restLeft oldValue) right (.leaf restRight newValue), ?_,
      represents_fork rfl rfl (by simp) (by simp), ?_, by simp [RadixTrie.fork], ?_⟩
    · simp only [setNode, if_neg different, branchLeafNode_shared shared apart]
      rfl
    · have lengths : restLeft.length = restRight.length := by simpa using length
      have depth : (shared ++ right :: restRight).length = shared.length + 1 + restRight.length := by
        simp; omega
      rw [depth]
      exact RadixTrie.Canonical.fork lengths rfl apart (by simp) (by simp)
    · rw [RadixTrie.find_fork shared apart]
      simp [RadixTrie.prepend]

/-- A key that leaves the path of a branch splits the branch. -/
theorem setNode_split (source : D) (fuel : Nat) {children : Nibble → NodeTrie}
    {branchNode : BranchTreeNode} (linked : LinksRepresent source children branchNode)
    {shared restLeft restRight : TreeNodePath} {left right : Nibble} (apart : left ≠ right)
    (value : Hash256) (path : branchNode.path = shared ++ left :: restLeft)
    (shape : RadixTrie.Canonical (shared ++ right :: restRight).length
      (.branch branchNode.path children)) :
    SetsKey source (.branch branchNode.path children) (shared ++ right :: restRight).length
      ⟨shared ++ right :: restRight, value⟩
      (setNode source (fuel + 2) (.ofBranch branchNode) ⟨shared ++ right :: restRight, value⟩) := by
  -- The old branch keeps its children below the part of its path after the fork.
  have oldShape : RadixTrie.Canonical restRight.length (.branch restLeft children) := by
    obtain ⟨bound, below, forked⟩ := shape
    rw [path] at bound below
    refine ⟨by simpa using bound, fun index => ?_, forked⟩
    have same : (shared ++ right :: restRight).length - (shared ++ left :: restLeft).length - 1 =
        restRight.length - restLeft.length - 1 := by simp; omega
    rw [← same]
    exact below index
  refine ⟨.ofBranch (((BranchTreeNode.ofPath shared).setLink (.leaf ⟨restRight, value⟩) right).setLink
      (.ofBranch { branchNode with path := restLeft }) left),
    .fork shared right (.leaf restRight value) left (.branch restLeft children), ?_, ?_, ?_,
    by simp [RadixTrie.fork], ?_⟩
  · change (updateBranchLink source (setNode source (fuel + 1)) branchNode _).map _ = _
    rw [updateBranchLink_split source _ branchNode shared apart restLeft restRight value path]
    rfl
  · exact represents_fork rfl (represents_ofBranch.mpr ⟨rfl, linked.withPath restLeft⟩) (by simp)
      (by simp)
  · have depth : (shared ++ right :: restRight).length = shared.length + 1 + restRight.length := by
      simp; omega
    rw [depth]
    exact RadixTrie.Canonical.fork rfl oldShape apart.symm (by simp) (by simp)
  · have forked := RadixTrie.find_fork shared apart (.branch restLeft children) restRight value
    rw [RadixTrie.fork] at forked ⊢
    rw [Function.update_comm apart.symm, forked, path]
    simp [RadixTrie.prepend]

/-- Setting a key in a represented tree updates the represented map. -/
theorem setNode_represents {source : D} (zero : DataSource.get source zeroHash = .empty)
    (fuel : Nat) {trie : NodeTrie} {node : TreeNode} {depth : Nat} {pair : PathValuePair}
    (represented : Represents source trie node) (shape : trie.Canonical depth)
    (length : pair.path.length = depth) (enough : depth < fuel) :
    SetsKey source trie depth pair (setNode source fuel node pair) := by
  induction fuel generalizing trie node depth pair with
  | zero => omega
  | succ fuel ih =>
    subst length
    cases trie with
    | empty =>
      rw [show node = .empty from represented]
      refine ⟨_, .leaf pair.path pair.value, rfl, rfl, rfl, by simp, ?_⟩
      funext key
      by_cases same : key = pair.path <;> simp [same]
    | leaf path value =>
      rw [show node = _ from represented]
      exact setNode_leaf source fuel ⟨path, value⟩ pair shape
    | branch path children =>
      obtain ⟨branchNode, rfl, rfl, linked⟩ := represented.exists_branch
      obtain ⟨newPath, value⟩ := pair
      have bound : branchNode.path.length < newPath.length := shape.1
      rcases findFirstDifferenceIndex_cases branchNode.path newPath with
        ⟨rest, rfl, _⟩ | ⟨nibble, rest, equal, _⟩ |
        ⟨shared, left, restLeft, right, restRight, apart, path, rfl, _⟩
      · cases rest with
        | nil => simp at bound
        | cons nibble rest =>
          have childDepth : (branchNode.path ++ nibble :: rest).length - branchNode.path.length - 1 = rest.length := by simp
          obtain ⟨child, childTrie, ran, childRepresented, childShape, present, found⟩ :=
            @ih _ _ _ ⟨rest, value⟩ (linked.getLinkedNode zero nibble) (shape.2.1 nibble)
              childDepth.symm (by simp at enough ⊢; omega)
          refine ⟨.ofBranch (branchNode.setLink child nibble),
            .branch branchNode.path (Function.update children nibble childTrie), ?_, ?_, ?_, by simp, ?_⟩
          · change (updateBranchLink source (setNode source fuel) branchNode _).map _ = _
            rw [updateBranchLink_descend, ran]
            rfl
          · exact represents_ofBranch.mpr ⟨rfl, linked.setLink childRepresented present nibble⟩
          · exact shape.update childShape present
          · exact RadixTrie.find_branch_update found
      · rw [equal, List.length_append, List.length_cons] at bound
        omega
      · have positive : 0 < fuel := by simp at enough; omega
        obtain ⟨previous, rfl⟩ := Nat.exists_eq_succ_of_ne_zero positive.ne'
        exact setNode_split source previous linked apart value path shape

end Links

/-- The difference index never passes the end of the first path. -/
theorem findFirstDifferenceIndex_le (lhs rhs : TreeNodePath) : findFirstDifferenceIndex lhs rhs ≤ lhs.length := by
  rcases findFirstDifferenceIndex_cases lhs rhs with
    ⟨_, _, index⟩ | ⟨_, _, rfl, index⟩ | ⟨shared, left, rest, _, _, _, rfl, _, index⟩
  · omega
  · rw [index]; simp
  · rw [index]; simp

variable [Sha3] {D : Type} [DataSource D]

/-- Clearing a link removes one child. -/
theorem LinksRepresent.clearLink {source : D} {children : Nibble → NodeTrie} {branchNode : BranchTreeNode}
    (linked : LinksRepresent source children branchNode) (index : Fin 16) :
    LinksRepresent source (Function.update children index .empty) (branchNode.clearLink index) := by
  refine ⟨fun other => ?_, fun other below pointer => ?_, fun other missing => ?_⟩
  · by_cases same : other = index
    · subst same
      simp [BranchTreeNode.clearLink, RadixTrie.isEmpty]
    · simp only [BranchTreeNode.clearLink, Function.update_of_ne same]
      exact linked.linkSet other
  · by_cases same : other = index
    · subst same
      simp [BranchTreeNode.clearLink] at pointer
    · simp only [BranchTreeNode.clearLink, Function.update_of_ne same] at pointer ⊢
      exact linked.pointer other below pointer
  · by_cases same : other = index
    · subst same
      simp only [BranchTreeNode.clearLink, Function.update_self]
      exact ⟨rfl, trivial⟩
    · simp only [BranchTreeNode.clearLink, Function.update_of_ne same] at missing ⊢
      exact linked.stored other missing

/-- A represented branch sets the bits of its nonempty children. -/
theorem LinksRepresent.linkSet_iff {source : D} {children : Nibble → NodeTrie}
    {branchNode : BranchTreeNode} (linked : LinksRepresent source children branchNode) (index : Fin 16) :
    branchNode.linkSet index = true ↔ children index ≠ .empty := by
  rw [linked.linkSet index]
  simp

/-- A branch with one link has one nonempty child, which is its highest link. -/
theorem LinksRepresent.single {source : D} {children : Nibble → NodeTrie} {branchNode : BranchTreeNode}
    (linked : LinksRepresent source children branchNode) (one : branchNode.numLinks = 1) :
    ∃ index, branchNode.highestLinkIndex = some index ∧ children index ≠ .empty ∧
      ∀ other, other ≠ index → children other = .empty := by
  rw [BranchTreeNode.numLinks, List.countP_eq_length_filter] at one
  obtain ⟨index, only⟩ := List.length_eq_one_iff.mp one
  have iff (other : Fin 16) : children other ≠ .empty ↔ other = index := by
    have member : other ∈ (List.finRange 16).filter branchNode.linkSet ↔ other = index := by
      rw [only, List.mem_singleton]
    rw [← linked.linkSet_iff other, ← member]
    simp
  refine ⟨index, ?_, (iff index).mpr rfl, fun other apart => ?_⟩
  · rw [BranchTreeNode.highestLinkIndex, ← List.head?_filter, List.filter_reverse, only]
    rfl
  · by_contra present
    exact apart ((iff other).mp present)

/-- A branch with a child and not exactly one link forks. -/
theorem LinksRepresent.forks {source : D} {children : Nibble → NodeTrie} {branchNode : BranchTreeNode}
    (linked : LinksRepresent source children branchNode) (several : branchNode.numLinks ≠ 1)
    {index : Fin 16} (present : children index ≠ .empty) :
    ∃ left right, left ≠ right ∧ children left ≠ .empty ∧ children right ≠ .empty := by
  have member : index ∈ (List.finRange 16).filter branchNode.linkSet := by
    simpa using (linked.linkSet_iff index).mpr present
  obtain ⟨other, inside, apart⟩ : ∃ other ∈ (List.finRange 16).filter branchNode.linkSet, other ≠ index := by
    by_contra none
    push Not at none
    apply several
    have repeated := List.eq_replicate_iff.mpr ⟨rfl, none⟩
    have distinct := (List.nodup_finRange 16).filter branchNode.linkSet
    rw [repeated, List.nodup_replicate] at distinct
    have positive := List.length_pos_of_mem member
    rw [BranchTreeNode.numLinks, List.countP_eq_length_filter]
    omega
  have set : branchNode.linkSet other = true := by simpa using inside
  exact ⟨other, index, apart, (linked.linkSet_iff other).mp set, present⟩

/-- Extending the path of a node prepends the same prefix to its trie. -/
theorem Represents.setPath {source : D} {trie : NodeTrie} {node : TreeNode}
    (represented : Represents source trie node) (nonempty : trie ≠ .empty) (front : TreeNodePath) :
    ∃ node', node.setPath (front ++ node.path) = some node' ∧ Represents source (trie.prepend front) node' := by
  cases trie with
  | empty => exact absurd rfl nonempty
  | leaf path value =>
    rw [show node = _ from represented]
    exact ⟨_, rfl, rfl⟩
  | branch path children =>
    obtain ⟨branchNode, rfl, rfl, linked⟩ := represented.exists_branch
    exact ⟨.ofBranch { branchNode with path := front ++ branchNode.path }, rfl, represents_ofBranch.mpr ⟨rfl, linked.withPath _⟩⟩

/-- Unlinking the removed child leaves a canonical trie without its keys. -/
theorem unsetBranchLink_represents {source : D} (zero : DataSource.get source zeroHash = .empty)
    {children : Nibble → NodeTrie} {branchNode : BranchTreeNode} {depth : Nat}
    (linked : LinksRepresent source children branchNode)
    (shape : RadixTrie.Canonical depth (.branch branchNode.path children)) (index : Fin 16) :
    ∃ node trie, unsetBranchLink source branchNode index = some node ∧ Represents source trie node ∧
      trie.Canonical depth ∧ trie ≠ .empty ∧
      trie.find = (RadixTrie.branch branchNode.path (Function.update children index .empty)).find := by
  have cleared := linked.clearLink index
  have below : ∀ other, RadixTrie.Canonical (depth - branchNode.path.length - 1)
      (Function.update children index .empty other) := by
    intro other
    by_cases same : other = index
    · subst same; rw [Function.update_self]; trivial
    · rw [Function.update_of_ne same]; exact shape.2.1 other
  by_cases one : (branchNode.clearLink index).numLinks = 1
  · obtain ⟨last, highest, present, single⟩ := cleared.single one
    obtain ⟨node, moved, represented⟩ :=
      (cleared.getLinkedNode zero last).setPath present (branchNode.path ++ [last])
    refine ⟨node, _, ?_, represented, ?_, ?_, (RadixTrie.find_branch_single last single).symm⟩
    · simp only [unsetBranchLink, one, highest]
      simpa [BranchTreeNode.clearLink] using moved
    · have depths : depth = (branchNode.path ++ [last]).length + (depth - branchNode.path.length - 1) := by
        have bound := shape.1
        simp
        omega
      rw [depths]
      exact (below last).prepend _
    · intro empty
      apply present
      cases equal : Function.update children index .empty last with
      | empty => rfl
      | leaf path value => rw [equal] at empty; cases empty
      | branch path children => rw [equal] at empty; cases empty
  · obtain ⟨survivor, apart, present⟩ : ∃ other, other ≠ index ∧ children other ≠ .empty := by
      obtain ⟨_, _, left, right, different, presentLeft, presentRight⟩ := shape
      by_cases same : left = index
      · exact ⟨right, fun equal => different (same.trans equal.symm), presentRight⟩
      · exact ⟨left, same, presentLeft⟩
    have remains : Function.update children index .empty survivor ≠ .empty := by
      rwa [Function.update_of_ne apart]
    refine ⟨.ofBranch (branchNode.clearLink index), _, ?_, represents_ofBranch.mpr ⟨rfl, cleared⟩,
      ⟨shape.1, below, cleared.forks one remains⟩, by simp, rfl⟩
    simp [unsetBranchLink, Ne.symm one]

/-- A key that is too long for a tree is not found although descents skip branch paths. -/
theorem unsetNode_long {source : D} (zero : DataSource.get source zeroHash = .empty) (fuel : Nat)
    {trie : NodeTrie} {node : TreeNode} {depth : Nat} {keyPath : TreeNodePath}
    (represented : Represents source trie node) (shape : trie.Canonical depth)
    (long : depth < keyPath.length) (enough : keyPath.length < fuel) (updatedNode : TreeNode) (canMerge : Bool) :
    unsetNode source fuel node keyPath updatedNode canMerge = some ⟨false, updatedNode, canMerge⟩ := by
  induction fuel generalizing trie node depth keyPath updatedNode with
  | zero => omega
  | succ fuel ih =>
    have stops := findFirstDifferenceIndex_le node.path keyPath
    cases trie with
    | empty => rw [show node = .empty from represented]; rfl
    | leaf path value =>
      rw [show node = _ from represented] at stops ⊢
      have length : path.length = depth := shape
      have missed : findFirstDifferenceIndex path keyPath ≠ keyPath.length := by
        simp only [TreeNode.path] at stops
        omega
      simp [unsetNode, TreeNode.path, missed]
    | branch path children =>
      obtain ⟨branchNode, rfl, rfl, linked⟩ := represented.exists_branch
      change findFirstDifferenceIndex branchNode.path keyPath ≤ branchNode.path.length at stops
      have bound := shape.1
      generalize index : findFirstDifferenceIndex branchNode.path keyPath = differenceIndex at stops
      have inside : differenceIndex < keyPath.length := by omega
      have below := linked.getLinkedNode zero (keyPath.get ⟨differenceIndex, inside⟩)
      have continued := @ih _ _ _ (keyPath.drop (differenceIndex + 1)) below (shape.2.1 _)
        (by rw [List.length_drop]; omega) (by rw [List.length_drop]; omega) .empty
      have read : keyPath[differenceIndex]? = some (keyPath.get ⟨differenceIndex, inside⟩) := by
        simp [inside]
      simp only [unsetNode, TreeNode.ofBranch, TreeNode.path, index, inside.ne, if_false, read,
        Option.bind_eq_bind, Option.bind_some, continued]
      split <;> rfl

/-- The result of unsetting a key keeps the map or removes the key from it. -/
structure UnsetsKey (source : D) (trie : NodeTrie) (depth : Nat) (keyPath : TreeNodePath)
    (updatedNode : TreeNode) (result : UnsetResult) : Prop where
  absent : trie.find keyPath = none → result = ⟨false, updatedNode, true⟩
  present : trie.find keyPath ≠ none → result.found = true ∧
    ∃ trie', Represents source trie' result.updatedNode ∧ trie'.Canonical depth ∧
      trie'.find = Function.update trie.find keyPath none ∧ result.canMerge = trie'.isEmpty

/-- A branch asks the child behind the next nibble if its path is fully matched. -/
theorem unsetNode_descend (source : D) (fuel : Nat) (branchNode : BranchTreeNode) (nibble : Nibble)
    (rest : TreeNodePath) (updatedNode : TreeNode) (canMerge : Bool) :
    unsetNode source (fuel + 1) (.ofBranch branchNode) (branchNode.path ++ nibble :: rest) updatedNode
        canMerge =
      if (getLinkedNode source branchNode nibble).isEmpty then some ⟨false, updatedNode, canMerge⟩
      else do
        let below ← unsetNode source fuel (getLinkedNode source branchNode nibble) rest .empty canMerge
        if !below.found then return ⟨false, updatedNode, below.canMerge⟩
        else if below.canMerge then return ⟨true, ← unsetBranchLink source branchNode nibble, false⟩
        else return ⟨true, .ofBranch (branchNode.setLink below.updatedNode nibble), false⟩ := by
  simp [unsetNode, TreeNode.ofBranch, TreeNode.path, findFirstDifferenceIndex_append]

/-- A branch whose path is not fully matched does not hold the key. -/
theorem unsetNode_mismatch {source : D} (zero : DataSource.get source zeroHash = .empty) (fuel : Nat)
    {children : Nibble → NodeTrie} {branchNode : BranchTreeNode} (linked : LinksRepresent source children branchNode)
    {shared restLeft restRight : TreeNodePath} {left right : Nibble} (apart : left ≠ right)
    (path : branchNode.path = shared ++ left :: restLeft)
    (shape : RadixTrie.Canonical (shared ++ right :: restRight).length (.branch branchNode.path children))
    (enough : (shared ++ right :: restRight).length < fuel + 1) (updatedNode : TreeNode) :
    unsetNode source (fuel + 1) (.ofBranch branchNode) (shared ++ right :: restRight) updatedNode true =
      some ⟨false, updatedNode, true⟩ := by
  have bound := shape.1
  have skipped := unsetNode_long zero fuel (linked.getLinkedNode zero right) (shape.2.1 right)
    (show _ < restRight.length by simp [path] at bound ⊢; omega) (by simp at enough; omega) .empty true
  simp only [unsetNode, TreeNode.ofBranch, TreeNode.path, path, findFirstDifferenceIndex_shared shared apart]
  simp [← path, skipped]

/-- Unsetting a key in a leaf empties the leaf if the paths match. -/
theorem unsetNode_leaf (source : D) (fuel : Nat) (leafNode : LeafTreeNode) (keyPath : TreeNodePath)
    (length : leafNode.path.length = keyPath.length) (updatedNode : TreeNode) :
    ∃ result, unsetNode source (fuel + 1) (.leaf leafNode) keyPath updatedNode true = some result ∧
      UnsetsKey source (.leaf leafNode.path leafNode.value) keyPath.length keyPath updatedNode result := by
  obtain ⟨leafPath, value⟩ := leafNode
  rcases findFirstDifferenceIndex_cases leafPath keyPath with
    ⟨rest, rfl, index⟩ | ⟨nibble, rest, rfl, _⟩ |
    ⟨shared, left, restLeft, right, restRight, apart, rfl, rfl, index⟩
  · have none : rest = [] := List.eq_nil_of_length_eq_zero (by simpa using length)
    subst none
    rw [List.append_nil] at index ⊢
    refine ⟨⟨true, .empty, true⟩, by simp [unsetNode, TreeNode.path, index], by simp, fun _ =>
      ⟨rfl, .empty, rfl, trivial, ?_, rfl⟩⟩
    funext key
    by_cases same : key = leafPath <;> simp [same]
  · simp at length
  · have different : shared ++ right :: restRight ≠ shared ++ left :: restLeft := by simp [apart.symm]
    exact ⟨⟨false, updatedNode, true⟩, by simp [unsetNode, TreeNode.path, index], fun _ => rfl,
      fun found => absurd (by simp [different]) found⟩

/-- Unsetting a key below a fully matched branch path relinks or merges the branch. -/
theorem unsetNode_branch {source : D} (zero : DataSource.get source zeroHash = .empty) (fuel : Nat)
    {children : Nibble → NodeTrie} {branchNode : BranchTreeNode} {depth : Nat}
    (linked : LinksRepresent source children branchNode) (shape : RadixTrie.Canonical depth (.branch branchNode.path children))
    {nibble : Nibble} {rest : TreeNodePath} (updatedNode : TreeNode) {result : UnsetResult}
    (ran : unsetNode source fuel (getLinkedNode source branchNode nibble) rest .empty true = some result)
    (below : UnsetsKey source (children nibble) (depth - branchNode.path.length - 1) rest .empty result) :
    ∃ result, unsetNode source (fuel + 1) (.ofBranch branchNode) (branchNode.path ++ nibble :: rest)
        updatedNode true = some result ∧
      UnsetsKey source (.branch branchNode.path children) depth (branchNode.path ++ nibble :: rest)
        updatedNode result := by
  rw [unsetNode_descend, (linked.getLinkedNode zero nibble).isEmpty, ran]
  by_cases missing : (children nibble).find rest = none
  · refine ⟨⟨false, updatedNode, true⟩, ?_, fun _ => rfl, fun found => absurd ?_ found⟩
    · rw [below.absent missing]
      simp
    · rwa [RadixTrie.find_branch_append]
  · have occupied : (children nibble).isEmpty = false := by
      rw [RadixTrie.isEmpty_eq_false_iff]
      intro empty
      rw [empty] at missing
      exact missing rfl
    have inside : (RadixTrie.branch branchNode.path children).find (branchNode.path ++ nibble :: rest) ≠
        none := by rwa [RadixTrie.find_branch_append]
    obtain ⟨found, child, represented, childShape, updated, merge⟩ := below.present missing
    by_cases empty : child = .empty
    · subst empty
      obtain ⟨node, trie, unlinked, nodeRepresented, trieShape, present, cleared⟩ :=
        unsetBranchLink_represents zero linked shape nibble
      have nonempty : trie.isEmpty = false := by simpa using present
      refine ⟨⟨true, node, false⟩, ?_, fun absent => absurd absent inside,
        fun _ => ⟨rfl, trie, nodeRepresented, trieShape, ?_, nonempty.symm⟩⟩
      · have merged : result.canMerge = true := merge
        simp [occupied, found, merged, unlinked]
      · rw [cleared]
        exact RadixTrie.find_branch_update updated
    · have nonempty : child.isEmpty = false := by simpa using empty
      refine ⟨⟨true, .ofBranch (branchNode.setLink result.updatedNode nibble), false⟩, ?_,
        fun absent => absurd absent inside, fun _ => ⟨rfl, _, represents_ofBranch.mpr
          ⟨rfl, linked.setLink represented empty nibble⟩, shape.update childShape empty,
          RadixTrie.find_branch_update updated, rfl⟩⟩
      simp [occupied, found, merge, nonempty]

/-- Unsetting a key in a represented tree removes the key from the represented map. -/
theorem unsetNode_represents {source : D} (zero : DataSource.get source zeroHash = .empty) (fuel : Nat)
    {trie : NodeTrie} {node : TreeNode} {depth : Nat} {keyPath : TreeNodePath}
    (represented : Represents source trie node) (shape : trie.Canonical depth)
    (length : keyPath.length = depth) (enough : depth < fuel) (updatedNode : TreeNode) :
    ∃ result, unsetNode source fuel node keyPath updatedNode true = some result ∧
      UnsetsKey source trie depth keyPath updatedNode result := by
  induction fuel generalizing trie node depth keyPath updatedNode with
  | zero => omega
  | succ fuel ih =>
    subst length
    cases trie with
    | empty =>
      rw [show node = .empty from represented]
      exact ⟨_, rfl, fun _ => rfl, fun found => absurd rfl found⟩
    | leaf path value =>
      rw [show node = _ from represented]
      exact unsetNode_leaf source fuel ⟨path, value⟩ keyPath shape updatedNode
    | branch path children =>
      obtain ⟨branchNode, rfl, rfl, linked⟩ := represented.exists_branch
      have bound : branchNode.path.length < keyPath.length := shape.1
      rcases findFirstDifferenceIndex_cases branchNode.path keyPath with
        ⟨rest, rfl, _⟩ | ⟨nibble, rest, equal, _⟩ |
        ⟨shared, left, restLeft, right, restRight, apart, path, rfl, _⟩
      · cases rest with
        | nil => simp at bound
        | cons nibble rest =>
          have childDepth : (branchNode.path ++ nibble :: rest).length - branchNode.path.length - 1 = rest.length := by simp
          obtain ⟨result, ran, below⟩ := ih (linked.getLinkedNode zero nibble) (shape.2.1 nibble)
            childDepth.symm (by simp at enough ⊢; omega) .empty
          exact unsetNode_branch zero fuel linked shape updatedNode ran below
      · rw [equal, List.length_append, List.length_cons] at bound
        omega
      · refine ⟨_, unsetNode_mismatch zero fuel linked apart path shape enough updatedNode,
          fun _ => rfl, fun found => absurd ?_ found⟩
        apply RadixTrie.find_branch_none
        intro symbol rest equal
        rw [path, List.append_assoc] at equal
        have next := List.append_cancel_left equal
        rw [List.cons_append, List.cons.injEq] at next
        exact apart next.1.symm

/-- A lookup answers with the stored value or with the not found result. -/
def lookupAnswer : Option Hash256 → Hash256 × Bool
  | some value => (value, true)
  | none => lookupNotFoundResult

/-- A key that is too long for a tree is not found although descents skip branch paths. -/
theorem lookupNode_long {source : D} (zero : DataSource.get source zeroHash = .empty) (fuel : Nat)
    {trie : NodeTrie} {node : TreeNode} {depth : Nat} {keyPath : TreeNodePath}
    (represented : Represents source trie node) (shape : trie.Canonical depth)
    (long : depth < keyPath.length) (enough : keyPath.length < fuel) (nodePath : List TreeNode) :
    ∃ visited, lookupNode source fuel node keyPath nodePath = some (lookupNotFoundResult, visited) := by
  induction fuel generalizing trie node depth keyPath nodePath with
  | zero => omega
  | succ fuel ih =>
    have stops := findFirstDifferenceIndex_le node.path keyPath
    cases trie with
    | empty => rw [show node = .empty from represented]; exact ⟨_, rfl⟩
    | leaf path value =>
      rw [show node = _ from represented] at stops ⊢
      have length : path.length = depth := shape
      have missed : findFirstDifferenceIndex path keyPath ≠ keyPath.length := by
        simp only [TreeNode.path] at stops
        omega
      exact ⟨_, by simp only [lookupNode, TreeNode.path, missed, if_false]; rfl⟩
    | branch path children =>
      obtain ⟨branchNode, rfl, rfl, linked⟩ := represented.exists_branch
      change findFirstDifferenceIndex branchNode.path keyPath ≤ branchNode.path.length at stops
      have bound := shape.1
      generalize index : findFirstDifferenceIndex branchNode.path keyPath = differenceIndex at stops
      have inside : differenceIndex < keyPath.length := by omega
      have below := linked.getLinkedNode zero (keyPath.get ⟨differenceIndex, inside⟩)
      obtain ⟨visited, continued⟩ := @ih _ _ _ (keyPath.drop (differenceIndex + 1)) below (shape.2.1 _)
        (by rw [List.length_drop]; omega) (by rw [List.length_drop]; omega)
        (nodePath ++ [.ofBranch branchNode])
      have read : keyPath[differenceIndex]? = some (keyPath.get ⟨differenceIndex, inside⟩) := by
        simp [inside]
      simp only [lookupNode, TreeNode.ofBranch, TreeNode.path, index, read, Option.bind_eq_bind, Option.bind_some] at continued ⊢
      split
      · exact ⟨_, rfl⟩
      · exact ⟨visited, continued⟩

/-- A branch asks the child behind the next nibble of the key. -/
theorem lookupNode_next (source : D) (fuel : Nat) (branchNode : BranchTreeNode) (matched : TreeNodePath)
    (nibble : Nibble) (rest : TreeNodePath) (nodePath : List TreeNode)
    (index : findFirstDifferenceIndex branchNode.path (matched ++ nibble :: rest) = matched.length) :
    lookupNode source (fuel + 1) (.ofBranch branchNode) (matched ++ nibble :: rest) nodePath =
      if (getLinkedNode source branchNode nibble).isEmpty then
        some (lookupNotFoundResult, nodePath ++ [.ofBranch branchNode])
      else
        lookupNode source fuel (getLinkedNode source branchNode nibble) rest
          (nodePath ++ [.ofBranch branchNode]) := by
  simp only [lookupNode, TreeNode.ofBranch, TreeNode.path, index]
  simp

/-- A lookup in a represented tree reads the represented map. -/
theorem lookupNode_represents {source : D} (zero : DataSource.get source zeroHash = .empty) (fuel : Nat)
    {trie : NodeTrie} {node : TreeNode} {depth : Nat} {keyPath : TreeNodePath}
    (represented : Represents source trie node) (shape : trie.Canonical depth)
    (length : keyPath.length = depth) (enough : depth < fuel) (nodePath : List TreeNode) :
    ∃ visited, lookupNode source fuel node keyPath nodePath = some (lookupAnswer (trie.find keyPath), visited) := by
  induction fuel generalizing trie node depth keyPath nodePath with
  | zero => omega
  | succ fuel ih =>
    subst length
    cases trie with
    | empty => rw [show node = .empty from represented]; exact ⟨_, rfl⟩
    | leaf path value =>
      rw [show node = _ from represented]
      have sameLength : path.length = keyPath.length := shape
      by_cases same : keyPath = path
      · subst same
        have index := findFirstDifferenceIndex_append keyPath []
        rw [List.append_nil] at index
        exact ⟨_, by simp only [lookupNode, TreeNode.path, index, if_true, RadixTrie.find_leaf]; rfl⟩
      · have missed : findFirstDifferenceIndex path keyPath ≠ keyPath.length := by
          rcases findFirstDifferenceIndex_cases path keyPath with
            ⟨rest, rfl, _⟩ | ⟨_, _, rfl, _⟩ | ⟨shared, _, _, _, _, _, rfl, rfl, index⟩
          · have none : rest = [] := List.eq_nil_of_length_eq_zero (by simpa using sameLength.symm)
            exact absurd (by rw [none, List.append_nil]) same
          · simp at sameLength
          · rw [index]; simp
        exact ⟨_, by simp only [lookupNode, TreeNode.path, missed, if_false, RadixTrie.find_leaf, same]; rfl⟩
    | branch path children =>
      obtain ⟨branchNode, rfl, rfl, linked⟩ := represented.exists_branch
      have bound : branchNode.path.length < keyPath.length := shape.1
      rcases findFirstDifferenceIndex_cases branchNode.path keyPath with
        ⟨rest, rfl, index⟩ | ⟨nibble, rest, equal, _⟩ |
        ⟨shared, left, restLeft, right, restRight, apart, path, rfl, index⟩
      · cases rest with
        | nil => simp at bound
        | cons nibble rest =>
          have childDepth : (branchNode.path ++ nibble :: rest).length - branchNode.path.length - 1 = rest.length := by simp
          have below := linked.getLinkedNode zero nibble
          obtain ⟨visited, continued⟩ := ih below (shape.2.1 nibble) childDepth.symm
            (by simp at enough ⊢; omega) (nodePath ++ [.ofBranch branchNode])
          rw [RadixTrie.find_branch_append, lookupNode_next source fuel branchNode _ nibble rest
            nodePath index, below.isEmpty]
          split
          · next empty =>
            rw [(RadixTrie.isEmpty_iff _).mp empty]
            exact ⟨_, rfl⟩
          · exact ⟨visited, continued⟩
      · rw [equal, List.length_append, List.length_cons] at bound
        omega
      · have outside : (RadixTrie.branch branchNode.path children).find (shared ++ right :: restRight) = none := by
          apply RadixTrie.find_branch_none
          intro symbol rest equal
          rw [path, List.append_assoc] at equal
          have next := List.append_cancel_left equal
          rw [List.cons_append, List.cons.injEq] at next
          exact apart next.1.symm
        have below := linked.getLinkedNode zero right
        obtain ⟨visited, skipped⟩ := lookupNode_long zero fuel below (shape.2.1 right)
          (show _ < restRight.length by simp [path] at bound ⊢; omega) (by simp at enough; omega)
          (nodePath ++ [.ofBranch branchNode])
        rw [outside, lookupNode_next source fuel branchNode shared right restRight nodePath index]
        split
        · exact ⟨_, rfl⟩
        · exact ⟨visited, skipped⟩

end Catapult.Tree
