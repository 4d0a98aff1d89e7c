import Catapult.Construction.Finalization.RoundContext
import Catapult.Library.Runs
import Catapult.Library.Tally
import Mathlib.Data.List.Chain

/-
This file shows how the ancestors of a block depend on the added branches and which votes contribute to the weights of a round.
-/

namespace Catapult.Finalization

open FinalizationHashTree Tally

/-- The keys are distinct and every parent is older than its child. -/
def Rooted : List TreeNode → Prop
  | [] => True
  | node :: nodes => node.key ∉ nodes.map TreeNode.key ∧
      (∀ parent, node.parent = some parent → parent ∈ nodes.map TreeNode.key) ∧ Rooted nodes

@[simp]
theorem findAncestorsFrom_none (nodes : List TreeNode) : findAncestorsFrom nodes none = [] := by
  cases nodes <;> rfl

/-- The pointers lead only to nodes of the tree. -/
theorem findAncestorsFrom_subset (nodes : List TreeNode) (start : Option HeightHashPair) :
    ∀ key ∈ findAncestorsFrom nodes start, key ∈ nodes.map TreeNode.key := by
  induction nodes generalizing start with
  | nil => exact fun key inside => by cases inside
  | cons node nodes ih =>
    cases start with
    | none => simp
    | some target =>
      intro key inside
      unfold findAncestorsFrom at inside
      split at inside
      · next same =>
        rcases List.mem_cons.mp inside with rfl | above
        · simp [same]
        · exact List.mem_cons_of_mem _ (ih _ key above)
      · exact List.mem_cons_of_mem _ (ih _ key inside)

/-- A node is its own first ancestor. -/
theorem mem_findAncestorsFrom_self {nodes : List TreeNode} {key : HeightHashPair}
    (inside : key ∈ nodes.map TreeNode.key) : key ∈ findAncestorsFrom nodes (some key) := by
  induction nodes with
  | nil => cases inside
  | cons node nodes ih =>
    unfold findAncestorsFrom
    split
    · exact List.mem_cons_self
    · next different =>
      refine ih ((List.mem_cons.mp inside).resolve_left fun same => different same.symm)

theorem findAncestors_eq_nil {tree : FinalizationHashTree} {key : HeightHashPair} :
    tree.findAncestors key = [] ↔ key ∉ tree.keys := by
  constructor
  · intro none inside
    have self := mem_findAncestorsFrom_self inside
    rw [findAncestors] at none
    rw [none] at self
    cases self
  · intro absent
    rw [List.eq_nil_iff_forall_not_mem]
    unfold findAncestors keys at *
    generalize tree.nodes = nodes at absent
    induction nodes with
    | nil => exact fun _ inside => by cases inside
    | cons node nodes ih =>
      rw [List.map_cons, List.mem_cons, not_or] at absent
      unfold findAncestorsFrom
      rw [if_neg fun same => absent.1 same.symm]
      exact ih absent.2

/-- The ancestors of older nodes do not depend on a newer node. -/
theorem findAncestorsFrom_cons_of_mem {node : TreeNode} {nodes : List TreeNode} {key : HeightHashPair}
    (rooted : Rooted (node :: nodes)) (older : key ∈ nodes.map TreeNode.key) :
    findAncestorsFrom (node :: nodes) (some key) = findAncestorsFrom nodes (some key) := by
  have different : node.key ≠ key := fun same => rooted.1 (same ▸ older)
  rw [findAncestorsFrom, if_neg different]

/-- No ancestor is listed twice. -/
theorem findAncestorsFrom_nodup {nodes : List TreeNode} (rooted : Rooted nodes)
    (start : Option HeightHashPair) : (findAncestorsFrom nodes start).Nodup := by
  induction nodes generalizing start with
  | nil => exact List.nodup_nil
  | cons node nodes ih =>
    cases start with
    | none => exact List.nodup_nil
    | some key =>
      unfold findAncestorsFrom
      split
      · next same =>
        refine List.nodup_cons.mpr ⟨fun again => ?_, ih rooted.2.2 _⟩
        exact rooted.1 (same ▸ findAncestorsFrom_subset _ _ _ again)
      · exact ih rooted.2.2 _

/-- The ancestors of an ancestor end the list of all ancestors. -/
theorem findAncestorsFrom_suffix {nodes : List TreeNode} (rooted : Rooted nodes)
    {start : Option HeightHashPair} {key : HeightHashPair} (inside : key ∈ findAncestorsFrom nodes start) :
    findAncestorsFrom nodes (some key) <:+ findAncestorsFrom nodes start := by
  induction nodes generalizing start with
  | nil => cases inside
  | cons node nodes ih =>
    cases start with
    | none => cases inside
    | some target =>
      by_cases same : node.key = target
      · have unfolded : findAncestorsFrom (node :: nodes) (some target) = target :: findAncestorsFrom nodes node.parent := by
          rw [findAncestorsFrom, if_pos same]
        by_cases first : key = target
        · exact first ▸ List.suffix_rfl
        · rw [unfolded] at inside ⊢
          have above := (List.mem_cons.mp inside).resolve_left first
          rw [findAncestorsFrom_cons_of_mem rooted (findAncestorsFrom_subset _ _ _ above)]
          exact (ih rooted.2.2 above).trans (List.suffix_cons _ _)
      · have unfolded : findAncestorsFrom (node :: nodes) (some target) = findAncestorsFrom nodes (some target) := by
          rw [findAncestorsFrom, if_neg same]
        rw [unfolded] at inside ⊢
        rw [findAncestorsFrom_cons_of_mem rooted (findAncestorsFrom_subset _ _ _ inside)]
        exact ih rooted.2.2 inside

/-- Two ancestors of one block lie on one chain. -/
theorem findAncestors_chain {tree : FinalizationHashTree} (rooted : Rooted tree.nodes)
    {first second key : HeightHashPair} (firstAbove : first ∈ tree.findAncestors key)
    (secondAbove : second ∈ tree.findAncestors key) : first ∈ tree.findAncestors second ∨ second ∈ tree.findAncestors first := by
  have firstSelf := mem_findAncestorsFrom_self (findAncestorsFrom_subset _ _ _ firstAbove)
  have secondSelf := mem_findAncestorsFrom_self (findAncestorsFrom_subset _ _ _ secondAbove)
  rcases List.suffix_or_suffix_of_suffix (findAncestorsFrom_suffix rooted firstAbove)
    (findAncestorsFrom_suffix rooted secondAbove) with inner | outer
  · exact .inl (inner.subset firstSelf)
  · exact .inr (outer.subset secondSelf)

/-- A descendant has the parent key among its ancestors. -/
theorem isDescendant_iff {tree : FinalizationHashTree} {parentKey childKey : HeightHashPair} :
    tree.isDescendant parentKey childKey = true ↔ parentKey ∈ tree.findAncestors childKey := by
  have from' : ∀ nodes start, isDescendantFrom parentKey nodes start = true ↔ parentKey ∈ findAncestorsFrom nodes start := by
    intro nodes
    induction nodes with
    | nil => exact fun start => by simp [isDescendantFrom, findAncestorsFrom]
    | cons node nodes ih =>
      intro start
      cases start with
      | none => simp [isDescendantFrom]
      | some key =>
        by_cases same : node.key = key
        · rw [isDescendantFrom, findAncestorsFrom, if_pos same, if_pos same, Bool.or_eq_true, ih,
            decide_eq_true_eq, List.mem_cons, eq_comm]
        · simp [isDescendantFrom, findAncestorsFrom, same, ih]
  exact from' tree.nodes (some childKey)

section Branches

variable {tree : FinalizationHashTree} {key : HeightHashPair}

theorem mem_keys_insert {node : TreeNode} : key ∈ (tree.insert node).keys ↔ key = node.key ∨ key ∈ tree.keys := by
  unfold FinalizationHashTree.insert contains
  by_cases present : node.key ∈ tree.keys
  · simp only [present, decide_true, if_true]
    exact ⟨.inr, fun either => either.elim (fun same => same ▸ present) id⟩
  · simp only [present, decide_false, Bool.false_eq_true, if_false]
    exact List.mem_cons

/-- A node that is already present keeps its ancestors. -/
theorem findAncestors_insert {node : TreeNode} (inside : key ∈ tree.keys) :
    (tree.insert node).findAncestors key = tree.findAncestors key := by
  unfold FinalizationHashTree.insert contains
  by_cases present : node.key ∈ tree.keys
  · simp [present]
  · have different : node.key ≠ key := fun same => present (same ▸ inside)
    simp [present, findAncestors, findAncestorsFrom, different]

theorem rooted_insert {node : TreeNode} (rooted : Rooted tree.nodes)
    (older : ∀ parent, node.parent = some parent → parent ∈ tree.keys) : Rooted (tree.insert node).nodes := by
  unfold FinalizationHashTree.insert contains
  by_cases present : node.key ∈ tree.keys
  · simpa [present] using rooted
  · simp only [present, decide_false]
    exact ⟨present, older, rooted⟩

theorem mem_keys_addBranchAfter {parent : Option HeightHashPair} {branch : List HeightHashPair} :
    key ∈ (addBranchAfter parent branch tree).keys ↔ key ∈ branch ∨ key ∈ tree.keys := by
  induction branch generalizing parent tree with
  | nil => simp [addBranchAfter]
  | cons first branch ih =>
    rw [addBranchAfter, ih, mem_keys_insert, List.mem_cons, or_assoc, or_left_comm]

/-- The ancestors of a known block never change. -/
theorem findAncestors_addBranchAfter {parent : Option HeightHashPair} {branch : List HeightHashPair}
    (inside : key ∈ tree.keys) : (addBranchAfter parent branch tree).findAncestors key = tree.findAncestors key := by
  induction branch generalizing parent tree with
  | nil => rfl
  | cons first branch ih =>
    rw [addBranchAfter, ih (mem_keys_insert.mpr (.inr inside)), findAncestors_insert inside]

theorem rooted_addBranchAfter {parent : Option HeightHashPair} {branch : List HeightHashPair}
    (rooted : Rooted tree.nodes) (older : ∀ key, parent = some key → key ∈ tree.keys) :
    Rooted (addBranchAfter parent branch tree).nodes := by
  induction branch generalizing parent tree with
  | nil => exact rooted
  | cons first branch ih =>
    apply ih (rooted_insert rooted older)
    rintro other ⟨⟩
    exact mem_keys_insert.mpr (.inl rfl)

/-- The keys of a branch are added one after the other. -/
theorem addBranchAfter_append (parent : Option HeightHashPair) (earlier later : List HeightHashPair)
    (tree : FinalizationHashTree) : ∃ last, addBranchAfter parent (earlier ++ later) tree =
      addBranchAfter last later (addBranchAfter parent earlier tree) := by
  induction earlier generalizing parent tree with
  | nil => exact ⟨parent, rfl⟩
  | cons first earlier ih => exact ih (some first) (tree.insert ⟨first, parent⟩)

/-- A key of a branch has only earlier keys and known keys as ancestors. -/
theorem mem_of_mem_findAncestors_addBranchAfter {parent : Option HeightHashPair}
    {earlier later : List HeightHashPair} {ancestor : HeightHashPair}
    (isAncestor : ancestor ∈ (addBranchAfter parent (earlier ++ key :: later) tree).findAncestors key) :
    ancestor ∈ earlier ∨ ancestor = key ∨ ancestor ∈ tree.keys := by
  have regrouped : earlier ++ key :: later = (earlier ++ [key]) ++ later := by simp
  obtain ⟨last, split⟩ := addBranchAfter_append parent (earlier ++ [key]) later tree
  have inside : key ∈ (addBranchAfter parent (earlier ++ [key]) tree).keys :=
    mem_keys_addBranchAfter.mpr (.inl (by simp))
  rw [regrouped, split, findAncestors_addBranchAfter inside] at isAncestor
  have known := mem_keys_addBranchAfter.mp (findAncestorsFrom_subset _ _ _ isAncestor)
  simpa [or_assoc] using known

/-- The keys of a branch have distinct heights as long as the heights do not wrap. -/
theorem branchKeys_heights {height : Height} {hashes : List Hash256} (small : hashes.length ≤ 2 ^ 64) :
    ((branchKeys height hashes).map HeightHashPair.height).Nodup := by
  rw [List.Nodup, List.pairwise_iff_getElem]
  intro first second firstInside secondInside ordered same
  have bound : second < hashes.length := by simpa [branchKeys] using secondInside
  simp only [branchKeys, List.getElem_map, List.getElem_mapIdx] at same
  have words := congrArg UInt64.toNat (add_left_cancel same)
  rw [UInt64.toNat_ofNat', UInt64.toNat_ofNat', Nat.mod_eq_of_lt (by omega), Nat.mod_eq_of_lt (by omega)] at words
  omega

theorem branchKeys_nodup {height : Height} {hashes : List Hash256} (small : hashes.length ≤ 2 ^ 64) :
    (branchKeys height hashes).Nodup := (branchKeys_heights small).of_map _

end Branches

/-- Every node points to the node that a fixed function names. -/
def Follows (link : HeightHashPair → Option HeightHashPair) (nodes : List TreeNode) : Prop :=
  ∀ node ∈ nodes, node.parent = link node.key

variable {link : HeightHashPair → Option HeightHashPair} {key : HeightHashPair}

/-- The search continues from a node at the parent that the function names. -/
theorem findAncestorsFrom_follows {nodes : List TreeNode} (rooted : Rooted nodes) (follows : Follows link nodes)
    (inside : key ∈ nodes.map TreeNode.key) : findAncestorsFrom nodes (some key) = key :: findAncestorsFrom nodes (link key) ∧
      ∀ parent, link key = some parent → parent ∈ nodes.map TreeNode.key := by
  induction nodes with
  | nil => cases inside
  | cons node nodes ih =>
    have older : ∀ parent, parent ∈ nodes.map TreeNode.key →
        findAncestorsFrom (node :: nodes) (some parent) = findAncestorsFrom nodes (some parent) :=
      fun parent inNodes => findAncestorsFrom_cons_of_mem rooted inNodes
    by_cases same : node.key = key
    · have here : node.parent = link key := same ▸ follows node List.mem_cons_self
      have parents : ∀ parent, link key = some parent → parent ∈ nodes.map TreeNode.key :=
        fun parent isParent => rooted.2.1 parent (here.trans isParent)
      refine ⟨?_, fun parent isParent => List.mem_cons_of_mem _ (parents parent isParent)⟩
      rw [findAncestorsFrom, if_pos same, here]
      cases parent : link key with
      | none => simp
      | some parentKey => rw [older parentKey (parents parentKey parent)]
    · have inNodes : key ∈ nodes.map TreeNode.key :=
        (List.mem_cons.mp inside).resolve_left fun equal => same equal.symm
      obtain ⟨continued, parents⟩ := ih rooted.2.2
        (fun node' inside' => follows node' (List.mem_cons_of_mem _ inside')) inNodes
      refine ⟨?_, fun parent isParent => List.mem_cons_of_mem _ (parents parent isParent)⟩
      rw [older key inNodes, continued]
      cases parent : link key with
      | none => simp
      | some parentKey => rw [older parentKey (parents parentKey parent)]

/-- Two trees that follow the same function have the same ancestors. -/
theorem findAncestorsFrom_eq_of_follows {first second : List TreeNode} (firstRooted : Rooted first)
    (secondRooted : Rooted second) (firstFollows : Follows link first) (secondFollows : Follows link second)
    (inFirst : key ∈ first.map TreeNode.key) (inSecond : key ∈ second.map TreeNode.key) :
    findAncestorsFrom first (some key) = findAncestorsFrom second (some key) := by
  induction first generalizing key with
  | nil => cases inFirst
  | cons node nodes ih =>
    have restFollows : Follows link nodes := fun other inside =>
      firstFollows other (List.mem_cons_of_mem _ inside)
    by_cases same : node.key = key
    · obtain ⟨continued, parents⟩ := findAncestorsFrom_follows secondRooted secondFollows inSecond
      have here : node.parent = link key := same ▸ firstFollows node List.mem_cons_self
      rw [findAncestorsFrom, if_pos same, here, continued]
      cases parent : link key with
      | none => simp
      | some parentKey =>
        have inNodes := firstRooted.2.1 parentKey (here.trans parent)
        rw [ih firstRooted.2.2 restFollows inNodes (parents parentKey parent)]
    · have inNodes : key ∈ nodes.map TreeNode.key :=
        (List.mem_cons.mp inFirst).resolve_left fun equal => same equal.symm
      rw [findAncestorsFrom_cons_of_mem firstRooted inNodes]
      exact ih firstRooted.2.2 restFollows inNodes inSecond

/-- A branch whose links the function names keeps the property. -/
theorem follows_addBranchAfter {tree : FinalizationHashTree} {parent : Option HeightHashPair}
    {branch : List HeightHashPair} (follows : Follows link tree.nodes)
    (first : ∀ key, branch.head? = some key → link key = parent)
    (linked : branch.IsChain fun parentKey key => link key = some parentKey) :
    Follows link (addBranchAfter parent branch tree).nodes := by
  induction branch generalizing parent tree with
  | nil => exact follows
  | cons key branch ih =>
    refine ih ?_ ?_ linked.tail
    · unfold FinalizationHashTree.insert
      split
      · exact follows
      · intro node inside
        rcases List.mem_cons.mp inside with rfl | old
        · exact (first key rfl).symm
        · exact follows node old
    · intro next isNext
      cases branch with
      | nil => cases isNext
      | cons other branch =>
        cases isNext
        exact linked.rel

/-- A new branch continues the ancestors of the node that it is added to. -/
theorem mem_findAncestors_addBranchAfter {tree : FinalizationHashTree} {parent ancestor : HeightHashPair}
    {branch : List HeightHashPair} (above : ancestor ∈ tree.findAncestors parent)
    (nodup : branch.Nodup) (new : ∀ key ∈ branch, key ∉ tree.keys) :
    ∀ key ∈ branch, ancestor ∈ (addBranchAfter (some parent) branch tree).findAncestors key := by
  induction branch generalizing parent tree with
  | nil => exact fun key inside => by cases inside
  | cons first branch ih =>
    obtain ⟨notAgain, nodupRest⟩ := List.nodup_cons.mp nodup
    have added : tree.insert ⟨first, some parent⟩ = ⟨⟨first, some parent⟩ :: tree.nodes⟩ := by
      simp [FinalizationHashTree.insert, contains, new first List.mem_cons_self]
    have inside : first ∈ (tree.insert ⟨first, some parent⟩).keys := mem_keys_insert.mpr (.inl rfl)
    have aboveFirst : ancestor ∈ (tree.insert ⟨first, some parent⟩).findAncestors first := by
      rw [added, findAncestors, findAncestorsFrom, if_pos rfl]
      exact List.mem_cons_of_mem _ above
    intro key isKey
    rw [addBranchAfter]
    rcases List.mem_cons.mp isKey with rfl | inRest
    · rw [findAncestors_addBranchAfter inside]
      exact aboveFirst
    · refine ih aboveFirst nodupRest (fun other inBranch known => ?_) key inRest
      rcases mem_keys_insert.mp known with rfl | old
      · exact notAgain inBranch
      · exact new other (List.mem_cons_of_mem _ inBranch) old

/-- The first key of the first branch has no other ancestors. -/
theorem findAncestors_first (first : HeightHashPair) (branch : List HeightHashPair) :
    (addBranchAfter none (first :: branch) create).findAncestors first = [first] := by
  have started : create.insert ⟨first, none⟩ = ⟨[⟨first, none⟩]⟩ := by
    simp [FinalizationHashTree.insert, contains, create, keys]
  rw [addBranchAfter, started, findAncestors_addBranchAfter (by simp [keys])]
  simp [findAncestors, findAncestorsFrom]

/-- The first key of the first branch is an ancestor of all its keys. -/
theorem first_mem_findAncestors {first : HeightHashPair} {branch : List HeightHashPair}
    (nodup : (first :: branch).Nodup) (inside : key ∈ branch) :
    first ∈ (addBranchAfter none (first :: branch) create).findAncestors key := by
  obtain ⟨notAgain, nodupRest⟩ := List.nodup_cons.mp nodup
  have started : create.insert ⟨first, none⟩ = ⟨[⟨first, none⟩]⟩ := by
    simp [FinalizationHashTree.insert, contains, create, keys]
  rw [addBranchAfter, started]
  refine mem_findAncestors_addBranchAfter ?_ nodupRest (fun other inBranch known => ?_) key inside
  · simp [findAncestors, findAncestorsFrom]
  · have same : other = first := by simpa [keys] using known
    exact notAgain (same ▸ inBranch)

/-- A weight is added to every listed candidate. -/
def addPrecommits (candidates : Candidates) (keys : List HeightHashPair) (weight : UInt64) : Candidates :=
  { candidates with
    weights := fun key => { candidates.weights key with
      precommit := (candidates.weights key).precommit + if key ∈ keys then weight else 0 } }

/-- The weight of a precommit is added once to each ancestor. -/
theorem addPrecommitWeight_ok {candidates : Candidates} {keys : List HeightHashPair} {weight : UInt64}
    (present : ∀ key ∈ keys, key ∈ candidates.keys) (nodup : keys.Nodup) :
    RoundContext.addPrecommitWeight candidates keys weight = .ok (addPrecommits candidates keys weight) := by
  induction keys generalizing candidates with
  | nil =>
    refine congrArg Except.ok ?_
    simp [addPrecommits]
  | cons first keys ih =>
    obtain ⟨notAgain, nodupRest⟩ := List.nodup_cons.mp nodup
    have added : (if first ∈ candidates.keys then .ok (candidates.addPrecommit first weight)
        else .error (.candidateNotFound first) : Except RoundError Candidates) =
          .ok (candidates.addPrecommit first weight) := if_pos (present first List.mem_cons_self)
    have rest := @ih (candidates.addPrecommit first weight)
      (fun key inside => present key (List.mem_cons_of_mem _ inside)) nodupRest
    refine Runs.bind_eq_ok.mpr ⟨_, added, rest.trans (congrArg Except.ok ?_)⟩
    unfold addPrecommits Candidates.addPrecommit
    refine congrArg (Candidates.mk candidates.keys) (funext fun key => ?_)
    by_cases same : key = first
    · subst same
      simp [notAgain]
    · simp [same]

@[simp]
theorem addPrecommits_zero (candidates : Candidates) (keys : List HeightHashPair) :
    addPrecommits candidates keys 0 = candidates := by
  simp [addPrecommits]

/-- The two kinds of weights are added independently. -/
theorem addPrecommits_addPrevote (candidates : Candidates) (keys : List HeightHashPair)
    (key : HeightHashPair) (prevote precommit : UInt64) : addPrecommits (candidates.addPrevote key prevote) keys precommit =
      (addPrecommits candidates keys precommit).addPrevote key prevote := by
  unfold addPrecommits Candidates.addPrevote
  refine congrArg (Candidates.mk candidates.keys) (funext fun other => ?_)
  by_cases same : other = key
  · subst same
    simp
  · simp [same]

/-- The precommits name a block and have a weight. -/
def precommitsOf (votes : List Vote) : List (HeightHashPair × UInt64) :=
  votes.filterMap fun
    | .prevote _ _ _ => none
    | .precommit height hash weight => some (⟨height, hash⟩, weight)

/-- The prevotes name a branch and have a weight. -/
def prevotesOf (votes : List Vote) : List (List HeightHashPair × UInt64) :=
  votes.filterMap fun
    | .prevote height hashes weight => some (branchKeys height hashes, weight)
    | .precommit _ _ _ => none

/-- The prevote weight of a block is the weight of all prevotes that contain it. -/
noncomputable def prevoteWeight (votes : List Vote) (key : HeightHashPair) : UInt64 :=
  tally Prod.snd (fun prevote => key ∈ prevote.1) (prevotesOf votes)

/-- The weights agree with the precommits whose blocks are candidates. -/
structure Counted (precommits : List (HeightHashPair × UInt64)) (prevotes : HeightHashPair → UInt64)
    (context : RoundContext) : Prop where
  rooted : Rooted context.tree.nodes
  included : ∀ key ∈ context.candidates.keys, key ∈ context.tree.keys
  closed : ∀ key ∈ context.candidates.keys, ∀ ancestor ∈ context.tree.findAncestors key, ancestor ∈ context.candidates.keys
  unknown : ∀ key, key ∉ context.candidates.keys → context.candidates.weights key = Weights.zero
  prevote : ∀ key, (context.candidates.weights key).prevote = prevotes key
  precommit : ∀ key, (context.candidates.weights key).precommit =
    tally Prod.snd (fun precommit => precommit.1 ∈ context.candidates.keys ∧
      key ∈ context.tree.findAncestors precommit.1) precommits
  cumulative : context.cumulativePrecommitWeight =
    tally Prod.snd (fun precommit => precommit.1 ∈ context.candidates.keys) precommits
  released : ∀ key ∈ context.candidates.keys, context.pendingPrecommitWeights key = none
  pending : ∀ key, key ∉ context.candidates.keys → (context.pendingPrecommitWeights key).getD 0 =
    tally Prod.snd (fun precommit => precommit.1 = key) precommits

section Prevotes

variable {precommits : List (HeightHashPair × UInt64)} {prevotes : HeightHashPair → UInt64}
  {context : RoundContext} {key : HeightHashPair}

/-- A larger tree changes no weight because the ancestors of the candidates stay the same. -/
theorem Counted.grow (counted : Counted precommits prevotes context) {tree : FinalizationHashTree}
    (rooted : Rooted tree.nodes) (larger : ∀ key ∈ context.tree.keys, key ∈ tree.keys)
    (stable : ∀ key ∈ context.tree.keys, tree.findAncestors key = context.tree.findAncestors key) :
    Counted precommits prevotes { context with tree } where
  rooted := rooted
  included key inside := larger key (counted.included key inside)
  closed key inside := by
    change ∀ ancestor ∈ tree.findAncestors key, _
    rw [stable key (counted.included key inside)]
    exact counted.closed key inside
  unknown := counted.unknown
  prevote := counted.prevote
  precommit key := by
    rw [counted.precommit key]
    refine tally_congr fun precommit _ => and_congr_right fun inside => ?_
    rw [stable precommit.1 (counted.included precommit.1 inside)]
  cumulative := counted.cumulative
  released := counted.released
  pending := counted.pending

/-- A further prevote for a candidate changes only its prevote weight. -/
theorem Counted.prevoteCandidate (counted : Counted precommits prevotes context)
    (known : key ∈ context.candidates.keys) (weight : UInt64) :
    Counted precommits (Function.update prevotes key (prevotes key + weight))
      { context with candidates := context.candidates.addPrevote key weight } where
  rooted := counted.rooted
  included := counted.included
  closed := counted.closed
  unknown other absent := by
    have different : other ≠ key := fun same => absent (same ▸ known)
    simp only [Candidates.addPrevote, Function.update_of_ne different]
    exact counted.unknown other absent
  prevote other := by
    by_cases same : other = key
    · subst same
      simp [Candidates.addPrevote, counted.prevote]
    · simp [Candidates.addPrevote, same, counted.prevote]
  precommit other := by
    refine Eq.trans ?_ (counted.precommit other)
    by_cases same : other = key
    · subst same
      simp [Candidates.addPrevote]
    · simp [Candidates.addPrevote, same]
  cumulative := counted.cumulative
  released := counted.released
  pending := counted.pending

theorem Counted.emplace_new (counted : Counted precommits prevotes context) (new : key ∉ context.candidates.keys) :
    context.candidates.emplace key = ⟨insert key context.candidates.keys, context.candidates.weights⟩ := by
  rw [Candidates.emplace, if_neg new, Function.update_eq_self_iff.mpr (counted.unknown key new).symm]

/-- The precommits for a new candidate are counted in addition to those for the old candidates. -/
theorem tally_insert (precommits : List (HeightHashPair × UInt64)) {keys : Finset HeightHashPair}
    (new : key ∉ keys) (reaches : HeightHashPair → Prop) [Decidable (reaches key)] :
    tally Prod.snd (fun precommit => precommit.1 ∈ insert key keys ∧ reaches precommit.1) precommits =
      tally Prod.snd (fun precommit => precommit.1 ∈ keys ∧ reaches precommit.1) precommits +
        if reaches key then tally Prod.snd (fun precommit => precommit.1 = key) precommits else 0 := by
  have split : ∀ precommit ∈ precommits, precommit.1 ∈ insert key keys ∧ reaches precommit.1 ↔
      (precommit.1 ∈ keys ∧ reaches precommit.1) ∨ (precommit.1 = key ∧ reaches key) := by
    intro precommit _
    rw [Finset.mem_insert]
    constructor
    · rintro ⟨same | old, reached⟩
      · exact .inr ⟨same, same ▸ reached⟩
      · exact .inl ⟨old, reached⟩
    · rintro (⟨old, reached⟩ | ⟨same, reached⟩)
      · exact ⟨.inr old, reached⟩
      · exact ⟨.inl same, same ▸ reached⟩
  have exclusive : ∀ precommit ∈ precommits, precommit.1 ∈ keys ∧ reaches precommit.1 →
      ¬ (precommit.1 = key ∧ reaches key) := fun precommit _ old same => new (same.1 ▸ old.1)
  rw [tally_congr split, tally_or exclusive, tally_and_const]
  by_cases reached : reaches key <;> simp [reached]

/-- The weights and the pending precommits of a context after a key was added. -/
def releasedFor (context : RoundContext) (key : HeightHashPair) : RoundContext :=
  { context with
    candidates := addPrecommits ⟨insert key context.candidates.keys, context.candidates.weights⟩
      (context.tree.findAncestors key) ((context.pendingPrecommitWeights key).getD 0)
    cumulativePrecommitWeight := context.cumulativePrecommitWeight + (context.pendingPrecommitWeights key).getD 0
    pendingPrecommitWeights := Function.update context.pendingPrecommitWeights key none }

/-- A new candidate releases the precommits that wait for it. -/
theorem Counted.release (counted : Counted precommits prevotes context) (new : key ∉ context.candidates.keys)
    (inTree : key ∈ context.tree.keys) (above : ∀ ancestor ∈ context.tree.findAncestors key,
      ancestor = key ∨ ancestor ∈ context.candidates.keys) :
    Counted precommits prevotes (releasedFor context key) where
  rooted := counted.rooted
  included other inside := by
    rcases Finset.mem_insert.mp inside with rfl | old
    · exact inTree
    · exact counted.included other old
  closed other inside ancestor isAncestor := by
    rw [releasedFor, addPrecommits, Finset.mem_insert]
    rcases Finset.mem_insert.mp inside with rfl | old
    · exact above ancestor isAncestor
    · exact .inr (counted.closed other old ancestor isAncestor)
  unknown other absent := by
    rw [releasedFor, addPrecommits, Finset.mem_insert, not_or] at absent
    have notAbove : other ∉ context.tree.findAncestors key := fun isAncestor =>
      (above other isAncestor).elim absent.1 absent.2
    simp [releasedFor, addPrecommits, counted.unknown other absent.2, notAbove, Weights.zero]
  prevote := counted.prevote
  precommit other := by
    simp only [releasedFor, addPrecommits]
    rw [counted.precommit other, counted.pending key new]
    exact (tally_insert precommits new fun start => other ∈ context.tree.findAncestors start).symm
  cumulative := by
    simp only [releasedFor, addPrecommits]
    rw [counted.cumulative, counted.pending key new]
    simpa using (tally_insert precommits new fun _ => True).symm
  released other inside := by
    simp only [releasedFor]
    rcases Finset.mem_insert.mp inside with rfl | old
    · exact Function.update_self _ _ _
    · have different : other ≠ key := fun same => new (same ▸ old)
      rw [Function.update_of_ne different]
      exact counted.released other old
  pending other absent := by
    rw [releasedFor, addPrecommits, Finset.mem_insert, not_or] at absent
    simp only [releasedFor, Function.update_of_ne absent.1]
    exact counted.pending other absent.2

/-- A key of a prevote becomes a candidate if its ancestors are candidates. -/
theorem Counted.acceptPrevoteKey (counted : Counted precommits prevotes context) (inTree : key ∈ context.tree.keys)
    (above : ∀ ancestor ∈ context.tree.findAncestors key, ancestor = key ∨ ancestor ∈ context.candidates.keys) (weight : UInt64) :
    ∃ next, RoundContext.acceptPrevoteKey weight context key = .ok next ∧
      Counted precommits (Function.update prevotes key (prevotes key + weight)) next ∧
      next.tree = context.tree ∧ next.candidates.keys = insert key context.candidates.keys ∧
      next.totalWeight = context.totalWeight ∧ next.threshold = context.threshold := by
  unfold RoundContext.acceptPrevoteKey
  by_cases known : key ∈ context.candidates.keys
  · have same : context.candidates.emplace key = context.candidates := by
      rw [Candidates.emplace, if_pos known]
    rw [counted.released key known, same]
    exact ⟨_, rfl, counted.prevoteCandidate known weight, rfl, (Finset.insert_eq_of_mem known).symm, rfl, rfl⟩
  · have next := (counted.release known inTree above).prevoteCandidate (Finset.mem_insert_self key _) weight
    rw [counted.emplace_new known]
    refine ⟨{ releasedFor context key with candidates := (releasedFor context key).candidates.addPrevote key weight },
      ?_, next, rfl, rfl, rfl, rfl⟩
    unfold releasedFor
    cases waiting : context.pendingPrecommitWeights key with
    | none =>
      have unchanged : Function.update context.pendingPrecommitWeights key none =
          context.pendingPrecommitWeights := Function.update_eq_self_iff.mpr waiting.symm
      simp [unchanged]
    | some pendingWeight =>
      have present : ∀ ancestor ∈ context.tree.findAncestors key,
          ancestor ∈ insert key context.candidates.keys := fun ancestor isAncestor =>
        Finset.mem_insert.mpr (above ancestor isAncestor)
      refine Runs.bind_eq_ok.mpr ⟨_, addPrecommitWeight_ok present
        (findAncestorsFrom_nodup counted.rooted _), ?_⟩
      rw [addPrecommits_addPrevote]
      rfl

/-- All keys of a branch become candidates if each has only candidates and earlier keys as ancestors. -/
theorem Counted.acceptPrevoteKeys (counted : Counted precommits prevotes context)
    {branch : List HeightHashPair} (nodup : branch.Nodup) (inTree : ∀ key ∈ branch, key ∈ context.tree.keys)
    (above : ∀ earlier key later, branch = earlier ++ key :: later → ∀ ancestor ∈ context.tree.findAncestors key,
        ancestor ∈ earlier ∨ ancestor = key ∨ ancestor ∈ context.candidates.keys) (weight : UInt64) :
    ∃ next, branch.foldlM (RoundContext.acceptPrevoteKey weight) context = .ok next ∧
      Counted precommits (fun key => prevotes key + if key ∈ branch then weight else 0) next ∧
      next.tree = context.tree ∧
      (∀ key, key ∈ next.candidates.keys ↔ key ∈ branch ∨ key ∈ context.candidates.keys) ∧
      next.totalWeight = context.totalWeight ∧ next.threshold = context.threshold := by
  induction branch generalizing context prevotes with
  | nil =>
    refine ⟨context, rfl, ?_, rfl, fun key => by simp, rfl, rfl⟩
    simpa using counted
  | cons first branch ih =>
    obtain ⟨notAgain, nodupRest⟩ := List.nodup_cons.mp nodup
    obtain ⟨middle, firstDone, middleCounted, sameTree, middleKeys, sameTotal, sameThreshold⟩ :=
      counted.acceptPrevoteKey (inTree first List.mem_cons_self)
        (fun ancestor isAncestor => by simpa using above [] first branch rfl ancestor isAncestor) weight
    have aboveRest : ∀ earlier key later, branch = earlier ++ key :: later → ∀ ancestor ∈ middle.tree.findAncestors key,
          ancestor ∈ earlier ∨ ancestor = key ∨ ancestor ∈ middle.candidates.keys := by
      intro earlier key later split ancestor isAncestor
      rw [sameTree] at isAncestor
      rw [middleKeys, Finset.mem_insert]
      rcases above (first :: earlier) key later (by rw [split, List.cons_append]) ancestor isAncestor with
        inside | same | old
      · rcases List.mem_cons.mp inside with isFirst | inEarlier
        · exact .inr (.inr (.inl isFirst))
        · exact .inl inEarlier
      · exact .inr (.inl same)
      · exact .inr (.inr (.inr old))
    obtain ⟨next, restDone, nextCounted, nextTree, nextKeys, nextTotal, nextThreshold⟩ :=
      ih middleCounted nodupRest
        (fun key inside => sameTree ▸ inTree key (List.mem_cons_of_mem _ inside)) aboveRest
    refine ⟨next, Runs.bind_eq_ok.mpr ⟨middle, firstDone, restDone⟩, ?_, nextTree.trans sameTree,
      fun key => ?_, nextTotal.trans sameTotal, nextThreshold.trans sameThreshold⟩
    · refine (congrArg (Counted precommits · next) (funext fun key => ?_)).mp nextCounted
      by_cases same : key = first
      · subst same
        simp [notAgain]
      · simp [same]
    · rw [nextKeys, middleKeys, Finset.mem_insert, List.mem_cons, or_left_comm, or_assoc]

end Prevotes

/-- The context reflects all votes that were delivered. -/
structure Tallied (votes : List Vote) (context : RoundContext) : Prop where
  counted : Counted (precommitsOf votes) (prevoteWeight votes) context
  candidate : ∀ key, key ∈ context.candidates.keys ↔ key ∈ context.tree.keys
  prevoted : ∀ key, key ∈ context.tree.keys ↔ ∃ prevote ∈ prevotesOf votes, key ∈ prevote.1

variable {votes : List Vote} {context : RoundContext}

theorem tallied_create (weight threshold : UInt64) : Tallied [] (RoundContext.create weight threshold) where
  counted :=
    { rooted := trivial
      included := fun key inside => absurd inside (Finset.notMem_empty key)
      closed := fun key inside => absurd inside (Finset.notMem_empty key)
      unknown := fun _ _ => rfl
      prevote := fun _ => rfl
      precommit := fun _ => rfl
      cumulative := rfl
      released := fun _ _ => rfl
      pending := fun _ _ => rfl }
  candidate key := by simp [RoundContext.create, Candidates.create, FinalizationHashTree.create, keys]
  prevoted key := by simp [RoundContext.create, FinalizationHashTree.create, keys, prevotesOf]

/-- A prevote never fails and counts for every block of its branch. -/
theorem Tallied.acceptPrevote (tallied : Tallied votes context) {height : Height} {hashes : List Hash256}
    (nodup : (branchKeys height hashes).Nodup) (weight : UInt64) : ∃ next, context.acceptPrevote height hashes weight = .ok next ∧
      Tallied (votes ++ [.prevote height hashes weight]) next ∧
      next.tree = context.tree.addBranch height hashes ∧
      next.totalWeight = context.totalWeight ∧ next.threshold = context.threshold := by
  have larger : ∀ key, key ∈ (context.tree.addBranch height hashes).keys ↔
      key ∈ branchKeys height hashes ∨ key ∈ context.tree.keys := fun key => mem_keys_addBranchAfter
  have grown := tallied.counted.grow
    (rooted_addBranchAfter tallied.counted.rooted (by rintro key ⟨⟩))
    (fun key inside => (larger key).mpr (.inr inside))
    (fun key inside => findAncestors_addBranchAfter inside)
  have above : ∀ earlier key later, branchKeys height hashes = earlier ++ key :: later →
      ∀ ancestor ∈ (context.tree.addBranch height hashes).findAncestors key,
        ancestor ∈ earlier ∨ ancestor = key ∨ ancestor ∈ context.candidates.keys := by
    intro earlier key later split ancestor isAncestor
    rw [addBranch, split] at isAncestor
    rw [tallied.candidate]
    exact mem_of_mem_findAncestors_addBranchAfter isAncestor
  obtain ⟨next, done, nextCounted, nextTree, nextKeys, nextTotal, nextThreshold⟩ :=
    grown.acceptPrevoteKeys nodup (fun key inside => (larger key).mpr (.inl inside))
      above weight
  change next.tree = context.tree.addBranch height hashes at nextTree
  have noPrecommit : precommitsOf (votes ++ [.prevote height hashes weight]) = precommitsOf votes := by
    simp [precommitsOf]
  have onePrevote : prevotesOf (votes ++ [.prevote height hashes weight]) =
      prevotesOf votes ++ [(branchKeys height hashes, weight)] := by
    simp [prevotesOf]
  refine ⟨next, done, ⟨?_, fun key => ?_, fun key => ?_⟩, nextTree, nextTotal, nextThreshold⟩
  · rw [noPrecommit]
    refine (congrArg (Counted (precommitsOf votes) · next) (funext fun key => ?_)).mp nextCounted
    rw [prevoteWeight, prevoteWeight, onePrevote, tally_append, tally_singleton]
    by_cases inside : key ∈ branchKeys height hashes <;> simp [inside]
  · rw [nextKeys, nextTree, larger]
    exact or_congr_right (tallied.candidate key)
  · rw [nextTree, larger, tallied.prevoted, onePrevote]
    simp only [List.mem_append, List.mem_singleton, or_and_right, exists_or, exists_eq_left]
    exact or_comm

/-- A precommit for a candidate counts for all ancestors of its block. -/
theorem Counted.countPrecommit {precommits : List (HeightHashPair × UInt64)}
    {prevotes : HeightHashPair → UInt64} (counted : Counted precommits prevotes context)
    {key : HeightHashPair} (known : key ∈ context.candidates.keys) (weight : UInt64) :
    Counted (precommits ++ [(key, weight)]) prevotes { context with
      candidates := addPrecommits context.candidates (context.tree.findAncestors key) weight
      cumulativePrecommitWeight := context.cumulativePrecommitWeight + weight } where
  rooted := counted.rooted
  included := counted.included
  closed := counted.closed
  unknown other absent := by
    have notAbove : other ∉ context.tree.findAncestors key := fun isAncestor =>
      absent (counted.closed key known other isAncestor)
    simp [addPrecommits, counted.unknown other absent, notAbove, Weights.zero]
  prevote := counted.prevote
  precommit other := by
    simp only [addPrecommits]
    rw [tally_append, tally_singleton, counted.precommit other]
    simp [known]
  cumulative := by
    simp only [addPrecommits]
    rw [tally_append, tally_singleton, counted.cumulative, if_pos known]
  released := counted.released
  pending other absent := by
    have different : key ≠ other := fun same => absent (same ▸ known)
    rw [tally_append, tally_singleton, if_neg different, add_zero]
    exact counted.pending other absent

/-- A precommit for an unknown block waits. -/
theorem Counted.delayPrecommit {precommits : List (HeightHashPair × UInt64)}
    {prevotes : HeightHashPair → UInt64} (counted : Counted precommits prevotes context)
    {key : HeightHashPair} (absent : key ∉ context.candidates.keys) (weight : UInt64) :
    Counted (precommits ++ [(key, weight)]) prevotes { context with
      pendingPrecommitWeights := Function.update context.pendingPrecommitWeights key
        (some ((context.pendingPrecommitWeights key).getD 0 + weight)) } where
  rooted := counted.rooted
  included := counted.included
  closed := counted.closed
  unknown := counted.unknown
  prevote := counted.prevote
  precommit other := by
    rw [tally_append, tally_singleton, if_neg fun both => absent both.1, add_zero]
    exact counted.precommit other
  cumulative := by
    rw [tally_append, tally_singleton, if_neg absent, add_zero]
    exact counted.cumulative
  released other known := by
    have different : other ≠ key := fun same => absent (same ▸ known)
    simp only [Function.update_of_ne different]
    exact counted.released other known
  pending other unknown := by
    rw [tally_append, tally_singleton]
    by_cases same : other = key
    · subst same
      simp [counted.pending other unknown]
    · simp only [Function.update_of_ne same, if_neg fun equal => same (Eq.symm equal), add_zero]
      exact counted.pending other unknown

/-- A precommit never fails and counts for every ancestor of its block. -/
theorem Tallied.acceptPrecommit (tallied : Tallied votes context) (height : Height) (hash : Hash256) (weight : UInt64) :
    ∃ next, context.acceptPrecommit height hash weight = .ok next ∧
      Tallied (votes ++ [.precommit height hash weight]) next ∧ next.tree = context.tree ∧
      next.totalWeight = context.totalWeight ∧ next.threshold = context.threshold := by
  have onePrecommit : precommitsOf (votes ++ [.precommit height hash weight]) =
      precommitsOf votes ++ [(⟨height, hash⟩, weight)] := by
    simp [precommitsOf]
  have noPrevote : prevotesOf (votes ++ [.precommit height hash weight]) = prevotesOf votes := by
    simp [prevotesOf]
  have sameWeight : prevoteWeight (votes ++ [.precommit height hash weight]) = prevoteWeight votes := by
    funext key
    rw [prevoteWeight, noPrevote, prevoteWeight]
  have extend : ∀ next : RoundContext, next.tree = context.tree → next.candidates.keys = context.candidates.keys →
      Counted (precommitsOf votes ++ [(⟨height, hash⟩, weight)]) (prevoteWeight votes) next →
      Tallied (votes ++ [.precommit height hash weight]) next := by
    intro next sameTree sameKeys counted
    refine ⟨?_, fun key => ?_, fun key => ?_⟩
    · rwa [onePrecommit, sameWeight]
    · rw [sameTree, sameKeys]
      exact tallied.candidate key
    · rw [sameTree, noPrevote]
      exact tallied.prevoted key
  unfold RoundContext.acceptPrecommit
  by_cases inTree : ⟨height, hash⟩ ∈ context.tree.keys
  · have known := (tallied.candidate _).mpr inTree
    have notEmpty : ¬ (context.tree.findAncestors ⟨height, hash⟩).isEmpty := by
      rw [List.isEmpty_iff, findAncestors_eq_nil]
      exact fun absent => absent inTree
    simp only [notEmpty]
    refine ⟨_, Runs.bind_eq_ok.mpr ⟨_, addPrecommitWeight_ok (tallied.counted.closed _ known)
      (findAncestorsFrom_nodup tallied.counted.rooted _), rfl⟩, extend _ rfl rfl ?_, rfl, rfl, rfl⟩
    exact tallied.counted.countPrecommit known weight
  · have absent := fun known => inTree ((tallied.candidate _).mp known)
    simp only [findAncestors_eq_nil.mpr inTree, List.isEmpty_nil, if_true]
    exact ⟨_, rfl, extend _ rfl rfl (tallied.counted.delayPrecommit absent weight), rfl, rfl, rfl⟩

/-- The votes of a run never fail, and a property of the tree that every branch keeps holds at the end. -/
theorem Tallied.acceptAll (tallied : Tallied votes context) {further : List Vote}
    (holds : FinalizationHashTree → Prop) (initially : holds context.tree)
    (nodup : ∀ height hashes weight, .prevote height hashes weight ∈ further → (branchKeys height hashes).Nodup)
    (kept : ∀ height hashes weight, .prevote height hashes weight ∈ further →
      ∀ tree, holds tree → holds (tree.addBranch height hashes)) :
    ∃ next, context.acceptAll further = .ok next ∧ Tallied (votes ++ further) next ∧ holds next.tree ∧
      next.totalWeight = context.totalWeight ∧ next.threshold = context.threshold := by
  induction further generalizing votes context with
  | nil =>
    refine ⟨context, rfl, ?_, initially, rfl, rfl⟩
    rwa [List.append_nil]
  | cons vote further ih =>
    have first : ∃ middle, context.accept vote = .ok middle ∧ Tallied (votes ++ [vote]) middle ∧
        holds middle.tree ∧ middle.totalWeight = context.totalWeight ∧
        middle.threshold = context.threshold := by
      cases vote with
      | prevote height hashes weight =>
        obtain ⟨middle, done, middleTallied, larger, same⟩ :=
          tallied.acceptPrevote (nodup height hashes weight List.mem_cons_self) weight
        refine ⟨middle, done, middleTallied, ?_, same⟩
        exact larger ▸ kept height hashes weight List.mem_cons_self _ initially
      | precommit height hash weight =>
        obtain ⟨middle, done, middleTallied, sameTree, same⟩ := tallied.acceptPrecommit height hash weight
        exact ⟨middle, done, middleTallied, sameTree ▸ initially, same⟩
    obtain ⟨middle, done, middleTallied, middleHolds, sameTotal, sameThreshold⟩ := first
    obtain ⟨next, rest, nextTallied, nextHolds, nextTotal, nextThreshold⟩ := ih middleTallied middleHolds
      (fun height hashes weight inside => nodup height hashes weight (List.mem_cons_of_mem _ inside))
      (fun height hashes weight inside => kept height hashes weight (List.mem_cons_of_mem _ inside))
    rw [List.append_assoc, List.singleton_append] at nextTallied
    exact ⟨next, Runs.bind_eq_ok.mpr ⟨middle, done, rest⟩, nextTallied, nextHolds,
      nextTotal.trans sameTotal, nextThreshold.trans sameThreshold⟩

end Catapult.Finalization
