import Mathlib.Data.List.Basic

/-
This file develops path-compressed tries over an arbitrary alphabet.
-/

/-- A path-compressed trie stores its values in leaves and forks in branches. -/
inductive RadixTrie (α V : Type*) where
  | empty
  | leaf (path : List α) (value : V)
  | branch (path : List α) (children : α → RadixTrie α V)

namespace RadixTrie

variable {α V : Type*} [DecidableEq α]

/-- A search consumes the path of every node it passes. -/
def find : RadixTrie α V → List α → Option V
  | .empty, _ => none
  | .leaf path value, key => if key = path then some value else none
  | .branch path children, key =>
    if path <+: key then
      match key.drop path.length with
      | [] => none
      | symbol :: rest => (children symbol).find rest
    else none

/-- A trie is canonical at a depth if its keys have that length and every branch forks. -/
def Canonical : Nat → RadixTrie α V → Prop
  | _, .empty => True
  | depth, .leaf path _ => path.length = depth
  | depth, .branch path children =>
    path.length < depth ∧ (∀ symbol, (children symbol).Canonical (depth - path.length - 1)) ∧
      ∃ left right, left ≠ right ∧ children left ≠ .empty ∧ children right ≠ .empty

/-- A search for a value may start with this test. -/
def isEmpty : RadixTrie α V → Bool
  | .empty => true
  | _ => false

omit [DecidableEq α] in
@[simp] theorem isEmpty_iff (trie : RadixTrie α V) : trie.isEmpty = true ↔ trie = .empty := by
  cases trie <;> simp [isEmpty]

omit [DecidableEq α] in
@[simp] theorem isEmpty_eq_false_iff (trie : RadixTrie α V) : trie.isEmpty = false ↔ trie ≠ .empty := by
  cases trie <;> simp [isEmpty]

/-- A nonempty trie absorbs a prefix into the path of its first node. -/
def prepend (front : List α) : RadixTrie α V → RadixTrie α V
  | .empty => .empty
  | .leaf path value => .leaf (front ++ path) value
  | .branch path children => .branch (front ++ path) children

/-- A fork joins two tries that start with different symbols. -/
def fork (path : List α) (left : α) (first : RadixTrie α V) (right : α) (second : RadixTrie α V) : RadixTrie α V :=
  .branch path (Function.update (Function.update (fun _ => .empty) left first) right second)

@[simp] theorem find_empty (key : List α) : (empty : RadixTrie α V).find key = none := rfl

@[simp] theorem find_leaf (path key : List α) (value : V) :
    (leaf path value).find key = if key = path then some value else none := rfl

@[simp] theorem find_branch_append (path : List α) (children : α → RadixTrie α V) (symbol : α) (rest : List α) :
    (branch path children).find (path ++ symbol :: rest) = (children symbol).find rest := by
  simp [find]

/-- A branch has no value at a key that does not continue its path. -/
theorem find_branch_none (path : List α) (children : α → RadixTrie α V) (key : List α)
    (outside : ∀ symbol rest, key ≠ path ++ symbol :: rest) : (branch path children).find key = none := by
  simp only [find]
  split
  · next inside =>
    obtain ⟨rest, rfl⟩ := inside
    cases rest with
    | nil => simp
    | cons symbol rest => exact absurd rfl (outside symbol rest)
  · rfl

/-- A branch finds only keys that continue its path into one child. -/
theorem find_branch_some {path : List α} {children : α → RadixTrie α V} {key : List α} {value : V}
    (found : (branch path children).find key = some value) :
    ∃ symbol rest, key = path ++ symbol :: rest ∧ (children symbol).find rest = some value := by
  by_contra outside
  push Not at outside
  have none : (branch path children).find key = none := by
    by_cases inside : ∃ symbol rest, key = path ++ symbol :: rest
    · obtain ⟨symbol, rest, rfl⟩ := inside
      have absent := outside symbol rest rfl
      rw [find_branch_append] at found ⊢
      exact absurd found absent
    · push Not at inside
      exact find_branch_none path children key inside
  rw [none] at found
  cases found

/-- A nonempty canonical trie holds at least one key. -/
theorem Canonical.exists_key {trie : RadixTrie α V} {depth : Nat} (shape : trie.Canonical depth)
    (nonempty : trie ≠ .empty) : ∃ key value, trie.find key = some value := by
  induction trie generalizing depth with
  | empty => exact absurd rfl nonempty
  | leaf path value => exact ⟨path, value, by simp⟩
  | branch path children ih =>
    obtain ⟨_, inside, left, _, _, present, _⟩ := shape
    obtain ⟨rest, value, found⟩ := ih left (inside left) present
    exact ⟨path ++ left :: rest, value, by simpa using found⟩

/-- The path of a branch is a common prefix of its keys and no longer prefix is. -/
theorem Canonical.branch_path_prefix {path : List α} {children : α → RadixTrie α V}
    {depth : Nat} (shape : (branch path children).Canonical depth) (path' : List α)
    (common : ∀ key value, (branch path children).find key = some value → path' <+: key) : path' <+: path := by
  obtain ⟨_, inside, left, right, different, presentLeft, presentRight⟩ := shape
  obtain ⟨restLeft, valueLeft, foundLeft⟩ := (inside left).exists_key presentLeft
  obtain ⟨restRight, valueRight, foundRight⟩ := (inside right).exists_key presentRight
  have prefixLeft := common (path ++ left :: restLeft) valueLeft (by simpa using foundLeft)
  have prefixRight := common (path ++ right :: restRight) valueRight (by simpa using foundRight)
  have pathLeft : path <+: path ++ left :: restLeft := List.prefix_append _ _
  by_cases short : path'.length ≤ path.length
  · exact List.prefix_of_prefix_length_le prefixLeft pathLeft short
  · -- A longer common prefix would fix the symbol at which the two keys differ.
    exfalso
    have long : path.length < path'.length := by omega
    obtain ⟨tailLeft, equalLeft⟩ := prefixLeft
    obtain ⟨tailRight, equalRight⟩ := prefixRight
    have atLeft : path'[path.length]? = some left := by
      have read := congrArg (fun list => list[path.length]?) equalLeft
      simpa [List.getElem?_append_left long] using read
    have atRight : path'[path.length]? = some right := by
      have read := congrArg (fun list => list[path.length]?) equalRight
      simpa [List.getElem?_append_left long] using read
    rw [atLeft] at atRight
    exact different (Option.some.inj atRight)

/-- The keys of a branch share its path. -/
theorem path_prefix_of_find {path : List α} {children : α → RadixTrie α V} {key : List α} {value : V}
    (found : (branch path children).find key = some value) : path <+: key := by
  obtain ⟨symbol, rest, rfl, _⟩ := find_branch_some found
  exact List.prefix_append _ _

/-- A leaf and a branch of the same depth store different maps. -/
theorem Canonical.leaf_find_ne_branch {path path' : List α} {value : V}
    {children : α → RadixTrie α V} {depth : Nat} (shapeLeaf : (leaf path value).Canonical depth)
    (shapeBranch : (branch path' children).Canonical depth) : (leaf path value).find ≠ (branch path' children).find := by
  intro same
  -- The branch would have a single key, so its path would be as long as that key.
  have long := shapeBranch.branch_path_prefix path (by
    intro key stored found
    rw [← same, find_leaf] at found
    split at found
    · next equal => exact equal ▸ List.prefix_refl _
    · cases found)
  have longer := long.length_le
  have bound : path'.length < depth := shapeBranch.1
  have exact : path.length = depth := shapeLeaf
  omega

/-- A canonical trie is determined by the map that it stores. -/
theorem Canonical.ext {first second : RadixTrie α V} {depth : Nat}
    (shapeFirst : first.Canonical depth) (shapeSecond : second.Canonical depth)
    (same : first.find = second.find) : first = second := by
  induction first generalizing second depth with
  | empty =>
    by_contra different
    obtain ⟨key, value, found⟩ := shapeSecond.exists_key (Ne.symm different)
    rw [← same] at found
    cases found
  | leaf path value =>
    have here : second.find path = some value := by rw [← same]; simp
    cases second with
    | empty => cases here
    | leaf path' value' =>
      rw [find_leaf] at here
      split at here
      · next equal => rw [equal, Option.some.inj here]
      · cases here
    | branch path' children' => exact absurd same (shapeFirst.leaf_find_ne_branch shapeSecond)
  | branch path children ih =>
    cases second with
    | empty =>
      obtain ⟨key, value, found⟩ := shapeFirst.exists_key (by simp)
      rw [same] at found
      cases found
    | leaf path' value' => exact absurd same.symm (shapeSecond.leaf_find_ne_branch shapeFirst)
    | branch path' children' =>
      have forward := shapeFirst.branch_path_prefix path' (by
        intro key value found
        rw [same] at found
        exact path_prefix_of_find found)
      have backward := shapeSecond.branch_path_prefix path (by
        intro key value found
        rw [← same] at found
        exact path_prefix_of_find found)
      have equal : path = path' :=
        List.IsPrefix.eq_of_length backward (Nat.le_antisymm backward.length_le forward.length_le)
      subst equal
      congr 1
      funext symbol
      apply ih symbol (shapeFirst.2.1 symbol) (shapeSecond.2.1 symbol)
      funext rest
      have read := congrFun same (path ++ symbol :: rest)
      simpa using read

/-- Replacing one child changes the stored map below that child only. -/
theorem find_branch_update {path : List α} {children : α → RadixTrie α V} {symbol : α}
    {child : RadixTrie α V} {rest : List α} {value : Option V}
    (inside : child.find = Function.update (children symbol).find rest value) :
    (branch path (Function.update children symbol child)).find =
      Function.update (branch path children).find (path ++ symbol :: rest) value := by
  funext key
  by_cases below : ∃ symbol' rest', key = path ++ symbol' :: rest'
  · obtain ⟨symbol', rest', rfl⟩ := below
    rw [find_branch_append]
    by_cases same : symbol' = symbol
    · subst same
      rw [Function.update_self, inside]
      by_cases equal : rest' = rest
      · subst equal; simp
      · have different : path ++ symbol' :: rest' ≠ path ++ symbol' :: rest := by simpa using equal
        rw [Function.update_of_ne equal, Function.update_of_ne different, find_branch_append]
    · have different : path ++ symbol' :: rest' ≠ path ++ symbol :: rest := by simp [same]
      rw [Function.update_of_ne same, Function.update_of_ne different, find_branch_append]
  · push Not at below
    rw [find_branch_none path _ key below, Function.update_of_ne (below symbol rest), find_branch_none path _ key below]

/-- Prepending a prefix moves every key below that prefix. -/
theorem find_prepend_append (front key : List α) (trie : RadixTrie α V) :
    (trie.prepend front).find (front ++ key) = trie.find key := by
  cases trie with
  | empty => rfl
  | leaf path value => simp [prepend]
  | branch path children =>
    by_cases below : ∃ symbol rest, key = path ++ symbol :: rest
    · obtain ⟨symbol, rest, rfl⟩ := below
      rw [prepend, ← List.append_assoc, find_branch_append, find_branch_append]
    · push Not at below
      rw [find_branch_none path children key below]
      apply find_branch_none
      intro symbol rest equal
      rw [List.append_assoc] at equal
      exact below symbol rest (List.append_cancel_left equal)

/-- A prefixed trie has no key outside its prefix. -/
theorem find_prepend_none {front key : List α} (trie : RadixTrie α V) (outside : ¬ front <+: key) :
    (trie.prepend front).find key = none := by
  cases trie with
  | empty => rfl
  | leaf path value =>
    have different : key ≠ front ++ path := by
      rintro rfl
      exact outside (List.prefix_append _ _)
    simp [prepend, different]
  | branch path children =>
    apply find_branch_none
    rintro symbol rest rfl
    exact outside ⟨path ++ symbol :: rest, by simp⟩

omit [DecidableEq α] in
/-- A prefix extends the depth of a canonical trie. -/
theorem Canonical.prepend {trie : RadixTrie α V} {depth : Nat} (shape : trie.Canonical depth)
    (front : List α) : (trie.prepend front).Canonical (front.length + depth) := by
  cases trie with
  | empty => trivial
  | leaf path value =>
    have exact : path.length = depth := shape
    simp [RadixTrie.prepend, Canonical, exact]
  | branch path children =>
    obtain ⟨bound, inside, forked⟩ := shape
    refine ⟨by simpa using bound, ?_, forked⟩
    intro symbol
    have same : front.length + depth - (front ++ path).length - 1 = depth - path.length - 1 := by
      rw [List.length_append]; omega
    rw [same]
    exact inside symbol

/-- A branch with a single nonempty child stores the map of the joined child. -/
theorem find_branch_single {path : List α} {children : α → RadixTrie α V} (symbol : α)
    (single : ∀ other, other ≠ symbol → children other = .empty) :
    (branch path children).find = ((children symbol).prepend (path ++ [symbol])).find := by
  funext key
  by_cases below : path ++ [symbol] <+: key
  · obtain ⟨rest, rfl⟩ := below
    rw [find_prepend_append, List.append_assoc, List.singleton_append, find_branch_append]
  · rw [find_prepend_none _ below]
    by_cases inside : ∃ other rest, key = path ++ other :: rest
    · obtain ⟨other, rest, rfl⟩ := inside
      have different : other ≠ symbol := by
        rintro rfl
        exact below ⟨rest, by simp⟩
      rw [find_branch_append, single other different, find_empty]
    · push Not at inside
      exact find_branch_none path children key inside

/-- Forking a prefixed trie with a new leaf adds exactly the key of that leaf. -/
theorem find_fork (path : List α) {left right : α} (different : left ≠ right) (trie : RadixTrie α V)
    (rest : List α) (value : V) : (fork path left trie right (.leaf rest value)).find =
      Function.update (trie.prepend (path ++ [left])).find (path ++ right :: rest) (some value) := by
  have base : (branch path (Function.update (fun _ => empty) left trie)).find = (trie.prepend (path ++ [left])).find := by
    rw [find_branch_single left (fun other apart => by simp [Function.update_of_ne apart])]
    simp
  have single : (leaf rest value).find =
      Function.update (Function.update (fun _ => empty) left trie right).find rest (some value) := by
    funext key
    rw [Function.update_of_ne different.symm]
    by_cases same : key = rest <;> simp [same]
  rw [fork, find_branch_update single, base]

/-- A fork of two nonempty tries is canonical. -/
theorem Canonical.fork {path : List α} {left right : α} {first second : RadixTrie α V} {depth : Nat}
    (shapeFirst : first.Canonical depth) (shapeSecond : second.Canonical depth)
    (different : left ≠ right) (presentFirst : first ≠ .empty) (presentSecond : second ≠ .empty) :
    (fork path left first right second).Canonical (path.length + 1 + depth) := by
  refine ⟨by omega, ?_, left, right, different, ?_, ?_⟩
  · intro symbol
    have same : path.length + 1 + depth - path.length - 1 = depth := by omega
    rw [same]
    by_cases atRight : symbol = right
    · subst atRight; rwa [Function.update_self]
    · rw [Function.update_of_ne atRight]
      by_cases atLeft : symbol = left
      · subst atLeft; rwa [Function.update_self]
      · rw [Function.update_of_ne atLeft]; trivial
  · rwa [Function.update_of_ne different, Function.update_self]
  · rwa [Function.update_self]

/-- A branch stays canonical if a nonempty child is replaced by a nonempty child. -/
theorem Canonical.update {path : List α} {children : α → RadixTrie α V} {symbol : α}
    {child : RadixTrie α V} {depth : Nat} (shape : (branch path children).Canonical depth)
    (inside : child.Canonical (depth - path.length - 1)) (present : child ≠ .empty) :
    (branch path (Function.update children symbol child)).Canonical depth := by
  obtain ⟨bound, below, left, right, different, presentLeft, presentRight⟩ := shape
  refine ⟨bound, ?_, left, right, different, ?_, ?_⟩
  · intro other
    by_cases same : other = symbol
    · subst same; rwa [Function.update_self]
    · rw [Function.update_of_ne same]; exact below other
  · by_cases same : left = symbol
    · subst same; rwa [Function.update_self]
    · rwa [Function.update_of_ne same]
  · by_cases same : right = symbol
    · subst same; rwa [Function.update_self]
    · rwa [Function.update_of_ne same]

end RadixTrie
