import Mathlib.SetTheory.Cardinal.Finite

/-
This file develops relations in which every path has a bounded length.
-/

namespace Depth

variable {α : Type} {r : α → α → Prop}

/-- A path of a given length leads from one element to another. -/
inductive Steps (r : α → α → Prop) : Nat → α → α → Prop where
  | refl (a : α) : Steps r 0 a a
  | head {length : Nat} {a b c : α} (first : r a b) (rest : Steps r length b c) : Steps r (length + 1) a c

theorem Steps.trans {first second : Nat} {a b c : α} (before : Steps r first a b)
    (after : Steps r second b c) : Steps r (first + second) a c := by
  induction before with
  | refl a => rwa [Nat.zero_add]
  | head step _ ih =>
    rw [Nat.add_right_comm]
    exact .head step (ih after)

theorem Steps.tail {length : Nat} {a b c : α} (path : Steps r length a b) (last : r b c) :
    Steps r (length + 1) a c := path.trans (.head last (.refl c))

/-- A path is followed backwards in the flipped relation. -/
theorem Steps.flip {length : Nat} {a b : α} (path : Steps r length a b) : Steps (fun b a => r a b) length b a := by
  induction path with
  | refl a => exact .refl a
  | head step _ ih => exact ih.tail step

theorem Steps.mono {larger : α → α → Prop} (included : ∀ a b, r a b → larger a b) {length : Nat}
    {a b : α} (path : Steps r length a b) : Steps larger length a b := by
  induction path with
  | refl a => exact .refl a
  | head step _ ih => exact .head (included _ _ step) ih

/-- A nonempty path is a witness of the transitive closure. -/
theorem exists_steps_of_transGen {a b : α} (related : Relation.TransGen r a b) : ∃ length, Steps r (length + 1) a b := by
  induction related with
  | single step => exact ⟨0, .head step (.refl _)⟩
  | tail _ step ih =>
    obtain ⟨length, path⟩ := ih
    exact ⟨length + 1, path.tail step⟩

theorem Steps.transGen {length : Nat} {a b : α} (path : Steps r (length + 1) a b) : Relation.TransGen r a b := by
  generalize nonempty : length + 1 = total at path
  induction path generalizing length with
  | refl a => cases nonempty
  | @head rest a b c step path ih =>
    cases rest with
    | zero =>
      cases path
      exact .single step
    | succ rest => exact .head step (ih rfl)

/-- No path is longer than the bound. -/
def AtMost (r : α → α → Prop) (bound : Nat) : Prop :=
  ∀ length a b, Steps r length a b → length ≤ bound

theorem AtMost.anti {larger : α → α → Prop} {bound : Nat} (bounded : AtMost larger bound)
    (included : ∀ a b, r a b → larger a b) : AtMost r bound :=
  fun length a b path => bounded length a b (path.mono included)

/-- A cycle can be repeated, so a bounded relation has none. -/
theorem AtMost.acyclic {bound : Nat} (bounded : AtMost r bound) (a : α) : ¬ Relation.TransGen r a a := by
  intro cycle
  obtain ⟨length, path⟩ := exists_steps_of_transGen cycle
  have repeated : ∀ times, ∃ total, times ≤ total ∧ Steps r total a a := by
    intro times
    induction times with
    | zero => exact ⟨0, Nat.le_refl 0, .refl a⟩
    | succ times ih =>
      obtain ⟨total, enough, again⟩ := ih
      exact ⟨length + 1 + total, by omega, path.trans again⟩
  obtain ⟨total, enough, long⟩ := repeated (bound + 1)
  have short := bounded total a a long
  omega

/-- The elements after the first one of a path are different if there is no cycle. -/
theorem Steps.exists_finset [DecidableEq α] (acyclic : ∀ a, ¬ Relation.TransGen r a a) {length : Nat} {a b : α}
    (path : Steps r length a b) : ∃ visited : Finset α, visited.card = length ∧ ∀ c ∈ visited, Relation.TransGen r a c := by
  induction path with
  | refl a => exact ⟨∅, Finset.card_empty, fun c member => absurd member (Finset.notMem_empty c)⟩
  | @head length a b c first rest ih =>
    obtain ⟨visited, count, below⟩ := ih
    refine ⟨insert b visited, ?_, ?_⟩
    · rw [Finset.card_insert_of_notMem fun member => acyclic b (below b member), count]
    · intro other member
      obtain rfl | later := Finset.mem_insert.mp member
      · exact .single first
      · exact .head first (below other later)

/-- A finite relation without cycles is bounded. -/
theorem atMost_of_acyclic [Finite α] (acyclic : ∀ a, ¬ Relation.TransGen r a a) : AtMost r (Nat.card α) := by
  classical
  have : Fintype α := Fintype.ofFinite α
  intro length a b path
  obtain ⟨visited, count, _⟩ := path.exists_finset acyclic
  rw [← count, Nat.card_eq_fintype_card]
  exact Finset.card_le_univ visited

/-- These edges from one element are added to a relation. -/
def Extend (r : α → α → Prop) (top : α) (bottoms : α → Prop) (a b : α) : Prop :=
  r a b ∨ a = top ∧ bottoms b

/-- A path uses at most one of the new edges if none of them closes a cycle. -/
theorem Steps.extend_cases {top : α} {bottoms : α → Prop} (apart : ∀ b, bottoms b → ∀ length, ¬ Steps r length b top)
    {length : Nat} {a b : α} (path : Steps (Extend r top bottoms) length a b) :
    Steps r length a b ∨ ∃ above below bottom, bottoms bottom ∧ Steps r above a top ∧
      Steps r below bottom b ∧ length = above + 1 + below := by
  induction path with
  | refl a => exact .inl (.refl a)
  | @head rest a b c step _ ih =>
    rcases step with old | ⟨rfl, new⟩
    · rcases ih with path | ⟨above, below, bottom, isBottom, up, down, total⟩
      · exact .inl (.head old path)
      · exact .inr ⟨above + 1, below, bottom, isBottom, .head old up, down, by omega⟩
    · rcases ih with path | ⟨above, below, bottom, isBottom, up, down, total⟩
      · exact .inr ⟨0, rest, b, new, .refl _, path, by omega⟩
      · exact absurd up (apart b new above)

/-- New edges keep the bound if it holds for the paths through them. -/
theorem AtMost.extend {bound : Nat} {top : α} {bottoms : α → Prop} (bounded : AtMost r bound)
    (apart : ∀ b, bottoms b → ∀ length, ¬ Steps r length b top)
    (through : ∀ b, bottoms b → ∀ up down a c, Steps r up a top → Steps r down b c → up + down + 1 ≤ bound) :
    AtMost (Extend r top bottoms) bound := by
  intro length a b path
  rcases path.extend_cases apart with old | ⟨up, down, bottom, isBottom, before, after, total⟩
  · exact bounded length a b old
  · have short := through bottom isBottom up down a b before after
    omega

end Depth
