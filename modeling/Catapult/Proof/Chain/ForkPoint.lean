import Catapult.Proof.Chain.CompareRounds
import Mathlib.Order.Bounds.Basic

/-
This file decides against which honest nodes a chain comparison finds the fork point.
-/

namespace Catapult.Chain

open Rounds CompareChainsContext

/-- An honest node answers with the first hashes of its chain. -/
def RemoteChain.honest (other : LocalChain) : RemoteChain where
  chainStatistics := other.chainStatistics
  hashesFrom _ height maxHashes := other.loadHashesFrom height maxHashes.toNat

def Agrees (chain other : LocalChain) (height : Nat) : Prop :=
  1 ≤ height ∧ ∃ hash, chain.hashes[height - 1]? = some hash ∧ other.hashes[height - 1]? = some hash

/-- Two chains share the finalized block, and the better one is no prefix of the other one. -/
structure Fork (chain other : LocalChain) (options : CompareChainsOptions) (common : Nat) : Prop where
  /-- The hash of a block covers the hash of the block before it. -/
  linked : ∀ height lower, Agrees chain other height → 1 ≤ lower → lower ≤ height → Agrees chain other lower
  finalized : Agrees chain other options.finalizedHeight.toNat
  greatest : IsGreatest {height | Agrees chain other height} common
  better : chain.score < other.score
  ahead : options.finalizedHeight.toNat < other.hashes.length
  notPrefix : ¬ other.hashes <+: chain.hashes
  batch : 3 ≤ options.hashesPerBatch.toNat

/-- The comparison ends with the greatest height at which the chains agree. -/
def FindsFork (chain other : LocalChain) (options : CompareChainsOptions) (common : Nat) : Prop :=
  ∃ rounds context result, compareChains chain (.honest other) options rounds = .complete (context, .ok result) ∧
    result.code = .remoteIsNotSynced ∧ result.commonBlockHeight.toNat = common ∧
    result.forkDepth.toNat = chain.hashes.length - common

/-- The search halves the distance to the local height as long as all hashes agree. -/
def probe (chain : LocalChain) (options : CompareChainsOptions) : Nat → Nat
  | 0 => options.finalizedHeight.toNat
  | index + 1 => (probe chain options index + chain.hashes.length) / 2

/-- The first batch that reaches beyond the fork point starts at a height of the remote chain. -/
def ProbesRemote (chain other : LocalChain) (options : CompareChainsOptions) (common : Nat) : Prop :=
  ∀ index, (∀ earlier < index, probe chain options earlier + options.hashesPerBatch.toNat ≤ common + 1) →
    probe chain options index ≤ other.hashes.length

/-- The first difference is found where the hashes stop to agree. -/
theorem findFirstDifferenceIndex_eq {lhs rhs : List Hash256} {count : Nat} (inside : count ≤ lhs.length)
    (insideOther : count ≤ rhs.length) (agree : ∀ index < count, lhs[index]? = rhs[index]?)
    (stops : ∀ hash, lhs[count]? = some hash → rhs[count]? ≠ some hash) : findFirstDifferenceIndex lhs rhs = count := by
  obtain ⟨bound, boundOther⟩ := findFirstDifferenceIndex_le lhs rhs
  induction count generalizing lhs rhs with
  | zero =>
    cases lhs with
    | nil => rfl
    | cons first lhs =>
      cases rhs with
      | nil => rfl
      | cons second rhs =>
        have different : first ≠ second := fun same => stops first rfl (congrArg some same.symm)
        exact if_pos different
  | succ count ih =>
    cases lhs with
    | nil => exact absurd inside (by simp)
    | cons first lhs =>
      cases rhs with
      | nil => exact absurd insideOther (by simp)
      | cons second rhs =>
        have same : first = second := Option.some.inj (agree 0 (Nat.succ_pos count))
        have rest : findFirstDifferenceIndex lhs rhs = count := by
          obtain ⟨restBound, restBoundOther⟩ := findFirstDifferenceIndex_le lhs rhs
          refine ih (by simpa using inside) (by simpa using insideOther) ?_ stops restBound restBoundOther
          intro index below
          exact agree (index + 1) (Nat.succ_lt_succ below)
        rw [findFirstDifferenceIndex, if_neg (not_not.mpr same), rest]

section Fork

variable {chain other : LocalChain} {options : CompareChainsOptions} {common : Nat}

theorem Fork.common_le (fork : Fork chain other options common) :
    common ≤ chain.hashes.length ∧ common ≤ other.hashes.length := by
  obtain ⟨positive, hash, mine, theirs⟩ := fork.greatest.1
  have inside := (List.getElem?_eq_some_iff.mp mine).1
  have insideOther := (List.getElem?_eq_some_iff.mp theirs).1
  omega

theorem Fork.finalized_le (fork : Fork chain other options common) :
    1 ≤ options.finalizedHeight.toNat ∧ options.finalizedHeight.toNat ≤ common :=
  ⟨fork.finalized.1, fork.greatest.2 fork.finalized⟩

theorem Fork.agree (fork : Fork chain other options common) {index : Nat} (below : index < common) :
    chain.hashes[index]? = other.hashes[index]? := by
  obtain ⟨_, hash, mine, theirs⟩ := fork.linked common (index + 1) fork.greatest.1 (by omega) below
  rw [Nat.add_sub_cancel] at mine theirs
  exact mine.trans theirs.symm

theorem Fork.differ (fork : Fork chain other options common) {index : Nat} (above : common ≤ index) {hash : Hash256}
    (mine : chain.hashes[index]? = some hash) : other.hashes[index]? ≠ some hash := by
  intro theirs
  have bound : index + 1 ≤ common := fork.greatest.2 ⟨by omega, hash, by simpa using mine, by simpa using theirs⟩
  omega

theorem Fork.common_lt (fork : Fork chain other options common) : common < other.hashes.length := by
  obtain ⟨bound, boundOther⟩ := fork.common_le
  by_contra notBelow
  apply fork.notPrefix
  rw [List.prefix_iff_eq_take]
  apply List.ext_getElem?
  intro index
  by_cases inside : index < other.hashes.length
  · rw [List.getElem?_take_of_lt inside]
    exact (fork.agree (by omega)).symm
  · rw [List.getElem?_eq_none (by omega), List.getElem?_eq_none (by rw [List.length_take]; omega)]

end Fork

section Rounds

variable {chain other : LocalChain} {options : CompareChainsOptions} {common : Nat}
  {context : CompareChainsContext}

/-- The batches agree up to the fork point. -/
theorem Fork.firstDifference (fork : Fork chain other options common) {start : Nat} (positive : 1 ≤ start) (count : Nat) :
    findFirstDifferenceIndex ((chain.hashes.drop (start - 1)).take count) ((other.hashes.drop (start - 1)).take count) =
      min count (common + 1 - start) := by
  obtain ⟨bound, boundOther⟩ := fork.common_le
  apply findFirstDifferenceIndex_eq
  · rw [List.length_take, List.length_drop]
    omega
  · rw [List.length_take, List.length_drop]
    omega
  · intro index below
    rw [List.getElem?_take_of_lt (by omega), List.getElem?_take_of_lt (by omega), List.getElem?_drop, List.getElem?_drop]
    exact fork.agree (by omega)
  · intro hash mine
    by_cases inside : min count (common + 1 - start) < count
    · rw [List.getElem?_take_of_lt inside, List.getElem?_drop] at mine ⊢
      exact fork.differ (by omega) mine
    · rw [List.getElem?_eq_none (by rw [List.length_take]; omega)] at mine
      cases mine

/-- An honest node answers a request for a height of its chain. -/
theorem startNextCompare_honest (round : Nat) (hashes : context.stage = .hashesFirst ∨ context.stage = .hashesNext)
    (positive : 1 ≤ context.startingHashesHeight.toNat) (inside : context.startingHashesHeight.toNat ≤ chain.hashes.length)
    (insideOther : context.startingHashesHeight.toNat ≤ other.hashes.length) (batch : 1 ≤ options.hashesPerBatch.toNat) :
    startNextCompare chain (.honest other) options round context = isFutureChainComplete (compareHashes options context
      ((chain.hashes.drop (context.startingHashesHeight.toNat - 1)).take options.hashesPerBatch.toNat)
      ((other.hashes.drop (context.startingHashesHeight.toNat - 1)).take options.hashesPerBatch.toNat)) := by
  rw [startNextCompare_hashes hashes, hashesFrom_eq chain positive inside batch]
  dsimp only [RemoteChain.honest]
  rw [loadHashesFrom_eq positive insideOther]

/-- An honest node has no hashes above its chain. -/
theorem startNextCompare_above (round : Nat) (hashes : context.stage = .hashesFirst ∨ context.stage = .hashesNext)
    (positive : 1 ≤ context.startingHashesHeight.toNat) (inside : context.startingHashesHeight.toNat ≤ chain.hashes.length)
    (above : other.hashes.length < context.startingHashesHeight.toNat) (batch : 1 ≤ options.hashesPerBatch.toNat) :
    startNextCompare chain (.honest other) options round context =
      .complete (context, .ok ⟨.remoteReturnedTooManyHashes, -1, 0⟩) := by
  have missing : other.loadHashesFrom context.startingHashesHeight options.hashesPerBatch.toNat = [] := by
    unfold LocalChain.loadHashesFrom
    refine if_pos ?_
    rw [Bool.or_eq_true, decide_eq_true_eq, decide_eq_true_eq, UInt64.lt_iff_toNat_lt, toNat_chainHeight]
    exact .inr above
  rw [startNextCompare_hashes hashes, hashesFrom_eq chain positive inside batch]
  dsimp only [RemoteChain.honest]
  rw [missing]
  rfl

/-- A batch behind the fork point moves the upper bound. -/
theorem Fork.back (fork : Fork chain other options common) (round : Nat) (later : context.stage = .hashesNext)
    (behind : common < context.startingHashesHeight.toNat) (inside : context.startingHashesHeight.toNat ≤ chain.hashes.length)
    (insideOther : context.startingHashesHeight.toNat ≤ other.hashes.length) :
    startNextCompare chain (.honest other) options round context = isFutureChainComplete
      ({ context with upperBoundHeight := context.startingHashesHeight }.tryContinue
        ((context.lowerBoundHeight + context.startingHashesHeight) / 2)) := by
  have batch := fork.batch
  have difference := fork.firstDifference (show 1 ≤ context.startingHashesHeight.toNat by omega) options.hashesPerBatch.toNat
  rw [show common + 1 - context.startingHashesHeight.toNat = 0 from by omega, Nat.min_zero] at difference
  have length := length_localHashes other context.startingHashesHeight options.hashesPerBatch.toNat
  rw [startNextCompare_honest round (.inr later) (by omega) inside insideOther (by omega)]
  generalize (other.hashes.drop (context.startingHashesHeight.toNat - 1)).take options.hashesPerBatch.toNat = theirs at *
  have notMany : ¬ options.hashesPerBatch.toNat < theirs.length := by omega
  have notZero : theirs.length ≠ 0 := by omega
  unfold compareHashes
  rw [difference]
  simp [later, notMany, notZero]

/-- A batch before the fork point moves the search forward. -/
theorem Fork.forward (fork : Fork chain other options common) (round : Nat)
    (hashes : context.stage = .hashesFirst ∨ context.stage = .hashesNext) (positive : 1 ≤ context.startingHashesHeight.toNat)
    (before : context.startingHashesHeight.toNat + options.hashesPerBatch.toNat ≤ common + 1) :
    startNextCompare chain (.honest other) options round context = isFutureChainComplete
      (context.continueAfterMatch (context.startingHashesHeight + (UInt64.ofNat options.hashesPerBatch.toNat - 1))) := by
  have batch := fork.batch
  obtain ⟨bound, boundOther⟩ := fork.common_le
  refine startNextCompare_take (.honest other) round hashes positive (by omega) (Nat.le_refl _) (by omega) ?_
  dsimp only [RemoteChain.honest]
  rw [loadHashesFrom_eq positive (by omega)]
  apply List.ext_getElem?
  intro index
  by_cases inside : index < options.hashesPerBatch.toNat
  · rw [List.getElem?_take_of_lt inside, List.getElem?_take_of_lt inside, List.getElem?_drop, List.getElem?_drop]
    exact (fork.agree (by omega)).symm
  · rw [List.getElem?_eq_none (by rw [List.length_take]; omega), List.getElem?_eq_none (by rw [List.length_take]; omega)]

/-- A batch with the fork point ends the comparison. -/
theorem Fork.found (fork : Fork chain other options common) (round : Nat)
    (hashes : context.stage = .hashesFirst ∨ context.stage = .hashesNext) (localHeight : context.localHeight = chain.chainHeight)
    (positive : 1 ≤ context.startingHashesHeight.toNat) (shared : context.startingHashesHeight.toNat ≤ common)
    (beyond : common + 1 < context.startingHashesHeight.toNat + options.hashesPerBatch.toNat) :
    ∃ last result, startNextCompare chain (.honest other) options round context = .complete (last, .ok result) ∧
      result.code = .remoteIsNotSynced ∧ result.commonBlockHeight.toNat = common ∧
      result.forkDepth.toNat = chain.hashes.length - common := by
  have stored := chain.stored
  have ahead := fork.common_lt
  obtain ⟨bound, boundOther⟩ := fork.common_le
  have difference := fork.firstDifference positive options.hashesPerBatch.toNat
  rw [show min options.hashesPerBatch.toNat (common + 1 - context.startingHashesHeight.toNat) =
    common + 1 - context.startingHashesHeight.toNat from by omega] at difference
  have length := length_localHashes chain context.startingHashesHeight options.hashesPerBatch.toNat
  have lengthOther := length_localHashes other context.startingHashesHeight options.hashesPerBatch.toNat
  have commonNat := toNat_batchHeight context.startingHashesHeight (common + 1 - context.startingHashesHeight.toNat)
    (by omega) (by omega)
  rw [startNextCompare_honest round hashes positive (by omega) (by omega) (by omega)]
  generalize (chain.hashes.drop (context.startingHashesHeight.toNat - 1)).take options.hashesPerBatch.toNat = mine at *
  generalize (other.hashes.drop (context.startingHashesHeight.toNat - 1)).take options.hashesPerBatch.toNat = theirs at *
  have derived := toNat_batchHeight context.startingHashesHeight (min mine.length theirs.length) (by omega) (by omega)
  have notHigher : ¬ context.localHeight < context.startingHashesHeight + (UInt64.ofNat (min mine.length theirs.length) - 1) := by
    rw [localHeight, UInt64.lt_iff_toNat_lt, toNat_chainHeight, derived]
    omega
  unfold compareHashes
  rw [difference]
  have notMany : ¬ options.hashesPerBatch.toNat < theirs.length := by omega
  have notZero : theirs.length ≠ 0 := by omega
  have some : common + 1 - context.startingHashesHeight.toNat ≠ 0 := by omega
  have notAll : theirs.length ≠ common + 1 - context.startingHashesHeight.toNat := by omega
  simp only [notMany, notZero, some, notAll, notHigher, decide_false, Bool.or_self, Bool.and_false, Bool.false_eq_true, if_false]
  refine ⟨_, _, rfl, rfl, ?_, ?_⟩
  · rw [if_pos rfl, commonNat]
    omega
  · rw [if_pos rfl, localHeight, UInt64.toNat_sub_of_le, toNat_chainHeight, commonNat]
    · omega
    · rw [UInt64.le_iff_toNat_le, toNat_chainHeight, commonNat]
      omega

end Rounds

variable {chain other : LocalChain} {options : CompareChainsOptions} {common : Nat}
  {context next : CompareChainsContext}

/-- The bounds of the search lie around its starting height. -/
structure Bisecting (chain other : LocalChain) (common : Nat) (context : CompareChainsContext) : Prop where
  hashes : context.stage = .hashesFirst ∨ context.stage = .hashesNext
  first : context.stage = .hashesFirst → context.startingHashesHeight.toNat ≤ common
  localHeight : context.localHeight = chain.chainHeight
  remoteHeight : context.remoteHeight = other.chainHeight
  positive : 1 ≤ context.lowerBoundHeight.toNat
  lower : context.lowerBoundHeight.toNat ≤ common
  start : context.lowerBoundHeight.toNat ≤ context.startingHashesHeight.toNat
  middle : 2 * context.startingHashesHeight.toNat ≤ context.lowerBoundHeight.toNat + context.upperBoundHeight.toNat
  upper : context.upperBoundHeight.toNat ≤ chain.hashes.length

/-- The upper bound lies behind the fork point on the remote chain. -/
structure Enclosed (other : LocalChain) (common : Nat) (context : CompareChainsContext) : Prop where
  behind : common < context.upperBoundHeight.toNat
  inside : context.upperBoundHeight.toNat ≤ other.hashes.length

/-- All batches up to now have agreed. -/
structure Probing (chain : LocalChain) (options : CompareChainsOptions) (common index : Nat)
    (context : CompareChainsContext) : Prop where
  upper : context.upperBoundHeight.toNat = chain.hashes.length
  start : context.startingHashesHeight.toNat = probe chain options index
  agreed : ∀ earlier < index, probe chain options earlier + options.hashesPerBatch.toNat ≤ common + 1

/-- The local chain is a prefix of the remote chain. -/
structure Final (chain : LocalChain) (common : Nat) (context : CompareChainsContext) : Prop where
  stage : context.stage = .hashesNext
  localHeight : context.localHeight = chain.chainHeight
  common : common = chain.hashes.length
  positive : 1 ≤ context.startingHashesHeight.toNat
  start : context.startingHashesHeight.toNat + 1 = chain.hashes.length

inductive Approaching (chain other : LocalChain) (options : CompareChainsOptions) (common : Nat)
    (context : CompareChainsContext) : Prop where
  | enclosed (bisecting : Bisecting chain other common context) (enclosed : Enclosed other common context)
  | probing (index : Nat) (bisecting : Bisecting chain other common context)
      (probing : Probing chain options common index context)
  | final (final : Final chain common context)

/-- The distances between the bounds and to the starting height count. -/
def distance (context : CompareChainsContext) : Nat :=
  (context.upperBoundHeight.toNat - context.lowerBoundHeight.toNat) +
    (context.upperBoundHeight.toNat - context.startingHashesHeight.toNat)

theorem Bisecting.back (bisecting : Bisecting chain other common context) (fork : Fork chain other options common)
    (round : Nat) (behind : common < context.startingHashesHeight.toNat)
    (insideOther : context.startingHashesHeight.toNat ≤ other.hashes.length) :
    ∃ next, startNextCompare chain (.honest other) options round context = .incomplete next ∧
      Bisecting chain other common next ∧ Enclosed other common next ∧ distance next < distance context := by
  obtain ⟨hashes, first, localHeight, remoteHeight, positive, lower, start, middle, upper⟩ := bisecting
  have stored := chain.stored
  have later : context.stage = .hashesNext := hashes.resolve_left fun isFirst => by
    have := first isFirst
    omega
  have half := toNat_middle context.lowerBoundHeight context.startingHashesHeight (by omega) (by omega)
  have different : context.startingHashesHeight ≠ (context.lowerBoundHeight + context.startingHashesHeight) / 2 := by
    rw [ne_eq, ← UInt64.toNat_inj, half]
    omega
  refine ⟨_, (fork.back round later behind (by omega) insideOther).trans (tryContinue_of_ne different), ?_, ?_, ?_⟩
  · exact ⟨.inr rfl, fun isFirst => (nomatch isFirst), localHeight, remoteHeight, positive, lower,
      by dsimp only; omega, by dsimp only; omega, by dsimp only; omega⟩
  · exact ⟨behind, insideOther⟩
  · unfold distance
    dsimp only
    omega

theorem Bisecting.forward (bisecting : Bisecting chain other common context) (fork : Fork chain other options common)
    (round : Nat) (before : context.startingHashesHeight.toNat + options.hashesPerBatch.toNat ≤ common + 1)
    (below : context.startingHashesHeight.toNat + options.hashesPerBatch.toNat ≤ chain.hashes.length)
    (room : context.startingHashesHeight.toNat + 2 ≤ context.upperBoundHeight.toNat) :
    ∃ next, startNextCompare chain (.honest other) options round context = .incomplete next ∧
      Bisecting chain other common next ∧ next.upperBoundHeight = context.upperBoundHeight ∧
      next.startingHashesHeight.toNat = (context.startingHashesHeight.toNat + context.upperBoundHeight.toNat) / 2 ∧
      distance next < distance context := by
  obtain ⟨hashes, first, localHeight, remoteHeight, positive, lower, start, middle, upper⟩ := bisecting
  have stored := chain.stored
  have batch := fork.batch
  have derived := toNat_batchHeight context.startingHashesHeight options.hashesPerBatch.toNat (by omega) (by omega)
  have half := toNat_middle context.startingHashesHeight context.upperBoundHeight (by omega) (by omega)
  have different : context.startingHashesHeight ≠ (context.startingHashesHeight + context.upperBoundHeight) / 2 := by
    rw [ne_eq, ← UInt64.toNat_inj, half]
    omega
  have notReached : ¬ context.localHeight ≤ context.startingHashesHeight + (UInt64.ofNat options.hashesPerBatch.toNat - 1) := by
    rw [localHeight, UInt64.le_iff_toNat_le, toNat_chainHeight, derived]
    omega
  have moved := fork.forward round hashes (by omega) before
  rw [continueAfterMatch, if_neg notReached] at moved
  refine ⟨_, moved.trans (@tryContinue_of_ne
    { context with lowerBoundHeight := context.startingHashesHeight } _ different), ?_, rfl, half, ?_⟩
  · exact ⟨.inr rfl, fun isFirst => (nomatch isFirst), localHeight, remoteHeight, by dsimp only; omega, by dsimp only; omega,
      by dsimp only; omega, by dsimp only; omega, upper⟩
  · unfold distance
    dsimp only
    omega

/-- A batch that ends with the local chain prepares the final comparison. -/
theorem Bisecting.final (bisecting : Bisecting chain other common context) (fork : Fork chain other options common)
    (round : Nat) (whole : common = chain.hashes.length) (full : context.upperBoundHeight.toNat = chain.hashes.length)
    (last : context.startingHashesHeight.toNat + options.hashesPerBatch.toNat = common + 1) :
    ∃ next, startNextCompare chain (.honest other) options round context = .incomplete next ∧
      Final chain common next ∧ distance next < distance context := by
  obtain ⟨hashes, first, localHeight, remoteHeight, positive, lower, start, middle, upper⟩ := bisecting
  have stored := chain.stored
  have batch := fork.batch
  have ahead := fork.common_lt
  have derived := toNat_batchHeight context.startingHashesHeight options.hashesPerBatch.toNat (by omega) (by omega)
  have reached : context.localHeight ≤ context.startingHashesHeight + (UInt64.ofNat options.hashesPerBatch.toNat - 1) := by
    rw [localHeight, UInt64.le_iff_toNat_le, toNat_chainHeight, derived]
    omega
  have remains : context.startingHashesHeight + (UInt64.ofNat options.hashesPerBatch.toNat - 1) < context.remoteHeight := by
    rw [remoteHeight, UInt64.lt_iff_toNat_lt, toNat_chainHeight, derived]
    omega
  have previous := toNat_previous (context.startingHashesHeight + (UInt64.ofNat options.hashesPerBatch.toNat - 1)) (by omega)
  have different : context.startingHashesHeight ≠
      context.startingHashesHeight + (UInt64.ofNat options.hashesPerBatch.toNat - 1) - 1 := by
    rw [ne_eq, ← UInt64.toNat_inj, previous, derived]
    omega
  have moved := fork.forward round hashes (by omega) (by omega)
  rw [continueAfterMatch, if_pos reached, if_pos remains] at moved
  refine ⟨_, moved.trans (tryContinue_of_ne different), ?_, ?_⟩
  · exact ⟨rfl, localHeight, whole, by dsimp only; omega, by dsimp only; omega⟩
  · unfold distance
    dsimp only
    omega

/-- The comparison comes closer to the fork point or ends with it. -/
theorem Approaching.step (approaching : Approaching chain other options common context)
    (fork : Fork chain other options common) (probes : ProbesRemote chain other options common) (round : Nat) :
    (∃ next, startNextCompare chain (.honest other) options round context = .incomplete next ∧
      Approaching chain other options common next ∧ distance next < distance context) ∨
    ∃ last result, startNextCompare chain (.honest other) options round context = .complete (last, .ok result) ∧
      result.code = .remoteIsNotSynced ∧ result.commonBlockHeight.toNat = common ∧
      result.forkDepth.toNat = chain.hashes.length - common := by
  have batch := fork.batch
  obtain ⟨bound, boundOther⟩ := fork.common_le
  cases approaching with
  | final final =>
    have start := final.start
    have whole := final.common
    exact .inr (fork.found round (.inr final.stage) final.localHeight final.positive (by omega) (by omega))
  | enclosed bisecting enclosed =>
    obtain ⟨behind, inside⟩ := enclosed
    have middle := bisecting.middle
    have lower := bisecting.lower
    have positive := bisecting.positive
    have start := bisecting.start
    have upper := bisecting.upper
    by_cases back : common < context.startingHashesHeight.toNat
    · obtain ⟨next, stepped, kept, enclosed, smaller⟩ := bisecting.back fork round back (by omega)
      exact .inl ⟨next, stepped, .enclosed kept enclosed, smaller⟩
    by_cases before : context.startingHashesHeight.toNat + options.hashesPerBatch.toNat ≤ common + 1
    · obtain ⟨next, stepped, kept, sameUpper, _, smaller⟩ :=
        bisecting.forward fork round before (by omega) (by omega)
      exact .inl ⟨next, stepped, .enclosed kept ⟨by rw [sameUpper]; exact behind, by rw [sameUpper]; exact inside⟩, smaller⟩
    · exact .inr (fork.found round bisecting.hashes bisecting.localHeight (by omega) (by omega) (by omega))
  | probing index bisecting probing =>
    have inside := probes index probing.agreed
    rw [← probing.start] at inside
    have full := probing.upper
    have middle := bisecting.middle
    have lower := bisecting.lower
    have positive := bisecting.positive
    have start := bisecting.start
    by_cases back : common < context.startingHashesHeight.toNat
    · obtain ⟨next, stepped, kept, enclosed, smaller⟩ := bisecting.back fork round back inside
      exact .inl ⟨next, stepped, .enclosed kept enclosed, smaller⟩
    by_cases before : context.startingHashesHeight.toNat + options.hashesPerBatch.toNat ≤ common + 1
    · by_cases last : context.startingHashesHeight.toNat + options.hashesPerBatch.toNat = chain.hashes.length + 1
      · obtain ⟨next, stepped, final, smaller⟩ := bisecting.final fork round (by omega) full (by omega)
        exact .inl ⟨next, stepped, .final final, smaller⟩
      · obtain ⟨next, stepped, kept, sameUpper, moved, smaller⟩ :=
          bisecting.forward fork round before (by omega) (by omega)
        refine .inl ⟨next, stepped, .probing (index + 1) kept ⟨by rw [sameUpper]; exact full, ?_, ?_⟩, smaller⟩
        · rw [moved, probing.start, full]
          rfl
        · intro earlier below
          rcases Nat.lt_succ_iff_lt_or_eq.mp below with less | rfl
          · exact probing.agreed earlier less
          · rw [← probing.start]
            exact before
    · exact .inr (fork.found round bisecting.hashes bisecting.localHeight (by omega) (by omega) (by omega))

/-- The search starts at the finalized block with the whole local chain. -/
def firstContext (chain other : LocalChain) (options : CompareChainsOptions) : CompareChainsContext :=
  ⟨.hashesFirst, options.finalizedHeight, options.finalizedHeight, chain.chainHeight, chain.chainHeight,
    other.chainHeight, chain.score, 0⟩

theorem Fork.start (fork : Fork chain other options common) (round : Nat) :
    startNextCompare chain (.honest other) options round .create = .incomplete (firstContext chain other options) := by
  refine startNextCompare_create chain round ?_ fork.better
  change options.finalizedHeight < other.chainHeight
  rw [UInt64.lt_iff_toNat_lt, toNat_chainHeight]
  exact fork.ahead

theorem Fork.bisecting (fork : Fork chain other options common) :
    Bisecting chain other common (firstContext chain other options) := by
  obtain ⟨positive, below⟩ := fork.finalized_le
  obtain ⟨bound, _⟩ := fork.common_le
  have height := toNat_chainHeight chain
  exact ⟨.inl rfl, fun _ => below, rfl, rfl, positive, below, Nat.le_refl _, by dsimp only [firstContext]; omega,
    Nat.le_of_eq height⟩

theorem probing_firstContext (chain other : LocalChain) (options : CompareChainsOptions) (common : Nat) :
    Probing chain options common 0 (firstContext chain other options) :=
  ⟨toNat_chainHeight chain, rfl, fun _ below => absurd below (Nat.not_lt_zero _)⟩

theorem Fork.findsFork (fork : Fork chain other options common) (probes : ProbesRemote chain other options common) :
    FindsFork chain other options common := by
  have reached : after (startNextCompare chain (.honest other) options) .create 1 =
      .incomplete (firstContext chain other options) := fork.start 0
  have preserved : ∀ round state next, (state = .create ∨ Approaching chain other options common state) →
      startNextCompare chain (.honest other) options round state = .incomplete next →
      next = .create ∨ Approaching chain other options common next := by
    rintro round state next (rfl | approaching) stepped
    · rw [fork.start] at stepped
      cases stepped
      exact .inr (.probing 0 fork.bisecting (probing_firstContext chain other options common))
    · rcases approaching.step fork probes round with ⟨other, same, kept, _⟩ | ⟨_, _, complete, _⟩
      · rw [stepped] at same
        cases same
        exact .inr kept
      · rw [stepped] at complete
        cases complete
  have ends : Ends (startNextCompare chain (.honest other) options) .create := by
    refine ends_of_measure (Approaching chain other options common) distance ?_ reached
      (.probing 0 fork.bisecting (probing_firstContext chain other options common))
    intro round state next approaching stepped
    rcases approaching.step fork probes round with ⟨other, same, kept, smaller⟩ | ⟨_, _, complete, _⟩
    · rw [stepped] at same
      cases same
      exact ⟨kept, smaller⟩
    · rw [stepped] at complete
      cases complete
  obtain ⟨rounds, ending, ended⟩ := ends
  obtain ⟨round, _, state, (rfl | approaching), stepped⟩ := invariant_result
    (fun state => state = .create ∨ Approaching chain other options common state) preserved (.inl rfl) ended
  · rw [fork.start] at stepped
    cases stepped
  · rcases approaching.step fork probes round with ⟨_, same, _, _⟩ | ⟨last, result, complete, found⟩
    · rw [stepped] at same
      cases same
    · rw [stepped] at complete
      cases complete
      exact ⟨rounds, last, result, ended, found⟩

/-- The search reaches every height up to which all batches agree. -/
theorem Fork.reaches (fork : Fork chain other options common) (shorter : other.hashes.length < chain.hashes.length) {index : Nat}
    (agreed : ∀ earlier < index, probe chain options earlier + options.hashesPerBatch.toNat ≤ common + 1) :
    ∃ context, after (startNextCompare chain (.honest other) options) .create (index + 1) = .incomplete context ∧
      Bisecting chain other common context ∧ Probing chain options common index context := by
  have batch := fork.batch
  have ahead := fork.common_lt
  induction index with
  | zero => exact ⟨firstContext chain other options, fork.start 0, fork.bisecting, probing_firstContext chain other options common⟩
  | succ index ih =>
    obtain ⟨context, reached, bisecting, probing⟩ := ih fun earlier below => agreed earlier (Nat.lt_succ_of_lt below)
    have before := agreed index (Nat.lt_succ_self index)
    have full := probing.upper
    rw [← probing.start] at before
    obtain ⟨next, stepped, kept, sameUpper, moved, _⟩ :=
      bisecting.forward fork (index + 1) before (by omega) (by omega)
    refine ⟨next, (after_succ reached).trans stepped, kept, by rw [sameUpper]; exact full, ?_, agreed⟩
    rw [moved, probing.start, full]
    rfl

theorem Fork.probe_le (fork : Fork chain other options common) (index : Nat) :
    probe chain options index ≤ chain.hashes.length := by
  obtain ⟨_, below⟩ := fork.finalized_le
  obtain ⟨bound, _⟩ := fork.common_le
  induction index with
  | zero => exact Nat.le_trans below bound
  | succ index ih =>
    unfold probe
    omega

theorem Fork.probesRemote (fork : Fork chain other options common) (finds : FindsFork chain other options common) :
    ProbesRemote chain other options common := by
  intro index agreed
  by_contra above
  have batch := fork.batch
  have limit := fork.probe_le index
  obtain ⟨context, reached, bisecting, probing⟩ := fork.reaches (by omega) agreed
  have start := probing.start
  have positive := bisecting.positive
  have lower := bisecting.start
  have inside : context.startingHashesHeight.toNat ≤ chain.hashes.length := start ▸ limit
  have missing : other.hashes.length < context.startingHashesHeight.toNat := by omega
  have stepped := startNextCompare_above (index + 1) bisecting.hashes (by omega) inside missing
    (show 1 ≤ options.hashesPerBatch.toNat by omega)
  obtain ⟨rounds, last, result, ended, code, _⟩ := finds
  have same := complete_unique ended ((after_succ reached).trans stepped)
  cases same
  cases code

/-- The comparison with an honest node finds the fork point exactly if the first batch that reaches beyond it starts at a height
of the remote chain. -/
theorem findsFork_iff_probesRemote (chain other : LocalChain) (options : CompareChainsOptions) (common : Nat)
    (fork : Fork chain other options common) : FindsFork chain other options common ↔ ProbesRemote chain other options common :=
  ⟨fork.probesRemote, fork.findsFork⟩

namespace Samples

/-- Three blocks are shared, and equal hashes follow on each side. -/
def branch (byte : UInt8) (count : Nat) (score : ChainScore) (small : count < 2 ^ 32) : LocalChain where
  hashes := [Vector.replicate 32 1, Vector.replicate 32 2, Vector.replicate 32 3] ++ List.replicate count (Vector.replicate 32 byte)
  score := score
  stored := by
    rw [List.length_append, List.length_replicate]
    simp only [List.length_cons, List.length_nil]
    omega

theorem branch_agrees_iff {count others : Nat} {score better : ChainScore} (small : count < 2 ^ 32) (smallOther : others < 2 ^ 32)
    (height : Nat) : Agrees (branch 7 count score small) (branch 8 others better smallOther) height ↔ 1 ≤ height ∧ height ≤ 3 := by
  constructor
  · rintro ⟨positive, hash, mine, theirs⟩
    refine ⟨positive, ?_⟩
    by_contra above
    have behind : 3 ≤ height - 1 := by omega
    dsimp only [branch] at mine theirs
    rw [List.getElem?_append_right behind] at mine theirs
    rw [List.eq_of_mem_replicate (List.mem_of_getElem? mine)] at theirs
    exact absurd (List.eq_of_mem_replicate (List.mem_of_getElem? theirs)) (by decide)
  · rintro ⟨positive, below⟩
    refine ⟨positive, ?_⟩
    dsimp only [branch]
    rw [List.getElem?_append_left (show height - 1 < 3 by omega), List.getElem?_append_left (show height - 1 < 3 by omega)]
    exact ⟨_, List.getElem?_eq_getElem (show height - 1 < 3 by omega), List.getElem?_eq_getElem (show height - 1 < 3 by omega)⟩

def threeHashes : CompareChainsOptions := ⟨3, 1⟩

theorem branch_fork {count others : Nat} (small : count < 2 ^ 32) (smallOther : others < 2 ^ 32) (some : 1 ≤ others) :
    Fork (branch 7 count 5 small) (branch 8 others 6 smallOther) threeHashes 3 := by
  have agrees := @branch_agrees_iff count others 5 6 small smallOther
  have length : (branch 8 others 6 smallOther).hashes.length = 3 + others := by
    dsimp only [branch]
    rw [List.length_append, List.length_replicate]
    rfl
  refine ⟨?_, (agrees _).mpr (by decide), ⟨(agrees 3).mpr (by decide), fun height member => ((agrees height).mp member).2⟩,
    show (5 : ChainScore) < 6 by decide, ?_, ?_, by decide⟩
  · intro height lower agreed positive below
    rw [agrees] at agreed ⊢
    omega
  · rw [length]
    change 1 < 3 + others
    omega
  · rintro ⟨rest, whole⟩
    have theirs : (branch 8 others 6 smallOther).hashes[3]? = Option.some (Vector.replicate 32 8) := by
      dsimp only [branch]
      rw [List.getElem?_append_right (Nat.le_refl 3), List.getElem?_replicate]
      exact if_pos some
    have mine : (branch 7 count 5 small).hashes[3]? = Option.some (Vector.replicate 32 8) := by
      rw [← whole, List.getElem?_append_left (by omega), theirs]
    have agreed := ((agrees 4).mp ⟨by decide, _, mine, theirs⟩).2
    omega

/-- The second batch starts above the remote chain of four blocks. -/
theorem shorter_remote_reported : Fork (branch 7 7 5 (by decide)) (branch 8 1 6 (by decide)) threeHashes 3 ∧
    ¬ FindsFork (branch 7 7 5 (by decide)) (branch 8 1 6 (by decide)) threeHashes 3 := by
  have fork := branch_fork (show 7 < 2 ^ 32 by decide) (show 1 < 2 ^ 32 by decide) (Nat.le_refl 1)
  refine ⟨fork, fun finds => ?_⟩
  have inside := fork.probesRemote finds 1 (by
    intro earlier below
    obtain rfl : earlier = 0 := by omega
    decide)
  exact absurd inside (by decide)

/-- The fork point with a longer remote is found. -/
theorem longer_remote_found : Fork (branch 7 7 5 (by decide)) (branch 8 9 6 (by decide)) threeHashes 3 ∧
    FindsFork (branch 7 7 5 (by decide)) (branch 8 9 6 (by decide)) threeHashes 3 := by
  have fork := branch_fork (show 7 < 2 ^ 32 by decide) (show 9 < 2 ^ 32 by decide) (by decide)
  refine ⟨fork, (findsFork_iff_probesRemote _ _ _ _ fork).mpr fun index _ => ?_⟩
  exact Nat.le_trans (fork.probe_le index) (by decide)

end Samples

end Catapult.Chain
