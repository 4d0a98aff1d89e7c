import Catapult.Construction.Chain.CompareChains

/-
This file shows what one round of a chain comparison can do.
-/

namespace Catapult.Chain

open Rounds CompareChainsContext

section Hashes

theorem findFirstDifferenceIndex_le (lhs rhs : List Hash256) :
    findFirstDifferenceIndex lhs rhs ≤ lhs.length ∧ findFirstDifferenceIndex lhs rhs ≤ rhs.length := by
  induction lhs generalizing rhs with
  | nil => simp [findFirstDifferenceIndex]
  | cons first lhs ih =>
    cases rhs with
    | nil => simp [findFirstDifferenceIndex]
    | cons other rhs =>
      unfold findFirstDifferenceIndex
      have rest := ih rhs
      split
      · simp
      · simp only [List.length_cons]
        omega

/-- All hashes before the first difference agree. -/
theorem findFirstDifferenceIndex_agree {lhs rhs : List Hash256} {index : Nat}
    (before : index < findFirstDifferenceIndex lhs rhs) : lhs[index]? = rhs[index]? := by
  induction lhs generalizing rhs index with
  | nil => simp [findFirstDifferenceIndex] at before
  | cons first lhs ih =>
    cases rhs with
    | nil => simp [findFirstDifferenceIndex] at before
    | cons other rhs =>
      unfold findFirstDifferenceIndex at before
      split at before
      · omega
      · next same =>
        cases index with
        | zero => simpa using same
        | succ index => simpa using ih (by omega)

/-- Equal hashes are followed up to the end of the shorter list. -/
theorem findFirstDifferenceIndex_take (hashes : List Hash256) (count : Nat) (inside : count ≤ hashes.length) :
    findFirstDifferenceIndex hashes (hashes.take count) = count := by
  induction count generalizing hashes with
  | zero => cases hashes <;> simp [findFirstDifferenceIndex]
  | succ count ih =>
    cases hashes with
    | nil => simp at inside
    | cons first hashes => simpa [findFirstDifferenceIndex] using ih hashes (by simpa using inside)

variable {chain : LocalChain} {height : Height} {maxHashes : UInt32} {localHashes : List Hash256}

theorem toNat_chainHeight (chain : LocalChain) : chain.chainHeight.toNat = chain.hashes.length := by
  have stored := chain.stored
  exact Nat.mod_eq_of_lt (by omega)

/-- The hashes from a height of the chain are limited only by the batch size. -/
theorem loadHashesFrom_eq (positive : 1 ≤ height.toNat) (inside : height.toNat ≤ chain.hashes.length)
    (count : Nat) : chain.loadHashesFrom height count = (chain.hashes.drop (height.toNat - 1)).take count := by
  have notZero : height ≠ 0 := fun zero => by
    rw [zero] at positive
    exact absurd positive (by decide)
  have notAbove : ¬ chain.chainHeight < height := by
    rw [UInt64.lt_iff_toNat_lt, toNat_chainHeight]
    omega
  have available : (chain.chainHeight - height).toNat + 1 = chain.hashes.length - (height.toNat - 1) := by
    rw [UInt64.toNat_sub_of_le _ _ (UInt64.not_lt.mp notAbove), toNat_chainHeight]
    omega
  unfold LocalChain.loadHashesFrom
  simp only [notZero, notAbove, decide_false, Bool.or_self, Bool.false_eq_true, if_false]
  rw [available, ← List.length_drop, ← List.take_eq_take_min]

theorem length_localHashes (chain : LocalChain) (height : Height) (count : Nat) :
    ((chain.hashes.drop (height.toNat - 1)).take count).length = min count (chain.hashes.length - (height.toNat - 1)) := by
  rw [List.length_take, List.length_drop]

/-- The local node has all hashes from a height of its chain. -/
theorem hashesFrom_eq (chain : LocalChain) (positive : 1 ≤ height.toNat) (inside : height.toNat ≤ chain.hashes.length)
    (batch : 1 ≤ maxHashes.toNat) : chain.hashesFrom height maxHashes =
      .ok ((chain.hashes.drop (height.toNat - 1)).take maxHashes.toNat) := by
  unfold LocalChain.hashesFrom
  rw [loadHashesFrom_eq positive inside]
  have notEmpty : ((chain.hashes.drop (height.toNat - 1)).take maxHashes.toNat).isEmpty = false := by
    rw [← Bool.not_eq_true, List.isEmpty_iff_length_eq_zero, length_localHashes]
    omega
  simp [notEmpty]

/-- A request that succeeds is for a height of the chain. -/
theorem hashesFrom_ok (found : chain.hashesFrom height maxHashes = .ok localHashes) :
    1 ≤ height.toNat ∧ height.toNat ≤ chain.hashes.length ∧ 1 ≤ maxHashes.toNat ∧
      localHashes = (chain.hashes.drop (height.toNat - 1)).take maxHashes.toNat := by
  unfold LocalChain.hashesFrom at found
  by_cases available : 1 ≤ height.toNat ∧ height.toNat ≤ chain.hashes.length
  · rw [loadHashesFrom_eq available.1 available.2] at found
    dsimp only at found
    split at found
    · cases found
    · next notEmpty =>
      rw [List.isEmpty_iff_length_eq_zero, length_localHashes] at notEmpty
      exact ⟨available.1, available.2, by omega, (Except.ok.inj found).symm⟩
  · have missing : chain.loadHashesFrom height maxHashes.toNat = [] := by
      unfold LocalChain.loadHashesFrom
      refine if_pos ?_
      rw [Bool.or_eq_true, decide_eq_true_eq, decide_eq_true_eq, UInt64.lt_iff_toNat_lt, toNat_chainHeight, ← UInt64.toNat_inj]
      change height.toNat = 0 ∨ _
      omega
    rw [missing] at found
    cases found

end Hashes

variable {chain : LocalChain} {remote : RemoteChain} {options : CompareChainsOptions} {round : Nat}
  {context next : CompareChainsContext}

/-- The search runs over heights of the local chain. -/
structure Searching (chain : LocalChain) (context : CompareChainsContext) : Prop where
  hashes : context.stage = .hashesFirst ∨ context.stage = .hashesNext
  localHeight : context.localHeight = chain.chainHeight
  lower : context.lowerBoundHeight.toNat ≤ chain.hashes.length
  upper : context.upperBoundHeight.toNat ≤ chain.hashes.length

theorem Searching.stage_ne (searching : Searching chain context) : context.stage ≠ .scoreLocal := by
  rcases searching.hashes with first | later
  · simp [first]
  · simp [later]

/-- A round moves one end of the search, prepares the final comparison or leaves the search. -/
inductive Continues (chain : LocalChain) (options : CompareChainsOptions) (context next : CompareChainsContext) : Prop where
  | back (later : context.stage = .hashesNext) (lower : next.lowerBoundHeight = context.lowerBoundHeight)
      (upper : next.upperBoundHeight = context.startingHashesHeight)
      (start : next.startingHashesHeight.toNat = (context.lowerBoundHeight.toNat + context.startingHashesHeight.toNat) / 2)
  | forward (count : Nat) (counted : 1 ≤ count) (batch : count ≤ options.hashesPerBatch.toNat)
      (below : context.startingHashesHeight.toNat + count ≤ chain.hashes.length)
      (lower : next.lowerBoundHeight = context.startingHashesHeight)
      (upper : next.upperBoundHeight = context.upperBoundHeight)
      (start : next.startingHashesHeight.toNat = (context.startingHashesHeight.toNat + context.upperBoundHeight.toNat) / 2)
  | final (count : Nat) (counted : 1 ≤ count) (batch : count ≤ options.hashesPerBatch.toNat)
      (last : context.startingHashesHeight.toNat + count = chain.hashes.length + 1)
      (lower : next.lowerBoundHeight = context.lowerBoundHeight)
      (upper : next.upperBoundHeight = context.upperBoundHeight)
      (start : next.startingHashesHeight.toNat = chain.hashes.length - 1)

theorem tryContinue_eq_none {height : Height} (continued : context.tryContinue height = (next, none)) :
    context.startingHashesHeight ≠ height ∧ next = { context with startingHashesHeight := height, stage := .hashesNext } := by
  unfold tryContinue at continued
  split at continued
  · cases continued
  · next different =>
    cases continued
    exact ⟨different, rfl⟩

theorem tryContinue_of_ne {height : Height} (different : context.startingHashesHeight ≠ height) :
    isFutureChainComplete (context.tryContinue height) =
      .incomplete { context with startingHashesHeight := height, stage := .hashesNext } := by
  unfold tryContinue
  rw [if_neg different]
  rfl

theorem toNat_middle (lower upper : Height) (lowerSmall : lower.toNat < 2 ^ 63) (upperSmall : upper.toNat < 2 ^ 63) :
    ((lower + upper) / 2).toNat = (lower.toNat + upper.toNat) / 2 := by
  rw [UInt64.toNat_div, UInt64.toNat_add, Nat.mod_eq_of_lt (by omega)]
  rfl

theorem toNat_previous (height : Height) (positive : 1 ≤ height.toNat) : (height - 1).toNat = height.toNat - 1 :=
  UInt64.toNat_sub_of_le height 1 (UInt64.le_iff_toNat_le.mpr positive)

/-- The height of a hash in a batch is its distance from the start. -/
theorem toNat_batchHeight (start : Height) (count : Nat) (counted : 1 ≤ count) (small : start.toNat + count < 2 ^ 64) :
    (start + (UInt64.ofNat count - 1)).toNat = start.toNat + count - 1 := by
  have word : (UInt64.ofNat count).toNat = count := Nat.mod_eq_of_lt (by omega)
  have previous : (UInt64.ofNat count - 1).toNat = count - 1 := by
    rw [toNat_previous _ (by omega), word]
  rw [UInt64.toNat_add, previous, Nat.mod_eq_of_lt (by omega)]
  omega

theorem isFutureChainComplete_incomplete {comparison : Comparison}
    (incomplete : isFutureChainComplete comparison = .incomplete next) : comparison = (next, none) := by
  obtain ⟨context, code⟩ := comparison
  cases code with
  | none =>
    cases incomplete
    rfl
  | some _ => cases incomplete

/-- A remote node with a better score starts a search at the finalized block. -/
theorem startNextCompare_create (chain : LocalChain) (round : Nat)
    (ahead : options.finalizedHeight < remote.chainStatistics.height) (better : chain.score < remote.chainStatistics.score) :
    startNextCompare chain remote options round .create = .incomplete
      ⟨.hashesFirst, options.finalizedHeight, options.finalizedHeight, chain.chainHeight, chain.chainHeight,
        remote.chainStatistics.height, chain.score, 0⟩ := by
  have scored : chain.chainStatistics.score < remote.chainStatistics.score := better
  unfold startNextCompare compareChainStatistics
  dsimp only [create]
  rw [if_neg (UInt64.not_le.mpr ahead), if_pos scored]
  rfl

/-- The stages of the search request hashes from both nodes. -/
theorem startNextCompare_hashes (hashes : context.stage = .hashesFirst ∨ context.stage = .hashesNext) :
    startNextCompare chain remote options round context =
      match chain.hashesFrom context.startingHashesHeight options.hashesPerBatch with
      | .error error => .complete (context, .error error)
      | .ok localHashes =>
        isFutureChainComplete (compareHashes options context localHashes
          (remote.hashesFrom round context.startingHashesHeight options.hashesPerBatch)) := by
  unfold startNextCompare
  cases chain.hashesFrom context.startingHashesHeight options.hashesPerBatch with
  | error error =>
    rcases hashes with first | later
    · simp only [first]
    · simp only [later]
  | ok localHashes =>
    rcases hashes with first | later
    · simp only [first]
    · simp only [later]

/-- The local node raises an exception if the search starts outside of its chain. -/
theorem startNextCompare_missing (hashes : context.stage = .hashesFirst ∨ context.stage = .hashesNext)
    (missing : ¬ (1 ≤ context.startingHashesHeight.toNat ∧ context.startingHashesHeight.toNat ≤ chain.hashes.length)) :
    ∃ error, startNextCompare chain remote options round context = .complete (context, .error error) := by
  rw [startNextCompare_hashes hashes]
  cases found : chain.hashesFrom context.startingHashesHeight options.hashesPerBatch with
  | error error => exact ⟨error, rfl⟩
  | ok localHashes =>
    obtain ⟨positive, inside, _, _⟩ := hashesFrom_ok found
    exact absurd ⟨positive, inside⟩ missing

/-- A round of the search that continues starts at a height of the chain. -/
theorem startNextCompare_available (hashes : context.stage = .hashesFirst ∨ context.stage = .hashesNext)
    (stepped : startNextCompare chain remote options round context = .incomplete next) :
    1 ≤ context.startingHashesHeight.toNat ∧ context.startingHashesHeight.toNat ≤ chain.hashes.length := by
  by_contra missing
  obtain ⟨error, complete⟩ := startNextCompare_missing hashes missing
  rw [complete] at stepped
  cases stepped

/-- A batch in which all hashes agree moves the search forward or prepares the final comparison. -/
theorem Searching.continueAfterMatch (searching : Searching chain context) {count : Nat} (counted : 1 ≤ count)
    (positive : 1 ≤ context.startingHashesHeight.toNat) (batch : count ≤ options.hashesPerBatch.toNat)
    (inside : context.startingHashesHeight.toNat + count ≤ chain.hashes.length + 1) (continued : context.continueAfterMatch
      (context.startingHashesHeight + (UInt64.ofNat count - 1)) = (next, none)) :
    next.stage = .scoreLocal ∨ next.stage = .hashesNext ∧ next.localHeight = chain.chainHeight ∧
      next.startingHashesHeight ≠ context.startingHashesHeight ∧ Continues chain options context next := by
  have stored := chain.stored
  have derived := toNat_batchHeight context.startingHashesHeight count counted (by omega)
  have upper := searching.upper
  unfold CompareChainsContext.continueAfterMatch at continued
  split at continued
  · next reached =>
    rw [searching.localHeight, UInt64.le_iff_toNat_le, toNat_chainHeight, derived] at reached
    split at continued
    · obtain ⟨different, rfl⟩ := tryContinue_eq_none continued
      refine .inr ⟨rfl, searching.localHeight, different.symm, .final count counted batch (by omega) rfl rfl ?_⟩
      rw [toNat_previous _ (by omega), derived]
      omega
    · cases continued
      exact .inl rfl
  · next below =>
    rw [searching.localHeight, UInt64.le_iff_toNat_le, toNat_chainHeight, derived] at below
    obtain ⟨different, rfl⟩ := tryContinue_eq_none continued
    refine .inr ⟨rfl, searching.localHeight, different.symm, .forward count counted batch (by omega) rfl rfl ?_⟩
    exact toNat_middle _ _ (by omega) (by omega)

/-- A round of the search that continues has one of the listed effects. -/
theorem Searching.continues (searching : Searching chain context)
    (stepped : startNextCompare chain remote options round context = .incomplete next) :
    next.stage = .scoreLocal ∨ next.stage = .hashesNext ∧ next.localHeight = chain.chainHeight ∧
      next.startingHashesHeight ≠ context.startingHashesHeight ∧ Continues chain options context next := by
  rw [startNextCompare_hashes searching.hashes] at stepped
  cases found : chain.hashesFrom context.startingHashesHeight options.hashesPerBatch with
  | error error =>
    rw [found] at stepped
    cases stepped
  | ok localHashes =>
    rw [found] at stepped
    obtain ⟨positive, inside, batch, available⟩ := hashesFrom_ok found
    have compared := isFutureChainComplete_incomplete stepped
    generalize remote.hashesFrom round context.startingHashesHeight options.hashesPerBatch = remoteHashes
      at compared
    obtain ⟨localBound, remoteBound⟩ := findFirstDifferenceIndex_le localHashes remoteHashes
    have length := congrArg List.length available
    rw [length_localHashes] at length
    unfold compareHashes at compared
    dsimp only at compared
    split_ifs at compared with size forked none all
    · cases compared
    · cases compared
    · have stored := chain.stored
      have lower := searching.lower
      obtain ⟨different, rfl⟩ := tryContinue_eq_none compared
      have later : context.stage = .hashesNext := searching.hashes.resolve_left fun first => by
        simp [first, none] at forked
      exact .inr ⟨rfl, searching.localHeight, different.symm, .back later rfl rfl (toNat_middle _ _ (by omega) (by omega))⟩
    · simp only [Bool.or_eq_true, decide_eq_true_eq, not_or] at size
      have shorter : min localHashes.length remoteHashes.length = remoteHashes.length := by omega
      rw [shorter] at compared
      exact searching.continueAfterMatch (by omega) positive (by omega) (by omega) compared
    · cases compared
    · cases compared

/-- The search keeps its bounds on the local chain. -/
theorem Searching.preserved (searching : Searching chain context)
    (stepped : startNextCompare chain remote options round context = .incomplete next) :
    next.stage = .scoreLocal ∨ Searching chain next := by
  have lower := searching.lower
  have upper := searching.upper
  obtain ⟨_, inside⟩ := startNextCompare_available searching.hashes stepped
  rcases searching.continues stepped with left | ⟨stage, localHeight, _, moved⟩
  · exact .inl left
  · cases moved with
    | back _ nextLower nextUpper _ =>
      exact .inr ⟨.inr stage, localHeight, nextLower ▸ lower, nextUpper ▸ inside⟩
    | forward _ _ _ _ nextLower nextUpper _ =>
      exact .inr ⟨.inr stage, localHeight, nextLower ▸ inside, nextUpper ▸ upper⟩
    | final _ _ _ _ nextLower nextUpper _ =>
      exact .inr ⟨.inr stage, localHeight, nextLower ▸ lower, nextUpper ▸ upper⟩

/-- A proposed fork is the result of a comparison with that code. -/
theorem isFutureChainComplete_notSynced {comparison : Comparison} {result : CompareChainsResult}
    (complete : isFutureChainComplete comparison = .complete (next, .ok result)) (code : result.code = .remoteIsNotSynced) :
    comparison = (next, some .remoteIsNotSynced) ∧ result.commonBlockHeight = next.commonBlockHeight ∧
      result.forkDepth = next.localHeight - next.commonBlockHeight := by
  obtain ⟨context, compared⟩ := comparison
  cases compared with
  | none => cases complete
  | some compared =>
    unfold isFutureChainComplete at complete
    dsimp only at complete
    by_cases notSynced : compared = .remoteIsNotSynced
    · subst notSynced
      cases complete
      exact ⟨rfl, rfl, rfl⟩
    · rw [if_neg notSynced] at complete
      cases complete
      exact absurd code notSynced

theorem tryContinue_ne_notSynced {height : Height} : context.tryContinue height ≠ (next, some .remoteIsNotSynced) := by
  intro continued
  unfold tryContinue at continued
  split at continued
  · cases continued
  · cases continued

theorem continueAfterMatch_ne_notSynced {height : Height} :
    context.continueAfterMatch height ≠ (next, some .remoteIsNotSynced) := by
  intro continued
  unfold CompareChainsContext.continueAfterMatch at continued
  split_ifs at continued
  · exact tryContinue_ne_notSynced continued
  · cases continued
  · exact tryContinue_ne_notSynced continued

/-- A fork is proposed if the batches agree in some but not in all hashes. -/
theorem compareHashes_notSynced {localHashes remoteHashes : List Hash256}
    (compared : compareHashes options context localHashes remoteHashes = (next, some .remoteIsNotSynced)) :
    remoteHashes.length ≤ options.hashesPerBatch.toNat ∧ 1 ≤ findFirstDifferenceIndex localHashes remoteHashes ∧
      findFirstDifferenceIndex localHashes remoteHashes < remoteHashes.length ∧
      next.startingHashesHeight = context.startingHashesHeight ∧
      next.commonBlockHeight = context.startingHashesHeight +
        (UInt64.ofNat (findFirstDifferenceIndex localHashes remoteHashes) - 1) ∧
      (next.localHeight = context.localHeight ∨
        context.localHeight < next.localHeight ∧ next.localHeight = context.startingHashesHeight +
          (UInt64.ofNat (min localHashes.length remoteHashes.length) - 1)) := by
  have bound := findFirstDifferenceIndex_le localHashes remoteHashes
  unfold compareHashes at compared
  dsimp only at compared
  split_ifs at compared with size forked none all
  · cases compared
  · cases compared
  · exact absurd compared tryContinue_ne_notSynced
  · exact absurd compared continueAfterMatch_ne_notSynced
  · simp only [Bool.or_eq_true, decide_eq_true_eq, not_or] at size
    cases compared
    exact ⟨by omega, by omega, by omega, rfl, rfl, .inr ⟨by assumption, rfl⟩⟩
  · simp only [Bool.or_eq_true, decide_eq_true_eq, not_or] at size
    cases compared
    exact ⟨by omega, by omega, by omega, rfl, rfl, .inl rfl⟩

/-- A proposed fork starts at the last hash of the batch on which both nodes agree. -/
theorem Searching.notSynced (searching : Searching chain context) {last : CompareChainsContext} {result : CompareChainsResult}
    (stepped : startNextCompare chain remote options round context = .complete (last, .ok result))
    (code : result.code = .remoteIsNotSynced) : ∃ count hash, count + 2 ≤ options.hashesPerBatch.toNat ∧
      1 ≤ context.startingHashesHeight.toNat ∧
      context.startingHashesHeight.toNat + count ≤ chain.hashes.length ∧
      result.commonBlockHeight.toNat = context.startingHashesHeight.toNat + count ∧
      result.forkDepth = chain.chainHeight - result.commonBlockHeight ∧
      last.localHeight = chain.chainHeight ∧ last.startingHashesHeight = context.startingHashesHeight ∧
      (remote.hashesFrom round context.startingHashesHeight options.hashesPerBatch)[count]? = some hash ∧
      chain.hashes[context.startingHashesHeight.toNat + count - 1]? = some hash := by
  have stored := chain.stored
  rw [startNextCompare_hashes searching.hashes] at stepped
  cases found : chain.hashesFrom context.startingHashesHeight options.hashesPerBatch with
  | error error =>
    rw [found] at stepped
    cases stepped
  | ok localHashes =>
    rw [found] at stepped
    obtain ⟨positive, inside, batch, available⟩ := hashesFrom_ok found
    obtain ⟨compared, common, depth⟩ := isFutureChainComplete_notSynced stepped code
    generalize remote.hashesFrom round context.startingHashesHeight options.hashesPerBatch = remoteHashes
      at compared
    obtain ⟨size, counted, partially, start, commonHeight, localHeight⟩ := compareHashes_notSynced compared
    have bound := (findFirstDifferenceIndex_le localHashes remoteHashes).1
    have agree : localHashes[findFirstDifferenceIndex localHashes remoteHashes - 1]? =
        remoteHashes[findFirstDifferenceIndex localHashes remoteHashes - 1]? :=
      findFirstDifferenceIndex_agree (by omega)
    have length := congrArg List.length available
    rw [length_localHashes] at length
    generalize findFirstDifferenceIndex localHashes remoteHashes = difference at *
    have commonNat := toNat_batchHeight context.startingHashesHeight difference counted (by omega)
    have derived := toNat_batchHeight context.startingHashesHeight (min localHashes.length remoteHashes.length)
      (by omega) (by omega)
    have sameHeight : last.localHeight = chain.chainHeight := by
      rcases localHeight with same | ⟨higher, moved⟩
      · exact same.trans searching.localHeight
      · rw [moved, searching.localHeight, UInt64.lt_iff_toNat_lt, toNat_chainHeight, derived] at higher
        omega
    have localHash : localHashes[difference - 1]? = chain.hashes[context.startingHashesHeight.toNat + (difference - 1) - 1]? := by
      rw [available, List.getElem?_take_of_lt (by omega), List.getElem?_drop]
      congr 1
      omega
    refine ⟨difference - 1, remoteHashes[difference - 1], by omega, positive, by omega, ?_, ?_, sameHeight, start,
      List.getElem?_eq_getElem _, ?_⟩
    · rw [common, commonHeight, commonNat]
      omega
    · rw [depth, common, sameHeight]
    · rw [← localHash, agree, List.getElem?_eq_getElem]

/-- A remote node that repeats the first local hashes moves the search. -/
theorem startNextCompare_take (remote : RemoteChain) (round : Nat)
    (hashes : context.stage = .hashesFirst ∨ context.stage = .hashesNext) (positive : 1 ≤ context.startingHashesHeight.toNat)
    {count : Nat} (counted : 1 ≤ count) (batch : count ≤ options.hashesPerBatch.toNat)
    (inside : context.startingHashesHeight.toNat + count ≤ chain.hashes.length + 1)
    (answered : remote.hashesFrom round context.startingHashesHeight options.hashesPerBatch =
      (chain.hashes.drop (context.startingHashesHeight.toNat - 1)).take count) :
    startNextCompare chain remote options round context = isFutureChainComplete
      (context.continueAfterMatch (context.startingHashesHeight + (UInt64.ofNat count - 1))) := by
  have localHashes := hashesFrom_eq chain positive (by omega) (Nat.le_trans counted batch)
  rw [startNextCompare_hashes hashes, localHashes, answered]
  dsimp only
  have remoteLength := length_localHashes chain context.startingHashesHeight count
  have localLength := length_localHashes chain context.startingHashesHeight
    options.hashesPerBatch.toNat
  have same : findFirstDifferenceIndex
      ((chain.hashes.drop (context.startingHashesHeight.toNat - 1)).take options.hashesPerBatch.toNat)
      ((chain.hashes.drop (context.startingHashesHeight.toNat - 1)).take count) = count := by
    have taken := findFirstDifferenceIndex_take
      ((chain.hashes.drop (context.startingHashesHeight.toNat - 1)).take options.hashesPerBatch.toNat) count
      (by omega)
    rwa [List.take_take, Nat.min_eq_left batch] at taken
  unfold compareHashes
  rw [same, remoteLength, localLength]
  have shorter : min (min options.hashesPerBatch.toNat
        (chain.hashes.length - (context.startingHashesHeight.toNat - 1)))
      (min count (chain.hashes.length - (context.startingHashesHeight.toNat - 1))) = count := by omega
  have length : min count (chain.hashes.length - (context.startingHashesHeight.toNat - 1)) = count := by omega
  have notZero : count ≠ 0 := by omega
  have notMany : ¬ options.hashesPerBatch.toNat < count := by omega
  rw [shorter, length]
  simp [notZero, notMany]

/-- A remote node that answers one other hash moves a later round back. -/
theorem startNextCompare_different (later : context.stage = .hashesNext) (positive : 1 ≤ context.startingHashesHeight.toNat)
    (inside : context.startingHashesHeight.toNat ≤ chain.hashes.length)
    (batch : 1 ≤ options.hashesPerBatch.toNat) {hash : Hash256}
    (other : chain.hashes[context.startingHashesHeight.toNat - 1]? ≠ some hash)
    (answered : remote.hashesFrom round context.startingHashesHeight options.hashesPerBatch = [hash]) :
    startNextCompare chain remote options round context = isFutureChainComplete
      ({ context with upperBoundHeight := context.startingHashesHeight }.tryContinue
        ((context.lowerBoundHeight + context.startingHashesHeight) / 2)) := by
  have localHashes := hashesFrom_eq chain positive inside batch
  rw [startNextCompare_hashes (.inr later), localHashes, answered]
  dsimp only
  have different : findFirstDifferenceIndex
      ((chain.hashes.drop (context.startingHashesHeight.toNat - 1)).take options.hashesPerBatch.toNat)
      [hash] = 0 := by
    have head : ((chain.hashes.drop (context.startingHashesHeight.toNat - 1)).take
        options.hashesPerBatch.toNat)[0]? ≠ some hash := by
      rwa [List.getElem?_take_of_lt (by omega), List.getElem?_drop]
    generalize (chain.hashes.drop (context.startingHashesHeight.toNat - 1)).take
      options.hashesPerBatch.toNat = batchHashes at head
    cases batchHashes with
    | nil => rfl
    | cons first rest => exact if_pos (by simpa using head)
  unfold compareHashes
  rw [different]
  have notMany : ¬ options.hashesPerBatch.toNat < 1 := by omega
  simp [later, notMany]

end Catapult.Chain
