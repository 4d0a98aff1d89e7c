import Catapult.Proof.Chain.CompareRounds

/-
This file decides which chain comparisons end and which never propose a fork below the finalized block.
-/

namespace Catapult.Chain

open Rounds CompareChainsContext

variable {chain : LocalChain} {remote : RemoteChain} {options : CompareChainsOptions} {round : Nat}
  {context next : CompareChainsContext}

/-- Every remote node lets the comparison end. -/
def Terminates (chain : LocalChain) (options : CompareChainsOptions) : Prop :=
  ∀ remote, Ends (startNextCompare chain remote options) .create

/-- A remote node can repeat the final comparison if it needs three hashes and none of them is finalized. -/
def Repeatable (chain : LocalChain) (options : CompareChainsOptions) : Prop :=
  3 ≤ options.hashesPerBatch.toNat ∧ 1 ≤ options.finalizedHeight.toNat ∧
    options.finalizedHeight.toNat + 2 ≤ chain.hashes.length ∧ ∃ score, chain.score < score

/-- The last comparison of the scores always ends. -/
theorem scoreLocal_complete (stage : context.stage = .scoreLocal) :
    startNextCompare chain remote options round context ≠ .incomplete next := by
  intro stepped
  unfold startNextCompare at stepped
  rw [stage] at stepped
  have compared := isFutureChainComplete_incomplete stepped
  unfold compareLocalScore at compared
  split at compared
  · cases compared
  · cases compared

/-- The first round ends or starts the search at the finalized block. -/
theorem compareChainStatistics_incomplete (stepped : startNextCompare chain remote options round .create = .incomplete next) :
    chain.score < remote.chainStatistics.score ∧ next.stage = .hashesFirst ∧
      next.localHeight = chain.chainHeight ∧ next.lowerBoundHeight = options.finalizedHeight ∧
      next.startingHashesHeight = options.finalizedHeight ∧ next.upperBoundHeight = chain.chainHeight := by
  have compared := isFutureChainComplete_incomplete stepped
  unfold compareChainStatistics at compared
  split_ifs at compared with behind better equal
  · cases compared
  · cases compared
    exact ⟨better, rfl, rfl, rfl, rfl, rfl⟩
  · cases compared
  · cases compared

/-- The search keeps its starting height strictly below the upper bound. -/
structure Narrowing (chain : LocalChain) (options : CompareChainsOptions) (context : CompareChainsContext) : Prop where
  searching : Searching chain context
  finalized : options.finalizedHeight.toNat ≤ context.lowerBoundHeight.toNat
  lower : context.lowerBoundHeight.toNat ≤ context.startingHashesHeight.toNat
  upper : context.startingHashesHeight.toNat < context.upperBoundHeight.toNat

/-- The distance between the bounds counts first. -/
def remaining (context : CompareChainsContext) : Nat :=
  if context.stage = .scoreLocal then 0
  else (context.upperBoundHeight.toNat - context.lowerBoundHeight.toNat) * 2 ^ 64 +
    (context.upperBoundHeight.toNat - context.startingHashesHeight.toNat) + 1

/-- A final comparison needs three hashes above the finalized block. -/
theorem Narrowing.decreases (narrowing : Narrowing chain options context)
    (short : options.hashesPerBatch.toNat ≤ 2 ∨ chain.hashes.length ≤ options.finalizedHeight.toNat + 1)
    (stepped : startNextCompare chain remote options round context = .incomplete next) :
    (next.stage = .scoreLocal ∨ Narrowing chain options next) ∧ remaining next < remaining context := by
  obtain ⟨searching, finalized, lower, upper⟩ := narrowing
  have top := searching.upper
  have stored := chain.stored
  unfold remaining
  rw [if_neg searching.stage_ne]
  obtain ⟨positive, inside⟩ := startNextCompare_available searching.hashes stepped
  rcases searching.continues stepped with left | ⟨stage, localHeight, different, moved⟩
  · rw [if_pos left]
    exact ⟨.inl left, by omega⟩
  · rw [ne_eq, ← UInt64.toNat_inj] at different
    rw [if_neg (by simp [stage])]
    cases moved with
    | back later nextLower nextUpper start =>
      rw [← UInt64.toNat_inj] at nextLower nextUpper
      exact ⟨.inr ⟨⟨.inr stage, localHeight, by omega, by omega⟩, by omega, by omega, by omega⟩, by omega⟩
    | forward count counted batch below nextLower nextUpper start =>
      rw [← UInt64.toNat_inj] at nextLower nextUpper
      exact ⟨.inr ⟨⟨.inr stage, localHeight, by omega, by omega⟩, by omega, by omega, by omega⟩, by omega⟩
    | final count counted batch last nextLower nextUpper start => omega

/-- The search leaves a chain that ends with the finalized block after one final comparison. -/
structure Exhausted (chain : LocalChain) (context : CompareChainsContext) : Prop where
  searching : Searching chain context
  lower : context.lowerBoundHeight.toNat = chain.hashes.length
  upper : context.upperBoundHeight.toNat = chain.hashes.length
  start : chain.hashes.length ≤ context.startingHashesHeight.toNat + 1

def exhaustion (context : CompareChainsContext) : Nat :=
  if context.stage = .scoreLocal then 0 else context.startingHashesHeight.toNat + 1

theorem Exhausted.decreases (exhausted : Exhausted chain context)
    (stepped : startNextCompare chain remote options round context = .incomplete next) :
    (next.stage = .scoreLocal ∨ Exhausted chain next) ∧ exhaustion next < exhaustion context := by
  obtain ⟨searching, lower, upper, start⟩ := exhausted
  unfold exhaustion
  rw [if_neg searching.stage_ne]
  obtain ⟨positive, inside⟩ := startNextCompare_available searching.hashes stepped
  rcases searching.continues stepped with left | ⟨stage, localHeight, different, moved⟩
  · rw [if_pos left]
    exact ⟨.inl left, by omega⟩
  · rw [ne_eq, ← UInt64.toNat_inj] at different
    rw [if_neg (by simp [stage])]
    cases moved with
    | back later nextLower nextUpper nextStart => omega
    | forward count counted batch below nextLower nextUpper nextStart => omega
    | final count counted batch last nextLower nextUpper nextStart =>
      rw [← UInt64.toNat_inj] at nextLower nextUpper
      exact ⟨.inr ⟨⟨.inr stage, localHeight, by omega, by omega⟩, by omega, by omega, by omega⟩, by omega⟩

/-- The search starts with the whole chain above the finalized block. -/
theorem searching_start (stepped : startNextCompare chain remote options round .create = .incomplete next)
    (inside : options.finalizedHeight.toNat ≤ chain.hashes.length) : Searching chain next := by
  obtain ⟨_, first, localHeight, lower, _, upper⟩ := compareChainStatistics_incomplete stepped
  refine ⟨.inl first, localHeight, ?_, ?_⟩
  · rw [lower]
    exact inside
  · exact Nat.le_of_eq ((congrArg UInt64.toNat upper).trans (toNat_chainHeight chain))

/-- A comparison that cannot repeat its final comparison ends. -/
theorem ends_of_not_repeatable (bounded : ¬ Repeatable chain options) : Ends (startNextCompare chain remote options) .create := by
  cases stepped : startNextCompare chain remote options 0 .create with
  | complete result => exact ⟨1, result, stepped⟩
  | incomplete context =>
    obtain ⟨better, first, localHeight, lower, start, upper⟩ := compareChainStatistics_incomplete stepped
    rw [← UInt64.toNat_inj] at lower start upper
    rw [toNat_chainHeight] at upper
    have reached : after (startNextCompare chain remote options) .create 1 = .incomplete context := stepped
    by_cases inside : 1 ≤ options.finalizedHeight.toNat ∧ options.finalizedHeight.toNat ≤ chain.hashes.length
    · have searching := searching_start stepped inside.2
      by_cases last : options.finalizedHeight.toNat = chain.hashes.length
      · refine ends_of_measure (fun state => state.stage = .scoreLocal ∨ Exhausted chain state) exhaustion
          ?_ reached (.inr ⟨searching, by omega, upper, by omega⟩)
        rintro round state next (left | exhausted) stepped
        · exact absurd stepped (scoreLocal_complete left)
        · exact exhausted.decreases stepped
      · have short : options.hashesPerBatch.toNat ≤ 2 ∨ chain.hashes.length ≤ options.finalizedHeight.toNat + 1 := by
          by_contra long
          exact bounded ⟨by omega, inside.1, by omega, _, better⟩
        refine ends_of_measure (fun state => state.stage = .scoreLocal ∨ Narrowing chain options state) remaining
          ?_ reached (.inr ⟨searching, by omega, by omega, by omega⟩)
        rintro round state next (left | narrowing) stepped
        · exact absurd stepped (scoreLocal_complete left)
        · exact narrowing.decreases short stepped
    · -- The local node does not have the finalized block.
      cases second : startNextCompare chain remote options 1 context with
      | complete result => exact ⟨2, result, (after_succ reached).trans second⟩
      | incomplete next =>
        obtain ⟨positive, available⟩ := startNextCompare_available (.inl first) second
        exact absurd ⟨by omega, by omega⟩ inside

/-- Another hash that differs in the first byte. -/
def otherHash (hash : Hash256) : Hash256 := hash.set 0 (hash[0] + 1)

theorem otherHash_ne (hash : Hash256) : otherHash hash ≠ hash := by
  intro same
  have first := congrArg (fun value : Hash256 => value[0]) same
  simp [otherHash] at first

/-- The remote node requests a final comparison whenever it can and rejects its hashes. -/
def pinningRemote (chain : LocalChain) : RemoteChain where
  chainStatistics := ⟨UInt64.ofNat (chain.hashes.length + 1), Fin.last _⟩
  hashesFrom _ height maxHashes :=
    if height.toNat + 1 = chain.hashes.length then
      [otherHash (chain.hashes.getD (height.toNat - 1) zeroHash)]
    else if chain.hashes.length + 1 - height.toNat ≤ maxHashes.toNat then
      (chain.hashes.drop (height.toNat - 1)).take (chain.hashes.length + 1 - height.toNat)
    else (chain.hashes.drop (height.toNat - 1)).take 1

/-- The search stays below the last two blocks or tries the second to last block. -/
structure Pinned (chain : LocalChain) (context : CompareChainsContext) : Prop where
  searching : Searching chain context
  remoteHeight : context.remoteHeight.toNat = chain.hashes.length + 1
  positive : 1 ≤ context.lowerBoundHeight.toNat
  lower : context.lowerBoundHeight.toNat + 2 ≤ chain.hashes.length
  start : context.lowerBoundHeight.toNat ≤ context.startingHashesHeight.toNat
  below : context.startingHashesHeight.toNat + 1 ≤ chain.hashes.length
  first : context.stage = .hashesFirst → context.startingHashesHeight.toNat + 2 ≤ chain.hashes.length
  upper : chain.hashes.length ≤ context.upperBoundHeight.toNat + 1

/-- The remote node rejects the hashes that it requested for a final comparison. -/
theorem Pinned.reject (batch : 3 ≤ options.hashesPerBatch.toNat) (pinned : Pinned chain context)
    (last : context.startingHashesHeight.toNat + 1 = chain.hashes.length) :
    ∃ next, startNextCompare chain (pinningRemote chain) options round context = .incomplete next ∧ Pinned chain next := by
  obtain ⟨searching, remoteHeight, positive, lower, start, below, first, upper⟩ := pinned
  have stored := chain.stored
  have later : context.stage = .hashesNext := searching.hashes.resolve_left fun atFirst => by
    have notLast := first atFirst
    omega
  have middle := toNat_middle context.lowerBoundHeight context.startingHashesHeight (by omega) (by omega)
  have other : chain.hashes[context.startingHashesHeight.toNat - 1]? ≠
      some (otherHash (chain.hashes.getD (context.startingHashesHeight.toNat - 1) zeroHash)) := by
    rw [List.getD_eq_getElem?_getD, List.getElem?_eq_getElem (by omega)]
    exact fun same => otherHash_ne _ (Option.some.inj same).symm
  have different : context.startingHashesHeight ≠ (context.lowerBoundHeight + context.startingHashesHeight) / 2 := by
    rw [ne_eq, ← UInt64.toNat_inj, middle]
    omega
  refine ⟨_, (startNextCompare_different later (by omega) (by omega) (by omega) other (if_pos last)).trans
    (tryContinue_of_ne different), ?_⟩
  have nextStart : context.lowerBoundHeight.toNat ≤
      ((context.lowerBoundHeight + context.startingHashesHeight) / 2).toNat := by omega
  have nextBelow : ((context.lowerBoundHeight + context.startingHashesHeight) / 2).toNat + 1 ≤ chain.hashes.length := by omega
  exact ⟨⟨.inr rfl, searching.localHeight, searching.lower, Nat.le_of_succ_le below⟩, remoteHeight, positive, lower,
    nextStart, nextBelow, nofun, Nat.le_of_eq last.symm⟩

/-- The remote node requests a final comparison if its batch reaches the end of the chain. -/
theorem Pinned.request (pinned : Pinned chain context) (notLast : context.startingHashesHeight.toNat + 1 ≠ chain.hashes.length)
    (complete : chain.hashes.length + 1 - context.startingHashesHeight.toNat ≤ options.hashesPerBatch.toNat) :
    ∃ next, startNextCompare chain (pinningRemote chain) options round context = .incomplete next ∧ Pinned chain next := by
  obtain ⟨searching, remoteHeight, positive, lower, start, below, first, upper⟩ := pinned
  have stored := chain.stored
  have derived := toNat_batchHeight context.startingHashesHeight
    (chain.hashes.length + 1 - context.startingHashesHeight.toNat) (by omega) (by omega)
  generalize height : context.startingHashesHeight +
    (UInt64.ofNat (chain.hashes.length + 1 - context.startingHashesHeight.toNat) - 1) = lastHeight at derived
  have reached : context.localHeight ≤ lastHeight := by
    rw [searching.localHeight, UInt64.le_iff_toNat_le, toNat_chainHeight]
    omega
  have higher : lastHeight < context.remoteHeight := by
    rw [UInt64.lt_iff_toNat_lt]
    omega
  have previous : (lastHeight - 1).toNat + 1 = chain.hashes.length := by
    rw [toNat_previous _ (by omega), derived]
    omega
  have different : context.startingHashesHeight ≠ lastHeight - 1 := by
    rw [ne_eq, ← UInt64.toNat_inj]
    omega
  have continued : context.continueAfterMatch lastHeight = context.tryContinue (lastHeight - 1) := by
    unfold continueAfterMatch
    rw [if_pos reached, if_pos higher]
  have stepped := startNextCompare_take (pinningRemote chain) round searching.hashes (by omega) (by omega) complete
    (by omega) ((if_neg notLast).trans (if_pos complete))
  rw [height, continued] at stepped
  have nextStart : context.lowerBoundHeight.toNat ≤ (lastHeight - 1).toNat := by omega
  exact ⟨_, stepped.trans (tryContinue_of_ne different),
    ⟨.inr rfl, searching.localHeight, searching.lower, searching.upper⟩, remoteHeight, positive, lower, nextStart,
    Nat.le_of_eq previous, nofun, upper⟩

/-- The remote node moves the search forward with one hash. -/
theorem Pinned.forward (batch : 3 ≤ options.hashesPerBatch.toNat) (pinned : Pinned chain context)
    (incomplete : ¬ chain.hashes.length + 1 - context.startingHashesHeight.toNat ≤ options.hashesPerBatch.toNat) :
    ∃ next, startNextCompare chain (pinningRemote chain) options round context = .incomplete next ∧ Pinned chain next := by
  obtain ⟨searching, remoteHeight, positive, lower, start, below, first, upper⟩ := pinned
  have stored := chain.stored
  have top := searching.upper
  have derived := toNat_batchHeight context.startingHashesHeight 1 (by omega) (by omega)
  have middle := toNat_middle context.startingHashesHeight context.upperBoundHeight (by omega) (by omega)
  have beforeEnd : ¬ context.localHeight ≤ context.startingHashesHeight + (UInt64.ofNat 1 - 1) := by
    rw [searching.localHeight, UInt64.le_iff_toNat_le, toNat_chainHeight]
    omega
  have different : context.startingHashesHeight ≠ (context.startingHashesHeight + context.upperBoundHeight) / 2 := by
    rw [ne_eq, ← UInt64.toNat_inj, middle]
    omega
  have continued : context.continueAfterMatch (context.startingHashesHeight + (UInt64.ofNat 1 - 1)) =
      { context with lowerBoundHeight := context.startingHashesHeight }.tryContinue
        ((context.startingHashesHeight + context.upperBoundHeight) / 2) := by
    unfold continueAfterMatch
    rw [if_neg beforeEnd]
  have stepped := startNextCompare_take (pinningRemote chain) round searching.hashes (by omega) (Nat.le_refl 1)
    (by omega) (by omega) ((if_neg (by omega)).trans (if_neg incomplete))
  rw [continued] at stepped
  have nextStart : context.startingHashesHeight.toNat ≤
      ((context.startingHashesHeight + context.upperBoundHeight) / 2).toNat := by omega
  have nextBelow : ((context.startingHashesHeight + context.upperBoundHeight) / 2).toNat + 1 ≤ chain.hashes.length := by omega
  have nextPositive : 1 ≤ context.startingHashesHeight.toNat := by omega
  have nextLower : context.startingHashesHeight.toNat + 2 ≤ chain.hashes.length := by omega
  exact ⟨_, stepped.trans (tryContinue_of_ne different),
    ⟨.inr rfl, searching.localHeight, Nat.le_of_succ_le below, searching.upper⟩, remoteHeight, nextPositive, nextLower,
    nextStart, nextBelow, nofun, upper⟩

/-- The remote node keeps the search going. -/
theorem Pinned.continues (batch : 3 ≤ options.hashesPerBatch.toNat) (pinned : Pinned chain context) :
    ∃ next, startNextCompare chain (pinningRemote chain) options round context = .incomplete next ∧ Pinned chain next := by
  by_cases last : context.startingHashesHeight.toNat + 1 = chain.hashes.length
  · exact pinned.reject batch last
  · by_cases complete : chain.hashes.length + 1 - context.startingHashesHeight.toNat ≤ options.hashesPerBatch.toNat
    · exact pinned.request last complete
    · exact pinned.forward batch complete

/-- The remote node pins every comparison that can repeat its final comparison. -/
theorem pinningRemote_never_ends (repeatable : Repeatable chain options) :
    ¬ Ends (startNextCompare chain (pinningRemote chain) options) .create := by
  obtain ⟨batch, positive, below, score, better⟩ := repeatable
  have stored := chain.stored
  have remoteHeight : (UInt64.ofNat (chain.hashes.length + 1)).toNat = chain.hashes.length + 1 :=
    Nat.mod_eq_of_lt (by omega)
  refine never_ends (fun context => context = .create ∨ Pinned chain context) ?_ (.inl rfl)
  rintro round context (rfl | pinned)
  · have ahead : options.finalizedHeight < (pinningRemote chain).chainStatistics.height := by
      rw [UInt64.lt_iff_toNat_lt, pinningRemote, remoteHeight]
      omega
    refine ⟨_, startNextCompare_create chain round ahead (Nat.lt_of_lt_of_le better (Fin.le_last score)), .inr ?_⟩
    have height := toNat_chainHeight chain
    have inside : options.finalizedHeight.toNat ≤ chain.hashes.length := by omega
    have last : chain.hashes.length ≤ chain.chainHeight.toNat + 1 := by omega
    exact ⟨⟨.inl rfl, rfl, inside, Nat.le_of_eq height⟩, remoteHeight, positive, below, Nat.le_refl _,
      Nat.le_of_succ_le below, fun _ => below, last⟩
  · obtain ⟨next, stepped, nextPinned⟩ := pinned.continues batch
    exact ⟨next, stepped, .inr nextPinned⟩

/-- A comparison ends against every remote node exactly if it cannot repeat its final comparison. -/
theorem terminates_iff_not_repeatable (chain : LocalChain) (options : CompareChainsOptions) :
    Terminates chain options ↔ ¬ Repeatable chain options := by
  constructor
  · intro terminates repeatable
    exact pinningRemote_never_ends repeatable (terminates (pinningRemote chain))
  · intro bounded remote
    exact ends_of_not_repeatable bounded

/-- Three blocks of which the first is finalized let a remote node repeat the final comparison. -/
def threeBlocks : LocalChain := ⟨List.replicate 3 zeroHash, 0, by decide⟩

/-- A remote that always reports the last block as differing is asked forever. -/
theorem threeBlocks_not_terminates : ¬ Terminates threeBlocks ⟨3, 1⟩ := by
  intro terminates
  exact pinningRemote_never_ends ⟨by decide, by decide, by decide, 1, by decide⟩ (terminates (pinningRemote threeBlocks))

/-- A proposed fork leaves the finalized block and both nodes agree on the common block. -/
structure ForksAboveFinality (chain : LocalChain) (remote : RemoteChain) (options : CompareChainsOptions)
    (rounds : Nat) (last : CompareChainsContext) (result : CompareChainsResult) : Prop where
  finalized : options.finalizedHeight ≤ result.commonBlockHeight
  localHeight : result.commonBlockHeight ≤ last.localHeight
  forkDepth : result.forkDepth.toNat = last.localHeight.toNat - result.commonBlockHeight.toNat
  agreed : ∃ round < rounds, ∃ index hash,
    (remote.hashesFrom round last.startingHashesHeight options.hashesPerBatch)[index]? = some hash ∧
      result.commonBlockHeight.toNat = last.startingHashesHeight.toNat + index ∧
      chain.hashes[result.commonBlockHeight.toNat - 1]? = some hash

/-- No remote node can make the comparison propose a fork below the finalized block. -/
def ProposesSafeForks (chain : LocalChain) (options : CompareChainsOptions) : Prop :=
  ∀ remote rounds last result, compareChains chain remote options rounds = .complete (last, .ok result) →
    result.code = .remoteIsNotSynced → ForksAboveFinality chain remote options rounds last result

/-- The final comparison starts below a finalized block that ends the chain. -/
def ExposesFinality (chain : LocalChain) (options : CompareChainsOptions) : Prop :=
  options.finalizedHeight.toNat = chain.hashes.length ∧ 2 ≤ chain.hashes.length ∧
    2 ≤ options.hashesPerBatch.toNat ∧ ∃ score, chain.score < score

/-- The search never starts below the finalized block. -/
structure Guarded (chain : LocalChain) (options : CompareChainsOptions) (context : CompareChainsContext) : Prop where
  searching : Searching chain context
  lower : options.finalizedHeight.toNat ≤ context.lowerBoundHeight.toNat
  upper : options.finalizedHeight.toNat ≤ context.upperBoundHeight.toNat
  start : 1 ≤ context.startingHashesHeight.toNat → options.finalizedHeight.toNat ≤ context.startingHashesHeight.toNat

theorem Guarded.preserved (safe : chain.hashes.length ≤ 1 ∨ options.finalizedHeight.toNat ≠ chain.hashes.length)
    (guarded : Guarded chain options context) (stepped : startNextCompare chain remote options round context = .incomplete next) :
    next.stage = .scoreLocal ∨ Guarded chain options next := by
  obtain ⟨searching, lower, upper, start⟩ := guarded
  have lowerInside := searching.lower
  obtain ⟨positive, inside⟩ := startNextCompare_available searching.hashes stepped
  have finalized := start positive
  rcases searching.preserved stepped with left | nextSearching
  · exact .inl left
  rcases searching.continues stepped with left | ⟨_, _, _, moved⟩
  · exact .inl left
  · cases moved with
    | back _ nextLower nextUpper nextStart =>
      rw [← UInt64.toNat_inj] at nextLower nextUpper
      exact .inr ⟨nextSearching, by omega, by omega, by omega⟩
    | forward _ _ _ _ nextLower nextUpper nextStart =>
      rw [← UInt64.toNat_inj] at nextLower nextUpper
      exact .inr ⟨nextSearching, by omega, by omega, by omega⟩
    | final _ _ _ _ nextLower nextUpper nextStart =>
      rw [← UInt64.toNat_inj] at nextLower nextUpper
      exact .inr ⟨nextSearching, by omega, by omega, by omega⟩

/-- The states of a comparison that cannot propose a fork below the finalized block. -/
inductive Safe (chain : LocalChain) (options : CompareChainsOptions) (context : CompareChainsContext) : Prop where
  | start (created : context = .create)
  | scoreLocal (stage : context.stage = .scoreLocal)
  | missing (hashes : context.stage = .hashesFirst ∨ context.stage = .hashesNext)
      (missing : ¬ (1 ≤ context.startingHashesHeight.toNat ∧ context.startingHashesHeight.toNat ≤ chain.hashes.length))
  | search (better : ∃ score, chain.score < score) (searching : Searching chain context)
      (guarded : 2 ≤ options.hashesPerBatch.toNat → Guarded chain options context)

theorem Safe.preserved (safe : ¬ ExposesFinality chain options) (state : Safe chain options context)
    (stepped : startNextCompare chain remote options round context = .incomplete next) : Safe chain options next := by
  cases state with
  | start created =>
    subst created
    obtain ⟨better, first, _, lower, start, upper⟩ := compareChainStatistics_incomplete stepped
    by_cases inside : options.finalizedHeight.toNat ≤ chain.hashes.length
    · have searching := searching_start stepped inside
      refine .search ⟨_, better⟩ searching fun _ => ⟨searching, ?_, ?_, fun _ => ?_⟩
      · exact Nat.le_of_eq (congrArg UInt64.toNat lower.symm)
      · rw [upper, toNat_chainHeight]
        exact inside
      · exact Nat.le_of_eq (congrArg UInt64.toNat start.symm)
    · exact .missing (.inl first) (by rw [start]; omega)
  | scoreLocal stage => exact absurd stepped (scoreLocal_complete stage)
  | missing hashes missing => exact absurd (startNextCompare_available hashes stepped) missing
  | search better searching guarded =>
    rcases searching.preserved stepped with left | nextSearching
    · exact .scoreLocal left
    · refine .search better nextSearching fun batch => ?_
      have finality : chain.hashes.length ≤ 1 ∨ options.finalizedHeight.toNat ≠ chain.hashes.length := by
        by_contra exposed
        exact safe ⟨by omega, by omega, batch, better⟩
      rcases (guarded batch).preserved finality stepped with left | nextGuarded
      · exact absurd left nextSearching.stage_ne
      · exact nextGuarded

/-- A comparison without hashes does not propose a fork. -/
theorem create_ne_notSynced {last : CompareChainsContext} {result : CompareChainsResult}
    (stepped : startNextCompare chain remote options round .create = .complete (last, .ok result)) :
    result.code ≠ .remoteIsNotSynced := by
  intro code
  have compared := (isFutureChainComplete_notSynced stepped code).1
  unfold compareChainStatistics at compared
  split_ifs at compared
  · cases compared
  · cases compared
  · cases compared
  · cases compared

theorem scoreLocal_ne_notSynced {last : CompareChainsContext} {result : CompareChainsResult} (stage : context.stage = .scoreLocal)
    (stepped : startNextCompare chain remote options round context = .complete (last, .ok result)) :
    result.code ≠ .remoteIsNotSynced := by
  intro code
  unfold startNextCompare at stepped
  rw [stage] at stepped
  have compared := (isFutureChainComplete_notSynced stepped code).1
  unfold compareLocalScore at compared
  split at compared
  · cases compared
  · cases compared

/-- A comparison that does not expose the finalized block proposes only forks above it. -/
theorem proposesSafeForks_of_not_exposes (safe : ¬ ExposesFinality chain options) : ProposesSafeForks chain options := by
  intro remote rounds last result ended code
  obtain ⟨round, before, context, state, stepped⟩ := invariant_result (Safe chain options)
    (fun _ _ _ state stepped => state.preserved safe stepped) (.start rfl) ended
  cases state with
  | start created =>
    subst created
    exact absurd code (create_ne_notSynced stepped)
  | scoreLocal stage => exact absurd code (scoreLocal_ne_notSynced stage stepped)
  | missing hashes missing =>
    have raised : ∃ error, startNextCompare chain remote options round context = .complete (context, .error error) :=
      startNextCompare_missing hashes missing
    obtain ⟨error, complete⟩ := raised
    rw [complete] at stepped
    cases stepped
  | search better searching guarded =>
    obtain ⟨count, hash, batch, positive, inside, common, depth, height, start, answered, stored⟩ :=
      searching.notSynced stepped code
    have finalized := (guarded (by omega)).start positive
    have commonInside : result.commonBlockHeight ≤ chain.chainHeight := by
      rw [UInt64.le_iff_toNat_le, toNat_chainHeight]
      omega
    refine ⟨?_, ?_, ?_, round, before, count, hash, ?_, ?_, ?_⟩
    · rw [UInt64.le_iff_toNat_le]
      omega
    · rw [height]
      exact commonInside
    · rw [depth, height, UInt64.toNat_sub_of_le _ _ commonInside]
    · rw [start]
      exact answered
    · rw [start]
      exact common
    · rw [common]
      exact stored

/-- The remote node agrees with the finalized block and rejects it in the final comparison. -/
def revertingRemote (chain : LocalChain) : RemoteChain where
  chainStatistics := ⟨UInt64.ofNat (chain.hashes.length + 1), Fin.last _⟩
  hashesFrom _ height _ :=
    if height.toNat = chain.hashes.length then (chain.hashes.drop (height.toNat - 1)).take 1
    else (chain.hashes.drop (height.toNat - 1)).take 1 ++ [otherHash (chain.hashes.getD height.toNat zeroHash)]

/-- The first batch agrees, so the comparison starts again one block below the end of the chain. -/
theorem revertingRemote_jump (round : Nat) (remoteHeight : context.remoteHeight.toNat = chain.hashes.length + 1)
    (first : context.stage = .hashesFirst) (localHeight : context.localHeight = chain.chainHeight)
    (start : context.startingHashesHeight.toNat = chain.hashes.length) (long : 2 ≤ chain.hashes.length)
    (batch : 1 ≤ options.hashesPerBatch.toNat) :
    ∃ next, startNextCompare chain (revertingRemote chain) options round context = .incomplete next ∧
      next.stage = .hashesNext ∧ next.startingHashesHeight.toNat + 1 = chain.hashes.length := by
  have stored := chain.stored
  have derived := toNat_batchHeight context.startingHashesHeight 1 (by omega) (by omega)
  have stepped := startNextCompare_take (revertingRemote chain) round (.inl first) (by omega) (Nat.le_refl 1) batch
    (by omega) (if_pos start)
  generalize context.startingHashesHeight + (UInt64.ofNat 1 - 1) = lastHeight at derived stepped
  have reached : context.localHeight ≤ lastHeight := by
    rw [localHeight, UInt64.le_iff_toNat_le, toNat_chainHeight]
    omega
  have higher : lastHeight < context.remoteHeight := by
    rw [UInt64.lt_iff_toNat_lt]
    omega
  have previous := toNat_previous lastHeight (by omega)
  have different : context.startingHashesHeight ≠ lastHeight - 1 := by
    rw [ne_eq, ← UInt64.toNat_inj]
    omega
  have continued : context.continueAfterMatch lastHeight = context.tryContinue (lastHeight - 1) := by
    unfold continueAfterMatch
    rw [if_pos reached, if_pos higher]
  rw [continued] at stepped
  have nextStart : (lastHeight - 1).toNat + 1 = chain.hashes.length := by omega
  exact ⟨_, stepped.trans (tryContinue_of_ne different), rfl, nextStart⟩

/-- The second batch differs in the finalized block, so the comparison proposes the block below it. -/
theorem revertingRemote_fork (round : Nat) (stage : context.stage = .hashesNext)
    (positive : 1 ≤ context.startingHashesHeight.toNat)
    (start : context.startingHashesHeight.toNat + 1 = chain.hashes.length) (batch : 2 ≤ options.hashesPerBatch.toNat) :
    ∃ last result, startNextCompare chain (revertingRemote chain) options round context = .complete (last, .ok result) ∧
      result.code = .remoteIsNotSynced ∧ result.commonBlockHeight = context.startingHashesHeight := by
  have found := hashesFrom_eq chain positive (by omega) (Nat.le_of_succ_le batch)
  obtain ⟨common, final, hashes⟩ : ∃ common final,
      chain.hashes.drop (context.startingHashesHeight.toNat - 1) = [common, final] := by
    have length : (chain.hashes.drop (context.startingHashesHeight.toNat - 1)).length = 2 := by
      rw [List.length_drop]
      omega
    exact List.length_eq_two.mp length
  have finalHash : chain.hashes[context.startingHashesHeight.toNat]? = some final := by
    have second := congrArg (fun batch : List Hash256 => batch[1]?) hashes
    rw [List.getElem?_drop] at second
    rwa [show context.startingHashesHeight.toNat - 1 + 1 = context.startingHashesHeight.toNat by omega] at second
  have answered : (revertingRemote chain).hashesFrom round context.startingHashesHeight options.hashesPerBatch =
      [common, otherHash final] := by
    unfold revertingRemote
    dsimp only
    rw [if_neg (by omega), hashes, List.getD_eq_getElem?_getD, finalHash]
    rfl
  have batchHashes : [common, final].take options.hashesPerBatch.toNat = [common, final] :=
    List.take_of_length_le batch
  have difference : findFirstDifferenceIndex [common, final] [common, otherHash final] = 1 := by
    simp [findFirstDifferenceIndex, (otherHash_ne final).symm]
  have compared : ∃ last, compareHashes options context [common, final] [common, otherHash final] =
      (last, some .remoteIsNotSynced) ∧ last.commonBlockHeight = context.startingHashesHeight := by
    have size : ¬ options.hashesPerBatch.toNat < 2 := by omega
    unfold compareHashes
    rw [difference]
    simp [size, stage]
  obtain ⟨last, compared, commonHeight⟩ := compared
  rw [startNextCompare_hashes (.inr stage), found, answered, hashes, batchHashes]
  dsimp only
  rw [compared]
  exact ⟨last, _, rfl, rfl, commonHeight⟩

/-- The remote node reverts the finalized block of every exposed chain. -/
theorem not_proposesSafeForks (exposed : ExposesFinality chain options) : ¬ ProposesSafeForks chain options := by
  intro safe
  obtain ⟨finalized, long, batch, score, better⟩ := exposed
  have stored := chain.stored
  have remoteHeight : (UInt64.ofNat (chain.hashes.length + 1)).toNat = chain.hashes.length + 1 :=
    Nat.mod_eq_of_lt (by omega)
  have ahead : options.finalizedHeight < (revertingRemote chain).chainStatistics.height := by
    rw [UInt64.lt_iff_toNat_lt, revertingRemote, remoteHeight]
    omega
  obtain ⟨context, created, remoteContext⟩ : ∃ context,
      startNextCompare chain (revertingRemote chain) options 0 .create = .incomplete context ∧
        context.remoteHeight = UInt64.ofNat (chain.hashes.length + 1) :=
    ⟨_, startNextCompare_create chain 0 ahead (Nat.lt_of_lt_of_le better (Fin.le_last score)), rfl⟩
  obtain ⟨_, first, localHeight, _, start, _⟩ := compareChainStatistics_incomplete created
  obtain ⟨next, jumped, stage, nextStart⟩ := revertingRemote_jump 1 (by rw [remoteContext, remoteHeight]) first
    localHeight (by rw [start, finalized]) long (Nat.le_of_succ_le batch)
  obtain ⟨last, result, forked, code, common⟩ := revertingRemote_fork 2 stage (by omega) nextStart batch
  have reached : compareChains chain (revertingRemote chain) options 1 = .incomplete context := created
  have ended : compareChains chain (revertingRemote chain) options 3 = .complete (last, .ok result) :=
    (after_succ ((after_succ reached).trans jumped)).trans forked
  have above := (safe _ 3 last result ended code).finalized
  rw [UInt64.le_iff_toNat_le, common] at above
  omega

/-- A comparison proposes only safe forks exactly if its chain does not end with the finalized block. -/
theorem proposesSafeForks_iff_not_exposes (chain : LocalChain) (options : CompareChainsOptions) :
    ProposesSafeForks chain options ↔ ¬ ExposesFinality chain options := by
  constructor
  · intro safe exposed
    exact not_proposesSafeForks exposed safe
  · exact proposesSafeForks_of_not_exposes

/-- Two blocks of which the last is finalized let a remote node revert it. -/
def finalizedBlocks : LocalChain := ⟨List.replicate 2 zeroHash, 0, by decide⟩

/-- A fork below the finalized height is proposed. -/
theorem finalizedBlocks_not_proposesSafeForks : ¬ ProposesSafeForks finalizedBlocks ⟨2, 2⟩ :=
  not_proposesSafeForks ⟨by decide, by decide, by decide, 1, by decide⟩

end Catapult.Chain
