import Catapult.Proof.Finalization.Counting

/-
This file shows when the order of the votes has no influence on a round.
-/

namespace Catapult.Finalization

open FinalizationHashTree Tally

section Ballots

/-- A block other than the first one has a parent one height below it. -/
structure BlockTree where
  genesis : HeightHashPair
  parent : HeightHashPair → Option HeightHashPair
  rootless : parent genesis = none
  ascending : ∀ key previous, parent key = some previous → key.height.toNat = previous.height.toNat + 1
  rooted : ∀ key previous, parent key = some previous → previous = genesis ∨ (parent previous).isSome

def BlockTree.Block (blocks : BlockTree) (key : HeightHashPair) : Prop :=
  key = blocks.genesis ∨ (blocks.parent key).isSome

/-- A prevote contains consecutive blocks of one chain. -/
structure Segment (blocks : BlockTree) where
  height : Height
  hashes : List Hash256
  inside : ∀ key ∈ branchKeys height hashes, blocks.Block key
  chained : (branchKeys height hashes).IsChain fun previous key => blocks.parent key = some previous

variable {blocks : BlockTree}

def Segment.keys (segment : Segment blocks) : List HeightHashPair := branchKeys segment.height segment.hashes

/-- A voter has a weight and may have prevoted. -/
structure Voter (blocks : BlockTree) where
  weight : UInt64
  positive : weight ≠ 0
  prevote : Option (Segment blocks)

/-- A ballot is a voter together with the block that the voter may have precommitted to. -/
abbrev Ballot (blocks : BlockTree) := Voter blocks × Option HeightHashPair

def prevotes (ballots : List (Ballot blocks)) : List Vote :=
  ballots.filterMap fun ballot =>
    ballot.1.prevote.map fun segment => .prevote segment.height segment.hashes ballot.1.weight

def precommits (ballots : List (Ballot blocks)) : List Vote :=
  ballots.filterMap fun ballot => ballot.2.map fun key => .precommit key.height key.hash ballot.1.weight

/-- Both runs succeed and give the same answers to all questions about the round. -/
def Agree (first second : Except RoundError RoundContext) : Prop :=
  ∃ firstContext secondContext, first = .ok firstContext ∧ second = .ok secondContext ∧
    (∀ key, firstContext.weights key = secondContext.weights key) ∧
    firstContext.tryFindBestPrevote = secondContext.tryFindBestPrevote ∧
    firstContext.tryFindBestPrecommit = secondContext.tryFindBestPrecommit ∧
    firstContext.tryFindEstimate = secondContext.tryFindEstimate ∧
    firstContext.isCompletable = secondContext.isCompletable

/-- For all precommits to prevoted blocks, any two orders of the votes agree. -/
def OrderIndependent (total threshold : UInt64) (voters : List (Voter blocks)) : Prop :=
  ∀ ballots : List (Ballot blocks), ballots.map Prod.fst = voters → (∀ ballot ∈ ballots, ∀ key, ballot.2 = some key →
      ∃ voter ∈ voters, ∃ segment, voter.prevote = some segment ∧ key ∈ segment.keys) →
    ∀ first second : List Vote, first.Perm (prevotes ballots ++ precommits ballots) →
      second.Perm (prevotes ballots ++ precommits ballots) →
      Agree ((RoundContext.create total threshold).acceptAll first)
        ((RoundContext.create total threshold).acceptAll second)

/-- No block starts one prevote and continues another one. -/
def Aligned (voters : List (Voter blocks)) : Prop :=
  ∀ voter ∈ voters, ∀ other ∈ voters, ∀ segment otherSegment, voter.prevote = some segment →
    other.prevote = some otherSegment → ∀ key, segment.keys.head? = some key → key ∉ otherSegment.keys.tail

/-- The keys of a segment are distinct because their heights ascend. -/
theorem Segment.nodup (segment : Segment blocks) : segment.keys.Nodup := by
  have ascending : segment.keys.IsChain fun previous key => previous.height.toNat < key.height.toNat :=
    segment.chained.imp fun previous key isParent => by
      have next := blocks.ascending key previous isParent
      omega
  have sorted := ascending.pairwise
  exact sorted.imp fun below same => absurd (same ▸ below) (lt_irrefl _)

end Ballots

variable {first second : RoundContext}

/-- Contexts with the same weights and the same ancestors give the same answers. -/
theorem agree_of_same (candidates : first.candidates = second.candidates)
    (cumulative : first.cumulativePrecommitWeight = second.cumulativePrecommitWeight)
    (total : first.totalWeight = second.totalWeight) (threshold : first.threshold = second.threshold)
    (ancestors : ∀ key, first.tree.findAncestors key = second.tree.findAncestors key) : Agree (.ok first) (.ok second) := by
  obtain ⟨firstTotal, firstThreshold, firstCumulative, firstTree, firstCandidates, firstPending⟩ := first
  obtain ⟨secondTotal, secondThreshold, secondCumulative, secondTree, secondCandidates, secondPending⟩ := second
  dsimp only at candidates cumulative total threshold ancestors
  subst candidates cumulative total threshold
  have descendants : firstTree.isDescendant = secondTree.isDescendant := by
    funext parentKey childKey
    rw [Bool.eq_iff_iff, isDescendant_iff, isDescendant_iff, ancestors]
  refine ⟨_, _, rfl, rfl, fun key => rfl, rfl, rfl, ?_, ?_⟩
  · unfold RoundContext.tryFindEstimate RoundContext.tryFindEstimateFor
    dsimp only
    rw [descendants]
    rfl
  · unfold RoundContext.isCompletable RoundContext.tryFindEstimateFor
    dsimp only
    rw [descendants]
    rfl

/-- The same votes in another order give the same answers if all ancestors are the same. -/
theorem Tallied.agree {votes others : List Vote} (firstTallied : Tallied votes first)
    (secondTallied : Tallied others second) (reordered : votes.Perm others)
    (ancestors : ∀ key, key ∈ first.tree.keys → key ∈ second.tree.keys →
      first.tree.findAncestors key = second.tree.findAncestors key)
    (total : first.totalWeight = second.totalWeight) (threshold : first.threshold = second.threshold) :
    Agree (.ok first) (.ok second) := by
  have prevotesPerm : (prevotesOf votes).Perm (prevotesOf others) := reordered.filterMap _
  have precommitsPerm : (precommitsOf votes).Perm (precommitsOf others) := reordered.filterMap _
  have sameTree : ∀ key, key ∈ first.tree.keys ↔ key ∈ second.tree.keys := by
    intro key
    rw [firstTallied.prevoted, secondTallied.prevoted]
    exact exists_congr fun prevote => and_congr_left fun _ => prevotesPerm.mem_iff
  have sameAncestors : ∀ key, first.tree.findAncestors key = second.tree.findAncestors key := by
    intro key
    by_cases inside : key ∈ first.tree.keys
    · exact ancestors key inside ((sameTree key).mp inside)
    · rw [findAncestors_eq_nil.mpr inside, findAncestors_eq_nil.mpr fun known => inside ((sameTree key).mpr known)]
  have sameKeys : first.candidates.keys = second.candidates.keys := by
    ext key
    rw [firstTallied.candidate, secondTallied.candidate, sameTree]
  have sameWeights : first.candidates.weights = second.candidates.weights := by
    funext key
    have prevote : (first.candidates.weights key).prevote = (second.candidates.weights key).prevote := by
      rw [firstTallied.counted.prevote, secondTallied.counted.prevote]
      exact tally_perm prevotesPerm
    have precommit : (first.candidates.weights key).precommit = (second.candidates.weights key).precommit := by
      rw [firstTallied.counted.precommit, secondTallied.counted.precommit, tally_perm precommitsPerm, sameKeys]
      exact tally_congr fun precommit _ => by rw [sameAncestors]
    generalize first.candidates.weights key = firstWeights at *
    generalize second.candidates.weights key = secondWeights at *
    cases firstWeights
    cases secondWeights
    exact congrArg₂ Weights.mk prevote precommit
  have sameCumulative : first.cumulativePrecommitWeight = second.cumulativePrecommitWeight := by
    rw [firstTallied.counted.cumulative, secondTallied.counted.cumulative, tally_perm precommitsPerm, sameKeys]
  have sameCandidates : first.candidates = second.candidates := by
    generalize first.candidates = firstCandidates at *
    generalize second.candidates = secondCandidates at *
    cases firstCandidates
    cases secondCandidates
    exact congrArg₂ Candidates.mk sameKeys sameWeights
  exact agree_of_same sameCandidates sameCumulative total threshold sameAncestors

section Alignment

variable {blocks : BlockTree} {voters : List (Voter blocks)} {ballots : List (Ballot blocks)}

/-- A block has its own parent in the tree if it continues some prevote. -/
def Continues (voters : List (Voter blocks)) (key : HeightHashPair) : Prop :=
  ∃ voter ∈ voters, ∃ segment, voter.prevote = some segment ∧ key ∈ segment.keys.tail

open scoped Classical in
/-- The parent of a block depends only on the prevotes as a whole. -/
noncomputable def link (voters : List (Voter blocks)) (key : HeightHashPair) : Option HeightHashPair :=
  if Continues voters key then blocks.parent key else none

theorem mem_prevotes (same : ballots.map Prod.fst = voters) {height : Height} {hashes : List Hash256}
    {weight : UInt64} (inside : .prevote height hashes weight ∈ prevotes ballots ++ precommits ballots) :
    ∃ voter ∈ voters, ∃ segment, voter.prevote = some segment ∧ segment.height = height ∧ segment.hashes = hashes := by
  rcases List.mem_append.mp inside with isPrevote | isPrecommit
  · obtain ⟨ballot, isBallot, voted⟩ := List.mem_filterMap.mp isPrevote
    obtain ⟨segment, prevoted, made⟩ := Option.map_eq_some_iff.mp voted
    injection made with sameHeight sameHashes
    exact ⟨ballot.1, same ▸ List.mem_map_of_mem isBallot, segment, prevoted, sameHeight, sameHashes⟩
  · obtain ⟨ballot, _, voted⟩ := List.mem_filterMap.mp isPrecommit
    obtain ⟨_, _, made⟩ := Option.map_eq_some_iff.mp voted
    cases made

/-- An aligned prevote only adds links that do not depend on the order. -/
theorem Aligned.follows_addBranch (aligned : Aligned voters) {voter : Voter blocks} (isVoter : voter ∈ voters)
    {segment : Segment blocks} (prevoted : voter.prevote = some segment) {tree : FinalizationHashTree}
    (follows : Follows (link voters) tree.nodes) :
    Follows (link voters) (tree.addBranch segment.height segment.hashes).nodes := by
  refine follows_addBranchAfter follows (fun key isFirst => ?_) ?_
  · refine if_neg ?_
    rintro ⟨other, isOther, otherSegment, otherPrevoted, continues⟩
    exact aligned voter isVoter other isOther segment otherSegment prevoted otherPrevoted key isFirst continues
  · have continued : ∀ key ∈ segment.keys.tail, link voters key = blocks.parent key := fun key inTail =>
      if_pos ⟨voter, isVoter, segment, prevoted, inTail⟩
    have chained := segment.chained
    change segment.keys.IsChain _ at chained
    change segment.keys.IsChain _
    generalize segment.keys = keys at chained continued
    induction keys with
    | nil => exact .nil
    | cons first keys ih =>
      cases keys with
      | nil => exact .singleton _
      | cons next keys =>
        refine .cons_cons ?_ (ih chained.tail fun key inTail => continued key (List.mem_cons_of_mem _ inTail))
        rw [continued next List.mem_cons_self]
        exact chained.rel

/-- Every order of the votes reaches a context with the same links. -/
theorem Aligned.acceptAll (aligned : Aligned voters) (same : ballots.map Prod.fst = voters) {votes : List Vote}
    (reordered : votes.Perm (prevotes ballots ++ precommits ballots)) (total threshold : UInt64) :
    ∃ context, (RoundContext.create total threshold).acceptAll votes = .ok context ∧ Tallied votes context ∧
      Follows (link voters) context.tree.nodes ∧ context.totalWeight = total ∧ context.threshold = threshold := by
  have initially : Follows (link voters) (RoundContext.create total threshold).tree.nodes :=
    fun node inside => by cases inside
  refine (tallied_create total threshold).acceptAll (fun tree => Follows (link voters) tree.nodes) initially
    (fun height hashes weight inside => ?_) (fun height hashes weight inside tree follows => ?_)
  · obtain ⟨voter, _, segment, _, rfl, rfl⟩ := mem_prevotes same (reordered.mem_iff.mp inside)
    exact segment.nodup
  · obtain ⟨voter, isVoter, segment, prevoted, rfl, rfl⟩ := mem_prevotes same (reordered.mem_iff.mp inside)
    exact aligned.follows_addBranch isVoter prevoted follows

/-- If the prevotes are aligned, then the order does not matter. -/
theorem Aligned.orderIndependent (aligned : Aligned voters) (total threshold : UInt64) :
    OrderIndependent total threshold voters := by
  intro ballots same _ first second firstOrder secondOrder
  obtain ⟨firstContext, firstRan, firstTallied, firstFollows, firstTotal, firstThreshold⟩ :=
    aligned.acceptAll same firstOrder total threshold
  obtain ⟨secondContext, secondRan, secondTallied, secondFollows, secondTotal, secondThreshold⟩ :=
    aligned.acceptAll same secondOrder total threshold
  rw [firstRan, secondRan]
  refine firstTallied.agree secondTallied (firstOrder.trans secondOrder.symm) (fun key inFirst inSecond => ?_)
    (firstTotal.trans secondTotal.symm) (firstThreshold.trans secondThreshold.symm)
  exact findAncestorsFrom_eq_of_follows firstTallied.counted.rooted secondTallied.counted.rooted firstFollows
    secondFollows inFirst inSecond

/-- A prevote can be delivered before all other votes and then decides the ancestors of its blocks. -/
theorem exists_order_starting_with (same : ballots.map Prod.fst = voters) {voter : Voter blocks}
    (isVoter : voter ∈ voters) {segment : Segment blocks} (prevoted : voter.prevote = some segment)
    {key : HeightHashPair} (inside : key ∈ segment.keys) (total threshold : UInt64) :
    ∃ votes context, votes.Perm (prevotes ballots ++ precommits ballots) ∧
      (RoundContext.create total threshold).acceptAll votes = .ok context ∧ Tallied votes context ∧
      key ∈ context.tree.keys ∧ context.tree.findAncestors key =
        (FinalizationHashTree.create.addBranch segment.height segment.hashes).findAncestors key := by
  rw [← same] at isVoter
  obtain ⟨ballot, isBallot, rfl⟩ := List.mem_map.mp isVoter
  have voted : .prevote segment.height segment.hashes ballot.1.weight ∈
      prevotes ballots ++ precommits ballots :=
    List.mem_append_left _ (List.mem_filterMap.mpr ⟨ballot, isBallot, by rw [prevoted]; rfl⟩)
  obtain ⟨before, after, split⟩ := List.append_of_mem voted
  have reordered : (.prevote segment.height segment.hashes ballot.1.weight :: (before ++ after)).Perm
      (prevotes ballots ++ precommits ballots) := by
    rw [split]
    exact List.perm_middle.symm
  have segments : ∀ height hashes weight, .prevote height hashes weight ∈ before ++ after → (branchKeys height hashes).Nodup := by
    intro height hashes weight isVote
    obtain ⟨_, _, other, _, rfl, rfl⟩ :=
      mem_prevotes same (reordered.mem_iff.mp (List.mem_cons_of_mem _ isVote))
    exact other.nodup
  obtain ⟨middle, started, middleTallied, middleTree, _⟩ :=
    (tallied_create total threshold).acceptPrevote segment.nodup ballot.1.weight
  have initially : key ∈ middle.tree.keys ∧ middle.tree.findAncestors key =
      (FinalizationHashTree.create.addBranch segment.height segment.hashes).findAncestors key := by
    rw [middleTree]
    exact ⟨mem_keys_addBranchAfter.mpr (.inl inside), rfl⟩
  obtain ⟨context, finished, tallied, ⟨known, ancestors⟩, _⟩ := middleTallied.acceptAll
    (fun tree => key ∈ tree.keys ∧ tree.findAncestors key =
      (FinalizationHashTree.create.addBranch segment.height segment.hashes).findAncestors key)
    initially segments (fun height hashes weight _ tree kept =>
      ⟨mem_keys_addBranchAfter.mpr (.inr kept.1), (findAncestors_addBranchAfter kept.1).trans kept.2⟩)
  exact ⟨_, context, reordered, Runs.bind_eq_ok.mpr ⟨middle, started, finished⟩, tallied, known, ancestors⟩

/-- A single precommit counts for the ancestors of its block. -/
theorem Tallied.single_precommit {votes others : List Vote} {context : RoundContext} (tallied : Tallied votes context)
    (reordered : votes.Perm others) {key ancestor : HeightHashPair} {weight : UInt64}
    (single : precommitsOf others = [(key, weight)]) (known : key ∈ context.tree.keys)
    (isCandidate : ancestor ∈ context.tree.keys) :
    (context.weights ancestor).precommit = if ancestor ∈ context.tree.findAncestors key then weight else 0 := by
  have precommitsPerm : (precommitsOf votes).Perm (precommitsOf others) := reordered.filterMap _
  rw [RoundContext.weights, if_pos ((tallied.candidate ancestor).mpr isCandidate), tallied.counted.precommit,
    tally_perm precommitsPerm, single, tally_singleton]
  simp [(tallied.candidate key).mpr known]

/-- Every prevoted block is known at the end. -/
theorem Tallied.knows {votes : List Vote} {context : RoundContext} (tallied : Tallied votes context)
    (same : ballots.map Prod.fst = voters) (reordered : votes.Perm (prevotes ballots ++ precommits ballots))
    {voter : Voter blocks} (isVoter : voter ∈ voters) {segment : Segment blocks}
    (prevoted : voter.prevote = some segment) {key : HeightHashPair} (inside : key ∈ segment.keys) : key ∈ context.tree.keys := by
  rw [← same] at isVoter
  obtain ⟨ballot, isBallot, rfl⟩ := List.mem_map.mp isVoter
  have voted : .prevote segment.height segment.hashes ballot.1.weight ∈
      prevotes ballots ++ precommits ballots :=
    List.mem_append_left _ (List.mem_filterMap.mpr ⟨ballot, isBallot, by rw [prevoted]; rfl⟩)
  rw [tallied.prevoted]
  exact ⟨(segment.keys, ballot.1.weight), List.mem_filterMap.mpr ⟨_, reordered.mem_iff.mpr voted, rfl⟩, inside⟩

/-- The ballots in which one voter precommits to a block. -/
def singleBallots (before : List (Voter blocks)) (voter : Voter blocks) (key : HeightHashPair)
    (after : List (Voter blocks)) : List (Ballot blocks) :=
  before.map (·, none) ++ (voter, some key) :: after.map (·, none)

theorem precommitsOf_singleBallots (before : List (Voter blocks)) (voter : Voter blocks) (key : HeightHashPair)
    (after : List (Voter blocks)) : precommitsOf (prevotes (singleBallots before voter key after) ++
      precommits (singleBallots before voter key after)) = [(key, voter.weight)] := by
  have noPrecommits : ∀ ballots : List (Ballot blocks), precommitsOf (prevotes ballots) = [] := by
    intro ballots
    rw [precommitsOf, prevotes, List.filterMap_filterMap, List.filterMap_eq_nil_iff]
    intro ballot _
    cases ballot.1.prevote <;> rfl
  have onePrecommit : precommits (singleBallots before voter key after) = [.precommit key.height key.hash voter.weight] := by
    simp [precommits, singleBallots, List.filterMap_map]
  rw [precommitsOf, List.filterMap_append, ← precommitsOf, noPrecommits, onePrecommit]
  rfl

/-- If the order does not matter, then the prevotes are aligned. -/
theorem OrderIndependent.aligned {total threshold : UInt64}
    (independent : OrderIndependent total threshold voters) : Aligned voters := by
  intro voter isVoter other isOther segment otherSegment prevoted otherPrevoted key isFirst continues
  have inSegment : key ∈ segment.keys := List.mem_of_mem_head? isFirst
  have inOther : key ∈ otherSegment.keys := List.mem_of_mem_tail continues
  obtain ⟨before, after, split⟩ := List.append_of_mem isVoter
  -- only this voter precommits, namely to the block that starts its prevote
  have same : (singleBallots before voter key after).map Prod.fst = voters := by
    simp [singleBallots, split, Function.comp_def]
  have single := precommitsOf_singleBallots before voter key after
  have allowed : ∀ ballot ∈ singleBallots before voter key after, ∀ named, ballot.2 = some named →
      ∃ voter ∈ voters, ∃ segment, voter.prevote = some segment ∧ named ∈ segment.keys := by
    intro ballot isBallot named names
    have isKey : key = named := by
      simp only [singleBallots, List.mem_append, List.mem_cons, List.mem_map] at isBallot
      rcases isBallot with ⟨_, _, rfl⟩ | rfl | ⟨_, _, rfl⟩
      · cases names
      · exact Option.some.inj names
      · cases names
    exact ⟨voter, isVoter, segment, prevoted, isKey ▸ inSegment⟩
  obtain ⟨first, firstContext, firstOrder, firstRan, firstTallied, firstKnown, firstAncestors⟩ :=
    exists_order_starting_with same isVoter prevoted inSegment total threshold
  obtain ⟨second, secondContext, secondOrder, secondRan, secondTallied, secondKnown, secondAncestors⟩ :=
    exists_order_starting_with same isOther otherPrevoted inOther total threshold
  obtain ⟨_, _, firstResult, secondResult, sameWeights, _⟩ :=
    independent _ same allowed first second firstOrder secondOrder
  rw [firstRan] at firstResult
  rw [secondRan] at secondResult
  cases firstResult
  cases secondResult
  -- the first block of the other prevote gets the weight only if that prevote comes first
  obtain ⟨start, rest, otherKeys⟩ := List.exists_cons_of_ne_nil (List.ne_nil_of_mem inOther)
  obtain ⟨_, keys⟩ := List.head?_eq_some_iff.mp isFirst
  have inRest : key ∈ rest := by rwa [otherKeys] at continues
  have nodup : (start :: rest).Nodup := otherKeys ▸ otherSegment.nodup
  have different : start ≠ key := fun equal => (List.nodup_cons.mp nodup).1 (equal ▸ inRest)
  have startInOther : start ∈ otherSegment.keys := otherKeys ▸ List.mem_cons_self
  have alone : firstContext.tree.findAncestors key = [key] := by
    rw [firstAncestors, addBranch, ← Segment.keys, keys]
    exact findAncestors_first key _
  have above : start ∈ secondContext.tree.findAncestors key := by
    rw [secondAncestors, addBranch, ← Segment.keys, otherKeys]
    exact first_mem_findAncestors nodup inRest
  have firstWeight := firstTallied.single_precommit firstOrder single firstKnown
    (firstTallied.knows same firstOrder isOther otherPrevoted startInOther)
  have secondWeight := secondTallied.single_precommit secondOrder single secondKnown
    (secondTallied.knows same secondOrder isOther otherPrevoted startInOther)
  rw [alone, if_neg (by simpa using different)] at firstWeight
  rw [if_pos above, ← sameWeights, firstWeight] at secondWeight
  exact voter.positive secondWeight.symm

/-- The order of the votes has no influence exactly if no block starts one prevote and continues another. -/
theorem orderIndependent_iff_aligned (total threshold : UInt64) (voters : List (Voter blocks)) :
    OrderIndependent total threshold voters ↔ Aligned voters :=
  ⟨OrderIndependent.aligned, fun aligned => aligned.orderIndependent total threshold⟩

end Alignment

/-- The block of a short chain at the given height. -/
def sampleBlock (height : Height) : HeightHashPair := ⟨height, Vector.replicate 32 0⟩

def sampleTree : BlockTree where
  genesis := sampleBlock 1
  parent key := if key = sampleBlock 2 then some (sampleBlock 1)
    else if key = sampleBlock 3 then some (sampleBlock 2) else none
  rootless := by decide
  ascending key previous isParent := by
    split_ifs at isParent with second third
    · cases isParent
      rw [second]
      rfl
    · cases isParent
      rw [third]
      rfl
  rooted key previous isParent := by
    split_ifs at isParent with second third
    · cases isParent
      exact .inl rfl
    · cases isParent
      exact .inr (by decide)

/-- The two blocks of the chain that start at the given height. -/
def sampleHashes : List Hash256 := [Vector.replicate 32 0, Vector.replicate 32 0]

instance (blocks : BlockTree) (key : HeightHashPair) : Decidable (blocks.Block key) :=
  inferInstanceAs (Decidable (key = blocks.genesis ∨ (blocks.parent key).isSome))

def lowerSegment : Segment sampleTree := ⟨1, sampleHashes, by decide, by decide⟩

def upperSegment : Segment sampleTree := ⟨2, sampleHashes, by decide, by decide⟩

def lowerVoter : Voter sampleTree := ⟨1, by decide, some lowerSegment⟩

def upperVoter : Voter sampleTree := ⟨1, by decide, some upperSegment⟩

/-- The second block ends the lower prevote and starts the upper one, and the upper voter precommits to it. -/
def sampleBallots : List (Ballot sampleTree) := [(lowerVoter, none), (upperVoter, some (sampleBlock 2))]

def lowerFirst : List Vote :=
  [.prevote 1 sampleHashes 1, .prevote 2 sampleHashes 1, .precommit 2 (Vector.replicate 32 0) 1]

def upperFirst : List Vote :=
  [.prevote 2 sampleHashes 1, .prevote 1 sampleHashes 1, .precommit 2 (Vector.replicate 32 0) 1]

/-- The precommit counts for the first block only if the lower prevote arrives first. -/
theorem overlapping_prevotes_order_dependent : ¬ OrderIndependent 2 2 [lowerVoter, upperVoter] := by
  intro independent
  have allowed : ∀ ballot ∈ sampleBallots, ∀ key, ballot.2 = some key →
      ∃ voter ∈ [lowerVoter, upperVoter], ∃ segment, voter.prevote = some segment ∧ key ∈ segment.keys := by
    intro ballot isBallot key names
    refine ⟨upperVoter, by simp, upperSegment, rfl, ?_⟩
    simp only [sampleBallots, List.mem_cons, List.not_mem_nil, or_false] at isBallot
    rcases isBallot with rfl | rfl
    · cases names
    · cases names
      decide
  have lowerWeight : ((RoundContext.create 2 2).acceptAll lowerFirst).map
      (fun context => (context.weights (sampleBlock 1)).precommit) = .ok 1 := rfl
  have upperWeight : ((RoundContext.create 2 2).acceptAll upperFirst).map
      (fun context => (context.weights (sampleBlock 1)).precommit) = .ok 0 := rfl
  obtain ⟨_, _, lowerRan, upperRan, sameWeights, _⟩ :=
    independent sampleBallots rfl allowed lowerFirst upperFirst (.refl _) (.swap _ _ _)
  rw [lowerRan, Except.map, Except.ok.injEq, sameWeights] at lowerWeight
  rw [upperRan, Except.map, Except.ok.injEq, lowerWeight] at upperWeight
  cases upperWeight

end Catapult.Finalization
