import Catapult.Construction.Finalization.MultiRoundMessageAggregator
import Catapult.Proof.Finalization.PrevoteMessages
import Catapult.Library.Runs
import Mathlib.Data.List.TakeWhile

/-
This file determines which rounds an aggregator keeps and when pruning leaves its estimates as they were.
-/

namespace Catapult.Finalization

open MultiRoundMessageAggregator

section Windows

variable {state : MultiRoundMessageAggregator} {config : FinalizationConfiguration}

/-- The rounds are sorted and lie between the first and the last round. -/
structure Window (state : MultiRoundMessageAggregator) : Prop where
  ordered : state.minFinalizationRound ≤ state.maxFinalizationRound
  inside : ∀ round ∈ state.roundMessageAggregators.map Prod.fst,
    state.minFinalizationRound ≤ round ∧ round ≤ state.maxFinalizationRound
  ascending : SortedMap.Ascending state.roundMessageAggregators
  epochs : ∀ round ∈ state.roundMessageAggregators.map Prod.fst, round.epoch ≠ 0

theorem window_create (maxResponseSize : Nat) (round : FinalizationRound) (pair : HeightHashPair) :
    Window (create maxResponseSize round pair) :=
  ⟨FinalizationRound.le_refl round, nofun, List.Pairwise.nil, nofun⟩

theorem keys_replace (round : FinalizationRound) (aggregator : RoundMessageAggregator) :
    (state.replace round aggregator).roundMessageAggregators.map Prod.fst = state.roundMessageAggregators.map Prod.fst := by
  rw [replace, List.map_map]
  refine List.map_congr_left fun entry _ => ?_
  rw [Function.comp_apply]
  split
  · next same => exact same.symm
  · rfl

/-- The window only depends on the rounds. -/
theorem Window.of_keys {other : MultiRoundMessageAggregator} (window : Window state)
    (sameMin : other.minFinalizationRound = state.minFinalizationRound)
    (sameMax : other.maxFinalizationRound = state.maxFinalizationRound)
    (sameKeys : other.roundMessageAggregators.map Prod.fst = state.roundMessageAggregators.map Prod.fst) : Window other := by
  refine ⟨by rw [sameMin, sameMax]; exact window.ordered, ?_, ?_, by rw [sameKeys]; exact window.epochs⟩
  · rw [sameKeys, sameMin, sameMax]
    exact window.inside
  · have ascending := window.ascending
    unfold SortedMap.Ascending at ascending ⊢
    rw [← List.pairwise_map (f := Prod.fst) (R := fun lower upper => lower < upper)] at ascending ⊢
    rwa [sameKeys]

theorem addTo_keys [Sha3] [VotingVerifier] (round : FinalizationRound) (aggregator : RoundMessageAggregator)
    (message : FinalizationMessage) : (state.addTo round aggregator message).2.minFinalizationRound = state.minFinalizationRound ∧
      (state.addTo round aggregator message).2.maxFinalizationRound = state.maxFinalizationRound ∧
      (state.addTo round aggregator message).2.roundMessageAggregators.map Prod.fst =
        state.roundMessageAggregators.map Prod.fst := by
  unfold addTo
  split
  · exact ⟨rfl, rfl, rfl⟩
  · exact ⟨rfl, rfl, keys_replace round _⟩

theorem createFinalizationContext_epoch {accountsAtHeight : Height → Option HighValueAccounts} {epoch : FinalizationEpoch}
    {context : FinalizationContext} (created : createFinalizationContext config accountsAtHeight epoch = .ok context) :
    epoch ≠ 0 := by
  rintro rfl
  cases created

/-- A message adds at most its own round, which lies in the window. -/
theorem Window.add [Sha3] [VotingVerifier] (window : Window state) (accountsAtHeight : Height → Option HighValueAccounts)
    (message : FinalizationMessage) : Window (state.add (createFinalizationContext config accountsAtHeight) message).2 ∧
      (state.add (createFinalizationContext config accountsAtHeight) message).2.minFinalizationRound =
        state.minFinalizationRound := by
  unfold MultiRoundMessageAggregator.add
  dsimp only
  split
  · exact ⟨window, rfl⟩
  · next inside =>
    rw [not_or, not_lt, not_lt] at inside
    split
    · next entry _ =>
      obtain ⟨sameMin, sameMax, sameKeys⟩ := @addTo_keys state _ _ message.stepIdentifier.round entry.2 message
      exact ⟨window.of_keys sameMin sameMax sameKeys, sameMin⟩
    · split
      · exact ⟨window, rfl⟩
      · next context created =>
        generalize message.stepIdentifier.round = round at inside created ⊢
        have grown : Window { state with
            roundMessageAggregators := SortedMap.insert (round, .create context) state.roundMessageAggregators } := by
          refine ⟨window.ordered, fun other member => ?_, window.ascending.insert, fun other member => ?_⟩
          · rcases SortedMap.mem_keys_insert.mp member with rfl | member
            · exact inside
            · exact window.inside other member
          · rcases SortedMap.mem_keys_insert.mp member with rfl | member
            · exact createFinalizationContext_epoch created
            · exact window.epochs other member
        obtain ⟨sameMin, sameMax, sameKeys⟩ := @addTo_keys { state with
          roundMessageAggregators := SortedMap.insert (round, .create context) state.roundMessageAggregators } _ _
          round (.create context) message
        exact ⟨grown.of_keys sameMin sameMax sameKeys, sameMin⟩

theorem Window.raise (window : Window state) {round : FinalizationRound} {next : MultiRoundMessageAggregator}
    (raised : state.raiseMaxFinalizationRound round = .ok next) :
    Window next ∧ next.minFinalizationRound = state.minFinalizationRound := by
  unfold raiseMaxFinalizationRound setMaxFinalizationRound at raised
  split at raised
  · next above =>
    split at raised
    · cases raised
    · next atLeast =>
      obtain rfl := Except.ok.inj raised
      refine ⟨⟨not_lt.mp atLeast, fun other member => ?_, window.ascending, window.epochs⟩, rfl⟩
      obtain ⟨lower, upper⟩ := window.inside other member
      exact ⟨lower, le_trans upper above.le⟩
  · obtain rfl := Except.ok.inj raised
    exact ⟨window, rfl⟩

end Windows

section Pruning

variable {state : MultiRoundMessageAggregator} {descriptor : BestPrecommitDescriptor}

/-- The rounds that are erased when an epoch is pruned. -/
def erased (state : MultiRoundMessageAggregator) (epoch : FinalizationEpoch) : List (FinalizationRound × RoundMessageAggregator) :=
  state.roundMessageAggregators.takeWhile fun entry => entry.1 < ⟨epoch, 0⟩

def kept (state : MultiRoundMessageAggregator) (epoch : FinalizationEpoch) : List (FinalizationRound × RoundMessageAggregator) :=
  state.roundMessageAggregators.dropWhile fun entry => entry.1 < ⟨epoch, 0⟩

theorem erased_append_kept (state : MultiRoundMessageAggregator) (epoch : FinalizationEpoch) :
    erased state epoch ++ kept state epoch = state.roundMessageAggregators :=
  List.takeWhile_append_dropWhile

/-- A search from the last round to the first looks at the erased rounds last. -/
theorem findSome_reverse {α : Type} (state : MultiRoundMessageAggregator) (epoch : FinalizationEpoch)
    (search : FinalizationRound × RoundMessageAggregator → Option α) : state.roundMessageAggregators.reverse.findSome? search =
      ((kept state epoch).reverse.findSome? search).or ((erased state epoch).reverse.findSome? search) := by
  rw [← erased_append_kept state epoch, List.reverse_append, List.findSome?_append]

theorem lt_of_mem_erased {epoch : FinalizationEpoch} {entry : FinalizationRound × RoundMessageAggregator}
    (member : entry ∈ erased state epoch) : entry.1 < ⟨epoch, 0⟩ := by
  unfold erased at member
  have early := List.mem_takeWhile_imp member
  exact of_decide_eq_true early

/-- The rounds of the pruned epoch are before the best precommit. -/
theorem prune_bound_le {round : FinalizationRound} (nonzero : round.epoch ≠ 0) : (⟨round.epoch - 1, 0⟩ : FinalizationRound) ≤ round := by
  have positive : (1 : UInt32) ≤ round.epoch := by
    rw [UInt32.le_iff_toNat_le]
    have := mt UInt32.toNat_inj.mp nonzero
    change round.epoch.toNat ≠ 0 at this
    change 1 ≤ round.epoch.toNat
    omega
  refine le_of_lt (FinalizationRound.lt_iff.mpr (.inl ?_))
  dsimp only
  rw [UInt32.toNat_sub_of_le _ _ positive]
  rw [UInt32.le_iff_toNat_le] at positive
  change 1 ≤ round.epoch.toNat at positive
  change round.epoch.toNat - 1 < round.epoch.toNat
  omega

theorem tryFindBestPrecommit_mem (found : state.tryFindBestPrecommit = some descriptor) :
    ∃ entry ∈ state.roundMessageAggregators, entry.1 = descriptor.round := by
  obtain ⟨entry, member, matched⟩ := List.exists_of_findSome?_eq_some found
  obtain ⟨target, _, same⟩ := Option.map_eq_some_iff.mp matched
  exact ⟨entry, List.mem_reverse.mp member, same ▸ rfl⟩

theorem Window.epoch_ne_zero (window : Window state)
    (found : state.tryFindBestPrecommit = some descriptor) : descriptor.round.epoch ≠ 0 := by
  obtain ⟨entry, member, same⟩ := tryFindBestPrecommit_mem found
  rw [← same]
  exact window.epochs _ (List.mem_map_of_mem member)

/-- The best precommit is in a round that is kept. -/
theorem Window.kept_finds (window : Window state) (found : state.tryFindBestPrecommit = some descriptor) :
    (kept state (descriptor.round.epoch - 1)).reverse.findSome? (fun entry =>
      entry.2.roundContext.tryFindBestPrecommit.map fun target =>
        (⟨entry.1, target, entry.2.unknownMessages state.maxResponseSize []⟩ : BestPrecommitDescriptor)) = some descriptor := by
  have nonzero := window.epoch_ne_zero found
  have searched := found
  rw [tryFindBestPrecommit, findSome_reverse state (descriptor.round.epoch - 1)] at searched
  rcases Option.or_eq_some_iff.mp searched with here | ⟨_, below⟩
  · exact here
  · obtain ⟨entry, inside, matched⟩ := List.exists_of_findSome?_eq_some below
    obtain ⟨target, _, same⟩ := Option.map_eq_some_iff.mp matched
    have early := lt_of_mem_erased (List.mem_reverse.mp inside)
    have entryRound : entry.1 = descriptor.round := same ▸ rfl
    rw [entryRound] at early
    exact absurd (prune_bound_le nonzero) (not_le.mpr early)

theorem prune_roundMessageAggregators (epoch : FinalizationEpoch) :
    (state.prune epoch).roundMessageAggregators = kept state epoch := rfl

theorem prune_minFinalizationRound {epoch : FinalizationEpoch} {first : FinalizationRound × RoundMessageAggregator}
    {others : List (FinalizationRound × RoundMessageAggregator)} (rest : kept state epoch = first :: others) :
    (state.prune epoch).minFinalizationRound = first.1 := by
  unfold kept at rest
  unfold MultiRoundMessageAggregator.prune
  dsimp only
  rw [rest]

/-- Pruning keeps the window and moves its start forward. -/
theorem Window.prune (window : Window state) (found : state.tryFindBestPrecommit = some descriptor) :
    Window (state.prune (descriptor.round.epoch - 1)) ∧
      state.minFinalizationRound ≤ (state.prune (descriptor.round.epoch - 1)).minFinalizationRound := by
  have finds := window.kept_finds found
  have suffix : ∀ entry ∈ kept state (descriptor.round.epoch - 1), entry ∈ state.roundMessageAggregators :=
    fun entry member => (List.dropWhile_suffix _).subset member
  have ascending : SortedMap.Ascending (kept state (descriptor.round.epoch - 1)) :=
    window.ascending.sublist (List.dropWhile_suffix _).sublist
  cases rest : kept state (descriptor.round.epoch - 1) with
  | nil =>
    rw [rest] at finds
    cases finds
  | cons first others =>
    have minimum := prune_minFinalizationRound rest
    rw [rest] at suffix ascending
    obtain ⟨lower, upper⟩ := window.inside first.1 (List.mem_map_of_mem (suffix first List.mem_cons_self))
    rw [minimum]
    refine ⟨⟨minimum ▸ upper, fun round member => ?_, ?_, fun round member => ?_⟩, lower⟩
    · rw [prune_roundMessageAggregators, rest] at member
      obtain ⟨entry, inside, rfl⟩ := List.mem_map.mp member
      rw [minimum]
      refine ⟨?_, (window.inside _ (List.mem_map_of_mem (suffix entry inside))).2⟩
      rcases List.mem_cons.mp inside with rfl | later
      · exact le_refl _
      · exact ((List.pairwise_cons.mp ascending).1 entry later).le
    · rw [prune_roundMessageAggregators, rest]
      exact ascending
    · rw [prune_roundMessageAggregators, rest] at member
      obtain ⟨entry, inside, rfl⟩ := List.mem_map.mp member
      exact window.epochs _ (List.mem_map_of_mem (suffix entry inside))

theorem Window.kept_iff (window : Window state)
    (found : state.tryFindBestPrecommit = some descriptor) {entry : FinalizationRound × RoundMessageAggregator}
    (after : descriptor.round ≤ entry.1) :
    entry ∈ kept state (descriptor.round.epoch - 1) ↔ entry ∈ state.roundMessageAggregators := by
  rw [← erased_append_kept state (descriptor.round.epoch - 1), List.mem_append]
  refine ⟨.inr, fun either => either.resolve_left fun early => ?_⟩
  have bound := prune_bound_le (window.epoch_ne_zero found)
  exact absurd (le_trans bound after) (not_le.mpr (lt_of_mem_erased early))

/-- The estimate of a round is the first one that is found in the round or before it. -/
def estimateIn (round : FinalizationRound) (entry : FinalizationRound × RoundMessageAggregator) : Option HeightHashPair :=
  if round < entry.1 then none else entry.2.roundContext.tryFindEstimate

/-- A kept round that is not after the best precommit has an estimate, or no erased round has another one than the
initial pair. -/
def EstimateStays (state : MultiRoundMessageAggregator) (descriptor : BestPrecommitDescriptor) : Prop :=
  (∃ entry ∈ kept state (descriptor.round.epoch - 1), entry.1 ≤ descriptor.round ∧ entry.2.roundContext.tryFindEstimate.isSome) ∨
  ∀ pair, (erased state (descriptor.round.epoch - 1)).reverse.findSome? (fun entry => entry.2.roundContext.tryFindEstimate) =
    some pair → pair = state.previousFinalizedHeightHashPair

theorem erased_estimate {round : FinalizationRound} (bound : (⟨descriptor.round.epoch - 1, 0⟩ : FinalizationRound) ≤ round) :
    (erased state (descriptor.round.epoch - 1)).reverse.findSome? (estimateIn round) =
      (erased state (descriptor.round.epoch - 1)).reverse.findSome? (fun entry => entry.2.roundContext.tryFindEstimate) := by
  have same : ∀ entry ∈ (erased state (descriptor.round.epoch - 1)).reverse,
      estimateIn round entry = entry.2.roundContext.tryFindEstimate := by
    intro entry member
    have early := lt_of_mem_erased (List.mem_reverse.mp member)
    exact if_neg (not_lt.mpr (le_trans early.le bound))
  generalize (erased state (descriptor.round.epoch - 1)).reverse = entries at same
  induction entries with
  | nil => rfl
  | cons entry entries ih =>
    rw [List.findSome?_cons, List.findSome?_cons, same entry List.mem_cons_self,
      ih fun other member => same other (List.mem_cons_of_mem _ member)]

theorem findEstimate_eq (round : FinalizationRound) (epoch : FinalizationEpoch) :
    state.findEstimate round = (((kept state epoch).reverse.findSome? (estimateIn round)).or
      ((erased state epoch).reverse.findSome? (estimateIn round))).getD state.previousFinalizedHeightHashPair := by
  rw [← findSome_reverse]
  rfl

theorem findEstimate_prune (round : FinalizationRound) (epoch : FinalizationEpoch) : (state.prune epoch).findEstimate round =
      ((kept state epoch).reverse.findSome? (estimateIn round)).getD state.previousFinalizedHeightHashPair := rfl

/-- Pruning keeps the estimates of all rounds from the best precommit on exactly under the condition. -/
theorem prune_estimate_iff (nonzero : descriptor.round.epoch ≠ 0) : (∀ round, descriptor.round ≤ round →
      (state.prune (descriptor.round.epoch - 1)).findEstimate round = state.findEstimate round) ↔
    EstimateStays state descriptor := by
  have bound := prune_bound_le nonzero
  constructor
  · intro same
    have here := same descriptor.round (le_refl _)
    rw [findEstimate_prune, findEstimate_eq _ (descriptor.round.epoch - 1)] at here
    cases found : (kept state (descriptor.round.epoch - 1)).reverse.findSome? (estimateIn descriptor.round) with
    | some pair =>
      obtain ⟨entry, member, estimated⟩ := List.exists_of_findSome?_eq_some found
      refine .inl ⟨entry, List.mem_reverse.mp member, ?_⟩
      unfold estimateIn at estimated
      split at estimated
      · cases estimated
      · next notAfter => exact ⟨not_lt.mp notAfter, by rw [estimated]; rfl⟩
    | none =>
      refine .inr fun pair foundErased => ?_
      rw [found, erased_estimate bound, foundErased] at here
      exact here.symm
  · intro stays round after
    rw [findEstimate_prune, findEstimate_eq _ (descriptor.round.epoch - 1), erased_estimate (le_trans bound after)]
    rcases stays with ⟨entry, member, early, estimated⟩ | initial
    · cases found : (kept state (descriptor.round.epoch - 1)).reverse.findSome? (estimateIn round) with
      | some pair => rfl
      | none =>
        have missing := List.findSome?_eq_none_iff.mp found entry (List.mem_reverse.mpr member)
        rw [estimateIn, if_neg (not_lt.mpr (le_trans early after))] at missing
        rw [missing] at estimated
        cases estimated
    · cases (kept state (descriptor.round.epoch - 1)).reverse.findSome? (estimateIn round) with
      | some pair => rfl
      | none =>
        cases foundErased : (erased state (descriptor.round.epoch - 1)).reverse.findSome?
            (fun entry => entry.2.roundContext.tryFindEstimate) with
        | none => rfl
        | some pair => exact (initial pair foundErased).symm

end Pruning

section Steps

variable {config : FinalizationConfiguration} {state : MultiRoundMessageAggregator} [Sha3] [VotingVerifier]

/-- A step never moves the first round back; the finalizer keeps the best precommit, all rounds from it on with their
messages, and their estimates. -/
structure SoundStep (config : FinalizationConfiguration) (state : MultiRoundMessageAggregator) (action : AggregatorAction) : Prop where
  minimum : state.minFinalizationRound ≤ (state.step config action).minFinalizationRound
  bestPrecommit : ∀ finalizedHeight descriptor, action = .finalize finalizedHeight →
    state.tryFindBestPrecommit = some descriptor → (state.step config action).tryFindBestPrecommit = some descriptor
  messages : ∀ finalizedHeight descriptor, action = .finalize finalizedHeight →
    state.tryFindBestPrecommit = some descriptor → ∀ entry, descriptor.round ≤ entry.1 →
      (entry ∈ (state.step config action).roundMessageAggregators ↔ entry ∈ state.roundMessageAggregators)
  estimates : ∀ finalizedHeight descriptor, action = .finalize finalizedHeight →
    state.tryFindBestPrecommit = some descriptor → ∀ round, descriptor.round ≤ round →
      (state.step config action).findEstimate round = state.findEstimate round

/-- When the finalizer prunes, the estimate does not depend on an erased round. -/
def KeepsEstimate (state : MultiRoundMessageAggregator) : AggregatorAction → Prop
  | .finalize finalizedHeight => ∀ descriptor, state.tryFindBestPrecommit = some descriptor →
      finalizedHeight ≠ descriptor.target.height → EstimateStays state descriptor
  | _ => True

theorem Window.step (window : Window state) (action : AggregatorAction) :
    Window (state.step config action) ∧ state.minFinalizationRound ≤ (state.step config action).minFinalizationRound := by
  cases action with
  | add accountsAtHeight message =>
    obtain ⟨next, same⟩ := @Window.add state config _ _ window accountsAtHeight message
    exact ⟨next, same.ge⟩
  | raiseMaxFinalizationRound round =>
    rw [MultiRoundMessageAggregator.step]
    split
    · next raised =>
      obtain ⟨next, same⟩ := window.raise raised
      exact ⟨next, same.ge⟩
    · exact ⟨window, le_refl _⟩
  | finalize finalizedHeight =>
    rw [MultiRoundMessageAggregator.step, MultiRoundMessageAggregator.finalize]
    split
    · exact ⟨window, le_refl _⟩
    · next found =>
      split
      · exact ⟨window, le_refl _⟩
      · split
        · exact ⟨window, le_refl _⟩
        · exact window.prune found

/-- The finalizer prunes unless the block is already finalized. -/
theorem Window.step_finalize (window : Window state) {descriptor : BestPrecommitDescriptor}
    (found : state.tryFindBestPrecommit = some descriptor) (finalizedHeight : Height) :
    state.step config (.finalize finalizedHeight) =
      if finalizedHeight = descriptor.target.height then state else state.prune (descriptor.round.epoch - 1) := by
  have nonzero := window.epoch_ne_zero found
  rw [MultiRoundMessageAggregator.step, MultiRoundMessageAggregator.finalize, found]
  exact if_neg fun zero => nonzero (congrArg FinalizationRound.epoch zero)

/-- A step is sound exactly if it keeps the estimates. -/
theorem Window.soundStep_iff (window : Window state) (action : AggregatorAction) :
    SoundStep config state action ↔ KeepsEstimate state action := by
  constructor
  · intro sound
    cases action with
    | add _ _ => trivial
    | raiseMaxFinalizationRound _ => trivial
    | finalize finalizedHeight =>
      intro descriptor found new
      refine (prune_estimate_iff (window.epoch_ne_zero found)).mp fun round after => ?_
      have same := sound.estimates finalizedHeight descriptor rfl found round after
      rwa [window.step_finalize found, if_neg new] at same
  · intro keeps
    refine ⟨(window.step action).2, ?_, ?_, ?_⟩
    · rintro finalizedHeight descriptor rfl found
      rw [window.step_finalize found]
      split
      · exact found
      · exact window.kept_finds found
    · rintro finalizedHeight descriptor rfl found entry after
      rw [window.step_finalize found]
      split
      · exact Iff.rfl
      · exact window.kept_iff found after
    · rintro finalizedHeight descriptor rfl found round after
      rw [window.step_finalize found]
      split
      · rfl
      · next new => exact (prune_estimate_iff (window.epoch_ne_zero found)).mpr (keeps descriptor found new) round after

/-- In every run the stored rounds lie in the window, and all steps are sound exactly if they keep the estimates. -/
theorem window_run_iff (config : FinalizationConfiguration) (maxResponseSize : Nat) (round : FinalizationRound)
    (pair : HeightHashPair) (actions : List AggregatorAction) :
    Window (actions.foldl (step config) (create maxResponseSize round pair)) ∧
      (Runs.Along (step config) (SoundStep config) (create maxResponseSize round pair) actions ↔
        Runs.Along (step config) KeepsEstimate (create maxResponseSize round pair) actions) := by
  have start := window_create maxResponseSize round pair
  refine ⟨Runs.always_foldl (fun _ action window => (window.step action).1) start, ?_⟩
  exact Runs.Along.congr (fun _ action window => (window.step action).1) (fun _ action window => window.soundStep_iff action) start

end Steps

section Searching

variable {context : RoundContext} {predicate : HeightHashPair → Weights → Bool}

/-- The last candidate that matches is found. -/
theorem tryFindLastMatch_eq_some {key : HeightHashPair} (member : key ∈ context.candidates.keys)
    (matched : predicate key (context.candidates.weights key))
    (last : ∀ other ∈ context.candidates.keys, predicate other (context.candidates.weights other) →
      other.height < key.height ∨ other = key) :
    context.tryFindLastMatch predicate = some key := by
  have listed : ∀ other, other ∈ context.reverseKeys ↔ other ∈ context.candidates.keys := fun other => Finset.mem_sort _
  cases found : context.tryFindLastMatch predicate with
  | none => exact absurd matched (List.find?_eq_none.mp found key ((listed key).mpr member))
  | some other =>
    obtain ⟨otherMatched, before, after, split, skipped⟩ := List.find?_eq_some_iff_append.mp found
    have sorted : context.reverseKeys.Pairwise fun lhs rhs => rhs ≤ lhs := Finset.pairwise_sort _ _
    have otherListed : other ∈ context.reverseKeys := split ▸ List.mem_append_right _ List.mem_cons_self
    rcases last other ((listed other).mp otherListed) otherMatched with lower | rfl
    · have keyListed := (listed key).mpr member
      rw [split] at sorted keyListed
      rcases List.mem_append.mp keyListed with early | late
      · have failed := skipped key early
        rw [matched] at failed
        cases failed
      · rcases List.mem_cons.mp late with rfl | behind
        · rfl
        · have above := (List.pairwise_cons.mp (List.pairwise_append.mp sorted).2.1).1 key behind
          exact congrArg some (antisymm (r := fun lhs rhs : HeightHashPair => rhs ≤ lhs) above (.inl lower))
    · rfl

theorem tryFindLastMatch_eq_none
    (fails : ∀ key ∈ context.candidates.keys, predicate key (context.candidates.weights key) = false) :
    context.tryFindLastMatch predicate = none := by
  refine List.find?_eq_none.mpr fun key listed matched => ?_
  rw [fails key ((Finset.mem_sort _).mp listed)] at matched
  cases matched

end Searching

namespace Samples

def lightKey : VotingKey := Vector.replicate 32 1

def heavyKey : VotingKey := Vector.replicate 32 2

/-- An account with a balance and its own voting key. -/
def votingAccount (index : UInt8) (balance : Amount) (key : VotingKey) : Address × AccountHistory :=
  (Vector.replicate 24 index, ⟨⟨[(1, balance)]⟩, ⟨[(1, [⟨key, 1, 100⟩])]⟩⟩)

def votingAccounts : HighValueAccounts where
  accountHistories := [votingAccount 1 1 lightKey, votingAccount 2 9 heavyKey]
  distinct := by decide
  supplied height := by
    have bounded (balance : Amount) (small : balance.toNat < 10) :
        ((⟨[(1, balance)]⟩ : HeightIndexedHistoryMap Amount).get height).toNat < 10 := by
      unfold HeightIndexedHistoryMap.get
      cases found : List.find? (fun entry : Height × Amount => decide (entry.1 ≤ height)) [(1, balance)] with
      | none => exact Nat.zero_lt_succ _
      | some entry =>
        have member := List.mem_of_find?_eq_some found
        rw [List.mem_singleton.mp member]
        exact small
    have first := bounded 1 (by decide)
    have second := bounded 9 (by decide)
    simp only [votingAccount, List.map_cons, List.map_nil, List.sum_cons, List.sum_nil]
    omega

def windowConfiguration : FinalizationConfiguration := ⟨10, 7, 256, 0, [], 10⟩

def signMessage (key : VotingKey) (stepIdentifier : StepIdentifier) (height : Height) (hashes : List Hash256)
    (counted : hashes.length < 2 ^ 32) : FinalizationMessage :=
  let unsigned : FinalizationMessage :=
    { reserved1 := 0
      signature := ⟨⟨key, signBytes key (key.toList ++ toBytes 8 (stepIdentifierToBmKeyIdentifier stepIdentifier).toNat)⟩,
        ⟨key, Vector.replicate 64 0⟩⟩
      version := FinalizationMessage.currentVersion
      stepIdentifier, height, hashes, counted }
  { unsigned with signature := ⟨unsigned.signature.root, ⟨key, signBytes key unsigned.toBuffer⟩⟩ }

def blockHash (index : UInt8) : Hash256 := Vector.replicate 32 index

/-- The light voter starts its branch at the last block, so that the heavy voter cannot join it to the block before. -/
def windowActions : List AggregatorAction :=
  [.add (fun _ => some votingAccounts) (signMessage heavyKey (.create ⟨2, 1⟩ .prevote) 5 [blockHash 5] (by decide)),
   .raiseMaxFinalizationRound ⟨4, 1⟩,
   .add (fun _ => some votingAccounts) (signMessage lightKey (.create ⟨4, 1⟩ .prevote) 25 [blockHash 25] (by decide)),
   .add (fun _ => some votingAccounts) (signMessage heavyKey (.create ⟨4, 1⟩ .prevote) 24 [blockHash 24, blockHash 25] (by decide)),
   .add (fun _ => some votingAccounts) (signMessage heavyKey (.create ⟨4, 1⟩ .precommit) 24 [blockHash 24] (by decide))]

def crossedState : MultiRoundMessageAggregator :=
  letI := sha3Digest
  letI := sampleVerifier
  windowActions.foldl (step windowConfiguration) (create 10000 ⟨2, 1⟩ ⟨1, zeroHash⟩)

/-- The state is evaluated once: its rounds, both round contexts and the pair that is already finalized. -/
theorem crossed_evaluated : crossedState.roundMessageAggregators.map Prod.fst = [⟨2, 1⟩, ⟨4, 1⟩] ∧
    -- The only block of the first round has enough prevotes.
    (∀ entry ∈ crossedState.roundMessageAggregators, entry.1 = ⟨2, 1⟩ →
      entry.2.roundContext.candidates.keys = {⟨5, blockHash 5⟩} ∧
      entry.2.roundContext.candidates.weights ⟨5, blockHash 5⟩ = ⟨9, 0⟩ ∧ entry.2.roundContext.threshold = 7 ∧
      entry.2.roundContext.canReachPrecommitThreshold ⟨9, 0⟩ ∧
      entry.2.roundContext.tree.isDescendant ⟨5, blockHash 5⟩ ⟨5, blockHash 5⟩) ∧
    -- The block before the last one has enough precommits, but it is no ancestor of the last one.
    (∀ entry ∈ crossedState.roundMessageAggregators, entry.1 = ⟨4, 1⟩ →
      entry.2.roundContext.candidates.keys = {⟨24, blockHash 24⟩, ⟨25, blockHash 25⟩} ∧
      entry.2.roundContext.candidates.weights ⟨24, blockHash 24⟩ = ⟨9, 9⟩ ∧
      entry.2.roundContext.candidates.weights ⟨25, blockHash 25⟩ = ⟨10, 0⟩ ∧ entry.2.roundContext.threshold = 7 ∧
      entry.2.roundContext.canReachPrecommitThreshold ⟨10, 0⟩ = false ∧
      entry.2.roundContext.tree.isDescendant ⟨24, blockHash 24⟩ ⟨25, blockHash 25⟩ = false) ∧
    crossedState.previousFinalizedHeightHashPair = ⟨1, zeroHash⟩ := by decide +kernel

section Crossed

variable {context : RoundContext}

theorem crossed_first_estimate (keys : context.candidates.keys = {⟨5, blockHash 5⟩})
    (weights : context.candidates.weights ⟨5, blockHash 5⟩ = ⟨9, 0⟩) (threshold : context.threshold = 7)
    (reaches : context.canReachPrecommitThreshold ⟨9, 0⟩)
    (descends : context.tree.isDescendant ⟨5, blockHash 5⟩ ⟨5, blockHash 5⟩) :
    context.tryFindEstimate = some ⟨5, blockHash 5⟩ := by
  have member : ⟨5, blockHash 5⟩ ∈ context.candidates.keys := by rw [keys, Finset.mem_singleton]
  have only : ∀ other ∈ context.candidates.keys, other.height < (5 : Height) ∨ other = ⟨5, blockHash 5⟩ := fun other inside =>
    .inr (Finset.mem_singleton.mp (keys ▸ inside))
  have bestPrevote : context.tryFindBestPrevote = some ⟨5, blockHash 5⟩ :=
    tryFindLastMatch_eq_some member (by rw [weights, threshold]; rfl) fun other inside _ => only other inside
  rw [RoundContext.tryFindEstimate, bestPrevote, Option.bind_some]
  refine tryFindLastMatch_eq_some member ?_ fun other inside _ => only other inside
  rw [weights, descends, reaches]
  rfl

variable (keys : context.candidates.keys = {⟨24, blockHash 24⟩, ⟨25, blockHash 25⟩})
  (after : context.candidates.weights ⟨25, blockHash 25⟩ = ⟨10, 0⟩) (threshold : context.threshold = 7)
include keys after threshold

theorem crossed_last_bestPrecommit (before : context.candidates.weights ⟨24, blockHash 24⟩ = ⟨9, 9⟩) :
    context.tryFindBestPrecommit = some ⟨24, blockHash 24⟩ := by
  refine tryFindLastMatch_eq_some (by rw [keys]; exact Finset.mem_insert_self _ _) (by rw [before, threshold]; rfl) ?_
  intro other inside matched
  rw [keys, Finset.mem_insert, Finset.mem_singleton] at inside
  rcases inside with rfl | rfl
  · exact .inr rfl
  · rw [after, threshold] at matched
    exact absurd matched (by decide)

theorem crossed_last_estimate (fails : context.canReachPrecommitThreshold ⟨10, 0⟩ = false)
    (apart : context.tree.isDescendant ⟨24, blockHash 24⟩ ⟨25, blockHash 25⟩ = false) : context.tryFindEstimate = none := by
  have bestPrevote : context.tryFindBestPrevote = some ⟨25, blockHash 25⟩ := by
    refine tryFindLastMatch_eq_some (by rw [keys]; decide) (by rw [after, threshold]; rfl) ?_
    intro other inside _
    rw [keys, Finset.mem_insert, Finset.mem_singleton] at inside
    rcases inside with rfl | rfl
    · exact .inl (by decide)
    · exact .inr rfl
  rw [RoundContext.tryFindEstimate, bestPrevote, Option.bind_some]
  refine tryFindLastMatch_eq_none fun key inside => ?_
  rw [keys, Finset.mem_insert, Finset.mem_singleton] at inside
  rcases inside with rfl | rfl
  · rw [apart, Bool.false_and]
  · rw [after, fails, Bool.and_false]

end Crossed

/-- The estimate of the best precommit's round comes from a round that is erased. -/
theorem pruning_loses_estimate : letI := sha3Digest; letI := sampleVerifier
    ¬ SoundStep windowConfiguration (windowActions.foldl (step windowConfiguration) (create 10000 ⟨2, 1⟩ ⟨1, zeroHash⟩))
      (.finalize 1) := by
  let := sha3Digest
  let := sampleVerifier
  change ¬ SoundStep windowConfiguration crossedState (.finalize 1)
  intro sound
  have window : Window crossedState :=
    Runs.always_foldl (fun _ action window => (window.step action).1) (window_create 10000 ⟨2, 1⟩ ⟨1, zeroHash⟩)
  obtain ⟨crossedRounds, crossedFirst, crossedLast, initialPair⟩ := crossed_evaluated
  obtain ⟨⟨_, first⟩, _, rounds, rfl, others⟩ := List.map_eq_cons_iff.mp crossedRounds
  obtain ⟨⟨_, last⟩, _, rfl, rfl, empty⟩ := List.map_eq_cons_iff.mp others
  obtain rfl := List.map_eq_nil_iff.mp empty
  obtain ⟨firstKeys, firstWeights, firstThreshold, reaches, descends⟩ :=
    crossedFirst (⟨2, 1⟩, first) (rounds ▸ List.mem_cons_self) rfl
  obtain ⟨keys, before, after, threshold, fails, apart⟩ :=
    crossedLast (⟨4, 1⟩, last) (rounds ▸ List.mem_cons_of_mem _ List.mem_cons_self) rfl
  have bestPrecommit := crossed_last_bestPrecommit keys after threshold before
  have found : crossedState.tryFindBestPrecommit =
      some ⟨⟨4, 1⟩, ⟨24, blockHash 24⟩, last.unknownMessages crossedState.maxResponseSize []⟩ := by
    rw [tryFindBestPrecommit, rounds, List.reverse_cons, List.reverse_singleton, List.singleton_append, List.findSome?_cons,
      bestPrecommit]
    rfl
  have new : (1 : Height) ≠ 24 := by decide
  have apartRounds : erased crossedState (4 - 1) = [(⟨2, 1⟩, first)] ∧ kept crossedState (4 - 1) = [(⟨4, 1⟩, last)] := by
    rw [erased, kept, rounds]
    exact ⟨rfl, rfl⟩
  rcases (window.soundStep_iff (.finalize 1)).mp sound _ found new with ⟨entry, member, _, estimated⟩ | initial
  · change entry ∈ kept crossedState (4 - 1) at member
    rw [apartRounds.2, List.mem_singleton] at member
    rw [member, crossed_last_estimate keys after threshold fails apart] at estimated
    cases estimated
  · have same := initial ⟨5, blockHash 5⟩ (by
      change (erased crossedState (4 - 1)).reverse.findSome? _ = _
      rw [apartRounds.1, List.reverse_singleton, List.findSome?_cons,
        crossed_first_estimate firstKeys firstWeights firstThreshold reaches descends])
    rw [initialPair] at same
    exact absurd (congrArg HeightHashPair.height same) (by decide)

end Samples

end Catapult.Finalization
