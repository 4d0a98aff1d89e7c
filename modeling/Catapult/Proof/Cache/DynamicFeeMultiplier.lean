import Catapult.Library.Runs
import Catapult.Proof.Cache.StatisticOperations

/-
This file shows that the statistics and the dynamic fee multiplier of a node depend only on its chain.
-/

namespace Catapult.Cache

open Catapult.Delta Median

section Multipliers

variable (config : StatisticConfiguration)

/-- The nonzero fee multipliers of the last blocks are padded with the default. -/
def paddedMultipliers (chain : List BlockStatistic) : List BlockFeeMultiplier :=
  let multipliers := ((lastBlocks config.maxDifficultyBlocks.toNat chain).map BlockStatistic.feeMultiplier).filter (· ≠ 0)
  multipliers ++ List.replicate (config.maxDifficultyBlocks.toNat - multipliers.length) config.defaultDynamicFeeMultiplier

theorem length_lastBlocks_le (count : Nat) (chain : List BlockStatistic) : (lastBlocks count chain).length ≤ count := by
  rw [lastBlocks, List.length_drop]
  omega

theorem length_paddedMultipliers (chain : List BlockStatistic) :
    (paddedMultipliers config chain).length = config.maxDifficultyBlocks.toNat := by
  have few : (((lastBlocks config.maxDifficultyBlocks.toNat chain).map BlockStatistic.feeMultiplier).filter (· ≠ 0)).length ≤
      config.maxDifficultyBlocks.toNat := by
    apply Nat.le_trans (List.length_filter_le _ _)
    rw [List.length_map]
    exact length_lastBlocks_le _ _
  rw [paddedMultipliers, List.length_append, List.length_replicate]
  omega

theorem collectFeeMultipliers_eq {count : Nat} {statistics : List BlockStatistic} {feeMultipliers : List BlockFeeMultiplier}
    (few : feeMultipliers.length + statistics.length ≤ count) :
    collectFeeMultipliers count statistics feeMultipliers = feeMultipliers ++ (statistics.map BlockStatistic.feeMultiplier).filter (· ≠ 0) := by
  induction statistics generalizing feeMultipliers with
  | nil =>
    rw [List.map_nil, List.filter_nil, List.append_nil]
    rfl
  | cons statistic statistics ih =>
    rw [List.length_cons] at few
    rw [collectFeeMultipliers, if_pos (by omega), List.map_cons]
    by_cases zero : statistic.feeMultiplier = 0
    · rw [if_neg (not_not.mpr zero), ih (by omega), List.filter_cons_of_neg (by simpa using zero)]
    · rw [if_pos zero, ih (by rw [List.length_append, List.length_singleton]; omega), List.filter_cons_of_pos (by simpa using zero),
        List.append_assoc, List.singleton_append]

/-- The multiplier of the last blocks is an upper median. -/
theorem isUpperMedian_calculate (chain : List BlockStatistic) (positive : 0 < config.maxDifficultyBlocks.toNat) :
    IsUpperMedian UInt32.toNat (paddedMultipliers config chain)
      (calculateDynamicFeeMultiplier (lastBlocks config.maxDifficultyBlocks.toNat chain) config.maxDifficultyBlocks.toNat
        config.defaultDynamicFeeMultiplier) := by
  have collected := @collectFeeMultipliers_eq config.maxDifficultyBlocks.toNat (lastBlocks config.maxDifficultyBlocks.toNat chain) []
    (by rw [List.length_nil, Nat.zero_add]; exact length_lastBlocks_le _ _)
  rw [List.nil_append] at collected
  have length := length_paddedMultipliers config chain
  unfold calculateDynamicFeeMultiplier
  rw [if_neg (by omega), collected]
  change IsUpperMedian _ _ ((nthElement UInt32.toNat (paddedMultipliers config chain) (config.maxDifficultyBlocks.toNat / 2)).getD _)
  cases found : nthElement UInt32.toNat (paddedMultipliers config chain) (config.maxDifficultyBlocks.toNat / 2) with
  | none =>
    rw [nthElement, List.getElem?_eq_none_iff, (ordered_perm UInt32.toNat _).length_eq] at found
    omega
  | some median => exact isUpperMedian_of_nthElement UInt32.toNat (by rw [length]; exact found)

end Multipliers

/-- The tip of a chain with its finalized height; the first block is final. -/
structure ChainTip where
  chain : List BlockStatistic
  finalized : Nat

/-- The chain that a node has committed and the chain that it is building. -/
structure Ledger where
  committed : ChainTip
  pending : Option ChainTip

/-- Blocks extend a chain, are rolled back down to the finalized height and are pruned at finalized heights. -/
inductive Follows : Ledger → NodeEvent → Ledger → Prop
  | createDelta (tip : ChainTip) : Follows ⟨tip, none⟩ .createDelta ⟨tip, some tip⟩
  | execute (committed tip : ChainTip) (statistic : BlockStatistic) (next : statistic.height.toNat = tip.chain.length + 1) :
      Follows ⟨committed, some tip⟩ (.execute statistic) ⟨committed, some ⟨tip.chain ++ [statistic], tip.finalized⟩⟩
  | undo (committed : ChainTip) (chain : List BlockStatistic) (finalized : Nat) (last : BlockStatistic) (above : finalized ≤ chain.length) :
      Follows ⟨committed, some ⟨chain ++ [last], finalized⟩⟩ (.undo last) ⟨committed, some ⟨chain, finalized⟩⟩
  | prune (committed tip : ChainTip) (height : Height) (inside : height.toNat ≤ tip.chain.length) :
      Follows ⟨committed, some tip⟩ (.prune height) ⟨committed, some ⟨tip.chain, max tip.finalized height.toNat⟩⟩
  | commit (committed tip : ChainTip) : Follows ⟨committed, some tip⟩ .commit ⟨tip, none⟩
  | discard (committed : ChainTip) (pending : Option ChainTip) : Follows ⟨committed, pending⟩ .discard ⟨committed, none⟩
  | restart (committed : ChainTip) (pending : Option ChainTip) (batchSize : Nat) (positive : 0 < batchSize) :
      Follows ⟨committed, pending⟩ (.restart batchSize) ⟨committed, none⟩
  | restartFromSummary (committed tip : ChainTip) (batchSize : Nat) (positive : 0 < batchSize) :
      Follows ⟨committed, some tip⟩ (.restartFromSummary batchSize) ⟨tip, none⟩

/-- The nodes that are reached together with their chains. -/
inductive Reaches (config : StatisticConfiguration) : StatisticNode → Ledger → Prop
  | initial : Reaches config .initial ⟨⟨[], 1⟩, none⟩
  | step {node following : StatisticNode} {ledger next : Ledger} {event : NodeEvent} (reached : Reaches config node ledger)
      (follows : Follows ledger event next) (performed : node.perform config event = .ok following) : Reaches config following next

section Invariant

variable (config : StatisticConfiguration)

/-- The dropped blocks are not needed by a rollback to the finalized height. -/
structure Covers (tip : ChainTip) (dropped : Nat) : Prop where
  numbered : Numbered tip.chain
  positive : 1 ≤ tip.finalized
  inside : tip.finalized ≤ max 1 tip.chain.length
  kept : dropped = 0 ∨ dropped + config.maxDifficultyBlocks.toNat + 1 ≤ tip.finalized

/-- An empty chain has no fee multiplier. -/
def Priced (chain : List BlockStatistic) (multiplier : BlockFeeMultiplier) : Prop :=
  chain ≠ [] → IsUpperMedian UInt32.toNat (paddedMultipliers config chain) multiplier

structure Attached (base : List BlockStatistic) (dropped : Nat) (delta : CatapultCacheDelta) (tip : ChainTip) : Prop where
  holds : Holds delta.statistics base tip.chain dropped
  history : delta.statistics.historySize = config.maxDifficultyBlocks.toUInt64
  covers : Covers config tip dropped
  boundary : ∀ boundary, delta.statistics.pruningBoundary = some boundary →
    1 ≤ boundary.height.toNat ∧ boundary.height.toNat + config.maxDifficultyBlocks.toNat ≤ tip.finalized
  priced : Priced config tip.chain delta.dynamicFeeMultiplier

structure Stored (node : StatisticNode) (tip : ChainTip) (dropped : Nat) : Prop where
  same : node.elements.elements = tip.chain.drop dropped
  covers : Covers config tip dropped
  priced : Priced config tip.chain node.dynamicFeeMultiplier

/-- A node keeps the blocks of its chains that are not dropped. -/
structure Faithful (node : StatisticNode) (ledger : Ledger) (dropped : Nat) : Prop where
  stored : Stored config node ledger.committed dropped
  unattached : ledger.pending = none → node.delta = none
  attached : ∀ tip, ledger.pending = some tip → ∃ delta, node.delta = some delta ∧ Attached config ledger.committed.chain dropped delta tip

variable {config}

theorem Covers.le {tip : ChainTip} {dropped : Nat} (covers : Covers config tip dropped) : dropped ≤ tip.chain.length := by
  have inside := covers.inside
  obtain zero | kept := covers.kept
  · omega
  · omega

/-- A delta of the stored elements starts at the stored tip. -/
theorem Stored.attach {node : StatisticNode} {tip : ChainTip} {dropped : Nat} (stored : Stored config node tip dropped) :
    Attached config tip.chain dropped ⟨.ofSet node.elements config.maxDifficultyBlocks.toUInt64, node.dynamicFeeMultiplier⟩ tip where
  holds := Holds.ofSet _ stored.covers.numbered stored.same stored.covers.le
  history := rfl
  covers := stored.covers
  boundary _ set := by cases set
  priced := stored.priced

end Invariant

section Observer

variable {config : StatisticConfiguration} {base chain : List BlockStatistic} {dropped finalized : Nat} {delta : CatapultCacheDelta}

/-- Without a history there are no statistics. -/
theorem positive_of_statistics {statistics : BlockStatisticCacheDelta} {height : Height} {found : List BlockStatistic}
    (ran : statistics.statistics height config.maxDifficultyBlocks.toUInt64 = .ok found) : 0 < config.maxDifficultyBlocks.toNat := by
  by_contra none
  have zero : config.maxDifficultyBlocks.toUInt64 = 0 := by
    apply UInt64.toNat.inj
    rw [UInt32.toNat_toUInt64]
    exact Nat.eq_zero_of_not_pos none
  unfold BlockStatisticCacheDelta.statistics statisticsOf at ran
  rw [if_pos (show height = 0 ∨ config.maxDifficultyBlocks.toUInt64 = 0 from .inr zero)] at ran
  split at ran <;> cases ran

/-- The observer reads the statistics that end at the changed height. -/
theorem observe_eq {changed : BlockStatisticCacheDelta} (positive : 0 < config.maxDifficultyBlocks.toNat) (holds : Holds changed base chain dropped)
    (nonempty : 0 < chain.length) (inside : finalized ≤ chain.length)
    (kept : dropped = 0 ∨ dropped + config.maxDifficultyBlocks.toNat + 1 ≤ finalized) {height : Height} (last : height.toNat = chain.length) :
    changed.statistics height config.maxDifficultyBlocks.toUInt64 = .ok (lastBlocks config.maxDifficultyBlocks.toNat chain) := by
  rw [← UInt32.toNat_toUInt64 config.maxDifficultyBlocks] at positive kept ⊢
  exact holds.statistics_eq last (by omega) positive (by omega)

/-- A committed block extends the chain of the delta. -/
theorem Attached.execute (attached : Attached config base dropped delta ⟨chain, finalized⟩) {statistic : BlockStatistic}
    (next : statistic.height.toNat = chain.length + 1) (positive : 0 < config.maxDifficultyBlocks.toNat) :
    ∃ observed, blockStatisticObserver config .commit statistic delta = .ok observed ∧
      Attached config base dropped observed ⟨chain ++ [statistic], finalized⟩ := by
  have length : (chain ++ [statistic]).length = chain.length + 1 := List.length_append
  obtain ⟨inserted, ran, holds, history, boundary⟩ := attached.holds.insert next
  change Holds inserted base (chain ++ [statistic]) dropped at holds
  have inside : finalized ≤ max 1 chain.length := attached.covers.inside
  have kept : dropped = 0 ∨ dropped + config.maxDifficultyBlocks.toNat + 1 ≤ finalized := attached.covers.kept
  have read := observe_eq positive holds (by omega) (by omega) kept (next.trans length.symm)
  unfold blockStatisticObserver
  simp only [ran, read, bind, Except.bind, pure, Except.pure]
  refine ⟨_, rfl, holds, history.trans attached.history, ⟨holds.numbered, attached.covers.positive, ?_, kept⟩, ?_, ?_⟩
  · change finalized ≤ max 1 (chain ++ [statistic]).length
    omega
  · change ∀ _, inserted.pruningBoundary = _ → _
    rw [boundary]
    exact attached.boundary
  · intro _
    exact isUpperMedian_calculate config _ positive

/-- A block that is rolled back leaves the chain of the delta. -/
theorem Attached.undo {last : BlockStatistic} (attached : Attached config base dropped delta ⟨chain ++ [last], finalized⟩)
    (above : finalized ≤ chain.length) (positive : 0 < config.maxDifficultyBlocks.toNat) :
    ∃ observed, blockStatisticObserver config .rollback last delta = .ok observed ∧ Attached config base dropped observed ⟨chain, finalized⟩ := by
  have height : last.height.toNat = chain.length + 1 := attached.covers.numbered chain.length last List.getElem?_concat_length
  have nonempty := attached.covers.positive
  have kept := attached.covers.kept
  dsimp only at nonempty kept
  obtain ⟨removed, ran, holds, history, boundary⟩ := attached.holds.remove height (by omega)
  have effective : (last.height - 1).toNat = chain.length := by
    rw [UInt64.toNat_sub_of_le _ _ (by rw [UInt64.le_iff_toNat_le, height]; change 1 ≤ _; omega), height]
    rfl
  have read := observe_eq positive holds (by omega) above kept effective
  unfold blockStatisticObserver
  simp only [ran, read, bind, Except.bind, pure, Except.pure]
  refine ⟨_, rfl, holds, history.trans attached.history, ⟨holds.numbered, nonempty, ?_, kept⟩, ?_, ?_⟩
  · change finalized ≤ max 1 chain.length
    omega
  · change ∀ _, removed.pruningBoundary = _ → _
    rw [boundary]
    exact attached.boundary
  · intro _
    exact isUpperMedian_calculate config _ positive

/-- A prune only sets a boundary below the finalized height. -/
theorem Attached.prune (attached : Attached config base dropped delta ⟨chain, finalized⟩) {height : Height} (inside : height.toNat ≤ chain.length) :
    Attached config base dropped { delta with statistics := delta.statistics.prune height } ⟨chain, max finalized height.toNat⟩ := by
  have covers : Covers config ⟨chain, max finalized height.toNat⟩ dropped := by
    obtain ⟨numbered, positive, below, kept⟩ := attached.covers
    dsimp only at *
    exact ⟨numbered, by dsimp only; omega, by dsimp only; omega, by dsimp only; omega⟩
  have history := attached.history
  unfold BlockStatisticCacheDelta.prune
  split
  · next great =>
    refine ⟨⟨attached.holds.shows, attached.holds.numberedBase, attached.holds.numbered, attached.holds.le, attached.holds.started⟩,
      history, covers, ?_, attached.priced⟩
    rintro _ ⟨rfl⟩
    change delta.statistics.historySize < height at great
    rw [history] at great ⊢
    rw [UInt64.lt_iff_toNat_lt, UInt32.toNat_toUInt64] at great
    change 1 ≤ (height - _).toNat ∧ (height - _).toNat + _ ≤ _
    rw [UInt64.toNat_sub_of_le _ _ (by rw [UInt64.le_iff_toNat_le, UInt32.toNat_toUInt64]; omega), UInt32.toNat_toUInt64]
    dsimp only
    omega
  · refine ⟨attached.holds, history, covers, ?_, attached.priced⟩
    intro boundary set
    have bounds := attached.boundary boundary set
    dsimp only at *
    omega

end Observer

section Steps

variable {config : StatisticConfiguration} {node : StatisticNode} {dropped : Nat}

/-- The events that notify the observer. -/
def NodeEvent.Observes : NodeEvent → Prop
  | .execute _ | .undo _ => True
  | _ => False

theorem positive_of_observer {mode : NotifyMode} {statistic : BlockStatistic} {delta observed : CatapultCacheDelta}
    (ran : blockStatisticObserver config mode statistic delta = .ok observed) : 0 < config.maxDifficultyBlocks.toNat := by
  cases mode with
  | commit | rollback =>
    obtain ⟨changed, _, ran⟩ := Runs.bind_eq_ok.mp ran
    obtain ⟨effective, _, ran⟩ := Runs.bind_eq_ok.mp ran
    obtain ⟨statistics, read, _⟩ := Runs.bind_eq_ok.mp ran
    exact positive_of_statistics read

theorem positive_of_observes {following : StatisticNode} {event : NodeEvent} (observes : event.Observes)
    (performed : node.perform config event = .ok following) : 0 < config.maxDifficultyBlocks.toNat := by
  cases event with
  | execute statistic | undo statistic =>
    change node.withDelta _ = _ at performed
    unfold StatisticNode.withDelta at performed
    split at performed
    · cases performed
    · obtain ⟨observed, ran, _⟩ := Runs.bind_eq_ok.mp performed
      exact positive_of_observer ran
  | _ => exact absurd observes id

/-- A cache that holds the blocks of a tip is loaded with that tip. -/
theorem load_eq {tip : ChainTip} {multiplier : BlockFeeMultiplier} {batchSize : Nat} (positive : 0 < batchSize) (covers : Covers config tip dropped)
    (priced : Priced config tip.chain multiplier) : ∃ following, StatisticNode.load config batchSize multiplier
        (saveStatistics (UInt64.ofNat (tip.chain.length - dropped)) (tip.chain.drop dropped)) = .ok following ∧
      Faithful config following ⟨tip, none⟩ dropped := by
  obtain ⟨elements, same, loaded⟩ := loadAll_eq positive config.maxDifficultyBlocks.toUInt64 covers.numbered covers.le
  unfold StatisticNode.load
  rw [loaded]
  refine ⟨_, rfl, ⟨same, covers, priced⟩, fun _ => rfl, ?_⟩
  intro _ none
  cases none

theorem Faithful.with_delta {ledger : Ledger} (faithful : Faithful config node ledger dropped) {delta : CatapultCacheDelta} {tip : ChainTip}
    (attached : Attached config ledger.committed.chain dropped delta tip) :
    Faithful config { node with delta := some delta } ⟨ledger.committed, some tip⟩ dropped where
  stored := ⟨faithful.stored.same, faithful.stored.covers, faithful.stored.priced⟩
  unattached none := by cases none
  attached := by
    rintro _ ⟨rfl⟩
    exact ⟨delta, rfl, attached⟩

/-- A commit drops the blocks below the boundary of the delta. -/
theorem Attached.commit {base : List BlockStatistic} {delta : CatapultCacheDelta} {tip : ChainTip} (attached : Attached config base dropped delta tip)
    (same : node.elements.elements = base.drop dropped) (attachment : node.delta = some delta) :
    ∃ following dropped', node.perform config .commit = .ok following ∧ Faithful config following ⟨tip, none⟩ dropped' := by
  obtain ⟨pruned, ran, listed⟩ := attached.holds.commitDelta_eq same fun boundary set => (attached.boundary boundary set).1
  have covers : Covers config tip (droppedAfter delta.statistics dropped) := by
    refine ⟨attached.covers.numbered, attached.covers.positive, attached.covers.inside, ?_⟩
    have kept := attached.covers.kept
    unfold droppedAfter
    cases set : delta.statistics.pruningBoundary with
    | none => exact kept
    | some boundary =>
      have bounds := attached.boundary boundary set
      dsimp only
      omega
  refine ⟨⟨pruned, delta.dynamicFeeMultiplier, none⟩, _, ?_, ⟨⟨listed, covers, attached.priced⟩, fun _ => rfl, ?_⟩⟩
  · change node.withDelta _ = _
    unfold StatisticNode.withDelta
    rw [attachment]
    dsimp only
    rw [ran]
    rfl
  · intro _ none
    cases none

/-- An event that follows the chain succeeds and keeps the node faithful. -/
theorem Faithful.perform {ledger next : Ledger} {event : NodeEvent} (faithful : Faithful config node ledger dropped) (follows : Follows ledger event next)
    (positive : event.Observes → 0 < config.maxDifficultyBlocks.toNat) :
    ∃ following dropped', node.perform config event = .ok following ∧ Faithful config following next dropped' := by
  cases follows with
  | createDelta tip =>
    have unattached := faithful.unattached rfl
    refine ⟨_, dropped, ?_, faithful.with_delta faithful.stored.attach⟩
    unfold StatisticNode.perform
    rw [unattached]
  | execute committed tip statistic next =>
    obtain ⟨delta, attachment, attached⟩ := faithful.attached _ rfl
    obtain ⟨observed, ran, following⟩ := attached.execute next (positive trivial)
    refine ⟨_, dropped, ?_, faithful.with_delta following⟩
    change node.withDelta _ = _
    unfold StatisticNode.withDelta
    simp only [attachment, ran]
    rfl
  | undo committed chain finalized last above =>
    obtain ⟨delta, attachment, attached⟩ := faithful.attached _ rfl
    obtain ⟨observed, ran, following⟩ := attached.undo above (positive trivial)
    refine ⟨_, dropped, ?_, faithful.with_delta following⟩
    change node.withDelta _ = _
    unfold StatisticNode.withDelta
    simp only [attachment, ran]
    rfl
  | prune committed tip height inside =>
    obtain ⟨delta, attachment, attached⟩ := faithful.attached _ rfl
    refine ⟨_, dropped, ?_, faithful.with_delta (attached.prune inside)⟩
    change node.withDelta _ = _
    unfold StatisticNode.withDelta
    rw [attachment]
  | commit committed tip =>
    obtain ⟨delta, attachment, attached⟩ := faithful.attached _ rfl
    exact attached.commit faithful.stored.same attachment
  | discard committed pending =>
    refine ⟨_, dropped, rfl, ⟨faithful.stored.same, faithful.stored.covers, faithful.stored.priced⟩, fun _ => rfl, ?_⟩
    intro _ none
    cases none
  | restart committed pending batchSize filled =>
    obtain ⟨following, loaded, kept⟩ := load_eq filled faithful.stored.covers faithful.stored.priced
    refine ⟨following, dropped, ?_, kept⟩
    rw [← loaded, ← List.length_drop, ← faithful.stored.same]
    rfl
  | restartFromSummary committed tip batchSize filled =>
    obtain ⟨delta, attachment, attached⟩ := faithful.attached _ rfl
    obtain ⟨following, loaded, kept⟩ := load_eq filled attached.covers attached.priced
    refine ⟨following, dropped, ?_, kept⟩
    change node.withDelta _ = _
    unfold StatisticNode.withDelta saveSummary
    rw [attachment]
    dsimp only
    rw [attached.holds.shows.iterableStatistics_eq attached.holds.numberedBase attached.holds.numbered,
      attached.holds.shows.size_eq attached.holds.numberedBase attached.holds.numbered, ← loaded]
    rfl

theorem faithful_initial : Faithful config .initial ⟨⟨[], 1⟩, none⟩ 0 where
  stored := ⟨rfl, ⟨numbered_nil, Nat.le_refl _, Nat.le_refl _, .inl rfl⟩, fun nonempty => absurd rfl nonempty⟩
  unattached _ := rfl
  attached _ none := by cases none

/-- A node that follows its chains stays faithful to them. -/
theorem Reaches.faithful {ledger : Ledger} (reached : Reaches config node ledger) : ∃ dropped, Faithful config node ledger dropped := by
  induction reached with
  | initial => exact ⟨0, faithful_initial⟩
  | step _ follows performed ih =>
    obtain ⟨dropped, faithful⟩ := ih
    obtain ⟨following, dropped', ran, kept⟩ := faithful.perform follows fun observes => positive_of_observes observes performed
    cases performed.symm.trans ran
    exact ⟨dropped', kept⟩

end Steps

/-- The tips of a node with the fee multiplier and the statistics that it uses at them. -/
inductive Exposes (node : StatisticNode) (ledger : Ledger) :
    ChainTip → BlockFeeMultiplier → (Height → UInt64 → Except CacheError (List BlockStatistic)) → Prop
  | committed : Exposes node ledger ledger.committed node.dynamicFeeMultiplier (viewStatistics node.elements)
  | pending (tip : ChainTip) (delta : CatapultCacheDelta) (building : ledger.pending = some tip) (attachment : node.delta = some delta) :
      Exposes node ledger tip delta.dynamicFeeMultiplier delta.statistics.statistics

variable {config : StatisticConfiguration} {node : StatisticNode} {ledger : Ledger} {tip : ChainTip} {multiplier : BlockFeeMultiplier}
  {statistics : Height → UInt64 → Except CacheError (List BlockStatistic)}

/-- Both views read the last blocks of the tip. -/
theorem Reaches.exposed (reached : Reaches config node ledger) (exposes : Exposes node ledger tip multiplier statistics) (nonempty : tip.chain ≠ []) :
    IsUpperMedian UInt32.toNat (paddedMultipliers config tip.chain) multiplier ∧
      statistics (UInt64.ofNat tip.chain.length) config.maxDifficultyBlocks.toUInt64 =
        .ok (lastBlocks config.maxDifficultyBlocks.toNat tip.chain) := by
  obtain ⟨dropped, faithful⟩ := reached.faithful
  have read (covers : Covers config tip dropped) (priced : Priced config tip.chain multiplier)
      (reading : 0 < config.maxDifficultyBlocks.toUInt64.toNat → dropped < tip.chain.length →
        (dropped = 0 ∨ dropped + config.maxDifficultyBlocks.toUInt64.toNat ≤ tip.chain.length) →
        (UInt64.ofNat tip.chain.length).toNat = tip.chain.length → statistics (UInt64.ofNat tip.chain.length) config.maxDifficultyBlocks.toUInt64 =
          .ok (lastBlocks config.maxDifficultyBlocks.toUInt64.toNat tip.chain)) :
      IsUpperMedian UInt32.toNat (paddedMultipliers config tip.chain) multiplier ∧
        statistics (UInt64.ofNat tip.chain.length) config.maxDifficultyBlocks.toUInt64 =
          .ok (lastBlocks config.maxDifficultyBlocks.toNat tip.chain) := by
    have median := priced nonempty
    have positive := List.length_pos_of_mem median.mem
    rw [length_paddedMultipliers] at positive
    rw [UInt32.toNat_toUInt64] at reading
    have some := List.length_pos_iff.mpr nonempty
    have inside := covers.inside
    have kept := covers.kept
    have fits := covers.numbered.length_lt
    exact ⟨median, reading positive (by omega) (by omega) (UInt64.toNat_ofNat_of_lt' (by change _ < 2 ^ 64; omega))⟩
  cases exposes with
  | committed =>
    exact read faithful.stored.covers faithful.stored.priced fun positive some kept same =>
      viewStatistics_eq faithful.stored.covers.numbered faithful.stored.same same some positive kept
  | pending _ delta building attachment =>
    obtain ⟨delta', attachment', attached⟩ := faithful.attached tip building
    cases attachment.symm.trans attachment'
    exact read attached.covers attached.priced fun positive some kept same => attached.holds.statistics_eq same some positive kept

/-- At every tip the fee multiplier is the upper median and the statistics are the last blocks, however the tip was reached. -/
theorem dynamicFeeMultiplier_of_chain (config : StatisticConfiguration) :
    (∀ node ledger tip multiplier statistics, Reaches config node ledger → Exposes node ledger tip multiplier statistics → tip.chain ≠ [] →
      IsUpperMedian UInt32.toNat (paddedMultipliers config tip.chain) multiplier ∧
        statistics (UInt64.ofNat tip.chain.length) config.maxDifficultyBlocks.toUInt64 =
          .ok (lastBlocks config.maxDifficultyBlocks.toNat tip.chain)) ∧
      (∀ node ledger tip multiplier statistics node' ledger' tip' multiplier' statistics',
        Reaches config node ledger → Exposes node ledger tip multiplier statistics →
        Reaches config node' ledger' → Exposes node' ledger' tip' multiplier' statistics' → tip.chain ≠ [] → tip'.chain = tip.chain →
        multiplier' = multiplier ∧ statistics' (UInt64.ofNat tip.chain.length) config.maxDifficultyBlocks.toUInt64 =
            statistics (UInt64.ofNat tip.chain.length) config.maxDifficultyBlocks.toUInt64) ∧
      (0 < config.maxDifficultyBlocks.toNat → ∀ node ledger event next, Reaches config node ledger → Follows ledger event next →
        ∃ following, node.perform config event = .ok following ∧ Reaches config following next) := by
  refine ⟨fun node ledger tip multiplier statistics reached exposes nonempty => reached.exposed exposes nonempty, ?_, ?_⟩
  · intro node ledger tip multiplier statistics node' ledger' tip' multiplier' statistics' reached exposes reached' exposes' nonempty same
    obtain ⟨median, read⟩ := reached.exposed exposes nonempty
    obtain ⟨median', read'⟩ := reached'.exposed exposes' (same ▸ nonempty)
    rw [same] at median' read'
    exact ⟨UInt32.toNat.inj (median'.key_eq median), read'.trans read.symm⟩
  · intro positive node ledger event next reached follows
    obtain ⟨dropped, faithful⟩ := reached.faithful
    obtain ⟨following, _, performed, _⟩ := faithful.perform follows fun _ => positive
    exact ⟨following, performed, .step reached follows performed⟩

namespace Samples

/-- The statistics of two blocks decide the fee multiplier. -/
def shortHistory : StatisticConfiguration := ⟨2, 5⟩

/-- The third block is replaced, pruned and committed before a restart. -/
def replacedThird : List BlockStatistic := [⟨1, 0, .ofValue 0, 7⟩, ⟨2, 0, .ofValue 0, 3⟩, ⟨3, 0, .ofValue 0, 4⟩]

/-- The multiplier belongs to the blocks that remain. -/
theorem shortHistory_replacedThird : ∃ node, Reaches shortHistory node ⟨⟨replacedThird, 3⟩, none⟩ ∧
      IsUpperMedian UInt32.toNat (paddedMultipliers shortHistory replacedThird) node.dynamicFeeMultiplier := by
  have steps := (dynamicFeeMultiplier_of_chain shortHistory).2.2 (by decide)
  obtain ⟨_, _, created⟩ := steps _ _ _ _ .initial (.createDelta ⟨[], 1⟩)
  obtain ⟨_, _, first⟩ := steps _ _ _ _ created (.execute _ _ ⟨1, 0, .ofValue 0, 7⟩ rfl)
  obtain ⟨_, _, second⟩ := steps _ _ _ _ first (.execute _ _ ⟨2, 0, .ofValue 0, 3⟩ rfl)
  obtain ⟨_, _, third⟩ := steps _ _ _ _ second (.execute _ _ ⟨3, 0, .ofValue 0, 9⟩ rfl)
  obtain ⟨_, _, undone⟩ := steps _ _ _ _ third (.undo _ (replacedThird.take 2) 1 _ (by decide))
  obtain ⟨_, _, replaced⟩ := steps _ _ _ _ undone (.execute _ _ ⟨3, 0, .ofValue 0, 4⟩ rfl)
  obtain ⟨_, _, pruned⟩ := steps _ _ _ _ replaced (.prune _ _ 3 (by decide))
  obtain ⟨_, _, committed⟩ := steps _ _ _ _ pruned (.commit _ _)
  obtain ⟨node, _, restarted⟩ := steps _ _ _ _ committed (.restart _ none 1 Nat.one_pos)
  exact ⟨node, restarted,
    ((dynamicFeeMultiplier_of_chain shortHistory).1 _ _ _ _ _ restarted .committed (List.cons_ne_nil _ _)).1⟩

end Samples

end Catapult.Cache
