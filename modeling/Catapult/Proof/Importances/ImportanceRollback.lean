import Catapult.Proof.Importances.RecalculationRollback

/-
This file shows that the rollback of blocks restores the newest importances and activities of all accounts.
-/

namespace Catapult.Importances

open Reordering Runs State
open AccountActivityBuckets (Ordered)

section Accounts

variable {lost : Nat} {whole other changed : AccountState}

/-- A change of the other observers keeps the history. -/
theorem AccountChange.history (change : AccountChange) (ran : change.commitChange whole = .ok changed) :
    changed.importanceSnapshots = whole.importanceSnapshots ∧ changed.activityBuckets = whole.activityBuckets := by
  have natural := change.commit_withHistory whole whole.importanceSnapshots whole.activityBuckets
  rw [show withHistory whole whole.importanceSnapshots whole.activityBuckets = whole from rfl, ran] at natural
  have same : changed = withHistory changed whole.importanceSnapshots whole.activityBuckets := Except.ok.inj natural
  rw [same]
  exact ⟨rfl, rfl⟩

/-- A change of the other observers is undone next to the history. -/
theorem AccountChange.undone_agrees (change : AccountChange) (ran : change.commitChange whole = .ok changed) (agrees : AccountAgrees lost changed other) :
    ∃ restored, change.rollbackChange other = .ok restored ∧ AccountAgrees lost whole restored := by
  obtain ⟨snapshots, buckets⟩ := change.history ran
  refine ⟨withHistory whole other.importanceSnapshots other.activityBuckets, ?_, rfl, snapshots ▸ agrees.snapshots, buckets ▸ agrees.buckets⟩
  rw [agrees.same, change.rollback_withHistory, change.undone _ _ ran]
  rfl

/-- A change of the other observers is the same next to another history. -/
theorem AccountChange.commit_agrees (change : AccountChange) (ran : change.commitChange whole = .ok changed) (agrees : AccountAgrees lost whole other) :
    ∃ others, change.commitChange other = .ok others ∧ AccountAgrees lost changed others := by
  obtain ⟨snapshots, buckets⟩ := change.history ran
  refine ⟨withHistory changed other.importanceSnapshots other.activityBuckets, ?_, rfl, snapshots ▸ agrees.snapshots, buckets ▸ agrees.buckets⟩
  rw [agrees.same, change.commit_withHistory, ran]
  rfl

variable {importanceGrouping : UInt64} {height : Height}

theorem updateActivity_eq_ok {action : HeightDetachedActivityBucket → HeightDetachedActivityBucket} :
    updateActivity importanceGrouping height action whole = .ok changed ↔ ∃ importanceHeight updated activityBuckets,
      calculateGroupedHeight height importanceGrouping = .ok importanceHeight ∧
        AccountActivityBuckets.tryUpdate whole.activityBuckets importanceHeight action = .ok (updated, activityBuckets) ∧
        withHistory whole whole.importanceSnapshots activityBuckets = changed := by
  unfold updateActivity
  rw [bind_eq_ok]
  constructor
  · rintro ⟨importanceHeight, grouped, rest⟩
    obtain ⟨⟨updated, activityBuckets⟩, lifted, last⟩ := bind_eq_ok.mp rest
    refine ⟨importanceHeight, updated, activityBuckets, grouped, ?_, Except.ok.inj last⟩
    cases ran : AccountActivityBuckets.tryUpdate whole.activityBuckets importanceHeight action with
    | error failure =>
      rw [ran] at lifted
      cases lifted
    | ok result =>
      rw [ran] at lifted
      cases lifted
      rfl
  · rintro ⟨importanceHeight, updated, activityBuckets, grouped, ran, rfl⟩
    refine ⟨importanceHeight, grouped, bind_eq_ok.mpr ⟨(updated, activityBuckets), ?_, rfl⟩⟩
    rw [ran]
    rfl

/-- An activity is undone on an account that agrees with the updated one. -/
theorem updateActivity_undone (action : ActivityAction) (ran : updateActivity importanceGrouping height action.commitAction whole = .ok changed)
    (agrees : AccountAgrees lost changed other) (few : lost < activityBucketHistorySize) :
    ∃ restored, updateActivity importanceGrouping height action.rollbackAction other = .ok restored ∧ AccountAgrees lost whole restored := by
  obtain ⟨importanceHeight, updated, activityBuckets, grouped, updatedBuckets, rfl⟩ := updateActivity_eq_ok.mp ran
  obtain ⟨others, undone, same⟩ := AccountActivityBuckets.tryUpdate_undone action.undone updatedBuckets agrees.buckets few
  refine ⟨withHistory whole other.importanceSnapshots others, updateActivity_eq_ok.mpr ⟨importanceHeight, updated, others, grouped, undone, ?_⟩,
    rfl, agrees.snapshots, same⟩
  rw [agrees.same]
  rfl

/-- An activity is the same for accounts that agree. -/
theorem updateActivity_agrees {action : HeightDetachedActivityBucket → HeightDetachedActivityBucket}
    (ran : updateActivity importanceGrouping height action whole = .ok changed) (agrees : AccountAgrees lost whole other)
    (few : lost < activityBucketHistorySize) :
    ∃ others, updateActivity importanceGrouping height action other = .ok others ∧ AccountAgrees lost changed others := by
  obtain ⟨importanceHeight, updated, activityBuckets, grouped, updatedBuckets, rfl⟩ := updateActivity_eq_ok.mp ran
  obtain ⟨others, updatedOther, same⟩ := AccountActivityBuckets.tryUpdate_agrees agrees.buckets few updatedBuckets
  refine ⟨withHistory whole other.importanceSnapshots others, updateActivity_eq_ok.mpr ⟨importanceHeight, updated, others, grouped, updatedOther, ?_⟩,
    rfl, agrees.snapshots, same⟩
  rw [agrees.same]
  rfl

end Accounts

section Changes

variable {lost : Nat} {importanceGrouping : UInt64} {height : Height} {whole next other : Cache} {queued : List Address}

theorem changeExisting_eq_ok {address : Address} {change : AccountState → Except ImportanceError AccountState} :
    changeExisting whole address change = .ok next ↔ ∃ accountState changed,
      whole address = some accountState ∧ change accountState = .ok changed ∧ Function.update whole address (some changed) = next := by
  unfold changeExisting
  cases found : whole address with
  | none =>
    dsimp only
    constructor
    · intro failed
      cases failed
    · rintro ⟨_, _, impossible, _⟩
      cases impossible
  | some accountState =>
    dsimp only
    rw [bind_eq_ok]
    constructor
    · rintro ⟨changed, ran, last⟩
      exact ⟨accountState, changed, rfl, ran, Except.ok.inj last⟩
    · rintro ⟨_, changed, same, ran, rfl⟩
      cases same
      exact ⟨changed, ran, rfl⟩

/-- Accounts that a block has created are still there until the end of its rollback. -/
def Pending (lost : Nat) (height : Height) (whole other : Cache) (queued : List Address) : Prop :=
  ∀ address, Option.Rel (AccountAgrees lost) (whole address) (other address) ∨
    whole address = none ∧ address ∈ queued ∧ ∃ accountState, other address = some accountState ∧ accountState.addressHeight = height

/-- The account of a known address agrees. -/
theorem Pending.found (pending : Pending lost height whole other queued) {address : Address} {accountState : AccountState}
    (known : whole address = some accountState) : ∃ others, other address = some others ∧ AccountAgrees lost accountState others := by
  rcases pending address with related | ⟨absent, -⟩
  · exact rel_some_left.mp (known ▸ related)
  · cases known.symm.trans absent

/-- A change of an existing account is undone. -/
theorem Pending.undo {address : Address} {change undo : AccountState → Except ImportanceError AccountState}
    (pending : Pending lost height next other queued) (ran : changeExisting whole address change = .ok next)
    (undone : ∀ accountState changed others, change accountState = .ok changed → AccountAgrees lost changed others →
      ∃ restored, undo others = .ok restored ∧ AccountAgrees lost accountState restored) :
    ∃ restored, changeExisting other address undo = .ok restored ∧ Pending lost height whole restored queued := by
  obtain ⟨accountState, changed, found, changedAccount, rfl⟩ := changeExisting_eq_ok.mp ran
  obtain ⟨others, foundOther, agrees⟩ := pending.found (Function.update_self address (some changed) whole)
  obtain ⟨restored, undoneAccount, agreesRestored⟩ := undone _ _ _ changedAccount agrees
  refine ⟨_, changeExisting_eq_ok.mpr ⟨others, restored, foundOther, undoneAccount, rfl⟩, fun each => ?_⟩
  by_cases same : each = address
  · subst same
    rw [found, Function.update_self]
    exact .inl (.some agreesRestored)
  · have pendingEach := pending each
    rw [Function.update_of_ne same] at pendingEach ⊢
    exact pendingEach

/-- One change of a block is undone. -/
theorem BlockChange.rollback_commit (change : BlockChange) (few : lost < State.activityBucketHistorySize)
    (ran : change.commit importanceGrouping height whole = .ok next) (pending : Pending lost height next other queued) :
    ∃ restored, change.rollback importanceGrouping height (other, queued) = .ok restored ∧ Pending lost height whole restored.1 restored.2 := by
  cases change with
  | addAccount address =>
    cases ran
    refine ⟨_, rfl, fun each => ?_⟩
    have queuedEach : each ∈ queued → each ∈ queued ++ [address] := List.mem_append_left _
    by_cases added : each = address ∧ whole address = none
    · obtain ⟨rfl, absent⟩ := added
      have known : Importances.addAccount whole each height each = some (AccountState.create each height) := by
        rw [Importances.addAccount, absent]
        exact Function.update_self _ _ _
      obtain ⟨others, foundOther, agrees⟩ := pending.found known
      exact .inr ⟨absent, List.mem_append_right _ List.mem_cons_self, others, foundOther, agrees.addressHeight⟩
    · have kept : Importances.addAccount whole address height each = whole each := by
        unfold Importances.addAccount
        cases found : whole address with
        | none => exact Function.update_of_ne (fun same => added ⟨same, found⟩) _ _
        | some _ => rfl
      rcases pending each with related | ⟨absent, member, rest⟩
      · exact .inl (kept ▸ related)
      · exact .inr ⟨kept ▸ absent, queuedEach member, rest⟩
  | updateActivity address action =>
    obtain ⟨restored, undone, pendingRestored⟩ := pending.undo ran fun _ _ _ committed agrees =>
      updateActivity_undone action committed agrees few
    exact ⟨(restored, queued), bind_eq_ok.mpr ⟨restored, undone, rfl⟩, pendingRestored⟩
  | changeAccount address change =>
    obtain ⟨restored, undone, pendingRestored⟩ := pending.undo ran fun _ _ _ committed agrees => change.undone_agrees committed agrees
    exact ⟨(restored, queued), bind_eq_ok.mpr ⟨restored, undone, rfl⟩, pendingRestored⟩

/-- The changes of a block are undone in reverse order. -/
theorem rollback_changes {changes : List BlockChange} (few : lost < State.activityBucketHistorySize)
    (ran : changes.foldlM (BlockChange.commit importanceGrouping height) whole = .ok next) (pending : Pending lost height next other queued) :
    ∃ restored, changes.reverse.foldlM (BlockChange.rollback importanceGrouping height) (other, queued) = .ok restored ∧
      Pending lost height whole restored.1 restored.2 := by
  induction changes generalizing whole with
  | nil =>
    cases ran
    exact ⟨_, rfl, pending⟩
  | cons change changes ih =>
    obtain ⟨middle, committed, rest⟩ := bind_eq_ok.mp ((List.foldlM_cons ..).symm.trans ran)
    obtain ⟨later, undoneLater, pendingLater⟩ := ih rest
    obtain ⟨restored, undone, pendingRestored⟩ := change.rollback_commit few committed pendingLater
    refine ⟨restored, ?_, pendingRestored⟩
    rw [List.reverse_cons, List.foldlM_append]
    refine bind_eq_ok.mpr ⟨later, undoneLater, ?_⟩
    rw [List.foldlM_cons]
    exact bind_eq_ok.mpr ⟨restored, undone, rfl⟩

theorem remove_of_ne {address removed : Address} (different : address ≠ removed) : remove height whole removed address = whole address := by
  unfold remove
  cases whole removed with
  | none => rfl
  | some accountState =>
    dsimp only
    split
    · rfl
    · exact Function.update_of_ne different ..

/-- An account of another height is not removed. -/
theorem remove_of_older {address : Address} (older : ∀ accountState, whole address = some accountState → accountState.addressHeight ≠ height)
    (removed : Address) : remove height whole removed address = whole address := by
  by_cases same : address = removed
  · subst same
    unfold remove
    cases found : whole address with
    | none => exact found
    | some accountState =>
      dsimp only
      rw [if_pos (older accountState found).symm, found]
  · exact remove_of_ne same

theorem commitRemovals_of_older {address : Address} (older : ∀ accountState, whole address = some accountState → accountState.addressHeight ≠ height) :
    commitRemovals height queued whole address = whole address := by
  unfold commitRemovals
  induction queued generalizing whole with
  | nil => rfl
  | cons first queued ih =>
    have kept := remove_of_older older first
    rw [List.foldl_cons, ih (kept.symm ▸ older), kept]

/-- A queued account of the height is removed. -/
theorem commitRemovals_of_created {address : Address} {accountState : AccountState} (found : whole address = some accountState)
    (created : accountState.addressHeight = height) (member : address ∈ queued) : commitRemovals height queued whole address = none := by
  induction queued generalizing whole with
  | nil => exact absurd member List.not_mem_nil
  | cons first queued ih =>
    change commitRemovals height queued (remove height whole first) address = none
    by_cases same : address = first
    · subst same
      have gone : remove height whole address address = none := by
        unfold remove
        rw [found]
        dsimp only
        rw [if_neg (not_not.mpr created.symm), Function.update_self]
      refine (commitRemovals_of_older fun other foundOther => ?_).trans gone
      cases gone.symm.trans foundOther
    · exact ih ((remove_of_ne same).trans found) ((List.mem_cons.mp member).resolve_left same)

/-- Only the accounts that the block has created are removed. -/
theorem Pending.removed (pending : Pending lost height whole other queued)
    (older : ∀ address accountState, whole address = some accountState → accountState.addressHeight ≠ height) :
    CacheAgrees lost whole (commitRemovals height queued other) := by
  intro address
  rcases pending address with related | ⟨absent, member, accountState, found, created⟩
  · have kept : commitRemovals height queued other address = other address := by
      refine commitRemovals_of_older fun otherState found => ?_
      rw [found] at related
      obtain ⟨accountState, foundWhole, agrees⟩ := rel_some_right.mp related
      rw [agrees.addressHeight]
      exact older address accountState foundWhole
    rw [kept]
    exact related
  · rw [absent, commitRemovals_of_created found created member]
    exact .none

end Changes

section Soundness

variable {importanceGrouping : UInt64} {height : Height} {last : ImportanceHeight} {cache next : Cache}

/-- The account is not younger than the chain, and neither are its buckets. -/
structure Sound (last : ImportanceHeight) (height : Height) (accountState : AccountState) : Prop where
  ordered : Ordered last accountState.activityBuckets
  created : accountState.addressHeight ≤ height

def AllSound (last : ImportanceHeight) (height : Height) (cache : Cache) : Prop :=
  ∀ address accountState, cache address = some accountState → Sound last height accountState

theorem AllSound.ordered (sound : AllSound last height cache) : AllOrdered last cache :=
  fun address accountState found => (sound address accountState found).ordered

theorem AllSound.update (sound : AllSound last height cache) {address : Address} {accountState : AccountState} (own : Sound last height accountState) :
    AllSound last height (Function.update cache address (some accountState)) := by
  intro each other found
  by_cases same : each = address
  · rw [same, Function.update_self] at found
    cases found
    exact own
  · rw [Function.update_of_ne same] at found
    exact sound each other found

theorem Sound.update {accountState changed : AccountState} {action : HeightDetachedActivityBucket → HeightDetachedActivityBucket}
    (sound : Sound last height accountState) (ran : updateActivity importanceGrouping height action accountState = .ok changed) :
    Sound last height changed := by
  obtain ⟨importanceHeight, updated, activityBuckets, -, updatedBuckets, rfl⟩ := updateActivity_eq_ok.mp ran
  exact ⟨sound.ordered.tryUpdate updatedBuckets, sound.created⟩

/-- The changes of a block keep all accounts sound. -/
theorem BlockChange.commit_sound (change : BlockChange) (sound : AllSound last height cache)
    (ran : change.commit importanceGrouping height cache = .ok next) : AllSound last height next := by
  cases change with
  | addAccount address =>
    cases ran
    unfold Importances.addAccount
    cases cache address with
    | none => exact sound.update ⟨.empty, UInt64.le_refl _⟩
    | some _ => exact sound
  | updateActivity address action =>
    obtain ⟨accountState, changed, found, updated, rfl⟩ := changeExisting_eq_ok.mp ran
    exact sound.update ((sound address accountState found).update updated)
  | changeAccount address change =>
    obtain ⟨accountState, changed, found, committed, rfl⟩ := changeExisting_eq_ok.mp ran
    have own := sound address accountState found
    refine sound.update ⟨?_, ?_⟩
    · rw [(change.history committed).2]
      exact own.ordered
    · rw [change.addressHeight _ _ committed]
      exact own.created

/-- The changes of a block are the same for caches that agree. -/
theorem BlockChange.commit_agrees {lost : Nat} {other : Cache} (change : BlockChange) (agrees : CacheAgrees lost cache other)
    (few : lost < State.activityBucketHistorySize) (ran : change.commit importanceGrouping height cache = .ok next) :
    ∃ others, change.commit importanceGrouping height other = .ok others ∧ CacheAgrees lost next others := by
  cases change with
  | addAccount address =>
    cases ran
    refine ⟨_, rfl, ?_⟩
    have related := agrees address
    unfold Importances.addAccount
    cases found : other address with
    | none =>
      rw [found, rel_none_right] at related
      rw [related]
      exact agrees.update address ((AccountAgrees.refl _).mono (Nat.zero_le _))
    | some otherState =>
      rw [found] at related
      obtain ⟨accountState, foundOwn, -⟩ := rel_some_right.mp related
      rw [foundOwn]
      exact agrees
  | updateActivity address action =>
    obtain ⟨accountState, changed, found, updated, rfl⟩ := changeExisting_eq_ok.mp ran
    obtain ⟨otherState, foundOther, accounts⟩ := agrees.found found
    obtain ⟨otherChanged, updatedOther, accountsChanged⟩ := updateActivity_agrees updated accounts few
    exact ⟨_, changeExisting_eq_ok.mpr ⟨otherState, otherChanged, foundOther, updatedOther, rfl⟩, agrees.update address accountsChanged⟩
  | changeAccount address change =>
    obtain ⟨accountState, changed, found, committed, rfl⟩ := changeExisting_eq_ok.mp ran
    obtain ⟨otherState, foundOther, accounts⟩ := agrees.found found
    obtain ⟨otherChanged, committedOther, accountsChanged⟩ := change.commit_agrees committed accounts
    exact ⟨_, changeExisting_eq_ok.mpr ⟨otherState, otherChanged, foundOther, committedOther, rfl⟩, agrees.update address accountsChanged⟩

end Soundness

section Blocks

variable {config : BlockchainConfiguration} {block : Block} {height : Height} {state executed other : ObserverState} {lost : Nat}

/-- The importances were recalculated for the group of the next block. -/
structure Settled (config : BlockchainConfiguration) (height : Height) (state : ObserverState) : Prop where
  recalculated : calculateGroupedHeight (height + 1) config.importanceGrouping = .ok state.lastRecalculationHeight
  sound : AllSound state.lastRecalculationHeight height state.cache

/-- The states differ at most in the oldest history of their accounts. -/
structure StateAgrees (lost : Nat) (whole other : ObserverState) : Prop where
  cache : CacheAgrees lost whole.cache other.cache
  last : other.lastRecalculationHeight = whole.lastRecalculationHeight

/-- The importances of the next block differ from those of the block. -/
def crosses (config : BlockchainConfiguration) (block : Block) : Bool :=
  (calculateGroupedHeight (block.height + 1) config.importanceGrouping).toOption ≠ (calculateGroupedHeight block.height config.importanceGrouping).toOption

theorem groupedHeight_le {grouping : UInt64} {first second : ImportanceHeight} (positive : height ≠ 0)
    (current : calculateGroupedHeight height grouping = .ok first) (next : calculateGroupedHeight (height + 1) grouping = .ok second) : first ≤ second := by
  unfold calculateGroupedHeight at current next
  by_cases zero : grouping = 0
  · rw [if_pos zero] at current
    cases current
  · rw [if_neg zero, Except.ok.injEq] at current next
    rw [← current, ← next, UInt64.add_sub_cancel]
    have grows : (height - 1) / grouping * grouping ≤ height / grouping * grouping := by
      have predecessor : (height - 1).toNat ≤ height.toNat := by
        have some : height.toNat ≠ 0 := fun zero => positive (UInt64.toNat_inj.mp zero)
        have one : (1 : UInt64) ≤ height := UInt64.le_iff_toNat_le.mpr (Nat.one_le_iff_ne_zero.mpr some)
        rw [UInt64.toNat_sub_of_le _ _ one]
        exact Nat.sub_le _ _
      have bounded : ∀ value : UInt64, (value / grouping * grouping).toNat = value.toNat / grouping.toNat * grouping.toNat := fun value => by
        rw [UInt64.toNat_mul, UInt64.toNat_div]
        exact Nat.mod_eq_of_lt ((Nat.div_mul_le_self _ _).trans_lt value.toNat_lt)
      rw [UInt64.le_iff_toNat_le, bounded, bounded]
      exact Nat.mul_le_mul_right _ (Nat.div_le_div_right predecessor)
    by_cases small : height / grouping * grouping < 1
    · rw [if_pos small, if_pos (UInt64.lt_of_le_of_lt grows small)]
    · rw [if_neg small]
      split
      · exact UInt64.not_lt.mp small
      · exact grows

theorem executeBlock_cases (ran : executeBlock config block state = .ok executed) : ∃ cache importanceHeight,
    block.changes.foldlM (BlockChange.commit config.importanceGrouping block.height) state.cache = .ok cache ∧
      calculateGroupedHeight (block.height + 1) config.importanceGrouping = .ok importanceHeight ∧
      (importanceHeight = state.lastRecalculationHeight ∧ executed = ⟨cache, importanceHeight⟩ ∨
        importanceHeight ≠ state.lastRecalculationHeight ∧ ∃ next forgotten,
          recalculate config importanceHeight block.highValueAddresses block.removedAddresses cache = .ok (next, forgotten) ∧
            executed = ⟨next, importanceHeight⟩) := by
  obtain ⟨cache, changed, ran⟩ := bind_eq_ok.mp ran
  unfold recalculateOnCommit at ran
  obtain ⟨importanceHeight, grouped, ran⟩ := bind_eq_ok.mp ran
  refine ⟨cache, importanceHeight, changed, grouped, ?_⟩
  dsimp only at ran
  by_cases same : importanceHeight = state.lastRecalculationHeight
  · rw [if_pos same] at ran
    cases ran
    exact .inl ⟨same, same ▸ rfl⟩
  · rw [if_neg same] at ran
    obtain ⟨⟨next, forgotten⟩, recalculated, ran⟩ := bind_eq_ok.mp ran
    exact .inr ⟨same, next, forgotten, recalculated, (Except.ok.inj ran).symm⟩

/-- The changes of a block keep all accounts sound. -/
theorem commitAll_sound {changes : List BlockChange} {last : ImportanceHeight} {cache next : Cache} (sound : AllSound last height cache)
    (ran : changes.foldlM (BlockChange.commit config.importanceGrouping height) cache = .ok next) : AllSound last height next :=
  Runs.always (fun _ change _ sound ran => change.commit_sound sound ran) sound ran

/-- The changes of the next block find sound accounts. -/
theorem Settled.next (settled : Settled config height state) (follows : block.height = height + 1) (positive : block.height ≠ 0) :
    AllSound state.lastRecalculationHeight block.height state.cache ∧
      ∀ address accountState, state.cache address = some accountState → accountState.addressHeight ≠ block.height := by
  have less : height < block.height := by
    have same : block.height.toNat = (height.toNat + 1) % 2 ^ 64 := by
      rw [follows, UInt64.toNat_add]
      rfl
    have some : block.height.toNat ≠ 0 := fun zero => positive (UInt64.toNat_inj.mp zero)
    have limit := height.toNat_lt
    exact UInt64.lt_iff_toNat_lt.mpr (by omega)
  constructor
  · intro address accountState found
    have own := settled.sound address accountState found
    exact ⟨own.ordered, UInt64.le_of_lt (UInt64.lt_of_le_of_lt own.created less)⟩
  · intro address accountState found same
    exact UInt64.not_lt.mpr (settled.sound address accountState found).created (same ▸ less)

theorem AllPushed.sound {importanceHeight last : ImportanceHeight} {addresses : List Address} {cache next : Cache}
    (pushed : AllPushed importanceHeight addresses cache next) (later : last < importanceHeight) (sound : AllSound last height cache) :
    AllSound importanceHeight height next := by
  intro address after found
  refine ⟨pushed.ordered later sound.ordered address after found, ?_⟩
  obtain ⟨before, foundBefore, ⟨snapshot, bucket, -, rfl⟩ | rfl⟩ := pushed.origin found
  · exact (sound address before foundBefore).created
  · exact (sound address after foundBefore).created

/-- The first block settles the empty state. -/
theorem settled_nemesis (first : block.height = 1) (ran : executeBlock config block ⟨fun _ => none, 0⟩ = .ok executed) :
    Settled config 1 executed := by
  obtain ⟨cache, importanceHeight, changed, grouped, outcome⟩ := executeBlock_cases ran
  have empty : AllSound 0 block.height fun _ => none := by
    intro address accountState found
    cases found
  have sound := commitAll_sound empty changed
  rw [first] at grouped sound
  obtain ⟨same, rfl⟩ | ⟨different, next, forgotten, recalculated, rfl⟩ := outcome
  · exact ⟨grouped, same ▸ sound⟩
  · have later : 0 < importanceHeight := UInt64.pos_iff_ne_zero.mpr different
    exact ⟨grouped, (recalculate_pushes sound.ordered later block.distinct recalculated).sound later sound⟩

/-- A recalculation is for a later group. -/
theorem Settled.later (settled : Settled config height state) (follows : block.height = height + 1) (positive : block.height ≠ 0)
    {importanceHeight : ImportanceHeight} (grouped : calculateGroupedHeight (block.height + 1) config.importanceGrouping = .ok importanceHeight)
    (different : importanceHeight ≠ state.lastRecalculationHeight) : state.lastRecalculationHeight < importanceHeight := by
  have current := settled.recalculated
  rw [← follows] at current
  exact UInt64.lt_of_le_of_ne (groupedHeight_le positive current grouped) different.symm

/-- The execution of a block settles the state at its height. -/
theorem Settled.execute (settled : Settled config height state) (follows : block.height = height + 1) (positive : block.height ≠ 0)
    (ran : executeBlock config block state = .ok executed) : Settled config block.height executed := by
  obtain ⟨cache, importanceHeight, changed, grouped, ⟨same, rfl⟩ | ⟨different, next, forgotten, recalculated, rfl⟩⟩ := executeBlock_cases ran
  · exact ⟨grouped, same ▸ commitAll_sound (settled.next follows positive).1 changed⟩
  · have later := settled.later follows positive grouped different
    have sound := commitAll_sound (settled.next follows positive).1 changed
    exact ⟨grouped, (recalculate_pushes sound.ordered later block.distinct recalculated).sound later sound⟩

/-- The importances are recalculated exactly if the block crosses into another group. -/
theorem Settled.crosses_iff (settled : Settled config height state) (follows : block.height = height + 1) {importanceHeight : ImportanceHeight}
    (grouped : calculateGroupedHeight (block.height + 1) config.importanceGrouping = .ok importanceHeight) :
    crosses config block = true ↔ importanceHeight ≠ state.lastRecalculationHeight := by
  have current := settled.recalculated
  rw [← follows] at current
  unfold crosses
  rw [grouped, current, decide_eq_true_iff]
  exact not_congr Option.some_inj

/-- The rollback of a block undoes its execution, and each recalculation may lose the oldest history. -/
theorem Settled.rollbackBlock_agrees (settled : Settled config height state) (follows : block.height = height + 1) (positive : block.height ≠ 0)
    (ran : executeBlock config block state = .ok executed) (agrees : StateAgrees lost executed other)
    (few : lost + (crosses config block).toNat ≤ rollbackBufferSize) :
    ∃ restored, rollbackBlock config block other = .ok restored ∧ StateAgrees (lost + (crosses config block).toNat) state restored := by
  obtain ⟨cache, importanceHeight, changed, grouped, outcome⟩ := executeBlock_cases ran
  have current := settled.recalculated
  rw [← follows] at current
  have crossed := settled.crosses_iff follows grouped
  -- The recalculation is undone first.
  have undone : ∃ restored, recalculateOnRollback config block other = .ok restored ∧
      StateAgrees (lost + (crosses config block).toNat) ⟨cache, state.lastRecalculationHeight⟩ restored := by
    unfold recalculateOnRollback
    obtain ⟨same, rfl⟩ | ⟨different, next, forgotten, recalculated, rfl⟩ := outcome
    · rw [Bool.eq_false_iff.mpr (mt crossed.mp (not_not.mpr same))]
      refine ⟨other, bind_eq_ok.mpr ⟨_, current, if_pos ?_⟩, agrees.cache, agrees.last.trans same⟩
      exact same.symm.trans agrees.last.symm
    · have apart : state.lastRecalculationHeight ≠ other.lastRecalculationHeight := fun same => different (agrees.last.symm.trans same.symm)
      rw [crossed.mpr different] at few ⊢
      have later := settled.later follows positive grouped different
      have pushed := recalculate_pushes (commitAll_sound (settled.next follows positive).1 changed).ordered later block.distinct recalculated
      obtain ⟨restored, ranRestore, agreesRestored⟩ := restore_agrees pushed block.distinct agrees.cache (Nat.lt_succ_of_lt (Nat.lt_of_succ_le few))
      refine ⟨⟨restored, _⟩, bind_eq_ok.mpr ⟨_, current, ?_⟩, agreesRestored, rfl⟩
      rw [if_neg apart]
      exact bind_eq_ok.mpr ⟨restored, ranRestore, rfl⟩
  obtain ⟨restored, ranRestored, agreesRestored⟩ := undone
  have pending : Pending (lost + (crosses config block).toNat) block.height cache restored.cache [] := fun address => .inl (agreesRestored.cache address)
  obtain ⟨⟨cacheRestored, queued⟩, ranChanges, pendingRestored⟩ := rollback_changes (Nat.lt_of_le_of_lt few (by decide)) changed pending
  refine ⟨_, bind_eq_ok.mpr ⟨restored, ranRestored, bind_eq_ok.mpr ⟨_, ranChanges, rfl⟩⟩, ?_, agreesRestored.last⟩
  exact pendingRestored.removed (settled.next follows positive).2

/-- The execution of a block is the same for states that agree. -/
theorem Settled.executeBlock_agrees (settled : Settled config height state) (follows : block.height = height + 1) (positive : block.height ≠ 0)
    (ran : executeBlock config block state = .ok executed) (agrees : StateAgrees lost state other) (few : lost ≤ rollbackBufferSize) :
    ∃ otherExecuted, executeBlock config block other = .ok otherExecuted ∧ StateAgrees lost executed otherExecuted := by
  obtain ⟨cache, importanceHeight, changed, grouped, outcome⟩ := executeBlock_cases ran
  have each : ∀ (cache other : Cache) (change otherChange : BlockChange) (next : Cache), CacheAgrees lost cache other → change = otherChange →
      change.commit config.importanceGrouping block.height cache = .ok next →
        ∃ otherNext, otherChange.commit config.importanceGrouping block.height other = .ok otherNext ∧ CacheAgrees lost next otherNext := by
    rintro cache other change _ next agrees rfl ran
    exact change.commit_agrees agrees (Nat.lt_of_le_of_lt few (by decide)) ran
  obtain ⟨otherCache, changedOther, agreesChanged⟩ := foldlM_simulates each (List.forall₂_refl _) agrees.cache changed
  obtain ⟨same, rfl⟩ | ⟨different, next, forgotten, recalculated, rfl⟩ := outcome
  · refine ⟨_, bind_eq_ok.mpr ⟨otherCache, changedOther, bind_eq_ok.mpr ⟨importanceHeight, grouped, if_pos ?_⟩⟩, agreesChanged, agrees.last.trans same.symm⟩
    exact same.trans agrees.last.symm
  · have later := settled.later follows positive grouped different
    have sound := commitAll_sound (settled.next follows positive).1 changed
    obtain ⟨⟨otherNext, otherForgotten⟩, recalculatedOther, agreesNext⟩ :=
      recalculate_agrees sound.ordered later block.distinct agreesChanged few recalculated
    refine ⟨⟨otherNext, importanceHeight⟩, bind_eq_ok.mpr ⟨otherCache, changedOther, bind_eq_ok.mpr ⟨importanceHeight, grouped, ?_⟩⟩, agreesNext, rfl⟩
    rw [if_neg (agrees.last ▸ different)]
    exact bind_eq_ok.mpr ⟨_, recalculatedOther, rfl⟩

end Blocks

variable {config : BlockchainConfiguration}

/-- The heights of the blocks follow the height of the chain without an overflow. -/
def Follows : Height → List Block → Prop
  | _, [] => True
  | height, block :: blocks => block.height = height + 1 ∧ block.height ≠ 0 ∧ Follows block.height blocks

/-- The height of the chain after a run of blocks. -/
def lastHeight (height : Height) (blocks : List Block) : Height := blocks.foldl (fun _ block => block.height) height

/-- The number of recalculations in a run of blocks. -/
def crossings (config : BlockchainConfiguration) (blocks : List Block) : Nat := (blocks.map fun block => (crosses config block).toNat).sum

theorem crossings_cons (block : Block) (blocks : List Block) :
    crossings config (block :: blocks) = (crosses config block).toNat + crossings config blocks := List.sum_cons

/-- Every run of blocks settles the state. -/
theorem Settled.executeBlocks {blocks : List Block} {height : Height} {state executed : ObserverState} (settled : Settled config height state)
    (follows : Follows height blocks) (ran : Importances.executeBlocks config state blocks = .ok executed) :
    Settled config (lastHeight height blocks) executed := by
  induction blocks generalizing height state with
  | nil =>
    cases ran
    exact settled
  | cons block blocks ih =>
    obtain ⟨own, positive, rest⟩ := follows
    obtain ⟨next, executedBlock, ran⟩ := bind_eq_ok.mp ((List.foldlM_cons ..).symm.trans ran)
    exact ih (settled.execute own positive executedBlock) rest ran

/-- The rollback of a run of blocks undoes it, and each recalculation may lose the oldest history. -/
theorem rollbackBlocks_agrees {blocks : List Block} {height : Height} {state executed : ObserverState} (settled : Settled config height state)
    (follows : Follows height blocks) (ran : executeBlocks config state blocks = .ok executed) (few : crossings config blocks ≤ rollbackBufferSize) :
    ∃ restored, rollbackBlocks config executed blocks = .ok restored ∧ StateAgrees (crossings config blocks) state restored := by
  induction blocks generalizing height state with
  | nil =>
    cases ran
    exact ⟨_, rfl, .refl _, rfl⟩
  | cons block blocks ih =>
    obtain ⟨own, positive, rest⟩ := follows
    rw [crossings_cons] at few ⊢
    obtain ⟨next, executedBlock, ran⟩ := bind_eq_ok.mp ((List.foldlM_cons ..).symm.trans ran)
    obtain ⟨later, rolledBack, agrees⟩ := ih (settled.execute own positive executedBlock) rest ran (by omega)
    obtain ⟨restored, rolledBackBlock, agreesRestored⟩ := settled.rollbackBlock_agrees own positive executedBlock agrees (by omega)
    refine ⟨restored, ?_, Nat.add_comm _ _ ▸ agreesRestored⟩
    unfold rollbackBlocks
    rw [List.reverse_cons, List.foldlM_append]
    exact bind_eq_ok.mpr ⟨later, rolledBack, (List.foldlM_cons ..).trans (bind_eq_ok.mpr ⟨restored, rolledBackBlock, rfl⟩)⟩

/-- A run of blocks is the same for states that agree. -/
theorem executeBlocks_agrees {blocks : List Block} {height : Height} {state executed other : ObserverState} {lost : Nat}
    (settled : Settled config height state) (follows : Follows height blocks) (ran : executeBlocks config state blocks = .ok executed)
    (agrees : StateAgrees lost state other) (few : lost ≤ rollbackBufferSize) :
    ∃ otherExecuted, executeBlocks config other blocks = .ok otherExecuted ∧ StateAgrees lost executed otherExecuted := by
  induction blocks generalizing height state other with
  | nil =>
    cases ran
    exact ⟨other, rfl, agrees⟩
  | cons block blocks ih =>
    obtain ⟨own, positive, rest⟩ := follows
    obtain ⟨next, executedBlock, ran⟩ := bind_eq_ok.mp ((List.foldlM_cons ..).symm.trans ran)
    obtain ⟨otherNext, executedOther, agreesNext⟩ := settled.executeBlock_agrees own positive executedBlock agrees few
    obtain ⟨otherExecuted, ranOther, agreesExecuted⟩ := ih (settled.execute own positive executedBlock) rest ran agreesNext
    exact ⟨otherExecuted, (List.foldlM_cons ..).trans (bind_eq_ok.mpr ⟨otherNext, executedOther, ranOther⟩), agreesExecuted⟩

/-- A state that agrees with a settled state is settled. -/
theorem Settled.agrees {height : Height} {state other : ObserverState} {lost : Nat} (settled : Settled config height state)
    (agrees : StateAgrees lost state other) : Settled config height other := by
  refine ⟨agrees.last ▸ settled.recalculated, fun address otherState found => ?_⟩
  obtain ⟨accountState, foundOwn, accounts⟩ := agrees.cache.found_other found
  have own := settled.sound address accountState foundOwn
  rw [agrees.last]
  exact ⟨own.ordered.agrees accounts.buckets, accounts.addressHeight ▸ own.created⟩

/-- The account is the same but for the oldest values of its history. -/
structure HistoryRestored (lost : Nat) (before after : AccountState) : Prop where
  same : after = withHistory before after.importanceSnapshots after.activityBuckets
  snapshots : after.importanceSnapshots.toList.take (importanceHistorySize - lost) = before.importanceSnapshots.toList.take (importanceHistorySize - lost)
  buckets : after.activityBuckets.toList.take (activityBucketHistorySize - lost) = before.activityBuckets.toList.take (activityBucketHistorySize - lost)

theorem CacheAgrees.restored {cache others : Cache} {lost : Nat} (agrees : CacheAgrees lost cache others) (address : Address) :
    Option.Rel (HistoryRestored lost) (cache address) (others address) := by
  have related := agrees address
  generalize cache address = account at related ⊢
  generalize others address = other at related ⊢
  cases related with
  | none => exact .none
  | some accounts => exact .some ⟨accounts.same, accounts.snapshots.newest, accounts.buckets.newest⟩

/-- The rollback of blocks raises no error, restores the newest history of all accounts, and the blocks can be executed again with the same importances. -/
theorem importances_rolledBack (config : BlockchainConfiguration) (blocks : List Block) {height : Height} {state executed : ObserverState}
    (settled : Settled config height state) (follows : Follows height blocks) (ran : executeBlocks config state blocks = .ok executed)
    (few : crossings config blocks ≤ rollbackBufferSize) :
    Settled config (lastHeight height blocks) executed ∧ ∃ restored, rollbackBlocks config executed blocks = .ok restored ∧
      Settled config height restored ∧ restored.lastRecalculationHeight = state.lastRecalculationHeight ∧
      (∀ address, Option.Rel (HistoryRestored (crossings config blocks)) (state.cache address) (restored.cache address)) ∧
      ∃ again, executeBlocks config restored blocks = .ok again ∧ again.lastRecalculationHeight = executed.lastRecalculationHeight ∧
        ∀ address, Option.Rel (HistoryRestored (crossings config blocks)) (executed.cache address) (again.cache address) := by
  obtain ⟨restored, rolledBack, agrees⟩ := rollbackBlocks_agrees settled follows ran few
  obtain ⟨again, ranAgain, agreesAgain⟩ := executeBlocks_agrees settled follows ran agrees few
  exact ⟨settled.executeBlocks follows ran, restored, rolledBack, settled.agrees agrees, agrees.last, agrees.cache.restored,
    again, ranAgain, agreesAgain.last, agreesAgain.cache.restored⟩

namespace Samples

theorem apart : ([alice] ++ [bob]).Nodup := by decide

theorem alone : ([alice] ++ []).Nodup := List.nodup_singleton alice

/-- Alice pays a fee and stays, and Bob leaves the high value accounts. -/
def leavingBlock : Block := ⟨100, [.updateActivity alice (transactionFeeActivity 7)], [alice], [bob], apart⟩

def throwingBlock : Block := ⟨100, [], [alice], [], alone⟩

def nemesisBlock : Block := ⟨1, [], [], [], List.nodup_nil⟩

def genesis : ObserverState := ⟨fun _ => none, 0⟩

theorem account_sound (address : Address) (balance fees : Amount) : Sound 1 99 (account address balance fees) :=
  ⟨⟨fun _ member => List.eq_of_mem_singleton member ▸ UInt64.le_refl 1, List.pairwise_singleton _ _⟩, UInt64.le_iff_toNat_le.mpr (show 1 ≤ 99 by decide)⟩

theorem settled (fees : Amount) : Settled sampleConfig 99 ⟨cache fees, 1⟩ := by
  refine ⟨rfl, fun address accountState found => ?_⟩
  change cache fees address = some accountState at found
  unfold cache at found
  split at found
  · cases found
    exact account_sound _ _ _
  · split at found
    · cases found
      exact account_sound _ _ _
    · cases found

theorem executed_leaving : ∃ executed, executeBlocks sampleConfig ⟨cache 10, 1⟩ [leavingBlock] = .ok executed := ⟨_, rfl⟩

/-- The rollback of the leaving block returns to the first recalculation. -/
theorem rollback_leaving : ∃ executed restored, executeBlocks sampleConfig ⟨cache 10, 1⟩ [leavingBlock] = .ok executed ∧
    rollbackBlocks sampleConfig executed [leavingBlock] = .ok restored ∧ restored.lastRecalculationHeight = 1 := by
  obtain ⟨executed, ran⟩ := executed_leaving
  obtain ⟨_, restored, rolledBack, _, last, _⟩ :=
    importances_rolledBack sampleConfig [leavingBlock] (settled 10) ⟨rfl, by decide, trivial⟩ ran (by decide)
  exact ⟨executed, restored, ran, rolledBack, last⟩

/-- A calculation can throw, and the rollback of the first block leaves its height behind. -/
theorem rollback_genesis : executeBlocks sampleConfig ⟨cache 0x2000000000000000, 1⟩ [throwingBlock] = .error .divisionByZero ∧
    ∃ executed restored, executeBlocks sampleConfig genesis [nemesisBlock] = .ok executed ∧
      rollbackBlocks sampleConfig executed [nemesisBlock] = .ok restored ∧ restored.lastRecalculationHeight ≠ genesis.lastRecalculationHeight :=
  ⟨rfl, _, _, rfl, rfl, by decide⟩

end Samples

end Catapult.Importances
