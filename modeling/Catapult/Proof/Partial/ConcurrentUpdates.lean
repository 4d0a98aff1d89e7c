import Catapult.Construction.Partial.PtUpdater
import Catapult.Proof.Partial.CacheAccounting

/-
This file determines when concurrent updates of partial transactions lose no cosignature and no transaction.
-/

namespace Catapult.Partial

open Unconfirmed (Timestamp)

section Lookups

variable {cache next : MemoryPtCache} {data : PtData}

/-- All entries were there before. -/
def Shrinks (cache next : MemoryPtCache) : Prop := ∀ hash data, next.find hash = some data → cache.find hash = some data

theorem find_add {transactionInfo : DetachedTransactionInfo} (added : cache.add transactionInfo = some next) (hash : Hash256) :
    next.find hash = if hash = transactionInfo.entityHash then some (.create transactionInfo) else cache.find hash := by
  obtain ⟨-, absent, rfl⟩ := add_cases added
  change (cache.transactionDataContainer.insert (.create transactionInfo)).find hash = _
  rw [KeyedSet.find_insert]
  change (if hash = transactionInfo.entityHash then some ((cache.find hash).getD _) else cache.find hash) = _
  split
  · next same => rw [same, absent]; rfl
  · rfl

theorem shrinks_removeEntry : Shrinks cache (cache.removeEntry data) := by
  intro hash other found
  rw [find_removeEntry] at found
  split at found
  · cases found
  · exact found

theorem shrinks_remove (hash : Hash256) : Shrinks cache (((cache.remove hash).map Prod.snd).getD cache) := by
  unfold MemoryPtCache.remove
  cases cache.find hash with
  | none => exact fun _ _ found => found
  | some data => exact shrinks_removeEntry

theorem shrinks_prunedTo {timestamp : Timestamp} (pruned : PrunedTo timestamp cache next) : Shrinks cache next := by
  intro hash data found
  rw [pruned.2] at found
  exact (Option.filter_eq_some_iff.mp found).1

theorem shrinks_prunePredicate (cache : MemoryPtCache) (hashPredicate : Hash256 → Bool) :
    Shrinks cache (cache.prunePredicate hashPredicate).2 := by
  have general : ∀ (entries : List PtData) (prunedInfos : List DetachedTransactionInfo) (current : MemoryPtCache),
      Shrinks cache current → Shrinks cache (entries.foldl (fun state data =>
        if hashPredicate data.entityHash then (state.1 ++ [data.transactionInfo], state.2.removeEntry data)
        else (state.1, state.2)) (prunedInfos, current)).2 := by
    intro entries
    induction entries with
    | nil => exact fun _ _ shrinks => shrinks
    | cons data entries ih =>
      intro prunedInfos current shrinks
      rw [List.foldl_cons]
      dsimp only
      split
      · exact ih _ _ fun hash other found => shrinks hash other (shrinks_removeEntry hash other found)
      · exact ih _ _ shrinks
  exact general _ [] cache fun _ _ found => found

variable [Sha3]

theorem find_addCosignature {parentHash : Hash256} {cosignature : Cosignature} {info : DetachedTransactionInfo}
    (added : cache.addCosignature parentHash cosignature = some (info, next)) :
    ∃ data changed, cache.find parentHash = some data ∧ changed.cosignatures.Perm (cosignature :: data.cosignatures) ∧
      ∀ hash, next.find hash = if hash = parentHash then some changed else cache.find hash := by
  obtain ⟨data, changed, found, accepted, rfl, -, rfl⟩ := addCosignature_cases added
  exact ⟨data, changed, found, (add_cosignature_cases accepted).2.2.1, find_replace found⟩

theorem Accounted.remove (accounted : Accounted cache) (hash : Hash256) :
    Accounted (((cache.remove hash).map Prod.snd).getD cache) := by
  unfold MemoryPtCache.remove
  cases found : cache.find hash with
  | none => exact accounted
  | some data => exact accounted.removeEntry (mem_of_find found).1

end Lookups

section Refreshing

variable [Sha3] {cache : MemoryPtCache} {hash : Hash256} {data : PtData}

/-- Cosignatures are added one after the other. -/
def withCosignatures (cache : MemoryPtCache) (hash : Hash256) (cosignatures : List Cosignature) : MemoryPtCache :=
  cosignatures.foldl (fun cache cosignature => ((cache.addCosignature hash cosignature).map Prod.snd).getD cache) cache

theorem withCosignatures_missing (missing : cache.find hash = none) (cosignatures : List Cosignature) :
    withCosignatures cache hash cosignatures = cache := by
  induction cosignatures with
  | nil => rfl
  | cons cosignature cosignatures ih =>
    have refused : cache.addCosignature hash cosignature = none := by
      rw [MemoryPtCache.addCosignature, missing]
    rw [withCosignatures, List.foldl_cons, refused]
    exact ih

/-- Cosignatures with new and distinct signers are all added. -/
theorem Accounted.addAll (accounted : Accounted cache) (found : cache.find hash = some data)
    {cosignatures : List Cosignature} (sorted : Sorted cosignatures)
    (new : ∀ cosignature ∈ cosignatures, ∀ other ∈ data.cosignatures, other.signerPublicKey ≠ cosignature.signerPublicKey) :
    Accounted (withCosignatures cache hash cosignatures) ∧
      (∀ other, other ≠ hash → (withCosignatures cache hash cosignatures).find other = cache.find other) ∧
      ∃ changed, (withCosignatures cache hash cosignatures).find hash = some changed ∧
        ∀ cosignature, cosignature ∈ changed.cosignatures ↔ cosignature ∈ data.cosignatures ∨ cosignature ∈ cosignatures := by
  induction cosignatures generalizing cache data with
  | nil => exact ⟨accounted, fun _ _ => rfl, data, found, fun _ => by simp⟩
  | cons cosignature cosignatures ih =>
    obtain ⟨below, rest⟩ := List.pairwise_cons.mp sorted
    have absent : ¬ data.hasCosignatory cosignature.signerPublicKey := by
      rw [hasCosignatory_iff]
      rintro ⟨other, member, same⟩
      exact new cosignature List.mem_cons_self other member same
    obtain ⟨changed, accepted⟩ : ∃ changed, data.add cosignature = some changed := ⟨_, if_neg absent⟩
    obtain ⟨info, next, added⟩ : ∃ info next, cache.addCosignature hash cosignature = some (info, next) := by
      rw [MemoryPtCache.addCosignature, found]
      dsimp only
      rw [accepted]
      exact ⟨_, _, rfl⟩
    obtain ⟨other, changed, foundOther, perm, finds⟩ := find_addCosignature added
    obtain rfl := Option.some.inj (found.symm.trans foundOther)
    have unfolded : withCosignatures cache hash (cosignature :: cosignatures) = withCosignatures next hash cosignatures := by
      rw [withCosignatures, List.foldl_cons, added]
      rfl
    have newRest : ∀ later ∈ cosignatures, ∀ other ∈ changed.cosignatures, other.signerPublicKey ≠ later.signerPublicKey := by
      intro later member other inside
      rcases List.mem_cons.mp (perm.mem_iff.mp inside) with rfl | old
      · exact (below later member).ne
      · exact new later (List.mem_cons_of_mem _ member) other old
    obtain ⟨kept, others, final, foundFinal, members⟩ :=
      ih (accounted.addCosignature added) (by rw [finds, if_pos rfl]) rest newRest
    rw [unfolded]
    refine ⟨kept, fun other different => ?_, final, foundFinal, fun single => ?_⟩
    · rw [others other different, finds, if_neg different]
    · rw [members, perm.mem_iff, List.mem_cons, List.mem_cons]
      tauto

/-- The space after an entry is removed decides if the entry is added again. -/
def Readmitted (cache : MemoryPtCache) (data : PtData) : Prop :=
  ¬ cache.maxCacheSize - (cache.cacheSize - data.numBytes) < data.transactionInfo.entity.size.toUInt64

/-- What a refresh does to an entry and to the others. -/
theorem Accounted.refresh (accounted : Accounted cache) {stale : StaleTransactionInfo}
    (found : cache.find stale.aggregateHash = some data) (sorted : Sorted stale.eligibleCosignatures) :
    Accounted (refreshStaleCacheEntry cache stale) ∧
      (∀ other, other ≠ stale.aggregateHash → (refreshStaleCacheEntry cache stale).find other = cache.find other) ∧
      (Readmitted cache data → ∃ changed, (refreshStaleCacheEntry cache stale).find stale.aggregateHash = some changed ∧
        ∀ cosignature, cosignature ∈ changed.cosignatures ↔ cosignature ∈ stale.eligibleCosignatures) ∧
      (¬ Readmitted cache data → (refreshStaleCacheEntry cache stale).find stale.aggregateHash = none) := by
  obtain ⟨member, sameHash⟩ := mem_of_find found
  have removedFinds := @find_removeEntry cache data
  rw [sameHash] at removedFinds
  have missing : (cache.removeEntry data).find data.transactionInfo.entityHash = none := by
    rw [removedFinds]
    exact if_pos sameHash
  have unfolded : refreshStaleCacheEntry cache stale = withCosignatures
      (((cache.removeEntry data).add data.transactionInfo).getD (cache.removeEntry data)) stale.aggregateHash
      stale.eligibleCosignatures := by
    rw [refreshStaleCacheEntry, MemoryPtCache.remove, found]
    rfl
  rw [unfolded]
  by_cases readmitted : Readmitted cache data
  · obtain ⟨next, added⟩ : ∃ next, (cache.removeEntry data).add data.transactionInfo = some next := by
      rw [MemoryPtCache.add, missing]
      exact ⟨_, if_neg readmitted⟩
    have finds := find_add added
    rw [added, Option.getD_some]
    have entry : next.find stale.aggregateHash = some (.create data.transactionInfo) := by
      rw [finds]
      exact if_pos sameHash.symm
    obtain ⟨kept, others, changed, foundChanged, members⟩ := ((accounted.removeEntry member).add added).addAll entry sorted
      (fun _ _ other inside => absurd inside List.not_mem_nil)
    refine ⟨kept, fun other different => ?_, fun _ => ⟨changed, foundChanged, fun cosignature => ?_⟩, fun refused => absurd readmitted refused⟩
    · rw [others other different, finds, if_neg (fun same => different (same.trans sameHash)), removedFinds, if_neg different]
    · rw [members]
      exact or_iff_right List.not_mem_nil
  · have refused : (cache.removeEntry data).add data.transactionInfo = none := by
      rw [MemoryPtCache.add]
      exact if_pos (not_not.mp readmitted)
    have gone : (cache.removeEntry data).find stale.aggregateHash = none := by
      rw [removedFinds, if_pos rfl]
    rw [refused, Option.getD_none, withCosignatures_missing gone]
    exact ⟨accounted.removeEntry member, fun other different => by rw [removedFinds, if_neg different],
      fun accepted => absurd accepted readmitted, fun _ => gone⟩

theorem refresh_missing {stale : StaleTransactionInfo} (missing : cache.find stale.aggregateHash = none) :
    refreshStaleCacheEntry cache stale = cache := by
  rw [refreshStaleCacheEntry, MemoryPtCache.remove, missing]

end Refreshing

section Logs

variable {log events : List PtEvent} {hash : Hash256}

/-- The aggregate was added and has not been completed since. -/
def Opened : List PtEvent → Hash256 → Prop
  | [], _ => False
  | .addedTransaction added :: log, hash => added = hash ∨ Opened log hash
  | .completed finished _ :: log, hash => finished ≠ hash ∧ Opened log hash
  | _ :: log, hash => Opened log hash

/-- An aggregate is completed only after it was added, with cosignatures that the validator has accepted. -/
def Lawful : List PtEvent → Prop
  | [] => True
  | .completed hash cosignatures :: log => Opened log hash ∧ .answered hash cosignatures .success ∈ log ∧ Lawful log
  | _ :: log => Lawful log

/-- The event neither adds nor completes an aggregate. -/
def Quiet : PtEvent → Prop
  | .addedTransaction _ => False
  | .completed _ _ => False
  | _ => True

theorem opened_append (quiet : ∀ event ∈ events, Quiet event) : Opened (events ++ log) hash ↔ Opened log hash := by
  induction events with
  | nil => exact Iff.rfl
  | cons event events ih =>
    have rest := ih fun other member => quiet other (List.mem_cons_of_mem _ member)
    have first := quiet event List.mem_cons_self
    cases event with
    | addedTransaction _ => exact first.elim
    | completed _ _ => exact first.elim
    | addedCosignature _ _ => exact rest
    | answered _ _ _ => exact rest
    | updated _ _ => exact rest

theorem lawful_append (quiet : ∀ event ∈ events, Quiet event) : Lawful (events ++ log) ↔ Lawful log := by
  induction events with
  | nil => exact Iff.rfl
  | cons event events ih =>
    have rest := ih fun other member => quiet other (List.mem_cons_of_mem _ member)
    have first := quiet event List.mem_cons_self
    cases event with
    | addedTransaction _ => exact first.elim
    | completed _ _ => exact first.elim
    | addedCosignature _ _ => exact rest
    | answered _ _ _ => exact rest
    | updated _ _ => exact rest

theorem Lawful.of_append {later earlier : List PtEvent} (lawful : Lawful (later ++ earlier)) : Lawful earlier := by
  induction later with
  | nil => exact lawful
  | cons event later ih =>
    cases event with
    | completed _ _ => exact ih lawful.2.2
    | addedTransaction _ => exact ih lawful
    | addedCosignature _ _ => exact ih lawful
    | answered _ _ _ => exact ih lawful
    | updated _ _ => exact ih lawful

/-- An aggregate that was opened in between was added there. -/
theorem Opened.added {between earlier : List PtEvent} (opened : Opened (between ++ earlier) hash) (closed : ¬ Opened earlier hash) :
    .addedTransaction hash ∈ between := by
  induction between with
  | nil => exact absurd opened closed
  | cons event between ih =>
    cases event with
    | addedTransaction added =>
      rcases opened with rfl | before
      · exact List.mem_cons_self
      · exact List.mem_cons_of_mem _ (ih before)
    | completed _ _ => exact List.mem_cons_of_mem _ (ih opened.2)
    | addedCosignature _ _ => exact List.mem_cons_of_mem _ (ih opened)
    | answered _ _ _ => exact List.mem_cons_of_mem _ (ih opened)
    | updated _ _ => exact List.mem_cons_of_mem _ (ih opened)

/-- Between two completions an aggregate is added to the cache, and every completion has a successful validation. -/
structure SoundLog (log : List PtEvent) : Prop where
  once : ∀ hash later between earlier first second,
    log = later ++ .completed hash second :: (between ++ .completed hash first :: earlier) → .addedTransaction hash ∈ between
  added : ∀ hash later earlier cosignatures, log = later ++ .completed hash cosignatures :: earlier →
    .addedTransaction hash ∈ earlier
  validated : ∀ hash later earlier cosignatures, log = later ++ .completed hash cosignatures :: earlier →
    .answered hash cosignatures .success ∈ earlier

theorem Lawful.soundLog (lawful : Lawful log) : SoundLog log where
  once _ _ _ _ _ _ split := (split ▸ lawful).of_append.1.added fun still => still.1 rfl
  added _ _ earlier _ split := ((List.append_nil earlier).symm ▸ (split ▸ lawful).of_append.1).added id
  validated _ _ _ _ split := (split ▸ lawful).of_append.2.1

end Logs

section Tasks

variable {cache : MemoryPtCache} {log : List PtEvent} {answers : ValidatorAnswers}

/-- What a task relies on was observed before. -/
def Justified (log : List PtEvent) : PtTask → Prop
  | .removeCompleted hash _ cosignatures => .answered hash cosignatures .success ∈ log
  | .refreshStaleCacheEntry _ _ stale => Sorted stale.eligibleCosignatures ∧
      (∀ cosignature ∈ stale.eligibleCosignatures, cosignature ∈ stale.existingCosignatures) ∧
      ∀ cosignature ∈ stale.existingCosignatures, cosignature ∈ stale.eligibleCosignatures ∨
        .answered stale.aggregateHash [cosignature] .ineligible ∈ log
  | _ => True

theorem Justified.mono {task : PtTask} (justified : Justified log task) (events : List PtEvent) : Justified (events ++ log) task := by
  cases task with
  | removeCompleted _ _ _ => exact List.mem_append_right _ justified
  | refreshStaleCacheEntry _ _ _ =>
    exact ⟨justified.1, justified.2.1, fun cosignature member =>
      (justified.2.2 cosignature member).imp_right (List.mem_append_right _)⟩
  | addTransaction _ => trivial
  | checkEligibility _ => trivial
  | purge _ _ => trivial
  | addCosignature _ => trivial
  | checkCompleteness _ _ => trivial

theorem Shrinks.isSome {next : MemoryPtCache} (shrinks : Shrinks cache next) (hash : Hash256)
    (present : (next.find hash).isSome) : (cache.find hash).isSome := by
  obtain ⟨data, found⟩ := Option.isSome_iff_exists.mp present
  rw [shrinks hash data found]
  rfl

theorem quiet_reported (cosignature : Option DetachedCosignature) (result : CosignatureUpdateResult) :
    ∀ event ∈ reported cosignature result, Quiet event := by
  cases cosignature with
  | none => exact fun _ member => absurd member List.not_mem_nil
  | some cosignature =>
    intro event member
    rw [List.mem_singleton.mp member]
    trivial

/-- A cosignature stays in an entry that stays in the cache unless the validator has reported it. -/
def KeepsCosignatures (cache next : MemoryPtCache) (log : List PtEvent) : Prop :=
  ∀ hash data changed, cache.find hash = some data → next.find hash = some changed → ∀ cosignature ∈ data.cosignatures,
    cosignature ∈ changed.cosignatures ∨ .answered hash [cosignature] .ineligible ∈ log

theorem Shrinks.keeps {next : MemoryPtCache} (shrinks : Shrinks cache next) (log : List PtEvent) :
    KeepsCosignatures cache next log := by
  intro hash data changed found foundNext cosignature member
  rw [shrinks hash changed foundNext] at found
  exact .inl (Option.some.inj found ▸ member)

end Tasks

section Records

variable [Sha3] {cache : MemoryPtCache} {log : List PtEvent} {answers : ValidatorAnswers}

/-- The cache is in order, its aggregates were added and not completed since, and the log is lawful. -/
structure Recorded (cache : MemoryPtCache) (log : List PtEvent) : Prop where
  accounted : Accounted cache
  opened : ∀ hash, (cache.find hash).isSome → Opened log hash
  lawful : Lawful log

/-- A step without additions and completions of aggregates keeps the records. -/
theorem Recorded.quiet {next : MemoryPtCache} {events : List PtEvent} (recorded : Recorded cache log) (accounted : Accounted next)
    (shrinks : ∀ hash, (next.find hash).isSome → (cache.find hash).isSome) (quiet : ∀ event ∈ events, Quiet event) :
    Recorded next (events ++ log) where
  accounted := accounted
  opened hash present := (opened_append quiet).mpr (recorded.opened hash (shrinks hash present))
  lawful := (lawful_append quiet).mpr recorded.lawful

/-- The check observes only answers, and a stale entry is justified by them. -/
theorem checkEligibility_spec (accounted : Accounted cache) (cosignature : DetachedCosignature) :
    (∀ event ∈ (checkEligibility cache answers cosignature).2, Quiet event) ∧
      ∀ stale, (checkEligibility cache answers cosignature).1.staleTransactionInfo = some stale → ∀ eligibility log,
        Justified ((checkEligibility cache answers cosignature).2 ++ log)
          (.refreshStaleCacheEntry cosignature eligibility stale) := by
  unfold checkEligibility
  split
  · exact ⟨fun _ member => absurd member List.not_mem_nil, nofun⟩
  · next data found =>
    split
    · exact ⟨fun _ member => absurd member List.not_mem_nil, nofun⟩
    · dsimp only
      split
      · refine ⟨fun event member => ?_, nofun⟩
        rw [List.mem_singleton.mp member]
        trivial
      · split
        · refine ⟨fun event member => ?_, nofun⟩
          rcases List.mem_cons.mp member with rfl | second
          · trivial
          · rw [List.mem_singleton.mp second]
            trivial
        · refine ⟨fun event member => ?_, ?_⟩
          · rcases List.mem_append.mp member with single | other
            · obtain ⟨existing, -, rfl⟩ := List.mem_map.mp (List.mem_reverse.mp single)
              trivial
            · rcases List.mem_cons.mp other with rfl | second
              · trivial
              · rw [List.mem_singleton.mp second]
                trivial
          · rintro stale same eligibility log
            obtain rfl := Option.some.inj same
            have sorted := (accounted.cosigned data (mem_of_find found).1).sorted
            refine ⟨sorted.sublist List.filter_sublist, fun existing member => List.mem_of_mem_filter member, fun existing member => ?_⟩
            by_cases eligible : answers.validateSingle existing = .ineligible
            · refine .inr (List.mem_append_left _ (List.mem_append_left _ (List.mem_reverse.mpr (List.mem_map.mpr ⟨existing, member, ?_⟩))))
              rw [eligible]
            · exact .inl (List.mem_filter.mpr ⟨member, decide_eq_true eligible⟩)

end Records

section Outcomes

variable [CosignatureVerifier] {cache : MemoryPtCache} {log : List PtEvent} {answers : ValidatorAnswers}

/-- After the check of a cosignature nothing is left that needs a justification. -/
theorem afterEligibility_spec (cosignature : DetachedCosignature) (eligibility : CheckEligibilityResult) :
    (∀ event ∈ (afterEligibility cosignature eligibility).2, ∃ result, event = .updated cosignature result) ∧
      ∀ task ∈ (afterEligibility cosignature eligibility).1, ∀ log, Justified log task := by
  unfold afterEligibility
  split
  · split
    · exact ⟨fun _ member => absurd member List.not_mem_nil, fun task member _ => by rw [List.mem_singleton.mp member]; trivial⟩
    · exact ⟨fun event member => ⟨_, List.mem_singleton.mp member⟩, fun _ member => absurd member List.not_mem_nil⟩
  · split
    · exact ⟨fun event member => ⟨_, List.mem_singleton.mp member⟩, fun _ member => absurd member List.not_mem_nil⟩
    · exact ⟨fun _ member => absurd member List.not_mem_nil, fun task member _ => by rw [List.mem_singleton.mp member]; trivial⟩

theorem quiet_afterEligibility (cosignature : DetachedCosignature) (eligibility : CheckEligibilityResult) :
    ∀ event ∈ (afterEligibility cosignature eligibility).2, Quiet event := by
  intro event member
  obtain ⟨result, rfl⟩ := (afterEligibility_spec cosignature eligibility).1 event member
  trivial

variable [Sha3]

/-- A task leaves the records in order. -/
structure SoundOutcome (log : List PtEvent) (outcome : TaskOutcome) : Prop where
  recorded : Recorded outcome.cache (outcome.events ++ log)
  justified : ∀ task ∈ outcome.tasks, Justified (outcome.events ++ log) task

/-- The new aggregate was not in the cache. -/
theorem Recorded.addTransaction (recorded : Recorded cache log) (context : TransactionUpdateContext) :
    SoundOutcome log (runTask cache answers (.addTransaction context)) ∧
      KeepsCosignatures cache (runTask cache answers (.addTransaction context)).cache log := by
  rw [runTask]
  split
  · exact ⟨⟨recorded, fun _ member => absurd member List.not_mem_nil⟩, Shrinks.keeps (fun _ _ found => found) log⟩
  · split
    · exact ⟨⟨recorded, fun _ member => absurd member List.not_mem_nil⟩, Shrinks.keeps (fun _ _ found => found) log⟩
    · next next added =>
      have finds := find_add added
      refine ⟨⟨⟨recorded.accounted.add added, fun hash present => ?_, recorded.lawful⟩, fun task member => ?_⟩, ?_⟩
      · change context.aggregateHash = hash ∨ Opened log hash
        by_cases same : hash = context.aggregateHash
        · exact .inl same.symm
        · rw [finds, if_neg same] at present
          exact .inr (recorded.opened hash present)
      · dsimp only at member
        split at member
        · rw [List.mem_singleton.mp member]
          trivial
        · obtain ⟨cosignature, -, rfl⟩ := List.mem_map.mp member
          trivial
      · intro hash data changed found foundNext cosignature member
        have absent := (add_cases added).2.1
        rw [finds] at foundNext
        split at foundNext
        · next same =>
          rw [same] at found
          cases absent.symm.trans found
        · rw [found] at foundNext
          exact .inl (Option.some.inj foundNext ▸ member)

theorem Recorded.checkEligibility (recorded : Recorded cache log) (cosignature : DetachedCosignature) :
    SoundOutcome log (runTask cache answers (.checkEligibility cosignature)) ∧
      (runTask cache answers (.checkEligibility cosignature)).cache = cache := by
  obtain ⟨quiet, stale⟩ := @checkEligibility_spec _ cache answers recorded.accounted cosignature
  have after := @afterEligibility_spec _ cosignature (Partial.checkEligibility cache answers cosignature).1
  have quietAll : ∀ event ∈ (afterEligibility cosignature (Partial.checkEligibility cache answers cosignature).1).2 ++
      (Partial.checkEligibility cache answers cosignature).2, Quiet event := fun event member =>
    (List.mem_append.mp member).elim (quiet_afterEligibility cosignature _ event) (quiet event)
  rw [runTask]
  dsimp only
  split
  · next info found =>
    split
    · refine ⟨⟨recorded.quiet recorded.accounted (fun _ present => present) quiet, fun task member => ?_⟩, rfl⟩
      rw [List.mem_singleton.mp member]
      exact stale info found _ log
    · exact ⟨⟨recorded.quiet recorded.accounted (fun _ present => present) quietAll, fun task member => after.2 task member _⟩, rfl⟩
  · exact ⟨⟨recorded.quiet recorded.accounted (fun _ present => present) quietAll, fun task member => after.2 task member _⟩, rfl⟩

theorem Recorded.refresh (recorded : Recorded cache log) {cosignature : DetachedCosignature} {eligibility : CheckEligibilityResult}
    {stale : StaleTransactionInfo} (justified : Justified log (.refreshStaleCacheEntry cosignature eligibility stale)) :
    SoundOutcome log (runTask cache answers (.refreshStaleCacheEntry cosignature eligibility stale)) := by
  have after := @afterEligibility_spec _ cosignature eligibility
  refine ⟨?_, fun task member => after.2 task member _⟩
  cases found : cache.find stale.aggregateHash with
  | none =>
    refine recorded.quiet ?_ (fun hash present => ?_) (quiet_afterEligibility cosignature eligibility)
    · change Accounted (refreshStaleCacheEntry cache stale)
      rw [refresh_missing found]
      exact recorded.accounted
    · change ((refreshStaleCacheEntry cache stale).find hash).isSome at present
      rwa [refresh_missing found] at present
  | some data =>
    obtain ⟨accounted, others, -⟩ := recorded.accounted.refresh found justified.1
    refine recorded.quiet accounted (fun hash present => ?_) (quiet_afterEligibility cosignature eligibility)
    by_cases same : hash = stale.aggregateHash
    · rw [same, found]
      rfl
    · change ((refreshStaleCacheEntry cache stale).find hash).isSome at present
      rwa [others hash same] at present

theorem Recorded.addCosignature (recorded : Recorded cache log) (cosignature : DetachedCosignature) :
    SoundOutcome log (runTask cache answers (.addCosignature cosignature)) ∧
      KeepsCosignatures cache (runTask cache answers (.addCosignature cosignature)).cache log := by
  rw [runTask]
  split
  · refine ⟨⟨recorded.quiet recorded.accounted (fun _ present => present) fun event member => ?_,
      fun _ member => absurd member List.not_mem_nil⟩, Shrinks.keeps (fun _ _ found => found) log⟩
    rw [List.mem_singleton.mp member]
    trivial
  · next info next added =>
    obtain ⟨data, changed, found, perm, finds⟩ := find_addCosignature added
    refine ⟨⟨recorded.quiet (recorded.accounted.addCosignature added) (fun hash present => ?_) fun event member => ?_,
      fun task member => ?_⟩, fun hash data' changed' found' foundNext single member => ?_⟩
    · rw [finds] at present
      split at present
      · next same =>
        rw [same, found]
        rfl
      · exact present
    · rw [List.mem_singleton.mp member]
      trivial
    · rw [List.mem_singleton.mp member]
      trivial
    · rw [finds] at foundNext
      split at foundNext
      · next same =>
        obtain rfl := Option.some.inj foundNext
        rw [same, found] at found'
        obtain rfl := Option.some.inj found'
        exact .inl (perm.mem_iff.mpr (List.mem_cons_of_mem _ member))
      · rw [found'] at foundNext
        exact .inl (Option.some.inj foundNext ▸ member)

theorem Recorded.checkCompleteness (recorded : Recorded cache log) (aggregateHash : Hash256)
    (cosignature : Option DetachedCosignature) :
    SoundOutcome log (runTask cache answers (.checkCompleteness aggregateHash cosignature)) ∧
      (runTask cache answers (.checkCompleteness aggregateHash cosignature)).cache = cache := by
  rw [runTask]
  split
  · exact ⟨⟨recorded.quiet recorded.accounted (fun _ present => present) (quiet_reported _ _),
      fun _ member => absurd member List.not_mem_nil⟩, rfl⟩
  · next data found =>
    dsimp only
    split
    · refine ⟨⟨recorded.quiet recorded.accounted (fun _ present => present) fun event member => ?_,
        fun _ member => absurd member List.not_mem_nil⟩, rfl⟩
      rcases List.mem_append.mp member with update | answer
      · exact quiet_reported _ _ event update
      · rw [List.mem_singleton.mp answer]
        trivial
    · next success =>
      refine ⟨⟨recorded.quiet recorded.accounted (fun _ present => present) fun event member => ?_, fun task member => ?_⟩, rfl⟩
      · rw [List.mem_singleton.mp member]
        trivial
      · rw [List.mem_singleton.mp member, not_not.mp success]
        exact List.mem_append_left _ (List.mem_singleton_self _)

/-- An aggregate that is completed was in the cache. -/
theorem Recorded.removeCompleted (recorded : Recorded cache log) {aggregateHash : Hash256} {cosignature : Option DetachedCosignature}
    {completedCosignatures : List Cosignature}
    (justified : Justified log (.removeCompleted aggregateHash cosignature completedCosignatures)) :
    SoundOutcome log (runTask cache answers (.removeCompleted aggregateHash cosignature completedCosignatures)) ∧
      Shrinks cache (runTask cache answers (.removeCompleted aggregateHash cosignature completedCosignatures)).cache := by
  rw [runTask, MemoryPtCache.remove]
  cases found : cache.find aggregateHash with
  | none =>
    exact ⟨⟨recorded.quiet recorded.accounted (fun _ present => present) (quiet_reported _ _),
      fun _ member => absurd member List.not_mem_nil⟩, fun _ _ same => same⟩
  | some data =>
    obtain ⟨member, sameHash⟩ := mem_of_find found
    have opened := recorded.opened aggregateHash (by rw [found]; rfl)
    refine ⟨⟨?_, fun _ member => absurd member List.not_mem_nil⟩, shrinks_removeEntry⟩
    have completed : Recorded (cache.removeEntry data) (.completed aggregateHash completedCosignatures :: log) := by
      refine ⟨recorded.accounted.removeEntry member, fun hash present => ?_, opened, justified, recorded.lawful⟩
      rw [find_removeEntry, sameHash] at present
      split at present
      · cases present
      · next different => exact ⟨fun same => different same.symm, recorded.opened hash present⟩
    dsimp only
    rw [List.append_assoc]
    exact completed.quiet completed.accounted (fun _ present => present) (quiet_reported _ _)

end Outcomes

section Runs

variable [Sha3] [CosignatureVerifier] {state : PtUpdater}

structure Consistent (state : PtUpdater) : Prop where
  recorded : Recorded state.cache state.log
  justified : ∀ task ∈ state.tasks, Justified state.log task

omit [CosignatureVerifier] in
theorem consistent_create (maxCacheSize : FileSize) : Consistent (.create maxCacheSize) where
  recorded := ⟨accounted_create maxCacheSize, fun _ present => (Bool.false_ne_true present).elim, trivial⟩
  justified _ member := absurd member List.not_mem_nil

/-- All tasks but the refresh keep the cosignatures of all entries. -/
theorem Recorded.runTask {cache : MemoryPtCache} {log : List PtEvent} (recorded : Recorded cache log) {task : PtTask}
    (justified : Justified log task) (answers : ValidatorAnswers) : SoundOutcome log (runTask cache answers task) ∧
      ((∃ cosignature eligibility stale, task = .refreshStaleCacheEntry cosignature eligibility stale) ∨
        KeepsCosignatures cache (Partial.runTask cache answers task).cache ((Partial.runTask cache answers task).events ++ log)) := by
  have weaken : ∀ {next : MemoryPtCache} (events : List PtEvent), KeepsCosignatures cache next log →
      KeepsCosignatures cache next (events ++ log) := fun events keeps hash data changed found foundNext cosignature member =>
    (keeps hash data changed found foundNext cosignature member).imp_right (List.mem_append_right events)
  cases task with
  | addTransaction context =>
    obtain ⟨sound, keeps⟩ := @Recorded.addTransaction _ _ _ answers _ recorded context
    exact ⟨sound, .inr (weaken _ keeps)⟩
  | checkEligibility cosignature =>
    obtain ⟨sound, same⟩ := @Recorded.checkEligibility _ _ _ answers _ recorded cosignature
    exact ⟨sound, .inr (by rw [same]; exact Shrinks.keeps (fun _ _ found => found) _)⟩
  | refreshStaleCacheEntry cosignature eligibility stale => exact ⟨recorded.refresh justified, .inl ⟨_, _, _, rfl⟩⟩
  | purge cosignature eligibility =>
    refine ⟨⟨recorded.quiet (recorded.accounted.remove _) (Shrinks.isSome (shrinks_remove _)) fun event member => ?_,
      fun _ member => absurd member List.not_mem_nil⟩, .inr (Shrinks.keeps (shrinks_remove _) _)⟩
    rw [List.mem_singleton.mp member]
    trivial
  | addCosignature cosignature =>
    obtain ⟨sound, keeps⟩ := @Recorded.addCosignature _ _ _ answers _ recorded cosignature
    exact ⟨sound, .inr (weaken _ keeps)⟩
  | checkCompleteness aggregateHash cosignature =>
    obtain ⟨sound, same⟩ := @Recorded.checkCompleteness _ _ _ answers _ recorded aggregateHash cosignature
    exact ⟨sound, .inr (by rw [same]; exact Shrinks.keeps (fun _ _ found => found) _)⟩
  | removeCompleted aggregateHash cosignature completedCosignatures =>
    obtain ⟨sound, shrinks⟩ := @Recorded.removeCompleted _ _ _ answers _ recorded _ _ _ justified
    exact ⟨sound, .inr (shrinks.keeps _)⟩

omit [CosignatureVerifier] in
theorem Consistent.shrink (consistent : Consistent state) {cache : MemoryPtCache} (accounted : Accounted cache)
    (shrinks : Shrinks state.cache cache) : Consistent { state with cache } where
  recorded := @Recorded.quiet _ _ _ _ [] consistent.recorded accounted shrinks.isSome fun _ member => absurd member List.not_mem_nil
  justified := consistent.justified

theorem step_run {index : Nat} {task : PtTask} (chosen : state.tasks[index]? = some task) (answers : ValidatorAnswers) :
    state.step (.run index answers) =
      ⟨(runTask state.cache answers task).cache, state.tasks.eraseIdx index ++ (runTask state.cache answers task).tasks,
        (runTask state.cache answers task).events ++ state.log⟩ := by
  rw [PtUpdater.step, chosen]

theorem Consistent.step (consistent : Consistent state) (action : PtUpdaterAction) : Consistent (state.step action) := by
  cases action with
  | updateTransaction info =>
    refine ⟨consistent.recorded, fun task member => ?_⟩
    rcases List.mem_append.mp member with old | new
    · exact consistent.justified task old
    · unfold PtUpdater.updateTasks at new
      dsimp only at new
      split at new
      · cases new
      · split at new
        · obtain ⟨cosignature, -, rfl⟩ := List.mem_map.mp new
          trivial
        · rw [List.mem_singleton.mp new]
          trivial
  | updateCosignature cosignature =>
    refine ⟨consistent.recorded, fun task member => ?_⟩
    rcases List.mem_append.mp member with old | new
    · exact consistent.justified task old
    · rw [List.mem_singleton.mp new]
      trivial
  | run index answers =>
    cases chosen : state.tasks[index]? with
    | none =>
      rw [PtUpdater.step, chosen]
      exact consistent
    | some task =>
      obtain ⟨sound, -⟩ := consistent.recorded.runTask (consistent.justified task (List.mem_of_getElem? chosen)) answers
      rw [step_run chosen]
      refine ⟨sound.recorded, fun other member => ?_⟩
      rcases List.mem_append.mp member with old | new
      · exact (consistent.justified other (List.mem_of_mem_eraseIdx old)).mono _
      · exact sound.justified other new
  | remove hash => exact consistent.shrink (consistent.recorded.accounted.remove hash) (shrinks_remove hash)
  | prune timestamp =>
    obtain ⟨infos, next, ran, accounted, pruned⟩ := consistent.recorded.accounted.prune timestamp
    rw [PtUpdater.step, ran]
    exact consistent.shrink accounted (shrinks_prunedTo pruned)
  | prunePredicate hashPredicate =>
    exact consistent.shrink (consistent.recorded.accounted.prunePredicate hashPredicate) (shrinks_prunePredicate _ _)

/-- A step keeps the cosignatures of the entries that stay, and a refresh keeps all entries. -/
structure SoundUpdate (state : PtUpdater) (action : PtUpdaterAction) : Prop where
  keeps : KeepsCosignatures state.cache (state.step action).cache (state.step action).log
  refreshes : ∀ index answers cosignature eligibility stale, action = .run index answers →
    state.tasks[index]? = some (.refreshStaleCacheEntry cosignature eligibility stale) →
      ∀ hash, (state.cache.find hash).isSome → ((state.step action).cache.find hash).isSome

/-- When a stale entry is refreshed, its cosignatures were there when it was checked, or the validator has reported them, and the
entry fits into the cache again. -/
def RefreshesSafely (state : PtUpdater) : PtUpdaterAction → Prop
  | .run index _ => ∀ cosignature eligibility stale,
      state.tasks[index]? = some (.refreshStaleCacheEntry cosignature eligibility stale) →
        ∀ data, state.cache.find stale.aggregateHash = some data →
          (∀ existing ∈ data.cosignatures, existing ∈ stale.existingCosignatures ∨
            .answered stale.aggregateHash [existing] .ineligible ∈ state.log) ∧ Readmitted state.cache data
  | _ => True

/-- A refresh is sound exactly if no cosignature was added since the check and the entry fits again. -/
theorem Consistent.refresh_iff (consistent : Consistent state) {index : Nat} {answers : ValidatorAnswers}
    {cosignature : DetachedCosignature} {eligibility : CheckEligibilityResult} {stale : StaleTransactionInfo}
    (chosen : state.tasks[index]? = some (.refreshStaleCacheEntry cosignature eligibility stale)) :
    SoundUpdate state (.run index answers) ↔ RefreshesSafely state (.run index answers) := by
  obtain ⟨sorted, subset, covered⟩ : Justified state.log (.refreshStaleCacheEntry cosignature eligibility stale) :=
    consistent.justified _ (List.mem_of_getElem? chosen)
  have stepped := step_run chosen answers
  have sameCache : (state.step (.run index answers)).cache = refreshStaleCacheEntry state.cache stale := by rw [stepped]; rfl
  have sameLog : ∀ hash cosignatures result, .answered hash cosignatures result ∈ (state.step (.run index answers)).log ↔
      .answered hash cosignatures result ∈ state.log := by
    intro hash cosignatures result
    rw [stepped]
    refine ⟨fun member => (List.mem_append.mp member).resolve_left fun update => ?_, List.mem_append_right _⟩
    obtain ⟨_, equal⟩ := (afterEligibility_spec cosignature eligibility).1 _ update
    cases equal
  constructor
  · rintro sound other otherEligibility otherStale otherChosen data found
    cases Option.some.inj (chosen.symm.trans otherChosen)
    obtain ⟨-, -, readmits, refuses⟩ := consistent.recorded.accounted.refresh found sorted
    have present := sound.refreshes index answers _ _ _ rfl chosen stale.aggregateHash (by rw [found]; rfl)
    rw [sameCache] at present
    have readmitted : Readmitted state.cache data := by
      by_contra refused
      rw [refuses refused] at present
      cases present
    obtain ⟨changed, foundChanged, members⟩ := readmits readmitted
    refine ⟨fun existing member => ?_, readmitted⟩
    rcases sound.keeps _ data changed found (sameCache ▸ foundChanged) existing member with kept | answer
    · exact .inl (subset existing ((members existing).mp kept))
    · exact .inr ((sameLog _ _ _).mp answer)
  · intro safe
    cases found : state.cache.find stale.aggregateHash with
    | none =>
      have unchanged : (state.step (.run index answers)).cache = state.cache := sameCache.trans (refresh_missing found)
      exact ⟨unchanged ▸ Shrinks.keeps (fun _ _ same => same) _, fun _ _ _ _ _ _ _ _ present => by rwa [unchanged]⟩
    | some data =>
      obtain ⟨kept, readmitted⟩ := safe _ _ _ chosen data found
      obtain ⟨-, others, readmits, -⟩ := consistent.recorded.accounted.refresh found sorted
      obtain ⟨changed, foundChanged, members⟩ := readmits readmitted
      constructor
      · intro hash before after foundBefore foundAfter existing member
        rw [sameCache] at foundAfter
        by_cases same : hash = stale.aggregateHash
        · subst same
          obtain rfl := Option.some.inj (found.symm.trans foundBefore)
          obtain rfl := Option.some.inj (foundChanged.symm.trans foundAfter)
          rw [members, sameLog]
          exact (kept existing member).elim (covered existing) .inr
        · rw [others hash same, foundBefore] at foundAfter
          exact .inl (Option.some.inj foundAfter ▸ member)
      · rintro - - - - - - - hash present
        rw [sameCache]
        by_cases same : hash = stale.aggregateHash
        · rw [same, foundChanged]
          rfl
        · rwa [others hash same]

theorem soundUpdate_of_shrinks {action : PtUpdaterAction} (notRun : ∀ index answers, action ≠ .run index answers)
    (shrinks : Shrinks state.cache (state.step action).cache) : SoundUpdate state action :=
  ⟨shrinks.keeps _, fun index answers _ _ _ same => absurd same (notRun index answers)⟩

theorem Consistent.soundUpdate_iff (consistent : Consistent state) (action : PtUpdaterAction) :
    SoundUpdate state action ↔ RefreshesSafely state action := by
  cases action with
  | updateTransaction info => exact iff_of_true (soundUpdate_of_shrinks (by rintro _ _ ⟨⟩) fun _ _ found => found) trivial
  | updateCosignature cosignature => exact iff_of_true (soundUpdate_of_shrinks (by rintro _ _ ⟨⟩) fun _ _ found => found) trivial
  | remove hash => exact iff_of_true (soundUpdate_of_shrinks (by rintro _ _ ⟨⟩) (shrinks_remove hash)) trivial
  | prune timestamp =>
    obtain ⟨infos, next, ran, -, pruned⟩ := consistent.recorded.accounted.prune timestamp
    refine iff_of_true (soundUpdate_of_shrinks (by rintro _ _ ⟨⟩) ?_) trivial
    rw [PtUpdater.step, ran]
    exact shrinks_prunedTo pruned
  | prunePredicate hashPredicate =>
    exact iff_of_true (soundUpdate_of_shrinks (by rintro _ _ ⟨⟩) (shrinks_prunePredicate _ _)) trivial
  | run index answers =>
    cases chosen : state.tasks[index]? with
    | none =>
      have unchanged : state.step (.run index answers) = state := by rw [PtUpdater.step, chosen]
      refine iff_of_true ⟨by rw [unchanged]; exact Shrinks.keeps (fun _ _ found => found) _, ?_⟩ ?_
      · rintro other otherAnswers _ _ _ same otherChosen
        cases same
        cases chosen.symm.trans otherChosen
      · intro _ _ _ otherChosen
        cases chosen.symm.trans otherChosen
    | some task =>
      obtain ⟨-, refresh | keeps⟩ :=
        consistent.recorded.runTask (consistent.justified task (List.mem_of_getElem? chosen)) answers
      · obtain ⟨cosignature, eligibility, stale, rfl⟩ := refresh
        exact consistent.refresh_iff chosen
      · by_cases refresh : ∃ cosignature eligibility stale, task = .refreshStaleCacheEntry cosignature eligibility stale
        · obtain ⟨cosignature, eligibility, stale, rfl⟩ := refresh
          exact consistent.refresh_iff chosen
        · refine iff_of_true ⟨by rw [step_run chosen]; exact keeps, ?_⟩ ?_
          · rintro other otherAnswers cosignature eligibility stale same otherChosen
            cases same
            exact absurd ⟨cosignature, eligibility, stale, Option.some.inj (chosen.symm.trans otherChosen)⟩ refresh
          · intro cosignature eligibility stale otherChosen
            exact absurd ⟨cosignature, eligibility, stale, Option.some.inj (chosen.symm.trans otherChosen)⟩ refresh

theorem mem_log_step {event : PtEvent} (member : event ∈ state.log) (action : PtUpdaterAction) : event ∈ (state.step action).log := by
  cases action with
  | run index answers =>
    cases chosen : state.tasks[index]? with
    | none => rwa [PtUpdater.step, chosen]
    | some task =>
      rw [step_run chosen]
      exact List.mem_append_right _ member
  | prune timestamp =>
    rw [PtUpdater.step]
    split
    · exact member
    · exact member
  | updateTransaction _ => exact member
  | updateCosignature _ => exact member
  | remove _ => exact member
  | prunePredicate _ => exact member

/-- The entry holds the cosignature, or the validator has reported it. -/
def Holds (hash : Hash256) (cosignature : Cosignature) (state : PtUpdater) : Prop :=
  ∃ data, state.cache.find hash = some data ∧
    (cosignature ∈ data.cosignatures ∨ .answered hash [cosignature] .ineligible ∈ state.log)

/-- The entry stays in the cache. -/
def Stays (hash : Hash256) (state : PtUpdater) (action : PtUpdaterAction) : Prop := ((state.step action).cache.find hash).isSome

theorem SoundUpdate.holds {action : PtUpdaterAction} (sound : SoundUpdate state action) {hash : Hash256} {cosignature : Cosignature}
    (stays : Stays hash state action) (holds : Holds hash cosignature state) : Holds hash cosignature (state.step action) := by
  obtain ⟨data, found, inside⟩ := holds
  obtain ⟨changed, foundChanged⟩ := Option.isSome_iff_exists.mp stays
  refine ⟨changed, foundChanged, ?_⟩
  rcases inside with member | answer
  · exact sound.keeps hash data changed found foundChanged cosignature member
  · exact .inr (mem_log_step answer action)

/-- In every run the completions are sound, and the steps are sound exactly if stale entries are refreshed safely; then a
cosignature stays in an entry as long as the entry stays in the cache. -/
theorem updater_run_iff (maxCacheSize : FileSize) (actions : List PtUpdaterAction) :
    SoundLog (actions.foldl PtUpdater.step (.create maxCacheSize)).log ∧
      (Runs.Along PtUpdater.step SoundUpdate (.create maxCacheSize) actions ↔
        Runs.Along PtUpdater.step RefreshesSafely (.create maxCacheSize) actions) ∧
      (Runs.Along PtUpdater.step RefreshesSafely (.create maxCacheSize) actions → ∀ first second hash cosignature,
        actions = first ++ second → Holds hash cosignature (first.foldl PtUpdater.step (.create maxCacheSize)) →
          Runs.Along PtUpdater.step (Stays hash) (first.foldl PtUpdater.step (.create maxCacheSize)) second →
            Holds hash cosignature (actions.foldl PtUpdater.step (.create maxCacheSize))) := by
  have start := consistent_create maxCacheSize
  have final : Consistent (actions.foldl PtUpdater.step (.create maxCacheSize)) :=
    Runs.always_foldl (fun _ action consistent => consistent.step action) start
  have equivalent : Runs.Along PtUpdater.step SoundUpdate (.create maxCacheSize) actions ↔
      Runs.Along PtUpdater.step RefreshesSafely (.create maxCacheSize) actions :=
    Runs.Along.congr (fun _ action consistent => consistent.step action)
      (fun _ action consistent => consistent.soundUpdate_iff action) start
  refine ⟨final.recorded.lawful.soundLog, equivalent, ?_⟩
  rintro safe first second hash cosignature rfl holds stays
  have sound := (Runs.Along.append.mp (equivalent.mpr safe)).2
  rw [List.foldl_append]
  generalize first.foldl PtUpdater.step (.create maxCacheSize) = state at holds stays sound
  clear equivalent final safe
  induction second generalizing state with
  | nil => exact holds
  | cons action second ih => exact ih _ (sound.1.holds stays.1 holds) stays.2 sound.2

end Runs

namespace Samples

/-- The first byte of a key identifies its signer. -/
def signerIndex (key : State.Key) : UInt8 := key.toList.headD 0

/-- A signature repeats the first byte of the key. -/
abbrev sampleCosignatureVerifier : CosignatureVerifier := ⟨fun key _ signature => signature.toList.headD 0 = signerIndex key⟩

def aggregateHash : Hash256 := Vector.replicate 32 1

def bondedAggregate : AggregateTransactionInfo := ⟨⟨true, 4000, 10, 196, []⟩, aggregateHash, none⟩

def detachedCosignature (index : UInt8) : DetachedCosignature := ⟨sampleCosignature index, aggregateHash⟩

/-- Nothing is complete, and all cosignatures are eligible. -/
def eligibleAnswers : ValidatorAnswers := ⟨true, .missing, .missing, fun _ => .missing, .missing⟩

/-- A change of the state has made the first cosignature ineligible. -/
def staleAnswers : ValidatorAnswers :=
  ⟨true, .ineligible, .missing, fun cosignature =>
    if signerIndex cosignature.signerPublicKey = 1 then .ineligible else .missing, .missing⟩

/-- Two cosignatures detect the stale one; the second of them refreshes the entry and is added before the first one refreshes it. -/
def crossingActions : List PtUpdaterAction :=
  [.updateTransaction bondedAggregate, .run 0 eligibleAnswers, .run 0 eligibleAnswers,
    .updateCosignature (detachedCosignature 1), .run 0 eligibleAnswers, .run 0 eligibleAnswers, .run 0 eligibleAnswers,
    .updateCosignature (detachedCosignature 2), .updateCosignature (detachedCosignature 3),
    .run 0 staleAnswers, .run 0 staleAnswers, .run 1 staleAnswers, .run 1 eligibleAnswers, .run 1 eligibleAnswers]

def crossingState : PtUpdater :=
  letI := sha3Digest
  letI := sampleCosignatureVerifier
  crossingActions.foldl PtUpdater.step (.create 100000)

theorem crossing_added : (crossingState.cache.find aggregateHash).map (fun data =>
    data.cosignatures.map fun cosignature => signerIndex cosignature.signerPublicKey) = some [3] := by decide +kernel

/-- A validation has found a cosignature of the third signer ineligible. -/
def reportsThird : PtEvent → Bool
  | .answered _ [cosignature] .ineligible => signerIndex cosignature.signerPublicKey = 3
  | _ => false

theorem crossing_refreshed : letI := sha3Digest; letI := sampleCosignatureVerifier
    ((crossingState.step (.run 0 staleAnswers)).cache.find aggregateHash).map (fun data => data.cosignatures.length) = some 0 ∧
      (crossingState.step (.run 0 staleAnswers)).log.any reportsThird = false := by decide +kernel

/-- The refresh of the second cosignature drops the third one. -/
theorem refresh_drops_cosignature : letI := sha3Digest; letI := sampleCosignatureVerifier
    ¬ SoundUpdate (crossingActions.foldl PtUpdater.step (.create 100000)) (.run 0 staleAnswers) := by
  let := sha3Digest
  let := sampleCosignatureVerifier
  intro sound
  change SoundUpdate crossingState (.run 0 staleAnswers) at sound
  obtain ⟨before, foundBefore, signers⟩ := Option.map_eq_some_iff.mp crossing_added
  obtain ⟨after, foundAfter, none⟩ := Option.map_eq_some_iff.mp crossing_refreshed.1
  obtain ⟨third, others, same, isThird, -⟩ := List.map_eq_cons_iff.mp signers
  have kept := sound.keeps aggregateHash before after foundBefore foundAfter third (by rw [same]; exact List.mem_cons_self)
  rw [List.length_eq_zero_iff.mp none] at kept
  have reported : (crossingState.step (.run 0 staleAnswers)).log.any reportsThird = true :=
    List.any_eq_true.mpr ⟨_, kept.resolve_left List.not_mem_nil, decide_eq_true isThird⟩
  rw [crossing_refreshed.2] at reported
  cases reported

end Samples

end Catapult.Partial
