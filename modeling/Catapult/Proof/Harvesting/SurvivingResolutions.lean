import Catapult.Construction.Harvesting.FacadeStatements
import Catapult.Proof.Model.StatementCopies

/-
This file shows that a block statement holds nothing of dropped transactions and the values of all surviving resolutions.
-/

namespace Catapult.Harvesting

open ByteStream Io Model Unconfirmed

theorem source_le_iff {first second : ReceiptSource} :
    first ≤ second ↔ first.primaryId < second.primaryId ∨ first.primaryId = second.primaryId ∧ first.secondaryId ≤ second.secondaryId := by
  change first.key ≤ second.key ↔ _
  rw [ReceiptSource.key, ReceiptSource.key, Prod.Lex.toLex_le_toLex, UInt32.lt_iff_toNat_lt, UInt32.le_iff_toNat_le, UInt32.toNat_inj]

theorem primaryId_le {first second : ReceiptSource} (le : first ≤ second) : first.primaryId ≤ second.primaryId := by
  rcases source_le_iff.mp le with less | ⟨same, -⟩
  · exact UInt32.le_of_lt less
  · exact same ▸ UInt32.le_refl _

section Calls

variable {builder next : BlockStatementBuilder}

/-- All statements are filled, and their sources are not later than the active source. -/
structure Sound (builder : BlockStatementBuilder) : Prop where
  transactions : Filled SortedReceipts builder.statement.transactionStatements
  addresses : Filled Collapsed builder.statement.addressResolutionStatements
  mosaics : Filled Collapsed builder.statement.mosaicResolutionStatements
  transactionSources : ∀ statement ∈ builder.statement.transactionStatements, ∀ receipt ∈ statement.2, statement.1 ≤ builder.activeSource
  addressSources : ∀ statement ∈ builder.statement.addressResolutionStatements, ∀ entry ∈ statement.2, entry.source ≤ builder.activeSource
  mosaicSources : ∀ statement ∈ builder.statement.mosaicResolutionStatements, ∀ entry ∈ statement.2, entry.source ≤ builder.activeSource

theorem sound_create : Sound .create := ⟨.nil, .nil, .nil, nofun, nofun, nofun⟩

theorem Sound.setSource (sound : Sound builder) {source : ReceiptSource} (later : builder.activeSource ≤ source) : Sound
    (builder.setSource source) where
  transactions := sound.transactions
  addresses := sound.addresses
  mosaics := sound.mosaics
  transactionSources statement member receipt inside := le_trans (sound.transactionSources statement member receipt inside) later
  addressSources statement member entry inside := le_trans (sound.addressSources statement member entry inside) later
  mosaicSources statement member entry inside := le_trans (sound.mosaicSources statement member entry inside) later

/-- The copies up to a source agree. -/
structure SameUpTo (maxSourcePrimaryId : UInt32) (first second : BlockStatement) : Prop where
  transactions : keepStatements .transaction (fun source _ => maxSourcePrimaryId < source.primaryId) first.transactionStatements =
    keepStatements .transaction (fun source _ => maxSourcePrimaryId < source.primaryId) second.transactionStatements
  addresses : keepStatements .addressResolution (fun _ entry => maxSourcePrimaryId < entry.source.primaryId) first.addressResolutionStatements =
    keepStatements .addressResolution (fun _ entry => maxSourcePrimaryId < entry.source.primaryId) second.addressResolutionStatements
  mosaics : keepStatements .mosaicResolution (fun _ entry => maxSourcePrimaryId < entry.source.primaryId) first.mosaicResolutionStatements =
    keepStatements .mosaicResolution (fun _ entry => maxSourcePrimaryId < entry.source.primaryId) second.mosaicResolutionStatements

theorem SameUpTo.refl (maxSourcePrimaryId : UInt32) (statement : BlockStatement) : SameUpTo maxSourcePrimaryId statement statement := ⟨rfl, rfl, rfl⟩

theorem SameUpTo.trans {maxSourcePrimaryId : UInt32} {first second third : BlockStatement} (before : SameUpTo maxSourcePrimaryId first second)
    (after : SameUpTo maxSourcePrimaryId second third) : SameUpTo maxSourcePrimaryId first third :=
  ⟨before.transactions.trans after.transactions, before.addresses.trans after.addresses, before.mosaics.trans after.mosaics⟩

/-- A later call is sound, moves the source and leaves the copies up to earlier sources alone. -/
def Follows (builder next : BlockStatementBuilder) (source : ReceiptSource) : Prop :=
  Sound next ∧ next.activeSource = source ∧
    ∀ maxSourcePrimaryId, maxSourcePrimaryId < builder.activeSource.primaryId → SameUpTo maxSourcePrimaryId next.statement builder.statement

theorem embeddedTransaction_eq (builder : BlockStatementBuilder) : observeSourceChange .commit embeddedSourceChange builder =
    builder.setSource ⟨builder.activeSource.primaryId, builder.activeSource.secondaryId + 1⟩ := by
  change builder.setSource ⟨0 + builder.activeSource.primaryId, 1 + builder.activeSource.secondaryId⟩ = _
  rw [UInt32.zero_add, UInt32.add_comm]

theorem addReceipt_follows (sound : Sound builder) (receipt : Receipt) :
    ∃ next, builder.addReceipt receipt = .ok next ∧ Follows builder next builder.activeSource := by
  obtain ⟨statements, added⟩ := @addTo_succeeds _ _ _ .transaction builder.statement.transactionStatements builder.activeSource receipt _ rfl
  refine ⟨⟨builder.activeSource, { builder.statement with transactionStatements := statements }⟩, ?_, ⟨?_, ?_, ?_, ?_, ?_, ?_⟩, rfl, ?_⟩
  · unfold BlockStatementBuilder.addReceipt
    rw [added]
    rfl
  · exact sound.transactions.addTo transaction_fills added
  · exact sound.addresses
  · exact sound.mosaics
  · exact forall_addTo transaction_fills (fun source _ => source ≤ builder.activeSource) sound.transactionSources (le_refl _) added
  · exact sound.addressSources
  · exact sound.mosaicSources
  · exact fun _ later => ⟨keepTransactions_addTo sound.transactions.ascending later added, rfl, rfl⟩

/-- A resolution at the active source is accepted. -/
theorem addTo_resolution {K V : Type} [LinearOrder K] [DecidableEq V] {key : Codec K} {value : Codec V}
    {statements : List (K × List (ResolutionEntry V))}
    {source : ReceiptSource} (late : ∀ statement ∈ statements, ∀ entry ∈ statement.2, entry.source ≤ source) (unresolved : K) (resolved : V) :
    ∃ next, addTo (.resolution key value) statements unresolved ⟨source, resolved⟩ = .ok next := by
  obtain ⟨entries, accepted⟩ := @addResolution_succeeds _ _ (itemsOf statements unresolved) ⟨source, resolved⟩ fun entry member => by
    obtain ⟨statement, inside, -, old⟩ := mem_of_mem_itemsOf member
    exact late statement inside entry old
  exact addTo_succeeds accepted

theorem addAddressResolution_follows (sound : Sound builder) (unresolved resolved : Address) :
    ∃ next, builder.addAddressResolution unresolved resolved = .ok next ∧ Follows builder next builder.activeSource := by
  obtain ⟨statements, added⟩ := @addTo_resolution _ _ _ _ (.array 24) (.array 24) _ _ sound.addressSources unresolved resolved
  refine ⟨⟨builder.activeSource, { builder.statement with addressResolutionStatements := statements }⟩, ?_, ⟨?_, ?_, ?_, ?_, ?_, ?_⟩, rfl, ?_⟩
  · unfold BlockStatementBuilder.addAddressResolution
    exact congrArg (· >>= _) added
  · exact sound.transactions
  · exact sound.addresses.addTo resolution_fills added
  · exact sound.mosaics
  · exact sound.transactionSources
  · exact forall_addTo resolution_fills (fun _ entry => entry.source ≤ builder.activeSource) sound.addressSources (le_refl _) added
  · exact sound.mosaicSources
  · exact fun _ later => ⟨rfl, keepResolutions_addTo sound.addresses.ascending later added, rfl⟩

theorem addMosaicResolution_follows (sound : Sound builder) (unresolved : UInt64) (resolved : MosaicId) :
    ∃ next, builder.addMosaicResolution unresolved resolved = .ok next ∧ Follows builder next builder.activeSource := by
  obtain ⟨statements, added⟩ := @addTo_resolution _ _ _ _ .word64 .word64 _ _ sound.mosaicSources unresolved resolved
  refine ⟨⟨builder.activeSource, { builder.statement with mosaicResolutionStatements := statements }⟩, ?_, ⟨?_, ?_, ?_, ?_, ?_, ?_⟩, rfl, ?_⟩
  · unfold BlockStatementBuilder.addMosaicResolution
    exact congrArg (· >>= _) added
  · exact sound.transactions
  · exact sound.addresses
  · exact sound.mosaics.addTo resolution_fills added
  · exact sound.transactionSources
  · exact sound.addressSources
  · exact forall_addTo resolution_fills (fun _ entry => entry.source ≤ builder.activeSource) sound.mosaicSources (le_refl _) added
  · exact fun _ later => ⟨rfl, rfl, keepResolutions_addTo sound.mosaics.ascending later added⟩

theorem nextSource_ge {source : ReceiptSource} {call : ExecutionCall}
    (counted : call = .embeddedTransaction → source.secondaryId.toNat + 1 < 2 ^ 32) : source ≤ call.nextSource source := by
  cases call with
  | embeddedTransaction =>
    refine source_le_iff.mpr (.inr ⟨rfl, UInt32.le_iff_toNat_le.mpr ?_⟩)
    dsimp only [ExecutionCall.nextSource]
    rw [UInt32.toNat_add, show (1 : UInt32).toNat = 1 from rfl, Nat.mod_eq_of_lt (counted rfl)]
    omega
  | receipt added => exact le_refl _
  | addressResolution unresolved resolved => exact le_refl _
  | mosaicResolution unresolved resolved => exact le_refl _

theorem call_follows (sound : Sound builder) {call : ExecutionCall}
    (counted : call = .embeddedTransaction → builder.activeSource.secondaryId.toNat + 1 < 2 ^ 32) :
    ∃ next, call.run builder = .ok next ∧ Follows builder next (call.nextSource builder.activeSource) := by
  cases call with
  | embeddedTransaction =>
    have raised := nextSource_ge counted
    refine ⟨_, rfl, ?_⟩
    rw [embeddedTransaction_eq]
    exact ⟨sound.setSource raised, rfl, fun _ _ => .refl _ _⟩
  | receipt added => exact addReceipt_follows sound added
  | addressResolution unresolved resolved => exact addAddressResolution_follows sound unresolved resolved
  | mosaicResolution unresolved resolved => exact addMosaicResolution_follows sound unresolved resolved

def numEmbedded (calls : List ExecutionCall) : Nat := (calls.filter fun call => call matches .embeddedTransaction).length

theorem numEmbedded_cons (call : ExecutionCall) (calls : List ExecutionCall) {source : ReceiptSource}
    (counted : source.secondaryId.toNat + numEmbedded (call :: calls) < 2 ^ 32) :
    (call = .embeddedTransaction → source.secondaryId.toNat + 1 < 2 ^ 32) ∧
      (call.nextSource source).secondaryId.toNat + numEmbedded calls < 2 ^ 32 := by
  cases call with
  | embeddedTransaction =>
    have more : numEmbedded (.embeddedTransaction :: calls) = numEmbedded calls + 1 := rfl
    rw [more] at counted
    refine ⟨fun _ => by omega, ?_⟩
    dsimp only [ExecutionCall.nextSource]
    rw [UInt32.toNat_add, show (1 : UInt32).toNat = 1 from rfl, Nat.mod_eq_of_lt (by omega)]
    omega
  | receipt added => exact ⟨by rintro ⟨⟩, counted⟩
  | addressResolution unresolved resolved => exact ⟨by rintro ⟨⟩, counted⟩
  | mosaicResolution unresolved resolved => exact ⟨by rintro ⟨⟩, counted⟩

theorem nextSource_primaryId (source : ReceiptSource) (call : ExecutionCall) : (call.nextSource source).primaryId = source.primaryId := by
  cases call <;> rfl

/-- Calls with countable embedded transactions succeed and leave the copies up to earlier sources alone. -/
theorem calls_follow (calls : List ExecutionCall) (sound : Sound builder)
    (counted : builder.activeSource.secondaryId.toNat + numEmbedded calls < 2 ^ 32) :
    ∃ next, calls.foldlM ExecutionCall.run builder = .ok next ∧ Sound next ∧ next.activeSource.primaryId = builder.activeSource.primaryId ∧
      ∀ maxSourcePrimaryId, maxSourcePrimaryId < builder.activeSource.primaryId → SameUpTo maxSourcePrimaryId next.statement builder.statement := by
  induction calls generalizing builder with
  | nil => exact ⟨builder, rfl, sound, rfl, fun _ _ => .refl _ _⟩
  | cons call calls ih =>
    obtain ⟨first, rest⟩ := numEmbedded_cons call calls counted
    obtain ⟨middle, ran, middleSound, source, before⟩ := call_follows sound first
    obtain ⟨next, others, nextSound, same, after⟩ := ih middleSound (source ▸ rest)
    have primary : middle.activeSource.primaryId = builder.activeSource.primaryId := by rw [source, nextSource_primaryId]
    refine ⟨next, ?_, nextSound, same.trans primary, fun maxSourcePrimaryId earlier => ?_⟩
    · rw [List.foldlM_cons, ran]
      exact others
    · exact (after maxSourcePrimaryId (primary ▸ earlier)).trans (before maxSourcePrimaryId earlier)

end Calls

section Transactions

variable {builder fresh next : BlockStatementBuilder} {calls : List ExecutionCall} {transactions : List (List ExecutionCall)}

theorem transactionSource_eq (builder : BlockStatementBuilder) : observeSourceChange .commit transactionSourceChange builder =
    builder.setSource ⟨builder.activeSource.primaryId + 1, 0⟩ := by
  change builder.setSource ⟨1 + builder.activeSource.primaryId, 0⟩ = _
  rw [UInt32.add_comm]

/-- The calls of a transaction do not depend on the secondary identifier before it. -/
theorem executeCalls_congr (statement : builder.statement = fresh.statement)
    (source : builder.activeSource.primaryId = fresh.activeSource.primaryId) :
    executeCalls calls builder = executeCalls calls fresh := by
  unfold executeCalls
  rw [transactionSource_eq, transactionSource_eq, BlockStatementBuilder.setSource, BlockStatementBuilder.setSource, statement, source]

theorem succ_toNat {count : Nat} {word : UInt32} (same : word.toNat = count) (small : count + 1 < 2 ^ 32) : (word + 1).toNat = count + 1 := by
  rw [UInt32.toNat_add, same, show (1 : UInt32).toNat = 1 from rfl, Nat.mod_eq_of_lt small]

/-- A transaction raises the primary identifier and leaves the copies up to the source before it alone. -/
theorem executeCalls_follows (sound : Sound builder) (small : builder.activeSource.primaryId.toNat + 1 < 2 ^ 32)
    (embedded : numEmbedded calls < 2 ^ 32) :
    ∃ next, executeCalls calls builder = .ok next ∧ Sound next ∧ next.activeSource.primaryId = builder.activeSource.primaryId + 1 ∧
      SameUpTo builder.activeSource.primaryId next.statement builder.statement := by
  have above : builder.activeSource.primaryId < builder.activeSource.primaryId + 1 := by
    rw [UInt32.lt_iff_toNat_lt, succ_toNat rfl small]
    exact Nat.lt_succ_self _
  have raised : Sound (builder.setSource ⟨builder.activeSource.primaryId + 1, 0⟩) := sound.setSource (source_le_iff.mpr (.inl above))
  obtain ⟨next, ran, nextSound, primary, before⟩ := calls_follow calls raised ((Nat.zero_add _).trans_lt embedded)
  refine ⟨next, ?_, nextSound, primary, before _ above⟩
  unfold executeCalls
  rw [transactionSource_eq]
  exact ran

/-- A copy of statements that agree up to a sound builder is the statement of that builder. -/
theorem deepCopy_eq (sound : Sound next) (earlier : Sound builder) (same : SameUpTo builder.activeSource.primaryId next.statement builder.statement)
    (copyable : Copyable builder.activeSource.primaryId next.statement) : deepCopy builder.activeSource.primaryId next.statement =
      .ok builder.statement := by
  have transactions : copyTransactionStatements builder.activeSource.primaryId next.statement.transactionStatements =
      .ok builder.statement.transactionStatements := by
    rw [copyTransactionStatements_eq transaction_fills sound.transactions copyable.1, same.transactions]
    refine keepStatements_self transaction_fills earlier.transactions fun statement member receipt inside => ?_
    exact decide_eq_false (UInt32.not_lt.mpr (primaryId_le (earlier.transactionSources statement member receipt inside)))
  have addresses : copyResolutionStatements .addressResolution builder.activeSource.primaryId next.statement.addressResolutionStatements =
      .ok builder.statement.addressResolutionStatements := by
    rw [copyResolutionStatements_eq copyable.2.1, same.addresses]
    refine keepStatements_self resolution_fills earlier.addresses fun statement member entry inside => ?_
    exact decide_eq_false (UInt32.not_lt.mpr (primaryId_le (earlier.addressSources statement member entry inside)))
  have mosaics : copyResolutionStatements .mosaicResolution builder.activeSource.primaryId next.statement.mosaicResolutionStatements =
      .ok builder.statement.mosaicResolutionStatements := by
    rw [copyResolutionStatements_eq copyable.2.2, same.mosaics]
    refine keepStatements_self resolution_fills earlier.mosaics fun statement member entry inside => ?_
    exact decide_eq_false (UInt32.not_lt.mpr (primaryId_le (earlier.mosaicSources statement member entry inside)))
  unfold deepCopy
  rw [transactions, addresses, mosaics]
  rfl

/-- Dropping a transaction restores the statement before it. -/
theorem popSource_restores (sound : Sound builder) (small : builder.activeSource.primaryId.toNat + 1 < 2 ^ 32) (nextSound : Sound next)
    (primary : next.activeSource.primaryId = builder.activeSource.primaryId + 1)
    (same : SameUpTo builder.activeSource.primaryId next.statement builder.statement)
    (copyable : Copyable (next.activeSource.primaryId - 1) next.statement) {current : BlockStatementBuilder}
    (statement : current.statement = next.statement) (source : current.activeSource.primaryId = next.activeSource.primaryId) :
    current.popSource = .ok ⟨⟨builder.activeSource.primaryId, 0⟩, builder.statement⟩ := by
  have back : current.activeSource.primaryId - 1 = builder.activeSource.primaryId := by rw [source, primary, UInt32.add_sub_cancel]
  have nonzero : current.activeSource.primaryId ≠ 0 := by
    intro zero
    have count := congrArg UInt32.toNat ((source.trans primary).symm.trans zero)
    rw [succ_toNat rfl small] at count
    cases count
  have copied := deepCopy_eq nextSound sound same (back ▸ source ▸ copyable)
  unfold BlockStatementBuilder.popSource
  rw [if_neg nonzero, back, statement]
  dsimp only
  rw [copied]
  rfl

theorem applyAttempt_succeeds (calls : List ExecutionCall) (builder : BlockStatementBuilder) :
    FacadeStep.run builder (.apply (.succeeds calls)) = executeCalls calls builder := by
  change ((executeCalls calls builder >>= fun next => pure (next, true)) >>= fun processed => _) = _
  cases executeCalls calls builder with
  | error failure => rfl
  | ok next => rfl

theorem applyAll_append (transactions : List (List ExecutionCall)) (calls : List ExecutionCall) :
    applyAll (transactions ++ [calls]) = applyAll transactions >>= executeCalls calls := by
  unfold applyAll runSteps
  rw [List.map_append, List.foldlM_append]
  refine bind_congr fun builder => ?_
  rw [List.map_singleton, List.foldlM_cons, applyAttempt_succeeds]
  exact bind_pure _

theorem Numbered.front (numbered : Numbered (transactions ++ [calls])) : Numbered transactions := by
  refine ⟨?_, fun other member => numbered.2 other (List.mem_append_left _ member)⟩
  have total := numbered.1
  rw [List.length_append, List.length_singleton] at total
  omega

/-- Numbered transactions can be applied with a new builder. -/
theorem applyAll_sound (numbered : Numbered transactions) :
    ∃ fresh, applyAll transactions = .ok fresh ∧ Sound fresh ∧ fresh.activeSource.primaryId.toNat = transactions.length := by
  induction transactions using List.reverseRecOn with
  | nil => exact ⟨.create, rfl, sound_create, rfl⟩
  | append_singleton transactions calls ih =>
    obtain ⟨fresh, applied, sound, count⟩ := ih numbered.front
    have small : transactions.length + 1 < 2 ^ 32 := by simpa using numbered.1
    obtain ⟨next, ran, nextSound, primary, -⟩ := executeCalls_follows sound (count ▸ small)
      (numbered.2 calls (List.mem_append_right _ List.mem_cons_self))
    refine ⟨next, ?_, nextSound, ?_⟩
    · rw [applyAll_append, applied]
      exact ran
    · rw [primary, succ_toNat count small, List.length_append, List.length_singleton]

/-- The builder of a run agrees with a new builder to which the surviving transactions were applied. -/
structure Matches (transactions : List (List ExecutionCall)) (builder fresh : BlockStatementBuilder) : Prop where
  numbered : Numbered transactions
  applied : applyAll transactions = .ok fresh
  statement : builder.statement = fresh.statement
  primaryId : builder.activeSource.primaryId = fresh.activeSource.primaryId

theorem matches_create : Matches [] .create .create := ⟨⟨Nat.two_pow_pos 32, nofun⟩, rfl, rfl, rfl⟩

/-- A further transaction can be executed, and it can be dropped again. -/
theorem Matches.execute (run : Matches transactions builder fresh) (numbered : Numbered (transactions ++ [calls])) :
    ∃ next, executeCalls calls builder = .ok next ∧ Matches (transactions ++ [calls]) next next ∧
      next.activeSource.primaryId ≠ builder.activeSource.primaryId ∧
      (Droppable (transactions ++ [calls]) → ∀ current : BlockStatementBuilder, current.statement = next.statement →
        current.activeSource.primaryId = next.activeSource.primaryId → ∃ earlier, current.popSource = .ok earlier ∧
          Matches transactions earlier fresh) := by
  obtain ⟨same, applied, sound, count⟩ := applyAll_sound run.numbered
  cases run.applied.symm.trans applied
  have small : fresh.activeSource.primaryId.toNat + 1 < 2 ^ 32 := by
    rw [count]
    simpa using numbered.1
  obtain ⟨next, ran, nextSound, primary, kept⟩ := executeCalls_follows sound small (numbered.2 calls (List.mem_append_right _ List.mem_cons_self))
  have all : applyAll (transactions ++ [calls]) = .ok next := by
    rw [applyAll_append, applied]
    exact ran
  refine ⟨next, (executeCalls_congr run.statement run.primaryId).trans ran,
    ⟨numbered, all, rfl, rfl⟩, ?_, fun droppable current statement source => ?_⟩
  · rw [primary, run.primaryId, ← UInt32.toNat_inj.ne, succ_toNat rfl small]
    exact Nat.succ_ne_self _
  · exact ⟨_, popSource_restores sound small nextSound primary kept (droppable next all) statement source, run.numbered, applied, rfl, rfl⟩

/-- A step keeps the agreement with the surviving transactions. -/
theorem Matches.step (run : Matches transactions builder fresh) {step : FacadeStep} {steps : List FacadeStep}
    (within : WithinCounters transactions (step :: steps)) :
    ∃ next nextFresh, step.run builder = .ok next ∧ Matches (step.survivors transactions) next nextFresh := by
  cases step with
  | apply attempt =>
    cases attempt with
    | succeeds calls =>
      obtain ⟨next, ran, matched, -, -⟩ := run.execute within.1
      exact ⟨next, next, (applyAttempt_succeeds calls builder).trans ran, matched⟩
    | fails calls =>
      obtain ⟨next, ran, -, moved, drop⟩ := run.execute within.1.1
      obtain ⟨earlier, popped, matched⟩ := drop within.1.2 next rfl rfl
      refine ⟨earlier, fresh, ?_, matched⟩
      change ((executeCalls calls builder >>= fun next => pure (next, false)) >>= fun processed => _) = _
      rw [ran]
      exact (if_pos moved.symm).trans popped
    | rejected =>
      refine ⟨builder, fresh, ?_, run⟩
      exact if_neg (fun moved => moved rfl)
  | unapply =>
    rcases List.eq_nil_or_concat transactions with rfl | ⟨front, calls, rfl⟩
    · refine ⟨builder, fresh, ?_, run⟩
      have zero : builder.activeSource.primaryId = 0 := by
        rw [run.primaryId]
        cases run.applied
        rfl
      exact if_pos zero
    · rw [List.concat_eq_append] at run within ⊢
      obtain ⟨frontFresh, applied, sound, count⟩ := applyAll_sound run.numbered.front
      have matched : Matches front frontFresh frontFresh := ⟨run.numbered.front, applied, rfl, rfl⟩
      obtain ⟨next, ran, all, -, drop⟩ := matched.execute run.numbered
      cases all.applied.symm.trans run.applied
      obtain ⟨earlier, popped, before⟩ := drop within.1 builder run.statement run.primaryId
      refine ⟨earlier, frontFresh, popped, ?_⟩
      change Matches (front ++ [calls]).dropLast earlier frontFresh
      rw [List.dropLast_concat]
      exact before

/-- Every run within the counters agrees with its surviving transactions. -/
theorem Matches.steps (run : Matches transactions builder fresh) {steps : List FacadeStep} (within : WithinCounters transactions steps) :
    ∃ final finalFresh, steps.foldlM FacadeStep.run builder = .ok final ∧ Matches
        (steps.foldl FacadeStep.survivors transactions) final finalFresh := by
  induction steps generalizing transactions builder fresh with
  | nil => exact ⟨builder, fresh, rfl, run⟩
  | cons step steps ih =>
    obtain ⟨next, nextFresh, ran, matched⟩ := run.step within
    obtain ⟨final, finalFresh, others, last⟩ := ih matched within.2
    refine ⟨final, finalFresh, ?_, last⟩
    rw [List.foldlM_cons]
    exact (congrArg (· >>= _) ran).trans others

end Transactions

section Logs

variable {K V : Type} [LinearOrder K] [DecidableEq V] {key : Codec K} {value : Codec V} {log : List (ReceiptSource × K × V)}
  {statements next : List (K × List (ResolutionEntry V))} {active source : ReceiptSource} {unresolved : K} {resolved : V}

/-- The entries give the last resolutions of a log whose sources are not later than the active source. -/
structure Recorded (log : List (ReceiptSource × K × V)) (statements : List (K × List (ResolutionEntry V))) (active : ReceiptSource) : Prop where
  sources : ∀ statement ∈ statements, ∀ entry ∈ statement.2, entry.source ≤ active
  logged : ∀ resolution ∈ log, resolution.1 ≤ active
  values : ∀ source unresolved value, lastResolution log source unresolved = some value → lookup statements source unresolved = some value

omit [DecidableEq V] in
theorem Recorded.raise (recorded : Recorded log statements active) (later : active ≤ source) : Recorded log statements source where
  sources statement member entry inside := le_trans (recorded.sources statement member entry inside) later
  logged resolution member := le_trans (recorded.logged resolution member) later
  values := recorded.values

omit [DecidableEq V] in
theorem lookup_eq (statements : List (K × List (ResolutionEntry V))) (source : ReceiptSource) (unresolved : K) :
    lookup statements source unresolved =
      ((itemsOf statements unresolved).filter fun entry => entry.source ≤ source).getLast?.map ResolutionEntry.resolvedValue := by
  unfold lookup itemsOf
  cases SortedMap.find unresolved statements with
  | none => rfl
  | some statement =>
    change ((statement.2.filter fun entry => entry.source ≤ source).getLast? >>= fun entry => some entry.resolvedValue) = _
    rw [Option.elim_some]
    cases (statement.2.filter fun entry => decide (entry.source ≤ source)).getLast? with
    | none => rfl
    | some entry => rfl

omit [DecidableEq V] in
theorem lastResolution_append (log : List (ReceiptSource × K × V)) (source active : ReceiptSource) (unresolved other : K) (resolved : V) :
    lastResolution (log ++ [(active, other, resolved)]) source unresolved =
      if active = source ∧ other = unresolved then some resolved else lastResolution log source unresolved := by
  unfold lastResolution
  rw [List.filter_append, List.filter_cons, List.filter_nil]
  by_cases same : active = source ∧ other = unresolved
  · rw [if_pos same, if_pos (decide_eq_true same), List.getLast?_concat]
    rfl
  · rw [if_neg same, if_neg (fun holds => same (of_decide_eq_true holds)), List.append_nil]

/-- A resolution at the active source is recorded, and the earlier ones stay. -/
theorem Recorded.addTo (recorded : Recorded log statements active)
    (added : addTo (.resolution key value) statements unresolved ⟨active, resolved⟩ = .ok next) :
    Recorded (log ++ [(active, unresolved, resolved)]) next active where
  sources := forall_addTo (@resolution_fills _ _ _ key value) (fun _ entry => entry.source ≤ active) recorded.sources (le_refl _) added
  logged resolution member := by
    rcases List.mem_append.mp member with old | new
    · exact recorded.logged resolution old
    · rw [List.mem_singleton.mp new]
  values source other final last := by
    obtain ⟨entries, accepted, -⟩ := addTo_ok added
    rw [lookup_eq]
    rw [lastResolution_append] at last
    by_cases own : unresolved = other
    · subst own
      rw [itemsOf_addTo_self accepted added]
      have low : ∀ entry ∈ itemsOf statements unresolved, entry.source ≤ active := by
        intro entry member
        obtain ⟨statement, inside, -, old⟩ := mem_of_mem_itemsOf member
        exact recorded.sources statement inside entry old
      by_cases here : active = source
      · -- all entries count at the active source, and the last one has the new value
        subst here
        rw [if_pos ⟨rfl, rfl⟩] at last
        cases last
        have all : ∀ entry ∈ entries, decide (entry.source ≤ active) = true := by
          intro entry member
          rcases resolution_fills.mem _ _ _ accepted entry member with rfl | old
          · exact decide_eq_true (le_refl _)
          · exact decide_eq_true (low entry old)
        rw [List.filter_eq_self.mpr all]
        rcases addResolution_ok accepted with rfl | ⟨rfl, previous, isLast, same⟩
        · rw [List.getLast?_concat]
          rfl
        · rw [isLast]
          exact congrArg some same
      · rw [if_neg fun both => here both.1] at last
        have known := recorded.values source unresolved final last
        rw [lookup_eq] at known
        rcases addResolution_ok accepted with rfl | ⟨rfl, -⟩
        · -- the resolution was logged at an earlier source, so the new entry does not count there
          have earlier : source ≤ active := by
            obtain ⟨resolution, isLast, -⟩ := Option.map_eq_some_iff.mp last
            have member := List.mem_filter.mp (List.mem_of_getLast? isLast)
            exact (of_decide_eq_true member.2).1 ▸ recorded.logged resolution member.1
          have later : ¬ active ≤ source := fun le => here (le_antisymm le earlier)
          rw [List.filter_append, List.filter_cons_of_neg (by simpa using later), List.filter_nil, List.append_nil]
          exact known
        · exact known
    · rw [if_neg fun both => own both.2] at last
      rw [itemsOf_addTo_other added own, ← lookup_eq]
      exact recorded.values source other final last

end Logs

section Runs

variable {K V : Type} [LinearOrder K] [DecidableEq V] {key : Codec K} {value : Codec V} {pair : ExecutionCall → Option (K × V)}
  {view : BlockStatement → List (K × List (ResolutionEntry V))} {builder fresh : BlockStatementBuilder} {log : List (ReceiptSource × K × V)}

/-- Calls with a resolution add it to their statements, and all other calls leave these statements alone. -/
structure Resolves (key : Codec K) (value : Codec V) (pair : ExecutionCall → Option (K × V))
    (view : BlockStatement → List (K × List (ResolutionEntry V))) : Prop where
  made : ∀ {builder next : BlockStatementBuilder} {call unresolved resolved}, call.run builder = .ok next → pair call = some (unresolved, resolved) →
    addTo (.resolution key value) (view builder.statement) unresolved ⟨builder.activeSource, resolved⟩ = .ok (view next.statement)
  kept : ∀ {builder next : BlockStatementBuilder} {call}, call.run builder = .ok next → pair call = none → view next.statement =
    view builder.statement
  created : view BlockStatementBuilder.create.statement = []

/-- An addition to a statement changes the builder if it succeeds. -/
theorem bind_ok {α β : Type} {action : Except BuilderError α} {wrap : α → β} {result : β} (ran : (do return wrap (← action)) = Except.ok result) :
    ∃ value, action = .ok value ∧ result = wrap value := by
  cases action with
  | error failure => cases ran
  | ok value =>
    cases ran
    exact ⟨value, rfl, rfl⟩

theorem addresses_resolve : Resolves (.array 24) (.array 24) ExecutionCall.addressPair BlockStatement.addressResolutionStatements where
  made {builder next call unresolved resolved} ran same := by
    cases call with
    | addressResolution first second =>
      cases same
      obtain ⟨statements, added, rfl⟩ := bind_ok ran
      exact added
    | _ => cases same
  kept {builder next call} ran same := by
    cases call with
    | embeddedTransaction =>
      cases ran
      rw [embeddedTransaction_eq]
      rfl
    | receipt added =>
      obtain ⟨statements, -, rfl⟩ := bind_ok ran
      rfl
    | addressResolution unresolved resolved => cases same
    | mosaicResolution unresolved resolved =>
      obtain ⟨statements, -, rfl⟩ := bind_ok ran
      rfl
  created := rfl

theorem mosaics_resolve : Resolves .word64 .word64 ExecutionCall.mosaicPair BlockStatement.mosaicResolutionStatements where
  made {builder next call unresolved resolved} ran same := by
    cases call with
    | mosaicResolution first second =>
      cases same
      obtain ⟨statements, added, rfl⟩ := bind_ok ran
      exact added
    | _ => cases same
  kept {builder next call} ran same := by
    cases call with
    | embeddedTransaction =>
      cases ran
      rw [embeddedTransaction_eq]
      rfl
    | receipt added =>
      obtain ⟨statements, -, rfl⟩ := bind_ok ran
      rfl
    | addressResolution unresolved resolved =>
      obtain ⟨statements, -, rfl⟩ := bind_ok ran
      rfl
    | mosaicResolution unresolved resolved => cases same
  created := rfl

/-- A call records the resolution that it makes. -/
theorem Recorded.call (resolves : Resolves key value pair view) (recorded : Recorded log (view builder.statement) builder.activeSource)
    (sound : Sound builder) {call : ExecutionCall} (counted : call = .embeddedTransaction → builder.activeSource.secondaryId.toNat + 1 < 2 ^ 32) :
    ∃ next, call.run builder = .ok next ∧ Sound next ∧ next.activeSource = call.nextSource builder.activeSource ∧
      Recorded (log ++ (pair call).toList.map fun resolution => (builder.activeSource, resolution)) (view next.statement) next.activeSource := by
  obtain ⟨next, ran, nextSound, source, -⟩ := call_follows sound counted
  refine ⟨next, ran, nextSound, source, ?_⟩
  rw [source]
  have later : builder.activeSource ≤ call.nextSource builder.activeSource := nextSource_ge counted
  cases same : pair call with
  | none =>
    rw [resolves.kept ran same, Option.toList_none, List.map_nil, List.append_nil]
    exact recorded.raise later
  | some resolution => exact (recorded.addTo (resolves.made ran same)).raise later

/-- The calls of a transaction record their resolutions. -/
theorem Recorded.calls (resolves : Resolves key value pair view) (calls : List ExecutionCall)
    (recorded : Recorded log (view builder.statement) builder.activeSource) (sound : Sound builder)
    (counted : builder.activeSource.secondaryId.toNat + numEmbedded calls < 2 ^ 32) :
    ∃ next, calls.foldlM ExecutionCall.run builder = .ok next ∧
      Recorded (log ++ callResolutions pair builder.activeSource calls) (view next.statement) next.activeSource := by
  induction calls generalizing builder log with
  | nil => exact ⟨builder, rfl, by rwa [callResolutions, List.append_nil]⟩
  | cons call calls ih =>
    obtain ⟨first, rest⟩ := numEmbedded_cons call calls counted
    obtain ⟨middle, ran, middleSound, source, middleRecorded⟩ := recorded.call resolves sound first
    obtain ⟨next, others, last⟩ := ih middleRecorded middleSound (source ▸ rest)
    refine ⟨next, ?_, ?_⟩
    · rw [List.foldlM_cons, ran]
      exact others
    · rw [callResolutions, ← List.append_assoc, ← source]
      exact last

omit [LinearOrder K] [DecidableEq V] in
theorem resolutions_append (pair : ExecutionCall → Option (K × V)) (primaryId : UInt32) (transactions : List (List ExecutionCall))
    (calls : List ExecutionCall) : resolutions pair primaryId (transactions ++ [calls]) =
      resolutions pair primaryId transactions ++ callResolutions pair ⟨primaryId + UInt32.ofNat transactions.length + 1, 0⟩ calls := by
  induction transactions generalizing primaryId with
  | nil =>
    rw [List.nil_append, resolutions, resolutions, resolutions, List.append_nil, List.nil_append, List.length_nil]
    rw [show UInt32.ofNat 0 = 0 from rfl, UInt32.add_zero]
  | cons first transactions ih =>
    rw [List.cons_append, resolutions, resolutions, ih, List.append_assoc, List.length_cons, UInt32.ofNat_add]
    rw [show UInt32.ofNat 1 = 1 from rfl, UInt32.add_assoc primaryId 1, UInt32.add_comm 1]

/-- Transactions that are applied with a new builder record all their resolutions. -/
theorem applyAll_recorded (resolves : Resolves key value pair view) {transactions : List (List ExecutionCall)} (numbered : Numbered transactions)
    (applied : applyAll transactions = .ok fresh) : Recorded (resolutions pair 0 transactions) (view fresh.statement) fresh.activeSource := by
  induction transactions using List.reverseRecOn generalizing fresh with
  | nil =>
    cases applied
    rw [resolves.created]
    exact ⟨nofun, nofun, fun _ _ _ found => nomatch found⟩
  | append_singleton transactions calls ih =>
    obtain ⟨front, frontApplied, sound, count⟩ := applyAll_sound numbered.front
    have small : front.activeSource.primaryId.toNat + 1 < 2 ^ 32 := by
      rw [count]
      simpa using numbered.1
    have above : front.activeSource ≤ ⟨front.activeSource.primaryId + 1, 0⟩ := by
      refine source_le_iff.mpr (.inl ?_)
      rw [UInt32.lt_iff_toNat_lt, succ_toNat rfl small]
      exact Nat.lt_succ_self _
    have embedded := numbered.2 calls (List.mem_append_right _ List.mem_cons_self)
    have raised : Recorded (resolutions pair 0 transactions) (view front.statement) ⟨front.activeSource.primaryId + 1, 0⟩ :=
      (ih numbered.front frontApplied).raise above
    obtain ⟨next, ran, recorded⟩ := @Recorded.calls _ _ _ _ _ _ _ _ (front.setSource ⟨front.activeSource.primaryId + 1, 0⟩) _ resolves calls raised
      (sound.setSource above) ((Nat.zero_add _).trans_lt embedded)
    have executed : executeCalls calls front = .ok next := by
      unfold executeCalls
      rw [transactionSource_eq]
      exact ran
    rw [applyAll_append, frontApplied] at applied
    cases executed.symm.trans applied
    rw [resolutions_append, ← count, UInt32.ofNat_toNat, UInt32.zero_add]
    exact recorded

end Runs

/-- Dropped transactions leave no trace in the block statement, and its entries give the values of the surviving resolutions. -/
theorem statements_ofSurvivors [Sha3] (steps : List FacadeStep) (within : WithinCounters [] steps) :
    ∃ builder fresh, runSteps steps = .ok builder ∧ applyAll (survivingTransactions steps) = .ok fresh ∧ builder.statement = fresh.statement ∧
      (∀ limit, calculateMerkleHash limit builder.statement = calculateMerkleHash limit fresh.statement) ∧
      (∀ source unresolved value,
        lastResolution (resolutions ExecutionCall.addressPair 0 (survivingTransactions steps)) source unresolved = some value →
        lookup builder.statement.addressResolutionStatements source unresolved = some value) ∧
      ∀ source unresolved value, lastResolution (resolutions ExecutionCall.mosaicPair 0 (survivingTransactions steps)) source unresolved =
        some value →
        lookup builder.statement.mosaicResolutionStatements source unresolved = some value := by
  obtain ⟨builder, fresh, ran, run⟩ := matches_create.steps within
  refine ⟨builder, fresh, ran, run.applied, run.statement, fun limit => by rw [run.statement], ?_, ?_⟩
  · rw [run.statement]
    exact (applyAll_recorded addresses_resolve run.numbered run.applied).values
  · rw [run.statement]
    exact (applyAll_recorded mosaics_resolve run.numbered run.applied).values

namespace Samples

theorem runSteps_replicate (count : Nat) :
    runSteps (List.replicate count (.apply (.succeeds []))) = .ok ⟨⟨UInt32.ofNat count, 0⟩, ⟨[], [], []⟩⟩ := by
  induction count with
  | zero => rfl
  | succ count ih =>
    unfold runSteps at ih ⊢
    rw [List.replicate_succ', List.foldlM_append, ih]
    change executeCalls [] ⟨⟨UInt32.ofNat count, 0⟩, ⟨[], [], []⟩⟩ = _
    unfold executeCalls
    rw [transactionSource_eq, UInt32.ofNat_add]
    rfl

def resolving (resolved : MosaicId) : FacadeStep := .apply (.succeeds [.mosaicResolution 1 resolved])

/-- The primary identifier of transaction 2 ^ 32 is zero, and a source can have two values. -/
theorem resolution_outOfOrder : (¬∀ steps, ∃ builder, runSteps steps = .ok builder) ∧
    ¬∀ steps builder, runSteps steps = .ok builder → ∀ resolution ∈ resolutions ExecutionCall.mosaicPair 0 (survivingTransactions steps),
      lookup builder.statement.mosaicResolutionStatements resolution.1 resolution.2.1 = some resolution.2.2 := by
  constructor
  · intro ends
    obtain ⟨builder, ran⟩ := ends (List.replicate 4294967294 (.apply (.succeeds [])) ++ [resolving 2, resolving 3])
    have empties := runSteps_replicate 4294967294
    unfold runSteps at ran empties
    rw [List.foldlM_append, empties] at ran
    cases ran
  · intro given
    have first := given [.apply (.succeeds [.mosaicResolution 1 2, .mosaicResolution 1 3])] _ rfl (⟨1, 0⟩, 1, 2) List.mem_cons_self
    cases first

/-- A transaction with a shared alias fails, and another one is unapplied. -/
def dropping : List FacadeStep :=
  [resolving 2, .apply (.fails [.embeddedTransaction, .mosaicResolution 1 3]), resolving 4, .unapply, .apply .rejected, resolving 5]

theorem copyable_of_small {statement : BlockStatement} (transactions : statement.transactionStatements = [])
    (addresses : statement.addressResolutionStatements = [])
    (mosaics : ∀ pair ∈ statement.mosaicResolutionStatements, pair.2.length < 2 ^ 32) (maxSourcePrimaryId : UInt32) :
      Copyable maxSourcePrimaryId statement := by
  unfold Copyable
  rw [transactions, addresses]
  exact ⟨nofun, nofun, mosaics⟩

theorem dropping_withinCounters : WithinCounters [] dropping := by
  refine ⟨(by decide : Numbered [_]), ⟨(by decide : Numbered [_, _]), ?_⟩, (by decide : Numbered [_, _]), ?_, trivial,
    (by decide : Numbered [_, _]), trivial⟩
  · intro builder ran
    cases ran
    exact copyable_of_small rfl rfl (by decide) _
  · intro builder ran
    cases ran
    exact copyable_of_small rfl rfl (by decide) _

/-- Nothing of a dropped transaction survives. -/
theorem dropping_leavesNothing : ∃ builder fresh, runSteps dropping = .ok builder ∧ applyAll (survivingTransactions dropping) = .ok fresh ∧
    builder.statement = fresh.statement ∧ lookup builder.statement.mosaicResolutionStatements ⟨2, 0⟩ 1 = some 5 := by
  let _ := sha3Digest
  obtain ⟨builder, fresh, ran, applied, same, -, -, mosaics⟩ := statements_ofSurvivors dropping dropping_withinCounters
  exact ⟨builder, fresh, ran, applied, same, mosaics ⟨2, 0⟩ 1 5 rfl⟩

end Samples

end Catapult.Harvesting
