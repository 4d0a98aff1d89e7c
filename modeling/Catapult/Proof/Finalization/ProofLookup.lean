import Catapult.Construction.Finalization.FileProofStorage
import Catapult.Library.Runs
import Catapult.Proof.Io.FileDatabase

/-
This file decides when the stored finalization proofs are found by their heights.
-/

namespace Catapult.Finalization

open Io Runs FileProofStorage

/-- The first epoch has one block and all others have as many as the voting set grouping says. -/
def epochEnd (grouping epoch : Nat) : Nat := if epoch = 1 then 1 else (epoch - 1) * grouping

/-- The heights of an epoch follow those of the epoch before it. -/
def InEpoch (grouping epoch height : Nat) : Prop :=
  if epoch = 1 then height = 1
  else 2 ≤ epoch ∧ epochEnd grouping (epoch - 1) < height ∧ height ≤ epochEnd grouping epoch

/-- A proof belongs to its epoch, and an epoch starts after the last block of the previous one. -/
def Placed (grouping : Nat) (storage : FileProofStorage) (proof : FinalizationProofBuffer) : Prop :=
  InEpoch grouping proof.round.epoch.toNat proof.height.toNat ∧
    (storage.statistics.round.epoch < proof.round.epoch → storage.statistics.round.epoch ≠ 0 →
      storage.statistics.height.toNat = epochEnd grouping storage.statistics.round.epoch.toNat)

/-- The last proof of an epoch. -/
def latest (proofs : List FinalizationProofBuffer) (epoch : Nat) : Option FinalizationProofBuffer :=
  (proofs.filter fun proof => proof.round.epoch.toNat = epoch).getLast?

/-- The latest proofs are found by their epochs and heights, and the statistics never go back. -/
structure CompleteStorage (database : FileDatabase) (proofs : List FinalizationProofBuffer)
    (storage : FileProofStorage) : Prop where
  byEpoch : ∀ epoch proof, storage.loadProof epoch = .ok proof ↔ latest proofs epoch.toNat = some proof
  byHeight : ∀ height proof, storage.loadProofAtHeight height = .ok (some proof) ↔
    latest proofs proof.round.epoch.toNat = some proof ∧ proof.height = height
  forward : ∀ earlier later middle, proofs = earlier ++ later → earlier.foldlM saveProof (create database) = .ok middle →
      middle.statistics.round ≤ storage.statistics.round ∧ middle.statistics.height ≤ storage.statistics.height

/-- The newest proof ends its epoch unless the epoch is one of the first two. -/
def Settled (grouping : Nat) (proofs : List FinalizationProofBuffer) : Prop :=
  ∀ newest, proofs.getLast? = some newest → newest.round.epoch.toNat ≤ 2 ∨
    newest.height.toNat = epochEnd grouping newest.round.epoch.toNat

section Heights

/-- The latest proofs of all epochs before the current one are at the last heights of their epochs. -/
structure Heights (grouping current : Nat) (heights : Nat → Nat) : Prop where
  placed : ∀ epoch, 1 ≤ epoch → epoch ≤ current → InEpoch grouping epoch (heights epoch)
  completed : ∀ epoch, 1 ≤ epoch → epoch < current → heights epoch = epochEnd grouping epoch

/-- The epoch in which a height is searched, as it follows from the height of the second epoch. -/
def closestEpoch (current second height : Nat) : Nat := if current < 2 then 1 else height / second + 1

variable {grouping current : Nat} {heights : Nat → Nat}

theorem epochEnd_one (grouping : Nat) : epochEnd grouping 1 = 1 := rfl

theorem epochEnd_of_two_le (grouping : Nat) {epoch : Nat} (two : 2 ≤ epoch) :
    epochEnd grouping epoch = (epoch - 1) * grouping := if_neg (by omega)

theorem Heights.first (placement : Heights grouping current heights) (positive : 1 ≤ current) : heights 1 = 1 :=
  placement.placed 1 (Nat.le_refl 1) positive

/-- A second epoch needs a block after the first one. -/
theorem Heights.second (placement : Heights grouping current heights) (two : 2 ≤ current) :
    2 ≤ heights 2 ∧ heights 2 ≤ grouping := by
  have placed := placement.placed 2 (by decide) two
  rw [InEpoch, if_neg (by decide), epochEnd_of_two_le grouping (Nat.le_refl 2), epochEnd_one] at placed
  omega

theorem Heights.second_completed (placement : Heights grouping current heights) (three : 3 ≤ current) : heights 2 = grouping := by
  rw [placement.completed 2 (by decide) three, epochEnd_of_two_le grouping (Nat.le_refl 2), Nat.one_mul]

/-- An epoch from the third one on lies between two multiples of the grouping. -/
theorem Heights.bounds (placement : Heights grouping current heights) {epoch : Nat} (three : 3 ≤ epoch)
    (inside : epoch ≤ current) : (epoch - 2) * grouping < heights epoch ∧ heights epoch ≤ (epoch - 1) * grouping := by
  have placed := placement.placed epoch (by omega) inside
  rw [InEpoch, if_neg (by omega), epochEnd_of_two_le grouping (by omega : 2 ≤ epoch),
    epochEnd_of_two_le grouping (by omega : 2 ≤ epoch - 1)] at placed
  exact placed.2

/-- The closest epoch of the latest height of an epoch is that epoch if its height is an end. -/
theorem Heights.closestEpoch_eq (placement : Heights grouping current heights) {epoch : Nat} (positive : 1 ≤ epoch)
    (inside : epoch ≤ current) (settled : epoch < current ∨ current ≤ 2 ∨ heights current = epochEnd grouping current) :
    closestEpoch current (heights 2) (heights epoch) = epoch := by
  unfold closestEpoch
  by_cases two : 2 ≤ current
  · rw [if_neg (by omega)]
    obtain ⟨large, _⟩ := placement.second two
    by_cases first : epoch = 1
    · rw [first, placement.first (by omega), Nat.div_eq_of_lt (by omega)]
    · by_cases second : epoch = 2
      · rw [second, Nat.div_self (by omega)]
      · have grouped := placement.second_completed (by omega)
        have ended : heights epoch = (epoch - 1) * grouping := by
          rw [← epochEnd_of_two_le grouping (by omega : 2 ≤ epoch)]
          by_cases last : epoch = current
          · rw [last]
            omega
          · exact placement.completed epoch positive (by omega)
        rw [grouped, ended, Nat.mul_div_cancel _ (by omega)]
        omega
  · rw [if_pos (by omega)]
    omega

/-- A height of an epoch in progress is searched in the epoch before it. -/
theorem Heights.closestEpoch_ne (placement : Heights grouping current heights) (three : 3 ≤ current)
    (open_ : heights current ≠ epochEnd grouping current) : closestEpoch current (heights 2) (heights current) ≠ current := by
  unfold closestEpoch
  obtain ⟨large, _⟩ := placement.second (by omega)
  obtain ⟨_, upper⟩ := placement.bounds three (Nat.le_refl _)
  rw [epochEnd_of_two_le grouping (by omega : 2 ≤ current)] at open_
  have grouped := placement.second_completed three
  rw [if_neg (by omega), grouped]
  have below : heights current / grouping < current - 1 :=
    Nat.div_lt_of_lt_mul (by rw [Nat.mul_comm]; omega)
  omega

/-- No height is searched above the current epoch. -/
theorem Heights.closestEpoch_le (placement : Heights grouping current heights) (positive : 1 ≤ current) {height : Nat}
    (inside : height ≤ heights current) : closestEpoch current (heights 2) height ≤ current := by
  unfold closestEpoch
  split
  · exact positive
  · obtain ⟨large, _⟩ := placement.second (by omega)
    by_cases three : 3 ≤ current
    · obtain ⟨_, upper⟩ := placement.bounds three (Nat.le_refl _)
      have grouped := placement.second_completed three
      have quotient : height / grouping ≤ current - 1 :=
        Nat.div_le_of_le_mul (by rw [Nat.mul_comm]; omega)
      rw [grouped]
      omega
    · have two : current = 2 := by omega
      rw [two] at inside ⊢
      have quotient : height / heights 2 ≤ 1 := Nat.div_le_of_le_mul (by omega)
      omega

/-- The current epoch has the largest height. -/
theorem Heights.le_current (placement : Heights grouping current heights) {epoch : Nat} (positive : 1 ≤ epoch)
    (inside : epoch ≤ current) : heights epoch ≤ heights current := by
  by_cases last : epoch = current
  · exact Nat.le_of_eq (congrArg heights last)
  · by_cases three : 3 ≤ current
    · obtain ⟨lower, _⟩ := placement.bounds three (Nat.le_refl _)
      rw [placement.completed epoch positive (by omega)]
      by_cases first : epoch = 1
      · rw [first, epochEnd_one]
        omega
      · rw [epochEnd_of_two_le grouping (by omega)]
        have multiple : (epoch - 1) * grouping ≤ (current - 2) * grouping := Nat.mul_le_mul_right grouping (by omega)
        omega
    · obtain ⟨large, _⟩ := placement.second (by omega)
      have first : epoch = 1 := by omega
      have two : current = 2 := by omega
      rw [first, two, placement.first (by omega)]
      omega

theorem Heights.positive (placement : Heights grouping current heights) {epoch : Nat} (positive : 1 ≤ epoch)
    (inside : epoch ≤ current) : 1 ≤ heights epoch := by
  have placed := placement.placed epoch positive inside
  unfold InEpoch at placed
  split at placed <;> omega

end Heights

section Latest

variable {proofs : List FinalizationProofBuffer} {proof : FinalizationProofBuffer} {epoch : Nat}

theorem latest_append (proofs : List FinalizationProofBuffer) (proof : FinalizationProofBuffer) (epoch : Nat) :
    latest (proofs ++ [proof]) epoch = if proof.round.epoch.toNat = epoch then some proof else latest proofs epoch := by
  unfold latest
  rw [List.filter_append]
  split
  · next same => simp [same]
  · next other => simp [other]

theorem epoch_latest (found : latest proofs epoch = some proof) : proof.round.epoch.toNat = epoch := by
  have member := List.mem_of_getLast? found
  simpa using (List.mem_filter.mp member).2

/-- The payload of an epoch is the latest proof. -/
def payloads (proofs : List FinalizationProofBuffer) (epoch : Nat) : List UInt8 :=
  match latest proofs epoch with
  | some proof => proof.bytes
  | none => []

theorem payloads_append (proofs : List FinalizationProofBuffer) (proof : FinalizationProofBuffer) :
    payloads (proofs ++ [proof]) = Function.update (payloads proofs) proof.round.epoch.toNat proof.bytes := by
  funext epoch
  unfold payloads
  rw [latest_append]
  by_cases same : proof.round.epoch.toNat = epoch
  · rw [if_pos same, same, Function.update_self]
  · rw [if_neg same, Function.update_of_ne (Ne.symm same)]

theorem bytes_ne_nil (proof : FinalizationProofBuffer) : proof.bytes ≠ [] := by
  intro empty
  have complete := proof.complete
  rw [empty] at complete
  exact absurd complete (by decide)

theorem payloads_eq_nil : payloads proofs epoch = [] ↔ latest proofs epoch = none := by
  unfold payloads
  cases latest proofs epoch with
  | none => simp
  | some proof => simp [bytes_ne_nil proof]

/-- A proof is read back from its bytes. -/
theorem readFinalizationProof_bytes (proof : FinalizationProofBuffer) : readFinalizationProof proof.bytes = .ok proof := by
  obtain ⟨bytes, sized, complete⟩ := proof
  unfold readFinalizationProof
  dsimp only
  rw [dif_pos (by omega)]
  congr 2
  rw [sized, List.take_length]

end Latest

/-- The storage holds the latest proof of each epoch up to the current one. -/
structure Archived (grouping : Nat) (proofs : List FinalizationProofBuffer) (storage : FileProofStorage) : Prop where
  stores : storage.database.Stores (payloads proofs)
  index : storage.indexFile = proofs.getLast?.map fun proof => ⟨proof.round, proof.height, proof.hash⟩
  stored : ∀ epoch, (latest proofs epoch).isSome = true ↔ 1 ≤ epoch ∧ epoch ≤ storage.statistics.round.epoch.toNat
  newest : ∀ proof, proofs.getLast? = some proof → latest proofs proof.round.epoch.toNat = some proof
  placed : ∀ epoch proof, latest proofs epoch = some proof → InEpoch grouping epoch proof.height.toNat
  completed : ∀ epoch proof, latest proofs epoch = some proof → epoch < storage.statistics.round.epoch.toNat →
    proof.height.toNat = epochEnd grouping epoch

section Saving

variable {grouping : Nat} {proofs : List FinalizationProofBuffer} {proof : FinalizationProofBuffer}
  {storage next : FileProofStorage}

theorem archived_create (grouping : Nat) {database : FileDatabase} (stores : database.Stores fun _ => []) :
    Archived grouping [] (create database) where
  stores := stores
  index := rfl
  stored epoch := by
    change false = true ↔ 1 ≤ epoch ∧ epoch ≤ 0
    simp
    omega
  newest _ found := by cases found
  placed _ _ found := by cases found
  completed _ _ found := by cases found

/-- An accepted proof belongs to the current or to the next epoch and is not below the current height. -/
theorem saveProof_ok (saved : storage.saveProof proof = .ok next) : storage.statistics.round ≤ proof.round ∧
      storage.statistics.round.epoch.toNat ≤ proof.round.epoch.toNat ∧
      proof.round.epoch.toNat ≤ storage.statistics.round.epoch.toNat + 1 ∧
      storage.statistics.height ≤ proof.height ∧
      next = ⟨storage.database.write proof.round.epoch.toNat proof.bytes, some ⟨proof.round, proof.height, proof.hash⟩⟩ := by
  unfold saveProof at saved
  dsimp only at saved
  split at saved
  · cases saved
  · next round =>
    split at saved
    · cases saved
    · next height =>
      rw [Bool.or_eq_true, not_or, decide_eq_true_eq, decide_eq_true_eq, Decidable.not_not, UInt32.not_lt,
        UInt32.le_iff_toNat_le, UInt32.toNat_add] at round
      have below := FinalizationRound.epoch_le round.1
      refine ⟨round.1, below, ?_, UInt64.not_lt.mp height, (Except.ok.inj saved).symm⟩
      exact Nat.le_trans round.2 (Nat.mod_le _ _)

theorem statistics_last (archived : Archived grouping proofs storage) (last : proofs.getLast? = some proof) :
    storage.statistics = ⟨proof.round, proof.height, proof.hash⟩ := by
  rw [statistics, archived.index, last]
  rfl

/-- The statistics are those of the newest proof. -/
theorem Archived.current (archived : Archived grouping proofs storage)
    (positive : 1 ≤ storage.statistics.round.epoch.toNat) : ∃ newest, proofs.getLast? = some newest ∧
      storage.statistics = ⟨newest.round, newest.height, newest.hash⟩ ∧
      latest proofs storage.statistics.round.epoch.toNat = some newest := by
  cases last : proofs.getLast? with
  | none =>
    have empty : storage.statistics = .empty := by
      rw [statistics, archived.index, last]
      rfl
    rw [empty] at positive
    exact absurd positive (by decide)
  | some newest =>
    have same := statistics_last archived last
    refine ⟨newest, rfl, same, ?_⟩
    rw [same]
    exact archived.newest newest last

theorem Archived.saveProof (archived : Archived grouping proofs storage) (placed : Placed grouping storage proof)
    (saved : storage.saveProof proof = .ok next) : Archived grouping (proofs ++ [proof]) next := by
  obtain ⟨_, notBelow, notAbove, _, rfl⟩ := saveProof_ok saved
  obtain ⟨inEpoch, transition⟩ := placed
  have positive : 1 ≤ proof.round.epoch.toNat := by
    unfold InEpoch at inEpoch
    split at inEpoch <;> omega
  have present : ∀ epoch, 1 ≤ epoch → epoch ≤ storage.statistics.round.epoch.toNat → payloads proofs epoch ≠ [] := by
    intro epoch one below empty
    have some := (archived.stored epoch).mpr ⟨one, below⟩
    rw [payloads_eq_nil.mp empty] at some
    cases some
  have absent : ∀ epoch, proof.round.epoch.toNat < epoch → payloads proofs epoch = [] := by
    intro epoch above
    refine payloads_eq_nil.mpr (Option.not_isSome_iff_eq_none.mp fun some => ?_)
    have inside := ((archived.stored epoch).mp some).2
    omega
  refine ⟨?_, ?_, ?_, ?_, ?_, ?_⟩
  · rw [payloads_append]
    refine archived.stores.write positive ?_ absent (bytes_ne_nil proof)
    by_cases first : proof.round.epoch.toNat = 1
    · exact .inl first
    · exact .inr (present _ (by omega) (by omega))
  · rw [List.getLast?_concat]
    rfl
  · intro epoch
    change _ ↔ 1 ≤ epoch ∧ epoch ≤ proof.round.epoch.toNat
    rw [latest_append]
    split
    · next same => simp only [Option.isSome_some, true_iff]; omega
    · next other =>
      rw [archived.stored]
      omega
  · intro newest last
    rw [List.getLast?_concat, Option.some.injEq] at last
    rw [← last, latest_append, if_pos rfl]
  · intro epoch other found
    rw [latest_append] at found
    split at found
    · next same =>
      rw [← same, ← Option.some.inj found]
      exact inEpoch
    · exact archived.placed epoch other found
  · intro epoch other found below
    change epoch < proof.round.epoch.toNat at below
    rw [latest_append, if_neg (by omega)] at found
    have inside := (archived.stored epoch).mp (by rw [found]; rfl)
    by_cases before : epoch < storage.statistics.round.epoch.toNat
    · exact archived.completed epoch other found before
    · obtain ⟨newest, _, statistics, latestNewest⟩ := archived.current (by omega)
      have same : epoch = storage.statistics.round.epoch.toNat := by omega
      rw [same, latestNewest, Option.some.injEq] at found
      have notZero : storage.statistics.round.epoch ≠ 0 := by
        intro zero
        rw [zero] at inside
        exact absurd inside (by simp; omega)
      have ended := transition (UInt32.lt_iff_toNat_lt.mpr (by omega)) notZero
      rw [← same, statistics] at ended
      rw [← found]
      exact ended

end Saving

section Loading

variable {grouping : Nat} {proofs : List FinalizationProofBuffer} {proof : FinalizationProofBuffer}
  {storage : FileProofStorage}

/-- The proof of an epoch is the latest one. -/
theorem Archived.loadProof_eq_ok (archived : Archived grouping proofs storage) (epoch : FinalizationEpoch) :
    storage.loadProof epoch = .ok proof ↔ latest proofs epoch.toNat = some proof := by
  have stored := archived.stored epoch.toNat
  unfold loadProof
  dsimp only
  by_cases zero : epoch = 0
  · have none : latest proofs epoch.toNat = none := by
      rw [← Option.not_isSome_iff_eq_none, stored, zero]
      simp
    rw [if_pos zero, none]
    simp
  · have positive : 1 ≤ epoch.toNat := by
      rw [← UInt32.toNat_inj] at zero
      change ¬ epoch.toNat = 0 at zero
      omega
    rw [if_neg zero]
    by_cases above : storage.statistics.round.epoch < epoch
    · have none : latest proofs epoch.toNat = none := by
        rw [UInt32.lt_iff_toNat_lt] at above
        rw [← Option.not_isSome_iff_eq_none, stored]
        omega
      rw [if_pos above, none]
      simp
    · have inside := UInt32.le_iff_toNat_le.mp (UInt32.not_lt.mp above)
      obtain ⟨found, equal⟩ := Option.isSome_iff_exists.mp (stored.mpr ⟨positive, inside⟩)
      have payload : payloads proofs epoch.toNat = found.bytes := by rw [payloads, equal]
      have stream := archived.stores.inputStream_eq positive (by rw [payload]; exact bytes_ne_nil found)
      rw [if_neg above, stream, payload, equal]
      dsimp only
      rw [readFinalizationProof_bytes, Except.ok.injEq, Option.some.injEq]

/-- The height of the latest proof of an epoch. -/
def latestHeight (proofs : List FinalizationProofBuffer) (epoch : Nat) : Nat :=
  match latest proofs epoch with
  | some proof => proof.height.toNat
  | none => 0

theorem latestHeight_eq {epoch : Nat} (found : latest proofs epoch = some proof) :
    latestHeight proofs epoch = proof.height.toNat := by
  rw [latestHeight, found]

theorem Archived.heights (archived : Archived grouping proofs storage) :
    Heights grouping storage.statistics.round.epoch.toNat (latestHeight proofs) := by
  constructor
  · intro epoch positive inside
    obtain ⟨proof, found⟩ := Option.isSome_iff_exists.mp ((archived.stored epoch).mpr ⟨positive, inside⟩)
    rw [latestHeight_eq found]
    exact archived.placed epoch proof found
  · intro epoch positive below
    obtain ⟨proof, found⟩ := Option.isSome_iff_exists.mp
      ((archived.stored epoch).mpr ⟨positive, Nat.le_of_lt below⟩)
    rw [latestHeight_eq found]
    exact archived.completed epoch proof found below

theorem Archived.latestHeight_current (archived : Archived grouping proofs storage)
    (positive : 1 ≤ storage.statistics.round.epoch.toNat) :
    latestHeight proofs storage.statistics.round.epoch.toNat = storage.statistics.height.toNat := by
  obtain ⟨newest, _, statistics, found⟩ := archived.current positive
  rw [latestHeight_eq found, statistics]

/-- The closest proof is the latest one of the epoch in which the height is searched. -/
theorem Archived.loadClosestProof_eq_ok (archived : Archived grouping proofs storage)
    (proof : FinalizationProofBuffer) (positive : 1 ≤ storage.statistics.round.epoch.toNat) {height : Height}
    (inside : height.toNat ≤ storage.statistics.height.toNat) : storage.loadClosestProof height = .ok proof ↔
      latest proofs (closestEpoch storage.statistics.round.epoch.toNat (latestHeight proofs 2) height.toNat) = some proof := by
  have placement := archived.heights
  have currentHeight := archived.latestHeight_current positive
  have bound := placement.closestEpoch_le positive (Nat.le_trans inside (Nat.le_of_eq currentHeight.symm))
  unfold loadClosestProof
  by_cases first : storage.statistics.round.epoch < 2
  · have closest : closestEpoch storage.statistics.round.epoch.toNat (latestHeight proofs 2) height.toNat = 1 :=
      if_pos first
    rw [if_pos first, closest]
    exact archived.loadProof_eq_ok 1
  · have two : 2 ≤ storage.statistics.round.epoch.toNat := UInt32.le_iff_toNat_le.mp (UInt32.not_lt.mp first)
    obtain ⟨second, foundSecond⟩ := Option.isSome_iff_exists.mp ((archived.stored 2).mpr ⟨by decide, two⟩)
    have large := (placement.second two).1
    rw [latestHeight_eq foundSecond] at large bound ⊢
    have notZero : second.height ≠ 0 := by
      intro zero
      rw [zero] at large
      exact absurd large (by decide)
    have closest : closestEpoch storage.statistics.round.epoch.toNat second.height.toNat height.toNat =
        height.toNat / second.height.toNat + 1 := if_neg (by omega)
    have small := storage.statistics.round.epoch.toNat_lt
    rw [closest] at bound ⊢
    have word : (height / second.height + 1).toUInt32.toNat = height.toNat / second.height.toNat + 1 := by
      rw [UInt64.toNat_toUInt32, UInt64.toNat_add, UInt64.toNat_div]
      change (_ + 1) % _ % _ = _
      rw [Nat.mod_eq_of_lt (show _ < 2 ^ 64 by omega), Nat.mod_eq_of_lt (by omega)]
    have loaded : storage.loadProof 2 = .ok second := (archived.loadProof_eq_ok 2).mpr foundSecond
    rw [if_neg first, loaded]
    change (if second.height = 0 then _ else _) = _ ↔ _
    rw [if_neg notZero, archived.loadProof_eq_ok, word]

/-- A storage with a height has proofs. -/
theorem Archived.epoch_positive (archived : Archived grouping proofs storage)
    (positive : 1 ≤ storage.statistics.height.toNat) : 1 ≤ storage.statistics.round.epoch.toNat := by
  cases last : proofs.getLast? with
  | none =>
    rw [statistics, archived.index, last] at positive
    exact absurd positive (by decide)
  | some newest =>
    have found := archived.newest newest last
    have stored := (archived.stored newest.round.epoch.toNat).mp (by rw [found]; rfl)
    omega

/-- A proof is found by its height if it is the latest one of the epoch in which the height is searched. -/
theorem Archived.loadProofAtHeight_eq_ok (archived : Archived grouping proofs storage) (height : Height) :
    storage.loadProofAtHeight height = .ok (some proof) ↔ 1 ≤ height.toNat ∧ height.toNat ≤ storage.statistics.height.toNat ∧
        latest proofs (closestEpoch storage.statistics.round.epoch.toNat (latestHeight proofs 2) height.toNat) =
          some proof ∧ proof.height = height := by
  unfold loadProofAtHeight
  dsimp only
  by_cases zero : height = 0
  · rw [if_pos zero, zero]
    simp
  · have positive : 1 ≤ height.toNat := by
      rw [← UInt64.toNat_inj] at zero
      change ¬ height.toNat = 0 at zero
      omega
    rw [if_neg zero]
    by_cases above : storage.statistics.height < height
    · rw [if_pos above]
      rw [UInt64.lt_iff_toNat_lt] at above
      simp
      omega
    · have inside := UInt64.le_iff_toNat_le.mp (UInt64.not_lt.mp above)
      have closest := fun found => archived.loadClosestProof_eq_ok found
        (archived.epoch_positive (Nat.le_trans positive inside)) inside
      rw [if_neg above]
      cases loaded : storage.loadClosestProof height with
      | error error =>
        have missing := (closest proof).not.mp (by rw [loaded]; simp)
        simp [missing]
      | ok found =>
        rw [(closest found).mp loaded]
        change Except.ok (if found.height ≠ height then none else some found) = Except.ok (some proof) ↔ _
        rw [Except.ok.injEq, Option.some.injEq]
        by_cases same : found.height = height
        · rw [if_neg (not_not.mpr same), Option.some.injEq]
          exact ⟨fun equal => ⟨positive, inside, equal, equal ▸ same⟩, fun equal => equal.2.2.1⟩
        · rw [if_pos same]
          refine ⟨fun equal => (by cases equal), ?_⟩
          rintro ⟨_, _, rfl, other⟩
          exact absurd other same

end Loading

variable {grouping : Nat} {proofs : List FinalizationProofBuffer} {storage : FileProofStorage}

/-- Accepted proofs never reduce the round or the height. -/
theorem saveProofs_forward {start : FileProofStorage} (saved : proofs.foldlM saveProof start = .ok storage) :
    start.statistics.round ≤ storage.statistics.round ∧ start.statistics.height ≤ storage.statistics.height := by
  induction proofs generalizing start with
  | nil =>
    cases saved
    exact ⟨FinalizationRound.le_refl _, UInt64.le_refl _⟩
  | cons proof proofs ih =>
    obtain ⟨next, first, rest⟩ := bind_eq_ok.mp saved
    obtain ⟨round, _, _, height, rfl⟩ := saveProof_ok first
    obtain ⟨laterRound, laterHeight⟩ := ih rest
    exact ⟨FinalizationRound.le_trans round laterRound, UInt64.le_trans height laterHeight⟩

/-- Every run of placed proofs archives them. -/
theorem archived_run {before : List FinalizationProofBuffer} {start : FileProofStorage}
    (archived : Archived grouping before start) (placed : Meets saveProof (Placed grouping) start proofs)
    (saved : proofs.foldlM saveProof start = .ok storage) : Archived grouping (before ++ proofs) storage := by
  induction proofs generalizing before start with
  | nil =>
    cases saved
    rwa [List.append_nil]
  | cons proof proofs ih =>
    obtain ⟨next, first, rest⟩ := bind_eq_ok.mp saved
    rw [List.append_cons]
    exact ih (archived.saveProof placed.1 first) (placed.2 next first) rest

/-- A settled storage finds every latest proof by its height. -/
theorem Archived.byHeight_of_settled (archived : Archived grouping proofs storage) (settled : Settled grouping proofs)
    (height : Height) (proof : FinalizationProofBuffer) : storage.loadProofAtHeight height = .ok (some proof) ↔
      latest proofs proof.round.epoch.toNat = some proof ∧ proof.height = height := by
  rw [archived.loadProofAtHeight_eq_ok]
  constructor
  · rintro ⟨_, _, found, same⟩
    rw [epoch_latest found]
    exact ⟨found, same⟩
  · rintro ⟨found, rfl⟩
    have placement := archived.heights
    obtain ⟨positive, inside⟩ := (archived.stored _).mp (by rw [found]; rfl)
    have current : 1 ≤ storage.statistics.round.epoch.toNat := Nat.le_trans positive inside
    have ended : storage.statistics.round.epoch.toNat ≤ 2 ∨ latestHeight proofs storage.statistics.round.epoch.toNat =
          epochEnd grouping storage.statistics.round.epoch.toNat := by
      obtain ⟨newest, last, statistics, _⟩ := archived.current current
      rw [archived.latestHeight_current current, statistics]
      exact settled newest last
    have height := latestHeight_eq found
    have closest := placement.closestEpoch_eq positive inside (.inr ended)
    have lower := placement.positive positive inside
    have upper := placement.le_current positive inside
    rw [archived.latestHeight_current current] at upper
    rw [height] at closest lower upper
    rw [closest]
    exact ⟨lower, upper, found, rfl⟩

/-- A storage in which the newest proof is found by its height is settled. -/
theorem Archived.settled_of_byHeight (archived : Archived grouping proofs storage)
    (byHeight : ∀ height proof, storage.loadProofAtHeight height = .ok (some proof) ↔
      latest proofs proof.round.epoch.toNat = some proof ∧ proof.height = height) :
    Settled grouping proofs := by
  intro newest last
  have found := archived.newest newest last
  have statistics := statistics_last archived last
  by_contra inProgress
  rw [not_or] at inProgress
  obtain ⟨_, _, closest, _⟩ := (archived.loadProofAtHeight_eq_ok newest.height).mp
    ((byHeight newest.height newest).mpr ⟨found, rfl⟩)
  have placement := archived.heights
  rw [statistics] at closest placement
  refine placement.closestEpoch_ne (by change 3 ≤ newest.round.epoch.toNat; omega) ?_ ?_
  · rw [latestHeight_eq found]
    exact inProgress.2
  · rw [latestHeight_eq found]
    exact (epoch_latest closest).symm

/-- The lookups are complete exactly if the newest proof ends its epoch or belongs to the first two. -/
theorem completeStorage_iff_settled (batchSize : Nat) (nonzero : batchSize ≠ 0) (grouping : Nat)
    (proofs : List FinalizationProofBuffer) (storage : FileProofStorage)
    (placed : Meets saveProof (Placed grouping) (create (.create batchSize nonzero)) proofs)
    (saved : proofs.foldlM saveProof (create (.create batchSize nonzero)) = .ok storage) :
    CompleteStorage (.create batchSize nonzero) proofs storage ↔ Settled grouping proofs := by
  have archived : Archived grouping proofs storage :=
    archived_run (archived_create grouping (FileDatabase.stores_create batchSize nonzero)) placed saved
  constructor
  · intro complete
    exact archived.settled_of_byHeight complete.byHeight
  · intro settled
    refine ⟨fun epoch proof => archived.loadProof_eq_ok epoch, archived.byHeight_of_settled settled, ?_⟩
    rintro earlier later middle rfl first
    rw [List.foldlM_append] at saved
    obtain ⟨reached, same, rest⟩ := bind_eq_ok.mp saved
    rw [first, Except.ok.injEq] at same
    exact saveProofs_forward (same ▸ rest)

/-- A proof without messages. -/
def headerProof (epoch point : UInt32) (height : UInt64) : FinalizationProofBuffer where
  bytes := toBytes 4 56 ++ (toBytes 4 1 ++ toBytes 4 epoch.toNat ++ toBytes 4 point.toNat ++ toBytes 8 height.toNat ++
    List.replicate 32 0)
  sized := by
    rw [List.take_left' (by rfl), show fromBytes (toBytes 4 56) = 56 from rfl]
    simp [toBytes]
  complete := by simp [toBytes]

/-- A proof of the third epoch follows those of two complete epochs. -/
theorem placed_third_epoch {proof : FinalizationProofBuffer} (epoch : proof.round.epoch.toNat = 3)
    (inEpoch : InEpoch 50 3 proof.height.toNat) : Meets saveProof (Placed 50) (create (.create 2 (by decide)))
      [headerProof 1 1 1, headerProof 2 1 17, headerProof 2 2 50, proof] := by
  refine .cons ⟨rfl, fun _ notZero => absurd rfl notZero⟩ rfl ?_
  refine .cons ⟨⟨by decide, by decide, by decide⟩, fun _ _ => rfl⟩ rfl ?_
  refine .cons ⟨⟨by decide, by decide, by decide⟩, fun less _ => absurd less (by decide)⟩ rfl ?_
  exact ⟨⟨epoch ▸ inEpoch, fun _ _ => rfl⟩, fun _ _ => trivial⟩

/-- Proofs of three epochs are found by their points and by their heights. -/
theorem completeStorage_three_epochs : ∃ storage,
    [headerProof 1 1 1, headerProof 2 1 17, headerProof 2 2 50, headerProof 3 1 100].foldlM saveProof
      (create (.create 2 (by decide))) = .ok storage ∧
    CompleteStorage (.create 2 (by decide)) [headerProof 1 1 1, headerProof 2 1 17, headerProof 2 2 50,
      headerProof 3 1 100] storage := by
  refine ⟨_, rfl, (completeStorage_iff_settled 2 (by decide) 50 _ _ ?_ rfl).mpr ?_⟩
  · exact placed_third_epoch rfl ⟨by decide, by decide, by decide⟩
  · intro newest last
    cases last
    exact .inr rfl

/-- The proof of a third epoch in progress is not found by its height. -/
theorem third_epoch_in_progress_not_found : ∃ storage,
    [headerProof 1 1 1, headerProof 2 1 17, headerProof 2 2 50, headerProof 3 1 75].foldlM saveProof
      (create (.create 2 (by decide))) = .ok storage ∧
    Meets saveProof (Placed 50) (create (.create 2 (by decide)))
      [headerProof 1 1 1, headerProof 2 1 17, headerProof 2 2 50, headerProof 3 1 75] ∧
    ¬ CompleteStorage (.create 2 (by decide)) [headerProof 1 1 1, headerProof 2 1 17, headerProof 2 2 50,
      headerProof 3 1 75] storage := by
  refine ⟨_, rfl, placed_third_epoch rfl ⟨by decide, by decide, by decide⟩, ?_⟩
  intro complete
  have found := (complete.byHeight 75 (headerProof 3 1 75)).mpr ⟨rfl, rfl⟩
  change Except.ok none = _ at found
  cases found

end Catapult.Finalization
