import Catapult.Construction.Chain.BlockScorer
import Mathlib.Data.List.Forall2

/-
This file shows that the difficulty adjustment agrees with its formula over unbounded integers.
-/

namespace Catapult.Chain

/-- Consecutive blocks are at least one second apart. -/
def Spaced (statistics : List BlockStatistic) : Prop :=
  statistics.IsChain fun earlier later => earlier.timestamp.toNat + 1000 ≤ later.timestamp.toNat

structure Regular (statistics : List BlockStatistic) : Prop where
  two_le : 2 ≤ statistics.length
  le_thousand : statistics.length ≤ 1000
  spaced : Spaced statistics

/-- The target time lies between one second and ten minutes. -/
structure BlockchainConfiguration.Sensible (config : BlockchainConfiguration) : Prop where
  second_le : 1000 ≤ config.blockGenerationTargetTime.toNat
  le_tenMinutes : config.blockGenerationTargetTime.toNat ≤ 600000

def totalDifficulty (statistics : List BlockStatistic) : Nat :=
  (statistics.map fun statistic => statistic.difficulty.value.toNat).sum

def firstTimestamp (statistics : List BlockStatistic) : Nat :=
  (statistics.head?.map fun statistic => statistic.timestamp.toNat).getD 0

def lastTimestamp (statistics : List BlockStatistic) : Nat :=
  (statistics.getLast?.map fun statistic => statistic.timestamp.toNat).getD 0

def lastDifficulty (statistics : List BlockStatistic) : Nat :=
  (statistics.getLast?.map fun statistic => statistic.difficulty.value.toNat).getD 0

def averageDifficulty (statistics : List BlockStatistic) : Nat :=
  totalDifficulty statistics / statistics.length

def scaledDifficulty (statistics : List BlockStatistic) (config : BlockchainConfiguration) : Nat :=
  averageDifficulty statistics * config.blockGenerationTargetTime.toNat * (statistics.length - 1)

/-- The difficulty meets the target time over the whole history. -/
def targetDifficulty (statistics : List BlockStatistic) (config : BlockchainConfiguration) : Nat :=
  scaledDifficulty statistics config / (lastTimestamp statistics - firstTimestamp statistics)

def limitTo (lower upper value : Nat) : Nat := max lower (min upper value)

/-- The formula is evaluated over unbounded integers. -/
def exactDifficulty (statistics : List BlockStatistic) (config : BlockchainConfiguration) : Nat :=
  limitTo Difficulty.minValue.toNat Difficulty.maxValue.toNat
    (limitTo (19 * lastDifficulty statistics / 20) (21 * lastDifficulty statistics / 20)
      (targetDifficulty statistics config))

/-- No intermediate value leaves the width in which the source computes it. -/
structure Fits (statistics : List BlockStatistic) (config : BlockchainConfiguration) : Prop where
  total : totalDifficulty statistics < 2 ^ 64
  scaled : scaledDifficulty statistics config < 2 ^ 128
  ordered : firstTimestamp statistics < lastTimestamp statistics
  target : 20 * targetDifficulty statistics config < 2 ^ 64
  change : 21 * lastDifficulty statistics < 2 ^ 64

theorem limitTo_mono {lower lower' upper upper' value value' : Nat} (lowers : lower ≤ lower')
    (uppers : upper ≤ upper') (values : value ≤ value') : limitTo lower upper value ≤ limitTo lower' upper' value' :=
  max_le_max lowers (min_le_min uppers values)

theorem Difficulty.toNat_le (difficulty : Difficulty) : difficulty.value.toNat ≤ 1000000000000000 := by
  have bound := UInt64.le_iff_toNat_le.mp difficulty.le_max
  simpa only [show Difficulty.maxValue.toNat = 1000000000000000 from by decide] using bound

theorem totalDifficulty_le (statistics : List BlockStatistic) :
    totalDifficulty statistics ≤ 1000000000000000 * statistics.length := by
  induction statistics with
  | nil => exact Nat.le_refl 0
  | cons statistic statistics ih =>
    have bound := statistic.difficulty.toNat_le
    simp only [totalDifficulty, List.map_cons, List.sum_cons, List.length_cons] at ih ⊢
    linarith

theorem averageDifficulty_le (statistics : List BlockStatistic) : averageDifficulty statistics ≤ 1000000000000000 := by
  apply Nat.div_le_of_le_mul
  rw [Nat.mul_comm]
  exact totalDifficulty_le statistics

theorem lastDifficulty_le (statistics : List BlockStatistic) : lastDifficulty statistics ≤ 1000000000000000 := by
  unfold lastDifficulty
  cases statistics.getLast? with
  | none => decide
  | some statistic => exact statistic.difficulty.toNat_le

theorem lastTimestamp_cons (statistic next : BlockStatistic) (statistics : List BlockStatistic) :
    lastTimestamp (statistic :: next :: statistics) = lastTimestamp (next :: statistics) := by
  rw [lastTimestamp, lastTimestamp, List.getLast?_cons_cons]

/-- A spaced history takes at least one second for each of its steps. -/
theorem Spaced.elapsed {first : BlockStatistic} {statistics : List BlockStatistic} (spaced : Spaced (first :: statistics)) :
    first.timestamp.toNat + 1000 * statistics.length ≤ lastTimestamp (first :: statistics) := by
  induction statistics generalizing first with
  | nil => exact Nat.le_refl _
  | cons next statistics ih =>
    obtain ⟨step, rest⟩ := List.isChain_cons_cons.mp spaced
    have later := ih rest
    rw [lastTimestamp_cons, List.length_cons]
    linarith

section History

variable {statistics : List BlockStatistic} {config : BlockchainConfiguration}

theorem Regular.exists_cons (regular : Regular statistics) : ∃ first rest, statistics = first :: rest := by
  cases statistics with
  | nil => exact absurd regular.two_le (by decide)
  | cons first rest => exact ⟨first, rest, rfl⟩

theorem Regular.elapsed (regular : Regular statistics) :
    firstTimestamp statistics + 1000 * (statistics.length - 1) ≤ lastTimestamp statistics := by
  obtain ⟨first, rest, rfl⟩ := regular.exists_cons
  exact regular.spaced.elapsed

theorem targetDifficulty_le (regular : Regular statistics) (sensible : config.Sensible) :
    targetDifficulty statistics config ≤ 600000000000000000 := by
  have elapsed := regular.elapsed
  have steps : 1 ≤ statistics.length - 1 := by have := regular.two_le; omega
  have product : averageDifficulty statistics * config.blockGenerationTargetTime.toNat ≤
      1000000000000000 * 600000 := Nat.mul_le_mul (averageDifficulty_le statistics) sensible.le_tenMinutes
  apply Nat.div_le_of_le_mul
  calc scaledDifficulty statistics config
      ≤ 1000000000000000 * 600000 * (statistics.length - 1) := Nat.mul_le_mul_right _ product
    _ = 1000 * (statistics.length - 1) * 600000000000000000 := by ring
    _ ≤ (lastTimestamp statistics - firstTimestamp statistics) * 600000000000000000 :=
        Nat.mul_le_mul_right _ (by omega)

theorem scaledDifficulty_le (regular : Regular statistics) (sensible : config.Sensible) :
    scaledDifficulty statistics config ≤ 1000000000000000 * 600000 * 1000 := by
  have steps : statistics.length - 1 ≤ 1000 := by have := regular.le_thousand; omega
  exact Nat.mul_le_mul (Nat.mul_le_mul (averageDifficulty_le statistics) sensible.le_tenMinutes) steps

theorem Regular.fits (regular : Regular statistics) (sensible : config.Sensible) : Fits statistics config := by
  have total := totalDifficulty_le statistics
  have scaled := scaledDifficulty_le regular sensible
  have target := targetDifficulty_le regular sensible
  have last := lastDifficulty_le statistics
  have elapsed := regular.elapsed
  have size := regular.two_le
  have limit := regular.le_thousand
  exact ⟨by omega, by omega, by omega, by omega, by omega⟩

theorem foldl_countStatistic (statistics : List BlockStatistic) (counts : UInt64 × UInt64) :
    (statistics.foldl countStatistic counts).1.toNat = (counts.1.toNat + statistics.length) % 2 ^ 64 ∧
      (statistics.foldl countStatistic counts).2.toNat = (counts.2.toNat + totalDifficulty statistics) % 2 ^ 64 := by
  induction statistics generalizing counts with
  | nil => exact ⟨(Nat.mod_eq_of_lt counts.1.toNat_lt).symm, (Nat.mod_eq_of_lt counts.2.toNat_lt).symm⟩
  | cons statistic statistics ih =>
    obtain ⟨sizes, totals⟩ := ih (countStatistic counts statistic)
    rw [List.foldl_cons, sizes, totals]
    simp only [countStatistic, totalDifficulty, UInt64.toNat_add, List.length_cons, List.map_cons, List.sum_cons, Nat.mod_add_mod]
    exact ⟨by congr 1; simp; omega, by congr 1; omega⟩

theorem toNat_clampChange {last difficulty : UInt64} (change : 21 * last.toNat < 2 ^ 64)
    (target : 20 * difficulty.toNat < 2 ^ 64) : (clampChange last difficulty).toNat =
      limitTo (19 * last.toNat / 20) (21 * last.toNat / 20) difficulty.toNat := by
  have lower : (19 * last).toNat = 19 * last.toNat := by
    rw [UInt64.toNat_mul, Nat.mod_eq_of_lt (by simp; omega)]
    rfl
  have upper : (21 * last).toNat = 21 * last.toNat := by
    rw [UInt64.toNat_mul, Nat.mod_eq_of_lt (by simp; omega)]
    rfl
  have scaled : (20 * difficulty).toNat = 20 * difficulty.toNat := by
    rw [UInt64.toNat_mul, Nat.mod_eq_of_lt (by simp; omega)]
    rfl
  unfold clampChange limitTo
  simp only [gt_iff_lt, UInt64.lt_iff_toNat_lt, lower, upper, scaled]
  split
  · rw [UInt64.toNat_div, lower]
    simp
    omega
  · split
    · rw [UInt64.toNat_div, upper]
      simp
      omega
    · omega

theorem Difficulty.toNat_ofValue (value : UInt64) : (Difficulty.ofValue value).value.toNat =
      limitTo Difficulty.minValue.toNat Difficulty.maxValue.toNat value.toNat := by
  have bounds : Difficulty.minValue.toNat ≤ Difficulty.maxValue.toNat := by decide
  unfold Difficulty.ofValue Difficulty.clamp limitTo
  simp only [gt_iff_lt, UInt64.lt_iff_toNat_lt]
  split
  · omega
  · split
    · omega
    · omega

theorem toNat_widen (value : UInt64) : (value.toBitVec.setWidth 128).toNat = value.toNat := by
  rw [BitVec.toNat_setWidth]
  exact Nat.mod_eq_of_lt (lt_trans value.toNat_lt (by decide))

/-- The products and the quotient are exact in 128 bits. -/
theorem toNat_scaled {average target steps elapsed : UInt64} (fits : average.toNat * target.toNat * steps.toNat < 2 ^ 128)
    (narrow : average.toNat * target.toNat * steps.toNat / elapsed.toNat < 2 ^ 64) :
    (UInt64.ofBitVec ((average.toBitVec.setWidth 128 * target.toBitVec.setWidth 128 *
      steps.toBitVec.setWidth 128 / elapsed.toBitVec.setWidth 128).setWidth 64)).toNat =
        average.toNat * target.toNat * steps.toNat / elapsed.toNat := by
  have product : (average.toBitVec.setWidth 128 * target.toBitVec.setWidth 128 *
      steps.toBitVec.setWidth 128).toNat = average.toNat * target.toNat * steps.toNat := by
    rw [BitVec.toNat_mul, BitVec.toNat_mul, toNat_widen, toNat_widen, toNat_widen, Nat.mod_mul_mod]
    exact Nat.mod_eq_of_lt fits
  change (BitVec.setWidth 64 _).toNat = _
  rw [BitVec.toNat_setWidth, BitVec.toNat_udiv, product, toNat_widen]
  exact Nat.mod_eq_of_lt narrow

theorem Regular.toNat_counts (regular : Regular statistics) (fits : Fits statistics config) :
    (statistics.foldl countStatistic (0, 0)).1.toNat = statistics.length ∧
      (statistics.foldl countStatistic (0, 0)).2.toNat = totalDifficulty statistics := by
  obtain ⟨sizes, totals⟩ := foldl_countStatistic statistics (0, 0)
  rw [sizes, totals]
  simp only [UInt64.toNat_zero, Nat.zero_add]
  have limit := regular.le_thousand
  exact ⟨Nat.mod_eq_of_lt (by omega), Nat.mod_eq_of_lt fits.total⟩

theorem calculateDifficulty_exact (regular : Regular statistics) (fits : Fits statistics config) :
    ∃ difficulty, calculateDifficulty statistics config = .ok difficulty ∧
      difficulty.value.toNat = exactDifficulty statistics config := by
  obtain ⟨sizes, totals⟩ := regular.toNat_counts fits
  have size := regular.two_le
  obtain ⟨first, isFirst⟩ : ∃ first, statistics.head? = some first := by
    obtain ⟨first, rest, rfl⟩ := regular.exists_cons
    exact ⟨first, rfl⟩
  obtain ⟨last, isLast⟩ : ∃ last, statistics.getLast? = some last := by
    obtain ⟨first, rest, rfl⟩ := regular.exists_cons
    exact ⟨_, List.getLast?_eq_some_getLast (List.cons_ne_nil first rest)⟩
  have ordered := fits.ordered
  have scaled := fits.scaled
  have target := fits.target
  have change := fits.change
  simp only [exactDifficulty, targetDifficulty, scaledDifficulty, averageDifficulty, firstTimestamp,
    lastTimestamp, lastDifficulty, isFirst, isLast, Option.map_some, Option.getD_some]
    at ordered scaled target change ⊢
  unfold calculateDifficulty
  generalize statistics.foldl countStatistic (0, 0) = counts at sizes totals ⊢
  obtain ⟨historySize, total⟩ := counts
  simp only at sizes totals
  have long : ¬ historySize < 2 := by
    rw [UInt64.lt_iff_toNat_lt, sizes]
    exact Nat.not_lt.mpr size
  have steps : (historySize - 1).toNat = statistics.length - 1 := by
    rw [UInt64.toNat_sub_of_le, sizes]
    · rfl
    · rw [UInt64.le_iff_toNat_le, sizes]
      exact Nat.le_of_lt size
  have elapsed : (last.timestamp - first.timestamp).toNat = last.timestamp.toNat - first.timestamp.toNat :=
    UInt64.toNat_sub_of_le _ _ (UInt64.le_iff_toNat_le.mpr (Nat.le_of_lt ordered))
  have moved : last.timestamp - first.timestamp ≠ 0 := by
    intro same
    rw [same, UInt64.toNat_zero] at elapsed
    omega
  have average : (total / historySize).toNat = totalDifficulty statistics / statistics.length := by
    rw [UInt64.toNat_div, sizes, totals]
  rw [← average, ← steps] at scaled
  rw [← average, ← steps, ← elapsed] at target ⊢
  simp only [if_neg long, isFirst, isLast, if_neg moved]
  refine ⟨_, rfl, ?_⟩
  rw [Difficulty.toNat_ofValue, toNat_clampChange change, toNat_scaled scaled (by omega)]
  rw [toNat_scaled scaled (by omega)]
  exact target

end History

/-- Only the difficulties differ, and the second history has the larger ones. -/
def Harder (statistic harder : BlockStatistic) : Prop :=
  statistic.timestamp = harder.timestamp ∧ statistic.difficulty.value ≤ harder.difficulty.value

variable {statistics harder : List BlockStatistic}

theorem totalDifficulty_mono (pointwise : List.Forall₂ Harder statistics harder) :
    totalDifficulty statistics ≤ totalDifficulty harder := by
  induction pointwise with
  | nil => exact Nat.le_refl _
  | cons head _ ih =>
    simp only [totalDifficulty, List.map_cons, List.sum_cons] at ih ⊢
    exact Nat.add_le_add (UInt64.le_iff_toNat_le.mp head.2) ih

theorem firstTimestamp_congr (pointwise : List.Forall₂ Harder statistics harder) :
    firstTimestamp statistics = firstTimestamp harder := by
  cases pointwise with
  | nil => rfl
  | cons head _ => exact congrArg UInt64.toNat head.1

theorem last_mono (pointwise : List.Forall₂ Harder statistics harder) :
    lastTimestamp statistics = lastTimestamp harder ∧ lastDifficulty statistics ≤ lastDifficulty harder := by
  induction pointwise with
  | nil => exact ⟨rfl, Nat.le_refl _⟩
  | cons head tail ih =>
    cases tail with
    | nil => exact ⟨congrArg UInt64.toNat head.1, UInt64.le_iff_toNat_le.mp head.2⟩
    | cons _ _ =>
      simp only [lastTimestamp, lastDifficulty, List.getLast?_cons_cons] at ih ⊢
      exact ih

theorem exactDifficulty_mono (config : BlockchainConfiguration) (pointwise : List.Forall₂ Harder statistics harder) :
    exactDifficulty statistics config ≤ exactDifficulty harder config := by
  obtain ⟨timestamps, difficulties⟩ := last_mono pointwise
  have targets : targetDifficulty statistics config ≤ targetDifficulty harder config := by
    simp only [targetDifficulty, scaledDifficulty, averageDifficulty]
    rw [pointwise.length_eq, timestamps, firstTimestamp_congr pointwise]
    gcongr
    exact totalDifficulty_mono pointwise
  refine limitTo_mono (Nat.le_refl _) (Nat.le_refl _) (limitTo_mono ?_ ?_ targets)
  · gcongr
  · gcongr

theorem exactDifficulty_anti (config : BlockchainConfiguration) {earlier : List BlockStatistic}
    {timestamp later : UInt64} (difficulty : Difficulty) (delayed : timestamp ≤ later)
    (ordered : firstTimestamp (earlier ++ [⟨timestamp, difficulty⟩]) < timestamp.toNat) :
    exactDifficulty (earlier ++ [⟨later, difficulty⟩]) config ≤
      exactDifficulty (earlier ++ [⟨timestamp, difficulty⟩]) config := by
  have sameFirst : firstTimestamp (earlier ++ [⟨timestamp, difficulty⟩]) = firstTimestamp (earlier ++ [⟨later, difficulty⟩]) := by
    cases earlier with
    | nil => exact absurd ordered (Nat.lt_irrefl _)
    | cons first rest => rfl
  have sameScale : scaledDifficulty (earlier ++ [⟨timestamp, difficulty⟩]) config =
      scaledDifficulty (earlier ++ [⟨later, difficulty⟩]) config := by
    simp [scaledDifficulty, averageDifficulty, totalDifficulty]
  have targets : targetDifficulty (earlier ++ [⟨later, difficulty⟩]) config ≤
      targetDifficulty (earlier ++ [⟨timestamp, difficulty⟩]) config := by
    have times := UInt64.le_iff_toNat_le.mp delayed
    simp only [targetDifficulty, sameScale, lastTimestamp, List.getLast?_concat, Option.map_some, Option.getD_some, ← sameFirst]
    exact Nat.div_le_div_left (by omega) (by omega)
  simp only [exactDifficulty, lastDifficulty, List.getLast?_concat, Option.map_some, Option.getD_some]
  exact limitTo_mono (Nat.le_refl _) (Nat.le_refl _) (limitTo_mono (Nat.le_refl _) (Nat.le_refl _) targets)

/-- The adjustment is exact, falls with a later last block and grows with every difficulty. -/
theorem difficulty_adjustment_exact (config : BlockchainConfiguration) (sensible : config.Sensible) :
    (∀ statistics, Regular statistics → Fits statistics config ∧
      ∃ difficulty, calculateDifficulty statistics config = .ok difficulty ∧
        difficulty.value.toNat = exactDifficulty statistics config) ∧
    (∀ earlier difficulty timestamp later, timestamp ≤ later →
      Regular (earlier ++ [⟨timestamp, difficulty⟩]) → Regular (earlier ++ [⟨later, difficulty⟩]) →
      ∃ before after, calculateDifficulty (earlier ++ [⟨timestamp, difficulty⟩]) config = .ok before ∧
        calculateDifficulty (earlier ++ [⟨later, difficulty⟩]) config = .ok after ∧
        after.value ≤ before.value) ∧
    (∀ statistics harder, List.Forall₂ Harder statistics harder → Regular statistics → Regular harder →
      ∃ before after, calculateDifficulty statistics config = .ok before ∧
        calculateDifficulty harder config = .ok after ∧ before.value ≤ after.value) := by
  have exact (statistics : List BlockStatistic) (regular : Regular statistics) :=
    calculateDifficulty_exact regular (regular.fits sensible)
  refine ⟨fun statistics regular => ⟨regular.fits sensible, exact statistics regular⟩, ?_, ?_⟩
  · intro earlier difficulty timestamp later delayed regular regularLater
    obtain ⟨before, computed, value⟩ := exact _ regular
    obtain ⟨after, computedLater, valueLater⟩ := exact _ regularLater
    refine ⟨before, after, computed, computedLater, UInt64.le_iff_toNat_le.mpr ?_⟩
    rw [value, valueLater]
    apply exactDifficulty_anti config difficulty delayed
    have ordered := (regular.fits sensible).ordered
    simpa only [lastTimestamp, List.getLast?_concat, Option.map_some, Option.getD_some] using ordered
  · intro statistics harder pointwise regular regularHarder
    obtain ⟨before, computed, value⟩ := exact _ regular
    obtain ⟨after, computedHarder, valueHarder⟩ := exact _ regularHarder
    refine ⟨before, after, computed, computedHarder, UInt64.le_iff_toNat_le.mpr ?_⟩
    rw [value, valueHarder]
    exact exactDifficulty_mono config pointwise

namespace Samples

def minuteConfiguration : BlockchainConfiguration := ⟨60000⟩

theorem minuteConfiguration_sensible : minuteConfiguration.Sensible := ⟨by decide, by decide⟩

/-- The adjustment is exact for two blocks that are 58 seconds apart. -/
theorem minute_adjustment_exact : minuteConfiguration.Sensible ∧
      ∃ difficulty, calculateDifficulty [⟨0, default⟩, ⟨58000, default⟩] minuteConfiguration = .ok difficulty ∧
        difficulty.value.toNat = 103448275862068 := by
  refine ⟨minuteConfiguration_sensible, ?_⟩
  exact ((difficulty_adjustment_exact minuteConfiguration minuteConfiguration_sensible).1
    [⟨0, default⟩, ⟨58000, default⟩] ⟨by decide, by decide, by unfold Spaced; decide⟩).2

end Samples

end Catapult.Chain
