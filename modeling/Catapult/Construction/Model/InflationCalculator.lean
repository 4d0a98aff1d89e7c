import Catapult.Construction.Types

/-
This file models the calculation of the inflation.
-/

namespace Catapult.Model

/-- An inflation entry holds from its height up to the next entry. -/
structure InflationCalculator where
  inflationMap : List (Height × Amount)
  ascending : inflationMap.Pairwise fun lower upper => lower.1.toNat < upper.1.toNat
  positive : ∀ pair ∈ inflationMap, 0 < pair.1.toNat

namespace InflationCalculator

def empty : InflationCalculator := ⟨[], List.Pairwise.nil, nofun⟩

def spotAmountFrom (height : Height) (amount : Amount) : List (Height × Amount) → Amount
  | [] => amount
  | pair :: rest => if height < pair.1 then amount else spotAmountFrom height pair.2 rest

def getSpotAmount (calculator : InflationCalculator) (height : Height) : Amount :=
  spotAmountFrom height 0 calculator.inflationMap

/-- The variables of the loop over the entries. -/
structure CumulativeState where
  totalAmount : Amount
  currentAmount : Amount
  currentHeight : Height

/-- The loop is left at the first entry that is not below the height. -/
def cumulativeAmountFrom (height : Height) (state : CumulativeState) : List (Height × Amount) → CumulativeState
  | [] => state
  | pair :: rest =>
    let numBlocks := (if height < pair.1 then height else pair.1) - state.currentHeight
    let next := ⟨state.totalAmount + state.currentAmount * numBlocks, pair.2, pair.1⟩
    if height ≤ pair.1 then next else cumulativeAmountFrom height next rest

def getCumulativeAmount (calculator : InflationCalculator) (height : Height) : Amount :=
  if height = 0 then 0
  else
    let state := cumulativeAmountFrom height ⟨0, 0, 1⟩ calculator.inflationMap
    if state.currentHeight < height then state.totalAmount + state.currentAmount * (height - state.currentHeight)
    else state.totalAmount

def maxAmount : UInt64 := 0xFFFFFFFFFFFFFFFF

/-- The sum is abandoned when it does not fit. -/
def sumFrom (currentPair : Height × Amount) (totalAmountRaw : UInt64) : List (Height × Amount) → Option ((Height × Amount) × UInt64)
  | [] => some (currentPair, totalAmountRaw)
  | pair :: rest =>
    let numBlocks := pair.1 - currentPair.1
    if numBlocks ≠ 0 ∧ currentPair.2 > maxAmount / numBlocks then none
    else
      let summand := currentPair.2 * numBlocks
      if totalAmountRaw > maxAmount - summand then none
      else sumFrom pair (totalAmountRaw + summand) rest

def sumAll (calculator : InflationCalculator) : Amount × Bool :=
  match sumFrom (1, 0) 0 calculator.inflationMap with
  | none => (0, false)
  | some (currentPair, totalAmountRaw) =>
    let isValid := currentPair.2 = 0
    (if isValid then totalAmountRaw else 0, isValid)

/-- All entries lie at or below the last one. -/
theorem lt_of_last (calculator : InflationCalculator) {height : Height} (above : ∀ last ∈ calculator.inflationMap.getLast?, last.1 < height) :
    ∀ pair ∈ calculator.inflationMap, pair.1.toNat < height.toNat := by
  intro pair member
  obtain none | ⟨front, last, split⟩ := List.eq_nil_or_concat calculator.inflationMap
  · rw [none] at member
    cases member
  · have ascending := calculator.ascending
    rw [split, List.concat_eq_append] at member ascending above
    have final := UInt64.lt_iff_toNat_lt.mp (above last List.getLast?_concat)
    obtain inside | single := List.mem_append.mp member
    · exact Nat.lt_trans ((List.pairwise_append.mp ascending).2.2 pair inside last List.mem_cons_self) final
    · rwa [List.mem_singleton.mp single]

/-- An entry is added behind the last one. -/
def add (calculator : InflationCalculator) (height : Height) (amount : Amount) : Except String InflationCalculator :=
  if invalid : height = 0 ∨ ∃ last ∈ calculator.inflationMap.getLast?, height ≤ last.1 then
    .error "cannot add inflation entry (height)"
  else
    .ok {
      inflationMap := calculator.inflationMap ++ [(height, amount)]
      ascending := by
        rw [not_or] at invalid
        refine List.pairwise_append.mpr ⟨calculator.ascending, List.pairwise_singleton _ _, ?_⟩
        intro pair member other single
        rw [List.mem_singleton.mp single]
        exact calculator.lt_of_last (fun last final => UInt64.not_le.mp fun below => invalid.2 ⟨last, final, below⟩) pair member
      positive := by
        rw [not_or] at invalid
        rw [List.forall_mem_append, List.forall_mem_singleton]
        exact ⟨calculator.positive, Nat.pos_of_ne_zero fun zero => invalid.1 (UInt64.toNat.inj zero)⟩ }

end InflationCalculator

end Catapult.Model
