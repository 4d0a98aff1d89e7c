import Catapult.Construction.Model.InflationCalculator
import Mathlib.Algebra.BigOperators.Intervals

/-
This file shows that the cumulative amounts and the total inflation are sums of the spot amounts.
-/

namespace Catapult.Model.InflationCalculator

section Spots

variable {entries : List (Height × Amount)} {amount : Amount}

/-- The spot amount at a height without a bound; no entry lies above all 64 bit heights. -/
def spot (amount : Amount) (entries : List (Height × Amount)) (height : Nat) : Nat := (spotAmountFrom (UInt64.ofNat height) amount entries).toNat

/-- The exact sum of the spot amounts at some heights. -/
def sumOfSpots (amount : Amount) (entries : List (Height × Amount)) (first last : Nat) : Nat := ∑ height ∈ Finset.Ico first last, spot amount entries height

theorem spot_before {pair : Height × Amount} {height : Nat} (bounded : height < 2 ^ 64) (before : height < pair.1.toNat) :
    spot amount (pair :: entries) height = amount.toNat := by
  rw [spot, spotAmountFrom, if_pos]
  rwa [UInt64.lt_iff_toNat_lt, UInt64.toNat_ofNat_of_lt' bounded]

theorem spot_behind {pair : Height × Amount} {height : Nat} (bounded : height < 2 ^ 64) (behind : pair.1.toNat ≤ height) :
    spot amount (pair :: entries) height = spot pair.2 entries height := by
  rw [spot, spotAmountFrom, if_neg, spot]
  rwa [UInt64.not_lt, UInt64.le_iff_toNat_le, UInt64.toNat_ofNat_of_lt' bounded]

/-- The amount does not change up to the next entry. -/
theorem sumOfSpots_before {pair : Height × Amount} {first last : Nat} (bounded : last < 2 ^ 64) (before : last ≤ pair.1.toNat) :
    sumOfSpots amount (pair :: entries) first last = amount.toNat * (last - first) := by
  rw [sumOfSpots, Finset.sum_const_nat fun height member => spot_before (by have := Finset.mem_Ico.mp member; omega)
    (by have := Finset.mem_Ico.mp member; omega), Nat.card_Ico, Nat.mul_comm]

theorem sumOfSpots_nil (first last : Nat) : sumOfSpots amount [] first last = amount.toNat * (last - first) := by
  have constant : ∀ height ∈ Finset.Ico first last, spot amount [] height = amount.toNat := fun _ _ => rfl
  rw [sumOfSpots, Finset.sum_const_nat constant, Nat.card_Ico, Nat.mul_comm]

/-- A sum is divided by the next entry. -/
theorem sumOfSpots_cons {pair : Height × Amount} {first last : Nat} (bounded : last < 2 ^ 64) (start : first ≤ pair.1.toNat) (behind : pair.1.toNat ≤ last) :
    sumOfSpots amount (pair :: entries) first last = amount.toNat * (pair.1.toNat - first) + sumOfSpots pair.2 entries pair.1.toNat last := by
  have divided := (Finset.sum_Ico_consecutive (fun height => spot amount (pair :: entries) height) start behind).symm
  have rest : ∑ height ∈ Finset.Ico pair.1.toNat last, spot amount (pair :: entries) height = sumOfSpots pair.2 entries pair.1.toNat last :=
    Finset.sum_congr rfl fun height member => spot_behind (by have := Finset.mem_Ico.mp member; omega) (Finset.mem_Ico.mp member).1
  rw [rest] at divided
  rw [sumOfSpots, divided]
  congr 1
  exact sumOfSpots_before pair.1.toNat_lt (Nat.le_refl _)

end Spots

section Cumulative

variable {entries : List (Height × Amount)} {height : Height}

/-- The amount that the loop and the statement after it arrive at. -/
def finish (height : Height) (state : CumulativeState) : Amount :=
  if state.currentHeight < height then state.totalAmount + state.currentAmount * (height - state.currentHeight) else state.totalAmount

theorem toNat_sub {lhs rhs : UInt64} (le : rhs.toNat ≤ lhs.toNat) : (lhs - rhs) = UInt64.ofNat (lhs.toNat - rhs.toNat) := by
  apply UInt64.toNat.inj
  rw [UInt64.toNat_sub_of_le _ _ (UInt64.le_iff_toNat_le.mpr le), UInt64.toNat_ofNat_of_lt' (Nat.lt_of_le_of_lt (Nat.sub_le _ _) lhs.toNat_lt)]

/-- The loop adds up the spot amounts from the current height on, modulo the width. -/
theorem cumulativeAmountFrom_eq (ascending : entries.Pairwise fun lower upper => lower.1.toNat < upper.1.toNat) {state : CumulativeState}
    (start : ∀ pair ∈ entries, state.currentHeight.toNat ≤ pair.1.toNat) (inside : state.currentHeight.toNat ≤ height.toNat) :
    finish height (cumulativeAmountFrom height state entries) =
      state.totalAmount + UInt64.ofNat (sumOfSpots state.currentAmount entries state.currentHeight.toNat height.toNat) := by
  induction entries generalizing state with
  | nil =>
    rw [cumulativeAmountFrom, sumOfSpots_nil, finish, UInt64.ofNat_mul, UInt64.ofNat_toNat, ← toNat_sub inside]
    split
    · rfl
    · next above =>
      have same : height.toNat = state.currentHeight.toNat := by
        rw [UInt64.lt_iff_toNat_lt] at above
        omega
      rw [UInt64.toNat.inj same, UInt64.sub_self, UInt64.mul_zero, UInt64.add_zero]
  | cons pair entries ih =>
    obtain ⟨later, ascending'⟩ := List.pairwise_cons.mp ascending
    have first := start pair List.mem_cons_self
    rw [cumulativeAmountFrom]
    by_cases le : height ≤ pair.1
    · have le' := UInt64.le_iff_toNat_le.mp le
      have clamped : (if height < pair.1 then height else pair.1) = height := by
        split
        · rfl
        · next above => exact UInt64.le_antisymm (UInt64.not_lt.mp above) le
      rw [if_pos le, clamped, finish, if_neg (UInt64.not_lt.mpr le), sumOfSpots_before height.toNat_lt le', UInt64.ofNat_mul,
        UInt64.ofNat_toNat, toNat_sub inside]
    · have less := UInt64.lt_iff_toNat_lt.mp (UInt64.not_le.mp le)
      rw [if_neg le, if_neg fun above => le (UInt64.le_of_lt above), ih ascending' (fun other member => Nat.le_of_lt (later other member))
        (Nat.le_of_lt less), sumOfSpots_cons height.toNat_lt first (Nat.le_of_lt less), UInt64.ofNat_add, UInt64.ofNat_mul, UInt64.ofNat_toNat,
        toNat_sub first, UInt64.add_assoc]

end Cumulative

variable {entries : List (Height × Amount)}

/-- The last entry of the map, or what precedes it. -/
def lastPair (pair : Height × Amount) (entries : List (Height × Amount)) : Height × Amount := (entries.getLast?).getD pair

theorem lastPair_cons (pair next : Height × Amount) (entries : List (Height × Amount)) : lastPair pair (next :: entries) = lastPair next entries := by
  rw [lastPair, List.getLast?_cons, lastPair]
  rfl

theorem le_lastPair {pair : Height × Amount} (start : ∀ other ∈ entries, pair.1.toNat ≤ other.1.toNat) : pair.1.toNat ≤ (lastPair pair entries).1.toNat := by
  unfold lastPair
  cases final : entries.getLast? with
  | none => exact Nat.le_refl _
  | some last => exact start last (List.mem_of_getLast? final)

theorem maxAmount_toNat : maxAmount.toNat = 2 ^ 64 - 1 := rfl

/-- The product is checked with a division. -/
theorem product_check {amount numBlocks : UInt64} :
    (numBlocks ≠ 0 ∧ amount > maxAmount / numBlocks) ↔ 2 ^ 64 ≤ amount.toNat * numBlocks.toNat := by
  by_cases zero : numBlocks = 0
  · subst zero
    simp
  · have positive : 0 < numBlocks.toNat := Nat.pos_of_ne_zero fun none => zero (UInt64.toNat.inj none)
    rw [gt_iff_lt, UInt64.lt_iff_toNat_lt, UInt64.toNat_div, Nat.div_lt_iff_lt_mul positive, maxAmount_toNat]
    constructor
    · rintro ⟨_, less⟩
      omega
    · intro great
      exact ⟨zero, by omega⟩

/-- The sum is abandoned exactly if the spot amounts up to the last entry do not fit. -/
theorem sumFrom_eq (ascending : entries.Pairwise fun lower upper => lower.1.toNat < upper.1.toNat) {pair : Height × Amount}
    (start : ∀ other ∈ entries, pair.1.toNat ≤ other.1.toNat) (total : UInt64) : sumFrom pair total entries =
      if total.toNat + sumOfSpots pair.2 entries pair.1.toNat (lastPair pair entries).1.toNat < 2 ^ 64 then
        some (lastPair pair entries, UInt64.ofNat (total.toNat + sumOfSpots pair.2 entries pair.1.toNat (lastPair pair entries).1.toNat))
      else none := by
  induction entries generalizing pair total with
  | nil =>
    have none : sumOfSpots pair.2 [] pair.1.toNat (lastPair pair []).1.toNat = 0 := by
      rw [sumOfSpots_nil, lastPair, List.getLast?_nil, Option.getD_none, Nat.sub_self, Nat.mul_zero]
    rw [sumFrom, none, Nat.add_zero, if_pos total.toNat_lt, UInt64.ofNat_toNat]
    rfl
  | cons next entries ih =>
    obtain ⟨later, ascending'⟩ := List.pairwise_cons.mp ascending
    have first := start next List.mem_cons_self
    have later' : ∀ other ∈ entries, next.1.toNat ≤ other.1.toNat := fun other member => Nat.le_of_lt (later other member)
    have blocks : (next.1 - pair.1).toNat = next.1.toNat - pair.1.toNat := UInt64.toNat_sub_of_le _ _ (UInt64.le_iff_toNat_le.mpr first)
    rw [lastPair_cons, sumOfSpots_cons (lastPair next entries).1.toNat_lt first (le_lastPair later'), sumFrom]
    have tail (total : UInt64) := ih ascending' later' total
    generalize sumOfSpots next.2 entries next.1.toNat (lastPair next entries).1.toNat = rest at tail ⊢
    by_cases product : 2 ^ 64 ≤ pair.2.toNat * (next.1 - pair.1).toNat
    · rw [if_pos (product_check.mpr product)]
      rw [blocks] at product
      rw [if_neg (by omega)]
    · have summand : (pair.2 * (next.1 - pair.1)).toNat = pair.2.toNat * (next.1.toNat - pair.1.toNat) := by
        rw [UInt64.toNat_mul, Nat.mod_eq_of_lt (by omega), blocks]
      rw [if_neg (product_check.not.mpr product)]
      dsimp only
      generalize pair.2 * (next.1 - pair.1) = product at summand ⊢
      rw [← summand, tail]
      have bounded := product.toNat_lt
      have checked : total > maxAmount - product ↔ 2 ^ 64 ≤ total.toNat + product.toNat := by
        rw [gt_iff_lt, UInt64.lt_iff_toNat_lt, UInt64.toNat_sub_of_le _ _ (UInt64.le_iff_toNat_le.mpr (by rw [maxAmount_toNat]; omega)),
          maxAmount_toNat]
        omega
      by_cases great : 2 ^ 64 ≤ total.toNat + product.toNat
      · rw [if_pos (checked.mpr great), if_neg (by omega)]
      · have sum : (total + product).toNat = total.toNat + product.toNat := by
          rw [UInt64.toNat_add, Nat.mod_eq_of_lt (by omega)]
        rw [if_neg (checked.not.mpr great), sum, Nat.add_assoc]

section Consistency

variable (calculator : InflationCalculator)

/-- The exact sum of the spot amounts of all blocks below a height. -/
def exactCumulativeAmount (height : Nat) : Nat := ∑ block ∈ Finset.Ico 1 height, (calculator.getSpotAmount (UInt64.ofNat block)).toNat

/-- The height of the last entry. -/
def lastHeight : Height := (lastPair (1, 0) calculator.inflationMap).1

theorem start_le : ∀ pair ∈ calculator.inflationMap, (1 : Height).toNat ≤ pair.1.toNat := calculator.positive

theorem getCumulativeAmount_eq {height : Height} (positive : 0 < height.toNat) :
    calculator.getCumulativeAmount height = UInt64.ofNat (calculator.exactCumulativeAmount height.toNat) := by
  have nonzero : height ≠ 0 := by
    rintro rfl
    exact absurd positive (by decide)
  have loop := @cumulativeAmountFrom_eq _ height calculator.ascending ⟨0, 0, 1⟩ calculator.start_le positive
  rw [UInt64.zero_add] at loop
  rw [getCumulativeAmount, if_neg nonzero]
  exact loop

/-- From the last entry on the spot amount is the last one. -/
theorem getSpotAmount_last {amount : Amount} {entries : List (Height × Amount)} {pair : Height × Amount} (value : pair.2 = amount)
    (ascending : entries.Pairwise fun lower upper => lower.1.toNat < upper.1.toNat) (start : ∀ other ∈ entries, pair.1.toNat ≤ other.1.toNat)
    {height : Height} (behind : (lastPair pair entries).1.toNat ≤ height.toNat) : spotAmountFrom height amount entries = (lastPair pair entries).2 := by
  induction entries generalizing pair amount with
  | nil => exact value.symm
  | cons next entries ih =>
    obtain ⟨later, ascending'⟩ := List.pairwise_cons.mp ascending
    have later' : ∀ other ∈ entries, next.1.toNat ≤ other.1.toNat := fun other member => Nat.le_of_lt (later other member)
    rw [lastPair_cons] at behind ⊢
    have le := le_lastPair later'
    rw [spotAmountFrom, if_neg (by rw [UInt64.lt_iff_toNat_lt]; omega)]
    exact ih rfl ascending' later' behind

/-- The total is that of all blocks below the last entry. -/
theorem sumAll_eq : calculator.sumAll =
    if (lastPair (1, 0) calculator.inflationMap).2 = 0 ∧ calculator.exactCumulativeAmount calculator.lastHeight.toNat < 2 ^ 64 then
      (UInt64.ofNat (calculator.exactCumulativeAmount calculator.lastHeight.toNat), true)
    else (0, false) := by
  have loop := @sumFrom_eq _ calculator.ascending (1, 0) calculator.start_le 0
  change sumFrom (1, 0) 0 calculator.inflationMap = if 0 + calculator.exactCumulativeAmount calculator.lastHeight.toNat < 2 ^ 64 then
    some (_, UInt64.ofNat (0 + calculator.exactCumulativeAmount calculator.lastHeight.toNat)) else none at loop
  rw [Nat.zero_add] at loop
  rw [sumAll, loop]
  by_cases fits : calculator.exactCumulativeAmount calculator.lastHeight.toNat < 2 ^ 64
  · rw [if_pos fits]
    by_cases zero : (lastPair (1, 0) calculator.inflationMap).2 = 0
    · rw [if_pos ⟨zero, fits⟩]
      simp only [zero, if_true, decide_true]
    · rw [if_neg fun both => zero both.1]
      simp only [zero, if_false, decide_false]
  · rw [if_neg fits, if_neg fun both => fits both.2]

/-- A valid total is exact. -/
theorem sumAll_valid (valid : calculator.sumAll.2 = true) :
    (lastPair (1, 0) calculator.inflationMap).2 = 0 ∧ calculator.exactCumulativeAmount calculator.lastHeight.toNat < 2 ^ 64 ∧
      calculator.sumAll.1 = UInt64.ofNat (calculator.exactCumulativeAmount calculator.lastHeight.toNat) := by
  rw [sumAll_eq] at valid ⊢
  split at valid
  · next both =>
    rw [if_pos both]
    exact ⟨both.1, both.2, rfl⟩
  · cases valid

/-- No amount is added behind a last entry of zero. -/
theorem exactCumulativeAmount_last (zero : (lastPair (1, 0) calculator.inflationMap).2 = 0) {height : Height}
    (behind : calculator.lastHeight.toNat ≤ height.toNat) :
    calculator.exactCumulativeAmount height.toNat = calculator.exactCumulativeAmount calculator.lastHeight.toNat := by
  have first : 1 ≤ calculator.lastHeight.toNat := @le_lastPair _ (1, 0) calculator.start_le
  have divided := Finset.sum_Ico_consecutive (fun block => (calculator.getSpotAmount (UInt64.ofNat block)).toNat) first behind
  have none : ∑ block ∈ Finset.Ico calculator.lastHeight.toNat height.toNat, (calculator.getSpotAmount (UInt64.ofNat block)).toNat = 0 := by
    apply Finset.sum_eq_zero
    intro block member
    obtain ⟨above, below⟩ := Finset.mem_Ico.mp member
    have bounded := height.toNat_lt
    have spot := @getSpotAmount_last _ _ (1, 0) rfl calculator.ascending calculator.start_le (UInt64.ofNat block)
      (by rw [UInt64.toNat_ofNat_of_lt' (by change _ < 2 ^ 64; omega)]; exact above)
    rw [getSpotAmount, spot, zero]
    rfl
  rw [none, Nat.add_zero] at divided
  exact divided.symm

theorem lastPair_zero_iff :
    (lastPair (1, 0) calculator.inflationMap).2 = 0 ↔ ∀ last, calculator.inflationMap.getLast? = some last → last.2 = 0 := by
  unfold lastPair
  cases calculator.inflationMap.getLast? with
  | none => exact ⟨fun _ => nofun, fun _ => rfl⟩
  | some last =>
    constructor
    · rintro zero _ ⟨rfl⟩
      exact zero
    · intro zero
      exact zero last rfl

end Consistency

/-- The cumulative amounts are the sums of the spot amounts, and the total is checked exactly. -/
theorem inflation_consistent (calculator : InflationCalculator) :
    (∀ height : Height, 0 < height.toNat → calculator.exactCumulativeAmount height.toNat < 2 ^ 64 →
      (calculator.getCumulativeAmount height).toNat = calculator.exactCumulativeAmount height.toNat) ∧
      (∀ height : Height, 0 < height.toNat → height.toNat + 1 < 2 ^ 64 → calculator.exactCumulativeAmount (height.toNat + 1) < 2 ^ 64 →
        (calculator.getCumulativeAmount (height + 1)).toNat =
          (calculator.getCumulativeAmount height).toNat + (calculator.getSpotAmount height).toNat) ∧
      (calculator.sumAll.2 = true ↔ (∀ last, calculator.inflationMap.getLast? = some last → last.2 = 0) ∧
        calculator.exactCumulativeAmount calculator.lastHeight.toNat < 2 ^ 64) ∧
      (calculator.sumAll.2 = true → calculator.sumAll.1.toNat = calculator.exactCumulativeAmount calculator.lastHeight.toNat ∧
        ∀ height : Height, calculator.lastHeight.toNat ≤ height.toNat →
          calculator.exactCumulativeAmount height.toNat = calculator.sumAll.1.toNat ∧ calculator.getCumulativeAmount height = calculator.sumAll.1) := by
  refine ⟨?_, ?_, ?_, ?_⟩
  · intro height positive fits
    rw [calculator.getCumulativeAmount_eq positive, UInt64.toNat_ofNat_of_lt' fits]
  · intro height positive bounded fits
    have next : (height + 1).toNat = height.toNat + 1 := by
      rw [UInt64.toNat_add]
      exact Nat.mod_eq_of_lt bounded
    have split : calculator.exactCumulativeAmount (height.toNat + 1) =
        calculator.exactCumulativeAmount height.toNat + (calculator.getSpotAmount height).toNat := by
      rw [exactCumulativeAmount, Finset.sum_Ico_succ_top positive, UInt64.ofNat_toNat, exactCumulativeAmount]
    rw [calculator.getCumulativeAmount_eq (by omega), calculator.getCumulativeAmount_eq positive, next, UInt64.toNat_ofNat_of_lt' fits, split,
      UInt64.toNat_ofNat_of_lt' (by change _ < 2 ^ 64; omega)]
  · rw [← lastPair_zero_iff]
    constructor
    · intro valid
      obtain ⟨zero, fits, _⟩ := calculator.sumAll_valid valid
      exact ⟨zero, fits⟩
    · intro both
      rw [sumAll_eq, if_pos both]
  · intro valid
    obtain ⟨zero, fits, total⟩ := calculator.sumAll_valid valid
    have exact : calculator.sumAll.1.toNat = calculator.exactCumulativeAmount calculator.lastHeight.toNat := by
      rw [total, UInt64.toNat_ofNat_of_lt' fits]
    refine ⟨exact, ?_⟩
    intro height behind
    have same := calculator.exactCumulativeAmount_last zero behind
    have first : 1 ≤ calculator.lastHeight.toNat := @le_lastPair _ (1, 0) calculator.start_le
    exact ⟨same.trans exact.symm, by rw [calculator.getCumulativeAmount_eq (by omega), same, total]⟩

end Catapult.Model.InflationCalculator
