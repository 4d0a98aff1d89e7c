import Catapult.Construction.Utils.ConfigurationValueParsers
import Mathlib.Data.List.Chain

/-
This file shows which integers of a configuration are parsed exactly.
-/

namespace Catapult.Utils

section Grammar

variable (traits : DigitTraits)

/-- Digits are separated by single quotes that are neither leading nor trailing nor consecutive. -/
structure IsNumeral (str : List Char) : Prop where
  nonempty : str ≠ []
  characters : ∀ ch ∈ str, traits.isDigit ch ∨ ch = digitSeparator
  not_leading : str.head? ≠ some digitSeparator
  not_trailing : str.getLast? ≠ some digitSeparator
  not_consecutive : str.IsChain fun first second => ¬ (first = digitSeparator ∧ second = digitSeparator)

/-- The separators carry no value. -/
def digitsOf (str : List Char) : List Nat :=
  (str.filter (· ≠ digitSeparator)).map fun ch => (traits.getByteValue ch).toNat

/-- The mathematical value of digits that begin with the most significant one. -/
def valueOf (digits : List Nat) : Nat := Nat.ofDigits traits.base digits.reverse

/-- No digit makes the value smaller modulo the width. -/
def Rising (width : Nat) (digits : List Nat) : Prop :=
  ∀ position < digits.length, valueOf traits (digits.take position) % 2 ^ width ≤ valueOf traits (digits.take (position + 1)) % 2 ^ width

/-- The overflow of a numeral goes unnoticed. -/
def Unnoticed (width : Nat) (str : List Char) : Prop :=
  IsNumeral traits str ∧ 2 ^ width ≤ valueOf traits (digitsOf traits str) ∧ Rising traits width (digitsOf traits str)

end Grammar

/-- A hexadecimal number follows its prefix. -/
def NumberBase.IsWritten : NumberBase → List Char → List Char → Prop
  | .decimal, numeral, str => str = numeral
  | .hex, numeral, str => str = '0' :: 'x' :: numeral

/-- A parser is exact if it returns the mathematical values of the numerals and nothing else. -/
def ParsesExactly (base : NumberBase) (width : Nat) (str : List Char) : Prop :=
  ∀ value : BitVec width, base.tryParseValue width str = some value ↔
    ∃ numeral, base.IsWritten numeral str ∧ IsNumeral base.traits numeral ∧
      value.toNat = valueOf base.traits (digitsOf base.traits numeral)

variable {traits : DigitTraits} {width : Nat} {front : List Char} {ch : Char}

theorem valueOf_append (digits : List Nat) (digit : Nat) :
    valueOf traits (digits ++ [digit]) = valueOf traits digits * traits.base + digit := by
  rw [valueOf, List.reverse_append, List.reverse_singleton, List.singleton_append, Nat.ofDigits_cons, Nat.add_comm, Nat.mul_comm, valueOf]

theorem digitsOf_append_separator : digitsOf traits (front ++ [digitSeparator]) = digitsOf traits front := by
  rw [digitsOf, List.filter_append, List.filter_cons_of_neg (by simp), List.filter_nil, List.append_nil, digitsOf]

theorem digitsOf_append_digit (digit : ch ≠ digitSeparator) :
    digitsOf traits (front ++ [ch]) = digitsOf traits front ++ [(traits.getByteValue ch).toNat] := by
  rw [digitsOf, List.filter_append, List.filter_cons_of_pos (by simpa using digit), List.filter_nil, List.map_append, digitsOf]
  rfl

theorem rising_append (digits : List Nat) (digit : Nat) : Rising traits width (digits ++ [digit]) ↔
      Rising traits width digits ∧ valueOf traits digits % 2 ^ width ≤ valueOf traits (digits ++ [digit]) % 2 ^ width := by
  have length : (digits ++ [digit]).length = digits.length + 1 := List.length_append
  constructor
  · intro rising
    constructor
    · intro position inside
      have step := rising position (by omega)
      rwa [List.take_append_of_le_length (by omega), List.take_append_of_le_length (by omega)] at step
    · have last := rising digits.length (by omega)
      rwa [List.take_left, ← length, List.take_length] at last
  · rintro ⟨rising, last⟩ position inside
    obtain before | final := Nat.lt_or_eq_of_le (show position ≤ digits.length by omega)
    · rw [List.take_append_of_le_length (by omega), List.take_append_of_le_length (by omega)]
      exact rising position before
    · subst final
      rwa [List.take_left, ← length, List.take_length]

/-- The loop accepts the beginning of a numeral as long as its value rises. -/
structure Accepted (traits : DigitTraits) (width : Nat) (front : List Char) : Prop where
  characters : ∀ ch ∈ front, traits.isDigit ch ∨ ch = digitSeparator
  not_leading : front.head? ≠ some digitSeparator
  not_consecutive : front.IsChain fun first second => ¬ (first = digitSeparator ∧ second = digitSeparator)
  rising : Rising traits width (digitsOf traits front)

/-- The loop accepts another character. -/
def Extends (traits : DigitTraits) (width : Nat) (front : List Char) (ch : Char) : Prop :=
  (ch = digitSeparator ∧ front ≠ [] ∧ front.getLast? ≠ some digitSeparator) ∨ (ch ≠ digitSeparator ∧ traits.isDigit ch ∧
      valueOf traits (digitsOf traits front) % 2 ^ width ≤ valueOf traits (digitsOf traits (front ++ [ch])) % 2 ^ width)

theorem consecutive_append : (front ++ [ch]).IsChain (fun first second => ¬ (first = digitSeparator ∧ second = digitSeparator)) ↔
      front.IsChain (fun first second => ¬ (first = digitSeparator ∧ second = digitSeparator)) ∧
        (ch = digitSeparator → front.getLast? ≠ some digitSeparator) := by
  rw [List.isChain_append]
  constructor
  · rintro ⟨chain, _, joined⟩
    refine ⟨chain, ?_⟩
    intro separator last
    exact joined _ last ch rfl ⟨rfl, separator⟩
  · rintro ⟨chain, last⟩
    refine ⟨chain, List.IsChain.singleton _, ?_⟩
    rintro before final _ ⟨rfl⟩ ⟨rfl, separator⟩
    exact last separator final

theorem leading_append : (front ++ [ch]).head? ≠ some digitSeparator ↔
    front.head? ≠ some digitSeparator ∧ (ch = digitSeparator → front ≠ []) := by
  cases front with
  | nil =>
    constructor
    · intro other
      exact ⟨nofun, fun separator _ => other (congrArg some separator)⟩
    · rintro ⟨_, nonempty⟩ same
      exact nonempty (Option.some.inj same) rfl
  | cons first front => exact ⟨fun other => ⟨other, fun _ => List.cons_ne_nil _ _⟩, fun both => both.1⟩

/-- A separator follows a digit, and a digit does not make the value smaller. -/
theorem accepted_append :
    Accepted traits width (front ++ [ch]) ↔ Accepted traits width front ∧ Extends traits width front ch := by
  have characters : (∀ other ∈ front ++ [ch], traits.isDigit other ∨ other = digitSeparator) ↔
      (∀ other ∈ front, traits.isDigit other ∨ other = digitSeparator) ∧ (traits.isDigit ch ∨ ch = digitSeparator) := by
    rw [List.forall_mem_append, List.forall_mem_singleton]
  by_cases separator : ch = digitSeparator
  · have same : digitsOf traits (front ++ [ch]) = digitsOf traits front := by
      rw [separator]
      exact digitsOf_append_separator
    constructor
    · rintro ⟨valid, leading, chain, rising⟩
      rw [same] at rising
      exact ⟨⟨(characters.mp valid).1, (leading_append.mp leading).1, (consecutive_append.mp chain).1, rising⟩,
        .inl ⟨separator, (leading_append.mp leading).2 separator, (consecutive_append.mp chain).2 separator⟩⟩
    · rintro ⟨⟨valid, leading, chain, rising⟩, ⟨_, nonempty, last⟩ | ⟨other, _⟩⟩
      · exact ⟨characters.mpr ⟨valid, .inr separator⟩, leading_append.mpr ⟨leading, fun _ => nonempty⟩,
          consecutive_append.mpr ⟨chain, fun _ => last⟩, by rwa [same]⟩
      · exact absurd separator other
  · have longer := @digitsOf_append_digit traits front ch separator
    constructor
    · rintro ⟨valid, leading, chain, rising⟩
      rw [longer, rising_append] at rising
      exact ⟨⟨(characters.mp valid).1, (leading_append.mp leading).1, (consecutive_append.mp chain).1, rising.1⟩,
        .inr ⟨separator, (characters.mp valid).2.resolve_right separator, by rw [longer]; exact rising.2⟩⟩
    · rintro ⟨⟨valid, leading, chain, rising⟩, ⟨same, _⟩ | ⟨_, digit, last⟩⟩
      · exact absurd same separator
      · rw [longer] at last
        exact ⟨characters.mpr ⟨valid, .inl digit⟩, leading_append.mpr ⟨leading, fun same => absurd same separator⟩,
          consecutive_append.mpr ⟨chain, fun same => absurd same separator⟩, by rw [longer, rising_append]; exact ⟨rising, last⟩⟩

def stateAfter (traits : DigitTraits) (width : Nat) (front : List Char) : ParseState width where
  result := BitVec.ofNat width (valueOf traits (digitsOf traits front))
  isLastCharSeparator := decide (front = [] ∨ front.getLast? = some digitSeparator)

/-- One round of the loop extends the accepted string. -/
theorem parseChar_eq_some (distinct : traits.isDigit digitSeparator = false) (state : ParseState width) :
    parseChar traits (stateAfter traits width front) ch = some state ↔
      Extends traits width front ch ∧ state = stateAfter traits width (front ++ [ch]) := by
  unfold parseChar
  by_cases separator : ch = digitSeparator
  · subst separator
    have after : stateAfter traits width (front ++ [digitSeparator]) = ⟨(stateAfter traits width front).result, true⟩ := by
      rw [stateAfter, digitsOf_append_separator, List.getLast?_concat]
      simp [stateAfter]
    have follows : Extends traits width front digitSeparator ↔ (stateAfter traits width front).isLastCharSeparator = false := by
      simp [Extends, stateAfter]
    rw [after, follows]
    simp only [distinct, Bool.false_or, decide_true, Bool.true_and, if_true]
    cases (stateAfter traits width front).isLastCharSeparator with
    | false => simp [eq_comm]
    | true => simp
  · have next : BitVec.ofNat width (valueOf traits (digitsOf traits front)) * BitVec.ofNat width traits.base +
        BitVec.ofNat width (traits.getByteValue ch).toNat = BitVec.ofNat width (valueOf traits (digitsOf traits (front ++ [ch]))) := by
      rw [digitsOf_append_digit separator, valueOf_append, BitVec.ofNat_add, BitVec.ofNat_mul]
    have after : stateAfter traits width (front ++ [ch]) = ⟨BitVec.ofNat width (valueOf traits (digitsOf traits (front ++ [ch]))), false⟩ := by
      rw [stateAfter, List.getLast?_concat]
      simp [separator]
    have follows : Extends traits width front ch ↔ traits.isDigit ch ∧
        ¬ BitVec.ofNat width (valueOf traits (digitsOf traits (front ++ [ch]))) < BitVec.ofNat width (valueOf traits (digitsOf traits front)) := by
      rw [BitVec.lt_def, BitVec.toNat_ofNat, BitVec.toNat_ofNat, Nat.not_lt]
      simp [Extends, separator]
    rw [after, follows]
    simp only [separator, decide_false, Bool.false_and, Bool.or_false, if_false, stateAfter, next]
    cases traits.isDigit ch with
    | false => simp
    | true =>
      by_cases less : BitVec.ofNat width (valueOf traits (digitsOf traits (front ++ [ch]))) <
          BitVec.ofNat width (valueOf traits (digitsOf traits front))
      · simp [less]
      · simp [less, eq_comm]

theorem foldlM_parseChar_eq_some (distinct : traits.isDigit digitSeparator = false) (str : List Char) (state : ParseState width) :
    str.foldlM (parseChar traits) ⟨0, true⟩ = some state ↔ Accepted traits width str ∧ state = stateAfter traits width str := by
  induction str using List.reverseRecOn generalizing state with
  | nil =>
    have accepted : Accepted traits width [] :=
      ⟨fun _ member => absurd member List.not_mem_nil, nofun, List.IsChain.nil, fun _ inside => absurd inside (Nat.not_lt_zero _)⟩
    rw [List.foldlM_nil]
    constructor
    · rintro ⟨rfl⟩
      exact ⟨accepted, rfl⟩
    · rintro ⟨_, rfl⟩
      rfl
  | append_singleton front ch ih =>
    rw [List.foldlM_append, accepted_append]
    constructor
    · intro parsed
      obtain ⟨before, ran, last⟩ := Option.bind_eq_some_iff.mp parsed
      obtain ⟨accepted, rfl⟩ := (ih before).mp ran
      obtain ⟨after, stepped, ⟨rfl⟩⟩ := Option.bind_eq_some_iff.mp last
      obtain ⟨continued, same⟩ := (parseChar_eq_some distinct _).mp stepped
      exact ⟨⟨accepted, continued⟩, same⟩
    · rintro ⟨⟨accepted, continued⟩, same⟩
      apply Option.bind_eq_some_iff.mpr
      refine ⟨_, (ih _).mpr ⟨accepted, rfl⟩, ?_⟩
      rw [List.foldlM_cons]
      exact Option.bind_eq_some_iff.mpr ⟨_, (parseChar_eq_some distinct _).mpr ⟨continued, same⟩, rfl⟩

/-- A value that fits the width rises with every digit. -/
theorem rising_of_lt (positive : 0 < traits.base) {digits : List Nat} (fits : valueOf traits digits < 2 ^ width) :
    Rising traits width digits := by
  induction digits using List.reverseRecOn with
  | nil =>
    intro position inside
    exact absurd inside (Nat.not_lt_zero _)
  | append_singleton front digit ih =>
    have smaller : valueOf traits front ≤ valueOf traits (front ++ [digit]) := by
      rw [valueOf_append]
      exact Nat.le_trans (Nat.le_mul_of_pos_right _ positive) (Nat.le_add_right _ _)
    rw [rising_append, Nat.mod_eq_of_lt fits, Nat.mod_eq_of_lt (by omega)]
    exact ⟨ih (by omega), smaller⟩

/-- The parser returns the value of a rising numeral modulo the width. -/
theorem tryParseUnsignedIntValue_eq_some (distinct : traits.isDigit digitSeparator = false) {str : List Char} {value : BitVec width} :
    tryParseUnsignedIntValue traits width str = some value ↔
      IsNumeral traits str ∧ Rising traits width (digitsOf traits str) ∧ value = BitVec.ofNat width (valueOf traits (digitsOf traits str)) := by
  have unset {state : ParseState width} : (if state.isLastCharSeparator then none else some state.result) = some value ↔
        state.isLastCharSeparator = false ∧ state.result = value := by
    cases state.isLastCharSeparator <;> simp
  unfold tryParseUnsignedIntValue
  constructor
  · intro parsed
    split at parsed
    · cases parsed
    · next nonempty =>
      obtain ⟨state, ran, last⟩ := Option.bind_eq_some_iff.mp parsed
      obtain ⟨accepted, rfl⟩ := (foldlM_parseChar_eq_some distinct str state).mp ran
      obtain ⟨digit, result⟩ := unset.mp last
      simp only [stateAfter, decide_eq_false_iff_not, not_or] at digit
      exact ⟨⟨digit.1, accepted.characters, accepted.not_leading, digit.2, accepted.not_consecutive⟩, accepted.rising, result.symm⟩
  · rintro ⟨numeral, rising, result⟩
    rw [if_neg (by simpa using numeral.nonempty)]
    apply Option.bind_eq_some_iff.mpr
    refine ⟨_, (foldlM_parseChar_eq_some distinct str _).mpr
      ⟨⟨numeral.characters, numeral.not_leading, numeral.not_consecutive, rising⟩, rfl⟩, unset.mpr ⟨?_, result.symm⟩⟩
    simp only [stateAfter, decide_eq_false_iff_not, not_or]
    exact ⟨numeral.nonempty, numeral.not_trailing⟩

/-- The loop is exact unless an overflow goes unnoticed. -/
theorem exact_iff (distinct : traits.isDigit digitSeparator = false) (positive : 0 < traits.base) (str : List Char) :
    (∀ value : BitVec width, tryParseUnsignedIntValue traits width str = some value ↔
      IsNumeral traits str ∧ value.toNat = valueOf traits (digitsOf traits str)) ↔ ¬ Unnoticed traits width str := by
  constructor
  · rintro exact ⟨numeral, great, rising⟩
    have parsed := (tryParseUnsignedIntValue_eq_some distinct).mpr ⟨numeral, rising, rfl⟩
    have same := ((exact _).mp parsed).2
    have bounded := (BitVec.ofNat width (valueOf traits (digitsOf traits str))).isLt
    omega
  · intro noticed value
    rw [tryParseUnsignedIntValue_eq_some distinct]
    constructor
    · rintro ⟨numeral, rising, rfl⟩
      refine ⟨numeral, ?_⟩
      rw [BitVec.toNat_ofNat, Nat.mod_eq_of_lt]
      by_contra great
      exact noticed ⟨numeral, Nat.not_lt.mp great, rising⟩
    · rintro ⟨numeral, same⟩
      refine ⟨numeral, rising_of_lt positive (same ▸ value.isLt), ?_⟩
      rw [← same, BitVec.ofNat_toNat, BitVec.setWidth_eq]

/-- The hexadecimal parser requires the prefix. -/
theorem tryParseUnsignedIntHexValue_eq_some {width : Nat} {str : List Char} {value : BitVec width} :
    tryParseUnsignedIntHexValue width str = some value ↔
      ∃ numeral, str = '0' :: 'x' :: numeral ∧ tryParseUnsignedIntValue hexTraits width numeral = some value := by
  unfold tryParseUnsignedIntHexValue
  constructor
  · intro parsed
    split at parsed
    · cases parsed
    · next valid =>
      rw [not_or, not_not] at valid
      refine ⟨str.drop 2, ?_, parsed⟩
      calc str = str.take 2 ++ str.drop 2 := (List.take_append_drop 2 str).symm
        _ = '0' :: 'x' :: str.drop 2 := by rw [valid.2]; rfl
  · rintro ⟨numeral, rfl, parsed⟩
    rw [if_neg (by simp)]
    exact parsed

/-- A numeral is written in one way, and what is written in another way is not parsed. -/
theorem parsesExactly_of_isWritten {base : NumberBase} {width : Nat} {numeral str : List Char} (written : base.IsWritten numeral str) :
    ParsesExactly base width str ↔ ∀ value : BitVec width, tryParseUnsignedIntValue base.traits width numeral = some value ↔
      IsNumeral base.traits numeral ∧ value.toNat = valueOf base.traits (digitsOf base.traits numeral) := by
  cases base with
  | decimal =>
    cases written
    exact forall_congr' fun value => iff_congr Iff.rfl exists_eq_left'
  | hex =>
    cases written
    refine forall_congr' fun value => iff_congr ?_ ?_
    · change tryParseUnsignedIntHexValue width _ = _ ↔ _
      rw [tryParseUnsignedIntHexValue_eq_some]
      simp [NumberBase.traits]
    · simp [NumberBase.IsWritten]

theorem isWritten_unique {base : NumberBase} {numeral other str : List Char} (written : base.IsWritten numeral str)
    (written' : base.IsWritten other str) : other = numeral := by
  cases base with
  | decimal => exact written'.symm.trans written
  | hex =>
    cases written
    cases written'
    rfl

theorem traits_distinct (base : NumberBase) : base.traits.isDigit digitSeparator = false := by cases base <;> decide

theorem traits_positive (base : NumberBase) : 0 < base.traits.base := by cases base <;> decide

/-- The parsers are exact for the strings whose overflow does not go unnoticed. -/
theorem parsesExactly_iff (base : NumberBase) (width : Nat) (str : List Char) :
    ParsesExactly base width str ↔ ∀ numeral, base.IsWritten numeral str → ¬ Unnoticed base.traits width numeral := by
  by_cases some : ∃ numeral, base.IsWritten numeral str
  · obtain ⟨numeral, written⟩ := some
    rw [parsesExactly_of_isWritten written, exact_iff (traits_distinct base) (traits_positive base)]
    constructor
    · intro noticed other written'
      rwa [isWritten_unique written written']
    · intro noticed
      exact noticed numeral written
  · constructor
    · intro _ numeral written
      exact absurd ⟨numeral, written⟩ some
    · intro _ value
      constructor
      · intro parsed
        cases base with
        | decimal => exact absurd ⟨str, rfl⟩ some
        | hex =>
          obtain ⟨numeral, written, _⟩ := tryParseUnsignedIntHexValue_eq_some.mp parsed
          exact absurd ⟨numeral, written⟩ some
      · rintro ⟨numeral, written, _⟩
        exact absurd ⟨numeral, written⟩ some

/-- A value above the width is accepted as a smaller one. -/
theorem threeHundred_inexact : ¬ ParsesExactly .decimal 8 ['3', '0', '0'] := by
  intro exact
  obtain ⟨numeral, ⟨rfl⟩, _, value⟩ := (exact 44).mp (by decide)
  exact absurd value (by decide)

end Catapult.Utils
