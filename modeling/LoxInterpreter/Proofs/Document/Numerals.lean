import LoxInterpreter.Proofs.Document.Grammar
import LoxInterpreter.Proofs.Number.Shortest

/-!
Contract: the numbers in documents are written as numbers.

What is written for a finite double is a number of the grammar that denotes this double, and no other one: in
front of what can stand behind a value, a number ends where its characters end. What is written for infinity
and NaN begins like no value.

Owns: `Json.Delimited`, `Numeral.text_append_inj`, and `exists_whole`, `exists_real` and `not_numeral`, which
say what the written numbers are.
Does not own: which digits are chosen (`Proofs.Number.Shortest`).
-/

namespace LoxInterpreter.Json

/-! ## Where a number ends -/

/-- What can stand behind a value. -/
def delimiters : List Char := [',', ']', '\x7d'] ++ blanks

/-- Whether a text is at its end, or begins with what can stand behind a value. -/
def Delimited (rest : List Char) : Prop :=
  ∀ character, rest.head? = some character → character ∈ delimiters

/-- Whether a text does not begin with any of some characters. -/
def Stops (isPart : Char → Bool) (rest : List Char) : Prop :=
  ∀ character, rest.head? = some character → isPart character = false

theorem Delimited.stops {isPart : Char → Bool} {rest : List Char} (delimited : Delimited rest)
    (others : ∀ character ∈ delimiters, isPart character = false) : Stops isPart rest :=
  fun character isHead => others character (delimited character isHead)

/-- Where two runs of the same kind of characters end at their last ones, they are the same. -/
theorem run_append_inj {isPart : Char → Bool} {run run' rest rest' : List Char}
    (areParts : ∀ character ∈ run, isPart character = true)
    (areParts' : ∀ character ∈ run', isPart character = true) (stops : Stops isPart rest)
    (stops' : Stops isPart rest') (same : run ++ rest = run' ++ rest') :
    run = run' ∧ rest = rest' := by
  have taken {run rest : List Char} (areParts : ∀ character ∈ run, isPart character = true)
      (stops : Stops isPart rest) : (run ++ rest).takeWhile isPart = run := by
    rw [List.takeWhile_append_of_pos areParts]
    cases rest with
    | nil => simp
    | cons first rest => simp [stops first rfl]
  have sameRun : run = run' := by
    rw [← taken areParts stops, same, taken areParts' stops']
  subst sameRun
  exact ⟨rfl, List.append_cancel_left same⟩

namespace Exponent

/-- The sign of an exponent is what stands in front of its first digit. -/
theorem takeWhile_sign (exponent : Exponent) (rest : List Char) :
    (exponent.sign ++ (exponent.digits ++ rest)).takeWhile (!·.isDigit) = exponent.sign := by
  have noDigits : ∀ character ∈ exponent.sign, (!character.isDigit) = true := by
    have isSign := exponent.isSign
    simp only [List.mem_cons, List.not_mem_nil, or_false] at isSign
    rcases isSign with sign | sign | sign <;> simp [sign]
  obtain ⟨first, others, areDigits⟩ := List.exists_cons_of_ne_nil exponent.areDigits.1
  have isDigit := exponent.areDigits.2 first (by simp [areDigits])
  rw [List.takeWhile_append_of_pos noDigits, areDigits]
  simp [isDigit]

theorem text_append_inj {first second : Exponent} {rest rest' : List Char} (delimited : Delimited rest)
    (delimited' : Delimited rest') (same : first.text ++ rest = second.text ++ rest') :
    first = second ∧ rest = rest' := by
  unfold text at same
  rw [List.cons_append, List.cons_append, List.append_assoc, List.append_assoc] at same
  obtain ⟨sameLetter, sameBehind⟩ := List.cons.inj same
  have sameSign : first.sign = second.sign := by
    rw [← first.takeWhile_sign rest, sameBehind, second.takeWhile_sign rest']
  rw [sameSign] at sameBehind
  have ⟨sameDigits, sameRest⟩ := run_append_inj first.areDigits.2 second.areDigits.2
    (delimited.stops (by simp [delimiters, blanks])) (delimited'.stops (by simp [delimiters, blanks]))
    (List.append_cancel_left sameBehind)
  exact ⟨Exponent.ext sameLetter sameSign sameDigits, sameRest⟩

end Exponent

namespace Numeral

theorem exponent_append_inj {first second : Option Exponent} {rest rest' : List Char}
    (delimited : Delimited rest) (delimited' : Delimited rest')
    (same : first.elim [] Exponent.text ++ rest = second.elim [] Exponent.text ++ rest') :
    first = second ∧ rest = rest' := by
  -- What can stand behind a value is no letter of an exponent.
  have noLetter (exponent : Exponent) {behind ended : List Char} (delimited : Delimited ended)
      (same : exponent.text ++ behind = ended) : False := by
    have notDelimiter := delimited exponent.letter (by rw [← same]; rfl)
    have isLetter := exponent.isLetter
    simp only [List.mem_cons, List.not_mem_nil, or_false] at isLetter
    rcases isLetter with letter | letter <;> simp [letter, delimiters, blanks] at notDelimiter
  cases first with
  | none =>
      cases second with
      | none => exact ⟨rfl, same⟩
      | some second => exact (noLetter second delimited same.symm).elim
  | some first =>
      cases second with
      | none => exact (noLetter first delimited' same).elim
      | some second =>
          have ⟨sameExponent, sameRest⟩ := Exponent.text_append_inj delimited delimited' same
          exact ⟨congrArg some sameExponent, sameRest⟩

/-- What stands behind the digits in front of an exponent is none of them, and no point. -/
theorem stops_exponent {isPart : Char → Bool} (exponent : Option Exponent) {rest : List Char}
    (delimited : Delimited rest) (others : ∀ character ∈ ['e', 'E'] ++ delimiters, isPart character = false) :
    Stops isPart (exponent.elim [] Exponent.text ++ rest) := by
  cases exponent with
  | none => exact delimited.stops fun character member => others character (List.mem_append_right _ member)
  | some exponent =>
      intro character isHead
      obtain rfl : exponent.letter = character := by simpa [Exponent.text] using isHead
      exact others _ (List.mem_append_left _ exponent.isLetter)

theorem fraction_append_inj {first second : Option (List Char)} {exponent exponent' : Option Exponent}
    {rest rest' : List Char} (areDigits : ∀ digits ∈ first, Token.IsDigits digits)
    (areDigits' : ∀ digits ∈ second, Token.IsDigits digits) (delimited : Delimited rest)
    (delimited' : Delimited rest')
    (same : first.elim [] ('.' :: ·) ++ (exponent.elim [] Exponent.text ++ rest) =
      second.elim [] ('.' :: ·) ++ (exponent'.elim [] Exponent.text ++ rest')) :
    first = second ∧ exponent.elim [] Exponent.text ++ rest = exponent'.elim [] Exponent.text ++ rest' := by
  have noPoint (exponent : Option Exponent) {behind rest : List Char} (delimited : Delimited rest)
      (same : '.' :: behind = exponent.elim [] Exponent.text ++ rest) : False := by
    have stops := @stops_exponent (· == '.') exponent _ delimited (by simp [delimiters, blanks])
    exact absurd (stops '.' (by rw [← same]; rfl)) (by decide)
  cases first with
  | none =>
      cases second with
      | none => exact ⟨rfl, same⟩
      | some digits => exact (noPoint exponent delimited same.symm).elim
  | some digits =>
      cases second with
      | none => exact (noPoint exponent' delimited' same).elim
      | some digits' =>
          have ⟨sameDigits, sameBehind⟩ := run_append_inj (areDigits digits rfl).2 (areDigits' digits' rfl).2
            (stops_exponent exponent delimited (by simp [delimiters, blanks]))
            (stops_exponent exponent' delimited' (by simp [delimiters, blanks])) (List.cons.inj same).2
          exact ⟨congrArg some sameDigits, sameBehind⟩

/-- A number begins with a digit, or with a minus in front of one. -/
theorem text_eq (numeral : Numeral) : ∃ digit more, digit.isDigit = true ∧
    numeral.text = (if numeral.isNegative then ['-'] else []) ++ digit :: more := by
  obtain ⟨digit, others, areDigits⟩ := List.exists_cons_of_ne_nil numeral.areDigits.1
  have isText : numeral.text = (if numeral.isNegative then ['-'] else []) ++ digit :: (others ++
      (numeral.fraction.elim [] ('.' :: ·) ++ numeral.exponent.elim [] Exponent.text)) := by
    rw [text, areDigits, List.cons_append]
  exact ⟨digit, _, numeral.areDigits.2 digit (by simp [areDigits]), isText⟩

theorem head?_text (numeral : Numeral) (rest : List Char) :
    (numeral.text ++ rest).head? = some '-' ↔ numeral.isNegative = true := by
  obtain ⟨digit, more, isDigit, isText⟩ := numeral.text_eq
  have notMinus : digit ≠ '-' := by
    rintro rfl
    cases isDigit
  rw [isText]
  cases numeral.isNegative with
  | true => simp
  | false => simp [notMinus]

/-- A number ends where its characters end, and is what its characters say. -/
theorem text_append_inj {first second : Numeral} {rest rest' : List Char} (delimited : Delimited rest)
    (delimited' : Delimited rest') (same : first.text ++ rest = second.text ++ rest') :
    first = second ∧ rest = rest' := by
  have sameSign : first.isNegative = second.isNegative := by
    rw [Bool.eq_iff_iff, ← head?_text first rest, same, head?_text]
  have stops (numeral : Numeral) {rest : List Char} (delimited : Delimited rest) : Stops Char.isDigit
      (numeral.fraction.elim [] ('.' :: ·) ++ (numeral.exponent.elim [] Exponent.text ++ rest)) := by
    cases numeral.fraction with
    | none => exact stops_exponent numeral.exponent delimited (by simp [delimiters, blanks])
    | some digits =>
        intro character isHead
        obtain rfl := Option.some.inj isHead
        rfl
  -- With the sign gone, each part is a run that the next one ends.
  unfold text at same
  rw [sameSign, List.append_assoc, List.append_assoc, List.append_assoc, List.append_assoc, List.append_assoc,
    List.append_assoc] at same
  have ⟨sameWhole, sameBehind⟩ := run_append_inj first.areDigits.2 second.areDigits.2 (stops first delimited)
    (stops second delimited') (List.append_cancel_left same)
  have ⟨sameFraction, sameEnd⟩ := fraction_append_inj first.fractionDigits second.fractionDigits delimited
    delimited' sameBehind
  have ⟨sameExponent, sameRest⟩ := exponent_append_inj delimited delimited' sameEnd
  exact ⟨Numeral.ext sameSign sameWhole sameFraction sameExponent, sameRest⟩

end Numeral

/-! ## What is written for a double -/

open Number

theorem decimalDigits_isDigits (value : Nat) : Token.IsDigits (decimalDigits value) :=
  ⟨Nat.toDigits_ne_nil, fun _ member => Nat.isDigit_of_mem_toDigits (by decide) (by decide) member⟩

theorem ofDigitChars_decimalDigits (value : Nat) : Nat.ofDigitChars 10 (decimalDigits value) 0 = value :=
  Nat.ofDigitChars_toDigits (by decide) (by decide)

/-- Digits of a number begin with zero only for zero itself. -/
theorem decimalDigits_noLeadingZero (value : Nat) :
    decimalDigits value = ['0'] ∨ (decimalDigits value).head? ≠ some '0' := by
  induction value using Nat.strong_induction_on with
  | _ value inductionHypothesis =>
      by_cases isSmall : value < 10
      · unfold decimalDigits
        rw [Nat.toDigits_of_lt_base isSmall]
        interval_cases value <;> simp [Nat.digitChar]
      · right
        have positive : value / 10 ≠ 0 := by omega
        unfold decimalDigits at inductionHypothesis ⊢
        rw [Nat.toDigits_of_base_le (by decide) (by omega), List.head?_append_of_ne_nil _ Nat.toDigits_ne_nil]
        rcases inductionHypothesis (value / 10) (by omega) with isZero | noZero
        · have value := ofDigitChars_decimalDigits (value / 10)
          rw [decimalDigits, isZero] at value
          exact absurd value.symm positive
        · exact noZero

/-- Whether characters behind a sign are those of a number with a value, and of no whole one. -/
def IsReal (characters : List Char) (value : ℚ) : Prop :=
  ∀ isNegative : Bool, ∃ numeral : Numeral, numeral.isNegative = isNegative ∧ ¬ numeral.IsWhole ∧
    numeral.value = value ∧ numeral.text = (if isNegative then ['-'] else []) ++ characters

theorem isReal_fraction {whole fraction : List Char} (areDigits : Token.IsDigits whole)
    (noLeadingZero : whole = ['0'] ∨ whole.head? ≠ some '0') (areMore : Token.IsDigits fraction) :
    IsReal (whole ++ '.' :: fraction)
      (Nat.ofDigitChars 10 (whole ++ fraction) 0 * (10 : ℚ) ^ (-(fraction.length : Int))) := by
  intro isNegative
  let numeral : Numeral :=
    ⟨isNegative, whole, some fraction, none, areDigits, noLeadingZero, fun digits isFraction => by
      rwa [← Option.some.inj isFraction]⟩
  refine ⟨numeral, rfl, fun isWhole => ?_, ?_, ?_⟩
  · exact Option.some_ne_none _ isWhole.2.1
  · simp [numeral, Numeral.value]
  · simp [numeral, Numeral.text]

theorem zeros_areDigits (count : Nat) : ∀ digit ∈ List.replicate count '0', digit.isDigit = true := by
  intro digit isZero
  rw [List.eq_of_mem_replicate isZero]
  rfl

/-- What is written for an exponent is one, and has its value. -/
theorem exists_exponent (exponent : Int) :
    ∃ written : Exponent, written.text = exponentText exponent ∧ written.value = exponent := by
  have areDigits : Token.IsDigits (List.replicate (2 - (decimalDigits exponent.natAbs).length) '0' ++
      decimalDigits exponent.natAbs) := by
    have ⟨notEmpty, areDigits⟩ := decimalDigits_isDigits exponent.natAbs
    exact ⟨List.append_ne_nil_of_right_ne_nil _ notEmpty,
      List.forall_mem_append.mpr ⟨zeros_areDigits _, areDigits⟩⟩
  have value : Nat.ofDigitChars 10 (List.replicate (2 - (decimalDigits exponent.natAbs).length) '0' ++
      decimalDigits exponent.natAbs) 0 = exponent.natAbs := by
    rw [Nat.ofDigitChars_append, Nat.ofDigitChars_replicate_zero, Nat.mul_zero, ofDigitChars_decimalDigits]
  refine ⟨⟨'e', [if exponent < 0 then '-' else '+'], _, by decide, ?_, areDigits⟩, rfl, ?_⟩
  · split <;> decide
  · have sign : [if exponent < 0 then '-' else '+'] = ['-'] ↔ exponent < 0 := by
      split <;> simp_all
    unfold Exponent.value
    simp only [sign, value]
    split <;> omega

theorem isReal_scientific {whole : Char} {others : List Char} (isDigit : whole.isDigit = true)
    (areDigits : ∀ digit ∈ others, digit.isDigit = true) (exponent : Int) :
    IsReal (scientific (whole :: others) exponent)
      (Nat.ofDigitChars 10 (whole :: others) 0 * (10 : ℚ) ^ (exponent - others.length)) := by
  intro isNegative
  obtain ⟨written, isText, isValue⟩ := exists_exponent exponent
  let numeral : Numeral :=
    ⟨isNegative, [whole], if others = [] then none else some others, some written, ?_, ?_, ?_⟩
  · refine ⟨numeral, rfl, fun isWhole => Option.some_ne_none _ isWhole.2.2, ?_, ?_⟩
    · have isFraction : numeral.fraction.getD [] = others := by
        by_cases isEmpty : others = [] <;> simp [numeral, isEmpty]
      unfold Numeral.value
      rw [isFraction]
      simp [numeral, isValue]
    · by_cases isEmpty : others = []
      · simp [numeral, Numeral.text, scientific, isEmpty, isText]
      · have positive := List.length_pos_of_ne_nil isEmpty
        simp [numeral, Numeral.text, scientific, isEmpty, isText]
  · exact ⟨by simp, by simpa using isDigit⟩
  · by_cases isZero : whole = '0'
    · exact .inl (by rw [isZero])
    · exact .inr (by simpa using isZero)
  · intro digits isFraction
    by_cases isEmpty : others = []
    · simp [isEmpty] at isFraction
    · obtain rfl : others = digits := by simpa [isEmpty] using isFraction
      exact ⟨isEmpty, areDigits⟩

section Layout

variable {digits : List Char} {exponent : Int}

/-- All digits behind the point. -/
theorem isReal_behind (areDigits : Token.IsDigits digits) (behind : (digits.length : Int) + exponent ≤ 0) :
    IsReal ('0' :: '.' :: (List.replicate (-(digits.length + exponent)).toNat '0' ++ digits))
      (Nat.ofDigitChars 10 digits 0 * (10 : ℚ) ^ exponent) := by
  have isReal := @isReal_fraction ['0'] _ ⟨List.cons_ne_nil _ _, zeros_areDigits 1⟩ (.inl rfl)
    ⟨List.append_ne_nil_of_right_ne_nil _ areDigits.1, List.forall_mem_append.mpr
      ⟨zeros_areDigits (-(digits.length + exponent)).toNat, areDigits.2⟩⟩
  have places : -((List.replicate (-(digits.length + exponent)).toNat '0' ++ digits).length : Int) =
      exponent := by
    rw [List.length_append, List.length_replicate]
    omega
  have zero : Nat.ofDigitChars 10 ['0'] 0 = 0 := rfl
  rwa [places, Nat.ofDigitChars_append, Nat.ofDigitChars_append, Nat.ofDigitChars_replicate_zero, zero,
    Nat.mul_zero] at isReal

/-- Zeros behind digits begin no number with a zero. -/
theorem noLeadingZero_zeros (areDigits : Token.IsDigits digits)
    (noLeadingZero : digits = ['0'] ∨ digits.head? ≠ some '0') (zero : digits = ['0'] → exponent = 0) :
    digits ++ List.replicate exponent.toNat '0' = ['0'] ∨
      (digits ++ List.replicate exponent.toNat '0').head? ≠ some '0' := by
  rcases noLeadingZero with isZero | noZero
  · exact .inl (by rw [isZero, zero isZero]; rfl)
  · exact .inr (by rwa [List.head?_append_of_ne_nil _ areDigits.1])

theorem isDigits_zeros (areDigits : Token.IsDigits digits) (count : Nat) :
    Token.IsDigits (digits ++ List.replicate count '0') :=
  ⟨List.append_ne_nil_of_left_ne_nil areDigits.1 _,
    List.forall_mem_append.mpr ⟨areDigits.2, zeros_areDigits count⟩⟩

/-- All digits in front of the point. -/
theorem isReal_inFront (areDigits : Token.IsDigits digits)
    (noLeadingZero : digits = ['0'] ∨ digits.head? ≠ some '0') (zero : digits = ['0'] → exponent = 0)
    (inFront : 0 ≤ exponent) :
    IsReal (digits ++ List.replicate exponent.toNat '0' ++ ".0".toList)
      (Nat.ofDigitChars 10 digits 0 * (10 : ℚ) ^ exponent) := by
  have isReal := @isReal_fraction _ ['0'] (isDigits_zeros areDigits exponent.toNat)
    (noLeadingZero_zeros areDigits noLeadingZero zero) ⟨List.cons_ne_nil _ _, zeros_areDigits 1⟩
  have value : Nat.ofDigitChars 10 (digits ++ List.replicate exponent.toNat '0' ++ ['0']) 0 =
      10 * (10 ^ exponent.toNat * Nat.ofDigitChars 10 digits 0) := by
    rw [Nat.ofDigitChars_append, Nat.ofDigitChars_append, Nat.ofDigitChars_replicate_zero]
    rfl
  have scaled : ((10 * (10 ^ exponent.toNat * Nat.ofDigitChars 10 digits 0) : Nat) : ℚ) *
      (10 : ℚ) ^ (-((['0'].length : Nat) : Int)) = Nat.ofDigitChars 10 digits 0 * (10 : ℚ) ^ exponent := by
    obtain ⟨count, rfl⟩ := Int.eq_ofNat_of_zero_le inFront
    push_cast
    simp
    ring
  rwa [value, scaled] at isReal

/-- The point among the digits. -/
theorem isReal_among (areDigits : Token.IsDigits digits)
    (noLeadingZero : digits = ['0'] ∨ digits.head? ≠ some '0') {place : Nat} (inFront : 0 < place)
    (behind : place < digits.length) :
    IsReal (digits.take place ++ '.' :: digits.drop place)
      (Nat.ofDigitChars 10 digits 0 * (10 : ℚ) ^ ((place : Int) - digits.length)) := by
  have isHead : (digits.take place).head? = digits.head? := by
    rw [List.head?_take, if_neg inFront.ne']
  have noZero : digits.head? ≠ some '0' := by
    refine noLeadingZero.resolve_left fun isZero => ?_
    rw [isZero, List.length_singleton] at behind
    omega
  have isReal := @isReal_fraction (digits.take place) (digits.drop place)
    ⟨by simp [inFront.ne', areDigits.1], fun digit member => areDigits.2 digit (List.mem_of_mem_take member)⟩
    (.inr (by rwa [isHead]))
    ⟨by simp; omega, fun digit member => areDigits.2 digit (List.mem_of_mem_drop member)⟩
  have places : -((digits.drop place).length : Int) = (place : Int) - digits.length := by
    rw [List.length_drop]
    omega
  rwa [List.take_append_drop, places] at isReal

end Layout

theorem decimalDigits_eq_zero {value : Nat} (same : decimalDigits value = ['0']) : value = 0 := by
  have isValue := ofDigitChars_decimalDigits value
  rw [same] at isValue
  exact isValue.symm

/-- What is written for a decimal is a number with its value and no whole one, unless no digit stands behind
the point: then the zeros up to the point and what the style has for a whole number follow the digits. -/
theorem decimal_cases (style : Style) (decimal : Decimal) :
    IsReal (style.decimal decimal) decimal.value ∨
      0 ≤ decimal.exponent ∧ style.decimal decimal =
        decimalDigits decimal.digits ++ List.replicate decimal.exponent.toNat '0' ++ style.wholeSuffix.toList := by
  have areDigits := decimalDigits_isDigits decimal.digits
  have value := ofDigitChars_decimalDigits decimal.digits
  have noLeadingZero := decimalDigits_noLeadingZero decimal.digits
  unfold Style.decimal Decimal.value
  generalize decimalDigits decimal.digits = digits at *
  generalize decimal.exponent = exponent at *
  rw [← value]
  dsimp only
  split
  · unfold Style.positional
    dsimp only
    split
    · exact .inl (isReal_behind areDigits ‹_›)
    split
    · have places : ((digits.length : Int) + exponent).toNat - digits.length = exponent.toNat := by omega
      rw [places]
      exact .inr ⟨by omega, rfl⟩
    · have isReal := @isReal_among digits areDigits noLeadingZero ((digits.length : Int) + exponent).toNat
        (by omega) (by omega)
      have places : (((digits.length : Int) + exponent).toNat : Int) - digits.length = exponent := by omega
      rw [places] at isReal
      exact .inl isReal
  · obtain ⟨whole, others, rfl⟩ := List.exists_cons_of_ne_nil areDigits.1
    have isReal := isReal_scientific (areDigits.2 whole List.mem_cons_self)
      (fun digit member => areDigits.2 digit (List.mem_cons_of_mem _ member))
      (((whole :: others).length : Int) + exponent - 1)
    have scale : ((whole :: others).length : Int) + exponent - 1 - others.length = exponent := by
      rw [List.length_cons]
      omega
    rw [scale] at isReal
    exact .inl isReal

/-- What is written for a decimal is a number with its value, and no whole one. -/
theorem isReal_decimal {decimal : Decimal} (zero : decimal.digits = 0 → decimal.exponent = 0) :
    IsReal (Style.json.decimal decimal) decimal.value := by
  rcases decimal_cases Style.json decimal with isReal | ⟨inFront, isText⟩
  · exact isReal
  · have isReal := isReal_inFront (decimalDigits_isDigits decimal.digits)
      (decimalDigits_noLeadingZero decimal.digits) (fun same => zero (decimalDigits_eq_zero same)) inFront
    rw [ofDigitChars_decimalDigits] at isReal
    rw [isText]
    exact isReal

/-- What is written for a natural number is a whole number with its value. -/
theorem exists_whole (value : Nat) : ∃ numeral : Numeral, numeral.IsWhole ∧
    value = Nat.ofDigitChars 10 numeral.whole 0 ∧ numeral.text = decimalDigits value :=
  ⟨⟨false, decimalDigits value, none, none, decimalDigits_isDigits value, decimalDigits_noLeadingZero value,
    fun _ isFraction => absurd isFraction (Option.not_mem_none _)⟩,
    ⟨rfl, rfl, rfl⟩, (ofDigitChars_decimalDigits value).symm, by simp [Numeral.text]⟩

section Doubles

variable {value : Float}

theorem signed_unsigned (value : Float) :
    signed ((Fields.ofFloat value).sign != 0) (value.toBits.toNat % 2 ^ 63) = value := by
  have small := value.toBits.toNat_lt
  have split : value.toBits.toNat % 2 ^ 63 + (if (Fields.ofFloat value).sign != 0 then 2 ^ 63 else 0) =
      value.toBits.toNat := by
    have sign : (Fields.ofFloat value).sign = value.toBits.toNat / 2 ^ 63 := rfl
    rw [sign]
    split <;> simp_all
    omega
  rw [signed, split, UInt64.ofNat_toNat, Float.ofBits_toBits]

/-- What is written for a finite double: its sign, and its decimal. -/
theorem characters_of_finite (style : Style) (finite : value.isFinite = true) :
    style.characters value = (if (Fields.ofFloat value).sign != 0 then ['-'] else []) ++
      style.decimal (shortestDecimal (value.toBits.toNat % 2 ^ 63)) := by
  rw [Style.characters]
  simp only [if_neg (isFinite_iff.mp finite), Nat.pow_eq]
  by_cases isPositive : (Fields.ofFloat value).sign = 0 <;> simp [isPositive]

/-- What is written for a finite double is a number that denotes it, and no whole one. -/
theorem exists_real (finite : value.isFinite = true) : ∃ numeral : Numeral, ¬ numeral.IsWhole ∧
    numeral.IsNearest value ∧ numeral.text = Style.json.characters value := by
  have small := unsigned_lt finite
  obtain ⟨numeral, isNegative, notWhole, isValue, isText⟩ :=
    isReal_decimal (shortestDecimal_zero small) ((Fields.ofFloat value).sign != 0)
  refine ⟨numeral, notWhole, ⟨value.toBits.toNat % 2 ^ 63, ?_, ?_⟩, ?_⟩
  · rw [isValue]
    exact shortestDecimal_roundsTo small
  · rw [isNegative, signed_unsigned]
  · rw [isText, characters_of_finite Style.json finite]

theorem characters_not_finite (notFinite : value.isFinite = false) :
    Style.json.characters value ∈ ["Infinity".toList, "-Infinity".toList, "NaN".toList] := by
  have isTop : (Fields.ofFloat value).exponent = topExponent := by
    by_contra notTop
    rw [isFinite_iff.mpr notTop] at notFinite
    cases notFinite
  unfold Style.characters Style.json
  dsimp only
  rw [if_pos isTop]
  by_cases isInfinite : (Fields.ofFloat value).fraction = 0
  · by_cases isPositive : (Fields.ofFloat value).sign = 0 <;> simp [isInfinite, isPositive]
  · simp [isInfinite]

/-- What is written for infinity and NaN begins like no number. -/
theorem not_numeral (notFinite : value.isFinite = false) (numeral : Numeral) (rest rest' : List Char) :
    numeral.text ++ rest ≠ Style.json.characters value ++ rest' := by
  intro same
  obtain ⟨digit, more, isDigit, isText⟩ := numeral.text_eq
  have notLetter : digit ≠ 'I' ∧ digit ≠ 'N' ∧ digit ≠ '-' := by
    refine ⟨?_, ?_, ?_⟩ <;> rintro rfl <;> cases isDigit
  have written := characters_not_finite notFinite
  rw [isText] at same
  simp only [List.mem_cons, List.not_mem_nil, or_false] at written
  rcases written with isWritten | isWritten | isWritten <;> rw [isWritten] at same <;>
    cases isNegative : numeral.isNegative <;> simp [isNegative, notLetter] at same

end Doubles

/-- A number denotes one double. -/
theorem Numeral.IsNearest.unique {numeral : Numeral} {first second : Float} (nearest : numeral.IsNearest first)
    (nearest' : numeral.IsNearest second) : first = second := by
  obtain ⟨bits, rounds, rfl⟩ := nearest
  obtain ⟨bits', rounds', rfl⟩ := nearest'
  rw [rounds.unique rounds']

end LoxInterpreter.Json
