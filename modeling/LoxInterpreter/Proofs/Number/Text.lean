import LoxInterpreter.Proofs.Document.Numerals
import LoxInterpreter.Proofs.Number.Fewest
import LoxInterpreter.Proofs.Token.Rescanning

/-!
Contract: the text of a number tells the number.

What is printed for a finite double is a number of the grammar that documents have too: its sign, and a
decimal whose nearest double is the printed one. What is printed for the infinities begins like no number.
So different doubles have different texts. Where the text has no exponent and no sign, it is a token of
source text, and that token carries the double.

Owns: `exists_numeral`, `text_eq_iff`, `scan_text`, and `text_faithful`.
Does not own: that the digits are the fewest (`Proofs.Number.Fewest`).
-/

namespace LoxInterpreter.Number

open Float.Model Float.Model.UnpackedFloat

/-! ## What is printed for a finite double -/

/-- What is printed for a decimal is a number with its value, behind either sign. -/
theorem exists_numeral_of_decimal {decimal : Decimal} (zero : decimal.digits = 0 → decimal.exponent = 0)
    (isNegative : Bool) : ∃ numeral : Json.Numeral, numeral.isNegative = isNegative ∧
      numeral.value = decimal.value ∧
      numeral.text = (if isNegative then ['-'] else []) ++ Style.plain.decimal decimal := by
  rcases Json.decimal_cases Style.plain decimal with isReal | ⟨inFront, isText⟩
  · obtain ⟨numeral, sign, _, value, text⟩ := isReal isNegative
    exact ⟨numeral, sign, value, text⟩
  · have areDigits := Json.decimalDigits_isDigits decimal.digits
    have noLeadingZero := Json.noLeadingZero_zeros areDigits (Json.decimalDigits_noLeadingZero decimal.digits)
      fun same => zero (Json.decimalDigits_eq_zero same)
    let numeral : Json.Numeral :=
      ⟨isNegative, decimalDigits decimal.digits ++ List.replicate decimal.exponent.toNat '0', none, none,
        Json.isDigits_zeros areDigits _, noLeadingZero, fun _ isFraction => absurd isFraction (Option.not_mem_none _)⟩
    refine ⟨numeral, rfl, ?_, ?_⟩
    · obtain ⟨count, isCount⟩ := Int.eq_ofNat_of_zero_le inFront
      simp [numeral, Json.Numeral.value, Decimal.value, Nat.ofDigitChars_append, Json.ofDigitChars_decimalDigits,
        isCount, mul_comm]
    · rw [isText]
      simp [numeral, Json.Numeral.text, Style.plain]

variable {value : Float}

/-- What is printed for a finite double is a number with its sign, to whose value it is the nearest one. -/
theorem exists_numeral (finite : value.isFinite = true) : ∃ numeral : Json.Numeral,
    numeral.isNegative = ((Fields.ofFloat value).sign != 0) ∧
    RoundsTo numeral.value (value.toBits.toNat % 2 ^ 63) ∧
    numeral.text = Style.plain.characters value := by
  have small := unsigned_lt finite
  obtain ⟨numeral, sign, isValue, isText⟩ :=
    exists_numeral_of_decimal (shortestDecimal_zero small) ((Fields.ofFloat value).sign != 0)
  refine ⟨numeral, sign, ?_, ?_⟩
  · rw [isValue]
    exact shortestDecimal_roundsTo small
  · rw [isText, Json.characters_of_finite Style.plain finite]

theorem toList_text (value : Float) : (text value).toList = Style.plain.characters value := String.toList_ofList

/-- The text of a finite double is its sign, and the shortest decimal that reads back. -/
theorem exists_shortest (finite : value.isFinite = true) :
    ∃ decimal : Decimal, decimal.IsShortest (value.toBits.toNat % 2 ^ 63) ∧
      (text value).toList = (if (Fields.ofFloat value).sign != 0 then ['-'] else []) ++
        Style.plain.decimal decimal := by
  refine ⟨_, shortestDecimal_isShortest (unsigned_lt finite), ?_⟩
  rw [toList_text, Json.characters_of_finite Style.plain finite]

/-! ## What is printed for other doubles -/

/-- A double that is no NaN is finite, or its bits are those of infinity behind its sign. -/
theorem finite_or_infinite (isNumber : value.isNaN = false) :
    value.isFinite = true ∨ value.toBits.toNat % 2 ^ 63 = infinityBits ∧
      Style.plain.characters value = (if (Fields.ofFloat value).sign != 0 then ['-'] else []) ++ "inf".toList := by
  by_cases finite : value.isFinite = true
  · exact .inl finite
  · have top : (Fields.ofFloat value).exponent = topExponent := by
      by_contra notTop
      exact finite (isFinite_iff.mpr notTop)
    have noFraction : (Fields.ofFloat value).fraction = 0 := by
      by_contra notZero
      rw [isNaN_iff.mpr ⟨top, notZero⟩] at isNumber
      cases isNumber
    refine .inr ⟨?_, ?_⟩
    · have topBits : value.toBits.toNat / 2 ^ 52 % 2048 = 2047 := top
      have noFractionBits : value.toBits.toNat % 2 ^ 52 = 0 := noFraction
      rw [infinityBits_eq]
      omega
    · rw [Style.characters, if_pos top, if_pos noFraction]
      by_cases isPositive : (Fields.ofFloat value).sign = 0 <;> simp [isPositive, Style.plain]

/-! ## Different texts -/

/-- What is printed for infinity begins like no number. -/
theorem numeral_ne_infinity (numeral : Json.Numeral) (isNegative : Bool) :
    numeral.text ≠ (if isNegative then ['-'] else []) ++ "inf".toList := by
  intro same
  obtain ⟨digit, more, isDigit, isText⟩ := numeral.text_eq
  have notLetter : digit ≠ 'i' ∧ digit ≠ '-' := by
    constructor <;> rintro rfl <;> cases isDigit
  rw [isText] at same
  cases isNegative <;> cases sign : numeral.isNegative <;> simp [sign, notLetter] at same

theorem toBits_eq {first second : Float}
    (sameSign : ((Fields.ofFloat first).sign != 0) = ((Fields.ofFloat second).sign != 0))
    (sameRest : first.toBits.toNat % 2 ^ 63 = second.toBits.toNat % 2 ^ 63) : first.toBits = second.toBits := by
  have small := first.toBits.toNat_lt
  have small' := second.toBits.toNat_lt
  have signs : first.toBits.toNat / 2 ^ 63 = 0 ↔ second.toBits.toNat / 2 ^ 63 = 0 := by
    have sign (value : Float) : (Fields.ofFloat value).sign = value.toBits.toNat / 2 ^ 63 := rfl
    rw [sign, sign, Bool.eq_iff_iff, bne_iff_ne, bne_iff_ne] at sameSign
    exact not_iff_not.mp sameSign
  apply UInt64.toNat_inj.mp
  omega

/-- Doubles that are no NaN have the same text just if they have the same bits. -/
theorem text_eq_iff {first second : Float} (isNumber : first.isNaN = false) (isNumber' : second.isNaN = false) :
    text first = text second ↔ first.toBits = second.toBits := by
  constructor
  · intro sameText
    have same : Style.plain.characters first = Style.plain.characters second := String.ofList_injective sameText
    have ends : Json.Delimited [] := fun _ isHead => by cases isHead
    rcases finite_or_infinite isNumber with finite | ⟨isInfinite, isText⟩ <;>
      rcases finite_or_infinite isNumber' with finite' | ⟨isInfinite', isText'⟩
    · obtain ⟨numeral, sign, rounds, isText⟩ := exists_numeral finite
      obtain ⟨numeral', sign', rounds', isText'⟩ := exists_numeral finite'
      have sameAppended : numeral.text ++ [] = numeral'.text ++ [] := by rw [isText, isText', same]
      obtain ⟨rfl, _⟩ := Json.Numeral.text_append_inj ends ends sameAppended
      exact toBits_eq (sign.symm.trans sign') (rounds.unique rounds')
    · obtain ⟨numeral, _, _, isText⟩ := exists_numeral finite
      exact absurd (isText.trans (same.trans isText')) (numeral_ne_infinity numeral _)
    · obtain ⟨numeral, _, _, isText'⟩ := exists_numeral finite'
      exact absurd (isText'.trans (same.symm.trans isText)) (numeral_ne_infinity numeral _)
    · refine toBits_eq ?_ (isInfinite.trans isInfinite'.symm)
      rw [isText, isText'] at same
      cases isNegative : (Fields.ofFloat first).sign != 0 <;>
        cases isNegative' : (Fields.ofFloat second).sign != 0 <;> simp [isNegative, isNegative'] at same ⊢
  · intro sameBits
    rw [Float.toBits_inj.mp sameBits]

/-! ## Texts as source text -/

/-- What is written positionally are digits and a point. -/
theorem positional_characters {digits : List Char} (areDigits : ∀ digit ∈ digits, digit.isDigit = true)
    (point : Int) :
    ∀ character ∈ Style.plain.positional digits point, character.isDigit = true ∨ character = '.' := by
  have zeros (count : Nat) := Json.zeros_areDigits count
  unfold Style.positional
  intro character member
  dsimp only at member
  split at member
  · simp only [List.mem_cons, List.mem_append] at member
    rcases member with rfl | isPoint | isZero | isDigit
    · exact .inl rfl
    · exact .inr isPoint
    · exact .inl (zeros _ character isZero)
    · exact .inl (areDigits character isDigit)
  split at member
  · simp only [Style.plain, List.mem_append] at member
    rcases member with (isDigit | isZero) | isSuffix
    · exact .inl (areDigits character isDigit)
    · exact .inl (zeros _ character isZero)
    · cases isSuffix
  · simp only [List.mem_cons, List.mem_append] at member
    rcases member with isDigit | isPoint | isDigit
    · exact .inl (areDigits character (List.mem_of_mem_take isDigit))
    · exact .inr isPoint
    · exact .inl (areDigits character (List.mem_of_mem_drop isDigit))

/-- What is printed without a sign and without an exponent are digits and a point. -/
theorem characters_of_noExponent (finite : value.isFinite = true) (unsigned : (Fields.ofFloat value).sign = 0)
    (noExponent : 'e' ∉ Style.plain.characters value) :
    ∀ character ∈ Style.plain.characters value, character.isDigit = true ∨ character = '.' := by
  have isDecimal : Style.plain.characters value =
      Style.plain.decimal (shortestDecimal (value.toBits.toNat % 2 ^ 63)) := by
    rw [Json.characters_of_finite Style.plain finite, unsigned]
    rfl
  rw [isDecimal] at noExponent ⊢
  unfold Style.decimal at noExponent ⊢
  dsimp only at noExponent ⊢
  split at noExponent
  · rename_i isPositional
    rw [if_pos isPositional]
    exact positional_characters (Json.decimalDigits_isDigits _).2 _
  · exact absurd (by simp [scientific, exponentText]) noExponent

/-- A number without a sign and without an exponent is a token of source text, with the double that is nearest
to its value. -/
theorem form_of_numeral {numeral : Json.Numeral} (notNegative : numeral.isNegative = false)
    (noExponent : numeral.exponent = none) (nearest : IsNearest numeral.value value) :
    Token.Form (.number value) (.constant (.number value)) numeral.text := by
  have digitsValue (digits : List Char) : Token.digitsValue digits = Nat.ofDigitChars 10 digits 0 := rfl
  unfold Json.Numeral.value at nearest
  unfold Json.Numeral.text
  rw [notNegative, noExponent] at *
  cases fraction : numeral.fraction with
  | none =>
      simp only [fraction, Option.getD_none, Option.elim_none, List.append_nil, List.length_nil, Nat.cast_zero,
        sub_zero, zpow_zero, mul_one, ← digitsValue] at nearest
      simpa using Token.Form.integer numeral.areDigits nearest
  | some digits =>
      simp only [fraction, Option.getD_some, Option.elim_none, zero_sub, ← digitsValue] at nearest
      rw [Token.digitsValue_append] at nearest
      simpa using Token.Form.decimal numeral.areDigits (numeral.fractionDigits digits fraction) nearest

/-- A number of digits and a point has no exponent. -/
theorem exponent_eq_none {numeral : Json.Numeral}
    (characters : ∀ character ∈ numeral.text, character.isDigit = true ∨ character = '.') :
    numeral.exponent = none := by
  cases exponent : numeral.exponent with
  | none => rfl
  | some written =>
      have member : written.letter ∈ numeral.text := by
        simp [Json.Numeral.text, Json.Exponent.text, exponent]
      have isPart := characters _ member
      have isLetter := written.isLetter
      simp only [List.mem_cons, List.not_mem_nil, or_false] at isLetter
      rcases isLetter with letter | letter <;> rw [letter] at isPart <;> simp at isPart

theorem lineAfter_eq {written : List Char}
    (characters : ∀ character ∈ written, character.isDigit = true ∨ character = '.') (line : Nat) :
    Token.lineAfter line written = line := by
  have noFeed : '\n' ∉ written := fun member => by
    rcases characters _ member with isDigit | isPoint
    · cases isDigit
    · cases isPoint
  rw [Token.lineAfter, List.count_eq_zero.mpr noFeed, Nat.add_zero]

/-- What is printed for a finite double without a sign, and without an exponent, is scanned to one token on one
line, which carries the double. -/
theorem scan_text (finite : value.isFinite = true) (unsigned : (Fields.ofFloat value).sign = 0)
    (noExponent : 'e' ∉ (text value).toList) :
    (Source.text (text value)).scan = ⟨[⟨.number value, text value, 1⟩, .closing 1], none⟩ := by
  rw [toList_text] at noExponent
  have characters := characters_of_noExponent finite unsigned noExponent
  obtain ⟨numeral, sign, rounds, isText⟩ := exists_numeral finite
  have nearest : IsNearest numeral.value value := by
    have small := value.toBits.toNat_lt
    have noSign : value.toBits.toNat / 2 ^ 63 = 0 := unsigned
    have allBits : value.toBits.toNat % 2 ^ 63 = value.toBits.toNat := by omega
    rwa [allBits] at rounds
  have form := form_of_numeral (by rw [sign, unsigned]; rfl) (exponent_eq_none (isText ▸ characters)) nearest
  rw [isText] at form
  change Token.scanFrom 1 (text value).toList = _
  rw [toList_text, form.scanFrom_eq, lineAfter_eq characters]
  rfl

/-- The text of a number is faithful. Doubles that are no NaN have the same text just if they have the same
bits. The text of a finite double is its sign, and the shortest decimal that reads back. Where it has neither
sign nor exponent, it is one token of source text, whose literal is the double. -/
theorem text_faithful :
    (∀ first second : Float, first.isNaN = false → second.isNaN = false →
      (text first = text second ↔ first.toBits = second.toBits)) ∧
    (∀ value : Float, value.isFinite = true →
      ∃ decimal : Decimal, decimal.IsShortest (value.toBits.toNat % 2 ^ 63) ∧
        (text value).toList = (if (Fields.ofFloat value).sign != 0 then ['-'] else []) ++
          Style.plain.decimal decimal) ∧
    ∀ value : Float, value.isFinite = true → (Fields.ofFloat value).sign = 0 → 'e' ∉ (text value).toList →
      ∃ token : Token, (Source.text (text value)).scan = ⟨[token, .closing 1], none⟩ ∧
        token.kind = .number value ∧ token.literal = .constant (.number value) ∧
        token.lexeme = text value ∧ token.line = 1 := by
  refine ⟨fun first second isNumber isNumber' => text_eq_iff isNumber isNumber',
    fun value finite => exists_shortest finite, fun value finite unsigned noExponent => ?_⟩
  exact ⟨⟨.number value, text value, 1⟩, scan_text finite unsigned noExponent, rfl, rfl, rfl, rfl⟩

def negativeZero : Float := Float.ofBits 0x8000000000000000

/-- The double above the one that is nearest to three tenths. -/
def aboveThreeTenths : Float := Float.ofBits 0x3FD3333333333334

/-- The two zeros have different texts; and a double that needs seventeen digits has them all, and is read
back. -/
theorem text_faithful_seventeenDigits :
    (negativeZero.isNaN = false ∧ (0 : Float).isNaN = false ∧ text negativeZero ≠ text 0) ∧
    aboveThreeTenths.isFinite = true ∧ (Fields.ofFloat aboveThreeTenths).sign = 0 ∧
    'e' ∉ (text aboveThreeTenths).toList ∧ text aboveThreeTenths = "0.30000000000000004" ∧
    (∃ decimal : Decimal, decimal.IsShortest (aboveThreeTenths.toBits.toNat % 2 ^ 63) ∧
      "0.30000000000000004".toList = Style.plain.decimal decimal) ∧
    ∃ token : Token, (Source.text "0.30000000000000004").scan = ⟨[token, .closing 1], none⟩ ∧
      token.literal = .constant (.number aboveThreeTenths) := by
  have isNumber : negativeZero.isNaN = false := by decide +kernel
  have isNumber' : (0 : Float).isNaN = false := by decide +kernel
  have finite : aboveThreeTenths.isFinite = true := by decide +kernel
  have unsigned : (Fields.ofFloat aboveThreeTenths).sign = 0 := by decide +kernel
  have isText : text aboveThreeTenths = "0.30000000000000004" := by decide +kernel
  have noExponent : 'e' ∉ (text aboveThreeTenths).toList := by
    rw [isText]
    decide
  refine ⟨⟨isNumber, isNumber', fun same => ?_⟩, finite, unsigned, noExponent, isText, ?_, ?_⟩
  · have sameBits := (text_faithful.1 negativeZero 0 isNumber isNumber').mp same
    exact absurd sameBits (by decide +kernel)
  · obtain ⟨decimal, isShortest, isDecimal⟩ := text_faithful.2.1 aboveThreeTenths finite
    rw [isText, unsigned] at isDecimal
    exact ⟨decimal, isShortest, isDecimal⟩
  · obtain ⟨token, scans, _, literal, _⟩ := text_faithful.2.2 aboveThreeTenths finite unsigned noExponent
    rw [isText] at scans
    exact ⟨token, scans, literal⟩

end LoxInterpreter.Number
