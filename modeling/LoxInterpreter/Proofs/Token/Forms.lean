import LoxInterpreter.Proofs.Lines.Scanning
import LoxInterpreter.Proofs.Number.Doubles
import LoxInterpreter.Proofs.Token.Words
import LoxInterpreter.Token.Literal

/-!
Contract: the lexical grammar, and the piece that the scanner cuts off.

The grammar says which characters are written for a token, and which for a gap between tokens. It does
not say how they are found. The piece at the front of a text is one of the grammar, and no piece that the
grammar has for the front of that text is longer; where there is none, the scanner fails.

Owns: `Token.Form`, `Token.IsGap`, `Token.IsPiece`, `Front.of_wellFormed`, and `form_covered`.
Does not own: whole texts (`Proofs.Token.LongestMatch`).
-/

namespace LoxInterpreter.Token

/-! ## The grammar -/

/-- The operators and the other marks. -/
def marks : List Kind :=
  [.leftParen, .rightParen, .leftBrace, .rightBrace, .comma, .dot, .minus, .plus, .semicolon, .slash,
    .star, .bang, .bangEqual, .equal, .equalEqual, .greater, .greaterEqual, .less, .lessEqual]

/-- Whether characters are digits, at least one. -/
def IsDigits (characters : List Char) : Prop :=
  characters ≠ [] ∧ ∀ character ∈ characters, character.isDigit = true

/-- The value of digits behind a point. -/
def fractionValue : List Char → ℚ
  | [] => 0
  | digit :: rest => ((digit.toNat - '0'.toNat : Nat) + fractionValue rest) / 10

/-- The forms of tokens: the kind and the literal of a token, and the characters that are written for it. A
number is the double that is nearest to what its digits say. -/
inductive Form : Kind → Literal → List Char → Prop
  | mark {kind : Kind} (isMark : kind ∈ marks) : Form kind (.constant .nil) kind.symbol.toList
  | integer {digits : List Char} {value : Float} (areDigits : IsDigits digits)
      (nearest : Number.IsNearest (digitsValue digits) value) :
      Form (.number value) (.constant (.number value)) digits
  | decimal {whole fraction : List Char} {value : Float} (areDigits : IsDigits whole)
      (areMore : IsDigits fraction)
      (nearest : Number.IsNearest (digitsValue whole + fractionValue fraction) value) :
      Form (.number value) (.constant (.number value)) (whole ++ '.' :: fraction)
  | string {content : List Char} (noQuote : '"' ∉ content) :
      Form (.string (String.ofList content)) (.constant (.string (String.ofList content)))
        ('"' :: (content ++ ['"']))
  | reserved (word : Keyword) : Form (.keyword word) (.constant .nil) word.spelling.toList
  | identifier {word : List Char} (isWord : IsWord word)
      (free : ∀ reserved : Keyword, reserved.spelling.toList ≠ word) :
      Form .identifier (.identifier (String.ofList word)) word

/-- The pieces of the gaps between tokens: blanks, and comments. -/
inductive IsGap : List Char → Prop
  | blank {character : Char} (isBlank : character ∈ [' ', '\r', '\t', '\n']) : IsGap [character]
  | comment {content : List Char} (oneLine : '\n' ∉ content) : IsGap ('/' :: '/' :: content)

/-- Whether characters are written for a gap or for a token. -/
def IsPiece (characters : List Char) : Prop :=
  IsGap characters ∨ ∃ kind literal, Form kind literal characters

/-! ## Words and numbers -/

/-- A word is reserved just if it is spelled like a reserved word. -/
theorem form_word {word : List Char} (isWord : IsWord word) (line : Nat) :
    Form (wordKind word) (literal ⟨wordKind word, String.ofList word, line⟩) word := by
  unfold wordKind
  cases found : Keyword.ofSpelling? (String.ofList word) with
  | some reserved =>
      have spelled := List.find?_some found
      have same : reserved.spelling.toList = word := by
        rw [eq_of_beq spelled, String.toList_ofList]
      have form := Form.reserved reserved
      rwa [same] at form
  | none =>
      refine .identifier isWord fun reserved same => ?_
      have others := List.find?_eq_none.mp found reserved (by cases reserved <;> decide)
      rw [← same, String.ofList_toList] at others
      exact others BEq.rfl

/-- The value of digits in front of and behind a point. -/
theorem digitsValue_append (whole fraction : List Char) :
    (digitsValue (whole ++ fraction) : ℚ) * (10 : ℚ) ^ (-(fraction.length : Int)) =
      digitsValue whole + fractionValue fraction := by
  unfold digitsValue
  rw [List.foldl_append]
  generalize whole.foldl (fun value digit => 10 * value + (digit.toNat - '0'.toNat)) 0 = front
  induction fraction generalizing front with
  | nil => simp [fractionValue]
  | cons digit rest inductionHypothesis =>
      have longer : -((digit :: rest).length : Int) = -(rest.length : Int) + -1 := by
        rw [List.length_cons]
        push_cast
        ring
      rw [List.foldl_cons, longer, zpow_add₀ (by norm_num), ← mul_assoc, inductionHypothesis,
        fractionValue]
      push_cast
      ring

/-- The number of a numeral is the double nearest to its value. -/
theorem numberKind_nearest (whole fraction : List Char) :
    ∃ value, numberKind whole fraction = .number value ∧
      Number.IsNearest (digitsValue whole + fractionValue fraction) value := by
  refine ⟨_, rfl, ?_⟩
  rw [← digitsValue_append]
  exact Number.Decimal.toFloat_isNearest ⟨digitsValue (whole ++ fraction), -(fraction.length : Int)⟩

theorem form_integer {digits : List Char} (areDigits : IsDigits digits) (line : Nat) :
    Form (numberKind digits []) (literal ⟨numberKind digits [], String.ofList digits, line⟩) digits := by
  have ⟨value, isNumber, nearest⟩ := numberKind_nearest digits []
  rw [isNumber]
  rw [fractionValue, add_zero] at nearest
  exact .integer areDigits nearest

theorem form_decimal {whole fraction : List Char} (areDigits : IsDigits whole)
    (areMore : IsDigits fraction) (line : Nat) :
    Form (numberKind whole fraction)
      (literal ⟨numberKind whole fraction, String.ofList (whole ++ '.' :: fraction), line⟩)
      (whole ++ '.' :: fraction) := by
  have ⟨value, isNumber, nearest⟩ := numberKind_nearest whole fraction
  rw [isNumber]
  exact .decimal areDigits areMore nearest

theorem isDigits_takeWhile {first : Char} {rest : List Char} (digit : first.isDigit = true) :
    IsDigits ((first :: rest).takeWhile Char.isDigit) := by
  constructor
  · rw [List.takeWhile_cons_of_pos digit]
    exact List.cons_ne_nil _ _
  · intro character member
    exact List.mem_takeWhile_imp member

/-! ## The piece that is cut off is one of the grammar -/

namespace Front

variable {first : Char} {rest : List Char}

/-- Whether a piece is one of the grammar. -/
def WellFormed : Front → Prop
  | gap taken _ => IsGap taken
  | token kind taken _ => ∀ line, Form kind (literal ⟨kind, String.ofList taken, line⟩) taken
  | failure _ _ => True

theorem wellFormed_mark {kind : Kind} (isMark : kind ∈ marks) {taken : List Char}
    (written : kind.symbol.toList = taken) (rest : List Char) : (token kind taken rest).WellFormed := by
  intro line
  subst written
  have noLiteral : literal ⟨kind, String.ofList kind.symbol.toList, line⟩ = .constant .nil := by
    unfold marks at isMark
    simp only [List.mem_cons, List.not_mem_nil, or_false] at isMark
    rcases isMark with rfl | rfl | rfl | rfl | rfl | rfl | rfl | rfl | rfl | rfl | rfl | rfl | rfl | rfl |
      rfl | rfl | rfl | rfl | rfl <;> rfl
  rw [noLiteral]
  exact .mark isMark

theorem singleMark_written {kind : Kind} (mark : singleMark? first = some kind) :
    kind ∈ marks ∧ kind.symbol.toList = [first] := by
  unfold singleMark? at mark
  split at mark <;> cases mark <;> exact ⟨by decide, rfl⟩

theorem extensibleMark_written {withEqual alone : Kind}
    (mark : extensibleMark? first = some (withEqual, alone)) :
    (withEqual ∈ marks ∧ withEqual.symbol.toList = [first, '=']) ∧
      alone ∈ marks ∧ alone.symbol.toList = [first] := by
  unfold extensibleMark? at mark
  split at mark <;> cases mark <;> exact ⟨⟨by decide, rfl⟩, by decide, rfl⟩

theorem extensible_wellFormed {withEqual alone : Kind}
    (mark : extensibleMark? first = some (withEqual, alone)) (rest : List Char) :
    (extensible withEqual alone first rest).WellFormed := by
  have ⟨⟨isMark, written⟩, isMarkAlone, writtenAlone⟩ := extensibleMark_written mark
  unfold extensible
  split
  · exact wellFormed_mark isMark written _
  · exact wellFormed_mark isMarkAlone writtenAlone _

theorem slash_wellFormed (rest : List Char) : (slash rest).WellFormed := by
  unfold slash
  split
  · rename_i comment
    refine IsGap.comment fun member => ?_
    have stays := List.mem_takeWhile_imp member
    simp at stays
  · exact wellFormed_mark (by decide) rfl _

theorem string_wellFormed (rest : List Char) : (string rest).WellFormed := by
  unfold string
  dsimp only
  split
  · trivial
  · rename_i quote after dropped
    have isQuote : quote = '"' := by
      have stops := List.head?_dropWhile_not (fun character => decide (character ≠ '"')) rest
      rw [dropped] at stops
      simpa using stops
    intro line
    subst isQuote
    refine Form.string fun member => ?_
    have stays := List.mem_takeWhile_imp member
    simp at stays

theorem number_wellFormed (digit : first.isDigit = true) (rest : List Char) :
    (number (first :: rest)).WellFormed := by
  have whole := @isDigits_takeWhile first rest digit
  unfold number
  split
  · rename_i next after dropped
    split
    · rename_i isMore
      exact form_decimal whole (isDigits_takeWhile isMore)
    · exact form_integer whole
  · exact form_integer whole

theorem word_wellFormed (start : isWordStart first = true) (rest : List Char) :
    (word (first :: rest)).WellFormed := by
  have part : isWordPart first = true := by
    rw [isWordPart, start]
    rfl
  have isWord : IsWord ((first :: rest).takeWhile isWordPart) := by
    rw [List.takeWhile_cons_of_pos part]
    exact ⟨start, List.all_eq_true.mpr fun character member => List.mem_takeWhile_imp member⟩
  exact form_word isWord

/-- The piece at the front of a text is one of the grammar. -/
theorem of_wellFormed (first : Char) (rest : List Char) : (Front.of first rest).WellFormed := by
  unfold Front.of
  split
  · rename_i kind mark
    have ⟨isMark, written⟩ := singleMark_written mark
    exact wellFormed_mark isMark written rest
  split
  · rename_i withEqual alone mark
    exact extensible_wellFormed mark rest
  split
  · exact slash_wellFormed rest
  split
  · rename_i isBlank
    refine IsGap.blank ?_
    simpa [Token.isBlank, or_assoc] using isBlank
  split
  · exact string_wellFormed rest
  split
  · exact number_wellFormed ‹_› rest
  split
  · exact word_wellFormed ‹_› rest
  · trivial

/-! ## No piece of the grammar is longer -/

/-- The characters of a gap or of a token. -/
def cut : Front → List Char
  | gap taken _ | token _ taken _ => taken
  | failure _ _ => []

/-- Whether a piece has more characters than some number. -/
def Exceeds (count : Nat) (front : Front) : Prop := count < front.cut.length

/-- A mark is extended by nothing, or by an equals sign, or it is the slash. -/
theorem mark_cases {kind : Kind} (isMark : kind ∈ marks) :
    (∃ first, singleMark? first = some kind ∧ kind.symbol.toList = [first]) ∨
    (∃ first withEqual alone, singleMark? first = none ∧
      extensibleMark? first = some (withEqual, alone) ∧
      (kind = withEqual ∧ kind.symbol.toList = [first, '='] ∨
        kind = alone ∧ kind.symbol.toList = [first])) ∨
    kind = .slash := by
  unfold marks at isMark
  simp only [List.mem_cons, List.not_mem_nil, or_false] at isMark
  rcases isMark with rfl | rfl | rfl | rfl | rfl | rfl | rfl | rfl | rfl | rfl | rfl | rfl | rfl | rfl |
    rfl | rfl | rfl | rfl | rfl
  all_goals first
    | exact .inr (.inr rfl)
    | exact .inl ⟨_, rfl, rfl⟩
    | exact .inr (.inl ⟨_, _, _, rfl, rfl, .inl ⟨rfl, rfl⟩⟩)
    | exact .inr (.inl ⟨_, _, _, rfl, rfl, .inr ⟨rfl, rfl⟩⟩)

theorem of_singleMark {kind : Kind} (mark : singleMark? first = some kind) (rest : List Char) :
    Front.of first rest = .token kind [first] rest := by
  unfold Front.of
  rw [mark]

theorem of_extensibleMark {withEqual alone : Kind} (single : singleMark? first = none)
    (mark : extensibleMark? first = some (withEqual, alone)) (rest : List Char) :
    Front.of first rest = extensible withEqual alone first rest := by
  unfold Front.of
  rw [single, mark]

/-- What can be taken from a text that begins with characters that can all be taken: just these, or
more. -/
theorem takeWhile_run {keep : Char → Bool} {run : List Char}
    (kept : ∀ character ∈ run, keep character = true) (more : List Char) :
    ((run ++ more).takeWhile keep = run ∧ (run ++ more).dropWhile keep = more) ∨
      run.length < ((run ++ more).takeWhile keep).length := by
  rw [List.takeWhile_append_of_pos kept, List.dropWhile_append_of_pos kept]
  cases more with
  | nil => exact .inl ⟨List.append_nil run, rfl⟩
  | cons next others =>
      by_cases goesOn : keep next = true
      · right
        rw [List.takeWhile_cons_of_pos goesOn, List.length_append, List.length_cons]
        omega
      · left
        rw [List.takeWhile_cons_of_neg goesOn, List.dropWhile_cons_of_neg goesOn, List.append_nil]
        exact ⟨rfl, rfl⟩

section Covered

variable {piece more : List Char}

theorem mark_covered {kind : Kind} (isMark : kind ∈ marks)
    (isFront : kind.symbol.toList ++ more = first :: rest) :
    Front.of first rest = .token kind kind.symbol.toList more ∨
      (Front.of first rest).Exceeds kind.symbol.toList.length := by
  rcases mark_cases isMark with ⟨_, single, written⟩ | ⟨_, _, _, single, extended, isWritten⟩ | isSlash
  · rw [written] at isFront ⊢
    cases isFront
    exact .inl (of_singleMark single _)
  · rcases isWritten with ⟨same, written⟩ | ⟨same, written⟩
    · rw [written] at isFront ⊢
      cases isFront
      rw [of_extensibleMark single extended, same]
      exact .inl rfl
    · rw [written] at isFront ⊢
      cases isFront
      rw [of_extensibleMark single extended, same]
      unfold extensible
      split
      · exact .inr (Nat.lt_succ_self 1)
      · exact .inl rfl
  · subst isSlash
    have isSlash : '/' :: more = first :: rest := isFront
    cases isSlash
    show slash rest = .token .slash ['/'] rest ∨ (slash rest).Exceeds 1
    unfold slash
    split
    · right
      show 1 < List.length (_ :: _ :: _)
      simp
    · exact .inl rfl

theorem string_covered {content : List Char} (noQuote : '"' ∉ content)
    (isFront : '"' :: (content ++ ['"']) ++ more = first :: rest) :
    Front.of first rest = .token (.string (String.ofList content)) ('"' :: (content ++ ['"'])) more := by
  have split : '"' :: (content ++ '"' :: more) = first :: rest := by simpa using isFront
  cases split
  have kept : ∀ character ∈ content, decide (character ≠ '"') = true := by
    intro character member
    simp only [decide_eq_true_eq]
    intro isQuote
    exact noQuote (isQuote ▸ member)
  show string (content ++ '"' :: more) = _
  unfold string
  rw [List.takeWhile_append_of_pos kept, List.dropWhile_append_of_pos kept]
  simp

/-- A number is the one double that is nearest to its value. -/
theorem numberKind_eq {whole fraction : List Char} {value : Float}
    (nearest : Number.IsNearest (digitsValue whole + fractionValue fraction) value) :
    numberKind whole fraction = .number value := by
  have ⟨other, isNumber, nearestOther⟩ := numberKind_nearest whole fraction
  rw [isNumber, nearestOther.unique nearest]

theorem number_exceeds {count : Nat} {text : List Char}
    (longer : count < (text.takeWhile Char.isDigit).length) : (number text).Exceeds count := by
  unfold number
  split
  · split
    · show count < List.length (_ ++ _)
      rw [List.length_append]
      omega
    · exact longer
  · exact longer

theorem number_of_isDigits (areDigits : IsDigits piece) (isFront : piece ++ more = first :: rest) :
    Front.of first rest = number (piece ++ more) := by
  cases piece with
  | nil => exact absurd rfl areDigits.1
  | cons digit others =>
      rw [List.cons_append] at isFront ⊢
      cases isFront
      exact of_digit (areDigits.2 _ List.mem_cons_self) _

theorem integer_covered {value : Float} (areDigits : IsDigits piece)
    (nearest : Number.IsNearest (digitsValue piece) value) (isFront : piece ++ more = first :: rest) :
    Front.of first rest = .token (.number value) piece more ∨
      (Front.of first rest).Exceeds piece.length := by
  have isNumber : numberKind piece [] = .number value := by
    apply numberKind_eq
    rwa [fractionValue, add_zero]
  rw [number_of_isDigits areDigits isFront]
  rcases takeWhile_run areDigits.2 more with ⟨taken, dropped⟩ | longer
  · unfold number
    dsimp only
    rw [taken, dropped, isNumber]
    split
    · split
      · right
        show piece.length < List.length (_ ++ _ :: _)
        rw [List.length_append, List.length_cons]
        omega
      · exact .inl rfl
    · exact .inl rfl
  · exact .inr (number_exceeds longer)

/-- A number with a point, where the digits in front of the point are known. -/
theorem number_of_point {text whole : List Char} {digit : Char} {after : List Char}
    (taken : text.takeWhile Char.isDigit = whole)
    (dropped : text.dropWhile Char.isDigit = '.' :: digit :: after) (isMore : digit.isDigit = true) :
    number text =
      .token (numberKind whole ((digit :: after).takeWhile Char.isDigit))
        (whole ++ '.' :: (digit :: after).takeWhile Char.isDigit)
        ((digit :: after).dropWhile Char.isDigit) := by
  unfold number
  rw [taken, dropped]
  exact if_pos isMore

theorem decimal_covered {whole fraction : List Char} {value : Float} (areDigits : IsDigits whole)
    (areMore : IsDigits fraction)
    (nearest : Number.IsNearest (digitsValue whole + fractionValue fraction) value)
    (isFront : (whole ++ '.' :: fraction) ++ more = first :: rest) :
    Front.of first rest = .token (.number value) (whole ++ '.' :: fraction) more ∨
      (Front.of first rest).Exceeds (whole ++ '.' :: fraction).length := by
  rw [List.append_assoc, List.cons_append] at isFront
  rw [number_of_isDigits areDigits isFront]
  have taken : (whole ++ '.' :: (fraction ++ more)).takeWhile Char.isDigit = whole := by
    rw [List.takeWhile_append_of_pos areDigits.2, List.takeWhile_cons_of_neg (by decide),
      List.append_nil]
  have dropped : (whole ++ '.' :: (fraction ++ more)).dropWhile Char.isDigit =
      '.' :: (fraction ++ more) := by
    rw [List.dropWhile_append_of_pos areDigits.2, List.dropWhile_cons_of_neg (by decide)]
  have runs := takeWhile_run areMore.2 more
  cases fraction with
  | nil => exact absurd rfl areMore.1
  | cons digit others =>
      rw [List.cons_append] at runs dropped
      rw [number_of_point taken dropped (areMore.2 digit List.mem_cons_self)]
      rcases runs with ⟨takenMore, droppedMore⟩ | longer
      · rw [takenMore, droppedMore, numberKind_eq nearest]
        exact .inl rfl
      · right
        show List.length (whole ++ _ :: _) < List.length (whole ++ _ :: _)
        simpa using longer

theorem word_covered (isWord : IsWord piece) (isFront : piece ++ more = first :: rest) :
    Front.of first rest = .token (wordKind piece) piece more ∨
      (Front.of first rest).Exceeds piece.length := by
  have begins : Front.of first rest = word (piece ++ more) := by
    cases piece with
    | nil => exact isWord.elim
    | cons start others =>
        rw [List.cons_append] at isFront ⊢
        cases isFront
        exact of_wordStart isWord.1 _
  rw [begins]
  unfold word
  rcases takeWhile_run isWord.isWordPart more with ⟨taken, dropped⟩ | longer
  · rw [taken, dropped]
    exact .inl rfl
  · exact .inr longer

theorem wordKind_reserved (word : Keyword) : wordKind word.spelling.toList = .keyword word := by
  cases word <;> rfl

theorem isWord_reserved (word : Keyword) : IsWord word.spelling.toList := by
  cases word <;> decide

theorem wordKind_free {word : List Char} (free : ∀ reserved : Keyword, reserved.spelling.toList ≠ word) :
    wordKind word = .identifier := by
  unfold wordKind
  cases found : Keyword.ofSpelling? (String.ofList word) with
  | some reserved =>
      have spelled := List.find?_some found
      exact absurd (by rw [eq_of_beq spelled, String.toList_ofList]) (free reserved)
  | none => rfl

/-- The scanner cuts off what is written for a token, or something longer. -/
theorem form_covered {kind : Kind} {carried : Literal} (form : Form kind carried piece)
    (isFront : piece ++ more = first :: rest) :
    Front.of first rest = .token kind piece more ∨ (Front.of first rest).Exceeds piece.length := by
  cases form with
  | mark isMark => exact mark_covered isMark isFront
  | integer areDigits nearest => exact integer_covered areDigits nearest isFront
  | decimal areDigits areMore nearest => exact decimal_covered areDigits areMore nearest isFront
  | string noQuote => exact .inl (string_covered noQuote isFront)
  | reserved word =>
      have covered := word_covered (isWord_reserved word) isFront
      rwa [wordKind_reserved] at covered
  | identifier isWord free =>
      have covered := word_covered isWord isFront
      rwa [wordKind_free free] at covered

theorem slash_comment (comment : List Char) :
    slash ('/' :: comment) =
      .gap ('/' :: '/' :: comment.takeWhile (· ≠ '\n')) (comment.dropWhile (· ≠ '\n')) :=
  rfl

/-- The scanner cuts off what is written for a gap, or something longer. -/
theorem gap_covered (isGap : IsGap piece) (isFront : piece ++ more = first :: rest) :
    Front.of first rest = .gap piece more ∨ (Front.of first rest).Exceeds piece.length := by
  cases isGap with
  | blank isBlank =>
      cases isFront
      simp only [List.mem_cons, List.not_mem_nil, or_false] at isBlank
      rcases isBlank with rfl | rfl | rfl | rfl <;> exact .inl rfl
  | @comment content oneLine =>
      rw [List.cons_append, List.cons_append] at isFront
      cases isFront
      have kept : ∀ character ∈ content, decide (character ≠ '\n') = true := by
        intro character member
        simp only [decide_eq_true_eq]
        intro isFeed
        exact oneLine (isFeed ▸ member)
      show slash ('/' :: (content ++ more)) = _ ∨ (slash ('/' :: (content ++ more))).Exceeds _
      rw [slash_comment]
      rcases takeWhile_run kept more with ⟨taken, dropped⟩ | longer
      · rw [taken, dropped]
        exact .inl rfl
      · right
        show List.length (_ :: _ :: _) < List.length (_ :: _ :: _)
        simpa using longer

end Covered

end Front

end LoxInterpreter.Token
