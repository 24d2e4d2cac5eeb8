import LoxInterpreter.Text.Encoding
import LoxInterpreter.Token

/-!
Contract: source text as tokens.

At every position the longest piece that fits is cut off: a blank, a comment, or a token. The line of
a token is the line on which it ends. Scanning stops at the first position where nothing fits, and
keeps the tokens before it; a complete token list ends with the closing token.

Owns: `Source`, `Front.of` (the piece at the front of a text), and `scan`.
Does not own: what tokens mean to the grammar.
-/

namespace LoxInterpreter

inductive Source where
  | text (content : String)
  | bytes (content : ByteArray)

inductive LexicalError.Cause where
  | unexpectedCharacter
  | unterminatedString
  | invalidEncoding
deriving DecidableEq, Repr

def LexicalError.Cause.message : LexicalError.Cause → String
  | unexpectedCharacter => "Unexpected character."
  | unterminatedString => "Unterminated string."
  | invalidEncoding => "Invalid UTF-8 in source."

/-- A lexical mistake has a line, and no token. -/
structure LexicalError where
  cause : LexicalError.Cause
  line : Nat
deriving DecidableEq, Repr

namespace LexicalError

def message (error : LexicalError) : String := error.cause.message

def summary (error : LexicalError) : String := s!"[line {error.line}] Error: " ++ error.message

end LexicalError

namespace Token

/-- The marks that no second character can extend. -/
def singleMark? : Char → Option Kind
  | '(' => some .leftParen
  | ')' => some .rightParen
  | '\x7b' => some .leftBrace
  | '\x7d' => some .rightBrace
  | ',' => some .comma
  | '.' => some .dot
  | '-' => some .minus
  | '+' => some .plus
  | ';' => some .semicolon
  | '*' => some .star
  | _ => none

/-- The marks that an equals sign extends: the kind with it, and the kind without. -/
def extensibleMark? : Char → Option (Kind × Kind)
  | '!' => some (.bangEqual, .bang)
  | '=' => some (.equalEqual, .equal)
  | '<' => some (.lessEqual, .less)
  | '>' => some (.greaterEqual, .greater)
  | _ => none

def isBlank (character : Char) : Bool :=
  character = ' ' || character = '\r' || character = '\t' || character = '\n'

def isWordStart (character : Char) : Bool := character.isAlpha || character = '_'

def isWordPart (character : Char) : Bool := isWordStart character || character.isDigit

def wordKind (word : List Char) : Kind :=
  match Keyword.ofSpelling? (String.ofList word) with
  | some keyword => .keyword keyword
  | none => .identifier

def digitsValue (digits : List Char) : Nat :=
  digits.foldl (fun value digit => 10 * value + (digit.toNat - '0'.toNat)) 0

/-- The number that digits before and after a point denote, as the nearest double. -/
def numberKind (whole fraction : List Char) : Kind :=
  .number (Number.Decimal.toFloat ⟨digitsValue (whole ++ fraction), -(fraction.length : Int)⟩)

/-- What stands at the front of a text: the characters taken, and those that remain. -/
inductive Front where
  | gap (taken rest : List Char)
  | token (kind : Kind) (taken rest : List Char)
  | failure (cause : LexicalError.Cause) (taken : List Char)
deriving Repr

namespace Front

def extensible (withEqual alone : Kind) (first : Char) : List Char → Front
  | '=' :: rest => .token withEqual [first, '='] rest
  | rest => .token alone [first] rest

/-- A slash, or a comment, which runs to the end of its line. -/
def slash : List Char → Front
  | '/' :: rest =>
      .gap ('/' :: '/' :: rest.takeWhile (· ≠ '\n')) (rest.dropWhile (· ≠ '\n'))
  | rest => .token .slash ['/'] rest

/-- A string, given what follows its opening quote. It holds any characters but the quote. -/
def string (rest : List Char) : Front :=
  let content := rest.takeWhile (· ≠ '"')
  match rest.dropWhile (· ≠ '"') with
  | [] => .failure .unterminatedString ('"' :: content)
  | quote :: after =>
      .token (.string (String.ofList content)) ('"' :: (content ++ [quote])) after

/-- A number: digits, and a point with more digits if a digit follows the point. -/
def number (text : List Char) : Front :=
  let whole := text.takeWhile Char.isDigit
  match text.dropWhile Char.isDigit with
  | '.' :: digit :: after =>
      if digit.isDigit then
        let fraction := (digit :: after).takeWhile Char.isDigit
        .token (numberKind whole fraction) (whole ++ '.' :: fraction)
          ((digit :: after).dropWhile Char.isDigit)
      else .token (numberKind whole []) whole ('.' :: digit :: after)
  | rest => .token (numberKind whole []) whole rest

/-- A word: a letter or underscore, and all letters, digits and underscores behind it. -/
def word (text : List Char) : Front :=
  let taken := text.takeWhile isWordPart
  .token (wordKind taken) taken (text.dropWhile isWordPart)

def of (first : Char) (rest : List Char) : Front :=
  match singleMark? first with
  | some kind => .token kind [first] rest
  | none =>
    match extensibleMark? first with
    | some (withEqual, alone) => extensible withEqual alone first rest
    | none =>
        if first = '/' then slash rest
        else if isBlank first then .gap [first] rest
        else if first = '"' then string rest
        else if first.isDigit then number (first :: rest)
        else if isWordStart first then word (first :: rest)
        else .failure .unexpectedCharacter []

def rest : Front → List Char
  | gap _ rest => rest
  | token _ _ rest => rest
  | failure _ _ => []

/-- The line behind a piece, given the line in front of it. The line advances in two places: at a line feed
between tokens, and at those in a string, whether or not the string is closed. -/
def lineBehind (line : Nat) : Front → Nat
  | gap ['\n'] _ => line + 1
  | token (.string content) _ _ => line + content.toList.count '\n'
  | failure .unterminatedString taken => line + taken.count '\n'
  | _ => line

end Front

private theorem length_dropWhile_le (keep : Char → Bool) (text : List Char) :
    (text.dropWhile keep).length ≤ text.length :=
  (List.dropWhile_suffix keep).length_le

private theorem extensible_rest_length_le (withEqual alone : Kind) (first : Char)
    (rest : List Char) :
    (Front.extensible withEqual alone first rest).rest.length ≤ rest.length := by
  unfold Front.extensible
  split <;> simp [Front.rest]

private theorem slash_rest_length_le (rest : List Char) :
    (Front.slash rest).rest.length ≤ rest.length := by
  unfold Front.slash
  split
  · rename_i comment
    have := length_dropWhile_le (· ≠ '\n') comment
    simp only [Front.rest, List.length_cons]
    omega
  · simp [Front.rest]

private theorem string_rest_length_le (rest : List Char) :
    (Front.string rest).rest.length ≤ rest.length := by
  have dropped := length_dropWhile_le (· ≠ '"') rest
  unfold Front.string
  split
  · simp [Front.rest]
  · rename_i quote after remaining
    rw [remaining, List.length_cons] at dropped
    simp only [Front.rest]
    omega

private theorem number_rest_length_le (first : Char) (rest : List Char)
    (digit : first.isDigit = true) :
    (Front.number (first :: rest)).rest.length ≤ rest.length := by
  have dropped := length_dropWhile_le Char.isDigit rest
  have sameRest : (first :: rest).dropWhile Char.isDigit = rest.dropWhile Char.isDigit := by
    simp [digit]
  unfold Front.number
  split
  · rename_i next after remaining
    rw [sameRest] at remaining
    rw [remaining] at dropped
    have := length_dropWhile_le Char.isDigit (next :: after)
    split <;> simp only [Front.rest, List.length_cons] at * <;> omega
  · rw [sameRest]
    exact dropped

private theorem word_rest_length_le (first : Char) (rest : List Char)
    (start : isWordStart first = true) :
    (Front.word (first :: rest)).rest.length ≤ rest.length := by
  have sameRest : (first :: rest).dropWhile isWordPart = rest.dropWhile isWordPart := by
    simp [isWordPart, start]
  simp only [Front.word, Front.rest, sameRest]
  exact length_dropWhile_le isWordPart rest

/-- Every piece takes at least one character. -/
theorem Front.rest_length_le (first : Char) (rest : List Char) :
    (Front.of first rest).rest.length ≤ rest.length := by
  unfold Front.of
  split
  · simp [Front.rest]
  split
  · exact extensible_rest_length_le ..
  split
  · exact slash_rest_length_le rest
  split
  · simp [Front.rest]
  split
  · exact string_rest_length_le rest
  split
  · exact number_rest_length_le first rest ‹_›
  split
  · exact word_rest_length_le first rest ‹_›
  · simp [Front.rest]

/-- What scanning gives: the tokens up to the first mistake, and that mistake. -/
structure Scan where
  tokens : List Token
  error : Option LexicalError
deriving Repr

def Scan.prepend (token : Token) (scan : Scan) : Scan := ⟨token :: scan.tokens, scan.error⟩

/-- Scans characters of which the first stands on the given line. -/
def scanFrom (line : Nat) : List Char → Scan
  | [] => ⟨[closing line], none⟩
  | first :: rest =>
      let front := Front.of first rest
      let stop := front.lineBehind line
      match _found : front with
      | .gap _ after => scanFrom stop after
      | .token kind taken after => (scanFrom stop after).prepend ⟨kind, String.ofList taken, stop⟩
      | .failure cause _ => ⟨[], some ⟨cause, stop⟩⟩
termination_by characters => characters.length
decreasing_by
  all_goals
    have shorter : front.rest.length ≤ rest.length := Front.rest_length_le first rest
    rw [_found] at shorter
    exact Nat.lt_succ_of_le shorter

def scanText (text : String) : Scan := scanFrom 1 text.toList

end Token

/-- The tokens of a source. Bytes that encode no text have no tokens at all. -/
def Source.scan : Source → Token.Scan
  | .text content => Token.scanText content
  | .bytes content =>
      match Text.decode content with
      | .ok decoded => Token.scanText decoded
      | .error line => ⟨[], some ⟨.invalidEncoding, line⟩⟩

end LoxInterpreter
