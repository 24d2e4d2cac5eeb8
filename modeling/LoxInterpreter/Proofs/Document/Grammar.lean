import LoxInterpreter.Document
import LoxInterpreter.Proofs.Number.Rounding
import LoxInterpreter.Proofs.Token.Forms

/-!
Contract: JSON texts, and the documents that they denote.

The rules of the standard grammar are stated in its order, each as a relation between a text, what stands at
its front, and what remains behind it. A number denotes the double that is nearest to it; a number without a
sign, a fraction and an exponent is a whole one. Blanks may stand on both sides of every value, and nowhere
inside a word, a number or a string.

Owns: `Json.Numeral`, `Json.Value` and `Json.Denotes`.
Does not own: how documents are written (`Document`), and that what is written denotes them
(`Proofs.Document.Written`).
-/

namespace LoxInterpreter.Json

/-! ## Blanks -/

/-- The blanks: `%x20 / %x09 / %x0A / %x0D`. -/
def blanks : List Char := [' ', '\t', '\n', '\r']

/-- `ws`: any number of blanks at the front. -/
def Blanks (text rest : List Char) : Prop :=
  ∃ gap : List Char, (∀ character ∈ gap, character ∈ blanks) ∧ text = gap ++ rest

/-- Something with any number of blanks on either side. -/
def Padded (reads : List Char → List Char → Prop) (text rest : List Char) : Prop :=
  ∃ start stop, Blanks text start ∧ reads start stop ∧ Blanks stop rest

/-! ## Numbers -/

/-- `exp = e [ minus / plus ] 1*DIGIT` -/
@[ext]
structure Exponent where
  letter : Char
  sign : List Char
  digits : List Char
  isLetter : letter ∈ ['e', 'E']
  isSign : sign ∈ [[], ['+'], ['-']]
  areDigits : Token.IsDigits digits

def Exponent.text (exponent : Exponent) : List Char := exponent.letter :: (exponent.sign ++ exponent.digits)

def Exponent.value (exponent : Exponent) : Int :=
  if exponent.sign = ['-'] then -(Nat.ofDigitChars 10 exponent.digits 0 : Int)
  else Nat.ofDigitChars 10 exponent.digits 0

/-- `number = [ minus ] int [ frac ] [ exp ]` -/
@[ext]
structure Numeral where
  isNegative : Bool
  /-- `int = zero / ( digit1-9 *DIGIT )` -/
  whole : List Char
  /-- `frac = decimal-point 1*DIGIT` -/
  fraction : Option (List Char)
  exponent : Option Exponent
  areDigits : Token.IsDigits whole
  noLeadingZero : whole = ['0'] ∨ whole.head? ≠ some '0'
  fractionDigits : ∀ digits ∈ fraction, Token.IsDigits digits

namespace Numeral

def text (numeral : Numeral) : List Char :=
  (if numeral.isNegative then ['-'] else []) ++ (numeral.whole ++
    (numeral.fraction.elim [] ('.' :: ·) ++ numeral.exponent.elim [] Exponent.text))

def value (numeral : Numeral) : ℚ :=
  Nat.ofDigitChars 10 (numeral.whole ++ numeral.fraction.getD []) 0 *
    (10 : ℚ) ^ (numeral.exponent.elim 0 Exponent.value - (numeral.fraction.getD []).length)

/-- Whether a number is written as a natural number. -/
def IsWhole (numeral : Numeral) : Prop :=
  numeral.isNegative = false ∧ numeral.fraction = none ∧ numeral.exponent = none

end Numeral

def signed (isNegative : Bool) (bits : Nat) : Float :=
  Float.ofBits (UInt64.ofNat (bits + if isNegative then 2 ^ 63 else 0))

/-- Whether a double is the nearest one to a number. -/
def Numeral.IsNearest (numeral : Numeral) (value : Float) : Prop :=
  ∃ bits, Number.RoundsTo numeral.value bits ∧ value = signed numeral.isNegative bits

/-! ## Strings -/

def escapes : List (Char × Char) :=
  [('"', '"'), ('\\', '\\'), ('/', '/'), ('b', '\x08'), ('f', '\x0c'), ('n', '\n'), ('r', '\r'), ('t', '\t')]

def hexValue? (digit : Char) : Option Nat :=
  if '0' ≤ digit ∧ digit ≤ '9' then some (digit.toNat - '0'.toNat)
  else if 'a' ≤ digit ∧ digit ≤ 'f' then some (digit.toNat - 'a'.toNat + 10)
  else if 'A' ≤ digit ∧ digit ≤ 'F' then some (digit.toNat - 'A'.toNat + 10)
  else none

/-- The code that a backslash, the letter `u` and four hexadecimal digits stand for (`%x75 4HEXDIG`). -/
def unit? : List Char → Option Nat
  | ['\\', 'u', first, second, third, fourth] => do
      let high := 16 * (← hexValue? first) + (← hexValue? second)
      let low := 16 * (← hexValue? third) + (← hexValue? fourth)
      return 256 * high + low
  | _ => none

/-- `char`: the ways to write a character between quotes. A character beyond the first 65,536 is written
with two codes; one of them alone stands for no character. -/
inductive Writes (character : Char) : List Char → Prop
  | plain (notQuote : character ≠ '"') (notBackslash : character ≠ '\\') (notControl : 0x20 ≤ character.toNat) :
      Writes character [character]
  | letter {letter : Char} (isEscape : (letter, character) ∈ escapes) : Writes character ['\\', letter]
  | code {text : List Char} (isCode : unit? text = some character.toNat) : Writes character text
  | codes {high low : List Char} (beyond : 0x10000 ≤ character.toNat)
      (isHigh : unit? high = some (0xD800 + (character.toNat - 0x10000) / 0x400))
      (isLow : unit? low = some (0xDC00 + (character.toNat - 0x10000) % 0x400)) : Writes character (high ++ low)

/-- `*char quotation-mark`: what stands between quotes, and the closing one. -/
def Characters : List Char → List Char → List Char → Prop
  | [], text, rest => text = '"' :: rest
  | character :: others, text, rest =>
      ∃ written between, Writes character written ∧ text = written ++ between ∧ Characters others between rest

/-- `string = quotation-mark *char quotation-mark` -/
def Quoted (content : String) (text rest : List Char) : Prop :=
  ∃ inside, text = '"' :: inside ∧ Characters content.toList inside rest

/-! ## Values -/

mutual

/-- `value = false / null / true / object / array / number / string` -/
def Value : Document → List Char → List Char → Prop
  | .null, text, rest => text = "null".toList ++ rest
  | .boolean value, text, rest => text = (if value then "true" else "false").toList ++ rest
  | .whole value, text, rest => ∃ numeral : Numeral,
      numeral.IsWhole ∧ value = Nat.ofDigitChars 10 numeral.whole 0 ∧ text = numeral.text ++ rest
  | .real value, text, rest => ∃ numeral : Numeral,
      ¬ numeral.IsWhole ∧ numeral.IsNearest value ∧ text = numeral.text ++ rest
  | .string value, text, rest => Quoted value text rest
  | .array items, text, rest => ∃ inside, text = '[' :: inside ∧ Items items inside (']' :: rest)
  | .object fields, text, rest => ∃ inside, text = '\x7b' :: inside ∧ Members fields inside ('\x7d' :: rest)

/-- `[ value *( value-separator value ) ]` -/
def Items : List Document → List Char → List Char → Prop
  | [], text, rest => Blanks text rest
  | [only], text, rest => Padded (Value only) text rest
  | first :: second :: others, text, rest => ∃ between,
      Padded (Value first) text (',' :: between) ∧ Items (second :: others) between rest

/-- `[ member *( value-separator member ) ]`, where `member = string name-separator value` -/
def Members : List (String × Document) → List Char → List Char → Prop
  | [], text, rest => Blanks text rest
  | [(name, value)], text, rest => ∃ behind,
      Padded (Quoted name) text (':' :: behind) ∧ Padded (Value value) behind rest
  | (name, value) :: second :: others, text, rest => ∃ behind between,
      Padded (Quoted name) text (':' :: behind) ∧ Padded (Value value) behind (',' :: between) ∧
        Members (second :: others) between rest

end

/-- `JSON-text = ws value ws`: whether a text is valid and denotes a document. -/
def Denotes (text : String) (document : Document) : Prop := Padded (Value document) text.toList []

end LoxInterpreter.Json
