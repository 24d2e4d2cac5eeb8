import LoxInterpreter.Text.HexDigit
import LoxInterpreter.Text.Invisible

/-!
Contract: text in quotes, as it is shown inside a list of names or a quoted literal.

The quote is `'`, or `"` for a text that holds `'` and no `"`. Behind a backslash stand the quote in
use, the backslash itself, and the letters of line feed, tab and carriage return; every other
invisible character is written with its code point, as `\xNN`, `\uNNNN` or `\UNNNNNNNN`, whichever
is the shortest that has room. All other characters are shown as they are.

Owns: the choice of quote and the escapes.
Does not own: which characters are invisible (`Text.Invisible`).
-/

namespace LoxInterpreter.Text

/-- The quote that encloses a text. -/
def quoteFor (characters : List Char) : Char :=
  if characters.contains '\'' && !characters.contains '"' then '"' else '\''

def escapeCode (code : Nat) : List Char :=
  if code < 0x100 then '\\' :: 'x' :: hexDigits code 2
  else if code < 0x10000 then '\\' :: 'u' :: hexDigits code 4
  else '\\' :: 'U' :: hexDigits code 8

/-- How a character is written between two quotes. -/
def escape (quote character : Char) : List Char :=
  if character = quote || character = '\\' then ['\\', character]
  else if character = '\n' then ['\\', 'n']
  else if character = '\t' then ['\\', 't']
  else if character = '\r' then ['\\', 'r']
  else if isInvisible character then escapeCode character.toNat
  else [character]

def quoted (text : String) : String :=
  let characters := text.toList
  let quote := quoteFor characters
  String.ofList (quote :: characters.flatMap (escape quote) ++ [quote])

end LoxInterpreter.Text
