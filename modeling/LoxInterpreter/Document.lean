import LoxInterpreter.Number.Style
import LoxInterpreter.Text.HexDigit

/-!
Contract: JSON documents and their written form.

Documents are written with one member or item a line, two blanks deeper than what encloses it. In
strings, quotes, backslashes and control characters below U+0020 are escaped, and nothing else.

Owns: `Document` and its writer. Fields keep the order in which they are given.
Does not own: which documents trees are shown as (`Tree.Document`).
-/

namespace LoxInterpreter

/-- A JSON document. Whole numbers and reals are kept apart, as they are written differently. -/
inductive Document where
  | null
  | boolean (value : Bool)
  | whole (value : Nat)
  | real (value : Float)
  | string (value : String)
  | array (items : List Document)
  | object (fields : List (String × Document))
deriving Repr

namespace Document

def escape (character : Char) : List Char :=
  if character = '"' || character = '\\' then ['\\', character]
  else if character = '\n' then ['\\', 'n']
  else if character = '\r' then ['\\', 'r']
  else if character = '\t' then ['\\', 't']
  else if character = '\x0c' then ['\\', 'f']
  else if character = '\x08' then ['\\', 'b']
  else if character.toNat < 0x20 then '\\' :: 'u' :: Text.hexDigits character.toNat 4
  else [character]

def writeString (text : String) : List Char := '"' :: text.toList.flatMap escape ++ ['"']

/-- The start of a line that stands `depth` levels deep. -/
def lineStart (depth : Nat) : List Char := '\n' :: List.replicate (2 * depth) ' '

/-- Parts between brackets, each on a line of its own; the brackets touch when there are none. -/
def bracketed (opening closing : Char) (depth : Nat) (parts : List (List Char)) : List Char :=
  match parts with
  | [] => [opening, closing]
  | parts =>
      opening :: (lineStart (depth + 1) ++
        (List.intercalate (',' :: lineStart (depth + 1)) parts ++ (lineStart depth ++ [closing])))

mutual

/-- A document whose first line stands `depth` levels deep. -/
def write (depth : Nat) : Document → List Char
  | null => "null".toList
  | boolean value => (if value then "true" else "false").toList
  | whole value => Number.decimalDigits value
  | real value => Number.Style.json.characters value
  | string value => writeString value
  | array items => bracketed '[' ']' depth (writeItems (depth + 1) items)
  | object fields => bracketed '\x7b' '\x7d' depth (writeFields (depth + 1) fields)

def writeItems (depth : Nat) : List Document → List (List Char)
  | [] => []
  | item :: rest => write depth item :: writeItems depth rest

def writeFields (depth : Nat) : List (String × Document) → List (List Char)
  | [] => []
  | (name, value) :: rest =>
      (writeString name ++ (':' :: ' ' :: write depth value)) :: writeFields depth rest

end

def text (document : Document) : String := String.ofList (document.write 0)

end Document

end LoxInterpreter
