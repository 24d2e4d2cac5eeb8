import LoxInterpreter.Text.Digit

/-!
Contract: what the words of a command line ask for.

Flags begin with a dash. Long flags may be shortened as long as one flag alone begins that way. Short
ones may share a dash, with a `=` behind the first of them or not; all letters must then be flags. No
flag takes a value. A single dash, a negative number, and words with a dash and a blank that are no
flags count as operands. Behind the word `--` everything is an operand. Flags take effect from left
to right: help at once, a mistake in a word when its turn comes and before any flag of that word, an
ambiguous word before all others, and words that are unknown or too many at the end.

Owns: `Command`, the reading of words, and the two texts about usage.
Does not own: what commands do (`CommandLine.Command`).
-/

namespace LoxInterpreter.CommandLine

inductive Flag where
  | help
  | verbose
  | noColour
  | showTree
  | writeTree
deriving DecidableEq, Repr

def Flag.spellings : List (String × Flag) :=
  [("-h", help), ("--help", help), ("-v", verbose), ("--no-color", noColour),
    ("--print-ast", showTree), ("--emit-ast", writeTree)]

def Flag.ofSpelling? (spelling : List Char) : Option Flag :=
  Flag.spellings.lookup (String.ofList spelling)

/-- The flags whose spelling begins this way. -/
def Flag.beginningWith (start : List Char) : List Flag :=
  (Flag.spellings.filter fun entry => start.isPrefixOf entry.1.toList).map Prod.snd

inductive Word where
  | operand (text : String)
  | flags (flags : List Flag)
  /-- A word with a dash that begins with no flag. -/
  | unknown
  /-- A mistake, noticed when the turn of the word comes. -/
  | refused
  /-- A mistake, noticed before any word has an effect. -/
  | ambiguous
deriving DecidableEq, Repr

namespace Word

/-- A short flag and the letters that share its dash, of which there must be one at least. -/
def sharing (first : Flag) (letters : List Char) : Word :=
  match letters.mapM fun letter => Flag.ofSpelling? ['-', letter] with
  | some (second :: others) => flags (first :: second :: others)
  | _ => refused

/-- Whether characters are digits of any script, at least one, and perhaps a line feed behind them. -/
def areDigits (characters : List Char) : Bool :=
  let rest := characters.dropWhile Text.isDecimalDigit
  rest.length < characters.length && (rest = [] || rest = ['\n'])

/-- Whether a word is a negative number: digits, or a point between perhaps none and at least one. -/
def isNegativeNumber : List Char → Bool
  | '-' :: digits =>
      areDigits digits ||
        match digits.dropWhile Text.isDecimalDigit with
        | '.' :: fraction => areDigits fraction
        | _ => false
  | _ => false

/-- A word with a dash that is no flag. -/
def withoutFlag (word : List Char) : Word :=
  if isNegativeNumber word || word.contains ' ' then operand (String.ofList word) else unknown

/-- A word that begins with two dashes and is not the whole spelling of a flag. -/
def shortened (word : List Char) : Word :=
  match Flag.beginningWith (word.takeWhile (· ≠ '=')) with
  | [] => withoutFlag word
  | [flag] => if word.contains '=' then refused else flags [flag]
  | _ => ambiguous

/-- A word that begins with one dash and is not the whole spelling of a flag. -/
def bundled (word : List Char) (first : Char) (rest : List Char) : Word :=
  match Flag.ofSpelling? ['-', first], rest with
  | none, _ => withoutFlag word
  | some flag, '=' :: letters => sharing flag letters
  | some flag, letters => sharing flag letters

def of (text : String) : Word :=
  let word := text.toList
  match word with
  | '-' :: first :: rest =>
      match Flag.ofSpelling? word with
      | some flag => flags [flag]
      | none => if first = '-' then shortened word else bundled word first rest
  | _ => operand text

end Word

inductive TreeForm where
  | outline
  | document
deriving DecidableEq, Repr

/-- What the words so far ask for. -/
structure Selection where
  verbosity : Nat
  coloured : Bool
  form : Option TreeForm
  script : Option String
  /-- Whether a flag stands behind the script. -/
  flagBehindScript : Bool
  /-- Whether there was a word too many. -/
  surplus : Bool
deriving DecidableEq, Repr

inductive Halt where
  | help
  | misuse
deriving DecidableEq, Repr

namespace Selection

def initial : Selection := ⟨0, true, none, none, false, false⟩

/-- A form of tree asked for; it must be the only one. -/
def choose (selection : Selection) (form : TreeForm) : Except Halt Selection :=
  match selection.form with
  | none => .ok { selection with form := some form }
  | some chosen => if chosen = form then .ok selection else .error .misuse

def takeFlag (selection : Selection) : Flag → Except Halt Selection
  | .help => .error .help
  | .verbose => .ok { selection with verbosity := selection.verbosity + 1 }
  | .noColour => .ok { selection with coloured := false }
  | .showTree => selection.choose .outline
  | .writeTree => selection.choose .document

/-- The effect of an operand: the first is the script, and others are too many. -/
def takeOperand (selection : Selection) (text : String) : Selection :=
  match selection.script with
  | none => { selection with script := some text }
  | some _ => { selection with surplus := true }

def takeWord (selection : Selection) (word : Word) : Except Halt Selection := do
  match word with
  | .operand text => return selection.takeOperand text
  | .flags flags =>
      let after ← flags.foldlM takeFlag selection
      return { after with flagBehindScript := after.flagBehindScript || after.script.isSome }
  | .unknown => return { selection with surplus := true }
  | .refused | .ambiguous => throw .misuse

/-- The effect of the separator: it belongs to the script, so it is too many once a flag has followed
that. -/
def takeSeparator (selection : Selection) : Selection :=
  { selection with surplus := selection.surplus || selection.flagBehindScript }

end Selection

inductive Command where
  | help
  | misuse
  | prompt (verbosity : Nat) (coloured : Bool)
  | run (script : String) (verbosity : Nat) (coloured : Bool)
  | tree (form : TreeForm) (script : String) (coloured : Bool)
deriving DecidableEq, Repr

/-- The command that a selection makes. A tree needs a script. -/
def Selection.command (selection : Selection) : Command :=
  if selection.surplus then .misuse
  else
    match selection.form, selection.script with
    | none, none => .prompt selection.verbosity selection.coloured
    | none, some script => .run script selection.verbosity selection.coloured
    | some _, none => .misuse
    | some form, some script =>
        if script.isEmpty then .misuse else .tree form script selection.coloured

def Command.ofArguments (arguments : List String) : Command :=
  let words := (arguments.takeWhile (· ≠ "--")).map Word.of
  let selected : Except Halt Selection := do
    if words.contains .ambiguous then throw .misuse
    let selection ← words.foldlM Selection.takeWord Selection.initial
    match arguments.dropWhile (· ≠ "--") with
    | [] => return selection
    | _ :: operands => return operands.foldl Selection.takeOperand selection.takeSeparator
  match selected with
  | .ok selection => selection.command
  | .error .help => .help
  | .error .misuse => .misuse

def usage : String :=
  "usage: lox [-h] [-v] [--no-color] [--print-ast | --emit-ast] [script]\n"

def helpText : String :=
  usage ++
  "\nLox tree-walk interpreter\n" ++
  "\npositional arguments:\n" ++
  "  script       Lox script to run (interactive prompt if omitted)\n" ++
  "\noptions:\n" ++
  "  -h, --help   show this help message and exit\n" ++
  "  -v           increase debug verbosity (can be repeated)\n" ++
  "  --no-color   print diagnostics without colours\n" ++
  "  --print-ast  print the parsed AST instead of running\n" ++
  "  --emit-ast   write the parsed AST as JSON\n"

end LoxInterpreter.CommandLine
