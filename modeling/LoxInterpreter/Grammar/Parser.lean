import LoxInterpreter.Mistake

/-!
Contract: parsers that report mistakes and go on.

A parser looks at a token list and replies with a value, or with none when it had to give up; with
the mistakes that it noticed, in that order; and with the tokens that remain. A parser that gives up
has reported why. It takes its tokens from the front, so the list that remains is always an end of
the list it was given.

Owns: `Parser`, its sequencing, its primitives, bounded repetition, and `recovering`, which
turns giving up into a resumption at the next statement boundary.
Does not own: the grammar (`Grammar.Expression`, `Grammar.Statement`).
-/

namespace LoxInterpreter.Grammar

/-- Where a mark was expected. -/
inductive Site where
  | afterFor
  | afterLoopCondition
  | afterForClauses
  | afterIf
  | afterIfCondition
  | afterValue
  | afterReturnValue
  | afterVariableDeclaration
  | afterWhile
  | afterCondition
  | afterExpression
  | afterFunctionName
  | afterParameters
  | beforeFunctionBody
  | afterBlock
  | afterArguments
deriving DecidableEq, Repr

def Site.words : Site → String
  | afterFor => "after 'for'"
  | afterLoopCondition => "after loop condition"
  | afterForClauses => "after for clauses"
  | afterIf => "after 'if'"
  | afterIfCondition => "after if condition"
  | afterValue => "after value"
  | afterReturnValue => "after return value"
  | afterVariableDeclaration => "after variable declaration"
  | afterWhile => "after 'while'"
  | afterCondition => "after condition"
  | afterExpression => "after expression"
  | afterFunctionName => "after function name"
  | afterParameters => "after parameters"
  | beforeFunctionBody => "before function body"
  | afterBlock => "after block"
  | afterArguments => "after arguments"

inductive NameRole where
  | variable
  | function
  | parameter
deriving DecidableEq, Repr

def NameRole.words : NameRole → String
  | .variable => "variable"
  | .function => "function"
  | .parameter => "parameter"

/-- How many arguments a call, and how many parameters a function, may have. -/
def itemLimit : Nat := 255

inductive SyntaxError.Cause where
  | missingExpression
  | missingMark (mark : Token.Kind) (site : Site)
  | missingName (role : NameRole)
  | tooManyArguments
  | tooManyParameters
  | invalidAssignmentTarget
deriving DecidableEq, Repr

def SyntaxError.Cause.message : SyntaxError.Cause → String
  | missingExpression => "Expect expression."
  | missingMark mark site => "Expect '" ++ mark.symbol ++ "' " ++ site.words ++ "."
  | missingName role => "Expect " ++ role.words ++ " name."
  | tooManyArguments => s!"Can't have more than {itemLimit} arguments."
  | tooManyParameters => s!"Can't have more than {itemLimit} parameters."
  | invalidAssignmentTarget => "Invalid assignment target."

instance : Explained SyntaxError.Cause := ⟨SyntaxError.Cause.message⟩

abbrev SyntaxError := Mistake SyntaxError.Cause

structure Reply (α : Type) where
  value : Option α
  errors : List SyntaxError
  rest : List Token
deriving Repr

def Parser (α : Type) := List Token → Reply α

namespace Parser

variable {α β : Type}

protected def pure (value : α) : Parser α := fun tokens => ⟨some value, [], tokens⟩

/-- Runs one parser, and on the tokens that remain the one that its value chooses. -/
protected def bind (first : Parser α) (next : α → Parser β) : Parser β := fun tokens =>
  let reply := first tokens
  match reply.value with
  | none => ⟨none, reply.errors, reply.rest⟩
  | some value =>
      let later := next value reply.rest
      ⟨later.value, reply.errors ++ later.errors, later.rest⟩

instance : Monad Parser where
  pure := Parser.pure
  bind := Parser.bind

/-- The token at the front. A list without one counts as ended. -/
def currentToken (tokens : List Token) : Token := tokens.headD (Token.closing 0)

/-- Whether no token is left but the closing one. -/
def atEnd (tokens : List Token) : Bool := (currentToken tokens).kind == .endOfInput

def nextIs (kind : Token.Kind) : Parser Bool := fun tokens =>
  ⟨some ((currentToken tokens).kind == kind), [], tokens⟩

/-- Notes a mistake at a token, and goes on. -/
def report (cause : SyntaxError.Cause) (token : Token) : Parser Unit := fun tokens =>
  ⟨some (), [⟨cause, token⟩], tokens⟩

def reportHere (cause : SyntaxError.Cause) : Parser Unit := fun tokens =>
  ⟨some (), [⟨cause, currentToken tokens⟩], tokens⟩

/-- Notes a mistake at the token at the front, and gives up. -/
def fail (cause : SyntaxError.Cause) : Parser α := fun tokens =>
  ⟨none, [⟨cause, currentToken tokens⟩], tokens⟩

/-- Takes the token at the front if it is chosen. The closing token is never taken. -/
def take? (choose : Token → Option α) : Parser (Option α) := fun tokens =>
  match tokens with
  | [] => ⟨some none, [], []⟩
  | token :: rest =>
      if token.kind == .endOfInput then ⟨some none, [], token :: rest⟩
      else
        match choose token with
        | none => ⟨some none, [], token :: rest⟩
        | some value => ⟨some (some value), [], rest⟩

def accept? (kind : Token.Kind) : Parser (Option Token) :=
  take? fun token => if token.kind == kind then some token else none

/-- Whether a token of the given kind was at the front; it is then taken. -/
def accept (kind : Token.Kind) : Parser Bool := do
  return (← accept? kind).isSome

def expect (kind : Token.Kind) (cause : SyntaxError.Cause) : Parser Token := do
  match ← accept? kind with
  | some token => return token
  | none => fail cause

def expectMark (mark : Token.Kind) (site : Site) : Parser Token :=
  expect mark (.missingMark mark site)

/-- Grows a value step by step, at most `bound` times, until a step adds nothing. -/
def grow (step : α → Parser (Option α)) : (bound : Nat) → α → Parser α
  | 0, value => pure value
  | bound + 1, value => do
      match ← step value with
      | some grown => grow step bound grown
      | none => return value

/-- Items with commas between them, of which `count` came before. An item past the limit is
reported, and read. -/
def commaSeparated (item : Parser α) (excess : SyntaxError.Cause) :
    (bound count : Nat) → Parser (List α)
  | 0, _ => return []
  | bound + 1, count => do
      if itemLimit ≤ count then reportHere excess
      let first ← item
      if ← accept .comma then
        return first :: (← commaSeparated item excess bound (count + 1))
      else return [first]

/-- Items with commas between them up to a closing parenthesis, which is not taken; perhaps none. -/
def list (item : Parser α) (excess : SyntaxError.Cause) (bound : Nat) : Parser (List α) := do
  if ← nextIs .rightParen then return []
  else commaSeparated item excess bound 0

/-- Optional items one after another, at most `bound` of them, until the remaining tokens say stop. -/
def many (item : Parser (Option α)) (stop : List Token → Bool) : (bound : Nat) → Parser (List α)
  | 0 => return []
  | bound + 1 => fun tokens =>
      if stop tokens then ⟨some [], [], tokens⟩
      else
        let parser : Parser (List α) := do
          let first ← item
          return first.toList ++ (← many item stop bound)
        parser tokens

end Parser

def startsStatement (token : Token) : Bool :=
  match token.kind with
  | .keyword word => word.startsStatement
  | _ => false

/-- The tokens from the next statement boundary on, given the token before them: behind a semicolon,
in front of a word that begins a statement, or at the end. -/
def boundaryAfter (previous : Token) : List Token → List Token
  | [] => []
  | token :: rest =>
      if Parser.atEnd (token :: rest) || previous.kind == .semicolon || startsStatement token then
        token :: rest
      else boundaryAfter token rest

/-- Where to go on after a mistake: one token is skipped, then all up to a statement boundary. -/
def resumption : List Token → List Token
  | [] => []
  | token :: rest =>
      if Parser.atEnd (token :: rest) then token :: rest else boundaryAfter token rest

/-- Where a parser gives up, replies that nothing was read and goes on at the resumption. -/
def Parser.recovering {α : Type} (parser : Parser α) : Parser (Option α) := fun tokens =>
  let reply := parser tokens
  match reply.value with
  | some value => ⟨some (some value), reply.errors, reply.rest⟩
  | none => ⟨some none, reply.errors, resumption reply.rest⟩

end LoxInterpreter.Grammar
