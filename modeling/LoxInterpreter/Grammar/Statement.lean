import LoxInterpreter.Grammar.Expression
import LoxInterpreter.Tree.Equality

/-!
Contract: the grammar of statements and programs.

Declarations stand at the top level and in blocks and function bodies, plain statements everywhere.
A loop with a header of three clauses has no tree of its own: it is read as the equivalent loop with
a condition alone. A declaration that cannot be read is left out, and reading goes on at the next
statement boundary.

Owns: the parsers `statement` and `declaration`, and `read`, which reads a whole token list.
Does not own: expressions (`Grammar.Expression`).
-/

namespace LoxInterpreter.Grammar

def nameRule (role : NameRole) : Parser Name := do
  let token ← Parser.expect .identifier (.missingName role)
  return ⟨token.lexeme, token.line⟩

def expressionStatementRule (expression : Parser (Expression Unit)) : Parser (Statement Unit) := do
  let value ← expression
  let _ ← Parser.expectMark .semicolon .afterExpression
  return .expression value

def printRule (expression : Parser (Expression Unit)) : Parser (Statement Unit) := do
  let value ← expression
  let _ ← Parser.expectMark .semicolon .afterValue
  return .print value

/-- An expression, unless the given mark is at the front. -/
def optionalBefore (mark : Token.Kind) (expression : Parser (Expression Unit)) :
    Parser (Option (Expression Unit)) := do
  if ← Parser.nextIs mark then return none
  else return some (← expression)

def returnRule (expression : Parser (Expression Unit)) (line : Nat) : Parser (Statement Unit) := do
  let value ← optionalBefore .semicolon expression
  let _ ← Parser.expectMark .semicolon .afterReturnValue
  return .returning line value

def variableRule (expression : Parser (Expression Unit)) : Parser (Statement Unit) := do
  let name ← nameRule .variable
  let initializer ← do
    if ← Parser.accept .equal then pure (some (← expression)) else pure none
  let _ ← Parser.expectMark .semicolon .afterVariableDeclaration
  return .declaration name initializer

def whileRule (expression : Parser (Expression Unit)) (statement : Parser (Statement Unit)) :
    Parser (Statement Unit) := do
  let _ ← Parser.expectMark .leftParen .afterWhile
  let condition ← expression
  let _ ← Parser.expectMark .rightParen .afterCondition
  return .loop condition (← statement)

def conditionalRule (expression : Parser (Expression Unit)) (statement : Parser (Statement Unit)) :
    Parser (Statement Unit) := do
  let _ ← Parser.expectMark .leftParen .afterIf
  let condition ← expression
  let _ ← Parser.expectMark .rightParen .afterIfCondition
  let thenBranch ← statement
  if ← Parser.accept (.keyword .elseWord) then
    return .conditional condition thenBranch (some (← statement))
  else return .conditional condition thenBranch none

/-- The first clause of a loop header, with its semicolon. -/
def initializerRule (expression : Parser (Expression Unit)) :
    Parser (Option (Statement Unit)) := do
  if ← Parser.accept .semicolon then return none
  else if ← Parser.accept (.keyword .varWord) then return some (← variableRule expression)
  else return some (← expressionStatementRule expression)

/-- The loop that a header of three clauses stands for: the increment runs after the body, a missing
condition holds always, and the initializer has a scope around the loop. -/
def loopOfClauses (initializer : Option (Statement Unit)) (condition increment : Option (Expression Unit))
    (body : Statement Unit) : Statement Unit :=
  let repeated :=
    match increment with
    | none => body
    | some step => .block [body, .expression step]
  let loop := .loop (condition.getD (.constant (.boolean true))) repeated
  match initializer with
  | none => loop
  | some first => .block [first, loop]

def forRule (expression : Parser (Expression Unit)) (statement : Parser (Statement Unit)) :
    Parser (Statement Unit) := do
  let _ ← Parser.expectMark .leftParen .afterFor
  let initializer ← initializerRule expression
  let condition ← optionalBefore .semicolon expression
  let _ ← Parser.expectMark .semicolon .afterLoopCondition
  let increment ← optionalBefore .rightParen expression
  let _ ← Parser.expectMark .rightParen .afterForClauses
  let body ← statement
  return loopOfClauses initializer condition increment body

def blockRule (declaration : Parser (Option (Statement Unit))) (bound : Nat) :
    Parser (List (Statement Unit)) := do
  let atStop (tokens : List Token) : Bool :=
    (Parser.currentToken tokens).kind == .rightBrace || Parser.atEnd tokens
  let items ← Parser.many declaration atStop bound
  let _ ← Parser.expectMark .rightBrace .afterBlock
  return items

def functionRule (declaration : Parser (Option (Statement Unit))) (bound : Nat) :
    Parser (Statement Unit) := do
  let name ← nameRule .function
  let _ ← Parser.expectMark .leftParen .afterFunctionName
  let parameters ← Parser.list (nameRule .parameter) .tooManyParameters bound
  let _ ← Parser.expectMark .rightParen .afterParameters
  let _ ← Parser.expectMark .leftBrace .beforeFunctionBody
  return .function name parameters (← blockRule declaration bound)

/-- A statement that declares nothing. -/
def statementRule (expression : Parser (Expression Unit)) (nested : Parser (Statement Unit))
    (declaration : Parser (Option (Statement Unit))) (bound : Nat) : Parser (Statement Unit) := do
  if ← Parser.accept (.keyword .forWord) then forRule expression nested
  else if ← Parser.accept (.keyword .ifWord) then conditionalRule expression nested
  else if ← Parser.accept (.keyword .printWord) then printRule expression
  else if let some keyword ← Parser.accept? (.keyword .returnWord) then
    returnRule expression keyword.line
  else if ← Parser.accept (.keyword .whileWord) then whileRule expression nested
  else if ← Parser.accept .leftBrace then return .block (← blockRule declaration bound)
  else expressionStatementRule expression

/-- A statement, or the declaration of a function or variable. -/
def declarationRule (expression : Parser (Expression Unit)) (statement : Parser (Statement Unit))
    (nested : Parser (Option (Statement Unit))) (bound : Nat) : Parser (Statement Unit) := do
  if ← Parser.accept (.keyword .funWord) then functionRule nested bound
  else if ← Parser.accept (.keyword .varWord) then variableRule expression
  else statement

mutual

/-- A statement, for token lists of at most the given length. -/
def statement : (bound : Nat) → Parser (Statement Unit)
  | 0 => Parser.fail .missingExpression
  | bound + 1 => fun tokens =>
      statementRule (expression (bound + 1)) (statement bound) (declaration bound) (bound + 1) tokens

/-- A statement or declaration, for token lists of at most the given length. What cannot be read is
reported and skipped. -/
def declaration : (bound : Nat) → Parser (Option (Statement Unit))
  | 0 => (Parser.fail .missingExpression).recovering
  | bound + 1 => fun tokens =>
      let plain :=
        statementRule (expression (bound + 1)) (statement bound) (declaration bound) (bound + 1)
      (declarationRule (expression (bound + 1)) plain (declaration bound) (bound + 1)).recovering
        tokens

end

/-- All declarations up to the end, for token lists of at most the given length. -/
def program (bound : Nat) : Parser (List (Statement Unit)) :=
  Parser.many (declaration bound) Parser.atEnd bound

/-- What reading a token list gives: the statements that could be read, and every mistake. -/
structure Reading where
  statements : List (Statement Unit)
  errors : List SyntaxError
deriving DecidableEq, Repr

def read (tokens : List Token) : Reading :=
  let reply := program tokens.length tokens
  ⟨reply.value.getD [], reply.errors⟩

end LoxInterpreter.Grammar
