import LoxInterpreter.Grammar.Parser
import LoxInterpreter.Tree

/-!
Contract: the grammar of expressions.

From loosest to tightest: assignment, which groups to the right; the six levels of operators on two
operands, which group to the left; operators on one operand; calls; and what stands for itself or in
parentheses.

Every rule is a function of the parsers for what is nested in it. What is nested stands behind at
least one token of its own rule, so a bound on the nesting that starts at the length of the token
list is never met.

Owns: `Level`, and the parsers `unary` and `expression`.
Does not own: statements (`Grammar.Statement`).
-/

namespace LoxInterpreter

inductive Grammar.Level where
  | disjunction
  | conjunction
  | equality
  | comparison
  | sum
  | product
deriving DecidableEq, Repr

def BinaryOperator.level : BinaryOperator → Grammar.Level
  | equal | notEqual => .equality
  | greater | greaterEqual | less | lessEqual => .comparison
  | subtract | add => .sum
  | divide | multiply => .product

namespace Grammar

/-- The levels from loosest to tightest. -/
def Level.all : List Level := [disjunction, conjunction, equality, comparison, sum, product]

/-- What a token of the level builds from its two operands. -/
def Level.build? (level : Level) (token : Token) :
    Option (Expression Unit → Expression Unit → Expression Unit) :=
  match level, token.kind with
  | disjunction, .keyword .orWord => some (.logical .or token.line)
  | conjunction, .keyword .andWord => some (.logical .and token.line)
  | level, kind =>
      match BinaryOperator.ofKind? kind with
      | some operator => if operator.level = level then some (.binary operator token.line) else none
      | none => none

/-- What a single token denotes, where it denotes an expression. -/
def atom? (token : Token) : Option (Expression Unit) :=
  match token.kind with
  | .keyword .falseWord => some (.constant (.boolean false))
  | .keyword .trueWord => some (.constant (.boolean true))
  | .keyword .nilWord => some (.constant .nil)
  | .number value => some (.constant (.number value))
  | .string value => some (.constant (.string value))
  | .identifier => some (.variable ⟨token.lexeme, token.line⟩ ())
  | _ => none

def unaryOperator? (token : Token) : Option (UnaryOperator × Nat) :=
  (UnaryOperator.ofKind? token.kind).map fun operator => (operator, token.line)

def primaryRule (nested : Parser (Expression Unit)) : Parser (Expression Unit) := do
  match ← Parser.take? atom? with
  | some atom => return atom
  | none =>
      if ← Parser.accept .leftParen then
        let inner ← nested
        let _ ← Parser.expectMark .rightParen .afterExpression
        return .grouping inner
      else Parser.fail .missingExpression

/-- One pair of parentheses with arguments, behind what is called. -/
def callStep (nested : Parser (Expression Unit)) (bound : Nat) (callee : Expression Unit) :
    Parser (Option (Expression Unit)) := do
  if ← Parser.accept .leftParen then
    let arguments ← Parser.list nested .tooManyArguments bound
    let closing ← Parser.expectMark .rightParen .afterArguments
    return some (.call callee arguments closing.line)
  else return none

def callRule (nested : Parser (Expression Unit)) (bound : Nat) : Parser (Expression Unit) := do
  Parser.grow (callStep nested bound) bound (← primaryRule nested)

def unaryRule (nestedUnary nested : Parser (Expression Unit)) (bound : Nat) :
    Parser (Expression Unit) := do
  match ← Parser.take? unaryOperator? with
  | some (operator, line) => return .unary operator line (← nestedUnary)
  | none => callRule nested bound

/-- One operator of a level with its right operand, behind the left one. -/
def operatorStep (level : Level) (operand : Parser (Expression Unit)) (left : Expression Unit) :
    Parser (Option (Expression Unit)) := do
  match ← Parser.take? level.build? with
  | some build => return some (build left (← operand))
  | none => return none

/-- Operands of the tighter levels with operators of the first level between them. -/
def operatorsRule (operand : Parser (Expression Unit)) (bound : Nat) :
    List Level → Parser (Expression Unit)
  | [] => operand
  | level :: tighter => do
      let tighterOperand := operatorsRule operand bound tighter
      Parser.grow (operatorStep level tighterOperand) bound (← tighterOperand)

/-- An expression, with what is assigned to it. What is no name cannot be assigned to: that is
reported once the value has been read, and the value is dropped. -/
def assignmentRule (operand nested : Parser (Expression Unit)) (bound : Nat) :
    Parser (Expression Unit) := do
  let target ← operatorsRule operand bound Level.all
  match ← Parser.accept? .equal with
  | none => return target
  | some equals =>
      let value ← nested
      match target with
      | .variable name reference => return .assignment name reference value
      | _ =>
          Parser.report .invalidAssignmentTarget equals
          return target

mutual

/-- An operand of the tightest operators, for token lists of at most the given length. -/
def unary : (bound : Nat) → Parser (Expression Unit)
  | 0 => Parser.fail .missingExpression
  | bound + 1 => fun tokens => unaryRule (unary bound) (expression bound) (bound + 1) tokens

def expression : (bound : Nat) → Parser (Expression Unit)
  | 0 => Parser.fail .missingExpression
  | bound + 1 => fun tokens =>
      let operand := unaryRule (unary bound) (expression bound) (bound + 1)
      assignmentRule operand (expression bound) (bound + 1) tokens

end

end Grammar

end LoxInterpreter
