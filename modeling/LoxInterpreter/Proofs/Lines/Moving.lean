import Mathlib.Logic.Basic
import LoxInterpreter.Tree
import LoxInterpreter.Mistake

/-!
Contract: tokens, names and trees on other lines.

Moving changes the lines of a tree, each by the same function, and nothing else.

Owns: `moveLine` of tokens, names and mistakes, `moveLines` of expressions and statements, and that
moving twice is moving once.
Does not own: values and machines on other lines (`Proofs.Lines.Values`).
-/

namespace LoxInterpreter

/-- A token on another line. -/
def Token.moveLine (move : Nat → Nat) (token : Token) : Token := { token with line := move token.line }

/-- A name on another line. -/
def Name.moveLine (move : Nat → Nat) (name : Name) : Name := { name with line := move name.line }

/-- A mistake at a token on another line. -/
def Mistake.moveLine {Cause : Type} (move : Nat → Nat) (mistake : Mistake Cause) : Mistake Cause :=
  { mistake with token := mistake.token.moveLine move }

@[simp] theorem Token.kind_moveLine (move : Nat → Nat) (token : Token) :
    (token.moveLine move).kind = token.kind := rfl

@[simp] theorem Name.text_moveLine (move : Nat → Nat) (name : Name) :
    (name.moveLine move).text = name.text := rfl

variable {Known : Type}

mutual

/-- An expression on other lines. -/
def Expression.moveLines (move : Nat → Nat) : Expression Known → Expression Known
  | .constant value => .constant value
  | .grouping inner => .grouping (inner.moveLines move)
  | .variable name known => .variable (name.moveLine move) known
  | .assignment name known value => .assignment (name.moveLine move) known (value.moveLines move)
  | .unary operator line operand => .unary operator (move line) (operand.moveLines move)
  | .binary operator line left right =>
      .binary operator (move line) (left.moveLines move) (right.moveLines move)
  | .logical operator line left right =>
      .logical operator (move line) (left.moveLines move) (right.moveLines move)
  | .call callee arguments line =>
      .call (callee.moveLines move) (Expression.listMoveLines move arguments) (move line)

/-- Expressions on other lines. -/
def Expression.listMoveLines (move : Nat → Nat) : List (Expression Known) → List (Expression Known)
  | [] => []
  | first :: rest => first.moveLines move :: Expression.listMoveLines move rest

end

mutual

/-- A statement on other lines. -/
def Statement.moveLines (move : Nat → Nat) : Statement Known → Statement Known
  | .expression value => .expression (value.moveLines move)
  | .print value => .print (value.moveLines move)
  | .declaration name initializer =>
      .declaration (name.moveLine move) (initializer.map (·.moveLines move))
  | .function name parameters body =>
      .function (name.moveLine move) (parameters.map (·.moveLine move))
        (Statement.listMoveLines move body)
  | .block items => .block (Statement.listMoveLines move items)
  | .conditional condition thenBranch none =>
      .conditional (condition.moveLines move) (thenBranch.moveLines move) none
  | .conditional condition thenBranch (some elseBranch) =>
      .conditional (condition.moveLines move) (thenBranch.moveLines move)
        (some (elseBranch.moveLines move))
  | .loop condition body => .loop (condition.moveLines move) (body.moveLines move)
  | .returning line value => .returning (move line) (value.map (·.moveLines move))

/-- Statements on other lines. -/
def Statement.listMoveLines (move : Nat → Nat) : List (Statement Known) → List (Statement Known)
  | [] => []
  | first :: rest => first.moveLines move :: Statement.listMoveLines move rest

end

theorem Expression.listMoveLines_eq_map (move : Nat → Nat) (expressions : List (Expression Known)) :
    Expression.listMoveLines move expressions = expressions.map (·.moveLines move) := by
  induction expressions with
  | nil => rfl
  | cons first rest inductionHypothesis =>
      rw [Expression.listMoveLines, inductionHypothesis, List.map_cons]

theorem Statement.listMoveLines_eq_map (move : Nat → Nat) (statements : List (Statement Known)) :
    Statement.listMoveLines move statements = statements.map (·.moveLines move) := by
  induction statements with
  | nil => rfl
  | cons first rest inductionHypothesis =>
      rw [Statement.listMoveLines, inductionHypothesis, List.map_cons]

/-! ## Moving twice -/

section Twice

variable {first second third : Nat → Nat}

theorem Name.moveLine_moveLine (agree : ∀ line, second (first line) = third line) (name : Name) :
    (name.moveLine first).moveLine second = name.moveLine third := by
  simp only [Name.moveLine, agree]

mutual

/-- Moving twice is moving once. -/
theorem Expression.moveLines_moveLines (agree : ∀ line, second (first line) = third line) :
    (expression : Expression Known) →
    (expression.moveLines first).moveLines second = expression.moveLines third
  | .constant _ => rfl
  | .grouping inner => congrArg Expression.grouping (inner.moveLines_moveLines agree)
  | .variable name known => by
      simp only [Expression.moveLines, name.moveLine_moveLine agree]
  | .assignment name known value => by
      simp only [Expression.moveLines, name.moveLine_moveLine agree, value.moveLines_moveLines agree]
  | .unary operator line operand => by
      simp only [Expression.moveLines, agree, operand.moveLines_moveLines agree]
  | .binary operator line left right => by
      simp only [Expression.moveLines, agree, left.moveLines_moveLines agree,
        right.moveLines_moveLines agree]
  | .logical operator line left right => by
      simp only [Expression.moveLines, agree, left.moveLines_moveLines agree,
        right.moveLines_moveLines agree]
  | .call callee arguments line => by
      simp only [Expression.moveLines, agree, callee.moveLines_moveLines agree,
        Expression.listMoveLines_listMoveLines agree arguments]

theorem Expression.listMoveLines_listMoveLines (agree : ∀ line, second (first line) = third line) :
    (expressions : List (Expression Known)) →
    Expression.listMoveLines second (Expression.listMoveLines first expressions) =
      Expression.listMoveLines third expressions
  | [] => rfl
  | front :: rest => by
      simp only [Expression.listMoveLines, front.moveLines_moveLines agree,
        Expression.listMoveLines_listMoveLines agree rest]

end

theorem Expression.map_moveLines_moveLines (agree : ∀ line, second (first line) = third line)
    (value : Option (Expression Known)) :
    (value.map (·.moveLines first)).map (·.moveLines second) = value.map (·.moveLines third) := by
  cases value with
  | none => rfl
  | some value => exact congrArg some (value.moveLines_moveLines agree)

theorem Name.map_moveLine_moveLine (agree : ∀ line, second (first line) = third line)
    (names : List Name) :
    (names.map (·.moveLine first)).map (·.moveLine second) = names.map (·.moveLine third) := by
  rw [List.map_map]
  exact List.map_congr_left fun name _ => name.moveLine_moveLine agree

mutual

/-- Moving twice is moving once. -/
theorem Statement.moveLines_moveLines (agree : ∀ line, second (first line) = third line) :
    (statement : Statement Known) →
    (statement.moveLines first).moveLines second = statement.moveLines third
  | .expression value => congrArg Statement.expression (value.moveLines_moveLines agree)
  | .print value => congrArg Statement.print (value.moveLines_moveLines agree)
  | .declaration name initializer => by
      simp only [Statement.moveLines, name.moveLine_moveLine agree,
        Expression.map_moveLines_moveLines agree]
  | .function name parameters body => by
      simp only [Statement.moveLines, name.moveLine_moveLine agree, Name.map_moveLine_moveLine agree,
        Statement.listMoveLines_listMoveLines agree body]
  | .block items => congrArg Statement.block (Statement.listMoveLines_listMoveLines agree items)
  | .conditional condition thenBranch none => by
      simp only [Statement.moveLines, condition.moveLines_moveLines agree,
        thenBranch.moveLines_moveLines agree]
  | .conditional condition thenBranch (some elseBranch) => by
      simp only [Statement.moveLines, condition.moveLines_moveLines agree,
        thenBranch.moveLines_moveLines agree, elseBranch.moveLines_moveLines agree]
  | .loop condition body => by
      simp only [Statement.moveLines, condition.moveLines_moveLines agree,
        body.moveLines_moveLines agree]
  | .returning line value => by
      simp only [Statement.moveLines, agree, Expression.map_moveLines_moveLines agree]

theorem Statement.listMoveLines_listMoveLines (agree : ∀ line, second (first line) = third line) :
    (statements : List (Statement Known)) →
    Statement.listMoveLines second (Statement.listMoveLines first statements) =
      Statement.listMoveLines third statements
  | [] => rfl
  | front :: rest => by
      simp only [Statement.listMoveLines, front.moveLines_moveLines agree,
        Statement.listMoveLines_listMoveLines agree rest]

end

end Twice

/-! ## Moving to the same lines -/

mutual

theorem Expression.moveLines_id : (expression : Expression Known) → expression.moveLines id = expression
  | .constant _ => rfl
  | .grouping inner => congrArg Expression.grouping inner.moveLines_id
  | .variable _ _ => rfl
  | .assignment name known value => congrArg (Expression.assignment name known) value.moveLines_id
  | .unary operator line operand => congrArg (Expression.unary operator line) operand.moveLines_id
  | .binary operator line left right =>
      congrArg₂ (Expression.binary operator line) left.moveLines_id right.moveLines_id
  | .logical operator line left right =>
      congrArg₂ (Expression.logical operator line) left.moveLines_id right.moveLines_id
  | .call callee arguments line =>
      congrArg₂ (Expression.call · · line) callee.moveLines_id (Expression.listMoveLines_id arguments)

theorem Expression.listMoveLines_id : (expressions : List (Expression Known)) →
    Expression.listMoveLines id expressions = expressions
  | [] => rfl
  | first :: rest => congrArg₂ List.cons first.moveLines_id (Expression.listMoveLines_id rest)

end

theorem Expression.map_moveLines_id (value : Option (Expression Known)) :
    value.map (·.moveLines id) = value := by
  cases value with
  | none => rfl
  | some value => exact congrArg some value.moveLines_id

mutual

theorem Statement.moveLines_id : (statement : Statement Known) → statement.moveLines id = statement
  | .expression value => congrArg Statement.expression value.moveLines_id
  | .print value => congrArg Statement.print value.moveLines_id
  | .declaration name initializer =>
      congrArg (Statement.declaration name) (Expression.map_moveLines_id initializer)
  | .function name parameters body =>
      congrArg₂ (Statement.function name) (List.map_id parameters) (Statement.listMoveLines_id body)
  | .block items => congrArg Statement.block (Statement.listMoveLines_id items)
  | .conditional condition thenBranch none =>
      congrArg₂ (Statement.conditional · · none) condition.moveLines_id thenBranch.moveLines_id
  | .conditional condition thenBranch (some elseBranch) => by
      rw [Statement.moveLines, condition.moveLines_id, thenBranch.moveLines_id, elseBranch.moveLines_id]
  | .loop condition body => congrArg₂ Statement.loop condition.moveLines_id body.moveLines_id
  | .returning line value => congrArg (Statement.returning line) (Expression.map_moveLines_id value)

theorem Statement.listMoveLines_id : (statements : List (Statement Known)) →
    Statement.listMoveLines id statements = statements
  | [] => rfl
  | first :: rest => congrArg₂ List.cons first.moveLines_id (Statement.listMoveLines_id rest)

end

end LoxInterpreter
