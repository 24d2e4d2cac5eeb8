import LoxInterpreter.Execution.Value

/-!
Contract: what operators do to values.

Numbers follow the rules of binary floating point, division by zero included. Plus also joins two
strings. Equality takes any operands.

Owns: `RuntimeError`, the faults of running programs, and the operators on one and two operands.
Does not own: the operators that may leave an operand unevaluated (`Execution.Evaluation`).
-/

namespace LoxInterpreter

inductive RuntimeError.Cause where
  | undefinedVariable (name : String)
  | operandNotNumber
  | operandsNotNumbers
  | operandsNotAddable
  | unknownUnaryOperator (symbol : String)
  | unknownBinaryOperator (symbol : String)
  | notCallable
  | wrongArgumentCount (expected given : Nat)
deriving DecidableEq, Repr

def RuntimeError.Cause.message : RuntimeError.Cause → String
  | undefinedVariable name => "Undefined variable '" ++ name ++ "'."
  | operandNotNumber => "Operand must be a number."
  | operandsNotNumbers => "Operands must be numbers."
  | operandsNotAddable => "Operands must be two numbers or two strings."
  | unknownUnaryOperator symbol => "Unknown unary operator '" ++ symbol ++ "'."
  | unknownBinaryOperator symbol => "Unknown operator '" ++ symbol ++ "'."
  | notCallable => "Can only call functions and classes."
  | wrongArgumentCount expected given => s!"Expected {expected} arguments but got {given}."

instance : Explained RuntimeError.Cause := ⟨RuntimeError.Cause.message⟩

/-- A fault of a running program, and the token at which it arose. -/
abbrev RuntimeError := Mistake RuntimeError.Cause

/-- What an operation gives, or why there is nothing to give. -/
abbrev Outcome (Known : Type := Binding) (Around : Type := Environment) :=
  Except RuntimeError.Cause (Value Known Around)

variable {Known Around : Type}

def Value.arithmetic (operation : Float → Float → Value Known Around) :
    Value Known Around → Value Known Around → Outcome Known Around
  | .number left, .number right => .ok (operation left right)
  | _, _ => .error .operandsNotNumbers

/-- The sum of two numbers, or two strings joined. -/
def Value.plus : Value Known Around → Value Known Around → Outcome Known Around
  | .number left, .number right => .ok (.number (left + right))
  | .string left, .string right => .ok (.string (left ++ right))
  | _, _ => .error .operandsNotAddable

def UnaryOperator.apply : UnaryOperator → Value Known Around → Outcome Known Around
  | not, operand => .ok (.boolean !operand.isTruthy)
  | negate, .number operand => .ok (.number (-operand))
  | negate, _ => .error .operandNotNumber

def BinaryOperator.apply :
    BinaryOperator → Value Known Around → Value Known Around → Outcome Known Around
  | equal, left, right => .ok (.boolean (left.equal right))
  | notEqual, left, right => .ok (.boolean !left.equal right)
  | add, left, right => left.plus right
  | subtract, left, right => Value.arithmetic (fun a b => .number (a - b)) left right
  | multiply, left, right => Value.arithmetic (fun a b => .number (a * b)) left right
  | divide, left, right => Value.arithmetic (fun a b => .number (a / b)) left right
  | greater, left, right => Value.arithmetic (fun a b => .boolean (a > b)) left right
  | greaterEqual, left, right => Value.arithmetic (fun a b => .boolean (a ≥ b)) left right
  | less, left, right => Value.arithmetic (fun a b => .boolean (a < b)) left right
  | lessEqual, left, right => Value.arithmetic (fun a b => .boolean (a ≤ b)) left right

/-- What any kind of token gives as an operator in front of an operand. -/
def Token.Kind.applyUnary (kind : Token.Kind) (operand : Value) : Outcome :=
  match UnaryOperator.ofKind? kind with
  | some operator => operator.apply operand
  | none => .error (.unknownUnaryOperator kind.symbol)

/-- What any kind of token gives as an operator between two operands. What is no operator is noticed
only when the operands are numbers. -/
def Token.Kind.applyBinary (kind : Token.Kind) (left right : Value) : Outcome :=
  match BinaryOperator.ofKind? kind with
  | some operator => operator.apply left right
  | none =>
      match left, right with
      | .number _, .number _ => .error (.unknownBinaryOperator kind.symbol)
      | _, _ => .error .operandsNotNumbers

end LoxInterpreter
