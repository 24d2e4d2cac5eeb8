import LoxInterpreter.Token

/-!
Contract: programs as trees.

Owns: names and operators with the lines on which they stand, expressions and statements. Both are
generic in what is known about a reference to a variable: nothing when a tree has just been read,
the place of its declaration once it has been resolved.
Does not own: reading trees from tokens (`Grammar`) and the two ways of showing them (`Tree.Outline`,
`Tree.Document`).
-/

namespace LoxInterpreter

structure Name where
  text : String
  line : Nat
deriving DecidableEq, Repr

/-- The token of a name, for reports about it. -/
def Name.token (name : Name) : Token := .ofName name.text name.line

inductive UnaryOperator where
  | negate
  | not
deriving DecidableEq, Repr

/-- Operators that evaluate both operands. -/
inductive BinaryOperator where
  | equal
  | notEqual
  | greater
  | greaterEqual
  | less
  | lessEqual
  | subtract
  | add
  | divide
  | multiply
deriving DecidableEq, Repr

/-- Operators that may leave their right operand alone. -/
inductive LogicalOperator where
  | and
  | or
deriving DecidableEq, Repr

/-- The kind of token that writes the operator. -/
def UnaryOperator.kind : UnaryOperator → Token.Kind
  | negate => .minus
  | not => .bang

/-- The operator that a kind of token writes in front of an operand. -/
def UnaryOperator.ofKind? : Token.Kind → Option UnaryOperator
  | .minus => some negate
  | .bang => some not
  | _ => none

def BinaryOperator.kind : BinaryOperator → Token.Kind
  | equal => .equalEqual
  | notEqual => .bangEqual
  | greater => .greater
  | greaterEqual => .greaterEqual
  | less => .less
  | lessEqual => .lessEqual
  | subtract => .minus
  | add => .plus
  | divide => .slash
  | multiply => .star

def BinaryOperator.ofKind? : Token.Kind → Option BinaryOperator
  | .equalEqual => some equal
  | .bangEqual => some notEqual
  | .greater => some greater
  | .greaterEqual => some greaterEqual
  | .less => some less
  | .lessEqual => some lessEqual
  | .minus => some subtract
  | .plus => some add
  | .slash => some divide
  | .star => some multiply
  | _ => none

def LogicalOperator.kind : LogicalOperator → Token.Kind
  | and => .keyword .andWord
  | or => .keyword .orWord

/-- An expression. A call keeps the line of its closing parenthesis. -/
inductive Expression (Reference : Type) where
  | constant (value : Constant)
  | grouping (inner : Expression Reference)
  | variable (name : Name) (reference : Reference)
  | assignment (name : Name) (reference : Reference) (value : Expression Reference)
  | unary (operator : UnaryOperator) (line : Nat) (operand : Expression Reference)
  | binary (operator : BinaryOperator) (line : Nat) (left right : Expression Reference)
  | logical (operator : LogicalOperator) (line : Nat) (left right : Expression Reference)
  | call (callee : Expression Reference) (arguments : List (Expression Reference)) (line : Nat)
deriving Repr

inductive Statement (Reference : Type) where
  | expression (value : Expression Reference)
  | print (value : Expression Reference)
  | declaration (name : Name) (initializer : Option (Expression Reference))
  | function (name : Name) (parameters : List Name) (body : List (Statement Reference))
  | block (items : List (Statement Reference))
  | conditional (condition : Expression Reference) (thenBranch : Statement Reference)
      (elseBranch : Option (Statement Reference))
  | loop (condition : Expression Reference) (body : Statement Reference)
  | returning (line : Nat) (value : Option (Expression Reference))
deriving Repr

end LoxInterpreter
