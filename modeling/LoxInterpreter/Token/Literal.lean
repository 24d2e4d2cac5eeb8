import LoxInterpreter.Text.Quoted
import LoxInterpreter.Token

/-!
Contract: the literal that a token carries, and its two written forms.

Owns: `Literal`, its plain form and its quoted form, and the one-line description of a token.
Equality of literals is that of their kinds and contents, numbers bit for bit.
-/

namespace LoxInterpreter

/-- A literal: the text of an identifier, or a constant. -/
inductive Literal where
  | identifier (name : String)
  | constant (value : Constant)
deriving DecidableEq, Repr

namespace Literal

def text : Literal → String
  | identifier name => name
  | constant value => value.text

/-- The quoted form of a literal, which names its kind. -/
def description : Literal → String
  | identifier name => "Literal(IDENTIFIER, " ++ Text.quoted name ++ ")"
  | constant .nil => "Literal.NIL"
  | constant (.boolean value) => "Literal(BOOL, " ++ (if value then "True" else "False") ++ ")"
  | constant (.number value) => "Literal(NUMBER, " ++ Number.Style.quoted.render value ++ ")"
  | constant (.string value) => "Literal(STRING, " ++ Text.quoted value ++ ")"

/-- How many different literals two of them are. -/
def countDistinct (first second : Literal) : Nat := [first, second].eraseDups.length

end Literal

namespace Token

/-- The literal that a token carries; the tokens without one carry nil. -/
def literal (token : Token) : Literal :=
  match token.kind with
  | .identifier => .identifier token.lexeme
  | .string value => .constant (.string value)
  | .number value => .constant (.number value)
  | _ => .constant .nil

def description (token : Token) : String :=
  token.kind.name ++ " " ++ token.lexeme ++ " " ++ token.literal.text

end Token

end LoxInterpreter
