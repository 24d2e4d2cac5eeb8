import LoxInterpreter.Number.Style

/-!
Contract: the constants that source text can denote.

Owns: `Constant` and its plain text. Two constants are equal when they are of one kind and agree in
content, numbers bit for bit: NaN is equal to itself, and the two zeros differ.
Does not own: values that only a running program has (`Value`).
-/

namespace LoxInterpreter

inductive Constant where
  | nil
  | boolean (value : Bool)
  | number (value : Float)
  | string (value : String)
deriving DecidableEq, Repr

/-- A truth value as programs see it. -/
def booleanText (value : Bool) : String := if value then "true" else "false"

/-- A constant as a program would print it. -/
def Constant.text : Constant → String
  | .nil => "nil"
  | .boolean value => booleanText value
  | .number value => Number.text value
  | .string value => value

end LoxInterpreter
