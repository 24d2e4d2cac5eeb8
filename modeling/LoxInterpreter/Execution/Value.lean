import LoxInterpreter.Execution.Store
import LoxInterpreter.Scope.Resolution
import LoxInterpreter.Tree.Equality

/-!
Contract: the values of running programs.

A function has its body and what is around its declaration. Values are generic in what is known of the
references in bodies, and in what an environment is: only calls look into either.

Owns: `Value`, functions with the environments in which they were declared, the text of values, which
of them count as true, and when two are equal. Values of different kinds are never equal; numbers are
equal as numbers, so that NaN differs from itself; a function is equal to itself alone, whatever other
functions look like.
Does not own: operators (`Execution.Operation`).
-/

namespace LoxInterpreter

/-- A function declared in source text, with the environment of its declaration. Each time a
declaration is executed, its function gets a new identity. -/
structure Closure (Known : Type := Binding) (Around : Type := Environment) where
  identity : Nat
  name : String
  parameters : List Name
  body : List (Statement Known)
  environment : Around
deriving DecidableEq

/-- A function that is part of the language. -/
inductive Native where
  | clock
deriving DecidableEq, Repr

inductive Value (Known : Type := Binding) (Around : Type := Environment) where
  | nil
  | boolean (value : Bool)
  | number (value : Float)
  | string (value : String)
  | closure (function : Closure Known Around)
  | native (function : Native)
deriving DecidableEq

def Native.name : Native → String
  | .clock => "clock"

def Native.arity : Native → Nat
  | .clock => 0

def Native.all : List Native := [.clock]

variable {Known Around : Type}

def Closure.arity (function : Closure Known Around) : Nat := function.parameters.length

def Constant.value : Constant → Value Known Around
  | .nil => .nil
  | .boolean value => .boolean value
  | .number value => .number value
  | .string value => .string value

namespace Value

/-- A value as programs print it. -/
def text : Value Known Around → String
  | nil => "nil"
  | boolean value => booleanText value
  | number value => Number.text value
  | string value => value
  | closure function => "<fn " ++ function.name ++ ">"
  | native _ => "<native fn>"

/-- Whether a value counts as true: all but nil and false do. -/
def isTruthy : Value Known Around → Bool
  | nil => false
  | boolean value => value
  | _ => true

def equal : Value Known Around → Value Known Around → Bool
  | nil, nil => true
  | boolean first, boolean second => first == second
  | number first, number second => first == second
  | string first, string second => first == second
  | closure first, closure second => first.identity == second.identity
  | native first, native second => first == second
  | _, _ => false

end Value

end LoxInterpreter
