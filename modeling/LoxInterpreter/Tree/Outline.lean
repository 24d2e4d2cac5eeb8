import LoxInterpreter.Tree

/-!
Contract: trees on one line, in parentheses, each construct named in front of its parts.

Owns: the outline of expressions and statements. Strings stand in double quotes, without escapes;
lines and references are not shown.
-/

namespace LoxInterpreter.Tree

/-- A construct with its parts. No blank follows its name where the parts show nothing. -/
def construct (name : String) (parts : List String) : String :=
  let inner := String.intercalate " " parts
  if inner.isEmpty then "(" ++ name ++ ")" else "(" ++ name ++ " " ++ inner ++ ")"

/-- A constant, strings in quotes. -/
def constantOutline : Constant → String
  | .string value => "\"" ++ value ++ "\""
  | value => value.text

end LoxInterpreter.Tree

namespace LoxInterpreter

open LoxInterpreter.Tree

mutual

def Expression.outline {Reference : Type} : Expression Reference → String
  | .constant value => constantOutline value
  | .grouping inner => construct "group" [inner.outline]
  | .variable name _ => name.text
  | .assignment name _ value => "(= " ++ name.text ++ " " ++ value.outline ++ ")"
  | .unary operator _ operand => construct operator.kind.symbol [operand.outline]
  | .binary operator _ left right => construct operator.kind.symbol [left.outline, right.outline]
  | .logical operator _ left right => construct operator.kind.symbol [left.outline, right.outline]
  | .call callee arguments _ => construct "call" (callee.outline :: Expression.outlines arguments)

def Expression.outlines {Reference : Type} : List (Expression Reference) → List String
  | [] => []
  | first :: rest => first.outline :: Expression.outlines rest

end

mutual

def Statement.outline {Reference : Type} : Statement Reference → String
  | .expression value => "(; " ++ value.outline ++ ")"
  | .print value => construct "print" [value.outline]
  | .declaration name none => "(var " ++ name.text ++ ")"
  | .declaration name (some value) => "(var " ++ name.text ++ " " ++ value.outline ++ ")"
  | .function name parameters body =>
      let header := name.text ++ " (" ++ String.intercalate " " (parameters.map Name.text) ++ ")"
      construct ("fun " ++ header) (Statement.outlines body)
  | .block items => construct "block" (Statement.outlines items)
  | .conditional condition thenBranch none =>
      construct "if" [condition.outline, thenBranch.outline]
  | .conditional condition thenBranch (some elseBranch) =>
      construct "if" [condition.outline, thenBranch.outline, elseBranch.outline]
  | .loop condition body => construct "while" [condition.outline, body.outline]
  | .returning _ none => "(return)"
  | .returning _ (some value) => construct "return" [value.outline]

def Statement.outlines {Reference : Type} : List (Statement Reference) → List String
  | [] => []
  | first :: rest => first.outline :: Statement.outlines rest

end

end LoxInterpreter
