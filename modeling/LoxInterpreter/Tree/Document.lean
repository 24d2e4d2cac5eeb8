import LoxInterpreter.Document
import LoxInterpreter.Tree

/-!
Contract: trees as JSON documents.

Every construct is an object whose first field names it. Names carry their lines, calls the line of
their closing parenthesis, and returns the line of their word; operators, parameters and constants
carry no line. A part that may be missing is null where it is.

Owns: the document of expressions, statements and programs.
-/

namespace LoxInterpreter

/-- A constant stands for itself. -/
def Constant.document : Constant → Document
  | .nil => .null
  | .boolean value => .boolean value
  | .number value => .real value
  | .string value => .string value

def Name.document (name : Name) : Document :=
  .object [("lexeme", .string name.text), ("line", .whole name.line)]

/-- A construct with its fields, behind the one that names it. -/
def Document.construct (name : String) (fields : List (String × Document)) : Document :=
  .object (("type", .string name) :: fields)

mutual

def Expression.document {Reference : Type} : Expression Reference → Document
  | .constant value => .construct "Literal" [("value", value.document)]
  | .grouping inner => .construct "Grouping" [("expression", inner.document)]
  | .variable name _ => .construct "Variable" [("name", name.document)]
  | .assignment name _ value =>
      .construct "Assign" [("name", name.document), ("value", value.document)]
  | .unary operator _ operand =>
      .construct "Unary" [("operator", .string operator.kind.symbol), ("right", operand.document)]
  | .binary operator _ left right =>
      .construct "Binary" [("operator", .string operator.kind.symbol), ("left", left.document),
        ("right", right.document)]
  | .logical operator _ left right =>
      .construct "Logical" [("operator", .string operator.kind.symbol), ("left", left.document),
        ("right", right.document)]
  | .call callee arguments line =>
      .construct "Call" [("callee", callee.document),
        ("arguments", .array (Expression.documents arguments)), ("line", .whole line)]

def Expression.documents {Reference : Type} : List (Expression Reference) → List Document
  | [] => []
  | first :: rest => first.document :: Expression.documents rest

end

/-- An expression that may be missing; null stands for it then. -/
def Expression.optionalDocument {Reference : Type} : Option (Expression Reference) → Document
  | none => .null
  | some expression => expression.document

mutual

def Statement.document {Reference : Type} : Statement Reference → Document
  | .expression value => .construct "Expression" [("expression", value.document)]
  | .print value => .construct "Print" [("expression", value.document)]
  | .declaration name initializer =>
      .construct "Var" [("name", name.document),
        ("initializer", Expression.optionalDocument initializer)]
  | .function name parameters body =>
      .construct "Function" [("name", name.document),
        ("params", .array (parameters.map fun parameter => .string parameter.text)),
        ("body", .array (Statement.documents body))]
  | .block items => .construct "Block" [("statements", .array (Statement.documents items))]
  | .conditional condition thenBranch none =>
      .construct "If" [("condition", condition.document), ("then_branch", thenBranch.document),
        ("else_branch", .null)]
  | .conditional condition thenBranch (some elseBranch) =>
      .construct "If" [("condition", condition.document), ("then_branch", thenBranch.document),
        ("else_branch", elseBranch.document)]
  | .loop condition body =>
      .construct "While" [("condition", condition.document), ("body", body.document)]
  | .returning line value =>
      .construct "Return" [("line", .whole line), ("value", Expression.optionalDocument value)]

def Statement.documents {Reference : Type} : List (Statement Reference) → List Document
  | [] => []
  | first :: rest => first.document :: Statement.documents rest

end

/-- A program as a document: the array of its statements. -/
def Tree.programDocument {Reference : Type} (statements : List (Statement Reference)) : Document :=
  .array (Statement.documents statements)

end LoxInterpreter
