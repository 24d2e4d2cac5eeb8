import LoxInterpreter.Tree

/-!
Contract: the references of a tree.

Owns: the list of the references in a tree, in the order in which they are written; the change of
what is known about each; and `annotate`, which hands out what is known in the order in which
references are decided: the value of an assignment comes before its target.
-/

namespace LoxInterpreter

/-- A use of a name, with what is known about it. -/
structure Reference (Known : Type) where
  isAssignment : Bool
  name : Name
  known : Known
deriving Repr

mutual

/-- The references of an expression, in written order. -/
def Expression.references {Known : Type} : Expression Known → List (Reference Known)
  | .constant _ => []
  | .grouping inner => inner.references
  | .variable name known => [⟨false, name, known⟩]
  | .assignment name known value => ⟨true, name, known⟩ :: value.references
  | .unary _ _ operand => operand.references
  | .binary _ _ left right => left.references ++ right.references
  | .logical _ _ left right => left.references ++ right.references
  | .call callee arguments _ => callee.references ++ Expression.listReferences arguments

def Expression.listReferences {Known : Type} : List (Expression Known) → List (Reference Known)
  | [] => []
  | first :: rest => first.references ++ Expression.listReferences rest

end

def Expression.optionalReferences {Known : Type} :
    Option (Expression Known) → List (Reference Known)
  | none => []
  | some expression => expression.references

mutual

/-- The references of a statement, those in function bodies included. -/
def Statement.references {Known : Type} : Statement Known → List (Reference Known)
  | .expression value => value.references
  | .print value => value.references
  | .declaration _ initializer => Expression.optionalReferences initializer
  | .function _ _ body => Statement.listReferences body
  | .block items => Statement.listReferences items
  | .conditional condition thenBranch none => condition.references ++ thenBranch.references
  | .conditional condition thenBranch (some elseBranch) =>
      condition.references ++ thenBranch.references ++ elseBranch.references
  | .loop condition body => condition.references ++ body.references
  | .returning _ value => Expression.optionalReferences value

def Statement.listReferences {Known : Type} : List (Statement Known) → List (Reference Known)
  | [] => []
  | first :: rest => first.references ++ Statement.listReferences rest

end

mutual

/-- An expression with something else known about each reference. -/
def Expression.mapKnown {Known Other : Type} (change : Known → Other) :
    Expression Known → Expression Other
  | .constant value => .constant value
  | .grouping inner => .grouping (inner.mapKnown change)
  | .variable name known => .variable name (change known)
  | .assignment name known value => .assignment name (change known) (value.mapKnown change)
  | .unary operator line operand => .unary operator line (operand.mapKnown change)
  | .binary operator line left right =>
      .binary operator line (left.mapKnown change) (right.mapKnown change)
  | .logical operator line left right =>
      .logical operator line (left.mapKnown change) (right.mapKnown change)
  | .call callee arguments line =>
      .call (callee.mapKnown change) (Expression.listMapKnown change arguments) line

def Expression.listMapKnown {Known Other : Type} (change : Known → Other) :
    List (Expression Known) → List (Expression Other)
  | [] => []
  | first :: rest => first.mapKnown change :: Expression.listMapKnown change rest

end

mutual

def Statement.mapKnown {Known Other : Type} (change : Known → Other) :
    Statement Known → Statement Other
  | .expression value => .expression (value.mapKnown change)
  | .print value => .print (value.mapKnown change)
  | .declaration name initializer => .declaration name (initializer.map (·.mapKnown change))
  | .function name parameters body =>
      .function name parameters (Statement.listMapKnown change body)
  | .block items => .block (Statement.listMapKnown change items)
  | .conditional condition thenBranch none =>
      .conditional (condition.mapKnown change) (thenBranch.mapKnown change) none
  | .conditional condition thenBranch (some elseBranch) =>
      .conditional (condition.mapKnown change) (thenBranch.mapKnown change)
        (some (elseBranch.mapKnown change))
  | .loop condition body => .loop (condition.mapKnown change) (body.mapKnown change)
  | .returning line value => .returning line (value.map (·.mapKnown change))

def Statement.listMapKnown {Known Other : Type} (change : Known → Other) :
    List (Statement Known) → List (Statement Other)
  | [] => []
  | first :: rest => first.mapKnown change :: Statement.listMapKnown change rest

end

/-- Hands out what is known, one by one; afterwards nothing is known. -/
def Reference.next {Known : Type} : StateM (List Known) (Option Known) := fun supply =>
  (supply.head?, supply.tail)

mutual

/-- An expression whose references are told, in the order in which they are decided, what the supply
holds for them. -/
def Expression.annotate {Known Other : Type} :
    Expression Known → StateM (List Other) (Expression (Option Other))
  | .constant value => return .constant value
  | .grouping inner => return .grouping (← inner.annotate)
  | .variable name _ => return .variable name (← Reference.next)
  | .assignment name _ value => do
      let value ← value.annotate
      return .assignment name (← Reference.next) value
  | .unary operator line operand => return .unary operator line (← operand.annotate)
  | .binary operator line left right => return .binary operator line (← left.annotate) (← right.annotate)
  | .logical operator line left right =>
      return .logical operator line (← left.annotate) (← right.annotate)
  | .call callee arguments line =>
      return .call (← callee.annotate) (← Expression.listAnnotate arguments) line

def Expression.listAnnotate {Known Other : Type} :
    List (Expression Known) → StateM (List Other) (List (Expression (Option Other)))
  | [] => return []
  | first :: rest => return (← first.annotate) :: (← Expression.listAnnotate rest)

end

def Expression.optionalAnnotate {Known Other : Type} :
    Option (Expression Known) → StateM (List Other) (Option (Expression (Option Other)))
  | none => return none
  | some expression => return some (← expression.annotate)

mutual

/-- A statement, annotated in the order in which it is decided. -/
def Statement.annotate {Known Other : Type} :
    Statement Known → StateM (List Other) (Statement (Option Other))
  | .expression value => return .expression (← value.annotate)
  | .print value => return .print (← value.annotate)
  | .declaration name initializer =>
      return .declaration name (← Expression.optionalAnnotate initializer)
  | .function name parameters body =>
      return .function name parameters (← Statement.listAnnotate body)
  | .block items => return .block (← Statement.listAnnotate items)
  | .conditional condition thenBranch none =>
      return .conditional (← condition.annotate) (← thenBranch.annotate) none
  | .conditional condition thenBranch (some elseBranch) =>
      return .conditional (← condition.annotate) (← thenBranch.annotate)
        (some (← elseBranch.annotate))
  | .loop condition body => return .loop (← condition.annotate) (← body.annotate)
  | .returning line value => return .returning line (← Expression.optionalAnnotate value)

def Statement.listAnnotate {Known Other : Type} :
    List (Statement Known) → StateM (List Other) (List (Statement (Option Other)))
  | [] => return []
  | first :: rest => return (← first.annotate) :: (← Statement.listAnnotate rest)

end

end LoxInterpreter
