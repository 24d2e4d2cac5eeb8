import LoxInterpreter.Tree

/-!
Contract: deciding whether two trees are equal.

Two trees of the same kind are compared part by part. Instances that are derived do not reach trees,
which stand in lists inside themselves.

Owns: the decidable equality of expressions and of statements.
-/

namespace LoxInterpreter

variable {Known : Type} [DecidableEq Known]

mutual

/-- Expressions of one constructor are equal if their parts are; others differ. -/
def Expression.decideEq (first second : Expression Known) : Decidable (first = second) :=
  if same : first.ctorIdx = second.ctorIdx then
    match first, second, same with
    | .constant value, .constant value', _ => decidable_of_iff (value = value') (by simp)
    | .grouping inner, .grouping inner', _ =>
        have := inner.decideEq inner'
        decidable_of_iff (inner = inner') (by simp)
    | .variable name known, .variable name' known', _ =>
        decidable_of_iff (name = name' ∧ known = known') (by simp)
    | .assignment name known value, .assignment name' known' value', _ =>
        have := value.decideEq value'
        decidable_of_iff (name = name' ∧ known = known' ∧ value = value') (by simp)
    | .unary operator line operand, .unary operator' line' operand', _ =>
        have := operand.decideEq operand'
        decidable_of_iff (operator = operator' ∧ line = line' ∧ operand = operand') (by simp)
    | .binary operator line left right, .binary operator' line' left' right', _ =>
        have := left.decideEq left'
        have := right.decideEq right'
        decidable_of_iff (operator = operator' ∧ line = line' ∧ left = left' ∧ right = right') (by simp)
    | .logical operator line left right, .logical operator' line' left' right', _ =>
        have := left.decideEq left'
        have := right.decideEq right'
        decidable_of_iff (operator = operator' ∧ line = line' ∧ left = left' ∧ right = right') (by simp)
    | .call callee arguments line, .call callee' arguments' line', _ =>
        have := callee.decideEq callee'
        have := Expression.listDecideEq arguments arguments'
        decidable_of_iff (callee = callee' ∧ arguments = arguments' ∧ line = line') (by simp)
  else isFalse fun equal => same (equal ▸ rfl)

def Expression.listDecideEq : (first second : List (Expression Known)) → Decidable (first = second)
  | [], [] => isTrue rfl
  | value :: rest, value' :: rest' =>
      have := value.decideEq value'
      have := Expression.listDecideEq rest rest'
      decidable_of_iff (value = value' ∧ rest = rest') (by simp)
  | [], _ :: _ | _ :: _, [] => isFalse nofun

end

instance : DecidableEq (Expression Known) := Expression.decideEq

mutual

def Statement.decideEq (first second : Statement Known) : Decidable (first = second) :=
  if same : first.ctorIdx = second.ctorIdx then
    match first, second, same with
    | .expression value, .expression value', _ => decidable_of_iff (value = value') (by simp)
    | .print value, .print value', _ => decidable_of_iff (value = value') (by simp)
    | .declaration name initializer, .declaration name' initializer', _ =>
        decidable_of_iff (name = name' ∧ initializer = initializer') (by simp)
    | .function name parameters body, .function name' parameters' body', _ =>
        have := Statement.listDecideEq body body'
        decidable_of_iff (name = name' ∧ parameters = parameters' ∧ body = body') (by simp)
    | .block items, .block items', _ =>
        have := Statement.listDecideEq items items'
        decidable_of_iff (items = items') (by simp)
    | .conditional condition thenBranch elseBranch, .conditional condition' thenBranch' elseBranch', _ =>
        have := thenBranch.decideEq thenBranch'
        have := Statement.optionalDecideEq elseBranch elseBranch'
        decidable_of_iff
          (condition = condition' ∧ thenBranch = thenBranch' ∧ elseBranch = elseBranch') (by simp)
    | .loop condition body, .loop condition' body', _ =>
        have := body.decideEq body'
        decidable_of_iff (condition = condition' ∧ body = body') (by simp)
    | .returning line value, .returning line' value', _ =>
        decidable_of_iff (line = line' ∧ value = value') (by simp)
  else isFalse fun equal => same (equal ▸ rfl)

def Statement.optionalDecideEq :
    (first second : Option (Statement Known)) → Decidable (first = second)
  | none, none => isTrue rfl
  | some value, some value' =>
      have := value.decideEq value'
      decidable_of_iff (value = value') (by simp)
  | none, some _ | some _, none => isFalse nofun

def Statement.listDecideEq : (first second : List (Statement Known)) → Decidable (first = second)
  | [], [] => isTrue rfl
  | value :: rest, value' :: rest' =>
      have := value.decideEq value'
      have := Statement.listDecideEq rest rest'
      decidable_of_iff (value = value' ∧ rest = rest') (by simp)
  | [], _ :: _ | _ :: _, [] => isFalse nofun

end

instance : DecidableEq (Statement Known) := Statement.decideEq

end LoxInterpreter
