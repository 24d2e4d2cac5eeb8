import LoxInterpreter.Proofs.Scope.Context

/-!
Contract: initializers that assign to the variable they are for.

While the initializer of a local variable is evaluated, a name that is read means the one further out,
and a name that is assigned to means the variable itself. Only such an assignment is bound otherwise
than its name in the context of its own position.

Owns: `Statement.assignsOwn`, which tells whether a program has such an assignment.
-/

namespace LoxInterpreter

variable {Known Other : Type}

/-- Whether an expression assigns to a name. -/
def Expression.assigns (name : String) (expression : Expression Known) : Bool :=
  expression.references.any fun reference => reference.isAssignment && reference.name.text == name

/-- Whether one of several expressions assigns to a name. -/
def Expression.listAssigns (name : String) (expressions : List (Expression Known)) : Bool :=
  (Expression.listReferences expressions).any fun reference =>
    reference.isAssignment && reference.name.text == name

mutual

/-- Whether the initializer of a local variable assigns to the variable it is for. Outside all scopes
variables are global. -/
def Statement.assignsOwn (inScope : Bool) : Statement Known → Bool
  | .expression _ | .print _ | .returning _ _ | .declaration _ none => false
  | .declaration name (some initializer) => inScope && initializer.assigns name.text
  | .function _ _ body => Statement.listAssignsOwn true body
  | .block items => Statement.listAssignsOwn true items
  | .conditional _ thenBranch none => thenBranch.assignsOwn inScope
  | .conditional _ thenBranch (some elseBranch) =>
      thenBranch.assignsOwn inScope || elseBranch.assignsOwn inScope
  | .loop _ body => body.assignsOwn inScope

/-- Whether this is so in one of several statements. -/
def Statement.listAssignsOwn (inScope : Bool) : List (Statement Known) → Bool
  | [] => false
  | first :: rest => first.assignsOwn inScope || Statement.listAssignsOwn inScope rest

end

/-! ## What is known about references does not matter -/

mutual

theorem Expression.references_mapKnown (change : Known → Other) : (expression : Expression Known) →
    (expression.mapKnown change).references =
      expression.references.map fun reference => ⟨reference.isAssignment, reference.name, change reference.known⟩
  | .constant _ => rfl
  | .variable _ _ => rfl
  | .grouping inner => inner.references_mapKnown change
  | .assignment name known value => by
      simp [Expression.mapKnown, Expression.references, value.references_mapKnown change]
  | .unary _ _ operand => operand.references_mapKnown change
  | .binary _ _ left right => by
      simp [Expression.mapKnown, Expression.references, left.references_mapKnown change,
        right.references_mapKnown change]
  | .logical _ _ left right => by
      simp [Expression.mapKnown, Expression.references, left.references_mapKnown change,
        right.references_mapKnown change]
  | .call callee arguments _ => by
      simp [Expression.mapKnown, Expression.references, callee.references_mapKnown change,
        Expression.listReferences_mapKnown change arguments]

theorem Expression.listReferences_mapKnown (change : Known → Other) :
    (expressions : List (Expression Known)) →
    Expression.listReferences (Expression.listMapKnown change expressions) =
      (Expression.listReferences expressions).map fun reference =>
        ⟨reference.isAssignment, reference.name, change reference.known⟩
  | [] => rfl
  | first :: rest => by
      simp [Expression.listMapKnown, Expression.listReferences, first.references_mapKnown change,
        Expression.listReferences_mapKnown change rest]

end

theorem Expression.assigns_mapKnown (change : Known → Other) (name : String)
    (expression : Expression Known) :
    (expression.mapKnown change).assigns name = expression.assigns name := by
  unfold Expression.assigns
  rw [expression.references_mapKnown change, List.any_map]
  rfl

mutual

theorem Statement.assignsOwn_mapKnown (change : Known → Other) (inScope : Bool) :
    (statement : Statement Known) →
    (statement.mapKnown change).assignsOwn inScope = statement.assignsOwn inScope
  | .expression _ | .print _ | .returning _ _ | .declaration _ none => rfl
  | .declaration name (some initializer) => by
      simp only [Statement.mapKnown, Option.map_some, Statement.assignsOwn,
        initializer.assigns_mapKnown change]
  | .function _ _ body => Statement.listAssignsOwn_mapKnown change true body
  | .block items => Statement.listAssignsOwn_mapKnown change true items
  | .conditional _ thenBranch none => thenBranch.assignsOwn_mapKnown change inScope
  | .conditional _ thenBranch (some elseBranch) => by
      simp only [Statement.mapKnown, Statement.assignsOwn,
        thenBranch.assignsOwn_mapKnown change inScope, elseBranch.assignsOwn_mapKnown change inScope]
  | .loop _ body => body.assignsOwn_mapKnown change inScope

theorem Statement.listAssignsOwn_mapKnown (change : Known → Other) (inScope : Bool) :
    (statements : List (Statement Known)) →
    Statement.listAssignsOwn inScope (Statement.listMapKnown change statements) =
      Statement.listAssignsOwn inScope statements
  | [] => rfl
  | first :: rest => by
      simp only [Statement.listMapKnown, Statement.listAssignsOwn,
        first.assignsOwn_mapKnown change inScope, Statement.listAssignsOwn_mapKnown change inScope rest]

end

/-! ## Initializers that leave their own variable alone -/

section Bound

variable {context : Context} {name : String}

mutual

theorem Expression.bound_of_assigns_eq_false : (expression : Expression Binding) →
    expression.assigns name = false → expression.Bound context (some name) →
    expression.Bound context none
  | .constant _, _, _ => trivial
  | .variable _ _, _, bound => bound
  | .grouping inner, others, bound => inner.bound_of_assigns_eq_false others bound
  | .assignment target binding value, others, bound => by
      unfold Expression.assigns at others
      rw [Expression.references, List.any_cons, Bool.or_eq_false_iff] at others
      have different : target.text ≠ name := by simpa using others.1
      refine ⟨value.bound_of_assigns_eq_false others.2 bound.1, ?_⟩
      have isBinding := bound.2
      unfold Context.assignedBinding at isBinding
      rw [if_neg (fun same => different (Option.some.inj same).symm)] at isBinding
      exact isBinding
  | .unary _ _ operand, others, bound => operand.bound_of_assigns_eq_false others bound
  | .binary _ _ left right, others, bound => by
      unfold Expression.assigns at others
      rw [Expression.references, List.any_append, Bool.or_eq_false_iff] at others
      exact ⟨left.bound_of_assigns_eq_false others.1 bound.1,
        right.bound_of_assigns_eq_false others.2 bound.2⟩
  | .logical _ _ left right, others, bound => by
      unfold Expression.assigns at others
      rw [Expression.references, List.any_append, Bool.or_eq_false_iff] at others
      exact ⟨left.bound_of_assigns_eq_false others.1 bound.1,
        right.bound_of_assigns_eq_false others.2 bound.2⟩
  | .call callee arguments _, others, bound => by
      unfold Expression.assigns at others
      rw [Expression.references, List.any_append, Bool.or_eq_false_iff] at others
      exact ⟨callee.bound_of_assigns_eq_false others.1 bound.1,
        Expression.listBound_of_listAssigns_eq_false arguments others.2 bound.2⟩

theorem Expression.listBound_of_listAssigns_eq_false : (expressions : List (Expression Binding)) →
    Expression.listAssigns name expressions = false →
    Expression.listBound context (some name) expressions → Expression.listBound context none expressions
  | [], _, _ => trivial
  | first :: rest, others, bound => by
      unfold Expression.listAssigns at others
      rw [Expression.listReferences, List.any_append, Bool.or_eq_false_iff] at others
      exact ⟨first.bound_of_assigns_eq_false others.1 bound.1,
        Expression.listBound_of_listAssigns_eq_false rest others.2 bound.2⟩

end

/-- Where a local initializer leaves its own variable alone, all its references are bound as their
names are at its position. -/
theorem Statement.initializer_bound {declared : Name} {initializer : Expression Binding}
    (bound : (Statement.declaration declared (some initializer)).Bound context)
    (others : (Statement.declaration declared (some initializer)).assignsOwn (!context.isEmpty) = false) :
    initializer.Bound context none := by
  have boundWaiting := bound.2 initializer rfl
  cases context with
  | nil => exact boundWaiting
  | cons innermost outer => exact initializer.bound_of_assigns_eq_false others boundWaiting

end Bound

end LoxInterpreter
