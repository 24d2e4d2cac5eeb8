import LoxInterpreter.Proofs.Lines.Moving
import LoxInterpreter.Proofs.Scope.Resolving

/-!
Contract: programs on other lines resolve alike, and programs one behind the other resolve as one.

Resolving looks at no line, so a program on other lines gets the same bindings and the same mistake, on
its own lines. The resolver behind a program is all that the program behind it needs.

Owns: `Resolving.Moves`, `Resolver.resolve_moveLines` and `Resolver.resolve_append`.
-/

namespace LoxInterpreter

namespace Resolving

variable {α β γ δ : Type} {move : Nat → Nat}

/-- How a walk ends, on other lines. -/
def movedEnd (move : Nat → Nat) (change : α → β) : Except ScopeError α × Resolver → Except ScopeError β × Resolver
  | (.ok value, after) => (.ok (change value), after)
  | (.error mistake, after) => (.error (mistake.moveLine move), after)

/-- Whether a walk does what another one does, on other lines. -/
def Moves (move : Nat → Nat) (change : α → β) (walk : Resolving α) (moved : Resolving β) : Prop :=
  ∀ before, moved.outcome before = movedEnd move change (walk.outcome before)

/-! ## Laws -/

theorem moves_pure (change : α → β) (value : α) : Moves move change (pure value) (pure (change value)) :=
  fun _ => rfl

theorem moves_stop (change : α → β) (cause : ScopeError.Cause) (token : Token) :
    Moves move change (stop cause token) (stop cause (token.moveLine move)) :=
  fun _ => rfl

/-- A mistake in the first part ends both walks, on other lines. -/
theorem Moves.bind {change : α → β} {change' : γ → δ} {first : Resolving α} {second : Resolving β}
    {next : α → Resolving γ} {next' : β → Resolving δ} (moves : Moves move change first second)
    (rest : ∀ value, Moves move change' (next value) (next' (change value))) :
    Moves move change' (first >>= next) (second >>= next') := by
  intro before
  rw [outcome_bind, outcome_bind, moves before]
  cases first.outcome before with
  | mk result between =>
      cases result with
      | ok value => exact rest value between
      | error mistake => rfl

theorem Moves.map {change : α → β} {change' : γ → δ} {first : Resolving α} {second : Resolving β}
    {build : α → γ} {build' : β → δ} (moves : Moves move change first second)
    (agree : ∀ value, build' (change value) = change' (build value)) :
    Moves move change' (do return build (← first)) (do return build' (← second)) :=
  moves.bind fun value => by
    rw [agree value]
    exact moves_pure change' _

theorem moves_get_bind {change : α → β} {next : Resolver → Resolving α} {next' : Resolver → Resolving β}
    (rest : ∀ seen, Moves move change (next seen) (next' seen)) :
    Moves move change (get >>= next) (get >>= next') := by
  intro before
  rw [outcome_get_bind, outcome_get_bind]
  exact rest before before

theorem moves_modify (step : Resolver → Resolver) :
    Moves move id (modify step : Resolving Unit) (modify step : Resolving Unit) :=
  fun _ => rfl

theorem moves_decide (binding : Binding) : Moves move id (decide binding) (decide binding) :=
  fun _ => rfl

theorem moves_readReference (name : Name) :
    Moves move id (readReference name) (readReference (name.moveLine move)) := by
  apply moves_get_bind
  intro seen
  rw [Name.text_moveLine]
  cases seen.readBinding? name.text with
  | some binding => exact moves_decide binding
  | none => exact moves_stop id .readInOwnInitializer name.token

theorem moves_assignedReference (name : Name) :
    Moves move id (assignedReference name) (assignedReference (name.moveLine move)) :=
  moves_get_bind fun _ => moves_decide _

theorem moves_declare (name : Name) : Moves move id (declare name) (declare (name.moveLine move)) := by
  apply moves_get_bind
  intro seen
  rw [Name.text_moveLine]
  cases seen.declare? name.text with
  | some resolver => exact fun _ => rfl
  | none => exact moves_stop id .alreadyDeclared name.token

theorem moves_define (name : Name) : Moves move id (define name) (define (name.moveLine move)) :=
  moves_modify _

theorem moves_declareReady (names : List Name) :
    Moves move id (declareReady names) (declareReady (names.map (·.moveLine move))) := by
  induction names with
  | nil => exact moves_pure id ()
  | cons name rest inductionHypothesis =>
      exact (moves_declare name).bind fun _ => (moves_define name).bind fun _ => inductionHypothesis

theorem Moves.inScope {change : α → β} {walk : Resolving α} {moved : Resolving β}
    (moves : Moves move change walk moved) : Moves move change (inScope walk) (inScope moved) := by
  apply (moves_modify _).bind
  intro _
  apply moves.bind
  intro value
  exact (moves_modify _).bind fun _ => moves_pure change value

theorem Moves.inBody {change : α → β} {walk : Resolving α} {moved : Resolving β}
    (moves : Moves move change walk moved) : Moves move change (inBody walk) (inBody moved) := by
  apply moves_get_bind
  intro seen
  apply (moves_modify _).bind
  intro _
  apply moves.inScope.bind
  intro value
  exact (moves_modify _).bind fun _ => moves_pure change value

/-! ## Trees -/

mutual

/-- References are decided by their names, so moving an expression moves its result and no decision. -/
theorem moves_expression (move : Nat → Nat) : (tree : Expression Unit) →
    Moves move (Expression.moveLines move) (expression tree) (expression (tree.moveLines move))
  | .constant value => by
      rw [Expression.moveLines, expression]
      exact moves_pure (Expression.moveLines move) (.constant value)
  | .grouping inner => by
      rw [Expression.moveLines, expression, expression]
      exact (moves_expression move inner).map fun _ => rfl
  | .variable name _ => by
      rw [Expression.moveLines, expression, expression]
      exact (moves_readReference name).map fun _ => rfl
  | .assignment name _ value => by
      rw [Expression.moveLines, expression, expression]
      apply (moves_expression move value).bind
      intro value'
      exact (moves_assignedReference name).map fun _ => rfl
  | .unary operator line operand => by
      rw [Expression.moveLines, expression, expression]
      exact (moves_expression move operand).map fun _ => rfl
  | .binary operator line left right => by
      rw [Expression.moveLines, expression, expression]
      apply (moves_expression move left).bind
      intro left'
      exact (moves_expression move right).map fun _ => rfl
  | .logical operator line left right => by
      rw [Expression.moveLines, expression, expression]
      apply (moves_expression move left).bind
      intro left'
      exact (moves_expression move right).map fun _ => rfl
  | .call callee arguments line => by
      rw [Expression.moveLines, expression, expression]
      apply (moves_expression move callee).bind
      intro callee'
      exact (moves_expressions move arguments).map fun _ => rfl

theorem moves_expressions (move : Nat → Nat) : (trees : List (Expression Unit)) →
    Moves move (Expression.listMoveLines move) (expressions trees)
      (expressions (Expression.listMoveLines move trees))
  | [] => by
      rw [Expression.listMoveLines, expressions]
      exact moves_pure (Expression.listMoveLines move) []
  | first :: rest => by
      rw [Expression.listMoveLines, expressions, expressions]
      apply (moves_expression move first).bind
      intro first'
      exact (moves_expressions move rest).map fun _ => rfl

end

theorem moves_optionalExpression (move : Nat → Nat) (tree : Option (Expression Unit)) :
    Moves move (Option.map (Expression.moveLines move)) (optionalExpression tree)
      (optionalExpression (tree.map (·.moveLines move))) := by
  cases tree with
  | none => exact moves_pure (Option.map (Expression.moveLines move)) none
  | some value => exact (moves_expression move value).map fun _ => rfl

mutual

theorem moves_statement (move : Nat → Nat) : (tree : Statement Unit) →
    Moves move (Statement.moveLines move) (statement tree) (statement (tree.moveLines move))
  | .expression value => by
      rw [Statement.moveLines, statement, statement]
      exact (moves_expression move value).map fun _ => rfl
  | .print value => by
      rw [Statement.moveLines, statement, statement]
      exact (moves_expression move value).map fun _ => rfl
  | .declaration name initializer => by
      rw [Statement.moveLines, statement, statement]
      apply (moves_declare name).bind
      intro _
      apply (moves_optionalExpression move initializer).bind
      intro initializer'
      exact (moves_define name).map fun _ => rfl
  | .function name parameters body => by
      rw [Statement.moveLines, statement, statement]
      apply (moves_declare name).bind
      intro _
      apply (moves_define name).bind
      intro _
      have inside : Moves move (Statement.listMoveLines move)
          (do declareReady parameters; statements body)
          (do declareReady (parameters.map (·.moveLine move))
              statements (Statement.listMoveLines move body)) :=
        (moves_declareReady parameters).bind fun _ => moves_statements move body
      exact inside.inBody.map fun _ => rfl
  | .block items => by
      rw [Statement.moveLines, statement, statement]
      exact (moves_statements move items).inScope.map fun _ => rfl
  | .conditional condition thenBranch none => by
      rw [Statement.moveLines, statement, statement]
      apply (moves_expression move condition).bind
      intro condition'
      exact (moves_statement move thenBranch).map fun _ => rfl
  | .conditional condition thenBranch (some elseBranch) => by
      rw [Statement.moveLines, statement, statement]
      apply (moves_expression move condition).bind
      intro condition'
      apply (moves_statement move thenBranch).bind
      intro thenBranch'
      exact (moves_statement move elseBranch).map fun _ => rfl
  | .loop condition body => by
      rw [Statement.moveLines, statement, statement]
      apply (moves_expression move condition).bind
      intro condition'
      exact (moves_statement move body).map fun _ => rfl
  | .returning line value => by
      rw [Statement.moveLines, statement, statement]
      apply moves_get_bind
      intro seen
      split
      · exact (moves_optionalExpression move value).map fun _ => rfl
      · apply (moves_stop id .returnOutsideFunction (.ofSymbol (.keyword .returnWord) line)).bind
        intro _
        exact (moves_optionalExpression move value).map fun _ => rfl

theorem moves_statements (move : Nat → Nat) : (trees : List (Statement Unit)) →
    Moves move (Statement.listMoveLines move) (statements trees)
      (statements (Statement.listMoveLines move trees))
  | [] => by
      rw [Statement.listMoveLines, statements]
      exact moves_pure (Statement.listMoveLines move) []
  | first :: rest => by
      rw [Statement.listMoveLines, statements, statements]
      apply (moves_statement move first).bind
      intro first'
      exact (moves_statements move rest).map fun _ => rfl

end

/-- Two programs one behind the other are walked one after the other. -/
theorem gives_statements_append {first second : List (Statement Unit)}
    {resolved later : List (Statement Binding)} {before between after : Resolver}
    (gives : (statements first).Gives before resolved between)
    (givesLater : (statements second).Gives between later after) :
    (statements (first ++ second)).Gives before (resolved ++ later) after := by
  induction first generalizing before resolved with
  | nil =>
      rw [statements] at gives
      obtain ⟨rfl, rfl⟩ := gives_pure_iff.mp gives
      exact givesLater
  | cons front rest inductionHypothesis =>
      rw [statements] at gives
      obtain ⟨front', behindFront, one, others⟩ := gives_bind_iff.mp gives
      obtain ⟨rest', walked, rfl⟩ := gives_map_iff.mp others
      rw [List.cons_append, statements]
      refine gives_bind_iff.mpr ⟨front', behindFront, one, ?_⟩
      exact gives_map_iff.mpr ⟨rest' ++ later, inductionHypothesis walked, rfl⟩

end Resolving

namespace Resolver

open Resolving

/-- A program on other lines resolves alike, on these lines. -/
theorem resolve_moveLines (move : Nat → Nat) (resolver : Resolver) (program : List (Statement Unit)) :
    resolver.resolve (Statement.listMoveLines move program) =
      movedEnd move (Statement.listMoveLines move) (resolver.resolve program) := by
  have moves := moves_statements move program resolver
  unfold resolve
  unfold outcome at moves
  rw [moves]
  cases (statements program).run.run resolver with
  | mk result after => cases result <;> rfl

/-- Two programs one behind the other resolve as one. -/
theorem resolve_append {resolver between after : Resolver} {first second : List (Statement Unit)}
    {resolved later : List (Statement Binding)}
    (resolves : resolver.resolve first = (.ok resolved, between))
    (resolvesLater : between.resolve second = (.ok later, after)) :
    resolver.resolve (first ++ second) = (.ok (resolved ++ later), after) :=
  resolve_eq_ok_iff.mpr
    (gives_statements_append (resolve_eq_ok_iff.mp resolves) (resolve_eq_ok_iff.mp resolvesLater))

end Resolver

end LoxInterpreter
