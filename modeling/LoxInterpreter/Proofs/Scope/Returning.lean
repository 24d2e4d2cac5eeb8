import LoxInterpreter.Proofs.Scope.Walking
import LoxInterpreter.Tree.Reference

/-!
Contract: returns outside all function bodies.

Owns: `Statement.returnsOutside`, and that what resolves outside functions has none.
Does not own: how returns end a run (`Proofs.Execution.Returning`).
-/

namespace LoxInterpreter

variable {Known Other : Type}

mutual

/-- Whether a statement has a return outside the bodies of the functions in it. -/
def Statement.returnsOutside : Statement Known → Bool
  | .returning _ _ => true
  | .expression _ | .print _ | .declaration _ _ | .function _ _ _ => false
  | .block items => Statement.listReturnsOutside items
  | .conditional _ thenBranch none => thenBranch.returnsOutside
  | .conditional _ thenBranch (some elseBranch) =>
      thenBranch.returnsOutside || elseBranch.returnsOutside
  | .loop _ body => body.returnsOutside

/-- Whether one of several statements has such a return. -/
def Statement.listReturnsOutside : List (Statement Known) → Bool
  | [] => false
  | first :: rest => first.returnsOutside || Statement.listReturnsOutside rest

end

mutual

theorem Statement.returnsOutside_mapKnown (change : Known → Other) : (statement : Statement Known) →
    (statement.mapKnown change).returnsOutside = statement.returnsOutside
  | .returning _ _ | .expression _ | .print _ | .declaration _ _ | .function _ _ _ => rfl
  | .block items => Statement.listReturnsOutside_mapKnown change items
  | .conditional _ thenBranch none => thenBranch.returnsOutside_mapKnown change
  | .conditional _ thenBranch (some elseBranch) => by
      simp only [Statement.mapKnown, Statement.returnsOutside,
        thenBranch.returnsOutside_mapKnown change, elseBranch.returnsOutside_mapKnown change]
  | .loop _ body => body.returnsOutside_mapKnown change

theorem Statement.listReturnsOutside_mapKnown (change : Known → Other) :
    (statements : List (Statement Known)) →
    Statement.listReturnsOutside (Statement.listMapKnown change statements) =
      Statement.listReturnsOutside statements
  | [] => rfl
  | first :: rest => by
      simp only [Statement.listMapKnown, Statement.listReturnsOutside,
        first.returnsOutside_mapKnown change, Statement.listReturnsOutside_mapKnown change rest]

end

theorem Statement.returnsOutside_of_mem {statements : List (Statement Known)}
    (none : Statement.listReturnsOutside statements = false) :
    ∀ statement ∈ statements, statement.returnsOutside = false := by
  induction statements with
  | nil => simp
  | cons first rest inductionHypothesis =>
      rw [Statement.listReturnsOutside, Bool.or_eq_false_iff] at none
      intro statement member
      cases List.mem_cons.mp member with
      | inl same => exact same ▸ none.1
      | inr behind => exact inductionHypothesis none.2 statement behind

/-! ## Walks -/

namespace Resolving

variable {before after : Resolver}

theorem declare_inFunction {name : Name} {result : Unit}
    (gives : (declare name).Gives before result after) : after.inFunction = before.inFunction := by
  have declared := gives_declare_iff.mp gives
  unfold Resolver.declare? at declared
  split at declared <;> split at declared <;> cases declared <;> rfl

theorem define_inFunction {name : Name} {result : Unit} (gives : (define name).Gives before result after) :
    after.inFunction = before.inFunction := by
  rw [gives_define_iff.mp gives]
  unfold Resolver.define
  split <;> rfl

mutual

/-- A walk ends inside a function or outside of it as it began, and outside it has met no return. -/
theorem statement_inFunction : (tree : Statement Unit) → {result : Statement Binding} →
    {before after : Resolver} → (statement tree).Gives before result after →
    after.inFunction = before.inFunction ∧
      (before.inFunction = false → tree.returnsOutside = false)
  | .expression value, _, before, after, gives => by
      rw [statement] at gives
      have ⟨_, one, _⟩ := gives_map_iff.mp gives
      exact ⟨(expression_decidesOnly value).inFunction_eq one, fun _ => rfl⟩
  | .print value, _, before, after, gives => by
      rw [statement] at gives
      have ⟨_, one, _⟩ := gives_map_iff.mp gives
      exact ⟨(expression_decidesOnly value).inFunction_eq one, fun _ => rfl⟩
  | .declaration name initializer, _, before, after, gives => by
      rw [statement] at gives
      have ⟨_, declared, declares, rest⟩ := gives_bind_iff.mp gives
      have ⟨_, initialized, one, rest⟩ := gives_bind_iff.mp rest
      have ⟨_, defined, defines, rest⟩ := gives_bind_iff.mp rest
      refine ⟨?_, fun _ => rfl⟩
      calc after.inFunction
        _ = defined.inFunction := by rw [(gives_pure_iff.mp rest).2]
        _ = initialized.inFunction := define_inFunction defines
        _ = declared.inFunction := (optionalExpression_decidesOnly _).inFunction_eq one
        _ = before.inFunction := declare_inFunction declares
  | .function name parameters body, _, before, after, gives => by
      rw [statement] at gives
      have ⟨_, declared, declares, rest⟩ := gives_bind_iff.mp gives
      have ⟨_, defined, defines, rest⟩ := gives_bind_iff.mp rest
      have ⟨_, one, _⟩ := gives_map_iff.mp rest
      have ⟨inside, _, left⟩ := gives_inBody_iff.mp one
      refine ⟨?_, fun _ => rfl⟩
      calc after.inFunction
        _ = defined.inFunction := by rw [left]
        _ = declared.inFunction := define_inFunction defines
        _ = before.inFunction := declare_inFunction declares
  | .block items, _, before, after, gives => by
      rw [statement] at gives
      have ⟨_, one, _⟩ := gives_map_iff.mp gives
      have ⟨inside, walked, left⟩ := gives_inScope_iff.mp one
      have ⟨same, met⟩ := statements_inFunction items walked
      exact ⟨by rw [left]; exact same, met⟩
  | .conditional condition thenBranch none, _, before, after, gives => by
      rw [statement] at gives
      have ⟨_, tested, one, rest⟩ := gives_bind_iff.mp gives
      have ⟨_, two, _⟩ := gives_map_iff.mp rest
      have ⟨same, met⟩ := statement_inFunction thenBranch two
      have sameTested := (expression_decidesOnly condition).inFunction_eq one
      exact ⟨same.trans sameTested, fun outside => met (sameTested.trans outside)⟩
  | .conditional condition thenBranch (some elseBranch), _, before, after, gives => by
      rw [statement] at gives
      have ⟨_, tested, one, rest⟩ := gives_bind_iff.mp gives
      have ⟨_, chosen, two, rest⟩ := gives_bind_iff.mp rest
      have ⟨_, three, _⟩ := gives_map_iff.mp rest
      have ⟨sameThen, metThen⟩ := statement_inFunction thenBranch two
      have ⟨sameElse, metElse⟩ := statement_inFunction elseBranch three
      have sameTested := (expression_decidesOnly condition).inFunction_eq one
      have sameChosen := sameThen.trans sameTested
      refine ⟨sameElse.trans sameChosen, fun outside => ?_⟩
      rw [Statement.returnsOutside, metThen (sameTested.trans outside),
        metElse (sameChosen.trans outside)]
      rfl
  | .loop condition body, _, before, after, gives => by
      rw [statement] at gives
      have ⟨_, tested, one, rest⟩ := gives_bind_iff.mp gives
      have ⟨_, two, _⟩ := gives_map_iff.mp rest
      have ⟨same, met⟩ := statement_inFunction body two
      have sameTested := (expression_decidesOnly condition).inFunction_eq one
      exact ⟨same.trans sameTested, fun outside => met (sameTested.trans outside)⟩
  | .returning line value, _, before, after, gives => by
      rw [statement] at gives
      have ⟨_, between, read, rest⟩ := gives_bind_iff.mp gives
      have ⟨isBefore, same⟩ := gives_get_iff.mp read
      subst isBefore same
      by_cases inside : between.inFunction = true
      · rw [if_pos inside] at rest
        have ⟨_, one, _⟩ := gives_map_iff.mp rest
        refine ⟨(optionalExpression_decidesOnly _).inFunction_eq one, fun outside => ?_⟩
        rw [outside] at inside
        cases inside
      · rw [if_neg inside] at rest
        have ⟨_, _, stopped, _⟩ := gives_bind_iff.mp rest
        exact absurd stopped not_gives_stop

theorem statements_inFunction : (trees : List (Statement Unit)) → {results : List (Statement Binding)} →
    {before after : Resolver} → (statements trees).Gives before results after →
    after.inFunction = before.inFunction ∧
      (before.inFunction = false → Statement.listReturnsOutside trees = false)
  | [], _, before, after, gives => by
      rw [statements] at gives
      rw [(gives_pure_iff.mp gives).2]
      exact ⟨rfl, fun _ => rfl⟩
  | first :: rest, _, before, after, gives => by
      rw [statements] at gives
      have ⟨_, between, one, behind⟩ := gives_bind_iff.mp gives
      have ⟨_, others, _⟩ := gives_map_iff.mp behind
      have ⟨sameFirst, metFirst⟩ := statement_inFunction first one
      have ⟨sameRest, metRest⟩ := statements_inFunction rest others
      refine ⟨sameRest.trans sameFirst, fun outside => ?_⟩
      rw [Statement.listReturnsOutside, metFirst outside, metRest (sameFirst.trans outside)]
      rfl

end

end Resolving

/-- What resolves outside functions has no return outside of them. -/
theorem Resolver.resolve_returnsOutside {resolver after : Resolver} {program : List (Statement Unit)}
    {resolved : List (Statement Binding)} (outside : resolver.inFunction = false)
    (resolves : resolver.resolve program = (.ok resolved, after)) :
    Statement.listReturnsOutside program = false :=
  (Resolving.statements_inFunction program (Resolver.resolve_eq_ok_iff.mp resolves)).2 outside

end LoxInterpreter
