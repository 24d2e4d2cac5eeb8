import LoxInterpreter.Proofs.Grammar.Normal
import LoxInterpreter.Proofs.Scope.Hereditary

/-!
Contract: what a walk leaves as it was, whether it meets a mistake or not.

An expression adds decisions and changes nothing else. Inside a scope a statement leaves the globals
alone, and so does outside all scopes a statement that declares nothing.

Owns: `Resolving.DecidesOnly` and `Resolving.KeepsGlobals`.
Does not own: what declarations outside all scopes do (`Proofs.Scope.Knowledge`).
-/

namespace LoxInterpreter.Resolving

variable {α β : Type} {before after : Resolver}

/-! ## Expressions -/

/-- Whether a walk changes nothing but what was decided. -/
def DecidesOnly (walk : Resolving α) : Prop :=
  ∀ before, ∃ decided, (walk.outcome before).2 = { before with decided := decided }

theorem decidesOnly_steps :
    ExpressionSteps fun before after => ∃ decided, after = { before with decided := decided } where
  refl resolver := ⟨resolver.decided, rfl⟩
  trans := by
    rintro first second third ⟨decided, rfl⟩ ⟨later, rfl⟩
    exact ⟨later, rfl⟩
  decide resolver binding := ⟨resolver.decided.push binding, rfl⟩

/-- Walking an expression changes nothing but what was decided. -/
theorem expression_decidesOnly (tree : Expression Unit) : (expression tree).DecidesOnly :=
  decidesOnly_steps.laws.expression tree

theorem optionalExpression_decidesOnly (tree : Option (Expression Unit)) :
    (optionalExpression tree).DecidesOnly :=
  decidesOnly_steps.laws.optionalExpression tree

theorem DecidesOnly.map {walk : Resolving α} (decides : walk.DecidesOnly) (build : α → β) :
    (do return build (← walk) : Resolving β).DecidesOnly :=
  decidesOnly_steps.laws.map decides build

theorem returning_decidesOnly (line : Nat) (value : Option (Expression Unit)) :
    (statement (.returning line value)).DecidesOnly := by
  rw [statement]
  exact decidesOnly_steps.leaves_insideFunction _ ((optionalExpression_decidesOnly value).map _)

theorem DecidesOnly.of_gives {walk : Resolving α} (decides : walk.DecidesOnly) {result : α}
    (gives : walk.Gives before result after) :
    ∃ decided, after = { before with decided := decided } := by
  have ⟨decided, left⟩ := decides before
  have ends : walk.outcome before = (.ok result, after) := gives
  rw [ends] at left
  exact ⟨decided, left⟩

theorem DecidesOnly.scopes_eq {walk : Resolving α} (decides : walk.DecidesOnly) {result : α}
    (gives : walk.Gives before result after) : after.scopes = before.scopes := by
  have ⟨decided, left⟩ := decides.of_gives gives
  rw [left]

theorem DecidesOnly.inFunction_eq {walk : Resolving α} (decides : walk.DecidesOnly) {result : α}
    (gives : walk.Gives before result after) : after.inFunction = before.inFunction := by
  have ⟨decided, left⟩ := decides.of_gives gives
  rw [left]

/-! ## Statements -/

/-- Whether a walk from some resolver leaves the globals as they were, and as many scopes if it meets
no mistake. -/
def KeepsGlobals (walk : Resolving α) (before : Resolver) : Prop :=
  (walk.outcome before).2.globals = before.globals ∧
    ∀ result after, walk.Gives before result after → after.scopes.length = before.scopes.length

theorem keepsGlobals_pure (value : α) : (pure value : Resolving α).KeepsGlobals before := by
  refine ⟨rfl, fun result after gives => ?_⟩
  rw [(gives_pure_iff.mp gives).2]

theorem DecidesOnly.keepsGlobals {walk : Resolving α} (decides : walk.DecidesOnly) (before : Resolver) :
    walk.KeepsGlobals before := by
  constructor
  · have ⟨decided, left⟩ := decides before
    rw [left]
  · intro result after gives
    have ⟨decided, left⟩ := decides.of_gives gives
    rw [left]

theorem KeepsGlobals.bind {first : Resolving α} {next : α → Resolving β}
    (keeps : first.KeepsGlobals before)
    (rest : ∀ value between, between.scopes.length = before.scopes.length →
      (next value).KeepsGlobals between) : (first >>= next).KeepsGlobals before := by
  have ⟨sameGlobals, sameDepth⟩ := keeps
  constructor
  · rw [outcome_bind]
    cases ends : first.outcome before with
    | mk result between =>
        rw [ends] at sameGlobals
        cases result with
        | ok value => exact ((rest value between (sameDepth value between ends)).1).trans sameGlobals
        | error mistake => exact sameGlobals
  · intro result after gives
    have ⟨value, between, one, two⟩ := gives_bind_iff.mp gives
    have depth := sameDepth value between one
    exact ((rest value between depth).2 result after two).trans depth

theorem KeepsGlobals.map {walk : Resolving α} (keeps : walk.KeepsGlobals before) (build : α → β) :
    (do return build (← walk) : Resolving β).KeepsGlobals before :=
  keeps.bind fun _ _ _ => keepsGlobals_pure _

theorem keepsGlobals_declare (inside : 0 < before.scopes.length) (name : Name) :
    (declare name).KeepsGlobals before := by
  cases scopes : before.scopes with
  | nil => simp [scopes] at inside
  | cons innermost outer =>
      have declared := Resolver.declare?_inside_eq scopes name.text
      by_cases taken : innermost.contains name.text = true
      · rw [if_pos taken] at declared
        constructor
        · unfold declare
          rw [outcome_get_bind, declared]
          rfl
        · intro result after gives
          rw [gives_declare_iff, declared] at gives
          cases gives
      · rw [if_neg taken] at declared
        constructor
        · unfold declare
          rw [outcome_get_bind, declared]
          rfl
        · intro result after gives
          rw [gives_declare_iff, declared] at gives
          cases gives
          rw [scopes]
          rfl

theorem keepsGlobals_define (inside : 0 < before.scopes.length) (name : Name) :
    (define name).KeepsGlobals before := by
  cases scopes : before.scopes with
  | nil => simp [scopes] at inside
  | cons innermost outer =>
      have defined := Resolver.define_inside_eq scopes name.text
      constructor
      · change (before.define name.text).globals = before.globals
        rw [defined]
      · intro result after gives
        rw [gives_define_iff.mp gives, defined, scopes]
        rfl

theorem keepsGlobals_declareReady (names : List Name) (inside : 0 < before.scopes.length) :
    (declareReady names).KeepsGlobals before := by
  induction names generalizing before with
  | nil => exact keepsGlobals_pure ()
  | cons name rest inductionHypothesis =>
      apply (keepsGlobals_declare inside name).bind
      intro _ declared depth
      apply (keepsGlobals_define (depth ▸ inside) name).bind
      intro _ defined depth'
      exact inductionHypothesis ((depth'.trans depth) ▸ inside)

/-- What is walked in a scope of its own keeps the globals wherever the scope stands. -/
theorem keepsGlobals_inScope {walk : Resolving α} (keeps : walk.KeepsGlobals before.enterScope) :
    (inScope walk).KeepsGlobals before := by
  have ⟨sameGlobals, sameDepth⟩ := keeps
  constructor
  · unfold inScope
    rw [outcome_modify_bind, outcome_bind]
    revert sameGlobals
    cases walk.outcome before.enterScope with
    | mk result inside => cases result <;> exact id
  · intro result after gives
    have ⟨inside, walked, left⟩ := gives_inScope_iff.mp gives
    have depth := sameDepth result inside walked
    rw [left]
    change inside.scopes.tail.length = before.scopes.length
    rw [List.length_tail, depth]
    rfl

theorem keepsGlobals_inBody {walk : Resolving α}
    (keeps : walk.KeepsGlobals { before with inFunction := true }.enterScope) :
    (inBody walk).KeepsGlobals before := by
  have ⟨sameGlobals, sameDepth⟩ := keepsGlobals_inScope keeps
  constructor
  · unfold inBody
    rw [outcome_get_bind, outcome_modify_bind, outcome_bind]
    revert sameGlobals
    cases (inScope walk).outcome { before with inFunction := true } with
    | mk result inside => cases result <;> exact id
  · intro result after gives
    have ⟨inside, walked, left⟩ := gives_inBody_iff.mp gives
    rw [left]
    exact sameDepth result inside.leaveScope (gives_inScope_iff.mpr ⟨inside, walked, rfl⟩)

mutual

/-- A statement keeps the globals inside a scope, and anywhere if it declares nothing itself. -/
theorem statement_keepsGlobals : (tree : Statement Unit) → (before : Resolver) → tree.Normal →
    (0 < before.scopes.length ∨ tree.isDeclaration = false) → (statement tree).KeepsGlobals before
  | .expression value, before, _, _ => by
      rw [statement]
      exact ((expression_decidesOnly value).map _).keepsGlobals before
  | .print value, before, _, _ => by
      rw [statement]
      exact ((expression_decidesOnly value).map _).keepsGlobals before
  | .declaration name initializer, before, _, place => by
      have inside := place.resolve_right (by simp [Statement.isDeclaration])
      rw [statement]
      apply (keepsGlobals_declare inside name).bind
      intro _ declared depth
      apply ((optionalExpression_decidesOnly initializer).keepsGlobals declared).bind
      intro _ initialized depth'
      apply (keepsGlobals_define ((depth'.trans depth) ▸ inside) name).bind
      intro _ _ _
      exact keepsGlobals_pure _
  | .function name parameters body, before, normal, place => by
      have inside := place.resolve_right (by simp [Statement.isDeclaration])
      rw [statement]
      apply (keepsGlobals_declare inside name).bind
      intro _ declared depth
      apply (keepsGlobals_define (depth ▸ inside) name).bind
      intro _ defined _
      exact (body_keepsGlobals parameters body defined normal.2).map _
  | .block items, before, normal, _ => by
      rw [statement]
      have inside := statements_keepsGlobals items before.enterScope normal (Nat.succ_pos _)
      exact (keepsGlobals_inScope inside).map _
  | .conditional condition thenBranch none, before, normal, _ => by
      have ⟨_, plain, normalThen⟩ := normal
      rw [statement]
      apply ((expression_decidesOnly condition).keepsGlobals before).bind
      intro _ tested _
      exact (statement_keepsGlobals thenBranch tested normalThen (.inr plain)).map _
  | .conditional condition thenBranch (some elseBranch), before, normal, _ => by
      have ⟨_, ⟨plainThen, _, normalThen⟩, plainElse, normalElse⟩ := normal
      rw [statement]
      apply ((expression_decidesOnly condition).keepsGlobals before).bind
      intro _ tested _
      apply (statement_keepsGlobals thenBranch tested normalThen (.inr plainThen)).bind
      intro _ chosen _
      exact (statement_keepsGlobals elseBranch chosen normalElse (.inr plainElse)).map _
  | .loop condition body, before, normal, _ => by
      have ⟨_, plain, normalBody⟩ := normal
      rw [statement]
      apply ((expression_decidesOnly condition).keepsGlobals before).bind
      intro _ tested _
      exact (statement_keepsGlobals body tested normalBody (.inr plain)).map _
  | .returning line value, before, _, _ => (returning_decidesOnly line value).keepsGlobals before

/-- A function body keeps the globals wherever the function stands. -/
theorem body_keepsGlobals (parameters : List Name) (body : List (Statement Unit)) (before : Resolver)
    (normal : Statement.listNormal body) :
    (inBody do
      declareReady parameters
      statements body).KeepsGlobals before := by
  apply keepsGlobals_inBody
  have inside : 0 < ({ before with inFunction := true }.enterScope : Resolver).scopes.length :=
    Nat.succ_pos _
  apply (keepsGlobals_declareReady parameters inside).bind
  intro _ ready depth
  exact statements_keepsGlobals body ready normal (depth ▸ inside)

theorem statements_keepsGlobals : (trees : List (Statement Unit)) → (before : Resolver) →
    Statement.listNormal trees → 0 < before.scopes.length → (statements trees).KeepsGlobals before
  | [], before, _, _ => by
      rw [statements]
      exact keepsGlobals_pure _
  | first :: rest, before, normal, inside => by
      rw [statements]
      apply (statement_keepsGlobals first before normal.1 (.inl inside)).bind
      intro _ between depth
      exact (statements_keepsGlobals rest between normal.2 (depth ▸ inside)).map _

end

end LoxInterpreter.Resolving
