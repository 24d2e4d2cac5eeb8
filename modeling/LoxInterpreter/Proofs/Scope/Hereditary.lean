import LoxInterpreter.Proofs.Scope.Resolving

/-!
Contract: what walks through trees inherit from their steps.

A walk is put together from a few steps, by sequences, scopes and bodies. What the steps have and putting
together keeps, all walks have, so that an induction over trees is made once and not for each property. One
such property is that what a walk leaves, to its end or at a mistake, is related to what it started with.

Owns: `Resolving.ExpressionLaws`, `Resolving.StatementLaws`, that walks inherit what fulfils them, and
`Resolving.Leaves`.
Does not own: any such property.
-/

namespace LoxInterpreter.Resolving

/-- What a property of walks has to fulfil so that walks through expressions inherit it. -/
structure ExpressionLaws (Property : {α : Type} → Resolving α → Prop) : Prop where
  pure : ∀ {α : Type} (value : α), Property (pure value : Resolving α)
  bind : ∀ {α β : Type} {first : Resolving α} {next : α → Resolving β},
    Property first → (∀ value, Property (next value)) → Property (first >>= next)
  readReference : ∀ name, Property (readReference name)
  assignedReference : ∀ name, Property (assignedReference name)

/-- What a property of walks has to fulfil so that walks through statements inherit it. -/
structure StatementLaws (Property : {α : Type} → Resolving α → Prop) : Prop
    extends ExpressionLaws Property where
  declare : ∀ name, Property (declare name)
  define : ∀ name, Property (define name)
  inScope : ∀ {α : Type} {walk : Resolving α}, Property walk → Property (inScope walk)
  inBody : ∀ {α : Type} {walk : Resolving α}, Property walk → Property (inBody walk)
  insideFunction : ∀ {α : Type} {walk : Resolving α} (token : Token), Property walk →
    Property (do
      unless (← get).inFunction do
        stop .returnOutsideFunction token
      walk)

variable {Property : {α : Type} → Resolving α → Prop}

namespace ExpressionLaws

theorem map {α β : Type} {walk : Resolving α} (laws : ExpressionLaws Property) (has : Property walk)
    (build : α → β) : Property (do return build (← walk) : Resolving β) :=
  laws.bind has fun _ => laws.pure _

mutual

/-- A walk through an expression inherits. -/
theorem expression (laws : ExpressionLaws Property) :
    (tree : Expression Unit) → Property (expression tree)
  | .constant value => by
      rw [Resolving.expression]
      exact laws.pure _
  | .grouping inner => by
      rw [Resolving.expression]
      exact laws.map (laws.expression inner) _
  | .variable name _ => by
      rw [Resolving.expression]
      exact laws.map (laws.readReference name) _
  | .assignment name _ value => by
      rw [Resolving.expression]
      exact laws.bind (laws.expression value) fun _ => laws.map (laws.assignedReference name) _
  | .unary operator line operand => by
      rw [Resolving.expression]
      exact laws.map (laws.expression operand) _
  | .binary operator line left right => by
      rw [Resolving.expression]
      exact laws.bind (laws.expression left) fun _ => laws.map (laws.expression right) _
  | .logical operator line left right => by
      rw [Resolving.expression]
      exact laws.bind (laws.expression left) fun _ => laws.map (laws.expression right) _
  | .call callee arguments line => by
      rw [Resolving.expression]
      exact laws.bind (laws.expression callee) fun _ => laws.map (laws.expressions arguments) _

theorem expressions (laws : ExpressionLaws Property) :
    (trees : List (Expression Unit)) → Property (expressions trees)
  | [] => by
      rw [Resolving.expressions]
      exact laws.pure _
  | first :: rest => by
      rw [Resolving.expressions]
      exact laws.bind (laws.expression first) fun _ => laws.map (laws.expressions rest) _

end

theorem optionalExpression (laws : ExpressionLaws Property) (tree : Option (Expression Unit)) :
    Property (optionalExpression tree) := by
  cases tree with
  | none => exact laws.pure none
  | some value => exact laws.map (laws.expression value) _

end ExpressionLaws

namespace StatementLaws

theorem declareReady (laws : StatementLaws Property) (names : List Name) :
    Property (declareReady names) := by
  induction names with
  | nil => exact laws.pure ()
  | cons name rest inductionHypothesis =>
      apply laws.bind (laws.declare name)
      intro _
      exact laws.bind (laws.define name) fun _ => inductionHypothesis

mutual

/-- A walk through a statement inherits. -/
theorem statement (laws : StatementLaws Property) :
    (tree : Statement Unit) → Property (statement tree)
  | .expression value => by
      rw [Resolving.statement]
      exact laws.map (laws.expression value) _
  | .print value => by
      rw [Resolving.statement]
      exact laws.map (laws.expression value) _
  | .declaration name initializer => by
      rw [Resolving.statement]
      apply laws.bind (laws.declare name)
      intro _
      apply laws.bind (laws.optionalExpression initializer)
      intro _
      exact laws.bind (laws.define name) fun _ => laws.pure _
  | .function name parameters body => by
      rw [Resolving.statement]
      apply laws.bind (laws.declare name)
      intro _
      apply laws.bind (laws.define name)
      intro _
      have inside := laws.bind (laws.declareReady parameters) fun _ => laws.statements body
      exact laws.map (laws.inBody inside) _
  | .block items => by
      rw [Resolving.statement]
      exact laws.map (laws.inScope (laws.statements items)) _
  | .conditional condition thenBranch none => by
      rw [Resolving.statement]
      exact laws.bind (laws.expression condition) fun _ => laws.map (laws.statement thenBranch) _
  | .conditional condition thenBranch (some elseBranch) => by
      rw [Resolving.statement]
      apply laws.bind (laws.expression condition)
      intro _
      exact laws.bind (laws.statement thenBranch) fun _ => laws.map (laws.statement elseBranch) _
  | .loop condition body => by
      rw [Resolving.statement]
      exact laws.bind (laws.expression condition) fun _ => laws.map (laws.statement body) _
  | .returning line value => by
      rw [Resolving.statement]
      exact laws.insideFunction _ (laws.map (laws.optionalExpression value) _)

theorem statements (laws : StatementLaws Property) :
    (trees : List (Statement Unit)) → Property (statements trees)
  | [] => by
      rw [Resolving.statements]
      exact laws.pure _
  | first :: rest => by
      rw [Resolving.statements]
      exact laws.bind (laws.statement first) fun _ => laws.map (laws.statements rest) _

end

end StatementLaws

/-! ## What walks leave -/

/-- Whether what a walk leaves is related to what it started with, at a mistake too. -/
def Leaves (relation : Resolver → Resolver → Prop) {α : Type} (walk : Resolving α) : Prop :=
  ∀ before, relation before (walk.outcome before).2

/-- What a relation has to fulfil so that walks through expressions leave what is related. -/
structure ExpressionSteps (relation : Resolver → Resolver → Prop) : Prop where
  refl : ∀ resolver, relation resolver resolver
  trans : ∀ {first second third}, relation first second → relation second third → relation first third
  decide : ∀ resolver binding, relation resolver (Resolver.decide resolver binding)

/-- What a relation has to fulfil so that walks through statements leave what is related. -/
structure StatementSteps (relation : Resolver → Resolver → Prop) : Prop
    extends ExpressionSteps relation where
  declare : ∀ {resolver declared name}, Resolver.declare? resolver name = some declared →
    relation resolver declared
  define : ∀ resolver name, relation resolver (Resolver.define resolver name)
  setScopes : ∀ (resolver : Resolver) scopes, relation resolver { resolver with scopes := scopes }
  setInFunction : ∀ (resolver : Resolver) inFunction,
    relation resolver { resolver with inFunction := inFunction }

section Leaves

variable {relation : Resolver → Resolver → Prop} {α β : Type}

theorem leaves_modify {change : Resolver → Resolver} (steps : ∀ before, relation before (change before)) :
    Leaves relation (modify change) :=
  steps

theorem leaves_get_bind {next : Resolver → Resolving β} (rest : ∀ seen, Leaves relation (next seen)) :
    Leaves relation (get >>= next) := by
  intro before
  rw [outcome_get_bind]
  exact rest before before

namespace ExpressionSteps

theorem leaves_pure (steps : ExpressionSteps relation) (value : α) : Leaves relation (pure value) :=
  steps.refl

theorem leaves_stop (steps : ExpressionSteps relation) (cause : ScopeError.Cause) (token : Token) :
    Leaves relation (stop cause token : Resolving α) :=
  steps.refl

theorem leaves_bind (steps : ExpressionSteps relation) {first : Resolving α} {next : α → Resolving β}
    (leaves : Leaves relation first) (rest : ∀ value, Leaves relation (next value)) :
    Leaves relation (first >>= next) := by
  intro before
  have between := leaves before
  rw [outcome_bind]
  revert between
  cases first.outcome before with
  | mk result left =>
      intro between
      cases result with
      | ok value => exact steps.trans between (rest value left)
      | error mistake => exact between

theorem leaves_decide (steps : ExpressionSteps relation) (binding : Binding) :
    Leaves relation (Resolving.decide binding) :=
  steps.leaves_bind (leaves_modify fun before => steps.decide before binding) fun _ => steps.leaves_pure _

theorem leaves_readReference (steps : ExpressionSteps relation) (name : Name) :
    Leaves relation (readReference name) := by
  apply leaves_get_bind
  intro seen
  split
  · exact steps.leaves_decide _
  · exact steps.leaves_stop _ _

theorem laws (steps : ExpressionSteps relation) : ExpressionLaws (@Leaves relation) where
  pure := steps.leaves_pure
  bind := steps.leaves_bind
  readReference := steps.leaves_readReference
  assignedReference _ := leaves_get_bind fun _ => steps.leaves_decide _

theorem leaves_insideFunction (steps : ExpressionSteps relation) {walk : Resolving α} (token : Token)
    (leaves : Leaves relation walk) :
    Leaves relation (do
      unless (← get).inFunction do
        stop .returnOutsideFunction token
      walk) := by
  apply leaves_get_bind
  intro seen
  split
  · exact leaves
  · exact steps.leaves_bind (steps.leaves_stop _ _) fun _ => leaves

end ExpressionSteps

namespace StatementSteps

theorem leaves_declare (steps : StatementSteps relation) (name : Name) :
    Leaves relation (Resolving.declare name) := by
  intro before
  rw [declare_outcome]
  cases declares : before.declare? name.text with
  | none => exact steps.refl before
  | some declared => exact steps.declare declares

theorem leaves_inScope (steps : StatementSteps relation) {walk : Resolving α}
    (leaves : Leaves relation walk) : Leaves relation (inScope walk) := by
  have entering : Leaves relation (modify Resolver.enterScope) :=
    leaves_modify fun before => steps.setScopes before _
  have leaving : Leaves relation (modify Resolver.leaveScope) :=
    leaves_modify fun before => steps.setScopes before _
  apply steps.leaves_bind entering
  intro _
  exact steps.leaves_bind leaves fun result => steps.leaves_bind leaving fun _ => steps.leaves_pure result

theorem leaves_inBody (steps : StatementSteps relation) {walk : Resolving α}
    (leaves : Leaves relation walk) : Leaves relation (inBody walk) := by
  have setting (inFunction : Bool) :
      Leaves relation (modify fun resolver => { resolver with inFunction := inFunction }) :=
    leaves_modify fun before => steps.setInFunction before inFunction
  apply leaves_get_bind
  intro seen
  apply steps.leaves_bind (setting true)
  intro _
  exact steps.leaves_bind (steps.leaves_inScope leaves) fun result =>
    steps.leaves_bind (setting seen.inFunction) fun _ => steps.leaves_pure result

theorem laws (steps : StatementSteps relation) : StatementLaws (@Leaves relation) where
  toExpressionLaws := steps.toExpressionSteps.laws
  declare := steps.leaves_declare
  define name := leaves_modify fun before => steps.define before name.text
  inScope := steps.leaves_inScope
  inBody := steps.leaves_inBody
  insideFunction := steps.leaves_insideFunction

end StatementSteps

end Leaves

end LoxInterpreter.Resolving
