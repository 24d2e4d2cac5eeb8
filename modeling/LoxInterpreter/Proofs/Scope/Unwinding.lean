import LoxInterpreter.Proofs.Scope.Walking

/-!
Contract: how a walk is left at a mistake.

A walk that meets a mistake is left at once. On its way out each function body that it is in closes one scope,
and the blocks close none, so that scopes are closed out of order and some stay open. There is always one to
close all the same, since as many were opened for bodies, and none of this is seen in the end: behind a mistake
the resolver is outside all scopes and functions whatever was left open.

Owns: `Unwinding`, `Resolver.resolveUnwinding`, and `Resolver.resolveUnwinding_eq`.
-/

namespace LoxInterpreter

/-- Why a walk that closes its scopes itself ends early. -/
inductive Interruption where
  | mistake (error : ScopeError)
  /-- A scope is to be closed and none is open. -/
  | noScope

/-- A step of a walk that closes its scopes itself. -/
abbrev Unwinding := ExceptT Interruption (StateM Resolver)

namespace Unwinding

variable {α β : Type}

/-- Steps that open no scope. -/
def ofSteps (walk : Resolving α) : Unwinding α := ExceptT.adapt .mistake walk

/-- Closes the innermost scope. -/
def closeScope : Unwinding Unit := do
  match (← get).scopes with
  | [] => throw .noScope
  | _ :: outer => modify fun resolver => { resolver with scopes := outer }

/-- Walks, and does something more then, however the walk ends. -/
def finishing (walk : Unwinding α) (last : Unwinding Unit) : Unwinding α := do
  let result ← tryCatch walk fun interruption => do
    last
    throw interruption
  last
  return result

/-- Walks what stands in a block. At a mistake its scope stays open. -/
def inScope (walk : Unwinding α) : Unwinding α := do
  modify Resolver.enterScope
  let result ← walk
  closeScope
  return result

/-- Walks the body of a function. At a mistake it is left as it is left otherwise. -/
def inBody (walk : Unwinding α) : Unwinding α := do
  let enclosing := (← get).inFunction
  modify fun resolver => { resolver with inFunction := true }
  modify Resolver.enterScope
  finishing walk do
    closeScope
    modify fun resolver => { resolver with inFunction := enclosing }

mutual

/-- A statement with its references decided. -/
def statement : Statement Unit → Unwinding (Statement Binding)
  | .function name parameters body => do
      ofSteps (Resolving.declare name)
      ofSteps (Resolving.define name)
      let body ← inBody do
        ofSteps (Resolving.declareReady parameters)
        statements body
      return .function name parameters body
  | .block items => return .block (← inScope (statements items))
  | .conditional condition thenBranch none =>
      return .conditional (← ofSteps (Resolving.expression condition)) (← statement thenBranch) none
  | .conditional condition thenBranch (some elseBranch) =>
      return .conditional (← ofSteps (Resolving.expression condition)) (← statement thenBranch)
        (some (← statement elseBranch))
  | .loop condition body =>
      return .loop (← ofSteps (Resolving.expression condition)) (← statement body)
  | .expression value => ofSteps (Resolving.statement (.expression value))
  | .print value => ofSteps (Resolving.statement (.print value))
  | .declaration name initializer => ofSteps (Resolving.statement (.declaration name initializer))
  | .returning line value => ofSteps (Resolving.statement (.returning line value))

/-- Statements from first to last. -/
def statements : List (Statement Unit) → Unwinding (List (Statement Binding))
  | [] => return []
  | first :: rest => return (← statement first) :: (← statements rest)

end

/-- How a walk ends that starts with some resolver. -/
def outcome (walk : Unwinding α) (before : Resolver) : Except Interruption α × Resolver :=
  walk.run.run before

end Unwinding

/-- Resolves a program by a walk that closes its scopes itself. Behind a mistake the resolver recovers. -/
def Resolver.resolveUnwinding (resolver : Resolver) (program : List (Statement Unit)) :
    Except Interruption (List (Statement Binding)) × Resolver :=
  match (Unwinding.statements program).outcome resolver with
  | (.error (.mistake mistake), left) => (.error (.mistake mistake), left.recovered)
  | ended => ended

namespace Unwinding

variable {α β : Type}

theorem outcome_bind (first : Unwinding α) (next : α → Unwinding β) (before : Resolver) :
    (first >>= next).outcome before =
      match first.outcome before with
      | (.ok value, between) => (next value).outcome between
      | (.error interruption, between) => (.error interruption, between) := by
  unfold outcome ExceptT.run StateT.run
  simp only [bind, ExceptT.bind, ExceptT.mk, StateT.bind, ExceptT.bindCont]
  cases first before with
  | mk result between => cases result <;> rfl

theorem outcome_get_bind (next : Resolver → Unwinding β) (before : Resolver) :
    (get >>= next).outcome before = (next before).outcome before := by
  rw [outcome_bind]
  rfl

theorem outcome_modify_bind (change : Resolver → Resolver) (next : Unit → Unwinding β)
    (before : Resolver) : (modify change >>= next).outcome before = (next ()).outcome (change before) := by
  rw [outcome_bind]
  rfl

theorem outcome_ofSteps (walk : Resolving α) (before : Resolver) :
    (ofSteps walk).outcome before =
      match walk.outcome before with
      | (.ok value, after) => (.ok value, after)
      | (.error mistake, after) => (.error (.mistake mistake), after) := by
  change (match walk.outcome before with
    | (result, after) => (result.mapError Interruption.mistake, after)) = _
  cases walk.outcome before with
  | mk result after => cases result <;> rfl

theorem outcome_tryCatch (walk : Unwinding α) (handle : Interruption → Unwinding α) (before : Resolver) :
    (tryCatch walk handle).outcome before =
      match walk.outcome before with
      | (.ok value, after) => (.ok value, after)
      | (.error interruption, after) => (handle interruption).outcome after := by
  unfold outcome ExceptT.run StateT.run
  simp only [tryCatch, tryCatchThe, MonadExceptOf.tryCatch, ExceptT.tryCatch, ExceptT.mk, bind, StateT.bind]
  cases walk before with
  | mk result after => cases result <;> rfl

theorem outcome_closeScope {before : Resolver} (isOpen : 0 < before.scopes.length) :
    closeScope.outcome before = (.ok (), before.leaveScope) := by
  obtain ⟨scopes, globals, inFunction, decided⟩ := before
  cases scopes with
  | nil => cases isOpen
  | cons innermost outer => rfl

/-- What is done last is done behind a walk and behind an interruption of it. -/
theorem outcome_finishing {walk : Unwinding α} {last : Unwinding Unit} {before after left : Resolver}
    {result : Except Interruption α} (ends : walk.outcome before = (result, after))
    (finishes : last.outcome after = (.ok (), left)) :
    (finishing walk last).outcome before = (result, left) := by
  unfold finishing
  rw [outcome_bind, outcome_tryCatch, ends]
  cases result with
  | ok value =>
      dsimp only
      rw [outcome_bind, finishes]
      rfl
  | error interruption =>
      dsimp only
      rw [outcome_bind, finishes]
      rfl

/-! ## Walks that end alike -/

/-- Whether a walk that closes its scopes itself ends as another one does. It gives the same and leaves the same
resolver, with as many scopes open as before; or it meets the same mistake, with the same globals and
decisions, and at least as many scopes are open. -/
def EndsAs (before : Resolver) (first : Except ScopeError α × Resolver)
    (second : Except Interruption α × Resolver) : Prop :=
  match first with
  | (.ok value, after) => second = (.ok value, after) ∧ after.scopes.length = before.scopes.length
  | (.error mistake, after) => ∃ left, second = (.error (.mistake mistake), left) ∧
      left.globals = after.globals ∧ left.decided = after.decided ∧
      before.scopes.length ≤ left.scopes.length

/-- Whether a walk that closes its scopes itself ends as another one does, from every resolver. -/
def Follows (unwinding : Unwinding α) (walk : Resolving α) : Prop :=
  ∀ before, EndsAs before (walk.outcome before) (unwinding.outcome before)

theorem follows_pure (value : α) : Follows (pure value) (pure value) := fun _ => ⟨rfl, rfl⟩

theorem Follows.bind {first : Unwinding α} {first' : Resolving α} {next : α → Unwinding β}
    {next' : α → Resolving β} (follows : first.Follows first')
    (rest : ∀ value, (next value).Follows (next' value)) : (first >>= next).Follows (first' >>= next') := by
  intro before
  have ends := follows before
  rw [outcome_bind, Resolving.outcome_bind]
  revert ends
  cases first'.outcome before with
  | mk result between =>
      cases result with
      | ok value =>
          intro ⟨same, depth⟩
          have behind := rest value between
          rw [same]
          dsimp only
          unfold EndsAs at behind ⊢
          rwa [depth] at behind
      | error mistake =>
          intro ⟨left, stops, kept⟩
          rw [stops]
          exact ⟨left, rfl, kept⟩

theorem Follows.map {unwinding : Unwinding α} {walk : Resolving α} (follows : unwinding.Follows walk)
    (build : α → β) :
    Follows (do return build (← unwinding)) (do return build (← walk)) :=
  follows.bind fun _ => follows_pure _

/-! ## Scopes -/

/-- A block closes the scope that it opened, unless it is left at a mistake. -/
theorem Follows.inScope {unwinding : Unwinding α} {walk : Resolving α} (follows : unwinding.Follows walk) :
    (inScope unwinding).Follows (Resolving.inScope walk) := by
  intro before
  have ends := follows before.enterScope
  unfold Unwinding.inScope Resolving.inScope
  rw [outcome_modify_bind, Resolving.outcome_modify_bind, outcome_bind, Resolving.outcome_bind]
  revert ends
  cases walk.outcome before.enterScope with
  | mk result inside =>
      cases result with
      | ok value =>
          intro ⟨same, depth⟩
          have isOpen : 0 < inside.scopes.length := depth ▸ Nat.succ_pos _
          rw [same]
          dsimp only
          rw [outcome_bind, outcome_closeScope isOpen]
          refine ⟨rfl, ?_⟩
          change inside.scopes.tail.length = before.scopes.length
          rw [List.length_tail, depth]
          rfl
      | error mistake =>
          intro ⟨left, stops, sameGlobals, sameDecided, deep⟩
          rw [stops]
          exact ⟨left, rfl, sameGlobals, sameDecided, Nat.le_of_succ_le deep⟩

/-- The body of a function closes one scope, in any case. At a mistake that need not be its own. -/
theorem Follows.inBody {unwinding : Unwinding α} {walk : Resolving α} (follows : unwinding.Follows walk) :
    (inBody unwinding).Follows (Resolving.inBody walk) := by
  intro before
  have ends := follows ({ before with inFunction := true } : Resolver).enterScope
  have leaves {inside : Resolver} (isOpen : 0 < inside.scopes.length) :
      (do
        closeScope
        modify fun resolver => { resolver with inFunction := before.inFunction } : Unwinding Unit).outcome
          inside = (.ok (), { inside.leaveScope with inFunction := before.inFunction }) := by
    rw [outcome_bind, outcome_closeScope isOpen]
    rfl
  unfold Unwinding.inBody Resolving.inBody
  rw [outcome_get_bind, Resolving.outcome_get_bind]
  dsimp only
  rw [outcome_modify_bind, Resolving.outcome_modify_bind, outcome_modify_bind, Resolving.outcome_bind]
  unfold Resolving.inScope
  rw [Resolving.outcome_modify_bind, Resolving.outcome_bind]
  revert ends
  cases walk.outcome ({ before with inFunction := true } : Resolver).enterScope with
  | mk result inside =>
      cases result with
      | ok value =>
          intro ⟨same, depth⟩
          have isOpen : 0 < inside.scopes.length := depth ▸ Nat.succ_pos _
          refine ⟨outcome_finishing same (leaves isOpen), ?_⟩
          change inside.scopes.tail.length = before.scopes.length
          rw [List.length_tail, depth]
          rfl
      | error mistake =>
          intro ⟨left, stops, sameGlobals, sameDecided, deep⟩
          have isOpen : 0 < left.scopes.length := Nat.lt_of_lt_of_le (Nat.succ_pos _) deep
          refine ⟨_, outcome_finishing stops (leaves isOpen), sameGlobals, sameDecided, ?_⟩
          change before.scopes.length ≤ left.scopes.tail.length
          rw [List.length_tail]
          exact Nat.le_sub_one_of_lt deep

/-! ## Steps that open no scope -/

/-- Whether a walk leaves as many scopes as it found, at a mistake too. -/
def KeepsDepth (walk : Resolving α) : Prop :=
  ∀ before, (walk.outcome before).2.scopes.length = before.scopes.length

theorem follows_ofSteps {walk : Resolving α} (keeps : KeepsDepth walk) : (ofSteps walk).Follows walk := by
  intro before
  have depth := keeps before
  rw [outcome_ofSteps]
  revert depth
  cases walk.outcome before with
  | mk result after =>
      intro depth
      cases result with
      | ok value => exact ⟨rfl, depth⟩
      | error mistake => exact ⟨after, rfl, rfl, rfl, Nat.le_of_eq depth.symm⟩

theorem keepsDepth_of_decidesOnly {walk : Resolving α} (decides : walk.DecidesOnly) : KeepsDepth walk := by
  intro before
  have ⟨decided, left⟩ := decides before
  rw [left]

theorem depth_steps :
    Resolving.ExpressionSteps fun before after => after.scopes.length = before.scopes.length where
  refl _ := rfl
  trans first second := second.trans first
  decide _ _ := rfl

theorem KeepsDepth.bind {first : Resolving α} {next : α → Resolving β} (keeps : KeepsDepth first)
    (rest : ∀ value, KeepsDepth (next value)) : KeepsDepth (first >>= next) :=
  depth_steps.leaves_bind keeps rest

theorem keepsDepth_define (name : Name) : KeepsDepth (Resolving.define name) := by
  intro before
  change (before.define name.text).scopes.length = before.scopes.length
  cases scopes : before.scopes with
  | nil =>
      rw [Resolver.define_outside_eq scopes, ← scopes]
  | cons innermost outer =>
      rw [Resolver.define_inside_eq scopes]
      rfl

theorem keepsDepth_declare (name : Name) : KeepsDepth (Resolving.declare name) := by
  intro before
  rw [Resolving.declare_outcome]
  cases declares : before.declare? name.text with
  | none => rfl
  | some declared =>
      change declared.scopes.length = before.scopes.length
      cases scopes : before.scopes with
      | nil =>
          rw [Resolver.declare?_outside_eq scopes] at declares
          split at declares
          · cases declares
            rw [scopes]
          · cases declares
            rw [scopes]
      | cons innermost outer =>
          rw [Resolver.declared_inside scopes declares]
          rfl

theorem keepsDepth_declareReady (names : List Name) : KeepsDepth (Resolving.declareReady names) := by
  induction names with
  | nil => exact fun _ => rfl
  | cons name rest inductionHypothesis =>
      apply (keepsDepth_declare name).bind
      intro _
      exact (keepsDepth_define name).bind fun _ => inductionHypothesis

theorem keepsDepth_declaration (name : Name) (initializer : Option (Expression Unit)) :
    KeepsDepth (Resolving.statement (.declaration name initializer)) := by
  rw [Resolving.statement]
  apply (keepsDepth_declare name).bind
  intro _
  apply (keepsDepth_of_decidesOnly (Resolving.optionalExpression_decidesOnly initializer)).bind
  intro _
  exact (keepsDepth_define name).bind fun _ _ => rfl

/-! ## Trees -/

theorem follows_expression (tree : Expression Unit) :
    (ofSteps (Resolving.expression tree)).Follows (Resolving.expression tree) :=
  follows_ofSteps (keepsDepth_of_decidesOnly (Resolving.expression_decidesOnly tree))

mutual

/-- A walk through a statement ends alike whether it closes its scopes itself or not. -/
theorem statement_follows : (tree : Statement Unit) → (statement tree).Follows (Resolving.statement tree)
  | .expression value => by
      rw [statement, Resolving.statement]
      exact follows_ofSteps (keepsDepth_of_decidesOnly ((Resolving.expression_decidesOnly value).map _))
  | .print value => by
      rw [statement, Resolving.statement]
      exact follows_ofSteps (keepsDepth_of_decidesOnly ((Resolving.expression_decidesOnly value).map _))
  | .declaration name initializer => by
      rw [statement]
      exact follows_ofSteps (keepsDepth_declaration name initializer)
  | .returning line value => by
      rw [statement]
      exact follows_ofSteps (keepsDepth_of_decidesOnly (Resolving.returning_decidesOnly line value))
  | .function name parameters body => by
      rw [statement, Resolving.statement]
      apply (follows_ofSteps (keepsDepth_declare name)).bind
      intro _
      apply (follows_ofSteps (keepsDepth_define name)).bind
      intro _
      have ready := follows_ofSteps (keepsDepth_declareReady parameters)
      exact (ready.bind fun _ => statements_follows body).inBody.map _
  | .block items => by
      rw [statement, Resolving.statement]
      exact (statements_follows items).inScope.map _
  | .conditional condition thenBranch none => by
      rw [statement, Resolving.statement]
      exact (follows_expression condition).bind fun _ => (statement_follows thenBranch).map _
  | .conditional condition thenBranch (some elseBranch) => by
      rw [statement, Resolving.statement]
      apply (follows_expression condition).bind
      intro _
      exact (statement_follows thenBranch).bind fun _ => (statement_follows elseBranch).map _
  | .loop condition body => by
      rw [statement, Resolving.statement]
      exact (follows_expression condition).bind fun _ => (statement_follows body).map _

theorem statements_follows : (trees : List (Statement Unit)) →
    (statements trees).Follows (Resolving.statements trees)
  | [] => by
      rw [statements, Resolving.statements]
      exact follows_pure _
  | first :: rest => by
      rw [statements, Resolving.statements]
      exact (statement_follows first).bind fun _ => (statements_follows rest).map _

end

end Unwinding

/-- A walk that closes its scopes itself always finds one to close, and resolves every program as one that
leaves them. -/
theorem Resolver.resolveUnwinding_eq (resolver : Resolver) (program : List (Statement Unit)) :
    resolver.resolveUnwinding program =
      ((resolver.resolve program).1.mapError .mistake, (resolver.resolve program).2) := by
  have ends := Unwinding.statements_follows program resolver
  unfold resolveUnwinding resolve
  unfold Resolving.outcome at ends
  revert ends
  cases (Resolving.statements program).run.run resolver with
  | mk result after =>
      cases result with
      | ok resolved =>
          intro ⟨same, _⟩
          rw [same]
          rfl
      | error mistake =>
          intro ⟨left, stops, sameGlobals, sameDecided, _⟩
          rw [stops]
          refine Prod.ext rfl ?_
          change left.recovered = after.recovered
          unfold recovered
          rw [sameGlobals, sameDecided]

end LoxInterpreter
