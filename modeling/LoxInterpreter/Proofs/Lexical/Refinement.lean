import LoxInterpreter.Proofs.Lexical.Simulation

/-!
Contract: evaluation with resolved references does what evaluation by names alone does.

Both evaluators use up fuel and calls alike, so the comparison is by induction on the fuel, with one
case for each form. Expressions add slots in new frames alone. Statements add slots in the frame of
their own scope as well, just for the names that they declare.

Owns: `evaluate_and_execute_simulate`.
Does not own: programs as they are read and resolved (`Proofs.Lexical.Programs`).
-/

namespace LoxInterpreter.Lexical

/-- Whether expressions are evaluated alike with some fuel, wherever they are bound. -/
def EvaluatesAlike (fuel : Nat) : Prop :=
  ∀ (calls : Nat) (expression : Expression Binding) (layout : Layout)
    (machine : LoxInterpreter.Machine) (other : Machine) (context : Context) (scope : Scope),
    layout.Relates machine other → layout.Matches context machine.environment scope →
    expression.Bound context none →
    layout.Simulates none machine other (LoxInterpreter.evaluate fuel calls expression)
      (evaluate fuel calls scope (expression.mapKnown fun _ => ()))
      (fun layout' _ => layout'.Related)

/-- Whether statements are executed alike with some fuel, wherever they are bound, and leave code behind
them at matching places. -/
def ExecutesAlike (fuel : Nat) : Prop :=
  ∀ (calls : Nat) (statement : Statement Binding) (layout : Layout)
    (machine : LoxInterpreter.Machine) (other : Machine) (context : Context) (scope : Scope),
    layout.Relates machine other →
    layout.Stands machine.store.frames.size context machine.environment scope →
    statement.Bound context → statement.assignsOwn (!context.isEmpty) = false →
    layout.Simulates machine.environment.head? machine other
      (LoxInterpreter.execute fuel calls statement)
      (execute fuel calls scope (statement.mapKnown fun _ => ()))
      (fun layout' after _ behind => layout'.Stands after.store.frames.size
        (statement.contextBehind context) machine.environment behind)

variable {fuel : Nat} {layout : Layout} {machine : LoxInterpreter.Machine} {other : Machine}
  {context : Context} {scope : Scope}

/-! ## Several expressions, several statements -/

theorem collect_simulates (evaluates : EvaluatesAlike fuel) (calls : Nat)
    {expressions : List (Expression Binding)} (relates : layout.Relates machine other)
    (found : layout.Matches context machine.environment scope)
    (bound : Expression.listBound context none expressions) :
    layout.Simulates none machine other
      (LoxInterpreter.Run.collect (LoxInterpreter.evaluate fuel calls) expressions)
      ((Expression.listMapKnown (fun _ => ()) expressions).mapM (evaluate fuel calls scope))
      (fun layout' _ => List.Forall₂ layout'.Related) := by
  induction expressions generalizing layout machine other with
  | nil => exact .of_pure relates .nil
  | cons first rest inductionHypothesis =>
      rw [LoxInterpreter.Run.collect, Expression.listMapKnown, List.mapM_cons]
      apply Layout.Simulates.bind (evaluates calls first layout machine other context scope relates
        found bound.1)
      intro layout' after after' value value' continues relates' related
      have others := inductionHypothesis relates' (continues.found found) bound.2
      apply Layout.Simulates.bind others
      intro layout'' final final' values values' continues' relates'' relatedRest
      exact .of_pure relates'' (.cons (related.mono continues'.grows.isPrefix) relatedRest)

theorem isEmpty_contextBehind {Known : Type} (statement : Statement Known) (context : Context) :
    (statement.contextBehind context).isEmpty = context.isEmpty := by
  cases statement <;> cases context <;> rfl

theorem each_simulates (executes : ExecutesAlike fuel) (calls : Nat)
    {statements : List (Statement Binding)} (relates : layout.Relates machine other)
    (stands : layout.Stands machine.store.frames.size context machine.environment scope)
    (bound : Statement.listBound context statements)
    (others : Statement.listAssignsOwn (!context.isEmpty) statements = false) :
    layout.Simulates machine.environment.head? machine other
      (LoxInterpreter.Run.each (LoxInterpreter.execute fuel calls) statements)
      ((Statement.listMapKnown (fun _ => ()) statements).foldlM (execute fuel calls) scope)
      (fun _ _ _ _ => True) := by
  induction statements generalizing layout machine other context scope with
  | nil => exact .of_pure relates trivial
  | cons first rest inductionHypothesis =>
      rw [Statement.listAssignsOwn, Bool.or_eq_false_iff] at others
      rw [LoxInterpreter.Run.each, Statement.listMapKnown, List.foldlM_cons]
      apply Layout.Simulates.bind (executes calls first layout machine other context scope relates
        stands bound.1 others.1)
      intro layout' after after' _ behind continues relates' standsBehind
      rw [← continues.environment_eq] at standsBehind ⊢
      apply inductionHypothesis relates' standsBehind bound.2
      rw [isEmpty_contextBehind]
      exact others.2

/-! ## Calls and blocks -/

/-- The body of a function runs in a frame of its own, as it runs in the scope behind its parameters. -/
theorem call_simulates (executes : ExecutesAlike fuel) (calls : Nat)
    (relates : layout.Relates machine other) {function : Closure} {function' : Closure Unit Scope}
    (alike : layout.Functions function function') {values : List LoxInterpreter.Value}
    {values' : List Value} (related : List.Forall₂ layout.Related values values')
    (sameNumber : function.parameters.length = values.length) :
    layout.Simulates none machine other
      (LoxInterpreter.Run.callClosure function values
        (LoxInterpreter.Run.each (LoxInterpreter.execute fuel calls) function.body))
      (do
        let inside ← Run.declareParameters function'.environment.enter function'.parameters values'
        Run.catchReturn (function'.body.foldlM (execute fuel calls) inside))
      (fun layout' _ => layout'.Related) := by
  have ⟨context, found, bound⟩ := alike.around
  have unused : ∀ name, (machine.store.frames.size, name) ∉ layout := by
    intro name member
    exact absurd (relates.slot _ _ member).2 (Nat.lt_irrefl _)
  have entered := found.enter unused relates.globals_made
  have extended := relates.extend function.environment
  rw [← Store.size_extend function.environment] at entered
  rw [alike.same.parameters, alike.same.body]
  unfold LoxInterpreter.Run.callClosure
  apply Layout.Simulates.extend_bind
  apply Layout.Simulates.bind (Layout.declareParameters_simulates extended entered alike.distinct
    (by simp) related sameNumber)
  intro layout' ready ready' _ inside continues relatesReady standsInside
  rw [List.append_nil] at standsInside
  apply Layout.Simulates.catchReturn
  apply Layout.Simulates.withEnvironment
  have relatesInside : layout'.Relates
      { ready with environment := machine.store.frames.size :: function.environment } ready' :=
    { relatesReady with }
  exact each_simulates executes calls relatesInside standsInside bound alike.others

/-- A block runs in a frame of its own, as it runs in a scope of its own. -/
theorem block_simulates (executes : ExecutesAlike fuel) (calls : Nat)
    (relates : layout.Relates machine other)
    (found : layout.Matches context machine.environment scope) {items : List (Statement Binding)}
    (bound : Statement.listBound ([] :: context) items)
    (others : Statement.listAssignsOwn true items = false) :
    layout.Simulates none machine other
      (LoxInterpreter.Run.inBlock (LoxInterpreter.Run.each (LoxInterpreter.execute fuel calls) items))
      ((Statement.listMapKnown (fun _ => ()) items).foldlM (execute fuel calls) scope.enter)
      (fun _ _ _ _ => True) := by
  have unused : ∀ name, (machine.store.frames.size, name) ∉ layout := by
    intro name member
    exact absurd (relates.slot _ _ member).2 (Nat.lt_irrefl _)
  have entered := found.enter unused relates.globals_made
  have extended := relates.extend machine.environment
  rw [← Store.size_extend machine.environment] at entered
  unfold LoxInterpreter.Run.inBlock
  apply Layout.Simulates.get_bind_left
  apply Layout.Simulates.extend_bind
  apply Layout.Simulates.withEnvironment
  have relatesInside : layout.Relates
      { machine with
        store := (machine.store.extend machine.environment).2
        environment := machine.store.frames.size :: machine.environment } other :=
    { extended with }
  exact each_simulates executes calls relatesInside entered bound others

/-! ## Expressions -/

theorem evaluate_call_simulates (evaluates : EvaluatesAlike fuel) (executes : ExecutesAlike fuel)
    (calls : Nat) (relates : layout.Relates machine other)
    (found : layout.Matches context machine.environment scope) {callee : Expression Binding}
    {arguments : List (Expression Binding)} (line : Nat)
    (bound : (Expression.call callee arguments line).Bound context none) :
    layout.Simulates none machine other
      (LoxInterpreter.evaluate (fuel + 1) calls (.call callee arguments line))
      (evaluate (fuel + 1) calls scope
        ((Expression.call callee arguments line).mapKnown fun _ => ()))
      (fun layout' _ => layout'.Related) := by
  rw [LoxInterpreter.evaluate, Expression.mapKnown, evaluate]
  apply Layout.Simulates.bind (evaluates calls callee layout machine other context scope relates found
    bound.1)
  intro called after after' value value' continues relatesCalled related
  apply Layout.Simulates.bind (collect_simulates evaluates calls relatesCalled (continues.found found)
    bound.2)
  intro layout' ready ready' values values' continues' relatesReady relatedValues
  have relatedCallee := related.mono continues'.grows.isPrefix
  dsimp only
  cases relatedCallee with
  | @closure function function' alike =>
      have sameArity : function'.arity = function.arity := by
        unfold Closure.arity
        rw [alike.same.parameters]
      dsimp only
      rw [sameArity, ← relatedValues.length_eq]
      apply Layout.Simulates.bind (Layout.checkArity_simulates relatesReady _ _ _)
      intro layout'' checked checked' _ _ continues'' relatesChecked sameNumber
      apply Layout.Simulates.tell_bind
      have relatesTold := relatesChecked.tell (.closureCalled function.name values.length)
      cases calls with
      | zero => exact .of_throw relatesTold .stackOverflow
      | succ calls =>
          have grown := continues''.grows.isPrefix
          apply call_simulates executes calls relatesTold (alike.mono grown) _ sameNumber
          exact relatedValues.imp fun _ _ related => related.mono grown
  | native function =>
      dsimp only
      rw [← relatedValues.length_eq]
      apply Layout.Simulates.bind (Layout.checkArity_simulates relatesReady _ _ _)
      intro layout'' checked checked' _ _ continues'' relatesChecked _
      apply Layout.Simulates.tell_bind
      exact Layout.callNative_simulates (relatesChecked.tell _) function
  | nil | boolean | number | string => exact Layout.fault_simulates relatesReady _ _

theorem constant_related (layout : Layout) (constant : Constant) :
    layout.Related constant.value constant.value := by
  cases constant with
  | nil => exact .nil
  | boolean value => exact .boolean value
  | number value => exact .number value
  | string value => exact .string value

theorem evaluate_simulates_succ (evaluates : EvaluatesAlike fuel) (executes : ExecutesAlike fuel) :
    EvaluatesAlike (fuel + 1) := by
  intro calls expression layout machine other context scope relates found bound
  cases expression with
  | constant constant => exact .of_pure relates (constant_related layout constant)
  | grouping inner => exact evaluates calls inner layout machine other context scope relates found bound
  | «variable» name binding => exact Layout.readVariable_simulates relates found bound
  | assignment name binding value =>
      have isBinding : binding = context.binding name.text := by
        have assigned := bound.2
        unfold Context.assignedBinding at assigned
        rwa [if_neg (by simp)] at assigned
      rw [LoxInterpreter.evaluate, Expression.mapKnown, evaluate]
      apply Layout.Simulates.bind (evaluates calls value layout machine other context scope relates
        found bound.1)
      intro layout' after after' result result' continues relatesAfter related
      apply Layout.Simulates.bind (Layout.writeVariable_simulates relatesAfter (continues.found found)
        isBinding related)
      intro layout'' written written' _ _ continues' relatesWritten _
      exact .of_pure relatesWritten (related.mono continues'.grows.isPrefix)
  | unary operator line operand =>
      rw [LoxInterpreter.evaluate, Expression.mapKnown, evaluate]
      apply Layout.Simulates.bind (evaluates calls operand layout machine other context scope relates
        found bound)
      intro layout' after after' value value' _ relatesAfter related
      exact Layout.ofOutcome_simulates relatesAfter (apply_unary_same related.same operator) _
  | binary operator line left right =>
      rw [LoxInterpreter.evaluate, Expression.mapKnown, evaluate]
      apply Layout.Simulates.bind (evaluates calls left layout machine other context scope relates
        found bound.1)
      intro layout' between between' first first' continues relatesBetween relatedFirst
      apply Layout.Simulates.bind (evaluates calls right layout' between between' context scope
        relatesBetween (continues.found found) bound.2)
      intro layout'' after after' second second' continues' relatesAfter relatedSecond
      have relatedHere := relatedFirst.mono continues'.grows.isPrefix
      exact Layout.ofOutcome_simulates relatesAfter
        (apply_binary_same relatedHere.same relatedSecond.same operator) _
  | logical operator line left right =>
      rw [LoxInterpreter.evaluate, Expression.mapKnown, evaluate]
      apply Layout.Simulates.bind (evaluates calls left layout machine other context scope relates
        found bound.1)
      intro layout' after after' value value' continues relatesAfter related
      rw [related.same.isDecidedBy_eq operator]
      by_cases decided : operator.isDecidedBy value = true
      · rw [if_pos decided, if_pos decided]
        exact .of_pure relatesAfter related
      · rw [if_neg decided, if_neg decided]
        exact evaluates calls right layout' after after' context scope relatesAfter
          (continues.found found) bound.2
  | call callee arguments line =>
      exact evaluate_call_simulates evaluates executes calls relates found line bound

/-! ## Statements -/

theorem execute_declaration_simulates (evaluates : EvaluatesAlike fuel) (calls : Nat)
    (relates : layout.Relates machine other)
    (stands : layout.Stands machine.store.frames.size context machine.environment scope) (name : Name)
    (initializer : Option (Expression Binding))
    (bound : (Statement.declaration name initializer).Bound context)
    (others : (Statement.declaration name initializer).assignsOwn (!context.isEmpty) = false) :
    layout.Simulates machine.environment.head? machine other
      (LoxInterpreter.execute (fuel + 1) calls (.declaration name initializer))
      (execute (fuel + 1) calls scope ((Statement.declaration name initializer).mapKnown fun _ => ()))
      (fun layout' after _ behind => layout'.Stands after.store.frames.size
        (context.declare name.text) machine.environment behind) := by
  cases initializer with
  | none =>
      rw [LoxInterpreter.execute, Statement.mapKnown, Option.map_none, execute]
      exact Layout.define_simulates relates stands bound.1 (fun _ _ _ _ => .nil) _
  | some initializer =>
      rw [LoxInterpreter.execute, Statement.mapKnown, Option.map_some, execute]
      apply Layout.Simulates.bind_quiet (evaluates calls initializer layout machine other context scope
        relates stands.found (Statement.initializer_bound bound others))
      intro layout' after after' value value' continues relatesAfter related
      rw [← continues.environment_eq]
      exact Layout.define_simulates relatesAfter (continues.stands stands) bound.1
        (fun _ _ grown _ => related.mono grown) _

/-- A function is made with its own name in reach. -/
theorem execute_function_simulates (relates : layout.Relates machine other)
    (stands : layout.Stands machine.store.frames.size context machine.environment scope) {name : Name}
    {parameters : List Name} {body : List (Statement Binding)}
    (bound : (Statement.function name parameters body).Bound context)
    (others : Statement.listAssignsOwn true body = false) :
    layout.Simulates machine.environment.head? machine other
      (LoxInterpreter.Run.defineFunction name parameters body)
      (Run.declareFunction scope name parameters (Statement.listMapKnown (fun _ => ()) body))
      (fun layout' after _ behind => layout'.Stands after.store.frames.size
        (context.declare name.text) machine.environment behind) := by
  unfold LoxInterpreter.Run.defineFunction Run.declareFunction
  apply Layout.Simulates.bind_quiet (Layout.newIdentity_simulates relates)
  intro layout' counted counted' identity identity' continues relatesCounted sameIdentity
  apply Layout.Simulates.get_bind_left
  rw [← continues.environment_eq]
  apply Layout.define_simulates relatesCounted (continues.stands stands) bound.1
  intro layout'' behind grown found
  exact .closure ⟨⟨sameIdentity, rfl, rfl, rfl⟩, bound.2.1, ⟨context.declare name.text, found, bound.2.2⟩,
    others⟩

/-- A branch or a loop body declares nothing, so what stands behind it stands where it stood. -/
theorem execute_plain_simulates (executes : ExecutesAlike fuel) (calls : Nat)
    {statement : Statement Binding} (relates : layout.Relates machine other)
    (stands : layout.Stands machine.store.frames.size context machine.environment scope)
    (plain : statement.isDeclaration = false) (bound : statement.Bound context)
    (others : statement.assignsOwn (!context.isEmpty) = false) :
    layout.Simulates machine.environment.head? machine other
      (LoxInterpreter.execute fuel calls statement)
      (do
        let _ ← execute fuel calls scope (statement.mapKnown fun _ => ())
        return scope)
      (fun layout' after _ behind => layout'.Stands after.store.frames.size context
        machine.environment behind) := by
  apply (executes calls statement layout machine other context scope relates stands bound
    others).map_right
  intro layout' after _ behind continues standsBehind
  rw [Statement.contextBehind_of_plain plain] at standsBehind
  exact stands.before continues.grows.isPrefix standsBehind

/-- What stands behind an action that adds slots in new frames alone stands where it stood. -/
theorem quiet_stands {α β : Type} {action : LoxInterpreter.Run α} {action' : Run β}
    {good : Layout → LoxInterpreter.Machine → α → β → Prop}
    (stands : layout.Stands machine.store.frames.size context machine.environment scope)
    (simulates : layout.Simulates none machine other action action' good) :
    layout.Simulates machine.environment.head? machine other action
      (do
        let _ ← action'
        return scope)
      (fun layout' after _ behind => layout'.Stands after.store.frames.size context
        machine.environment behind) := by
  apply (simulates.map_right _).weaken
  intro layout' after _ _ continues _
  have standsAfter := continues.stands stands
  rwa [continues.environment_eq] at standsAfter

theorem execute_conditional_simulates (evaluates : EvaluatesAlike fuel) (executes : ExecutesAlike fuel)
    (calls : Nat) (relates : layout.Relates machine other)
    (stands : layout.Stands machine.store.frames.size context machine.environment scope)
    {condition : Expression Binding} {thenBranch : Statement Binding}
    {elseBranch : Option (Statement Binding)}
    (bound : (Statement.conditional condition thenBranch elseBranch).Bound context)
    (others : (Statement.conditional condition thenBranch elseBranch).assignsOwn (!context.isEmpty) =
      false) :
    layout.Simulates machine.environment.head? machine other
      (LoxInterpreter.execute (fuel + 1) calls (.conditional condition thenBranch elseBranch))
      (execute (fuel + 1) calls scope
        ((Statement.conditional condition thenBranch elseBranch).mapKnown fun _ => ()))
      (fun layout' after _ behind => layout'.Stands after.store.frames.size context
        machine.environment behind) := by
  cases elseBranch with
  | none =>
      rw [LoxInterpreter.execute, Statement.mapKnown, execute]
      apply Layout.Simulates.bind_quiet (evaluates calls condition layout machine other context scope
        relates stands.found bound.1)
      intro layout' after after' value value' continues relatesAfter related
      apply Layout.Simulates.tell_bind
      have told := continues.tell (.conditionTested value)
      have relatesTold := relatesAfter.tell (.conditionTested value)
      rw [related.same.isTruthy_eq, ← told.environment_eq]
      by_cases holds : value.isTruthy = true
      · rw [if_pos holds, if_pos holds]
        exact execute_plain_simulates executes calls relatesTold (told.stands stands) bound.2.1
          bound.2.2 others
      · rw [if_neg holds, if_neg holds]
        exact .of_pure relatesTold (told.stands stands)
  | some elseBranch =>
      rw [Statement.assignsOwn, Bool.or_eq_false_iff] at others
      rw [LoxInterpreter.execute, Statement.mapKnown, execute]
      apply Layout.Simulates.bind_quiet (evaluates calls condition layout machine other context scope
        relates stands.found bound.1)
      intro layout' after after' value value' continues relatesAfter related
      apply Layout.Simulates.tell_bind
      have told := continues.tell (.conditionTested value)
      have relatesTold := relatesAfter.tell (.conditionTested value)
      rw [related.same.isTruthy_eq, ← told.environment_eq]
      by_cases holds : value.isTruthy = true
      · rw [if_pos holds, if_pos holds]
        exact execute_plain_simulates executes calls relatesTold (told.stands stands) bound.2.1.1
          bound.2.1.2 others.1
      · rw [if_neg holds, if_neg holds]
        exact execute_plain_simulates executes calls relatesTold (told.stands stands) bound.2.2.1
          bound.2.2.2 others.2

theorem execute_loop_simulates (evaluates : EvaluatesAlike fuel) (executes : ExecutesAlike fuel)
    (calls : Nat) (relates : layout.Relates machine other)
    (stands : layout.Stands machine.store.frames.size context machine.environment scope)
    {condition : Expression Binding} {body : Statement Binding}
    (bound : (Statement.loop condition body).Bound context)
    (others : body.assignsOwn (!context.isEmpty) = false) :
    layout.Simulates machine.environment.head? machine other
      (LoxInterpreter.execute (fuel + 1) calls (.loop condition body))
      (execute (fuel + 1) calls scope ((Statement.loop condition body).mapKnown fun _ => ()))
      (fun layout' after _ behind => layout'.Stands after.store.frames.size context
        machine.environment behind) := by
  rw [LoxInterpreter.execute, Statement.mapKnown, execute]
  apply Layout.Simulates.bind_quiet (evaluates calls condition layout machine other context scope
    relates stands.found bound.1)
  intro layout' after after' value value' continues relatesAfter related
  rw [related.same.isTruthy_eq, ← continues.environment_eq]
  by_cases holds : value.isTruthy = true
  · rw [if_pos holds, if_pos holds]
    apply Layout.Simulates.bind (executes calls body layout' after after' context scope relatesAfter
      (continues.stands stands) bound.2.2 others)
    intro layout'' again again' _ behind continues' relatesAgain standsBehind
    rw [Statement.contextBehind_of_plain bound.2.1] at standsBehind
    have standsAgain := (continues.stands stands).before continues'.grows.isPrefix standsBehind
    rw [← continues'.environment_eq] at standsAgain ⊢
    exact executes calls (.loop condition body) layout'' again again' context scope relatesAgain
      standsAgain bound others
  · rw [if_neg holds, if_neg holds]
    exact .of_pure relatesAfter (continues.stands stands)

theorem execute_simulates_succ (evaluates : EvaluatesAlike fuel) (executes : ExecutesAlike fuel) :
    ExecutesAlike (fuel + 1) := by
  intro calls statement layout machine other context scope relates stands bound others
  cases statement with
  | expression value =>
      rw [LoxInterpreter.execute, Statement.mapKnown, execute]
      apply Layout.Simulates.bind_quiet (evaluates calls value layout machine other context scope
        relates stands.found bound)
      intro layout' after after' _ _ continues relatesAfter _
      rw [← continues.environment_eq]
      exact .of_pure relatesAfter (continues.stands stands)
  | print value =>
      rw [LoxInterpreter.execute, Statement.mapKnown, execute]
      apply Layout.Simulates.bind_quiet (evaluates calls value layout machine other context scope
        relates stands.found bound)
      intro layout' after after' result result' continues relatesAfter related
      rw [← continues.environment_eq]
      apply quiet_stands (continues.stands stands)
      rw [related.same.text_eq]
      exact Layout.print_simulates relatesAfter result.text
  | declaration name initializer =>
      exact execute_declaration_simulates evaluates calls relates stands name initializer bound others
  | function name parameters body => exact execute_function_simulates relates stands bound others
  | block items =>
      exact quiet_stands stands (block_simulates executes calls relates stands.found bound others)
  | conditional condition thenBranch elseBranch =>
      exact execute_conditional_simulates evaluates executes calls relates stands bound others
  | loop condition body =>
      exact execute_loop_simulates evaluates executes calls relates stands bound others
  | returning line value =>
      cases value with
      | none => exact .of_throw relates (.returned .nil)
      | some value =>
          rw [LoxInterpreter.execute, Statement.mapKnown, Option.map_some, execute]
          apply Layout.Simulates.bind_quiet (evaluates calls value layout machine other context scope
            relates stands.found (bound value rfl))
          intro layout' after after' result result' _ relatesAfter related
          exact .of_throw relatesAfter (.returned related)

/-- With any fuel, bound expressions and statements do what names alone mean. -/
theorem evaluate_and_execute_simulate (fuel : Nat) : EvaluatesAlike fuel ∧ ExecutesAlike fuel := by
  induction fuel with
  | zero =>
      constructor
      · intro calls expression layout machine other context scope relates _ _
        exact .of_throw relates .outOfFuel
      · intro calls statement layout machine other context scope relates _ _ _
        exact .of_throw relates .outOfFuel
  | succ fuel inductionHypothesis =>
      have ⟨evaluates, executes⟩ := inductionHypothesis
      exact ⟨evaluate_simulates_succ evaluates executes, execute_simulates_succ evaluates executes⟩

end LoxInterpreter.Lexical
