import LoxInterpreter.Proofs.Execution.Ending

/-!
Contract: what evaluation inherits from its steps.

Evaluation is put together from a few actions, by sequences, by environments and by calls. A relation of
actions that holds of the few, and that putting them together keeps, holds of evaluation within some bounds
and evaluation within wider ones. So the induction on the fuel is made once and not for each property. A
property of one action is such a relation too: it does not look at the other action.

Owns: `Run.Quiet`, `Run.ExpressionLaws`, `Run.StatementLaws`, and that evaluation inherits what fulfils them.
Does not own: any such relation, nor what needs a sound store (`Proofs.Execution.Agreement`).
-/

namespace LoxInterpreter

/-- The machine with some level and some trace. -/
def Machine.traced (machine : Machine) (level : Nat) (trace : List TraceEvent) : Machine :=
  { machine with traceLevel := level, trace := trace.toArray }

namespace Run

/-- Whether a change leaves the environment alone, and has nothing to do with the trace and its level. -/
structure Quiet {α : Type} (change : Machine → α × Machine) : Prop where
  environment_eq : ∀ machine, (change machine).2.environment = machine.environment
  traced : ∀ machine level trace, change (machine.traced level trace) =
    ((change machine).1, (change machine).2.traced level trace)

/-- What a relation of actions has to fulfil so that it relates the evaluation of expressions, as soon as it
relates the calls of functions. -/
structure ExpressionLaws (Related : {α : Type} → Run α → Run α → Prop) : Prop where
  pure : ∀ {α : Type} (value : α), Related (pure value : Run α) (pure value)
  bind : ∀ {α β : Type} {first first' : Run α} {next next' : α → Run β}, Related first first' →
    (∀ value, Related (next value) (next' value)) → Related (first >>= next) (first' >>= next')
  /-- Where fuel runs out, more fuel can lead to anything. -/
  outOfFuel : ∀ {α : Type} (action : Run α), Related (throw .outOfFuel) action
  stop : ∀ {α : Type} {signal : Signal}, (∀ value, signal ≠ .returned value) →
    Related (throw signal : Run α) (throw signal)
  tell : ∀ event, Related (tell event) (tell event)
  inspect : ∀ {α : Type} {next next' : Machine → Run α},
    (∀ machine level trace, next (machine.traced level trace) = next machine) →
    (∀ machine, Related (next machine) (next' machine)) → Related (get >>= next) (get >>= next')
  change : ∀ {α : Type} {change : Machine → α × Machine}, Quiet change →
    Related (modifyGet change : Run α) (modifyGet change)

/-- What a relation of actions has to fulfil so that it relates all evaluation. -/
structure StatementLaws (Related : {α : Type} → Run α → Run α → Prop) : Prop
    extends ExpressionLaws Related where
  returned : ∀ value, Related (throw (.returned value) : Run Unit) (throw (.returned value))
  withEnvironment : ∀ {α : Type} {action action' : Run α} (environment : Environment),
    Related action action' →
      Related (withEnvironment environment action) (withEnvironment environment action')
  catchReturn : ∀ {body body' : Run Unit}, Related body body' →
    Related (catchReturn body) (catchReturn body')

variable {α β : Type} {Related : {α : Type} → Run α → Run α → Prop}

namespace ExpressionLaws

/-! ## Single steps -/

theorem fault (laws : ExpressionLaws Related) (cause : RuntimeError.Cause) (token : Token) :
    Related (fault cause token : Run α) (fault cause token) :=
  laws.stop (by simp)

theorem ofOutcome (laws : ExpressionLaws Related) (outcome : Outcome) (token : Token) :
    Related (ofOutcome outcome token) (ofOutcome outcome token) := by
  cases outcome with
  | ok value => exact laws.pure value
  | error cause => exact laws.fault cause token

theorem readVariable (laws : ExpressionLaws Related) (name : Name) (binding : Binding) :
    Related (readVariable name binding) (readVariable name binding) := by
  apply laws.inspect
  · intro machine level trace
    rfl
  · intro machine
    cases binding with
    | global =>
        dsimp only
        split
        · exact laws.pure _
        · exact laws.fault _ _
    | enclosing distance =>
        dsimp only
        split
        · exact laws.pure _
        · exact laws.stop (by simp)

theorem writeVariable (laws : ExpressionLaws Related) (name : Name) (binding : Binding) (value : Value) :
    Related (writeVariable name binding value) (writeVariable name binding value) := by
  cases binding with
  | global =>
      apply laws.inspect
      · intro machine level trace
        rfl
      · intro machine
        split
        · exact laws.change ⟨fun _ => rfl, fun _ _ _ => rfl⟩
        · exact laws.fault _ _
  | enclosing distance =>
      apply laws.inspect
      · intro machine level trace
        rfl
      · intro machine
        split
        · exact laws.change ⟨fun _ => rfl, fun _ _ _ => rfl⟩
        · exact laws.stop (by simp)

theorem collect (laws : ExpressionLaws Related) (action action' : α → Run β)
    (related : ∀ item, Related (action item) (action' item)) (items : List α) :
    Related (collect action items) (collect action' items) := by
  induction items with
  | nil => exact laws.pure []
  | cons first rest inductionHypothesis =>
      apply laws.bind (related first)
      intro result
      apply laws.bind inductionHypothesis
      intro results
      exact laws.pure _

theorem checkArity (laws : ExpressionLaws Related) (expected given : Nat) (token : Token) :
    Related (checkArity expected given token) (checkArity expected given token) := by
  unfold Run.checkArity
  split
  · exact laws.pure ()
  · exact laws.fault _ _

theorem callNative (laws : ExpressionLaws Related) (function : Native) :
    Related (callNative function) (callNative function) := by
  cases function with
  | clock =>
      have reads : Related readClock readClock := laws.change ⟨fun _ => rfl, fun _ _ _ => rfl⟩
      exact laws.bind reads fun _ => laws.pure _

theorem extend (laws : ExpressionLaws Related) (environment : Environment) :
    Related (extend environment) (extend environment) :=
  laws.change ⟨fun _ => rfl, fun _ _ _ => rfl⟩

theorem defineParameters (laws : ExpressionLaws Related) (environment : Environment) (names : List Name)
    (values : List Value) :
    Related (defineParameters environment names values) (defineParameters environment names values) := by
  induction names generalizing values with
  | nil => exact laws.pure ()
  | cons name rest inductionHypothesis =>
      cases values with
      | nil => exact laws.pure ()
      | cons value others =>
          have defines : Related (defineIn environment name.text value)
              (defineIn environment name.text value) := laws.change ⟨fun _ => rfl, fun _ _ _ => rfl⟩
          exact laws.bind defines fun _ => inductionHypothesis others

theorem declare (laws : ExpressionLaws Related) (name : String) (value : Value) (event : TraceEvent) :
    Related (do define name value; Run.tell event) (do define name value; Run.tell event) := by
  have defines : Related (define name value) (define name value) :=
    laws.change ⟨fun _ => rfl, fun _ _ _ => rfl⟩
  exact laws.bind defines fun _ => laws.tell event

theorem defineFunction (laws : ExpressionLaws Related) (name : Name) (parameters : List Name)
    (body : List (Statement Binding)) :
    Related (defineFunction name parameters body) (defineFunction name parameters body) := by
  have counts : Related newIdentity newIdentity := laws.change ⟨fun _ => rfl, fun _ _ _ => rfl⟩
  apply laws.bind counts
  intro identity
  apply laws.inspect
  · intro machine level trace
    rfl
  · intro machine
    exact laws.declare _ _ _

/-! ## Expressions -/

/-- One step of the induction for expressions, where functions are called alike. If more calls may be nested on
the other side, calls that are nested too deeply can lead to anything there. -/
theorem evaluate_succ (laws : ExpressionLaws Related) (fuel fuel' extra : Nat)
    (overflows : extra = 0 ∨ ∀ action : Run Value, Related (throw .stackOverflow) action)
    (evaluates : ∀ calls expression,
      Related (evaluate fuel calls expression) (evaluate fuel' (calls + extra) expression))
    (runs : ∀ calls (function : Closure) arguments,
      Related (callClosure function arguments (each (execute fuel calls) function.body))
        (callClosure function arguments (each (execute fuel' (calls + extra)) function.body)))
    (calls : Nat) (expression : Expression Binding) :
    Related (evaluate (fuel + 1) calls expression) (evaluate (fuel' + 1) (calls + extra) expression) := by
  cases expression with
  | constant constant => exact laws.pure _
  | grouping inner => exact evaluates calls inner
  | «variable» name binding => exact laws.readVariable name binding
  | assignment name binding value =>
      apply laws.bind (evaluates calls value)
      intro result
      exact laws.bind (laws.writeVariable name binding result) fun _ => laws.pure result
  | unary operator line operand =>
      apply laws.bind (evaluates calls operand)
      intro value
      exact laws.ofOutcome _ _
  | binary operator line left right =>
      apply laws.bind (evaluates calls left)
      intro first
      apply laws.bind (evaluates calls right)
      intro second
      exact laws.ofOutcome _ _
  | logical operator line left right =>
      apply laws.bind (evaluates calls left)
      intro first
      split
      · exact laws.pure first
      · exact evaluates calls right
  | call callee arguments line =>
      apply laws.bind (evaluates calls callee)
      intro value
      apply laws.bind (laws.collect _ _ (evaluates calls) arguments)
      intro values
      cases value with
      | closure function =>
          apply laws.bind (laws.checkArity _ _ _)
          intro _
          apply laws.bind (laws.tell _)
          intro _
          cases calls with
          | zero =>
              rcases overflows with rfl | leadsAnywhere
              · exact laws.stop (by simp)
              · exact leadsAnywhere _
          | succ calls =>
              rw [Nat.add_right_comm]
              exact runs calls function values
      | native function =>
          apply laws.bind (laws.checkArity _ _ _)
          intro _
          apply laws.bind (laws.tell _)
          intro _
          exact laws.callNative function
      | nil | boolean | number | string => exact laws.fault _ _

end ExpressionLaws

namespace StatementLaws

/-! ## Steps around bodies -/

theorem each (laws : StatementLaws Related) (action action' : α → Run Unit)
    (related : ∀ item, Related (action item) (action' item)) (items : List α) :
    Related (each action items) (each action' items) := by
  induction items with
  | nil => exact laws.pure ()
  | cons first rest inductionHypothesis => exact laws.bind (related first) fun _ => inductionHypothesis

theorem callClosure (laws : StatementLaws Related) {body body' : Run Unit} (related : Related body body')
    (function : Closure) (arguments : List Value) :
    Related (callClosure function arguments body) (callClosure function arguments body') := by
  apply laws.bind (laws.extend _)
  intro environment
  apply laws.bind (laws.defineParameters environment _ arguments)
  intro _
  exact laws.catchReturn (laws.withEnvironment environment related)

theorem inBlock (laws : StatementLaws Related) {statements statements' : Run Unit}
    (related : Related statements statements') : Related (inBlock statements) (inBlock statements') := by
  apply laws.inspect
  · intro machine level trace
    rfl
  · intro machine
    apply laws.bind (laws.extend _)
    intro environment
    exact laws.withEnvironment environment related

/-! ## Statements -/

/-- One step of the induction for statements. -/
theorem execute_succ (laws : StatementLaws Related) (fuel fuel' extra : Nat)
    (evaluates : ∀ calls expression,
      Related (evaluate fuel calls expression) (evaluate fuel' (calls + extra) expression))
    (executes : ∀ calls statement,
      Related (execute fuel calls statement) (execute fuel' (calls + extra) statement))
    (calls : Nat) (statement : Statement Binding) :
    Related (execute (fuel + 1) calls statement) (execute (fuel' + 1) (calls + extra) statement) := by
  cases statement with
  | expression value => exact laws.bind (evaluates calls value) fun _ => laws.pure ()
  | print value =>
      apply laws.bind (evaluates calls value)
      intro value
      exact laws.change ⟨fun _ => rfl, fun _ _ _ => rfl⟩
  | declaration name initializer =>
      cases initializer with
      | none => exact laws.declare _ _ _
      | some initializer => exact laws.bind (evaluates calls initializer) fun _ => laws.declare _ _ _
  | function name parameters body => exact laws.defineFunction name parameters body
  | block items => exact laws.inBlock (laws.each _ _ (executes calls) items)
  | conditional condition thenBranch elseBranch =>
      rw [execute_conditional, execute_conditional]
      apply laws.bind (evaluates calls condition)
      intro value
      apply laws.bind (laws.tell _)
      intro _
      split
      · exact executes calls thenBranch
      · cases elseBranch with
        | none => exact laws.pure ()
        | some elseBranch => exact executes calls elseBranch
  | loop condition body =>
      apply laws.bind (evaluates calls condition)
      intro value
      split
      · exact laws.bind (executes calls body) fun _ => executes calls (.loop condition body)
      · exact laws.pure ()
  | returning line value =>
      cases value with
      | none => exact laws.returned _
      | some value => exact laws.bind (evaluates calls value) fun _ => laws.returned _

/-- Evaluation with some fuel is related to evaluation with more, and with more calls that may be nested. -/
theorem evaluation (laws : StatementLaws Related) (fuel more extra : Nat)
    (overflows : extra = 0 ∨ ∀ action : Run Value, Related (throw .stackOverflow) action) :
    (∀ calls expression,
      Related (evaluate fuel calls expression) (evaluate (fuel + more) (calls + extra) expression)) ∧
    ∀ calls statement,
      Related (execute fuel calls statement) (execute (fuel + more) (calls + extra) statement) := by
  induction fuel with
  | zero => exact ⟨fun _ _ => laws.outOfFuel _, fun _ _ => laws.outOfFuel _⟩
  | succ fuel inductionHypothesis =>
      obtain ⟨evaluates, executes⟩ := inductionHypothesis
      rw [Nat.add_right_comm]
      constructor
      · apply laws.evaluate_succ _ _ extra overflows evaluates
        intro calls function arguments
        exact laws.callClosure (laws.each _ _ (executes calls) function.body) function arguments
      · exact laws.execute_succ _ _ extra evaluates executes

/-- So are the programs that are run within them. -/
theorem program (laws : StatementLaws Related) (fuel more callLimit extra : Nat)
    (overflows : extra = 0 ∨ ∀ action : Run Value, Related (throw .stackOverflow) action)
    (program : List (Statement Binding)) :
    Related (runProgram fuel callLimit program) (runProgram (fuel + more) (callLimit + extra) program) := by
  apply laws.bind (laws.tell _)
  intro _
  have runs := (laws.evaluation fuel more extra overflows).2 callLimit
  apply laws.bind (laws.each _ _ runs program)
  intro _
  exact laws.tell _

end StatementLaws

end Run

end LoxInterpreter
