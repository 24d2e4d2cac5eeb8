import Mathlib.Logic.Relation
import LoxInterpreter.Proofs.Execution.Agreement

/-!
Contract: the moments of a run.

A run works at one expression or statement at a time. From each moment it turns to the parts of its
task, one after another: to a part on the machine that the parts before it have left, to the body of a
function in a new frame in front of the environment of that function. The moments of a run are those
that are reached in any number of such turns, whether or not the run comes to an end.

Owns: `Moment`, `Moment.Turns`, and that every access at a moment of a sound run finds its variable.
Does not own: the runs of sessions (`Proofs.Session.References`).
-/

namespace LoxInterpreter

/-- What a run works at. -/
inductive Task where
  | evaluate (expression : Expression Binding)
  | evaluateAll (expressions : List (Expression Binding))
  | execute (statement : Statement Binding)
  | executeAll (statements : List (Statement Binding))

/-- A moment of a run: its fuel and the calls that may still be nested, what it works at, and the
machine as it is then. -/
structure Moment where
  fuel : Nat
  calls : Nat
  task : Task
  /-- The local variable in whose initializer the task stands. -/
  initializing : Option String
  machine : Machine

/-- How the body of a function is entered: a frame with its parameters, in front of its environment. -/
def Run.enter (function : Closure) (arguments : List Value) : Run Environment := do
  let environment ← extend function.environment
  defineParameters environment function.parameters arguments
  return environment

/-- Whether a run turns from one moment to another. -/
def Moment.Turns (moment next : Moment) : Prop :=
  let ⟨fuel, calls, task, initializing, machine⟩ := moment
  match fuel, task with
  | fuel + 1, .evaluate (.grouping inner) =>
      next = ⟨fuel, calls, .evaluate inner, initializing, machine⟩
  | fuel + 1, .evaluate (.assignment _ _ value) =>
      next = ⟨fuel, calls, .evaluate value, initializing, machine⟩
  | fuel + 1, .evaluate (.unary _ _ operand) =>
      next = ⟨fuel, calls, .evaluate operand, initializing, machine⟩
  | fuel + 1, .evaluate (.binary _ _ left right) =>
      next = ⟨fuel, calls, .evaluate left, initializing, machine⟩ ∨
        ∃ value after, evaluate fuel calls left machine = .ok value after ∧
          next = ⟨fuel, calls, .evaluate right, initializing, after⟩
  | fuel + 1, .evaluate (.logical operator _ left right) =>
      next = ⟨fuel, calls, .evaluate left, initializing, machine⟩ ∨
        ∃ value after, evaluate fuel calls left machine = .ok value after ∧
          operator.isDecidedBy value = false ∧
          next = ⟨fuel, calls, .evaluate right, initializing, after⟩
  | fuel + 1, .evaluate (.call callee arguments _) =>
      next = ⟨fuel, calls, .evaluate callee, initializing, machine⟩ ∨
        ∃ value called, evaluate fuel calls callee machine = .ok value called ∧
          (next = ⟨fuel, calls, .evaluateAll arguments, initializing, called⟩ ∨
            ∃ function values ready inner environment entered, value = .closure function ∧
              Run.collect (evaluate fuel calls) arguments called = .ok values ready ∧
              function.arity = values.length ∧ calls = inner + 1 ∧
              Run.enter function values (ready.tell (.closureCalled function.name values.length)) =
                .ok environment entered ∧
              next = ⟨fuel, inner, .executeAll function.body, none,
                { entered with environment := environment }⟩)
  | _, .evaluateAll (first :: rest) =>
      next = ⟨fuel, calls, .evaluate first, initializing, machine⟩ ∨
        ∃ value after, evaluate fuel calls first machine = .ok value after ∧
          next = ⟨fuel, calls, .evaluateAll rest, initializing, after⟩
  | fuel + 1, .execute (.expression value) | fuel + 1, .execute (.print value)
  | fuel + 1, .execute (.returning _ (some value)) =>
      next = ⟨fuel, calls, .evaluate value, none, machine⟩
  | fuel + 1, .execute (.declaration name (some initializer)) =>
      next = ⟨fuel, calls, .evaluate initializer,
        if machine.isAtGlobals then none else some name.text, machine⟩
  | fuel + 1, .execute (.block items) =>
      ∃ environment entered, Run.extend machine.environment machine = .ok environment entered ∧
        next = ⟨fuel, calls, .executeAll items, none, { entered with environment := environment }⟩
  | fuel + 1, .execute (.conditional condition thenBranch elseBranch) =>
      next = ⟨fuel, calls, .evaluate condition, none, machine⟩ ∨
        ∃ value after branch, evaluate fuel calls condition machine = .ok value after ∧
          (if value.isTruthy then branch = thenBranch else elseBranch = some branch) ∧
          next = ⟨fuel, calls, .execute branch, none, after.tell (.conditionTested value)⟩
  | fuel + 1, .execute (.loop condition body) =>
      next = ⟨fuel, calls, .evaluate condition, none, machine⟩ ∨
        ∃ value after, evaluate fuel calls condition machine = .ok value after ∧
          value.isTruthy = true ∧
          (next = ⟨fuel, calls, .execute body, none, after⟩ ∨
            ∃ again, execute fuel calls body after = .ok () again ∧
              next = ⟨fuel, calls, .execute (.loop condition body), none, again⟩)
  | _, .executeAll (first :: rest) =>
      next = ⟨fuel, calls, .execute first, none, machine⟩ ∨
        ∃ after, execute fuel calls first machine = .ok () after ∧
          next = ⟨fuel, calls, .executeAll rest, none, after⟩
  | _, _ => False

namespace Moment

/-- Whether a variable is accessed by its binding where it is: what is read by distance is in the frame
at that distance, which is not that of the globals; what is assigned to is there as well, unless it is
the local variable whose initializer is being evaluated. -/
def AccessFound (moment : Moment) : Prop :=
  match moment.task with
  | .evaluate (.variable name (.enclosing distance)) =>
      ∃ id, moment.machine.environment[distance]? = some id ∧ id ≠ Machine.globalFrame ∧
        (moment.machine.store.frame id).contains name.text = true
  | .evaluate (.assignment name (.enclosing distance) _) =>
      ∃ id, moment.machine.environment[distance]? = some id ∧ id ≠ Machine.globalFrame ∧
        ((moment.machine.store.frame id).contains name.text = true ∨
          moment.initializing = some name.text)
  | _ => True

/-- Whether the references of a task are bound in a context. -/
def Bound (moment : Moment) (context : Context) : Prop :=
  match moment.task with
  | .evaluate expression =>
      (moment.initializing ≠ none → context ≠ []) ∧ expression.Bound context moment.initializing
  | .evaluateAll expressions =>
      (moment.initializing ≠ none → context ≠ []) ∧
        Expression.listBound context moment.initializing expressions
  | .execute statement => statement.Bound context
  | .executeAll statements => Statement.listBound context statements

/-- Whether the machine is sound, and its environment models a context in which the task is bound. -/
structure Sound (moment : Moment) : Prop where
  store : moment.machine.store.Sound
  bound : ∃ context, moment.machine.store.Models moment.machine.environment context ∧
    moment.Bound context

theorem Sound.accessFound {moment : Moment} (sound : moment.Sound) : moment.AccessFound := by
  obtain ⟨context, models, bound⟩ := sound.bound
  unfold AccessFound
  unfold Bound at bound
  split
  · rename_i name distance isTask
    rw [isTask] at bound
    exact models.found bound.2.symm
  · rename_i name distance value isTask
    rw [isTask] at bound
    exact models.assigned bound.2.2.symm bound.1
  · trivial

/-! ## Turning from moment to moment -/

section Turns

variable {fuel calls : Nat} {initializing : Option String} {machine after : Machine}
  {context : Context} {next : Moment}

theorem evaluated_follows {expression : Expression Binding} {value : Value}
    (soundStore : machine.store.Sound) (models : machine.store.Models machine.environment context)
    (inScope : initializing ≠ none → context ≠ []) (bound : expression.Bound context initializing)
    (ends : evaluate fuel calls expression machine = .ok value after) :
    after.Follows machine ∧ value.Sound after.store :=
  ((evaluate_and_execute_sound fuel).1 calls expression context initializing machine soundStore
    models inScope bound).of_ok ends

theorem executed_follows {statement : Statement Binding} {result : Unit}
    (soundStore : machine.store.Sound) (models : machine.store.Models machine.environment context)
    (bound : statement.Bound context)
    (ends : execute fuel calls statement machine = .ok result after) :
    after.Follows machine ∧
      after.store.Models after.environment (statement.contextBehind context) :=
  ((evaluate_and_execute_sound fuel).2 calls statement context machine soundStore models
    bound).of_ok ends

theorem sound_evaluate {expression : Expression Binding} (soundStore : machine.store.Sound)
    (models : machine.store.Models machine.environment context)
    (inScope : initializing ≠ none → context ≠ []) (bound : expression.Bound context initializing) :
    Sound ⟨fuel, calls, .evaluate expression, initializing, machine⟩ :=
  ⟨soundStore, context, models, inScope, bound⟩

theorem sound_execute {statement : Statement Binding} (soundStore : machine.store.Sound)
    (models : machine.store.Models machine.environment context) (bound : statement.Bound context) :
    Sound ⟨fuel, calls, .execute statement, initializing, machine⟩ :=
  ⟨soundStore, context, models, bound⟩

/-- The body of a sound function is entered soundly. -/
theorem sound_enter {function : Closure} {arguments : List Value} {environment : Environment}
    {entered : Machine} (soundStore : machine.store.Sound)
    (soundFunction : function.Sound machine.store)
    (soundArguments : ∀ value ∈ arguments, value.Sound machine.store)
    (sameNumber : function.arity = arguments.length)
    (enters : Run.enter function arguments machine = .ok environment entered) :
    Sound ⟨fuel, calls, .executeAll function.body, none,
      { entered with environment := environment }⟩ := by
  obtain ⟨inner, models, bound⟩ := soundFunction
  have safe : (Run.enter function arguments).Safe machine (fun environment after =>
      after.store.Models environment ((function.parameters.map Name.text).reverse :: inner)) := by
    unfold Run.enter
    apply Run.Safe.bind (Run.safe_extend function.environment soundStore models)
    intro environment extended follows modelsExtended
    have soundThere : ∀ value ∈ arguments, value.Sound extended.store := by
      intro value member
      exact (soundArguments value member).mono follows.extends_store
    apply Run.Safe.bind (Run.safe_defineParameters environment sameNumber follows.sound
      modelsExtended soundThere)
    intro _ defined followsExtended modelsDefined
    rw [List.append_nil] at modelsDefined
    exact Run.safe_pure followsExtended.sound modelsDefined
  have ⟨follows, modelsEntered⟩ := safe.of_ok enters
  exact ⟨follows.sound, _, modelsEntered, bound⟩

theorem turns_call {callee : Expression Binding} {arguments : List (Expression Binding)} {line : Nat}
    (soundStore : machine.store.Sound) (models : machine.store.Models machine.environment context)
    (inScope : initializing ≠ none → context ≠ [])
    (bound : (Expression.call callee arguments line).Bound context initializing)
    (turns : Turns ⟨fuel + 1, calls, .evaluate (.call callee arguments line), initializing, machine⟩
      next) : next.Sound := by
  rcases turns with rfl | ⟨value, called, ends, rfl | ⟨function, values, ready, inner, environment,
    entered, rfl, collected, sameNumber, rfl, enters, rfl⟩⟩
  · exact sound_evaluate soundStore models inScope bound.1
  · have ⟨follows, _⟩ := evaluated_follows soundStore models inScope bound.1 ends
    exact ⟨follows.sound, context, follows.models models, inScope, bound.2⟩
  · have ⟨follows, soundFunction⟩ := evaluated_follows soundStore models inScope bound.1 ends
    have ⟨followsCalled, soundValues⟩ := (collect_sound (evaluate_and_execute_sound fuel).1
      follows.sound (follows.models models) inScope bound.2).of_ok collected
    have ⟨followsReady, _⟩ := (Run.safe_tell
      (.closureCalled function.name values.length) followsCalled.sound).of_ok rfl
    apply sound_enter followsReady.sound _ _ sameNumber enters
    · have later := followsReady.extends_store.trans followsCalled.extends_store
      exact (soundFunction function rfl).mono later
    · intro value member
      exact (soundValues value member).mono followsReady.extends_store

theorem turns_evaluate {expression : Expression Binding} (soundStore : machine.store.Sound)
    (models : machine.store.Models machine.environment context)
    (inScope : initializing ≠ none → context ≠ []) (bound : expression.Bound context initializing)
    (turns : Turns ⟨fuel + 1, calls, .evaluate expression, initializing, machine⟩ next) :
    next.Sound := by
  cases expression with
  | constant | «variable» => exact turns.elim
  | grouping inner =>
      obtain rfl := turns
      exact sound_evaluate soundStore models inScope bound
  | assignment name binding value =>
      obtain rfl := turns
      exact sound_evaluate soundStore models inScope bound.1
  | unary operator line operand =>
      obtain rfl := turns
      exact sound_evaluate soundStore models inScope bound
  | binary operator line left right =>
      rcases turns with rfl | ⟨value, after, ends, rfl⟩
      · exact sound_evaluate soundStore models inScope bound.1
      · have ⟨follows, _⟩ := evaluated_follows soundStore models inScope bound.1 ends
        exact sound_evaluate follows.sound (follows.models models) inScope bound.2
  | logical operator line left right =>
      rcases turns with rfl | ⟨value, after, ends, _, rfl⟩
      · exact sound_evaluate soundStore models inScope bound.1
      · have ⟨follows, _⟩ := evaluated_follows soundStore models inScope bound.1 ends
        exact sound_evaluate follows.sound (follows.models models) inScope bound.2
  | call callee arguments line => exact turns_call soundStore models inScope bound turns

/-- The name whose initializer is evaluated is the one that waits for it. -/
theorem initializing_eq (models : machine.store.Models machine.environment context) (name : String) :
    (if machine.isAtGlobals then none else some name) = context.waitingFor name := by
  unfold Machine.isAtGlobals
  generalize machine.environment = environment at models ⊢
  cases models with
  | globals => rfl
  | @scope id outer names context inner made contains behind =>
      have elsewhere : ((id :: outer) == Machine.globalEnvironment) = false := by
        simp [Machine.globalEnvironment, inner]
      rw [elsewhere]
      rfl

theorem turns_execute {statement : Statement Binding} (soundStore : machine.store.Sound)
    (models : machine.store.Models machine.environment context) (bound : statement.Bound context)
    (turns : Turns ⟨fuel + 1, calls, .execute statement, initializing, machine⟩ next) :
    next.Sound := by
  have nowhere : (none : Option String) ≠ none → context ≠ [] := fun some => absurd rfl some
  cases statement with
  | expression value =>
      obtain rfl := turns
      exact sound_evaluate soundStore models nowhere bound
  | print value =>
      obtain rfl := turns
      exact sound_evaluate soundStore models nowhere bound
  | declaration name initializer =>
      cases initializer with
      | none => exact turns.elim
      | some initializer =>
          obtain rfl := turns
          rw [initializing_eq models]
          apply sound_evaluate soundStore models _ (bound.2 initializer rfl)
          intro waits
          cases context with
          | nil => exact absurd rfl waits
          | cons innermost outer => simp
  | function name parameters body => exact turns.elim
  | block items =>
      obtain ⟨environment, entered, extends', rfl⟩ := turns
      have ⟨follows, modelsEntered⟩ :=
        (Run.safe_extend machine.environment soundStore models).of_ok extends'
      exact ⟨follows.sound, [] :: context, modelsEntered, bound⟩
  | conditional condition thenBranch elseBranch =>
      have boundCondition : condition.Bound context none := by
        cases elseBranch <;> exact bound.1
      rcases turns with rfl | ⟨value, after, branch, ends, chosen, rfl⟩
      · exact sound_evaluate soundStore models nowhere boundCondition
      · have ⟨follows, _⟩ := evaluated_follows soundStore models nowhere boundCondition ends
        have ⟨followsAfter, _⟩ := (Run.safe_tell (.conditionTested value) follows.sound).of_ok rfl
        apply sound_execute followsAfter.sound (followsAfter.models (follows.models models))
        split at chosen
        · rw [chosen]
          cases elseBranch with
          | none => exact bound.2.2
          | some elseBranch => exact bound.2.1.2
        · rw [chosen] at bound
          exact bound.2.2.2
  | loop condition body =>
      rcases turns with rfl | ⟨value, after, ends, _, rfl | ⟨again, ended, rfl⟩⟩
      · exact sound_evaluate soundStore models nowhere bound.1
      · have ⟨follows, _⟩ := evaluated_follows soundStore models nowhere bound.1 ends
        exact sound_execute follows.sound (follows.models models) bound.2.2
      · have ⟨follows, _⟩ := evaluated_follows soundStore models nowhere bound.1 ends
        have ⟨followsAfter, _⟩ :=
          executed_follows follows.sound (follows.models models) bound.2.2 ended
        have later := followsAfter.trans follows
        exact sound_execute later.sound (later.models models) bound
  | returning line value =>
      cases value with
      | none => exact turns.elim
      | some value =>
          obtain rfl := turns
          exact sound_evaluate soundStore models nowhere (bound value rfl)

end Turns

/-- Where a run is sound at one moment, it is so at the next. -/
theorem Sound.turns {moment next : Moment} (sound : moment.Sound) (turns : moment.Turns next) :
    next.Sound := by
  obtain ⟨fuel, calls, task, initializing, machine⟩ := moment
  obtain ⟨soundStore, context, models, bound⟩ := sound
  cases task with
  | evaluate expression =>
      cases fuel with
      | zero => exact turns.elim
      | succ fuel => exact turns_evaluate soundStore models bound.1 bound.2 turns
  | evaluateAll expressions =>
      cases expressions with
      | nil => cases fuel <;> exact turns.elim
      | cons first rest =>
          have ⟨inScope, boundFirst, boundRest⟩ := bound
          have either : next = ⟨fuel, calls, .evaluate first, initializing, machine⟩ ∨
              ∃ value after, evaluate fuel calls first machine = .ok value after ∧
                next = ⟨fuel, calls, .evaluateAll rest, initializing, after⟩ := by
            cases fuel <;> exact turns
          rcases either with rfl | ⟨value, after, ends, rfl⟩
          · exact sound_evaluate soundStore models inScope boundFirst
          · have ⟨follows, _⟩ := evaluated_follows soundStore models inScope boundFirst ends
            exact ⟨follows.sound, context, follows.models models, inScope, boundRest⟩
  | execute statement =>
      cases fuel with
      | zero => exact turns.elim
      | succ fuel => exact turns_execute soundStore models bound turns
  | executeAll statements =>
      cases statements with
      | nil => cases fuel <;> exact turns.elim
      | cons first rest =>
          have ⟨boundFirst, boundRest⟩ := bound
          have either : next = ⟨fuel, calls, .execute first, none, machine⟩ ∨
              ∃ after, execute fuel calls first machine = .ok () after ∧
                next = ⟨fuel, calls, .executeAll rest, none, after⟩ := by
            cases fuel <;> exact turns
          rcases either with rfl | ⟨after, ends, rfl⟩
          · exact sound_execute soundStore models boundFirst
          · have ⟨follows, modelsAfter⟩ := executed_follows soundStore models boundFirst ends
            exact ⟨follows.sound, _, modelsAfter, boundRest⟩

/-- Where a run starts soundly, it is sound at each of its moments. -/
theorem Sound.reaches {start moment : Moment} (sound : start.Sound)
    (reached : Relation.ReflTransGen Turns start moment) : moment.Sound := by
  induction reached with
  | refl => exact sound
  | tail _ turns inductionHypothesis => exact inductionHypothesis.turns turns

end Moment

end LoxInterpreter
