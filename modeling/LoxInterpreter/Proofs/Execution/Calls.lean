import LoxInterpreter.Proofs.Execution.Moment
import LoxInterpreter.Proofs.Execution.Restoring
import LoxInterpreter.Proofs.Execution.Returning

/-!
Contract: which call a return returns to.

A run enters the body of a function only from a call. What a body hands on as a return is what the call
evaluates to; and between a body and a return in it, whatever blocks, branches and loops there are,
each statement around the return hands it on unchanged. So a return goes to the innermost call that is
active, and with the same machine but for the environment, which is again that of the call.

Owns: `Moment.Enters`, `Moment.Stays`, `Moment.Returns`, and `Moment.Returns.of_within`.
Does not own: which programs have a return outside all bodies (`Proofs.Scope.Returning`).
-/

namespace LoxInterpreter

namespace Moment

/-- Whether a run turns from a call to the body of the function that is called. -/
def Enters (call body : Moment) : Prop :=
  call.Turns body ∧ (∃ expression, call.task = .evaluate expression) ∧
    ∃ statements, body.task = .executeAll statements

/-- Whether a run turns from one moment to another in the same body. -/
def Stays (moment next : Moment) : Prop := moment.Turns next ∧ ¬ moment.Enters next

/-- Whether a moment belongs to a body, outside the bodies that are entered from there. -/
def Within (body moment : Moment) : Prop := Relation.ReflTransGen Stays body moment

/-- Whether what is worked at hands on a return, and what machine it leaves. -/
def Returns (moment : Moment) (value : Value) (after : Machine) : Prop :=
  match moment.task with
  | .evaluate expression =>
      evaluate moment.fuel moment.calls expression moment.machine = .error (.returned value) after
  | .evaluateAll expressions =>
      Run.collect (evaluate moment.fuel moment.calls) expressions moment.machine =
        .error (.returned value) after
  | .execute statement =>
      execute moment.fuel moment.calls statement moment.machine = .error (.returned value) after
  | .executeAll statements =>
      Run.each (execute moment.fuel moment.calls) statements moment.machine =
        .error (.returned value) after

/-- Whether an expression is worked at that has a value, and what machine its evaluation leaves. -/
def Results (moment : Moment) (value : Value) (after : Machine) : Prop :=
  ∃ expression, moment.task = .evaluate expression ∧
    evaluate moment.fuel moment.calls expression moment.machine = .ok value after

end Moment

def Task.IsExecution : Task → Prop
  | .execute _ | .executeAll _ => True
  | .evaluate _ | .evaluateAll _ => False

namespace Moment

variable {moment next body call : Moment} {value : Value} {after : Machine}

/-- Only statements hand on returns. -/
theorem Returns.isExecution (returns : moment.Returns value after) : moment.task.IsExecution := by
  obtain ⟨fuel, calls, task, initializing, machine⟩ := moment
  cases task with
  | evaluate expression => exact absurd returns (evaluate_contained fuel calls expression machine value after)
  | evaluateAll expressions =>
      exact absurd returns
        (Run.contained_collect (evaluate_contained fuel calls) expressions machine value after)
  | execute | executeAll => trivial

/-- From an expression a run turns to expressions, or to the body of a function. -/
theorem Stays.isExecution (stays : moment.Stays next) (isNext : next.task.IsExecution) :
    moment.task.IsExecution := by
  obtain ⟨fuel, calls, task, initializing, machine⟩ := moment
  obtain ⟨turns, elsewhere⟩ := stays
  cases task with
  | execute | executeAll => trivial
  | evaluateAll expressions =>
      cases expressions with
      | nil => cases fuel <;> exact turns.elim
      | cons first rest =>
          have either : next = ⟨fuel, calls, .evaluate first, initializing, machine⟩ ∨
              ∃ value after, evaluate fuel calls first machine = .ok value after ∧
                next = ⟨fuel, calls, .evaluateAll rest, initializing, after⟩ := by
            cases fuel <;> exact turns
          rcases either with rfl | ⟨_, _, _, rfl⟩ <;> exact isNext
  | evaluate expression =>
      cases fuel with
      | zero => exact turns.elim
      | succ fuel =>
          cases expression with
          | constant | «variable» => exact turns.elim
          | grouping | assignment | unary =>
              obtain rfl := turns
              exact isNext
          | binary =>
              rcases turns with rfl | ⟨_, _, _, rfl⟩ <;> exact isNext
          | logical =>
              rcases turns with rfl | ⟨_, _, _, _, rfl⟩ <;> exact isNext
          | call callee arguments line =>
              rcases turns with rfl | ⟨value, called, ends, rfl | entered⟩
              · exact isNext
              · exact isNext
              · refine (elsewhere ⟨.inr ⟨value, called, ends, .inr entered⟩, ⟨_, rfl⟩, ?_⟩).elim
                obtain ⟨_, _, _, _, _, _, _, _, _, _, _, rfl⟩ := entered
                exact ⟨_, rfl⟩

/-- A statement that hands on a return leaves the environment as it was. -/
theorem Returns.environment_eq (returns : moment.Returns value after) :
    after.environment = moment.machine.environment := by
  have isExecution := returns.isExecution
  obtain ⟨fuel, calls, task, initializing, machine⟩ := moment
  cases task with
  | evaluate | evaluateAll => exact isExecution.elim
  | execute statement => exact (execute_restores fuel calls statement machine).of_error returns
  | executeAll statements =>
      exact (Run.restores_each (execute_restores fuel calls) statements machine).of_error returns

theorem environment_self {machine : Machine} {environment : Environment}
    (same : machine.environment = environment) :
    { machine with environment := environment } = machine := by
  subst same
  rfl

section Statements

variable {fuel calls : Nat} {initializing : Option String} {machine : Machine}

theorem Returns.of_statement {statement : Statement Binding} (returns : next.Returns value after)
    (turns : Turns ⟨fuel + 1, calls, .execute statement, initializing, machine⟩ next) :
    execute (fuel + 1) calls statement machine =
      .error (.returned value) { after with environment := machine.environment } := by
  have isExecution := returns.isExecution
  have same := returns.environment_eq
  cases statement with
  | expression | print =>
      obtain rfl := turns
      exact isExecution.elim
  | declaration name initializer =>
      cases initializer with
      | none => exact turns.elim
      | some initializer =>
          obtain rfl := turns
          exact isExecution.elim
  | function name parameters body => exact turns.elim
  | block items =>
      obtain ⟨environment, entered, extends', rfl⟩ := turns
      have runs : Run.each (execute fuel calls) items { entered with environment := environment } =
          .error (.returned value) after := returns
      have restored := (Run.restores_extend machine.environment machine).of_ok extends'
      rw [execute]
      refine Run.bind_eq_error_iff.mpr (.inr ⟨machine, machine, rfl, ?_⟩)
      refine Run.bind_eq_error_iff.mpr (.inr ⟨environment, entered, extends', ?_⟩)
      unfold Run.withEnvironment
      rw [runs, restored]
  | conditional condition thenBranch elseBranch =>
      rcases turns with rfl | ⟨tested, between, branch, ends, chosen, rfl⟩
      · exact isExecution.elim
      · have runs : execute fuel calls branch (between.tell (.conditionTested tested)) =
            .error (.returned value) after := returns
        have restored := (evaluate_restores fuel calls condition machine).of_ok ends
        rw [environment_self ((same.trans (between.environment_tell _)).trans restored),
          execute_conditional]
        refine Run.bind_eq_error_iff.mpr (.inr ⟨tested, between, ends, ?_⟩)
        refine Run.bind_eq_error_iff.mpr (.inr ⟨(), between.tell (.conditionTested tested), rfl, ?_⟩)
        split at chosen
        · rw [if_pos ‹_›, ← chosen]
          exact runs
        · rw [if_neg ‹_›, chosen]
          exact runs
  | loop condition body =>
      rcases turns with rfl | ⟨tested, between, ends, holds, rfl | ⟨again, ended, rfl⟩⟩
      · exact isExecution.elim
      · have runs : execute fuel calls body between = .error (.returned value) after := returns
        have restored := (evaluate_restores fuel calls condition machine).of_ok ends
        rw [environment_self (same.trans restored), execute]
        refine Run.bind_eq_error_iff.mpr (.inr ⟨tested, between, ends, ?_⟩)
        rw [if_pos holds]
        exact Run.bind_eq_error_iff.mpr (.inl runs)
      · have runs : execute fuel calls (.loop condition body) again = .error (.returned value) after :=
          returns
        have restored := (evaluate_restores fuel calls condition machine).of_ok ends
        have restoredAgain := (execute_restores fuel calls body between).of_ok ended
        rw [environment_self ((same.trans restoredAgain).trans restored), execute]
        refine Run.bind_eq_error_iff.mpr (.inr ⟨tested, between, ends, ?_⟩)
        rw [if_pos holds]
        exact Run.bind_eq_error_iff.mpr (.inr ⟨(), again, ended, runs⟩)
  | returning line result =>
      cases result with
      | none => exact turns.elim
      | some result =>
          obtain rfl := turns
          exact isExecution.elim

theorem Returns.of_statements {statements : List (Statement Binding)}
    (returns : next.Returns value after)
    (turns : Turns ⟨fuel, calls, .executeAll statements, initializing, machine⟩ next) :
    Run.each (execute fuel calls) statements machine =
      .error (.returned value) { after with environment := machine.environment } := by
  have same := returns.environment_eq
  cases statements with
  | nil => cases fuel <;> exact turns.elim
  | cons first rest =>
      have either : next = ⟨fuel, calls, .execute first, none, machine⟩ ∨
          ∃ after, execute fuel calls first machine = .ok () after ∧
            next = ⟨fuel, calls, .executeAll rest, none, after⟩ := by
        cases fuel <;> exact turns
      rcases either with rfl | ⟨between, ends, rfl⟩
      · rw [environment_self same]
        exact Run.bind_eq_error_iff.mpr (.inl returns)
      · have restored := (execute_restores fuel calls first machine).of_ok ends
        rw [environment_self (same.trans restored)]
        exact Run.bind_eq_error_iff.mpr (.inr ⟨(), between, ends, returns⟩)

end Statements

/-- What is handed on is handed on by what is around it in the same body. -/
theorem Returns.of_stays (returns : next.Returns value after) (stays : moment.Stays next) :
    moment.Returns value { after with environment := moment.machine.environment } := by
  have isExecution := stays.isExecution returns.isExecution
  obtain ⟨fuel, calls, task, initializing, machine⟩ := moment
  cases task with
  | evaluate | evaluateAll => exact isExecution.elim
  | executeAll statements => exact returns.of_statements stays.1
  | execute statement =>
      cases fuel with
      | zero => exact stays.1.elim
      | succ fuel => exact returns.of_statement stays.1

/-- What is handed on in a body, outside the bodies that are entered from there, is handed on by the
body. -/
theorem Returns.of_within (returns : moment.Returns value after) (within' : body.Within moment) :
    body.Returns value { after with environment := body.machine.environment } := by
  induction within' using Relation.ReflTransGen.head_induction_on with
  | refl =>
      rw [environment_self returns.environment_eq]
      exact returns
  | head stays _ inductionHypothesis => exact inductionHypothesis.of_stays stays

/-- What a body that was entered hands on is what its function is called to. -/
theorem callClosure_of_enter {function : Closure} {arguments : List Value} {environment : Environment}
    {statements : Run Unit} {ready entered final : Machine}
    (enters : Run.enter function arguments ready = .ok environment entered)
    (ends : statements { entered with environment := environment } = .error (.returned value) final) :
    Run.callClosure function arguments statements ready =
      .ok value { final with environment := ready.environment } := by
  obtain ⟨extended, between, extends', rest⟩ := Run.bind_eq_ok_iff.mp enters
  obtain ⟨_, defined, defines, done⟩ := Run.bind_eq_ok_iff.mp rest
  cases done
  have restored := (Run.restores_extend function.environment ready).of_ok extends'
  have restoredAgain := (Run.restores_defineParameters environment function.parameters arguments
    between).of_ok defines
  refine Run.bind_eq_ok_iff.mpr ⟨environment, between, extends', ?_⟩
  refine Run.bind_eq_ok_iff.mpr ⟨(), entered, defines, ?_⟩
  unfold Run.catchReturn Run.withEnvironment
  rw [ends, ← restored, ← restoredAgain]

/-- What a body hands on is what the call evaluates to that entered it. -/
theorem Returns.of_enters (returns : body.Returns value after) (enters : call.Enters body) :
    call.Results value { after with environment := call.machine.environment } := by
  obtain ⟨fuel, calls, task, initializing, machine⟩ := call
  obtain ⟨turns, ⟨expression, rfl⟩, statements, isBody⟩ := enters
  refine ⟨expression, rfl, ?_⟩
  dsimp only
  cases fuel with
  | zero => exact turns.elim
  | succ fuel =>
      cases expression with
      | constant | «variable» => exact turns.elim
      | grouping | assignment | unary =>
          obtain rfl := turns
          cases isBody
      | binary =>
          rcases turns with rfl | ⟨_, _, _, rfl⟩ <;> cases isBody
      | logical =>
          rcases turns with rfl | ⟨_, _, _, _, rfl⟩ <;> cases isBody
      | call callee arguments line =>
          rcases turns with rfl | ⟨_, called, ends, rfl | ⟨function, values, ready, inner, environment,
            entered, rfl, collected, sameNumber, rfl, enters, rfl⟩⟩
          · cases isBody
          · cases isBody
          · have restored := (evaluate_restores fuel _ callee machine).of_ok ends
            have restoredReady := (Run.restores_collect (evaluate_restores fuel _) arguments
              called).of_ok collected
            have calls := callClosure_of_enter enters returns
            rw [Machine.environment_tell, restoredReady, restored] at calls
            rw [evaluate]
            refine Run.bind_eq_ok_iff.mpr ⟨.closure function, called, ends, ?_⟩
            refine Run.bind_eq_ok_iff.mpr ⟨values, ready, collected, ?_⟩
            refine Run.bind_eq_ok_iff.mpr ⟨(), ready, ?_, ?_⟩
            · unfold Run.checkArity
              rw [if_pos sameNumber]
              rfl
            · exact Run.bind_eq_ok_iff.mpr ⟨(), _, rfl, calls⟩

/-- A moment of a run belongs to the body that the run starts with, or to one that a call has
entered. -/
theorem within_or_entered {start : Moment} (reached : Relation.ReflTransGen Turns start moment) :
    start.Within moment ∨ ∃ call body, Relation.ReflTransGen Turns start call ∧ call.Enters body ∧
      body.Within moment := by
  induction reached with
  | refl => exact .inl .refl
  | @tail between next earlier turns inductionHypothesis =>
      by_cases enters : between.Enters next
      · exact .inr ⟨between, next, earlier, enters, .refl⟩
      · have stays : between.Stays next := ⟨turns, enters⟩
        rcases inductionHypothesis with first | ⟨call, body, reachedCall, entered, first⟩
        · exact .inl (first.tail stays)
        · exact .inr ⟨call, body, reachedCall, entered, first.tail stays⟩

end Moment

end LoxInterpreter
