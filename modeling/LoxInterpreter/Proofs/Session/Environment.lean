import LoxInterpreter.Proofs.Execution.Restoring
import LoxInterpreter.Proofs.Session.Reachable

/-!
Contract: code ends in the environment in which it begins.

An expression, a statement, a block in any environment and the call of a function put back the
environment that they found, whatever the references of the code are bound to and however it ends. So a
machine that runs programs is at the globals between any two of them.

Owns: `Run.leaves`, `Machine.afterPrograms`, and `environment_restored`.
Does not own: the laws of restoring (`Proofs.Execution.Restoring`).
-/

namespace LoxInterpreter

/-- The machine with which an action ends, however it ends. -/
def Run.leaves {α : Type} (action : Run α) (machine : Machine) : Machine :=
  match action machine with
  | .ok _ after => after
  | .error _ after => after

theorem Run.Restores.environment_leaves {α : Type} {action : Run α} (restores : action.Restores)
    (machine : Machine) : (action.leaves machine).environment = machine.environment := by
  unfold Run.leaves
  cases ends : action machine with
  | ok value after => exact (restores machine).of_ok ends
  | error signal after => exact (restores machine).of_error ends

/-- The machine behind programs that are run one after another, however each of them ends. -/
def Machine.afterPrograms (machine : Machine) (fuel callLimit : Nat)
    (programs : List (List (Statement Binding))) : Machine :=
  programs.foldl (fun machine program => (runProgram fuel callLimit program).leaves machine) machine

/-- Every program restores the environment. -/
theorem runProgram_restores (fuel callLimit : Nat) (program : List (Statement Binding)) :
    (runProgram fuel callLimit program).Restores :=
  Run.restoring_laws.program fuel 0 callLimit 0 (.inl rfl) program

theorem Machine.environment_afterPrograms (machine : Machine) (fuel callLimit : Nat)
    (programs : List (List (Statement Binding))) :
    (machine.afterPrograms fuel callLimit programs).environment = machine.environment := by
  unfold afterPrograms
  induction programs generalizing machine with
  | nil => rfl
  | cons program later inductionHypothesis =>
      rw [List.foldl_cons, inductionHypothesis]
      exact (runProgram_restores fuel callLimit program).environment_leaves machine

/-- The environment is restored. However they are bound, expressions, statements, statements in an
environment of their own, and bodies of called functions end in the environment in which they begin, on
every machine and with every ending: with a result, with a return, with a fault, or with too many nested
calls. Hence a machine is at the globals behind all programs that it runs, and a session behind all
requests. -/
theorem environment_restored :
    (∀ fuel calls (expression : Expression Binding) machine,
      ((evaluate fuel calls expression).leaves machine).environment = machine.environment) ∧
    (∀ fuel calls (statement : Statement Binding) machine,
      ((execute fuel calls statement).leaves machine).environment = machine.environment) ∧
    (∀ fuel calls environment (statements : List (Statement Binding)) machine,
      ((Run.withEnvironment environment (Run.each (execute fuel calls) statements)).leaves
        machine).environment = machine.environment) ∧
    (∀ fuel calls (function : Closure) arguments machine,
      ((Run.callClosure function arguments (Run.each (execute fuel calls) function.body)).leaves
        machine).environment = machine.environment) ∧
    (∀ fuel callLimit traceLevel clock programs,
      ((Machine.initial traceLevel clock).afterPrograms fuel callLimit programs).environment =
        Machine.globalEnvironment) ∧
    ∀ fuel callLimit traceLevel clock history,
      ((Session.initial fuel traceLevel clock callLimit).after history).machine.environment =
        Machine.globalEnvironment := by
  refine ⟨?expressions, ?statements, ?blocks, ?calls, ?programs, ?sessions⟩
  case expressions =>
    intro fuel calls expression machine
    exact (evaluate_restores fuel calls expression).environment_leaves machine
  case statements =>
    intro fuel calls statement machine
    exact (execute_restores fuel calls statement).environment_leaves machine
  case blocks =>
    intro fuel calls environment statements machine
    exact (Run.restores_withEnvironment environment _).environment_leaves machine
  case calls =>
    intro fuel calls function arguments machine
    exact (Run.restores_callClosure function arguments _).environment_leaves machine
  case programs =>
    intro fuel callLimit traceLevel clock programs
    exact (Machine.initial traceLevel clock).environment_afterPrograms fuel callLimit programs
  case sessions =>
    intro fuel callLimit traceLevel clock history
    exact ((Session.Reachable.initial fuel traceLevel clock callLimit).after history).sound.atGlobals

/-- A fault in a block leaves the machine at the globals. -/
example :
    ((Machine.initial 0 fun _ => 0).afterPrograms 9 usualCallLimit
      [[.block [.expression (.unary .negate 1 (.constant .nil))]]]).isAtGlobals = true := by
  rfl

end LoxInterpreter
