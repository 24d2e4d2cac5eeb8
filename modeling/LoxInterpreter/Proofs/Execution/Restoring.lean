import LoxInterpreter.Proofs.Execution.Frames
import LoxInterpreter.Proofs.Execution.Laws

/-!
Contract: the environment in which code runs is again what it was when the code ends.

Only blocks and calls run code in another environment, and they put back the enclosing one however that
code ends. This needs nothing of the bindings of the code or of the state of the machine.

Owns: `Run.Restores`, and that all evaluation restores the environment.
-/

namespace LoxInterpreter

namespace Run

variable {α β : Type}

/-- Whether an action ends in the environment in which it begins, however it ends. -/
def Restores (action : Run α) : Prop :=
  ∀ machine, action.Ends machine (fun _ after => after.environment = machine.environment)
    (fun _ after => after.environment = machine.environment)

theorem restores_pure (value : α) : (pure value : Run α).Restores := fun _ => rfl

theorem restores_throw (signal : Signal) : (throw signal : Run α).Restores := fun _ => rfl

theorem restores_get : (get : Run Machine).Restores := fun _ => rfl

theorem restores_modifyGet {change : Machine → α × Machine}
    (same : ∀ machine, (change machine).2.environment = machine.environment) :
    (modifyGet change : Run α).Restores := same

theorem restores_tell (event : TraceEvent) : (tell event).Restores :=
  fun machine => machine.environment_tell event

theorem Restores.bind {first : Run α} {next : α → Run β} (restores : first.Restores)
    (rest : ∀ value, (next value).Restores) : (first >>= next).Restores := by
  intro machine
  rw [ends_bind_iff]
  refine Ends.imp (restores machine) (fun value between same => ?_) (fun _ _ same => same)
  exact Ends.imp (rest value between) (fun _ _ later => later.trans same)
    (fun _ _ later => later.trans same)

/-- Whatever the action does, the enclosing environment is put back. -/
theorem restores_withEnvironment (environment : Environment) (action : Run α) :
    (withEnvironment environment action).Restores := by
  intro machine
  unfold withEnvironment Ends
  dsimp only
  cases action { machine with environment := environment } <;> rfl

theorem Restores.catchReturn {body : Run Unit} (restores : body.Restores) :
    (catchReturn body).Restores := by
  intro machine
  rw [ends_catchReturn_iff]
  refine Ends.imp (restores machine) (fun _ _ same => same) (fun signal _ same => ?_)
  cases signal <;> exact same

/-- Restoring the environment is inherited, and calls keep it whatever the body is. -/
theorem restoring_laws : StatementLaws fun action _ => action.Restores where
  pure := restores_pure
  bind restores rest := restores.bind rest
  outOfFuel _ := restores_throw _
  stop _ := restores_throw _
  tell := restores_tell
  inspect _ rest := restores_get.bind rest
  change quiet := restores_modifyGet quiet.environment_eq
  returned _ := restores_throw _
  withEnvironment environment _ := restores_withEnvironment environment _
  catchReturn restores := restores.catchReturn

theorem restores_extend (environment : Environment) : (extend environment).Restores :=
  restoring_laws.extend environment

theorem restores_defineParameters (environment : Environment) (names : List Name)
    (values : List Value) : (defineParameters environment names values).Restores :=
  restoring_laws.defineParameters environment names values

theorem restores_collect {action : α → Run β} (restores : ∀ item, (action item).Restores)
    (items : List α) : (collect action items).Restores :=
  restoring_laws.collect action action restores items

theorem restores_each {action : α → Run Unit} (restores : ∀ item, (action item).Restores)
    (items : List α) : (each action items).Restores :=
  restoring_laws.each action action restores items

theorem restores_callClosure (function : Closure) (arguments : List Value) (body : Run Unit) :
    (callClosure function arguments body).Restores := by
  apply (restores_extend _).bind
  intro environment
  apply (restores_defineParameters environment _ arguments).bind
  intro _
  exact (restores_withEnvironment environment body).catchReturn

end Run

/-- Every expression restores the environment. -/
theorem evaluate_restores (fuel calls : Nat) (expression : Expression Binding) :
    (evaluate fuel calls expression).Restores :=
  (Run.restoring_laws.evaluation fuel 0 0 (.inl rfl)).1 calls expression

/-- Every statement restores the environment. -/
theorem execute_restores (fuel calls : Nat) (statement : Statement Binding) :
    (execute fuel calls statement).Restores :=
  (Run.restoring_laws.evaluation fuel 0 0 (.inl rfl)).2 calls statement

end LoxInterpreter
