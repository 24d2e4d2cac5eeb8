import LoxInterpreter.Execution.Evaluation

/-!
Contract: how actions on machines end, as predicates on what they end with.

Owns: `Run.Ends`, and one law for each primitive action and each way of putting actions together.
Does not own: what evaluation does (`Proofs.Execution.Agreement`).
-/

namespace LoxInterpreter.Run

variable {α β : Type}

/-- Whether an action on a machine ends with a result or a signal of which something holds. -/
def Ends (action : Run α) (machine : Machine) (done : α → Machine → Prop)
    (stopped : Signal → Machine → Prop) : Prop :=
  match action machine with
  | .ok value after => done value after
  | .error signal after => stopped signal after

variable {machine : Machine} {done : α → Machine → Prop} {stopped : Signal → Machine → Prop}

theorem Ends.imp {action : Run α} {done' : α → Machine → Prop} {stopped' : Signal → Machine → Prop}
    (ends : action.Ends machine done stopped) (result : ∀ value after, done value after → done' value after)
    (signal : ∀ signal after, stopped signal after → stopped' signal after) :
    action.Ends machine done' stopped' := by
  unfold Ends at ends ⊢
  cases ending : action machine with
  | ok value after =>
      rw [ending] at ends
      exact result value after ends
  | error early after =>
      rw [ending] at ends
      exact signal early after ends

theorem Ends.of_ok {action : Run α} (ends : action.Ends machine done stopped) {value : α}
    {after : Machine} (ending : action machine = .ok value after) : done value after := by
  unfold Ends at ends
  rwa [ending] at ends

theorem Ends.of_error {action : Run α} (ends : action.Ends machine done stopped) {signal : Signal}
    {after : Machine} (ending : action machine = .error signal after) : stopped signal after := by
  unfold Ends at ends
  rwa [ending] at ends

/-- A sequence goes on from where its first half ends. -/
theorem bind_apply {State Early : Type} (first : EStateM Early State α)
    (next : α → EStateM Early State β) (state : State) :
    (first >>= next) state =
      match first state with
      | .ok value between => next value between
      | .error early between => .error early between := by
  change EStateM.bind first next state = _
  unfold EStateM.bind
  cases first state <;> rfl

/-- A sequence ends with a result when its halves do, one after the other. -/
theorem bind_eq_ok_iff {first : Run α} {next : α → Run β} {result : β} {after : Machine} :
    (first >>= next) machine = .ok result after ↔
      ∃ value between, first machine = .ok value between ∧ next value between = .ok result after := by
  rw [bind_apply]
  cases first machine with
  | ok value between => simp [and_assoc]
  | error signal between => simp

/-- A sequence ends early when its first half does, or its second half behind a result of the first. -/
theorem bind_eq_error_iff {first : Run α} {next : α → Run β} {signal : Signal} {after : Machine} :
    (first >>= next) machine = .error signal after ↔
      first machine = .error signal after ∨
        ∃ value between, first machine = .ok value between ∧
          next value between = .error signal after := by
  rw [bind_apply]
  cases first machine with
  | ok value between => simp [and_assoc]
  | error signal between => simp

theorem ends_bind_iff {first : Run α} {next : α → Run β} {done : β → Machine → Prop} :
    (first >>= next).Ends machine done stopped ↔
      first.Ends machine (fun value between => (next value).Ends between done stopped) stopped := by
  unfold Ends
  rw [bind_apply]
  cases first machine <;> rfl

theorem ends_withEnvironment_iff {environment : Environment} {action : Run α} :
    (withEnvironment environment action).Ends machine done stopped ↔
      action.Ends { machine with environment := environment }
        (fun value after => done value { after with environment := machine.environment })
        (fun signal after => stopped signal { after with environment := machine.environment }) := by
  unfold Ends withEnvironment
  cases action { machine with environment := environment } <;> rfl

theorem ends_catchReturn_iff {body : Run Unit} {done : Value → Machine → Prop} :
    (catchReturn body).Ends machine done stopped ↔
      body.Ends machine (fun _ after => done .nil after) (fun signal after =>
        match signal with
        | .returned value => done value after
        | signal => stopped signal after) := by
  unfold Ends catchReturn
  cases body machine with
  | ok value after => rfl
  | error signal after => cases signal <;> rfl

end LoxInterpreter.Run

namespace LoxInterpreter

/-- A choice, with or without a second branch. -/
theorem execute_conditional (fuel calls : Nat) (condition : Expression Binding)
    (thenBranch : Statement Binding) (elseBranch : Option (Statement Binding)) :
    execute (fuel + 1) calls (.conditional condition thenBranch elseBranch) = (do
      let condition ← evaluate fuel calls condition
      Run.tell (.conditionTested condition)
      if condition.isTruthy then execute fuel calls thenBranch
      else
        match elseBranch with
        | some branch => execute fuel calls branch
        | none => return) := by
  cases elseBranch <;> rfl

end LoxInterpreter
