import LoxInterpreter.Proofs.Execution.Laws

/-!
Contract: what a run tells does not change what it does.

An action continues a trace by events that depend on the rest of the machine alone. Which of them are
told depends on the level alone, and nothing else depends on either.

Owns: `Run.Observed`, and that all evaluation is observed.
-/

namespace LoxInterpreter

/-- The events that are told at a level. -/
def TraceEvent.toldAt (events : List TraceEvent) (level : Nat) : List TraceEvent :=
  events.filter fun event => decide (event.level ≤ level)

theorem TraceEvent.toldAt_append (first second : List TraceEvent) (level : Nat) :
    toldAt (first ++ second) level = toldAt first level ++ toldAt second level :=
  List.filter_append first second

/-- A machine is itself with its own level and its own trace. -/
theorem Machine.traced_self (machine : Machine) :
    machine.traced machine.traceLevel machine.trace.toList = machine := by
  unfold traced
  rw [Array.toArray_toList]

theorem Machine.tell_traced (machine : Machine) (level : Nat) (trace : List TraceEvent)
    (event : TraceEvent) :
    (machine.traced level trace).tell event =
      machine.traced level (trace ++ TraceEvent.toldAt [event] level) := by
  unfold tell traced TraceEvent.toldAt
  by_cases told : event.level ≤ level
  · simp [told]
  · simp [told]

namespace Run

variable {α β : Type}

/-- How a run ends, with some level and some trace. -/
def tracedEnd (result : EStateM.Result Signal Machine α) (level : Nat) (trace : List TraceEvent) :
    EStateM.Result Signal Machine α :=
  match result with
  | .ok value after => .ok value (after.traced level trace)
  | .error signal after => .error signal (after.traced level trace)

/-- Whether an action does the same with any trace, and continues it by the same events, as far as the
level tells them. -/
def Observed (action : Run α) : Prop :=
  ∀ machine : Machine, ∃ events result, ∀ level trace,
    action (machine.traced level trace) =
      tracedEnd result level (trace ++ TraceEvent.toldAt events level)

/-! ## Laws -/

theorem observed_modifyGet {change : Machine → α × Machine}
    (blind : ∀ machine level trace, change (machine.traced level trace) =
      ((change machine).1, (change machine).2.traced level trace)) :
    (modifyGet change : Run α).Observed := by
  intro machine
  refine ⟨[], .ok (change machine).1 (change machine).2, ?_⟩
  intro level trace
  change EStateM.Result.ok (change (machine.traced level trace)).1
    (change (machine.traced level trace)).2 = _
  rw [blind]
  simp [tracedEnd, TraceEvent.toldAt]

theorem observed_pure (value : α) : (pure value : Run α).Observed := by
  intro machine
  refine ⟨[], .ok value machine, ?_⟩
  intro level trace
  simp only [TraceEvent.toldAt, List.filter_nil, List.append_nil]
  rfl

theorem observed_throw (signal : Signal) : (throw signal : Run α).Observed := by
  intro machine
  refine ⟨[], .error signal machine, ?_⟩
  intro level trace
  simp only [TraceEvent.toldAt, List.filter_nil, List.append_nil]
  rfl

theorem observed_tell (event : TraceEvent) : (tell event).Observed := by
  intro machine
  refine ⟨[event], .ok () machine, ?_⟩
  intro level trace
  change EStateM.Result.ok () ((machine.traced level trace).tell event) = _
  rw [machine.tell_traced]
  rfl

theorem Observed.bind {first : Run α} {next : α → Run β} (observed : first.Observed)
    (rest : ∀ value, (next value).Observed) : (first >>= next).Observed := by
  intro machine
  obtain ⟨events, result, ends⟩ := observed machine
  cases result with
  | ok value between =>
      obtain ⟨events', result', ends'⟩ := rest value between
      refine ⟨events ++ events', result', ?_⟩
      intro level trace
      rw [bind_apply, ends level trace]
      simp only [tracedEnd]
      rw [ends', TraceEvent.toldAt_append, List.append_assoc]
      rfl
  | error signal after =>
      refine ⟨events, .error signal after, ?_⟩
      intro level trace
      rw [bind_apply, ends level trace]
      rfl

/-- What is done with a machine may depend on all of it but its level and its trace. -/
theorem observed_get_bind {next : Machine → Run β}
    (blind : ∀ machine level trace, next (machine.traced level trace) = next machine)
    (rest : ∀ machine, (next machine).Observed) : (get >>= next).Observed := by
  intro machine
  obtain ⟨events, result, ends⟩ := rest machine machine
  refine ⟨events, result, ?_⟩
  intro level trace
  change next (machine.traced level trace) (machine.traced level trace) = _
  rw [blind]
  exact ends level trace

theorem Observed.withEnvironment {action : Run α} (observed : action.Observed)
    (environment : Environment) : (withEnvironment environment action).Observed := by
  intro machine
  obtain ⟨events, result, ends⟩ := observed { machine with environment := environment }
  refine ⟨events, Run.withEnvironment environment (fun _ => result) machine, ?_⟩
  intro level trace
  unfold Run.withEnvironment
  have there : { machine.traced level trace with environment := environment } =
      Machine.traced { machine with environment := environment } level trace := rfl
  rw [there, ends level trace]
  cases result <;> rfl

theorem Observed.catchReturn {body : Run Unit} (observed : body.Observed) :
    (catchReturn body).Observed := by
  intro machine
  obtain ⟨events, result, ends⟩ := observed machine
  refine ⟨events, Run.catchReturn (fun _ => result) machine, ?_⟩
  intro level trace
  unfold Run.catchReturn
  rw [ends level trace]
  cases result with
  | ok value after => rfl
  | error signal after => cases signal <;> rfl

/-- That an action is observed is inherited. -/
theorem observing_laws : StatementLaws fun action _ => action.Observed where
  pure := observed_pure
  bind observed rest := observed.bind rest
  outOfFuel _ := observed_throw _
  stop _ := observed_throw _
  tell := observed_tell
  inspect blind rest := observed_get_bind blind rest
  change quiet := observed_modifyGet quiet.traced
  returned _ := observed_throw _
  withEnvironment environment observed := observed.withEnvironment environment
  catchReturn observed := observed.catchReturn

end Run

/-- Every program is observed. -/
theorem runProgram_observed (fuel callLimit : Nat) (program : List (Statement Binding)) :
    (runProgram fuel callLimit program).Observed :=
  Run.observing_laws.program fuel 0 callLimit 0 (.inl rfl) program

end LoxInterpreter
