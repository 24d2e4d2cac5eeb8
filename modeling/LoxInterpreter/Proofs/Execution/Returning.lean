import LoxInterpreter.Proofs.Execution.Laws
import LoxInterpreter.Proofs.Scope.Returning

/-!
Contract: where a return can end a run.

A call ends what its body returns, and expressions have no statements in them but those of called
bodies, so only a statement that has a return outside function bodies can hand one on.

Owns: `Run.Contained`, and `execute_contained`.
Does not own: which statements have such a return (`Proofs.Scope.Returning`).
-/

namespace LoxInterpreter

namespace Run

variable {α β : Type}

/-- Whether an action never hands on a return. -/
def Contained (action : Run α) : Prop :=
  ∀ machine value after, action machine ≠ .error (.returned value) after

theorem contained_pure (value : α) : (pure value : Run α).Contained := by
  intro machine returned after ends
  cases ends

theorem contained_throw {signal : Signal} (other : ∀ value, signal ≠ .returned value) :
    (throw signal : Run α).Contained := by
  intro machine returned after ends
  cases ends
  exact other returned rfl

theorem contained_modifyGet (change : Machine → α × Machine) : (modifyGet change : Run α).Contained := by
  intro machine returned after ends
  cases ends

theorem contained_modify (change : Machine → Machine) : (modify change : Run Unit).Contained :=
  contained_modifyGet _

theorem contained_get : (get : Run Machine).Contained := by
  intro machine returned after ends
  cases ends

theorem Contained.bind {first : Run α} {next : α → Run β} (contained : first.Contained)
    (rest : ∀ value, (next value).Contained) : (first >>= next).Contained := by
  intro machine returned after ends
  rw [bind_apply] at ends
  cases ending : first machine with
  | ok value between =>
      rw [ending] at ends
      exact rest value between returned after ends
  | error signal between =>
      rw [ending] at ends
      cases ends
      exact contained machine returned _ ending

theorem Contained.withEnvironment {action : Run α} (contained : action.Contained)
    (environment : Environment) : (withEnvironment environment action).Contained := by
  intro machine returned after ends
  unfold Run.withEnvironment at ends
  cases ending : action { machine with environment := environment } with
  | ok value between => simp [ending] at ends
  | error signal between =>
      simp only [ending, EStateM.Result.error.injEq] at ends
      rw [ends.1] at ending
      exact contained _ returned _ ending

/-- A call ends what its body returns. -/
theorem contained_catchReturn (body : Run Unit) : (catchReturn body).Contained := by
  intro machine returned after ends
  unfold catchReturn at ends
  cases ending : body machine with
  | ok value between => simp [ending] at ends
  | error signal between => cases signal <;> simp [ending] at ends

/-- Handing on no return is inherited by expressions. -/
theorem containing_laws : ExpressionLaws fun action _ => action.Contained where
  pure := contained_pure
  bind contained rest := contained.bind rest
  outOfFuel _ := contained_throw (by simp)
  stop := contained_throw
  tell _ := contained_modify _
  inspect _ rest := contained_get.bind rest
  change _ := contained_modifyGet _

theorem contained_collect {action : α → Run β} (contained : ∀ item, (action item).Contained)
    (items : List α) : (collect action items).Contained :=
  containing_laws.collect action action contained items

theorem contained_callClosure (function : Closure) (arguments : List Value) (body : Run Unit) :
    (callClosure function arguments body).Contained := by
  apply Contained.bind (containing_laws.extend _)
  intro environment
  apply Contained.bind (containing_laws.defineParameters environment _ arguments)
  intro _
  exact contained_catchReturn _

end Run

open Run

/-- Expressions hand on no return. -/
theorem evaluate_contained (fuel calls : Nat) (expression : Expression Binding) :
    (evaluate fuel calls expression).Contained := by
  induction fuel generalizing calls expression with
  | zero => exact contained_throw (by simp)
  | succ fuel inductionHypothesis =>
      apply containing_laws.evaluate_succ fuel fuel 0 (.inl rfl) inductionHypothesis
      -- Whatever bodies do, calls hand on no return.
      intro calls function arguments
      exact contained_callClosure function arguments _

theorem Run.each_contained {α : Type} {action : α → Run Unit} {items : List α}
    (contained : ∀ item ∈ items, (action item).Contained) : (each action items).Contained := by
  induction items with
  | nil => exact contained_pure ()
  | cons first rest inductionHypothesis =>
      apply (contained first List.mem_cons_self).bind
      intro _
      apply inductionHypothesis
      intro item member
      exact contained item (List.mem_cons_of_mem first member)

/-- A statement without a return outside function bodies hands on no return. -/
theorem execute_contained (fuel calls : Nat) {statement : Statement Binding}
    (none : statement.returnsOutside = false) : (execute fuel calls statement).Contained := by
  induction fuel generalizing calls statement with
  | zero => exact contained_throw (by simp)
  | succ fuel inductionHypothesis =>
      have evaluates := evaluate_contained fuel calls
      cases statement with
      | expression value => exact (evaluates value).bind fun _ => contained_pure ()
      | print value => exact (evaluates value).bind fun _ => contained_modify _
      | declaration name initializer =>
          cases initializer with
          | none => exact containing_laws.declare _ _ _
          | some initializer => exact (evaluates initializer).bind fun _ => containing_laws.declare _ _ _
      | function name parameters body => exact containing_laws.defineFunction name parameters body
      | block items =>
          apply contained_get.bind
          intro machine
          apply (contained_modifyGet _).bind
          intro environment
          apply Contained.withEnvironment
          apply Run.each_contained
          intro item member
          exact inductionHypothesis calls (Statement.returnsOutside_of_mem none item member)
      | conditional condition thenBranch elseBranch =>
          rw [execute_conditional]
          apply (evaluates condition).bind
          intro value
          apply (contained_modify _).bind
          intro _
          cases elseBranch with
          | none =>
              split
              · exact inductionHypothesis calls none
              · exact contained_pure ()
          | some elseBranch =>
              rw [Statement.returnsOutside, Bool.or_eq_false_iff] at none
              split
              · exact inductionHypothesis calls none.1
              · exact inductionHypothesis calls none.2
      | loop condition body =>
          apply (evaluates condition).bind
          intro value
          split
          · have runsBody : (execute fuel calls body).Contained := inductionHypothesis calls none
            exact runsBody.bind fun _ => inductionHypothesis calls none
          · exact contained_pure ()
      | returning line value => cases none

/-- Statements without a return outside function bodies hand on no return. -/
theorem each_execute_contained (fuel calls : Nat) {statements : List (Statement Binding)}
    (none : Statement.listReturnsOutside statements = false) :
    (each (execute fuel calls) statements).Contained :=
  Run.each_contained fun statement member =>
    execute_contained fuel calls (Statement.returnsOutside_of_mem none statement member)

/-- No program without a return outside function bodies ends by one. -/
theorem runProgram_contained (fuel callLimit : Nat) {resolved : List (Statement Binding)}
    (none : Statement.listReturnsOutside resolved = false) :
    (runProgram fuel callLimit resolved).Contained := by
  apply (contained_modify _).bind
  intro _
  apply (each_execute_contained fuel callLimit none).bind
  intro _
  exact contained_modify _

end LoxInterpreter
