import LoxInterpreter.Proofs.Execution.Laws
import LoxInterpreter.Proofs.Session.Alike

/-!
Contract: the bounds of a run decide nothing but whether it is cut off.

A run that is not cut off does the same with more fuel, and if no calls were nested too deeply, also where
more of them may be nested. So what is reported within two choices of the bounds, and not cut off within
either, is the same. Which limit was chosen for calls only tells on programs that exceed it.

Owns: `Run.Approximates`, `Session.widened`, and `reports_eq_of_enough`.
Does not own: the induction on the fuel (`Proofs.Execution.Laws`).
-/

namespace LoxInterpreter

/-- Whether a run that ends so can go on if it gets more fuel, and may nest so many more calls. -/
def Signal.CutsOff (extra : Nat) : Signal → Prop
  | .outOfFuel => True
  | .stackOverflow => 0 < extra
  | _ => False

namespace Run

variable {α β : Type} {extra : Nat}

/-- Whether an action does what another one does, unless it is cut off. -/
def Approximates (extra : Nat) (action action' : Run α) : Prop :=
  ∀ machine, (∃ signal after, signal.CutsOff extra ∧ action machine = .error signal after) ∨
    action machine = action' machine

theorem Approximates.refl (action : Run α) : action.Approximates extra action := fun _ => .inr rfl

theorem approximates_throw (signal : Signal) (cutsOff : signal.CutsOff extra) (action : Run α) :
    (throw signal : Run α).Approximates extra action := fun machine => .inl ⟨signal, machine, cutsOff, rfl⟩

theorem Approximates.bind {first first' : Run α} {next next' : α → Run β}
    (approximates : first.Approximates extra first')
    (rest : ∀ value, (next value).Approximates extra (next' value)) :
    (first >>= next).Approximates extra (first' >>= next') := by
  intro machine
  rw [bind_apply, bind_apply]
  rcases approximates machine with ⟨signal, after, cutsOff, ends⟩ | same
  · rw [ends]
    exact .inl ⟨signal, after, cutsOff, rfl⟩
  · rw [← same]
    cases first machine with
    | ok value between => exact rest value between
    | error signal after => exact .inr rfl

theorem Approximates.withEnvironment {action action' : Run α}
    (approximates : action.Approximates extra action') (environment : Environment) :
    (withEnvironment environment action).Approximates extra (withEnvironment environment action') := by
  intro machine
  unfold Run.withEnvironment
  dsimp only
  rcases approximates { machine with environment := environment } with ⟨signal, after, cutsOff, ends⟩ | same
  · rw [ends]
    exact .inl ⟨signal, _, cutsOff, rfl⟩
  · rw [same]
    exact .inr rfl

/-- A body that is cut off returns nothing, so its call is cut off too. -/
theorem Approximates.catchReturn {body body' : Run Unit} (approximates : body.Approximates extra body') :
    (catchReturn body).Approximates extra (catchReturn body') := by
  intro machine
  unfold Run.catchReturn
  rcases approximates machine with ⟨signal, after, cutsOff, ends⟩ | same
  · rw [ends]
    cases signal with
    | returned value => exact cutsOff.elim
    | _ => exact .inl ⟨_, after, cutsOff, rfl⟩
  · rw [same]
    exact .inr rfl

/-- Doing the same unless it is cut off is inherited. -/
theorem approximating_laws (extra : Nat) : StatementLaws (Approximates extra) where
  pure _ := .refl _
  bind approximates rest := approximates.bind rest
  outOfFuel _ := approximates_throw .outOfFuel trivial _
  stop _ := .refl _
  tell _ := .refl _
  inspect _ rest machine := rest machine machine
  change _ := .refl _
  returned _ := .refl _
  withEnvironment environment approximates := approximates.withEnvironment environment
  catchReturn approximates := approximates.catchReturn

/-- A program does within wider bounds what it does, unless it is cut off. -/
theorem program_approximates (fuel more callLimit extra : Nat) (program : List (Statement Binding)) :
    (runProgram fuel callLimit program).Approximates extra
      (runProgram (fuel + more) (callLimit + extra) program) := by
  apply (approximating_laws extra).program fuel more callLimit extra
  rcases Nat.eq_zero_or_pos extra with none | some
  · exact .inl none
  · exact .inr (approximates_throw .stackOverflow some)

end Run

/-- Whether a source was cut off, and could go on with more fuel and so many more calls. -/
def Report.CutOff (report : Report) (extra : Nat) : Prop :=
  ∃ signal, signal.CutsOff extra ∧ .stopped signal ∈ report.failures

namespace Session

/-- The session with more fuel, and with more calls that may be nested. -/
def widened (session : Session) (more extra : Nat) : Session :=
  { session with fuel := session.fuel + more, callLimit := session.callLimit + extra }

/-- Whether a run that was not cut off ends, but for its bounds, as another one. -/
def SameButBounds (more extra : Nat) (ended other : Report × Session) : Prop :=
  ended.1.CutOff extra ∨ other = (ended.1, ended.2.widened more extra)

variable {session : Session} {more extra : Nat}

theorem conclude_widened (session : Session) (result : EStateM.Result Signal Machine Unit) :
    (session.widened more extra).conclude result =
      ((session.conclude result).1, (session.conclude result).2.widened more extra) := by
  cases result <;> rfl

theorem runProgram_widened (session : Session) (more : Nat) (program : List (Statement Unit)) :
    SameButBounds more extra (session.runProgram program)
      ((session.widened more extra).runProgram program) := by
  unfold Session.runProgram
  have sameResolver : (session.widened more extra).resolver = session.resolver := rfl
  rw [sameResolver]
  cases session.resolver.resolve program with
  | mk result resolver =>
      cases result with
      | error mistake => exact .inr rfl
      | ok resolved =>
          dsimp only
          have begins : ({ session.widened more extra with resolver } : Session).tell
              (.resolved resolver.localCount) =
                (({ session with resolver } : Session).tell (.resolved resolver.localCount)).widened
                  more extra := rfl
          rw [begins]
          generalize ({ session with resolver } : Session).tell (.resolved resolver.localCount) = started
          have sameMachine : (started.widened more extra).machine = started.machine := rfl
          have moreFuel : (started.widened more extra).fuel = started.fuel + more := rfl
          have moreCalls : (started.widened more extra).callLimit = started.callLimit + extra := rfl
          rw [conclude_widened, sameMachine, moreFuel, moreCalls]
          rcases Run.program_approximates started.fuel more started.callLimit extra resolved started.machine
            with ⟨signal, after, cutsOff, ends⟩ | same
          · left
            rw [ends]
            exact ⟨signal, cutsOff, List.mem_singleton_self _⟩
          · right
            rw [same]

/-- Within wider bounds a source that was not cut off is run alike. -/
theorem run_widened (session : Session) (more : Nat) (source : Source) :
    SameButBounds more extra (session.run source) ((session.widened more extra).run source) := by
  unfold Session.run
  dsimp only
  cases source.scan.error with
  | some error => exact .inr rfl
  | none =>
      dsimp only
      unfold runTokens
      dsimp only
      cases (Grammar.read source.scan.tokens).errors with
      | cons error others => exact .inr rfl
      | nil => exact runProgram_widened _ more _

/-- Within wider bounds, sources of which none was cut off are reported alike. -/
theorem reports_widened (more : Nat) {sources : List Source}
    (uncut : ∀ report ∈ session.reports sources, ¬ report.CutOff extra) :
    (session.widened more extra).reports sources = session.reports sources := by
  induction sources generalizing session with
  | nil => rfl
  | cons source later inductionHypothesis =>
      rw [reports, List.forall_mem_cons] at uncut
      have same := (run_widened session more source).resolve_left uncut.1
      rw [reports, reports, same, inductionHypothesis uncut.2]

/-- Two choices of the bounds within which no source is cut off give the same reports. Where the limits on
nested calls differ, the smaller one must not have been exceeded. -/
theorem reports_eq_of_enough (traceLevel : Nat) (clock : Nat → Float) (sources : List Source)
    {fuel fuel' callLimit callLimit' : Nat}
    (uncut : ∀ report ∈ (initial fuel traceLevel clock callLimit).reports sources,
      ¬ report.CutOff (callLimit' - callLimit))
    (uncut' : ∀ report ∈ (initial fuel' traceLevel clock callLimit').reports sources,
      ¬ report.CutOff (callLimit - callLimit')) :
    (initial fuel traceLevel clock callLimit).reports sources =
      (initial fuel' traceLevel clock callLimit').reports sources := by
  -- both are reported as within bounds that are as wide as either
  have wide := reports_widened (fuel' - fuel) uncut
  have wide' := reports_widened (fuel - fuel') uncut'
  have sameFuel : fuel + (fuel' - fuel) = fuel' + (fuel - fuel') := by omega
  have sameLimit : callLimit + (callLimit' - callLimit) = callLimit' + (callLimit - callLimit') := by omega
  rw [← wide, ← wide']
  unfold widened initial
  dsimp only
  rw [sameFuel, sameLimit]

end Session

end LoxInterpreter
