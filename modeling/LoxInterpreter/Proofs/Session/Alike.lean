import LoxInterpreter.Proofs.Execution.Tracing
import LoxInterpreter.Proofs.Scope.Alike
import LoxInterpreter.Session

/-!
Contract: sessions that cannot be told apart.

What a session reports depends on its machine apart from the trace, on what its resolver knows, and
on its bounds.

Owns: `Session.Alike`, `Session.reports`, and that alike sessions report the same forever.
-/

namespace LoxInterpreter

/-- The machine without what was told. -/
def Machine.untraced (machine : Machine) : Machine := machine.traced 0 []

theorem Machine.untraced_tell (machine : Machine) (event : TraceEvent) :
    (machine.tell event).untraced = machine.untraced := by
  have same := machine.tell_traced machine.traceLevel machine.trace.toList event
  rw [machine.traced_self] at same
  rw [same]
  rfl

theorem Machine.traced_untraced (machine : Machine) :
    machine.untraced.traced machine.traceLevel machine.trace.toList = machine :=
  machine.traced_self

namespace Session

/-- Whether two sessions differ at most in their traces, in what was decided and in their flags. -/
structure Alike (first second : Session) : Prop where
  machine : first.machine.untraced = second.machine.untraced
  resolver : first.resolver.Alike second.resolver
  fuel : first.fuel = second.fuel
  callLimit : first.callLimit = second.callLimit

/-- What is reported of sources that are run one after another. -/
def reports (session : Session) : List Source → List Report
  | [] => []
  | source :: later => (session.run source).1 :: (session.run source).2.reports later

theorem bounds_conclude (session : Session) (result : EStateM.Result Signal Machine Unit) :
    (session.conclude result).2.fuel = session.fuel ∧
      (session.conclude result).2.callLimit = session.callLimit := by
  cases result <;> exact ⟨rfl, rfl⟩

/-- Running a source takes nothing of the bounds from later ones. -/
theorem bounds_run (session : Session) (source : Source) :
    (session.run source).2.fuel = session.fuel ∧ (session.run source).2.callLimit = session.callLimit := by
  unfold Session.run
  dsimp only
  cases source.scan.error with
  | some error => exact ⟨rfl, rfl⟩
  | none =>
      dsimp only
      unfold runTokens
      dsimp only
      cases (Grammar.read source.scan.tokens).errors with
      | cons error others => exact ⟨rfl, rfl⟩
      | nil =>
          dsimp only
          unfold Session.runProgram
          split
          · exact ⟨rfl, rfl⟩
          · exact bounds_conclude _ _

variable {first second : Session}

/-- Whether two runs of a source report the same and leave alike sessions. -/
def SameEnd (first second : Report × Session) : Prop :=
  first.1 = second.1 ∧ first.2.Alike second.2

namespace Alike

theorem tell (alike : first.Alike second) (event : TraceEvent) :
    (first.tell event).Alike (second.tell event) := by
  refine ⟨?_, alike.resolver, alike.fuel, alike.callLimit⟩
  unfold Session.tell
  rw [Machine.untraced_tell, Machine.untraced_tell]
  exact alike.machine

theorem refuse (alike : first.Alike second) (failures : List Failure) :
    SameEnd (first.refuse failures) (second.refuse failures) :=
  ⟨rfl, alike.machine, alike.resolver, alike.fuel, alike.callLimit⟩

/-- Ends that differ in their traces alone conclude alike sessions alike. -/
theorem conclude (alike : first.Alike second) (result : EStateM.Result Signal Machine Unit)
    (level level' : Nat) (trace trace' : List TraceEvent) :
    SameEnd (first.conclude (Run.tracedEnd result level trace))
      (second.conclude (Run.tracedEnd result level' trace')) := by
  cases result with
  | ok _ after => exact ⟨rfl, rfl, alike.resolver, alike.fuel, alike.callLimit⟩
  | error signal after => exact ⟨rfl, rfl, alike.resolver.withGlobals _, alike.fuel, alike.callLimit⟩

theorem runProgram (alike : first.Alike second) (program : List (Statement Unit)) :
    SameEnd (first.runProgram program) (second.runProgram program) := by
  have ⟨sameResult, alikeResolvers⟩ := alike.resolver.resolve program
  unfold Session.runProgram
  revert sameResult alikeResolvers
  cases first.resolver.resolve program with
  | mk result resolver =>
      cases second.resolver.resolve program with
      | mk result' resolver' =>
          intro sameResult alikeResolvers
          cases sameResult
          cases result with
          | error mistake =>
              have left : Alike { first with resolver := resolver } { second with resolver := resolver' } :=
                ⟨alike.machine, alikeResolvers, alike.fuel, alike.callLimit⟩
              exact left.refuse _
          | ok resolved =>
              have begun : Alike ({ first with resolver := resolver }.tell (.resolved resolver.localCount))
                  ({ second with resolver := resolver' }.tell (.resolved resolver'.localCount)) := by
                refine ⟨?_, alikeResolvers, alike.fuel, alike.callLimit⟩
                unfold Session.tell
                rw [Machine.untraced_tell, Machine.untraced_tell]
                exact alike.machine
              dsimp only
              generalize { first with resolver := resolver }.tell (.resolved resolver.localCount) =
                started at begun
              generalize { second with resolver := resolver' }.tell (.resolved resolver'.localCount) =
                started' at begun
              have ⟨events, ending, ends⟩ :=
                runProgram_observed started.fuel started.callLimit resolved started.machine.untraced
              have endsFirst := ends started.machine.traceLevel started.machine.trace.toList
              have endsSecond := ends started'.machine.traceLevel started'.machine.trace.toList
              rw [Machine.traced_untraced] at endsFirst
              rw [begun.machine, Machine.traced_untraced] at endsSecond
              rw [endsFirst, ← begun.fuel, ← begun.callLimit, endsSecond]
              exact begun.conclude ending _ _ _ _

/-- Alike sessions run a source alike. -/
theorem run (alike : first.Alike second) (source : Source) :
    SameEnd (first.run source) (second.run source) := by
  unfold Session.run
  dsimp only
  cases source.scan.error with
  | some error => exact alike.refuse _
  | none =>
      dsimp only
      unfold runTokens
      dsimp only
      have scanned := alike.tell (.scanned source.scan.tokens.length)
      cases (Grammar.read source.scan.tokens).errors with
      | nil => exact (scanned.tell _).runProgram _
      | cons error others => exact scanned.refuse _

/-- Alike sessions cannot be told apart by what is run in them. -/
theorem reports_eq (alike : first.Alike second) (later : List Source) :
    first.reports later = second.reports later := by
  induction later generalizing first second with
  | nil => rfl
  | cons source later inductionHypothesis =>
      have ⟨sameReport, stillAlike⟩ := alike.run source
      rw [reports, reports, sameReport, inductionHypothesis stillAlike]

end Alike

end Session

end LoxInterpreter
