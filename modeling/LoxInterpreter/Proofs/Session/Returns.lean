import LoxInterpreter.Proofs.Execution.Calls
import LoxInterpreter.Proofs.Session.References
import LoxInterpreter.Proofs.Session.Rejection

/-!
Contract: no return leaves the functions of a session's programs.

A program that resolves has no return outside function bodies, so whatever was run before, each return
of its run goes to the innermost call that is active, and none to the program. A program with a return
outside all bodies is refused, and nothing of it is run.

Owns: `returns_caught`.
Does not own: how a return goes to its call (`Proofs.Execution.Calls`).
-/

namespace LoxInterpreter.Session

variable {session : Session} {source : Source} {program : List (Statement Unit)}
  {resolved : List (Statement Binding)} {resolver : Resolver}

/-- What resolves between two sources has no return outside function bodies. -/
theorem Reachable.returnsInside (reachable : session.Reachable) (reads : source.read = .ok program)
    (resolves : session.resolver.resolve program = (.ok resolved, resolver)) :
    Statement.listReturnsOutside resolved = false := by
  obtain ⟨_, erased, _⟩ :=
    Resolver.resolve_bound reachable.sound.outside (normal_of_read reads) resolves
  have inside := Resolver.resolve_returnsOutside reachable.settled.inFunction resolves
  rwa [← erased, Statement.listReturnsOutside_mapKnown] at inside

/-- A return that is handed on in a run of a program comes from the body of a call. -/
theorem entered_of_returns (inside : Statement.listReturnsOutside resolved = false) {moment : Moment}
    {value : Value} {after : Machine}
    (reached : Relation.ReflTransGen Moment.Turns (session.start source program resolver resolved) moment)
    (returns : moment.Returns value after) :
    ∃ call body, Relation.ReflTransGen Moment.Turns (session.start source program resolver resolved) call ∧
      call.Enters body ∧ body.Within moment := by
  refine (Moment.within_or_entered reached).resolve_left fun within' => ?_
  exact each_execute_contained session.fuel session.callLimit inside _ value _ (returns.of_within within')

/-- A program that resolves is never reported to have handed on a return. -/
theorem not_returned_of_resolved (inside : Statement.listReturnsOutside resolved = false)
    (reads : source.read = .ok program)
    (resolves : session.resolver.resolve program = (.ok resolved, resolver)) (value : Value) :
    Failure.stopped (.returned value) ∉ (session.run source).1.failures := by
  intro reported
  rw [run_of_resolved reads resolves] at reported
  cases ends : LoxInterpreter.runProgram session.fuel session.callLimit resolved
      (session.beginning source.scan.tokens program resolver) with
  | ok _ after =>
      rw [ends] at reported
      cases reported
  | error signal after =>
      rw [ends] at reported
      cases List.mem_singleton.mp reported
      exact runProgram_contained session.fuel session.callLimit inside _ value after ends

/-- A program with a return outside function bodies is refused, and leaves the machine as it was but for
its trace. -/
theorem refused_of_returnsOutside (settled : session.resolver.Settled)
    (reads : source.read = .ok program) (outside : Statement.listReturnsOutside program = true) :
    ∃ mistake, (session.run source).1 = ⟨"", [.scope mistake]⟩ ∧
      (session.run source).2.machine.untraced = session.machine.untraced := by
  cases resolves : session.resolver.resolve program with
  | mk result resolver =>
      cases result with
      | ok resolved =>
          have inside := Resolver.resolve_returnsOutside settled.inFunction resolves
          rw [outside] at inside
          cases inside
      | error mistake =>
          refine ⟨mistake, ?_, machine_after_rejection (rejects_of_unresolved reads resolves)⟩
          rw [run_of_unresolved reads resolves]
          rfl

/-- Returns are caught. In every session, whenever a statement of the run of a program that reads and
resolves hands on a return, it stands in a body that a call has entered, outside the bodies that are
entered from there, and that call has the returned value, on the machine of the return with its own
environment; the program itself hands on none. A program with a return outside all function bodies is
refused before anything of it runs. -/
theorem returns_caught (reachable : session.Reachable) :
    (∀ source program resolved resolver, source.read = .ok program →
      session.resolver.resolve program = (.ok resolved, resolver) →
      (∀ (moment : Moment) value after, moment.Returns value after → Relation.ReflTransGen Moment.Turns
          (session.start source program resolver resolved) moment →
        (∃ call body, Relation.ReflTransGen Moment.Turns
            (session.start source program resolver resolved) call ∧
          call.Enters body ∧ body.Within moment) ∧
        ∀ call body : Moment, call.Enters body → body.Within moment →
          call.Results value { after with environment := call.machine.environment }) ∧
      ∀ value, Failure.stopped (.returned value) ∉ (session.run source).1.failures) ∧
    ∀ source program, source.read = .ok program → Statement.listReturnsOutside program = true →
      ∃ mistake, (session.run source).1 = ⟨"", [.scope mistake]⟩ ∧
        (session.run source).2.machine.untraced = session.machine.untraced := by
  constructor
  · intro source program resolved resolver reads resolves
    have inside := reachable.returnsInside reads resolves
    refine ⟨fun moment value after returns reached => ?_, fun value => ?_⟩
    · refine ⟨entered_of_returns inside reached returns, fun call body enters within' => ?_⟩
      exact (returns.of_within within').of_enters enters
    · exact not_returned_of_resolved inside reads resolves value
  · intro source program reads outside
    exact refused_of_returnsOutside reachable.settled reads outside

/-- A return in a branch in a block in a loop is the result of the call, and a return that stands in a
loop alone is refused. -/
theorem returns_caught_in_loop :
    (initial 20 0 fun _ => 0).Reachable ∧
      ((initial 20 0 fun _ => 0).run
        (.text "fun f() { while (true) { if (true) return true; } } print f();")).1 = ⟨"true\n", []⟩ ∧
      (∀ value, Failure.stopped (.returned value) ∉ ((initial 20 0 fun _ => 0).run
        (.text "fun f() { while (true) { if (true) return true; } } print f();")).1.failures) ∧
      ∃ mistake, ((initial 20 0 fun _ => 0).run (.text "while (true) return;")).1 =
        ⟨"", [.scope mistake]⟩ := by
  have reachable := Reachable.initial 20 0 (fun _ => 0) usualCallLimit
  have reads : (Source.text "fun f() { while (true) { if (true) return true; } } print f();").read =
      .ok [.function ⟨"f", 1⟩ [] [.loop (.constant (.boolean true))
          (.block [.conditional (.constant (.boolean true))
            (.returning 1 (some (.constant (.boolean true)))) none])],
        .print (.call (.variable ⟨"f", 1⟩ ()) [] 1)] := by decide +kernel
  have resolves : (initial 20 0 fun _ => 0).resolver.resolve
      [.function ⟨"f", 1⟩ [] [.loop (.constant (.boolean true))
          (.block [.conditional (.constant (.boolean true))
            (.returning 1 (some (.constant (.boolean true)))) none])],
        .print (.call (.variable ⟨"f", 1⟩ ()) [] 1)] =
      (.ok [.function ⟨"f", 1⟩ [] [.loop (.constant (.boolean true))
          (.block [.conditional (.constant (.boolean true))
            (.returning 1 (some (.constant (.boolean true)))) none])],
        .print (.call (.variable ⟨"f", 1⟩ .global) [] 1)],
        ⟨[], .ofNames true ["clock", "f"], false, #[.global]⟩) := rfl
  have outside : (Source.text "while (true) return;").read =
      .ok [.loop (.constant (.boolean true)) (.returning 1 none)] := by decide +kernel
  obtain ⟨caught, refused⟩ := returns_caught reachable
  obtain ⟨mistake, reported, _⟩ := refused _ _ outside rfl
  exact ⟨reachable, by decide +kernel, (caught _ _ _ _ reads resolves).2, mistake, reported⟩

end LoxInterpreter.Session
