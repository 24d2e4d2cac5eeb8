import LoxInterpreter.Proofs.Scope.History
import LoxInterpreter.Proofs.Session.Alike
import LoxInterpreter.Proofs.Session.Reachable

/-!
Contract: what stays of a source that is refused.

A source that cannot be scanned or read leaves nothing behind. One that cannot be resolved leaves the
globals known whose declarations were finished before the mistake, though none of them is defined. That
is unobservable exactly when all of them were known before.

Owns: `Session.Rejects`, `Session.finishedNames`, and `rejection_unobservable_iff`.
-/

namespace LoxInterpreter

/-- Whether a failure is found before anything runs. -/
def Failure.isStatic : Failure → Bool
  | .lexical _ | .grammar _ | .scope _ => true
  | .stopped _ => false

namespace Session

/-- Whether a source is refused before any of it runs. -/
def Rejects (session : Session) (source : Source) : Prop :=
  ∃ failure ∈ (session.run source).1.failures, failure.isStatic = true

/-- The globals whose declarations in a source are finished when the walk through it ends. -/
def finishedNames (session : Session) (source : Source) : List String :=
  match source.read with
  | .ok program => session.resolver.finishedNames program
  | .error _ => []

/-! ## Between two sources -/

theorem settled_run {session : Session} (settled : session.resolver.Settled) (source : Source) :
    (session.run source).2.resolver.Settled := by
  cases reads : source.read with
  | error failure =>
      have ⟨failures, same⟩ := @run_of_unread session _ _ reads
      rcases same with same | same
      · rw [same]
        exact settled
      · rw [same]
        exact settled
  | ok program =>
      have settledBehind := settled.resolve program
      cases resolves : session.resolver.resolve program with
      | mk result resolver =>
          rw [resolves] at settledBehind
          cases result with
          | error mistake =>
              rw [run_of_unresolved reads resolves]
              exact settledBehind
          | ok resolved =>
              rw [run_of_resolved reads resolves]
              cases LoxInterpreter.runProgram session.fuel session.callLimit resolved
                  (session.beginning source.scan.tokens program resolver) with
              | ok _ after => exact settledBehind
              | error signal after =>
                  exact Resolver.settled_withGlobals settledBehind.outside settledBehind.inFunction _

/-- Between two sources the resolver is settled. -/
theorem Reachable.settled {session : Session} (reachable : session.Reachable) :
    session.resolver.Settled := by
  induction reachable with
  | initial fuel traceLevel clock callLimit => exact Resolver.settled_ofKnown _
  | run _ source inductionHypothesis => exact settled_run inductionHypothesis source
  | resetErrors _ inductionHypothesis => exact inductionHypothesis

/-! ## Refusal -/

variable {session : Session} {source : Source} {program : List (Statement Unit)}

/-- What resolves is not refused. -/
theorem not_rejects_of_resolved {resolved : List (Statement Binding)} {resolver : Resolver}
    (reads : source.read = .ok program)
    (resolves : session.resolver.resolve program = (.ok resolved, resolver)) :
    ¬ session.Rejects source := by
  intro ⟨failure, reported, isStatic⟩
  rw [run_of_resolved reads resolves] at reported
  cases ends : LoxInterpreter.runProgram session.fuel session.callLimit resolved
      (session.beginning source.scan.tokens program resolver) with
  | ok _ after =>
      rw [ends] at reported
      cases reported
  | error signal after =>
      rw [ends] at reported
      rw [List.mem_singleton.mp reported] at isStatic
      cases isStatic

/-- What does not resolve is refused. -/
theorem rejects_of_unresolved {mistake : ScopeError} {resolver : Resolver}
    (reads : source.read = .ok program)
    (resolves : session.resolver.resolve program = (.error mistake, resolver)) :
    session.Rejects source := by
  unfold Rejects
  rw [run_of_unresolved reads resolves]
  exact ⟨.scope mistake, List.mem_singleton.mpr rfl, rfl⟩

/-- What is reported of a source that does not read is found before anything runs. -/
theorem failures_of_unread {failure : Failure} (reads : source.read = .error failure) :
    (session.run source).1.failures ≠ [] ∧
      ∀ failure ∈ (session.run source).1.failures, failure.isStatic = true := by
  unfold Source.read at reads
  unfold run
  dsimp only at reads ⊢
  cases scans : source.scan.error with
  | some error => simp [refuse, Failure.isStatic]
  | none =>
      rw [scans] at reads
      dsimp only at reads ⊢
      unfold runTokens
      dsimp only
      cases parses : (Grammar.read source.scan.tokens).errors with
      | nil => simp [parses] at reads
      | cons error others =>
          refine ⟨by simp [refuse], fun failure reported => ?_⟩
          obtain ⟨error, _, rfl⟩ := List.mem_map.mp reported
          rfl

theorem rejects_of_unread {failure : Failure} (reads : source.read = .error failure) :
    session.Rejects source := by
  have ⟨nonempty, allStatic⟩ := @failures_of_unread session source _ reads
  have ⟨reported, member⟩ := List.exists_mem_of_ne_nil _ nonempty
  exact ⟨reported, member, allStatic reported member⟩

/-- A source is refused, or it reads and resolves. -/
theorem rejects_or_resolves (session : Session) (source : Source) :
    session.Rejects source ∨ ∃ program resolved resolver, source.read = .ok program ∧
      session.resolver.resolve program = (.ok resolved, resolver) := by
  cases reads : source.read with
  | error failure => exact .inl (rejects_of_unread reads)
  | ok program =>
      cases resolves : session.resolver.resolve program with
      | mk result resolver =>
          cases result with
          | error mistake => exact .inl (rejects_of_unresolved reads resolves)
          | ok resolved => exact .inr ⟨program, resolved, resolver, rfl, resolves⟩

/-- All that is reported of a refused source is found before anything runs. -/
theorem isStatic_of_rejects (rejects : session.Rejects source) {failure : Failure}
    (reported : failure ∈ (session.run source).1.failures) : failure.isStatic = true := by
  cases reads : source.read with
  | error mistake => exact (failures_of_unread reads).2 failure reported
  | ok program =>
      cases resolves : session.resolver.resolve program with
      | mk result resolver =>
          cases result with
          | error mistake =>
              rw [run_of_unresolved reads resolves] at reported
              rw [List.mem_singleton.mp reported]
              rfl
          | ok resolved => exact absurd rejects (not_rejects_of_resolved reads resolves)

/-- A refused source that was read is one that does not resolve. -/
theorem unresolved_of_rejects (rejects : session.Rejects source) (reads : source.read = .ok program) :
    ∃ mistake resolver, session.resolver.resolve program = (.error mistake, resolver) := by
  cases resolves : session.resolver.resolve program with
  | mk result resolver =>
      cases result with
      | error mistake => exact ⟨mistake, resolver, rfl⟩
      | ok resolved => exact absurd rejects (not_rejects_of_resolved reads resolves)

/-- A refused source leaves the machine as it was, apart from the trace. -/
theorem machine_after_rejection (rejects : session.Rejects source) :
    (session.run source).2.machine.untraced = session.machine.untraced := by
  cases reads : source.read with
  | error failure =>
      have ⟨failures, same⟩ := @run_of_unread session _ _ reads
      rcases same with same | same
      · rw [same]
        rfl
      · rw [same]
        exact Machine.untraced_tell _ _
  | ok program =>
      have ⟨mistake, resolver, resolves⟩ := unresolved_of_rejects rejects reads
      rw [run_of_unresolved reads resolves]
      exact (Machine.untraced_tell _ _).trans (Machine.untraced_tell _ _)

/-- After a refusal the resolver knows what it knew, and what the refused source finished. -/
theorem knows_after_rejection_iff (settled : session.resolver.Settled) (rejects : session.Rejects source)
    (name : String) : (session.run source).2.resolver.Knows name ↔
      session.resolver.Knows name ∨ name ∈ session.finishedNames source := by
  unfold finishedNames
  cases reads : source.read with
  | error failure =>
      have ⟨failures, same⟩ := @run_of_unread session _ _ reads
      have sameResolver : (session.run source).2.resolver = session.resolver := by
        rcases same with same | same
        · rw [same]
          rfl
        · rw [same]
          rfl
      rw [sameResolver]
      simp
  | ok program =>
      have ⟨mistake, resolver, resolves⟩ := unresolved_of_rejects rejects reads
      rw [run_of_unresolved reads resolves]
      exact Resolver.knows_after_refusal_iff (normal_of_read reads) settled.outside resolves name

/-- What a source finishes before it is refused is a name in it. -/
theorem isName_of_finished {name : String} (finished : name ∈ session.finishedNames source) :
    Token.IsName name.toList := by
  unfold finishedNames at finished
  cases reads : source.read with
  | error failure =>
      rw [reads] at finished
      cases finished
  | ok program =>
      rw [reads] at finished
      have ⟨statement, member, declares⟩ := Resolver.declared_of_finished finished
      have ⟨token, among, isIdentifier, isName⟩ :=
        Grammar.mentions_read (read_eq_ok_iff.mp reads).2 member declares
      rw [← isName]
      exact source.isName_of_scan among isIdentifier

/-- Declaring a name by itself is refused between two sources just where the name is not known. -/
theorem rejects_declaringByItself_iff (settled : session.resolver.Settled) {name : String}
    (isName : Token.IsName name.toList) :
    session.Rejects (.declaringByItself name) ↔ ¬ session.resolver.Knows name := by
  have reads := Source.read_declaringByItself isName
  have resolves := Resolver.resolves_declaringByItself_iff settled.outside ⟨name, 1⟩
  constructor
  · intro rejects known
    have ⟨_, _, found⟩ := resolves.mpr known
    exact not_rejects_of_resolved reads found rejects
  · intro unknown
    cases resolving : session.resolver.resolve
        [.declaration ⟨name, 1⟩ (some (.variable ⟨name, 1⟩ ()))] with
    | mk result resolver =>
        cases result with
        | error mistake => exact rejects_of_unresolved reads resolving
        | ok resolved => exact absurd (resolves.mp ⟨resolved, resolver, resolving⟩) unknown

/-- Sessions that report the same refuse the same sources. -/
theorem rejects_iff_of_reports_eq {other : Session}
    (same : session.reports [source] = other.reports [source]) :
    session.Rejects source ↔ other.Rejects source := by
  have sameReport : (session.run source).1 = (other.run source).1 := (List.cons.inj same).1
  unfold Rejects
  rw [sameReport]

/-- After a refusal everything that is run reports what it would have reported without the refused
source, exactly when the refused source finished no declaration of a global that was not known. -/
theorem rejection_unobservable_iff (reachable : session.Reachable) (rejects : session.Rejects source) :
    (∀ later : List Source, (session.run source).2.reports later = session.reports later) ↔
      ∀ name ∈ session.finishedNames source, session.resolver.Knows name := by
  have settled := reachable.settled
  have settledBehind := settled_run settled source
  have knowsBehind := knows_after_rejection_iff settled rejects
  constructor
  · -- A finished name that was not known is told by declaring it by itself.
    intro unobservable name finished
    by_contra unknown
    have isName := isName_of_finished finished
    have same := rejects_iff_of_reports_eq (unobservable [.declaringByItself name])
    have refuses := same.mpr ((rejects_declaringByItself_iff settled isName).mpr unknown)
    have unknownBehind := (rejects_declaringByItself_iff settledBehind isName).mp refuses
    exact unknownBehind ((knowsBehind name).mpr (.inr finished))
  · intro known later
    have sameMachine := machine_after_rejection rejects
    have ⟨sameFuel, sameLimit⟩ := session.bounds_run source
    have sameKnown : ∀ name, (session.run source).2.resolver.Knows name ↔ session.resolver.Knows name := by
      intro name
      rw [knowsBehind]
      constructor
      · intro either
        rcases either with before | finished
        · exact before
        · exact known name finished
      · exact .inl
    have alike : (session.run source).2.Alike session :=
      ⟨sameMachine, settledBehind.alike settled sameKnown, sameFuel, sameLimit⟩
    exact alike.reports_eq later

/-- A native function is known from the start, so declaring it again leaves nothing to observe. -/
theorem rejection_unobservable_of_native :
    (initial 9 0 fun _ => 0).Rejects (.text "var clock; return;") ∧
      ∀ later, ((initial 9 0 fun _ => 0).run (.text "var clock; return;")).2.reports later =
        (initial 9 0 fun _ => 0).reports later := by
  have reads : (Source.text "var clock; return;").read = .ok
      [.declaration ⟨"clock", 1⟩ none, .returning 1 none] := by decide +kernel
  have resolves : (initial 9 0 fun _ => 0).resolver.resolve
      [.declaration ⟨"clock", 1⟩ none, .returning 1 none] =
      (.error ⟨.returnOutsideFunction, .ofSymbol (.keyword .returnWord) 1⟩,
        ⟨[], .ofNames true ["clock"], false, #[]⟩) := rfl
  have finishes : (initial 9 0 fun _ => 0).finishedNames (.text "var clock; return;") = ["clock"] := by
    decide +kernel
  have rejects := rejects_of_unresolved reads resolves
  refine ⟨rejects, (rejection_unobservable_iff (.initial 9 0 _ _) rejects).mpr ?_⟩
  rw [finishes]
  decide

/-- A new global stays known though nothing of its source ran: declaring it by itself is no longer
refused. -/
theorem rejection_observable :
    (initial 9 0 fun _ => 0).Reachable ∧ (initial 9 0 fun _ => 0).Rejects (.text "var a; return;") ∧
      ((initial 9 0 fun _ => 0).run (.text "var a; return;")).2.reports [.text "var a = a;"] ≠
        (initial 9 0 fun _ => 0).reports [.text "var a = a;"] := by
  have reads : (Source.text "var a; return;").read = .ok
      [.declaration ⟨"a", 1⟩ none, .returning 1 none] := by decide +kernel
  have resolves : (initial 9 0 fun _ => 0).resolver.resolve
      [.declaration ⟨"a", 1⟩ none, .returning 1 none] =
      (.error ⟨.returnOutsideFunction, .ofSymbol (.keyword .returnWord) 1⟩,
        ⟨[], .ofNames true ["clock", "a"], false, #[]⟩) := rfl
  have rejects := rejects_of_unresolved reads resolves
  have reachable := Reachable.initial 9 0 (fun _ => 0) usualCallLimit
  have isName : Token.IsName "a".toList := by decide
  have byItself : Source.text "var a = a;" = .declaringByItself "a" := congrArg Source.text (by decide)
  refine ⟨reachable, rejects, ?_⟩
  rw [byItself]
  intro same
  have refused := (rejects_declaringByItself_iff reachable.settled isName).mpr (by decide)
  have refusedBehind := (rejects_iff_of_reports_eq same).mpr refused
  have unknown := (rejects_declaringByItself_iff (reachable.run _).settled isName).mp refusedBehind
  rw [run_of_unresolved reads resolves] at unknown
  exact unknown (by decide)

end Session

end LoxInterpreter
