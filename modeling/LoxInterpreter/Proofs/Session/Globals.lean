import LoxInterpreter.Proofs.Execution.Globals
import LoxInterpreter.Proofs.Session.Rejection

/-!
Contract: what a session's resolver knows of the globals that the machine has.

Resolving a program makes known what the program declares, and running it defines no more than that.
A refused source forgets nothing that was known, and a run that ends early makes known exactly what the
machine has. So no global that is defined is ever unknown.

Owns: `Session.KnowsGlobals`, and `globals_known`.
Does not own: what a refused source leaves known besides (`Proofs.Session.Rejection`).
-/

namespace LoxInterpreter

namespace Session

/-- Whether every global that the machine has is known to the resolver. -/
def KnowsGlobals (session : Session) : Prop :=
  ∀ name, session.machine.globals.contains name = true → session.resolver.Knows name

variable {session : Session} {source : Source}

/-- A refused source leaves the globals of the machine as they were. -/
theorem globals_after_rejection (rejects : session.Rejects source) :
    (session.run source).2.machine.globals = session.machine.globals := by
  have sameStore := congrArg Machine.store (machine_after_rejection rejects)
  unfold Machine.globals
  exact congrArg (Store.frame · Machine.globalFrame) sameStore

/-- The run of a program to its end leaves known every global that there is then. -/
theorem KnowsGlobals.of_ended (knows : session.KnowsGlobals) (sound : session.Sound)
    {program : List (Statement Unit)} {resolved : List (Statement Binding)} {resolver : Resolver}
    {after : Machine} (reads : source.read = .ok program)
    (resolves : session.resolver.resolve program = (.ok resolved, resolver))
    (ends : LoxInterpreter.runProgram session.fuel session.callLimit resolved
      (session.beginning source.scan.tokens program resolver) = .ok () after)
    {name : String} (present : after.globals.contains name = true) : resolver.Knows name := by
  have normal := normal_of_read reads
  obtain ⟨bound, erased, _⟩ := Resolver.resolve_bound sound.outside normal resolves
  rw [Resolver.knows_after_success_iff normal sound.outside resolves name]
  obtain ⟨_, started, starts, rest⟩ := Run.bind_eq_ok_iff.mp ends
  obtain ⟨_, final, runs, finishes⟩ := Run.bind_eq_ok_iff.mp rest
  cases starts
  cases finishes
  change ((final.tell .finished).globals).contains name = true at present
  rw [Machine.globals_tell] at present
  have soundThere : ((session.beginning source.scan.tokens program resolver).tell
      (.started resolved.length)).store.Sound := by
    rw [Machine.store_tell, store_beginning]
    exact sound.store
  have models : ((session.beginning source.scan.tokens program resolver).tell
      (.started resolved.length)).store.Models ((session.beginning source.scan.tokens program
        resolver).tell (.started resolved.length)).environment [] := by
    rw [Machine.environment_tell, environment_beginning, sound.atGlobals]
    exact .globals
  have either := globals_of_each soundThere models bound runs present
  rw [← erased, Statement.declaredNames_listMapKnown]
  refine either.imp_left fun before => knows name ?_
  rw [Machine.globals_tell] at before
  unfold Machine.globals at before ⊢
  rwa [store_beginning] at before

/-- Running a source leaves known every global that there is then. -/
theorem KnowsGlobals.run (knows : session.KnowsGlobals) (sound : session.Sound)
    (settled : session.resolver.Settled) (source : Source) : (session.run source).2.KnowsGlobals := by
  intro name present
  rcases rejects_or_resolves session source with rejects | ⟨program, resolved, resolver, reads, resolves⟩
  · rw [globals_after_rejection rejects] at present
    exact (knows_after_rejection_iff settled rejects name).mpr (.inl (knows name present))
  · rw [run_of_resolved reads resolves] at present ⊢
    cases ends : LoxInterpreter.runProgram session.fuel session.callLimit resolved
        (session.beginning source.scan.tokens program resolver) with
    | ok _ after =>
        rw [ends] at present
        exact knows.of_ended sound reads resolves ends present
    | error signal after =>
        rw [ends] at present
        exact (Resolver.knows_withGlobals_iff _ _ name).mpr (Table.mem_names_iff.mpr present)

theorem knowsGlobals_initial (fuel traceLevel : Nat) (clock : Nat → Float) (callLimit : Nat) :
    (initial fuel traceLevel clock callLimit).KnowsGlobals := by
  intro name present
  exact (Resolver.knows_ofKnown_iff _ name).mpr (Table.mem_names_iff.mpr present)

/-- Between two sources every global that there is is known. -/
theorem Reachable.knowsGlobals {session : Session} (reachable : session.Reachable) :
    session.KnowsGlobals := by
  induction reachable with
  | initial fuel traceLevel clock callLimit => exact knowsGlobals_initial fuel traceLevel clock callLimit
  | run reachable source inductionHypothesis =>
      exact inductionHypothesis.run reachable.sound reachable.settled source
  | resetErrors _ inductionHypothesis => exact inductionHypothesis

/-- After a run that ended early the resolver knows the globals that there are, and no others. -/
theorem known_after_stop {signal : Signal}
    (reported : Failure.stopped signal ∈ (session.run source).1.failures) (name : String) :
    (session.run source).2.resolver.Knows name ↔
      (session.run source).2.machine.globals.contains name = true := by
  rcases rejects_or_resolves session source with rejects | ⟨program, resolved, resolver, reads, resolves⟩
  · cases isStatic_of_rejects rejects reported
  · rw [run_of_resolved reads resolves] at reported ⊢
    cases ends : LoxInterpreter.runProgram session.fuel session.callLimit resolved
        (session.beginning source.scan.tokens program resolver) with
    | ok _ after =>
        rw [ends] at reported
        cases reported
    | error stopped after =>
        rw [← Table.mem_names_iff]
        exact Resolver.knows_withGlobals_iff _ _ name

/-- No global that is defined is forgotten. Between any two sources every global that the resolver has
is ready, and the resolver has every global that the machine has; after a run that ended early both have
the same. -/
theorem globals_known (reachable : session.Reachable) :
    (∀ name ready, session.resolver.globals.get? name = some ready → ready = true) ∧
      (∀ name, session.machine.globals.contains name = true →
        session.resolver.globals.contains name = true) ∧
      ∀ source signal, Failure.stopped signal ∈ (session.run source).1.failures →
        ∀ name, (session.run source).2.resolver.globals.contains name =
          (session.run source).2.machine.globals.contains name := by
  refine ⟨fun name ready found => ?_, fun name present => ?_, fun source signal reported name => ?_⟩
  · cases ready with
    | true => rfl
    | false => exact absurd found (reachable.settled.ready name)
  · exact (reachable.settled.contains_iff name).mpr (reachable.knowsGlobals name present)
  · have settled := (reachable.run source).settled
    rw [Bool.eq_iff_iff, settled.contains_iff name]
    exact known_after_stop reported name

/-- A fault in the initializer of a global: it stays unknown, and the one before it stays known. -/
theorem globals_known_after_fault :
    (initial 9 0 fun _ => 0).Reachable ∧
      (∃ signal, Failure.stopped signal ∈
        ((initial 9 0 fun _ => 0).run (.text "var a; var b = c;")).1.failures) ∧
      ∀ name,
        ((initial 9 0 fun _ => 0).run (.text "var a; var b = c;")).2.resolver.globals.contains name =
          ((initial 9 0 fun _ => 0).run (.text "var a; var b = c;")).2.machine.globals.contains name := by
  have reports : ((initial 9 0 fun _ => 0).run (.text "var a; var b = c;")).1.failures =
      [.stopped (.fault ⟨.undefinedVariable "c", .ofName "c" 1⟩)] := by decide +kernel
  have stopped : Failure.stopped (.fault ⟨.undefinedVariable "c", .ofName "c" 1⟩) ∈
      ((initial 9 0 fun _ => 0).run (.text "var a; var b = c;")).1.failures := by
    rw [reports]
    exact List.mem_singleton.mpr rfl
  have reachable := Reachable.initial 9 0 (fun _ => 0) usualCallLimit
  exact ⟨reachable, ⟨_, stopped⟩, (globals_known reachable).2.2 _ _ stopped⟩

end Session

end LoxInterpreter
