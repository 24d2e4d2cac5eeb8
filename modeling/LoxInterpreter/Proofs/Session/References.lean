import LoxInterpreter.Proofs.Execution.Moment
import LoxInterpreter.Proofs.Session.Reachable

/-!
Contract: where the references of a session's programs lead.

Whatever was run before, a program that resolves finds at each moment of its run every variable in the
frame that its binding names. The only variables that can be missing are global ones.

Owns: the moment at which a program starts, and `references_found`.
-/

namespace LoxInterpreter.Session

/-- The moment at which the statements of a program start, with its references resolved. -/
def start (session : Session) (source : Source) (program : List (Statement Unit))
    (resolver : Resolver) (resolved : List (Statement Binding)) : Moment where
  fuel := session.fuel
  calls := session.callLimit
  task := .executeAll resolved
  initializing := none
  machine := (session.beginning source.scan.tokens program resolver).tell (.started resolved.length)

/-- A program that is bound outside all scopes starts soundly. -/
theorem Sound.start {session : Session} (sound : session.Sound) (source : Source)
    (program : List (Statement Unit)) (resolver : Resolver) {resolved : List (Statement Binding)}
    (bound : Statement.listBound [] resolved) :
    (session.start source program resolver resolved).Sound := by
  constructor
  · unfold Session.start
    rw [Machine.store_tell, store_beginning]
    exact sound.store
  · refine ⟨[], ?_, bound⟩
    unfold Session.start
    rw [Machine.environment_tell, environment_beginning, sound.atGlobals]
    exact .globals

/-- What can be reported of a program that is bound outside all scopes: no reference was followed in
vain, and a variable that is reported as undefined is no global one. -/
theorem Sound.failures {session : Session} (sound : session.Sound) {source : Source}
    {program : List (Statement Unit)} {resolved : List (Statement Binding)} {resolver : Resolver}
    (reads : source.read = .ok program)
    (resolves : session.resolver.resolve program = (.ok resolved, resolver))
    (bound : Statement.listBound [] resolved) {failure : Failure}
    (reported : failure ∈ (session.run source).1.failures) :
    ∃ signal, failure = .stopped signal ∧ signal.Sound (session.run source).2.machine := by
  have safe := sound.runProgram_safe source.scan.tokens program resolver bound
  rw [run_of_resolved reads resolves] at reported ⊢
  cases ends : LoxInterpreter.runProgram session.fuel session.callLimit resolved
      (session.beginning source.scan.tokens program resolver) with
  | ok _ after =>
      rw [ends] at reported
      simp [conclude] at reported
  | error signal after =>
      rw [ends] at reported
      have isSignal : failure = .stopped signal := by simpa [conclude] using reported
      have ⟨_, soundSignal⟩ := safe.of_error ends
      refine ⟨signal, isSignal, ?_⟩
      cases signal with
      | fault error =>
          cases error with
          | mk cause token => cases cause <;> exact soundSignal
      | brokenBinding => exact soundSignal
      | _ => exact soundSignal

/-- Scopes and environments agree. In every session, at every moment of the run of a program that reads
and resolves, what is read or assigned to by distance is in the frame at that distance, which is not
that of the globals; an assignment in the initializer of the local variable that it assigns to has the
frame alone. Hence no reference is followed in vain, and only a variable that is missing among the
globals is reported as undefined. -/
theorem references_found {session : Session} (reachable : session.Reachable) {source : Source}
    {program : List (Statement Unit)} {resolved : List (Statement Binding)} {resolver : Resolver}
    (reads : source.read = .ok program)
    (resolves : session.resolver.resolve program = (.ok resolved, resolver)) :
    (∀ moment, Relation.ReflTransGen Moment.Turns
        (session.start source program resolver resolved) moment → moment.AccessFound) ∧
      ∀ failure ∈ (session.run source).1.failures,
        (∀ reason, failure ≠ .stopped (.brokenBinding reason)) ∧
        ∀ name token, failure = .stopped (.fault ⟨.undefinedVariable name, token⟩) →
          (session.run source).2.machine.globals.contains name = false := by
  have sound := reachable.sound
  have ⟨bound, _⟩ := Resolver.resolve_bound sound.outside (normal_of_read reads) resolves
  constructor
  · intro moment reached
    exact ((sound.start source program resolver bound).reaches reached).accessFound
  · intro failure reported
    have ⟨signal, isSignal, soundSignal⟩ := sound.failures reads resolves bound reported
    constructor
    · intro reason isBroken
      rw [isSignal] at isBroken
      cases isBroken
      exact soundSignal
    · intro name token isFault
      rw [isSignal] at isFault
      cases isFault
      exact soundSignal

/-- A function that reads a variable of the block around it, one frame further out. -/
theorem references_found_around_function :
    ∃ program resolved resolver,
      (Source.text "{ var a; fun f() { return a; } f(); }").read = .ok program ∧
      (initial 9 0 fun _ => 0).resolver.resolve program = (.ok resolved, resolver) ∧
      ∀ moment, Relation.ReflTransGen Moment.Turns ((initial 9 0 fun _ => 0).start
        (.text "{ var a; fun f() { return a; } f(); }") program resolver resolved) moment →
        moment.AccessFound := by
  have reads : (Source.text "{ var a; fun f() { return a; } f(); }").read = .ok
      [.block [.declaration ⟨"a", 1⟩ none,
        .function ⟨"f", 1⟩ [] [.returning 1 (some (.variable ⟨"a", 1⟩ ()))],
        .expression (.call (.variable ⟨"f", 1⟩ ()) [] 1)]] := read_eq_ok_iff.mpr (by decide +kernel)
  have resolves : (initial 9 0 fun _ => 0).resolver.resolve
      [.block [.declaration ⟨"a", 1⟩ none,
        .function ⟨"f", 1⟩ [] [.returning 1 (some (.variable ⟨"a", 1⟩ ()))],
        .expression (.call (.variable ⟨"f", 1⟩ ()) [] 1)]] =
      (.ok [.block [.declaration ⟨"a", 1⟩ none,
          .function ⟨"f", 1⟩ [] [.returning 1 (some (.variable ⟨"a", 1⟩ (.enclosing 1)))],
          .expression (.call (.variable ⟨"f", 1⟩ (.enclosing 0)) [] 1)]],
        ⟨[], .ofNames true ["clock"], false, #[.enclosing 1, .enclosing 0]⟩) := rfl
  exact ⟨_, _, _, reads, resolves, (references_found (.initial 9 0 _ _) reads resolves).1⟩

end LoxInterpreter.Session
