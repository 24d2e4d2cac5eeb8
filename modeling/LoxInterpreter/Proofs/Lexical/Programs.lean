import LoxInterpreter.Proofs.Execution.Returning
import LoxInterpreter.Proofs.Lexical.Refinement
import LoxInterpreter.Proofs.Session.Reachable

/-!
Contract: what a source does in a new session is what its names alone mean.

Owns: machines that are alike before their first program, and `run_refines`.
-/

namespace LoxInterpreter.Lexical

/-- Whether what was reported of a source is how a program ended. -/
inductive SameEnding : List Failure → Option Signal → Prop where
  | normal : SameEnding [] none
  | fault (error : RuntimeError) : SameEnding [.stopped (.fault error)] (some (.fault error))
  | stackOverflow : SameEnding [.stopped .stackOverflow] (some .stackOverflow)
  | outOfFuel : SameEnding [.stopped .outOfFuel] (some .outOfFuel)

/-! ## Before the first program -/

/-- The native functions are the same globals on both machines. -/
theorem natives_related (natives : List Native) {store : Store LoxInterpreter.Value} {table : Table Value}
    (made : Machine.globalFrame < store.frames.size)
    (related : ∀ name, Option.Rel (Layout.Related [])
      ((store.frame Machine.globalFrame).get? name) (table.get? name)) :
    let filled := natives.foldl (fun store native =>
      store.define Machine.globalEnvironment native.name (.native native)) store
    Machine.globalFrame < filled.frames.size ∧
      ∀ name, Option.Rel (Layout.Related []) ((filled.frame Machine.globalFrame).get? name)
        ((natives.foldl (fun table native => table.set native.name (.native native)) table).get?
          name) := by
  induction natives generalizing store table with
  | nil => exact ⟨made, related⟩
  | cons native rest inductionHypothesis =>
      apply inductionHypothesis
      · unfold Store.define Machine.globalEnvironment
        dsimp only
        rw [Store.size_write]
        exact made
      · intro name
        unfold Store.define Machine.globalEnvironment
        dsimp only
        rw [Store.frame_write_self made]
        by_cases same : name = native.name
        · rw [same, Table.get?_set_self, Table.get?_set_self]
          exact .some (.native native)
        · rw [Table.get?_set_of_ne _ same, Table.get?_set_of_ne _ same]
          exact related name

/-- Two machines that have run nothing are alike, and no location is in use. -/
theorem relates_initial (traceLevel : Nat) (clock : Nat → Float) :
    Layout.Relates [] (LoxInterpreter.Machine.initial traceLevel clock) (Machine.initial clock) := by
  have made : Machine.globalFrame < (Store.empty.extend [] :
      Environment × Store LoxInterpreter.Value).2.frames.size := by
    rw [Store.size_extend]
    exact Nat.succ_pos _
  have empty : ∀ name, Option.Rel (Layout.Related [])
      (((Store.empty.extend []).2.frame Machine.globalFrame).get? name)
      ((Table.empty : Table Value).get? name) := by
    intro name
    rw [Store.frame_extend]
    exact .none
  have natives := natives_related Native.all made empty
  constructor
  · rfl
  · exact .nil
  · exact natives.1
  · simp
  · simp
  · exact natives.2
  · rfl
  · rfl
  · rfl
  · rfl

/-! ## Programs -/

/-- A program that is bound outside all scopes runs as its names alone mean. -/
theorem runProgram_simulates {layout : Layout} {machine : LoxInterpreter.Machine} {other : Machine}
    (fuel callLimit : Nat) {resolved : List (Statement Binding)} (relates : layout.Relates machine other)
    (atGlobals : machine.environment = LoxInterpreter.Machine.globalEnvironment)
    (bound : Statement.listBound [] resolved) (others : Statement.listAssignsOwn false resolved = false) :
    layout.Simulates machine.environment.head? machine other
      (LoxInterpreter.runProgram fuel callLimit resolved)
      ((Statement.listMapKnown (fun _ => ()) resolved).foldlM (execute fuel callLimit) .outside)
      (fun _ _ _ _ => True) := by
  unfold LoxInterpreter.runProgram
  apply Layout.Simulates.tell_bind
  rw [← machine.environment_tell (.started resolved.length)]
  have stands : layout.Stands (machine.tell (.started resolved.length)).store.frames.size []
      (machine.tell (.started resolved.length)).environment .outside := by
    rw [machine.environment_tell, atGlobals]
    exact .outside
  have runs := each_simulates (evaluate_and_execute_simulate fuel).2 callLimit
    (relates.tell (.started resolved.length)) stands bound others
  exact runs.behind_tell fun _ _ _ _ _ => trivial

/-- What is reported of a run that ends as another does, and does not return, is how the other ends. -/
theorem conclude_refines {layout : Layout} {current : Option FrameId}
    {machine : LoxInterpreter.Machine} {good : Layout → LoxInterpreter.Machine → Unit → Scope → Prop}
    {result : EStateM.Result LoxInterpreter.Signal LoxInterpreter.Machine Unit}
    {result' : EStateM.Result Signal Machine Scope}
    (ends : layout.SameEnd current machine good result result')
    (contained : ∀ value after, result ≠ .error (.returned value) after) (session : Session) :
    (session.conclude result).1.output = (Observation.ofResult result').machine.output ∧
      SameEnding (session.conclude result).1.failures (Observation.ofResult result').signal ∧
      ∀ name, Option.Rel (Alike SameFunction) ((session.conclude result).2.machine.globals.get? name)
        ((Observation.ofResult result').machine.globals.get? name) := by
  have sameGlobals : ∀ {layout' : Layout} {after : LoxInterpreter.Machine} {after' : Machine},
      layout'.Relates after after' → ∀ name, Option.Rel (Alike SameFunction)
        (after.globals.get? name) (after'.globals.get? name) := by
    intro layout' after after' relates name
    have related := relates.globals name
    generalize after.globals.get? name = value?, after'.globals.get? name = value'? at related ⊢
    cases related with
    | none => exact .none
    | some related => exact .some related.same
  cases ends with
  | ok continues relates holds =>
      have globals := sameGlobals relates
      exact ⟨relates.output.symm, .normal, globals⟩
  | error continues relates same =>
      have globals := sameGlobals relates
      refine ⟨relates.output.symm, ?_, globals⟩
      cases same with
      | returned related => exact absurd rfl (contained _ _)
      | fault error => exact .fault error
      | stackOverflow => exact .stackOverflow
      | outOfFuel => exact .outOfFuel

/-- Resolved references lead where names alone lead. A source that reads and resolves in a new session,
and in which no local initializer assigns to its own variable, prints what its program prints when names
are looked up in immutable scopes, ends in the same way, and leaves the same globals. -/
theorem run_refines (fuel callLimit traceLevel : Nat) (clock : Nat → Float) {source : Source}
    {program : List (Statement Unit)} {resolved : List (Statement Binding)} {resolver : Resolver}
    (reads : source.read = .ok program)
    (resolves : (Session.initial fuel traceLevel clock callLimit).resolver.resolve program =
      (.ok resolved, resolver))
    (others : Statement.listAssignsOwn false program = false) :
    let (report, session) := (Session.initial fuel traceLevel clock callLimit).run source
    let observation := run program fuel callLimit clock
    report.output = observation.machine.output ∧
      SameEnding report.failures observation.signal ∧
      ∀ name, Option.Rel (Alike SameFunction) (session.machine.globals.get? name)
        (observation.machine.globals.get? name) := by
  have sound := Session.sound_initial fuel traceLevel clock callLimit
  have ⟨bound, erased, _⟩ := Resolver.resolve_bound sound.outside (Session.normal_of_read reads) resolves
  rw [← erased, Statement.listAssignsOwn_mapKnown] at others
  have returnsInside := Resolver.resolve_returnsOutside rfl resolves
  rw [← erased, Statement.listReturnsOutside_mapKnown] at returnsInside
  have relates : Layout.Relates [] ((Session.initial fuel traceLevel clock callLimit).beginning source.scan.tokens
      program resolver) (Machine.initial clock) :=
    (((relates_initial traceLevel clock).tell _).tell _).tell _
  have atGlobals := ((Session.initial fuel traceLevel clock callLimit).environment_beginning source.scan.tokens
    program resolver).trans sound.atGlobals
  have simulates := runProgram_simulates fuel callLimit relates atGlobals bound others
  rw [erased] at simulates
  rw [Session.run_of_resolved reads resolves]
  exact conclude_refines simulates (runProgram_contained fuel callLimit returnsInside _) _

/-- A function that is called where its name for a global variable is declared again. -/
theorem run_refines_declared_later :
    ∃ program resolved resolver,
      (Source.text "var a; { fun f() { return a; } var a; f(); }").read = .ok program ∧
      (Session.initial 9 0 fun _ => 0).resolver.resolve program = (.ok resolved, resolver) ∧
      Statement.listAssignsOwn false program = false ∧
      let (report, session) := (Session.initial 9 0 fun _ => 0).run
        (.text "var a; { fun f() { return a; } var a; f(); }")
      let observation := run program 9 usualCallLimit fun _ => 0
      report.output = observation.machine.output ∧
        SameEnding report.failures observation.signal ∧
        ∀ name, Option.Rel (Alike SameFunction) (session.machine.globals.get? name)
          (observation.machine.globals.get? name) := by
  have reads : (Source.text "var a; { fun f() { return a; } var a; f(); }").read = .ok
      [.declaration ⟨"a", 1⟩ none,
        .block [.function ⟨"f", 1⟩ [] [.returning 1 (some (.variable ⟨"a", 1⟩ ()))],
          .declaration ⟨"a", 1⟩ none,
          .expression (.call (.variable ⟨"f", 1⟩ ()) [] 1)]] := by decide +kernel
  have resolves : (Session.initial 9 0 fun _ => 0).resolver.resolve
      [.declaration ⟨"a", 1⟩ none,
        .block [.function ⟨"f", 1⟩ [] [.returning 1 (some (.variable ⟨"a", 1⟩ ()))],
          .declaration ⟨"a", 1⟩ none,
          .expression (.call (.variable ⟨"f", 1⟩ ()) [] 1)]] =
      (.ok [.declaration ⟨"a", 1⟩ none,
          .block [.function ⟨"f", 1⟩ [] [.returning 1 (some (.variable ⟨"a", 1⟩ .global))],
            .declaration ⟨"a", 1⟩ none,
            .expression (.call (.variable ⟨"f", 1⟩ (.enclosing 0)) [] 1)]],
        ⟨[], .ofNames true ["clock", "a"], false, #[.global, .enclosing 0]⟩) := rfl
  exact ⟨_, _, _, reads, resolves, rfl, run_refines 9 usualCallLimit 0 (fun _ => 0) reads resolves rfl⟩

end LoxInterpreter.Lexical
