import LoxInterpreter.Proofs.Execution.Agreement
import LoxInterpreter.Proofs.Grammar.Soundness
import LoxInterpreter.Session

/-!
Contract: the sessions that there are.

A session is reached from its start by running sources and by forgetting errors, in any order. Between
two sources it is outside all scopes, its machine is at the globals, and all that it stores is sound.

Owns: `Session.Reachable`, `Session.after`, `Session.Sound`, and what running a source comes to when
the source reads and resolves.
-/

namespace LoxInterpreter.Session

/-- The sessions that are reached by running sources and forgetting errors. -/
inductive Reachable : Session → Prop where
  | initial (fuel traceLevel : Nat) (clock : Nat → Float) (callLimit : Nat) :
      Reachable (initial fuel traceLevel clock callLimit)
  | run {session : Session} (reachable : Reachable session) (source : Source) :
      Reachable (session.run source).2
  | resetErrors {session : Session} (reachable : Reachable session) : Reachable session.resetErrors

/-- What a session can be asked for. -/
inductive Request where
  | run (source : Source)
  | resetErrors

/-- The session behind a request. -/
def serve (session : Session) : Request → Session
  | .run source => (session.run source).2
  | .resetErrors => session.resetErrors

/-- The session behind requests, one after another. -/
def after (session : Session) (history : List Request) : Session := history.foldl serve session

/-- Every history reaches a session. -/
theorem Reachable.after {session : Session} (reachable : session.Reachable) (history : List Request) :
    (session.after history).Reachable := by
  unfold Session.after
  induction history generalizing session with
  | nil => exact reachable
  | cons request later inductionHypothesis =>
      apply inductionHypothesis
      cases request with
      | run source => exact reachable.run source
      | resetErrors => exact reachable.resetErrors

/-- Whether a session is between two sources: at the globals, outside all scopes, and sound. -/
structure Sound (session : Session) : Prop where
  store : session.machine.store.Sound
  atGlobals : session.machine.environment = Machine.globalEnvironment
  outside : session.resolver.scopes = []

/-! ## Running a source -/

/-- The machine on which a program that was read from some tokens begins to run. -/
def beginning (session : Session) (tokens : List Token) (program : List (Statement Unit))
    (resolver : Resolver) : Machine :=
  ((session.machine.tell (.scanned tokens.length)).tell (.parsed program.length)).tell
    (.resolved resolver.localCount)

theorem read_eq_ok_iff {source : Source} {program : List (Statement Unit)} :
    source.read = .ok program ↔
      source.scan.error = none ∧ Grammar.read source.scan.tokens = ⟨program, []⟩ := by
  unfold Source.read
  dsimp only
  cases source.scan.error with
  | some error => simp
  | none =>
      cases Grammar.read source.scan.tokens with
      | mk statements errors => cases errors <;> simp

/-- Tokens that read and resolve are run as a program. -/
theorem runTokens_of_resolved {session : Session} {tokens : List Token} {program : List (Statement Unit)}
    {resolved : List (Statement Binding)} {resolver : Resolver}
    (parses : Grammar.read tokens = ⟨program, []⟩)
    (resolves : session.resolver.resolve program = (.ok resolved, resolver)) :
    session.runTokens tokens =
      conclude { session with resolver, machine := session.beginning tokens program resolver }
        (LoxInterpreter.runProgram session.fuel session.callLimit resolved
          (session.beginning tokens program resolver)) := by
  unfold runTokens
  dsimp only
  rw [parses]
  simp only
  unfold runProgram
  have same : ((session.tell (.scanned tokens.length)).tell
      (.parsed program.length)).resolver.resolve program = (.ok resolved, resolver) := resolves
  rw [same]
  rfl

/-- A source that reads and resolves is run as a program. -/
theorem run_of_resolved {session : Session} {source : Source} {program : List (Statement Unit)}
    {resolved : List (Statement Binding)} {resolver : Resolver} (reads : source.read = .ok program)
    (resolves : session.resolver.resolve program = (.ok resolved, resolver)) :
    session.run source =
      conclude { session with
        resolver, machine := session.beginning source.scan.tokens program resolver }
        (LoxInterpreter.runProgram session.fuel session.callLimit resolved
          (session.beginning source.scan.tokens program resolver)) := by
  obtain ⟨scans, parses⟩ := read_eq_ok_iff.mp reads
  unfold run
  dsimp only
  rw [scans]
  exact runTokens_of_resolved parses resolves

/-- A source that reads and does not resolve is refused. -/
theorem run_of_unresolved {session : Session} {source : Source} {program : List (Statement Unit)}
    {mistake : ScopeError} {resolver : Resolver} (reads : source.read = .ok program)
    (resolves : session.resolver.resolve program = (.error mistake, resolver)) :
    session.run source =
      refuse { session with
        resolver,
        machine := (session.machine.tell (.scanned source.scan.tokens.length)).tell
          (.parsed program.length) } [.scope mistake] := by
  obtain ⟨scans, parses⟩ := read_eq_ok_iff.mp reads
  unfold run
  dsimp only
  rw [scans]
  simp only
  unfold runTokens
  dsimp only
  rw [parses]
  simp only
  unfold runProgram
  have same : ((session.tell (.scanned source.scan.tokens.length)).tell
      (.parsed program.length)).resolver.resolve program = (.error mistake, resolver) := resolves
  rw [same]
  rfl

/-- A source that does not read is refused, and leaves at most an event in the trace. -/
theorem run_of_unread {session : Session} {source : Source} {failure : Failure}
    (reads : source.read = .error failure) :
    ∃ failures, session.run source = refuse session failures ∨
      session.run source = refuse (session.tell (.scanned source.scan.tokens.length)) failures := by
  unfold Source.read at reads
  unfold run
  dsimp only at reads ⊢
  cases scans : source.scan.error with
  | some error => exact ⟨_, .inl rfl⟩
  | none =>
      rw [scans] at reads
      dsimp only at reads ⊢
      unfold runTokens
      dsimp only
      cases parses : (Grammar.read source.scan.tokens).errors with
      | nil => simp [parses] at reads
      | cons error others => exact ⟨_, .inr rfl⟩

/-! ## Sessions stay sound -/

theorem normal_of_read {source : Source} {program : List (Statement Unit)}
    (reads : source.read = .ok program) : Statement.listNormal program := by
  have parses := (read_eq_ok_iff.mp reads).2
  have normal := Grammar.read_normal (show (Grammar.read source.scan.tokens).errors = [] by rw [parses])
  rwa [parses] at normal

/-- The native functions are sound globals. -/
theorem sound_natives {store : Store Value} (sound : store.Sound) (natives : List Native) :
    (natives.foldl (fun store native =>
      store.define Machine.globalEnvironment native.name (.native native)) store).Sound := by
  induction natives generalizing store with
  | nil => exact sound
  | cons native natives inductionHypothesis =>
      apply inductionHypothesis
      apply sound.define
      apply Value.sound_of_ne_closure
      intro function same
      cases same

theorem store_beginning (session : Session) (tokens : List Token) (program : List (Statement Unit))
    (resolver : Resolver) :
    (session.beginning tokens program resolver).store = session.machine.store := by
  simp only [beginning, Machine.store_tell]

theorem environment_beginning (session : Session) (tokens : List Token)
    (program : List (Statement Unit)) (resolver : Resolver) :
    (session.beginning tokens program resolver).environment = session.machine.environment := by
  simp only [beginning, Machine.environment_tell]

theorem sound_initial (fuel traceLevel : Nat) (clock : Nat → Float) (callLimit : Nat) :
    (initial fuel traceLevel clock callLimit).Sound := by
  have empty : (Store.empty.extend []).2.Sound := by
    constructor
    · exact Nat.one_pos
    · intro id name value reads
      rw [Store.frame_extend] at reads
      exact absurd reads (by simp [Store.frame, Store.empty])
  constructor
  · exact sound_natives empty Native.all
  · rfl
  · rfl

/-- What a program that is bound outside all scopes does where a sound session begins it. -/
theorem Sound.runProgram_safe {session : Session} (sound : session.Sound) (tokens : List Token)
    (program : List (Statement Unit)) (resolver : Resolver) {resolved : List (Statement Binding)}
    (bound : Statement.listBound [] resolved) :
    (LoxInterpreter.runProgram session.fuel session.callLimit resolved).Safe
      (session.beginning tokens program resolver) (fun _ _ => True) := by
  have soundThere : (session.beginning tokens program resolver).store.Sound := by
    rw [store_beginning]
    exact sound.store
  unfold LoxInterpreter.runProgram
  apply Run.Safe.bind (Run.safe_tell _ soundThere)
  intro _ started follows _
  have models : started.store.Models started.environment [] := by
    rw [follows.environment_eq, environment_beginning, sound.atGlobals]
    exact .globals
  apply Run.Safe.bind
    (each_sound_of_bound (evaluate_and_execute_sound session.fuel).2 follows.sound models bound)
  intro _ after followsStarted _
  exact Run.safe_tell _ followsStarted.sound

/-- Running a source keeps a session sound, whether or not the source reads and resolves, and however
its run ends. -/
theorem Sound.run {session : Session} (sound : session.Sound) (source : Source) :
    (session.run source).2.Sound := by
  cases reads : source.read with
  | error failure =>
      obtain ⟨failures, same | same⟩ := @run_of_unread session _ _ reads
      · rw [same]
        exact ⟨sound.store, sound.atGlobals, sound.outside⟩
      · rw [same]
        constructor
        · exact (session.machine.store_tell _).symm ▸ sound.store
        · exact (session.machine.environment_tell _).trans sound.atGlobals
        · exact sound.outside
  | ok program =>
      have normal := normal_of_read reads
      cases resolves : session.resolver.resolve program with
      | mk result resolver =>
          cases result with
          | error mistake =>
              have outside := Resolver.resolve_outside sound.outside normal
              rw [resolves] at outside
              rw [run_of_unresolved reads resolves]
              constructor
              · simpa only [refuse, Machine.store_tell] using sound.store
              · simpa only [refuse, Machine.environment_tell] using sound.atGlobals
              · exact outside
          | ok resolved =>
              obtain ⟨bound, _, outside⟩ := Resolver.resolve_bound sound.outside normal resolves
              rw [run_of_resolved reads resolves]
              have globalsThere := (session.environment_beginning source.scan.tokens program
                resolver).trans sound.atGlobals
              have safe := sound.runProgram_safe source.scan.tokens program resolver bound
              cases ends : LoxInterpreter.runProgram session.fuel session.callLimit resolved
                  (session.beginning source.scan.tokens program resolver) with
              | ok _ after =>
                  have ⟨follows, _⟩ := safe.of_ok ends
                  exact ⟨follows.sound, follows.environment_eq.trans globalsThere, outside⟩
              | error signal after =>
                  have ⟨follows, _⟩ := safe.of_error ends
                  exact ⟨follows.sound, follows.environment_eq.trans globalsThere, outside⟩

/-- Every session is between two sources in this sense. -/
theorem Reachable.sound {session : Session} (reachable : session.Reachable) : session.Sound := by
  induction reachable with
  | initial fuel traceLevel clock callLimit => exact sound_initial fuel traceLevel clock callLimit
  | run _ source inductionHypothesis => exact inductionHypothesis.run source
  | resetErrors _ inductionHypothesis =>
      exact ⟨inductionHypothesis.store, inductionHypothesis.atGlobals, inductionHypothesis.outside⟩

end LoxInterpreter.Session
