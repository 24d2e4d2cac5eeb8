import LoxInterpreter.Proofs.Lines.Reading
import LoxInterpreter.Proofs.Lines.Resolving
import LoxInterpreter.Proofs.Lines.Running
import LoxInterpreter.Proofs.Lines.Scanning
import LoxInterpreter.Proofs.Session.Rejection

/-!
Contract: what runs line by line runs as a whole.

Two texts that a session runs one after the other do what they do with a line feed between them in one
text. Each stage has its own reason for that, and they are put together here. What differs is the line of
a failure that is noticed at a token of the second text: to say which failures these are, the second text
is run on marked lines.

Owns: `Mark`, `Session.runMarked`, and `run_joined`.
Does not own: the stages (`Proofs.Lines.Scanning`, `Proofs.Lines.Reading`, `Proofs.Lines.Resolving`, and
`Proofs.Lines.Running`).
-/

namespace LoxInterpreter

/-! ## Marked lines -/

namespace Mark

/-- The mark on a line of what was there before a text. -/
def earlier (line : Nat) : Nat := 2 * line

/-- The mark on a line of the text itself. -/
def own (line : Nat) : Nat := 2 * line + 1

/-- The line that is marked. -/
def line (marked : Nat) : Nat := marked / 2

/-- Whether a marked line is one of the text itself. -/
def isOwn (marked : Nat) : Bool := marked % 2 == 1

/-- The line that a marked line is with some lines in front of the text. -/
def placed (shift marked : Nat) : Nat := if isOwn marked then line marked + shift else line marked

theorem line_earlier (number : Nat) : line (earlier number) = number := by
  unfold line earlier
  omega

theorem line_own (number : Nat) : line (own number) = number := by
  unfold line own
  omega

theorem placed_earlier (shift number : Nat) : placed shift (earlier number) = number := by
  have isEarlier : isOwn (earlier number) = false := by simp [isOwn, earlier]
  rw [placed, isEarlier, line_earlier]
  rfl

theorem placed_own (shift number : Nat) : placed shift (own number) = number + shift := by
  have isOwn : isOwn (own number) = true := by simp [isOwn, own]
  rw [placed, isOwn, line_own]
  rfl

end Mark

/-- How many lines a text takes, with a line feed behind it. -/
def lineCount (text : String) : Nat := 1 + text.toList.count '\n'

/-- A failure on another line. -/
def Failure.moveLine (move : Nat → Nat) : Failure → Failure
  | .lexical error => .lexical (error.moveLine move)
  | .grammar error => .grammar (error.moveLine move)
  | .scope error => .scope (error.moveLine move)
  | .stopped signal => .stopped (signal.moveLines move)

/-- A machine of which the functions are declared on other lines. -/
def Machine.moveLines (move : Nat → Nat) (machine : Machine) : Machine :=
  { machine with store := machine.store.map (Value.moveLines move) }

namespace Session

/-- The session with the lines marked of all that was there before. -/
def marked (session : Session) : Session :=
  { session with machine := session.machine.moveLines Mark.earlier }

/-- Runs a text so that each line tells whether it is one of this text. -/
def runMarked (session : Session) (text : String) : Report × Session :=
  session.marked.runTokens ((Source.text text).scan.tokens.map (Token.moveLine Mark.own))

end Session

/-! ## Reading -/

namespace Source

variable {first second : String} {program later : List (Statement Unit)}

/-- The tokens of a text that reads, up to the closing one. -/
theorem exists_body_of_read (reads : (text first).read = .ok program) :
    ∃ body last, (text first).scan = ⟨body ++ [last], none⟩ ∧
      (∀ token ∈ body, token.kind ≠ .endOfInput) ∧ last.kind = .endOfInput ∧
      Grammar.read (body ++ [last]) = ⟨program, []⟩ := by
  obtain ⟨scans, parses⟩ := Session.read_eq_ok_iff.mp reads
  obtain ⟨body, inner, scanned, _⟩ := Token.scanFrom_append 1 first.toList [] scans
  have whole : (text first).scan = ⟨body ++ [Token.closing (Token.lineAfter 1 first.toList)], none⟩ := scanned
  rw [whole] at parses
  exact ⟨body, _, whole, inner, rfl, parses⟩

/-- A text that reads is read on other lines as its tree on these lines. -/
theorem read_moveLines (move : Nat → Nat) (reads : (text first).read = .ok program) :
    Grammar.read ((text first).scan.tokens.map (·.moveLine move)) =
      ⟨Statement.listMoveLines move program, []⟩ := by
  obtain ⟨body, last, scanned, inner, isLast, parses⟩ := exists_body_of_read reads
  rw [scanned]
  exact Grammar.read_moveLines move inner isLast parses

/-- Two texts that read are read as one, the second on the lines behind the first. -/
theorem read_joined (reads : (text first).read = .ok program) (readsLater : (text second).read = .ok later) :
    (text (first ++ "\n" ++ second)).read =
      .ok (program ++ Statement.listMoveLines (· + lineCount first) later) := by
  obtain ⟨scans, parses⟩ := Session.read_eq_ok_iff.mp reads
  obtain ⟨body, inner, scanned, joined⟩ := Token.scanFrom_append 1 first.toList second.toList scans
  obtain ⟨body', last', scanned', inner', isLast', parses'⟩ := exists_body_of_read readsLater
  have characters : (first ++ "\n" ++ second).toList = first.toList ++ '\n' :: second.toList := by
    simp
  have behind : Token.lineAfter 1 first.toList + 1 = 1 + lineCount first := by
    unfold Token.lineAfter lineCount
    omega
  rw [behind, Token.scanFrom_moveLines, show Token.scanFrom 1 second.toList = _ from scanned'] at joined
  have whole : (text (first ++ "\n" ++ second)).scan = ⟨body ++
      (body' ++ [last']).map (·.moveLine (· + lineCount first)), none⟩ := by
    change Token.scanFrom 1 (first ++ "\n" ++ second).toList = _
    rw [characters]
    exact joined
  have moved := Grammar.read_moveLines (· + lineCount first) inner' isLast' parses'
  rw [show (text first).scan = _ from scanned] at parses
  refine Session.read_eq_ok_iff.mpr ?_
  rw [whole]
  refine ⟨rfl, ?_⟩
  rw [List.map_append, List.map_singleton] at moved ⊢
  refine Grammar.read_append inner rfl parses ?_ isLast' moved
  intro token member
  obtain ⟨source, memberSource, rfl⟩ := List.mem_map.mp member
  exact inner' source memberSource

end Source

/-! ## Running -/

namespace Machine

theorem moved_moveLines {move back : Nat → Nat} (agree : ∀ line, back (move line) = line)
    (machine : Machine) : (machine.moveLines move).Moved back "" machine where
  store := by
    have returns (value : Value) : (value.moveLines move).moveLines back = value :=
      (Value.moveLines_moveLines agree value).trans value.moveLines_id
    exact ((Store.map_map returns machine.store).trans (Store.map_eq_self (fun _ => rfl) _)).symm
  environment := rfl
  output := String.empty_append.symm
  clock := rfl
  clockReadings := rfl
  functionCount := rfl

/-- What is printed from now on stands behind what was printed before. -/
theorem moved_unprinted (machine : Machine) :
    { machine with output := "" }.Moved id machine.output machine where
  store := (Store.map_eq_self Value.moveLines_id _).symm
  environment := rfl
  output := String.append_empty.symm
  clock := rfl
  clockReadings := rfl
  functionCount := rfl

theorem Moved.globals_eq {move : Nat → Nat} {printed : String} {machine moved : Machine}
    (stands : machine.Moved move printed moved) :
    moved.globals = machine.globals.map (Value.moveLines move) := by
  unfold globals
  rw [stands.store, Store.frame_map]

end Machine

namespace Session

/-- Whether a run of a source ends as another one, on other lines and with something printed before. -/
structure EndsMoved (move : Nat → Nat) (printed : String) (ended moved : Report × Session) : Prop where
  output : moved.1.output = printed ++ ended.1.output
  failures : moved.1.failures = ended.1.failures.map (·.moveLine move)
  machine : ended.2.machine.Moved move "" moved.2.machine
  resolver : moved.2.resolver = ended.2.resolver

variable {session moved : Session} {move : Nat → Nat} {printed : String}

/-- Without their lines the globals are the same. -/
theorem EndsMoved.globals_unplaced {ended moved : Report × Session} (ends : EndsMoved move printed ended moved) :
    moved.2.machine.globals.map (Value.moveLines fun _ => 0) =
      ended.2.machine.globals.map (Value.moveLines fun _ => 0) := by
  rw [ends.machine.globals_eq]
  exact Table.map_map (Value.moveLines_moveLines fun _ => rfl) _

theorem conclude_moved (same : moved.resolver = session.resolver)
    {result result' : EStateM.Result Signal Machine Unit}
    (ends : Run.EndsMoved move printed id result result') :
    EndsMoved move printed (session.conclude result) (moved.conclude result') := by
  have emptied {machine machine' : Machine} (stands : machine.Moved move printed machine') :
      { machine with output := "" }.Moved move "" { machine' with output := "" } :=
    ⟨stands.store, stands.environment, rfl, stands.clock, stands.clockReadings, stands.functionCount⟩
  cases result with
  | ok _ after =>
      cases result' with
      | error signal' after' => exact ends.elim
      | ok _ after' => exact ⟨ends.2.output, rfl, emptied ends.2, same⟩
  | error signal after =>
      cases result' with
      | ok _ after' => exact ends.elim
      | error signal' after' =>
          obtain ⟨rfl, stands⟩ := ends
          refine ⟨stands.output, rfl, emptied stands, ?_⟩
          change moved.resolver.withGlobals after'.globals.names = session.resolver.withGlobals after.globals.names
          rw [same, stands.globals_eq, Table.names_map]

theorem beginning_moved (stands : session.machine.Moved move printed moved.machine)
    (tokens tokens' : List Token) (program program' : List (Statement Unit)) (resolver resolver' : Resolver) :
    (session.beginning tokens program resolver).Moved move printed
      (moved.beginning tokens' program' resolver') :=
  ((stands.tell _ _).tell _ _).tell _ _

variable {first second text : String} {program later : List (Statement Unit)}
  {resolved resolvedLater : List (Statement Binding)} {resolver between : Resolver}

/-- The session behind a run that ended at a machine, with what the resolver knew by then. -/
def behind (session : Session) (resolver : Resolver) (after : Machine) : Session :=
  { session with resolver, machine := { after with output := "" } }

/-- What a source that succeeds comes to. -/
theorem run_of_succeeded {source : Source} (succeeds : (session.run source).1.succeeded = true) :
    ∃ program resolved resolver after, source.read = .ok program ∧
      session.resolver.resolve program = (.ok resolved, resolver) ∧
      LoxInterpreter.runProgram session.fuel session.callLimit resolved
        (session.beginning source.scan.tokens program resolver) = .ok () after ∧
      session.run source = (⟨after.output, []⟩, session.behind resolver after) := by
  have none : (session.run source).1.failures = [] := List.isEmpty_iff.mp succeeds
  rcases rejects_or_resolves session source with ⟨failure, reported, _⟩ |
    ⟨program, resolved, resolver, reads, resolves⟩
  · rw [none] at reported
    cases reported
  · refine ⟨program, resolved, resolver, ?_⟩
    rw [run_of_resolved reads resolves] at none ⊢
    cases ends : LoxInterpreter.runProgram session.fuel session.callLimit resolved
        (session.beginning source.scan.tokens program resolver) with
    | ok _ after => exact ⟨after, reads, resolves, rfl, rfl⟩
    | error signal after =>
        rw [ends] at none
        cases none

/-- A text that reads and resolves is run on marked lines as its marked tree. -/
theorem runMarked_of_resolved (reads : (Source.text text).read = .ok program)
    (resolves : session.resolver.resolve program = (.ok resolved, resolver)) :
    ∃ tokens, session.runMarked text =
      conclude { session.marked with
        resolver, machine := session.marked.beginning tokens (Statement.listMoveLines Mark.own program) resolver }
        (LoxInterpreter.runProgram session.fuel session.callLimit (Statement.listMoveLines Mark.own resolved)
          (session.marked.beginning tokens (Statement.listMoveLines Mark.own program) resolver)) := by
  refine ⟨_, runTokens_of_resolved (Source.read_moveLines Mark.own reads) ?_⟩
  change session.resolver.resolve _ = _
  rw [Resolver.resolve_moveLines, resolves]
  rfl

/-- On marked lines a text runs as it does, but for the marks. -/
theorem run_unmarked (reads : (Source.text text).read = .ok program)
    (resolves : session.resolver.resolve program = (.ok resolved, resolver)) :
    EndsMoved Mark.line "" (session.runMarked text) (session.run (.text text)) := by
  obtain ⟨tokens, isRun⟩ := runMarked_of_resolved reads resolves
  rw [isRun, run_of_resolved reads resolves]
  apply conclude_moved rfl
  have stands : session.marked.machine.Moved Mark.line "" session.machine :=
    Machine.moved_moveLines Mark.line_earlier session.machine
  have unmarked : Statement.listMoveLines Mark.line (Statement.listMoveLines Mark.own resolved) = resolved :=
    (Statement.listMoveLines_listMoveLines (fun line => Mark.line_own line) resolved).trans
      (Statement.listMoveLines_id resolved)
  have ends := runProgram_moves Mark.line "" session.fuel session.callLimit (Statement.listMoveLines Mark.own resolved) _ _
    (beginning_moved stands tokens (Source.text text).scan.tokens (Statement.listMoveLines Mark.own program)
      program resolver resolver)
  rwa [unmarked] at ends

/-- Behind a text that ran to its end, another one runs on marked lines as it does in one text with it,
but for the marks and for what was printed before. -/
theorem run_whole {after : Machine} (reads : (Source.text first).read = .ok program)
    (resolves : session.resolver.resolve program = (.ok resolved, between))
    (ran : LoxInterpreter.runProgram session.fuel session.callLimit resolved
      (session.beginning (Source.text first).scan.tokens program between) = .ok () after)
    (readsLater : (Source.text second).read = .ok later)
    (resolvesLater : between.resolve later = (.ok resolvedLater, resolver)) :
    EndsMoved (Mark.placed (lineCount first)) after.output
      ((session.behind between after).runMarked second)
      (session.run (.text (first ++ "\n" ++ second))) := by
  have resolvesMoved : between.resolve (Statement.listMoveLines (· + lineCount first) later) =
      (.ok (Statement.listMoveLines (· + lineCount first) resolvedLater), resolver) := by
    rw [Resolver.resolve_moveLines, resolvesLater]
    rfl
  have resolvesBehind : (session.behind between after).resolver.resolve later =
      (.ok resolvedLater, resolver) := resolvesLater
  obtain ⟨tokens, isRun⟩ := runMarked_of_resolved readsLater resolvesBehind
  rw [isRun, run_of_resolved (Source.read_joined reads readsLater)
    (Resolver.resolve_append resolves resolvesMoved)]
  apply conclude_moved rfl
  -- the first text runs as it did, and leaves what the marks are taken off from
  have alike (tokens : List Token) (whole : List (Statement Unit)) :
      (session.beginning (Source.text first).scan.tokens program between).Moved id ""
        (session.beginning tokens whole resolver) :=
    beginning_moved (Machine.Moved.refl session.machine) _ tokens program whole between resolver
  have unmarked : (session.behind between after).marked.machine.Moved
      (Mark.placed (lineCount first)) after.output after := by
    have erased := (Machine.moved_moveLines (Mark.placed_earlier (lineCount first))
      (session.behind between after).machine).trans (fun _ => rfl) after.moved_unprinted
    rwa [String.append_empty] at erased
  have stands := ((unmarked.told (.scanned tokens.length)).told
    (.parsed (Statement.listMoveLines Mark.own later).length)).told (.resolved resolver.localCount)
  have placed : Statement.listMoveLines (Mark.placed (lineCount first))
      (Statement.listMoveLines Mark.own resolvedLater) =
        Statement.listMoveLines (· + lineCount first) resolvedLater :=
    Statement.listMoveLines_listMoveLines (Mark.placed_own (lineCount first)) resolvedLater
  rw [← placed]
  exact runProgram_append ran (alike _ _) stands

/-- Line by line is as a whole. A text that runs to its end and one behind it, that is not refused there,
print in one text what they print one after the other, and leave the same globals, but for the lines of
functions, and the same globals known. The second ends as it ends in the whole. Where it ends with a
failure at one of its own tokens, this stands in the whole as many lines further down as the first text
takes, and anywhere else on the same line. -/
theorem run_joined (session : Session) (first second : String)
    (succeeds : (session.run (.text first)).1.succeeded = true)
    (reads : (Source.text second).read = .ok later)
    (resolves : ((session.run (.text first)).2.resolver.resolve later).1 = .ok resolvedLater) :
    let behind := (session.run (.text first)).2
    let alone := behind.run (.text second)
    let marked := behind.runMarked second
    let whole := session.run (.text (first ++ "\n" ++ second))
    whole.1.output = (session.run (.text first)).1.output ++ alone.1.output ∧
      alone.1.failures = marked.1.failures.map (·.moveLine Mark.line) ∧
      whole.1.failures = marked.1.failures.map (·.moveLine (Mark.placed (lineCount first))) ∧
      whole.2.machine.globals.map (Value.moveLines fun _ => 0) =
        alone.2.machine.globals.map (Value.moveLines fun _ => 0) ∧
      whole.2.resolver = alone.2.resolver := by
  obtain ⟨program, resolved, between, after, readsFirst, resolvesFirst, ran, isRun⟩ :=
    run_of_succeeded succeeds
  rw [isRun] at resolves ⊢
  intro behind alone marked whole
  have resolvesBehind : behind.resolver.resolve later =
      (.ok resolvedLater, (between.resolve later).2) := Prod.ext resolves rfl
  have unmarked := run_unmarked reads resolvesBehind
  have placed := run_whole readsFirst resolvesFirst ran reads resolvesBehind
  refine ⟨?_, unmarked.failures, placed.failures, ?_, placed.resolver.trans unmarked.resolver.symm⟩
  · rw [placed.output, unmarked.output, String.empty_append]
  · exact placed.globals_unplaced.trans unmarked.globals_unplaced.symm

/-- A function that is declared behind a text of two lines, on its first line: it fails there on the third
line of the whole. -/
theorem run_joined_at_fault :
    ((initial 20 0 fun _ => 0).run (.text "var a = true;\nprint a;")).1.succeeded = true ∧
      (∃ later resolvedLater, (Source.text "fun f() { return -a; }\nf();").read = .ok later ∧
        (((initial 20 0 fun _ => 0).run (.text "var a = true;\nprint a;")).2.resolver.resolve later).1 =
          .ok resolvedLater) ∧
      (((initial 20 0 fun _ => 0).run (.text "var a = true;\nprint a;")).2.run
        (.text "fun f() { return -a; }\nf();")).1 =
          ⟨"", [.stopped (.fault ⟨.operandNotNumber, ⟨.minus, "-", 1⟩⟩)]⟩ ∧
      ((initial 20 0 fun _ => 0).run
        (.text ("var a = true;\nprint a;" ++ "\n" ++ "fun f() { return -a; }\nf();"))).1.failures =
          [.stopped (.fault ⟨.operandNotNumber, ⟨.minus, "-", 3⟩⟩)] := by
  have succeeds : ((initial 20 0 fun _ => 0).run (.text "var a = true;\nprint a;")).1.succeeded = true := by decide +kernel
  have reads : (Source.text "fun f() { return -a; }\nf();").read =
      .ok [.function ⟨"f", 1⟩ [] [.returning 1 (some (.unary .negate 1 (.variable ⟨"a", 1⟩ ())))],
        .expression (.call (.variable ⟨"f", 2⟩ ()) [] 2)] := by decide +kernel
  have resolves : (((initial 20 0 fun _ => 0).run (.text "var a = true;\nprint a;")).2.resolver.resolve
      [.function ⟨"f", 1⟩ [] [.returning 1 (some (.unary .negate 1 (.variable ⟨"a", 1⟩ ())))],
        .expression (.call (.variable ⟨"f", 2⟩ ()) [] 2)]).1 =
      .ok [.function ⟨"f", 1⟩ [] [.returning 1 (some (.unary .negate 1 (.variable ⟨"a", 1⟩ .global)))],
        .expression (.call (.variable ⟨"f", 2⟩ .global) [] 2)] := by decide +kernel
  have marked : (((initial 20 0 fun _ => 0).run (.text "var a = true;\nprint a;")).2.runMarked
      "fun f() { return -a; }\nf();").1.failures =
        [.stopped (.fault ⟨.operandNotNumber, ⟨.minus, "-", 3⟩⟩)] := by decide +kernel
  obtain ⟨_, _, ends, _⟩ := run_joined _ _ _ succeeds reads resolves
  rw [marked] at ends
  exact ⟨succeeds, ⟨_, _, reads, resolves⟩, by decide +kernel, ends⟩

end Session

end LoxInterpreter
