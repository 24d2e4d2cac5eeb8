import LoxInterpreter.Program

/-!
Contract: a machine that runs one source after another.

Globals and functions stay from source to source. Of a source with a mistake that can be found before
running nothing is run; the resolver still knows the globals that it saw declared in full before a
mistake of scope. When running ends early, the resolver forgets what was declared and never defined.

Owns: `Session`, and what is observed of each source.
Does not own: the prompt (`Prompt`) and the command line (`CommandLine`).
-/

namespace LoxInterpreter

/-- The state from source to source. -/
structure Session where
  machine : Machine
  resolver : Resolver
  /-- Whether a source could not be run, since the last reset. -/
  hadError : Bool
  /-- Whether running ended early, since the last reset. -/
  hadRuntimeError : Bool
  fuel : Nat
  /-- How many calls may be nested. -/
  callLimit : Nat

/-- What is observed of a source. -/
structure Report where
  output : String
  failures : List Failure
deriving DecidableEq

namespace Report

def succeeded (report : Report) : Bool := report.failures.isEmpty

/-- The failures as text, each followed by a line feed. -/
def failureText (report : Report) (coloured : Bool) : String :=
  report.failures.foldl (fun text failure => text ++ failure.render coloured ++ "\n") ""

end Report

namespace Session

def initial (fuel traceLevel : Nat) (clock : Nat → Float) (callLimit : Nat := usualCallLimit) : Session :=
  let machine := Machine.initial traceLevel clock
  { machine, resolver := .ofKnown machine.globals.names, hadError := false,
    hadRuntimeError := false, fuel, callLimit }

def resetErrors (session : Session) : Session :=
  { session with hadError := false, hadRuntimeError := false }

def tell (session : Session) (event : TraceEvent) : Session :=
  { session with machine := session.machine.tell event }

/-- The report of a source that could not be run. -/
def refuse (session : Session) (failures : List Failure) : Report × Session :=
  (⟨"", failures⟩, { session with hadError := true })

/-- Takes over the machine that a run left, without its output, which goes into the report. -/
def conclude (session : Session) (result : EStateM.Result Signal Machine Unit) :
    Report × Session :=
  match result with
  | .ok _ machine =>
      (⟨machine.output, []⟩, { session with machine := { machine with output := "" } })
  | .error signal machine =>
      (⟨machine.output, [.stopped signal]⟩,
        { session with
          machine := { machine with output := "" }
          resolver := session.resolver.withGlobals machine.globals.names
          hadRuntimeError := true })

def runProgram (session : Session) (program : List (Statement Unit)) : Report × Session :=
  match session.resolver.resolve program with
  | (.error error, resolver) => refuse { session with resolver } [.scope error]
  | (.ok resolved, resolver) =>
      let session := { session with resolver }.tell (.resolved resolver.localCount)
      session.conclude (LoxInterpreter.runProgram session.fuel session.callLimit resolved session.machine)

def runTokens (session : Session) (tokens : List Token) : Report × Session :=
  let session := session.tell (.scanned tokens.length)
  let reading := Grammar.read tokens
  match reading.errors with
  | [] => (session.tell (.parsed reading.statements.length)).runProgram reading.statements
  | errors => session.refuse (errors.map .grammar)

def run (session : Session) (source : Source) : Report × Session :=
  let scan := source.scan
  match scan.error with
  | some error => session.refuse [.lexical error]
  | none => session.runTokens scan.tokens

end Session

end LoxInterpreter
