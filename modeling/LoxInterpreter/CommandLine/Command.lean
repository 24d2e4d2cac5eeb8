import LoxInterpreter.CommandLine.Arguments
import LoxInterpreter.CommandLine.Directory
import LoxInterpreter.Prompt
import LoxInterpreter.Tree.Document
import LoxInterpreter.Tree.Outline

/-!
Contract: what commands do.

A command may need one file, and is given it, or the reason why it cannot be read. What it shows,
reports and writes is data, with the code with which it exits: 64 for a command line that asks for
nothing sensible, 65 for a mistake found before running, 66 for a file that cannot be read, 70 for a
run that ended early.

Owns: `Command.perform`, and a command line in a working directory.
Does not own: reading words (`CommandLine.Arguments`) and the world outside (`Main`).
-/

namespace LoxInterpreter.CommandLine

inductive ExitCode where
  | success
  | misuse
  | badSource
  | noInput
  | stopped
deriving DecidableEq, Repr

def ExitCode.value : ExitCode → Nat
  | success => 0
  | misuse => 64
  | badSource => 65
  | noInput => 66
  | stopped => 70

structure Effect where
  exit : ExitCode
  output : String
  errors : String
  /-- A file that is to be written, with its text. -/
  written : Option (String × String)
  /-- What is to be added to the trace. -/
  trace : String

namespace Effect

def showing (exit : ExitCode) (output errors : String) : Effect := ⟨exit, output, errors, none, ""⟩

end Effect

/-- The file to which traces are added. -/
def tracePath : String := "debug.txt"

/-- What the name of a script becomes when its tree is written. -/
def documentPath (script : String) : String := Path.normalize script ++ ".ast.json"

namespace Command

def script? : Command → Option String
  | run script _ _ => some script
  | tree _ script _ => some script
  | _ => none

/-- The effect of a script that cannot be read. -/
def unreadable (script : String) (failure : ReadFailure) : Effect :=
  .showing .noInput ""
    ("Error: cannot read " ++ Path.normalize script ++ ": " ++ failure.words ++ "\n")

/-- Shows or writes the tree of a source. -/
def showTree (form : TreeForm) (script : String) (coloured : Bool) (source : Source) : Effect :=
  let scan := source.scan
  let refuse (failures : List Failure) : Effect :=
    .showing .badSource "" (Report.failureText ⟨"", failures⟩ coloured)
  match scan.error with
  | some error => refuse [.lexical error]
  | none =>
      let reading := Grammar.read scan.tokens
      match reading.errors with
      | [] =>
          match form with
          | .outline =>
              let lines := (Statement.outlines reading.statements).map (· ++ "\n")
              .showing .success (String.join lines) ""
          | .document =>
              let path := documentPath script
              { exit := .success, output := path ++ "\n", errors := ""
                written := some (path, (Tree.programDocument reading.statements).text)
                trace := "" }
      | errors => refuse (errors.map .grammar)

/-- Runs a source in a session of its own. -/
def runSource (verbosity : Nat) (coloured : Bool) (clock : Nat → Float) (source : Source) :
    Effect :=
  let (report, session) := (Session.initial ampleFuel verbosity clock).run source
  let exit :=
    if session.hadError then .badSource
    else if session.hadRuntimeError then .stopped
    else .success
  { exit, output := report.output, errors := report.failureText coloured, written := none
    trace := session.machine.traceText }

def runPrompt (verbosity : Nat) (coloured : Bool) (clock : Nat → Float) (input : String) : Effect :=
  let transcript := Prompt.run coloured (Session.initial ampleFuel verbosity clock) input
  { exit := .success, output := transcript.output, errors := transcript.errors, written := none
    trace := transcript.session.machine.traceText }

/-- What a command does, given what reading a script gives, the input, and the clock. -/
def perform (command : Command) (read : String → Except ReadFailure ByteArray) (input : String)
    (clock : Nat → Float) : Effect :=
  match command with
  | help => .showing .success helpText ""
  | misuse => .showing .misuse "" usage
  | prompt verbosity coloured => runPrompt verbosity coloured clock input
  | run script verbosity coloured =>
      match read script with
      | .ok content => runSource verbosity coloured clock (.bytes content)
      | .error failure => unreadable script failure
  | tree form script coloured =>
      match read script with
      | .ok content => showTree form script coloured (.bytes content)
      | .error failure => unreadable script failure

end Command

def Directory.perform (directory : Directory) (arguments : List String) (input : String)
    (clock : Nat → Float) : Effect × Directory :=
  let effect := (Command.ofArguments arguments).perform directory.read input clock
  let traced := directory.append tracePath effect.trace
  match effect.written with
  | none => (effect, traced)
  | some (path, text) => (effect, traced.write path text.toUTF8)

end LoxInterpreter.CommandLine
