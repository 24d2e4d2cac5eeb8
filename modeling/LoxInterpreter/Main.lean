import LoxInterpreter.CommandLine.Command
import Std.Time.DateTime.Timestamp

/-!
Contract: the command line in the world outside.

Owns: reading scripts and input, showing what commands show, and writing what they write. It decides
nothing: the prompt alone is driven line by line, so that each answer is shown before the next line
is read.

A machine is handed its clock before it runs. The clock is therefore read when a command or a line begins,
and every call in it sees that time.
-/

namespace LoxInterpreter.Main

open CommandLine

/-- The seconds since the beginning of 1970, as they are now. -/
def readClock : IO (Nat → Float) := do
  let nanoseconds := (← Std.Time.Timestamp.now).toNanosecondsSinceUnixEpoch.val
  let now := Float.ofInt nanoseconds / 1000000000
  return fun _ => now

/-- The content of a file, or why it cannot be read. -/
def readScript (path : String) : IO (Except ReadFailure ByteArray) := do
  try
    return .ok (← IO.FS.readBinFile (Path.normalize path))
  catch problem =>
    match problem with
    | .noFileOrDirectory .. => return .error .notFound
    -- A file of the wrong kind is the path itself, or else one on the way to it.
    | .inappropriateType _ 21 _ => return .error .isDirectory
    | .inappropriateType .. => return .error .notDirectory
    | .invalidArgument .. => return .error .nameTooLong
    | .permissionDenied .. => return .error (.other "Permission denied")
    | problem => return .error (.other (toString problem))

def appendTrace (text : String) : IO Unit := do
  unless text.isEmpty do
    let handle ← IO.FS.Handle.mk tracePath .append
    handle.putStr text

/-- The line that was read, without its line feed; at the end of input, the line that stands for it. -/
def lineOf (read : String) : String :=
  if read.isEmpty then Prompt.endLine
  else
    let characters := read.toList
    String.ofList (if characters.getLast? = some '\n' then characters.dropLast else characters)

/-- Answers the lines of the input until one of them ends the prompt. -/
partial def converse (coloured : Bool) (session : Session) (told : Nat) : IO Unit := do
  let output ← IO.getStdout
  output.putStr Prompt.invitation
  output.flush
  let line := lineOf (← (← IO.getStdin).getLine)
  let clock ← readClock
  let current := { session with machine := { session.machine with clock := clock } }
  let (answer, after) := Prompt.answer current line
  output.putStr (answer.shown ++ answer.report.output)
  output.flush
  (← IO.getStderr).putStr (answer.report.failureText coloured)
  let toldAfter := after.machine.trace.size
  appendTrace (after.machine.trace.foldl (fun text event => text ++ event.text ++ "\n") "" told)
  unless answer.stops = some true do converse coloured after toldAfter

def run (arguments : List String) : IO UInt32 := do
  let command := Command.ofArguments arguments
  match command with
  | .prompt verbosity coloured =>
      (← IO.getStdout).putStr Prompt.introduction
      converse coloured (Session.initial ampleFuel verbosity (← readClock)) 0
      return 0
  | command =>
      let content ←
        match command.script? with
        | some script => readScript script
        | none => pure (.error .notFound)
      let effect := command.perform (fun _ => content) "" (← readClock)
      (← IO.getStdout).putStr effect.output
      (← IO.getStderr).putStr effect.errors
      appendTrace effect.trace
      if let some (path, text) := effect.written then IO.FS.writeFile path text
      return UInt32.ofNat effect.exit.value

end LoxInterpreter.Main

def main (arguments : List String) : IO UInt32 := LoxInterpreter.Main.run arguments
