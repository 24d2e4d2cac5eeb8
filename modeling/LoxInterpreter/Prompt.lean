import LoxInterpreter.Session
import LoxInterpreter.Text.Blank

/-!
Contract: a session that is given its sources line by line.

The lines `exit` and `EOF`, with any blanks around them, end the prompt; a blank line does nothing;
every other line is source text, as it stands. Errors of one line do not count for the next.

Owns: `Prompt.answer`, and the transcript of a whole input.
-/

namespace LoxInterpreter.Prompt

inductive Request where
  | leave
  | endOfInput
  | nothing
  | source
deriving DecidableEq, Repr

def Request.ofLine (line : String) : Request :=
  let stripped := String.ofList (Text.strip line.toList)
  if stripped = "exit" then leave
  else if stripped = "EOF" then endOfInput
  else if stripped.isEmpty then nothing
  else source

/-- The line that stands for the end of input. -/
def endLine : String := "EOF"

def introduction : String :=
  "Lox tree-walk interpreter\nType 'exit' or press Ctrl-D to leave.\n"

def invitation : String := "> "

/-- What a line gives: whether it ends the prompt, where it is no source; what the prompt itself
shows; and the report of a source. -/
structure Answer where
  stops : Option Bool
  shown : String
  report : Report

def answer (session : Session) (line : String) : Answer × Session :=
  match Request.ofLine line with
  | .leave => (⟨some true, "", ⟨"", []⟩⟩, session)
  | .endOfInput => (⟨some true, "\n", ⟨"", []⟩⟩, session)
  | .nothing => (⟨some false, "", ⟨"", []⟩⟩, session)
  | .source =>
      let (report, session) := session.run (.text line)
      (⟨none, "", report⟩, session.resetErrors)

/-- What is shown, and what is reported, by the prompt from a line on. -/
structure Transcript where
  output : String
  errors : String
  session : Session

/-- Answers lines until one of them ends the prompt; behind the last comes the end of input. -/
def converse (coloured : Bool) (transcript : Transcript) : List String → Transcript
  | [] =>
      let (reply, session) := answer transcript.session endLine
      ⟨transcript.output ++ invitation ++ reply.shown, transcript.errors, session⟩
  | line :: rest =>
      let (reply, session) := answer transcript.session line
      let next : Transcript :=
        ⟨transcript.output ++ invitation ++ reply.shown ++ reply.report.output,
          transcript.errors ++ reply.report.failureText coloured, session⟩
      if reply.stops = some true then next else converse coloured next rest

/-- The lines of an input. A line feed at its end begins no further line. -/
def lines (input : String) : List String :=
  let rec split (line : List Char) : List Char → List String
    | [] => if line.isEmpty then [] else [String.ofList line.reverse]
    | '\n' :: rest => String.ofList line.reverse :: split [] rest
    | first :: rest => split (first :: line) rest
  split [] input.toList

def run (coloured : Bool) (session : Session) (input : String) : Transcript :=
  converse coloured ⟨introduction, "", session⟩ (lines input)

end LoxInterpreter.Prompt
