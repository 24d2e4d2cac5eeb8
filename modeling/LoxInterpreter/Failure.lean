import LoxInterpreter.Execution.Machine
import LoxInterpreter.Grammar.Parser
import LoxInterpreter.Token.Scan

/-!
Contract: the ways in which source text can fail to run to its end, and how they are reported.

Owns: `Failure`, which joins the mistakes of all stages; its report; and the report in colour, which
marks a fault of a running program as a whole, and of any other report the part up to its first colon.
-/

namespace LoxInterpreter

/-- Why source text did not run to its end. -/
inductive Failure where
  | lexical (error : LexicalError)
  | grammar (error : Grammar.SyntaxError)
  | scope (error : ScopeError)
  /-- Running ended early. -/
  | stopped (signal : Signal)
deriving DecidableEq

/-- A mistake that is found before running: where it is, and what it is. -/
def Mistake.staticReport {Cause : Type} [Explained Cause] (mistake : Mistake Cause) : String :=
  let place :=
    if mistake.token.kind == .endOfInput then " at end" else " at '" ++ mistake.token.lexeme ++ "'"
  s!"[line {mistake.line}] Error" ++ place ++ ": " ++ mistake.message

def Mistake.faultReport {Cause : Type} [Explained Cause] (mistake : Mistake Cause) : String :=
  mistake.message ++ s!"\n[line {mistake.line}]"

namespace Failure

/-- Why running ended early, where no token is to blame. -/
def signalMessage : Signal → String
  | .stackOverflow => "Stack overflow."
  | .returned _ => "return escaped to top level; the resolver should have rejected it"
  | .brokenBinding .noSuchFrame => "A scope is missing."
  | .brokenBinding .noSuchName => "A variable is missing from its scope."
  | .outOfFuel => "The run took too long."
  | .fault error => error.message

def report : Failure → String
  | lexical error => error.summary
  | grammar error => error.staticReport
  | scope error => error.staticReport
  | stopped (.fault error) => error.faultReport
  | stopped signal => "Error: " ++ signalMessage signal

/-- A text in bold red. -/
def marked (text : String) : String := "\x1b[1m\x1b[31m" ++ text ++ "\x1b[0m"

/-- The characters up to and including the first colon with a blank behind it, and the others. -/
def splitAtColon : List Char → List Char × List Char
  | ':' :: ' ' :: rest => ([':', ' '], rest)
  | [] => ([], [])
  | first :: rest =>
      let (front, back) := splitAtColon rest
      (first :: front, back)

def colouredReport (failure : Failure) : String :=
  match failure with
  | stopped (.fault _) => marked failure.report
  | _ =>
      let (front, back) := splitAtColon failure.report.toList
      marked (String.ofList front) ++ String.ofList back

def render (coloured : Bool) (failure : Failure) : String :=
  if coloured then failure.colouredReport else failure.report

end Failure

end LoxInterpreter
