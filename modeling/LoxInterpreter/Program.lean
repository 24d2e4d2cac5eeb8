import LoxInterpreter.Execution.Evaluation
import LoxInterpreter.Failure
import LoxInterpreter.Grammar.Statement
import LoxInterpreter.Tree.Reference

/-!
Contract: whole programs, each on a machine of its own.

The stages follow one another, and the first mistake of the first stage that makes one is the failure
of the program.

Owns: reading a source as a tree, running a source, running a tree of which no references were
resolved, and the table of resolved references.
Does not own: machines that outlive a program (`Session`).
-/

namespace LoxInterpreter

/-- The tree of a source, or the first mistake in it. -/
def Source.read (source : Source) : Except Failure (List (Statement Unit)) :=
  let scan := source.scan
  match scan.error with
  | some error => .error (.lexical error)
  | none =>
      let reading := Grammar.read scan.tokens
      match reading.errors with
      | error :: _ => .error (.grammar error)
      | [] => .ok reading.statements

structure Observation where
  failure : Option Failure
  machine : Machine

namespace Observation

/-- The machine that a result leaves, and why the program ended early if it did. -/
def ofResult (result : EStateM.Result Signal Machine Unit) : Observation :=
  match result with
  | .ok _ machine => ⟨none, machine⟩
  | .error signal machine => ⟨some (.stopped signal), machine⟩

end Observation

def Source.run (source : Source) (fuel traceLevel : Nat) (clock : Nat → Float)
    (callLimit : Nat := usualCallLimit) : Observation :=
  let machine := Machine.initial traceLevel clock
  match source.read with
  | .error failure => ⟨some failure, machine⟩
  | .ok program =>
      match (Resolver.ofKnown machine.globals.names).resolve program with
      | (.error error, _) => ⟨some (.scope error), machine⟩
      | (.ok resolved, _) => .ofResult (runProgram fuel callLimit resolved machine)

/-- Runs the statements of a source that can be read, taking every reference for a global one. -/
def Source.runUnresolved (source : Source) (fuel : Nat) (clock : Nat → Float)
    (callLimit : Nat := usualCallLimit) : Except LexicalError Observation :=
  let scan := source.scan
  match scan.error with
  | some error => .error error
  | none =>
      let program := (Grammar.read scan.tokens).statements
      let global := Statement.listMapKnown (fun _ => Binding.global) program
      .ok (.ofResult (runProgram fuel callLimit global (Machine.initial 0 clock)))

/-- The references of a program with the distances decided for them, in written order. Where a mistake
ended the decisions, the references behind it have no distance. -/
def Resolver.distances (resolver : Resolver) (program : List (Statement Unit)) :
    List (Reference (Option Nat)) :=
  match resolver.resolve program with
  | (.ok resolved, _) =>
      Statement.listReferences (Statement.listMapKnown Binding.distance? resolved)
  | (.error _, after) =>
      let decided := after.decided.toList.drop resolver.decided.size
      let annotated := ((Statement.listAnnotate program).run (decided.map Binding.distance?)).1
      Statement.listReferences (Statement.listMapKnown Option.join annotated)

def Resolver.ofNatives : Resolver := .ofKnown (Native.all.map Native.name)

end LoxInterpreter
