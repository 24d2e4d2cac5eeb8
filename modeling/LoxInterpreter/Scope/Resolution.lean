import LoxInterpreter.Mistake
import LoxInterpreter.Table
import LoxInterpreter.Tree

/-!
Contract: where each reference of a program is declared.

A program is walked once, in the order in which it is written, with a stack of the scopes that
enclose the current position. Each name of a scope is ready or not: it is not ready while its own
initializer is read. A reference gets the number of scopes between it and the innermost one that has
its name, or is global. Inside its own initializer a name means the one further out; where there is
none, reading it is a mistake.

Owns: `Binding`, `Resolver` (what is remembered from program to program), the three mistakes, and
`Resolver.resolve`.
Does not own: how references are followed when a program runs (`Execution`).
-/

namespace LoxInterpreter

/-- Where a reference finds its variable: among the globals, or so many scopes out. -/
inductive Binding where
  | global
  | enclosing (distance : Nat)
deriving DecidableEq, Repr

namespace Binding

/-- The number of scopes between a reference and its declaration, unless that is global. -/
def distance? : Binding → Option Nat
  | global => none
  | enclosing distance => some distance

def isEnclosing (binding : Binding) : Bool := binding.distance?.isSome

end Binding

inductive ScopeError.Cause where
  | readInOwnInitializer
  | returnOutsideFunction
  | alreadyDeclared
deriving DecidableEq, Repr

def ScopeError.Cause.message : ScopeError.Cause → String
  | readInOwnInitializer => "Can't read local variable in its own initializer."
  | returnOutsideFunction => "Can't return from top-level code."
  | alreadyDeclared => "Already a variable with this name in this scope."

instance : Explained ScopeError.Cause := ⟨ScopeError.Cause.message⟩

abbrev ScopeError := Mistake ScopeError.Cause

/-- The names of a scope, each ready or not. -/
abbrev Scope := Table Bool

/-- What is known at a position of a program, and from the programs before it. -/
structure Resolver where
  /-- The enclosing scopes, the innermost first. -/
  scopes : List Scope
  /-- The names declared outside all scopes. -/
  globals : Scope
  /-- Whether the position is in the body of a function. -/
  inFunction : Bool
  /-- What was decided for each reference, in the order of decision. -/
  decided : Array Binding

/-- A step of the walk, which may stop at a mistake. -/
abbrev Resolving := ExceptT ScopeError (StateM Resolver)

namespace Resolver

def ofKnown (names : List String) : Resolver where
  scopes := []
  globals := Table.ofNames true names
  inFunction := false
  decided := #[]

/-- How many references were found in a scope. -/
def localCount (resolver : Resolver) : Nat := resolver.decided.countP Binding.isEnclosing

/-- The resolver as it goes on after a mistake: outside all scopes and functions, and without the
globals whose declaration was not finished. -/
def recovered (resolver : Resolver) : Resolver :=
  { resolver with scopes := [], inFunction := false, globals := resolver.globals.filter id }

/-- The resolver that knows just these globals, all of them ready. -/
def withGlobals (resolver : Resolver) (names : List String) : Resolver :=
  { resolver with globals := Table.ofNames true names }

def distance? (scopes : List Scope) (name : String) : Option Nat :=
  scopes.findIdx? (·.contains name)

def bindingIn (scopes : List Scope) (name : String) : Binding :=
  match distance? scopes name with
  | some distance => .enclosing distance
  | none => .global

/-- The binding of a name that is read, if reading it is no mistake. -/
def readBinding? (resolver : Resolver) (name : String) : Option Binding :=
  match resolver.scopes with
  | [] => if resolver.globals.get? name = some false then none else some .global
  | innermost :: outer =>
      if innermost.get? name = some false then
        match distance? outer name with
        | some distance => some (.enclosing (distance + 1))
        | none => if resolver.globals.get? name = some true then some .global else none
      else some (bindingIn resolver.scopes name)

/-- The resolver with a name declared and not ready, unless the innermost scope has it. A global that
is ready stays so. -/
def declare? (resolver : Resolver) (name : String) : Option Resolver :=
  match resolver.scopes with
  | [] =>
      if resolver.globals.get? name = some true then some resolver
      else some { resolver with globals := resolver.globals.set name false }
  | innermost :: outer =>
      if innermost.contains name then none
      else some { resolver with scopes := innermost.set name false :: outer }

def define (resolver : Resolver) (name : String) : Resolver :=
  match resolver.scopes with
  | [] => { resolver with globals := resolver.globals.set name true }
  | innermost :: outer => { resolver with scopes := innermost.set name true :: outer }

def enterScope (resolver : Resolver) : Resolver :=
  { resolver with scopes := Table.empty :: resolver.scopes }

def leaveScope (resolver : Resolver) : Resolver :=
  { resolver with scopes := resolver.scopes.tail }

def decide (resolver : Resolver) (binding : Binding) : Resolver :=
  { resolver with decided := resolver.decided.push binding }

end Resolver

namespace Resolving

def stop {α : Type} (cause : ScopeError.Cause) (token : Token) : Resolving α := throw ⟨cause, token⟩

def decide (binding : Binding) : Resolving Binding := do
  modify (·.decide binding)
  return binding

def readReference (name : Name) : Resolving Binding := do
  match (← get).readBinding? name.text with
  | some binding => decide binding
  | none => stop .readInOwnInitializer name.token

/-- Decides a reference that is assigned to. Its name may be one that is not ready. -/
def assignedReference (name : Name) : Resolving Binding := do
  decide (Resolver.bindingIn (← get).scopes name.text)

/-- Declares a name; it is not ready yet. -/
def declare (name : Name) : Resolving Unit := do
  match (← get).declare? name.text with
  | some resolver => set resolver
  | none => stop .alreadyDeclared name.token

def define (name : Name) : Resolving Unit := modify (·.define name.text)

/-- Declares names that are ready at once. -/
def declareReady : List Name → Resolving Unit
  | [] => return
  | name :: rest => do
      declare name
      define name
      declareReady rest

/-- Walks what stands in a scope of its own. -/
def inScope {α : Type} (walk : Resolving α) : Resolving α := do
  modify Resolver.enterScope
  let result ← walk
  modify Resolver.leaveScope
  return result

def inBody {α : Type} (walk : Resolving α) : Resolving α := do
  let enclosing := (← get).inFunction
  modify fun resolver => { resolver with inFunction := true }
  let result ← inScope walk
  modify fun resolver => { resolver with inFunction := enclosing }
  return result

mutual

/-- An expression with its references decided. -/
def expression : Expression Unit → Resolving (Expression Binding)
  | .constant value => return .constant value
  | .grouping inner => return .grouping (← expression inner)
  | .variable name _ => return .variable name (← readReference name)
  | .assignment name _ value => do
      let value ← expression value
      return .assignment name (← assignedReference name) value
  | .unary operator line operand => return .unary operator line (← expression operand)
  | .binary operator line left right =>
      return .binary operator line (← expression left) (← expression right)
  | .logical operator line left right =>
      return .logical operator line (← expression left) (← expression right)
  | .call callee arguments line =>
      return .call (← expression callee) (← expressions arguments) line

def expressions : List (Expression Unit) → Resolving (List (Expression Binding))
  | [] => return []
  | first :: rest => return (← expression first) :: (← expressions rest)

end

def optionalExpression : Option (Expression Unit) → Resolving (Option (Expression Binding))
  | none => return none
  | some value => return some (← expression value)

mutual

def statement : Statement Unit → Resolving (Statement Binding)
  | .expression value => return .expression (← expression value)
  | .print value => return .print (← expression value)
  | .declaration name initializer => do
      declare name
      let initializer ← optionalExpression initializer
      define name
      return .declaration name initializer
  | .function name parameters body => do
      declare name
      define name
      let body ← inBody do
        declareReady parameters
        statements body
      return .function name parameters body
  | .block items => return .block (← inScope (statements items))
  | .conditional condition thenBranch none =>
      return .conditional (← expression condition) (← statement thenBranch) none
  | .conditional condition thenBranch (some elseBranch) =>
      return .conditional (← expression condition) (← statement thenBranch)
        (some (← statement elseBranch))
  | .loop condition body => return .loop (← expression condition) (← statement body)
  | .returning line value => do
      unless (← get).inFunction do
        stop .returnOutsideFunction (.ofSymbol (.keyword .returnWord) line)
      return .returning line (← optionalExpression value)

def statements : List (Statement Unit) → Resolving (List (Statement Binding))
  | [] => return []
  | first :: rest => return (← statement first) :: (← statements rest)

end

end Resolving

/-- Resolves a program, and says what the resolver knows afterwards. After a mistake it goes on as
if the position of the mistake had been left. -/
def Resolver.resolve (resolver : Resolver) (program : List (Statement Unit)) :
    Except ScopeError (List (Statement Binding)) × Resolver :=
  match (Resolving.statements program).run.run resolver with
  | (.ok resolved, after) => (.ok resolved, after)
  | (.error mistake, after) => (.error mistake, after.recovered)

end LoxInterpreter
