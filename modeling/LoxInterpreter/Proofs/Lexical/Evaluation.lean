import LoxInterpreter.Execution.Evaluation

/-!
Contract: what programs mean by names alone.

A scope says where the content of each variable in reach is, and never changes. A declaration within a
scope puts its content at a location of its own, and what stands behind it, up to the end of the block
or body, has a scope with one name more. A function keeps the scope behind its own declaration. A name
that a scope does not have is global, and looked up when it is used.

Owns: `Lexical.Scope`, `Lexical.Machine`, and `Lexical.evaluate` with `Lexical.execute`.
Does not own: that programs with resolved references do the same (`Proofs.Lexical.Simulation`).
-/

namespace LoxInterpreter.Lexical

abbrev Location := Nat

/-- The place of code: outside all scopes, or within one, with the variables in reach, the latest first. -/
inductive Scope where
  | outside
  | within (reachable : List (String × Location))

namespace Scope

/-- The variables in reach that are not global. -/
def reachable : Scope → List (String × Location)
  | outside => []
  | within reachable => reachable

/-- Where the content of a name is, unless the name is global. -/
def find? (scope : Scope) (name : String) : Option Location := scope.reachable.lookup name

def enter (scope : Scope) : Scope := .within scope.reachable

/-- The scope behind the declaration of a name. -/
def declare (scope : Scope) (name : String) (location : Location) : Scope :=
  match scope with
  | outside => outside
  | within reachable => within ((name, location) :: reachable)

end Scope

/-- A value, with functions that keep the scopes of their declarations. -/
abbrev Value := LoxInterpreter.Value Unit Scope

/-- The state of a running program. -/
structure Machine where
  /-- The contents of the locations. -/
  cells : Location → Value
  /-- How many locations are in use; these are the ones below. -/
  used : Nat
  globals : Table Value
  output : String
  clock : Nat → Float
  clockReadings : Nat
  functionCount : Nat

namespace Machine

def initial (clock : Nat → Float) : Machine where
  cells := fun _ => .nil
  used := 0
  globals := Native.all.foldl (fun table native => table.set native.name (.native native)) .empty
  output := ""
  clock := clock
  clockReadings := 0
  functionCount := 0

def write (machine : Machine) (location : Location) (value : Value) : Machine :=
  { machine with cells := fun other => if other = location then value else machine.cells other }

/-- The machine with a variable defined: a global one outside all scopes, and otherwise one at a
location that was not in use. -/
def define (machine : Machine) (scope : Scope) (name : String) (value : Value) : Machine :=
  match scope with
  | .outside => { machine with globals := machine.globals.set name value }
  | .within _ => { machine.write machine.used value with used := machine.used + 1 }

end Machine

inductive Signal where
  | returned (value : Value)
  | fault (error : RuntimeError)
  | stackOverflow
  | outOfFuel

abbrev Run := EStateM Signal Machine

namespace Run

variable {α : Type}

def fault (cause : RuntimeError.Cause) (token : Token) : Run α := throw (.fault ⟨cause, token⟩)

def ofOutcome (outcome : Outcome Unit Scope) (token : Token) : Run Value :=
  match outcome with
  | .ok value => return value
  | .error cause => fault cause token

def print (text : String) : Run Unit :=
  modify fun machine => { machine with output := machine.output ++ text ++ "\n" }

def readClock : Run Float :=
  modifyGet fun machine =>
    (machine.clock machine.clockReadings, { machine with clockReadings := machine.clockReadings + 1 })

/-- An identity that no function has yet. -/
def newIdentity : Run Nat :=
  modifyGet fun machine =>
    (machine.functionCount, { machine with functionCount := machine.functionCount + 1 })

/-- Declares a variable, and gives the scope behind its declaration. Its content may have that scope. -/
def declare (scope : Scope) (name : String) (content : Scope → Value) : Run Scope :=
  modifyGet fun machine =>
    let behind := scope.declare name machine.used
    (behind, machine.define scope name (content behind))

def readVariable (scope : Scope) (name : Name) : Run Value := do
  let machine ← get
  match scope.find? name.text with
  | some location => return machine.cells location
  | none =>
      match machine.globals.get? name.text with
      | some value => return value
      | none => fault (.undefinedVariable name.text) name.token

def writeVariable (scope : Scope) (name : Name) (value : Value) : Run Unit := do
  let machine ← get
  match scope.find? name.text with
  | some location => modify (·.write location value)
  | none =>
      if machine.globals.contains name.text then
        modify fun machine => { machine with globals := machine.globals.set name.text value }
      else fault (.undefinedVariable name.text) name.token

def declareParameters (scope : Scope) : List Name → List Value → Run Scope
  | name :: names, value :: values => do
      let behind ← declare scope name.text fun _ => value
      declareParameters behind names values
  | _, _ => return scope

/-- Makes a function with the scope behind its own declaration. -/
def declareFunction (scope : Scope) (name : Name) (parameters : List Name)
    (body : List (Statement Unit)) : Run Scope := do
  let identity ← newIdentity
  declare scope name.text fun behind => .closure ⟨identity, name.text, parameters, body, behind⟩

/-- Runs the body of a function. Its value is what it returns, or nil when it does not. -/
def catchReturn (body : Run Scope) : Run Value := fun machine =>
  match body machine with
  | .ok _ after => .ok .nil after
  | .error (.returned value) after => .ok value after
  | .error signal after => .error signal after

def callNative : Native → Run Value
  | .clock => return .number (← readClock)

def checkArity (expected given : Nat) (token : Token) : Run Unit :=
  if expected = given then return else fault (.wrongArgumentCount expected given) token

end Run

mutual

def evaluate (fuel calls : Nat) (scope : Scope) (expression : Expression Unit) : Run Value :=
  match fuel with
  | 0 => throw .outOfFuel
  | fuel + 1 =>
      match expression with
      | .constant constant => return constant.value
      | .grouping inner => evaluate fuel calls scope inner
      | .variable name _ => Run.readVariable scope name
      | .assignment name _ value => do
          let value ← evaluate fuel calls scope value
          Run.writeVariable scope name value
          return value
      | .unary operator line operand => do
          let operand ← evaluate fuel calls scope operand
          Run.ofOutcome (operator.apply operand) (.ofSymbol operator.kind line)
      | .binary operator line left right => do
          let left ← evaluate fuel calls scope left
          let right ← evaluate fuel calls scope right
          Run.ofOutcome (operator.apply left right) (.ofSymbol operator.kind line)
      | .logical operator _ left right => do
          let left ← evaluate fuel calls scope left
          if operator.isDecidedBy left then return left else evaluate fuel calls scope right
      | .call callee arguments line => do
          let callee ← evaluate fuel calls scope callee
          let arguments ← arguments.mapM (evaluate fuel calls scope)
          let token := Token.ofSymbol .rightParen line
          match callee with
          | .closure function =>
              Run.checkArity function.arity arguments.length token
              match calls with
              | 0 => throw .stackOverflow
              | calls + 1 => do
                  let inside ← Run.declareParameters function.environment.enter function.parameters
                    arguments
                  Run.catchReturn (function.body.foldlM (execute fuel calls) inside)
          | .native function =>
              Run.checkArity function.arity arguments.length token
              Run.callNative function
          | _ => Run.fault .notCallable token
termination_by structural fuel

/-- What a statement does in a scope, and the scope behind it. -/
def execute (fuel calls : Nat) (scope : Scope) (statement : Statement Unit) : Run Scope :=
  match fuel with
  | 0 => throw .outOfFuel
  | fuel + 1 =>
      match statement with
      | .expression value => do
          let _ ← evaluate fuel calls scope value
          return scope
      | .print value => do
          let value ← evaluate fuel calls scope value
          Run.print value.text
          return scope
      | .declaration name none => Run.declare scope name.text fun _ => .nil
      | .declaration name (some initializer) => do
          let value ← evaluate fuel calls scope initializer
          Run.declare scope name.text fun _ => value
      | .function name parameters body => Run.declareFunction scope name parameters body
      | .block items => do
          let _ ← items.foldlM (execute fuel calls) scope.enter
          return scope
      | .conditional condition thenBranch elseBranch => do
          let condition ← evaluate fuel calls scope condition
          if condition.isTruthy then
            let _ ← execute fuel calls scope thenBranch
            return scope
          else
            match elseBranch with
            | some branch =>
                let _ ← execute fuel calls scope branch
                return scope
            | none => return scope
      | .loop condition body => do
          let holds ← evaluate fuel calls scope condition
          if holds.isTruthy then
            let _ ← execute fuel calls scope body
            execute fuel calls scope (.loop condition body)
          else return scope
      | .returning _ none => throw (.returned .nil)
      | .returning _ (some value) => do
          let value ← evaluate fuel calls scope value
          throw (.returned value)
termination_by structural fuel

end

/-- What was observed of a program: the machine it leaves, and how it ended early if it did. -/
structure Observation where
  signal : Option Signal
  machine : Machine

/-- The machine that a result leaves, and how the program ended early if it did. -/
def Observation.ofResult (result : EStateM.Result Signal Machine Scope) : Observation :=
  match result with
  | .ok _ machine => ⟨none, machine⟩
  | .error signal machine => ⟨some signal, machine⟩

def run (program : List (Statement Unit)) (fuel callLimit : Nat) (clock : Nat → Float) : Observation :=
  .ofResult (program.foldlM (execute fuel callLimit) Scope.outside (Machine.initial clock))

end LoxInterpreter.Lexical
