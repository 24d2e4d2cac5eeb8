import LoxInterpreter.Execution.Operation

/-!
Contract: the state of a running program, and the ways in which running can end early.

Owns: `Machine`, `Signal`, the trace with its levels, and `Run`: an action on a machine that ends with
a result or a signal, and with a machine in either case.
Does not own: what programs do (`Execution.Evaluation`).

A machine does not change by itself: the readings of its clock are given from the start, and taken
one by one.
-/

namespace LoxInterpreter

/-- The ways in which running can end early. -/
inductive Signal where
  /-- A function returns to its call. -/
  | returned (value : Value)
  | fault (error : RuntimeError)
  /-- Calls are nested too deeply. -/
  | stackOverflow
  /-- A reference was followed to where its variable is not. -/
  | brokenBinding (failure : AccessFailure)
  /-- The bound on the length of the run was met. -/
  | outOfFuel
deriving DecidableEq

inductive TraceEvent where
  | scanned (tokens : Nat)
  | parsed (statements : Nat)
  | resolved (references : Nat)
  | started (statements : Nat)
  | finished
  | declared (name : String) (value : Value)
  | functionDefined (name : String) (arity : Nat)
  | conditionTested (value : Value)
  | closureCalled (name : String) (arguments : Nat)
  | nativeCalled (name : String) (arguments : Nat)
deriving DecidableEq

namespace TraceEvent

/-- The lowest level of a trace that tells an event. -/
def level : TraceEvent → Nat
  | scanned _ | parsed _ | resolved _ | started _ | finished => 1
  | declared _ _ | functionDefined _ _ => 2
  | conditionTested _ | closureCalled _ _ | nativeCalled _ _ => 3

def text : TraceEvent → String
  | scanned tokens => s!"scanned {tokens} tokens"
  | parsed statements => s!"parsed {statements} statements"
  | resolved references => s!"resolved {references} local references"
  | started statements => s!"run {statements} statements"
  | finished => "run finished"
  | declared name value => "declare " ++ name ++ " = " ++ value.text
  | functionDefined name arity => "define function " ++ name ++ s!"/{arity}"
  | conditionTested value =>
      "if condition " ++ value.text ++ " -> " ++ (if value.isTruthy then "True" else "False")
  | closureCalled name arguments => "call <function " ++ name ++ s!"> with {arguments} arguments"
  | nativeCalled name arguments => "call <builtin " ++ name ++ s!"> with {arguments} arguments"

end TraceEvent

structure Machine where
  store : Store Value
  /-- The environment of the code that runs now. -/
  environment : Environment
  /-- What was printed. -/
  output : String
  /-- The level up to which events are told. -/
  traceLevel : Nat
  trace : Array TraceEvent
  /-- What the clock reads, from its first reading on. -/
  clock : Nat → Float
  clockReadings : Nat
  /-- How many functions were made. -/
  functionCount : Nat

namespace Machine

def globalFrame : FrameId := 0

/-- The environment in which the globals alone are in reach. -/
def globalEnvironment : Environment := [globalFrame]

/-- A machine before its first program: the native functions are the only globals. -/
def initial (traceLevel : Nat) (clock : Nat → Float) : Machine where
  store := Native.all.foldl
    (fun store native => store.define globalEnvironment native.name (.native native))
    (Store.empty.extend []).2
  environment := globalEnvironment
  output := ""
  traceLevel := traceLevel
  trace := #[]
  clock := clock
  clockReadings := 0
  functionCount := 0

def globals (machine : Machine) : Table Value := machine.store.frame globalFrame

/-- Whether the globals are the environment of the code that runs now. -/
def isAtGlobals (machine : Machine) : Bool := machine.environment == globalEnvironment

/-- The machine with an event told, if its trace tells events of that level. -/
def tell (machine : Machine) (event : TraceEvent) : Machine :=
  if event.level ≤ machine.traceLevel then { machine with trace := machine.trace.push event }
  else machine

def traceText (machine : Machine) : String :=
  machine.trace.foldl (fun text event => text ++ event.text ++ "\n") ""

end Machine

abbrev Run := EStateM Signal Machine

namespace Run

variable {α β : Type}

def tell (event : TraceEvent) : Run Unit := modify (·.tell event)

def print (text : String) : Run Unit :=
  modify fun machine => { machine with output := machine.output ++ text ++ "\n" }

def fault (cause : RuntimeError.Cause) (token : Token) : Run α := throw (.fault ⟨cause, token⟩)

def ofOutcome (outcome : Outcome) (token : Token) : Run Value :=
  match outcome with
  | .ok value => return value
  | .error cause => fault cause token

/-- Runs an action in an environment of its own. However the action ends, the environment is
afterwards what it was before. -/
def withEnvironment (environment : Environment) (action : Run α) : Run α := fun machine =>
  let enclosing := machine.environment
  match action { machine with environment := environment } with
  | .ok value after => .ok value { after with environment := enclosing }
  | .error signal after => .error signal { after with environment := enclosing }

/-- Runs the body of a function. Its value is what it returns, or nil when it does not. -/
def catchReturn (body : Run Unit) : Run Value := fun machine =>
  match body machine with
  | .ok _ after => .ok .nil after
  | .error (.returned value) after => .ok value after
  | .error signal after => .error signal after

/-- A new frame in front of an environment. -/
def extend (environment : Environment) : Run Environment :=
  modifyGet fun machine =>
    let (extended, store) := machine.store.extend environment
    (extended, { machine with store := store })

def defineIn (environment : Environment) (name : String) (value : Value) : Run Unit :=
  modify fun machine => { machine with store := machine.store.define environment name value }

def define (name : String) (value : Value) : Run Unit :=
  modify fun machine =>
    { machine with store := machine.store.define machine.environment name value }

def defineParameters (environment : Environment) : List Name → List Value → Run Unit
  | name :: names, value :: values => do
      defineIn environment name.text value
      defineParameters environment names values
  | _, _ => return

def readClock : Run Float :=
  modifyGet fun machine =>
    (machine.clock machine.clockReadings, { machine with clockReadings := machine.clockReadings + 1 })

/-- An identity that no function has yet. -/
def newIdentity : Run Nat :=
  modifyGet fun machine =>
    (machine.functionCount, { machine with functionCount := machine.functionCount + 1 })

/-- The value of a variable, found as its binding says. -/
def readVariable (name : Name) (binding : Binding) : Run Value := do
  let machine ← get
  match binding with
  | .global =>
      match machine.store.lookup? Machine.globalEnvironment name.text with
      | some value => return value
      | none => fault (.undefinedVariable name.text) name.token
  | .enclosing distance =>
      match machine.store.readAt machine.environment distance name.text with
      | .ok value => return value
      | .error failure => throw (.brokenBinding failure)

def write (id : FrameId) (name : String) (value : Value) : Run Unit :=
  modify fun machine => { machine with store := machine.store.write id name value }

/-- Changes a variable, found as its binding says. -/
def writeVariable (name : Name) (binding : Binding) (value : Value) : Run Unit := do
  match binding with
  | .global =>
      match (← get).store.holder? Machine.globalEnvironment name.text with
      | some id => write id name.text value
      | none => fault (.undefinedVariable name.text) name.token
  | .enclosing distance =>
      match (← get).environment[distance]? with
      | some id => write id name.text value
      | none => throw (.brokenBinding .noSuchFrame)

def each (action : α → Run Unit) : List α → Run Unit
  | [] => return
  | first :: rest => do
      action first
      each action rest

/-- Runs an action on each item, from first to last, and collects the results. -/
def collect (action : α → Run β) : List α → Run (List β)
  | [] => return []
  | first :: rest => do
      let result ← action first
      return result :: (← collect action rest)

end Run

end LoxInterpreter
