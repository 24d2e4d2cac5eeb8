import LoxInterpreter.Execution.Machine

/-!
Contract: what expressions and statements do.

Operands and arguments are evaluated from left to right, each before the operation on them is
checked. A function runs in a frame of its own in front of the environment of its declaration; a block
in a frame of its own in front of the current one.

Both evaluators take the number of calls that may still be nested, and fuel: a bound on how deeply
evaluation may be nested in itself, where every turn of a loop counts as nested in the turn before.
Items that follow one another share their fuel.

Owns: `evaluate`, `execute`, and `runProgram`.
-/

namespace LoxInterpreter

/-- Whether a left operand alone decides what a logical operator gives. -/
def LogicalOperator.isDecidedBy {Known Around : Type} (operator : LogicalOperator)
    (left : Value Known Around) : Bool :=
  match operator with
  | or => left.isTruthy
  | and => !left.isTruthy

namespace Run

/-- Runs the statements of a block in a frame of their own. -/
def inBlock (statements : Run Unit) : Run Unit := do
  let environment ← extend (← get).environment
  withEnvironment environment statements

def callClosure (function : Closure) (arguments : List Value) (body : Run Unit) : Run Value := do
  let environment ← extend function.environment
  defineParameters environment function.parameters arguments
  catchReturn (withEnvironment environment body)

def callNative : Native → Run Value
  | .clock => return .number (← readClock)

def checkArity (expected given : Nat) (token : Token) : Run Unit :=
  if expected = given then return else fault (.wrongArgumentCount expected given) token

/-- Makes a function in the current environment, and defines it there. -/
def defineFunction (name : Name) (parameters : List Name) (body : List (Statement Binding)) :
    Run Unit := do
  let identity ← newIdentity
  let environment := (← get).environment
  define name.text (.closure ⟨identity, name.text, parameters, body, environment⟩)
  tell (.functionDefined name.text parameters.length)

end Run

mutual

def evaluate (fuel calls : Nat) (expression : Expression Binding) : Run Value :=
  match fuel with
  | 0 => throw .outOfFuel
  | fuel + 1 =>
      match expression with
      | .constant constant => return constant.value
      | .grouping inner => evaluate fuel calls inner
      | .variable name binding => Run.readVariable name binding
      | .assignment name binding value => do
          let value ← evaluate fuel calls value
          Run.writeVariable name binding value
          return value
      | .unary operator line operand => do
          let operand ← evaluate fuel calls operand
          Run.ofOutcome (operator.apply operand) (.ofSymbol operator.kind line)
      | .binary operator line left right => do
          let left ← evaluate fuel calls left
          let right ← evaluate fuel calls right
          Run.ofOutcome (operator.apply left right) (.ofSymbol operator.kind line)
      | .logical operator _ left right => do
          let left ← evaluate fuel calls left
          if operator.isDecidedBy left then return left else evaluate fuel calls right
      | .call callee arguments line => do
          let callee ← evaluate fuel calls callee
          let arguments ← Run.collect (evaluate fuel calls) arguments
          let token := Token.ofSymbol .rightParen line
          match callee with
          | .closure function =>
              Run.checkArity function.arity arguments.length token
              Run.tell (.closureCalled function.name arguments.length)
              match calls with
              | 0 => throw .stackOverflow
              | calls + 1 =>
                  Run.callClosure function arguments
                    (Run.each (execute fuel calls) function.body)
          | .native function =>
              Run.checkArity function.arity arguments.length token
              Run.tell (.nativeCalled function.name arguments.length)
              Run.callNative function
          | _ => Run.fault .notCallable token
termination_by structural fuel

def execute (fuel calls : Nat) (statement : Statement Binding) : Run Unit :=
  match fuel with
  | 0 => throw .outOfFuel
  | fuel + 1 =>
      match statement with
      | .expression value => do
          let _ ← evaluate fuel calls value
      | .print value => do
          let value ← evaluate fuel calls value
          Run.print value.text
      | .declaration name none => do
          Run.define name.text .nil
          Run.tell (.declared name.text .nil)
      | .declaration name (some initializer) => do
          let value ← evaluate fuel calls initializer
          Run.define name.text value
          Run.tell (.declared name.text value)
      | .function name parameters body => Run.defineFunction name parameters body
      | .block items => Run.inBlock (Run.each (execute fuel calls) items)
      | .conditional condition thenBranch elseBranch => do
          let condition ← evaluate fuel calls condition
          Run.tell (.conditionTested condition)
          if condition.isTruthy then execute fuel calls thenBranch
          else
            match elseBranch with
            | some branch => execute fuel calls branch
            | none => return
      | .loop condition body => do
          let holds ← evaluate fuel calls condition
          if holds.isTruthy then
            execute fuel calls body
            execute fuel calls (.loop condition body)
          else return
      | .returning _ none => throw (.returned .nil)
      | .returning _ (some value) => do
          let value ← evaluate fuel calls value
          throw (.returned value)
termination_by structural fuel

end

/-- Fuel that no program can use up within any time that could be waited for. -/
def ampleFuel : Nat := Nat.pow 2 62

/-- The limit on nested calls where none is asked for: the most of them that fit into a stack of 4000 frames,
since the least that a call takes is five (one for the call itself, for its function, its body, a statement
and an expression). No theorem depends on this choice. -/
def usualCallLimit : Nat := 4000 / 5

/-- What a program does: its statements, one after another. -/
def runProgram (fuel callLimit : Nat) (program : List (Statement Binding)) : Run Unit := do
  Run.tell (.started program.length)
  Run.each (execute fuel callLimit) program
  Run.tell .finished

end LoxInterpreter
