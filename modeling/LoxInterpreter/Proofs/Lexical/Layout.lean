import LoxInterpreter.Proofs.Execution.Agreement
import LoxInterpreter.Proofs.Lexical.Evaluation
import LoxInterpreter.Proofs.Scope.Initializer

/-!
Contract: how the two memories of one program are alike.

Frames are filled while the code in them runs, whereas each location is used once. A layout lists for
each location the variable of a frame that it stands for. It is only ever continued: a name that is
declared later gets a slot of its own, and where a function has kept its scope, the slots of that scope
stay what they are.

Owns: `Layout`, values and machines that are alike in a layout, and what keeps machines alike.
Does not own: that runs keep them alike (`Proofs.Lexical.Simulation`).
-/

namespace LoxInterpreter.Lexical

/-- The variable of a frame that each location stands for. -/
abbrev Layout := List (FrameId × String)

/-- Whether a scope has the names of a context, at locations that stand for the variables that an
environment has for them. -/
structure Layout.Matches (layout : Layout) (context : Context) (environment : Environment)
    (scope : Scope) : Prop where
  enclosing : ∀ {name distance}, context.binding name = .enclosing distance →
    ∃ location id, scope.find? name = some location ∧ environment[distance]? = some id ∧
      layout[location]? = some (id, name)
  global : ∀ {name}, context.binding name = .global → scope.find? name = none

/-- Whether two functions were made by the same execution of the same declaration, as far as their
identities, their names and their texts tell. -/
structure SameFunction (function : Closure) (other : Closure Unit Scope) : Prop where
  identity : other.identity = function.identity
  name : other.name = function.name
  parameters : other.parameters = function.parameters
  body : other.body = Statement.listMapKnown (fun _ => ()) function.body

/-- Whether two values are equal, given when two functions count as equal. -/
inductive Alike (functions : Closure → Closure Unit Scope → Prop) :
    LoxInterpreter.Value → Value → Prop where
  | nil : Alike functions .nil .nil
  | boolean (value : Bool) : Alike functions (.boolean value) (.boolean value)
  | number (value : Float) : Alike functions (.number value) (.number value)
  | string (value : String) : Alike functions (.string value) (.string value)
  | closure {function : Closure} {other : Closure Unit Scope} (same : functions function other) :
      Alike functions (.closure function) (.closure other)
  | native (function : Native) : Alike functions (.native function) (.native function)

/-- Whether two functions are the same and have matching places for their bodies. -/
structure Layout.Functions (layout : Layout) (function : Closure) (other : Closure Unit Scope) :
    Prop where
  same : SameFunction function other
  distinct : (function.parameters.map Name.text).Nodup
  around : ∃ context, layout.Matches context function.environment other.environment ∧
    Statement.listBound ((function.parameters.map Name.text).reverse :: context) function.body
  others : Statement.listAssignsOwn true function.body = false

/-- Whether two values are the same, with matching places for the bodies of functions. -/
abbrev Layout.Related (layout : Layout) : LoxInterpreter.Value → Value → Prop :=
  Alike layout.Functions

/-- Whether code stands at matching places: outside all scopes, or in a frame that has slots for just
the names that are declared so far. -/
inductive Layout.Stands (layout : Layout) (frames : Nat) : Context → Environment → Scope → Prop where
  | outside : Stands layout frames [] Machine.globalEnvironment .outside
  | within {id : FrameId} {enclosing : Environment} {names : List String} {outer : Context}
      {reachable : List (String × Location)} (inner : id ≠ Machine.globalFrame) (made : id < frames)
      (found : layout.Matches (names :: outer) (id :: enclosing) (.within reachable))
      (slots : ∀ name, (id, name) ∈ layout ↔ name ∈ names) :
      Stands layout frames (names :: outer) (id :: enclosing) (.within reachable)

/-- Whether two machines are alike: each location has what the variable that it stands for has, and the
globals, the output, the clock and the count of functions agree. -/
structure Layout.Relates (layout : Layout) (machine : LoxInterpreter.Machine) (other : Machine) :
    Prop where
  used : other.used = layout.length
  nodup : layout.Nodup
  globals_made : Machine.globalFrame < machine.store.frames.size
  slot : ∀ id name, (id, name) ∈ layout → id ≠ Machine.globalFrame ∧ id < machine.store.frames.size
  content : ∀ location id name, layout[location]? = some (id, name) →
    ∃ value, (machine.store.frame id).get? name = some value ∧
      layout.Related value (other.cells location)
  globals : ∀ name, Option.Rel layout.Related (machine.globals.get? name) (other.globals.get? name)
  output : other.output = machine.output
  clock : other.clock = machine.clock
  clockReadings : other.clockReadings = machine.clockReadings
  functionCount : other.functionCount = machine.functionCount

/-! ## Values -/

theorem Alike.imp {functions functions' : Closure → Closure Unit Scope → Prop}
    (weaker : ∀ function other, functions function other → functions' function other)
    {value : LoxInterpreter.Value} {value' : Value} (alike : Alike functions value value') :
    Alike functions' value value' := by
  cases alike with
  | closure same => exact .closure (weaker _ _ same)
  | nil => exact .nil
  | boolean value => exact .boolean value
  | number value => exact .number value
  | string value => exact .string value
  | native function => exact .native function

namespace Alike

variable {left right : LoxInterpreter.Value} {left' right' : Value}

theorem text_eq (alike : Alike SameFunction left left') : left'.text = left.text := by
  cases alike with
  | closure same => simp only [Value.text, same.name]
  | _ => rfl

theorem isTruthy_eq (alike : Alike SameFunction left left') : left'.isTruthy = left.isTruthy := by
  cases alike <;> rfl

theorem isDecidedBy_eq (alike : Alike SameFunction left left') (operator : LogicalOperator) :
    operator.isDecidedBy left' = operator.isDecidedBy left := by
  cases operator <;> simp only [LogicalOperator.isDecidedBy, alike.isTruthy_eq]

theorem equal_eq (alike : Alike SameFunction left left') (alike' : Alike SameFunction right right') :
    left'.equal right' = left.equal right := by
  cases alike with
  | closure same =>
      cases alike' with
      | closure same' => simp only [Value.equal, same.identity, same'.identity]
      | _ => rfl
  | _ => cases alike' <;> rfl

end Alike

/-- Whether two operations give the same, which is no function. -/
inductive SameOutcome : Outcome → Outcome Unit Scope → Prop where
  | ok {value : LoxInterpreter.Value} {value' : Value}
      (same : Alike (fun _ _ => False) value value') : SameOutcome (.ok value) (.ok value')
  | error (cause : RuntimeError.Cause) : SameOutcome (.error cause) (.error cause)

theorem apply_unary_same {left : LoxInterpreter.Value} {left' : Value}
    (alike : Alike SameFunction left left') (operator : UnaryOperator) :
    SameOutcome (operator.apply left) (operator.apply left') := by
  cases operator with
  | not =>
      simp only [UnaryOperator.apply, alike.isTruthy_eq]
      exact .ok (.boolean _)
  | negate =>
      cases alike with
      | number value => exact .ok (.number _)
      | _ => exact .error _

theorem arithmetic_same {left right : LoxInterpreter.Value} {left' right' : Value}
    (alike : Alike SameFunction left left') (alike' : Alike SameFunction right right')
    {operation : Float → Float → LoxInterpreter.Value} {operation' : Float → Float → Value}
    (same : ∀ first second, Alike (fun _ _ => False) (operation first second) (operation' first second)) :
    SameOutcome (Value.arithmetic operation left right) (Value.arithmetic operation' left' right') := by
  cases alike with
  | number first =>
      cases alike' with
      | number second => exact .ok (same first second)
      | _ => exact .error _
  | _ => cases alike' <;> exact .error _

theorem plus_same {left right : LoxInterpreter.Value} {left' right' : Value}
    (alike : Alike SameFunction left left') (alike' : Alike SameFunction right right') :
    SameOutcome (left.plus right) (left'.plus right') := by
  cases alike with
  | number first =>
      cases alike' with
      | number second => exact .ok (.number _)
      | _ => exact .error _
  | string first =>
      cases alike' with
      | string second => exact .ok (.string _)
      | _ => exact .error _
  | _ => cases alike' <;> exact .error _

theorem apply_binary_same {left right : LoxInterpreter.Value} {left' right' : Value}
    (alike : Alike SameFunction left left') (alike' : Alike SameFunction right right')
    (operator : BinaryOperator) :
    SameOutcome (operator.apply left right) (operator.apply left' right') := by
  cases operator with
  | equal | notEqual =>
      simp only [BinaryOperator.apply, alike.equal_eq alike']
      exact .ok (.boolean _)
  | add => exact plus_same alike alike'
  | subtract | multiply | divide => exact arithmetic_same alike alike' fun _ _ => .number _
  | greater | greaterEqual | less | lessEqual =>
      exact arithmetic_same alike alike' fun _ _ => .boolean _

end LoxInterpreter.Lexical
