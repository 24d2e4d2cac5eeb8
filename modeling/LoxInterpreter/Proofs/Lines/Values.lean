import LoxInterpreter.Execution.Evaluation
import LoxInterpreter.Proofs.Lines.Moving

/-!
Contract: values and stores of which the functions stand on other lines.

Only the bodies of functions have lines. Operators look into no body, so what they do to moved values
is what they do to the values, moved.

Owns: `Table.map`, `Store.map`, `Value.moveLines`, `Signal.moveLines`, and how access and operators
deal with them.
Does not own: machines and runs on other lines (`Proofs.Lines.Running`).
-/

namespace LoxInterpreter

/-! ## Tables and stores with other contents -/

section Contents

variable {Content Other Third : Type}

/-- A table with its contents changed. -/
def Table.map (change : Content → Other) (table : Table Content) : Table Other where
  entries := table.entries.map fun entry => (entry.1, change entry.2)
  nodup_names := by
    rw [List.map_map]
    exact table.nodup_names

namespace Table

variable (change : Content → Other)

theorem ext_entries {first second : Table Content} (same : first.entries = second.entries) :
    first = second := by
  obtain ⟨entries, nodup⟩ := first
  cases same
  rfl

@[simp] theorem map_empty : (empty : Table Content).map change = empty := rfl

@[simp] theorem names_map (table : Table Content) : (table.map change).names = table.names := by
  unfold names map
  rw [List.map_map]
  rfl

private theorem find?_map (name : String) (entries : List (String × Content)) :
    find? name (entries.map fun entry => (entry.1, change entry.2)) = (find? name entries).map change := by
  induction entries with
  | nil => rfl
  | cons entry rest inductionHypothesis =>
      by_cases same : entry.1 = name
      · simp [find?, same]
      · simp [find?, same, inductionHypothesis]

@[simp] theorem get?_map (table : Table Content) (name : String) :
    (table.map change).get? name = (table.get? name).map change :=
  find?_map change name table.entries

@[simp] theorem contains_map (table : Table Content) (name : String) :
    (table.map change).contains name = table.contains name := by
  unfold contains
  rw [get?_map, Option.isSome_map]

private theorem put_map (name : String) (content : Content) (entries : List (String × Content)) :
    put name (change content) (entries.map fun entry => (entry.1, change entry.2)) =
      (put name content entries).map fun entry => (entry.1, change entry.2) := by
  induction entries with
  | nil => rfl
  | cons entry rest inductionHypothesis =>
      by_cases same : entry.1 = name
      · simp [put, same]
      · simp [put, same, inductionHypothesis]

theorem set_map (table : Table Content) (name : String) (content : Content) :
    (table.map change).set name (change content) = (table.set name content).map change :=
  ext_entries (put_map change name content table.entries)

theorem map_map {change : Content → Other} {next : Other → Third} {both : Content → Third}
    (agree : ∀ content, next (change content) = both content) (table : Table Content) :
    (table.map change).map next = table.map both := by
  apply ext_entries
  change List.map _ (List.map _ _) = List.map _ _
  rw [List.map_map]
  apply List.map_congr_left
  intro entry _
  simp [agree]

theorem map_eq_self {change : Content → Content} (same : ∀ content, change content = content)
    (table : Table Content) : table.map change = table := by
  apply ext_entries
  change List.map _ _ = _
  simp [same]

end Table

/-- A store with its contents changed. -/
def Store.map (change : Content → Other) (store : Store Content) : Store Other :=
  ⟨store.frames.map (·.map change)⟩

namespace Store

variable (change : Content → Other) (store : Store Content)

@[simp] theorem frame_map (id : FrameId) : (store.map change).frame id = (store.frame id).map change := by
  unfold frame map
  rw [Array.getElem?_map]
  cases store.frames[id]? <;> rfl

theorem extend_map (environment : Environment) :
    (store.map change).extend environment =
      ((store.extend environment).1, (store.extend environment).2.map change) := by
  simp [extend, map]

theorem write_map (id : FrameId) (name : String) (content : Content) :
    (store.map change).write id name (change content) = (store.write id name content).map change := by
  unfold write map
  congr 1
  apply Array.ext
  · simp
  · intro index _ _
    simp only [Array.getElem_modify, Array.getElem_map]
    split
    · exact Table.set_map change _ name content
    · rfl

theorem define_map (environment : Environment) (name : String) (content : Content) :
    (store.map change).define environment name (change content) =
      (store.define environment name content).map change := by
  cases environment with
  | nil => rfl
  | cons innermost outer => exact store.write_map change innermost name content

theorem holder?_map (environment : Environment) (name : String) :
    (store.map change).holder? environment name = store.holder? environment name := by
  unfold holder?
  simp

theorem lookup?_map (environment : Environment) (name : String) :
    (store.map change).lookup? environment name = (store.lookup? environment name).map change := by
  unfold lookup?
  rw [holder?_map]
  cases store.holder? environment name with
  | none => rfl
  | some id => simp

/-- Changing contents and reading one come to the same in either order. -/
theorem readAt_map (environment : Environment) (distance : Nat) (name : String) :
    (store.map change).readAt environment distance name =
      (store.readAt environment distance name).map change := by
  unfold readAt
  cases environment[distance]? with
  | none => rfl
  | some id =>
      simp only [frame_map, Table.get?_map]
      cases (store.frame id).get? name <;> rfl

theorem map_map {change : Content → Other} {next : Other → Third} {both : Content → Third}
    (agree : ∀ content, next (change content) = both content) (store : Store Content) :
    (store.map change).map next = store.map both := by
  unfold map
  rw [Array.map_map]
  congr 2
  funext table
  exact table.map_map agree

theorem map_eq_self {change : Content → Content} (same : ∀ content, change content = content)
    (store : Store Content) : store.map change = store := by
  have tables : (fun table : Table Content => table.map change) = id :=
    funext fun table => table.map_eq_self same
  unfold map
  rw [tables, Array.map_id]

end Store

end Contents

/-! ## Values -/

/-- A function of which the declaration stands on other lines. -/
def Closure.moveLines (move : Nat → Nat) (function : Closure) : Closure :=
  { function with
    parameters := function.parameters.map (·.moveLine move)
    body := Statement.listMoveLines move function.body }

/-- A value on other lines. -/
def Value.moveLines (move : Nat → Nat) : Value → Value
  | .closure function => .closure (function.moveLines move)
  | .nil => .nil
  | .boolean value => .boolean value
  | .number value => .number value
  | .string value => .string value
  | .native function => .native function

/-- A signal on other lines. -/
def Signal.moveLines (move : Nat → Nat) : Signal → Signal
  | .returned value => .returned (value.moveLines move)
  | .fault error => .fault (error.moveLine move)
  | .stackOverflow => .stackOverflow
  | .brokenBinding failure => .brokenBinding failure
  | .outOfFuel => .outOfFuel

namespace Value

variable (move : Nat → Nat)

theorem moveLines_moveLines {first second third : Nat → Nat}
    (agree : ∀ line, second (first line) = third line) (value : Value) :
    (value.moveLines first).moveLines second = value.moveLines third := by
  cases value with
  | closure function =>
      simp only [moveLines, Closure.moveLines, Name.map_moveLine_moveLine agree,
        Statement.listMoveLines_listMoveLines agree]
  | _ => rfl

theorem moveLines_id (value : Value) : value.moveLines id = value := by
  cases value with
  | closure function =>
      have names : function.parameters.map (·.moveLine id) = function.parameters := List.map_id _
      simp only [moveLines, Closure.moveLines, names, Statement.listMoveLines_id]
  | _ => rfl

/-- A value is printed without its lines. -/
@[simp] theorem text_moveLines (value : Value) : (value.moveLines move).text = value.text := by
  cases value <;> rfl

@[simp] theorem isTruthy_moveLines (value : Value) : (value.moveLines move).isTruthy = value.isTruthy := by
  cases value <;> rfl

@[simp] theorem equal_moveLines (first second : Value) :
    (first.moveLines move).equal (second.moveLines move) = first.equal second := by
  cases first <;> cases second <;> rfl

@[simp] theorem moveLines_value (constant : Constant) :
    (constant.value : Value).moveLines move = constant.value := by
  cases constant <;> rfl

end Value

/-! ## Operators -/

/-- What an operation gives, on other lines. -/
def Outcome.moveLines (move : Nat → Nat) (outcome : Outcome) : Outcome :=
  outcome.map (Value.moveLines move)

theorem UnaryOperator.apply_moveLines (move : Nat → Nat) (operator : UnaryOperator) (operand : Value) :
    operator.apply (operand.moveLines move) = Outcome.moveLines move (operator.apply operand) := by
  cases operator <;> cases operand <;> rfl

theorem Value.plus_moveLines (move : Nat → Nat) (first second : Value) :
    (first.moveLines move).plus (second.moveLines move) = Outcome.moveLines move (first.plus second) := by
  cases first <;> cases second <;> rfl

theorem Value.arithmetic_moveLines (move : Nat → Nat) {operation : Float → Float → Value}
    (plain : ∀ left right, (operation left right).moveLines move = operation left right)
    (first second : Value) :
    Value.arithmetic operation (first.moveLines move) (second.moveLines move) =
      Outcome.moveLines move (Value.arithmetic operation first second) := by
  cases first <;> cases second <;> first | rfl | exact congrArg Except.ok (plain _ _).symm

/-- Operators look at no line. Two functions that are moved are equal where they were. -/
theorem BinaryOperator.apply_moveLines (move : Nat → Nat) (operator : BinaryOperator)
    (first second : Value) :
    operator.apply (first.moveLines move) (second.moveLines move) =
      Outcome.moveLines move (operator.apply first second) := by
  cases operator with
  | equal | notEqual =>
      simp only [apply, Value.equal_moveLines]
      rfl
  | add => exact Value.plus_moveLines move first second
  | subtract | multiply | divide | greater | greaterEqual | less | lessEqual =>
      exact Value.arithmetic_moveLines move (fun _ _ => rfl) first second

theorem LogicalOperator.isDecidedBy_moveLines (move : Nat → Nat) (operator : LogicalOperator)
    (left : Value) : operator.isDecidedBy (left.moveLines move) = operator.isDecidedBy left := by
  cases operator <;> simp [isDecidedBy]

end LoxInterpreter
