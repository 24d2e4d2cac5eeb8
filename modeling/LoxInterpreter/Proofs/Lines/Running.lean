import LoxInterpreter.Proofs.Execution.Ending
import LoxInterpreter.Proofs.Lines.Values

/-!
Contract: programs on other lines run alike.

Two machines stand for each other when their values differ in lines alone and one has printed something
before. What is run on the one does to it what the same on other lines does to the other: results and
signals come back on the other lines, and nothing else tells them apart. What the machines have told does
not matter.

Owns: `Machine.Moved`, `Run.Moves` with one law for each way of putting actions together,
`runProgram_moves`, and `runProgram_append`.
-/

namespace LoxInterpreter

/-- Whether a machine is another one with its values on other lines, and has printed something before. -/
structure Machine.Moved (move : Nat → Nat) (printed : String) (machine moved : Machine) : Prop where
  store : moved.store = machine.store.map (Value.moveLines move)
  environment : moved.environment = machine.environment
  output : moved.output = printed ++ machine.output
  clock : moved.clock = machine.clock
  clockReadings : moved.clockReadings = machine.clockReadings
  functionCount : moved.functionCount = machine.functionCount

/-- Telling changes nothing but the trace. -/
theorem Machine.exists_tell_eq (machine : Machine) (event : TraceEvent) :
    ∃ trace, machine.tell event = { machine with trace := trace } := by
  unfold tell
  split
  · exact ⟨_, rfl⟩
  · exact ⟨machine.trace, rfl⟩

namespace Machine.Moved

variable {move : Nat → Nat} {printed : String} {machine moved : Machine}

theorem told (stands : machine.Moved move printed moved) (event : TraceEvent) :
    (machine.tell event).Moved move printed moved := by
  have ⟨_, same⟩ := exists_tell_eq machine event
  rw [same]
  exact ⟨stands.store, stands.environment, stands.output, stands.clock, stands.clockReadings,
    stands.functionCount⟩

/-- Telling makes no difference, whatever is told. -/
theorem tell (stands : machine.Moved move printed moved) (event event' : TraceEvent) :
    (machine.tell event).Moved move printed (moved.tell event') := by
  have ⟨_, same⟩ := exists_tell_eq moved event'
  have toldFirst := stands.told event
  rw [same]
  exact ⟨toldFirst.store, toldFirst.environment, toldFirst.output, toldFirst.clock,
    toldFirst.clockReadings, toldFirst.functionCount⟩

theorem refl (machine : Machine) : machine.Moved id "" machine :=
  ⟨(Store.map_eq_self Value.moveLines_id _).symm, rfl, String.empty_append.symm, rfl, rfl, rfl⟩

theorem trans {first second third : Nat → Nat} (agree : ∀ line, second (first line) = third line)
    {between after : Machine} {printed' : String} (stands : machine.Moved first printed between)
    (behind : between.Moved second printed' after) : machine.Moved third (printed' ++ printed) after where
  store := by
    rw [behind.store, stands.store]
    exact Store.map_map (Value.moveLines_moveLines agree) _
  environment := behind.environment.trans stands.environment
  output := by rw [behind.output, stands.output, String.append_assoc]
  clock := behind.clock.trans stands.clock
  clockReadings := behind.clockReadings.trans stands.clockReadings
  functionCount := behind.functionCount.trans stands.functionCount

end Machine.Moved

namespace Run

variable {α β γ δ : Type} {move : Nat → Nat} {printed : String}

/-- Whether a run ends as another one, on other lines. -/
def EndsMoved (move : Nat → Nat) (printed : String) (change : α → β) :
    EStateM.Result Signal Machine α → EStateM.Result Signal Machine β → Prop
  | .ok value after, .ok value' after' => value' = change value ∧ after.Moved move printed after'
  | .error signal after, .error signal' after' =>
      signal' = signal.moveLines move ∧ after.Moved move printed after'
  | _, _ => False

/-- Whether an action does what another one does, on other lines. -/
def Moves (move : Nat → Nat) (printed : String) (change : α → β) (action : Run α) (moved : Run β) : Prop :=
  ∀ machine machine' : Machine, machine.Moved move printed machine' →
    EndsMoved move printed change (action machine) (moved machine')

/-! ## Laws -/

theorem moves_pure (change : α → β) (value : α) :
    Moves move printed change (pure value) (pure (change value)) :=
  fun _ _ stands => ⟨rfl, stands⟩

theorem moves_throw (change : α → β) (signal : Signal) :
    Moves move printed change (throw signal) (throw (signal.moveLines move)) :=
  fun _ _ stands => ⟨rfl, stands⟩

/-- What was printed in front stays in front of both parts, so the text is the same for each. -/
theorem Moves.bind {change : α → β} {change' : γ → δ} {first : Run α} {second : Run β}
    {next : α → Run γ} {next' : β → Run δ} (moves : Moves move printed change first second)
    (rest : ∀ value, Moves move printed change' (next value) (next' (change value))) :
    Moves move printed change' (first >>= next) (second >>= next') := by
  intro machine machine' stands
  rw [bind_apply, bind_apply]
  have ends := moves machine machine' stands
  revert ends
  cases first machine with
  | ok value between =>
      cases second machine' with
      | ok value' between' =>
          rintro ⟨rfl, standsBetween⟩
          exact rest value between between' standsBetween
      | error => exact False.elim
  | error signal between =>
      cases second machine' with
      | ok => exact False.elim
      | error signal' between' => exact id

theorem Moves.map {change : α → β} {change' : γ → δ} {first : Run α} {second : Run β} {build : α → γ}
    {build' : β → δ} (moves : Moves move printed change first second)
    (agree : ∀ value, build' (change value) = change' (build value)) :
    Moves move printed change' (do return build (← first)) (do return build' (← second)) :=
  moves.bind fun value => by
    rw [agree value]
    exact moves_pure change' _

/-- What is done with a machine may depend on all of it. -/
theorem moves_get_bind {change : α → β} {next next' : Machine → Run _}
    (rest : ∀ machine machine' : Machine, machine.Moved move printed machine' →
      Moves move printed change (next machine) (next' machine')) :
    Moves move printed change (get >>= next) (get >>= next') :=
  fun machine machine' stands => rest machine machine' stands machine machine' stands

theorem moves_modifyGet {change : α → β} {step : Machine → α × Machine} {step' : Machine → β × Machine}
    (stays : ∀ machine machine' : Machine, machine.Moved move printed machine' →
      (step' machine').1 = change (step machine).1 ∧
        (step machine).2.Moved move printed (step' machine').2) :
    Moves move printed change (modifyGet step) (modifyGet step') :=
  fun machine machine' stands => stays machine machine' stands

theorem moves_modify {step step' : Machine → Machine}
    (stays : ∀ machine machine' : Machine, machine.Moved move printed machine' →
      (step machine).Moved move printed (step' machine')) :
    Moves move printed id (modify step : Run Unit) (modify step' : Run Unit) :=
  fun machine machine' stands => ⟨rfl, stays machine machine' stands⟩

theorem moves_tell (event event' : TraceEvent) : Moves move printed id (tell event) (tell event') :=
  moves_modify fun _ _ stands => stands.tell event event'

/-- Environments are the same on all lines, and so are those to which runs come back. -/
theorem Moves.withEnvironment {change : α → β} {action : Run α} {moved : Run β}
    (moves : Moves move printed change action moved) (environment : Environment) :
    Moves move printed change (withEnvironment environment action)
      (withEnvironment environment moved) := by
  intro machine machine' stands
  have inside : Machine.Moved move printed { machine with environment := environment }
      { machine' with environment := environment } :=
    ⟨stands.store, rfl, stands.output, stands.clock, stands.clockReadings, stands.functionCount⟩
  have restored {after after' : Machine} (behind : after.Moved move printed after') :
      Machine.Moved move printed { after with environment := machine.environment }
        { after' with environment := machine'.environment } :=
    ⟨behind.store, stands.environment, behind.output, behind.clock, behind.clockReadings,
      behind.functionCount⟩
  have ends := moves _ _ inside
  unfold Run.withEnvironment
  dsimp only
  revert ends
  cases action { machine with environment := environment } with
  | ok value after =>
      cases moved { machine' with environment := environment } with
      | ok value' after' => exact fun ⟨same, behind⟩ => ⟨same, restored behind⟩
      | error => exact False.elim
  | error signal after =>
      cases moved { machine' with environment := environment } with
      | ok => exact False.elim
      | error signal' after' => exact fun ⟨same, behind⟩ => ⟨same, restored behind⟩

/-- A signal that is caught here is caught on other lines too, since moving keeps its kind. -/
theorem Moves.catchReturn {body moved : Run Unit} (moves : Moves move printed id body moved) :
    Moves move printed (Value.moveLines move) (catchReturn body) (catchReturn moved) := by
  intro machine machine' stands
  have ends := moves machine machine' stands
  unfold Run.catchReturn
  revert ends
  cases body machine with
  | ok value after =>
      cases moved machine' with
      | ok value' after' => exact fun ⟨_, behind⟩ => ⟨rfl, behind⟩
      | error => exact False.elim
  | error signal after =>
      cases moved machine' with
      | ok => exact False.elim
      | error signal' after' =>
          rintro ⟨rfl, behind⟩
          cases signal <;> exact ⟨rfl, behind⟩

theorem moves_ofOutcome (outcome : Outcome) (token : Token) :
    Moves move printed (Value.moveLines move) (ofOutcome outcome token)
      (ofOutcome (Outcome.moveLines move outcome) (token.moveLine move)) := by
  cases outcome with
  | ok value => exact moves_pure _ value
  | error cause => exact moves_throw _ (.fault ⟨cause, token⟩)

theorem moves_fault (change : α → β) (cause : RuntimeError.Cause) (token : Token) :
    Moves move printed change (fault cause token) (fault cause (token.moveLine move)) :=
  moves_throw change (.fault ⟨cause, token⟩)

theorem moves_print (text : String) : Moves move printed id (print text) (print text) := by
  apply moves_modify
  intro machine machine' stands
  refine ⟨stands.store, stands.environment, ?_, stands.clock, stands.clockReadings, stands.functionCount⟩
  simp only [stands.output, String.append_assoc]

theorem moves_define (name : String) (value : Value) :
    Moves move printed id (define name value) (define name (value.moveLines move)) := by
  apply moves_modify
  intro machine machine' stands
  refine ⟨?_, stands.environment, stands.output, stands.clock, stands.clockReadings, stands.functionCount⟩
  simp only [stands.store, stands.environment, Store.define_map]

theorem moves_defineIn (environment : Environment) (name : String) (value : Value) :
    Moves move printed id (defineIn environment name value)
      (defineIn environment name (value.moveLines move)) := by
  apply moves_modify
  intro machine machine' stands
  refine ⟨?_, stands.environment, stands.output, stands.clock, stands.clockReadings, stands.functionCount⟩
  simp only [stands.store, Store.define_map]

theorem moves_write (id' : FrameId) (name : String) (value : Value) :
    Moves move printed id (write id' name value) (write id' name (value.moveLines move)) := by
  apply moves_modify
  intro machine machine' stands
  refine ⟨?_, stands.environment, stands.output, stands.clock, stands.clockReadings, stands.functionCount⟩
  simp only [stands.store, Store.write_map]

theorem moves_extend (environment : Environment) :
    Moves move printed id (extend environment) (extend environment) := by
  apply moves_modifyGet
  intro machine machine' stands
  rw [stands.store, Store.extend_map]
  exact ⟨rfl, rfl, stands.environment, stands.output, stands.clock, stands.clockReadings,
    stands.functionCount⟩

theorem moves_readClock : Moves move printed id readClock readClock := by
  apply moves_modifyGet
  intro machine machine' stands
  rw [stands.clock, stands.clockReadings]
  exact ⟨rfl, stands.store, stands.environment, stands.output, rfl, rfl, stands.functionCount⟩

theorem moves_newIdentity : Moves move printed id newIdentity newIdentity := by
  apply moves_modifyGet
  intro machine machine' stands
  rw [stands.functionCount]
  exact ⟨rfl, stands.store, stands.environment, stands.output, stands.clock,
    stands.clockReadings, rfl⟩

theorem moves_defineParameters (environment : Environment) (names : List Name) (values : List Value) :
    Moves move printed id (defineParameters environment names values)
      (defineParameters environment (names.map (·.moveLine move)) (values.map (·.moveLines move))) := by
  induction names generalizing values with
  | nil => exact moves_pure id ()
  | cons name rest inductionHypothesis =>
      cases values with
      | nil => exact moves_pure id ()
      | cons value others =>
          exact (moves_defineIn environment name.text value).bind fun _ => inductionHypothesis others

theorem moves_readVariable (name : Name) (binding : Binding) :
    Moves move printed (Value.moveLines move) (readVariable name binding)
      (readVariable (name.moveLine move) binding) := by
  apply moves_get_bind
  intro machine machine' stands
  cases binding with
  | global =>
      simp only [stands.store, Store.lookup?_map, Name.text_moveLine]
      cases machine.store.lookup? Machine.globalEnvironment name.text with
      | some value => exact moves_pure _ value
      | none => exact moves_fault _ _ name.token
  | enclosing distance =>
      simp only [stands.store, stands.environment, Store.readAt_map, Name.text_moveLine]
      cases machine.store.readAt machine.environment distance name.text with
      | ok value => exact moves_pure _ value
      | error failure => exact moves_throw _ (.brokenBinding failure)

theorem moves_writeVariable (name : Name) (binding : Binding) (value : Value) :
    Moves move printed id (writeVariable name binding value)
      (writeVariable (name.moveLine move) binding (value.moveLines move)) := by
  cases binding with
  | global =>
      apply moves_get_bind
      intro machine machine' stands
      simp only [stands.store, Store.holder?_map, Name.text_moveLine]
      cases machine.store.holder? Machine.globalEnvironment name.text with
      | some id' => exact moves_write id' name.text value
      | none => exact moves_fault _ _ name.token
  | enclosing distance =>
      apply moves_get_bind
      intro machine machine' stands
      rw [stands.environment]
      cases machine.environment[distance]? with
      | some id' => exact moves_write id' name.text value
      | none => exact moves_throw _ (.brokenBinding .noSuchFrame)

theorem moves_collect {change : γ → δ} {shift : α → β} {action : α → Run γ} {moved : β → Run δ}
    (moves : ∀ item, Moves move printed change (action item) (moved (shift item))) (items : List α) :
    Moves move printed (List.map change) (collect action items) (collect moved (items.map shift)) := by
  induction items with
  | nil => exact moves_pure _ []
  | cons first rest inductionHypothesis =>
      exact (moves first).bind fun result => inductionHypothesis.map fun _ => rfl

theorem moves_each {shift : α → β} {action : α → Run Unit} {moved : β → Run Unit}
    (moves : ∀ item, Moves move printed id (action item) (moved (shift item))) (items : List α) :
    Moves move printed id (each action items) (each moved (items.map shift)) := by
  induction items with
  | nil => exact moves_pure id ()
  | cons first rest inductionHypothesis => exact (moves first).bind fun _ => inductionHypothesis

theorem moves_checkArity (expected given : Nat) (token : Token) :
    Moves move printed id (checkArity expected given token)
      (checkArity expected given (token.moveLine move)) := by
  unfold checkArity
  split
  · exact moves_pure id ()
  · exact moves_fault id _ token

theorem moves_callNative (function : Native) :
    Moves move printed (Value.moveLines move) (callNative function) (callNative function) := by
  cases function with
  | clock => exact moves_readClock.map fun _ => rfl

theorem Moves.callClosure {body moved : Run Unit} (moves : Moves move printed id body moved)
    (function : Closure) (arguments : List Value) :
    Moves move printed (Value.moveLines move) (callClosure function arguments body)
      (callClosure (function.moveLines move) (arguments.map (·.moveLines move)) moved) := by
  apply (moves_extend function.environment).bind
  intro environment
  apply (moves_defineParameters environment function.parameters arguments).bind
  intro _
  exact (moves.withEnvironment environment).catchReturn

theorem moves_defineFunction (name : Name) (parameters : List Name) (body : List (Statement Binding)) :
    Moves move printed id (defineFunction name parameters body)
      (defineFunction (name.moveLine move) (parameters.map (·.moveLine move))
        (Statement.listMoveLines move body)) := by
  apply moves_newIdentity.bind
  intro identity
  apply moves_get_bind
  intro machine machine' stands
  rw [stands.environment]
  apply (moves_define name.text (.closure ⟨identity, name.text, parameters, body,
    machine.environment⟩)).bind
  intro _
  exact moves_tell _ _

theorem Moves.inBlock {statements moved : Run Unit} (moves : Moves move printed id statements moved) :
    Moves move printed id (inBlock statements) (inBlock moved) := by
  apply moves_get_bind
  intro machine machine' stands
  rw [stands.environment]
  apply (moves_extend machine.environment).bind
  intro environment
  exact moves.withEnvironment environment

end Run

open Run

/-! ## Evaluation -/

section Evaluation

variable {move : Nat → Nat} {printed : String} {fuel : Nat}

/-- Whether all evaluation with some fuel goes alike on other lines. -/
structure EvaluationMoves (move : Nat → Nat) (printed : String) (fuel : Nat) : Prop where
  evaluates : ∀ calls expression, Moves move printed (Value.moveLines move)
    (evaluate fuel calls expression) (evaluate fuel calls (expression.moveLines move))
  executes : ∀ calls statement, Moves move printed id
    (execute fuel calls statement) (execute fuel calls (statement.moveLines move))

theorem EvaluationMoves.each (moves : EvaluationMoves move printed fuel) (calls : Nat)
    (statements : List (Statement Binding)) :
    Moves move printed id (Run.each (execute fuel calls) statements)
      (Run.each (execute fuel calls) (Statement.listMoveLines move statements)) := by
  rw [Statement.listMoveLines_eq_map]
  exact moves_each (moves.executes calls) statements

theorem EvaluationMoves.collect (moves : EvaluationMoves move printed fuel) (calls : Nat)
    (expressions : List (Expression Binding)) :
    Moves move printed (List.map (Value.moveLines move)) (Run.collect (evaluate fuel calls) expressions)
      (Run.collect (evaluate fuel calls) (Expression.listMoveLines move expressions)) := by
  rw [Expression.listMoveLines_eq_map]
  exact moves_collect (moves.evaluates calls) expressions

theorem EvaluationMoves.call (moves : EvaluationMoves move printed fuel) (calls : Nat)
    (callee : Expression Binding) (arguments : List (Expression Binding)) (line : Nat) :
    Moves move printed (Value.moveLines move) (evaluate (fuel + 1) calls (.call callee arguments line))
      (evaluate (fuel + 1) calls ((Expression.call callee arguments line).moveLines move)) := by
  apply (moves.evaluates calls callee).bind
  intro value
  apply (moves.collect calls arguments).bind
  intro values
  cases value with
  | closure function =>
      have sameArity : (function.moveLines move).arity = function.arity := List.length_map _
      dsimp only [Value.moveLines]
      rw [sameArity, List.length_map]
      apply (moves_checkArity function.arity values.length (.ofSymbol .rightParen line)).bind
      intro _
      apply (moves_tell _ _).bind
      intro _
      cases calls with
      | zero => exact moves_throw _ .stackOverflow
      | succ calls => exact (moves.each calls function.body).callClosure function values
  | native function =>
      dsimp only [Value.moveLines]
      rw [List.length_map]
      apply (moves_checkArity function.arity values.length (.ofSymbol .rightParen line)).bind
      intro _
      apply (moves_tell _ _).bind
      intro _
      exact moves_callNative function
  | nil | boolean | number | string => exact moves_fault _ .notCallable (.ofSymbol .rightParen line)

/-- The parts of an expression are evaluated with less fuel, and faults are at tokens that move with them. -/
theorem EvaluationMoves.evaluates_succ (moves : EvaluationMoves move printed fuel) (calls : Nat)
    (expression : Expression Binding) :
    Moves move printed (Value.moveLines move) (evaluate (fuel + 1) calls expression)
      (evaluate (fuel + 1) calls (expression.moveLines move)) := by
  cases expression with
  | constant constant =>
      have plain : Moves move printed (Value.moveLines move) (pure constant.value : Run Value)
          (pure (constant.value.moveLines move)) := moves_pure _ _
      rwa [Value.moveLines_value] at plain
  | grouping inner => exact moves.evaluates calls inner
  | «variable» name binding => exact moves_readVariable name binding
  | assignment name binding value =>
      apply (moves.evaluates calls value).bind
      intro result
      exact (moves_writeVariable name binding result).bind fun _ => moves_pure _ result
  | unary operator line operand =>
      apply (moves.evaluates calls operand).bind
      intro value
      rw [operator.apply_moveLines move]
      exact moves_ofOutcome _ (.ofSymbol operator.kind line)
  | binary operator line left right =>
      apply (moves.evaluates calls left).bind
      intro first
      apply (moves.evaluates calls right).bind
      intro second
      rw [operator.apply_moveLines move]
      exact moves_ofOutcome _ (.ofSymbol operator.kind line)
  | logical operator line left right =>
      apply (moves.evaluates calls left).bind
      intro first
      rw [operator.isDecidedBy_moveLines move]
      split
      · exact moves_pure _ first
      · exact moves.evaluates calls right
  | call callee arguments line => exact moves.call calls callee arguments line

theorem EvaluationMoves.executes_succ (moves : EvaluationMoves move printed fuel) (calls : Nat)
    (statement : Statement Binding) :
    Moves move printed id (execute (fuel + 1) calls statement)
      (execute (fuel + 1) calls (statement.moveLines move)) := by
  cases statement with
  | expression value => exact (moves.evaluates calls value).bind fun _ => moves_pure id ()
  | print value =>
      apply (moves.evaluates calls value).bind
      intro result
      rw [Value.text_moveLines]
      exact moves_print result.text
  | declaration name initializer =>
      cases initializer with
      | none => exact (moves_define name.text .nil).bind fun _ => moves_tell _ _
      | some initializer =>
          apply (moves.evaluates calls initializer).bind
          intro value
          exact (moves_define name.text value).bind fun _ => moves_tell _ _
  | function name parameters body => exact moves_defineFunction name parameters body
  | block items => exact (moves.each calls items).inBlock
  | conditional condition thenBranch elseBranch =>
      have moved : (Statement.conditional condition thenBranch elseBranch).moveLines move =
          .conditional (condition.moveLines move) (thenBranch.moveLines move)
            (elseBranch.map (·.moveLines move)) := by
        cases elseBranch <;> rfl
      rw [moved, execute_conditional, execute_conditional]
      apply (moves.evaluates calls condition).bind
      intro value
      apply (moves_tell _ _).bind
      intro _
      rw [Value.isTruthy_moveLines]
      split
      · exact moves.executes calls thenBranch
      · cases elseBranch with
        | none => exact moves_pure id ()
        | some elseBranch => exact moves.executes calls elseBranch
  | loop condition body =>
      apply (moves.evaluates calls condition).bind
      intro value
      rw [Value.isTruthy_moveLines]
      split
      · exact (moves.executes calls body).bind fun _ => moves.executes calls (.loop condition body)
      · exact moves_pure id ()
  | returning line value =>
      cases value with
      | none => exact moves_throw id (.returned .nil)
      | some value =>
          apply (moves.evaluates calls value).bind
          intro result
          exact moves_throw id (.returned result)

/-- With any fuel, evaluation goes alike on other lines. -/
theorem evaluation_moves (move : Nat → Nat) (printed : String) (fuel : Nat) :
    EvaluationMoves move printed fuel := by
  induction fuel with
  | zero => exact ⟨fun _ _ => moves_throw _ .outOfFuel, fun _ _ => moves_throw id .outOfFuel⟩
  | succ fuel inductionHypothesis =>
      exact ⟨inductionHypothesis.evaluates_succ, inductionHypothesis.executes_succ⟩

/-! ## Programs -/

/-- A program on other lines runs alike. -/
theorem runProgram_moves (move : Nat → Nat) (printed : String) (fuel callLimit : Nat)
    (program : List (Statement Binding)) :
    Moves move printed id (runProgram fuel callLimit program)
      (runProgram fuel callLimit (Statement.listMoveLines move program)) := by
  unfold runProgram
  apply (moves_tell _ _).bind
  intro _
  apply ((evaluation_moves move printed fuel).each callLimit program).bind
  intro _
  exact moves_tell _ _

theorem each_append (action : α → Run Unit) (first second : List α) :
    each action (first ++ second) = (each action first >>= fun _ => each action second) := by
  induction first with
  | nil => rfl
  | cons item rest inductionHypothesis =>
      rw [List.cons_append, each, each, inductionHypothesis, bind_assoc]

/-- Where a program has run to its end, another one behind it runs as it does on the machine that the
first one left. -/
theorem runProgram_append {first second : List (Statement Binding)} {machine machine' after behind : Machine}
    (ran : runProgram fuel callLimit first machine = .ok () after) (alike : machine.Moved id "" machine')
    (stands : behind.Moved move printed after) :
    EndsMoved move printed id (runProgram fuel callLimit second behind)
      (runProgram fuel callLimit (first ++ Statement.listMoveLines move second) machine') := by
  obtain ⟨_, between, ranFirst, told⟩ := bind_eq_ok_iff.mp
    (show (each (execute fuel callLimit) first >>= fun _ => tell .finished)
      (machine.tell (.started first.length)) = .ok () after from ran)
  have begun := alike.tell (.started first.length)
    (.started (first ++ Statement.listMoveLines move second).length)
  have ends := (evaluation_moves id "" fuel).each callLimit first _ _ begun
  rw [Statement.listMoveLines_id, ranFirst] at ends
  cases ranFirst' : each (execute fuel callLimit) first (machine'.tell
      (.started (first ++ Statement.listMoveLines move second).length)) with
  | error signal between' =>
      rw [ranFirst'] at ends
      exact ends.elim
  | ok _ between' =>
      rw [ranFirst'] at ends
      cases told
      have standsBetween := stands.trans (fun _ => rfl) (ends.2.told .finished)
      rw [String.empty_append] at standsBetween
      have goesOn : Moves move printed id (each (execute fuel callLimit) second >>= fun _ => tell .finished)
          (each (execute fuel callLimit) (Statement.listMoveLines move second) >>= fun _ => tell .finished) :=
        ((evaluation_moves move printed fuel).each callLimit second).bind fun _ => moves_tell _ _
      change EndsMoved move printed id _ ((each (execute fuel callLimit)
        (first ++ Statement.listMoveLines move second) >>= fun _ => tell .finished) (machine'.tell _))
      rw [each_append, bind_assoc, bind_apply, ranFirst']
      exact goesOn _ _ (standsBetween.told (.started second.length))

end Evaluation

end LoxInterpreter
