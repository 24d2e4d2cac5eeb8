import LoxInterpreter.Proofs.Document.Equality
import LoxInterpreter.Proofs.Grammar.Numerals
import LoxInterpreter.Proofs.Grammar.Windows
import LoxInterpreter.Proofs.Lines.Sessions
import LoxInterpreter.Proofs.Number.Equality
import LoxInterpreter.Tree.Document

/-!
Contract: the document of a program decides what the program does.

But for lines, a tree can be told from its document: each construct is named, what may be missing is null
where it is, and operators have different symbols. So two programs whose documents are equal without their
lines are the same program on other lines, and resolve and run alike.

Owns: `Tree.eq_of_alike`, `Observation.Alike`, and `document_decides`.
Does not own: equality of documents (`Proofs.Document.Equality`), nor programs on other lines
(`Proofs.Lines.Resolving`, `Proofs.Lines.Running`).
-/

namespace LoxInterpreter

/-! ## Parts that have no lines -/

/-- Whether numbers of two lists are the same where they are equal as numbers. -/
def Number.Exact (first second : List Float) : Prop :=
  ∀ value ∈ first, ∀ value' ∈ second, (value == value') = true → value = value'

theorem Number.Exact.append {first first' second second' : List Float}
    (exact : Exact (first ++ second) (first' ++ second')) : Exact first first' ∧ Exact second second' :=
  ⟨fun value member value' member' =>
    exact value (List.mem_append_left _ member) value' (List.mem_append_left _ member'),
  fun value member value' member' =>
    exact value (List.mem_append_right _ member) value' (List.mem_append_right _ member')⟩

theorem UnaryOperator.eq_of_symbol {first second : UnaryOperator}
    (same : first.kind.symbol = second.kind.symbol) : first = second := by
  cases first <;> cases second <;> first | rfl | exact absurd same (by decide)

theorem BinaryOperator.eq_of_symbol {first second : BinaryOperator}
    (same : first.kind.symbol = second.kind.symbol) : first = second := by
  cases first <;> cases second <;> first | rfl | exact absurd same (by decide)

theorem LogicalOperator.eq_of_symbol {first second : LogicalOperator}
    (same : first.kind.symbol = second.kind.symbol) : first = second := by
  cases first <;> cases second <;> first | rfl | exact absurd same (by decide)

theorem Constant.eq_of_alike {first second : Constant} (exact : Number.Exact first.numbers second.numbers)
    (alike : first.document.Alike second.document) : first = second := by
  cases first <;> cases second
  case number.number value value' =>
    exact congrArg Constant.number (exact value List.mem_cons_self value' List.mem_cons_self alike.real_beq)
  all_goals
    cases alike
    try rfl

theorem Name.eq_of_alike {first second : Name} (alike : first.document.Alike second.document) :
    first.withoutLine = second.withoutLine := by
  have text : Document.Alike (.string first.text) (.string second.text) :=
    alike.field "lexeme" (by decide) rfl rfl
  exact congrArg (Name.mk · 0) text.string_eq

theorem Name.list_eq_of_alike : (first second : List Name) →
    List.Forall₂ Document.Alike (first.map fun name => .string name.text)
      (second.map fun name => .string name.text) →
    first.map Name.withoutLine = second.map Name.withoutLine
  | [], [], _ => rfl
  | first :: rest, second :: rest', .cons alike others => by
      have sameText : first.text = second.text := Document.Same.string_eq alike
      exact congrArg₂ List.cons (congrArg (Name.mk · 0) sameText) (list_eq_of_alike rest rest' others)

/-! ## Expressions -/

section Trees

variable {Known : Type}

/-- What a construct is called in a document. -/
def Expression.form : Expression Known → String
  | .constant _ => "Literal"
  | .grouping _ => "Grouping"
  | .variable _ _ => "Variable"
  | .assignment _ _ _ => "Assign"
  | .unary _ _ _ => "Unary"
  | .binary _ _ _ _ => "Binary"
  | .logical _ _ _ _ => "Logical"
  | .call _ _ _ => "Call"

theorem Expression.field?_type (expression : Expression Known) :
    expression.document.field? "type" = some (.string expression.form) := by
  cases expression <;> rfl

/-- What a construct is called in a document. -/
def Statement.form : Statement Known → String
  | .expression _ => "Expression"
  | .print _ => "Print"
  | .declaration _ _ => "Var"
  | .function _ _ _ => "Function"
  | .block _ => "Block"
  | .conditional _ _ _ => "If"
  | .loop _ _ => "While"
  | .returning _ _ => "Return"

theorem Statement.field?_type (statement : Statement Known) :
    statement.document.field? "type" = some (.string statement.form) := by
  cases statement with
  | conditional condition thenBranch elseBranch => cases elseBranch <;> rfl
  | _ => rfl

end Trees

theorem Expression.form_eq {first second : Expression Unit} (alike : first.document.Alike second.document) :
    first.form = second.form :=
  (alike.field "type" (by decide) first.field?_type second.field?_type).string_eq

theorem Statement.form_eq {first second : Statement Unit} (alike : first.document.Alike second.document) :
    first.form = second.form :=
  (alike.field "type" (by decide) first.field?_type second.field?_type).string_eq

mutual

/-- An expression can be told from its document, but for its lines. -/
theorem Expression.eq_of_alike : (first second : Expression Unit) → Number.Exact first.numbers second.numbers →
    first.document.Alike second.document → first.withoutLines = second.withoutLines
  | .constant value, second, exact, alike => by
      cases second with
      | constant value' =>
          have sameValue : value.document.Alike value'.document := alike.field "value" (by decide) rfl rfl
          exact congrArg Expression.constant (Constant.eq_of_alike exact sameValue)
      | _ => exact absurd (form_eq alike) (by simp [Expression.form])
  | .grouping inner, second, exact, alike => by
      cases second with
      | grouping inner' =>
          have sameInner : inner.document.Alike inner'.document := alike.field "expression" (by decide) rfl rfl
          exact congrArg Expression.grouping (inner.eq_of_alike inner' exact sameInner)
      | _ => exact absurd (form_eq alike) (by simp [Expression.form])
  | .variable name _, second, exact, alike => by
      cases second with
      | «variable» name' _ =>
          have sameName : name.document.Alike name'.document := alike.field "name" (by decide) rfl rfl
          exact congrArg (Expression.variable · ()) (Name.eq_of_alike sameName)
      | _ => exact absurd (form_eq alike) (by simp [Expression.form])
  | .assignment name _ value, second, exact, alike => by
      cases second with
      | assignment name' _ value' =>
          have sameName : name.document.Alike name'.document := alike.field "name" (by decide) rfl rfl
          have sameValue : value.document.Alike value'.document := alike.field "value" (by decide) rfl rfl
          exact congrArg₂ (Expression.assignment · () ·) (Name.eq_of_alike sameName)
            (value.eq_of_alike value' exact sameValue)
      | _ => exact absurd (form_eq alike) (by simp [Expression.form])
  | .unary operator line operand, second, exact, alike => by
      cases second with
      | unary operator' line' operand' =>
          have sameSymbol : Document.Alike (.string operator.kind.symbol) (.string operator'.kind.symbol) :=
            alike.field "operator" (by decide) rfl rfl
          have sameOperand : operand.document.Alike operand'.document := alike.field "right" (by decide) rfl rfl
          exact congrArg₂ (Expression.unary · 0 ·) (UnaryOperator.eq_of_symbol sameSymbol.string_eq)
            (operand.eq_of_alike operand' exact sameOperand)
      | _ => exact absurd (form_eq alike) (by simp [Expression.form])
  | .binary operator line left right, second, exact, alike => by
      cases second with
      | binary operator' line' left' right' =>
          have sameSymbol : Document.Alike (.string operator.kind.symbol) (.string operator'.kind.symbol) :=
            alike.field "operator" (by decide) rfl rfl
          have sameLeft : left.document.Alike left'.document := alike.field "left" (by decide) rfl rfl
          have sameRight : right.document.Alike right'.document := alike.field "right" (by decide) rfl rfl
          rw [BinaryOperator.eq_of_symbol sameSymbol.string_eq]
          exact congrArg₂ (Expression.binary operator' 0 · ·) (left.eq_of_alike left' exact.append.1 sameLeft)
            (right.eq_of_alike right' exact.append.2 sameRight)
      | _ => exact absurd (form_eq alike) (by simp [Expression.form])
  | .logical operator line left right, second, exact, alike => by
      cases second with
      | logical operator' line' left' right' =>
          have sameSymbol : Document.Alike (.string operator.kind.symbol) (.string operator'.kind.symbol) :=
            alike.field "operator" (by decide) rfl rfl
          have sameLeft : left.document.Alike left'.document := alike.field "left" (by decide) rfl rfl
          have sameRight : right.document.Alike right'.document := alike.field "right" (by decide) rfl rfl
          rw [LogicalOperator.eq_of_symbol sameSymbol.string_eq]
          exact congrArg₂ (Expression.logical operator' 0 · ·) (left.eq_of_alike left' exact.append.1 sameLeft)
            (right.eq_of_alike right' exact.append.2 sameRight)
      | _ => exact absurd (form_eq alike) (by simp [Expression.form])
  | .call callee arguments line, second, exact, alike => by
      cases second with
      | call callee' arguments' line' =>
          have sameCallee : callee.document.Alike callee'.document := alike.field "callee" (by decide) rfl rfl
          have sameArguments : Document.Alike (.array (Expression.documents arguments))
              (.array (Expression.documents arguments')) := alike.field "arguments" (by decide) rfl rfl
          exact congrArg₂ (Expression.call · · 0) (callee.eq_of_alike callee' exact.append.1 sameCallee)
            (Expression.list_eq_of_alike arguments arguments' exact.append.2 sameArguments.items)
      | _ => exact absurd (form_eq alike) (by simp [Expression.form])

theorem Expression.list_eq_of_alike : (first second : List (Expression Unit)) →
    Number.Exact (Expression.listNumbers first) (Expression.listNumbers second) →
    List.Forall₂ Document.Alike (Expression.documents first) (Expression.documents second) →
    Expression.listMoveLines (fun _ => 0) first = Expression.listMoveLines (fun _ => 0) second
  | [], [], _, _ => rfl
  | first :: rest, second :: rest', exact, .cons alike others =>
      congrArg₂ List.cons (first.eq_of_alike second exact.append.1 alike)
        (Expression.list_eq_of_alike rest rest' exact.append.2 others)

end

/-- An expression that is missing is told from one that is not. -/
theorem Expression.optional_eq_of_alike (first second : Option (Expression Unit))
    (exact : Number.Exact (Expression.optionalNumbers first) (Expression.optionalNumbers second))
    (alike : (Expression.optionalDocument first).Alike (Expression.optionalDocument second)) :
    first.map Expression.withoutLines = second.map Expression.withoutLines := by
  cases first with
  | none =>
      cases second with
      | none => rfl
      | some second => exact absurd (second.field?_type.symm.trans (alike.field?_of_null "type")) (by simp)
  | some first =>
      cases second with
      | none => exact absurd (first.field?_type.symm.trans (alike.field?_of_to_null "type")) (by simp)
      | some second => exact congrArg some (first.eq_of_alike second exact alike)

/-! ## Statements -/

mutual

/-- A statement can be told from its document, but for its lines. -/
theorem Statement.eq_of_alike : (first second : Statement Unit) → Number.Exact first.numbers second.numbers →
    first.document.Alike second.document → first.withoutLines = second.withoutLines
  | .expression value, second, exact, alike => by
      cases second with
      | expression value' =>
          have sameValue : value.document.Alike value'.document := alike.field "expression" (by decide) rfl rfl
          exact congrArg Statement.expression (value.eq_of_alike value' exact sameValue)
      | _ => exact absurd (form_eq alike) (by simp [Statement.form])
  | .print value, second, exact, alike => by
      cases second with
      | print value' =>
          have sameValue : value.document.Alike value'.document := alike.field "expression" (by decide) rfl rfl
          exact congrArg Statement.print (value.eq_of_alike value' exact sameValue)
      | _ => exact absurd (form_eq alike) (by simp [Statement.form])
  | .declaration name initializer, second, exact, alike => by
      cases second with
      | declaration name' initializer' =>
          have sameName : name.document.Alike name'.document := alike.field "name" (by decide) rfl rfl
          have sameInitializer : (Expression.optionalDocument initializer).Alike
              (Expression.optionalDocument initializer') := alike.field "initializer" (by decide) rfl rfl
          exact congrArg₂ Statement.declaration (Name.eq_of_alike sameName)
            (Expression.optional_eq_of_alike initializer initializer' exact sameInitializer)
      | _ => exact absurd (form_eq alike) (by simp [Statement.form])
  | .function name parameters body, second, exact, alike => by
      cases second with
      | function name' parameters' body' =>
          have sameName : name.document.Alike name'.document := alike.field "name" (by decide) rfl rfl
          have sameParameters : Document.Alike (.array (parameters.map fun parameter => .string parameter.text))
              (.array (parameters'.map fun parameter => .string parameter.text)) :=
            alike.field "params" (by decide) rfl rfl
          have sameBody : Document.Alike (.array (Statement.documents body))
              (.array (Statement.documents body')) :=
            alike.field "body" (by decide) rfl rfl
          have names := Name.list_eq_of_alike parameters parameters' sameParameters.items
          have bodies := Statement.list_eq_of_alike body body' exact sameBody.items
          change Statement.function name.withoutLine (parameters.map Name.withoutLine) _ =
            Statement.function name'.withoutLine (parameters'.map Name.withoutLine) _
          rw [Name.eq_of_alike sameName, names, bodies]
      | _ => exact absurd (form_eq alike) (by simp [Statement.form])
  | .block items, second, exact, alike => by
      cases second with
      | block items' =>
          have sameItems : Document.Alike (.array (Statement.documents items))
              (.array (Statement.documents items')) :=
            alike.field "statements" (by decide) rfl rfl
          exact congrArg Statement.block (Statement.list_eq_of_alike items items' exact sameItems.items)
      | _ => exact absurd (form_eq alike) (by simp [Statement.form])
  | .conditional condition thenBranch none, second, exact, alike => by
      cases second with
      | conditional condition' thenBranch' elseBranch' =>
          cases elseBranch' with
          | none =>
              have sameCondition : condition.document.Alike condition'.document :=
                alike.field "condition" (by decide) rfl rfl
              have sameThen : thenBranch.document.Alike thenBranch'.document :=
                alike.field "then_branch" (by decide) rfl rfl
              exact congrArg₂ (Statement.conditional · · none)
                (condition.eq_of_alike condition' exact.append.1 sameCondition)
                (thenBranch.eq_of_alike thenBranch' exact.append.2 sameThen)
          | some elseBranch' =>
              have sameElse : Document.Alike .null elseBranch'.document :=
                alike.field "else_branch" (by decide) rfl rfl
              exact absurd (elseBranch'.field?_type.symm.trans (sameElse.field?_of_null "type")) (by simp)
      | _ => exact absurd (form_eq alike) (by simp [Statement.form])
  | .conditional condition thenBranch (some elseBranch), second, exact, alike => by
      cases second with
      | conditional condition' thenBranch' elseBranch' =>
          cases elseBranch' with
          | none =>
              have sameElse : Document.Alike elseBranch.document .null :=
                alike.field "else_branch" (by decide) rfl rfl
              exact absurd (elseBranch.field?_type.symm.trans (sameElse.field?_of_to_null "type")) (by simp)
          | some elseBranch' =>
              have sameCondition : condition.document.Alike condition'.document :=
                alike.field "condition" (by decide) rfl rfl
              have sameThen : thenBranch.document.Alike thenBranch'.document :=
                alike.field "then_branch" (by decide) rfl rfl
              have sameElse : elseBranch.document.Alike elseBranch'.document :=
                alike.field "else_branch" (by decide) rfl rfl
              change Statement.conditional condition.withoutLines thenBranch.withoutLines
                  (some elseBranch.withoutLines) =
                .conditional condition'.withoutLines thenBranch'.withoutLines (some elseBranch'.withoutLines)
              rw [condition.eq_of_alike condition' exact.append.1 sameCondition,
                thenBranch.eq_of_alike thenBranch' exact.append.2.append.1 sameThen,
                elseBranch.eq_of_alike elseBranch' exact.append.2.append.2 sameElse]
      | _ => exact absurd (form_eq alike) (by simp [Statement.form])
  | .loop condition body, second, exact, alike => by
      cases second with
      | loop condition' body' =>
          have sameCondition : condition.document.Alike condition'.document :=
            alike.field "condition" (by decide) rfl rfl
          have sameBody : body.document.Alike body'.document := alike.field "body" (by decide) rfl rfl
          exact congrArg₂ Statement.loop (condition.eq_of_alike condition' exact.append.1 sameCondition)
            (body.eq_of_alike body' exact.append.2 sameBody)
      | _ => exact absurd (form_eq alike) (by simp [Statement.form])
  | .returning line value, second, exact, alike => by
      cases second with
      | returning line' value' =>
          have sameValue : (Expression.optionalDocument value).Alike (Expression.optionalDocument value') :=
            alike.field "value" (by decide) rfl rfl
          exact congrArg (Statement.returning 0) (Expression.optional_eq_of_alike value value' exact sameValue)
      | _ => exact absurd (form_eq alike) (by simp [Statement.form])

theorem Statement.list_eq_of_alike : (first second : List (Statement Unit)) →
    Number.Exact (Statement.listNumbers first) (Statement.listNumbers second) →
    List.Forall₂ Document.Alike (Statement.documents first) (Statement.documents second) →
    Statement.listMoveLines (fun _ => 0) first = Statement.listMoveLines (fun _ => 0) second
  | [], [], _, _ => rfl
  | first :: rest, second :: rest', exact, .cons alike others =>
      congrArg₂ List.cons (first.eq_of_alike second exact.append.1 alike)
        (Statement.list_eq_of_alike rest rest' exact.append.2 others)

end

/-- A program can be told from its document, but for its lines. -/
theorem Tree.eq_of_alike {first second : Source} {program program' : List (Statement Unit)}
    (reads : first.read = .ok program) (reads' : second.read = .ok program')
    (alike : (Tree.programDocument program).Alike (Tree.programDocument program')) :
    Statement.listMoveLines (fun _ => 0) program = Statement.listMoveLines (fun _ => 0) program' := by
  refine Statement.list_eq_of_alike program program' (fun value member value' member' equal => ?_) alike.items
  exact Number.eq_of_beq (Source.number_inRange reads value member) (Source.number_inRange reads' value' member')
    equal

/-! ## Running -/

/-- Whether two runs can be told apart by lines alone: they print the same, end in the same way, and leave
the same globals, functions among them with the same names, parameters and bodies. -/
structure Observation.Alike (first second : Observation) : Prop where
  output : first.machine.output = second.machine.output
  failure : first.failure.map (·.moveLine fun _ => 0) = second.failure.map (·.moveLine fun _ => 0)
  globals : first.machine.globals.map (Value.moveLines fun _ => 0) =
    second.machine.globals.map (Value.moveLines fun _ => 0)

theorem Machine.moved_initial (move : Nat → Nat) (traceLevel : Nat) (clock : Nat → Float) :
    (initial traceLevel clock).Moved move "" (initial traceLevel clock) where
  store := by
    have begun : (Store.empty.extend []).2.map (Value.moveLines move) = (Store.empty.extend []).2 := by
      simp [Store.empty, Store.extend, Store.map]
    have defined := Store.define_map (Value.moveLines move) (Store.empty.extend []).2 globalEnvironment
      Native.clock.name (.native .clock)
    rwa [begun] at defined
  environment := rfl
  output := rfl
  clock := rfl
  clockReadings := rfl
  functionCount := rfl

/-- What is seen of a run, when it is moved to a single line. -/
theorem Run.EndsMoved.seen {result moved : EStateM.Result Signal Machine Unit}
    (ends : Run.EndsMoved (fun _ => 0) "" id result moved) :
    (Observation.ofResult moved).machine.output = (Observation.ofResult result).machine.output ∧
      (Observation.ofResult moved).failure =
        (Observation.ofResult result).failure.map (·.moveLine fun _ => 0) ∧
      (Observation.ofResult moved).machine.globals =
        (Observation.ofResult result).machine.globals.map (Value.moveLines fun _ => 0) := by
  cases result with
  | ok _ after =>
      cases moved with
      | ok _ after' => exact ⟨ends.2.output.trans String.empty_append, rfl, ends.2.globals_eq⟩
      | error => exact ends.elim
  | error signal after =>
      cases moved with
      | ok => exact ends.elim
      | error signal' after' =>
          obtain ⟨rfl, stands⟩ := ends
          exact ⟨stands.output.trans String.empty_append, rfl, stands.globals_eq⟩

/-- Programs that differ in lines alone run alike. -/
theorem runProgram_alike {resolved resolved' : List (Statement Binding)}
    (same : Statement.listMoveLines (fun _ => 0) resolved = Statement.listMoveLines (fun _ => 0) resolved')
    (fuel callLimit traceLevel : Nat) (clock : Nat → Float) :
    (Observation.ofResult (runProgram fuel callLimit resolved (.initial traceLevel clock))).Alike
      (Observation.ofResult (runProgram fuel callLimit resolved' (.initial traceLevel clock))) := by
  have alone (program : List (Statement Binding)) :=
    (runProgram_moves (fun _ => 0) "" fuel callLimit program _ _ (Machine.moved_initial _ traceLevel clock)).seen
  have ⟨output, failure, globals⟩ := alone resolved
  have ⟨output', failure', globals'⟩ := alone resolved'
  rw [← same] at output' failure' globals'
  exact ⟨output.symm.trans output', failure.symm.trans failure', globals.symm.trans globals'⟩

/-- The document of a program decides what it does. Where two sources are read without a mistake, and their
documents are equal as values without their lines, a resolver that knows the same globals refuses both for
the same reason at the same word, or it accepts both and gives them the same distances, reference by
reference; and then they run alike, given the same clock. -/
theorem document_decides {first second : Source} {program program' : List (Statement Unit)}
    (reads : first.read = .ok program) (reads' : second.read = .ok program')
    (same : (Tree.programDocument program).withoutLines.Same (Tree.programDocument program').withoutLines)
    (known : List String) :
    (∃ mistake mistake' : ScopeError,
      ((Resolver.ofKnown known).resolve program).1 = .error mistake ∧
      ((Resolver.ofKnown known).resolve program').1 = .error mistake' ∧
      mistake.message = mistake'.message ∧ mistake.token.lexeme = mistake'.token.lexeme) ∨
    ∃ resolved resolved' : List (Statement Binding),
      ((Resolver.ofKnown known).resolve program).1 = .ok resolved ∧
      ((Resolver.ofKnown known).resolve program').1 = .ok resolved' ∧
      resolved.map Statement.withoutLines = resolved'.map Statement.withoutLines ∧
      ∀ (fuel callLimit traceLevel : Nat) (clock : Nat → Float),
        (Observation.ofResult (runProgram fuel callLimit resolved (.initial traceLevel clock))).Alike
          (Observation.ofResult (runProgram fuel callLimit resolved' (.initial traceLevel clock))) := by
  have resolves (program : List (Statement Unit)) :=
    Resolver.resolve_moveLines (fun _ => 0) (Resolver.ofKnown known) program
  have both := (resolves program).symm.trans
    ((congrArg _ (Tree.eq_of_alike reads reads' same)).trans (resolves program'))
  generalize (Resolver.ofKnown known).resolve program = ended, (Resolver.ofKnown known).resolve program' = ended'
    at both
  match ended, ended', both with
  | (.error mistake, _), (.error mistake', _), both =>
      have moved : mistake.moveLine (fun _ => 0) = mistake'.moveLine fun _ => 0 :=
        Except.error.inj (congrArg Prod.fst both)
      have message : mistake.message = mistake'.message := (congrArg Mistake.message moved :)
      have lexeme : mistake.token.lexeme = mistake'.token.lexeme := (congrArg (·.token.lexeme) moved :)
      exact .inl ⟨mistake, mistake', rfl, rfl, message, lexeme⟩
  | (.ok resolved, _), (.ok resolved', _), both =>
      have moved : Statement.listMoveLines (fun _ => 0) resolved =
          Statement.listMoveLines (fun _ => 0) resolved' :=
        Except.ok.inj (congrArg Prod.fst both)
      refine .inr ⟨resolved, resolved', rfl, rfl, ?_, runProgram_alike moved⟩
      rwa [Statement.listMoveLines_eq_map, Statement.listMoveLines_eq_map] at moved
  | (.error _, _), (.ok _, _), both | (.ok _, _), (.error _, _), both =>
      exact absurd (congrArg Prod.fst both) (by simp [Resolving.movedEnd])

/-- A fault of a closure, in a source of one line and in one of seven. -/
theorem document_decides_other_layout :
    ∃ program program' resolved resolved',
      (Source.text "{ var a = nil; fun f(x) { return x - a; } f(a); }").read = .ok program ∧
      (Source.text "\x7b // the same\n  var a = nil;\n  fun f(x) \x7b\n    return x - a;\n  \x7d\n  f(a);\n\x7d").read =
        .ok program' ∧
      (Tree.programDocument program).withoutLines.Same (Tree.programDocument program').withoutLines ∧
      ((Resolver.ofKnown ["clock"]).resolve program).1 = .ok resolved ∧
      ((Resolver.ofKnown ["clock"]).resolve program').1 = .ok resolved' ∧
      resolved.map Statement.withoutLines = resolved'.map Statement.withoutLines ∧
      ∀ (fuel callLimit traceLevel : Nat) (clock : Nat → Float),
        (Observation.ofResult (runProgram fuel callLimit resolved (.initial traceLevel clock))).Alike
          (Observation.ofResult (runProgram fuel callLimit resolved' (.initial traceLevel clock))) := by
  let program (first second third fourth : Nat) : List (Statement Unit) :=
    [.block [.declaration ⟨"a", first⟩ (some (.constant .nil)),
      .function ⟨"f", second⟩ [⟨"x", second⟩]
        [.returning third (some (.binary .subtract third (.variable ⟨"x", third⟩ ()) (.variable ⟨"a", third⟩ ())))],
      .expression (.call (.variable ⟨"f", fourth⟩ ()) [.variable ⟨"a", fourth⟩ ()] fourth)]]
  have reads : (Source.text "{ var a = nil; fun f(x) { return x - a; } f(a); }").read = .ok (program 1 1 1 1) := by
    decide +kernel
  have reads' : (Source.text
      "\x7b // the same\n  var a = nil;\n  fun f(x) \x7b\n    return x - a;\n  \x7d\n  f(a);\n\x7d").read =
        .ok (program 2 3 4 6) := by
    decide +kernel
  have same : (Tree.programDocument (program 1 1 1 1)).withoutLines.Same
      (Tree.programDocument (program 2 3 4 6)).withoutLines :=
    .refl (Tree.programDocument (program 1 1 1 1)).withoutLines (by decide)
  rcases document_decides reads reads' same ["clock"] with
    ⟨mistake, _, refused, _⟩ | ⟨resolved, resolved', resolves, resolves', alike⟩
  · have accepted : ((Resolver.ofKnown ["clock"]).resolve (program 1 1 1 1)).1.toBool = true := by decide +kernel
    rw [refused] at accepted
    cases accepted
  · exact ⟨_, _, resolved, resolved', reads, reads', same, resolves, resolves', alike⟩

end LoxInterpreter
