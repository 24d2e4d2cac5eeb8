import LoxInterpreter.Proofs.Grammar.Regular

/-!
Contract: what is read is taken from the front.

A parser that replies with a value has taken a token, also where it noted mistakes on the way. A
declaration that gives up goes on behind the place where it did so, or at the end. So reading
declarations one after another comes to the end, whatever the tokens are.

Owns: `Parser.Consumes`, `Parser.Advances`, and that declarations advance.
Does not own: that no bound is met on the way (`Proofs.Grammar.Bounds`).
-/

namespace LoxInterpreter.Grammar

namespace Parser

variable {α β : Type}

/-! ## Sequences -/

theorem bind_of_value {first : Parser α} {next : α → Parser β} {tokens : List Token} {value : α}
    (replied : (first tokens).value = some value) :
    (first >>= next) tokens =
      ⟨(next value (first tokens).rest).value,
        (first tokens).errors ++ (next value (first tokens).rest).errors,
        (next value (first tokens).rest).rest⟩ := by
  change Parser.bind first next tokens = _
  simp only [Parser.bind, replied]

theorem bind_of_none {first : Parser α} {next : α → Parser β} {tokens : List Token}
    (gaveUp : (first tokens).value = none) :
    (first >>= next) tokens = ⟨none, (first tokens).errors, (first tokens).rest⟩ := by
  change Parser.bind first next tokens = _
  simp only [Parser.bind, gaveUp]

/-- A sequence replies with a value where both halves do. -/
theorem exists_of_bind_value {first : Parser α} {next : α → Parser β} {tokens : List Token}
    {result : β} (replied : ((first >>= next) tokens).value = some result) :
    ∃ value, (first tokens).value = some value ∧
      (next value (first tokens).rest).value = some result ∧
      ((first >>= next) tokens).rest = (next value (first tokens).rest).rest := by
  cases isValue : (first tokens).value with
  | none =>
      rw [bind_of_none isValue] at replied
      exact absurd replied (by simp)
  | some value =>
      rw [bind_of_value isValue] at replied ⊢
      exact ⟨value, rfl, replied, rfl⟩

theorem Reads.suffix {parser : Parser α} {tokens rest : List Token} {value : α}
    (reads : parser.Reads tokens value rest) (regular : parser.Regular) : rest <:+ tokens := by
  have taken := regular.suffix tokens
  rwa [reads] at taken

/-! ## Taking a token -/

/-- Whether a parser that replies with a value has taken a token. -/
def Consumes (parser : Parser α) : Prop :=
  ∀ tokens value, (parser tokens).value = some value → (parser tokens).rest.length < tokens.length

/-- Whether a parser that adds something has taken a token. -/
def Advances (parser : Parser (Option α)) : Prop :=
  ∀ tokens value, (parser tokens).value = some (some value) →
    (parser tokens).rest.length < tokens.length

theorem Regular.length_le {parser : Parser α} (regular : parser.Regular) (tokens : List Token) :
    (parser tokens).rest.length ≤ tokens.length :=
  (regular.suffix tokens).length_le

theorem consumes_fail (cause : SyntaxError.Cause) : (fail cause : Parser α).Consumes :=
  fun _ _ replied => absurd replied (by simp [fail])

theorem Consumes.bind {first : Parser α} {next : α → Parser β} (consumes : first.Consumes)
    (regular : ∀ value, (next value).Regular) : (first >>= next).Consumes := by
  intro tokens result replied
  obtain ⟨value, isValue, _, sameRest⟩ := exists_of_bind_value replied
  have taken := consumes tokens value isValue
  have later := (regular value).length_le (first tokens).rest
  rw [sameRest]
  omega

theorem Regular.bind_consumes {first : Parser α} {next : α → Parser β} (regular : first.Regular)
    (consumes : ∀ value, (next value).Consumes) : (first >>= next).Consumes := by
  intro tokens result replied
  obtain ⟨value, _, isResult, sameRest⟩ := exists_of_bind_value replied
  have taken := consumes value (first tokens).rest result isResult
  have before := regular.length_le tokens
  rw [sameRest]
  omega

theorem advances_take? (choose : Token → Option α) : (take? choose).Advances := by
  intro tokens value replied
  unfold take? at replied ⊢
  split at replied
  · simp at replied
  · split at replied
    · simp at replied
    · rename_i token rest notEnd
      cases chosen : choose token with
      | none => simp [chosen] at replied
      | some value => simp [notEnd]

/-- A choice consumes where it takes nothing only in front of what consumes. -/
theorem consumes_take?_bind {choose : Token → Option α} {next : Option α → Parser β}
    (taken : ∀ value, (next (some value)).Regular) (declined : (next none).Consumes) :
    (take? choose >>= next).Consumes := by
  intro tokens result replied
  obtain ⟨choice, isChoice, isResult, sameRest⟩ := exists_of_bind_value replied
  rw [sameRest]
  cases choice with
  | none =>
      have later := declined _ _ isResult
      have before := (regular_take? choose).length_le tokens
      omega
  | some value =>
      have before := advances_take? choose tokens value isChoice
      have later := (taken value).length_le (take? choose tokens).rest
      omega

theorem consumes_expect (kind : Token.Kind) (cause : SyntaxError.Cause) :
    (expect kind cause).Consumes :=
  consumes_take?_bind (fun token => regular_pure token) (consumes_fail cause)

/-- A question for a kind of token, as a choice. -/
theorem accept_bind_eq (kind : Token.Kind) (next other : Parser β) :
    (do if ← accept kind then next else other) =
      (accept? kind >>= fun taken => if taken.isSome then next else other) := by
  funext tokens
  change Parser.bind (Parser.bind (accept? kind) fun taken => Parser.pure taken.isSome) _ tokens =
    Parser.bind (accept? kind) _ tokens
  unfold Parser.bind
  cases reply : accept? kind tokens with
  | mk value errors rest =>
      cases value with
      | none => rfl
      | some taken => simp [Parser.pure]

theorem consumes_accept_bind {kind : Token.Kind} {next other : Parser β} (regular : next.Regular)
    (consumes : other.Consumes) : (do if ← accept kind then next else other).Consumes := by
  rw [accept_bind_eq]
  exact consumes_take?_bind (fun _ => regular) consumes

/-- A step that takes its first token advances. -/
theorem advances_take?_bind {choose : Token → Option α} {next : Option α → Parser (Option β)}
    (taken : ∀ value, (next (some value)).Regular)
    (declined : ∀ tokens value, (next none tokens).value ≠ some (some value)) :
    (take? choose >>= next).Advances := by
  intro tokens result replied
  obtain ⟨choice, isChoice, isResult, sameRest⟩ := exists_of_bind_value replied
  rw [sameRest]
  cases choice with
  | none => exact absurd isResult (declined _ _)
  | some value =>
      have before := advances_take? choose tokens value isChoice
      have later := (taken value).length_le (take? choose tokens).rest
      omega

/-! ## Going on after a mistake -/

/-- Unless it stands at the end, the resumption skips a token. -/
theorem resumption_length_lt {tokens : List Token} (inside : atEnd tokens = false) :
    (resumption tokens).length < tokens.length := by
  cases tokens with
  | nil => exact absurd inside (by decide)
  | cons token rest =>
      have skipped := (boundaryAfter_suffix token rest).length_le
      rw [resumption, inside]
      simp only [Bool.false_eq_true, if_false, List.length_cons]
      omega

theorem recovering_of_value {parser : Parser α} {tokens : List Token} {value : α}
    (replied : (parser tokens).value = some value) :
    parser.recovering tokens = ⟨some (some value), (parser tokens).errors, (parser tokens).rest⟩ := by
  simp only [Parser.recovering, replied]

theorem recovering_of_none {parser : Parser α} {tokens : List Token}
    (gaveUp : (parser tokens).value = none) :
    parser.recovering tokens =
      ⟨some none, (parser tokens).errors, resumption (parser tokens).rest⟩ := by
  simp only [Parser.recovering, gaveUp]

/-- A parser that is made to go on after mistakes moves forward wherever it is not at the end. -/
theorem recovering_length_lt {parser : Parser α} (regular : parser.Regular)
    (consumes : parser.Consumes) {tokens : List Token} (inside : atEnd tokens = false) :
    (parser.recovering tokens).rest.length < tokens.length := by
  cases isValue : (parser tokens).value with
  | some value =>
      rw [recovering_of_value isValue]
      exact consumes tokens value isValue
  | none =>
      rw [recovering_of_none isValue]
      have before := regular.suffix tokens
      have skipped := (resumption_suffix (parser tokens).rest).length_le
      by_cases moved : (parser tokens).rest.length < tokens.length
      · exact Nat.lt_of_le_of_lt skipped moved
      · have unmoved : (parser tokens).rest = tokens :=
          before.eq_of_length (Nat.le_antisymm before.length_le (Nat.not_lt.mp moved))
        rw [unmoved]
        exact resumption_length_lt inside

theorem value_recovering (parser : Parser α) (tokens : List Token) :
    (parser.recovering tokens).value ≠ none := by
  cases isValue : (parser tokens).value with
  | some value => simp [recovering_of_value isValue]
  | none => simp [recovering_of_none isValue]

end Parser

open LoxInterpreter.Grammar.Parser

/-! ## Expressions -/

section Expressions

variable {nested nestedUnary operand : Parser (Expression Unit)}

theorem consumes_primaryRule (regular : nested.Regular) : (primaryRule nested).Consumes := by
  refine consumes_take?_bind (fun atom => regular_pure atom) ?_
  refine consumes_accept_bind ?_ (consumes_fail _)
  exact regular.bind fun _ => (regular_expect _ _).bind fun _ => regular_pure _

theorem regular_callStep (regular : nested.Regular) (bound : Nat) (callee : Expression Unit) :
    (callStep nested bound callee).Regular := by
  refine (regular_accept .leftParen).bind fun _ => regular_ite ?_ (regular_pure _)
  exact (regular_list regular bound).bind fun _ =>
    (regular_expect _ _).bind fun _ => regular_pure _

theorem advances_callStep (regular : nested.Regular) (bound : Nat) (callee : Expression Unit) :
    (callStep nested bound callee).Advances := by
  unfold callStep
  rw [accept_bind_eq]
  refine advances_take?_bind (fun _ => ?_) (fun _ _ => by simp [Pure.pure, Parser.pure])
  exact (regular_list regular bound).bind fun _ =>
    (regular_expect _ _).bind fun _ => regular_pure _

theorem consumes_callRule (regular : nested.Regular) (bound : Nat) :
    (callRule nested bound).Consumes :=
  (consumes_primaryRule regular).bind fun callee =>
    regular_grow (regular_callStep regular bound) bound callee

theorem consumes_unaryRule (regularUnary : nestedUnary.Regular) (regular : nested.Regular)
    (bound : Nat) : (unaryRule nestedUnary nested bound).Consumes := by
  refine consumes_take?_bind (fun operator => ?_) (consumes_callRule regular bound)
  exact regularUnary.bind fun _ => regular_pure _

theorem regular_operatorStep (regular : operand.Regular) (level : Level) (left : Expression Unit) :
    (operatorStep level operand left).Regular := by
  refine (regular_take? level.build?).bind fun build => ?_
  cases build with
  | some build => exact regular.bind fun _ => regular_pure _
  | none => exact regular_pure _

theorem advances_operatorStep (regular : operand.Regular) (level : Level) (left : Expression Unit) :
    (operatorStep level operand left).Advances :=
  advances_take?_bind (fun _ => regular.bind fun _ => regular_pure _)
    (fun _ _ => by simp [Pure.pure, Parser.pure])

theorem consumes_operatorsRule (regular : operand.Regular) (consumes : operand.Consumes) (bound : Nat)
    (levels : List Level) : (operatorsRule operand bound levels).Consumes := by
  induction levels with
  | nil => exact consumes
  | cons level tighter inductionHypothesis =>
      have regularTighter := regular_operatorsRule regular bound tighter
      exact inductionHypothesis.bind fun left =>
        regular_grow (regular_operatorStep regularTighter level) bound left

/-- What is assigned, once the sign has been taken. -/
theorem regular_assigned (regular : nested.Regular) (target : Expression Unit) (equals : Token) :
    (do
      let value ← nested
      match target with
      | .variable name reference => return .assignment name reference value
      | _ =>
          report .invalidAssignmentTarget equals
          return target : Parser (Expression Unit)).Regular := by
  refine regular.bind fun assigned => ?_
  cases target with
  | «variable» name reference => exact regular_pure _
  | _ => exact (regular_report _ _).bind fun _ => regular_pure _

theorem consumes_assignmentRule (regularOperand : operand.Regular) (consumes : operand.Consumes)
    (regular : nested.Regular) (bound : Nat) : (assignmentRule operand nested bound).Consumes := by
  refine (consumes_operatorsRule regularOperand consumes bound Level.all).bind fun target => ?_
  refine (regular_accept? .equal).bind fun equals => ?_
  cases equals with
  | none => exact regular_pure target
  | some equals => exact regular_assigned regular target equals

theorem consumes_unary_and_expression (bound : Nat) :
    (unary bound).Consumes ∧ (expression bound).Consumes := by
  cases bound with
  | zero => exact ⟨consumes_fail _, consumes_fail _⟩
  | succ bound =>
      have ⟨regularUnary, regular⟩ := regular_unary_and_expression bound
      have operands := consumes_unaryRule regularUnary regular (bound + 1)
      exact ⟨operands, consumes_assignmentRule (regular_unaryRule regularUnary regular (bound + 1))
        operands regular (bound + 1)⟩

end Expressions

/-! ## Declarations -/

section Declarations

variable {nested : Parser (Expression Unit)} {nestedStatement : Parser (Statement Unit)}
  {nestedDeclaration : Parser (Option (Statement Unit))}

theorem regular_marked {α : Type} {parser : Parser α} (regular : parser.Regular) (mark : Token.Kind)
    (site : Site) {build : α → Statement Unit} :
    (do
      let value ← parser
      let _ ← expectMark mark site
      return build value : Parser (Statement Unit)).Regular :=
  regular.bind fun _ => (regular_expect _ _).bind fun _ => regular_pure _

theorem regular_whileRule (regular : nested.Regular) (regularStatement : nestedStatement.Regular) :
    (whileRule nested nestedStatement).Regular :=
  (regular_expect _ _).bind fun _ => regular.bind fun _ =>
    (regular_expect _ _).bind fun _ => regularStatement.bind fun _ => regular_pure _

theorem consumes_expressionStatementRule (regular : nested.Regular) :
    (expressionStatementRule nested).Consumes :=
  regular.bind_consumes fun _ => (consumes_expect _ _).bind fun _ => regular_pure _

theorem consumes_statementRule (regular : nested.Regular) (regularStatement : nestedStatement.Regular)
    (regularDeclaration : nestedDeclaration.Regular) (bound : Nat) :
    (statementRule nested nestedStatement nestedDeclaration bound).Consumes := by
  refine consumes_accept_bind (regular_forRule regular regularStatement) ?_
  refine consumes_accept_bind (regular_conditionalRule regular regularStatement) ?_
  refine consumes_accept_bind (regular_marked regular .semicolon .afterValue) ?_
  refine consumes_take?_bind
    (fun keyword => regular_marked (regular_optionalBefore regular _) .semicolon .afterReturnValue) ?_
  refine consumes_accept_bind (regular_whileRule regular regularStatement) ?_
  refine consumes_accept_bind ?_ (consumes_expressionStatementRule regular)
  exact (regular_blockRule regularDeclaration bound).bind fun _ => regular_pure _

theorem consumes_declarationRule (bound : Nat) :
    (declarationRule (expression (bound + 1)) (statement (bound + 1)) (declaration bound)
      (bound + 1)).Consumes := by
  have ⟨regularStatement, regularDeclaration⟩ := regular_statement_and_declaration bound
  have regular := (regular_unary_and_expression (bound + 1)).2
  refine consumes_accept_bind (regular_functionRule regularDeclaration (bound + 1)) ?_
  refine consumes_accept_bind (regular_variableRule regular) ?_
  exact consumes_statementRule regular regularStatement regularDeclaration (bound + 1)

/-- A declaration moves forward wherever it is not at the end, also where it cannot be read. -/
theorem declaration_length_lt (bound : Nat) {tokens : List Token} (inside : atEnd tokens = false) :
    (declaration bound tokens).rest.length < tokens.length := by
  cases bound with
  | zero => exact recovering_length_lt (regular_fail _) (consumes_fail _) inside
  | succ bound =>
      have ⟨regularStatement, regularDeclaration⟩ := regular_statement_and_declaration bound
      exact recovering_length_lt (regular_declarationRule regularStatement regularDeclaration)
        (consumes_declarationRule bound) inside

end Declarations

end LoxInterpreter.Grammar
