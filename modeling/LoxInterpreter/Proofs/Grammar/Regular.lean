import LoxInterpreter.Proofs.Grammar.Reading

/-!
Contract: what all parsers of the grammar have in common.

A parser takes its tokens from the front, so what remains is an end of what it was given. Where it
gives up it has noted a mistake, so a parser that notes none has read something.

Owns: `Parser.Regular`, and that the parser of every rule is regular.
Does not own: what the rules read (`Proofs.Grammar.Rules`).
-/

namespace LoxInterpreter.Grammar

/-- Whether a parser takes its tokens from the front, and notes a mistake where it gives up. -/
structure Parser.Regular {α : Type} (parser : Parser α) : Prop where
  explains : ∀ tokens, (parser tokens).value = none → (parser tokens).errors ≠ []
  suffix : ∀ tokens, (parser tokens).rest <:+ tokens

namespace Parser

variable {α β : Type}

/-! ## Primitives -/

/-- A parser that always replies with a value need not explain anything. -/
theorem regular_of_value {parser : Parser α} (replies : ∀ tokens, (parser tokens).value ≠ none)
    (suffix : ∀ tokens, (parser tokens).rest <:+ tokens) : parser.Regular :=
  ⟨fun tokens gaveUp => absurd gaveUp (replies tokens), suffix⟩

theorem regular_pure (value : α) : (pure value : Parser α).Regular :=
  regular_of_value (by simp [Pure.pure, Parser.pure]) List.suffix_refl

/-- Giving up notes its reason. -/
theorem regular_fail (cause : SyntaxError.Cause) : (fail cause : Parser α).Regular :=
  ⟨fun _ _ => by simp [fail], List.suffix_refl⟩

/-- A token that is not taken is no mistake: the parser replies that there was none. -/
theorem regular_take? (choose : Token → Option α) : (take? choose).Regular := by
  apply regular_of_value
  · intro tokens
    unfold take?
    split
    · simp
    · split
      · simp
      · split <;> simp
  · intro tokens
    unfold take?
    split
    · exact List.suffix_refl _
    · split
      · exact List.suffix_refl _
      · split
        · exact List.suffix_refl _
        · exact List.suffix_cons _ _

/-- Where the second parser gives up, its mistakes stand behind those of the first, which may be none. -/
theorem Regular.bind {first : Parser α} {next : α → Parser β} (regular : first.Regular)
    (nextRegular : ∀ value, (next value).Regular) : (first >>= next).Regular := by
  constructor
  · intro tokens gaveUp
    change (Parser.bind first next tokens).errors ≠ []
    change (Parser.bind first next tokens).value = none at gaveUp
    have reason := regular.explains tokens
    unfold Parser.bind at gaveUp ⊢
    cases reply : first tokens with
    | mk value errors between =>
        rw [reply] at reason gaveUp
        cases value with
        | none => exact reason rfl
        | some value =>
            have later := (nextRegular value).explains between gaveUp
            simp only [ne_eq, List.append_eq_nil_iff, not_and]
            exact fun _ => later
  · intro tokens
    change (Parser.bind first next tokens).rest <:+ tokens
    have taken := regular.suffix tokens
    unfold Parser.bind
    cases reply : first tokens with
    | mk value errors between =>
        rw [reply] at taken
        cases value with
        | none => exact taken
        | some value => exact ((nextRegular value).suffix between).trans taken

theorem regular_accept? (kind : Token.Kind) : (accept? kind).Regular := regular_take? _

theorem regular_accept (kind : Token.Kind) : (accept kind).Regular :=
  (regular_accept? kind).bind fun _ => regular_pure _

theorem regular_expect (kind : Token.Kind) (cause : SyntaxError.Cause) :
    (expect kind cause).Regular := by
  refine (regular_accept? kind).bind fun taken => ?_
  cases taken with
  | none => exact regular_fail cause
  | some token => exact regular_pure token

theorem regular_nextIs (kind : Token.Kind) : (nextIs kind).Regular :=
  regular_of_value (by simp [nextIs]) List.suffix_refl

theorem regular_reportHere (cause : SyntaxError.Cause) : (reportHere cause).Regular :=
  regular_of_value (by simp [reportHere]) List.suffix_refl

theorem regular_report (cause : SyntaxError.Cause) (token : Token) :
    (report cause token).Regular :=
  regular_of_value (by simp [report]) List.suffix_refl

theorem regular_ite {condition : Prop} [Decidable condition] {first second : Parser α}
    (regular : first.Regular) (regular' : second.Regular) :
    (if condition then first else second).Regular := by
  split
  · exact regular
  · exact regular'

/-! ## Repetition -/

/-- Growing gives up only if a step does. At the bound it ends with the value so far. -/
theorem regular_grow {step : α → Parser (Option α)} (regular : ∀ value, (step value).Regular)
    (bound : Nat) (value : α) : (grow step bound value).Regular := by
  induction bound generalizing value with
  | zero => exact regular_pure value
  | succ bound inductionHypothesis =>
      refine (regular value).bind fun grown => ?_
      cases grown with
      | none => exact regular_pure value
      | some grown => exact inductionHypothesis grown

/-- An item past the limit is reported and read, so the count has no part in this. -/
theorem regular_commaSeparated {item : Parser α} {excess : SyntaxError.Cause}
    (regular : item.Regular) (bound count : Nat) :
    (commaSeparated item excess bound count).Regular := by
  induction bound generalizing count with
  | zero => exact regular_pure _
  | succ bound inductionHypothesis =>
      have following : (do
          let first ← item
          if ← accept .comma then
            return first :: (← commaSeparated item excess bound (count + 1))
          else return [first] : Parser (List α)).Regular := by
        refine regular.bind fun first => (regular_accept .comma).bind fun more => ?_
        refine regular_ite ?_ (regular_pure _)
        exact (inductionHypothesis (count + 1)).bind fun _ => regular_pure _
      rw [commaSeparated]
      exact regular_ite ((regular_reportHere excess).bind fun _ => following) following

theorem regular_list {item : Parser α} {excess : SyntaxError.Cause} (regular : item.Regular)
    (bound : Nat) : (list item excess bound).Regular :=
  (regular_nextIs .rightParen).bind fun _ =>
    regular_ite (regular_pure _) (regular_commaSeparated regular bound 0)

/-! ## Recovery -/

/-- Skipping to a statement boundary takes tokens from the front alone. -/
theorem boundaryAfter_suffix (previous : Token) (tokens : List Token) :
    boundaryAfter previous tokens <:+ tokens := by
  induction tokens generalizing previous with
  | nil => exact List.suffix_refl _
  | cons token rest inductionHypothesis =>
      rw [boundaryAfter]
      split
      · exact List.suffix_refl _
      · exact (inductionHypothesis token).trans (List.suffix_cons _ _)

theorem resumption_suffix (tokens : List Token) : resumption tokens <:+ tokens := by
  cases tokens with
  | nil => exact List.suffix_refl _
  | cons token rest =>
      rw [resumption]
      split
      · exact List.suffix_refl _
      · exact (boundaryAfter_suffix token rest).trans (List.suffix_cons _ _)

/-- Going on after a mistake replies that nothing was read, instead of giving up. -/
theorem regular_recovering {parser : Parser α} (regular : parser.Regular) :
    parser.recovering.Regular := by
  apply regular_of_value
  · intro tokens
    unfold Parser.recovering
    dsimp only
    split <;> simp
  · intro tokens
    have taken := regular.suffix tokens
    unfold Parser.recovering
    dsimp only
    split
    · exact taken
    · exact (resumption_suffix _).trans taken

/-- Items are read up to where the tokens say stop, which takes nothing. -/
theorem regular_many {item : Parser (Option α)} {stop : List Token → Bool}
    (regular : item.Regular) (bound : Nat) : (many item stop bound).Regular := by
  induction bound with
  | zero => exact regular_pure _
  | succ bound inductionHypothesis =>
      have following : (do
          let first ← item
          return first.toList ++ (← many item stop bound) : Parser (List α)).Regular :=
        regular.bind fun _ => inductionHypothesis.bind fun _ => regular_pure _
      constructor
      · intro tokens
        rw [many]
        by_cases stops : stop tokens = true
        · simp [stops]
        · simp only [stops, Bool.false_eq_true, if_false]
          exact following.explains tokens
      · intro tokens
        rw [many]
        by_cases stops : stop tokens = true
        · simp only [stops, if_true]
          exact List.suffix_refl _
        · simp only [stops, Bool.false_eq_true, if_false]
          exact following.suffix tokens

/-- A regular parser, made to go on after mistakes, reads what it reads itself. -/
theorem reads_recovering_iff {parser : Parser α} (regular : parser.Regular)
    {tokens rest : List Token} {result : Option α} :
    parser.recovering.Reads tokens result rest ↔
      ∃ value, result = some value ∧ parser.Reads tokens value rest := by
  unfold Reads Parser.recovering
  have reason := regular.explains tokens
  cases reply : parser tokens with
  | mk value errors remaining =>
      rw [reply] at reason
      cases value with
      | none =>
          have noted : errors ≠ [] := reason rfl
          simp [noted]
      | some value =>
          simp only [Reply.mk.injEq, Option.some.injEq]
          constructor
          · rintro ⟨same, noErrors, sameRest⟩
            exact ⟨value, same.symm, rfl, noErrors, sameRest⟩
          · rintro ⟨value', rfl, rfl, noErrors, sameRest⟩
            exact ⟨rfl, noErrors, sameRest⟩

end Parser

open LoxInterpreter.Grammar.Parser

/-! ## Rules -/

variable {nested nestedUnary operand : Parser (Expression Unit)}
  {nestedStatement : Parser (Statement Unit)} {nestedDeclaration : Parser (Option (Statement Unit))}

theorem regular_primaryRule (regular : nested.Regular) : (primaryRule nested).Regular := by
  refine (regular_take? atom?).bind fun atom => ?_
  cases atom with
  | some atom => exact regular_pure atom
  | none =>
      refine (regular_accept .leftParen).bind fun _ => regular_ite ?_ (regular_fail _)
      exact regular.bind fun _ => (regular_expect _ _).bind fun _ => regular_pure _

theorem regular_callRule (regular : nested.Regular) (bound : Nat) :
    (callRule nested bound).Regular := by
  refine (regular_primaryRule regular).bind fun callee => regular_grow (fun _ => ?_) bound callee
  refine (regular_accept .leftParen).bind fun _ => regular_ite ?_ (regular_pure _)
  exact (regular_list regular bound).bind fun _ =>
    (regular_expect _ _).bind fun _ => regular_pure _

theorem regular_unaryRule (regularUnary : nestedUnary.Regular) (regular : nested.Regular)
    (bound : Nat) : (unaryRule nestedUnary nested bound).Regular := by
  refine (regular_take? unaryOperator?).bind fun operator => ?_
  cases operator with
  | some operator => exact regularUnary.bind fun _ => regular_pure _
  | none => exact regular_callRule regular bound

/-- By induction on the levels: what the tighter ones read are the operands of the loosest. -/
theorem regular_operatorsRule (regular : operand.Regular) (bound : Nat) (levels : List Level) :
    (operatorsRule operand bound levels).Regular := by
  induction levels with
  | nil => exact regular
  | cons level tighter inductionHypothesis =>
      refine inductionHypothesis.bind fun left => regular_grow (fun _ => ?_) bound left
      refine (regular_take? level.build?).bind fun build => ?_
      cases build with
      | some build => exact inductionHypothesis.bind fun _ => regular_pure _
      | none => exact regular_pure _

/-- A target that is no name is reported, and stands for the whole: nothing is given up. -/
theorem regular_assignmentRule (regularOperand : operand.Regular) (regular : nested.Regular)
    (bound : Nat) : (assignmentRule operand nested bound).Regular := by
  refine (regular_operatorsRule regularOperand bound Level.all).bind fun target => ?_
  refine (regular_accept? .equal).bind fun equals => ?_
  cases equals with
  | none => exact regular_pure target
  | some equals =>
      refine regular.bind fun assigned => ?_
      cases target with
      | «variable» name reference => exact regular_pure _
      | _ => exact (regular_report _ _).bind fun _ => regular_pure _

/-- Operands and expressions together, since an operand may hold an expression in parentheses. -/
theorem regular_unary_and_expression (bound : Nat) :
    (unary bound).Regular ∧ (expression bound).Regular := by
  induction bound with
  | zero => exact ⟨regular_fail _, regular_fail _⟩
  | succ bound inductionHypothesis =>
      have operands := regular_unaryRule inductionHypothesis.1 inductionHypothesis.2 (bound + 1)
      exact ⟨operands, regular_assignmentRule operands inductionHypothesis.2 (bound + 1)⟩

theorem regular_nameRule (role : NameRole) : (nameRule role).Regular :=
  (regular_expect _ _).bind fun _ => regular_pure _

theorem regular_optionalBefore (regular : nested.Regular) (mark : Token.Kind) :
    (optionalBefore mark nested).Regular :=
  (regular_nextIs mark).bind fun _ =>
    regular_ite (regular_pure _) (regular.bind fun _ => regular_pure _)

theorem regular_expressionStatementRule (regular : nested.Regular) :
    (expressionStatementRule nested).Regular :=
  regular.bind fun _ => (regular_expect _ _).bind fun _ => regular_pure _

theorem regular_variableRule (regular : nested.Regular) : (variableRule nested).Regular := by
  refine (regular_nameRule _).bind fun name => (regular_accept .equal).bind fun _ => ?_
  have closing (initializer : Option (Expression Unit)) : (do
      let _ ← expectMark .semicolon .afterVariableDeclaration
      return .declaration name initializer : Parser (Statement Unit)).Regular :=
    (regular_expect _ _).bind fun _ => regular_pure _
  exact regular_ite (regular.bind fun _ => closing _) (closing _)

theorem regular_forRule (regular : nested.Regular)
    (regularStatement : nestedStatement.Regular) : (forRule nested nestedStatement).Regular := by
  refine (regular_expect _ _).bind fun _ => ?_
  have initializer : (initializerRule nested).Regular :=
    (regular_accept .semicolon).bind fun _ => regular_ite (regular_pure _)
      ((regular_accept _).bind fun _ => regular_ite
        ((regular_variableRule regular).bind fun _ => regular_pure _)
        ((regular_expressionStatementRule regular).bind fun _ => regular_pure _))
  refine initializer.bind fun _ => (regular_optionalBefore regular _).bind fun _ => ?_
  refine (regular_expect _ _).bind fun _ => (regular_optionalBefore regular _).bind fun _ => ?_
  exact (regular_expect _ _).bind fun _ => regularStatement.bind fun _ => regular_pure _

theorem regular_conditionalRule (regular : nested.Regular)
    (regularStatement : nestedStatement.Regular) :
    (conditionalRule nested nestedStatement).Regular := by
  refine (regular_expect _ _).bind fun _ => regular.bind fun _ => ?_
  refine (regular_expect _ _).bind fun _ => regularStatement.bind fun _ => ?_
  exact (regular_accept _).bind fun _ =>
    regular_ite (regularStatement.bind fun _ => regular_pure _) (regular_pure _)

theorem regular_blockRule (regular : nestedDeclaration.Regular) (bound : Nat) :
    (blockRule nestedDeclaration bound).Regular :=
  (regular_many regular bound).bind fun _ => (regular_expect _ _).bind fun _ => regular_pure _

theorem regular_functionRule (regular : nestedDeclaration.Regular) (bound : Nat) :
    (functionRule nestedDeclaration bound).Regular := by
  refine (regular_nameRule _).bind fun _ => (regular_expect _ _).bind fun _ => ?_
  refine (regular_list (regular_nameRule _) bound).bind fun _ => ?_
  refine (regular_expect _ _).bind fun _ => (regular_expect _ _).bind fun _ => ?_
  exact (regular_blockRule regular bound).bind fun _ => regular_pure _

theorem regular_statementRule (regular : nested.Regular)
    (regularStatement : nestedStatement.Regular) (regularDeclaration : nestedDeclaration.Regular)
    (bound : Nat) : (statementRule nested nestedStatement nestedDeclaration bound).Regular := by
  refine (regular_accept _).bind fun _ =>
    regular_ite (regular_forRule regular regularStatement) ?_
  refine (regular_accept _).bind fun _ =>
    regular_ite (regular_conditionalRule regular regularStatement) ?_
  refine (regular_accept _).bind fun _ => regular_ite
    (regular.bind fun _ => (regular_expect _ _).bind fun _ => regular_pure _) ?_
  refine (regular_accept? _).bind fun keyword => ?_
  cases keyword with
  | some keyword =>
      exact (regular_optionalBefore regular _).bind fun _ =>
        (regular_expect _ _).bind fun _ => regular_pure _
  | none =>
      have whileRule : (whileRule nested nestedStatement).Regular :=
        (regular_expect _ _).bind fun _ => regular.bind fun _ =>
          (regular_expect _ _).bind fun _ => regularStatement.bind fun _ => regular_pure _
      refine (regular_accept _).bind fun _ => regular_ite whileRule ?_
      refine (regular_accept _).bind fun _ => regular_ite ?_
        (regular_expressionStatementRule regular)
      exact (regular_blockRule regularDeclaration bound).bind fun _ => regular_pure _

theorem regular_declarationRule {bound : Nat} (regularStatement : (statement bound).Regular)
    (regularDeclaration : (declaration bound).Regular) :
    (declarationRule (expression (bound + 1)) (statementRule (expression (bound + 1))
      (statement bound) (declaration bound) (bound + 1)) (declaration bound) (bound + 1)).Regular := by
  refine (regular_accept _).bind fun _ =>
    regular_ite (regular_functionRule regularDeclaration (bound + 1)) ?_
  refine (regular_accept _).bind fun _ => regular_ite
    (regular_variableRule (regular_unary_and_expression (bound + 1)).2) ?_
  exact regular_statementRule (regular_unary_and_expression (bound + 1)).2
    regularStatement regularDeclaration (bound + 1)

/-- Statements and declarations together, since a block holds declarations. -/
theorem regular_statement_and_declaration (bound : Nat) :
    (statement bound).Regular ∧ (declaration bound).Regular := by
  induction bound with
  | zero => exact ⟨regular_fail _, regular_recovering (regular_fail _)⟩
  | succ bound inductionHypothesis =>
      have ⟨regularStatement, regularDeclaration⟩ := inductionHypothesis
      constructor
      · exact regular_statementRule (regular_unary_and_expression (bound + 1)).2 regularStatement
          regularDeclaration (bound + 1)
      · exact regular_recovering (regular_declarationRule regularStatement regularDeclaration)

theorem regular_program (bound : Nat) : (program bound).Regular :=
  regular_many (regular_statement_and_declaration bound).2 bound

end LoxInterpreter.Grammar
