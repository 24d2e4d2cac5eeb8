import LoxInterpreter.Proofs.Grammar.Soundness
import LoxInterpreter.Tree.Reference

/-!
Contract: what can be a mistake of scope stands in the tree in the order in which it is written.

The names of an expression are those of its tokens, in their order. Of a statement this holds for the names
that it declares, for its returns, and for the names in the initializers of its variables. It does not hold
for its other names, since the increment of a loop is written in front of the body and done behind it.

Owns: `Token.located`, `Statement.suspects`, `Parser.InOrder`, and `suspects_in_order`.
Does not own: which of the suspects are mistakes (`Proofs.Scope.Occurrences`).
-/

namespace LoxInterpreter

/-- What a token is, and the line on which it is. -/
def Token.located (token : Token) : (Token.Kind × String) × Nat := (token.content, token.line)

variable {Known : Type}

/-- The tokens of the names in an expression. -/
def Expression.names (expression : Expression Known) : List Token :=
  expression.references.map fun reference => reference.name.token

/-- The tokens of the names in an expression that may be missing. -/
def Expression.optionalNames (expression : Option (Expression Known)) : List Token :=
  (Expression.optionalReferences expression).map fun reference => reference.name.token

mutual

/-- The tokens in a statement at which a mistake of scope can be noticed. -/
def Statement.suspects : Statement Known → List Token
  | .expression _ | .print _ => []
  | .declaration name initializer => name.token :: Expression.optionalNames initializer
  | .function name parameters body =>
      name.token :: (parameters.map Name.token ++ Statement.listSuspects body)
  | .block items => Statement.listSuspects items
  | .conditional _ thenBranch none => thenBranch.suspects
  | .conditional _ thenBranch (some elseBranch) => thenBranch.suspects ++ elseBranch.suspects
  | .loop _ body => body.suspects
  | .returning line _ => [.ofSymbol (.keyword .returnWord) line]

/-- The tokens in several statements at which a mistake of scope can be noticed. -/
def Statement.listSuspects : List (Statement Known) → List Token
  | [] => []
  | first :: rest => first.suspects ++ Statement.listSuspects rest

end

namespace Grammar

open LoxInterpreter.Grammar.Parser

variable {tokens between rest : List Token}

/-- Whether some tokens stand among those that a parser took, in order. -/
def Among (found tokens rest : List Token) : Prop :=
  (found.map Token.located ++ rest.map Token.located).Sublist (tokens.map Token.located)

namespace Among

theorem refl (tokens : List Token) : Among [] tokens tokens := List.Sublist.refl _

theorem append {found later : List Token} (among : Among found tokens between)
    (behind : Among later between rest) : Among (found ++ later) tokens rest := by
  unfold Among at among behind ⊢
  rw [List.map_append, List.append_assoc]
  exact (behind.append_left _).trans among

theorem of_sublist {found fewer : List Token} (among : Among found tokens rest)
    (sublist : fewer.Sublist found) : Among fewer tokens rest :=
  ((sublist.map Token.located).append_right _).trans among

theorem token {found first : Token} (same : found.located = first.located) (rest : List Token) :
    Among [found] (first :: rest) rest := by
  unfold Among
  rw [List.map_cons, same]
  exact List.Sublist.refl _

theorem skip (first : Token) (rest : List Token) : Among [] (first :: rest) rest :=
  List.sublist_cons_self _ _

end Among

theorem Takes.among {kind : Token.Kind} (takes : Takes kind tokens rest) : Among [] tokens rest := by
  obtain ⟨token, rfl, _⟩ := takes
  exact .skip token rest

/-- Behind a token that was taken, and in front of one. -/
theorem Among.inside {opening closing : Token.Kind} {opened closed found : List Token}
    (opens : Takes opening tokens opened) (among : Among found opened closed)
    (closes : Takes closing closed rest) : Among found tokens rest := by
  have whole := (opens.among.append among).append closes.among
  rwa [List.nil_append, List.append_nil] at whole

variable {α : Type}

/-- Whether what a parser reads has its names in the order of the tokens that it was read from. -/
def Parser.InOrder (found : α → List Token) (parser : Parser α) : Prop :=
  ∀ tokens value rest, parser.Reads tokens value rest → Among (found value) tokens rest

/-! ## Expressions -/

theorem commaSeparated_in_order {item : Parser α} {excess : SyntaxError.Cause} {found : α → List Token}
    (inOrder : item.InOrder found) (bound count : Nat) :
    (commaSeparated item excess bound count).InOrder fun items => items.flatMap found := by
  induction bound generalizing count with
  | zero =>
      intro tokens items rest reads
      obtain ⟨rfl, rfl⟩ := reads_pure_iff.mp reads
      exact .refl _
  | succ bound inductionHypothesis =>
      intro tokens items rest reads
      obtain ⟨_, first, between, one, ⟨_, rfl, rfl⟩ | ⟨others, later, comma, following, rfl⟩⟩ :=
        reads_commaSeparated_iff.mp reads
      · have among := inOrder _ _ _ one
        simpa using among
      · have behind := comma.among.append (inductionHypothesis (count + 1) _ _ _ following)
        exact (inOrder _ _ _ one).append behind

theorem list_in_order {item : Parser α} {excess : SyntaxError.Cause} {found : α → List Token}
    (inOrder : item.InOrder found) (bound : Nat) :
    (Parser.list item excess bound).InOrder fun items => items.flatMap found := by
  intro tokens items rest reads
  rcases reads_list_iff.mp reads with ⟨_, rfl, rfl⟩ | ⟨_, separated⟩
  · exact .refl _
  · exact commaSeparated_in_order inOrder bound 0 _ _ _ separated

theorem names_of_atom {token : Token} {value : Expression Unit} (atom : atom? token = some value)
    (rest : List Token) : Among value.names (token :: rest) rest := by
  unfold atom? at atom
  split at atom <;> cases atom
  · exact .skip token rest
  · exact .skip token rest
  · exact .skip token rest
  · exact .skip token rest
  · exact .skip token rest
  · rename_i isName
    refine .token ?_ rest
    simp [Token.located, Token.content, Name.token, Token.ofName, isName]

theorem names_of_build {level : Level} {token : Token}
    {build : Expression Unit → Expression Unit → Expression Unit} (built : level.build? token = some build)
    (left right : Expression Unit) : (build left right).names = left.names ++ right.names := by
  rcases Level.build?_eq_some_iff.mp built with ⟨_, _, _, rfl⟩ | ⟨_, _, _, rfl⟩ <;>
    exact List.map_append

section Expressions

variable {nested nestedUnary operand : Parser (Expression Unit)}

theorem primaryRule_in_order (inOrder : nested.InOrder Expression.names) :
    (primaryRule nested).InOrder Expression.names := by
  intro tokens value rest reads
  rcases reads_primaryRule_iff.mp reads with ⟨token, rfl, isAtom⟩ |
    ⟨opened, inner, closing, opening, readsInner, closed, rfl⟩
  · exact names_of_atom isAtom rest
  · have among := inOrder _ _ _ readsInner
    exact .inside opening among closed

theorem names_call (callee : Expression Unit) (arguments : List (Expression Unit)) (line : Nat) :
    (Expression.call callee arguments line).names = callee.names ++ arguments.flatMap Expression.names := by
  have listed : (Expression.listReferences arguments).map (fun reference => reference.name.token) =
      arguments.flatMap Expression.names := by
    induction arguments with
    | nil => rfl
    | cons first rest inductionHypothesis =>
        rw [Expression.listReferences, List.map_append, inductionHypothesis]
        rfl
  rw [Expression.names, Expression.references, List.map_append, listed]
  rfl

theorem callRule_in_order (inOrder : nested.InOrder Expression.names) (bound : Nat) :
    (callRule nested bound).InOrder Expression.names := by
  intro tokens value rest reads
  obtain ⟨callee, between, readsCallee, grows⟩ := reads_callRule_iff.mp reads
  refine grows.grow_keeps (fun value behind => Among value.names tokens behind)
    (fun _ _ _ stopped => (reads_callStep_none_iff.mp stopped).1) ?_
    (primaryRule_in_order inOrder _ _ _ readsCallee)
  intro callee behind called after among one
  obtain ⟨opened, arguments, closing, opening, readsArguments, isClosing, rfl⟩ :=
    reads_callStep_some_iff.mp one
  rw [names_call]
  exact among.append (.inside opening (list_in_order inOrder bound _ _ _ readsArguments)
    ⟨closing, rfl, isClosing⟩)

theorem unaryRule_in_order (inOrderUnary : nestedUnary.InOrder Expression.names)
    (inOrder : nested.InOrder Expression.names) (bound : Nat) :
    (unaryRule nestedUnary nested bound).InOrder Expression.names := by
  intro tokens value rest reads
  rcases reads_unaryRule_iff.mp reads with
    ⟨token, behind, operator, operand, rfl, isKind, readsOperand, rfl⟩ | ⟨_, calls⟩
  · have among := inOrderUnary _ _ _ readsOperand
    exact (Among.skip token behind).append among
  · exact callRule_in_order inOrder bound _ _ _ calls

theorem operatorsRule_in_order (inOrder : operand.InOrder Expression.names) (bound : Nat)
    (levels : List Level) : (operatorsRule operand bound levels).InOrder Expression.names := by
  induction levels with
  | nil => exact inOrder
  | cons level tighter inductionHypothesis =>
      intro tokens value rest reads
      obtain ⟨left, between, readsLeft, grows⟩ := reads_operatorsRule_cons_iff.mp reads
      refine grows.grow_keeps (fun value behind => Among value.names tokens behind)
        (fun _ _ _ stopped => (reads_operatorStep_none_iff.mp stopped).1) ?_
        (inductionHypothesis _ _ _ readsLeft)
      intro left behind grown after among one
      obtain ⟨token, others, build, right, rfl, built, readsRight, rfl⟩ :=
        reads_operatorStep_some_iff.mp one
      rw [names_of_build built]
      exact among.append ((Among.skip token others).append (inductionHypothesis _ _ _ readsRight))

theorem assignmentRule_in_order (inOrderOperand : operand.InOrder Expression.names)
    (inOrder : nested.InOrder Expression.names) (bound : Nat) :
    (assignmentRule operand nested bound).InOrder Expression.names := by
  intro tokens value rest reads
  rcases reads_assignmentRule_iff.mp reads with ⟨readsTarget, _⟩ |
    ⟨name, between, behind, assigned, readsTarget, equals, readsValue, rfl⟩
  · exact operatorsRule_in_order inOrderOperand bound _ _ _ _ readsTarget
  · have target := operatorsRule_in_order inOrderOperand bound _ _ _ _ readsTarget
    exact target.append (equals.among.append (inOrder _ _ _ readsValue))

theorem unary_and_expression_in_order (bound : Nat) :
    (unary bound).InOrder Expression.names ∧ (expression bound).InOrder Expression.names := by
  induction bound with
  | zero =>
      exact ⟨fun _ _ _ reads => absurd reads not_reads_fail, fun _ _ _ reads => absurd reads not_reads_fail⟩
  | succ bound inductionHypothesis =>
      have operands := unaryRule_in_order inductionHypothesis.1 inductionHypothesis.2 (bound + 1)
      exact ⟨operands, assignmentRule_in_order operands inductionHypothesis.2 (bound + 1)⟩

end Expressions

/-! ## Statements -/

theorem nameRule_in_order (role : NameRole) : (nameRule role).InOrder fun name => [name.token] := by
  intro tokens name rest reads
  obtain ⟨token, rfl, isName, rfl⟩ := reads_nameRule_iff.mp reads
  refine .token ?_ rest
  simp [Token.located, Token.content, Name.token, Token.ofName, isName]

section Statements

variable {expression : Parser (Expression Unit)} {statement : Parser (Statement Unit)}
  {declaration : Parser (Option (Statement Unit))} {value : Statement Unit}

theorem expressionStatementRule_in_order (inOrder : expression.InOrder Expression.names) :
    (expressionStatementRule expression).InOrder Statement.suspects := by
  intro tokens value rest reads
  obtain ⟨inner, closing, readsInner, closed, rfl⟩ := reads_expressionStatementRule_iff.mp reads
  have among := (inOrder _ _ _ readsInner).of_sublist (List.nil_sublist _)
  exact among.append closed.among

theorem printRule_in_order (inOrder : expression.InOrder Expression.names) :
    (printRule expression).InOrder Statement.suspects := by
  intro tokens value rest reads
  obtain ⟨inner, closing, readsInner, closed, rfl⟩ := reads_printRule_iff.mp reads
  have among := (inOrder _ _ _ readsInner).of_sublist (List.nil_sublist _)
  exact among.append closed.among

theorem optionalBefore_in_order (inOrder : expression.InOrder Expression.names) (mark : Token.Kind) :
    (optionalBefore mark expression).InOrder Expression.optionalNames := by
  intro tokens value rest reads
  rcases reads_optionalBefore_iff.mp reads with ⟨_, rfl, rfl⟩ | ⟨_, inner, readsInner, rfl⟩
  · exact .refl _
  · exact inOrder _ _ _ readsInner

theorem variableRule_in_order (inOrder : expression.InOrder Expression.names) :
    (variableRule expression).InOrder Statement.suspects := by
  intro tokens value rest reads
  obtain ⟨name, afterName, readsName, declared⟩ := reads_variableRule_iff.mp reads
  have named := nameRule_in_order .variable _ _ _ readsName
  rcases declared with ⟨closed, rfl⟩ | ⟨behind, initializer, closing, equals, readsInitializer, closed, rfl⟩
  · exact named.append closed.among
  · exact named.append (.inside equals (inOrder _ _ _ readsInitializer) closed)

/-- Nothing in a condition is suspected. -/
theorem condition_in_order (inOrder : expression.InOrder Expression.names) {opened closing : List Token}
    {condition : Expression Unit} (opening : Takes .leftParen tokens opened)
    (reads : expression.Reads opened condition closing) (closed : Takes .rightParen closing rest) :
    Among [] tokens rest :=
  .inside opening ((inOrder _ _ _ reads).of_sublist (List.nil_sublist _)) closed

theorem whileRule_in_order (inOrder : expression.InOrder Expression.names)
    (inOrderStatement : statement.InOrder Statement.suspects) :
    (whileRule expression statement).InOrder Statement.suspects := by
  intro tokens value rest reads
  obtain ⟨opened, condition, closing, behind, body, opening, readsCondition, closed, readsBody, rfl⟩ :=
    reads_whileRule_iff.mp reads
  have among := inOrderStatement _ _ _ readsBody
  exact (condition_in_order inOrder opening readsCondition closed).append among

theorem conditionalRule_in_order (inOrder : expression.InOrder Expression.names)
    (inOrderStatement : statement.InOrder Statement.suspects) :
    (conditionalRule expression statement).InOrder Statement.suspects := by
  intro tokens value rest reads
  obtain ⟨opened, condition, closing, behind, thenBranch, afterThen, opening, readsCondition, closed,
    readsThen, branches⟩ := reads_conditionalRule_iff.mp reads
  have front := (condition_in_order inOrder opening readsCondition closed).append
    (inOrderStatement _ _ _ readsThen)
  rcases branches with ⟨_, rfl, rfl⟩ | ⟨afterElse, elseBranch, isElse, readsElse, rfl⟩
  · exact front
  · exact front.append (isElse.among.append (inOrderStatement _ _ _ readsElse))

theorem initializerRule_in_order (inOrder : expression.InOrder Expression.names) :
    (initializerRule expression).InOrder fun initializer => Statement.listSuspects initializer.toList := by
  intro tokens value rest reads
  rcases reads_initializerRule_iff.mp reads with ⟨closed, rfl⟩ | ⟨behind, first, word, readsFirst, rfl⟩ |
    ⟨_, _, first, readsFirst, rfl⟩
  · exact closed.among
  · have among := word.among.append (variableRule_in_order inOrder _ _ _ readsFirst)
    simpa [Statement.listSuspects] using among
  · have among := expressionStatementRule_in_order inOrder _ _ _ readsFirst
    simpa [Statement.listSuspects] using among

theorem suspects_loopOfClauses (initializer : Option (Statement Unit))
    (condition increment : Option (Expression Unit)) (body : Statement Unit) :
    (loopOfClauses initializer condition increment body).suspects =
      Statement.listSuspects initializer.toList ++ body.suspects := by
  cases initializer <;> cases increment <;>
    simp [loopOfClauses, Statement.suspects, Statement.listSuspects]

/-- In a loop of three clauses only the initializer and the body are suspected, and they are done in
written order. -/
theorem forRule_in_order (inOrder : expression.InOrder Expression.names)
    (inOrderStatement : statement.InOrder Statement.suspects) :
    (forRule expression statement).InOrder Statement.suspects := by
  intro tokens value rest reads
  obtain ⟨opened, initializer, afterInitializer, condition, afterCondition, behindCondition, increment,
    closing, behind, body, opening, readsInitializer, readsCondition, separated, readsIncrement, closed,
    readsBody, rfl⟩ := reads_forRule_iff.mp reads
  have first := opening.among.append (initializerRule_in_order inOrder _ _ _ readsInitializer)
  have second := (optionalBefore_in_order inOrder _ _ _ _ readsCondition).of_sublist (List.nil_sublist _)
  have third := (optionalBefore_in_order inOrder _ _ _ _ readsIncrement).of_sublist (List.nil_sublist _)
  have clauses := (first.append (second.append separated.among)).append (third.append closed.among)
  have whole := clauses.append (inOrderStatement _ _ _ readsBody)
  rw [suspects_loopOfClauses]
  simpa using whole

theorem many_in_order
    (inOrder : declaration.InOrder fun item => Statement.listSuspects item.toList)
    (stop : List Token → Bool) (bound : Nat) :
    (many declaration stop bound).InOrder Statement.listSuspects := by
  induction bound with
  | zero =>
      intro tokens items rest reads
      obtain ⟨rfl, rfl⟩ := reads_pure_iff.mp reads
      exact .refl _
  | succ bound inductionHypothesis =>
      intro tokens items rest reads
      rcases reads_many_iff.mp reads with ⟨_, rfl, rfl⟩ | ⟨_, first, between, later, one, following, rfl⟩
      · exact .refl _
      · have among := (inOrder _ _ _ one).append (inductionHypothesis _ _ _ following)
        cases first with
        | none => exact among
        | some first => simpa [Statement.listSuspects] using among

theorem blockRule_in_order
    (inOrder : declaration.InOrder fun item => Statement.listSuspects item.toList) (bound : Nat) :
    (blockRule declaration bound).InOrder Statement.listSuspects := by
  intro tokens items rest reads
  obtain ⟨closing, readsItems, closed⟩ := reads_blockRule_iff.mp reads
  have among := (many_in_order inOrder atBlockEnd bound _ _ _ readsItems).append closed.among
  rwa [List.append_nil] at among

theorem functionRule_in_order
    (inOrder : declaration.InOrder fun item => Statement.listSuspects item.toList) (bound : Nat) :
    (functionRule declaration bound).InOrder Statement.suspects := by
  intro tokens value rest reads
  obtain ⟨name, afterName, opened, parameters, closing, afterParameters, behind, body, readsName, opening,
    readsParameters, closed, brace, readsBody, rfl⟩ := reads_functionRule_iff.mp reads
  have named := nameRule_in_order .function _ _ _ readsName
  have listed : Among (parameters.flatMap fun name => [name.token]) afterName afterParameters :=
    .inside opening (list_in_order (nameRule_in_order .parameter) bound _ _ _ readsParameters) closed
  rw [← List.map_eq_flatMap] at listed
  exact named.append (listed.append (brace.among.append (blockRule_in_order inOrder bound _ _ _ readsBody)))

end Statements

/-- What can be a mistake stands in statements and declarations in the order of their tokens. -/
theorem statement_and_declaration_in_order (bound : Nat) :
    (statement bound).InOrder Statement.suspects ∧
      (declaration bound).InOrder fun item => Statement.listSuspects item.toList := by
  induction bound with
  | zero =>
      refine ⟨fun _ _ _ reads => absurd reads not_reads_fail, fun _ _ _ reads => ?_⟩
      obtain ⟨value, _, stuck⟩ := (reads_recovering_iff (regular_fail _)).mp reads
      exact absurd stuck not_reads_fail
  | succ bound inductionHypothesis =>
      obtain ⟨inOrderStatement, inOrderDeclaration⟩ := inductionHypothesis
      have inOrder := (unary_and_expression_in_order (bound + 1)).2
      have statements : (statement (bound + 1)).InOrder Statement.suspects := by
        intro tokens value rest reads
        cases reads_statement_iff.mp reads with
        | threeClauses behind word rule =>
            exact word.among.append (forRule_in_order inOrder inOrderStatement _ _ _ rule)
        | conditional behind word rule =>
            exact word.among.append (conditionalRule_in_order inOrder inOrderStatement _ _ _ rule)
        | print behind word rule => exact word.among.append (printRule_in_order inOrder _ _ _ rule)
        | returning token behind split word rule =>
            obtain ⟨result, closing, readsResult, closed, rfl⟩ := reads_returnRule_iff.mp rule
            subst split
            have returns : Among [.ofSymbol (.keyword .returnWord) token.line] (token :: behind) behind :=
              .token (by simp [Token.located, Token.content, Token.ofSymbol, word]) behind
            have among := (optionalBefore_in_order inOrder _ _ _ _ readsResult).of_sublist
              (List.nil_sublist _)
            exact returns.append (among.append closed.among)
        | loop behind word rule =>
            exact word.among.append (whileRule_in_order inOrder inOrderStatement _ _ _ rule)
        | block behind items brace rule built =>
            subst built
            exact brace.among.append (blockRule_in_order inOrderDeclaration _ _ _ _ rule)
        | expression other rule => exact expressionStatementRule_in_order inOrder _ _ _ rule
      refine ⟨statements, fun tokens result rest reads => ?_⟩
      obtain ⟨value, rfl, alternatives⟩ := reads_declaration_iff.mp reads
      have single : Statement.listSuspects (some value).toList = value.suspects := List.append_nil _
      change Among (Statement.listSuspects (some value).toList) tokens rest
      rw [single]
      rcases alternatives with ⟨behind, word, rule⟩ | ⟨behind, word, rule⟩ | ⟨_, _, rule⟩
      · exact word.among.append (functionRule_in_order inOrderDeclaration _ _ _ _ rule)
      · exact word.among.append (variableRule_in_order inOrder _ _ _ rule)
      · exact statements _ _ _ rule

/-- What can be a mistake stands in a program in the order of its tokens. -/
theorem suspects_in_order {tokens : List Token} (noMistake : (read tokens).errors = []) :
    ((Statement.listSuspects (read tokens).statements).map Token.located).Sublist
      (tokens.map Token.located) := by
  obtain ⟨rest, reads⟩ := read_eq_iff.mp (show read tokens = ⟨(read tokens).statements, []⟩ by
    rw [← noMistake])
  have among := many_in_order (statement_and_declaration_in_order _).2 atEnd _ _ _ _ reads
  exact (List.sublist_append_left _ _).trans among

end Grammar

end LoxInterpreter
