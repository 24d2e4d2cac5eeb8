import LoxInterpreter.Proofs.Grammar.Phrases

/-!
Contract: what is read closes the parentheses that it opens.

No semicolon stands in an expression, and no word that begins a statement. Expressions and statements
alike have as many closing parentheses as opening ones, so a semicolon that ends a statement stands in
parentheses only in the header of a loop with three clauses.

Owns: `Token.depth`, `Token.Flat`, and `Parser.Balanced` of every rule for statements.
Does not own: what is read (`Proofs.Grammar.Soundness`).
-/

namespace LoxInterpreter

namespace Token

/-- How many parentheses a kind of token opens. -/
def Kind.opens : Kind → Int
  | .leftParen => 1
  | .rightParen => -1
  | _ => 0

/-- How many parentheses some tokens open and do not close. -/
def depth : List Token → Int
  | [] => 0
  | token :: rest => token.kind.opens + depth rest

@[simp] theorem depth_nil : depth [] = 0 := rfl

@[simp] theorem depth_cons (token : Token) (rest : List Token) :
    depth (token :: rest) = token.kind.opens + depth rest := rfl

@[simp] theorem depth_append (first second : List Token) :
    depth (first ++ second) = depth first + depth second := by
  induction first with
  | nil => simp
  | cons token rest inductionHypothesis =>
      rw [List.cons_append, depth_cons, depth_cons, inductionHypothesis, Int.add_assoc]

theorem SameContent.depth_eq {first second : List Token} (same : SameContent first second) :
    depth first = depth second := by
  induction first generalizing second with
  | nil =>
      obtain rfl : second = [] := List.length_eq_zero_iff.mp same.length_eq.symm
      rfl
  | cons token rest inductionHypothesis =>
      cases second with
      | nil => exact absurd same.length_eq (Nat.succ_ne_zero _)
      | cons token' rest' =>
          obtain ⟨sameToken, sameRest⟩ := List.cons.inj same
          have kind : token.kind = token'.kind := congrArg Prod.fst sameToken
          rw [depth_cons, depth_cons, kind, inductionHypothesis sameRest]

/-- Whether a kind of token can stand inside an expression. -/
def Kind.isInside : Kind → Bool
  | .semicolon | .endOfInput => false
  | .keyword word => !word.startsStatement
  | _ => true

/-- Whether tokens can stand inside an expression and close the parentheses that they open. -/
structure Flat (tokens : List Token) : Prop where
  inside : ∀ token ∈ tokens, token.kind.isInside = true
  balanced : depth tokens = 0

theorem flat_nil : Flat [] := ⟨by simp, rfl⟩

theorem Flat.of_sameContent {first second : List Token} (flat : Flat first)
    (same : SameContent first second) : Flat second where
  inside token member := by
    have present : token.content ∈ first.map content := by
      rw [show first.map content = _ from same]
      exact List.mem_map_of_mem member
    obtain ⟨other, member', sameToken⟩ := List.mem_map.mp present
    have sameKind : other.kind = token.kind := congrArg Prod.fst sameToken
    exact sameKind ▸ flat.inside other member'
  balanced := same.depth_eq ▸ flat.balanced

theorem Flat.append {first second : List Token} (flat : Flat first) (flatSecond : Flat second) :
    Flat (first ++ second) where
  inside token member := (List.mem_append.mp member).elim (flat.inside token) (flatSecond.inside token)
  balanced := by rw [depth_append, flat.balanced, flatSecond.balanced, Int.add_zero]

theorem Flat.cons {token : Token} {rest : List Token} (inside : token.kind.isInside = true)
    (level : token.kind.opens = 0) (flat : Flat rest) : Flat (token :: rest) where
  inside := List.forall_mem_cons.mpr ⟨inside, flat.inside⟩
  balanced := by rw [depth_cons, level, flat.balanced, Int.add_zero]

/-- Tokens in parentheses. -/
theorem Flat.wrapped {tokens : List Token} (flat : Flat tokens) (line : Nat) :
    Flat (unplaced .leftParen :: (tokens ++ [ofSymbol .rightParen line])) where
  inside := by simpa [Kind.isInside, or_imp, forall_and] using flat.inside
  balanced := by simp [flat.balanced, Kind.opens]

theorem flat_joinedByCommas {lists : List (List Token)} (flat : ∀ list ∈ lists, Flat list) :
    Flat (joinedByCommas lists) := by
  induction lists with
  | nil => exact flat_nil
  | cons first rest inductionHypothesis =>
      have flatRest := inductionHypothesis fun list member => flat list (List.mem_cons_of_mem _ member)
      cases rest with
      | nil => exact flat first List.mem_cons_self
      | cons second rest => exact (flat first List.mem_cons_self).append (flatRest.cons rfl rfl)

end Token

open Token

variable {Known : Type}

mutual

/-- The tokens of an expression are flat. -/
theorem Expression.flat_tokens : (value : Expression Known) → Flat value.tokens
  | .constant value => by
      cases value with
      | boolean truth => cases truth <;> exact flat_nil.cons rfl rfl
      | _ => exact flat_nil.cons rfl rfl
  | .grouping inner => inner.flat_tokens.wrapped 0
  | .variable name _ => flat_nil.cons rfl rfl
  | .assignment name _ value => (value.flat_tokens.cons rfl rfl).cons rfl rfl
  | .unary operator line operand => by
      cases operator <;> exact operand.flat_tokens.cons rfl rfl
  | .binary operator line left right => by
      cases operator <;> exact left.flat_tokens.append (right.flat_tokens.cons rfl rfl)
  | .logical operator line left right => by
      cases operator <;> exact left.flat_tokens.append (right.flat_tokens.cons rfl rfl)
  | .call callee arguments line =>
      callee.flat_tokens.append
        ((flat_joinedByCommas (Expression.flat_eachTokens arguments)).wrapped line)

theorem Expression.flat_eachTokens : (values : List (Expression Known)) →
    ∀ list ∈ Expression.eachTokens values, Flat list
  | [] => by simp [Expression.eachTokens]
  | first :: rest => by
      intro list member
      rcases List.mem_cons.mp member with rfl | behind
      · exact first.flat_tokens
      · exact Expression.flat_eachTokens rest list behind

end

namespace Grammar

open LoxInterpreter.Grammar.Parser

theorem Takes.depth_eq {kind : Token.Kind} {tokens rest : List Token} (takes : Takes kind tokens rest) :
    depth tokens = kind.opens + depth rest := by
  obtain ⟨token, rfl, isKind⟩ := takes
  rw [depth_cons, isKind]

/-- Whether a parser, on token lists up to a length, closes the parentheses that it opens. -/
def Parser.Balanced {α : Type} (limit : Nat) (parser : Parser α) : Prop :=
  ∀ tokens value rest, tokens.length ≤ limit → parser.Reads tokens value rest →
    depth tokens = depth rest ∧ rest.length ≤ tokens.length

/-- What is read as an expression is normal, and spelled in front of what remains. -/
theorem spelled_of_expression {bound : Nat} {tokens rest : List Token} {value : Expression Unit}
    (short : tokens.length ≤ bound) (reads : (expression bound).Reads tokens value rest) :
    ∃ spelled, tokens = spelled ++ rest ∧ SameContent value.tokens spelled ∧ value.Normal := by
  obtain ⟨spelled, rfl⟩ := reads.suffix (regular_unary_and_expression bound).2
  have ⟨normal, same⟩ := written_of_reads short reads
  exact ⟨spelled, rfl, same, normal⟩

/-- What stands for an expression, as for the parameters of a function, is flat. -/
theorem flat_of_expression {bound : Nat} {tokens rest : List Token} {value : Expression Unit}
    (short : tokens.length ≤ bound) (reads : (expression bound).Reads tokens value rest) :
    ∃ spelled, tokens = spelled ++ rest ∧ Flat spelled := by
  obtain ⟨spelled, split, same, _⟩ := spelled_of_expression short reads
  exact ⟨spelled, split, value.flat_tokens.of_sameContent same⟩

theorem flat_of_parameters {bound : Nat} {tokens rest : List Token} {names : List Name}
    (short : tokens.length < bound)
    (reads : (list (nameRule .parameter) .tooManyParameters bound).Reads tokens names rest) :
    ∃ spelled, tokens = spelled ++ rest ∧ Flat spelled := by
  have item : ∀ tokens name rest, tokens.length < bound → (nameRule .parameter).Reads tokens name rest →
      True ∧ 0 < [name.token].length ∧ SameContent tokens ([name.token] ++ rest) :=
    fun _ _ _ _ readsParameter => ⟨trivial, Nat.one_pos, (nameRule_sound readsParameter).2⟩
  obtain ⟨_, _, written⟩ := list_sound item short short reads
  obtain ⟨spelled, rfl⟩ := reads.suffix (regular_list (regular_nameRule _) bound)
  refine ⟨spelled, rfl, Flat.of_sameContent (flat_joinedByCommas fun list member => ?_)
    written.append_cancel.symm⟩
  obtain ⟨name, _, rfl⟩ := List.mem_map.mp member
  exact flat_nil.cons rfl rfl

/-! ## Rules -/

theorem balanced_expression (bound : Nat) : (expression bound).Balanced bound := by
  intro tokens value rest short reads
  obtain ⟨spelled, rfl, flat⟩ := flat_of_expression short reads
  rw [depth_append, flat.balanced, Int.zero_add, List.length_append]
  exact ⟨rfl, Nat.le_add_left _ _⟩

section Rules

variable {limit bound : Nat} {nested : Parser (Expression Unit)} {statement : Parser (Statement Unit)}
  {declaration : Parser (Option (Statement Unit))}

theorem balanced_optionalBefore (balanced : nested.Balanced limit) (mark : Token.Kind) :
    (optionalBefore mark nested).Balanced limit := by
  intro tokens result rest short reads
  rcases reads_optionalBefore_iff.mp reads with ⟨_, _, rfl⟩ | ⟨_, inner, readsInner, _⟩
  · exact ⟨rfl, Nat.le_refl _⟩
  · exact balanced _ _ _ short readsInner

theorem balanced_nameRule (role : NameRole) : (nameRule role).Balanced limit := by
  intro tokens name rest _ reads
  obtain ⟨token, rfl, isName, _⟩ := reads_nameRule_iff.mp reads
  rw [depth_cons, isName]
  exact ⟨Int.zero_add _, Nat.le_succ _⟩

/-- A mark that is no parenthesis. -/
theorem Takes.balanced {kind : Token.Kind} {tokens rest : List Token} (takes : Takes kind tokens rest)
    (level : kind.opens = 0) : depth tokens = depth rest ∧ rest.length ≤ tokens.length := by
  rw [takes.depth_eq, takes.length_eq, level, Int.zero_add]
  exact ⟨rfl, Nat.le_succ _⟩

theorem balanced_expressionStatementRule (balanced : nested.Balanced limit) :
    (expressionStatementRule nested).Balanced limit := by
  intro tokens value rest short reads
  obtain ⟨inner, closing, readsInner, closed, _⟩ := reads_expressionStatementRule_iff.mp reads
  have ⟨level, shorter⟩ := balanced _ _ _ short readsInner
  have ⟨levelClosed, shorterClosed⟩ := closed.balanced rfl
  exact ⟨level.trans levelClosed, Nat.le_trans shorterClosed shorter⟩

theorem balanced_variableRule (balanced : nested.Balanced limit) :
    (variableRule nested).Balanced limit := by
  intro tokens value rest short reads
  obtain ⟨name, afterName, readsName, declared⟩ := reads_variableRule_iff.mp reads
  have ⟨levelName, shorterName⟩ := balanced_nameRule _ _ _ _ short readsName
  rcases declared with ⟨closed, _⟩ | ⟨behind, initializer, closing, equals, readsValue, closed, _⟩
  · have ⟨levelClosed, shorterClosed⟩ := closed.balanced rfl
    exact ⟨levelName.trans levelClosed, Nat.le_trans shorterClosed shorterName⟩
  · have ⟨levelEquals, shorterEquals⟩ := equals.balanced rfl
    have ⟨level, shorter⟩ := balanced _ _ _ (by omega) readsValue
    have ⟨levelClosed, shorterClosed⟩ := closed.balanced rfl
    exact ⟨by omega, by omega⟩

theorem balanced_initializerRule (balanced : nested.Balanced limit) :
    (initializerRule nested).Balanced limit := by
  intro tokens result rest short reads
  rcases reads_initializerRule_iff.mp reads with ⟨closed, _⟩ | ⟨behind, first, word, readsFirst, _⟩ |
    ⟨_, _, first, readsFirst, _⟩
  · exact closed.balanced rfl
  · have ⟨levelWord, shorterWord⟩ := word.balanced rfl
    have ⟨level, shorter⟩ := balanced_variableRule balanced _ _ _ (by omega) readsFirst
    exact ⟨levelWord.trans level, Nat.le_trans shorter shorterWord⟩
  · exact balanced_expressionStatementRule balanced _ _ _ short readsFirst

/-- A condition in parentheses. -/
theorem balanced_condition (balanced : nested.Balanced limit) {tokens opened closing behind : List Token}
    {condition : Expression Unit} (short : tokens.length ≤ limit) (opening : Takes .leftParen tokens opened)
    (reads : nested.Reads opened condition closing) (closed : Takes .rightParen closing behind) :
    depth tokens = depth behind ∧ behind.length ≤ tokens.length := by
  have shorter := opening.length_eq
  have ⟨level, shorterClosing⟩ := balanced _ _ _ (by omega) reads
  rw [opening.depth_eq, level, closed.depth_eq]
  have shorterBehind := closed.length_eq
  exact ⟨by simp only [Kind.opens]; omega, by omega⟩

theorem balanced_forRule (balanced : nested.Balanced limit) (balancedStatement : statement.Balanced limit) :
    (forRule nested statement).Balanced limit := by
  intro tokens value rest short reads
  obtain ⟨opened, initializer, afterInitializer, condition, afterCondition, behindCondition, increment,
    closing, behind, body, opening, readsInitializer, readsCondition, separated, readsIncrement, closed,
    readsBody, _⟩ := reads_forRule_iff.mp reads
  have level := opening.depth_eq
  have shorter := opening.length_eq
  have ⟨levelInitializer, shorterInitializer⟩ :=
    balanced_initializerRule balanced _ _ _ (by omega) readsInitializer
  have ⟨levelCondition, shorterCondition⟩ :=
    balanced_optionalBefore balanced _ _ _ _ (by omega) readsCondition
  have ⟨levelSeparated, shorterSeparated⟩ := separated.balanced rfl
  have ⟨levelIncrement, shorterIncrement⟩ :=
    balanced_optionalBefore balanced _ _ _ _ (by omega) readsIncrement
  have levelClosed := closed.depth_eq
  have shorterClosed := closed.length_eq
  have ⟨levelBody, shorterBody⟩ := balancedStatement _ _ _ (by omega) readsBody
  simp only [Kind.opens] at level levelClosed
  exact ⟨by omega, by omega⟩

theorem balanced_conditionalRule (balanced : nested.Balanced limit)
    (balancedStatement : statement.Balanced limit) :
    (conditionalRule nested statement).Balanced limit := by
  intro tokens value rest short reads
  obtain ⟨opened, condition, closing, behind, thenBranch, afterThen, opening, readsCondition, closed,
    readsThen, branches⟩ := reads_conditionalRule_iff.mp reads
  have ⟨level, shorter⟩ := balanced_condition balanced short opening readsCondition closed
  have ⟨levelThen, shorterThen⟩ := balancedStatement _ _ _ (by omega) readsThen
  rcases branches with ⟨_, rfl, _⟩ | ⟨afterElse, elseBranch, isElse, readsElse, _⟩
  · exact ⟨level.trans levelThen, Nat.le_trans shorterThen shorter⟩
  · have ⟨levelWord, shorterWord⟩ := isElse.balanced rfl
    have ⟨levelElse, shorterElse⟩ := balancedStatement _ _ _ (by omega) readsElse
    exact ⟨by omega, by omega⟩

theorem balanced_whileRule (balanced : nested.Balanced limit)
    (balancedStatement : statement.Balanced limit) : (whileRule nested statement).Balanced limit := by
  intro tokens value rest short reads
  obtain ⟨opened, condition, closing, behind, body, opening, readsCondition, closed, readsBody, _⟩ :=
    reads_whileRule_iff.mp reads
  have ⟨level, shorter⟩ := balanced_condition balanced short opening readsCondition closed
  have ⟨levelBody, shorterBody⟩ := balancedStatement _ _ _ (by omega) readsBody
  exact ⟨level.trans levelBody, Nat.le_trans shorterBody shorter⟩

theorem balanced_many (balanced : declaration.Balanced limit) (stop : List Token → Bool) (bound : Nat) :
    (many declaration stop bound).Balanced limit := by
  induction bound with
  | zero =>
      intro tokens items rest _ reads
      obtain ⟨_, rfl⟩ := reads_pure_iff.mp reads
      exact ⟨rfl, Nat.le_refl _⟩
  | succ bound inductionHypothesis =>
      intro tokens items rest short reads
      rcases reads_many_iff.mp reads with ⟨_, _, rfl⟩ | ⟨_, first, between, later, one, following, _⟩
      · exact ⟨rfl, Nat.le_refl _⟩
      · have ⟨level, shorter⟩ := balanced _ _ _ short one
        have ⟨levelLater, shorterLater⟩ :=
          inductionHypothesis _ _ _ (Nat.le_trans shorter short) following
        exact ⟨level.trans levelLater, Nat.le_trans shorterLater shorter⟩

theorem balanced_blockRule (balanced : declaration.Balanced limit) (bound : Nat) :
    (blockRule declaration bound).Balanced limit := by
  intro tokens items rest short reads
  obtain ⟨closing, readsItems, closed⟩ := reads_blockRule_iff.mp reads
  have ⟨level, shorter⟩ := balanced_many balanced _ _ _ _ _ short readsItems
  have ⟨levelClosed, shorterClosed⟩ := closed.balanced rfl
  exact ⟨level.trans levelClosed, Nat.le_trans shorterClosed shorter⟩

/-- What stands between the name of a function and its body. -/
theorem balanced_parameters {tokens opened closing afterParameters behind : List Token}
    {parameters : List Name} (short : tokens.length ≤ bound) (opening : Takes .leftParen tokens opened)
    (reads : (list (nameRule .parameter) .tooManyParameters bound).Reads opened parameters closing)
    (closed : Takes .rightParen closing afterParameters) (brace : Takes .leftBrace afterParameters behind) :
    depth tokens = depth behind ∧ behind.length ≤ tokens.length := by
  have shorter := opening.length_eq
  obtain ⟨spelled, split, flat⟩ := flat_of_parameters (by omega) reads
  have length := congrArg List.length split
  rw [List.length_append, closed.length_eq, brace.length_eq] at length
  rw [opening.depth_eq, split, depth_append, flat.balanced, closed.depth_eq, brace.depth_eq]
  exact ⟨by simp only [Kind.opens]; omega, by omega⟩

theorem balanced_functionRule (balanced : declaration.Balanced limit) (enough : limit ≤ bound) :
    (functionRule declaration bound).Balanced limit := by
  intro tokens value rest short reads
  obtain ⟨name, afterName, opened, parameters, closing, afterParameters, behind, body, readsName, opening,
    readsParameters, closed, brace, readsBody, _⟩ := reads_functionRule_iff.mp reads
  have ⟨levelName, shorterName⟩ := balanced_nameRule _ _ _ _ short readsName
  have ⟨level, shorter⟩ := balanced_parameters (by omega) opening readsParameters closed brace
  have ⟨levelBody, shorterBody⟩ := balanced_blockRule balanced bound _ _ _ (by omega) readsBody
  exact ⟨by omega, by omega⟩

end Rules

/-! ## The nesting -/

theorem balanced_statementRule {limit : Nat} (balancedStatement : (statement limit).Balanced limit)
    (balancedDeclaration : (declaration limit).Balanced limit) :
    (statement (limit + 1)).Balanced (limit + 1) := by
  have balanced := balanced_expression (limit + 1)
  have nested : (expression (limit + 1)).Balanced limit :=
    fun _ _ _ short => balanced _ _ _ (Nat.le_succ_of_le short)
  intro tokens value rest short reads
  -- What stands behind a word is balanced on shorter lists, and no word is a parenthesis.
  have marked {kind : Token.Kind} {behind : List Token} (word : Takes kind tokens behind)
      (level : kind.opens = 0)
      (balancedRule : behind.length ≤ limit → depth behind = depth rest ∧ rest.length ≤ behind.length) :
      depth tokens = depth rest ∧ rest.length ≤ tokens.length := by
    have shorter := word.length_eq
    have ⟨levelWord, _⟩ := word.balanced level
    have ⟨levelRule, shorterRule⟩ := balancedRule (by omega)
    exact ⟨levelWord.trans levelRule, by omega⟩
  cases reads_statement_iff.mp reads with
  | threeClauses behind word rule =>
      exact marked word rfl fun short => balanced_forRule nested balancedStatement _ _ _ short rule
  | conditional behind word rule =>
      exact marked word rfl fun short => balanced_conditionalRule nested balancedStatement _ _ _ short rule
  | print behind word rule =>
      refine marked word rfl fun short => ?_
      obtain ⟨inner, closing, readsInner, closed, _⟩ := reads_printRule_iff.mp rule
      have ⟨levelInner, shorterInner⟩ := nested _ _ _ short readsInner
      have ⟨levelClosed, shorterClosed⟩ := closed.balanced rfl
      exact ⟨levelInner.trans levelClosed, Nat.le_trans shorterClosed shorterInner⟩
  | returning token behind split word rule =>
      refine marked ⟨token, split, word⟩ rfl fun short => ?_
      obtain ⟨result, closing, readsResult, closed, _⟩ := reads_returnRule_iff.mp rule
      have ⟨levelResult, shorterResult⟩ := balanced_optionalBefore nested _ _ _ _ short readsResult
      have ⟨levelClosed, shorterClosed⟩ := closed.balanced rfl
      exact ⟨levelResult.trans levelClosed, Nat.le_trans shorterClosed shorterResult⟩
  | loop behind word rule =>
      exact marked word rfl fun short => balanced_whileRule nested balancedStatement _ _ _ short rule
  | block behind items brace rule _ =>
      exact marked brace rfl fun short => balanced_blockRule balancedDeclaration _ _ _ _ short rule
  | expression _ rule => exact balanced_expressionStatementRule balanced _ _ _ short rule

theorem balanced_statement_and_declaration (bound : Nat) :
    (statement bound).Balanced bound ∧ (declaration bound).Balanced bound := by
  induction bound with
  | zero =>
      exact ⟨fun _ _ _ _ reads => absurd reads not_reads_fail,
        fun _ _ _ _ reads => absurd reads not_reads_declaration_zero⟩
  | succ bound inductionHypothesis =>
      have ⟨balancedStatement, balancedDeclaration⟩ := inductionHypothesis
      have statements := balanced_statementRule balancedStatement balancedDeclaration
      refine ⟨statements, fun tokens result rest short reads => ?_⟩
      obtain ⟨value, _, ⟨behind, word, rule⟩ | ⟨behind, word, rule⟩ | ⟨_, _, rule⟩⟩ :=
        reads_declaration_iff.mp reads
      · have shorter := word.length_eq
        have ⟨levelWord, _⟩ := word.balanced rfl
        have ⟨level, shorterRest⟩ :=
          balanced_functionRule balancedDeclaration (Nat.le_succ bound) _ _ _ (by omega) rule
        exact ⟨levelWord.trans level, by omega⟩
      · have shorter := word.length_eq
        have ⟨levelWord, _⟩ := word.balanced rfl
        have ⟨level, shorterRest⟩ :=
          balanced_variableRule (balanced_expression (bound + 1)) _ _ _ (by omega) rule
        exact ⟨levelWord.trans level, by omega⟩
      · exact statements _ _ _ short rule

end Grammar

end LoxInterpreter
