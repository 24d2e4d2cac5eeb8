import LoxInterpreter.Grammar.Statement

/-!
Contract: the trees that source text can denote, and the tokens that write them.

A tree is normal when every operand stands at a place that is tight enough for it, when declarations
stand only at the top level and directly in blocks and bodies, when no `else` could be taken for that
of an inner choice, and when no list of arguments or parameters is too long. Writing puts down the
tokens of a tree in order, with the lines that the tree keeps; all other tokens stand on line zero.

Owns: the rank of an expression, `Normal`, `tokens`, and `Token.content`, which is what a token is
apart from its position.
Does not own: that reading and writing agree (`Proofs.Grammar.Soundness`,
`Proofs.Grammar.Completeness`).
-/

namespace LoxInterpreter

/-- What a token is apart from its position: its kind, and its name if it is an identifier. -/
def Token.content (token : Token) : Token.Kind × String :=
  (token.kind, if token.kind = .identifier then token.lexeme else "")

/-- Whether two token lists differ in positions alone. -/
def Token.SameContent (first second : List Token) : Prop :=
  first.map Token.content = second.map Token.content

/-! ## Tightness -/

/-- The level on which an operator stands. -/
def LogicalOperator.level : LogicalOperator → Grammar.Level
  | and => .conjunction
  | or => .disjunction

namespace Grammar

/-- How tightly the operators of a level bind; an assignment has rank zero. -/
def Level.rank : Level → Nat
  | disjunction => 1
  | conjunction => 2
  | equality => 3
  | comparison => 4
  | sum => 5
  | product => 6

/-- The rank of operators on one operand. -/
def unaryRank : Nat := 7

/-- The rank of calls. -/
def callRank : Nat := 8

/-- The rank of what stands for itself or in parentheses. -/
def primaryRank : Nat := 9

end Grammar

variable {Known : Type}

/-- How tightly the outermost construct of an expression binds. -/
def Expression.rank : Expression Known → Nat
  | .constant _ | .grouping _ | .variable _ _ => Grammar.primaryRank
  | .assignment _ _ _ => 0
  | .unary _ _ _ => Grammar.unaryRank
  | .binary operator _ _ _ => operator.level.rank
  | .logical operator _ _ _ => operator.level.rank
  | .call _ _ _ => Grammar.callRank

/-! ## Normal trees -/

mutual

/-- Whether every operand of an expression binds tightly enough for its place. -/
def Expression.Normal : Expression Known → Prop
  | .constant _ => True
  | .grouping inner => inner.Normal
  | .variable _ _ => True
  | .assignment _ _ value => value.Normal
  | .unary _ _ operand => Grammar.unaryRank ≤ operand.rank ∧ operand.Normal
  | .binary operator _ left right =>
      operator.level.rank ≤ left.rank ∧ operator.level.rank < right.rank ∧
        left.Normal ∧ right.Normal
  | .logical operator _ left right =>
      operator.level.rank ≤ left.rank ∧ operator.level.rank < right.rank ∧
        left.Normal ∧ right.Normal
  | .call callee arguments _ =>
      Grammar.callRank ≤ callee.rank ∧ callee.Normal ∧ arguments.length ≤ Grammar.itemLimit ∧
        Expression.listNormal arguments

/-- Whether several expressions are normal. -/
def Expression.listNormal : List (Expression Known) → Prop
  | [] => True
  | first :: rest => first.Normal ∧ Expression.listNormal rest

end

theorem Expression.listNormal_iff {expressions : List (Expression Known)} :
    Expression.listNormal expressions ↔ ∀ expression ∈ expressions, expression.Normal := by
  induction expressions with
  | nil => simp [Expression.listNormal]
  | cons first rest inductionHypothesis => simp [Expression.listNormal, inductionHypothesis]

/-- Whether a statement declares a name where it stands. -/
def Statement.isDeclaration : Statement Known → Bool
  | .declaration _ _ | .function _ _ _ => true
  | _ => false

/-- Whether a statement ends in a choice that an `else` behind it would extend. -/
def Statement.endsOpen : Statement Known → Bool
  | .conditional _ _ none => true
  | .conditional _ _ (some elseBranch) => elseBranch.endsOpen
  | .loop _ body => body.endsOpen
  | _ => false

mutual

/-- Whether a statement can be written: its expressions are normal, its branches and loop bodies
declare nothing, and an `else` belongs to the choice that it is written behind. -/
def Statement.Normal : Statement Known → Prop
  | .expression value => value.Normal
  | .print value => value.Normal
  | .declaration _ initializer => ∀ value ∈ initializer, value.Normal
  | .function _ parameters body =>
      parameters.length ≤ Grammar.itemLimit ∧ Statement.listNormal body
  | .block items => Statement.listNormal items
  | .conditional condition thenBranch none =>
      condition.Normal ∧ thenBranch.isDeclaration = false ∧ thenBranch.Normal
  | .conditional condition thenBranch (some elseBranch) =>
      condition.Normal ∧ (thenBranch.isDeclaration = false ∧ thenBranch.endsOpen = false ∧
        thenBranch.Normal) ∧ elseBranch.isDeclaration = false ∧ elseBranch.Normal
  | .loop condition body => condition.Normal ∧ body.isDeclaration = false ∧ body.Normal
  | .returning _ result => ∀ value ∈ result, value.Normal

/-- Whether several statements can be written. -/
def Statement.listNormal : List (Statement Known) → Prop
  | [] => True
  | first :: rest => first.Normal ∧ Statement.listNormal rest

end

/-! ## Writing -/

namespace Token

/-- A mark or word that a tree keeps no line for. -/
def unplaced (kind : Kind) : Token := .ofSymbol kind 0

/-- The token lists with commas between them. -/
def joinedByCommas : List (List Token) → List Token
  | [] => []
  | [only] => only
  | first :: second :: rest => first ++ unplaced .comma :: joinedByCommas (second :: rest)

end Token

/-- The token of a constant. -/
def Constant.token : Constant → Token
  | .nil => .unplaced (.keyword .nilWord)
  | .boolean true => .unplaced (.keyword .trueWord)
  | .boolean false => .unplaced (.keyword .falseWord)
  | .number value => ⟨.number value, Number.text value, 0⟩
  | .string value => ⟨.string value, "\"" ++ value ++ "\"", 0⟩

mutual

/-- The tokens that write an expression. -/
def Expression.tokens : Expression Known → List Token
  | .constant value => [value.token]
  | .grouping inner => .unplaced .leftParen :: (inner.tokens ++ [.unplaced .rightParen])
  | .variable name _ => [name.token]
  | .assignment name _ value => name.token :: .unplaced .equal :: value.tokens
  | .unary operator line operand => .ofSymbol operator.kind line :: operand.tokens
  | .binary operator line left right =>
      left.tokens ++ .ofSymbol operator.kind line :: right.tokens
  | .logical operator line left right =>
      left.tokens ++ .ofSymbol operator.kind line :: right.tokens
  | .call callee arguments line =>
      callee.tokens ++ .unplaced .leftParen ::
        (Token.joinedByCommas (Expression.eachTokens arguments) ++ [.ofSymbol .rightParen line])

/-- The tokens that write each of several expressions. -/
def Expression.eachTokens : List (Expression Known) → List (List Token)
  | [] => []
  | first :: rest => first.tokens :: Expression.eachTokens rest

end

theorem Expression.eachTokens_eq_map (expressions : List (Expression Known)) :
    Expression.eachTokens expressions = expressions.map Expression.tokens := by
  induction expressions with
  | nil => rfl
  | cons first rest inductionHypothesis => simp [Expression.eachTokens, inductionHypothesis]

mutual

/-- The tokens that write a statement. -/
def Statement.tokens : Statement Known → List Token
  | .expression value => value.tokens ++ [.unplaced .semicolon]
  | .print value => .unplaced (.keyword .printWord) :: (value.tokens ++ [.unplaced .semicolon])
  | .declaration name none =>
      [.unplaced (.keyword .varWord), name.token, .unplaced .semicolon]
  | .declaration name (some initializer) =>
      .unplaced (.keyword .varWord) :: name.token :: .unplaced .equal ::
        (initializer.tokens ++ [.unplaced .semicolon])
  | .function name parameters body =>
      .unplaced (.keyword .funWord) :: name.token :: .unplaced .leftParen ::
        (Token.joinedByCommas (parameters.map fun parameter => [parameter.token]) ++
          .unplaced .rightParen :: .unplaced .leftBrace ::
            (Statement.listTokens body ++ [.unplaced .rightBrace]))
  | .block items =>
      .unplaced .leftBrace :: (Statement.listTokens items ++ [.unplaced .rightBrace])
  | .conditional condition thenBranch none =>
      .unplaced (.keyword .ifWord) :: .unplaced .leftParen ::
        (condition.tokens ++ .unplaced .rightParen :: thenBranch.tokens)
  | .conditional condition thenBranch (some elseBranch) =>
      .unplaced (.keyword .ifWord) :: .unplaced .leftParen ::
        (condition.tokens ++ .unplaced .rightParen ::
          (thenBranch.tokens ++ .unplaced (.keyword .elseWord) :: elseBranch.tokens))
  | .loop condition body =>
      .unplaced (.keyword .whileWord) :: .unplaced .leftParen ::
        (condition.tokens ++ .unplaced .rightParen :: body.tokens)
  | .returning line none =>
      [.ofSymbol (.keyword .returnWord) line, .unplaced .semicolon]
  | .returning line (some value) =>
      .ofSymbol (.keyword .returnWord) line :: (value.tokens ++ [.unplaced .semicolon])

/-- The tokens that write several statements, one after another. -/
def Statement.listTokens : List (Statement Known) → List Token
  | [] => []
  | first :: rest => first.tokens ++ Statement.listTokens rest

end

theorem Expression.tokens_length_pos (value : Expression Known) : 0 < value.tokens.length := by
  cases value <;> simp only [Expression.tokens, List.length_append, List.length_cons] <;> omega

theorem Statement.tokens_length_pos (value : Statement Known) : 0 < value.tokens.length := by
  cases value with
  | declaration name initializer => cases initializer <;> simp [Statement.tokens]
  | conditional condition thenBranch elseBranch => cases elseBranch <;> simp [Statement.tokens]
  | returning line result => cases result <;> simp [Statement.tokens]
  | _ => simp [Statement.tokens]

/-! ## Contents of token lists -/

namespace Token

@[simp] theorem kind_unplaced (kind : Kind) : (unplaced kind).kind = kind := rfl

@[simp] theorem kind_ofSymbol (kind : Kind) (line : Nat) : (ofSymbol kind line).kind = kind := rfl

@[simp] theorem kind_nameToken (name : Name) : name.token.kind = .identifier := rfl

theorem SameContent.refl (tokens : List Token) : SameContent tokens tokens := rfl

theorem SameContent.cons {first second : Token} {others others' : List Token}
    (same : first.content = second.content) (behind : SameContent others others') :
    SameContent (first :: others) (second :: others') := by
  simp only [SameContent, List.map_cons, same]
  exact congrArg _ behind

theorem SameContent.append {first second others others' : List Token}
    (front : SameContent first second) (behind : SameContent others others') :
    SameContent (first ++ others) (second ++ others') := by
  unfold SameContent at front behind ⊢
  rw [List.map_append, List.map_append, front, behind]

theorem SameContent.length_eq {first second : List Token} (same : SameContent first second) :
    first.length = second.length := by
  simpa using congrArg List.length same

/-- A token that is no identifier is its kind. -/
theorem content_eq_of_kind {first second : Token} (same : first.kind = second.kind)
    (noName : first.kind ≠ .identifier) : first.content = second.content := by
  simp [content, ← same, noName]

end Token

/-! ## The closing token writes nothing -/

/-- Whether a token list goes on at every token. -/
def Token.Inner (tokens : List Token) : Prop :=
  ∀ token ∈ tokens, token.kind ≠ .endOfInput

namespace Token

@[simp] theorem inner_nil : Inner [] := by simp [Inner]

@[simp] theorem inner_cons {token : Token} {rest : List Token} :
    Inner (token :: rest) ↔ token.kind ≠ .endOfInput ∧ Inner rest := by simp [Inner]

@[simp] theorem inner_append {first second : List Token} :
    Inner (first ++ second) ↔ Inner first ∧ Inner second := by
  simp only [Inner, List.mem_append, or_imp, forall_and]

theorem inner_joinedByCommas {lists : List (List Token)} (inner : ∀ list ∈ lists, Inner list) :
    Inner (joinedByCommas lists) := by
  induction lists with
  | nil => simp [joinedByCommas]
  | cons first rest inductionHypothesis =>
      have innerRest := inductionHypothesis fun list member => inner list (List.mem_cons_of_mem _ member)
      cases rest with
      | nil => exact inner first List.mem_cons_self
      | cons second rest => simp [joinedByCommas, innerRest, inner first List.mem_cons_self]

end Token

mutual

theorem Expression.inner_tokens : (value : Expression Known) → Token.Inner value.tokens
  | .constant value => by
      cases value with
      | boolean truth => cases truth <;> simp [Expression.tokens, Constant.token]
      | _ => simp [Expression.tokens, Constant.token]
  | .grouping inner => by simp [Expression.tokens, inner.inner_tokens]
  | .variable name _ => by simp [Expression.tokens]
  | .assignment name _ value => by simp [Expression.tokens, value.inner_tokens]
  | .unary operator line operand => by
      cases operator <;> simp [Expression.tokens, operand.inner_tokens, UnaryOperator.kind]
  | .binary operator line left right => by
      cases operator <;>
        simp [Expression.tokens, left.inner_tokens, right.inner_tokens, BinaryOperator.kind]
  | .logical operator line left right => by
      cases operator <;>
        simp [Expression.tokens, left.inner_tokens, right.inner_tokens, LogicalOperator.kind]
  | .call callee arguments line => by
      have inside := Token.inner_joinedByCommas (Expression.inner_eachTokens arguments)
      simp [Expression.tokens, callee.inner_tokens, inside]

theorem Expression.inner_eachTokens : (values : List (Expression Known)) →
    ∀ list ∈ Expression.eachTokens values, Token.Inner list
  | [] => by simp [Expression.eachTokens]
  | first :: rest => by
      intro list member
      rcases List.mem_cons.mp member with rfl | behind
      · exact first.inner_tokens
      · exact Expression.inner_eachTokens rest list behind

end

mutual

theorem Statement.inner_tokens : (value : Statement Known) → Token.Inner value.tokens
  | .expression value => by simp [Statement.tokens, value.inner_tokens]
  | .print value => by simp [Statement.tokens, value.inner_tokens]
  | .declaration name none => by simp [Statement.tokens]
  | .declaration name (some initializer) => by simp [Statement.tokens, initializer.inner_tokens]
  | .function name parameters body => by
      have inside : Token.Inner
          (Token.joinedByCommas (parameters.map fun parameter => [parameter.token])) :=
        Token.inner_joinedByCommas (by simp)
      simp [Statement.tokens, inside, Statement.inner_listTokens body]
  | .block items => by simp [Statement.tokens, Statement.inner_listTokens items]
  | .conditional condition thenBranch none => by
      simp [Statement.tokens, condition.inner_tokens, thenBranch.inner_tokens]
  | .conditional condition thenBranch (some elseBranch) => by
      simp [Statement.tokens, condition.inner_tokens, thenBranch.inner_tokens,
        elseBranch.inner_tokens]
  | .loop condition body => by
      simp [Statement.tokens, condition.inner_tokens, body.inner_tokens]
  | .returning line none => by simp [Statement.tokens]
  | .returning line (some value) => by simp [Statement.tokens, value.inner_tokens]

/-- Nothing is written with the closing token. -/
theorem Statement.inner_listTokens : (values : List (Statement Known)) →
    Token.Inner (Statement.listTokens values)
  | [] => by simp [Statement.listTokens]
  | first :: rest => by
      simp [Statement.listTokens, first.inner_tokens, Statement.inner_listTokens rest]

end

end LoxInterpreter
