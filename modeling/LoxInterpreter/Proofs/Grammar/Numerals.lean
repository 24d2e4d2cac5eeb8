import LoxInterpreter.Proofs.Grammar.Regular
import LoxInterpreter.Proofs.Session.Reachable
import LoxInterpreter.Proofs.Token.Rescanning

/-!
Contract: the numbers of a tree stand in its source.

No rule of the grammar makes up a number, not even where a loop with three clauses is read as another
statement. So whatever holds of the numbers of the tokens holds of those of the tree; of the tokens of a
source, each number is the double nearest to its digits.

Owns: the numbers of a tree, `Parser.Yields`, and `Source.numeral_of_read`.
Does not own: which double a numeral denotes (`Proofs.Number.Rounding`).
-/

namespace LoxInterpreter

/-! ## The numbers of a tree -/

section Numbers

variable {Known : Type}

/-- The number that a constant is. -/
def Constant.numbers : Constant → List Float
  | .number value => [value]
  | .nil | .boolean _ | .string _ => []

mutual

/-- The numbers in an expression, from left to right. -/
def Expression.numbers : Expression Known → List Float
  | .constant value => value.numbers
  | .grouping inner => inner.numbers
  | .variable _ _ => []
  | .assignment _ _ value => value.numbers
  | .unary _ _ operand => operand.numbers
  | .binary _ _ left right => left.numbers ++ right.numbers
  | .logical _ _ left right => left.numbers ++ right.numbers
  | .call callee arguments _ => callee.numbers ++ Expression.listNumbers arguments

/-- The numbers in several expressions. -/
def Expression.listNumbers : List (Expression Known) → List Float
  | [] => []
  | first :: rest => first.numbers ++ Expression.listNumbers rest

end

/-- The numbers in an expression that may be missing. -/
def Expression.optionalNumbers : Option (Expression Known) → List Float
  | none => []
  | some expression => expression.numbers

mutual

/-- The numbers in a statement, from left to right. -/
def Statement.numbers : Statement Known → List Float
  | .expression value => value.numbers
  | .print value => value.numbers
  | .declaration _ initializer => Expression.optionalNumbers initializer
  | .function _ _ body => Statement.listNumbers body
  | .block items => Statement.listNumbers items
  | .conditional condition thenBranch none => condition.numbers ++ thenBranch.numbers
  | .conditional condition thenBranch (some elseBranch) =>
      condition.numbers ++ (thenBranch.numbers ++ elseBranch.numbers)
  | .loop condition body => condition.numbers ++ body.numbers
  | .returning _ value => Expression.optionalNumbers value

/-- The numbers in several statements. -/
def Statement.listNumbers : List (Statement Known) → List Float
  | [] => []
  | first :: rest => first.numbers ++ Statement.listNumbers rest

end

theorem Expression.mem_listNumbers_iff {value : Float} {expressions : List (Expression Known)} :
    value ∈ Expression.listNumbers expressions ↔ ∃ expression ∈ expressions, value ∈ expression.numbers := by
  induction expressions with
  | nil => simp [Expression.listNumbers]
  | cons first rest inductionHypothesis => simp [Expression.listNumbers, inductionHypothesis]

theorem Statement.mem_listNumbers_iff {value : Float} {statements : List (Statement Known)} :
    value ∈ Statement.listNumbers statements ↔ ∃ statement ∈ statements, value ∈ statement.numbers := by
  induction statements with
  | nil => simp [Statement.listNumbers]
  | cons first rest inductionHypothesis => simp [Statement.listNumbers, inductionHypothesis]

end Numbers

namespace Grammar

/-! ## What comes of allowed tokens -/

namespace Parser

variable {α β : Type} {allowed : Token → Prop} {good : α → Prop} {good' : β → Prop}

/-- Whether a parser of allowed tokens leaves allowed tokens, and replies with nothing but good values. -/
def Yields (allowed : Token → Prop) (good : α → Prop) (parser : Parser α) : Prop :=
  ∀ tokens, (∀ token ∈ tokens, allowed token) →
    (∀ token ∈ (parser tokens).rest, allowed token) ∧ ∀ value, (parser tokens).value = some value → good value

/-- A regular parser leaves nothing but what it was given. -/
theorem yields_of_regular {parser : Parser α} (regular : parser.Regular)
    (replies : ∀ tokens, (∀ token ∈ tokens, allowed token) →
      ∀ value, (parser tokens).value = some value → good value) : Yields allowed good parser :=
  fun tokens allowedTokens =>
    ⟨fun token member => allowedTokens token ((regular.suffix tokens).subset member),
      replies tokens allowedTokens⟩

/-- Where the value does not matter, regular is enough. -/
theorem yields_anything {parser : Parser α} (regular : parser.Regular) :
    Yields allowed (fun _ => True) parser :=
  yields_of_regular regular fun _ _ _ _ => trivial

theorem yields_pure {value : α} (holds : good value) : Yields allowed good (pure value) :=
  yields_of_regular (regular_pure value) fun _ _ _ same => Option.some.inj same ▸ holds

theorem yields_fail (cause : SyntaxError.Cause) : Yields allowed good (fail cause) :=
  yields_of_regular (regular_fail cause) fun _ _ _ gaveUp => absurd gaveUp (by simp [fail])

theorem yields_take? {choose : Token → Option α}
    (chosen : ∀ token value, allowed token → choose token = some value → good value) :
    Yields allowed (fun taken => ∀ value, taken = some value → good value) (take? choose) := by
  refine yields_of_regular (regular_take? choose) fun tokens allowedTokens taken replies value isTaken => ?_
  rw [isTaken] at replies
  cases tokens with
  | nil => exact absurd replies (by simp [take?])
  | cons token rest =>
      by_cases ends : token.kind = .endOfInput
      · exact absurd replies (by simp [take?, ends])
      · cases choice : choose token with
        | none => exact absurd replies (by simp [take?, ends, choice])
        | some value' =>
            obtain rfl : value' = value := by simpa [take?, ends, choice] using replies
            exact chosen token value' (allowedTokens token List.mem_cons_self) choice

theorem Yields.bind {first : Parser α} {next : α → Parser β} (yields : Yields allowed good first)
    (following : ∀ value, good value → Yields allowed good' (next value)) :
    Yields allowed good' (first >>= next) := by
  intro tokens allowedTokens
  have ⟨left, values⟩ := yields tokens allowedTokens
  change (∀ token ∈ (Parser.bind first next tokens).rest, allowed token) ∧
    ∀ value, (Parser.bind first next tokens).value = some value → good' value
  unfold Parser.bind
  cases reply : first tokens with
  | mk value errors between =>
      rw [reply] at left values
      cases value with
      | none => exact ⟨left, fun _ gaveUp => absurd gaveUp (by simp)⟩
      | some value => exact following value (values value rfl) between left

/-- The value of one parser, built into another value. -/
theorem Yields.build {parser : Parser α} {build : α → β} (yields : Yields allowed good parser)
    (holds : ∀ value, good value → good' (build value)) :
    Yields allowed good' (do return build (← parser)) :=
  yields.bind fun value isGood => yields_pure (holds value isGood)

/-- A mark or word that is taken in front. -/
theorem Yields.behind {first : Parser α} {next : α → Parser β} (regular : first.Regular)
    (following : ∀ value, Yields allowed good' (next value)) : Yields allowed good' (first >>= next) :=
  (yields_anything regular).bind fun value _ => following value

theorem yields_ite {condition : Prop} [Decidable condition] {first second : Parser α}
    (yields : Yields allowed good first) (yields' : Yields allowed good second) :
    Yields allowed good (if condition then first else second) := by
  split
  · exact yields
  · exact yields'

theorem yields_grow {step : α → Parser (Option α)}
    (yields : ∀ value, good value →
      Yields allowed (fun grown => ∀ value, grown = some value → good value) (step value))
    (bound : Nat) {value : α} (holds : good value) : Yields allowed good (grow step bound value) := by
  induction bound generalizing value with
  | zero => exact yields_pure holds
  | succ bound inductionHypothesis =>
      refine (yields value holds).bind fun grown isGood => ?_
      cases grown with
      | none => exact yields_pure holds
      | some grown => exact inductionHypothesis (isGood grown rfl)

theorem yields_commaSeparated {item : Parser α} {excess : SyntaxError.Cause}
    (yields : Yields allowed good item) (bound count : Nat) :
    Yields allowed (fun items => ∀ value ∈ items, good value) (commaSeparated item excess bound count) := by
  induction bound generalizing count with
  | zero => exact yields_pure (by simp)
  | succ bound inductionHypothesis =>
      have following : Yields allowed (fun items => ∀ value ∈ items, good value) (do
          let first ← item
          if ← accept .comma then
            return first :: (← commaSeparated item excess bound (count + 1))
          else return [first] : Parser (List α)) := by
        refine yields.bind fun first isGood => .behind (regular_accept .comma) fun more => ?_
        refine yields_ite ?_ (yields_pure (by simpa using isGood))
        exact (inductionHypothesis (count + 1)).build fun later areGood =>
          List.forall_mem_cons.mpr ⟨isGood, areGood⟩
      rw [commaSeparated]
      exact yields_ite (.behind (regular_reportHere excess) fun _ => following) following

theorem yields_list {item : Parser α} {excess : SyntaxError.Cause} (yields : Yields allowed good item)
    (bound : Nat) : Yields allowed (fun items => ∀ value ∈ items, good value) (list item excess bound) :=
  .behind (regular_nextIs .rightParen) fun _ =>
    yields_ite (yields_pure (by simp)) (yields_commaSeparated yields bound 0)

theorem Yields.recovering {parser : Parser α} (yields : Yields allowed good parser) :
    Yields allowed (fun result => ∀ value, result = some value → good value) parser.recovering := by
  intro tokens allowedTokens
  have ⟨left, values⟩ := yields tokens allowedTokens
  unfold Parser.recovering
  cases reply : parser tokens with
  | mk value errors between =>
      rw [reply] at left values
      cases value with
      | none =>
          exact ⟨fun token member => left token ((resumption_suffix between).subset member), by simp⟩
      | some value => exact ⟨left, by simpa using values value rfl⟩

theorem yields_many {item : Parser (Option α)} {stop : List Token → Bool}
    (yields : Yields allowed (fun result => ∀ value, result = some value → good value) item) (bound : Nat) :
    Yields allowed (fun items => ∀ value ∈ items, good value) (many item stop bound) := by
  induction bound with
  | zero => exact yields_pure (by simp)
  | succ bound inductionHypothesis =>
      have following : Yields allowed (fun items => ∀ value ∈ items, good value) (do
          let first ← item
          return first.toList ++ (← many item stop bound) : Parser (List α)) :=
        yields.bind fun first isGood => inductionHypothesis.build fun later areGood =>
          List.forall_mem_append.mpr ⟨fun value member => isGood value (Option.mem_toList.mp member), areGood⟩
      intro tokens allowedTokens
      rw [many]
      by_cases stops : stop tokens = true
      · simpa [stops] using allowedTokens
      · simp only [stops, Bool.false_eq_true, if_false]
        exact following tokens allowedTokens

end Parser

open LoxInterpreter.Grammar.Parser

/-! ## Rules -/

section Rules

variable {good : Float → Prop}

/-- Whether the number that a token may be is good. -/
def GoodNumber (good : Float → Prop) (token : Token) : Prop := ∀ value, token.kind = .number value → good value

/-- Whether a parser of good numbers reads nothing but expressions with good numbers. -/
abbrev YieldsExpression (good : Float → Prop) (parser : Parser (Expression Unit)) : Prop :=
  Yields (GoodNumber good) (fun expression => ∀ value ∈ expression.numbers, good value) parser

/-- Whether a parser of good numbers reads nothing but statements with good numbers. -/
abbrev YieldsStatement (good : Float → Prop) (parser : Parser (Statement Unit)) : Prop :=
  Yields (GoodNumber good) (fun statement => ∀ value ∈ statement.numbers, good value) parser

/-- The same for a declaration that may be left out. -/
abbrev YieldsDeclaration (good : Float → Prop) (parser : Parser (Option (Statement Unit))) : Prop :=
  Yields (GoodNumber good)
    (fun result => ∀ statement, result = some statement → ∀ value ∈ statement.numbers, good value) parser

variable {nested nestedUnary operand : Parser (Expression Unit)}
  {nestedStatement : Parser (Statement Unit)} {nestedDeclaration : Parser (Option (Statement Unit))}

/-- A token that stands for itself is the only place where a number comes from. -/
theorem numbers_of_atom {token : Token} {expression : Expression Unit} (allowed : GoodNumber good token)
    (isAtom : atom? token = some expression) : ∀ value ∈ expression.numbers, good value := by
  unfold atom? at isAtom
  split at isAtom <;> simp only [Option.some.injEq, reduceCtorEq] at isAtom <;> subst isAtom <;>
    simp [Expression.numbers, Constant.numbers]
  exact allowed _ ‹_›

theorem yields_primaryRule (yields : YieldsExpression good nested) :
    YieldsExpression good (primaryRule nested) := by
  refine (yields_take? fun _ _ => numbers_of_atom).bind fun atom isGood => ?_
  cases atom with
  | some atom => exact yields_pure (isGood atom rfl)
  | none =>
      refine .behind (regular_accept .leftParen) fun _ => yields_ite ?_ (yields_fail _)
      exact yields.bind fun inner isGood => .behind (regular_expect _ _) fun _ => yields_pure isGood

theorem yields_callRule (yields : YieldsExpression good nested) (bound : Nat) :
    YieldsExpression good (callRule nested bound) := by
  refine (yields_primaryRule yields).bind fun callee isGood =>
    yields_grow (fun callee isGood => ?_) bound isGood
  refine .behind (regular_accept .leftParen) fun _ => yields_ite ?_ (yields_pure (by simp))
  refine (yields_list yields bound).bind fun arguments areGood => .behind (regular_expect _ _) fun _ => ?_
  refine yields_pure fun call isCall value member => ?_
  obtain rfl := Option.some.inj isCall
  rcases List.mem_append.mp member with inCallee | inArguments
  · exact isGood value inCallee
  · obtain ⟨argument, isArgument, inArgument⟩ := Expression.mem_listNumbers_iff.mp inArguments
    exact areGood argument isArgument value inArgument

theorem yields_unaryRule (yieldsUnary : YieldsExpression good nestedUnary)
    (yields : YieldsExpression good nested) (bound : Nat) :
    YieldsExpression good (unaryRule nestedUnary nested bound) := by
  refine .behind (regular_take? unaryOperator?) fun operator => ?_
  cases operator with
  | some operator => exact yieldsUnary.build fun _ isGood => isGood
  | none => exact yields_callRule yields bound

theorem Level.numbers_build {level : Level} {token : Token}
    {build : Expression Unit → Expression Unit → Expression Unit} (built : level.build? token = some build)
    (left right : Expression Unit) : (build left right).numbers = left.numbers ++ right.numbers := by
  unfold Level.build? at built
  split at built
  · cases built
    rfl
  · cases built
    rfl
  · split at built
    · split at built
      · cases built
        rfl
      · cases built
    · cases built

theorem yields_operatorsRule (yields : YieldsExpression good operand) (bound : Nat) (levels : List Level) :
    YieldsExpression good (operatorsRule operand bound levels) := by
  induction levels with
  | nil => exact yields
  | cons level tighter inductionHypothesis =>
      refine inductionHypothesis.bind fun left isGood => yields_grow (fun left isGood => ?_) bound isGood
      have builds : Yields (GoodNumber good) (fun taken => ∀ build, taken = some build →
          ∀ left right, (build left right).numbers = left.numbers ++ right.numbers)
          (take? level.build?) := yields_take? fun _ _ _ => Level.numbers_build
      refine builds.bind fun build numbers => ?_
      cases build with
      | none => exact yields_pure (by simp)
      | some build =>
          refine inductionHypothesis.build fun right isGoodRight _ isBuilt => ?_
          obtain rfl := Option.some.inj isBuilt
          rw [numbers build rfl]
          exact List.forall_mem_append.mpr ⟨isGood, isGoodRight⟩

theorem yields_assignmentRule (yieldsOperand : YieldsExpression good operand)
    (yields : YieldsExpression good nested) (bound : Nat) :
    YieldsExpression good (assignmentRule operand nested bound) := by
  refine (yields_operatorsRule yieldsOperand bound Level.all).bind fun target isGood => ?_
  refine .behind (regular_accept? .equal) fun equals => ?_
  cases equals with
  | none => exact yields_pure isGood
  | some equals =>
      refine yields.bind fun assigned isGoodValue => ?_
      cases target with
      | «variable» name reference => exact yields_pure isGoodValue
      | _ => exact .behind (regular_report _ _) fun _ => yields_pure isGood

theorem yields_unary_and_expression (bound : Nat) :
    YieldsExpression good (unary bound) ∧ YieldsExpression good (expression bound) := by
  induction bound with
  | zero => exact ⟨yields_fail _, yields_fail _⟩
  | succ bound inductionHypothesis =>
      have operands := yields_unaryRule inductionHypothesis.1 inductionHypothesis.2 (bound + 1)
      exact ⟨operands, yields_assignmentRule operands inductionHypothesis.2 (bound + 1)⟩

theorem yields_optionalBefore (yields : YieldsExpression good nested) (mark : Token.Kind) :
    Yields (GoodNumber good) (fun result => ∀ value ∈ Expression.optionalNumbers result, good value)
      (optionalBefore mark nested) :=
  .behind (regular_nextIs mark) fun _ =>
    yields_ite (yields_pure (by simp [Expression.optionalNumbers])) (yields.build fun _ isGood => isGood)

theorem yields_expressionStatementRule (yields : YieldsExpression good nested) :
    YieldsStatement good (expressionStatementRule nested) :=
  yields.bind fun _ isGood => .behind (regular_expect _ _) fun _ => yields_pure isGood

theorem yields_variableRule (yields : YieldsExpression good nested) :
    YieldsStatement good (variableRule nested) := by
  refine .behind (regular_nameRule _) fun name => .behind (regular_accept .equal) fun _ => ?_
  have closing {initializer : Option (Expression Unit)}
      (isGood : ∀ value ∈ Expression.optionalNumbers initializer, good value) : YieldsStatement good (do
        let _ ← expectMark .semicolon .afterVariableDeclaration
        return .declaration name initializer) :=
    .behind (regular_expect _ _) fun _ => yields_pure isGood
  exact yields_ite (yields.bind fun _ isGood => closing isGood) (closing (by simp [Expression.optionalNumbers]))

theorem numbers_of_loop {initializer : Option (Statement Unit)} {condition increment : Option (Expression Unit)}
    {body : Statement Unit}
    (goodInitializer : ∀ first, initializer = some first → ∀ value ∈ first.numbers, good value)
    (goodCondition : ∀ value ∈ Expression.optionalNumbers condition, good value)
    (goodIncrement : ∀ value ∈ Expression.optionalNumbers increment, good value)
    (goodBody : ∀ value ∈ body.numbers, good value) :
    ∀ value ∈ (loopOfClauses initializer condition increment body).numbers, good value := by
  have holds : ∀ value ∈ (condition.getD (.constant (.boolean true))).numbers, good value := by
    cases condition with
    | none => simp [Expression.numbers, Constant.numbers]
    | some condition => exact goodCondition
  cases initializer <;> cases increment <;>
    simp_all [loopOfClauses, Statement.numbers, Statement.listNumbers, Expression.optionalNumbers, or_imp]

theorem yields_forRule (yields : YieldsExpression good nested)
    (yieldsStatement : YieldsStatement good nestedStatement) :
    YieldsStatement good (forRule nested nestedStatement) := by
  refine .behind (regular_expect _ _) fun _ => ?_
  have initializer : YieldsDeclaration good (initializerRule nested) :=
    .behind (regular_accept .semicolon) fun _ => yields_ite (yields_pure (by simp))
      (.behind (regular_accept _) fun _ => yields_ite
        ((yields_variableRule yields).build fun _ isGood _ same => Option.some.inj same ▸ isGood)
        ((yields_expressionStatementRule yields).build fun _ isGood _ same => Option.some.inj same ▸ isGood))
  refine initializer.bind fun _ goodInitializer =>
    (yields_optionalBefore yields _).bind fun _ goodCondition => ?_
  refine .behind (regular_expect _ _) fun _ => (yields_optionalBefore yields _).bind fun _ goodIncrement => ?_
  exact .behind (regular_expect _ _) fun _ => yieldsStatement.build fun _ goodBody =>
    numbers_of_loop goodInitializer goodCondition goodIncrement goodBody

theorem yields_conditionalRule (yields : YieldsExpression good nested)
    (yieldsStatement : YieldsStatement good nestedStatement) :
    YieldsStatement good (conditionalRule nested nestedStatement) := by
  refine .behind (regular_expect _ _) fun _ => yields.bind fun condition goodCondition => ?_
  refine .behind (regular_expect _ _) fun _ => yieldsStatement.bind fun thenBranch goodThen => ?_
  refine .behind (regular_accept _) fun _ => yields_ite ?_ (yields_pure ?_)
  · exact yieldsStatement.build fun _ goodElse => List.forall_mem_append.mpr
      ⟨goodCondition, List.forall_mem_append.mpr ⟨goodThen, goodElse⟩⟩
  · exact List.forall_mem_append.mpr ⟨goodCondition, goodThen⟩

theorem numbers_of_items {items : List (Statement Unit)}
    (areGood : ∀ statement ∈ items, ∀ value ∈ statement.numbers, good value) :
    ∀ value ∈ Statement.listNumbers items, good value := fun value member =>
  have ⟨statement, isItem, inItem⟩ := Statement.mem_listNumbers_iff.mp member
  areGood statement isItem value inItem

theorem yields_blockRule (yields : YieldsDeclaration good nestedDeclaration) (bound : Nat) :
    Yields (GoodNumber good) (fun items => ∀ value ∈ Statement.listNumbers items, good value)
      (blockRule nestedDeclaration bound) :=
  (yields_many yields bound).bind fun _ areGood =>
    .behind (regular_expect _ _) fun _ => yields_pure (numbers_of_items areGood)

theorem yields_functionRule (yields : YieldsDeclaration good nestedDeclaration) (bound : Nat) :
    YieldsStatement good (functionRule nestedDeclaration bound) := by
  refine .behind (regular_nameRule _) fun _ => .behind (regular_expect _ _) fun _ => ?_
  refine .behind (regular_list (regular_nameRule _) bound) fun _ => ?_
  refine .behind (regular_expect _ _) fun _ => .behind (regular_expect _ _) fun _ => ?_
  exact (yields_blockRule yields bound).build fun _ isGood => isGood

theorem yields_statementRule (yields : YieldsExpression good nested)
    (yieldsStatement : YieldsStatement good nestedStatement)
    (yieldsDeclaration : YieldsDeclaration good nestedDeclaration) (bound : Nat) :
    YieldsStatement good (statementRule nested nestedStatement nestedDeclaration bound) := by
  refine .behind (regular_accept _) fun _ => yields_ite (yields_forRule yields yieldsStatement) ?_
  refine .behind (regular_accept _) fun _ => yields_ite (yields_conditionalRule yields yieldsStatement) ?_
  refine .behind (regular_accept _) fun _ => yields_ite
    (yields.bind fun _ isGood => .behind (regular_expect _ _) fun _ => yields_pure isGood) ?_
  refine .behind (regular_accept? _) fun keyword => ?_
  cases keyword with
  | some keyword =>
      exact (yields_optionalBefore yields _).bind fun _ isGood =>
        .behind (regular_expect _ _) fun _ => yields_pure isGood
  | none =>
      have whileRule : YieldsStatement good (whileRule nested nestedStatement) :=
        .behind (regular_expect _ _) fun _ => yields.bind fun _ goodCondition =>
          .behind (regular_expect _ _) fun _ => yieldsStatement.build fun _ goodBody =>
            List.forall_mem_append.mpr ⟨goodCondition, goodBody⟩
      refine .behind (regular_accept _) fun _ => yields_ite whileRule ?_
      refine .behind (regular_accept _) fun _ => yields_ite ?_ (yields_expressionStatementRule yields)
      exact (yields_blockRule yieldsDeclaration bound).build fun _ isGood => isGood

theorem yields_statement_and_declaration (bound : Nat) :
    YieldsStatement good (statement bound) ∧ YieldsDeclaration good (declaration bound) := by
  induction bound with
  | zero => exact ⟨yields_fail _, (yields_fail _).recovering⟩
  | succ bound inductionHypothesis =>
      have ⟨yieldsStatement, yieldsDeclaration⟩ := inductionHypothesis
      have yieldsExpression : YieldsExpression good (expression (bound + 1)) :=
        (yields_unary_and_expression (bound + 1)).2
      have plain := yields_statementRule yieldsExpression yieldsStatement yieldsDeclaration (bound + 1)
      refine ⟨plain, Yields.recovering ?_⟩
      refine .behind (regular_accept _) fun _ => yields_ite (yields_functionRule yieldsDeclaration _) ?_
      exact .behind (regular_accept _) fun _ => yields_ite (yields_variableRule yieldsExpression) plain

/-- What holds of the numbers of the tokens holds of the numbers that are read from them. -/
theorem numbers_of_read {tokens : List Token} (allowed : ∀ token ∈ tokens, GoodNumber good token) :
    ∀ value ∈ Statement.listNumbers (read tokens).statements, good value := by
  have yields : Yields (GoodNumber good) _ (program tokens.length) :=
    yields_many (yields_statement_and_declaration tokens.length).2 tokens.length
  have ⟨_, values⟩ := yields tokens allowed
  unfold read
  dsimp only
  cases reply : (program tokens.length tokens).value with
  | none => simp [Statement.listNumbers]
  | some statements => exact numbers_of_items (values statements reply)

end Rules

end Grammar

/-! ## Sources -/

namespace Source

variable {source : Source} {program : List (Statement Unit)}

/-- Every number of a tree is one of the numerals of its source. -/
theorem numeral_of_read (reads : source.read = .ok program) :
    ∀ value ∈ Statement.listNumbers program, ∃ token ∈ source.scan.tokens, token.kind = .number value := by
  have ⟨_, parses⟩ := Session.read_eq_ok_iff.mp reads
  have statements : (Grammar.read source.scan.tokens).statements = program := by rw [parses]
  rw [← statements]
  exact Grammar.numbers_of_read fun token member value isNumber => ⟨token, member, isNumber⟩

/-- So none of them is less than zero, or NaN. -/
theorem number_inRange (reads : source.read = .ok program) :
    ∀ value ∈ Statement.listNumbers program, value.toBits.toNat ≤ Number.infinityBits := by
  intro value member
  obtain ⟨token, emitted, isNumber⟩ := numeral_of_read reads value member
  have form := Token.form_of_emitted emitted (by simp [isNumber])
  rw [isNumber] at form
  generalize token.literal = carried, token.lexeme.toList = piece at form
  cases form with
  | mark isMark => exact absurd isMark (by simp [Token.marks])
  | integer _ nearest => exact nearest.inRange
  | decimal _ _ nearest => exact nearest.inRange

end Source

end LoxInterpreter
