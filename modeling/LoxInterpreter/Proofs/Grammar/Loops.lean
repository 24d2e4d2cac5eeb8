import LoxInterpreter.Proofs.Grammar.Phrases

/-!
Contract: a loop with three clauses is the loop that one would write with a condition alone.

The clauses and the body of a loop are phrases, and both ways to write the loop put the same phrases into
the same order of running: the initializer in front, the increment behind the body. What is read is the
same tree, although the clauses stand in front of other marks and are read by other rules.

Owns: `LoopClauses`, its two spellings, and `LoopClauses.read_alike`.
Does not own: that phrases are read alike wherever they stand (`Proofs.Grammar.Phrases`).
-/

namespace LoxInterpreter

/-- Whether a statement can be the first clause of a loop. -/
def Statement.isInitializer {Known : Type} : Statement Known → Bool
  | .declaration _ _ | .expression _ => true
  | _ => false

namespace Grammar

open Token LoxInterpreter.Grammar.Parser

/-! ## Clauses -/

variable {bound : Nat} {rest : List Token}

/-- The tokens of an expression that may be missing. -/
def ExpressionPhrase.optionalTokens (phrase : Option ExpressionPhrase) : List Token :=
  phrase.elim [] ExpressionPhrase.tokens

/-- An expression that may be missing, in front of the mark behind it. -/
theorem ExpressionPhrase.reads_optional (phrase : Option ExpressionPhrase) {mark : Token.Kind}
    (ends : mark ∈ [.comma, .rightParen, .semicolon]) (rest : List Token)
    (enough : (ExpressionPhrase.optionalTokens phrase).length ≤ bound) :
    ∃ value, (optionalBefore mark (expression bound)).Reads
        (ExpressionPhrase.optionalTokens phrase ++ unplaced mark :: rest) value
        (unplaced mark :: rest) ∧
      value.map Expression.withoutLines =
        (phrase.map ExpressionPhrase.value).map Expression.withoutLines := by
  cases phrase with
  | none => exact ⟨none, reads_optionalBefore_iff.mpr (.inl ⟨rfl, rfl, rfl⟩), rfl⟩
  | some phrase =>
      have noExpression : startsExpression mark = false := by
        simp only [List.mem_cons, List.not_mem_nil, or_false] at ends
        rcases ends with rfl | rfl | rfl <;> rfl
      obtain ⟨value, reads, same⟩ :=
        phrase.reads enough (List.cons_ne_nil (unplaced mark) rest) (endsExpression_of_mark ends)
      exact ⟨some value, reads_optionalBefore_iff.mpr
        (.inr ⟨phrase.front_ne noExpression _, value, reads, rfl⟩), congrArg some same⟩

/-- Behind an initializer stands a condition or a semicolon, and never an `else`. -/
theorem ExpressionPhrase.front_optionalTokens_ne (phrase : Option ExpressionPhrase) (behind : List Token) :
    front (ExpressionPhrase.optionalTokens phrase ++ unplaced .semicolon :: behind) ≠
      .keyword .elseWord := by
  cases phrase with
  | none => simp [ExpressionPhrase.optionalTokens]
  | some phrase => exact phrase.front_ne rfl _

/-- A phrase that can be the first clause is read as one. -/
theorem StatementPhrase.reads_initializer {first : StatementPhrase}
    (initializes : first.value.isInitializer = true) (enough : (first.tokens ++ rest).length ≤ bound)
    (goesOn : rest ≠ []) (noElse : front rest ≠ .keyword .elseWord) :
    (initializerRule (expression bound)).Reads (first.tokens ++ rest) (some first.value) rest := by
  have reads := first.reads enough goesOn noElse
  rw [reads_initializerRule_iff]
  cases isValue : first.value with
  | expression value =>
      rw [isValue] at reads
      obtain ⟨readsStatement, noVariable⟩ := statement_of_declaration rfl reads
      obtain ⟨closing, readsValue, closed⟩ := expression_of_statement readsStatement
      obtain ⟨normal, _, written⟩ := (unary_and_expression_sound bound).2 _ _ _ enough readsValue
      have noMark : front (first.tokens ++ rest) ≠ .semicolon := by
        rw [front_eq_of_sameContent written]
        exact front_expression_ne normal rfl closing
      refine .inr (.inr ⟨noMark, noVariable, .expression value, ?_, rfl⟩)
      exact reads_expressionStatementRule_iff.mpr ⟨value, closing, readsValue, closed, rfl⟩
  | declaration name initializer =>
      rw [isValue] at reads
      obtain ⟨behind, word, rule⟩ := variable_of_declaration enough reads
      exact .inr (.inl ⟨behind, _, word, rule, rfl⟩)
  | _ => simp [isValue, Statement.isInitializer] at initializes

/-! ## Two spellings of a loop -/

/-- What a loop with three clauses is made of. The initializer comes with its semicolon, and the body
declares nothing. -/
structure LoopClauses where
  initializer : Option StatementPhrase
  condition : Option ExpressionPhrase
  increment : Option ExpressionPhrase
  body : StatementPhrase
  initializes : ∀ first ∈ initializer, first.value.isInitializer = true
  plain : body.value.isDeclaration = false

namespace LoopClauses

variable (clauses : LoopClauses)

/-- The first clause, which at least is a semicolon. -/
def initializerTokens : List Token :=
  clauses.initializer.elim [unplaced .semicolon] StatementPhrase.tokens

/-- The loop with its clauses in the header. -/
def threeClauses : List Token :=
  unplaced (.keyword .forWord) :: unplaced .leftParen :: (clauses.initializerTokens ++
    (ExpressionPhrase.optionalTokens clauses.condition ++ unplaced .semicolon ::
      (ExpressionPhrase.optionalTokens clauses.increment ++ unplaced .rightParen ::
        clauses.body.tokens)))

/-- What is repeated: the body, and behind it the increment, in a block of their own. -/
def repeated : List Token :=
  match clauses.increment with
  | none => clauses.body.tokens
  | some step =>
      unplaced .leftBrace ::
        (clauses.body.tokens ++ (step.tokens ++ [unplaced .semicolon, unplaced .rightBrace]))

/-- The loop on the condition, which holds always where it is missing. -/
def conditionAlone : List Token :=
  unplaced (.keyword .whileWord) :: unplaced .leftParen ::
    (clauses.condition.elim [unplaced (.keyword .trueWord)] ExpressionPhrase.tokens ++
      unplaced .rightParen :: clauses.repeated)

/-- The loop as it is written by hand: the initializer in front, in a block around the loop. -/
def writtenByHand : List Token :=
  match clauses.initializer with
  | none => clauses.conditionAlone
  | some first =>
      unplaced .leftBrace :: (first.tokens ++ (clauses.conditionAlone ++ [unplaced .rightBrace]))

/-- The tree of the loop. -/
def tree : Statement Unit :=
  loopOfClauses (clauses.initializer.map StatementPhrase.value)
    (clauses.condition.map ExpressionPhrase.value) (clauses.increment.map ExpressionPhrase.value)
    clauses.body.value

/-! ## The clauses in the header -/

/-- The first clause, if there is one. -/
theorem reads_initializer (enough : (clauses.initializerTokens ++ rest).length ≤ bound)
    (goesOn : rest ≠ []) (noElse : front rest ≠ .keyword .elseWord) :
    (initializerRule (expression bound)).Reads (clauses.initializerTokens ++ rest)
      (clauses.initializer.map StatementPhrase.value) rest := by
  unfold initializerTokens at enough ⊢
  cases isFirst : clauses.initializer with
  | none => exact reads_initializerRule_iff.mpr (.inl ⟨⟨unplaced .semicolon, rfl, rfl⟩, rfl⟩)
  | some first =>
      rw [isFirst] at enough
      exact StatementPhrase.reads_initializer (clauses.initializes first isFirst) enough goesOn noElse

/-- The body, as a statement. -/
theorem reads_body (enough : (clauses.body.tokens ++ rest).length ≤ bound) (goesOn : rest ≠ [])
    (noElse : front rest ≠ .keyword .elseWord) :
    (statement bound).Reads (clauses.body.tokens ++ rest) clauses.body.value rest :=
  (statement_of_declaration clauses.plain (clauses.body.reads enough goesOn noElse)).1

/-- The loop with its clauses in the header is read as its tree. -/
theorem reads_threeClauses (enough : (clauses.threeClauses ++ rest).length ≤ bound) (goesOn : rest ≠ [])
    (noElse : front rest ≠ .keyword .elseWord) :
    ∃ value, (declaration bound).Reads (clauses.threeClauses ++ rest) (some value) rest ∧
      value.withoutLines = clauses.tree.withoutLines := by
  simp only [threeClauses, List.cons_append, List.append_assoc] at enough ⊢
  have lengths := enough
  simp only [List.length_cons, List.length_append] at lengths
  obtain ⟨bound, rfl⟩ := Nat.exists_eq_add_of_le' (Nat.le_trans (Nat.le_add_left 1 _) enough)
  have readsBody : (statement bound).Reads (clauses.body.tokens ++ rest) clauses.body.value rest :=
    clauses.reads_body (by rw [List.length_append]; omega) goesOn noElse
  obtain ⟨increment, readsIncrement, sameIncrement⟩ :
      ∃ value, (optionalBefore .rightParen (expression (bound + 1))).Reads _ value _ ∧ _ :=
    ExpressionPhrase.reads_optional clauses.increment rightParen_mem (clauses.body.tokens ++ rest) (by omega)
  obtain ⟨condition, readsCondition, sameCondition⟩ :
      ∃ value, (optionalBefore .semicolon (expression (bound + 1))).Reads _ value _ ∧ _ :=
    ExpressionPhrase.reads_optional clauses.condition semicolon_mem
      (ExpressionPhrase.optionalTokens clauses.increment ++
        unplaced .rightParen :: (clauses.body.tokens ++ rest)) (by omega)
  have readsInitializer : (initializerRule (expression (bound + 1))).Reads
      (clauses.initializerTokens ++ (ExpressionPhrase.optionalTokens clauses.condition ++
        unplaced .semicolon :: (ExpressionPhrase.optionalTokens clauses.increment ++
          unplaced .rightParen :: (clauses.body.tokens ++ rest))))
      (clauses.initializer.map StatementPhrase.value) _ :=
    clauses.reads_initializer (by simp only [List.length_cons, List.length_append]; omega) (by simp)
      (ExpressionPhrase.front_optionalTokens_ne _ _)
  refine ⟨loopOfClauses (clauses.initializer.map StatementPhrase.value) condition increment
    clauses.body.value, reads_declaration_iff.mpr ⟨_, rfl, .inr (.inr ⟨by simp, by simp, ?_⟩)⟩,
    loopOfClauses_withoutLines rfl sameCondition sameIncrement rfl⟩
  refine reads_statement_iff.mpr (.threeClauses _ ⟨_, rfl, rfl⟩ (reads_forRule_iff.mpr ?_))
  exact ⟨_, _, _, condition, _, _, increment, _, _, _, ⟨_, rfl, rfl⟩, readsInitializer, readsCondition,
    ⟨_, rfl, rfl⟩, readsIncrement, ⟨_, rfl, rfl⟩, readsBody, rfl⟩

/-! ## Written by hand -/

/-- A block of two declarations. -/
theorem reads_block_of_two {tokens between closing : List Token} {first second : Statement Unit}
    (enough : tokens.length ≤ bound) (readsFirst : (declaration bound).Reads tokens (some first) between)
    (readsSecond : (declaration bound).Reads between (some second) closing)
    (closed : Takes .rightBrace closing rest) :
    (statement (bound + 1)).Reads (unplaced .leftBrace :: tokens) (.block [first, second]) rest := by
  have sound := (statement_and_declaration_sound bound).2
  obtain ⟨_, _, accepted⟩ := sound _ _ _ enough readsFirst
  have shorter := accepted.shorter
  obtain ⟨bound, rfl⟩ := Nat.exists_eq_add_of_le' (show 1 ≤ bound by omega)
  have noItems : (many (declaration (bound + 1)) atBlockEnd bound).Reads closing [] closing := by
    refine Seam.reads_many_stopped ?_ bound
    simp only [atBlockEnd, Bool.or_eq_true, beq_iff_eq]
    exact .inl closed.front_eq
  have items : (many (declaration (bound + 1)) atBlockEnd (bound + 1 + 1)).Reads tokens [first, second]
      closing := by
    refine reads_many_iff.mpr (.inr ⟨atBlockEnd_of_declaration enough readsFirst, some first, between,
      [second], readsFirst, ?_, rfl⟩)
    exact reads_many_iff.mpr (.inr ⟨atBlockEnd_of_declaration (by omega) readsSecond, some second,
      closing, [], readsSecond, noItems, rfl⟩)
  exact reads_statement_iff.mpr (.block tokens _ ⟨_, rfl, rfl⟩
    (reads_blockRule_iff.mpr ⟨closing, items, closed⟩) rfl)

/-- What is repeated, as one statement. -/
theorem reads_repeated (enough : (clauses.repeated ++ rest).length ≤ bound) (goesOn : rest ≠ [])
    (noElse : front rest ≠ .keyword .elseWord) :
    ∃ repeated, (statement bound).Reads (clauses.repeated ++ rest) repeated rest ∧
      ∀ condition, (Statement.loop condition repeated).withoutLines =
        (loopOfClauses none (some condition) (clauses.increment.map ExpressionPhrase.value)
          clauses.body.value).withoutLines := by
  unfold LoopClauses.repeated at enough ⊢
  cases isIncrement : clauses.increment with
  | none =>
      rw [isIncrement] at enough
      exact ⟨clauses.body.value, clauses.reads_body enough goesOn noElse, fun _ => rfl⟩
  | some step =>
      rw [isIncrement] at enough
      simp only [List.cons_append, List.append_assoc, List.nil_append] at enough ⊢
      have lengths := enough
      simp only [List.length_cons, List.length_append] at lengths
      obtain ⟨bound, rfl⟩ := Nat.exists_eq_add_of_le' (show 1 ≤ bound by omega)
      obtain ⟨value, readsStep, same⟩ :
          ∃ value, (declaration bound).Reads _ (some (.expression value)) (unplaced .rightBrace :: rest) ∧
            _ := step.reads_statement (by simp only [List.length_cons, List.length_append]; omega)
      have noElseStep : front (step.tokens ++ unplaced .semicolon :: unplaced .rightBrace :: rest) ≠
        .keyword .elseWord := step.front_ne rfl _
      have readsBody := clauses.body.reads (Nat.le_of_succ_le_succ enough) (by simp) noElseStep
      refine ⟨.block [clauses.body.value, .expression value], reads_block_of_two
        (Nat.le_of_succ_le_succ enough) readsBody readsStep ⟨_, rfl, rfl⟩, fun condition => ?_⟩
      exact congrArg (fun step => Statement.loop condition.withoutLines
        (.block [clauses.body.value.withoutLines, .expression step])) same

/-- The condition, which holds always where it is missing. -/
theorem reads_condition (goesOn : rest ≠ []) (ends : EndsExpression (front rest))
    (enough : (clauses.condition.elim [unplaced (.keyword .trueWord)] ExpressionPhrase.tokens).length ≤
      bound) :
    ∃ condition, (expression bound).Reads
        (clauses.condition.elim [unplaced (.keyword .trueWord)] ExpressionPhrase.tokens ++ rest)
        condition rest ∧
      condition.withoutLines =
        ((clauses.condition.map ExpressionPhrase.value).getD (.constant (.boolean true))).withoutLines := by
  cases isCondition : clauses.condition with
  | none =>
      rw [isCondition] at enough
      exact ⟨.constant (.boolean true), (unary_and_expression_complete bound).2
        (.constant (.boolean true)) rest trivial (Nat.zero_le _) enough ends, rfl⟩
  | some condition =>
      rw [isCondition] at enough
      exact condition.reads enough goesOn ends

/-- The loop on the condition alone. -/
theorem reads_conditionAlone (enough : (clauses.conditionAlone ++ rest).length ≤ bound)
    (goesOn : rest ≠ []) (noElse : front rest ≠ .keyword .elseWord) :
    ∃ value, (declaration bound).Reads (clauses.conditionAlone ++ rest) (some value) rest ∧
      value.withoutLines = (loopOfClauses none (clauses.condition.map ExpressionPhrase.value)
        (clauses.increment.map ExpressionPhrase.value) clauses.body.value).withoutLines := by
  simp only [conditionAlone, List.cons_append, List.append_assoc] at enough ⊢
  have lengths := enough
  simp only [List.length_cons, List.length_append] at lengths
  obtain ⟨bound, rfl⟩ := Nat.exists_eq_add_of_le' (show 1 ≤ bound by omega)
  obtain ⟨repeated, readsRepeated, sameLoop⟩ :
      ∃ repeated, (statement bound).Reads (clauses.repeated ++ rest) repeated rest ∧ _ :=
    clauses.reads_repeated (by rw [List.length_append]; omega) goesOn noElse
  obtain ⟨condition, readsCondition, sameCondition⟩ :
      ∃ condition, (expression (bound + 1)).Reads _ condition
        (unplaced .rightParen :: (clauses.repeated ++ rest)) ∧ _ :=
    clauses.reads_condition (by simp) (endsExpression_of_mark rightParen_mem) (by omega)
  have rule := reads_whileRule_iff.mpr ⟨_, condition, _, _, repeated, ⟨unplaced .leftParen, rfl, rfl⟩,
    readsCondition, ⟨_, rfl, rfl⟩, readsRepeated, rfl⟩
  refine ⟨.loop condition repeated, reads_declaration_iff.mpr ⟨_, rfl, .inr (.inr ⟨by simp, by simp,
    reads_statement_iff.mpr (.loop _ ⟨_, rfl, rfl⟩ rule)⟩)⟩, ?_⟩
  rw [sameLoop condition]
  exact congrArg₂ Statement.loop sameCondition rfl

/-- The loop written by hand is read as the tree of the loop with its clauses in the header. -/
theorem reads_writtenByHand (enough : (clauses.writtenByHand ++ rest).length ≤ bound)
    (goesOn : rest ≠ []) (noElse : front rest ≠ .keyword .elseWord) :
    ∃ value, (declaration bound).Reads (clauses.writtenByHand ++ rest) (some value) rest ∧
      value.withoutLines = clauses.tree.withoutLines := by
  unfold writtenByHand tree at *
  cases isInitializer : clauses.initializer with
  | none =>
      rw [isInitializer] at enough
      exact clauses.reads_conditionAlone enough goesOn noElse
  | some first =>
      rw [isInitializer] at enough
      simp only [List.cons_append, List.append_assoc, List.nil_append] at enough ⊢
      have lengths := enough
      simp only [List.length_cons, List.length_append] at lengths
      obtain ⟨bound, rfl⟩ := Nat.exists_eq_add_of_le' (show 1 ≤ bound by omega)
      obtain ⟨loop, readsLoop, same⟩ :
          ∃ loop, (declaration bound).Reads _ (some loop) (unplaced .rightBrace :: rest) ∧ _ :=
        clauses.reads_conditionAlone (by simp only [List.length_cons, List.length_append]; omega)
          (by simp) (by simp)
      have readsFirst := first.reads (Nat.le_of_succ_le_succ enough) (by simp [conditionAlone])
        (by simp [conditionAlone])
      have readsBlock := reads_block_of_two (Nat.le_of_succ_le_succ enough) readsFirst readsLoop
        ⟨_, rfl, rfl⟩
      refine ⟨.block [first.value, loop], reads_declaration_iff.mpr
        ⟨_, rfl, .inr (.inr ⟨by simp, by simp, readsBlock⟩)⟩, ?_⟩
      exact congrArg (fun loop => Statement.block [first.value.withoutLines, loop]) same

/-! ## Both spellings -/

theorem inner_optionalTokens (phrase : Option ExpressionPhrase) :
    Inner (ExpressionPhrase.optionalTokens phrase) := by
  cases phrase with
  | none => exact inner_nil
  | some phrase => exact phrase.inner

theorem inner_threeClauses : Inner clauses.threeClauses := by
  have first : Inner clauses.initializerTokens := by
    unfold initializerTokens
    cases clauses.initializer with
    | none => simp
    | some first => exact first.inner
  simp [threeClauses, first, inner_optionalTokens, clauses.body.inner]

theorem inner_conditionAlone : Inner clauses.conditionAlone := by
  have condition :
      Inner (clauses.condition.elim [unplaced (.keyword .trueWord)] ExpressionPhrase.tokens) := by
    cases clauses.condition with
    | none => simp
    | some condition => exact condition.inner
  have repeated : Inner clauses.repeated := by
    unfold LoopClauses.repeated
    cases clauses.increment with
    | none => exact clauses.body.inner
    | some step => simp [clauses.body.inner, step.inner]
  simp [conditionAlone, condition, repeated]

theorem inner_writtenByHand : Inner clauses.writtenByHand := by
  unfold writtenByHand
  cases clauses.initializer with
  | none => exact clauses.inner_conditionAlone
  | some first => simp [first.inner, clauses.inner_conditionAlone]

/-- Tokens that are read as a statement, on any lines and with any spelling of the same contents. -/
theorem read_of_sameContent {body tokens : List Token} {tree : Statement Unit} (inner : Inner body)
    (reads : ∃ value, (declaration (body ++ [closing 0]).length).Reads (body ++ [closing 0]) (some value)
      [closing 0] ∧ value.withoutLines = tree.withoutLines)
    (same : SameContent tokens (body ++ [closing 0])) :
    ∃ value, read tokens = ⟨[value], []⟩ ∧ value.withoutLines = tree.withoutLines := by
  obtain ⟨value, readsValue, isTree⟩ := reads
  have isLast : (closing 0).kind = .endOfInput := rfl
  obtain ⟨values, readValues, sameValues⟩ := read_sameContent (complete_append inner isLast) same.symm
    (read_of_declaration isLast readsValue)
  obtain ⟨value', others, rfl, sameValue, noOthers⟩ := List.map_eq_cons_iff.mp sameValues
  obtain rfl := List.map_eq_nil_iff.mp noOthers
  exact ⟨value', readValues, sameValue.trans isTree⟩

/-- A loop with three clauses, and the loop that one would write by hand from its clauses, are read
without a mistake and as the same tree, whatever lines their tokens stand on: for every initializer with
its semicolon, or a semicolon alone, with and without a condition and an increment, and for every body
that is a statement. -/
theorem read_alike {header byHand : List Token}
    (isHeader : SameContent header (clauses.threeClauses ++ [closing 0]))
    (isByHand : SameContent byHand (clauses.writtenByHand ++ [closing 0])) :
    ∃ loop loop', read header = ⟨[loop], []⟩ ∧ read byHand = ⟨[loop'], []⟩ ∧
      loop.withoutLines = loop'.withoutLines := by
  have noElse : front [closing 0] ≠ .keyword .elseWord := by simp [closing]
  obtain ⟨loop, readsLoop, isTree⟩ := read_of_sameContent clauses.inner_threeClauses
    (clauses.reads_threeClauses (Nat.le_refl _) (by simp) noElse) isHeader
  obtain ⟨loop', readsLoop', isTree'⟩ := read_of_sameContent clauses.inner_writtenByHand
    (clauses.reads_writtenByHand (Nat.le_refl _) (by simp) noElse) isByHand
  exact ⟨loop, loop', readsLoop, readsLoop', isTree.trans isTree'.symm⟩

end LoopClauses

/-- `for (var i = nil; i; f(i)) if (i) print i;` -/
def guardedLoop : LoopClauses where
  initializer := some {
    tokens := [ofSymbol (.keyword .varWord) 1, ofName "i" 1, ofSymbol .equal 1,
      ofSymbol (.keyword .nilWord) 1, ofSymbol .semicolon 1]
    value := .declaration ⟨"i", 1⟩ (some (.constant .nil))
    inner := by simp [ofName]
    isRead := rfl }
  condition := some {
    tokens := [ofName "i" 1]
    value := .variable ⟨"i", 1⟩ ()
    inner := by simp [ofName]
    isRead := rfl }
  increment := some {
    tokens := [ofName "f" 1, ofSymbol .leftParen 1, ofName "i" 1, ofSymbol .rightParen 1]
    value := .call (.variable ⟨"f", 1⟩ ()) [.variable ⟨"i", 1⟩ ()] 1
    inner := by simp [ofName]
    isRead := rfl }
  body := {
    tokens := [ofSymbol (.keyword .ifWord) 2, ofSymbol .leftParen 2, ofName "i" 2,
      ofSymbol .rightParen 2, ofSymbol (.keyword .printWord) 2, ofName "i" 2, ofSymbol .semicolon 2]
    value := .conditional (.variable ⟨"i", 2⟩ ()) (.print (.variable ⟨"i", 2⟩ ())) none
    inner := by simp [ofName]
    isRead := rfl }
  initializes := by simp [Statement.isInitializer]
  plain := rfl

theorem read_alike_guardedLoop :
    let header := guardedLoop.threeClauses ++ [closing 2]
    let byHand := (guardedLoop.writtenByHand ++ [closing 2]).map (·.moveLine (· + 7))
    SameContent header (guardedLoop.threeClauses ++ [closing 0]) ∧
      SameContent byHand (guardedLoop.writtenByHand ++ [closing 0]) ∧
      ∃ loop loop', read header = ⟨[loop], []⟩ ∧ read byHand = ⟨[loop'], []⟩ ∧
        loop.withoutLines = loop'.withoutLines := by
  intro header byHand
  have isHeader : SameContent header (guardedLoop.threeClauses ++ [closing 0]) := rfl
  have isByHand : SameContent byHand (guardedLoop.writtenByHand ++ [closing 0]) := rfl
  exact ⟨isHeader, isByHand, guardedLoop.read_alike isHeader isByHand⟩

end Grammar

end LoxInterpreter
