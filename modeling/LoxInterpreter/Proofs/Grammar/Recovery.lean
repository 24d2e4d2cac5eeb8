import LoxInterpreter.Proofs.Grammar.Gaps

/-!
Contract: one missing semicolon is at most one mistake.

Where a statement lacks its semicolon it is cut short, or joined with the expression behind it; either way
reading goes on behind the statement that follows, and from there on nothing is lacking. What holds the
statement lacks the same semicolon, and what is cut short is cut short as a whole, up to the innermost block
or program around it. No header of a loop is cut short, since its semicolons stand in parentheses.

Owns: `Parser.Recovers` of every rule for statements, `Terminator`, and
`single_error_without_terminator`.
Does not own: what the resumption skips (`Proofs.Grammar.Resumption`).
-/

namespace LoxInterpreter.Grammar

open Token LoxInterpreter.Grammar.Parser

/-! ## Rules -/

/-- Whether a parser comes to one of the outcomes wherever it takes the tokens around a gap. -/
def Parser.Recovers {α : Type} (mark : Token) (behind : List Token) (limit : Nat) (parser : Parser α) :
    Prop :=
  ∀ tokens tokens' value rest, tokens.length ≤ limit → Gap mark behind tokens tokens' →
    parser.Reads tokens value rest → rest.length ≤ behind.length → (rest = behind → Resumes behind) →
      Outcome behind (parser tokens') rest

section Rules

variable {mark : Token} {behind : List Token} {bound : Nat}

theorem Parser.Recovers.map {α β : Type} {parser : Parser α} (recovers : parser.Recovers mark behind bound)
    (build : α → β) : (do return build (← parser) : Parser β).Recovers mark behind bound := by
  intro tokens tokens' value rest short gap reads past resumes
  obtain ⟨inner, readsInner, _⟩ := reads_map_iff.mp reads
  exact (recovers _ _ _ _ short gap readsInner past resumes).map build

variable (isMark : mark.kind = .semicolon)

include isMark

/-- Behind a word that chooses a rule, a parser recovers as the rule does. -/
theorem Parser.Recovers.behindWord {α : Type} {parser rule : Parser α} {kind : Token.Kind}
    {tokens tokens' afterWord rest : List Token} {value : α} (recovers : rule.Recovers mark behind bound)
    (other : kind ≠ .semicolon) (level : kind.opens = 0) (short : tokens.length ≤ bound + 1)
    (gap : Gap mark behind tokens tokens') (word : Takes kind tokens afterWord)
    (reads : rule.Reads afterWord value rest) (past : rest.length ≤ behind.length)
    (resumes : rest = behind → Resumes behind)
    (chosen : ∀ tokens rest, Takes kind tokens rest → parser tokens = rule rest) :
    Outcome behind (parser tokens') rest := by
  obtain ⟨afterWord', word', gapWord⟩ := gap.takes isMark word other level
  have shorter := word.length_eq
  rw [chosen _ _ word']
  exact recovers _ _ _ _ (by omega) gapWord reads past resumes

theorem recovers_marked (site : Site) (build : Expression Unit → Statement Unit) :
    (do
      let value ← expression bound
      let _ ← expectMark .semicolon site
      return build value : Parser (Statement Unit)).Recovers mark behind bound := by
  intro tokens tokens' value rest short gap reads past resumes
  obtain ⟨inner, closing, readsInner, marked⟩ := reads_bind_iff.mp reads
  have ⟨closed, _⟩ := (reads_expectMark_pure_iff (by decide)).mp marked
  obtain ⟨rfl, onward⟩ := gap.window.expression_at_gap isMark short readsInner closed past
  obtain ⟨value', rest', reads', ends⟩ := onward (resumes rfl)
  exact outcome_marked (resumes rfl) reads' ends site build

theorem recovers_returnRule (line : Nat) :
    (returnRule (expression bound) line).Recovers mark behind bound := by
  intro tokens tokens' value rest short gap reads past resumes
  obtain ⟨result, closing, readsResult, closed, _⟩ := reads_returnRule_iff.mp reads
  rcases reads_optionalBefore_iff.mp readsResult with ⟨_, _, rfl⟩ | ⟨other, inner, readsInner, _⟩
  · obtain ⟨rfl, rfl⟩ := at_gap gap.window.suffix closed past
    obtain rfl := gap.window.eq_behind
    have noSemicolon := (resumes rfl).noSemicolon
    by_cases starts : startsExpression (front rest) = true
    · obtain ⟨value', closing, reads', ends⟩ :=
        (resumes rfl).reads_expression starts (Nat.le_of_succ_le short)
      have optional : (optionalBefore .semicolon (expression bound)).Reads rest (some value') closing :=
        reads_optionalBefore_iff.mpr (.inr ⟨noSemicolon, value', reads', rfl⟩)
      exact outcome_marked (resumes rfl) optional (.inr ends) _ _
    · have absent : (nextIs .semicolon).Reads rest false rest :=
        reads_nextIs_iff.mpr ⟨by simpa using noSemicolon, rfl⟩
      have missing : (optionalBefore .semicolon (expression bound)).Misses rest := by
        unfold optionalBefore Misses
        rw [absent.bind_eq]
        exact (expression_misses (Bool.eq_false_iff.mpr starts) bound).bind _
      rw [show returnRule (expression bound) line rest = _ from missing.bind _]
      exact .stuck rfl rfl (Nat.le_refl _) rfl
  · obtain ⟨rfl, onward⟩ := gap.window.expression_at_gap isMark short readsInner closed past
    obtain ⟨value', rest', reads', ends⟩ := onward (resumes rfl)
    have noSemicolon : front tokens' ≠ .semicolon := by rwa [gap.front_eq isMark other]
    have optional : (optionalBefore .semicolon (expression bound)).Reads tokens' (some value') rest' :=
      reads_optionalBefore_iff.mpr (.inr ⟨noSemicolon, value', reads', rfl⟩)
    exact outcome_marked (resumes rfl) optional ends _ _

theorem recovers_variableRule : (variableRule (expression bound)).Recovers mark behind bound := by
  intro tokens tokens' value rest short gap reads past resumes
  obtain ⟨name, afterName, readsName, declared⟩ := reads_variableRule_iff.mp reads
  obtain ⟨name', afterName', readsName', gapName⟩ := gap.name isMark readsName
  have ⟨shorter, _⟩ := nameRule_sound readsName
  unfold variableRule
  rw [readsName'.bind_eq]
  rcases declared with ⟨closed, _⟩ | ⟨others, initializer, closing, equals, readsInitializer, closed, _⟩
  · obtain ⟨rfl, rfl⟩ := at_gap gapName.window.suffix closed past
    obtain rfl := gapName.window.eq_behind
    rw [accept_bind_declined (by decide) (resumes rfl).noEqual]
    exact outcome_marked (resumes rfl) (reads_pure_iff.mpr ⟨rfl, rfl⟩) (.inl rfl) _ _
  · obtain ⟨others', equals', gapOthers⟩ := gapName.takes isMark equals (by decide) rfl
    rw [accept_bind_taken (by decide) equals']
    have shorterOthers := equals.length_eq
    obtain ⟨rfl, onward⟩ :=
      gapOthers.window.expression_at_gap isMark (by omega) readsInitializer closed past
    obtain ⟨value', rest', reads', ends⟩ := onward (resumes rfl)
    exact outcome_marked (resumes rfl) reads' ends _ _

theorem recovers_whileRule (recovers : (statement bound).Recovers mark behind bound) :
    (whileRule (expression (bound + 1)) (statement bound)).Recovers mark behind bound := by
  intro tokens tokens' value rest short gap reads past resumes
  obtain ⟨opened, condition, closing, afterCondition, body, opening, readsCondition, closed, readsBody, _⟩ :=
    reads_whileRule_iff.mp reads
  have ⟨_, shorter⟩ := balanced_condition (balanced_expression (bound + 1)) (Nat.le_succ_of_le short) opening
    readsCondition closed
  obtain ⟨opened', condition', closing', afterCondition', opening', readsCondition', closed', gapBody⟩ :=
    gap.condition isMark (Nat.le_succ_of_le short) opening readsCondition closed
  unfold whileRule
  rw [expectMark_bind_eq (by decide) opening', readsCondition'.bind_eq,
    expectMark_bind_eq (by decide) closed']
  exact (recovers _ _ _ _ (by omega) gapBody readsBody past resumes).map _

/-- Where no `else` is behind the mark, a choice recovers in either branch. -/
theorem recovers_conditionalRule (noElse : front behind ≠ .keyword .elseWord)
    (recovers : (statement bound).Recovers mark behind bound) :
    (conditionalRule (expression (bound + 1)) (statement bound)).Recovers mark behind bound := by
  intro tokens tokens' value rest short gap reads past resumes
  obtain ⟨opened, condition, closing, afterCondition, thenBranch, afterThen, opening, readsCondition,
    closed, readsThen, branches⟩ := reads_conditionalRule_iff.mp reads
  have ⟨_, shorter⟩ := balanced_condition (balanced_expression (bound + 1)) (Nat.le_succ_of_le short) opening
    readsCondition closed
  obtain ⟨opened', condition', closing', afterCondition', opening', readsCondition', closed', gapThen⟩ :=
    gap.condition isMark (Nat.le_succ_of_le short) opening readsCondition closed
  unfold conditionalRule
  rw [expectMark_bind_eq (by decide) opening', readsCondition'.bind_eq,
    expectMark_bind_eq (by decide) closed']
  have balanced := (balanced_statement_and_declaration bound).1
  have ⟨_, shorterThen⟩ := balanced _ _ _ (by omega) readsThen
  by_cases inThen : afterThen.length ≤ behind.length
  · have unmoved (atEnd : afterThen = behind) : rest = behind := by
      rcases branches with ⟨_, rfl, _⟩ | ⟨afterElse, _, isElse, _, _⟩
      · exact atEnd
      · exact absurd isElse.front_eq (atEnd ▸ noElse)
    refine (recovers _ _ _ _ (by omega) gapThen readsThen inThen fun atEnd =>
      resumes (unmoved atEnd)).bind (fun thenBranch' => ?_) unmoved fun atEnd thenBranch' => ?_
    · rcases branches with ⟨other, rfl, _⟩ | ⟨afterElse, elseBranch, isElse, readsElse, _⟩
      · exact ⟨_, (reads_accept_bind_iff (by decide)).mpr (.inr ⟨other, reads_pure_iff.mpr ⟨rfl, rfl⟩⟩)⟩
      · exact ⟨_, (reads_accept_bind_iff (by decide)).mpr
          (.inl ⟨afterElse, isElse, reads_map_iff.mpr ⟨elseBranch, readsElse, rfl⟩⟩)⟩
    · exact ⟨_, (reads_accept_bind_iff (by decide)).mpr
        (.inr ⟨(resumes (unmoved atEnd)).noElse, reads_pure_iff.mpr ⟨rfl, rfl⟩⟩)⟩
  · rcases branches with ⟨_, rfl, _⟩ | ⟨afterElse, elseBranch, isElse, readsElse, _⟩
    · exact absurd past inThen
    · have ahead := gapThen.ahead (readsThen.suffix (regular_statement_and_declaration bound).1)
        (Nat.not_le.mp inThen)
      obtain ⟨thenBranch', afterThen', readsThen', gapElse⟩ := gapThen.reads isMark balanced
        (transfers_statement_and_declaration bound).1 (by omega) readsThen ahead
        (by rw [isElse.front_eq]; decide)
      obtain ⟨afterElse', isElse', gapBranch⟩ := gapElse.takes isMark isElse (by decide) rfl
      have shorterElse := isElse.length_eq
      rw [readsThen'.bind_eq, accept_bind_taken (by decide) isElse']
      exact (recovers _ _ _ _ (by omega) gapBranch readsElse past resumes).map _

/-- The mark is behind an expression that may be missing. -/
theorem ahead_of_optional {tokens rest : List Token} {kind : Token.Kind}
    {result : Option (Expression Unit)} (short : tokens.length ≤ bound)
    (reads : (optionalBefore kind (expression bound)).Reads tokens result rest)
    (ahead : mark :: behind <:+ tokens) : mark :: behind <:+ rest := by
  rcases reads_optionalBefore_iff.mp reads with ⟨_, _, rfl⟩ | ⟨_, inner, readsInner, _⟩
  · exact ahead
  · exact ahead_of_expression isMark short readsInner ahead

/-- In parentheses the mark is behind an expression with its semicolon. -/
theorem ahead_of_marked {tokens closing rest : List Token} {value : Expression Unit}
    (short : tokens.length ≤ bound) (inside : depth tokens ≠ depth behind)
    (reads : (expression bound).Reads tokens value closing) (closed : Takes .semicolon closing rest)
    (ahead : mark :: behind <:+ tokens) : mark :: behind <:+ rest := by
  refine ahead_of_takes isMark closed (.inr ?_) (ahead_of_expression isMark short reads ahead)
  rwa [← (balanced_expression bound _ _ _ short reads).1]

/-- So it is behind the first clause of a loop. -/
theorem ahead_of_initializer {tokens rest : List Token} {result : Option (Statement Unit)}
    (short : tokens.length ≤ bound) (inside : depth tokens ≠ depth behind)
    (reads : (initializerRule (expression bound)).Reads tokens result rest)
    (ahead : mark :: behind <:+ tokens) : mark :: behind <:+ rest := by
  rcases reads_initializerRule_iff.mp reads with ⟨closed, _⟩ | ⟨afterWord, first, word, readsFirst, _⟩ |
    ⟨_, _, first, readsFirst, _⟩
  · exact ahead_of_takes isMark closed (.inr inside) ahead
  · obtain ⟨name, afterName, readsName, declared⟩ := reads_variableRule_iff.mp readsFirst
    obtain ⟨token, split, isName, _⟩ := reads_nameRule_iff.mp readsName
    have isToken : Takes .identifier afterWord afterName := ⟨token, split, isName⟩
    have aheadName := ahead_of_takes isMark isToken (.inl (by decide))
      (ahead_of_takes isMark word (.inl (by decide)) ahead)
    have ⟨levelWord, shorterWord⟩ := word.balanced rfl
    have ⟨levelName, shorterName⟩ := isToken.balanced rfl
    rcases declared with ⟨closed, _⟩ | ⟨others, initializer, closing, equals, readsValue, closed, _⟩
    · exact ahead_of_takes isMark closed (.inr (by omega)) aheadName
    · have ⟨levelEquals, shorterEquals⟩ := equals.balanced rfl
      exact ahead_of_marked isMark (by omega) (by omega) readsValue closed
        (ahead_of_takes isMark equals (.inl (by decide)) aheadName)
  · obtain ⟨inner, closing, readsInner, closed, _⟩ := reads_expressionStatementRule_iff.mp readsFirst
    exact ahead_of_marked isMark short inside readsInner closed ahead

/-- The header of a loop is in parentheses, so the mark is not in it. -/
theorem recovers_forRule (recovers : (statement bound).Recovers mark behind bound) :
    (forRule (expression (bound + 1)) (statement bound)).Recovers mark behind bound := by
  intro tokens tokens' value rest short gap reads past resumes
  obtain ⟨opened, initializer, afterInitializer, condition, afterCondition, behindCondition, increment,
    closing, afterClauses, body, opening, readsInitializer, readsCondition, separated, readsIncrement,
    closed, readsBody, _⟩ := reads_forRule_iff.mp reads
  have balanced := balanced_expression (bound + 1)
  have transfers : Transfers (mark :: behind) behind Expression.withoutLines (expression (bound + 1))
    (expression (bound + 1)) := (transfers_unary_and_expression (bound + 1)).2
  have level := opening.depth_eq
  have shorter := opening.length_eq
  have ⟨levelInitializer, shorterInitializer⟩ :=
    balanced_initializerRule balanced _ _ _ (by omega) readsInitializer
  have ⟨levelCondition, shorterCondition⟩ :=
    balanced_optionalBefore balanced _ _ _ _ (by omega) readsCondition
  have ⟨levelSeparated, _⟩ := separated.balanced rfl
  have ⟨levelIncrement, shorterIncrement⟩ :=
    balanced_optionalBefore balanced _ _ _ _ (by omega) readsIncrement
  have levelClosed := closed.depth_eq
  have outside := gap.level
  simp only [Kind.opens] at level levelClosed
  obtain ⟨opened', opening', windowOpened⟩ := gap.window.takes isMark opening (by decide)
  have aheadInitializer := ahead_of_initializer isMark (by omega) (by omega) readsInitializer
    windowOpened.suffix
  have aheadCondition := ahead_of_optional isMark (by omega) readsCondition aheadInitializer
  have aheadSeparated := ahead_of_takes isMark separated (.inr (by omega)) aheadCondition
  have aheadIncrement := ahead_of_optional isMark (by omega) readsIncrement aheadSeparated
  -- The clauses are all read before the parenthesis that closes the header, which is no semicolon.
  have inside := length_lt_of_front isMark aheadIncrement (by rw [closed.front_eq]; decide)
  have shorterSeparated := separated.length_eq
  have shorterClosed := closed.length_eq
  obtain ⟨initializer', afterInitializer', readsInitializer', _, windowInitializer⟩ :=
    (transfers_initializerRule transfers).transfer windowOpened readsInitializer (by omega)
  obtain ⟨condition', afterCondition', readsCondition', _, windowCondition⟩ :=
    (transfers_optionalBefore transfers .semicolon).transfer windowInitializer readsCondition (by omega)
  obtain ⟨behindCondition', separated', windowSeparated⟩ := windowCondition.takes_inside separated (by omega)
  obtain ⟨increment', closing', readsIncrement', _, windowIncrement⟩ :=
    (transfers_optionalBefore transfers .rightParen).transfer windowSeparated readsIncrement inside
  obtain ⟨afterClauses', closed', windowBody⟩ := windowIncrement.takes isMark closed (by decide)
  have gapBody : Gap mark behind afterClauses afterClauses' := ⟨windowBody, by omega⟩
  unfold forRule
  rw [expectMark_bind_eq (by decide) opening', readsInitializer'.bind_eq, readsCondition'.bind_eq,
    expectMark_bind_eq (by decide) separated', readsIncrement'.bind_eq,
    expectMark_bind_eq (by decide) closed']
  exact (recovers _ _ _ _ (by omega) gapBody readsBody past resumes).map _

/-- Items recover in the first of them that holds the gap, and the others are read as before. -/
theorem recovers_many {stop : List Token → Bool} (outside : StopsOutside stop)
    (noNesting : front behind ∉ nestingMarks) (goesOn : behind ≠ [])
    (recovers : (declaration bound).Recovers mark behind bound) {rounds : Nat}
    {tokens tokens' rest : List Token} {items : List (Statement Unit)} (short : tokens.length ≤ bound)
    (gap : Gap mark behind tokens tokens') (ends : stop rest = true)
    (reads : (many (declaration bound) stop rounds).Reads tokens items rest)
    (past : rest.length ≤ behind.length) : Passed (many (declaration bound) stop rounds tokens') rest := by
  induction rounds generalizing tokens tokens' items with
  | zero =>
      obtain ⟨_, rfl⟩ := reads_pure_iff.mp reads
      exact absurd past (Nat.not_le.mpr gap.window.suffix.length_le)
  | succ rounds inductionHypothesis =>
      rcases reads_many_iff.mp reads with ⟨_, _, rfl⟩ | ⟨goes, first, between, later, one, following, _⟩
      · exact absurd past (Nat.not_le.mpr gap.window.suffix.length_le)
      · have noSemicolon := noSemicolon_of_many outside ends short reads
        have goes' : stop tokens' = false :=
          (outside.sameStop _ _ (gap.front_eq isMark noSemicolon)).trans goes
        have step : many (declaration bound) stop (rounds + 1) tokens' =
            (do
              let first ← declaration bound
              return first.toList ++ (← many (declaration bound) stop rounds) :
                Parser (List (Statement Unit))) tokens' := by
          rw [many]
          simp only [goes', Bool.false_eq_true, if_false]
        rw [step]
        have kept (first : Option (Statement Unit)) {tokens : List Token} {items : List (Statement Unit)}
            (reads : (many (declaration bound) stop rounds).Reads tokens items rest) :
            ∃ result, (do return first.toList ++ (← many (declaration bound) stop rounds) :
              Parser (List (Statement Unit))).Reads tokens result rest :=
          ⟨_, reads_map_iff.mpr ⟨items, reads, rfl⟩⟩
        have shorter := ((balanced_statement_and_declaration bound).2 _ _ _ short one).2
        by_cases inFirst : between.length ≤ behind.length
        · have resumes (isBehind : between = behind) := resumes_of_many outside ends goesOn
            (by rw [← isBehind]; omega) noNesting (isBehind ▸ following)
          cases recovers _ _ _ _ short gap one inFirst fun isBehind => (resumes isBehind).1 with
          | passed passed => exact passed.bind fun first => kept first following
          | resumed isBehind passed =>
              obtain ⟨items', readsResumed⟩ := (resumes isBehind).2
              exact passed.bind fun first => kept first readsResumed
          | stuck _ gaveUp => exact absurd gaveUp (value_declaration bound tokens')
        · have ahead := gap.ahead (one.suffix (regular_statement_and_declaration bound).2)
            (Nat.not_le.mp inFirst)
          have noSemicolonBetween := noSemicolon_of_many outside ends (Nat.le_trans shorter short) following
          obtain ⟨first', between', readsFirst', gapBetween⟩ := gap.reads isMark
            (balanced_statement_and_declaration bound).2 (transfers_statement_and_declaration bound).2 short
            one ahead noSemicolonBetween
          rw [readsFirst'.bind_eq]
          exact (inductionHypothesis (by omega) gapBetween following).bind
            fun _ => ⟨_, reads_pure_iff.mpr ⟨rfl, rfl⟩⟩

section Blocks

variable (noNesting : front behind ∉ nestingMarks) (goesOn : behind ≠ [])

include noNesting goesOn

theorem recovers_blockRule (recovers : (declaration bound).Recovers mark behind bound) (rounds : Nat) :
    (blockRule (declaration bound) rounds).Recovers mark behind bound := by
  intro tokens tokens' items rest short gap reads past _
  obtain ⟨closing, readsItems, closed⟩ := reads_blockRule_iff.mp reads
  have stops : atBlockEnd closing = true := by
    have brace := closed.front_eq
    unfold front at brace
    simp [atBlockEnd, brace]
  have pastItems : closing.length ≤ behind.length := by
    refine Nat.not_lt.mp fun further => Nat.not_succ_le_self _ (Nat.le_trans ?_ past)
    have ahead := gap.ahead
      (readsItems.suffix (regular_many (regular_statement_and_declaration bound).2 rounds)) further
    exact (ahead_of_takes isMark closed (.inl (by decide)) ahead).length_le
  have passed := recovers_many isMark stopsOutside_atBlockEnd noNesting goesOn recovers short gap stops readsItems
    pastItems
  exact .passed (passed.bind fun items =>
    ⟨items, (reads_expectMark_pure_iff (by decide)).mpr ⟨closed, rfl⟩⟩)

theorem recovers_functionRule (recovers : (declaration bound).Recovers mark behind bound) :
    (functionRule (declaration bound) (bound + 1)).Recovers mark behind bound := by
  intro tokens tokens' value rest short gap reads past resumes
  obtain ⟨name, afterName, opened, parameters, closing, afterParameters, afterBrace, body, readsName,
    opening, readsParameters, closed, brace, readsBody, _⟩ := reads_functionRule_iff.mp reads
  obtain ⟨name', afterName', readsName', gapName⟩ := gap.name isMark readsName
  have ⟨shorter, _⟩ := nameRule_sound readsName
  have shorterOpened := opening.length_eq
  obtain ⟨opened', opening', windowOpened⟩ := gapName.window.takes isMark opening (by decide)
  obtain ⟨spelled, splitParameters, flatParameters⟩ := flat_of_parameters (by omega) readsParameters
  have ahead : mark :: behind <:+ closing :=
    ahead_of_inside isMark (splitParameters ▸ windowOpened.suffix) flatParameters.inside
  obtain ⟨parameters', closing', readsParameters', _, windowClosing⟩ :=
    (transfers_list (transfers_nameRule .parameter) (bound + 1)).transfer windowOpened readsParameters
      (length_lt_of_front isMark ahead (by rw [closed.front_eq]; decide))
  obtain ⟨afterParameters', closed', windowParameters⟩ := windowClosing.takes isMark closed (by decide)
  obtain ⟨afterBrace', brace', windowBody⟩ := windowParameters.takes isMark brace (by decide)
  have ⟨levelBody, shorterBody⟩ :=
    balanced_parameters (show afterName.length ≤ bound + 1 by omega) opening readsParameters closed brace
  have gapBody : Gap mark behind afterBrace afterBrace' := ⟨windowBody, levelBody ▸ gapName.level⟩
  unfold functionRule
  rw [readsName'.bind_eq, expectMark_bind_eq (by decide) opening', readsParameters'.bind_eq,
    expectMark_bind_eq (by decide) closed', expectMark_bind_eq (by decide) brace']
  exact (recovers_blockRule isMark noNesting goesOn recovers _ _ _ _ _ (by omega) gapBody readsBody past
    resumes).map _

theorem recovers_statement (recoversStatement : (statement bound).Recovers mark behind bound)
    (recoversDeclaration : (declaration bound).Recovers mark behind bound) :
    (statement (bound + 1)).Recovers mark behind (bound + 1) := by
  intro tokens tokens' value rest short gap reads past resumes
  have noElse : front behind ≠ .keyword .elseWord := fun same => noNesting (by rw [same]; decide)
  cases reads_statement_iff.mp reads with
  | threeClauses afterWord word rule =>
      exact (recovers_forRule isMark recoversStatement).behindWord isMark (by decide) rfl short gap word rule
        past resumes fun _ _ => statementRule_for
  | conditional afterWord word rule =>
      exact (recovers_conditionalRule isMark noElse recoversStatement).behindWord isMark (by decide) rfl short
        gap word rule past resumes fun _ _ => statementRule_if
  | print afterWord word rule =>
      exact Parser.Recovers.behindWord isMark (recovers_marked isMark .afterValue Statement.print) (by decide)
        rfl (Nat.le_succ_of_le short) gap word rule past resumes fun _ _ => statementRule_print
  | returning token afterWord split isReturn rule =>
      obtain ⟨afterWord', ⟨token', rfl, isReturn'⟩, gapWord⟩ :=
        gap.takes isMark ⟨token, split, isReturn⟩ (by decide) rfl
      have shorter := congrArg List.length split
      rw [List.length_cons] at shorter
      -- The line of the word is kept in the tree alone.
      obtain ⟨result, closing, readsResult, closed, _⟩ := reads_returnRule_iff.mp rule
      have rule' : (returnRule (expression (bound + 1)) token'.line).Reads afterWord
          (.returning token'.line result) rest :=
        reads_returnRule_iff.mpr ⟨result, closing, readsResult, closed, rfl⟩
      have chosen : statement (bound + 1) (token' :: afterWord') =
          returnRule (expression (bound + 1)) token'.line afterWord' := statementRule_return isReturn'
      rw [chosen]
      exact recovers_returnRule isMark token'.line _ _ _ _ (by omega) gapWord rule' past resumes
  | loop afterWord word rule =>
      exact (recovers_whileRule isMark recoversStatement).behindWord isMark (by decide) rfl short gap word
        rule past resumes fun _ _ => statementRule_while
  | block afterWord items brace rule built =>
      exact ((recovers_blockRule isMark noNesting goesOn recoversDeclaration (bound + 1)).map
        Statement.block).behindWord isMark (by decide) rfl short gap brace
        (reads_map_iff.mpr ⟨items, rule, built⟩) past resumes fun _ _ => statementRule_block
  | expression other rule =>
      obtain ⟨inner, closing, readsInner, _, _⟩ := reads_expressionStatementRule_iff.mp rule
      have noSemicolon : front tokens ≠ .semicolon := front_ne_of_expression short readsInner rfl
      have sameFront := gap.front_eq isMark noSemicolon
      have chosen : statement (bound + 1) tokens' = expressionStatementRule (expression (bound + 1)) tokens' :=
        statementRule_expression (by rwa [sameFront])
      rw [chosen]
      exact recovers_marked isMark .afterExpression Statement.expression _ _ _ _ short gap rule past resumes

theorem recovers_declaration (recoversStatement : (statement (bound + 1)).Recovers mark behind (bound + 1))
    (recoversDeclaration : (declaration bound).Recovers mark behind bound) :
    (declaration (bound + 1)).Recovers mark behind (bound + 1) := by
  intro tokens tokens' result rest short gap reads past resumes
  refine Outcome.recovering ?_
  obtain ⟨value, rfl, ⟨afterWord, word, rule⟩ | ⟨afterWord, word, rule⟩ |
    ⟨noFunction, noVariable, rule⟩⟩ := reads_declaration_iff.mp reads
  · exact (recovers_functionRule isMark noNesting goesOn recoversDeclaration).behindWord isMark (by decide) rfl
      short gap word rule past resumes fun _ _ taken => accept_bind_taken (by decide) taken _ _
  · refine (recovers_variableRule isMark).behindWord isMark (by decide) rfl (Nat.le_succ_of_le short) gap word
      rule past resumes fun _ _ taken => ?_
    exact (accept_bind_declined (by decide) (by rw [taken.front_eq]; decide) _ _).trans
      (accept_bind_taken (by decide) taken _ _)
  · have noSemicolon : front tokens ≠ .semicolon := fun same => by
      have begins := front_of_declaration short reads
      rw [same] at begins
      revert begins
      decide
    have sameFront := gap.front_eq isMark noSemicolon
    have chosen : declarationRule (expression (bound + 1)) (statement (bound + 1)) (declaration bound)
        (bound + 1) tokens' = statement (bound + 1) tokens' :=
      (accept_bind_declined (by decide) (by rwa [sameFront]) _ _).trans
        (accept_bind_declined (by decide) (by rwa [sameFront]) _ _)
    exact chosen ▸ recoversStatement _ _ _ _ short gap rule past resumes

/-- Unless a nesting is opened or closed behind the mark, statements and declarations recover. -/
theorem recovers_statement_and_declaration (bound : Nat) :
    (statement bound).Recovers mark behind bound ∧ (declaration bound).Recovers mark behind bound := by
  induction bound with
  | zero =>
      exact ⟨fun _ _ _ _ _ _ reads => absurd reads not_reads_fail,
        fun _ _ _ _ _ _ reads => absurd reads not_reads_declaration_zero⟩
  | succ bound inductionHypothesis =>
      have ⟨recoversStatement, recoversDeclaration⟩ := inductionHypothesis
      have statements := recovers_statement isMark noNesting goesOn recoversStatement recoversDeclaration
      exact ⟨statements, recovers_declaration isMark noNesting goesOn statements recoversDeclaration⟩

end Blocks

end Rules

/-! ## Programs -/

/-- A semicolon that ends a statement of a program without mistakes. Those in the header of a loop with
three clauses stand in its parentheses. -/
structure Terminator (before : List Token) (mark : Token) (behind : List Token) : Prop where
  complete : Complete (before ++ mark :: behind)
  isRead : (read (before ++ mark :: behind)).errors = []
  isMark : mark.kind = .semicolon
  outside : depth before = 0

/-- Where the semicolon of a statement is missing, at most one mistake is noted, unless what follows the
semicolon opens or closes what statements stand in: the resumption skips that token, and takes what belongs
to it for another mistake. -/
theorem single_error_without_terminator {before behind : List Token} {mark : Token}
    (terminator : Terminator before mark behind) (noNesting : front behind ∉ nestingMarks) :
    (read (before ++ behind)).errors.length ≤ 1 := by
  have ⟨complete, isRead, isMark, outside⟩ := terminator
  have ⟨completeBehind, completeLacking⟩ := complete.without (by rw [isMark]; decide)
  generalize isTokens : before ++ mark :: behind = tokens at complete isRead
  obtain ⟨rest, reads⟩ := read_eq_iff.mp (show read tokens = ⟨(read tokens).statements, []⟩ by rw [← isRead])
  have ends := many_stops (statement_and_declaration_sound _).2 rfl (Nat.le_refl _) (Nat.le_refl _) reads
  have gap : Gap mark behind tokens (before ++ behind) := by
    subst isTokens
    refine ⟨Window.append (SameContent.refl before), ?_⟩
    rw [depth_append, outside, depth_cons, isMark]
    simp [Kind.opens]
  have past : rest.length ≤ behind.length := by
    have completeRest := complete_rest_of_program complete
    rw [reads] at completeRest
    have single : rest.length = 1 := by
      cases completeRest with
      | last _ => rfl
      | cons inner _ => exact absurd (by simpa [atEnd, currentToken] using ends) inner
    rw [single]
    exact completeBehind.length_pos
  have goesOn : behind ≠ [] := List.ne_nil_of_length_pos completeBehind.length_pos
  have passed := recovers_many isMark stopsOutside_atEnd noNesting goesOn
    (recovers_statement_and_declaration isMark noNesting goesOn tokens.length).2 (Nat.le_refl _) gap ends reads past
  have shorter : (before ++ behind).length ≤ tokens.length := by
    rw [← isTokens]
    simp
  rw [← errors_eq_of_bound completeLacking shorter]
  exact passed.single

/-- A function prints and returns; the semicolon between the two is missing. -/
theorem single_error_without_terminator_inBody :
    let before : List Token := [unplaced (.keyword .funWord), ofName "f" 0, unplaced .leftParen,
      unplaced .rightParen, unplaced .leftBrace, unplaced (.keyword .printWord), unplaced (.keyword .nilWord)]
    let behind : List Token := [unplaced (.keyword .returnWord), unplaced .semicolon, unplaced .rightBrace,
      closing 0]
    Terminator before (unplaced .semicolon) behind ∧ front behind ∉ nestingMarks ∧
      (read (before ++ behind)).errors =
        [⟨.missingMark .semicolon .afterValue, unplaced (.keyword .returnWord)⟩] ∧
      (read (before ++ behind)).errors.length ≤ 1 := by
  intro before behind
  have inner : Inner (before ++ unplaced .semicolon :: behind.dropLast) := by simp [before, behind, ofName]
  have terminator : Terminator before (unplaced .semicolon) behind :=
    ⟨complete_append inner rfl, by decide +kernel, rfl, rfl⟩
  have noNesting : front behind ∉ nestingMarks := by decide
  exact ⟨terminator, noNesting, by decide +kernel, single_error_without_terminator terminator noNesting⟩

/-- For each of the nesting marks a program where it stands behind a semicolon: what is before the
semicolon, and what is behind it up to the end. -/
def cascading : List (List Token.Kind × List Token.Kind) :=
  let something : Token.Kind := .keyword .nilWord
  let block : List Token.Kind := [.leftBrace, something, .semicolon, .rightBrace]
  let guarded : List Token.Kind := [.leftParen, something, .rightParen]
  [([something], block),
    ([.leftBrace, something], [.rightBrace]),
    (.keyword .ifWord :: guarded ++ [something], .keyword .elseWord :: block),
    ([something], [.keyword .forWord, .leftParen, .semicolon, .semicolon, .rightParen] ++ block),
    ([something], [.keyword .funWord, .identifier, .leftParen, .rightParen] ++ block),
    ([something], .keyword .ifWord :: guarded ++ block),
    ([something], .keyword .whileWord :: guarded ++ block)]

/-- None of the nesting marks can be left out of the condition: where the semicolon before it is missing,
more than one mistake is noted. -/
theorem cascades_at_nestingMarks :
    cascading.filterMap (·.2.head?) = nestingMarks ∧ ∀ input ∈ cascading,
      let before := input.1.map unplaced
      let behind := input.2.map unplaced ++ [closing 0]
      Terminator before (unplaced .semicolon) behind ∧ 1 < (read (before ++ behind)).errors.length := by
  have inner : ∀ input ∈ cascading, ∀ kind ∈ input.1 ++ .semicolon :: input.2, kind ≠ .endOfInput := by
    decide
  have outside : ∀ input ∈ cascading, depth (input.1.map unplaced) = 0 := by decide
  have noMistake : ∀ input ∈ cascading, (read (input.1.map unplaced ++ unplaced .semicolon ::
      (input.2.map unplaced ++ [closing 0]))).errors = [] := by
    decide +kernel
  have mistakes : ∀ input ∈ cascading,
      1 < (read (input.1.map unplaced ++ (input.2.map unplaced ++ [closing 0]))).errors.length := by
    decide +kernel
  refine ⟨by decide, fun input member => ⟨⟨?_, noMistake input member, rfl, outside input member⟩,
    mistakes input member⟩⟩
  have spelled : input.1.map unplaced ++ unplaced .semicolon :: (input.2.map unplaced ++ [closing 0]) =
      (input.1 ++ .semicolon :: input.2).map unplaced ++ [closing 0] := by simp
  rw [spelled]
  refine complete_append (fun token isToken => ?_) rfl
  obtain ⟨kind, isKind, rfl⟩ := List.mem_map.mp isToken
  exact inner input member kind isKind

end LoxInterpreter.Grammar
