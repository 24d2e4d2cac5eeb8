import LoxInterpreter.Proofs.Grammar.Rules

/-!
Contract: what is read without a mistake is normal, and its tokens are those that write it.

Each rule of the grammar is sound as soon as the parsers for what is nested in it are, for token lists
up to one token longer. A loop with three clauses has no tree of its own, so the tokens are compared
only where no such loop is begun.

Owns: `unary_and_expression_sound`, `statement_and_declaration_sound`, `read_normal` and `read_written`.
Does not own: the converse (`Proofs.Grammar.Completeness`).
-/

namespace LoxInterpreter.Grammar

open Token LoxInterpreter.Grammar.Parser

/-- A mark that is taken is written again. -/
theorem Takes.sameContent {kind : Token.Kind} {tokens rest written : List Token}
    (takes : Takes kind tokens rest) (noName : kind ≠ .identifier)
    (same : SameContent rest written) : SameContent tokens (unplaced kind :: written) := by
  obtain ⟨token, rfl, isKind⟩ := takes
  exact SameContent.cons (content_eq_of_kind isKind (by rwa [isKind])) same

/-! ## Repetition -/

/-- What a step keeps, growing keeps. -/
theorem Parser.Reads.grow_keeps {α : Type} {step : α → Parser (Option α)}
    (invariant : α → List Token → Prop)
    (stop : ∀ value tokens rest, (step value).Reads tokens none rest → rest = tokens)
    (keeps : ∀ value tokens grown rest, invariant value tokens →
      (step value).Reads tokens (some grown) rest → invariant grown rest)
    {bound : Nat} {value result : α} {tokens rest : List Token}
    (reads : (grow step bound value).Reads tokens result rest) (holds : invariant value tokens) :
    invariant result rest := by
  induction bound generalizing value tokens with
  | zero =>
      obtain ⟨rfl, rfl⟩ := reads_pure_iff.mp reads
      exact holds
  | succ bound inductionHypothesis =>
      rcases reads_grow_iff.mp reads with ⟨one, rfl⟩ | ⟨grown, between, one, following⟩
      · rw [stop _ _ _ one]
        exact holds
      · exact inductionHypothesis following (keeps _ _ _ _ holds one)

/-- The items of a comma list are sound if each of them is, and together they are written with commas
between them. -/
theorem commaSeparated_sound {α : Type} {item : Parser α} {excess : SyntaxError.Cause}
    {good : α → Prop} {write : α → List Token} {limit : Nat}
    (sound : ∀ tokens value rest, tokens.length < limit → item.Reads tokens value rest →
      good value ∧ 0 < (write value).length ∧ SameContent tokens (write value ++ rest))
    {bound count : Nat} {tokens rest : List Token} {items : List α}
    (short : tokens.length < bound) (within : tokens.length < limit)
    (reads : (commaSeparated item excess bound count).Reads tokens items rest) :
    items ≠ [] ∧ (∀ value ∈ items, good value) ∧ count + items.length ≤ itemLimit ∧
      SameContent tokens (joinedByCommas (items.map write) ++ rest) := by
  induction bound generalizing count tokens items with
  | zero => omega
  | succ bound inductionHypothesis =>
      obtain ⟨fits, first, between, one, last | more⟩ := reads_commaSeparated_iff.mp reads
      · obtain ⟨_, rfl, rfl⟩ := last
        obtain ⟨goodFirst, _, written⟩ := sound _ _ _ within one
        refine ⟨by simp, by simpa using goodFirst, fits, ?_⟩
        simpa [joinedByCommas] using written
      · obtain ⟨others, later, comma, following, rfl⟩ := more
        obtain ⟨goodFirst, taken, written⟩ := sound _ _ _ within one
        have shorter := written.length_eq
        rw [List.length_append, comma.length_eq] at shorter
        obtain ⟨nonempty, goodLater, counted, writtenLater⟩ :=
          inductionHypothesis (by omega) (by omega) following
        obtain ⟨second, rest', rfl⟩ := List.exists_cons_of_ne_nil nonempty
        refine ⟨by simp, ?_, ?_, ?_⟩
        · intro value member
          rcases List.mem_cons.mp member with rfl | behind
          · exact goodFirst
          · exact goodLater value behind
        · simp only [List.length_cons] at counted ⊢
          omega
        · refine Eq.trans written ?_
          simp only [List.map_cons, joinedByCommas, List.append_assoc, List.cons_append]
          exact (SameContent.refl _).append (comma.sameContent (by decide) writtenLater)

/-- A list in parentheses is sound if its items are. -/
theorem list_sound {α : Type} {item : Parser α} {excess : SyntaxError.Cause} {good : α → Prop}
    {write : α → List Token} {limit : Nat}
    (sound : ∀ tokens value rest, tokens.length < limit → item.Reads tokens value rest →
      good value ∧ 0 < (write value).length ∧ SameContent tokens (write value ++ rest))
    {bound : Nat} {tokens rest : List Token} {items : List α}
    (short : tokens.length < bound) (within : tokens.length < limit)
    (reads : (Parser.list item excess bound).Reads tokens items rest) :
    (∀ value ∈ items, good value) ∧ items.length ≤ itemLimit ∧
      SameContent tokens (joinedByCommas (items.map write) ++ rest) := by
  rcases reads_list_iff.mp reads with ⟨_, rfl, rfl⟩ | ⟨_, separated⟩
  · exact ⟨by simp, by simp, SameContent.refl _⟩
  · obtain ⟨_, goodItems, counted, written⟩ := commaSeparated_sound sound short within separated
    exact ⟨goodItems, by omega, written⟩

/-! ## Expressions -/

/-- Whether a parser, on token lists up to a length, reads normal expressions of at least some rank
from the tokens that write them. -/
def SoundExpression (rank limit : Nat) (parser : Parser (Expression Unit)) : Prop :=
  ∀ tokens value rest, tokens.length ≤ limit → parser.Reads tokens value rest →
    value.Normal ∧ rank ≤ value.rank ∧ SameContent tokens (value.tokens ++ rest)

theorem SoundExpression.mono {rank rank' limit : Nat} {parser : Parser (Expression Unit)}
    (sound : SoundExpression rank limit parser) (le : rank' ≤ rank) :
    SoundExpression rank' limit parser := by
  intro tokens value rest short reads
  obtain ⟨normal, tight, written⟩ := sound tokens value rest short reads
  exact ⟨normal, Nat.le_trans le tight, written⟩

/-- A token that denotes an expression by itself writes it. -/
theorem atom?_sound {token : Token} {value : Expression Unit} (atom : atom? token = some value) :
    value.Normal ∧ value.rank = primaryRank ∧ SameContent [token] value.tokens := by
  unfold atom? at atom
  split at atom <;> simp only [Option.some.injEq, reduceCtorEq] at atom <;> subst atom <;>
    rename_i isKind <;>
    simp [Expression.Normal, Expression.rank, Expression.tokens, SameContent, content, isKind,
      Constant.token, unplaced, ofSymbol, Name.token, ofName]

theorem primaryRule_sound {limit : Nat} {nested : Parser (Expression Unit)}
    (sound : SoundExpression 0 limit nested) :
    SoundExpression primaryRank (limit + 1) (primaryRule nested) := by
  intro tokens value rest short reads
  rcases reads_primaryRule_iff.mp reads with ⟨token, rfl, isAtom⟩ |
    ⟨opened, inner, closing, opening, readsInner, closed, rfl⟩
  · obtain ⟨normal, rank, written⟩ := atom?_sound isAtom
    exact ⟨normal, Nat.le_of_eq rank.symm, written.append (SameContent.refl rest)⟩
  · have shorter := opening.length_eq
    obtain ⟨normal, _, written⟩ := sound _ _ _ (by omega) readsInner
    refine ⟨normal, Nat.le_refl _, opening.sameContent (by decide) ?_⟩
    rw [List.append_eq, List.append_assoc]
    exact written.trans ((SameContent.refl _).append
      (closed.sameContent (by decide) (SameContent.refl _)))

/-- One pair of parentheses behind a callee is written behind it. -/
theorem callStep_sound {limit bound : Nat} {nested : Parser (Expression Unit)}
    (sound : SoundExpression 0 limit nested) {callee result : Expression Unit}
    {tokens rest : List Token} (short : tokens.length ≤ limit + 1) (bounded : tokens.length ≤ bound)
    (normalCallee : callee.Normal) (tight : callRank ≤ callee.rank)
    (reads : (callStep nested bound callee).Reads tokens (some result) rest) :
    result.Normal ∧ callRank ≤ result.rank ∧
      SameContent (callee.tokens ++ tokens) (result.tokens ++ rest) := by
  obtain ⟨opened, arguments, closing, opening, readsArguments, isClosing, rfl⟩ :=
    reads_callStep_some_iff.mp reads
  have shorter := opening.length_eq
  have item : ∀ tokens value rest, tokens.length < limit + 1 → nested.Reads tokens value rest →
      value.Normal ∧ 0 < value.tokens.length ∧ SameContent tokens (value.tokens ++ rest) := by
    intro tokens value rest within readsValue
    obtain ⟨normal, _, written⟩ := sound _ _ _ (by omega) readsValue
    exact ⟨normal, value.tokens_length_pos, written⟩
  obtain ⟨normal, counted, written⟩ := list_sound item (by omega) (by omega) readsArguments
  refine ⟨⟨tight, normalCallee, counted, Expression.listNormal_iff.mpr normal⟩, Nat.le_refl _, ?_⟩
  simp only [Expression.tokens, Expression.eachTokens_eq_map, List.append_assoc, List.cons_append,
    List.nil_append]
  refine (SameContent.refl _).append (opening.sameContent (by decide) ?_)
  refine written.trans ((SameContent.refl _).append (SameContent.cons ?_ (SameContent.refl _)))
  exact content_eq_of_kind isClosing (by rw [isClosing]; decide)

theorem callRule_sound {limit : Nat} {nested : Parser (Expression Unit)}
    (sound : SoundExpression 0 limit nested) :
    SoundExpression callRank (limit + 1) (callRule nested (limit + 1)) := by
  intro tokens value rest short reads
  obtain ⟨callee, between, readsCallee, grows⟩ := reads_callRule_iff.mp reads
  obtain ⟨normal, tight, written⟩ := primaryRule_sound sound _ _ _ short readsCallee
  refine grows.grow_keeps
    (fun value remaining => value.Normal ∧ callRank ≤ value.rank ∧
      SameContent tokens (value.tokens ++ remaining))
    (fun _ _ _ one => (reads_callStep_none_iff.mp one).1) (fun value remaining grown rest holds one => ?_)
    ⟨normal, Nat.le_trans (by decide) tight, written⟩
  obtain ⟨normalValue, tightValue, writtenValue⟩ := holds
  have shorter := writtenValue.length_eq
  rw [List.length_append] at shorter
  obtain ⟨normalGrown, tightGrown, writtenGrown⟩ :=
    callStep_sound sound (by omega) (by omega) normalValue tightValue one
  exact ⟨normalGrown, tightGrown, writtenValue.trans writtenGrown⟩

theorem unaryRule_sound {limit : Nat} {nestedUnary nested : Parser (Expression Unit)}
    (soundUnary : SoundExpression unaryRank limit nestedUnary)
    (sound : SoundExpression 0 limit nested) :
    SoundExpression unaryRank (limit + 1) (unaryRule nestedUnary nested (limit + 1)) := by
  intro tokens value rest short reads
  rcases reads_unaryRule_iff.mp reads with
    ⟨token, behind, operator, operand, rfl, isKind, readsOperand, rfl⟩ | ⟨_, calls⟩
  · obtain ⟨normal, tight, written⟩ := soundUnary _ _ _ (by simpa using short) readsOperand
    refine ⟨⟨tight, normal⟩, Nat.le_refl _, SameContent.cons ?_ written⟩
    exact content_eq_of_kind isKind (by rw [isKind]; cases operator <;> decide)
  · exact (callRule_sound sound).mono (by decide) _ _ _ short calls

/-! ## Levels -/

/-- What the tokens of a level build stands on that level, and is written with the operator between
its operands. -/
theorem Level.build?_sound {level : Level} {token : Token}
    {build : Expression Unit → Expression Unit → Expression Unit}
    (built : level.build? token = some build) (left right : Expression Unit) :
    (build left right).rank = level.rank ∧
      SameContent (left.tokens ++ token :: right.tokens) (build left right).tokens := by
  rcases Level.build?_eq_some_iff.mp built with ⟨operator, rfl, isKind, rfl⟩ |
    ⟨operator, rfl, isKind, rfl⟩
  all_goals
    refine ⟨rfl, ?_⟩
    refine (SameContent.refl _).append (SameContent.cons ?_ (SameContent.refl _))
    exact content_eq_of_kind isKind (by rw [isKind]; cases operator <;> decide)

theorem operatorsRule_sound {limit bound : Nat} {operand : Parser (Expression Unit)}
    (sound : SoundExpression unaryRank limit operand) {levels : List Level} (ladder : Ladder levels) :
    SoundExpression (ranksFrom levels) limit (operatorsRule operand bound levels) := by
  induction levels with
  | nil => exact sound
  | cons level tighter inductionHypothesis =>
      obtain ⟨next, ladderTighter⟩ := ladder
      have soundTighter := inductionHypothesis ladderTighter
      intro tokens value rest short reads
      obtain ⟨left, between, readsLeft, grows⟩ := reads_operatorsRule_cons_iff.mp reads
      obtain ⟨normal, tight, written⟩ := soundTighter _ _ _ short readsLeft
      refine grows.grow_keeps
        (fun value remaining => value.Normal ∧ level.rank ≤ value.rank ∧
          SameContent tokens (value.tokens ++ remaining))
        (fun _ _ _ one => (reads_operatorStep_none_iff.mp one).1)
        (fun value remaining grown rest holds one => ?_) ⟨normal, by omega, written⟩
      obtain ⟨normalValue, tightValue, writtenValue⟩ := holds
      obtain ⟨token, behind, build, right, rfl, built, readsRight, rfl⟩ :=
        reads_operatorStep_some_iff.mp one
      have shorter := writtenValue.length_eq
      rw [List.length_append, List.length_cons] at shorter
      obtain ⟨normalRight, tightRight, writtenRight⟩ := soundTighter _ _ _ (by omega) readsRight
      obtain ⟨rank, writtenBuilt⟩ := Level.build?_sound built value right
      refine ⟨(Level.build?_normal_iff built value right).mpr
        ⟨tightValue, by omega, normalValue, normalRight⟩, Nat.le_of_eq rank.symm, writtenValue.trans ?_⟩
      refine Eq.trans ?_ (writtenBuilt.append (SameContent.refl rest))
      rw [List.append_assoc, List.cons_append]
      exact (SameContent.refl _).append (SameContent.cons rfl writtenRight)

theorem assignmentRule_sound {limit bound : Nat} {operand nested : Parser (Expression Unit)}
    (soundOperand : SoundExpression unaryRank (limit + 1) operand)
    (sound : SoundExpression 0 limit nested) :
    SoundExpression 0 (limit + 1) (assignmentRule operand nested bound) := by
  have soundLevels : SoundExpression 1 (limit + 1) (operatorsRule operand bound Level.all) :=
    operatorsRule_sound soundOperand ladder_all
  intro tokens value rest short reads
  rcases reads_assignmentRule_iff.mp reads with ⟨readsValue, _⟩ |
    ⟨name, between, behind, assigned, readsTarget, equals, readsValue, rfl⟩
  · exact soundLevels.mono (Nat.zero_le _) _ _ _ short readsValue
  · obtain ⟨_, _, writtenTarget⟩ := soundLevels _ _ _ short readsTarget
    have shorter := writtenTarget.length_eq
    rw [List.length_append, equals.length_eq] at shorter
    obtain ⟨normal, _, written⟩ := sound _ _ _ (by omega) readsValue
    refine ⟨normal, Nat.zero_le _, writtenTarget.trans ?_⟩
    exact SameContent.cons rfl (equals.sameContent (by decide) written)

/-- What is read as an operand or an expression is normal, and its tokens write it. -/
theorem unary_and_expression_sound (bound : Nat) :
    SoundExpression unaryRank bound (unary bound) ∧ SoundExpression 0 bound (expression bound) := by
  induction bound with
  | zero => exact ⟨fun _ _ _ _ reads => absurd reads not_reads_fail,
      fun _ _ _ _ reads => absurd reads not_reads_fail⟩
  | succ bound inductionHypothesis =>
      have operands := unaryRule_sound inductionHypothesis.1 inductionHypothesis.2
      exact ⟨operands, assignmentRule_sound operands inductionHypothesis.2⟩

/-! ## Statements -/

/-- Whether no loop with three clauses begins in some tokens. -/
def NoThreeClauses (tokens : List Token) : Prop :=
  ∀ token ∈ tokens, token.kind ≠ .keyword .forWord

theorem NoThreeClauses.tail {token : Token} {rest : List Token}
    (none : NoThreeClauses (token :: rest)) : NoThreeClauses rest :=
  fun other member => none other (List.mem_cons_of_mem _ member)

theorem NoThreeClauses.behind {kind : Token.Kind} {tokens rest : List Token}
    (none : NoThreeClauses tokens) (takes : Takes kind tokens rest) : NoThreeClauses rest := by
  obtain ⟨token, rfl, _⟩ := takes
  exact none.tail

theorem NoThreeClauses.rest {tokens written rest : List Token} (none : NoThreeClauses tokens)
    (same : SameContent tokens (written ++ rest)) : NoThreeClauses rest := by
  intro token member
  have present : token.content ∈ tokens.map content := by
    rw [show tokens.map content = _ from same]
    exact List.mem_map_of_mem (List.mem_append_right _ member)
  obtain ⟨other, member', sameContent⟩ := List.mem_map.mp present
  have sameKind : other.kind = token.kind := congrArg Prod.fst sameContent
  exact sameKind ▸ none other member'

/-- What is known of a statement that was read from some tokens, behind a mark that was taken before
them. -/
structure Accepted (mark : List Token) (value : Statement Unit) (tokens rest : List Token) : Prop where
  normal : value.Normal
  /-- A choice that could be extended is not followed by what would extend it. -/
  closed : value.endsOpen = true → front rest ≠ .keyword .elseWord
  shorter : rest.length < tokens.length
  written : NoThreeClauses tokens → SameContent (mark ++ tokens) (value.tokens ++ rest)

/-- Whether a parser, on token lists up to a length, reads only normal statements that declare
nothing. -/
def SoundStatement (limit : Nat) (parser : Parser (Statement Unit)) : Prop :=
  ∀ tokens value rest, tokens.length ≤ limit → parser.Reads tokens value rest →
    value.isDeclaration = false ∧ Accepted [] value tokens rest

/-- Whether a parser, on token lists up to a length, reads only normal statements. -/
def SoundDeclaration (limit : Nat) (parser : Parser (Option (Statement Unit))) : Prop :=
  ∀ tokens result rest, tokens.length ≤ limit → parser.Reads tokens result rest →
    ∃ value, result = some value ∧ Accepted [] value tokens rest

/-- A statement behind its mark, together with the mark. -/
theorem Accepted.behind {kind : Token.Kind} {value : Statement Unit} {tokens behind rest : List Token}
    (accepted : Accepted [unplaced kind] value behind rest) (takes : Takes kind tokens behind)
    (noName : kind ≠ .identifier) : Accepted [] value tokens rest where
  normal := accepted.normal
  closed := accepted.closed
  shorter := by
    have := accepted.shorter
    rw [takes.length_eq]
    omega
  written none :=
    (takes.sameContent noName (SameContent.refl behind)).trans (accepted.written (none.behind takes))

section Rules

variable {limit bound : Nat} {expression : Parser (Expression Unit)}
  {statement : Parser (Statement Unit)} {declaration : Parser (Option (Statement Unit))}
  {value : Statement Unit} {tokens rest : List Token}

theorem expressionStatementRule_sound (sound : SoundExpression 0 limit expression)
    (short : tokens.length ≤ limit)
    (reads : (expressionStatementRule expression).Reads tokens value rest) :
    value.isDeclaration = false ∧ Accepted [] value tokens rest := by
  obtain ⟨inner, closing, readsInner, closed, rfl⟩ := reads_expressionStatementRule_iff.mp reads
  obtain ⟨normal, _, written⟩ := sound _ _ _ short readsInner
  have shorter := written.length_eq
  rw [List.length_append, closed.length_eq] at shorter
  refine ⟨rfl, normal, by simp [Statement.endsOpen], by omega, fun _ => written.trans ?_⟩
  rw [Statement.tokens, List.append_assoc]
  exact (SameContent.refl _).append (closed.sameContent (by decide) (SameContent.refl _))

theorem printRule_sound (sound : SoundExpression 0 limit expression) (short : tokens.length ≤ limit)
    (reads : (printRule expression).Reads tokens value rest) :
    value.isDeclaration = false ∧ Accepted [unplaced (.keyword .printWord)] value tokens rest := by
  obtain ⟨inner, closing, readsInner, closed, rfl⟩ := reads_printRule_iff.mp reads
  obtain ⟨normal, _, written⟩ := sound _ _ _ short readsInner
  have shorter := written.length_eq
  rw [List.length_append, closed.length_eq] at shorter
  refine ⟨rfl, normal, by simp [Statement.endsOpen], by omega, fun _ => SameContent.cons rfl ?_⟩
  simp only [List.append_eq, List.append_assoc, List.nil_append]
  exact written.trans
    ((SameContent.refl _).append (closed.sameContent (by decide) (SameContent.refl _)))

/-- The tokens of an expression that may be missing. -/
theorem optionalBefore_sound {mark : Token.Kind} (sound : SoundExpression 0 limit expression)
    {result : Option (Expression Unit)} (short : tokens.length ≤ limit)
    (reads : (optionalBefore mark expression).Reads tokens result rest) :
    (∀ value ∈ result, value.Normal) ∧ rest.length ≤ tokens.length ∧
      SameContent tokens ((result.elim [] Expression.tokens) ++ rest) := by
  rcases reads_optionalBefore_iff.mp reads with ⟨_, rfl, rfl⟩ | ⟨_, inner, readsInner, rfl⟩
  · exact ⟨by simp, Nat.le_refl _, SameContent.refl _⟩
  · obtain ⟨normal, _, written⟩ := sound _ _ _ short readsInner
    have shorter := written.length_eq
    rw [List.length_append] at shorter
    exact ⟨by simpa using normal, by omega, written⟩

theorem returnRule_sound {line : Nat} (sound : SoundExpression 0 limit expression)
    (short : tokens.length ≤ limit) (reads : (returnRule expression line).Reads tokens value rest) :
    value.isDeclaration = false ∧
      Accepted [.ofSymbol (.keyword .returnWord) line] value tokens rest := by
  obtain ⟨result, closing, readsResult, closed, rfl⟩ := reads_returnRule_iff.mp reads
  obtain ⟨normal, shorter, written⟩ := optionalBefore_sound sound short readsResult
  rw [closed.length_eq] at shorter
  have both : SameContent tokens (result.elim [] Expression.tokens ++ unplaced .semicolon :: rest) :=
    written.trans ((SameContent.refl _).append (closed.sameContent (by decide) (SameContent.refl _)))
  refine ⟨rfl, normal, by simp [Statement.endsOpen], by omega, fun _ => ?_⟩
  cases result with
  | none => exact SameContent.cons rfl both
  | some result =>
      refine SameContent.cons rfl (both.trans ?_)
      rw [List.append_eq, List.append_assoc]
      exact SameContent.refl _

theorem nameRule_sound {role : NameRole} {name : Name}
    (reads : (nameRule role).Reads tokens name rest) :
    tokens.length = rest.length + 1 ∧ SameContent tokens (name.token :: rest) := by
  obtain ⟨token, rfl, isName, rfl⟩ := reads_nameRule_iff.mp reads
  refine ⟨rfl, SameContent.cons ?_ (SameContent.refl _)⟩
  simp [content, isName, Name.token, ofName]

theorem variableRule_sound (sound : SoundExpression 0 limit expression)
    (short : tokens.length ≤ limit) (reads : (variableRule expression).Reads tokens value rest) :
    Accepted [unplaced (.keyword .varWord)] value tokens rest := by
  obtain ⟨name, afterName, readsName, declared⟩ := reads_variableRule_iff.mp reads
  obtain ⟨shorter, writtenName⟩ := nameRule_sound readsName
  rcases declared with ⟨closed, rfl⟩ |
    ⟨behind, initializer, closing, equals, readsInitializer, closed, rfl⟩
  · have shorter' := closed.length_eq
    refine ⟨by simp [Statement.Normal], by simp [Statement.endsOpen], by omega, fun _ => ?_⟩
    refine SameContent.cons rfl (writtenName.trans (SameContent.cons rfl ?_))
    exact closed.sameContent (by decide) (SameContent.refl _)
  · have shorter' := equals.length_eq
    obtain ⟨normal, _, written⟩ := sound _ _ _ (by omega) readsInitializer
    have shorter'' := written.length_eq
    rw [List.length_append, closed.length_eq] at shorter''
    refine ⟨by simpa [Statement.Normal] using normal, by simp [Statement.endsOpen], by omega,
      fun _ => ?_⟩
    refine SameContent.cons rfl (writtenName.trans (SameContent.cons rfl ?_))
    refine equals.sameContent (by decide) (written.trans ?_)
    rw [List.append_eq, List.append_assoc]
    exact (SameContent.refl _).append (closed.sameContent (by decide) (SameContent.refl _))

theorem whileRule_sound (sound : SoundExpression 0 limit expression)
    (soundStatement : SoundStatement limit statement) (short : tokens.length ≤ limit)
    (reads : (whileRule expression statement).Reads tokens value rest) :
    value.isDeclaration = false ∧ Accepted [unplaced (.keyword .whileWord)] value tokens rest := by
  obtain ⟨opened, condition, closing, behind, body, opening, readsCondition, closed, readsBody, rfl⟩ :=
    reads_whileRule_iff.mp reads
  have shorter := opening.length_eq
  obtain ⟨normal, _, written⟩ := sound _ _ _ (by omega) readsCondition
  have shorter' := written.length_eq
  rw [List.length_append, closed.length_eq] at shorter'
  obtain ⟨plain, accepted⟩ := soundStatement _ _ _ (by omega) readsBody
  have shorter'' := accepted.shorter
  refine ⟨rfl, ⟨normal, plain, accepted.normal⟩, accepted.closed, by omega, fun none => ?_⟩
  have noneBehind := ((none.behind opening).rest written).behind closed
  refine SameContent.cons rfl (opening.sameContent (by decide) (written.trans ?_))
  rw [List.append_eq, List.append_assoc]
  exact (SameContent.refl _).append (closed.sameContent (by decide) (accepted.written noneBehind))

theorem conditionalRule_sound (sound : SoundExpression 0 limit expression)
    (soundStatement : SoundStatement limit statement) (short : tokens.length ≤ limit)
    (reads : (conditionalRule expression statement).Reads tokens value rest) :
    value.isDeclaration = false ∧ Accepted [unplaced (.keyword .ifWord)] value tokens rest := by
  obtain ⟨opened, condition, closing, behind, thenBranch, afterThen, opening, readsCondition, closed,
    readsThen, branches⟩ := reads_conditionalRule_iff.mp reads
  have shorter := opening.length_eq
  obtain ⟨normal, _, written⟩ := sound _ _ _ (by omega) readsCondition
  have shorter' := written.length_eq
  rw [List.length_append, closed.length_eq] at shorter'
  obtain ⟨plain, accepted⟩ := soundStatement _ _ _ (by omega) readsThen
  have shorterThen := accepted.shorter
  -- The tokens up to the first branch are written in the same way with and without a second one.
  have writtenThen (none : NoThreeClauses tokens) : SameContent tokens
      (unplaced .leftParen :: (condition.tokens ++ unplaced .rightParen ::
        (thenBranch.tokens ++ afterThen))) := by
    have noneBehind := ((none.behind opening).rest written).behind closed
    refine opening.sameContent (by decide) (written.trans ((SameContent.refl _).append ?_))
    exact closed.sameContent (by decide) (accepted.written noneBehind)
  rcases branches with ⟨noElse, rfl, rfl⟩ | ⟨afterElse, elseBranch, isElse, readsElse, rfl⟩
  · refine ⟨rfl, ⟨normal, plain, accepted.normal⟩, fun _ => noElse, by omega, fun none => ?_⟩
    refine SameContent.cons rfl ((writtenThen none).trans ?_)
    simp only [List.append_eq, List.append_assoc, List.cons_append]
  · have shorterElse := isElse.length_eq
    obtain ⟨plainElse, acceptedElse⟩ := soundStatement _ _ _ (by omega) readsElse
    have shorterRest := acceptedElse.shorter
    have notOpen : thenBranch.endsOpen = false :=
      Bool.eq_false_iff.mpr fun isOpen => accepted.closed isOpen isElse.front_eq
    refine ⟨rfl, ⟨normal, ⟨plain, notOpen, accepted.normal⟩, plainElse, acceptedElse.normal⟩,
      acceptedElse.closed, by omega, fun none => ?_⟩
    have noneBehind := ((none.behind opening).rest written).behind closed
    have noneElse := (noneBehind.rest (accepted.written noneBehind)).behind isElse
    refine SameContent.cons rfl ((writtenThen none).trans ?_)
    simp only [List.append_eq, List.append_assoc, List.cons_append]
    refine SameContent.cons rfl ((SameContent.refl _).append (SameContent.cons rfl ?_))
    exact (SameContent.refl _).append
      (isElse.sameContent (by decide) (acceptedElse.written noneElse))

theorem initializerRule_sound (sound : SoundExpression 0 limit expression)
    {result : Option (Statement Unit)} (short : tokens.length ≤ limit)
    (reads : (initializerRule expression).Reads tokens result rest) :
    (∀ first ∈ result, first.Normal) ∧ rest.length < tokens.length := by
  rcases reads_initializerRule_iff.mp reads with ⟨closed, rfl⟩ |
    ⟨behind, first, word, readsFirst, rfl⟩ | ⟨_, _, first, readsFirst, rfl⟩
  · exact ⟨by simp, by rw [closed.length_eq]; omega⟩
  · have shorter := word.length_eq
    have accepted := variableRule_sound sound (by omega) readsFirst
    exact ⟨by simpa using accepted.normal, Nat.lt_trans accepted.shorter (by omega)⟩
  · obtain ⟨_, accepted⟩ := expressionStatementRule_sound sound short readsFirst
    exact ⟨by simpa using accepted.normal, accepted.shorter⟩

/-- A loop with three clauses stands for a normal tree, which can be extended where its body can. -/
theorem loopOfClauses_normal {initializer : Option (Statement Unit)}
    {condition increment : Option (Expression Unit)} {body : Statement Unit}
    (normalInitializer : ∀ first ∈ initializer, first.Normal)
    (normalCondition : ∀ value ∈ condition, value.Normal)
    (normalIncrement : ∀ value ∈ increment, value.Normal)
    (plain : body.isDeclaration = false) (normalBody : body.Normal) :
    let loop := loopOfClauses initializer condition increment body
    loop.isDeclaration = false ∧ loop.Normal ∧ (loop.endsOpen = true → body.endsOpen = true) := by
  have holds : (condition.getD (.constant (.boolean true))).Normal := by
    cases condition with
    | none => exact trivial
    | some value => exact normalCondition value rfl
  cases increment with
  | none =>
      cases initializer with
      | none => exact ⟨rfl, ⟨holds, plain, normalBody⟩, id⟩
      | some first =>
          exact ⟨rfl, ⟨normalInitializer first rfl, ⟨holds, plain, normalBody⟩, trivial⟩,
            fun isOpen => absurd isOpen Bool.false_ne_true⟩
  | some step =>
      have normalRepeated : (Statement.block [body, .expression step]).Normal :=
        ⟨normalBody, normalIncrement step rfl, trivial⟩
      cases initializer with
      | none =>
          exact ⟨rfl, ⟨holds, rfl, normalRepeated⟩, fun isOpen => absurd isOpen Bool.false_ne_true⟩
      | some first =>
          exact ⟨rfl, ⟨normalInitializer first rfl, ⟨holds, rfl, normalRepeated⟩, trivial⟩,
            fun isOpen => absurd isOpen Bool.false_ne_true⟩

/-- What a loop with three clauses is written with is not asked for, since it has no tree. -/
theorem forRule_sound (sound : SoundExpression 0 limit expression)
    (soundStatement : SoundStatement limit statement) (short : tokens.length ≤ limit)
    (reads : (forRule expression statement).Reads tokens value rest) :
    value.isDeclaration = false ∧ value.Normal ∧
      (value.endsOpen = true → front rest ≠ .keyword .elseWord) ∧ rest.length < tokens.length := by
  obtain ⟨opened, initializer, afterInitializer, condition, afterCondition, behindCondition,
    increment, closing, behind, body, opening, readsInitializer, readsCondition, separated,
    readsIncrement, closed, readsBody, rfl⟩ := reads_forRule_iff.mp reads
  have shorter := opening.length_eq
  obtain ⟨normalInitializer, shorterInitializer⟩ :=
    initializerRule_sound sound (by omega) readsInitializer
  obtain ⟨normalCondition, shorterCondition, _⟩ :=
    optionalBefore_sound sound (by omega) readsCondition
  have shorterSeparated := separated.length_eq
  obtain ⟨normalIncrement, shorterIncrement, _⟩ :=
    optionalBefore_sound sound (by omega) readsIncrement
  have shorterClosed := closed.length_eq
  obtain ⟨plain, accepted⟩ := soundStatement _ _ _ (by omega) readsBody
  have shorterBody := accepted.shorter
  obtain ⟨plainLoop, normalLoop, opens⟩ := loopOfClauses_normal normalInitializer normalCondition
    normalIncrement plain accepted.normal
  exact ⟨plainLoop, normalLoop, fun isOpen => accepted.closed (opens isOpen), by omega⟩

/-- Statements one after another are sound if each of them is. -/
theorem many_sound (sound : SoundDeclaration limit declaration) {stop : List Token → Bool}
    {items : List (Statement Unit)} (short : tokens.length ≤ limit)
    (reads : (many declaration stop bound).Reads tokens items rest) :
    Statement.listNormal items ∧ rest.length ≤ tokens.length ∧
      (NoThreeClauses tokens → SameContent tokens (Statement.listTokens items ++ rest)) := by
  induction bound generalizing tokens items with
  | zero =>
      obtain ⟨rfl, rfl⟩ := reads_pure_iff.mp reads
      exact ⟨trivial, Nat.le_refl _, fun _ => SameContent.refl _⟩
  | succ bound inductionHypothesis =>
      rcases reads_many_iff.mp reads with ⟨_, rfl, rfl⟩ |
        ⟨_, first, between, later, one, following, rfl⟩
      · exact ⟨trivial, Nat.le_refl _, fun _ => SameContent.refl _⟩
      · obtain ⟨value, rfl, accepted⟩ := sound _ _ _ short one
        have shorter := accepted.shorter
        obtain ⟨normalLater, shorterLater, writtenLater⟩ :=
          inductionHypothesis (by omega) following
        refine ⟨⟨accepted.normal, normalLater⟩, by omega, fun none => ?_⟩
        have written := accepted.written none
        refine Eq.trans written ?_
        simp only [Option.toList_some, List.cons_append, List.nil_append, Statement.listTokens,
          List.append_assoc]
        exact (SameContent.refl _).append (writtenLater (none.rest written))

theorem blockRule_sound (sound : SoundDeclaration limit declaration)
    {items : List (Statement Unit)} (short : tokens.length ≤ limit)
    (reads : (blockRule declaration bound).Reads tokens items rest) :
    Statement.listNormal items ∧ rest.length < tokens.length ∧
      (NoThreeClauses tokens → SameContent tokens
        (Statement.listTokens items ++ unplaced .rightBrace :: rest)) := by
  obtain ⟨closing, readsItems, closed⟩ := reads_blockRule_iff.mp reads
  obtain ⟨normal, shorter, written⟩ := many_sound sound short readsItems
  rw [closed.length_eq] at shorter
  refine ⟨normal, by omega, fun none => (written none).trans ((SameContent.refl _).append ?_)⟩
  exact closed.sameContent (by decide) (SameContent.refl _)

theorem functionRule_sound (sound : SoundDeclaration limit declaration)
    (short : tokens.length ≤ limit) (bounded : tokens.length ≤ bound)
    (reads : (functionRule declaration bound).Reads tokens value rest) :
    Accepted [unplaced (.keyword .funWord)] value tokens rest := by
  obtain ⟨name, afterName, opened, parameters, closing, afterParameters, behind, body, readsName,
    opening, readsParameters, closed, brace, readsBody, rfl⟩ := reads_functionRule_iff.mp reads
  obtain ⟨shorterName, writtenName⟩ := nameRule_sound readsName
  have shorterOpened := opening.length_eq
  have item : ∀ tokens name rest, tokens.length < limit → (nameRule .parameter).Reads tokens name rest →
      True ∧ 0 < [name.token].length ∧ SameContent tokens ([name.token] ++ rest) :=
    fun _ _ _ _ readsParameter => ⟨trivial, Nat.one_pos, (nameRule_sound readsParameter).2⟩
  obtain ⟨_, counted, writtenParameters⟩ := list_sound item (by omega) (by omega) readsParameters
  have shorterParameters := writtenParameters.length_eq
  rw [List.length_append, closed.length_eq, brace.length_eq] at shorterParameters
  obtain ⟨normal, shorterBody, written⟩ := blockRule_sound sound (by omega) readsBody
  refine ⟨⟨counted, normal⟩, by simp [Statement.endsOpen], by omega, fun none => ?_⟩
  have noneName : NoThreeClauses afterName :=
    none.rest (show SameContent tokens ([name.token] ++ afterName) from writtenName)
  have noneOpened := (noneName.behind opening).rest writtenParameters
  have noneBehind := (noneOpened.behind closed).behind brace
  refine SameContent.cons rfl (writtenName.trans (SameContent.cons rfl ?_))
  refine opening.sameContent (by decide) (writtenParameters.trans ?_)
  simp only [List.append_eq, List.append_assoc, List.cons_append, List.nil_append]
  refine (SameContent.refl _).append (closed.sameContent (by decide) ?_)
  exact brace.sameContent (by decide) (written noneBehind)

end Rules

/-! ## The nesting of statements -/

theorem statementRule_sound {limit : Nat} {tokens rest : List Token} {value : Statement Unit}
    (soundStatement : SoundStatement limit (statement limit))
    (soundDeclaration : SoundDeclaration limit (declaration limit))
    (short : tokens.length ≤ limit + 1) (reads : (statement (limit + 1)).Reads tokens value rest) :
    value.isDeclaration = false ∧ Accepted [] value tokens rest := by
  have sound := (unary_and_expression_sound (limit + 1)).2
  have soundNested : SoundExpression 0 limit (expression (limit + 1)) :=
    fun _ _ _ short => sound _ _ _ (Nat.le_succ_of_le short)
  cases reads_statement_iff.mp reads with
  | threeClauses behind word rule =>
      have shorter := word.length_eq
      obtain ⟨plain, normal, closed, shorterRest⟩ :=
        forRule_sound soundNested soundStatement (by omega) rule
      refine ⟨plain, normal, closed, by omega, fun none => ?_⟩
      obtain ⟨token, rfl, isFor⟩ := word
      exact absurd isFor (none token List.mem_cons_self)
  | conditional behind word rule =>
      have shorter := word.length_eq
      obtain ⟨plain, accepted⟩ := conditionalRule_sound soundNested soundStatement (by omega) rule
      exact ⟨plain, accepted.behind word (by decide)⟩
  | print behind word rule =>
      have shorter := word.length_eq
      obtain ⟨plain, accepted⟩ := printRule_sound soundNested (by omega) rule
      exact ⟨plain, accepted.behind word (by decide)⟩
  | returning token behind split isReturn rule =>
      subst split
      obtain ⟨plain, accepted⟩ := returnRule_sound soundNested (by simpa using short) rule
      have shorter := accepted.shorter
      refine ⟨plain, accepted.normal, accepted.closed, by rw [List.length_cons]; omega, fun none => ?_⟩
      refine Eq.trans ?_ (accepted.written none.tail)
      exact SameContent.cons (content_eq_of_kind isReturn (by rw [isReturn]; decide))
        (SameContent.refl behind)
  | loop behind word rule =>
      have shorter := word.length_eq
      obtain ⟨plain, accepted⟩ := whileRule_sound soundNested soundStatement (by omega) rule
      exact ⟨plain, accepted.behind word (by decide)⟩
  | block behind items brace rule built =>
      subst built
      have shorter := brace.length_eq
      obtain ⟨normal, shorterRest, written⟩ := blockRule_sound soundDeclaration (by omega) rule
      refine ⟨rfl, normal, by simp [Statement.endsOpen], by omega, fun none => ?_⟩
      refine brace.sameContent (by decide) ((written (none.behind brace)).trans ?_)
      simp only [List.append_eq, List.append_assoc, List.cons_append, List.nil_append]
  | expression other rule => exact expressionStatementRule_sound sound short rule

/-- What is read as a statement or a declaration is normal, and its tokens write it. -/
theorem statement_and_declaration_sound (bound : Nat) :
    SoundStatement bound (statement bound) ∧ SoundDeclaration bound (declaration bound) := by
  induction bound with
  | zero =>
      refine ⟨fun _ _ _ _ reads => absurd reads not_reads_fail, fun tokens result rest _ reads => ?_⟩
      obtain ⟨value, _, stuck⟩ := (reads_recovering_iff (regular_fail _)).mp reads
      exact absurd stuck not_reads_fail
  | succ bound inductionHypothesis =>
      obtain ⟨soundStatement, soundDeclaration⟩ := inductionHypothesis
      have statements : SoundStatement (bound + 1) (statement (bound + 1)) :=
        fun _ _ _ short reads => statementRule_sound soundStatement soundDeclaration short reads
      refine ⟨statements, fun tokens result rest short reads => ?_⟩
      have sound := (unary_and_expression_sound (bound + 1)).2
      obtain ⟨value, rfl, ⟨behind, word, rule⟩ | ⟨behind, word, rule⟩ | ⟨_, _, plain⟩⟩ :=
        reads_declaration_iff.mp reads
      · have shorter := word.length_eq
        have accepted := functionRule_sound soundDeclaration (by omega) (by omega) rule
        exact ⟨value, rfl, accepted.behind word (by decide)⟩
      · have shorter := word.length_eq
        have accepted := variableRule_sound sound (by omega) rule
        exact ⟨value, rfl, accepted.behind word (by decide)⟩
      · exact ⟨value, rfl, (statements _ _ _ short plain).2⟩

/-! ## Programs -/

/-- Repetition that is given enough steps goes on until the tokens say stop. -/
theorem many_stops {item : Parser (Option (Statement Unit))} {stop : List Token → Bool}
    {limit : Nat} (sound : SoundDeclaration limit item) (stopsAtNil : stop [] = true) {bound : Nat}
    {tokens rest : List Token} {items : List (Statement Unit)} (short : tokens.length ≤ limit)
    (enough : tokens.length ≤ bound) (reads : (many item stop bound).Reads tokens items rest) :
    stop rest = true := by
  induction bound generalizing tokens items with
  | zero =>
      obtain ⟨rfl, rfl⟩ := reads_pure_iff.mp reads
      rwa [List.eq_nil_of_length_eq_zero (by omega : rest.length = 0)]
  | succ bound inductionHypothesis =>
      rcases reads_many_iff.mp reads with ⟨stops, _, rfl⟩ | ⟨_, first, between, later, one, following, _⟩
      · exact stops
      · obtain ⟨value, _, accepted⟩ := sound _ _ _ short one
        have shorter := accepted.shorter
        exact inductionHypothesis (by omega) (by omega) following

/-- What has been read without a mistake is normal. -/
theorem read_normal {tokens : List Token} (noMistake : (read tokens).errors = []) :
    Statement.listNormal (read tokens).statements := by
  obtain ⟨rest, reads⟩ := read_eq_iff.mp (show read tokens = ⟨(read tokens).statements, []⟩ by
    rw [← noMistake])
  exact (many_sound (statement_and_declaration_sound _).2 (Nat.le_refl _) reads).1

/-- Two token lists with the same contents, each cut where its tokens end, are cut at one place. -/
theorem sameContent_of_ends {body written rest : List Token} {last : Token}
    (innerBody : Inner body) (innerWritten : Inner written) (isLast : last.kind = .endOfInput)
    (ends : atEnd rest = true) (same : SameContent (body ++ [last]) (written ++ rest)) :
    SameContent body written := by
  have kindOf {tokens : List Token} (inner : Inner tokens) {content : Token.Kind × String}
      (member : content ∈ tokens.map Token.content) : content.1 ≠ .endOfInput := by
    obtain ⟨token, member', rfl⟩ := List.mem_map.mp member
    exact inner token member'
  unfold SameContent at same ⊢
  rw [List.map_append, List.map_append, List.map_singleton] at same
  rcases List.append_eq_append_iff.mp same with ⟨more, writtenSplit, restSplit⟩ |
    ⟨more, bodySplit, restSplit⟩
  · cases more with
    | nil => simpa using writtenSplit.symm
    | cons content others =>
        have member : content ∈ written.map Token.content := by simp [writtenSplit]
        obtain ⟨isLast', _⟩ := List.cons.inj restSplit
        exact absurd (by rw [← isLast']; exact isLast) (kindOf innerWritten member)
  · cases more with
    | nil => simpa using bodySplit
    | cons content others =>
        have member : content ∈ body.map Token.content := by simp [bodySplit]
        refine absurd ?_ (kindOf innerBody member)
        cases rest with
        | nil => simp at restSplit
        | cons token behind =>
            obtain ⟨isContent, _⟩ := List.cons.inj restSplit
            rw [← isContent]
            simpa [atEnd, currentToken, Token.content] using ends

/-- What has been read without a mistake, and without a loop of three clauses, writes what it was
read from. -/
theorem read_written {body : List Token} {last : Token} (inner : Inner body)
    (isLast : last.kind = .endOfInput) (none : NoThreeClauses body)
    (noMistake : (read (body ++ [last])).errors = []) :
    SameContent body (Statement.listTokens (read (body ++ [last])).statements) := by
  obtain ⟨rest, reads⟩ := read_eq_iff.mp (show read (body ++ [last]) = ⟨_, []⟩ by rw [← noMistake])
  have sound := (statement_and_declaration_sound (body ++ [last]).length).2
  have ends := many_stops sound rfl (Nat.le_refl _) (Nat.le_refl _) reads
  have noneBehind : NoThreeClauses (body ++ [last]) := by
    intro token member
    rcases List.mem_append.mp member with inBody | atLast
    · exact none token inBody
    · rw [List.mem_singleton.mp atLast, isLast]
      decide
  exact sameContent_of_ends inner (Statement.inner_listTokens _) isLast ends
    ((many_sound sound (Nat.le_refl _) reads).2.2 noneBehind)

end LoxInterpreter.Grammar
