import LoxInterpreter.Proofs.Grammar.Merging
import LoxInterpreter.Proofs.Grammar.Parentheses

/-!
Contract: where reading goes on behind a statement that lacks its semicolon.

The resumption skips the token at which the mistake was noted. Where that token begins a statement that
holds no other, it is skipped with all of the statement, and reading goes on behind it. Where it opens or
closes what statements stand in, less is skipped than it belongs to.

Owns: `nestingMarks`, `Resumes`, and what an expression is read to in front of what resumes.
Does not own: that the statements around are read on (`Proofs.Grammar.Recovery`).
-/

namespace LoxInterpreter.Grammar

open Token LoxInterpreter.Grammar.Parser

/-- The kinds of token that open or close what statements stand in. -/
def nestingMarks : List Token.Kind :=
  [.leftBrace, .rightBrace, .keyword .elseWord, .keyword .forWord, .keyword .funWord, .keyword .ifWord,
    .keyword .whileWord]

/-! ## Boundaries -/

/-- What stands inside an expression is no boundary. -/
theorem no_boundary_of_inside {token : Token} (inside : token.kind.isInside = true) :
    token.kind ≠ .semicolon ∧ token.kind ≠ .endOfInput ∧ startsStatement token = false := by
  refine ⟨fun same => ?_, fun same => ?_, ?_⟩
  · simp [same, Kind.isInside] at inside
  · simp [same, Kind.isInside] at inside
  · unfold startsStatement
    split
    · rename_i word isWord
      simpa [isWord, Kind.isInside] using inside
    · rfl

/-- No boundary is inside an expression, and the next one is behind its semicolon. -/
theorem boundaryAfter_inside {inner later : List Token} {previous closing : Token}
    (noSemicolon : previous.kind ≠ .semicolon) (inside : ∀ token ∈ inner, token.kind.isInside = true)
    (closes : closing.kind = .semicolon) :
    boundaryAfter previous (inner ++ closing :: later) = later := by
  induction inner generalizing previous with
  | nil =>
      have noStart : startsStatement closing = false := by rw [startsStatement, closes]
      have goesOn : boundaryAfter previous (closing :: later) = boundaryAfter closing later := by
        simp [boundaryAfter, atEnd, currentToken, noStart, closes, noSemicolon]
      rw [List.nil_append, goesOn]
      cases later <;> simp [boundaryAfter, closes]
  | cons token inner inductionHypothesis =>
      obtain ⟨isInside, insideInner⟩ := List.forall_mem_cons.mp inside
      obtain ⟨noMark, noEnd, noStart⟩ := no_boundary_of_inside isInside
      have goesOn : boundaryAfter previous (token :: (inner ++ closing :: later)) =
          boundaryAfter token (inner ++ closing :: later) := by
        simp [boundaryAfter, atEnd, currentToken, noEnd, noSemicolon, noStart]
      rw [List.cons_append, goesOn]
      exact inductionHypothesis noMark insideInner

/-- The resumption skips a token with what stands inside up to a semicolon. -/
theorem resumption_statement {first closing : Token} {inner later : List Token}
    (noEnd : first.kind ≠ .endOfInput) (noSemicolon : first.kind ≠ .semicolon)
    (inside : ∀ token ∈ inner, token.kind.isInside = true) (closes : closing.kind = .semicolon) :
    resumption (first :: (inner ++ closing :: later)) = later := by
  have goesOn : atEnd (first :: (inner ++ closing :: later)) = false := by
    simp [atEnd, currentToken, noEnd]
  rw [resumption, goesOn]
  exact boundaryAfter_inside noSemicolon inside closes

theorem resumption_end {tokens : List Token} (ends : atEnd tokens = true) : resumption tokens = tokens := by
  cases tokens with
  | nil => rfl
  | cons token rest => rw [resumption, ends, if_pos rfl]

/-! ## What ends an expression -/

/-- What begins a declaration that is no expression, and the closing token, end an expression. -/
theorem endsExpression_of_declarationMark {kind : Token.Kind}
    (member : kind ∈ .endOfInput :: declarationMarks) : EndsExpression kind := by
  refine ⟨⟨?_, fun level _ hasKind => ?_⟩, ?_⟩
  · rintro rfl
    revert member
    decide
  · rcases hasKind with ⟨operator, _, rfl⟩ | ⟨operator, _, rfl⟩ <;> cases operator <;> revert member <;>
      decide
  · rintro rfl
    revert member
    decide

/-- What begins an expression ends one, unless it calls or subtracts. -/
theorem endsExpression_of_start {kind : Token.Kind} (starts : startsExpression kind = true)
    (apart : kind ∉ [.leftParen, .minus]) : EndsExpression kind := by
  simp only [List.mem_cons, List.not_mem_nil, or_false, not_or] at apart
  refine ⟨⟨apart.1, fun level _ hasKind => ?_⟩, ?_⟩
  · rcases hasKind with ⟨operator, _, rfl⟩ | ⟨operator, _, rfl⟩ <;> cases operator <;>
      first
      | exact absurd starts (by decide)
      | exact absurd rfl apart.2
  · rintro rfl
    exact absurd starts (by decide)

/-! ## Where no expression is -/

section Failing

variable {α β : Type} {tokens : List Token}

/-- Whether a parser gives up at the first of some tokens, where it expects an expression. -/
def Parser.Misses (parser : Parser α) (tokens : List Token) : Prop :=
  parser tokens = ⟨none, [⟨.missingExpression, currentToken tokens⟩], tokens⟩

theorem Parser.Misses.bind {parser : Parser α} (misses : parser.Misses tokens) (next : α → Parser β) :
    (parser >>= next).Misses tokens := by
  have gaveUp : (parser tokens).value = none := by rw [show parser tokens = _ from misses]
  unfold Misses
  rw [bind_of_none gaveUp, show parser tokens = _ from misses]

end Failing

/-- What denotes an expression, or operates on one, begins an expression. -/
theorem startsExpression_of_atom? {token : Token} {value : Expression Unit}
    (atom : atom? token = some value) : startsExpression token.kind = true := by
  obtain ⟨normal, _, written⟩ := atom?_sound atom
  have starts := (front_expression value normal []).1
  rwa [List.append_nil, ← front_eq_of_sameContent written] at starts

theorem startsExpression_of_unaryOperator? {token : Token} {operator : UnaryOperator × Nat}
    (isOperator : unaryOperator? token = some operator) : startsExpression token.kind = true := by
  obtain ⟨operator, line⟩ := operator
  rw [(unaryOperator?_eq_some_iff.mp isOperator).1]
  cases operator <;> rfl

/-- Where a token at the front begins no expression, a choice among tokens that do takes nothing. -/
theorem reads_take?_none {α : Type} {choose : Token → Option α} {tokens : List Token}
    (apart : startsExpression (front tokens) = false)
    (starts : ∀ {token value}, choose token = some value → startsExpression token.kind = true) :
    (take? choose).Reads tokens none tokens := by
  refine reads_take?_none_iff.mpr ⟨rfl, fun token others split _ => ?_⟩
  subst split
  cases chosen : choose token with
  | none => rfl
  | some value => exact absurd ((starts chosen).symm.trans apart) Bool.false_ne_true.symm

/-- In front of a token that begins no expression none is read, and nothing is taken. -/
theorem expression_misses {tokens : List Token} (apart : startsExpression (front tokens) = false)
    (bound : Nat) : (expression bound).Misses tokens := by
  cases bound with
  | zero => rfl
  | succ bound =>
      have noParenthesis : (accept .leftParen).Reads tokens false tokens := by
        refine (reads_accept_false_iff (by decide)).mpr ⟨rfl, fun same => ?_⟩
        rw [same] at apart
        exact absurd apart (by decide)
      have noAtom := reads_take?_none apart startsExpression_of_atom?
      have noOperator := reads_take?_none apart startsExpression_of_unaryOperator?
      have primary : (primaryRule (expression bound)).Misses tokens := by
        unfold primaryRule Misses
        rw [noAtom.bind_eq]
        exact noParenthesis.bind_eq _
      have operand : (unaryRule (unary bound) (expression bound) (bound + 1)).Misses tokens := by
        unfold unaryRule Misses
        rw [noOperator.bind_eq]
        exact primary.bind _
      have operands (levels : List Level) :
          (operatorsRule (unaryRule (unary bound) (expression bound) (bound + 1)) (bound + 1)
            levels).Misses tokens := by
        induction levels with
        | nil => exact operand
        | cons level tighter inductionHypothesis => exact inductionHypothesis.bind _
      exact (operands Level.all).bind _

/-! ## What follows a missing semicolon -/

/-- What the tokens in front of some others may be where a semicolon is missing before them: they begin no
expression, or are one with its semicolon. -/
inductive Following (rest tokens : List Token) : Prop
  | apart (begins : startsExpression (front tokens) = false) (ends : EndsExpression (front tokens))
  | expression (value : Expression Unit) (spelled : List Token) (closing : Token) (normal : value.Normal)
      (same : SameContent value.tokens spelled) (split : tokens = spelled ++ closing :: rest)
      (closes : closing.kind = .semicolon)

/-- Whether reading can go on where a semicolon is missing in front of some tokens. -/
structure Resumes (behind : List Token) : Prop where
  goesOn : behind ≠ []
  noSemicolon : front behind ≠ .semicolon
  noElse : front (resumption behind) ≠ .keyword .elseWord
  following : Following (resumption behind) behind

theorem startsExpression_of_declarationMark {kind : Token.Kind} (member : kind ∈ declarationMarks) :
    startsExpression kind = false := by
  revert kind
  decide

/-- A word that begins a statement, and what stands inside up to its semicolon, is skipped as a whole. -/
theorem skipped_of_word {kind : Token.Kind} {tokens inner later : List Token} {closing : Token}
    (member : kind ∈ declarationMarks) (takes : Takes kind tokens (inner ++ closing :: later))
    (inside : ∀ token ∈ inner, token.kind.isInside = true) (closes : closing.kind = .semicolon) :
    resumption tokens = later ∧ Following later tokens := by
  obtain ⟨token, rfl, rfl⟩ := takes
  have noMark : ∀ kind ∈ declarationMarks, kind ≠ .endOfInput ∧ kind ≠ .semicolon := by decide
  have ⟨noEnd, noSemicolon⟩ := noMark _ member
  exact ⟨resumption_statement noEnd noSemicolon inside closes,
    .apart (startsExpression_of_declarationMark member)
      (endsExpression_of_declarationMark (List.mem_cons_of_mem _ member))⟩

/-- So is an expression with its semicolon. -/
theorem skipped_of_expression {value : Expression Unit} {spelled later : List Token} {closing : Token}
    (normal : value.Normal) (same : SameContent value.tokens spelled) (closes : closing.kind = .semicolon) :
    resumption (spelled ++ closing :: later) = later ∧ Following later (spelled ++ closing :: later) := by
  refine ⟨?_, .expression value spelled closing normal same rfl closes⟩
  have inside := (value.flat_tokens.of_sameContent same).inside
  have positive := value.tokens_length_pos
  rw [same.length_eq] at positive
  obtain ⟨first, inner, rfl⟩ := List.exists_cons_of_length_pos positive
  obtain ⟨insideFirst, insideInner⟩ := List.forall_mem_cons.mp inside
  have ⟨noMark, noEnd, _⟩ := no_boundary_of_inside insideFirst
  exact resumption_statement noEnd noMark insideInner closes

theorem skipped_of_variable {bound : Nat} {tokens behind rest : List Token} {value : Statement Unit}
    (short : tokens.length ≤ bound) (word : Takes (.keyword .varWord) tokens behind)
    (reads : (variableRule (expression bound)).Reads behind value rest) :
    resumption tokens = rest ∧ Following rest tokens := by
  obtain ⟨_, afterName, readsName, declared⟩ := reads_variableRule_iff.mp reads
  obtain ⟨name, rfl, isName, _⟩ := reads_nameRule_iff.mp readsName
  have insideName : name.kind.isInside = true := by rw [isName]; rfl
  rcases declared with ⟨⟨closing, rfl, closes⟩, _⟩ |
    ⟨others, _, _, ⟨equals, rfl, isEquals⟩, readsValue, ⟨closing, rfl, closes⟩, _⟩
  · have bare : Takes (.keyword .varWord) tokens ([name] ++ closing :: rest) := word
    exact skipped_of_word (by decide) bare (by simpa using insideName) closes
  · have shorter := word.length_eq
    rw [List.length_cons, List.length_cons] at shorter
    obtain ⟨spelled, rfl, flat⟩ := flat_of_expression (show others.length ≤ bound by omega) readsValue
    have split : Takes (.keyword .varWord) tokens (name :: equals :: spelled ++ closing :: rest) := word
    have insideEquals : equals.kind.isInside = true := by rw [isEquals]; rfl
    exact skipped_of_word (by decide) split
      (List.forall_mem_cons.mpr ⟨insideName, List.forall_mem_cons.mpr ⟨insideEquals, flat.inside⟩⟩) closes

theorem skipped_of_statement {bound : Nat} {tokens rest : List Token} {value : Statement Unit}
    (short : tokens.length ≤ bound + 1) (noNesting : front tokens ∉ nestingMarks)
    (reads : (statement (bound + 1)).Reads tokens value rest) :
    resumption tokens = rest ∧ Following rest tokens := by
  have nests {kind : Token.Kind} {behind : List Token} (takes : Takes kind tokens behind)
      (member : kind ∈ nestingMarks) : False := noNesting (takes.front_eq ▸ member)
  cases reads_statement_iff.mp reads with
  | threeClauses behind word _ => exact (nests word (by decide)).elim
  | conditional behind word _ => exact (nests word (by decide)).elim
  | loop behind word _ => exact (nests word (by decide)).elim
  | block behind items brace _ _ => exact (nests brace (by decide)).elim
  | print behind word rule =>
      have shorter := word.length_eq
      obtain ⟨_, _, readsValue, ⟨closing, rfl, closes⟩, _⟩ := reads_printRule_iff.mp rule
      obtain ⟨spelled, rfl, flat⟩ := flat_of_expression (by omega) readsValue
      exact skipped_of_word (by decide) word flat.inside closes
  | returning token behind split isReturn rule =>
      have word : Takes (.keyword .returnWord) tokens behind := ⟨token, split, isReturn⟩
      have shorter := word.length_eq
      obtain ⟨_, _, readsResult, ⟨closing, rfl, closes⟩, _⟩ := reads_returnRule_iff.mp rule
      rcases reads_optionalBefore_iff.mp readsResult with ⟨_, _, rfl⟩ | ⟨_, _, readsValue, _⟩
      · have bare : Takes (.keyword .returnWord) tokens ([] ++ closing :: rest) := word
        exact skipped_of_word (by decide) bare (List.forall_mem_nil _) closes
      · obtain ⟨spelled, rfl, flat⟩ := flat_of_expression (by omega) readsValue
        exact skipped_of_word (by decide) word flat.inside closes
  | expression _ rule =>
      obtain ⟨_, _, readsValue, ⟨closing, rfl, closes⟩, _⟩ := reads_expressionStatementRule_iff.mp rule
      obtain ⟨spelled, rfl, same, normal⟩ := spelled_of_expression short readsValue
      exact skipped_of_expression normal same closes

/-- A statement that holds no other is skipped as a whole. -/
theorem skipped_of_declaration {bound : Nat} {tokens rest : List Token} {value : Statement Unit}
    (short : tokens.length ≤ bound) (noNesting : front tokens ∉ nestingMarks)
    (reads : (declaration bound).Reads tokens (some value) rest) :
    resumption tokens = rest ∧ Following rest tokens := by
  cases bound with
  | zero => exact absurd reads not_reads_declaration_zero
  | succ bound =>
      obtain ⟨_, _, ⟨behind, word, _⟩ | ⟨behind, word, rule⟩ | ⟨_, _, rule⟩⟩ :=
        reads_declaration_iff.mp reads
      · exact absurd (word.front_eq ▸ by decide) noNesting
      · exact skipped_of_variable short word rule
      · exact skipped_of_statement short noNesting rule

/-- An expression in front of what resumes is read to there, or on to the next semicolon. -/
theorem expression_onward {value : Expression Unit} {spelled behind : List Token} {bound : Nat}
    (normal : value.Normal) (same : SameContent value.tokens spelled)
    (enough : (spelled ++ behind).length ≤ bound) (resumes : Resumes behind) :
    ∃ value' rest, (expression bound).Reads (spelled ++ behind) value' rest ∧
      (rest = behind ∨ Takes .semicolon rest (resumption behind)) := by
  rw [List.length_append] at enough
  by_cases ends : EndsExpression (front behind)
  · have short : spelled.length ≤ bound := by omega
    obtain ⟨value', reads, _⟩ := expression_spelled normal same short resumes.goesOn ends
    exact ⟨value', behind, reads, .inl rfl⟩
  · cases resumes.following with
    | apart _ ends' => exact absurd ends' ends
    | expression second spelledSecond closing normalSecond sameSecond split closes =>
        have front_eq : front behind = front (second.tokens ++ closing :: resumption behind) :=
          (congrArg front split).trans
            (front_eq_of_sameContent (sameSecond.append (SameContent.refl _))).symm
        have starts := (front_expression second normalSecond (closing :: resumption behind)).1
        have joins : front (second.tokens ++ closing :: resumption behind) ∈ [.leftParen, .minus] := by
          refine Decidable.byContradiction fun apart => ends ?_
          exact front_eq ▸ endsExpression_of_start starts apart
        obtain ⟨joined, normalJoined, written⟩ := exists_merged normal second normalSecond _ joins
        have sameJoined : SameContent joined.tokens (spelled ++ spelledSecond) := by
          rw [written]
          exact same.append sameSecond
        have length := congrArg List.length split
        rw [List.length_append, List.length_cons] at length
        obtain ⟨value', reads, _⟩ : ∃ value', (expression bound).Reads
            (spelled ++ spelledSecond ++ closing :: resumption behind) value'
            (closing :: resumption behind) ∧ value'.withoutLines = joined.withoutLines :=
          expression_spelled normalJoined sameJoined (by rw [List.length_append]; omega)
            (List.cons_ne_nil _ _) (by rw [front_cons, closes]; exact endsExpression_of_mark semicolon_mem)
        rw [List.append_assoc, ← split] at reads
        exact ⟨value', _, reads, .inr ⟨closing, rfl, closes⟩⟩

/-- Where an expression begins, it is read up to its semicolon. -/
theorem Resumes.reads_expression {behind : List Token} {bound : Nat} (resumes : Resumes behind)
    (starts : startsExpression (front behind) = true) (enough : behind.length ≤ bound) :
    ∃ value rest, (expression bound).Reads behind value rest ∧ Takes .semicolon rest (resumption behind) := by
  cases resumes.following with
  | apart begins _ => exact absurd (begins.symm.trans starts) Bool.false_ne_true
  | expression value spelled closing normal same split closes =>
      have length := congrArg List.length split
      rw [List.length_append] at length
      have short : spelled.length ≤ bound := by omega
      have ends : EndsExpression (front (closing :: resumption behind)) := by
        rw [front_cons, closes]
        exact endsExpression_of_mark semicolon_mem
      obtain ⟨value', reads, _⟩ := expression_spelled normal same short (List.cons_ne_nil _ _) ends
      rw [← split] at reads
      exact ⟨value', _, reads, closing, rfl, closes⟩

/-- What is read as an expression begins with nothing else. -/
theorem front_ne_of_expression {tokens rest : List Token} {value : Expression Unit} {bound : Nat}
    (short : tokens.length ≤ bound) (reads : (expression bound).Reads tokens value rest) {mark : Token.Kind}
    (noExpression : startsExpression mark = false) : front tokens ≠ mark := by
  obtain ⟨normal, _, written⟩ := (unary_and_expression_sound bound).2 _ _ _ short reads
  rw [front_eq_of_sameContent written]
  exact front_expression_ne normal noExpression rest

theorem Resumes.noEqual {behind : List Token} (resumes : Resumes behind) : front behind ≠ .equal := by
  cases resumes.following with
  | apart _ ends => exact ends.2
  | expression value spelled closing normal same split closes =>
      rw [split, ← front_eq_of_sameContent (same.append (SameContent.refl _))]
      exact front_expression_ne normal rfl _

/-! ## Statements one after another -/

/-- Where the items of a block or a program stop. -/
structure StopsOutside (stop : List Token → Bool) : Prop where
  sameStop : ∀ tokens tokens', front tokens = front tokens' → stop tokens = stop tokens'
  front_mem : ∀ tokens, stop tokens = true → front tokens ∈ [.rightBrace, .endOfInput]

theorem stopsOutside_atBlockEnd : StopsOutside atBlockEnd where
  sameStop _ _ := atBlockEnd_eq
  front_mem tokens stops := by simpa [atBlockEnd, atEnd, front] using stops

theorem stopsOutside_atEnd : StopsOutside atEnd where
  sameStop _ _ := atEnd_eq
  front_mem tokens stops := by
    have ends : front tokens = .endOfInput := by simpa [atEnd, front] using stops
    simp [ends]

/-- Items that are read until the tokens say stop are read with more rounds as well. -/
theorem reads_many_more {α : Type} {item : Parser (Option α)} {stop : List Token → Bool} {bound : Nat}
    {tokens rest : List Token} {items : List α} (ends : stop rest = true)
    (reads : (many item stop bound).Reads tokens items rest) :
    (many item stop (bound + 1)).Reads tokens items rest := by
  induction bound generalizing tokens items with
  | zero =>
      obtain ⟨rfl, rfl⟩ := reads_pure_iff.mp reads
      exact reads_many_iff.mpr (.inl ⟨ends, rfl, rfl⟩)
  | succ bound inductionHypothesis =>
      rcases reads_many_iff.mp reads with stopped | ⟨goesOn, first, between, later, one, following, same⟩
      · exact reads_many_iff.mpr (.inl stopped)
      · exact reads_many_iff.mpr (.inr
          ⟨goesOn, first, between, later, one, inductionHypothesis following, same⟩)

section Items

variable {bound rounds : Nat} {stop : List Token → Bool} {tokens rest : List Token}
  {items : List (Statement Unit)}

/-- Items begin as they do, or with what stops them. -/
theorem front_of_many (outside : StopsOutside stop) (ends : stop rest = true)
    (short : tokens.length ≤ bound) (reads : (many (declaration bound) stop rounds).Reads tokens items rest) :
    front tokens ∈ [.rightBrace, .endOfInput] ++ declarationMarks ∨
      startsExpression (front tokens) = true := by
  have stopped (stops : stop tokens = true) :
      front tokens ∈ [.rightBrace, .endOfInput] ++ declarationMarks :=
    List.mem_append_left _ (outside.front_mem tokens stops)
  cases rounds with
  | zero =>
      obtain ⟨_, rfl⟩ := reads_pure_iff.mp reads
      exact .inl (stopped ends)
  | succ rounds =>
      rcases reads_many_iff.mp reads with ⟨stops, _, _⟩ | ⟨_, first, between, later, one, _, _⟩
      · exact .inl (stopped stops)
      · obtain ⟨value, rfl, _⟩ := (statement_and_declaration_sound bound).2 _ _ _ short one
        exact (front_of_declaration short one).imp_left (List.mem_append_right _)

/-- Items do not begin with a mark that begins no statement. -/
theorem front_ne_of_many (outside : StopsOutside stop) (ends : stop rest = true)
    (short : tokens.length ≤ bound) (reads : (many (declaration bound) stop rounds).Reads tokens items rest)
    {mark : Token.Kind} (noItem : mark ∉ [.rightBrace, .endOfInput] ++ declarationMarks)
    (noExpression : startsExpression mark = false) : front tokens ≠ mark := by
  rintro rfl
  rcases front_of_many outside ends short reads with member | starts
  · exact noItem member
  · exact Bool.false_ne_true (noExpression.symm.trans starts)

theorem noSemicolon_of_many (outside : StopsOutside stop) (ends : stop rest = true)
    (short : tokens.length ≤ bound) (reads : (many (declaration bound) stop rounds).Reads tokens items rest) :
    front tokens ≠ .semicolon :=
  front_ne_of_many outside ends short reads (by decide) rfl

/-- What follows a missing semicolon resumes, and what remains is read from the resumption as from there,
unless a nesting is opened or closed there. -/
theorem resumes_of_many (outside : StopsOutside stop) (ends : stop rest = true) (goesOn : tokens ≠ [])
    (short : tokens.length ≤ bound) (noNesting : front tokens ∉ nestingMarks)
    (reads : (many (declaration bound) stop rounds).Reads tokens items rest) :
    Resumes tokens ∧ ∃ items', (many (declaration bound) stop rounds).Reads (resumption tokens) items' rest := by
  have noSemicolon := noSemicolon_of_many outside ends short reads
  have stopped (stops : stop tokens = true) (unmoved : rest = tokens) : Resumes tokens ∧
      ∃ items', (many (declaration bound) stop rounds).Reads (resumption tokens) items' rest := by
    have closes : front tokens = .endOfInput := by
      have member := outside.front_mem tokens stops
      simp only [List.mem_cons, List.not_mem_nil, or_false] at member
      exact member.resolve_left fun same => noNesting (by rw [same]; decide)
    have unskipped : resumption tokens = tokens := resumption_end (by simpa [atEnd, front] using closes)
    refine ⟨⟨goesOn, noSemicolon, by rw [unskipped, closes]; decide, .apart ?_ ?_⟩, [], ?_⟩
    · rw [closes]
      rfl
    · rw [closes]
      exact endsExpression_of_declarationMark List.mem_cons_self
    · rw [unskipped, unmoved]
      exact Seam.reads_many_stopped stops rounds
  cases rounds with
  | zero =>
      obtain ⟨_, rfl⟩ := reads_pure_iff.mp reads
      exact stopped ends rfl
  | succ rounds =>
      rcases reads_many_iff.mp reads with ⟨stops, _, unmoved⟩ | ⟨_, first, between, later, one, following, _⟩
      · exact stopped stops unmoved
      · obtain ⟨value, rfl, accepted⟩ := (statement_and_declaration_sound bound).2 _ _ _ short one
        obtain ⟨skipped, apart⟩ := skipped_of_declaration short noNesting one
        have shorter := Nat.le_trans (Nat.le_of_lt accepted.shorter) short
        have noElse : front between ≠ .keyword .elseWord :=
          front_ne_of_many outside ends shorter following (by decide) (by decide)
        rw [← skipped] at apart noElse following
        exact ⟨⟨goesOn, noSemicolon, noElse, apart⟩, later, reads_many_more ends following⟩

end Items

end LoxInterpreter.Grammar
