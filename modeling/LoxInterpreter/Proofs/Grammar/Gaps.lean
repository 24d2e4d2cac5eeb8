import LoxInterpreter.Proofs.Grammar.Resumption

/-!
Contract: two token lists, one of which lacks a semicolon of the other.

Up to the gap both lists are read alike. At the gap an expression ends as before, or goes on to the next
semicolon, and what was to take the semicolon gives up or takes that one.

Owns: the replies of parsers at tokens that are known, `Outcome`, and `Gap`.
Does not own: the rules that hold a gap (`Proofs.Grammar.Recovery`).
-/

namespace LoxInterpreter.Grammar

open Token LoxInterpreter.Grammar.Parser

/-! ## Evaluation -/

namespace Parser

variable {α β : Type} {kind : Token.Kind} {tokens rest : List Token}

theorem expectMark_bind_eq (notEnd : kind ≠ .endOfInput) (takes : Takes kind tokens rest) (site : Site)
    (next : Parser β) : (do let _ ← expectMark kind site; next) tokens = next rest := by
  obtain ⟨token, split, isKind⟩ := takes
  exact Reads.bind_eq ((reads_expect_iff notEnd).mpr ⟨split, isKind⟩) fun _ => next

theorem accept_bind_taken (notEnd : kind ≠ .endOfInput) (takes : Takes kind tokens rest)
    (next other : Parser β) : (do if ← accept kind then next else other) tokens = next rest :=
  ((reads_accept_true_iff notEnd).mpr takes).bind_eq _

theorem accept_bind_declined (notEnd : kind ≠ .endOfInput) (different : front tokens ≠ kind)
    (next other : Parser β) : (do if ← accept kind then next else other) tokens = other tokens :=
  ((reads_accept_false_iff notEnd).mpr ⟨rfl, different⟩).bind_eq _

/-- A mark that is not there is one mistake. -/
theorem expectMark_bind_missing (notEnd : kind ≠ .endOfInput) (different : front tokens ≠ kind)
    (site : Site) (next : Token → Parser β) :
    (expectMark kind site >>= next) tokens =
      ⟨none, [⟨.missingMark kind site, currentToken tokens⟩], tokens⟩ := by
  have missing : expectMark kind site tokens =
      ⟨none, [⟨.missingMark kind site, currentToken tokens⟩], tokens⟩ := by
    have declined : (accept? kind).Reads tokens none tokens :=
      (reads_accept?_none_iff notEnd).mpr ⟨rfl, different⟩
    unfold expectMark expect
    rw [declined.bind_eq]
    rfl
  have gaveUp : (expectMark kind site tokens).value = none := by rw [missing]
  rw [bind_of_none gaveUp, missing]

end Parser

/-! ## Choosing a rule -/

section Choosing

variable {nested : Parser (Expression Unit)} {inner : Parser (Statement Unit)}
  {declaration : Parser (Option (Statement Unit))} {bound : Nat} {tokens rest : List Token}

theorem statementRule_for (word : Takes (.keyword .forWord) tokens rest) :
    statementRule nested inner declaration bound tokens = forRule nested inner rest :=
  accept_bind_taken (by decide) word _ _

theorem statementRule_if (word : Takes (.keyword .ifWord) tokens rest) :
    statementRule nested inner declaration bound tokens = conditionalRule nested inner rest := by
  have isWord := word.front_eq
  unfold statementRule
  rw [accept_bind_declined (by decide) (by rw [isWord]; decide), accept_bind_taken (by decide) word]

theorem statementRule_print (word : Takes (.keyword .printWord) tokens rest) :
    statementRule nested inner declaration bound tokens = printRule nested rest := by
  have isWord := word.front_eq
  unfold statementRule
  rw [accept_bind_declined (by decide) (by rw [isWord]; decide),
    accept_bind_declined (by decide) (by rw [isWord]; decide), accept_bind_taken (by decide) word]

theorem statementRule_return {token : Token} (isReturn : token.kind = .keyword .returnWord) :
    statementRule nested inner declaration bound (token :: rest) = returnRule nested token.line rest := by
  have isWord : front (token :: rest) = .keyword .returnWord := isReturn
  have taken : (accept? (.keyword .returnWord)).Reads (token :: rest) (some token) rest :=
    (reads_accept?_some_iff (by decide)).mpr ⟨rfl, isReturn⟩
  unfold statementRule
  rw [accept_bind_declined (by decide) (by rw [isWord]; decide),
    accept_bind_declined (by decide) (by rw [isWord]; decide),
    accept_bind_declined (by decide) (by rw [isWord]; decide), taken.bind_eq]

/-- The questions that are asked where none of these words is at the front. -/
theorem statementRule_later (other : front tokens ∉ statementMarks.take 4) :
    statementRule nested inner declaration bound tokens =
      (do
        if ← accept (.keyword .whileWord) then whileRule nested inner
        else if ← accept .leftBrace then return .block (← blockRule declaration bound)
        else expressionStatementRule nested : Parser (Statement Unit)) tokens := by
  simp only [statementMarks, List.take_succ_cons, List.take_zero, List.mem_cons, List.not_mem_nil, or_false,
    not_or] at other
  obtain ⟨noFor, noIf, noPrint, noReturn⟩ := other
  have declined : (accept? (.keyword .returnWord)).Reads tokens none tokens :=
    (reads_accept?_none_iff (by decide)).mpr ⟨rfl, noReturn⟩
  unfold statementRule
  rw [accept_bind_declined (by decide) noFor, accept_bind_declined (by decide) noIf,
    accept_bind_declined (by decide) noPrint, declined.bind_eq]

theorem statementRule_while (word : Takes (.keyword .whileWord) tokens rest) :
    statementRule nested inner declaration bound tokens = whileRule nested inner rest := by
  rw [statementRule_later (by rw [word.front_eq]; decide)]
  exact accept_bind_taken (by decide) word _ _

theorem statementRule_block (brace : Takes .leftBrace tokens rest) :
    statementRule nested inner declaration bound tokens =
      (do return .block (← blockRule declaration bound) : Parser (Statement Unit)) rest := by
  have isBrace := brace.front_eq
  rw [statementRule_later (by rw [isBrace]; decide),
    accept_bind_declined (by decide) (by rw [isBrace]; decide)]
  exact accept_bind_taken (by decide) brace _ _

theorem statementRule_expression (other : front tokens ∉ statementMarks) :
    statementRule nested inner declaration bound tokens = expressionStatementRule nested tokens := by
  rw [statementRule_later fun member => other (List.mem_of_mem_take member),
    accept_bind_declined (by decide) fun same => other (by rw [same]; decide)]
  exact accept_bind_declined (by decide) (fun same => other (by rw [same]; decide)) _ _

end Choosing

/-! ## Outcomes -/

section Outcomes

variable {α β : Type} {behind between rest tokens : List Token}

/-- Whether a parser replies with something and at most one mistake, and leaves some tokens. -/
structure Passed (reply : Reply α) (rest : List Token) : Prop where
  replies : reply.value ≠ none
  single : reply.errors.length ≤ 1
  rest_eq : reply.rest = rest

/-- What becomes of a parser where the gap was in the tokens that it took. Where the gap was at their end,
the parser may have given up there, or gone on to the resumption. -/
inductive Outcome (behind : List Token) (reply : Reply α) (rest : List Token) : Prop
  | passed (passed : Passed reply rest)
  | resumed (ends : rest = behind) (passed : Passed reply (resumption behind))
  | stuck (ends : rest = behind) (gaveUp : reply.value = none) (single : reply.errors.length ≤ 1)
      (stays : reply.rest = behind)

theorem Parser.Reads.passed {parser : Parser α} {value : α} (reads : parser.Reads tokens value rest) :
    Passed (parser tokens) rest := by
  rw [show parser tokens = _ from reads]
  exact ⟨Option.some_ne_none _, Nat.zero_le _, rfl⟩

/-- What is read behind what has passed adds no mistake. -/
theorem Passed.bind {parser : Parser α} {next : α → Parser β} (passed : Passed (parser tokens) between)
    (onward : ∀ value, ∃ result, (next value).Reads between result rest) :
    Passed ((parser >>= next) tokens) rest := by
  obtain ⟨value, isValue⟩ := Option.ne_none_iff_exists'.mp passed.replies
  obtain ⟨result, reads⟩ := onward value
  rw [bind_of_value isValue, passed.rest_eq, show next value between = _ from reads, List.append_nil]
  exact ⟨Option.some_ne_none _, passed.single, rfl⟩

theorem Outcome.bind {parser : Parser α} {next : α → Parser β}
    (outcome : Outcome behind (parser tokens) between)
    (onward : ∀ value, ∃ result, (next value).Reads between result rest)
    (ends : between = behind → rest = behind)
    (resumed : between = behind →
      ∀ value, ∃ result, (next value).Reads (resumption behind) result (resumption behind)) :
    Outcome behind ((parser >>= next) tokens) rest := by
  cases outcome with
  | passed passed => exact .passed (passed.bind onward)
  | resumed ends' passed => exact .resumed (ends ends') (passed.bind (resumed ends'))
  | stuck ends' gaveUp single stays =>
      rw [bind_of_none gaveUp]
      exact .stuck (ends ends') rfl single stays

/-- What is built from a value leaves the same tokens. -/
theorem Outcome.map {parser : Parser α} (outcome : Outcome behind (parser tokens) rest) (build : α → β) :
    Outcome behind ((do return build (← parser) : Parser β) tokens) rest :=
  outcome.bind (fun _ => ⟨_, reads_pure_iff.mpr ⟨rfl, rfl⟩⟩) id
    fun _ _ => ⟨_, reads_pure_iff.mpr ⟨rfl, rfl⟩⟩

theorem Outcome.recovering {parser : Parser α} (outcome : Outcome behind (parser tokens) rest) :
    Outcome behind (parser.recovering tokens) rest := by
  have kept {rest : List Token} (passed : Passed (parser tokens) rest) :
      Passed (parser.recovering tokens) rest := by
    obtain ⟨value, isValue⟩ := Option.ne_none_iff_exists'.mp passed.replies
    rw [recovering_of_value isValue]
    exact ⟨Option.some_ne_none _, passed.single, passed.rest_eq⟩
  cases outcome with
  | passed passed => exact .passed (kept passed)
  | resumed ends passed => exact .resumed ends (kept passed)
  | stuck ends gaveUp single stays =>
      rw [recovering_of_none gaveUp, stays]
      exact .resumed ends ⟨Option.some_ne_none _, single, rfl⟩

end Outcomes

/-! ## Gaps -/

theorem Window.suffix {behind behind' tokens tokens' : List Token}
    (window : Window behind behind' tokens tokens') : behind <:+ tokens := by
  induction window with
  | «open» => exact List.suffix_refl _
  | cons _ _ inductionHypothesis => exact inductionHypothesis.trans (List.suffix_cons _ _)

/-- In front of what follows the window stand the same contents. -/
theorem Window.split {behind behind' spelled tokens' : List Token}
    (window : Window behind behind' (spelled ++ behind) tokens') :
    ∃ spelled', tokens' = spelled' ++ behind' ∧ SameContent spelled spelled' := by
  generalize isTokens : spelled ++ behind = tokens at window
  induction window generalizing spelled with
  | «open» =>
      obtain rfl : spelled = [] := List.append_left_eq_self.mp isTokens
      exact ⟨[], rfl, SameContent.refl _⟩
  | @cons token token' rest rest' same window inductionHypothesis =>
      cases spelled with
      | nil =>
          have length := window.suffix.length_le
          rw [List.nil_append] at isTokens
          rw [isTokens, List.length_cons] at length
          exact absurd length (Nat.not_succ_le_self _)
      | cons first spelled =>
          obtain ⟨rfl, isRest⟩ := List.cons.inj isTokens
          obtain ⟨spelled', rfl, sameSpelled⟩ := inductionHypothesis isRest
          exact ⟨token' :: spelled', rfl, SameContent.cons same sameSpelled⟩

theorem Window.takes_inside {behind behind' tokens tokens' rest : List Token} {kind : Token.Kind}
    (window : Window behind behind' tokens tokens') (takes : Takes kind tokens rest)
    (inside : behind.length < tokens.length) :
    ∃ rest', Takes kind tokens' rest' ∧ Window behind behind' rest rest' := by
  obtain ⟨token, rfl, isKind⟩ := takes
  obtain ⟨token', rest', rfl, same, windowRest⟩ := window.uncons inside
  have sameKind : token'.kind = token.kind := congrArg Prod.fst same
  exact ⟨rest', ⟨token', rfl, sameKind.trans isKind⟩, windowRest⟩

theorem Window.eq_behind {behind behind' tokens' : List Token}
    (window : Window behind behind' behind tokens') : behind' = tokens' := by
  obtain ⟨spelled', rfl, same⟩ : ∃ spelled', tokens' = spelled' ++ behind' ∧ SameContent [] spelled' :=
    Window.split window
  rw [List.length_eq_zero_iff.mp same.length_eq.symm, List.nil_append]

section Gaps

variable {mark : Token} {behind tokens tokens' rest : List Token} {kind : Token.Kind}

/-- Two token lists, the second of which lacks a mark of the first that stands in no parentheses. -/
structure Gap (mark : Token) (behind tokens tokens' : List Token) : Prop where
  window : Window (mark :: behind) behind tokens tokens'
  level : depth tokens = depth behind

theorem Gap.ahead (gap : Gap mark behind tokens tokens') (suffix : rest <:+ tokens)
    (further : behind.length < rest.length) : mark :: behind <:+ rest :=
  List.suffix_of_suffix_length_le gap.window.suffix suffix further

/-- Where a semicolon is the mark, nothing but the mark is lacking. -/
theorem at_gap {closing : List Token} (ahead : mark :: behind <:+ closing)
    (closed : Takes .semicolon closing rest) (past : rest.length ≤ behind.length) :
    closing = mark :: behind ∧ rest = behind := by
  have same : mark :: behind = closing :=
    ahead.eq_of_length_le (by rw [closed.length_eq]; exact Nat.succ_le_succ past)
  subst same
  obtain ⟨token, split, _⟩ := closed
  exact ⟨rfl, (List.cons.inj split).2.symm⟩

variable (isMark : mark.kind = .semicolon)

include isMark

/-- What stands inside an expression does not hold the mark. -/
theorem ahead_of_inside {spelled : List Token} (ahead : mark :: behind <:+ spelled ++ rest)
    (inside : ∀ token ∈ spelled, token.kind.isInside = true) : mark :: behind <:+ rest := by
  induction spelled with
  | nil => exact ahead
  | cons token spelled inductionHypothesis =>
      obtain ⟨insideToken, insideSpelled⟩ := List.forall_mem_cons.mp inside
      rcases List.suffix_cons_iff.mp ahead with same | behindToken
      · have isToken : mark = token := (List.cons.inj same).1
        exact absurd (isToken ▸ isMark) (no_boundary_of_inside insideToken).1
      · exact inductionHypothesis behindToken insideSpelled

theorem ahead_of_expression {bound : Nat} {value : Expression Unit} (short : tokens.length ≤ bound)
    (reads : (expression bound).Reads tokens value rest) (ahead : mark :: behind <:+ tokens) :
    mark :: behind <:+ rest := by
  obtain ⟨spelled, rfl, flat⟩ := flat_of_expression short reads
  exact ahead_of_inside isMark ahead flat.inside

/-- The mark is behind every token that is no semicolon, and behind every one in parentheses. -/
theorem ahead_of_takes (takes : Takes kind tokens rest)
    (other : kind ≠ .semicolon ∨ depth tokens ≠ depth behind) (ahead : mark :: behind <:+ tokens) :
    mark :: behind <:+ rest := by
  obtain ⟨token, rfl, isKind⟩ := takes
  rcases List.suffix_cons_iff.mp ahead with same | behindToken
  · obtain ⟨rfl, rfl⟩ := List.cons.inj same
    rcases other with noSemicolon | inside
    · exact absurd (isKind.symm.trans isMark) noSemicolon
    · rw [depth_cons, isMark] at inside
      exact absurd (Int.zero_add _) inside
  · exact behindToken

/-- In front of another token the mark is further ahead. -/
theorem length_lt_of_front (ahead : mark :: behind <:+ tokens) (other : front tokens ≠ .semicolon) :
    (mark :: behind).length < tokens.length := by
  refine Nat.lt_of_le_of_ne ahead.length_le fun same => other ?_
  rw [← ahead.eq_of_length same]
  exact isMark

/-- A token that is no semicolon is there on both sides of a gap. -/
theorem Window.takes (window : Window (mark :: behind) behind tokens tokens')
    (takes : Takes kind tokens rest) (other : kind ≠ .semicolon) :
    ∃ rest', Takes kind tokens' rest' ∧ Window (mark :: behind) behind rest rest' :=
  window.takes_inside takes
    (length_lt_of_front isMark window.suffix (by rwa [takes.front_eq]))

theorem Gap.takes (gap : Gap mark behind tokens tokens') (takes : Takes kind tokens rest)
    (other : kind ≠ .semicolon) (level : kind.opens = 0) :
    ∃ rest', Takes kind tokens' rest' ∧ Gap mark behind rest rest' := by
  obtain ⟨rest', takes', window⟩ := gap.window.takes isMark takes other
  refine ⟨rest', takes', window, ?_⟩
  rw [← (takes.balanced level).1]
  exact gap.level

theorem Gap.front_eq (gap : Gap mark behind tokens tokens') (noSemicolon : front tokens ≠ .semicolon) :
    front tokens' = front tokens :=
  gap.window.front_eq (length_lt_of_front isMark gap.window.suffix noSemicolon)

/-- A name is read on both sides of a gap. -/
theorem Gap.name {role : NameRole} {name : Name} (gap : Gap mark behind tokens tokens')
    (reads : (nameRule role).Reads tokens name rest) :
    ∃ name' rest', (nameRule role).Reads tokens' name' rest' ∧ Gap mark behind rest rest' := by
  obtain ⟨token, split, isName, _⟩ := reads_nameRule_iff.mp reads
  obtain ⟨rest', ⟨token', split', isName'⟩, gapRest⟩ :=
    gap.takes isMark ⟨token, split, isName⟩ (by decide) rfl
  exact ⟨_, rest', reads_nameRule_iff.mpr ⟨token', split', isName', rfl⟩, gapRest⟩

/-- What is read up to another token is read alike on both sides of a gap that is further on. -/
theorem Gap.reads {α γ : Type} {parser : Parser α} {change : α → γ} {value : α} {limit : Nat}
    (gap : Gap mark behind tokens tokens') (balanced : parser.Balanced limit)
    (transfers : Transfers (mark :: behind) behind change parser parser) (short : tokens.length ≤ limit)
    (reads : parser.Reads tokens value rest) (ahead : mark :: behind <:+ rest)
    (other : front rest ≠ .semicolon) :
    ∃ value' rest', parser.Reads tokens' value' rest' ∧ Gap mark behind rest rest' := by
  obtain ⟨value', rest', reads', _, window⟩ :=
    transfers.transfer gap.window reads (length_lt_of_front isMark ahead other)
  refine ⟨value', rest', reads', window, ?_⟩
  rw [← (balanced _ _ _ short reads).1]
  exact gap.level

/-- A condition in parentheses is read alike on both sides of a gap. -/
theorem Gap.condition {bound : Nat} {opened closing afterCondition : List Token}
    {condition : Expression Unit} (gap : Gap mark behind tokens tokens') (short : tokens.length ≤ bound)
    (opening : Takes .leftParen tokens opened) (reads : (expression bound).Reads opened condition closing)
    (closed : Takes .rightParen closing afterCondition) :
    ∃ opened' condition' closing' afterCondition', Takes .leftParen tokens' opened' ∧
      (expression bound).Reads opened' condition' closing' ∧
      Takes .rightParen closing' afterCondition' ∧ Gap mark behind afterCondition afterCondition' := by
  have shorter := opening.length_eq
  obtain ⟨opened', opening', windowOpened⟩ := gap.window.takes isMark opening (by decide)
  have ahead := ahead_of_expression isMark (by omega) reads windowOpened.suffix
  have inside := length_lt_of_front isMark ahead (by rw [closed.front_eq]; decide)
  obtain ⟨condition', closing', reads', _, windowClosing⟩ :=
    (transfers_unary_and_expression bound).2.transfer windowOpened reads inside
  obtain ⟨afterCondition', closed', window⟩ := windowClosing.takes isMark closed (by decide)
  refine ⟨opened', condition', closing', afterCondition', opening', reads', closed', window, ?_⟩
  rw [← (balanced_condition (balanced_expression bound) short opening reads closed).1]
  exact gap.level

/-- An expression up to the mark is read on the other side as well, perhaps with more behind it. -/
theorem Window.expression_at_gap {bound : Nat} {closing : List Token} {value : Expression Unit}
    (window : Window (mark :: behind) behind tokens tokens') (short : tokens.length ≤ bound)
    (reads : (expression bound).Reads tokens value closing) (closed : Takes .semicolon closing rest)
    (past : rest.length ≤ behind.length) :
    rest = behind ∧ (Resumes behind → ∃ value' rest', (expression bound).Reads tokens' value' rest' ∧
      (rest' = behind ∨ Takes .semicolon rest' (resumption behind))) := by
  obtain ⟨rfl, rfl⟩ := at_gap (ahead_of_expression isMark short reads window.suffix) closed past
  refine ⟨rfl, fun resumes => ?_⟩
  obtain ⟨spelled, rfl, same, normal⟩ := spelled_of_expression short reads
  obtain ⟨spelled', rfl, sameSpelled⟩ := window.split
  have enough : (spelled' ++ rest).length ≤ bound := by
    have length := sameSpelled.length_eq
    simp only [List.length_append, List.length_cons] at short ⊢
    omega
  exact expression_onward normal (same.trans sameSpelled) enough resumes

end Gaps

/-- What is read in front of the mark, or of a semicolon behind it, is cut short or goes on to the
resumption. -/
theorem outcome_marked {α β : Type} {behind tokens rest : List Token} {parser : Parser α} {value : α}
    (resumes : Resumes behind) (reads : parser.Reads tokens value rest)
    (onward : rest = behind ∨ Takes .semicolon rest (resumption behind)) (site : Site) (build : α → β) :
    Outcome behind
      ((do
        let value ← parser
        let _ ← expectMark .semicolon site
        return build value : Parser β) tokens) behind := by
  rw [reads.bind_eq]
  rcases onward with rfl | closed
  · rw [expectMark_bind_missing (by decide) resumes.noSemicolon]
    exact .stuck rfl rfl (Nat.le_refl _) rfl
  · rw [expectMark_bind_eq (by decide) closed]
    exact .resumed rfl (Parser.Reads.passed (reads_pure_iff.mpr ⟨rfl, rfl⟩))

end LoxInterpreter.Grammar
