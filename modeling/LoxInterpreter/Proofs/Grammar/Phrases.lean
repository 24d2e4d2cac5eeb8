import LoxInterpreter.Proofs.Grammar.Windows
import LoxInterpreter.Proofs.Lines.Reading

/-!
Contract: phrases are read alike wherever they stand.

A phrase is a list of tokens that is read by itself. An expression can stand in front of every mark that
ends expressions, and a statement in front of everything but an `else`.

Owns: `ExpressionPhrase`, `StatementPhrase`, and what a statement begins with.
Does not own: that contents decide what is read (`Proofs.Grammar.Windows`), nor that what is read in front
of the end is read alike in front of more (`Proofs.Lines.Reading`).
-/

namespace LoxInterpreter.Grammar

open Token LoxInterpreter.Grammar.Parser

/-! ## What stands in front -/

/-- The kinds of token that begin a statement or a declaration that is no expression. -/
def declarationMarks : List Token.Kind :=
  .keyword .funWord :: .keyword .varWord :: statementMarks

/-- A statement or declaration begins with its mark, or as an expression does. -/
theorem front_of_declaration {bound : Nat} {tokens rest : List Token} {value : Statement Unit}
    (enough : tokens.length ≤ bound) (reads : (declaration bound).Reads tokens (some value) rest) :
    front tokens ∈ declarationMarks ∨ startsExpression (front tokens) = true := by
  cases bound with
  | zero => exact absurd reads not_reads_declaration_zero
  | succ bound =>
      have marked {kind : Token.Kind} (member : kind ∈ declarationMarks) {behind : List Token}
          (word : Takes kind tokens behind) : front tokens ∈ declarationMarks :=
        word.front_eq ▸ member
      obtain ⟨value', _, ⟨_, word, _⟩ | ⟨_, word, _⟩ | ⟨_, _, rule⟩⟩ := reads_declaration_iff.mp reads
      · exact .inl (marked (by decide) word)
      · exact .inl (marked (by decide) word)
      · cases reads_statement_iff.mp rule with
        | threeClauses behind word rule => exact .inl (marked (by decide) word)
        | conditional behind word rule => exact .inl (marked (by decide) word)
        | print behind word rule => exact .inl (marked (by decide) word)
        | returning token behind split word rule =>
            exact .inl (marked (by decide) ⟨token, split, word⟩)
        | loop behind word rule => exact .inl (marked (by decide) word)
        | block behind items brace rule built => exact .inl (marked (by decide) brace)
        | expression other rule =>
            obtain ⟨inner, closing, readsInner, _, _⟩ := reads_expressionStatementRule_iff.mp rule
            obtain ⟨normal, _, written⟩ := (unary_and_expression_sound _).2 _ _ _ enough readsInner
            rw [front_eq_of_sameContent written]
            exact .inr (front_expression inner normal closing).1

/-- A block, and a program, go on in front of a statement or declaration. -/
theorem atBlockEnd_of_declaration {bound : Nat} {tokens rest : List Token} {value : Statement Unit}
    (enough : tokens.length ≤ bound) (reads : (declaration bound).Reads tokens (some value) rest) :
    atBlockEnd tokens = false := by
  have begins := front_of_declaration enough reads
  have noBrace : front tokens ≠ .rightBrace := fun same => by
    rw [same] at begins
    revert begins
    decide
  have noEnd : front tokens ≠ .endOfInput := fun same => by
    rw [same] at begins
    revert begins
    decide
  simpa [atBlockEnd, atEnd, front] using And.intro noBrace noEnd

/-! ## Single statements -/

/-- Where no item is read, nothing is taken. -/
theorem eq_of_reads_many_nil {item : Parser (Option (Statement Unit))} {stop : List Token → Bool}
    {limit bound : Nat} {tokens rest : List Token} (sound : SoundDeclaration limit item)
    (short : tokens.length ≤ limit) (reads : (many item stop bound).Reads tokens [] rest) :
    rest = tokens := by
  cases bound with
  | zero => exact (reads_pure_iff.mp reads).2
  | succ bound =>
      rcases reads_many_iff.mp reads with ⟨_, _, same⟩ | ⟨_, first, between, later, one, _, items⟩
      · exact same
      · obtain ⟨value, rfl, _⟩ := sound _ _ _ short one
        exact absurd items (by simp)

/-- Where a single statement is all that is read, it is read up to the closing token. -/
theorem declaration_of_read {body : List Token} {last : Token} {value : Statement Unit}
    (inner : Inner body) (isLast : last.kind = .endOfInput)
    (reads : read (body ++ [last]) = ⟨[value], []⟩) :
    (declaration (body ++ [last]).length).Reads (body ++ [last]) (some value) [last] := by
  have complete := complete_append inner isLast
  generalize isTokens : body ++ [last] = tokens at reads complete ⊢
  have sound := (statement_and_declaration_sound tokens.length).2
  have settles := (Nesting.standard.settles_statement_and_declaration tokens.length (Nat.le_refl _)
    (Nat.le_refl _)).2
  obtain ⟨rest, readsProgram⟩ := read_eq_iff.mp reads
  have ends := many_stops sound rfl (Nat.le_refl _) (Nat.le_refl _) readsProgram
  obtain ⟨bound, isBound⟩ := Nat.exists_eq_add_of_le' complete.length_pos
  have opened : (many (declaration tokens.length) atEnd (bound + 1)).Reads tokens [value] rest := by
    rw [← isBound]
    exact readsProgram
  rcases reads_many_iff.mp opened with ⟨_, nothing, _⟩ |
    ⟨_, first, between, later, readsFirst, readsLater, items⟩
  · exact absurd nothing (by simp)
  · obtain ⟨value', rfl, accepted⟩ := sound _ _ _ (Nat.le_refl _) readsFirst
    obtain ⟨rfl, rfl⟩ : value = value' ∧ later = [] := by simpa [eq_comm] using items
    have completeBetween := (settles tokens complete (Nat.le_refl _)).1
    rw [readsFirst] at completeBetween
    have unmoved := eq_of_reads_many_nil sound (Nat.le_of_lt accepted.shorter) readsLater
    rw [unmoved] at ends
    have taken : between <:+ body ++ [last] := by
      rw [isTokens]
      exact readsFirst.suffix (regular_statement_and_declaration _).2
    have isLastToken : between = [last] :=
      eq_last_of_suffix taken completeBetween (by simpa [atEnd, front] using ends)
    rwa [isLastToken] at readsFirst

/-- A statement that is read up to the closing token is all that is read. -/
theorem read_of_declaration {body : List Token} {last : Token} {value : Statement Unit}
    (isLast : last.kind = .endOfInput)
    (reads : (declaration (body ++ [last]).length).Reads (body ++ [last]) (some value) [last]) :
    read (body ++ [last]) = ⟨[value], []⟩ := by
  have ends : atEnd [last] = true := by simp [atEnd, currentToken, isLast]
  have goesOn : atEnd (body ++ [last]) = false :=
    atEnd_eq_false_of_atBlockEnd (atBlockEnd_of_declaration (Nat.le_refl _) reads)
  refine read_eq_iff.mpr ⟨[last], ?_⟩
  have items : (many (declaration (body ++ [last]).length) atEnd (body.length + 1)).Reads
      (body ++ [last]) [value] [last] := reads_many_iff.mpr (.inr ⟨goesOn, some value, [last], [], reads,
        Seam.reads_many_stopped ends body.length, rfl⟩)
  simpa [program] using items

theorem statement_of_declaration {bound : Nat} {tokens rest : List Token} {value : Statement Unit}
    (plain : value.isDeclaration = false)
    (reads : (declaration bound).Reads tokens (some value) rest) :
    (statement bound).Reads tokens value rest ∧ front tokens ≠ .keyword .varWord := by
  cases bound with
  | zero => exact absurd reads not_reads_declaration_zero
  | succ bound =>
      obtain ⟨value', same, ⟨_, _, rule⟩ | ⟨_, _, rule⟩ | ⟨_, noVariable, rule⟩⟩ :=
        reads_declaration_iff.mp reads
      all_goals obtain rfl := Option.some.inj same
      · obtain ⟨_, _, _, _, _, _, _, _, _, _, _, _, _, _, rfl⟩ := reads_functionRule_iff.mp rule
        exact absurd plain (by simp [Statement.isDeclaration])
      · obtain ⟨_, _, _, ⟨_, rfl⟩ | ⟨_, _, _, _, _, _, rfl⟩⟩ := reads_variableRule_iff.mp rule <;>
          exact absurd plain (by simp [Statement.isDeclaration])
      · exact ⟨rule, noVariable⟩

/-- Only the rule for variables reads their declarations. -/
theorem variable_of_declaration {bound : Nat} {tokens rest : List Token} {name : Name}
    {initializer : Option (Expression Unit)} (enough : tokens.length ≤ bound)
    (reads : (declaration bound).Reads tokens (some (.declaration name initializer)) rest) :
    ∃ behind, Takes (.keyword .varWord) tokens behind ∧
      (variableRule (expression bound)).Reads behind (.declaration name initializer) rest := by
  cases bound with
  | zero => exact absurd reads not_reads_declaration_zero
  | succ bound =>
      obtain ⟨value', same, ⟨_, _, rule⟩ | ⟨behind, word, rule⟩ | ⟨_, _, rule⟩⟩ :=
        reads_declaration_iff.mp reads
      all_goals obtain rfl := Option.some.inj same
      · obtain ⟨_, _, _, _, _, _, _, _, _, _, _, _, _, _, other⟩ := reads_functionRule_iff.mp rule
        exact absurd other (by simp)
      · exact ⟨behind, word, rule⟩
      · have plain := ((statement_and_declaration_sound _).1 _ _ _ enough rule).1
        exact absurd plain (by simp [Statement.isDeclaration])

theorem loopOfClauses_ne_expression (initializer : Option (Statement Unit))
    (condition increment : Option (Expression Unit)) (body : Statement Unit)
    (value : Expression Unit) :
    loopOfClauses initializer condition increment body ≠ .expression value := by
  cases initializer <;> simp [loopOfClauses]

/-- Only the rule for expressions with a semicolon reads such a statement. -/
theorem expression_of_statement {bound : Nat} {tokens rest : List Token} {value : Expression Unit}
    (reads : (statement bound).Reads tokens (.expression value) rest) :
    ∃ closing, (expression bound).Reads tokens value closing ∧ Takes .semicolon closing rest := by
  cases bound with
  | zero => exact absurd reads not_reads_fail
  | succ bound =>
      cases reads_statement_iff.mp reads with
      | threeClauses behind word rule =>
          obtain ⟨_, _, _, _, _, _, _, _, _, _, _, _, _, _, _, _, _, same⟩ := reads_forRule_iff.mp rule
          exact absurd same.symm (loopOfClauses_ne_expression _ _ _ _ _)
      | conditional behind word rule =>
          obtain ⟨_, _, _, _, _, _, _, _, _, _, ⟨_, _, same⟩ | ⟨_, _, _, _, same⟩⟩ :=
            reads_conditionalRule_iff.mp rule <;> exact absurd same (by simp)
      | print behind word rule =>
          obtain ⟨_, _, _, _, same⟩ := reads_printRule_iff.mp rule
          exact absurd same (by simp)
      | returning token behind split word rule =>
          obtain ⟨_, _, _, _, same⟩ := reads_returnRule_iff.mp rule
          exact absurd same (by simp)
      | loop behind word rule =>
          obtain ⟨_, _, _, _, _, _, _, _, _, same⟩ := reads_whileRule_iff.mp rule
          exact absurd same (by simp)
      | block behind items brace rule built => exact absurd built (by simp)
      | expression other rule =>
          obtain ⟨value', closing, readsValue, closed, same⟩ :=
            reads_expressionStatementRule_iff.mp rule
          obtain rfl := Statement.expression.inj same
          exact ⟨closing, readsValue, closed⟩

/-- What is read as an expression is normal, and the tokens that were taken write it. -/
theorem written_of_reads {spelled rest : List Token} {value : Expression Unit} {bound : Nat}
    (enough : (spelled ++ rest).length ≤ bound)
    (reads : (expression bound).Reads (spelled ++ rest) value rest) :
    value.Normal ∧ SameContent value.tokens spelled := by
  obtain ⟨normal, _, written⟩ := (unary_and_expression_sound bound).2 _ _ _ enough reads
  exact ⟨normal, written.append_cancel.symm⟩

/-- A normal expression is read from the contents that write it, up to any place that ends an
expression. -/
theorem expression_spelled {spelled rest : List Token} {value : Expression Unit} {bound : Nat}
    (normal : value.Normal) (same : SameContent value.tokens spelled) (enough : spelled.length ≤ bound)
    (goesOn : rest ≠ []) (ends : EndsExpression (front rest)) :
    ∃ value', (expression bound).Reads (spelled ++ rest) value' rest ∧
      value'.withoutLines = value.withoutLines := by
  have readsWritten := (unary_and_expression_complete bound).2 value rest normal (Nat.zero_le _)
    (by rwa [same.length_eq]) ends
  have whole : Window [] [] (value.tokens ++ rest ++ []) (spelled ++ rest ++ []) :=
    Window.append (same.append (SameContent.refl rest))
  rw [List.append_nil, List.append_nil] at whole
  obtain ⟨value', final, readsSpelled, sameValue, windowRest⟩ :=
    (transfers_unary_and_expression bound).2.transfer whole readsWritten
      (List.length_pos_iff.mpr goesOn)
  -- What remains is an end of the tokens, of the length of what remained of those that were written.
  have isRest : final = rest := by
    have taken := readsSpelled.suffix (regular_unary_and_expression bound).2
    have length : final.length = rest.length := windowRest.length_add
    exact (List.suffix_of_suffix_length_le taken (List.suffix_append _ _)
      (Nat.le_of_eq length)).eq_of_length length
  rw [isRest] at readsSpelled
  exact ⟨value', readsSpelled, sameValue⟩

/-! ## Phrases -/

/-- Tokens that are an expression, wherever they stand. -/
structure ExpressionPhrase where
  tokens : List Token
  value : Expression Unit
  inner : Inner tokens
  isRead : read (tokens ++ [unplaced .semicolon, closing 0]) = ⟨[.expression value], []⟩

/-- Tokens that are a single statement or declaration, wherever they stand. -/
structure StatementPhrase where
  tokens : List Token
  value : Statement Unit
  inner : Inner tokens
  isRead : read (tokens ++ [closing 0]) = ⟨[value], []⟩

namespace ExpressionPhrase

variable (phrase : ExpressionPhrase)

/-- By itself a phrase is read up to the semicolon that is put behind it. -/
theorem reads_alone :
    let ended := phrase.tokens ++ [unplaced .semicolon, closing 0]
    (expression ended.length).Reads ended phrase.value [unplaced .semicolon, closing 0] := by
  intro ended
  have split : phrase.tokens ++ [unplaced .semicolon] ++ [closing 0] = ended := by simp [ended]
  have inner : Inner (phrase.tokens ++ [unplaced .semicolon]) := by simpa using phrase.inner
  have isRead : read (phrase.tokens ++ [unplaced .semicolon] ++ [closing 0]) =
      ⟨[.expression phrase.value], []⟩ := by
    rw [split]
    exact phrase.isRead
  have reads := declaration_of_read inner (show (closing 0).kind = .endOfInput from rfl) isRead
  rw [split] at reads
  obtain ⟨last, readsValue, closed⟩ :=
    expression_of_statement (statement_of_declaration rfl reads).1
  have taken := readsValue.suffix (regular_unary_and_expression _).2
  have isLast : last = [unplaced .semicolon, closing 0] :=
    (List.suffix_of_suffix_length_le taken (List.suffix_append _ _)
      (Nat.le_of_eq closed.length_eq)).eq_of_length closed.length_eq
  rwa [isLast] at readsValue

/-- A phrase is read wherever an expression can end behind it. -/
theorem reads {rest : List Token} {bound : Nat} (enough : phrase.tokens.length ≤ bound)
    (goesOn : rest ≠ []) (ends : EndsExpression (front rest)) :
    ∃ value, (expression bound).Reads (phrase.tokens ++ rest) value rest ∧
      value.withoutLines = phrase.value.withoutLines :=
  have ⟨normal, same⟩ := written_of_reads (Nat.le_refl _) phrase.reads_alone
  expression_spelled normal same enough goesOn ends

theorem front_ne {mark : Token.Kind} (noExpression : startsExpression mark = false)
    (rest : List Token) : front (phrase.tokens ++ rest) ≠ mark := by
  have ⟨normal, same⟩ := written_of_reads (Nat.le_refl _) phrase.reads_alone
  rw [← front_eq_of_sameContent (same.append (SameContent.refl rest))]
  exact front_expression_ne normal noExpression rest

theorem reads_statement {rest : List Token} {bound : Nat}
    (enough : (phrase.tokens ++ unplaced .semicolon :: rest).length ≤ bound) :
    ∃ value, (declaration bound).Reads (phrase.tokens ++ unplaced .semicolon :: rest)
        (some (.expression value)) rest ∧
      value.withoutLines = phrase.value.withoutLines := by
  rw [List.length_append, List.length_cons] at enough
  obtain ⟨bound, rfl⟩ := Nat.exists_eq_add_of_le' (show 1 ≤ bound by omega)
  obtain ⟨value, reads, same⟩ :
      ∃ value, (expression (bound + 1)).Reads (phrase.tokens ++ unplaced .semicolon :: rest) value
        (unplaced .semicolon :: rest) ∧ value.withoutLines = phrase.value.withoutLines :=
    phrase.reads (by omega) (by simp) (endsExpression_of_mark semicolon_mem)
  have noMark : ∀ mark ∈ declarationMarks,
      front (phrase.tokens ++ unplaced .semicolon :: rest) ≠ mark := fun mark member =>
    phrase.front_ne (by revert mark; decide) _
  refine ⟨value, reads_declaration_iff.mpr ⟨_, rfl, .inr (.inr
    ⟨noMark _ (by decide), noMark _ (by decide), reads_statement_iff.mpr (.expression ?_ ?_)⟩)⟩, same⟩
  · exact fun member => noMark _ (List.mem_cons_of_mem _ (List.mem_cons_of_mem _ member)) rfl
  · exact reads_expressionStatementRule_iff.mpr ⟨value, _, reads, ⟨_, rfl, rfl⟩, rfl⟩

end ExpressionPhrase

namespace StatementPhrase

variable (phrase : StatementPhrase)

/-- A phrase is read wherever no `else` stands behind it. -/
theorem reads {rest : List Token} {bound : Nat} (enough : (phrase.tokens ++ rest).length ≤ bound)
    (goesOn : rest ≠ []) (noElse : front rest ≠ .keyword .elseWord) :
    (declaration bound).Reads (phrase.tokens ++ rest) (some phrase.value) rest := by
  let seam : Seam := ⟨id, closing 0, rest, rfl, goesOn, noElse⟩
  have unmoved : phrase.tokens.map (·.moveLine seam.move) = phrase.tokens :=
    List.map_id phrase.tokens
  have joins : seam.Joins (phrase.tokens ++ [closing 0]) (phrase.tokens ++ rest) := by
    simpa only [unmoved] using seam.joins_append phrase.inner
  have alone := declaration_of_read phrase.inner (show (closing 0).kind = .endOfInput from rfl)
    phrase.isRead
  obtain ⟨rest', joinsRest, _, reads⟩ := (Seam.carries_statement_and_declaration _ bound).2 _ _ _ _
    joins (Nat.le_refl _) enough alone
  obtain ⟨_, isRest⟩ := joinsRest.at_end rfl
  rw [isRest] at reads
  simpa [seam, Statement.moveLines_id] using reads

end StatementPhrase

end LoxInterpreter.Grammar
