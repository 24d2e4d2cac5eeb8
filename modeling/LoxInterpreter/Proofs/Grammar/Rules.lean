import LoxInterpreter.Proofs.Grammar.Normal
import LoxInterpreter.Proofs.Grammar.Regular

/-!
Contract: the rules of the grammar, each as what it reads from what.

Every rule reads a tree from some tokens exactly when its parts are read one after another. The
statements below are the productions of the grammar with its lookahead, and the only place where the
parsers of the rules are opened.

Owns: one equivalence for each rule.
Does not own: what follows from them by induction (`Proofs.Grammar.Soundness`,
`Proofs.Grammar.Completeness`).
-/

namespace LoxInterpreter.Grammar

open LoxInterpreter.Grammar.Parser

variable {tokens rest : List Token}

/-! ## Expressions -/

section Expressions

variable {nested nestedUnary operand : Parser (Expression Unit)} {value : Expression Unit}
  {bound : Nat}

/-- No atom is the closing token. -/
theorem kind_ne_of_atom? {token : Token} (atom : atom? token = some value) :
    token.kind ≠ .endOfInput := by
  intro closing
  simp [atom?, closing] at atom

theorem reads_primaryRule_iff :
    (primaryRule nested).Reads tokens value rest ↔
      (∃ token, tokens = token :: rest ∧ atom? token = some value) ∨
        ∃ opened inner closing, Takes .leftParen tokens opened ∧ nested.Reads opened inner closing ∧
          Takes .rightParen closing rest ∧ value = .grouping inner := by
  unfold primaryRule
  rw [reads_bind_iff]
  constructor
  · rintro ⟨atom, between, taken, choice⟩
    cases atom with
    | some atom =>
        obtain ⟨rfl, rfl⟩ := reads_pure_iff.mp choice
        obtain ⟨token, rfl, _, isAtom⟩ := reads_take?_some_iff.mp taken
        exact .inl ⟨token, rfl, isAtom⟩
    | none =>
        obtain ⟨rfl, _⟩ := reads_take?_none_iff.mp taken
        rcases (reads_accept_bind_iff (by decide)).mp choice with ⟨opened, opening, inside⟩ | stuck
        · obtain ⟨inner, closing, readsInner, closes⟩ := reads_bind_iff.mp inside
          obtain ⟨behind, closed, done⟩ := (reads_expectMark_bind_iff (by decide)).mp closes
          obtain ⟨rfl, rfl⟩ := reads_pure_iff.mp done
          exact .inr ⟨opened, inner, closing, opening, readsInner, closed, rfl⟩
        · exact absurd stuck.2 not_reads_fail
  · rintro (⟨token, rfl, isAtom⟩ | ⟨opened, inner, closing, opening, readsInner, closed, rfl⟩)
    · exact ⟨some value, rest,
        reads_take?_some_iff.mpr ⟨token, rfl, kind_ne_of_atom? isAtom, isAtom⟩,
        reads_pure_iff.mpr ⟨rfl, rfl⟩⟩
    · refine ⟨none, tokens, reads_take?_none_iff.mpr ⟨rfl, ?_⟩, ?_⟩
      · obtain ⟨token, rfl, isOpening⟩ := opening
        rintro _ _ ⟨rfl, rfl⟩ _
        simp [atom?, isOpening]
      · refine (reads_accept_bind_iff (by decide)).mpr (.inl ⟨opened, opening, ?_⟩)
        refine reads_bind_iff.mpr ⟨inner, closing, readsInner, ?_⟩
        exact (reads_expectMark_bind_iff (by decide)).mpr
          ⟨rest, closed, reads_pure_iff.mpr ⟨rfl, rfl⟩⟩

theorem reads_callStep_none_iff {callee : Expression Unit} :
    (callStep nested bound callee).Reads tokens none rest ↔
      rest = tokens ∧ front tokens ≠ .leftParen := by
  unfold callStep
  rw [reads_accept_bind_iff (by decide)]
  constructor
  · rintro (⟨opened, _, inside⟩ | ⟨different, done⟩)
    · obtain ⟨_, _, _, closes⟩ := reads_bind_iff.mp inside
      obtain ⟨_, _, _, done⟩ := reads_bind_iff.mp closes
      exact absurd (reads_pure_iff.mp done).1 (by simp)
    · exact ⟨(reads_pure_iff.mp done).2, different⟩
  · rintro ⟨rfl, different⟩
    exact .inr ⟨different, reads_pure_iff.mpr ⟨rfl, rfl⟩⟩

theorem reads_callStep_some_iff {callee : Expression Unit} :
    (callStep nested bound callee).Reads tokens (some value) rest ↔
      ∃ opened arguments closing, Takes .leftParen tokens opened ∧
        (list nested .tooManyArguments bound).Reads opened arguments (closing :: rest) ∧
        closing.kind = .rightParen ∧ value = .call callee arguments closing.line := by
  unfold callStep
  rw [reads_accept_bind_iff (by decide)]
  constructor
  · rintro (⟨opened, opening, inside⟩ | ⟨_, done⟩)
    · obtain ⟨arguments, between, readsArguments, closes⟩ := reads_bind_iff.mp inside
      obtain ⟨closing, _, closed, done⟩ := reads_bind_iff.mp closes
      obtain ⟨same, rfl⟩ := reads_pure_iff.mp done
      obtain ⟨rfl, isClosing⟩ := (reads_expect_iff (by decide)).mp closed
      exact ⟨opened, arguments, closing, opening, readsArguments, isClosing, Option.some.inj same⟩
    · exact absurd (reads_pure_iff.mp done).1 (by simp)
  · rintro ⟨opened, arguments, closing, opening, readsArguments, isClosing, rfl⟩
    refine .inl ⟨opened, opening, reads_bind_iff.mpr ⟨arguments, _, readsArguments, ?_⟩⟩
    exact reads_bind_iff.mpr ⟨closing, rest, (reads_expect_iff (by decide)).mpr ⟨rfl, isClosing⟩,
      reads_pure_iff.mpr ⟨rfl, rfl⟩⟩

theorem reads_callRule_iff :
    (callRule nested bound).Reads tokens value rest ↔
      ∃ callee between, (primaryRule nested).Reads tokens callee between ∧
        (grow (callStep nested bound) bound callee).Reads between value rest := by
  unfold callRule
  exact reads_bind_iff

/-- An operator in front of an operand is one of two kinds of token. -/
theorem unaryOperator?_eq_some_iff {token : Token} {operator : UnaryOperator} {line : Nat} :
    unaryOperator? token = some (operator, line) ↔ token.kind = operator.kind ∧ token.line = line := by
  unfold unaryOperator?
  cases operator <;> cases token.kind <;> simp [UnaryOperator.ofKind?, UnaryOperator.kind]

theorem reads_unaryRule_iff :
    (unaryRule nestedUnary nested bound).Reads tokens value rest ↔
      (∃ token behind operator operand, tokens = token :: behind ∧
        token.kind = UnaryOperator.kind operator ∧ nestedUnary.Reads behind operand rest ∧
        value = .unary operator token.line operand) ∨
      ((∀ operator, front tokens ≠ UnaryOperator.kind operator) ∧
        (callRule nested bound).Reads tokens value rest) := by
  unfold unaryRule
  rw [reads_bind_iff]
  constructor
  · rintro ⟨taken, between, chosen, following⟩
    cases taken with
    | some pair =>
        obtain ⟨operator, line⟩ := pair
        obtain ⟨token, rfl, _, isOperator⟩ := reads_take?_some_iff.mp chosen
        obtain ⟨isKind, rfl⟩ := unaryOperator?_eq_some_iff.mp isOperator
        obtain ⟨operand, behind, readsOperand, done⟩ := reads_bind_iff.mp following
        obtain ⟨rfl, rfl⟩ := reads_pure_iff.mp done
        exact .inl ⟨token, between, operator, operand, rfl, isKind, readsOperand, rfl⟩
    | none =>
        obtain ⟨rfl, declined⟩ := reads_take?_none_iff.mp chosen
        refine .inr ⟨fun operator same => ?_, following⟩
        have notEnd : front between ≠ .endOfInput := by rw [same]; cases operator <;> decide
        obtain ⟨token, others, rfl⟩ := exists_cons_of_front_ne notEnd
        have none := declined token others rfl
          (by rw [front_cons] at same; rw [same]; cases operator <;> decide)
        have some : unaryOperator? token = some (operator, token.line) :=
          unaryOperator?_eq_some_iff.mpr ⟨same, rfl⟩
        exact absurd (none.symm.trans some) (by simp)
  · rintro (⟨token, behind, operator, operand, rfl, isKind, readsOperand, rfl⟩ | ⟨different, calls⟩)
    · refine ⟨some (operator, token.line), behind, reads_take?_some_iff.mpr ⟨token, rfl, ?_, ?_⟩, ?_⟩
      · rw [isKind]
        cases operator <;> decide
      · exact unaryOperator?_eq_some_iff.mpr ⟨isKind, rfl⟩
      · exact reads_bind_iff.mpr ⟨operand, rest, readsOperand, reads_pure_iff.mpr ⟨rfl, rfl⟩⟩
    · refine ⟨none, tokens, reads_take?_none_iff.mpr ⟨rfl, ?_⟩, calls⟩
      rintro token others rfl _
      cases chosen : unaryOperator? token with
      | none => rfl
      | some pair =>
          obtain ⟨operator, line⟩ := pair
          exact absurd (unaryOperator?_eq_some_iff.mp chosen).1 (different operator)

/-- What the tokens of a level build: the operators that stand on it. -/
theorem Level.build?_eq_some_iff {level : Level} {token : Token}
    {build : Expression Unit → Expression Unit → Expression Unit} :
    level.build? token = some build ↔
      (∃ operator : LogicalOperator, operator.level = level ∧ token.kind = operator.kind ∧
        build = .logical operator token.line) ∨
      ∃ operator : BinaryOperator, operator.level = level ∧ token.kind = operator.kind ∧
        build = .binary operator token.line := by
  constructor
  · intro built
    unfold Level.build? at built
    split at built
    · rename_i isKind
      exact .inl ⟨.or, rfl, isKind, (Option.some.inj built).symm⟩
    · rename_i isKind
      exact .inl ⟨.and, rfl, isKind, (Option.some.inj built).symm⟩
    · split at built
      · rename_i level _ _ _ _ _ operator isOperator
        by_cases onLevel : operator.level = level
        · simp only [onLevel, if_true, Option.some.injEq] at built
          refine .inr ⟨operator, onLevel, ?_, built.symm⟩
          cases isKind : token.kind <;> rw [isKind] at isOperator <;>
            simp only [BinaryOperator.ofKind?, Option.some.injEq, reduceCtorEq] at isOperator <;>
            subst isOperator <;> rfl
        · simp [onLevel] at built
      · simp at built
  · rintro (⟨operator, rfl, isKind, rfl⟩ | ⟨operator, rfl, isKind, rfl⟩)
    · cases operator <;> simp [Level.build?, isKind, LogicalOperator.level, LogicalOperator.kind]
    · cases operator <;>
        simp [Level.build?, isKind, BinaryOperator.level, BinaryOperator.kind, BinaryOperator.ofKind?]

/-- Whether a kind of token is an operator of a level. -/
def Level.HasKind (level : Level) (kind : Token.Kind) : Prop :=
  (∃ operator : LogicalOperator, operator.level = level ∧ kind = operator.kind) ∨
    ∃ operator : BinaryOperator, operator.level = level ∧ kind = operator.kind

theorem Level.build?_isSome_iff {level : Level} {token : Token} :
    (level.build? token).isSome = true ↔ level.HasKind token.kind := by
  rw [Option.isSome_iff_exists]
  constructor
  · rintro ⟨build, built⟩
    rcases Level.build?_eq_some_iff.mp built with ⟨operator, onLevel, isKind, _⟩ |
      ⟨operator, onLevel, isKind, _⟩
    · exact .inl ⟨operator, onLevel, isKind⟩
    · exact .inr ⟨operator, onLevel, isKind⟩
  · rintro (⟨operator, onLevel, isKind⟩ | ⟨operator, onLevel, isKind⟩)
    · exact ⟨_, Level.build?_eq_some_iff.mpr (.inl ⟨operator, onLevel, isKind, rfl⟩)⟩
    · exact ⟨_, Level.build?_eq_some_iff.mpr (.inr ⟨operator, onLevel, isKind, rfl⟩)⟩

theorem Level.HasKind.ne_endOfInput {level : Level} {kind : Token.Kind}
    (hasKind : level.HasKind kind) : kind ≠ .endOfInput := by
  rcases hasKind with ⟨operator, _, rfl⟩ | ⟨operator, _, rfl⟩ <;> cases operator <;> decide

/-- What a token of a level builds is normal if its operands are tight enough for the level. -/
theorem Level.build?_normal_iff {level : Level} {token : Token}
    {build : Expression Unit → Expression Unit → Expression Unit}
    (built : level.build? token = some build) (left right : Expression Unit) :
    (build left right).Normal ↔
      level.rank ≤ left.rank ∧ level.rank < right.rank ∧ left.Normal ∧ right.Normal := by
  rcases Level.build?_eq_some_iff.mp built with ⟨operator, rfl, _, rfl⟩ | ⟨operator, rfl, _, rfl⟩ <;>
    rw [Expression.Normal]

/-- The rank of the operands that a list of levels is made of. -/
def ranksFrom : List Level → Nat
  | [] => unaryRank
  | level :: _ => level.rank

/-- Whether each level of a list is one looser than what follows it. -/
def Ladder : List Level → Prop
  | [] => True
  | level :: tighter => ranksFrom tighter = level.rank + 1 ∧ Ladder tighter

theorem ladder_all : Ladder Level.all := by
  simp [Level.all, Ladder, ranksFrom, Level.rank, unaryRank]

/-- No level of a ladder is tighter than the levels behind it. -/
theorem Ladder.not_mem {levels : List Level} (ladder : Ladder levels) {level : Level}
    (looser : level.rank < ranksFrom levels) : level ∉ levels := by
  induction levels with
  | nil => simp
  | cons first tighter inductionHypothesis =>
      obtain ⟨next, ladderTighter⟩ := ladder
      simp only [ranksFrom] at looser
      rintro (_ | ⟨_, member⟩)
      · exact Nat.lt_irrefl _ looser
      · exact inductionHypothesis ladderTighter (by omega) member

theorem reads_operatorStep_none_iff {level : Level} {left : Expression Unit} :
    (operatorStep level operand left).Reads tokens none rest ↔
      rest = tokens ∧ ¬ level.HasKind (front tokens) := by
  unfold operatorStep
  rw [reads_bind_iff]
  constructor
  · rintro ⟨taken, between, chosen, following⟩
    cases taken with
    | some build =>
        obtain ⟨_, _, _, done⟩ := reads_bind_iff.mp following
        exact absurd (reads_pure_iff.mp done).1 (by simp)
    | none =>
        obtain ⟨rfl, declined⟩ := reads_take?_none_iff.mp chosen
        refine ⟨(reads_pure_iff.mp following).2, fun hasKind => ?_⟩
        obtain ⟨token, others, rfl⟩ := exists_cons_of_front_ne hasKind.ne_endOfInput
        have built : (level.build? token).isSome = true := Level.build?_isSome_iff.mpr hasKind
        simp [declined token others rfl hasKind.ne_endOfInput] at built
  · rintro ⟨rfl, different⟩
    refine ⟨none, rest, reads_take?_none_iff.mpr ⟨rfl, ?_⟩, reads_pure_iff.mpr ⟨rfl, rfl⟩⟩
    rintro token others rfl _
    cases built : level.build? token with
    | none => rfl
    | some build =>
        have isSome : (level.build? token).isSome = true := by simp [built]
        exact absurd (Level.build?_isSome_iff.mp isSome) different

theorem reads_operatorStep_some_iff {level : Level} {left : Expression Unit} :
    (operatorStep level operand left).Reads tokens (some value) rest ↔
      ∃ token behind build right, tokens = token :: behind ∧ level.build? token = some build ∧
        operand.Reads behind right rest ∧ value = build left right := by
  unfold operatorStep
  rw [reads_bind_iff]
  constructor
  · rintro ⟨taken, between, chosen, following⟩
    cases taken with
    | none => exact absurd (reads_pure_iff.mp following).1 (by simp)
    | some build =>
        obtain ⟨token, rfl, _, built⟩ := reads_take?_some_iff.mp chosen
        obtain ⟨right, _, readsRight, done⟩ := reads_bind_iff.mp following
        obtain ⟨same, rfl⟩ := reads_pure_iff.mp done
        exact ⟨token, between, build, right, rfl, built, readsRight, Option.some.inj same⟩
  · rintro ⟨token, behind, build, right, rfl, built, readsRight, rfl⟩
    have hasKind := Level.build?_isSome_iff.mp (by simp [built] : (level.build? token).isSome = true)
    refine ⟨some build, behind,
      reads_take?_some_iff.mpr ⟨token, rfl, hasKind.ne_endOfInput, built⟩, ?_⟩
    exact reads_bind_iff.mpr ⟨right, rest, readsRight, reads_pure_iff.mpr ⟨rfl, rfl⟩⟩

theorem reads_operatorsRule_cons_iff {level : Level} {tighter : List Level} :
    (operatorsRule operand bound (level :: tighter)).Reads tokens value rest ↔
      ∃ left between, (operatorsRule operand bound tighter).Reads tokens left between ∧
        (grow (operatorStep level (operatorsRule operand bound tighter)) bound left).Reads between
          value rest := by
  rw [operatorsRule]
  exact reads_bind_iff

theorem reads_assignmentRule_iff :
    (assignmentRule operand nested bound).Reads tokens value rest ↔
      ((operatorsRule operand bound Level.all).Reads tokens value rest ∧ front rest ≠ .equal) ∨
        ∃ name between behind assigned,
          (operatorsRule operand bound Level.all).Reads tokens (.variable name ()) between ∧
          Takes .equal between behind ∧ nested.Reads behind assigned rest ∧
          value = .assignment name () assigned := by
  unfold assignmentRule
  rw [reads_bind_iff]
  constructor
  · rintro ⟨target, between, readsTarget, following⟩
    obtain ⟨taken, behind, asked, chosen⟩ := reads_bind_iff.mp following
    cases taken with
    | none =>
        obtain ⟨rfl, different⟩ := (reads_accept?_none_iff (by decide)).mp asked
        obtain ⟨rfl, rfl⟩ := reads_pure_iff.mp chosen
        exact .inl ⟨readsTarget, different⟩
    | some equals =>
        obtain ⟨rfl, isEquals⟩ := (reads_accept?_some_iff (by decide)).mp asked
        obtain ⟨assigned, afterValue, readsValue, done⟩ := reads_bind_iff.mp chosen
        cases target with
        | «variable» name reference =>
            obtain ⟨rfl, rfl⟩ := reads_pure_iff.mp done
            exact .inr ⟨name, _, behind, assigned, readsTarget, ⟨equals, rfl, isEquals⟩,
              readsValue, rfl⟩
        | _ =>
            obtain ⟨_, _, noted, _⟩ := reads_bind_iff.mp done
            exact absurd noted not_reads_report
  · rintro (⟨readsTarget, different⟩ | ⟨name, between, behind, assigned, readsTarget, equals, readsValue, rfl⟩)
    · refine ⟨value, rest, readsTarget, reads_bind_iff.mpr ⟨none, rest, ?_, ?_⟩⟩
      · exact (reads_accept?_none_iff (by decide)).mpr ⟨rfl, different⟩
      · exact reads_pure_iff.mpr ⟨rfl, rfl⟩
    · obtain ⟨token, rfl, isEquals⟩ := equals
      refine ⟨.variable name (), _, readsTarget, reads_bind_iff.mpr ⟨some token, behind, ?_, ?_⟩⟩
      · exact (reads_accept?_some_iff (by decide)).mpr ⟨rfl, isEquals⟩
      · exact reads_bind_iff.mpr ⟨assigned, rest, readsValue, reads_pure_iff.mpr ⟨rfl, rfl⟩⟩

end Expressions

/-! ## Statements -/

section Statements

variable {expression : Parser (Expression Unit)} {statement : Parser (Statement Unit)}
  {declaration : Parser (Option (Statement Unit))} {value : Statement Unit} {bound : Nat}

theorem reads_nameRule_iff {role : NameRole} {name : Name} :
    (nameRule role).Reads tokens name rest ↔
      ∃ token, tokens = token :: rest ∧ token.kind = .identifier ∧
        name = ⟨token.lexeme, token.line⟩ := by
  unfold nameRule
  rw [reads_bind_iff]
  constructor
  · rintro ⟨token, between, taken, done⟩
    obtain ⟨rfl, rfl⟩ := reads_pure_iff.mp done
    obtain ⟨rfl, isName⟩ := (reads_expect_iff (by decide)).mp taken
    exact ⟨token, rfl, isName, rfl⟩
  · rintro ⟨token, rfl, isName, rfl⟩
    exact ⟨token, rest, (reads_expect_iff (by decide)).mpr ⟨rfl, isName⟩,
      reads_pure_iff.mpr ⟨rfl, rfl⟩⟩

/-- A mark that is the last part of a rule. -/
theorem reads_expectMark_pure_iff {α : Type} {kind : Token.Kind} (notEnd : kind ≠ .endOfInput)
    {site : Site} {built result : α} :
    (do let _ ← expectMark kind site; pure built : Parser α).Reads tokens result rest ↔
      Takes kind tokens rest ∧ result = built := by
  rw [reads_expectMark_bind_iff notEnd]
  constructor
  · rintro ⟨behind, taken, done⟩
    obtain ⟨rfl, rfl⟩ := reads_pure_iff.mp done
    exact ⟨taken, rfl⟩
  · rintro ⟨taken, rfl⟩
    exact ⟨rest, taken, reads_pure_iff.mpr ⟨rfl, rfl⟩⟩

/-- What is read last, and built into something. -/
theorem reads_map_iff {α β : Type} {parser : Parser α} {build : α → β} {result : β} :
    (do return build (← parser) : Parser β).Reads tokens result rest ↔
      ∃ value, parser.Reads tokens value rest ∧ result = build value := by
  rw [reads_bind_iff]
  constructor
  · rintro ⟨value, between, one, done⟩
    obtain ⟨rfl, rfl⟩ := reads_pure_iff.mp done
    exact ⟨value, one, rfl⟩
  · rintro ⟨value, one, rfl⟩
    exact ⟨value, rest, one, reads_pure_iff.mpr ⟨rfl, rfl⟩⟩

theorem reads_expressionStatementRule_iff :
    (expressionStatementRule expression).Reads tokens value rest ↔
      ∃ inner closing, expression.Reads tokens inner closing ∧ Takes .semicolon closing rest ∧
        value = .expression inner := by
  unfold expressionStatementRule
  simp (disch := decide) only [@reads_bind_iff _ _ expression, reads_expectMark_pure_iff]

theorem reads_printRule_iff :
    (printRule expression).Reads tokens value rest ↔
      ∃ inner closing, expression.Reads tokens inner closing ∧ Takes .semicolon closing rest ∧
        value = .print inner := by
  unfold printRule
  simp (disch := decide) only [@reads_bind_iff _ _ expression, reads_expectMark_pure_iff]

theorem reads_optionalBefore_iff {mark : Token.Kind} {result : Option (Expression Unit)} :
    (optionalBefore mark expression).Reads tokens result rest ↔
      (front tokens = mark ∧ result = none ∧ rest = tokens) ∨
        (front tokens ≠ mark ∧ ∃ inner, expression.Reads tokens inner rest ∧
          result = some inner) := by
  unfold optionalBefore
  rw [reads_bind_iff]
  by_cases present : front tokens = mark
  · simp [present]
  · have absent : (front tokens == mark) = false := by simpa using present
    simp [present, absent, reads_map_iff]

theorem reads_returnRule_iff {line : Nat} :
    (returnRule expression line).Reads tokens value rest ↔
      ∃ result closing, (optionalBefore .semicolon expression).Reads tokens result closing ∧
        Takes .semicolon closing rest ∧ value = .returning line result := by
  unfold returnRule
  simp (disch := decide) only [@reads_bind_iff _ _ (optionalBefore _ _), reads_expectMark_pure_iff]

theorem reads_variableRule_iff :
    (variableRule expression).Reads tokens value rest ↔
      ∃ name afterName, (nameRule .variable).Reads tokens name afterName ∧
        ((Takes .semicolon afterName rest ∧ value = .declaration name none) ∨
          ∃ behind initializer closing, Takes .equal afterName behind ∧
            expression.Reads behind initializer closing ∧ Takes .semicolon closing rest ∧
            value = .declaration name (some initializer)) := by
  unfold variableRule
  simp (disch := decide) only [@reads_bind_iff _ _ (nameRule _), reads_accept_bind_iff]
  constructor
  · rintro ⟨name, afterName, readsName, ⟨behind, equals, initialized⟩ | ⟨_, bare⟩⟩
    · obtain ⟨initializer, closing, readsInitializer, done⟩ := reads_bind_iff.mp initialized
      obtain ⟨closed, rfl⟩ := (reads_expectMark_pure_iff (by decide)).mp done
      exact ⟨name, afterName, readsName, .inr ⟨behind, initializer, closing, equals,
        readsInitializer, closed, rfl⟩⟩
    · obtain ⟨closed, rfl⟩ := (reads_expectMark_pure_iff (by decide)).mp bare
      exact ⟨name, afterName, readsName, .inl ⟨closed, rfl⟩⟩
  · rintro ⟨name, afterName, readsName, bare | initialized⟩
    · obtain ⟨closed, rfl⟩ := bare
      refine ⟨name, afterName, readsName, .inr ⟨by rw [closed.front_eq]; decide, ?_⟩⟩
      exact (reads_expectMark_pure_iff (by decide)).mpr ⟨closed, rfl⟩
    · obtain ⟨behind, initializer, closing, equals, readsInitializer, closed, rfl⟩ := initialized
      refine ⟨name, afterName, readsName, .inl ⟨behind, equals, reads_bind_iff.mpr
        ⟨initializer, closing, readsInitializer, ?_⟩⟩⟩
      exact (reads_expectMark_pure_iff (by decide)).mpr ⟨closed, rfl⟩

theorem reads_whileRule_iff :
    (whileRule expression statement).Reads tokens value rest ↔
      ∃ opened condition closing behind body, Takes .leftParen tokens opened ∧
        expression.Reads opened condition closing ∧ Takes .rightParen closing behind ∧
        statement.Reads behind body rest ∧ value = .loop condition body := by
  unfold whileRule
  simp (disch := decide) only [reads_expectMark_bind_iff, @reads_bind_iff _ _ expression,
    reads_map_iff]
  constructor
  · rintro ⟨opened, opening, condition, closing, readsCondition, behind, closed, body, readsBody, rfl⟩
    exact ⟨opened, condition, closing, behind, body, opening, readsCondition, closed, readsBody, rfl⟩
  · rintro ⟨opened, condition, closing, behind, body, opening, readsCondition, closed, readsBody, rfl⟩
    exact ⟨opened, opening, condition, closing, readsCondition, behind, closed, body, readsBody, rfl⟩

theorem reads_conditionalRule_iff :
    (conditionalRule expression statement).Reads tokens value rest ↔
      ∃ opened condition closing behind thenBranch afterThen, Takes .leftParen tokens opened ∧
        expression.Reads opened condition closing ∧ Takes .rightParen closing behind ∧
        statement.Reads behind thenBranch afterThen ∧
        ((front afterThen ≠ .keyword .elseWord ∧ rest = afterThen ∧
            value = .conditional condition thenBranch none) ∨
          ∃ afterElse elseBranch, Takes (.keyword .elseWord) afterThen afterElse ∧
            statement.Reads afterElse elseBranch rest ∧
            value = .conditional condition thenBranch (some elseBranch)) := by
  unfold conditionalRule
  simp (disch := decide) only [reads_expectMark_bind_iff, @reads_bind_iff _ _ expression,
    @reads_bind_iff _ _ statement, reads_accept_bind_iff, reads_pure_iff]
  constructor
  · rintro ⟨opened, opening, condition, closing, readsCondition, behind, closed, thenBranch, afterThen,
      readsThen, ⟨afterElse, isElse, elseBranch, _, readsElse, rfl, rfl⟩ | ⟨noElse, rfl, rfl⟩⟩
    · exact ⟨opened, condition, closing, behind, thenBranch, afterThen, opening, readsCondition,
        closed, readsThen, .inr ⟨afterElse, elseBranch, isElse, readsElse, rfl⟩⟩
    · exact ⟨opened, condition, closing, behind, thenBranch, _, opening, readsCondition, closed,
        readsThen, .inl ⟨noElse, rfl, rfl⟩⟩
  · rintro ⟨opened, condition, closing, behind, thenBranch, afterThen, opening, readsCondition,
      closed, readsThen, ⟨noElse, rfl, rfl⟩ | ⟨afterElse, elseBranch, isElse, readsElse, rfl⟩⟩
    · exact ⟨opened, opening, condition, closing, readsCondition, behind, closed, thenBranch, _,
        readsThen, .inr ⟨noElse, rfl, rfl⟩⟩
    · exact ⟨opened, opening, condition, closing, readsCondition, behind, closed, thenBranch,
        afterThen, readsThen, .inl ⟨afterElse, isElse, elseBranch, rest, readsElse, rfl, rfl⟩⟩

theorem reads_initializerRule_iff {result : Option (Statement Unit)} :
    (initializerRule expression).Reads tokens result rest ↔
      (Takes .semicolon tokens rest ∧ result = none) ∨
      (∃ behind first, Takes (.keyword .varWord) tokens behind ∧
        (variableRule expression).Reads behind first rest ∧ result = some first) ∨
      (front tokens ≠ .semicolon ∧ front tokens ≠ .keyword .varWord ∧
        ∃ first, (expressionStatementRule expression).Reads tokens first rest ∧
          result = some first) := by
  unfold initializerRule
  simp (disch := decide) only [reads_accept_bind_iff, reads_map_iff, reads_pure_iff]
  constructor
  · rintro (⟨behind, closed, rfl, rfl⟩ | ⟨noMark, ⟨behind, word, first, reads, rfl⟩ | other⟩)
    · exact .inl ⟨closed, rfl⟩
    · exact .inr (.inl ⟨behind, first, word, reads, rfl⟩)
    · exact .inr (.inr ⟨noMark, other⟩)
  · rintro (⟨closed, rfl⟩ | ⟨behind, first, word, reads, rfl⟩ | ⟨noMark, other⟩)
    · exact .inl ⟨rest, closed, rfl, rfl⟩
    · exact .inr ⟨by rw [word.front_eq]; decide, .inl ⟨behind, word, first, reads, rfl⟩⟩
    · exact .inr ⟨noMark, .inr other⟩

theorem reads_forRule_iff :
    (forRule expression statement).Reads tokens value rest ↔
      ∃ opened initializer afterInitializer condition afterCondition behindCondition increment
          closing behind body,
        Takes .leftParen tokens opened ∧
        (initializerRule expression).Reads opened initializer afterInitializer ∧
        (optionalBefore .semicolon expression).Reads afterInitializer condition afterCondition ∧
        Takes .semicolon afterCondition behindCondition ∧
        (optionalBefore .rightParen expression).Reads behindCondition increment closing ∧
        Takes .rightParen closing behind ∧ statement.Reads behind body rest ∧
        value = loopOfClauses initializer condition increment body := by
  unfold forRule
  simp (disch := decide) only [reads_expectMark_bind_iff, @reads_bind_iff _ _ (initializerRule _),
    @reads_bind_iff _ _ (optionalBefore _ _), reads_map_iff]
  constructor
  · rintro ⟨opened, opening, initializer, afterInitializer, readsInitializer, condition,
      afterCondition, readsCondition, behindCondition, separated, increment, closing, readsIncrement,
      behind, closed, body, readsBody, rfl⟩
    exact ⟨opened, initializer, afterInitializer, condition, afterCondition, behindCondition,
      increment, closing, behind, body, opening, readsInitializer, readsCondition, separated,
      readsIncrement, closed, readsBody, rfl⟩
  · rintro ⟨opened, initializer, afterInitializer, condition, afterCondition, behindCondition,
      increment, closing, behind, body, opening, readsInitializer, readsCondition, separated,
      readsIncrement, closed, readsBody, rfl⟩
    exact ⟨opened, opening, initializer, afterInitializer, readsInitializer, condition,
      afterCondition, readsCondition, behindCondition, separated, increment, closing,
      readsIncrement, behind, closed, body, readsBody, rfl⟩

/-- Where the items of a block stop: in front of the closing brace, and at the end. -/
def atBlockEnd (tokens : List Token) : Bool :=
  (currentToken tokens).kind == .rightBrace || atEnd tokens

theorem reads_blockRule_iff {items : List (Statement Unit)} :
    (blockRule declaration bound).Reads tokens items rest ↔
      ∃ closing, (many declaration atBlockEnd bound).Reads tokens items closing ∧
        Takes .rightBrace closing rest := by
  unfold blockRule
  rw [reads_bind_iff]
  simp (disch := decide) only [reads_expectMark_pure_iff]
  constructor
  · rintro ⟨items, closing, readsItems, closed, rfl⟩
    exact ⟨closing, readsItems, closed⟩
  · rintro ⟨closing, readsItems, closed⟩
    exact ⟨items, closing, readsItems, closed, rfl⟩

theorem reads_functionRule_iff :
    (functionRule declaration bound).Reads tokens value rest ↔
      ∃ name afterName opened parameters closing afterParameters behind body,
        (nameRule .function).Reads tokens name afterName ∧ Takes .leftParen afterName opened ∧
        (list (nameRule .parameter) .tooManyParameters bound).Reads opened parameters closing ∧
        Takes .rightParen closing afterParameters ∧ Takes .leftBrace afterParameters behind ∧
        (blockRule declaration bound).Reads behind body rest ∧
        value = .function name parameters body := by
  unfold functionRule
  simp (disch := decide) only [@reads_bind_iff _ _ (nameRule _), @reads_bind_iff _ _ (list _ _ _),
    reads_expectMark_bind_iff, reads_map_iff]
  constructor
  · rintro ⟨name, afterName, readsName, opened, opening, parameters, closing, readsParameters,
      afterParameters, closed, behind, brace, body, readsBody, rfl⟩
    exact ⟨name, afterName, opened, parameters, closing, afterParameters, behind, body, readsName,
      opening, readsParameters, closed, brace, readsBody, rfl⟩
  · rintro ⟨name, afterName, opened, parameters, closing, afterParameters, behind, body, readsName,
      opening, readsParameters, closed, brace, readsBody, rfl⟩
    exact ⟨name, afterName, readsName, opened, opening, parameters, closing, readsParameters,
      afterParameters, closed, behind, brace, body, readsBody, rfl⟩

/-- The kinds of token that choose a rule for statements. -/
def statementMarks : List Token.Kind :=
  [.keyword .forWord, .keyword .ifWord, .keyword .printWord, .keyword .returnWord,
    .keyword .whileWord, .leftBrace]

/-- The rules for statements, each behind the token that chooses it. -/
inductive StatementReads (expression : Parser (Expression Unit)) (statement : Parser (Statement Unit))
    (declaration : Parser (Option (Statement Unit))) (bound : Nat) (tokens : List Token)
    (value : Statement Unit) (rest : List Token) : Prop where
  | threeClauses (behind) (word : Takes (.keyword .forWord) tokens behind)
      (rule : (forRule expression statement).Reads behind value rest)
  | conditional (behind) (word : Takes (.keyword .ifWord) tokens behind)
      (rule : (conditionalRule expression statement).Reads behind value rest)
  | print (behind) (word : Takes (.keyword .printWord) tokens behind)
      (rule : (printRule expression).Reads behind value rest)
  | returning (token : Token) (behind) (split : tokens = token :: behind)
      (word : token.kind = .keyword .returnWord)
      (rule : (returnRule expression token.line).Reads behind value rest)
  | loop (behind) (word : Takes (.keyword .whileWord) tokens behind)
      (rule : (whileRule expression statement).Reads behind value rest)
  | block (behind items) (brace : Takes .leftBrace tokens behind)
      (rule : (blockRule declaration bound).Reads behind items rest) (built : value = .block items)
  | expression (other : front tokens ∉ statementMarks)
      (rule : (expressionStatementRule expression).Reads tokens value rest)

theorem reads_statementRule_iff :
    (statementRule expression statement declaration bound).Reads tokens value rest ↔
      StatementReads expression statement declaration bound tokens value rest := by
  unfold statementRule
  simp (disch := decide) only [reads_accept_bind_iff, @reads_bind_iff _ _ (accept? _)]
  constructor
  · rintro (⟨behind, word, rule⟩ | ⟨noFor, ⟨behind, word, rule⟩ | ⟨noIf, ⟨behind, word, rule⟩ |
      ⟨noPrint, taken, between, asked, following⟩⟩⟩)
    · exact .threeClauses behind word rule
    · exact .conditional behind word rule
    · exact .print behind word rule
    · cases taken with
      | some token =>
          obtain ⟨rfl, isReturn⟩ := (reads_accept?_some_iff (by decide)).mp asked
          exact .returning token between rfl isReturn following
      | none =>
          obtain ⟨rfl, noReturn⟩ := (reads_accept?_none_iff (by decide)).mp asked
          rcases (reads_accept_bind_iff (by decide)).mp following with ⟨behind, word, rule⟩ | ⟨noWhile, rest⟩
          · exact .loop behind word rule
          · rcases (reads_accept_bind_iff (by decide)).mp rest with ⟨behind, brace, rule⟩ | ⟨noBrace, rule⟩
            · obtain ⟨items, readsItems, built⟩ := reads_map_iff.mp rule
              exact .block behind items brace readsItems built
            · refine .expression ?_ rule
              simp only [statementMarks, List.mem_cons, List.not_mem_nil, or_false, not_or]
              exact ⟨noFor, noIf, noPrint, noReturn, noWhile, noBrace⟩
  · intro reads
    have skip : ∀ {kind : Token.Kind} {behind}, Takes kind tokens behind → ∀ {other : Token.Kind},
        kind ≠ other → front tokens ≠ other := by
      intro kind behind taken other different
      rwa [taken.front_eq]
    cases reads with
    | threeClauses behind word rule => exact .inl ⟨behind, word, rule⟩
    | conditional behind word rule => exact .inr ⟨skip word (by decide), .inl ⟨behind, word, rule⟩⟩
    | print behind word rule =>
        exact .inr ⟨skip word (by decide), .inr ⟨skip word (by decide), .inl ⟨behind, word, rule⟩⟩⟩
    | returning token behind split isReturn rule =>
        have word : Takes (.keyword .returnWord) tokens behind := ⟨token, split, isReturn⟩
        refine .inr ⟨skip word (by decide), .inr ⟨skip word (by decide),
          .inr ⟨skip word (by decide), some token, behind, ?_, rule⟩⟩⟩
        exact (reads_accept?_some_iff (by decide)).mpr ⟨split, isReturn⟩
    | loop behind word rule =>
        refine .inr ⟨skip word (by decide), .inr ⟨skip word (by decide),
          .inr ⟨skip word (by decide), none, tokens, ?_, ?_⟩⟩⟩
        · exact (reads_accept?_none_iff (by decide)).mpr ⟨rfl, skip word (by decide)⟩
        · exact (reads_accept_bind_iff (by decide)).mpr (.inl ⟨behind, word, rule⟩)
    | block behind items brace rule built =>
        refine .inr ⟨skip brace (by decide), .inr ⟨skip brace (by decide),
          .inr ⟨skip brace (by decide), none, tokens, ?_, ?_⟩⟩⟩
        · exact (reads_accept?_none_iff (by decide)).mpr ⟨rfl, skip brace (by decide)⟩
        · refine (reads_accept_bind_iff (by decide)).mpr (.inr ⟨skip brace (by decide), ?_⟩)
          exact (reads_accept_bind_iff (by decide)).mpr
            (.inl ⟨behind, brace, reads_map_iff.mpr ⟨items, rule, built⟩⟩)
    | expression other rule =>
        simp only [statementMarks, List.mem_cons, List.not_mem_nil, or_false, not_or] at other
        obtain ⟨noFor, noIf, noPrint, noReturn, noWhile, noBrace⟩ := other
        refine .inr ⟨noFor, .inr ⟨noIf, .inr ⟨noPrint, none, tokens, ?_, ?_⟩⟩⟩
        · exact (reads_accept?_none_iff (by decide)).mpr ⟨rfl, noReturn⟩
        · exact (reads_accept_bind_iff (by decide)).mpr
            (.inr ⟨noWhile, (reads_accept_bind_iff (by decide)).mpr (.inr ⟨noBrace, rule⟩)⟩)

theorem reads_declarationRule_iff {plain : Parser (Statement Unit)} :
    (declarationRule expression plain declaration bound).Reads tokens value rest ↔
      (∃ behind, Takes (.keyword .funWord) tokens behind ∧
        (functionRule declaration bound).Reads behind value rest) ∨
      (∃ behind, Takes (.keyword .varWord) tokens behind ∧
        (variableRule expression).Reads behind value rest) ∨
      (front tokens ≠ .keyword .funWord ∧ front tokens ≠ .keyword .varWord ∧
        plain.Reads tokens value rest) := by
  unfold declarationRule
  simp (disch := decide) only [reads_accept_bind_iff]
  constructor
  · rintro (function | ⟨noFun, binding | ⟨noVar, other⟩⟩)
    · exact .inl function
    · exact .inr (.inl binding)
    · exact .inr (.inr ⟨noFun, noVar, other⟩)
  · rintro (function | ⟨behind, word, rule⟩ | ⟨noFun, noVar, other⟩)
    · exact .inl function
    · exact .inr ⟨by rw [word.front_eq]; decide, .inl ⟨behind, word, rule⟩⟩
    · exact .inr ⟨noFun, .inr ⟨noVar, other⟩⟩

end Statements

/-! ## The nesting of statements -/

section Nesting

variable {bound : Nat} {value : Statement Unit}

theorem reads_statement_iff :
    (statement (bound + 1)).Reads tokens value rest ↔
      StatementReads (expression (bound + 1)) (statement bound) (declaration bound) (bound + 1)
        tokens value rest :=
  reads_statementRule_iff

/-- At the bottom of the nesting nothing is read. -/
theorem not_reads_declaration_zero {result : Option (Statement Unit)} :
    ¬ (declaration 0).Reads tokens result rest := by
  intro reads
  obtain ⟨_, _, stuck⟩ := (reads_recovering_iff (regular_fail _)).mp reads
  exact not_reads_fail stuck

theorem reads_declaration_iff {result : Option (Statement Unit)} :
    (declaration (bound + 1)).Reads tokens result rest ↔
      ∃ value, result = some value ∧
        ((∃ behind, Takes (.keyword .funWord) tokens behind ∧
          (functionRule (declaration bound) (bound + 1)).Reads behind value rest) ∨
        (∃ behind, Takes (.keyword .varWord) tokens behind ∧
          (variableRule (expression (bound + 1))).Reads behind value rest) ∨
        (front tokens ≠ .keyword .funWord ∧ front tokens ≠ .keyword .varWord ∧
          (statement (bound + 1)).Reads tokens value rest)) := by
  have ⟨regularStatement, regularDeclaration⟩ := regular_statement_and_declaration bound
  have regular := regular_declarationRule regularStatement regularDeclaration
  refine (reads_recovering_iff regular).trans ?_
  exact exists_congr fun value => and_congr_right fun _ => reads_declarationRule_iff

end Nesting

/-- Reading without a mistake is reading all that the program parser reads. -/
theorem read_eq_iff {tokens : List Token} {statements : List (Statement Unit)} :
    read tokens = ⟨statements, []⟩ ↔
      ∃ rest, (program tokens.length).Reads tokens statements rest := by
  have reason := (regular_program tokens.length).explains tokens
  unfold read Reads
  cases reply : program tokens.length tokens with
  | mk value errors rest =>
      rw [reply] at reason
      cases value with
      | none =>
          have noted : errors ≠ [] := reason rfl
          simp [noted]
      | some value => simp

end LoxInterpreter.Grammar
