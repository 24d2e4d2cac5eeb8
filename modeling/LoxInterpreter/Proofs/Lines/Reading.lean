import LoxInterpreter.Proofs.Grammar.Completeness
import LoxInterpreter.Proofs.Grammar.Soundness
import LoxInterpreter.Proofs.Lines.Moving

/-!
Contract: what is read in front of the end is read alike in front of more.

A seam replaces the closing token of a list by more tokens, and moves the tokens in front of it to other
lines. A rule that reads without a mistake and stops in front of the closing token, or at least one token
earlier where it looks at what comes next, reads the same before the seam and after. Statements look one
token further only for an `else`, so it is enough that what goes on does not begin with one.

Owns: `Seam`, `Seam.Joins`, `Seam.Carries`, `Seam.declarations_joined`, `read_append`, and `read_moveLines`.
Does not own: the rules (`Proofs.Grammar.Rules`).
-/

namespace LoxInterpreter.Grammar

open LoxInterpreter.Grammar.Parser

/-- Where a token list goes on instead of ending, and on which lines. -/
structure Seam where
  move : Nat → Nat
  /-- The token that closes the list. -/
  last : Token
  /-- What the list goes on with. -/
  more : List Token
  isLast : last.kind = .endOfInput
  goesOn : more ≠ []
  noElse : front more ≠ .keyword .elseWord

namespace Seam

/-- Whether a token list is another one that goes on at a seam. -/
inductive Joins (seam : Seam) : List Token → List Token → Prop
  | here : Joins seam [seam.last] seam.more
  | behind {token : Token} {tokens joined : List Token} (inner : token.kind ≠ .endOfInput)
      (joins : Joins seam tokens joined) :
      Joins seam (token :: tokens) (token.moveLine seam.move :: joined)

variable {seam : Seam} {tokens joined rest : List Token}

theorem joins_append (seam : Seam) {body : List Token} (inner : ∀ token ∈ body, token.kind ≠ .endOfInput) :
    seam.Joins (body ++ [seam.last]) (body.map (·.moveLine seam.move) ++ seam.more) := by
  induction body with
  | nil => exact .here
  | cons token rest inductionHypothesis =>
      obtain ⟨innerToken, innerRest⟩ := List.forall_mem_cons.mp inner
      exact .behind innerToken (inductionHypothesis innerRest)

namespace Joins

theorem length_eq (joins : seam.Joins tokens joined) :
    joined.length + 1 = tokens.length + seam.more.length := by
  induction joins with
  | here => simp only [List.length_singleton]; omega
  | behind inner joins inductionHypothesis =>
      simp only [List.length_cons]
      omega

theorem length_pos (joins : seam.Joins tokens joined) : 0 < tokens.length := by
  cases joins <;> simp

theorem joined_pos (joins : seam.Joins tokens joined) : 0 < joined.length := by
  have same := joins.length_eq
  have pos := joins.length_pos
  have more := List.length_pos_iff.mpr seam.goesOn
  omega

/-- A token other than the closing one stands in front on both sides. -/
theorem cons {token : Token} (joins : seam.Joins (token :: rest) joined)
    (notEnd : token.kind ≠ .endOfInput) :
    ∃ joinedRest, joined = token.moveLine seam.move :: joinedRest ∧ seam.Joins rest joinedRest := by
  cases joins with
  | here => exact absurd seam.isLast notEnd
  | behind _ joins => exact ⟨_, rfl, joins⟩

theorem takes {kind : Token.Kind} (joins : seam.Joins tokens joined) (takes : Takes kind tokens rest)
    (notEnd : kind ≠ .endOfInput) :
    ∃ joinedRest, seam.Joins rest joinedRest ∧ Takes kind joined joinedRest := by
  obtain ⟨token, rfl, isKind⟩ := takes
  obtain ⟨joinedRest, rfl, behind⟩ := joins.cons (isKind ▸ notEnd)
  exact ⟨joinedRest, behind, _, rfl, isKind⟩

/-- Before the seam the front is the same on both sides. -/
theorem front_eq (joins : seam.Joins tokens joined) (inside : 1 < tokens.length) :
    front joined = front tokens := by
  cases joins with
  | here => exact absurd inside (Nat.lt_irrefl 1)
  | behind inner joins => rfl

/-- Only the closing token ends a list. -/
theorem at_end (joins : seam.Joins tokens joined) (ends : atEnd tokens = true) :
    tokens = [seam.last] ∧ joined = seam.more := by
  cases joins with
  | here => exact ⟨rfl, rfl⟩
  | behind inner joins => exact absurd (by simpa [atEnd, currentToken] using ends) inner

end Joins

/-! ## Rules that carry over -/

variable {α β : Type}

/-- Whether a parser, on token lists up to some lengths, reads on one side of a seam what it reads on
the other, where it stops before the seam. -/
def Carries (seam : Seam) (change : α → β) (limit limit' : Nat) (parser : Parser α)
    (parser' : Parser β) : Prop :=
  ∀ tokens joined value rest, seam.Joins tokens joined → tokens.length ≤ limit →
    joined.length ≤ limit' → parser.Reads tokens value rest →
    ∃ joinedRest, seam.Joins rest joinedRest ∧ rest.length < tokens.length ∧
      (1 < rest.length → parser'.Reads joined (change value) joinedRest)

/-- Whether a parser does so also where it stops at the seam. -/
def CarriesOver (seam : Seam) (change : α → β) (limit limit' : Nat) (parser : Parser α)
    (parser' : Parser β) : Prop :=
  ∀ tokens joined value rest, seam.Joins tokens joined → tokens.length ≤ limit →
    joined.length ≤ limit' → parser.Reads tokens value rest →
    ∃ joinedRest, seam.Joins rest joinedRest ∧ rest.length < tokens.length ∧
      parser'.Reads joined (change value) joinedRest

theorem CarriesOver.carries {change : α → β} {limit limit' : Nat} {parser : Parser α}
    {parser' : Parser β} (carries : seam.CarriesOver change limit limit' parser parser') :
    seam.Carries change limit limit' parser parser' := by
  intro tokens joined value rest joins short short' reads
  obtain ⟨joinedRest, behind, shorter, reads'⟩ := carries _ _ _ _ joins short short' reads
  exact ⟨joinedRest, behind, shorter, fun _ => reads'⟩

/-- A list on the other side is never empty, so there is nothing to carry over to lists of no length. -/
theorem carriesOver_zero {change : α → β} {parser : Parser α} {parser' : Parser β} :
    seam.CarriesOver change limit 0 parser parser' := by
  intro tokens joined value rest joins _ empty _
  have pos := joins.joined_pos
  omega

theorem Carries.mono {change : α → β} {limit limit' smaller smaller' : Nat} {parser : Parser α}
    {parser' : Parser β} (carries : seam.Carries change limit limit' parser parser')
    (le : smaller ≤ limit) (le' : smaller' ≤ limit') :
    seam.Carries change smaller smaller' parser parser' :=
  fun _ _ _ _ joins short short' => carries _ _ _ _ joins (Nat.le_trans short le) (Nat.le_trans short' le')

/-! ## Repetition -/

/-- Growing carries over where its steps do. -/
theorem carries_grow {change : α → β} {step : α → Parser (Option α)} {step' : β → Parser (Option β)}
    {limit limit' : Nat}
    (stops : ∀ value tokens joined rest, seam.Joins tokens joined → (step value).Reads tokens none rest →
      rest = tokens ∧ (1 < tokens.length → (step' (change value)).Reads joined none joined))
    (grows : ∀ value grown tokens joined rest, seam.Joins tokens joined → tokens.length ≤ limit →
      joined.length ≤ limit' → (step value).Reads tokens (some grown) rest →
      ∃ joinedRest, seam.Joins rest joinedRest ∧ rest.length < tokens.length ∧
        (1 < rest.length → (step' (change value)).Reads joined (some (change grown)) joinedRest))
    {bound : Nat} : ∀ (bound' : Nat) {value result : α} {tokens joined rest : List Token},
      seam.Joins tokens joined → tokens.length ≤ limit → joined.length ≤ limit' →
      tokens.length ≤ bound → joined.length ≤ bound' →
      (grow step bound value).Reads tokens result rest →
      ∃ joinedRest, seam.Joins rest joinedRest ∧ rest.length ≤ tokens.length ∧
        (1 < rest.length → (grow step' bound' (change value)).Reads joined (change result) joinedRest) := by
  induction bound with
  | zero =>
      intro bound' value result tokens joined rest joins _ _ enough _ _
      have pos := joins.length_pos
      omega
  | succ bound inductionHypothesis =>
      intro bound' value result tokens joined rest joins short short' enough enough' reads
      cases bound' with
      | zero =>
          have pos := joins.joined_pos
          omega
      | succ bound' =>
          rcases reads_grow_iff.mp reads with ⟨stopped, rfl⟩ | ⟨grown, between, one, following⟩
          · obtain ⟨rfl, stopped'⟩ := stops _ _ _ _ joins stopped
            exact ⟨joined, joins, Nat.le_refl _, fun inside => reads_grow_iff.mpr (.inl ⟨stopped' inside, rfl⟩)⟩
          · obtain ⟨joinedBetween, joinsBetween, shorter, one'⟩ := grows _ _ _ _ _ joins short short' one
            have same := joins.length_eq
            have sameBetween := joinsBetween.length_eq
            obtain ⟨joinedRest, joinsRest, behind, following'⟩ := inductionHypothesis bound' joinsBetween
              (by omega) (by omega) (by omega) (by omega) following
            refine ⟨joinedRest, joinsRest, by omega, fun inside => reads_grow_iff.mpr (.inr ?_)⟩
            exact ⟨change grown, joinedBetween, one' (by omega), following' inside⟩

/-- Lists of items carry over where the items do. -/
theorem carries_commaSeparated {change : α → β} {item : Parser α} {item' : Parser β}
    {excess : SyntaxError.Cause} {limit limit' : Nat} (carries : seam.Carries change limit limit' item item')
    {bound : Nat} : ∀ {bound' count : Nat} {items : List α} {tokens joined rest : List Token},
      seam.Joins tokens joined → tokens.length ≤ limit → joined.length ≤ limit' →
      tokens.length ≤ bound → joined.length ≤ bound' →
      (commaSeparated item excess bound count).Reads tokens items rest →
      ∃ joinedRest, seam.Joins rest joinedRest ∧ rest.length < tokens.length ∧ (1 < rest.length →
        (commaSeparated item' excess bound' count).Reads joined (items.map change) joinedRest) := by
  induction bound with
  | zero =>
      intro bound' count items tokens joined rest joins _ _ enough _ _
      have pos := joins.length_pos
      omega
  | succ bound inductionHypothesis =>
      intro bound' count items tokens joined rest joins short short' enough enough' reads
      cases bound' with
      | zero =>
          have pos := joins.joined_pos
          omega
      | succ bound' =>
          obtain ⟨within, first, between, one, following⟩ := reads_commaSeparated_iff.mp reads
          obtain ⟨joinedBetween, joinsBetween, shorter, one'⟩ := carries _ _ _ _ joins short short' one
          have same := joins.length_eq
          have sameBetween := joinsBetween.length_eq
          rcases following with ⟨noComma, rfl, rfl⟩ | ⟨others, later, comma, followed, rfl⟩
          · refine ⟨joinedBetween, joinsBetween, shorter, fun inside => reads_commaSeparated_iff.mpr ?_⟩
            refine ⟨within, change first, joinedBetween, one' inside, .inl ⟨?_, rfl, rfl⟩⟩
            rwa [joinsBetween.front_eq inside]
          · obtain ⟨joinedOthers, joinsOthers, comma'⟩ := joinsBetween.takes comma (by decide)
            have sameOthers := joinsOthers.length_eq
            have taken := comma.length_eq
            obtain ⟨joinedRest, joinsRest, behind, followed'⟩ := inductionHypothesis joinsOthers
              (by omega) (by omega) (by omega) (show joinedOthers.length ≤ bound' by omega) followed
            refine ⟨joinedRest, joinsRest, by omega, fun inside => reads_commaSeparated_iff.mpr ?_⟩
            exact ⟨within, change first, joinedBetween, one' (by omega),
              .inr ⟨joinedOthers, later.map change, comma', followed' inside, rfl⟩⟩

theorem carries_list {change : α → β} {item : Parser α} {item' : Parser β} {excess : SyntaxError.Cause}
    {limit limit' bound : Nat} (bound' : Nat) (carries : seam.Carries change limit limit' item item')
    {items : List α} (joins : seam.Joins tokens joined) (short : tokens.length ≤ limit)
    (short' : joined.length ≤ limit') (enough : tokens.length ≤ bound) (enough' : joined.length ≤ bound')
    (reads : (Parser.list item excess bound).Reads tokens items rest) :
    ∃ joinedRest, seam.Joins rest joinedRest ∧ rest.length ≤ tokens.length ∧ (1 < rest.length →
      (Parser.list item' excess bound').Reads joined (items.map change) joinedRest) := by
  rcases reads_list_iff.mp reads with ⟨closes, rfl, rfl⟩ | ⟨opens, separated⟩
  · refine ⟨joined, joins, Nat.le_refl _, fun inside => reads_list_iff.mpr (.inl ⟨?_, rfl, rfl⟩)⟩
    rwa [joins.front_eq inside]
  · obtain ⟨joinedRest, joinsRest, shorter, separated'⟩ :=
      carries_commaSeparated carries joins short short' enough enough' separated
    refine ⟨joinedRest, joinsRest, Nat.le_of_lt shorter, fun inside => reads_list_iff.mpr (.inr ⟨?_, separated' inside⟩)⟩
    rwa [joins.front_eq (by omega)]

/-! ## Expressions -/

theorem atom?_moveLine {move : Nat → Nat} {token : Token} {value : Expression Unit}
    (atom : atom? token = some value) : atom? (token.moveLine move) = some (value.moveLines move) := by
  unfold atom? at atom ⊢
  rw [Token.kind_moveLine]
  split at atom <;> cases atom <;> rfl

theorem build?_moveLine (move : Nat → Nat) {level : Level} {token : Token}
    {build : Expression Unit → Expression Unit → Expression Unit} (built : level.build? token = some build) :
    ∃ build', level.build? (token.moveLine move) = some build' ∧
      ∀ left right, build' (left.moveLines move) (right.moveLines move) = (build left right).moveLines move := by
  rcases Level.build?_eq_some_iff.mp built with ⟨operator, onLevel, isKind, rfl⟩ |
    ⟨operator, onLevel, isKind, rfl⟩
  · exact ⟨_, Level.build?_eq_some_iff.mpr (.inl ⟨operator, onLevel, isKind, rfl⟩), fun _ _ => rfl⟩
  · exact ⟨_, Level.build?_eq_some_iff.mpr (.inr ⟨operator, onLevel, isKind, rfl⟩), fun _ _ => rfl⟩

section Expressions

variable {limit limit' : Nat} {nested nested' nestedUnary nestedUnary' operand operand' :
  Parser (Expression Unit)}

theorem carries_primaryRule (carries : seam.Carries (·.moveLines seam.move) limit limit' nested nested') :
    seam.Carries (·.moveLines seam.move) (limit + 1) (limit' + 1) (primaryRule nested)
      (primaryRule nested') := by
  intro tokens joined value rest joins short short' reads
  rcases reads_primaryRule_iff.mp reads with ⟨token, rfl, isAtom⟩ |
    ⟨opened, inner, closing, opening, readsInner, closed, rfl⟩
  · obtain ⟨joinedRest, rfl, behind⟩ := joins.cons (kind_ne_of_atom? isAtom)
    refine ⟨joinedRest, behind, Nat.lt_succ_self _, fun _ => reads_primaryRule_iff.mpr (.inl ?_)⟩
    exact ⟨_, rfl, atom?_moveLine isAtom⟩
  · obtain ⟨opened', joinsOpened, opening'⟩ := joins.takes opening (by decide)
    have isOpening := opening.length_eq
    have isOpening' := opening'.length_eq
    obtain ⟨closing', joinsClosing, shorter, readsInner'⟩ :=
      carries _ _ _ _ joinsOpened (by omega) (by omega) readsInner
    obtain ⟨joinedRest, joinsRest, closed'⟩ := joinsClosing.takes closed (by decide)
    have isClosing := closed.length_eq
    have pos := joinsRest.length_pos
    refine ⟨joinedRest, joinsRest, by omega, fun _ => reads_primaryRule_iff.mpr (.inr ?_)⟩
    exact ⟨opened', _, closing', opening', readsInner' (by omega), closed', rfl⟩

theorem carries_callRule (carries : seam.Carries (·.moveLines seam.move) limit limit' nested nested') :
    seam.Carries (·.moveLines seam.move) (limit + 1) (limit' + 1) (callRule nested (limit + 1))
      (callRule nested' (limit' + 1)) := by
  intro tokens joined value rest joins short short' reads
  obtain ⟨callee, between, readsCallee, grows⟩ := reads_callRule_iff.mp reads
  obtain ⟨joinedBetween, joinsBetween, shorter, readsCallee'⟩ :=
    carries_primaryRule carries _ _ _ _ joins short short' readsCallee
  have same := joins.length_eq
  have sameBetween := joinsBetween.length_eq
  have stops (value : Expression Unit) (tokens joined rest : List Token) (joins : seam.Joins tokens joined)
      (stopped : (callStep nested (limit + 1) value).Reads tokens none rest) :
      rest = tokens ∧ (1 < tokens.length →
        (callStep nested' (limit' + 1) (value.moveLines seam.move)).Reads joined none joined) := by
    obtain ⟨rfl, noCall⟩ := reads_callStep_none_iff.mp stopped
    refine ⟨rfl, fun inside => reads_callStep_none_iff.mpr ⟨rfl, ?_⟩⟩
    rwa [joins.front_eq inside]
  have goesOn (value grown : Expression Unit) (tokens joined rest : List Token)
      (joins : seam.Joins tokens joined) (short : tokens.length ≤ limit + 1)
      (short' : joined.length ≤ limit' + 1)
      (one : (callStep nested (limit + 1) value).Reads tokens (some grown) rest) :
      ∃ joinedRest, seam.Joins rest joinedRest ∧ rest.length < tokens.length ∧ (1 < rest.length →
        (callStep nested' (limit' + 1) (value.moveLines seam.move)).Reads joined
          (some (grown.moveLines seam.move)) joinedRest) := by
    obtain ⟨opened, arguments, closing, opening, readsArguments, isClosing, rfl⟩ :=
      reads_callStep_some_iff.mp one
    obtain ⟨opened', joinsOpened, opening'⟩ := joins.takes opening (by decide)
    have isOpening := opening.length_eq
    have isOpening' := opening'.length_eq
    obtain ⟨closed', joinsClosed, shorter, readsArguments'⟩ := carries_list (limit' + 1) carries
      joinsOpened (by omega) (by omega) (by omega) (by omega) readsArguments
    obtain ⟨joinedRest, rfl, joinsRest⟩ := joinsClosed.cons (by rw [isClosing]; decide)
    have pos := joinsRest.length_pos
    rw [List.length_cons] at shorter readsArguments'
    refine ⟨joinedRest, joinsRest, by omega, fun _ => reads_callStep_some_iff.mpr ?_⟩
    refine ⟨opened', _, closing.moveLine seam.move, opening', readsArguments' (by omega), isClosing, ?_⟩
    rw [Expression.moveLines, Expression.listMoveLines_eq_map]
    rfl
  obtain ⟨joinedRest, joinsRest, behind, grows'⟩ := carries_grow stops goesOn (limit' + 1)
    joinsBetween (by omega) (by omega) (by omega) (by omega) grows
  refine ⟨joinedRest, joinsRest, by omega, fun inside => reads_callRule_iff.mpr ?_⟩
  exact ⟨_, joinedBetween, readsCallee' (by omega), grows' inside⟩

theorem carries_unaryRule
    (carriesUnary : seam.Carries (·.moveLines seam.move) limit limit' nestedUnary nestedUnary')
    (carries : seam.Carries (·.moveLines seam.move) limit limit' nested nested') :
    seam.Carries (·.moveLines seam.move) (limit + 1) (limit' + 1)
      (unaryRule nestedUnary nested (limit + 1)) (unaryRule nestedUnary' nested' (limit' + 1)) := by
  intro tokens joined value rest joins short short' reads
  rcases reads_unaryRule_iff.mp reads with
    ⟨token, behind, operator, operand, rfl, isKind, readsOperand, rfl⟩ | ⟨noOperator, calls⟩
  · obtain ⟨joinedBehind, rfl, joinsBehind⟩ := joins.cons (by rw [isKind]; cases operator <;> decide)
    rw [List.length_cons] at short short'
    obtain ⟨joinedRest, joinsRest, shorter, readsOperand'⟩ :=
      carriesUnary _ _ _ _ joinsBehind (by omega) (by omega) readsOperand
    refine ⟨joinedRest, joinsRest, by rw [List.length_cons]; omega, fun inside => ?_⟩
    exact reads_unaryRule_iff.mpr (.inl ⟨_, joinedBehind, operator, _, rfl, isKind, readsOperand' inside, rfl⟩)
  · obtain ⟨joinedRest, joinsRest, shorter, calls'⟩ := carries_callRule carries _ _ _ _ joins short short' calls
    refine ⟨joinedRest, joinsRest, shorter, fun inside => reads_unaryRule_iff.mpr (.inr ⟨?_, calls' inside⟩)⟩
    rwa [joins.front_eq (by omega)]

theorem carries_operatorsRule {bound bound' : Nat} (enough : limit ≤ bound) (enough' : limit' ≤ bound')
    (carries : seam.Carries (·.moveLines seam.move) limit limit' operand operand') (levels : List Level) :
    seam.Carries (·.moveLines seam.move) limit limit' (operatorsRule operand bound levels)
      (operatorsRule operand' bound' levels) := by
  induction levels with
  | nil => exact carries
  | cons level tighter inductionHypothesis =>
      intro tokens joined value rest joins short short' reads
      obtain ⟨left, between, readsLeft, grows⟩ := reads_operatorsRule_cons_iff.mp reads
      obtain ⟨joinedBetween, joinsBetween, shorter, readsLeft'⟩ :=
        inductionHypothesis _ _ _ _ joins short short' readsLeft
      have same := joins.length_eq
      have sameBetween := joinsBetween.length_eq
      have stops (value : Expression Unit) (tokens joined rest : List Token)
          (joins : seam.Joins tokens joined)
          (stopped : (operatorStep level (operatorsRule operand bound tighter) value).Reads tokens none
            rest) : rest = tokens ∧ (1 < tokens.length →
            (operatorStep level (operatorsRule operand' bound' tighter)
              (value.moveLines seam.move)).Reads joined none joined) := by
        obtain ⟨rfl, noOperator⟩ := reads_operatorStep_none_iff.mp stopped
        refine ⟨rfl, fun inside => reads_operatorStep_none_iff.mpr ⟨rfl, ?_⟩⟩
        rwa [joins.front_eq inside]
      have goesOn (value grown : Expression Unit) (tokens joined rest : List Token)
          (joins : seam.Joins tokens joined) (short : tokens.length ≤ limit)
          (short' : joined.length ≤ limit')
          (one : (operatorStep level (operatorsRule operand bound tighter) value).Reads tokens
            (some grown) rest) :
          ∃ joinedRest, seam.Joins rest joinedRest ∧ rest.length < tokens.length ∧ (1 < rest.length →
            (operatorStep level (operatorsRule operand' bound' tighter)
              (value.moveLines seam.move)).Reads joined (some (grown.moveLines seam.move)) joinedRest) := by
        obtain ⟨token, behind, build, right, rfl, built, readsRight, rfl⟩ :=
          reads_operatorStep_some_iff.mp one
        have hasKind := Level.build?_isSome_iff.mp (by simp [built] : (level.build? token).isSome = true)
        obtain ⟨joinedBehind, rfl, joinsBehind⟩ := joins.cons hasKind.ne_endOfInput
        rw [List.length_cons] at short short'
        obtain ⟨joinedRest, joinsRest, shorter, readsRight'⟩ :=
          inductionHypothesis _ _ _ _ joinsBehind (by omega) (by omega) readsRight
        obtain ⟨build', built', agree⟩ := build?_moveLine seam.move built
        refine ⟨joinedRest, joinsRest, by rw [List.length_cons]; omega, fun inside => ?_⟩
        exact reads_operatorStep_some_iff.mpr
          ⟨_, joinedBehind, build', _, rfl, built', readsRight' inside, (agree value right).symm⟩
      obtain ⟨joinedRest, joinsRest, behind, grows'⟩ := carries_grow stops goesOn bound'
        joinsBetween (by omega) (by omega) (by omega) (by omega) grows
      refine ⟨joinedRest, joinsRest, by omega, fun inside => reads_operatorsRule_cons_iff.mpr ?_⟩
      exact ⟨_, joinedBetween, readsLeft' (by omega), grows' inside⟩

theorem carries_assignmentRule
    (carriesOperand : seam.Carries (·.moveLines seam.move) (limit + 1) (limit' + 1) operand operand')
    (carries : seam.Carries (·.moveLines seam.move) limit limit' nested nested') :
    seam.Carries (·.moveLines seam.move) (limit + 1) (limit' + 1)
      (assignmentRule operand nested (limit + 1)) (assignmentRule operand' nested' (limit' + 1)) := by
  have levels := carries_operatorsRule (Nat.le_refl _) (Nat.le_refl _) carriesOperand Level.all
  intro tokens joined value rest joins short short' reads
  rcases reads_assignmentRule_iff.mp reads with ⟨readsTarget, noEqual⟩ |
    ⟨name, between, behind, assigned, readsTarget, equals, readsValue, rfl⟩
  · obtain ⟨joinedRest, joinsRest, shorter, readsTarget'⟩ := levels _ _ _ _ joins short short' readsTarget
    refine ⟨joinedRest, joinsRest, shorter, fun inside => reads_assignmentRule_iff.mpr (.inl ?_)⟩
    refine ⟨readsTarget' inside, ?_⟩
    rwa [joinsRest.front_eq inside]
  · obtain ⟨joinedBetween, joinsBetween, shorter, readsTarget'⟩ :=
      levels _ _ _ _ joins short short' readsTarget
    obtain ⟨joinedBehind, joinsBehind, equals'⟩ := joinsBetween.takes equals (by decide)
    have same := joins.length_eq
    have sameBehind := joinsBehind.length_eq
    have isEquals := equals.length_eq
    obtain ⟨joinedRest, joinsRest, shorterRest, readsValue'⟩ :=
      carries _ _ _ _ joinsBehind (by omega) (by omega) readsValue
    refine ⟨joinedRest, joinsRest, by omega, fun inside => reads_assignmentRule_iff.mpr (.inr ?_)⟩
    exact ⟨_, joinedBetween, joinedBehind, _, readsTarget' (by omega), equals', readsValue' inside, rfl⟩

/-- Expressions carry over, whatever bounds are met on neither side. -/
theorem carries_unary_and_expression (limit limit' : Nat) :
    seam.Carries (·.moveLines seam.move) limit limit' (unary limit) (unary limit') ∧
      seam.Carries (·.moveLines seam.move) limit limit' (expression limit) (expression limit') := by
  induction limit generalizing limit' with
  | zero =>
      exact ⟨fun _ _ _ _ _ _ _ reads => absurd reads not_reads_fail,
        fun _ _ _ _ _ _ _ reads => absurd reads not_reads_fail⟩
  | succ limit inductionHypothesis =>
      cases limit' with
      | zero => exact ⟨carriesOver_zero.carries, carriesOver_zero.carries⟩
      | succ limit' =>
          have ⟨carriesUnary, carries⟩ := inductionHypothesis limit'
          have operands := carries_unaryRule carriesUnary carries
          exact ⟨operands, carries_assignmentRule operands carries⟩

end Expressions

/-! ## Parts of statements -/

variable {limit limit' : Nat} {expression expression' : Parser (Expression Unit)}
  {statement statement' : Parser (Statement Unit)}
  {declaration declaration' : Parser (Option (Statement Unit))}

/-- What is read in front of a mark, with the mark. -/
theorem Carries.marked {change : α → β} {parser : Parser α} {parser' : Parser β}
    (carries : seam.Carries change limit limit' parser parser') {mark : Token.Kind}
    (notEnd : mark ≠ .endOfInput) {value : α} {closing : List Token} (joins : seam.Joins tokens joined)
    (short : tokens.length ≤ limit) (short' : joined.length ≤ limit')
    (reads : parser.Reads tokens value closing) (closed : Takes mark closing rest) :
    ∃ closing' joinedRest, parser'.Reads joined (change value) closing' ∧
      Takes mark closing' joinedRest ∧ seam.Joins rest joinedRest ∧ rest.length < tokens.length := by
  obtain ⟨closing', joinsClosing, shorter, reads'⟩ := carries _ _ _ _ joins short short' reads
  obtain ⟨joinedRest, joinsRest, closed'⟩ := joinsClosing.takes closed notEnd
  have isClosing := closed.length_eq
  have pos := joinsRest.length_pos
  exact ⟨closing', joinedRest, reads' (by omega), closed', joinsRest, by omega⟩

/-- What may be missing in front of a mark, with the mark. -/
theorem carries_optionalBefore
    (carries : seam.Carries (·.moveLines seam.move) limit limit' expression expression')
    {mark : Token.Kind} (notEnd : mark ≠ .endOfInput) {value : Option (Expression Unit)}
    {closing : List Token} (joins : seam.Joins tokens joined) (short : tokens.length ≤ limit)
    (short' : joined.length ≤ limit') (reads : (optionalBefore mark expression).Reads tokens value closing)
    (closed : Takes mark closing rest) :
    ∃ closing' joinedRest,
      (optionalBefore mark expression').Reads joined (value.map (·.moveLines seam.move)) closing' ∧
      Takes mark closing' joinedRest ∧ seam.Joins rest joinedRest ∧ rest.length < tokens.length := by
  rcases reads_optionalBefore_iff.mp reads with ⟨isMark, rfl, rfl⟩ | ⟨noMark, inner, readsInner, rfl⟩
  · obtain ⟨joinedRest, joinsRest, closed'⟩ := joins.takes closed notEnd
    have isClosing := closed.length_eq
    refine ⟨joined, joinedRest, reads_optionalBefore_iff.mpr (.inl ⟨closed'.front_eq, rfl, rfl⟩), closed',
      joinsRest, by omega⟩
  · obtain ⟨closing', joinedRest, readsInner', closed', joinsRest, shorter⟩ :=
      carries.marked notEnd joins short short' readsInner closed
    have pos := joinsRest.length_pos
    refine ⟨closing', joinedRest, reads_optionalBefore_iff.mpr (.inr ⟨?_, _, readsInner', rfl⟩), closed',
      joinsRest, shorter⟩
    rwa [joins.front_eq (by omega)]

/-- What is read behind the word that chooses it, with the word. -/
theorem CarriesOver.behindWord {change : α → β} {parser : Parser α} {parser' : Parser β}
    (carries : seam.CarriesOver change limit limit' parser parser') {word : Token.Kind}
    (notEnd : word ≠ .endOfInput) {value : α} {behind : List Token} (joins : seam.Joins tokens joined)
    (short : tokens.length ≤ limit + 1) (short' : joined.length ≤ limit' + 1)
    (taken : Takes word tokens behind) (reads : parser.Reads behind value rest) :
    ∃ behind' joinedRest, Takes word joined behind' ∧ parser'.Reads behind' (change value) joinedRest ∧
      seam.Joins rest joinedRest ∧ rest.length < tokens.length := by
  obtain ⟨behind', joinsBehind, taken'⟩ := joins.takes taken notEnd
  have isTaken := taken.length_eq
  have isTaken' := taken'.length_eq
  obtain ⟨joinedRest, joinsRest, shorter, reads'⟩ :=
    carries _ _ _ _ joinsBehind (by omega) (by omega) reads
  exact ⟨behind', joinedRest, taken', reads', joinsRest, by omega⟩

theorem carries_nameRule (role : NameRole) :
    seam.CarriesOver (·.moveLine seam.move) limit limit' (nameRule role) (nameRule role) := by
  intro tokens joined name rest joins _ _ reads
  obtain ⟨token, rfl, isName, rfl⟩ := reads_nameRule_iff.mp reads
  obtain ⟨joinedRest, rfl, joinsRest⟩ := joins.cons (by rw [isName]; decide)
  exact ⟨joinedRest, joinsRest, Nat.lt_succ_self _, reads_nameRule_iff.mpr ⟨_, rfl, isName, rfl⟩⟩

/-- What does not go on with an `else` does not do so at the seam. -/
theorem Joins.front_ne_else (joins : seam.Joins tokens joined)
    (noElse : front tokens ≠ .keyword .elseWord) : front joined ≠ .keyword .elseWord := by
  cases joins with
  | here => exact seam.noElse
  | behind inner joins => exact noElse

/-! ## Statements -/

section Statements

variable (carries : seam.Carries (·.moveLines seam.move) limit limit' expression expression')

include carries

theorem carries_expressionStatementRule :
    seam.CarriesOver (·.moveLines seam.move) limit limit' (expressionStatementRule expression)
      (expressionStatementRule expression') := by
  intro tokens joined value rest joins short short' reads
  obtain ⟨inner, closing, readsInner, closed, rfl⟩ := reads_expressionStatementRule_iff.mp reads
  obtain ⟨closing', joinedRest, readsInner', closed', joinsRest, shorter⟩ :=
    carries.marked (by decide) joins short short' readsInner closed
  refine ⟨joinedRest, joinsRest, shorter, reads_expressionStatementRule_iff.mpr ?_⟩
  exact ⟨_, closing', readsInner', closed', rfl⟩

theorem carries_printRule :
    seam.CarriesOver (·.moveLines seam.move) limit limit' (printRule expression)
      (printRule expression') := by
  intro tokens joined value rest joins short short' reads
  obtain ⟨inner, closing, readsInner, closed, rfl⟩ := reads_printRule_iff.mp reads
  obtain ⟨closing', joinedRest, readsInner', closed', joinsRest, shorter⟩ :=
    carries.marked (by decide) joins short short' readsInner closed
  exact ⟨joinedRest, joinsRest, shorter, reads_printRule_iff.mpr ⟨_, closing', readsInner', closed', rfl⟩⟩

theorem carries_returnRule (line : Nat) :
    seam.CarriesOver (·.moveLines seam.move) limit limit' (returnRule expression line)
      (returnRule expression' (seam.move line)) := by
  intro tokens joined value rest joins short short' reads
  obtain ⟨result, closing, readsResult, closed, rfl⟩ := reads_returnRule_iff.mp reads
  obtain ⟨closing', joinedRest, readsResult', closed', joinsRest, shorter⟩ :=
    carries_optionalBefore carries (by decide) joins short short' readsResult closed
  exact ⟨joinedRest, joinsRest, shorter, reads_returnRule_iff.mpr ⟨_, closing', readsResult', closed', rfl⟩⟩

theorem carries_variableRule :
    seam.CarriesOver (·.moveLines seam.move) limit limit' (variableRule expression)
      (variableRule expression') := by
  intro tokens joined value rest joins short short' reads
  obtain ⟨name, afterName, readsName, declared⟩ := reads_variableRule_iff.mp reads
  obtain ⟨afterName', joinsName, shorterName, readsName'⟩ :=
    carries_nameRule .variable _ _ _ _ joins short short' readsName
  have same := joins.length_eq
  rcases declared with ⟨closed, rfl⟩ | ⟨behind, initializer, closing, equals, readsInitializer, closed, rfl⟩
  · obtain ⟨joinedRest, joinsRest, closed'⟩ := joinsName.takes closed (by decide)
    have isClosing := closed.length_eq
    refine ⟨joinedRest, joinsRest, by omega, reads_variableRule_iff.mpr ?_⟩
    exact ⟨_, afterName', readsName', .inl ⟨closed', rfl⟩⟩
  · obtain ⟨behind', joinsBehind, equals'⟩ := joinsName.takes equals (by decide)
    have isEquals := equals.length_eq
    have sameBehind := joinsBehind.length_eq
    obtain ⟨closing', joinedRest, readsInitializer', closed', joinsRest, shorter⟩ :=
      carries.marked (by decide) joinsBehind (by omega) (by omega) readsInitializer closed
    refine ⟨joinedRest, joinsRest, by omega, reads_variableRule_iff.mpr ?_⟩
    exact ⟨_, afterName', readsName', .inr ⟨behind', _, closing', equals', readsInitializer', closed', rfl⟩⟩

/-- A condition in parentheses, behind the word that it belongs to. -/
theorem carries_condition {opened closing : List Token} {condition : Expression Unit}
    (joins : seam.Joins tokens joined) (short : tokens.length ≤ limit) (short' : joined.length ≤ limit')
    (opening : Takes .leftParen tokens opened) (reads : expression.Reads opened condition closing)
    (closed : Takes .rightParen closing rest) :
    ∃ opened' closing' joinedRest, Takes .leftParen joined opened' ∧
      expression'.Reads opened' (condition.moveLines seam.move) closing' ∧
      Takes .rightParen closing' joinedRest ∧ seam.Joins rest joinedRest ∧
      rest.length < tokens.length := by
  obtain ⟨opened', joinsOpened, opening'⟩ := joins.takes opening (by decide)
  have isOpening := opening.length_eq
  have isOpening' := opening'.length_eq
  obtain ⟨closing', joinedRest, reads', closed', joinsRest, shorter⟩ :=
    carries.marked (by decide) joinsOpened (by omega) (by omega) reads closed
  exact ⟨opened', closing', joinedRest, opening', reads', closed', joinsRest, by omega⟩

section Nested

variable (carriesStatement : seam.CarriesOver (·.moveLines seam.move) limit limit' statement statement')

include carriesStatement

theorem carries_whileRule :
    seam.CarriesOver (·.moveLines seam.move) limit limit' (whileRule expression statement)
      (whileRule expression' statement') := by
  intro tokens joined value rest joins short short' reads
  obtain ⟨opened, condition, closing, behind, body, opening, readsCondition, closed, readsBody, rfl⟩ :=
    reads_whileRule_iff.mp reads
  obtain ⟨opened', closing', behind', opening', readsCondition', closed', joinsBehind, shorter⟩ :=
    carries_condition carries joins short short' opening readsCondition closed
  have same := joins.length_eq
  have sameBehind := joinsBehind.length_eq
  obtain ⟨joinedRest, joinsRest, shorterRest, readsBody'⟩ :=
    carriesStatement _ _ _ _ joinsBehind (by omega) (by omega) readsBody
  refine ⟨joinedRest, joinsRest, by omega, reads_whileRule_iff.mpr ?_⟩
  exact ⟨opened', _, closing', behind', _, opening', readsCondition', closed', readsBody', rfl⟩

theorem carries_conditionalRule :
    seam.CarriesOver (·.moveLines seam.move) limit limit' (conditionalRule expression statement)
      (conditionalRule expression' statement') := by
  intro tokens joined value rest joins short short' reads
  obtain ⟨opened, condition, closing, behind, thenBranch, afterThen, opening, readsCondition, closed,
    readsThen, branches⟩ := reads_conditionalRule_iff.mp reads
  obtain ⟨opened', closing', behind', opening', readsCondition', closed', joinsBehind, shorter⟩ :=
    carries_condition carries joins short short' opening readsCondition closed
  have same := joins.length_eq
  have sameBehind := joinsBehind.length_eq
  obtain ⟨afterThen', joinsThen, shorterThen, readsThen'⟩ :=
    carriesStatement _ _ _ _ joinsBehind (by omega) (by omega) readsThen
  rcases branches with ⟨noElse, rfl, rfl⟩ | ⟨afterElse, elseBranch, isElse, readsElse, rfl⟩
  · refine ⟨afterThen', joinsThen, by omega, reads_conditionalRule_iff.mpr ?_⟩
    exact ⟨opened', _, closing', behind', _, afterThen', opening', readsCondition', closed', readsThen',
      .inl ⟨joinsThen.front_ne_else noElse, rfl, rfl⟩⟩
  · have sameThen := joinsThen.length_eq
    obtain ⟨afterElse', joinedRest, isElse', readsElse', joinsRest, shorterRest⟩ :=
      carriesStatement.behindWord (by decide) joinsThen (by omega) (by omega) isElse readsElse
    refine ⟨joinedRest, joinsRest, by omega, reads_conditionalRule_iff.mpr ?_⟩
    exact ⟨opened', _, closing', behind', _, afterThen', opening', readsCondition', closed', readsThen',
      .inr ⟨afterElse', _, isElse', readsElse', rfl⟩⟩

omit carriesStatement in
theorem carries_initializerRule :
    seam.CarriesOver (Option.map (·.moveLines seam.move)) limit limit' (initializerRule expression)
      (initializerRule expression') := by
  intro tokens joined value rest joins short short' reads
  rcases reads_initializerRule_iff.mp reads with ⟨closed, rfl⟩ | ⟨behind, first, word, readsFirst, rfl⟩ |
    ⟨noMark, noWord, first, readsFirst, rfl⟩
  · obtain ⟨joinedRest, joinsRest, closed'⟩ := joins.takes closed (by decide)
    have isClosing := closed.length_eq
    exact ⟨joinedRest, joinsRest, by omega, reads_initializerRule_iff.mpr (.inl ⟨closed', rfl⟩)⟩
  · obtain ⟨behind', joinedRest, word', readsFirst', joinsRest, shorter⟩ :=
      (carries_variableRule carries).behindWord (by decide) joins (by omega) (by omega) word readsFirst
    refine ⟨joinedRest, joinsRest, shorter, reads_initializerRule_iff.mpr (.inr (.inl ?_))⟩
    exact ⟨behind', _, word', readsFirst', rfl⟩
  · obtain ⟨joinedRest, joinsRest, shorter, readsFirst'⟩ :=
      carries_expressionStatementRule carries _ _ _ _ joins short short' readsFirst
    have pos := joinsRest.length_pos
    refine ⟨joinedRest, joinsRest, shorter, reads_initializerRule_iff.mpr (.inr (.inr ?_))⟩
    rw [joins.front_eq (by omega)]
    exact ⟨noMark, noWord, _, readsFirst', rfl⟩

omit carries carriesStatement in
theorem loopOfClauses_moveLines (move : Nat → Nat) (initializer : Option (Statement Unit))
    (condition increment : Option (Expression Unit)) (body : Statement Unit) :
    (loopOfClauses initializer condition increment body).moveLines move =
      loopOfClauses (initializer.map (·.moveLines move)) (condition.map (·.moveLines move))
        (increment.map (·.moveLines move)) (body.moveLines move) := by
  cases initializer <;> cases condition <;> cases increment <;> rfl

theorem carries_forRule :
    seam.CarriesOver (·.moveLines seam.move) limit limit' (forRule expression statement)
      (forRule expression' statement') := by
  intro tokens joined value rest joins short short' reads
  obtain ⟨opened, initializer, afterInitializer, condition, afterCondition, behindCondition, increment,
    closing, behind, body, opening, readsInitializer, readsCondition, separated, readsIncrement, closed,
    readsBody, rfl⟩ := reads_forRule_iff.mp reads
  obtain ⟨opened', joinsOpened, opening'⟩ := joins.takes opening (by decide)
  have isOpening := opening.length_eq
  have isOpening' := opening'.length_eq
  have sameOpened := joinsOpened.length_eq
  obtain ⟨afterInitializer', joinsInitializer, shorterInitializer, readsInitializer'⟩ :=
    carries_initializerRule carries _ _ _ _ joinsOpened (by omega) (by omega) readsInitializer
  have sameInitializer := joinsInitializer.length_eq
  obtain ⟨afterCondition', behindCondition', readsCondition', separated', joinsCondition,
    shorterCondition⟩ := carries_optionalBefore carries (by decide) joinsInitializer (by omega) (by omega)
      readsCondition separated
  have sameCondition := joinsCondition.length_eq
  obtain ⟨closing', behind', readsIncrement', closed', joinsBehind, shorterBehind⟩ :=
    carries_optionalBefore carries (by decide) joinsCondition (by omega) (by omega) readsIncrement closed
  have sameBehind := joinsBehind.length_eq
  obtain ⟨joinedRest, joinsRest, shorterRest, readsBody'⟩ :=
    carriesStatement _ _ _ _ joinsBehind (by omega) (by omega) readsBody
  refine ⟨joinedRest, joinsRest, by omega, reads_forRule_iff.mpr ?_⟩
  exact ⟨opened', _, afterInitializer', _, afterCondition', behindCondition', _, closing', behind', _,
    opening', readsInitializer', readsCondition', separated', readsIncrement', closed', readsBody',
    loopOfClauses_moveLines seam.move initializer condition increment body⟩

end Nested

end Statements

/-! ## Several statements -/

/-- Where the tokens say stop, no item is read. -/
theorem reads_many_stopped {item : Parser (Option α)} {stop : List Token → Bool} {tokens : List Token}
    (stops : stop tokens = true) (bound : Nat) : (many item stop bound).Reads tokens [] tokens := by
  cases bound with
  | zero => exact reads_pure_iff.mpr ⟨rfl, rfl⟩
  | succ bound => exact reads_many_iff.mpr (.inl ⟨stops, rfl, rfl⟩)

/-- Items carry over one after another. Behind them, on the other side, goes on what is read there, with
mistakes or without. -/
theorem many_joined {change : α → β} {item : Parser (Option α)} {item' : Parser (Option β)}
    (carries : seam.CarriesOver (Option.map change) limit limit' item item') {stop : List Token → Bool}
    (sameStop : ∀ tokens joined, front joined = front tokens → stop joined = stop tokens) {bound : Nat} :
    ∀ {tokens joined rest : List Token} {items : List α}, seam.Joins tokens joined →
      tokens.length ≤ limit → joined.length ≤ limit' → tokens.length ≤ bound →
      (many item stop bound).Reads tokens items rest →
      ∃ joinedRest, seam.Joins rest joinedRest ∧ rest.length ≤ tokens.length ∧ stop rest = true ∧
        ∀ bound', joined.length ≤ bound' → ∃ within, joinedRest.length ≤ within ∧
          many item' stop bound' joined = (many item' stop within joinedRest).behind (items.map change) := by
  induction bound with
  | zero =>
      intro tokens joined rest items joins _ _ enough _
      have pos := joins.length_pos
      omega
  | succ bound inductionHypothesis =>
      intro tokens joined rest items joins short short' enough reads
      rcases reads_many_iff.mp reads with ⟨stops, rfl, rfl⟩ |
        ⟨goesOn, first, between, others, one, following, rfl⟩
      · exact ⟨joined, joins, Nat.le_refl _, stops, fun bound' enough' =>
          ⟨bound', enough', (Reply.behind_nil _).symm⟩⟩
      · obtain ⟨joinedBetween, joinsBetween, shorter, one'⟩ := carries _ _ _ _ joins short short' one
        have same := joins.length_eq
        have sameBetween := joinsBetween.length_eq
        obtain ⟨joinedRest, joinsRest, behind, stops, following'⟩ := inductionHypothesis joinsBetween
          (by omega) (by omega) (by omega) following
        have inside : 1 < tokens.length := by
          have pos := joinsBetween.length_pos
          omega
        have goesOn' : stop joined = false := by
          rw [sameStop _ _ (joins.front_eq inside)]
          exact goesOn
        refine ⟨joinedRest, joinsRest, by omega, stops, fun bound' enough' => ?_⟩
        cases bound' with
        | zero =>
            have pos := joins.joined_pos
            omega
        | succ bound' =>
            obtain ⟨within, enoughWithin, rest'⟩ := following' bound' (by omega)
            refine ⟨within, enoughWithin, ?_⟩
            rw [many_of_reads goesOn' one', rest', Reply.behind_behind]
            cases first <;> rfl

/-- Items carry over one after another; behind them, on the other side, may stand more items. -/
theorem carries_many {change : α → β} {item : Parser (Option α)} {item' : Parser (Option β)}
    (carries : seam.CarriesOver (Option.map change) limit limit' item item') {stop : List Token → Bool}
    (sameStop : ∀ tokens joined, front joined = front tokens → stop joined = stop tokens) {bound : Nat}
    {tokens joined rest : List Token} {items : List α} (joins : seam.Joins tokens joined)
    (short : tokens.length ≤ limit) (short' : joined.length ≤ limit') (enough : tokens.length ≤ bound)
    (reads : (many item stop bound).Reads tokens items rest) :
    ∃ joinedRest, seam.Joins rest joinedRest ∧ rest.length ≤ tokens.length ∧ stop rest = true ∧
      ∀ later final, (∀ bound', joinedRest.length ≤ bound' →
          (many item' stop bound').Reads joinedRest later final) →
        ∀ bound', joined.length ≤ bound' →
          (many item' stop bound').Reads joined (items.map change ++ later) final := by
  obtain ⟨joinedRest, joinsRest, shorter, stops, whole⟩ :=
    many_joined carries sameStop joins short short' enough reads
  refine ⟨joinedRest, joinsRest, shorter, stops, fun later final goesOn bound' enough' => ?_⟩
  obtain ⟨within, enoughWithin, same⟩ := whole bound' enough'
  unfold Reads
  rw [same, show many item' stop within joinedRest = _ from goesOn within enoughWithin]
  rfl

theorem carries_blockRule {bound bound' : Nat} (enough : limit ≤ bound) (enough' : limit' ≤ bound')
    (carries : seam.CarriesOver (Option.map (·.moveLines seam.move)) limit limit' declaration declaration') :
    seam.CarriesOver (Statement.listMoveLines seam.move) limit limit' (blockRule declaration bound)
      (blockRule declaration' bound') := by
  intro tokens joined items rest joins short short' reads
  obtain ⟨closing, readsItems, closed⟩ := reads_blockRule_iff.mp reads
  have sameStop (tokens joined : List Token) (same : front joined = front tokens) :
      atBlockEnd joined = atBlockEnd tokens := by
    unfold front at same
    unfold atBlockEnd atEnd
    rw [same]
  obtain ⟨closing', joinsClosing, shorter, _, readsItems'⟩ :=
    carries_many carries sameStop joins short short' (by omega) readsItems
  obtain ⟨joinedRest, joinsRest, closed'⟩ := joinsClosing.takes closed (by decide)
  have isClosing := closed.length_eq
  have stops : atBlockEnd closing' = true := by
    have isBrace := closed'.front_eq
    unfold front at isBrace
    simp [atBlockEnd, isBrace]
  have whole := readsItems' [] closing' (fun bound' _ => reads_many_stopped stops bound') bound' (by omega)
  rw [List.append_nil, ← Statement.listMoveLines_eq_map] at whole
  exact ⟨joinedRest, joinsRest, by omega, reads_blockRule_iff.mpr ⟨closing', whole, closed'⟩⟩

theorem carries_functionRule {bound bound' : Nat} (enough : limit ≤ bound) (enough' : limit' ≤ bound')
    (carries : seam.CarriesOver (Option.map (·.moveLines seam.move)) limit limit' declaration declaration') :
    seam.CarriesOver (·.moveLines seam.move) limit limit' (functionRule declaration bound)
      (functionRule declaration' bound') := by
  intro tokens joined value rest joins short short' reads
  obtain ⟨name, afterName, opened, parameters, closing, afterParameters, behind, body, readsName, opening,
    readsParameters, closed, brace, readsBody, rfl⟩ := reads_functionRule_iff.mp reads
  obtain ⟨afterName', joinsName, shorterName, readsName'⟩ :=
    carries_nameRule .function _ _ _ _ joins short short' readsName
  obtain ⟨opened', joinsOpened, opening'⟩ := joinsName.takes opening (by decide)
  have same := joins.length_eq
  have isOpening := opening.length_eq
  have sameOpened := joinsOpened.length_eq
  have parameterRule : seam.Carries (·.moveLine seam.move) limit limit' (nameRule .parameter)
    (nameRule .parameter) := (carries_nameRule .parameter).carries
  obtain ⟨closing', joinsClosing, shorterClosing, readsParameters'⟩ :=
    carries_list bound' parameterRule joinsOpened (by omega) (by omega) (by omega) (by omega) readsParameters
  obtain ⟨afterParameters', joinsParameters, closed'⟩ := joinsClosing.takes closed (by decide)
  obtain ⟨behind', joinsBehind, brace'⟩ := joinsParameters.takes brace (by decide)
  have isClosing := closed.length_eq
  have isBrace := brace.length_eq
  have sameBehind := joinsBehind.length_eq
  obtain ⟨joinedRest, joinsRest, shorterRest, readsBody'⟩ :=
    carries_blockRule enough enough' carries _ _ _ _ joinsBehind (by omega) (by omega) readsBody
  refine ⟨joinedRest, joinsRest, by omega, reads_functionRule_iff.mpr ?_⟩
  exact ⟨_, afterName', opened', _, closing', afterParameters', behind', _, readsName', opening',
    readsParameters' (by omega), closed', brace', readsBody', rfl⟩

/-! ## The nesting of statements -/

theorem carries_expression (limit limit' : Nat) :
    seam.Carries (·.moveLines seam.move) limit limit' (Grammar.expression limit)
      (Grammar.expression limit') :=
  (carries_unary_and_expression limit limit').2

theorem carries_statementRule
    (carriesStatement : seam.CarriesOver (·.moveLines seam.move) limit limit' (Grammar.statement limit)
      (Grammar.statement limit'))
    (carriesDeclaration : seam.CarriesOver (Option.map (·.moveLines seam.move)) limit limit'
      (Grammar.declaration limit) (Grammar.declaration limit')) :
    seam.CarriesOver (·.moveLines seam.move) (limit + 1) (limit' + 1) (Grammar.statement (limit + 1))
      (Grammar.statement (limit' + 1)) := by
  have carries : seam.Carries (Expression.moveLines seam.move) (limit + 1) (limit' + 1)
      (Grammar.expression (limit + 1)) (Grammar.expression (limit' + 1)) :=
    carries_expression (limit + 1) (limit' + 1)
  have nested := carries.mono (Nat.le_succ limit) (Nat.le_succ limit')
  intro tokens joined value rest joins short short' reads
  cases reads_statement_iff.mp reads with
  | threeClauses behind word rule =>
      obtain ⟨behind', joinedRest, word', rule', joinsRest, shorter⟩ :=
        (carries_forRule nested carriesStatement).behindWord (by decide) joins short short' word rule
      exact ⟨joinedRest, joinsRest, shorter, reads_statement_iff.mpr (.threeClauses behind' word' rule')⟩
  | conditional behind word rule =>
      obtain ⟨behind', joinedRest, word', rule', joinsRest, shorter⟩ :=
        (carries_conditionalRule nested carriesStatement).behindWord (by decide) joins short short' word rule
      exact ⟨joinedRest, joinsRest, shorter, reads_statement_iff.mpr (.conditional behind' word' rule')⟩
  | print behind word rule =>
      obtain ⟨behind', joinedRest, word', rule', joinsRest, shorter⟩ :=
        (carries_printRule nested).behindWord (by decide) joins short short' word rule
      exact ⟨joinedRest, joinsRest, shorter, reads_statement_iff.mpr (.print behind' word' rule')⟩
  | returning token behind split word rule =>
      obtain rfl := split
      obtain ⟨behind', rfl, joinsBehind⟩ := joins.cons (by rw [word]; decide)
      rw [List.length_cons] at short short'
      obtain ⟨joinedRest, joinsRest, shorter, rule'⟩ := carries_returnRule nested token.line _ _ _ _
        joinsBehind (by omega) (by omega) rule
      exact ⟨joinedRest, joinsRest, by rw [List.length_cons]; omega,
        reads_statement_iff.mpr (.returning _ behind' rfl word rule')⟩
  | loop behind word rule =>
      obtain ⟨behind', joinedRest, word', rule', joinsRest, shorter⟩ :=
        (carries_whileRule nested carriesStatement).behindWord (by decide) joins short short' word rule
      exact ⟨joinedRest, joinsRest, shorter, reads_statement_iff.mpr (.loop behind' word' rule')⟩
  | block behind items brace rule built =>
      obtain ⟨behind', joinedRest, brace', rule', joinsRest, shorter⟩ :=
        (carries_blockRule (Nat.le_succ limit) (Nat.le_succ limit') carriesDeclaration).behindWord
          (by decide) joins short short' brace rule
      refine ⟨joinedRest, joinsRest, shorter, reads_statement_iff.mpr (.block behind' _ brace' rule' ?_)⟩
      rw [built]
      rfl
  | expression other rule =>
      obtain ⟨joinedRest, joinsRest, shorter, rule'⟩ :=
        carries_expressionStatementRule carries _ _ _ _ joins short short' rule
      have pos := joinsRest.length_pos
      refine ⟨joinedRest, joinsRest, shorter, reads_statement_iff.mpr (.expression ?_ rule')⟩
      rwa [joins.front_eq (by omega)]

theorem carries_declarationRule
    (carriesStatement : seam.CarriesOver (·.moveLines seam.move) (limit + 1) (limit' + 1)
      (Grammar.statement (limit + 1)) (Grammar.statement (limit' + 1)))
    (carriesDeclaration : seam.CarriesOver (Option.map (·.moveLines seam.move)) limit limit'
      (Grammar.declaration limit) (Grammar.declaration limit')) :
    seam.CarriesOver (Option.map (·.moveLines seam.move)) (limit + 1) (limit' + 1)
      (Grammar.declaration (limit + 1)) (Grammar.declaration (limit' + 1)) := by
  have nested : seam.Carries (Expression.moveLines seam.move) limit limit'
      (Grammar.expression (limit + 1)) (Grammar.expression (limit' + 1)) :=
    (carries_expression (limit + 1) (limit' + 1)).mono (Nat.le_succ limit) (Nat.le_succ limit')
  intro tokens joined result rest joins short short' reads
  obtain ⟨value, rfl, ⟨behind, word, rule⟩ | ⟨behind, word, rule⟩ | ⟨noFunction, noVariable, rule⟩⟩ :=
    reads_declaration_iff.mp reads
  · obtain ⟨behind', joinedRest, word', rule', joinsRest, shorter⟩ :=
      (carries_functionRule (Nat.le_succ limit) (Nat.le_succ limit') carriesDeclaration).behindWord
        (by decide) joins short short' word rule
    refine ⟨joinedRest, joinsRest, shorter, reads_declaration_iff.mpr ⟨_, rfl, .inl ?_⟩⟩
    exact ⟨behind', word', rule'⟩
  · obtain ⟨behind', joinedRest, word', rule', joinsRest, shorter⟩ :=
      (carries_variableRule nested).behindWord (by decide) joins short short' word rule
    refine ⟨joinedRest, joinsRest, shorter, reads_declaration_iff.mpr ⟨_, rfl, .inr (.inl ?_)⟩⟩
    exact ⟨behind', word', rule'⟩
  · obtain ⟨joinedRest, joinsRest, shorter, rule'⟩ := carriesStatement _ _ _ _ joins short short' rule
    have pos := joinsRest.length_pos
    refine ⟨joinedRest, joinsRest, shorter, reads_declaration_iff.mpr ⟨_, rfl, .inr (.inr ?_)⟩⟩
    rw [joins.front_eq (by omega)]
    exact ⟨noFunction, noVariable, rule'⟩

/-- Statements and declarations carry over, whatever bounds are met on neither side. -/
theorem carries_statement_and_declaration (limit limit' : Nat) :
    seam.CarriesOver (·.moveLines seam.move) limit limit' (Grammar.statement limit)
      (Grammar.statement limit') ∧
    seam.CarriesOver (Option.map (·.moveLines seam.move)) limit limit' (Grammar.declaration limit)
      (Grammar.declaration limit') := by
  induction limit generalizing limit' with
  | zero =>
      refine ⟨fun _ _ _ _ _ _ _ reads => absurd reads not_reads_fail,
        fun _ _ _ _ _ _ _ reads => ?_⟩
      obtain ⟨value, _, stuck⟩ := (reads_recovering_iff (regular_fail _)).mp reads
      exact absurd stuck not_reads_fail
  | succ limit inductionHypothesis =>
      cases limit' with
      | zero => exact ⟨carriesOver_zero, carriesOver_zero⟩
      | succ limit' =>
          have ⟨carriesStatement, carriesDeclaration⟩ := inductionHypothesis limit'
          have statements := carries_statementRule carriesStatement carriesDeclaration
          exact ⟨statements, carries_declarationRule statements carriesDeclaration⟩

end Seam

/-! ## Programs -/

theorem front_eq_of_sameContent {first second : List Token} (same : Token.SameContent first second) :
    front first = front second := by
  cases first <;> cases second <;> simp_all [Token.SameContent, Token.content]

/-- No statement is read where an `else` stands. -/
theorem front_ne_else_of_statement {bound : Nat} {tokens rest : List Token} {value : Statement Unit}
    (short : tokens.length ≤ bound) (reads : (statement bound).Reads tokens value rest) :
    front tokens ≠ .keyword .elseWord := by
  cases bound with
  | zero => exact absurd reads not_reads_fail
  | succ bound =>
      have byWord {kind : Token.Kind} {behind : List Token} (other : kind ≠ .keyword .elseWord)
          (word : Takes kind tokens behind) : front tokens ≠ .keyword .elseWord :=
        word.front_eq ▸ other
      cases reads_statement_iff.mp reads with
      | threeClauses behind word rule => exact byWord (by decide) word
      | conditional behind word rule => exact byWord (by decide) word
      | print behind word rule => exact byWord (by decide) word
      | returning token behind split word rule => exact byWord (by decide) ⟨token, split, word⟩
      | loop behind word rule => exact byWord (by decide) word
      | block behind items brace rule built => exact byWord (by decide) brace
      | expression other rule =>
          obtain ⟨inner, closing, readsInner, _, _⟩ := reads_expressionStatementRule_iff.mp rule
          obtain ⟨normal, _, written⟩ := (unary_and_expression_sound (bound + 1)).2 _ _ _ short readsInner
          rw [front_eq_of_sameContent written]
          exact front_expression_ne normal rfl closing

/-- No program begins with an `else`. -/
theorem front_ne_else_of_read {tokens : List Token} {statements : List (Statement Unit)}
    (reads : read tokens = ⟨statements, []⟩) : front tokens ≠ .keyword .elseWord := by
  obtain ⟨rest, readsProgram⟩ := read_eq_iff.mp reads
  cases tokens with
  | nil => simp
  | cons token behind =>
      rcases reads_many_iff.mp readsProgram with ⟨stops, _, _⟩ | ⟨_, first, between, later, one, _, _⟩
      · have isEnd : token.kind = .endOfInput := by simpa [atEnd, currentToken] using stops
        rw [front_cons, isEnd]
        decide
      · obtain ⟨value, _, ⟨taken, word, _⟩ | ⟨taken, word, _⟩ | ⟨_, _, readsStatement⟩⟩ :=
          reads_declaration_iff.mp one
        · exact word.front_eq ▸ (by decide)
        · exact word.front_eq ▸ (by decide)
        · exact front_ne_else_of_statement (Nat.le_refl _) readsStatement

/-- What is read up to the closing token is read alike in front of more. Behind it goes on what is read there,
with mistakes or without. -/
theorem Seam.declarations_joined (seam : Seam) {body : List Token} {first : List (Statement Unit)}
    {limit bound : Nat} (inner : ∀ token ∈ body, token.kind ≠ .endOfInput)
    (reads : read (body ++ [seam.last]) = ⟨first, []⟩) (short : body.length + seam.more.length ≤ limit)
    (enough : body.length + seam.more.length ≤ bound) :
    ∃ within, seam.more.length ≤ within ∧
      many (declaration limit) atEnd bound (body.map (·.moveLine seam.move) ++ seam.more) =
        (many (declaration limit) atEnd within seam.more).behind (Statement.listMoveLines seam.move first) := by
  have joins := seam.joins_append inner
  obtain ⟨rest, readsFirst⟩ := read_eq_iff.mp reads
  have joinedLength : (body.map (·.moveLine seam.move) ++ seam.more).length =
      body.length + seam.more.length := by
    rw [List.length_append, List.length_map]
  have sameStop (tokens joined : List Token) (same : front joined = front tokens) :
      atEnd joined = atEnd tokens := by
    unfold front at same
    unfold atEnd
    rw [same]
  have carries : seam.CarriesOver (Option.map (·.moveLines seam.move)) (body ++ [seam.last]).length limit
      (declaration (body ++ [seam.last]).length) (declaration limit) :=
    (carries_statement_and_declaration _ _).2
  obtain ⟨joinedRest, joinsRest, _, stops, whole⟩ := Seam.many_joined carries sameStop joins
    (Nat.le_refl _) (by omega) (Nat.le_refl _) readsFirst
  obtain ⟨_, rfl⟩ := joinsRest.at_end stops
  rw [Statement.listMoveLines_eq_map]
  exact whole bound (by omega)

/-- What is read up to the closing token is read alike in front of more, with what is read there. -/
theorem Seam.reads_joined (seam : Seam) {body : List Token} {first later : List (Statement Unit)}
    {final : List Token} {limit bound : Nat} (inner : ∀ token ∈ body, token.kind ≠ .endOfInput)
    (reads : read (body ++ [seam.last]) = ⟨first, []⟩) (short : body.length + seam.more.length ≤ limit)
    (enough : body.length + seam.more.length ≤ bound)
    (readsMore : ∀ bound, seam.more.length ≤ bound →
      (many (declaration limit) atEnd bound).Reads seam.more later final) :
    (many (declaration limit) atEnd bound).Reads (body.map (·.moveLine seam.move) ++ seam.more)
      (Statement.listMoveLines seam.move first ++ later) final := by
  obtain ⟨within, enoughWithin, same⟩ := seam.declarations_joined inner reads short enough
  unfold Reads
  rw [same, show many (declaration limit) atEnd within seam.more = _ from readsMore within enoughWithin]
  rfl

section Programs

variable {body : List Token} {last : Token} {first : List (Statement Unit)}

/-- A program on other lines is read alike, within any bounds that are not met. -/
theorem reads_moveLines (move : Nat → Nat) (inner : ∀ token ∈ body, token.kind ≠ .endOfInput)
    (isLast : last.kind = .endOfInput) (reads : read (body ++ [last]) = ⟨first, []⟩) {limit bound : Nat}
    (short : body.length + 1 ≤ limit) (enough : body.length + 1 ≤ bound) :
    (many (declaration limit) atEnd bound).Reads ((body ++ [last]).map (·.moveLine move))
      (Statement.listMoveLines move first) [last.moveLine move] := by
  have ends : atEnd [last.moveLine move] = true := by simp [atEnd, currentToken, isLast]
  let seam : Seam := ⟨move, last, [last.moveLine move], isLast, by simp, by simp [isLast]⟩
  have joined := seam.reads_joined inner reads short enough fun bound _ =>
    Seam.reads_many_stopped ends bound
  rw [List.append_nil] at joined
  rw [List.map_append]
  exact joined

/-- A program on other lines is read as its tree on these lines. -/
theorem read_moveLines (move : Nat → Nat) (inner : ∀ token ∈ body, token.kind ≠ .endOfInput)
    (isLast : last.kind = .endOfInput) (reads : read (body ++ [last]) = ⟨first, []⟩) :
    read ((body ++ [last]).map (·.moveLine move)) = ⟨Statement.listMoveLines move first, []⟩ :=
  read_eq_iff.mpr ⟨_, reads_moveLines move inner isLast reads (by simp) (by simp)⟩

/-- The tokens of one program in front of those of another are read as both, one behind the other. -/
theorem read_append {body' : List Token} {last' : Token} {second : List (Statement Unit)}
    (inner : ∀ token ∈ body, token.kind ≠ .endOfInput) (isLast : last.kind = .endOfInput)
    (reads : read (body ++ [last]) = ⟨first, []⟩)
    (inner' : ∀ token ∈ body', token.kind ≠ .endOfInput) (isLast' : last'.kind = .endOfInput)
    (reads' : read (body' ++ [last']) = ⟨second, []⟩) :
    read (body ++ (body' ++ [last'])) = ⟨first ++ second, []⟩ := by
  have unmoved (tokens : List Token) : tokens.map (·.moveLine id) = tokens := List.map_id tokens
  let seam : Seam := ⟨id, last, body' ++ [last'], isLast, by simp, front_ne_else_of_read reads'⟩
  have readsSecond (bound : Nat) (enough : (body' ++ [last']).length ≤ bound) :
      (many (declaration (body ++ (body' ++ [last'])).length) atEnd bound).Reads (body' ++ [last']) second
        [last'] := by
    rw [List.length_append, List.length_singleton] at enough
    have short : body'.length + 1 ≤ (body ++ (body' ++ [last'])).length := by
      simp only [List.length_append, List.length_singleton]
      omega
    have readsMoved := reads_moveLines id inner' isLast' reads' short enough
    rwa [unmoved, Statement.listMoveLines_id] at readsMoved
  have readsBoth := seam.reads_joined inner reads (Nat.le_of_eq List.length_append.symm)
    (Nat.le_of_eq List.length_append.symm) readsSecond
  rw [unmoved, Statement.listMoveLines_id] at readsBoth
  exact read_eq_iff.mpr ⟨_, readsBoth⟩

end Programs

end LoxInterpreter.Grammar
