import LoxInterpreter.Proofs.Grammar.Bounds
import LoxInterpreter.Proofs.Lines.Moving

/-!
Contract: a parser sees no more than the contents of the tokens up to where it stops.

Two token lists are windows on the same tokens if they begin with the same contents. A parser that reads
without a mistake, and stops before the end of the window, reads the same from both lists up to positions,
whatever stands behind. No rule asks how far away the end is, so this holds for every bound.

Owns: `Window`, `Parser.Transfers`, and that expressions and statements transfer.
Does not own: what is read up to the very end of a window.
-/

namespace LoxInterpreter

variable {Known : Type}

/-- A name without its line. -/
def Name.withoutLine (name : Name) : Name := name.moveLine fun _ => 0

/-- An expression without its lines. -/
def Expression.withoutLines (expression : Expression Known) : Expression Known :=
  expression.moveLines fun _ => 0

/-- A statement without its lines. -/
def Statement.withoutLines (statement : Statement Known) : Statement Known :=
  statement.moveLines fun _ => 0

theorem Token.SameContent.append_cancel {first second rest : List Token}
    (same : SameContent (first ++ rest) (second ++ rest)) : SameContent first second := by
  unfold SameContent at same ⊢
  rw [List.map_append, List.map_append] at same
  exact List.append_cancel_right same

namespace Grammar

open Token LoxInterpreter.Grammar.Parser

/-- Two token lists that begin with the same contents, in front of what stands behind in either. -/
inductive Window (behind behind' : List Token) : List Token → List Token → Prop
  | open : Window behind behind' behind behind'
  | cons {token token' : Token} {tokens tokens' : List Token} (same : token.content = token'.content)
      (window : Window behind behind' tokens tokens') :
      Window behind behind' (token :: tokens) (token' :: tokens')

namespace Window

variable {behind behind' tokens tokens' rest : List Token}

theorem append {first first' : List Token} (same : SameContent first first') :
    Window behind behind' (first ++ behind) (first' ++ behind') := by
  induction first generalizing first' with
  | nil =>
      obtain rfl : first' = [] := List.length_eq_zero_iff.mp same.length_eq.symm
      exact .open
  | cons token first inductionHypothesis =>
      cases first' with
      | nil => exact absurd same.length_eq (Nat.succ_ne_zero _)
      | cons token' first' =>
          obtain ⟨sameToken, sameFirst⟩ := List.cons.inj same
          exact .cons sameToken (inductionHypothesis sameFirst)

theorem length_add (window : Window behind behind' tokens tokens') :
    tokens'.length + behind.length = tokens.length + behind'.length := by
  induction window with
  | «open» => exact Nat.add_comm _ _
  | cons _ _ inductionHypothesis =>
      simp only [List.length_cons]
      omega

/-- Inside the window the fronts are the same. -/
theorem front_eq (window : Window behind behind' tokens tokens') (inside : behind.length < tokens.length) :
    front tokens' = front tokens := by
  cases window with
  | «open» => exact absurd inside (Nat.lt_irrefl _)
  | cons same _ => exact (congrArg Prod.fst same).symm

theorem uncons {token : Token} (window : Window behind behind' (token :: rest) tokens')
    (inside : behind.length < (token :: rest).length) :
    ∃ token' rest', tokens' = token' :: rest' ∧ token'.content = token.content ∧
      Window behind behind' rest rest' := by
  cases window with
  | «open» => exact absurd inside (Nat.lt_irrefl _)
  | cons same window => exact ⟨_, _, rfl, same.symm, window⟩

end Window

namespace Parser

variable {α β γ δ : Type} {behind behind' : List Token} {change : α → γ}

/-- Whether a parser that stops before the end of a window reads from the one list what another reads
from the other, up to a change of both values. -/
structure Transfers (behind behind' : List Token) (change : α → γ) (parser parser' : Parser α) :
    Prop where
  regular : parser.Regular
  transfer : ∀ {tokens tokens' value rest}, Window behind behind' tokens tokens' →
    parser.Reads tokens value rest → behind.length < rest.length →
    ∃ value' rest', parser'.Reads tokens' value' rest' ∧ change value' = change value ∧
      Window behind behind' rest rest'

/-! ## Primitives -/

theorem transfers_pure {value value' : α} (same : change value' = change value) :
    Transfers behind behind' change (pure value) (pure value') := by
  refine ⟨regular_pure value, fun {tokens tokens' result rest} window reads _ => ?_⟩
  obtain ⟨rfl, rfl⟩ := reads_pure_iff.mp reads
  exact ⟨value', tokens', reads_pure_iff.mpr ⟨rfl, rfl⟩, same, window⟩

theorem transfers_fail {cause : SyntaxError.Cause} {parser' : Parser α} :
    Transfers behind behind' change (fail cause) parser' :=
  ⟨regular_fail cause, fun _ reads => absurd reads not_reads_fail⟩

theorem transfers_nextIs (kind : Token.Kind) :
    Transfers behind behind' id (nextIs kind) (nextIs kind) := by
  refine ⟨regular_nextIs kind, fun {tokens tokens' answer rest} window reads inside => ?_⟩
  obtain ⟨rfl, rfl⟩ := reads_nextIs_iff.mp reads
  refine ⟨_, tokens', reads_nextIs_iff.mpr ⟨rfl, rfl⟩, ?_, window⟩
  rw [id, id, window.front_eq inside]

theorem transfers_take? {choose choose' : Token → Option α}
    (same : ∀ token token', token'.content = token.content →
      (choose' token').map change = (choose token).map change) :
    Transfers behind behind' (Option.map change) (take? choose) (take? choose') := by
  refine ⟨regular_take? choose, fun {tokens tokens' choice rest} window reads inside => ?_⟩
  cases choice with
  | none =>
      obtain ⟨rfl, declined⟩ := reads_take?_none_iff.mp reads
      refine ⟨none, tokens', ?_, rfl, window⟩
      refine reads_take?_none_iff.mpr ⟨rfl, fun token' others' isList notEnd => ?_⟩
      subst isList
      cases window with
      | «open» => exact absurd inside (Nat.lt_irrefl _)
      | @cons token _ others _ sameContent _ =>
          have kind : token.kind = token'.kind := congrArg Prod.fst sameContent
          have none := declined token others rfl (by rwa [kind])
          simpa [none] using same token token' sameContent.symm
  | some value =>
      obtain ⟨token, rfl, notEnd, chosen⟩ := reads_take?_some_iff.mp reads
      obtain ⟨token', rest', rfl, sameContent, windowRest⟩ := window.uncons (Nat.lt_succ_of_lt inside)
      have kind : token'.kind = token.kind := congrArg Prod.fst sameContent
      have mapped := same token token' sameContent
      rw [chosen, Option.map_some, Option.map_eq_some_iff] at mapped
      obtain ⟨value', chosen', sameValue⟩ := mapped
      exact ⟨some value', rest', reads_take?_some_iff.mpr ⟨token', rfl, by rwa [kind], chosen'⟩,
        congrArg some sameValue, windowRest⟩

theorem transfers_accept? (kind : Token.Kind) :
    Transfers behind behind' (Option.map Token.content) (accept? kind) (accept? kind) := by
  refine transfers_take? fun token token' same => ?_
  have sameKind : token'.kind = token.kind := congrArg Prod.fst same
  by_cases isKind : token.kind = kind
  · simp [isKind, sameKind, same]
  · simp [isKind, sameKind]

/-! ## Sequences -/

theorem Transfers.bind {first first' : Parser α} {next next' : α → Parser β} {change' : β → δ}
    (transfers : Transfers behind behind' change first first')
    (transfersNext : ∀ value value', change value' = change value →
      Transfers behind behind' change' (next value) (next' value')) :
    Transfers behind behind' change' (first >>= next) (first' >>= next') where
  regular := transfers.regular.bind fun value => (transfersNext value value rfl).regular
  transfer {tokens tokens' result rest} window reads inside := by
    obtain ⟨value, between, readsFirst, readsNext⟩ := reads_bind_iff.mp reads
    have shorter := readsNext.suffix (transfersNext value value rfl).regular
    obtain ⟨value', between', readsFirst', same, windowBetween⟩ :=
      transfers.transfer window readsFirst (Nat.lt_of_lt_of_le inside shorter.length_le)
    obtain ⟨result', rest', readsNext', sameResult, windowRest⟩ :=
      (transfersNext value value' same).transfer windowBetween readsNext inside
    exact ⟨result', rest', reads_bind_iff.mpr ⟨value', between', readsFirst', readsNext'⟩, sameResult,
      windowRest⟩

/-- What follows a parser that asks nothing but a value that is the same on both sides. -/
theorem Transfers.bind_id {first first' : Parser α} {next next' : α → Parser β} {change' : β → δ}
    (transfers : Transfers behind behind' id first first')
    (transfersNext : ∀ value, Transfers behind behind' change' (next value) (next' value)) :
    Transfers behind behind' change' (first >>= next) (first' >>= next') :=
  transfers.bind fun value _ same => (show _ = value from same) ▸ transfersNext value

theorem transfers_ite {condition : Prop} [Decidable condition] {first first' second second' : Parser α}
    (transfers : Transfers behind behind' change first first')
    (transfersOther : Transfers behind behind' change second second') :
    Transfers behind behind' change (if condition then first else second)
      (if condition then first' else second') := by
  split
  · exact transfers
  · exact transfersOther

theorem transfers_accept (kind : Token.Kind) :
    Transfers behind behind' id (accept kind) (accept kind) := by
  refine (transfers_accept? kind).bind fun taken taken' same => transfers_pure ?_
  have isSome := congrArg Option.isSome same
  simpa using isSome

/-- A question for a kind of token, and what follows either answer. -/
theorem transfers_accept_bind {kind : Token.Kind} {next next' other other' : Parser β} {change : β → δ}
    (taken : Transfers behind behind' change next next')
    (declined : Transfers behind behind' change other other') :
    Transfers behind behind' change (do if ← accept kind then next else other)
      (do if ← accept kind then next' else other') :=
  (transfers_accept kind).bind_id fun _ => transfers_ite taken declined

theorem transfers_expect (kind : Token.Kind) (cause : SyntaxError.Cause) :
    Transfers behind behind' Token.content (expect kind cause) (expect kind cause) := by
  refine (transfers_accept? kind).bind fun taken taken' same => ?_
  cases taken with
  | none => exact transfers_fail
  | some token =>
      obtain ⟨token', rfl, sameContent⟩ := Option.map_eq_some_iff.mp same
      exact transfers_pure sameContent

/-- A mark of which only the kind matters, and what follows it. -/
theorem transfers_expectMark_bind {mark : Token.Kind} {site : Site} {next next' : Parser β}
    {change : β → δ} (transfers : Transfers behind behind' change next next') :
    Transfers behind behind' change (do let _ ← expectMark mark site; next)
      (do let _ ← expectMark mark site; next') :=
  (transfers_expect mark _).bind fun _ _ _ => transfers

/-! ## Repetition -/

theorem transfers_grow {step step' : α → Parser (Option α)}
    (transfers : ∀ value value', change value' = change value →
      Transfers behind behind' (Option.map change) (step value) (step' value')) (bound : Nat)
    {value value' : α} (same : change value' = change value) :
    Transfers behind behind' change (grow step bound value) (grow step' bound value') := by
  induction bound generalizing value value' with
  | zero => exact transfers_pure same
  | succ bound inductionHypothesis =>
      refine (transfers value value' same).bind fun grown grown' sameGrown => ?_
      cases grown with
      | none =>
          obtain rfl : grown' = none := by simpa using sameGrown
          exact transfers_pure same
      | some grown =>
          obtain ⟨grown', rfl, same⟩ := Option.map_eq_some_iff.mp sameGrown
          exact inductionHypothesis same

theorem transfers_commaSeparated {item item' : Parser α} {excess : SyntaxError.Cause}
    (transfers : Transfers behind behind' change item item') (bound count : Nat) :
    Transfers behind behind' (List.map change) (commaSeparated item excess bound count)
      (commaSeparated item' excess bound count) := by
  induction bound generalizing count with
  | zero => exact transfers_pure rfl
  | succ bound inductionHypothesis =>
      have following : Transfers behind behind' (List.map change)
          (do
            let first ← item
            if ← accept .comma then
              return first :: (← commaSeparated item excess bound (count + 1))
            else return [first] : Parser (List α))
          (do
            let first ← item'
            if ← accept .comma then
              return first :: (← commaSeparated item' excess bound (count + 1))
            else return [first]) :=
        transfers.bind fun first first' same => transfers_accept_bind
          ((inductionHypothesis (count + 1)).bind fun others others' sameOthers =>
            transfers_pure (by simp [same, sameOthers]))
          (transfers_pure (by simp [same]))
      rw [commaSeparated, commaSeparated]
      refine transfers_ite ⟨?_, fun _ reads => ?_⟩ following
      · exact (regular_reportHere excess).bind fun _ => following.regular
      · obtain ⟨_, _, noted, _⟩ := reads_bind_iff.mp reads
        exact absurd noted not_reads_reportHere

theorem transfers_list {item item' : Parser α} {excess : SyntaxError.Cause}
    (transfers : Transfers behind behind' change item item') (bound : Nat) :
    Transfers behind behind' (List.map change) (list item excess bound) (list item' excess bound) :=
  (transfers_nextIs .rightParen).bind_id fun _ =>
    transfers_ite (transfers_pure rfl) (transfers_commaSeparated transfers bound 0)

theorem transfers_many {item item' : Parser (Option α)} {stop : List Token → Bool}
    (sameStop : ∀ tokens tokens', front tokens = front tokens' → stop tokens = stop tokens')
    (transfers : Transfers behind behind' (Option.map change) item item') (bound : Nat) :
    Transfers behind behind' (List.map change) (many item stop bound) (many item' stop bound) := by
  refine ⟨regular_many transfers.regular bound, ?_⟩
  induction bound with
  | zero => exact (transfers_pure rfl).transfer
  | succ bound inductionHypothesis =>
      intro tokens tokens' items rest window reads inside
      rcases reads_many_iff.mp reads with ⟨stops, rfl, rfl⟩ |
        ⟨goesOn, first, between, later, readsFirst, readsLater, rfl⟩
      · have stops' := (sameStop _ _ (window.front_eq inside)).trans stops
        exact ⟨[], tokens', reads_many_iff.mpr (.inl ⟨stops', rfl, rfl⟩), rfl, window⟩
      · have shorter := readsLater.suffix (regular_many transfers.regular bound)
        have insideBetween := Nat.lt_of_lt_of_le inside shorter.length_le
        have taken := readsFirst.suffix transfers.regular
        obtain ⟨first', between', readsFirst', sameFirst, windowBetween⟩ :=
          transfers.transfer window readsFirst insideBetween
        obtain ⟨later', rest', readsLater', sameLater, windowRest⟩ :=
          inductionHypothesis windowBetween readsLater inside
        have front := window.front_eq (Nat.lt_of_lt_of_le insideBetween taken.length_le)
        have goesOn' := (sameStop _ _ front).trans goesOn
        refine ⟨first'.toList ++ later', rest', reads_many_iff.mpr (.inr
          ⟨goesOn', first', between', later', readsFirst', readsLater', rfl⟩), ?_, windowRest⟩
        have sameToList := congrArg Option.toList sameFirst
        simp only [Option.toList_map] at sameToList
        rw [List.map_append, List.map_append, sameToList, sameLater]

theorem transfers_recovering {parser parser' : Parser α}
    (transfers : Transfers behind behind' change parser parser') (regular' : parser'.Regular) :
    Transfers behind behind' (Option.map change) parser.recovering parser'.recovering := by
  refine ⟨regular_recovering transfers.regular, fun {tokens tokens' result rest} window reads inside => ?_⟩
  obtain ⟨value, rfl, readsValue⟩ := (reads_recovering_iff transfers.regular).mp reads
  obtain ⟨value', rest', readsValue', same, windowRest⟩ := transfers.transfer window readsValue inside
  exact ⟨some value', rest', (reads_recovering_iff regular').mpr ⟨value', rfl, readsValue'⟩,
    congrArg some same, windowRest⟩

end Parser

/-! ## Expressions -/

section Expressions

variable {behind behind' : List Token} {nested nested' nestedUnary nestedUnary' operand operand' :
  Parser (Expression Unit)}

theorem atom?_content {token token' : Token} (same : token'.content = token.content) :
    (atom? token').map Expression.withoutLines = (atom? token).map Expression.withoutLines := by
  have kind : token'.kind = token.kind := congrArg Prod.fst same
  unfold atom?
  rw [kind]
  split <;> try rfl
  rename_i isName
  have lexeme : token'.lexeme = token.lexeme := by
    simpa [content, kind, isName] using congrArg Prod.snd same
  simp [Expression.withoutLines, Expression.moveLines, Name.moveLine, lexeme]

theorem unaryOperator?_content {token token' : Token} (same : token'.content = token.content) :
    (unaryOperator? token').map Prod.fst = (unaryOperator? token).map Prod.fst := by
  have kind : token'.kind = token.kind := congrArg Prod.fst same
  simp only [unaryOperator?, kind, Option.map_map]
  rfl

theorem transfers_primaryRule
    (transfers : Transfers behind behind' Expression.withoutLines nested nested') :
    Transfers behind behind' Expression.withoutLines (primaryRule nested) (primaryRule nested') := by
  refine (transfers_take? fun _ _ => atom?_content).bind fun atom atom' same => ?_
  cases atom with
  | some atom =>
      obtain ⟨atom', rfl, sameAtom⟩ := Option.map_eq_some_iff.mp same
      exact transfers_pure sameAtom
  | none =>
      obtain rfl : atom' = none := by simpa using same
      refine transfers_accept_bind ?_ transfers_fail
      exact transfers.bind fun inner inner' sameInner => transfers_expectMark_bind
        (transfers_pure (congrArg Expression.grouping sameInner))

theorem transfers_callStep
    (transfers : Transfers behind behind' Expression.withoutLines nested nested') (bound : Nat)
    {callee callee' : Expression Unit} (same : callee'.withoutLines = callee.withoutLines) :
    Transfers behind behind' (Option.map Expression.withoutLines) (callStep nested bound callee)
      (callStep nested' bound callee') := by
  refine transfers_accept_bind ?_ (transfers_pure rfl)
  refine (transfers_list transfers bound).bind fun arguments arguments' sameArguments => ?_
  refine (transfers_expect _ _).bind fun closing closing' _ => transfers_pure ?_
  have sameEach : Expression.listMoveLines (fun _ => 0) arguments' =
      Expression.listMoveLines (fun _ => 0) arguments := by
    rw [Expression.listMoveLines_eq_map, Expression.listMoveLines_eq_map]
    exact sameArguments
  simp only [Expression.withoutLines] at same
  simp only [Option.map_some, Expression.withoutLines, Expression.moveLines, same, sameEach]

theorem transfers_unaryRule
    (transfersUnary : Transfers behind behind' Expression.withoutLines nestedUnary nestedUnary')
    (transfers : Transfers behind behind' Expression.withoutLines nested nested') (bound : Nat) :
    Transfers behind behind' Expression.withoutLines (unaryRule nestedUnary nested bound)
      (unaryRule nestedUnary' nested' bound) := by
  refine (transfers_take? fun _ _ => unaryOperator?_content).bind fun operator operator' same => ?_
  cases operator with
  | none =>
      obtain rfl : operator' = none := by simpa using same
      exact (transfers_primaryRule transfers).bind fun callee callee' sameCallee =>
        transfers_grow (fun _ _ => transfers_callStep transfers bound) bound sameCallee
  | some operator =>
      obtain ⟨⟨operator', line'⟩, rfl, rfl⟩ := Option.map_eq_some_iff.mp same
      exact transfersUnary.bind fun inner inner' sameInner =>
        transfers_pure (congrArg (Expression.unary operator.1 0) sameInner)

/-- What two tokens with the same content build from the same operands is the same. -/
theorem build?_content {level : Level} {token token' : Token}
    {build : Expression Unit → Expression Unit → Expression Unit} (built : level.build? token = some build)
    (same : token'.content = token.content) :
    ∃ build', level.build? token' = some build' ∧ ∀ {left left' right right' : Expression Unit},
      left'.withoutLines = left.withoutLines → right'.withoutLines = right.withoutLines →
        (build' left' right').withoutLines = (build left right).withoutLines := by
  have kind : token'.kind = token.kind := congrArg Prod.fst same
  rcases Level.build?_eq_some_iff.mp built with ⟨operator, onLevel, isKind, rfl⟩ |
    ⟨operator, onLevel, isKind, rfl⟩
  · refine ⟨.logical operator token'.line,
      Level.build?_eq_some_iff.mpr (.inl ⟨operator, onLevel, kind.trans isKind, rfl⟩), ?_⟩
    intro left left' right right' sameLeft sameRight
    exact congrArg₂ (Expression.logical operator 0) sameLeft sameRight
  · refine ⟨.binary operator token'.line,
      Level.build?_eq_some_iff.mpr (.inr ⟨operator, onLevel, kind.trans isKind, rfl⟩), ?_⟩
    intro left left' right right' sameLeft sameRight
    exact congrArg₂ (Expression.binary operator 0) sameLeft sameRight

theorem transfers_operatorStep
    (transfers : Transfers behind behind' Expression.withoutLines operand operand') (level : Level)
    {left left' : Expression Unit} (same : left'.withoutLines = left.withoutLines) :
    Transfers behind behind' (Option.map Expression.withoutLines) (operatorStep level operand left)
      (operatorStep level operand' left') := by
  refine ⟨regular_operatorStep transfers.regular level left, fun {tokens tokens' result rest} window reads
    inside => ?_⟩
  cases result with
  | none =>
      obtain ⟨rfl, noOperator⟩ := reads_operatorStep_none_iff.mp reads
      refine ⟨none, tokens', reads_operatorStep_none_iff.mpr ⟨rfl, ?_⟩, rfl, window⟩
      rwa [window.front_eq inside]
  | some value =>
      obtain ⟨token, others, build, right, rfl, built, readsRight, rfl⟩ :=
        reads_operatorStep_some_iff.mp reads
      have shorter := (readsRight.suffix transfers.regular).length_le
      obtain ⟨token', others', rfl, sameContent, windowOthers⟩ :=
        window.uncons (Nat.lt_succ_of_lt (Nat.lt_of_lt_of_le inside shorter))
      obtain ⟨right', rest', readsRight', sameRight, windowRest⟩ :=
        transfers.transfer windowOthers readsRight inside
      obtain ⟨build', built', sameBuilt⟩ := build?_content built sameContent
      exact ⟨some (build' left' right'), rest', reads_operatorStep_some_iff.mpr
        ⟨token', others', build', right', rfl, built', readsRight', rfl⟩,
        congrArg some (sameBuilt same sameRight), windowRest⟩

theorem transfers_operatorsRule
    (transfers : Transfers behind behind' Expression.withoutLines operand operand') (bound : Nat)
    (levels : List Level) :
    Transfers behind behind' Expression.withoutLines (operatorsRule operand bound levels)
      (operatorsRule operand' bound levels) := by
  induction levels with
  | nil => exact transfers
  | cons level tighter inductionHypothesis =>
      exact inductionHypothesis.bind fun left left' same =>
        transfers_grow (fun _ _ => transfers_operatorStep inductionHypothesis level) bound same

theorem transfers_assignmentRule
    (transfersOperand : Transfers behind behind' Expression.withoutLines operand operand')
    (transfers : Transfers behind behind' Expression.withoutLines nested nested') (bound : Nat) :
    Transfers behind behind' Expression.withoutLines (assignmentRule operand nested bound)
      (assignmentRule operand' nested' bound) := by
  refine (transfers_operatorsRule transfersOperand bound Level.all).bind fun target target' same => ?_
  refine (transfers_accept? .equal).bind fun equals equals' sameEquals => ?_
  cases equals with
  | none =>
      obtain rfl : equals' = none := by simpa using sameEquals
      exact transfers_pure same
  | some equals =>
      obtain ⟨equals', rfl, _⟩ := Option.map_eq_some_iff.mp sameEquals
      refine transfers.bind fun value value' sameValue => ?_
      cases target with
      | «variable» name reference =>
          obtain ⟨name', rfl⟩ : ∃ name', target' = .variable name' () := by
            cases target' <;>
              simp [Expression.withoutLines, Expression.moveLines] at same ⊢
          have sameName : name'.moveLine (fun _ => 0) = name.moveLine fun _ => 0 := by
            simpa [Expression.withoutLines, Expression.moveLines] using same
          refine transfers_pure ?_
          exact congrArg₂ (fun name value => Expression.assignment name () value) sameName sameValue
      | _ =>
          refine ⟨(regular_report _ _).bind fun _ => regular_pure _, fun _ reads => ?_⟩
          obtain ⟨_, _, noted, _⟩ := reads_bind_iff.mp reads
          exact absurd noted not_reads_report

theorem transfers_unary_and_expression (bound : Nat) :
    Transfers behind behind' Expression.withoutLines (unary bound) (unary bound) ∧
      Transfers behind behind' Expression.withoutLines (expression bound) (expression bound) := by
  induction bound with
  | zero => exact ⟨transfers_fail, transfers_fail⟩
  | succ bound inductionHypothesis =>
      have ⟨transfersUnary, transfers⟩ := inductionHypothesis
      have operands : Transfers behind behind' Expression.withoutLines (unary (bound + 1))
        (unary (bound + 1)) := transfers_unaryRule transfersUnary transfers (bound + 1)
      exact ⟨operands, transfers_assignmentRule operands transfers (bound + 1)⟩

end Expressions

/-! ## Statements -/

section Statements

variable {behind behind' : List Token} {nested nested' : Parser (Expression Unit)}
  {statement statement' : Parser (Statement Unit)}
  {declaration declaration' : Parser (Option (Statement Unit))}

theorem transfers_nameRule (role : NameRole) :
    Transfers behind behind' Name.withoutLine (nameRule role) (nameRule role) := by
  refine ⟨regular_nameRule role, fun {tokens tokens' name rest} window reads inside => ?_⟩
  obtain ⟨token, rfl, isName, rfl⟩ := reads_nameRule_iff.mp reads
  obtain ⟨token', rest', rfl, same, windowRest⟩ := window.uncons (Nat.lt_succ_of_lt inside)
  have kind : token'.kind = token.kind := congrArg Prod.fst same
  have lexeme : token'.lexeme = token.lexeme := by
    simpa [content, kind, isName] using congrArg Prod.snd same
  refine ⟨_, rest', reads_nameRule_iff.mpr ⟨token', rfl, kind.trans isName, rfl⟩, ?_, windowRest⟩
  simp [Name.withoutLine, Name.moveLine, lexeme]

/-- What is read in front of a mark, with the mark. -/
theorem transfers_marked {α γ : Type} {change : α → γ} {parser parser' : Parser α}
    (transfers : Transfers behind behind' change parser parser') (mark : Token.Kind) (site : Site)
    {build build' : α → Statement Unit}
    (same : ∀ value value', change value' = change value →
      (build' value').withoutLines = (build value).withoutLines) :
    Transfers behind behind' Statement.withoutLines
      (do
        let value ← parser
        let _ ← expectMark mark site
        return build value)
      (do
        let value ← parser'
        let _ ← expectMark mark site
        return build' value) :=
  transfers.bind fun value value' sameValue =>
    transfers_expectMark_bind (transfers_pure (same value value' sameValue))

theorem transfers_optionalBefore
    (transfers : Transfers behind behind' Expression.withoutLines nested nested') (mark : Token.Kind) :
    Transfers behind behind' (Option.map Expression.withoutLines) (optionalBefore mark nested)
      (optionalBefore mark nested') :=
  (transfers_nextIs mark).bind_id fun _ => transfers_ite (transfers_pure rfl)
    (transfers.bind fun _ _ same => transfers_pure (congrArg some same))

theorem transfers_expressionStatementRule
    (transfers : Transfers behind behind' Expression.withoutLines nested nested') :
    Transfers behind behind' Statement.withoutLines (expressionStatementRule nested)
      (expressionStatementRule nested') :=
  transfers_marked transfers _ _ fun _ _ same => congrArg Statement.expression same

theorem transfers_variableRule
    (transfers : Transfers behind behind' Expression.withoutLines nested nested') :
    Transfers behind behind' Statement.withoutLines (variableRule nested) (variableRule nested') := by
  refine (transfers_nameRule .variable).bind fun name name' sameName => ?_
  have closing {initializer initializer' : Option (Expression Unit)}
      (same : initializer'.map Expression.withoutLines = initializer.map Expression.withoutLines) :
      Transfers behind behind' Statement.withoutLines
        (do
          let _ ← expectMark .semicolon .afterVariableDeclaration
          return .declaration name initializer)
        (do
          let _ ← expectMark .semicolon .afterVariableDeclaration
          return .declaration name' initializer') :=
    transfers_expectMark_bind (transfers_pure (congrArg₂ Statement.declaration sameName same))
  exact (transfers_accept .equal).bind_id fun _ => transfers_ite
    (transfers.bind fun _ _ same => closing (congrArg some same)) (closing rfl)

theorem transfers_whileRule
    (transfers : Transfers behind behind' Expression.withoutLines nested nested')
    (transfersStatement : Transfers behind behind' Statement.withoutLines statement statement') :
    Transfers behind behind' Statement.withoutLines (whileRule nested statement)
      (whileRule nested' statement') :=
  transfers_expectMark_bind (transfers.bind fun _ _ sameCondition => transfers_expectMark_bind
    (transfersStatement.bind fun _ _ sameBody =>
      transfers_pure (congrArg₂ Statement.loop sameCondition sameBody)))

theorem transfers_conditionalRule
    (transfers : Transfers behind behind' Expression.withoutLines nested nested')
    (transfersStatement : Transfers behind behind' Statement.withoutLines statement statement') :
    Transfers behind behind' Statement.withoutLines (conditionalRule nested statement)
      (conditionalRule nested' statement') := by
  refine transfers_expectMark_bind (transfers.bind fun _ _ sameCondition => ?_)
  refine transfers_expectMark_bind (transfersStatement.bind fun _ _ sameThen => ?_)
  refine transfers_accept_bind (transfersStatement.bind fun _ _ sameElse => ?_) ?_
  · refine transfers_pure ?_
    simp only [Expression.withoutLines] at sameCondition
    simp only [Statement.withoutLines] at sameThen sameElse
    simp only [Statement.withoutLines, Statement.moveLines, sameCondition, sameThen, sameElse]
  · refine transfers_pure ?_
    simp only [Expression.withoutLines] at sameCondition
    simp only [Statement.withoutLines] at sameThen
    simp only [Statement.withoutLines, Statement.moveLines, sameCondition, sameThen]

theorem transfers_initializerRule
    (transfers : Transfers behind behind' Expression.withoutLines nested nested') :
    Transfers behind behind' (Option.map Statement.withoutLines) (initializerRule nested)
      (initializerRule nested') :=
  transfers_accept_bind (transfers_pure rfl) (transfers_accept_bind
    ((transfers_variableRule transfers).bind fun _ _ same => transfers_pure (congrArg some same))
    ((transfers_expressionStatementRule transfers).bind fun _ _ same =>
      transfers_pure (congrArg some same)))

/-- Loops of the same clauses are the same loop. -/
theorem loopOfClauses_withoutLines {initializer initializer' : Option (Statement Unit)}
    {condition condition' increment increment' : Option (Expression Unit)} {body body' : Statement Unit}
    (sameInitializer : initializer'.map Statement.withoutLines = initializer.map Statement.withoutLines)
    (sameCondition : condition'.map Expression.withoutLines = condition.map Expression.withoutLines)
    (sameIncrement : increment'.map Expression.withoutLines = increment.map Expression.withoutLines)
    (sameBody : body'.withoutLines = body.withoutLines) :
    (loopOfClauses initializer' condition' increment' body').withoutLines =
      (loopOfClauses initializer condition increment body).withoutLines := by
  have moved (initializer : Option (Statement Unit)) (condition increment : Option (Expression Unit))
      (body : Statement Unit) :
      (loopOfClauses initializer condition increment body).withoutLines =
        loopOfClauses (initializer.map Statement.withoutLines) (condition.map Expression.withoutLines)
          (increment.map Expression.withoutLines) body.withoutLines := by
    cases initializer <;> cases condition <;> cases increment <;> rfl
  rw [moved, moved, sameInitializer, sameCondition, sameIncrement, sameBody]

theorem transfers_forRule
    (transfers : Transfers behind behind' Expression.withoutLines nested nested')
    (transfersStatement : Transfers behind behind' Statement.withoutLines statement statement') :
    Transfers behind behind' Statement.withoutLines (forRule nested statement)
      (forRule nested' statement') := by
  refine transfers_expectMark_bind ?_
  refine (transfers_initializerRule transfers).bind fun _ _ sameInitializer => ?_
  refine (transfers_optionalBefore transfers .semicolon).bind fun _ _ sameCondition => ?_
  refine transfers_expectMark_bind ?_
  refine (transfers_optionalBefore transfers .rightParen).bind fun _ _ sameIncrement => ?_
  refine transfers_expectMark_bind (transfersStatement.bind fun _ _ sameBody => transfers_pure ?_)
  exact loopOfClauses_withoutLines sameInitializer sameCondition sameIncrement sameBody

theorem listMoveLines_of_map {items items' : List (Statement Unit)}
    (same : items'.map Statement.withoutLines = items.map Statement.withoutLines) :
    Statement.listMoveLines (fun _ => 0) items' = Statement.listMoveLines (fun _ => 0) items := by
  rw [Statement.listMoveLines_eq_map, Statement.listMoveLines_eq_map]
  exact same

variable (transfersDeclaration :
  Transfers behind behind' (Option.map Statement.withoutLines) declaration declaration')

include transfersDeclaration

theorem transfers_blockRule (bound : Nat) :
    Transfers behind behind' (List.map Statement.withoutLines) (blockRule declaration bound)
      (blockRule declaration' bound) :=
  (transfers_many (fun _ _ => atBlockEnd_eq) transfersDeclaration bound).bind fun _ _ same =>
    transfers_expectMark_bind (transfers_pure same)

theorem transfers_functionRule (bound : Nat) :
    Transfers behind behind' Statement.withoutLines (functionRule declaration bound)
      (functionRule declaration' bound) := by
  refine (transfers_nameRule .function).bind fun _ _ sameName => transfers_expectMark_bind ?_
  refine (transfers_list (transfers_nameRule .parameter) bound).bind fun _ _ sameParameters => ?_
  refine transfers_expectMark_bind (transfers_expectMark_bind ?_)
  refine (transfers_blockRule transfersDeclaration bound).bind fun _ _ sameBody => transfers_pure ?_
  have sameItems := listMoveLines_of_map sameBody
  simp only [Name.withoutLine] at sameName
  simp only [Statement.withoutLines, Statement.moveLines, sameName, sameItems]
  rw [show ∀ names : List Name, names.map (·.moveLine fun _ => 0) = names.map Name.withoutLine from
    fun _ => rfl, sameParameters]
  rfl

theorem transfers_statementRule (bound : Nat)
    (transfers : Transfers behind behind' Expression.withoutLines nested nested')
    (transfersStatement : Transfers behind behind' Statement.withoutLines statement statement') :
    Transfers behind behind' Statement.withoutLines (statementRule nested statement declaration bound)
      (statementRule nested' statement' declaration' bound) := by
  refine transfers_accept_bind (transfers_forRule transfers transfersStatement) ?_
  refine transfers_accept_bind (transfers_conditionalRule transfers transfersStatement) ?_
  refine transfers_accept_bind
    (transfers_marked transfers _ _ fun _ _ same => congrArg Statement.print same) ?_
  refine (transfers_accept? _).bind fun keyword keyword' sameKeyword => ?_
  cases keyword with
  | some keyword =>
      obtain ⟨keyword', rfl, _⟩ := Option.map_eq_some_iff.mp sameKeyword
      exact transfers_marked (transfers_optionalBefore transfers .semicolon) _ _ fun _ _ same =>
        congrArg (Statement.returning 0) same
  | none =>
      obtain rfl : keyword' = none := by simpa using sameKeyword
      refine transfers_accept_bind (transfers_whileRule transfers transfersStatement) ?_
      refine transfers_accept_bind ?_ (transfers_expressionStatementRule transfers)
      exact (transfers_blockRule transfersDeclaration bound).bind fun _ _ same =>
        transfers_pure (congrArg Statement.block (listMoveLines_of_map same))

end Statements

/-! ## The nesting -/

theorem transfers_statement_and_declaration {behind behind' : List Token} (bound : Nat) :
    Transfers behind behind' Statement.withoutLines (statement bound) (statement bound) ∧
      Transfers behind behind' (Option.map Statement.withoutLines) (declaration bound)
        (declaration bound) := by
  induction bound with
  | zero =>
      exact ⟨transfers_fail, transfers_recovering transfers_fail (regular_fail _)⟩
  | succ bound inductionHypothesis =>
      have ⟨transfersStatement, transfersDeclaration⟩ := inductionHypothesis
      have transfers : Transfers behind behind' Expression.withoutLines (expression (bound + 1))
        (expression (bound + 1)) := (transfers_unary_and_expression (bound + 1)).2
      have statements : Transfers behind behind' Statement.withoutLines (statement (bound + 1))
          (statement (bound + 1)) :=
        transfers_statementRule transfersDeclaration (bound + 1) transfers transfersStatement
      have ⟨regularStatement, regularDeclaration⟩ := regular_statement_and_declaration bound
      refine ⟨statements, transfers_recovering ?_
        (regular_declarationRule regularStatement regularDeclaration)⟩
      exact transfers_accept_bind (transfers_functionRule transfersDeclaration (bound + 1))
        (transfers_accept_bind (transfers_variableRule transfers) statements)

/-! ## Programs -/

/-- Reading a complete list stops in front of its closing token. -/
theorem complete_rest_of_program {tokens : List Token} (complete : Complete tokens) :
    Complete (program tokens.length tokens).rest :=
  (Nesting.standard.settles_program (Nat.le_refl _) tokens complete (Nat.le_refl _)).1

/-- What is read without a mistake depends on the contents of the tokens alone, up to lines. -/
theorem read_sameContent {tokens tokens' : List Token} {statements : List (Statement Unit)}
    (complete : Complete tokens) (same : SameContent tokens tokens')
    (reads : read tokens = ⟨statements, []⟩) :
    ∃ statements', read tokens' = ⟨statements', []⟩ ∧
      statements'.map Statement.withoutLines = statements.map Statement.withoutLines := by
  obtain ⟨rest, readsProgram⟩ := read_eq_iff.mp reads
  have completeRest := complete_rest_of_program complete
  rw [readsProgram] at completeRest
  have whole : Window [] [] (tokens ++ []) (tokens' ++ []) := Window.append same
  have window : Window [] [] tokens tokens' := by simpa using whole
  have transfers : Transfers [] [] (List.map Statement.withoutLines) (program tokens.length)
      (program tokens.length) :=
    transfers_many (fun _ _ => atEnd_eq) (transfers_statement_and_declaration tokens.length).2
      tokens.length
  obtain ⟨statements', rest', readsProgram', sameStatements, _⟩ :=
    transfers.transfer window readsProgram completeRest.length_pos
  rw [same.length_eq] at readsProgram'
  exact ⟨statements', read_eq_iff.mpr ⟨rest', readsProgram'⟩, sameStatements⟩

end Grammar

end LoxInterpreter
