import LoxInterpreter.Proofs.Grammar.Progress
import LoxInterpreter.Proofs.Grammar.Rules

/-!
Contract: no bound is met, and nothing behind the closing token is looked at.

The parsers take a bound on the nesting, and their loops one on the rounds. Neither shows: from the
length of the token list on, every bound gives the same reply, whatever parsers stand at the bottom of
the nesting. Nor does it matter what stands behind the token that closes the list, so no parser looks
further than that.

Owns: `Token.Complete`, `Nesting`, `Parser.Settles`, and `read_total`.
Does not own: that declarations move forward (`Proofs.Grammar.Progress`).
-/

namespace LoxInterpreter

/-- Whether a token list ends in its only closing token. -/
inductive Token.Complete : List Token → Prop
  | last {token : Token} (closes : token.kind = .endOfInput) : Complete [token]
  | cons {token : Token} {rest : List Token} (inner : token.kind ≠ .endOfInput)
      (complete : Complete rest) : Complete (token :: rest)

namespace Token

theorem complete_append {body : List Token} {last : Token} (inner : Inner body)
    (isLast : last.kind = .endOfInput) : Complete (body ++ [last]) := by
  induction body with
  | nil => exact .last isLast
  | cons token rest inductionHypothesis =>
      obtain ⟨innerToken, innerRest⟩ := inner_cons.mp inner
      exact .cons innerToken (inductionHypothesis innerRest)

theorem Complete.length_pos {tokens : List Token} (complete : Complete tokens) :
    0 < tokens.length := by
  cases complete <;> simp

/-- Behind a token that does not close a complete list stands a complete list. -/
theorem Complete.tail {token : Token} {rest : List Token} (complete : Complete (token :: rest))
    (inner : token.kind ≠ .endOfInput) : Complete rest := by
  cases complete with
  | last closes => exact absurd closes inner
  | cons _ complete => exact complete

theorem Complete.eq_singleton {token : Token} {rest : List Token}
    (complete : Complete (token :: rest)) (closes : token.kind = .endOfInput) : rest = [] := by
  cases complete with
  | last _ => rfl
  | cons inner _ => exact absurd closes inner

/-- Without one of its inner tokens a list is still complete, and so is what stands behind the token. -/
theorem Complete.without {before behind : List Token} {token : Token}
    (complete : Complete (before ++ token :: behind)) (inner : token.kind ≠ .endOfInput) :
    Complete behind ∧ Complete (before ++ behind) := by
  induction before with
  | nil => exact ⟨complete.tail inner, complete.tail inner⟩
  | cons first before inductionHypothesis =>
      have innerFirst : first.kind ≠ .endOfInput := fun closes =>
        absurd (complete.eq_singleton closes) (by simp)
      have ⟨completeBehind, completeRest⟩ := inductionHypothesis (complete.tail innerFirst)
      exact ⟨completeBehind, .cons innerFirst completeRest⟩

/-- An end of a complete list that begins with its closing token is that token. -/
theorem eq_last_of_suffix {body tokens : List Token} {last : Token} (suffix : tokens <:+ body ++ [last])
    (complete : Complete tokens) (ends : Grammar.front tokens = .endOfInput) : tokens = [last] := by
  cases complete with
  | last closes =>
      have same := List.singleton_suffix_iff_getLast?_eq_some.mp suffix
      simpa [eq_comm] using same
  | cons notEnd _ => exact absurd ends notEnd

end Token

namespace Grammar

open Token LoxInterpreter.Grammar.Parser

/-- The same reply, with more tokens behind those that remain. -/
def Reply.extend {α : Type} (reply : Reply α) (beyond : List Token) : Reply α :=
  { reply with rest := reply.rest ++ beyond }

namespace Parser

variable {α β : Type} {limit : Nat}

/-- Whether a parser leaves a complete list of some tokens, and another parser replies to them as it
does, whatever stands behind the closing token. -/
def SettlesAt (tokens : List Token) (parser parser' : Parser α) : Prop :=
  Complete (parser tokens).rest ∧ (parser tokens).rest.length ≤ tokens.length ∧
    ∀ beyond, parser' (tokens ++ beyond) = (parser tokens).extend beyond

theorem settlesAt_of_eq {parser parser' : Parser α} {tokens : List Token} {reply : Reply α}
    (replies : parser tokens = reply) (complete : Complete reply.rest)
    (shorter : reply.rest.length ≤ tokens.length)
    (same : ∀ beyond, parser' (tokens ++ beyond) = reply.extend beyond) :
    SettlesAt tokens parser parser' := by
  subst replies
  exact ⟨complete, shorter, same⟩

/-- Whether this is so for all complete lists up to a length. -/
def Settles (limit : Nat) (parser parser' : Parser α) : Prop :=
  ∀ tokens, Complete tokens → tokens.length ≤ limit → SettlesAt tokens parser parser'

theorem Settles.mono {parser parser' : Parser α} {smaller : Nat} (settles : Settles limit parser parser')
    (le : smaller ≤ limit) : Settles smaller parser parser' :=
  fun tokens complete short => settles tokens complete (Nat.le_trans short le)

/-- No complete list has length zero. -/
theorem settles_zero {parser parser' : Parser α} : Settles 0 parser parser' := by
  intro tokens complete short
  have pos := complete.length_pos
  omega

/-- The front of a complete list does not depend on what stands behind the list. -/
theorem currentToken_append {tokens : List Token} (complete : Complete tokens) (beyond : List Token) :
    currentToken (tokens ++ beyond) = currentToken tokens := by
  cases complete <;> rfl

theorem front_append {tokens : List Token} (complete : Complete tokens) (beyond : List Token) :
    front (tokens ++ beyond) = front tokens := by
  unfold front
  rw [currentToken_append complete]

/-! ## Primitives -/

theorem settles_pure (value : α) : Settles limit (pure value) (pure value) :=
  fun _ complete _ => ⟨complete, Nat.le_refl _, fun _ => rfl⟩

theorem settles_fail (cause : SyntaxError.Cause) : Settles limit (fail cause : Parser α) (fail cause) := by
  refine fun tokens complete _ => ⟨complete, Nat.le_refl _, fun beyond => ?_⟩
  simp only [fail, currentToken_append complete, Reply.extend]

theorem settles_nextIs (kind : Token.Kind) : Settles limit (nextIs kind) (nextIs kind) := by
  refine fun tokens complete _ => ⟨complete, Nat.le_refl _, fun beyond => ?_⟩
  simp only [nextIs, currentToken_append complete, Reply.extend]

theorem settles_report (cause : SyntaxError.Cause) (token : Token) :
    Settles limit (report cause token) (report cause token) :=
  fun _ complete _ => ⟨complete, Nat.le_refl _, fun _ => rfl⟩

theorem settles_reportHere (cause : SyntaxError.Cause) :
    Settles limit (reportHere cause) (reportHere cause) := by
  refine fun tokens complete _ => ⟨complete, Nat.le_refl _, fun beyond => ?_⟩
  simp only [reportHere, currentToken_append complete, Reply.extend]

theorem settles_take? (choose : Token → Option α) : Settles limit (take? choose) (take? choose) := by
  intro tokens complete _
  cases complete with
  | @last token closes =>
      have unchanged (beyond : List Token) :
          take? choose (token :: beyond) = ⟨some none, [], token :: beyond⟩ := by
        simp [take?, closes]
      exact settlesAt_of_eq (unchanged []) (.last closes) (Nat.le_refl _) unchanged
  | @cons token rest inner complete =>
      cases chosen : choose token with
      | none =>
          have unchanged (others : List Token) :
              take? choose (token :: others) = ⟨some none, [], token :: others⟩ := by
            simp [take?, inner, chosen]
          exact settlesAt_of_eq (unchanged rest) (.cons inner complete) (Nat.le_refl _)
            fun beyond => unchanged (rest ++ beyond)
      | some value =>
          have taken (others : List Token) :
              take? choose (token :: others) = ⟨some (some value), [], others⟩ := by
            simp [take?, inner, chosen]
          exact settlesAt_of_eq (taken rest) complete (Nat.le_succ _)
            fun beyond => taken (rest ++ beyond)

/-! ## Sequences -/

/-- A sequence settles where both halves do. The second half need only settle on what the first one
leaves. -/
theorem SettlesAt.bind {first first' : Parser α} {next next' : α → Parser β} {tokens : List Token}
    (settles : SettlesAt tokens first first')
    (settlesNext : ∀ value, (first tokens).value = some value → Complete (first tokens).rest →
      (first tokens).rest.length ≤ tokens.length →
      SettlesAt (first tokens).rest (next value) (next' value)) :
    SettlesAt tokens (first >>= next) (first' >>= next') := by
  have ⟨completeFirst, shorter, same⟩ := settles
  cases isValue : (first tokens).value with
  | none =>
      refine settlesAt_of_eq (bind_of_none isValue) completeFirst shorter fun beyond => ?_
      have gaveUp : (first' (tokens ++ beyond)).value = none := by rw [same]; exact isValue
      rw [bind_of_none gaveUp, same]
      rfl
  | some value =>
      have ⟨completeNext, shorterNext, sameNext⟩ := settlesNext value isValue completeFirst shorter
      refine settlesAt_of_eq (bind_of_value isValue) completeNext (Nat.le_trans shorterNext shorter)
        fun beyond => ?_
      have replied : (first' (tokens ++ beyond)).value = some value := by rw [same]; exact isValue
      rw [bind_of_value replied, same]
      simp only [Reply.extend, sameNext]

theorem Settles.bind {first first' : Parser α} {next next' : α → Parser β}
    (settles : Settles limit first first')
    (settlesNext : ∀ value, Settles limit (next value) (next' value)) :
    Settles limit (first >>= next) (first' >>= next') :=
  fun tokens complete short => (settles tokens complete short).bind
    fun value _ completeRest shorter => settlesNext value _ completeRest (Nat.le_trans shorter short)

/-- Behind a token that was taken, it is enough to settle on shorter lists. -/
theorem settles_take?_bind {choose : Token → Option α} {next next' : Option α → Parser β}
    (taken : ∀ value, Settles limit (next (some value)) (next' (some value)))
    (declined : Settles (limit + 1) (next none) (next' none)) :
    Settles (limit + 1) (take? choose >>= next) (take? choose >>= next') := by
  intro tokens complete short
  refine (settles_take? choose tokens complete short).bind fun choice replied completeRest shorter => ?_
  cases choice with
  | none => exact declined _ completeRest (Nat.le_trans shorter short)
  | some value =>
      have progress := advances_take? choose tokens value replied
      exact taken value _ completeRest (by omega)

theorem settles_accept_bind {kind : Token.Kind} {next next' other other' : Parser β}
    (taken : Settles limit next next') (declined : Settles (limit + 1) other other') :
    Settles (limit + 1) (do if ← accept kind then next else other)
      (do if ← accept kind then next' else other') := by
  rw [accept_bind_eq, accept_bind_eq]
  exact settles_take?_bind (fun _ => taken) declined

theorem settles_accept (kind : Token.Kind) : Settles limit (accept kind) (accept kind) :=
  (settles_take? _).bind fun _ => settles_pure _

theorem settles_expect (kind : Token.Kind) (cause : SyntaxError.Cause) :
    Settles limit (expect kind cause) (expect kind cause) := by
  refine (settles_take? _).bind fun taken => ?_
  cases taken with
  | none => exact settles_fail cause
  | some token => exact settles_pure token

theorem settles_ite {condition : Prop} [Decidable condition] {first first' second second' : Parser α}
    (settles : Settles limit first first') (settlesOther : Settles limit second second') :
    Settles limit (if condition then first else second) (if condition then first' else second') := by
  split
  · exact settles
  · exact settlesOther

/-! ## Repetition -/

/-- Growing settles: every round takes a token, so no bound on the rounds is met. -/
theorem settles_grow {step step' : α → Parser (Option α)}
    (settles : ∀ value, Settles limit (step value) (step' value))
    (advances : ∀ value, (step value).Advances) {bound bound' : Nat} (enough : limit ≤ bound)
    (enough' : limit ≤ bound') (value : α) :
    Settles limit (grow step bound value) (grow step' bound' value) := by
  induction limit generalizing bound bound' value with
  | zero => exact settles_zero
  | succ limit inductionHypothesis =>
      obtain ⟨bound, rfl⟩ := Nat.exists_eq_add_of_le' (Nat.le_trans (Nat.le_add_left 1 limit) enough)
      obtain ⟨bound', rfl⟩ := Nat.exists_eq_add_of_le' (Nat.le_trans (Nat.le_add_left 1 limit) enough')
      intro tokens complete short
      refine (settles value tokens complete short).bind fun grown? replied completeRest shorter => ?_
      cases grown? with
      | none => exact settles_pure value _ completeRest (Nat.le_trans shorter short)
      | some grown =>
          have progress := advances value tokens grown replied
          exact inductionHypothesis (fun value => (settles value).mono (Nat.le_succ limit))
            (Nat.le_of_succ_le_succ enough) (Nat.le_of_succ_le_succ enough') grown _ completeRest
            (by omega)

theorem settles_commaSeparated {item item' : Parser α} {excess : SyntaxError.Cause}
    (settles : Settles limit item item') {bound bound' : Nat} (enough : limit ≤ bound)
    (enough' : limit ≤ bound') (count : Nat) :
    Settles limit (commaSeparated item excess bound count)
      (commaSeparated item' excess bound' count) := by
  induction limit generalizing bound bound' count with
  | zero => exact settles_zero
  | succ limit inductionHypothesis =>
      obtain ⟨bound, rfl⟩ := Nat.exists_eq_add_of_le' (Nat.le_trans (Nat.le_add_left 1 limit) enough)
      obtain ⟨bound', rfl⟩ := Nat.exists_eq_add_of_le' (Nat.le_trans (Nat.le_add_left 1 limit) enough')
      have later := inductionHypothesis (settles.mono (Nat.le_succ limit))
        (Nat.le_of_succ_le_succ enough) (Nat.le_of_succ_le_succ enough') (count + 1)
      have following : Settles (limit + 1)
          (do
            let first ← item
            if ← accept .comma then
              return first :: (← commaSeparated item excess bound (count + 1))
            else return [first] : Parser (List α))
          (do
            let first ← item'
            if ← accept .comma then
              return first :: (← commaSeparated item' excess bound' (count + 1))
            else return [first]) :=
        settles.bind fun first =>
          settles_accept_bind (later.bind fun _ => settles_pure _) (settles_pure _)
      rw [commaSeparated, commaSeparated]
      exact settles_ite ((settles_reportHere excess).bind fun _ => following) following

theorem settles_list {item item' : Parser α} {excess : SyntaxError.Cause}
    (settles : Settles limit item item') {bound bound' : Nat} (enough : limit ≤ bound)
    (enough' : limit ≤ bound') :
    Settles limit (list item excess bound) (list item' excess bound') :=
  (settles_nextIs .rightParen).bind fun _ =>
    settles_ite (settles_pure _) (settles_commaSeparated settles enough enough' 0)

/-! ## Recovery -/

theorem boundaryAfter_append {tokens : List Token} (complete : Complete tokens) (previous : Token)
    (beyond : List Token) :
    Complete (boundaryAfter previous tokens) ∧
      boundaryAfter previous (tokens ++ beyond) = boundaryAfter previous tokens ++ beyond := by
  induction complete generalizing previous with
  | @last token closes =>
      have ends (rest : List Token) : atEnd (token :: rest) = true := by
        simp [atEnd, currentToken, closes]
      simp [boundaryAfter, ends, Complete.last closes]
  | @cons token rest inner complete inductionHypothesis =>
      have same : atEnd (token :: (rest ++ beyond)) = atEnd (token :: rest) := rfl
      rw [List.cons_append, boundaryAfter, boundaryAfter, same]
      split
      · exact ⟨.cons inner complete, rfl⟩
      · exact inductionHypothesis token

theorem resumption_append {tokens : List Token} (complete : Complete tokens) (beyond : List Token) :
    Complete (resumption tokens) ∧ resumption (tokens ++ beyond) = resumption tokens ++ beyond := by
  cases complete with
  | @last token closes =>
      have ends (rest : List Token) : atEnd (token :: rest) = true := by
        simp [atEnd, currentToken, closes]
      simp [resumption, ends, Complete.last closes]
  | @cons token rest inner complete =>
      have same : atEnd (token :: (rest ++ beyond)) = atEnd (token :: rest) := rfl
      rw [List.cons_append, resumption, resumption, same]
      split
      · exact ⟨.cons inner complete, rfl⟩
      · exact boundaryAfter_append complete token beyond

theorem settles_recovering {parser parser' : Parser α} (settles : Settles limit parser parser') :
    Settles limit parser.recovering parser'.recovering := by
  intro tokens complete short
  have ⟨completeRest, shorter, same⟩ := settles tokens complete short
  cases isValue : (parser tokens).value with
  | some value =>
      refine settlesAt_of_eq (recovering_of_value isValue) completeRest shorter fun beyond => ?_
      have replied : (parser' (tokens ++ beyond)).value = some value := by rw [same]; exact isValue
      rw [recovering_of_value replied, same]
      rfl
  | none =>
      have resumes := resumption_append completeRest
      refine settlesAt_of_eq (recovering_of_none isValue) (resumes []).1
        (Nat.le_trans (resumption_suffix _).length_le shorter) fun beyond => ?_
      have gaveUp : (parser' (tokens ++ beyond)).value = none := by rw [same]; exact isValue
      rw [recovering_of_none gaveUp, same]
      simp only [Reply.extend, (resumes beyond).2]

/-- Items settle one after another if each of them moves forward. -/
theorem settles_many {item item' : Parser (Option α)} {stop : List Token → Bool}
    (sameStop : ∀ tokens tokens', front tokens = front tokens' → stop tokens = stop tokens')
    (settles : Settles limit item item')
    (forward : ∀ tokens, stop tokens = false → (item tokens).rest.length < tokens.length)
    {bound bound' : Nat} (enough : limit ≤ bound) (enough' : limit ≤ bound') :
    Settles limit (many item stop bound) (many item' stop bound') := by
  induction limit generalizing bound bound' with
  | zero => exact settles_zero
  | succ limit inductionHypothesis =>
      obtain ⟨bound, rfl⟩ := Nat.exists_eq_add_of_le' (Nat.le_trans (Nat.le_add_left 1 limit) enough)
      obtain ⟨bound', rfl⟩ := Nat.exists_eq_add_of_le' (Nat.le_trans (Nat.le_add_left 1 limit) enough')
      have later := inductionHypothesis (settles.mono (Nat.le_succ limit))
        (Nat.le_of_succ_le_succ enough) (Nat.le_of_succ_le_succ enough')
      intro tokens complete short
      have sameHere (beyond : List Token) : stop (tokens ++ beyond) = stop tokens :=
        sameStop _ _ (front_append complete beyond)
      unfold SettlesAt
      simp only [many, sameHere]
      cases stops : stop tokens with
      | true => exact ⟨complete, Nat.le_refl _, fun beyond => rfl⟩
      | false =>
          have progress := forward tokens stops
          have rounds : SettlesAt tokens
              (do let first ← item; return first.toList ++ (← many item stop bound) :
                Parser (List α))
              (do let first ← item'; return first.toList ++ (← many item' stop bound')) :=
            (settles tokens complete short).bind fun first _ completeRest _ =>
              (later _ completeRest (by omega)).bind fun others _ completeLast shorterLast =>
                settles_pure _ _ completeLast shorterLast
          exact rounds

end Parser

/-! ## Expressions -/

section Expressions

variable {limit bound bound' : Nat}
  {nested nested' nestedUnary nestedUnary' operand operand' : Parser (Expression Unit)}

theorem settles_primaryRule (settles : Settles limit nested nested') :
    Settles (limit + 1) (primaryRule nested) (primaryRule nested') := by
  refine settles_take?_bind (fun atom => settles_pure atom) ?_
  refine settles_accept_bind ?_ (settles_fail _)
  exact settles.bind fun _ => (settles_expect _ _).bind fun _ => settles_pure _

theorem settles_callStep (settles : Settles limit nested nested') (enough : limit ≤ bound)
    (enough' : limit ≤ bound') (callee : Expression Unit) :
    Settles (limit + 1) (callStep nested bound callee) (callStep nested' bound' callee) := by
  refine settles_accept_bind ?_ (settles_pure _)
  exact (settles_list settles enough enough').bind fun _ =>
    (settles_expect _ _).bind fun _ => settles_pure _

theorem settles_callRule (settles : Settles limit nested nested') (regular : nested.Regular)
    (enough : limit + 1 ≤ bound) (enough' : limit + 1 ≤ bound') :
    Settles (limit + 1) (callRule nested bound) (callRule nested' bound') := by
  refine (settles_primaryRule settles).bind fun callee => ?_
  exact settles_grow
    (settles_callStep settles (Nat.le_of_succ_le enough) (Nat.le_of_succ_le enough'))
    (advances_callStep regular bound) enough enough' callee

theorem settles_unaryRule (settlesUnary : Settles limit nestedUnary nestedUnary')
    (settles : Settles limit nested nested') (regular : nested.Regular)
    (enough : limit + 1 ≤ bound) (enough' : limit + 1 ≤ bound') :
    Settles (limit + 1) (unaryRule nestedUnary nested bound)
      (unaryRule nestedUnary' nested' bound') :=
  settles_take?_bind (fun _ => settlesUnary.bind fun _ => settles_pure _)
    (settles_callRule settles regular enough enough')

theorem settles_operatorStep (settles : Settles limit operand operand') (level : Level)
    (left : Expression Unit) :
    Settles limit (operatorStep level operand left) (operatorStep level operand' left) := by
  refine (settles_take? level.build?).bind fun build => ?_
  cases build with
  | none => exact settles_pure _
  | some build => exact settles.bind fun _ => settles_pure _

theorem settles_operatorsRule (settles : Settles limit operand operand') (regular : operand.Regular)
    (enough : limit ≤ bound) (enough' : limit ≤ bound') (levels : List Level) :
    Settles limit (operatorsRule operand bound levels) (operatorsRule operand' bound' levels) := by
  induction levels with
  | nil => exact settles
  | cons level tighter inductionHypothesis =>
      have regularTighter := regular_operatorsRule regular bound tighter
      exact inductionHypothesis.bind fun left =>
        settles_grow (settles_operatorStep inductionHypothesis level)
          (advances_operatorStep regularTighter level) enough enough' left

theorem settles_assignmentRule (settlesOperand : Settles (limit + 1) operand operand')
    (regular : operand.Regular) (settles : Settles limit nested nested')
    (enough : limit + 1 ≤ bound) (enough' : limit + 1 ≤ bound') :
    Settles (limit + 1) (assignmentRule operand nested bound)
      (assignmentRule operand' nested' bound') := by
  refine (settles_operatorsRule settlesOperand regular enough enough' Level.all).bind fun target => ?_
  refine settles_take?_bind (fun equals => settles.bind fun assigned => ?_) (settles_pure target)
  cases target with
  | «variable» name reference => exact settles_pure _
  | _ => exact (settles_report _ _).bind fun _ => settles_pure _

end Expressions

/-! ## Statements -/

section Statements

variable {limit bound bound' : Nat} {nested nested' : Parser (Expression Unit)}
  {statement statement' : Parser (Statement Unit)}
  {declaration declaration' : Parser (Option (Statement Unit))}

theorem settles_nameRule (role : NameRole) : Settles limit (nameRule role) (nameRule role) :=
  (settles_expect _ _).bind fun _ => settles_pure _

/-- What is read in front of a mark, with the mark. -/
theorem settles_marked {α : Type} {parser parser' : Parser α} (settles : Settles limit parser parser')
    (mark : Token.Kind) (site : Site) {build : α → Statement Unit} :
    Settles limit
      (do
        let value ← parser
        let _ ← expectMark mark site
        return build value : Parser (Statement Unit))
      (do
        let value ← parser'
        let _ ← expectMark mark site
        return build value) :=
  settles.bind fun _ => (settles_expect _ _).bind fun _ => settles_pure _

theorem settles_optionalBefore (settles : Settles limit nested nested') (mark : Token.Kind) :
    Settles limit (optionalBefore mark nested) (optionalBefore mark nested') :=
  (settles_nextIs mark).bind fun _ =>
    settles_ite (settles_pure _) (settles.bind fun _ => settles_pure _)

theorem settles_variableRule (settles : Settles limit nested nested') :
    Settles limit (variableRule nested) (variableRule nested') := by
  refine (settles_nameRule _).bind fun name => (settles_accept .equal).bind fun _ => ?_
  have closing (initializer : Option (Expression Unit)) : Settles limit
      (do
        let _ ← expectMark .semicolon .afterVariableDeclaration
        return .declaration name initializer : Parser (Statement Unit))
      (do
        let _ ← expectMark .semicolon .afterVariableDeclaration
        return .declaration name initializer) :=
    (settles_expect _ _).bind fun _ => settles_pure _
  exact settles_ite (settles.bind fun _ => closing _) (closing _)

theorem settles_forRule (settles : Settles limit nested nested')
    (settlesStatement : Settles limit statement statement') :
    Settles limit (forRule nested statement) (forRule nested' statement') := by
  have initializer : Settles limit (initializerRule nested) (initializerRule nested') :=
    (settles_accept .semicolon).bind fun _ => settles_ite (settles_pure _)
      ((settles_accept _).bind fun _ => settles_ite
        ((settles_variableRule settles).bind fun _ => settles_pure _)
        ((settles_marked settles .semicolon .afterExpression).bind fun _ => settles_pure _))
  refine (settles_expect _ _).bind fun _ => initializer.bind fun _ => ?_
  refine (settles_optionalBefore settles _).bind fun _ => (settles_expect _ _).bind fun _ => ?_
  refine (settles_optionalBefore settles _).bind fun _ => (settles_expect _ _).bind fun _ => ?_
  exact settlesStatement.bind fun _ => settles_pure _

theorem settles_conditionalRule (settles : Settles limit nested nested')
    (settlesStatement : Settles limit statement statement') :
    Settles limit (conditionalRule nested statement) (conditionalRule nested' statement') := by
  refine (settles_expect _ _).bind fun _ => settles.bind fun _ => (settles_expect _ _).bind fun _ => ?_
  refine settlesStatement.bind fun _ => (settles_accept _).bind fun _ => ?_
  exact settles_ite (settlesStatement.bind fun _ => settles_pure _) (settles_pure _)

theorem settles_whileRule (settles : Settles limit nested nested')
    (settlesStatement : Settles limit statement statement') :
    Settles limit (whileRule nested statement) (whileRule nested' statement') :=
  (settles_expect _ _).bind fun _ => settles.bind fun _ => (settles_expect _ _).bind fun _ =>
    settlesStatement.bind fun _ => settles_pure _

theorem atBlockEnd_eq {tokens tokens' : List Token} (same : front tokens = front tokens') :
    atBlockEnd tokens = atBlockEnd tokens' := by
  unfold front at same
  simp only [atBlockEnd, atEnd, same]

theorem atEnd_eq {tokens tokens' : List Token} (same : front tokens = front tokens') :
    atEnd tokens = atEnd tokens' := by
  unfold front at same
  simp only [atEnd, same]

/-- Inside a block no list is at the end. -/
theorem atEnd_eq_false_of_atBlockEnd {tokens : List Token} (inside : atBlockEnd tokens = false) :
    atEnd tokens = false := by
  simp only [atBlockEnd, Bool.or_eq_false_iff] at inside
  exact inside.2

variable (settlesDeclaration : Settles limit declaration declaration')
  (forward : ∀ tokens, atEnd tokens = false → (declaration tokens).rest.length < tokens.length)
  (enough : limit ≤ bound) (enough' : limit ≤ bound')

include settlesDeclaration forward enough enough'

theorem settles_blockRule :
    Settles limit (blockRule declaration bound) (blockRule declaration' bound') := by
  refine (settles_many (fun _ _ => atBlockEnd_eq) settlesDeclaration
    (fun tokens inside => forward tokens (atEnd_eq_false_of_atBlockEnd inside)) enough enough').bind
    fun _ => ?_
  exact (settles_expect _ _).bind fun _ => settles_pure _

theorem settles_functionRule :
    Settles limit (functionRule declaration bound) (functionRule declaration' bound') := by
  refine (settles_nameRule _).bind fun _ => (settles_expect _ _).bind fun _ => ?_
  refine (settles_list (settles_nameRule _) enough enough').bind fun _ => ?_
  refine (settles_expect _ _).bind fun _ => (settles_expect _ _).bind fun _ => ?_
  exact (settles_blockRule settlesDeclaration forward enough enough').bind fun _ => settles_pure _

theorem settles_statementRule {expression expression' : Parser (Expression Unit)}
    (settles : Settles (limit + 1) expression expression')
    (settlesStatement : Settles limit statement statement') :
    Settles (limit + 1) (statementRule expression statement declaration bound)
      (statementRule expression' statement' declaration' bound') := by
  have settlesNested := settles.mono (Nat.le_succ limit)
  refine settles_accept_bind (settles_forRule settlesNested settlesStatement) ?_
  refine settles_accept_bind (settles_conditionalRule settlesNested settlesStatement) ?_
  refine settles_accept_bind (settles_marked settlesNested .semicolon .afterValue) ?_
  refine settles_take?_bind (fun keyword => settles_marked
    (settles_optionalBefore settlesNested .semicolon) .semicolon .afterReturnValue) ?_
  refine settles_accept_bind (settles_whileRule settlesNested settlesStatement) ?_
  refine settles_accept_bind ?_ (settles_marked settles .semicolon .afterExpression)
  exact (settles_blockRule settlesDeclaration forward enough enough').bind fun _ => settles_pure _

end Statements

/-! ## The nesting -/

/-- Parsers for every bound on the nesting, each made by the rules from those for the bound below. What
stands at the bottom is left open. -/
structure Nesting where
  unary : Nat → Parser (Expression Unit)
  expression : Nat → Parser (Expression Unit)
  statement : Nat → Parser (Statement Unit)
  declaration : Nat → Parser (Option (Statement Unit))
  unary_succ : ∀ bound, unary (bound + 1) =
    unaryRule (unary bound) (expression bound) (bound + 1)
  expression_succ : ∀ bound, expression (bound + 1) =
    assignmentRule (unary (bound + 1)) (expression bound) (bound + 1)
  statement_succ : ∀ bound, statement (bound + 1) =
    statementRule (expression (bound + 1)) (statement bound) (declaration bound) (bound + 1)
  declaration_succ : ∀ bound, declaration (bound + 1) =
    (declarationRule (expression (bound + 1)) (statement (bound + 1)) (declaration bound)
      (bound + 1)).recovering

namespace Nesting

/-- All declarations up to the end. -/
def program (nesting : Nesting) (bound : Nat) : Parser (List (Statement Unit)) :=
  many (nesting.declaration bound) atEnd bound

/-- The parsers of the grammar, which give up at the bottom. -/
def standard : Nesting where
  unary := Grammar.unary
  expression := Grammar.expression
  statement := Grammar.statement
  declaration := Grammar.declaration
  unary_succ _ := rfl
  expression_succ _ := rfl
  statement_succ _ := rfl
  declaration_succ _ := rfl

variable (nesting : Nesting)

theorem settles_unary_and_expression (limit : Nat) {bound bound' : Nat} (enough : limit ≤ bound)
    (enough' : limit ≤ bound') :
    Settles limit (Grammar.unary bound) (nesting.unary bound') ∧
      Settles limit (Grammar.expression bound) (nesting.expression bound') := by
  induction limit generalizing bound bound' with
  | zero => exact ⟨settles_zero, settles_zero⟩
  | succ limit inductionHypothesis =>
      obtain ⟨bound, rfl⟩ := Nat.exists_eq_add_of_le' (Nat.le_trans (Nat.le_add_left 1 limit) enough)
      obtain ⟨bound', rfl⟩ := Nat.exists_eq_add_of_le' (Nat.le_trans (Nat.le_add_left 1 limit) enough')
      have ⟨settlesUnary, settles⟩ := inductionHypothesis (Nat.le_of_succ_le_succ enough)
        (Nat.le_of_succ_le_succ enough')
      have ⟨regularUnary, regular⟩ := regular_unary_and_expression bound
      have operands : Settles (limit + 1) (Grammar.unary (bound + 1)) (nesting.unary (bound' + 1)) := by
        rw [nesting.unary_succ]
        exact settles_unaryRule settlesUnary settles regular enough enough'
      refine ⟨operands, ?_⟩
      rw [nesting.expression_succ]
      exact settles_assignmentRule operands (regular_unaryRule regularUnary regular (bound + 1)) settles
        enough enough'

theorem settles_statement_and_declaration (limit : Nat) {bound bound' : Nat} (enough : limit ≤ bound)
    (enough' : limit ≤ bound') :
    Settles limit (Grammar.statement bound) (nesting.statement bound') ∧
      Settles limit (Grammar.declaration bound) (nesting.declaration bound') := by
  induction limit generalizing bound bound' with
  | zero => exact ⟨settles_zero, settles_zero⟩
  | succ limit inductionHypothesis =>
      have settles := (nesting.settles_unary_and_expression (limit + 1) enough enough').2
      obtain ⟨bound, rfl⟩ := Nat.exists_eq_add_of_le' (Nat.le_trans (Nat.le_add_left 1 limit) enough)
      obtain ⟨bound', rfl⟩ := Nat.exists_eq_add_of_le' (Nat.le_trans (Nat.le_add_left 1 limit) enough')
      have ⟨settlesStatement, settlesDeclaration⟩ := inductionHypothesis (Nat.le_of_succ_le_succ enough)
        (Nat.le_of_succ_le_succ enough')
      have forward (tokens : List Token) (inside : atEnd tokens = false) :=
        declaration_length_lt bound inside
      have statements : Settles (limit + 1) (Grammar.statement (bound + 1))
          (nesting.statement (bound' + 1)) := by
        rw [nesting.statement_succ]
        exact settles_statementRule settlesDeclaration forward (Nat.le_of_succ_le enough)
          (Nat.le_of_succ_le enough') settles settlesStatement
      refine ⟨statements, ?_⟩
      rw [nesting.declaration_succ]
      refine settles_recovering (settles_accept_bind ?_ (settles_accept_bind ?_ statements))
      · exact settles_functionRule settlesDeclaration forward (Nat.le_of_succ_le enough)
          (Nat.le_of_succ_le enough')
      · exact (settles_variableRule settles).mono (Nat.le_succ limit)

theorem settles_program {limit bound : Nat} (enough : limit ≤ bound) :
    Settles limit (Grammar.program limit) (nesting.program bound) :=
  settles_many (fun _ _ => atEnd_eq)
    (nesting.settles_statement_and_declaration limit (Nat.le_refl _) enough).2
    (fun _ => declaration_length_lt limit) (Nat.le_refl _) enough

end Nesting

/-! ## Programs -/

/-- From the length of a complete list on, the bound does not show in the mistakes. -/
theorem errors_eq_of_bound {tokens : List Token} {bound : Nat} (complete : Complete tokens)
    (enough : tokens.length ≤ bound) : (program bound tokens).errors = (read tokens).errors := by
  have same := (Nesting.standard.settles_program enough _ complete (Nat.le_refl _)).2.2 []
  rw [List.append_nil] at same
  change (Nesting.standard.program bound tokens).errors = (program tokens.length tokens).errors
  rw [same]
  rfl

/-- Items that always reply with a value, and move forward, are repeated until the tokens say stop. -/
theorem Parser.many_ends {α : Type} {item : Parser (Option α)} {stop : List Token → Bool}
    (replies : ∀ tokens, (item tokens).value ≠ none)
    (forward : ∀ tokens, stop tokens = false → (item tokens).rest.length < tokens.length) {bound : Nat}
    {tokens : List Token} (enough : tokens.length ≤ bound) (stopsEmpty : stop [] = true) :
    ∃ items, (many item stop bound tokens).value = some items ∧
      stop (many item stop bound tokens).rest = true := by
  induction bound generalizing tokens with
  | zero =>
      have empty : tokens = [] := List.length_eq_zero_iff.mp (Nat.le_zero.mp enough)
      rw [empty]
      exact ⟨[], rfl, stopsEmpty⟩
  | succ bound inductionHypothesis =>
      cases stops : stop tokens with
      | true => exact ⟨[], by simp [many, stops], by simp [many, stops]⟩
      | false =>
          obtain ⟨first, isFirst⟩ := Option.ne_none_iff_exists'.mp (replies tokens)
          have progress := forward tokens stops
          obtain ⟨items, isItems, ends⟩ :=
            inductionHypothesis (show (item tokens).rest.length ≤ bound by omega)
          have unfolded : many item stop (bound + 1) tokens =
              (item >>= fun first => do return first.toList ++ (← many item stop bound)) tokens := by
            rw [many]
            simp only [stops, Bool.false_eq_true, if_false]
          rw [unfolded, bind_of_value isFirst, bind_of_value isItems]
          exact ⟨_, rfl, ends⟩

theorem value_declaration (bound : Nat) (tokens : List Token) :
    (declaration bound tokens).value ≠ none := by
  cases bound with
  | zero => exact value_recovering _ tokens
  | succ bound => exact value_recovering _ tokens

/-- Reading comes to the end of every complete token list, and looks no further. Any bound from the
length of the list on is as good as any other, whatever stands at the bottom of the nesting, and so no
bound is met. On the way, and anywhere else, every declaration that does not begin at the end moves
forward, also where it cannot be read. -/
theorem read_total (nesting : Nesting) {body : List Token} {last : Token} (inner : Inner body)
    (isLast : last.kind = .endOfInput) {bound : Nat} (enough : body.length < bound)
    (beyond : List Token) :
    nesting.program bound (body ++ last :: beyond) =
      ⟨some (read (body ++ [last])).statements, (read (body ++ [last])).errors, last :: beyond⟩ ∧
    ∀ depth tokens, atEnd tokens = false →
      (declaration depth tokens).rest <:+ tokens ∧
        (declaration depth tokens).rest.length < tokens.length := by
  refine ⟨?_, fun depth tokens inside =>
    ⟨(regular_statement_and_declaration depth).2.suffix tokens, declaration_length_lt depth inside⟩⟩
  have complete := complete_append inner isLast
  have length : (body ++ [last]).length = body.length + 1 := by simp
  have forward (tokens : List Token) (inside : atEnd tokens = false) :=
    declaration_length_lt (body ++ [last]).length inside
  have ⟨completeRest, _, same⟩ := nesting.settles_program
    (show (body ++ [last]).length ≤ bound by omega) _ complete (Nat.le_refl _)
  obtain ⟨statements, isValue, ends⟩ := many_ends (value_declaration (body ++ [last]).length) forward
    (Nat.le_refl (body ++ [last]).length) rfl
  have stopped : front (program (body ++ [last]).length (body ++ [last])).rest = .endOfInput := by
    simpa [atEnd, front, program] using ends
  have isRest := eq_last_of_suffix ((regular_program _).suffix _) completeRest stopped
  have reply := same beyond
  rw [List.append_assoc, List.singleton_append] at reply
  have value : (program (body ++ [last]).length (body ++ [last])).value =
      some (read (body ++ [last])).statements := by
    simp only [read, program, isValue, Option.getD_some]
  rw [reply, Reply.extend, value, isRest]
  rfl

/-- A brace that closes nothing and a word with nothing behind it are two mistakes, and the semicolon
behind the end is not looked at. -/
theorem read_total_stray_brace :
    let body : List Token := [ofSymbol .rightBrace 1, ofSymbol (.keyword .funWord) 1]
    let beyond : List Token := [ofSymbol .semicolon 2]
    Inner body ∧ (closing 1).kind = .endOfInput ∧ body.length < 3 ∧
      Nesting.standard.program 3 (body ++ closing 1 :: beyond) =
        ⟨some [], [⟨.missingExpression, ofSymbol .rightBrace 1⟩, ⟨.missingName .function, closing 1⟩],
          closing 1 :: beyond⟩ ∧
      (declaration 3 (body ++ [closing 1])).rest.length < 3 := by
  intro body beyond
  have inner : Inner body := by simp [body]
  have reads : read (body ++ [closing 1]) = ⟨[], [⟨.missingExpression, ofSymbol .rightBrace 1⟩,
      ⟨.missingName .function, closing 1⟩]⟩ := by decide +kernel
  have enough : body.length < 3 := Nat.lt_succ_self 2
  have isLast : (closing 1).kind = .endOfInput := rfl
  obtain ⟨program, forward⟩ := read_total Nesting.standard inner isLast enough beyond
  rw [reads] at program
  exact ⟨inner, isLast, enough, program, (forward 3 (body ++ [closing 1]) rfl).2⟩

end Grammar

end LoxInterpreter
