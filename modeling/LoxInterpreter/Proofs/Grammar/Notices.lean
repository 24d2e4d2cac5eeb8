import LoxInterpreter.Proofs.Grammar.Bounds

/-!
Contract: the order in which mistakes of grammar are noted.

Mistakes are noted where the parser stands, and the parser only moves forward, so they come in the order
of the source. There is one exception: that a target cannot be assigned to is noted at the sign of the
assignment once its value has been read, and so behind every mistake inside that value.

Owns: `Notice`, its order, and `errors_in_order`.
Does not own: how far an expression is read (`Proofs.Grammar.Bounds`).
-/

namespace LoxInterpreter.Grammar

open Token LoxInterpreter.Grammar.Parser

/-- A mistake, with the tokens from the one it is about on, and the tokens that were left when it was
noted. -/
structure Notice where
  error : SyntaxError
  place : List Token
  left : List Token

namespace Notice

/-- Whether a notice stands where it says: a mistake is noted at its token, apart from a target that
cannot be assigned to, which is noted where the assigned value ends. -/
def Sound (notice : Notice) : Prop :=
  ∃ behind, notice.place = notice.error.token :: behind ∧
    if notice.error.cause = .invalidAssignmentTarget then
      ∀ bound, behind.length ≤ bound →
        (expression bound behind).value ≠ none ∧ (expression bound behind).rest = notice.left
    else notice.left = notice.place

/-- Whether the place of another notice is inside the tokens that were read for this one. -/
def Encloses (notice other : Notice) : Prop :=
  notice.left.length < other.place.length ∧ other.place.length < notice.place.length

/-- How two notices stand to each other when the first is noted before the second: in the order of
their places, unless the second one encloses the first. -/
def Before (first second : Notice) : Prop :=
  ¬ first.Encloses second ∧ (second.place.length ≤ first.place.length ∨ second.Encloses first)

theorem Sound.left_suffix {notice : Notice} (sound : notice.Sound) : notice.left <:+ notice.place := by
  obtain ⟨behind, isPlace, reached⟩ := sound
  split at reached
  · have taken := (regular_unary_and_expression behind.length).2.suffix behind
    rw [(reached _ (Nat.le_refl _)).2] at taken
    rw [isPlace]
    exact taken.trans (List.suffix_cons _ _)
  · exact reached ▸ List.suffix_refl _

end Notice

/-! ## Replies -/

/-- Whether some notices are those of a run from some tokens to others, in order. -/
structure Chronicle (tokens rest : List Token) (notices : List Notice) : Prop where
  sound : ∀ notice ∈ notices, notice.Sound
  within : ∀ notice ∈ notices, notice.place <:+ tokens ∧ rest <:+ notice.left
  order : notices.Pairwise Notice.Before

namespace Chronicle

variable {tokens between rest : List Token} {notices later : List Notice}

theorem nil : Chronicle tokens rest [] :=
  ⟨by simp, by simp, .nil⟩

theorem append (first : Chronicle tokens between notices) (second : Chronicle between rest later)
    (moved : between <:+ tokens) (movedOn : rest <:+ between) :
    Chronicle tokens rest (notices ++ later) where
  sound notice member := (List.mem_append.mp member).elim (first.sound notice) (second.sound notice)
  within notice member := by
    rcases List.mem_append.mp member with early | late
    · have ⟨placed, reached⟩ := first.within notice early
      exact ⟨placed, movedOn.trans reached⟩
    · have ⟨placed, reached⟩ := second.within notice late
      exact ⟨placed.trans moved, reached⟩
  order := by
    refine List.pairwise_append.mpr ⟨first.order, second.order, fun early isEarly late isLate => ?_⟩
    -- What is noted later is about tokens that were still left when the earlier mistake was noted.
    have reached := ((first.within early isEarly).2).length_le
    have placed := ((second.within late isLate).1).length_le
    have taken := (first.sound early isEarly).left_suffix.length_le
    refine ⟨fun encloses => ?_, .inl (by omega)⟩
    have inside := encloses.1
    omega

/-- The same notices, from an earlier token on. -/
theorem behind {token : Token} (chronicle : Chronicle tokens rest notices) :
    Chronicle (token :: tokens) rest notices where
  sound := chronicle.sound
  within notice member :=
    have ⟨placed, reached⟩ := chronicle.within notice member
    ⟨placed.trans (List.suffix_cons _ _), reached⟩
  order := chronicle.order

/-- A notice about a token in front of all the others, noted after them. -/
theorem enclose {error : SyntaxError} {token : Token} (chronicle : Chronicle tokens rest notices)
    (sound : Notice.Sound ⟨error, token :: tokens, rest⟩)
    (passed : ∀ notice ∈ notices, rest.length < notice.place.length) :
    Chronicle (token :: tokens) rest (notices ++ [⟨error, token :: tokens, rest⟩]) where
  sound := by simpa [or_imp, forall_and] using ⟨chronicle.sound, sound⟩
  within := by simpa [or_imp, forall_and] using chronicle.behind.within
  order := by
    refine List.pairwise_append.mpr ⟨chronicle.order, List.pairwise_singleton _ _, ?_⟩
    intro notice member late isLate
    rw [List.mem_singleton.mp isLate]
    have inside : notice.place.length < (token :: tokens).length :=
      Nat.lt_succ_of_le ((chronicle.within notice member).1).length_le
    exact ⟨fun encloses => Nat.lt_asymm encloses.2 inside, .inr ⟨passed notice member, inside⟩⟩

/-- The same notices, up to a later token. -/
theorem reach (chronicle : Chronicle tokens between notices) (movedOn : rest <:+ between) :
    Chronicle tokens rest notices where
  sound := chronicle.sound
  within notice member :=
    have ⟨placed, reached⟩ := chronicle.within notice member
    ⟨placed, movedOn.trans reached⟩
  order := chronicle.order

end Chronicle

variable {α β : Type} {limit : Nat} {past : Prop}

/-- Whether the mistakes of a reply to some tokens were noted in order. Where it is asked for, those of
a reply with a value are about tokens that have been passed. -/
structure Chronicled (past : Prop) (tokens : List Token) (reply : Reply α) : Prop where
  complete : Complete reply.rest
  suffix : reply.rest <:+ tokens
  notices : ∃ notices, notices.map Notice.error = reply.errors ∧
    Chronicle tokens reply.rest notices ∧
    (past → reply.value ≠ none → ∀ notice ∈ notices, reply.rest.length < notice.place.length)

/-- A sequence is chronicled where both halves are. -/
theorem Chronicled.bind {first : Parser α} {next : α → Parser β} {tokens : List Token}
    (chronicled : Chronicled past tokens (first tokens))
    (chronicledNext : ∀ value, (first tokens).value = some value →
      Chronicled past (first tokens).rest (next value (first tokens).rest)) :
    Chronicled past tokens ((first >>= next) tokens) := by
  obtain ⟨notices, same, chronicle, passed⟩ := chronicled.notices
  cases isValue : (first tokens).value with
  | none =>
      rw [bind_of_none isValue]
      exact ⟨chronicled.complete, chronicled.suffix, notices, same, chronicle, by simp⟩
  | some value =>
      have second := chronicledNext value isValue
      obtain ⟨later, sameLater, chronicleLater, passedLater⟩ := second.notices
      rw [bind_of_value isValue]
      refine ⟨second.complete, second.suffix.trans chronicled.suffix, notices ++ later, ?_,
        chronicle.append chronicleLater chronicled.suffix second.suffix, ?_⟩
      · rw [List.map_append, same, sameLater]
      · intro asked replied notice member
        rcases List.mem_append.mp member with early | late
        · have before := passed asked (by rw [isValue]; simp) notice early
          exact Nat.lt_of_le_of_lt second.suffix.length_le before
        · exact passedLater asked replied notice late

/-- Whether this is so for every reply of a parser to complete lists up to a length. -/
def Parser.Orderly (past : Prop) (limit : Nat) (parser : Parser α) : Prop :=
  ∀ tokens, Complete tokens → tokens.length ≤ limit → Chronicled past tokens (parser tokens)

namespace Parser

theorem Orderly.mono {parser : Parser α} {smaller : Nat} (orderly : parser.Orderly past limit)
    (le : smaller ≤ limit) : parser.Orderly past smaller :=
  fun tokens complete short => orderly tokens complete (Nat.le_trans short le)

theorem Orderly.weaken {parser : Parser α} (orderly : parser.Orderly past limit) :
    parser.Orderly False limit := by
  intro tokens complete short
  have chronicled := orderly tokens complete short
  obtain ⟨notices, same, chronicle, _⟩ := chronicled.notices
  exact ⟨chronicled.complete, chronicled.suffix, notices, same, chronicle, False.elim⟩

theorem orderly_zero {parser : Parser α} : parser.Orderly past 0 := by
  intro tokens complete short
  have pos := complete.length_pos
  omega

/-! ## Primitives -/

/-- A parser that notes nothing is orderly. -/
theorem orderly_of_silent {parser : Parser α} (silent : ∀ tokens, (parser tokens).errors = [])
    (regular : parser.Regular) (settles : Settles limit parser parser) :
    parser.Orderly past limit := by
  intro tokens complete short
  refine ⟨(settles tokens complete short).1, regular.suffix tokens, [], ?_, .nil, by simp⟩
  rw [silent]
  rfl

theorem orderly_pure (value : α) : (pure value : Parser α).Orderly past limit :=
  orderly_of_silent (fun _ => rfl) (regular_pure value) (settles_pure value)

theorem orderly_nextIs (kind : Token.Kind) : (nextIs kind).Orderly past limit :=
  orderly_of_silent (fun _ => rfl) (regular_nextIs kind) (settles_nextIs kind)

theorem errors_take? (choose : Token → Option α) (tokens : List Token) :
    (take? choose tokens).errors = [] := by
  unfold take?
  split
  · rfl
  · split
    · rfl
    · split <;> rfl

theorem orderly_take? (choose : Token → Option α) : (take? choose).Orderly past limit :=
  orderly_of_silent (errors_take? choose) (regular_take? choose) (settles_take? choose)

/-- The notice of a mistake at the front. -/
theorem sound_here {cause : SyntaxError.Cause} (noTarget : cause ≠ .invalidAssignmentTarget)
    {tokens : List Token} (complete : Complete tokens) :
    Notice.Sound ⟨⟨cause, currentToken tokens⟩, tokens, tokens⟩ := by
  cases complete with
  | last _ => exact ⟨[], rfl, by simp [noTarget]⟩
  | @cons token rest _ _ => exact ⟨rest, rfl, by simp [noTarget]⟩

theorem chronicle_here {cause : SyntaxError.Cause} (noTarget : cause ≠ .invalidAssignmentTarget)
    {tokens : List Token} (complete : Complete tokens) :
    Chronicle tokens tokens [⟨⟨cause, currentToken tokens⟩, tokens, tokens⟩] where
  sound := by simpa using sound_here noTarget complete
  within := by simp
  order := List.pairwise_singleton _ _

theorem orderly_fail {cause : SyntaxError.Cause} (noTarget : cause ≠ .invalidAssignmentTarget) :
    (fail cause : Parser α).Orderly past limit := by
  intro tokens complete _
  exact ⟨complete, List.suffix_refl _, _, rfl, chronicle_here noTarget complete, by simp [fail]⟩

/-! ## Sequences -/

theorem Orderly.bind {first : Parser α} {next : α → Parser β} (orderly : first.Orderly past limit)
    (orderlyNext : ∀ value, (next value).Orderly past limit) :
    (first >>= next).Orderly past limit := by
  intro tokens complete short
  have chronicled := orderly tokens complete short
  exact chronicled.bind fun value _ => orderlyNext value _ chronicled.complete
    (Nat.le_trans chronicled.suffix.length_le short)

theorem orderly_take?_bind {choose : Token → Option α} {next : Option α → Parser β}
    (taken : ∀ value, (next (some value)).Orderly past limit)
    (declined : (next none).Orderly past (limit + 1)) :
    (take? choose >>= next).Orderly past (limit + 1) := by
  intro tokens complete short
  have chronicled : Chronicled past tokens (take? choose tokens) :=
    orderly_take? choose tokens complete short
  refine chronicled.bind fun choice replied => ?_
  cases choice with
  | none => exact declined _ chronicled.complete (Nat.le_trans chronicled.suffix.length_le short)
  | some value =>
      have progress := advances_take? choose tokens value replied
      exact taken value _ chronicled.complete (by omega)

/-- A token of some kind is taken from the front of the list that what follows it is about. -/
theorem orderly_accept?_bind {kind : Token.Kind} {next : Option Token → Parser β}
    (taken : ∀ token behind, Complete behind → behind.length ≤ limit →
      Chronicled past (token :: behind) (next (some token) behind))
    (declined : (next none).Orderly past (limit + 1)) :
    (accept? kind >>= next).Orderly past (limit + 1) := by
  intro tokens complete short
  have replied {choice : Option Token} {rest : List Token}
      (asked : accept? kind tokens = ⟨some choice, [], rest⟩) :
      (accept? kind >>= next) tokens = next choice rest := by
    change Parser.bind (accept? kind) next tokens = _
    simp only [Parser.bind, asked, List.nil_append]
  cases complete with
  | @last token closes =>
      rw [replied (show accept? kind [token] = ⟨some none, [], [token]⟩ by
        simp [accept?, take?, closes])]
      exact declined [token] (.last closes) short
  | @cons token behind inner complete =>
      by_cases same : token.kind = kind
      · rw [replied (show accept? kind (token :: behind) = ⟨some (some token), [], behind⟩ by
          simp [accept?, take?, inner, ← same])]
        exact taken token behind complete (Nat.le_of_succ_le_succ short)
      · rw [replied (show accept? kind (token :: behind) = ⟨some none, [], token :: behind⟩ by
          simp [accept?, take?, inner, same])]
        exact declined (token :: behind) (.cons inner complete) short

theorem orderly_accept_bind {kind : Token.Kind} {next other : Parser β}
    (taken : next.Orderly past limit) (declined : other.Orderly past (limit + 1)) :
    (do if ← accept kind then next else other).Orderly past (limit + 1) := by
  rw [accept_bind_eq]
  exact orderly_take?_bind (fun _ => taken) declined

theorem orderly_accept (kind : Token.Kind) : (accept kind).Orderly past limit :=
  (orderly_take? _).bind fun _ => orderly_pure _

theorem orderly_expect (kind : Token.Kind) {cause : SyntaxError.Cause}
    (noTarget : cause ≠ .invalidAssignmentTarget) : (expect kind cause).Orderly past limit := by
  refine (orderly_take? _).bind fun taken => ?_
  cases taken with
  | none => exact orderly_fail noTarget
  | some token => exact orderly_pure token

theorem orderly_expectMark (mark : Token.Kind) (site : Site) :
    (expectMark mark site).Orderly past limit :=
  orderly_expect mark (by simp)

theorem orderly_ite {condition : Prop} [Decidable condition] {first second : Parser α}
    (orderly : first.Orderly past limit) (orderlyOther : second.Orderly past limit) :
    (if condition then first else second).Orderly past limit := by
  split
  · exact orderly
  · exact orderlyOther

/-- A mistake at the front is passed by what takes a token behind it. -/
theorem orderly_reportHere_bind {cause : SyntaxError.Cause} {next : Parser α}
    (noTarget : cause ≠ .invalidAssignmentTarget) (orderly : next.Orderly past limit)
    (consumes : next.Consumes) : (do reportHere cause; next).Orderly past limit := by
  intro tokens complete short
  have later := orderly tokens complete short
  obtain ⟨notices, same, chronicle, passed⟩ := later.notices
  have replied : (do reportHere cause; next) tokens = ⟨(next tokens).value,
      ⟨cause, currentToken tokens⟩ :: (next tokens).errors, (next tokens).rest⟩ :=
    bind_of_value rfl
  rw [replied]
  have here := chronicle_here noTarget complete
  refine ⟨later.complete, later.suffix, _ :: notices, ?_,
    here.append chronicle (List.suffix_refl _) later.suffix, ?_⟩
  · rw [List.map_cons, same]
  · intro asked isValue notice member
    rcases List.mem_cons.mp member with rfl | member
    · obtain ⟨value, isSome⟩ := Option.ne_none_iff_exists'.mp isValue
      exact consumes tokens value isSome
    · exact passed asked isValue notice member

/-! ## Repetition -/

theorem orderly_grow {step : α → Parser (Option α)}
    (orderly : ∀ value, (step value).Orderly past limit) (bound : Nat) (value : α) :
    (grow step bound value).Orderly past limit := by
  induction bound generalizing value with
  | zero => exact orderly_pure value
  | succ bound inductionHypothesis =>
      refine (orderly value).bind fun grown => ?_
      cases grown with
      | none => exact orderly_pure value
      | some grown => exact inductionHypothesis grown

theorem orderly_commaSeparated {item : Parser α} {excess : SyntaxError.Cause}
    (noTarget : excess ≠ .invalidAssignmentTarget) (orderly : item.Orderly past limit)
    (regular : item.Regular) (consumes : item.Consumes) (bound count : Nat) :
    (commaSeparated item excess bound count).Orderly past limit := by
  induction bound generalizing count with
  | zero => exact orderly_pure _
  | succ bound inductionHypothesis =>
      let following : Parser (List α) := do
        let first ← item
        if ← accept .comma then
          return first :: (← commaSeparated item excess bound (count + 1))
        else return [first]
      have orderlyFollowing : following.Orderly past limit :=
        orderly.bind fun first => (orderly_accept .comma).bind fun _ =>
          orderly_ite ((inductionHypothesis (count + 1)).bind fun _ => orderly_pure _) (orderly_pure _)
      have consumesFollowing : following.Consumes := by
        refine consumes.bind fun first => (regular_accept .comma).bind fun _ => ?_
        exact regular_ite
          ((regular_commaSeparated regular bound (count + 1)).bind fun _ => regular_pure _)
          (regular_pure _)
      rw [commaSeparated]
      exact orderly_ite (orderly_reportHere_bind noTarget orderlyFollowing consumesFollowing)
        orderlyFollowing

theorem orderly_list {item : Parser α} {excess : SyntaxError.Cause}
    (noTarget : excess ≠ .invalidAssignmentTarget) (orderly : item.Orderly past limit)
    (regular : item.Regular) (consumes : item.Consumes) (bound : Nat) :
    (list item excess bound).Orderly past limit :=
  (orderly_nextIs .rightParen).bind fun _ =>
    orderly_ite (orderly_pure _) (orderly_commaSeparated noTarget orderly regular consumes bound 0)

theorem orderly_recovering {parser : Parser α} (orderly : parser.Orderly False limit) :
    parser.recovering.Orderly False limit := by
  intro tokens complete short
  have chronicled := orderly tokens complete short
  cases isValue : (parser tokens).value with
  | some value =>
      rw [recovering_of_value isValue]
      obtain ⟨notices, same, chronicle, _⟩ := chronicled.notices
      exact ⟨chronicled.complete, chronicled.suffix, notices, same, chronicle, False.elim⟩
  | none =>
      rw [recovering_of_none isValue]
      obtain ⟨notices, same, chronicle, _⟩ := chronicled.notices
      have skipped := resumption_suffix (parser tokens).rest
      exact ⟨(resumption_append chronicled.complete []).1, skipped.trans chronicled.suffix, notices,
        same, chronicle.reach skipped, False.elim⟩

theorem orderly_many {item : Parser (Option α)} {stop : List Token → Bool}
    (orderly : item.Orderly past limit) (bound : Nat) : (many item stop bound).Orderly past limit := by
  induction bound with
  | zero => exact orderly_pure _
  | succ bound inductionHypothesis =>
      have following : (do
          let first ← item
          return first.toList ++ (← many item stop bound) : Parser (List α)).Orderly past limit :=
        orderly.bind fun _ => inductionHypothesis.bind fun _ => orderly_pure _
      intro tokens complete short
      simp only [many]
      cases stops : stop tokens with
      | true => exact orderly_pure _ tokens complete short
      | false => exact following tokens complete short

end Parser

/-! ## Expressions -/

section Expressions

variable {bound : Nat} {nested nestedUnary operand : Parser (Expression Unit)}

theorem orderly_primaryRule (orderly : nested.Orderly past limit) :
    (primaryRule nested).Orderly past (limit + 1) := by
  refine orderly_take?_bind (fun atom => orderly_pure atom) ?_
  refine orderly_accept_bind ?_ (orderly_fail (by simp))
  exact orderly.bind fun _ => (orderly_expectMark _ _).bind fun _ => orderly_pure _

theorem orderly_callStep (orderly : nested.Orderly past limit) (regular : nested.Regular)
    (consumes : nested.Consumes) (callee : Expression Unit) :
    (callStep nested bound callee).Orderly past (limit + 1) := by
  refine orderly_accept_bind ?_ (orderly_pure _)
  exact (orderly_list (by simp) orderly regular consumes bound).bind fun _ =>
    (orderly_expectMark _ _).bind fun _ => orderly_pure _

theorem orderly_unaryRule (orderlyUnary : nestedUnary.Orderly past limit)
    (orderly : nested.Orderly past limit) (regular : nested.Regular) (consumes : nested.Consumes) :
    (unaryRule nestedUnary nested bound).Orderly past (limit + 1) := by
  refine orderly_take?_bind (fun _ => orderlyUnary.bind fun _ => orderly_pure _) ?_
  exact (orderly_primaryRule orderly).bind fun callee =>
    orderly_grow (orderly_callStep orderly regular consumes) bound callee

theorem orderly_operatorsRule (orderly : operand.Orderly past limit) (levels : List Level) :
    (operatorsRule operand bound levels).Orderly past limit := by
  induction levels with
  | nil => exact orderly
  | cons level tighter inductionHypothesis =>
      refine inductionHypothesis.bind fun left => orderly_grow (fun _ => ?_) bound left
      refine (orderly_take? level.build?).bind fun build => ?_
      cases build with
      | none => exact orderly_pure _
      | some build => exact inductionHypothesis.bind fun _ => orderly_pure _

/-- Behind the sign of an assignment. Where the target cannot be assigned to, that is noted after the
mistakes in the value, and about a token in front of them. -/
theorem chronicled_assigned {equals : Token} {behind : List Token}
    (chronicled : Chronicled True behind (nested behind))
    (same : ∀ bound, behind.length ≤ bound → expression bound behind = nested behind)
    (target : Expression Unit) :
    Chronicled True (equals :: behind)
      ((do
        let value ← nested
        match target with
        | .variable name reference => return .assignment name reference value
        | _ =>
            report .invalidAssignmentTarget equals
            return target : Parser (Expression Unit)) behind) := by
  have ⟨complete, suffix, notices, sameErrors, chronicle, passed⟩ := chronicled
  have suffixAll : (nested behind).rest <:+ equals :: behind := suffix.trans (List.suffix_cons _ _)
  cases isValue : (nested behind).value with
  | none =>
      rw [bind_of_none isValue]
      exact ⟨complete, suffixAll, notices, sameErrors, chronicle.behind, by simp⟩
  | some value =>
      rw [bind_of_value isValue]
      have passedAll := passed trivial (by rw [isValue]; simp)
      let late : Notice :=
        ⟨⟨.invalidAssignmentTarget, equals⟩, equals :: behind, (nested behind).rest⟩
      have lateSound : late.Sound := by
        refine ⟨behind, rfl, ?_⟩
        simp only [late, if_true]
        intro bound enough
        rw [same bound enough, isValue]
        simp
      have passedWhole : ∀ notice ∈ notices ++ [late],
          (nested behind).rest.length < notice.place.length := by
        intro notice member
        rcases List.mem_append.mp member with member | member
        · exact passedAll notice member
        · rw [List.mem_singleton.mp member]
          exact Nat.lt_succ_of_le suffix.length_le
      cases target with
      | «variable» name reference =>
          refine ⟨complete, suffixAll, notices, ?_, chronicle.behind, fun _ _ => passedAll⟩
          simpa [Pure.pure, Parser.pure] using sameErrors
      | _ =>
          refine ⟨complete, suffixAll, notices ++ [late], ?_,
            chronicle.enclose lateSound passedAll, fun _ _ => passedWhole⟩
          rw [List.map_append, sameErrors]
          rfl

theorem orderly_assignmentRule (orderlyOperand : operand.Orderly True (limit + 1))
    (orderly : nested.Orderly True limit)
    (same : ∀ tokens, Complete tokens → tokens.length ≤ limit → ∀ bound, tokens.length ≤ bound →
      expression bound tokens = nested tokens) :
    (assignmentRule operand nested bound).Orderly True (limit + 1) := by
  refine (orderly_operatorsRule orderlyOperand Level.all).bind fun target => ?_
  refine orderly_accept?_bind (fun equals behind complete short => ?_) (orderly_pure target)
  exact chronicled_assigned (orderly behind complete short) (same behind complete short) target

/-- Every bound from the length of the tokens on gives the same reply. -/
theorem expression_eq {tokens : List Token} (complete : Complete tokens) {bound bound' : Nat}
    (enough : tokens.length ≤ bound) (enough' : tokens.length ≤ bound') :
    expression bound' tokens = expression bound tokens := by
  have settles := (Nesting.standard.settles_unary_and_expression tokens.length enough enough').2
  have ⟨_, _, same⟩ := settles tokens complete (Nat.le_refl _)
  simpa [Reply.extend, Nesting.standard] using same []

theorem orderly_unary_and_expression (limit : Nat) {bound : Nat} (enough : limit ≤ bound) :
    (unary bound).Orderly True limit ∧ (expression bound).Orderly True limit := by
  induction limit generalizing bound with
  | zero => exact ⟨orderly_zero, orderly_zero⟩
  | succ limit inductionHypothesis =>
      obtain ⟨bound, rfl⟩ := Nat.exists_eq_add_of_le' (Nat.le_trans (Nat.le_add_left 1 limit) enough)
      have within : limit ≤ bound := Nat.le_of_succ_le_succ enough
      have ⟨orderlyUnary, orderly⟩ := inductionHypothesis within
      have operands : (unary (bound + 1)).Orderly True (limit + 1) :=
        orderly_unaryRule orderlyUnary orderly (regular_unary_and_expression bound).2
          (consumes_unary_and_expression bound).2
      refine ⟨operands, orderly_assignmentRule operands orderly fun tokens complete short _ adequate => ?_⟩
      exact expression_eq complete (Nat.le_trans short within) adequate

end Expressions

/-! ## Statements -/

section Statements

variable {bound : Nat} {nested : Parser (Expression Unit)} {statement : Parser (Statement Unit)}
  {declaration : Parser (Option (Statement Unit))}

theorem orderly_nameRule (role : NameRole) : (nameRule role).Orderly past limit :=
  (orderly_expect _ (by simp)).bind fun _ => orderly_pure _

/-- What is read in front of a mark, with the mark. -/
theorem orderly_marked {α : Type} {parser : Parser α} (orderly : parser.Orderly past limit)
    (mark : Token.Kind) (site : Site) {build : α → Statement Unit} :
    (do
      let value ← parser
      let _ ← expectMark mark site
      return build value : Parser (Statement Unit)).Orderly past limit :=
  orderly.bind fun _ => (orderly_expectMark _ _).bind fun _ => orderly_pure _

theorem orderly_optionalBefore (orderly : nested.Orderly past limit) (mark : Token.Kind) :
    (optionalBefore mark nested).Orderly past limit :=
  (orderly_nextIs mark).bind fun _ =>
    orderly_ite (orderly_pure _) (orderly.bind fun _ => orderly_pure _)

theorem orderly_variableRule (orderly : nested.Orderly past limit) :
    (variableRule nested).Orderly past limit := by
  refine (orderly_nameRule _).bind fun name => (orderly_accept .equal).bind fun _ => ?_
  have closing (initializer : Option (Expression Unit)) : (do
      let _ ← expectMark .semicolon .afterVariableDeclaration
      return .declaration name initializer : Parser (Statement Unit)).Orderly past limit :=
    (orderly_expectMark _ _).bind fun _ => orderly_pure _
  exact orderly_ite (orderly.bind fun _ => closing _) (closing _)

theorem orderly_forRule (orderly : nested.Orderly past limit)
    (orderlyStatement : statement.Orderly past limit) :
    (forRule nested statement).Orderly past limit := by
  have initializer : (initializerRule nested).Orderly past limit :=
    (orderly_accept .semicolon).bind fun _ => orderly_ite (orderly_pure _)
      ((orderly_accept _).bind fun _ => orderly_ite
        ((orderly_variableRule orderly).bind fun _ => orderly_pure _)
        ((orderly_marked orderly .semicolon .afterExpression).bind fun _ => orderly_pure _))
  refine (orderly_expectMark _ _).bind fun _ => initializer.bind fun _ => ?_
  refine (orderly_optionalBefore orderly _).bind fun _ => (orderly_expectMark _ _).bind fun _ => ?_
  refine (orderly_optionalBefore orderly _).bind fun _ => (orderly_expectMark _ _).bind fun _ => ?_
  exact orderlyStatement.bind fun _ => orderly_pure _

theorem orderly_conditionalRule (orderly : nested.Orderly past limit)
    (orderlyStatement : statement.Orderly past limit) :
    (conditionalRule nested statement).Orderly past limit := by
  refine (orderly_expectMark _ _).bind fun _ => orderly.bind fun _ => ?_
  refine (orderly_expectMark _ _).bind fun _ => orderlyStatement.bind fun _ => ?_
  exact (orderly_accept _).bind fun _ =>
    orderly_ite (orderlyStatement.bind fun _ => orderly_pure _) (orderly_pure _)

theorem orderly_whileRule (orderly : nested.Orderly past limit)
    (orderlyStatement : statement.Orderly past limit) :
    (whileRule nested statement).Orderly past limit :=
  (orderly_expectMark _ _).bind fun _ => orderly.bind fun _ => (orderly_expectMark _ _).bind fun _ =>
    orderlyStatement.bind fun _ => orderly_pure _

theorem orderly_blockRule (orderly : declaration.Orderly past limit) :
    (blockRule declaration bound).Orderly past limit :=
  (orderly_many orderly bound).bind fun _ => (orderly_expectMark _ _).bind fun _ => orderly_pure _

theorem orderly_functionRule (orderly : declaration.Orderly past limit) :
    (functionRule declaration bound).Orderly past limit := by
  have consumes : (nameRule .parameter).Consumes :=
    (consumes_expect _ _).bind fun _ => regular_pure _
  refine (orderly_nameRule _).bind fun _ => (orderly_expectMark _ _).bind fun _ => ?_
  refine (orderly_list (by simp) (orderly_nameRule _) (regular_nameRule _) consumes bound).bind
    fun _ => ?_
  refine (orderly_expectMark _ _).bind fun _ => (orderly_expectMark _ _).bind fun _ => ?_
  exact (orderly_blockRule orderly).bind fun _ => orderly_pure _

theorem orderly_statementRule (orderly : nested.Orderly past (limit + 1))
    (orderlyStatement : statement.Orderly past limit)
    (orderlyDeclaration : declaration.Orderly past limit) :
    (statementRule nested statement declaration bound).Orderly past (limit + 1) := by
  have orderlyNested := orderly.mono (Nat.le_succ limit)
  refine orderly_accept_bind (orderly_forRule orderlyNested orderlyStatement) ?_
  refine orderly_accept_bind (orderly_conditionalRule orderlyNested orderlyStatement) ?_
  refine orderly_accept_bind (orderly_marked orderlyNested .semicolon .afterValue) ?_
  refine orderly_take?_bind (fun keyword => orderly_marked
    (orderly_optionalBefore orderlyNested .semicolon) .semicolon .afterReturnValue) ?_
  refine orderly_accept_bind (orderly_whileRule orderlyNested orderlyStatement) ?_
  refine orderly_accept_bind ?_ (orderly_marked orderly .semicolon .afterExpression)
  exact (orderly_blockRule orderlyDeclaration).bind fun _ => orderly_pure _

theorem orderly_statement_and_declaration (limit : Nat) {bound : Nat} (enough : limit ≤ bound) :
    (Grammar.statement bound).Orderly False limit ∧ (Grammar.declaration bound).Orderly False limit := by
  induction limit generalizing bound with
  | zero => exact ⟨orderly_zero, orderly_zero⟩
  | succ limit inductionHypothesis =>
      have orderly := (orderly_unary_and_expression (limit + 1) enough).2.weaken
      obtain ⟨bound, rfl⟩ := Nat.exists_eq_add_of_le' (Nat.le_trans (Nat.le_add_left 1 limit) enough)
      have ⟨orderlyStatement, orderlyDeclaration⟩ :=
        inductionHypothesis (Nat.le_of_succ_le_succ enough)
      have statements : (Grammar.statement (bound + 1)).Orderly False (limit + 1) :=
        orderly_statementRule orderly orderlyStatement orderlyDeclaration
      refine ⟨statements, orderly_recovering (orderly_accept_bind ?_ (orderly_accept_bind ?_ statements))⟩
      · exact orderly_functionRule orderlyDeclaration
      · exact (orderly_variableRule orderly).mono (Nat.le_succ limit)

end Statements

/-! ## Programs -/

/-- The notices of a program that is read. -/
theorem exists_chronicle {tokens : List Token} (complete : Complete tokens) :
    ∃ rest notices, notices.map Notice.error = (read tokens).errors ∧
      Chronicle tokens rest notices := by
  have declarations := (orderly_statement_and_declaration tokens.length (Nat.le_refl _)).2
  have chronicled : Chronicled False tokens (program tokens.length tokens) :=
    orderly_many declarations tokens.length tokens complete (Nat.le_refl _)
  obtain ⟨notices, same, chronicle, _⟩ := chronicled.notices
  exact ⟨_, notices, same, chronicle⟩

/-- Notices that were noted one after another stand in the order of the source exactly where none of
them encloses another. -/
theorem inOrder_iff {notices : List Notice} (order : notices.Pairwise Notice.Before) :
    notices.Pairwise (fun first second => second.place.length ≤ first.place.length) ↔
      ∀ outer ∈ notices, ∀ inner ∈ notices, ¬ outer.Encloses inner := by
  constructor
  · intro sorted outer isOuter inner isInner
    have earlier : notices.Pairwise fun outer inner => ¬ outer.Encloses inner := order.imp And.left
    have later : notices.Pairwise (flip fun outer inner => ¬ outer.Encloses inner) :=
      sorted.imp fun {_ _} inOrder (encloses : Notice.Encloses _ _) =>
        Nat.not_le_of_lt encloses.2 inOrder
    have itself : ∀ notice ∈ notices, ¬ notice.Encloses notice :=
      fun _ _ encloses => Nat.lt_irrefl _ encloses.2
    exact List.Pairwise.forall_of_forall_of_flip itself earlier later isOuter isInner
  · intro separate
    refine List.pairwise_iff_forall_sublist.mpr fun {first second} inside => ?_
    have before := List.pairwise_iff_forall_sublist.mp order inside
    have members : first ∈ notices ∧ second ∈ notices := by simpa using inside.subset
    exact before.2.resolve_right (separate second members.2 first members.1)

/-- Mistakes come in the order of the source, up to what is assigned to something that cannot be
assigned to: such a mistake comes behind those in the value. Each mistake has its place among the tokens,
and all of them are in order exactly where no value that is assigned so has a mistake in it. -/
theorem errors_in_order {tokens : List Token} (complete : Complete tokens) :
    ∃ notices : List Notice, notices.map Notice.error = (read tokens).errors ∧
      (∀ notice ∈ notices, notice.place <:+ tokens ∧ notice.Sound) ∧
      notices.Pairwise Notice.Before ∧
      (notices.Pairwise (fun first second => second.place.length ≤ first.place.length) ↔
        ∀ outer ∈ notices, ∀ inner ∈ notices, ¬ outer.Encloses inner) := by
  obtain ⟨rest, notices, same, chronicle⟩ := exists_chronicle complete
  exact ⟨notices, same,
    fun notice member => ⟨(chronicle.within notice member).1, chronicle.sound notice member⟩,
    chronicle.order, inOrder_iff chronicle.order⟩

/-- Two assignments to a constant, one inside the other, on three lines. -/
def nestedAssignments : List Token :=
  [ofSymbol (.keyword .nilWord) 1, ofSymbol .equal 1, ofSymbol (.keyword .nilWord) 2,
    ofSymbol .equal 2, ofSymbol (.keyword .nilWord) 3, ofSymbol .semicolon 3, closing 3]

theorem complete_nestedAssignments : Complete nestedAssignments :=
  have inner : Inner nestedAssignments.dropLast := by simp [nestedAssignments]
  complete_append inner (show (closing 3).kind = .endOfInput from rfl)

/-- The mistake in the second line is noted before the one in the first. -/
theorem errors_nestedAssignments :
    (read nestedAssignments).errors = [⟨.invalidAssignmentTarget, ofSymbol .equal 2⟩,
      ⟨.invalidAssignmentTarget, ofSymbol .equal 1⟩] := by
  decide +kernel

theorem errors_in_order_nestedAssignments :
    Complete nestedAssignments ∧
      ∃ inner outer : Notice, inner.error = ⟨.invalidAssignmentTarget, ofSymbol .equal 2⟩ ∧
        outer.error = ⟨.invalidAssignmentTarget, ofSymbol .equal 1⟩ ∧
        inner.Sound ∧ outer.Sound ∧ inner.Before outer := by
  refine ⟨complete_nestedAssignments, ?_⟩
  obtain ⟨notices, same, placed, order, _⟩ := errors_in_order complete_nestedAssignments
  rw [errors_nestedAssignments] at same
  obtain ⟨inner, others, rfl, isInner, same⟩ := List.map_eq_cons_iff.mp same
  obtain ⟨outer, _, rfl, isOuter, _⟩ := List.map_eq_cons_iff.mp same
  exact ⟨inner, outer, isInner, isOuter, (placed inner (by simp)).2, (placed outer (by simp)).2,
    (List.pairwise_cons.mp order).1 outer (by simp)⟩

/-- Whether mistakes are in the order of the source: each is about one of the tokens, and none is about
a token in front of an earlier one. -/
def InSourceOrder (tokens : List Token) (errors : List SyntaxError) : Prop :=
  ∃ positions : List Nat, positions.Pairwise (· ≤ ·) ∧
    positions.map (fun position => tokens[position]?) = errors.map fun error => some error.token

/-- A mistake in an assigned value can come in front of one about the assignment. -/
theorem not_inSourceOrder :
    ¬ ∀ tokens, Complete tokens → InSourceOrder tokens (read tokens).errors := by
  intro ordered
  obtain ⟨positions, sorted, placed⟩ := ordered nestedAssignments complete_nestedAssignments
  rw [errors_nestedAssignments] at placed
  obtain ⟨second, others, rfl, isSecond, placed⟩ := List.map_eq_cons_iff.mp placed
  obtain ⟨first, _, rfl, isFirst, _⟩ := List.map_eq_cons_iff.mp placed
  have inOrder : second ≤ first := (List.pairwise_cons.mp sorted).1 first (by simp)
  have bound : first < nestedAssignments.length := (List.getElem?_eq_some_iff.mp isFirst).1
  have apart : ∀ first < nestedAssignments.length, ∀ second ≤ first,
      nestedAssignments[second]? = some (ofSymbol .equal 2) →
      nestedAssignments[first]? ≠ some (ofSymbol .equal 1) := by decide
  exact apart first bound second inOrder isSecond isFirst

end LoxInterpreter.Grammar
